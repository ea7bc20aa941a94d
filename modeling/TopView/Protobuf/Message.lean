import TopView.Protobuf.Acceptance

open topview.wire

namespace topview.protobuf

/-- A generated message, its own fields and those that it has no name for. -/
structure Message (Impl : Type) where
  impl : Impl
  unknown_fields : List Record
  deriving Repr

/-- A case of the `switch` on the tag, for the field that it reads. -/
def on_impl {Impl : Type} (handler : Handler Impl) : Handler (Message Impl) :=
  fun message ptr ctx => do
    let (ctx, ptr, impl) ← handler message.impl ptr ctx
    return (ctx, ptr, { message with impl := impl })

/-- `UnknownFieldParse` into the message's unknown fields. -/
def unknown_field_parse {Impl : Type} (rounds tag : Nat) : Handler (Message Impl) :=
  fun message ptr ctx => do
    let (ctx, ptr, unknown) ←
      field_parse (wire_format_parse rounds) tag message.unknown_fields ptr ctx
    return (ctx, ptr, { message with unknown_fields := unknown })

/-- `_InternalParse` with the cases of its `switch`, given a number of rounds. -/
def internal_parse {Impl : Type} (switch : Nat → Option (Handler Impl)) :
    Nat → Handler (Message Impl)
  | 0 => fun _ _ _ => .error .rounds
  | rounds + 1 =>
    parse_round (fun tag => (switch tag).map on_impl) (unknown_field_parse rounds)
      (internal_parse switch rounds)

/-- `GetDefaultRecursionLimit`. -/
def default_recursion_limit : Nat := 100

/-- `MergeFromImpl` on an array. -/
def merge_from_array {Impl : Type} (switch : Nat → Option (Handler Impl)) (message : Message Impl)
    (data : List UInt8) : Except Failure (Message Impl) := do
  let (ctx, ptr) := ParseContext.init_from default_recursion_limit data
  let (ctx, _, message) ← internal_parse switch (data.length + 1) message ptr ctx
  if ctx.ended_at_limit then return message else throw .nullptr

/-- What a record is to a message. `known` gives the tags of the message's own
    fields. -/
def Message.absorb {Impl : Type} (known : Nat → Option (Impl → Record → Option Impl))
    (message : Message Impl) (record : Record) : Option (Message Impl) :=
  match known record.tag with
  | some absorb => (absorb message.impl record).map fun impl => { message with impl := impl }
  | none => some { message with unknown_fields := message.unknown_fields ++ [record] }

/-- The cases of the `switch` read the fields that `known` names. -/
structure Implements {Impl : Type} (switch : Nat → Option (Handler Impl))
    (known : Nat → Option (Impl → Record → Option Impl)) : Prop where
  none_iff (tag : Nat) : switch tag = none ↔ known tag = none
  handles {tag : Nat} {handler : Handler Impl} {absorb : Impl → Record → Option Impl} :
    switch tag = some handler → known tag = some absorb → ∀ rounds, Handles absorb rounds tag handler
  accepts {tag depth : Nat} {handler : Handler Impl} {absorb : Impl → Record → Option Impl}
    {payload : List UInt8} {record : Record} {impl read : Impl} :
    switch tag = some handler → known tag = some absorb → Payload maxSize depth tag payload record →
      absorb impl record = some read → ∀ rounds, Accepts handler rounds depth payload impl read

variable {Impl : Type} {switch : Nat → Option (Handler Impl)}
  {known : Nat → Option (Impl → Record → Option Impl)}

theorem Message.absorb_of_some {absorb : Impl → Record → Option Impl} (message : Message Impl)
    {record : Record} (hknown : known record.tag = some absorb) :
    message.absorb known record =
      (absorb message.impl record).map fun impl => { message with impl := impl } := by
  rw [Message.absorb, hknown]

theorem Message.absorb_of_none (message : Message Impl) {record : Record}
    (hknown : known record.tag = none) :
    message.absorb known record =
      some { message with unknown_fields := message.unknown_fields ++ [record] } := by
  rw [Message.absorb, hknown]

theorem foldlM_unknown {records : List Record}
    (hunnamed : ∀ record ∈ records, known record.tag = none) (message : Message Impl) :
    records.foldlM (Message.absorb known) message =
      some { message with unknown_fields := message.unknown_fields ++ records } := by
  induction records generalizing message with
  | nil => simp
  | cons record records ih =>
    rw [List.forall_mem_cons] at hunnamed
    rw [List.foldlM_cons, Message.absorb_of_none _ hunnamed.1, Option.bind_eq_bind, Option.bind_some,
      ih hunnamed.2]
    simp

theorem Handles.on_impl {absorb : Impl → Record → Option Impl} {handler : Handler Impl}
    {rounds tag : Nat} (hhandles : Handles absorb rounds tag handler) (hknown : known tag = some absorb) :
    Handles (Message.absorb known) rounds tag (on_impl handler) := by
  intro message ctx start depth encoded rest behind hreads hdrop hne hptr hrounds
  apply (hhandles message.impl ctx start depth encoded rest behind hreads hdrop hne hptr hrounds).bind
  intro result hhandled
  cases hhandled with
  | field hrest hpayload habsorb hleft =>
    refine .ok (.field hrest hpayload ?_ hleft)
    rw [Message.absorb_of_some _ (hpayload.tag_eq ▸ hknown), habsorb, Option.map_some]
  | overrun hover => exact .ok (.overrun hover)

theorem unknown_field_parse_handles {rounds tag : Nat} (hknown : known tag = none) (hrounds : 0 < rounds)
    (hgoes : ¬ (tag = 0 ∨ tag % 8 = 4)) :
    Handles (Message.absorb known) rounds tag (unknown_field_parse rounds tag) := by
  intro message ctx start depth encoded rest behind hreads hdrop hne hptr hlength
  have hhandles := (wire_format_parse_loops rounds).field_parse_handles hrounds hgoes
  apply (hhandles message.unknown_fields ctx start depth encoded rest behind hreads hdrop hne hptr
    hlength).bind
  intro result hhandled
  cases hhandled with
  | @field _ _ _ _ _ record hrest hpayload habsorb hleft =>
    rw [append_unknown, Option.some.injEq] at habsorb
    refine .ok (.field hrest hpayload ?_ hleft)
    rw [Message.absorb_of_none _ (hpayload.tag_eq ▸ hknown), ← habsorb]
  | overrun hover => exact .ok (.overrun hover)

/-- `_InternalParse` reads the fields that the message knows and keeps the
    others. -/
theorem Implements.internal_parse_loops (himplements : Implements switch known) (rounds : Nat) :
    Loops (Message.absorb known) rounds (internal_parse switch rounds) := by
  induction rounds with
  | zero =>
    constructor
    · intro _ _ _ _ rest _ hrounds
      exact absurd hrounds (Nat.not_lt_zero _)
    · intro _ _ _ _ hrounds
      exact absurd hrounds (Nat.lt_irrefl 0)
  | succ rounds ih =>
    apply Loops.parse_round
    · intro _ tag handler hswitch
      obtain ⟨own, hown, rfl⟩ := Option.map_eq_some_iff.mp hswitch
      cases hknown : known tag with
      | none =>
        rw [(himplements.none_iff tag).mpr hknown] at hown
        cases hown
      | some absorb => exact (himplements.handles hown hknown rounds).on_impl hknown
    · intro hrounds tag hswitch hgoes
      have hnone := (himplements.none_iff tag).mp (Option.map_eq_none_iff.mp hswitch)
      exact unknown_field_parse_handles hnone hrounds hgoes
    · exact ih

theorem Accepts.on_impl {handler : Handler Impl} {rounds depth : Nat} {payload : List UInt8}
    {impl read : Impl} (haccepts : Accepts handler rounds depth payload impl read)
    (unknown : List Record) :
    Accepts (on_impl handler) rounds depth payload ⟨impl, unknown⟩ ⟨read, unknown⟩ := by
  intro ctx ptr left hreads hptr hrounds
  obtain ⟨next, ptr', hok, hleft⟩ := haccepts ctx ptr left hreads hptr hrounds
  refine ⟨next, ptr', ?_, hleft⟩
  rw [protobuf.on_impl, hok]
  rfl

theorem Accepts.unknown_field_parse {rounds depth tag : Nat} {payload : List UInt8}
    {unknown read : List Record}
    (haccepts : Accepts (field_parse (wire_format_parse rounds) tag) rounds depth payload unknown read)
    (impl : Impl) :
    Accepts (unknown_field_parse rounds tag) rounds depth payload ⟨impl, unknown⟩ ⟨impl, read⟩ := by
  intro ctx ptr left hreads hptr hrounds
  obtain ⟨next, ptr', hok, hleft⟩ := haccepts ctx ptr left hreads hptr hrounds
  refine ⟨next, ptr', ?_, hleft⟩
  rw [protobuf.unknown_field_parse, hok]
  rfl

/-- The case of the `switch`, or the unknown fields, take up what may stand
    behind the tag. -/
theorem Implements.accepts_payload (himplements : Implements switch known) {tag depth : Nat}
    {payload : List UInt8} {record : Record} {message read : Message Impl}
    (hpayload : Payload maxSize depth tag payload record) (hgoes : ¬ (tag = 0 ∨ tag % 8 = 4))
    (hunknown : ∀ rounds unknown, Accepts (field_parse (wire_format_parse rounds) tag) rounds depth
      payload unknown (unknown ++ [record]))
    (habsorb : message.absorb known record = some read) (rounds : Nat) :
    AcceptsField (fun tag => (switch tag).map on_impl) (unknown_field_parse rounds) rounds depth tag
      payload message read := by
  rw [Message.absorb, hpayload.tag_eq] at habsorb
  rw [AcceptsField]
  cases hswitch : switch tag with
  | none =>
    rw [(himplements.none_iff tag).mp hswitch, Option.some.injEq] at habsorb
    rw [← habsorb]
    exact ⟨hgoes, (hunknown rounds message.unknown_fields).unknown_field_parse message.impl⟩
  | some handler =>
    cases hknown : known tag with
    | none =>
      rw [(himplements.none_iff tag).mpr hknown] at hswitch
      cases hswitch
    | some absorb =>
      rw [hknown] at habsorb
      obtain ⟨impl, himpl, rfl⟩ := Option.map_eq_some_iff.mp habsorb
      exact (himplements.accepts hswitch hknown hpayload himpl rounds).on_impl message.unknown_fields

/-- A message is read whole from its fields. -/
theorem Implements.internal_parse_reaches (himplements : Implements switch known) {depth : Nat}
    {bytes : List UInt8} {records : List Record} (hfields : Fields maxSize depth bytes records) :
    ∀ message read, records.foldlM (Message.absorb known) message = some read →
      Reaches (internal_parse switch) depth bytes message read := by
  induction hfields with
  | nil =>
    intro message read hfold
    cases hfold
    exact .nil
  | plain htag hplain _ ih =>
    intro message read hfold
    rw [List.foldlM_cons] at hfold
    obtain ⟨mid, habsorb, hrest⟩ := Option.bind_eq_some_iff.mp hfold
    exact .cons (fun _ => rfl) htag
      (himplements.accepts_payload (.plain hplain) hplain.not_end
        (fun rounds unknown => field_parse_accepts_plain hplain _ rounds unknown) habsorb)
      (ih mid read hrest)
  | @group depth number start inner stop rest fields records hnumber hstart hinner hstop _ _ ih =>
    intro message read hfold
    rw [List.foldlM_cons] at hfold
    obtain ⟨mid, habsorb, hrest⟩ := Option.bind_eq_some_iff.mp hfold
    rw [← List.append_assoc inner]
    exact .cons (fun _ => rfl) hstart
      (himplements.accepts_payload (.group hnumber hinner hstop) (by omega)
        (fun rounds unknown => (reaches_of_fields hinner []).accepts_group hstop hnumber rounds unknown)
        habsorb)
      (ih mid read hrest)

/-- Whether the loop ended at the end of the array. -/
def accept (result : ParseContext × Nat × Message Impl) : Except Failure (Message Impl) :=
  if result.1.ended_at_limit then .ok result.2.2 else .error .nullptr

theorem accept_eq (ctx : ParseContext) (ptr : Nat) (message : Message Impl) :
    accept (ctx, ptr, message) =
      if ctx.last_tag_minus_1 = 0 then .ok message else .error .nullptr := by
  simp [accept, ParseContext.ended_at_limit]

theorem merge_from_array_eq (message : Message Impl) (data : List UInt8) :
    merge_from_array switch message data =
      internal_parse switch (data.length + 1) message
        (ParseContext.init_from default_recursion_limit data).2
        (ParseContext.init_from default_recursion_limit data).1 >>= accept := rfl

theorem init_from_reads (depth : Nat) (data : List UInt8) :
    Reads (ParseContext.init_from depth data).1 (ParseContext.init_from depth data).2 data depth :=
  ⟨ParseContext.init_from_stands _ _, ParseContext.init_from_depth _ _,
    ParseContext.init_from_last_tag _ _⟩

/-- The parse of an array reads nothing outside of the array and of its own
    buffer, it ends, and what it accepts is a sequence of fields that the
    message takes up. -/
theorem Implements.merge_from_array_yields (himplements : Implements switch known)
    (message : Message Impl) (data : List UInt8) :
    Yields (fun read => ∃ records, Fields maxSize default_recursion_limit data records ∧
      records.foldlM (Message.absorb known) message = some read) (merge_from_array switch message data) := by
  have hloops := (himplements.internal_parse_loops (data.length + 1)).yields message _ _ _ _
    (init_from_reads default_recursion_limit data) (Nat.lt_succ_self _)
  rw [merge_from_array_eq]
  apply hloops.bind
  intro result hended
  cases hended with
  | limit hfields hfold hreads =>
    rw [accept_eq, if_pos hreads.last_tag_eq]
    exact .ok ⟨_, hfields, hfold⟩
  | tag _ _ _ _ hend _ =>
    rw [accept_eq, ParseContext.set_last_tag_last, if_neg (minus_1_ne_zero hend)]
    exact .nullptr
  | overrun _ hlast =>
    rw [accept_eq, if_neg hlast]
    exact .nullptr

theorem Implements.eq_nullptr_of_error (himplements : Implements switch known) {message : Message Impl}
    {data : List UInt8} (failure : Failure) (herror : merge_from_array switch message data = .error failure) :
    failure = .nullptr := by
  have hyields := himplements.merge_from_array_yields message data
  rw [herror] at hyields
  cases hyields
  rfl

theorem Implements.merge_from_array_eq_ok (himplements : Implements switch known)
    {message read : Message Impl} {data : List UInt8} {records : List Record}
    (hfields : Fields maxSize default_recursion_limit data records)
    (hfold : records.foldlM (Message.absorb known) message = some read) :
    merge_from_array switch message data = .ok read := by
  have hreads := init_from_reads default_recursion_limit data
  rw [← List.append_nil data] at hreads
  obtain ⟨left, next, ptr, hreached, hend, hleft⟩ := himplements.internal_parse_reaches hfields message
    read hfold (data.length + 1) _ _ [] hreads (by simp)
  obtain ⟨left, rfl⟩ := Nat.exists_eq_succ_of_ne_zero (Nat.ne_of_gt (Nat.zero_lt_of_lt hleft))
  rw [List.append_nil] at hreached
  rw [merge_from_array_eq, hreached, internal_parse, parse_round, hend.stands.done_nil]
  exact if_pos (decide_eq_true hend.last_tag_eq)

/-- The bytes that a parse accepts are the sequences of fields that the
    message can take up, and what it makes of them is what the fields say. -/
theorem Implements.merge_from_array_eq_ok_iff (himplements : Implements switch known)
    {message read : Message Impl} {data : List UInt8} :
    merge_from_array switch message data = .ok read ↔
      ∃ records, Fields maxSize default_recursion_limit data records ∧
        records.foldlM (Message.absorb known) message = some read := by
  constructor
  · intro hok
    have hyields := himplements.merge_from_array_yields message data
    rw [hok] at hyields
    cases hyields with
    | ok hpost => exact hpost
  · rintro ⟨records, hfields, hfold⟩
    exact himplements.merge_from_array_eq_ok hfields hfold

/-- A message without fields of its own keeps everything. -/
theorem implements_none : Implements (fun _ => none : Nat → Option (Handler Impl)) (fun _ => none) := by
  constructor
  · simp
  · intro _ _ _ hswitch
    cases hswitch
  · intro _ _ _ _ _ _ _ _ hswitch
    cases hswitch

/-- Bytes are a sequence of fields in one way only. -/
theorem fields_unique {bytes : List UInt8} {first second : List Record}
    (hfirst : Fields maxSize default_recursion_limit bytes first)
    (hsecond : Fields maxSize default_recursion_limit bytes second) : first = second := by
  have hread {records : List Record} (hfields : Fields maxSize default_recursion_limit bytes records) :
      merge_from_array (fun _ => none) { impl := (), unknown_fields := [] } bytes =
        .ok { impl := (), unknown_fields := records } := by
    apply implements_none.merge_from_array_eq_ok hfields
    rw [foldlM_unknown (fun _ _ => rfl), List.nil_append]
  have hsame := (hread hfirst).symm.trans (hread hsecond)
  rw [Except.ok.injEq, Message.mk.injEq] at hsame
  exact hsame.2

end topview.protobuf
