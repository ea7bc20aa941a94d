import TopView.Protobuf.Stream

open topview.wire

namespace topview.protobuf

/-- A parser of a part of a message. It is given the part read so far, `ptr`
    and the context. -/
abbrev Handler (Part : Type) := Part → Nat → ParseContext → Except Failure (ParseContext × Nat × Part)

/-- `ParseContext::ParseGroup` for the fields of an unknown group. -/
def parse_group (parse : Handler (List Record)) (number : Nat) : Handler (List Record) :=
  fun unknown ptr ctx => do
    let ctx := { ctx with depth := ctx.depth - 1 }
    if ctx.depth < 0 then throw .nullptr
    else
      let (ctx, ptr, fields) ← parse [] ptr ctx
      let (ended, ctx) := { ctx with depth := ctx.depth + 1 }.consume_end_group (number * 8 + 3)
      if ended then return (ctx, ptr, unknown ++ [.group number fields]) else throw .nullptr

/-- `FieldParser` with an `UnknownFieldParserHelper`. -/
def field_parse (parse : Handler (List Record)) (tag : Nat) : Handler (List Record) :=
  fun unknown ptr ctx => do
    let number := tag / 8
    if number = 0 then throw .nullptr
    else
      match tag % 8 with
      | 0 =>
        let (ptr, value) ← read_varint64 ctx.memory ptr
        return (ctx, ptr, unknown ++ [.varint number value])
      | 1 =>
        let value ← unaligned_load 8 ctx.memory ptr
        return (ctx, ptr + 8, unknown ++ [.fixed64 number value])
      | 2 =>
        let (ctx, ptr, bytes) ← inline_greedy_string_parse ptr ctx
        return (ctx, ptr, unknown ++ [.length_delimited number bytes])
      | 3 => parse_group parse number unknown ptr ctx
      -- An end of a group never gets here.
      | 4 => throw .fatal
      | 5 =>
        let value ← unaligned_load 4 ctx.memory ptr
        return (ctx, ptr + 4, unknown ++ [.fixed32 number value])
      | _ => throw .nullptr

/-- One round of the loop of `WireFormatParser` and of the generated
    `_InternalParse` functions. The cases of their `switch` come first. -/
def parse_round {Part : Type} (switch : Nat → Option (Handler Part)) (unusual : Nat → Handler Part)
    (again : Handler Part) : Handler Part :=
  fun part ptr ctx => do
    let (ctx, ptr, done) ← ctx.done ptr
    if done then return (ctx, ptr, part)
    else
      let (ptr, tag) ← read_tag ctx.memory ptr
      match switch tag with
      | some handler =>
        let (ctx, ptr, part) ← handler part ptr ctx
        again part ptr ctx
      | none =>
        if tag = 0 ∨ tag % 8 = 4 then return (ctx.set_last_tag tag, ptr, part)
        else
          let (ctx, ptr, part) ← unusual tag part ptr ctx
          again part ptr ctx

/-- `WireFormatParser`, given a number of rounds. -/
def wire_format_parse : Nat → Handler (List Record)
  | 0 => fun _ _ _ => .error .rounds
  | rounds + 1 =>
    parse_round (fun _ => none) (field_parse (wire_format_parse rounds)) (wire_format_parse rounds)

/-- A parser does not read outside of the memory, does not end the process
    and ends within its rounds. If it does not fail, `post` holds of its
    result. -/
inductive Yields {Result : Type} (post : Result → Prop) : Except Failure Result → Prop
  | ok {value : Result} (hpost : post value) : Yields post (.ok value)
  | nullptr : Yields post (.error .nullptr)

theorem Yields.bind {First Second : Type} {result : Except Failure First}
    {next : First → Except Failure Second} {mid : First → Prop} {post : Second → Prop}
    (hresult : Yields mid result) (hnext : ∀ value, mid value → Yields post (next value)) :
    Yields post (result >>= next) := by
  cases hresult with
  | ok hmid => exact hnext _ hmid
  | nullptr => exact .nullptr

theorem Yields.mono {Result : Type} {result : Except Failure Result} {pre post : Result → Prop}
    (hresult : Yields pre result) (himp : ∀ value, pre value → post value) : Yields post result := by
  cases hresult with
  | ok hpre => exact .ok (himp _ hpre)
  | nullptr => exact .nullptr

/-- `ptr` stands in front of `rest`, and no tag has ended a parse. -/
structure Reads (ctx : ParseContext) (ptr : Nat) (rest : List UInt8) (depth : Nat) : Prop where
  stands : ctx.Stands ptr rest
  depth_eq : ctx.depth = depth
  last_tag_eq : ctx.last_tag_minus_1 = 0

/-- What the handler of a field leaves behind. It has read the field, or it
    has read past the end. -/
inductive Handled {Part : Type} (absorb : Part → Record → Option Part) (depth tag : Nat)
    (encoded rest : List UInt8) (part : Part) : ParseContext × Nat × Part → Prop
  | field {next : ParseContext} {ptr : Nat} {read : Part} {payload left : List UInt8} {record : Record}
      (hrest : rest = encoded ++ (payload ++ left))
      (hpayload : Payload maxSize depth tag payload record)
      (habsorb : absorb part record = some read) (hreads : Reads next ptr left depth) :
    Handled absorb depth tag encoded rest part (next, ptr, read)
  | overrun {next : ParseContext} {ptr : Nat} {read : Part} (hoverrun : next.Overrun ptr) :
    Handled absorb depth tag encoded rest part (next, ptr, read)

/-- The handler reads what may stand behind the tag. -/
def Handles {Part : Type} (absorb : Part → Record → Option Part) (rounds tag : Nat)
    (handler : Handler Part) : Prop :=
  ∀ (part : Part) (ctx : ParseContext) (start depth : Nat) (encoded rest behind : List UInt8),
    Reads ctx start rest depth → ctx.memory.drop start = encoded ++ behind → encoded ≠ [] →
      start + encoded.length ≤ ctx.buffer_end + 4 → rest.length ≤ rounds →
      Yields (Handled absorb depth tag encoded rest part) (handler part (start + encoded.length) ctx)

/-- How a loop ends. -/
inductive Ended {Part : Type} (absorb : Part → Record → Option Part) (depth : Nat)
    (rest : List UInt8) (part : Part) : ParseContext × Nat × Part → Prop
  | limit {next : ParseContext} {ptr : Nat} {read : Part} {records : List Record}
      (hfields : Fields maxSize depth rest records) (hfold : records.foldlM absorb part = some read)
      (hreads : Reads next ptr [] depth) : Ended absorb depth rest part (next, ptr, read)
  | tag {next : ParseContext} {ptr tag : Nat} {read : Part} {inner stop behind : List UInt8}
      {records : List Record} (hrest : rest = inner ++ (stop ++ behind))
      (hfields : Fields maxSize depth inner records) (hfold : records.foldlM absorb part = some read)
      (hstop : IsTag stop tag) (hend : tag = 0 ∨ tag % 8 = 4) (hreads : Reads next ptr behind depth) :
    Ended absorb depth rest part (next.set_last_tag tag, ptr, read)
  | overrun {next : ParseContext} {ptr : Nat} {read : Part} (hoverrun : next.Overrun ptr)
      (hlast : next.last_tag_minus_1 ≠ 0) : Ended absorb depth rest part (next, ptr, read)

/-- The loop reads a sequence of fields, up to the end or to a tag that ends
    it. -/
structure Loops {Part : Type} (absorb : Part → Record → Option Part) (rounds : Nat)
    (loop : Handler Part) : Prop where
  yields (part : Part) (ctx : ParseContext) (ptr depth : Nat) (rest : List UInt8) :
    Reads ctx ptr rest depth → rest.length < rounds →
      Yields (Ended absorb depth rest part) (loop part ptr ctx)
  overrun (part : Part) (ctx : ParseContext) (ptr : Nat) :
    ctx.Overrun ptr → 0 < rounds → loop part ptr ctx = .error .nullptr

/-- A field that is read within the memory was still to be read, or it goes
    past the end. -/
theorem Handled.of_drop {Part : Type} {absorb : Part → Record → Option Part} {depth tag start ptr : Nat}
    {encoded payload rest behind : List UInt8} {part read : Part} {record : Record} {ctx : ParseContext}
    (hreads : Reads ctx start rest depth)
    (hdrop : ctx.memory.drop start = encoded ++ (payload ++ behind))
    (hptr : ptr = start + encoded.length + payload.length)
    (hpayload : Payload maxSize depth tag payload record) (habsorb : absorb part record = some read) :
    Handled absorb depth tag encoded rest part (ctx, ptr, read) := by
  subst hptr
  rw [← List.append_assoc] at hdrop
  rw [Nat.add_assoc, ← List.length_append]
  rcases hreads.stands.advance hdrop with ⟨left, hrest, hleft⟩ | hoverrun
  · rw [List.append_assoc] at hrest
    exact .field hrest hpayload habsorb ⟨hleft, hreads.depth_eq, hreads.last_tag_eq⟩
  · exact .overrun hoverrun

/-- The unknown fields are kept in order. -/
def append_unknown (unknown : List Record) (record : Record) : Option (List Record) :=
  some (unknown ++ [record])

@[simp] theorem foldlM_append_unknown (unknown records : List Record) :
    records.foldlM append_unknown unknown = some (unknown ++ records) := by
  induction records generalizing unknown with
  | nil => simp
  | cons record records ih => simp [append_unknown, ih]

theorem drop_of_append {memory encoded behind : List UInt8} {start : Nat}
    (hdrop : memory.drop start = encoded ++ behind) : memory.drop (start + encoded.length) = behind := by
  rw [← List.drop_drop, hdrop, List.drop_left]

/-- Behind a tag there is room for the longest varint. -/
theorem Reads.room {ctx : ParseContext} {start depth : Nat} {rest encoded behind : List UInt8}
    (hreads : Reads ctx start rest depth) (hdrop : ctx.memory.drop start = encoded ++ behind)
    (hptr : start + encoded.length ≤ ctx.buffer_end + 4) : 12 ≤ behind.length := by
  have hslop := hreads.stands.slop_le
  rw [← drop_of_append hdrop, List.length_drop]
  unfold kSlopBytes at hslop
  omega

theorem varint_read_cases (limit bits : Nat) (bytes : List UInt8) (p : Nat) :
    varint_read limit bits bytes p = .error .nullptr ∨
      ∃ encoded behind, bytes = encoded ++ behind ∧ IsVarint encoded ∧ encoded.length ≤ limit ∧
        varint_read limit bits bytes p = .ok (p + encoded.length, groupValue encoded % 2 ^ bits) := by
  rw [varint_read]
  cases htake : takeVarint limit bytes with
  | none => exact Or.inl rfl
  | some found =>
    obtain ⟨hbytes, hvarint, hlength⟩ := takeVarint_eq_some_iff.mp htake
    exact Or.inr ⟨found.1, found.2, hbytes, hvarint, hlength, rfl⟩

theorem size_read_cases (bytes : List UInt8) (p : Nat) :
    size_read bytes p = .error .nullptr ∨
      ∃ encoded behind size, bytes = encoded ++ behind ∧ IsSize maxSize encoded size ∧
        size_read bytes p = .ok (p + encoded.length, size) := by
  rw [size_read]
  cases htake : takeVarint 5 bytes with
  | none => exact Or.inl rfl
  | some found =>
    obtain ⟨hbytes, hvarint, hlength⟩ := takeVarint_eq_some_iff.mp htake
    by_cases hlarge : maxSize < groupValue found.1
    · exact Or.inl (if_pos hlarge)
    · exact Or.inr ⟨found.1, found.2, groupValue found.1, hbytes,
        ⟨hvarint, hlength, rfl, Nat.le_of_not_lt hlarge⟩, if_neg hlarge⟩

/-- A number of fixed width is taken from the bytes as they stand. -/
theorem unaligned_load_eq {memory bytes : List UInt8} {width ptr : Nat}
    (hdrop : memory.drop ptr = bytes) (hpositive : 0 < width) (hwidth : width ≤ bytes.length) :
    unaligned_load width memory ptr = .ok (fixedValue (bytes.take width)) := by
  have hlength := congrArg List.length hdrop
  rw [List.length_drop] at hlength
  rw [unaligned_load, load_bytes, if_pos (by omega), hdrop]
  rfl

/-- The bytes of a string are read behind their size. -/
theorem inline_greedy_string_parse_cases {ctx : ParseContext} {start depth : Nat}
    {rest encoded behind : List UInt8} (hreads : Reads ctx start rest depth)
    (hdrop : ctx.memory.drop start = encoded ++ behind)
    (hptr : start + encoded.length ≤ ctx.buffer_end + 4) :
    inline_greedy_string_parse (start + encoded.length) ctx = .error .nullptr ∨
      ∃ size bytes left, behind = size ++ (bytes ++ left) ∧ IsSize maxSize size bytes.length ∧
        inline_greedy_string_parse (start + encoded.length) ctx =
          .ok (ctx, start + encoded.length + (size ++ bytes).length, bytes) := by
  have hroom := hreads.room hdrop hptr
  have hbehind := drop_of_append hdrop
  have hslop := hreads.stands.slop_le
  have hsize : read_size ctx.memory (start + encoded.length) = _ :=
    read_size_eq (by rw [hbehind]; omega)
  rw [hbehind] at hsize
  rw [inline_greedy_string_parse, hsize]
  rcases size_read_cases behind (start + encoded.length) with hnull | ⟨size, more, count, hmore, hcount, hok⟩
  · rw [hnull]
    exact Or.inl rfl
  · have hsizelength : size.length ≤ 5 := hcount.2.1
    have hstring := hreads.stands.read_string_eq
      (by unfold kSlopBytes; omega : start + encoded.length + size.length ≤ ctx.buffer_end + kSlopBytes) count
    have hdropmore : ctx.memory.drop (start + encoded.length + size.length) = more := by
      rw [← List.drop_drop, hbehind, hmore, List.drop_left]
    rw [hok]
    simp only [bind, Except.bind, hstring, hdropmore]
    by_cases hfits : start + encoded.length + size.length + count ≤ ctx.buffer_end + kSlopBytes
    · have hcounted : (more.take count).length = count := by
        have hlength := congrArg List.length hdropmore
        rw [List.length_drop] at hlength
        rw [List.length_take]
        omega
      rw [if_pos hfits]
      refine Or.inr ⟨size, more.take count, more.drop count, ?_, ?_, ?_⟩
      · rw [List.take_append_drop, hmore]
      · rw [hcounted]
        exact hcount
      · rw [List.length_append, hcounted, Nat.add_assoc (start + encoded.length)]
    · rw [if_neg hfits]
      exact Or.inl rfl

/-- The tag that matches a group's start is that of its end. -/
theorem eq_of_minus_1 {tag number : Nat} (htag : tag < 2 ^ 32)
    (hlast : minus_1 32 tag = number * 8 + 3) : tag = number * 8 + 4 := by
  rw [minus_1] at hlast
  split at hlast <;> omega

/-- What `ParseGroup` does behind the fields of a group. -/
def end_group (unknown : List Record) (number : Nat) (left : ParseContext × Nat × List Record) :
    Except Failure (ParseContext × Nat × List Record) := do
  let (ctx, ptr, fields) := left
  let (ended, ctx) := { ctx with depth := ctx.depth + 1 }.consume_end_group (number * 8 + 3)
  if ended then return (ctx, ptr, unknown ++ [.group number fields]) else throw .nullptr

theorem parse_group_eq (parse : Handler (List Record)) (number : Nat) (unknown : List Record)
    (ptr : Nat) (ctx : ParseContext) :
    parse_group parse number unknown ptr ctx =
      if ctx.depth - 1 < 0 then .error .nullptr
      else parse [] ptr { ctx with depth := ctx.depth - 1 } >>= end_group unknown number := rfl

theorem end_group_eq (unknown : List Record) (number ptr : Nat) (ctx : ParseContext)
    (fields : List Record) :
    end_group unknown number (ctx, ptr, fields) =
      if ctx.last_tag_minus_1 = number * 8 + 3 then
        .ok ({ ctx with last_tag_minus_1 := 0, depth := ctx.depth + 1 }, ptr,
          unknown ++ [.group number fields])
      else .error .nullptr := by
  by_cases hmatch : ctx.last_tag_minus_1 = number * 8 + 3
  · simp [end_group, ParseContext.consume_end_group, hmatch, pure, Except.pure]
  · simp [end_group, ParseContext.consume_end_group, hmatch]
    rfl

/-- A group ends with its own number only. -/
theorem Ended.end_group {depth number : Nat} {encoded left : List UInt8} {unknown : List Record}
    {result : ParseContext × Nat × List Record} (hended : Ended append_unknown depth left [] result)
    (hnumber : 0 < number) :
    Yields (Handled append_unknown (depth + 1) (number * 8 + 3) encoded (encoded ++ left) unknown)
      (end_group unknown number result) := by
  cases hended with
  | limit _ _ hreads =>
    rw [end_group_eq, hreads.last_tag_eq, if_neg (by omega)]
    exact .nullptr
  | @tag next _ tag _ inner stop behind records hleft hfields hfold hstop _ hreads =>
    rw [foldlM_append_unknown, List.nil_append, Option.some.injEq] at hfold
    subst hfold
    rw [end_group_eq]
    by_cases hmatch : (next.set_last_tag tag).last_tag_minus_1 = number * 8 + 3
    · have htag : tag = number * 8 + 4 := eq_of_minus_1 hstop.lt hmatch
      rw [if_pos hmatch]
      have hdepth : next.depth + 1 = ((depth + 1 : Nat) : Int) := by
        rw [hreads.depth_eq]
        rfl
      have hbehind : Reads { next with last_tag_minus_1 := 0, depth := next.depth + 1 } _ behind _ :=
        ⟨hreads.stands.update 0 _, hdepth, rfl⟩
      refine .ok (.field ?_ (.group hnumber hfields (htag ▸ hstop)) rfl hbehind)
      rw [hleft, List.append_assoc]
    · rw [if_neg hmatch]
      exact .nullptr
  | @overrun next _ _ hover _ =>
    rw [end_group_eq]
    by_cases hmatch : next.last_tag_minus_1 = number * 8 + 3
    · rw [if_pos hmatch]
      exact .ok (.overrun (hover.update 0 _))
    · rw [if_neg hmatch]
      exact .nullptr

/-- A group is read whole, or `ptr` is past the end behind it. -/
theorem Loops.parse_group_handles {parse : Handler (List Record)} {rounds number : Nat}
    (hparse : Loops append_unknown rounds parse) (hrounds : 0 < rounds) (hnumber : 0 < number) :
    Handles append_unknown rounds (number * 8 + 3) (parse_group parse number) := by
  intro unknown ctx start depth encoded rest behind hreads hdrop hne hptr hlength
  have hpositive := List.length_pos_iff.mpr hne
  rw [parse_group_eq]
  by_cases hdeep : ctx.depth - 1 < 0
  · rw [if_pos hdeep]
    exact .nullptr
  · rw [if_neg hdeep]
    obtain ⟨inner, rfl⟩ : ∃ inner, depth = inner + 1 := ⟨depth - 1, by have := hreads.depth_eq; omega⟩
    have hinner : ctx.depth - 1 = (inner : Int) := by
      rw [hreads.depth_eq]
      omega
    rcases hreads.stands.advance hdrop with ⟨left, rfl, hleft⟩ | hoverrun
    · have hbefore : Reads { ctx with depth := ctx.depth - 1 } (start + encoded.length) left inner :=
        ⟨hleft.update ctx.last_tag_minus_1 _, hinner, hreads.last_tag_eq⟩
      have hshort : left.length < rounds := by
        rw [List.length_append] at hlength
        omega
      apply (hparse.yields [] _ _ inner left hbefore hshort).bind
      intro result hended
      exact hended.end_group hnumber
    · have hnull := hparse.overrun [] { ctx with depth := ctx.depth - 1 } (start + encoded.length)
        (hoverrun.update ctx.last_tag_minus_1 _) hrounds
      rw [hnull]
      exact .nullptr

private theorem reads_varint {rounds number : Nat} (hnumber : 0 < number) :
    Handles append_unknown rounds (number * 8) fun unknown ptr ctx => do
      let (ptr, value) ← read_varint64 ctx.memory ptr
      return (ctx, ptr, unknown ++ [.varint number value]) := by
  intro unknown ctx start depth encoded rest behind hreads hdrop _ hptr _
  beta_reduce
  have hroom := hreads.room hdrop hptr
  have hbehind := drop_of_append hdrop
  have hread := read_varint64_eq (p := start + encoded.length) (by rw [hbehind]; omega)
  rw [hread, hbehind]
  rcases varint_read_cases 10 64 behind (start + encoded.length) with
    hnull | ⟨payload, more, rfl, hvarint, hlength, hok⟩
  · rw [hnull]
    exact .nullptr
  · rw [hok]
    exact .ok (.of_drop hreads hdrop rfl (.plain (.varint hnumber hvarint hlength)) rfl)

private theorem reads_fixed {rounds number kind width : Nat} (field : Nat → Record)
    (hpositive : 0 < width) (hwidth : width ≤ 8)
    (hplain : ∀ bytes : List UInt8, bytes.length = width →
      Plain maxSize (number * 8 + kind) bytes (field (fixedValue bytes))) :
    Handles append_unknown rounds (number * 8 + kind) fun unknown ptr ctx => do
      let value ← unaligned_load width ctx.memory ptr
      return (ctx, ptr + width, unknown ++ [field value]) := by
  intro unknown ctx start depth encoded rest behind hreads hdrop _ hptr _
  beta_reduce
  have hroom := hreads.room hdrop hptr
  have htaken : (behind.take width).length = width := by
    rw [List.length_take]
    omega
  rw [unaligned_load_eq (drop_of_append hdrop) hpositive (by omega)]
  rw [← List.take_append_drop width behind] at hdrop
  exact .ok (.of_drop hreads hdrop (by rw [htaken]) (.plain (hplain _ htaken)) rfl)

private theorem reads_string {rounds number : Nat} (hnumber : 0 < number) :
    Handles append_unknown rounds (number * 8 + 2) fun unknown ptr ctx => do
      let (ctx, ptr, bytes) ← inline_greedy_string_parse ptr ctx
      return (ctx, ptr, unknown ++ [.length_delimited number bytes]) := by
  intro unknown ctx start depth encoded rest behind hreads hdrop _ hptr _
  beta_reduce
  rcases inline_greedy_string_parse_cases hreads hdrop hptr with
    hnull | ⟨size, bytes, left, rfl, hsize, hok⟩
  · rw [hnull]
    exact .nullptr
  · rw [hok]
    rw [← List.append_assoc size] at hdrop
    exact .ok (.of_drop hreads hdrop rfl (.plain (.length_delimited hnumber hsize)) rfl)

/-- Every tag that does not end the loop has its field read, or is refused. -/
theorem Loops.field_parse_handles {parse : Handler (List Record)} {rounds tag : Nat}
    (hparse : Loops append_unknown rounds parse) (hrounds : 0 < rounds)
    (hgoes : ¬ (tag = 0 ∨ tag % 8 = 4)) :
    Handles append_unknown rounds tag (field_parse parse tag) := by
  obtain ⟨number, kind, hkind, rfl⟩ : ∃ number kind, kind < 8 ∧ tag = number * 8 + kind :=
    ⟨tag / 8, tag % 8, Nat.mod_lt _ (by omega), by omega⟩
  have hdiv : (number * 8 + kind) / 8 = number := by omega
  have hmod : (number * 8 + kind) % 8 = kind := by omega
  rw [hmod] at hgoes
  rcases Nat.eq_zero_or_pos number with hzero | hnumber
  · intro unknown ctx start depth encoded rest behind _ _ _ _ _
    simp only [field_parse, hdiv, if_pos hzero]
    exact .nullptr
  · have hne : number ≠ 0 := by omega
    unfold field_parse
    simp only [hdiv, hmod, if_neg hne]
    match kind with
    | 0 => exact reads_varint hnumber
    | 1 => exact reads_fixed (.fixed64 number) (by omega) (by omega) fun _ hlength => .fixed64 hnumber hlength
    | 2 => exact reads_string hnumber
    | 3 => exact hparse.parse_group_handles hrounds hnumber
    | 4 => exact absurd (Or.inr rfl) hgoes
    | 5 => exact reads_fixed (.fixed32 number) (by omega) (by omega) fun _ hlength => .fixed32 hnumber hlength
    | 6 =>
      intro unknown ctx start depth encoded rest behind _ _ _ _ _
      exact .nullptr
    | 7 =>
      intro unknown ctx start depth encoded rest behind _ _ _ _ _
      exact .nullptr

theorem foldlM_cons_eq {Part : Type} {absorb : Part → Record → Option Part} {part mid : Part}
    {record : Record} (habsorb : absorb part record = some mid) (records : List Record) :
    (record :: records).foldlM absorb part = records.foldlM absorb mid := by
  rw [List.foldlM_cons, habsorb]
  rfl

/-- A field in front of what a loop has read. -/
theorem Ended.cons {Part : Type} {absorb : Part → Record → Option Part} {depth tag : Nat}
    {encoded payload left : List UInt8} {record : Record} {part mid : Part}
    {result : ParseContext × Nat × Part} (htag : IsTag encoded tag)
    (hpayload : Payload maxSize depth tag payload record) (habsorb : absorb part record = some mid)
    (hended : Ended absorb depth left mid result) :
    Ended absorb depth (encoded ++ (payload ++ left)) part result := by
  cases hended with
  | limit hfields hfold hreads =>
    exact .limit (hfields.cons htag hpayload) ((foldlM_cons_eq habsorb _).trans hfold) hreads
  | tag hleft hfields hfold hstop hend hreads =>
    refine .tag ?_ (hfields.cons htag hpayload) ((foldlM_cons_eq habsorb _).trans hfold) hstop hend hreads
    rw [hleft, List.append_assoc, List.append_assoc]
  | overrun hover hlast => exact .overrun hover hlast

theorem minus_1_ne_zero {tag : Nat} (hend : tag = 0 ∨ tag % 8 = 4) : minus_1 32 tag ≠ 0 := by
  rw [minus_1]
  split <;> omega

/-- A tag that ends the loop was still to be read, or it goes past the end. -/
theorem Ended.of_tag {Part : Type} {absorb : Part → Record → Option Part} {ctx : ParseContext}
    {ptr depth tag : Nat} {rest encoded behind : List UInt8} (part : Part)
    (hreads : Reads ctx ptr rest depth) (hdrop : ctx.memory.drop ptr = encoded ++ behind)
    (htag : IsTag encoded tag) (hend : tag = 0 ∨ tag % 8 = 4) :
    Ended absorb depth rest part (ctx.set_last_tag tag, ptr + encoded.length, part) := by
  rcases hreads.stands.advance hdrop with ⟨left, hrest, hleft⟩ | hover
  · exact .tag hrest .nil rfl htag hend ⟨hleft, hreads.depth_eq, hreads.last_tag_eq⟩
  · exact .overrun (hover.update (minus_1 32 tag) ctx.depth) (minus_1_ne_zero hend)

/-- A round reads one field and leaves the others to the next round. -/
theorem Handles.again {Part : Type} {absorb : Part → Record → Option Part} {handler again : Handler Part}
    {rounds tag depth ptr : Nat} {ctx : ParseContext} {rest encoded behind : List UInt8}
    (hhandles : Handles absorb rounds tag handler) (hagain : Loops absorb rounds again) (part : Part)
    (hreads : Reads ctx ptr rest depth) (hdrop : ctx.memory.drop ptr = encoded ++ behind)
    (htag : IsTag encoded tag) (hptr : ptr + encoded.length ≤ ctx.buffer_end + 4)
    (hrounds : rest.length ≤ rounds) (hne : 0 < rest.length) :
    Yields (Ended absorb depth rest part)
      (handler part (ptr + encoded.length) ctx >>= fun left => again left.2.2 left.2.1 left.1) := by
  have hpositive := htag.1.length_pos
  apply (hhandles part ctx ptr depth encoded rest behind hreads hdrop htag.1.ne_nil hptr hrounds).bind
  intro result hhandled
  cases hhandled with
  | @field _ _ _ payload left _ hrest hpayload habsorb hleft =>
    have hshort : left.length < rounds := by
      rw [hrest, List.length_append, List.length_append] at hrounds
      omega
    rw [hrest]
    apply (hagain.yields _ _ _ depth left hleft hshort).mono
    intro _ hended
    exact hended.cons htag hpayload habsorb
  | overrun hover =>
    dsimp only
    rw [hagain.overrun _ _ _ hover (by omega)]
    exact .nullptr

/-- If the handlers read fields, the loop reads sequences of fields. -/
theorem Loops.parse_round {Part : Type} {absorb : Part → Record → Option Part}
    {switch : Nat → Option (Handler Part)} {unusual : Nat → Handler Part} {again : Handler Part}
    {rounds : Nat}
    (hswitch : 0 < rounds → ∀ tag handler, switch tag = some handler → Handles absorb rounds tag handler)
    (hunusual : 0 < rounds → ∀ tag, switch tag = none → ¬ (tag = 0 ∨ tag % 8 = 4) →
      Handles absorb rounds tag (unusual tag))
    (hagain : Loops absorb rounds again) :
    Loops absorb (rounds + 1) (parse_round switch unusual again) := by
  constructor
  · intro part ctx ptr depth rest hreads hrounds
    by_cases hempty : rest = []
    · subst hempty
      rw [protobuf.parse_round, hreads.stands.done_nil]
      exact .ok (.limit .nil rfl hreads)
    · obtain ⟨next, ptr', hdone, hstands, hptr, hdepth, hlast⟩ := hreads.stands.done_cons hempty
      have hnext : Reads next ptr' rest depth :=
        ⟨hstands, hdepth.trans hreads.depth_eq, hlast.trans hreads.last_tag_eq⟩
      have hslop := hstands.slop_le
      have hnonempty := List.length_pos_iff.mpr hempty
      have hread : read_tag next.memory ptr' = _ :=
        read_tag_eq (by rw [List.length_drop]; unfold kSlopBytes at hslop; omega)
      rw [protobuf.parse_round, hdone]
      change Yields _ (read_tag next.memory ptr' >>= _)
      rw [hread]
      rcases varint_read_cases 5 32 (next.memory.drop ptr') ptr' with
        hnull | ⟨encoded, behind, hdrop, hvarint, hlength, hok⟩
      · rw [hnull]
        exact .nullptr
      · rw [hok]
        have htag : IsTag encoded (groupValue encoded % 2 ^ 32) := ⟨hvarint, hlength, rfl⟩
        have hroom : ptr' + encoded.length ≤ next.buffer_end + 4 := by omega
        change Yields _ (match switch (groupValue encoded % 2 ^ 32) with
          | some handler => _
          | none => _)
        cases hswitched : switch (groupValue encoded % 2 ^ 32) with
        | some handler =>
          exact (hswitch (by omega) _ handler hswitched).again hagain part hnext hdrop htag hroom
            (by omega) hnonempty
        | none =>
          by_cases hend : groupValue encoded % 2 ^ 32 = 0 ∨ groupValue encoded % 2 ^ 32 % 8 = 4
          · rw [if_pos hend]
            exact .ok (.of_tag part hnext hdrop htag hend)
          · rw [if_neg hend]
            exact (hunusual (by omega) _ hswitched hend).again hagain part hnext hdrop htag hroom
              (by omega) hnonempty
  · intro part ctx ptr hoverrun _
    rw [protobuf.parse_round, hoverrun.done_eq]
    rfl

/-- `WireFormatParser` reads unknown fields, however deep their groups. -/
theorem wire_format_parse_loops (rounds : Nat) : Loops append_unknown rounds (wire_format_parse rounds) := by
  induction rounds with
  | zero =>
    constructor
    · intro _ _ _ _ rest _ hrounds
      exact absurd hrounds (Nat.not_lt_zero _)
    · intro _ _ _ _ hrounds
      exact absurd hrounds (Nat.lt_irrefl 0)
  | succ rounds ih =>
    apply Loops.parse_round
    · intro _ _ _ hswitch
      cases hswitch
    · intro hrounds _ _ hgoes
      exact ih.field_parse_handles hrounds hgoes
    · exact ih

end topview.protobuf
