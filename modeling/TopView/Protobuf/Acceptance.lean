import TopView.Protobuf.FieldParser

open topview.wire

namespace topview.protobuf

theorem varint_read_eq {limit bits p : Nat} {encoded behind : List UInt8} (hvarint : IsVarint encoded)
    (hlength : encoded.length ≤ limit) :
    varint_read limit bits (encoded ++ behind) p =
      .ok (p + encoded.length, groupValue encoded % 2 ^ bits) := by
  rw [varint_read, takeVarint_eq_some_iff.mpr ⟨rfl, hvarint, hlength⟩]

theorem size_read_eq {encoded behind : List UInt8} {size p : Nat} (hsize : IsSize maxSize encoded size) :
    size_read (encoded ++ behind) p = .ok (p + encoded.length, size) := by
  obtain ⟨hvarint, hlength, rfl, hle⟩ := hsize
  rw [size_read, takeVarint_eq_some_iff.mpr ⟨rfl, hvarint, hlength⟩]
  exact if_neg (Nat.not_lt.mpr hle)

/-- The bytes that are read next stand in the memory, and there are enough
    behind them for a check at the end only. -/
theorem Reads.drop_eq {ctx : ParseContext} {ptr depth : Nat} {bytes left : List UInt8}
    (hreads : Reads ctx ptr (bytes ++ left) depth) :
    (∃ behind, ctx.memory.drop ptr = bytes ++ behind) ∧ Reads ctx (ptr + bytes.length) left depth :=
  ⟨hreads.stands.drop_eq.1, hreads.stands.drop_eq.2, hreads.depth_eq, hreads.last_tag_eq⟩

theorem Reads.room_le {ctx : ParseContext} {ptr depth : Nat} {rest : List UInt8}
    (hreads : Reads ctx ptr rest depth) (hptr : ptr ≤ ctx.buffer_end + 4) :
    12 ≤ (ctx.memory.drop ptr).length := by
  have hslop := hreads.stands.slop_le
  unfold kSlopBytes at hslop
  rw [List.length_drop]
  omega

/-- The handler reads this payload, with rounds enough for what comes behind
    it, too. -/
def Accepts {Part : Type} (handler : Handler Part) (rounds depth : Nat) (payload : List UInt8)
    (part read : Part) : Prop :=
  ∀ (ctx : ParseContext) (ptr : Nat) (left : List UInt8),
    Reads ctx ptr (payload ++ left) depth → ptr ≤ ctx.buffer_end + 4 →
      (payload ++ left).length < rounds →
        ∃ next ptr', handler part ptr ctx = .ok (next, ptr', read) ∧ Reads next ptr' left depth

/-- The case that a loop has for the tag reads this payload. -/
def AcceptsField {Part : Type} (switch : Nat → Option (Handler Part)) (unusual : Nat → Handler Part)
    (rounds depth tag : Nat) (payload : List UInt8) (part read : Part) : Prop :=
  match switch tag with
  | some handler => Accepts handler rounds depth payload part read
  | none => ¬ (tag = 0 ∨ tag % 8 = 4) ∧ Accepts (unusual tag) rounds depth payload part read

/-- The loop reads the bytes and goes on with what comes behind them. -/
def Reaches {Part : Type} (loop : Nat → Handler Part) (depth : Nat) (bytes : List UInt8)
    (part read : Part) : Prop :=
  ∀ (rounds : Nat) (ctx : ParseContext) (ptr : Nat) (tail : List UInt8),
    Reads ctx ptr (bytes ++ tail) depth → (bytes ++ tail).length < rounds →
      ∃ left next ptr', loop rounds part ptr ctx = loop left read ptr' next ∧
        Reads next ptr' tail depth ∧ tail.length < left

theorem inline_greedy_string_parse_eq {ctx : ParseContext} {ptr depth : Nat}
    {size bytes left : List UInt8} (hsize : IsSize maxSize size bytes.length)
    (hreads : Reads ctx ptr (size ++ bytes ++ left) depth) (hptr : ptr ≤ ctx.buffer_end + 4) :
    ∃ ptr', inline_greedy_string_parse ptr ctx = .ok (ctx, ptr', bytes) ∧ Reads ctx ptr' left depth := by
  have hroom := hreads.room_le hptr
  rw [List.append_assoc] at hreads
  obtain ⟨⟨behind, hdrop⟩, hbytes⟩ := hreads.drop_eq
  obtain ⟨⟨more, hdropbytes⟩, hleft⟩ := hbytes.drop_eq
  have hfits := hbytes.stands.ptr_le
  rw [List.length_append] at hfits
  refine ⟨ptr + size.length + bytes.length, ?_, hleft⟩
  rw [inline_greedy_string_parse, read_size_eq (by omega), hdrop, size_read_eq hsize]
  change ctx.read_string (ptr + size.length) bytes.length = _
  rw [hbytes.stands.read_string_eq (by omega), if_pos (by omega), hdropbytes, List.take_left]

/-- Everything that may stand behind the tag of a field that is not a group
    is read. -/
theorem field_parse_accepts_plain {tag depth : Nat} {payload : List UInt8} {record : Record}
    (hplain : Plain maxSize tag payload record) (parse : Handler (List Record))
    (rounds : Nat) (unknown : List Record) :
    Accepts (field_parse parse tag) rounds depth payload unknown (unknown ++ [record]) := by
  intro ctx ptr left hreads hptr _
  have hroom := hreads.room_le hptr
  cases hplain with
  | @varint number encoded hnumber hvarint hlength =>
    obtain ⟨⟨behind, hdrop⟩, hleft⟩ := hreads.drop_eq
    have hdiv : number * 8 / 8 = number := by omega
    have hmod : number * 8 % 8 = 0 := by omega
    refine ⟨ctx, _, ?_, hleft⟩
    simp only [field_parse, hdiv, hmod, if_neg (Nat.ne_of_gt hnumber)]
    rw [read_varint64_eq (by omega), hdrop, varint_read_eq hvarint hlength]
    rfl
  | @fixed64 number payload hnumber hlength =>
    obtain ⟨⟨behind, hdrop⟩, hleft⟩ := hreads.drop_eq
    have hdiv : (number * 8 + 1) / 8 = number := by omega
    have hmod : (number * 8 + 1) % 8 = 1 := by omega
    refine ⟨ctx, _, ?_, hleft⟩
    simp only [field_parse, hdiv, hmod, if_neg (Nat.ne_of_gt hnumber)]
    rw [unaligned_load_eq hdrop (by omega) (by rw [List.length_append]; omega), ← hlength, List.take_left]
    rfl
  | @length_delimited number size bytes hnumber hsize =>
    have hdiv : (number * 8 + 2) / 8 = number := by omega
    have hmod : (number * 8 + 2) % 8 = 2 := by omega
    obtain ⟨ptr', hok, hleft⟩ := inline_greedy_string_parse_eq hsize hreads hptr
    refine ⟨ctx, ptr', ?_, hleft⟩
    simp only [field_parse, hdiv, hmod, if_neg (Nat.ne_of_gt hnumber), hok]
    rfl
  | @fixed32 number payload hnumber hlength =>
    obtain ⟨⟨behind, hdrop⟩, hleft⟩ := hreads.drop_eq
    have hdiv : (number * 8 + 5) / 8 = number := by omega
    have hmod : (number * 8 + 5) % 8 = 5 := by omega
    refine ⟨ctx, _, ?_, hleft⟩
    simp only [field_parse, hdiv, hmod, if_neg (Nat.ne_of_gt hnumber)]
    rw [unaligned_load_eq hdrop (by omega) (by rw [List.length_append]; omega), ← hlength, List.take_left]
    rfl

/-- A round takes up the next tag. -/
theorem Reads.parse_round_eq {Part : Type} {ctx : ParseContext} {ptr depth tag : Nat}
    {encoded left : List UInt8} (hreads : Reads ctx ptr (encoded ++ left) depth)
    (htag : IsTag encoded tag) (switch : Nat → Option (Handler Part)) (unusual : Nat → Handler Part)
    (again : Handler Part) (part : Part) :
    ∃ next ptr', Reads next ptr' left depth ∧ ptr' ≤ next.buffer_end + 4 ∧
      parse_round switch unusual again part ptr ctx =
        match switch tag with
        | some handler => handler part ptr' next >>= fun read => again read.2.2 read.2.1 read.1
        | none =>
          if tag = 0 ∨ tag % 8 = 4 then .ok (next.set_last_tag tag, ptr', part)
          else unusual tag part ptr' next >>= fun read => again read.2.2 read.2.1 read.1 := by
  have hne : encoded ++ left ≠ [] := by
    intro hempty
    exact htag.1.ne_nil (List.append_eq_nil_iff.mp hempty).1
  obtain ⟨next, start, hdone, hstands, hstart, hdepth, hlast⟩ := hreads.stands.done_cons hne
  have hnext : Reads next start (encoded ++ left) depth :=
    ⟨hstands, hdepth.trans hreads.depth_eq, hlast.trans hreads.last_tag_eq⟩
  obtain ⟨⟨behind, hdrop⟩, hleft⟩ := hnext.drop_eq
  obtain ⟨hvarint, hlength, rfl⟩ := htag
  refine ⟨next, start + encoded.length, hleft, by omega, ?_⟩
  rw [parse_round, hdone]
  change read_tag next.memory start >>= _ = _
  rw [read_tag_eq (by have := hnext.room_le (by omega); omega), hdrop, varint_read_eq hvarint hlength]
  rfl

theorem Reaches.nil {Part : Type} {loop : Nat → Handler Part} {depth : Nat} {part : Part} :
    Reaches loop depth [] part part := by
  intro rounds ctx ptr tail hreads hrounds
  exact ⟨rounds, ctx, ptr, rfl, hreads, hrounds⟩

/-- One round of a loop reads a field that its handler accepts. -/
theorem Reaches.cons {Part : Type} {loop : Nat → Handler Part} {switch : Nat → Option (Handler Part)}
    {unusual : Nat → Nat → Handler Part} {depth tag : Nat} {encoded payload rest : List UInt8}
    {part mid read : Part}
    (hloop : ∀ rounds, loop (rounds + 1) = parse_round switch (unusual rounds) (loop rounds))
    (htag : IsTag encoded tag)
    (haccepts : ∀ rounds, AcceptsField switch (unusual rounds) rounds depth tag payload part mid)
    (hrest : Reaches loop depth rest mid read) :
    Reaches loop depth (encoded ++ (payload ++ rest)) part read := by
  intro rounds ctx ptr tail hreads hrounds
  have hpositive := htag.1.length_pos
  rw [List.append_assoc, List.append_assoc] at hreads hrounds
  obtain ⟨rounds, rfl⟩ := Nat.exists_eq_succ_of_ne_zero (Nat.ne_of_gt (Nat.zero_lt_of_lt hrounds))
  rw [List.length_append] at hrounds
  obtain ⟨found, start, hfound, hstart, hround⟩ :=
    hreads.parse_round_eq htag switch (unusual rounds) (loop rounds) part
  have haccepted := haccepts rounds
  rw [AcceptsField] at haccepted
  have hgo {handler : Handler Part} (hhandler : Accepts handler rounds depth payload part mid) :
      ∃ left next ptr', handler part start found >>= (fun read => loop rounds read.2.2 read.2.1 read.1) =
        loop left read ptr' next ∧ Reads next ptr' tail depth ∧ tail.length < left := by
    obtain ⟨next, ptr', hok, hleft⟩ := hhandler found start (rest ++ tail) hfound hstart (by omega)
    rw [hok]
    rw [List.length_append] at hrounds
    exact hrest rounds next ptr' tail hleft (by omega)
  rw [hloop, hround]
  cases hswitch : switch tag with
  | some handler =>
    rw [hswitch] at haccepted
    exact hgo haccepted
  | none =>
    rw [hswitch] at haccepted
    dsimp only
    rw [if_neg haccepted.1]
    exact hgo haccepted.2

/-- A group is read up to the tag that ends it. -/
theorem Reaches.accepts_group {depth number : Nat} {inner stop : List UInt8} {fields : List Record}
    (hinner : Reaches wire_format_parse depth inner [] fields) (hstop : IsTag stop (number * 8 + 4))
    (hnumber : 0 < number) (rounds : Nat) (unknown : List Record) :
    Accepts (field_parse (wire_format_parse rounds) (number * 8 + 3)) rounds (depth + 1)
      (inner ++ stop) unknown (unknown ++ [.group number fields]) := by
  intro ctx ptr left hreads _ hrounds
  rw [List.append_assoc] at hreads hrounds
  have hdiv : (number * 8 + 3) / 8 = number := by omega
  have hmod : (number * 8 + 3) % 8 = 3 := by omega
  have hbelow : ctx.depth - 1 = (depth : Int) := by
    rw [hreads.depth_eq]
    omega
  have hbefore : Reads { ctx with depth := ctx.depth - 1 } ptr (inner ++ (stop ++ left)) depth :=
    ⟨hreads.stands.update ctx.last_tag_minus_1 _, hbelow, hreads.last_tag_eq⟩
  obtain ⟨more, mid, start, hreached, hmid, hmore⟩ := hinner rounds _ ptr _ hbefore hrounds
  obtain ⟨more, rfl⟩ := Nat.exists_eq_succ_of_ne_zero (Nat.ne_of_gt (Nat.zero_lt_of_lt hmore))
  obtain ⟨next, ptr', hnext, _, hround⟩ := hmid.parse_round_eq hstop (fun _ => none)
    (field_parse (wire_format_parse more)) (wire_format_parse more) fields
  have hend : number * 8 + 4 = 0 ∨ (number * 8 + 4) % 8 = 4 := by omega
  have hlast : (next.set_last_tag (number * 8 + 4)).last_tag_minus_1 = number * 8 + 3 := by
    change minus_1 32 (number * 8 + 4) = _
    rw [minus_1, if_neg (by omega)]
    rfl
  have hdepth : next.depth + 1 = ((depth + 1 : Nat) : Int) := by
    rw [hnext.depth_eq]
    rfl
  have hafter : Reads { next with last_tag_minus_1 := 0, depth := next.depth + 1 } ptr' left (depth + 1) :=
    ⟨hnext.stands.update 0 _, hdepth, rfl⟩
  refine ⟨_, ptr', ?_, hafter⟩
  simp only [field_parse, hdiv, hmod, if_neg (Nat.ne_of_gt hnumber)]
  rw [parse_group_eq, if_neg (by omega), hreached, wire_format_parse, hround]
  dsimp only
  rw [if_pos hend]
  change end_group unknown number (next.set_last_tag (number * 8 + 4), ptr', fields) = _
  rw [end_group_eq, if_pos hlast]
  rfl

/-- Unknown fields are read whole. -/
theorem reaches_of_fields {depth : Nat} {bytes : List UInt8} {records : List Record}
    (hfields : Fields maxSize depth bytes records) :
    ∀ unknown, Reaches wire_format_parse depth bytes unknown (unknown ++ records) := by
  induction hfields with
  | nil =>
    intro unknown
    rw [List.append_nil]
    exact .nil
  | plain htag hplain _ ih =>
    intro unknown
    rw [List.append_cons]
    apply Reaches.cons (fun _ => rfl) htag _ (ih _)
    intro rounds
    exact ⟨hplain.not_end, field_parse_accepts_plain hplain _ rounds unknown⟩
  | @group depth number start inner stop rest fields records hnumber hstart _ hstop _ ihinner ihrest =>
    intro unknown
    rw [List.append_cons, ← List.append_assoc inner]
    apply Reaches.cons (fun _ => rfl) hstart _ (ihrest _)
    intro rounds
    exact ⟨by omega, (ihinner []).accepts_group hstop hnumber rounds unknown⟩

end topview.protobuf
