import TopView.Wire.Varint

namespace topview.wire

/-- The number in a field of fixed width, low byte first. -/
def fixedValue : List UInt8 → Nat
  | [] => 0
  | byte :: rest => byte.toNat + 256 * fixedValue rest

/-- A number in a field of `width` bytes. -/
def fixedBytes : Nat → Nat → List UInt8
  | 0, _ => []
  | width + 1, value => UInt8.ofNat value :: fixedBytes width (value / 256)

/-- A field without a name, with the number that stands in its tag. -/
inductive Record
  | varint (number value : Nat)
  | fixed64 (number value : Nat)
  | length_delimited (number : Nat) (bytes : List UInt8)
  | group (number : Nat) (fields : List Record)
  | fixed32 (number value : Nat)
  deriving Repr

/-- A tag. Of the fifth byte only the bits of a 32-bit number count. -/
def IsTag (encoded : List UInt8) (tag : Nat) : Prop :=
  IsVarint encoded ∧ encoded.length ≤ 5 ∧ groupValue encoded % 2 ^ 32 = tag

/-- The size in front of a sequence of bytes. -/
def IsSize (maxSize : Nat) (encoded : List UInt8) (size : Nat) : Prop :=
  IsVarint encoded ∧ encoded.length ≤ 5 ∧ groupValue encoded = size ∧ size ≤ maxSize

/-- What may stand behind the tag of a field that is not a group. -/
inductive Plain (maxSize : Nat) : Nat → List UInt8 → Record → Prop
  | varint {number : Nat} {encoded : List UInt8} (hnumber : 0 < number) (hvarint : IsVarint encoded)
      (hlength : encoded.length ≤ 10) :
    Plain maxSize (number * 8) encoded (.varint number (groupValue encoded % 2 ^ 64))
  | fixed64 {number : Nat} {bytes : List UInt8} (hnumber : 0 < number) (hlength : bytes.length = 8) :
    Plain maxSize (number * 8 + 1) bytes (.fixed64 number (fixedValue bytes))
  | length_delimited {number : Nat} {size bytes : List UInt8} (hnumber : 0 < number)
      (hsize : IsSize maxSize size bytes.length) :
    Plain maxSize (number * 8 + 2) (size ++ bytes) (.length_delimited number bytes)
  | fixed32 {number : Nat} {bytes : List UInt8} (hnumber : 0 < number) (hlength : bytes.length = 4) :
    Plain maxSize (number * 8 + 5) bytes (.fixed32 number (fixedValue bytes))

/-- The bytes of a sequence of fields. Groups stand in at most `depth` groups
    each other, and a group ends with the number that it began with. -/
inductive Fields (maxSize : Nat) : Nat → List UInt8 → List Record → Prop
  | nil {depth : Nat} : Fields maxSize depth [] []
  | plain {depth tag : Nat} {encoded payload rest : List UInt8} {record : Record}
      {records : List Record} (htag : IsTag encoded tag) (hplain : Plain maxSize tag payload record)
      (hrest : Fields maxSize depth rest records) :
    Fields maxSize depth (encoded ++ (payload ++ rest)) (record :: records)
  | group {depth number : Nat} {start inner stop rest : List UInt8} {fields records : List Record}
      (hnumber : 0 < number) (hstart : IsTag start (number * 8 + 3))
      (hinner : Fields maxSize depth inner fields) (hstop : IsTag stop (number * 8 + 4))
      (hrest : Fields maxSize (depth + 1) rest records) :
    Fields maxSize (depth + 1) (start ++ (inner ++ (stop ++ rest))) (.group number fields :: records)

/-- What may stand behind the tag of a field. Behind the start of a group
    that is all of the group. -/
inductive Payload (maxSize : Nat) : Nat → Nat → List UInt8 → Record → Prop
  | plain {depth tag : Nat} {payload : List UInt8} {record : Record}
      (hplain : Plain maxSize tag payload record) : Payload maxSize depth tag payload record
  | group {depth number : Nat} {inner stop : List UInt8} {fields : List Record}
      (hnumber : 0 < number) (hinner : Fields maxSize depth inner fields)
      (hstop : IsTag stop (number * 8 + 4)) :
    Payload maxSize (depth + 1) (number * 8 + 3) (inner ++ stop) (.group number fields)

mutual

/-- The bytes that a field is written as. -/
def Record.encode : Record → List UInt8
  | .varint number value => varint (number * 8) ++ varint value
  | .fixed64 number value => varint (number * 8 + 1) ++ fixedBytes 8 value
  | .length_delimited number bytes => varint (number * 8 + 2) ++ (varint bytes.length ++ bytes)
  | .group number fields => varint (number * 8 + 3) ++ (encode fields ++ varint (number * 8 + 4))
  | .fixed32 number value => varint (number * 8 + 5) ++ fixedBytes 4 value

/-- The bytes of a sequence of fields, in order. -/
def encode : List Record → List UInt8
  | [] => []
  | record :: records => record.encode ++ encode records

end

/-- The tag of a field, or that of a group's start. -/
def Record.tag : Record → Nat
  | .varint number _ => number * 8
  | .fixed64 number _ => number * 8 + 1
  | .length_delimited number _ => number * 8 + 2
  | .group number _ => number * 8 + 3
  | .fixed32 number _ => number * 8 + 5

/-- The bytes of the fields with a size that have this number, in order. -/
def delimited (number : Nat) (records : List Record) : List (List UInt8) :=
  records.filterMap fun
    | .length_delimited other bytes => if other = number then some bytes else none
    | _ => none

/-- The values of the varint fields that have this number, in order. -/
def varints (number : Nat) (records : List Record) : List Nat :=
  records.filterMap fun
    | .varint other value => if other = number then some value else none
    | _ => none

/-- The numbers that fit a tag. -/
def IsNumber (number : Nat) : Prop := 0 < number ∧ number < 2 ^ 29

/-- A field that is not a group and whose values fit their encodings. -/
def Record.Bounded (maxSize : Nat) : Record → Prop
  | .varint number value => IsNumber number ∧ value < 2 ^ 64
  | .fixed64 number value => IsNumber number ∧ value < 2 ^ 64
  | .length_delimited number bytes => IsNumber number ∧ bytes.length ≤ maxSize
  | .group _ _ => False
  | .fixed32 number value => IsNumber number ∧ value < 2 ^ 32

/-- The sequences of fields that can be written and read back. -/
inductive WellFormed (maxSize : Nat) : Nat → List Record → Prop
  | nil {depth : Nat} : WellFormed maxSize depth []
  | plain {depth : Nat} {record : Record} {records : List Record} (hbounded : record.Bounded maxSize)
      (hrest : WellFormed maxSize depth records) : WellFormed maxSize depth (record :: records)
  | group {depth number : Nat} {fields records : List Record} (hnumber : IsNumber number)
      (hfields : WellFormed maxSize depth fields) (hrest : WellFormed maxSize (depth + 1) records) :
    WellFormed maxSize (depth + 1) (.group number fields :: records)

@[simp] theorem encode_nil : encode [] = [] := by rw [encode]

@[simp] theorem encode_cons (record : Record) (records : List Record) :
    encode (record :: records) = record.encode ++ encode records := by rw [encode]

@[simp] theorem encode_append (first second : List Record) :
    encode (first ++ second) = encode first ++ encode second := by
  induction first with
  | nil => simp
  | cons record records ih => simp [ih]

@[simp] theorem delimited_nil (number : Nat) : delimited number [] = [] := rfl

@[simp] theorem delimited_append (number : Nat) (first second : List Record) :
    delimited number (first ++ second) = delimited number first ++ delimited number second :=
  List.filterMap_append

theorem mem_delimited_singleton {number : Nat} {record : Record} {text : List UInt8} :
    text ∈ delimited number [record] ↔ record = .length_delimited number text := by
  cases record with
  | length_delimited other bytes =>
    by_cases hnumber : other = number
    · subst hnumber
      simp [delimited, eq_comm]
    · simp [delimited, hnumber]
  | _ => simp [delimited]

@[simp] theorem varints_nil (number : Nat) : varints number [] = [] := rfl

@[simp] theorem varints_append (number : Nat) (first second : List Record) :
    varints number (first ++ second) = varints number first ++ varints number second :=
  List.filterMap_append

@[simp] theorem length_fixedBytes (width value : Nat) : (fixedBytes width value).length = width := by
  induction width generalizing value with
  | zero => rfl
  | succ width ih => rw [fixedBytes, List.length_cons, ih]

theorem fixedValue_lt (bytes : List UInt8) : fixedValue bytes < 256 ^ bytes.length := by
  induction bytes with
  | nil => simp [fixedValue]
  | cons byte rest ih =>
    have hbyte := byte.toNat_lt
    rw [fixedValue, List.length_cons, Nat.pow_succ]
    omega

theorem fixedValue_fixedBytes {width value : Nat} (hlt : value < 256 ^ width) :
    fixedValue (fixedBytes width value) = value := by
  induction width generalizing value with
  | zero =>
    rw [Nat.pow_zero, Nat.lt_one_iff] at hlt
    rw [hlt, fixedBytes, fixedValue]
  | succ width ih =>
    have hquotient : value / 256 < 256 ^ width := by
      rw [Nat.pow_succ] at hlt
      exact Nat.div_lt_of_lt_mul (by omega)
    rw [fixedBytes, fixedValue, ih hquotient, UInt8.toNat_ofNat']
    omega

theorem isTag_varint {tag : Nat} (hlt : tag < 2 ^ 32) : IsTag (varint tag) tag := by
  refine ⟨isVarint_varint tag, length_varint_le_of_lt (by omega), ?_⟩
  rw [groupValue_varint, Nat.mod_eq_of_lt hlt]

theorem isSize_varint {maxSize size : Nat} (hle : size ≤ maxSize) (hmax : maxSize < 2 ^ 35) :
    IsSize maxSize (varint size) size :=
  ⟨isVarint_varint size, length_varint_le_of_lt (by omega), groupValue_varint size, hle⟩

theorem IsTag.lt {encoded : List UInt8} {tag : Nat} (htag : IsTag encoded tag) : tag < 2 ^ 32 := by
  obtain ⟨_, _, rfl⟩ := htag
  exact Nat.mod_lt _ (by omega)

theorem IsTag.length_varint_le {encoded : List UInt8} {tag : Nat} (htag : IsTag encoded tag) :
    (varint tag).length ≤ encoded.length := by
  obtain ⟨hvarint, _, rfl⟩ := htag
  exact hvarint.length_varint_le (Nat.mod_le _ _)

theorem Fields.cons {maxSize depth tag : Nat} {encoded payload rest : List UInt8} {record : Record}
    {records : List Record} (htag : IsTag encoded tag)
    (hpayload : Payload maxSize depth tag payload record) (hrest : Fields maxSize depth rest records) :
    Fields maxSize depth (encoded ++ (payload ++ rest)) (record :: records) := by
  cases hpayload with
  | plain hplain => exact .plain htag hplain hrest
  | group hnumber hinner hstop =>
    rw [List.append_assoc]
    exact .group hnumber htag hinner hstop hrest

/-- Fields may be written one behind the other. -/
theorem Fields.append {maxSize depth : Nat} {first second : List UInt8} {before behind : List Record}
    (hfirst : Fields maxSize depth first before) (hsecond : Fields maxSize depth second behind) :
    Fields maxSize depth (first ++ second) (before ++ behind) := by
  induction hfirst with
  | nil => exact hsecond
  | plain htag hplain _ ih =>
    rw [List.append_assoc, List.append_assoc]
    exact .plain htag hplain (ih hsecond)
  | group hnumber hstart hinner hstop _ _ ih =>
    rw [List.append_assoc, List.append_assoc, List.append_assoc]
    exact .group hnumber hstart hinner hstop (ih hsecond)

/-- One bounded field is read back from the bytes it is written as. -/
theorem Record.Bounded.fields_encode {maxSize depth : Nat} (hmax : maxSize < 2 ^ 35)
    {record : Record} (hbounded : record.Bounded maxSize) :
    Fields maxSize depth record.encode [record] := by
  have hsingle (tag : Nat) {payload : List UInt8} (htag : tag < 2 ^ 32)
      (hplain : Plain maxSize tag payload record) :
      Fields maxSize depth (wire.varint tag ++ payload) [record] := by
    have hfields := Fields.plain (isTag_varint htag) hplain (Fields.nil : Fields maxSize depth [] [])
    rwa [List.append_nil] at hfields
  cases record with
  | varint number value =>
    obtain ⟨⟨hpositive, hnumber⟩, hvalue⟩ := hbounded
    have hplain : Plain maxSize (number * 8) (wire.varint value) _ :=
      .varint hpositive (isVarint_varint value) (length_varint_le_of_lt (by omega))
    rw [groupValue_varint, Nat.mod_eq_of_lt hvalue] at hplain
    rw [Record.encode]
    exact hsingle _ (by omega) hplain
  | fixed64 number value =>
    obtain ⟨⟨hpositive, hnumber⟩, hvalue⟩ := hbounded
    have hplain : Plain maxSize (number * 8 + 1) _ _ := .fixed64 hpositive (length_fixedBytes 8 value)
    rw [fixedValue_fixedBytes (by omega)] at hplain
    rw [Record.encode]
    exact hsingle _ (by omega) hplain
  | length_delimited number bytes =>
    obtain ⟨⟨hpositive, hnumber⟩, hlength⟩ := hbounded
    rw [Record.encode]
    exact hsingle _ (by omega) (.length_delimited hpositive (isSize_varint hlength hmax))
  | group number fields => exact hbounded.elim
  | fixed32 number value =>
    obtain ⟨⟨hpositive, hnumber⟩, hvalue⟩ := hbounded
    have hplain : Plain maxSize (number * 8 + 5) _ _ := .fixed32 hpositive (length_fixedBytes 4 value)
    rw [fixedValue_fixedBytes (by omega)] at hplain
    rw [Record.encode]
    exact hsingle _ (by omega) hplain

/-- Every well-formed sequence of fields is read back from the bytes that it
    is written as. -/
theorem WellFormed.fields_encode {maxSize depth : Nat} (hmax : maxSize < 2 ^ 35)
    {records : List Record} (hformed : WellFormed maxSize depth records) :
    Fields maxSize depth (encode records) records := by
  induction hformed with
  | nil => exact encode_nil ▸ .nil
  | @plain depth record records hbounded _ ih =>
    rw [encode_cons]
    exact (hbounded.fields_encode hmax).append ih
  | group hnumber _ _ ihfields ihrest =>
    obtain ⟨hpositive, hlt⟩ := hnumber
    rw [encode_cons, Record.encode, List.append_assoc, List.append_assoc]
    exact .group hpositive (isTag_varint (by omega)) ihfields (isTag_varint (by omega)) ihrest

theorem Plain.bounded {maxSize tag : Nat} {payload : List UInt8} {record : Record}
    (hplain : Plain maxSize tag payload record) (htag : tag < 2 ^ 32) :
    record.Bounded maxSize := by
  cases hplain with
  | varint hnumber _ _ => exact ⟨⟨hnumber, by omega⟩, Nat.mod_lt _ (by omega)⟩
  | fixed64 hnumber hlength =>
    have hvalue := fixedValue_lt payload
    rw [hlength] at hvalue
    exact ⟨⟨hnumber, by omega⟩, by omega⟩
  | length_delimited hnumber hsize => exact ⟨⟨hnumber, by omega⟩, hsize.2.2.2⟩
  | fixed32 hnumber hlength =>
    have hvalue := fixedValue_lt payload
    rw [hlength] at hvalue
    exact ⟨⟨hnumber, by omega⟩, by omega⟩

/-- What is read from bytes is well formed. -/
theorem Fields.wellFormed {maxSize depth : Nat} {bytes : List UInt8} {records : List Record}
    (hfields : Fields maxSize depth bytes records) : WellFormed maxSize depth records := by
  induction hfields with
  | nil => exact .nil
  | plain htag hplain _ ih => exact .plain (hplain.bounded htag.lt) ih
  | group hnumber hstart _ _ _ ihinner ihrest =>
    have hlt := hstart.lt
    exact .group ⟨hnumber, by omega⟩ ihinner ihrest

theorem WellFormed.cons {maxSize depth : Nat} {record : Record} {records : List Record}
    (hformed : WellFormed maxSize depth (record :: records)) :
    WellFormed maxSize depth [record] ∧ WellFormed maxSize depth records := by
  cases hformed with
  | plain hbounded hrest => exact ⟨.plain hbounded .nil, hrest⟩
  | group hnumber hfields hrest => exact ⟨.group hnumber hfields .nil, hrest⟩

theorem WellFormed.append {maxSize depth : Nat} {first second : List Record}
    (hfirst : WellFormed maxSize depth first) (hsecond : WellFormed maxSize depth second) :
    WellFormed maxSize depth (first ++ second) := by
  induction hfirst with
  | nil => exact hsecond
  | plain hbounded _ ih => exact .plain hbounded (ih hsecond)
  | group hnumber hfields _ _ ih => exact .group hnumber hfields (ih hsecond)

theorem Plain.tag_eq {maxSize tag : Nat} {payload : List UInt8} {record : Record}
    (hplain : Plain maxSize tag payload record) : record.tag = tag := by
  cases hplain <;> rfl

theorem Payload.tag_eq {maxSize depth tag : Nat} {payload : List UInt8} {record : Record}
    (hpayload : Payload maxSize depth tag payload record) : record.tag = tag := by
  cases hpayload with
  | plain hplain => exact hplain.tag_eq
  | group _ _ _ => rfl

theorem Plain.not_end {maxSize tag : Nat} {payload : List UInt8} {record : Record}
    (hplain : Plain maxSize tag payload record) : ¬ (tag = 0 ∨ tag % 8 = 4) := by
  cases hplain <;> omega

theorem Plain.length_encode_le {maxSize tag : Nat} {encoded payload : List UInt8} {record : Record}
    (hplain : Plain maxSize tag payload record) (htag : IsTag encoded tag) :
    record.encode.length ≤ encoded.length + payload.length := by
  have hlength := htag.length_varint_le
  cases hplain with
  | varint _ hvarint _ =>
    have hvalue := hvarint.length_varint_le (Nat.mod_le _ (2 ^ 64))
    rw [Record.encode, List.length_append]
    omega
  | fixed64 _ hbytes =>
    rw [Record.encode, List.length_append, length_fixedBytes, hbytes]
    omega
  | length_delimited _ hsize =>
    have hcanonical := hsize.1.length_varint_le (Nat.le_of_eq hsize.2.2.1.symm)
    rw [Record.encode, List.length_append, List.length_append, List.length_append]
    omega
  | fixed32 _ hbytes =>
    rw [Record.encode, List.length_append, length_fixedBytes, hbytes]
    omega

/-- Fields that were read are never longer when they are written again. -/
theorem Fields.length_encode_le {maxSize depth : Nat} {bytes : List UInt8} {records : List Record}
    (hfields : Fields maxSize depth bytes records) : (encode records).length ≤ bytes.length := by
  induction hfields with
  | nil => simp
  | plain htag hplain _ ih =>
    have hrecord := hplain.length_encode_le htag
    simp only [encode_cons, List.length_append]
    omega
  | group _ hstart _ hstop _ ihinner ihrest =>
    have hopen := hstart.length_varint_le
    have hclose := hstop.length_varint_le
    simp only [encode_cons, Record.encode, List.length_append]
    omega

/-- The bytes of a field stand behind its tag and its size. -/
theorem Fields.delimited_occurs {maxSize depth number : Nat} {bytes text : List UInt8}
    {records : List Record} (hfields : Fields maxSize depth bytes records)
    (hmem : text ∈ delimited number records) :
    ∃ before tag size after, bytes = before ++ (tag ++ (size ++ (text ++ after))) ∧
      IsTag tag (number * 8 + 2) ∧ IsSize maxSize size text.length := by
  induction hfields with
  | nil => cases hmem
  | @plain depth tag encoded payload rest record records htag hplain _ ih =>
    rw [← List.singleton_append, delimited_append, List.mem_append] at hmem
    rcases hmem with hfirst | hrest
    · obtain rfl := mem_delimited_singleton.mp hfirst
      cases hplain with
      | @length_delimited _ size _ _ hsize => exact ⟨[], encoded, size, rest, by simp, htag, hsize⟩
    · obtain ⟨before, start, size, after, rfl, hstart, hsize⟩ := ih hrest
      refine ⟨encoded ++ payload ++ before, start, size, after, ?_, hstart, hsize⟩
      simp only [List.append_assoc]
  | @group depth other start inner stop rest fields records _ _ _ _ _ _ ih =>
    obtain ⟨before, tag, size, after, rfl, htag, hsize⟩ := ih hmem
    refine ⟨start ++ inner ++ stop ++ before, tag, size, after, ?_, htag, hsize⟩
    simp only [List.append_assoc]

end topview.wire
