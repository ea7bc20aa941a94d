import TopView.Protobuf.Message
import TopView.Protocol.Chat

open topview.protocol topview.wire

namespace topview.protobuf

/-- How a serializer fails to write into an array. -/
inductive Overflow
  /-- A write outside of the array. -/
  | outside
  /-- `EnsureSpace` has no space left. What comes next does not go into the
      array. -/
  | had_error
  deriving DecidableEq, Repr

/-- A part of a serializer. It is given the bytes written so far, and its
    pointer stands behind them. -/
abbrev Writer := List UInt8 → Except Overflow (List UInt8)

/-- Bytes stored in an array of `size` bytes. -/
def store (size : Nat) (bytes : List UInt8) : Writer :=
  fun out => if out.length + bytes.length ≤ size then .ok (out ++ bytes) else .error .outside

/-- `EnsureSpace` on an array. -/
def ensure_space (size : Nat) : Writer :=
  fun out => if out.length < size then .ok out else .error .had_error

/-- The varint of a `uint64_t`. -/
def varint64 (value : Nat) : List UInt8 := varintWithin 9 value

/-- `MakeTag`. -/
def make_tag (number wire_type : Nat) : Nat := (number * 8 + wire_type) % 2 ^ 32

/-- `WriteTagToArray`. -/
def write_tag (size number wire_type : Nat) : Writer := store size (varint32 (make_tag number wire_type))

/-- `TagSize`. -/
def tag_size (tag : Nat) : Nat :=
  if tag < 2 ^ 7 then 1
  else if tag < 2 ^ 14 then 2
  else if tag < 2 ^ 21 then 3
  else if tag < 2 ^ 28 then 4
  else 5

/-- `WriteString` and `WriteStringMaybeAliased`, without aliasing. -/
def write_string (size number : Nat) (s : List UInt8) : Writer := fun out => do
  -- sixteen bytes behind the array count as space for a short string
  if 128 ≤ s.length ∨ (size : Int) - out.length + 16 - tag_size (number * 8) - 1 < s.length then
    let out ← ensure_space size out
    let out ← write_tag size number 2 out
    let out ← store size (varint32 s.length) out
    store size s out
  else
    let out ← write_tag size number 2 out
    let out ← store size [UInt8.ofNat s.length] out
    store size s out

mutual

/-- One round of the loop of `InternalSerializeUnknownFieldsToArray`. -/
def write_unknown_field (size : Nat) : Record → Writer
  | .varint number value => fun out => do
    let out ← ensure_space size out
    let out ← write_tag size number 0 out
    store size (varint64 value) out
  | .fixed64 number value => fun out => do
    let out ← ensure_space size out
    let out ← write_tag size number 1 out
    store size (fixedBytes 8 value) out
  | .length_delimited number bytes => fun out => do
    let out ← ensure_space size out
    write_string size number bytes out
  | .group number fields => fun out => do
    let out ← ensure_space size out
    let out ← write_tag size number 3 out
    let out ← internal_serialize_unknown_fields size fields out
    let out ← ensure_space size out
    write_tag size number 4 out
  | .fixed32 number value => fun out => do
    let out ← ensure_space size out
    let out ← write_tag size number 5 out
    store size (fixedBytes 4 value) out

/-- `InternalSerializeUnknownFieldsToArray`. -/
def internal_serialize_unknown_fields (size : Nat) : List Record → Writer
  | [] => fun out => .ok out
  | field :: fields => fun out => do
    let out ← write_unknown_field size field out
    internal_serialize_unknown_fields size fields out

end

/-- `VarintSize32`, with the multiplication in the place of a division by seven. -/
def varint_size32 (value : Nat) : Nat := (Nat.log2 (value ||| 1) * 9 + 73) / 64

/-- `VarintSize32PlusOne`. -/
def varint_size32_plus_one (value : Nat) : Nat := (Nat.log2 (value ||| 1) * 9 + 73 + 64) / 64

/-- `VarintSize64`. -/
def varint_size64 (value : Nat) : Nat := (Nat.log2 (value ||| 1) * 9 + 73) / 64

/-- `LengthDelimitedSize`. -/
def length_delimited_size (length : Nat) : Nat := length + varint_size32 (length % 2 ^ 32)

mutual

/-- One round of the loop of `ComputeUnknownFieldsSize`. -/
def unknown_field_size : Record → Nat
  | .varint number value => varint_size32 (make_tag number 0) + varint_size64 value
  | .fixed64 number _ => varint_size32 (make_tag number 1) + 8
  | .length_delimited number bytes =>
    varint_size32 (make_tag number 2) + varint_size32 (bytes.length % 2 ^ 32) + bytes.length
  | .group number fields =>
    varint_size32 (make_tag number 3) + compute_unknown_fields_size fields +
      varint_size32 (make_tag number 4)
  | .fixed32 number _ => varint_size32 (make_tag number 5) + 4

/-- `ComputeUnknownFieldsSize`. -/
def compute_unknown_fields_size : List Record → Nat
  | [] => 0
  | field :: fields => unknown_field_size field + compute_unknown_fields_size fields

end

/-- The generated functions that write the fields of a message and count their
    bytes. -/
structure Layout (Impl : Type) where
  write : Nat → Impl → Writer
  size : Impl → Nat

/-- `_InternalSerialize`. -/
def internal_serialize {Impl : Type} (layout : Layout Impl) (size : Nat) (message : Message Impl) :
    Writer := fun out => do
  let out ← layout.write size message.impl out
  internal_serialize_unknown_fields size message.unknown_fields out

/-- `ByteSizeLong`. -/
def byte_size_long {Impl : Type} (layout : Layout Impl) (message : Message Impl) : Nat :=
  layout.size message.impl + compute_unknown_fields_size message.unknown_fields

/-- `SerializeToArray` into `size` bytes. `none` is its `false`, which writes
    nothing. -/
def serialize_to_array {Impl : Type} (layout : Layout Impl) (message : Message Impl) (size : Nat) :
    Except Overflow (Option (List UInt8)) :=
  let byte_size := byte_size_long layout message
  if 2 ^ 31 - 1 < byte_size then .ok none
  else if size < byte_size then .ok none
  else (internal_serialize layout byte_size message []).map some

/-- Wherever the array has room for these bytes, the serializer writes them. -/
def Emits (size : Nat) (writer : Writer) (bytes : List UInt8) : Prop :=
  ∀ out, out.length + bytes.length ≤ size → writer out = .ok (out ++ bytes)

theorem varintWithin_eq (more value : Nat) : varintWithin more value = varintGroups more value := by
  induction more generalizing value with
  | zero => rfl
  | succ more ih => rw [varintWithin, varintGroups, ih]

theorem varint32_eq {value : Nat} (hlt : value < 2 ^ 32) : varint32 value = varint value := by
  rw [varint32, varintWithin_eq, varintGroups_eq_varint (by omega)]

theorem varint64_eq {value : Nat} (hlt : value < 2 ^ 64) : varint64 value = varint value := by
  rw [varint64, varintWithin_eq, varintGroups_eq_varint (by omega)]

theorem make_tag_eq {number wire_type : Nat} (hnumber : number < 2 ^ 29) (htype : wire_type < 8) :
    make_tag number wire_type = number * 8 + wire_type :=
  Nat.mod_eq_of_lt (by omega)

theorem emits_store (size : Nat) (bytes : List UInt8) : Emits size (store size bytes) bytes := by
  intro out hroom
  rw [store, if_pos hroom]

theorem Emits.bind {size : Nat} {first second : Writer} {bytes more : List UInt8}
    (hfirst : Emits size first bytes) (hsecond : Emits size second more) :
    Emits size (fun out => first out >>= second) (bytes ++ more) := by
  intro out hroom
  rw [List.length_append, ← Nat.add_assoc] at hroom
  have hrest : (out ++ bytes).length + more.length ≤ size := by
    rw [List.length_append]
    exact hroom
  dsimp only
  rw [hfirst out (by omega)]
  change second (out ++ bytes) = _
  rw [hsecond _ hrest, List.append_assoc]

/-- There is space in front of what is not empty. -/
theorem Emits.ensure_space {size : Nat} {writer : Writer} {bytes : List UInt8}
    (hwriter : Emits size writer bytes) (hne : bytes ≠ []) :
    Emits size (fun out => protobuf.ensure_space size out >>= writer) bytes := by
  intro out hroom
  have hpositive := List.length_pos_iff.mpr hne
  dsimp only
  rw [protobuf.ensure_space, if_pos (by omega)]
  exact hwriter out hroom

theorem emits_write_tag {number wire_type : Nat} (size : Nat) (hnumber : number < 2 ^ 29)
    (htype : wire_type < 8) :
    Emits size (write_tag size number wire_type) (varint (number * 8 + wire_type)) := by
  rw [write_tag, make_tag_eq hnumber htype, varint32_eq (by omega)]
  exact emits_store _ _

/-- A field begins with its tag. -/
theorem Emits.field {size number wire_type : Nat} {writer : Writer} {bytes : List UInt8}
    (hnumber : number < 2 ^ 29) (htype : wire_type < 8) (hwriter : Emits size writer bytes) :
    Emits size (fun out => protobuf.ensure_space size out >>= fun out =>
      write_tag size number wire_type out >>= writer) (varint (number * 8 + wire_type) ++ bytes) := by
  apply Emits.ensure_space ((emits_write_tag size hnumber htype).bind hwriter)
  simp [(isVarint_varint _).ne_nil]

theorem emits_write_string {number : Nat} {s : List UInt8} (size : Nat) (hnumber : number < 2 ^ 29)
    (hlength : s.length < 2 ^ 32) :
    Emits size (write_string size number s) (varint (number * 8 + 2) ++ (varint s.length ++ s)) := by
  have hstring (bytes : List UInt8) : Emits size (fun out => store size bytes out >>= store size s)
      (bytes ++ s) := (emits_store size bytes).bind (emits_store size s)
  intro out hroom
  rw [write_string]
  split
  · rw [varint32_eq hlength]
    exact Emits.field hnumber (by omega) (hstring (varint s.length)) out hroom
  · next hshort =>
    have hsize : [UInt8.ofNat s.length] = varint s.length := (varint_of_lt (by omega)).symm
    rw [hsize]
    exact (emits_write_tag size hnumber (by omega)).bind (hstring (varint s.length)) out hroom

theorem Record.Bounded.emits {limit size : Nat} {record : Record} (hbounded : record.Bounded limit)
    (hlimit : limit < 2 ^ 32) : Emits size (write_unknown_field size record) record.encode := by
  cases record with
  | varint number value =>
    obtain ⟨⟨_, hnumber⟩, hvalue⟩ := hbounded
    rw [Record.encode, write_unknown_field, varint64_eq hvalue]
    exact .field hnumber (by omega) (emits_store size _)
  | fixed64 number value =>
    obtain ⟨⟨_, hnumber⟩, _⟩ := hbounded
    rw [Record.encode, write_unknown_field]
    exact .field hnumber (by omega) (emits_store size _)
  | length_delimited number bytes =>
    obtain ⟨⟨_, hnumber⟩, hlength⟩ := hbounded
    rw [Record.encode, write_unknown_field]
    apply Emits.ensure_space (emits_write_string size hnumber (by omega))
    simp [(isVarint_varint _).ne_nil]
  | group number fields => exact hbounded.elim
  | fixed32 number value =>
    obtain ⟨⟨_, hnumber⟩, _⟩ := hbounded
    rw [Record.encode, write_unknown_field]
    exact .field hnumber (by omega) (emits_store size _)

/-- Unknown fields are written as they are read, and nothing outside of the
    array. -/
theorem WellFormed.emits {limit depth size : Nat} {records : List Record}
    (hformed : WellFormed limit depth records) (hlimit : limit < 2 ^ 32) :
    Emits size (internal_serialize_unknown_fields size records) (encode records) := by
  induction hformed with
  | nil =>
    intro out _
    rw [internal_serialize_unknown_fields, encode_nil, List.append_nil]
  | plain hbounded _ ih =>
    rw [internal_serialize_unknown_fields, encode_cons]
    exact (Record.Bounded.emits hbounded hlimit).bind ih
  | @group depth number fields records hnumber _ _ ihfields ihrest =>
    have hend : Emits size (fun out => protobuf.ensure_space size out >>= write_tag size number 4)
        (varint (number * 8 + 4)) :=
      .ensure_space (emits_write_tag size hnumber.2 (by omega)) (isVarint_varint _).ne_nil
    rw [internal_serialize_unknown_fields, encode_cons, Record.encode, write_unknown_field]
    exact (Emits.field hnumber.2 (by omega) (ihfields.bind hend)).bind ihrest

/-- The bit that stands in for a zero changes no other logarithm. -/
theorem log_or_one (value : Nat) : Nat.log 2 (value ||| 1) = Nat.log 2 value := by
  have hhalf : (value ||| 1) / 2 = value / 2 := by
    rw [Nat.or_div_two]
    simp
  rcases Nat.lt_or_ge value 2 with hlt | hle
  · have hsmall : value ||| 1 < 2 := by omega
    rw [Nat.log_of_lt hsmall, Nat.log_of_lt hlt]
  · rw [Nat.log_of_one_lt_of_le (by omega) (by omega : 2 ≤ value ||| 1), hhalf,
      Nat.log_of_one_lt_of_le (by omega) hle]

/-- Nine sixty-fourths divide by seven, up to 64 bits. -/
theorem varint_size64_eq {value : Nat} (hlt : value < 2 ^ 64) :
    varint_size64 value = (varint value).length := by
  have hlog : Nat.log 2 value < 64 := Nat.log_lt_of_lt_pow' (by omega) hlt
  have hseven : Nat.log 128 value = Nat.log 2 value / 7 := Nat.log_pow_left 2 7 value
  rw [varint_size64, Nat.log2_eq_log_two, log_or_one, length_varint, hseven]
  omega

theorem varint_size32_eq {value : Nat} (hlt : value < 2 ^ 32) :
    varint_size32 value = (varint value).length := by
  rw [varint_size32, ← varint_size64, varint_size64_eq (by omega)]

theorem varint_size32_plus_one_eq {value : Nat} (hlt : value < 2 ^ 32) :
    varint_size32_plus_one value = (varint value).length + 1 := by
  rw [← varint_size32_eq hlt, varint_size32_plus_one, varint_size32]
  omega

theorem varint_size32_make_tag {number wire_type : Nat} (hnumber : number < 2 ^ 29)
    (htype : wire_type < 8) :
    varint_size32 (make_tag number wire_type) = (varint (number * 8 + wire_type)).length := by
  rw [make_tag_eq hnumber htype, varint_size32_eq (by omega)]

theorem length_delimited_size_eq {length : Nat} (hlength : length < 2 ^ 32) :
    length_delimited_size length = (varint length).length + length := by
  rw [length_delimited_size, Nat.mod_eq_of_lt hlength, varint_size32_eq hlength, Nat.add_comm]

theorem Record.Bounded.unknown_field_size_eq {limit : Nat} {record : Record}
    (hbounded : record.Bounded limit) (hlimit : limit < 2 ^ 32) :
    unknown_field_size record = record.encode.length := by
  cases record with
  | varint number value =>
    obtain ⟨⟨_, hnumber⟩, hvalue⟩ := hbounded
    rw [unknown_field_size, Record.encode, varint_size32_make_tag hnumber (by omega),
      varint_size64_eq hvalue, List.length_append, Nat.add_zero]
  | fixed64 number value =>
    obtain ⟨⟨_, hnumber⟩, _⟩ := hbounded
    rw [unknown_field_size, Record.encode, varint_size32_make_tag hnumber (by omega),
      List.length_append, length_fixedBytes]
  | length_delimited number bytes =>
    obtain ⟨⟨_, hnumber⟩, hlength⟩ := hbounded
    have hsmall : bytes.length < 2 ^ 32 := by omega
    rw [unknown_field_size, Record.encode, varint_size32_make_tag hnumber (by omega),
      Nat.mod_eq_of_lt hsmall, varint_size32_eq hsmall, List.length_append, List.length_append,
      Nat.add_assoc]
  | group number fields => exact hbounded.elim
  | fixed32 number value =>
    obtain ⟨⟨_, hnumber⟩, _⟩ := hbounded
    rw [unknown_field_size, Record.encode, varint_size32_make_tag hnumber (by omega),
      List.length_append, length_fixedBytes]

theorem WellFormed.compute_unknown_fields_size_eq {limit depth : Nat} {records : List Record}
    (hformed : WellFormed limit depth records) (hlimit : limit < 2 ^ 32) :
    compute_unknown_fields_size records = (encode records).length := by
  induction hformed with
  | nil => rw [compute_unknown_fields_size, encode_nil, List.length_nil]
  | plain hbounded _ ih =>
    rw [compute_unknown_fields_size, encode_cons, List.length_append, ih,
      Record.Bounded.unknown_field_size_eq hbounded hlimit]
  | group hnumber _ _ ihfields ihrest =>
    rw [compute_unknown_fields_size, unknown_field_size, encode_cons, Record.encode,
      varint_size32_make_tag hnumber.2 (by omega), varint_size32_make_tag hnumber.2 (by omega),
      ihfields, ihrest]
    simp only [List.length_append]
    omega

/-- The generated functions of a message write these bytes and count them. -/
structure Layout.Writes {Impl : Type} (layout : Layout Impl) (impl : Impl) (bytes : List UInt8) :
    Prop where
  emits (size : Nat) : Emits size (layout.write size impl) bytes
  size_eq : layout.size impl = bytes.length

variable {Impl : Type} {layout : Layout Impl}

theorem Layout.Writes.byte_size_long_eq {message : Message Impl} {bytes : List UInt8}
    {limit depth : Nat} (hwrites : layout.Writes message.impl bytes)
    (hformed : WellFormed limit depth message.unknown_fields) (hlimit : limit < 2 ^ 32) :
    byte_size_long layout message = (bytes ++ encode message.unknown_fields).length := by
  rw [byte_size_long, hwrites.size_eq, WellFormed.compute_unknown_fields_size_eq hformed hlimit,
    List.length_append]

/-- The serializer fills exactly the bytes that were counted. -/
theorem Layout.Writes.serialize_to_array_eq {message : Message Impl} {bytes : List UInt8}
    {limit depth : Nat} (hwrites : layout.Writes message.impl bytes)
    (hformed : WellFormed limit depth message.unknown_fields) (hlimit : limit < 2 ^ 32)
    (hfits : byte_size_long layout message < 2 ^ 31) {size : Nat}
    (hsize : byte_size_long layout message ≤ size) :
    serialize_to_array layout message size = .ok (some (bytes ++ encode message.unknown_fields)) := by
  have hbytes := hwrites.byte_size_long_eq hformed hlimit
  have hemits := (hwrites.emits (byte_size_long layout message)).bind (WellFormed.emits hformed hlimit)
  have hwritten : internal_serialize layout (byte_size_long layout message) message [] = _ :=
    hemits [] (by rw [hbytes, List.length_nil, Nat.zero_add])
  rw [serialize_to_array, if_neg (by omega), if_neg (by omega), hwritten, List.nil_append]
  rfl

end topview.protobuf
