import TopView.Protobuf.Writing

open topview.wire

namespace topview.protobuf

/-- The code that is generated for a message. -/
structure Generated (Impl : Type) where
  /-- The cases of `_InternalParse`. -/
  switch : Nat → Option (Handler Impl)
  /-- `_InternalSerialize` and `ByteSizeLong`. -/
  layout : Layout Impl
  /-- What `Clear` leaves. -/
  clear : Impl
  /-- `MergeImpl`. -/
  merge : Impl → Impl → Impl

/-- `ParseFromArray`. -/
def Generated.parse_from_array {Impl : Type} (generated : Generated Impl) (data : List UInt8) :
    Except Failure (Message Impl) :=
  merge_from_array generated.switch { impl := generated.clear, unknown_fields := [] } data

/-- `MergeFrom`. -/
def Generated.merge_from {Impl : Type} (generated : Generated Impl) (message other : Message Impl) :
    Message Impl where
  impl := generated.merge message.impl other.impl
  unknown_fields := message.unknown_fields ++ other.unknown_fields

/-- What a message is on the wire. -/
structure Format (Impl : Type) where
  /-- What a field with this tag does to the message. -/
  known : Nat → Option (Impl → Record → Option Impl)
  /-- The fields that stand for the message. -/
  fields : Impl → List Record
  /-- The values that the fields have room for. -/
  Sized : Impl → Prop
  /-- The values that the parser accepts. -/
  Checked : Impl → Prop

/-- A message that can be written. -/
structure Message.Sized {Impl : Type} (format : Format Impl) (message : Message Impl) : Prop where
  sized : format.Sized message.impl
  unknown : WellFormed maxSize default_recursion_limit message.unknown_fields
  unnamed : ∀ record ∈ message.unknown_fields, format.known record.tag = none

/-- A message that can be written and read back. -/
structure Message.Valid {Impl : Type} (format : Format Impl) (message : Message Impl) : Prop
    extends Message.Sized format message where
  checked : format.Checked message.impl

/-- All fields of a message. -/
def Message.records {Impl : Type} (format : Format Impl) (message : Message Impl) : List Record :=
  format.fields message.impl ++ message.unknown_fields

/-- The generated code reads and writes what its format says. -/
structure Generated.Lawful {Impl : Type} (generated : Generated Impl) (format : Format Impl) : Prop where
  implements : Implements generated.switch format.known
  writes {impl : Impl} : format.Sized impl → generated.layout.Writes impl (encode (format.fields impl))
  wellFormed {impl : Impl} : format.Sized impl →
    WellFormed maxSize default_recursion_limit (format.fields impl)
  sized_clear : format.Sized generated.clear
  checked_clear : format.Checked generated.clear
  fields_clear : format.fields generated.clear = []
  merge_clear (impl : Impl) : generated.merge generated.clear impl = impl
  foldlM_fields {impl : Impl} : format.Sized impl → format.Checked impl → ∀ message,
    (format.fields impl).foldlM (Message.absorb format.known) message =
      some { message with impl := generated.merge message.impl impl }
  absorb {impl read : Impl} {record : Record} {absorb : Impl → Record → Option Impl} :
    format.known record.tag = some absorb → absorb impl record = some read → record.Bounded maxSize →
      format.Sized impl → format.Checked impl → format.Sized read ∧ format.Checked read ∧
        (encode (format.fields read)).length ≤
          (encode (format.fields impl)).length + record.encode.length
  not_group {number : Nat} {fields : List Record} :
    format.known (Record.group number fields).tag = none

variable {Impl : Type} {generated : Generated Impl} {format : Format Impl}

/-- The fields of a message make up the message. -/
theorem Generated.Lawful.foldlM_records (hlawful : generated.Lawful format) {other : Message Impl}
    (hvalid : other.Valid format) (message : Message Impl) :
    (other.records format).foldlM (Message.absorb format.known) message =
      some (generated.merge_from message other) := by
  rw [Message.records, List.foldlM_append, hlawful.foldlM_fields hvalid.sized hvalid.checked,
    Option.bind_eq_bind, Option.bind_some, foldlM_unknown hvalid.unnamed]
  rfl

theorem Generated.Lawful.fields_records (hlawful : generated.Lawful format) {message : Message Impl}
    (hsized : message.Sized format) :
    Fields maxSize default_recursion_limit (encode (message.records format)) (message.records format) := by
  have hmax : maxSize < 2 ^ 35 := by
    unfold maxSize kSlopBytes
    omega
  rw [Message.records, encode_append]
  exact ((hlawful.wellFormed hsized.sized).fields_encode hmax).append (hsized.unknown.fields_encode hmax)

/-- A message is written whole into exactly as many bytes as are counted. -/
theorem Generated.Lawful.serialize_to_array_eq (hlawful : generated.Lawful format)
    {message : Message Impl} (hsized : message.Sized format)
    (hfits : byte_size_long generated.layout message < 2 ^ 31) {size : Nat}
    (hsize : byte_size_long generated.layout message ≤ size) :
    serialize_to_array generated.layout message size = .ok (some (encode (message.records format))) := by
  have hmax : maxSize < 2 ^ 32 := by
    unfold maxSize kSlopBytes
    omega
  rw [(hlawful.writes hsized.sized).serialize_to_array_eq hsized.unknown hmax hfits hsize,
    Message.records, encode_append]

theorem Generated.Lawful.byte_size_long_eq (hlawful : generated.Lawful format)
    {message : Message Impl} (hsized : message.Sized format) :
    byte_size_long generated.layout message = (encode (message.records format)).length := by
  have hmax : maxSize < 2 ^ 32 := by
    unfold maxSize kSlopBytes
    omega
  rw [(hlawful.writes hsized.sized).byte_size_long_eq hsized.unknown hmax, Message.records,
    encode_append]

/-- Merging the bytes of a message is merging the message. -/
theorem Generated.Lawful.merge_from_array_eq (hlawful : generated.Lawful format)
    {other : Message Impl} (hvalid : other.Valid format) (message : Message Impl) :
    merge_from_array generated.switch message (encode (other.records format)) =
      .ok (generated.merge_from message other) :=
  hlawful.implements.merge_from_array_eq_ok (hlawful.fields_records hvalid.toSized)
    (hlawful.foldlM_records hvalid message)

/-- What is written is read back. -/
theorem Generated.Lawful.parse_from_array_eq (hlawful : generated.Lawful format)
    {message : Message Impl} (hvalid : message.Valid format) :
    generated.parse_from_array (encode (message.records format)) = .ok message := by
  rw [Generated.parse_from_array, hlawful.merge_from_array_eq hvalid, Generated.merge_from,
    hlawful.merge_clear, List.nil_append]

/-- Bytes that are read one behind the other are merged in order. -/
theorem Generated.Lawful.merge_from_array_append (hlawful : generated.Lawful format)
    {first second : List UInt8} {message mid read : Message Impl}
    (hfirst : merge_from_array generated.switch message first = .ok mid)
    (hsecond : merge_from_array generated.switch mid second = .ok read) :
    merge_from_array generated.switch message (first ++ second) = .ok read := by
  obtain ⟨before, hbefore, hmid⟩ := hlawful.implements.merge_from_array_eq_ok_iff.mp hfirst
  obtain ⟨behind, hbehind, hread⟩ := hlawful.implements.merge_from_array_eq_ok_iff.mp hsecond
  apply hlawful.implements.merge_from_array_eq_ok (hbefore.append hbehind)
  rw [List.foldlM_append, hmid]
  exact hread

/-- A field keeps a message valid, and the message grows by no more than the
    field. -/
theorem Generated.Lawful.absorb_valid (hlawful : generated.Lawful format) {message read : Message Impl}
    {record : Record} (hvalid : message.Valid format)
    (hformed : WellFormed maxSize default_recursion_limit [record])
    (habsorb : message.absorb format.known record = some read) :
    read.Valid format ∧ (encode (read.records format)).length ≤
      (encode (message.records format)).length + record.encode.length := by
  cases hknown : format.known record.tag with
  | none =>
    rw [Message.absorb_of_none _ hknown, Option.some.injEq] at habsorb
    subst habsorb
    refine ⟨⟨⟨hvalid.sized, hvalid.unknown.append hformed, ?_⟩, hvalid.checked⟩, ?_⟩
    · rw [List.forall_mem_append, List.forall_mem_singleton]
      exact ⟨hvalid.unnamed, hknown⟩
    · simp [Message.records, Nat.add_assoc]
  | some absorb =>
    rw [Message.absorb_of_some _ hknown, Option.map_eq_some_iff] at habsorb
    obtain ⟨impl, himpl, rfl⟩ := habsorb
    cases hformed with
    | group =>
      rw [hlawful.not_group] at hknown
      cases hknown
    | plain hbounded _ =>
      obtain ⟨hsized, hchecked, hlength⟩ :=
        hlawful.absorb hknown himpl hbounded hvalid.sized hvalid.checked
      refine ⟨⟨⟨hsized, hvalid.unknown, hvalid.unnamed⟩, hchecked⟩, ?_⟩
      simp only [Message.records, encode_append, List.length_append]
      omega

theorem Generated.Lawful.foldlM_valid (hlawful : generated.Lawful format) {records : List Record}
    (hformed : WellFormed maxSize default_recursion_limit records) {message read : Message Impl}
    (hvalid : message.Valid format)
    (hfold : records.foldlM (Message.absorb format.known) message = some read) :
    read.Valid format ∧ (encode (read.records format)).length ≤
      (encode (message.records format)).length + (encode records).length := by
  induction records generalizing message with
  | nil =>
    cases hfold
    exact ⟨hvalid, Nat.le_add_right _ _⟩
  | cons record records ih =>
    rw [List.foldlM_cons, Option.bind_eq_bind, Option.bind_eq_some_iff] at hfold
    obtain ⟨mid, habsorb, hrest⟩ := hfold
    obtain ⟨hrecord, hrecords⟩ := hformed.cons
    obtain ⟨hmid, hlength⟩ := hlawful.absorb_valid hvalid hrecord habsorb
    obtain ⟨hread, hlengths⟩ := ih hrecords hmid hrest
    refine ⟨hread, ?_⟩
    rw [encode_cons, List.length_append]
    omega

/-- What is read can be written, in no more bytes than it was read from. -/
theorem Generated.Lawful.parse_from_array_valid (hlawful : generated.Lawful format)
    {data : List UInt8} {message : Message Impl}
    (hparse : generated.parse_from_array data = .ok message) :
    message.Valid format ∧ (encode (message.records format)).length ≤ data.length := by
  obtain ⟨records, hfields, hfold⟩ := hlawful.implements.merge_from_array_eq_ok_iff.mp hparse
  have hempty : Message.Valid format { impl := generated.clear, unknown_fields := [] } :=
    ⟨⟨hlawful.sized_clear, .nil, by simp⟩, hlawful.checked_clear⟩
  obtain ⟨hvalid, hlength⟩ := hlawful.foldlM_valid hfields.wellFormed hempty hfold
  have hbytes := hfields.length_encode_le
  have hnone : Message.records format { impl := generated.clear, unknown_fields := [] } = [] := by
    rw [Message.records, hlawful.fields_clear, List.append_nil]
  rw [hnone, encode_nil, List.length_nil] at hlength
  exact ⟨hvalid, by omega⟩

end topview.protobuf
