import TopView.Protocol.ChatSerialize

open topview.protobuf topview.wire

namespace topview.protocol

/-- The text that the server's handler takes out of a `C_Chat`. -/
def parse_text (address : List UInt8 → Nat) (data : List UInt8) : Option (List UInt8) :=
  match CChat.parse_from_array address data with
  | .ok message => some message.impl.message
  | .error _ => none

/-- The text that a client takes out of an `S_Chat`. -/
def receive_text (address : List UInt8 → Nat) (data : List UInt8) : Option (List UInt8) :=
  match SChat.parse_from_array address data with
  | .ok message => some message.impl.message
  | .error _ => none

theorem parse_text_eq_some_iff {address : List UInt8 → Nat} {data text : List UInt8} :
    parse_text address data = some text ↔
      ∃ records, Fields maxSize default_recursion_limit data records ∧
        (∀ other ∈ delimited 1 records, IsUtf8 other) ∧ text = (delimited 1 records).getLastD [] := by
  rw [parse_text]
  constructor
  · intro htext
    cases hparse : CChat.parse_from_array address data with
    | error failure => simp [hparse] at htext
    | ok message =>
      obtain ⟨records, hfields, hutf8, rfl⟩ := CChat.parse_from_array_eq_ok_iff_fields.mp hparse
      rw [hparse] at htext
      exact ⟨records, hfields, hutf8, (Option.some.inj htext).symm⟩
  · rintro ⟨records, hfields, hutf8, rfl⟩
    rw [CChat.parse_from_array_eq_ok_iff_fields.mpr ⟨records, hfields, hutf8, rfl⟩]
    rfl

theorem getLastD_eq_nil_or_mem (texts : List (List UInt8)) :
    texts.getLastD [] = [] ∨ texts.getLastD [] ∈ texts := by
  cases texts with
  | nil => exact Or.inl rfl
  | cons text texts =>
    rw [List.getLastD_cons]
    exact Or.inr List.getLastD_mem_cons

/-- A text that was read is UTF-8, and has a size that can be written. -/
theorem valid_of_parse_text {address : List UInt8 → Nat} {data text : List UInt8}
    (hparse : parse_text address data = some text) : IsUtf8 text ∧ text.length ≤ maxSize := by
  obtain ⟨records, hfields, hutf8, rfl⟩ := parse_text_eq_some_iff.mp hparse
  rcases getLastD_eq_nil_or_mem (delimited 1 records) with hempty | hmem
  · rw [hempty]
    exact ⟨.nil, Nat.zero_le _⟩
  · obtain ⟨_, _, _, _, _, _, hsize⟩ := hfields.delimited_occurs hmem
    exact ⟨hutf8 _ hmem, hsize.2.2.2⟩

/-- A text that was read stands in the bytes behind its tag and its size. -/
theorem textOccurs_parse_text (address : List UInt8 → Nat) : TextOccurs (parse_text address) := by
  intro body text hparse hne
  obtain ⟨records, hfields, _, rfl⟩ := parse_text_eq_some_iff.mp hparse
  rcases getLastD_eq_nil_or_mem (delimited 1 records) with hempty | hmem
  · exact absurd hempty hne
  · obtain ⟨before, tag, size, after, hbytes, htag, hsize⟩ := hfields.delimited_occurs hmem
    obtain ⟨hvarint, _, hvalue, hle⟩ := hsize
    refine ⟨before, tag, size, after, hbytes, htag.1.ne_nil, ?_⟩
    rw [varint32_eq (length_lt_of_le_maxSize hle)]
    exact hvarint.length_varint_le (Nat.le_of_eq hvalue.symm)

/-- A `C_Chat` with nothing but a text is counted and written. -/
theorem CChat.serialize_to_array_set_message {text : List UInt8} (hlength : text.length ≤ maxSize)
    (hfits : (CChat.set_message text).serialize.length < 2 ^ 31) :
    byte_size_long CChat.layout { impl := CChat.set_message text, unknown_fields := [] } =
        (CChat.set_message text).serialize.length ∧
      serialize_to_array CChat.layout { impl := CChat.set_message text, unknown_fields := [] }
        (CChat.set_message text).serialize.length = .ok (some (CChat.set_message text).serialize) := by
  have hlawful := CChat.lawful fun _ => 0
  have hsized : Message.Sized (CChat.format fun _ => 0) ⟨CChat.set_message text, []⟩ :=
    ⟨hlength, .nil, by simp⟩
  have hrecords : Message.records (CChat.format fun _ => 0) ⟨CChat.set_message text, []⟩ =
      (CChat.set_message text).fields := List.append_nil _
  have hserialize : (CChat.set_message text).serialize = encode (CChat.set_message text).fields :=
    CChat.serialize_eq (length_lt_of_le_maxSize hlength)
  have hsize := hlawful.byte_size_long_eq hsized
  rw [hrecords, ← hserialize] at hsize
  refine ⟨hsize, ?_⟩
  have hwritten := hlawful.serialize_to_array_eq hsized (lt_of_eq_of_lt hsize hfits) (le_of_eq hsize)
  rwa [hrecords, ← hserialize] at hwritten

/-- What a client writes is what the server takes out of it. -/
theorem parse_text_serialize {address : List UInt8 → Nat} {text : List UInt8} (hutf8 : IsUtf8 text)
    (hlength : text.length ≤ maxSize) :
    parse_text address (CChat.set_message text).serialize = some text := by
  have hvalid : Message.Valid (CChat.format address) ⟨CChat.set_message text, []⟩ :=
    ⟨⟨hlength, .nil, by simp⟩, hutf8⟩
  have hparse : CChat.parse_from_array address _ = _ := (CChat.lawful address).parse_from_array_eq hvalid
  have hrecords : Message.records (CChat.format address) ⟨CChat.set_message text, []⟩ =
      (CChat.set_message text).fields := List.append_nil _
  have hserialize : (CChat.set_message text).serialize = encode (CChat.set_message text).fields :=
    CChat.serialize_eq (length_lt_of_le_maxSize hlength)
  rw [hrecords, ← hserialize] at hparse
  rw [parse_text, hparse]
  rfl

/-- What the server writes is what a client takes out of it. -/
theorem SChat.parse_from_array_serialize {address : List UInt8 → Nat} {text : List UInt8}
    (hutf8 : IsUtf8 text) (hlength : text.length ≤ maxSize) :
    SChat.parse_from_array address (SChat.set_message text).serialize =
      .ok { impl := SChat.set_message text, unknown_fields := [] } := by
  have hsender : (SChat.set_message text).sender_id < 2 ^ 32 := Nat.two_pow_pos 32
  have hvalid : Message.Valid (SChat.format address) ⟨SChat.set_message text, []⟩ :=
    ⟨⟨⟨hlength, hsender⟩, .nil, by simp⟩, hutf8⟩
  have hparse : SChat.parse_from_array address _ = _ := (SChat.lawful address).parse_from_array_eq hvalid
  have hrecords : Message.records (SChat.format address) ⟨SChat.set_message text, []⟩ =
      (SChat.set_message text).fields := List.append_nil _
  have hserialize : (SChat.set_message text).serialize = encode (SChat.set_message text).fields :=
    SChat.serialize_eq (length_lt_of_le_maxSize hlength) hsender
  rwa [hrecords, ← hserialize] at hparse

theorem receive_text_serialize {address : List UInt8 → Nat} {text : List UInt8} (hutf8 : IsUtf8 text)
    (hlength : text.length ≤ maxSize) :
    receive_text address (SChat.set_message text).serialize = some text := by
  rw [receive_text, SChat.parse_from_array_serialize hutf8 hlength]
  rfl

end topview.protocol
