import TopView.Protobuf.Generated
import TopView.Protocol.ChatParse

open topview.protobuf topview.wire

namespace topview.protocol

/-- A default-constructed `C_Chat` after `set_message`. -/
def CChat.set_message (text : List UInt8) : CChat := { message := text }

/-- The bytes of a text field, which is left out when it is empty. -/
def write_message (size : Nat) (text : List UInt8) : Writer :=
  fun out => if text = [] then .ok out else write_string size 1 text out

/-- The part of `ByteSizeLong` for a text field. -/
def message_size (text : List UInt8) : Nat :=
  if text = [] then 0 else 1 + length_delimited_size text.length

/-- `C_Chat::_InternalSerialize` and `C_Chat::ByteSizeLong`. -/
def CChat.layout : Layout CChat where
  write := fun size chat => write_message size chat.message
  size := fun chat => message_size chat.message

/-- `S_Chat::_InternalSerialize` and `S_Chat::ByteSizeLong`. -/
def SChat.layout : Layout SChat where
  write := fun size chat out => do
    let out ← write_message size chat.message out
    if chat.sender_id = 0 then return out
    else
      let out ← ensure_space size out
      let out ← write_tag size 2 0 out
      store size (varint32 chat.sender_id) out
  size := fun chat =>
    message_size chat.message +
      if chat.sender_id = 0 then 0 else varint_size32_plus_one chat.sender_id

/-- The bytes of a `C_Chat` without unknown fields. -/
def CChat.serialize (chat : CChat) : List UInt8 :=
  if chat.message = [] then [] else 10 :: (varint32 chat.message.length ++ chat.message)

/-- The field that a text is written as. -/
def text_field (text : List UInt8) : List Record :=
  if text = [] then [] else [.length_delimited 1 text]

/-- The field that a sender is written as. -/
def sender_id_field (sender_id : Nat) : List Record :=
  if sender_id = 0 then [] else [.varint 2 sender_id]

/-- The fields that a `C_Chat` is written as. -/
def CChat.fields (chat : CChat) : List Record := text_field chat.message

/-- The fields that an `S_Chat` is written as. -/
def SChat.fields (chat : SChat) : List Record :=
  text_field chat.message ++ sender_id_field chat.sender_id

/-- `C_Chat::MergeImpl`. -/
def CChat.merge_impl (chat other : CChat) : CChat :=
  if other.message = [] then chat else { chat with message := other.message }

/-- `S_Chat::MergeImpl`. -/
def SChat.merge_impl (chat other : SChat) : SChat where
  message := if other.message = [] then chat.message else other.message
  sender_id := if other.sender_id = 0 then chat.sender_id else other.sender_id

/-- The generated code of `C_Chat`. -/
def CChat.generated (address : List UInt8 → Nat) : Generated CChat where
  switch := c_chat_switch address
  layout := CChat.layout
  clear := CChat.clear.impl
  merge := CChat.merge_impl

/-- The generated code of `S_Chat`. -/
def SChat.generated (address : List UInt8 → Nat) : Generated SChat where
  switch := s_chat_switch address
  layout := SChat.layout
  clear := SChat.clear.impl
  merge := SChat.merge_impl

def CChat.format (address : List UInt8 → Nat) : Format CChat where
  known := CChat.known address
  fields := CChat.fields
  Sized := fun chat => chat.message.length ≤ maxSize
  Checked := fun chat => IsUtf8 chat.message

def SChat.format (address : List UInt8 → Nat) : Format SChat where
  known := SChat.known address
  fields := SChat.fields
  Sized := fun chat => chat.message.length ≤ maxSize ∧ chat.sender_id < 2 ^ 32
  Checked := fun chat => IsUtf8 chat.message

theorem maxSize_lt : maxSize < 2 ^ 31 := by
  unfold maxSize kSlopBytes
  omega

theorem varint_ten : varint 10 = [10] := varint_of_lt (by omega)

theorem varint_sixteen : varint 16 = [16] := varint_of_lt (by omega)

theorem encode_text_field {text : List UInt8} (hlength : text.length < 2 ^ 32) :
    encode (text_field text) = if text = [] then [] else 10 :: (varint32 text.length ++ text) := by
  rw [text_field]
  split
  · rw [encode_nil]
  · rw [encode_cons, encode_nil, List.append_nil, Record.encode, varint_ten, varint32_eq hlength,
      List.singleton_append]

theorem encode_sender_id_field {sender_id : Nat} (hlt : sender_id < 2 ^ 32) :
    encode (sender_id_field sender_id) = if sender_id = 0 then [] else 16 :: varint32 sender_id := by
  rw [sender_id_field]
  split
  · rw [encode_nil]
  · rw [encode_cons, encode_nil, List.append_nil, Record.encode, varint_sixteen, varint32_eq hlt,
      List.singleton_append]

theorem CChat.serialize_eq {chat : CChat} (hlength : chat.message.length < 2 ^ 32) :
    chat.serialize = encode chat.fields := by
  rw [CChat.serialize, CChat.fields, encode_text_field hlength]

theorem SChat.serialize_eq {chat : SChat} (hlength : chat.message.length < 2 ^ 32)
    (hsender : chat.sender_id < 2 ^ 32) : chat.serialize = encode chat.fields := by
  rw [SChat.serialize, SChat.fields, encode_append, encode_text_field hlength,
    encode_sender_id_field hsender]

theorem emits_write_message {text : List UInt8} (size : Nat) (hlength : text.length < 2 ^ 32) :
    Emits size (write_message size text)
      (if text = [] then [] else 10 :: (varint32 text.length ++ text)) := by
  intro out hroom
  rw [write_message]
  by_cases hempty : text = []
  · rw [if_pos hempty, if_pos hempty, List.append_nil]
  · rw [if_neg hempty] at hroom ⊢
    rw [if_neg hempty]
    have hemits := emits_write_string size (by omega : 1 < 2 ^ 29) hlength
    rw [varint_ten, List.singleton_append, ← varint32_eq hlength] at hemits
    exact hemits out hroom

theorem message_size_eq {text : List UInt8} (hlength : text.length < 2 ^ 32) :
    message_size text =
      (if text = [] then [] else 10 :: (varint32 text.length ++ text)).length := by
  rw [message_size]
  split
  · rfl
  · rw [length_delimited_size_eq hlength, varint32_eq hlength, List.length_cons, List.length_append]
    omega

theorem CChat.layout_writes {chat : CChat} (hlength : chat.message.length < 2 ^ 32) :
    CChat.layout.Writes chat chat.serialize :=
  ⟨fun size => emits_write_message size hlength, message_size_eq hlength⟩

theorem SChat.layout_writes {chat : SChat} (hlength : chat.message.length < 2 ^ 32)
    (hsender : chat.sender_id < 2 ^ 32) : SChat.layout.Writes chat chat.serialize := by
  constructor
  · intro size
    apply (emits_write_message size hlength).bind
    by_cases hzero : chat.sender_id = 0
    · intro out _
      rw [if_pos hzero, List.append_nil]
      exact if_pos hzero
    · simp only [if_neg hzero]
      have hfield := Emits.field (by omega : 2 < 2 ^ 29) (by omega : 0 < 8)
        (emits_store size (varint32 chat.sender_id))
      rwa [varint_sixteen, List.singleton_append] at hfield
  · change message_size chat.message + _ = _
    rw [message_size_eq hlength, SChat.serialize, List.length_append]
    congr 1
    split
    · rfl
    · rw [varint_size32_plus_one_eq hsender, varint32_eq hsender, List.length_cons]

theorem length_lt_of_le_maxSize {text : List UInt8} (hlength : text.length ≤ maxSize) :
    text.length < 2 ^ 32 := by
  have hmax := maxSize_lt
  omega

theorem text_field_wellFormed {text : List UInt8} (hlength : text.length ≤ maxSize) (depth : Nat) :
    WellFormed maxSize depth (text_field text) := by
  rw [text_field]
  split
  · exact .nil
  · exact .plain ⟨⟨by omega, by omega⟩, hlength⟩ .nil

theorem sender_id_field_wellFormed {sender_id : Nat} (hlt : sender_id < 2 ^ 32) (depth : Nat) :
    WellFormed maxSize depth (sender_id_field sender_id) := by
  rw [sender_id_field]
  split
  · exact .nil
  · exact .plain ⟨⟨by omega, by omega⟩, by omega⟩ .nil

theorem CChat.foldlM_fields {address : List UInt8 → Nat} {chat : CChat} (hutf8 : IsUtf8 chat.message)
    (message : Message CChat) :
    chat.fields.foldlM (Message.absorb (CChat.known address)) message =
      some { message with impl := CChat.merge_impl message.impl chat } := by
  rw [CChat.fields, text_field, CChat.merge_impl]
  split
  · rfl
  · rw [List.foldlM_cons, Message.absorb_of_some _ rfl, absorb_string, if_pos (verify_utf8_iff.mpr hutf8)]
    rfl

theorem SChat.foldlM_fields {address : List UInt8 → Nat} {chat : SChat} (hutf8 : IsUtf8 chat.message)
    (hsender : chat.sender_id < 2 ^ 32) (message : Message SChat) :
    chat.fields.foldlM (Message.absorb (SChat.known address)) message =
      some { message with impl := SChat.merge_impl message.impl chat } := by
  have htext : (text_field chat.message).foldlM (Message.absorb (SChat.known address)) message =
      some { message with impl := { message.impl with
        message := if chat.message = [] then message.impl.message else chat.message } } := by
    rw [text_field]
    split
    · rfl
    · rw [List.foldlM_cons, Message.absorb_of_some _ rfl, absorb_string,
        if_pos (verify_utf8_iff.mpr hutf8)]
      rfl
  rw [SChat.fields, List.foldlM_append, htext, Option.bind_eq_bind, Option.bind_some,
    sender_id_field, SChat.merge_impl]
  by_cases hzero : chat.sender_id = 0
  · rw [if_pos hzero, if_pos hzero]
    rfl
  · rw [if_neg hzero, if_neg hzero, List.foldlM_cons, Message.absorb_of_some _ rfl, absorb_uint32,
      Nat.mod_eq_of_lt hsender]
    rfl

/-- A text takes no more bytes than it was read from. -/
theorem length_encode_text_field (text : List UInt8) :
    (encode (text_field text)).length ≤ (Record.length_delimited 1 text).encode.length := by
  rw [text_field]
  split
  · rw [encode_nil, List.length_nil]
    exact Nat.zero_le _
  · rw [encode_cons, encode_nil, List.append_nil]

/-- The bits that a `uint32` drops are not written again. -/
theorem length_encode_sender_id_field (value : Nat) :
    (encode (sender_id_field (value % 2 ^ 32))).length ≤ (Record.varint 2 value).encode.length := by
  rw [sender_id_field]
  split
  · rw [encode_nil, List.length_nil]
    exact Nat.zero_le _
  · have hvalue := length_varint_mono (Nat.mod_le value (2 ^ 32))
    rw [encode_cons, encode_nil, List.append_nil, Record.encode, Record.encode, List.length_append,
      List.length_append]
    omega

theorem CChat.lawful (address : List UInt8 → Nat) :
    (CChat.generated address).Lawful (CChat.format address) where
  implements := CChat.implements address
  writes := by
    intro chat hlength
    have hsize := length_lt_of_le_maxSize hlength
    have hwrites := CChat.layout_writes hsize
    rwa [CChat.serialize_eq hsize] at hwrites
  wellFormed := fun hlength => text_field_wellFormed hlength _
  sized_clear := Nat.zero_le _
  checked_clear := .nil
  fields_clear := rfl
  merge_clear := by
    intro chat
    change CChat.merge_impl _ chat = chat
    rw [CChat.merge_impl]
    split
    · next hempty => exact congrArg CChat.mk hempty.symm
    · rfl
  foldlM_fields := fun _ hutf8 message => CChat.foldlM_fields hutf8 message
  absorb := by
    intro chat read record absorb hknown habsorb hbounded _ _
    change CChat.known address record.tag = some absorb at hknown
    rw [CChat.known, Option.ite_none_right_eq_some, Option.some.injEq] at hknown
    obtain ⟨htag, rfl⟩ := hknown
    cases record with
    | length_delimited number text =>
      obtain rfl : number = 1 := by
        rw [Record.tag] at htag
        omega
      rw [absorb_string, Option.ite_none_right_eq_some, Option.some.injEq] at habsorb
      obtain ⟨hverify, rfl⟩ := habsorb
      exact ⟨hbounded.2, verify_utf8_iff.mp hverify,
        Nat.le_add_left_of_le (length_encode_text_field text)⟩
    | _ => cases habsorb
  not_group := by
    intro number fields
    change CChat.known address (number * 8 + 3) = none
    rw [CChat.known, if_neg (by omega)]

theorem SChat.lawful (address : List UInt8 → Nat) :
    (SChat.generated address).Lawful (SChat.format address) where
  implements := SChat.implements address
  writes := by
    rintro chat ⟨hlength, hsender⟩
    have hsize := length_lt_of_le_maxSize hlength
    have hwrites := SChat.layout_writes hsize hsender
    rwa [SChat.serialize_eq hsize hsender] at hwrites
  wellFormed := fun hsized =>
    (text_field_wellFormed hsized.1 _).append (sender_id_field_wellFormed hsized.2 _)
  sized_clear := ⟨Nat.zero_le _, Nat.two_pow_pos 32⟩
  checked_clear := .nil
  fields_clear := rfl
  merge_clear := by
    intro chat
    change SChat.merge_impl _ chat = chat
    rw [SChat.merge_impl]
    congr 1
    · split
      · next hempty => exact hempty.symm
      · rfl
    · split
      · next hzero => exact hzero.symm
      · rfl
  foldlM_fields := fun hsized hutf8 message => SChat.foldlM_fields hutf8 hsized.2 message
  absorb := by
    intro chat read record absorb hknown habsorb hbounded hsized hutf8
    change SChat.known address record.tag = some absorb at hknown
    rw [SChat.known] at hknown
    by_cases hmessage : record.tag = 10
    · rw [if_pos hmessage, Option.some.injEq] at hknown
      subst hknown
      cases record with
      | length_delimited number text =>
        obtain rfl : number = 1 := by
          rw [Record.tag] at hmessage
          omega
        rw [absorb_string, Option.ite_none_right_eq_some, Option.some.injEq] at habsorb
        obtain ⟨hverify, rfl⟩ := habsorb
        refine ⟨⟨hbounded.2, hsized.2⟩, verify_utf8_iff.mp hverify, ?_⟩
        have htext := length_encode_text_field text
        change (encode (text_field text ++ sender_id_field chat.sender_id)).length ≤
          (encode (text_field chat.message ++ sender_id_field chat.sender_id)).length + _
        rw [encode_append, encode_append, List.length_append, List.length_append]
        omega
      | _ => cases habsorb
    · rw [if_neg hmessage, Option.ite_none_right_eq_some, Option.some.injEq] at hknown
      obtain ⟨hsender, rfl⟩ := hknown
      cases record with
      | varint number value =>
        obtain rfl : number = 2 := by
          rw [Record.tag] at hsender
          omega
        rw [absorb_uint32, Option.some.injEq] at habsorb
        subst habsorb
        refine ⟨⟨hsized.1, Nat.mod_lt _ (by omega)⟩, hutf8, ?_⟩
        have hvalue := length_encode_sender_id_field value
        change (encode (text_field chat.message ++ sender_id_field (value % 2 ^ 32))).length ≤
          (encode (text_field chat.message ++ sender_id_field chat.sender_id)).length + _
        rw [encode_append, encode_append, List.length_append, List.length_append]
        omega
      | _ => cases habsorb
  not_group := by
    intro number fields
    change SChat.known address (number * 8 + 3) = none
    rw [SChat.known, if_neg (by omega), if_neg (by omega)]

/-- A message with a text that is not UTF-8 is refused. -/
theorem SChat.parse_from_array_eq_nullptr {address : List UInt8 → Nat} {message : Message SChat}
    (hsized : message.Sized (SChat.format address)) (hutf8 : ¬ IsUtf8 message.impl.message) :
    SChat.parse_from_array address (encode (message.records (SChat.format address))) =
      .error .nullptr := by
  cases hparse : SChat.parse_from_array address (encode (message.records (SChat.format address))) with
  | error failure => rw [(SChat.implements address).eq_nullptr_of_error failure hparse]
  | ok read =>
    obtain ⟨records, hfields, htexts, _⟩ := SChat.parse_from_array_eq_ok_iff_fields.mp hparse
    rw [← fields_unique ((SChat.lawful address).fields_records hsized) hfields] at htexts
    have hne : message.impl.message ≠ [] := by
      intro hempty
      rw [hempty] at hutf8
      exact hutf8 .nil
    have htext : message.impl.message ∈ delimited 1 (message.records (SChat.format address)) := by
      change _ ∈ delimited 1 (SChat.fields message.impl ++ _)
      rw [SChat.fields, text_field, if_neg hne]
      simp [delimited]
    exact absurd (htexts _ htext) hutf8

/-- An `S_Chat` is written into exactly as many bytes as `ByteSizeLong` counts,
    and nothing is written outside of them. The bytes are read back to the same
    message, with its unknown fields, when its text is a sequence of characters,
    and are refused when it is not. -/
theorem SChat.serialize_to_array_parses (address : List UInt8 → Nat) (message : Message SChat)
    (hsized : message.Sized (SChat.format address))
    (hfits : protobuf.byte_size_long SChat.layout message < 2 ^ 31) :
    ∃ bytes, protobuf.serialize_to_array SChat.layout message
        (protobuf.byte_size_long SChat.layout message) = .ok (some bytes) ∧
      bytes.length = protobuf.byte_size_long SChat.layout message ∧
      ((∃ chars : List Char, message.impl.message = chars.flatMap String.utf8EncodeChar) →
        SChat.parse_from_array address bytes = .ok message) ∧
      ((¬ ∃ chars : List Char, message.impl.message = chars.flatMap String.utf8EncodeChar) →
        SChat.parse_from_array address bytes = .error .nullptr) := by
  have hlawful := SChat.lawful address
  rw [← isUtf8_iff]
  exact ⟨encode (message.records (SChat.format address)),
    hlawful.serialize_to_array_eq hsized hfits (Nat.le_refl _), (hlawful.byte_size_long_eq hsized).symm,
    fun hutf8 => hlawful.parse_from_array_eq ⟨hsized, hutf8⟩, SChat.parse_from_array_eq_nullptr hsized⟩

/-- A message that another version of the protocol may have sent, with a number
    and a group that this version has no names for. -/
def foreignChat : Message SChat where
  impl := { message := [237, 149, 156], sender_id := 7 }
  unknown_fields := [.varint 3 300, .group 4 [.fixed32 1 9]]

theorem foreignChat_sized (address : List UInt8 → Nat) : foreignChat.Sized (SChat.format address) where
  sized := by
    change 3 ≤ maxSize ∧ 7 < 2 ^ 32
    unfold maxSize kSlopBytes
    omega
  unknown := by
    have hfixed : Record.Bounded maxSize (.fixed32 1 9) := ⟨⟨by omega, by omega⟩, by omega⟩
    have hvarint : Record.Bounded maxSize (.varint 3 300) := ⟨⟨by omega, by omega⟩, by omega⟩
    exact .plain hvarint (.group ⟨by omega, by omega⟩ (.plain hfixed .nil) .nil)
  unnamed := by
    intro record hmem
    change SChat.known address record.tag = none
    obtain rfl | rfl : record = .varint 3 300 ∨ record = .group 4 [.fixed32 1 9] := by
      simpa [foreignChat] using hmem
    · rfl
    · rfl

theorem SChat.serialize_to_array_parses_foreign :
    ∃ bytes, protobuf.serialize_to_array SChat.layout foreignChat 17 = .ok (some bytes) ∧
      bytes.length = 17 ∧ SChat.parse_from_array (fun _ => 0) bytes = .ok foreignChat := by
  have hsize : protobuf.byte_size_long SChat.layout foreignChat = 17 := by decide +kernel
  obtain ⟨bytes, hbytes, hlength, hparse, _⟩ := SChat.serialize_to_array_parses (fun _ => 0) foreignChat
    (foreignChat_sized _) (by omega)
  rw [hsize] at hbytes hlength
  exact ⟨bytes, hbytes, hlength, hparse ⟨[Char.ofNat 0xD55C], by decide⟩⟩

/-- What is read from bytes can be written again, without loss, and in no more
    bytes. -/
theorem CChat.parse_from_array_canonical (address : List UInt8 → Nat) (data : List UInt8)
    (message : Message CChat) (hparse : CChat.parse_from_array address data = .ok message)
    (hdata : data.length < 2 ^ 31) :
    ∃ bytes, protobuf.serialize_to_array CChat.layout message
        (protobuf.byte_size_long CChat.layout message) = .ok (some bytes) ∧
      bytes.length ≤ data.length ∧ CChat.parse_from_array address bytes = .ok message := by
  have hlawful := CChat.lawful address
  obtain ⟨hvalid, hlength⟩ := hlawful.parse_from_array_valid hparse
  have hsize := hlawful.byte_size_long_eq hvalid.toSized
  have hfits : protobuf.byte_size_long CChat.layout message < 2 ^ 31 :=
    lt_of_le_of_lt (hsize.trans_le hlength) hdata
  exact ⟨_, hlawful.serialize_to_array_eq hvalid.toSized hfits (Nat.le_refl _), hlength,
    hlawful.parse_from_array_eq hvalid⟩

/-- A length and a number are written in more bytes than they need. -/
theorem CChat.parse_from_array_canonical_padded :
    ∃ bytes, protobuf.serialize_to_array CChat.layout ⟨⟨[65, 66]⟩, [.varint 5 1]⟩ 6 = .ok (some bytes) ∧
      bytes.length ≤ [10, 130, 0, 65, 66, 40, 129, 0].length ∧
      CChat.parse_from_array (fun _ => 0) bytes = .ok ⟨⟨[65, 66]⟩, [.varint 5 1]⟩ := by
  have hparse : CChat.parse_from_array (fun _ => 0) [10, 130, 0, 65, 66, 40, 129, 0] =
      .ok ⟨⟨[65, 66]⟩, [.varint 5 1]⟩ := rfl
  exact CChat.parse_from_array_canonical (fun _ => 0) _ _ hparse (by decide)

/-- Bytes with another message written behind them are read as the merge of the
    two messages. -/
theorem SChat.parse_from_array_append (address : List UInt8 → Nat) (data : List UInt8)
    (message other : Message SChat) (hparse : SChat.parse_from_array address data = .ok message)
    (hother : other.Valid (SChat.format address))
    (hfits : protobuf.byte_size_long SChat.layout other < 2 ^ 31) :
    ∃ bytes, protobuf.serialize_to_array SChat.layout other
        (protobuf.byte_size_long SChat.layout other) = .ok (some bytes) ∧
      SChat.parse_from_array address (data ++ bytes) =
        .ok ((SChat.generated address).merge_from message other) := by
  have hlawful := SChat.lawful address
  exact ⟨_, hlawful.serialize_to_array_eq hother.toSized hfits (Nat.le_refl _),
    hlawful.merge_from_array_append hparse (hlawful.merge_from_array_eq hother message)⟩

theorem SChat.parse_from_array_append_foreign :
    ∃ bytes, protobuf.serialize_to_array SChat.layout foreignChat 17 = .ok (some bytes) ∧
      SChat.parse_from_array (fun _ => 0) ([10, 1, 65, 16, 5] ++ bytes) = .ok foreignChat := by
  have hparse : SChat.parse_from_array (fun _ => 0) [10, 1, 65, 16, 5] = .ok ⟨⟨[65], 5⟩, []⟩ := rfl
  have hsize : protobuf.byte_size_long SChat.layout foreignChat = 17 := by decide +kernel
  have hutf8 : IsUtf8 foreignChat.impl.message := isUtf8_iff.mpr ⟨[Char.ofNat 0xD55C], by decide⟩
  obtain ⟨bytes, hbytes, hmerged⟩ := SChat.parse_from_array_append (fun _ => 0) _ _ foreignChat hparse
    ⟨foreignChat_sized _, hutf8⟩ (by omega)
  rw [hsize] at hbytes
  exact ⟨bytes, hbytes, hmerged⟩

end topview.protocol
