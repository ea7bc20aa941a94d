import TopView.Protobuf.Cases
import TopView.Protocol.Chat

open topview.protobuf topview.wire

namespace topview.protocol

/-- `Protocol::C_Chat`, with the text as its bytes. -/
structure CChat where
  message : List UInt8
  deriving DecidableEq, Repr

/-- The text that the parser reads into. -/
def CChat.mutable_message (_ : CChat) (text : List UInt8) : CChat := { message := text }

def SChat.mutable_message (chat : SChat) (text : List UInt8) : SChat := { chat with message := text }

def SChat.set_sender_id (chat : SChat) (sender_id : Nat) : SChat := { chat with sender_id := sender_id }

/-- The `switch` of `C_Chat::_InternalParse`. -/
def c_chat_switch (address : List UInt8 → Nat) (tag : Nat) : Option (Handler CChat) :=
  match tag / 8 with
  | 1 => if tag % 256 = 10 then some (string_case address CChat.mutable_message) else none
  | _ => none

/-- The `switch` of `S_Chat::_InternalParse`. -/
def s_chat_switch (address : List UInt8 → Nat) (tag : Nat) : Option (Handler SChat) :=
  match tag / 8 with
  | 1 => if tag % 256 = 10 then some (string_case address SChat.mutable_message) else none
  | 2 => if tag % 256 = 16 then some (uint32_case SChat.set_sender_id) else none
  | _ => none

/-- `C_Chat::Clear`. -/
def CChat.clear : Message CChat := { impl := { message := [] }, unknown_fields := [] }

/-- `S_Chat::Clear`. -/
def SChat.clear : Message SChat := { impl := { message := [], sender_id := 0 }, unknown_fields := [] }

/-- `ParseFromArray` of a `C_Chat`. -/
def CChat.parse_from_array (address : List UInt8 → Nat) (data : List UInt8) :
    Except Failure (Message CChat) :=
  merge_from_array (c_chat_switch address) CChat.clear data

/-- `ParseFromArray` of an `S_Chat`. -/
def SChat.parse_from_array (address : List UInt8 → Nat) (data : List UInt8) :
    Except Failure (Message SChat) :=
  merge_from_array (s_chat_switch address) SChat.clear data

/-- The fields of a `C_Chat`, by their tags. -/
def CChat.known (address : List UInt8 → Nat) (tag : Nat) : Option (CChat → Record → Option CChat) :=
  if tag = 10 then some (absorb_string address CChat.mutable_message) else none

/-- The fields of an `S_Chat`, by their tags. -/
def SChat.known (address : List UInt8 → Nat) (tag : Nat) : Option (SChat → Record → Option SChat) :=
  if tag = 10 then some (absorb_string address SChat.mutable_message)
  else if tag = 16 then some (absorb_uint32 SChat.set_sender_id)
  else none

theorem c_chat_switch_eq (address : List UInt8 → Nat) (tag : Nat) :
    c_chat_switch address tag =
      if tag = 10 then some (string_case address CChat.mutable_message) else none := by
  unfold c_chat_switch
  split
  · next hnumber =>
    have hsame : tag % 256 = 10 ↔ tag = 10 := by omega
    rw [if_congr hsame rfl rfl]
  · next hnumber =>
    rw [if_neg]
    rintro rfl
    exact hnumber rfl

theorem s_chat_switch_eq (address : List UInt8 → Nat) (tag : Nat) :
    s_chat_switch address tag =
      if tag = 10 then some (string_case address SChat.mutable_message)
      else if tag = 16 then some (uint32_case SChat.set_sender_id)
      else none := by
  unfold s_chat_switch
  split
  · next hnumber =>
    have hsame : tag % 256 = 10 ↔ tag = 10 := by omega
    have hother : tag ≠ 16 := by omega
    rw [if_congr hsame rfl rfl, if_neg hother]
  · next hnumber =>
    have hsame : tag % 256 = 16 ↔ tag = 16 := by omega
    have hother : tag ≠ 10 := by omega
    rw [if_congr hsame rfl rfl, if_neg hother]
  · next hone htwo =>
    rw [if_neg, if_neg]
    · rintro rfl
      exact htwo rfl
    · rintro rfl
      exact hone rfl

theorem CChat.implements (address : List UInt8 → Nat) :
    Implements (c_chat_switch address) (CChat.known address) := by
  constructor
  · intro tag
    rw [c_chat_switch_eq, CChat.known]
    split <;> simp
  · intro tag handler absorb hswitch hknown rounds
    rw [c_chat_switch_eq, Option.ite_none_right_eq_some, Option.some.injEq] at hswitch
    obtain ⟨rfl, rfl⟩ := hswitch
    rw [CChat.known, if_pos rfl, Option.some.injEq] at hknown
    subst hknown
    exact string_case_handles address CChat.mutable_message (by omega : 0 < 1) rounds
  · intro tag depth handler absorb payload record impl read hswitch hknown hpayload habsorb rounds
    rw [c_chat_switch_eq, Option.ite_none_right_eq_some, Option.some.injEq] at hswitch
    obtain ⟨rfl, rfl⟩ := hswitch
    rw [CChat.known, if_pos rfl, Option.some.injEq] at hknown
    subst hknown
    exact string_case_accepts hpayload habsorb rounds

theorem SChat.implements (address : List UInt8 → Nat) :
    Implements (s_chat_switch address) (SChat.known address) := by
  constructor
  · intro tag
    rw [s_chat_switch_eq, SChat.known]
    split
    · simp
    · split <;> simp
  · intro tag handler absorb hswitch hknown rounds
    rw [s_chat_switch_eq] at hswitch
    rw [SChat.known] at hknown
    by_cases hmessage : tag = 10
    · rw [if_pos hmessage, Option.some.injEq] at hswitch hknown
      subst hmessage hswitch hknown
      exact string_case_handles address SChat.mutable_message (by omega : 0 < 1) rounds
    · rw [if_neg hmessage] at hswitch hknown
      rw [Option.ite_none_right_eq_some, Option.some.injEq] at hswitch hknown
      obtain ⟨rfl, rfl⟩ := hswitch
      obtain ⟨_, rfl⟩ := hknown
      exact uint32_case_handles SChat.set_sender_id (by omega : 0 < 2) rounds
  · intro tag depth handler absorb payload record impl read hswitch hknown hpayload habsorb rounds
    rw [s_chat_switch_eq] at hswitch
    rw [SChat.known] at hknown
    by_cases hmessage : tag = 10
    · rw [if_pos hmessage, Option.some.injEq] at hswitch hknown
      subst hswitch hknown
      exact string_case_accepts hpayload habsorb rounds
    · rw [if_neg hmessage] at hswitch hknown
      rw [Option.ite_none_right_eq_some, Option.some.injEq] at hswitch hknown
      obtain ⟨_, rfl⟩ := hswitch
      obtain ⟨_, rfl⟩ := hknown
      exact uint32_case_accepts hpayload habsorb rounds

/-- What a `C_Chat` holds after some records. The last text is its message,
    and what is not a text is kept. -/
def CChat.merged (message : Message CChat) (records : List Record) : Message CChat where
  impl := { message := (delimited 1 records).getLastD message.impl.message }
  unknown_fields := message.unknown_fields ++ records.filter fun record => record.tag ≠ 10

/-- What an `S_Chat` holds after some records. -/
def SChat.merged (message : Message SChat) (records : List Record) : Message SChat where
  impl := {
    message := (delimited 1 records).getLastD message.impl.message
    sender_id := ((varints 2 records).map (· % 2 ^ 32)).getLastD message.impl.sender_id }
  unknown_fields := message.unknown_fields ++ records.filter fun record => record.tag ≠ 10 ∧ record.tag ≠ 16

theorem getLastD_append {Item : Type} (first second : List Item) (default : Item) :
    (first ++ second).getLastD default = second.getLastD (first.getLastD default) := by
  induction first generalizing default with
  | nil => rfl
  | cons item first ih => rw [List.cons_append, List.getLastD_cons, List.getLastD_cons, ih]

theorem CChat.merged_append (message : Message CChat) (first second : List Record) :
    CChat.merged (CChat.merged message first) second = CChat.merged message (first ++ second) := by
  simp only [CChat.merged, delimited_append, getLastD_append, List.filter_append, List.append_assoc]

theorem SChat.merged_append (message : Message SChat) (first second : List Record) :
    SChat.merged (SChat.merged message first) second = SChat.merged message (first ++ second) := by
  simp only [SChat.merged, delimited_append, varints_append, List.map_append, getLastD_append,
    List.filter_append, List.append_assoc]

theorem CChat.foldl_merged (records : List Record) (message : Message CChat) :
    records.foldl (fun message record => CChat.merged message [record]) message =
      CChat.merged message records := by
  induction records generalizing message with
  | nil => simp [CChat.merged]
  | cons record records ih => rw [List.foldl_cons, ih, CChat.merged_append, List.singleton_append]

theorem SChat.foldl_merged (records : List Record) (message : Message SChat) :
    records.foldl (fun message record => SChat.merged message [record]) message =
      SChat.merged message records := by
  induction records generalizing message with
  | nil => simp [SChat.merged]
  | cons record records ih => rw [List.foldl_cons, ih, SChat.merged_append, List.singleton_append]

/-- Every record is taken up but a text that is not UTF-8. -/
theorem CChat.absorb_eq_some_iff {address : List UInt8 → Nat} (message : Message CChat)
    (record : Record) (next : Message CChat) :
    message.absorb (CChat.known address) record = some next ↔
      (∀ text ∈ delimited 1 [record], IsUtf8 text) ∧ next = CChat.merged message [record] := by
  have hother (htag : record.tag ≠ 10) (hnone : delimited 1 [record] = []) :
      message.absorb (CChat.known address) record = some next ↔
        (∀ text ∈ delimited 1 [record], IsUtf8 text) ∧ next = CChat.merged message [record] := by
    have hmerged : CChat.merged message [record] =
        { message with unknown_fields := message.unknown_fields ++ [record] } := by
      simp [CChat.merged, htag, hnone]
    have habsorb : message.absorb (CChat.known address) record =
        some { message with unknown_fields := message.unknown_fields ++ [record] } := by
      simp [Message.absorb, CChat.known, htag]
    rw [habsorb, hmerged, hnone, Option.some.injEq, eq_comm]
    simp
  cases record with
  | length_delimited number bytes =>
    by_cases hnumber : number = 1
    · subst hnumber
      have hmerged : CChat.merged message [.length_delimited 1 bytes] =
          { message with impl := { message := bytes } } := by
        simp [CChat.merged, Record.tag, delimited]
      have habsorb : message.absorb (CChat.known address) (.length_delimited 1 bytes) =
          if verify_utf8 address bytes then some { message with impl := { message := bytes } }
          else none := by
        rw [Message.absorb_of_some _ rfl, absorb_string]
        split <;> rfl
      rw [habsorb, hmerged, Option.ite_none_right_eq_some, verify_utf8_iff, Option.some.injEq,
        @eq_comm _ _ next]
      simp [delimited]
    · exact hother (by simp only [Record.tag]; omega) (by simp [delimited, hnumber])
  | _ => exact hother (by simp only [Record.tag]; omega) rfl

theorem SChat.absorb_eq_some_iff {address : List UInt8 → Nat} (message : Message SChat)
    (record : Record) (next : Message SChat) :
    message.absorb (SChat.known address) record = some next ↔
      (∀ text ∈ delimited 1 [record], IsUtf8 text) ∧ next = SChat.merged message [record] := by
  have hother (hmessage : record.tag ≠ 10) (hsender : record.tag ≠ 16)
      (hnone : delimited 1 [record] = []) (hnumber : varints 2 [record] = []) :
      message.absorb (SChat.known address) record = some next ↔
        (∀ text ∈ delimited 1 [record], IsUtf8 text) ∧ next = SChat.merged message [record] := by
    have hmerged : SChat.merged message [record] =
        { message with unknown_fields := message.unknown_fields ++ [record] } := by
      simp [SChat.merged, hmessage, hsender, hnone, hnumber]
    have habsorb : message.absorb (SChat.known address) record =
        some { message with unknown_fields := message.unknown_fields ++ [record] } := by
      simp [Message.absorb, SChat.known, hmessage, hsender]
    rw [habsorb, hmerged, hnone, Option.some.injEq, eq_comm]
    simp
  cases record with
  | length_delimited number bytes =>
    by_cases hnumber : number = 1
    · subst hnumber
      have hmerged : SChat.merged message [.length_delimited 1 bytes] =
          { message with impl := { message.impl with message := bytes } } := by
        simp [SChat.merged, Record.tag, delimited, varints]
      have habsorb : message.absorb (SChat.known address) (.length_delimited 1 bytes) =
          if verify_utf8 address bytes then
            some { message with impl := { message.impl with message := bytes } }
          else none := by
        rw [Message.absorb_of_some _ rfl, absorb_string]
        split <;> rfl
      rw [habsorb, hmerged, Option.ite_none_right_eq_some, verify_utf8_iff, Option.some.injEq,
        @eq_comm _ _ next]
      simp [delimited]
    · exact hother (by simp only [Record.tag]; omega) (by simp only [Record.tag]; omega)
        (by simp [delimited, hnumber]) rfl
  | varint number value =>
    by_cases hnumber : number = 2
    · subst hnumber
      have hmerged : SChat.merged message [.varint 2 value] =
          { message with impl := { message.impl with sender_id := value % 2 ^ 32 } } := by
        simp [SChat.merged, Record.tag, delimited, varints]
      have habsorb : message.absorb (SChat.known address) (.varint 2 value) =
          some { message with impl := { message.impl with sender_id := value % 2 ^ 32 } } := rfl
      rw [habsorb, hmerged, Option.some.injEq, @eq_comm _ _ next]
      simp [delimited]
    · exact hother (by simp only [Record.tag]; omega) (by simp only [Record.tag]; omega) rfl
        (by simp [varints, hnumber])
  | _ => exact hother (by simp only [Record.tag]; omega) (by simp only [Record.tag]; omega) rfl rfl

/-- The texts of all records are those of each of them. -/
theorem forall_delimited_iff {number : Nat} {records : List Record} {valid : List UInt8 → Prop} :
    (∀ record ∈ records, ∀ text ∈ delimited number [record], valid text) ↔
      ∀ text ∈ delimited number records, valid text := by
  induction records with
  | nil => simp
  | cons record records ih =>
    rw [List.forall_mem_cons, ih, ← @List.singleton_append _ record records, delimited_append,
      List.forall_mem_append]

theorem CChat.parse_from_array_eq_ok_iff_fields {address : List UInt8 → Nat} {data : List UInt8}
    {read : Message CChat} :
    CChat.parse_from_array address data = .ok read ↔
      ∃ records, Fields maxSize default_recursion_limit data records ∧
        (∀ text ∈ delimited 1 records, IsUtf8 text) ∧ read = CChat.merged CChat.clear records := by
  rw [CChat.parse_from_array, (CChat.implements address).merge_from_array_eq_ok_iff]
  simp only [foldlM_eq_some_iff CChat.absorb_eq_some_iff, forall_delimited_iff, CChat.foldl_merged]

theorem SChat.parse_from_array_eq_ok_iff_fields {address : List UInt8 → Nat} {data : List UInt8}
    {read : Message SChat} :
    SChat.parse_from_array address data = .ok read ↔
      ∃ records, Fields maxSize default_recursion_limit data records ∧
        (∀ text ∈ delimited 1 records, IsUtf8 text) ∧ read = SChat.merged SChat.clear records := by
  rw [SChat.parse_from_array, (SChat.implements address).merge_from_array_eq_ok_iff]
  simp only [foldlM_eq_some_iff SChat.absorb_eq_some_iff, forall_delimited_iff, SChat.foldl_merged]

/-- A `C_Chat` is read from exactly those bytes that are a sequence of fields,
    with groups up to the recursion limit, and in which every text is a sequence
    of characters. The last text counts, and every field that is not a text is
    kept. From other bytes the parser returns null. It never reads outside of
    the bytes and of its own buffer, and it ends. -/
theorem CChat.parse_from_array_accepts (address : List UInt8 → Nat) (data : List UInt8) :
    (∀ failure, CChat.parse_from_array address data = .error failure → failure = .nullptr) ∧
      ∀ read, CChat.parse_from_array address data = .ok read ↔
        ∃ records, Fields maxSize default_recursion_limit data records ∧
          (∀ text ∈ delimited 1 records,
            ∃ chars : List Char, text = chars.flatMap String.utf8EncodeChar) ∧
          read.impl.message = (delimited 1 records).getLastD [] ∧
          read.unknown_fields = records.filter fun record => record.tag ≠ 10 := by
  refine ⟨(CChat.implements address).eq_nullptr_of_error, ?_⟩
  intro read
  simp only [CChat.parse_from_array_eq_ok_iff_fields, ← isUtf8_iff]
  apply exists_congr
  intro records
  have hmerged : read = CChat.merged CChat.clear records ↔
      read.impl.message = (delimited 1 records).getLastD [] ∧
        read.unknown_fields = records.filter fun record => record.tag ≠ 10 := by
    rw [CChat.merged, CChat.clear, List.nil_append]
    constructor
    · rintro rfl
      exact ⟨rfl, rfl⟩
    · obtain ⟨⟨message⟩, unknown⟩ := read
      rintro ⟨rfl, rfl⟩
      rfl
  rw [hmerged]

/-- An `S_Chat` is read likewise. Its sender is the last number in the field,
    reduced to 32 bits, also where that is written in more than five bytes. -/
theorem SChat.parse_from_array_accepts_sender_id (address : List UInt8 → Nat) (data : List UInt8) :
    (∀ failure, SChat.parse_from_array address data = .error failure → failure = .nullptr) ∧
      ∀ read, SChat.parse_from_array address data = .ok read ↔
        ∃ records, Fields maxSize default_recursion_limit data records ∧
          (∀ text ∈ delimited 1 records,
            ∃ chars : List Char, text = chars.flatMap String.utf8EncodeChar) ∧
          read.impl.message = (delimited 1 records).getLastD [] ∧
          read.impl.sender_id = ((varints 2 records).map (· % 2 ^ 32)).getLastD 0 ∧
          read.unknown_fields = records.filter fun record => record.tag ≠ 10 ∧ record.tag ≠ 16 := by
  refine ⟨(SChat.implements address).eq_nullptr_of_error, ?_⟩
  intro read
  simp only [SChat.parse_from_array_eq_ok_iff_fields, ← isUtf8_iff]
  apply exists_congr
  intro records
  have hmerged : read = SChat.merged SChat.clear records ↔
      read.impl.message = (delimited 1 records).getLastD [] ∧
        read.impl.sender_id = ((varints 2 records).map (· % 2 ^ 32)).getLastD 0 ∧
        read.unknown_fields = records.filter fun record => record.tag ≠ 10 ∧ record.tag ≠ 16 := by
    rw [SChat.merged, SChat.clear, List.nil_append]
    constructor
    · rintro rfl
      exact ⟨rfl, rfl, rfl⟩
    · obtain ⟨⟨message, sender_id⟩, unknown⟩ := read
      rintro ⟨rfl, rfl, rfl⟩
      rfl
  rw [hmerged]

end topview.protocol
