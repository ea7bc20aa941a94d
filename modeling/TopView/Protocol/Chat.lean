import Mathlib.Tactic.Common

namespace topview.protocol

/-- A varint of at most `more + 1` bytes, seven bits each, low bits first. -/
def varintWithin : Nat → Nat → List UInt8
  | 0, value => [UInt8.ofNat value]
  | more + 1, value =>
    if value < 128 then [UInt8.ofNat value]
    else UInt8.ofNat (value % 128 + 128) :: varintWithin more (value / 128)

/-- The varint of a `uint32_t`. -/
def varint32 (value : Nat) : List UInt8 := varintWithin 4 value

/-- `Protocol::S_Chat`, with the text as its bytes. -/
structure SChat where
  message : List UInt8
  sender_id : Nat
  deriving DecidableEq, Repr

/-- A default-constructed message after `set_message`. -/
def SChat.set_message (text : List UInt8) : SChat := { message := text, sender_id := 0 }

/-- `SerializeToArray`. A field that has its default value is left out. -/
def SChat.serialize (chat : SChat) : List UInt8 :=
  (if chat.message = [] then [] else 10 :: (varint32 chat.message.length ++ chat.message)) ++
    if chat.sender_id = 0 then [] else 16 :: varint32 chat.sender_id

/-- What the library guarantees of `C_Chat::ParseFromArray`. A text that is not
    empty stands in the parsed bytes behind a tag and its length, which may be
    encoded in more bytes than necessary. -/
def TextOccurs (parse : List UInt8 → Option (List UInt8)) : Prop :=
  ∀ body text, parse body = some text → text ≠ [] → ∃ before tag length after,
    body = before ++ (tag ++ (length ++ (text ++ after))) ∧ tag ≠ [] ∧
      (varint32 text.length).length ≤ length.length

theorem SChat.serialize_set_message {text : List UInt8} (hne : text ≠ []) :
    (SChat.set_message text).serialize = 10 :: (varint32 text.length ++ text) := by
  simp [SChat.set_message, SChat.serialize, hne]

@[simp] theorem SChat.serialize_set_message_nil : (SChat.set_message []).serialize = [] := rfl

/-- A parsed text is never longer when it is serialized again. -/
theorem length_serialize_le_of_parse {parse : List UInt8 → Option (List UInt8)}
    (hoccurs : TextOccurs parse) {body text : List UInt8} (hparse : parse body = some text) :
    (SChat.set_message text).serialize.length ≤ body.length := by
  by_cases hempty : text = []
  · rw [hempty, SChat.serialize_set_message_nil]
    exact Nat.zero_le _
  · obtain ⟨before, tag, length, after, hbody, htag, hlength⟩ := hoccurs body text hparse hempty
    have hpositive := List.length_pos_iff.mpr htag
    rw [SChat.serialize_set_message hempty, hbody]
    simp only [List.length_cons, List.length_append]
    omega

/-- Reads a short text in the field of a message that holds nothing else. -/
def parse_short : List UInt8 → Option (List UInt8)
  | [] => some []
  | [_] => none
  | tag :: length :: text =>
    if tag = 10 ∧ length.toNat = text.length ∧ text.length < 128 then some text else none

theorem textOccurs_parse_short : TextOccurs parse_short := by
  intro body text hparse hne
  unfold parse_short at hparse
  split at hparse
  · cases hparse
    exact absurd rfl hne
  · cases hparse
  · next tag length rest =>
    rw [Option.ite_none_right_eq_some, Option.some.injEq] at hparse
    obtain ⟨⟨rfl, _, hshort⟩, rfl⟩ := hparse
    exact ⟨[], [10], [length], [], by simp, by simp, by simp [varint32, varintWithin, hshort]⟩

end topview.protocol
