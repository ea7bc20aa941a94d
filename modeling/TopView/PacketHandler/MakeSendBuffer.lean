import TopView.Protocol.Chat
import TopView.Session.Send

open topview.packet topview.protocol topview.session

namespace topview.packet_handler

/-- A message of the library, by what it serializes to. -/
class Message (T : Type) where
  serialize : T → List UInt8

instance : Message SChat := ⟨SChat.serialize⟩

/-- `ByteSizeLong`. -/
def byte_size_long {T : Type} [Message T] (pkt : T) : Nat := (Message.serialize pkt).length

/-- `SerializeToArray` into `size` bytes. `none` is its `false`, which writes nothing. -/
def serialize_to_array {T : Type} [Message T] (pkt : T) (size : Nat) : Option (List UInt8) :=
  if byte_size_long pkt ≤ size then some (Message.serialize pkt) else none

/-- `new BYTE[size]`, whose bytes are indeterminate. -/
def allocate (garbage : Nat → UInt8) (size : Nat) : SendCursor :=
  { send_buffer := (List.range size).map garbage, write_pos := 0 }

/-- The template `MakeSendBuffer`. The cursor passes the two fields of the
    header and then the serialization. `none` is a write outside of the
    allocated bytes. -/
def make_send_buffer {T : Type} [Message T] (garbage : Nat → UInt8) (pkt : T) (pkt_id : Nat) :
    Option SendCursor := do
  let data_size := toUInt16 (byte_size_long pkt)
  let packet_size := toUInt16 (data_size + sizeof_packet_header)
  let buffer ← (allocate garbage packet_size).write (uint16Bytes packet_size)
  let buffer ← buffer.write (uint16Bytes pkt_id)
  -- the result of `SerializeToArray` is ignored
  match serialize_to_array pkt data_size with
  | none => some buffer
  | some bytes => buffer.write bytes

/-- `MakeSendBuffer(Protocol::S_Chat&)`. -/
def make_chat_buffer (garbage : Nat → UInt8) (pkt : SChat) : Option SendCursor :=
  make_send_buffer garbage pkt S_CHAT

/-- `MakeSendBuffer` stays inside of its allocation, writes the whole size into
    the header, and returns what `Send` emits for the serialization. -/
def EncodersAgree (garbage : Nat → UInt8) (pkt : SChat) : Prop :=
  ∃ buffer, make_chat_buffer garbage pkt = some buffer ∧
    (PacketHeader.read buffer.send_buffer).size = 4 + byte_size_long pkt ∧
    buffer.send_buffer = encode [pkt.serialize]

theorem length_allocate (garbage : Nat → UInt8) (size : Nat) :
    (allocate garbage size).send_buffer.length = size := by
  simp [allocate]

/-- The header is written when the allocated size has not wrapped. -/
theorem write_header_spec (garbage : Nat → UInt8) (size pkt_id : Nat) (hroom : 4 ≤ size) :
    ∃ first buffer, (allocate garbage size).write (uint16Bytes size) = some first ∧
      first.write (uint16Bytes pkt_id) = some buffer ∧
      buffer.written = uint16Bytes size ++ uint16Bytes pkt_id ∧ buffer.write_pos = 4 ∧
      buffer.send_buffer.length = size := by
  have hlength := length_allocate garbage size
  obtain ⟨first, hfirst, hsize, hfirstPos, hfirstLength⟩ := SendCursor.write_spec
    (allocate garbage size) (uint16Bytes size) (by simp [allocate]; omega)
  have hstart : (allocate garbage size).write_pos = 0 := rfl
  rw [length_uint16Bytes, hstart] at hfirstPos
  obtain ⟨buffer, hbuffer, hid, hpos, hsame⟩ := SendCursor.write_spec first
    (uint16Bytes pkt_id) (by rw [length_uint16Bytes]; omega)
  rw [length_uint16Bytes] at hpos
  refine ⟨first, buffer, hfirst, hbuffer, ?_, by omega, by omega⟩
  rw [hid, hsize, SendCursor.written, hstart, List.take_zero, List.nil_append]

theorem toUInt16_packet_size {data_size : Nat} (hsize : data_size ≤ 65531) :
    toUInt16 (data_size + sizeof_packet_header) = data_size + 4 :=
  toUInt16_of_lt (by simp only [sizeof_packet_header]; omega)

/-- The header holds the truncated size of the serialization. What follows it is
    the serialization when that is no longer than its truncated size. -/
theorem make_send_buffer_spec {T : Type} [Message T] (garbage : Nat → UInt8) (pkt : T)
    (pkt_id : Nat) (hroom : toUInt16 (byte_size_long pkt) ≤ 65531) :
    ∃ buffer, make_send_buffer garbage pkt pkt_id = some buffer ∧
      (PacketHeader.read buffer.send_buffer).size = toUInt16 (byte_size_long pkt) + 4 ∧
      (byte_size_long pkt < 2 ^ 16 → buffer.send_buffer =
        uint16Bytes (byte_size_long pkt + 4) ++ (uint16Bytes pkt_id ++ Message.serialize pkt)) := by
  have hpacket := toUInt16_packet_size hroom
  obtain ⟨first, header, hfirst, hheader, hwritten, hpos, hlength⟩ := write_header_spec garbage
    (toUInt16 (byte_size_long pkt) + 4) pkt_id (by omega)
  by_cases hserialize : byte_size_long pkt ≤ toUInt16 (byte_size_long pkt)
  · have hexact : toUInt16 (byte_size_long pkt) = byte_size_long pkt :=
      Nat.le_antisymm (Nat.mod_le _ _) hserialize
    have hbody : (Message.serialize pkt).length = byte_size_long pkt := rfl
    obtain ⟨buffer, hbuffer, hall, hend, hsame⟩ := SendCursor.write_spec header
      (Message.serialize pkt) (by omega)
    have hwhole : buffer.send_buffer =
        uint16Bytes (byte_size_long pkt + 4) ++ (uint16Bytes pkt_id ++ Message.serialize pkt) := by
      rw [← List.append_assoc, ← hexact, ← hwritten, ← hall, SendCursor.written,
        List.take_of_length_le (by omega)]
    refine ⟨buffer, ?_, ?_, fun _ => hwhole⟩
    · simp only [make_send_buffer, hpacket, hfirst, hheader, serialize_to_array, if_pos hserialize,
        Option.bind_eq_bind, Option.bind_some, hbuffer]
    · rw [hwhole, hexact, PacketHeader.size_read_uint16Bytes (by omega)]
  · refine ⟨header, ?_, ?_, ?_⟩
    · simp only [make_send_buffer, hpacket, hfirst, hheader, serialize_to_array, if_neg hserialize,
        Option.bind_eq_bind, Option.bind_some]
    · -- the bytes behind the header stay as they were allocated
      rw [← List.take_append_drop header.write_pos header.send_buffer,
        show header.send_buffer.take header.write_pos = _ from hwritten, List.append_assoc,
        PacketHeader.size_read_uint16Bytes (by omega)]
    · intro hlt
      rw [toUInt16_of_lt hlt] at hserialize
      exact absurd (Nat.le_refl _) hserialize

/-- A serialization of 65532 to 65535 bytes, and of as many more than a multiple
    of 65536, makes the size wrap. The header then leaves the allocated bytes. -/
theorem make_send_buffer_eq_none_iff {T : Type} [Message T] (garbage : Nat → UInt8) (pkt : T)
    (pkt_id : Nat) :
    make_send_buffer garbage pkt pkt_id = none ↔ 65532 ≤ toUInt16 (byte_size_long pkt) := by
  constructor
  · intro hnone
    by_contra hroom
    obtain ⟨buffer, hsome, _⟩ := make_send_buffer_spec garbage pkt pkt_id (by omega)
    rw [hnone] at hsome
    cases hsome
  · intro hwrap
    have hlt : toUInt16 (byte_size_long pkt) < 2 ^ 16 := Nat.mod_lt _ (by decide)
    obtain ⟨size, hsize⟩ : ∃ size,
        toUInt16 (toUInt16 (byte_size_long pkt) + sizeof_packet_header) = size := ⟨_, rfl⟩
    have hsmall : size < 4 := by
      rw [← hsize, toUInt16, sizeof_packet_header]
      omega
    simp only [make_send_buffer, hsize]
    by_cases hfield : 2 ≤ size
    · obtain ⟨first, hfirst, _, hpos, hlength⟩ := SendCursor.write_spec (allocate garbage size)
        (uint16Bytes size) (by simp [allocate, hfield])
      have hstart : (allocate garbage size).write_pos = 0 := rfl
      rw [length_allocate] at hlength
      rw [length_uint16Bytes, hstart] at hpos
      have hleaves : first.write (uint16Bytes pkt_id) = none := by
        rw [SendCursor.write_eq_none_iff, length_uint16Bytes]
        omega
      rw [hfirst, Option.bind_eq_bind, Option.bind_some, hleaves, Option.bind_none]
    · have hleaves : (allocate garbage size).write (uint16Bytes size) = none := by
        rw [SendCursor.write_eq_none_iff, length_allocate, length_uint16Bytes]
        omega
      rw [hleaves, Option.bind_eq_bind, Option.bind_none]

/-- A text of this length serializes to 65532 bytes. -/
theorem byte_size_long_of_length {text : List UInt8} (hlength : text.length = 65528) :
    byte_size_long (SChat.set_message text) = 65532 := by
  have hne : text ≠ [] := by
    rintro rfl
    cases hlength
  have hbody : byte_size_long (SChat.set_message text) =
      (10 :: (varint32 text.length ++ text)).length :=
    congrArg List.length (SChat.serialize_set_message hne)
  rw [hbody, List.length_cons, List.length_append, hlength]
  decide

/-- A chat message for whose header no byte is allocated. -/
def wrappingChat : SChat := SChat.set_message (List.replicate 65528 97)

end topview.packet_handler
