import TopView.Packet
import TopView.Protocol.Chat
import TopView.RecvBuffer

open topview.recv_buffer topview.packet topview.framing topview.protocol

namespace topview.dummy_client

/-- `enum MsgId`. The members are numbered from zero in this order. -/
inductive MsgId where
  | SConnected | CClassChoice | SEnterGame | SPlayerSpawn | SMonsterSpawn | CPlayerMove
  | SPlayerMove | SMonsterMove | CPlayerDie | SLeaveGame | SPlayerDespawn | SMonsterDespawn
  | SItemSpawn | CPlayerSkill | SPlayerSkill | SMonsterSkill | CHitMonster | SHitMonster
  | CPlayerDamaged | SPlayerDamaged | CChangeMap | CBossRegister | SBossRegisterDeny
  | SBossWaiting | CBossCancle | SGameClear | SGetExp | CLootItem | SLootItem | SItemDespawn
  | CLogin | SLogin | CPlayerinfo | CIteminfo
  deriving DecidableEq, Repr

def MsgId.value (msg_id : MsgId) : Nat := msg_id.ctorIdx

/-- The members under their names. -/
def MsgId.names : List (String × MsgId) :=
  [("SConnected", .SConnected), ("CClassChoice", .CClassChoice), ("SEnterGame", .SEnterGame),
    ("SPlayerSpawn", .SPlayerSpawn), ("SMonsterSpawn", .SMonsterSpawn),
    ("CPlayerMove", .CPlayerMove), ("SPlayerMove", .SPlayerMove), ("SMonsterMove", .SMonsterMove),
    ("CPlayerDie", .CPlayerDie), ("SLeaveGame", .SLeaveGame), ("SPlayerDespawn", .SPlayerDespawn),
    ("SMonsterDespawn", .SMonsterDespawn), ("SItemSpawn", .SItemSpawn),
    ("CPlayerSkill", .CPlayerSkill), ("SPlayerSkill", .SPlayerSkill),
    ("SMonsterSkill", .SMonsterSkill), ("CHitMonster", .CHitMonster),
    ("SHitMonster", .SHitMonster), ("CPlayerDamaged", .CPlayerDamaged),
    ("SPlayerDamaged", .SPlayerDamaged), ("CChangeMap", .CChangeMap),
    ("CBossRegister", .CBossRegister), ("SBossRegisterDeny", .SBossRegisterDeny),
    ("SBossWaiting", .SBossWaiting), ("CBossCancle", .CBossCancle), ("SGameClear", .SGameClear),
    ("SGetExp", .SGetExp), ("CLootItem", .CLootItem), ("SLootItem", .SLootItem),
    ("SItemDespawn", .SItemDespawn), ("CLogin", .CLogin), ("SLogin", .SLogin),
    ("CPlayerinfo", .CPlayerinfo), ("CIteminfo", .CIteminfo)]

/-- `Enum.Parse` on the name of a member. `none` is its exception. -/
def MsgId.parse (name : String) : Option MsgId :=
  (MsgId.names.find? fun member => member.1 = name).map Prod.snd

/-- `IMessage`, by the name in its descriptor and by what it serializes to. -/
structure IMessage where
  descriptor_name : String
  to_byte_array : List UInt8

/-- `CalculateSize`. -/
def IMessage.calculate_size (packet : IMessage) : Nat := packet.to_byte_array.length

/-- The descriptor's name without its underscores. -/
def IMessage.msg_name (packet : IMessage) : String :=
  String.ofList (packet.descriptor_name.toList.filter (· ≠ '_'))

/-- `Array.Copy` from the start of the source. `none` is its exception. -/
def array_copy (source destination : List UInt8) (index length : Nat) : Option (List UInt8) :=
  if length ≤ source.length ∧ index + length ≤ destination.length then
    some (memcpy destination index (source.take length))
  else none

/-- `ServerSession.Send`. The result is the array that is handed over to be
    transmitted, `none` an exception before that. -/
def send (packet : IMessage) : Option (List UInt8) := do
  let msg_id ← MsgId.parse packet.msg_name
  let size := toUInt16 packet.calculate_size
  let send_buffer := List.replicate (size + 4) 0
  let send_buffer ← array_copy (uint16Bytes (toUInt16 (size + 4))) send_buffer 0 2
  let send_buffer ← array_copy (uint16Bytes (toUInt16 msg_id.value)) send_buffer 2 2
  array_copy packet.to_byte_array send_buffer 4 size

/-- What is handed over is one complete frame with the id and the whole
    serialization of the message. -/
def SendsFrame (packet : IMessage) (msg_id : MsgId) : Prop :=
  ∀ send_buffer, send packet = some send_buffer →
    referenceParse send_buffer =
      ([⟨⟨packet.to_byte_array.length + 4, msg_id.value⟩, packet.to_byte_array⟩], [])

theorem MsgId.value_lt (msg_id : MsgId) : msg_id.value < 2 ^ 16 := by
  cases msg_id <;> decide

theorem array_copy_spec {source front old back : List UInt8} (hsource : old.length ≤ source.length) :
    array_copy source (front ++ (old ++ back)) front.length old.length =
      some (front ++ (source.take old.length ++ back)) := by
  have htake : (source.take old.length).length = old.length := by
    rw [List.length_take]
    omega
  rw [array_copy, if_pos ⟨hsource, by simp⟩, memcpy, htake, List.take_left, ← List.drop_drop,
    List.drop_left, List.drop_left, List.append_assoc]

/-- The copies stay inside of the array. It holds the header and the front of
    the serialization, as much as its truncated size says. -/
theorem send_eq_some {packet : IMessage} {msg_id : MsgId}
    (hname : MsgId.parse packet.msg_name = some msg_id) :
    send packet = some (uint16Bytes (toUInt16 (toUInt16 packet.calculate_size + 4)) ++
      (uint16Bytes msg_id.value ++
        packet.to_byte_array.take (toUInt16 packet.calculate_size))) := by
  obtain ⟨size, hsize⟩ : ∃ size, toUInt16 packet.calculate_size = size := ⟨_, rfl⟩
  have hle : size ≤ packet.to_byte_array.length := by
    rw [← hsize]
    exact Nat.mod_le _ _
  have hzeros : List.replicate (size + 4) (0 : UInt8) =
      [0, 0] ++ ([0, 0] ++ List.replicate size 0) := by
    rw [Nat.add_comm, List.replicate_add]
    rfl
  have hheader : array_copy (uint16Bytes (toUInt16 (size + 4))) (List.replicate (size + 4) 0) 0 2 =
      some (uint16Bytes (toUInt16 (size + 4)) ++ ([0, 0] ++ List.replicate size 0)) := by
    rw [hzeros]
    exact @array_copy_spec _ [] [0, 0] _ (Nat.le_refl 2)
  have hid : array_copy (uint16Bytes msg_id.value)
      (uint16Bytes (toUInt16 (size + 4)) ++ ([0, 0] ++ List.replicate size 0)) 2 2 =
      some (uint16Bytes (toUInt16 (size + 4)) ++
        (uint16Bytes msg_id.value ++ List.replicate size 0)) :=
    @array_copy_spec _ (uint16Bytes (toUInt16 (size + 4))) [0, 0] _ (Nat.le_refl 2)
  have hbody := @array_copy_spec packet.to_byte_array
    (uint16Bytes (toUInt16 (size + 4)) ++ uint16Bytes msg_id.value) (List.replicate size 0) []
    (by rw [List.length_replicate]; exact hle)
  simp only [List.length_append, length_uint16Bytes, List.length_replicate, List.append_nil,
    List.append_assoc] at hbody
  simp only [send, hname, hsize, toUInt16_of_lt msg_id.value_lt, Option.bind_eq_bind,
    Option.bind_some, hheader, hid, hbody]

/-- The header of the first packet is the one at the front of the stream. -/
theorem header_of_referenceParse {stream rest : List UInt8} {packet : Packet}
    {packets : List Packet} (hsplit : referenceParse stream = (packet :: packets, rest)) :
    packet.header = PacketHeader.read stream := by
  have hreach := (packetSplitter 65535).split_reaches stream
  rw [referenceParse] at hsplit
  rw [hsplit] at hreach
  cases hreach with
  | head hnext _ => rw [(nextPacket_eq_some_iff.mp hnext).2.1]

/-- The size of a frame that is sent is one that a header holds. -/
theorem SendsFrame.length_le {packet : IMessage} {msg_id : MsgId}
    (hframe : SendsFrame packet msg_id) (hname : MsgId.parse packet.msg_name = some msg_id) :
    packet.to_byte_array.length ≤ 65531 := by
  have hheader := header_of_referenceParse (hframe _ (send_eq_some hname))
  have hsize := congrArg PacketHeader.size hheader
  have hlt := PacketHeader.size_read_lt
    (uint16Bytes (toUInt16 (toUInt16 packet.calculate_size + 4)) ++
      (uint16Bytes msg_id.value ++ packet.to_byte_array.take (toUInt16 packet.calculate_size)))
  simp only at hsize
  omega

/-- A message is sent as a frame exactly when its serialization fits into one. -/
theorem sendsFrame_iff (packet : IMessage) (msg_id : MsgId)
    (hname : MsgId.parse packet.msg_name = some msg_id) :
    SendsFrame packet msg_id ↔ packet.to_byte_array.length ≤ 65531 := by
  constructor
  · intro hframe
    exact hframe.length_le hname
  · intro hfits send_buffer hsend
    rw [send_eq_some hname, Option.some.injEq] at hsend
    subst hsend
    have hsize : toUInt16 packet.calculate_size = packet.to_byte_array.length :=
      toUInt16_of_lt (show packet.to_byte_array.length < 2 ^ 16 by omega)
    rw [hsize, List.take_length, toUInt16_of_lt (by omega)]
    let frame : Frame 65535 :=
      ⟨msg_id.value, packet.to_byte_array, msg_id.value_lt, by omega⟩
    have hnext := frame.nextPacket_encode uint16_max_lt frame.size_le []
    rw [List.append_nil] at hnext
    have hreach : (packetSplitter 65535).Reaches frame.encode [frame.toPacket] [] :=
      .head hnext (.refl [])
    have hend : nextPacket 65535 [] = none := nextPacket_eq_none_of_length_lt (by decide)
    exact hreach.split_eq_of_next hend

/-- The choice of a class, as `OnConnected` sends it. -/
def classChoice : IMessage := { descriptor_name := "C_ClassChoice", to_byte_array := [8, 1] }

theorem sendsFrame_iff_classChoice :
    SendsFrame classChoice .CClassChoice ↔ classChoice.to_byte_array.length ≤ 65531 :=
  sendsFrame_iff classChoice .CClassChoice (by decide)

example : send classChoice = some [6, 0, 1, 0, 8, 1] := by decide

/-- A login whose `DBId` has this many bytes. -/
def login (length : Nat) : IMessage :=
  { descriptor_name := "C_Login"
    to_byte_array := 10 :: (varint32 length ++ List.replicate length 97) }

/-- The serialization of this login has 65532 bytes and the size in its header
    wraps to zero. -/
theorem not_sendsFrame_login :
    MsgId.parse (login 65528).msg_name = some .CLogin ∧
      (login 65528).to_byte_array.length = 65532 ∧ ¬ SendsFrame (login 65528) .CLogin := by
  have hname : MsgId.parse (login 65528).msg_name = some .CLogin := by decide
  have hlength : (login 65528).to_byte_array.length = 65532 := by
    rw [login, List.length_cons, List.length_append, List.length_replicate]
    decide
  refine ⟨hname, hlength, ?_⟩
  intro hframe
  have hfits := hframe.length_le hname
  omega

end topview.dummy_client
