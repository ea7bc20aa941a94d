import TopView.PacketHandler
import TopView.Protocol.Chat
import TopView.Room.Flush

open topview.protocol topview.room

namespace topview.packet_handler

/-- A serialized message, with the session whose packet it comes from. -/
structure Payload where
  origin : Nat
  bytes : List UInt8
  deriving DecidableEq, Repr

/-- `Handle_C_CHAT` up to the push of its job, on the player of the session that
    the packet comes from. The outer `none` is the use of a null player, the
    inner one a player whose room is gone. -/
def handle_c_chat (origin : Nat) (player : Option Player) (text : List UInt8) :
    Option (Option (Job Payload)) :=
  player.map fun player =>
    if player.in_room then
      some { callback := some ⟨origin, (SChat.set_message text).serialize⟩ }
    else none

/-- `HandlePacket` on the bytes that the handler is given. The outer `none` is a
    negative length handed to the parser. -/
def handle_packet {A : Type} (parse : List UInt8 → Option (List UInt8))
    (func : List UInt8 → Option (Option A)) (buffer : List UInt8) (len : Int) :
    Option (Option A) :=
  if len < 0 then none else (parse buffer).elim (some none) func

/-- What the handler that is looked up for a packet pushes to the room. The
    outer `none` is undefined behaviour. -/
def call_handler (parse : List UInt8 → Option (List UInt8)) (table : HandlerTable)
    (origin : Nat) (player : Option Player) (pkt_id : Nat) (pkt_data : List UInt8) (len : Int) :
    Option (Option (Job Payload)) :=
  match lookup table pkt_id with
  | none => none
  | some none => some none
  | some (some .handle_c_chat) => handle_packet parse (handle_c_chat origin player) pkt_data len

/-- The payload that a chat packet contributes, when its body parses. -/
def relay (parse : List UInt8 → Option (List UInt8)) (pkt_id : Nat) (body : List UInt8) :
    Option (List UInt8) :=
  if pkt_id = C_CHAT then (parse body).map fun text => (SChat.set_message text).serialize else none

/-- With a player in the room, a packet within the table and a length that is
    not negative, the handler pushes what the packet contributes. -/
theorem call_handler_eq_some {parse : List UInt8 → Option (List UInt8)} {origin : Nat}
    {player : Player} (hroom : player.in_room = true) {pkt_id : Nat} (hid : pkt_id < 65535)
    {pkt_data : List UInt8} {len : Int} (hlen : 0 ≤ len) :
    call_handler parse init origin (some player) pkt_id pkt_data len =
      some ((relay parse pkt_id pkt_data).map fun bytes => ⟨some ⟨origin, bytes⟩⟩) := by
  have hbound : pkt_id < handlerCount := hid
  unfold call_handler
  cases hlookup : lookup init pkt_id with
  | none => simp [lookup, hbound] at hlookup
  | some entry =>
    cases entry with
    | none =>
      have hother : pkt_id ≠ C_CHAT := by
        intro hchat
        rw [lookup_init_eq_some_iff.mpr hchat] at hlookup
        · cases hlookup
        · exact .handle_c_chat
      simp [relay, hother]
    | some handler =>
      have hchat := lookup_init_eq_some_iff.mp hlookup
      cases handler
      simp only [handle_packet, relay, if_neg (Int.not_lt.mpr hlen), if_pos hchat]
      cases parse pkt_data <;> simp [handle_c_chat, hroom]

/-- Whatever a handler pushes is what the packet contributes. -/
theorem relay_of_call_handler {parse : List UInt8 → Option (List UInt8)} {origin : Nat}
    {player : Option Player} {pkt_id : Nat} {pkt_data : List UInt8} {len : Int}
    {job : Job Payload}
    (hcall : call_handler parse init origin player pkt_id pkt_data len = some (some job)) :
    ∃ bytes, relay parse pkt_id pkt_data = some bytes ∧ job = ⟨some ⟨origin, bytes⟩⟩ := by
  unfold call_handler at hcall
  split at hcall
  · cases hcall
  · cases hcall
  · next hlookup =>
    have hchat := lookup_init_eq_some_iff.mp hlookup
    unfold handle_packet at hcall
    rw [Option.ite_none_left_eq_some] at hcall
    obtain ⟨_, hcall⟩ := hcall
    cases hparse : parse pkt_data with
    | none =>
      rw [hparse] at hcall
      cases hcall
    | some text =>
      rw [hparse, Option.elim_some, handle_c_chat, Option.map_eq_some_iff] at hcall
      obtain ⟨player, _, hjob⟩ := hcall
      rw [Option.ite_none_right_eq_some, Option.some.injEq] at hjob
      refine ⟨(SChat.set_message text).serialize, ?_, hjob.2.symm⟩
      rw [relay, if_pos hchat, hparse, Option.map_some]

/-- A player in the room only stays silent on a packet that contributes nothing. -/
theorem relay_eq_none_of_call_handler {parse : List UInt8 → Option (List UInt8)} {origin : Nat}
    {player : Player} (hroom : player.in_room = true) {pkt_id : Nat} {pkt_data : List UInt8}
    {len : Int} (hcall : call_handler parse init origin (some player) pkt_id pkt_data len = some none) :
    relay parse pkt_id pkt_data = none := by
  by_cases hchat : pkt_id = C_CHAT
  · subst hchat
    have hlookup : lookup init C_CHAT = some (some .handle_c_chat) :=
      lookup_init_eq_some_iff.mpr rfl
    cases hparse : parse pkt_data with
    | none => simp [relay, hparse]
    | some text =>
      simp [call_handler, hlookup, handle_packet, hparse, handle_c_chat, hroom] at hcall
  · rw [relay, if_neg hchat]

end topview.packet_handler
