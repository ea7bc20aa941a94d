import Mathlib.Logic.Function.Basic

namespace topview.packet_handler

def C_CHAT : Nat := 1

def S_CHAT : Nat := 2

/-- The number of entries of `GPacketHandler`, `UINT16_MAX`. -/
def handlerCount : Nat := 65535

/-- The handlers that the server registers. -/
inductive Handler where
  | handle_c_chat
  deriving DecidableEq, Repr

/-- `GPacketHandler`, an array of possibly empty functions. -/
abbrev HandlerTable := Nat → Option Handler

/-- `PacketHandler::Init` on the table of empty functions. -/
def init : HandlerTable := Function.update (fun _ => none) C_CHAT (some .handle_c_chat)

/-- `GPacketHandler[pktId]`. The outer `none` is an access outside of the array. -/
def lookup (table : HandlerTable) (pkt_id : Nat) : Option (Option Handler) :=
  if pkt_id < handlerCount then some (table pkt_id) else none

/-- After `Init` a handler is registered for chat packets only. -/
theorem lookup_init_eq_some_iff {pkt_id : Nat} {handler : Handler} :
    lookup init pkt_id = some (some handler) ↔ pkt_id = C_CHAT := by
  unfold lookup init
  by_cases hchat : pkt_id = C_CHAT
  · subst hchat
    cases handler
    simp [C_CHAT, handlerCount]
  · simp [hchat]

end topview.packet_handler
