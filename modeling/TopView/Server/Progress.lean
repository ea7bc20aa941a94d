import TopView.Room.Drain
import TopView.Server.Conversation

open topview.packet topview.packet_handler topview.protocol topview.room topview.session
open topview.transition

namespace topview.server

/-- The steps of the consumer of the room and the notifications. -/
def ServerEvent.Serves : ServerEvent → Prop
  | .notify_one _ => True
  | .flush event => isFlush event = true
  | _ => False

/-- What a spurious wake-up costs. -/
def ServerEvent.gain : ServerEvent → Nat
  | .flush event => event.gain
  | _ => 0

theorem serves_of_isFlush {event : RoomEvent Payload} (hflush : isFlush event = true) :
    event.Serves := by
  cases event with
  | wait | wake | execute | swap | send | end_round => trivial
  | _ => cases hflush

/-- A step that serves the room is a step of the room. -/
theorem Server.room_of_serves {parse : List UInt8 → Option (List UInt8)} {server next : Server}
    {event : ServerEvent} {emitted : List ServerObservation} (hserves : event.Serves)
    (hstep : server.step parse event = some (next, emitted)) :
    ∃ other room seen, RoomEvent.Serves other ∧ other.gain = event.gain ∧
      server.room.step other = some (room, seen) ∧ next = { server with room := room } ∧
      emitted = seen.map .room := by
  cases Server.step_cases hstep with
  | @notify_one index _ _ hroom => exact ⟨.notify_one index, _, _, trivial, rfl, hroom, rfl, rfl⟩
  | flush hflush hroom => exact ⟨_, _, _, serves_of_isFlush hflush, rfl, hroom, rfl, rfl⟩
  | _ => exact hserves.elim

/-- The work of the server is that of its room. -/
def serverRanking (parse : List UInt8 → Option (List UInt8)) : (serverMachine parse).Ranking where
  Allowed := ServerEvent.Serves
  gain := ServerEvent.gain
  rank := fun server => server.room.rank
  step_lt := by
    intro server next event emitted hserves hstep
    obtain ⟨other, room, seen, hother, hgain, hroom, rfl, _⟩ := Server.room_of_serves hserves hstep
    rw [← hgain]
    exact System.rank_lt_of_step hother hroom

/-- Serving the room changes nothing but the room, and calls no handler. -/
theorem Server.of_serves {parse : List UInt8 → Option (List UInt8)} {events : List ServerEvent}
    {server final : Server} {emitted : List ServerObservation}
    (hserves : ∀ event ∈ events, event.Serves)
    (hexec : (serverMachine parse).exec server events = some (final, emitted)) :
    (∃ room, final = { server with room := room }) ∧
      ∃ seen : List (Observation Payload), emitted = seen.map .room := by
  induction events generalizing server emitted with
  | nil =>
    simp only [Machine.exec_nil, Option.some.injEq, Prod.mk.injEq] at hexec
    obtain ⟨rfl, rfl⟩ := hexec
    exact ⟨⟨server.room, rfl⟩, [], rfl⟩
  | cons event events ih =>
    obtain ⟨next, first, rest, hstep, hrest, rfl⟩ :=
      (serverMachine parse).exec_cons_eq_some_iff.mp hexec
    obtain ⟨hevent, hevents⟩ := List.forall_mem_cons.mp hserves
    obtain ⟨_, room, seen, _, _, _, rfl, rfl⟩ := Server.room_of_serves hevent hstep
    obtain ⟨⟨last, hlast⟩, more, rfl⟩ := ih hevents hrest
    exact ⟨⟨last, hlast⟩, seen ++ more, List.map_append.symm⟩

/-- While the workers run, the consumer can always go on, unless it sleeps. -/
theorem Server.quiet_room {parse : List UInt8 → Option (List UInt8)} {server : Server}
    (hmain : server.main = .running) (hquiet : (serverRanking parse).Quiet server) :
    (roomRanking Payload).Quiet server.room := by
  intro event hworks
  have hstep (other : ServerEvent) (hother : (serverRanking parse).Works other) :
      server.step parse other = none := hquiet other hother
  obtain ⟨hserves, hgain⟩ := hworks
  have hflush (hisFlush : isFlush event = true) : server.room.step event = none := by
    have hnone := hstep (.flush event) ⟨hisFlush, hgain⟩
    simpa [Server.step, hmain, hisFlush, Server.step_room] using hnone
  cases event with
  | notify_one thread =>
    have hnone := hstep (.notify_one thread) ⟨trivial, rfl⟩
    have hnotify : server.room.step (.notify_one thread) = none := by
      simpa [Server.step, Server.step_room] using hnone
    exact hnotify
  | wait | wake | execute | swap | send | end_round => exact hflush rfl
  | _ => exact hserves.elim

/-- What becomes of the chat packets that handlers have been called for. -/
structure Server.Delivers (parse : List UInt8 → Option (List UInt8)) (server : Server)
    (log : List ServerObservation) : Prop where
  /-- The consumer takes a bounded number of steps. -/
  bounded : ∀ events final emitted, (∀ event ∈ events, event.Serves) →
    (serverMachine parse).exec server events = some (final, emitted) →
    events.length ≤ server.room.rank + (events.map ServerEvent.gain).sum
  ends : ∃ events final emitted, (∀ event ∈ events, event.Serves) ∧
    (serverMachine parse).exec server events = some (final, emitted) ∧
      (serverRanking parse).Quiet final
  /-- When it can take none, every receiver has been sent what the packets of
      every sender contribute, from some packet on up to the last one. The first
      one is no later than the first packet behind the receiver's entry. -/
  delivered : ∀ events final emitted, (∀ event ∈ events, event.Serves) →
    (serverMachine parse).exec server events = some (final, emitted) →
    (serverRanking parse).Quiet final → ∀ sender receiver, ∃ skipped,
      relayed parse sender log = skipped ++ comingFrom sender (sentTo receiver (log ++ emitted)) ∧
      ∀ before player after, log = before ++ .entered player :: after →
        player.session = receiver → skipped.length ≤ (relayed parse sender before).length

/-- Two sessions chat at the same time, and both jobs are queued. -/
def bothQueued : List ServerEvent :=
  [.main, .main, .main, .main, .accept, .emplace, .start_session, .enter_object, .register_recv,
    .accept, .emplace, .start_session, .enter_object, .register_recv,
    .read 0 0 (.read [7, 0, 1, 0, 10, 1, 65]), .read 1 0 (.read [7, 0, 1, 0, 10, 1, 66]),
    .read 1 0 .present, .read 0 0 .present]

end topview.server
