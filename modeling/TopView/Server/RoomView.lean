import TopView.Room.WakeUp
import TopView.Server.Step
import TopView.Transition.Refinement

open topview.packet_handler topview.room topview.session topview.transition

namespace topview.server

/-- What an observation shows of the room. -/
def ServerObservation.seen : ServerObservation → List (Observation Payload)
  | .room seen => [seen]
  | _ => []

/-- What a run of the server shows of the room. -/
def roomLog (log : List ServerObservation) : List (Observation Payload) :=
  log.flatMap ServerObservation.seen

@[simp] theorem roomLog_append (log emitted : List ServerObservation) :
    roomLog (log ++ emitted) = roomLog log ++ roomLog emitted := List.flatMap_append

@[simp] theorem roomLog_map_room (seen : List (Observation Payload)) :
    roomLog (seen.map .room) = seen := by
  simp [roomLog, List.flatMap_map, ServerObservation.seen]

@[simp] theorem roomLog_dispatched (index : Nat) (dispatch : Dispatch)
    (log : List ServerObservation) :
    roomLog (.dispatched index dispatch :: log) = roomLog log := rfl

theorem mem_roomLog_iff {log : List ServerObservation} {seen : Observation Payload} :
    seen ∈ roomLog log ↔ .room seen ∈ log := by
  rw [roomLog, List.mem_flatMap]
  constructor
  · rintro ⟨observation, hmem, hseen⟩
    cases observation with
    | room other =>
      rw [List.mem_singleton.mp hseen]
      exact hmem
    | _ => simp [ServerObservation.seen] at hseen
  · intro hmem
    exact ⟨_, hmem, List.mem_singleton.mpr rfl⟩

/-- The server never removes a player or a session, and broadcasts only inside
    of jobs. -/
def ByServer : RoomEvent Payload → Prop
  | .broadcast_serialized _ | .exit_object _ | .expire _ => False
  | _ => True

theorem byServer_of_isFlush {event : RoomEvent Payload} (hflush : isFlush event = true) :
    ByServer event := by
  cases event <;> trivial

/-- The server, as the room sees it. -/
def roomRefinement (parse : List UInt8 → Option (List UInt8)) :
    (serverMachine parse).Refinement (roomMachine Payload) where
  view := Server.room
  observe := ServerObservation.seen
  Allowed := ByServer
  matched := by
    intro server event next emitted hstep
    have hone : ∀ {event : RoomEvent Payload} {room seen}, ByServer event →
        server.room.step event = some (room, seen) →
        ∃ others, (∀ other ∈ others, ByServer other) ∧
          (roomMachine Payload).exec server.room others = some (room, seen) := by
      intro event room seen hallowed hroom
      refine ⟨[event], ?_, (roomMachine Payload).exec_singleton hroom⟩
      intro other hmem
      rw [List.mem_singleton.mp hmem]
      exact hallowed
    cases Server.step_cases hstep with
    | init_handlers => exact ⟨[], by simp, rfl⟩
    | start_listener => exact ⟨[], by simp, rfl⟩
    | init_room => exact ⟨[], by simp, rfl⟩
    | run_workers => exact ⟨[], by simp, rfl⟩
    | accept => exact ⟨[], by simp, rfl⟩
    | accept_error => exact ⟨[], by simp, rfl⟩
    | emplace_found => exact ⟨[], by simp, rfl⟩
    | emplace_new => exact ⟨[], by simp, rfl⟩
    | start_again => exact ⟨[], by simp, rfl⟩
    | start_new => exact ⟨[], by simp, rfl⟩
    | @enter_object index player =>
      exact @hone (.enter_object player) _ [] trivial rfl
    | register_recv => exact ⟨[], by simp, rfl⟩
    | read => exact ⟨[], by simp, rfl⟩
    | drop => exact ⟨[], by simp, rfl⟩
    | @push index _ _ _ _ _ _ job room seen _ _ _ _ _ _ hroom =>
      obtain ⟨others, hothers, hexec⟩ := @hone (.push_etc_job index job) room seen trivial hroom
      refine ⟨others, hothers, ?_⟩
      change _ = some (room, roomLog (seen.map .room))
      rw [roomLog_map_room]
      exact hexec
    | @notify_one index room seen hroom =>
      obtain ⟨others, hothers, hexec⟩ := @hone (.notify_one index) room seen trivial hroom
      refine ⟨others, hothers, ?_⟩
      change _ = some (room, roomLog (seen.map .room))
      rw [roomLog_map_room]
      exact hexec
    | @flush _ room seen hflush hroom =>
      obtain ⟨others, hothers, hexec⟩ := hone (byServer_of_isFlush hflush) hroom
      refine ⟨others, hothers, ?_⟩
      change _ = some (room, roomLog (seen.map .room))
      rw [roomLog_map_room]
      exact hexec

theorem room_run_of_exec {parse : List UInt8 → Option (List UInt8)} {events : List ServerEvent}
    {server : Server} {log : List ServerObservation}
    (hexec : (serverMachine parse).exec .start events = some (server, log)) :
    ∃ others, (∀ other ∈ others, ByServer other) ∧
      (roomMachine Payload).exec (.start Payload) others = some (server.room, roomLog log) :=
  (roomRefinement parse).exec hexec

theorem room_history_of_exec {parse : List UInt8 → Option (List UInt8)}
    {events : List ServerEvent} {server : Server} {log : List ServerObservation}
    (hexec : (serverMachine parse).exec .start events = some (server, log)) :
    server.room.History (roomLog log) := by
  obtain ⟨others, _, hroom⟩ := room_run_of_exec hexec
  exact System.history_of_exec hroom

theorem room_awake_of_exec {parse : List UInt8 → Option (List UInt8)}
    {events : List ServerEvent} {server : Server} {log : List ServerObservation}
    (hexec : (serverMachine parse).exec .start events = some (server, log)) :
    server.room.Awake (roomLog log) := by
  obtain ⟨others, hallowed, hroom⟩ := room_run_of_exec hexec
  exact System.awake_of_exec hroom fun buffer hmem => hallowed _ hmem

/-- The sessions of the server never expire. -/
theorem room_expired_of_exec {parse : List UInt8 → Option (List UInt8)}
    {events : List ServerEvent} {server : Server} {log : List ServerObservation}
    (hexec : (serverMachine parse).exec .start events = some (server, log)) :
    server.room.expired = [] := by
  obtain ⟨others, hallowed, hroom⟩ := room_run_of_exec hexec
  refine (roomMachine Payload).exec_induct (fun events system _ =>
    (∀ other ∈ events, ByServer other) → system.expired = []) (fun _ => rfl) ?_ others _ _
    hroom hallowed
  intro before system _ event next emitted _ ih hstep hall
  have hexpired := ih fun other hmem => hall other (List.mem_append_left _ hmem)
  cases System.step_cases hstep with
  | expire session =>
    have hnever : ByServer (.expire session) := hall _ (List.mem_append_right _ (List.mem_singleton.mpr rfl))
    exact absurd hnever id
  | enter_object player => exact hexpired
  | exit_object player => exact hexpired
  | broadcast_serialized buffer => exact hexpired
  | push_etc_job thread job _ => exact hexpired
  | notify_one thread _ => exact hexpired
  | fall_asleep => exact hexpired
  | take => exact hexpired
  | wake => exact hexpired
  | execute => exact hexpired
  | swap => exact hexpired
  | send => exact hexpired
  | end_round => exact hexpired

end topview.server
