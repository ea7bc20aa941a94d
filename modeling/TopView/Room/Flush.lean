import TopView.Room.Players
import TopView.Transition.Machine

open topview.transition

namespace topview.room

/-- A `Job`. Its callback, when there is one, calls `BroadcastSerialized` with
    the payload it has captured. -/
structure Job (M : Type) where
  callback : Option M
  deriving DecidableEq, Repr

/-- What `_lock` protects. -/
structure Room (M : Type) where
  players : Players
  etc_queue : List (Job M)
  pending_msg : List M

/-- The room after `InitObjectTable`. -/
def Room.new (M : Type) : Room M := { players := .empty, etc_queue := [], pending_msg := [] }

/-- `EnterObject` on a player. -/
def Room.enter_object {M : Type} (self : Room M) (player : Player) : Room M :=
  { self with players := self.players.insert player }

/-- `ExitObject` on a player. -/
def Room.exit_object {M : Type} (self : Room M) (player : Player) : Room M :=
  { self with players := self.players.erase player }

def Room.broadcast_serialized {M : Type} (self : Room M) (buffer : M) : Room M :=
  { self with pending_msg := self.pending_msg ++ [buffer] }

/-- The critical section of `PushETCJob`. -/
def Room.push_etc_job {M : Type} (self : Room M) (job : Job M) : Room M :=
  { self with etc_queue := self.etc_queue ++ [job] }

/-- `Job::Execute`. -/
def Job.execute {M : Type} (self : Job M) (room : Room M) : Room M :=
  self.callback.elim room room.broadcast_serialized

/-- Where the thread that runs `Flush` is. -/
inductive FlushPc (M : Type) where
  /-- Before the test of the wake-up condition, at the call of `cv.wait` or
      after a wake-up. -/
  | waiting
  /-- Inside of `cv.wait`, without the lock. -/
  | asleep
  | executing (local_queue : List (Job M))
  /-- `Send` is called for one player of the snapshot after the other. -/
  | sending (batch : List M) (players_snapshot : List Entry)

/-- A thread that sleeps is woken, any other one is not affected. -/
def FlushPc.notified {M : Type} : FlushPc M → FlushPc M
  | .asleep => .waiting
  | pc => pc

/-- The room together with the threads that work on it. -/
structure System (M : Type) extends Room M where
  flush : FlushPc M
  /-- The threads in `PushETCJob` that have released the lock and have not yet
      called `notify_one`. -/
  notifying : List Nat
  /-- The sessions that no longer exist. -/
  expired : List Nat

/-- `Room::Init` has started the consumer. -/
def System.start (M : Type) : System M :=
  { Room.new M with flush := .waiting, notifying := [], expired := [] }

inductive RoomEvent (M : Type) where
  | enter_object (player : Player)
  | exit_object (player : Player)
  /-- A call from outside of the consumer. -/
  | broadcast_serialized (buffer : M)
  | push_etc_job (thread : Nat) (job : Job M)
  | notify_one (thread : Nat)
  /-- The last owner of a session lets go of it. -/
  | expire (session : Nat)
  /-- The consumer takes the lock and tests the wake-up condition. -/
  | wait
  /-- A spurious wake-up. -/
  | wake
  | execute
  /-- The consumer swaps `_pendingMSG` and copies `_players`, in some order. -/
  | swap (players_snapshot : List Entry)
  /-- The consumer handles the next player of its snapshot. -/
  | send
  | end_round

/-- What can be seen of a run. -/
inductive Observation (M : Type) where
  | pushed (job : Job M)
  | executed (job : Job M)
  | appended (buffer : M)
  | swapped (batch : List M) (players_snapshot : List Entry)
  /-- `Send` is called on the session of a player. -/
  | sent (player : Player) (batch : List M)
  /-- The session of a player of the snapshot no longer exists. -/
  | skipped (player : Player)
  | ended

/-- One step of the threads that work on the room, at the granularity of
    `_lock`. The wake-up test and the first swap share a critical section. -/
def System.step {M : Type} (system : System M) (event : RoomEvent M) :
    Option (System M × List (Observation M)) :=
  match event, system.flush with
  | .enter_object player, _ =>
    some ({ system with toRoom := system.enter_object player }, [])
  | .exit_object player, _ =>
    some ({ system with toRoom := system.exit_object player }, [])
  | .broadcast_serialized buffer, _ =>
    some ({ system with toRoom := system.toRoom.broadcast_serialized buffer }, [.appended buffer])
  | .push_etc_job thread job, _ =>
    if thread ∈ system.notifying then none
    else some ({ system with
      toRoom := system.toRoom.push_etc_job job
      notifying := thread :: system.notifying }, [.pushed job])
  | .notify_one thread, pc =>
    if thread ∈ system.notifying then
      some ({ system with notifying := system.notifying.erase thread, flush := pc.notified }, [])
    else none
  | .expire session, _ => some ({ system with expired := session :: system.expired }, [])
  | .wait, .waiting =>
    if system.etc_queue.isEmpty then some ({ system with flush := .asleep }, [])
    else some ({ system with etc_queue := [], flush := .executing system.etc_queue }, [])
  | .wake, .asleep => some ({ system with flush := .waiting }, [])
  | .execute, .executing (job :: local_queue) =>
    some ({ system with toRoom := job.execute system.toRoom, flush := .executing local_queue },
      .executed job :: job.callback.toList.map .appended)
  | .swap players_snapshot, .executing [] =>
    if players_snapshot.Perm system.players.entries then
      some ({ system with
        pending_msg := []
        flush := .sending system.pending_msg players_snapshot },
        [.swapped system.pending_msg players_snapshot])
    else none
  | .send, .sending batch (entry :: players_snapshot) =>
    some ({ system with flush := .sending batch players_snapshot },
      [if entry.2.session ∈ system.expired then .skipped entry.2 else .sent entry.2 batch])
  | .end_round, .sending _ [] => some ({ system with flush := .waiting }, [.ended])
  | _, _ => none

def roomMachine (M : Type) : Machine (System M) (RoomEvent M) (Observation M) := ⟨System.step⟩

/-- What a step on the room can do. -/
inductive System.Step {M : Type} (system : System M) :
    RoomEvent M → System M → List (Observation M) → Prop where
  | enter_object (player : Player) : Step system (.enter_object player)
      { system with toRoom := system.toRoom.enter_object player } []
  | exit_object (player : Player) : Step system (.exit_object player)
      { system with toRoom := system.toRoom.exit_object player } []
  | broadcast_serialized (buffer : M) : Step system (.broadcast_serialized buffer)
      { system with toRoom := system.toRoom.broadcast_serialized buffer } [.appended buffer]
  | push_etc_job (thread : Nat) (job : Job M) (hidle : thread ∉ system.notifying) :
      Step system (.push_etc_job thread job) { system with
        toRoom := system.toRoom.push_etc_job job
        notifying := thread :: system.notifying } [.pushed job]
  | notify_one (thread : Nat) (hthread : thread ∈ system.notifying) :
      Step system (.notify_one thread) { system with
        notifying := system.notifying.erase thread
        flush := system.flush.notified } []
  | expire (session : Nat) :
      Step system (.expire session) { system with expired := session :: system.expired } []
  | fall_asleep (hpc : system.flush = .waiting) (hempty : system.etc_queue = []) :
      Step system .wait { system with flush := .asleep } []
  | take (hpc : system.flush = .waiting) (hne : system.etc_queue ≠ []) :
      Step system .wait
        { system with etc_queue := [], flush := .executing system.etc_queue } []
  | wake (hpc : system.flush = .asleep) : Step system .wake { system with flush := .waiting } []
  | execute {job : Job M} {local_queue : List (Job M)}
      (hpc : system.flush = .executing (job :: local_queue)) :
      Step system .execute
        { system with toRoom := job.execute system.toRoom, flush := .executing local_queue }
        (.executed job :: job.callback.toList.map .appended)
  | swap {players_snapshot : List Entry} (hpc : system.flush = .executing [])
      (hperm : players_snapshot.Perm system.players.entries) :
      Step system (.swap players_snapshot) { system with
        pending_msg := []
        flush := .sending system.pending_msg players_snapshot }
        [.swapped system.pending_msg players_snapshot]
  | send {batch : List M} {entry : Entry} {players_snapshot : List Entry}
      (hpc : system.flush = .sending batch (entry :: players_snapshot)) :
      Step system .send { system with flush := .sending batch players_snapshot }
        [if entry.2.session ∈ system.expired then .skipped entry.2 else .sent entry.2 batch]
  | end_round {batch : List M} (hpc : system.flush = .sending batch []) :
      Step system .end_round { system with flush := .waiting } [.ended]

theorem System.step_cases {M : Type} {system next : System M} {event : RoomEvent M}
    {emitted : List (Observation M)} (hstep : system.step event = some (next, emitted)) :
    system.Step event next emitted := by
  unfold System.step at hstep
  split at hstep
  · cases hstep
    exact .enter_object _
  · cases hstep
    exact .exit_object _
  · cases hstep
    exact .broadcast_serialized _
  · rw [Option.ite_none_left_eq_some] at hstep
    obtain ⟨hidle, hstep⟩ := hstep
    cases hstep
    exact .push_etc_job _ _ hidle
  · rw [Option.ite_none_right_eq_some] at hstep
    obtain ⟨hthread, hstep⟩ := hstep
    cases hstep
    exact .notify_one _ hthread
  · cases hstep
    exact .expire _
  · next hpc =>
    split at hstep
    · next hempty =>
      cases hstep
      exact .fall_asleep hpc (List.isEmpty_iff.mp hempty)
    · next hempty =>
      cases hstep
      exact .take hpc (by simpa using hempty)
  · next hpc =>
    cases hstep
    exact .wake hpc
  · next hpc =>
    cases hstep
    exact .execute hpc
  · next hpc =>
    rw [Option.ite_none_right_eq_some] at hstep
    obtain ⟨hperm, hstep⟩ := hstep
    cases hstep
    exact .swap hpc hperm
  · next hpc =>
    cases hstep
    exact .send hpc
  · next hpc =>
    cases hstep
    exact .end_round hpc
  · cases hstep

/-- Only `EnterObject` and `ExitObject` change the players. -/
theorem System.players_of_step {M : Type} {system next : System M} {event : RoomEvent M}
    {emitted : List (Observation M)} (henter : ∀ player, event ≠ .enter_object player)
    (hexit : ∀ player, event ≠ .exit_object player)
    (hstep : system.step event = some (next, emitted)) : next.players = system.players := by
  cases System.step_cases hstep with
  | enter_object player => exact absurd rfl (henter player)
  | exit_object player => exact absurd rfl (hexit player)
  | @execute job local_queue hpc =>
    unfold Job.execute
    cases job.callback <;> rfl
  | broadcast_serialized buffer => rfl
  | push_etc_job thread job _ => rfl
  | notify_one thread _ => rfl
  | expire session => rfl
  | fall_asleep => rfl
  | take => rfl
  | wake => rfl
  | swap => rfl
  | send => rfl
  | end_round => rfl

end topview.room
