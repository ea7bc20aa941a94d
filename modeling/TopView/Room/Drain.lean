import TopView.Room.Delivery
import TopView.Transition.Ranking

open topview.transition

namespace topview.room

/-- The steps of the consumer and of the threads that have pushed jobs. -/
def RoomEvent.Serves {M : Type} : RoomEvent M → Prop
  | .notify_one _ | .wait | .wake | .execute | .swap _ | .send | .end_round => True
  | _ => False

/-- The steps of the round that the queued jobs are taken in. -/
def round_rank (jobs players : Nat) : Nat := if jobs = 0 then 0 else jobs + players + 3

/-- The steps that are left of the round under way, and of the test of the
    wake-up condition behind it. -/
def FlushPc.rank {M : Type} (players : Nat) : FlushPc M → Nat
  | .asleep => 0
  | .waiting => 1
  | .executing local_queue => local_queue.length + players + 3
  | .sending _ players_snapshot => players_snapshot.length + 2

/-- The steps that are left until the consumer sleeps for good. A notification
    may cost it a test of the wake-up condition. -/
def System.rank {M : Type} (system : System M) : Nat :=
  2 * system.notifying.length + system.flush.rank system.players.entries.length +
    round_rank system.etc_queue.length system.players.entries.length

/-- What a spurious wake-up costs. -/
def RoomEvent.gain {M : Type} : RoomEvent M → Nat
  | .wake => 2
  | _ => 0

theorem FlushPc.rank_notified_le {M : Type} (pc : FlushPc M) (players : Nat) :
    pc.notified.rank players ≤ pc.rank players + 1 := by
  cases pc <;> simp [FlushPc.notified, FlushPc.rank]

/-- Every step of the consumer, and every notification, is one of those left. -/
theorem System.rank_lt_of_step {M : Type} {system next : System M} {event : RoomEvent M}
    {emitted : List (Observation M)} (hserves : event.Serves)
    (hstep : system.step event = some (next, emitted)) :
    next.rank < system.rank + event.gain := by
  cases System.step_cases hstep with
  | enter_object player => exact hserves.elim
  | exit_object player => exact hserves.elim
  | broadcast_serialized buffer => exact hserves.elim
  | push_etc_job thread job _ => exact hserves.elim
  | expire session => exact hserves.elim
  | notify_one thread hthread =>
    have hlength := List.length_erase_of_mem hthread
    have hpositive := List.length_pos_of_mem hthread
    have hnotified := system.flush.rank_notified_le system.players.entries.length
    simp only [System.rank, RoomEvent.gain]
    omega
  | fall_asleep hpc _ =>
    simp only [System.rank, hpc, FlushPc.rank, RoomEvent.gain]
    omega
  | take hpc hne =>
    have hpositive := List.length_pos_iff.mpr hne
    simp only [System.rank, hpc, FlushPc.rank, RoomEvent.gain, round_rank, List.length_nil, if_true,
      if_neg (show system.etc_queue.length ≠ 0 by omega)]
    omega
  | wake hpc =>
    simp only [System.rank, hpc, FlushPc.rank, RoomEvent.gain]
    omega
  | @execute job local_queue hpc =>
    have hexecute : (job.execute system.toRoom).players = system.players ∧
        (job.execute system.toRoom).etc_queue = system.etc_queue := by
      unfold Job.execute
      cases job.callback <;> exact ⟨rfl, rfl⟩
    simp only [System.rank, hpc, FlushPc.rank, RoomEvent.gain, hexecute.1, hexecute.2, List.length_cons]
    omega
  | @swap players_snapshot hpc hperm =>
    have hlength := hperm.length_eq
    simp only [System.rank, hpc, FlushPc.rank, RoomEvent.gain, List.length_nil]
    omega
  | @send batch entry players_snapshot hpc =>
    simp only [System.rank, hpc, FlushPc.rank, RoomEvent.gain, List.length_cons]
    omega
  | end_round hpc =>
    simp only [System.rank, hpc, FlushPc.rank, RoomEvent.gain, List.length_nil]
    omega

/-- How the consumer and the notifications use up the work of the room. -/
def roomRanking (M : Type) : (roomMachine M).Ranking where
  Allowed := RoomEvent.Serves
  gain := RoomEvent.gain
  rank := System.rank
  step_lt := System.rank_lt_of_step

/-- The consumer can always go on, unless it sleeps. -/
theorem System.asleep_of_quiet {M : Type} {system : System M}
    (hquiet : (roomRanking M).Quiet system) : system.flush = .asleep ∧ system.notifying = [] := by
  constructor
  · cases hpc : system.flush with
    | asleep => rfl
    | waiting =>
      have hwait := hquiet .wait ⟨trivial, rfl⟩
      change system.step .wait = none at hwait
      simp only [System.step, hpc] at hwait
      split at hwait <;> cases hwait
    | executing local_queue =>
      cases local_queue with
      | nil =>
        have hswap := hquiet (.swap system.players.entries) ⟨trivial, rfl⟩
        change system.step _ = none at hswap
        simp [System.step, hpc] at hswap
      | cons job local_queue =>
        have hexecute := hquiet .execute ⟨trivial, rfl⟩
        change system.step _ = none at hexecute
        simp [System.step, hpc] at hexecute
    | sending batch players_snapshot =>
      cases players_snapshot with
      | nil =>
        have hend := hquiet .end_round ⟨trivial, rfl⟩
        change system.step _ = none at hend
        simp [System.step, hpc] at hend
      | cons entry players_snapshot =>
        have hsend := hquiet .send ⟨trivial, rfl⟩
        change system.step _ = none at hsend
        simp [System.step, hpc] at hsend
  · cases hnotifying : system.notifying with
    | nil => rfl
    | cons thread rest =>
      have hnotify := hquiet (.notify_one thread) ⟨trivial, rfl⟩
      change system.step (.notify_one thread) = none at hnotify
      simp [System.step, hnotifying] at hnotify

/-- A consumer that sleeps for good has nothing left to do. -/
theorem System.Awake.drained {M : Type} {system : System M} {log : List (Observation M)}
    (hawake : system.Awake log) (hpc : system.flush = .asleep) (hidle : system.notifying = []) :
    system.Drained where
  etc_queue := by
    by_contra hne
    exact hawake.asleep hpc hne hidle
  local_queue := by
    rw [hpc]
    rfl
  pending_msg := hawake.pending (by simp [hpc])
  players_snapshot := by
    rw [hpc]
    rfl

/-- Neither the consumer nor a notification pushes a job. -/
theorem System.pushed_of_serves {M : Type} {system final : System M} {events : List (RoomEvent M)}
    {emitted : List (Observation M)} (hserves : ∀ event ∈ events, event.Serves)
    (hexec : (roomMachine M).exec system events = some (final, emitted)) : pushed emitted = [] := by
  induction events generalizing system emitted with
  | nil =>
    simp only [Machine.exec_nil, Option.some.injEq, Prod.mk.injEq] at hexec
    rw [← hexec.2]
    rfl
  | cons event events ih =>
    obtain ⟨next, first, rest, hstep, hrest, rfl⟩ := (roomMachine M).exec_cons_eq_some_iff.mp hexec
    obtain ⟨hevent, hevents⟩ := List.forall_mem_cons.mp hserves
    rw [pushed_append, ih hevents hrest, List.append_nil]
    apply System.pushed_of_step _ hstep
    rintro thread job rfl
    exact hevent

/-- What the consumer makes of a state of the room when nobody calls the room
    any more. -/
structure System.Drains {M : Type} (system : System M) (log : List (Observation M)) : Prop where
  /-- Its steps and the notifications are bounded. A spurious wake-up allows for
      two more. -/
  bounded : ∀ events final emitted, (∀ event ∈ events, event.Serves) →
    (roomMachine M).exec system events = some (final, emitted) →
    events.length ≤ system.rank + (events.map RoomEvent.gain).sum
  /-- They can be taken until it sleeps. -/
  ends : ∃ events final emitted, (∀ event ∈ events, event.Serves) ∧
    (roomMachine M).exec system events = some (final, emitted) ∧ (roomRanking M).Quiet final
  /-- It has then sent everything that has been pushed. -/
  drained : ∀ events final emitted, (∀ event ∈ events, event.Serves) →
    (roomMachine M).exec system events = some (final, emitted) → (roomRanking M).Quiet final →
    final.flush = .asleep ∧ final.Drained ∧
      (rounds (log ++ emitted)).flatMap Round.batch = (pushed log).filterMap Job.callback ∧
      ∀ round ∈ rounds (log ++ emitted), round.completed = true

/-- Whatever threads have called the room, and wherever the consumer is, it works
    off all that has been pushed in a bounded number of steps and falls asleep.
    It never waits for anything but the notifications that are under way. -/
theorem drains_of_exec {M : Type} (events : List (RoomEvent M)) (system : System M)
    (log : List (Observation M))
    (hexec : (roomMachine M).exec (.start M) events = some (system, log))
    (hinside : ∀ buffer, .broadcast_serialized buffer ∉ events) : system.Drains log := by
  constructor
  · intro more final emitted hserves hmore
    have hlength := (roomRanking M).length_le hmore hserves
    exact Nat.le_trans (Nat.le_add_right _ _) hlength
  · obtain ⟨more, final, emitted, hworks, hmore, hquiet⟩ := (roomRanking M).exists_quiet system
    exact ⟨more, final, emitted, fun event hmem => (hworks event hmem).1, hmore, hquiet⟩
  · intro more final emitted hserves hmore hquiet
    obtain ⟨hpc, hidle⟩ := System.asleep_of_quiet hquiet
    have hall := (roomMachine M).exec_append hexec hmore
    have hnone : ∀ buffer, .broadcast_serialized buffer ∉ events ++ more := by
      intro buffer hmem
      rcases List.mem_append.mp hmem with hbefore | hafter
      · exact hinside buffer hbefore
      · exact hserves _ hafter
    have hawake := System.awake_of_exec hall hnone
    have hhistory := System.history_of_exec hall
    have hdrained := hawake.drained hpc hidle
    refine ⟨hpc, hdrained, ?_, hhistory.completed (by simp [hpc])⟩
    have hpayloads := hhistory.payloads_eq hawake
    rw [hdrained.pending_msg, hdrained.local_queue, hdrained.etc_queue, pushed_append,
      System.pushed_of_serves hserves hmore, List.append_nil] at hpayloads
    simpa using hpayloads.symm

/-- A player is in the room, and a job is pushed while a round is under way. -/
def pushedMeanwhile : List (RoomEvent Nat) :=
  [.enter_object ⟨0, true, 0⟩, .push_etc_job 0 ⟨some 7⟩, .wait, .push_etc_job 1 ⟨some 8⟩]

theorem drains_of_exec_one : ∃ system log,
    (roomMachine Nat).exec (.start Nat) pushedMeanwhile = some (system, log) ∧
      system.flush = .executing [⟨some 7⟩] ∧ system.etc_queue = [⟨some 8⟩] ∧ system.rank = 14 ∧
      system.Drains log :=
  ⟨_, _, rfl, rfl, rfl, rfl,
    drains_of_exec pushedMeanwhile _ _ rfl (by simp [pushedMeanwhile])⟩

end topview.room
