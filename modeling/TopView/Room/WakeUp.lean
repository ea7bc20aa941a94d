import TopView.Room.History

open topview.transition

namespace topview.room

/-- The jobs that the consumer has taken and not executed yet. -/
def FlushPc.local_queue {M : Type} : FlushPc M → List (Job M)
  | .executing local_queue => local_queue
  | _ => []

/-- What a run without broadcasts from outside maintains. Messages wait in
    `_pendingMSG` only while the consumer executes jobs, and a nonempty queue is
    never left to a sleeping consumer without somebody to wake it. -/
structure System.Awake {M : Type} (system : System M) (log : List (Observation M)) : Prop where
  pushed_eq : pushed log = executed log ++ system.flush.local_queue ++ system.etc_queue
  appended_eq : appended log = (executed log).filterMap Job.callback
  pending : (∀ local_queue, system.flush ≠ .executing local_queue) → system.pending_msg = []
  asleep : system.flush = .asleep → system.etc_queue ≠ [] → system.notifying ≠ []

theorem System.Awake.start (M : Type) : (System.start M).Awake [] where
  pushed_eq := rfl
  appended_eq := rfl
  pending := fun _ => rfl
  asleep := by simp [System.start]

theorem FlushPc.local_queue_notified {M : Type} (pc : FlushPc M) :
    pc.notified.local_queue = pc.local_queue := by
  cases pc <;> rfl

theorem FlushPc.notified_ne_asleep {M : Type} (pc : FlushPc M) : pc.notified ≠ .asleep := by
  cases pc <;> simp [FlushPc.notified]

theorem FlushPc.notified_executing {M : Type} {pc : FlushPc M} {local_queue : List (Job M)}
    (hpc : pc = .executing local_queue) : pc.notified = .executing local_queue := by
  rw [hpc]
  rfl

theorem System.Awake.step {M : Type} {system next : System M} {log emitted : List (Observation M)}
    {event : RoomEvent M} (hawake : system.Awake log)
    (hinside : ∀ buffer, event ≠ .broadcast_serialized buffer)
    (hstep : system.step event = some (next, emitted)) : next.Awake (log ++ emitted) := by
  obtain ⟨hpushed, happended, hpending, hasleep⟩ := hawake
  cases System.step_cases hstep with
  | enter_object player =>
    rw [List.append_nil]
    exact ⟨hpushed, happended, hpending, hasleep⟩
  | exit_object player =>
    rw [List.append_nil]
    exact ⟨hpushed, happended, hpending, hasleep⟩
  | broadcast_serialized buffer => exact absurd rfl (hinside buffer)
  | push_etc_job thread job _ =>
    refine ⟨?_, ?_, hpending, by simp⟩
    · rw [pushed_append, executed_append, hpushed]
      simp [pushed, executed, Room.push_etc_job]
    · rw [appended_append, executed_append, happended]
      simp [appended, executed]
  | notify_one thread _ =>
    rw [List.append_nil]
    refine ⟨?_, happended, ?_, ?_⟩
    · rw [hpushed, FlushPc.local_queue_notified]
    · intro hpc
      apply hpending
      intro local_queue hexecuting
      exact hpc local_queue (FlushPc.notified_executing hexecuting)
    · intro hpc
      exact absurd hpc (FlushPc.notified_ne_asleep _)
  | expire session =>
    rw [List.append_nil]
    exact ⟨hpushed, happended, hpending, hasleep⟩
  | fall_asleep hpc hempty =>
    rw [hpc] at hpushed
    rw [List.append_nil]
    refine ⟨hpushed, happended, fun _ => hpending (by simp [hpc]), ?_⟩
    intro _ hne
    exact absurd hempty hne
  | take hpc _ =>
    rw [hpc] at hpushed
    rw [List.append_nil]
    refine ⟨?_, happended, ?_, by simp⟩
    · rw [hpushed]
      simp [FlushPc.local_queue]
    · intro hnot
      exact absurd rfl (hnot _)
  | wake hpc =>
    rw [hpc] at hpushed
    rw [List.append_nil]
    exact ⟨hpushed, happended, fun _ => hpending (by simp [hpc]), by simp⟩
  | @execute job local_queue hpc =>
    rw [hpc] at hpushed
    have hqueue : (job.execute system.toRoom).etc_queue = system.etc_queue := by
      unfold Job.execute
      cases job.callback <;> rfl
    refine ⟨?_, ?_, ?_, by simp⟩
    · rw [pushed_append, executed_append, hpushed, hqueue]
      cases job.callback <;> simp [pushed, executed, FlushPc.local_queue]
    · rw [appended_append, executed_append, List.filterMap_append, happended]
      congr 1
      cases hcallback : job.callback <;> simp [appended, executed, hcallback]
    · intro hnot
      exact absurd rfl (hnot _)
  | @swap players_snapshot hpc hperm =>
    rw [hpc] at hpushed
    refine ⟨?_, ?_, fun _ => rfl, by simp⟩
    · rw [pushed_append, executed_append, hpushed]
      simp [pushed, executed, FlushPc.local_queue]
    · rw [appended_append, executed_append, happended]
      simp [appended, executed]
  | @send batch entry later hpc =>
    rw [hpc] at hpushed
    refine ⟨?_, ?_, fun _ => hpending (by simp [hpc]), by simp⟩
    · rw [pushed_append, executed_append, hpushed]
      split <;> simp [pushed, executed, FlushPc.local_queue]
    · rw [appended_append, executed_append, happended]
      split <;> simp [appended, executed]
  | end_round hpc =>
    rw [hpc] at hpushed
    refine ⟨?_, ?_, fun _ => hpending (by simp [hpc]), by simp⟩
    · rw [pushed_append, executed_append, hpushed]
      simp [pushed, executed, FlushPc.local_queue]
    · rw [appended_append, executed_append, happended]
      simp [appended, executed]

theorem System.awake_of_exec {M : Type} {system : System M} {events : List (RoomEvent M)}
    {log : List (Observation M)}
    (hexec : (roomMachine M).exec (.start M) events = some (system, log))
    (hinside : ∀ buffer, .broadcast_serialized buffer ∉ events) : system.Awake log := by
  refine (roomMachine M).exec_induct (fun events system log =>
    (∀ buffer, .broadcast_serialized buffer ∉ events) → system.Awake log)
    (fun _ => .start M) ?_ events system log hexec hinside
  intro events system log event next emitted _ ih hstep hinside
  have hbefore : ∀ buffer, .broadcast_serialized buffer ∉ events := by
    intro buffer hmem
    exact hinside buffer (List.mem_append_left _ hmem)
  apply (ih hbefore).step _ hstep
  rintro buffer rfl
  exact hinside buffer (by simp)

/-- No work is stranded, however many threads push jobs and however the
    consumer is woken. While it sleeps inside of `cv.wait` it has taken no job
    and no message is pending, and when jobs are queued then some thread has
    yet to notify it. Once no thread has, nothing is left and every message has
    been sent in a completed round. Every job is queued, taken or executed, in
    the order of the pushes, each at one place. -/
theorem nothing_stranded {M : Type} (events : List (RoomEvent M)) (system : System M)
    (log : List (Observation M))
    (hexec : (roomMachine M).exec (.start M) events = some (system, log))
    (hinside : ∀ buffer, .broadcast_serialized buffer ∉ events) :
    (system.flush = .asleep → system.flush.local_queue = [] ∧ system.pending_msg = [] ∧
      (system.etc_queue ≠ [] → system.notifying ≠ [])) ∧
    (system.flush = .asleep → system.notifying = [] →
      system.etc_queue = [] ∧ executed log = pushed log ∧
        (rounds log).flatMap Round.batch = (pushed log).filterMap Job.callback ∧
        ∀ round ∈ rounds log, round.completed = true) ∧
    pushed log = executed log ++ system.flush.local_queue ++ system.etc_queue := by
  have hawake := System.awake_of_exec hexec hinside
  have hsleeping : system.flush = .asleep →
      system.flush.local_queue = [] ∧ system.pending_msg = [] := by
    intro hpc
    refine ⟨by rw [hpc]; rfl, hawake.pending ?_⟩
    simp [hpc]
  refine ⟨?_, ?_, hawake.pushed_eq⟩
  · intro hpc
    obtain ⟨hlocal, hpending⟩ := hsleeping hpc
    exact ⟨hlocal, hpending, hawake.asleep hpc⟩
  · intro hpc hidle
    obtain ⟨hlocal, hpending⟩ := hsleeping hpc
    have hqueue : system.etc_queue = [] := by
      by_contra hne
      exact hawake.asleep hpc hne hidle
    have hpushed := hawake.pushed_eq
    rw [hlocal, hqueue, List.append_nil, List.append_nil] at hpushed
    have hhistory := System.history_of_exec hexec
    have haccount := hhistory.account
    rw [hpending, List.append_nil, hawake.appended_eq] at haccount
    refine ⟨hqueue, hpushed.symm, ?_, hhistory.completed ?_⟩
    · rw [← haccount, hpushed]
    · simp [hpc]

/-- A job is pushed while the consumer sleeps, and its thread is about to
    notify it. -/
theorem nothing_stranded_one : ∃ system log,
    (roomMachine Nat).exec (.start Nat) [.wait, .push_etc_job 0 ⟨some 7⟩] = some (system, log) ∧
      system.flush = .asleep ∧ system.etc_queue = [⟨some 7⟩] ∧ system.notifying ≠ [] := by
  refine ⟨_, _, rfl, rfl, rfl, ?_⟩
  exact ((nothing_stranded [.wait, .push_etc_job 0 ⟨some 7⟩] _ _ rfl (by simp)).1 rfl).2.2 (by
    exact List.cons_ne_nil _ _)

end topview.room
