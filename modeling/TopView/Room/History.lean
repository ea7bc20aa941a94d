import TopView.Room.Rounds

open topview.transition

namespace topview.room

/-- What a run has appended is in its rounds or still pending, in order. The
    round that is being sent is the latest one, all others are completed. -/
structure System.History {M : Type} (system : System M) (log : List (Observation M)) : Prop where
  account : appended log = (rounds log).flatMap Round.batch ++ system.pending_msg
  wellFormed : ∀ round ∈ rounds log, round.WellFormed system.expired
  current : ∀ batch later, system.flush = .sending batch later →
    ∃ before round, rounds log = before ++ [round] ∧ round.batch = batch ∧
      round.handled.map Prod.fst ++ later.map (fun entry => entry.2) = round.players ∧
      ∀ other ∈ before, other.completed = true
  completed : (∀ batch later, system.flush ≠ .sending batch later) →
    ∀ round ∈ rounds log, round.completed = true
  received : ∀ player, receivedBy player log =
    (rounds log).flatMap fun round => round.received player

theorem System.History.start (M : Type) : (System.start M).History [] where
  account := rfl
  wellFormed := by simp [rounds]
  current := by simp [System.start]
  completed := by simp [rounds]
  received := fun _ => rfl

/-- The history survives a step that only appends to `_pendingMSG` what it
    emits, and neither starts a round nor sends anything. -/
private theorem System.History.of_same_rounds {M : Type} {system next : System M}
    {log emitted : List (Observation M)} (hhistory : system.History log)
    (hrounds : emitted.foldl record (rounds log) = rounds log)
    (hreceived : ∀ player, receivedBy player emitted = [])
    (hpending : next.pending_msg = system.pending_msg ++ appended emitted)
    (hexpired : ∀ session ∈ system.expired, session ∈ next.expired)
    (hflush : ∀ batch later, next.flush = .sending batch later ↔
      system.flush = .sending batch later) :
    next.History (log ++ emitted) := by
  have hsame : rounds (log ++ emitted) = rounds log := by
    rw [rounds_append, hrounds]
  refine ⟨?_, ?_, ?_, ?_, ?_⟩
  · rw [appended_append, hsame, hpending, hhistory.account, List.append_assoc]
  · rw [hsame]
    intro round hmem
    exact (hhistory.wellFormed round hmem).mono hexpired
  · rw [hsame]
    intro batch later hpc
    exact hhistory.current batch later ((hflush batch later).mp hpc)
  · rw [hsame]
    intro hpc
    apply hhistory.completed
    intro batch later hsending
    exact hpc batch later ((hflush batch later).mpr hsending)
  · intro player
    rw [receivedBy_append, hreceived, List.append_nil, hsame]
    exact hhistory.received player

theorem FlushPc.notified_eq_sending_iff {M : Type} {pc : FlushPc M} {batch : List M}
    {later : List Entry} : pc.notified = .sending batch later ↔ pc = .sending batch later := by
  cases pc <;> simp [FlushPc.notified]

theorem Job.pending_msg_execute {M : Type} (job : Job M) (room : Room M) :
    (job.execute room).pending_msg = room.pending_msg ++ job.callback.toList := by
  cases hcallback : job.callback <;> simp [Job.execute, hcallback, Room.broadcast_serialized]

/-- The swap starts a round with the payloads that were pending. -/
private theorem System.History.swap {M : Type} {system : System M}
    {log : List (Observation M)} (hhistory : system.History log) {players_snapshot : List Entry}
    (hpc : system.flush = .executing []) (hperm : players_snapshot.Perm system.players.entries) :
    System.History { system with
      pending_msg := []
      flush := .sending system.pending_msg players_snapshot }
      (log ++ [.swapped system.pending_msg players_snapshot]) := by
  have hrounds : rounds (log ++ [.swapped system.pending_msg players_snapshot]) =
      rounds log ++ [⟨system.pending_msg, players_snapshot, [], false⟩] := by
    rw [rounds_append]
    rfl
  have hcompleted := hhistory.completed (by simp [hpc])
  refine ⟨?_, ?_, ?_, by simp, ?_⟩
  · rw [appended_append, hrounds, hhistory.account]
    simp [appended]
  · rw [hrounds, List.forall_mem_append, List.forall_mem_singleton]
    refine ⟨hhistory.wellFormed, ?_⟩
    have hnodup : (players_snapshot.map fun entry => entry.2).Nodup :=
      (hperm.map _).nodup_iff.mpr system.players.nodup_entries
    exact ⟨hnodup, List.nil_prefix, by simp, by simp⟩
  · intro batch later hsending
    obtain ⟨rfl, rfl⟩ := FlushPc.sending.inj hsending
    exact ⟨rounds log, _, hrounds, rfl, rfl, hcompleted⟩
  · intro player
    rw [receivedBy_append, hrounds, List.flatMap_append, hhistory.received]
    simp [receivedBy, Round.received]

/-- The latest round handles the next player of its snapshot. -/
private theorem System.History.send {M : Type} {system : System M}
    {log : List (Observation M)} (hhistory : system.History log) {batch : List M} {entry : Entry}
    {later : List Entry} (hpc : system.flush = .sending batch (entry :: later)) :
    System.History { system with flush := .sending batch later }
      (log ++ [if entry.2.session ∈ system.expired then .skipped entry.2
        else .sent entry.2 batch]) := by
  obtain ⟨before, round, hrounds, hbatch, hplayers, hothers⟩ := hhistory.current _ _ hpc
  obtain ⟨sent, hsent, hseen⟩ : ∃ sent : Option (List M),
      (sent = some round.batch ∨ sent = none ∧ entry.2.session ∈ system.expired) ∧
      ((if entry.2.session ∈ system.expired then .skipped entry.2 else .sent entry.2 batch) =
        (sent.elim (.skipped entry.2) (.sent entry.2) : Observation M)) := by
    by_cases hgone : entry.2.session ∈ system.expired
    · exact ⟨none, .inr ⟨rfl, hgone⟩, by rw [if_pos hgone]; rfl⟩
    · exact ⟨some batch, .inl (by rw [hbatch]), by rw [if_neg hgone]; rfl⟩
  rw [hseen]
  have hrecord : rounds (log ++ [sent.elim (.skipped entry.2) (.sent entry.2)]) =
      before ++ [round.handle entry.2 sent] := by
    rw [rounds_append, hrounds]
    cases sent <;> exact updateLast_snoc _ _ _
  have hwellFormed := hhistory.wellFormed
  rw [hrounds, List.forall_mem_append, List.forall_mem_singleton] at hwellFormed
  obtain ⟨hbefore, hlast⟩ := hwellFormed
  refine ⟨?_, ?_, ?_, by simp, ?_⟩
  · rw [appended_append, hrecord, hhistory.account, hrounds]
    cases sent <;> simp [appended, Round.handle]
  · rw [hrecord, List.forall_mem_append, List.forall_mem_singleton]
    exact ⟨hbefore, hlast.handle hplayers hsent⟩
  · intro other rest hsending
    obtain ⟨rfl, rfl⟩ := FlushPc.sending.inj hsending
    refine ⟨before, round.handle entry.2 sent, hrecord, hbatch, ?_, hothers⟩
    rw [← show round.players = (round.handle entry.2 sent).players from rfl, ← hplayers]
    simp [Round.handle]
  · intro player
    rw [receivedBy_append, hrecord, hhistory.received, hrounds, List.flatMap_append,
      List.flatMap_append, List.flatMap_singleton, List.flatMap_singleton,
      Round.received_handle, List.append_assoc]
    cases sent <;> simp [receivedBy]

/-- The latest round has handled its whole snapshot. -/
private theorem System.History.end_round {M : Type} {system : System M}
    {log : List (Observation M)} (hhistory : system.History log) {batch : List M}
    (hpc : system.flush = .sending batch []) :
    System.History { system with flush := .waiting } (log ++ [.ended]) := by
  obtain ⟨before, round, hrounds, hbatch, hplayers, hothers⟩ := hhistory.current _ _ hpc
  rw [List.map_nil, List.append_nil] at hplayers
  have hrecord : rounds (log ++ [.ended]) = before ++ [round.complete] := by
    rw [rounds_append, hrounds]
    exact updateLast_snoc _ _ _
  have hwellFormed := hhistory.wellFormed
  rw [hrounds, List.forall_mem_append, List.forall_mem_singleton] at hwellFormed
  obtain ⟨hbefore, hlast⟩ := hwellFormed
  refine ⟨?_, ?_, by simp, ?_, ?_⟩
  · rw [appended_append, hrecord, hhistory.account, hrounds]
    simp [appended, Round.complete]
  · rw [hrecord, List.forall_mem_append, List.forall_mem_singleton]
    exact ⟨hbefore, hlast.complete hplayers⟩
  · rw [hrecord, List.forall_mem_append, List.forall_mem_singleton]
    intro _
    exact ⟨hothers, rfl⟩
  · intro player
    rw [receivedBy_append, hrecord, hhistory.received, hrounds]
    simp [receivedBy, Round.received, Round.complete]

theorem System.History.step {M : Type} {system next : System M} {log emitted : List (Observation M)}
    {event : RoomEvent M} (hhistory : system.History log)
    (hstep : system.step event = some (next, emitted)) : next.History (log ++ emitted) := by
  cases System.step_cases hstep with
  | enter_object player =>
    exact hhistory.of_same_rounds rfl (fun _ => rfl) (List.append_nil _).symm (fun _ => id)
      fun _ _ => Iff.rfl
  | exit_object player =>
    exact hhistory.of_same_rounds rfl (fun _ => rfl) (List.append_nil _).symm (fun _ => id)
      fun _ _ => Iff.rfl
  | broadcast_serialized buffer =>
    exact hhistory.of_same_rounds rfl (fun _ => rfl) rfl (fun _ => id) fun _ _ => Iff.rfl
  | push_etc_job thread job _ =>
    exact hhistory.of_same_rounds rfl (fun _ => rfl) (List.append_nil _).symm (fun _ => id)
      fun _ _ => Iff.rfl
  | notify_one thread _ =>
    exact hhistory.of_same_rounds rfl (fun _ => rfl) (List.append_nil _).symm (fun _ => id)
      fun _ _ => FlushPc.notified_eq_sending_iff
  | expire session =>
    exact hhistory.of_same_rounds rfl (fun _ => rfl) (List.append_nil _).symm
      (fun _ => List.mem_cons_of_mem session) fun _ _ => Iff.rfl
  | fall_asleep hpc _ =>
    exact hhistory.of_same_rounds rfl (fun _ => rfl) (List.append_nil _).symm (fun _ => id)
      (by simp [hpc])
  | take hpc _ =>
    exact hhistory.of_same_rounds rfl (fun _ => rfl) (List.append_nil _).symm (fun _ => id)
      (by simp [hpc])
  | wake hpc =>
    exact hhistory.of_same_rounds rfl (fun _ => rfl) (List.append_nil _).symm (fun _ => id)
      (by simp [hpc])
  | @execute job local_queue hpc =>
    apply hhistory.of_same_rounds
    · cases job.callback <;> rfl
    · intro player
      cases job.callback <;> rfl
    · rw [Job.pending_msg_execute]
      cases job.callback <;> rfl
    · exact fun _ => id
    · simp [hpc]
  | swap hpc hperm => exact hhistory.swap hpc hperm
  | send hpc => exact hhistory.send hpc
  | end_round hpc => exact hhistory.end_round hpc

/-- The history of every run. -/
theorem System.history_of_exec {M : Type} {system : System M} {events : List (RoomEvent M)}
    {log : List (Observation M)}
    (hexec : (roomMachine M).exec (.start M) events = some (system, log)) : system.History log :=
  (roomMachine M).exec_induct (fun _ system log => system.History log) (.start M)
    (fun _ _ _ _ _ _ _ hhistory hstep => hhistory.step hstep) events system log hexec

end topview.room
