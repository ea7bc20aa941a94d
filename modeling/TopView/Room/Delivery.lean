import TopView.Room.TotalOrder
import TopView.Room.WakeUp

open topview.transition

namespace topview.room

/-- What the consumer has swapped out and copied in a run, round by round. -/
def swaps {M : Type} (log : List (Observation M)) : List (List M × List Entry) :=
  log.filterMap fun seen => match seen with
    | .swapped batch players_snapshot => some (batch, players_snapshot)
    | _ => none

theorem swaps_append {M : Type} (log emitted : List (Observation M)) :
    swaps (log ++ emitted) = swaps log ++ swaps emitted := List.filterMap_append

theorem mem_of_mem_swaps {M : Type} {log : List (Observation M)} {swap : List M × List Entry}
    (hmem : swap ∈ swaps log) : .swapped swap.1 swap.2 ∈ log := by
  obtain ⟨seen, hseen, heq⟩ := List.mem_filterMap.mp hmem
  cases seen with
  | swapped batch players_snapshot =>
    rw [Option.some.injEq] at heq
    rw [← heq]
    exact hseen
  | _ => cases heq

/-- What a round has swapped out and copied. -/
def Round.swap {M : Type} (round : Round M) : List M × List Entry :=
  (round.batch, round.players_snapshot)

theorem map_updateLast {A B : Type} {f : A → A} {g : A → B} (hsame : ∀ value, g (f value) = g value)
    (list : List A) : (updateLast f list).map g = list.map g := by
  rcases list.eq_nil_or_concat' with rfl | ⟨front, last, rfl⟩
  · rfl
  · rw [updateLast_snoc, List.map_append, List.map_append, List.map_singleton, List.map_singleton,
      hsame]

/-- Handling and completing a round changes neither its batch nor its snapshot. -/
theorem map_swap_record {M : Type} (rounds : List (Round M)) (seen : Observation M) :
    (record rounds seen).map Round.swap = rounds.map Round.swap ++ swaps [seen] := by
  have hsame : ∀ f : Round M → Round M, (∀ round, (f round).swap = round.swap) →
      (updateLast f rounds).map Round.swap = rounds.map Round.swap ++ [] := by
    intro f hf
    rw [map_updateLast hf, List.append_nil]
  cases seen with
  | swapped batch players_snapshot => exact List.map_append
  | sent player batch => exact hsame _ fun _ => rfl
  | skipped player => exact hsame _ fun _ => rfl
  | ended => exact hsame _ fun _ => rfl
  | _ => exact (List.append_nil _).symm

theorem map_swap_rounds {M : Type} (log : List (Observation M)) :
    (rounds log).map Round.swap = swaps log := by
  induction log using List.reverseRecOn with
  | nil => rfl
  | append_singleton log seen ih =>
    rw [rounds_append, swaps_append, ← ih]
    exact map_swap_record _ seen

theorem flatMap_batch_eq {M : Type} (rounds : List (Round M)) :
    rounds.flatMap Round.batch = (rounds.map Round.swap).flatMap Prod.fst := by
  rw [List.flatMap_map]
  rfl

/-- The players that the consumer has yet to send its batch to. -/
def FlushPc.players_snapshot {M : Type} : FlushPc M → List Entry
  | .sending _ players_snapshot => players_snapshot
  | _ => []

/-- Nothing is left to do for the consumer. -/
structure System.Drained {M : Type} (system : System M) : Prop where
  etc_queue : system.etc_queue = []
  local_queue : system.flush.local_queue = []
  pending_msg : system.pending_msg = []
  players_snapshot : system.flush.players_snapshot = []

/-- The payloads of the pushed jobs, in order, are those of the rounds, then
    those that are pending, and then those of the jobs that are still to run. -/
theorem System.History.payloads_eq {M : Type} {system : System M} {log : List (Observation M)}
    (hhistory : system.History log) (hawake : system.Awake log) :
    (pushed log).filterMap Job.callback = (rounds log).flatMap Round.batch ++
      (system.pending_msg ++ (system.flush.local_queue ++ system.etc_queue).filterMap Job.callback) := by
  rw [hawake.pushed_eq, List.append_assoc, List.filterMap_append, ← hawake.appended_eq,
    hhistory.account, List.append_assoc]

/-- A payload that waits in the room or is being sent. -/
def System.Carries {M : Type} (system : System M) (buffer : M) : Prop :=
  (∃ job ∈ system.flush.local_queue ++ system.etc_queue, job.callback = some buffer) ∨
    buffer ∈ system.pending_msg ∨
    ∃ batch later, system.flush = .sending batch later ∧ buffer ∈ batch

/-- Whatever waits in the room has been pushed to it. -/
theorem System.History.pushed_of_carries {M : Type} {system : System M}
    {log : List (Observation M)} (hhistory : system.History log) (hawake : system.Awake log)
    {buffer : M} (hcarries : system.Carries buffer) :
    buffer ∈ (pushed log).filterMap Job.callback := by
  rw [hhistory.payloads_eq hawake]
  rcases hcarries with ⟨job, hjob, hbuffer⟩ | hpending | ⟨batch, later, hpc, hbatch⟩
  · apply List.mem_append_right
    apply List.mem_append_right
    exact List.mem_filterMap.mpr ⟨job, hjob, hbuffer⟩
  · apply List.mem_append_right
    exact List.mem_append_left _ hpending
  · obtain ⟨before, round, hrounds, rfl, _, _⟩ := hhistory.current batch later hpc
    apply List.mem_append_left
    rw [hrounds]
    exact List.mem_flatMap.mpr ⟨round, by simp, hbatch⟩

/-- Whatever is sent has been pushed to the room. -/
theorem System.History.pushed_of_sent {M : Type} {system : System M}
    {log : List (Observation M)} (hhistory : system.History log) (hawake : system.Awake log)
    {player : Player} {batch : List M} (hsent : .sent player batch ∈ log) {buffer : M}
    (hbatch : buffer ∈ batch) : buffer ∈ (pushed log).filterMap Job.callback := by
  have hreceived : buffer ∈ receivedBy player log := by
    refine List.mem_flatMap.mpr ⟨_, hsent, ?_⟩
    simpa using hbatch
  have happended := (hhistory.received_sublist player).subset hreceived
  rw [hhistory.payloads_eq hawake, ← List.append_assoc, ← hhistory.account]
  exact List.mem_append_left _ happended

/-- A handled player has been sent the batch, unless its session is gone. -/
theorem Round.WellFormed.received_of_handled {M : Type} {expired : List Nat} {round : Round M}
    (hround : round.WellFormed expired) {player : Player} (halive : player.session ∉ expired)
    (hmem : player ∈ round.handled.map Prod.fst) : round.received player = round.batch := by
  obtain ⟨⟨other, sent⟩, hentry, rfl⟩ := List.mem_map.mp hmem
  rw [hround.received_eq hentry]
  rcases hround.outcome _ hentry with hsent | ⟨_, hgone⟩
  · simp only at hsent
    rw [hsent, Option.getD_some]
  · exact absurd hgone halive

/-- When the rounds from some point on, and only these, have a player in their
    snapshots, the player is sent exactly their batches, save for the last one
    while the consumer has yet to come to it. -/
theorem System.History.receivedBy_eq {M : Type} {system : System M} {log : List (Observation M)}
    (hhistory : system.History log) {player : Player} (halive : player.session ∉ system.expired)
    {before after : List (Round M)} (hrounds : rounds log = before ++ after)
    (hbefore : ∀ round ∈ before, player ∉ round.players)
    (hafter : ∀ round ∈ after, player ∈ round.players) :
    ∃ kept rest, after = kept ++ rest ∧ receivedBy player log = kept.flatMap Round.batch ∧
      (system.flush.players_snapshot = [] → rest = []) := by
  have hwellFormed := hhistory.wellFormed
  rw [hrounds] at hwellFormed
  have hcompleted : ∀ round ∈ after, round.completed = true →
      round.received player = round.batch := by
    intro round hmem hcompleted
    have hround := hwellFormed round (List.mem_append_right _ hmem)
    apply hround.received_of_handled halive
    rw [hround.handled_eq hcompleted]
    exact hafter round hmem
  have hreceived : receivedBy player log = after.flatMap fun round => round.received player := by
    rw [hhistory.received, hrounds, List.flatMap_append, List.flatMap_eq_nil_iff.mpr,
      List.nil_append]
    intro round hmem
    exact (hwellFormed round (List.mem_append_left _ hmem)).received_eq_nil (hbefore round hmem)
  have hall : (∀ round ∈ after, round.received player = round.batch) →
      ∃ kept rest, after = kept ++ rest ∧ receivedBy player log = kept.flatMap Round.batch ∧
        (system.flush.players_snapshot = [] → rest = []) := by
    intro hbatch
    refine ⟨after, [], (List.append_nil _).symm, ?_, fun _ => rfl⟩
    rw [hreceived]
    exact List.flatMap_congr hbatch
  by_cases hsending : ∃ batch later, system.flush = .sending batch later
  · obtain ⟨batch, later, hpc⟩ := hsending
    obtain ⟨others, round, hlast, _, hplayers, hothers⟩ := hhistory.current batch later hpc
    rcases after.eq_nil_or_concat' with rfl | ⟨front, last, rfl⟩
    · exact hall (by simp)
    · rw [hrounds, ← List.append_assoc] at hlast
      obtain ⟨rfl, heq⟩ := List.append_inj' hlast rfl
      obtain rfl := List.singleton_inj.mp heq
      have hfront : ∀ other ∈ front, other.received player = other.batch := by
        intro other hmem
        apply hcompleted other (List.mem_append_left _ hmem)
        exact hothers other (List.mem_append_right _ hmem)
      have hround := hwellFormed last (by simp)
      have hpresent := hafter last (by simp)
      by_cases hhandled : player ∈ last.handled.map Prod.fst
      · apply hall
        rw [List.forall_mem_append, List.forall_mem_singleton]
        exact ⟨hfront, hround.received_of_handled halive hhandled⟩
      · refine ⟨front, [last], rfl, ?_, ?_⟩
        · rw [hreceived, List.flatMap_append, List.flatMap_congr hfront, List.flatMap_singleton,
            Round.received, flatMap_eq_nil_of_not_mem hhandled, List.append_nil]
        · -- the consumer has come to every player of the snapshot
          intro hdone
          simp only [FlushPc.players_snapshot, hpc] at hdone
          rw [hdone, List.map_nil, List.append_nil] at hplayers
          rw [hplayers] at hhandled
          exact absurd hpresent hhandled
  · apply hall
    intro round hmem
    apply hcompleted round hmem
    apply hhistory.completed
    · intro batch later hpc
      exact hsending ⟨batch, later, hpc⟩
    · rw [hrounds]
      exact List.mem_append_right _ hmem

/-- Jobs are only pushed by `PushETCJob`. -/
theorem System.pushed_of_step {M : Type} {system next : System M} {event : RoomEvent M}
    {emitted : List (Observation M)} (hevent : ∀ thread job, event ≠ .push_etc_job thread job)
    (hstep : system.step event = some (next, emitted)) : pushed emitted = [] := by
  cases System.step_cases hstep with
  | push_etc_job thread job _ => exact absurd rfl (hevent thread job)
  | @execute job _ _ => cases job.callback <;> rfl
  | send => split <;> rfl
  | _ => rfl

/-- A snapshot is a copy of the players at its swap. -/
theorem System.perm_of_swapped {M : Type} {system next : System M} {event : RoomEvent M}
    {emitted : List (Observation M)} {batch : List M} {players_snapshot : List Entry}
    (hstep : system.step event = some (next, emitted))
    (hmem : .swapped batch players_snapshot ∈ emitted) :
    players_snapshot.Perm system.players.entries := by
  cases System.step_cases hstep with
  | swap _ hperm =>
    obtain ⟨_, rfl⟩ := Observation.swapped.inj (List.mem_singleton.mp hmem)
    exact hperm
  | @execute job _ _ => cases hcallback : job.callback <;> simp [hcallback] at hmem
  | send => split at hmem <;> simp at hmem
  | _ => simp at hmem

/-- What is sent goes to the next player of the snapshot. -/
theorem System.sending_of_sent {M : Type} {system next : System M} {event : RoomEvent M}
    {emitted : List (Observation M)} {player : Player} {batch : List M}
    (hstep : system.step event = some (next, emitted)) (hmem : .sent player batch ∈ emitted) :
    ∃ entry later, system.flush = .sending batch (entry :: later) ∧ entry.2 = player := by
  cases System.step_cases hstep with
  | send hpc =>
    split at hmem
    · simp at hmem
    · obtain ⟨rfl, rfl⟩ := Observation.sent.inj (List.mem_singleton.mp hmem)
      exact ⟨_, _, hpc, rfl⟩
  | @execute job _ _ => cases hcallback : job.callback <;> simp [hcallback] at hmem
  | _ => simp at hmem

end topview.room
