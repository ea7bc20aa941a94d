import TopView.Room.Flush

open topview.transition

namespace topview.room

/-- A round of the consumer, from its swap of `_pendingMSG` on. -/
structure Round (M : Type) where
  batch : List M
  players_snapshot : List Entry
  /-- The players handled so far, each with what its session was sent. -/
  handled : List (Player × Option (List M))
  completed : Bool

def Round.players {M : Type} (round : Round M) : List Player :=
  round.players_snapshot.map fun entry => entry.2

/-- What `player` was sent in this round. -/
def Round.received {M : Type} (round : Round M) (player : Player) : List M :=
  round.handled.flatMap fun entry => if entry.1 = player then entry.2.getD [] else []

def Round.handle {M : Type} (player : Player) (sent : Option (List M)) (round : Round M) :
    Round M :=
  { round with handled := round.handled ++ [(player, sent)] }

def Round.complete {M : Type} (round : Round M) : Round M := { round with completed := true }

/-- Replace the last element. -/
def updateLast {A : Type} (f : A → A) (list : List A) : List A :=
  list.dropLast ++ (list.getLast?.map f).toList

@[simp] theorem updateLast_snoc {A : Type} (f : A → A) (front : List A) (last : A) :
    updateLast f (front ++ [last]) = front ++ [f last] := by
  simp [updateLast]

/-- A swap starts a round, and whatever is sent belongs to the latest one. -/
def record {M : Type} (rounds : List (Round M)) : Observation M → List (Round M)
  | .swapped batch players_snapshot => rounds ++ [⟨batch, players_snapshot, [], false⟩]
  | .sent player batch => updateLast (Round.handle player (some batch)) rounds
  | .skipped player => updateLast (Round.handle player none) rounds
  | .ended => updateLast Round.complete rounds
  | _ => rounds

/-- The rounds of a run, the latest one last. -/
def rounds {M : Type} (log : List (Observation M)) : List (Round M) := log.foldl record []

/-- The payloads that a run appends to `_pendingMSG`, in order. -/
def appended {M : Type} (log : List (Observation M)) : List M :=
  log.filterMap fun seen => match seen with
    | .appended buffer => some buffer
    | _ => none

/-- The jobs that a run pushes, in order. -/
def pushed {M : Type} (log : List (Observation M)) : List (Job M) :=
  log.filterMap fun seen => match seen with
    | .pushed job => some job
    | _ => none

/-- The jobs that a run executes, in order. -/
def executed {M : Type} (log : List (Observation M)) : List (Job M) :=
  log.filterMap fun seen => match seen with
    | .executed job => some job
    | _ => none

/-- What the session of `player` is sent in a run. -/
def receivedBy {M : Type} (player : Player) (log : List (Observation M)) : List M :=
  log.flatMap fun seen => match seen with
    | .sent other batch => if other = player then batch else []
    | _ => []

theorem rounds_append {M : Type} (log emitted : List (Observation M)) :
    rounds (log ++ emitted) = emitted.foldl record (rounds log) := List.foldl_append

theorem appended_append {M : Type} (log emitted : List (Observation M)) :
    appended (log ++ emitted) = appended log ++ appended emitted := List.filterMap_append

theorem pushed_append {M : Type} (log emitted : List (Observation M)) :
    pushed (log ++ emitted) = pushed log ++ pushed emitted := List.filterMap_append

theorem executed_append {M : Type} (log emitted : List (Observation M)) :
    executed (log ++ emitted) = executed log ++ executed emitted := List.filterMap_append

theorem receivedBy_append {M : Type} (player : Player) (log emitted : List (Observation M)) :
    receivedBy player (log ++ emitted) = receivedBy player log ++ receivedBy player emitted :=
  List.flatMap_append

/-- In its round every player of the snapshot is handled at most once, in the
    order of the snapshot. It is sent the batch, unless its session is gone. -/
structure Round.WellFormed {M : Type} (expired : List Nat) (round : Round M) : Prop where
  nodup : round.players.Nodup
  handled_prefix : round.handled.map Prod.fst <+: round.players
  handled_eq : round.completed = true → round.handled.map Prod.fst = round.players
  outcome : ∀ entry ∈ round.handled,
    entry.2 = some round.batch ∨ entry.2 = none ∧ entry.1.session ∈ expired

theorem Round.WellFormed.mono {M : Type} {expired more : List Nat} {round : Round M}
    (hround : round.WellFormed expired) (hmore : ∀ session ∈ expired, session ∈ more) :
    round.WellFormed more := by
  refine ⟨hround.nodup, hround.handled_prefix, hround.handled_eq, ?_⟩
  intro entry hmem
  rcases hround.outcome entry hmem with hsent | ⟨hnone, hgone⟩
  · exact .inl hsent
  · exact .inr ⟨hnone, hmore _ hgone⟩

/-- Handling the next player of the snapshot. -/
theorem Round.WellFormed.handle {M : Type} {expired : List Nat} {round : Round M}
    (hround : round.WellFormed expired) {player : Player} {later : List Player}
    (hnext : round.handled.map Prod.fst ++ player :: later = round.players)
    {sent : Option (List M)}
    (hsent : sent = some round.batch ∨ sent = none ∧ player.session ∈ expired) :
    (round.handle player sent).WellFormed expired := by
  have hopen : round.completed ≠ true := by
    intro hcompleted
    have hlength := congrArg List.length hnext
    rw [hround.handled_eq hcompleted, List.length_append, List.length_cons] at hlength
    omega
  refine ⟨hround.nodup, ?_, fun hcompleted => absurd hcompleted hopen, ?_⟩
  · refine ⟨later, ?_⟩
    change (round.handled ++ [(player, sent)]).map Prod.fst ++ later = round.players
    rw [← hnext, List.map_append, List.append_assoc]
    rfl
  · change ∀ entry ∈ round.handled ++ [(player, sent)],
      entry.2 = some round.batch ∨ entry.2 = none ∧ entry.1.session ∈ expired
    rw [List.forall_mem_append, List.forall_mem_singleton]
    exact ⟨hround.outcome, hsent⟩

theorem Round.WellFormed.complete {M : Type} {expired : List Nat} {round : Round M}
    (hround : round.WellFormed expired) (hall : round.handled.map Prod.fst = round.players) :
    round.complete.WellFormed expired :=
  ⟨hround.nodup, hround.handled_prefix, fun _ => hall, hround.outcome⟩

theorem Round.received_handle {M : Type} (round : Round M) (player other : Player)
    (sent : Option (List M)) :
    (round.handle player sent).received other =
      round.received other ++ if player = other then sent.getD [] else [] := by
  simp [Round.received, Round.handle]

theorem flatMap_eq_nil_of_not_mem {M : Type} {player : Player}
    {handled : List (Player × Option (List M))} (hnot : player ∉ handled.map Prod.fst) :
    (handled.flatMap fun entry => if entry.1 = player then entry.2.getD [] else []) = [] := by
  apply List.flatMap_eq_nil_iff.mpr
  intro entry hmem
  rw [if_neg]
  rintro rfl
  exact hnot (List.mem_map_of_mem hmem)

/-- What a handled player receives is what it was handled with. -/
theorem Round.WellFormed.received_eq {M : Type} {expired : List Nat} {round : Round M}
    (hround : round.WellFormed expired) {player : Player} {sent : Option (List M)}
    (hmem : (player, sent) ∈ round.handled) : round.received player = sent.getD [] := by
  have hnodup := hround.nodup.sublist hround.handled_prefix.sublist
  obtain ⟨before, after, hhandled⟩ := List.append_of_mem hmem
  rw [hhandled, List.map_append, List.map_cons, List.nodup_append] at hnodup
  obtain ⟨_, hafter, hbefore⟩ := hnodup
  rw [Round.received, hhandled, List.flatMap_append, List.flatMap_cons, if_pos rfl,
    flatMap_eq_nil_of_not_mem, flatMap_eq_nil_of_not_mem, List.append_nil, List.nil_append]
  · exact (List.nodup_cons.mp hafter).1
  · intro hearlier
    exact hbefore player hearlier player List.mem_cons_self rfl

/-- A player that is not in the snapshot is sent nothing. -/
theorem Round.WellFormed.received_eq_nil {M : Type} {expired : List Nat} {round : Round M}
    (hround : round.WellFormed expired) {player : Player} (hnot : player ∉ round.players) :
    round.received player = [] :=
  flatMap_eq_nil_of_not_mem fun hmem => hnot (hround.handled_prefix.subset hmem)

/-- In a completed round a player of the snapshot is sent the batch, unless its
    session is gone. -/
theorem Round.WellFormed.received_of_completed {M : Type} {expired : List Nat} {round : Round M}
    (hround : round.WellFormed expired) (hcompleted : round.completed = true) {player : Player}
    (hmem : player ∈ round.players) (halive : (player, none) ∉ round.handled) :
    round.received player = round.batch := by
  rw [← hround.handled_eq hcompleted] at hmem
  obtain ⟨⟨other, sent⟩, hentry, rfl⟩ := List.mem_map.mp hmem
  rw [hround.received_eq hentry]
  rcases hround.outcome _ hentry with hsent | ⟨hnone, _⟩
  · simp only at hsent
    rw [hsent]
    rfl
  · simp only at hnone
    rw [hnone] at hentry
    exact absurd hentry halive

/-- A player receives the whole batch of a round or nothing of it. -/
theorem Round.WellFormed.received_sublist {M : Type} {expired : List Nat} {round : Round M}
    (hround : round.WellFormed expired) (player : Player) :
    (round.received player).Sublist round.batch := by
  by_cases hmem : player ∈ round.handled.map Prod.fst
  · obtain ⟨⟨other, sent⟩, hentry, rfl⟩ := List.mem_map.mp hmem
    rw [hround.received_eq hentry]
    rcases hround.outcome _ hentry with hsent | ⟨hnone, _⟩
    · simp only at hsent
      rw [hsent]
      exact List.Sublist.refl _
    · simp only at hnone
      rw [hnone]
      exact List.nil_sublist _
  · rw [Round.received, flatMap_eq_nil_of_not_mem hmem]
    exact List.nil_sublist _

end topview.room
