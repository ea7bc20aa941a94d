import TopView.Room.History

open topview.transition

namespace topview.room

/-- A sublist of a list without duplicates is what its elements leave of it. -/
theorem filter_mem_of_sublist {A : Type} [DecidableEq A] {list part : List A}
    (hnodup : list.Nodup) (hpart : part.Sublist list) :
    list.filter (fun element => decide (element ∈ part)) = part := by
  induction hpart with
  | slnil => rfl
  | @cons part list first hpart ih =>
    obtain ⟨hfirst, hrest⟩ := List.nodup_cons.mp hnodup
    rw [List.filter_cons, if_neg, ih hrest]
    simpa using fun hmem => hfirst (hpart.subset hmem)
  | @cons_cons part list first hpart ih =>
    obtain ⟨hfirst, hrest⟩ := List.nodup_cons.mp hnodup
    rw [List.filter_cons, if_pos (by simp)]
    congr 1
    refine Eq.trans (List.filter_congr ?_) (ih hrest)
    intro element hmem
    have hne : element ≠ first := fun heq => hfirst (heq ▸ hmem)
    simp [hne]

/-- Two sublists of a list without duplicates have their common elements in the
    same order. -/
theorem filter_mem_comm_of_sublist {A : Type} [DecidableEq A] {list first second : List A}
    (hnodup : list.Nodup) (hfirst : first.Sublist list) (hsecond : second.Sublist list) :
    first.filter (fun element => decide (element ∈ second)) =
      second.filter (fun element => decide (element ∈ first)) := by
  conv_lhs => rw [← filter_mem_of_sublist hnodup hfirst]
  conv_rhs => rw [← filter_mem_of_sublist hnodup hsecond]
  rw [List.filter_filter, List.filter_filter]
  apply List.filter_congr
  intro element _
  exact Bool.and_comm _ _

/-- Where a payload is that was appended. -/
def AtOnePlace {M : Type} (buffer : M) (rounds : List (Round M)) (pending_msg : List M) : Prop :=
  buffer ∈ pending_msg ∧ (∀ round ∈ rounds, buffer ∉ round.batch) ∨
    buffer ∉ pending_msg ∧ ∃ before round after, rounds = before ++ round :: after ∧
      buffer ∈ round.batch ∧ ∀ other ∈ before ++ after, buffer ∉ other.batch

theorem atOnePlace_of_nodup {M : Type} {buffer : M} {rounds : List (Round M)}
    {pending_msg : List M} (hnodup : (rounds.flatMap Round.batch ++ pending_msg).Nodup)
    (hmem : buffer ∈ rounds.flatMap Round.batch ++ pending_msg) :
    AtOnePlace buffer rounds pending_msg := by
  obtain ⟨hbatches, _, hdisjoint⟩ := List.nodup_append.mp hnodup
  rcases List.mem_append.mp hmem with hflushed | hpending
  · obtain ⟨round, hround, hbuffer⟩ := List.mem_flatMap.mp hflushed
    obtain ⟨before, after, rfl⟩ := List.append_of_mem hround
    refine .inr ⟨fun hpending => hdisjoint buffer hflushed buffer hpending rfl,
      before, round, after, rfl, hbuffer, ?_⟩
    rw [List.flatMap_append, List.flatMap_cons] at hbatches
    obtain ⟨_, hrest, hearlier⟩ := List.nodup_append.mp hbatches
    obtain ⟨_, _, hlater⟩ := List.nodup_append.mp hrest
    intro other hother hagain
    rcases List.mem_append.mp hother with hbefore | hafter
    · exact hearlier buffer (List.mem_flatMap.mpr ⟨other, hbefore, hagain⟩) buffer
        (List.mem_append_left _ hbuffer) rfl
    · exact hlater buffer hbuffer buffer (List.mem_flatMap.mpr ⟨other, hafter, hagain⟩) rfl
  · refine .inl ⟨hpending, ?_⟩
    intro round hround hbuffer
    exact hdisjoint buffer (List.mem_flatMap.mpr ⟨round, hround, hbuffer⟩) buffer hpending rfl

/-- The room orders all messages, and all players see them in this order. -/
structure TotalOrder {M : Type} [DecidableEq M] (system : System M) (log : List (Observation M)) :
    Prop where
  /-- The batches, one after the other, are what was appended, in order. -/
  account : appended log = (rounds log).flatMap Round.batch ++ system.pending_msg
  one_place : (appended log).Nodup → ∀ buffer ∈ appended log,
    AtOnePlace buffer (rounds log) system.pending_msg
  /-- In an interval of completed rounds whose snapshots contain a player, and
      in which its session is there, it is sent exactly their batches. -/
  interval : ∀ player before rounds_between after,
    rounds log = before ++ rounds_between ++ after →
    (∀ round ∈ rounds_between, round.completed = true ∧ player ∈ round.players ∧
      (player, none) ∉ round.handled) →
    (rounds_between.flatMap fun round => round.received player) =
      rounds_between.flatMap Round.batch
  outside : ∀ player, ∀ round ∈ rounds log, player ∉ round.players → round.received player = []
  /-- Only a player whose session no longer exists is skipped. -/
  skipped : ∀ player, ∀ round ∈ rounds log, (player, none) ∈ round.handled →
    player.session ∈ system.expired
  received : ∀ player, receivedBy player log =
    (rounds log).flatMap fun round => round.received player
  /-- Two players see the messages that both receive in the same order. -/
  agreement : (appended log).Nodup → ∀ first second,
    (receivedBy first log).filter (fun buffer => decide (buffer ∈ receivedBy second log)) =
      (receivedBy second log).filter (fun buffer => decide (buffer ∈ receivedBy first log))

theorem System.History.interval {M : Type} {system : System M} {log : List (Observation M)}
    (hhistory : system.History log) (player : Player) {before rounds_between after : List (Round M)}
    (hrounds : rounds log = before ++ rounds_between ++ after)
    (hpresent : ∀ round ∈ rounds_between, round.completed = true ∧ player ∈ round.players ∧
      (player, none) ∉ round.handled) :
    (rounds_between.flatMap fun round => round.received player) =
      rounds_between.flatMap Round.batch := by
  apply List.flatMap_congr
  intro round hmem
  obtain ⟨hcompleted, hplayer, halive⟩ := hpresent round hmem
  have hround := hhistory.wellFormed round (by rw [hrounds]; simp [hmem])
  exact hround.received_of_completed hcompleted hplayer halive

theorem System.History.received_sublist {M : Type} {system : System M}
    {log : List (Observation M)} (hhistory : system.History log) (player : Player) :
    (receivedBy player log).Sublist (appended log) := by
  rw [hhistory.received, hhistory.account]
  apply List.Sublist.trans _ (List.sublist_append_left _ _)
  have hwellFormed := hhistory.wellFormed
  generalize rounds log = all at hwellFormed
  induction all with
  | nil => exact List.Sublist.refl _
  | cons round all ih =>
    rw [List.flatMap_cons, List.flatMap_cons]
    apply List.Sublist.append
    · exact (hwellFormed round List.mem_cons_self).received_sublist player
    · apply ih
      intro other hmem
      exact hwellFormed other (List.mem_cons_of_mem _ hmem)

/-- In every interleaving of the threads that work on the room, all messages
    are put into one order that every player agrees with. -/
theorem totalOrder_of_exec {M : Type} [DecidableEq M] (events : List (RoomEvent M))
    (system : System M) (log : List (Observation M))
    (hexec : (roomMachine M).exec (.start M) events = some (system, log)) :
    TotalOrder system log := by
  have hhistory := System.history_of_exec hexec
  refine ⟨hhistory.account, ?_, fun player _ _ _ => hhistory.interval player, ?_, ?_,
    hhistory.received, ?_⟩
  · intro hnodup buffer hmem
    rw [hhistory.account] at hnodup hmem
    exact atOnePlace_of_nodup hnodup hmem
  · intro player round hmem hnot
    exact (hhistory.wellFormed round hmem).received_eq_nil hnot
  · intro player round hmem hskipped
    rcases (hhistory.wellFormed round hmem).outcome _ hskipped with hsent | ⟨_, hgone⟩
    · cases hsent
    · exact hgone
  · intro hnodup first second
    exact filter_mem_comm_of_sublist hnodup (hhistory.received_sublist first)
      (hhistory.received_sublist second)

/-- Two players, the second of which comes one round later. -/
def twoPlayers : List (RoomEvent Nat) :=
  [.enter_object ⟨0, true, 0⟩, .push_etc_job 0 ⟨some 7⟩, .notify_one 0, .wait, .execute,
    .swap [⟨0, ⟨0, true, 0⟩⟩], .send, .end_round, .enter_object ⟨1, true, 1⟩, .push_etc_job 1 ⟨some 8⟩,
    .wait, .notify_one 1, .execute, .swap [⟨0, ⟨0, true, 0⟩⟩, ⟨1, ⟨1, true, 1⟩⟩], .send, .send]

theorem totalOrder_of_exec_two : ∃ system log,
    (roomMachine Nat).exec (.start Nat) twoPlayers = some (system, log) ∧
      receivedBy ⟨0, true, 0⟩ log = [7, 8] ∧ receivedBy ⟨1, true, 1⟩ log = [8] ∧ TotalOrder system log := by
  have hfirst : (((roomMachine Nat).exec (.start Nat) twoPlayers).map fun result =>
    receivedBy ⟨0, true, 0⟩ result.2) = some [7, 8] := by decide
  have hsecond : (((roomMachine Nat).exec (.start Nat) twoPlayers).map fun result =>
    receivedBy ⟨1, true, 1⟩ result.2) = some [8] := by decide
  obtain ⟨⟨system, log⟩, hexec, hreceived⟩ := Option.map_eq_some_iff.mp hfirst
  rw [hexec, Option.map_some, Option.some.injEq] at hsecond
  exact ⟨system, log, hexec, hreceived, hsecond, totalOrder_of_exec _ system log hexec⟩

end topview.room
