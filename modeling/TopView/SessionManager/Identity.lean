import TopView.SessionManager.Table
import TopView.SessionManager.Visits

open topview.transition

namespace topview.session_manager

/-- An entry of `_players` is the player of the session. It is stored under its
    own id, the session points at it, and it gives back the session as long as
    that exists. -/
def Directory.Linked (directory : Directory) (index : Nat) (entry : (_ : BitVec 32) × Nat) :
    Prop :=
  ∃ session player, directory.made[index]? = some session ∧ session.player = some entry.2 ∧
    directory.objects[entry.2]? = some player ∧ entry.1 = player.object_id ∧
    directory.get_session player = if directory.Alive index then some index else none

/-- Sessions and players are identified by their ids. -/
structure Directory.Identified (directory : Directory) (log : List DirectoryObservation) :
    Prop where
  added_new : ∀ before index after, log = before ++ .added index :: after →
    ∀ seen ∈ before, seen.returned ≠ some index
  added_stored : ∀ before index, log = before ++ [.added index] → ∃ session : Session,
    directory.made[index]? = some session ∧
      directory.sessions.lookup session.session_id = some index
  found_iff : ∀ before id result after, log = before ++ .found id result :: after →
    ∀ index, result = some index ↔ Registered before id index
  entry_of_entered : ∀ index, .entered index ∈ log →
    ∃! entry, entry ∈ directory.players.entries ∧ directory.Linked index entry
  entered_of_entry : ∀ entry ∈ directory.players.entries,
    ∃! index, .entered index ∈ log ∧ directory.Linked index entry

theorem numbered_of_exec {events : List DirectoryEvent} {final : Directory}
    {log : List DirectoryObservation}
    (hexec : directoryMachine.exec .start events = some (final, log)) : final.Numbered log := by
  refine directoryMachine.exec_induct (fun _ directory log => directory.Numbered log)
    Directory.numbered_start ?_ events final log hexec
  intro _ directory log event next emitted _ hnumbered hstep
  exact hnumbered.step (Directory.step_cases hstep)

theorem tabled_of_exec {events : List DirectoryEvent} {final : Directory}
    {log : List DirectoryObservation}
    (hexec : directoryMachine.exec .start events = some (final, log))
    (hcalls : addSessionCalls log < 2 ^ 32) : final.Tabled log := by
  refine directoryMachine.exec_induct
    (fun _ directory log => addSessionCalls log < 2 ^ 32 → directory.Tabled log)
    (fun _ => Directory.tabled_start) ?_ events final log hexec hcalls
  intro events directory log event next emitted hexec ih hstep hcalls
  rw [addSessionCalls_append] at hcalls
  exact (ih (by omega)).step (numbered_of_exec hexec) (by omega) (Directory.step_cases hstep)

theorem populated_of_exec {events : List DirectoryEvent} {final : Directory}
    {log : List DirectoryObservation}
    (hexec : directoryMachine.exec .start events = some (final, log))
    (hcalls : setIdCalls log < 2 ^ 32) : final.Populated log := by
  refine directoryMachine.exec_induct
    (fun _ directory log => setIdCalls log < 2 ^ 32 → directory.Populated log)
    (fun _ => Directory.populated_start) ?_ events final log hexec hcalls
  intro events directory log event next emitted hexec ih hstep hcalls
  rw [setIdCalls_append] at hcalls
  exact (ih (by omega)).step (numbered_of_exec hexec) (by omega) (Directory.step_cases hstep)

/-- A step emits at most one observation. -/
theorem Directory.Step.emitted_singleton {directory next : Directory} {event : DirectoryEvent}
    {left right : List DirectoryObservation} {seen : DirectoryObservation}
    (hstep : directory.Step event next (left ++ seen :: right)) :
    left = [] ∧ directory.Step event next [seen] := by
  have hlength : (left ++ seen :: right).length ≤ 1 := by
    generalize left ++ seen :: right = emitted at hstep
    cases hstep <;> simp
  rw [List.length_append, List.length_cons] at hlength
  have hleft : left = [] := List.length_eq_zero_iff.mp (by omega)
  have hright : right = [] := List.length_eq_zero_iff.mp (by omega)
  subst hleft hright
  exact ⟨rfl, hstep⟩

/-- The step of a run that an observation comes from. -/
theorem step_of_log {events : List DirectoryEvent} {final : Directory}
    {before after : List DirectoryObservation} {seen : DirectoryObservation}
    (hexec : directoryMachine.exec .start events = some (final, before ++ seen :: after)) :
    ∃ first directory event next, directoryMachine.exec .start first = some (directory, before) ∧
      directory.Step event next [seen] := by
  obtain ⟨first, event, _, directory, next, earlier, left, right, _, hfirst, hstep, _, rfl⟩ :=
    directoryMachine.exec_split hexec
  obtain ⟨rfl, hone⟩ := (Directory.step_cases hstep).emitted_singleton
  rw [List.append_nil] at hexec ⊢
  exact ⟨first, directory, event, next, hfirst, hone⟩

/-- `AddSession` returns the session that it has made. -/
theorem Directory.Tabled.adding_of_added {directory next : Directory} {event : DirectoryEvent}
    {log : List DirectoryObservation} {index : Nat} (htabled : directory.Tabled log)
    (hnumbered : directory.Numbered log) (hcalls : addSessionCalls log < 2 ^ 32)
    (hstep : directory.Step event next [.added index]) : index ∈ directory.adding := by
  cases hstep with
  | emplace_found hadding hsession hfound =>
    rw [htabled.lookup_of_adding hnumbered hcalls hadding hsession] at hfound
    cases hfound
  | emplace_new hadding => exact hadding

theorem Directory.Step.lookup_of_found {directory next : Directory} {event : DirectoryEvent}
    {id : BitVec 32} {result : Option Nat} (hstep : directory.Step event next [.found id result]) :
    directory.sessions.lookup id = result := by
  cases hstep with
  | find_some hfound => exact hfound
  | find_none hnone => exact hnone

/-- A session that has entered is linked to one entry, that of its player. -/
theorem Directory.Populated.linked_iff {directory : Directory} {log : List DirectoryObservation}
    (hpopulated : directory.Populated log) (hnumbered : directory.Numbered log) {index : Nat}
    (hentered : .entered index ∈ log) :
    ∃ pointer pc, directory.visits[index]? = some (some pointer, pc) ∧
      ∀ entry, directory.Linked index entry ↔ entry = ⟨BitVec.ofNat 32 pointer, pointer⟩ := by
  have hlt := hpopulated.entered_lt index hentered
  rw [Directory.visits, List.length_map] at hlt
  have hsession := List.getElem?_eq_getElem hlt
  have hvisit := directory.visits_eq_some hsession
  cases hpointer : directory.made[index].player with
  | none =>
    rw [hpointer] at hvisit
    exact absurd hentered (hpopulated.outside index _ hvisit)
  | some pointer =>
    rw [hpointer] at hvisit
    obtain ⟨player, hplayer, hidle, hown⟩ := hpopulated.inside index pointer _ hvisit
    have hback := hown (.inl (hidle.mpr hentered))
    have hid := (hnumbered.object_id hplayer).2
    refine ⟨pointer, _, hvisit, ?_⟩
    rintro ⟨key, other⟩
    constructor
    · rintro ⟨session, found, hmade, hother, hfound, hkey, _⟩
      obtain rfl := Option.some.inj (hsession.symm.trans hmade)
      obtain rfl := Option.some.inj (hpointer.symm.trans hother)
      obtain rfl := Option.some.inj (hplayer.symm.trans hfound)
      simp only at hkey
      rw [hkey, hid]
    · rintro ⟨⟩
      refine ⟨_, player, hsession, hpointer, hplayer, hid.symm, ?_⟩
      rw [Directory.get_session, hback]
      simp [Option.filter]

/-- In every run in which neither counter wraps, sessions and players are
    identified by their ids, in the state that is reached and at every return on
    the way. -/
theorem identified_of_exec (events : List DirectoryEvent) (final : Directory)
    (log : List DirectoryObservation)
    (hexec : directoryMachine.exec .start events = some (final, log))
    (hadd : addSessionCalls log < 2 ^ 32) (hset : setIdCalls log < 2 ^ 32) :
    final.Identified log := by
  have hnumbered := numbered_of_exec hexec
  have htabled := tabled_of_exec hexec hadd
  have hpopulated := populated_of_exec hexec hset
  refine ⟨?_, ?_, ?_, ?_, ?_⟩
  · rintro before index after rfl seen hseen hreturned
    rw [addSessionCalls_append] at hadd
    obtain ⟨first, directory, event, next, hfirst, hstep⟩ := step_of_log hexec
    have hbefore := tabled_of_exec hfirst (by omega)
    have hadding := hbefore.adding_of_added (numbered_of_exec hfirst) (by omega) hstep
    exact (hbefore.returned seen hseen index hreturned).2 hadding
  · rintro before index rfl
    have hlt := (htabled.returned (.added index) (by simp) index rfl).1
    rw [Directory.ids, List.length_map] at hlt
    refine ⟨_, List.getElem?_eq_getElem hlt, ?_⟩
    rw [htabled.lookup_iff]
    refine ⟨?_, before, [], rfl, by simp⟩
    rw [hnumbered.created_iff, Directory.ids, List.getElem?_map, List.getElem?_eq_getElem hlt]
    rfl
  · rintro before id result after rfl index
    rw [addSessionCalls_append] at hadd
    obtain ⟨first, directory, event, next, hfirst, hstep⟩ := step_of_log hexec
    have hbefore := tabled_of_exec hfirst (by omega)
    rw [← hbefore.lookup_iff, hstep.lookup_of_found]
  · intro index hentered
    obtain ⟨pointer, pc, hvisit, hlinked⟩ := hpopulated.linked_iff hnumbered hentered
    refine ⟨⟨BitVec.ofNat 32 pointer, pointer⟩, ⟨?_, (hlinked _).mpr rfl⟩, ?_⟩
    · rw [← AList.mem_lookup_iff, Option.mem_def, hpopulated.lookup_iff]
      exact ⟨rfl, index, pc, hvisit, hentered⟩
    · intro entry hentry
      exact (hlinked entry).mp hentry.2
  · rintro ⟨key, pointer⟩ hmem
    rw [← AList.mem_lookup_iff, Option.mem_def, hpopulated.lookup_iff] at hmem
    obtain ⟨rfl, index, pc, hvisit, hentered⟩ := hmem
    obtain ⟨pointer', pc', hvisit', hlinked⟩ := hpopulated.linked_iff hnumbered hentered
    obtain ⟨rfl, rfl⟩ : pointer = pointer' ∧ pc = pc' := by
      simpa using hvisit.symm.trans hvisit'
    refine ⟨index, ⟨hentered, (hlinked _).mpr rfl⟩, ?_⟩
    rintro other ⟨_, session, player, hsession, hpointer, _⟩
    have hother := final.visits_eq_some hsession
    rw [hpointer] at hother
    exact hpopulated.own other index pointer _ _ hother hvisit

/-- Two sessions are added at once, the second takes the lock first. The first
    enters the room, twice called, and is then removed and dropped. -/
def twoSessions : List DirectoryEvent :=
  [.add_session, .add_session, .emplace 1, .find_session 0, .emplace 0, .find_session 0,
    .enter_room 0, .next_lock 0, .enter_room 1, .next_lock 0, .next_lock 0, .enter_room 0,
    .remove_session 0, .find_session 0, .release 0, .release 0]

theorem identified_of_exec_twoSessions :
    ∃ final log, directoryMachine.exec .start twoSessions = some (final, log) ∧
      .found 0 (some 0) ∈ log ∧ .entered 0 ∈ log ∧ ¬ final.Alive 0 ∧ final.Identified log :=
  ⟨_, _, rfl, by decide, by decide, by decide,
    identified_of_exec twoSessions _ _ rfl (by decide) (by decide)⟩

end topview.session_manager
