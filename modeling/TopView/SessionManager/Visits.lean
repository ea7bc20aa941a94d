import TopView.SessionManager.Ids

open topview.transition

namespace topview.session_manager

/-- A session's player is its own, and names the session from the last step of
    `EnterRoom` on. The players that have entered are the entries of `_players`. -/
structure Directory.Populated (directory : Directory) (log : List DirectoryObservation) :
    Prop where
  entered_lt : ∀ index, .entered index ∈ log → index < directory.visits.length
  outside : ∀ index pc, directory.visits[index]? = some (none, pc) → .entered index ∉ log
  inside : ∀ (index pointer : Nat) (pc : EnterPc),
    directory.visits[index]? = some (some pointer, pc) → ∃ player : Player, directory.objects[pointer]? = some player ∧
      (pc = .idle ↔ .entered index ∈ log) ∧
      (pc = .idle ∨ pc = .enter_object → player.session = some index)
  own : ∀ (index other pointer : Nat) (pc pc' : EnterPc),
    directory.visits[index]? = some (some pointer, pc) →
      directory.visits[other]? = some (some pointer, pc') → index = other
  lookup_iff : ∀ key pointer, directory.players.lookup key = some pointer ↔
    key = BitVec.ofNat 32 pointer ∧ ∃ index pc,
      directory.visits[index]? = some (some pointer, pc) ∧ .entered index ∈ log

theorem Directory.visits_eq_some {directory : Directory} {index : Nat} {session : Session}
    (hsession : directory.made[index]? = some session) :
    directory.visits[index]? = some (session.player, session.enter_room) := by
  rw [Directory.visits, List.getElem?_map, hsession]
  rfl

theorem Directory.Numbered.object_id {directory : Directory} {log : List DirectoryObservation}
    (hnumbered : directory.Numbered log) {pointer : Nat} {player : Player}
    (hplayer : directory.objects[pointer]? = some player) :
    pointer < setIdCalls log ∧ player.object_id = BitVec.ofNat 32 pointer := by
  have hid : directory.object_ids[pointer]? = some player.object_id := by
    rw [Directory.object_ids, List.getElem?_map, hplayer]
    rfl
  rwa [hnumbered.object_ids, getElem?_firstIds_eq_some_iff] at hid

theorem Directory.populated_start : Directory.start.Populated [] := by
  refine ⟨by simp, ?_, ?_, ?_, ?_⟩
  · intro index pc hvisit
    cases hvisit
  · intro index pointer pc hvisit
    cases hvisit
  · intro index other pointer pc pc' hvisit
    cases hvisit
  · intro key pointer
    constructor
    · intro hlookup
      cases hlookup
    · rintro ⟨_, index, pc, hvisit, _⟩
      cases hvisit

/-- A step that leaves the players and the visits alone. -/
theorem Directory.Populated.frame {directory next : Directory} {log : List DirectoryObservation}
    (hpopulated : directory.Populated log) (hvisits : next.visits = directory.visits)
    (hobjects : next.objects = directory.objects) (hplayers : next.players = directory.players)
    {emitted : List DirectoryObservation} (hemitted : ∀ index, .entered index ∉ emitted) :
    next.Populated (log ++ emitted) := by
  have hentered : ∀ index, .entered index ∈ log ++ emitted ↔ .entered index ∈ log := by
    intro index
    rw [List.mem_append, or_iff_left (hemitted index)]
  refine ⟨?_, ?_, ?_, ?_, ?_⟩
  · simpa only [hentered, hvisits] using hpopulated.entered_lt
  · simpa only [hentered, hvisits] using hpopulated.outside
  · simpa only [hentered, hvisits, hobjects] using hpopulated.inside
  · simpa only [hvisits] using hpopulated.own
  · simpa only [hentered, hvisits, hplayers] using hpopulated.lookup_iff

/-- A session that is made has no player. -/
theorem Directory.Populated.add_session {directory : Directory} {log : List DirectoryObservation}
    (hpopulated : directory.Populated log) :
    Directory.Populated { directory with
        client_no := directory.client_no + 1
        made := directory.made ++ [.new directory.client_no]
        adding := directory.adding ++ [directory.made.length] } log := by
  have hvisits : (directory.made ++ [Session.new directory.client_no]).map
      (fun session => (session.player, session.enter_room)) =
      directory.visits ++ [(none, .idle)] := by
    rw [List.map_append]
    rfl
  refine ⟨?_, ?_, ?_, ?_, ?_⟩
  · intro index hentered
    have hlt := hpopulated.entered_lt index hentered
    rw [Directory.visits, hvisits, List.length_append]
    omega
  · intro index pc hvisit hentered
    rw [Directory.visits, hvisits, getElem?_snoc_eq_some_iff] at hvisit
    have hlt := hpopulated.entered_lt index hentered
    rcases hvisit with hbefore | ⟨hlast, _⟩
    · exact hpopulated.outside index pc hbefore hentered
    · omega
  · intro index pointer pc hvisit
    rw [Directory.visits, hvisits, getElem?_snoc_eq_some_iff, or_iff_left (by simp)] at hvisit
    exact hpopulated.inside index pointer pc hvisit
  · intro index other pointer pc pc' hfirst hsecond
    rw [Directory.visits, hvisits, getElem?_snoc_eq_some_iff, or_iff_left (by simp)]
      at hfirst hsecond
    exact hpopulated.own index other pointer pc pc' hfirst hsecond
  · intro key pointer
    rw [Directory.visits, hvisits]
    simp only [getElem?_snoc_eq_some_iff, Prod.mk.injEq, reduceCtorEq, false_and, and_false,
      or_false]
    exact hpopulated.lookup_iff key pointer

/-- `EnterRoom` of a session that has not entered goes on to `pc'`, with the
    player at `pointer`. -/
theorem Directory.Populated.visit {directory next : Directory} {log log' : List DirectoryObservation}
    (hpopulated : directory.Populated log) {index pointer : Nat} {previous : Option Nat × EnterPc}
    {pc' : EnterPc} (hold : directory.visits[index]? = some previous)
    (hnot : .entered index ∉ log)
    (hvisits : next.visits = directory.visits.set index (some pointer, pc'))
    (hown : ∀ other pc, directory.visits[other]? = some (some pointer, pc) → other = index)
    (hobjects : ∀ other, other ≠ pointer → ∀ player : Player,
      directory.objects[other]? = some player → next.objects[other]? = some player)
    (hplayer : ∃ player : Player, next.objects[pointer]? = some player ∧
      (pc' = .idle ∨ pc' = .enter_object → player.session = some index))
    (hlog : ∀ other, .entered other ∈ log' ↔ other = index ∧ pc' = .idle ∨ .entered other ∈ log)
    (hplayers : ∀ key other, next.players.lookup key = some other ↔
      pc' = .idle ∧ key = BitVec.ofNat 32 pointer ∧ other = pointer ∨
        directory.players.lookup key = some other) : next.Populated log' := by
  have hset : ∀ (other : Nat) (visit : Option Nat × EnterPc), next.visits[other]? = some visit ↔
      other = index ∧ visit = (some pointer, pc') ∨
        other ≠ index ∧ directory.visits[other]? = some visit := by
    intro other visit
    rw [hvisits, getElem?_set_eq_some_iff hold]
  have hothers : ∀ other, other ≠ index → (.entered other ∈ log' ↔ .entered other ∈ log) := by
    intro other hne
    rw [hlog, or_iff_right (fun hsame => hne hsame.1)]
  refine ⟨?_, ?_, ?_, ?_, ?_⟩
  · intro other hentered
    rw [hvisits, List.length_set]
    rcases (hlog other).mp hentered with ⟨rfl, _⟩ | hbefore
    · exact (List.getElem?_eq_some_iff.mp hold).1
    · exact hpopulated.entered_lt other hbefore
  · intro other pc hvisit
    rcases (hset other _).mp hvisit with ⟨_, hnew⟩ | ⟨hne, hbefore⟩
    · cases hnew
    · rw [hothers other hne]
      exact hpopulated.outside other pc hbefore
  · intro other pointer' pc hvisit
    rcases (hset other _).mp hvisit with ⟨rfl, hnew⟩ | ⟨hne, hbefore⟩
    · cases hnew
      obtain ⟨player, hfound, hsession⟩ := hplayer
      exact ⟨player, hfound, by simp [hlog, hnot], hsession⟩
    · obtain ⟨player, hfound, hpc, hsession⟩ := hpopulated.inside other pointer' pc hbefore
      refine ⟨player, hobjects pointer' ?_ player hfound, by rw [hothers other hne, hpc], hsession⟩
      rintro rfl
      exact hne (hown other pc hbefore)
  · intro first second pointer' pc pc'' hfirst hsecond
    rcases (hset first _).mp hfirst with ⟨rfl, hnew⟩ | ⟨hne, hbefore⟩
    · cases hnew
      rcases (hset second _).mp hsecond with ⟨rfl, _⟩ | ⟨_, hafter⟩
      · rfl
      · exact (hown second pc'' hafter).symm
    · rcases (hset second _).mp hsecond with ⟨rfl, hnew⟩ | ⟨_, hafter⟩
      · cases hnew
        exact hown first pc hbefore
      · exact hpopulated.own first second pointer' pc pc'' hbefore hafter
  · intro key other
    rw [hplayers, hpopulated.lookup_iff]
    constructor
    · rintro (⟨hidle, hkey, rfl⟩ | ⟨hkey, entered, pc, hvisit, hentered⟩)
      · exact ⟨hkey, index, pc', (hset index _).mpr (.inl ⟨rfl, rfl⟩),
          (hlog index).mpr (.inl ⟨rfl, hidle⟩)⟩
      · have hne : entered ≠ index := by
          rintro rfl
          exact hnot hentered
        exact ⟨hkey, entered, pc, (hset entered _).mpr (.inr ⟨hne, hvisit⟩),
          (hothers entered hne).mpr hentered⟩
    · rintro ⟨hkey, entered, pc, hvisit, hentered⟩
      rcases (hset entered _).mp hvisit with ⟨rfl, hnew⟩ | ⟨hne, hbefore⟩
      · cases hnew
        have hidle := ((hlog entered).mp hentered).resolve_right hnot
        exact .inl ⟨hidle.2, hkey, rfl⟩
      · exact .inr ⟨hkey, entered, pc, hbefore, (hothers entered hne).mp hentered⟩

/-- The visits when one session has changed. -/
theorem Directory.visits_set (directory : Directory) (index : Nat) {session : Session}
    {pointer : Option Nat} (hpointer : session.player = pointer) :
    (directory.made.set index session).map (fun session => (session.player, session.enter_room)) =
      directory.visits.set index (pointer, session.enter_room) := by
  rw [List.map_set, hpointer]
  rfl

/-- The player that `EnterRoom` makes belongs to no other session. -/
theorem Directory.Populated.enter_new {directory : Directory} {log : List DirectoryObservation}
    (hpopulated : directory.Populated log) {index : Nat} {session : Session}
    (hsession : directory.made[index]? = some session) (hpointer : session.player = none) :
    Directory.Populated { directory with
        made := directory.made.set index
          { session with player := some directory.objects.length, enter_room := .set_room }
        next_id := directory.next_id + 1
        objects := directory.objects ++ [.new directory.next_id] }
      (log ++ [.set_id directory.next_id]) := by
  have hold := directory.visits_eq_some hsession
  have hnot : .entered index ∉ log := by
    rw [hpointer] at hold
    exact hpopulated.outside index _ hold
  refine hpopulated.visit hold hnot (directory.visits_set index rfl) ?_ ?_ ?_ ?_ ?_
  · intro other pc hvisit
    obtain ⟨player, hplayer, _⟩ := hpopulated.inside other _ pc hvisit
    exact absurd (List.getElem?_eq_some_iff.mp hplayer).1 (Nat.lt_irrefl _)
  · intro other _ player hplayer
    exact getElem?_snoc_eq_some_iff.mpr (.inl hplayer)
  · exact ⟨.new directory.next_id, by simp, by simp⟩
  · intro other
    simp
  · intro key other
    simp

/-- The steps of `EnterRoom` between two locks write to the session's own player. -/
theorem Directory.Populated.write_player {directory : Directory}
    {log : List DirectoryObservation} (hpopulated : directory.Populated log) {index pointer : Nat}
    {session : Session} {player : Player} (hsession : directory.made[index]? = some session)
    (hpointer : session.player = some pointer)
    (hplayer : directory.objects[pointer]? = some player) (hpc : session.enter_room ≠ .idle)
    {current : Player} {pc : EnterPc} (hidle : pc ≠ .idle)
    (hcurrent : pc = .enter_object → current.session = some index) :
    Directory.Populated { directory with
        made := directory.made.set index { session with enter_room := pc }
        objects := directory.objects.set pointer current } log := by
  have hold := directory.visits_eq_some hsession
  rw [hpointer] at hold
  obtain ⟨_, _, hentered, _⟩ := hpopulated.inside index pointer _ hold
  refine hpopulated.visit hold (fun hmem => hpc (hentered.mpr hmem))
    (directory.visits_set index hpointer) ?_ ?_ ?_ ?_ ?_
  · intro other pc hvisit
    exact hpopulated.own other index pointer _ _ hvisit hold
  · intro other hne found hfound
    exact (getElem?_set_eq_some_iff hplayer).mpr (.inr ⟨hne, hfound⟩)
  · refine ⟨current, (getElem?_set_eq_some_iff hplayer).mpr (.inl ⟨rfl, rfl⟩), ?_⟩
    intro hlast
    exact hcurrent (hlast.resolve_left hidle)
  · intro other
    simp [hidle]
  · intro key other
    simp [hidle]

/-- `EnterObject` stores the player under an id that no other player has. -/
theorem Directory.Populated.enter_object {directory : Directory}
    {log : List DirectoryObservation} (hpopulated : directory.Populated log)
    (hnumbered : directory.Numbered log) (hcalls : setIdCalls log < 2 ^ 32) {index pointer : Nat}
    {session : Session} {player : Player} (hsession : directory.made[index]? = some session)
    (hpointer : session.player = some pointer)
    (hplayer : directory.objects[pointer]? = some player)
    (hpc : session.enter_room = .enter_object) :
    Directory.Populated { directory with
        made := directory.made.set index { session with enter_room := .idle }
        players := directory.players.insert player.object_id pointer }
      (log ++ [.entered index]) := by
  have hold := directory.visits_eq_some hsession
  rw [hpointer, hpc] at hold
  obtain ⟨found, hfound, hentered, hown⟩ := hpopulated.inside index pointer _ hold
  obtain rfl := Option.some.inj (hfound.symm.trans hplayer)
  have hnot : .entered index ∉ log := fun hmem => by cases hentered.mpr hmem
  obtain ⟨hdrawn, hid⟩ := hnumbered.object_id hplayer
  refine hpopulated.visit hold hnot (directory.visits_set index hpointer) ?_ ?_ ?_ ?_ ?_
  · intro other pc hvisit
    exact hpopulated.own other index pointer _ _ hvisit hold
  · intro other _ player hkept
    exact hkept
  · exact ⟨found, hplayer, fun _ => hown (.inr rfl)⟩
  · intro other
    simp [or_comm]
  · intro key other
    rw [hid]
    by_cases hkey : key = BitVec.ofNat 32 pointer
    · subst hkey
      rw [AList.lookup_insert, Option.some.injEq]
      constructor
      · rintro rfl
        exact .inl ⟨rfl, rfl, rfl⟩
      · rintro (⟨_, _, rfl⟩ | hlookup)
        · rfl
        · obtain ⟨hsame, entered, pc, hvisit, _⟩ := (hpopulated.lookup_iff _ _).mp hlookup
          obtain ⟨other', hother, _⟩ := hpopulated.inside entered other pc hvisit
          have hlt := (hnumbered.object_id hother).1
          exact eq_of_drawn_eq (by omega) (by omega) hsame
    · rw [AList.lookup_insert_ne hkey, or_iff_right]
      exact fun hnew => hkey hnew.2.1

theorem Directory.Populated.step {directory next : Directory} {event : DirectoryEvent}
    {log emitted : List DirectoryObservation} (hpopulated : directory.Populated log)
    (hnumbered : directory.Numbered log) (hcalls : setIdCalls log < 2 ^ 32)
    (hstep : directory.Step event next emitted) : next.Populated (log ++ emitted) := by
  cases hstep with
  | add_session => exact hpopulated.add_session.frame rfl rfl rfl (by simp)
  | emplace_found | emplace_new | find_some | copy =>
    apply hpopulated.frame
    · exact Directory.visits_hold _ _
    · rfl
    · rfl
    · simp
  | remove_session | find_none | enter_again =>
    apply hpopulated.frame
    · rfl
    · rfl
    · rfl
    · simp
  | release =>
    apply hpopulated.frame
    · exact @map_modify_of_eq _ _ _ Session.release (fun _ => rfl) _ _
    · rfl
    · rfl
    · simp
  | enter_new hsession hheld hidle hpointer => exact hpopulated.enter_new hsession hpointer
  | set_room hsession hpointer hplayer hpc =>
    rw [List.append_nil]
    exact hpopulated.write_player hsession hpointer hplayer (by simp [hpc]) (by simp) (by simp)
  | set_session hsession hpointer hplayer hpc =>
    rw [List.append_nil]
    exact hpopulated.write_player hsession hpointer hplayer (by simp [hpc]) (by simp)
      (fun _ => rfl)
  | enter_object hsession hpointer hplayer hpc =>
    exact hpopulated.enter_object hnumbered hcalls hsession hpointer hplayer hpc

end topview.session_manager
