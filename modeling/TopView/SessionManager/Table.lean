import TopView.SessionManager.Ids

open topview.transition

namespace topview.session_manager

/-- The session that a call has returned. -/
def DirectoryObservation.returned : DirectoryObservation → Option Nat
  | .added index => some index
  | .found _ result => result
  | _ => none

/-- The session was created with this id, and it has been inserted and not been
    removed since. -/
def Registered (log : List DirectoryObservation) (id : BitVec 32) (index : Nat) : Prop :=
  .created index id ∈ log ∧ Standing (.added index) (.removed id) log

/-- A session that is being added has not been returned yet. The map holds the
    sessions that are registered. -/
structure Directory.Tabled (directory : Directory) (log : List DirectoryObservation) : Prop where
  returned : ∀ seen ∈ log, ∀ index, seen.returned = some index →
    index < directory.ids.length ∧ index ∉ directory.adding
  adding_lt : ∀ index ∈ directory.adding, index < directory.ids.length
  nodup : directory.adding.Nodup
  lookup_iff : ∀ id index, directory.sessions.lookup id = some index ↔ Registered log id index

theorem Registered.added_mem {log : List DirectoryObservation} {id : BitVec 32} {index : Nat}
    (hregistered : Registered log id index) : .added index ∈ log := hregistered.2.mem

theorem registered_removed_iff {log : List DirectoryObservation} {id other : BitVec 32}
    {index : Nat} :
    Registered (log ++ [.removed id]) other index ↔ other ≠ id ∧ Registered log other index := by
  have hcreated : .created index other ∈ log ++ [DirectoryObservation.removed id] ↔
      .created index other ∈ log := by simp
  have hstanding : Standing (.added index) (.removed other)
        (log ++ [DirectoryObservation.removed id]) ↔
      other ≠ id ∧ Standing (.added index) (.removed other) log := by
    rw [standing_snoc_iff, or_iff_right (by simp), ne_eq, DirectoryObservation.removed.injEq,
      @eq_comm _ id]
  rw [Registered, hcreated, hstanding, and_left_comm, Registered]

theorem registered_added_iff {log : List DirectoryObservation} {id : BitVec 32}
    {added index : Nat} :
    Registered (log ++ [.added added]) id index ↔
      .created index id ∈ log ∧ index = added ∨ Registered log id index := by
  have hcreated : .created index id ∈ log ++ [DirectoryObservation.added added] ↔
      .created index id ∈ log := by simp
  have hstanding : Standing (.added index) (.removed id)
        (log ++ [DirectoryObservation.added added]) ↔
      index = added ∨ Standing (.added index) (.removed id) log := by
    rw [standing_snoc_iff, and_iff_right (by simp), DirectoryObservation.added.injEq,
      @eq_comm _ added]
  rw [Registered, hcreated, hstanding, and_or_left, Registered]

/-- What neither creates nor inserts nor removes a session does not change what
    is registered. -/
theorem registered_other_iff {log : List DirectoryObservation} {seen : DirectoryObservation}
    {id : BitVec 32} {index : Nat} (hcreated : seen ≠ .created index id)
    (hadded : seen ≠ .added index) (hremoved : seen ≠ .removed id) :
    Registered (log ++ [seen]) id index ↔ Registered log id index := by
  have hmem : .created index id ∈ log ++ [seen] ↔ .created index id ∈ log := by
    rw [List.mem_append, List.mem_singleton, or_iff_left hcreated.symm]
  rw [Registered, hmem, standing_snoc_iff, or_iff_right hadded, and_iff_right hremoved, Registered]

theorem Directory.tabled_start : Directory.start.Tabled [] := by
  refine ⟨by simp, ?_, List.nodup_nil, ?_⟩
  · intro index hmem
    cases hmem
  · intro id index
    constructor
    · intro hlookup
      cases hlookup
    · intro hregistered
      cases hregistered.added_mem

/-- What is registered has been returned. -/
theorem Directory.Tabled.of_lookup {directory : Directory} {log : List DirectoryObservation}
    (htabled : directory.Tabled log) {id : BitVec 32} {index : Nat}
    (hlookup : directory.sessions.lookup id = some index) :
    index < directory.ids.length ∧ index ∉ directory.adding :=
  htabled.returned _ ((htabled.lookup_iff id index).mp hlookup).added_mem index rfl

/-- A step that leaves the map and the ids alone. -/
theorem Directory.Tabled.frame {directory next : Directory} {log : List DirectoryObservation}
    (htabled : directory.Tabled log) (hids : next.ids = directory.ids)
    (hadding : next.adding = directory.adding) (hsessions : next.sessions = directory.sessions) :
    next.Tabled log := by
  refine ⟨?_, ?_, ?_, ?_⟩
  · rw [hids, hadding]
    exact htabled.returned
  · rw [hids, hadding]
    exact htabled.adding_lt
  · rw [hadding]
    exact htabled.nodup
  · rw [hsessions]
    exact htabled.lookup_iff

/-- An observation that is not about the map, or about what it holds. -/
theorem Directory.Tabled.observe {directory : Directory} {log : List DirectoryObservation}
    (htabled : directory.Tabled log) {seen : DirectoryObservation}
    (hreturned : ∀ index, seen.returned = some index →
      index < directory.ids.length ∧ index ∉ directory.adding)
    (hcreated : ∀ index id, seen ≠ .created index id) (hadded : ∀ index, seen ≠ .added index)
    (hremoved : ∀ id, seen ≠ .removed id) : directory.Tabled (log ++ [seen]) := by
  refine ⟨?_, htabled.adding_lt, htabled.nodup, ?_⟩
  · rw [List.forall_mem_append, List.forall_mem_singleton]
    exact ⟨htabled.returned, hreturned⟩
  · intro id index
    rw [registered_other_iff (hcreated index id) (hadded index) (hremoved id)]
    exact htabled.lookup_iff id index

theorem Directory.Tabled.add_session {directory : Directory} {log : List DirectoryObservation}
    (htabled : directory.Tabled log) :
    Directory.Tabled { directory with
        client_no := directory.client_no + 1
        made := directory.made ++ [.new directory.client_no]
        adding := directory.adding ++ [directory.made.length] }
      (log ++ [.created directory.made.length directory.client_no]) := by
  have hlength : directory.ids.length = directory.made.length := List.length_map _
  have hgrown : ((directory.made ++ [Session.new directory.client_no]).map
      Session.session_id).length = directory.made.length + 1 := by simp
  refine ⟨?_, ?_, ?_, ?_⟩
  · rw [List.forall_mem_append, List.forall_mem_singleton]
    refine ⟨?_, fun _ hnone => by cases hnone⟩
    intro seen hbefore index hreturned
    obtain ⟨hlt, hnot⟩ := htabled.returned seen hbefore index hreturned
    refine ⟨by rw [Directory.ids, hgrown]; omega, ?_⟩
    rw [List.mem_append, not_or, List.mem_singleton]
    exact ⟨hnot, by omega⟩
  · rw [Directory.ids, hgrown, List.forall_mem_append, List.forall_mem_singleton]
    refine ⟨?_, Nat.lt_succ_self _⟩
    intro index hbefore
    have hlt := htabled.adding_lt index hbefore
    omega
  · refine List.nodup_append.mpr ⟨htabled.nodup, List.nodup_singleton _, ?_⟩
    intro index hmem last hlast
    rw [List.mem_singleton.mp hlast]
    have hlt := htabled.adding_lt index hmem
    omega
  · intro id index
    rw [htabled.lookup_iff]
    -- a session that has been inserted is not the one that is made now
    constructor
    · intro hregistered
      refine ⟨List.mem_append_left _ hregistered.1, standing_snoc_iff.mpr (.inr ⟨?_, hregistered.2⟩)⟩
      simp
    · intro hregistered
      rw [Registered, standing_snoc_iff, or_iff_right (by simp)] at hregistered
      obtain ⟨hcreated, _, hstanding⟩ := hregistered
      have hlt := (htabled.returned _ hstanding.mem index rfl).1
      rcases List.mem_append.mp hcreated with hbefore | hlast
      · exact ⟨hbefore, hstanding⟩
      · rw [List.mem_singleton, DirectoryObservation.created.injEq] at hlast
        omega

/-- As long as the ids have not wrapped, an added session finds no entry under
    its id. -/
theorem Directory.Tabled.lookup_of_adding {directory : Directory}
    {log : List DirectoryObservation} (htabled : directory.Tabled log)
    (hnumbered : directory.Numbered log) (hcalls : addSessionCalls log < 2 ^ 32) {index : Nat}
    {session : Session} (hadding : index ∈ directory.adding)
    (hsession : directory.made[index]? = some session) :
    directory.sessions.lookup session.session_id = none := by
  cases hlookup : directory.sessions.lookup session.session_id with
  | none => rfl
  | some other =>
    obtain ⟨_, hother⟩ := htabled.of_lookup hlookup
    have hcreated := ((htabled.lookup_iff _ _).mp hlookup).1
    rw [hnumbered.created_iff, hnumbered.ids, getElem?_firstIds_eq_some_iff] at hcreated
    have hid : directory.ids[index]? = some session.session_id := by
      rw [Directory.ids, List.getElem?_map, hsession]
      rfl
    rw [hnumbered.ids, getElem?_firstIds_eq_some_iff] at hid
    have hsame : other = index :=
      eq_of_drawn_eq (by omega) (by omega) (hcreated.2.symm.trans hid.2)
    rw [hsame] at hother
    exact absurd hadding hother

theorem Directory.Tabled.emplace_new {directory : Directory} {log : List DirectoryObservation}
    (htabled : directory.Tabled log) (hnumbered : directory.Numbered log) {index : Nat}
    {session : Session} (hadding : index ∈ directory.adding)
    (hsession : directory.made[index]? = some session)
    (hnew : directory.sessions.lookup session.session_id = none) :
    Directory.Tabled { directory with
        adding := directory.adding.erase index
        sessions := directory.sessions.insert session.session_id index }
      (log ++ [.added index]) := by
  have hcreated : ∀ id, .created index id ∈ log ↔ id = session.session_id := by
    intro id
    rw [hnumbered.created_iff, Directory.ids, List.getElem?_map, hsession, Option.map_some,
      Option.some.injEq, eq_comm]
  refine ⟨?_, ?_, htabled.nodup.erase index, ?_⟩
  · rw [List.forall_mem_append, List.forall_mem_singleton]
    constructor
    · intro seen hbefore other hreturned
      obtain ⟨hlt, hnot⟩ := htabled.returned seen hbefore other hreturned
      exact ⟨hlt, fun hkept => hnot (List.mem_of_mem_erase hkept)⟩
    · intro other hreturned
      obtain rfl := Option.some.inj hreturned
      exact ⟨htabled.adding_lt index hadding, htabled.nodup.not_mem_erase⟩
  · intro other hmem
    exact htabled.adding_lt other (List.mem_of_mem_erase hmem)
  · intro id other
    rw [registered_added_iff]
    by_cases hid : id = session.session_id
    · subst hid
      rw [AList.lookup_insert, Option.some.injEq, ← htabled.lookup_iff, hnew]
      constructor
      · rintro rfl
        exact .inl ⟨(hcreated _).mpr rfl, rfl⟩
      · rintro (⟨_, rfl⟩ | hnone)
        · rfl
        · cases hnone
    · rw [AList.lookup_insert_ne hid, htabled.lookup_iff, or_iff_right]
      rintro ⟨hother, rfl⟩
      exact hid ((hcreated id).mp hother)

theorem Directory.Tabled.remove_session {directory : Directory} {log : List DirectoryObservation}
    (htabled : directory.Tabled log) (id : BitVec 32) :
    Directory.Tabled { directory with sessions := directory.sessions.erase id }
      (log ++ [.removed id]) := by
  refine ⟨?_, htabled.adding_lt, htabled.nodup, ?_⟩
  · rw [List.forall_mem_append, List.forall_mem_singleton]
    exact ⟨htabled.returned, fun _ hnone => by cases hnone⟩
  · intro other index
    rw [registered_removed_iff]
    by_cases hid : other = id
    · subst hid
      rw [AList.lookup_erase]
      simp
    · rw [AList.lookup_erase_ne hid, htabled.lookup_iff, and_iff_right hid]

theorem Directory.Tabled.step {directory next : Directory} {event : DirectoryEvent}
    {log emitted : List DirectoryObservation} (htabled : directory.Tabled log)
    (hnumbered : directory.Numbered log) (hcalls : addSessionCalls log < 2 ^ 32)
    (hstep : directory.Step event next emitted) : next.Tabled (log ++ emitted) := by
  cases hstep with
  | add_session => exact htabled.add_session
  | emplace_found hadding hsession hfound =>
    rw [htabled.lookup_of_adding hnumbered hcalls hadding hsession] at hfound
    cases hfound
  | emplace_new hadding hsession hnew =>
    exact (htabled.emplace_new hnumbered hadding hsession hnew).frame (Directory.ids_hold _ _) rfl rfl
  | remove_session => exact htabled.remove_session _
  | find_some hfound =>
    refine @Directory.Tabled.frame directory _ _ ?_ (Directory.ids_hold _ _) rfl rfl
    refine htabled.observe ?_ (by simp) (by simp) (by simp)
    intro index hreturned
    obtain rfl := Option.some.inj hreturned
    exact htabled.of_lookup hfound
  | find_none => exact htabled.observe (fun _ hnone => by cases hnone) (by simp) (by simp) (by simp)
  | copy =>
    rw [List.append_nil]
    exact htabled.frame (Directory.ids_hold _ _) rfl rfl
  | release =>
    rw [List.append_nil]
    exact htabled.frame (@map_modify_of_eq _ _ _ Session.release (fun _ => rfl) _ _) rfl rfl
  | enter_again =>
    rw [List.append_nil]
    exact htabled
  | enter_new hsession =>
    refine @Directory.Tabled.frame directory _ _ ?_ (map_set_of_eq hsession rfl) rfl rfl
    exact htabled.observe (fun _ hnone => by cases hnone) (by simp) (by simp) (by simp)
  | set_room hsession | set_session hsession =>
    rw [List.append_nil]
    exact htabled.frame (map_set_of_eq hsession rfl) rfl rfl
  | enter_object hsession =>
    refine @Directory.Tabled.frame directory _ _ ?_ (map_set_of_eq hsession rfl) rfl rfl
    exact htabled.observe (fun _ hnone => by cases hnone) (by simp) (by simp) (by simp)

end topview.session_manager
