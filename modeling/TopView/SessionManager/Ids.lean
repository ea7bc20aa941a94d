import TopView.SessionManager.Step
import TopView.Transition.Heap

open topview.transition

namespace topview.session_manager

/-- The observation is that of an `AddSession` call that has drawn its id. -/
def DirectoryObservation.isCreated : DirectoryObservation → Bool
  | .created _ _ => true
  | _ => false

/-- The observation is that of a `SetId` call. -/
def DirectoryObservation.isSetId : DirectoryObservation → Bool
  | .set_id _ => true
  | _ => false

/-- How many calls of `AddSession` there have been. -/
def addSessionCalls (log : List DirectoryObservation) : Nat :=
  log.countP DirectoryObservation.isCreated

/-- How many calls of `SetId` there have been. -/
def setIdCalls (log : List DirectoryObservation) : Nat := log.countP DirectoryObservation.isSetId

/-- The ids of the sessions. -/
def Directory.ids (directory : Directory) : List (BitVec 32) :=
  directory.made.map Session.session_id

/-- The players of the sessions, and where their `EnterRoom` is. -/
def Directory.visits (directory : Directory) : List (Option Nat × EnterPc) :=
  directory.made.map fun session => (session.player, session.enter_room)

/-- The ids of the players. -/
def Directory.object_ids (directory : Directory) : List (BitVec 32) :=
  directory.objects.map Player.object_id

/-- The first ids that a counter gives. -/
def firstIds (count : Nat) : List (BitVec 32) := (List.range count).map (BitVec.ofNat 32)

/-- Ids are drawn in order. Each session that has been created has its own. -/
structure Directory.Numbered (directory : Directory) (log : List DirectoryObservation) :
    Prop where
  client_no : directory.client_no = BitVec.ofNat 32 (addSessionCalls log)
  ids : directory.ids = firstIds (addSessionCalls log)
  next_id : directory.next_id = BitVec.ofNat 32 (setIdCalls log)
  object_ids : directory.object_ids = firstIds (setIdCalls log)
  created_iff : ∀ index id, .created index id ∈ log ↔ directory.ids[index]? = some id

theorem addSessionCalls_append (first second : List DirectoryObservation) :
    addSessionCalls (first ++ second) = addSessionCalls first + addSessionCalls second :=
  List.countP_append

theorem setIdCalls_append (first second : List DirectoryObservation) :
    setIdCalls (first ++ second) = setIdCalls first + setIdCalls second :=
  List.countP_append

@[simp] theorem Directory.ids_hold (directory : Directory) (index : Nat) :
    (directory.hold index).ids = directory.ids :=
  @map_modify_of_eq _ _ _ Session.hold (fun _ => rfl) directory.made index

@[simp] theorem Directory.visits_hold (directory : Directory) (index : Nat) :
    (directory.hold index).visits = directory.visits :=
  @map_modify_of_eq _ _ _ Session.hold (fun _ => rfl) directory.made index

theorem firstIds_succ (count : Nat) :
    firstIds (count + 1) = firstIds count ++ [BitVec.ofNat 32 count] := by
  rw [firstIds, List.range_succ, List.map_append]
  rfl

theorem getElem?_firstIds_eq_some_iff {count index : Nat} {id : BitVec 32} :
    (firstIds count)[index]? = some id ↔ index < count ∧ id = BitVec.ofNat 32 index := by
  rw [firstIds, List.getElem?_map, Option.map_eq_some_iff]
  simp only [List.getElem?_eq_some_iff, List.length_range, List.getElem_range]
  constructor
  · rintro ⟨_, ⟨hlt, rfl⟩, rfl⟩
    exact ⟨hlt, rfl⟩
  · rintro ⟨hlt, rfl⟩
    exact ⟨index, ⟨hlt, rfl⟩, rfl⟩

theorem Directory.numbered_start : Directory.start.Numbered [] := by
  refine ⟨rfl, rfl, rfl, rfl, ?_⟩
  intro index id
  constructor
  · intro hmem
    cases hmem
  · intro hid
    cases hid

/-- A step that draws no id leaves the ids alone. -/
theorem Directory.Numbered.quiet {directory next : Directory} {log : List DirectoryObservation}
    (hnumbered : directory.Numbered log) {emitted : List DirectoryObservation}
    (hclient : next.client_no = directory.client_no) (hids : next.ids = directory.ids)
    (hnext : next.next_id = directory.next_id) (hobjects : next.object_ids = directory.object_ids)
    (hcreated : addSessionCalls emitted = 0) (hset : setIdCalls emitted = 0) :
    next.Numbered (log ++ emitted) := by
  have hcalls : addSessionCalls (log ++ emitted) = addSessionCalls log := by
    rw [addSessionCalls_append, hcreated, Nat.add_zero]
  have hsets : setIdCalls (log ++ emitted) = setIdCalls log := by
    rw [setIdCalls_append, hset, Nat.add_zero]
  refine ⟨?_, ?_, ?_, ?_, ?_⟩
  · rw [hclient, hcalls, hnumbered.client_no]
  · rw [hids, hcalls, hnumbered.ids]
  · rw [hnext, hsets, hnumbered.next_id]
  · rw [hobjects, hsets, hnumbered.object_ids]
  · intro index id
    rw [hids, List.mem_append, hnumbered.created_iff, or_iff_left]
    intro hmem
    have hnone := List.countP_eq_zero.mp hcreated _ hmem
    exact hnone rfl

theorem Directory.Numbered.add_session {directory : Directory} {log : List DirectoryObservation}
    (hnumbered : directory.Numbered log) :
    Directory.Numbered { directory with
        client_no := directory.client_no + 1
        made := directory.made ++ [.new directory.client_no]
        adding := directory.adding ++ [directory.made.length] }
      (log ++ [.created directory.made.length directory.client_no]) := by
  have hcalls : addSessionCalls
      (log ++ [.created directory.made.length directory.client_no]) = addSessionCalls log + 1 :=
    addSessionCalls_append log _
  have hsets : setIdCalls
      (log ++ [.created directory.made.length directory.client_no]) = setIdCalls log :=
    setIdCalls_append log _
  have hids : (directory.made ++ [Session.new directory.client_no]).map Session.session_id =
      directory.ids ++ [directory.client_no] := by
    rw [List.map_append]
    rfl
  refine ⟨?_, ?_, ?_, ?_, ?_⟩
  · rw [hcalls, BitVec.ofNat_add, ← hnumbered.client_no]
    rfl
  · rw [hcalls, firstIds_succ, ← hnumbered.ids, ← hnumbered.client_no]
    exact hids
  · rw [hsets]
    exact hnumbered.next_id
  · rw [hsets]
    exact hnumbered.object_ids
  · intro index id
    rw [Directory.ids, hids, List.mem_append, hnumbered.created_iff, List.mem_singleton,
      DirectoryObservation.created.injEq, getElem?_snoc_eq_some_iff, Directory.ids, List.length_map,
      @eq_comm _ id]

theorem Directory.Numbered.enter_new {directory : Directory} {log : List DirectoryObservation}
    (hnumbered : directory.Numbered log) {index : Nat} {session : Session}
    (hsession : directory.made[index]? = some session) :
    Directory.Numbered { directory with
        made := directory.made.set index
          { session with player := some directory.objects.length, enter_room := .set_room }
        next_id := directory.next_id + 1
        objects := directory.objects ++ [.new directory.next_id] }
      (log ++ [.set_id directory.next_id]) := by
  have hcalls : addSessionCalls (log ++ [.set_id directory.next_id]) = addSessionCalls log :=
    addSessionCalls_append log _
  have hsets : setIdCalls (log ++ [.set_id directory.next_id]) = setIdCalls log + 1 :=
    setIdCalls_append log _
  have hids : (directory.made.set index { session with
      player := some directory.objects.length, enter_room := .set_room }).map
      Session.session_id = directory.ids := map_set_of_eq hsession rfl
  refine ⟨?_, ?_, ?_, ?_, ?_⟩
  · rw [hcalls]
    exact hnumbered.client_no
  · rw [hcalls, ← hnumbered.ids]
    exact hids
  · rw [hsets, BitVec.ofNat_add, ← hnumbered.next_id]
    rfl
  · rw [hsets, firstIds_succ, ← hnumbered.object_ids, ← hnumbered.next_id, Directory.object_ids,
      List.map_append]
    rfl
  · intro other id
    rw [Directory.ids, hids, ← hnumbered.created_iff]
    simp

theorem Directory.Numbered.step {directory next : Directory} {event : DirectoryEvent}
    {log emitted : List DirectoryObservation} (hnumbered : directory.Numbered log)
    (hstep : directory.Step event next emitted) : next.Numbered (log ++ emitted) := by
  cases hstep with
  | add_session => exact hnumbered.add_session
  | enter_new hsession => exact hnumbered.enter_new hsession
  | emplace_found | emplace_new => exact hnumbered.quiet rfl (Directory.ids_hold _ _) rfl rfl rfl rfl
  | remove_session | find_none => exact hnumbered.quiet rfl rfl rfl rfl rfl rfl
  | find_some | copy => exact hnumbered.quiet rfl (Directory.ids_hold _ _) rfl rfl rfl rfl
  | release =>
    exact hnumbered.quiet rfl (@map_modify_of_eq _ _ _ Session.release (fun _ => rfl) _ _) rfl rfl
      rfl rfl
  | enter_again => exact hnumbered.quiet rfl rfl rfl rfl rfl rfl
  | set_room hsession _ hplayer =>
    exact hnumbered.quiet rfl (map_set_of_eq hsession rfl) rfl (map_set_of_eq hplayer rfl) rfl rfl
  | set_session hsession _ hplayer =>
    exact hnumbered.quiet rfl (map_set_of_eq hsession rfl) rfl (map_set_of_eq hplayer rfl) rfl rfl
  | enter_object hsession =>
    exact hnumbered.quiet rfl (map_set_of_eq hsession rfl) rfl rfl rfl rfl

end topview.session_manager
