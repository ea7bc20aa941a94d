import Mathlib.Data.List.AList
import TopView.CInt
import TopView.Transition.Standing

open topview.transition

namespace topview.session_manager

/-- Where `Session::EnterRoom` is. The calls on one session come one after another. -/
inductive EnterPc where
  | idle
  | set_room
  | set_session
  | enter_object
  deriving DecidableEq, Repr

/-- A `Session`. -/
structure Session where
  session_id : BitVec 32
  /-- The player that it points at, by the order in which players are made. -/
  player : Option Nat
  enter_room : EnterPc
  /-- How many pointers to the session callers hold. -/
  holders : Nat
  deriving DecidableEq, Repr

def Session.new (session_id : BitVec 32) : Session :=
  { session_id, player := none, enter_room := .idle, holders := 0 }

def Session.hold (session : Session) : Session :=
  { session with holders := session.holders + 1 }

def Session.release (session : Session) : Session :=
  { session with holders := session.holders - 1 }

/-- A `Player`. Its weak pointers designate `GRoom` or nothing, and a session
    or nothing. -/
structure Player where
  object_id : BitVec 32
  in_room : Bool
  session : Option Nat
  deriving DecidableEq, Repr

/-- `make_shared<Player>()` followed by `SetId`. -/
def Player.new (object_id : BitVec 32) : Player := { object_id, in_room := false, session := none }

/-- The session manager and what its sessions enter. -/
structure Directory where
  /-- `ClientNo`. -/
  client_no : BitVec 32
  /-- Every session that has been made, in that order. -/
  made : List Session
  /-- The sessions whose `AddSession` has not taken the lock yet. -/
  adding : List Nat
  /-- The map `sessions`. -/
  sessions : AList fun _ : BitVec 32 => Nat
  /-- `Object::nextId`. -/
  next_id : BitVec 32
  /-- Every player that has been made, in that order. -/
  objects : List Player
  /-- `_players` of `GRoom`. -/
  players : AList fun _ : BitVec 32 => Nat
  deriving DecidableEq

def Directory.start : Directory where
  client_no := 0
  made := []
  adding := []
  sessions := ∅
  next_id := 0
  objects := []
  players := ∅

inductive DirectoryEvent where
  /-- `AddSession` up to its lock. -/
  | add_session
  /-- `AddSession` under its lock, by the session that it has made. -/
  | emplace (index : Nat)
  | remove_session (id : BitVec 32)
  | find_session (id : BitVec 32)
  /-- A caller copies a pointer to a session. -/
  | copy (index : Nat)
  /-- A caller drops a pointer to a session. -/
  | release (index : Nat)
  /-- `EnterRoom`, alone or in `Start`, up to its first lock. -/
  | enter_room (index : Nat)
  /-- `EnterRoom` takes the next lock. -/
  | next_lock (index : Nat)
  deriving DecidableEq, Repr

inductive DirectoryObservation where
  /-- `AddSession` has drawn an id and made a session with it. -/
  | created (index : Nat) (id : BitVec 32)
  /-- `AddSession` returns. -/
  | added (index : Nat)
  | removed (id : BitVec 32)
  /-- `FindSession` returns, with a null pointer as `none`. -/
  | found (id : BitVec 32) (result : Option Nat)
  /-- `SetId` has drawn an id. -/
  | set_id (id : BitVec 32)
  /-- The `EnterObject` call of a session's `EnterRoom` has inserted its player. -/
  | entered (index : Nat)
  deriving DecidableEq, Repr

/-- A caller is given a pointer to a session. -/
def Directory.hold (directory : Directory) (index : Nat) : Directory :=
  { directory with made := directory.made.modify index Session.hold }

/-- `sessions.emplace(id, move(session))`, which keeps an entry that is already
    there, and the return of the entry. -/
def Directory.emplace (directory : Directory) (index : Nat) (id : BitVec 32) :
    Directory × List DirectoryObservation :=
  let returned := { directory with adding := directory.adding.erase index }
  match directory.sessions.lookup id with
  | some other => (returned.hold other, [.added other])
  | none =>
    ({ returned with sessions := directory.sessions.insert id index }.hold index, [.added index])

/-- `Session::EnterRoom` up to the lock in `SetRoom`. -/
def Directory.enter_room (directory : Directory) (index : Nat) (session : Session) :
    Directory × List DirectoryObservation :=
  match session.player with
  | some _ => (directory, [])
  | none =>
    ({ directory with
        made := directory.made.set index
          { session with player := some directory.objects.length, enter_room := .set_room }
        next_id := directory.next_id + 1
        objects := directory.objects ++ [.new directory.next_id] },
      [.set_id directory.next_id])

/-- The rest of `EnterRoom`, lock by lock. The function that `EnterObject` calls
    on a player is `_players[o->_objectId] = o`. -/
def Directory.next_lock (directory : Directory) (index : Nat) (session : Session) (pointer : Nat)
    (player : Player) : Option (Directory × List DirectoryObservation) :=
  match session.enter_room with
  | .idle => none
  | .set_room =>
    some ({ directory with
      made := directory.made.set index { session with enter_room := .set_session }
      objects := directory.objects.set pointer { player with in_room := true } }, [])
  | .set_session =>
    some ({ directory with
      made := directory.made.set index { session with enter_room := .enter_object }
      objects := directory.objects.set pointer { player with session := some index } }, [])
  | .enter_object =>
    some ({ directory with
      made := directory.made.set index { session with enter_room := .idle }
      players := directory.players.insert player.object_id pointer }, [.entered index])

/-- One step, from one atomic operation or lock to the next. Only who holds a
    session can call its `EnterRoom`, and does so until the call returns. -/
def Directory.step (directory : Directory) :
    DirectoryEvent → Option (Directory × List DirectoryObservation)
  | .add_session =>
    some ({ directory with
        client_no := directory.client_no + 1
        made := directory.made ++ [.new directory.client_no]
        adding := directory.adding ++ [directory.made.length] },
      [.created directory.made.length directory.client_no])
  | .emplace index =>
    if index ∈ directory.adding then
      directory.made[index]?.map fun session => directory.emplace index session.session_id
    else none
  | .remove_session id =>
    some ({ directory with sessions := directory.sessions.erase id }, [.removed id])
  | .find_session id =>
    match directory.sessions.lookup id with
    | some index => some (directory.hold index, [.found id (some index)])
    | none => some (directory, [.found id none])
  | .copy index => do
    let session ← directory.made[index]?
    if 0 < session.holders then some (directory.hold index, []) else none
  | .release index => do
    let session ← directory.made[index]?
    if 1 < session.holders ∨ 0 < session.holders ∧ session.enter_room = .idle then
      some ({ directory with made := directory.made.modify index Session.release }, [])
    else none
  | .enter_room index => do
    let session ← directory.made[index]?
    if 0 < session.holders ∧ session.enter_room = .idle then
      some (directory.enter_room index session)
    else none
  | .next_lock index => do
    let session ← directory.made[index]?
    let pointer ← session.player
    let player ← directory.objects[pointer]?
    directory.next_lock index session pointer player

def directoryMachine : Machine Directory DirectoryEvent DirectoryObservation := ⟨Directory.step⟩

/-- The session has not been destroyed. A call of `AddSession`, the map or a
    caller holds it. -/
def Directory.Alive (directory : Directory) (index : Nat) : Prop :=
  index ∈ directory.adding ∨ (∃ entry ∈ directory.sessions.entries, entry.2 = index) ∨
    ∃ session ∈ directory.made[index]?, 0 < session.holders

instance (directory : Directory) (index : Nat) : Decidable (directory.Alive index) :=
  inferInstanceAs (Decidable (_ ∨ _ ∨ _))

/-- `Player::GetSession`. -/
def Directory.get_session (directory : Directory) (player : Player) : Option Nat :=
  player.session.filter fun index => directory.Alive index

/-- What a step of the directory can do. -/
inductive Directory.Step (directory : Directory) :
    DirectoryEvent → Directory → List DirectoryObservation → Prop where
  | add_session :
      Step directory .add_session { directory with
        client_no := directory.client_no + 1
        made := directory.made ++ [.new directory.client_no]
        adding := directory.adding ++ [directory.made.length] }
        [.created directory.made.length directory.client_no]
  | emplace_found {index other : Nat} {session : Session} (hadding : index ∈ directory.adding)
      (hsession : directory.made[index]? = some session)
      (hfound : directory.sessions.lookup session.session_id = some other) :
      Step directory (.emplace index)
        ({ directory with adding := directory.adding.erase index }.hold other) [.added other]
  | emplace_new {index : Nat} {session : Session} (hadding : index ∈ directory.adding)
      (hsession : directory.made[index]? = some session)
      (hnew : directory.sessions.lookup session.session_id = none) :
      Step directory (.emplace index)
        ({ directory with
            adding := directory.adding.erase index
            sessions := directory.sessions.insert session.session_id index }.hold index)
        [.added index]
  | remove_session {id : BitVec 32} :
      Step directory (.remove_session id)
        { directory with sessions := directory.sessions.erase id } [.removed id]
  | find_some {id : BitVec 32} {index : Nat}
      (hfound : directory.sessions.lookup id = some index) :
      Step directory (.find_session id) (directory.hold index) [.found id (some index)]
  | find_none {id : BitVec 32} (hnone : directory.sessions.lookup id = none) :
      Step directory (.find_session id) directory [.found id none]
  | copy {index : Nat} {session : Session} (hsession : directory.made[index]? = some session)
      (hheld : 0 < session.holders) : Step directory (.copy index) (directory.hold index) []
  | release {index : Nat} {session : Session} (hsession : directory.made[index]? = some session)
      (hheld : 1 < session.holders ∨ 0 < session.holders ∧ session.enter_room = .idle) :
      Step directory (.release index)
        { directory with made := directory.made.modify index Session.release } []
  | enter_again {index pointer : Nat} {session : Session}
      (hsession : directory.made[index]? = some session)
      (hheld : 0 < session.holders) (hidle : session.enter_room = .idle)
      (hpointer : session.player = some pointer) : Step directory (.enter_room index) directory []
  | enter_new {index : Nat} {session : Session} (hsession : directory.made[index]? = some session)
      (hheld : 0 < session.holders) (hidle : session.enter_room = .idle)
      (hpointer : session.player = none) :
      Step directory (.enter_room index) { directory with
        made := directory.made.set index
          { session with player := some directory.objects.length, enter_room := .set_room }
        next_id := directory.next_id + 1
        objects := directory.objects ++ [.new directory.next_id] } [.set_id directory.next_id]
  | set_room {index pointer : Nat} {session : Session} {player : Player}
      (hsession : directory.made[index]? = some session)
      (hpointer : session.player = some pointer)
      (hplayer : directory.objects[pointer]? = some player)
      (hpc : session.enter_room = .set_room) :
      Step directory (.next_lock index) { directory with
        made := directory.made.set index { session with enter_room := .set_session }
        objects := directory.objects.set pointer { player with in_room := true } } []
  | set_session {index pointer : Nat} {session : Session} {player : Player}
      (hsession : directory.made[index]? = some session)
      (hpointer : session.player = some pointer)
      (hplayer : directory.objects[pointer]? = some player)
      (hpc : session.enter_room = .set_session) :
      Step directory (.next_lock index) { directory with
        made := directory.made.set index { session with enter_room := .enter_object }
        objects := directory.objects.set pointer { player with session := some index } } []
  | enter_object {index pointer : Nat} {session : Session} {player : Player}
      (hsession : directory.made[index]? = some session)
      (hpointer : session.player = some pointer)
      (hplayer : directory.objects[pointer]? = some player)
      (hpc : session.enter_room = .enter_object) :
      Step directory (.next_lock index) { directory with
        made := directory.made.set index { session with enter_room := .idle }
        players := directory.players.insert player.object_id pointer } [.entered index]

theorem Directory.enter_room_cases {directory next : Directory} {index : Nat} {session : Session}
    {emitted : List DirectoryObservation} (hsession : directory.made[index]? = some session)
    (hheld : 0 < session.holders) (hidle : session.enter_room = .idle)
    (hstep : directory.enter_room index session = (next, emitted)) :
    directory.Step (.enter_room index) next emitted := by
  unfold Directory.enter_room at hstep
  split at hstep
  · next pointer hpointer =>
    cases hstep
    exact .enter_again hsession hheld hidle hpointer
  · next hpointer =>
    cases hstep
    exact .enter_new hsession hheld hidle hpointer

theorem Directory.next_lock_cases {directory next : Directory} {index pointer : Nat}
    {session : Session} {player : Player} {emitted : List DirectoryObservation}
    (hsession : directory.made[index]? = some session) (hpointer : session.player = some pointer)
    (hplayer : directory.objects[pointer]? = some player)
    (hstep : directory.next_lock index session pointer player = some (next, emitted)) :
    directory.Step (.next_lock index) next emitted := by
  unfold Directory.next_lock at hstep
  split at hstep
  · cases hstep
  · next hpc =>
    cases hstep
    exact .set_room hsession hpointer hplayer hpc
  · next hpc =>
    cases hstep
    exact .set_session hsession hpointer hplayer hpc
  · next hpc =>
    cases hstep
    exact .enter_object hsession hpointer hplayer hpc

theorem Directory.emplace_cases {directory next : Directory} {index : Nat} {session : Session}
    {emitted : List DirectoryObservation} (hadding : index ∈ directory.adding)
    (hsession : directory.made[index]? = some session)
    (hstep : directory.emplace index session.session_id = (next, emitted)) :
    directory.Step (.emplace index) next emitted := by
  unfold Directory.emplace at hstep
  split at hstep
  · next other hfound =>
    cases hstep
    exact .emplace_found hadding hsession hfound
  · next hnew =>
    cases hstep
    exact .emplace_new hadding hsession hnew

theorem Directory.step_cases {directory next : Directory} {event : DirectoryEvent}
    {emitted : List DirectoryObservation} (hstep : directory.step event = some (next, emitted)) :
    directory.Step event next emitted := by
  cases event with
  | add_session =>
    cases hstep
    exact .add_session
  | emplace index =>
    simp only [Directory.step, Option.ite_none_right_eq_some, Option.map_eq_some_iff] at hstep
    obtain ⟨hadding, session, hsession, hstep⟩ := hstep
    exact Directory.emplace_cases hadding hsession hstep
  | remove_session id =>
    cases hstep
    exact .remove_session
  | find_session id =>
    simp only [Directory.step] at hstep
    split at hstep
    · next index hfound =>
      cases hstep
      exact .find_some hfound
    · next hnone =>
      cases hstep
      exact .find_none hnone
  | copy index =>
    simp only [Directory.step, Option.bind_eq_bind, Option.bind_eq_some_iff,
      Option.ite_none_right_eq_some] at hstep
    obtain ⟨session, hsession, hheld, hstep⟩ := hstep
    cases hstep
    exact .copy hsession hheld
  | release index =>
    simp only [Directory.step, Option.bind_eq_bind, Option.bind_eq_some_iff,
      Option.ite_none_right_eq_some] at hstep
    obtain ⟨session, hsession, hheld, hstep⟩ := hstep
    cases hstep
    exact .release hsession hheld
  | enter_room index =>
    simp only [Directory.step, Option.bind_eq_bind, Option.bind_eq_some_iff,
      Option.ite_none_right_eq_some] at hstep
    obtain ⟨session, hsession, ⟨hheld, hidle⟩, hstep⟩ := hstep
    exact Directory.enter_room_cases hsession hheld hidle (Option.some.inj hstep)
  | next_lock index =>
    simp only [Directory.step, Option.bind_eq_bind, Option.bind_eq_some_iff] at hstep
    obtain ⟨session, hsession, pointer, hpointer, player, hplayer, hstep⟩ := hstep
    exact Directory.next_lock_cases hsession hpointer hplayer hstep

end topview.session_manager
