import TopView.DummyClient.ServerSession
import TopView.Transition.Machine
import Mathlib.Order.Monotone.Basic

open topview.packet topview.transition

namespace topview.dummy_client

/-- A move, as `SendForEach` sends it. -/
def playerMove : IMessage := { descriptor_name := "C_PlayerMove", to_byte_array := [] }

/-- `SessionManager`, with the threads that are inside of it. -/
structure SessionManager where
  /-- `_sessionId`. -/
  session_id : BitVec 32
  /-- `_sessions`. A session is named by the order of its creation. -/
  sessions : List (BitVec 32 × Nat)
  /-- The sessions that `SendForEach` has still to send to. It holds the lock as
      long as this is not `none`. -/
  sending : Option (List Nat)
  /-- The sessions that have been connected. -/
  connected : List Nat

inductive ManagerEvent where
  | generate
  /-- `OnConnected` of a session. -/
  | on_connected (session : Nat)
  /-- `SendForEach` takes the lock. -/
  | send_for_each
  /-- The enumeration comes to a session. Its order is not specified. -/
  | send (session : Nat)
  /-- `SendForEach` returns. -/
  | leave
  deriving DecidableEq, Repr

/-- A session hands an array over to be transmitted. -/
structure Handed where
  session : Nat
  bytes : List UInt8
  deriving DecidableEq, Repr

def SessionManager.start : SessionManager :=
  { session_id := 0, sessions := [], sending := none, connected := [] }

/-- `Generate`, which runs under the lock. `Add` throws when the key is there. -/
def SessionManager.generate (manager : SessionManager) : Option SessionManager :=
  let session_id := manager.session_id + 1
  if manager.sending = none ∧ session_id ∉ manager.sessions.map Prod.fst then
    some { manager with
      session_id := session_id
      sessions := manager.sessions ++ [(session_id, manager.sessions.length)] }
  else none

/-- `OnConnected`. A session is connected once, after it has been generated. -/
def SessionManager.on_connected (manager : SessionManager) (session : Nat) :
    Option (SessionManager × List Handed) :=
  if session < manager.sessions.length ∧ session ∉ manager.connected then
    (send classChoice).map fun bytes =>
      ({ manager with connected := session :: manager.connected }, [⟨session, bytes⟩])
  else none

/-- The body of the loop of `SendForEach`. -/
def SessionManager.send (manager : SessionManager) (session : Nat) :
    Option (SessionManager × List Handed) := do
  let rest ← manager.sending
  if session ∈ rest then
    (dummy_client.send playerMove).map fun bytes =>
      ({ manager with sending := some (rest.erase session) }, [⟨session, bytes⟩])
  else none

def SessionManager.step (manager : SessionManager) :
    ManagerEvent → Option (SessionManager × List Handed)
  | .generate => manager.generate.map fun next => (next, [])
  | .on_connected session => manager.on_connected session
  | .send_for_each =>
    if manager.sending = none then
      some ({ manager with sending := some (manager.sessions.map Prod.snd) }, [])
    else none
  | .send session => manager.send session
  | .leave =>
    if manager.sending = some [] then some ({ manager with sending := none }, []) else none

/-- The program, in which any thread may call `Generate` and `OnConnected`. -/
def managerMachine : Machine SessionManager ManagerEvent Handed where
  step := SessionManager.step

/-- The frame of a class choice. -/
def choiceFrame : Frame 40960 where
  id := MsgId.CClassChoice.value
  body := classChoice.to_byte_array
  id_lt := MsgId.CClassChoice.value_lt
  size_le := by decide

/-- The frame of a move. -/
def moveFrame : Frame 40960 where
  id := MsgId.CPlayerMove.value
  body := playerMove.to_byte_array
  id_lt := MsgId.CPlayerMove.value_lt
  size_le := by decide

/-- The arrays that a session has handed over. -/
def packets (session : Nat) (log : List Handed) : List (List UInt8) :=
  log.filterMap fun handed => if handed.session = session then some handed.bytes else none

/-- How many moves a session has sent. -/
def moves (session : Nat) (log : List Handed) : Nat := (packets session log).count moveFrame.encode

/-- Whether the round that is under way has come to a session. -/
def SessionManager.served (manager : SessionManager) (session : Nat) : Nat :=
  match manager.sending with
  | some rest => if session ∈ rest then 0 else 1
  | none => 0

/-- What every run of the program maintains. -/
structure SessionManager.Inv (manager : SessionManager) (log : List Handed) : Prop where
  session_id : manager.session_id = BitVec.ofNat 32 manager.sessions.length
  sessions : manager.sessions =
    (List.range manager.sessions.length).map fun index => (BitVec.ofNat 32 (index + 1), index)
  sending : ∀ rest, manager.sending = some rest →
    rest.Nodup ∧ ∀ session ∈ rest, session < manager.sessions.length
  kinds : ∀ session, ∀ bytes ∈ packets session log,
    bytes = choiceFrame.encode ∨ bytes = moveFrame.encode
  choices : ∀ session, (packets session log).count choiceFrame.encode =
    if session ∈ manager.connected then 1 else 0
  connected : ∀ session ∈ manager.connected, session < manager.sessions.length
  rounds : ∃ rounds : Nat → Nat, Antitone rounds ∧
    (∀ session < manager.sessions.length,
      moves session log = rounds session + manager.served session) ∧
    ∀ session, manager.sessions.length ≤ session → rounds session = 0 ∧ moves session log = 0

theorem send_classChoice : send classChoice = some choiceFrame.encode := by decide

theorem send_playerMove : send playerMove = some moveFrame.encode := by decide

theorem packets_append (session : Nat) (log emitted : List Handed) :
    packets session (log ++ emitted) = packets session log ++ packets session emitted :=
  List.filterMap_append

theorem packets_handed (session index : Nat) (bytes : List UInt8) :
    packets session [⟨index, bytes⟩] = if index = session then [bytes] else [] := by
  by_cases hindex : index = session <;> simp [packets, hindex]

theorem moves_append (session : Nat) (log emitted : List Handed) :
    moves session (log ++ emitted) = moves session log + moves session emitted := by
  rw [moves, packets_append, List.count_append]
  rfl

theorem SessionManager.inv_start : SessionManager.Inv .start [] where
  session_id := rfl
  sessions := rfl
  sending := by simp [SessionManager.start]
  kinds := by simp [packets]
  choices := by simp [packets, SessionManager.start]
  connected := by simp [SessionManager.start]
  rounds := ⟨fun _ => 0, fun _ _ _ => Nat.le_refl 0, by simp [SessionManager.start],
    fun _ _ => ⟨rfl, rfl⟩⟩

/-- The dictionary holds every session. -/
theorem SessionManager.Inv.map_sessions {manager : SessionManager} {log : List Handed}
    (hinv : manager.Inv log) :
    manager.sessions.map Prod.snd = List.range manager.sessions.length := by
  conv_lhs => rw [hinv.sessions, List.map_map]
  exact List.map_id _

/-- An array of another kind is no move. -/
theorem moves_choice (session index : Nat) : moves session [⟨index, choiceFrame.encode⟩] = 0 := by
  rw [moves, packets_handed]
  split
  · decide
  · rfl

theorem moves_move (session index : Nat) :
    moves session [⟨index, moveFrame.encode⟩] = if index = session then 1 else 0 := by
  rw [moves, packets_handed]
  split
  · exact List.count_singleton_self
  · rfl

theorem SessionManager.Inv.generate {manager next : SessionManager} {log : List Handed}
    (hinv : manager.Inv log) (hgenerate : manager.generate = some next) : next.Inv log := by
  rw [SessionManager.generate, Option.ite_none_right_eq_some, Option.some.injEq] at hgenerate
  obtain ⟨⟨hidle, _⟩, rfl⟩ := hgenerate
  obtain ⟨rounds, hrounds, hmoves, hlater⟩ := hinv.rounds
  constructor
  · dsimp only
    rw [hinv.session_id, List.length_append, List.length_singleton, BitVec.ofNat_add]
    rfl
  · dsimp only
    rw [List.length_append, List.length_singleton, List.range_succ, List.map_append, ← hinv.sessions,
      hinv.session_id, List.map_singleton, BitVec.ofNat_add]
    rfl
  · intro rest hrest
    rw [show manager.sending = some rest from hrest] at hidle
    cases hidle
  · exact hinv.kinds
  · exact hinv.choices
  · intro session hmem
    rw [List.length_append]
    exact Nat.lt_add_right _ (hinv.connected session hmem)
  · refine ⟨rounds, hrounds, ?_, ?_⟩
    · intro session hlt
      rw [List.length_append, List.length_singleton] at hlt
      have hserved : SessionManager.served { manager with
          session_id := manager.session_id + 1
          sessions := manager.sessions ++ [(manager.session_id + 1, manager.sessions.length)] } session =
          0 := by
        simp [SessionManager.served, hidle]
      rw [hserved]
      by_cases hbefore : session < manager.sessions.length
      · rw [hmoves session hbefore]
        simp [SessionManager.served, hidle]
      · obtain ⟨hzero, hnone⟩ := hlater session (by omega)
        rw [hzero, hnone]
    · intro session hle
      rw [List.length_append, List.length_singleton] at hle
      exact hlater session (by omega)

theorem SessionManager.Inv.on_connected {manager next : SessionManager} {log emitted : List Handed}
    {session : Nat} (hinv : manager.Inv log)
    (hconnected : manager.on_connected session = some (next, emitted)) : next.Inv (log ++ emitted) := by
  rw [SessionManager.on_connected, Option.ite_none_right_eq_some, send_classChoice, Option.map_some,
    Option.some.injEq, Prod.mk.injEq] at hconnected
  obtain ⟨⟨hlt, hnew⟩, rfl, rfl⟩ := hconnected
  obtain ⟨rounds, hrounds, hmoves, hlater⟩ := hinv.rounds
  have hsame (other : Nat) : moves other (log ++ [⟨session, choiceFrame.encode⟩]) = moves other log := by
    rw [moves_append, moves_choice, Nat.add_zero]
  refine ⟨hinv.session_id, hinv.sessions, hinv.sending, ?_, ?_, ?_, rounds, hrounds, ?_, ?_⟩
  · intro other bytes hmem
    rw [packets_append, packets_handed, List.mem_append] at hmem
    rcases hmem with hbefore | hafter
    · exact hinv.kinds other bytes hbefore
    · split at hafter
      · exact .inl (List.mem_singleton.mp hafter)
      · cases hafter
  · intro other
    rw [packets_append, List.count_append, hinv.choices other, packets_handed]
    by_cases hother : session = other
    · subst hother
      rw [if_neg hnew, if_pos rfl, if_pos List.mem_cons_self, List.count_singleton_self]
    · rw [if_neg hother, List.count_nil, Nat.add_zero]
      simp only [List.mem_cons, Ne.symm hother, false_or]
  · intro other hmem
    rcases List.mem_cons.mp hmem with rfl | hbefore
    · exact hlt
    · exact hinv.connected other hbefore
  · intro other hother
    rw [hsame]
    exact hmoves other hother
  · intro other hother
    rw [hsame]
    exact hlater other hother

/-- The round has not come to a session before it starts. -/
theorem SessionManager.Inv.send_for_each {manager : SessionManager} {log : List Handed}
    (hinv : manager.Inv log) (hidle : manager.sending = none) :
    SessionManager.Inv { manager with sending := some (manager.sessions.map Prod.snd) } log := by
  obtain ⟨rounds, hrounds, hmoves, hlater⟩ := hinv.rounds
  refine ⟨hinv.session_id, hinv.sessions, ?_, hinv.kinds, hinv.choices, hinv.connected, rounds,
    hrounds, ?_, hlater⟩
  · rintro rest hrest
    cases hrest
    rw [hinv.map_sessions]
    exact ⟨List.nodup_range, fun session hmem => List.mem_range.mp hmem⟩
  · intro session hlt
    have hmem : session ∈ manager.sessions.map Prod.snd := by
      rw [hinv.map_sessions]
      exact List.mem_range.mpr hlt
    rw [hmoves session hlt]
    simp only [SessionManager.served, hidle, if_pos hmem]

theorem SessionManager.Inv.send {manager next : SessionManager} {log emitted : List Handed}
    {session : Nat} (hinv : manager.Inv log)
    (hsend : manager.send session = some (next, emitted)) : next.Inv (log ++ emitted) := by
  unfold SessionManager.send at hsend
  rw [Option.bind_eq_bind, Option.bind_eq_some_iff] at hsend
  obtain ⟨rest, hrest, hsend⟩ := hsend
  rw [Option.ite_none_right_eq_some, send_playerMove, Option.map_some, Option.some.injEq,
    Prod.mk.injEq] at hsend
  obtain ⟨hmem, rfl, rfl⟩ := hsend
  obtain ⟨hnodup, hbound⟩ := hinv.sending rest hrest
  obtain ⟨rounds, hrounds, hmoves, hlater⟩ := hinv.rounds
  refine ⟨hinv.session_id, hinv.sessions, ?_, ?_, ?_, hinv.connected, rounds, hrounds, ?_, ?_⟩
  · rintro _ hleft
    cases hleft
    exact ⟨hnodup.erase session, fun other hother => hbound other (List.mem_of_mem_erase hother)⟩
  · intro other bytes hin
    rw [packets_append, packets_handed, List.mem_append] at hin
    rcases hin with hbefore | hafter
    · exact hinv.kinds other bytes hbefore
    · split at hafter
      · exact .inr (List.mem_singleton.mp hafter)
      · cases hafter
  · intro other
    have hnone : (if session = other then [moveFrame.encode] else []).count choiceFrame.encode = 0 := by
      split
      · decide
      · rfl
    rw [packets_append, List.count_append, packets_handed, hnone, Nat.add_zero]
    exact hinv.choices other
  · intro other hother
    rw [moves_append, moves_move, hmoves other hother]
    simp only [SessionManager.served, hrest]
    by_cases hsession : session = other
    · subst hsession
      rw [if_pos hmem, if_pos rfl, if_neg hnodup.not_mem_erase]
    · rw [if_neg hsession]
      simp only [List.mem_erase_of_ne (Ne.symm hsession), Nat.add_zero]
  · intro other hother
    have hne : session ≠ other := by
      rintro rfl
      have hlt := hbound session hmem
      simp only at hother
      omega
    rw [moves_append, moves_move, if_neg hne, Nat.add_zero]
    exact hlater other hother

/-- A round that is over has come to every session. -/
theorem SessionManager.Inv.leave {manager : SessionManager} {log : List Handed}
    (hinv : manager.Inv log) (hover : manager.sending = some []) :
    SessionManager.Inv { manager with sending := none } log := by
  obtain ⟨rounds, hrounds, hmoves, hlater⟩ := hinv.rounds
  refine ⟨hinv.session_id, hinv.sessions, by simp, hinv.kinds, hinv.choices, hinv.connected,
    fun session => rounds session + if session < manager.sessions.length then 1 else 0, ?_, ?_, ?_⟩
  · intro earlier later hle
    have hbefore := hrounds hle
    dsimp only
    split_ifs <;> omega
  · intro session hlt
    dsimp only at hlt ⊢
    rw [hmoves session hlt, if_pos hlt]
    simp [SessionManager.served, hover]
  · intro session hle
    dsimp only at hle ⊢
    obtain ⟨hzero, hnone⟩ := hlater session hle
    rw [hzero, hnone, if_neg (Nat.not_lt.mpr hle)]
    exact ⟨rfl, rfl⟩

theorem SessionManager.Inv.step {manager next : SessionManager} {event : ManagerEvent}
    {log emitted : List Handed} (hinv : manager.Inv log)
    (hstep : manager.step event = some (next, emitted)) : next.Inv (log ++ emitted) := by
  cases event with
  | generate =>
    rw [SessionManager.step, Option.map_eq_some_iff] at hstep
    obtain ⟨_, hgenerate, heq⟩ := hstep
    cases heq
    rw [List.append_nil]
    exact hinv.generate hgenerate
  | on_connected session => exact hinv.on_connected hstep
  | send_for_each =>
    rw [SessionManager.step, Option.ite_none_right_eq_some, Option.some.injEq, Prod.mk.injEq] at hstep
    obtain ⟨hidle, rfl, rfl⟩ := hstep
    rw [List.append_nil]
    exact hinv.send_for_each hidle
  | send session => exact hinv.send hstep
  | leave =>
    rw [SessionManager.step, Option.ite_none_right_eq_some, Option.some.injEq, Prod.mk.injEq] at hstep
    obtain ⟨hover, rfl, rfl⟩ := hstep
    rw [List.append_nil]
    exact hinv.leave hover

theorem SessionManager.inv_of_exec {events : List ManagerEvent} {manager : SessionManager}
    {log : List Handed} (hexec : managerMachine.exec .start events = some (manager, log)) :
    manager.Inv log :=
  managerMachine.exec_induct (fun _ manager log => manager.Inv log) SessionManager.inv_start
    (fun _ _ _ _ _ _ _ hinv hstep => hinv.step hstep) events manager log hexec

/-- What the program does in every run. -/
structure SessionManager.Behaves (manager : SessionManager) (log : List Handed) : Prop where
  /-- A session hands over frames of two kinds, and one of the first kind at
      most. -/
  frames : ∀ session, ∃ frames : List (Frame 40960),
    packets session log = frames.map Frame.encode ∧
      (∀ frame ∈ frames, frame = choiceFrame ∨ frame = moveFrame) ∧
      (packets session log).count choiceFrame.encode ≤ 1
  /-- No session gets ahead of one that was generated before it by more than the
      move of the round that is under way. -/
  fair : ∀ earlier later, earlier < later → later < manager.sessions.length →
    moves later log ≤ moves earlier log + 1
  /-- `Add` does not throw before the ids wrap. -/
  generates : manager.sending = none → manager.sessions.length + 1 < 2 ^ 32 →
    ∃ next, manager.step .generate = some (next, [])

/-- Arrays of the two kinds are frames. -/
theorem exists_frames {arrays : List (List UInt8)}
    (hkinds : ∀ bytes ∈ arrays, bytes = choiceFrame.encode ∨ bytes = moveFrame.encode) :
    ∃ frames : List (Frame 40960), arrays = frames.map Frame.encode ∧
      ∀ frame ∈ frames, frame = choiceFrame ∨ frame = moveFrame := by
  induction arrays with
  | nil => exact ⟨[], rfl, by simp⟩
  | cons bytes rest ih =>
    obtain ⟨hbytes, hrest⟩ := List.forall_mem_cons.mp hkinds
    obtain ⟨frames, hframes, hall⟩ := ih hrest
    rcases hbytes with rfl | rfl
    · exact ⟨choiceFrame :: frames, by rw [hframes, List.map_cons],
        List.forall_mem_cons.mpr ⟨.inl rfl, hall⟩⟩
    · exact ⟨moveFrame :: frames, by rw [hframes, List.map_cons],
        List.forall_mem_cons.mpr ⟨.inr rfl, hall⟩⟩

theorem SessionManager.Inv.generate_enabled {manager : SessionManager} {log : List Handed}
    (hinv : manager.Inv log) (hidle : manager.sending = none)
    (hlength : manager.sessions.length + 1 < 2 ^ 32) : ∃ next, manager.generate = some next := by
  have hnew : manager.session_id + 1 ∉ manager.sessions.map Prod.fst := by
    rw [hinv.sessions, hinv.session_id, List.map_map, List.mem_map]
    rintro ⟨index, hindex, heq⟩
    rw [List.mem_range] at hindex
    have hsame : index + 1 = manager.sessions.length + 1 := by
      apply eq_of_drawn_eq (by omega) hlength
      rw [BitVec.ofNat_add manager.sessions.length]
      exact heq
    omega
  rw [SessionManager.generate, if_pos ⟨hidle, hnew⟩]
  exact ⟨_, rfl⟩

/-- In every run of the program, whenever sessions are generated and connected
    and in whatever order they are enumerated, what a session hands over is a
    sequence of whole frames, at most one class choice among any number of
    moves. -/
theorem behaves_of_exec (events : List ManagerEvent) (manager : SessionManager) (log : List Handed)
    (hexec : managerMachine.exec .start events = some (manager, log)) : manager.Behaves log := by
  have hinv := SessionManager.inv_of_exec hexec
  constructor
  · intro session
    obtain ⟨frames, hframes, hall⟩ := exists_frames (hinv.kinds session)
    refine ⟨frames, hframes, hall, ?_⟩
    rw [hinv.choices]
    split <;> omega
  · intro earlier later hlt hlater
    obtain ⟨rounds, hrounds, hmoves, _⟩ := hinv.rounds
    have hbefore := hrounds (Nat.le_of_lt hlt)
    have hserved : manager.served later ≤ 1 := by
      unfold SessionManager.served
      split
      · split <;> omega
      · omega
    rw [hmoves earlier (by omega), hmoves later hlater]
    omega
  · intro hidle hlength
    obtain ⟨next, hnext⟩ := hinv.generate_enabled hidle hlength
    exact ⟨next, by rw [SessionManager.step, hnext, Option.map_some]⟩

/-- The second session is generated between two rounds. The second round comes
    to it first. -/
def twoSessions : List ManagerEvent :=
  [.generate, .on_connected 0, .send_for_each, .send 0, .leave, .generate, .send_for_each, .send 1,
    .on_connected 1, .send 0]

theorem behaves_of_exec_two : ∃ manager log,
    managerMachine.exec .start twoSessions = some (manager, log) ∧
      packets 1 log = [[4, 0, 5, 0], [6, 0, 1, 0, 8, 1]] ∧ manager.Behaves log := by
  have hrun : ((managerMachine.exec .start twoSessions).map fun result => packets 1 result.2) =
      some [[4, 0, 5, 0], [6, 0, 1, 0, 8, 1]] := by
    decide +kernel
  obtain ⟨⟨manager, log⟩, hexec, hpackets⟩ := Option.map_eq_some_iff.mp hrun
  exact ⟨manager, log, hexec, hpackets, behaves_of_exec twoSessions manager log hexec⟩

end topview.dummy_client
