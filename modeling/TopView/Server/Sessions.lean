import TopView.Server.Step

open topview.packet_handler topview.room topview.session topview.transition

namespace topview.server

/-- The steps that the completions of a session's reads take in a run. -/
def readEvents (index : Nat) (events : List ServerEvent) : List ReadEvent :=
  events.filterMap fun event => match event with
    | .read session _ event => if session = index then some event else none
    | _ => none

/-- The packets of a session that a run calls handlers for. -/
def dispatches (index : Nat) (log : List ServerObservation) : List Dispatch :=
  log.filterMap fun seen => match seen with
    | .dispatched session dispatch => if session = index then some dispatch else none
    | _ => none

theorem readEvents_append (index : Nat) (events more : List ServerEvent) :
    readEvents index (events ++ more) = readEvents index events ++ readEvents index more :=
  List.filterMap_append

theorem dispatches_append (index : Nat) (log emitted : List ServerObservation) :
    dispatches index (log ++ emitted) = dispatches index log ++ dispatches index emitted :=
  List.filterMap_append

@[simp] theorem dispatches_map_room (index : Nat) (seen : List (Observation Payload)) :
    dispatches index (seen.map .room) = [] := by
  simp [dispatches]

/-- The player of the session that is created as the `index`-th one. -/
def playerOf (index : Nat) : Player := ⟨BitVec.ofNat 32 index, true, index⟩

/-- Up to 2^32 players have different ids. -/
theorem object_id_playerOf_ne {first second : Nat} (hfirst : first < 2 ^ 32)
    (hsecond : second < 2 ^ 32) (hne : first ≠ second) :
    (playerOf first).object_id ≠ (playerOf second).object_id := by
  intro heq
  exact hne (eq_of_drawn_eq hfirst hsecond heq)

/-- A session that has been started and is about to issue its first read. -/
def Session.started (index : Nat) : Session :=
  { session_id := BitVec.ofNat 32 index
    player := some (playerOf index)
    connection := Connection.new
    reads := [] }

/-- The session is where one read handler has come to. -/
structure Session.Follows (session : Session) (index : Nat) (reader : Reader) : Prop where
  player : session.player = some (playerOf index)
  connection : session.connection = reader.toConnection
  reads : session.reads = if reader.pc = .idle then [] else [reader.pc]

/-- The number of sessions that have issued their first read. -/
def Server.reading (server : Server) : Nat :=
  match server.accept with
  | .starting _ | .entering _ _ | .registering _ => server.sessions.length - 1
  | _ => server.sessions.length

/-- The number of sessions whose player has entered the room. -/
def Server.entered (server : Server) : Nat :=
  match server.accept with
  | .starting _ | .entering _ _ => server.sessions.length - 1
  | _ => server.sessions.length

/-- What the accept handler has done to the counters and to the session that it
    is working on, the latest one. -/
def Server.Chain (server : Server) : Prop :=
  match server.accept with
  | .idle => server.client_no = 0 ∧ server.next_id = 0 ∧ server.sessions = []
  | .accepting =>
    server.client_no = server.sessions.length ∧ server.next_id = server.sessions.length
  | .adding id =>
    server.client_no = server.sessions.length + 1 ∧ server.next_id = server.sessions.length ∧
      id = BitVec.ofNat 32 server.sessions.length
  | .starting index =>
    server.client_no = server.sessions.length ∧ server.next_id = index ∧
      server.sessions.length = index + 1 ∧
      server.sessions[index]? = some (.new (BitVec.ofNat 32 index))
  | .entering index player =>
    server.client_no = server.sessions.length ∧ server.next_id = server.sessions.length ∧
      server.sessions.length = index + 1 ∧ player = playerOf index ∧
      server.sessions[index]? = some (.started index)
  | .registering index =>
    server.client_no = server.sessions.length ∧ server.next_id = server.sessions.length ∧
      server.sessions.length = index + 1 ∧ server.sessions[index]? = some (.started index)

/-- A session that reads has taken the steps of one read handler. -/
def Settled (events : List ServerEvent) (server : Server) (log : List ServerObservation)
    (index : Nat) : Prop :=
  ∃ session reader, server.sessions[index]? = some session ∧ session.Follows index reader ∧
    readerMachine.exec .start (readEvents index events) = some (reader, dispatches index log)

/-- What a run of fewer than 2^32 accepted connections maintains. Every session
    has its own player, which is in the room before it reads, and at most one
    read. -/
structure Server.Inv (events : List ServerEvent) (server : Server)
    (log : List ServerObservation) : Prop where
  handlers : server.main ≠ .packet_handler_init → server.handlers = init
  not_listening : server.main = .packet_handler_init ∨ server.main = .listener_start →
    server.accept = .idle
  chain : server.Chain
  table : ∀ id index, server.table.lookup id = some index →
    id.toNat = index ∧ index < server.sessions.length
  settled : ∀ index < server.reading, Settled events server log index
  untouched : ∀ index, server.reading ≤ index →
    readEvents index events = [] ∧ dispatches index log = []
  players : ∀ player, server.room.players.Holds player ↔
    ∃ index < server.entered, player = playerOf index

theorem Server.Inv.start : Server.Inv [] .start [] where
  handlers := fun hmain => absurd rfl hmain
  not_listening := fun _ => rfl
  chain := ⟨rfl, rfl, rfl⟩
  table := by simp [Server.start]
  settled := by simp [Server.reading, Server.start]
  untouched := fun _ _ => ⟨rfl, rfl⟩
  players := by
    intro player
    simp [Server.start, System.start, Room.new, Players.Holds, Players.empty, Server.entered]

theorem Server.length_le_client_no {server : Server} (hchain : server.Chain) :
    server.sessions.length ≤ server.client_no := by
  unfold Server.Chain at hchain
  split at hchain
  · rw [hchain.2.2]
    exact Nat.zero_le _
  all_goals omega

theorem Server.reading_le_length (server : Server) : server.reading ≤ server.sessions.length := by
  unfold Server.reading
  split <;> omega

/-- A session that has not read yet is as it was created or as it was started. -/
theorem Server.new_or_started {server : Server} (hchain : server.Chain) {index : Nat}
    {session : Session} (hle : server.reading ≤ index)
    (hsession : server.sessions[index]? = some session) :
    (∃ id, session = .new id) ∨ session = .started index := by
  have hlength := (List.getElem?_eq_some_iff.mp hsession).1
  unfold Server.Chain at hchain
  unfold Server.reading at hle
  split at hchain
  all_goals (rename_i haccept; simp only [haccept] at hle)
  · omega
  · omega
  · omega
  · next current =>
    obtain ⟨_, _, hcurrent, hnew⟩ := hchain
    obtain rfl : index = current := by omega
    rw [hsession, Option.some.injEq] at hnew
    exact .inl ⟨_, hnew⟩
  · next current player =>
    obtain ⟨_, _, hcurrent, _, hstarted⟩ := hchain
    obtain rfl : index = current := by omega
    rw [hsession, Option.some.injEq] at hstarted
    exact .inr hstarted
  · next current =>
    obtain ⟨_, _, hcurrent, hstarted⟩ := hchain
    obtain rfl : index = current := by omega
    rw [hsession, Option.some.injEq] at hstarted
    exact .inr hstarted

/-- Only a session that the accept handler is done with has reads. -/
theorem Server.lt_reading_of_mem {server : Server} (hchain : server.Chain) {index slot : Nat}
    {session : Session} {pc : ReadPc} (hsession : server.sessions[index]? = some session)
    (hpc : session.reads[slot]? = some pc) : index < server.reading := by
  by_contra hnot
  rcases Server.new_or_started hchain (Nat.le_of_not_lt hnot) hsession with ⟨id, rfl⟩ | rfl
  · cases hpc
  · cases hpc

/-- The invariant survives a step outside of the read handlers that leaves the
    sessions that read, and the players in the room, as they are. -/
private theorem Server.Inv.of_same {events : List ServerEvent} {server next : Server}
    {log emitted : List ServerObservation} {event : ServerEvent}
    (hinv : Server.Inv events server log)
    (hevent : ∀ index, readEvents index [event] = [])
    (hemitted : ∀ index, dispatches index emitted = [])
    (hhandlers : next.main ≠ .packet_handler_init → next.handlers = init)
    (hlistening : next.main = .packet_handler_init ∨ next.main = .listener_start →
      next.accept = .idle)
    (hchain : next.Chain)
    (htable : ∀ id index, next.table.lookup id = some index →
      id.toNat = index ∧ index < next.sessions.length)
    (hreading : next.reading = server.reading) (hentered : next.entered = server.entered)
    (hsessions : ∀ index < server.reading, next.sessions[index]? = server.sessions[index]?)
    (hplayers : next.room.players = server.room.players) :
    Server.Inv (events ++ [event]) next (log ++ emitted) := by
  refine ⟨hhandlers, hlistening, hchain, htable, ?_, ?_, ?_⟩
  · intro index hlt
    rw [hreading] at hlt
    obtain ⟨session, reader, hsession, hfollows, hexec⟩ := hinv.settled index hlt
    refine ⟨session, reader, ?_, hfollows, ?_⟩
    · rw [hsessions index hlt, hsession]
    · rw [readEvents_append, hevent, dispatches_append, hemitted, List.append_nil, List.append_nil]
      exact hexec
  · intro index hle
    rw [hreading] at hle
    rw [readEvents_append, hevent, dispatches_append, hemitted, List.append_nil, List.append_nil]
    exact hinv.untouched index hle
  · intro player
    rw [hplayers, hentered]
    exact hinv.players player

/-- A read that is outstanding or being handled is the one read of its session. -/
theorem Server.Inv.reader_of_mem {events : List ServerEvent} {server : Server}
    {log : List ServerObservation} (hinv : Server.Inv events server log) {index slot : Nat}
    {session : Session} {pc : ReadPc} (hsession : server.sessions[index]? = some session)
    (hpc : session.reads[slot]? = some pc) :
    slot = 0 ∧ session.Follows index ⟨session.connection, pc⟩ ∧
      readerMachine.exec .start (readEvents index events) =
        some (⟨session.connection, pc⟩, dispatches index log) := by
  have hlt := Server.lt_reading_of_mem hinv.chain hsession hpc
  obtain ⟨current, ⟨connection, at_pc⟩, hcurrent, hfollows, hexec⟩ := hinv.settled index hlt
  rw [hsession, Option.some.injEq] at hcurrent
  subst hcurrent
  obtain rfl : session.connection = connection := hfollows.connection
  have hslot := hpc
  rw [hfollows.reads] at hslot
  split at hslot
  · cases hslot
  · cases slot with
    | zero =>
      obtain rfl : at_pc = pc := by simpa using hslot
      exact ⟨rfl, hfollows, hexec⟩
    | succ slot => cases hslot

/-- The invariant survives a step of a read handler. -/
private theorem Server.Inv.of_read {events : List ServerEvent} {server next : Server}
    {log emitted : List ServerObservation} {index slot : Nat} {event : ReadEvent}
    (hinv : Server.Inv events server log) {session : Session} {pc : ReadPc} {reader : Reader}
    {presented : List Dispatch} (hsession : server.sessions[index]? = some session)
    (hpc : session.reads[slot]? = some pc)
    (hstep : Reader.step ⟨session.connection, pc⟩ event = some (reader, presented))
    (hpresented : dispatches index emitted = presented)
    (hothers : ∀ other, other ≠ index → dispatches other emitted = [])
    (hmain : next.main = server.main) (hhandlers : next.handlers = server.handlers)
    (haccept : next.accept = server.accept) (hclient : next.client_no = server.client_no)
    (hnext : next.next_id = server.next_id) (htable : next.table = server.table)
    (hsessions : next.sessions = server.sessions.set index (session.advance slot reader))
    (hplayers : next.room.players = server.room.players) :
    Server.Inv (events ++ [.read index slot event]) next (log ++ emitted) := by
  have hlt := Server.lt_reading_of_mem hinv.chain hsession hpc
  have hlength : next.sessions.length = server.sessions.length := by
    rw [hsessions, List.length_set]
  have hreading : next.reading = server.reading := by
    simp only [Server.reading, haccept, hlength]
  have hentered : next.entered = server.entered := by
    simp only [Server.entered, haccept, hlength]
  have hkept : ∀ other, other ≠ index → next.sessions[other]? = server.sessions[other]? := by
    intro other hne
    rw [hsessions, List.getElem?_set_ne hne.symm]
  have hreads : ∀ other, other ≠ index → readEvents other [.read index slot event] = [] := by
    intro other hne
    simp [readEvents, hne.symm]
  refine ⟨?_, ?_, ?_, ?_, ?_, ?_, ?_⟩
  · rw [hmain, hhandlers]
    exact hinv.handlers
  · rw [hmain, haccept]
    exact hinv.not_listening
  · have hchain := hinv.chain
    have hlast : ∀ other, server.reading ≤ other →
        next.sessions[other]? = server.sessions[other]? := by
      intro other hle
      apply hkept
      omega
    unfold Server.Chain at hchain ⊢
    unfold Server.reading at hlast
    rw [haccept, hclient, hnext]
    split at hchain
    all_goals (rename_i hpc; simp only [hpc] at hlast ⊢)
    · obtain ⟨_, _, hnone⟩ := hchain
      rw [hnone] at hsession
      cases hsession
    · rw [hlength]
      exact hchain
    · rw [hlength]
      exact hchain
    all_goals
      rw [hlength, hlast _ (by omega)]
      exact hchain
  · rw [htable, hlength]
    exact hinv.table
  · intro other hother
    rw [hreading] at hother
    by_cases hsame : other = index
    · subst hsame
      obtain ⟨rfl, hfollows, hexec⟩ := hinv.reader_of_mem hsession hpc
      refine ⟨session.advance 0 reader, reader, ?_, ⟨hfollows.player, rfl, ?_⟩, ?_⟩
      · rw [hsessions, List.getElem?_set_self (List.getElem?_eq_some_iff.mp hsession).1]
      · have hone : session.reads = [pc] := by
          have hnonempty := hpc
          rw [hfollows.reads] at hnonempty ⊢
          split at hnonempty
          · cases hnonempty
          · next hidle => rw [if_neg hidle]
        simp only [Session.advance, hone]
        split <;> rfl
      · rw [readEvents_append, dispatches_append, hpresented]
        simp only [readEvents, List.filterMap_cons, if_true, List.filterMap_nil]
        exact readerMachine.exec_snoc hexec hstep
    · obtain ⟨current, before, hcurrent, hfollows, hexec⟩ := hinv.settled other hother
      refine ⟨current, before, ?_, hfollows, ?_⟩
      · rw [hkept other hsame, hcurrent]
      · rw [readEvents_append, dispatches_append, hreads other hsame, hothers other hsame,
          List.append_nil, List.append_nil]
        exact hexec
  · intro other hle
    rw [hreading] at hle
    have hne : other ≠ index := by omega
    rw [readEvents_append, dispatches_append, hreads other hne, hothers other hne,
      List.append_nil, List.append_nil]
    exact hinv.untouched other hle
  · intro player
    rw [hplayers, hentered]
    exact hinv.players player

/-- The listener starts before the first client is accepted. -/
private theorem Server.Inv.started {events : List ServerEvent} {server : Server}
    {log : List ServerObservation} (hinv : Server.Inv events server log)
    (hbusy : server.accept ≠ .idle) :
    ¬ (server.main = .packet_handler_init ∨ server.main = .listener_start) := by
  intro hmain
  exact hbusy (hinv.not_listening hmain)

/-- The invariant survives the insertion of a new session. -/
private theorem Server.Inv.emplace_new {events : List ServerEvent} {server : Server}
    {log : List ServerObservation} (hinv : Server.Inv events server log)
    (hcount : server.client_no < 2 ^ 32) {id : BitVec 32} (haccept : server.accept = .adding id) :
    Server.Inv (events ++ [.emplace]) { server with
      sessions := server.sessions ++ [.new id]
      table := server.table.insert id server.sessions.length
      accept := .starting server.sessions.length } (log ++ []) := by
  have hchain := hinv.chain
  simp only [Server.Chain, haccept] at hchain
  obtain ⟨hclient, hnext, rfl⟩ := hchain
  have hstarted := hinv.started (by simp [haccept])
  refine hinv.of_same (fun _ => rfl) (fun _ => rfl) hinv.handlers
    (fun hmain => absurd hmain hstarted) ?_ ?_ ?_ ?_ ?_ rfl
  · simp [Server.Chain, hclient, hnext]
  · intro id index hfound
    rw [List.length_append, List.length_singleton]
    simp only at hfound
    by_cases hid : id = BitVec.ofNat 32 server.sessions.length
    · rw [hid, AList.lookup_insert, Option.some.injEq] at hfound
      rw [hid, BitVec.toNat_ofNat, Nat.mod_eq_of_lt (by omega)]
      omega
    · rw [AList.lookup_insert_ne hid] at hfound
      obtain ⟨hindex, hlt⟩ := hinv.table id index hfound
      omega
  · simp [Server.reading, haccept]
  · simp [Server.entered, haccept]
  · intro index hlt
    have hle := server.reading_le_length
    rw [List.getElem?_append_left (by omega)]

/-- The invariant survives the set-up of a session's player. -/
private theorem Server.Inv.start_new {events : List ServerEvent} {server : Server}
    {log : List ServerObservation} (hinv : Server.Inv events server log)
    {index : Nat} {session : Session} (haccept : server.accept = .starting index)
    (hsession : server.sessions[index]? = some session) :
    Server.Inv (events ++ [.start_session]) { server with
      sessions := server.sessions.set index
        { session.open with player := some ⟨BitVec.ofNat 32 server.next_id, true, index⟩ }
      next_id := server.next_id + 1
      accept := .entering index ⟨BitVec.ofNat 32 server.next_id, true, index⟩ } (log ++ []) := by
  have hchain := hinv.chain
  simp only [Server.Chain, haccept] at hchain
  obtain ⟨hclient, rfl, hlast, hnew⟩ := hchain
  rw [hnew, Option.some.injEq] at hsession
  subst hsession
  have hstarted := hinv.started (by simp [haccept])
  refine hinv.of_same (fun _ => rfl) (fun _ => rfl) hinv.handlers
    (fun hmain => absurd hmain hstarted) ?_ ?_ ?_ ?_ ?_ rfl
  · simp only [Server.Chain, List.length_set]
    refine ⟨hclient, hlast.symm, hlast, rfl, ?_⟩
    rw [List.getElem?_set_self (by omega)]
    rfl
  · simp only [List.length_set]
    exact hinv.table
  · simp [Server.reading, haccept]
  · simp [Server.entered, haccept]
  · intro index hlt
    simp only [Server.reading, haccept] at hlt
    rw [List.getElem?_set_ne (by omega)]

/-- The invariant survives the entry of a player, whose id is a new one. -/
private theorem Server.Inv.enter_object {events : List ServerEvent} {server : Server}
    {log : List ServerObservation} (hinv : Server.Inv events server log)
    (hcount : server.client_no < 2 ^ 32) {index : Nat} {player : Player}
    (hmain : server.main = .running) (haccept : server.accept = .entering index player) :
    Server.Inv (events ++ [.enter_object]) { server with
      registry := (server.registry.enter_object player.toObject).1
      room := { server.room with toRoom := server.room.toRoom.enter_object player }
      accept := .registering index } (log ++ [.entered player]) := by
  have hchain := hinv.chain
  simp only [Server.Chain, haccept] at hchain
  obtain ⟨hclient, hnext, hlast, rfl, hstarted⟩ := hchain
  refine ⟨hinv.handlers, by simp [hmain], ?_, hinv.table, ?_, ?_, ?_⟩
  · simp only [Server.Chain]
    exact ⟨hclient, hnext, hlast, hstarted⟩
  · intro other hlt
    obtain ⟨session, reader, hsession, hfollows, hexec⟩ :=
      hinv.settled other (by simpa [Server.reading, haccept] using hlt)
    refine ⟨session, reader, hsession, hfollows, ?_⟩
    rw [readEvents_append, dispatches_append]
    simpa [readEvents, dispatches] using hexec
  · intro other hle
    have huntouched := hinv.untouched other (by simpa [Server.reading, haccept] using hle)
    rw [readEvents_append, dispatches_append, huntouched.1, huntouched.2]
    exact ⟨rfl, rfl⟩
  · intro other
    have hbefore := hinv.players
    simp only [Server.entered, haccept, hlast] at hbefore ⊢
    simp only [Room.enter_object, Players.holds_insert_iff, hbefore]
    constructor
    · rintro (rfl | ⟨_, earlier, hlt, rfl⟩)
      · exact ⟨index, by omega, rfl⟩
      · exact ⟨earlier, by omega, rfl⟩
    · rintro ⟨earlier, hlt, rfl⟩
      by_cases hsame : earlier = index
      · rw [hsame]
        exact .inl rfl
      · refine .inr ⟨object_id_playerOf_ne (by omega) (by omega) hsame, earlier, ?_, rfl⟩
        omega

/-- The invariant survives the first read of a session. -/
private theorem Server.Inv.register_recv {events : List ServerEvent} {server : Server}
    {log : List ServerObservation} (hinv : Server.Inv events server log)
    {index : Nat} {session : Session} (haccept : server.accept = .registering index)
    (hsession : server.sessions[index]? = some session) :
    Server.Inv (events ++ [.register_recv]) { server with
      sessions := server.sessions.set index session.register_recv, accept := .accepting }
      (log ++ []) := by
  have hchain := hinv.chain
  simp only [Server.Chain, haccept] at hchain
  obtain ⟨hclient, hnext, hlast, hstarted⟩ := hchain
  rw [hstarted, Option.some.injEq] at hsession
  subst hsession
  have hstarted := hinv.started (by simp [haccept])
  have hnone := hinv.untouched index (by simp only [Server.reading, haccept]; omega)
  refine ⟨hinv.handlers, fun hmain => absurd hmain hstarted, ?_, ?_, ?_, ?_, ?_⟩
  · simp [Server.Chain, hclient, hnext]
  · simp only [List.length_set]
    exact hinv.table
  · intro other hlt
    simp only [Server.reading, List.length_set] at hlt
    rw [Settled, readEvents_append, dispatches_append]
    by_cases hsame : other = index
    · subst hsame
      refine ⟨Session.register_recv (.started other), .start, ?_, ⟨rfl, rfl, rfl⟩, ?_⟩
      · rw [List.getElem?_set_self (by omega)]
      · rw [hnone.1, hnone.2]
        rfl
    · obtain ⟨session, reader, hsession, hfollows, hexec⟩ :=
        hinv.settled other (by simp only [Server.reading, haccept]; omega)
      refine ⟨session, reader, ?_, hfollows, ?_⟩
      · rw [List.getElem?_set_ne (by omega), hsession]
      · simpa [readEvents, dispatches] using hexec
  · intro other hle
    simp only [Server.reading, List.length_set] at hle
    have huntouched := hinv.untouched other (by simp only [Server.reading, haccept]; omega)
    rw [readEvents_append, dispatches_append, huntouched.1, huntouched.2]
    exact ⟨rfl, rfl⟩
  · intro player
    have hbefore := hinv.players player
    simpa [Server.entered, haccept, List.length_set] using hbefore

theorem Server.Inv.step {parse : List UInt8 → Option (List UInt8)} {events : List ServerEvent}
    {server next : Server} {log emitted : List ServerObservation} {event : ServerEvent}
    (hinv : Server.Inv events server log) (hcount : next.client_no < 2 ^ 32)
    (hstep : server.step parse event = some (next, emitted)) :
    Server.Inv (events ++ [event]) next (log ++ emitted) := by
  have hchain := hinv.chain
  cases Server.step_cases hstep with
  | init_handlers hmain =>
    exact hinv.of_same (fun _ => rfl) (fun _ => rfl) (fun _ => rfl)
      (fun _ => hinv.not_listening (.inl hmain)) hchain hinv.table rfl rfl (fun _ _ => rfl) rfl
  | start_listener hmain =>
    have hidle := hinv.not_listening (.inr hmain)
    simp only [Server.Chain, hidle] at hchain
    obtain ⟨hclient, hnext, hnone⟩ := hchain
    refine hinv.of_same (fun _ => rfl) (fun _ => rfl)
      (fun _ => hinv.handlers (by simp [hmain])) (by simp) ?_ hinv.table ?_ ?_ (fun _ _ => rfl) rfl
    · simp [Server.Chain, hclient, hnext, hnone]
    · simp [Server.reading, hidle]
    · simp [Server.entered, hidle]
  | init_room hmain =>
    exact hinv.of_same (fun _ => rfl) (fun _ => rfl) (fun _ => hinv.handlers (by simp [hmain]))
      (by simp) hchain hinv.table rfl rfl (fun _ _ => rfl) rfl
  | run_workers hmain =>
    exact hinv.of_same (fun _ => rfl) (fun _ => rfl) (fun _ => hinv.handlers (by simp [hmain]))
      (by simp) hchain hinv.table rfl rfl (fun _ _ => rfl) rfl
  | accept hmain haccept =>
    simp only [Server.Chain, haccept] at hchain
    obtain ⟨hclient, hnext⟩ := hchain
    refine hinv.of_same (fun _ => rfl) (fun _ => rfl) hinv.handlers (by simp [hmain]) ?_
      hinv.table ?_ ?_ (fun _ _ => rfl) rfl
    · simp [Server.Chain, hclient, hnext]
    · simp [Server.reading, haccept]
    · simp [Server.entered, haccept]
  | accept_error =>
    exact hinv.of_same (fun _ => rfl) (fun _ => rfl) hinv.handlers hinv.not_listening hchain
      hinv.table rfl rfl (fun _ _ => rfl) rfl
  | @emplace_found id index haccept hfound =>
    -- an id is only found again after 2^32 connections
    simp only [Server.Chain, haccept] at hchain
    obtain ⟨hclient, _, hid⟩ := hchain
    obtain ⟨hindex, hlt⟩ := hinv.table id index hfound
    simp only at hcount
    rw [hid, BitVec.toNat_ofNat, Nat.mod_eq_of_lt (by omega)] at hindex
    omega
  | emplace_new haccept _ => exact hinv.emplace_new hcount haccept
  | start_again haccept hsession hplayer =>
    simp only [Server.Chain, haccept] at hchain
    rw [hchain.2.2.2, Option.some.injEq] at hsession
    rw [← hsession] at hplayer
    cases hplayer
  | start_new haccept hsession _ => exact hinv.start_new haccept hsession
  | enter_object hmain haccept => exact hinv.enter_object hcount hmain haccept
  | register_recv haccept hsession => exact hinv.register_recv haccept hsession
  | read hmain hsession hpc _ hreader =>
    exact hinv.of_read hsession hpc hreader rfl (fun _ _ => rfl) rfl rfl rfl rfl rfl rfl rfl rfl
  | drop hmain hsession hpc _ hreader _ =>
    refine hinv.of_read hsession hpc hreader ?_ ?_ rfl rfl rfl rfl rfl rfl rfl rfl
    · simp [dispatches]
    · intro other hne
      simp [dispatches, hne.symm]
  | @push _ _ _ _ _ _ _ _ _ seen hmain hsession hpc _ hreader _ hroom =>
    refine hinv.of_read hsession hpc hreader ?_ ?_ rfl rfl rfl rfl rfl rfl rfl ?_
    · simp [dispatches]
    · intro other hne
      simp [dispatches, hne.symm]
    · exact System.players_of_step (by simp) (by simp) hroom
  | notify_one hroom =>
    refine hinv.of_same (fun _ => rfl) (by simp) hinv.handlers hinv.not_listening hchain
      hinv.table rfl rfl (fun _ _ => rfl) ?_
    exact System.players_of_step (by simp) (by simp) hroom
  | @flush event room seen hflush hroom =>
    refine hinv.of_same (fun _ => rfl) (by simp) hinv.handlers hinv.not_listening hchain
      hinv.table rfl rfl (fun _ _ => rfl) ?_
    refine System.players_of_step ?_ ?_ hroom
    · rintro player rfl
      cases hflush
    · rintro player rfl
      cases hflush

theorem Server.client_no_le_of_step {parse : List UInt8 → Option (List UInt8)}
    {server next : Server} {emitted : List ServerObservation} {event : ServerEvent}
    (hstep : server.step parse event = some (next, emitted)) :
    server.client_no ≤ next.client_no := by
  cases Server.step_cases hstep with
  | accept => exact Nat.le_succ _
  | _ => exact Nat.le_refl _

/-- The invariant of every run of fewer than 2^32 accepted connections. -/
theorem Server.inv_of_exec {parse : List UInt8 → Option (List UInt8)} {events : List ServerEvent}
    {server : Server} {log : List ServerObservation}
    (hexec : (serverMachine parse).exec .start events = some (server, log))
    (hcount : server.client_no < 2 ^ 32) : Server.Inv events server log := by
  refine (serverMachine parse).exec_induct (fun events server log =>
    server.client_no < 2 ^ 32 → Server.Inv events server log) (fun _ => .start) ?_
    events server log hexec hcount
  intro events server log event next emitted _ ih hstep hnext
  have hle := Server.client_no_le_of_step hstep
  exact (ih (by omega)).step hnext hstep

end topview.server
