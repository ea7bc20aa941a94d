import TopView.Server.Closing

open topview.packet_handler topview.protocol topview.room topview.session topview.transition

namespace topview.server

/-- A run has taken the player into the room, through a function that had been
    stored before. -/
def EntersSoundly (parse : List UInt8 → Option (List UInt8)) (events : List ServerEvent)
    (player : Player) : Prop :=
  ∃ server next later index,
    (serverMachine parse).Takes .start events server .enter_object next later ∧
      server.accept = .entering index player ∧
      server.registry.insert_object_table[ObjectType.player.value]? = some (some .player)

/-- What a handler finds that is called for a packet of a session. -/
structure SafeDispatch (parse : List UInt8 → Option (List UInt8)) (events : List ServerEvent)
    (server : Server) (index : Nat) (session : Session) (player : Player) : Prop where
  playing : session.player = some player
  in_room : player.in_room = true
  own : player.session = index
  held : server.room.players.Holds player
  /-- The map `_players` has it under its id. -/
  registered : server.registry.players.lookup player.object_id = some player.toObject
  entered : EntersSoundly parse events player
  /-- `Handle_C_CHAT` does not meet a null player. -/
  handled : ∀ text, handle_c_chat index session.player text ≠ none

/-- The socket of a session is closed, and no read of it is outstanding or in
    `ProcessRecv`. -/
def Server.Closed (server : Server) (index : Nat) : Prop :=
  ∃ session, server.sessions[index]? = some session ∧ session.connection.is_open = false ∧
    ∀ pc ∈ session.reads, pc = .returned

/-- The life cycle of the sessions of a run. -/
structure LifeCycle (parse : List UInt8 → Option (List UInt8)) (events : List ServerEvent)
    (server : Server) : Prop where
  /-- No two reads of a session are outstanding or being handled. -/
  one_read : ∀ (index : Nat) (session : Session), server.sessions[index]? = some session →
    session.reads.length ≤ 1
  /-- When `ProcessRecv` is about to call a handler, the handler is safe. -/
  dispatched : ∀ (index slot : Nat) (session : Session) (dispatch : Dispatch),
    server.sessions[index]? = some session → session.reads[slot]? = some .looping →
    present session.connection.recv_buffer = some dispatch →
    ∃ player, SafeDispatch parse events server index session player
  /-- The step that runs `Session::Close` closes the socket. From then on it stays
      closed, no read of the session is issued and no handler is called for it. -/
  closed : ∀ (earlier next : Server) (event : ReadEvent) (later : List ServerEvent)
      (index slot : Nat),
    (serverMachine parse).Takes .start events earlier (.read index slot event) next later →
    event.RunsClose →
    next.Closed index ∧ server.Closed index ∧
      ∀ log, (serverMachine parse).exec earlier (.read index slot event :: later) =
        some (server, log) → dispatches index log = []

theorem Server.reading_le_entered (server : Server) : server.reading ≤ server.entered := by
  unfold Server.reading Server.entered
  split <;> simp_all

/-- A player enters by a step of the accept handler, which a worker runs. -/
theorem enter_object_of_step {parse : List UInt8 → Option (List UInt8)} {server next : Server}
    {event : ServerEvent} {emitted : List ServerObservation} {player : Player}
    (hstep : server.step parse event = some (next, emitted)) (hmem : .entered player ∈ emitted) :
    event = .enter_object ∧ server.main = .running ∧
      ∃ index, server.accept = .entering index player := by
  cases Server.step_cases hstep with
  | @enter_object index entering hmain haccept =>
    rw [ServerObservation.entered.inj (List.mem_singleton.mp hmem)]
    exact ⟨rfl, hmain, index, haccept⟩
  | _ => simp at hmem

/-- What a run keeps of the registry. `main` fills its tables before it starts
    the workers. -/
structure Server.Registered (server : Server) : Prop where
  filled : server.main = .run_workers ∨ server.main = .running →
    FilledTable server.registry.insert_object_table
  shows : server.registry.Shows server.room.players

theorem Server.Registered.of_same {server next : Server} (hregistered : server.Registered)
    (hmain : next.main = server.main) (hregistry : next.registry = server.registry)
    (hplayers : next.room.players = server.room.players) : next.Registered := by
  constructor
  · rw [hmain, hregistry]
    exact hregistered.filled
  · rw [hregistry, hplayers]
    exact hregistered.shows

theorem Server.Registered.step {parse : List UInt8 → Option (List UInt8)} {server next : Server}
    {event : ServerEvent} {emitted : List ServerObservation} (hregistered : server.Registered)
    (hstep : server.step parse event = some (next, emitted)) : next.Registered := by
  cases Server.step_cases hstep with
  | init_handlers => exact ⟨by simp, hregistered.shows⟩
  | start_listener => exact ⟨by simp, hregistered.shows⟩
  | init_room =>
    exact ⟨fun _ => (filledTable_init_object_table _).1, hregistered.shows⟩
  | run_workers hmain => exact ⟨fun _ => hregistered.filled (.inl hmain), hregistered.shows⟩
  | @enter_object index player hmain _ =>
    have hfilled := hregistered.filled (.inr hmain)
    constructor
    · intro _
      simp only [Registry.enter_object, Registry.call_of_filled hfilled]
      split
      · rw [Registry.insert_object_table_set_map]
        exact hfilled
      · exact hfilled
    · exact hregistered.shows.enter_object hfilled player
  | push _ _ _ _ _ _ hroom =>
    exact hregistered.of_same rfl rfl (System.players_of_step (by simp) (by simp) hroom)
  | notify_one hroom =>
    exact hregistered.of_same rfl rfl (System.players_of_step (by simp) (by simp) hroom)
  | flush hflush hroom =>
    refine hregistered.of_same rfl rfl (System.players_of_step ?_ ?_ hroom)
    · rintro player rfl
      cases hflush
    · rintro player rfl
      cases hflush
  | _ => exact hregistered.of_same rfl rfl rfl

/-- The players of the room are those in the map `_players` of the registry. -/
theorem Server.registered_of_exec {parse : List UInt8 → Option (List UInt8)}
    {events : List ServerEvent} {server : Server} {log : List ServerObservation}
    (hexec : (serverMachine parse).exec .start events = some (server, log)) :
    server.Registered := by
  refine (serverMachine parse).exec_invariant Server.Registered ?_ ?_ hexec
  · exact ⟨by simp [Server.start], fun _ => rfl⟩
  · intro server event next emitted hregistered hstep
    exact hregistered.step hstep

/-- Players enter when the function table has been filled. -/
theorem entersSoundly_of_entered {parse : List UInt8 → Option (List UInt8)}
    {events : List ServerEvent} {server : Server} {log : List ServerObservation}
    (hexec : (serverMachine parse).exec .start events = some (server, log)) {player : Player}
    (hentered : .entered player ∈ log) : EntersSoundly parse events player := by
  obtain ⟨before, after, rfl⟩ := List.append_of_mem hentered
  obtain ⟨first, event, second, earlier, next, log, left, right, rfl, hfirst, hstep, _, _⟩ :=
    (serverMachine parse).exec_split hexec
  obtain ⟨rfl, hmain, index, haccept⟩ :=
    enter_object_of_step hstep (List.mem_append_right _ List.mem_cons_self)
  have hfilled := (Server.registered_of_exec hfirst).filled (.inr hmain) .player
  refine ⟨earlier, next, second, index, ⟨first, log, _, rfl, hfirst, hstep⟩, haccept, ?_⟩
  exact Option.join_eq_some_iff.mp hfilled

/-- A session whose socket has been closed has ended its read handler. -/
theorem Server.Inv.ended {events : List ServerEvent} {server : Server}
    {log : List ServerObservation} (hinv : Server.Inv events server log) {index : Nat}
    {session : Session} (hsession : server.sessions[index]? = some session)
    (hplayer : session.player.isSome = true) (hclosed : session.connection.is_open = false) :
    ∃ reader : Reader, reader.Ended ∧
      readerMachine.exec .start (readEvents index events) = some (reader, dispatches index log) := by
  by_cases hreading : index < server.reading
  · obtain ⟨current, reader, hcurrent, hfollows, hreader⟩ := hinv.settled index hreading
    rw [hsession, Option.some.injEq] at hcurrent
    subst hcurrent
    rw [hfollows.connection] at hclosed
    exact ⟨reader, Reader.ended_of_exec hreader hclosed, hreader⟩
  · rcases Server.new_or_started hinv.chain (Nat.le_of_not_lt hreading) hsession with
      ⟨_, rfl⟩ | rfl
    · cases hplayer
    · cases hclosed

theorem length_reads_le_one {events : List ServerEvent} {server : Server}
    {log : List ServerObservation} (hinv : Server.Inv events server log) {index : Nat}
    {session : Session} (hsession : server.sessions[index]? = some session) :
    session.reads.length ≤ 1 := by
  by_cases hreading : index < server.reading
  · obtain ⟨current, reader, hcurrent, hfollows, _⟩ := hinv.settled index hreading
    rw [hsession, Option.some.injEq] at hcurrent
    subst hcurrent
    rw [hfollows.reads]
    split <;> simp
  · rcases Server.new_or_started hinv.chain (Nat.le_of_not_lt hreading) hsession with
      ⟨_, rfl⟩ | rfl
    · exact Nat.zero_le 1
    · exact Nat.zero_le 1

/-- The player of a session that reads is in the room. -/
theorem safeDispatch_of_exec {parse : List UInt8 → Option (List UInt8)}
    {events : List ServerEvent} {server : Server} {log : List ServerObservation}
    (hexec : (serverMachine parse).exec .start events = some (server, log))
    (hcount : server.client_no < 2 ^ 32) {index slot : Nat} {session : Session} {pc : ReadPc}
    (hsession : server.sessions[index]? = some session) (hpc : session.reads[slot]? = some pc) :
    SafeDispatch parse events server index session (playerOf index) := by
  have hinv := Server.inv_of_exec hexec hcount
  have hplayer := (hinv.reader_of_mem hsession hpc).2.1.player
  have hreading := Server.lt_reading_of_mem hinv.chain hsession hpc
  have hholds := (hinv.players (playerOf index)).mpr
    ⟨index, Nat.lt_of_lt_of_le hreading server.reading_le_entered, rfl⟩
  refine ⟨hplayer, rfl, rfl, hholds, ?_, ?_, ?_⟩
  · rw [(Server.registered_of_exec hexec).shows, show server.room.players.map.lookup _ = _ from hholds,
      Option.map_some]
  · exact entersSoundly_of_entered hexec ((holds_iff_entered_of_exec hexec hcount _).mp hholds)
  · intro text
    rw [hplayer]
    simp [handle_c_chat]

/-- The step that runs `Session::Close` leaves the socket of its session closed. -/
theorem closed_of_step {parse : List UInt8 → Option (List UInt8)} {events : List ServerEvent}
    {server next : Server} {log emitted : List ServerObservation}
    (hexec : (serverMachine parse).exec .start events = some (server, log))
    (hcount : server.client_no < 2 ^ 32) {index slot : Nat} {event : ReadEvent}
    (hstep : server.step parse (.read index slot event) = some (next, emitted))
    (hclose : event.RunsClose) :
    emitted = [] ∧ ∃ session, next.sessions[index]? = some session ∧
      session.player.isSome = true ∧ session.connection.is_open = false := by
  have hinv := Server.inv_of_exec hexec hcount
  cases Server.step_cases hstep with
  | read _ hsession hpc _ hreader =>
    have hlength := (List.getElem?_eq_some_iff.mp hsession).1
    have hplayer := (hinv.reader_of_mem hsession hpc).2.1.player
    refine ⟨rfl, _, List.getElem?_set_self hlength, ?_, ?_⟩
    · simp [Session.advance, hplayer]
    · exact (Reader.ended_of_runsClose hclose hreader).1.1
  | drop _ _ _ _ hreader => cases (Reader.ended_of_runsClose hclose hreader).2
  | push _ _ _ _ hreader => cases (Reader.ended_of_runsClose hclose hreader).2

/-- What a closed session shows in the rest of a run. -/
theorem closed_of_exec {parse : List UInt8 → Option (List UInt8)}
    {first later : List ServerEvent} {earlier server : Server}
    {before after : List ServerObservation}
    (hfirst : (serverMachine parse).exec .start first = some (earlier, before))
    (hlater : (serverMachine parse).exec earlier later = some (server, after))
    (hcount : server.client_no < 2 ^ 32) {index : Nat} {session : Session}
    (hsession : earlier.sessions[index]? = some session)
    (hplayer : session.player.isSome = true) (hclosed : session.connection.is_open = false) :
    server.Closed index ∧ dispatches index after = [] := by
  have hle := Server.client_no_le_of_exec hlater
  have hinv := Server.inv_of_exec ((serverMachine parse).exec_append hfirst hlater) hcount
  obtain ⟨reader, hended, hreader⟩ :=
    (Server.inv_of_exec hfirst (by omega)).ended hsession hplayer hclosed
  by_cases hreading : index < server.reading
  · obtain ⟨current, final, hcurrent, hfollows, hfinal⟩ := hinv.settled index hreading
    rw [readEvents_append, dispatches_append] at hfinal
    obtain ⟨middle, shown, rest, hmiddle, hrest, hlog⟩ :=
      readerMachine.exec_append_eq_some_iff.mp hfinal
    rw [hreader, Option.some.injEq, Prod.mk.injEq] at hmiddle
    obtain ⟨rfl, rfl⟩ := hmiddle
    obtain ⟨hlast, hnone⟩ := hended.exec hrest
    refine ⟨⟨current, hcurrent, ?_, ?_⟩, ?_⟩
    · rw [hfollows.connection]
      exact hlast.1
    · intro pc hmem
      rw [hfollows.reads] at hmem
      rcases hlast.2 with hpc | hpc
      · simpa [hpc] using hmem
      · simp [hpc] at hmem
    · rw [List.append_cancel_left hlog, hnone]
  · -- a session that has never read has not been closed
    have huntouched := hinv.untouched index (Nat.le_of_not_lt hreading)
    rw [readEvents_append] at huntouched
    rw [(List.append_eq_nil_iff.mp huntouched.1).1] at hreader
    obtain ⟨rfl, _⟩ := Prod.mk.inj (Option.some.inj hreader)
    cases hended.1

/-- A session is closed from the step on that runs `Session::Close`. -/
theorem closed_of_runsClose {parse : List UInt8 → Option (List UInt8)}
    {first later : List ServerEvent} {earlier next server : Server}
    {before emitted after : List ServerObservation} {index slot : Nat} {event : ReadEvent}
    (hfirst : (serverMachine parse).exec .start first = some (earlier, before))
    (hstep : (serverMachine parse).step earlier (.read index slot event) = some (next, emitted))
    (hlater : (serverMachine parse).exec next later = some (server, after))
    (hcount : server.client_no < 2 ^ 32) (hclose : event.RunsClose) :
    next.Closed index ∧ server.Closed index ∧ dispatches index (emitted ++ after) = [] := by
  have hnext := (serverMachine parse).exec_snoc hfirst hstep
  have hle := Server.client_no_le_of_exec hlater
  have hle' := Server.client_no_le_of_step hstep
  obtain ⟨rfl, session, hsession, hplayer, hclosed⟩ :=
    closed_of_step hfirst (by omega) hstep hclose
  obtain ⟨hserver, hnone⟩ := closed_of_exec hnext hlater hcount hsession hplayer hclosed
  obtain ⟨hself, _⟩ := closed_of_exec hnext ((serverMachine parse).exec_nil next)
    (by omega) hsession hplayer hclosed
  exact ⟨hself, hserver, hnone⟩

/-- In every run of fewer than 2^32 accepted connections, however the workers
    interleave, a session has one read at most, its handlers find its player in
    the room, and it neither reads nor calls handlers after `Session::Close`. -/
theorem lifeCycle_of_exec (parse : List UInt8 → Option (List UInt8)) (events : List ServerEvent)
    (server : Server) (log : List ServerObservation)
    (hexec : (serverMachine parse).exec .start events = some (server, log))
    (hcount : server.client_no < 2 ^ 32) : LifeCycle parse events server := by
  refine ⟨?_, ?_, ?_⟩
  · intro index session hsession
    exact length_reads_le_one (Server.inv_of_exec hexec hcount) hsession
  · intro index slot session dispatch hsession hpc _
    exact ⟨playerOf index, safeDispatch_of_exec hexec hcount hsession hpc⟩
  · rintro earlier next event later index slot ⟨first, before, emitted, rfl, hfirst, hstep⟩ hclose
    obtain ⟨middle, _, after, hmiddle, hafter, _⟩ :=
      (serverMachine parse).exec_append_eq_some_iff.mp hexec
    obtain rfl : earlier = middle := by
      rw [hfirst, Option.some.injEq, Prod.mk.injEq] at hmiddle
      exact hmiddle.1
    obtain ⟨reached, seen, rest, hreached, hrest, rfl⟩ :=
      (serverMachine parse).exec_cons_eq_some_iff.mp hafter
    obtain ⟨rfl, rfl⟩ : next = reached ∧ emitted = seen := by
      rw [hstep, Option.some.injEq, Prod.mk.injEq] at hreached
      exact hreached
    obtain ⟨hnext, hserver, hnone⟩ := closed_of_runsClose hfirst hstep hrest hcount hclose
    refine ⟨hnext, hserver, ?_⟩
    intro shown hshown
    rw [hafter, Option.some.injEq, Prod.mk.injEq] at hshown
    rw [← hshown.2]
    exact hnone

/-- The packets of two sessions are handled at the same time. The first session
    is closed by a read of no bytes, and the second one goes on. -/
def closedMeanwhile : List ServerEvent :=
  [.main, .main, .main, .main, .accept, .emplace, .start_session, .enter_object, .register_recv,
    .accept, .emplace, .start_session, .enter_object, .register_recv,
    .read 0 0 (.read [7, 0, 1, 0, 10, 1, 65]), .read 1 0 (.read [7, 0, 1, 0, 10, 1, 66]),
    .read 0 0 .present, .read 1 0 .present, .notify_one 0, .read 0 0 .advance, .read 0 0 .present,
    .read 0 0 .register_recv, .read 0 0 (.read []), .notify_one 1, .read 1 0 .advance,
    .read 0 0 .register_recv, .read 1 0 .present, .read 1 0 .register_recv,
    .read 1 0 (.read [7, 0, 1, 0, 10, 1, 67]), .read 1 0 .present]

theorem lifeCycle_of_exec_closedMeanwhile : ∃ server log,
    (serverMachine parse_short).exec .start closedMeanwhile = some (server, log) ∧
      (dispatches 0 log).map Dispatch.toPacket = [(chatFrame 65).toPacket] ∧
      (dispatches 1 log).map Dispatch.toPacket =
        [(chatFrame 66).toPacket, (chatFrame 67).toPacket] ∧
      LifeCycle parse_short closedMeanwhile server := by
  have hrun : (((serverMachine parse_short).exec .start closedMeanwhile).map fun result =>
      (result.1.client_no, (dispatches 0 result.2).map Dispatch.toPacket,
        (dispatches 1 result.2).map Dispatch.toPacket)) =
        some (2, [(chatFrame 65).toPacket], [(chatFrame 66).toPacket, (chatFrame 67).toPacket]) := by
    decide +kernel
  obtain ⟨⟨server, log⟩, hexec, hresult⟩ := Option.map_eq_some_iff.mp hrun
  obtain ⟨hclient, hpackets⟩ := Prod.mk.inj hresult
  obtain ⟨hfirst, hsecond⟩ := Prod.mk.inj hpackets
  have hcount : server.client_no < 2 ^ 32 := by
    rw [show server.client_no = 2 from hclient]
    decide
  exact ⟨server, log, hexec, hfirst, hsecond,
    lifeCycle_of_exec parse_short closedMeanwhile server log hexec hcount⟩

end topview.server
