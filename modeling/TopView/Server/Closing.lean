import TopView.Server.PayloadSize
import TopView.Server.Relay
import TopView.Transition.Heap

open topview.packet_handler topview.protocol topview.room topview.session topview.transition

namespace topview.server

/-- In this step the completion of a read of the session returns, and it leaves
    the socket closed: it has failed, or `RegisterRecv` finds that `ProcessRecv`
    has closed the socket. -/
def Server.Closes (server : Server) (index : Nat) : ServerEvent → Prop
  | .read session _ .error => session = index
  | .read session _ .register_recv =>
    session = index ∧ ∃ current, server.sessions[index]? = some current ∧
      current.connection.is_open = false
  | _ => False

/-- The socket of the session is open, or the completion that has closed it is
    still running. -/
def Server.Attends (server : Server) (index : Nat) : Prop :=
  ∃ session, server.sessions[index]? = some session ∧
    (session.connection.is_open = true ∨ .returned ∈ session.reads)

/-- Once the completion that has closed a session has returned, neither the
    session manager nor the room knows the session any longer. -/
structure ForgetsClosed (parse : List UInt8 → Option (List UInt8)) (events : List ServerEvent) :
    Prop where
  table : ∀ server event next later index session,
    (serverMachine parse).Takes .start events server event next later →
    server.Closes index event → next.sessions[index]? = some session →
    ∀ after current log, after <+: later →
      (serverMachine parse).exec next after = some (current, log) →
      current.table.lookup session.session_id = none
  players : ∀ server event next later index,
    (serverMachine parse).Takes .start events server event next later →
    server.Closes index event →
    ∀ after current log, after <+: later →
      (serverMachine parse).exec next after = some (current, log) →
      ∀ player, current.room.players.Holds player → player.session ≠ index
  /-- A snapshot holds players only whose sessions are attended to when it is
      taken. -/
  snapshots : ∀ server next players_snapshot later,
    (serverMachine parse).Takes .start events server (.flush (.swap players_snapshot)) next later →
    ∀ entry ∈ players_snapshot, server.Attends entry.2.session
  /-- No round that starts after a session has been closed sends to it. -/
  sends : ∀ server event next later index,
    (serverMachine parse).Takes .start events server event next later →
    server.Closes index event →
    ∀ final before batch players_snapshot after,
      (serverMachine parse).exec next later =
        some (final, before ++ .room (.swapped batch players_snapshot) :: after) →
      ∀ player sent, .room (.sent player sent) ∈ after → player.session ≠ index

/-- The session that is closed is still there afterwards. -/
theorem Server.Closes.exists_session {parse : List UInt8 → Option (List UInt8)}
    {server next : Server} {index : Nat} {event : ServerEvent} {emitted : List ServerObservation}
    (hcloses : server.Closes index event)
    (hstep : server.step parse event = some (next, emitted)) :
    ∃ session, next.sessions[index]? = some session := by
  have hindex : ∀ {other slot : Nat} {event : ReadEvent},
      server.Closes index (.read other slot event) → other = index := by
    intro other slot event hcloses
    cases event with
    | error => exact hcloses
    | register_recv => exact hcloses.1
    | _ => cases hcloses
  cases Server.step_cases hstep with
  | read _ hsession =>
    obtain rfl := hindex hcloses
    exact ⟨_, List.getElem?_set_self (List.getElem?_eq_some_iff.mp hsession).1⟩
  | drop _ hsession =>
    obtain rfl := hindex hcloses
    exact ⟨_, List.getElem?_set_self (List.getElem?_eq_some_iff.mp hsession).1⟩
  | push _ hsession =>
    obtain rfl := hindex hcloses
    exact ⟨_, List.getElem?_set_self (List.getElem?_eq_some_iff.mp hsession).1⟩
  | _ => cases hcloses

/-- Every session is in the table, under its own id. -/
def Server.Listed (server : Server) : Prop :=
  ∀ index session, server.sessions[index]? = some session →
    server.table.lookup session.session_id = some index

/-- A session keeps its place in the table as long as it keeps its id. -/
theorem Server.Listed.of_set {server next : Server} (hlisted : server.Listed) {index : Nat}
    {session current : Session} (hsession : server.sessions[index]? = some session)
    (htable : next.table = server.table)
    (hsessions : next.sessions = server.sessions.set index current)
    (hid : current.session_id = session.session_id) : next.Listed := by
  intro other found hfound
  rw [hsessions] at hfound
  rw [htable]
  rcases (getElem?_set_eq_some_iff hsession).mp hfound with ⟨rfl, rfl⟩ | ⟨_, hkept⟩
  · rw [hid]
    exact hlisted other session hsession
  · exact hlisted other found hkept

theorem Server.Listed.emplace_new {server next : Server} (hlisted : server.Listed)
    {id : BitVec 32} (hnew : server.table.lookup id = none)
    (htable : next.table = server.table.insert id server.sessions.length)
    (hsessions : next.sessions = server.sessions ++ [.new id]) : next.Listed := by
  intro index session hsession
  rw [hsessions, getElem?_snoc_eq_some_iff] at hsession
  rw [htable]
  rcases hsession with hbefore | ⟨rfl, rfl⟩
  · -- an older session has another id, as this one is not in the table
    have hold := hlisted index session hbefore
    have hne : session.session_id ≠ id := by
      intro hsame
      rw [hsame, hnew] at hold
      cases hold
    rw [AList.lookup_insert_ne hne, hold]
  · exact AList.lookup_insert server.table

theorem Server.Listed.step {parse : List UInt8 → Option (List UInt8)} {server next : Server}
    {event : ServerEvent} {emitted : List ServerObservation} (hlisted : server.Listed)
    (hstep : server.step parse event = some (next, emitted)) : next.Listed := by
  cases Server.step_cases hstep with
  | emplace_new _ hnew => exact hlisted.emplace_new hnew rfl rfl
  | start_again _ hsession _ => exact hlisted.of_set hsession rfl rfl rfl
  | start_new _ hsession _ => exact hlisted.of_set hsession rfl rfl rfl
  | register_recv _ hsession =>
    refine hlisted.of_set hsession rfl rfl ?_
    unfold Session.register_recv
    split <;> rfl
  | read _ hsession _ _ _ => exact hlisted.of_set hsession rfl rfl rfl
  | drop _ hsession _ _ _ _ => exact hlisted.of_set hsession rfl rfl rfl
  | push _ hsession _ _ _ _ _ => exact hlisted.of_set hsession rfl rfl rfl
  | _ => exact hlisted

/-- `SessionManager` never lets go of a session, as nothing calls `RemoveSession`. -/
theorem Server.listed_of_exec {parse : List UInt8 → Option (List UInt8)}
    {events : List ServerEvent} {server : Server} {log : List ServerObservation}
    (hexec : (serverMachine parse).exec .start events = some (server, log)) : server.Listed := by
  refine (serverMachine parse).exec_invariant Server.Listed ?_ ?_ hexec
  · intro index session hsession
    cases hsession
  · intro server event next emitted hlisted hstep
    exact hlisted.step hstep

/-- The session exists and has entered the room or is about to. -/
def Server.Started (server : Server) (index : Nat) : Prop :=
  ∃ session, server.sessions[index]? = some session ∧ session.player.isSome = true

/-- What a run maintains in which no closing completion has returned yet. -/
structure Server.Attended (server : Server) : Prop where
  attended : ∀ index, server.Started index → server.Attends index
  players : ∀ player, server.room.players.Holds player → server.Started player.session
  entering : ∀ index player, server.accept = .entering index player →
    server.Started player.session

/-- A session that has been replaced is started if it was. -/
theorem Server.started_of_set {server next : Server} {index : Nat} {session current : Session}
    (hsession : server.sessions[index]? = some session)
    (hsessions : next.sessions = server.sessions.set index current)
    (hplayer : session.player.isSome = true → current.player.isSome = true) {other : Nat}
    (hstarted : server.Started other) : next.Started other := by
  obtain ⟨found, hfound, hsome⟩ := hstarted
  unfold Server.Started
  rw [hsessions]
  by_cases hsame : other = index
  · subst hsame
    rw [hsession, Option.some.injEq] at hfound
    subst hfound
    have hlength := (List.getElem?_eq_some_iff.mp hsession).1
    exact ⟨current, List.getElem?_set_self hlength, hplayer hsome⟩
  · rw [List.getElem?_set_ne (Ne.symm hsame)]
    exact ⟨found, hfound, hsome⟩

/-- The invariant survives the replacement of a session by one that is attended
    to if it has been started. -/
theorem Server.Attended.of_set {server next : Server} (hattended : server.Attended)
    {index : Nat} {session current : Session} (hsession : server.sessions[index]? = some session)
    (hsessions : next.sessions = server.sessions.set index current)
    (hplayers : next.room.players = server.room.players)
    (hplayer : session.player.isSome = true → current.player.isSome = true)
    (hcurrent : current.player.isSome = true → current.connection.is_open = true ∨
      .returned ∈ current.reads)
    (hentering : ∀ other player, next.accept = .entering other player →
      next.Started player.session) : next.Attended := by
  refine ⟨?_, ?_, hentering⟩
  · rintro other ⟨found, hfound, hsome⟩
    unfold Server.Attends
    rw [hsessions] at hfound ⊢
    refine ⟨found, hfound, ?_⟩
    rcases (getElem?_set_eq_some_iff hsession).mp hfound with ⟨rfl, rfl⟩ | ⟨_, hkept⟩
    · exact hcurrent hsome
    · obtain ⟨same, hsame, hattends⟩ := hattended.attended other ⟨found, hkept, hsome⟩
      rw [hkept, Option.some.injEq] at hsame
      rw [hsame]
      exact hattends
  · intro player hholds
    rw [hplayers] at hholds
    exact Server.started_of_set hsession hsessions hplayer (hattended.players player hholds)

/-- The completion of a read keeps its session attended to, unless it closes the
    session and returns. -/
theorem attends_advance {session : Session} {index slot : Nat} {event : ReadEvent} {pc : ReadPc}
    {reader : Reader} {presented : List Dispatch} {server : Server}
    (hsession : server.sessions[index]? = some session) (hpc : session.reads[slot]? = some pc)
    (hstep : Reader.step ⟨session.connection, pc⟩ event = some (reader, presented))
    (hopen : ¬ server.Closes index (.read index slot event))
    (hattends : session.connection.is_open = true ∨ .returned ∈ session.reads) :
    (session.advance slot reader).connection.is_open = true ∨
      .returned ∈ (session.advance slot reader).reads := by
  have hlength := (List.getElem?_eq_some_iff.mp hpc).1
  have hset : ∀ other : ReadPc, pc ≠ .returned → .returned ∈ session.reads →
      .returned ∈ session.reads.set slot other := by
    intro other hne hmem
    obtain ⟨place, hplace⟩ := List.mem_iff_getElem?.mp hmem
    have hkept : (session.reads.set slot other)[place]? = some .returned := by
      rw [List.getElem?_set_ne, hplace]
      rintro rfl
      rw [hpc, Option.some.injEq] at hplace
      exact hne hplace
    exact List.mem_of_getElem? hkept
  cases Reader.step_cases hstep with
  | read hreading =>
    simp only at hreading
    exact hattends.imp id (hset _ (by simp [hreading]))
  | empty =>
    simp [Session.advance, List.mem_set hlength]
  | error => exact absurd rfl hopen
  | stop => simp [Session.advance, List.mem_set hlength]
  | present hlooping =>
    simp only at hlooping
    exact hattends.imp id (hset _ (by simp [hlooping]))
  | advance hhandling =>
    simp only at hhandling
    exact hattends.imp id (hset _ (by simp [hhandling]))
  | register_recv =>
    cases hsocket : session.connection.is_open with
    | false => exact absurd ⟨rfl, session, hsession, hsocket⟩ hopen
    | true => exact .inl hsocket

/-- The invariant survives a step that leaves the sessions and the players as
    they are. -/
theorem Server.Attended.of_same {server next : Server} (hattended : server.Attended)
    (hsessions : next.sessions = server.sessions)
    (hplayers : next.room.players = server.room.players)
    (hentering : ∀ other player, next.accept = .entering other player →
      server.accept = .entering other player) : next.Attended := by
  refine ⟨?_, ?_, ?_⟩
  · intro index hstarted
    unfold Server.Started at hstarted
    unfold Server.Attends
    rw [hsessions] at hstarted ⊢
    exact hattended.attended index hstarted
  · intro player hholds
    rw [hplayers] at hholds
    unfold Server.Started
    rw [hsessions]
    exact hattended.players player hholds
  · intro index player hpc
    unfold Server.Started
    rw [hsessions]
    exact hattended.entering index player (hentering index player hpc)

theorem Server.Attended.emplace_new {server : Server} (hattended : server.Attended)
    (id : BitVec 32) : Server.Attended { server with
      sessions := server.sessions ++ [.new id]
      table := server.table.insert id server.sessions.length
      accept := .starting server.sessions.length } := by
  refine ⟨?_, ?_, by simp⟩
  · rintro index ⟨session, hsession, hsome⟩
    refine ⟨session, hsession, ?_⟩
    rcases getElem?_snoc_eq_some_iff.mp hsession with hbefore | ⟨_, rfl⟩
    · obtain ⟨same, hsame, hattends⟩ := hattended.attended index ⟨session, hbefore, hsome⟩
      rw [hbefore, Option.some.injEq] at hsame
      rw [hsame]
      exact hattends
    · -- the new session has no player yet
      cases hsome
  · intro player hholds
    obtain ⟨session, hsession, hsome⟩ := hattended.players player hholds
    exact ⟨session, getElem?_snoc_eq_some_iff.mpr (.inl hsession), hsome⟩

theorem Server.Attended.of_read {server next : Server} (hattended : server.Attended)
    {index slot : Nat} {session : Session} {pc : ReadPc} {event : ReadEvent} {reader : Reader}
    {presented : List Dispatch} (hsession : server.sessions[index]? = some session)
    (hpc : session.reads[slot]? = some pc)
    (hstep : Reader.step ⟨session.connection, pc⟩ event = some (reader, presented))
    (hopen : ¬ server.Closes index (.read index slot event))
    (hsessions : next.sessions = server.sessions.set index (session.advance slot reader))
    (hplayers : next.room.players = server.room.players) (haccept : next.accept = server.accept) :
    next.Attended := by
  refine hattended.of_set hsession hsessions hplayers id ?_ ?_
  · intro hsome
    obtain ⟨same, hsame, hattends⟩ := hattended.attended index ⟨session, hsession, hsome⟩
    rw [hsession, Option.some.injEq] at hsame
    subst hsame
    exact attends_advance hsession hpc hstep hopen hattends
  · intro other player hentering
    rw [haccept] at hentering
    exact Server.started_of_set hsession hsessions id (hattended.entering other player hentering)

theorem Server.Attended.step {parse : List UInt8 → Option (List UInt8)} {server next : Server}
    {event : ServerEvent} {emitted : List ServerObservation} (hattended : server.Attended)
    (hopen : ∀ index, ¬ server.Closes index event)
    (hstep : server.step parse event = some (next, emitted)) : next.Attended := by
  cases Server.step_cases hstep with
  | init_handlers => exact hattended.of_same rfl rfl fun _ _ hpc => hpc
  | start_listener => exact hattended.of_same rfl rfl (by simp)
  | init_room => exact hattended.of_same rfl rfl fun _ _ hpc => hpc
  | run_workers => exact hattended.of_same rfl rfl fun _ _ hpc => hpc
  | accept => exact hattended.of_same rfl rfl (by simp)
  | accept_error => exact hattended
  | emplace_found => exact hattended.of_same rfl rfl (by simp)
  | @emplace_new id => exact hattended.emplace_new id
  | start_again _ hsession _ =>
    exact hattended.of_set hsession rfl rfl id (fun _ => .inl rfl) (by simp)
  | @start_new index session _ hsession _ =>
    refine hattended.of_set hsession rfl rfl (fun _ => rfl) (fun _ => .inl rfl) ?_
    rintro other player hpc
    cases hpc
    exact ⟨_, List.getElem?_set_self (List.getElem?_eq_some_iff.mp hsession).1, rfl⟩
  | @enter_object index player _ haccept =>
    refine ⟨hattended.attended, ?_, by simp⟩
    intro other hholds
    rcases Players.holds_insert_iff.mp hholds with rfl | ⟨_, hkept⟩
    · exact hattended.entering index other haccept
    · exact hattended.players other hkept
  | @register_recv index session _ hsession =>
    have hplayer : session.register_recv.player = session.player := by
      unfold Session.register_recv
      split <;> rfl
    refine hattended.of_set hsession rfl rfl ?_ ?_ (by simp)
    · rw [hplayer]
      exact id
    · intro hsome
      rw [hplayer] at hsome
      obtain ⟨same, hsame, hattends⟩ := hattended.attended index ⟨session, hsession, hsome⟩
      rw [hsession, Option.some.injEq] at hsame
      subst hsame
      unfold Session.register_recv
      split
      · next hsocket => exact .inl hsocket
      · exact hattends
  | read _ hsession hpc _ hreader =>
    exact hattended.of_read hsession hpc hreader (hopen _) rfl rfl rfl
  | drop _ hsession hpc _ hreader _ =>
    exact hattended.of_read hsession hpc hreader (hopen _) rfl rfl rfl
  | push _ hsession hpc _ hreader _ hroom =>
    refine hattended.of_read hsession hpc hreader (hopen _) rfl ?_ rfl
    exact System.players_of_step (by simp) (by simp) hroom
  | notify_one hroom =>
    refine hattended.of_same rfl ?_ fun _ _ hpc => hpc
    exact System.players_of_step (by simp) (by simp) hroom
  | flush hflush hroom =>
    refine hattended.of_same rfl (System.players_of_step ?_ ?_ hroom) fun _ _ hpc => hpc
    · rintro player rfl
      cases hflush
    · rintro player rfl
      cases hflush

theorem Server.attended_of_exec {parse : List UInt8 → Option (List UInt8)}
    {events : List ServerEvent} {server : Server} {log : List ServerObservation}
    (hexec : (serverMachine parse).exec .start events = some (server, log))
    (halong : (serverMachine parse).Along (fun server event => ∀ index, ¬ server.Closes index event)
      .start events) : server.Attended := by
  refine (serverMachine parse).along_induct (fun _ server _ => server.Attended) ?_ ?_ hexec halong
  · refine ⟨?_, ?_, by simp [Server.start]⟩
    · rintro index ⟨session, hsession, _⟩
      cases hsession
    · intro player hholds
      cases hholds
  · intro _ server _ event next emitted hattended hopen hstep
    exact hattended.step hopen hstep

/-- A closed session is still in the table when its completion has returned. -/
theorem not_forgetsClosed_of_closes {parse : List UInt8 → Option (List UInt8)}
    {events later : List ServerEvent} {server next : Server} {event : ServerEvent} {index : Nat}
    (htakes : (serverMachine parse).Takes .start events server event next later)
    (hcloses : server.Closes index event) : ¬ ForgetsClosed parse events := by
  intro hforgets
  obtain ⟨first, before, emitted, _, hfirst, hstep⟩ := id htakes
  have hlisted := (Server.listed_of_exec hfirst).step hstep
  obtain ⟨session, hsession⟩ := hcloses.exists_session hstep
  have hnone := hforgets.table server event next later index session htakes hcloses hsession
    [] next [] List.nil_prefix rfl
  rw [hlisted index session hsession] at hnone
  cases hnone

/-- A closed session is forgotten everywhere in a run if and only if no
    completion of the run that has closed its session returns. Nothing calls
    `RemoveSession` or `ExitObject`. -/
theorem forgetsClosed_iff (parse : List UInt8 → Option (List UInt8)) (events : List ServerEvent)
    (server : Server) (log : List ServerObservation)
    (hexec : (serverMachine parse).exec .start events = some (server, log)) :
    ForgetsClosed parse events ↔ (serverMachine parse).Along
      (fun server event => ∀ index, ¬ server.Closes index event) .start events := by
  constructor
  · intro hforgets
    refine (serverMachine parse).along_of_takes hexec ?_
    intro earlier event next later htakes index hcloses
    exact not_forgetsClosed_of_closes htakes hcloses hforgets
  · intro halong
    have hnever : ∀ {earlier event next later index},
        (serverMachine parse).Takes .start events earlier event next later →
          ¬ earlier.Closes index event :=
      fun htakes => (serverMachine parse).guard_of_takes halong htakes _
    refine ⟨?_, ?_, ?_, ?_⟩
    · intro earlier event next later index session htakes hcloses
      exact absurd hcloses (hnever htakes)
    · intro earlier event next later index htakes hcloses
      exact absurd hcloses (hnever htakes)
    · rintro earlier next players_snapshot later ⟨first, before, emitted, rfl, hfirst, hstep⟩
      intro entry hentry
      have hattended :=
        Server.attended_of_exec hfirst ((serverMachine parse).along_append halong hfirst).1
      cases Server.step_cases hstep with
      | flush _ hroom =>
        cases System.step_cases hroom with
        | swap _ hperm =>
          have hholds := (Players.mem_entries_iff.mp (hperm.mem_iff.mp hentry)).2
          exact hattended.attended _ (hattended.players _ hholds)
    · intro earlier event next later index htakes hcloses
      exact absurd hcloses (hnever htakes)

/-- The consumer goes on with a round. -/
def laterRound : List ServerEvent :=
  [.flush .wait, .flush .execute, .flush (.swap [⟨0, ⟨0, true, 0⟩⟩]), .flush .send]

/-- The snapshot of the round holds a player whose session is open. -/
theorem forgetsClosed_iff_openSession : ∃ server log,
    (serverMachine parse_short).exec .start (queuedChat ++ laterRound) = some (server, log) ∧
      sentTo 0 log = [⟨0, [10, 1, 65]⟩] ∧ ForgetsClosed parse_short (queuedChat ++ laterRound) := by
  have hrun : (((serverMachine parse_short).exec .start (queuedChat ++ laterRound)).map
      fun result => sentTo 0 result.2) = some [⟨0, [10, 1, 65]⟩] := by
    decide +kernel
  obtain ⟨⟨server, log⟩, hexec, hsent⟩ := Option.map_eq_some_iff.mp hrun
  have hnone : ∀ event ∈ queuedChat ++ laterRound, ∀ (server : Server) (index : Nat),
      ¬ server.Closes index event := by
    simp [queuedChat, laterRound, Server.Closes]
  refine ⟨server, log, hexec, hsent,
    (forgetsClosed_iff parse_short (queuedChat ++ laterRound) server log hexec).mpr ?_⟩
  refine (serverMachine parse_short).along_of_takes hexec ?_
  rintro earlier event next later ⟨first, _, _, hevents, _, _⟩
  exact hnone event (by simp [hevents]) earlier

/-- A session chats, and its next read fails. -/
def failedRead : List ServerEvent :=
  [.main, .main, .main, .main, .accept, .emplace, .start_session, .enter_object, .register_recv,
    .read 0 0 (.read [7, 0, 1, 0, 10, 1, 65]), .read 0 0 .present, .notify_one 0,
    .read 0 0 .advance, .read 0 0 .present, .read 0 0 .register_recv, .read 0 0 .error]

/-- The session is still in both tables, and the later round sends to it. -/
theorem forgetsClosed_failedRead : ∃ server log,
    (serverMachine parse_short).exec .start (failedRead ++ laterRound) = some (server, log) ∧
      server.table.lookup 0 = some 0 ∧ server.room.players.Holds (playerOf 0) ∧
      sentTo 0 log = [⟨0, [10, 1, 65]⟩] ∧
      ¬ ForgetsClosed parse_short (failedRead ++ laterRound) := by
  have hrun : (((serverMachine parse_short).exec .start (failedRead ++ laterRound)).map
      fun result => (result.1.table.lookup 0, decide (result.1.room.players.Holds (playerOf 0)),
        sentTo 0 result.2)) = some (some 0, true, [⟨0, [10, 1, 65]⟩]) := by
    decide +kernel
  obtain ⟨⟨server, log⟩, hexec, hresult⟩ := Option.map_eq_some_iff.mp hrun
  obtain ⟨htable, hresult⟩ := Prod.mk.inj hresult
  obtain ⟨hholds, hsent⟩ := Prod.mk.inj hresult
  refine ⟨server, log, hexec, htable, of_decide_eq_true hholds, hsent, ?_⟩
  have hsplit : failedRead ++ laterRound =
      failedRead.dropLast ++ .read 0 0 .error :: laterRound := rfl
  rw [hsplit] at hexec ⊢
  obtain ⟨before, earlier, after, hfirst, hlast, _⟩ :=
    (serverMachine parse_short).exec_append_eq_some_iff.mp hexec
  obtain ⟨next, emitted, rest, hstep, _, _⟩ :=
    (serverMachine parse_short).exec_cons_eq_some_iff.mp hlast
  have hcloses : before.Closes 0 (.read 0 0 .error) := rfl
  exact not_forgetsClosed_of_closes ⟨_, earlier, emitted, rfl, hfirst, hstep⟩ hcloses

end topview.server
