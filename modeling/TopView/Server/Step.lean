import TopView.ChatHandler
import TopView.Room.Registry
import TopView.Session.Reader

open topview.packet_handler topview.room topview.session topview.transition

namespace topview.server

/-- A `Session`. Its socket and its buffer make up the connection. -/
structure Session where
  session_id : BitVec 32
  player : Option Player
  connection : Connection
  /-- The reads that are outstanding, or whose completions are being handled. -/
  reads : List ReadPc
  deriving DecidableEq, Repr

/-- A session without a socket. -/
def Session.new (session_id : BitVec 32) : Session :=
  { session_id, player := none, connection := Connection.new.close, reads := [] }

/-- `socket = sock`. -/
def Session.open (session : Session) : Session :=
  { session with connection := { session.connection with is_open := true } }

/-- `Session::RegisterRecv`, called by `Session::Start`. -/
def Session.register_recv (session : Session) : Session :=
  if session.connection.is_open then { session with reads := session.reads ++ [.reading] }
  else session

/-- The completion at `slot` has taken a step. A read that is not issued again
    is gone. -/
def Session.advance (session : Session) (slot : Nat) (reader : Reader) : Session :=
  { session with
    connection := reader.toConnection
    reads := if reader.pc = .idle then session.reads.eraseIdx slot
      else session.reads.set slot reader.pc }

/-- Where `main` is. -/
inductive MainPc where
  | packet_handler_init
  | listener_start
  | room_init
  | run_workers
  /-- The workers run the handlers. -/
  | running
  deriving DecidableEq, Repr

/-- The accept handler, of which there is one at a time. -/
inductive AcceptPc where
  /-- `Listener::Start` has not been called. -/
  | idle
  /-- `async_accept` is outstanding. -/
  | accepting
  /-- `AddSession` has drawn an id. -/
  | adding (id : BitVec 32)
  /-- `AddSession` has returned a session. -/
  | starting (session : Nat)
  /-- `EnterRoom` has set up a player. -/
  | entering (session : Nat) (player : Player)
  /-- `EnterRoom` has returned. -/
  | registering (session : Nat)
  deriving DecidableEq, Repr

/-- The server. Sessions are named by the order in which they are created. -/
structure Server where
  main : MainPc
  handlers : HandlerTable
  accept : AcceptPc
  /-- `ClientNo`, of which an id is the low 32 bits. -/
  client_no : Nat
  /-- `Object::nextId`, likewise. -/
  next_id : Nat
  /-- `SessionManager::sessions`. -/
  table : AList fun _ : BitVec 32 => Nat
  sessions : List Session
  /-- The maps of `GRoom` and its function tables. -/
  registry : Registry
  /-- `GRoom` with its consumer. It sees the players in the map `_players`. -/
  room : System Payload

def Server.start : Server where
  main := .packet_handler_init
  handlers := fun _ => none
  accept := .idle
  client_no := 0
  next_id := 0
  table := ∅
  sessions := []
  registry := .new
  room := .start Payload

inductive ServerEvent where
  /-- The next statement of `main`. -/
  | main
  | accept
  | accept_error
  | emplace
  | start_session
  | enter_object
  | register_recv
  /-- The completion of a read takes a step. -/
  | read (session slot : Nat) (event : ReadEvent)
  | notify_one (session : Nat)
  /-- The consumer of the room takes a step. -/
  | flush (event : RoomEvent Payload)

inductive ServerObservation where
  | entered (player : Player)
  /-- The handler of a packet is called. -/
  | dispatched (session : Nat) (dispatch : Dispatch)
  | room (seen : Observation Payload)

/-- The steps that the consumer takes. -/
def isFlush : RoomEvent Payload → Bool
  | .wait | .wake | .execute | .swap _ | .send | .end_round => true
  | _ => false

/-- The room takes a step. -/
def Server.step_room (server : Server) (event : RoomEvent Payload) :
    Option (Server × List ServerObservation) :=
  (server.room.step event).map fun result =>
    ({ server with room := result.1 }, result.2.map .room)

def Server.step_main (server : Server) : Option (Server × List ServerObservation) :=
  match server.main with
  | .packet_handler_init => some ({ server with handlers := init, main := .listener_start }, [])
  | .listener_start => some ({ server with accept := .accepting, main := .room_init }, [])
  | .room_init =>
    some ({ server with
      registry := server.registry.init_object_table.1, main := .run_workers }, [])
  | .run_workers => some ({ server with main := .running }, [])
  | .running => none

/-- `sessions.emplace`, which keeps an entry that is already there. -/
def Server.emplace (server : Server) (id : BitVec 32) : Server :=
  match server.table.lookup id with
  | some session => { server with accept := .starting session }
  | none =>
    { server with
      sessions := server.sessions ++ [.new id]
      table := server.table.insert id server.sessions.length
      accept := .starting server.sessions.length }

/-- `Session::Start` up to the lock in `EnterObject`. The room of a new player
    is `GRoom`. -/
def Server.start_session (server : Server) (index : Nat) (session : Session) : Server :=
  match session.player with
  | some _ =>
    { server with
      sessions := server.sessions.set index session.open, accept := .registering index }
  | none =>
    let player : Player := ⟨BitVec.ofNat 32 server.next_id, true, index⟩
    { server with
      sessions := server.sessions.set index { session.open with player := some player }
      next_id := server.next_id + 1
      accept := .entering index player }

/-- The completion at `slot` of a session has taken a step. -/
def Server.advance (server : Server) (index slot : Nat) (session : Session) (reader : Reader) :
    Server :=
  { server with sessions := server.sessions.set index (session.advance slot reader) }

/-- What the completion of a read does with a packet that it presents. The
    handler's thread is named after the session. -/
def Server.dispatch (parse : List UInt8 → Option (List UInt8)) (server : Server) (index : Nat)
    (session : Session) (dispatch : Dispatch) : Option (Server × List ServerObservation) :=
  match call_handler parse server.handlers index session.player dispatch.header.id dispatch.body
    dispatch.len with
  | none => none
  | some none => some (server, [.dispatched index dispatch])
  | some (some job) =>
    (server.step_room (.push_etc_job index job)).map fun result =>
      (result.1, .dispatched index dispatch :: result.2)

/-- One step of the completion of a read. It waits for the handler that it has
    called. -/
def Server.step_read (parse : List UInt8 → Option (List UInt8)) (server : Server)
    (index slot : Nat) (event : ReadEvent) : Option (Server × List ServerObservation) := do
  let session ← server.sessions[index]?
  let pc ← session.reads[slot]?
  if index ∈ server.room.notifying then none
  else
    let (reader, presented) ← Reader.step ⟨session.connection, pc⟩ event
    let next := server.advance index slot session reader
    match presented with
    | [] => some (next, [])
    | dispatch :: _ => next.dispatch parse index session dispatch

/-- One step of the server. What happens after undefined behaviour is not
    described, it has no step. -/
def Server.step (parse : List UInt8 → Option (List UInt8)) (server : Server)
    (event : ServerEvent) : Option (Server × List ServerObservation) :=
  match event, server.main, server.accept with
  | .main, _, _ => server.step_main
  | .accept, .running, .accepting =>
    some ({ server with
      client_no := server.client_no + 1
      accept := .adding (BitVec.ofNat 32 server.client_no) }, [])
  | .accept_error, .running, .accepting => some (server, [])
  | .emplace, _, .adding id => some (server.emplace id, [])
  | .start_session, _, .starting index =>
    server.sessions[index]?.map fun session => (server.start_session index session, [])
  | .enter_object, .running, .entering index player =>
    some ({ server with
      registry := (server.registry.enter_object player.toObject).1
      room := { server.room with toRoom := server.room.toRoom.enter_object player }
      accept := .registering index }, [.entered player])
  | .register_recv, _, .registering index =>
    server.sessions[index]?.map fun session =>
      ({ server with
        sessions := server.sessions.set index session.register_recv, accept := .accepting }, [])
  | .read index slot event, .running, _ => server.step_read parse index slot event
  | .notify_one index, _, _ => server.step_room (.notify_one index)
  | .flush event, .run_workers, _ => if isFlush event then server.step_room event else none
  | .flush event, .running, _ => if isFlush event then server.step_room event else none
  | _, _, _ => none

def serverMachine (parse : List UInt8 → Option (List UInt8)) :
    Machine Server ServerEvent ServerObservation := ⟨Server.step parse⟩

/-- What a step of the server can do. -/
inductive Server.Step (parse : List UInt8 → Option (List UInt8)) (server : Server) :
    ServerEvent → Server → List ServerObservation → Prop where
  | init_handlers (hmain : server.main = .packet_handler_init) :
      Step parse server .main { server with handlers := init, main := .listener_start } []
  | start_listener (hmain : server.main = .listener_start) :
      Step parse server .main { server with accept := .accepting, main := .room_init } []
  | init_room (hmain : server.main = .room_init) :
      Step parse server .main { server with
        registry := server.registry.init_object_table.1, main := .run_workers } []
  | run_workers (hmain : server.main = .run_workers) :
      Step parse server .main { server with main := .running } []
  | accept (hmain : server.main = .running) (haccept : server.accept = .accepting) :
      Step parse server .accept { server with
        client_no := server.client_no + 1
        accept := .adding (BitVec.ofNat 32 server.client_no) } []
  | accept_error : Step parse server .accept_error server []
  | emplace_found {id : BitVec 32} {index : Nat} (haccept : server.accept = .adding id)
      (hfound : server.table.lookup id = some index) :
      Step parse server .emplace { server with accept := .starting index } []
  | emplace_new {id : BitVec 32} (haccept : server.accept = .adding id)
      (hnew : server.table.lookup id = none) :
      Step parse server .emplace { server with
        sessions := server.sessions ++ [.new id]
        table := server.table.insert id server.sessions.length
        accept := .starting server.sessions.length } []
  | start_again {index : Nat} {session : Session} {player : Player}
      (haccept : server.accept = .starting index) (hsession : server.sessions[index]? = some session)
      (hplayer : session.player = some player) :
      Step parse server .start_session { server with
        sessions := server.sessions.set index session.open, accept := .registering index } []
  | start_new {index : Nat} {session : Session} (haccept : server.accept = .starting index)
      (hsession : server.sessions[index]? = some session) (hplayer : session.player = none) :
      Step parse server .start_session { server with
        sessions := server.sessions.set index
          { session.open with player := some ⟨BitVec.ofNat 32 server.next_id, true, index⟩ }
        next_id := server.next_id + 1
        accept := .entering index ⟨BitVec.ofNat 32 server.next_id, true, index⟩ } []
  | enter_object {index : Nat} {player : Player} (hmain : server.main = .running)
      (haccept : server.accept = .entering index player) :
      Step parse server .enter_object { server with
        registry := (server.registry.enter_object player.toObject).1
        room := { server.room with toRoom := server.room.toRoom.enter_object player }
        accept := .registering index } [.entered player]
  | register_recv {index : Nat} {session : Session} (haccept : server.accept = .registering index)
      (hsession : server.sessions[index]? = some session) :
      Step parse server .register_recv { server with
        sessions := server.sessions.set index session.register_recv, accept := .accepting } []
  | read {index slot : Nat} {event : ReadEvent} {session : Session} {pc : ReadPc}
      {reader : Reader} (hmain : server.main = .running)
      (hsession : server.sessions[index]? = some session) (hpc : session.reads[slot]? = some pc)
      (hidle : index ∉ server.room.notifying)
      (hstep : Reader.step ⟨session.connection, pc⟩ event = some (reader, [])) :
      Step parse server (.read index slot event) (server.advance index slot session reader) []
  | drop {index slot : Nat} {event : ReadEvent} {session : Session} {pc : ReadPc}
      {reader : Reader} {dispatch : Dispatch} (hmain : server.main = .running)
      (hsession : server.sessions[index]? = some session) (hpc : session.reads[slot]? = some pc)
      (hidle : index ∉ server.room.notifying)
      (hstep : Reader.step ⟨session.connection, pc⟩ event = some (reader, [dispatch]))
      (hcall : call_handler parse server.handlers index session.player dispatch.header.id
        dispatch.body dispatch.len = some none) :
      Step parse server (.read index slot event) (server.advance index slot session reader)
        [.dispatched index dispatch]
  | push {index slot : Nat} {event : ReadEvent} {session : Session} {pc : ReadPc}
      {reader : Reader} {dispatch : Dispatch} {job : Job Payload} {room : System Payload}
      {seen : List (Observation Payload)} (hmain : server.main = .running)
      (hsession : server.sessions[index]? = some session) (hpc : session.reads[slot]? = some pc)
      (hidle : index ∉ server.room.notifying)
      (hstep : Reader.step ⟨session.connection, pc⟩ event = some (reader, [dispatch]))
      (hcall : call_handler parse server.handlers index session.player dispatch.header.id
        dispatch.body dispatch.len = some (some job))
      (hroom : server.room.step (.push_etc_job index job) = some (room, seen)) :
      Step parse server (.read index slot event)
        { server.advance index slot session reader with room := room }
        (.dispatched index dispatch :: seen.map .room)
  | notify_one {index : Nat} {room : System Payload} {seen : List (Observation Payload)}
      (hroom : server.room.step (.notify_one index) = some (room, seen)) :
      Step parse server (.notify_one index) { server with room := room } (seen.map .room)
  | flush {event : RoomEvent Payload} {room : System Payload} {seen : List (Observation Payload)}
      (hflush : isFlush event = true) (hroom : server.room.step event = some (room, seen)) :
      Step parse server (.flush event) { server with room := room } (seen.map .room)

theorem Server.step_room_eq_some {server next : Server} {event : RoomEvent Payload}
    {emitted : List ServerObservation} (hstep : server.step_room event = some (next, emitted)) :
    ∃ room seen, server.room.step event = some (room, seen) ∧
      next = { server with room := room } ∧ emitted = seen.map .room := by
  simp only [Server.step_room, Option.map_eq_some_iff, Prod.exists, Prod.mk.injEq] at hstep
  obtain ⟨room, seen, hroom, rfl, rfl⟩ := hstep
  exact ⟨room, seen, hroom, rfl, rfl⟩

/-- A step of the read handler presents at most one packet. -/
theorem presented_cases {reader next : Reader} {event : ReadEvent} {presented : List Dispatch}
    (hstep : reader.step event = some (next, presented)) :
    presented = [] ∨ ∃ dispatch, presented = [dispatch] := by
  cases Reader.step_cases hstep with
  | present => exact .inr ⟨_, rfl⟩
  | read => exact .inl rfl
  | empty => exact .inl rfl
  | error => exact .inl rfl
  | stop => exact .inl rfl
  | advance => exact .inl rfl
  | register_recv => exact .inl rfl

theorem Server.step_read_cases {parse : List UInt8 → Option (List UInt8)} {server next : Server}
    {index slot : Nat} {event : ReadEvent} {emitted : List ServerObservation}
    (hmain : server.main = .running)
    (hstep : server.step_read parse index slot event = some (next, emitted)) :
    server.Step parse (.read index slot event) next emitted := by
  simp only [Server.step_read, Option.bind_eq_bind, Option.bind_eq_some_iff] at hstep
  obtain ⟨session, hsession, pc, hpc, hstep⟩ := hstep
  rw [Option.ite_none_left_eq_some, Option.bind_eq_some_iff] at hstep
  obtain ⟨hidle, ⟨reader, presented⟩, hreader, hstep⟩ := hstep
  rcases presented_cases hreader with rfl | ⟨dispatch, rfl⟩
  · cases hstep
    exact .read hmain hsession hpc hidle hreader
  · simp only [Server.dispatch] at hstep
    split at hstep
    · cases hstep
    · next hcall =>
      cases hstep
      exact .drop hmain hsession hpc hidle hreader hcall
    · next job hcall =>
      rw [Option.map_eq_some_iff] at hstep
      obtain ⟨⟨pushed, seen⟩, hpush, hstep⟩ := hstep
      obtain ⟨room, seen, hroom, rfl, rfl⟩ := Server.step_room_eq_some hpush
      cases hstep
      exact .push hmain hsession hpc hidle hreader hcall hroom

theorem Server.step_cases {parse : List UInt8 → Option (List UInt8)} {server next : Server}
    {event : ServerEvent} {emitted : List ServerObservation}
    (hstep : server.step parse event = some (next, emitted)) :
    server.Step parse event next emitted := by
  unfold Server.step at hstep
  split at hstep
  · unfold Server.step_main at hstep
    split at hstep
    · next hmain =>
      cases hstep
      exact .init_handlers hmain
    · next hmain =>
      cases hstep
      exact .start_listener hmain
    · next hmain =>
      cases hstep
      exact .init_room hmain
    · next hmain =>
      cases hstep
      exact .run_workers hmain
    · cases hstep
  · next hmain haccept =>
    cases hstep
    exact .accept hmain haccept
  · cases hstep
    exact .accept_error
  · next id haccept =>
    unfold Server.emplace at hstep
    split at hstep
    · next index hfound =>
      cases hstep
      exact .emplace_found haccept hfound
    · next hnew =>
      cases hstep
      exact .emplace_new haccept hnew
  · next index haccept =>
    rw [Option.map_eq_some_iff] at hstep
    obtain ⟨session, hsession, hstep⟩ := hstep
    unfold Server.start_session at hstep
    split at hstep
    · next player hplayer =>
      cases hstep
      exact .start_again haccept hsession hplayer
    · next hplayer =>
      cases hstep
      exact .start_new haccept hsession hplayer
  · next hmain haccept =>
    cases hstep
    exact .enter_object hmain haccept
  · next index haccept =>
    rw [Option.map_eq_some_iff] at hstep
    obtain ⟨session, hsession, hstep⟩ := hstep
    cases hstep
    exact .register_recv haccept hsession
  · next hmain => exact Server.step_read_cases hmain hstep
  · obtain ⟨room, seen, hroom, rfl, rfl⟩ := Server.step_room_eq_some hstep
    exact .notify_one hroom
  · rw [Option.ite_none_right_eq_some] at hstep
    obtain ⟨room, seen, hroom, rfl, rfl⟩ := Server.step_room_eq_some hstep.2
    exact .flush hstep.1 hroom
  · rw [Option.ite_none_right_eq_some] at hstep
    obtain ⟨room, seen, hroom, rfl, rfl⟩ := Server.step_room_eq_some hstep.2
    exact .flush hstep.1 hroom
  · cases hstep

end topview.server
