import TopView.Server.Snapshots

open topview.packet topview.packet_handler topview.protocol topview.room topview.session
open topview.transition

namespace topview.server

/-- What the packets contribute that a session's handlers have been called for. -/
def relayed (parse : List UInt8 → Option (List UInt8)) (sender : Nat)
    (log : List ServerObservation) : List (List UInt8) :=
  (dispatches sender log).filterMap fun dispatch => relay parse dispatch.header.id dispatch.body

/-- The bytes of the payloads that come from a session. -/
def comingFrom (sender : Nat) (payloads : List Payload) : List (List UInt8) :=
  payloads.filterMap fun payload => if payload.origin = sender then some payload.bytes else none

/-- The payloads that a session's `Send` is called with. -/
def sentTo (receiver : Nat) (log : List ServerObservation) : List Payload :=
  log.flatMap fun seen => match seen with
    | .room (.sent player batch) => if player.session = receiver then batch else []
    | _ => []

/-- The serialized messages of the chat frames that parse. -/
def contributions (parse : List UInt8 → Option (List UInt8)) {limit : Nat}
    (frames : List (Frame limit)) : List (List UInt8) :=
  frames.filterMap fun frame => relay parse frame.id frame.body

theorem relayed_append (parse : List UInt8 → Option (List UInt8)) (sender : Nat)
    (log emitted : List ServerObservation) :
    relayed parse sender (log ++ emitted) = relayed parse sender log ++ relayed parse sender emitted := by
  rw [relayed, dispatches_append, List.filterMap_append]
  rfl

@[simp] theorem relayed_map_room (parse : List UInt8 → Option (List UInt8)) (sender : Nat)
    (seen : List (Observation Payload)) : relayed parse sender (seen.map .room) = [] := by
  rw [relayed, dispatches_map_room, List.filterMap_nil]

theorem relayed_dispatched (parse : List UInt8 → Option (List UInt8)) (sender index : Nat)
    (dispatch : Dispatch) (log : List ServerObservation) :
    relayed parse sender (.dispatched index dispatch :: log) =
      (if index = sender then (relay parse dispatch.header.id dispatch.body).toList else []) ++
        relayed parse sender log := by
  by_cases hindex : index = sender
  · cases hrelay : relay parse dispatch.header.id dispatch.body <;>
      simp [relayed, dispatches, hindex, hrelay]
  · simp [relayed, dispatches, hindex]

theorem comingFrom_append (sender : Nat) (first second : List Payload) :
    comingFrom sender (first ++ second) = comingFrom sender first ++ comingFrom sender second :=
  List.filterMap_append

/-- In every step the jobs that are pushed hold what the handled packets
    contribute. -/
theorem comingFrom_pushed_of_step {parse : List UInt8 → Option (List UInt8)}
    {events : List ServerEvent} {server next : Server} {log emitted : List ServerObservation}
    {event : ServerEvent} (hinv : Server.Inv events server log)
    (hstep : server.step parse event = some (next, emitted)) (sender : Nat) :
    comingFrom sender ((pushed (roomLog emitted)).filterMap Job.callback) =
      relayed parse sender emitted := by
  cases Server.step_cases hstep with
  | drop hmain hsession hpc _ _ hcall =>
    rw [hinv.handlers (by simp [hmain]), (hinv.reader_of_mem hsession hpc).2.1.player] at hcall
    rw [relayed_dispatched, relay_eq_none_of_call_handler rfl hcall, Option.toList_none, ite_self]
    rfl
  | @push index _ _ _ _ _ _ _ _ _ hmain _ _ _ _ hcall hroom =>
    rw [hinv.handlers (by simp [hmain])] at hcall
    obtain ⟨bytes, hrelay, rfl⟩ := relay_of_call_handler hcall
    cases System.step_cases hroom
    rw [relayed_dispatched, hrelay, relayed_map_room, roomLog_dispatched, roomLog_map_room]
    by_cases hindex : index = sender <;> simp [pushed, comingFrom, hindex]
  | notify_one hroom =>
    rw [roomLog_map_room, System.pushed_of_step (by simp) hroom, relayed_map_room]
    rfl
  | flush hflush hroom =>
    rw [roomLog_map_room, System.pushed_of_step _ hroom, relayed_map_room]
    · rfl
    · rintro thread job rfl
      cases hflush
  | _ => rfl

/-- The pushed jobs hold what the handled packets contribute, in their order. -/
theorem comingFrom_pushed_of_exec {parse : List UInt8 → Option (List UInt8)}
    {events : List ServerEvent} {server : Server} {log : List ServerObservation}
    (hexec : (serverMachine parse).exec .start events = some (server, log))
    (hcount : server.client_no < 2 ^ 32) (sender : Nat) :
    comingFrom sender ((pushed (roomLog log)).filterMap Job.callback) =
      relayed parse sender log := by
  refine (serverMachine parse).exec_induct (fun _ server log => server.client_no < 2 ^ 32 →
    comingFrom sender ((pushed (roomLog log)).filterMap Job.callback) =
      relayed parse sender log) (fun _ => rfl) ?_ events server log hexec hcount
  intro events server log event next emitted hexec ih hstep hcount
  have hle := Server.client_no_le_of_step hstep
  have hinv := Server.inv_of_exec hexec (by omega)
  rw [roomLog_append, pushed_append, List.filterMap_append, comingFrom_append, relayed_append,
    ih (by omega), comingFrom_pushed_of_step hinv hstep]

/-- A session is sent what its player receives from the room. -/
theorem sentTo_eq_receivedBy {parse : List UInt8 → Option (List UInt8)}
    {events : List ServerEvent} {server : Server} {log : List ServerObservation}
    (hexec : (serverMachine parse).exec .start events = some (server, log))
    (hcount : server.client_no < 2 ^ 32) (receiver : Nat) :
    sentTo receiver log = receivedBy (playerOf receiver) (roomLog log) := by
  rw [sentTo, receivedBy, roomLog, List.flatMap_assoc]
  apply List.flatMap_congr
  intro seen hmem
  cases seen with
  | entered player => rfl
  | dispatched index dispatch => rfl
  | room seen =>
    simp only [ServerObservation.seen, List.flatMap_singleton]
    cases seen with
    | sent player batch =>
      have hown := eq_playerOf_of_entered hexec hcount (entered_of_sent hexec hcount hmem)
      have hsame : player.session = receiver ↔ player = playerOf receiver := by
        constructor
        · rintro rfl
          exact hown
        · rintro rfl
          rfl
      simp only [hsame]
    | _ => rfl

/-- The handled packets of a session are the first frames of its stream. -/
theorem dispatches_of_exec {parse : List UInt8 → Option (List UInt8)}
    {events : List ServerEvent} {server : Server} {log : List ServerObservation}
    (hexec : (serverMachine parse).exec .start events = some (server, log))
    (hcount : server.client_no < 2 ^ 32) (sender : Nat) {stream : List (Frame 40960)}
    (hstream : delivered (readEvents sender events) <+: stream.flatMap Frame.encode) :
    ∃ handled, (dispatches sender log).map Dispatch.toPacket =
      (stream.take handled).map Frame.toPacket := by
  have hinv := Server.inv_of_exec hexec hcount
  by_cases hreading : sender < server.reading
  · obtain ⟨_, _, _, _, hreader⟩ := hinv.settled sender hreading
    obtain ⟨whole, later, rfl, hpackets⟩ :=
      (Reader.inv_of_exec hreader).presented_of_front capacity_lt hstream
    exact ⟨whole.length, by rw [List.take_left, hpackets]⟩
  · refine ⟨0, ?_⟩
    rw [(hinv.untouched sender (Nat.le_of_not_lt hreading)).2]
    rfl

theorem relayed_eq_contributions {parse : List UInt8 → Option (List UInt8)} {sender limit : Nat}
    {log : List ServerObservation} {frames : List (Frame limit)}
    (hpackets : (dispatches sender log).map Dispatch.toPacket = frames.map Frame.toPacket) :
    relayed parse sender log = contributions parse frames := by
  have hdispatches : relayed parse sender log = ((dispatches sender log).map
      Dispatch.toPacket).filterMap fun packet => relay parse packet.header.id packet.body := by
    rw [List.filterMap_map]
    rfl
  rw [hdispatches, hpackets, List.filterMap_map]
  rfl

/-- No handler call is undefined behaviour on a stream of frames that the handler
    table and the buffer have room for. The completion of a read can always take
    the next step of its handler. -/
theorem read_enabled_of_exec {parse : List UInt8 → Option (List UInt8)}
    {events : List ServerEvent} {server : Server} {log : List ServerObservation}
    (hexec : (serverMachine parse).exec .start events = some (server, log))
    (hcount : server.client_no < 2 ^ 32) {index slot : Nat} {event : ReadEvent}
    {stream : List (Frame 40960)} (hid : ∀ frame ∈ stream, frame.id < 65535)
    (hstream : delivered (readEvents index events ++ [event]) <+: stream.flatMap Frame.encode)
    (hmain : server.main = .running) {session : Session} {pc : ReadPc} {reader : Reader}
    {presented : List Dispatch} (hsession : server.sessions[index]? = some session)
    (hpc : session.reads[slot]? = some pc) (hidle : index ∉ server.room.notifying)
    (hreader : Reader.step ⟨session.connection, pc⟩ event = some (reader, presented)) :
    ∃ next, server.step parse (.read index slot event) = some next := by
  have hinv := Server.inv_of_exec hexec hcount
  obtain ⟨_, hfollows, hrun⟩ := hinv.reader_of_mem hsession hpc
  have hread : server.step parse (.read index slot event) =
      server.step_read parse index slot event := by
    simp [Server.step, hmain]
  rw [hread]
  simp only [Server.step_read, hsession, hpc, hidle, hreader, Option.bind_eq_bind,
    Option.bind_some, if_false]
  rcases presented_cases hreader with rfl | ⟨dispatch, rfl⟩
  · exact ⟨_, rfl⟩
  · have hlast := Reader.inv_of_exec (readerMachine.exec_snoc hrun hreader)
    obtain ⟨whole, later, rfl, hpackets⟩ := hlast.presented_of_front capacity_lt hstream
    have hframe : dispatch.toPacket ∈ whole.map Frame.toPacket := by
      rw [← hpackets]
      simp
    obtain ⟨frame, hmem, hpacket⟩ := List.mem_map.mp hframe
    have hheader : dispatch.header = ⟨frame.size, frame.id⟩ :=
      (congrArg Packet.header hpacket).symm
    have hlen : 0 ≤ dispatch.len := by
      have hsize := frame.size_le
      rw [Dispatch.len_eq (by rw [hheader]; simp only [Frame.size]; omega)
        (by rw [hheader]; simp only [Frame.size]; omega), hheader]
      simp only [Frame.size]
      omega
    have hsmall : dispatch.header.id < 65535 := by
      rw [hheader]
      exact hid frame (List.mem_append_left _ hmem)
    have hcall := @call_handler_eq_some parse index (playerOf index) rfl _ hsmall dispatch.body
      _ hlen
    have hplayer : session.player = some (playerOf index) := hfollows.player
    have hhandlers : (server.advance index slot session reader).handlers = init :=
      hinv.handlers (by simp [hmain])
    simp only [Server.dispatch, hhandlers, hplayer, hcall]
    cases relay parse dispatch.header.id dispatch.body with
    | none => exact ⟨_, rfl⟩
    | some bytes => simp [Server.step_room, Server.advance, System.step, hidle]

/-- What a receiver is handed of the stream of a sender. -/
structure ChatRelay (parse : List UInt8 → Option (List UInt8)) (stream : List (Frame 40960))
    (server : Server) (log : List ServerObservation) (sender receiver : Nat)
    (handled start count : Nat) : Prop where
  /-- Handlers have been called for the first frames of the stream, in order. -/
  dispatched : (dispatches sender log).map Dispatch.toPacket =
    (stream.take handled).map Frame.toPacket
  /-- The receiver is handed a contiguous run of what these contribute. -/
  received : comingFrom sender (sentTo receiver log) =
    ((contributions parse (stream.take handled)).drop start).take count
  within : start + count ≤ (contributions parse (stream.take handled)).length
  /-- The run starts no later than the first chat frame that is dispatched
      after the receiver's player has entered the room. -/
  joined : ∀ before player after, log = before ++ .entered player :: after →
    player.session = receiver → start ≤ (relayed parse sender before).length
  /-- Once the room is drained the run reaches up to the last dispatched frame. -/
  drained : server.room.Drained →
    start + count = (contributions parse (stream.take handled)).length

/-- Every session's chat frames reach every player in the room once and in
    order, from the player's entry on. This holds of every run of the server in
    which the sessions are sent frames that its buffer and its handler table have
    room for, however these are cut into reads and the threads interleave. -/
theorem chatRelay_of_exec (parse : List UInt8 → Option (List UInt8))
    (streams : Nat → List (Frame 40960)) (events : List ServerEvent) (server : Server)
    (log : List ServerObservation)
    (hexec : (serverMachine parse).exec .start events = some (server, log))
    (hcount : server.client_no < 2 ^ 32)
    (hstreams : ∀ index, delivered (readEvents index events) <+:
      (streams index).flatMap Frame.encode) (sender receiver : Nat) :
    ∃ handled start count,
      ChatRelay parse (streams sender) server log sender receiver handled start count := by
  obtain ⟨handled, hpackets⟩ := dispatches_of_exec hexec hcount sender (hstreams sender)
  have hcontributions := @relayed_eq_contributions parse sender _ log _ hpackets
  obtain ⟨before, after, hrounds, hbefore, hafter, hentered⟩ :=
    rounds_split_of_exec hexec hcount (playerOf receiver)
  have hhistory := room_history_of_exec hexec
  have hpayloads := hhistory.payloads_eq (room_awake_of_exec hexec)
  have halive : (playerOf receiver).session ∉ server.room.expired := by
    rw [room_expired_of_exec hexec]
    exact List.not_mem_nil
  obtain ⟨kept, rest, rfl, hreceived, hrest⟩ :=
    hhistory.receivedBy_eq halive hrounds hbefore hafter
  have hrelayed := comingFrom_pushed_of_exec hexec hcount sender
  rw [hpayloads, hrounds, hcontributions, List.flatMap_append, List.flatMap_append,
    comingFrom_append, comingFrom_append, comingFrom_append, List.append_assoc,
    List.append_assoc] at hrelayed
  refine ⟨handled, (comingFrom sender (before.flatMap Round.batch)).length,
    (comingFrom sender (kept.flatMap Round.batch)).length, hpackets, ?_, ?_, ?_, ?_⟩
  · rw [sentTo_eq_receivedBy hexec hcount, hreceived, ← hrelayed, List.drop_left, List.take_left]
  · rw [← hrelayed, List.length_append, List.length_append]
    omega
  · rintro earlier player later rfl hsession
    have hplayer : player = playerOf receiver := by
      rw [← hsession]
      exact eq_playerOf_of_entered hexec hcount (by simp)
    subst hplayer
    obtain ⟨first, middle, hfirst, hle⟩ := exec_before_entered hexec
    rw [← comingFrom_pushed_of_exec hfirst (by omega)]
    obtain ⟨more, hmore⟩ := hentered earlier later rfl
    rw [← hmore, comingFrom_append, List.length_append]
    exact Nat.le_add_right _ _
  · intro hdrained
    rw [← hrelayed, hrest hdrained.players_snapshot, hdrained.pending_msg, hdrained.local_queue,
      hdrained.etc_queue]
    simp [comingFrom]

/-- Two sessions, of which the second one is accepted after the first one has
    chatted. -/
def lateArrival : List ServerEvent :=
  [.main, .main, .main, .main, .accept, .emplace, .start_session, .enter_object, .register_recv,
    .read 0 0 (.read [7, 0, 1, 0, 10, 1, 65]), .read 0 0 .present, .notify_one 0, .flush .wait,
    .flush .execute, .flush (.swap [⟨0, ⟨0, true, 0⟩⟩]), .flush .send, .flush .end_round,
    .read 0 0 .advance, .read 0 0 .present, .read 0 0 .register_recv, .accept, .emplace,
    .start_session, .enter_object, .register_recv, .read 0 0 (.read [7, 0, 1, 0, 10, 1, 66]),
    .read 0 0 .present, .notify_one 0, .flush .wait, .flush .execute,
    .flush (.swap [⟨1, ⟨1, true, 1⟩⟩, ⟨0, ⟨0, true, 0⟩⟩]), .flush .send, .flush .send,
    .flush .end_round]

def chatFrame (letter : UInt8) : Frame 40960 where
  id := C_CHAT
  body := [10, 1, letter]
  id_lt := by decide
  size_le := (by decide : 7 ≤ 40960)

theorem chatRelay_of_exec_two : ∃ server log,
    (serverMachine parse_short).exec .start lateArrival = some (server, log) ∧
      comingFrom 0 (sentTo 1 log) = [[10, 1, 66]] ∧ ∃ handled start count,
        ChatRelay parse_short [chatFrame 65, chatFrame 66] server log 0 1 handled start count := by
  have hrun : (((serverMachine parse_short).exec .start lateArrival).map fun result =>
      (comingFrom 0 (sentTo 1 result.2), result.1.client_no)) = some ([[10, 1, 66]], 2) := by
    decide +kernel
  obtain ⟨⟨server, log⟩, hexec, hresult⟩ := Option.map_eq_some_iff.mp hrun
  obtain ⟨hreceived, hclient⟩ := Prod.mk.inj hresult
  have hcount : server.client_no < 2 ^ 32 := by
    rw [show server.client_no = 2 from hclient]
    decide
  have hstreams : ∀ index, delivered (readEvents index lateArrival) <+:
      (if index = 0 then [chatFrame 65, chatFrame 66] else []).flatMap Frame.encode := by
    intro index
    by_cases hindex : index = 0
    · rw [hindex]
      decide
    · simp [readEvents, lateArrival, hindex, Ne.symm hindex]
  exact ⟨server, log, hexec, hreceived,
    chatRelay_of_exec parse_short _ lateArrival server log hexec hcount hstreams 0 1⟩

end topview.server
