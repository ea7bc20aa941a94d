import TopView.Room.Delivery
import TopView.Server.RoomView

open topview.packet_handler topview.protocol topview.recv_buffer topview.room topview.session
open topview.transition

namespace topview.server

/-- A job that a session's handler has made out of a chat packet. -/
def FromDispatch (parse : List UInt8 → Option (List UInt8)) (log : List ServerObservation)
    (job : Job Payload) : Prop :=
  ∃ index dispatch bytes, .dispatched index dispatch ∈ log ∧
    relay parse dispatch.header.id dispatch.body = some bytes ∧ job = ⟨some ⟨index, bytes⟩⟩

theorem FromDispatch.append {parse : List UInt8 → Option (List UInt8)}
    {log : List ServerObservation} {job : Job Payload} (hjob : FromDispatch parse log job)
    (emitted : List ServerObservation) : FromDispatch parse (log ++ emitted) job := by
  obtain ⟨index, dispatch, bytes, hmem, hrest⟩ := hjob
  exact ⟨index, dispatch, bytes, List.mem_append_left _ hmem, hrest⟩

/-- What every run maintains, however many connections it accepts. -/
structure Server.Bounded (parse : List UInt8 → Option (List UInt8)) (server : Server)
    (log : List ServerObservation) : Prop where
  handlers : server.main ≠ .packet_handler_init → server.handlers = init
  buffers : ∀ session ∈ server.sessions, session.connection.recv_buffer.Valid
  bodies : ∀ index dispatch, .dispatched index dispatch ∈ log → dispatch.body.length ≤ 40956
  jobs : ∀ job ∈ pushed (roomLog log), FromDispatch parse log job

theorem Server.Bounded.start (parse : List UInt8 → Option (List UInt8)) :
    Server.Bounded parse .start [] where
  handlers := fun hmain => absurd rfl hmain
  buffers := by simp [Server.start]
  bodies := by simp
  jobs := by simp [roomLog, pushed]

/-- The invariant survives a step that neither calls a handler nor pushes a job. -/
private theorem Server.Bounded.of_silent {parse : List UInt8 → Option (List UInt8)}
    {server next : Server} {log emitted : List ServerObservation}
    (hbounded : Server.Bounded parse server log)
    (hhandlers : next.main ≠ .packet_handler_init → next.handlers = init)
    (hbuffers : ∀ session ∈ next.sessions, session.connection.recv_buffer.Valid)
    (hsilent : ∀ index dispatch, .dispatched index dispatch ∉ emitted)
    (hpushed : pushed (roomLog emitted) = []) :
    Server.Bounded parse next (log ++ emitted) := by
  refine ⟨hhandlers, hbuffers, ?_, ?_⟩
  · intro index dispatch hmem
    rcases List.mem_append.mp hmem with hbefore | hnew
    · exact hbounded.bodies index dispatch hbefore
    · exact absurd hnew (hsilent index dispatch)
  · intro job hmem
    rw [roomLog_append, pushed_append, hpushed, List.append_nil] at hmem
    exact (hbounded.jobs job hmem).append emitted

/-- The invariant survives the call of a handler. -/
private theorem Server.Bounded.of_dispatched {parse : List UInt8 → Option (List UInt8)}
    {server next : Server} {log : List ServerObservation} {seen : List (Observation Payload)}
    {index : Nat} {dispatch : Dispatch} (hbounded : Server.Bounded parse server log)
    (hhandlers : next.main ≠ .packet_handler_init → next.handlers = init)
    (hbuffers : ∀ session ∈ next.sessions, session.connection.recv_buffer.Valid)
    (hbody : dispatch.body.length ≤ 40956)
    (hpushed : ∀ job ∈ pushed seen, ∃ bytes,
      relay parse dispatch.header.id dispatch.body = some bytes ∧ job = ⟨some ⟨index, bytes⟩⟩) :
    Server.Bounded parse next (log ++ .dispatched index dispatch :: seen.map .room) := by
  refine ⟨hhandlers, hbuffers, ?_, ?_⟩
  · intro other presented hmem
    rcases List.mem_append.mp hmem with hbefore | hnew
    · exact hbounded.bodies other presented hbefore
    · obtain ⟨rfl, rfl⟩ : other = index ∧ presented = dispatch := by simpa using hnew
      exact hbody
  · intro job hmem
    rw [roomLog_append, roomLog_dispatched, roomLog_map_room, pushed_append] at hmem
    rcases List.mem_append.mp hmem with hbefore | hnew
    · exact (hbounded.jobs job hbefore).append _
    · obtain ⟨bytes, hrelay, hjob⟩ := hpushed job hnew
      exact ⟨index, dispatch, bytes, by simp, hrelay, hjob⟩

/-- Replacing a session keeps the buffers valid when the new one is. -/
private theorem buffers_set {sessions : List Session} {index : Nat} {session : Session}
    (hbuffers : ∀ session ∈ sessions, session.connection.recv_buffer.Valid)
    (hvalid : session.connection.recv_buffer.Valid) :
    ∀ other ∈ sessions.set index session, other.connection.recv_buffer.Valid := by
  intro other hmem
  rcases List.mem_or_eq_of_mem_set hmem with hkept | rfl
  · exact hbuffers other hkept
  · exact hvalid

theorem Server.Bounded.step {parse : List UInt8 → Option (List UInt8)} {server next : Server}
    {log emitted : List ServerObservation} {event : ServerEvent}
    (hbounded : Server.Bounded parse server log)
    (hstep : server.step parse event = some (next, emitted)) :
    Server.Bounded parse next (log ++ emitted) := by
  have hbuffers := hbounded.buffers
  cases Server.step_cases hstep with
  | init_handlers => exact hbounded.of_silent (fun _ => rfl) hbuffers (by simp) rfl
  | start_listener hmain =>
    exact hbounded.of_silent (fun _ => hbounded.handlers (by simp [hmain])) hbuffers (by simp) rfl
  | init_room hmain =>
    exact hbounded.of_silent (fun _ => hbounded.handlers (by simp [hmain])) hbuffers (by simp) rfl
  | run_workers hmain =>
    exact hbounded.of_silent (fun _ => hbounded.handlers (by simp [hmain])) hbuffers (by simp) rfl
  | accept => exact hbounded.of_silent hbounded.handlers hbuffers (by simp) rfl
  | accept_error => exact hbounded.of_silent hbounded.handlers hbuffers (by simp) rfl
  | emplace_found => exact hbounded.of_silent hbounded.handlers hbuffers (by simp) rfl
  | emplace_new =>
    refine hbounded.of_silent hbounded.handlers ?_ (by simp) rfl
    rw [List.forall_mem_append, List.forall_mem_singleton]
    exact ⟨hbuffers, RecvBuffer.valid_new⟩
  | start_again _ hsession =>
    have hvalid := hbuffers _ (List.mem_of_getElem? hsession)
    exact hbounded.of_silent hbounded.handlers (buffers_set hbuffers hvalid) (by simp) rfl
  | start_new _ hsession =>
    have hvalid := hbuffers _ (List.mem_of_getElem? hsession)
    exact hbounded.of_silent hbounded.handlers (buffers_set hbuffers hvalid) (by simp) rfl
  | enter_object => exact hbounded.of_silent hbounded.handlers hbuffers (by simp) rfl
  | @register_recv _ session _ hsession =>
    refine hbounded.of_silent hbounded.handlers (buffers_set hbuffers ?_) (by simp) rfl
    have hvalid := hbuffers _ (List.mem_of_getElem? hsession)
    unfold Session.register_recv
    split
    · exact hvalid
    · exact hvalid
  | read _ hsession _ _ hreader =>
    have hvalid := Reader.valid_of_step (hbuffers _ (List.mem_of_getElem? hsession)) hreader
    exact hbounded.of_silent hbounded.handlers (buffers_set hbuffers hvalid.1) (by simp) rfl
  | drop _ hsession _ _ hreader _ =>
    have hvalid := Reader.valid_of_step (hbuffers _ (List.mem_of_getElem? hsession)) hreader
    exact @Server.Bounded.of_dispatched _ _ _ _ [] _ _ hbounded hbounded.handlers
      (buffers_set hbuffers hvalid.1) (hvalid.2 _ List.mem_cons_self) (by simp [pushed])
  | push hmain hsession _ _ hreader hcall hroom =>
    have hvalid := Reader.valid_of_step (hbuffers _ (List.mem_of_getElem? hsession)) hreader
    rw [hbounded.handlers (by simp [hmain])] at hcall
    refine hbounded.of_dispatched hbounded.handlers (buffers_set hbuffers hvalid.1)
      (hvalid.2 _ List.mem_cons_self) ?_
    cases System.step_cases hroom
    intro job hmem
    rw [List.mem_singleton.mp hmem]
    exact relay_of_call_handler hcall
  | notify_one hroom =>
    refine hbounded.of_silent hbounded.handlers hbuffers (by simp) ?_
    rw [roomLog_map_room]
    exact System.pushed_of_step (by simp) hroom
  | flush hflush hroom =>
    refine hbounded.of_silent hbounded.handlers hbuffers (by simp) ?_
    rw [roomLog_map_room]
    apply System.pushed_of_step _ hroom
    rintro thread job rfl
    cases hflush

theorem Server.bounded_of_exec {parse : List UInt8 → Option (List UInt8)}
    {events : List ServerEvent} {server : Server} {log : List ServerObservation}
    (hexec : (serverMachine parse).exec .start events = some (server, log)) :
    Server.Bounded parse server log :=
  (serverMachine parse).exec_induct (fun _ server log => Server.Bounded parse server log)
    (.start parse) (fun _ _ _ _ _ _ _ hbounded hstep => hbounded.step hstep) events server log hexec

/-- Neither of the two lengths that `Send` computes for a payload is truncated. -/
structure FitsPacket (payload : Payload) : Prop where
  length_le : payload.bytes.length ≤ 40956
  payload_size : toUInt16 payload.bytes.length = payload.bytes.length
  packet_size : toUInt16 (toUInt16 payload.bytes.length + 4) = payload.bytes.length + 4

theorem fitsPacket_of_length_le {payload : Payload} (hlength : payload.bytes.length ≤ 40956) :
    FitsPacket payload := by
  have hsize := toUInt16_of_lt (show payload.bytes.length < 2 ^ 16 by omega)
  refine ⟨hlength, hsize, ?_⟩
  rw [hsize, toUInt16_of_lt (by omega)]

/-- In every run of the server each job is made out of a chat packet, and what it
    is to send is no longer than the body of that packet. So whatever waits in
    the room or is handed to `Send` fits into the 16-bit lengths of a packet. -/
theorem payloads_fit_of_exec (parse : List UInt8 → Option (List UInt8))
    (hoccurs : TextOccurs parse) (events : List ServerEvent) (server : Server)
    (log : List ServerObservation)
    (hexec : (serverMachine parse).exec .start events = some (server, log)) :
    (∀ job ∈ pushed (roomLog log), ∃ index dispatch bytes, .dispatched index dispatch ∈ log ∧
      dispatch.header.id = C_CHAT ∧ job.callback = some ⟨index, bytes⟩ ∧
      bytes.length ≤ dispatch.body.length) ∧
    (∀ payload, server.room.Carries payload → FitsPacket payload) ∧
    ∀ player batch, .room (.sent player batch) ∈ log → ∀ payload ∈ batch, FitsPacket payload := by
  have hbounded := Server.bounded_of_exec hexec
  have hhistory := room_history_of_exec hexec
  have hawake := room_awake_of_exec hexec
  have hjobs : ∀ job ∈ pushed (roomLog log), ∃ index dispatch bytes,
      .dispatched index dispatch ∈ log ∧ dispatch.header.id = C_CHAT ∧
      job.callback = some ⟨index, bytes⟩ ∧ bytes.length ≤ dispatch.body.length := by
    intro job hmem
    obtain ⟨index, dispatch, bytes, hdispatched, hrelay, rfl⟩ := hbounded.jobs job hmem
    rw [relay, Option.ite_none_right_eq_some, Option.map_eq_some_iff] at hrelay
    obtain ⟨hchat, text, hparse, rfl⟩ := hrelay
    exact ⟨index, dispatch, _, hdispatched, hchat, rfl, length_serialize_le_of_parse hoccurs hparse⟩
  have hpushed : ∀ payload ∈ (pushed (roomLog log)).filterMap Job.callback, FitsPacket payload := by
    intro payload hmem
    obtain ⟨job, hjob, hpayload⟩ := List.mem_filterMap.mp hmem
    obtain ⟨index, dispatch, bytes, hdispatched, _, hcallback, hle⟩ := hjobs job hjob
    rw [hcallback, Option.some.injEq] at hpayload
    subst hpayload
    apply fitsPacket_of_length_le
    exact Nat.le_trans hle (hbounded.bodies index dispatch hdispatched)
  refine ⟨hjobs, ?_, ?_⟩
  · intro payload hcarries
    exact hpushed payload (hhistory.pushed_of_carries hawake hcarries)
  · intro player batch hsent payload hmem
    exact hpushed payload (hhistory.pushed_of_sent hawake (mem_roomLog_iff.mpr hsent) hmem)

/-- A chat packet arrives and its job is queued. -/
def queuedChat : List ServerEvent :=
  [.main, .main, .main, .main, .accept, .emplace, .start_session, .enter_object, .register_recv,
    .read 0 0 (.read [7, 0, 1, 0, 10, 1, 65]), .read 0 0 .present]

theorem payloads_fit_of_exec_queued : ∃ server log,
    (serverMachine parse_short).exec .start queuedChat = some (server, log) ∧
      server.room.etc_queue = [⟨some ⟨0, [10, 1, 65]⟩⟩] ∧ FitsPacket ⟨0, [10, 1, 65]⟩ := by
  have hrun : (((serverMachine parse_short).exec .start queuedChat).map fun result =>
      result.1.room.etc_queue) = some [⟨some ⟨0, [10, 1, 65]⟩⟩] := by
    decide +kernel
  obtain ⟨⟨server, log⟩, hexec, hqueue⟩ := Option.map_eq_some_iff.mp hrun
  have hfit := payloads_fit_of_exec parse_short textOccurs_parse_short queuedChat server log hexec
  refine ⟨server, log, hexec, hqueue, hfit.2.1 _ (.inl ⟨_, ?_, rfl⟩)⟩
  apply List.mem_append_right
  rw [show server.room.etc_queue = _ from hqueue]
  exact List.mem_singleton.mpr rfl

end topview.server
