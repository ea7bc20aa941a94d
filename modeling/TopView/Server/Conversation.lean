import TopView.Protocol.ChatText
import TopView.Server.PayloadSize
import TopView.Server.Relay
import TopView.Session.Send

open topview.packet topview.packet_handler topview.protocol topview.room topview.session
open topview.transition topview.wire

namespace topview.server

/-- The bytes of all the buffers that `Send` builds for a session, in order. -/
def outgoing (receiver : Nat) (log : List ServerObservation) : List UInt8 :=
  log.flatMap fun seen => match seen with
    | .room (.sent player batch) =>
      if player.session = receiver then session.encode (batch.map Payload.bytes) else []
    | _ => []

/-- The texts of the chat frames that the server's parser accepts. -/
def texts (address : List UInt8 → Nat) {limit : Nat} (frames : List (Frame limit)) :
    List (List UInt8) :=
  frames.filterMap fun frame => if frame.id = C_CHAT then parse_text address frame.body else none

/-- The texts that a client's parser takes out of the payloads of a session. -/
def textsFrom (address : List UInt8 → Nat) (sender : Nat) (payloads : List Payload) :
    List (List UInt8) :=
  (comingFrom sender payloads).filterMap (receive_text address)

/-- What a receiver is told, and how much of it. -/
structure Conversation (address : List UInt8 → Nat) (streams : Nat → List (Frame 40960))
    (server : Server) (log : List ServerObservation) (receiver : Nat) : Prop where
  /-- What `Send` builds for the receiver splits into packets of one payload
      each. -/
  packets : referenceParse (outgoing receiver log) =
    ((sentTo receiver log).map fun payload => chatPacket payload.bytes, [])
  /-- The client's parser accepts each of them, as a text without a sender. -/
  readable : ∀ payload ∈ sentTo receiver log, ∃ text,
    SChat.parse_from_array address payload.bytes =
      .ok { impl := SChat.set_message text, unknown_fields := [] }
  /-- The texts from one sender are those of a contiguous run of its chat frames,
      which starts no later than with the first one that is handled after the
      receiver's player has entered the room, and which goes up to the last one
      handled once the room is drained. -/
  relayed : ∀ sender, ∃ handled start count,
    (dispatches sender log).map Dispatch.toPacket =
        ((streams sender).take handled).map Frame.toPacket ∧
      textsFrom address sender (sentTo receiver log) =
        ((texts address ((streams sender).take handled)).drop start).take count ∧
      start + count ≤ (texts address ((streams sender).take handled)).length ∧
      (∀ before player after, log = before ++ .entered player :: after →
        player.session = receiver → start ≤ (relayed (parse_text address) sender before).length) ∧
      (server.room.Drained →
        start + count = (texts address ((streams sender).take handled)).length)

/-- What a receiver is handed of a sender's chat packets is a contiguous run of
    what these contribute. -/
theorem relayed_run_of_exec {parse : List UInt8 → Option (List UInt8)} {events : List ServerEvent}
    {server : Server} {log : List ServerObservation}
    (hexec : (serverMachine parse).exec .start events = some (server, log))
    (hcount : server.client_no < 2 ^ 32) (sender receiver : Nat) :
    ∃ skipped received missed, relayed parse sender log = skipped ++ (received ++ missed) ∧
      comingFrom sender (sentTo receiver log) = received ∧
      (∀ before player after, log = before ++ .entered player :: after →
        player.session = receiver → skipped.length ≤ (relayed parse sender before).length) ∧
      (server.room.Drained → missed = []) := by
  obtain ⟨before, after, hrounds, hbefore, hafter, hentered⟩ :=
    rounds_split_of_exec hexec hcount (playerOf receiver)
  have hhistory := room_history_of_exec hexec
  have halive : (playerOf receiver).session ∉ server.room.expired := by
    rw [room_expired_of_exec hexec]
    exact List.not_mem_nil
  obtain ⟨kept, rest, rfl, hreceived, hrest⟩ :=
    hhistory.receivedBy_eq halive hrounds hbefore hafter
  have hrelayed := comingFrom_pushed_of_exec hexec hcount sender
  rw [hhistory.payloads_eq (room_awake_of_exec hexec), hrounds, List.flatMap_append,
    List.flatMap_append, comingFrom_append, comingFrom_append, comingFrom_append, List.append_assoc,
    List.append_assoc] at hrelayed
  refine ⟨_, _, _, hrelayed.symm, ?_, ?_, ?_⟩
  · rw [sentTo_eq_receivedBy hexec hcount, hreceived]
  · rintro earlier player later rfl hsession
    obtain rfl : player = playerOf receiver := by
      rw [← hsession]
      exact eq_playerOf_of_entered hexec hcount (by simp)
    obtain ⟨first, middle, hfirst, hle⟩ := exec_before_entered hexec
    obtain ⟨more, hmore⟩ := hentered earlier later rfl
    rw [← comingFrom_pushed_of_exec hfirst (by omega), ← hmore, comingFrom_append,
      List.length_append]
    exact Nat.le_add_right _ _
  · intro hdrained
    rw [hrest hdrained.players_snapshot, hdrained.pending_msg, hdrained.local_queue,
      hdrained.etc_queue]
    rfl

/-- A payload is made out of a text that was read, and fits into a packet. -/
structure Spoken (payload : Payload) (text : List UInt8) : Prop where
  utf8 : IsUtf8 text
  length_le : text.length ≤ protobuf.maxSize
  bytes : payload.bytes = (SChat.set_message text).serialize
  fits : FitsPacket payload

/-- A client's parser takes the text out of the payload. -/
theorem Spoken.parse_from_array_eq {payload : Payload} {text : List UInt8}
    (hspoken : Spoken payload text) (address : List UInt8 → Nat) :
    SChat.parse_from_array address payload.bytes =
      .ok { impl := SChat.set_message text, unknown_fields := [] } := by
  rw [hspoken.bytes]
  exact SChat.parse_from_array_serialize hspoken.utf8 hspoken.length_le

/-- What is pushed has been made out of a text that was read. -/
theorem spoken_of_pushed {address : List UInt8 → Nat} {events : List ServerEvent} {server : Server}
    {log : List ServerObservation} {payload : Payload}
    (hexec : (serverMachine (parse_text address)).exec .start events = some (server, log))
    (hpushed : payload ∈ (pushed (roomLog log)).filterMap Job.callback) :
    ∃ text, Spoken payload text := by
  have hbounded := Server.bounded_of_exec hexec
  obtain ⟨job, hjob, hcallback⟩ := List.mem_filterMap.mp hpushed
  obtain ⟨index, dispatch, bytes, hdispatched, hrelay, rfl⟩ := hbounded.jobs job hjob
  obtain rfl := Option.some.inj hcallback
  rw [relay, Option.ite_none_right_eq_some, Option.map_eq_some_iff] at hrelay
  obtain ⟨_, text, hparse, rfl⟩ := hrelay
  obtain ⟨hutf8, hlength⟩ := valid_of_parse_text hparse
  refine ⟨text, hutf8, hlength, rfl, fitsPacket_of_length_le ?_⟩
  exact Nat.le_trans (length_serialize_le_of_parse (textOccurs_parse_text address) hparse)
    (hbounded.bodies index dispatch hdispatched)

theorem exists_sent_of_mem_sentTo {receiver : Nat} {log : List ServerObservation}
    {payload : Payload} (hmem : payload ∈ sentTo receiver log) :
    ∃ player batch, .room (.sent player batch) ∈ log ∧ payload ∈ batch := by
  obtain ⟨seen, hseen, hpayload⟩ := List.mem_flatMap.mp hmem
  split at hpayload
  · split at hpayload
    · exact ⟨_, _, hseen, hpayload⟩
    · cases hpayload
  · cases hpayload

/-- What is sent to a session has been pushed. -/
theorem pushed_of_sentTo {parse : List UInt8 → Option (List UInt8)} {events : List ServerEvent}
    {server : Server} {log : List ServerObservation} {receiver : Nat} {payload : Payload}
    (hexec : (serverMachine parse).exec .start events = some (server, log))
    (hmem : payload ∈ sentTo receiver log) :
    payload ∈ (pushed (roomLog log)).filterMap Job.callback := by
  obtain ⟨player, batch, hsent, hbatch⟩ := exists_sent_of_mem_sentTo hmem
  exact (room_history_of_exec hexec).pushed_of_sent (room_awake_of_exec hexec)
    (mem_roomLog_iff.mpr hsent) hbatch

/-- The first chat packet of a session has been sent, and the second one is
    queued. -/
def sentAndQueued : List ServerEvent :=
  queuedChat ++ [.notify_one 0, .flush .wait, .flush .execute, .flush (.swap [⟨0, ⟨0, true, 0⟩⟩]),
    .flush .send, .flush .end_round, .read 0 0 .advance, .read 0 0 .present, .read 0 0 .register_recv,
    .read 0 0 (.read [7, 0, 1, 0, 10, 1, 66]), .read 0 0 .present]

/-- The buffers for a session are its packets, one behind the other. -/
theorem outgoing_eq {log : List ServerObservation} {receiver : Nat}
    (hsize : ∀ payload ∈ sentTo receiver log, payload.bytes.length < 2 ^ 16) :
    outgoing receiver log = ((sentTo receiver log).map Payload.bytes).flatMap packetBytes := by
  rw [outgoing, sentTo, List.map_flatMap, List.flatMap_assoc]
  apply List.flatMap_congr
  intro seen hseen
  cases seen with
  | entered player => rfl
  | dispatched index dispatch => rfl
  | room seen =>
    cases seen with
    | sent player batch =>
      by_cases hsession : player.session = receiver
      · simp only [if_pos hsession]
        apply encode_eq_flatMap
        intro bytes hbytes
        obtain ⟨payload, hpayload, rfl⟩ := List.mem_map.mp hbytes
        apply hsize
        exact List.mem_flatMap.mpr ⟨_, hseen, by simpa [hsession] using hpayload⟩
      · simp [hsession]
    | _ => rfl

theorem contributions_eq_texts (address : List UInt8 → Nat) {limit : Nat} (frames : List (Frame limit)) :
    contributions (parse_text address) frames =
      (texts address frames).map fun text => (SChat.set_message text).serialize := by
  rw [contributions, texts, List.map_filterMap]
  congr 1
  funext frame
  rw [relay]
  split <;> simp

/-- A client reads back the texts that were serialized. -/
theorem filterMap_receive_text {address : List UInt8 → Nat} {read : List (List UInt8)}
    (hvalid : ∀ text ∈ read, IsUtf8 text ∧ text.length ≤ protobuf.maxSize) :
    (read.map fun text => (SChat.set_message text).serialize).filterMap (receive_text address) =
      read := by
  induction read with
  | nil => rfl
  | cons text read ih =>
    obtain ⟨⟨hutf8, hlength⟩, hrest⟩ := List.forall_mem_cons.mp hvalid
    rw [List.map_cons, List.filterMap_cons, receive_text_serialize hutf8 hlength]
    dsimp only
    rw [ih hrest]

theorem valid_of_mem_texts {address : List UInt8 → Nat} {limit : Nat} {frames : List (Frame limit)}
    {text : List UInt8} (hmem : text ∈ texts address frames) :
    IsUtf8 text ∧ text.length ≤ protobuf.maxSize := by
  obtain ⟨frame, _, hparse⟩ := List.mem_filterMap.mp hmem
  rw [Option.ite_none_right_eq_some] at hparse
  exact valid_of_parse_text hparse.2

/-- What is built for a receiver splits into one packet for each payload. -/
theorem referenceParse_outgoing {address : List UInt8 → Nat} {events : List ServerEvent}
    {server : Server} {log : List ServerObservation}
    (hexec : (serverMachine (parse_text address)).exec .start events = some (server, log))
    (receiver : Nat) : referenceParse (outgoing receiver log) =
      ((sentTo receiver log).map fun payload => chatPacket payload.bytes, []) := by
  have hsize : ∀ payload ∈ sentTo receiver log, payload.bytes.length ≤ 65531 := by
    intro payload hmem
    obtain ⟨_, hspoken⟩ := spoken_of_pushed hexec (pushed_of_sentTo hexec hmem)
    have hle := hspoken.fits.length_le
    omega
  have hshort : ∀ payload ∈ sentTo receiver log, payload.bytes.length < 2 ^ 16 := by
    intro payload hmem
    have hle := hsize payload hmem
    omega
  have hbytes : ∀ bytes ∈ (sentTo receiver log).map Payload.bytes, bytes.length ≤ 65531 := by
    intro bytes hmem
    obtain ⟨payload, hpayload, rfl⟩ := List.mem_map.mp hmem
    exact hsize payload hpayload
  have hreach := reaches_packetBytes _ hbytes []
  have hend : nextPacket 65535 [] = none := nextPacket_eq_none_of_length_lt (by decide)
  rw [List.append_nil, ← outgoing_eq hshort, List.map_map] at hreach
  exact hreach.split_eq_of_next hend

/-- The texts that a receiver is told by one sender are a contiguous run of what
    the sender has said. -/
theorem texts_run_of_exec {address : List UInt8 → Nat} {stream : List (Frame 40960)}
    {events : List ServerEvent} {server : Server} {log : List ServerObservation}
    (hexec : (serverMachine (parse_text address)).exec .start events = some (server, log))
    (hcount : server.client_no < 2 ^ 32) {sender : Nat}
    (hstream : delivered (readEvents sender events) <+: stream.flatMap Frame.encode)
    (receiver : Nat) : ∃ handled start count,
      (dispatches sender log).map Dispatch.toPacket = (stream.take handled).map Frame.toPacket ∧
        textsFrom address sender (sentTo receiver log) =
          ((texts address (stream.take handled)).drop start).take count ∧
        start + count ≤ (texts address (stream.take handled)).length ∧
        (∀ before player after, log = before ++ .entered player :: after →
          player.session = receiver → start ≤ (relayed (parse_text address) sender before).length) ∧
        (server.room.Drained → start + count = (texts address (stream.take handled)).length) := by
  obtain ⟨handled, hpackets⟩ := dispatches_of_exec hexec hcount sender hstream
  have hcontributions := @relayed_eq_contributions (parse_text address) sender _ log _ hpackets
  rw [contributions_eq_texts] at hcontributions
  obtain ⟨skipped, received, missed, hrelayed, hreceived, hjoined, hdrained⟩ :=
    relayed_run_of_exec hexec hcount sender receiver
  rw [hcontributions] at hrelayed
  obtain ⟨before, rest, htexts, rfl, hrest⟩ := List.map_eq_append_iff.mp hrelayed
  obtain ⟨run, after, rfl, rfl, rfl⟩ := List.map_eq_append_iff.mp hrest
  have hvalid : ∀ text ∈ run, IsUtf8 text ∧ text.length ≤ protobuf.maxSize := by
    intro text hmem
    apply @valid_of_mem_texts address
    rw [htexts]
    exact List.mem_append_right _ (List.mem_append_left _ hmem)
  rw [List.length_map] at hjoined
  refine ⟨handled, before.length, run.length, hpackets, ?_, ?_, hjoined, ?_⟩
  · rw [textsFrom, hreceived, filterMap_receive_text hvalid, htexts, List.drop_left, List.take_left]
  · rw [htexts, List.length_append, List.length_append]
    omega
  · intro hroom
    have hnone := List.map_eq_nil_iff.mp (hdrained hroom)
    rw [htexts, hnone, List.append_nil, List.length_append]

/-- In every run of the server, with its own parser, every client is told what
    the others say. What `Send` builds for it splits into packets that the
    client's parser accepts. The texts from one sender are exactly those that
    the parser finds in a contiguous run of the sender's frames, in order. This
    holds however the frames are cut into reads and the threads interleave,
    and of bodies that do not parse, too, which are passed over. -/
theorem conversation_of_exec (address : List UInt8 → Nat) (streams : Nat → List (Frame 40960))
    (events : List ServerEvent) (server : Server) (log : List ServerObservation)
    (hexec : (serverMachine (parse_text address)).exec .start events = some (server, log))
    (hcount : server.client_no < 2 ^ 32)
    (hstreams : ∀ index, delivered (readEvents index events) <+:
      (streams index).flatMap Frame.encode) (receiver : Nat) :
    Conversation address streams server log receiver := by
  constructor
  · exact referenceParse_outgoing hexec receiver
  · intro payload hmem
    obtain ⟨text, hspoken⟩ := spoken_of_pushed hexec (pushed_of_sentTo hexec hmem)
    exact ⟨text, hspoken.parse_from_array_eq address⟩
  · intro sender
    exact texts_run_of_exec hexec hcount (hstreams sender) receiver

theorem conversation_of_exec_two : ∃ server log,
    (serverMachine (parse_text fun _ => 0)).exec .start lateArrival = some (server, log) ∧
      textsFrom (fun _ => 0) 0 (sentTo 1 log) = [[66]] ∧
      Conversation (fun _ => 0) (fun index => if index = 0 then [chatFrame 65, chatFrame 66] else [])
        server log 1 := by
  have hrun : (((serverMachine (parse_text fun _ => 0)).exec .start lateArrival).map fun result =>
      (textsFrom (fun _ => 0) 0 (sentTo 1 result.2), result.1.client_no)) = some ([[66]], 2) := by
    decide +kernel
  obtain ⟨⟨server, log⟩, hexec, hresult⟩ := Option.map_eq_some_iff.mp hrun
  obtain ⟨hreceived, hclient⟩ := Prod.mk.inj hresult
  have hcount : server.client_no < 2 ^ 32 := by
    rw [show server.client_no = 2 from hclient]
    decide
  have hstreams : ∀ index, delivered (readEvents index lateArrival) <+:
      (if index = 0 then [chatFrame 65, chatFrame 66] else []).flatMap Frame.encode := by
    intro index
    by_cases hindex : index = 0
    · rw [hindex]
      decide
    · simp [readEvents, lateArrival, hindex, Ne.symm hindex]
  exact ⟨server, log, hexec, hreceived, conversation_of_exec (fun _ => 0) _ lateArrival server log
    hexec hcount hstreams 1⟩

end topview.server
