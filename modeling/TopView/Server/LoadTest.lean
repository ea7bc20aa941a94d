import TopView.ChatClient.Stream
import TopView.Server.Conversation

open topview.chat_client topview.packet topview.packet_handler topview.protocol topview.room
open topview.session topview.transition topview.wire

namespace topview.server

/-- The server reads the text of a frame back. -/
theorem relay_frame (address : List UInt8 → Nat) {i : Nat} (hi : i < 2 ^ 31) (number : Nat) :
    relay (parse_text address) (frame hi number).id (frame hi number).body =
      some (SChat.set_message (message i (number % 2 ^ 64))).serialize := by
  have htext := @parse_text_serialize address _ (isUtf8_message i (number % 2 ^ 64))
    (length_message_le_maxSize hi (Nat.mod_lt number (Nat.two_pow_pos 64)))
  have hid : (frame hi number).id = C_CHAT := rfl
  have hbody : (frame hi number).body =
      (CChat.set_message (message i (number % 2 ^ 64))).serialize := rfl
  rw [relay, if_pos hid, hbody, htext]
  rfl

/-- What the frames of a client contribute. -/
theorem contributions_frames (address : List UInt8 → Nat) {i : Nat} (hi : i < 2 ^ 31) (numbers : List Nat) :
    contributions (parse_text address) (numbers.map (frame hi)) =
      numbers.map fun number => (SChat.set_message (message i (number % 2 ^ 64))).serialize := by
  induction numbers with
  | nil => rfl
  | cons number numbers ih =>
    rw [List.map_cons, List.map_cons, ← ih]
    simp only [contributions, List.filterMap_cons, relay_frame]

/-- The texts of the messages with these numbers. -/
def numbered (i : Nat) (numbers : List Nat) : List (List UInt8) :=
  numbers.map fun number => message i (number % 2 ^ 64)

/-- What is received from a client of the load test. -/
structure Delivered (address : List UInt8 → Nat) (i : Nat) (server : Server)
    (log : List ServerObservation) (sender receiver start count : Nat) : Prop where
  texts : textsFrom address sender (sentTo receiver log) = numbered i (List.range' start count)
  within : start + count ≤ (dispatches sender log).length
  joined : ∀ before player after, log = before ++ .entered player :: after →
    player.session = receiver → start ≤ (dispatches sender before).length
  drained : server.room.Drained → start + count = (dispatches sender log).length

theorem relayed_length_le (parse : List UInt8 → Option (List UInt8)) (sender : Nat)
    (log : List ServerObservation) :
    (relayed parse sender log).length ≤ (dispatches sender log).length :=
  List.length_filterMap_le _ _

/-- A session that reads the stream of a client delivers its messages in order
    and without a gap. -/
theorem delivered_of_exec {address : List UInt8 → Nat} {client_count : Nat}
    {clientEvents : List ClientEvent} {client : Client} {clientLog : List ClientObservation}
    {events : List ServerEvent} {server : Server} {log : List ServerObservation}
    (hclients : client_count < 2 ^ 31)
    (hclient : (clientMachine client_count).exec (.start client_count) clientEvents =
      some (client, clientLog))
    (hexec : (serverMachine (parse_text address)).exec .start events = some (server, log))
    (hcount : server.client_no < 2 ^ 32) {sender i : Nat}
    (hstream : delivered (readEvents sender events) <+: taken i clientLog) (receiver : Nat) :
    ∃ start count, Delivered address i server log sender receiver start count ∧
      (dispatches sender log).length ≤ sent i clientLog := by
  have hinv := Client.inv_of_exec hclients hclient
  by_cases hlt : i < client_count
  · have hi : i < 2 ^ 31 := Nat.lt_trans hlt hclients
    have hfront := hstream.trans (hinv.streams i hi hlt).front
    obtain ⟨handled, hpackets⟩ := dispatches_of_exec hexec hcount sender hfront
    rw [frames, ← List.map_take, List.take_range] at hpackets
    have hlength := congrArg List.length hpackets
    rw [List.length_map, List.length_map, List.length_map, List.length_range] at hlength
    have hrelayed := @relayed_eq_contributions (parse_text address) sender _ log _ hpackets
    rw [contributions_frames, ← hlength] at hrelayed
    obtain ⟨skipped, received, missed, hsplit, hreceived, hjoined, hdrained⟩ :=
      relayed_run_of_exec hexec hcount sender receiver
    rw [hrelayed] at hsplit
    obtain ⟨before, rest, hrange, rfl, hrest⟩ := List.map_eq_append_iff.mp hsplit
    obtain ⟨run, after, rfl, rfl, rfl⟩ := List.map_eq_append_iff.mp hrest
    rw [List.range_eq_range', List.range'_eq_append_iff] at hrange
    obtain ⟨start, hstart, rfl, hrun⟩ := hrange
    obtain ⟨count, hcounted, rfl, rfl⟩ := List.range'_eq_append_iff.mp hrun.symm
    rw [Nat.mul_one, Nat.zero_add] at hreceived hdrained
    have hvalid : ∀ text ∈ numbered i (List.range' start count), IsUtf8 text ∧
        text.length ≤ protobuf.maxSize := by
      intro text hmem
      obtain ⟨number, _, rfl⟩ := List.mem_map.mp hmem
      exact ⟨isUtf8_message i _,
        length_message_le_maxSize hi (Nat.mod_lt number (Nat.two_pow_pos 64))⟩
    refine ⟨start, count, ⟨?_, by omega, ?_, ?_⟩, by omega⟩
    · rw [textsFrom, hreceived, ← @filterMap_receive_text address _ hvalid, numbered,
        List.map_map]
      rfl
    · intro earlier player later hlog hsession
      have hle := hjoined earlier player later hlog hsession
      rw [List.length_map, List.length_range'] at hle
      exact hle.trans (relayed_length_le _ _ _)
    · intro hroom
      have hnone := congrArg List.length (hdrained hroom)
      rw [List.length_map, List.length_range', List.length_nil] at hnone
      omega
  · have hfront : delivered (readEvents sender events) <+:
        ([] : List (Frame 40960)).flatMap Frame.encode := by
      rw [hinv.outside i (Nat.le_of_not_lt hlt)] at hstream
      exact hstream
    obtain ⟨handled, hpackets⟩ := dispatches_of_exec hexec hcount sender hfront
    rw [List.take_nil, List.map_nil, List.map_eq_nil_iff] at hpackets
    obtain ⟨_, received, _, hsplit, hreceived, _⟩ := relayed_run_of_exec hexec hcount sender receiver
    rw [relayed, hpackets, List.filterMap_nil, eq_comm, List.append_eq_nil_iff,
      List.append_eq_nil_iff] at hsplit
    obtain ⟨_, rfl, _⟩ := hsplit
    refine ⟨0, 0, ⟨?_, Nat.zero_le _, fun _ _ _ _ _ => Nat.zero_le _, fun _ => ?_⟩, ?_⟩
    · rw [textsFrom, hreceived]
      rfl
    · rw [hpackets]
      rfl
    · rw [hpackets]
      exact Nat.zero_le _

/-- As long as its counter does not wrap, no two messages of a client are the
    same. -/
theorem numbered_nodup (i : Nat) {start count : Nat} (hle : start + count ≤ 2 ^ 64) :
    (numbered i (List.range' start count)).Nodup := by
  apply List.Nodup.map_on ?_ List.nodup_range'
  intro first hfirst second hsecond heq
  rw [List.mem_range'_1] at hfirst hsecond
  have hnumber := (message_inj heq).2
  rwa [Nat.mod_eq_of_lt (by omega), Nat.mod_eq_of_lt (by omega)] at hnumber

/-- The texts that a client's parser takes out of payloads, whoever sent them. -/
def received_texts (address : List UInt8 → Nat) (payloads : List Payload) : List (List UInt8) :=
  payloads.filterMap fun payload => receive_text address payload.bytes

theorem received_texts_cons (address : List UInt8 → Nat) (payload : Payload) (payloads : List Payload) :
    received_texts address (payload :: payloads) =
      (receive_text address payload.bytes).toList ++ received_texts address payloads := by
  cases hreceive : receive_text address payload.bytes <;> simp [received_texts, hreceive]

theorem textsFrom_cons (address : List UInt8 → Nat) (sender : Nat) (payload : Payload)
    (payloads : List Payload) : textsFrom address sender (payload :: payloads) =
      (if payload.origin = sender then (receive_text address payload.bytes).toList else []) ++
        textsFrom address sender payloads := by
  by_cases horigin : payload.origin = sender
  · cases hreceive : receive_text address payload.bytes <;>
      simp [textsFrom, comingFrom, horigin, hreceive]
  · simp [textsFrom, comingFrom, horigin]

/-- Texts are received once, when they are received once from each sender, and
    different senders have different texts. -/
theorem received_nodup {address : List UInt8 → Nat} {payloads : List Payload}
    (hown : ∀ sender, (textsFrom address sender payloads).Nodup)
    (hother : ∀ first second text, text ∈ textsFrom address first payloads →
      text ∈ textsFrom address second payloads → first = second) :
    (received_texts address payloads).Nodup := by
  induction payloads with
  | nil => exact List.nodup_nil
  | cons payload payloads ih =>
    have hlater {sender : Nat} {text : List UInt8} (hmem : text ∈ textsFrom address sender payloads) :
        text ∈ textsFrom address sender (payload :: payloads) := by
      rw [textsFrom_cons]
      exact List.mem_append_right _ hmem
    have htail : (received_texts address payloads).Nodup := by
      apply ih
      · intro sender
        have hnodup := hown sender
        rw [textsFrom_cons] at hnodup
        exact (List.nodup_append.mp hnodup).2.1
      · intro first second text hfirst hsecond
        exact hother first second text (hlater hfirst) (hlater hsecond)
    rw [received_texts_cons]
    cases hreceive : receive_text address payload.bytes with
    | none => exact htail
    | some text =>
      refine List.nodup_cons.mpr ⟨?_, htail⟩
      intro hagain
      obtain ⟨again, hpayload, hread⟩ := List.mem_filterMap.mp hagain
      have hrest : text ∈ textsFrom address again.origin payloads :=
        List.mem_filterMap.mpr ⟨again.bytes, List.mem_filterMap.mpr ⟨again, hpayload, if_pos rfl⟩, hread⟩
      have hcons := textsFrom_cons address payload.origin payload payloads
      rw [if_pos rfl, hreceive] at hcons
      have hfirst : text ∈ textsFrom address payload.origin (payload :: payloads) := by
        rw [hcons]
        exact List.mem_cons_self
      rw [← hother _ _ text hfirst (hlater hrest)] at hrest
      have hnodup := hown payload.origin
      rw [hcons] at hnodup
      exact (List.nodup_cons.mp hnodup).1 hrest

/-- The server under load, with sessions that read the streams of the clients. -/
structure LoadTest (address : List UInt8 → Nat) (socket : Nat → Nat)
    (clientLog : List ClientObservation) (server : Server) (log : List ServerObservation)
    (receiver : Nat) : Prop where
  /-- Each client's messages arrive in order and without a gap. -/
  consecutive : ∀ sender, ∃ start count,
    Delivered address (socket sender) server log sender receiver start count ∧
      (dispatches sender log).length ≤ sent (socket sender) clientLog
  /-- No message arrives twice. -/
  once : (∀ i, sent i clientLog ≤ 2 ^ 64) → (received_texts address (sentTo receiver log)).Nodup

/-- Two clients send a message each, and then again. The connection of the second
    one breaks inside of its second message. -/
def twoRounds : List ClientEvent :=
  [.connect ⟨true, true⟩, .connect ⟨true, true⟩, .main, .main, .send none, .send none, .main, .main,
    .send none, .send (some 7)]

/-- What the connections take of the messages of the clients. -/
def firstStream : List UInt8 :=
  (frame (i := 0) (by decide) 0).encode ++ (frame (i := 0) (by decide) 1).encode

def secondStream : List UInt8 :=
  (frame (i := 1) (by decide) 0).encode ++ ((frame (i := 1) (by decide) 1).encode).take 7

/-- The streams are read while the consumer of the room works. The reads of the
    first one end inside of a message. -/
def interleavedReads : List ServerEvent :=
  [.main, .main, .main, .main, .accept, .emplace, .start_session, .enter_object, .register_recv,
    .accept, .emplace, .start_session, .enter_object, .register_recv,
    .read 0 0 (.read (firstStream.take 40)), .read 1 0 (.read secondStream), .read 0 0 .present,
    .read 1 0 .present, .notify_one 0, .notify_one 1, .flush .wait, .flush .execute, .flush .execute,
    .read 0 0 .advance, .read 0 0 .present, .read 0 0 .register_recv,
    .read 0 0 (.read (firstStream.drop 40)),
    .flush (.swap [⟨1, ⟨1, true, 1⟩⟩, ⟨0, ⟨0, true, 0⟩⟩]), .flush .send, .flush .send,
    .read 0 0 .present, .notify_one 0, .flush .end_round, .read 1 0 .advance, .read 1 0 .present,
    .read 1 0 .register_recv, .read 1 0 .error, .flush .wait, .flush .execute,
    .flush (.swap [⟨1, ⟨1, true, 1⟩⟩, ⟨0, ⟨0, true, 0⟩⟩]), .flush .send, .flush .send,
    .flush .end_round]

end topview.server
