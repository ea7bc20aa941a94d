import TopView.DummyClient.SessionManager
import TopView.Server.Conversation

open topview.dummy_client topview.packet topview.packet_handler topview.protocol topview.room
open topview.session topview.transition topview.wire

namespace topview.server

/-- The server takes a class choice for a chat message without a text. -/
theorem parse_text_classChoice (address : List UInt8 → Nat) :
    parse_text address classChoice.to_byte_array = some [] := by
  have hbounded : Record.Bounded protobuf.maxSize (.varint 1 1) := ⟨⟨by omega, by omega⟩, by omega⟩
  have hformed : WellFormed protobuf.maxSize protobuf.default_recursion_limit [.varint 1 1] :=
    .plain hbounded .nil
  have hfields := hformed.fields_encode (by
    unfold protobuf.maxSize protobuf.kSlopBytes
    omega)
  have hencode : encode [.varint 1 1] = classChoice.to_byte_array := by decide +kernel
  rw [hencode] at hfields
  exact parse_text_eq_some_iff.mpr ⟨_, hfields, by simp [delimited], rfl⟩

theorem relay_choiceFrame (address : List UInt8 → Nat) :
    relay (parse_text address) choiceFrame.id choiceFrame.body = some [] := by
  have hid : choiceFrame.id = C_CHAT := rfl
  have hbody : choiceFrame.body = classChoice.to_byte_array := rfl
  rw [relay, if_pos hid, hbody, parse_text_classChoice]
  rfl

theorem relay_moveFrame (parse : List UInt8 → Option (List UInt8)) :
    relay parse moveFrame.id moveFrame.body = none := by
  have hid : moveFrame.id ≠ C_CHAT := by decide
  rw [relay, if_neg hid]

/-- Moves contribute nothing, and a class choice an empty payload. -/
theorem contributions_dummy (address : List UInt8 → Nat) {frames : List (Frame 40960)}
    (hall : ∀ frame ∈ frames, frame = choiceFrame ∨ frame = moveFrame) :
    contributions (parse_text address) frames =
      List.replicate ((frames.map Frame.encode).count choiceFrame.encode) [] := by
  induction frames with
  | nil => rfl
  | cons frame frames ih =>
    obtain ⟨hframe, hrest⟩ := List.forall_mem_cons.mp hall
    have hih := ih hrest
    rcases hframe with rfl | rfl
    · rw [List.map_cons, List.count_cons_self, List.replicate_succ, ← hih]
      simp only [contributions, List.filterMap_cons, relay_choiceFrame]
    · have hne : moveFrame.encode ≠ choiceFrame.encode := by decide
      rw [List.map_cons, List.count_cons_of_ne hne, ← hih]
      simp only [contributions, List.filterMap_cons, relay_moveFrame]

/-- A session of the dummy client makes the server send every client one empty
    chat message at most, however many moves it sends. This holds of any run of
    the dummy client and any run of the server. -/
theorem dummyLoad_of_exec (address : List UInt8 → Nat) (managerEvents : List ManagerEvent)
    (manager : SessionManager) (managerLog : List Handed)
    (hmanager : managerMachine.exec .start managerEvents = some (manager, managerLog))
    (events : List ServerEvent) (server : Server) (log : List ServerObservation)
    (hexec : (serverMachine (parse_text address)).exec .start events = some (server, log))
    (hcount : server.client_no < 2 ^ 32) (sender session : Nat)
    (hstream : delivered (readEvents sender events) <+: (packets session managerLog).flatten)
    (receiver : Nat) : ∃ count ≤ 1,
      comingFrom sender (sentTo receiver log) = List.replicate count [] ∧
        textsFrom address sender (sentTo receiver log) = List.replicate count [] := by
  have hinv := SessionManager.inv_of_exec hmanager
  obtain ⟨frames, hframes, hall⟩ := exists_frames (hinv.kinds session)
  have hchoices : (frames.map Frame.encode).count choiceFrame.encode ≤ 1 := by
    rw [← hframes, hinv.choices]
    split <;> omega
  rw [hframes, ← List.flatMap_def] at hstream
  obtain ⟨handled, hpackets⟩ := dispatches_of_exec hexec hcount sender hstream
  have hrelayed := @relayed_eq_contributions (parse_text address) sender _ log _ hpackets
  rw [contributions_dummy address fun frame hmem => hall frame (List.mem_of_mem_take hmem)] at hrelayed
  obtain ⟨skipped, received, missed, hsplit, hreceived, _⟩ :=
    relayed_run_of_exec hexec hcount sender receiver
  rw [hrelayed] at hsplit
  have hempty : received = List.replicate received.length [] := by
    refine List.eq_replicate_of_mem ?_
    intro bytes hmem
    apply List.eq_of_mem_replicate
    rw [hsplit]
    exact List.mem_append_right _ (List.mem_append_left _ hmem)
  have hlength := congrArg List.length hsplit
  rw [List.length_replicate, List.length_append, List.length_append] at hlength
  have htake := ((List.take_sublist handled frames).map Frame.encode).count_le choiceFrame.encode
  refine ⟨received.length, by omega, by rw [hreceived, ← hempty], ?_⟩
  have hread := @filterMap_receive_text address (List.replicate received.length []) (by
    intro text hmem
    rw [List.eq_of_mem_replicate hmem]
    exact ⟨.nil, Nat.zero_le _⟩)
  rw [List.map_replicate, SChat.serialize_set_message_nil, ← hempty] at hread
  rw [textsFrom, hreceived, hread]
  exact hempty

/-- A session of the dummy client is connected and moves. -/
def chooseAndMove : List ManagerEvent :=
  [.generate, .on_connected 0, .send_for_each, .send 0, .leave]

/-- Its bytes arrive in two reads. -/
def emptyChat : List ServerEvent :=
  [.main, .main, .main, .main, .accept, .emplace, .start_session, .enter_object, .register_recv,
    .read 0 0 (.read [6, 0, 1, 0, 8]), .read 0 0 .present, .read 0 0 .register_recv,
    .read 0 0 (.read [1, 4, 0, 5, 0]), .read 0 0 .present, .notify_one 0, .flush .wait,
    .flush .execute, .flush (.swap [⟨0, ⟨0, true, 0⟩⟩]), .flush .send, .flush .end_round,
    .read 0 0 .advance, .read 0 0 .present]

theorem dummyLoad_of_exec_empty : ∃ manager managerLog server log,
    managerMachine.exec .start chooseAndMove = some (manager, managerLog) ∧
      (serverMachine (parse_text fun _ => 0)).exec .start emptyChat = some (server, log) ∧
      comingFrom 0 (sentTo 0 log) = [[]] ∧ ∃ count ≤ 1,
        comingFrom 0 (sentTo 0 log) = List.replicate count [] ∧
          textsFrom (fun _ => 0) 0 (sentTo 0 log) = List.replicate count [] := by
  have hmanagerRun : ((managerMachine.exec .start chooseAndMove).map fun result =>
      (packets 0 result.2).flatten) = some [6, 0, 1, 0, 8, 1, 4, 0, 5, 0] := by
    decide +kernel
  have hserverRun : (((serverMachine (parse_text fun _ => 0)).exec .start emptyChat).map fun result =>
      (comingFrom 0 (sentTo 0 result.2), result.1.client_no)) = some ([[]], 1) := by
    decide +kernel
  obtain ⟨⟨manager, managerLog⟩, hmanager, hpackets⟩ := Option.map_eq_some_iff.mp hmanagerRun
  obtain ⟨⟨server, log⟩, hexec, hresult⟩ := Option.map_eq_some_iff.mp hserverRun
  obtain ⟨hreceived, hno⟩ := Prod.mk.inj hresult
  have hcount : server.client_no < 2 ^ 32 := by
    rw [show server.client_no = 1 from hno]
    decide
  have hstream : delivered (readEvents 0 emptyChat) <+: (packets 0 managerLog).flatten := by
    rw [show (packets 0 managerLog).flatten = _ from hpackets]
    decide
  exact ⟨manager, managerLog, server, log, hmanager, hexec, hreceived,
    dummyLoad_of_exec (fun _ => 0) chooseAndMove manager managerLog hmanager emptyChat server log
      hexec hcount 0 0 hstream 0⟩

end topview.server
