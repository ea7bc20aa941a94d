import TopView.Server.Conversation
import TopView.Session.Wire

open topview.packet topview.packet_handler topview.protocol topview.room topview.session
open topview.transition

namespace topview.server

/-- The batches that a session's `Send` is called with. -/
def batchesTo (receiver : Nat) (log : List ServerObservation) : List (List (List UInt8)) :=
  log.filterMap fun seen => match seen with
    | .room (.sent player batch) =>
      if player.session = receiver then some (batch.map Payload.bytes) else none
    | _ => none

theorem flatMap_batchesTo (receiver : Nat) (log : List ServerObservation) :
    (batchesTo receiver log).flatMap session.encode = outgoing receiver log := by
  induction log with
  | nil => rfl
  | cons seen log ih =>
    rw [batchesTo, outgoing] at ih ⊢
    rw [List.filterMap_cons, List.flatMap_cons, ← ih]
    cases seen with
    | room seen =>
      cases seen with
      | sent player batch =>
        by_cases hsession : player.session = receiver
        · simp [hsession]
        · simp [hsession]
      | _ => rfl
    | _ => rfl

/-- What a socket has written is a front of what `Send` has been called with. -/
theorem written_prefix_of_along {events : List WireEvent} {wire : Wire} {written : List UInt8}
    (hexec : wireMachine.exec Wire.start events = some (wire, written))
    (hguard : wireMachine.Along Undisturbed Wire.start events) :
    written <+: (batches events).flatMap session.encode := by
  have hinv := wireMachine.along_induct Wire.Inv Wire.Inv.start
    (fun _ _ _ _ _ _ hinv hevent hstep => hinv.step hevent hstep) hexec hguard
  exact hinv.prefix_of_batches

/-- The packets of a front of a stream are a front of its packets. -/
theorem referenceParse_prefix {bytes stream : List UInt8} (hfront : bytes <+: stream) :
    (referenceParse bytes).1 <+: (referenceParse stream).1 := by
  obtain ⟨more, rfl⟩ := hfront
  rw [referenceParse, referenceParse, (packetSplitter 65535).split_append]
  exact List.prefix_append _ _

theorem prefix_textsFrom {address : List UInt8 → Nat} {sender : Nat} {first payloads : List Payload}
    (hfront : first <+: payloads) :
    textsFrom address sender first <+: textsFrom address sender payloads :=
  (hfront.filterMap _).filterMap _

/-- A front of a contiguous run is a contiguous run. -/
theorem eq_take_drop_of_prefix {T : Type} {first whole : List T} {start count : Nat}
    (hfront : first <+: (whole.drop start).take count) :
    first = (whole.drop start).take first.length := by
  have hfront := hfront.trans (List.take_prefix count (whole.drop start))
  exact List.prefix_iff_eq_take.mp hfront

/-- What a client has taken out of the bytes that it has read. -/
structure Reads (address : List UInt8 → Nat) (streams : Nat → List (Frame 40960))
    (log : List ServerObservation) (receiver : Nat) (bytes : List UInt8) (count : Nat) : Prop where
  packets : (referenceParse bytes).1 =
    ((sentTo receiver log).take count).map fun payload => chatPacket payload.bytes
  texts : ∀ sender, ∃ handled start length,
    (dispatches sender log).map Dispatch.toPacket =
        ((streams sender).take handled).map Frame.toPacket ∧
      textsFrom address sender ((sentTo receiver log).take count) =
        ((texts address ((streams sender).take handled)).drop start).take length
  whole : bytes = outgoing receiver log → (sentTo receiver log).length ≤ count

/-- From socket to socket. The sessions are sent frames, and a receiver's socket
    writes the batches of its session, as long as no write is cut short while
    another one is outstanding. Whatever part of this the client has read, it
    finds nothing but whole chat packets in there. The texts of one sender among
    them are those of a contiguous run of the sender's frames, in order. -/
theorem reads_of_exec (address : List UInt8 → Nat) (streams : Nat → List (Frame 40960))
    (events : List ServerEvent) (server : Server) (log : List ServerObservation)
    (hexec : (serverMachine (parse_text address)).exec .start events = some (server, log))
    (hcount : server.client_no < 2 ^ 32)
    (hstreams : ∀ index, delivered (readEvents index events) <+:
      (streams index).flatMap Frame.encode) (receiver : Nat) (wireEvents : List WireEvent)
    (wire : Wire) (written : List UInt8)
    (hwire : wireMachine.exec Wire.start wireEvents = some (wire, written))
    (hbatches : batches wireEvents = batchesTo receiver log)
    (hguard : wireMachine.Along Undisturbed Wire.start wireEvents) (bytes : List UInt8)
    (hbytes : bytes <+: written) : ∃ count, Reads address streams log receiver bytes count := by
  have hfront := hbytes.trans (written_prefix_of_along hwire hguard)
  rw [hbatches, flatMap_batchesTo] at hfront
  have hpackets := referenceParse_prefix hfront
  rw [referenceParse_outgoing hexec receiver, List.prefix_iff_eq_take, ← List.map_take] at hpackets
  refine ⟨(referenceParse bytes).1.length, hpackets, ?_, ?_⟩
  · intro sender
    obtain ⟨handled, start, length, hframes, htexts, _⟩ :=
      texts_run_of_exec hexec hcount (hstreams sender) receiver
    have hfront := @prefix_textsFrom address sender _ _
      (List.take_prefix (referenceParse bytes).1.length (sentTo receiver log))
    rw [htexts] at hfront
    exact ⟨handled, start, _, hframes, eq_take_drop_of_prefix hfront⟩
  · rintro rfl
    rw [referenceParse_outgoing hexec receiver, List.length_map]

/-- The socket of the first session takes its first batch in two pieces. -/
def twoBatches : List WireEvent :=
  [.send [[10, 1, 65]], .write_some 2, .go_on 0, .write_some 5, .go_on 0, .send [[10, 1, 66]],
    .write_some 7]

/-- The client has read the first packet and two bytes of the second one. -/
theorem reads_of_exec_two : ∃ server log,
    (serverMachine (parse_text fun _ => 0)).exec .start lateArrival = some (server, log) ∧
      sentTo 0 log = [⟨0, [10, 1, 65]⟩, ⟨0, [10, 1, 66]⟩] ∧
      (referenceParse [7, 0, 2, 0, 10, 1, 65, 7, 0]).1 = [chatPacket [10, 1, 65]] ∧
      ∃ count, Reads (fun _ => 0)
        (fun index => if index = 0 then [chatFrame 65, chatFrame 66] else []) log 0
        [7, 0, 2, 0, 10, 1, 65, 7, 0] count := by
  have hrun : (((serverMachine (parse_text fun _ => 0)).exec .start lateArrival).map fun result =>
      (batchesTo 0 result.2, sentTo 0 result.2, result.1.client_no)) =
        some ([[[10, 1, 65]], [[10, 1, 66]]], [⟨0, [10, 1, 65]⟩, ⟨0, [10, 1, 66]⟩], 2) := by
    decide +kernel
  obtain ⟨⟨server, log⟩, hexec, hresult⟩ := Option.map_eq_some_iff.mp hrun
  simp only [Prod.mk.injEq] at hresult
  obtain ⟨hbatches, hsent, hclient⟩ := hresult
  have hcount : server.client_no < 2 ^ 32 := by
    rw [hclient]
    decide
  have hstreams : ∀ index, delivered (readEvents index lateArrival) <+:
      (if index = 0 then [chatFrame 65, chatFrame 66] else []).flatMap Frame.encode := by
    intro index
    by_cases hindex : index = 0
    · rw [hindex]
      decide
    · simp [readEvents, lateArrival, hindex, Ne.symm hindex]
  have hwire : wireMachine.exec Wire.start twoBatches =
      some (⟨[], [[]]⟩, [7, 0, 2, 0, 10, 1, 65, 7, 0, 2, 0, 10, 1, 66]) := by decide
  have hissued : batches twoBatches = batchesTo 0 log := by
    rw [hbatches]
    rfl
  refine ⟨server, log, hexec, hsent, by decide, ?_⟩
  exact reads_of_exec (fun _ => 0) _ lateArrival server log hexec hcount hstreams 0 twoBatches _ _
    hwire hissued (by decide) _ ⟨[2, 0, 10, 1, 66], rfl⟩

end topview.server
