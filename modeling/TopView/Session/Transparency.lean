import TopView.ChatHandler
import TopView.Session.Reach

open topview.recv_buffer topview.packet topview.framing topview.transition
open topview.packet_handler topview.protocol topview.room

namespace topview.session

/-- The jobs that the handlers push which are called for some packets of a
    session. `none` is undefined behaviour. -/
def pushedJobs (parse : List UInt8 → Option (List UInt8)) (origin : Nat) (player : Player) :
    List Dispatch → Option (List (Job Payload))
  | [] => some []
  | dispatch :: log =>
    (call_handler parse init origin (some player) dispatch.header.id dispatch.body
      dispatch.len).bind fun job =>
        (pushedJobs parse origin player log).map fun jobs => job.toList ++ jobs

/-- A handler is registered for the id. -/
def Registered (id : Nat) : Prop := ∃ handler, lookup init id = some (some handler)

/-- The frame is not a valid chat. -/
def Ignored {limit : Nat} (parse : List UInt8 → Option (List UInt8)) (frame : Frame limit) :
    Prop :=
  ¬ Registered frame.id ∨ frame.id = C_CHAT ∧ parse frame.body = none

/-- `kept` is what is left of some frames when ignored ones are removed. -/
inductive Removed {limit : Nat} (parse : List UInt8 → Option (List UInt8)) :
    List (Frame limit) → List (Frame limit) → Prop where
  | nil : Removed parse [] []
  | keep {kept frames : List (Frame limit)} (frame : Frame limit)
      (htail : Removed parse kept frames) : Removed parse (frame :: kept) (frame :: frames)
  | remove {kept frames : List (Frame limit)} {frame : Frame limit}
      (hignored : Ignored parse frame) (htail : Removed parse kept frames) :
      Removed parse kept (frame :: frames)

/-- The jobs of the chat frames whose bodies parse. -/
def chatJobs {limit : Nat} (parse : List UInt8 → Option (List UInt8)) (origin : Nat)
    (frames : List (Frame limit)) : List (Job Payload) :=
  frames.filterMap fun frame =>
    (relay parse frame.id frame.body).map fun bytes => ⟨some ⟨origin, bytes⟩⟩

/-- A run of the read handler that has read and handled a whole stream and has
    registered the next read. -/
structure ReadsAll (stream : List UInt8) (events : List ReadEvent) (reader : Reader)
    (log : List Dispatch) : Prop where
  exec : readerMachine.exec Reader.start events = some (reader, log)
  delivered_eq : delivered events = stream
  pc : reader.pc = .reading

/-- However the frames are cut into reads, those that are not a valid chat leave
    no trace. -/
structure Transparent (parse : List UInt8 → Option (List UInt8)) (origin : Nat)
    (player : Player) (frames : List (Frame 40960)) : Prop where
  /-- No lookup leaves the handler table. -/
  lookups : ∀ events reader log, readerMachine.exec Reader.start events = some (reader, log) →
    delivered events <+: frames.flatMap Frame.encode →
    ∀ dispatch ∈ log, lookup init dispatch.header.id ≠ none
  jobs : ∀ events reader log, ReadsAll (frames.flatMap Frame.encode) events reader log →
    pushedJobs parse origin player log = some (chatJobs parse origin frames)
  removal : ∀ kept, Removed parse kept frames →
    ∀ events reader log, ReadsAll (frames.flatMap Frame.encode) events reader log →
    ∀ others other_reader other_log,
      ReadsAll (kept.flatMap Frame.encode) others other_reader other_log →
      pushedJobs parse origin player log = pushedJobs parse origin player other_log ∧
        reader.recv_buffer.unread = other_reader.recv_buffer.unread

/-- Frames that have been read completely have been presented, and nothing of
    them is left unread. -/
theorem ReadsAll.presented {frames : List (Frame 40960)} {events : List ReadEvent}
    {reader : Reader} {log : List Dispatch}
    (hreads : ReadsAll (frames.flatMap Frame.encode) events reader log) :
    log.map Dispatch.toPacket = frames.map Frame.toPacket ∧ reader.recv_buffer.unread = [] := by
  have hinv := Reader.inv_of_exec hreads.exec
  have hpending : reader.pending = [] := by simp [Reader.pending, hreads.pc]
  have hincomplete := hinv.incomplete (by simp [hreads.pc]) hpending
  obtain ⟨consumed, hlog, hreach⟩ := hinv.reaches
  rw [hpending, List.append_nil] at hlog
  subst hlog
  have hfront : delivered events <+: frames.flatMap Frame.encode := by
    rw [hreads.delivered_eq]
  rw [hinv.positivePackets_eq capacity_lt hfront, hreads.delivered_eq] at hreach
  have hframes := (Frame.encodes capacity_lt (Nat.le_refl 40960)).reaches frames []
  rw [List.append_nil] at hframes
  have hempty : nextPacket 40960 [] = none := nextPacket_eq_none_of_length_lt (by decide)
  have hsplit := (hreach.split_eq_of_next hincomplete).symm.trans (hframes.split_eq_of_next hempty)
  exact Prod.mk.inj hsplit

/-- The handler of a presented frame pushes the frame's own job. -/
theorem call_handler_of_toPacket (parse : List UInt8 → Option (List UInt8)) (origin : Nat)
    {player : Player} (hroom : player.in_room = true) {dispatch : Dispatch} {frame : Frame 40960}
    (hpacket : dispatch.toPacket = frame.toPacket) (hid : frame.id ≠ 65535) :
    call_handler parse init origin (some player) dispatch.header.id dispatch.body dispatch.len =
      some ((relay parse frame.id frame.body).map fun bytes => ⟨some ⟨origin, bytes⟩⟩) := by
  have hheader : dispatch.header = ⟨frame.size, frame.id⟩ := congrArg Packet.header hpacket
  have hbody : dispatch.body = frame.body := congrArg Packet.body hpacket
  have hsize := frame.size_le
  have hlt := frame.id_lt
  have hlen : 0 ≤ dispatch.len := by
    rw [Dispatch.len_eq (by rw [hheader]; simp only [Frame.size]; omega)
      (by rw [hheader]; simp only [Frame.size]; omega), hheader]
    simp only [Frame.size]
    omega
  rw [hheader, hbody]
  exact call_handler_eq_some hroom (by simp only; omega) hlen

/-- The handlers of presented frames push the jobs of the valid chats. -/
theorem pushedJobs_of_presented (parse : List UInt8 → Option (List UInt8)) (origin : Nat)
    {player : Player} (hroom : player.in_room = true) {log : List Dispatch}
    {frames : List (Frame 40960)}
    (hpackets : log.map Dispatch.toPacket = frames.map Frame.toPacket)
    (hids : ∀ frame ∈ frames, frame.id ≠ 65535) :
    pushedJobs parse origin player log = some (chatJobs parse origin frames) := by
  induction log generalizing frames with
  | nil =>
    obtain rfl := List.map_eq_nil_iff.mp hpackets.symm
    rfl
  | cons dispatch log ih =>
    cases frames with
    | nil => cases hpackets
    | cons frame frames =>
      obtain ⟨hfirst, hrest⟩ := List.cons.inj hpackets
      have hcall := call_handler_of_toPacket parse origin hroom hfirst
        (hids frame List.mem_cons_self)
      rw [pushedJobs, hcall, ih hrest fun other hmem => hids other (List.mem_cons_of_mem _ hmem),
        chatJobs, chatJobs, List.filterMap_cons]
      cases relay parse frame.id frame.body <;> rfl

theorem relay_eq_none_of_ignored {limit : Nat} {parse : List UInt8 → Option (List UInt8)}
    {frame : Frame limit} (hignored : Ignored parse frame) :
    relay parse frame.id frame.body = none := by
  rcases hignored with hnone | ⟨hchat, hparse⟩
  · unfold relay
    rw [if_neg]
    intro hchat
    exact hnone ⟨.handle_c_chat, lookup_init_eq_some_iff.mpr hchat⟩
  · rw [relay, if_pos hchat, hparse, Option.map_none]

/-- Removing ignored frames removes no job. -/
theorem chatJobs_of_removed {limit : Nat} {parse : List UInt8 → Option (List UInt8)}
    {kept frames : List (Frame limit)} (hremoved : Removed parse kept frames) (origin : Nat) :
    chatJobs parse origin kept = chatJobs parse origin frames := by
  induction hremoved with
  | nil => rfl
  | keep frame _ ih => rw [chatJobs, chatJobs, List.filterMap_cons, List.filterMap_cons,
      ← chatJobs, ← chatJobs, ih]
  | remove hignored _ ih =>
    rw [ih, chatJobs, chatJobs, List.filterMap_cons, relay_eq_none_of_ignored hignored,
      Option.map_none]

theorem Removed.refl {limit : Nat} (parse : List UInt8 → Option (List UInt8))
    (frames : List (Frame limit)) : Removed parse frames frames := by
  induction frames with
  | nil => exact .nil
  | cons frame frames ih => exact .keep frame ih

theorem Removed.subset {limit : Nat} {parse : List UInt8 → Option (List UInt8)}
    {kept frames : List (Frame limit)} (hremoved : Removed parse kept frames) :
    kept ⊆ frames := by
  induction hremoved with
  | nil => exact List.Subset.refl []
  | keep frame _ ih => exact List.cons_subset_cons frame ih
  | remove _ _ ih => exact List.subset_cons_of_subset _ ih

/-- A run that reads frames completely. -/
theorem exists_readsAll (frames : List (Frame 40960)) :
    ∃ events reader log, ReadsAll (frames.flatMap Frame.encode) events reader log := by
  have hreach := (Frame.encodes capacity_lt (Nat.le_refl 40960)).reaches frames []
  rw [List.append_nil] at hreach
  obtain ⟨events, conn, log, later, hexec, _, _, hempty, hstream⟩ :=
    exists_run_of_reaches Connection.atRest_new (by decide) hreach
  obtain ⟨_, rfl⟩ := List.append_eq_nil_iff.mp hempty.symm
  rw [List.append_nil] at hstream
  exact ⟨events, ⟨conn, .reading⟩, log, hexec, hstream.symm, rfl⟩

/-- The id of a frame that is presented may lie behind the handler table. -/
theorem not_transparent_of_id {parse : List UInt8 → Option (List UInt8)} {origin : Nat}
    {player : Player} {before after : List (Frame 40960)} {frame : Frame 40960}
    (hid : frame.id = 65535) : ¬ Transparent parse origin player (before ++ frame :: after) := by
  intro htransparent
  obtain ⟨events, reader, log, hreads⟩ := exists_readsAll (before ++ [frame])
  obtain ⟨dispatch, hmem, hpacket⟩ : ∃ dispatch ∈ log, dispatch.toPacket = frame.toPacket := by
    apply List.mem_map.mp
    rw [hreads.presented.1]
    simp
  have hfront : delivered events <+: (before ++ frame :: after).flatMap Frame.encode := by
    have hwhole : (before ++ frame :: after).flatMap Frame.encode =
        (before ++ [frame]).flatMap Frame.encode ++ after.flatMap Frame.encode := by simp
    rw [hreads.delivered_eq, hwhole]
    exact List.prefix_append _ _
  refine htransparent.lookups events reader log hreads.exec hfront dispatch hmem ?_
  have hheader : dispatch.header.id = frame.id :=
    congrArg (fun packet => packet.header.id) hpacket
  rw [hheader, hid]
  rfl

/-- Frames that are not a valid chat leave no trace exactly when no frame has the
    id 65535, the one id that the handler table has no entry for. -/
theorem transparent_iff (parse : List UInt8 → Option (List UInt8)) (origin : Nat)
    (player : Player) (hroom : player.in_room = true) (frames : List (Frame 40960)) :
    Transparent parse origin player frames ↔ ∀ frame ∈ frames, frame.id ≠ 65535 := by
  constructor
  · intro htransparent frame hmem hid
    obtain ⟨before, after, rfl⟩ := List.append_of_mem hmem
    exact not_transparent_of_id hid htransparent
  · intro hids
    have hjobs : ∀ {kept events reader log}, Removed parse kept frames →
        ReadsAll (kept.flatMap Frame.encode) events reader log →
        pushedJobs parse origin player log = some (chatJobs parse origin frames) := by
      intro kept events reader log hremoved hreads
      rw [pushedJobs_of_presented parse origin hroom hreads.presented.1, chatJobs_of_removed hremoved]
      intro frame hmem
      exact hids frame (hremoved.subset hmem)
    have hself : Removed parse frames frames := Removed.refl parse frames
    refine ⟨?_, fun events reader log hreads => hjobs hself hreads, ?_⟩
    · intro events reader log hexec hfront dispatch hmem
      obtain ⟨whole, later, rfl, hpackets⟩ :=
        (Reader.inv_of_exec hexec).presented_of_front capacity_lt hfront
      have hframe : dispatch.toPacket ∈ whole.map Frame.toPacket := by
        rw [← hpackets]
        exact List.mem_map_of_mem hmem
      obtain ⟨frame, hwhole, hpacket⟩ := List.mem_map.mp hframe
      have hheader : frame.id = dispatch.header.id :=
        congrArg (fun packet => packet.header.id) hpacket
      have hne := hids frame (List.mem_append_left _ hwhole)
      have hlt := frame.id_lt
      rw [← hheader, lookup, if_pos (by simp only [handlerCount]; omega)]
      simp
    · intro kept hremoved events reader log hreads others other_reader other_log hothers
      rw [hjobs hself hreads, hjobs hremoved hothers, hreads.presented.2, hothers.presented.2]
      exact ⟨rfl, rfl⟩

theorem transparent_iff_two :
    Transparent parse_short 0 ⟨0, true, 0⟩ [⟨7, [], by decide, by decide⟩,
        ⟨C_CHAT, [10, 1, 65], by decide, by decide⟩] ↔
      ∀ frame ∈ ([⟨7, [], by decide, by decide⟩,
        ⟨C_CHAT, [10, 1, 65], by decide, by decide⟩] : List (Frame 40960)), frame.id ≠ 65535 :=
  transparent_iff parse_short 0 ⟨0, true, 0⟩ rfl _

/-- A frame without a body whose id is the largest one. -/
def largestId : Frame 40960 where
  id := 65535
  body := []
  id_lt := by decide
  size_le := (by decide : 4 ≤ 40960)

theorem not_transparent_largestId : ¬ Transparent parse_short 0 ⟨0, true, 0⟩ [largestId] :=
  @not_transparent_of_id parse_short 0 ⟨0, true, 0⟩ [] [] largestId rfl

end topview.session
