import TopView.Session.Reach

open topview.recv_buffer topview.packet topview.framing topview.transition

namespace topview.session

/-- However the stream is cut into reads, each time the handler comes back to
    `RegisterRecv` on an open session the buffer has room left, and every packet
    whose bytes have all arrived has been dispatched. -/
def NeverStarves (stream : List UInt8) : Prop :=
  ∀ events reader log, readerMachine.exec Reader.start events = some (reader, log) →
    delivered events <+: stream → reader.is_open = true → reader.pc = .returned →
    0 < reader.recv_buffer.get_writable_size ∧
      log.map Dispatch.toPacket = (referenceParse (delivered events)).1

/-- Of a frame larger than the buffer the stream holds less than the buffer does. -/
def FitsBuffer {limit : Nat} (frames : List (Frame limit)) (stream : List UInt8) : Prop :=
  ∀ before frame after, frames = before ++ frame :: after → 40960 < frame.size →
    stream.length < (before.flatMap Frame.encode).length + 40960

/-- On input no longer than the buffer, no packet is ruled out by the capacity. -/
theorem nextPacket_eq_of_length_le {input : List UInt8} (hlength : input.length ≤ 40960) :
    nextPacket 65535 input = nextPacket 40960 input := by
  have hsame : (PacketHeader.read input).size ≤ input.length →
      ((PacketHeader.read input).size ≤ 65535 ↔ (PacketHeader.read input).size ≤ 40960) := by
    omega
  simp only [nextPacket]
  congr 1
  simp only [eq_iff_iff]
  constructor
  · rintro ⟨hheader, hpos, hwhole, hlimit⟩
    exact ⟨hheader, hpos, hwhole, (hsame hwhole).mp hlimit⟩
  · rintro ⟨hheader, hpos, hwhole, hlimit⟩
    exact ⟨hheader, hpos, hwhole, (hsame hwhole).mpr hlimit⟩

/-- As long as no frame overfills the buffer, the reader never starves. -/
theorem neverStarves_of_fitsBuffer {frames : List (Frame 65535)} {stream : List UInt8}
    (hfront : stream <+: frames.flatMap Frame.encode) (hfits : FitsBuffer frames stream) :
    NeverStarves stream := by
  intro events reader log hexec hdelivered _ hpc
  have hinv := Reader.inv_of_exec hexec
  have hpending : reader.pending = [] := by simp [Reader.pending, hpc]
  have hincomplete := hinv.incomplete (by simp [hpc]) hpending
  have hlength := hinv.valid.length_unread
  have hbound := hinv.valid.length_unread_le
  obtain ⟨consumed, hlog, hreach⟩ := hinv.reaches
  rw [hpending, List.append_nil] at hlog
  subst hlog
  rw [hinv.positivePackets_eq uint16_max_lt (hdelivered.trans hfront)] at hreach
  obtain ⟨whole, later, rfl, hpackets, hstream, hunread⟩ :=
    reaches_of_front uint16_max_lt hreach (hdelivered.trans hfront)
  constructor
  · rw [hinv.valid.get_writable_size_eq]
    have hread := hinv.read_pos
    by_contra hfull
    have hwhole : reader.recv_buffer.unread.length = 40960 := by
      omega
    obtain ⟨frame, after, rfl, hheader⟩ := read_of_front uint16_max_lt hunread (by omega)
    have hlarge : 40960 < frame.size := by
      by_contra hsmall
      have hnext : nextPacket 40960 reader.recv_buffer.unread =
          some (⟨⟨frame.size, frame.id⟩, _⟩, _) :=
        nextPacket_eq_some_iff.mpr ⟨⟨by omega, by simp only [Frame.size]; omega,
          by simp only; omega, by simp only; omega⟩, by rw [hheader], rfl⟩
      rw [hincomplete] at hnext
      cases hnext
    have hshort := hfits whole frame after rfl hlarge
    have hlonger := hdelivered.length_le
    rw [hstream, List.length_append] at hlonger
    omega
  · have hend : nextPacket 65535 reader.recv_buffer.unread = none := by
      rw [nextPacket_eq_of_length_le hbound]
      exact hincomplete
    have hparse := ((Frame.encodes uint16_max_lt (Nat.le_refl 65535)).reaches
      whole reader.recv_buffer.unread).split_eq_of_next hend
    rw [← hstream] at hparse
    rw [referenceParse, hparse, hpackets]

theorem exists_first_oversize {limit : Nat} {frames before after : List (Frame limit)}
    {frame : Frame limit} (hframes : frames = before ++ frame :: after)
    (hlarge : 40960 < frame.size) :
    ∃ small large rest, frames = small ++ large :: rest ∧ (∀ each ∈ small, each.size ≤ 40960) ∧
      40960 < large.size ∧
      (small.flatMap Frame.encode).length ≤ (before.flatMap Frame.encode).length := by
  induction before generalizing frames with
  | nil => exact ⟨[], frame, after, hframes, by simp, hlarge, Nat.le_refl _⟩
  | cons first before ih =>
    by_cases hfirst : 40960 < first.size
    · exact ⟨[], first, before ++ frame :: after, hframes, by simp, hfirst, Nat.zero_le _⟩
    · obtain ⟨small, large, rest, heq, hsmall, hless, hle⟩ := ih rfl
      refine ⟨first :: small, large, rest, ?_, ?_, hless, ?_⟩
      · rw [hframes, List.cons_append, heq]
        rfl
      · intro each hmem
        rcases List.mem_cons.mp hmem with rfl | htail
        · omega
        · exact hsmall each htail
      · simp only [List.flatMap_cons, List.length_append]
        omega

/-- A run that fills the whole buffer with the front of a larger frame. -/
theorem exists_run_of_oversize {small : List (Frame 65535)} {large : Frame 65535}
    (hsmall : ∀ frame ∈ small, frame.size ≤ 40960) (hlarge : 40960 < large.size) :
    ∃ events reader log, readerMachine.exec Reader.start events = some (reader, log) ∧
      delivered events = small.flatMap Frame.encode ++ large.encode.take 40960 ∧
      reader.is_open = true ∧ reader.pc = .returned ∧
      reader.recv_buffer.get_writable_size = 0 := by
  generalize hpart : large.encode.take 40960 = part
  have hlength : part.length = 40960 := by
    rw [← hpart, List.length_take, Frame.length_encode]
    omega
  have hfront : part <+: [large].flatMap Frame.encode := by
    rw [List.flatMap_singleton, ← hpart]
    exact List.take_prefix 40960 large.encode
  have hincomplete : nextPacket 40960 part = none := by
    cases hnext : nextPacket 40960 part with
    | none => rfl
    | some taken =>
      obtain ⟨frame, _, heq, hpacket, _⟩ := nextPacket_of_front uint16_max_lt hfront hnext
      have hlimit := (nextPacket_eq_some_iff.mp hnext).1.2.2.2
      obtain ⟨rfl, _⟩ := List.cons.inj heq
      rw [hpacket] at hlimit
      simp only [Frame.toPacket] at hlimit
      omega
  obtain ⟨before, conn, first, later, hbefore, hrest, hshort, hunread, hdelivered⟩ :=
    exists_run_of_reaches Connection.atRest_new (by decide)
      (Frame.reaches_of_size_le uint16_max_lt small hsmall part)
  have hsum := congrArg List.length hunread
  rw [List.length_append, hlength] at hsum
  have hne : later ≠ [] := by
    rintro rfl
    rw [List.length_nil] at hsum
    omega
  have hwritable := hrest.get_writable_size_eq
  have hfit : later.length ≤ conn.recv_buffer.get_writable_size := by
    omega
  obtain ⟨dispatched, final, hread, hfinal, hsplit⟩ := hrest.on_read_spec hne hfit
    (hunread ▸ not_zeroSizeAhead_of_front uint16_max_lt hfront) (Nat.lt_succ_self 40960)
  have hleft : (packetSplitter 40960).split part = ([], part) :=
    (Splitter.Reaches.refl part).split_eq_of_next hincomplete
  rw [hunread, hsplit, Prod.mk.injEq] at hleft
  obtain ⟨after, hafter, hrecv⟩ := exec_of_on_read hread hne hfit
  refine ⟨before ++ after, ⟨final, .returned⟩, first ++ dispatched,
    readerMachine.exec_append hbefore hafter, ?_, hfinal.is_open, rfl, ?_⟩
  · rw [delivered_append, hrecv, ← hdelivered]
    rfl
  · have hroom := hfinal.get_writable_size_eq
    rw [hleft.2, ← hunread] at hroom
    simp only
    omega

/-- The reader starves when the buffer fills up with a part of one frame. -/
theorem not_neverStarves_of_oversize {frames before after : List (Frame 65535)}
    {frame : Frame 65535} {stream : List UInt8} (hfront : stream <+: frames.flatMap Frame.encode)
    (hframes : frames = before ++ frame :: after) (hlarge : 40960 < frame.size)
    (hlong : (before.flatMap Frame.encode).length + 40960 ≤ stream.length) :
    ¬ NeverStarves stream := by
  obtain ⟨small, large, rest, rfl, hsmall, hoversize, hless⟩ :=
    exists_first_oversize hframes hlarge
  obtain ⟨events, reader, log, hexec, hdelivered, hopen, hpc, hfull⟩ :=
    exists_run_of_oversize hsmall hoversize
  intro hnever
  have hstream : delivered events <+: stream := by
    apply List.prefix_of_prefix_length_le _ hfront
    · rw [hdelivered, List.length_append, List.length_take]
      omega
    · rw [hdelivered, List.flatMap_append, List.flatMap_cons]
      apply (List.prefix_append_right_inj _).mpr
      exact (List.take_prefix 40960 large.encode).trans (List.prefix_append _ _)
  have hroom := (hnever events reader log hexec hstream hopen hpc).1
  omega

/-- The reader of a stream of frames never starves exactly when no frame that
    is larger than the buffer gets as many bytes delivered as the buffer holds. -/
theorem neverStarves_iff_fitsBuffer (frames : List (Frame 65535)) (stream : List UInt8)
    (hfront : stream <+: frames.flatMap Frame.encode) :
    NeverStarves stream ↔ FitsBuffer frames stream := by
  constructor
  · intro hnever before frame after hframes hlarge
    by_contra hlong
    exact not_neverStarves_of_oversize hfront hframes hlarge (Nat.le_of_not_lt hlong) hnever
  · exact neverStarves_of_fitsBuffer hfront

/-- A stream that breaks off inside of its second frame. -/
theorem neverStarves_iff_fitsBuffer_two :
    NeverStarves [5, 0, 1, 0, 7, 6, 0, 1] ↔
      @FitsBuffer 65535 [⟨1, [7], by decide, by decide⟩, ⟨1, [0, 0], by decide, by decide⟩]
        [5, 0, 1, 0, 7, 6, 0, 1] :=
  neverStarves_iff_fitsBuffer _ _ ⟨[0, 0, 0], rfl⟩

/-- The smallest chat frame that the buffer cannot hold. -/
def oversizeFrame : Frame 65535 where
  id := 1
  body := List.replicate 40957 0
  id_lt := by decide
  size_le := by rw [List.length_replicate]; decide

/-- All bytes of that frame but the last one fill the buffer and end the session. -/
theorem not_neverStarves_oversizeFrame : ¬ NeverStarves oversizeFrame.encode := by
  have hbody : oversizeFrame.body.length = 40957 := List.length_replicate
  have hsize : oversizeFrame.size = 40961 := by
    rw [Frame.size, hbody]
  have hfront : oversizeFrame.encode <+: [oversizeFrame].flatMap Frame.encode := by
    rw [List.flatMap_singleton]
  have hlong : (([] : List (Frame 65535)).flatMap Frame.encode).length + 40960 ≤
      oversizeFrame.encode.length := by
    rw [Frame.length_encode, hsize]
    decide
  exact not_neverStarves_of_oversize hfront rfl (by omega) hlong

end topview.session
