import TopView.Session.Termination

open topview.recv_buffer topview.packet topview.framing topview.transition

namespace topview.session

/-- A zero size at the end of what has arrived is still ahead when more arrives. -/
theorem ZeroSizeAhead.append {bytes : List UInt8} (hzero : ZeroSizeAhead bytes)
    (more : List UInt8) : ZeroSizeAhead (bytes ++ more) := by
  obtain ⟨packets, rest, hreach, hheader, hsize⟩ := hzero
  refine ⟨packets, rest ++ more, hreach.append more, ?_, ?_⟩
  · rw [List.length_append]
    omega
  · rw [PacketHeader.read_append hheader, hsize]

theorem ZeroSizeAhead.of_reaches {bytes rest : List UInt8} {packets : List Packet}
    (hreach : (packetSplitter 40960).Reaches bytes packets rest) (hzero : ZeroSizeAhead rest) :
    ZeroSizeAhead bytes := by
  obtain ⟨others, final, hothers, hheader, hsize⟩ := hzero
  exact ⟨packets ++ others, final, hreach.trans hothers, hheader, hsize⟩

/-- Frames announce at least their header, so none of them has size zero. -/
theorem not_zeroSizeAhead_of_front {limit : Nat} (hlimit : limit < 2 ^ 16)
    {frames : List (Frame limit)} {bytes : List UInt8}
    (hfront : bytes <+: frames.flatMap Frame.encode) : ¬ ZeroSizeAhead bytes := by
  rintro ⟨packets, rest, hreach, hheader, hsize⟩
  obtain ⟨_, later, _, _, _, hrest⟩ := reaches_of_front hlimit hreach hfront
  obtain ⟨frame, _, _, hread⟩ := read_of_front hlimit hrest hheader
  rw [hread] at hsize
  simp only [Frame.size] at hsize
  omega

/-- An open connection between two reads: its buffer is compacted and holds
    no complete packet. -/
structure Connection.AtRest (conn : Connection) : Prop where
  is_open : conn.is_open = true
  valid : conn.recv_buffer.Valid
  read_pos : conn.recv_buffer.read_pos = 0
  incomplete : nextPacket 40960 conn.recv_buffer.unread = none

theorem Connection.atRest_new : Connection.new.AtRest :=
  ⟨rfl, RecvBuffer.valid_new, rfl, by decide⟩

/-- Between two reads the room left is the capacity less the unread bytes. -/
theorem Connection.AtRest.get_writable_size_eq {conn : Connection} (hrest : conn.AtRest) :
    conn.recv_buffer.get_writable_size = 40960 - conn.recv_buffer.unread.length := by
  rw [hrest.valid.get_writable_size_eq, hrest.valid.length_unread, hrest.read_pos, Nat.sub_zero]

theorem Connection.AtRest.receive_spec {conn : Connection} (hrest : conn.AtRest)
    {bytes : List UInt8} (hfit : bytes.length ≤ conn.recv_buffer.get_writable_size) :
    (conn.receive bytes).is_open = true ∧ (conn.receive bytes).recv_buffer.Valid ∧
      (conn.receive bytes).recv_buffer.read_pos = 0 ∧
      (conn.receive bytes).recv_buffer.unread = conn.recv_buffer.unread ++ bytes := by
  rw [hrest.valid.get_writable_size_eq] at hfit
  obtain ⟨hvalid, hread, _, hunread⟩ :=
    @RecvBuffer.Valid.store_spec conn.recv_buffer hrest.valid bytes (by omega)
  exact ⟨hrest.is_open, hvalid, hread.trans hrest.read_pos, hunread⟩

/-- One read, with no zero size ahead. The handler presents the packets that
    are complete now and comes back to rest with the bytes that are left over. -/
theorem Connection.AtRest.on_read_spec {conn : Connection} (hrest : conn.AtRest)
    {bytes : List UInt8} (hne : bytes ≠ [])
    (hfit : bytes.length ≤ conn.recv_buffer.get_writable_size)
    (hzero : ¬ ZeroSizeAhead (conn.recv_buffer.unread ++ bytes)) {fuel : Nat}
    (hfuel : 40960 < fuel) :
    ∃ dispatched next, conn.on_read fuel bytes = some (dispatched, next) ∧ next.AtRest ∧
      (packetSplitter 40960).split (conn.recv_buffer.unread ++ bytes) =
        (dispatched.map Dispatch.toPacket, next.recv_buffer.unread) := by
  obtain ⟨hopen, hvalid, hread, hunread⟩ := hrest.receive_spec hfit
  have hlength := hvalid.length_unread_le
  rw [← hunread] at hzero ⊢
  obtain ⟨dispatched, final, hloop, hfinal, hfront, hsplit⟩ :=
    loop_iteration_spec hvalid hzero (Nat.lt_of_le_of_lt hlength hfuel)
  have hincomplete := (packetSplitter 40960).next_split_snd (conn.receive bytes).recv_buffer.unread
  rw [hsplit] at hincomplete
  refine ⟨dispatched, { conn.receive bytes with recv_buffer := final }, ?_,
    ⟨hopen, hfinal, hfront hread, hincomplete⟩, hsplit⟩
  rw [Connection.on_read, Connection.process_recv, if_neg (by simpa using hne), hloop]
  rfl

/-- Every read is no longer than `GetWritableSize()` at the moment it is issued. -/
def ReadsFit (fuel : Nat) (conn : Connection) (reads : List (List UInt8)) : Prop :=
  ∀ before read after dispatched next, reads = before ++ read :: after →
    conn.deliver fuel before = some (dispatched, next) →
    read.length ≤ next.recv_buffer.get_writable_size

theorem ReadsFit.head {fuel : Nat} {conn : Connection} {read : List UInt8}
    {reads : List (List UInt8)} (hfit : ReadsFit fuel conn (read :: reads)) :
    read.length ≤ conn.recv_buffer.get_writable_size :=
  hfit [] read reads [] conn rfl rfl

theorem ReadsFit.tail {fuel : Nat} {conn next : Connection} {read : List UInt8}
    {reads : List (List UInt8)} {dispatched : List Dispatch}
    (hfit : ReadsFit fuel conn (read :: reads)) (hopen : conn.is_open = true)
    (hread : conn.on_read fuel read = some (dispatched, next)) : ReadsFit fuel next reads := by
  intro before later after others final hreads hdeliver
  refine hfit (read :: before) later after (dispatched ++ others) final (by rw [hreads]; rfl) ?_
  simp only [Connection.deliver, hopen, if_true, hread, Option.bind_some, hdeliver,
    Option.map_some]

/-- Delivering a stream read by read presents the packets of the whole stream,
    as long as no zero size lies ahead. What remains unread is what the split
    leaves over. -/
theorem Connection.AtRest.deliver_spec {conn : Connection} (hrest : conn.AtRest)
    {reads : List (List UInt8)} (hne : ∀ read ∈ reads, read ≠ [])
    {fuel : Nat} (hfuel : 40960 < fuel) (hfit : ReadsFit fuel conn reads)
    (hzero : ¬ ZeroSizeAhead (conn.recv_buffer.unread ++ reads.flatten)) :
    ∃ dispatched final, conn.deliver fuel reads = some (dispatched, final) ∧ final.AtRest ∧
      (packetSplitter 40960).split (conn.recv_buffer.unread ++ reads.flatten) =
        (dispatched.map Dispatch.toPacket, final.recv_buffer.unread) := by
  induction reads generalizing conn with
  | nil =>
    refine ⟨[], conn, rfl, hrest, ?_⟩
    rw [List.flatten_nil, List.append_nil]
    exact (Splitter.Reaches.refl _).split_eq_of_next hrest.incomplete
  | cons read reads ih =>
    rw [List.flatten_cons, ← List.append_assoc] at hzero ⊢
    obtain ⟨first, next, hread, hnext, hsplit⟩ := hrest.on_read_spec
      (hne read List.mem_cons_self) hfit.head (fun hahead => hzero (hahead.append _)) hfuel
    have hreach := (packetSplitter 40960).split_reaches (conn.recv_buffer.unread ++ read)
    rw [hsplit] at hreach
    obtain ⟨later, final, hdeliver, hfinal, hlater⟩ := ih hnext
      (fun other hmem => hne other (List.mem_cons_of_mem _ hmem)) (hfit.tail hrest.is_open hread)
      (fun hahead => hzero (.of_reaches (hreach.append _) hahead))
    refine ⟨first ++ later, final, ?_, hfinal, ?_⟩
    · simp only [Connection.deliver, hrest.is_open, if_true, hread, Option.bind_some, hdeliver,
        Option.map_some]
    · rw [Splitter.split_append, hsplit, hlater, List.map_append]

/-- Framing does not depend on how the stream is cut. Complete frames of at
    most the buffer's capacity, followed by a proper prefix of one more, are
    delivered in nonempty reads that fit. The reads present exactly the packets
    of the one-shot parse, the frames in order, and leave the prefix unread. -/
theorem Connection.deliver_eq_referenceParse (frames : List (Frame 40960)) (last : Frame 40960)
    (part : List UInt8) (hpart : part <+: last.encode) (hproper : part ≠ last.encode)
    (reads : List (List UInt8)) (hne : ∀ read ∈ reads, read ≠ [])
    (hstream : reads.flatten = frames.flatMap Frame.encode ++ part)
    (fuel : Nat) (hfuel : 40960 < fuel) (hfit : ReadsFit fuel Connection.new reads) :
    ∃ dispatched conn, Connection.new.deliver fuel reads = some (dispatched, conn) ∧
      conn.is_open = true ∧
      referenceParse reads.flatten =
        (dispatched.map Dispatch.toPacket, conn.recv_buffer.unread) ∧
      dispatched.map Dispatch.toPacket = frames.map Frame.toPacket ∧
      conn.recv_buffer.unread = part := by
  have hfront : reads.flatten <+: (frames ++ [last]).flatMap Frame.encode := by
    rw [hstream, List.flatMap_append, List.flatMap_singleton]
    exact (List.prefix_append_right_inj _).mpr hpart
  have hzero : ¬ ZeroSizeAhead (Connection.new.recv_buffer.unread ++ reads.flatten) :=
    not_zeroSizeAhead_of_front capacity_lt hfront
  obtain ⟨dispatched, conn, hdeliver, hrest, hsplit⟩ :=
    Connection.atRest_new.deliver_spec hne hfuel hfit hzero
  have hwhole (bound : Nat) (hbound : 40960 ≤ bound) :
      (packetSplitter bound).split reads.flatten = (frames.map Frame.toPacket, part) := by
    have hencodes := Frame.encodes capacity_lt hbound
    have hreach := hencodes.reaches frames part
    rw [← hstream] at hreach
    exact hreach.split_eq_of_next (hencodes.next_eq_none hpart hproper)
  have hframes : (packetSplitter 40960).split reads.flatten =
      (dispatched.map Dispatch.toPacket, conn.recv_buffer.unread) := hsplit
  rw [hwhole 40960 (Nat.le_refl _), Prod.mk.injEq] at hframes
  obtain ⟨hmap, hpartial⟩ := hframes
  refine ⟨dispatched, conn, hdeliver, hrest.is_open, ?_, hmap.symm, hpartial.symm⟩
  rw [referenceParse, hwhole 65535 (by decide), hmap, hpartial]

/-- Reads fit as long as the whole stream does. -/
theorem Connection.AtRest.readsFit {conn : Connection} (hrest : conn.AtRest)
    {reads : List (List UInt8)} (hne : ∀ read ∈ reads, read ≠ [])
    (hzero : ¬ ZeroSizeAhead (conn.recv_buffer.unread ++ reads.flatten))
    (hlength : (conn.recv_buffer.unread ++ reads.flatten).length ≤ 40960) {fuel : Nat}
    (hfuel : 40960 < fuel) : ReadsFit fuel conn reads := by
  induction reads generalizing conn with
  | nil =>
    intro before read after _ _ hreads
    simp at hreads
  | cons first reads ih =>
    have hwritable := hrest.get_writable_size_eq
    have hroom : first.length ≤ conn.recv_buffer.get_writable_size := by
      rw [List.flatten_cons, List.length_append, List.length_append] at hlength
      omega
    rw [List.flatten_cons, ← List.append_assoc] at hzero hlength
    obtain ⟨dispatched, next, hread, hnext, hsplit⟩ := hrest.on_read_spec
      (hne first List.mem_cons_self) hroom (fun hahead => hzero (hahead.append _)) hfuel
    have hreach := (packetSplitter 40960).split_reaches (conn.recv_buffer.unread ++ first)
    rw [hsplit] at hreach
    have htail : ReadsFit fuel next reads := by
      refine ih hnext (fun other hmem => hne other (List.mem_cons_of_mem _ hmem)) ?_ ?_
      · exact fun hahead => hzero (.of_reaches (hreach.append _) hahead)
      · exact Nat.le_trans (hreach.append reads.flatten).length_le hlength
    intro before read after others final hreads hdeliver
    cases before with
    | nil =>
      obtain ⟨rfl, _⟩ := List.cons.inj hreads
      obtain ⟨_, rfl⟩ := Prod.mk.inj (Option.some.inj hdeliver)
      exact hroom
    | cons earlier before =>
      obtain ⟨rfl, hlater⟩ := List.cons.inj hreads
      simp only [Connection.deliver, hrest.is_open, if_true, hread, Option.bind_some,
        Option.map_eq_some_iff, Prod.exists, Prod.mk.injEq] at hdeliver
      obtain ⟨later, last, hdelivered, _, rfl⟩ := hdeliver
      exact htail before read after later last hlater hdelivered

/-- Two chat frames and the first byte of a third one. The reads end inside of a
    header, inside of a body, and behind the end of a frame. -/
def cutReads : List (List UInt8) := [[7], [0, 1], [0, 10, 1], [65, 7, 0, 1, 0, 10, 1], [66, 4]]

theorem Connection.deliver_eq_referenceParse_cutReads :
    ∃ dispatched conn, Connection.new.deliver 40961 cutReads = some (dispatched, conn) ∧
      conn.is_open = true ∧
      referenceParse cutReads.flatten =
        (dispatched.map Dispatch.toPacket, conn.recv_buffer.unread) ∧
      dispatched.map Dispatch.toPacket = [⟨⟨7, 1⟩, [10, 1, 65]⟩, ⟨⟨7, 1⟩, [10, 1, 66]⟩] ∧
      conn.recv_buffer.unread = [4] := by
  have hne : ∀ read ∈ cutReads, read ≠ [] := by decide
  have hfront : cutReads.flatten <+: ([⟨1, [10, 1, 65], by decide, by decide⟩,
      ⟨1, [10, 1, 66], by decide, by decide⟩, ⟨1, [], by decide, by decide⟩] :
        List (Frame 40960)).flatMap Frame.encode := ⟨[0, 1, 0], rfl⟩
  have hfit : ReadsFit 40961 Connection.new cutReads :=
    Connection.atRest_new.readsFit hne (not_zeroSizeAhead_of_front capacity_lt hfront) (by decide)
      (by decide)
  exact Connection.deliver_eq_referenceParse
    [⟨1, [10, 1, 65], by decide, by decide⟩, ⟨1, [10, 1, 66], by decide, by decide⟩]
    ⟨1, [], by decide, by decide⟩ [4] ⟨[0, 1, 0], rfl⟩ (by decide) cutReads hne rfl 40961 (by decide)
    hfit

end topview.session
