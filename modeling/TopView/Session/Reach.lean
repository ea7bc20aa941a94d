import TopView.Session.Reader

open topview.recv_buffer topview.packet topview.framing topview.transition

namespace topview.session

/-- The iterations of the loop, step by step. -/
theorem exec_of_path {recv final : RecvBuffer} {dispatched : List Dispatch}
    (path : Path iteration recv dispatched final) (is_open : Bool) :
    ∃ events, readerMachine.exec ⟨⟨is_open, recv⟩, .looping⟩ events =
        some (⟨⟨is_open, final⟩, .looping⟩, dispatched) ∧ delivered events = [] := by
  induction path with
  | nil => exact ⟨[], rfl, rfl⟩
  | @cons recv next final dispatch dispatched hbody _ ih =>
    obtain ⟨events, hexec, hdelivered⟩ := ih
    obtain ⟨hpresent, rfl⟩ := iteration_eq_some_iff.mp hbody
    have hfirst : readerMachine.exec ⟨⟨is_open, recv⟩, .looping⟩ [.present, .advance] =
        some (⟨⟨is_open, consume recv dispatch.header.size⟩, .looping⟩, [dispatch]) := by
      simp [Machine.exec, readerMachine, Reader.step, hpresent]
    exact ⟨[.present, .advance] ++ events, readerMachine.exec_append hfirst hexec,
      by rw [delivered_append, hdelivered]; rfl⟩

/-- A nonempty read that fits, handled as `on_read` describes, step by step. -/
theorem exec_of_on_read {conn next : Connection} {bytes : List UInt8}
    {dispatched : List Dispatch} {fuel : Nat}
    (hread : conn.on_read fuel bytes = some (dispatched, next)) (hne : bytes ≠ [])
    (hfit : bytes.length ≤ conn.recv_buffer.get_writable_size) :
    ∃ events, readerMachine.exec ⟨conn, .reading⟩ events =
        some (⟨next, .returned⟩, dispatched) ∧ delivered events = bytes := by
  have hlength : bytes.length ≠ 0 := by simpa using hne
  simp only [Connection.on_read, Connection.process_recv, if_neg hlength,
    Option.map_eq_some_iff, Prod.exists, Prod.mk.injEq] at hread
  obtain ⟨outputs, final, hloop, rfl, rfl⟩ := hread
  obtain ⟨hpath, hbreak⟩ := path_of_loop_eq hloop
  obtain ⟨events, hexec, hdelivered⟩ := exec_of_path hpath conn.is_open
  have hfirst : readerMachine.exec ⟨conn, .reading⟩ [.read bytes] =
      some (⟨conn.receive bytes, .looping⟩, []) := by
    simp [Machine.exec, readerMachine, Reader.step, hfit, hne]
  have hlast : readerMachine.exec ⟨⟨conn.is_open, final⟩, .looping⟩ [.present] =
      some (⟨⟨conn.is_open, final⟩, .returned⟩, []) := by
    simp [Machine.exec, readerMachine, Reader.step, iteration_eq_none_iff.mp hbreak]
  refine ⟨[.read bytes] ++ (events ++ [.present]), ?_, ?_⟩
  · have hwhole := readerMachine.exec_append hfirst (readerMachine.exec_append hexec hlast)
    rw [List.nil_append, List.append_nil] at hwhole
    exact hwhole
  · rw [delivered_append, delivered_append, hdelivered]
    simp [delivered]

/-- The sequence of reads that `deliver` describes, step by step, as long as
    every read is nonempty and fits and the connection stays open. -/
theorem exec_of_deliver {conn final : Connection} {reads : List (List UInt8)}
    {dispatched : List Dispatch} {fuel : Nat}
    (hdeliver : conn.deliver fuel reads = some (dispatched, final))
    (hne : ∀ read ∈ reads, read ≠ []) (hfit : ReadsFit fuel conn reads)
    (hopen : conn.is_open = true) :
    ∃ events, readerMachine.exec ⟨conn, .reading⟩ events =
        some (⟨final, .reading⟩, dispatched) ∧ delivered events = reads.flatten := by
  induction reads generalizing conn dispatched with
  | nil =>
    simp only [Connection.deliver, Option.some.injEq, Prod.mk.injEq] at hdeliver
    obtain ⟨rfl, rfl⟩ := hdeliver
    exact ⟨[], rfl, rfl⟩
  | cons read reads ih =>
    simp only [Connection.deliver, hopen, if_true, Option.bind_eq_some_iff,
      Option.map_eq_some_iff, Prod.exists, Prod.mk.injEq] at hdeliver
    obtain ⟨first, next, hread, later, last, hlater, rfl, rfl⟩ := hdeliver
    have hnext : next.is_open = true := by
      have hlength : read.length ≠ 0 := by simpa using hne read List.mem_cons_self
      simp only [Connection.on_read, Connection.process_recv, if_neg hlength,
        Option.map_eq_some_iff, Prod.exists, Prod.mk.injEq] at hread
      obtain ⟨_, _, _, _, rfl⟩ := hread
      exact hopen
    obtain ⟨before, hbefore, hfirst⟩ :=
      exec_of_on_read hread (hne read List.mem_cons_self) hfit.head
    obtain ⟨after, hafter, hsecond⟩ := ih hlater
      (fun other hmem => hne other (List.mem_cons_of_mem _ hmem)) (hfit.tail hopen hread) hnext
    have hrearm : readerMachine.exec ⟨next, .returned⟩ [.register_recv] =
        some (⟨next, .reading⟩, []) := by
      simp [Machine.exec, readerMachine, Reader.step, hnext]
    refine ⟨before ++ ([.register_recv] ++ after), ?_, ?_⟩
    · exact readerMachine.exec_append hbefore (readerMachine.exec_append hrearm hafter)
    · rw [delivered_append, delivered_append, hfirst, hsecond]
      rfl

/-- From rest with less than a header unread, one more packet can be delivered
    so that again less than a header is left unread. -/
theorem exists_run_of_next {conn : Connection} (hrest : conn.AtRest) {back rest : List UInt8}
    {packet : Packet} (hshort : conn.recv_buffer.unread.length < 4)
    (hnext : nextPacket 40960 (conn.recv_buffer.unread ++ back) = some (packet, rest)) :
    ∃ events next log later, readerMachine.exec ⟨conn, .reading⟩ events =
        some (⟨next, .reading⟩, log) ∧ next.AtRest ∧ next.recv_buffer.unread.length < 4 ∧
      rest = next.recv_buffer.unread ++ later ∧ back = delivered events ++ later := by
  have hwritable := hrest.get_writable_size_eq
  generalize hfront : conn.recv_buffer.unread = front at hshort hnext hwritable
  obtain ⟨⟨hheader, hpos, hwhole, hlimit⟩, _, hdrop⟩ := nextPacket_eq_some_iff.mp hnext
  rw [List.length_append] at hheader hwhole
  generalize hcount : max 4 packet.header.size = count
  have hcut : (front ++ back).take count = front ++ back.take (count - front.length) := by
    rw [List.take_append, List.take_of_length_le (by omega)]
  have htake := nextPacket_take hnext (show 4 ≤ count by omega)
    (show packet.header.size ≤ count by omega)
  have hstop : nextPacket 40960 (((front ++ back).take count).drop packet.header.size) = none := by
    apply nextPacket_eq_none_of_length_lt
    rw [List.length_drop, List.length_take]
    omega
  have hzero : ¬ ZeroSizeAhead ((front ++ back).take count) := by
    rintro ⟨packets, final, hreach, hfinal, hsize⟩
    cases hreach with
    | refl =>
      have hread := (nextPacket_eq_some_iff.mp htake).2.1
      rw [hread] at hpos
      simp only at hpos
      omega
    | head hfirst htail =>
      obtain ⟨rfl, rfl⟩ := Prod.mk.inj (Option.some.inj (htake.symm.trans hfirst))
      have hlength := htail.length_le
      rw [List.length_drop, List.length_take, List.length_append] at hlength
      omega
  rw [hcut] at hzero htake hstop
  generalize hchunk : back.take (count - front.length) = chunk at hzero htake hstop
  have hlength : chunk.length = count - front.length := by
    rw [← hchunk, List.length_take]
    omega
  have hne : chunk ≠ [] := by
    rintro rfl
    simp only [List.length_nil] at hlength
    omega
  have hfit : chunk.length ≤ conn.recv_buffer.get_writable_size := by
    omega
  obtain ⟨dispatched, next, hread, hatrest, hsplit⟩ :=
    hrest.on_read_spec hne hfit (hfront ▸ hzero) (Nat.lt_succ_self 40960)
  have hunread : (packetSplitter 40960).split (front ++ chunk) =
      ([packet], (front ++ chunk).drop packet.header.size) :=
    Splitter.Reaches.split_eq_of_next (.head htake (.refl _)) hstop
  rw [← hfront, hsplit, Prod.mk.injEq] at hunread
  obtain ⟨events, hexec, hdelivered⟩ := exec_of_on_read hread hne hfit
  have hrearm : readerMachine.exec ⟨next, .returned⟩ [.register_recv] =
      some (⟨next, .reading⟩, []) := by
    simp [Machine.exec, readerMachine, Reader.step, hatrest.is_open]
  refine ⟨events ++ [.register_recv], next, dispatched ++ [], back.drop (count - front.length),
    readerMachine.exec_append hexec hrearm, hatrest, ?_, ?_, ?_⟩
  · rw [hunread.2, hfront, List.length_drop, List.length_append]
    omega
  · rw [hunread.2, hfront, hdrop, ← hchunk]
    conv_lhs => rw [← List.take_append_drop (count - front.length) back]
    rw [← List.append_assoc, List.drop_append_of_le_length]
    rw [List.length_append, hchunk]
    omega
  · rw [delivered_append, hdelivered, ← hchunk]
    simp [delivered]

/-- Whatever lies behind the packets at the front of a stream, a run can bring
    the handler there with less than a header unread. -/
theorem exists_run_of_reaches {conn : Connection} (hrest : conn.AtRest)
    (hshort : conn.recv_buffer.unread.length < 4) {back rest : List UInt8}
    {packets : List Packet}
    (hreach : (packetSplitter 40960).Reaches (conn.recv_buffer.unread ++ back) packets rest) :
    ∃ events next log later, readerMachine.exec ⟨conn, .reading⟩ events =
        some (⟨next, .reading⟩, log) ∧ next.AtRest ∧ next.recv_buffer.unread.length < 4 ∧
      rest = next.recv_buffer.unread ++ later ∧ back = delivered events ++ later := by
  generalize hinput : conn.recv_buffer.unread ++ back = input at hreach
  induction hreach generalizing conn back with
  | refl input => exact ⟨[], conn, [], back, rfl, hrest, hshort, hinput.symm, rfl⟩
  | head hnext _ ih =>
    obtain ⟨before, middle, first, left, hbefore, hmiddle, hless, rfl, rfl⟩ :=
      exists_run_of_next hrest hshort (hinput ▸ hnext)
    obtain ⟨after, final, second, later, hafter, hfinal, hfew, hend, rfl⟩ :=
      ih hmiddle hless rfl
    refine ⟨before ++ after, final, first ++ second, later,
      readerMachine.exec_append hbefore hafter, hfinal, hfew, hend, ?_⟩
    rw [delivered_append, List.append_assoc]

/-- A run that delivers the header behind some packets, and not a byte more. -/
theorem exists_run_to_header {stream rest : List UInt8} {packets : List Packet}
    (hreach : (packetSplitter 40960).Reaches stream packets rest) (hheader : 4 ≤ rest.length) :
    ∃ events conn log, readerMachine.exec Reader.start events = some (⟨conn, .looping⟩, log) ∧
      delivered events <+: stream ∧ conn.recv_buffer.Valid ∧
      conn.recv_buffer.unread = rest.take 4 := by
  obtain ⟨before, conn, log, later, hbefore, hrest, hshort, hunread, hstream⟩ :=
    exists_run_of_reaches Connection.atRest_new (by decide) hreach
  have hsum := congrArg List.length hunread
  rw [List.length_append] at hsum
  have hwritable := hrest.get_writable_size_eq
  generalize hchunk : later.take (4 - conn.recv_buffer.unread.length) = chunk
  have hlength : chunk.length = 4 - conn.recv_buffer.unread.length := by
    rw [← hchunk, List.length_take]
    omega
  have hfit : chunk.length ≤ conn.recv_buffer.get_writable_size := by
    omega
  have hne : chunk ≠ [] := by
    rintro rfl
    rw [List.length_nil] at hlength
    omega
  obtain ⟨hopen, hvalid, _, hreceived⟩ := hrest.receive_spec hfit
  have hread : readerMachine.exec ⟨conn, .reading⟩ [.read chunk] =
      some (⟨conn.receive chunk, .looping⟩, []) := by
    simp [Machine.exec, readerMachine, Reader.step, hfit, hne]
  refine ⟨before ++ [.read chunk], conn.receive chunk, log ++ [],
    readerMachine.exec_append hbefore hread, ?_, hvalid, ?_⟩
  · change ([] : List UInt8) ++ stream = delivered before ++ later at hstream
    rw [List.nil_append] at hstream
    rw [hstream, delivered_append, delivered_read, delivered_nil, List.append_nil, ← hchunk]
    exact (List.prefix_append_right_inj _).mpr (List.take_prefix _ _)
  · rw [hreceived, hunread, List.take_append, List.take_of_length_le (by omega), hchunk]

end topview.session
