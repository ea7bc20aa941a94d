import TopView.RecvBuffer
import TopView.Packet
import TopView.Transition.Loop

open topview.recv_buffer topview.packet topview.transition

namespace topview.session

/-- The receiving side of a `Session`: whether its socket is open, and its buffer. -/
structure Connection where
  is_open : Bool
  recv_buffer : RecvBuffer
  deriving DecidableEq, Repr

/-- A started session whose client has sent nothing yet. -/
def Connection.new : Connection := { is_open := true, recv_buffer := .new }

def Connection.close (self : Connection) : Connection := { self with is_open := false }

/-- A packet that one iteration of `ProcessRecv` found complete, with the
    buffer as it was. -/
structure Dispatch where
  recv_buffer : RecvBuffer
  header : PacketHeader
  deriving DecidableEq, Repr

/-- `pktData`, as an offset into the buffer. -/
def Dispatch.pkt_data (self : Dispatch) : Nat := self.recv_buffer.read_pos + sizeof_packet_header

/-- `pktSize - sizeof(PacketHeader)`, taken in `size_t` and passed as an `int`. -/
def Dispatch.len (self : Dispatch) : Int :=
  toInt (toSizeT (self.header.size - sizeof_packet_header))

/-- The bytes in the range that the handler is given. -/
def Dispatch.body (self : Dispatch) : List UInt8 :=
  (self.recv_buffer.buffer.drop self.pkt_data).take self.len.toNat

/-- What an iteration has found, with the bytes the handler is given. -/
def Dispatch.toPacket (self : Dispatch) : Packet := ⟨self.header, self.body⟩

/-- Steps 1 to 4 of an iteration, up to the handler call. `none` is a `break`.
    The first comparison converts the readable size to `size_t`, the second
    one converts the packet size to `int`. -/
def present (recv : RecvBuffer) : Option Dispatch :=
  if toSizeT recv.get_readable_size < sizeof_packet_header then none
  else
    let header := PacketHeader.read recv.get_read_pos
    if recv.get_readable_size < header.size then none else some ⟨recv, header⟩

/-- Steps 5 and 6 of an iteration. -/
def consume (recv : RecvBuffer) (pkt_size : Nat) : RecvBuffer :=
  (recv.set_read_pos pkt_size).clear

/-- One iteration of the `while (true)` loop. The handler called in it does
    not touch the buffer. -/
def iteration (recv : RecvBuffer) : Option (Dispatch × RecvBuffer) :=
  (present recv).map fun dispatch => (dispatch, consume recv dispatch.header.size)

def Connection.process_recv (fuel : Nat) (self : Connection) (length : Nat) :
    Option (List Dispatch × Connection) :=
  if length = 0 then some ([], self.close)
  else (loop iteration fuel self.recv_buffer).map fun result =>
    (result.1, { self with recv_buffer := result.2 })

/-- A read has stored its bytes and `SetWritePos` has been called. -/
def Connection.receive (self : Connection) (bytes : List UInt8) : Connection :=
  { self with recv_buffer := (self.recv_buffer.store bytes).set_write_pos bytes.length }

/-- The handler of a read that completes without an error, up to `RegisterRecv`. -/
def Connection.on_read (fuel : Nat) (self : Connection) (bytes : List UInt8) :
    Option (List Dispatch × Connection) :=
  (self.receive bytes).process_recv fuel bytes.length

/-- A sequence of reads. After each one `RegisterRecv` issues the next, unless
    the socket has been closed. -/
def Connection.deliver (fuel : Nat) : Connection → List (List UInt8) →
    Option (List Dispatch × Connection)
  | self, [] => some ([], self)
  | self, read :: reads =>
    if self.is_open then
      (self.on_read fuel read).bind fun first =>
        (deliver fuel first.2 reads).map fun later => (first.1 ++ later.1, later.2)
    else some ([], self)

theorem get_read_pos_of_valid {recv : RecvBuffer} (hvalid : recv.Valid) :
    recv.get_read_pos = recv.unread ++ recv.buffer.drop recv.write_pos := by
  have hread := hvalid.read_le_write
  rw [RecvBuffer.unread, RecvBuffer.get_read_pos]
  conv_lhs => rw [← List.take_append_drop (recv.write_pos - recv.read_pos)
    (recv.buffer.drop recv.read_pos)]
  rw [List.drop_drop, Nat.add_sub_cancel' hread]

/-- On a valid buffer an iteration goes on exactly when the unread bytes hold
    a header and as many bytes as it announces. -/
theorem present_of_valid {recv : RecvBuffer} (hvalid : recv.Valid) :
    present recv =
      if 4 ≤ recv.unread.length ∧ (PacketHeader.read recv.unread).size ≤ recv.unread.length then
        some ⟨recv, PacketHeader.read recv.unread⟩
      else none := by
  have hsize := hvalid.get_readable_size_eq
  have hbound := hvalid.length_unread_le
  have hreadable : toSizeT recv.get_readable_size = recv.unread.length := by
    have hexact := toSizeT_of_bounds (show 0 ≤ recv.get_readable_size by omega) (by omega)
    omega
  simp only [present, sizeof_packet_header, hreadable]
  by_cases hheader : recv.unread.length < 4
  · rw [if_pos hheader, if_neg (by omega)]
  · have hread : PacketHeader.read recv.get_read_pos = PacketHeader.read recv.unread := by
      rw [get_read_pos_of_valid hvalid, PacketHeader.read_append (by omega)]
    rw [if_neg hheader, hread, hsize]
    by_cases hwhole : (PacketHeader.read recv.unread).size ≤ recv.unread.length
    · rw [if_neg (by omega), if_pos ⟨by omega, hwhole⟩]
    · rw [if_pos (by omega), if_neg (by omega)]

theorem present_eq_some_iff {recv : RecvBuffer} (hvalid : recv.Valid)
    {dispatch : Dispatch} :
    present recv = some dispatch ↔
      4 ≤ recv.unread.length ∧ dispatch.header.size ≤ recv.unread.length ∧
        dispatch = ⟨recv, PacketHeader.read recv.unread⟩ := by
  rw [present_of_valid hvalid, Option.ite_none_right_eq_some, Option.some.injEq]
  constructor
  · rintro ⟨⟨hheader, hwhole⟩, rfl⟩
    exact ⟨hheader, hwhole, rfl⟩
  · rintro ⟨hheader, hwhole, rfl⟩
    exact ⟨⟨hheader, hwhole⟩, rfl⟩

/-- An iteration keeps the buffer valid, whatever size it consumes. -/
theorem consume_valid {recv : RecvBuffer} (hvalid : recv.Valid) (pkt_size : Nat) :
    (consume recv pkt_size).Valid :=
  (hvalid.set_read_pos pkt_size).clear_spec.1

/-- A presented packet is consumed by dropping the size it announces, and the
    buffer is compacted. -/
theorem consume_spec {recv : RecvBuffer} (hvalid : recv.Valid)
    {pkt_size : Nat} (hsize : pkt_size ≤ recv.unread.length) :
    (consume recv pkt_size).Valid ∧ (consume recv pkt_size).read_pos = 0 ∧
      (consume recv pkt_size).unread = recv.unread.drop pkt_size := by
  obtain ⟨hmoved, hunread⟩ := hvalid.set_read_pos_spec hsize
  obtain ⟨hclear, hzero, hsame⟩ := hmoved.clear_spec
  exact ⟨hclear, hzero, hsame.trans hunread⟩

/-- The length handed to the handler when the header announces at least itself. -/
theorem Dispatch.len_eq {self : Dispatch} (hheader : 4 ≤ self.header.size)
    (hsize : self.header.size < 2 ^ 16) : self.len = self.header.size - 4 := by
  simp only [Dispatch.len, sizeof_packet_header]
  rw [toSizeT_of_bounds (by omega) (by omega), toInt_of_bounds (by omega) (by omega)]
  rfl

/-- When the header announces less than itself, the `size_t` difference wraps
    and the narrowing to `int` makes it negative. -/
theorem Dispatch.len_eq_of_lt {self : Dispatch} (hheader : self.header.size < 4) :
    self.len = self.header.size - 4 := by
  simp only [Dispatch.len, sizeof_packet_header, toSizeT, toInt]
  rw [Int.bmod_def]
  omega

/-- The handler is given the body of the packet at the front of the unread bytes. -/
theorem dispatch_body_of_present {recv : RecvBuffer} (hvalid : recv.Valid)
    {dispatch : Dispatch} (hpresent : present recv = some dispatch) :
    dispatch.body = dispatch.header.body recv.unread := by
  obtain ⟨hheader, hwhole, rfl⟩ := (present_eq_some_iff hvalid).mp hpresent
  have hlt := PacketHeader.size_read_lt recv.unread
  have hlen : (Dispatch.len ⟨recv, PacketHeader.read recv.unread⟩).toNat =
      (PacketHeader.read recv.unread).size - 4 := by
    rcases Nat.lt_or_ge (PacketHeader.read recv.unread).size 4 with hshort | hlong
    · rw [Dispatch.len_eq_of_lt hshort]; simp only; omega
    · rw [Dispatch.len_eq hlong hlt]; simp only; omega
  simp only [Dispatch.body, hlen, Dispatch.pkt_data, PacketHeader.body, sizeof_packet_header]
  simp only at hwhole
  rw [← List.drop_drop, show recv.buffer.drop recv.read_pos = recv.get_read_pos from rfl,
    get_read_pos_of_valid hvalid, List.drop_append_of_le_length hheader,
    List.take_append_of_le_length (by rw [List.length_drop]; omega)]

/-- A handler is never given more than the buffer holds behind a header. -/
theorem length_body_le_of_present {recv : RecvBuffer} (hvalid : recv.Valid)
    {dispatch : Dispatch} (hpresent : present recv = some dispatch) :
    dispatch.body.length ≤ 40956 := by
  have hbound := hvalid.length_unread_le
  have hwhole := ((present_eq_some_iff hvalid).mp hpresent).2.1
  rw [dispatch_body_of_present hvalid hpresent, PacketHeader.body, List.length_take]
  simp only [sizeof_packet_header]
  omega

theorem iteration_eq_some_iff {recv next : RecvBuffer} {dispatch : Dispatch} :
    iteration recv = some (dispatch, next) ↔
      present recv = some dispatch ∧ next = consume recv dispatch.header.size := by
  simp only [iteration, Option.map_eq_some_iff, Prod.mk.injEq]
  constructor
  · rintro ⟨_, hpresent, rfl, rfl⟩
    exact ⟨hpresent, rfl⟩
  · rintro ⟨hpresent, rfl⟩
    exact ⟨dispatch, hpresent, rfl, rfl⟩

/-- An iteration drops the size announced at the front of the unread bytes.
    A packet of positive size is the next packet of these bytes. -/
theorem iteration_spec {recv next : RecvBuffer} (hvalid : recv.Valid) {dispatch : Dispatch}
    (hiteration : iteration recv = some (dispatch, next)) :
    next.Valid ∧ next.read_pos = 0 ∧ next.unread = recv.unread.drop dispatch.header.size ∧
      (0 < dispatch.header.size →
        nextPacket 40960 recv.unread = some (dispatch.toPacket, next.unread)) := by
  obtain ⟨hpresent, rfl⟩ := iteration_eq_some_iff.mp hiteration
  have hbody := dispatch_body_of_present hvalid hpresent
  have hbound := hvalid.length_unread_le
  obtain ⟨hheader, hwhole, rfl⟩ := (present_eq_some_iff hvalid).mp hpresent
  obtain ⟨hnext, hread, hunread⟩ := consume_spec hvalid hwhole
  refine ⟨hnext, hread, hunread, fun hpos => nextPacket_eq_some_iff.mpr ⟨⟨hheader, hpos, hwhole,
    Nat.le_trans hwhole hbound⟩, ?_, hunread⟩⟩
  simp only [Dispatch.toPacket, hbody]

/-- The next packet of the unread bytes is what an iteration presents. -/
theorem iteration_of_next {recv : RecvBuffer} (hvalid : recv.Valid) {packet : Packet}
    {rest : List UInt8} (hnext : nextPacket 40960 recv.unread = some (packet, rest)) :
    ∃ dispatch next, iteration recv = some (dispatch, next) ∧ dispatch.toPacket = packet ∧
      next.unread = rest := by
  obtain ⟨⟨hheader, hpos, hwhole, _⟩, heq, _⟩ := nextPacket_eq_some_iff.mp hnext
  rw [heq] at hpos hwhole
  have hpresent : present recv = some ⟨recv, PacketHeader.read recv.unread⟩ :=
    (present_eq_some_iff hvalid).mpr ⟨hheader, hwhole, rfl⟩
  have hiteration := iteration_eq_some_iff.mpr ⟨hpresent, rfl⟩
  have htaken := (iteration_spec hvalid hiteration).2.2.2 hpos
  rw [hnext, Option.some.injEq, Prod.mk.injEq] at htaken
  exact ⟨_, _, hiteration, htaken.1.symm, htaken.2.symm⟩

theorem next_eq_none_of_present {recv : RecvBuffer} (hvalid : recv.Valid)
    (hbreak : present recv = none) : nextPacket 40960 recv.unread = none := by
  cases hnext : nextPacket 40960 recv.unread with
  | none => rfl
  | some taken =>
    obtain ⟨dispatch, next, hiteration, _⟩ := iteration_of_next hvalid hnext
    rw [(iteration_eq_some_iff.mp hiteration).1] at hbreak
    cases hbreak

theorem iteration_eq_none_iff {recv : RecvBuffer} : iteration recv = none ↔ present recv = none :=
  Option.map_eq_none_iff

end topview.session
