import TopView.Session.Reader

open topview.recv_buffer topview.packet topview.transition

namespace topview.session

/-- `SetWritePos` takes the branch that drops the move. -/
def Overflows (recv : RecvBuffer) (pos : Nat) : Prop := sizeof_buffer < toSizeT (recv.write_pos + pos)

/-- `SetReadPos` takes the branch that drops the move. -/
def Underflows (recv : RecvBuffer) (pos : Nat) : Prop := recv.write_pos < toSizeT (recv.read_pos + pos)

/-- The positions are in order, and both sizes are their exact differences. -/
structure InOrder (recv : RecvBuffer) : Prop where
  read_le_write : recv.read_pos ≤ recv.write_pos
  write_le_size : recv.write_pos ≤ 40960
  readable : recv.get_readable_size = recv.write_pos - recv.read_pos
  writable : recv.get_writable_size = 40960 - recv.write_pos

/-- What the buffer of a read handler meets, wherever the handler is. -/
structure BufferInvariant (self : Reader) : Prop where
  in_order : InOrder self.recv_buffer
  /-- No read that fits into what it has been offered overflows. -/
  stored : self.pc = .reading → ∀ bytes : List UInt8,
    bytes.length ≤ self.recv_buffer.get_writable_size →
      ¬ Overflows (self.recv_buffer.store bytes) bytes.length ∧
        InOrder ((self.recv_buffer.store bytes).set_write_pos bytes.length)
  /-- No packet that has been presented underflows. -/
  consumed : ∀ dispatch : Dispatch, self.pc = .handling dispatch →
    ¬ Underflows self.recv_buffer dispatch.header.size ∧
      InOrder (self.recv_buffer.set_read_pos dispatch.header.size) ∧
      InOrder (self.recv_buffer.set_read_pos dispatch.header.size).clear
  /-- A read is registered behind the unread bytes, which start at zero. -/
  registered : self.pc = .reading → self.recv_buffer.read_pos = 0

theorem inOrder_of_valid {recv : RecvBuffer} (hvalid : recv.Valid) : InOrder recv := by
  have hread := hvalid.read_le_write
  refine ⟨hread, hvalid.write_le_size, ?_, hvalid.get_writable_size_eq⟩
  have hlength := hvalid.length_unread
  rw [hvalid.get_readable_size_eq]
  omega

/-- A move within the array is not dropped. -/
theorem not_overflows_of_le {recv : RecvBuffer} {pos : Nat} (hroom : recv.write_pos + pos ≤ 40960) :
    ¬ Overflows recv pos := by
  have hsum : toSizeT (recv.write_pos + pos) = recv.write_pos + pos :=
    toSizeT_add_of_lt (by omega)
  rw [Overflows, hsum, sizeof_buffer]
  omega

/-- A move within the unread bytes is not dropped. -/
theorem not_underflows_of_le {recv : RecvBuffer} (hvalid : recv.Valid) {pos : Nat}
    (hpos : pos ≤ recv.unread.length) : ¬ Underflows recv pos := by
  have hread := hvalid.read_le_write
  have hwrite := hvalid.write_le_size
  have hlength := hvalid.length_unread
  have hsum : toSizeT (recv.read_pos + pos) = recv.read_pos + pos :=
    toSizeT_add_of_lt (by omega)
  rw [Underflows, hsum]
  omega

/-- In every state that a read handler reaches, whatever bytes its client sends
    and however these are cut into reads, the positions are in order and no move
    of a position is dropped. -/
theorem bufferInvariant_of_exec (events : List ReadEvent) (self : Reader) (log : List Dispatch)
    (hexec : readerMachine.exec Reader.start events = some (self, log)) :
    BufferInvariant self := by
  have hinv := Reader.inv_of_exec hexec
  refine ⟨inOrder_of_valid hinv.valid, ?_, ?_, fun _ => hinv.read_pos⟩
  · intro _ bytes hfit
    have hwritable := hinv.valid.get_writable_size_eq
    have hroom : self.recv_buffer.write_pos + bytes.length ≤ 40960 := by omega
    have hstored := @RecvBuffer.Valid.store_spec self.recv_buffer hinv.valid bytes hroom
    exact ⟨@not_overflows_of_le (self.recv_buffer.store bytes) _ hroom,
      inOrder_of_valid hstored.1⟩
  · intro dispatch hpc
    have hpresent := hinv.handling dispatch (by simp [Reader.pending, hpc])
    have hwhole := ((present_eq_some_iff hinv.valid).mp hpresent).2.1
    have hmoved := hinv.valid.set_read_pos_spec hwhole
    exact ⟨not_underflows_of_le hinv.valid hwhole, inOrder_of_valid hmoved.1,
      inOrder_of_valid hmoved.1.clear_spec.1⟩

/-- A read that ends within a packet which announces less than its header. -/
def malformed : List ReadEvent :=
  [.read [3, 0, 7, 0, 9], .present, .advance, .present, .register_recv]

theorem bufferInvariant_of_exec_malformed : ∃ self log,
    readerMachine.exec Reader.start malformed = some (self, log) ∧
      self.recv_buffer.write_pos = 2 ∧ BufferInvariant self := by
  have hrun : ((readerMachine.exec Reader.start malformed).map fun result =>
      result.1.recv_buffer.write_pos) = some 2 := by
    decide +kernel
  obtain ⟨⟨self, log⟩, hexec, hwrite⟩ := Option.map_eq_some_iff.mp hrun
  exact ⟨self, log, hexec, hwrite, bufferInvariant_of_exec malformed self log hexec⟩

end topview.session
