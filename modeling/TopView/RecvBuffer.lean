import TopView.CInt
import Mathlib.Data.List.Infix

namespace topview.recv_buffer

/-- The bytes `buffer`, with the unread ones between the two positions. -/
structure RecvBuffer where
  buffer : List UInt8
  read_pos : Nat
  write_pos : Nat
  deriving DecidableEq, Repr

/-- `sizeof(buffer)`. -/
def sizeof_buffer : Nat := 40960

/-- A value-initialized buffer. -/
def RecvBuffer.new : RecvBuffer :=
  { buffer := List.replicate sizeof_buffer 0, read_pos := 0, write_pos := 0 }

/-- `memcpy` of `bytes` to an offset. The source bytes are the original ones,
    also when source and destination share cells. -/
def memcpy (buffer : List UInt8) (offset : Nat) (bytes : List UInt8) : List UInt8 :=
  buffer.take offset ++ bytes ++ buffer.drop (offset + bytes.length)

/-- Bytes stored at `GetWritePos()` by a completed read. -/
def RecvBuffer.store (self : RecvBuffer) (bytes : List UInt8) : RecvBuffer :=
  { self with buffer := memcpy self.buffer self.write_pos bytes }

/-- The memory `GetReadPos()` points at. -/
def RecvBuffer.get_read_pos (self : RecvBuffer) : List UInt8 := self.buffer.drop self.read_pos

def RecvBuffer.set_write_pos (self : RecvBuffer) (pos : Nat) : RecvBuffer :=
  if sizeof_buffer < toSizeT (self.write_pos + pos) then self
  else { self with write_pos := toSizeT (self.write_pos + pos) }

def RecvBuffer.set_read_pos (self : RecvBuffer) (pos : Nat) : RecvBuffer :=
  if self.write_pos < toSizeT (self.read_pos + pos) then self
  else { self with read_pos := toSizeT (self.read_pos + pos) }

/-- The difference is taken in `size_t` and returned as an `int`. -/
def RecvBuffer.get_writable_size (self : RecvBuffer) : Int :=
  toInt (toSizeT (sizeof_buffer - self.write_pos))

def RecvBuffer.get_readable_size (self : RecvBuffer) : Int :=
  toInt (toSizeT (self.write_pos - self.read_pos))

def RecvBuffer.clear (self : RecvBuffer) : RecvBuffer :=
  if self.read_pos = self.write_pos then { self with read_pos := 0, write_pos := 0 }
  else
    let remained_data_size := toInt (toSizeT (self.write_pos - self.read_pos))
    { buffer := memcpy self.buffer 0 (self.get_read_pos.take (toSizeT remained_data_size))
      read_pos := 0
      write_pos := toSizeT remained_data_size }

/-- The unread bytes, from the read position up to the write position. -/
def RecvBuffer.unread (self : RecvBuffer) : List UInt8 :=
  self.get_read_pos.take (self.write_pos - self.read_pos)

/-- The positions lie in order inside the array. -/
structure RecvBuffer.Valid (recv : RecvBuffer) : Prop where
  length_buffer : recv.buffer.length = 40960
  read_le_write : recv.read_pos ≤ recv.write_pos
  write_le_size : recv.write_pos ≤ 40960

theorem RecvBuffer.valid_new : RecvBuffer.new.Valid :=
  ⟨List.length_replicate, Nat.le_refl 0, Nat.zero_le _⟩

@[simp] theorem RecvBuffer.unread_new : RecvBuffer.new.unread = [] := List.take_zero

theorem RecvBuffer.Valid.length_unread {self : RecvBuffer} (hvalid : self.Valid) :
    self.unread.length = self.write_pos - self.read_pos := by
  have hlength := hvalid.length_buffer
  have hwrite := hvalid.write_le_size
  simp only [RecvBuffer.unread, RecvBuffer.get_read_pos, List.length_take, List.length_drop]
  omega

theorem RecvBuffer.Valid.length_unread_le {self : RecvBuffer} (hvalid : self.Valid) :
    self.unread.length ≤ 40960 := by
  have hlength := hvalid.length_unread
  have hwrite := hvalid.write_le_size
  omega

/-- The narrowing to `int` loses nothing on a valid buffer. -/
theorem RecvBuffer.Valid.get_readable_size_eq {self : RecvBuffer} (hvalid : self.Valid) :
    self.get_readable_size = self.unread.length := by
  have hread := hvalid.read_le_write
  have hwrite := hvalid.write_le_size
  rw [hvalid.length_unread, RecvBuffer.get_readable_size, toSizeT_of_bounds (by omega) (by omega),
    toInt_of_bounds (by omega) (by omega)]
  omega

theorem RecvBuffer.Valid.get_writable_size_eq {self : RecvBuffer} (hvalid : self.Valid) :
    self.get_writable_size = 40960 - self.write_pos := by
  have hwrite := hvalid.write_le_size
  simp only [RecvBuffer.get_writable_size, sizeof_buffer]
  rw [toSizeT_of_bounds (by omega) (by omega), toInt_of_bounds (by omega) (by omega)]
  rfl

theorem RecvBuffer.set_write_pos_of_le {self : RecvBuffer} {pos : Nat}
    (hroom : self.write_pos + pos ≤ 40960) :
    self.set_write_pos pos = { self with write_pos := self.write_pos + pos } := by
  have hsum : toSizeT (self.write_pos + pos) = self.write_pos + pos :=
    toSizeT_add_of_lt (by omega)
  rw [RecvBuffer.set_write_pos, hsum, if_neg (by simp only [sizeof_buffer]; omega)]

/-- A move past the end of the array is dropped. -/
theorem RecvBuffer.Valid.set_write_pos_of_lt {self : RecvBuffer} (hvalid : self.Valid) {pos : Nat}
    (hpos : pos ≤ 65535) (hroom : 40960 < self.write_pos + pos) : self.set_write_pos pos = self := by
  have hwrite := hvalid.write_le_size
  have hsum : toSizeT (self.write_pos + pos) = self.write_pos + pos :=
    toSizeT_add_of_lt (by omega)
  rw [RecvBuffer.set_write_pos, hsum]
  exact if_pos hroom

theorem RecvBuffer.Valid.set_read_pos_of_le {self : RecvBuffer} (hvalid : self.Valid) {pos : Nat}
    (hread : self.read_pos + pos ≤ self.write_pos) :
    self.set_read_pos pos = { self with read_pos := self.read_pos + pos } := by
  have hwrite := hvalid.write_le_size
  have hsum : toSizeT (self.read_pos + pos) = self.read_pos + pos :=
    toSizeT_add_of_lt (by omega)
  rw [RecvBuffer.set_read_pos, hsum, if_neg (by omega)]

/-- A move past the unread bytes is dropped. -/
theorem RecvBuffer.Valid.set_read_pos_of_lt {self : RecvBuffer} (hvalid : self.Valid) {pos : Nat}
    (hpos : pos ≤ 65535) (hread : self.unread.length < pos) : self.set_read_pos pos = self := by
  have hlength := hvalid.length_unread
  have horder := hvalid.read_le_write
  have hwrite := hvalid.write_le_size
  have hsum : toSizeT (self.read_pos + pos) = self.read_pos + pos :=
    toSizeT_add_of_lt (by omega)
  rw [RecvBuffer.set_read_pos, hsum, if_pos (by omega)]

/-- A completed read appends its bytes to the unread ones. -/
theorem RecvBuffer.Valid.store_spec {self : RecvBuffer} (hvalid : self.Valid)
    {bytes : List UInt8} (hroom : self.write_pos + bytes.length ≤ 40960) :
    ((self.store bytes).set_write_pos bytes.length).Valid ∧
      ((self.store bytes).set_write_pos bytes.length).read_pos = self.read_pos ∧
      ((self.store bytes).set_write_pos bytes.length).write_pos =
        self.write_pos + bytes.length ∧
      ((self.store bytes).set_write_pos bytes.length).unread = self.unread ++ bytes := by
  have hlength := hvalid.length_buffer
  have hread := hvalid.read_le_write
  rw [@RecvBuffer.set_write_pos_of_le (self.store bytes) bytes.length hroom]
  refine ⟨⟨?_, ?_, hroom⟩, rfl, rfl, ?_⟩
  · simp only [RecvBuffer.store, memcpy, List.length_append, List.length_take, List.length_drop]
    omega
  · exact Nat.le_trans hread (Nat.le_add_right _ _)
  · simp only [RecvBuffer.unread, RecvBuffer.get_read_pos, RecvBuffer.store, memcpy,
      List.append_assoc]
    rw [List.drop_append_of_le_length (by simp; omega), List.drop_take,
      show self.write_pos + bytes.length - self.read_pos =
        self.write_pos - self.read_pos + bytes.length by omega,
      List.take_append, List.take_take]
    have hfront : ((self.buffer.drop self.read_pos).take (self.write_pos - self.read_pos)).length =
        self.write_pos - self.read_pos := by
      simp only [List.length_take, List.length_drop]
      omega
    simp [hfront]

/-- Reading `pos` unread bytes drops them from the front. -/
theorem RecvBuffer.Valid.set_read_pos_spec {self : RecvBuffer} (hvalid : self.Valid) {pos : Nat}
    (hpos : pos ≤ self.unread.length) :
    (self.set_read_pos pos).Valid ∧ (self.set_read_pos pos).unread = self.unread.drop pos := by
  have hlength := hvalid.length_unread
  have hread := hvalid.read_le_write
  rw [hvalid.set_read_pos_of_le (by omega)]
  refine ⟨⟨hvalid.length_buffer, by simp only; omega, hvalid.write_le_size⟩, ?_⟩
  simp only [RecvBuffer.unread, RecvBuffer.get_read_pos, List.drop_take, List.drop_drop]
  congr 1
  omega

/-- A move of the read position is refused when it would leave the unread bytes. -/
theorem RecvBuffer.Valid.set_read_pos {self : RecvBuffer} (hvalid : self.Valid) (pos : Nat) :
    (self.set_read_pos pos).Valid := by
  unfold RecvBuffer.set_read_pos
  split
  · exact hvalid
  · next hmove => exact ⟨hvalid.length_buffer, Nat.le_of_not_lt hmove, hvalid.write_le_size⟩

private theorem take_memcpy_zero (buffer bytes : List UInt8) :
    (memcpy buffer 0 bytes).take bytes.length = bytes := by
  simp [memcpy]

/-- Compaction keeps the unread bytes and moves them to the front. -/
theorem RecvBuffer.Valid.clear_spec {self : RecvBuffer} (hvalid : self.Valid) :
    self.clear.Valid ∧ self.clear.read_pos = 0 ∧ self.clear.unread = self.unread := by
  have hlength := hvalid.length_buffer
  have hread := hvalid.read_le_write
  have hwrite := hvalid.write_le_size
  by_cases hempty : self.read_pos = self.write_pos
  · rw [RecvBuffer.clear, if_pos hempty]
    refine ⟨⟨hlength, Nat.le_refl 0, Nat.zero_le _⟩, rfl, ?_⟩
    simp [RecvBuffer.unread, hempty]
  · have hremained : toSizeT (toInt (toSizeT (self.write_pos - self.read_pos))) =
        self.write_pos - self.read_pos := by
      rw [toSizeT_of_bounds (by omega) (by omega), toInt_of_bounds (by omega) (by omega)]
      have hexact : (toSizeT (self.write_pos - self.read_pos) : Int) =
          self.write_pos - self.read_pos := toSizeT_of_bounds (by omega) (by omega)
      omega
    have hunread := hvalid.length_unread
    have hclear : self.clear = ⟨memcpy self.buffer 0 self.unread, 0, self.unread.length⟩ := by
      rw [hunread]
      simp only [RecvBuffer.clear, if_neg hempty, hremained, RecvBuffer.unread]
    rw [hclear]
    refine ⟨⟨?_, Nat.zero_le _, hvalid.length_unread_le⟩, rfl, ?_⟩
    · simp only [memcpy, List.take_zero, List.nil_append, List.length_append, List.length_drop]
      omega
    · exact take_memcpy_zero self.buffer self.unread

end topview.recv_buffer
