import TopView.RecvBuffer
import TopView.Transition.Queue
import TopView.Transition.Simulation

open topview.transition

namespace topview.recv_buffer

/-- A default-initialized buffer. The positions have initializers, and the array
    has none. -/
def RecvBuffer.default_init (buffer : List UInt8) : RecvBuffer :=
  { buffer, read_pos := 0, write_pos := 0 }

inductive BufferOp where
  /-- Bytes that fit into `GetWritableSize()` are stored at `GetWritePos()`,
      and `SetWritePos` is called with how many they are. -/
  | fill (bytes : List UInt8)
  /-- `SetWritePos` with more than the room that is left. -/
  | set_write_pos (pos : Nat)
  | set_read_pos (pos : Nat)
  | clear
  deriving DecidableEq, Repr

/-- The memory that `SetReadPos` moves the read position over. -/
def RecvBuffer.passed (self : RecvBuffer) (pos : Nat) : List UInt8 :=
  self.get_read_pos.take ((self.set_read_pos pos).read_pos - self.read_pos)

def RecvBuffer.step (self : RecvBuffer) : BufferOp → Option (RecvBuffer × List UInt8)
  | .fill bytes =>
    if bytes.length ≤ self.get_writable_size then
      some ((self.store bytes).set_write_pos bytes.length, [])
    else none
  | .set_write_pos pos =>
    if self.get_writable_size < pos ∧ pos ≤ 65535 then some (self.set_write_pos pos, []) else none
  | .set_read_pos pos => if pos ≤ 65535 then some (self.set_read_pos pos, self.passed pos) else none
  | .clear => some (self.clear, [])

/-- The buffer under calls in any order. What is emitted are the bytes passed by
    the read position. -/
def bufferMachine : Machine RecvBuffer BufferOp UInt8 where
  step := RecvBuffer.step

/-- What an operation asks of the reference queue. A `SetWritePos` past the room
    and `Clear` ask for nothing. -/
def BufferOp.requests : BufferOp → List (QueueRequest UInt8)
  | .fill bytes => [.append bytes]
  | .set_write_pos _ => []
  | .set_read_pos pos => [.drop pos]
  | .clear => []

/-- The buffer is valid, and its unread bytes are the queue. -/
structure Holds (recv : RecvBuffer) (queue : Queue UInt8 sizeof_buffer) : Prop where
  valid : recv.Valid
  items : queue.items = recv.unread

theorem holds_default_init {buffer : List UInt8} (hbuffer : buffer.length = sizeof_buffer) :
    Holds (.default_init buffer) (.empty UInt8 sizeof_buffer) :=
  ⟨⟨hbuffer, Nat.le_refl 0, Nat.zero_le _⟩, List.take_zero.symm⟩

/-- What fits into the writable size is appended to the unread bytes. -/
theorem RecvBuffer.Valid.fill_spec {self : RecvBuffer} (hvalid : self.Valid)
    {bytes : List UInt8} (hfit : bytes.length ≤ self.get_writable_size) :
    ((self.store bytes).set_write_pos bytes.length).Valid ∧
      ((self.store bytes).set_write_pos bytes.length).unread = self.unread ++ bytes := by
  rw [hvalid.get_writable_size_eq] at hfit
  have hroom : self.write_pos + bytes.length ≤ 40960 := by omega
  obtain ⟨hstored, _, _, hunread⟩ := hvalid.store_spec hroom
  exact ⟨hstored, hunread⟩

theorem RecvBuffer.Valid.set_write_pos_refused {self : RecvBuffer} (hvalid : self.Valid)
    {pos : Nat} (hroom : self.get_writable_size < pos) (hpos : pos ≤ 65535) :
    self.set_write_pos pos = self := by
  rw [hvalid.get_writable_size_eq] at hroom
  apply hvalid.set_write_pos_of_lt hpos
  omega

/-- An accepted move passes over the unread bytes that it drops. -/
theorem RecvBuffer.Valid.passed_of_le {self : RecvBuffer} (hvalid : self.Valid) {pos : Nat}
    (hpos : pos ≤ self.unread.length) : self.passed pos = self.unread.take pos := by
  have hlength := hvalid.length_unread
  have hread := hvalid.read_le_write
  have hmoved := hvalid.set_read_pos_of_le (show self.read_pos + pos ≤ self.write_pos by omega)
  have hcount : min pos (self.write_pos - self.read_pos) = pos := by omega
  rw [RecvBuffer.passed, hmoved, Nat.add_sub_cancel_left, RecvBuffer.unread, List.take_take, hcount]

theorem RecvBuffer.passed_of_refused {self : RecvBuffer} {pos : Nat}
    (hrefused : self.set_read_pos pos = self) : self.passed pos = [] := by
  rw [RecvBuffer.passed, hrefused, Nat.sub_self, List.take_zero]

/-- An operation on the buffer is what it asks of the reference queue. -/
theorem Holds.step {self next : RecvBuffer} {queue : Queue UInt8 sizeof_buffer} {op : BufferOp}
    {emitted : List UInt8} (hholds : Holds self queue)
    (hstep : self.step op = some (next, emitted)) :
    ∃ other, (queueMachine UInt8 sizeof_buffer).exec queue op.requests = some (other, emitted) ∧
      Holds next other := by
  have hvalid := hholds.valid
  cases op with
  | fill bytes =>
    simp only [RecvBuffer.step, Option.ite_none_right_eq_some, Option.some.injEq,
      Prod.mk.injEq] at hstep
    obtain ⟨hfit, rfl, rfl⟩ := hstep
    obtain ⟨hstored, hunread⟩ := hvalid.fill_spec hfit
    rw [← hholds.items] at hunread
    have hroom : (queue.items ++ bytes).length ≤ sizeof_buffer := by
      rw [← hunread]
      exact hstored.length_unread_le
    refine ⟨⟨queue.items ++ bytes, hroom⟩, ?_, hstored, hunread.symm⟩
    apply Machine.exec_singleton
    exact dif_pos hroom
  | set_write_pos pos =>
    simp only [RecvBuffer.step, Option.ite_none_right_eq_some, Option.some.injEq,
      Prod.mk.injEq] at hstep
    obtain ⟨⟨hroom, hpos⟩, rfl, rfl⟩ := hstep
    rw [hvalid.set_write_pos_refused hroom hpos]
    exact ⟨queue, Machine.exec_nil _ _, hholds⟩
  | set_read_pos pos =>
    simp only [RecvBuffer.step, Option.ite_none_right_eq_some, Option.some.injEq,
      Prod.mk.injEq] at hstep
    obtain ⟨hpos, rfl, rfl⟩ := hstep
    by_cases hunread : pos ≤ self.unread.length
    · obtain ⟨hmoved, hdropped⟩ := hvalid.set_read_pos_spec hunread
      rw [hvalid.passed_of_le hunread]
      rw [← hholds.items] at hunread hdropped ⊢
      refine ⟨queue.drop pos, ?_, hmoved, hdropped.symm⟩
      apply Machine.exec_singleton
      exact if_pos hunread
    · have hrefused := hvalid.set_read_pos_of_lt hpos (by omega)
      rw [RecvBuffer.passed_of_refused hrefused, hrefused]
      rw [← hholds.items] at hunread
      refine ⟨queue, ?_, hholds⟩
      apply Machine.exec_singleton
      exact if_neg hunread
  | clear =>
    simp only [RecvBuffer.step, Option.some.injEq, Prod.mk.injEq] at hstep
    obtain ⟨rfl, rfl⟩ := hstep
    obtain ⟨hcleared, _, hunread⟩ := hvalid.clear_spec
    exact ⟨queue, Machine.exec_nil _ _, hcleared, hholds.items.trans hunread.symm⟩

def fifoSimulation : bufferMachine.Simulation (queueMachine UInt8 sizeof_buffer) where
  Related := Holds
  requests := BufferOp.requests
  matched := Holds.step

/-- What each operation does to the unread bytes of a buffer, and when it does
    nothing at all. -/
structure BoundedFifo (recv : RecvBuffer) : Prop where
  capacity : recv.unread.length ≤ sizeof_buffer
  filled : ∀ bytes : List UInt8, bytes.length ≤ recv.get_writable_size →
    ((recv.store bytes).set_write_pos bytes.length).unread = recv.unread ++ bytes
  /-- Exactly `pos` bytes are dropped, from the front. -/
  accepted : ∀ pos : Nat, pos ≤ recv.unread.length →
    (recv.set_read_pos pos).unread = recv.unread.drop pos
  write_refused : ∀ pos : Nat, recv.get_writable_size < pos → pos ≤ 65535 →
    recv.set_write_pos pos = recv
  read_refused : ∀ pos : Nat, recv.unread.length < pos → pos ≤ 65535 →
    recv.set_read_pos pos = recv
  cleared : recv.clear.unread = recv.unread
  cleared_read_pos : recv.clear.read_pos = 0
  cleared_writable : recv.clear.get_writable_size = sizeof_buffer - recv.unread.length

theorem boundedFifo_of_valid {recv : RecvBuffer} (hvalid : recv.Valid) : BoundedFifo recv := by
  obtain ⟨hcleared, hread, hunread⟩ := hvalid.clear_spec
  refine ⟨hvalid.length_unread_le, ?_, ?_, ?_, ?_, hunread, hread, ?_⟩
  · intro bytes hfit
    exact (hvalid.fill_spec hfit).2
  · intro pos hpos
    exact (hvalid.set_read_pos_spec hpos).2
  · intro pos hroom hpos
    exact hvalid.set_write_pos_refused hroom hpos
  · intro pos hunread hpos
    exact hvalid.set_read_pos_of_lt hpos hunread
  · have hlength := hcleared.length_unread
    rw [hunread, hread] at hlength
    rw [hcleared.get_writable_size_eq, hlength]
    rfl

/-- The receive buffer is a bounded first-in, first-out queue of bytes. In every
    order of the operations, the unread bytes are those of the reference queue,
    and the read position passes the bytes that the queue drops. A refused move
    changes nothing, and `Clear` gives back the room of the bytes that have been
    read. -/
theorem boundedFifo_of_exec (buffer : List UInt8) (hbuffer : buffer.length = sizeof_buffer)
    (ops : List BufferOp) (self : RecvBuffer) (log : List UInt8)
    (hexec : bufferMachine.exec (.default_init buffer) ops = some (self, log)) :
    BoundedFifo self ∧ ∃ queue,
      (queueMachine UInt8 sizeof_buffer).exec (.empty UInt8 sizeof_buffer)
        (ops.flatMap BufferOp.requests) = some (queue, log) ∧ queue.items = self.unread := by
  obtain ⟨queue, hqueue, hholds⟩ := fifoSimulation.exec (holds_default_init hbuffer) hexec
  exact ⟨boundedFifo_of_valid hholds.valid, queue, hqueue, hholds.items⟩

/-- A move past the end of the array, a compaction onto cells that are still
    being read, and a move past the unread bytes. -/
def interleaved : List BufferOp :=
  [.fill [1, 2, 3, 4, 5, 6], .set_read_pos 2, .set_write_pos 65535, .clear, .set_read_pos 5,
    .fill [7, 8], .set_read_pos 3]

theorem boundedFifo_of_exec_interleaved : ∃ self,
    bufferMachine.exec (.default_init (List.replicate sizeof_buffer 205)) interleaved =
      some (self, [1, 2, 3, 4, 5]) ∧ self.unread = [6, 7, 8] ∧ BoundedFifo self := by
  have hrun : ((bufferMachine.exec (.default_init (List.replicate sizeof_buffer 205))
      interleaved).map fun result => (result.1.unread, result.2)) =
        some ([6, 7, 8], [1, 2, 3, 4, 5]) := by
    decide +kernel
  obtain ⟨⟨self, log⟩, hexec, hresult⟩ := Option.map_eq_some_iff.mp hrun
  obtain ⟨hunread, rfl⟩ := Prod.mk.inj hresult
  have hfifo := boundedFifo_of_exec _ List.length_replicate interleaved self _ hexec
  exact ⟨self, hexec, hunread, hfifo.1⟩

/-- The bytes that an operation writes. -/
def BufferOp.filled : BufferOp → List UInt8
  | .fill bytes => bytes
  | _ => []

theorem BufferOp.flatMap_appended_requests (op : BufferOp) :
    op.requests.flatMap QueueRequest.appended = op.filled := by
  cases op with
  | fill bytes => exact List.append_nil bytes
  | set_write_pos pos => rfl
  | set_read_pos pos => rfl
  | clear => rfl

/-- No byte is lost, made up or reordered. What has been filled in is what the
    read position has passed, followed by what is unread. -/
theorem filled_eq_of_exec {buffer : List UInt8} (hbuffer : buffer.length = sizeof_buffer)
    {ops : List BufferOp} {self : RecvBuffer} {log : List UInt8}
    (hexec : bufferMachine.exec (.default_init buffer) ops = some (self, log)) :
    ops.flatMap BufferOp.filled = log ++ self.unread := by
  obtain ⟨queue, hqueue, hholds⟩ := fifoSimulation.exec (holds_default_init hbuffer) hexec
  have hconserves := Queue.exec_conserves hqueue
  rw [hholds.items, List.flatMap_assoc] at hconserves
  rw [← hconserves]
  simp only [fifoSimulation, BufferOp.flatMap_appended_requests]
  exact (List.nil_append _).symm

/-- How the buffer meets a request of the reference queue. It clears itself
    before it is filled. -/
def realize : QueueRequest UInt8 → List BufferOp
  | .append items => [.clear, .fill items]
  | .drop count => [.set_read_pos (min count 65535)]

/-- After `Clear`, whatever the reference queue has room for fits. -/
theorem Holds.fits_of_clear {self : RecvBuffer} {queue : Queue UInt8 sizeof_buffer}
    (hholds : Holds self queue) {items : List UInt8}
    (hroom : (queue.items ++ items).length ≤ sizeof_buffer) :
    items.length ≤ self.clear.get_writable_size := by
  rw [(boundedFifo_of_valid hholds.valid).cleared_writable, ← hholds.items]
  rw [List.length_append] at hroom
  omega

/-- A queue that never holds as many items does not see the bound. -/
theorem step_drop_min (queue : Queue UInt8 sizeof_buffer) (count : Nat) :
    queue.step (.drop (min count 65535)) = queue.step (.drop count) := by
  have hlength : queue.items.length ≤ 40960 := queue.length_le
  by_cases hcount : count ≤ 65535
  · rw [Nat.min_eq_left hcount]
  · have hbound : ¬ min count 65535 ≤ queue.items.length := by omega
    have hfull : ¬ count ≤ queue.items.length := by omega
    simp only [Queue.step, if_neg hbound, if_neg hfull]

theorem Holds.enabled {self : RecvBuffer} {queue other : Queue UInt8 sizeof_buffer}
    {request : QueueRequest UInt8} {emitted : List UInt8} (hholds : Holds self queue)
    (hstep : queue.step request = some (other, emitted)) :
    ∃ next log, bufferMachine.exec self (realize request) = some (next, log) := by
  cases request with
  | append items =>
    obtain ⟨hroom, _, _⟩ := Queue.step_append_eq_some_iff.mp hstep
    have hclear : bufferMachine.step self .clear = some (self.clear, []) := rfl
    have hfill : bufferMachine.step self.clear (.fill items) =
        some ((self.clear.store items).set_write_pos items.length, []) :=
      if_pos (hholds.fits_of_clear hroom)
    exact ⟨_, _, bufferMachine.exec_append (bufferMachine.exec_singleton hclear)
      (bufferMachine.exec_singleton hfill)⟩
  | drop count =>
    have hmove : bufferMachine.step self (.set_read_pos (min count 65535)) =
        some (self.set_read_pos (min count 65535), self.passed (min count 65535)) :=
      if_pos (Nat.min_le_right count 65535)
    exact ⟨_, _, bufferMachine.exec_singleton hmove⟩

/-- The buffer meets every request that the reference queue can meet. -/
theorem Holds.realized {self : RecvBuffer} {queue other : Queue UInt8 sizeof_buffer}
    {request : QueueRequest UInt8} {emitted : List UInt8} (hholds : Holds self queue)
    (hstep : (queueMachine UInt8 sizeof_buffer).step queue request = some (other, emitted)) :
    ∃ next, bufferMachine.exec self (realize request) = some (next, emitted) ∧
      Holds next other := by
  obtain ⟨next, log, hexec⟩ := hholds.enabled hstep
  obtain ⟨last, hqueue, hlast⟩ := fifoSimulation.exec hholds hexec
  -- The queue is deterministic, so what the buffer did is what was asked for.
  have hsame : (queueMachine UInt8 sizeof_buffer).exec queue
      ((realize request).flatMap BufferOp.requests) = some (other, emitted) := by
    cases request with
    | append items => exact Machine.exec_singleton _ hstep
    | drop count =>
      apply Machine.exec_singleton
      exact (step_drop_min queue count).trans hstep
  obtain ⟨rfl, rfl⟩ := Prod.mk.inj (Option.some.inj (hqueue.symm.trans hsame))
  exact ⟨next, hexec, hlast⟩

def fifoRealization : (queueMachine UInt8 sizeof_buffer).Simulation bufferMachine where
  Related := fun queue recv => Holds recv queue
  requests := realize
  matched := Holds.realized

/-- The whole capacity can be used. Every run of the reference queue is a run
    of the buffer in which it clears itself before it is filled. -/
theorem realized_of_exec {buffer : List UInt8} (hbuffer : buffer.length = sizeof_buffer)
    {requests : List (QueueRequest UInt8)} {queue : Queue UInt8 sizeof_buffer} {log : List UInt8}
    (hexec : (queueMachine UInt8 sizeof_buffer).exec (.empty UInt8 sizeof_buffer) requests =
      some (queue, log)) :
    ∃ self, bufferMachine.exec (.default_init buffer) (requests.flatMap realize) =
      some (self, log) ∧ self.unread = queue.items := by
  obtain ⟨self, hrun, hholds⟩ := fifoRealization.exec (holds_default_init hbuffer) hexec
  exact ⟨self, hrun, hholds.items.symm⟩

end topview.recv_buffer
