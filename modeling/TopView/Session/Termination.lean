import TopView.Session.ProcessRecv

open topview.recv_buffer topview.packet topview.framing topview.transition

namespace topview.session

/-- Taking complete packets off the front of `bytes` leads to a header that
    announces size zero. -/
def ZeroSizeAhead (bytes : List UInt8) : Prop :=
  ∃ packets rest, (packetSplitter 40960).Reaches bytes packets rest ∧ 4 ≤ rest.length ∧
    (PacketHeader.read rest).size = 0

/-- Every iteration of the loop started on `start` that does not break leaves
    fewer unread bytes. -/
def EveryIterationShrinks (start : RecvBuffer) : Prop :=
  ∀ dispatched recv dispatch next, Path iteration start dispatched recv →
    iteration recv = some (dispatch, next) → next.unread.length < recv.unread.length

theorem ZeroSizeAhead.of_next {bytes rest : List UInt8} {packet : Packet}
    (hnext : nextPacket 40960 bytes = some (packet, rest)) (hzero : ZeroSizeAhead rest) :
    ZeroSizeAhead bytes := by
  obtain ⟨packets, final, hreach, hheader, hsize⟩ := hzero
  exact ⟨packet :: packets, final, .head hnext hreach, hheader, hsize⟩

/-- With no zero size ahead, an iteration takes the next packet off the unread
    bytes and still has no zero size ahead. -/
theorem iteration_of_no_zero {recv next : RecvBuffer} (hvalid : recv.Valid)
    (hzero : ¬ ZeroSizeAhead recv.unread) {dispatch : Dispatch}
    (hiteration : iteration recv = some (dispatch, next)) :
    next.Valid ∧ ¬ ZeroSizeAhead next.unread ∧
      nextPacket 40960 recv.unread = some (dispatch.toPacket, next.unread) := by
  obtain ⟨hnextValid, _, _, hnext⟩ := iteration_spec hvalid hiteration
  have hpos : 0 < dispatch.header.size := by
    obtain ⟨hheader, _, rfl⟩ :=
      (present_eq_some_iff hvalid).mp (iteration_eq_some_iff.mp hiteration).1
    by_contra hnot
    exact hzero ⟨[], recv.unread, .refl _, hheader, by simpa using hnot⟩
  exact ⟨hnextValid, fun hahead => hzero (hahead.of_next (hnext hpos)), hnext hpos⟩

/-- With no zero size ahead, the iterations follow the packets of the unread bytes. -/
theorem Path.reaches {start final : RecvBuffer} {dispatched : List Dispatch}
    (path : Path iteration start dispatched final) (hvalid : start.Valid)
    (hzero : ¬ ZeroSizeAhead start.unread) :
    final.Valid ∧ (start.read_pos = 0 → final.read_pos = 0) ∧
      (packetSplitter 40960).Reaches start.unread (dispatched.map Dispatch.toPacket)
        final.unread := by
  induction path with
  | nil => exact ⟨hvalid, id, .refl _⟩
  | cons hbody _ ih =>
    obtain ⟨hnextValid, hnextZero, hnext⟩ := iteration_of_no_zero hvalid hzero hbody
    obtain ⟨hfinal, hread, hreach⟩ := ih hnextValid hnextZero
    exact ⟨hfinal, fun _ => hread (iteration_spec hvalid hbody).2.1, .head hnext hreach⟩

/-- With no zero size ahead the loop returns. It has presented the complete
    packets of the unread bytes, and what it leaves holds none. -/
theorem loop_iteration_spec {recv : RecvBuffer} (hvalid : recv.Valid)
    (hzero : ¬ ZeroSizeAhead recv.unread) {fuel : Nat} (hfuel : recv.unread.length < fuel) :
    ∃ dispatched final, loop iteration fuel recv = some (dispatched, final) ∧ final.Valid ∧
      (recv.read_pos = 0 → final.read_pos = 0) ∧
      (packetSplitter 40960).split recv.unread =
        (dispatched.map Dispatch.toPacket, final.unread) := by
  obtain ⟨dispatched, final, hpath, hbreak, hlength⟩ :=
    exists_path_of_decreasing
      (fun recv : RecvBuffer => recv.Valid ∧ ¬ ZeroSizeAhead recv.unread)
      (fun recv => recv.unread.length) (by
        rintro recv dispatch next ⟨hvalid, hzero⟩ hiteration
        obtain ⟨hnextValid, hnextZero, hnext⟩ := iteration_of_no_zero hvalid hzero hiteration
        exact ⟨⟨hnextValid, hnextZero⟩, (packetSplitter 40960).next_shrinks hnext⟩)
      ⟨hvalid, hzero⟩
  obtain ⟨hfinal, hread, hreach⟩ := Path.reaches hpath hvalid hzero
  refine ⟨dispatched, final, hpath.loop_eq hbreak (by omega), hfinal, hread, ?_⟩
  exact hreach.split_eq_of_next
    (next_eq_none_of_present hfinal (iteration_eq_none_iff.mp hbreak))

/-- A header of size zero at the front is presented again and again. -/
private theorem loop_stuck {recv : RecvBuffer} (hvalid : recv.Valid)
    (hheader : 4 ≤ recv.unread.length) (hsize : (PacketHeader.read recv.unread).size = 0)
    (fuel : Nat) : loop iteration fuel recv = none := by
  refine loop_eq_none_of_goes_on (fun recv => recv.Valid ∧ 4 ≤ recv.unread.length ∧
    (PacketHeader.read recv.unread).size = 0) ?_ ⟨hvalid, hheader, hsize⟩ fuel
  rintro recv ⟨hvalid, hheader, hsize⟩
  have hpresent : present recv = some ⟨recv, PacketHeader.read recv.unread⟩ :=
    (present_eq_some_iff hvalid).mpr ⟨hheader, by simp only [hsize]; omega, rfl⟩
  have hiteration := iteration_eq_some_iff.mpr ⟨hpresent, rfl⟩
  obtain ⟨hnext, _, hunread, _⟩ := iteration_spec hvalid hiteration
  rw [hsize, List.drop_zero] at hunread
  exact ⟨_, _, hiteration, hnext, by rw [hsize, hunread]; exact hheader,
    by rw [hsize, hunread]; exact hsize⟩

/-- A zero size ahead keeps the loop from returning, however many iterations
    it is given. -/
theorem loop_iteration_eq_none {recv : RecvBuffer} (hvalid : recv.Valid)
    (hzero : ZeroSizeAhead recv.unread) (fuel : Nat) : loop iteration fuel recv = none := by
  obtain ⟨packets, rest, hreach, hheader, hsize⟩ := hzero
  generalize hbytes : recv.unread = bytes at hreach
  induction hreach generalizing recv fuel with
  | refl =>
    subst hbytes
    exact loop_stuck hvalid hheader hsize fuel
  | head hnext _ ih =>
    subst hbytes
    obtain ⟨dispatch, next, hiteration, _, hrest⟩ := iteration_of_next hvalid hnext
    have hnextValid := (iteration_spec hvalid hiteration).1
    exact Path.loop_eq_none (.cons hiteration (.nil next))
      (fun fuel => ih hnextValid fuel hheader hsize hrest) fuel

/-- `ProcessRecv` returns, with every iteration that does not break shrinking
    the unread bytes, exactly when the read was empty or no header announcing
    size zero lies ahead. The buffer may hold any bytes at any positions. -/
theorem Connection.process_recv_returns_iff (self : Connection) (length : Nat)
    (hvalid : self.recv_buffer.Valid) :
    ((∃ fuel result, self.process_recv fuel length = some result) ∧
        (length ≠ 0 → EveryIterationShrinks self.recv_buffer)) ↔
      length = 0 ∨ ¬ ZeroSizeAhead self.recv_buffer.unread := by
  constructor
  · rintro ⟨⟨fuel, result, hreturns⟩, _⟩
    by_contra hnot
    obtain ⟨hlength, hzero⟩ := not_or.mp hnot
    rw [Connection.process_recv, if_neg hlength,
      loop_iteration_eq_none hvalid (not_not.mp hzero)] at hreturns
    cases hreturns
  · intro hcondition
    by_cases hlength : length = 0
    · have hreturns : self.process_recv 0 length = some ([], self.close) := by
        rw [Connection.process_recv, if_pos hlength]
      exact ⟨⟨0, _, hreturns⟩, fun hne => absurd hlength hne⟩
    · have hzero := hcondition.resolve_left hlength
      obtain ⟨dispatched, final, hloop, _⟩ :=
        loop_iteration_spec hvalid hzero (Nat.lt_succ_self _)
      refine ⟨⟨self.recv_buffer.unread.length + 1, (dispatched, { self with recv_buffer := final }), ?_⟩,
        ?_⟩
      · rw [Connection.process_recv, if_neg hlength, hloop]
        rfl
      · intro _ dispatched recv dispatch next hpath hiteration
        obtain ⟨hrecv, hclear⟩ := hpath.invariant
          (fun recv => recv.Valid ∧ ¬ ZeroSizeAhead recv.unread) (by
            rintro recv dispatch next ⟨hvalid, hzero⟩ hiteration
            obtain ⟨hnextValid, hnextZero, _⟩ := iteration_of_no_zero hvalid hzero hiteration
            exact ⟨hnextValid, hnextZero⟩) ⟨hvalid, hzero⟩
        exact (packetSplitter 40960).next_shrinks (iteration_of_no_zero hrecv hclear hiteration).2.2

/-- A packet that announces less than its header, and the front of a longer one. -/
def shortSize : List UInt8 := [1, 0, 7, 0, 0, 0, 0]

private theorem not_zeroSizeAhead_shortSize : ¬ ZeroSizeAhead shortSize := by
  rintro ⟨packets, rest, hreach, hheader, hsize⟩
  cases hreach with
  | refl => exact absurd hsize (by decide)
  | head hnext hlater =>
    have hfirst : nextPacket 40960 shortSize = some (⟨⟨1, 7⟩, []⟩, [0, 7, 0, 0, 0, 0]) := by decide
    obtain ⟨_, rfl⟩ := Prod.mk.inj (Option.some.inj (hfirst.symm.trans hnext))
    cases hlater with
    | refl => exact absurd hsize (by decide)
    | head hnone _ =>
      rw [show (packetSplitter 40960).next [0, 7, 0, 0, 0, 0] = none by decide] at hnone
      cases hnone

theorem Connection.process_recv_returns_iff_shortSize :
    (∃ fuel result, (Connection.new.receive shortSize).process_recv fuel 7 = some result) ∧
      EveryIterationShrinks (Connection.new.receive shortSize).recv_buffer := by
  have hroom : RecvBuffer.new.write_pos + shortSize.length ≤ 40960 := by decide
  obtain ⟨hvalid, _, _, hunread⟩ :=
    @RecvBuffer.Valid.store_spec RecvBuffer.new RecvBuffer.valid_new shortSize hroom
  have hzero : ¬ ZeroSizeAhead (Connection.new.receive shortSize).recv_buffer.unread := by
    rw [show (Connection.new.receive shortSize).recv_buffer.unread = shortSize from hunread]
    exact not_zeroSizeAhead_shortSize
  obtain ⟨hreturns, hshrinks⟩ := (Connection.process_recv_returns_iff
    (Connection.new.receive shortSize) 7 hvalid).mpr (.inr hzero)
  exact ⟨hreturns, hshrinks (by decide)⟩

/-- A first read of four bytes, the header of a chat packet announcing size zero. -/
theorem Connection.process_recv_zero_size_hangs :
    ¬ ∃ fuel result, (Connection.new.receive [0, 0, 1, 0]).process_recv fuel 4 = some result := by
  rintro ⟨fuel, result, hreturns⟩
  have hroom : RecvBuffer.new.write_pos + [0, 0, 1, 0].length ≤ 40960 := by decide
  obtain ⟨hvalid, _, _, hunread⟩ :=
    @RecvBuffer.Valid.store_spec RecvBuffer.new RecvBuffer.valid_new [0, 0, 1, 0] hroom
  have hzero : ZeroSizeAhead (Connection.new.receive [0, 0, 1, 0]).recv_buffer.unread :=
    ⟨[], [0, 0, 1, 0], hunread ▸ .refl _, by decide, by decide⟩
  rw [Connection.process_recv, if_neg (by decide),
    @loop_iteration_eq_none (Connection.new.receive [0, 0, 1, 0]).recv_buffer hvalid hzero]
    at hreturns
  cases hreturns

end topview.session
