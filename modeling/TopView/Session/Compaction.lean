import TopView.PacketHandler
import TopView.Session.Framing
import TopView.Transition.Machine

open topview.recv_buffer topview.packet topview.packet_handler topview.framing topview.transition

namespace topview.session

/-- No cell is both in the source `[readPos, writePos)` and in the destination
    `[0, writePos - readPos)` of the `memcpy` in `Clear`. -/
def CopyDisjoint (recv : RecvBuffer) : Prop :=
  ∀ cell, recv.read_pos ≤ cell → cell < recv.write_pos → ¬ cell < recv.write_pos - recv.read_pos

/-- The buffer on which an iteration that has presented a packet calls `Clear`. -/
def Dispatch.cleared (self : Dispatch) : RecvBuffer :=
  self.recv_buffer.set_read_pos self.header.size

/-- Every `Clear` that a sequence of reads leads to copies between disjoint ranges. -/
def CopiesDisjoint (fuel : Nat) (conn : Connection) (reads : List (List UInt8)) : Prop :=
  ∃ dispatched final, conn.deliver fuel reads = some (dispatched, final) ∧
    ∀ dispatch ∈ dispatched, CopyDisjoint dispatch.cleared

/-- When a read completes a frame, what it brings behind the end of the frame is
    no longer than the frame. The first `held` bytes of the frames have arrived
    before. -/
def ReadsCompact {limit : Nat} (held : Nat) (frames : List (Frame limit))
    (reads : List (List UInt8)) : Prop :=
  ∀ before read after front frame back, reads = before ++ read :: after →
    frames = front ++ frame :: back →
    held + before.flatten.length < (front.flatMap Frame.encode).length + frame.size →
    (front.flatMap Frame.encode).length + frame.size ≤
      held + before.flatten.length + read.length →
    held + before.flatten.length + read.length ≤
      (front.flatMap Frame.encode).length + frame.size + frame.size

theorem copyDisjoint_iff {recv : RecvBuffer} (hvalid : recv.Valid) :
    CopyDisjoint recv ↔ recv.unread = [] ∨ recv.write_pos - recv.read_pos ≤ recv.read_pos := by
  have hlength := hvalid.length_unread
  rw [← List.length_eq_zero_iff, hlength]
  constructor
  · intro hdisjoint
    by_cases hempty : recv.write_pos - recv.read_pos = 0
    · exact .inl hempty
    · have hfirst := hdisjoint recv.read_pos (Nat.le_refl _) (by omega)
      exact .inr (Nat.le_of_not_lt hfirst)
  · intro hcases cell hread hwrite
    omega

/-- The copy behind a presented packet is between disjoint ranges exactly when
    no more unread bytes follow the packet than it has itself. -/
theorem copyDisjoint_cleared_iff {recv : RecvBuffer} (hvalid : recv.Valid)
    (hread : recv.read_pos = 0) {dispatch : Dispatch} (hpresent : present recv = some dispatch) :
    CopyDisjoint dispatch.cleared ↔
      recv.unread.length ≤ dispatch.header.size + dispatch.header.size := by
  obtain ⟨_, hwhole, hdispatch⟩ := (present_eq_some_iff hvalid).mp hpresent
  have hrecv : dispatch.recv_buffer = recv := by rw [hdispatch]
  have hlength := hvalid.length_unread
  obtain ⟨hmoved, hunread⟩ := hvalid.set_read_pos_spec hwhole
  have hpositions := @RecvBuffer.Valid.set_read_pos_of_le recv hvalid dispatch.header.size (by omega)
  rw [Dispatch.cleared, hrecv, copyDisjoint_iff hmoved, hunread, List.drop_eq_nil_iff, hpositions]
  simp only
  omega

/-- The copies of one run of the loop, in terms of the packets it presents. -/
theorem copyDisjoint_path_iff {limit : Nat} {recv final : RecvBuffer}
    {dispatched : List Dispatch} (path : Path iteration recv dispatched final)
    (hvalid : recv.Valid) (hread : recv.read_pos = 0) {whole : List (Frame limit)}
    (hpackets : dispatched.map Dispatch.toPacket = whole.map Frame.toPacket) :
    (∀ dispatch ∈ dispatched, CopyDisjoint dispatch.cleared) ↔
      ∀ front frame back, whole = front ++ frame :: back →
        recv.unread.length ≤
          (front.flatMap Frame.encode).length + frame.size + frame.size := by
  induction path generalizing whole with
  | nil =>
    obtain rfl := List.map_eq_nil_iff.mp hpackets.symm
    simp
  | @cons recv next final dispatch dispatched hbody _ ih =>
    cases whole with
    | nil => cases hpackets
    | cons first whole =>
      obtain ⟨hfirst, hrest⟩ := List.cons.inj hpackets
      have hsize : dispatch.header.size = first.size :=
        congrArg (fun packet => packet.header.size) hfirst
      have hpresent := (iteration_eq_some_iff.mp hbody).1
      have hwhole := ((present_eq_some_iff hvalid).mp hpresent).2.1
      obtain ⟨hnext, hzero, hunread, _⟩ := iteration_spec hvalid hbody
      have hlength : next.unread.length = recv.unread.length - first.size := by
        rw [hunread, List.length_drop, hsize]
      rw [List.forall_mem_cons, copyDisjoint_cleared_iff hvalid hread hpresent,
        ih hnext hzero hrest, hsize, hlength]
      rw [hsize] at hwhole
      constructor
      · rintro ⟨hhead, htail⟩ front frame back hsplit
        cases front with
        | nil =>
          obtain ⟨rfl, _⟩ := List.cons.inj hsplit
          simpa using hhead
        | cons other front =>
          obtain ⟨rfl, hlater⟩ := List.cons.inj hsplit
          have hbehind := htail front frame back hlater
          rw [List.flatMap_cons, List.length_append, Frame.length_encode]
          omega
      · intro hall
        refine ⟨by simpa using hall [] first whole rfl, ?_⟩
        rintro front frame back rfl
        have hbehind := hall (first :: front) frame back rfl
        rw [List.flatMap_cons, List.length_append, Frame.length_encode] at hbehind
        omega

/-- One read at rest, on a stream of frames. -/
theorem Connection.AtRest.on_read_copies {conn : Connection} (hrest : conn.AtRest)
    {bytes : List UInt8} (hne : bytes ≠ [])
    (hfit : bytes.length ≤ conn.recv_buffer.get_writable_size) {frames : List (Frame 40960)}
    (hfront : conn.recv_buffer.unread ++ bytes <+: frames.flatMap Frame.encode) {fuel : Nat}
    (hfuel : 40960 < fuel) :
    ∃ dispatched next whole later, conn.on_read fuel bytes = some (dispatched, next) ∧
      next.AtRest ∧ frames = whole ++ later ∧
      conn.recv_buffer.unread ++ bytes =
        whole.flatMap Frame.encode ++ next.recv_buffer.unread ∧
      next.recv_buffer.unread <+: later.flatMap Frame.encode ∧
      ((∀ dispatch ∈ dispatched, CopyDisjoint dispatch.cleared) ↔
        ∀ front frame back, whole = front ++ frame :: back →
          conn.recv_buffer.unread.length + bytes.length ≤
            (front.flatMap Frame.encode).length + frame.size + frame.size) := by
  obtain ⟨dispatched, next, hread, hnext, hsplit⟩ := hrest.on_read_spec hne hfit
    (not_zeroSizeAhead_of_front capacity_lt hfront) hfuel
  have hreach := (packetSplitter 40960).split_reaches (conn.recv_buffer.unread ++ bytes)
  rw [hsplit] at hreach
  obtain ⟨whole, later, hframes, hpackets, hstream, hlater⟩ :=
    reaches_of_front capacity_lt hreach hfront
  refine ⟨dispatched, next, whole, later, hread, hnext, hframes, hstream, hlater, ?_⟩
  obtain ⟨_, hvalid, hzero, hunread⟩ := hrest.receive_spec hfit
  have hlength : bytes.length ≠ 0 := by simpa using hne
  simp only [Connection.on_read, Connection.process_recv, if_neg hlength,
    Option.map_eq_some_iff, Prod.exists, Prod.mk.injEq] at hread
  obtain ⟨outputs, final, hloop, rfl, _⟩ := hread
  rw [copyDisjoint_path_iff (path_of_loop_eq hloop).1 hvalid hzero hpackets, hunread,
    List.length_append]

/-- At rest the unread bytes are fewer than the next frame has. -/
theorem Connection.AtRest.length_unread_lt {conn : Connection} (hrest : conn.AtRest)
    {frames : List (Frame 40960)} {frame : Frame 40960}
    (hfront : conn.recv_buffer.unread <+: (frame :: frames).flatMap Frame.encode) :
    conn.recv_buffer.unread.length < frame.size := by
  by_contra hwhole
  rw [List.flatMap_cons] at hfront
  obtain ⟨rest, hunread⟩ := List.prefix_of_prefix_length_le (List.prefix_append frame.encode _)
    hfront (by rw [Frame.length_encode]; exact Nat.le_of_not_lt hwhole)
  have hnext := frame.nextPacket_encode capacity_lt frame.size_le rest
  rw [hunread, hrest.incomplete] at hnext
  cases hnext

/-- The condition on a sequence of reads is one on the frames that the first
    read completes, and the same one on the others. -/
theorem readsCompact_cons_iff {held left : Nat} {whole later : List (Frame 40960)}
    {read : List UInt8} {reads : List (List UInt8)}
    (hlength : held + read.length = (whole.flatMap Frame.encode).length + left)
    (hheld : ∀ frame back, whole ++ later = frame :: back → held < frame.size)
    (hleft : ∀ frame back, later = frame :: back → left < frame.size) :
    ReadsCompact held (whole ++ later) (read :: reads) ↔
      (∀ front frame back, whole = front ++ frame :: back →
        held + read.length ≤ (front.flatMap Frame.encode).length + frame.size + frame.size) ∧
      ReadsCompact left later reads := by
  constructor
  · intro hcompact
    refine ⟨?_, ?_⟩
    · rintro front frame back rfl
      have hfirst : held < (front.flatMap Frame.encode).length + frame.size := by
        cases front with
        | nil => simpa using hheld frame (back ++ later) rfl
        | cons first front =>
          have hless := hheld first (front ++ frame :: back ++ later) rfl
          rw [List.flatMap_cons, List.length_append, Frame.length_encode]
          omega
      have hbound := hcompact [] read reads front frame (back ++ later) rfl (by simp)
      simp only [List.flatMap_append, List.flatMap_cons, List.length_append,
        Frame.length_encode] at hlength
      simp only [List.flatten_nil, List.length_nil, Nat.add_zero] at hbound
      exact hbound hfirst (by omega)
    · rintro before other after front frame back rfl rfl hstart hend
      have hbound := hcompact (read :: before) other after (whole ++ front) frame back rfl (by simp)
      simp only [List.flatten_cons, List.flatMap_append, List.length_append] at hbound
      have hresult := hbound (by omega) (by omega)
      omega
  · rintro ⟨hwhole, hlater⟩ before other after front frame back hreads hframes hstart hend
    have hplace : (∃ right, whole = front ++ frame :: right ∧ back = right ++ later) ∨
        ∃ middle, front = whole ++ middle ∧ later = middle ++ frame :: back :=
      append_eq_append_cons_iff.mp hframes
    cases before with
    | nil =>
      obtain ⟨rfl, rfl⟩ := List.cons.inj hreads
      simp only [List.flatten_nil, List.length_nil, Nat.add_zero] at hend ⊢
      rcases hplace with ⟨right, hsplit, _⟩ | ⟨middle, rfl, hsplit⟩
      · exact hwhole front frame right hsplit
      · -- the frame is still incomplete after the first read
        simp only [List.flatMap_append, List.length_append] at hend
        have hless : left < (middle.flatMap Frame.encode).length + frame.size := by
          cases middle with
          | nil => simpa using hleft frame back hsplit
          | cons first middle =>
            have := hleft first (middle ++ frame :: back) hsplit
            rw [List.flatMap_cons, List.length_append, Frame.length_encode]
            omega
        omega
    | cons first before =>
      obtain ⟨rfl, rfl⟩ := List.cons.inj hreads
      simp only [List.flatten_cons, List.length_append] at hstart hend ⊢
      rcases hplace with ⟨right, rfl, _⟩ | ⟨middle, rfl, hsplit⟩
      · -- the frame has been completed by the first read
        simp only [List.flatMap_append, List.flatMap_cons, List.length_append,
          Frame.length_encode] at hlength
        omega
      · simp only [List.flatMap_append, List.length_append] at hstart hend ⊢
        have hbound := hlater before other after middle frame back rfl hsplit (by omega) (by omega)
        omega

theorem copiesDisjoint_cons_iff {fuel : Nat} {conn next : Connection} {read : List UInt8}
    {reads : List (List UInt8)} {dispatched : List Dispatch} (hopen : conn.is_open = true)
    (hread : conn.on_read fuel read = some (dispatched, next)) :
    CopiesDisjoint fuel conn (read :: reads) ↔
      (∀ dispatch ∈ dispatched, CopyDisjoint dispatch.cleared) ∧
        CopiesDisjoint fuel next reads := by
  simp only [CopiesDisjoint, Connection.deliver, hopen, if_true, hread, Option.bind_some,
    Option.map_eq_some_iff, Prod.exists, Prod.mk.injEq]
  constructor
  · rintro ⟨_, final, ⟨later, _, hdeliver, rfl, rfl⟩, hall⟩
    exact ⟨fun dispatch hmem => hall dispatch (List.mem_append_left _ hmem), later, _, hdeliver,
      fun dispatch hmem => hall dispatch (List.mem_append_right _ hmem)⟩
  · rintro ⟨hfirst, later, final, hdeliver, hlater⟩
    refine ⟨_, final, ⟨later, final, hdeliver, rfl, rfl⟩, ?_⟩
    intro dispatch hmem
    rcases List.mem_append.mp hmem with hbefore | hafter
    · exact hfirst dispatch hbefore
    · exact hlater dispatch hafter

theorem Connection.AtRest.copiesDisjoint_iff {conn : Connection} (hrest : conn.AtRest)
    {frames : List (Frame 40960)} {reads : List (List UInt8)} (hne : ∀ read ∈ reads, read ≠ [])
    (hfront : conn.recv_buffer.unread ++ reads.flatten <+: frames.flatMap Frame.encode)
    {fuel : Nat} (hfuel : 40960 < fuel) (hfit : ReadsFit fuel conn reads) :
    CopiesDisjoint fuel conn reads ↔ ReadsCompact conn.recv_buffer.unread.length frames reads := by
  induction reads generalizing conn frames with
  | nil =>
    constructor
    · intro _ before read after _ _ _ hreads
      simp at hreads
    · intro _
      exact ⟨[], conn, rfl, by simp⟩
  | cons read reads ih =>
    rw [List.flatten_cons, ← List.append_assoc] at hfront
    obtain ⟨dispatched, next, whole, later, hread, hnext, rfl, hstream, hlater, hcopies⟩ :=
      hrest.on_read_copies (hne read List.mem_cons_self) hfit.head
        ((List.prefix_append _ _).trans hfront) hfuel
    have htail : next.recv_buffer.unread ++ reads.flatten <+: later.flatMap Frame.encode := by
      rw [hstream, List.flatMap_append, List.append_assoc] at hfront
      exact (List.prefix_append_right_inj _).mp hfront
    have hlength := congrArg List.length hstream
    rw [List.length_append, List.length_append] at hlength
    rw [copiesDisjoint_cons_iff hrest.is_open hread, hcopies,
      ih hnext (fun other hmem => hne other (List.mem_cons_of_mem _ hmem)) htail
        (hfit.tail hrest.is_open hread), readsCompact_cons_iff hlength]
    · intro frame back hframes
      rw [hframes, List.append_assoc] at hfront
      exact hrest.length_unread_lt ((List.prefix_append _ _).trans hfront)
    · rintro frame back rfl
      exact hnext.length_unread_lt hlater

/-- On a stream of frames the copies of `Clear` are between disjoint ranges
    exactly when no read that completes a frame brings more bytes behind the end
    of the frame than the frame has. -/
theorem copiesDisjoint_iff_readsCompact (frames : List (Frame 40960)) (reads : List (List UInt8))
    (hne : ∀ read ∈ reads, read ≠ []) (hfront : reads.flatten <+: frames.flatMap Frame.encode)
    (fuel : Nat) (hfuel : 40960 < fuel) (hfit : ReadsFit fuel Connection.new reads) :
    CopiesDisjoint fuel Connection.new reads ↔ ReadsCompact 0 frames reads :=
  Connection.atRest_new.copiesDisjoint_iff hne hfront hfuel hfit

theorem c_chat_lt : C_CHAT < 2 ^ 16 := by decide

/-- Chat frames of five and of six bytes. -/
def unevenFrames : List (Frame 40960) :=
  [⟨C_CHAT, [7], c_chat_lt, by decide⟩, ⟨C_CHAT, [8, 9], c_chat_lt, by decide⟩]

/-- The frames are completed by a read each. The first read brings two bytes of
    the second frame. -/
def apartReads : List (List UInt8) := [[5, 0, 1, 0, 7, 6, 0], [1, 0, 8, 9]]

private theorem readsCompact_apartReads : ReadsCompact 0 unevenFrames apartReads := by
  have hfirst := @readsCompact_cons_iff 0 2 [⟨C_CHAT, [7], c_chat_lt, by decide⟩]
    [⟨C_CHAT, [8, 9], c_chat_lt, by decide⟩] [5, 0, 1, 0, 7, 6, 0] [[1, 0, 8, 9]] rfl
  have hsecond := @readsCompact_cons_iff 2 0 [⟨C_CHAT, [8, 9], c_chat_lt, by decide⟩] []
    [1, 0, 8, 9] [] rfl
  refine (hfirst ?_ ?_).mpr ⟨?_, (hsecond ?_ ?_).mpr ⟨?_, ?_⟩⟩
  · rintro frame back hframes
    obtain ⟨rfl, _⟩ := List.cons.inj hframes
    decide
  · rintro frame back hframes
    obtain ⟨rfl, _⟩ := List.cons.inj hframes
    decide
  · intro front frame back hframes
    obtain ⟨rfl, rfl, _⟩ : front = [] ∧ frame = _ ∧ back = [] := by
      simpa [List.singleton_eq_append_iff] using hframes
    decide
  · rintro frame back hframes
    obtain ⟨rfl, _⟩ := List.cons.inj hframes
    decide
  · rintro frame back hframes
    cases hframes
  · intro front frame back hframes
    obtain ⟨rfl, rfl, _⟩ : front = [] ∧ frame = _ ∧ back = [] := by
      simpa [List.singleton_eq_append_iff] using hframes
    decide
  · intro before read after front frame back hreads
    simp at hreads

theorem copiesDisjoint_iff_readsCompact_apart : CopiesDisjoint 40961 Connection.new apartReads := by
  have hne : ∀ read ∈ apartReads, read ≠ [] := by decide
  have hfront : apartReads.flatten <+: unevenFrames.flatMap Frame.encode := ⟨[], rfl⟩
  have hfit : ReadsFit 40961 Connection.new apartReads :=
    Connection.atRest_new.readsFit hne (not_zeroSizeAhead_of_front capacity_lt hfront) (by decide)
      (by decide)
  exact (copiesDisjoint_iff_readsCompact unevenFrames apartReads hne hfront 40961 (by decide)
    hfit).mpr readsCompact_apartReads

/-- In one read the six bytes of the second frame are copied to the front over
    cells of their own. -/
theorem not_copiesDisjoint_together :
    [[5, 0, 1, 0, 7, 6, 0, 1, 0, 8, 9]].flatten = unevenFrames.flatMap Frame.encode ∧
      ReadsFit 40961 Connection.new [[5, 0, 1, 0, 7, 6, 0, 1, 0, 8, 9]] ∧
      ¬ CopiesDisjoint 40961 Connection.new [[5, 0, 1, 0, 7, 6, 0, 1, 0, 8, 9]] := by
  have hstream : [[5, 0, 1, 0, 7, 6, 0, 1, 0, 8, 9]].flatten =
      unevenFrames.flatMap Frame.encode := rfl
  have hfront : Connection.new.recv_buffer.unread ++
      [[5, 0, 1, 0, 7, 6, 0, 1, 0, 8, 9]].flatten <+: unevenFrames.flatMap Frame.encode := by
    rw [hstream]
    exact List.prefix_rfl
  have hfit : ReadsFit 40961 Connection.new [[5, 0, 1, 0, 7, 6, 0, 1, 0, 8, 9]] :=
    Connection.atRest_new.readsFit (by simp) (not_zeroSizeAhead_of_front capacity_lt hfront)
      (by decide) (by decide)
  refine ⟨hstream, hfit, ?_⟩
  intro hdisjoint
  have hcompact := (Connection.atRest_new.copiesDisjoint_iff (by simp) hfront (by decide) hfit).mp
    hdisjoint
  have hbound := hcompact [] _ [] [] _ _ rfl rfl (by decide) (by decide)
  exact absurd hbound (by decide)

end topview.session
