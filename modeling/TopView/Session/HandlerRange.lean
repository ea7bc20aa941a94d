import TopView.PacketHandler
import TopView.Session.Reach

open topview.recv_buffer topview.packet topview.framing topview.transition
open topview.packet_handler

namespace topview.session

/-- The range `[pktData, pktData + len)` lies inside of the unread bytes. -/
structure Dispatch.InRange (dispatch : Dispatch) : Prop where
  len_nonneg : 0 ≤ dispatch.len
  read_pos_le : dispatch.recv_buffer.read_pos ≤ dispatch.pkt_data
  le_write_pos : dispatch.pkt_data + dispatch.len ≤ dispatch.recv_buffer.write_pos

/-- However the stream is cut into reads, every call of a registered handler is
    given a range of received bytes. -/
def HandlersInRange (stream : List UInt8) : Prop :=
  ∀ events reader log, readerMachine.exec Reader.start events = some (reader, log) →
    delivered events <+: stream → ∀ dispatch ∈ log, ∀ handler,
      lookup init dispatch.header.id = some (some handler) → dispatch.InRange

/-- Taking complete packets off the front of `bytes` leads to the header of a
    chat packet that announces less than its own four bytes. -/
def ShortChatAhead (bytes : List UInt8) : Prop :=
  ∃ packets rest, (packetSplitter 40960).Reaches bytes packets rest ∧ 4 ≤ rest.length ∧
    (PacketHeader.read rest).size < 4 ∧ (PacketHeader.read rest).id = C_CHAT

/-- A presented packet is in range exactly when it announces at least its header. -/
theorem Dispatch.inRange_iff {recv : RecvBuffer} (hvalid : recv.Valid) {dispatch : Dispatch}
    (hpresent : present recv = some dispatch) : dispatch.InRange ↔ 4 ≤ dispatch.header.size := by
  obtain ⟨hheader, hwhole, rfl⟩ := (present_eq_some_iff hvalid).mp hpresent
  have hlength := hvalid.length_unread
  have hread := hvalid.read_le_write
  have hlt := PacketHeader.size_read_lt recv.unread
  simp only at hwhole
  constructor
  · intro hrange
    by_contra hshort
    have hlen := hrange.len_nonneg
    rw [Dispatch.len_eq_of_lt (Nat.lt_of_not_le hshort)] at hlen
    simp only at hlen hshort
    omega
  · intro hsize
    have hlen := Dispatch.len_eq hsize hlt
    simp only at hlen hsize
    refine ⟨?_, ?_, ?_⟩
    · rw [hlen]
      omega
    · simp only [Dispatch.pkt_data]
      omega
    · rw [hlen]
      simp only [Dispatch.pkt_data, sizeof_packet_header]
      omega

/-- With no short chat header ahead every handler call is in range. -/
theorem handlersInRange_of_not_shortChatAhead {stream : List UInt8}
    (hshort : ¬ ShortChatAhead stream) : HandlersInRange stream := by
  intro events reader log hexec hdelivered dispatch hmem handler hlookup
  obtain ⟨hvalid, hpresent, packets, more, hreach⟩ :=
    (Reader.inv_of_exec hexec).presented dispatch hmem
  obtain ⟨hheader, _, heq⟩ := (present_eq_some_iff hvalid).mp hpresent
  apply (Dispatch.inRange_iff hvalid hpresent).mpr
  by_contra hsize
  obtain ⟨later, rfl⟩ := hdelivered
  rw [lookup_init_eq_some_iff, heq] at hlookup
  rw [heq] at hsize
  have hread : PacketHeader.read (dispatch.recv_buffer.unread ++ more ++ later) =
      PacketHeader.read dispatch.recv_buffer.unread := by
    rw [List.append_assoc, PacketHeader.read_append hheader]
  refine hshort ⟨packets, _, hreach.append later, ?_, ?_, ?_⟩
  · rw [List.append_assoc, List.length_append]
    omega
  · rw [hread]
    exact Nat.lt_of_not_le hsize
  · rw [hread]
    exact hlookup

/-- A short chat header ahead reaches the chat handler with a negative length. -/
theorem not_handlersInRange_of_shortChatAhead {stream : List UInt8}
    (hshort : ShortChatAhead stream) : ¬ HandlersInRange stream := by
  obtain ⟨packets, rest, hreach, hheader, hsize, hchat⟩ := hshort
  obtain ⟨events, conn, log, hexec, hdelivered, hvalid, hunread⟩ :=
    exists_run_to_header hreach hheader
  have hlength : conn.recv_buffer.unread.length = 4 := by
    rw [hunread, List.length_take]
    omega
  have hread : PacketHeader.read conn.recv_buffer.unread = PacketHeader.read rest := by
    conv_rhs => rw [← List.take_append_drop 4 rest]
    rw [hunread, PacketHeader.read_append (by rw [List.length_take]; omega)]
  obtain ⟨dispatch, hheader⟩ : ∃ dispatch : Dispatch, dispatch =
      ⟨conn.recv_buffer, PacketHeader.read conn.recv_buffer.unread⟩ := ⟨_, rfl⟩
  have hfew : dispatch.header.size < 4 := by
    rw [hheader, hread]
    exact hsize
  have hpresent : present conn.recv_buffer = some dispatch :=
    (present_eq_some_iff hvalid).mpr ⟨by omega, by omega, hheader⟩
  have hstep : readerMachine.step ⟨conn, .looping⟩ .present =
      some (⟨conn, .handling dispatch⟩, [dispatch]) := by
    simp [readerMachine, Reader.step, hpresent]
  have hlookup : lookup init dispatch.header.id = some (some .handle_c_chat) := by
    rw [lookup_init_eq_some_iff, hheader, hread]
    exact hchat
  intro hrange
  have hcall := hrange _ _ _ (readerMachine.exec_snoc hexec hstep)
    (by simpa [delivered] using hdelivered) dispatch (by simp) .handle_c_chat hlookup
  have hsize := (Dispatch.inRange_iff hvalid hpresent).mp hcall
  omega

/-- Handlers only see received bytes exactly when no chat packet of the stream
    announces less than its own header. -/
theorem handlersInRange_iff (stream : List UInt8) :
    HandlersInRange stream ↔ ¬ ShortChatAhead stream := by
  constructor
  · intro hrange hshort
    exact not_handlersInRange_of_shortChatAhead hshort hrange
  · exact handlersInRange_of_not_shortChatAhead

/-- Four bytes, the header of a chat packet that announces three bytes. -/
theorem not_handlersInRange_three : ¬ HandlersInRange [3, 0, 1, 0] :=
  not_handlersInRange_of_shortChatAhead
    ⟨[], [3, 0, 1, 0], .refl _, by decide, by decide, by decide⟩

end topview.session
