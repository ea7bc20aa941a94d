import TopView.Packet
import TopView.PacketHandler
import TopView.RecvBuffer

open topview.recv_buffer topview.packet topview.packet_handler topview.framing

namespace topview.session

/-- `sendBuffer` and `writePos`, as an offset into it. -/
structure SendCursor where
  send_buffer : List UInt8
  write_pos : Nat
  deriving DecidableEq, Repr

/-- A freshly allocated buffer. -/
def SendCursor.new (size : Nat) : SendCursor :=
  { send_buffer := List.replicate size 0, write_pos := 0 }

/-- Copy bytes to the write position and advance it. `none` is a copy that
    leaves the allocated bytes. -/
def SendCursor.write (cursor : SendCursor) (bytes : List UInt8) : Option SendCursor :=
  if cursor.write_pos + bytes.length ≤ cursor.send_buffer.length then
    some { send_buffer := memcpy cursor.send_buffer cursor.write_pos bytes
           write_pos := cursor.write_pos + bytes.length }
  else none

/-- The first loop. The list of payloads is itself in memory, which keeps the
    sum far below the range of `size_t`. -/
def total_size (packet_list : List (List UInt8)) : Nat :=
  packet_list.foldl (fun total payload => total + (payload.length + 4)) 0

/-- The body of the second loop. -/
def SendCursor.write_packet (cursor : SendCursor) (payload : List UInt8) : Option SendCursor := do
  let payload_size := toUInt16 payload.length
  let packet_size := toUInt16 (payload_size + 4)
  let packet_id := S_CHAT
  let cursor ← cursor.write (uint16Bytes packet_size)
  let cursor ← cursor.write (uint16Bytes packet_id)
  cursor.write (payload.take payload_size)

/-- The buffer of the whole batch, as both loops leave it. -/
def fill_send_buffer (packet_list : List (List UInt8)) : Option SendCursor :=
  packet_list.foldlM SendCursor.write_packet (.new (total_size packet_list))

/-- `Session::Send` up to `async_write`. The outer `none` is a copy that leaves
    the buffer, the inner one a return without a write. -/
def send (packet_list : List (List UInt8)) : Option (Option SendCursor) :=
  if packet_list.length = 0 then some none else (fill_send_buffer packet_list).map some

/-- The bytes that a batch hands to `async_write`. -/
def encode (packet_list : List (List UInt8)) : List UInt8 :=
  (send packet_list).elim [] fun result => result.elim [] SendCursor.send_buffer

/-- The bytes behind which the cursor stands. -/
def SendCursor.written (cursor : SendCursor) : List UInt8 :=
  cursor.send_buffer.take cursor.write_pos

/-- The bytes that one payload contributes. -/
def packetBytes (payload : List UInt8) : List UInt8 :=
  uint16Bytes (toUInt16 (toUInt16 payload.length + 4)) ++
    (uint16Bytes S_CHAT ++ payload.take (toUInt16 payload.length))

theorem length_packetBytes (payload : List UInt8) :
    (packetBytes payload).length = toUInt16 payload.length + 4 := by
  have hle : toUInt16 payload.length ≤ payload.length := Nat.mod_le _ _
  simp only [packetBytes, List.length_append, length_uint16Bytes, List.length_take]
  omega

/-- A copy that stays inside of the buffer extends what has been written. -/
theorem SendCursor.write_spec (cursor : SendCursor) (bytes : List UInt8)
    (hroom : cursor.write_pos + bytes.length ≤ cursor.send_buffer.length) :
    ∃ next, cursor.write bytes = some next ∧ next.written = cursor.written ++ bytes ∧
      next.write_pos = cursor.write_pos + bytes.length ∧
      next.send_buffer.length = cursor.send_buffer.length := by
  refine ⟨_, if_pos hroom, ?_, rfl, ?_⟩
  · have hfront : (cursor.send_buffer.take cursor.write_pos).length = cursor.write_pos := by
      rw [List.length_take]
      omega
    simp only [SendCursor.written, memcpy, List.append_assoc]
    rw [List.take_append, List.take_of_length_le (by omega), hfront, Nat.add_sub_cancel_left,
      List.take_left]
  · simp only [memcpy, List.length_append, List.length_take, List.length_drop]
    omega

theorem SendCursor.write_eq_none_iff {cursor : SendCursor} {bytes : List UInt8} :
    cursor.write bytes = none ↔
      cursor.send_buffer.length < cursor.write_pos + bytes.length := by
  rw [SendCursor.write, ite_eq_right_iff, imp_iff_not (by simp), Nat.not_le]

/-- The body of the second loop needs no more room than the first loop counted. -/
theorem SendCursor.write_packet_spec (cursor : SendCursor) (payload : List UInt8)
    (hroom : cursor.write_pos + (payload.length + 4) ≤ cursor.send_buffer.length) :
    ∃ next, cursor.write_packet payload = some next ∧
      next.written = cursor.written ++ packetBytes payload ∧
      next.write_pos = cursor.write_pos + (packetBytes payload).length ∧
      next.send_buffer.length = cursor.send_buffer.length := by
  have hle : toUInt16 payload.length ≤ payload.length := Nat.mod_le _ _
  have htake : (payload.take (toUInt16 payload.length)).length = toUInt16 payload.length := by
    rw [List.length_take]
    omega
  obtain ⟨first, hfirst, hsize, hfirstPos, hfirstLength⟩ := SendCursor.write_spec
    cursor (uint16Bytes (toUInt16 (toUInt16 payload.length + 4))) (by rw [length_uint16Bytes]; omega)
  rw [length_uint16Bytes] at hfirstPos
  obtain ⟨second, hsecond, hid, hsecondPos, hsecondLength⟩ := SendCursor.write_spec
    first (uint16Bytes S_CHAT) (by rw [length_uint16Bytes]; omega)
  rw [length_uint16Bytes] at hsecondPos
  obtain ⟨third, hthird, hbody, hthirdPos, hthirdLength⟩ := SendCursor.write_spec
    second (payload.take (toUInt16 payload.length)) (by omega)
  refine ⟨third, ?_, ?_, ?_, ?_⟩
  · simp only [SendCursor.write_packet, hfirst, hsecond, hthird, Option.bind_eq_bind,
      Option.bind_some]
  · rw [hbody, hid, hsize, packetBytes, List.append_assoc, List.append_assoc]
  · rw [hthirdPos, hsecondPos, hfirstPos, length_packetBytes, htake]
    omega
  · rw [hthirdLength, hsecondLength, hfirstLength]

theorem foldl_total_size (packet_list : List (List UInt8)) (total : Nat) :
    packet_list.foldl (fun total payload => total + (payload.length + 4)) total =
      total + total_size packet_list := by
  induction packet_list generalizing total with
  | nil => rfl
  | cons payload packet_list ih =>
    rw [total_size, List.foldl_cons, List.foldl_cons, ih, ih (0 + _)]
    omega

theorem total_size_cons (payload : List UInt8) (packet_list : List (List UInt8)) :
    total_size (payload :: packet_list) = payload.length + 4 + total_size packet_list := by
  rw [total_size, List.foldl_cons, foldl_total_size, Nat.zero_add]

/-- The second loop stays inside of the room that the first loop counted. -/
theorem foldlM_write_packet_spec (packet_list : List (List UInt8)) (cursor : SendCursor)
    (hroom : cursor.write_pos + total_size packet_list ≤ cursor.send_buffer.length) :
    ∃ final, packet_list.foldlM SendCursor.write_packet cursor = some final ∧
      final.written = cursor.written ++ packet_list.flatMap packetBytes ∧
      final.write_pos = cursor.write_pos + (packet_list.flatMap packetBytes).length ∧
      final.send_buffer.length = cursor.send_buffer.length := by
  induction packet_list generalizing cursor with
  | nil => exact ⟨cursor, rfl, by simp, by simp, rfl⟩
  | cons payload packet_list ih =>
    rw [total_size_cons] at hroom
    have hlength := length_packetBytes payload
    have hle : toUInt16 payload.length ≤ payload.length := Nat.mod_le _ _
    obtain ⟨next, hnext, hwritten, hpos, hsame⟩ :=
      SendCursor.write_packet_spec cursor payload (by omega)
    obtain ⟨final, hfinal, hall, hend, hkept⟩ := ih next (by omega)
    refine ⟨final, ?_, ?_, ?_, ?_⟩
    · rw [List.foldlM_cons, hnext]
      exact hfinal
    · rw [hall, hwritten, List.flatMap_cons, List.append_assoc]
    · rw [hend, hpos, List.flatMap_cons, List.length_append, Nat.add_assoc]
    · rw [hkept, hsame]

/-- Whatever the sizes of the payloads, no copy leaves the buffer. -/
theorem fill_send_buffer_spec (packet_list : List (List UInt8)) :
    ∃ cursor, fill_send_buffer packet_list = some cursor ∧
      cursor.send_buffer.length = total_size packet_list ∧
      cursor.written = packet_list.flatMap packetBytes ∧
      cursor.write_pos = (packet_list.flatMap packetBytes).length := by
  obtain ⟨cursor, hfill, hwritten, hpos, hlength⟩ := foldlM_write_packet_spec packet_list
    (.new (total_size packet_list)) (by simp [SendCursor.new])
  refine ⟨cursor, hfill, ?_, ?_, ?_⟩
  · rw [hlength, SendCursor.new, List.length_replicate]
  · rw [hwritten]
    simp [SendCursor.written, SendCursor.new]
  · rw [hpos, SendCursor.new, Nat.zero_add]

/-- A batch is either empty and not written, or its buffer is. -/
theorem send_cases (packet_list : List (List UInt8)) :
    packet_list = [] ∧ send packet_list = some none ∧ encode packet_list = [] ∨
      packet_list ≠ [] ∧ ∃ cursor, send packet_list = some (some cursor) ∧
        encode packet_list = cursor.send_buffer := by
  cases packet_list with
  | nil => exact .inl ⟨rfl, rfl, rfl⟩
  | cons payload packet_list =>
    obtain ⟨cursor, hfill, _⟩ := fill_send_buffer_spec (payload :: packet_list)
    have hsend : send (payload :: packet_list) = some (some cursor) := by
      simp [send, hfill]
    exact .inr ⟨by simp, cursor, hsend, by simp [encode, hsend]⟩

theorem length_flatMap_packetBytes (packet_list : List (List UInt8))
    (hsize : ∀ payload ∈ packet_list, payload.length < 2 ^ 16) :
    (packet_list.flatMap packetBytes).length = total_size packet_list := by
  induction packet_list with
  | nil => rfl
  | cons payload packet_list ih =>
    rw [total_size_cons, List.flatMap_cons, List.length_append, length_packetBytes,
      toUInt16_of_lt (hsize payload List.mem_cons_self),
      ih (fun other hmem => hsize other (List.mem_cons_of_mem _ hmem))]

/-- When no length is truncated, the copies fill the buffer exactly. -/
theorem fill_send_buffer_eq_some (packet_list : List (List UInt8))
    (hsize : ∀ payload ∈ packet_list, payload.length < 2 ^ 16) :
    fill_send_buffer packet_list =
      some ⟨packet_list.flatMap packetBytes, total_size packet_list⟩ := by
  obtain ⟨cursor, hfill, hlength, hwritten, hpos⟩ := fill_send_buffer_spec packet_list
  rw [length_flatMap_packetBytes packet_list hsize] at hpos
  have hwhole : cursor.written = cursor.send_buffer := by
    rw [SendCursor.written, hpos, ← hlength, List.take_length]
  rw [hfill, ← hpos, ← hwritten, hwhole]

/-- `Send` writes the packets of a batch one behind the other. -/
theorem encode_eq_flatMap {packet_list : List (List UInt8)}
    (hsize : ∀ payload ∈ packet_list, payload.length < 2 ^ 16) :
    encode packet_list = packet_list.flatMap packetBytes := by
  cases packet_list with
  | nil => rfl
  | cons payload packet_list =>
    simp [encode, send, fill_send_buffer_eq_some _ hsize]

theorem encode_singleton {payload : List UInt8} (hsize : payload.length < 2 ^ 16) :
    encode [payload] = packetBytes payload := by
  rw [encode_eq_flatMap, List.flatMap_singleton]
  intro other hmem
  rw [List.mem_singleton.mp hmem]
  exact hsize

/-- The packet that a payload is sent as. -/
def chatPacket (payload : List UInt8) : Packet := ⟨⟨payload.length + 4, S_CHAT⟩, payload⟩

theorem packetBytes_eq_encode {payload : List UInt8} (hsize : payload.length + 4 ≤ 65535) :
    packetBytes payload = (Frame.mk S_CHAT payload (by decide) hsize).encode := by
  simp only [packetBytes, Frame.encode, Frame.size]
  rw [toUInt16_of_lt (show payload.length < 2 ^ 16 by omega),
    toUInt16_of_lt (show payload.length + 4 < 2 ^ 16 by omega), List.take_length]

/-- Payloads that fit into a 16-bit size are read back from what is sent. -/
theorem reaches_packetBytes (packet_list : List (List UInt8))
    (hsize : ∀ payload ∈ packet_list, payload.length ≤ 65531) (more : List UInt8) :
    (packetSplitter 65535).Reaches (packet_list.flatMap packetBytes ++ more)
      (packet_list.map chatPacket) more := by
  induction packet_list with
  | nil => exact .refl more
  | cons payload packet_list ih =>
    have hfirst := hsize payload List.mem_cons_self
    rw [List.flatMap_cons, List.append_assoc,
      packetBytes_eq_encode (show payload.length + 4 ≤ 65535 by omega)]
    refine .head (Frame.nextPacket_encode (by decide) _ ?_ _) (ih ?_)
    · simp only [Frame.size]
      omega
    · intro other hmem
      exact hsize other (List.mem_cons_of_mem _ hmem)

/-- Sending is inverse to the server's own framing. Every copy stays inside of
    the allocated bytes and the cursor ends at their end. The buffer splits
    into the payloads, in order, as chat packets with nothing left over. Only
    an empty list is not written at all. -/
theorem send_referenceParse (packet_list : List (List UInt8))
    (hsize : ∀ payload ∈ packet_list, payload.length ≤ 65531) :
    ∃ cursor, fill_send_buffer packet_list = some cursor ∧
      send packet_list = some (if packet_list = [] then none else some cursor) ∧
      cursor.send_buffer.length = total_size packet_list ∧
      cursor.write_pos = total_size packet_list ∧
      referenceParse cursor.send_buffer = (packet_list.map chatPacket, []) := by
  have hshort : ∀ payload ∈ packet_list, payload.length < 2 ^ 16 := by
    intro payload hmem
    have := hsize payload hmem
    omega
  have hfill := fill_send_buffer_eq_some packet_list hshort
  refine ⟨_, hfill, ?_, length_flatMap_packetBytes packet_list hshort, rfl, ?_⟩
  · rw [send, hfill]
    cases packet_list with
    | nil => rfl
    | cons payload packet_list => rfl
  · have hreach := reaches_packetBytes packet_list hsize []
    rw [List.append_nil] at hreach
    have hend : nextPacket 65535 [] = none := nextPacket_eq_none_of_length_lt (by decide)
    exact hreach.split_eq_of_next hend

/-- An empty payload and one of a single byte. -/
theorem send_referenceParse_two :
    ∃ cursor, fill_send_buffer [[], [7]] = some cursor ∧
      send [[], [7]] = some (if [[], [7]] = ([] : List (List UInt8)) then none else some cursor) ∧
      cursor.send_buffer.length = total_size [[], [7]] ∧
      cursor.write_pos = total_size [[], [7]] ∧
      referenceParse cursor.send_buffer = ([[], [7]].map chatPacket, []) :=
  send_referenceParse [[], [7]] (by decide)

example : (fill_send_buffer [[], [7]]).map SendCursor.send_buffer =
    some [4, 0, 2, 0, 5, 0, 2, 0, 7] := by decide

end topview.session
