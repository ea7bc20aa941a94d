import TopView.CInt
import TopView.Framing.Splitter

open topview.framing

namespace topview.packet

/-- `struct PacketHeader`. The size counts the header itself. -/
structure PacketHeader where
  size : Nat
  id : Nat
  deriving DecidableEq, Repr

/-- `sizeof(PacketHeader)`. -/
def sizeof_packet_header : Nat := 4

/-- The header at the front of memory. -/
def PacketHeader.read (memory : List UInt8) : PacketHeader :=
  { size := readUInt16 memory, id := readUInt16 (memory.drop 2) }

theorem PacketHeader.size_read_lt (memory : List UInt8) :
    (PacketHeader.read memory).size < 2 ^ 16 := readUInt16_lt memory

/-- The first two bytes of memory are the size. -/
theorem PacketHeader.size_read_uint16Bytes {size : Nat} (hlt : size < 2 ^ 16)
    (more : List UInt8) : (PacketHeader.read (uint16Bytes size ++ more)).size = size :=
  readUInt16_uint16Bytes_append hlt more

/-- A header is four bytes, so later bytes do not change it. -/
theorem PacketHeader.read_append {memory : List UInt8} (hlength : 4 ≤ memory.length)
    (more : List UInt8) : PacketHeader.read (memory ++ more) = PacketHeader.read memory := by
  simp only [PacketHeader.read, readUInt16_append (show 2 ≤ memory.length by omega) more,
    List.drop_append_of_le_length (show 2 ≤ memory.length by omega),
    readUInt16_append (show 2 ≤ (memory.drop 2).length by simp; omega) more]

/-- A header together with the bytes behind it that its size announces. -/
structure Packet where
  header : PacketHeader
  body : List UInt8
  deriving DecidableEq, Repr

/-- The bytes of `memory` that a header announces as its body. -/
def PacketHeader.body (header : PacketHeader) (memory : List UInt8) : List UInt8 :=
  (memory.drop sizeof_packet_header).take (header.size - sizeof_packet_header)

/-- The next packet of a byte stream, when the stream holds the whole header
    and as many bytes as it announces, at least one and at most `limit`. -/
def nextPacket (limit : Nat) (input : List UInt8) : Option (Packet × List UInt8) :=
  let header := PacketHeader.read input
  if 4 ≤ input.length ∧ 0 < header.size ∧ header.size ≤ input.length ∧ header.size ≤ limit then
    some (⟨header, header.body input⟩, input.drop header.size)
  else none

theorem nextPacket_eq_some_iff {limit : Nat} {input rest : List UInt8} {packet : Packet} :
    nextPacket limit input = some (packet, rest) ↔
      (4 ≤ input.length ∧ 0 < packet.header.size ∧ packet.header.size ≤ input.length ∧
        packet.header.size ≤ limit) ∧
      packet = ⟨PacketHeader.read input, (PacketHeader.read input).body input⟩ ∧
      rest = input.drop packet.header.size := by
  simp only [nextPacket, Option.ite_none_right_eq_some, Option.some.injEq, Prod.mk.injEq]
  constructor
  · rintro ⟨hbounds, rfl, rfl⟩
    exact ⟨hbounds, rfl, rfl⟩
  · rintro ⟨hbounds, rfl, rfl⟩
    exact ⟨hbounds, rfl, rfl⟩

theorem nextPacket_eq_none_of_length_lt {limit : Nat} {input : List UInt8}
    (hshort : input.length < 4) : nextPacket limit input = none := by
  cases hnext : nextPacket limit input with
  | none => rfl
  | some taken =>
    have hheader := (nextPacket_eq_some_iff.mp hnext).1.1
    omega

/-- The next packet is found in the bytes of its header and those it announces. -/
theorem nextPacket_take {limit count : Nat} {input rest : List UInt8} {packet : Packet}
    (hnext : nextPacket limit input = some (packet, rest)) (hheader : 4 ≤ count)
    (hwhole : packet.header.size ≤ count) :
    nextPacket limit (input.take count) =
      some (packet, (input.take count).drop packet.header.size) := by
  obtain ⟨⟨hlength, hpos, hsize, hlimit⟩, heq, _⟩ := nextPacket_eq_some_iff.mp hnext
  have hread : PacketHeader.read (input.take count) = PacketHeader.read input := by
    conv_rhs => rw [← List.take_append_drop count input]
    rw [PacketHeader.read_append (by rw [List.length_take]; omega)]
  refine nextPacket_eq_some_iff.mpr ⟨⟨?_, hpos, ?_, hlimit⟩, ?_, rfl⟩
  · rw [List.length_take]; omega
  · rw [List.length_take]; omega
  · rw [hread, heq]
    rw [heq] at hwhole
    simp only [PacketHeader.body, sizeof_packet_header, List.drop_take, List.take_take]
    rw [Nat.min_eq_left]
    simp only at hwhole
    omega

/-- Packets of at most `limit` bytes are split off a stream incrementally. -/
def packetSplitter (limit : Nat) : Splitter UInt8 Packet where
  next := nextPacket limit
  next_shrinks := by
    intro input item rest hnext
    obtain ⟨hbounds, _, rfl⟩ := nextPacket_eq_some_iff.mp hnext
    rw [List.length_drop]
    omega
  next_append := by
    intro input item rest more hnext
    obtain ⟨⟨hheader, hpos, hsize, hlimit⟩, rfl, rfl⟩ := nextPacket_eq_some_iff.mp hnext
    have hbody : (PacketHeader.read input).body (input ++ more) =
        (PacketHeader.read input).body input := by
      simp only [PacketHeader.body, sizeof_packet_header]
      rw [List.drop_append_of_le_length hheader,
        List.take_append_of_le_length (by rw [List.length_drop]; simp only at hsize; omega)]
    refine nextPacket_eq_some_iff.mpr ⟨⟨?_, hpos, ?_, hlimit⟩, ?_, ?_⟩
    · rw [List.length_append]; omega
    · rw [List.length_append]; omega
    · rw [PacketHeader.read_append hheader, hbody]
    · rw [List.drop_append_of_le_length hsize]

/-- The whole stream split at once. No size a header can hold exceeds the limit. -/
def referenceParse (stream : List UInt8) : List Packet × List UInt8 :=
  (packetSplitter 65535).split stream

/-- A header can announce as much as the receive buffer holds. -/
theorem capacity_lt : 40960 < 2 ^ 16 := by decide

theorem uint16_max_lt : 65535 < 2 ^ 16 := by decide

/-- A well-formed frame of at most `limit` bytes. -/
structure Frame (limit : Nat) where
  id : Nat
  body : List UInt8
  id_lt : id < 2 ^ 16
  size_le : body.length + 4 ≤ limit

/-- The size that the frame's header holds. -/
def Frame.size {limit : Nat} (frame : Frame limit) : Nat := frame.body.length + 4

def Frame.toPacket {limit : Nat} (frame : Frame limit) : Packet :=
  ⟨⟨frame.size, frame.id⟩, frame.body⟩

/-- The frame on the wire. -/
def Frame.encode {limit : Nat} (frame : Frame limit) : List UInt8 :=
  uint16Bytes frame.size ++ (uint16Bytes frame.id ++ frame.body)

@[simp] theorem Frame.length_encode {limit : Nat} (frame : Frame limit) :
    frame.encode.length = frame.size := by
  simp only [Frame.encode, List.length_append, length_uint16Bytes, Frame.size]
  omega

theorem Frame.read_encode_append {limit : Nat} (hlimit : limit < 2 ^ 16) (frame : Frame limit)
    (more : List UInt8) :
    PacketHeader.read (frame.encode ++ more) = ⟨frame.size, frame.id⟩ := by
  have hsize : frame.size < 2 ^ 16 := Nat.lt_of_le_of_lt frame.size_le hlimit
  have hdrop : (frame.encode ++ more).drop 2 =
      uint16Bytes frame.id ++ (frame.body ++ more) := by
    simp [Frame.encode, uint16Bytes]
  simp only [PacketHeader.read, hdrop, readUInt16_uint16Bytes_append frame.id_lt]
  rw [Frame.encode, List.append_assoc, readUInt16_uint16Bytes_append hsize]

theorem Frame.nextPacket_encode {limit bound : Nat} (hlimit : limit < 2 ^ 16)
    (frame : Frame limit) (hsize : frame.size ≤ bound) (more : List UInt8) :
    nextPacket bound (frame.encode ++ more) = some (frame.toPacket, more) := by
  refine nextPacket_eq_some_iff.mpr ⟨⟨?_, ?_, ?_, hsize⟩, ?_, ?_⟩
  · simp only [List.length_append, Frame.length_encode, Frame.size]; omega
  · simp only [Frame.toPacket, Frame.size]; omega
  · simp only [Frame.toPacket, List.length_append, Frame.length_encode]; omega
  · simp only [Frame.toPacket, frame.read_encode_append hlimit, PacketHeader.body,
      sizeof_packet_header]
    simp [Frame.encode, uint16Bytes, Frame.size]
  · simp only [Frame.toPacket, ← Frame.length_encode, List.drop_left]

/-- Every frame within the limit is one packet of the stream. -/
theorem Frame.encodes {limit bound : Nat} (hlimit : limit < 2 ^ 16) (hle : limit ≤ bound) :
    (packetSplitter bound).Encodes (@Frame.encode limit) Frame.toPacket :=
  ⟨fun frame => frame.nextPacket_encode hlimit (Nat.le_trans frame.size_le hle)⟩

theorem Frame.reaches_of_size_le {limit bound : Nat} (hlimit : limit < 2 ^ 16)
    (frames : List (Frame limit)) (hsize : ∀ frame ∈ frames, frame.size ≤ bound)
    (more : List UInt8) :
    (packetSplitter bound).Reaches (frames.flatMap Frame.encode ++ more)
      (frames.map Frame.toPacket) more := by
  induction frames with
  | nil => exact .refl more
  | cons frame frames ih =>
    rw [List.flatMap_cons, List.append_assoc]
    refine .head (frame.nextPacket_encode hlimit (hsize frame List.mem_cons_self) _) (ih ?_)
    intro other hmem
    exact hsize other (List.mem_cons_of_mem _ hmem)

/-- The header at the front of a stream of frames is that of its first frame. -/
theorem read_of_front {limit : Nat} (hlimit : limit < 2 ^ 16) {frames : List (Frame limit)}
    {input : List UInt8} (hfront : input <+: frames.flatMap Frame.encode)
    (hheader : 4 ≤ input.length) :
    ∃ frame later, frames = frame :: later ∧
      PacketHeader.read input = ⟨frame.size, frame.id⟩ := by
  cases frames with
  | nil =>
    have hempty : input = [] := by simpa using hfront
    subst hempty
    simp at hheader
  | cons frame later =>
    rw [List.flatMap_cons] at hfront
    obtain ⟨more, hmore⟩ := hfront
    refine ⟨frame, later, rfl, ?_⟩
    rw [← PacketHeader.read_append hheader more, hmore, frame.read_encode_append hlimit]

/-- On a prefix of a stream of frames the next packet is the first frame. -/
theorem nextPacket_of_front {limit bound : Nat} (hlimit : limit < 2 ^ 16)
    {frames : List (Frame limit)} {input rest : List UInt8} {packet : Packet}
    (hfront : input <+: frames.flatMap Frame.encode)
    (hnext : nextPacket bound input = some (packet, rest)) :
    ∃ frame later, frames = frame :: later ∧ packet = frame.toPacket ∧
      input = frame.encode ++ rest ∧ rest <+: later.flatMap Frame.encode := by
  obtain ⟨⟨hheader, _, hwhole, _⟩, hpacket, hrest⟩ := nextPacket_eq_some_iff.mp hnext
  obtain ⟨frame, later, rfl, hread⟩ := read_of_front hlimit hfront hheader
  rw [List.flatMap_cons] at hfront
  rw [hpacket, hread] at hwhole
  obtain ⟨tail, rfl⟩ := List.prefix_of_prefix_length_le (List.prefix_append frame.encode _)
    hfront (by rw [Frame.length_encode]; exact hwhole)
  rw [hpacket, hread, ← Frame.length_encode, List.drop_left] at hrest
  subst hrest
  refine ⟨frame, later, rfl, ?_, rfl, (List.prefix_append_right_inj _).mp hfront⟩
  rw [hpacket, hread]
  simp [PacketHeader.body, sizeof_packet_header, Frame.toPacket, Frame.encode, uint16Bytes,
    Frame.size]

/-- Splitting a prefix of a stream of frames follows these frames. -/
theorem reaches_of_front {limit bound : Nat} (hlimit : limit < 2 ^ 16)
    {frames : List (Frame limit)} {input rest : List UInt8} {packets : List Packet}
    (hreach : (packetSplitter bound).Reaches input packets rest)
    (hfront : input <+: frames.flatMap Frame.encode) :
    ∃ whole later, frames = whole ++ later ∧ packets = whole.map Frame.toPacket ∧
      input = whole.flatMap Frame.encode ++ rest ∧ rest <+: later.flatMap Frame.encode := by
  induction hreach generalizing frames with
  | refl => exact ⟨[], frames, rfl, rfl, rfl, hfront⟩
  | head hnext _ ih =>
    obtain ⟨frame, later, rfl, rfl, rfl, hrest⟩ := nextPacket_of_front hlimit hfront hnext
    obtain ⟨whole, final, rfl, rfl, rfl, hfinal⟩ := ih hrest
    exact ⟨frame :: whole, final, rfl, rfl, by simp, hfinal⟩

end topview.packet
