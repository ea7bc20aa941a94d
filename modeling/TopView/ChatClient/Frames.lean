import TopView.ChatClient.Step

open topview.packet topview.protobuf topview.protocol topview.recv_buffer topview.session topview.wire

namespace topview.chat_client

/-- Texts that `ascii` encodes. -/
def IsAscii (text : String) : Prop := ∀ letter ∈ text.toList, letter.toNat < 128

instance (text : String) : Decidable (IsAscii text) := List.decidableBAll _ text.toList

/-- The letters are read off the bytes. -/
theorem map_ascii {text : String} (hascii : IsAscii text) :
    (ascii text).map (fun byte => Char.ofNat byte.toNat) = text.toList := by
  rw [ascii, List.map_map]
  conv_rhs => rw [← List.map_id text.toList]
  apply List.map_congr_left
  intro letter hmem
  have hlt := hascii letter hmem
  simp [Nat.mod_eq_of_lt (show letter.toNat < 256 by omega)]

theorem ascii_injective {first second : String} (hfirst : IsAscii first) (hsecond : IsAscii second)
    (heq : ascii first = ascii second) : first = second := by
  apply String.toList_injective
  rw [← map_ascii hfirst, heq, map_ascii hsecond]

theorem isUtf8_ascii {text : String} (hascii : IsAscii text) : IsUtf8 (ascii text) := by
  rw [ascii]
  unfold IsAscii at hascii
  revert hascii
  induction text.toList with
  | nil =>
    intro _
    exact .nil
  | cons letter letters ih =>
    intro hascii
    obtain ⟨hletter, hletters⟩ := List.forall_mem_cons.mp hascii
    refine IsUtf8.cons (.one ?_) (ih hletters)
    rw [UInt8.toNat_ofNat']
    omega

theorem isDigit_of_mem_repr {value : Nat} {letter : Char} (hmem : letter ∈ value.repr.toList) :
    letter.isDigit := by
  rw [Nat.toList_repr] at hmem
  exact Nat.isDigit_of_mem_toDigits (by omega) (by omega) hmem

theorem isAscii_repr (value : Nat) : IsAscii value.repr := by
  intro letter hmem
  have hdigit := (Char.isDigit_iff_toNat.mp (isDigit_of_mem_repr hmem)).2
  have hnine : '9'.toNat < 128 := by decide
  omega

theorem length_to_string_le {value digits : Nat} (hpositive : 0 < digits) (hlt : value < 10 ^ digits) :
    (to_string value).length ≤ digits := by
  rw [to_string, ascii, List.length_map, Nat.toList_repr]
  exact (Nat.length_toDigits_le_iff (by omega) hpositive).mpr hlt

/-- A number is told apart from others by its digits. -/
theorem to_string_injective : Function.Injective to_string := by
  intro first second heq
  have hrepr := ascii_injective (isAscii_repr first) (isAscii_repr second) heq
  rw [← @Nat.ofDigitChars_ten_toDigits first, ← Nat.toList_repr, hrepr, Nat.toList_repr,
    Nat.ofDigitChars_ten_toDigits]

/-- There is no blank in a number. -/
theorem blank_notMem_to_string (value : Nat) : 32 ∉ to_string value := by
  intro hmem
  rw [to_string, ascii, List.mem_map] at hmem
  obtain ⟨letter, hletter, hblank⟩ := hmem
  have hdigit := Char.isDigit_iff_toNat.mp (isDigit_of_mem_repr hletter)
  have hcode := congrArg UInt8.toNat hblank
  rw [UInt8.toNat_ofNat'] at hcode
  have hzero : '0'.toNat = 48 := by decide
  have hnine : '9'.toNat = 57 := by decide
  have hvalue : (32 : UInt8).toNat = 32 := by decide
  omega

/-- What stands in front of the first separator is unique. -/
theorem eq_of_append_cons_eq {separator : UInt8} {first second rest more : List UInt8}
    (hfirst : separator ∉ first) (hsecond : separator ∉ second)
    (heq : first ++ separator :: rest = second ++ separator :: more) : first = second ∧ rest = more := by
  induction first generalizing second with
  | nil =>
    cases second with
    | nil => exact ⟨rfl, (List.cons.inj heq).2⟩
    | cons byte second =>
      obtain rfl : separator = byte := (List.cons.inj heq).1
      exact absurd List.mem_cons_self hsecond
  | cons byte first ih =>
    cases second with
    | nil =>
      obtain rfl : byte = separator := (List.cons.inj heq).1
      exact absurd List.mem_cons_self hfirst
    | cons other second =>
      rw [List.mem_cons, not_or] at hfirst hsecond
      obtain ⟨rfl, hrest⟩ := List.cons.inj heq
      obtain ⟨rfl, htail⟩ := ih hfirst.2 hsecond.2 hrest
      exact ⟨rfl, htail⟩

/-- A text says which client it comes from and which one of its texts it is. -/
theorem message_inj {i j first second : Nat} (heq : message i first = message j second) :
    i = j ∧ first = second := by
  have hseq : ascii " seq " = 32 :: ascii "seq " := by decide
  have hrest := List.append_cancel_left heq
  rw [hseq, List.cons_append, List.cons_append] at hrest
  obtain ⟨hi, hlast⟩ :=
    eq_of_append_cons_eq (blank_notMem_to_string i) (blank_notMem_to_string j) hrest
  exact ⟨to_string_injective hi, to_string_injective (List.append_cancel_left hlast)⟩

theorem isUtf8_message (i seq : Nat) : IsUtf8 (message i seq) :=
  (isUtf8_ascii (by decide)).append <| (isUtf8_ascii (isAscii_repr i)).append <|
    (isUtf8_ascii (by decide)).append (isUtf8_ascii (isAscii_repr seq))

theorem length_message_le {i seq : Nat} (hi : i < 2 ^ 31) (hseq : seq < 2 ^ 64) :
    (message i seq).length ≤ 53 := by
  have hclient : (ascii "hello from client ").length = 18 := by decide
  have hmiddle : (ascii " seq ").length = 5 := by decide
  have hnumber : (to_string i).length ≤ 10 := length_to_string_le (by omega) (by omega)
  have hcounter : (to_string seq).length ≤ 20 := length_to_string_le (by omega) (by omega)
  simp only [message, List.length_append]
  omega

theorem length_serialize_message_le {i seq : Nat} (hi : i < 2 ^ 31) (hseq : seq < 2 ^ 64) :
    (CChat.set_message (message i seq)).serialize.length ≤ 55 := by
  have hlength := length_message_le hi hseq
  rw [CChat.serialize, CChat.set_message]
  split
  · simp
  · dsimp only
    rw [List.length_cons, List.length_append, varint32, varintWithin, if_pos (by omega)]
    simp only [List.length_singleton]
    omega

theorem length_message_le_maxSize {i seq : Nat} (hi : i < 2 ^ 31) (hseq : seq < 2 ^ 64) :
    (message i seq).length ≤ maxSize := by
  have hlength := length_message_le hi hseq
  unfold maxSize kSlopBytes
  omega

/-- The frame of a client's message, counted from zero. -/
def frame {i : Nat} (hi : i < 2 ^ 31) (number : Nat) : Frame 40960 where
  id := header_id
  body := (CChat.set_message (message i (number % 2 ^ 64))).serialize
  id_lt := by decide
  size_le := by
    have hbody := length_serialize_message_le hi (Nat.mod_lt number (Nat.two_pow_pos 64))
    omega

/-- The first frames of a client. -/
def frames {i : Nat} (hi : i < 2 ^ 31) (count : Nat) : List (Frame 40960) :=
  (List.range count).map (frame hi)

theorem frames_succ {i : Nat} (hi : i < 2 ^ 31) (count : Nat) :
    frames hi (count + 1) = frames hi count ++ [frame hi count] := by
  rw [frames, List.range_succ, List.map_append]
  rfl

theorem length_grow (buffer : List UInt8) (size : Nat) :
    (grow buffer size).length = max buffer.length size := by
  rw [grow]
  split
  · rw [List.length_append, List.length_replicate]
    omega
  · omega

/-- A text that fits into a packet is put into the buffer as one whole frame,
    whatever the buffer holds. -/
theorem fill_send_buffer_spec (buffer : List UInt8) {text : List UInt8}
    (hlength : (CChat.set_message text).serialize.length ≤ 65531) (htext : text.length ≤ maxSize) :
    ∃ filled, fill_send_buffer buffer { impl := CChat.set_message text, unknown_fields := [] } =
        some (filled, some (uint16Bytes ((CChat.set_message text).serialize.length + 4) ++
          (uint16Bytes header_id ++ (CChat.set_message text).serialize))) ∧
      filled.length = max buffer.length ((CChat.set_message text).serialize.length + 4) := by
  obtain ⟨hsize, hwritten⟩ := CChat.serialize_to_array_set_message htext (by omega)
  obtain ⟨body, hbody⟩ : ∃ body, (CChat.set_message text).serialize = body := ⟨_, rfl⟩
  rw [hbody] at hlength hsize hwritten ⊢
  have htotal : (sizeof_packet_header + body.length) % 2 ^ 32 = body.length + 4 := by
    unfold sizeof_packet_header
    omega
  have hroom := length_grow buffer (body.length + 4)
  obtain ⟨first, hfirst, hheader, hfirstPos, hfirstLength⟩ := SendCursor.write_spec
    ⟨grow buffer (body.length + 4), 0⟩
    (uint16Bytes (toUInt16 (body.length + 4)) ++ uint16Bytes header_id) (by
      simp only [List.length_append, length_uint16Bytes]
      omega)
  simp only [List.length_append, length_uint16Bytes, Nat.zero_add] at hfirstPos
  obtain ⟨second, hsecond, hframe, hsecondPos, hsecondLength⟩ :=
    SendCursor.write_spec first body (by simp only at hfirstLength; omega)
  simp only at hfirstLength
  have htake : second.send_buffer.take (body.length + 4) = uint16Bytes (body.length + 4) ++
      (uint16Bytes header_id ++ body) := by
    rw [SendCursor.written, hsecondPos, hfirstPos, Nat.add_comm, hheader, SendCursor.written,
      List.take_zero, List.nil_append, toUInt16_of_lt (by omega), List.append_assoc] at hframe
    exact hframe
  refine ⟨second.send_buffer, ?_, by omega⟩
  simp only [fill_send_buffer, hsize, Nat.mod_eq_of_lt (show body.length < 2 ^ 32 by omega), htotal,
    hfirst, hwritten, hsecond, htake, Option.bind_eq_bind, Option.bind_some]
  rw [if_pos (by omega)]

/-- The buffer has room for the frame of every message. -/
theorem fill_send_buffer_message {i : Nat} (hi : i < 2 ^ 31) (number : Nat) {buffer : List UInt8}
    (hbuffer : buffer.length = 260) {chat : Message CChat} (hchat : chat.unknown_fields = []) :
    ∃ filled, fill_send_buffer buffer { chat with
        impl := CChat.set_message (message i (number % 2 ^ 64)) } =
        some (filled, some (frame hi number).encode) ∧ filled.length = 260 := by
  have hseq := Nat.mod_lt number (Nat.two_pow_pos 64)
  have hbody := length_serialize_message_le hi hseq
  obtain ⟨filled, hfill, hlength⟩ :=
    fill_send_buffer_spec buffer (by omega) (length_message_le_maxSize hi hseq)
  rw [hchat]
  exact ⟨filled, hfill, by omega⟩

end topview.chat_client
