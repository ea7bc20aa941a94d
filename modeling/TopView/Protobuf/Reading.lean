import TopView.Wire.Fields

open topview.wire

namespace topview.protobuf

/-- How a parser leaves the bytes behind without a message. -/
inductive Failure
  /-- A null pointer, the parser's own error. -/
  | nullptr
  /-- A read outside the memory that `ptr` points into. -/
  | outside
  /-- A branch that ends the process. -/
  | fatal
  /-- The loops did not end within the rounds they were given. -/
  | rounds
  deriving DecidableEq, Repr

/-- `kSlopBytes`. -/
def kSlopBytes : Nat := 16

/-- `INT_MAX - kSlopBytes`, the largest size of a string. -/
def maxSize : Nat := 2 ^ 31 - 1 - kSlopBytes

/-- `*ptr`. -/
def load (memory : List UInt8) (ptr : Nat) : Except Failure UInt8 :=
  match memory[ptr]? with
  | none => .error .outside
  | some byte => .ok byte

/-- The `size` bytes from `ptr` on. -/
def load_bytes (memory : List UInt8) (ptr size : Nat) : Except Failure (List UInt8) :=
  if ptr + size ≤ memory.length then .ok ((memory.drop ptr).take size) else .error .outside

/-- `UnalignedLoad` of a number of `width` bytes. -/
def unaligned_load (width : Nat) (memory : List UInt8) (ptr : Nat) : Except Failure Nat := do
  let bytes ← load_bytes memory ptr width
  return fixedValue bytes

/-- `value - 1` of an unsigned number of `bits` bits. -/
def minus_1 (bits value : Nat) : Nat := if value = 0 then 2 ^ bits - 1 else value - 1

/-- `(byte - 1) << (7 * i)` in a number of `bits` bits. -/
def less_one_shifted (bits i : Nat) (byte : UInt8) : Nat :=
  minus_1 bits byte.toNat * 2 ^ (7 * i) % 2 ^ bits

/-- The loop of the slow paths, from `i` for `left` rounds. Without a position
    when no byte in it ended the varint. -/
def add_groups (bits : Nat) (memory : List UInt8) (p : Nat) :
    Nat → Nat → Nat → Except Failure (Option Nat × Nat)
  | 0, _, res => .ok (none, res)
  | left + 1, i, res => do
    let byte ← load memory (p + i)
    let res := (res + less_one_shifted bits i byte) % 2 ^ bits
    if byte.toNat < 128 then return (some (p + i + 1), res)
    else add_groups bits memory p left (i + 1) res

/-- The loop of `VarintParseSlow32` for the bytes that no bit is taken from. -/
def skip_groups (memory : List UInt8) (p : Nat) : Nat → Nat → Except Failure (Option Nat)
  | 0, _ => .ok none
  | left + 1, i => do
    let byte ← load memory (p + i)
    if byte.toNat < 128 then return some (p + i + 1) else skip_groups memory p left (i + 1)

/-- What the first bytes of a varint are read to, before its slow path. The
    number is given with a position when the varint ended. -/
def first_two (memory : List UInt8) (p : Nat) : Except Failure (Option Nat × Nat) := do
  let first ← load memory p
  if first.toNat < 128 then return (some (p + 1), first.toNat)
  let byte ← load memory (p + 1)
  let res := (first.toNat + less_one_shifted 32 1 byte) % 2 ^ 32
  if byte.toNat < 128 then return (some (p + 2), res) else return (none, res)

/-- `ReadTagFallback`. -/
def read_tag_fallback (memory : List UInt8) (p res : Nat) : Except Failure (Nat × Nat) := do
  match ← add_groups 32 memory p 3 2 res with
  | (some ptr, res) => return (ptr, res)
  | (none, _) => throw .nullptr

/-- `ReadTag`. -/
def read_tag (memory : List UInt8) (p : Nat) : Except Failure (Nat × Nat) := do
  match ← first_two memory p with
  | (some ptr, res) => return (ptr, res)
  | (none, res) => read_tag_fallback memory p res

/-- `VarintParseSlow32`. It accepts more than five bytes. -/
def varint_parse_slow32 (memory : List UInt8) (p res : Nat) : Except Failure (Nat × Nat) := do
  match ← add_groups 32 memory p 3 2 res with
  | (some ptr, res) => return (ptr, res)
  | (none, res) =>
    match ← skip_groups memory p 5 5 with
    | some ptr => return (ptr, res)
    | none => throw .nullptr

/-- `VarintParseSlow64`. -/
def varint_parse_slow64 (memory : List UInt8) (p res : Nat) : Except Failure (Nat × Nat) := do
  match ← add_groups 64 memory p 8 2 res with
  | (some ptr, res) => return (ptr, res)
  | (none, _) => throw .nullptr

/-- `VarintParse`, with the slow path of the number's type. -/
def varint_parse (slow : List UInt8 → Nat → Nat → Except Failure (Nat × Nat)) (memory : List UInt8)
    (p : Nat) : Except Failure (Nat × Nat) := do
  match ← first_two memory p with
  | (some ptr, res) => return (ptr, res)
  | (none, res) => slow memory p res

/-- `ReadVarint32`. -/
def read_varint32 : List UInt8 → Nat → Except Failure (Nat × Nat) := varint_parse varint_parse_slow32

/-- `ReadVarint64`. -/
def read_varint64 : List UInt8 → Nat → Except Failure (Nat × Nat) := varint_parse varint_parse_slow64

/-- `ReadSizeFallback`. -/
def read_size_fallback (memory : List UInt8) (p res : Nat) : Except Failure (Nat × Nat) := do
  match ← add_groups 32 memory p 3 1 res with
  | (some ptr, res) => return (ptr, res)
  | (none, res) =>
    let byte ← load memory (p + 4)
    -- A size of 2 GiB or more.
    if 8 ≤ byte.toNat then throw .nullptr
    else
      let res := (res + less_one_shifted 32 4 byte) % 2 ^ 32
      if maxSize < res then throw .nullptr else return (p + 5, res)

/-- `ReadSize`. -/
def read_size (memory : List UInt8) (p : Nat) : Except Failure (Nat × Nat) := do
  let first ← load memory p
  if first.toNat < 128 then return (p + 1, first.toNat)
  read_size_fallback memory p first.toNat

/-- What a varint of at most `limit` bytes is read to in a number of `bits`
    bits, and where `ptr` stands behind it. -/
def varint_read (limit bits : Nat) (bytes : List UInt8) (p : Nat) : Except Failure (Nat × Nat) :=
  match takeVarint limit bytes with
  | none => .error .nullptr
  | some (encoded, _) => .ok (p + encoded.length, groupValue encoded % 2 ^ bits)

/-- What a size is read to. -/
def size_read (bytes : List UInt8) (p : Nat) : Except Failure (Nat × Nat) :=
  match takeVarint 5 bytes with
  | none => .error .nullptr
  | some (encoded, _) =>
    if maxSize < groupValue encoded then .error .nullptr
    else .ok (p + encoded.length, groupValue encoded)

theorem load_of_drop {memory more : List UInt8} {p : Nat} {byte : UInt8} (seen : List UInt8)
    (hdrop : memory.drop p = seen ++ byte :: more) : load memory (p + seen.length) = .ok byte := by
  have hbyte : memory[p + seen.length]? = some byte := by
    rw [← List.getElem?_drop, hdrop, List.getElem?_append_right (Nat.le_refl _), Nat.sub_self]
    rfl
  rw [load, hbyte]

/-- The byte's `- 1` takes back the continuation bit of the byte before it. -/
theorem less_one_shifted_eq (bits i value : Nat) (byte : UInt8) :
    ((value + 128 ^ i) % 2 ^ bits + less_one_shifted bits i byte) % 2 ^ bits =
      (value + 128 ^ i * byte.toNat) % 2 ^ bits := by
  have hpow : 2 ^ (7 * i) = 128 ^ i := by rw [Nat.pow_mul]
  rw [less_one_shifted, hpow, ← Nat.add_mod, minus_1, Nat.add_assoc]
  by_cases hzero : byte.toNat = 0
  · have hcancel : 128 ^ i + (2 ^ bits - 1) * 128 ^ i = 2 ^ bits * 128 ^ i := by
      rw [Nat.sub_mul, Nat.one_mul]
      exact Nat.add_sub_of_le (Nat.le_mul_of_pos_left _ (Nat.two_pow_pos bits))
    rw [if_pos hzero, hcancel, Nat.add_mul_mod_self_left, hzero, Nat.mul_zero, Nat.add_zero]
  · have hcancel : 128 ^ i + (byte.toNat - 1) * 128 ^ i = 128 ^ i * byte.toNat := by
      obtain ⟨below, hbelow⟩ := Nat.exists_eq_succ_of_ne_zero hzero
      rw [hbelow, Nat.succ_sub_one, Nat.succ_eq_add_one]
      ring
    rw [if_neg hzero, hcancel]

theorem add_groups_eq {p : Nat} {memory seen more : List UInt8} (bits left : Nat)
    (hdrop : memory.drop p = seen ++ more) (hleft : left ≤ more.length) :
    add_groups bits memory p left seen.length ((groupValue seen + 128 ^ seen.length) % 2 ^ bits) =
      .ok ((takeVarint left more).elim
        (none, (groupValue (seen ++ more.take left) + 128 ^ (seen.length + left)) % 2 ^ bits)
        fun found => (some (p + (seen ++ found.1).length), groupValue (seen ++ found.1) % 2 ^ bits)) := by
  induction left generalizing seen more with
  | zero => simp [add_groups, takeVarint]
  | succ left ih =>
    cases more with
    | nil => simp at hleft
    | cons byte rest =>
      simp only [add_groups, takeVarint, load_of_drop seen hdrop, bind, Except.bind, less_one_shifted_eq]
      by_cases hlow : byte.toNat < 128
      · simp only [if_pos hlow, Option.elim_some, groupValue_concat_of_lt seen hlow,
          List.length_append, List.length_singleton, Nat.add_assoc]
        rfl
      · have hdropnext : memory.drop p = (seen ++ [byte]) ++ rest := by
          rw [hdrop, List.append_assoc, List.singleton_append]
        have hnext := ih hdropnext (by simpa using hleft)
        simp only [List.length_append, List.length_singleton,
          groupValue_concat_of_le seen (Nat.le_of_not_lt hlow)] at hnext
        rw [if_neg hlow, if_neg hlow, hnext]
        cases takeVarint left rest with
        | none => simp [Nat.add_assoc, Nat.add_comm 1]
        | some found => simp [Nat.add_assoc, Nat.add_comm 1]

theorem skip_groups_eq {p : Nat} {memory seen more : List UInt8} (left : Nat)
    (hdrop : memory.drop p = seen ++ more) (hleft : left ≤ more.length) :
    skip_groups memory p left seen.length =
      .ok ((takeVarint left more).map fun found => p + (seen ++ found.1).length) := by
  induction left generalizing seen more with
  | zero => rfl
  | succ left ih =>
    match more with
    | [] => simp at hleft
    | byte :: rest =>
      simp only [skip_groups, takeVarint, load_of_drop seen hdrop, bind, Except.bind]
      by_cases hlow : byte.toNat < 128
      · simp only [if_pos hlow, Option.map_some, List.length_append, List.length_singleton,
          Nat.add_assoc]
        rfl
      · have hdropnext : memory.drop p = (seen ++ [byte]) ++ rest := by
          rw [hdrop, List.append_assoc, List.singleton_append]
        have hnext := ih hdropnext (by simpa using hleft)
        rw [List.length_append, List.length_singleton] at hnext
        rw [if_neg hlow, if_neg hlow, hnext, Option.map_map]
        congr 2
        funext found
        simp

theorem first_two_eq {p : Nat} {memory more : List UInt8} {first second : UInt8}
    (hdrop : memory.drop p = first :: second :: more) :
    first_two memory p = .ok (
      match takeVarint 2 [first, second] with
      | some (encoded, _) => (some (p + encoded.length), groupValue encoded)
      | none => (none, groupValue [first, second] + 128 ^ 2)) := by
  have hfirst : load memory p = .ok first := load_of_drop [] hdrop
  have hsecond : load memory (p + 1) = .ok second := load_of_drop [first] hdrop
  simp only [first_two, hfirst, hsecond, bind, Except.bind, takeVarint]
  by_cases hlow : first.toNat < 128
  · simp [hlow, groupValue, Nat.mod_eq_of_lt hlow, pure, Except.pure]
  · have hbyte := second.toNat_lt
    have hres := less_one_shifted_eq 32 1 (first.toNat % 128) second
    have hcontinued : (first.toNat % 128 + 128 ^ 1) % 2 ^ 32 = first.toNat := by
      have := first.toNat_lt
      omega
    have hsmall : first.toNat % 128 + 128 ^ 1 * second.toNat < 2 ^ 32 := by omega
    rw [hcontinued, Nat.mod_eq_of_lt hsmall] at hres
    simp only [if_neg hlow, hres]
    by_cases hend : second.toNat < 128
    · simp [hend, groupValue, Nat.mod_eq_of_lt hend, pure, Except.pure]
    · have hvalue : first.toNat % 128 + 128 ^ 1 * second.toNat =
          groupValue [first, second] + 128 ^ 2 := by
        rw [groupValue, groupValue, groupValue]
        omega
      simpa [hend, pure, Except.pure] using hvalue

/-- The slow paths begin behind two bytes that both have a high bit. -/
theorem add_groups_two {bits p : Nat} {memory more : List UInt8} {first second : UInt8} (left : Nat)
    (hbits : 32 ≤ bits) (hdrop : memory.drop p = first :: second :: more)
    (hleft : left ≤ more.length) :
    add_groups bits memory p left 2 (groupValue [first, second] + 128 ^ 2) =
      .ok ((takeVarint left more).elim
        (none, (groupValue ([first, second] ++ more.take left) + 128 ^ (2 + left)) % 2 ^ bits)
        fun found => (some (p + ([first, second] ++ found.1).length),
          groupValue ([first, second] ++ found.1) % 2 ^ bits)) := by
  have hwidth : 2 ^ 32 ≤ 2 ^ bits := Nat.pow_le_pow_right (by omega) hbits
  have hvalue : groupValue [first, second] < 128 ^ 2 := groupValue_lt [first, second]
  have hseen : memory.drop p = [first, second] ++ more := hdrop
  have hgroups := add_groups_eq bits left hseen hleft
  rwa [List.length_cons, List.length_singleton, Nat.mod_eq_of_lt (by omega)] at hgroups

private theorem two_of_drop {p : Nat} {memory : List UInt8} (count : Nat)
    (hlength : count + 2 ≤ (memory.drop p).length) :
    ∃ first second more, memory.drop p = first :: second :: more ∧ count ≤ more.length := by
  match hdrop : memory.drop p with
  | [] => simp [hdrop] at hlength
  | [_] => simp [hdrop] at hlength
  | first :: second :: more =>
    rw [hdrop, List.length_cons, List.length_cons] at hlength
    exact ⟨first, second, more, rfl, by omega⟩

/-- A slow path that is given `rounds` more bytes takes the whole varint up. -/
theorem varint_parse_eq {slow : List UInt8 → Nat → Nat → Except Failure (Nat × Nat)}
    {bits p : Nat} {memory : List UInt8} (rounds : Nat) (hbits : 32 ≤ bits)
    (hslow : ∀ first second more, memory.drop p = first :: second :: more → rounds ≤ more.length →
      slow memory p (groupValue [first, second] + 128 ^ 2) =
        match takeVarint rounds more with
        | some (encoded, _) => .ok (p + ([first, second] ++ encoded).length,
            groupValue ([first, second] ++ encoded) % 2 ^ bits)
        | none => .error .nullptr)
    (hlength : rounds + 2 ≤ (memory.drop p).length) :
    varint_parse slow memory p = varint_read (rounds + 2) bits (memory.drop p) p := by
  obtain ⟨first, second, more, hdrop, hmore⟩ := two_of_drop rounds hlength
  have htake : takeVarint (rounds + 2) (first :: second :: more) = _ :=
    takeVarint_append rounds [first, second] more
  rw [varint_parse, first_two_eq hdrop, varint_read, hdrop, htake]
  cases hfast : takeVarint 2 [first, second] with
  | some found =>
    obtain ⟨hbytes, _, hshort⟩ := takeVarint_eq_some_iff.mp hfast
    have hvalue := lt_of_lt_of_le (groupValue_lt found.1) (Nat.pow_le_pow_right (by omega) hshort)
    have hwidth : 2 ^ 32 ≤ 2 ^ bits := Nat.pow_le_pow_right (by omega) hbits
    simp only [bind, Except.bind]
    rw [Nat.mod_eq_of_lt (by omega)]
    rfl
  | none =>
    simp only [bind, Except.bind, hslow first second more hdrop hmore]
    cases takeVarint rounds more <;> rfl

theorem read_tag_eq {p : Nat} {memory : List UInt8} (hlength : 5 ≤ (memory.drop p).length) :
    read_tag memory p = varint_read 5 32 (memory.drop p) p := by
  change varint_parse read_tag_fallback memory p = _
  apply varint_parse_eq 3 (Nat.le_refl 32) _ hlength
  intro first second more hdrop hmore
  have hgroups := add_groups_two 3 (Nat.le_refl 32) hdrop hmore
  simp only [read_tag_fallback, hgroups, bind, Except.bind]
  cases takeVarint 3 more <;> rfl

theorem read_varint64_eq {p : Nat} {memory : List UInt8} (hlength : 10 ≤ (memory.drop p).length) :
    read_varint64 memory p = varint_read 10 64 (memory.drop p) p := by
  apply varint_parse_eq 8 (by omega) _ hlength
  intro first second more hdrop hmore
  have hgroups := add_groups_two 8 (by omega : 32 ≤ 64) hdrop hmore
  simp only [varint_parse_slow64, hgroups, bind, Except.bind]
  cases takeVarint 8 more <;> rfl

/-- The bits of a sixth byte lie beyond a 32-bit number. -/
theorem groupValue_mod_of_five {seen : List UInt8} (hseen : seen.length = 5) (behind : List UInt8) :
    groupValue (seen ++ behind) % 2 ^ 32 = (groupValue seen + 128 ^ 5) % 2 ^ 32 := by
  rw [groupValue_append, hseen]
  omega

theorem read_varint32_eq {p : Nat} {memory : List UInt8} (hlength : 10 ≤ (memory.drop p).length) :
    read_varint32 memory p = varint_read 10 32 (memory.drop p) p := by
  apply varint_parse_eq 8 (Nat.le_refl 32) _ hlength
  intro first second more hdrop hmore
  have hgroups := add_groups_two 3 (Nat.le_refl 32) hdrop (by omega)
  simp only [varint_parse_slow32, hgroups, bind, Except.bind]
  have htaken : (more.take 3).length = 3 := by
    rw [List.length_take]
    omega
  have hthree := takeVarint_append 0 (more.take 3) (more.drop 3)
  have height := takeVarint_append 5 (more.take 3) (more.drop 3)
  rw [List.take_append_drop, htaken] at hthree height
  rw [show 3 = 0 + 3 from rfl, hthree, show 8 = 5 + 3 from rfl, height]
  cases hfast : takeVarint 3 (more.take 3) with
  | some found => rfl
  | none =>
    have hfive : ([first, second] ++ more.take 3).length = 5 := by simp [htaken]
    have hdropfive : memory.drop p = ([first, second] ++ more.take 3) ++ more.drop 3 := by
      rw [hdrop, List.append_assoc, List.take_append_drop]
      rfl
    have hskip := skip_groups_eq 5 hdropfive (by rw [List.length_drop]; omega)
    rw [hfive] at hskip
    simp only [takeVarint, Option.map_none, hskip, Nat.zero_add]
    cases takeVarint 5 (more.drop 3) with
    | none => rfl
    | some found =>
      simp only [Option.map_some, ← List.append_assoc, groupValue_mod_of_five hfive]
      rfl

/-- A size is refused from 2 GiB on, and also when it is too close to it. -/
theorem read_size_eq {p : Nat} {memory : List UInt8} (hlength : 5 ≤ (memory.drop p).length) :
    read_size memory p = size_read (memory.drop p) p := by
  obtain ⟨first, rest, hdrop⟩ : ∃ first rest, memory.drop p = first :: rest :=
    List.exists_cons_of_length_pos (by omega)
  have hrest : 4 ≤ rest.length := by
    rw [hdrop, List.length_cons] at hlength
    omega
  have hfirst : load memory p = .ok first := load_of_drop [] hdrop
  rw [read_size, hfirst, size_read, hdrop]
  simp only [bind, Except.bind]
  by_cases hlow : first.toNat < 128
  · have hvalue : groupValue [first] = first.toNat := Nat.mod_eq_of_lt hlow
    have hsmall : ¬ maxSize < first.toNat := by
      unfold maxSize kSlopBytes
      omega
    simp only [takeVarint, if_pos hlow, hvalue, if_neg hsmall]
    rfl
  · have hhead : groupValue [first] + 128 ^ 1 = first.toNat := by
      have hbyte := first.toNat_lt
      rw [groupValue, groupValue]
      omega
    have hseen : memory.drop p = [first] ++ rest := hdrop
    have hgroups := add_groups_eq 32 3 hseen (by omega)
    have hwide : first.toNat < 2 ^ 32 := lt_trans first.toNat_lt (by decide)
    rw [List.length_singleton, hhead, Nat.mod_eq_of_lt hwide] at hgroups
    have htaken : (rest.take 3).length = 3 := by
      rw [List.length_take]
      omega
    have hthree := takeVarint_append 0 (rest.take 3) (rest.drop 3)
    have hfour := takeVarint_append 1 (rest.take 3) (rest.drop 3)
    rw [List.take_append_drop, htaken] at hthree hfour
    rw [Nat.zero_add] at hthree
    change takeVarint 4 rest = _ at hfour
    rw [if_neg hlow, read_size_fallback, takeVarint, if_neg hlow]
    simp only [hgroups, bind, Except.bind]
    rw [hthree, hfour]
    cases hfast : takeVarint 3 (rest.take 3) with
    | some found =>
      obtain ⟨_, _, hshort⟩ := takeVarint_eq_some_iff.mp hfast
      have hfour : ([first] ++ found.1).length ≤ 4 := by
        rw [List.length_append, List.length_singleton]
        omega
      have hvalue := lt_of_lt_of_le (groupValue_lt ([first] ++ found.1))
        (Nat.pow_le_pow_right (by omega) hfour)
      have hsmall : ¬ maxSize < groupValue ([first] ++ found.1) := by
        unfold maxSize kSlopBytes
        omega
      simp only [Option.map_some, Option.elim_some]
      rw [Nat.mod_eq_of_lt (by omega)]
      exact (if_neg hsmall).symm
    | none =>
      obtain ⟨last, more, hlast⟩ : ∃ last more, rest.drop 3 = last :: more :=
        List.exists_cons_of_length_pos (by rw [List.length_drop]; omega)
      have hdropfour : memory.drop p = ([first] ++ rest.take 3) ++ last :: more := by
        rw [← hlast, hdrop, List.append_assoc, List.take_append_drop]
        rfl
      have hfour : ([first] ++ rest.take 3).length = 4 := by simp [htaken]
      have hload := load_of_drop _ hdropfour
      rw [hfour] at hload
      have hwrap := less_one_shifted_eq 32 4 (groupValue ([first] ++ rest.take 3)) last
      have hseen := groupValue_lt ([first] ++ rest.take 3)
      rw [hfour] at hseen
      have hbound : maxSize = 2147483631 := rfl
      simp only [takeVarint, Option.map_none, Option.elim_none, hload, hwrap, hlast]
      by_cases hend : last.toNat < 128
      · have hvalue := groupValue_concat_of_lt ([first] ++ rest.take 3) hend
        rw [hfour] at hvalue
        have hspelled : (first :: (rest.take 3 ++ [last])).length = 5 := by simp [htaken]
        simp only [if_pos hend, Option.map_some, hspelled]
        change _ = if maxSize < groupValue ([first] ++ rest.take 3 ++ [last]) then _ else
          Except.ok (p + 5, groupValue ([first] ++ rest.take 3 ++ [last]))
        rw [hvalue]
        by_cases hlarge : 8 ≤ last.toNat
        · rw [if_pos hlarge, if_pos (by omega)]
          rfl
        · rw [if_neg hlarge, Nat.mod_eq_of_lt (by omega)]
          rfl
      · rw [if_neg hend, if_pos (by omega)]
        rfl

end topview.protobuf
