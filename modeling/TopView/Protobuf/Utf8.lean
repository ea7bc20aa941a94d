import TopView.Wire.Fields
import TopView.Wire.Utf8
import Mathlib.Data.List.TakeWhile

open topview.wire

namespace topview.protobuf

/-- `kExitIllegalStructure`, the least of the reasons to stop. -/
def kExitIllegalStructure : Nat := 240

def kExitOK : Nat := 241

def kExitReject : Nat := 242

/-- The block `state[0]`, for the first byte of a character. -/
def first_byte (byte : Nat) : Nat :=
  if byte < 0x80 then 0
  else if byte < 0xC2 then kExitIllegalStructure
  else if byte < 0xE0 then 1
  else if byte = 0xE0 then 2
  else if byte = 0xED then 7
  else if byte < 0xF0 then 3
  else if byte = 0xF0 then 4
  else if byte < 0xF4 then 5
  else if byte = 0xF4 then 6
  else kExitIllegalStructure

/-- `utf8acceptnonsurrogates`, the state after a byte, or a reason to stop. No
    entry is `kExitDoAgain`. -/
def utf8acceptnonsurrogates (state byte : Nat) : Nat :=
  match state with
  | 0 => first_byte byte
  | 1 => if 0x80 ≤ byte ∧ byte < 0xC0 then 0 else kExitIllegalStructure
  | 2 => if 0xA0 ≤ byte ∧ byte < 0xC0 then 1 else kExitIllegalStructure
  | 3 => if 0x80 ≤ byte ∧ byte < 0xC0 then 1 else kExitIllegalStructure
  | 4 => if 0x90 ≤ byte ∧ byte < 0xC0 then 3 else kExitIllegalStructure
  | 5 => if 0x80 ≤ byte ∧ byte < 0xC0 then 3 else kExitIllegalStructure
  | 6 => if 0x80 ≤ byte ∧ byte < 0x90 then 3 else kExitIllegalStructure
  | 7 =>
    if 0x80 ≤ byte ∧ byte < 0xA0 then 1
    else if 0xA0 ≤ byte ∧ byte < 0xC0 then 8
    else kExitIllegalStructure
  | _ => if 0x80 ≤ byte ∧ byte < 0xC0 then kExitReject else kExitIllegalStructure

/-- `utf8acceptnonsurrogates_fast`. -/
def utf8acceptnonsurrogates_fast (byte : UInt8) : Nat := if byte.toNat < 0x80 then 0 else 1

/-- `losub` of the table. -/
def losub : Nat := 0x20202020

/-- `hiadd` of the table. -/
def hiadd : Nat := 0

/-- The bytes that are passed one at a time up to an aligned address. -/
def skip_to_aligned (plain : UInt8 → Bool) (address : Nat) : List UInt8 → Nat
  | [] => 0
  | byte :: rest =>
    if address % 8 ≠ 0 ∧ plain byte = true then skip_to_aligned plain (address + 1) rest + 1 else 0

/-- The bytes that `UTF8GenericScan` passes eight at a time. -/
def skip_identity : List UInt8 → Nat
  | b0 :: b1 :: b2 :: b3 :: b4 :: b5 :: b6 :: b7 :: rest =>
    let s0123 := fixedValue [b0, b1, b2, b3]
    let s4567 := fixedValue [b4, b5, b6, b7]
    let temp := (s0123 + (2 ^ 32 - losub)) % 2 ^ 32 ||| (s0123 + hiadd) % 2 ^ 32 |||
      (s4567 + (2 ^ 32 - losub)) % 2 ^ 32 ||| (s4567 + hiadd) % 2 ^ 32
    if temp &&& 0x80808080 ≠ 0 then
      if utf8acceptnonsurrogates_fast b0 ||| utf8acceptnonsurrogates_fast b1 |||
          (utf8acceptnonsurrogates_fast b2 ||| utf8acceptnonsurrogates_fast b3) ≠ 0 then 0
      else if utf8acceptnonsurrogates_fast b4 ||| utf8acceptnonsurrogates_fast b5 |||
          (utf8acceptnonsurrogates_fast b6 ||| utf8acceptnonsurrogates_fast b7) ≠ 0 then 4
      else 8 + skip_identity rest
    else 8 + skip_identity rest
  | _ => 0

/-- The bytes that `UTF8GenericScanFastAscii` passes eight at a time. -/
def skip_words : List UInt8 → Nat
  | b0 :: b1 :: b2 :: b3 :: b4 :: b5 :: b6 :: b7 :: rest =>
    if (fixedValue [b0, b1, b2, b3] ||| fixedValue [b4, b5, b6, b7]) &&& 0x80808080 = 0 then
      8 + skip_words rest
    else 0
  | _ => 0

/-- The loop on the state table from a state, with the last entry, the state
    before it and the number of bytes passed. -/
def table_scan (state e : Nat) : List UInt8 → Nat × Nat × Nat
  | [] => (e, state, 0)
  | c :: rest =>
    let e := utf8acceptnonsurrogates state c.toNat
    if kExitIllegalStructure ≤ e then (e, state, 1)
    else
      let (last, final, passed) := table_scan e e rest
      (last, final, passed + 1)

/-- The loop that goes back to the first byte of a character. -/
def back_up (str : List UInt8) : Nat → Nat
  | 0 => 0
  | src + 1 =>
    if 0 < src ∧ (str.getD src 0).toNat &&& 0xC0 = 0x80 then back_up str src else src

/-- The bytes that `UTF8GenericScan` passes before its table. -/
def skip_fast (address : Nat) (str : List UInt8) : Nat :=
  let src := skip_to_aligned (fun byte => utf8acceptnonsurrogates_fast byte == 0) address str
  if (address + src) % 8 = 0 then src + skip_identity (str.drop src) else src

/-- The bytes that `UTF8GenericScanFastAscii` passes before its own loop of
    single bytes. -/
def skip_fast_ascii (address : Nat) (str : List UInt8) : Nat :=
  let src := skip_to_aligned (fun byte => decide (byte.toNat < 0x80)) address str
  if (address + src) % 8 = 0 then src + skip_words (str.drop src) else src

/-- `UTF8GenericScan` of a string that begins at an address, the reason to stop
    and the number of bytes consumed. -/
def utf8_generic_scan (address : Nat) (str : List UInt8) : Nat × Nat :=
  if str = [] then (kExitOK, 0)
  else
    let src := skip_fast address str
    let (e, state, passed) := table_scan 0 0 (str.drop src)
    let src := src + passed
    if kExitIllegalStructure ≤ e then
      let src := src - 1
      (e, if state ≠ 0 then back_up str src else src)
    else if state ≠ 0 then (kExitIllegalStructure, back_up str src)
    else (kExitOK, src)

/-- `UTF8GenericScanFastAscii`. -/
def utf8_generic_scan_fast_ascii (address : Nat) (str : List UInt8) : Nat × Nat :=
  if str = [] then (kExitOK, 0)
  else
    let src := skip_fast_ascii address str
    let src := src + ((str.drop src).takeWhile fun byte => decide (byte.toNat < 0x80)).length
    let (exit_reason, rest_consumed) := utf8_generic_scan (address + src) (str.drop src)
    (exit_reason, src + rest_consumed)

/-- `IsStructurallyValidUTF8`. -/
def is_structurally_valid_utf8 (address : Nat) (buf : List UInt8) : Bool :=
  (utf8_generic_scan_fast_ascii address buf).2 == buf.length

/-- Whether the table takes the bytes back to its first state. -/
def runs : Nat → List UInt8 → Bool
  | state, [] => state == 0
  | state, c :: rest =>
    let e := utf8acceptnonsurrogates state c.toNat
    decide (e < kExitIllegalStructure) && runs e rest

/-- The bytes up to a position are ASCII. -/
def AsciiTo (str : List UInt8) (position : Nat) : Prop :=
  position ≤ str.length ∧ ∀ byte ∈ str.take position, byte.toNat < 0x80

theorem runs_ascii {byte : UInt8} (hascii : byte.toNat < 0x80) (rest : List UInt8) :
    runs 0 (byte :: rest) = runs 0 rest := by
  simp [runs, utf8acceptnonsurrogates, first_byte, hascii, kExitIllegalStructure]

theorem AsciiTo.zero (str : List UInt8) : AsciiTo str 0 := ⟨Nat.zero_le _, by simp⟩

theorem AsciiTo.cons {byte : UInt8} {rest : List UInt8} {position : Nat} (hbyte : byte.toNat < 0x80)
    (hrest : AsciiTo rest position) : AsciiTo (byte :: rest) (position + 1) := by
  obtain ⟨hlength, hascii⟩ := hrest
  refine ⟨Nat.succ_le_succ hlength, ?_⟩
  rw [List.take_succ_cons, List.forall_mem_cons]
  exact ⟨hbyte, hascii⟩

theorem AsciiTo.add {str : List UInt8} {first second : Nat} (hfirst : AsciiTo str first)
    (hsecond : AsciiTo (str.drop first) second) : AsciiTo str (first + second) := by
  induction first generalizing str with
  | zero => simpa using hsecond
  | succ first ih =>
    match str with
    | [] => exact absurd hfirst.1 (by simp)
    | byte :: rest =>
      have hparts := hfirst.2
      rw [List.take_succ_cons, List.forall_mem_cons] at hparts
      rw [Nat.add_right_comm]
      exact .cons hparts.1 (ih ⟨Nat.le_of_succ_le_succ hfirst.1, hparts.2⟩ hsecond)

/-- Passing over ASCII bytes does not change whether a text is accepted. -/
theorem AsciiTo.runs_eq {str : List UInt8} {position : Nat} (hascii : AsciiTo str position) :
    runs 0 str = runs 0 (str.drop position) := by
  induction position generalizing str with
  | zero => rfl
  | succ position ih =>
    match str with
    | [] => rfl
    | byte :: rest =>
      have hparts := hascii.2
      rw [List.take_succ_cons, List.forall_mem_cons] at hparts
      rw [runs_ascii hparts.1, List.drop_succ_cons]
      exact ih ⟨Nat.le_of_succ_le_succ hascii.1, hparts.2⟩

theorem asciiTo_skip_to_aligned {plain : UInt8 → Bool} (hplain : ∀ byte, plain byte = true → byte.toNat < 0x80)
    (address : Nat) (str : List UInt8) : AsciiTo str (skip_to_aligned plain address str) := by
  induction str generalizing address with
  | nil => exact .zero _
  | cons byte rest ih =>
    rw [skip_to_aligned]
    split
    · next hskip => exact .cons (hplain byte hskip.2) (ih (address + 1))
    · exact .zero _

/-- Four bytes without a high bit are ASCII. -/
theorem ascii_of_word {b0 b1 b2 b3 : UInt8} (hmask : fixedValue [b0, b1, b2, b3] &&& 0x80808080 = 0) :
    b0.toNat < 0x80 ∧ b1.toNat < 0x80 ∧ b2.toNat < 0x80 ∧ b3.toNat < 0x80 := by
  have hbit (position : Nat) (hset : Nat.testBit 0x80808080 position = true) :
      fixedValue [b0, b1, b2, b3] / 2 ^ position % 2 = 0 := by
    have hclear : Nat.testBit (fixedValue [b0, b1, b2, b3] &&& 0x80808080) position = false := by
      rw [hmask, Nat.zero_testBit]
    rw [Nat.testBit_and, hset, Bool.and_true, Nat.testBit_eq_decide_div_mod_eq,
      decide_eq_false_iff_not] at hclear
    omega
  have h0 := hbit 7 (by decide)
  have h1 := hbit 15 (by decide)
  have h2 := hbit 23 (by decide)
  have h3 := hbit 31 (by decide)
  have hb0 := b0.toNat_lt
  have hb1 := b1.toNat_lt
  have hb2 := b2.toNat_lt
  have hb3 := b3.toNat_lt
  simp only [fixedValue] at h0 h1 h2 h3
  omega

theorem asciiTo_eight {b0 b1 b2 b3 b4 b5 b6 b7 : UInt8} {rest : List UInt8} {position : Nat}
    (hlow : b0.toNat < 0x80 ∧ b1.toNat < 0x80 ∧ b2.toNat < 0x80 ∧ b3.toNat < 0x80)
    (hhigh : b4.toNat < 0x80 ∧ b5.toNat < 0x80 ∧ b6.toNat < 0x80 ∧ b7.toNat < 0x80)
    (hrest : AsciiTo rest position) :
    AsciiTo (b0 :: b1 :: b2 :: b3 :: b4 :: b5 :: b6 :: b7 :: rest) (8 + position) := by
  obtain ⟨h0, h1, h2, h3⟩ := hlow
  obtain ⟨h4, h5, h6, h7⟩ := hhigh
  rw [Nat.add_comm]
  exact .cons h0 (.cons h1 (.cons h2 (.cons h3 (.cons h4 (.cons h5 (.cons h6 (.cons h7 hrest)))))))

theorem asciiTo_skip_words (str : List UInt8) : AsciiTo str (skip_words str) := by
  fun_induction skip_words str with
  | case1 b0 b1 b2 b3 b4 b5 b6 b7 rest hmask ih =>
    rw [Nat.and_or_distrib_right, Nat.or_eq_zero_iff] at hmask
    exact asciiTo_eight (ascii_of_word hmask.1) (ascii_of_word hmask.2) ih
  | case2 => exact .zero _
  | case3 => exact .zero _

theorem fast_eq_zero_iff {byte : UInt8} : utf8acceptnonsurrogates_fast byte = 0 ↔ byte.toNat < 0x80 := by
  unfold utf8acceptnonsurrogates_fast
  split <;> simp_all

theorem ascii_of_fast {b0 b1 b2 b3 : UInt8}
    (hfast : utf8acceptnonsurrogates_fast b0 ||| utf8acceptnonsurrogates_fast b1 |||
      (utf8acceptnonsurrogates_fast b2 ||| utf8acceptnonsurrogates_fast b3) = 0) :
    b0.toNat < 0x80 ∧ b1.toNat < 0x80 ∧ b2.toNat < 0x80 ∧ b3.toNat < 0x80 := by
  simp only [Nat.or_eq_zero_iff, fast_eq_zero_iff] at hfast
  obtain ⟨⟨h0, h1⟩, h2, h3⟩ := hfast
  exact ⟨h0, h1, h2, h3⟩

theorem word_lt (b0 b1 b2 b3 : UInt8) : fixedValue [b0, b1, b2, b3] < 2 ^ 32 := by
  have hb0 := b0.toNat_lt
  have hb1 := b1.toNat_lt
  have hb2 := b2.toNat_lt
  have hb3 := b3.toNat_lt
  simp only [fixedValue]
  omega

/-- Eight bytes are passed only when all of them are ASCII, whatever the sums
    with `losub` let through to the second check. -/
theorem asciiTo_skip_identity (str : List UInt8) : AsciiTo str (skip_identity str) := by
  fun_induction skip_identity str with
  | case1 b0 b1 b2 b3 b4 b5 b6 b7 rest s0123 s4567 temp hmask hlow => exact .zero _
  | case2 b0 b1 b2 b3 b4 b5 b6 b7 rest s0123 s4567 temp hmask hlow hhigh =>
    obtain ⟨h0, h1, h2, h3⟩ := ascii_of_fast (not_not.mp hlow)
    exact .cons h0 (.cons h1 (.cons h2 (.cons h3 (.zero _))))
  | case3 b0 b1 b2 b3 b4 b5 b6 b7 rest s0123 s4567 temp hmask hlow hhigh ih =>
    exact asciiTo_eight (ascii_of_fast (not_not.mp hlow)) (ascii_of_fast (not_not.mp hhigh)) ih
  | case4 b0 b1 b2 b3 b4 b5 b6 b7 rest s0123 s4567 temp hmask ih =>
    have hclear := not_not.mp hmask
    simp only [temp, Nat.and_or_distrib_right, Nat.or_eq_zero_iff] at hclear
    obtain ⟨⟨⟨_, hlow⟩, _⟩, hhigh⟩ := hclear
    rw [hiadd, Nat.add_zero, Nat.mod_eq_of_lt (word_lt b0 b1 b2 b3)] at hlow
    rw [hiadd, Nat.add_zero, Nat.mod_eq_of_lt (word_lt b4 b5 b6 b7)] at hhigh
    exact asciiTo_eight (ascii_of_word hlow) (ascii_of_word hhigh) ih
  | case5 => exact .zero _

theorem asciiTo_takeWhile (str : List UInt8) :
    AsciiTo str (str.takeWhile fun byte => decide (byte.toNat < 0x80)).length := by
  refine ⟨(List.takeWhile_sublist _).length_le, ?_⟩
  rw [← List.prefix_iff_eq_take.mp (List.takeWhile_prefix _)]
  intro byte hbyte
  have hplain := List.mem_takeWhile_imp hbyte
  exact of_decide_eq_true hplain

theorem asciiTo_skip_fast (address : Nat) (str : List UInt8) : AsciiTo str (skip_fast address str) := by
  have haligned := asciiTo_skip_to_aligned
    (fun byte hplain => fast_eq_zero_iff.mp (beq_iff_eq.mp hplain)) address str
  rw [skip_fast]
  split
  · exact haligned.add (asciiTo_skip_identity _)
  · exact haligned

theorem asciiTo_skip_fast_ascii (address : Nat) (str : List UInt8) :
    AsciiTo str (skip_fast_ascii address str) := by
  have haligned := asciiTo_skip_to_aligned (fun _ hplain => of_decide_eq_true hplain) address str
  rw [skip_fast_ascii]
  split
  · exact haligned.add (asciiTo_skip_words _)
  · exact haligned

/-- The table's loop ends behind the bytes, or it breaks at one that no text
    has there. -/
theorem table_scan_cases (state e : Nat) (he : e < kExitIllegalStructure) (str : List UInt8) :
    ∃ last final passed, table_scan state e str = (last, final, passed) ∧
      ((last < kExitIllegalStructure ∧ passed = str.length ∧ runs state str = (final == 0)) ∨
        (kExitIllegalStructure ≤ last ∧ 0 < passed ∧ passed ≤ str.length ∧ runs state str = false)) := by
  induction str generalizing state e with
  | nil => exact ⟨e, state, 0, rfl, Or.inl ⟨he, rfl, rfl⟩⟩
  | cons c rest ih =>
    rw [table_scan, runs]
    by_cases hbreak : kExitIllegalStructure ≤ utf8acceptnonsurrogates state c.toNat
    · refine ⟨utf8acceptnonsurrogates state c.toNat, state, 1, if_pos hbreak, Or.inr ⟨hbreak, by omega, by simp, ?_⟩⟩
      rw [decide_eq_false (Nat.not_lt.mpr hbreak), Bool.false_and]
    · have hgoes := Nat.lt_of_not_le hbreak
      obtain ⟨last, final, passed, hscan, hcases⟩ :=
        ih (utf8acceptnonsurrogates state c.toNat) (utf8acceptnonsurrogates state c.toNat) hgoes
      refine ⟨last, final, passed + 1, ?_, ?_⟩
      · rw [if_neg hbreak, hscan]
      · rw [decide_eq_true hgoes, Bool.true_and, List.length_cons]
        rcases hcases with ⟨hlast, hpassed, hruns⟩ | ⟨hlast, hpositive, hpassed, hruns⟩
        · exact Or.inl ⟨hlast, by omega, hruns⟩
        · exact Or.inr ⟨hlast, by omega, by omega, hruns⟩

theorem back_up_le (str : List UInt8) (src : Nat) : back_up str src ≤ src - 1 := by
  induction src with
  | zero => exact Nat.le_refl 0
  | succ src ih =>
    rw [back_up]
    split <;> omega

/-- The scan consumes all of the bytes exactly when the table accepts them. -/
theorem utf8_generic_scan_eq_iff (address : Nat) (str : List UInt8) :
    (utf8_generic_scan address str).2 = str.length ↔ runs 0 str = true := by
  by_cases hempty : str = []
  · rw [hempty]
    simp [utf8_generic_scan, runs]
  · have hpositive := List.length_pos_iff.mpr hempty
    have hsrc := asciiTo_skip_fast address str
    have hlength := hsrc.1
    have hleft : (str.drop (skip_fast address str)).length = str.length - skip_fast address str :=
      List.length_drop
    obtain ⟨last, final, passed, hscan, hcases⟩ :=
      table_scan_cases 0 0 (by decide) (str.drop (skip_fast address str))
    rw [utf8_generic_scan, if_neg hempty, hsrc.runs_eq]
    dsimp only
    rw [hscan]
    dsimp only
    rcases hcases with ⟨hlast, hpassed, hruns⟩ | ⟨hlast, hpassed, hle, hruns⟩
    · rw [if_neg (Nat.not_le.mpr hlast), hruns]
      by_cases hfinal : final = 0
      · rw [if_neg (not_not.mpr hfinal), hfinal]
        simp only [beq_self_eq_true, iff_true]
        omega
      · have hback := back_up_le str (skip_fast address str + passed)
        rw [if_pos hfinal]
        simp only [beq_iff_eq, hfinal, iff_false]
        omega
    · have hback := back_up_le str (skip_fast address str + passed - 1)
      rw [if_pos hlast, hruns]
      simp only [Bool.false_eq_true, iff_false]
      split <;> omega

/-- One byte goes from a state to the state for the next. -/
theorem runs_cons_of_eq {state next : Nat} {byte : UInt8} {rest : List UInt8}
    (htable : utf8acceptnonsurrogates state byte.toNat = next) (hnext : next < kExitIllegalStructure) :
    runs state (byte :: rest) = runs next rest := by
  rw [runs, htable]
  simp [hnext]

/-- In a state inside a character the bytes of a range go on. -/
theorem runs_cons_of_range {low high : Nat} {byte : UInt8} {rest : List UInt8} (state next : Nat)
    (htable : ∀ byte, utf8acceptnonsurrogates state byte =
      if low ≤ byte ∧ byte < high then next else kExitIllegalStructure)
    (hnext : next < kExitIllegalStructure) (hlow : low ≤ byte.toNat) (hhigh : byte.toNat < high) :
    runs state (byte :: rest) = runs next rest := by
  apply runs_cons_of_eq _ hnext
  rw [htable, if_pos ⟨hlow, hhigh⟩]

theorem runs_last_trail {byte : UInt8} {rest : List UInt8} (htrail : IsTrail byte) :
    runs 1 (byte :: rest) = runs 0 rest :=
  runs_cons_of_range 1 0 (fun _ => rfl) (by decide) htrail.1 htrail.2

theorem runs_two_trails {first second : UInt8} {rest : List UInt8} (hfirst : IsTrail first)
    (hsecond : IsTrail second) : runs 3 (first :: second :: rest) = runs 0 rest := by
  rw [runs_cons_of_range 3 1 (fun _ => rfl) (by decide) hfirst.1 hfirst.2, runs_last_trail hsecond]

/-- The table accepts every character. -/
theorem runs_char_append {char : List UInt8} (hchar : IsUtf8Char char) (rest : List UInt8) :
    runs 0 (char ++ rest) = runs 0 rest := by
  have hlead {first : UInt8} {behind : List UInt8} (next : Nat) (hnext : next < kExitIllegalStructure)
      (htable : first_byte first.toNat = next) :
      runs 0 (first :: behind) = runs next behind := runs_cons_of_eq htable hnext
  cases hchar with
  | one hfirst => exact runs_ascii hfirst rest
  | @two first second hlow hhigh hsecond =>
    have htable : first_byte first.toNat = 1 := by
      unfold first_byte
      split_ifs <;> omega
    exact (hlead 1 (by decide) htable).trans (runs_last_trail hsecond)
  | @three first second third hlow hhigh hsecond hlong hsurrogate hthird =>
    unfold IsTrail at hsecond
    by_cases he0 : first.toNat = 0xE0
    · have htable : first_byte first.toNat = 2 := by rw [he0]; rfl
      refine (hlead 2 (by decide) htable).trans ?_
      exact (runs_cons_of_range 2 1 (fun _ => rfl) (by decide) (hlong he0) hsecond.2).trans
        (runs_last_trail hthird)
    · by_cases hed : first.toNat = 0xED
      · have htable : first_byte first.toNat = 7 := by rw [hed]; rfl
        refine (hlead 7 (by decide) htable).trans ?_
        have hrange : utf8acceptnonsurrogates 7 second.toNat = 1 := if_pos ⟨hsecond.1, hsurrogate hed⟩
        exact (runs_cons_of_eq hrange (by decide)).trans (runs_last_trail hthird)
      · have htable : first_byte first.toNat = 3 := by
          unfold first_byte
          split_ifs <;> omega
        exact (hlead 3 (by decide) htable).trans (runs_two_trails hsecond hthird)
  | @four first second third fourth hlow hhigh hsecond hlong hlimit hthird hfourth =>
    unfold IsTrail at hsecond
    by_cases hf0 : first.toNat = 0xF0
    · have htable : first_byte first.toNat = 4 := by rw [hf0]; rfl
      refine (hlead 4 (by decide) htable).trans ?_
      exact (runs_cons_of_range 4 3 (fun _ => rfl) (by decide) (hlong hf0) hsecond.2).trans
        (runs_two_trails hthird hfourth)
    · by_cases hf4 : first.toNat = 0xF4
      · have htable : first_byte first.toNat = 6 := by rw [hf4]; rfl
        refine (hlead 6 (by decide) htable).trans ?_
        exact (runs_cons_of_range 6 3 (fun _ => rfl) (by decide) hsecond.1 (hlimit hf4)).trans
          (runs_two_trails hthird hfourth)
      · have htable : first_byte first.toNat = 5 := by
          unfold first_byte
          split_ifs <;> omega
        refine (hlead 5 (by decide) htable).trans ?_
        exact (runs_cons_of_range 5 3 (fun _ => rfl) (by decide) hsecond.1 hsecond.2).trans
          (runs_two_trails hthird hfourth)

theorem runs_cons_eq_true {state : Nat} {byte : UInt8} {rest : List UInt8} :
    runs state (byte :: rest) = true ↔
      utf8acceptnonsurrogates state byte.toNat < kExitIllegalStructure ∧
        runs (utf8acceptnonsurrogates state byte.toNat) rest = true := by
  rw [runs, Bool.and_eq_true, decide_eq_true_iff]

/-- In a state inside a character only bytes of a range are accepted. -/
theorem exists_cons_of_runs {state next low high : Nat} {bytes : List UInt8} (hstate : state ≠ 0)
    (htable : ∀ byte, utf8acceptnonsurrogates state byte =
      if low ≤ byte ∧ byte < high then next else kExitIllegalStructure)
    (hruns : runs state bytes = true) :
    ∃ byte rest, bytes = byte :: rest ∧ low ≤ byte.toNat ∧ byte.toNat < high ∧ runs next rest = true := by
  match bytes with
  | [] =>
    rw [runs, beq_iff_eq] at hruns
    exact absurd hruns hstate
  | byte :: rest =>
    rw [runs_cons_eq_true, htable] at hruns
    by_cases hrange : low ≤ byte.toNat ∧ byte.toNat < high
    · rw [if_pos hrange] at hruns
      exact ⟨byte, rest, rfl, hrange.1, hrange.2, hruns.2⟩
    · rw [if_neg hrange] at hruns
      exact absurd hruns.1 (Nat.lt_irrefl _)

theorem exists_last_of_runs {bytes : List UInt8} (hruns : runs 1 bytes = true) :
    ∃ third rest, bytes = third :: rest ∧ IsTrail third ∧ runs 0 rest = true := by
  obtain ⟨third, rest, hbytes, hlow, hhigh, hrest⟩ :=
    exists_cons_of_runs (by decide) (fun _ => rfl) hruns
  exact ⟨third, rest, hbytes, ⟨hlow, hhigh⟩, hrest⟩

theorem exists_two_of_runs {bytes : List UInt8} (hruns : runs 3 bytes = true) :
    ∃ second third rest, bytes = second :: third :: rest ∧ IsTrail second ∧ IsTrail third ∧
      runs 0 rest = true := by
  obtain ⟨second, behind, rfl, hlow, hhigh, hbehind⟩ :=
    exists_cons_of_runs (by decide) (fun _ => rfl) hruns
  obtain ⟨third, rest, rfl, hthird, hrest⟩ := exists_last_of_runs hbehind
  exact ⟨second, third, rest, rfl, ⟨hlow, hhigh⟩, hthird, hrest⟩

theorem first_byte_cases {byte : Nat} (hgoes : first_byte byte < kExitIllegalStructure) :
    (byte < 0x80 ∧ first_byte byte = 0) ∨
      (0xC2 ≤ byte ∧ byte < 0xE0 ∧ first_byte byte = 1) ∨
      (byte = 0xE0 ∧ first_byte byte = 2) ∨
      (byte = 0xED ∧ first_byte byte = 7) ∨
      (0xE1 ≤ byte ∧ byte < 0xF0 ∧ byte ≠ 0xED ∧ first_byte byte = 3) ∨
      (byte = 0xF0 ∧ first_byte byte = 4) ∨
      (0xF1 ≤ byte ∧ byte < 0xF4 ∧ first_byte byte = 5) ∨ (byte = 0xF4 ∧ first_byte byte = 6) := by
  unfold first_byte at hgoes ⊢
  split_ifs at hgoes ⊢ <;> omega

theorem runs_eight (bytes : List UInt8) : runs 8 bytes = false := by
  match bytes with
  | [] => rfl
  | byte :: rest =>
    rw [Bool.eq_false_iff, ne_eq, runs_cons_eq_true]
    rintro ⟨hgoes, _⟩
    have htable : utf8acceptnonsurrogates 8 byte.toNat =
      if 0x80 ≤ byte.toNat ∧ byte.toNat < 0xC0 then kExitReject else kExitIllegalStructure := rfl
    rw [htable] at hgoes
    split at hgoes <;> exact absurd hgoes (by decide)

/-- Behind a first byte that leads to surrogates. -/
theorem exists_second_of_runs {bytes : List UInt8} (hruns : runs 7 bytes = true) :
    ∃ second third rest, bytes = second :: third :: rest ∧ IsTrail second ∧ second.toNat < 0xA0 ∧
      IsTrail third ∧ runs 0 rest = true := by
  match bytes with
  | [] => cases hruns
  | second :: behind =>
    obtain ⟨hgoes, hbehind⟩ := runs_cons_eq_true.mp hruns
    by_cases hlow : 0x80 ≤ second.toNat ∧ second.toNat < 0xA0
    · have htable : utf8acceptnonsurrogates 7 second.toNat = 1 := if_pos hlow
      rw [htable] at hbehind
      obtain ⟨third, rest, rfl, hthird, hrest⟩ := exists_last_of_runs hbehind
      exact ⟨second, third, rest, rfl, ⟨hlow.1, by omega⟩, hlow.2, hthird, hrest⟩
    · have htable : utf8acceptnonsurrogates 7 second.toNat = _ := if_neg hlow
      by_cases hhigh : 0xA0 ≤ second.toNat ∧ second.toNat < 0xC0
      · rw [if_pos hhigh] at htable
        rw [htable, runs_eight] at hbehind
        cases hbehind
      · rw [if_neg hhigh] at htable
        rw [htable] at hgoes
        exact absurd hgoes (Nat.lt_irrefl _)

/-- What the table accepts begins with a character. -/
theorem exists_char_of_runs {first : UInt8} {behind : List UInt8}
    (hruns : runs 0 (first :: behind) = true) :
    ∃ char rest, first :: behind = char ++ rest ∧ IsUtf8Char char ∧ runs 0 rest = true := by
  obtain ⟨hgoes, hbehind⟩ := runs_cons_eq_true.mp hruns
  change first_byte first.toNat < _ at hgoes
  change runs (first_byte first.toNat) behind = true at hbehind
  rcases first_byte_cases hgoes with ⟨hone, hrow⟩ | ⟨hlow, hhigh, hrow⟩ | ⟨he0, hrow⟩ | ⟨hed, hrow⟩ |
    ⟨hlow, hhigh, hned, hrow⟩ | ⟨hf0, hrow⟩ | ⟨hlow, hhigh, hrow⟩ | ⟨hf4, hrow⟩ <;> rw [hrow] at hbehind
  · exact ⟨[first], behind, rfl, .one hone, hbehind⟩
  · obtain ⟨second, rest, rfl, hsecond, hrest⟩ := exists_last_of_runs hbehind
    exact ⟨[first, second], rest, rfl, .two hlow hhigh hsecond, hrest⟩
  · obtain ⟨second, more, rfl, hsecond, htop, hmore⟩ :=
      exists_cons_of_runs (by decide) (fun _ => rfl) hbehind
    obtain ⟨third, rest, rfl, hthird, hrest⟩ := exists_last_of_runs hmore
    exact ⟨[first, second, third], rest, rfl,
      .three (by omega) (by omega) ⟨by omega, htop⟩ (fun _ => hsecond) (by omega) hthird, hrest⟩
  · obtain ⟨second, third, rest, rfl, hsecond, hlimit, hthird, hrest⟩ := exists_second_of_runs hbehind
    exact ⟨[first, second, third], rest, rfl,
      .three (by omega) (by omega) hsecond (by omega) (fun _ => hlimit) hthird, hrest⟩
  · obtain ⟨second, third, rest, rfl, hsecond, hthird, hrest⟩ := exists_two_of_runs hbehind
    exact ⟨[first, second, third], rest, rfl,
      .three (by omega) hhigh hsecond (by omega) (by omega) hthird, hrest⟩
  · obtain ⟨second, more, rfl, hsecond, htop, hmore⟩ :=
      exists_cons_of_runs (by decide) (fun _ => rfl) hbehind
    obtain ⟨third, fourth, rest, rfl, hthird, hfourth, hrest⟩ := exists_two_of_runs hmore
    exact ⟨[first, second, third, fourth], rest, rfl,
      .four (by omega) (by omega) ⟨by omega, htop⟩ (fun _ => hsecond) (by omega) hthird hfourth, hrest⟩
  · obtain ⟨second, more, rfl, hsecond, htop, hmore⟩ :=
      exists_cons_of_runs (by decide) (fun _ => rfl) hbehind
    obtain ⟨third, fourth, rest, rfl, hthird, hfourth, hrest⟩ := exists_two_of_runs hmore
    exact ⟨[first, second, third, fourth], rest, rfl,
      .four (by omega) (by omega) ⟨hsecond, htop⟩ (by omega) (by omega) hthird hfourth, hrest⟩
  · obtain ⟨second, more, rfl, hsecond, htop, hmore⟩ :=
      exists_cons_of_runs (by decide) (fun _ => rfl) hbehind
    obtain ⟨third, fourth, rest, rfl, hthird, hfourth, hrest⟩ := exists_two_of_runs hmore
    exact ⟨[first, second, third, fourth], rest, rfl,
      .four (by omega) (by omega) ⟨hsecond, by omega⟩ (by omega) (fun _ => htop) hthird hfourth, hrest⟩

/-- The table accepts the texts that are sequences of characters. -/
theorem runs_iff {bytes : List UInt8} : runs 0 bytes = true ↔ IsUtf8 bytes := by
  constructor
  · induction hlength : bytes.length using Nat.strong_induction_on generalizing bytes with
    | _ count ih =>
      intro hruns
      match bytes with
      | [] => exact .nil
      | first :: behind =>
        obtain ⟨char, rest, hbytes, hchar, hrest⟩ := exists_char_of_runs hruns
        have hpositive : 0 < char.length := by cases hchar <;> simp
        rw [hbytes] at hlength ⊢
        rw [List.length_append] at hlength
        exact .cons hchar (ih rest.length (by omega) rfl hrest)
  · intro hbytes
    induction hbytes with
    | nil => rfl
    | cons hchar _ ih => rw [runs_char_append hchar, ih]

/-- How much of the text is passed eight bytes at a time makes no difference. -/
theorem is_structurally_valid_utf8_eq_true_iff (address : Nat) (text : List UInt8) :
    is_structurally_valid_utf8 address text = true ↔ IsUtf8 text := by
  rw [← runs_iff, is_structurally_valid_utf8, beq_iff_eq, utf8_generic_scan_fast_ascii]
  by_cases hempty : text = []
  · rw [if_pos hempty, hempty]
    simp [runs]
  · have hsingle := asciiTo_takeWhile (text.drop (skip_fast_ascii address text))
    have hsrc := (asciiTo_skip_fast_ascii address text).add hsingle
    rw [if_neg hempty, hsrc.runs_eq]
    dsimp only
    generalize skip_fast_ascii address text + _ = src at hsrc ⊢
    rw [← utf8_generic_scan_eq_iff (address + src), List.length_drop]
    have hlength := hsrc.1
    omega

/-- The check of a text accepts exactly the encodings of sequences of
    characters, without surrogates and in their shortest forms, wherever the
    text lies in memory. -/
theorem is_structurally_valid_utf8_iff (address : Nat) (text : List UInt8) :
    is_structurally_valid_utf8 address text = true ↔
      ∃ chars : List Char, text = chars.flatMap String.utf8EncodeChar := by
  rw [is_structurally_valid_utf8_eq_true_iff, isUtf8_iff]

end topview.protobuf
