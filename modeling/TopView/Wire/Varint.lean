import Mathlib.Data.Nat.Log
import Mathlib.Tactic.Ring

namespace topview.wire

/-- The number spelled by the seven low bits of every byte, low bits first. -/
def groupValue : List UInt8 → Nat
  | [] => 0
  | byte :: rest => byte.toNat % 128 + 128 * groupValue rest

/-- A varint. Every byte but the last one has its high bit set. -/
inductive IsVarint : List UInt8 → Prop
  | last {byte : UInt8} (hlow : byte.toNat < 128) : IsVarint [byte]
  | more {byte : UInt8} {rest : List UInt8} (hhigh : 128 ≤ byte.toNat) (hrest : IsVarint rest) :
    IsVarint (byte :: rest)

/-- The varint of at most `limit` bytes that the bytes begin with, and what
    stands behind it. -/
def takeVarint : Nat → List UInt8 → Option (List UInt8 × List UInt8)
  | 0, _ => none
  | _ + 1, [] => none
  | limit + 1, byte :: rest =>
    if byte.toNat < 128 then some ([byte], rest)
    else (takeVarint limit rest).map fun found => (byte :: found.1, found.2)

/-- A varint of at most `more + 1` bytes. -/
def varintGroups : Nat → Nat → List UInt8
  | 0, value => [UInt8.ofNat value]
  | more + 1, value =>
    if value < 128 then [UInt8.ofNat value]
    else UInt8.ofNat (value % 128 + 128) :: varintGroups more (value / 128)

/-- The shortest varint of a number. -/
def varint (value : Nat) : List UInt8 := varintGroups value value

theorem takeVarint_eq_some_iff {limit : Nat} {bytes encoded behind : List UInt8} :
    takeVarint limit bytes = some (encoded, behind) ↔
      bytes = encoded ++ behind ∧ IsVarint encoded ∧ encoded.length ≤ limit := by
  induction limit generalizing bytes encoded with
  | zero =>
    constructor
    · intro htake
      cases htake
    · rintro ⟨_, hvarint, hlength⟩
      cases hvarint <;> simp at hlength
  | succ limit ih =>
    match bytes with
    | [] =>
      constructor
      · intro htake
        cases htake
      · rintro ⟨hempty, hvarint, _⟩
        cases hvarint <;> simp at hempty
    | byte :: rest =>
      rw [takeVarint]
      by_cases hlow : byte.toNat < 128
      · rw [if_pos hlow, Option.some.injEq, Prod.mk.injEq]
        constructor
        · rintro ⟨rfl, rfl⟩
          exact ⟨rfl, .last hlow, by simp⟩
        · rintro ⟨hbytes, hvarint, _⟩
          cases hvarint with
          | last _ => simpa using hbytes
          | more hhigh _ =>
            obtain ⟨rfl, _⟩ := List.cons.inj hbytes
            omega
      · rw [if_neg hlow, Option.map_eq_some_iff]
        constructor
        · rintro ⟨⟨high, left⟩, htake, hpair⟩
          obtain ⟨rfl, rfl⟩ := Prod.mk.inj hpair
          obtain ⟨rfl, hvarint, hlength⟩ := ih.mp htake
          exact ⟨rfl, .more (by omega) hvarint, by simpa using hlength⟩
        · rintro ⟨hbytes, hvarint, hlength⟩
          cases hvarint with
          | last hbyte =>
            obtain ⟨rfl, _⟩ := List.cons.inj hbytes
            exact absurd hbyte hlow
          | @more _ high _ hhigh =>
            obtain ⟨rfl, rfl⟩ := List.cons.inj hbytes
            exact ⟨(high, behind), ih.mpr ⟨rfl, hhigh, by simpa using hlength⟩, rfl⟩

/-- Bytes with a high bit come before the varint's end. -/
theorem takeVarint_append_of_high {seen : List UInt8} (hhigh : ∀ byte ∈ seen, 128 ≤ byte.toNat)
    (limit : Nat) (more : List UInt8) :
    takeVarint (limit + seen.length) (seen ++ more) =
      (takeVarint limit more).map fun found => (seen ++ found.1, found.2) := by
  induction seen with
  | nil => simp
  | cons byte rest ih =>
    obtain ⟨hbyte, hrest⟩ := List.forall_mem_cons.mp hhigh
    rw [List.length_cons, ← Nat.add_assoc, List.cons_append, takeVarint, if_neg (by omega), ih hrest,
      Option.map_map]
    rfl

/-- Without a varint in them, all of the bytes looked at have a high bit. -/
theorem high_of_takeVarint_eq_none {limit : Nat} {bytes : List UInt8}
    (hnone : takeVarint limit bytes = none) (hlength : limit ≤ bytes.length) :
    ∀ byte ∈ bytes.take limit, 128 ≤ byte.toNat := by
  induction limit generalizing bytes with
  | zero => simp
  | succ limit ih =>
    match bytes with
    | [] => simp at hlength
    | byte :: rest =>
      rw [takeVarint] at hnone
      by_cases hlow : byte.toNat < 128
      · rw [if_pos hlow] at hnone
        cases hnone
      · rw [if_neg hlow, Option.map_eq_none_iff] at hnone
        rw [List.take_succ_cons, List.forall_mem_cons]
        exact ⟨by omega, ih hnone (by simpa using hlength)⟩

/-- A search may look at the first bytes alone, and at the others when no
    varint ends in them. -/
theorem takeVarint_append (limit : Nat) (seen more : List UInt8) :
    takeVarint (limit + seen.length) (seen ++ more) =
      match takeVarint seen.length seen with
      | some (encoded, behind) => some (encoded, behind ++ more)
      | none => (takeVarint limit more).map fun found => (seen ++ found.1, found.2) := by
  cases htake : takeVarint seen.length seen with
  | none =>
    have hhigh := high_of_takeVarint_eq_none htake (Nat.le_refl _)
    rw [List.take_length] at hhigh
    exact takeVarint_append_of_high hhigh limit more
  | some found =>
    obtain ⟨encoded, behind⟩ := found
    obtain ⟨hseen, hvarint, hlength⟩ := takeVarint_eq_some_iff.mp htake
    apply takeVarint_eq_some_iff.mpr
    exact ⟨by rw [← List.append_assoc, ← hseen], hvarint, by omega⟩

theorem IsVarint.ne_nil {bytes : List UInt8} (hvarint : IsVarint bytes) : bytes ≠ [] := by
  cases hvarint <;> exact List.cons_ne_nil _ _

theorem IsVarint.length_pos {bytes : List UInt8} (hvarint : IsVarint bytes) : 0 < bytes.length :=
  List.length_pos_iff.mpr hvarint.ne_nil

theorem groupValue_append (first second : List UInt8) :
    groupValue (first ++ second) = groupValue first + 128 ^ first.length * groupValue second := by
  induction first with
  | nil => simp [groupValue]
  | cons byte rest ih =>
    rw [List.cons_append, groupValue, groupValue, ih, List.length_cons, Nat.pow_succ]
    ring

theorem groupValue_concat_of_lt (seen : List UInt8) {byte : UInt8} (hlow : byte.toNat < 128) :
    groupValue (seen ++ [byte]) = groupValue seen + 128 ^ seen.length * byte.toNat := by
  rw [groupValue_append, groupValue, groupValue, Nat.mod_eq_of_lt hlow, Nat.mul_zero, Nat.add_zero]

theorem groupValue_concat_of_le (seen : List UInt8) {byte : UInt8} (hhigh : 128 ≤ byte.toNat) :
    groupValue (seen ++ [byte]) + 128 ^ (seen.length + 1) =
      groupValue seen + 128 ^ seen.length * byte.toNat := by
  have hbyte := byte.toNat_lt
  have hsplit : byte.toNat = byte.toNat % 128 + 128 := by omega
  rw [groupValue_append, groupValue, groupValue, Nat.pow_succ, hsplit]
  simp only [Nat.add_mod_right, Nat.mod_mod]
  ring

theorem groupValue_lt (bytes : List UInt8) : groupValue bytes < 128 ^ bytes.length := by
  induction bytes with
  | nil => simp [groupValue]
  | cons byte rest ih =>
    rw [groupValue, List.length_cons, Nat.pow_succ]
    omega

/-- Fuel above the number of groups changes nothing. -/
theorem varintGroups_eq_of_lt {more : Nat} {value : Nat} (hlt : value < 128 ^ (more + 1))
    (extra : Nat) : varintGroups (more + extra) value = varintGroups more value := by
  induction more generalizing value with
  | zero =>
    cases extra with
    | zero => rfl
    | succ extra =>
      have hsmall : value < 128 := by simpa using hlt
      rw [Nat.zero_add, varintGroups, varintGroups, if_pos hsmall]
  | succ more ih =>
    rw [Nat.succ_add, varintGroups, varintGroups]
    have hquotient : value / 128 < 128 ^ (more + 1) := by
      rw [Nat.pow_succ] at hlt
      exact Nat.div_lt_of_lt_mul (by omega)
    rw [ih hquotient]

theorem varintGroups_eq_varint {more value : Nat} (hlt : value < 128 ^ (more + 1)) :
    varintGroups more value = varint value := by
  have hself : value < 128 ^ (value + 1) :=
    lt_trans (Nat.lt_pow_self (by omega)) (Nat.pow_lt_pow_right (by omega) (Nat.lt_succ_self value))
  rcases Nat.le_total more value with hle | hle
  · obtain ⟨extra, rfl⟩ := Nat.exists_eq_add_of_le hle
    exact (varintGroups_eq_of_lt hlt extra).symm
  · obtain ⟨extra, rfl⟩ := Nat.exists_eq_add_of_le hle
    exact varintGroups_eq_of_lt hself extra

theorem varint_of_lt {value : Nat} (hlt : value < 128) : varint value = [UInt8.ofNat value] := by
  have hgroups : varintGroups 0 value = varint value := varintGroups_eq_varint (by simpa using hlt)
  rw [← hgroups, varintGroups]

theorem varint_of_le {value : Nat} (hle : 128 ≤ value) :
    varint value = UInt8.ofNat (value % 128 + 128) :: varint (value / 128) := by
  obtain ⟨fuel, hfuel⟩ : ∃ fuel, value = fuel + 1 := ⟨value - 1, by omega⟩
  have hquotient : value / 128 < 128 ^ (fuel + 1) :=
    lt_of_lt_of_le (Nat.div_lt_self (by omega) (by omega))
      (hfuel ▸ Nat.le_of_lt (Nat.lt_pow_self (by omega)))
  rw [varint]
  conv_lhs => rw [hfuel]
  rw [varintGroups, if_neg (by omega), ← hfuel, varintGroups_eq_varint hquotient]

theorem isVarint_varint (value : Nat) : IsVarint (varint value) := by
  induction value using Nat.strong_induction_on with
  | _ value ih =>
    rcases Nat.lt_or_ge value 128 with hlt | hle
    · rw [varint_of_lt hlt]
      exact .last (by rw [UInt8.toNat_ofNat']; omega)
    · rw [varint_of_le hle]
      exact .more (by rw [UInt8.toNat_ofNat']; omega) (ih _ (by omega))

@[simp] theorem groupValue_varint (value : Nat) : groupValue (varint value) = value := by
  induction value using Nat.strong_induction_on with
  | _ value ih =>
    rcases Nat.lt_or_ge value 128 with hlt | hle
    · rw [varint_of_lt hlt, groupValue, groupValue, UInt8.toNat_ofNat']
      omega
    · rw [varint_of_le hle, groupValue, ih _ (by omega), UInt8.toNat_ofNat']
      omega

theorem length_varint (value : Nat) : (varint value).length = Nat.log 128 value + 1 := by
  induction value using Nat.strong_induction_on with
  | _ value ih =>
    rcases Nat.lt_or_ge value 128 with hlt | hle
    · rw [varint_of_lt hlt, Nat.log_of_lt hlt, List.length_singleton]
    · rw [varint_of_le hle, List.length_cons, ih _ (by omega), Nat.log_of_one_lt_of_le (by omega) hle]

theorem length_varint_mono {first second : Nat} (hle : first ≤ second) :
    (varint first).length ≤ (varint second).length := by
  rw [length_varint, length_varint]
  exact Nat.add_le_add_right (Nat.log_mono_right hle) 1

theorem length_varint_le_of_lt {value count : Nat} (hlt : value < 128 ^ (count + 1)) :
    (varint value).length ≤ count + 1 := by
  rw [length_varint]
  have hlog := Nat.log_lt_of_lt_pow' (b := 128) (by omega : count + 1 ≠ 0) hlt
  omega

/-- A number written again, or one that is smaller, takes no more bytes than
    the varint it was read from. -/
theorem IsVarint.length_varint_le {encoded : List UInt8} {value : Nat} (hvarint : IsVarint encoded)
    (hle : value ≤ groupValue encoded) : (varint value).length ≤ encoded.length := by
  obtain ⟨count, hcount⟩ : ∃ count, encoded.length = count + 1 :=
    ⟨encoded.length - 1, by have := hvarint.length_pos; omega⟩
  rw [hcount]
  apply length_varint_le_of_lt
  rw [← hcount]
  exact lt_of_le_of_lt hle (groupValue_lt encoded)

end topview.wire
