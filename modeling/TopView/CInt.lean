import Mathlib.Algebra.Group.Int.Defs
import Mathlib.Algebra.Group.Nat.Defs
import Mathlib.Tactic.Common

namespace topview

/-- Conversion to `size_t`, 64 bits wide. -/
@[irreducible] def toSizeT (value : Int) : Nat := (value % 2 ^ 64).toNat

/-- Conversion to `int`, 32 bits wide. An out-of-range value wraps. -/
@[irreducible] def toInt (value : Int) : Int := value.bmod (2 ^ 32)

/-- Conversion of an unsigned value to `uint16_t`. -/
def toUInt16 (value : Nat) : Nat := value % 2 ^ 16

theorem toSizeT_of_bounds {value : Int} (hlo : 0 ≤ value) (hhi : value < 2 ^ 64) :
    (toSizeT value : Int) = value := by
  unfold toSizeT
  omega

/-- A sum of positions is taken exactly. -/
theorem toSizeT_add_of_lt {first second : Nat} (hlt : first + second < 2 ^ 64) :
    toSizeT (first + second) = first + second := by
  have hexact : (toSizeT (first + second) : Int) = first + second :=
    toSizeT_of_bounds (by omega) (by omega)
  omega

theorem toInt_of_bounds {value : Int} (hlo : -2 ^ 31 ≤ value) (hhi : value < 2 ^ 31) :
    toInt value = value := by
  unfold toInt
  rw [Int.bmod_def]
  omega

theorem toUInt16_of_lt {value : Nat} (hlt : value < 2 ^ 16) : toUInt16 value = value :=
  Nat.mod_eq_of_lt hlt

/-- As long as a 32-bit counter has not wrapped, it gives different values. -/
theorem eq_of_drawn_eq {first second : Nat} (hfirst : first < 2 ^ 32) (hsecond : second < 2 ^ 32)
    (heq : BitVec.ofNat 32 first = BitVec.ofNat 32 second) : first = second := by
  have hnat := congrArg BitVec.toNat heq
  rwa [BitVec.toNat_ofNat, BitVec.toNat_ofNat, Nat.mod_eq_of_lt hfirst, Nat.mod_eq_of_lt hsecond]
    at hnat

/-- The two bytes of a `uint16_t` in memory, low byte first. -/
def uint16Bytes (value : Nat) : List UInt8 := [UInt8.ofNat value, UInt8.ofNat (value / 2 ^ 8)]

/-- A `uint16_t` read from the front of memory. -/
def readUInt16 : List UInt8 → Nat
  | low :: high :: _ => low.toNat + 2 ^ 8 * high.toNat
  | _ => 0

@[simp] theorem length_uint16Bytes (value : Nat) : (uint16Bytes value).length = 2 := rfl

theorem readUInt16_lt (memory : List UInt8) : readUInt16 memory < 2 ^ 16 := by
  unfold readUInt16
  split
  · next low high _ =>
    have hlow := low.toNat_lt
    have hhigh := high.toNat_lt
    omega
  · decide

/-- A stored `uint16_t` is read back, whatever bytes lie behind it. -/
theorem readUInt16_uint16Bytes_append {value : Nat} (hlt : value < 2 ^ 16)
    (more : List UInt8) : readUInt16 (uint16Bytes value ++ more) = value := by
  simp only [uint16Bytes, List.cons_append, List.nil_append, readUInt16, UInt8.toNat_ofNat']
  omega

/-- Reading looks at two bytes only. -/
theorem readUInt16_append {memory : List UInt8} (hlength : 2 ≤ memory.length)
    (more : List UInt8) : readUInt16 (memory ++ more) = readUInt16 memory := by
  match memory, hlength with
  | low :: high :: rest, _ => rfl

end topview
