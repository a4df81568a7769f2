import Mathlib.Algebra.Order.BigOperators.Group.List
import Mathlib.Algebra.Order.Ring.Int

/-!
# `ProcessAnalyzer.Lib.CInt`: machine integers without overflow

The 64-bit C types are `Int64` and `UInt64`, whose arithmetic wraps. The lemmas here give
the integer value of the operations that C code uses where the result is in range: signed
sums and differences of nonnegative numbers, the conversions between the two types, and
`labs`.
-/

set_option autoImplicit false

namespace ProcessAnalyzer.Lib

/-- The balanced remainder of a number in the signed range is the number. -/
theorem bmod_two_pow_64_of_mem {z : Int} (hlo : -2 ^ 63 ≤ z) (hhi : z < 2 ^ 63) :
    z.bmod (2 ^ 64) = z := by
  apply Int.bmod_eq_of_le
  · simpa using hlo
  · simpa using hhi

/-- Bounds of a signed 64-bit value. -/
theorem toInt_mem (a : Int64) : -2 ^ 63 ≤ a.toInt ∧ a.toInt < 2 ^ 63 :=
  ⟨by simpa using Int64.le_toInt a, by simpa using Int64.toInt_lt a⟩

/-- A signed sum in range does not wrap. -/
theorem toInt_add_of_mem {a b : Int64} (hlo : -2 ^ 63 ≤ a.toInt + b.toInt)
    (hhi : a.toInt + b.toInt < 2 ^ 63) : (a + b).toInt = a.toInt + b.toInt := by
  rw [Int64.toInt_add]
  exact bmod_two_pow_64_of_mem hlo hhi

/-- A signed product is exact if and only if it is in range. -/
theorem toInt_mul_eq_iff (a b : Int64) :
    (a * b).toInt = a.toInt * b.toInt ↔
      -2 ^ 63 ≤ a.toInt * b.toInt ∧ a.toInt * b.toInt < 2 ^ 63 := by
  constructor
  · intro h
    rw [← h]
    exact toInt_mem (a * b)
  · intro h
    rw [Int64.toInt_mul]
    exact bmod_two_pow_64_of_mem h.1 h.2

/-- The difference of two nonnegative signed numbers does not wrap. -/
theorem toInt_sub_of_nonneg {a b : Int64} (ha : 0 ≤ a.toInt) (hb : 0 ≤ b.toInt) :
    (a - b).toInt = a.toInt - b.toInt := by
  have hma := toInt_mem a
  have hmb := toInt_mem b
  rw [Int64.toInt_sub]
  exact bmod_two_pow_64_of_mem (by omega) (by omega)

/-- An unsigned number below `2 ^ 63` keeps its value as a signed number. -/
theorem toInt_toInt64_of_lt {w : UInt64} (h : w.toNat < 2 ^ 63) : w.toInt64.toInt = w.toNat := by
  show w.toBitVec.toInt = _
  rw [BitVec.toInt_eq_toNat_of_lt]
  · rfl
  · have : w.toBitVec.toNat = w.toNat := rfl
    omega

/-- A nonnegative signed number keeps its value as an unsigned number. -/
theorem toNat_toUInt64_of_nonneg {a : Int64} (h : 0 ≤ a.toInt) :
    (a.toUInt64.toNat : Int) = a.toInt := by
  rw [Int64.toNat_toUInt64_of_le (by rw [Int64.le_iff_toInt_le]; simpa using h)]
  exact Int.toNat_of_nonneg h

/-- The signed difference of two unsigned numbers below `2 ^ 63`, computed unsigned. -/
theorem toInt_sub_toInt64_of_lt {a b : UInt64} (ha : a.toNat < 2 ^ 63) (hb : b.toNat < 2 ^ 63) :
    (a - b).toInt64.toInt = (a.toNat : Int) - b.toNat := by
  have hva := toInt_toInt64_of_lt ha
  have hvb := toInt_toInt64_of_lt hb
  rw [UInt64.toInt64_sub, toInt_sub_of_nonneg (by omega) (by omega), hva, hvb]

/-- `labs` is the absolute value everywhere but at the smallest number. -/
theorem toInt_abs_of_ne {a : Int64} (h : -2 ^ 63 < a.toInt) : a.abs.toInt = |a.toInt| := by
  have hne : a.toBitVec ≠ BitVec.intMin 64 := by
    intro he
    have hmin : a.toInt = (BitVec.intMin 64).toInt := congrArg BitVec.toInt he
    rw [BitVec.toInt_intMin] at hmin
    omega
  show a.toBitVec.abs.toInt = _
  rw [BitVec.toInt_abs_eq_natAbs_of_ne_intMin hne, Int.abs_eq_natAbs]
  rfl

/-- A wrapping sum of nonnegative numbers whose total is in range is their sum. -/
theorem toInt_foldl_add (vs : List Int64) (acc : Int64) (hacc : 0 ≤ acc.toInt)
    (hvs : ∀ v ∈ vs, 0 ≤ v.toInt) (hsum : acc.toInt + (vs.map Int64.toInt).sum < 2 ^ 63) :
    (vs.foldl (· + ·) acc).toInt = acc.toInt + (vs.map Int64.toInt).sum := by
  induction vs generalizing acc with
  | nil => simp
  | cons v vs ih =>
      have hv : 0 ≤ v.toInt := hvs v List.mem_cons_self
      have hrest : ∀ w ∈ vs, 0 ≤ w.toInt := fun w hw => hvs w (List.mem_cons_of_mem _ hw)
      have hnonneg : 0 ≤ (vs.map Int64.toInt).sum :=
        List.sum_nonneg fun z hz => by
          obtain ⟨w, hw, rfl⟩ := List.mem_map.mp hz
          exact hrest w hw
      rw [List.map_cons, List.sum_cons] at hsum ⊢
      have hadd : (acc + v).toInt = acc.toInt + v.toInt := toInt_add_of_mem (by omega) (by omega)
      rw [List.foldl_cons, ih (acc + v) (by omega) hrest (by omega), hadd]
      omega

end ProcessAnalyzer.Lib
