import Mathlib.Algebra.Order.Ring.Nat
import Mathlib.Data.Int.Log
import Mathlib.Data.Nat.Log
import Mathlib.Data.Rat.Floor

/-!
# `ProcessAnalyzer.Lib.Binary64`: numbers as binary64 numbers

The binary64 number nearest to an integer, ties to even, for integers below the overflow
bound `2 ^ 1024`. Such a number is again an integer, so no number format is needed here:
`roundInt` is a function on integers. `roundNat_eq_self_iff` says which integers are exact:
those whose significant bits fit into 53 places.

`roundRat` is the same for rational numbers, with the subnormal numbers, and again below the
overflow bound. `roundRat_intCast` says that the two agree.
-/

set_option autoImplicit false

namespace ProcessAnalyzer.Lib

/-- The exponent of the last place of `n`, when it has more than 53 bits. -/
def lastPlace (n : ℕ) : ℕ := Nat.log 2 n - 52

/-- The nearest binary64 number to `n`. -/
def roundNat (n : ℕ) : ℕ :=
  let unit := 2 ^ lastPlace n
  let q := n / unit
  let r := n % unit
  if 2 * r > unit ∨ (2 * r = unit ∧ q % 2 = 1) then (q + 1) * unit else q * unit

/-- The nearest binary64 number to `z`. -/
def roundInt (z : Int) : Int := if z < 0 then -(roundNat z.natAbs : Int) else roundNat z.natAbs

/-- The number is a binary64 number: 53 significant bits are enough. -/
def FitsBinary64 (n : ℕ) : Prop := ∃ m e, m < 2 ^ 53 ∧ n = m * 2 ^ e

/-- The leading 53 bits are a number below `2 ^ 53`. -/
theorem lt_of_lastPlace (n : ℕ) : n < 2 ^ 53 * 2 ^ lastPlace n := by
  have hlog := Nat.lt_pow_succ_log_self (b := 2) (by decide) n
  have hexp : Nat.log 2 n + 1 ≤ 53 + lastPlace n := by
    unfold lastPlace
    omega
  calc n < 2 ^ (Nat.log 2 n + 1) := hlog
    _ ≤ 2 ^ (53 + lastPlace n) := Nat.pow_le_pow_right (by decide) hexp
    _ = 2 ^ 53 * 2 ^ lastPlace n := Nat.pow_add 2 53 (lastPlace n)

/-- A binary64 number is a multiple of the unit of its last place. -/
theorem lastPlace_dvd {n : ℕ} (h : FitsBinary64 n) : 2 ^ lastPlace n ∣ n := by
  obtain ⟨m, e, hm, rfl⟩ := h
  rcases Nat.lt_or_ge e (lastPlace (m * 2 ^ e)) with hlt | hge
  · -- With a smaller exponent the number would have too few bits.
    have hpos : m * 2 ^ e ≠ 0 := by
      intro h0
      simp [lastPlace, h0] at hlt
    have hlog := Nat.pow_log_le_self 2 hpos
    have hbits : Nat.log 2 (m * 2 ^ e) ≥ 53 + e := by
      unfold lastPlace at hlt
      omega
    have hsmall : m * 2 ^ e < 2 ^ (53 + e) := by
      rw [Nat.pow_add]
      exact Nat.mul_lt_mul_of_pos_right hm (Nat.two_pow_pos e)
    have hle : 2 ^ (53 + e) ≤ 2 ^ Nat.log 2 (m * 2 ^ e) := Nat.pow_le_pow_right (by decide) hbits
    omega
  · exact Nat.dvd_mul_left_of_dvd (Nat.pow_dvd_pow 2 hge) m

/-- The integers that are exact. -/
theorem roundNat_eq_self_iff (n : ℕ) : roundNat n = n ↔ FitsBinary64 n := by
  have hunit : 0 < 2 ^ lastPlace n := Nat.two_pow_pos _
  have hlt := lt_of_lastPlace n
  have hq : n / 2 ^ lastPlace n < 2 ^ 53 := Nat.div_lt_of_lt_mul (by rwa [Nat.mul_comm])
  constructor
  · intro h
    unfold roundNat at h
    simp only at h
    split at h
    · -- Rounding up by a whole unit leaves no room for the number itself.
      have hmod := Nat.mod_lt n hunit
      have hdiv := Nat.div_add_mod' n (2 ^ lastPlace n)
      rw [Nat.add_mul] at h
      omega
    · exact ⟨_, _, hq, h.symm⟩
  · intro h
    have hdvd := lastPlace_dvd h
    have hmod : n % 2 ^ lastPlace n = 0 := Nat.mod_eq_zero_of_dvd hdvd
    unfold roundNat
    simp only [hmod]
    rw [if_neg (by omega), Nat.div_mul_cancel hdvd]

/-- Integers of at most 53 bits are exact. -/
theorem fitsBinary64_of_lt {n : ℕ} (h : n < 2 ^ 53) : FitsBinary64 n := ⟨n, 0, h, by simp⟩

/-- The same for integers with a sign. -/
theorem roundInt_eq_self_iff (z : Int) : roundInt z = z ↔ FitsBinary64 z.natAbs := by
  rw [← roundNat_eq_self_iff]
  unfold roundInt
  split <;> omega

/-- Rounding keeps a number that is not negative so. -/
theorem roundInt_nonneg {z : Int} (h : 0 ≤ z) : 0 ≤ roundInt z := by
  unfold roundInt
  rw [if_neg (by omega)]
  exact Int.natCast_nonneg _

/-! ### Fractions -/

/-- The nearest integer, ties to even. -/
def nearestInt (q : ℚ) : Int :=
  let k := ⌊q⌋
  let r := q - k
  if 1 < 2 * r ∨ (2 * r = 1 ∧ k % 2 = 1) then k + 1 else k

/-- The unit of the last place of the binary64 numbers near to `q`. -/
def lastUnit (q : ℚ) : ℚ := 2 ^ max (Int.log 2 |q| - 52) (-1074)

/-- The binary64 number nearest to `q`, ties to even. -/
def roundRat (q : ℚ) : ℚ := nearestInt (q / lastUnit q) * lastUnit q

theorem nearestInt_intCast (z : Int) : nearestInt z = z := by
  unfold nearestInt
  simp only [Int.floor_intCast, sub_self, mul_zero]
  rw [if_neg]
  norm_num

/-- A fraction of natural numbers is rounded by the remainder of the division. -/
theorem nearestInt_natCast_div (n : ℕ) {u : ℕ} (hu : 0 < u) :
    nearestInt ((n : ℚ) / u)
      = if 2 * (n % u) > u ∨ (2 * (n % u) = u ∧ n / u % 2 = 1) then (n / u + 1 : ℕ)
        else (n / u : ℕ) := by
  have hpos : (0 : ℚ) < u := by exact_mod_cast hu
  have hfloor : ⌊(n : ℚ) / u⌋ = ((n / u : ℕ) : Int) := Rat.floor_natCast_div_natCast n u
  have hrest : 2 * ((n : ℚ) / u - (n / u : ℕ)) = ((2 * (n % u) : ℕ) : ℚ) / u := by
    have hdiv : (n : ℚ) = u * (n / u : ℕ) + (n % u : ℕ) := by
      exact_mod_cast (Nat.div_add_mod n u).symm
    rw [eq_div_iff hpos.ne', mul_assoc, sub_mul, div_mul_cancel₀ _ hpos.ne']
    push_cast at hdiv ⊢
    linarith
  unfold nearestInt
  simp only [hfloor, Int.cast_natCast, hrest]
  have hgt : 1 < ((2 * (n % u) : ℕ) : ℚ) / u ↔ 2 * (n % u) > u := by
    rw [one_lt_div hpos]
    exact_mod_cast Iff.rfl
  have heq : ((2 * (n % u) : ℕ) : ℚ) / u = 1 ↔ 2 * (n % u) = u := by
    rw [div_eq_one_iff_eq hpos.ne']
    exact_mod_cast Iff.rfl
  have hodd : ((n / u : ℕ) : Int) % 2 = 1 ↔ n / u % 2 = 1 := by omega
  simp only [hgt, heq, hodd]
  split <;> rfl

theorem nearestInt_neg (q : ℚ) : nearestInt (-q) = -nearestInt q := by
  by_cases hint : (⌊q⌋ : ℚ) = q
  · rw [← hint, ← Int.cast_neg, nearestInt_intCast, nearestInt_intCast]
  · have hlt : (⌊q⌋ : ℚ) < q := lt_of_le_of_ne (Int.floor_le q) hint
    have hfloor : ⌊-q⌋ = -⌊q⌋ - 1 := by
      rw [Int.floor_eq_iff]
      push_cast
      have := Int.lt_floor_add_one q
      constructor <;> linarith
    unfold nearestInt
    simp only [hfloor]
    push_cast
    rcases lt_trichotomy (2 * (q - ⌊q⌋)) 1 with h | h | h
    · rw [if_pos (Or.inl (by linarith)), if_neg (by rintro (h' | ⟨h', -⟩) <;> linarith)]
      omega
    · have htie : 2 * (-q - (-(⌊q⌋ : ℚ) - 1)) = 1 := by linarith
      rw [htie, h]
      simp only [lt_self_iff_false, false_or, true_and]
      by_cases hodd : ⌊q⌋ % 2 = 1
      · rw [if_pos hodd, if_neg (by omega)]
        omega
      · rw [if_neg hodd, if_pos (by omega)]
        omega
    · rw [if_neg (by rintro (h' | ⟨h', -⟩) <;> linarith), if_pos (Or.inl h)]
      omega

/-- A number with few places is exact. -/
theorem roundRat_of_multiple {q : ℚ} (z : Int) (h : q = z * lastUnit q) : roundRat q = q := by
  have hpos : lastUnit q ≠ 0 := zpow_ne_zero _ (by norm_num)
  have hdiv : q / lastUnit q = z := by rw [div_eq_iff hpos, ← h]
  rw [roundRat, hdiv, nearestInt_intCast, ← h]

theorem roundRat_neg (q : ℚ) : roundRat (-q) = -roundRat q := by
  unfold roundRat lastUnit
  rw [abs_neg, neg_div, nearestInt_neg, Int.cast_neg, neg_mul]

/-- On natural numbers the two ways of rounding agree. -/
theorem roundRat_natCast (n : ℕ) : roundRat n = roundNat n := by
  have hlog : Int.log 2 |(n : ℚ)| = Nat.log 2 n := by rw [Nat.abs_cast, Int.log_natCast]
  rcases Nat.lt_or_ge (Nat.log 2 n) 53 with hfew | hmany
  · -- All bits of the number are in front of the last place.
    have hsmall : n < 2 ^ 53 := Nat.lt_pow_of_log_lt (by decide) hfew
    rw [(roundNat_eq_self_iff n).mpr (fitsBinary64_of_lt hsmall)]
    have hunit : lastUnit (n : ℚ) = (2 : ℚ) ^ (-((52 - Nat.log 2 n : ℕ) : Int)) := by
      unfold lastUnit
      rw [hlog]
      congr 1
      omega
    refine roundRat_of_multiple (n * 2 ^ (52 - Nat.log 2 n)) ?_
    rw [hunit, zpow_neg, zpow_natCast]
    push_cast
    rw [mul_assoc, mul_inv_cancel₀ (by positivity), mul_one]
  · have hunit : lastUnit (n : ℚ) = ((2 ^ lastPlace n : ℕ) : ℚ) := by
      unfold lastUnit lastPlace
      have hexp : max ((Nat.log 2 n : Int) - 52) (-1074) = ((Nat.log 2 n - 52 : ℕ) : Int) := by
        omega
      rw [hlog, hexp, zpow_natCast]
      push_cast
      rfl
    unfold roundRat roundNat
    rw [hunit, nearestInt_natCast_div n (Nat.two_pow_pos _)]
    simp only
    split <;> push_cast <;> rfl

theorem roundRat_intCast (z : Int) : roundRat z = roundInt z := by
  unfold roundInt
  split
  · rename_i hz
    have habs : z = -(z.natAbs : Int) := by omega
    conv_lhs => rw [habs]
    rw [Int.cast_neg, Int.cast_natCast, roundRat_neg, roundRat_natCast, Int.cast_neg,
      Int.cast_natCast]
  · rename_i hz
    have habs : z = (z.natAbs : Int) := by omega
    conv_lhs => rw [habs]
    rw [Int.cast_natCast, roundRat_natCast, Int.cast_natCast]

end ProcessAnalyzer.Lib
