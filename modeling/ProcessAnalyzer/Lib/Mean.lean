import Mathlib.Algebra.BigOperators.Group.List.Basic
import Mathlib.Algebra.Field.Basic
import Mathlib.Algebra.Ring.CharZero
import Mathlib.Data.Nat.Cast.Field
import Mathlib.Tactic.Ring

/-!
# `ProcessAnalyzer.Lib.Mean`: the mean of rates and the rate of the whole

A rate that was measured over several intervals can be averaged in two ways. `mean` adds
the rates up and divides by their number, so a short interval counts as much as a long one.
`timeMean` divides what was measured in all intervals by their whole duration. An interval
is a pair of its rate and its duration.

The two agree exactly when the rates do not vary together with the durations.
`coVariation` is the sum over all pairs of intervals of the product of the two differences,
and `mean_eq_timeMean_iff` is that equivalence.
-/

set_option autoImplicit false

namespace ProcessAnalyzer.Lib

section Mean
variable {K : Type*} [Field K]

/-- The mean of the rates, each interval counted once. -/
def mean (l : List (K × K)) : K := (l.map Prod.fst).sum / l.length

/-- The rate over all intervals together. -/
def timeMean (l : List (K × K)) : K := (l.map fun x => x.1 * x.2).sum / (l.map Prod.snd).sum

/-- How far the rates vary together with the durations, over all pairs of intervals. -/
def coVariation (l : List (K × K)) : K :=
  (l.map fun x => (l.map fun y => (x.1 - y.1) * (x.2 - y.2)).sum).sum

/-- One interval against all of them. -/
theorem sum_sub_mul_sub (l : List (K × K)) (a b : K) :
    (l.map fun y => (a - y.1) * (b - y.2)).sum
      = l.length * (a * b) - a * (l.map Prod.snd).sum - b * (l.map Prod.fst).sum
        + (l.map fun y => y.1 * y.2).sum := by
  induction l with
  | nil => simp
  | cons y l ih =>
      simp only [List.map_cons, List.sum_cons, List.length_cons, Nat.cast_add, Nat.cast_one, ih]
      ring

/-- The sum of a form that is linear in the rate, the duration and their product. -/
theorem sum_linear (l : List (K × K)) (n d r c : K) :
    (l.map fun x => n * (x.1 * x.2) - x.1 * d - x.2 * r + c).sum
      = n * (l.map fun x => x.1 * x.2).sum - (l.map Prod.fst).sum * d
        - (l.map Prod.snd).sum * r + l.length * c := by
  induction l with
  | nil => simp
  | cons x l ih =>
      simp only [List.map_cons, List.sum_cons, List.length_cons, Nat.cast_add, Nat.cast_one, ih]
      ring

/-- The sum over all pairs is the sum of the products against the product of the sums. -/
theorem coVariation_eq (l : List (K × K)) :
    coVariation l = 2 * (l.length * (l.map fun x => x.1 * x.2).sum
      - (l.map Prod.fst).sum * (l.map Prod.snd).sum) := by
  simp only [coVariation, sum_sub_mul_sub, sum_linear]
  ring

/-- The mean of the rates is the rate of the whole exactly when the rates do not vary
together with the durations. -/
theorem mean_eq_timeMean_iff [CharZero K] (l : List (K × K)) (hne : l ≠ [])
    (hd : (l.map Prod.snd).sum ≠ 0) : mean l = timeMean l ↔ coVariation l = 0 := by
  have hlen : (l.length : K) ≠ 0 := Nat.cast_ne_zero.mpr (List.length_pos_of_ne_nil hne).ne'
  rw [mean, timeMean, div_eq_div_iff hlen hd, coVariation_eq]
  constructor
  · intro h
    rw [h]
    ring
  · intro h
    have hsub := (mul_eq_zero.mp h).resolve_left two_ne_zero
    rw [← sub_eq_zero.mp hsub]
    ring

/-- The covariation vanishes when every product does. -/
theorem coVariation_eq_zero (l : List (K × K))
    (h : ∀ x ∈ l, ∀ y ∈ l, (x.1 - y.1) * (x.2 - y.2) = 0) : coVariation l = 0 := by
  refine List.sum_eq_zero fun s hs => ?_
  obtain ⟨x, hx, rfl⟩ := List.mem_map.mp hs
  refine List.sum_eq_zero fun s hs => ?_
  obtain ⟨y, hy, rfl⟩ := List.mem_map.mp hs
  exact h x hx y hy

/-- Equal durations make every product vanish. -/
theorem coVariation_of_equal_durations (l : List (K × K)) (d : K) (h : ∀ x ∈ l, x.2 = d) :
    coVariation l = 0 :=
  coVariation_eq_zero l fun x hx y hy => by rw [h x hx, h y hy, sub_self, mul_zero]

/-- Equal rates make every product vanish. -/
theorem coVariation_of_equal_rates (l : List (K × K)) (r : K) (h : ∀ x ∈ l, x.1 = r) :
    coVariation l = 0 :=
  coVariation_eq_zero l fun x hx y hy => by rw [h x hx, h y hy, sub_self, zero_mul]

end Mean

end ProcessAnalyzer.Lib
