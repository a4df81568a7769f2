import Mathlib.Algebra.Order.BigOperators.Group.List
import Mathlib.Logic.Function.Iterate
import ProcessAnalyzer.Model.MainLoop

/-!
# `ProcessAnalyzer.Proofs.MainLoop`: how many snapshots a run takes

The inner loop tests the iteration counter but never moves it, so it replays all the
expirations of a read.

* `replayLoop_eq_iterate`: one pass of the outer loop takes as many snapshots as the read
  reported expirations.
* `timerLoop_expired`: a run of `n` passes takes as many snapshots as the first `n` reads
  reported expirations together.
* `snapshots_eq_count_iff`: that is the requested number exactly when none of these reads
  reported more than one expiration.
-/

set_option autoImplicit false

namespace ProcessAnalyzer

section Generic
variable {σ : Type} (snapshot : σ → σ) (count : Int32)

/-- Below the count, the inner loop takes one snapshot per expiration. -/
theorem replayLoop_eq_iterate {noOfIterations : Int} (h : noOfIterations < count.toInt)
    (expirations : ℕ) (s : σ) :
    replayLoop snapshot count noOfIterations expirations s = snapshot^[expirations] s := by
  induction expirations generalizing s with
  | zero => rfl
  | succ e ih => rw [replayLoop, if_pos h, ih, Function.iterate_succ_apply]

/-- The number of snapshots of a run whose reads report `es`, after `i` passes. -/
def expirationsFrom (i : ℕ) (es : List UInt64) : ℕ :=
  ((es.take (count.toInt.toNat - i)).map UInt64.toNat).sum

/-- A run in which every wake is an expiration and there are enough of them ends at the
count, after as many snapshots as the reads that it consumed reported expirations. -/
theorem timerLoop_expired (es : List UInt64) (i : ℕ) (s : σ)
    (henough : count.toInt.toNat - i ≤ es.length) :
    timerLoop snapshot count i (es.map Wake.expired) s
      = (.countReached, snapshot^[expirationsFrom count i es] s) := by
  -- By induction on the reads. The loop tests the number of passes, not of snapshots.
  induction es generalizing i s with
  | nil =>
      have hge : ¬ (i : Int) < count.toInt := by
        simp only [List.length_nil] at henough
        omega
      rw [List.map_nil, timerLoop, if_neg hge]
      simp [expirationsFrom]
  | cons e es ih =>
      rw [List.map_cons, timerLoop]
      by_cases hlt : (i : Int) < count.toInt
      · -- One read is consumed. Its expirations come first.
        have hrest := ih (i + 1) (snapshot^[e.toNat] s) (by
          simp only [List.length_cons] at henough
          omega)
        have hsplit : expirationsFrom count i (e :: es)
            = expirationsFrom count (i + 1) es + e.toNat := by
          have htake : count.toInt.toNat - i = (count.toInt.toNat - (i + 1)) + 1 := by omega
          unfold expirationsFrom
          rw [htake, List.take_succ_cons, List.map_cons, List.sum_cons, Nat.add_comm]
        rw [if_pos hlt, replayLoop_eq_iterate snapshot count hlt, hsplit,
          Function.iterate_add_apply]
        exact hrest
      · have hzero : count.toInt.toNat - i = 0 := by omega
        rw [if_neg hlt, expirationsFrom, hzero]
        rfl

end Generic

/-- A sum of positive numbers is at least the number of summands. -/
theorem length_le_sum (es : List UInt64) (hpos : ∀ e ∈ es, 1 ≤ e.toNat) :
    es.length ≤ (es.map UInt64.toNat).sum := by
  have h := List.length_le_sum_of_one_le (es.map UInt64.toNat) (by simpa using hpos)
  rwa [List.length_map] at h

/-- It is that number exactly when all of them are one. -/
theorem sum_eq_length_iff (es : List UInt64) (hpos : ∀ e ∈ es, 1 ≤ e.toNat) :
    (es.map UInt64.toNat).sum = es.length ↔ ∀ e ∈ es, e.toNat = 1 := by
  induction es with
  | nil => simp
  | cons e es ih =>
      have hposTail : ∀ e ∈ es, 1 ≤ e.toNat := fun f hf => hpos f (List.mem_cons_of_mem e hf)
      have hhead := hpos e List.mem_cons_self
      have hlen := length_le_sum es hposTail
      have htail := ih hposTail
      simp only [List.map_cons, List.sum_cons, List.length_cons, List.forall_mem_cons, ← htail]
      omega

/-- A run of the loop of `main` that is not interrupted and has no read error takes exactly
the requested number of snapshots before it ends, whatever a snapshot does, if and only if
each of the reads that it consumes reports exactly one expiration. -/
theorem snapshots_eq_count_iff (count : Int32) (es : List UInt64) (hcount : 1 ≤ count.toInt)
    (hpos : ∀ e ∈ es, 1 ≤ e.toNat) (henough : count.toInt ≤ es.length) :
    (∀ (σ : Type) (snapshot : σ → σ) (s : σ),
      timerLoop snapshot count 0 (es.map Wake.expired) s
        = (.countReached, snapshot^[count.toInt.toNat] s))
      ↔ ∀ e ∈ es.take count.toInt.toNat, e.toNat = 1 := by
  have hrun : ∀ (σ : Type) (snapshot : σ → σ) (s : σ),
      timerLoop snapshot count 0 (es.map Wake.expired) s
        = (.countReached, snapshot^[expirationsFrom count 0 es] s) :=
    fun σ snapshot s => timerLoop_expired snapshot count es 0 s (by omega)
  have hlen : (es.take count.toInt.toNat).length = count.toInt.toNat := by
    rw [List.length_take]
    omega
  have hsum := sum_eq_length_iff (es.take count.toInt.toNat)
    fun e he => hpos e (List.mem_of_mem_take he)
  rw [hlen] at hsum
  rw [← hsum]
  constructor
  · intro h
    -- Counting the calls makes the two numbers of snapshots visible.
    have hcalls := (hrun ℕ (· + 1) 0).symm.trans (h ℕ (· + 1) 0)
    rw [Prod.mk.injEq, add_right_iterate_apply_zero, add_right_iterate_apply_zero] at hcalls
    simpa [expirationsFrom] using hcalls.2
  · intro h σ snapshot s
    rw [hrun, expirationsFrom, Nat.sub_zero, h]

/-- Two reads with one expiration each give the two snapshots of `-n 2`. -/
theorem snapshots_eq_count_two :
    timerLoop (fun calls : ℕ => calls + 1) 2 0 ([1, 1].map Wake.expired) 0 = (.countReached, 2) :=
  (snapshots_eq_count_iff 2 [1, 1] (by decide) (by simp) (by decide)).mpr (by simp) ℕ (· + 1) 0

/-- With `-n 1`, a read that reports two expirations makes the loop take two snapshots. -/
theorem not_snapshots_eq_count :
    ¬ ∀ (count : Int32) (es : List UInt64), 1 ≤ count.toInt → (∀ e ∈ es, 1 ≤ e.toNat) →
      count.toInt ≤ es.length → ∀ (σ : Type) (snapshot : σ → σ) (s : σ),
        timerLoop snapshot count 0 (es.map Wake.expired) s
          = (.countReached, snapshot^[count.toInt.toNat] s) := by
  intro h
  have hcalls := h 1 [2] (by decide) (by simp) (by decide) ℕ (· + 1) 0
  exact absurd hcalls (by decide)

end ProcessAnalyzer
