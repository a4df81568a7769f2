import Mathlib.Data.List.Perm.Subperm
import Mathlib.Data.List.Sort
import Mathlib.Order.Lattice

/-!
# `ProcessAnalyzer.Lib.Ranking`: comparators, `qsort` and top-N lists

A C comparator is a function into `Int` of which only the sign counts. `compareDesc key`
is the usual descending comparator written with two comparisons of a key, and
`totalPreorderCmp_compareDesc` shows that it is a consistent comparator whenever the keys
are linearly ordered.

`Qsort` is what the C standard promises about `qsort`: for a consistent comparator the
result is a sorted permutation. Which one it is among equal keys is not promised, and
nothing here depends on it. `Qsort.mergeSort` and `Qsort.insertionSort` are two such
functions, and the second one can be evaluated.

`IsTopN key n table block` says that `block` is a correct top-`n` of `table`.
`isTopN_take_sort` is the main result: the first `n` elements of the sorted array are a
top-`n` of every table that the array is a permutation of.
-/

set_option autoImplicit false

namespace ProcessAnalyzer.Lib

variable {α : Type}

/-- The descending comparator of a key, as C code spells it. -/
def compareDesc {β : Type} [LT β] [DecidableLT β] (key : α → β) (a b : α) : Int :=
  if key b > key a then 1 else if key b < key a then -1 else 0

/-- A comparator that `qsort` may be called with: a total preorder on the elements. -/
structure TotalPreorderCmp (cmp : α → α → Int) : Prop where
  swap : ∀ a b, 0 < cmp a b ↔ cmp b a < 0
  trans : ∀ a b c, cmp a b ≤ 0 → cmp b c ≤ 0 → cmp a c ≤ 0

/-- A function that behaves as the C standard says `qsort` does. -/
structure Qsort where
  sort : {α : Type} → (α → α → Int) → List α → List α
  perm_sort : ∀ {α : Type} {cmp : α → α → Int}, TotalPreorderCmp cmp →
    ∀ l : List α, (sort cmp l).Perm l
  sorted_sort : ∀ {α : Type} {cmp : α → α → Int}, TotalPreorderCmp cmp →
    ∀ l : List α, (sort cmp l).Pairwise fun a b => cmp a b ≤ 0

/-- `block` is a correct top-`n` of `table`: it has `n` entries or all of them, they are
distinct positions of the table, their keys do not increase, and no entry left out has a
larger key than one that is listed. -/
structure IsTopN {β : Type} [LE β] (key : α → β) (n : ℕ) (table block : List α) : Prop where
  length_eq : block.length = min n table.length
  subperm : block.Subperm table
  sorted : block.Pairwise fun a b => key b ≤ key a
  top : ∀ a ∈ table, a ∉ block → ∀ b ∈ block, key a ≤ key b

/-! ### The descending comparator -/

/-- A comparison through an order embedding of the key type is the same comparison. -/
theorem compareDesc_comp {β γ : Type} [LT β] [DecidableLT β] [LT γ] [DecidableLT γ] (f : β → γ)
    (hf : ∀ x y, x < y ↔ f x < f y) (key : α → β) :
    compareDesc key = compareDesc fun a => f (key a) := by
  funext a b
  simp only [compareDesc, GT.gt, hf]

section Linear
variable {β : Type} [LinearOrder β]

/-- The comparator is nonpositive exactly when the first key is not smaller. -/
theorem compareDesc_nonpos_iff (key : α → β) (a b : α) :
    compareDesc key a b ≤ 0 ↔ key b ≤ key a := by
  unfold compareDesc
  split
  · rename_i h
    simpa using h
  · rename_i h
    split <;> simpa using h

/-- The descending comparator of linearly ordered keys is a total preorder. -/
theorem totalPreorderCmp_compareDesc (key : α → β) : TotalPreorderCmp (compareDesc key) where
  swap a b := by
    unfold compareDesc
    rcases lt_trichotomy (key a) (key b) with h | h | h
    · simp [h, not_lt_of_gt h]
    · simp [h]
    · simp [h, not_lt_of_gt h]
  trans a b c := by
    simp only [compareDesc_nonpos_iff]
    exact fun hab hbc => le_trans hbc hab

/-- The first `n` elements of an array sorted by the descending comparator are a top-`n`
of the table that the array permutes. -/
theorem isTopN_take_sort (q : Qsort) (key : α → β) (n : ℕ) {table arr : List α}
    (h : arr.Perm table) : IsTopN key n table ((q.sort (compareDesc key) arr).take n) := by
  have hcmp := totalPreorderCmp_compareDesc (α := α) key
  have hperm : (q.sort (compareDesc key) arr).Perm table := (q.perm_sort hcmp arr).trans h
  have hsorted : (q.sort (compareDesc key) arr).Pairwise fun a b => key b ≤ key a :=
    (q.sorted_sort hcmp arr).imp fun hab => (compareDesc_nonpos_iff key _ _).mp hab
  refine ⟨?_, ?_, ?_, ?_⟩
  · rw [List.length_take, hperm.length_eq]
  · exact (List.take_sublist _ _).subperm.trans hperm.subperm
  · exact hsorted.sublist (List.take_sublist _ _)
  · intro a ha hna b hb
    -- `a` is in the array but not in its first part, so it stands behind `b`.
    have hmem : a ∈ q.sort (compareDesc key) arr := hperm.mem_iff.mpr ha
    rw [← List.take_append_drop n (q.sort (compareDesc key) arr)] at hmem hsorted
    have hdrop : a ∈ (q.sort (compareDesc key) arr).drop n :=
      (List.mem_append.mp hmem).resolve_left hna
    exact (List.pairwise_append.mp hsorted).2.2 b hb a hdrop

end Linear

/-- A top-`n` for one key is a top-`n` for every key that agrees with it on the table. -/
theorem IsTopN.congr {β γ : Type} [LE β] [LE γ] {key : α → β} {key' : α → γ} {n : ℕ}
    {table block : List α} (h : IsTopN key n table block)
    (hkey : ∀ a ∈ table, ∀ b ∈ table, key a ≤ key b → key' a ≤ key' b) :
    IsTopN key' n table block where
  length_eq := h.length_eq
  subperm := h.subperm
  sorted := h.sorted.imp_of_mem fun ha hb hab =>
    hkey _ (h.subperm.subset hb) _ (h.subperm.subset ha) hab
  top a ha hna b hb := hkey a ha b (h.subperm.subset hb) (h.top a ha hna b hb)

/-- The order of a consistent comparator is transitive and total. -/
theorem TotalPreorderCmp.total {cmp : α → α → Int} (h : TotalPreorderCmp cmp) (a b : α) :
    cmp a b ≤ 0 ∨ cmp b a ≤ 0 := by
  have hs := h.swap a b
  omega

/-- Insertion sort is a `qsort`. -/
def Qsort.insertionSort : Qsort where
  sort cmp l := l.insertionSort fun a b => cmp a b ≤ 0
  perm_sort {α cmp} _ l := List.perm_insertionSort (fun a b : α => cmp a b ≤ 0) l
  sorted_sort {α cmp} h l := by
    have : IsTrans α fun a b => cmp a b ≤ 0 := ⟨h.trans⟩
    have : Std.Total fun a b : α => cmp a b ≤ 0 := ⟨h.total⟩
    exact List.pairwise_insertionSort (fun a b => cmp a b ≤ 0) l

/-- The merge sort of the standard library is a `qsort`. -/
def Qsort.mergeSort : Qsort where
  sort cmp l := l.mergeSort fun a b => decide (cmp a b ≤ 0)
  perm_sort _ l := List.mergeSort_perm l _
  sorted_sort {α cmp} h l := by
    have htrans : ∀ a b c : α, decide (cmp a b ≤ 0) → decide (cmp b c ≤ 0) →
        decide (cmp a c ≤ 0) := by
      intro a b c hab hbc
      simp only [decide_eq_true_eq] at *
      exact h.trans a b c hab hbc
    have htotal : ∀ a b : α, decide (cmp a b ≤ 0) || decide (cmp b a ≤ 0) := by
      intro a b
      simpa only [Bool.or_eq_true, decide_eq_true_eq] using h.total a b
    exact (List.pairwise_mergeSort htrans htotal l).imp fun hab => by simpa using hab

end ProcessAnalyzer.Lib
