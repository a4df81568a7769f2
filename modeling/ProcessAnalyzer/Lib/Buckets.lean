import Mathlib.Data.List.Flatten
import Mathlib.Data.List.Nodup
import Mathlib.Data.List.Perm.Basic

/-!
# `ProcessAnalyzer.Lib.Buckets`: elements distributed over chains

The memory of a hash table with separate chaining: an array of chains, and for each element
the index of its chain. A chain grows at its front.

`Holds idx bs xs` says that every chain of `bs` has exactly the elements of `xs` with its
index, in any order. The operations keep it:

* `Holds.push` and `Holds.erase`: one element more, one element less.
* `holds_distribute`: a distribution of all elements over empty chains, which is what a resize
  does.

`Holds.perm_flatten` is the other direction: the chains together are the elements.
-/

set_option autoImplicit false

namespace ProcessAnalyzer.Lib.Buckets

variable {α : Type} (idx : α → ℕ)

/-- The element in front of its chain. -/
def push (bs : List (List α)) (x : α) : List (List α) := bs.modify (idx x) (x :: ·)

/-- All elements, one after the other, in front of their chains. -/
def distribute (xs : List α) (bs : List (List α)) : List (List α) := xs.foldl (push idx) bs

/-- Every chain has the elements with its index. -/
def Holds (bs : List (List α)) (xs : List α) : Prop :=
  ∀ (j : ℕ) (chain : List α), bs[j]? = some chain → chain.Perm (xs.filter fun x => idx x = j)

variable {idx}

/-- Empty chains hold nothing. -/
theorem holds_replicate (n : ℕ) : Holds idx (List.replicate n []) [] := by
  intro j chain hchain
  obtain rfl := List.eq_of_mem_replicate (List.mem_of_getElem? hchain)
  exact List.Perm.refl []

/-- The order of the elements plays no role. -/
theorem Holds.of_perm {bs : List (List α)} {xs ys : List α} (h : Holds idx bs xs)
    (hperm : xs.Perm ys) : Holds idx bs ys :=
  fun j chain hchain => (h j chain hchain).trans (hperm.filter _)

/-- An element is in the chain with its index. -/
theorem Holds.mem_iff {bs : List (List α)} {xs : List α} (h : Holds idx bs xs) {j : ℕ}
    {chain : List α} (hchain : bs[j]? = some chain) (x : α) : x ∈ chain ↔ x ∈ xs ∧ idx x = j := by
  rw [(h j chain hchain).mem_iff, List.mem_filter, decide_eq_true_iff]

/-- One element more. -/
theorem Holds.push {bs : List (List α)} {xs : List α} (h : Holds idx bs xs) (x : α) :
    Holds idx (push idx bs x) (x :: xs) := by
  intro j chain hchain
  unfold Buckets.push at hchain
  rw [List.getElem?_modify] at hchain
  obtain ⟨old, hold, rfl⟩ := Option.map_eq_some_iff.mp hchain
  by_cases hj : idx x = j
  · rw [if_pos hj, List.filter_cons, if_pos (decide_eq_true hj)]
    exact (h j old hold).cons x
  · rw [if_neg hj, List.filter_cons, if_neg (by simpa using hj)]
    exact h j old hold

/-- All elements more. -/
theorem Holds.distribute {bs : List (List α)} {ys : List α} (h : Holds idx bs ys) (xs : List α) :
    Holds idx (distribute idx xs bs) (xs ++ ys) := by
  induction xs generalizing bs ys with
  | nil => exact h
  | cons x xs ih =>
      have hall := ih (h.push x)
      exact hall.of_perm List.perm_middle

/-- A distribution over empty chains. -/
theorem holds_distribute (xs : List α) (n : ℕ) :
    Holds idx (distribute idx xs (List.replicate n [])) xs := by
  have hnil : Holds idx (List.replicate n []) [] := holds_replicate n
  have hall := hnil.distribute xs
  rw [List.append_nil] at hall
  exact hall

/-- One element less. -/
theorem Holds.erase [DecidableEq α] {bs : List (List α)} {xs : List α} (h : Holds idx bs xs)
    {x : α} (hx : x ∈ xs) :
    Holds idx (bs.modify (idx x) fun chain => chain.erase x) (xs.erase x) := by
  intro j chain hchain
  rw [List.getElem?_modify] at hchain
  obtain ⟨old, hold, rfl⟩ := Option.map_eq_some_iff.mp hchain
  have hfilter := (List.perm_cons_erase hx).filter fun y => decide (idx y = j)
  rw [List.filter_cons] at hfilter
  by_cases hj : idx x = j
  · rw [if_pos hj]
    rw [if_pos (decide_eq_true hj)] at hfilter
    have hmem : x ∈ old := (h.mem_iff hold x).mpr ⟨hx, hj⟩
    exact ((List.perm_cons_erase hmem).symm.trans ((h j old hold).trans hfilter)).cons_inv
  · rw [if_neg hj]
    rw [if_neg (by simpa using hj)] at hfilter
    exact (h j old hold).trans hfilter

/-- The elements with an index below a bound, sorted by their index. -/
theorem perm_flatMap_range (xs : List α) (n : ℕ) :
    ((List.range n).flatMap fun j => xs.filter fun x => idx x = j).Perm
      (xs.filter fun x => idx x < n) := by
  induction n with
  | zero => simp
  | succ n ih =>
      rw [List.range_succ, List.flatMap_append, List.flatMap_singleton]
      have hsplit := List.filter_append_perm (fun x => decide (idx x < n))
        (xs.filter fun x => decide (idx x < n + 1))
      have hbelow : (xs.filter fun x => decide (idx x < n + 1)).filter (fun x => decide (idx x < n))
          = xs.filter fun x => decide (idx x < n) := by
        rw [List.filter_filter]
        apply List.filter_congr
        intro x _
        rw [← Bool.decide_and, decide_eq_decide]
        omega
      have hlast : (xs.filter fun x => decide (idx x < n + 1)).filter
          (fun x => !decide (idx x < n)) = xs.filter fun x => decide (idx x = n) := by
        rw [List.filter_filter]
        apply List.filter_congr
        intro x _
        rw [← decide_not, ← Bool.decide_and, decide_eq_decide]
        omega
      rw [hbelow, hlast] at hsplit
      exact (ih.append_right _).trans hsplit

/-- The chains together are the elements. -/
theorem Holds.perm_flatten {bs : List (List α)} {xs : List α} (h : Holds idx bs xs)
    (hlt : ∀ x ∈ xs, idx x < bs.length) : bs.flatten.Perm xs := by
  have hchains : bs.flatten.Perm
      ((List.range bs.length).flatMap fun j => xs.filter fun x => idx x = j) := by
    have hbs : bs = (List.range bs.length).map fun j => (bs[j]?).getD [] := by
      apply List.ext_getElem
      · rw [List.length_map, List.length_range]
      · intro j hj _
        rw [List.getElem_map, List.getElem_range, List.getElem?_eq_getElem hj, Option.getD_some]
    conv_lhs => rw [hbs, ← List.flatMap_def]
    apply List.Perm.flatMap_left
    intro j hj
    have hget := List.getElem?_eq_getElem (List.mem_range.mp hj)
    rw [hget, Option.getD_some]
    exact h j _ hget
  have hall : (xs.filter fun x => decide (idx x < bs.length)) = xs :=
    List.filter_eq_self.mpr fun x hx => decide_eq_true (hlt x hx)
  have hrange : ((List.range bs.length).flatMap fun j => xs.filter fun x => idx x = j).Perm xs := by
    conv_rhs => rw [← hall]
    exact perm_flatMap_range xs bs.length
  exact hchains.trans hrange

end ProcessAnalyzer.Lib.Buckets
