import Mathlib.Data.Nat.Notation
import Mathlib.Logic.Function.Basic

/-!
# `ProcessAnalyzer.Lib.Directory`: a directory as a finite map

A directory maps names to contents. `rename` and `unlink` behave as the system calls do
when permissions and the disk are not in the way: they fail exactly when their source is
missing, and a rename replaces its target.

* `rename_apply_of_vacant`: a rename onto a free name moves the source there, present or
  absent. This is the form that a chain of renames needs, because there nothing depends
  on whether the source exists.
* `shiftUp_apply`: a downward loop of renames `slot i → slot (i + 1)` moves every slot up
  by one and leaves all other names alone.
* `view_rename` and its siblings: a directory can be looked at through an injective family
  of names. The operations on these names are the operations on the view.
-/

set_option autoImplicit false

namespace ProcessAnalyzer.Lib

/-- What is stored under each name. -/
abbrev Dir (κ β : Type) : Type := κ → Option β

namespace Dir

variable {κ β : Type} [DecidableEq κ]

/-- The directory without the name. -/
def unlink (d : Dir κ β) (a : κ) : Dir κ β := Function.update d a none

/-- The directory with the content stored under the name. -/
def store (d : Dir κ β) (a : κ) (x : β) : Dir κ β := Function.update d a (some x)

/-- `rename a b`: the directory afterwards, and whether the call succeeded. It fails with
`ENOENT` when the source is missing. -/
def rename (d : Dir κ β) (a b : κ) : Dir κ β × Bool :=
  match d a with
  | some x => ((d.unlink a).store b x, true)
  | none => (d, false)

/-! ### Lookups -/

@[simp] theorem unlink_self (d : Dir κ β) (a : κ) : d.unlink a a = none := by
  simp [unlink]

theorem unlink_apply (d : Dir κ β) (a c : κ) :
    d.unlink a c = if c = a then none else d c := by
  simp [unlink, Function.update_apply]

theorem store_apply (d : Dir κ β) (a c : κ) (x : β) :
    d.store a x c = if c = a then some x else d c := by
  simp [store, Function.update_apply]

/-- A rename succeeds when its source is present. -/
theorem rename_of_some {d : Dir κ β} {a : κ} {x : β} (b : κ) (h : d a = some x) :
    d.rename a b = ((d.unlink a).store b x, true) := by
  simp [rename, h]

/-- A rename without a source changes nothing. -/
theorem rename_of_none {d : Dir κ β} {a : κ} (b : κ) (h : d a = none) :
    d.rename a b = (d, false) := by
  simp [rename, h]

/-- After a rename the target holds what the source held. -/
theorem rename_apply_target {d : Dir κ β} {a : κ} {x : β} (b : κ) (h : d a = some x) :
    (d.rename a b).1 b = some x := by
  rw [rename_of_some b h]
  show (d.unlink a).store b x b = some x
  rw [store_apply, if_pos rfl]

/-- A rename changes its two names only. -/
theorem rename_apply_of_ne (d : Dir κ β) {a b c : κ} (ha : c ≠ a) (hb : c ≠ b) :
    (d.rename a b).1 c = d c := by
  cases h : d a with
  | none => rw [rename_of_none b h]
  | some x =>
      rw [rename_of_some b h]
      show ((d.unlink a).store b x) c = d c
      rw [store_apply, if_neg hb, unlink_apply, if_neg ha]

/-- A rename onto a free name moves the source there, present or absent. -/
theorem rename_apply_of_vacant {d : Dir κ β} {a b : κ} (hb : d b = none) (c : κ) :
    (d.rename a b).1 c = if c = b then d a else if c = a then none else d c := by
  cases h : d a with
  | none =>
      rw [rename_of_none b h]
      show d c = _
      by_cases hcb : c = b
      · rw [if_pos hcb, hcb, hb]
      · rw [if_neg hcb]
        by_cases hca : c = a
        · rw [if_pos hca, hca, h]
        · rw [if_neg hca]
  | some x =>
      rw [rename_of_some b h]
      show ((d.unlink a).store b x) c = _
      rw [store_apply, unlink_apply]

/-! ### Shifting a row of slots -/

/-- The loop `for (i = m; i >= 1; i--) rename(slot i, slot (i + 1))`. -/
def shiftUp (slot : ℕ → κ) : ℕ → Dir κ β → Dir κ β
  | 0, d => d
  | i + 1, d => shiftUp slot i (d.rename (slot (i + 1)) (slot (i + 2))).1

/-- A name that is none of the slots keeps its content. -/
theorem shiftUp_apply_of_ne (slot : ℕ → κ) {c : κ} (m : ℕ) (d : Dir κ β)
    (hc : ∀ i, 1 ≤ i → i ≤ m + 1 → c ≠ slot i) : shiftUp slot m d c = d c := by
  induction m generalizing d with
  | zero => rfl
  | succ m ih =>
      rw [shiftUp, ih _ fun i h1 hi => hc i h1 (by omega)]
      exact rename_apply_of_ne d (hc (m + 1) (by omega) (by omega))
        (hc (m + 2) (by omega) (by omega))

/-- When the slot behind the last one is free, every slot moves up by one, present or
absent, and the first one is free afterwards. -/
theorem shiftUp_apply {slot : ℕ → κ} (hslot : Function.Injective slot) (m : ℕ) (d : Dir κ β)
    (hfree : d (slot (m + 1)) = none) :
    shiftUp slot m d (slot 1) = none ∧
      ∀ i, 1 ≤ i → i ≤ m → shiftUp slot m d (slot (i + 1)) = d (slot i) := by
  induction m generalizing d with
  | zero => exact ⟨hfree, fun i h1 hi => by omega⟩
  | succ m ih =>
      have hstep := rename_apply_of_vacant (a := slot (m + 1)) hfree
      have hne : ∀ i j, i ≠ j → slot i ≠ slot j := fun i j hij h => hij (hslot h)
      -- The rename frees the slot that the rest of the loop moves into.
      have hfree' : (d.rename (slot (m + 1)) (slot (m + 2))).1 (slot (m + 1)) = none := by
        rw [hstep, if_neg (hne _ _ (by omega)), if_pos rfl]
      obtain ⟨hfirst, hshift⟩ := ih _ hfree'
      refine ⟨hfirst, fun i h1 hi => ?_⟩
      rcases Nat.lt_or_ge i (m + 1) with hlt | hge
      · rw [shiftUp, hshift i h1 (by omega), hstep, if_neg (hne _ _ (by omega)),
          if_neg (hne _ _ (by omega))]
      · obtain rfl : i = m + 1 := by omega
        -- The last slot was moved by this rename, and the rest of the loop stays below it.
        rw [shiftUp, shiftUp_apply_of_ne slot m _ fun j _ hj => hne _ _ (by omega), hstep,
          if_pos rfl]

/-! ### Views -/

section View
variable {ν : Type} [DecidableEq ν]

/-- The directory seen through a family of names. -/
def view (name : ν → κ) (d : Dir κ β) : Dir ν β := fun n => d (name n)

omit [DecidableEq κ] [DecidableEq ν] in
@[simp] theorem view_apply (name : ν → κ) (d : Dir κ β) (n : ν) : d.view name n = d (name n) :=
  rfl

variable {name : ν → κ} (hname : Function.Injective name) (d : Dir κ β)
include hname

theorem view_unlink (a : ν) : (d.unlink (name a)).view name = (d.view name).unlink a := by
  funext c
  simp only [view_apply, unlink_apply, hname.eq_iff]

theorem view_store (a : ν) (x : β) :
    (d.store (name a) x).view name = (d.view name).store a x := by
  funext c
  simp only [view_apply, store_apply, hname.eq_iff]

theorem view_rename (a b : ν) :
    (d.rename (name a) (name b)).1.view name = ((d.view name).rename a b).1 ∧
    (d.rename (name a) (name b)).2 = ((d.view name).rename a b).2 := by
  cases h : d (name a) with
  | none => rw [rename_of_none _ h, rename_of_none b (d := d.view name) h]; exact ⟨rfl, rfl⟩
  | some x =>
      rw [rename_of_some _ h, rename_of_some b (d := d.view name) h, view_store hname,
        view_unlink hname]
      exact ⟨rfl, rfl⟩

end View

end Dir

end ProcessAnalyzer.Lib
