import Mathlib.Data.List.Basic
import Mathlib.Data.List.Nodup

/-!
# `ProcessAnalyzer.Lib.Table`: insertion-ordered tables with a key

A table is a list of entries, each with a key, in the order in which the entries were
added. This is what an intrusive hash table shows its user: a lookup by key, an append,
an in-place change of one entry, and an iteration in insertion order.

`upsert` is the find-or-create pattern: the entry at the key is changed in place, and
when there is none a fresh entry is appended and changed. The results:

* `nodup_upsert` and `mem_keys_upsert`: the keys stay distinct, and exactly the key of the
  operation is added.
* `find?_upsert_self` and `find?_upsert_ne`: the lookup after `upsert` at the same key and
  at another key.
* `find?_foldl_upsert`: after a whole sequence of `upsert`s, the entry at a key is what
  the operations with that key alone give. The other operations do not enter.

The module is about tables only. The entry type, the key type and the operations are
parameters.
-/

set_option autoImplicit false

namespace ProcessAnalyzer.Lib.Table

variable {α κ ι : Type} [DecidableEq κ] (key : α → κ)

/-- The entry with key `k`, if the table has one. -/
def find? (t : List α) (k : κ) : Option α := t.find? fun a => key a = k

/-- The entries with key `k` changed by `f`, the others as they are. -/
def modify (t : List α) (k : κ) (f : α → α) : List α :=
  t.map fun a => if key a = k then f a else a

/-- Find or create: the entry with key `k` changed by `f`, and `f fresh` appended when
the table has no entry with that key. -/
def upsert (t : List α) (k : κ) (fresh : α) (f : α → α) : List α :=
  match find? key t k with
  | some _ => modify key t k f
  | none => modify key (t ++ [fresh]) k f

/-- The distinct-keys invariant. -/
def NodupKeys (t : List α) : Prop := (t.map key).Nodup

/-! ### Lookup -/

omit [DecidableEq κ] in
@[simp] theorem nodupKeys_nil : NodupKeys key ([] : List α) := List.nodup_nil

@[simp] theorem find?_nil (k : κ) : find? key ([] : List α) k = none := rfl

/-- A found entry is in the table and has the key. -/
theorem find?_some {t : List α} {k : κ} {a : α} (h : find? key t k = some a) :
    a ∈ t ∧ key a = k :=
  ⟨List.mem_of_find?_eq_some h, by simpa using List.find?_some h⟩

/-- A lookup fails exactly when no entry has the key. -/
theorem find?_eq_none_iff {t : List α} {k : κ} :
    find? key t k = none ↔ k ∉ t.map key := by
  simp [find?, List.find?_eq_none]

/-- With distinct keys, the lookup at an entry's own key returns that entry. -/
theorem find?_of_mem {t : List α} (hn : NodupKeys key t) {a : α} (ha : a ∈ t) :
    find? key t (key a) = some a := by
  induction t with
  | nil => simp at ha
  | cons b t ih =>
      have hn' : key b ∉ t.map key ∧ (t.map key).Nodup := by
        simpa [NodupKeys] using hn
      rcases List.mem_cons.mp ha with rfl | ha
      · simp [find?]
      · have hne : key b ≠ key a := by
          intro he
          exact hn'.1 (he ▸ List.mem_map_of_mem ha)
        have := ih hn'.2 ha
        simpa [find?, hne] using this

/-- Changing the entries at `k` by a key-preserving function changes what the lookup at
`k` returns by that function. -/
theorem find?_modify_self (t : List α) (k : κ) (f : α → α) (hf : ∀ a, key a = k → key (f a) = k) :
    find? key (modify key t k f) k = (find? key t k).map f := by
  induction t with
  | nil => rfl
  | cons a t ih =>
      by_cases ha : key a = k
      · simp [find?, modify, ha, hf a ha]
      · simpa [find?, modify, ha] using ih

/-- Changing the entries at `k` by a key-preserving function does not change the lookup
at another key. -/
theorem find?_modify_ne (t : List α) {k k' : κ} (hk : k' ≠ k) (f : α → α)
    (hf : ∀ a, key a = k → key (f a) = k) :
    find? key (modify key t k f) k' = find? key t k' := by
  induction t with
  | nil => rfl
  | cons a t ih =>
      by_cases ha : key a = k
      · have h1 : ¬ key (f a) = k' := by rw [hf a ha]; exact Ne.symm hk
        have h2 : ¬ k = k' := Ne.symm hk
        simpa [find?, modify, ha, h1, h2] using ih
      · by_cases ha' : key a = k'
        · have h2 : ¬ k' = k := hk
          simp [find?, modify, ha', h2]
        · simpa [find?, modify, ha, ha'] using ih

/-- A key-preserving change leaves the key column as it is. -/
theorem map_key_modify (t : List α) (k : κ) (f : α → α) (hf : ∀ a, key a = k → key (f a) = k) :
    (modify key t k f).map key = t.map key := by
  induction t with
  | nil => rfl
  | cons a t ih =>
      by_cases ha : key a = k
      · simpa [modify, ha, hf a ha] using ih
      · simpa [modify, ha] using ih

/-! ### Find or create -/

section Upsert
variable {t : List α} {k : κ} {fresh : α} {f : α → α}

/-- The entry at the key after `upsert`: the old entry, or the fresh one, changed. -/
theorem find?_upsert_self (hfresh : key fresh = k) (hf : ∀ a, key a = k → key (f a) = k) :
    find? key (upsert key t k fresh f) k = some (f ((find? key t k).getD fresh)) := by
  cases h : find? key t k with
  | some a => simp [upsert, h, find?_modify_self key t k f hf]
  | none =>
      have happ : find? key (t ++ [fresh]) k = some fresh := by
        simp only [find?] at h
        simp [find?, List.find?_append, h, hfresh]
      simp [upsert, h, find?_modify_self key _ k f hf, happ]

/-- `upsert` at `k` does not change the entry at another key. -/
theorem find?_upsert_ne {k' : κ} (hk : k' ≠ k) (hfresh : key fresh = k)
    (hf : ∀ a, key a = k → key (f a) = k) :
    find? key (upsert key t k fresh f) k' = find? key t k' := by
  cases h : find? key t k with
  | some a => simp [upsert, h, find?_modify_ne key t hk f hf]
  | none =>
      have hne : ¬ key fresh = k' := by rw [hfresh]; exact Ne.symm hk
      have happ : find? key (t ++ [fresh]) k' = find? key t k' := by
        simp [find?, List.find?_append, hne]
      simp [upsert, h, find?_modify_ne key _ hk f hf, happ]

/-- The key column after `upsert`. -/
theorem map_key_upsert (hfresh : key fresh = k) (hf : ∀ a, key a = k → key (f a) = k) :
    (upsert key t k fresh f).map key
      = if k ∈ t.map key then t.map key else t.map key ++ [k] := by
  cases h : find? key t k with
  | some a =>
      obtain ⟨hmem, hkey⟩ := find?_some key h
      have hin : k ∈ t.map key := hkey ▸ List.mem_map_of_mem hmem
      simp only [upsert, h, map_key_modify key t k f hf, if_pos hin]
  | none =>
      have hin : k ∉ t.map key := (find?_eq_none_iff key).mp h
      simp only [upsert, h, map_key_modify key _ k f hf, if_neg hin, List.map_append,
        List.map_cons, List.map_nil, hfresh]

/-- `upsert` adds exactly its own key. -/
theorem mem_keys_upsert (hfresh : key fresh = k) (hf : ∀ a, key a = k → key (f a) = k) (k' : κ) :
    k' ∈ (upsert key t k fresh f).map key ↔ k' = k ∨ k' ∈ t.map key := by
  rw [map_key_upsert key hfresh hf]
  by_cases hin : k ∈ t.map key
  · rw [if_pos hin]
    constructor
    · exact Or.inr
    · rintro (rfl | h)
      · exact hin
      · exact h
  · rw [if_neg hin, List.mem_append, List.mem_singleton, or_comm]

/-- `upsert` keeps the keys distinct. -/
theorem nodup_upsert (hfresh : key fresh = k) (hf : ∀ a, key a = k → key (f a) = k)
    (hn : NodupKeys key t) : NodupKeys key (upsert key t k fresh f) := by
  unfold NodupKeys at *
  rw [map_key_upsert key hfresh hf]
  by_cases hin : k ∈ t.map key
  · rw [if_pos hin]
    exact hn
  · rw [if_neg hin]
    exact List.nodup_append.mpr ⟨hn, by simp, fun a ha b hb => by
      rw [List.mem_singleton.mp hb]
      exact fun he => hin (he ▸ ha)⟩

end Upsert

/-! ### Sequences of operations

An operation `x : ι` has a key `opKey x`, a fresh entry `fresh x` with that key, and a
change `f x` that keeps the key. -/

section Sequence
variable {opKey : ι → κ} {fresh : ι → α} {f : ι → α → α}

/-- The entry of one key under the operations with that key: the first operation creates
it, every operation changes it. -/
def entryAfter (fresh : ι → α) (f : ι → α → α) (start : Option α) (xs : List ι) : Option α :=
  xs.foldl (fun o x => some (f x (o.getD (fresh x)))) start

variable (hfresh : ∀ x, key (fresh x) = opKey x)
  (hf : ∀ x a, key a = opKey x → key (f x a) = opKey x)
include hfresh hf

/-- After a sequence of operations, the entry at `k` is the one that the operations with
key `k` give on their own. -/
theorem find?_foldl_upsert (k : κ) (xs : List ι) (t : List α) :
    find? key (xs.foldl (fun t x => upsert key t (opKey x) (fresh x) (f x)) t) k
      = entryAfter fresh f (find? key t k) (xs.filter fun x => opKey x = k) := by
  induction xs generalizing t with
  | nil => rfl
  | cons x xs ih =>
      rw [List.foldl_cons, ih]
      by_cases hx : opKey x = k
      · subst hx
        rw [find?_upsert_self key (hfresh x) (hf x), List.filter_cons_of_pos (by simp)]
        rfl
      · rw [find?_upsert_ne key (Ne.symm hx) (hfresh x) (hf x),
          List.filter_cons_of_neg (by simpa using hx)]

/-- The keys after a sequence of operations are distinct when they were before. -/
theorem nodup_foldl_upsert (xs : List ι) (t : List α) (hn : NodupKeys key t) :
    NodupKeys key (xs.foldl (fun t x => upsert key t (opKey x) (fresh x) (f x)) t) := by
  induction xs generalizing t with
  | nil => exact hn
  | cons x xs ih => exact ih _ (nodup_upsert key (hfresh x) (hf x) hn)

/-- The keys after a sequence of operations: the old ones and those of the operations. -/
theorem mem_keys_foldl_upsert (k : κ) (xs : List ι) (t : List α) :
    k ∈ (xs.foldl (fun t x => upsert key t (opKey x) (fresh x) (f x)) t).map key
      ↔ k ∈ t.map key ∨ ∃ x ∈ xs, opKey x = k := by
  induction xs generalizing t with
  | nil => simp
  | cons x xs ih =>
      rw [List.foldl_cons, ih, mem_keys_upsert key (hfresh x) (hf x)]
      constructor
      · rintro ((rfl | h) | ⟨y, hy, rfl⟩)
        · exact Or.inr ⟨x, List.mem_cons_self, rfl⟩
        · exact Or.inl h
        · exact Or.inr ⟨y, List.mem_cons_of_mem _ hy, rfl⟩
      · rintro (h | ⟨y, hy, rfl⟩)
        · exact Or.inl (Or.inr h)
        · rcases List.mem_cons.mp hy with rfl | hy
          · exact Or.inl (Or.inl rfl)
          · exact Or.inr ⟨y, hy, rfl⟩

end Sequence

end ProcessAnalyzer.Lib.Table
