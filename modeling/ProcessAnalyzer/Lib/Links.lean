import Mathlib.Data.List.Basic
import Mathlib.Data.List.Nodup
import Mathlib.Logic.Function.Basic

/-!
# `ProcessAnalyzer.Lib.Links`: doubly linked lists

Nodes with a pointer to the node behind and a pointer to the node in front, as two functions
`next` and `prev` on addresses. Whatever else a node has does not matter here.

`Linked next prev front l back` says that the nodes of `l` are linked in this order, with the
pointer `front` in the first one and the pointer `back` in the last one. It is about a piece of a
list, so that lists can be taken apart (`linked_append_iff`).

* `Linked.setFront` and `Linked.setBack`: a write to one of the two ends.
* `Linked.push`, `Linked.concat` and `Linked.erase`: the writes that add a node in front, add a
  node at the end, and take a node out.
* `Linked.split`: what the pointers of a node say about its place.
-/

set_option autoImplicit false

namespace ProcessAnalyzer.Lib

variable {ι : Type}

/-- The nodes are linked in the order of the list. -/
def Linked (next prev : ι → Option ι) : Option ι → List ι → Option ι → Prop
  | _, [], _ => True
  | front, p :: l, back =>
      prev p = front ∧ next p = l.head?.or back ∧ Linked next prev (some p) l back

/-- A write through a pointer. There is none through the null pointer. -/
def writeLink [DecidableEq ι] (f : ι → Option ι) (q v : Option ι) : ι → Option ι :=
  match q with
  | none => f
  | some q => Function.update f q v

section Write
variable [DecidableEq ι]

@[simp] theorem writeLink_none (f : ι → Option ι) (v : Option ι) : writeLink f none v = f := rfl

@[simp] theorem writeLink_some (f : ι → Option ι) (q : ι) (v : Option ι) :
    writeLink f (some q) v = Function.update f q v := rfl

/-- Another node keeps its pointer. -/
theorem writeLink_of_ne {f : ι → Option ι} {q : Option ι} {p : ι} (h : q ≠ some p)
    (v : Option ι) : writeLink f q v p = f p := by
  cases q with
  | none => rfl
  | some q => exact Function.update_of_ne (fun hp => h (congrArg some hp.symm)) ..

end Write

namespace Linked
variable {next prev next' prev' : ι → Option ι} {front back : Option ι} {l : List ι}

/-- The pointers of the nodes are what matters. -/
theorem congr (h : Linked next prev front l back) (hnext : ∀ p ∈ l, next' p = next p)
    (hprev : ∀ p ∈ l, prev' p = prev p) : Linked next' prev' front l back := by
  induction l generalizing front with
  | nil => trivial
  | cons p l ih =>
      obtain ⟨hp, hn, hrest⟩ := h
      refine ⟨(hprev p List.mem_cons_self).trans hp, (hnext p List.mem_cons_self).trans hn, ?_⟩
      exact ih hrest (fun q hq => hnext q (List.mem_cons_of_mem _ hq))
        fun q hq => hprev q (List.mem_cons_of_mem _ hq)

end Linked

section Append
variable {next prev : ι → Option ι}

/-- A list of two pieces. -/
theorem linked_append_iff (front : Option ι) (l m : List ι) (back : Option ι) :
    Linked next prev front (l ++ m) back ↔
      Linked next prev front l (m.head?.or back) ∧
        Linked next prev (l.getLast?.or front) m back := by
  induction l generalizing front with
  | nil => simp [Linked]
  | cons p l ih =>
      rw [List.cons_append, Linked, Linked, ih, List.getLast?_cons, List.head?_append,
        Option.or_assoc]
      have hlast : (some (l.getLast?.getD p)).or front = l.getLast?.or (some p) := by
        cases l.getLast? <;> rfl
      rw [hlast]
      tauto

end Append

namespace Linked
variable [DecidableEq ι] {next prev : ι → Option ι} {front back : Option ι} {l : List ι}

/-- Another pointer in front. -/
theorem setFront (h : Linked next prev front l back) (hnodup : l.Nodup) (front' : Option ι) :
    Linked next (writeLink prev l.head? front') front' l back := by
  cases l with
  | nil => trivial
  | cons p l =>
      obtain ⟨-, hn, hrest⟩ := h
      refine ⟨Function.update_self .., hn, hrest.congr (fun _ _ => rfl) fun q hq => ?_⟩
      exact Function.update_of_ne (ne_of_mem_of_not_mem hq (List.nodup_cons.mp hnodup).1) ..

/-- Another pointer at the end. -/
theorem setBack (h : Linked next prev front l back) (hnodup : l.Nodup) (back' : Option ι) :
    Linked (writeLink next l.getLast? back') prev front l back' := by
  induction l generalizing front with
  | nil => trivial
  | cons p l ih =>
      obtain ⟨hp, hn, hrest⟩ := h
      obtain ⟨hnotMem, hnodup'⟩ := List.nodup_cons.mp hnodup
      cases l with
      | nil => exact ⟨hp, Function.update_self .., trivial⟩
      | cons q l =>
          -- The write is to the last node, which is another one.
          have hlast : (p :: q :: l).getLast? = (q :: l).getLast? := List.getLast?_cons_cons
          have hne : (q :: l).getLast? ≠ some p := fun hlast =>
            hnotMem (List.mem_of_getLast? hlast)
          rw [hlast]
          exact ⟨hp, (writeLink_of_ne hne _).trans hn, ih hrest hnodup'⟩

/-- A node in front of a list. -/
theorem push (h : Linked next prev none l none) (hnodup : l.Nodup) {p : ι} (hp : p ∉ l) :
    Linked (Function.update next p l.head?)
      (writeLink (Function.update prev p none) l.head? (some p)) none (p :: l) none := by
  have hold (f : ι → Option ι) (v : Option ι) : ∀ q ∈ l, Function.update f p v q = f q :=
    fun q hq => Function.update_of_ne (ne_of_mem_of_not_mem hq hp) ..
  -- The pointers of the new node come first, and then the one back to it.
  have hrest := (h.congr (hold next l.head?) (hold prev none)).setFront hnodup (some p)
  refine ⟨?_, ?_, hrest⟩
  · rw [writeLink_of_ne fun hhead => hp (List.mem_of_head? hhead)]
    exact Function.update_self ..
  · rw [Function.update_self, Option.or_none]

/-- A node at the end of a list. -/
theorem concat (h : Linked next prev none l none) (hnodup : l.Nodup) {p : ι} (hp : p ∉ l) :
    Linked (writeLink (Function.update next p none) l.getLast? (some p))
      (Function.update prev p l.getLast?) none (l ++ [p]) none := by
  have hold (f : ι → Option ι) (v : Option ι) : ∀ q ∈ l, Function.update f p v q = f q :=
    fun q hq => Function.update_of_ne (ne_of_mem_of_not_mem hq hp) ..
  rw [linked_append_iff]
  have hfront := (h.congr (hold next none) (hold prev l.getLast?)).setBack hnodup (some p)
  refine ⟨hfront, ?_, ?_, trivial⟩
  · rw [Function.update_self, Option.or_none]
  · rw [writeLink_of_ne fun hlast => hp (List.mem_of_getLast? hlast)]
    exact Function.update_self ..

/-- The place of a node: its pointers are to the nodes around it. -/
theorem split (h : Linked next prev none l none) (hnodup : l.Nodup) {p : ι} (hp : p ∈ l) :
    ∃ before after, l = before ++ p :: after ∧ l.erase p = before ++ after ∧
      prev p = before.getLast? ∧ next p = after.head? ∧
      Linked next prev none before (some p) ∧ Linked next prev (some p) after none := by
  obtain ⟨before, after, rfl⟩ := List.append_of_mem hp
  have hnotMem : p ∉ before := fun hmem =>
    (List.nodup_append.mp hnodup).2.2 p hmem p List.mem_cons_self rfl
  obtain ⟨hbefore, hprev, hnext, hafter⟩ := (linked_append_iff ..).mp h
  refine ⟨before, after, rfl, ?_, ?_, ?_, hbefore, hafter⟩
  · rw [List.erase_append_right _ hnotMem, List.erase_cons_head]
  · rw [hprev, Option.or_none]
  · rw [hnext, Option.or_none]

/-- The nodes around a node linked with each other, and the node taken out. -/
theorem erase (h : Linked next prev none l none) (hnodup : l.Nodup) {p : ι} (hp : p ∈ l) :
    Linked (writeLink next (prev p) (next p)) (writeLink prev (next p) (prev p)) none
      (l.erase p) none := by
  obtain ⟨before, after, rfl, herase, hprev, hnext, hbefore, hafter⟩ := h.split hnodup hp
  obtain ⟨hnodupBefore, hnodupRest, hdisjoint⟩ := List.nodup_append.mp hnodup
  have hnodupAfter := (List.nodup_cons.mp hnodupRest).2
  have hne (q : ι) (hq : q ∈ before) : q ∉ after := fun hmem =>
    hdisjoint q hq q (List.mem_cons_of_mem _ hmem) rfl
  rw [herase, hprev, hnext, linked_append_iff, Option.or_none, Option.or_none]
  -- The piece before gets a new end, and the piece behind gets a new front.
  constructor
  · refine (hbefore.setBack hnodupBefore after.head?).congr (fun _ _ => rfl) fun q hq => ?_
    exact writeLink_of_ne (fun hhead => hne q hq (List.mem_of_head? hhead)) _
  · refine (hafter.setFront hnodupAfter before.getLast?).congr (fun q hq => ?_) fun _ _ => rfl
    exact writeLink_of_ne (fun hlast => hne q (List.mem_of_getLast? hlast) hq) _

/-- The first node of the rest. -/
theorem head?_erase (h : Linked next prev none l none) (hnodup : l.Nodup) {p : ι} (hp : p ∈ l) :
    (l.erase p).head? = if prev p = none then next p else l.head? := by
  obtain ⟨before, after, rfl, herase, hprev, hnext, -, -⟩ := h.split hnodup hp
  rw [herase, hprev, hnext]
  cases before with
  | nil => rfl
  | cons q before => rw [List.getLast?_cons, if_neg (Option.some_ne_none _)]; rfl

/-- The last node of the rest. -/
theorem getLast?_erase (h : Linked next prev none l none) (hnodup : l.Nodup) {p : ι}
    (hp : p ∈ l) : (l.erase p).getLast? = if next p = none then prev p else l.getLast? := by
  obtain ⟨before, after, rfl, herase, hprev, hnext, -, -⟩ := h.split hnodup hp
  rw [herase, hprev, hnext]
  cases after with
  | nil => rw [List.append_nil]; rfl
  | cons q after =>
      rw [List.head?_cons, if_neg (Option.some_ne_none _), List.getLast?_append,
        List.getLast?_append, List.getLast?_cons_cons]

/-- The first node is the one with nothing in front. -/
theorem prev_eq_none_iff (h : Linked next prev none l none) (hnodup : l.Nodup) {p : ι}
    (hp : p ∈ l) : prev p = none ↔ l.head? = some p := by
  obtain ⟨before, after, rfl, -, hprev, -, -, -⟩ := h.split hnodup hp
  rw [hprev, List.getLast?_eq_none_iff]
  cases before with
  | nil => simp
  | cons q before =>
      have hne : q ≠ p := fun hqp => (List.nodup_append.mp hnodup).2.2 q List.mem_cons_self p
        List.mem_cons_self hqp
      simp [hne]

/-- The last node is the one with nothing behind. -/
theorem next_eq_none_iff (h : Linked next prev none l none) (hnodup : l.Nodup) {p : ι}
    (hp : p ∈ l) : next p = none ↔ l.getLast? = some p := by
  obtain ⟨before, after, rfl, -, -, hnext, -, -⟩ := h.split hnodup hp
  rw [hnext, List.head?_eq_none_iff, List.getLast?_append, List.getLast?_cons, Option.some_or,
    Option.some.injEq]
  cases after with
  | nil => simp
  | cons q after =>
      have hmem : ((q :: after).getLast?.getD p) ∈ q :: after := by
        rw [List.getLast?_eq_some_getLast (List.cons_ne_nil _ _), Option.getD_some]
        exact List.getLast_mem _
      have hne : (q :: after).getLast?.getD p ≠ p := fun heq =>
        (List.nodup_cons.mp (List.nodup_append.mp hnodup).2.1).1 (heq ▸ hmem)
      simp [hne]

/-- A node with nothing around it is the only one. -/
theorem eq_singleton_iff (h : Linked next prev none l none) (hnodup : l.Nodup) {p : ι}
    (hp : p ∈ l) : (prev p = none ∧ next p = none) ↔ l = [p] := by
  obtain ⟨before, after, rfl, -, hprev, hnext, -, -⟩ := h.split hnodup hp
  rw [hprev, hnext, List.getLast?_eq_none_iff, List.head?_eq_none_iff]
  constructor
  · rintro ⟨rfl, rfl⟩
    rfl
  · intro heq
    have hlen := congrArg List.length heq
    rw [List.length_append, List.length_cons, List.length_singleton] at hlen
    exact ⟨List.eq_nil_of_length_eq_zero (by omega), List.eq_nil_of_length_eq_zero (by omega)⟩

end Linked

end ProcessAnalyzer.Lib
