import Mathlib.Data.List.Basic
import Mathlib.Data.List.Nodup
import Mathlib.Logic.Function.Basic

/-!
# `ProcessAnalyzer.Lib.LinkedQueue`: a queue of linked nodes

A first-in first-out queue as C code builds it: nodes on a heap, each with a pointer to the
next one, a pointer to the first node and a pointer to the last. `link` appends a node that
is already on the heap. `unlinkHead` takes the first node off.

`Chain heap p l` says that the pointers from `p` on run through the nodes `l` and end in
the null pointer. `Represents q l` adds that the addresses are distinct and that the tail
pointer is at the last node. The operations are exact on the list:

* `represents_link`: `link` appends the node at the end,
* `represents_unlinkHead`: `unlinkHead` removes the first one,
* `represents_frame`: writes to other addresses change nothing.

`isLast_of_represents` restates the tail invariant without the list: the tail is the node
without a successor that the pointers reach from the head.
-/

set_option autoImplicit false

namespace ProcessAnalyzer.Lib

variable {ι α : Type}

/-- A node of the heap. -/
structure Node (ι α : Type) where
  value : α
  next : Option ι
  deriving DecidableEq

/-- The allocated nodes. -/
abbrev Heap (ι α : Type) : Type := ι → Option (Node ι α)

/-- The pointers of the queue, and the heap they point into. -/
structure LinkedQueue (ι α : Type) where
  heap : Heap ι α
  head : Option ι := none
  tail : Option ι := none

namespace LinkedQueue

/-! ### Operations -/

/-- Take the first node off: its address and its value. The node stays on the heap. -/
def unlinkHead (q : LinkedQueue ι α) : Option ((ι × α) × LinkedQueue ι α) :=
  match q.head with
  | none => none
  | some a =>
      (q.heap a).map fun node =>
        ((a, node.value),
          { q with
            head := node.next
            tail := if node.next.isNone then none else q.tail })

section Operations
variable [DecidableEq ι]

/-- Append the node at `a`. A tail pointer that points to no node has no meaning. -/
def link (q : LinkedQueue ι α) (a : ι) : Option (LinkedQueue ι α) :=
  match q.tail with
  | none => some { q with head := some a, tail := some a }
  | some t =>
      (q.heap t).map fun node =>
        { q with
          heap := Function.update q.heap t (some { node with next := some a })
          tail := some a }

/-- The queue with the node at `a` written. -/
def write (q : LinkedQueue ι α) (a : ι) (node : Node ι α) : LinkedQueue ι α :=
  { q with heap := Function.update q.heap a (some node) }

/-- The queue with the node at `a` released. -/
def free (q : LinkedQueue ι α) (a : ι) : LinkedQueue ι α :=
  { q with heap := Function.update q.heap a none }

end Operations

/-! ### The list of a queue -/

/-- The pointers from `p` on run through the nodes of the list and then end. -/
def Chain (heap : Heap ι α) : Option ι → List (ι × α) → Prop
  | p, [] => p = none
  | p, (a, x) :: l => p = some a ∧ ∃ n, heap a = some ⟨x, n⟩ ∧ Chain heap n l

/-- The nodes of the queue, first to last. -/
structure Represents (q : LinkedQueue ι α) (l : List (ι × α)) : Prop where
  chain : Chain q.heap q.head l
  nodup : (l.map Prod.fst).Nodup
  tail_eq : q.tail = (l.map Prod.fst).getLast?

/-- The pointers reach the node at `b` from `p`. -/
inductive Reaches (heap : Heap ι α) : Option ι → ι → Prop
  | here (a : ι) : Reaches heap (some a) a
  | next {a b : ι} {node : Node ι α} (h : heap a = some node) (hb : Reaches heap node.next b) :
      Reaches heap (some a) b

/-- The node at `t` is the last one that the pointers reach from `p`. -/
def IsLast (heap : Heap ι α) (p : Option ι) (t : ι) : Prop :=
  Reaches heap p t ∧ ∃ x, heap t = some ⟨x, none⟩

/-! ### Chains -/

/-- A chain looks only at its own addresses. -/
theorem Chain.congr {heap heap' : Heap ι α} {p : Option ι} {l : List (ι × α)}
    (h : Chain heap p l) (heq : ∀ a ∈ l.map Prod.fst, heap' a = heap a) : Chain heap' p l := by
  induction l generalizing p with
  | nil => exact h
  | cons node l ih =>
      obtain ⟨hp, n, hn, hrest⟩ := h
      constructor
      · exact hp
      · refine ⟨n, ?_, ih hrest fun a ha => heq a (List.mem_cons_of_mem _ ha)⟩
        rw [heq _ List.mem_cons_self]
        exact hn

/-- What the heap has at a node of a chain. -/
theorem Chain.heap_eq {heap : Heap ι α} {p : Option ι} {l : List (ι × α)} (h : Chain heap p l)
    {a : ι} {x : α} (ha : (a, x) ∈ l) : ∃ n, heap a = some ⟨x, n⟩ := by
  induction l generalizing p with
  | nil => cases ha
  | cons node l ih =>
      obtain ⟨-, n, hn, hrest⟩ := h
      rcases List.mem_cons.mp ha with rfl | ha
      · exact ⟨n, hn⟩
      · exact ih hrest ha

/-- The nodes of a chain are allocated. -/
theorem Chain.heap_ne_none {heap : Heap ι α} {p : Option ι} {l : List (ι × α)}
    (h : Chain heap p l) {a : ι} (ha : a ∈ l.map Prod.fst) : heap a ≠ none := by
  obtain ⟨⟨a, x⟩, hmem, rfl⟩ := List.mem_map.mp ha
  obtain ⟨n, hn⟩ := h.heap_eq hmem
  rw [hn]
  exact Option.some_ne_none _

/-- The last node of a chain has no successor, and the pointers reach it. -/
theorem Chain.isLast {heap : Heap ι α} {p : Option ι} {l : List (ι × α)} (h : Chain heap p l)
    {t : ι} (ht : (l.map Prod.fst).getLast? = some t) : IsLast heap p t := by
  induction l generalizing p with
  | nil => cases ht
  | cons node l ih =>
      obtain ⟨rfl, n, hn, hrest⟩ := h
      cases l with
      | nil =>
          obtain rfl : node.1 = t := by simpa using ht
          obtain rfl : n = none := hrest
          exact ⟨.here _, _, hn⟩
      | cons node' l =>
          have hlast : IsLast heap n t := ih hrest (by simpa using ht)
          exact ⟨.next hn hlast.1, hlast.2⟩

section Link
variable [DecidableEq ι]

/-- Setting the successor of the last node extends the chain by the node there. -/
theorem Chain.extend {heap : Heap ι α} {p : Option ι} {l : List (ι × α)} {t a : ι} {x y : α}
    (h : Chain heap p (l ++ [(t, x)])) (hnodup : ((l ++ [(t, x)]).map Prod.fst).Nodup)
    (ha : heap a = some ⟨y, none⟩) (hat : a ≠ t) :
    Chain (Function.update heap t (some ⟨x, some a⟩)) p (l ++ [(t, x)] ++ [(a, y)]) := by
  induction l generalizing p with
  | nil =>
      obtain ⟨rfl, n, hn, hrest⟩ := h
      refine ⟨rfl, some a, ?_, rfl, none, ?_, rfl⟩
      · simp
      · rw [Function.update_of_ne hat]
        exact ha
  | cons node l ih =>
      obtain ⟨rfl, n, hn, hrest⟩ := h
      obtain ⟨hnot, hnodup'⟩ := List.nodup_cons.mp hnodup
      have hne : node.1 ≠ t := by
        rintro rfl
        exact hnot (by simp)
      refine ⟨rfl, n, ?_, ih hrest hnodup'⟩
      rw [Function.update_of_ne hne]
      exact hn

end Link

/-! ### The operations on the list -/

/-- The empty queue. -/
theorem represents_empty (heap : Heap ι α) : Represents ⟨heap, none, none⟩ [] :=
  ⟨rfl, List.nodup_nil, rfl⟩

/-- Only the nodes of the queue count. -/
theorem represents_frame {q : LinkedQueue ι α} {l : List (ι × α)} (h : Represents q l)
    {heap : Heap ι α} (heq : ∀ a ∈ l.map Prod.fst, heap a = q.heap a) :
    Represents { q with heap := heap } l :=
  ⟨h.chain.congr heq, h.nodup, h.tail_eq⟩

/-- The head and the tail are null together. -/
theorem head_eq_none_iff {q : LinkedQueue ι α} {l : List (ι × α)} (h : Represents q l) :
    q.head = none ↔ q.tail = none := by
  rw [h.tail_eq]
  have hchain := h.chain
  cases l with
  | nil =>
      have hhead : q.head = none := hchain
      simp [hhead]
  | cons node l =>
      obtain ⟨hhead, -⟩ := hchain
      simp [hhead]

/-- The queue is empty exactly when its head is null. -/
theorem eq_nil_iff {q : LinkedQueue ι α} {l : List (ι × α)} (h : Represents q l) :
    l = [] ↔ q.head = none := by
  have hchain := h.chain
  cases l with
  | nil => exact ⟨fun _ => hchain, fun _ => rfl⟩
  | cons node l =>
      obtain ⟨hhead, -⟩ := hchain
      simp [hhead]

/-- The tail is the last node that the pointers reach from the head. -/
theorem isLast_of_represents {q : LinkedQueue ι α} {l : List (ι × α)} (h : Represents q l)
    {t : ι} (ht : q.tail = some t) : IsLast q.heap q.head t :=
  h.chain.isLast (h.tail_eq.symm.trans ht)

/-- `unlinkHead` takes the first node off. -/
theorem represents_unlinkHead {q : LinkedQueue ι α} {a : ι} {x : α} {l : List (ι × α)}
    (h : Represents q ((a, x) :: l)) :
    ∃ q', q.unlinkHead = some ((a, x), q') ∧ Represents q' l ∧ q'.heap = q.heap := by
  obtain ⟨⟨hhead, n, hn, hrest⟩, hnodup, htail⟩ := h
  have htail' : (if n.isNone then none else q.tail) = (l.map Prod.fst).getLast? := by
    cases l with
    | nil =>
        obtain rfl : n = none := hrest
        rfl
    | cons node l =>
        obtain ⟨rfl, -⟩ := hrest
        simpa using htail
  refine ⟨{ q with head := n, tail := if n.isNone then none else q.tail }, ?_, ?_, rfl⟩
  · simp only [unlinkHead, hhead, hn]
    rfl
  · exact ⟨hrest, (List.nodup_cons.mp hnodup).2, htail'⟩

section Operations
variable [DecidableEq ι]

/-- `link` appends a new node at the end. -/
theorem represents_link {q : LinkedQueue ι α} {l : List (ι × α)} (h : Represents q l)
    {a : ι} {x : α} (ha : q.heap a = some ⟨x, none⟩) (hfresh : a ∉ l.map Prod.fst) :
    ∃ q', q.link a = some q' ∧ Represents q' (l ++ [(a, x)]) ∧
      ∀ b, b ∉ l.map Prod.fst → q'.heap b = q.heap b := by
  obtain ⟨hchain, hnodup, htail⟩ := h
  have hnodup' : ((l ++ [(a, x)]).map Prod.fst).Nodup := by
    rw [List.map_append]
    exact List.Nodup.append hnodup (List.nodup_singleton a) (by simpa using hfresh)
  rcases List.eq_nil_or_concat l with rfl | ⟨l, ⟨t, y⟩, rfl⟩
  · -- An empty queue gets its first node.
    have htail' : q.tail = none := htail
    refine ⟨{ q with head := some a, tail := some a }, by simp [link, htail'], ?_, fun _ _ => rfl⟩
    exact ⟨⟨rfl, none, ha, rfl⟩, hnodup', rfl⟩
  · rw [List.concat_eq_append] at *
    have htail' : q.tail = some t := by simpa using htail
    obtain ⟨n, hn⟩ := hchain.heap_eq (List.mem_append_right l List.mem_cons_self)
    have hat : a ≠ t := by
      rintro rfl
      exact hfresh (by simp)
    refine ⟨_, by simp only [link, htail', hn]; rfl, ⟨?_, hnodup', by simp⟩, ?_⟩
    · exact hchain.extend hnodup ha hat
    · intro b hb
      have hbt : b ≠ t := by
        rintro rfl
        exact hb (by simp)
      exact Function.update_of_ne hbt _ _

/-- A node that is not in the queue can be written. -/
theorem represents_write {q : LinkedQueue ι α} {l : List (ι × α)} (h : Represents q l) {a : ι}
    (ha : a ∉ l.map Prod.fst) (node : Node ι α) : Represents (q.write a node) l :=
  represents_frame h fun _ hb =>
    Function.update_of_ne (ne_of_mem_of_not_mem hb ha) _ _

/-- A node that is not in the queue can be released. -/
theorem represents_free {q : LinkedQueue ι α} {l : List (ι × α)} (h : Represents q l) {a : ι}
    (ha : a ∉ l.map Prod.fst) : Represents (q.free a) l :=
  represents_frame h fun _ hb =>
    Function.update_of_ne (ne_of_mem_of_not_mem hb ha) _ _

end Operations

end LinkedQueue

end ProcessAnalyzer.Lib
