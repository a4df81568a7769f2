import ProcessAnalyzer.Lib.Run
import ProcessAnalyzer.Proofs.UthashBuckets

/-!
# `ProcessAnalyzer.Proofs.Uthash`: the hash table keeps its elements

The abstract table is the list of its elements with their blocks, in the order in which they
were added (`tableStep`). `Intact` is the invariant of the memory: the buckets have the elements
(`Bucketed`), the elements are linked in both directions in their order (`Ordered`), and the
handle of an element has the hash value of its key.

* `hashFind_spec`, `hashAdd_spec`, `hashDelete_spec`, `hashFsck_spec`: one specification for each
  macro.
* `hashIter_spec`: the loop rule of `HASH_ITER`. The body may delete the element it is at.
* `uthash_represents`: over any sequence of additions, changes and deletions the macros read and
  write allocated blocks only, keep the integrity check quiet, visit the elements of the abstract
  table in its order and find an element for exactly the keys that are in it.
-/

set_option autoImplicit false

namespace ProcessAnalyzer.Uthash

open ProcessAnalyzer.Lib

section Table
variable {α κ : Type} {key : α → κ} {hash : κ → UInt32} {heap heap' : Heap α}

/-! ### The invariant -/

/-- An element of the table, with the hash value of its key in its handle. -/
def Alive (key : α → κ) (hash : κ → UInt32) (heap : Heap α) (p : ℕ) : Prop :=
  ∃ e, heap p = some e ∧ e.hashv = hash (key e.value)

/-- The elements are linked in the order in which they were added. -/
structure Ordered (heap : Heap α) (tail : ℕ) (ps : List ℕ) : Prop where
  linked : Linked (link Element.next heap) (link Element.prev heap) none ps none
  nodup : ps.Nodup
  last : ps.getLast? = some tail

/-- The memory of a table. -/
structure Intact (key : α → κ) (hash : κ → UInt32) (heap : Heap α) (t : UtHashTable)
    (ps : List ℕ) : Prop where
  bucketed : Bucketed heap t ps
  ordered : Ordered heap t.tail ps
  items : t.numItems = ps.length
  alive : ∀ p ∈ ps, Alive key hash heap p

/-- The table of a head pointer has these elements, in this order. There is no table without
elements. -/
structure Contains (key : α → κ) (hash : κ → UInt32) (m : Memory α) (ps : List ℕ) : Prop where
  head : m.head = ps.head?
  table :
    match m.tbl with
    | none => ps = []
    | some t => Intact key hash m.heap t ps

/-- Blocks with the same hash value and the same value are alive together. -/
theorem Alive.of_core {p : ℕ} (h : Alive key hash heap p) (hcore : core heap' p = core heap p) :
    Alive key hash heap' p := by
  obtain ⟨e, he, hhash⟩ := h
  rw [core_of_some he, core, Option.map_eq_some_iff] at hcore
  obtain ⟨e', he', hsame⟩ := hcore
  obtain ⟨hhashv, hvalue⟩ := Prod.mk.inj hsame
  exact ⟨e', he', by rw [hhashv, hvalue, hhash]⟩

theorem Alive.core_ne_none {p : ℕ} (h : Alive key hash heap p) : core heap p ≠ none := by
  obtain ⟨e, he, -⟩ := h
  rw [core_of_some he]
  exact Option.some_ne_none _

theorem Ordered.ne_nil {tail : ℕ} {ps : List ℕ} (h : Ordered heap tail ps) : ps ≠ [] := by
  rintro rfl
  exact absurd h.last (by simp)

/-- The links of the order are what matters. -/
theorem Ordered.congr {tail : ℕ} {ps : List ℕ} (h : Ordered heap tail ps)
    (hlinks : ∀ p ∈ ps, link Element.next heap' p = link Element.next heap p ∧
      link Element.prev heap' p = link Element.prev heap p) : Ordered heap' tail ps where
  linked := h.linked.congr (fun p hp => (hlinks p hp).1) fun p hp => (hlinks p hp).2
  nodup := h.nodup
  last := h.last

/-- The links within the buckets are not those of the order. -/
theorem Ordered.relinked {tail : ℕ} {ps qs : List ℕ} (h : Ordered heap tail ps)
    (hrelinked : Relinked qs heap heap') : Ordered heap' tail ps :=
  h.congr fun p _ => ⟨congrFun hrelinked.next p, congrFun hrelinked.prev p⟩

/-- The hash values and the links within the buckets are what matters. -/
theorem Bucketed.congr {t : UtHashTable} {ps : List ℕ} (h : Bucketed heap t ps)
    (hlinks : ∀ p ∈ ps, link Element.hhNext heap' p = link Element.hhNext heap p ∧
      link Element.hhPrev heap' p = link Element.hhPrev heap p)
    (hbucket : ∀ p ∈ ps, bucketOf heap' t.numBuckets p = bucketOf heap t.numBuckets p)
    (halloc : ∀ p ∈ ps, core heap' p ≠ none) : Bucketed heap' t ps where
  numBuckets := h.numBuckets
  filled := h.filled.imp fun _ hfilled => hfilled.congr hlinks hbucket
  alloc := halloc

/-- A block with another value and the same handle. -/
theorem link_of_value {p : ℕ} {e : Element α} {a : α} (he : heap p = some e)
    (he' : heap' p = some { e with value := a }) {field : Element α → Option ℕ}
    (hfield : field { e with value := a } = field e) : link field heap' p = link field heap p := by
  rw [link_of_some he', link_of_some he, hfield]

/-- Elements that keep their keys can change, and other blocks do not matter. -/
theorem Intact.congr {t : UtHashTable} {ps : List ℕ} (h : Intact key hash heap t ps)
    (hsame : ∀ p ∈ ps, ∀ e, heap p = some e →
      ∃ a, heap' p = some { e with value := a } ∧ key a = key e.value) :
    Intact key hash heap' t ps := by
  have hmem (p : ℕ) (hp : p ∈ ps) : ∃ e a, heap p = some e ∧ e.hashv = hash (key e.value) ∧
      heap' p = some { e with value := a } ∧ key a = key e.value := by
    obtain ⟨e, he, hhash⟩ := h.alive p hp
    obtain ⟨a, ha, hkey⟩ := hsame p hp e he
    exact ⟨e, a, he, hhash, ha, hkey⟩
  refine ⟨h.bucketed.congr ?_ ?_ ?_, h.ordered.congr ?_, h.items, ?_⟩
  · intro p hp
    obtain ⟨e, a, he, -, he', -⟩ := hmem p hp
    exact ⟨link_of_value he he' rfl, link_of_value he he' rfl⟩
  · intro p hp
    obtain ⟨e, a, he, -, he', -⟩ := hmem p hp
    rw [bucketOf_of_some he', bucketOf_of_some he]
  · intro p hp
    obtain ⟨e, a, -, -, he', -⟩ := hmem p hp
    rw [core_of_some he']
    exact Option.some_ne_none _
  · intro p hp
    obtain ⟨e, a, he, -, he', -⟩ := hmem p hp
    exact ⟨link_of_value he he' rfl, link_of_value he he' rfl⟩
  · intro p hp
    obtain ⟨e, a, -, hhash, he', hkey⟩ := hmem p hp
    exact ⟨_, he', hhash.trans (congrArg hash hkey.symm)⟩

namespace Contains
variable {m : Memory α} {ps : List ℕ}

/-- A table with elements. -/
theorem exists_table (h : Contains key hash m ps) (hne : ps ≠ []) :
    ∃ t, m.tbl = some t ∧ tblOfHead m = some t ∧ Intact key hash m.heap t ps := by
  obtain ⟨p, rest, rfl⟩ := List.exists_cons_of_ne_nil hne
  have htable := h.table
  cases htbl : m.tbl with
  | none =>
      rw [htbl] at htable
      exact absurd htable hne
  | some t =>
      rw [htbl] at htable
      obtain ⟨e, he, -⟩ := htable.alive p List.mem_cons_self
      refine ⟨t, rfl, ?_, htable⟩
      rw [tblOfHead, h.head, List.head?_cons, Option.bind_some, he, Option.bind_some, htbl]

/-- No table. -/
theorem eq_none (h : Contains key hash m []) : m.head = none ∧ m.tbl = none := by
  refine ⟨h.head, ?_⟩
  have htable := h.table
  cases htbl : m.tbl with
  | none => rfl
  | some t =>
      rw [htbl] at htable
      exact absurd rfl htable.ordered.ne_nil

/-- A table that is in the memory. -/
theorem of_intact {t : UtHashTable} (hhead : m.head = ps.head?) (htbl : m.tbl = some t)
    (h : Intact key hash m.heap t ps) : Contains key hash m ps := by
  refine ⟨hhead, ?_⟩
  rw [htbl]
  exact h

/-- Elements that keep their keys can change, and other blocks do not matter. -/
theorem congr (h : Contains key hash m ps)
    (hsame : ∀ p ∈ ps, ∀ e, m.heap p = some e →
      ∃ a, heap' p = some { e with value := a } ∧ key a = key e.value) :
    Contains key hash { m with heap := heap' } ps := by
  rcases eq_or_ne ps [] with rfl | hne
  · obtain ⟨hhead, htbl⟩ := h.eq_none
    refine ⟨hhead, ?_⟩
    show match m.tbl with
      | none => ([] : List ℕ) = []
      | some t => Intact key hash heap' t []
    rw [htbl]
  · obtain ⟨t, htbl, -, hintact⟩ := h.exists_table hne
    exact of_intact h.head htbl (hintact.congr hsame)

theorem nodup (h : Contains key hash m ps) : ps.Nodup := by
  rcases eq_or_ne ps [] with rfl | hne
  · exact List.nodup_nil
  · obtain ⟨t, -, -, hintact⟩ := h.exists_table hne
    exact hintact.ordered.nodup

theorem alive (h : Contains key hash m ps) {p : ℕ} (hp : p ∈ ps) : Alive key hash m.heap p := by
  obtain ⟨t, -, -, hintact⟩ := h.exists_table (List.ne_nil_of_mem hp)
  exact hintact.alive p hp

/-- What `HASH_COUNT` counts. -/
theorem hashCount (h : Contains key hash m ps) : hashCount m = some ps.length := by
  unfold Uthash.hashCount
  cases ps with
  | nil => rw [h.eq_none.1]; rfl
  | cons p rest =>
      obtain ⟨t, -, htbl, hintact⟩ := h.exists_table (List.cons_ne_nil _ _)
      rw [h.head, List.head?_cons, htbl, Option.map_some, hintact.items]

/-- The element behind an element. -/
theorem hhNextOf {before rest : List ℕ} {p : ℕ} (h : Contains key hash m (before ++ p :: rest)) :
    hhNextOf m.heap (some p) = some rest.head? := by
  have hp : p ∈ before ++ p :: rest := List.mem_append_right _ List.mem_cons_self
  obtain ⟨t, -, -, hintact⟩ := h.exists_table (List.ne_nil_of_mem hp)
  obtain ⟨e, he, -⟩ := hintact.alive p hp
  obtain ⟨-, -, hnext, -⟩ := (linked_append_iff ..).mp hintact.ordered.linked
  rw [link_of_some he, Option.or_none] at hnext
  rw [Uthash.hhNextOf, he, Option.map_some, hnext]

end Contains

/-! ### `HASH_FIND` -/

section Find
variable [DecidableEq κ]

/-- The key of the element at an address. -/
def keyAt (key : α → κ) (heap : Heap α) (p : ℕ) : Option κ := (heap p).map fun e => key e.value

/-- In a chain of elements of the table, the search stops at the first one with the key. -/
theorem hashFindInBkt_eq {k : κ} {chain : List ℕ} {front : Option ℕ}
    (hlinked : Linked (link Element.hhNext heap) (link Element.hhPrev heap) front chain none)
    (halive : ∀ p ∈ chain, Alive key hash heap p) {n : ℕ} (hn : chain.length ≤ n) :
    hashFindInBkt key heap k (hash k) n chain.head?
      = some (chain.find? fun p => keyAt key heap p = some k) := by
  induction chain generalizing n front with
  | nil => rw [List.head?_nil, hashFindInBkt, List.find?_nil]
  | cons p rest ih =>
      obtain ⟨n, rfl⟩ : ∃ k, n = k + 1 := Nat.exists_eq_succ_of_ne_zero (by
        rw [List.length_cons] at hn
        omega)
      obtain ⟨-, hnext, hrest⟩ := hlinked
      obtain ⟨e, he, hhash⟩ := halive p List.mem_cons_self
      rw [link_of_some he, Option.or_none] at hnext
      rw [List.head?_cons, hashFindInBkt, he, Option.bind_some, hhash]
      have hkey : keyAt key heap p = some (key e.value) := by
        unfold keyAt
        rw [he, Option.map_some]
      -- Equal keys have equal hash values, so the comparison of these loses nothing.
      by_cases hk : key e.value = k
      · rw [if_pos ⟨congrArg hash hk, hk⟩, List.find?_cons_of_pos]
        exact decide_eq_true (hkey.trans (congrArg some hk))
      · rw [if_neg fun h => hk h.2, List.find?_cons_of_neg, hnext]
        · exact ih hrest (fun p hp => halive p (List.mem_cons_of_mem _ hp))
            (Nat.le_of_succ_le_succ hn)
        · rw [decide_eq_true_iff, hkey, Option.some.injEq]
          exact hk

/-- A lookup finds an element with the key, when there is one. -/
theorem hashFind_spec {m : Memory α} {ps : List ℕ} (h : Contains key hash m ps) (k : κ) :
    ∃ found, hashFind key hash m k = some found ∧
      (∀ p, found = some p → p ∈ ps ∧ keyAt key m.heap p = some k) ∧
      (found = none → ∀ p ∈ ps, keyAt key m.heap p ≠ some k) := by
  cases hps : ps with
  | nil =>
      subst hps
      refine ⟨none, ?_, by simp, by simp⟩
      rw [hashFind, h.eq_none.1]
  | cons first rest =>
      obtain ⟨t, -, htbl, hintact⟩ := h.exists_table (hps ▸ List.cons_ne_nil _ _)
      obtain ⟨b, chain, hb, hchained, hlength, hmem⟩ := hintact.bucketed.exists_chain (hash k)
      have halive : ∀ p ∈ chain, Alive key hash m.heap p :=
        fun p hp => hintact.alive p ((hmem p).mp hp).1
      rw [← hps]
      refine ⟨chain.find? fun p => keyAt key m.heap p = some k, ?_, ?_, ?_⟩
      · rw [hashFind, h.head, hps, List.head?_cons]
        simp only [htbl, hb, hchained.head, Option.bind_eq_bind, Option.bind_some]
        exact hashFindInBkt_eq hchained.linked halive (hintact.items.symm ▸ hlength)
      · intro p hp
        exact ⟨((hmem p).mp (List.mem_of_find?_eq_some hp)).1, by simpa using List.find?_some hp⟩
      · intro hnone p hp hkey
        -- An element with the key has the hash value of the key, and so it is in this bucket.
        obtain ⟨e, he, hhash⟩ := hintact.alive p hp
        have hk : key e.value = k := by
          unfold keyAt at hkey
          rw [he, Option.map_some, Option.some.injEq] at hkey
          exact hkey
        have hin : p ∈ chain := by
          refine (hmem p).mpr ⟨hp, ?_⟩
          rw [bucketOf_of_some he, hhash, hk]
        exact List.find?_eq_none.mp hnone p hin (decide_eq_true hkey)

end Find

/-! ### `HASH_FSCK` -/

/-- A list that is linked in both directions has the number of its elements. -/
theorem fsckList_eq {next prev : Element α → Option ℕ} {l : List ℕ} {front : Option ℕ}
    (hlinked : Linked (link next heap) (link prev heap) front l none)
    (halloc : ∀ p ∈ l, core heap p ≠ none) {n : ℕ} (hn : l.length ≤ n) :
    fsckList heap next prev n front l.head? = some l.length := by
  induction l generalizing n front with
  | nil => rw [List.head?_nil, fsckList, List.length_nil]
  | cons p rest ih =>
      obtain ⟨n, rfl⟩ : ∃ k, n = k + 1 := Nat.exists_eq_succ_of_ne_zero (by
        rw [List.length_cons] at hn
        omega)
      obtain ⟨hprev, hnext, hrest⟩ := hlinked
      obtain ⟨e, he⟩ := Option.ne_none_iff_exists'.mp fun hnone =>
        halloc p List.mem_cons_self (core_eq_none_iff.mpr hnone)
      rw [link_of_some he] at hprev
      rw [link_of_some he, Option.or_none] at hnext
      rw [List.head?_cons, fsckList, he, Option.bind_some, if_neg (not_not_intro hprev), hnext,
        ih hrest (fun q hq => halloc q (List.mem_cons_of_mem _ hq)) (Nat.le_of_succ_le_succ hn),
        Option.map_some, List.length_cons]

/-- The integrity check is quiet. -/
theorem hashFsck_spec {m : Memory α} {ps : List ℕ} (h : Contains key hash m ps) :
    hashFsck m = true := by
  unfold hashFsck
  cases hps : ps with
  | nil => subst hps; rw [h.eq_none.1]
  | cons p rest =>
      obtain ⟨t, -, htbl, hintact⟩ := h.exists_table (hps ▸ List.cons_ne_nil _ _)
      obtain ⟨chains, hfilled⟩ := hintact.bucketed.filled
      have hhead : m.head = some p := by rw [h.head, hps, List.head?_cons]
      -- The counts of the buckets, the list of all elements, and then bucket by bucket.
      have hsum : (t.buckets.map UtHashBucket.count).sum = t.numItems := by
        rw [hfilled.linked.map_count, ← List.length_flatten, hintact.items]
        exact (hfilled.perm_flatten hintact.bucketed.pos).length_eq
      have horder : fsckList m.heap Element.next Element.prev t.numItems none (some p)
          = some t.numItems := by
        rw [← hhead, h.head, hintact.items]
        exact fsckList_eq hintact.ordered.linked hintact.bucketed.alloc (le_of_eq rfl)
      simp only [hhead, htbl]
      rw [hsum, horder, Bool.and_eq_true, Bool.and_eq_true, List.all_eq_true]
      refine ⟨⟨?_, beq_self_eq_true _⟩, beq_self_eq_true _⟩
      intro b hb
      obtain ⟨j, hj⟩ := List.mem_iff_getElem?.mp hb
      obtain ⟨chain, hchain, hchained⟩ := hfilled.linked.exists_chain hj
      obtain ⟨-, hlength, hmem⟩ := hfilled.chain_spec hchain
      rw [hchained.head, hchained.count, fsckList_eq hchained.linked
        (fun q hq => hintact.bucketed.alloc q ((hmem q).mp hq).1) (hintact.items.symm ▸ hlength)]
      exact beq_self_eq_true _

/-! ### `HASH_ADD` -/

/-- Nothing has changed but the links of the order. -/
structure Reordered (heap heap' : Heap α) : Prop where
  core : core heap' = core heap
  hhPrev : link Element.hhPrev heap' = link Element.hhPrev heap
  hhNext : link Element.hhNext heap' = link Element.hhNext heap

/-- The buckets are not about the links of the order. -/
theorem Bucketed.reordered {t : UtHashTable} {ps : List ℕ} (h : Bucketed heap t ps)
    (hreordered : Reordered heap heap') : Bucketed heap' t ps := by
  refine h.congr (fun p _ => ?_) (fun p _ => ?_) fun p hp => ?_
  · exact ⟨congrFun hreordered.hhNext p, congrFun hreordered.hhPrev p⟩
  · rw [bucketOf, hreordered.core]
    rfl
  · rw [hreordered.core]
    exact h.alloc p hp

/-- A new table, before its first element is in a bucket. -/
theorem bucketed_hashMakeTable (heap : Heap α) (p : ℕ) : Bucketed heap (hashMakeTable p) [] where
  numBuckets := rfl
  filled := ⟨_, Filled.empty heap hashInitialNumBuckets⟩
  alloc _ hp := absurd hp List.not_mem_nil

/-- The first element of the order. -/
theorem ordered_singleton {p : ℕ} (hp : core heap p ≠ none) :
    ∃ heap', writeAt heap p (fun e => { e with next := none, prev := none }) = some heap' ∧
      Reordered heap heap' ∧ Ordered heap' p [p] := by
  obtain ⟨heap', hrun, hwrote⟩ := writeAt_spec heap
    (fun e => { e with next := none, prev := none }) (fun _ => ⟨rfl, rfl⟩) hp
  refine ⟨heap', hrun, ⟨hwrote.core, hwrote.other _ fun _ => rfl, hwrote.other _ fun _ => rfl⟩,
    ⟨⟨?_, ?_, trivial⟩, List.nodup_singleton p, rfl⟩⟩
  · rw [hwrote.link _ none fun _ => rfl, writeLink_some, Function.update_self]
  · rw [hwrote.link _ none fun _ => rfl, writeLink_some, Function.update_self]
    rfl

/-- A new element at the end of the order. -/
theorem hashAppendList_spec {t : UtHashTable} {ps : List ℕ} (h : Ordered heap t.tail ps) {p : ℕ}
    (hp : p ∉ ps) (halloc : ∀ q ∈ ps ++ [p], core heap q ≠ none) :
    ∃ heap', hashAppendList heap t p = some (heap', { t with tail := p }) ∧
      Reordered heap heap' ∧ Ordered heap' p (ps ++ [p]) := by
  obtain ⟨heap₁, hrun₁, hwrote₁⟩ := writeAt_spec heap
    (fun e => { e with next := none, prev := some t.tail }) (fun _ => ⟨rfl, rfl⟩)
    (halloc p (by simp))
  obtain ⟨heap₂, hrun₂, hwrote₂⟩ := writeAt_spec heap₁
    (fun e => { e with next := some p }) (fun _ => ⟨rfl, rfl⟩) (p := t.tail) (by
      rw [hwrote₁.core]
      exact halloc t.tail (List.mem_append_left _ (List.mem_of_getLast? h.last)))
  -- The element before is the one that the table has as its tail.
  have hnext : link Element.next heap₂
      = writeLink (Function.update (link Element.next heap) p none) ps.getLast? (some p) := by
    rw [hwrote₂.link _ (some p) fun _ => rfl, hwrote₁.link _ none fun _ => rfl, h.last]
    rfl
  have hprev : link Element.prev heap₂
      = Function.update (link Element.prev heap) p ps.getLast? := by
    rw [hwrote₂.other _ fun _ => rfl, hwrote₁.link _ (some t.tail) fun _ => rfl, h.last]
    rfl
  refine ⟨heap₂, ?_, ⟨hwrote₂.core.trans hwrote₁.core, ?_, ?_⟩, ⟨?_, ?_, ?_⟩⟩
  · simp only [hashAppendList, hrun₁, hrun₂, Option.bind_eq_bind, Option.bind_some]
  · exact (hwrote₂.other _ fun _ => rfl).trans (hwrote₁.other _ fun _ => rfl)
  · exact (hwrote₂.other _ fun _ => rfl).trans (hwrote₁.other _ fun _ => rfl)
  · rw [hnext, hprev]
    exact h.linked.concat h.nodup hp
  · exact List.nodup_append.mpr ⟨h.nodup, List.nodup_singleton p, fun q hq q' hq' =>
      List.mem_singleton.mp hq' ▸ ne_of_mem_of_not_mem hq hp⟩
  · rw [List.getLast?_concat]

/-- The first part of an addition. The buckets do not have the element yet. -/
theorem hashAddToOrder_spec {m : Memory α} {ps : List ℕ} (h : Contains key hash m ps) {p : ℕ}
    (hp : p ∉ ps) (halloc : core m.heap p ≠ none) :
    ∃ heap' t, hashAddToOrder m p = some ⟨heap', (ps ++ [p]).head?, some t⟩ ∧
      Reordered m.heap heap' ∧ Bucketed heap' t ps ∧ Ordered heap' t.tail (ps ++ [p]) ∧
      t.numItems = ps.length := by
  cases ps with
  | nil =>
      obtain ⟨heap', hrun, hreordered, hordered⟩ := ordered_singleton halloc
      refine ⟨heap', hashMakeTable p, ?_, hreordered, bucketed_hashMakeTable heap' p, hordered, rfl⟩
      rw [hashAddToOrder, h.eq_none.1]
      simp only [hrun, Option.bind_eq_bind, Option.bind_some]
      rfl
  | cons first rest =>
      obtain ⟨t, -, htbl, hintact⟩ := h.exists_table (List.cons_ne_nil _ _)
      obtain ⟨heap', hrun, hreordered, hordered⟩ := hashAppendList_spec hintact.ordered hp
        (by
          intro q hq
          rcases List.mem_append.mp hq with hq | hq
          · exact (h.alive hq).core_ne_none
          · exact List.mem_singleton.mp hq ▸ halloc)
      have hbucketed := hintact.bucketed.reordered hreordered
      refine ⟨heap', { t with tail := p }, ?_, hreordered,
        ⟨hbucketed.numBuckets, hbucketed.filled, hbucketed.alloc⟩, hordered, hintact.items⟩
      rw [hashAddToOrder, h.head, List.head?_cons]
      simp only [htbl, hrun, Option.bind_eq_bind, Option.bind_some]
      rfl

/-- The second part of an addition: an element that is in the order comes into its bucket. -/
theorem hashAddToBkt_spec {t : UtHashTable} {ps : List ℕ} {p : ℕ} (hbucketed : Bucketed heap t ps)
    (hordered : Ordered heap t.tail (ps ++ [p])) (hitems : t.numItems = ps.length)
    (halive : ∀ q ∈ ps ++ [p], Alive key hash heap q) (hp : p ∉ ps) :
    ∃ heap' t', hashAddToBkt heap { t with numItems := t.numItems + 1 }
        (bucketOf heap t.numBuckets p) p = some (heap', t') ∧
      core heap' = core heap ∧ Intact key hash heap' t' (ps ++ [p]) := by
  have hcounted : Bucketed heap { t with numItems := t.numItems + 1 } ps :=
    ⟨hbucketed.numBuckets, hbucketed.filled, hbucketed.alloc⟩
  obtain ⟨heap', t', hrun, hrelinked, hbucketed', hitems', htail⟩ := hcounted.hashAddToBkt hp
    (halive p (by simp)).core_ne_none (Nat.add_le_add_right (le_of_eq hitems.symm) 1)
  refine ⟨heap', t', hrun, hrelinked.core, ⟨?_, ?_, ?_, ?_⟩⟩
  · exact hbucketed'.of_perm (List.perm_append_singleton p ps).symm
  · rw [htail]
    exact hordered.relinked hrelinked
  · rw [hitems', List.length_append, List.length_singleton]
    exact congrArg (· + 1) hitems
  · exact fun q hq => (halive q hq).of_core (congrFun hrelinked.core q)

/-- An addition. -/
theorem hashAdd_spec {m : Memory α} {ps : List ℕ} (h : Contains key hash m ps) {p : ℕ}
    {e : Element α} (he : m.heap p = some e) (hp : p ∉ ps) :
    ∃ m', hashAdd key hash m p = some m' ∧ Contains key hash m' (ps ++ [p]) ∧
      core m'.heap
        = core (Function.update m.heap p (some { e with hashv := hash (key e.value) })) := by
  have hwrite : writeAt m.heap p (fun e' => { e' with hashv := hash (key e.value) })
      = some (Function.update m.heap p (some { e with hashv := hash (key e.value) })) := by
    rw [writeAt, he, Option.map_some]
  -- From here on the handle of the element has its hash value.
  generalize hheap : Function.update m.heap p (some { e with hashv := hash (key e.value) })
    = heap at hwrite ⊢
  have hself : heap p = some { e with hashv := hash (key e.value) } := by
    rw [← hheap, Function.update_self]
  have hcontains : Contains key hash { m with heap := heap } ps := by
    refine h.congr fun q hq e' he' => ⟨e'.value, ?_, rfl⟩
    rw [← hheap, Function.update_of_ne (ne_of_mem_of_not_mem hq hp), he']
  have halive : ∀ q ∈ ps ++ [p], Alive key hash heap q := by
    intro q hq
    rcases List.mem_append.mp hq with hq | hq
    · exact hcontains.alive hq
    · rw [List.mem_singleton.mp hq]
      exact ⟨_, hself, rfl⟩
  obtain ⟨heap₁, t, horder, hreordered, hbucketed, hordered, hitems⟩ :=
    hashAddToOrder_spec hcontains hp (halive p (by simp)).core_ne_none
  have halive₁ (q : ℕ) (hq : q ∈ ps ++ [p]) : Alive key hash heap₁ q :=
    (halive q hq).of_core (congrFun hreordered.core q)
  obtain ⟨heap₂, t', hadd, hcore, hintact⟩ :=
    hashAddToBkt_spec hbucketed hordered hitems halive₁ hp
  have hbucket : bucketOf heap₁ t.numBuckets p = hashToBkt (hash (key e.value)) t.numBuckets := by
    rw [bucketOf, hreordered.core, core_of_some hself]
  rw [hbucket] at hadd
  -- `HASH_ADD` reads the table through the head once more.
  have htbl : tblOfHead ⟨heap₁, (ps ++ [p]).head?, some t⟩ = some t := by
    obtain ⟨first, hfirst⟩ := Option.ne_none_iff_exists'.mp fun hnone =>
      List.append_ne_nil_of_right_ne_nil ps (List.cons_ne_nil p [])
        (List.head?_eq_none_iff.mp hnone)
    obtain ⟨block, hblock, -⟩ := halive₁ first (List.mem_of_head? hfirst)
    simp only [tblOfHead, hfirst, hblock, Option.bind_some]
  refine ⟨⟨heap₂, (ps ++ [p]).head?, some t'⟩, ?_, Contains.of_intact rfl rfl hintact,
    hcore.trans hreordered.core⟩
  simp only [hashAdd, he, hwrite, horder, htbl, hadd, Option.bind_eq_bind, Option.bind_some]

/-! ### `HASH_DELETE` -/

/-- An element with a neighbour goes out of the order, and the table gets a last element. -/
theorem Ordered.unlink {tail : ℕ} {ps : List ℕ} (h : Ordered heap tail ps)
    (halloc : ∀ q ∈ ps, core heap q ≠ none) {p : ℕ} (hp : p ∈ ps) {del : Element α}
    (hdel : heap p = some del) (hmore : ¬ (del.prev = none ∧ del.next = none)) :
    ∃ heap₁ heap₂ tail',
      writeThrough heap del.prev (fun e => { e with next := del.next }) = some heap₁ ∧
      writeThrough heap₁ del.next (fun e => { e with prev := del.prev }) = some heap₂ ∧
      (if p = tail then del.prev else some tail) = some tail' ∧
      (if del.prev = none then del.next else ps.head?) = (ps.erase p).head? ∧
      Reordered heap heap₂ ∧ Ordered heap₂ tail' (ps.erase p) := by
  obtain ⟨heap₁, heap₂, hrun₁, hrun₂, hcore, hother, -, hlinked⟩ := unlink_spec
    Element.next Element.prev (fun e => { e with next := del.next })
    (fun e => { e with prev := del.prev }) h.linked h.nodup halloc hp
    hdel (fun _ => ⟨rfl, rfl⟩) (fun _ => ⟨rfl, rfl⟩) (fun _ => ⟨rfl, rfl⟩) fun _ => ⟨rfl, rfl⟩
  have herase : ps.erase p ≠ [] := by
    intro hnil
    have hperm := List.perm_cons_erase hp
    rw [hnil] at hperm
    have hsingle := h.linked.eq_singleton_iff h.nodup hp
    rw [link_of_some hdel, link_of_some hdel] at hsingle
    exact hmore (hsingle.mpr (List.perm_singleton.mp hperm))
  obtain ⟨tail', hlast⟩ := Option.ne_none_iff_exists'.mp fun hnone =>
    herase (List.getLast?_eq_none_iff.mp hnone)
  refine ⟨heap₁, heap₂, tail', hrun₁, hrun₂, ?_, ?_, ?_, ⟨hlinked, h.nodup.erase p, hlast⟩⟩
  · -- The element is the last one exactly when its `next` is null.
    have hend := h.linked.next_eq_none_iff h.nodup hp
    rw [link_of_some hdel, h.last, Option.some.injEq] at hend
    rw [← hlast, h.linked.getLast?_erase h.nodup hp, link_of_some hdel, link_of_some hdel, h.last]
    exact if_congr (eq_comm.trans hend.symm) rfl rfl
  · rw [h.linked.head?_erase h.nodup hp, link_of_some hdel, link_of_some hdel]
  · exact ⟨hcore, hother _ (fun _ => rfl) fun _ => rfl, hother _ (fun _ => rfl) fun _ => rfl⟩

/-- A deletion. -/
theorem hashDelete_spec {m : Memory α} {ps : List ℕ} (h : Contains key hash m ps) {p : ℕ}
    (hp : p ∈ ps) :
    ∃ m', hashDelete m p = some m' ∧ Contains key hash m' (ps.erase p) ∧
      core m'.heap = core m.heap := by
  obtain ⟨t, -, htbl, hintact⟩ := h.exists_table (List.ne_nil_of_mem hp)
  obtain ⟨del, hdel, -⟩ := hintact.alive p hp
  by_cases hlast : del.prev = none ∧ del.next = none
  · -- The last element goes, and the table goes with it.
    have hsingle := hintact.ordered.linked.eq_singleton_iff hintact.ordered.nodup hp
    rw [link_of_some hdel, link_of_some hdel] at hsingle
    obtain rfl : ps = [p] := hsingle.mp hlast
    refine ⟨{ m with head := none, tbl := none }, ?_, ⟨?_, ?_⟩, rfl⟩
    · simp only [hashDelete, hdel, htbl, Option.bind_eq_bind, Option.bind_some, if_pos hlast]
    · rw [List.erase_cons_head]
      rfl
    · exact List.erase_cons_head p []
  · -- The neighbours in the order are linked with each other, and then those in the bucket.
    obtain ⟨heap₁, heap₂, tail, hrun₁, hrun₂, htail, hhead, hreordered, hordered⟩ :=
      hintact.ordered.unlink hintact.bucketed.alloc hp hdel hlast
    have hbucketed := hintact.bucketed.reordered hreordered
    have htailed : Bucketed heap₂ { t with tail := tail } ps :=
      ⟨hbucketed.numBuckets, hbucketed.filled, hbucketed.alloc⟩
    obtain ⟨heap', t', hrun, hrelinked, hbucketed', hitems, htail'⟩ := htailed.hashDelInBkt hp
    have hbucket : bucketOf heap₂ t.numBuckets p = hashToBkt del.hashv t.numBuckets := by
      rw [bucketOf, hreordered.core, core_of_some hdel]
    rw [hbucket] at hrun
    have hcore := hrelinked.core.trans hreordered.core
    refine ⟨⟨heap', (ps.erase p).head?, some { t' with numItems := t'.numItems - 1 }⟩, ?_,
      Contains.of_intact rfl rfl ⟨?_, ?_, ?_, ?_⟩, hcore⟩
    · simp only [hashDelete, hdel, htbl, htail, h.head, hrun₁, hrun₂, hrun, hhead,
        Option.bind_eq_bind, Option.bind_some, if_neg hlast]
    · exact ⟨hbucketed'.numBuckets, hbucketed'.filled, hbucketed'.alloc⟩
    · show Ordered heap' t'.tail (ps.erase p)
      rw [htail']
      exact hordered.relinked hrelinked
    · show t'.numItems - 1 = (ps.erase p).length
      rw [hitems, List.length_erase_of_mem hp]
      exact congrArg (· - 1) hintact.items
    · exact fun q hq =>
        (hintact.alive q (List.mem_of_mem_erase hq)).of_core (congrFun hcore q)

/-! ### `HASH_ITER` -/

/-- The loop of `HASH_ITER`. The invariant is about the elements that are still to come. `next` of
an element is read before the body has the element in front of it. -/
theorem hashIterLoop_spec {σ : Type} (memory : σ → Memory α) (body : σ → ℕ → Option σ)
    {I : List ℕ → σ → Prop}
    (hnext : ∀ p rest s, I (p :: rest) s → hhNextOf (memory s).heap (some p) = some rest.head?)
    (hbody : ∀ p rest s, I (p :: rest) s → ∃ s', body s p = some s' ∧ I rest s') {ps : List ℕ}
    {n : ℕ} (hn : ps.length ≤ n) {s : σ} (hI : I ps s) :
    ∃ s', hashIterLoop memory body n s ps.head? ps.tail.head? = some s' ∧ I [] s' := by
  induction ps generalizing n s with
  | nil => exact ⟨s, by rw [List.head?_nil, hashIterLoop], hI⟩
  | cons p rest ih =>
      obtain ⟨n, rfl⟩ : ∃ k, n = k + 1 := Nat.exists_eq_succ_of_ne_zero (by
        rw [List.length_cons] at hn
        omega)
      obtain ⟨s₁, hrun, hI₁⟩ := hbody p rest s hI
      -- `tmp` was read before the body, and what is behind it is read when the body is done.
      have htmp : hhNextOf (memory s₁).heap rest.head? = some rest.tail.head? := by
        cases rest with
        | nil => rfl
        | cons q rest => exact hnext q rest s₁ hI₁
      obtain ⟨s', hloop, hI'⟩ := ih (Nat.le_of_succ_le_succ hn) hI₁
      refine ⟨s', ?_, hI'⟩
      rw [List.head?_cons, List.tail_cons, hashIterLoop]
      simp only [hrun, htmp, hloop, Option.bind_eq_bind, Option.bind_some]

/-- `HASH_ITER`, with its body. -/
theorem hashIter_spec {σ : Type} (memory : σ → Memory α) (body : σ → ℕ → Option σ)
    {I : List ℕ → σ → Prop}
    (hnext : ∀ p rest s, I (p :: rest) s → hhNextOf (memory s).heap (some p) = some rest.head?)
    (hbody : ∀ p rest s, I (p :: rest) s → ∃ s', body s p = some s' ∧ I rest s') {ps : List ℕ}
    {s : σ} (h : Contains key hash (memory s) ps) (hI : I ps s) :
    ∃ s', hashIter memory body s = some s' ∧ I [] s' := by
  have htmp : hhNextOf (memory s).heap (memory s).head = some ps.tail.head? := by
    rw [h.head]
    cases ps with
    | nil => rfl
    | cons p rest => exact hnext p rest s hI
  obtain ⟨s', hloop, hI'⟩ := hashIterLoop_spec memory body hnext hbody (le_of_eq rfl) hI
  refine ⟨s', ?_, hI'⟩
  rw [h.head] at htmp
  simp only [hashIter, h.head, htmp, h.hashCount, hloop, Option.bind_eq_bind, Option.bind_some]

/-! ### Runs -/

/-- What a program does with the elements of a table: it allocates one, fills it in and adds it,
it changes one in place, or it deletes one and frees it. -/
inductive TableAct (α : Type) where
  | add (p : ℕ) (a : α)
  | change (p : ℕ) (a : α)
  | delete (p : ℕ)

variable [DecidableEq κ]

/-- One action on the abstract table. Only an element of the table can be changed or deleted,
and a change keeps the key. -/
def tableStep (key : α → κ) (l : List (ℕ × α)) : TableAct α → Option (List (ℕ × α))
  | .add p a => if p ∈ l.map Prod.fst then none else some (l ++ [(p, a)])
  | .change p a =>
      if ∃ x ∈ l, x.1 = p ∧ key x.2 = key a then
        some (l.map fun x => if x.1 = p then (p, a) else x)
      else none
  | .delete p => if p ∈ l.map Prod.fst then some (l.filter fun x => x.1 ≠ p) else none

/-- One action on the memory. A block that is in use is not allocated once more. -/
def memoryStep (key : α → κ) (hash : κ → UInt32) (m : Memory α) :
    TableAct α → Option (Memory α)
  | .add p a =>
      if (m.heap p).isSome then none
      else
        hashAdd key hash { m with heap := Function.update m.heap p (some { value := a }) } p
  | .change p a =>
      (m.heap p).map fun e =>
        { m with heap := Function.update m.heap p (some { e with value := a }) }
  | .delete p =>
      (hashDelete m p).bind fun m =>
        (m.heap p).map fun _ => { m with heap := Function.update m.heap p none }

omit [DecidableEq κ] in
/-- The memory has the elements of the abstract table, and no block besides them. -/
structure Represents (key : α → κ) (hash : κ → UInt32) (m : Memory α) (l : List (ℕ × α)) :
    Prop where
  contains : Contains key hash m (l.map Prod.fst)
  values : ∀ x ∈ l, ∃ e, m.heap x.1 = some e ∧ e.value = x.2
  unused : ∀ p, p ∉ l.map Prod.fst → m.heap p = none

/-- Heaps with the same blocks have the same values in them. -/
theorem value_of_core {p : ℕ} (hcore : core heap' p = core heap p) {e : Element α}
    (he : heap p = some e) : ∃ e', heap' p = some e' ∧ e'.value = e.value := by
  rw [core_of_some he, core, Option.map_eq_some_iff] at hcore
  obtain ⟨e', he', hsame⟩ := hcore
  exact ⟨e', he', (Prod.mk.inj hsame).2⟩

namespace Represents
variable {m : Memory α} {l : List (ℕ × α)}

omit [DecidableEq κ] in
/-- The empty memory. -/
theorem empty : Represents key hash {} [] :=
  ⟨⟨rfl, rfl⟩, by simp, fun _ _ => rfl⟩

omit [DecidableEq κ] in
theorem nodup (h : Represents key hash m l) : (l.map Prod.fst).Nodup := h.contains.nodup

omit [DecidableEq κ] in
/-- An address has one value. -/
theorem eq_of_mem (h : Represents key hash m l) {p : ℕ} {a b : α} (ha : (p, a) ∈ l)
    (hb : (p, b) ∈ l) : a = b := by
  obtain ⟨e, he, rfl⟩ := h.values _ ha
  obtain ⟨e', he', rfl⟩ := h.values _ hb
  rw [Option.some.inj (he.symm.trans he')]

omit [DecidableEq κ] in
/-- A memory without elements has no block. -/
theorem eq_empty (h : Represents key hash m []) : m = {} := by
  obtain ⟨heap, head, tbl⟩ := m
  have hheap : heap = fun _ => none := funext fun p => h.unused p List.not_mem_nil
  obtain ⟨hhead, htbl⟩ := h.contains.eq_none
  rw [hheap, show head = none from hhead, show tbl = none from htbl]

omit [DecidableEq κ] in
/-- The element behind an element. -/
theorem hhNextOf (before : List (ℕ × α)) {rest : List (ℕ × α)} {x : ℕ × α}
    (h : Represents key hash m (before ++ x :: rest)) :
    hhNextOf m.heap (some x.1) = some (rest.map Prod.fst).head? := by
  have hcontains := h.contains
  rw [List.map_append, List.map_cons] at hcontains
  exact hcontains.hhNextOf

omit [DecidableEq κ] in
/-- An addition. -/
theorem add (h : Represents key hash m l) {p : ℕ} (hp : p ∉ l.map Prod.fst) (a : α) :
    ∃ m', hashAdd key hash { m with heap := Function.update m.heap p (some { value := a }) } p
        = some m' ∧ Represents key hash m' (l ++ [(p, a)]) := by
  -- The new block is none of the elements, and they do not notice it.
  have hold (q : ℕ) (hq : q ∈ l.map Prod.fst) (block : Option (Element α)) :
      Function.update m.heap p block q = m.heap q :=
    Function.update_of_ne (ne_of_mem_of_not_mem hq hp) _ _
  have hcontains : Contains key hash
      { m with heap := Function.update m.heap p (some { value := a }) } (l.map Prod.fst) :=
    h.contains.congr fun q hq e he => ⟨e.value, (hold q hq _).trans he, rfl⟩
  obtain ⟨m', hadd, hcontains', hcore⟩ := hashAdd_spec hcontains (Function.update_self ..) hp
  rw [Function.update_idem] at hcore
  refine ⟨m', hadd, ?_, ?_, ?_⟩
  · rw [List.map_append, List.map_singleton]
    exact hcontains'
  · intro x hx
    rcases List.mem_append.mp hx with hx | hx
    · obtain ⟨e, he, hvalue⟩ := h.values x hx
      obtain ⟨e', he', hvalue'⟩ := value_of_core (congrFun hcore x.1)
        ((hold x.1 (List.mem_map_of_mem hx) _).trans he)
      exact ⟨e', he', hvalue'.trans hvalue⟩
    · rw [List.mem_singleton.mp hx]
      exact value_of_core (congrFun hcore p) (Function.update_self ..)
  · intro q hq
    rw [List.map_append, List.map_singleton, List.mem_append, List.mem_singleton, not_or] at hq
    rw [← core_eq_none_iff, hcore, core_eq_none_iff, Function.update_of_ne hq.2]
    exact h.unused q hq.1

omit [DecidableEq κ] in
/-- A change of one element. -/
theorem change (h : Represents key hash m l) {p : ℕ} {old a : α} (hp : (p, old) ∈ l)
    (hkey : key old = key a) : ∃ e, m.heap p = some e ∧
      Represents key hash { m with heap := Function.update m.heap p (some { e with value := a }) }
        (l.map fun x => if x.1 = p then (p, a) else x) := by
  obtain ⟨e, he, hvalue⟩ := h.values _ hp
  have hkeys : (l.map fun x => if x.1 = p then (p, a) else x).map Prod.fst = l.map Prod.fst := by
    rw [List.map_map]
    apply List.map_congr_left
    intro x _
    show (if x.1 = p then (p, a) else x).1 = x.1
    split
    · exact Eq.symm ‹x.1 = p›
    · rfl
  refine ⟨e, he, ?_, ?_, ?_⟩
  · rw [hkeys]
    refine h.contains.congr fun q hq e' he' => ?_
    by_cases hqp : q = p
    · subst hqp
      obtain rfl := Option.some.inj (he.symm.trans he')
      exact ⟨a, Function.update_self .., (congrArg key hvalue |>.trans hkey).symm⟩
    · exact ⟨e'.value, (Function.update_of_ne hqp ..).trans he', rfl⟩
  · intro x hx
    obtain ⟨y, hy, rfl⟩ := List.mem_map.mp hx
    by_cases hyp : y.1 = p
    · rw [if_pos hyp]
      exact ⟨_, Function.update_self .., rfl⟩
    · rw [if_neg hyp]
      obtain ⟨e', he', hvalue'⟩ := h.values y hy
      exact ⟨e', (Function.update_of_ne hyp ..).trans he', hvalue'⟩
  · intro q hq
    rw [hkeys] at hq
    have hqp : q ≠ p := fun heq => hq (heq ▸ List.mem_map_of_mem hp)
    exact (Function.update_of_ne hqp ..).trans (h.unused q hq)

omit [DecidableEq κ] in
/-- A change of the element behind some others. -/
theorem change_append {before after : List (ℕ × α)} {p : ℕ} {old a : α}
    (h : Represents key hash m (before ++ (p, old) :: after)) (hkey : key old = key a) :
    ∃ e, m.heap p = some e ∧ e.value = old ∧
      Represents key hash { m with heap := Function.update m.heap p (some { e with value := a }) }
        (before ++ (p, a) :: after) := by
  have hmem : (p, old) ∈ before ++ (p, old) :: after :=
    List.mem_append_right _ List.mem_cons_self
  obtain ⟨e, he, hm⟩ := h.change hmem hkey
  obtain ⟨e', he', hvalue⟩ := h.values _ hmem
  obtain rfl : e' = e := Option.some.inj (he'.symm.trans he)
  have hnodup := h.nodup
  rw [List.map_append, List.map_cons, List.nodup_append, List.nodup_cons] at hnodup
  have hother {l : List (ℕ × α)} (hl : p ∉ l.map Prod.fst) :
      (l.map fun x => if x.1 = p then (p, a) else x) = l := by
    conv_rhs => rw [← List.map_id l]
    apply List.map_congr_left
    intro x hx
    exact if_neg fun hxp : x.1 = p => hl (hxp ▸ List.mem_map_of_mem hx)
  rw [List.map_append, List.map_cons, if_pos rfl, hother hnodup.2.1.1,
    hother fun hp => hnodup.2.2 p hp p List.mem_cons_self rfl] at hm
  exact ⟨e', he, hvalue, hm⟩

omit [DecidableEq κ] in
/-- The values of the elements, read through their addresses. -/
theorem mapM_value (h : Represents key hash m l) :
    (l.map Prod.fst).mapM (fun p => (m.heap p).map Element.value) = some (l.map Prod.snd) := by
  have hvalues := h.values
  clear h
  induction l with
  | nil => rfl
  | cons x l ih =>
      obtain ⟨e, he, hvalue⟩ := hvalues x List.mem_cons_self
      have hrest := ih fun y hy => hvalues y (List.mem_cons_of_mem _ hy)
      rw [List.map_cons, List.mapM_cons, he, hrest, List.map_cons, ← hvalue]
      rfl

omit [DecidableEq κ] in
/-- A deletion. -/
theorem delete (h : Represents key hash m l) {p : ℕ} (hp : p ∈ l.map Prod.fst) :
    ∃ m' e, hashDelete m p = some m' ∧ m'.heap p = some e ∧
      Represents key hash { m' with heap := Function.update m'.heap p none }
        (l.filter fun x => x.1 ≠ p) := by
  obtain ⟨x, hx, rfl⟩ := List.mem_map.mp hp
  obtain ⟨e, he, -⟩ := h.values x hx
  obtain ⟨m', hdelete, hcontains, hcore⟩ := hashDelete_spec h.contains hp
  have hkeys : (l.filter fun y => y.1 ≠ x.1).map Prod.fst = (l.map Prod.fst).erase x.1 := by
    rw [h.nodup.erase_eq_filter, List.filter_map]
    congr 1
    apply List.filter_congr
    intro y _
    simp [bne, beq_eq_decide]
  obtain ⟨e', he', -⟩ := value_of_core (congrFun hcore x.1) he
  refine ⟨m', e', hdelete, he', ?_, ?_, ?_⟩
  · rw [hkeys]
    refine hcontains.congr fun q hq block hblock => ⟨block.value, ?_, rfl⟩
    -- The block is freed after it is out of the table.
    rw [h.nodup.mem_erase_iff] at hq
    exact (Function.update_of_ne hq.1 ..).trans hblock
  · intro y hy
    rw [List.mem_filter, decide_eq_true_iff] at hy
    obtain ⟨block, hblock, hvalue⟩ := h.values y hy.1
    obtain ⟨block', hblock', hvalue'⟩ := value_of_core (congrFun hcore y.1) hblock
    exact ⟨block', (Function.update_of_ne hy.2 ..).trans hblock', hvalue'.trans hvalue⟩
  · intro q hq
    rw [hkeys, h.nodup.mem_erase_iff, not_and_or, not_not] at hq
    show Function.update m'.heap x.1 none q = none
    by_cases hqx : q = x.1
    · rw [hqx, Function.update_self]
    · rw [Function.update_of_ne hqx, ← core_eq_none_iff, hcore, core_eq_none_iff]
      exact h.unused q (hq.resolve_left hqx)

/-- Every action on the abstract table is one on the memory. -/
theorem step (h : Represents key hash m l) {act : TableAct α} {l' : List (ℕ × α)}
    (hstep : tableStep key l act = some l') :
    ∃ m', memoryStep key hash m act = some m' ∧ Represents key hash m' l' := by
  cases act with
  | add p a =>
      rw [tableStep] at hstep
      by_cases hp : p ∈ l.map Prod.fst
      · rw [if_pos hp] at hstep
        cases hstep
      · rw [if_neg hp, Option.some.injEq] at hstep
        obtain ⟨m', hadd, hm'⟩ := h.add hp a
        refine ⟨m', ?_, hstep ▸ hm'⟩
        rw [memoryStep, h.unused p hp, Option.isSome_none, if_neg (by decide), hadd]
  | change p a =>
      rw [tableStep] at hstep
      by_cases hp : ∃ x ∈ l, x.1 = p ∧ key x.2 = key a
      · rw [if_pos hp, Option.some.injEq] at hstep
        obtain ⟨⟨_, old⟩, hx, rfl, hkey⟩ := hp
        obtain ⟨e, he, hm'⟩ := h.change hx hkey
        refine ⟨_, ?_, hstep ▸ hm'⟩
        rw [memoryStep, he]
        rfl
      · rw [if_neg hp] at hstep
        cases hstep
  | delete p =>
      rw [tableStep] at hstep
      by_cases hp : p ∈ l.map Prod.fst
      · rw [if_pos hp, Option.some.injEq] at hstep
        obtain ⟨m', e, hdelete, he, hm'⟩ := h.delete hp
        refine ⟨_, ?_, hstep ▸ hm'⟩
        rw [memoryStep, hdelete, Option.bind_some, he]
        rfl
      · rw [if_neg hp] at hstep
        cases hstep

end Represents

/-- What `HASH_ITER` visits, with a body that writes the elements down. -/
def hashIterated (m : Memory α) : Option (List ℕ) :=
  hashIter (fun _ => m) (fun visited p => some (visited ++ [p])) []

omit [DecidableEq κ] in
/-- `HASH_ITER` visits the elements in their order. -/
theorem hashIterated_spec {m : Memory α} {ps : List ℕ} (h : Contains key hash m ps) :
    hashIterated m = some ps := by
  obtain ⟨visited, hiter, hvisited⟩ := hashIter_spec (fun _ : List ℕ => m)
    (fun visited p => some (visited ++ [p])) (I := fun rest visited => ps = visited ++ rest)
    (fun _ _ _ hI => (hI ▸ h).hhNextOf)
    (fun _ _ _ hI => ⟨_, rfl, by rw [hI, List.append_assoc, List.singleton_append]⟩) h
    (List.nil_append ps).symm
  rw [hvisited, List.append_nil]
  exact hiter

/-- Over every sequence of additions, changes and deletions the macros stay within the allocated
blocks and the array of the buckets, the integrity check finds nothing, `HASH_ITER` and
`HASH_COUNT` see the elements in the order in which they were added, and `HASH_FIND` finds an
element exactly for the keys that are in the table. -/
theorem uthash_represents (key : α → κ) (hash : κ → UInt32) {acts : List (TableAct α)}
    {l : List (ℕ × α)} (hrun : Run.exec (tableStep key) [] acts = some l) :
    ∃ m, Run.exec (memoryStep key hash) {} acts = some m ∧ hashFsck m = true ∧
      hashIterated m = some (l.map Prod.fst) ∧ hashCount m = some l.length ∧
      (∀ p a, (p, a) ∈ l ↔ (m.heap p).map Element.value = some a) ∧
      ∀ k, ∃ found, hashFind key hash m k = some found ∧
        (∀ p, found = some p → ∃ a, (p, a) ∈ l ∧ key a = k) ∧
        (found = none → ∀ x ∈ l, key x.2 ≠ k) := by
  have hsim (m : Memory α) (l : List (ℕ × α)) (act : TableAct α) (l' : List (ℕ × α))
      (h : Represents key hash m l) (hstep : tableStep key l act = some l') :
      ∃ m', memoryStep key hash m act = some m' ∧ Represents key hash m' l' := h.step hstep
  obtain ⟨m, hexec, h⟩ := Run.exec_simulates hsim Represents.empty hrun
  have hvalue (p : ℕ) (a : α) : (p, a) ∈ l ↔ (m.heap p).map Element.value = some a := by
    constructor
    · intro hmem
      obtain ⟨e, he, rfl⟩ := h.values _ hmem
      exact congrArg (Option.map Element.value) he
    · intro hval
      by_cases hp : p ∈ l.map Prod.fst
      · obtain ⟨⟨_, b⟩, hx, rfl⟩ := List.mem_map.mp hp
        obtain ⟨e, he, rfl⟩ := h.values _ hx
        rw [he, Option.map_some, Option.some.injEq] at hval
        exact hval ▸ hx
      · rw [h.unused p hp] at hval
        cases hval
  refine ⟨m, hexec, hashFsck_spec h.contains, hashIterated_spec h.contains, ?_, hvalue, ?_⟩
  · rw [h.contains.hashCount, List.length_map]
  · intro k
    obtain ⟨found, hfind, hsound, hcomplete⟩ := hashFind_spec h.contains k
    refine ⟨found, hfind, ?_, ?_⟩
    · intro p hp
      obtain ⟨-, hkey⟩ := hsound p hp
      unfold keyAt at hkey
      obtain ⟨e, he, rfl⟩ := Option.map_eq_some_iff.mp hkey
      exact ⟨e.value, (hvalue p e.value).mpr (congrArg (Option.map Element.value) he), rfl⟩
    · rintro hnone ⟨p, a⟩ hx rfl
      refine hcomplete hnone p (List.mem_map_of_mem hx) ?_
      obtain ⟨e, he, rfl⟩ := h.values _ hx
      exact congrArg (Option.map fun e => key e.value) he

/-- Three processes come, the first one changes, and the second one, which is in the middle of the
order, goes. -/
theorem uthash_represents_three : ∃ m, Run.exec
      (memoryStep Prod.fst fun pid => hashJen (intKey pid)) ({} : Memory (Int32 × ℕ))
      [.add 64 (7, 1), .add 80 (9, 1), .add 96 (8, 1), .change 64 (7, 2), .delete 80] = some m ∧
    hashIterated m = some [64, 96] ∧ hashCount m = some 2 := by
  have hrun : Run.exec (tableStep Prod.fst) []
      [.add 64 ((7 : Int32), 1), .add 80 (9, 1), .add 96 (8, 1), .change 64 (7, 2), .delete 80]
        = some [(64, (7, 2)), (96, (8, 1))] := by decide
  obtain ⟨m, hexec, -, hiter, hcount, -⟩ :=
    uthash_represents Prod.fst (fun pid => hashJen (intKey pid)) hrun
  exact ⟨m, hexec, hiter, hcount⟩

end Table

end ProcessAnalyzer.Uthash
