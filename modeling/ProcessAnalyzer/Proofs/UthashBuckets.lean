import ProcessAnalyzer.Lib.Buckets
import ProcessAnalyzer.Lib.Links
import ProcessAnalyzer.Model.Uthash

/-!
# `ProcessAnalyzer.Proofs.UthashBuckets`: the links of the elements and the chains of the buckets

An element is seen as two things: its links, one function on addresses for each of the four
pointers of the handle (`link`), and the rest (`core`). The macros write to links only, and what
they leave alone is said by `Relinked` (nothing but the links within the buckets) and `Reordered`
(nothing but the links of the order).

`Bucketed` is the invariant of the buckets: every one has counted its chain, the chain is a doubly
linked list (`Lib.Links`), and it has exactly the elements whose hash value belongs to the bucket
(`Lib.Buckets`).

* `linkFront_spec`: the two writes that put an element in front of a chain.
* `Bucketed.hashExpandBuckets`: an expansion, which puts every element in front of a new chain
  while it follows the old ones.
* `Bucketed.hashAddToBkt` and `Bucketed.hashDelInBkt`: one element more, one element less.
-/

set_option autoImplicit false

namespace ProcessAnalyzer.Uthash

open ProcessAnalyzer.Lib

section Buckets
variable {α κ : Type} {key : α → κ} {hash : κ → UInt32} {heap heap' : Heap α}

/-! ### Links -/

/-- A pointer of the handles. -/
def link (field : Element α → Option ℕ) (heap : Heap α) (p : ℕ) : Option ℕ := (heap p).bind field

/-- What an element is beside its links. -/
def core (heap : Heap α) (p : ℕ) : Option (UInt32 × α) := (heap p).map fun e => (e.hashv, e.value)

theorem link_of_some {p : ℕ} {e : Element α} (he : heap p = some e) (field : Element α → Option ℕ) :
    link field heap p = field e := by
  rw [link, he, Option.bind_some]

theorem core_of_some {p : ℕ} {e : Element α} (he : heap p = some e) :
    core heap p = some (e.hashv, e.value) := by
  rw [core, he, Option.map_some]

/-- The elements are the blocks that are allocated. -/
theorem core_eq_none_iff {p : ℕ} : core heap p = none ↔ heap p = none := Option.map_eq_none_iff

theorem link_update (field : Element α → Option ℕ) (heap : Heap α) (p : ℕ) (e : Element α) :
    link field (Function.update heap p (some e)) = Function.update (link field heap) p (field e) := by
  funext q
  by_cases hq : q = p
  · subst hq
    rw [Function.update_self, link, Function.update_self, Option.bind_some]
  · rw [Function.update_of_ne hq, link, Function.update_of_ne hq]
    rfl

theorem core_update {p : ℕ} {e e' : Element α} (he : heap p = some e)
    (hsame : e'.hashv = e.hashv ∧ e'.value = e.value) :
    core (Function.update heap p (some e')) = core heap := by
  funext q
  by_cases hq : q = p
  · subst hq
    rw [core, Function.update_self, core_of_some he, Option.map_some, hsame.1, hsame.2]
  · rw [core, Function.update_of_ne hq]
    rfl

/-- A write to one field of the handle: this pointer changes, and nothing else does. -/
structure Wrote (f : Element α → Element α) (q : Option ℕ) (heap heap' : Heap α) : Prop where
  core : core heap' = core heap
  link : ∀ (field : Element α → Option ℕ) (v : Option ℕ), (∀ e, field (f e) = v) →
    link field heap' = writeLink (link field heap) q v
  other : ∀ field : Element α → Option ℕ, (∀ e, field (f e) = field e) →
    Uthash.link field heap' = Uthash.link field heap

/-- The writes of a function on elements that keeps the hash value and the value. -/
theorem writeAt_spec (heap : Heap α) (f : Element α → Element α)
    (hcore : ∀ e, (f e).hashv = e.hashv ∧ (f e).value = e.value) {p : ℕ} (hp : core heap p ≠ none) :
    ∃ heap', writeAt heap p f = some heap' ∧ Wrote f (some p) heap heap' := by
  obtain ⟨e, he⟩ := Option.ne_none_iff_exists'.mp fun hnone => hp (core_eq_none_iff.mpr hnone)
  refine ⟨Function.update heap p (some (f e)), ?_, ?_, fun field v hv => ?_, fun field hf => ?_⟩
  · rw [writeAt, he, Option.map_some]
  · exact core_update he (hcore e)
  · rw [link_update, hv, writeLink_some]
  · rw [link_update, hf, ← link_of_some he field, Function.update_eq_self]

theorem writeThrough_spec (heap : Heap α) (f : Element α → Element α)
    (hcore : ∀ e, (f e).hashv = e.hashv ∧ (f e).value = e.value) {q : Option ℕ}
    (hq : ∀ p, q = some p → core heap p ≠ none) :
    ∃ heap', writeThrough heap q f = some heap' ∧ Wrote f q heap heap' := by
  cases q with
  | none => exact ⟨heap, rfl, rfl, fun _ _ _ => rfl, fun _ _ => rfl⟩
  | some p => exact writeAt_spec heap f hcore (hq p rfl)

/-- The two writes that take an element out of one of the lists. -/
theorem unlink_spec (next prev : Element α → Option ℕ) (setNext setPrev : Element α → Element α)
    {l : List ℕ} (hl : Linked (link next heap) (link prev heap) none l none) (hnodup : l.Nodup)
    (halloc : ∀ q ∈ l, core heap q ≠ none) {p : ℕ} (hp : p ∈ l) {del : Element α}
    (hdel : heap p = some del)
    (hcore : ∀ e, (setNext e).hashv = e.hashv ∧ (setNext e).value = e.value)
    (hcore' : ∀ e, (setPrev e).hashv = e.hashv ∧ (setPrev e).value = e.value)
    (hset : ∀ e, next (setNext e) = next del ∧ prev (setNext e) = prev e)
    (hset' : ∀ e, next (setPrev e) = next e ∧ prev (setPrev e) = prev del) :
    ∃ heap₁ heap₂, writeThrough heap (prev del) setNext = some heap₁ ∧
      writeThrough heap₁ (next del) setPrev = some heap₂ ∧ core heap₂ = core heap ∧
      (∀ field : Element α → Option ℕ, (∀ e, field (setNext e) = field e) →
        (∀ e, field (setPrev e) = field e) → link field heap₂ = link field heap) ∧
      (∀ q ∉ l, link next heap₂ q = link next heap q ∧ link prev heap₂ q = link prev heap q) ∧
      Linked (link next heap₂) (link prev heap₂) none (l.erase p) none := by
  -- The elements around it are in the list.
  obtain ⟨before, after, hsplit, -, hprev, hnext, -, -⟩ := hl.split hnodup hp
  rw [link_of_some hdel] at hprev hnext
  have hprevMem (q : ℕ) (hq : prev del = some q) : q ∈ l := by
    rw [hsplit]
    exact List.mem_append_left _ (List.mem_of_getLast? (hprev.symm.trans hq))
  have hnextMem (q : ℕ) (hq : next del = some q) : q ∈ l := by
    rw [hsplit]
    exact List.mem_append_right _ (List.mem_cons_of_mem _ (List.mem_of_head? (hnext.symm.trans hq)))
  obtain ⟨heap₁, hrun₁, hwrote₁⟩ := writeThrough_spec heap setNext hcore
    fun q hq => halloc q (hprevMem q hq)
  obtain ⟨heap₂, hrun₂, hwrote₂⟩ := writeThrough_spec heap₁ setPrev hcore' fun q hq => by
    rw [hwrote₁.core]
    exact halloc q (hnextMem q hq)
  -- The two writes are to different fields, so their order does not matter.
  have hnextLink : link next heap₂ = writeLink (link next heap) (prev del) (next del) := by
    rw [hwrote₂.other _ fun e => (hset' e).1, hwrote₁.link _ _ fun e => (hset e).1]
  have hprevLink : link prev heap₂ = writeLink (link prev heap) (next del) (prev del) := by
    rw [hwrote₂.link _ _ fun e => (hset' e).2, hwrote₁.other _ fun e => (hset e).2]
  refine ⟨heap₁, heap₂, hrun₁, hrun₂, hwrote₂.core.trans hwrote₁.core, ?_, ?_, ?_⟩
  · exact fun field hf hf' => (hwrote₂.other _ hf').trans (hwrote₁.other _ hf)
  · intro q hq
    rw [hnextLink, hprevLink, writeLink_of_ne fun h => hq (hprevMem q h),
      writeLink_of_ne fun h => hq (hnextMem q h)]
    exact ⟨rfl, rfl⟩
  · have herased := hl.erase hnodup hp
    rw [link_of_some hdel, link_of_some hdel] at herased
    rw [hnextLink, hprevLink]
    exact herased

/-- Nothing has changed but the links within the buckets, of some elements. -/
structure Relinked (ps : List ℕ) (heap heap' : Heap α) : Prop where
  core : core heap' = core heap
  prev : link Element.prev heap' = link Element.prev heap
  next : link Element.next heap' = link Element.next heap
  hhPrev : ∀ q ∉ ps, link Element.hhPrev heap' q = link Element.hhPrev heap q
  hhNext : ∀ q ∉ ps, link Element.hhNext heap' q = link Element.hhNext heap q

theorem Relinked.refl (ps : List ℕ) (heap : Heap α) : Relinked ps heap heap :=
  ⟨rfl, rfl, rfl, fun _ _ => rfl, fun _ _ => rfl⟩

theorem Relinked.trans {ps qs : List ℕ} {heap'' : Heap α} (h : Relinked ps heap heap')
    (h' : Relinked qs heap' heap'') (hsub : ps ⊆ qs) : Relinked qs heap heap'' where
  core := h'.core.trans h.core
  prev := h'.prev.trans h.prev
  next := h'.next.trans h.next
  hhPrev q hq := (h'.hhPrev q hq).trans (h.hhPrev q fun hmem => hq (hsub hmem))
  hhNext q hq := (h'.hhNext q hq).trans (h.hhNext q fun hmem => hq (hsub hmem))

theorem Relinked.mono {ps qs : List ℕ} (h : Relinked ps heap heap') (hsub : ps ⊆ qs) :
    Relinked qs heap heap' :=
  h.trans (Relinked.refl qs heap') hsub

/-- The links within a bucket that has none of these elements are as before. -/
theorem Relinked.linked {ps : List ℕ} (h : Relinked ps heap heap') {front back : Option ℕ}
    {l : List ℕ} (hl : Linked (link Element.hhNext heap) (link Element.hhPrev heap) front l back)
    (hdisjoint : ∀ p ∈ l, p ∉ ps) :
    Linked (link Element.hhNext heap') (link Element.hhPrev heap') front l back :=
  hl.congr (fun p hp => h.hhNext p (hdisjoint p hp)) fun p hp => h.hhPrev p (hdisjoint p hp)

/-! ### The chains -/

/-- A bucket has counted its chain, which is linked in both directions. -/
structure Chained (heap : Heap α) (b : UtHashBucket) (chain : List ℕ) : Prop where
  head : b.hhHead = chain.head?
  count : b.count = chain.length
  linked : Linked (link Element.hhNext heap) (link Element.hhPrev heap) none chain none

/-- The chains of the buckets. -/
structure Chains (heap : Heap α) (bs : List UtHashBucket) (chains : List (List ℕ)) : Prop where
  length : chains.length = bs.length
  chained : ∀ (j : ℕ) (b : UtHashBucket) (chain : List ℕ), bs[j]? = some b →
    chains[j]? = some chain → Chained heap b chain

theorem chains_cons_iff {b : UtHashBucket} {bs : List UtHashBucket} {chain : List ℕ}
    {chains : List (List ℕ)} :
    Chains heap (b :: bs) (chain :: chains) ↔ Chained heap b chain ∧ Chains heap bs chains := by
  constructor
  · intro h
    exact ⟨h.chained 0 b chain rfl rfl, Nat.succ.inj h.length,
      fun j b' chain' hb hchain => h.chained (j + 1) b' chain' hb hchain⟩
  · rintro ⟨hfirst, hrest⟩
    refine ⟨congrArg (· + 1) hrest.length, fun j b' chain' hb hchain => ?_⟩
    cases j with
    | zero =>
        obtain rfl : b = b' := Option.some.inj hb
        obtain rfl : chain = chain' := Option.some.inj hchain
        exact hfirst
    | succ j => exact hrest.chained j b' chain' hb hchain

/-- The counts of the buckets are the lengths of the chains. -/
theorem Chains.map_count {bs : List UtHashBucket} {chains : List (List ℕ)}
    (h : Chains heap bs chains) : bs.map UtHashBucket.count = chains.map List.length := by
  induction bs generalizing chains with
  | nil => rw [List.eq_nil_of_length_eq_zero h.length]; rfl
  | cons b bs ih =>
      cases chains with
      | nil => exact absurd h.length (by simp)
      | cons chain chains =>
          obtain ⟨hfirst, hrest⟩ := chains_cons_iff.mp h
          rw [List.map_cons, List.map_cons, hfirst.count, ih hrest]

/-- A bucket that is there has its chain. -/
theorem Chains.exists_chain {bs : List UtHashBucket} {chains : List (List ℕ)}
    (h : Chains heap bs chains) {j : ℕ} {b : UtHashBucket} (hb : bs[j]? = some b) :
    ∃ chain, chains[j]? = some chain ∧ Chained heap b chain := by
  have hlt : j < chains.length := by
    rw [h.length]
    exact (List.getElem?_eq_some_iff.mp hb).1
  exact ⟨_, List.getElem?_eq_getElem hlt, h.chained j b _ hb (List.getElem?_eq_getElem hlt)⟩

/-- Writes to elements of other chains. -/
theorem Chains.relinked {ps : List ℕ} {bs : List UtHashBucket} {chains : List (List ℕ)}
    (h : Chains heap bs chains) (hrelinked : Relinked ps heap heap')
    (hdisjoint : ∀ p ∈ chains.flatten, p ∉ ps) : Chains heap' bs chains where
  length := h.length
  chained j b chain hb hchain := by
    have hold := h.chained j b chain hb hchain
    refine ⟨hold.head, hold.count, hrelinked.linked hold.linked fun p hp => hdisjoint p ?_⟩
    exact List.mem_flatten_of_mem (List.mem_of_getElem? hchain) hp

/-- The index of the bucket of an element. -/
def bucketOf (heap : Heap α) (numBkts p : ℕ) : ℕ :=
  match core heap p with
  | some c => hashToBkt c.1 numBkts
  | none => 0

/-- A bucket number is an index of the array. -/
theorem hashToBkt_lt (hashv : UInt32) {numBkts : ℕ} (h : 0 < numBkts) :
    hashToBkt hashv numBkts < numBkts := by
  have hle : hashv.toNat &&& (numBkts - 1) ≤ numBkts - 1 := Nat.and_le_right
  unfold hashToBkt
  omega

theorem bucketOf_lt (heap : Heap α) {numBkts : ℕ} (h : 0 < numBkts) (p : ℕ) :
    bucketOf heap numBkts p < numBkts := by
  unfold bucketOf
  split
  · exact hashToBkt_lt _ h
  · exact h

theorem bucketOf_of_some {p : ℕ} {e : Element α} (he : heap p = some e) (numBkts : ℕ) :
    bucketOf heap numBkts p = hashToBkt e.hashv numBkts := by
  rw [bucketOf, core_of_some he]

theorem Relinked.bucketOf {ps : List ℕ} (h : Relinked ps heap heap') (numBkts : ℕ) :
    bucketOf heap' numBkts = bucketOf heap numBkts := by
  funext p
  rw [Uthash.bucketOf, h.core]
  rfl

/-- One bucket with its chain changes, by writes to elements of this bucket. -/
theorem Chains.set {bs : List UtHashBucket} {chains : List (List ℕ)} (h : Chains heap bs chains)
    {ps : List ℕ} (hrelinked : Relinked ps heap heap') {j : ℕ}
    (hdisjoint : ∀ i chain, chains[i]? = some chain → i ≠ j → ∀ p ∈ chain, p ∉ ps)
    {b' : UtHashBucket} {chain' : List ℕ} (hnew : Chained heap' b' chain') :
    Chains heap' (bs.set j b') (chains.set j chain') where
  length := by rw [List.length_set, List.length_set, h.length]
  chained i b chain hb hchain := by
    rw [List.getElem?_set] at hb hchain
    by_cases hi : j = i
    · rw [if_pos hi] at hb hchain
      split at hb
      · rw [h.length, if_pos ‹_›] at hchain
        rw [← Option.some.inj hb, ← Option.some.inj hchain]
        exact hnew
      · cases hb
    · -- The other chains have no element that was written to.
      rw [if_neg hi] at hb hchain
      have hold := h.chained i b chain hb hchain
      exact ⟨hold.head, hold.count,
        hrelinked.linked hold.linked (hdisjoint i chain hchain (Ne.symm hi))⟩

/-! ### An element in front of a chain -/

/-- The two writes that put an element in front of a chain. -/
theorem linkFront_spec {chain : List ℕ} {p : ℕ}
    (h : Linked (link Element.hhNext heap) (link Element.hhPrev heap) none chain none)
    (hnodup : chain.Nodup) (hp : p ∉ chain) (halloc : ∀ q ∈ p :: chain, core heap q ≠ none) :
    ∃ heap', linkFront heap chain.head? p = some heap' ∧ Relinked (p :: chain) heap heap' ∧
      Linked (link Element.hhNext heap') (link Element.hhPrev heap') none (p :: chain) none := by
  obtain ⟨heap₁, hrun₁, hwrote₁⟩ := writeAt_spec heap
    (fun e => { e with hhNext := chain.head?, hhPrev := none }) (fun _ => ⟨rfl, rfl⟩)
    (halloc p List.mem_cons_self)
  obtain ⟨heap₂, hrun₂, hwrote₂⟩ := writeThrough_spec heap₁
    (fun e => { e with hhPrev := some p }) (fun _ => ⟨rfl, rfl⟩) (q := chain.head?) (by
      intro q hq
      rw [hwrote₁.core]
      exact halloc q (List.mem_cons_of_mem _ (List.mem_of_head? hq)))
  have hnext : link Element.hhNext heap₂
      = Function.update (link Element.hhNext heap) p chain.head? := by
    rw [hwrote₂.other _ fun _ => rfl, hwrote₁.link _ chain.head? fun _ => rfl, writeLink_some]
  have hprev : link Element.hhPrev heap₂
      = writeLink (Function.update (link Element.hhPrev heap) p none) chain.head? (some p) := by
    rw [hwrote₂.link _ (some p) fun _ => rfl, hwrote₁.link _ none fun _ => rfl, writeLink_some]
  refine ⟨heap₂, ?_, ?_, ?_⟩
  · simp only [linkFront, hrun₁, Option.bind_eq_bind, Option.bind_some, hrun₂]
  · refine ⟨hwrote₂.core.trans hwrote₁.core, ?_, ?_, fun q hq => ?_, fun q hq => ?_⟩
    · exact (hwrote₂.other _ fun _ => rfl).trans (hwrote₁.other _ fun _ => rfl)
    · exact (hwrote₂.other _ fun _ => rfl).trans (hwrote₁.other _ fun _ => rfl)
    · obtain ⟨hne, hnotMem⟩ := List.ne_and_not_mem_of_not_mem_cons hq
      rw [hprev, writeLink_of_ne fun hhead => hnotMem (List.mem_of_head? hhead),
        Function.update_of_ne hne]
    · rw [hnext, Function.update_of_ne (List.ne_of_not_mem_cons hq)]
  · rw [hnext, hprev]
    exact h.push hnodup hp

/-- The elements that are in chains. -/
structure Filled (heap : Heap α) (numBkts : ℕ) (bs : List UtHashBucket) (chains : List (List ℕ))
    (ps : List ℕ) : Prop where
  length : bs.length = numBkts
  linked : Chains heap bs chains
  holds : Buckets.Holds (bucketOf heap numBkts) chains ps
  nodup : ps.Nodup

namespace Filled
variable {numBkts : ℕ} {bs : List UtHashBucket} {chains : List (List ℕ)} {ps : List ℕ}

/-- Empty buckets. -/
theorem empty (heap : Heap α) (numBkts : ℕ) :
    Filled heap numBkts (List.replicate numBkts {}) (List.replicate numBkts []) [] where
  length := List.length_replicate
  linked :=
    { length := by rw [List.length_replicate, List.length_replicate]
      chained := by
        intro j b chain hb hchain
        rw [List.eq_of_mem_replicate (List.mem_of_getElem? hb),
          List.eq_of_mem_replicate (List.mem_of_getElem? hchain)]
        exact ⟨rfl, rfl, trivial⟩ }
  holds := Buckets.holds_replicate _
  nodup := List.nodup_nil

theorem of_perm (h : Filled heap numBkts bs chains ps) {qs : List ℕ} (hperm : ps.Perm qs) :
    Filled heap numBkts bs chains qs :=
  ⟨h.length, h.linked, h.holds.of_perm hperm, hperm.nodup_iff.mp h.nodup⟩

/-- A chain has the elements of its bucket, each of them once. -/
theorem chain_spec (h : Filled heap numBkts bs chains ps) {j : ℕ} {chain : List ℕ}
    (hchain : chains[j]? = some chain) :
    chain.Nodup ∧ chain.length ≤ ps.length ∧
      ∀ p, p ∈ chain ↔ p ∈ ps ∧ bucketOf heap numBkts p = j := by
  have hperm := h.holds j chain hchain
  refine ⟨hperm.nodup_iff.mpr (h.nodup.filter _), ?_, h.holds.mem_iff hchain⟩
  rw [hperm.length_eq]
  exact List.length_filter_le _ _

/-- The chains together have the elements. -/
theorem perm_flatten (h : Filled heap numBkts bs chains ps) (hpos : 0 < numBkts) :
    chains.flatten.Perm ps := by
  apply h.holds.perm_flatten
  intro p _
  rw [h.linked.length, h.length]
  exact bucketOf_lt heap hpos p

/-- The bucket of an element, with its chain. -/
theorem exists_bucket (h : Filled heap numBkts bs chains ps) (hpos : 0 < numBkts) (p : ℕ) :
    ∃ b chain, bs[bucketOf heap numBkts p]? = some b ∧
      chains[bucketOf heap numBkts p]? = some chain ∧ Chained heap b chain := by
  have hlt : bucketOf heap numBkts p < bs.length := h.length.symm ▸ bucketOf_lt heap hpos p
  have hb := List.getElem?_eq_getElem hlt
  obtain ⟨chain, hchain, hchained⟩ := h.linked.exists_chain hb
  exact ⟨_, chain, hb, hchain, hchained⟩

/-- The hash values and the links within the buckets are what matters. -/
theorem congr (h : Filled heap numBkts bs chains ps)
    (hlinks : ∀ p ∈ ps, link Element.hhNext heap' p = link Element.hhNext heap p ∧
      link Element.hhPrev heap' p = link Element.hhPrev heap p)
    (hbucket : ∀ p ∈ ps, bucketOf heap' numBkts p = bucketOf heap numBkts p) :
    Filled heap' numBkts bs chains ps where
  length := h.length
  linked :=
    { length := h.linked.length
      chained := fun j b chain hb hchain => by
        have hold := h.linked.chained j b chain hb hchain
        have hmem (p : ℕ) (hp : p ∈ chain) := hlinks p (((h.chain_spec hchain).2.2 p).mp hp).1
        exact ⟨hold.head, hold.count,
          hold.linked.congr (fun p hp => (hmem p hp).1) fun p hp => (hmem p hp).2⟩ }
  holds := by
    intro j chain hchain
    rw [List.filter_congr fun p hp => by rw [hbucket p hp]]
    exact h.holds j chain hchain
  nodup := h.nodup

/-- One element more, in front of the chain of its bucket. -/
theorem push (h : Filled heap numBkts bs chains ps) {p : ℕ} (hp : p ∉ ps)
    (halloc : ∀ q ∈ p :: ps, core heap q ≠ none) {b : UtHashBucket}
    (hb : bs[bucketOf heap numBkts p]? = some b) (b' : UtHashBucket) (hhead : b'.hhHead = some p)
    (hcount : b'.count = b.count + 1) :
    ∃ heap', linkFront heap b.hhHead p = some heap' ∧ Relinked (p :: ps) heap heap' ∧
      Filled heap' numBkts (bs.set (bucketOf heap numBkts p) b')
        (Buckets.push (bucketOf heap numBkts) chains p) (p :: ps) := by
  obtain ⟨chain, hchain, hchained⟩ := h.linked.exists_chain hb
  obtain ⟨hnodup, -, hmem⟩ := h.chain_spec hchain
  have hsub : chain ⊆ ps := fun q hq => ((hmem q).mp hq).1
  obtain ⟨heap', hrun, hrelinked, hlinked⟩ := linkFront_spec hchained.linked hnodup
    (fun hpc => hp (hsub hpc)) fun q hq => halloc q ((List.cons_subset_cons p hsub) hq)
  refine ⟨heap', hchained.head ▸ hrun, hrelinked.mono (List.cons_subset_cons p hsub), ?_⟩
  refine ⟨?_, ?_, ?_, ?_⟩
  · rw [List.length_set]
    exact h.length
  · have hmodify : Buckets.push (bucketOf heap numBkts) chains p
        = chains.set (bucketOf heap numBkts p) (p :: chain) := by
      rw [Buckets.push, List.modify_eq_set_getElem?, hchain]
      rfl
    rw [hmodify]
    refine h.linked.set hrelinked ?_
      ⟨hhead, hcount.trans (congrArg (· + 1) hchained.count), hlinked⟩
    -- The elements of another chain belong to another bucket.
    intro i other hother hi q hq hqp
    obtain ⟨hqps, hqi⟩ := (h.chain_spec hother).2.2 q |>.mp hq
    rcases List.mem_cons.mp hqp with rfl | hqc
    · exact hp hqps
    · exact hi (hqi.symm.trans ((hmem q).mp hqc).2)
  · rw [hrelinked.bucketOf]
    exact h.holds.push p
  · exact List.nodup_cons.mpr ⟨hp, h.nodup⟩

/-- One element less, in the chain of its bucket. -/
theorem erase (h : Filled heap numBkts bs chains ps) {p : ℕ} (hp : p ∈ ps) {chain : List ℕ}
    (hrelinked : Relinked chain heap heap')
    (hchain : chains[bucketOf heap numBkts p]? = some chain) {b' : UtHashBucket}
    (hnew : Chained heap' b' (chain.erase p)) :
    Filled heap' numBkts (bs.set (bucketOf heap numBkts p) b')
      (chains.set (bucketOf heap numBkts p) (chain.erase p)) (ps.erase p) where
  length := by
    rw [List.length_set]
    exact h.length
  linked := by
    refine h.linked.set hrelinked ?_ hnew
    intro i other hother hi q hq hqc
    obtain ⟨-, hqi⟩ := ((h.chain_spec hother).2.2 q).mp hq
    exact hi (hqi.symm.trans (((h.chain_spec hchain).2.2 q).mp hqc).2)
  holds := by
    have hmodify : chains.set (bucketOf heap numBkts p) (chain.erase p)
        = chains.modify (bucketOf heap numBkts p) fun chain => chain.erase p := by
      rw [List.modify_eq_set_getElem?, hchain]
      rfl
    rw [hmodify, hrelinked.bucketOf]
    exact h.holds.erase hp
  nodup := h.nodup.erase p

end Filled

/-! ### `HASH_EXPAND_BUCKETS` -/

section Expand
variable {numBkts : ℕ} {s : Expansion α} {chains : List (List ℕ)} {done : List ℕ}

/-- One element goes to the front of its new chain. -/
theorem expandElement_spec (ideal : ℕ) (h : Filled s.heap numBkts s.newBuckets chains done)
    (hpos : 0 < numBkts) {p : ℕ} (hp : p ∉ done) (halloc : ∀ q ∈ p :: done, core s.heap q ≠ none) :
    ∃ s' chains', expandElement numBkts ideal s p = some s' ∧
      Relinked (p :: done) s.heap s'.heap ∧
      Filled s'.heap numBkts s'.newBuckets chains' (p :: done) := by
  obtain ⟨e, he⟩ := Option.ne_none_iff_exists'.mp fun hnone =>
    halloc p List.mem_cons_self (core_eq_none_iff.mpr hnone)
  obtain ⟨b, chain, hb, -, -⟩ := h.exists_bucket hpos p
  rw [bucketOf_of_some he] at hb
  obtain ⟨heap', hrun, hrelinked, hfilled⟩ := h.push hp halloc
    ((bucketOf_of_some he numBkts).symm ▸ hb) ⟨some p, b.count + 1,
      if ideal < b.count + 1 ∧ b.expandMult * ideal < b.count + 1 then b.expandMult + 1
      else b.expandMult⟩ rfl rfl
  rw [bucketOf_of_some he] at hfilled
  unfold expandElement
  simp only [he, hb, hrun, Option.bind_eq_bind, Option.bind_some]
  exact ⟨_, _, rfl, hrelinked, hfilled⟩

/-- The loop over the old chain of a bucket. The chain comes apart from its front, and its links
are read before they are written. -/
theorem expandChain_spec (ideal : ℕ) {l : List ℕ} {front : Option ℕ}
    (hl : Linked (link Element.hhNext s.heap) (link Element.hhPrev s.heap) front l none)
    (h : Filled s.heap numBkts s.newBuckets chains done) (hpos : 0 < numBkts)
    (hnodup : (l ++ done).Nodup) (halloc : ∀ q ∈ l ++ done, core s.heap q ≠ none) {n : ℕ}
    (hn : l.length ≤ n) :
    ∃ s' chains', expandChain numBkts ideal n s l.head? = some s' ∧
      Relinked (l ++ done) s.heap s'.heap ∧
      Filled s'.heap numBkts s'.newBuckets chains' (l ++ done) := by
  induction l generalizing n s chains done front with
  | nil =>
      refine ⟨s, chains, ?_, Relinked.refl _ _, h⟩
      rw [List.head?_nil, expandChain]
  | cons p l ih =>
      obtain ⟨n, rfl⟩ : ∃ k, n = k + 1 := Nat.exists_eq_succ_of_ne_zero (by
        rw [List.length_cons] at hn
        omega)
      obtain ⟨-, hnext, hrest⟩ := hl
      rw [List.cons_append, List.nodup_cons, List.mem_append, not_or] at hnodup
      obtain ⟨⟨hpl, hpdone⟩, hnodup⟩ := hnodup
      obtain ⟨e, he⟩ := Option.ne_none_iff_exists'.mp fun hnone =>
        halloc p List.mem_cons_self (core_eq_none_iff.mpr hnone)
      rw [link_of_some he, Option.or_none] at hnext
      obtain ⟨s₁, chains₁, hrun₁, hrelinked₁, hfilled₁⟩ := expandElement_spec ideal h
        hpos hpdone fun q hq => halloc q (by
          rcases List.mem_cons.mp hq with rfl | hq
          · exact List.mem_cons_self
          · exact List.mem_cons_of_mem _ (List.mem_append_right _ hq))
      have hperm : (l ++ p :: done).Perm (p :: (l ++ done)) := List.perm_middle
      -- Only elements that have left the old chain were written to, so its rest is linked still.
      have hlinked := hrelinked₁.linked hrest (by
        intro q hq hmem
        rcases List.mem_cons.mp hmem with rfl | hmem
        · exact hpl hq
        · exact (List.nodup_append.mp hnodup).2.2 q hq q hmem rfl)
      obtain ⟨s', chains', hrun, hrelinked, hfilled⟩ := ih hlinked hfilled₁
        (hperm.nodup_iff.mpr (List.nodup_cons.mpr
          ⟨fun hmem => (List.mem_append.mp hmem).elim hpl hpdone, hnodup⟩))
        (fun q hq => by
          rw [hrelinked₁.core]
          exact halloc q (hperm.mem_iff.mp hq))
        (Nat.le_of_succ_le_succ hn)
      refine ⟨s', chains', ?_, ?_, hfilled.of_perm hperm⟩
      · rw [List.head?_cons, expandChain]
        simp only [he, hrun₁, Option.bind_eq_bind, Option.bind_some, hnext, hrun]
      · exact (hrelinked₁.trans hrelinked (List.subset_append_right _ _)).mono hperm.subset

/-- The loop over the old buckets. -/
theorem expandChains_spec (ideal : ℕ) {bs : List UtHashBucket} {old : List (List ℕ)}
    (hold : Chains s.heap bs old) (h : Filled s.heap numBkts s.newBuckets chains done)
    (hpos : 0 < numBkts) (hnodup : (old.flatten ++ done).Nodup)
    (halloc : ∀ q ∈ old.flatten ++ done, core s.heap q ≠ none) {n : ℕ}
    (hn : ∀ chain ∈ old, chain.length ≤ n) :
    ∃ s' chains',
      bs.foldlM (fun s b => expandChain numBkts ideal n s b.hhHead) s = some s' ∧
      Relinked (old.flatten ++ done) s.heap s'.heap ∧
      Filled s'.heap numBkts s'.newBuckets chains' (old.flatten ++ done) := by
  induction bs generalizing s chains done old with
  | nil =>
      obtain rfl : old = [] := List.eq_nil_of_length_eq_zero hold.length
      exact ⟨s, chains, rfl, Relinked.refl _ _, h⟩
  | cons b bs ih =>
      cases old with
      | nil => exact absurd hold.length (by simp)
      | cons chain old =>
          obtain ⟨hchained, hrest⟩ := chains_cons_iff.mp hold
          -- The elements of this chain are done, and those of the other old chains are to come.
          have hperm : (old.flatten ++ (chain ++ done)).Perm (chain ++ old.flatten ++ done) := by
            rw [← List.append_assoc]
            exact List.perm_append_comm.append_right done
          rw [List.flatten_cons] at hnodup halloc ⊢
          have hdisjoint := (List.nodup_append.mp (hperm.nodup_iff.mpr hnodup)).2
          obtain ⟨s₁, chains₁, hrun₁, hrelinked₁, hfilled₁⟩ := expandChain_spec ideal
            hchained.linked h hpos hdisjoint.1
            (fun q hq => halloc q (hperm.mem_iff.mp (List.mem_append_right _ hq)))
            (hn chain List.mem_cons_self)
          obtain ⟨s', chains', hrun, hrelinked, hfilled⟩ := ih
            (hrest.relinked hrelinked₁ fun q hq hmem => hdisjoint.2 q hq q hmem rfl) hfilled₁
            (hperm.nodup_iff.mpr hnodup)
            (fun q hq => by
              rw [hrelinked₁.core]
              exact halloc q (hperm.mem_iff.mp hq))
            fun c hc => hn c (List.mem_cons_of_mem _ hc)
          refine ⟨s', chains', ?_, ?_, hfilled.of_perm hperm⟩
          · rw [List.foldlM_cons, hchained.head, hrun₁]
            exact hrun
          · exact (hrelinked₁.trans hrelinked (List.subset_append_right _ _)).mono hperm.subset

end Expand

/-! ### The buckets of a table -/

/-- The buckets of a table have these elements, which are allocated. -/
structure Bucketed (heap : Heap α) (t : UtHashTable) (ps : List ℕ) : Prop where
  numBuckets : t.numBuckets = 2 ^ t.log2NumBuckets
  filled : ∃ chains, Filled heap t.numBuckets t.buckets chains ps
  alloc : ∀ p ∈ ps, core heap p ≠ none

namespace Bucketed
variable {t : UtHashTable} {ps : List ℕ}

/-- There is a bucket at least. -/
theorem pos (h : Bucketed heap t ps) : 0 < t.numBuckets := by
  rw [h.numBuckets]
  exact Nat.two_pow_pos _

/-- The bucket of a hash value, with its chain, and what is in it. -/
theorem exists_chain (h : Bucketed heap t ps) (hashv : UInt32) :
    ∃ b chain, t.buckets[hashToBkt hashv t.numBuckets]? = some b ∧ Chained heap b chain ∧
      chain.length ≤ ps.length ∧
      ∀ p, p ∈ chain ↔ p ∈ ps ∧ bucketOf heap t.numBuckets p = hashToBkt hashv t.numBuckets := by
  obtain ⟨chains, hfilled⟩ := h.filled
  have hlt : hashToBkt hashv t.numBuckets < t.buckets.length :=
    hfilled.length.symm ▸ hashToBkt_lt hashv h.pos
  have hb := List.getElem?_eq_getElem hlt
  obtain ⟨chain, hchain, hchained⟩ := hfilled.linked.exists_chain hb
  obtain ⟨-, hlength, hmem⟩ := hfilled.chain_spec hchain
  exact ⟨_, chain, hb, hchained, hlength, hmem⟩

theorem of_perm (h : Bucketed heap t ps) {qs : List ℕ} (hperm : ps.Perm qs) :
    Bucketed heap t qs where
  numBuckets := h.numBuckets
  filled := h.filled.imp fun _ hfilled => hfilled.of_perm hperm
  alloc p hp := h.alloc p (hperm.mem_iff.mpr hp)

/-- An expansion. -/
theorem hashExpandBuckets (h : Bucketed heap t ps) (hitems : ps.length ≤ t.numItems) :
    ∃ heap' t', hashExpandBuckets heap t = some (heap', t') ∧ Relinked ps heap heap' ∧
      Bucketed heap' t' ps ∧ t'.numItems = t.numItems ∧ t'.tail = t.tail := by
  obtain ⟨chains, hfilled⟩ := h.filled
  have hperm := hfilled.perm_flatten h.pos
  -- All elements of the old chains go to the new buckets, which are empty at first.
  have hpos : 0 < t.numBuckets * 2 := Nat.mul_pos h.pos (by decide)
  obtain ⟨s, chains', hrun, hrelinked, hnew⟩ := expandChains_spec
    ((t.numItems >>> (t.log2NumBuckets + 1))
      + if t.numItems &&& (t.numBuckets * 2 - 1) ≠ 0 then 1 else 0)
    (s := ⟨heap, List.replicate (t.numBuckets * 2) {}, 0⟩)
    hfilled.linked (Filled.empty heap (t.numBuckets * 2)) hpos
    (by
      rw [List.append_nil]
      exact hperm.nodup_iff.mpr hfilled.nodup)
    (fun q hq => by
      rw [List.append_nil] at hq
      exact h.alloc q (hperm.mem_iff.mp hq))
    fun chain hchain => by
      obtain ⟨j, hj⟩ := List.mem_iff_getElem?.mp hchain
      exact (hfilled.chain_spec hj).2.1.trans hitems
  rw [List.append_nil] at hrelinked hnew
  unfold Uthash.hashExpandBuckets
  simp only [hrun, Option.bind_eq_bind, Option.bind_some]
  refine ⟨s.heap, _, rfl, hrelinked.mono hperm.subset, ⟨?_, ⟨chains', hnew.of_perm hperm⟩, ?_⟩,
    rfl, rfl⟩
  · show t.numBuckets * 2 = 2 ^ (t.log2NumBuckets + 1)
    rw [h.numBuckets, pow_succ]
  · intro p hp
    rw [hrelinked.core]
    exact h.alloc p hp

/-- A new element comes in front of its chain, and the table may expand. -/
theorem hashAddToBkt (h : Bucketed heap t ps) {p : ℕ} (hp : p ∉ ps) (halloc : core heap p ≠ none)
    (hitems : ps.length + 1 ≤ t.numItems) :
    ∃ heap' t', hashAddToBkt heap t (bucketOf heap t.numBuckets p) p = some (heap', t') ∧
      Relinked (p :: ps) heap heap' ∧ Bucketed heap' t' (p :: ps) ∧
      t'.numItems = t.numItems ∧ t'.tail = t.tail := by
  obtain ⟨chains, hfilled⟩ := h.filled
  obtain ⟨b, chain, hb, -, -⟩ := hfilled.exists_bucket h.pos p
  have halloc' : ∀ q ∈ p :: ps, core heap q ≠ none := List.forall_mem_cons.mpr ⟨halloc, h.alloc⟩
  obtain ⟨heap₁, hrun₁, hrelinked₁, hfilled₁⟩ := hfilled.push hp halloc' hb
    { b with count := b.count + 1, hhHead := some p } rfl rfl
  have hadded : Bucketed heap₁
      { t with
        buckets := t.buckets.set (bucketOf heap t.numBuckets p)
          { b with count := b.count + 1, hhHead := some p } } (p :: ps) :=
    ⟨h.numBuckets, ⟨_, hfilled₁⟩, fun q hq => by
      rw [hrelinked₁.core]
      exact halloc' q hq⟩
  simp only [Uthash.hashAddToBkt, hb, hrun₁, Option.bind_eq_bind, Option.bind_some]
  split
  · obtain ⟨heap', t', hrun, hrelinked, hbucketed, hsame⟩ := hadded.hashExpandBuckets hitems
    exact ⟨heap', t', hrun, hrelinked₁.trans hrelinked (List.Subset.refl _), hbucketed, hsame⟩
  · exact ⟨heap₁, _, rfl, hrelinked₁, hadded, rfl, rfl⟩

/-- The neighbours of an element in its bucket are linked with each other. -/
theorem hashDelInBkt (h : Bucketed heap t ps) {p : ℕ} (hp : p ∈ ps) :
    ∃ heap' t', hashDelInBkt heap t (bucketOf heap t.numBuckets p) p = some (heap', t') ∧
      Relinked ps heap heap' ∧ Bucketed heap' t' (ps.erase p) ∧
      t'.numItems = t.numItems ∧ t'.tail = t.tail := by
  obtain ⟨chains, hfilled⟩ := h.filled
  obtain ⟨b, chain, hb, hchain, hchained⟩ := hfilled.exists_bucket h.pos p
  obtain ⟨hnodup, -, hmem⟩ := hfilled.chain_spec hchain
  have hpc : p ∈ chain := (hmem p).mpr ⟨hp, rfl⟩
  have hsub : chain ⊆ ps := fun q hq => ((hmem q).mp hq).1
  obtain ⟨del, hdel⟩ := Option.ne_none_iff_exists'.mp fun hnone =>
    h.alloc p hp (core_eq_none_iff.mpr hnone)
  obtain ⟨heap₁, heap₂, hrun₁, hrun₂, hcore, hother, hframe, hlinked⟩ := unlink_spec
    Element.hhNext Element.hhPrev (fun e => { e with hhNext := del.hhNext })
    (fun e => { e with hhPrev := del.hhPrev }) hchained.linked hnodup
    (fun q hq => h.alloc q (hsub hq)) hpc hdel (fun _ => ⟨rfl, rfl⟩) (fun _ => ⟨rfl, rfl⟩)
    (fun _ => ⟨rfl, rfl⟩) fun _ => ⟨rfl, rfl⟩
  have hrelinked : Relinked chain heap heap₂ :=
    ⟨hcore, hother _ (fun _ => rfl) fun _ => rfl, hother _ (fun _ => rfl) fun _ => rfl,
      fun q hq => (hframe q hq).2, fun q hq => (hframe q hq).1⟩
  -- The bucket has a new head when the element was its first one.
  have hnew : Chained heap₂ ⟨if b.hhHead = some p then del.hhNext else b.hhHead, b.count - 1,
      b.expandMult⟩ (chain.erase p) := by
    refine ⟨?_, ?_, hlinked⟩
    · have hfirst := hchained.linked.prev_eq_none_iff hnodup hpc
      rw [link_of_some hdel] at hfirst
      rw [hchained.linked.head?_erase hnodup hpc, hchained.head, link_of_some hdel,
        link_of_some hdel]
      exact if_congr hfirst.symm rfl rfl
    · show b.count - 1 = (chain.erase p).length
      rw [hchained.count, List.length_erase_of_mem hpc]
  unfold Uthash.hashDelInBkt
  simp only [hb, hdel, hrun₁, hrun₂, Option.bind_eq_bind, Option.bind_some]
  have hfilled' := hfilled.erase hp hrelinked hchain hnew
  refine ⟨heap₂, _, rfl, hrelinked.mono hsub, ⟨h.numBuckets, ⟨_, hfilled'⟩, ?_⟩, rfl, rfl⟩
  intro q hq
  rw [hrelinked.core]
  exact h.alloc q (List.mem_of_mem_erase hq)

end Bucketed

end Buckets

end ProcessAnalyzer.Uthash
