import Mathlib.Logic.Function.Basic
import ProcessAnalyzer.Lib.CText

/-!
# `ProcessAnalyzer.Model.Uthash`: the hash table of `uthash.h`

The macros of `code/third_party/uthash/uthash.h` that the program uses: `HASH_FIND`, `HASH_ADD`
with `HASH_EXPAND_BUCKETS`, `HASH_DELETE`, `HASH_ITER` and `HASH_COUNT`, and the default hash
function `HASH_JEN`.

The table is intrusive. An element is a block of the heap, named by its address, with a handle
in it, and all elements are in two doubly linked lists: in the order in which they were added
(`prev` and `next`), and within their buckets (`hh_prev` and `hh_next`). A pointer to a handle is
the address of its element. The key of an element is read through the element, and all keys have
the same length. The `tbl` pointers of all elements are to the one table.

An operation has no result when it reads or writes a block that is not allocated, or a bucket
outside of the array, or when one of its loops goes on after as many rounds as the table has
elements. `uthash_malloc` succeeds: without memory uthash ends the process. The counters are
natural numbers, since `pid_t` has far less than 2^32 values in use.

`HASH_FSCK` is the integrity check that runs after every change when `HASH_DEBUG` is defined.
-/

set_option autoImplicit false

namespace ProcessAnalyzer.Uthash

open ProcessAnalyzer.Lib

/-! ### `HASH_JEN` -/

/-- `HASH_JEN_MIX`. -/
def hashJenMix (a b c : UInt32) : UInt32 × UInt32 × UInt32 :=
  let a := (a - b - c) ^^^ (c >>> 13)
  let b := (b - c - a) ^^^ (a <<< 8)
  let c := (c - a - b) ^^^ (b >>> 13)
  let a := (a - b - c) ^^^ (c >>> 12)
  let b := (b - c - a) ^^^ (a <<< 16)
  let c := (c - a - b) ^^^ (b >>> 5)
  let a := (a - b - c) ^^^ (c >>> 3)
  let b := (b - c - a) ^^^ (a <<< 10)
  let c := (c - a - b) ^^^ (b >>> 15)
  (a, b, c)

/-- The byte at an index, shifted to its place in the word. A byte that the `switch` has no case
for counts as 0. -/
def keyByte (key : Bytes) (i shift : ℕ) : UInt32 :=
  UInt32.ofNat (key.getD i 0).toNat <<< UInt32.ofNat shift

/-- The four bytes from an index on, as a little-endian word. -/
def keyWord (key : Bytes) (i : ℕ) : UInt32 :=
  keyByte key i 0 + keyByte key (i + 1) 8 + keyByte key (i + 2) 16 + keyByte key (i + 3) 24

/-- `HASH_JEN` from the loop on: a number of blocks of twelve bytes, and then the rest. -/
def hashJenLoop (keylen : UInt32) : ℕ → UInt32 → UInt32 → UInt32 → Bytes → UInt32
  | n + 1, i, j, hashv, key =>
      let (i, j, hashv) :=
        hashJenMix (i + keyWord key 0) (j + keyWord key 4) (hashv + keyWord key 8)
      hashJenLoop keylen n i j hashv (key.drop 12)
  | 0, i, j, hashv, key =>
      let hashv := hashv + keylen
      -- the lowest byte of the last word is the length's place
      let hashv := hashv + keyByte key 10 24 + keyByte key 9 16 + keyByte key 8 8
      (hashJenMix (i + keyWord key 0) (j + keyWord key 4) hashv).2.2

/-- `HASH_JEN`. The loop runs as long as twelve bytes are left. -/
def hashJen (key : Bytes) : UInt32 :=
  hashJenLoop (UInt32.ofNat key.length) (key.length / 12) 0x9e3779b9 0x9e3779b9 0xfeedbeef key

/-- The bytes of an `int`, which is the key of `HASH_FIND_INT` and `HASH_ADD_INT`. -/
def intKey (z : Int32) : Bytes :=
  let w := z.toUInt32
  [w.toUInt8, (w >>> 8).toUInt8, (w >>> 16).toUInt8, (w >>> 24).toUInt8]

/-! ### The table -/

/-- An element with its handle. -/
structure Element (α : Type) where
  prev : Option ℕ := none
  next : Option ℕ := none
  hhPrev : Option ℕ := none
  hhNext : Option ℕ := none
  hashv : UInt32 := 0
  value : α

/-- The allocated elements. -/
abbrev Heap (α : Type) : Type := ℕ → Option (Element α)

/-- `UT_hash_bucket`. -/
structure UtHashBucket where
  hhHead : Option ℕ := none
  count : ℕ := 0
  expandMult : ℕ := 0
  deriving DecidableEq

/-- `UT_hash_table`. -/
structure UtHashTable where
  buckets : List UtHashBucket
  numBuckets : ℕ
  log2NumBuckets : ℕ
  numItems : ℕ := 0
  tail : ℕ
  idealChainMaxlen : ℕ := 0
  nonidealItems : ℕ := 0
  ineffExpands : ℕ := 0
  noexpand : Bool := false

/-- The heap, the head pointer of a table, and the block of the table. -/
structure Memory (α : Type) where
  heap : Heap α := fun _ => none
  head : Option ℕ := none
  tbl : Option UtHashTable := none

/-- `HASH_INITIAL_NUM_BUCKETS`. -/
def hashInitialNumBuckets : ℕ := 32

/-- `HASH_INITIAL_NUM_BUCKETS_LOG2`. -/
def hashInitialNumBucketsLog2 : ℕ := 5

/-- `HASH_BKT_CAPACITY_THRESH`. -/
def hashBktCapacityThresh : ℕ := 10

/-- `HASH_TO_BKT`. -/
def hashToBkt (hashv : UInt32) (numBkts : ℕ) : ℕ := hashv.toNat &&& (numBkts - 1)

section Operations
variable {α κ : Type}

/-- A write to the element at an address. -/
def writeAt (heap : Heap α) (p : ℕ) (f : Element α → Element α) : Option (Heap α) :=
  (heap p).map fun e => Function.update heap p (some (f e))

/-- A write through a pointer behind a test for the null pointer. -/
def writeThrough (heap : Heap α) (q : Option ℕ) (f : Element α → Element α) : Option (Heap α) :=
  match q with
  | none => some heap
  | some q => writeAt heap q f

/-- `(head)->hh.tbl`. -/
def tblOfHead (m : Memory α) : Option UtHashTable :=
  m.head.bind fun p => (m.heap p).bind fun _ => m.tbl

/-- `HASH_COUNT`. -/
def hashCount (m : Memory α) : Option ℕ :=
  match m.head with
  | none => some 0
  | some _ => (tblOfHead m).map UtHashTable.numItems

/-! ### `HASH_FIND` -/

section Find
variable [DecidableEq κ] (key : α → κ) (hash : κ → UInt32)

/-- The loop of `HASH_FIND_IN_BKT`. -/
def hashFindInBkt (heap : Heap α) (k : κ) (hashval : UInt32) :
    ℕ → Option ℕ → Option (Option ℕ)
  | _, none => some none
  | 0, some _ => none
  | n + 1, some out =>
      (heap out).bind fun e =>
        if e.hashv = hashval ∧ key e.value = k then some (some out)
        else hashFindInBkt heap k hashval n e.hhNext

/-- `HASH_FIND`. -/
def hashFind (m : Memory α) (k : κ) : Option (Option ℕ) :=
  match m.head with
  | none => some none
  | some _ => do
      let hashv := hash k
      let t ← tblOfHead m
      let b ← t.buckets[hashToBkt hashv t.numBuckets]?
      hashFindInBkt key m.heap k hashv t.numItems b.hhHead

end Find

/-! ### `HASH_ADD` -/

/-- `HASH_MAKE_TABLE`. -/
def hashMakeTable (p : ℕ) : UtHashTable where
  buckets := List.replicate hashInitialNumBuckets {}
  numBuckets := hashInitialNumBuckets
  log2NumBuckets := hashInitialNumBucketsLog2
  tail := p

/-- `HASH_APPEND_LIST`. -/
def hashAppendList (heap : Heap α) (t : UtHashTable) (p : ℕ) : Option (Heap α × UtHashTable) := do
  let heap ← writeAt heap p fun e => { e with next := none, prev := some t.tail }
  let heap ← writeAt heap t.tail fun e => { e with next := some p }
  some (heap, { t with tail := p })

/-- The element at `p` in front of a chain. -/
def linkFront (heap : Heap α) (hhHead : Option ℕ) (p : ℕ) : Option (Heap α) := do
  let heap ← writeAt heap p fun e => { e with hhNext := hhHead, hhPrev := none }
  writeThrough heap hhHead fun e => { e with hhPrev := some p }

/-- What the loop of `HASH_EXPAND_BUCKETS` works on: the elements, the new buckets, and
`nonideal_items`. -/
structure Expansion (α : Type) where
  heap : Heap α
  newBuckets : List UtHashBucket
  nonidealItems : ℕ := 0

/-- What the loop of `HASH_EXPAND_BUCKETS` does with one element. -/
def expandElement (numBkts ideal : ℕ) (s : Expansion α) (thh : ℕ) : Option (Expansion α) := do
  let e ← s.heap thh
  let bkt := hashToBkt e.hashv numBkts
  let newbkt ← s.newBuckets[bkt]?
  let count := newbkt.count + 1
  let full := ideal < count
  let expandMult :=
    if full ∧ newbkt.expandMult * ideal < count then newbkt.expandMult + 1 else newbkt.expandMult
  let heap ← linkFront s.heap newbkt.hhHead thh
  some
    { heap := heap
      newBuckets := s.newBuckets.set bkt ⟨some thh, count, expandMult⟩
      nonidealItems := if full then s.nonidealItems + 1 else s.nonidealItems }

/-- The loop of `HASH_EXPAND_BUCKETS` over the elements of one bucket. -/
def expandChain (numBkts ideal : ℕ) : ℕ → Expansion α → Option ℕ → Option (Expansion α)
  | _, s, none => some s
  | 0, _, some _ => none
  | n + 1, s, some thh => do
      -- `_he_hh_nxt` is read before the element moves
      let e ← s.heap thh
      let s ← expandElement numBkts ideal s thh
      expandChain numBkts ideal n s e.hhNext

/-- `HASH_EXPAND_BUCKETS`. -/
def hashExpandBuckets (heap : Heap α) (t : UtHashTable) : Option (Heap α × UtHashTable) := do
  -- the number of elements divided by the new number of buckets, rounded up
  let ideal := (t.numItems >>> (t.log2NumBuckets + 1))
    + if t.numItems &&& (t.numBuckets * 2 - 1) ≠ 0 then 1 else 0
  let s ← t.buckets.foldlM
    (fun s b => expandChain (t.numBuckets * 2) ideal t.numItems s b.hhHead)
    ⟨heap, List.replicate (t.numBuckets * 2) {}, 0⟩
  let ineffExpands := if s.nonidealItems > t.numItems >>> 1 then t.ineffExpands + 1 else 0
  some (s.heap, { t with
    buckets := s.newBuckets
    numBuckets := t.numBuckets * 2
    log2NumBuckets := t.log2NumBuckets + 1
    idealChainMaxlen := ideal
    nonidealItems := s.nonidealItems
    ineffExpands := ineffExpands
    noexpand := t.noexpand || decide (ineffExpands > 1) })

/-- `HASH_ADD_TO_BKT`. -/
def hashAddToBkt (heap : Heap α) (t : UtHashTable) (bkt p : ℕ) :
    Option (Heap α × UtHashTable) := do
  let b ← t.buckets[bkt]?
  let count := b.count + 1
  let heap ← linkFront heap b.hhHead p
  let t :=
    { t with buckets := t.buckets.set bkt { b with count := count, hhHead := some p } }
  if (b.expandMult + 1) * hashBktCapacityThresh ≤ count ∧ t.noexpand = false then
    hashExpandBuckets heap t
  else some (heap, t)

/-- The first part of `HASH_ADD`: the element comes to the end of the order, and the first one
makes the table. -/
def hashAddToOrder (m : Memory α) (p : ℕ) : Option (Memory α) :=
  match m.head with
  | none => do
      let heap ← writeAt m.heap p fun e => { e with next := none, prev := none }
      some { heap := heap, head := some p, tbl := some (hashMakeTable p) }
  | some head => do
      let t ← tblOfHead m
      let (heap, t) ← hashAppendList m.heap t p
      some { heap := heap, head := some head, tbl := some t }

/-- `HASH_ADD`, of the element at `p`. -/
def hashAdd (key : α → κ) (hash : κ → UInt32) (m : Memory α) (p : ℕ) : Option (Memory α) := do
  let e ← m.heap p
  let hashv := hash (key e.value)
  let heap ← writeAt m.heap p fun e => { e with hashv := hashv }
  let m ← hashAddToOrder { m with heap := heap } p
  let t ← tblOfHead m
  let (heap, t) ← hashAddToBkt m.heap { t with numItems := t.numItems + 1 }
    (hashToBkt hashv t.numBuckets) p
  some { m with heap := heap, tbl := some t }

/-! ### `HASH_DELETE` -/

/-- `HASH_DEL_IN_BKT`. -/
def hashDelInBkt (heap : Heap α) (t : UtHashTable) (bkt p : ℕ) :
    Option (Heap α × UtHashTable) := do
  let b ← t.buckets[bkt]?
  let del ← heap p
  let hhHead := if b.hhHead = some p then del.hhNext else b.hhHead
  let heap ← writeThrough heap del.hhPrev fun e => { e with hhNext := del.hhNext }
  let heap ← writeThrough heap del.hhNext fun e => { e with hhPrev := del.hhPrev }
  some (heap, { t with
    buckets := t.buckets.set bkt { b with count := b.count - 1, hhHead := hhHead } })

/-- `HASH_DELETE`, of the element at `p`. The table goes with its last element. -/
def hashDelete (m : Memory α) (p : ℕ) : Option (Memory α) := do
  let del ← m.heap p
  let t ← tblOfHead m
  if del.prev = none ∧ del.next = none then
    some { m with head := none, tbl := none }
  else
    -- `HH_FROM_ELMT` of a null pointer is no handle
    let tail ← (if p = t.tail then del.prev else some t.tail)
    let heap ← writeThrough m.heap del.prev fun e => { e with next := del.next }
    let head := if del.prev = none then del.next else m.head
    let heap ← writeThrough heap del.next fun e => { e with prev := del.prev }
    let (heap, t) ←
      hashDelInBkt heap { t with tail := tail } (hashToBkt del.hashv t.numBuckets) p
    some { heap := heap, head := head, tbl := some { t with numItems := t.numItems - 1 } }

/-! ### `HASH_ITER` -/

/-- `tmp` in `HASH_ITER`: `hh.next` of an element, or `NULL`. -/
def hhNextOf (heap : Heap α) : Option ℕ → Option (Option ℕ)
  | none => some none
  | some p => (heap p).map Element.next

/-- The loop of `HASH_ITER` with its body, on a state with a table. -/
def hashIterLoop {σ : Type} (memory : σ → Memory α) (body : σ → ℕ → Option σ) :
    ℕ → σ → Option ℕ → Option ℕ → Option σ
  | _, s, none, _ => some s
  | 0, _, some _, _ => none
  | n + 1, s, some el, tmp => do
      let s ← body s el
      let next ← hhNextOf (memory s).heap tmp
      hashIterLoop memory body n s tmp next

/-- `HASH_ITER` with its body. -/
def hashIter {σ : Type} (memory : σ → Memory α) (body : σ → ℕ → Option σ) (s : σ) : Option σ := do
  let tmp ← hhNextOf (memory s).heap (memory s).head
  let n ← hashCount (memory s)
  hashIterLoop memory body n s (memory s).head tmp

/-! ### `HASH_FSCK` -/

/-- A list as `HASH_FSCK` walks through it: the number of its elements, when every one has a
pointer to the one before. -/
def fsckList (heap : Heap α) (nextOf prevOf : Element α → Option ℕ) :
    ℕ → Option ℕ → Option ℕ → Option ℕ
  | _, _, none => some 0
  | 0, _, some _ => none
  | n + 1, prev, some thh =>
      (heap thh).bind fun e =>
        if prevOf e ≠ prev then none
        else (fsckList heap nextOf prevOf n (some thh) (nextOf e)).map (· + 1)

/-- `HASH_FSCK`: the links of every bucket and its count, the number of elements in the buckets,
and the links and the number of the elements in the order in which they were added. -/
def hashFsck (m : Memory α) : Bool :=
  match m.head with
  | none => true
  | some head =>
      match tblOfHead m with
      | none => false
      | some t =>
          t.buckets.all (fun b =>
              fsckList m.heap Element.hhNext Element.hhPrev t.numItems none b.hhHead
                == some b.count)
            && (t.buckets.map UtHashBucket.count).sum == t.numItems
            && fsckList m.heap Element.next Element.prev t.numItems none (some head)
              == some t.numItems

end Operations

end ProcessAnalyzer.Uthash
