import ProcessAnalyzer.Lib.CInt
import ProcessAnalyzer.Proofs.ProcReader

/-!
# `ProcessAnalyzer.Proofs.StatFormat`: reading back what the kernel prints

`/proc/<pid>/stat` is one line of text: the PID, the name in parentheses, the state and a
list of numbers. `statText` prints it, with any bytes in the name. `read_proc_stat` takes
the first line that `fgets` returns, cuts it at the first `(` and the last `)` and scans the
rest.

* `splitStat_of_parens`: what the two searches leave of a line.
* `scanStat_numbers`: the conversions read the printed numbers back, one by one.
* `readProcStat_of_plain`: what is read when neither the newline of the line nor its last
  parenthesis is where the format does not have it.
* `rssKb_statRecord_iff`: when the KB that are stored are the pages of the text.
* `parsedBack_iff`: the values come back exactly when both are so.
-/

set_option autoImplicit false

namespace ProcessAnalyzer.Stats

open ProcessAnalyzer.Lib

/-! ### The format -/

/-- The values of a stat line up to `rss`, in the types of their conversions. -/
structure StatValues where
  state : UInt8
  ppid : Int32
  pgrp : Int32
  session : Int32
  ttyNr : Int32
  tpgid : Int32
  flags : UInt32
  minflt : UInt32
  cminflt : UInt32
  majflt : UInt32
  cmajflt : UInt32
  utime : UInt64
  stime : UInt64
  cutime : Int64
  cstime : Int64
  priority : Int64
  nice : Int64
  numThreads : Int32
  itrealvalue : Int64
  starttime : UInt64
  vsize : UInt64
  rss : Int64

/-- The numbers behind the state, with the targets of their conversions. -/
def StatValues.numbers (v : StatValues) : List (StatField × Int) :=
  [(.ppid, v.ppid.toInt), (.discard, v.pgrp.toInt), (.discard, v.session.toInt),
    (.discard, v.ttyNr.toInt), (.discard, v.tpgid.toInt), (.discard, v.flags.toNat),
    (.discard, v.minflt.toNat), (.discard, v.cminflt.toNat), (.discard, v.majflt.toNat),
    (.discard, v.cmajflt.toNat), (.utime, v.utime.toNat), (.stime, v.stime.toNat),
    (.discard, v.cutime.toInt), (.discard, v.cstime.toInt), (.discard, v.priority.toInt),
    (.discard, v.nice.toInt), (.threads, v.numThreads.toInt), (.discard, v.itrealvalue.toInt),
    (.discard, v.starttime.toNat), (.discard, v.vsize.toNat), (.rss, v.rss.toInt)]

/-- Numbers, each with a space in front of it. -/
def numbersText (zs : List Int) : Bytes := zs.flatMap fun z => 32 :: decInt z

/-- The text in front of the name. -/
def statPrelude (pid : Int32) : Bytes := decInt pid.toInt ++ [32]

/-- The text of `/proc/<pid>/stat`. `more` are the numbers behind `rss`. -/
def statText (pid : Int32) (comm : Bytes) (v : StatValues) (more : List Int) : Bytes :=
  statPrelude pid ++ 40 :: (comm ++ 41 :: 32 :: v.state ::
    (numbersText (v.numbers.map Prod.snd) ++ (numbersText more ++ [10])))

/-- The read succeeded and has the values of the text. The resident set is the number of pages
times the size of a page, as numbers. -/
structure ParsedBack (comm : Bytes) (v : StatValues) (pageSizeKb : Int64)
    (r : ProcessStateInput × Bool) : Prop where
  success : r.2 = true
  comm : r.1.comm = comm
  state : r.1.state = v.state
  ppid : r.1.ppid = v.ppid
  utime : r.1.utime = v.utime
  stime : r.1.stime = v.stime
  threads : r.1.threads = v.numThreads
  rss : r.1.rssKb.toInt = v.rss.toInt * pageSizeKb.toInt
  rssValid : 0 ≤ v.rss.toInt → r.1.boIsRssValid = true

/-- The number of KB of a resident set can be stored: the product is in the range of `long`, or
it is the -1 that stands for a negative number of pages. -/
def RssStorable (rss pageSizeKb : Int) : Prop :=
  (0 ≤ rss → -2 ^ 63 ≤ rss * pageSizeKb ∧ rss * pageSizeKb < 2 ^ 63) ∧
  (rss < 0 → rss * pageSizeKb = -1)

instance (rss pageSizeKb : Int) : Decidable (RssStorable rss pageSizeKb) :=
  inferInstanceAs (Decidable (_ ∧ _))

/-! ### The bytes of the numbers -/

/-- The bytes of a list of numbers: spaces, signs and digits. -/
def isNumberByte (b : UInt8) : Bool := b = 32 || b = 45 || isDigit b

theorem isNumberByte_of_mem_decInt {z : Int} {b : UInt8} (h : b ∈ decInt z) :
    isNumberByte b = true := by
  rcases mem_decInt h with rfl | hb
  · rfl
  · rw [isNumberByte, hb, Bool.or_true]

/-- Other bytes are not in the numbers. -/
theorem notMem_numbersText {b : UInt8} (zs : List Int) (hb : isNumberByte b = false) :
    b ∉ numbersText zs := by
  intro h
  obtain ⟨z, -, hmem⟩ := List.mem_flatMap.mp h
  rcases List.mem_cons.mp hmem with rfl | hdec
  · cases hb
  · rw [isNumberByte_of_mem_decInt hdec] at hb
    cases hb

theorem notMem_statPrelude {b : UInt8} (pid : Int32) (hb : isNumberByte b = false) :
    b ∉ statPrelude pid := by
  intro h
  rcases List.mem_append.mp h with hmem | hmem
  · rw [isNumberByte_of_mem_decInt hmem] at hb
    cases hb
  · rw [List.mem_singleton.mp hmem] at hb
    cases hb

/-- The length of a number in range. -/
theorem length_decInt_le {z : Int} (h : z.natAbs < 10 ^ 20) : (decInt z).length ≤ 21 := by
  have hnat : (decNat z.natAbs).length ≤ 20 := length_decNat_le (by decide) h
  unfold decInt
  split
  · rw [List.length_cons]
    omega
  · omega

theorem length_numbersText_le {zs : List Int} (h : ∀ z ∈ zs, z.natAbs < 10 ^ 20) :
    (numbersText zs).length ≤ 22 * zs.length := by
  induction zs with
  | nil => simp [numbersText]
  | cons z zs ih =>
      have hz := length_decInt_le (h z List.mem_cons_self)
      have hrest := ih fun y hy => h y (List.mem_cons_of_mem z hy)
      simp only [numbersText, List.flatMap_cons, List.length_append, List.length_cons] at hrest ⊢
      omega

/-- With the parentheses in order, at most 63 bytes of what is between them are copied. -/
theorem commLength_eq (lparen n : ℕ) : commLength lparen (lparen + 1 + n) = min 63 n := by
  unfold commLength commSize
  by_cases hn : n ≥ 64
  · rw [if_pos (Or.inr (by omega))]
    omega
  · rw [if_neg (by omega)]
    omega

/-- A line with a first `(` and a last `)`: the name is at most 63 bytes of what is between
them, and the scan starts two bytes behind the last one. -/
theorem splitStat_of_parens (stale before name after : Bytes) (hopen : (40 : UInt8) ∉ before)
    (hbefore : (0 : UInt8) ∉ before) (hname : (0 : UInt8) ∉ name)
    (hafter : (41 : UInt8) ∉ cString after) :
    splitStat stale (before ++ 40 :: (name ++ 41 :: after))
      = some (name.take 63, cString ((after ++ ([0] ++ stale)).drop 1)) := by
  have hbuf : cString (before ++ 40 :: (name ++ 41 :: after) ++ [0] ++ stale)
      = before ++ 40 :: (name ++ 41 :: cString after) := by
    rw [cString_append_nul, cString_append_of_notMem hbefore]
    congr 1
    have hin : (0 : UInt8) ∉ 40 :: (name ++ [41]) := by simp [hname]
    simpa using cString_append_of_notMem hin after
  have hlparen := strchr_append hopen (name ++ 41 :: cString after)
  have hrparen : strrchr (before ++ 40 :: (name ++ 41 :: cString after)) 41
      = some (before.length + 1 + name.length) := by
    have h := strrchr_append hafter (before ++ 40 :: name)
    rw [List.append_assoc, List.cons_append, List.length_append, List.length_cons] at h
    rw [h]
    congr 1
    omega
  unfold splitStat
  simp only [hbuf, hlparen, hrparen, Option.some.injEq, Prod.mk.injEq]
  -- The memory behind the first parenthesis, and behind the last one.
  have hmem : before ++ 40 :: (name ++ 41 :: after) ++ [0] ++ stale
      = (before ++ [40]) ++ (name ++ 41 :: (after ++ ([0] ++ stale))) := by simp
  have hdrop : (before ++ 40 :: (name ++ 41 :: after) ++ [0] ++ stale).drop (before.length + 1)
      = name ++ 41 :: (after ++ ([0] ++ stale)) := by
    rw [hmem, List.drop_left' (by simp)]
  have hmem' : before ++ 40 :: (name ++ 41 :: after) ++ [0] ++ stale
      = (before ++ 40 :: (name ++ [41])) ++ (after ++ ([0] ++ stale)) := by simp
  constructor
  · rw [hdrop, commLength_eq, List.take_append_of_le_length (Nat.min_le_right _ _),
      ← List.take_take, List.take_length]
    exact cString_eq_self fun h => hname (List.mem_of_mem_take h)
  · rw [hmem', show before.length + 1 + name.length + 2
      = (before ++ 40 :: (name ++ [41])).length + 1 by simp; omega, ← List.drop_drop,
      List.drop_left]

/-- A line without `)` is refused. -/
theorem splitStat_eq_none (stale line : Bytes) (h : (41 : UInt8) ∉ cString line) :
    splitStat stale line = none := by
  unfold splitStat
  simp only [cString_append_nul, strrchr_eq_none h]
  cases strchr (cString line) 40 <;> rfl

/-! ### The conversions -/

/-- The first byte behind a number is no digit. -/
theorem isDigit_head_numbersText (zs : List Int) {rest : Bytes}
    (h : ∀ b, rest.head? = some b → isDigit b = false) :
    ∀ b, (numbersText zs ++ rest).head? = some b → isDigit b = false := by
  cases zs with
  | nil => exact h
  | cons z zs =>
      intro b hb
      obtain rfl : 32 = b := by simpa [numbersText] using hb
      rfl

/-- The conversions read the printed numbers back. -/
theorem scanStat_numbers (fs : List (StatField × Int)) (hfs : ∀ f ∈ fs, f.1 ≠ .state)
    {rest : Bytes} (hrest : ∀ b, rest.head? = some b → isDigit b = false) (t : StatTargets) :
    scanStat (fs.map Prod.fst) (numbersText (fs.map Prod.snd) ++ rest) t
      = (fs.foldl (fun t f => assignField f.1 f.2 t) t, true) := by
  induction fs generalizing t with
  | nil => rfl
  | cons f fs ih =>
      have hconv : convertField f.1 (numbersText ((f :: fs).map Prod.snd) ++ rest)
          = some (f.2, numbersText (fs.map Prod.snd) ++ rest) := by
        have htext : numbersText ((f :: fs).map Prod.snd) ++ rest
            = 32 :: (decInt f.2 ++ (numbersText (fs.map Prod.snd) ++ rest)) := by
          simp [numbersText]
        have hne := hfs f List.mem_cons_self
        rw [htext, ← scanInt_decInt f.2 (isDigit_head_numbersText _ hrest)]
        cases hf : f.1 <;> first | rfl | exact absurd hf hne
      rw [List.map_cons, scanStat, hconv, List.foldl_cons]
      exact ih (fun g hg => hfs g (List.mem_cons_of_mem f hg)) _

/-- No later conversion assigns the state. -/
theorem state_scanStat (fs : List StatField) (hfs : .state ∉ fs) (s : Bytes) (t : StatTargets) :
    (scanStat fs s t).1.state = t.state := by
  induction fs generalizing s t with
  | nil => rfl
  | cons f fs ih =>
      have hf : f ≠ .state := fun h => hfs (h ▸ List.mem_cons_self)
      rw [scanStat]
      cases convertField f s with
      | none => rfl
      | some r =>
          refine (ih (fun h => hfs (List.mem_cons_of_mem f h)) r.2 _).trans ?_
          cases f <;> first | rfl | exact absurd rfl hf

/-! ### Values in range -/

theorem natAbs_toInt32_lt (x : Int32) : x.toInt.natAbs < 10 ^ 20 := by
  have h₁ := Int32.le_toInt x
  have h₂ := Int32.toInt_lt x
  omega

theorem natAbs_toInt64_lt (x : Int64) : x.toInt.natAbs < 10 ^ 20 := by
  have h := toInt_mem x
  omega

theorem natAbs_toNat32_lt (x : UInt32) : (x.toNat : Int).natAbs < 10 ^ 20 := by
  have h := x.toNat_lt
  omega

theorem natAbs_toNat64_lt (x : UInt64) : (x.toNat : Int).natAbs < 10 ^ 20 := by
  have h := x.toNat_lt
  omega

/-- The numbers of a stat line have at most 20 digits. -/
theorem natAbs_numbers_lt (v : StatValues) :
    ∀ z ∈ v.numbers.map Prod.snd, z.natAbs < 10 ^ 20 := by
  simp only [StatValues.numbers, List.map_cons, List.map_nil, List.forall_mem_cons,
    natAbs_toInt32_lt, natAbs_toInt64_lt, natAbs_toNat32_lt, natAbs_toNat64_lt, true_and]
  simp

/-- A value of `long` is read back as it is. -/
theorem clampLong_toInt (x : Int64) : clampLong x.toInt = x := by
  have h := toInt_mem x
  rw [clampLong, if_neg (by omega), if_neg (by omega), Int64.ofInt_toInt]

/-- A value of `int` survives the conversion through `long`. -/
theorem toInt32_clampLong_toInt (x : Int32) : (clampLong x.toInt).toInt32 = x := by
  have h₁ := Int32.le_toInt x
  have h₂ := Int32.toInt_lt x
  have hx : x.toInt = x.toInt64.toInt := (Int32.toInt_toInt64 x).symm
  rw [hx, clampLong_toInt, Int32.toInt32_toInt64]

/-- A value of `unsigned long` is read back as it is. -/
theorem clampULong_toNat (x : UInt64) : clampULong (x.toNat : Int) = x := by
  have h := x.toNat_lt
  rw [clampULong, if_neg (by simpa using h), if_neg (by omega), Int.natAbs_natCast,
    UInt64.ofNat_toNat]

/-- The targets after the conversions of a stat line. -/
theorem foldl_assignField_numbers (v : StatValues) (t : StatTargets) :
    v.numbers.foldl (fun t f => assignField f.1 f.2 t) { t with state := v.state }
      = ⟨v.state, v.ppid, v.utime, v.stime, v.numThreads, v.rss⟩ := by
  show StatTargets.mk v.state (clampLong v.ppid.toInt).toInt32 (clampULong v.utime.toNat)
    (clampULong v.stime.toNat) (clampLong v.numThreads.toInt).toInt32 (clampLong v.rss.toInt) = _
  rw [toInt32_clampLong_toInt, toInt32_clampLong_toInt, clampULong_toNat, clampULong_toNat,
    clampLong_toInt]

/-! ### The whole read -/

section Read
variable {files : ProcFiles} (stale : Bytes) (pageSizeKb : Int64) {pid : Int32}
  (p : ProcessStateInput) {comm : Bytes} {v : StatValues} {more : List Int}

/-- The parts of the first line of the file. -/
theorem statParts_of_line {content line : Bytes} (hfile : files.stat pid = some content)
    (hline : (fgetsAll 1024 content).head? = some line) :
    statParts files stale pid = splitStat stale line := by
  rw [statParts, hfile, Option.bind_some, hline, Option.bind_some]

/-- The parts of a first line with the PID, a first `(` and a last `)`. -/
theorem statParts_of_parens {content name after : Bytes} (hfile : files.stat pid = some content)
    (hline : (fgetsAll 1024 content).head? = some (statPrelude pid ++ 40 :: (name ++ 41 :: after)))
    (hname : (0 : UInt8) ∉ name) (hafter : (41 : UInt8) ∉ cString after) :
    statParts files stale pid
      = some (name.take 63, cString ((after ++ ([0] ++ stale)).drop 1)) := by
  rw [statParts_of_line stale hfile hline]
  exact splitStat_of_parens stale _ name after
    (notMem_statPrelude pid rfl) (notMem_statPrelude pid rfl) hname hafter

/-- A newline soon behind the first `(` ends the first line. -/
theorem head?_fgetsAll_newline (pid : Int32) {body : Bytes} (hnewline : (10 : UInt8) ∉ body)
    (hlen : body.length ≤ 65) (rest : Bytes) :
    (fgetsAll 1024 (statPrelude pid ++ 40 :: (body ++ 10 :: rest))).head?
      = some (statPrelude pid ++ 40 :: (body ++ [10])) := by
  have hbody : (10 : UInt8) ∉ statPrelude pid ++ 40 :: body := by
    have hprelude := notMem_statPrelude pid (b := 10) rfl
    simp [hprelude, hnewline]
  have hfits : ([] ++ (statPrelude pid ++ 40 :: body)).length + 1 < 1024 := by
    have hpid := length_decInt_le (natAbs_toInt32_lt pid)
    simp only [statPrelude, List.length_append, List.length_cons, List.length_nil]
    omega
  have hcontent : statPrelude pid ++ 40 :: (body ++ 10 :: rest)
      = (statPrelude pid ++ 40 :: body) ++ 10 :: rest := by simp
  rw [fgetsAll, hcontent, head?_fgetsFrom_newline _ _ _ hbody hfits]
  simp

/-- A read that came back right had a line with the name in it. -/
theorem comm_of_parsedBack (h : ParsedBack comm v pageSizeKb
      (readProcStat files stale pageSizeKb pid p)) :
    ∃ text, statParts files stale pid = some (comm, text) ∧
      (scanStat statFields text ⟨p.state, p.ppid, p.utime, p.stime, p.threads, -1⟩).2 = true ∧
      (scanStat statFields text ⟨p.state, p.ppid, p.utime, p.stime, p.threads, -1⟩).1.state
        = v.state := by
  cases hparts : statParts files stale pid with
  | none =>
      have hsuccess := h.success
      rw [readProcStat_of_none files stale pageSizeKb pid p hparts] at hsuccess
      cases hsuccess
  | some parts =>
      obtain ⟨-, hscan, hrecord⟩ := readProcStat_of_some files stale pageSizeKb pid p hparts
      have hok := hscan ▸ h.success
      have hcomm := h.comm
      have hstate := h.state
      rw [hrecord hok] at hcomm hstate
      refine ⟨parts.2, ?_, hok, hstate⟩
      rw [← hcomm]
      rfl

/-- The text in front of the numbers fits into the buffer, and so do the numbers. -/
theorem length_statHead_le (pid : Int32) (hcomm : comm.length ≤ 63) (v : StatValues) :
    (statPrelude pid ++ 40 :: (comm ++ 41 :: 32 :: v.state ::
      numbersText (v.numbers.map Prod.snd))).length ≤ 600 := by
  have hpid := length_decInt_le (natAbs_toInt32_lt pid)
  have hnumbers := length_numbersText_le (natAbs_numbers_lt v)
  have hcount : (v.numbers.map Prod.snd).length = 21 := rfl
  rw [hcount] at hnumbers
  simp only [statPrelude, List.length_append, List.length_cons, List.length_nil]
  omega

/-- Numbers and a newline are all that stands behind the state. -/
theorem notMem_statTail {b : UInt8} {rest : Bytes} (hrest : rest <+: numbersText more ++ [10])
    (hb : isNumberByte b = false) (hnewline : b ≠ 10) :
    b ∉ numbersText (v.numbers.map Prod.snd) ++ rest := by
  intro h
  rcases List.mem_append.mp h with hmem | hmem
  · exact notMem_numbersText _ hb hmem
  · rcases List.mem_append.mp (hrest.subset hmem) with hmem | hmem
    · exact notMem_numbersText more hb hmem
    · exact hnewline (List.mem_singleton.mp hmem)

/-- Without a newline in the name and as the state, the first line goes at least up to the
last number that is read. -/
theorem exists_statLine (pid : Int32) (more : List Int) (hcomm : comm.length ≤ 63)
    (hnewline : (10 : UInt8) ∉ comm) (h10 : v.state ≠ 10) :
    ∃ rest, rest <+: numbersText more ++ [10] ∧
      (fgetsAll 1024 (statText pid comm v more)).head?
        = some (statPrelude pid ++ 40 :: (comm ++ 41 :: 32 :: v.state ::
          (numbersText (v.numbers.map Prod.snd) ++ rest))) := by
  let head := statPrelude pid ++ 40 :: (comm ++ 41 :: 32 :: v.state ::
    numbersText (v.numbers.map Prod.snd))
  have hhead : (10 : UInt8) ∉ head := by
    have hprelude := notMem_statPrelude pid (b := 10) rfl
    have hbody := notMem_numbersText (b := 10) (v.numbers.map Prod.snd) rfl
    simp [head, hprelude, hnewline, h10.symm, hbody]
  have hlen : head.length ≤ 600 := length_statHead_le pid hcomm v
  obtain ⟨rest, hrest, hline⟩ := head?_fgetsFrom_append 1024 head []
    (numbersText more ++ [10]) hhead (by simp [head]) (by decide)
    (by rw [List.nil_append]; omega)
  refine ⟨rest, hrest, ?_⟩
  have hcontent : statText pid comm v more = head ++ (numbersText more ++ [10]) := by
    simp [statText, head]
  rw [fgetsAll, hcontent, hline]
  simp [head]

/-- The scan reads the state and then the numbers back. -/
theorem scanStat_statFields {rest : Bytes} (hrest : rest <+: numbersText more ++ [10])
    (t : StatTargets) :
    scanStat statFields (v.state :: (numbersText (v.numbers.map Prod.snd) ++ rest)) t
      = (⟨v.state, v.ppid, v.utime, v.stime, v.numThreads, v.rss⟩, true) := by
  have hdigit : ∀ b, rest.head? = some b → isDigit b = false := by
    intro b hb
    obtain ⟨u, hu⟩ := hrest
    have hnewline : ∀ b, ([10] : Bytes).head? = some b → isDigit b = false := by
      simp [isDigit]
    refine isDigit_head_numbersText more hnewline b ?_
    rw [← hu, List.head?_append, hb]
    rfl
  have hfields : statFields = .state :: v.numbers.map Prod.fst := rfl
  have hstate : ∀ f ∈ v.numbers, f.1 ≠ .state := by simp [StatValues.numbers]
  have hbyte : UInt8.ofNat ((v.state.toNat : Int).toNat) = v.state := by simp
  rw [hfields, scanStat]
  dsimp only [convertField]
  rw [assignField, hbyte, scanStat_numbers v.numbers hstate hdigit, foldl_assignField_numbers]

/-- Without a newline in the name and without a NUL, newline or parenthesis as the state, the
fields of the record are read from the values. -/
theorem readProcStat_of_plain (hcomm : comm.length ≤ 63) (hnul : (0 : UInt8) ∉ comm)
    (hfile : files.stat pid = some (statText pid comm v more)) (hnewline : (10 : UInt8) ∉ comm)
    (h0 : v.state ≠ 0) (h10 : v.state ≠ 10) (h41 : v.state ≠ 41) :
    readProcStat files stale pageSizeKb pid p
      = (statRecord files pageSizeKb pid comm
          ⟨v.state, v.ppid, v.utime, v.stime, v.numThreads, v.rss⟩ p, true) := by
  obtain ⟨rest, hrest, hline⟩ := exists_statLine pid more hcomm hnewline h10
  let tail := numbersText (v.numbers.map Prod.snd) ++ rest
  -- The last parenthesis is the one behind the name, and the text ends with the line.
  have hafter : (41 : UInt8) ∉ 32 :: v.state :: tail := by
    simp [tail, h41.symm, -List.mem_append,
      notMem_statTail (v := v) hrest (b := 41) rfl (by decide)]
  have htext : (0 : UInt8) ∉ v.state :: tail := by
    simp [tail, h0.symm, -List.mem_append,
      notMem_statTail (v := v) hrest (b := 0) rfl (by decide)]
  have hparts : statParts files stale pid = some (comm, v.state :: tail) := by
    rw [statParts_of_parens stale hfile hline hnul
      (fun h => hafter ((List.takeWhile_sublist _).subset h)), List.take_of_length_le hcomm]
    have hdrop : (32 :: v.state :: tail ++ ([0] ++ stale)).drop 1
        = v.state :: tail ++ [0] ++ stale := by simp
    rw [hdrop, cString_append_nul, cString_eq_self htext]
  obtain ⟨-, hok, hrecord⟩ := readProcStat_of_some files stale pageSizeKb pid p hparts
  rw [scanStat_statFields hrest] at hok hrecord
  exact Prod.ext (hrecord rfl) hok

/-- The KB that are stored are the pages times the size of a page exactly when they can be
stored. -/
theorem rssKb_statRecord_iff (t : StatTargets) :
    (statRecord files pageSizeKb pid comm t p).rssKb.toInt = t.rssPages.toInt * pageSizeKb.toInt ↔
      RssStorable t.rssPages.toInt pageSizeKb.toInt := by
  have hge : t.rssPages ≥ 0 ↔ 0 ≤ t.rssPages.toInt := Int64.le_iff_toInt_le
  unfold RssStorable statRecord
  by_cases h : 0 ≤ t.rssPages.toInt
  · have hmul := toInt_mul_eq_iff t.rssPages pageSizeKb
    simpa [hge.mpr h, h, not_lt.mpr h] using hmul
  · have hneg : t.rssPages.toInt < 0 := not_le.mp h
    simpa [mt hge.mp h, h, hneg] using eq_comm

/-- A name with a newline never comes back: what is found between the parentheses of the first
line has none. -/
theorem not_parsedBack_of_newline (hcomm : comm.length ≤ 63) (hnul : (0 : UInt8) ∉ comm)
    (hfile : files.stat pid = some (statText pid comm v more)) (hnewline : (10 : UInt8) ∈ comm) :
    ¬ ParsedBack comm v pageSizeKb (readProcStat files stale pageSizeKb pid p) := by
  intro h
  obtain ⟨text, hparts, -, -⟩ := comm_of_parsedBack stale pageSizeKb p h
  obtain ⟨c₁, c₂, rfl, hc₁⟩ := List.eq_append_cons_of_mem hnewline
  have hc₁nul : (0 : UInt8) ∉ c₁ := fun hmem => hnul (List.mem_append_left _ hmem)
  -- The first line ends inside the name.
  have hline : (fgetsAll 1024 (statText pid (c₁ ++ 10 :: c₂) v more)).head?
      = some (statPrelude pid ++ 40 :: (c₁ ++ [10])) := by
    have hlen : c₁.length ≤ 65 := by
      rw [List.length_append] at hcomm
      omega
    unfold statText
    simp only [List.append_assoc, List.cons_append]
    exact head?_fgetsAll_newline pid hc₁ hlen _
  by_cases h41 : (41 : UInt8) ∈ c₁
  · -- With a parenthesis in front of the newline, the name is cut there.
    obtain ⟨r₁, r₂, hr, hr₁⟩ := List.eq_append_cons_of_mem (List.mem_reverse.mpr h41)
    have hc : c₁ = r₂.reverse ++ 41 :: r₁.reverse := by
      rw [← List.reverse_reverse c₁, hr]
      simp
    have hshape : statPrelude pid ++ 40 :: (c₁ ++ [10])
        = statPrelude pid ++ 40 :: (r₂.reverse ++ 41 :: (r₁.reverse ++ [10])) := by
      rw [hc]
      simp
    have hname : (0 : UInt8) ∉ r₂.reverse := fun hmem =>
      hc₁nul (hc ▸ List.mem_append_left _ hmem)
    have hafter : (41 : UInt8) ∉ r₁.reverse ++ [10] := by simp [hr₁]
    rw [hshape] at hline
    rw [statParts_of_parens stale hfile hline hname
      (fun h => hafter ((List.takeWhile_sublist _).subset h)), Option.some.injEq,
      Prod.mk.injEq] at hparts
    have hmem : (10 : UInt8) ∈ r₂.reverse.take 63 := hparts.1 ▸ hnewline
    exact hc₁ (hc ▸ List.mem_append_left _ (List.mem_of_mem_take hmem))
  · have hnone : (41 : UInt8) ∉ statPrelude pid ++ 40 :: (c₁ ++ [10]) := by
      have hprelude := notMem_statPrelude pid (b := 41) rfl
      simp [hprelude, h41]
    rw [statParts_of_line stale hfile hline,
      splitStat_eq_none stale _ fun h => hnone ((List.takeWhile_sublist _).subset h)] at hparts
    cases hparts

/-- A scan without the 22 fields in its text fails, whatever the targets hold. -/
theorem scanStat_newline_ne_true (t : StatTargets) : (scanStat statFields [10] t).2 ≠ true := by
  rw [ok_scanStat statFields [10] t ⟨0, 0, 0, 0, 0, 0⟩]
  decide

/-- A NUL as the state ends the string, so there is nothing to scan. -/
theorem not_parsedBack_of_nul_state (hcomm : comm.length ≤ 63) (hnul : (0 : UInt8) ∉ comm)
    (hfile : files.stat pid = some (statText pid comm v more)) (hnewline : (10 : UInt8) ∉ comm)
    (h0 : v.state = 0) :
    ¬ ParsedBack comm v pageSizeKb (readProcStat files stale pageSizeKb pid p) := by
  intro h
  obtain ⟨text, hparts, hok, -⟩ := comm_of_parsedBack stale pageSizeKb p h
  obtain ⟨rest, -, hline⟩ := exists_statLine (v := v) pid more hcomm hnewline (by rw [h0]; decide)
  rw [h0] at hline
  have hcut : ∀ s : Bytes, cString (32 :: 0 :: s) = [32] := fun s => by simp [cString]
  rw [statParts_of_parens stale hfile hline hnul (by rw [hcut]; decide), Option.some.injEq,
    Prod.mk.injEq] at hparts
  have htext : text = [] := by
    rw [← hparts.2]
    simp [cString]
  rw [htext] at hok
  cases hok

/-- A newline as the state ends the line. -/
theorem not_parsedBack_of_newline_state (hcomm : comm.length ≤ 63) (hnul : (0 : UInt8) ∉ comm)
    (hfile : files.stat pid = some (statText pid comm v more)) (hnewline : (10 : UInt8) ∉ comm)
    (h10 : v.state = 10) :
    ¬ ParsedBack comm v pageSizeKb (readProcStat files stale pageSizeKb pid p) := by
  intro h
  obtain ⟨text, hparts, hok, -⟩ := comm_of_parsedBack stale pageSizeKb p h
  have hline : (fgetsAll 1024 (statText pid comm v more)).head?
      = some (statPrelude pid ++ 40 :: (comm ++ 41 :: [32, 10])) := by
    have hbody : (10 : UInt8) ∉ comm ++ [41, 32] := by simp [hnewline]
    have hlen : (comm ++ [41, 32]).length ≤ 65 := by
      simp only [List.length_append, List.length_cons, List.length_nil]
      omega
    have hcut := head?_fgetsAll_newline pid hbody hlen
      (numbersText (v.numbers.map Prod.snd) ++ (numbersText more ++ [10]))
    simpa [statText, h10] using hcut
  rw [statParts_of_parens stale hfile hline hnul (by decide), Option.some.injEq,
    Prod.mk.injEq] at hparts
  have htext : text = [10] := by
    rw [← hparts.2]
    simp [cString]
  rw [htext] at hok
  exact scanStat_newline_ne_true _ hok

/-- A parenthesis as the state is the last one, so the scan starts with the first byte of
`ppid`. -/
theorem not_parsedBack_of_paren_state (hcomm : comm.length ≤ 63) (hnul : (0 : UInt8) ∉ comm)
    (hfile : files.stat pid = some (statText pid comm v more)) (hnewline : (10 : UInt8) ∉ comm)
    (h41 : v.state = 41) :
    ¬ ParsedBack comm v pageSizeKb (readProcStat files stale pageSizeKb pid p) := by
  intro h
  obtain ⟨text, hparts, -, hread⟩ := comm_of_parsedBack stale pageSizeKb p h
  obtain ⟨rest, hrest, hline⟩ := exists_statLine (v := v) pid more hcomm hnewline
    (by rw [h41]; decide)
  let tail := numbersText (v.numbers.map Prod.snd) ++ rest
  have hshape : statPrelude pid ++ 40 :: (comm ++ 41 :: 32 :: v.state :: tail)
      = statPrelude pid ++ 40 :: ((comm ++ [41, 32]) ++ 41 :: tail) := by
    rw [h41]
    simp
  have hname : (0 : UInt8) ∉ comm ++ [41, 32] := by simp [hnul]
  have hafter : (41 : UInt8) ∉ tail :=
    notMem_statTail (v := v) hrest rfl (by decide)
  rw [hshape] at hline
  rw [statParts_of_parens stale hfile hline hname
    (fun h => hafter ((List.takeWhile_sublist _).subset h)), Option.some.injEq,
    Prod.mk.injEq] at hparts
  -- That byte is a digit or a sign.
  obtain ⟨b, ds, hb⟩ : ∃ b ds, decInt v.ppid.toInt = b :: ds :=
    List.exists_cons_of_ne_nil (decInt_ne_nil _)
  have hbyte := mem_decInt (z := v.ppid.toInt) (b := b) (hb ▸ List.mem_cons_self)
  have hb0 : b ≠ 0 := by
    rintro rfl
    rcases hbyte with h | h <;> cases h
  obtain ⟨more', rfl⟩ : ∃ more', text = b :: more' := by
    have htail : ∃ u, tail = 32 :: b :: u := by
      simp [tail, numbersText, StatValues.numbers, hb]
    obtain ⟨u, hu⟩ := htail
    refine ⟨cString (u ++ ([0] ++ stale)), ?_⟩
    rw [← hparts.2, hu]
    simp [cString, hb0]
  have hstate : (scanStat statFields (b :: more')
      ⟨p.state, p.ppid, p.utime, p.stime, p.threads, -1⟩).1.state = b := by
    have hfields : statFields = .state :: v.numbers.map Prod.fst := rfl
    rw [hfields, scanStat]
    dsimp only [convertField]
    rw [state_scanStat _ (by simp [StatValues.numbers])]
    simp [assignField]
  rw [hstate, h41] at hread
  rw [hread] at hbyte
  rcases hbyte with h | h <;> cases h

/-- `read_proc_stat` gives the values of a stat text back if and only if the name has no
newline, the state is none of NUL, newline and `)`, and the KB of the resident set can be
stored. -/
theorem parsedBack_iff (files : ProcFiles) (stale : Bytes) (pageSizeKb : Int64) (pid : Int32)
    (p : ProcessStateInput) (comm : Bytes) (v : StatValues) (more : List Int)
    (hcomm : comm.length ≤ 63) (hnul : (0 : UInt8) ∉ comm)
    (hfile : files.stat pid = some (statText pid comm v more)) :
    ParsedBack comm v pageSizeKb (readProcStat files stale pageSizeKb pid p) ↔
      (10 : UInt8) ∉ comm ∧ v.state ≠ 0 ∧ v.state ≠ 10 ∧ v.state ≠ 41 ∧
        RssStorable v.rss.toInt pageSizeKb.toInt := by
  constructor
  · intro h
    have hnewline : (10 : UInt8) ∉ comm := fun hmem =>
      not_parsedBack_of_newline stale pageSizeKb p hcomm hnul hfile hmem h
    have h0 : v.state ≠ 0 := fun hs =>
      not_parsedBack_of_nul_state stale pageSizeKb p hcomm hnul hfile hnewline hs h
    have h10 : v.state ≠ 10 := fun hs =>
      not_parsedBack_of_newline_state stale pageSizeKb p hcomm hnul hfile hnewline hs h
    have h41 : v.state ≠ 41 := fun hs =>
      not_parsedBack_of_paren_state stale pageSizeKb p hcomm hnul hfile hnewline hs h
    have hrss := h.rss
    rw [readProcStat_of_plain stale pageSizeKb p hcomm hnul hfile hnewline h0 h10 h41] at hrss
    exact ⟨hnewline, h0, h10, h41, (rssKb_statRecord_iff pageSizeKb p _).mp hrss⟩
  · intro h
    obtain ⟨hnewline, h0, h10, h41, hrss⟩ := h
    rw [readProcStat_of_plain stale pageSizeKb p hcomm hnul hfile hnewline h0 h10 h41]
    refine ⟨rfl, rfl, rfl, rfl, rfl, rfl, rfl, (rssKb_statRecord_iff pageSizeKb p _).mpr hrss,
      fun hge => ?_⟩
    exact decide_eq_true (Int64.le_iff_toInt_le.mpr hge)

end Read

/-- The values of a sleeping process. -/
def sleepingValues : StatValues :=
  ⟨83, 0, 1, 1, 0, -1, 64, 1, 2, 3, 4, 5, 3, 6, 7, 20, 0, 1, 0, 8, 9, 300⟩

/-- The files of a process with the name and the values of a sleeping process. -/
def filesNamed (comm : Bytes) : ProcFiles :=
  ⟨fun pid => some (statText pid comm sleepingValues [0, 1]), fun _ => none, fun _ => none⟩

/-- A name with a space and parentheses comes back. -/
theorem parsedBack_parens :
    ParsedBack (ascii "a) (b") sleepingValues 4
      (readProcStat (filesNamed (ascii "a) (b")) [] 4 1 blankRecord) :=
  (parsedBack_iff _ [] 4 1 blankRecord (ascii "a) (b") sleepingValues [0, 1] (by decide)
    (by decide) rfl).mpr ⟨by decide, by decide, by decide, by decide, by decide⟩

/-- A name with a newline does not. -/
theorem not_parsedBack_newline :
    ¬ ParsedBack (ascii "a\nb") sleepingValues 4
      (readProcStat (filesNamed (ascii "a\nb")) [] 4 1 blankRecord) :=
  not_parsedBack_of_newline [] 4 blankRecord (by decide) (by decide)
    (show (filesNamed (ascii "a\nb")).stat 1
      = some (statText 1 (ascii "a\nb") sleepingValues [0, 1]) from rfl) (by decide)

end ProcessAnalyzer.Stats
