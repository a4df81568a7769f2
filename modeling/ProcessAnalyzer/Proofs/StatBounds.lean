import ProcessAnalyzer.Proofs.StatFormat

/-!
# `ProcessAnalyzer.Proofs.StatBounds`: malformed stat lines

`read_proc_stat` searches the line for the first `(` and the last `)`, copies what is between
them and scans what starts two bytes behind the second one. Neither the order of the two nor
the distance of the second one to the end of the string is checked. `statReads` has the
indices of the buffer that are read:

* `splitStat_eq_bytesAt`: the results are made of the bytes at these indices, and of no
  others.
* `statWithinLine_iff`: the reads stay inside the line exactly when the parentheses are in
  order and a byte follows the last one.
-/

set_option autoImplicit false

namespace ProcessAnalyzer.Stats

open ProcessAnalyzer.Lib

/-! ### The reads and their bytes -/

/-- The bytes of the buffer at some indices. -/
def bytesAt (mem : Bytes) (is : List ℕ) : Bytes := is.filterMap fun i => mem[i]?

theorem bytesAt_range' (mem : Bytes) (i n : ℕ) :
    bytesAt mem (List.range' i n) = (mem.drop i).take n := by
  induction n generalizing i with
  | zero => rfl
  | succ n ih =>
      have hrest : bytesAt mem (List.range' (i + 1) n) = (mem.drop (i + 1)).take n := ih (i + 1)
      unfold bytesAt at hrest ⊢
      rw [List.range'_succ]
      cases h : mem[i]? with
      | none =>
          have hle : mem.length ≤ i := List.getElem?_eq_none_iff.mp h
          rw [List.filterMap_cons_none h, hrest, List.drop_eq_nil_of_le hle,
            List.drop_eq_nil_of_le (by omega), List.take_nil, List.take_nil]
      | some b =>
          obtain ⟨hlt, hb⟩ := List.getElem?_eq_some_iff.mp h
          rw [List.filterMap_cons_some h, hrest, List.drop_eq_getElem_cons hlt, hb,
            List.take_succ_cons]

/-- The two results of the search are the strings at the indices that are read. -/
theorem splitStat_eq_bytesAt {stale line comm text : Bytes}
    (h : splitStat stale line = some (comm, text)) :
    comm = cString (bytesAt (line ++ [0] ++ stale) (statReads stale line).copied) ∧
    text = cString (bytesAt (line ++ [0] ++ stale) (statReads stale line).scanned) := by
  unfold splitStat at h
  unfold statReads
  generalize line ++ [0] ++ stale = mem at h ⊢
  cases hl : strchr (cString mem) 40 with
  | none => simp [hl] at h
  | some lparen =>
      cases hr : strrchr (cString mem) 41 with
      | none => simp [hl, hr] at h
      | some rparen =>
          simp only [hl, hr, Option.some.injEq, Prod.mk.injEq] at h ⊢
          refine ⟨?_, ?_⟩
          · rw [bytesAt_range']
            exact h.1.symm
          · rw [bytesAt_range', cString_take, List.take_of_length_le (Nat.le_succ _)]
            exact h.2.symm

/-! ### The searches -/

section Line
variable (stale : Bytes) {line : Bytes}

/-- Without one of the parentheses, only the searches read, and there is no result. -/
theorem splitStat_eq_none_of_missing
    (h : strchr (cString line) 40 = none ∨ strrchr (cString line) 41 = none) :
    splitStat stale line = none ∧ (statReads stale line).copied = [] ∧
      (statReads stale line).scanned = [] := by
  unfold splitStat statReads
  simp only [cString_append_nul]
  cases hl : strchr (cString line) 40 with
  | none => exact ⟨rfl, rfl, rfl⟩
  | some lparen =>
      cases hr : strrchr (cString line) 41 with
      | none => exact ⟨rfl, rfl, rfl⟩
      | some rparen => simp [hl, hr] at h

/-- With both parentheses, the copy starts behind the first one and the scan two bytes behind
the last one. -/
theorem statReads_of_found {lparen rparen : ℕ} (hl : strchr (cString line) 40 = some lparen)
    (hr : strrchr (cString line) 41 = some rparen) :
    (statReads stale line).copied = List.range' (lparen + 1) (commLength lparen rparen) ∧
    (statReads stale line).scanned = List.range' (rparen + 2)
      ((cString ((line ++ [0] ++ stale).drop (rparen + 2))).length + 1) := by
  unfold statReads
  simp only [cString_append_nul, hl, hr, and_self]

theorem splitStat_of_found {lparen rparen : ℕ} (hl : strchr (cString line) 40 = some lparen)
    (hr : strrchr (cString line) 41 = some rparen) :
    splitStat stale line
      = some (cString (((line ++ [0] ++ stale).drop (lparen + 1)).take (commLength lparen rparen)),
          cString ((line ++ [0] ++ stale).drop (rparen + 2))) := by
  unfold splitStat
  simp only [cString_append_nul, hl, hr]

theorem mem_searches {i : ℕ} :
    i ∈ (statReads stale line).searches ↔ i ≤ (cString line).length := by
  have hsearches : (statReads stale line).searches = List.range ((cString line).length + 1) := by
    unfold statReads
    simp only [cString_append_nul]
    cases strchr (cString line) 40 with
    | none => rfl
    | some lparen => cases strrchr (cString line) 41 <;> rfl
  rw [hsearches, List.mem_range, Nat.lt_succ_iff]

end Line

/-! ### The line -/

/-- `read_proc_stat` stays inside its line: it reads bytes of the string and its NUL, the copy
is of bytes between the parentheses, and a read that succeeds leaves these bytes in `comm`, up
to 63 of them. -/
structure StatWithinLine (stale line : Bytes) (r : ProcessStateInput × Bool) : Prop where
  searches : ∀ i ∈ (statReads stale line).searches, i ≤ (cString line).length
  copied : ∀ i ∈ (statReads stale line).copied, i ≤ (cString line).length
  scanned : ∀ i ∈ (statReads stale line).scanned, i ≤ (cString line).length
  between : ∀ lparen rparen, strchr (cString line) 40 = some lparen →
    strrchr (cString line) 41 = some rparen →
    ∀ i ∈ (statReads stale line).copied, lparen < i ∧ i < rparen
  comm : r.2 = true → ∃ lparen rparen, strchr (cString line) 40 = some lparen ∧
    strrchr (cString line) 41 = some rparen ∧
    r.1.comm = (((cString line).take rparen).drop (lparen + 1)).take 63

/-- The parentheses, when both are there, are in order, and a byte follows the last one. -/
def ParensInOrder (line : Bytes) : Prop :=
  ∀ lparen rparen, strchr (cString line) 40 = some lparen →
    strrchr (cString line) 41 = some rparen →
    lparen < rparen ∧ rparen + 1 < (cString line).length

/-- The bytes for `comm` are those between the parentheses. -/
theorem comm_splitStat {stale line : Bytes} {lparen rparen : ℕ}
    (hl : strchr (cString line) 40 = some lparen) (hlt : lparen < rparen) :
    cString (((line ++ [0] ++ stale).drop (lparen + 1)).take (commLength lparen rparen))
      = (((cString line).take rparen).drop (lparen + 1)).take 63 := by
  have hstart : lparen + 1 ≤ (cString (line ++ [0] ++ stale)).length := by
    rw [cString_append_nul]
    exact lt_of_strchr hl
  obtain ⟨n, rfl⟩ : ∃ n, rparen = lparen + 1 + n := ⟨rparen - (lparen + 1), by omega⟩
  rw [cString_take, cString_drop _ hstart, cString_append_nul, commLength_eq, List.drop_take,
    List.take_take, Nat.add_sub_cancel_left]

section Read
variable (files : ProcFiles) (stale : Bytes) (pageSizeKb : Int64) (pid : Int32)
  (p : ProcessStateInput) {content line : Bytes}

/-- With the parentheses in order, the reads stay inside the line. -/
theorem statWithinLine_of_parensInOrder (hfile : files.stat pid = some content)
    (hline : (fgetsAll 1024 content).head? = some line) (h : ParensInOrder line) :
    StatWithinLine stale line (readProcStat files stale pageSizeKb pid p) := by
  have hparts : statParts files stale pid = splitStat stale line :=
    statParts_of_line stale hfile hline
  by_cases hmissing : strchr (cString line) 40 = none ∨ strrchr (cString line) 41 = none
  · obtain ⟨hnone, hcopied, hscanned⟩ := splitStat_eq_none_of_missing stale hmissing
    rw [readProcStat_of_none files stale pageSizeKb pid p (hparts.trans hnone)]
    refine ⟨fun i hi => (mem_searches stale).mp hi, ?_, ?_, ?_, ?_⟩
    · simp [hcopied]
    · simp [hscanned]
    · simp [hcopied]
    · exact fun hf => absurd hf Bool.false_ne_true
  · rw [not_or] at hmissing
    obtain ⟨lparen, hl⟩ := Option.ne_none_iff_exists'.mp hmissing.1
    obtain ⟨rparen, hr⟩ := Option.ne_none_iff_exists'.mp hmissing.2
    obtain ⟨hlt, hend⟩ := h lparen rparen hl hr
    obtain ⟨hcopied, hscanned⟩ := statReads_of_found stale hl hr
    have hbetween : ∀ i ∈ (statReads stale line).copied, lparen < i ∧ i < rparen := by
      intro i hi
      obtain ⟨n, rfl⟩ : ∃ n, rparen = lparen + 1 + n := ⟨rparen - (lparen + 1), by omega⟩
      rw [hcopied, List.mem_range'_1, commLength_eq] at hi
      omega
    -- The scan starts in the string or at its NUL, so it ends with this NUL.
    have htext : (cString ((line ++ [0] ++ stale).drop (rparen + 2))).length
        = (cString line).length - (rparen + 2) := by
      rw [cString_drop _ (by rw [cString_append_nul]; exact hend), cString_append_nul,
        List.length_drop]
    refine ⟨fun i hi => (mem_searches stale).mp hi, ?_, ?_, ?_, ?_⟩
    · intro i hi
      have hi' := hbetween i hi
      omega
    · intro i hi
      rw [hscanned, List.mem_range'_1, htext] at hi
      omega
    · intro l r hl' hr'
      rw [hl] at hl'
      rw [hr] at hr'
      cases hl'
      cases hr'
      exact hbetween
    · intro hok
      obtain ⟨-, hscan, hrecord⟩ := readProcStat_of_some files stale pageSizeKb pid p
        (hparts.trans (splitStat_of_found stale hl hr))
      refine ⟨lparen, rparen, hl, hr, ?_⟩
      rw [hrecord (hscan ▸ hok)]
      exact comm_splitStat hl hlt

/-- A copy between the parentheses and a scan inside the string need the parentheses in
order. -/
theorem parensInOrder_of_statWithinLine {r : ProcessStateInput × Bool}
    (h : StatWithinLine stale line r) : ParensInOrder line := by
  intro lparen rparen hl hr
  obtain ⟨hcopied, hscanned⟩ := statReads_of_found stale hl hr
  have hne : lparen ≠ rparen := by
    rintro rfl
    have h40 := getElem?_of_strchr hl
    rw [getElem?_of_strrchr hr] at h40
    cases h40
  refine ⟨?_, ?_⟩
  · -- In the wrong order, 63 bytes are copied, the first of them behind the `(`.
    by_contra hle
    have hfirst : lparen + 1 ∈ (statReads stale line).copied := by
      rw [hcopied, List.mem_range'_1, commLength, commSize, if_pos (Or.inl (by omega))]
      omega
    have := (h.between lparen rparen hl hr _ hfirst).2
    omega
  · have hfirst : rparen + 2 ∈ (statReads stale line).scanned := by
      rw [hscanned, List.mem_range'_1]
      omega
    exact h.scanned _ hfirst

/-- `read_proc_stat` stays inside the line that `fgets` delivers if and only if its
parentheses, when both are there, are in order and a byte follows the last one. -/
theorem statWithinLine_iff (hfile : files.stat pid = some content)
    (hline : (fgetsAll 1024 content).head? = some line) :
    StatWithinLine stale line (readProcStat files stale pageSizeKb pid p) ↔ ParensInOrder line :=
  ⟨parensInOrder_of_statWithinLine stale,
    statWithinLine_of_parensInOrder files stale pageSizeKb pid p hfile hline⟩

end Read

/-- The files of a process whose stat file is a text. -/
def filesOfText (text : Bytes) : ProcFiles :=
  ⟨fun _ => some text, fun _ => none, fun _ => none⟩

/-- A line with text behind the name is read inside its bounds. -/
theorem statWithinLine_sleeping :
    StatWithinLine [] (ascii "1 (init) S 0\n")
      (readProcStat (filesOfText (ascii "1 (init) S 0\n")) [] 4 1 blankRecord) := by
  refine (statWithinLine_iff _ [] 4 1 blankRecord rfl (by decide)).mpr ?_
  intro lparen rparen hl hr
  have hl' : strchr (cString (ascii "1 (init) S 0\n")) 40 = some 2 := by decide
  have hr' : strrchr (cString (ascii "1 (init) S 0\n")) 41 = some 7 := by decide
  rw [hl'] at hl
  rw [hr'] at hr
  cases hl
  cases hr
  decide

/-- A line that ends with the last parenthesis is scanned from behind its NUL. -/
theorem not_statWithinLine_end :
    (fgetsAll 1024 (ascii "1 (init)")).head? = some (ascii "1 (init)") ∧
    ¬ StatWithinLine [] (ascii "1 (init)")
      (readProcStat (filesOfText (ascii "1 (init)")) [] 4 1 blankRecord) := by
  refine ⟨by decide, fun h => ?_⟩
  have hscanned : 9 ≤ (cString (ascii "1 (init)")).length := h.scanned 9 (by decide)
  exact absurd hscanned (by decide)

end ProcessAnalyzer.Stats
