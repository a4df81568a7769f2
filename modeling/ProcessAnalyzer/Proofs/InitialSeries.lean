import ProcessAnalyzer.Model.RecordsWorker
import ProcessAnalyzer.Proofs.RecordText

/-!
# `ProcessAnalyzer.Proofs.InitialSeries`: the diagrams that come with the index

`prepareFile` reads all lines once, for the list of the processes, and collects the points of
one process on the way. `buildPidSeries` reads them for one process.

* `preparedFrom_foldl`: what the variables of `prepareFile` are after any number of lines. In
  particular the points so far are those that `buildPidSeries` has after the same lines.
* `prepareFile_initialSeries`: when there is an initial series, and that it is the one of
  `buildPidSeries`.
-/

set_option autoImplicit false

namespace ProcessAnalyzer.Dashboard

open ProcessAnalyzer.Lib

/-- The PIDs of the lines that have one. -/
def pidsOf (lines : List (List Char)) : List Int :=
  lines.filterMap fun line => extractInteger line "pid".toList

/-! ### One line -/

section Step
variable (env : DateEnv)

/-- A line without the PID leaves the series as it is. -/
theorem foldl_seriesLine_of_notMem {pid : Int} {lines : List (List Char)} (h : pid ∉ pidsOf lines)
    (s : List Char × Series) : lines.foldl (seriesLine env pid) s = s := by
  induction lines generalizing s with
  | nil => rfl
  | cons line lines ih =>
      have hline : extractInteger line "pid".toList ≠ some pid := fun hpid =>
        h (List.mem_filterMap.mpr ⟨line, List.mem_cons_self, hpid⟩)
      have hrest : pid ∉ pidsOf lines := fun hmem => by
        obtain ⟨l, hl, hpid⟩ := List.mem_filterMap.mp hmem
        exact h (List.mem_filterMap.mpr ⟨l, List.mem_cons_of_mem _ hl, hpid⟩)
      rw [List.foldl_cons, seriesLine, if_pos hline]
      exact ih hrest s

/-- What `prepareFile` has after the lines `seen`. -/
structure PreparedFrom (requested : Option Int) (seen : List (List Char)) (p : Preparation) :
    Prop where
  entries : ∀ pid, pid ∈ p.entries.map Prod.fst ↔ pid ∈ pidsOf seen
  firstPid : p.firstPid = (pidsOf seen).head?
  minPid : p.minPid = (pidsOf seen).min?
  initialPid : p.initialPid = requested.or (pidsOf seen).head?
  initialSeries : (p.initialComm, p.initialSeries)
    = match p.initialPid with
      | some pid => seen.foldl (seriesLine env pid) ([], {})
      | none => ([], {})

variable {env}

/-- The entry of a PID. The first PID of the file is set with its first entry, and so is the
initial one unless it was requested. -/
theorem enterPid_spec {requested : Option Int} {seen : List (List Char)} {p : Preparation}
    (h : PreparedFrom env requested seen p) (m : Option Int) (pid : Int) (comm : List Char) :
    let p' := enterPid { p with minPid := m } pid comm
    (∀ q, q ∈ p'.entries.map Prod.fst ↔ q ∈ p.entries.map Prod.fst ∨ q = pid) ∧
    p'.firstPid = p.firstPid.or (some pid) ∧ p'.minPid = m ∧
    p'.initialPid = p.initialPid.or (some pid) ∧
    p'.initialComm = p.initialComm ∧ p'.initialSeries = p.initialSeries := by
  intro p'
  have hknown : p.entries.any (·.1 = pid) = true ↔ pid ∈ p.entries.map Prod.fst := by
    simp only [List.any_eq_true, List.mem_map, decide_eq_true_eq]
  by_cases hany : p.entries.any (·.1 = pid) = true
  · -- A PID that is known is not the first one.
    have hp' : p' = { p with minPid := m } := if_pos hany
    have hmem := (h.entries pid).mp (hknown.mp hany)
    obtain ⟨first, hfirst⟩ : ∃ first, (pidsOf seen).head? = some first :=
      ⟨_, List.head?_eq_some_head (List.ne_nil_of_mem hmem)⟩
    rw [hp']
    refine ⟨fun q => ⟨Or.inl, ?_⟩, ?_, rfl, ?_, rfl, rfl⟩
    · rintro (hq | rfl)
      · exact hq
      · exact hknown.mp hany
    · show p.firstPid = _
      rw [h.firstPid, hfirst, Option.some_or]
    · show p.initialPid = _
      rw [h.initialPid, hfirst]
      cases requested <;> rfl
  · have hentries : ∀ q, q ∈ (p.entries ++ [(pid, comm)]).map Prod.fst
        ↔ q ∈ p.entries.map Prod.fst ∨ q = pid := by
      intro q
      rw [List.map_append, List.mem_append, List.map_singleton, List.mem_singleton]
    cases hfirst : p.firstPid with
    | none =>
        have hp' : p' = { p with
            minPid := m
            entries := p.entries ++ [(pid, comm)]
            firstPid := some pid
            initialPid := if p.initialPid = none then some pid else p.initialPid } := by
          show enterPid _ pid comm = _
          rw [enterPid, if_neg hany]
          simp only [hfirst, if_true]
        rw [hp']
        refine ⟨hentries, rfl, rfl, ?_, rfl, rfl⟩
        show (if p.initialPid = none then some pid else p.initialPid) = _
        cases p.initialPid <;> rfl
    | some first =>
        have hp' : p' = { p with minPid := m, entries := p.entries ++ [(pid, comm)] } := by
          show enterPid _ pid comm = _
          rw [enterPid, if_neg hany]
          simp only [hfirst, reduceCtorEq, if_false]
        rw [hp']
        refine ⟨hentries, hfirst, rfl, ?_, rfl, rfl⟩
        show p.initialPid = _
        have hhead := h.firstPid.symm.trans hfirst
        rw [h.initialPid, hhead]
        cases requested <;> rfl

/-- The points of a line with the initial PID, as `buildPidSeries` collects them. -/
theorem collectInitial_spec (env : DateEnv) (p : Preparation) {line : List Char} {pid : Int}
    (hpid : extractInteger line "pid".toList = some pid) :
    let p' := collectInitial env p pid ((extractString line "comm".toList).getD []) line
    p'.entries = p.entries ∧ p'.firstPid = p.firstPid ∧ p'.minPid = p.minPid ∧
    p'.initialPid = p.initialPid ∧
    (p'.initialComm, p'.initialSeries)
      = if p.initialPid = some pid then seriesLine env pid (p.initialComm, p.initialSeries) line
        else (p.initialComm, p.initialSeries) := by
  intro p'
  by_cases hinitial : p.initialPid = some pid
  · have hp' : p' = _ := if_pos hinitial
    rw [hp', if_pos hinitial, seriesLine, if_neg (not_not_intro hpid)]
    exact ⟨rfl, rfl, rfl, rfl, rfl⟩
  · have hp' : p' = p := if_neg hinitial
    rw [hp', if_neg hinitial]
    exact ⟨rfl, rfl, rfl, rfl, rfl⟩

theorem pidsOf_concat_some (seen : List (List Char)) {line : List Char} {pid : Int}
    (hpid : extractInteger line "pid".toList = some pid) :
    pidsOf (seen ++ [line]) = pidsOf seen ++ [pid] := by
  simp only [pidsOf, List.filterMap_append, List.filterMap_cons, hpid, List.filterMap_nil]

/-- The smallest PID so far. -/
theorem min?_concat (pids : List Int) (pid : Int) :
    (pids ++ [pid]).min? = lowerMinPid pids.min? pid := by
  cases pids with
  | nil => rfl
  | cons first pids =>
      have hmin : ∀ m : Int, min m pid = if pid < m then pid else m := by
        intro m
        split <;> omega
      rw [List.cons_append, List.min?_cons', List.min?_cons', List.foldl_append]
      exact congrArg some (hmin _)

/-- The initial series after a line with a PID, which is the initial one when the file had none
before. -/
theorem PreparedFrom.initialSeries_concat {requested : Option Int} {seen : List (List Char)}
    {p : Preparation} (h : PreparedFrom env requested seen p) {line : List Char} {pid : Int}
    (hpid : extractInteger line "pid".toList = some pid) :
    (if p.initialPid.or (some pid) = some pid then
        seriesLine env pid (p.initialComm, p.initialSeries) line
      else (p.initialComm, p.initialSeries))
      = match p.initialPid.or (some pid) with
        | some initial => (seen ++ [line]).foldl (seriesLine env initial) ([], {})
        | none => ([], {}) := by
  rw [h.initialSeries]
  cases hp : p.initialPid with
  | some initial =>
      -- The initial PID stays, and the line counts for it or not.
      simp only [Option.some_or, Option.some.injEq, List.foldl_concat]
      split
      · rename_i heq
        rw [heq]
      · rename_i hne
        rw [seriesLine, if_pos (fun heq => hne (Option.some.inj (heq.symm.trans hpid)))]
  | none =>
      -- The first PID of the file: no line before it has one.
      have hnone := h.initialPid.symm.trans hp
      have hnil : pidsOf seen = [] := by
        rw [Option.or_eq_none_iff] at hnone
        exact List.head?_eq_none_iff.mp hnone.2
      have hskip : seen.foldl (seriesLine env pid) ([], {}) = ([], {}) :=
        foldl_seriesLine_of_notMem env (by rw [hnil]; exact List.not_mem_nil) _
      simp only [Option.none_or, if_true, List.foldl_concat, hskip]

/-- One line keeps this, with the line among those that were read. -/
theorem PreparedFrom.step {requested : Option Int} {seen : List (List Char)} {p : Preparation}
    (h : PreparedFrom env requested seen p) (line : List Char) :
    PreparedFrom env requested (seen ++ [line]) (prepareLine env p line) := by
  cases hpid : extractInteger line "pid".toList with
  | none =>
      have hsame : prepareLine env p line = p := by
        rw [prepareLine, hpid]
      have hpids : pidsOf (seen ++ [line]) = pidsOf seen := by
        simp only [pidsOf, List.filterMap_append, List.filterMap_cons, hpid, List.filterMap_nil,
          List.append_nil]
      rw [hsame]
      refine ⟨hpids ▸ h.entries, hpids ▸ h.firstPid, hpids ▸ h.minPid, hpids ▸ h.initialPid, ?_⟩
      rw [h.initialSeries]
      cases p.initialPid with
      | none => rfl
      | some initial =>
          simp only [List.foldl_concat, seriesLine, hpid]
          rfl
  | some pid =>
      have hpids := pidsOf_concat_some seen hpid
      obtain ⟨hentries, hfirst, hmin, hinitial, hcomm, hseries⟩ := enterPid_spec h
        (lowerMinPid p.minPid pid) pid ((extractString line "comm".toList).getD [])
      have hline : prepareLine env p line = collectInitial env
          (enterPid { p with minPid := lowerMinPid p.minPid pid } pid
            ((extractString line "comm".toList).getD [])) pid
          ((extractString line "comm".toList).getD []) line := by
        simp only [prepareLine, hpid]
      generalize enterPid _ pid _ = q at hentries hfirst hmin hinitial hcomm hseries hline
      obtain ⟨hentries', hfirst', hmin', hinitial', hseries'⟩ :=
        collectInitial_spec env q hpid
      rw [← hline] at hentries' hfirst' hmin' hinitial' hseries'
      refine ⟨?_, ?_, ?_, ?_, ?_⟩
      · intro r
        rw [hentries', hentries, h.entries, hpids, List.mem_append, List.mem_singleton]
      · rw [hfirst', hfirst, h.firstPid, hpids, List.head?_append]
        rfl
      · rw [hmin', hmin, h.minPid, hpids, min?_concat]
      · rw [hinitial', hinitial, h.initialPid, hpids, List.head?_append, Option.or_assoc]
        rfl
      · rw [hseries', hinitial', hinitial, hcomm, hseries]
        exact h.initialSeries_concat hpid

/-- After all lines. -/
theorem preparedFrom_foldl (env : DateEnv) (requested : Option Int) (lines : List (List Char)) :
    PreparedFrom env requested lines
      (lines.foldl (prepareLine env) { initialPid := requested }) := by
  have hrun : ∀ (rest seen : List (List Char)) (p : Preparation),
      PreparedFrom env requested seen p →
      PreparedFrom env requested (seen ++ rest) (rest.foldl (prepareLine env) p) := by
    intro rest
    induction rest with
    | nil =>
        intro seen p h
        rw [List.append_nil]
        exact h
    | cons line rest ih =>
        intro seen p h
        have hrest := ih (seen ++ [line]) (prepareLine env p line) (h.step line)
        rw [List.append_assoc] at hrest
        exact hrest
  refine hrun lines [] { initialPid := requested } ⟨fun pid => ?_, rfl, rfl, ?_, ?_⟩
  · exact ⟨fun h => absurd h List.not_mem_nil, fun h => absurd h List.not_mem_nil⟩
  · cases requested <;> rfl
  · cases requested <;> rfl

end Step

/-! ### PIDs as texts -/

/-- The text of a number with at most 15 digits is read back. -/
theorem plainInteger_pidText {pid : Int} (h : pid.natAbs < 10 ^ 15) :
    plainInteger (pidText pid) = some pid := by
  have hdigits := isDigit_latin_decNat pid.natAbs
  have hall : (latin (decNat pid.natAbs)).all Char.isDigit = true := List.all_eq_true.mpr hdigits
  have hvalue : digitsValue (latin (decNat pid.natAbs)) = pid.natAbs := by
    rw [digitsValue_latin fun b hb => lt_of_isDigit (isDigit_decNat _ b hb), decValue_decNat]
  have hne : latin (decNat pid.natAbs) ≠ [] := by
    simpa [latin] using decNat_ne_nil pid.natAbs
  have hlength : (latin (decNat pid.natAbs)).length ≤ 15 := by
    rw [latin, List.length_map]
    exact length_decNat_le (by decide) h
  by_cases hneg : pid < 0
  · have htext : pidText pid = '-' :: latin (decNat pid.natAbs) := by
      rw [pidText, decInt, if_pos hneg]
      rfl
    have hback : -(pid.natAbs : Int) = pid := by omega
    rw [htext, plainInteger]
    simp only [List.head?_cons, List.tail_cons, if_true, hvalue, hback]
    exact if_pos ⟨hne, hlength, hall⟩
  · have htext : pidText pid = latin (decNat pid.natAbs) := by
      rw [pidText, decInt, if_neg hneg]
    have hback : (pid.natAbs : Int) = pid := by omega
    -- The first character is a digit, so there is no sign.
    have hhead : (latin (decNat pid.natAbs)).head? ≠ some '-' := by
      intro hminus
      have hdigit := hdigits '-' (List.mem_of_mem_head? hminus)
      revert hdigit
      decide
    rw [htext, plainInteger]
    simp only [hhead, if_false, hvalue, hback]
    exact if_pos ⟨hne, hlength, hall⟩

/-- A PID goes through the list of the processes unchanged. -/
theorem normalizePid_pidText (number : NumberEnv) {pid : Int} (h : pid.natAbs < 10 ^ 15) :
    normalizePid number (some (pidText pid)) = some pid := by
  have hplain := plainInteger_pidText h
  cases htext : pidText pid with
  | nil =>
      rw [htext] at hplain
      cases hplain
  | cons c s =>
      rw [htext] at hplain
      rw [normalizePid, hplain]

/-! ### The initial series -/

section Main
variable (number : NumberEnv) (env : DateEnv) (requestedPid : Option (List Char))
  (lines : List (List Char))

/-- The process whose diagrams come with the index: the requested one if it is in the file, or
the first one if none was requested and no other PID is smaller. -/
def IsInitial (pid : Int) : Prop :=
  match normalizePid number requestedPid with
  | some requested => pid = requested ∧ requested ∈ pidsOf lines
  | none => (pidsOf lines).head? = some pid ∧ ∀ other ∈ pidsOf lines, pid ≤ other

/-- The test at the end of `prepareFile` is met exactly by that process. -/
theorem canReuse_iff {requested : Option Int} {p : Preparation}
    (hrequested : normalizePid number requestedPid = requested)
    (h : PreparedFrom env requested lines p) (pid : Int) :
    p.initialPid = some pid ∧ ((p.entries.any fun e => some e.1 = p.initialPid) = true ∧
        (requested ≠ none ∨ p.initialPid = p.minPid))
      ↔ IsInitial number requestedPid lines pid := by
  have hknown : p.initialPid = some pid →
      ((p.entries.any fun e => some e.1 = p.initialPid) = true ↔ pid ∈ pidsOf lines) := by
    intro hinitial
    rw [hinitial, ← h.entries]
    simp only [List.any_eq_true, List.mem_map, Option.some.injEq, decide_eq_true_eq]
  unfold IsInitial
  rw [hrequested]
  cases requested with
  | some q =>
      have hinitial : p.initialPid = some q := h.initialPid
      constructor
      · rintro ⟨hpid, hin, -⟩
        rw [hinitial, Option.some.injEq] at hpid
        subst hpid
        exact ⟨rfl, (hknown hinitial).mp hin⟩
      · rintro ⟨rfl, hin⟩
        exact ⟨hinitial, (hknown hinitial).mpr hin, Or.inl (Option.some_ne_none _)⟩
  | none =>
      have hinitial : p.initialPid = (pidsOf lines).head? := h.initialPid
      constructor
      · rintro ⟨hpid, -, hmin⟩
        have hsmallest : (pidsOf lines).min? = some pid := by
          rcases hmin with hnone | hmin
          · exact absurd rfl hnone
          · rw [← h.minPid, ← hmin, hpid]
        exact ⟨hinitial ▸ hpid, (List.min?_eq_some_iff.mp hsmallest).2⟩
      · rintro ⟨hhead, hsmallest⟩
        have hmem := List.mem_of_mem_head? hhead
        have hpid := hinitial.trans hhead
        refine ⟨hpid, (hknown hpid).mpr hmem, Or.inr ?_⟩
        rw [hpid, h.minPid, List.min?_eq_some_iff.mpr ⟨hmem, hsmallest⟩]

/-- The index and the dedicated scan. For every file whose PIDs are in the range of `int` and
every requested PID, the index comes with an initial series exactly when there is such a
process, and then the PID, the series and the name are those that `buildPidSeries` returns for
it on the same file. -/
theorem prepareFile_initialSeries
    (hpids : ∀ pid ∈ pidsOf lines, -2 ^ 31 ≤ pid ∧ pid < 2 ^ 31) :
    let r := prepareFile number env requestedPid lines
    (r.initialSeries ≠ none ↔ ∃ pid, IsInitial number requestedPid lines pid) ∧
    ∀ series, r.initialSeries = some series → ∃ pid,
      IsInitial number requestedPid lines pid ∧ r.initialPid = some (pidText pid) ∧
      buildPidSeries number env (some (pidText pid)) lines
        = .ok ⟨pidText pid, r.initialComm, series⟩ := by
  intro r
  have h := preparedFrom_foldl env (normalizePid number requestedPid) lines
  have hiff := canReuse_iff number env requestedPid lines rfl h
  have hr : r = prepareFile number env requestedPid lines := rfl
  unfold prepareFile at hr
  simp only at hr
  generalize lines.foldl (prepareLine env) _ = p at h hiff hr
  by_cases hreuse : (p.entries.any fun e => some e.1 = p.initialPid) = true ∧
      (normalizePid number requestedPid ≠ none ∨ p.initialPid = p.minPid)
  · -- Some entry has the initial PID.
    obtain ⟨e, hin, he⟩ := List.any_eq_true.mp hreuse.1
    have hinitial : p.initialPid = some e.1 := (of_decide_eq_true he).symm
    have hspec := (hiff e.1).mp ⟨hinitial, hreuse⟩
    have hseries : r.initialSeries = some p.initialSeries := by
      rw [hr]
      exact if_pos hreuse
    refine ⟨⟨fun _ => ⟨e.1, hspec⟩, fun _ => by rw [hseries]; exact Option.some_ne_none _⟩, ?_⟩
    intro series hsome
    rw [hseries, Option.some.injEq] at hsome
    refine ⟨e.1, hspec, ?_, ?_⟩
    · rw [hr]
      exact (if_pos hreuse).trans (by rw [hinitial]; rfl)
    · have hmem : e.1 ∈ pidsOf lines := by
        rw [← h.entries]
        exact List.mem_map.mpr ⟨e, hin, rfl⟩
      have hrange := hpids e.1 hmem
      have hfold : (p.initialComm, p.initialSeries)
          = lines.foldl (seriesLine env e.1) ([], {}) := by
        rw [h.initialSeries, hinitial]
      have hcomm : r.initialComm = p.initialComm := by rw [hr]
      rw [buildPidSeries, normalizePid_pidText number (by omega)]
      simp only
      rw [← hfold, hcomm, hsome]
  · have hseries : r.initialSeries = none := by
      rw [hr]
      exact if_neg hreuse
    refine ⟨⟨fun hne => absurd hseries hne, ?_⟩, fun series hsome => ?_⟩
    · rintro ⟨pid, hpid⟩
      exact absurd ((hiff pid).mpr hpid).2 hreuse
    · rw [hseries] at hsome
      cases hsome

end Main

/-- A file of two lines with the PIDs 7 and 9. -/
def twoLines : List (List Char) :=
  ["\x7b\"pid\":7,\"comm\":\"a\"\x7d".toList, "\x7b\"pid\":9,\"comm\":\"b\"\x7d".toList]

theorem pidsOf_twoLines : pidsOf twoLines = [7, 9] := by decide +kernel

/-- A browser that runs in UTC and reads no other time format. -/
def utcEnv : DateEnv := ⟨fun _ => 0, fun _ => none, fun _ => by decide⟩

/-- Without a requested PID the index of this file comes with the diagrams of process 7. -/
theorem prepareFile_twoLines :
    (prepareFile (fun _ => none) utcEnv none twoLines).initialSeries ≠ none := by
  have hinitial : IsInitial (fun _ => none) none twoLines 7 := by
    show (pidsOf twoLines).head? = some 7 ∧ ∀ other ∈ pidsOf twoLines, 7 ≤ other
    rw [pidsOf_twoLines]
    decide
  refine (prepareFile_initialSeries (fun _ => none) utcEnv none twoLines ?_).1.mpr ⟨7, hinitial⟩
  rw [pidsOf_twoLines]
  decide

end ProcessAnalyzer.Dashboard
