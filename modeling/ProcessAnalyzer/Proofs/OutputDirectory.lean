import ProcessAnalyzer.Proofs.MkdirLoop

/-!
# `ProcessAnalyzer.Proofs.OutputDirectory`: `mkdir_p` for every configured path

`mkdir_p` calls `mkdir` for the prefixes of the path, from the root downwards. `DirLaws` is what
the system call says about the directories of the file system.

* `take_mem_pathPrefixes`: everything in front of a slash of the path is among the calls.
* `mkdirPRun_eq_mkdirP`: the result is the one of `mkdirP`, unless the path is empty.
* `mkdirSound_iff`: the accesses are inside the copied path, and the directories exist
  afterwards, exactly when the path is not empty.
-/

set_option autoImplicit false

namespace ProcessAnalyzer

open ProcessAnalyzer.Lib

/-! ### The prefixes -/

/-- A path that has `p` as a proper prefix. -/
def Below (p q : Bytes) : Prop := p <+: q ∧ p.length < q.length

theorem prefix_of_mem_prefixesFrom {walked todo q : Bytes} (h : q ∈ prefixesFrom walked todo) :
    walked <+: q := by
  induction todo generalizing walked with
  | nil => exact (List.mem_singleton.mp h) ▸ List.prefix_refl _
  | cons b todo ih =>
      have hrest : q ∈ prefixesFrom (walked ++ [b]) todo → walked <+: q := fun h =>
        (List.prefix_append walked [b]).trans (ih h)
      rw [prefixesFrom] at h
      split at h
      · rcases List.mem_cons.mp h with rfl | hmem
        · exact List.prefix_refl _
        · exact hrest hmem
      · exact hrest h

/-- The calls go from the root downwards. -/
theorem pairwise_prefixesFrom (walked todo : Bytes) :
    (prefixesFrom walked todo).Pairwise Below := by
  induction todo generalizing walked with
  | nil => exact List.pairwise_singleton _ _
  | cons b todo ih =>
      rw [prefixesFrom]
      split
      · refine List.pairwise_cons.mpr ⟨fun q hq => ?_, ih _⟩
        have hprefix := prefix_of_mem_prefixesFrom hq
        have hlen := hprefix.length_le
        rw [List.length_append, List.length_singleton] at hlen
        exact ⟨(List.prefix_append walked [b]).trans hprefix, hlen⟩
      · exact ih _

/-- The whole path is among them. -/
theorem self_mem_prefixesFrom (walked todo : Bytes) :
    walked ++ todo ∈ prefixesFrom walked todo := by
  induction todo generalizing walked with
  | nil => simp [prefixesFrom]
  | cons b todo ih =>
      have hrest := ih (walked ++ [b])
      rw [List.append_assoc, List.singleton_append] at hrest
      rw [prefixesFrom]
      split
      · exact List.mem_cons_of_mem _ hrest
      · exact hrest

/-- And so is everything in front of a slash. -/
theorem take_mem_prefixesFrom {walked todo : Bytes} {i : ℕ} (hi : walked.length ≤ i)
    (hslash : (walked ++ todo)[i]? = some 47) :
    (walked ++ todo).take i ∈ prefixesFrom walked todo := by
  induction todo generalizing walked with
  | nil =>
      rw [List.append_nil, List.getElem?_eq_none hi] at hslash
      cases hslash
  | cons b todo ih =>
      have hsplit : walked ++ b :: todo = (walked ++ [b]) ++ todo := by simp
      rw [prefixesFrom]
      by_cases heq : i = walked.length
      · rw [heq, List.getElem?_append_right (le_refl _), Nat.sub_self] at hslash
        rw [if_pos (Option.some.inj hslash), heq, List.take_left]
        exact List.mem_cons_self
      · have hrest : (walked ++ b :: todo).take i ∈ prefixesFrom (walked ++ [b]) todo := by
          rw [hsplit] at hslash ⊢
          refine ih ?_ hslash
          rw [List.length_append, List.length_singleton]
          omega
        split
        · exact List.mem_cons_of_mem _ hrest
        · exact hrest

theorem pairwise_pathPrefixes (path : Bytes) : (pathPrefixes path).Pairwise Below := by
  unfold pathPrefixes
  split
  · exact List.pairwise_singleton _ _
  · exact pairwise_prefixesFrom _ _

/-- The path without its trailing slash is among the calls. -/
theorem trimSlash_mem_pathPrefixes (path : Bytes) : trimSlash path ∈ pathPrefixes path := by
  unfold pathPrefixes
  split
  · rename_i htrim
    rw [htrim]
    exact List.mem_singleton_self _
  · rename_i b rest htrim
    rw [htrim]
    exact self_mem_prefixesFrom [b] rest

/-- A path is what is left of it, or that and a slash. -/
theorem trimSlash_cases (path : Bytes) :
    path = trimSlash path ∨ path = trimSlash path ++ [47] := by
  unfold trimSlash
  split
  · rename_i hlast
    right
    have hne : path ≠ [] := by
      rintro rfl
      cases hlast
    have hbyte : path.getLast hne = 47 := by
      rw [List.getLast?_eq_some_getLast hne] at hlast
      exact Option.some.inj hlast
    rw [← hbyte, List.dropLast_append_getLast]
  · exact Or.inl rfl

/-- Everything that is not empty and stands in front of a slash is among the calls. -/
theorem take_mem_pathPrefixes {path : Bytes} {i : ℕ} (hi : 0 < i) (hslash : path[i]? = some 47) :
    path.take i ∈ pathPrefixes path := by
  by_cases hend : i = (trimSlash path).length
  · -- This is the slash that is removed.
    have htake : path.take i = trimSlash path := by
      rcases trimSlash_cases path with hpath | hpath
      · rw [hpath, hend, List.getElem?_eq_none (le_refl _)] at hslash
        cases hslash
      · calc path.take i
          _ = (trimSlash path ++ [47]).take i := congrArg (List.take i) hpath
          _ = trimSlash path := by rw [hend, List.take_left]
    exact htake ▸ trimSlash_mem_pathPrefixes path
  · have hlt : i < (trimSlash path).length := by
      have hlen : i < path.length := (List.getElem?_eq_some_iff.mp hslash).1
      rcases trimSlash_cases path with hpath | hpath
      · exact hpath ▸ hlen
      · rw [hpath, List.length_append, List.length_singleton] at hlen
        omega
    have hsame : path[i]? = (trimSlash path)[i]? ∧ path.take i = (trimSlash path).take i := by
      rcases trimSlash_cases path with hpath | hpath
      · rw [← hpath]
        exact ⟨rfl, rfl⟩
      · have hget : (trimSlash path ++ [47])[i]? = (trimSlash path)[i]? :=
          List.getElem?_append_left hlt
        have htake : (trimSlash path ++ [47]).take i = (trimSlash path).take i :=
          List.take_append_of_le_length (Nat.le_of_lt hlt)
        rw [← hpath] at hget htake
        exact ⟨hget, htake⟩
    rw [hsame.2]
    rw [hsame.1] at hslash
    unfold pathPrefixes
    split
    · rename_i htrim
      rw [htrim] at hlt
      cases hlt
    · rename_i b rest htrim
      rw [htrim] at hslash ⊢
      have hone : ([b] : Bytes).length ≤ i := hi
      exact take_mem_prefixesFrom hone hslash

/-! ### The result -/

/-- The system call of a configuration environment, which has no state. -/
def ConfigEnv.mkdirCall (env : ConfigEnv) : Unit → Bytes → Unit × MkdirResult :=
  fun _ path => ((), if path = [] then .failed else env.mkdir path)

/-- Calls without a state are all accepted, or one of them is not. -/
theorem ok_mkdirEach_mkdirCall (env : ConfigEnv) (paths : List Bytes) :
    (mkdirEach env.mkdirCall paths ()).ok = paths.all (mkdirAccepts env) := by
  induction paths with
  | nil => rfl
  | cons path paths ih =>
      have hcall : (env.mkdirCall () path).2 = .failed ↔ mkdirAccepts env path = false := by
        unfold ConfigEnv.mkdirCall mkdirAccepts
        by_cases hne : path = [] <;> simp [hne]
      rw [List.all_cons, mkdirEach]
      by_cases hfail : (env.mkdirCall () path).2 = .failed
      · rw [hcall.mp hfail, Bool.false_and]
        simp only [hfail, if_true]
      · have haccepts : mkdirAccepts env path = true := by
          rw [← Bool.not_eq_false]
          exact fun h => hfail (hcall.mpr h)
        rw [haccepts, Bool.true_and, ← ih]
        simp only [hfail, if_false]

/-- The prefixes by their lengths. -/
theorem prefixesFrom_eq (walked todo : Bytes) :
    prefixesFrom walked todo
      = ((List.range' walked.length todo.length).filter fun i =>
          (walked ++ todo)[i]? = some 47).map (walked ++ todo).take ++ [walked ++ todo] := by
  induction todo generalizing walked with
  | nil => simp [prefixesFrom]
  | cons b todo ih =>
      have hsplit : walked ++ b :: todo = (walked ++ [b]) ++ todo := by simp
      have hbyte : (walked ++ b :: todo)[walked.length]? = some b := by
        rw [List.getElem?_append_right (le_refl _), Nat.sub_self]
        rfl
      have hrest := ih (walked ++ [b])
      rw [← hsplit, List.length_append, List.length_singleton] at hrest
      rw [prefixesFrom, List.length_cons, List.range'_succ, List.filter_cons, hbyte, hrest]
      by_cases hslash : b = 47
      · simp [hslash]
      · simp [hslash]

/-- `mkdirP` calls `mkdir` for the same paths. -/
theorem mkdirP_eq (env : ConfigEnv) {path : Bytes} (hlen : path.length < pathMax) :
    mkdirP env path = (pathPrefixes path).all (mkdirAccepts env) := by
  have hprefixes : ∀ trimmed : Bytes, trimSlash path = trimmed →
      pathPrefixes path = ((List.range trimmed.length).filter fun i =>
        1 ≤ i ∧ trimmed[i]? = some 47).map trimmed.take ++ [trimmed] := by
    intro trimmed htrim
    unfold pathPrefixes
    rw [htrim]
    cases trimmed with
    | nil => rfl
    | cons b todo =>
        have hrange : List.range (b :: todo).length = 0 :: List.range' 1 todo.length := by
          rw [List.range_eq_range', List.length_cons, List.range'_succ]
        have hone : ∀ i ∈ List.range' 1 todo.length,
            decide (([b] ++ todo)[i]? = some 47)
              = decide (1 ≤ i ∧ (b :: todo)[i]? = some 47) := by
          intro i hi
          rw [List.mem_range'_1] at hi
          simp [hi.1]
        show prefixesFrom [b] todo = _
        rw [prefixesFrom_eq, List.length_singleton, List.filter_congr hone, hrange,
          List.filter_cons, if_neg (by simp)]
        rfl
  rw [mkdirP, if_neg (Nat.not_le.mpr hlen), hprefixes _ rfl]
  rfl

/-- On its buffer, `mkdir_p` has the result of `mkdirP` for every path that is not empty. -/
theorem mkdirPRun_eq_mkdirP (env : ConfigEnv) (outside : UInt8) (stale : Bytes) {path : Bytes}
    (hne : path ≠ []) (hnul : (0 : UInt8) ∉ path) (hlen : path.length < pathMax) :
    (mkdirPRun env.mkdirCall outside stale path ()).2 = some (mkdirP env path) := by
  rw [(mkdirPRun_runsAs env.mkdirCall outside stale () hne hnul hlen).result,
    ok_mkdirEach_mkdirCall, mkdirP_eq env hlen]

/-! ### The directories -/

section Laws
variable {σ : Type} {mkdir : σ → Bytes → σ × MkdirResult} {isDir : σ → Bytes → Prop}

/-- What the system call says about the directories: it fails for an empty path; a path that is
created, or exists already, is a directory; directories stay; and a slash behind the path of a
directory does not matter. -/
structure DirLaws (mkdir : σ → Bytes → σ × MkdirResult) (isDir : σ → Bytes → Prop) : Prop where
  nil : ∀ fs, (mkdir fs []).2 = .failed
  accepted : ∀ fs path, (mkdir fs path).2 ≠ .failed → isDir (mkdir fs path).1 path
  keep : ∀ fs path dir, isDir fs dir → isDir (mkdir fs path).1 dir
  slash : ∀ fs path, path ≠ [] → isDir fs path → isDir fs (path ++ [47])

/-- The calls are made in order. -/
theorem calls_mkdirEach (mkdir : σ → Bytes → σ × MkdirResult) (paths : List Bytes)
    (fs : σ) : (mkdirEach mkdir paths fs).calls <+: paths := by
  induction paths generalizing fs with
  | nil => exact List.prefix_refl _
  | cons path paths ih =>
      by_cases hfail : (mkdir fs path).2 = .failed
      · rw [mkdirEach_of_failed mkdir paths hfail, mkdirEach_singleton]
        exact ⟨paths, rfl⟩
      · rw [mkdirEach]
        simp only [hfail, if_false]
        exact (List.prefix_cons_inj path).mpr (ih _)

/-- Without an error, all of them are made, and all paths are directories in the end. -/
theorem DirLaws.of_ok (h : DirLaws mkdir isDir) (paths : List Bytes) (fs : σ)
    (hok : (mkdirEach mkdir paths fs).ok = true) :
    (mkdirEach mkdir paths fs).calls = paths ∧
    (∀ dir, isDir fs dir → isDir (mkdirEach mkdir paths fs).fs dir) ∧
    ∀ path ∈ paths, path ≠ [] ∧ isDir (mkdirEach mkdir paths fs).fs path := by
  induction paths generalizing fs with
  | nil => exact ⟨rfl, fun _ hdir => hdir, by simp⟩
  | cons path paths ih =>
      by_cases hfail : (mkdir fs path).2 = .failed
      · rw [mkdirEach_of_failed mkdir paths hfail, mkdirEach_singleton] at hok
        simp [hfail] at hok
      · have hne : path ≠ [] := by
          rintro rfl
          exact hfail (h.nil fs)
        rw [mkdirEach] at hok ⊢
        simp only [hfail, if_false] at hok ⊢
        obtain ⟨hcalls, hkeep, hdirs⟩ := ih (mkdir fs path).1 hok
        refine ⟨by rw [hcalls], fun dir hdir => hkeep dir (h.keep fs path dir hdir), ?_⟩
        intro q hq
        rcases List.mem_cons.mp hq with rfl | hmem
        · exact ⟨hne, hkeep q (h.accepted fs q hfail)⟩
        · exact hdirs q hmem

/-- `mkdir_p` is sound for a path: the accesses are inside the copied string, the loop ends, the
calls go from the root downwards, and after the result 0 everything that stands in front of a
slash has been called for and is a directory, as is the path itself. -/
structure MkdirSound (isDir : σ → Bytes → Prop) (path : Bytes) (r : MkdirRun σ × Option Bool) :
    Prop where
  within : ∀ i ∈ r.1.accesses, i ≤ path.length
  terminates : r.2.isSome = true
  order : r.1.calls.Pairwise Below
  created : r.2 = some true → ∀ i, 0 < i → path[i]? = some 47 →
    path.take i ∈ r.1.calls ∧ isDir r.1.fs (path.take i)
  whole : r.2 = some true → isDir r.1.fs path

/-- It is sound for every path that is not empty and fits into the buffer. -/
theorem DirLaws.mkdirSound (h : DirLaws mkdir isDir) (outside : UInt8) (stale : Bytes)
    {path : Bytes} (fs : σ) (hne : path ≠ []) (hnul : (0 : UInt8) ∉ path)
    (hlen : path.length < pathMax) :
    MkdirSound isDir path (mkdirPRun mkdir outside stale path fs) := by
  have hrun := mkdirPRun_runsAs mkdir outside stale fs hne hnul hlen
  have hcalls : (mkdirPRun mkdir outside stale path fs).1.calls
      = (mkdirEach mkdir (pathPrefixes path) fs).calls := hrun.calls
  refine ⟨fun i hi => (hrun.accesses i hi).resolve_left (List.not_mem_nil), ?_, ?_, ?_, ?_⟩
  · rw [hrun.result]
    rfl
  · rw [hcalls]
    exact (pairwise_pathPrefixes path).sublist (calls_mkdirEach _ _ _).sublist
  · intro hok i hi hslash
    rw [hrun.result, Option.some.injEq] at hok
    obtain ⟨hall, -, hdirs⟩ := h.of_ok _ _ hok
    have hmem := take_mem_pathPrefixes hi hslash
    rw [hcalls, hall, hrun.fs]
    exact ⟨hmem, (hdirs _ hmem).2⟩
  · intro hok
    rw [hrun.result, Option.some.injEq] at hok
    obtain ⟨-, -, hdirs⟩ := h.of_ok _ _ hok
    obtain ⟨hnil, hdir⟩ := hdirs _ (trimSlash_mem_pathPrefixes path)
    rw [hrun.fs]
    generalize (mkdirEach mkdir (pathPrefixes path) fs).fs = final at hdir ⊢
    rcases trimSlash_cases path with hpath | hpath
    · exact hpath ▸ hdir
    · exact hpath ▸ h.slash _ _ hnil hdir

/-- The loop keeps the accesses that were made before. -/
theorem mem_accesses_mkdirLoop {i : ℕ} (n p : ℕ) (r : MkdirRun σ) (hi : i ∈ r.accesses) :
    i ∈ (mkdirLoop mkdir n p r).1.accesses := by
  induction n generalizing p r with
  | zero => exact List.mem_append_left _ hi
  | succ n ih =>
      have htouch : i ∈ (r.touch [p]).accesses := List.mem_append_left _ hi
      have hcall : i ∈ (((r.touch [p]).store p 0).mkdirTmp mkdir).1.accesses :=
        List.mem_append_left _ (List.mem_append_left _ htouch)
      rw [mkdirLoop]
      dsimp only
      split
      · exact List.mem_append_left _ htouch
      · split
        · split
          · exact hcall
          · exact ih _ _ (List.mem_append_left _ hcall)
        · exact ih _ _ htouch

/-- For an empty path, a byte outside of the buffer is read. -/
theorem not_mkdirSound_nil (outside : UInt8) (stale : Bytes) (fs : σ) :
    ¬ MkdirSound isDir [] (mkdirPRun mkdir outside stale [] fs) := by
  intro h
  have hmem : 2 ^ 64 - 1 ∈ (mkdirPRun mkdir outside stale [] fs).1.accesses := by
    unfold mkdirPRun
    rw [if_neg (by decide)]
    refine mem_accesses_mkdirLoop _ _ _ ?_
    split
    · exact List.mem_append_left _ (List.mem_append_right _ (List.mem_singleton_self _))
    · exact List.mem_append_right _ (List.mem_singleton_self _)
  exact absurd (h.within _ hmem) (by decide)

/-- For every output directory that the configuration accepts, `mkdir_p` is sound if and only
if the path is not empty. -/
theorem mkdirSound_iff (h : DirLaws mkdir isDir) {c c' : Config} {value : Bytes}
    (hnul : (0 : UInt8) ∉ value) (hset : configSetOption (ascii "output_dir") value c = some c')
    (outside : UInt8) (stale : Bytes) (fs : σ) :
    MkdirSound isDir c'.outputDir (mkdirPRun mkdir outside stale c'.outputDir fs) ↔
      c'.outputDir ≠ [] := by
  have hvalue : c'.outputDir = value ∧ value.length < pathMax := by
    rw [configSetOption, if_pos rfl] at hset
    split at hset
    · cases hset
    · rename_i hlen
      cases hset
      exact ⟨rfl, Nat.not_le.mp hlen⟩
  constructor
  · intro hsound hnil
    rw [hnil] at hsound
    exact not_mkdirSound_nil outside stale fs hsound
  · intro hne
    rw [hvalue.1] at hne ⊢
    exact h.mkdirSound outside stale fs hne hnul hvalue.2

end Laws

/-! ### A file system -/

/-- A path without its trailing slashes. -/
def bareName (path : Bytes) : Bytes := (path.reverse.dropWhile (· = 47)).reverse

/-- `mkdir` on the list of the directories that exist: the parent of a new one must exist. -/
def listMkdir (dirs : List Bytes) (path : Bytes) : List Bytes × MkdirResult :=
  let name := bareName path
  let parent := bareName (name.reverse.dropWhile (· ≠ 47)).reverse
  if path = [] then (dirs, .failed)
  else if dirs.any (· = name) then (dirs, .alreadyExists)
  else if dirs.any (· = parent) then (name :: dirs, .created)
  else (dirs, .failed)

theorem listMkdir_cases (dirs : List Bytes) (path : Bytes) :
    (listMkdir dirs path = (dirs, .failed)) ∨
    (listMkdir dirs path = (dirs, .alreadyExists) ∧ bareName path ∈ dirs) ∨
    listMkdir dirs path = (bareName path :: dirs, .created) := by
  unfold listMkdir
  dsimp only
  split
  · exact Or.inl rfl
  · split
    · rename_i hany
      exact Or.inr (Or.inl ⟨rfl, by simpa using hany⟩)
    · split
      · exact Or.inr (Or.inr rfl)
      · exact Or.inl rfl

theorem dirLaws_listMkdir : DirLaws listMkdir fun dirs path => bareName path ∈ dirs := by
  refine ⟨fun dirs => rfl, ?_, ?_, ?_⟩
  · intro dirs path haccepted
    rcases listMkdir_cases dirs path with h | ⟨h, hmem⟩ | h
    · rw [h] at haccepted
      exact absurd rfl haccepted
    · rw [h]
      exact hmem
    · rw [h]
      exact List.mem_cons_self
  · intro dirs path dir hdir
    rcases listMkdir_cases dirs path with h | ⟨h, -⟩ | h
    · rw [h]
      exact hdir
    · rw [h]
      exact hdir
    · rw [h]
      exact List.mem_cons_of_mem _ hdir
  · intro dirs path _ hdir
    have hname : bareName (path ++ [47]) = bareName path := by simp [bareName]
    show bareName (path ++ [47]) ∈ dirs
    exact hname ▸ hdir

/-- A directory in `/tmp`, with a repeated and a trailing slash. -/
theorem mkdirSound_tmp :
    MkdirSound (fun dirs path => bareName path ∈ dirs) (ascii "/tmp//x/")
      (mkdirPRun listMkdir 0 [] (ascii "/tmp//x/") [[], ascii "/tmp"]) :=
  (mkdirSound_iff dirLaws_listMkdir (c := configurationZero) (by decide)
    (show configSetOption (ascii "output_dir") (ascii "/tmp//x/") configurationZero
      = some { configurationZero with outputDir := ascii "/tmp//x/" } by decide) 0 [] _).mpr
    (by decide)

/-- The line `output_dir=` is accepted, and the byte in front of the buffer is read. -/
theorem not_mkdirSound_empty :
    configLine (ascii "output_dir=\n") = .option (ascii "output_dir") [] ∧
    configSetOption (ascii "output_dir") [] configurationZero
      = some { configurationZero with outputDir := [] } ∧
    ¬ MkdirSound (fun dirs path => bareName path ∈ dirs) []
      (mkdirPRun listMkdir 0 [] [] [[], ascii "/tmp"]) :=
  ⟨by decide, by decide, not_mkdirSound_nil 0 [] _⟩

end ProcessAnalyzer
