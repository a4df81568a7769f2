import ProcessAnalyzer.Model.OutputDirectory

/-!
# `ProcessAnalyzer.Proofs.MkdirLoop`: the loop of `mkdir_p`

The loop edits the buffer that it walks over. In front of every round the buffer is the walked
part of the path, the part that is left and a NUL, so the calls of `mkdir` are those for the
prefixes of the path.

* `AccessesUpTo`: the new accesses are up to an index. Every operation on the buffer has a
  lemma about it.
* `mkdirLoop_runsAs`: the loop makes the calls of `mkdirEach`, and reads and writes no byte
  behind the NUL.
* `mkdirPRun_runsAs`: so does the whole function, for a path that is not empty.
-/

set_option autoImplicit false

namespace ProcessAnalyzer

open ProcessAnalyzer.Lib

section Run
variable {σ : Type} (mkdir : σ → Bytes → σ × MkdirResult)

/-! ### The accesses -/

/-- The accesses that `r'` has and `r` does not have are up to an index. -/
def AccessesUpTo (last : ℕ) (r r' : MkdirRun σ) : Prop :=
  ∀ i ∈ r'.accesses, i ∈ r.accesses ∨ i ≤ last

theorem AccessesUpTo.trans {last : ℕ} {r₁ r₂ r₃ : MkdirRun σ} (h₁ : AccessesUpTo last r₁ r₂)
    (h₂ : AccessesUpTo last r₂ r₃) : AccessesUpTo last r₁ r₃ := by
  intro i hi
  rcases h₂ i hi with hold | hle
  · exact h₁ i hold
  · exact Or.inr hle

theorem accessesUpTo_touch {last : ℕ} (r : MkdirRun σ) {is : List ℕ} (h : ∀ i ∈ is, i ≤ last) :
    AccessesUpTo last r (r.touch is) := by
  intro i hi
  rcases List.mem_append.mp hi with hold | hnew
  · exact Or.inl hold
  · exact Or.inr (h i hnew)

theorem accessesUpTo_store {last i : ℕ} (r : MkdirRun σ) (b : UInt8) (h : i ≤ last) :
    AccessesUpTo last r (r.store i b) :=
  accessesUpTo_touch r fun _ hj => List.mem_singleton.mp hj ▸ h

/-- The call of `mkdir` reads the string in the buffer and its NUL. -/
theorem accessesUpTo_mkdirTmp {last : ℕ} (r : MkdirRun σ) (h : (cString r.tmp).length ≤ last) :
    AccessesUpTo last r (r.mkdirTmp mkdir).1 :=
  accessesUpTo_touch r fun _ hi =>
    Nat.le_trans (Nat.lt_succ_iff.mp (List.mem_range.mp hi)) h

/-! ### The loop -/

/-- A run goes on from `r` with the calls of `ref`, and with accesses up to an index. -/
structure RunsAs (r : MkdirRun σ) (last : ℕ) (ref : MkdirCalls σ)
    (out : MkdirRun σ × Option Bool) : Prop where
  result : out.2 = some ref.ok
  fs : out.1.fs = ref.fs
  calls : out.1.calls = r.calls ++ ref.calls
  accesses : AccessesUpTo last r out.1

/-- A run may start earlier, when no call is made before. -/
theorem RunsAs.after {r r' : MkdirRun σ} {last : ℕ} {ref : MkdirCalls σ}
    {out : MkdirRun σ × Option Bool} (h : RunsAs r' last ref out) (hcalls : r'.calls = r.calls)
    (haccesses : AccessesUpTo last r r') : RunsAs r last ref out :=
  ⟨h.result, h.fs, hcalls ▸ h.calls, haccesses.trans h.accesses⟩

/-- The string in the buffer is what stands in front of the NUL. -/
theorem cString_append_zero {path : Bytes} (rest : Bytes) (hnul : (0 : UInt8) ∉ path) :
    cString (path ++ 0 :: rest) = path := by
  rw [cString_append_of_notMem hnul]
  simp [cString]

theorem mkdirEach_singleton (path : Bytes) (fs : σ) :
    mkdirEach mkdir [path] fs
      = ⟨(mkdir fs path).1, [path], (mkdir fs path).2 ≠ .failed⟩ := by
  unfold mkdirEach
  cases hcall : (mkdir fs path).2 <;> simp [hcall, mkdirEach]

/-- A single call, which ends a run. -/
theorem mkdirTmp_runsAs {r : MkdirRun σ} {path rest : Bytes} {last : ℕ}
    (hnul : (0 : UInt8) ∉ path) (htmp : r.tmp = path ++ 0 :: rest) (hlast : path.length ≤ last) :
    RunsAs r last (mkdirEach mkdir [path] r.fs)
      ((r.mkdirTmp mkdir).1, some (r.mkdirTmp mkdir).2) := by
  have hpath : cString r.tmp = path := by rw [htmp, cString_append_zero rest hnul]
  have haccesses := accessesUpTo_mkdirTmp mkdir r (hpath ▸ hlast)
  rw [mkdirEach_singleton]
  unfold MkdirRun.mkdirTmp at haccesses ⊢
  rw [hpath] at haccesses ⊢
  exact ⟨rfl, rfl, rfl, haccesses⟩

/-- The call leaves the buffer as it is. -/
theorem mkdirTmp_tmp (r : MkdirRun σ) : (r.mkdirTmp mkdir).1.tmp = r.tmp := rfl

/-- A call that is accepted is followed by the others. -/
theorem RunsAs.cons {r r' : MkdirRun σ} {path : Bytes} {paths : List Bytes} {last : ℕ}
    {out : MkdirRun σ × Option Bool} (hok : (mkdir r.fs path).2 ≠ .failed)
    (hfs : r'.fs = (mkdir r.fs path).1) (hcalls : r'.calls = r.calls ++ [path])
    (haccesses : AccessesUpTo last r r') (h : RunsAs r' last (mkdirEach mkdir paths r'.fs) out) :
    RunsAs r last (mkdirEach mkdir (path :: paths) r.fs) out := by
  have heach : mkdirEach mkdir (path :: paths) r.fs
      = ⟨(mkdirEach mkdir paths r'.fs).fs, path :: (mkdirEach mkdir paths r'.fs).calls,
          (mkdirEach mkdir paths r'.fs).ok⟩ := by
    rw [mkdirEach, hfs]
    exact if_neg hok
  rw [heach]
  refine ⟨h.result, h.fs, ?_, haccesses.trans h.accesses⟩
  rw [h.calls, hcalls, List.append_assoc, List.singleton_append]

/-- A call that is not accepted is the last one. -/
theorem mkdirEach_of_failed {fs : σ} {path : Bytes} (paths : List Bytes)
    (h : (mkdir fs path).2 = .failed) :
    mkdirEach mkdir (path :: paths) fs = mkdirEach mkdir [path] fs := by
  rw [mkdirEach, mkdirEach]
  simp only [h, if_true]

/-- The byte at the end of the walked part. -/
theorem getD_append_cons (walked rest : Bytes) (b d : UInt8) :
    (walked ++ b :: rest).getD walked.length d = b := by
  rw [List.getD_eq_getElem?_getD, List.getElem?_append_right (le_refl _), Nat.sub_self]
  rfl

theorem set_append_cons (walked rest : Bytes) (b c : UInt8) :
    (walked ++ b :: rest).set walked.length c = walked ++ c :: rest := by
  rw [List.set_append_right _ _ (le_refl _), Nat.sub_self]
  rfl

/-- The round at the end of the string: the last call. -/
theorem mkdirLoop_end_runsAs {walked rest : Bytes} {last : ℕ} (n : ℕ) (r : MkdirRun σ)
    (hnul : (0 : UInt8) ∉ walked) (htmp : r.tmp = walked ++ 0 :: rest)
    (hlast : walked.length ≤ last) :
    RunsAs r last (mkdirEach mkdir [walked] r.fs) (mkdirLoop mkdir (n + 1) walked.length r) := by
  have hbyte : r.tmp.getD walked.length 0 = 0 := by
    rw [htmp]
    exact getD_append_cons walked rest 0 0
  have htouch : AccessesUpTo last r (r.touch [walked.length]) :=
    accessesUpTo_touch r (by simpa using hlast)
  have hrun := mkdirTmp_runsAs mkdir (r := r.touch [walked.length]) hnul htmp hlast
  rw [mkdirLoop]
  simp only [hbyte, if_true]
  exact RunsAs.after hrun rfl htouch

/-- The round at a slash: the buffer ends there during the call and has the slash back
afterwards. Then the loop goes on. -/
theorem mkdirLoop_slash_runsAs {walked rest : Bytes} {last : ℕ} (n : ℕ) (r : MkdirRun σ)
    {paths : List Bytes} (hnul : (0 : UInt8) ∉ walked) (htmp : r.tmp = walked ++ 47 :: rest)
    (hlast : walked.length ≤ last)
    (hnext : ∀ r' : MkdirRun σ, r'.tmp = r.tmp →
      RunsAs r' last (mkdirEach mkdir paths r'.fs) (mkdirLoop mkdir n (walked.length + 1) r')) :
    RunsAs r last (mkdirEach mkdir (walked :: paths) r.fs)
      (mkdirLoop mkdir (n + 1) walked.length r) := by
  have hbyte : r.tmp.getD walked.length 0 = 47 := by
    rw [htmp]
    exact getD_append_cons walked rest 47 0
  have htouch : AccessesUpTo last r (r.touch [walked.length]) :=
    accessesUpTo_touch r (by simpa using hlast)
  have h47 : (47 : UInt8) ≠ 0 := by decide
  rw [mkdirLoop]
  simp only [hbyte, if_neg h47, if_true]
  generalize hdef : (r.touch [walked.length]).store walked.length 0 = cut
  have hfs : cut.fs = r.fs := by rw [← hdef]; rfl
  have hcalls : cut.calls = r.calls := by rw [← hdef]; rfl
  have hcut : cut.tmp = walked ++ 0 :: rest := by
    rw [← hdef]
    show r.tmp.set walked.length 0 = _
    rw [htmp]
    exact set_append_cons walked rest 47 0
  have hupTo : AccessesUpTo last r cut := hdef ▸ htouch.trans (accessesUpTo_store _ 0 hlast)
  have hrun := mkdirTmp_runsAs mkdir hnul hcut hlast
  have hrestore := mkdirTmp_tmp mkdir cut
  generalize cut.mkdirTmp mkdir = out at hrun hrestore ⊢
  obtain ⟨called, ok⟩ := out
  rw [hfs, mkdirEach_singleton] at hrun
  have hok : ok = decide ((mkdir r.fs walked).2 ≠ .failed) := Option.some.inj hrun.result
  by_cases hfail : (mkdir r.fs walked).2 = .failed
  · have hfalse : ok = false := by simp [hok, hfail]
    rw [mkdirEach_of_failed mkdir _ hfail, mkdirEach_singleton]
    simp only [hfalse, if_true]
    exact ⟨by simp [hfail], hrun.fs, hcalls ▸ hrun.calls, hupTo.trans hrun.accesses⟩
  · have htrue : ok = true := by simp [hok, hfail]
    simp only [htrue, Bool.true_eq_false, if_false]
    have hback : AccessesUpTo last r (called.store walked.length 47) :=
      hupTo.trans (AccessesUpTo.trans hrun.accesses (accessesUpTo_store _ 47 hlast))
    have hbuffer : (called.store walked.length 47).tmp = r.tmp := by
      show called.tmp.set walked.length 47 = _
      rw [hrestore, hcut, set_append_cons, htmp]
    refine RunsAs.cons mkdir hfail ?_ ?_ hback (hnext _ hbuffer)
    · exact hrun.fs
    · exact hcalls ▸ hrun.calls

/-- The round at another byte looks at it and goes on. -/
theorem mkdirLoop_of_other {r : MkdirRun σ} {p : ℕ} (n : ℕ) (h0 : r.tmp.getD p 0 ≠ 0)
    (h47 : r.tmp.getD p 0 ≠ 47) :
    mkdirLoop mkdir (n + 1) p r = mkdirLoop mkdir n (p + 1) (r.touch [p]) := by
  rw [mkdirLoop]
  simp only [if_neg h0, if_neg h47]

/-- The loop makes the calls for the prefixes that are left. The induction is on the part of
the path that is not walked over yet. -/
theorem mkdirLoop_runsAs (rest walked todo : Bytes) (n last : ℕ) (r : MkdirRun σ)
    (hnul : (0 : UInt8) ∉ walked ++ todo) (htmp : r.tmp = walked ++ (todo ++ 0 :: rest))
    (hn : todo.length < n) (hlast : (walked ++ todo).length ≤ last) :
    RunsAs r last (mkdirEach mkdir (prefixesFrom walked todo) r.fs)
      (mkdirLoop mkdir n walked.length r) := by
  induction todo generalizing walked n r with
  | nil =>
      obtain ⟨n, rfl⟩ := Nat.exists_eq_succ_of_ne_zero (Nat.ne_of_gt hn)
      rw [List.append_nil] at hnul hlast
      exact mkdirLoop_end_runsAs mkdir n r hnul htmp hlast
  | cons b todo ih =>
      obtain ⟨n, rfl⟩ := Nat.exists_eq_succ_of_ne_zero (Nat.ne_zero_of_lt hn)
      have hsplit : walked ++ b :: todo = (walked ++ [b]) ++ todo := by simp
      have hwalked : (0 : UInt8) ∉ walked := fun h => hnul (List.mem_append_left _ h)
      have hle : walked.length ≤ last := by
        rw [List.length_append] at hlast
        omega
      rw [List.length_cons] at hn
      rw [hsplit] at hnul hlast
      have hb : b ≠ 0 := by
        rintro rfl
        exact hnul (by simp)
      -- The rest of the loop, from any state with the same buffer.
      have hnext : ∀ r' : MkdirRun σ, r'.tmp = r.tmp →
          RunsAs r' last (mkdirEach mkdir (prefixesFrom (walked ++ [b]) todo) r'.fs)
            (mkdirLoop mkdir n (walked.length + 1) r') := by
        intro r' hsame
        have htmp' : r'.tmp = (walked ++ [b]) ++ (todo ++ 0 :: rest) := by
          rw [hsame, htmp, List.append_assoc, List.singleton_append, List.cons_append]
        have hrun := ih (walked ++ [b]) n r' hnul htmp' (by omega) hlast
        rwa [List.length_append, List.length_singleton] at hrun
      rw [prefixesFrom]
      by_cases hslash : b = 47
      · rw [if_pos hslash]
        exact mkdirLoop_slash_runsAs mkdir n r hwalked (hslash ▸ htmp) hle hnext
      · have hbyte : r.tmp.getD walked.length 0 = b := by
          rw [htmp]
          exact getD_append_cons walked _ b 0
        rw [if_neg hslash, mkdirLoop_of_other mkdir n (hbyte ▸ hb) (hbyte ▸ hslash)]
        exact RunsAs.after (hnext (r.touch [walked.length]) rfl) rfl
          (accessesUpTo_touch r (by simpa using hle))

/-! ### The whole function -/

/-- The loop from the first index on, when the buffer has the path without its trailing
slash. Of the path `/` nothing is left, and its first index has the NUL of the copy. -/
theorem mkdirLoop_pathPrefixes {path trimmed rest : Bytes} {last : ℕ} (r : MkdirRun σ)
    (htrim : trimSlash path = trimmed) (hnul : (0 : UInt8) ∉ trimmed)
    (htmp : r.tmp = trimmed ++ 0 :: rest) (hroot : trimmed = [] → rest.head? = some 0)
    (hlen : trimmed.length ≤ last) (hlast : 1 ≤ last) :
    RunsAs r last (mkdirEach mkdir (pathPrefixes path) r.fs)
      (mkdirLoop mkdir (r.tmp.length - 1) 1 r) := by
  cases trimmed with
  | nil =>
      obtain ⟨stale, rfl⟩ : ∃ stale, rest = 0 :: stale := by
        cases rest with
        | nil => simp at hroot
        | cons b stale => exact ⟨stale, by simpa using hroot rfl⟩
      have hprefixes : pathPrefixes path = [[]] := by rw [pathPrefixes, htrim]
      have hbyte : r.tmp.getD 1 0 = 0 := by rw [htmp]; rfl
      have hfuel : r.tmp.length - 1 = stale.length + 1 := by rw [htmp]; simp
      have htouch : AccessesUpTo last r (r.touch [1]) :=
        accessesUpTo_touch r (by simpa using hlast)
      have hrun := mkdirTmp_runsAs mkdir (r := r.touch [1]) hnul htmp hlen
      rw [hprefixes, hfuel, mkdirLoop]
      simp only [hbyte, if_true]
      exact RunsAs.after hrun rfl htouch
  | cons b todo =>
      have hprefixes : pathPrefixes path = prefixesFrom [b] todo := by rw [pathPrefixes, htrim]
      have hfuel : todo.length < r.tmp.length - 1 := by
        rw [htmp]
        simp only [List.length_append, List.length_cons]
        omega
      rw [hprefixes]
      exact mkdirLoop_runsAs mkdir rest [b] todo _ last r hnul htmp hfuel hlen

/-- For a path that is not empty, the run makes the calls for its prefixes. -/
theorem mkdirPRun_runsAs (outside : UInt8) (stale : Bytes) {path : Bytes} (fs : σ)
    (hne : path ≠ []) (hnul : (0 : UInt8) ∉ path) (hlen : path.length < pathMax) :
    RunsAs ⟨[], [], [], fs⟩ path.length (mkdirEach mkdir (pathPrefixes path) fs)
      (mkdirPRun mkdir outside stale path fs) := by
  obtain ⟨init, b, rfl⟩ : ∃ init b, path = init ++ [b] :=
    ⟨_, _, (List.dropLast_append_getLast hne).symm⟩
  have hlast : ((init ++ [b]).length + 2 ^ 64 - 1) % 2 ^ 64 = init.length := by
    rw [List.length_append, List.length_singleton] at hlen ⊢
    unfold pathMax at hlen
    omega
  let start : MkdirRun σ := ⟨init ++ [b] ++ [0] ++ stale,
    List.range ((init ++ [b]).length + 1) ++ [init.length], [], fs⟩
  have htmp : init ++ [b] ++ [0] ++ stale = init ++ b :: (0 :: stale) := by simp
  have hbyte : (init ++ [b] ++ [0] ++ stale).getD init.length outside = b := by
    rw [htmp]
    exact getD_append_cons init _ b outside
  have hinit : init.length ≤ (init ++ [b]).length := by simp
  have hstart : AccessesUpTo (init ++ [b]).length ⟨[], [], [], fs⟩ start := by
    intro i hi
    right
    rcases List.mem_append.mp hi with hcopy | hindex
    · exact Nat.lt_succ_iff.mp (List.mem_range.mp hcopy)
    · exact List.mem_singleton.mp hindex ▸ hinit
  unfold mkdirPRun
  rw [if_neg (Nat.not_le.mpr hlen)]
  simp only [hlast, hbyte, MkdirRun.touch]
  have hone : 1 ≤ (init ++ [b]).length := by simp
  by_cases hslash : b = 47
  · rw [if_pos hslash]
    have htrim : trimSlash (init ++ [b]) = init := by
      rw [trimSlash, List.getLast?_concat, List.dropLast_concat, if_pos (congrArg some hslash)]
    have hcut : (start.store init.length 0).tmp = init ++ 0 :: (0 :: stale) := by
      show (init ++ [b] ++ [0] ++ stale).set init.length 0 = _
      rw [htmp]
      exact set_append_cons init _ b 0
    have hrun := mkdirLoop_pathPrefixes mkdir (start.store init.length 0) htrim
      (fun h => hnul (List.mem_append_left _ h)) hcut (fun _ => rfl) hinit hone
    exact RunsAs.after hrun rfl (hstart.trans (accessesUpTo_store start 0 hinit))
  · rw [if_neg hslash]
    have htrim : trimSlash (init ++ [b]) = init ++ [b] := by
      rw [trimSlash, List.getLast?_concat, if_neg fun h => hslash (Option.some.inj h)]
    have hrun := mkdirLoop_pathPrefixes mkdir start htrim hnul
      (show start.tmp = (init ++ [b]) ++ 0 :: stale by simp [start])
      (fun h => absurd h hne) (le_refl _) hone
    exact RunsAs.after hrun rfl hstart

end Run

end ProcessAnalyzer
