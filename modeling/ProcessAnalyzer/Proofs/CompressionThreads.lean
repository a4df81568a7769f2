import ProcessAnalyzer.Proofs.CompressionSteps

/-!
# `ProcessAnalyzer.Proofs.CompressionThreads`: both threads keep the invariants

* `jobsInv_rotation` and `jobsInv_worker`: every step keeps what is known of the jobs. The
  lemmas `JobsInv.of_pending` and `JobsInv.of_slots` settle the steps that touch no job.
* `slotsInv_rotation` and `slotsInv_worker`: every step keeps the generations of the slots,
  when no job is under way at the rename of slot 1 (`SlotFilled`).
-/

set_option autoImplicit false

namespace ProcessAnalyzer

open ProcessAnalyzer.Lib

/-! ### Steps of the main thread -/

section Main
variable {filePath : Bytes} {M : ℕ} {s s' : Compression}

/-- A step that keeps the jobs and touches only slots and the active file keeps what is
known of the jobs. -/
theorem JobsInv.of_pending (h : JobsInv filePath s) (hpending : s'.pending = s.pending)
    (hworker : s'.worker = s.worker) (hrotated : s'.rotated = s.rotated)
    (hfiles : ∀ n : FileName, ¬ n.IsSlot → n ≠ .active → s'.files filePath n = s.files filePath n)
    (hopened : ¬ s'.main.closed → ∃ content, s'.files filePath .active = some (.raw content))
    (hclosed : s'.main.closed → s'.files filePath .active = none) :
    JobsInv filePath s' := by
  refine ⟨?_, ?_, hopened, hclosed, ?_⟩
  · rw [hpending]
    exact h.names
  · rw [hworker]
    exact h.original
  · intro t c hlast
    rw [hpending] at hlast ⊢
    rw [hworker, hrotated, hfiles (.unique t c) id (by simp), hfiles (.uniqueGz t c) id (by simp)]
    exact h.latest t c hlast

/-- A step between two places with an open file, which touches slots only, keeps what is
known of the jobs. -/
theorem JobsInv.of_slots (h : JobsInv filePath s) (hjobs : s'.jobs = s.jobs)
    (hworker : s'.worker = s.worker) (hrotated : s'.rotated = s.rotated)
    (hmain : s.main.pending = [] ∧ ¬ s.main.closed)
    (hmain' : s'.main.pending = [] ∧ ¬ s'.main.closed)
    (hfiles : ∀ n : FileName, ¬ n.IsSlot → s'.files filePath n = s.files filePath n) :
    JobsInv filePath s' := by
  have hpending : s'.pending = s.pending := by
    simp only [Compression.pending, hjobs, hworker, hmain.1, hmain'.1]
  refine h.of_pending hpending hworker hrotated (fun n hn _ => hfiles n hn) (fun _ => ?_)
    fun hclosed => absurd hclosed hmain'.2
  rw [hfiles .active id]
  exact h.opened hmain.2

/-- A rename of slots touches slots only. -/
theorem rename_slot_apply (d : Dir FileName FileData) {m n q : FileName} (hm : m.IsSlot)
    (hn : n.IsSlot) (hq : ¬ q.IsSlot) : (d.rename m n).1 q = d q :=
  Dir.rename_apply_of_ne d (fun h => hq (h ▸ hm)) (fun h => hq (h ▸ hn))

/-- A removal of a slot touches this slot only. -/
theorem unlink_slot_apply (d : Dir FileName FileData) {m q : FileName} (hm : m.IsSlot)
    (hq : ¬ q.IsSlot) : d.unlink m q = d q := by
  have hne : q ≠ m := fun h => hq (h ▸ hm)
  rw [Dir.unlink_apply, if_neg hne]

/-- The rename of a compressed slot: it moves, or the fallback is next. -/
theorem rotationStep_shiftGz {now : Int64} {i : ℕ} (hmain : s.main = .shiftGz i)
    (h : rotationStep filePath M now s = some s') :
    (∃ d, s' = { s with dir := d, main := loopHead true (i - 1) } ∧
      d.view (FileName.render filePath) = ((s.files filePath).rename (.gz i) (.gz (i + 1))).1 ∧
      s.files filePath (.gz i) ≠ none) ∨
    (s' = { s with main := .shiftPlain i } ∧ s.files filePath (.gz i) = none) := by
  simp only [rotationStep_eq, hmain] at h
  cases hsrc : s.dir (rotatedGzPath filePath (i : Int)) with
  | none =>
      rw [Dir.rename_of_none _ hsrc] at h
      exact .inr ⟨(Option.some.inj h).symm, hsrc⟩
  | some x =>
      have hview := files_rename filePath s (.gz i) (.gz (i + 1))
      have hok := Dir.rename_of_some (rotatedGzPath filePath ((i : Int) + 1)) hsrc
      rw [hok] at h
      refine .inl ⟨_, (Option.some.inj h).symm, ?_, ?_⟩
      · rw [← hview]
        exact congrArg (fun r => Dir.view (FileName.render filePath) r.1) hok.symm
      · show s.dir (rotatedGzPath filePath (i : Int)) ≠ none
        rw [hsrc]
        exact Option.some_ne_none x

/-- The rename of the active file makes it the latest job. -/
theorem jobsInv_renameActive (h : JobsInv filePath s) (hmain : s.main = .renameActive)
    {now : Int64} (hstep : rotationStep filePath M now s = some s') :
    JobsInv filePath s' ∧ ∃ r, s'.rotated = r :: s.rotated := by
  -- The active file is there until this rename, and its content is the new generation.
  obtain ⟨content, hactive⟩ := h.opened (by rw [hmain]; exact id)
  have hsrc : s.dir filePath = some (.raw content) := hactive
  simp only [rotationStep_eq, hmain, hsrc, addGeneration] at hstep
  cases hstep
  have hfiles : (s.dir.rename filePath (uniquePath filePath now s.rotationCounter)).1.view
      (FileName.render filePath)
      = ((s.files filePath).unlink .active).store (.unique now s.rotationCounter)
          (.raw content) := by
    have hmoved := Dir.rename_of_some (.unique now s.rotationCounter) hactive
    exact (files_rename filePath s .active (.unique now s.rotationCounter)).trans
      (congrArg Prod.fst hmoved)
  have hpending : s.pending = s.worker.pending ++ s.jobs := by
    simp [Compression.pending, hmain, MainPc.pending]
  refine ⟨⟨?_, h.original, fun hopen => absurd trivial hopen, fun _ => ?_, ?_⟩, content, rfl⟩
  · intro job hjob
    rcases List.mem_append.mp hjob with hold | hnew
    · exact h.names job (hpending ▸ hold)
    · exact ⟨now, s.rotationCounter, List.mem_singleton.mp hnew⟩
  · show (s.dir.rename _ _).1.view (FileName.render filePath) .active = none
    rw [hfiles, Dir.store_apply, if_neg (by simp), Dir.unlink_self]
  · intro t c hlast
    -- The latest job is the file that was renamed now.
    have hjob : uniquePath filePath now s.rotationCounter = uniquePath filePath t c := by
      simpa [Compression.pending, MainPc.pending] using hlast
    have hname : FileName.unique now s.rotationCounter = .unique t c :=
      render_injective filePath hjob
    cases hname
    refine ⟨content, rfl, ?_⟩
    -- A worker at a rename has a job of its own, so it is not the only one.
    rw [if_neg]
    · right
      show (s.dir.rename _ _).1.view (FileName.render filePath) (.unique _ _) = _
      rw [hfiles, Dir.store_apply, if_pos rfl]
    · rintro ⟨hlen, hworker⟩
      have hworker' : s.worker = .rename (uniquePath filePath now s.rotationCounter) := hworker
      simp [Compression.pending, MainPc.pending, WorkerPc.pending, hworker'] at hlen

/-- A step of a rotation keeps what is known of the jobs. -/
theorem jobsInv_rotation (h : JobsInv filePath s) {now : Int64}
    (hstep : rotationStep filePath M now s = some s') : JobsInv filePath s' := by
  cases hmain : s.main with
  | idle => simp [rotationStep_eq, hmain] at hstep
  | unlinkGz =>
      simp only [rotationStep_eq, hmain, Option.some.injEq] at hstep
      subst hstep
      refine h.of_slots rfl rfl rfl ⟨by rw [hmain]; rfl, by rw [hmain]; exact id⟩
        ⟨rfl, id⟩ fun n hn => ?_
      exact (congrFun (files_unlink filePath s (.gz M)) n).trans (unlink_slot_apply _ trivial hn)
  | unlinkPlain =>
      simp only [rotationStep_eq, hmain, Option.some.injEq] at hstep
      subst hstep
      refine h.of_slots rfl rfl rfl ⟨by rw [hmain]; rfl, by rw [hmain]; exact id⟩
        ⟨pending_loopHead _, closed_loopHead _⟩ fun n hn => ?_
      exact (congrFun (files_unlink filePath s (.plain M)) n).trans (unlink_slot_apply _ trivial hn)
  | shiftGz i =>
      have hopen : s.main.pending = [] ∧ ¬ s.main.closed := by
        rw [hmain]
        exact ⟨rfl, id⟩
      rcases rotationStep_shiftGz hmain hstep with ⟨d, rfl, hview, -⟩ | ⟨rfl, -⟩
      · refine h.of_slots rfl rfl rfl hopen ⟨pending_loopHead _, closed_loopHead _⟩ fun n hn => ?_
        exact (congrFun hview n).trans (rename_slot_apply _ trivial trivial hn)
      · exact h.of_slots rfl rfl rfl hopen ⟨rfl, id⟩ fun _ _ => rfl
  | shiftPlain i =>
      simp only [rotationStep_eq, hmain, Option.some.injEq] at hstep
      subst hstep
      refine h.of_slots rfl rfl rfl ⟨by rw [hmain]; rfl, by rw [hmain]; exact id⟩
        ⟨pending_loopHead _, closed_loopHead _⟩ fun n hn => ?_
      exact (congrFun (files_rename filePath s (.plain i) (.plain (i + 1))) n).trans
        (rename_slot_apply _ trivial trivial hn)
  | renameActive => exact (jobsInv_renameActive h hmain hstep).1
  | enqueue path =>
      simp only [rotationStep_eq, hmain, Option.some.injEq] at hstep
      subst hstep
      refine h.of_pending ?_ rfl rfl (fun _ _ _ => rfl) (fun hopen => absurd trivial hopen)
        fun _ => h.closed (by rw [hmain]; trivial)
      simp [Compression.pending, hmain, MainPc.pending]
  | reopen =>
      have hnone : s.dir filePath = none := h.closed (by rw [hmain]; trivial)
      simp only [rotationStep_eq, hmain, fopenCall_of_none hnone, Option.some.injEq] at hstep
      subst hstep
      have hfiles := files_store filePath s .active (.raw [])
      refine h.of_pending ?_ rfl rfl ?_ (fun _ => ⟨[], ?_⟩) fun hclosed => absurd hclosed id
      · simp [Compression.pending, hmain, MainPc.pending]
      · intro n _ hn
        exact (congrFun hfiles n).trans (by rw [Dir.store_apply, if_neg hn])
      · exact (congrFun hfiles .active).trans (by rw [Dir.store_apply, if_pos rfl])

/-- A step that keeps the jobs and the slots keeps the slots' generations. -/
theorem SlotsInv.of_pending (h : SlotsInv filePath M s) (hpending : s'.pending = s.pending)
    (hrotated : s'.rotated = s.rotated) (hintact : s'.main.intact M = s.main.intact M)
    (hvacant : ∀ i, s'.main = .shiftPlain i → s.rotated.length < i)
    (hbounds : ∀ i, s'.main = .shiftGz i ∨ s'.main = .shiftPlain i → 1 ≤ i ∧ i < M)
    (hfiles : ∀ j, s'.files filePath (.gz j) = s.files filePath (.gz j)) :
    SlotsInv filePath M s' := by
  refine ⟨?_, ?_, ?_, hbounds, ?_⟩
  · intro j r
    rw [hpending, hrotated, hintact, hfiles]
    exact h.kept j r
  · intro j r
    rw [hrotated, hintact, hfiles]
    exact h.shifted j r
  · rw [hrotated]
    exact hvacant
  · rw [hpending, hintact]
    exact h.behind

/-- The loop below slot `i + 1`, once that slot holds what slot `i` held. -/
theorem SlotsInv.of_shift {i : ℕ} (h : SlotsInv filePath M s) (hi : 1 ≤ i) (hiM : i < M)
    (hjobs : s'.jobs = s.jobs) (hworker : s'.worker = s.worker)
    (hrotated : s'.rotated = s.rotated) (hmain : s.main.pending = [])
    (hmain' : s'.main = loopHead true (i - 1)) (hintact : i - 1 ≤ s.main.intact M)
    (hintact' : s.main.intact M ≤ i)
    (hfilled : i = 1 → s.pending = [])
    (hslot : ∀ r, s.rotated[i - 1]? = some r →
      s'.files filePath (.gz (i + 1)) = some (.gzip (.raw r)))
    (hfiles : ∀ j, j ≠ i → j ≠ i + 1 → s'.files filePath (.gz j) = s.files filePath (.gz j)) :
    SlotsInv filePath M s' := by
  have hpending : s'.pending = s.pending := by
    simp only [Compression.pending, hjobs, hworker, hmain, hmain', pending_loopHead]
  -- Slot `i` is no longer intact, and slot `i + 1` has its generation.
  have hbelow : s'.main.intact M = i - 1 := by rw [hmain', intact_loopHead]
  refine ⟨?_, ?_, ?_, ?_, ?_⟩
  · intro j r hj hle hr
    rw [hpending] at hj
    rw [hbelow] at hle
    rw [hrotated] at hr
    rw [hfiles j (by omega) (by omega)]
    exact h.kept j r hj (by omega) hr
  · intro j r hle hjM hr
    rw [hbelow] at hle
    rw [hrotated] at hr
    rcases Nat.lt_or_ge (i + 1) j with hlt | hge
    · rw [hfiles j (by omega) (by omega)]
      exact h.shifted j r (by omega) hjM hr
    · obtain rfl : j = i + 1 := by omega
      exact hslot r hr
  · intro k hk
    exact absurd (hmain' ▸ hk) (loopHead_ne_shiftPlain _ _)
  · intro k hk
    rw [hmain'] at hk
    obtain ⟨hk1, rfl⟩ := shift_of_loopHead hk
    omega
  · intro hM
    rw [hpending, hbelow]
    exact ⟨(h.behind hM).1, fun h0 => hfilled (by omega)⟩

/-- The removal of the oldest compressed file: it is the only slot that is gone. -/
theorem slotsInv_unlinkGz (h : SlotsInv filePath M s) (hmain : s.main = .unlinkGz) :
    SlotsInv filePath M
      { s with dir := s.dir.unlink (rotatedGzPath filePath M), main := .unlinkPlain } := by
  have hfiles := files_unlink filePath s (.gz M)
  have hintact : s.main.intact M = M := by rw [hmain]; rfl
  have hpending : ∀ d, ({ s with dir := d, main := .unlinkPlain } : Compression).pending
      = s.pending := by
    intro d
    simp only [Compression.pending, hmain, MainPc.pending]
  refine ⟨?_, ?_, ?_, ?_, ?_⟩
  · intro j r hj hle hr
    have hbelow : j ≤ M - 1 := hle
    rw [hpending] at hj
    have hne : FileName.gz j ≠ .gz M := by
      intro hjM
      cases hjM
      omega
    refine (congrFun hfiles (.gz j)).trans ?_
    rw [Dir.unlink_apply, if_neg hne]
    exact h.kept j r hj (by omega) hr
  · intro j r hle hjM _
    have habove : M - 1 + 2 ≤ j := hle
    omega
  · intro i hi
    cases hi
  · intro i hi
    rcases hi with hi | hi <;> cases hi
  · intro hM
    rw [hpending]
    refine ⟨(h.behind hM).1, fun h0 => ?_⟩
    have hzero : M - 1 = 0 := h0
    omega

/-- At the rename of slot `i` the slot is filled, if there are so many generations: at most
one job is under way, and none when `i = 1`. -/
theorem SlotsInv.kept_of_shiftGz {i : ℕ} (h : SlotsInv filePath M s) (hmain : s.main = .shiftGz i)
    (hfilled : i = 1 → s.pending = []) {r : Bytes} (hr : s.rotated[i - 1]? = some r) :
    s.files filePath (.gz i) = some (.gzip (.raw r)) := by
  obtain ⟨hi, hiM⟩ := h.bounds i (.inl hmain)
  have hintact : s.main.intact M = i := by rw [hmain]; rfl
  have hbehind := (h.behind (by omega)).1
  apply h.kept i r _ hintact.ge hr
  rcases Nat.lt_or_ge 1 i with hlt | hge
  · omega
  · rw [hfilled (by omega)]
    exact hi

/-- The compressed slot is missing, so there are not so many generations, and the fallback
is next. -/
theorem slotsInv_fallback {i : ℕ} (h : SlotsInv filePath M s) (hmain : s.main = .shiftGz i)
    (hfilled : i = 1 → s.pending = []) (hnone : s.files filePath (.gz i) = none) :
    SlotsInv filePath M { s with main := .shiftPlain i } := by
  obtain ⟨hi, hiM⟩ := h.bounds i (.inl hmain)
  have hintact : s.main.intact M = i := by rw [hmain]; rfl
  have hpending : ({ s with main := .shiftPlain i } : Compression).pending = s.pending := by
    simp only [Compression.pending, hmain, MainPc.pending]
  have hfew : s.rotated.length < i := by
    by_contra hmany
    have hr := List.getElem?_eq_getElem (l := s.rotated) (i := i - 1) (by omega)
    exact absurd (hnone ▸ h.kept_of_shiftGz hmain hfilled hr) (by simp)
  refine ⟨?_, ?_, ?_, ?_, ?_⟩
  · intro j r hj hle hr
    have hbelow : j ≤ i - 1 := hle
    rw [hpending] at hj
    exact h.kept j r hj (by omega) hr
  · intro j r hle hjM hr
    have habove : i - 1 + 2 ≤ j := hle
    rcases Nat.lt_or_ge (i + 1) j with hlt | hge
    · exact h.shifted j r (by omega) hjM hr
    · have hlen : j - 2 < s.rotated.length := (List.getElem?_eq_some_iff.mp hr).1
      omega
  · intro k hk
    cases hk
    exact hfew
  · intro k hk
    rcases hk with hk | hk <;> cases hk
    exact ⟨hi, hiM⟩
  · intro hM
    rw [hpending]
    refine ⟨(h.behind hM).1, fun h0 => hfilled ?_⟩
    have hzero : i - 1 = 0 := h0
    omega

/-- The rename of the active file: every generation is one older now, and the slots above 1
are already shifted. -/
theorem slotsInv_renameActive (hjobs : JobsInv filePath s) (h : SlotsInv filePath M s)
    (hmain : s.main = .renameActive) {now : Int64}
    (hstep : rotationStep filePath M now s = some s') : SlotsInv filePath M s' := by
  obtain ⟨-, r, hrotated⟩ := jobsInv_renameActive hjobs hmain hstep
  have hintact : s.main.intact M = 0 := by rw [hmain]; rfl
  simp only [rotationStep_eq, hmain, Option.some.injEq] at hstep
  subst hstep
  have hfiles := files_rename filePath s .active (.unique now s.rotationCounter)
  -- The renamed file is the only one under way, unless no slot is shifted at all.
  have hlen : 2 ≤ M → s.worker.pending ++ s.jobs = [] := by
    intro hM
    have hempty := (h.behind hM).2 hintact
    simpa [Compression.pending, hmain, MainPc.pending] using hempty
  refine ⟨?_, ?_, ?_, ?_, ?_⟩
  · intro j r' hj hle hr
    rw [hrotated] at hr
    simp only [Compression.pending, MainPc.pending, List.length_append,
      List.length_singleton] at hj
    have hold : s.rotated[j - 2]? = some r' := by
      obtain ⟨i, rfl⟩ : ∃ i, j = i + 2 := ⟨j - 2, by omega⟩
      simpa using hr
    refine (congrFun hfiles (.gz j)).trans ?_
    rw [Dir.rename_apply_of_ne _ (by simp) (by simp)]
    exact h.shifted j r' (by omega) hle hold
  · intro j r' hle hjM _
    have habove : M + 2 ≤ j := hle
    omega
  · intro i hi
    cases hi
  · intro i hi
    rcases hi with hi | hi <;> cases hi
  · intro hM
    simp only [Compression.pending, hlen hM, MainPc.pending, MainPc.intact]
    exact ⟨le_rfl, fun h0 => by omega⟩

/-- A step of a rotation keeps the generations of the slots when the condition holds. -/
theorem slotsInv_rotation (hjobs : JobsInv filePath s) (h : SlotsInv filePath M s) {now : Int64}
    (hfilled : SlotFilled s (.main now)) (hstep : rotationStep filePath M now s = some s') :
    SlotsInv filePath M s' := by
  cases hmain : s.main with
  | idle => simp [rotationStep_eq, hmain] at hstep
  | unlinkGz =>
      simp only [rotationStep_eq, hmain, Option.some.injEq] at hstep
      subst hstep
      exact slotsInv_unlinkGz h hmain
  | unlinkPlain =>
      simp only [rotationStep_eq, hmain, Option.some.injEq] at hstep
      subst hstep
      have hfiles := files_unlink filePath s (.plain M)
      refine h.of_pending ?_ rfl ?_ ?_ ?_ ?_
      · simp only [Compression.pending, hmain, pending_loopHead]
        rfl
      · rw [hmain]
        exact intact_loopHead M (M - 1)
      · intro i hi
        exact absurd hi (loopHead_ne_shiftPlain _ _)
      · intro i hi
        obtain ⟨h1, rfl⟩ := shift_of_loopHead hi
        omega
      · intro j
        exact (congrFun hfiles (.gz j)).trans (by rw [Dir.unlink_apply, if_neg (by simp)])
  | shiftGz i =>
      obtain ⟨hi, hiM⟩ := h.bounds i (.inl hmain)
      have hempty : i = 1 → s.pending = [] := by
        rintro rfl
        exact hfilled now rfl hmain
      have hintact : s.main.intact M = i := by rw [hmain]; rfl
      rcases rotationStep_shiftGz hmain hstep with ⟨d, rfl, hview, -⟩ | ⟨rfl, hnone⟩
      · refine h.of_shift hi hiM rfl rfl rfl (by rw [hmain]; rfl) rfl (by omega) hintact.le
          hempty ?_ ?_
        · intro r hr
          refine (congrFun hview _).trans ?_
          exact Dir.rename_apply_target _ (h.kept_of_shiftGz hmain hempty hr)
        · intro j hji hji'
          exact (congrFun hview _).trans (Dir.rename_apply_of_ne _ (by simpa) (by simpa))
      · exact slotsInv_fallback h hmain hempty hnone
  | shiftPlain i =>
      obtain ⟨hi, hiM⟩ := h.bounds i (.inr hmain)
      have hfew := h.vacant i hmain
      have hintact : s.main.intact M = i - 1 := by rw [hmain]; rfl
      simp only [rotationStep_eq, hmain, Option.some.injEq] at hstep
      subst hstep
      have hfiles := files_rename filePath s (.plain i) (.plain (i + 1))
      refine h.of_shift hi hiM rfl rfl rfl (by rw [hmain]; rfl) rfl (by omega) (by omega) ?_ ?_ ?_
      · intro hi1
        exact (h.behind (by omega)).2 (by omega)
      · -- There is no generation for this slot.
        intro r hr
        have hlen := (List.getElem?_eq_some_iff.mp hr).1
        omega
      · intro j _ _
        exact (congrFun hfiles (.gz j)).trans
          (Dir.rename_apply_of_ne _ (by simp) (by simp))
  | renameActive => exact slotsInv_renameActive hjobs h hmain hstep
  | enqueue path =>
      simp only [rotationStep_eq, hmain, Option.some.injEq] at hstep
      subst hstep
      refine h.of_pending ?_ rfl (by rw [hmain]; rfl) (fun i hi => by cases hi) ?_ fun _ => rfl
      · simp [Compression.pending, hmain, MainPc.pending]
      · intro i hi
        rcases hi with hi | hi <;> cases hi
  | reopen =>
      have hnone : s.dir filePath = none := hjobs.closed (by rw [hmain]; trivial)
      simp only [rotationStep_eq, hmain, fopenCall_of_none hnone, Option.some.injEq] at hstep
      subst hstep
      have hfiles := files_store filePath s .active (.raw [])
      refine h.of_pending ?_ rfl (by rw [hmain]; rfl) (fun i hi => by cases hi) ?_ fun j => ?_
      · simp only [Compression.pending, hmain, MainPc.pending]
      · intro i hi
        rcases hi with hi | hi <;> cases hi
      · exact (congrFun hfiles (.gz j)).trans (by rw [Dir.store_apply, if_neg (by simp)])

end Main

/-! ### Steps of the worker -/

section Worker
variable {filePath : Bytes} {M : ℕ} {s s' : Compression}

/-- The steps of the worker on a job of this output whose compression succeeds. -/
theorem workerStep_cases (h : JobsInv filePath s) (hsucceeds : CompressionSucceeds s .worker)
    (hstep : workerStep s = some s') :
    (∃ job rest, s.worker = .idle ∧ s.jobs = job :: rest ∧
      s' = { s with jobs := rest, worker := .compress job }) ∨
    (∃ t c data, s.worker = .compress (uniquePath filePath t c) ∧
      s.files filePath (.unique t c) = some data ∧
      s' = { s with
        dir := s.dir.store (FileName.render filePath (.uniqueGz t c)) (.gzip data)
        worker := .rename (uniquePath filePath t c) }) ∨
    (∃ t c x, s.worker = .rename (uniquePath filePath t c) ∧
      s.files filePath (.uniqueGz t c) = some x ∧
      s' = { s with
        dir := (s.dir.rename (FileName.render filePath (.uniqueGz t c))
          (FileName.render filePath (.gz 1))).1
        worker := .unlinkOriginal (uniquePath filePath t c) }) ∨
    (∃ t c, s.worker = .rename (uniquePath filePath t c) ∧
      s.files filePath (.uniqueGz t c) = none ∧ s' = { s with worker := .idle }) ∨
    (∃ t c, s.worker = .unlinkOriginal (uniquePath filePath t c) ∧
      s' = { s with
        dir := s.dir.unlink (FileName.render filePath (.unique t c))
        worker := .idle }) := by
  cases hworker : s.worker with
  | idle =>
      cases hjobs : s.jobs with
      | nil => simp [workerStep_eq, hworker, hjobs] at hstep
      | cons job rest =>
          simp only [workerStep_eq, hworker, hjobs, Option.some.injEq] at hstep
          exact .inl ⟨job, rest, rfl, rfl, hstep.symm⟩
  | compress job =>
      obtain ⟨t, c, rfl⟩ := h.names job (by simp [Compression.pending, hworker, WorkerPc.pending])
      obtain ⟨data, hdata⟩ := Option.ne_none_iff_exists'.mp (hsucceeds _ rfl hworker)
      simp only [workerStep_eq, hworker, extractBasePath_uniquePath, hdata,
        Option.some.injEq] at hstep
      exact .inr (.inl ⟨t, c, data, rfl, hdata, hstep.symm⟩)
  | rename job =>
      obtain ⟨t, c, rfl⟩ := h.names job (by simp [Compression.pending, hworker, WorkerPc.pending])
      simp only [workerStep_eq, hworker, extractBasePath_uniquePath, finalPath_eq] at hstep
      cases hsrc : s.dir (uniquePath filePath t c ++ gzSuffix) with
      | none =>
          rw [Dir.rename_of_none _ hsrc] at hstep
          exact .inr (.inr (.inr (.inl ⟨t, c, rfl, hsrc, (Option.some.inj hstep).symm⟩)))
      | some x =>
          have hok := Dir.rename_of_some (FileName.render filePath (.gz 1)) hsrc
          rw [hok] at hstep
          refine .inr (.inr (.inl ⟨t, c, x, rfl, hsrc, (Option.some.inj hstep).symm.trans ?_⟩))
          exact congrArg (fun r => ({ s with
            dir := Prod.fst r
            worker := .unlinkOriginal (uniquePath filePath t c) } : Compression)) hok.symm
  | unlinkOriginal job =>
      obtain ⟨t, c, rfl⟩ := h.original job hworker
      simp only [workerStep_eq, hworker, Option.some.injEq] at hstep
      exact .inr (.inr (.inr (.inr ⟨t, c, rfl, hstep.symm⟩)))

/-- The jobs under way while the worker is at a rename. -/
theorem pending_of_rename {job : Bytes} (h : s.worker = .rename job) :
    s.pending = job :: (s.jobs ++ s.main.pending) := by
  simp [Compression.pending, h, WorkerPc.pending]

/-- The end of a job, with or without its rename, keeps what is known of the others. -/
theorem JobsInv.of_finish {t : Int64} {c : UInt32} (h : JobsInv filePath s)
    (hworker : s.worker = .rename (uniquePath filePath t c)) {d : Dir Bytes FileData}
    {w : WorkerPc} (hw : w = .idle ∨ w = .unlinkOriginal (uniquePath filePath t c))
    (hfiles : ∀ n : FileName, ¬ n.IsSlot → n ≠ .uniqueGz t c →
      d.view (FileName.render filePath) n = s.files filePath n) :
    JobsInv filePath { s with dir := d, worker := w } := by
  have hpending := pending_of_rename hworker
  have hrest : ({ s with dir := d, worker := w } : Compression).pending
      = s.jobs ++ s.main.pending := by
    rcases hw with rfl | rfl <;> rfl
  refine ⟨?_, ?_, ?_, ?_, ?_⟩
  · intro job hjob
    rw [hrest] at hjob
    exact h.names job (hpending ▸ List.mem_cons_of_mem _ hjob)
  · intro job hjob
    have hjob' : w = .unlinkOriginal job := hjob
    rcases hw with rfl | rfl <;> cases hjob'
    exact ⟨t, c, rfl⟩
  · intro hopen
    exact (h.opened hopen).imp fun _ hc => (hfiles .active id (by simp)).trans hc
  · intro hclosed
    exact (hfiles .active id (by simp)).trans (h.closed hclosed)
  · intro t' c' hlast
    rw [hrest] at hlast
    -- Another job is behind the one that ends, so that one was not the latest.
    obtain ⟨b, bs, hbs⟩ : ∃ b bs, s.jobs ++ s.main.pending = b :: bs := by
      cases hjobs : s.jobs ++ s.main.pending with
      | nil => simp [hjobs] at hlast
      | cons b bs => exact ⟨b, bs, rfl⟩
    obtain ⟨r, hr, hfile⟩ := h.latest t' c'
      (by rw [hpending, hbs, List.getLast?_cons_cons, ← hbs, hlast])
    rw [if_neg (by simp [hpending, hbs])] at hfile
    refine ⟨r, hr, ?_⟩
    rw [if_neg (by rcases hw with rfl | rfl <;> simp)]
    exact hfile.imp (hfiles _ id (by simp)).trans (hfiles _ id (by simp)).trans

/-- A step of the worker that keeps the jobs under way and the active file keeps what is known
of the jobs, when the file of a job is afterwards as the place of the worker asks. -/
theorem JobsInv.of_worker (h : JobsInv filePath s) (hpending : s'.pending = s.pending)
    (hmain : s'.main = s.main) (hrotated : s'.rotated = s.rotated)
    (horiginal : ∀ job, s'.worker ≠ .unlinkOriginal job) (hrename : ∀ job, s.worker ≠ .rename job)
    (hactive : s'.files filePath .active = s.files filePath .active)
    (hfile : ∀ t c r, s.files filePath (.unique t c) = none
        ∨ s.files filePath (.unique t c) = some (.raw r) →
      if s.pending.length = 1 ∧ s'.worker = .rename (uniquePath filePath t c) then
        s'.files filePath (.uniqueGz t c) = some (.gzip (.raw r))
      else
        s'.files filePath (.unique t c) = none ∨ s'.files filePath (.unique t c) = some (.raw r)) :
    JobsInv filePath s' := by
  refine ⟨?_, fun job hjob => absurd hjob (horiginal job), ?_, ?_, ?_⟩
  · rw [hpending]
    exact h.names
  · rw [hmain, hactive]
    exact h.opened
  · rw [hmain, hactive]
    exact h.closed
  · intro t c hlast
    rw [hpending] at hlast ⊢
    obtain ⟨r, hr, hbefore⟩ := h.latest t c hlast
    rw [if_neg fun hcond => hrename _ hcond.2] at hbefore
    rw [hrotated]
    exact ⟨r, hr, hfile t c r hbefore⟩

/-- A step of the worker keeps what is known of the jobs. -/
theorem jobsInv_worker (h : JobsInv filePath s) (hsucceeds : CompressionSucceeds s .worker)
    (hstep : workerStep s = some s') : JobsInv filePath s' := by
  obtain ⟨job, rest, hworker, hjobs, rfl⟩ | ⟨t, c, data, hworker, hdata, rfl⟩ |
    ⟨t, c, x, hworker, hsrc, rfl⟩ | ⟨t, c, hworker, hsrc, rfl⟩ | ⟨t, c, hworker, rfl⟩ :=
    workerStep_cases h hsucceeds hstep
  · -- The worker takes a job, which stays under way.
    refine h.of_worker ?_ rfl rfl (by simp) (by simp [hworker]) rfl fun t c r hfile => ?_
    · simp [Compression.pending, hworker, hjobs, WorkerPc.pending]
    · rw [if_neg (by simp)]
      exact hfile
  · -- The worker compresses its job.
    have hfiles := files_store filePath s (.uniqueGz t c) (.gzip data)
    have hother : ∀ n, n ≠ FileName.uniqueGz t c →
        (s.dir.store (FileName.render filePath (.uniqueGz t c)) (.gzip data)).view
          (FileName.render filePath) n = s.files filePath n := by
      intro n hn
      rw [hfiles, Dir.store_apply, if_neg hn]
    refine h.of_worker ?_ rfl rfl (by simp) (by simp [hworker]) (hother .active (by simp))
      fun t' c' r hfile => ?_
    · simp [Compression.pending, hworker, WorkerPc.pending]
    · split
      · rename_i hcond
        -- The only job is the one that was compressed.
        have hname : FileName.unique t c = .unique t' c' :=
          render_injective filePath (WorkerPc.rename.inj hcond.2)
        cases hname
        have hdata' : data = .raw r := by
          rw [hdata] at hfile
          simpa using hfile
        refine (congrFun hfiles _).trans ?_
        rw [Dir.store_apply, if_pos rfl, hdata']
      · exact hfile.imp (hother _ (by simp)).trans (hother _ (by simp)).trans
  · -- The compressed file becomes slot 1.
    refine h.of_finish hworker (.inr rfl) fun n hslot hn => ?_
    refine (congrFun (files_rename filePath s (.uniqueGz t c) (.gz 1)) n).trans ?_
    exact Dir.rename_apply_of_ne _ hn fun hn => hslot (hn ▸ trivial)
  · exact h.of_finish hworker (.inl rfl) fun _ _ _ => rfl
  · -- The original goes. A later job may have its name.
    have hfiles : ∀ n, (s.dir.unlink (FileName.render filePath (.unique t c))).view
        (FileName.render filePath) n = if n = .unique t c then none else s.files filePath n := by
      intro n
      rw [files_unlink filePath s (.unique t c), Dir.unlink_apply]
    refine h.of_worker ?_ rfl rfl (by simp) (by simp [hworker]) ?_ fun t' c' r hfile => ?_
    · simp [Compression.pending, hworker, WorkerPc.pending]
    · exact (hfiles .active).trans (if_neg (by simp))
    · rw [if_neg (by simp)]
      have hunlink : Compression.files filePath { s with
          dir := s.dir.unlink (FileName.render filePath (.unique t c)), worker := .idle }
          (.unique t' c') = _ := hfiles (.unique t' c')
      rw [hunlink]
      split
      · exact .inl rfl
      · exact hfile

/-- No slot behind the last one is intact. -/
theorem SlotsInv.intact_le (h : SlotsInv filePath M s) : s.main.intact M ≤ M := by
  cases hmain : s.main with
  | shiftGz i =>
      have := (h.bounds i (.inl hmain)).2
      exact this.le
  | shiftPlain i =>
      have := (h.bounds i (.inr hmain)).2
      show i - 1 ≤ M
      omega
  | unlinkPlain => exact Nat.sub_le M 1
  | renameActive => exact Nat.zero_le M
  | _ => exact le_rfl

/-- The end of a job keeps the generations of the slots when slot 1 then holds the latest
generation, or another job is still under way. -/
theorem SlotsInv.of_finish {t : Int64} {c : UInt32} (h : SlotsInv filePath M s)
    (hworker : s.worker = .rename (uniquePath filePath t c)) {d : Dir Bytes FileData}
    {w : WorkerPc} (hw : w.pending = [])
    (hfirst : s.jobs ++ s.main.pending = [] → ∀ r, s.rotated[0]? = some r →
      d.view (FileName.render filePath) (.gz 1) = some (.gzip (.raw r)))
    (hfiles : ∀ j, j ≠ 1 → d.view (FileName.render filePath) (.gz j) = s.files filePath (.gz j)) :
    SlotsInv filePath M { s with dir := d, worker := w } := by
  have hpending := pending_of_rename hworker
  have hrest : ({ s with dir := d, worker := w } : Compression).pending
      = s.jobs ++ s.main.pending := by
    simp [Compression.pending, hw]
  have hlen : s.pending.length = (s.jobs ++ s.main.pending).length + 1 := by
    rw [hpending, List.length_cons]
  refine ⟨?_, ?_, h.vacant, h.bounds, ?_⟩
  · intro j r hj hle hr
    rw [hrest] at hj
    have hle' : j ≤ s.main.intact M := hle
    rcases Nat.lt_or_ge 1 j with hlt | hge
    · have hM := h.intact_le
      have hbehind := (h.behind (by omega)).1
      exact (hfiles j (by omega)).trans (h.kept j r (by omega) hle' hr)
    · obtain rfl : j = 1 := by omega
      exact hfirst (List.eq_nil_of_length_eq_zero (by omega)) r hr
  · intro j r hle hjM hr
    exact (hfiles j (by omega)).trans (h.shifted j r hle hjM hr)
  · intro hM
    have hbehind := (h.behind hM).1
    have hnil := List.eq_nil_of_length_eq_zero (l := s.jobs ++ s.main.pending) (by omega)
    rw [hrest, hnil]
    exact ⟨Nat.zero_le 1, fun _ => rfl⟩

/-- When the worker is at the rename of the only job, its source is the compressed form of
the latest generation. -/
theorem JobsInv.latest_of_rename {t : Int64} {c : UInt32} (h : JobsInv filePath s)
    (hworker : s.worker = .rename (uniquePath filePath t c))
    (hnil : s.jobs ++ s.main.pending = []) :
    ∃ r, s.rotated[0]? = some r ∧ s.files filePath (.uniqueGz t c) = some (.gzip (.raw r)) := by
  have hpending := pending_of_rename hworker
  rw [hnil] at hpending
  obtain ⟨r, hr, hfile⟩ := h.latest t c (by rw [hpending]; rfl)
  rw [if_pos ⟨by rw [hpending]; rfl, hworker⟩] at hfile
  exact ⟨r, by rwa [← List.head?_eq_getElem?], hfile⟩

/-- A step of the worker keeps the generations of the slots. -/
theorem slotsInv_worker (hjobs : JobsInv filePath s) (h : SlotsInv filePath M s)
    (hsucceeds : CompressionSucceeds s .worker) (hstep : workerStep s = some s') :
    SlotsInv filePath M s' := by
  obtain ⟨job, rest, hworker, hqueue, rfl⟩ | ⟨t, c, data, hworker, -, rfl⟩ |
    ⟨t, c, x, hworker, hsrc, rfl⟩ | ⟨t, c, hworker, hsrc, rfl⟩ | ⟨t, c, hworker, rfl⟩ :=
    workerStep_cases hjobs hsucceeds hstep
  · refine h.of_pending ?_ rfl rfl h.vacant h.bounds fun _ => rfl
    simp [Compression.pending, hworker, hqueue, WorkerPc.pending]
  · refine h.of_pending ?_ rfl rfl h.vacant h.bounds fun j => ?_
    · simp [Compression.pending, hworker, WorkerPc.pending]
    · refine (congrFun (files_store filePath s (.uniqueGz t c) (.gzip data)) _).trans ?_
      rw [Dir.store_apply, if_neg (by simp)]
  · have hfiles := files_rename filePath s (.uniqueGz t c) (.gz 1)
    refine h.of_finish hworker rfl ?_ ?_
    · intro hnil r hr
      obtain ⟨r', hr', hfile⟩ := hjobs.latest_of_rename hworker hnil
      obtain rfl : r' = r := Option.some.inj (hr'.symm.trans hr)
      exact (congrFun hfiles _).trans (Dir.rename_apply_target _ hfile)
    · intro j hj
      exact (congrFun hfiles _).trans (Dir.rename_apply_of_ne _ (by simp) (by simpa))
  · refine h.of_finish hworker rfl ?_ fun _ _ => rfl
    intro hnil
    -- The compressed form of the only job is there, so this rename does not fail.
    obtain ⟨r, -, hfile⟩ := hjobs.latest_of_rename hworker hnil
    rw [hsrc] at hfile
    cases hfile
  · refine h.of_pending ?_ rfl rfl h.vacant h.bounds fun j => ?_
    · simp [Compression.pending, hworker, WorkerPc.pending]
    · refine (congrFun (files_unlink filePath s (.unique t c)) _).trans ?_
      rw [Dir.unlink_apply, if_neg (by simp)]

end Worker

end ProcessAnalyzer
