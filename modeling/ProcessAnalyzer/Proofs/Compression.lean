import ProcessAnalyzer.Lib.Run
import ProcessAnalyzer.Proofs.CompressionThreads

/-!
# `ProcessAnalyzer.Proofs.Compression`: which generations the compressed files keep

The slots are right in the end when the worker is never more than one file behind: at the
moment when `rotate_logs` moves slot 1 to slot 2, every earlier rotated file must already be
in slot 1 (`SlotFilled`).

* `compressionInv_step`: every step of the system preserves the invariants.
* `generations_step`: every rotation adds one generation.
* `compressed_slots_of_slotFilled`: in every run that meets the condition, whenever both
  threads rest, slot `j` holds the `j`-th latest generation.
-/

set_option autoImplicit false

namespace ProcessAnalyzer

open ProcessAnalyzer.Lib

/-! ### Whole runs -/

section Run
variable {filePath : Bytes} {M : ℕ} {s s' : Compression} {a : CompressionAct}

/-- Both invariants. -/
def CompressionInv (filePath : Bytes) (M : ℕ) (s : Compression) : Prop :=
  JobsInv filePath s ∧ SlotsInv filePath M s

/-- Every step of the two threads preserves the invariants when the condition holds. -/
theorem compressionInv_step (h : CompressionInv filePath M s)
    (hcond : CompressionSucceeds s a ∧ SlotFilled s a)
    (hstep : compressionStep filePath M s a = some s') : CompressionInv filePath M s' := by
  obtain ⟨hjobs, hslots⟩ := h
  cases a with
  | write text =>
      simp only [compressionStep] at hstep
      split at hstep
      -- An append changes the active file only.
      · rename_i content hmain hactive
        cases hstep
        have hfiles := files_store filePath s .active (.raw (content ++ text))
        have hother : ∀ n, n ≠ FileName.active →
            (s.dir.store filePath (.raw (content ++ text))).view (FileName.render filePath) n
              = s.files filePath n := by
          intro n hn
          exact (congrFun hfiles n).trans (by rw [Dir.store_apply, if_neg hn])
        constructor
        · refine hjobs.of_pending rfl rfl rfl (fun n _ hn => hother n hn) (fun _ => ?_) ?_
          · exact ⟨_, (congrFun hfiles .active).trans (by rw [Dir.store_apply, if_pos rfl])⟩
          · intro hclosed
            have : s.main.closed := hclosed
            rw [hmain] at this
            exact this.elim
        · exact hslots.of_pending rfl rfl rfl hslots.vacant hslots.bounds fun j =>
            hother (.gz j) (by simp)
      · cases hstep
  | rotate =>
      cases hmain : s.main <;> simp [compressionStep, hmain] at hstep
      subst hstep
      constructor
      · exact hjobs.of_slots rfl rfl rfl ⟨by rw [hmain]; rfl, by rw [hmain]; exact id⟩ ⟨rfl, id⟩
          fun _ _ => rfl
      · refine hslots.of_pending ?_ rfl (by rw [hmain]; rfl) (fun i hi => by cases hi) ?_
          fun _ => rfl
        · simp only [Compression.pending, hmain, MainPc.pending]
        · intro i hi
          rcases hi with hi | hi <;> cases hi
  | main now => exact ⟨jobsInv_rotation hjobs hstep, slotsInv_rotation hjobs hslots hcond.2 hstep⟩
  | worker => exact ⟨jobsInv_worker hjobs hcond.1 hstep, slotsInv_worker hjobs hslots hcond.1 hstep⟩

/-- A start: both threads rest, the active file is there and nothing was rotated yet. -/
structure Compression.Start (filePath : Bytes) (s : Compression) : Prop where
  active : ∃ content, s.dir filePath = some (.raw content)
  main : s.main = .idle
  worker : s.worker = .idle
  jobs : s.jobs = []
  rotated : s.rotated = []

/-- The invariants hold at a start. -/
theorem Compression.Start.inv (h : s.Start filePath) (M : ℕ) : CompressionInv filePath M s := by
  have hpending : s.pending = [] := by
    simp [Compression.pending, h.worker, h.jobs, h.main, WorkerPc.pending, MainPc.pending]
  constructor
  · refine ⟨?_, ?_, fun _ => h.active, ?_, ?_⟩
    · simp [hpending]
    · simp [h.worker]
    · rw [h.main]
      exact False.elim
    · simp [hpending]
  · refine ⟨?_, ?_, ?_, ?_, ?_⟩ <;> simp [h.rotated, h.main, hpending]

/-- The rotation that is before its rename of the active file. -/
def MainPc.entered : MainPc → ℕ
  | .idle => 0
  | .enqueue _ => 0
  | .reopen => 0
  | _ => 1

/-- Every rotation adds one generation. -/
theorem generations_step (h : CompressionInv filePath M s)
    (hcond : CompressionSucceeds s a ∧ SlotFilled s a)
    (hstep : compressionStep filePath M s a = some s') :
    s'.rotated.length + s'.main.entered
      = s.rotated.length + s.main.entered + if a == .rotate then 1 else 0 := by
  have hentered : ∀ i, (loopHead true i).entered = 1 := by
    intro i
    unfold loopHead
    split <;> rfl
  cases a with
  | write text =>
      simp only [compressionStep] at hstep
      split at hstep
      · cases hstep
        rfl
      · cases hstep
  | rotate =>
      cases hmain : s.main <;> simp [compressionStep, hmain] at hstep
      subst hstep
      rfl
  | main now =>
      show s'.rotated.length + s'.main.entered = s.rotated.length + s.main.entered
      cases hmain : s.main with
      | shiftGz i =>
          rcases rotationStep_shiftGz hmain hstep with ⟨d, rfl, -, -⟩ | ⟨rfl, -⟩
          · show s.rotated.length + (loopHead true (i - 1)).entered = _
            rw [hentered]
            rfl
          · rfl
      -- The rename of the active file is where the generation is added.
      | renameActive =>
          obtain ⟨-, r, hrotated⟩ := jobsInv_renameActive h.1 hmain hstep
          simp only [compressionStep, rotationStep_eq, hmain, Option.some.injEq] at hstep
          rw [hrotated, ← hstep]
          rfl
      | idle => simp [compressionStep, rotationStep_eq, hmain] at hstep
      | unlinkPlain =>
          simp only [compressionStep, rotationStep_eq, hmain, Option.some.injEq] at hstep
          rw [← hstep]
          show s.rotated.length + (loopHead true (M - 1)).entered = _
          rw [hentered]
          rfl
      | shiftPlain i =>
          simp only [compressionStep, rotationStep_eq, hmain, Option.some.injEq] at hstep
          rw [← hstep]
          show s.rotated.length + (loopHead true (i - 1)).entered = _
          rw [hentered]
          rfl
      | _ =>
          simp only [compressionStep, rotationStep_eq, hmain, Option.some.injEq] at hstep
          rw [← hstep]
          rfl
  | worker =>
      obtain ⟨_, _, _, _, rfl⟩ | ⟨_, _, _, _, _, rfl⟩ | ⟨_, _, _, _, _, rfl⟩ | ⟨_, _, _, _, rfl⟩ |
        ⟨_, _, _, rfl⟩ := workerStep_cases h.1 hcond.1 hstep <;> rfl

/-- In every run whose steps meet the condition, and for every order of the steps of the two
threads: whenever both threads rest, the slot `j` holds the compressed form of the `j`-th
latest generation, up to the number of rotations and the number of slots. -/
theorem compressed_slots_of_slotFilled (filePath : Bytes) (M : ℕ) (s s' : Compression)
    (acts : List CompressionAct) (hstart : s.Start filePath)
    (hcond : Run.Along (compressionStep filePath M)
      (fun s a => CompressionSucceeds s a ∧ SlotFilled s a) s acts)
    (hrun : Run.exec (compressionStep filePath M) s acts = some s')
    (hrest : s'.main = .idle ∧ s'.jobs = [] ∧ s'.worker = .idle) :
    s'.rotated.length = acts.count .rotate ∧
    ∀ j, 1 ≤ j → j ≤ min (acts.count .rotate) M →
      ∃ content, s'.rotated[j - 1]? = some content ∧
        s'.dir (rotatedGzPath filePath j) = some (.gzip (.raw content)) := by
  have hinv : CompressionInv filePath M s' :=
    Run.exec_invariant (fun _ _ _ => compressionInv_step) (hstart.inv M) hcond hrun
  -- Each entry into a rotation leads to one generation, which a rotation in progress still owes.
  have hcount := Run.exec_countP (fun _ _ _ => compressionInv_step)
    (f := fun s => s.rotated.length + s.main.entered) (p := (· == .rotate))
    (fun _ _ _ => generations_step) (hstart.inv M) hcond hrun
  have hgenerations : s'.rotated.length = acts.count .rotate := by
    simpa [hrest.1, hstart.main, hstart.rotated, MainPc.entered, List.count] using hcount
  refine ⟨hgenerations, fun j h1 hj => ?_⟩
  have hget := List.getElem?_eq_getElem (l := s'.rotated) (i := j - 1) (by omega)
  refine ⟨_, hget, hinv.2.kept j _ ?_ ?_ hget⟩
  · have hpending : s'.pending = [] := by
      simp [Compression.pending, hrest, WorkerPc.pending, MainPc.pending]
    rw [hpending]
    exact h1
  · rw [hrest.1]
    show j ≤ M
    omega

instance (s : Compression) (a : CompressionAct) : Decidable (CompressionSucceeds s a) :=
  match hworker : s.worker with
  | .compress job =>
      decidable_of_iff (a = .worker → s.dir job ≠ none) (by simp [CompressionSucceeds, hworker])
  | .idle => isTrue (by simp [CompressionSucceeds, hworker])
  | .rename _ => isTrue (by simp [CompressionSucceeds, hworker])
  | .unlinkOriginal _ => isTrue (by simp [CompressionSucceeds, hworker])

instance (s : Compression) (a : CompressionAct) : Decidable (SlotFilled s a) :=
  match a with
  | .main _ =>
      decidable_of_iff (s.main = .shiftGz 1 → s.pending = []) (by simp [SlotFilled])
  | .write _ => isTrue (by simp [SlotFilled])
  | .rotate => isTrue (by simp [SlotFilled])
  | .worker => isTrue (by simp [SlotFilled])

/-- A start with an empty active file and nothing else. -/
def freshOutput (filePath : Bytes) : Compression :=
  { dir := fun q => if q = filePath then some (.raw []) else none }

/-- A line is written and the output rotated, in so many steps. The worker does not run. -/
def rotateAfter (line : Bytes) (steps : ℕ) : List CompressionAct :=
  [.write line, .rotate] ++ List.replicate steps (.main 0)

/-- The worker handles one job. -/
def workOff : List CompressionAct := List.replicate 4 .worker

/-- Two rotations, each with its job done before the next one. -/
theorem compressed_slots_of_slotFilled_two :
    ∃ s', Run.exec (compressionStep (ascii "x") 2) (freshOutput (ascii "x"))
        (rotateAfter [49] 7 ++ workOff ++ rotateAfter [50] 6 ++ workOff) = some s' ∧
      s'.rotated.length = 2 ∧
      ∀ j : ℕ, 1 ≤ j → j ≤ 2 → ∃ content, s'.rotated[j - 1]? = some content ∧
        s'.dir (rotatedGzPath (ascii "x") j) = some (.gzip (.raw content)) := by
  have hend : (Run.exec (compressionStep (ascii "x") 2) (freshOutput (ascii "x"))
      (rotateAfter [49] 7 ++ workOff ++ rotateAfter [50] 6 ++ workOff)).map
      (fun s => (s.main, s.jobs, s.worker)) = some (.idle, [], .idle) := by decide +kernel
  obtain ⟨s', hrun, hrest⟩ := Option.map_eq_some_iff.mp hend
  simp only [Prod.mk.injEq] at hrest
  exact ⟨s', hrun, compressed_slots_of_slotFilled (ascii "x") 2 (freshOutput (ascii "x")) s' _
    ⟨⟨[], by decide⟩, rfl, rfl, rfl, rfl⟩ (by decide +kernel) hrun hrest⟩

/-- Two rotations before the worker handles the first job: every compression succeeds, and
in the end the older generation is in no slot. -/
theorem not_compressed_slots_when_behind :
    ¬ ∀ (filePath : Bytes) (M : ℕ) (s s' : Compression) (acts : List CompressionAct),
      s.Start filePath → (∀ n, n ≠ .active → s.files filePath n = none) →
      Run.Along (compressionStep filePath M) CompressionSucceeds s acts →
      Run.exec (compressionStep filePath M) s acts = some s' →
      s'.main = .idle ∧ s'.jobs = [] ∧ s'.worker = .idle →
      ∀ j, 1 ≤ j → j ≤ min (acts.count .rotate) M →
        ∃ content, s'.rotated[j - 1]? = some content ∧
          s'.dir (rotatedGzPath filePath j) = some (.gzip (.raw content)) := by
  intro hclaim
  have hend : (Run.exec (compressionStep (ascii "x") 2) (freshOutput (ascii "x"))
      (rotateAfter [49] 7 ++ rotateAfter [50] 7 ++ workOff ++ workOff)).map
      (fun s => (s.main, s.jobs, s.worker, s.dir (rotatedGzPath (ascii "x") 2)))
        = some (.idle, [], .idle, none) := by decide +kernel
  obtain ⟨s', hrun, hs'⟩ := Option.map_eq_some_iff.mp hend
  simp only [Prod.mk.injEq] at hs'
  obtain ⟨hmain, hjobs, hworker, hslot⟩ := hs'
  -- There is no other file at the start.
  have hfresh : ∀ n, n ≠ .active → (freshOutput (ascii "x")).files (ascii "x") n = none := by
    intro n hn
    exact if_neg fun h => hn (render_injective (ascii "x") h)
  obtain ⟨content, -, hfilled⟩ := hclaim (ascii "x") 2 (freshOutput (ascii "x")) s' _
    ⟨⟨[], by decide⟩, rfl, rfl, rfl, rfl⟩ hfresh (by decide +kernel) hrun
    ⟨hmain, hjobs, hworker⟩ 2 (by decide) (by decide)
  have hslot' : s'.dir (rotatedGzPath (ascii "x") ((2 : ℕ) : Int)) = none := hslot
  rw [hslot'] at hfilled
  cases hfilled

end Run

end ProcessAnalyzer
