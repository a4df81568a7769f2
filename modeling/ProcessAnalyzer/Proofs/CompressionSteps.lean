import ProcessAnalyzer.Model.CompressionWorker
import ProcessAnalyzer.Proofs.Rotation

/-!
# `ProcessAnalyzer.Proofs.CompressionSteps`: the steps of a compressed rotation

The main thread shifts the compressed files while a rotation runs, and the worker fills
slot 1 at a time of its own.

* `extractBasePath_uniquePath`: the worker finds the output of a job from its name.
* `rotationStep_eq` and `workerStep_eq`: what one step of each thread does to the files.
* `Compression.pending`: the rotated files whose compressed form has not reached slot 1.
* `JobsInv` and `SlotsInv`: the invariants. The first one is about the jobs, the second one
  says which generation every slot holds at every place of a rotation, up to the jobs that
  are still pending.
-/

set_option autoImplicit false

namespace ProcessAnalyzer

open ProcessAnalyzer.Lib

/-! ### The names of the worker -/

/-- The last extension is cut off. -/
theorem cutExtension_append (path : Bytes) {ext : Bytes} (h : (46 : UInt8) ∉ ext) :
    cutExtension (path ++ 46 :: ext) = some path := by
  rw [cutExtension, strrchr_append h, Option.map_some, List.take_left]

/-- The worker finds the output of a job from its name. -/
theorem extractBasePath_uniquePath (filePath : Bytes) (now : Int64) (counter : UInt32) :
    extractBasePath (uniquePath filePath now counter) = some filePath := by
  have hname : uniquePath filePath now counter
      = ((filePath ++ 46 :: ascii "1") ++ 46 :: decInt now.toInt) ++ 46 :: decNat counter.toNat := by
    simp [uniquePath, ascii]
  rw [extractBasePath, if_neg (by simp [hname]), hname,
    cutExtension_append _ (dot_notMem_decNat _), Option.bind_some,
    cutExtension_append _ (dot_notMem_decInt _), Option.bind_some,
    cutExtension_append _ (by decide)]

/-- The worker's final name is slot 1. -/
theorem finalPath_eq (filePath : Bytes) :
    filePath ++ ascii ".1" ++ gzSuffix = FileName.render filePath (.gz 1) := by
  simp only [FileName.render, rotatedGzPath, rotatedPath, gzSuffix, List.append_assoc]
  congr 1

/-! ### The steps, one by one -/

/-- A missing file is created. -/
theorem fopenCall_of_none {β : Type} {d : Dir Bytes β} {path : Bytes} (h : d path = none)
    (empty : β) : fopenCall d path empty = (d.store path empty, [.create path]) := by
  simp [fopenCall, h]

/-- The steps of a rotation with compression. -/
theorem rotationStep_eq (filePath : Bytes) (M : ℕ) (now : Int64) (s : Compression) :
    rotationStep filePath M now s = match s.main with
      | .idle => none
      | .unlinkGz =>
          some { s with dir := s.dir.unlink (rotatedGzPath filePath M), main := .unlinkPlain }
      | .unlinkPlain =>
          some { s with
            dir := s.dir.unlink (rotatedPath filePath M)
            main := loopHead true (M - 1) }
      | .shiftGz i =>
          match s.dir.rename (rotatedGzPath filePath i) (rotatedGzPath filePath (i + 1)) with
          | (d, true) => some { s with dir := d, main := loopHead true (i - 1) }
          | (d, false) => some { s with dir := d, main := .shiftPlain i }
      | .shiftPlain i =>
          some { s with
            dir := (s.dir.rename (rotatedPath filePath i) (rotatedPath filePath (i + 1))).1
            main := loopHead true (i - 1) }
      | .renameActive =>
          some { s with
            dir := (s.dir.rename filePath (uniquePath filePath now s.rotationCounter)).1
            rotationCounter := s.rotationCounter + 1
            main := .enqueue (uniquePath filePath now s.rotationCounter)
            rotated := addGeneration (s.dir filePath) s.rotated }
      | .enqueue path => some { s with jobs := s.jobs ++ [path], main := .reopen }
      | .reopen => some { s with dir := (fopenCall s.dir filePath (.raw [])).1, main := .idle } := by
  cases hmain : s.main with
  | unlinkPlain =>
      have htoNat : ((M : Int) - 1).toNat = M - 1 := by omega
      simp [rotationStep, rotationCall, hmain, unlinkCall, htoNat]
  -- the rename decides between the next round and the fallback
  | shiftGz i =>
      simp only [rotationStep, rotationCall, hmain, renameCall]
      rcases s.dir.rename (rotatedGzPath filePath i) (rotatedGzPath filePath (i + 1)) with
        ⟨d, _ | _⟩ <;> rfl
  | _ => simp [rotationStep, rotationCall, hmain, unlinkCall, renameCall]

/-- The steps of the worker. -/
theorem workerStep_eq (s : Compression) :
    workerStep s = match s.worker with
      | .idle =>
          match s.jobs with
          | [] => none
          | job :: rest => some { s with jobs := rest, worker := .compress job }
      | .compress job =>
          match extractBasePath job with
          | none => some { s with worker := .idle }
          | some _ =>
              match s.dir job with
              | some data =>
                  some { s with
                    dir := s.dir.store (job ++ gzSuffix) (.gzip data)
                    worker := .rename job }
              | none => some { s with worker := .idle }
      | .rename job =>
          match extractBasePath job with
          | none => some { s with worker := .idle }
          | some base =>
              match s.dir.rename (job ++ gzSuffix) (base ++ ascii ".1" ++ gzSuffix) with
              | (d, true) => some { s with dir := d, worker := .unlinkOriginal job }
              | (d, false) => some { s with dir := d, worker := .idle }
      | .unlinkOriginal job => some { s with dir := s.dir.unlink job, worker := .idle } := by
  cases hworker : s.worker with
  | idle => cases hjobs : s.jobs <;> simp [workerStep, workerCall, hworker, hjobs]
  | compress job =>
      simp only [workerStep, workerCall, hworker]
      cases extractBasePath job with
      | none => rfl
      | some base => cases s.dir job <;> rfl
  | rename job =>
      simp only [workerStep, workerCall, hworker, renameCall]
      cases extractBasePath job with
      | none => rfl
      | some base =>
          simp only
          rcases s.dir.rename (job ++ gzSuffix) (base ++ ascii ".1" ++ gzSuffix) with
            ⟨d, _ | _⟩ <;> rfl
  | unlinkOriginal job => simp [workerStep, workerCall, hworker, unlinkCall]

/-! ### The jobs that are under way -/

/-- The job of the worker whose result is not in slot 1 yet. -/
def WorkerPc.pending : WorkerPc → List Bytes
  | .compress job => [job]
  | .rename job => [job]
  | _ => []

/-- The file that the main thread has renamed and not enqueued yet. -/
def MainPc.pending : MainPc → List Bytes
  | .enqueue path => [path]
  | _ => []

/-- The rotated files whose compressed form has not reached slot 1, oldest first. -/
def Compression.pending (s : Compression) : List Bytes :=
  s.worker.pending ++ s.jobs ++ s.main.pending

/-- A step of the worker that compresses finds the file it is to compress. -/
def CompressionSucceeds (s : Compression) (a : CompressionAct) : Prop :=
  ∀ job, a = .worker → s.worker = .compress job → s.dir job ≠ none

/-- When `rotate_logs` moves slot 1 to slot 2, no earlier rotated file is under way. -/
def SlotFilled (s : Compression) (a : CompressionAct) : Prop :=
  ∀ now, a = .main now → s.main = .shiftGz 1 → s.pending = []

/-- The files of the output, by their names. -/
def Compression.files (filePath : Bytes) (s : Compression) : Dir FileName FileData :=
  s.dir.view (FileName.render filePath)

/-- The files that `rotate_logs` shifts. -/
def FileName.IsSlot : FileName → Prop
  | .plain _ => True
  | .gz _ => True
  | _ => False

/-- The active file is missing between its rename and the `fopen`. -/
def MainPc.closed : MainPc → Prop
  | .enqueue _ => True
  | .reopen => True
  | _ => False

/-- What is known of the active file and of the jobs. The name of a file that waits can be
given again when the clock goes back, so nothing is said of the content of an older job. -/
structure JobsInv (filePath : Bytes) (s : Compression) : Prop where
  names : ∀ job ∈ s.pending, ∃ t c, job = uniquePath filePath t c
  original : ∀ job, s.worker = .unlinkOriginal job → ∃ t c, job = uniquePath filePath t c
  opened : ¬ s.main.closed → ∃ content, s.files filePath .active = some (.raw content)
  closed : s.main.closed → s.files filePath .active = none
  latest : ∀ t c, s.pending.getLast? = some (uniquePath filePath t c) →
    ∃ r, s.rotated.head? = some r ∧
      if s.pending.length = 1 ∧ s.worker = .rename (uniquePath filePath t c) then
        s.files filePath (.uniqueGz t c) = some (.gzip (.raw r))
      else
        s.files filePath (.unique t c) = none ∨ s.files filePath (.unique t c) = some (.raw r)

/-- The slots up to this one are not shifted yet. -/
def MainPc.intact (M : ℕ) : MainPc → ℕ
  | .unlinkPlain => M - 1
  | .shiftGz i => i
  | .shiftPlain i => i - 1
  | .renameActive => 0
  | _ => M

/-- Which generation each slot holds, at every place of a rotation. -/
structure SlotsInv (filePath : Bytes) (M : ℕ) (s : Compression) : Prop where
  kept : ∀ j r, s.pending.length < j → j ≤ s.main.intact M → s.rotated[j - 1]? = some r →
    s.files filePath (.gz j) = some (.gzip (.raw r))
  shifted : ∀ j r, s.main.intact M + 2 ≤ j → j ≤ M → s.rotated[j - 2]? = some r →
    s.files filePath (.gz j) = some (.gzip (.raw r))
  vacant : ∀ i, s.main = .shiftPlain i → s.rotated.length < i
  bounds : ∀ i, s.main = .shiftGz i ∨ s.main = .shiftPlain i → 1 ≤ i ∧ i < M
  behind : 2 ≤ M → s.pending.length ≤ 1 ∧ (s.main.intact M = 0 → s.pending = [])

/-! ### The files after a step -/

section Files
variable (filePath : Bytes)

theorem files_unlink (s : Compression) (n : FileName) :
    (s.dir.unlink (n.render filePath)).view (FileName.render filePath)
      = (s.files filePath).unlink n :=
  Dir.view_unlink (render_injective filePath) s.dir n

theorem files_store (s : Compression) (n : FileName) (x : FileData) :
    (s.dir.store (n.render filePath) x).view (FileName.render filePath)
      = (s.files filePath).store n x :=
  Dir.view_store (render_injective filePath) s.dir n x

theorem files_rename (s : Compression) (m n : FileName) :
    (s.dir.rename (m.render filePath) (n.render filePath)).1.view (FileName.render filePath)
      = ((s.files filePath).rename m n).1 :=
  (Dir.view_rename (render_injective filePath) s.dir m n).1

end Files

@[simp] theorem pending_loopHead (i : ℕ) : (loopHead true i).pending = [] := by
  unfold loopHead
  split <;> rfl

@[simp] theorem closed_loopHead (i : ℕ) : ¬ (loopHead true i).closed := by
  unfold loopHead
  split <;> exact id

@[simp] theorem intact_loopHead (M i : ℕ) : (loopHead true i).intact M = i := by
  unfold loopHead
  split
  · rfl
  · show 0 = i
    omega

/-- A round of the loop starts with the compressed file. -/
theorem loopHead_ne_shiftPlain (i j : ℕ) : loopHead true i ≠ .shiftPlain j := by
  unfold loopHead
  split <;> simp

/-- The loop runs down to 1. -/
theorem shift_of_loopHead {i j : ℕ}
    (h : loopHead true i = .shiftGz j ∨ loopHead true i = .shiftPlain j) :
    1 ≤ j ∧ j = i := by
  rcases h with h | h
  · unfold loopHead at h
    split at h
    · cases h
      exact ⟨by assumption, rfl⟩
    · cases h
  · exact absurd h (loopHead_ne_shiftPlain i j)

end ProcessAnalyzer
