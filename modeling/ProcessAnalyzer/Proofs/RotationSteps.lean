import ProcessAnalyzer.Model.CompressionWorker

/-!
# `ProcessAnalyzer.Proofs.RotationSteps`: the steps of a rotation are `rotate_logs`

`rotationCall` takes `rotate_logs` apart into its system calls. When no other thread
interferes, the calls of one rotation together do what the function `rotateLogs` does: to
the files, to the counter and to the queue, with and without compression.
-/

set_option autoImplicit false

namespace ProcessAnalyzer

open ProcessAnalyzer.Lib

variable {β : Type} (config : Config) (filePath : Bytes) (now : Int64) (mallocOk : Bool)

/-- So many calls of a rotation, one after another. -/
def rotationCalls (s : Threads β) (n : ℕ) : Option (Threads β) :=
  Run.exec (fun s (_ : Unit) => (rotationCall config.configGetCompressionEnabled filePath
    config.configGetMaxNumberOfFiles.toInt now mallocOk s).map Prod.fst) s (List.replicate n ())

/-- Calls in two parts. -/
theorem rotationCalls_add {s s' : Threads β} {m n : ℕ}
    (h : rotationCalls config filePath now mallocOk s m = some s') :
    rotationCalls config filePath now mallocOk s (m + n)
      = rotationCalls config filePath now mallocOk s' n := by
  unfold rotationCalls at h ⊢
  rw [List.replicate_add, Run.exec_append, h, Option.bind_some]

/-- One round of the loop is `shiftSlot`, in one call or in two. -/
theorem rotationCalls_shiftSlot (i : ℕ) (s : Threads β) :
    ∃ n, rotationCalls config filePath now mallocOk
        { s with main := loopHead config.configGetCompressionEnabled (i + 1) } n
      = some { s with
          dir := shiftSlot config.configGetCompressionEnabled filePath (i + 1) s.dir
          main := loopHead config.configGetCompressionEnabled i } := by
  cases hmode : config.configGetCompressionEnabled with
  | false =>
      refine ⟨1, ?_⟩
      simp [rotationCalls, Run.exec, hmode, loopHead, rotationCall, renameCall, shiftSlot]
  | true =>
      cases hsrc : s.dir (rotatedGzPath filePath ((i + 1 : ℕ) : Int)) with
      | none =>
          refine ⟨2, ?_⟩
          push_cast at hsrc
          simp [rotationCalls, Run.exec, hmode, loopHead, rotationCall, renameCall, shiftSlot,
            Dir.rename_of_none _ hsrc]
      | some x =>
          refine ⟨1, ?_⟩
          push_cast at hsrc
          simp [rotationCalls, Run.exec, hmode, loopHead, rotationCall, renameCall, shiftSlot,
            Dir.rename_of_some _ hsrc]

/-- The rounds of the loop are `shiftSlots`. -/
theorem rotationCalls_shiftSlots (i : ℕ) (s : Threads β) :
    ∃ n, rotationCalls config filePath now mallocOk
        { s with main := loopHead config.configGetCompressionEnabled i } n
      = some { s with
          dir := shiftSlots config.configGetCompressionEnabled filePath i s.dir
          main := .renameActive } := by
  induction i generalizing s with
  | zero => exact ⟨0, rfl⟩
  | succ i ih =>
      obtain ⟨m, hm⟩ := rotationCalls_shiftSlot config filePath now mallocOk i s
      obtain ⟨n, hn⟩ := ih { s with
        dir := shiftSlot config.configGetCompressionEnabled filePath (i + 1) s.dir }
      exact ⟨m + n, (rotationCalls_add config filePath now mallocOk hm).trans hn⟩

/-- When no other thread interferes, the calls of a rotation do what `rotate_logs` does. -/
theorem rotationCalls_eq_rotateLogs (s : Threads β) :
    ∃ n s', rotationCalls config filePath now mallocOk { s with main := .unlinkGz } n = some s' ∧
      s'.main = .reopen ∧ s'.worker = s.worker ∧
      (⟨s'.dir, s'.rotationCounter, s'.jobs⟩ : Rotation β)
        = rotateLogs config filePath now mallocOk ⟨s.dir, s.rotationCounter, s.jobs⟩ := by
  -- The two removals, the loop, and the rename of the active file with the enqueueing.
  let M := config.configGetMaxNumberOfFiles.toInt
  let removed := (s.dir.unlink (rotatedGzPath filePath M)).unlink (rotatedPath filePath M)
  have hremove : rotationCalls config filePath now mallocOk { s with main := .unlinkGz } 2
      = some { s with
          dir := removed
          main := loopHead config.configGetCompressionEnabled (M - 1).toNat } := rfl
  obtain ⟨n, hloop⟩ :=
    rotationCalls_shiftSlots config filePath now mallocOk (M - 1).toNat { s with dir := removed }
  cases hmode : config.configGetCompressionEnabled with
  | false =>
      refine ⟨2 + (n + 1), ?_⟩
      rw [rotationCalls_add config filePath now mallocOk hremove,
        rotationCalls_add config filePath now mallocOk hloop]
      simp [rotationCalls, Run.exec, rotationCall, renameCall, hmode, rotateLogs, removed, M]
  | true =>
      refine ⟨2 + (n + 2), ?_⟩
      rw [rotationCalls_add config filePath now mallocOk hremove,
        rotationCalls_add config filePath now mallocOk hloop]
      simp [rotationCalls, Run.exec, rotationCall, renameCall, hmode, rotateLogs,
        compressionEnqueueFile, removed, M]

end ProcessAnalyzer
