import ProcessAnalyzer.Proofs.LogNames

/-!
# `ProcessAnalyzer.Proofs.Rotation`: what one rotation does to the files

* `rotateLogs_apply_of_foreign`: a rotation touches the files of its own output only, with or
  without compression.
* `rotateLogs_uncompressed`: without compression every slot moves up by one, present or
  absent, the active file becomes slot 1, and the oldest slot is the only file that is
  lost.
-/

set_option autoImplicit false

namespace ProcessAnalyzer

open ProcessAnalyzer.Lib

variable {β : Type}

/-! ### Frame -/

section Frame
variable {filePath q : Bytes}

/-- The names of a rotation start with the active path. -/
theorem rotated_ne (h : ¬ filePath <+: q) (i : Int) :
    q ≠ rotatedPath filePath i ∧ q ≠ rotatedGzPath filePath i := by
  constructor
  · rintro rfl
    exact h ⟨_, by rw [rotatedPath, List.append_assoc]⟩
  · rintro rfl
    exact h ⟨_, by rw [rotatedGzPath, rotatedPath, List.append_assoc, List.append_assoc]⟩

/-- The loop of `rotate_logs` leaves other names alone. -/
theorem shiftSlots_apply_of_foreign (h : ¬ filePath <+: q) (compressionEnabled : Bool) (n : ℕ)
    (d : Dir Bytes β) : shiftSlots compressionEnabled filePath n d q = d q := by
  induction n generalizing d with
  | zero => rfl
  | succ i ih =>
      rw [shiftSlots, ih]
      have hplain : ∀ d : Dir Bytes β, (d.rename (rotatedPath filePath ↑(i + 1))
          (rotatedPath filePath (↑(i + 1) + 1))).1 q = d q :=
        fun d => Dir.rename_apply_of_ne d (rotated_ne h _).1 (rotated_ne h _).1
      have hgz : (d.rename (rotatedGzPath filePath ↑(i + 1))
          (rotatedGzPath filePath (↑(i + 1) + 1))).1 q = d q :=
        Dir.rename_apply_of_ne d (rotated_ne h _).2 (rotated_ne h _).2
      unfold shiftSlot
      split
      · -- The fallback renames in the directory that the first rename left.
        generalize d.rename (rotatedGzPath filePath ↑(i + 1)) _ = renamed at hgz ⊢
        obtain ⟨d', moved⟩ := renamed
        cases moved with
        | true => exact hgz
        | false => exact (hplain d').trans hgz
      · exact hplain d

/-- A rotation leaves a path alone that does not start with its active path. -/
theorem rotateLogs_apply_of_foreign (h : ¬ filePath <+: q) (config : Config) (now : Int64)
    (mallocOk : Bool) (r : Rotation β) :
    (rotateLogs config filePath now mallocOk r).dir q = r.dir q := by
  have hself : q ≠ filePath := by
    rintro rfl
    exact h (List.prefix_refl _)
  have hunique : q ≠ uniquePath filePath now r.rotationCounter := by
    rintro rfl
    exact h ⟨_, by rw [uniquePath, List.append_assoc, List.append_assoc, List.append_assoc]⟩
  have hrot := rotated_ne h config.configGetMaxNumberOfFiles.toInt
  unfold rotateLogs
  simp only
  split
  · show (Dir.rename _ _ _).1 q = _
    rw [Dir.rename_apply_of_ne _ hself hunique, shiftSlots_apply_of_foreign h, Dir.unlink_apply,
      if_neg hrot.1, Dir.unlink_apply, if_neg hrot.2]
  · show (Dir.rename _ _ _).1 q = _
    rw [Dir.rename_apply_of_ne _ hself (rotated_ne h 1).1, shiftSlots_apply_of_foreign h,
      Dir.unlink_apply, if_neg hrot.1, Dir.unlink_apply, if_neg hrot.2]

end Frame

/-- The directory after a rotation, with the paths written as names. -/
theorem rotateLogs_dir (config : Config) (filePath : Bytes) (now : Int64) (mallocOk : Bool)
    (r : Rotation β) (M : ℕ) (hM : config.configGetMaxNumberOfFiles.toInt = M) :
    (rotateLogs config filePath now mallocOk r).dir
      = ((shiftSlots config.configGetCompressionEnabled filePath (M - 1)
          ((r.dir.unlink (FileName.render filePath (.gz M))).unlink
            (FileName.render filePath (.plain M)))).rename (FileName.render filePath .active)
          (FileName.render filePath
            (if config.configGetCompressionEnabled then .unique now r.rotationCounter
              else .plain 1))).1 := by
  have hm : (M - 1 : Int).toNat = M - 1 := by omega
  unfold rotateLogs
  simp only [hM, hm]
  cases config.configGetCompressionEnabled <;> rfl

/-! ### Without compression -/

/-- Without compression the loop of `rotate_logs` is a plain shift of the slots. -/
theorem shiftSlots_uncompressed (filePath : Bytes) (m : ℕ) (d : Dir Bytes β) :
    shiftSlots false filePath m d
      = Dir.shiftUp (fun i => FileName.render filePath (.plain i)) m d := by
  induction m generalizing d with
  | zero => rfl
  | succ m ih =>
      rw [shiftSlots, Dir.shiftUp, ih]
      rfl

/-- The files of one output after a rotation without compression. -/
structure Rotated (M : ℕ) (filePath : Bytes) (d d' : Dir Bytes β) : Prop where
  /-- slot `i + 1` is the old slot `i`, present or absent -/
  shifted : ∀ i, 1 ≤ i → i < M →
    d' (FileName.render filePath (.plain (i + 1))) = d (FileName.render filePath (.plain i))
  /-- slot 1 is the old active file, present or absent -/
  first : d' (FileName.render filePath (.plain 1)) = d (FileName.render filePath .active)
  /-- there is no active file -/
  active : d' (FileName.render filePath .active) = none
  /-- the oldest compressed file is removed as well -/
  oldestGz : d' (FileName.render filePath (.gz M)) = none
  /-- everything else is as before: other slots, compressed files and other outputs -/
  other : ∀ q, q ≠ FileName.render filePath .active → q ≠ FileName.render filePath (.gz M) →
    (∀ i, 1 ≤ i → i ≤ M → q ≠ FileName.render filePath (.plain i)) → d' q = d q

/-- A rotation without compression shifts the slots and loses the oldest one only. -/
theorem rotateLogs_uncompressed (config : Config) (filePath : Bytes) (now : Int64)
    (mallocOk : Bool) (r : Rotation β) (M : ℕ) (hM : config.configGetMaxNumberOfFiles.toInt = M)
    (hpos : 1 ≤ M) (hoff : config.configGetCompressionEnabled = false) :
    Rotated M filePath r.dir (rotateLogs config filePath now mallocOk r).dir := by
  set slot : ℕ → Bytes := fun i => FileName.render filePath (.plain i) with hslot
  have hinj : Function.Injective slot := fun i j h => by
    simpa using render_injective filePath h
  -- The directory before the shift: the oldest slot is free.
  set d₀ : Dir Bytes β := (r.dir.unlink (FileName.render filePath (.gz M))).unlink (slot M) with hd₀
  have hd₀_apply : ∀ q, q ≠ slot M → q ≠ FileName.render filePath (.gz M) → d₀ q = r.dir q := by
    intro q hplain hgz
    rw [hd₀, Dir.unlink_apply, if_neg hplain, Dir.unlink_apply, if_neg hgz]
  have hfree : d₀ (slot (M - 1 + 1)) = none := by
    rw [show M - 1 + 1 = M by omega, hd₀, Dir.unlink_self]
  obtain ⟨hfirst, hshift⟩ := Dir.shiftUp_apply hinj (M - 1) d₀ hfree
  have hkeep : ∀ q, (∀ i, 1 ≤ i → i ≤ M → q ≠ slot i) →
      Dir.shiftUp slot (M - 1) d₀ q = d₀ q :=
    fun q hq => Dir.shiftUp_apply_of_ne slot (M - 1) d₀ fun i h1 hi => hq i h1 (by omega)
  -- The active file moves to the free first slot.
  have hdir : ∀ q, (rotateLogs config filePath now mallocOk r).dir q
      = if q = slot 1 then Dir.shiftUp slot (M - 1) d₀ (FileName.render filePath .active)
        else if q = FileName.render filePath .active then none
        else Dir.shiftUp slot (M - 1) d₀ q := by
    intro q
    rw [← Dir.rename_apply_of_vacant hfirst q, rotateLogs_dir config filePath now mallocOk r M hM,
      hoff, if_neg (by decide), shiftSlots_uncompressed]
  have hactive : ∀ i, FileName.render filePath .active ≠ slot i := fun i =>
    render_ne (by simp)
  refine ⟨?_, ?_, ?_, ?_, ?_⟩
  · intro i h1 hi
    rw [hdir, if_neg (fun h => by have := hinj h; omega), if_neg (hactive (i + 1)).symm,
      hshift i h1 (by omega), hd₀_apply _ (fun h => by have := hinj h; omega) (render_ne (by simp))]
  · rw [hdir, if_pos rfl, hkeep _ fun i _ _ => hactive i,
      hd₀_apply _ (hactive M) (render_ne (by simp))]
  · rw [hdir, if_neg (hactive 1), if_pos rfl]
  · rw [hdir, if_neg (render_ne (by simp)), if_neg (render_ne (by simp)),
      hkeep _ fun i _ _ => render_ne (by simp), hd₀, Dir.unlink_apply, if_neg (render_ne (by simp)),
      Dir.unlink_self]
  · intro q hqa hqg hqs
    rw [hdir, if_neg (hqs 1 le_rfl hpos), if_neg hqa, hkeep q hqs,
      hd₀_apply q (hqs M hpos le_rfl) hqg]

end ProcessAnalyzer
