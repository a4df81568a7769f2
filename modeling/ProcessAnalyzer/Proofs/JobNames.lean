import ProcessAnalyzer.Model.JobNames
import ProcessAnalyzer.Proofs.CompressionSteps

/-!
# `ProcessAnalyzer.Proofs.JobNames`: a job's name has its base path

A rotation with compression appends three extensions to the base path, and the worker cuts the
last three extensions off again. The base path can have dots of its own, but the decimal
numbers have none. What remains are the sizes of the buffers.

* `extractBasePathBuffer_eq`: in its buffer, `extract_base_path` is the function on lists.
* `compressJob_apply`: a job changes its own path and the two names of the worker, and nothing
  else.
* `rotatedJob_decodes`: the worker finds the base path of every name that fits, and two base
  paths never have the same final name.
-/

set_option autoImplicit false

namespace ProcessAnalyzer

open ProcessAnalyzer.Lib

/-! ### The buffers -/

/-- A string in its buffer has its length, and the copy is the string. -/
theorem extractBasePathBuffer_eq {path : Bytes} {size : ℕ} (hnul : (0 : UInt8) ∉ path)
    (hfits : path.length < size) :
    extractBasePathBuffer (path ++ [0]) size = extractBasePath path := by
  have htake : (path ++ [0]).take size = path ++ [0] := by
    rw [List.take_of_length_le]
    rw [List.length_append, List.length_singleton]
    exact hfits
  have hlen : strnlen (path ++ [0]) size = path.length := by
    rw [strnlen, htake, cString_append_of_notMem hnul]
    simp [cString]
  unfold extractBasePathBuffer extractBasePath
  rw [if_neg (Nat.ne_zero_of_lt hfits)]
  simp only [hlen, List.take_left, List.length_eq_zero_iff, Nat.not_le.mpr hfits, or_false]
  split
  · rfl
  · -- The three rounds of the loop.
    show (cutExtension path >>= fun b => cutExtension b >>= fun b => cutExtension b >>= pure) = _
    cases cutExtension path with
    | none => rfl
    | some p =>
        show (cutExtension p >>= fun b => cutExtension b >>= pure) = (cutExtension p).bind _
        cases cutExtension p with
        | none => rfl
        | some q => exact bind_pure (cutExtension q)

/-- A job that fits has the names of `compressJob`. -/
theorem workerNames_eq {job : Bytes} (hnul : (0 : UInt8) ∉ job) (hfits : job.length < pathMax) :
    workerNames job
      = match extractBasePath job with
        | none => none
        | some basePath =>
            if (job ++ gzSuffix).length ≥ pathMax then none
            else if (basePath ++ ascii ".1" ++ gzSuffix).length ≥ pathMax then none
            else some (job ++ gzSuffix, basePath ++ ascii ".1" ++ gzSuffix) := by
  have hbase := extractBasePathBuffer_eq hnul hfits
  unfold workerNames
  generalize extractBasePathBuffer (job ++ [0]) pathMax = base at hbase ⊢
  subst hbase
  rfl

/-! ### The files of a job -/

section Files
variable (calls : GzipCalls) {job : Bytes} (d : Dir Bytes DiskFile)

/-- A job that is skipped changes no file. -/
theorem compressJob_of_none (hnul : (0 : UInt8) ∉ job) (hfits : job.length < pathMax)
    (h : workerNames job = none) : (compressJob calls job d).1 = d := by
  rw [workerNames_eq hnul hfits] at h
  unfold compressJob
  cases hbase : extractBasePath job with
  | none => rfl
  | some base =>
      rw [hbase] at h
      dsimp only at h ⊢
      split_ifs at h with hgz hfinal
      · rw [if_pos hgz]
      · rw [if_neg hgz, if_pos hfinal]

/-- The compression changes its target only. -/
theorem compressFileGzip_apply (src dst : Bytes) {path : Bytes} (hpath : path ≠ dst) :
    (compressFileGzip calls src dst d).dir path = d path := by
  have hstore : ∀ file : DiskFile, (d.store dst file) path = d path := fun file => by
    rw [Dir.store_apply, if_neg hpath]
  unfold compressFileGzip
  cases d src with
  | none => rfl
  | some file =>
      dsimp only
      split
      · rfl
      · split
        · rfl
        · split
          · exact hstore _
          · exact hstore _

/-- A job changes its own path and the two names of the worker, and nothing else. -/
theorem compressJob_apply (hnul : (0 : UInt8) ∉ job) (hfits : job.length < pathMax)
    {gzPath finalGzPath : Bytes} (h : workerNames job = some (gzPath, finalGzPath)) {path : Bytes}
    (hjob : path ≠ job) (hgz : path ≠ gzPath) (hfinal : path ≠ finalGzPath) :
    (compressJob calls job d).1 path = d path := by
  rw [workerNames_eq hnul hfits] at h
  unfold compressJob
  cases hbase : extractBasePath job with
  | none => rfl
  | some base =>
      rw [hbase] at h
      dsimp only at h ⊢
      split_ifs at h with hlen₁ hlen₂
      rw [Option.some.injEq, Prod.mk.injEq] at h
      obtain ⟨rfl, rfl⟩ := h
      rw [if_neg hlen₁, if_neg hlen₂]
      have hcompress := compressFileGzip_apply calls d job _ hgz
      generalize compressFileGzip calls job (job ++ gzSuffix) d = r at hcompress ⊢
      have hrename := Dir.rename_apply_of_ne r.dir hgz hfinal
      generalize r.dir.rename (job ++ gzSuffix) (base ++ ascii ".1" ++ gzSuffix) = moved
        at hrename ⊢
      obtain ⟨d', ok⟩ := moved
      split
      · cases calls.renameOk with
        | false => exact hcompress
        | true =>
            cases ok with
            | false => exact hcompress
            | true =>
                show d'.unlink job path = d path
                rw [Dir.unlink_apply, if_neg hjob]
                exact hrename.trans hcompress
      · exact hcompress

end Files

/-! ### The names -/

/-- The name of a rotated file is longer than the final name. -/
theorem length_finalGzPath_lt (filePath : Bytes) (now : Int64) (counter : UInt32) :
    (filePath ++ ascii ".1" ++ gzSuffix).length < (uniquePath filePath now counter).length := by
  have hnow : 0 < (decInt now.toInt).length := List.length_pos_iff.mpr (decInt_ne_nil _)
  have hcounter : 0 < (decNat counter.toNat).length := List.length_pos_iff.mpr (decNat_ne_nil _)
  have hgz : gzSuffix.length = 3 := rfl
  have hone : (ascii ".1").length = 2 := rfl
  have hdots : (ascii ".1.").length = 3 := rfl
  have hdot : (ascii ".").length = 1 := rfl
  simp only [uniquePath, List.length_append, hgz, hone, hdots, hdot]
  omega

/-- The appended numbers have no NUL. -/
theorem nul_notMem_uniquePath {filePath : Bytes} (hnul : (0 : UInt8) ∉ filePath) (now : Int64)
    (counter : UInt32) : (0 : UInt8) ∉ uniquePath filePath now counter := by
  have hnow : (0 : UInt8) ∉ decInt now.toInt := by
    intro h
    rcases mem_decInt h with h45 | hdigit
    · exact absurd h45 (by decide)
    · exact absurd hdigit (by decide)
  have hcounter : (0 : UInt8) ∉ decNat counter.toNat := fun h =>
    absurd (isDigit_decNat _ _ h) (by decide)
  have hone : (0 : UInt8) ∉ ascii ".1." := by decide
  have hdot : (0 : UInt8) ∉ ascii "." := by decide
  simp [uniquePath, hnul, hnow, hcounter, hone, hdot]

/-- What the worker finds in the path of a job: its base path, and from it the final name. -/
structure DecodesTo (job basePath : Bytes) : Prop where
  base : extractBasePathBuffer (job ++ [0]) pathMax = some basePath
  final : ∀ gzPath finalGzPath, workerNames job = some (gzPath, finalGzPath) →
    finalGzPath = basePath ++ ascii ".1.gz"
  made : (job ++ gzSuffix).length < pathMax →
    workerNames job = some (job ++ gzSuffix, basePath ++ ascii ".1.gz")

/-- The base path is all that the final name depends on. -/
theorem decodesTo_of_extractBasePath {job basePath : Bytes} (hnul : (0 : UInt8) ∉ job)
    (hfits : job.length < pathMax) (hbase : extractBasePath job = some basePath)
    (hfinal : (basePath ++ ascii ".1" ++ gzSuffix).length < job.length) :
    DecodesTo job basePath := by
  have hname : basePath ++ ascii ".1" ++ gzSuffix = basePath ++ ascii ".1.gz" := by
    rw [List.append_assoc]
    rfl
  have hlen : ¬ (basePath ++ ascii ".1" ++ gzSuffix).length ≥ pathMax := by omega
  have hnames := workerNames_eq hnul hfits
  rw [hbase] at hnames
  dsimp only at hnames
  rw [if_neg hlen, hname] at hnames
  refine ⟨by rw [extractBasePathBuffer_eq hnul hfits, hbase], ?_, ?_⟩
  · intro gzPath finalGzPath h
    rw [hnames] at h
    split at h
    · cases h
    · exact (Prod.mk.inj (Option.some.inj h)).2.symm
  · intro hgz
    rw [hnames, if_neg (Nat.not_le.mpr hgz)]

/-- Jobs with different base paths have different final names. -/
theorem DecodesTo.finalGzPath_ne {job job' basePath basePath' : Bytes}
    (h : DecodesTo job basePath) (h' : DecodesTo job' basePath') (hne : basePath ≠ basePath')
    {names names' : Bytes × Bytes} (hnames : workerNames job = some names)
    (hnames' : workerNames job' = some names') : names.2 ≠ names'.2 := by
  rw [h.final names.1 names.2 hnames, h'.final names'.1 names'.2 hnames']
  exact fun heq => hne (List.append_cancel_right heq)

/-- A name that fits reaches the worker as it is. -/
theorem rotatedJob_eq {filePath : Bytes} {now : Int64} {counter : UInt32}
    (hfits : (uniquePath filePath now counter).length < pathMax) :
    rotatedJob filePath now counter = uniquePath filePath now counter := by
  have hcut : (uniquePath filePath now counter).length ≤ pathMax - 1 := Nat.le_sub_one_of_lt hfits
  rw [rotatedJob, jobPath, snprintfCut, List.take_of_length_le hcut, List.take_of_length_le hcut]

/-- And there it has the base path that it was made from. -/
theorem decodesTo_rotatedJob {filePath : Bytes} (hnul : (0 : UInt8) ∉ filePath) (now : Int64)
    (counter : UInt32) (hfits : (uniquePath filePath now counter).length < pathMax) :
    DecodesTo (rotatedJob filePath now counter) filePath := by
  rw [rotatedJob_eq hfits]
  exact decodesTo_of_extractBasePath (nul_notMem_uniquePath hnul now counter) hfits
    (extractBasePath_uniquePath filePath now counter) (length_finalGzPath_lt filePath now counter)

/-- The name that `rotate_logs` builds for a base path, when it fits the path buffers, reaches
the worker uncut and gives the base path and the final name of slot 1 back. The final name of
another base path is another one. -/
theorem rotatedJob_decodes (filePath : Bytes) (now : Int64) (counter : UInt32)
    (hnul : (0 : UInt8) ∉ filePath)
    (hfits : (uniquePath filePath now counter).length < pathMax) :
    rotatedJob filePath now counter = uniquePath filePath now counter ∧
    DecodesTo (rotatedJob filePath now counter) filePath ∧
    ∀ (filePath' : Bytes) (now' : Int64) (counter' : UInt32), (0 : UInt8) ∉ filePath' →
      (uniquePath filePath' now' counter').length < pathMax → filePath ≠ filePath' →
      ∀ names names', workerNames (rotatedJob filePath now counter) = some names →
        workerNames (rotatedJob filePath' now' counter') = some names' → names.2 ≠ names'.2 := by
  have hdecodes := decodesTo_rotatedJob hnul now counter hfits
  refine ⟨rotatedJob_eq hfits, hdecodes, ?_⟩
  intro filePath' now' counter' hnul' hfits' hne names names' hnames hnames'
  exact hdecodes.finalGzPath_ne (decodesTo_rotatedJob hnul' now' counter' hfits') hne hnames
    hnames'

/-- A name of the output `ptime.jsonl`. -/
theorem rotatedJob_jsonl :
    DecodesTo (rotatedJob (ascii "/tmp/ptime.jsonl") 123 4) (ascii "/tmp/ptime.jsonl") :=
  (rotatedJob_decodes (ascii "/tmp/ptime.jsonl") 123 4 (by decide) (by decide)).2.1

end ProcessAnalyzer
