import ProcessAnalyzer.Model.GzipFile
import ProcessAnalyzer.Proofs.CompressionSteps

/-!
# `ProcessAnalyzer.Proofs.FailureSafety`: when the worker removes the only good copy

The worker unlinks the original of a job when `compress_file_gzip` returned 0 and the rename
succeeded. The return value covers `fopen`, `gzopen` and every `gzwrite`. It does not cover a
read error, which ends the loop like the end of the file, and not the final flush, because
the result of `gzclose` is dropped.

* `copyLoop_spec`: what the loop returns, from the failures of its calls alone.
* `compressJob_dir`, `original_of_failureNoticed`: the directory after a job.
* `originalSafe_iff`: the original is safe exactly when a failure is noticed, or there is
  no read error in front of the end of the file and the final flush succeeds.
* `compressJob_eq_workerCall`: without failures a job is three steps of the worker thread.
-/

set_option autoImplicit false

namespace ProcessAnalyzer

open ProcessAnalyzer.Lib

/-! ### The loop -/

section Loop
variable (calls : GzipCalls) (content : Bytes)

/-- The position in the file at the `i`-th `fread`, if the loop gets there. -/
def readOffset : ℕ → ℕ
  | 0 => 0
  | i + 1 => readOffset i + blockSize calls i

/-- The calls of `fread` get to the `i`-th one, and there are bytes left. -/
def ReadsAt (i : ℕ) : Prop :=
  readOffset calls i < content.length ∧ ∀ j < i, 0 < calls.readLimit j

/-- A read error in front of the end of the file leaves an `fread` without a byte. -/
def ReadStops : Prop := ∃ i, ReadsAt calls content i ∧ calls.readLimit i = 0

/-- A block is read that `gzwrite` does not take. -/
def GzwriteFails : Prop :=
  ∃ i, ReadsAt calls content i ∧ 0 < calls.readLimit i ∧ calls.gzwriteOk i = false

theorem blockSize_eq_zero_iff (i : ℕ) : blockSize calls i = 0 ↔ calls.readLimit i = 0 := by
  unfold blockSize bufferSize
  omega

/-- The position never goes back. -/
theorem readOffset_mono {i j : ℕ} (h : i ≤ j) : readOffset calls i ≤ readOffset calls j := by
  induction j, h using Nat.le_induction with
  | base => exact le_rfl
  | succ j _ ih => exact ih.trans (Nat.le_add_right _ _)

/-- The loop ends at the end of the file, and at a read error without a byte. -/
theorem copyLoop_of_end {i : ℕ} {rest : Bytes} (h : rest = [] ∨ calls.readLimit i = 0)
    (out : Bytes) : copyLoop calls i rest out = (0, out) := by
  rw [copyLoop, if_pos]
  rw [List.take_eq_nil_iff, blockSize_eq_zero_iff]
  exact h.symm

/-- A block that is read is written, or the loop fails. -/
theorem copyLoop_of_block {i : ℕ} {rest : Bytes} (hrest : rest ≠ [])
    (hlimit : 0 < calls.readLimit i) (out : Bytes) :
    copyLoop calls i rest out
      = if calls.gzwriteOk i then
          copyLoop calls (i + 1) (rest.drop (blockSize calls i))
            (out ++ rest.take (blockSize calls i))
        else (-3, out) := by
  have hblock : rest.take (blockSize calls i) ≠ [] := by
    rw [Ne, List.take_eq_nil_iff, blockSize_eq_zero_iff]
    exact not_or.mpr ⟨by omega, hrest⟩
  rw [copyLoop, if_neg hblock]

/-- A read at or behind the `i`-th one that has bytes left is not reached past a read error,
nor past the end of the file. -/
theorem ReadsAt.lt_of_end {i n : ℕ} (h : ReadsAt calls content n)
    (hend : content.length ≤ readOffset calls i) : n < i := by
  by_contra hle
  have hmono := readOffset_mono calls (Nat.le_of_not_lt hle)
  have hlt := h.1
  omega

/-- When the reads and writes in front of the end of the file succeeded, none failed. -/
theorem not_fails_of_end {i : ℕ}
    (hbefore : ∀ j < i, 0 < calls.readLimit j ∧ calls.gzwriteOk j = true)
    (hend : content.length ≤ readOffset calls i) :
    ¬ GzwriteFails calls content ∧ ¬ ReadStops calls content := by
  constructor
  · rintro ⟨m, hm, -, hfail⟩
    rw [(hbefore m (hm.lt_of_end calls content hend)).2] at hfail
    cases hfail
  · rintro ⟨m, hm, hzero⟩
    exact (hbefore m (hm.lt_of_end calls content hend)).1.ne' hzero

/-- A read error is the end of the loop, so no write fails behind it. -/
theorem not_gzwriteFails_of_readError {i : ℕ}
    (hbefore : ∀ j < i, 0 < calls.readLimit j ∧ calls.gzwriteOk j = true)
    (hlimit : calls.readLimit i = 0) : ¬ GzwriteFails calls content := by
  rintro ⟨m, hm, hpos, hfail⟩
  rcases Nat.lt_trichotomy m i with hmi | rfl | hmi
  · rw [(hbefore m hmi).2] at hfail
    cases hfail
  · exact hpos.ne' hlimit
  · exact (hm.2 i hmi).ne' hlimit

/-- What the loop returns when it is at its `i`-th `fread`. All blocks before were read and
written. -/
theorem copyLoop_spec (i : ℕ)
    (hbefore : ∀ j < i, 0 < calls.readLimit j ∧ calls.gzwriteOk j = true) :
    let r := copyLoop calls i (content.drop (readOffset calls i))
      (content.take (readOffset calls i))
    (GzwriteFails calls content → r.1 = -3) ∧
    (¬ GzwriteFails calls content → r.1 = 0 ∧ (r.2 = content ↔ ¬ ReadStops calls content)) := by
  -- The induction is on the bytes that are left.
  induction hn : content.length - readOffset calls i using Nat.strong_induction_on
    generalizing i with
  | _ n ih =>
    by_cases hend : content.length ≤ readOffset calls i
    -- the end of the file: nothing went wrong before
    · obtain ⟨hwrites, hreads⟩ := not_fails_of_end calls content hbefore hend
      rw [copyLoop_of_end calls (Or.inl (List.drop_eq_nil_of_le hend))]
      refine ⟨fun h => absurd h hwrites, fun _ => ⟨rfl, ?_⟩⟩
      exact iff_of_true (List.take_of_length_le hend) hreads
    · have hat : ReadsAt calls content i :=
        ⟨Nat.lt_of_not_le hend, fun j hj => (hbefore j hj).1⟩
      by_cases hlimit : calls.readLimit i = 0
      -- a read error: the loop ends as at the end of the file
      · have hwrites := not_gzwriteFails_of_readError calls content hbefore hlimit
        rw [copyLoop_of_end calls (Or.inr hlimit)]
        refine ⟨fun h => absurd h hwrites, fun _ => ⟨rfl, ?_⟩⟩
        refine iff_of_false (fun htake => ?_) (fun h => h ⟨i, hat, hlimit⟩)
        have hlen := congrArg List.length htake
        rw [List.length_take] at hlen
        omega
      · have hpos : 0 < calls.readLimit i := Nat.pos_of_ne_zero hlimit
        have hrest : content.drop (readOffset calls i) ≠ [] := by
          rw [Ne, List.drop_eq_nil_iff]
          exact hend
        rw [copyLoop_of_block calls hrest hpos]
        cases hwrite : calls.gzwriteOk i with
        -- the block is lost, and the return value says so
        | false =>
            have hfails : GzwriteFails calls content := ⟨i, hat, hpos, hwrite⟩
            exact ⟨fun _ => rfl, fun h => absurd hfails h⟩
        | true =>
            have hoffset : readOffset calls (i + 1) = readOffset calls i + blockSize calls i := rfl
            have hblock := (blockSize_eq_zero_iff calls i).not.mpr hlimit
            have hnext : ∀ j < i + 1, 0 < calls.readLimit j ∧ calls.gzwriteOk j = true := by
              intro j hj
              rcases Nat.lt_succ_iff_lt_or_eq.mp hj with hj | rfl
              · exact hbefore j hj
              · exact ⟨hpos, hwrite⟩
            have hstep := ih (content.length - readOffset calls (i + 1)) (by omega) (i + 1) hnext
              rfl
            rw [hoffset, List.take_add, ← List.drop_drop] at hstep
            exact hstep

end Loop

/-! ### The names of a job -/

/-- Removing an extension removes one dot. -/
theorem count_dot_of_cutExtension {path base : Bytes} (h : cutExtension path = some base) :
    path.count 46 = base.count 46 + 1 := by
  obtain ⟨i, hi, rfl⟩ := Option.map_eq_some_iff.mp h
  obtain ⟨rest, hrest, hpath⟩ := exists_append_of_strrchr hi
  calc path.count 46 = (path.take i ++ 46 :: rest).count 46 := by rw [← hpath]
    _ = (path.take i).count 46 + 1 := by
      rw [List.count_append, List.count_cons_self, List.count_eq_zero_of_not_mem hrest]

/-- The final name of a job is not the name of its original, which has one more dot. -/
theorem finalGzPath_ne_job {job base : Bytes} (h : extractBasePath job = some base) :
    base ++ ascii ".1" ++ gzSuffix ≠ job := by
  unfold extractBasePath at h
  split at h
  · cases h
  · obtain ⟨p₂, hp₂, h₃⟩ := Option.bind_eq_some_iff.mp h
    obtain ⟨p₁, hp₁, h₂⟩ := Option.bind_eq_some_iff.mp hp₂
    have hcount : job.count 46 = base.count 46 + 3 := by
      rw [count_dot_of_cutExtension hp₁, count_dot_of_cutExtension h₂,
        count_dot_of_cutExtension h₃]
    have hsuffix : (ascii ".1" ++ gzSuffix).count 46 = 2 := by decide
    intro heq
    rw [← heq, List.append_assoc, List.count_append, hsuffix] at hcount
    omega

theorem gzPath_ne_job (job : Bytes) : job ++ gzSuffix ≠ job := by
  intro h
  have hlen := congrArg List.length h
  rw [List.length_append] at hlen
  have hsuffix : gzSuffix.length = 3 := by decide
  omega

/-! ### The job -/

section Job
variable (calls : GzipCalls) (job : Bytes) (d : Dir Bytes DiskFile)

/-- A failure that the worker notices: the path has no base or a name does not fit its
buffer, or `fopen`, `gzopen`, a `gzwrite` or `rename` fails. -/
def FailureNoticed (content : Bytes) : Prop :=
  (∀ base, extractBasePath job = some base →
    pathMax ≤ (job ++ gzSuffix).length ∨
    pathMax ≤ (base ++ ascii ".1" ++ gzSuffix).length) ∨
  calls.fopenOk = false ∨ calls.gzopenOk = false ∨ GzwriteFails calls content ∨
  calls.renameOk = false

/-- The job loses nothing. If the original is gone, the file under the final name decompresses
to its content, and otherwise the original is as it was. -/
def OriginalSafe (original : DiskFile) : Prop :=
  let after := (compressJob calls job d).1
  (after job = none → ∃ base gz, extractBasePath job = some base ∧
    after (base ++ ascii ".1" ++ gzSuffix) = some gz ∧ gz.inflated = some original.bytes) ∧
  (after job ≠ none → after job = some original)

variable {calls job d} {original : DiskFile}

/-- What `compress_file_gzip` does: it fails and writes at most to its target, or it
reports success with the target written. -/
theorem compressFileGzip_cases (calls : GzipCalls) {src : Bytes} (dst : Bytes) {file : DiskFile}
    (hfile : d src = some file) :
    let r := compressFileGzip calls src dst d
    (r.rc ≠ 0 ∧ (∀ path, path ≠ dst → r.dir path = d path) ∧
      (calls.fopenOk = false ∨ calls.gzopenOk = false ∨ GzwriteFails calls file.bytes)) ∨
    (r.rc = 0 ∧ calls.fopenOk = true ∧ calls.gzopenOk = true ∧ ¬ GzwriteFails calls file.bytes ∧
      r.dir = d.store dst ⟨calls.gzBytes,
        if calls.gzcloseOk then some (copyLoop calls 0 file.bytes []).2 else none⟩) := by
  intro r
  have hr : r = compressFileGzip calls src dst d := rfl
  obtain ⟨hfails, hsucceeds⟩ := copyLoop_spec calls file.bytes 0 (fun j hj => by omega)
  simp only [compressFileGzip, hfile] at hr
  by_cases hfopen : calls.fopenOk = false
  · rw [if_pos hfopen] at hr
    refine Or.inl ⟨?_, fun _ _ => by rw [hr], Or.inl hfopen⟩
    rw [hr]
    exact Int.neg_ne_zero.mpr one_ne_zero
  rw [if_neg hfopen] at hr
  by_cases hgzopen : calls.gzopenOk = false
  · rw [if_pos hgzopen] at hr
    refine Or.inl ⟨?_, fun _ _ => by rw [hr], Or.inr (Or.inl hgzopen)⟩
    rw [hr]
    exact Int.neg_ne_zero.mpr two_ne_zero
  rw [if_neg hgzopen] at hr
  by_cases hwrite : GzwriteFails calls file.bytes
  · have hrc : (copyLoop calls 0 file.bytes []).1 = -3 := hfails hwrite
    rw [hrc, if_neg (by decide)] at hr
    refine Or.inl ⟨?_, fun path hpath => ?_, Or.inr (Or.inr hwrite)⟩
    · rw [hr]
      exact Int.neg_ne_zero.mpr three_ne_zero
    · rw [hr]
      exact (Dir.store_apply _ _ _ _).trans (if_neg hpath)
  · have hrc : (copyLoop calls 0 file.bytes []).1 = 0 := (hsucceeds hwrite).1
    rw [hrc, if_pos rfl] at hr
    rw [Bool.not_eq_false] at hfopen hgzopen
    exact Or.inr ⟨by rw [hr], hfopen, hgzopen, hwrite, by rw [hr]⟩

/-- A noticed failure leaves the original in place. -/
theorem original_of_failureNoticed (hfile : d job = some original)
    (h : FailureNoticed calls job original.bytes) :
    (compressJob calls job d).1 job = some original := by
  unfold compressJob
  cases hbase : extractBasePath job with
  | none => exact hfile
  | some base =>
      dsimp only
      split_ifs with hgz hfinal hrc
      · exact hfile
      · exact hfile
      -- The compression reports success, so that only the rename is left to fail.
      · rcases compressFileGzip_cases calls (job ++ gzSuffix) hfile with
          ⟨hne, -⟩ | ⟨-, hfopen, hgzopen, hwrite, hdir⟩
        · exact absurd hrc hne
        · have hrename : calls.renameOk = false := by
            rcases h with hpaths | hf | hf | hf | hf
            · rcases hpaths base hbase with hlen | hlen
              · exact absurd hlen hgz
              · exact absurd hlen hfinal
            · rw [hf] at hfopen
              cases hfopen
            · rw [hf] at hgzopen
              cases hgzopen
            · exact absurd hf hwrite
            · exact hf
          rw [hrename]
          show (compressFileGzip calls job (job ++ gzSuffix) d).dir job = some original
          rw [hdir, Dir.store_apply, if_neg (gzPath_ne_job job).symm, hfile]
      · rcases compressFileGzip_cases calls (job ++ gzSuffix) hfile with
          ⟨-, hdir, -⟩ | ⟨hzero, -⟩
        · exact (hdir job (gzPath_ne_job job).symm).trans hfile
        · exact absurd hzero hrc

/-- The file that a job without a noticed failure leaves: what the loop has written, if the
final flush succeeds. -/
def compressedFile (calls : GzipCalls) (original : DiskFile) : DiskFile :=
  ⟨calls.gzBytes, if calls.gzcloseOk then some (copyLoop calls 0 original.bytes []).2 else none⟩

/-- A job without a noticed failure stores its result, renames it and removes the original. -/
theorem compressJob_dir (hfile : d job = some original)
    (h : ¬ FailureNoticed calls job original.bytes) :
    ∃ base, extractBasePath job = some base ∧
      (compressJob calls job d).1
        = ((d.store (job ++ gzSuffix) (compressedFile calls original)).rename (job ++ gzSuffix)
            (base ++ ascii ".1" ++ gzSuffix)).1.unlink job := by
  simp only [FailureNoticed, not_or, not_forall, Bool.not_eq_false, Nat.not_le] at h
  obtain ⟨⟨base, hbase, hgz, hfinal⟩, hfopen, hgzopen, hwrite, hrename⟩ := h
  refine ⟨base, hbase, ?_⟩
  rcases compressFileGzip_cases calls (job ++ gzSuffix) hfile with
    ⟨-, -, hfail⟩ | ⟨hrc, -, -, -, hdir⟩
  · rw [hfopen, hgzopen] at hfail
    simp [hwrite] at hfail
  · -- The compressed file is there, so the rename finds its source.
    have hsource : (d.store (job ++ gzSuffix) (compressedFile calls original)) (job ++ gzSuffix)
        = some (compressedFile calls original) := by
      rw [Dir.store_apply, if_pos rfl]
    unfold compressJob
    simp only [hbase, if_neg (Nat.not_le.mpr hgz), if_neg (Nat.not_le.mpr hfinal), hrc, if_true,
      hrename, hdir]
    rw [← compressedFile, Dir.rename_of_some _ hsource]

/-- Such a job removes the original and has its result under the final name. -/
theorem compressJob_of_not_failureNoticed (hfile : d job = some original)
    (h : ¬ FailureNoticed calls job original.bytes) :
    ∃ base, extractBasePath job = some base ∧ (compressJob calls job d).1 job = none ∧
      (compressJob calls job d).1 (base ++ ascii ".1" ++ gzSuffix)
        = some (compressedFile calls original) := by
  obtain ⟨base, hbase, hdir⟩ := compressJob_dir hfile h
  have hsource : (d.store (job ++ gzSuffix) (compressedFile calls original)) (job ++ gzSuffix)
      = some (compressedFile calls original) := by
    rw [Dir.store_apply, if_pos rfl]
  refine ⟨base, hbase, ?_, ?_⟩
  · rw [hdir, Dir.unlink_self]
  · rw [hdir, Dir.unlink_apply, if_neg (finalGzPath_ne_job hbase),
      Dir.rename_apply_target _ hsource]

/-- The result decompresses to the original exactly when nothing was lost. -/
theorem inflated_compressedFile_iff (hwrites : ¬ GzwriteFails calls original.bytes) :
    (compressedFile calls original).inflated = some original.bytes
      ↔ ¬ ReadStops calls original.bytes ∧ calls.gzcloseOk = true := by
  have hloop : (copyLoop calls 0 original.bytes []).2 = original.bytes
      ↔ ¬ ReadStops calls original.bytes :=
    ((copyLoop_spec calls original.bytes 0 (fun j hj => by omega)).2 hwrites).2
  unfold compressedFile
  cases hclose : calls.gzcloseOk with
  | false => simp
  | true => simpa using hloop

/-- A job without a noticed failure is safe exactly when its result decompresses to the
original. -/
theorem originalSafe_iff_inflated (hfile : d job = some original)
    (h : ¬ FailureNoticed calls job original.bytes) :
    OriginalSafe calls job d original
      ↔ (compressedFile calls original).inflated = some original.bytes := by
  obtain ⟨base, hbase, hgone, hfinal⟩ := compressJob_of_not_failureNoticed hfile h
  constructor
  · intro hsafe
    obtain ⟨base', gz, hbase', hgz, hinflated⟩ := hsafe.1 hgone
    rw [hbase, Option.some.injEq] at hbase'
    subst hbase'
    rw [hfinal, Option.some.injEq] at hgz
    rw [hgz]
    exact hinflated
  · intro hinflated
    exact ⟨fun _ => ⟨base, _, hbase, hfinal, hinflated⟩, fun hpresent => absurd hgone hpresent⟩

/-- Failure safety. For every content of the original and every pattern of failures, the
original is safe exactly when a failure is noticed, or no read error hides a part of the file
and the final flush succeeds. -/
theorem originalSafe_iff (hfile : d job = some original) :
    OriginalSafe calls job d original ↔
      FailureNoticed calls job original.bytes ∨
        (¬ ReadStops calls original.bytes ∧ calls.gzcloseOk = true) := by
  by_cases hnoticed : FailureNoticed calls job original.bytes
  · have hkept := original_of_failureNoticed hfile hnoticed
    refine iff_of_true ⟨fun hnone => ?_, fun _ => hkept⟩ (Or.inl hnoticed)
    rw [hkept] at hnone
    cases hnone
  · have hwrites : ¬ GzwriteFails calls original.bytes := fun hw =>
      hnoticed (Or.inr (Or.inr (Or.inr (Or.inl hw))))
    rw [or_iff_right hnoticed, originalSafe_iff_inflated hfile hnoticed,
      inflated_compressedFile_iff hwrites]

/-- Without failures, a job is the three steps of the worker thread on its file. -/
theorem compressJob_eq_workerCall (hfile : d job = some original)
    (hnoticed : ¬ FailureNoticed calls job original.bytes)
    (hreads : ¬ ReadStops calls original.bytes) (hclose : calls.gzcloseOk = true)
    {s : Threads DiskFile} (hdir : s.dir = d) (hworker : s.worker = .compress job) :
    let call := workerCall fun f : DiskFile => ⟨calls.gzBytes, some f.bytes⟩
    ((call s).bind fun r₁ => (call r₁.1).bind fun r₂ => call r₂.1).map (fun r => r.1.dir)
      = some (compressJob calls job d).1 := by
  intro call
  have hwrites : ¬ GzwriteFails calls original.bytes := fun hw =>
    hnoticed (Or.inr (Or.inr (Or.inr (Or.inl hw))))
  obtain ⟨base, hbase, hjob⟩ := compressJob_dir hfile hnoticed
  have hresult : compressedFile calls original = ⟨calls.gzBytes, some original.bytes⟩ := by
    rw [← (inflated_compressedFile_iff hwrites).mpr ⟨hreads, hclose⟩]
    rfl
  have hsource : (d.store (job ++ gzSuffix) (compressedFile calls original)) (job ++ gzSuffix)
      = some (compressedFile calls original) := by
    rw [Dir.store_apply, if_pos rfl]
  rw [hresult] at hsource hjob
  have hdata : s.dir job = some original := hdir ▸ hfile
  rw [hjob, Dir.rename_of_some _ hsource]
  simp only [call, workerCall, hworker, hbase, hdata, hdir, Option.bind_some, renameCall,
    Dir.rename_of_some _ hsource, if_true, unlinkCall, Option.map_some]

end Job

/-! ### Two jobs -/

/-- A rotated file with three bytes. -/
def abcJob : Bytes := ascii "/tmp/p.log.1.17.0"

/-- The directory with that file only. -/
def abcDir : Dir Bytes DiskFile := fun path =>
  if path = abcJob then some ⟨ascii "abc", none⟩ else none

/-- No failure of the job is noticed as long as the calls that are tested succeed. -/
theorem not_failureNoticed_abc {calls : GzipCalls} (hfopen : calls.fopenOk = true)
    (hgzopen : calls.gzopenOk = true) (hwrite : ∀ i, calls.gzwriteOk i = true)
    (hrename : calls.renameOk = true) (content : Bytes) :
    ¬ FailureNoticed calls abcJob content := by
  rintro (hpaths | hfail | hfail | ⟨i, -, -, hfail⟩ | hfail)
  · rcases hpaths (ascii "/tmp/p.log") (by decide) with hlen | hlen
    · exact absurd hlen (by decide)
    · exact absurd hlen (by decide)
  · simp [hfopen] at hfail
  · simp [hgzopen] at hfail
  · simp [hwrite] at hfail
  · simp [hrename] at hfail

/-- Without failures the original is replaced by a complete compressed file. -/
theorem originalSafe_abc : OriginalSafe {} abcJob abcDir ⟨ascii "abc", none⟩ := by
  apply (originalSafe_iff (if_pos rfl)).mpr
  refine Or.inr ⟨?_, rfl⟩
  rintro ⟨i, -, hzero⟩
  have hlimit : bufferSize ≠ 0 := by decide
  exact hlimit hzero

/-- A read error behind the first two bytes. -/
def readErrorCalls : GzipCalls where
  readLimit := fun i => if i = 0 then 2 else 0

/-- The loop stops behind the first two bytes. -/
theorem copyLoop_readErrorCalls :
    (copyLoop readErrorCalls 0 (ascii "abc") []).2 = ascii "ab" := by
  have hwrite : readErrorCalls.gzwriteOk 0 = true := rfl
  rw [copyLoop_of_block readErrorCalls (by decide) (by decide), if_pos hwrite,
    copyLoop_of_end readErrorCalls (Or.inr rfl)]
  decide

/-- After that read error, and after a final flush that fails, the original is gone, and the
compressed file does not have its content. -/
theorem not_originalSafe_abc :
    ¬ OriginalSafe readErrorCalls abcJob abcDir ⟨ascii "abc", none⟩ ∧
    ¬ OriginalSafe { gzcloseOk := false } abcJob abcDir ⟨ascii "abc", none⟩ := by
  have hfile : abcDir abcJob = some ⟨ascii "abc", none⟩ := if_pos rfl
  constructor
  · rw [originalSafe_iff_inflated hfile (not_failureNoticed_abc rfl rfl (fun _ => rfl) rfl _)]
    show some (copyLoop readErrorCalls 0 (ascii "abc") []).2 ≠ some (ascii "abc")
    rw [copyLoop_readErrorCalls]
    decide
  · rw [originalSafe_iff_inflated hfile (not_failureNoticed_abc rfl rfl (fun _ => rfl) rfl _)]
    show none ≠ some (ascii "abc")
    decide

end ProcessAnalyzer
