import ProcessAnalyzer.Proofs.ProcReader

/-!
# `ProcessAnalyzer.Proofs.IoValidity`: what the I/O flag says about the I/O file

`read_proc_io` reports whether `/proc/<pid>/io` could be opened, and `read_proc_stat` turns
that into `bo_is_io_valid`. What was found in the file does not matter to it.

* `foldl_ioCounterStep`: the loop over the lines keeps the last value of each counter.
* `ioMarkedRight_iff`: the flag, the counters and the statistics treat the sample as its
  file says exactly when the file cannot be opened or has both counters.
-/

set_option autoImplicit false

namespace ProcessAnalyzer.Stats

open ProcessAnalyzer.Lib

/-- The values that the loop of `read_proc_io` parses for a counter. -/
def ioValues (key content : Bytes) : List UInt64 :=
  ((fgetsAll 256 content).map cString).filterMap (scanIoLine key)

/-- The last `read_bytes` value of a process's I/O file. -/
def parsedReadBytes (files : ProcFiles) (pid : Int32) : Option UInt64 :=
  (files.io pid).bind fun content => (ioValues (ascii "read_bytes:") content).getLast?

/-- The last `write_bytes` value of a process's I/O file. -/
def parsedWriteBytes (files : ProcFiles) (pid : Int32) : Option UInt64 :=
  (files.io pid).bind fun content => (ioValues (ascii "write_bytes:") content).getLast?

/-- The I/O data of a sample is what was read: valid exactly with both counters, which then
have the values in kilobytes. Otherwise both are -1 and the sample stays out of the I/O
totals. -/
structure IoMarkedRight (files : ProcFiles) (pid : Int32) (p : ProcessStateInput) : Prop where
  flag : p.boIsIoValid = true ↔
    (parsedReadBytes files pid).isSome = true ∧ (parsedWriteBytes files pid).isSome = true
  counters : ∀ r w, parsedReadBytes files pid = some r → parsedWriteBytes files pid = some w →
    p.readKbytes = r / 1024 ∧ p.writeKbytes = w / 1024
  missing : parsedReadBytes files pid = none ∨ parsedWriteBytes files pid = none →
    p.readKbytes = -1 ∧ p.writeKbytes = -1 ∧ ∀ ps, calculateIoData p ps = ps

/-! ### The loop over the lines -/

/-- A line is one of the two counters at most. -/
theorem scanIoLine_write_of_read {line : Bytes} {v : UInt64}
    (h : scanIoLine (ascii "read_bytes:") line = some v) :
    scanIoLine (ascii "write_bytes:") line = none := by
  unfold scanIoLine at h ⊢
  split at h
  · rename_i hread
    rw [if_neg]
    intro hwrite
    obtain ⟨s, rfl⟩ := List.isPrefixOf_iff_prefix.mp hread
    obtain ⟨t, ht⟩ := List.isPrefixOf_iff_prefix.mp hwrite
    -- The first letters differ.
    exact absurd (congrArg List.head? ht) (by simp [ascii])
  · cases h

/-- The last value of a list that is extended at the front. -/
theorem getD_getLast?_cons (v : UInt64) (vs : List UInt64) (d : UInt64) :
    ((v :: vs).getLast?.map (· / 1024)).getD d = (vs.getLast?.map (· / 1024)).getD (v / 1024) := by
  rw [List.getLast?_cons]
  cases vs.getLast? <;> rfl

/-- The loop keeps the last value of each counter. -/
theorem foldl_ioCounterStep (lines : List Bytes) (c : UInt64 × UInt64) :
    lines.foldl ioCounterStep c
      = (((lines.filterMap (scanIoLine (ascii "read_bytes:"))).getLast?.map (· / 1024)).getD c.1,
        ((lines.filterMap (scanIoLine (ascii "write_bytes:"))).getLast?.map (· / 1024)).getD c.2) := by
  induction lines generalizing c with
  | nil => rfl
  | cons line lines ih =>
      rw [List.foldl_cons, ih, ioCounterStep]
      cases hread : scanIoLine (ascii "read_bytes:") line with
      | some v =>
          have hwrite := scanIoLine_write_of_read hread
          rw [List.filterMap_cons_some hread, List.filterMap_cons_none hwrite, getD_getLast?_cons]
      | none =>
          rw [List.filterMap_cons_none hread]
          cases hwrite : scanIoLine (ascii "write_bytes:") line with
          | some v => rw [List.filterMap_cons_some hwrite, getD_getLast?_cons]
          | none => rw [List.filterMap_cons_none hwrite]

/-! ### The flag -/

/-- A successful read leaves the I/O fields of the file in the record. -/
theorem ioFields_of_readProcStat {files : ProcFiles} {stale : Bytes} {pageSizeKb : Int64}
    {pid : Int32} {p : ProcessStateInput}
    (hok : (readProcStat files stale pageSizeKb pid p).2 = true) :
    ((readProcStat files stale pageSizeKb pid p).1.readKbytes,
      (readProcStat files stale pageSizeKb pid p).1.writeKbytes,
      (readProcStat files stale pageSizeKb pid p).1.boIsIoValid) = ioFields files pid := by
  cases hparts : statParts files stale pid with
  | none =>
      rw [readProcStat_of_none files stale pageSizeKb pid p hparts] at hok
      cases hok
  | some parts =>
      obtain ⟨-, hscan, hrecord⟩ := readProcStat_of_some files stale pageSizeKb pid p hparts
      rw [hrecord (hscan ▸ hok)]
      rfl

/-- The I/O fields of a file that can be opened: the last values, and always valid. -/
theorem ioFields_of_some {files : ProcFiles} {pid : Int32} {content : Bytes}
    (h : files.io pid = some content) :
    ioFields files pid = (((parsedReadBytes files pid).map (· / 1024)).getD 0,
      ((parsedWriteBytes files pid).map (· / 1024)).getD 0, true) := by
  unfold ioFields parsedReadBytes parsedWriteBytes
  simp only [h, foldl_ioCounterStep, Option.bind_some]
  rfl

/-- A sample whose I/O data is not valid stays out of the I/O totals. -/
theorem calculateIoData_of_invalid {p : ProcessStateInput} (h : p.boIsIoValid = false)
    (ps : ProcessState) : calculateIoData p ps = ps := by
  simp [calculateIoData, h]

/-- After a successful read the I/O data is marked as it was read if and only if the I/O file
cannot be opened, or has both a `read_bytes` and a `write_bytes` line. -/
theorem ioMarkedRight_iff (files : ProcFiles) (stale : Bytes) (pageSizeKb : Int64) (pid : Int32)
    (p : ProcessStateInput) (hok : (readProcStat files stale pageSizeKb pid p).2 = true) :
    IoMarkedRight files pid (readProcStat files stale pageSizeKb pid p).1 ↔
      files.io pid = none ∨ ((parsedReadBytes files pid).isSome = true ∧
        (parsedWriteBytes files pid).isSome = true) := by
  have hfields := ioFields_of_readProcStat hok
  generalize (readProcStat files stale pageSizeKb pid p).1 = q at *
  cases hio : files.io pid with
  | none =>
      -- A file that cannot be opened has no counters, and the flag says so.
      have hread : parsedReadBytes files pid = none := by simp [parsedReadBytes, hio]
      have hwrite : parsedWriteBytes files pid = none := by simp [parsedWriteBytes, hio]
      simp only [ioFields, hio, Prod.mk.injEq] at hfields
      obtain ⟨hr, hw, hflag⟩ := hfields
      refine ⟨fun _ => Or.inl rfl, fun _ => ⟨by simp [hread, hflag], ?_, ?_⟩⟩
      · intro r w h
        rw [hread] at h
        cases h
      · exact fun _ => ⟨hr, hw, calculateIoData_of_invalid hflag⟩
  | some content =>
      rw [ioFields_of_some hio, Prod.mk.injEq, Prod.mk.injEq] at hfields
      obtain ⟨hr, hw, hflag⟩ := hfields
      constructor
      · intro h
        exact Or.inr (h.flag.mp hflag)
      · rintro (h | ⟨hread, hwrite⟩)
        · cases h
        · obtain ⟨r, hread⟩ := Option.isSome_iff_exists.mp hread
          obtain ⟨w, hwrite⟩ := Option.isSome_iff_exists.mp hwrite
          refine ⟨by simp [hread, hwrite, hflag], ?_, ?_⟩
          · intro r' w' hr' hw'
            rw [hr, hw, hr', hw']
            exact ⟨rfl, rfl⟩
          · rw [hread, hwrite]
            rintro (h | h) <;> cases h

/-- The files of a process with the given I/O file. -/
def filesWithIo (io : Option Bytes) : ProcFiles :=
  ⟨fun _ => some (ascii "1 (init) S 0 1 1 0 -1 64 1 2 3 4 5 3 6 7 20 0 1 0 8 9 300\n"),
    fun _ => io, fun _ => none⟩

/-- The read of process 1 succeeds whatever its I/O file is. -/
theorem readProcStat_filesWithIo (io : Option Bytes) :
    (readProcStat (filesWithIo io) [] 4 1 blankRecord).2 = true := by
  have hparts : statParts (filesWithIo io) [] 1
      = some (ascii "init", ascii "S 0 1 1 0 -1 64 1 2 3 4 5 3 6 7 20 0 1 0 8 9 300\n") := by
    show ((some _).bind _).bind _ = _
    decide +kernel
  rw [(readProcStat_of_some (filesWithIo io) [] 4 1 blankRecord hparts).2.1]
  decide +kernel

/-- With both counters the sample is marked right. -/
theorem ioMarkedRight_both_counters :
    IoMarkedRight (filesWithIo (some (ascii "read_bytes: 2048\nwrite_bytes: 1024\n"))) 1
      (readProcStat (filesWithIo (some (ascii "read_bytes: 2048\nwrite_bytes: 1024\n"))) [] 4 1
        blankRecord).1 :=
  (ioMarkedRight_iff _ [] 4 1 blankRecord (readProcStat_filesWithIo _)).mpr
    (Or.inr ⟨by decide +kernel, by decide +kernel⟩)

/-- A file that opens and is then empty counts as valid, with both counters zero. -/
theorem not_ioMarkedRight_empty :
    (readProcStat (filesWithIo (some [])) [] 4 1 blankRecord).2 = true ∧
      ¬ IoMarkedRight (filesWithIo (some [])) 1
        (readProcStat (filesWithIo (some [])) [] 4 1 blankRecord).1 := by
  refine ⟨readProcStat_filesWithIo _, fun h => ?_⟩
  have hfields := ioFields_of_readProcStat (readProcStat_filesWithIo (some []))
  have hzero := (h.missing (Or.inl (by decide))).1
  rw [ioFields_of_some (show (filesWithIo (some [])).io 1 = some [] from rfl)] at hfields
  rw [(Prod.mk.inj hfields).1] at hzero
  revert hzero
  decide

end ProcessAnalyzer.Stats
