import ProcessAnalyzer.Proofs.LogNames
import ProcessAnalyzer.Model.Snapshot

/-!
# `ProcessAnalyzer.Proofs.Records`: what one snapshot writes

The loop of `collect_snapshot` decides which processes it records without looking at the
outputs or the statistics. `snapshotRecords` is the list of the recorded samples, and
`foldl_snapshotEntry` shows that the loop writes exactly these, in this order, to the text
log, to the statistics and to the JSONL file.

`snapshotBlock` is the text that a snapshot adds to an output. A stream that is open and
flushed (`Flushed`) is so again after the snapshot, with the block behind its old content
(`flushed_collectSnapshot`), and a snapshot touches no other file once the rotations are
done (`dir_collectSnapshot`).
-/

set_option autoImplicit false

namespace ProcessAnalyzer

open ProcessAnalyzer.Lib ProcessAnalyzer.Stats

/-! ### The records of a snapshot -/

section Records
variable (config : Config) (env : SnapshotEnv) (w : ApPidWhitelist)

/-- The loop body without its outputs: the reused record afterwards, and the sample that is
recorded, if any. -/
def entryRecord (p : ProcessStateInput) (de : DirEntry) :
    ProcessStateInput × Option ProcessStateInput :=
  if de.isDir = false then (p, none)
  else if isNumeric de.dName = false then (p, none)
  else
    let p := { p with pid := atoi de.dName }
    if config.configGetIncludeSelf = false ∧ p.pid = env.selfPid then (p, none)
    else
      match readProcStat env.files (env.stale p.pid) env.pageSizeKb p.pid p with
      | (p, false) => (p, none)
      | (p, true) =>
          if isFilteringEnabled w = true ∧ isCommInFilter p.comm w = false
              ∧ isPidInFilter p.pid w = false then (p, none)
          else (readFd env.files p, some (readFd env.files p))

/-- The outputs of the loop for a recorded sample. -/
def emitRecord (r : ProcessStateInput) (s : Output × StatsModule) : Output × StatsModule :=
  ((s.1.logData config (logLine r)).write config .jsonl (jsonLine r),
    processStatsUpdate (env.callocOk r.pid) s.2 r)

/-- The samples that the loop records from a given record on. -/
def recordsFrom : ProcessStateInput → List DirEntry → List ProcessStateInput
  | _, [] => []
  | p, de :: rest =>
      (entryRecord config env w p de).2.toList
        ++ recordsFrom (entryRecord config env w p de).1 rest

/-- The record before the first process is read. -/
def freshRecord : ProcessStateInput :=
  { env.garbage with
    timestamp := env.monotonic
    hRTimestamp := hRTimestampText env.wallClock }

/-- The samples that one snapshot records. -/
def snapshotRecords : List ProcessStateInput :=
  recordsFrom config env w (freshRecord env) env.entries

/-- The loop body decides on a record and then emits it. -/
theorem snapshotEntry_eq (s : SnapshotLoop) (de : DirEntry) :
    snapshotEntry config env w s de =
      let e := entryRecord config env w s.processData de
      let out := e.2.toList.foldl (fun t r => emitRecord config env r t) (s.output, s.stats)
      ⟨e.1, out.1, out.2⟩ := by
  unfold snapshotEntry entryRecord
  by_cases hdir : de.isDir = false
  · simp [hdir]
  · by_cases hnum : isNumeric de.dName = false
    · simp [hdir, hnum]
    · by_cases hself : config.configGetIncludeSelf = false ∧ atoi de.dName = env.selfPid
      · simp [hdir, hnum, hself]
      · simp only [hdir, hnum, hself, if_false]
        -- Both sides go on with the result of the read.
        generalize readProcStat env.files _ env.pageSizeKb _ _ = stat
        obtain ⟨p, ok⟩ := stat
        cases ok with
        | false => rfl
        | true =>
            by_cases hfilter : isFilteringEnabled w = true ∧ isCommInFilter p.comm w = false
                ∧ isPidInFilter p.pid w = false
            · simp only [hfilter, and_self, if_true]
              rfl
            · simp only [hfilter, if_false]
              rfl

/-- The loop emits the records in order, to all three targets. -/
theorem foldl_snapshotEntry (entries : List DirEntry) (s : SnapshotLoop) :
    let s' := entries.foldl (snapshotEntry config env w) s
    (s'.output, s'.stats) = (recordsFrom config env w s.processData entries).foldl
      (fun t r => emitRecord config env r t) (s.output, s.stats) := by
  induction entries generalizing s with
  | nil => rfl
  | cons de rest ih =>
      intro s'
      -- The next entry starts with the record that this one leaves.
      have hrest := ih (snapshotEntry config env w s de)
      simp only [snapshotEntry_eq config env w s de] at hrest
      rw [recordsFrom, List.foldl_append]
      simp only [s', List.foldl_cons, snapshotEntry_eq config env w s de]
      exact hrest

end Records

/-! ### Writing to the streams -/

section Streams
variable (config : Config)

/-- The two active files have different paths. -/
theorem path_ne {b c : LogBase} (h : b ≠ c) : b.path config ≠ c.path config := by
  intro hpath
  have hpair := fileAt_injective config
    (show fileAt config (b, .active) = fileAt config (c, .active) from hpath)
  exact h (congrArg Prod.fst hpair)

/-- The content that the active file has once its stream is flushed. `none` stands for a
closed stream. -/
def Output.content (b : LogBase) (o : Output) : Option Bytes :=
  (o.streams b).bind fun pending => (o.rotation.dir (b.path config)).map (· ++ pending)

/-- A write touches the active file of its output only. -/
theorem dir_write (c : LogBase) (text : Bytes) (o : Output) {q : Bytes} (hq : q ≠ c.path config) :
    (o.write config c text).rotation.dir q = o.rotation.dir q := by
  cases hs : o.streams c with
  | none => simp only [Output.write, hs]
  | some pending =>
      simp only [Output.write, hs, Output.withDir, Output.withStream, appendFile]
      cases hd : o.rotation.dir (c.path config) with
      | none => rfl
      | some old =>
          show Dir.store _ _ _ q = _
          rw [Dir.store_apply, if_neg hq]

/-- A write to one output adds its text to the content of that output. -/
theorem content_write (b c : LogBase) (text : Bytes) (o : Output) :
    (o.write config c text).content config b
      = if b = c then (o.content config b).map (· ++ text) else o.content config b := by
  -- A write to the other output changes neither the stream nor the file of this one.
  by_cases hbc : b = c
  · subst hbc
    rw [if_pos rfl]
    cases hs : o.streams b with
    | none => simp [Output.write, hs, Output.content]
    | some pending =>
        cases hd : o.rotation.dir (b.path config) with
        | none =>
            simp [Output.write, hs, Output.withDir, Output.withStream, appendFile, hd,
              Output.content]
        | some old =>
            simp [Output.write, hs, Output.withDir, Output.withStream, appendFile, hd,
              Output.content, Dir.store_apply, List.take_append_drop]
  · rw [if_neg hbc]
    have hstream : (o.write config c text).streams b = o.streams b := by
      cases hs : o.streams c with
      | none => simp only [Output.write, hs]
      | some pending =>
          simp only [Output.write, hs, Output.withStream, Output.withDir]
          rw [Function.update_of_ne hbc]
    simp only [Output.content, hstream, dir_write config c text o (path_ne config hbc)]

/-- Logging touches the active text file only. -/
theorem dir_logData (text : Bytes) (o : Output) {q : Bytes} (hq : q ≠ LogBase.log.path config) :
    (o.logData config text).rotation.dir q = o.rotation.dir q := by
  unfold Output.logData
  split <;> exact dir_write config .log text _ hq

/-- Logging adds its text to the text output. -/
theorem content_logData (b : LogBase) (text : Bytes) (o : Output) :
    (o.logData config text).content config b
      = if b = .log then (o.content config b).map (· ++ text) else o.content config b := by
  unfold Output.logData
  split <;> exact content_write config b .log text _

/-- An output whose stream is open and has nothing pending. -/
structure Flushed (b : LogBase) (text : Bytes) (o : Output) : Prop where
  file : o.rotation.dir (b.path config) = some text
  stream : o.streams b = some []

/-- A flushed output has the content of its file. -/
theorem Flushed.content {config : Config} {b : LogBase} {text : Bytes} {o : Output}
    (h : Flushed config b text o) : o.content config b = some text := by
  simp [Output.content, h.file, h.stream]

/-- `fflush` writes the content of its own output, and leaves the content of both outputs as
it is. -/
theorem fflush_spec (b c : LogBase) (o : Output) {text : Bytes}
    (h : o.content config b = some text) :
    (o.fflush config c).content config b = some text ∧
    (b = c → Flushed config b text (o.fflush config c)) ∧
    (b ≠ c → Flushed config b text o → Flushed config b text (o.fflush config c)) := by
  -- Both the stream and the file of an output with a content are there.
  obtain ⟨pending, hs, hfile⟩ := Option.bind_eq_some_iff.mp h
  obtain ⟨old, hd, rfl⟩ := Option.map_eq_some_iff.mp hfile
  by_cases hbc : b = c
  · subst hbc
    have hflushed : Flushed config b (old ++ pending) (o.fflush config b) := by
      constructor <;> simp [Output.fflush, hs, Output.withDir, Output.withStream, appendFile, hd,
        Dir.store_apply]
    exact ⟨hflushed.content, fun _ => hflushed, fun hne => absurd rfl hne⟩
  · have hdir : (o.fflush config c).rotation.dir (b.path config) = some old := by
      cases hsc : o.streams c with
      | none => simp [Output.fflush, hsc, hd]
      | some pc =>
          simp only [Output.fflush, hsc, Output.withDir, Output.withStream, appendFile]
          cases hdc : o.rotation.dir (c.path config) with
          | none => exact hd
          | some oldc =>
              show Dir.store _ _ _ _ = _
              rw [Dir.store_apply, if_neg (path_ne config hbc), hd]
    have hstream : (o.fflush config c).streams b = some pending := by
      cases hsc : o.streams c with
      | none => simp [Output.fflush, hsc, hs]
      | some pc => simp [Output.fflush, hsc, Output.withStream, Output.withDir,
          Function.update_of_ne hbc, hs]
    refine ⟨by simp [Output.content, hdir, hstream], fun heq => absurd heq hbc, fun _ hf => ?_⟩
    have hpending : pending = [] := Option.some.inj (hs.symm.trans hf.stream)
    exact ⟨by rw [hdir, hpending, List.append_nil], by rw [hstream, hpending]⟩

/-- `fflush` touches the active file of its output only. -/
theorem dir_fflush (c : LogBase) (o : Output) {q : Bytes} (hq : q ≠ c.path config) :
    (o.fflush config c).rotation.dir q = o.rotation.dir q := by
  cases hs : o.streams c with
  | none => simp only [Output.fflush, hs]
  | some pending =>
      simp only [Output.fflush, hs, Output.withDir, Output.withStream, appendFile]
      cases hd : o.rotation.dir (c.path config) with
      | none => rfl
      | some old =>
          show Dir.store _ _ _ q = _
          rw [Dir.store_apply, if_neg hq]

end Streams

/-! ### The block of a snapshot -/

section Block
variable (config : Config) (env : SnapshotEnv) (w : ApPidWhitelist)

/-- The line of a recorded sample in an output. -/
def lineOf : LogBase → ProcessStateInput → Bytes
  | .log => logLine
  | .jsonl => jsonLine

/-- The text that a snapshot adds to an output: for the text log the lines from START to
END, for the JSONL file one line per record. -/
def snapshotBlock (b : LogBase) : Bytes :=
  let lines := ((snapshotRecords config env w).map (lineOf b)).flatten
  match b with
  | .log =>
      ascii "[" ++ hRTimestampText env.wallClock ++ ascii "] "
        ++ ascii " SNAPSHOT START ################# \n" ++ lines
        ++ ascii "SNAPSHOT END ################# \n"
  | .jsonl => lines

/-- Emitting records adds their lines to the outputs. -/
theorem content_foldl_emitRecord (b : LogBase) (rs : List ProcessStateInput)
    (s : Output × StatsModule) {text : Bytes} (h : s.1.content config b = some text) :
    (rs.foldl (fun t r => emitRecord config env r t) s).1.content config b
      = some (text ++ (rs.map (lineOf b)).flatten) := by
  induction rs generalizing s text with
  | nil => simpa using h
  | cons r rs ih =>
      have hstep : (emitRecord config env r s).1.content config b
          = some (text ++ lineOf b r) := by
        cases b <;> simp [emitRecord, content_write, content_logData, h, lineOf]
      rw [List.foldl_cons, ih _ hstep]
      simp

/-- Emitting records touches the active files only. -/
theorem dir_foldl_emitRecord (rs : List ProcessStateInput) (s : Output × StatsModule) {q : Bytes}
    (hq : ∀ b : LogBase, q ≠ b.path config) :
    (rs.foldl (fun t r => emitRecord config env r t) s).1.rotation.dir q = s.1.rotation.dir q := by
  induction rs generalizing s with
  | nil => rfl
  | cons r rs ih =>
      rw [List.foldl_cons, ih]
      exact (dir_write config .jsonl _ _ (hq .jsonl)).trans (dir_logData config _ _ (hq .log))

/-- Emitting records feeds them to the statistics. -/
theorem stats_foldl_emitRecord (rs : List ProcessStateInput) (s : Output × StatsModule) :
    (rs.foldl (fun t r => emitRecord config env r t) s).2
      = rs.foldl (fun m r => processStatsUpdate (env.callocOk r.pid) m r) s.2 := by
  induction rs generalizing s with
  | nil => rfl
  | cons r rs ih => rw [List.foldl_cons, List.foldl_cons, ih]; rfl

/-- `collect_snapshot` emits its records between the START and the END line, and flushes. -/
theorem collectSnapshot_eq (o : Output) (stats : StatsModule) :
    collectSnapshot config env w o stats =
      let start := ((handleRotations config env o).logData config
        (ascii "[" ++ hRTimestampText env.wallClock ++ ascii "] ")).logData config
        (ascii " SNAPSHOT START ################# \n")
      let out := (snapshotRecords config env w).foldl (fun t r => emitRecord config env r t)
        (start, stats)
      ((out.1.logData config (ascii "SNAPSHOT END ################# \n")).flushOutputFiles config,
        processStatsSnapshotEnd out.2) := by
  have hloop := foldl_snapshotEntry config env w env.entries
    ⟨freshRecord env, ((handleRotations config env o).logData config
        (ascii "[" ++ hRTimestampText env.wallClock ++ ascii "] ")).logData config
        (ascii " SNAPSHOT START ################# \n"), stats⟩
  simp only at hloop
  unfold collectSnapshot snapshotRecords
  simp only
  rw [← hloop]
  simp only [freshRecord]

/-- A snapshot adds its block to an open output and leaves the output flushed. -/
theorem flushed_collectSnapshot (b : LogBase) (o : Output) (stats : StatsModule) {text : Bytes}
    (h : Flushed config b text (handleRotations config env o)) :
    Flushed config b (text ++ snapshotBlock config env w b)
      (collectSnapshot config env w o stats).1 := by
  rw [collectSnapshot_eq]
  simp only [Output.flushOutputFiles]
  generalize hout : (snapshotRecords config env w).foldl (fun t r => emitRecord config env r t) _
    = out
  have hcontent : (out.1.logData config (ascii "SNAPSHOT END ################# \n")).content
      config b
      = some (text ++ snapshotBlock config env w b) := by
    rw [← hout, content_logData]
    cases b with
    | log =>
        rw [if_pos rfl, content_foldl_emitRecord config env .log _ _ (by
          rw [content_logData, if_pos rfl, content_logData, if_pos rfl, h.content]; rfl)]
        simp [snapshotBlock]
    | jsonl =>
        rw [if_neg (by decide), content_foldl_emitRecord config env .jsonl _ _ (by
          rw [content_logData, if_neg (by decide), content_logData, if_neg (by decide), h.content])]
        simp [snapshotBlock]
  -- The text log is flushed first. The second flush leaves it flushed.
  obtain ⟨hcontent', hlog, -⟩ := fflush_spec config b .log _ hcontent
  obtain ⟨-, hjsonl, hkeep⟩ := fflush_spec config b .jsonl _ hcontent'
  cases b with
  | log => exact hkeep (by decide) (hlog rfl)
  | jsonl => exact hjsonl rfl

/-- Once the rotations are done, a snapshot touches the active files only. -/
theorem dir_collectSnapshot (o : Output) (stats : StatsModule) {q : Bytes}
    (hq : ∀ b : LogBase, q ≠ b.path config) :
    (collectSnapshot config env w o stats).1.rotation.dir q
      = (handleRotations config env o).rotation.dir q := by
  rw [collectSnapshot_eq]
  simp only [Output.flushOutputFiles]
  rw [dir_fflush config .jsonl _ (hq .jsonl), dir_fflush config .log _ (hq .log),
    dir_logData config _ _ (hq .log), dir_foldl_emitRecord config env _ _ hq,
    dir_logData config _ _ (hq .log), dir_logData config _ _ (hq .log)]

/-- A snapshot feeds its records to the statistics, in order. -/
theorem stats_collectSnapshot (o : Output) (stats : StatsModule) :
    (collectSnapshot config env w o stats).2
      = processStatsSnapshotEnd ((snapshotRecords config env w).foldl
          (fun m r => processStatsUpdate (env.callocOk r.pid) m r) stats) := by
  rw [collectSnapshot_eq]
  simp only [stats_foldl_emitRecord]

end Block

/-- The outside of a snapshot that finds no process. -/
def quietEnv : SnapshotEnv where
  entries := []
  files := ⟨fun _ => none, fun _ => none, fun _ => none⟩
  stale _ := []
  garbage := ⟨0, [], 0, 0, 0, 0, 0, 0, [], 0, 0, 0, false, false, 0, false⟩
  selfPid := 4711
  wallClock := ⟨126, 0, 19, 21, 47, 41, 677⟩
  monotonic := 10
  now _ := 1768852061
  jobMallocOk _ := true
  reopenOk _ := true
  callocOk _ := true
  pageSizeKb := 4

end ProcessAnalyzer
