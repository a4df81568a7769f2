import ProcessAnalyzer.Proofs.ProcReader
import ProcessAnalyzer.Proofs.Records
import ProcessAnalyzer.Proofs.Whitelist

/-!
# `ProcessAnalyzer.Proofs.Filtering`: a snapshot records the requested processes

* `snapshotRecords_eq`: the records of a snapshot are the samples of the processes that are
  present and can be read, in the order of `/proc`, that pass the tests of the loop. The
  sample of a process does not depend on the processes before it.
* `passes_iff_requested`: after an accepted command line the tests of the loop are the
  requests of that command line.
* `records_exactly_requested`: so the text log, the JSONL file and the statistics all get
  the samples of the requested processes, in the same order.
-/

set_option autoImplicit false

namespace ProcessAnalyzer

open ProcessAnalyzer.Lib ProcessAnalyzer.Stats

/-! ### Present processes and their samples -/

/-- The PID of an entry of `/proc` that is a process directory. -/
def entryPid (de : DirEntry) : Option Int32 :=
  if de.isDir = true ∧ isNumeric de.dName = true then some (atoi de.dName) else none

/-- The PIDs of the processes that are present. -/
def presentPids (env : SnapshotEnv) : List Int32 := env.entries.filterMap entryPid

/-- The sample of a process, or `none` when its stat file cannot be read or parsed. -/
def sampleOf (env : SnapshotEnv) (pid : Int32) : Option ProcessStateInput :=
  match readProcStat env.files (env.stale pid) env.pageSizeKb pid
      { freshRecord env with pid := pid } with
  | (p, true) => some (readFd env.files p)
  | (_, false) => none

theorem sampleOf_eq (env : SnapshotEnv) (pid : Int32) {r : ProcessStateInput × Bool}
    (h : readProcStat env.files (env.stale pid) env.pageSizeKb pid
      { freshRecord env with pid := pid } = r) :
    sampleOf env pid = if r.2 then some (readFd env.files r.1) else none := by
  unfold sampleOf
  rw [h]
  obtain ⟨p, _ | _⟩ := r <;> rfl

/-- `read_fd` keeps the PID, the name and the timestamps. -/
theorem readFd_frame (files : ProcFiles) (p : ProcessStateInput) :
    SameOrigin (readFd files p) p ∧ (readFd files p).comm = p.comm := by
  unfold readFd
  simp only
  split <;> exact ⟨⟨rfl, rfl, rfl⟩, rfl⟩

/-- A sample has the PID of its process and the timestamps of its snapshot. -/
theorem sameOrigin_of_sampleOf {env : SnapshotEnv} {pid : Int32} {r : ProcessStateInput}
    (h : sampleOf env pid = some r) : SameOrigin r { freshRecord env with pid := pid } := by
  have hkeep := sameOrigin_readProcStat env.files (env.stale pid) env.pageSizeKb pid
    { freshRecord env with pid := pid }
  unfold sampleOf at h
  split at h
  · rename_i q hread
    obtain rfl := Option.some.inj h
    rw [hread] at hkeep
    have hfd := (readFd_frame env.files q).1
    exact ⟨hfd.pid.trans hkeep.pid, hfd.timestamp.trans hkeep.timestamp,
      hfd.hRTimestamp.trans hkeep.hRTimestamp⟩
  · cases h

section Loop
variable (config : Config) (env : SnapshotEnv) (w : ApPidWhitelist)

/-- The tests of the loop for a process that has been read. -/
def Passes (r : ProcessStateInput) : Prop :=
  ¬ (config.configGetIncludeSelf = false ∧ r.pid = env.selfPid) ∧
  ¬ (isFilteringEnabled w = true ∧ isCommInFilter r.comm w = false
    ∧ isPidInFilter r.pid w = false)

instance (r : ProcessStateInput) : Decidable (Passes config env w r) :=
  inferInstanceAs (Decidable (_ ∧ _))

/-- The tests look at nothing that `read_fd` changes. -/
theorem passes_readFd_iff (r : ProcessStateInput) :
    Passes config env w (readFd env.files r) ↔ Passes config env w r := by
  have hframe := readFd_frame env.files r
  rw [Passes, Passes, hframe.1.pid, hframe.2]

/-- One round of the loop: the timestamps stay, and the sample of the entry's process is
recorded when it passes the tests, whatever the old record held. -/
theorem entryRecord_spec (p : ProcessStateInput) (de : DirEntry)
    (htime : p.timestamp = env.monotonic) (htext : p.hRTimestamp = hRTimestampText env.wallClock) :
    (entryRecord config env w p de).1.timestamp = env.monotonic ∧
    (entryRecord config env w p de).1.hRTimestamp = hRTimestampText env.wallClock ∧
    (entryRecord config env w p de).2
      = (entryPid de).bind fun pid =>
          (sampleOf env pid).filter fun r => decide (Passes config env w r) := by
  unfold entryRecord
  by_cases hdir : de.isDir = false
  · simp [entryPid, hdir, htime, htext]
  · by_cases hnum : isNumeric de.dName = false
    · simp [entryPid, hdir, hnum, htime, htext]
    · have hentry : entryPid de = some (atoi de.dName) := by simp_all [entryPid]
      rw [if_neg hdir, if_neg hnum, hentry, Option.bind_some]
      generalize atoi de.dName = pid
      -- The old record and the fresh one agree on the PID and the timestamps.
      have horigin : SameOrigin { p with pid := pid } { freshRecord env with pid := pid } := by
        constructor <;> simp only [freshRecord, htime, htext]
      have hkeep := sameOrigin_readProcStat env.files (env.stale pid) env.pageSizeKb pid
        { p with pid := pid }
      obtain ⟨hok, hsame⟩ := readProcStat_congr env.files (env.stale pid) env.pageSizeKb pid horigin
      simp only [sampleOf]
      generalize readProcStat env.files (env.stale pid) env.pageSizeKb pid { p with pid := pid }
        = r at *
      generalize readProcStat env.files (env.stale pid) env.pageSizeKb pid
        { freshRecord env with pid := pid } = q at *
      obtain ⟨r, okr⟩ := r
      obtain ⟨q, okq⟩ := q
      simp only at hok hsame hkeep
      subst hok
      have htime' := hkeep.timestamp.trans htime
      have htext' := hkeep.hRTimestamp.trans htext
      cases okr with
      | false =>
          by_cases hself : config.configGetIncludeSelf = false ∧ pid = env.selfPid
          · rw [if_pos hself]
            exact ⟨htime, htext, rfl⟩
          · rw [if_neg hself]
            exact ⟨htime', htext', rfl⟩
      | true =>
          -- The sample is the record that was read, so it passes what that record passes.
          have hpasses := passes_readFd_iff config env w r
          obtain ⟨-, hread⟩ := hsame rfl
          have hfd := (readFd_frame env.files r).1
          simp only [← hread]
          by_cases hself : config.configGetIncludeSelf = false ∧ pid = env.selfPid
          · have hfail : ¬ Passes config env w (readFd env.files r) := by
              rw [hpasses]
              exact fun h => h.1 ⟨hself.1, hkeep.pid.trans hself.2⟩
            rw [if_pos hself]
            exact ⟨htime, htext, by simp [Option.filter, hfail]⟩
          · rw [if_neg hself]
            by_cases hfilter : isFilteringEnabled w = true ∧ isCommInFilter r.comm w = false
                ∧ isPidInFilter r.pid w = false
            · have hfail : ¬ Passes config env w (readFd env.files r) := by
                rw [hpasses]
                exact fun h => h.2 hfilter
              rw [if_pos hfilter]
              exact ⟨htime', htext', by simp [Option.filter, hfail]⟩
            · have hpass : Passes config env w (readFd env.files r) := by
                refine hpasses.mpr ⟨?_, hfilter⟩
                rw [hkeep.pid]
                exact hself
              rw [if_neg hfilter]
              exact ⟨hfd.timestamp.trans htime', hfd.hRTimestamp.trans htext',
                by simp [Option.filter, hpass]⟩

/-- The records of a snapshot are the samples of the present processes that pass the
tests. -/
theorem snapshotRecords_eq :
    snapshotRecords config env w
      = ((presentPids env).filterMap (sampleOf env)).filter fun r =>
          decide (Passes config env w r) := by
  -- The record is reused, and only its timestamps matter to the next round.
  have hloop : ∀ (entries : List DirEntry) (p : ProcessStateInput),
      p.timestamp = env.monotonic → p.hRTimestamp = hRTimestampText env.wallClock →
      recordsFrom config env w p entries
        = ((entries.filterMap entryPid).filterMap (sampleOf env)).filter fun r =>
            decide (Passes config env w r) := by
    intro entries
    induction entries with
    | nil => intro p _ _; rfl
    | cons de rest ih =>
        intro p htime htext
        obtain ⟨htime', htext', hrec⟩ := entryRecord_spec config env w p de htime htext
        rw [recordsFrom, ih _ htime' htext', hrec]
        cases hpid : entryPid de with
        | none => simp [hpid]
        | some pid =>
            simp only [Option.bind_some, List.filterMap_cons, hpid]
            cases hs : sampleOf env pid with
            | none => simp
            | some r =>
                by_cases hp : Passes config env w r
                · simp [Option.filter, hp]
                · simp [Option.filter, hp]
  exact hloop env.entries (freshRecord env) (by simp only [freshRecord])
    (by simp only [freshRecord])

end Loop

/-- The records of a snapshot carry its timestamp. -/
theorem hRTimestamp_of_mem_snapshotRecords {config : Config} {env : SnapshotEnv}
    {w : ApPidWhitelist} {p : ProcessStateInput} (h : p ∈ snapshotRecords config env w) :
    p.hRTimestamp = hRTimestampText env.wallClock := by
  rw [snapshotRecords_eq] at h
  obtain ⟨pid, -, hsample⟩ := List.mem_filterMap.mp (List.mem_filter.mp h).1
  rw [(sameOrigin_of_sampleOf hsample).hRTimestamp]
  simp only [freshRecord]

/-! ### The requests of the command line -/

/-- The request of a command line: the analyzer itself only with `include_self`, and with
filter options only the processes that one of them names. -/
def Requested (config : Config) (env : SnapshotEnv) (opts : List ApOption)
    (r : ProcessStateInput) : Prop :=
  (config.configGetIncludeSelf = true ∨ r.pid ≠ env.selfPid) ∧
  ((∀ opt ∈ opts, opt.isFilter = false) ∨ r.pid.toInt ∈ requestedPids opts
    ∨ r.comm ∈ requestedComms opts)

instance (config : Config) (env : SnapshotEnv) (opts : List ApOption) (r : ProcessStateInput) :
    Decidable (Requested config env opts r) :=
  inferInstanceAs (Decidable (_ ∧ _))

/-- After an accepted command line the tests of the loop are its requests. -/
theorem passes_iff_requested {config : Config} {env : SnapshotEnv} {opts : List ApOption}
    {w : ApPidWhitelist} (h : Denotes opts {} w) (r : ProcessStateInput) :
    Passes config env w r ↔ Requested config env opts r := by
  have hself : ¬ (config.configGetIncludeSelf = false ∧ r.pid = env.selfPid)
      ↔ config.configGetIncludeSelf = true ∨ r.pid ≠ env.selfPid := by
    rw [not_and_or, Bool.not_eq_false]
  have henabled : isFilteringEnabled w = false ↔ ∀ opt ∈ opts, opt.isFilter = false := by
    rw [← h.isEmpty_iff, isFilteringEnabled]
    simp only [List.length_eq_zero_iff, and_comm]
    split <;> simp_all
  have hpid : isPidInFilter r.pid w = true ↔ r.pid.toInt ∈ requestedPids opts := by
    have hmem := h.pids r.pid.toInt
    simp only [List.map_nil, List.not_mem_nil, false_or] at hmem
    rw [← hmem, isPidInFilter, List.contains_iff_mem, List.mem_map]
    exact ⟨fun hx => ⟨_, hx, rfl⟩, fun ⟨x, hx, heq⟩ => Int32.toInt_inj.mp heq ▸ hx⟩
  have hcomm : isCommInFilter r.comm w = true ↔ r.comm ∈ requestedComms opts := by
    have hmem := h.comms r.comm
    simp only [List.not_mem_nil, false_or] at hmem
    rw [← hmem, isCommInFilter]
    split
    · -- An empty name is in no accepted list.
      rename_i hnil
      rw [hmem, hnil]
      exact ⟨fun hf => absurd hf (by decide), fun hx => absurd hx h.nonempty⟩
    · rw [List.contains_iff_mem]
  -- What is left is the test of the filters.
  rw [Passes, Requested, hself]
  refine and_congr_right fun _ => ?_
  rw [not_and_or, not_and_or, Bool.not_eq_true, Bool.not_eq_false, Bool.not_eq_false, henabled,
    hpid, hcomm]
  exact or_congr_right or_comm

/-- Filtering records exactly the requested processes. After an accepted command line one
snapshot records the samples of the present processes that can be read and are requested, in
the order of `/proc`. The text log, the JSONL file (when their streams are open) and the
statistics all get these records in this order. -/
theorem records_exactly_requested (config : Config) (alloc : FilterAlloc) (opts : List ApOption)
    (args : ApArguments) (statsOn : Bool)
    (hparse : apParseArgs config alloc opts = .ok (args, statsOn)) (env : SnapshotEnv) (o : Output)
    (stats : StatsModule) :
    let w := args.pidWhitelist
    let rs := ((presentPids env).filterMap (sampleOf env)).filter fun r =>
      decide (Requested config env opts r)
    let out := collectSnapshot config env w o stats
    (∀ text, Flushed config .log text (handleRotations config env o) →
      Flushed config .log (text ++ (ascii "[" ++ hRTimestampText env.wallClock ++ ascii "] "
        ++ ascii " SNAPSHOT START ################# \n" ++ (rs.map logLine).flatten
        ++ ascii "SNAPSHOT END ################# \n")) out.1) ∧
    (∀ text, Flushed config .jsonl text (handleRotations config env o) →
      Flushed config .jsonl (text ++ (rs.map jsonLine).flatten) out.1) ∧
    out.2 = processStatsSnapshotEnd
      (rs.foldl (fun m r => processStatsUpdate (env.callocOk r.pid) m r) stats) := by
  intro w rs out
  -- All three outputs are functions of the list of records.
  have hrecords : snapshotRecords config env w = rs := by
    rw [snapshotRecords_eq]
    exact List.filter_congr fun r _ =>
      decide_eq_decide.mpr (passes_iff_requested (whitelist_of_apParseArgs hparse) r)
  refine ⟨fun text h => ?_, fun text h => ?_, ?_⟩
  · have hlog := flushed_collectSnapshot config env w .log o stats h
    simp only [snapshotBlock, hrecords, lineOf] at hlog
    exact hlog
  · have hjsonl := flushed_collectSnapshot config env w .jsonl o stats h
    simp only [snapshotBlock, hrecords, lineOf] at hjsonl
    exact hjsonl
  · rw [← hrecords]
    exact stats_collectSnapshot config env w o stats

/-- The outside of a snapshot that finds process 1. -/
def initEnv : SnapshotEnv :=
  { quietEnv with
    entries := [⟨ascii "1", true⟩, ⟨ascii "uptime", false⟩]
    files := ⟨fun _ => some (ascii "1 (init) S 0 1 1 0 -1 64 1 2 3 4 5 3 6 7 20 0 1 0 8 9 300\n"),
      fun _ => none, fun _ => some [ascii "0", ascii "1"]⟩ }

/-- The outside of a snapshot that finds three processes and the analyzer. -/
def fourEnv : SnapshotEnv :=
  { initEnv with
    entries := [⟨ascii "1", true⟩, ⟨ascii "7", true⟩, ⟨ascii "uptime", false⟩, ⟨ascii "9", true⟩,
      ⟨ascii "4711", true⟩]
    files := { initEnv.files with
      stat := fun pid =>
        some (if pid = 7 then ascii "7 (bash) S 1 1 1 0 -1 64 1 2 3 4 5 3 6 7 20 0 1 0 8 9 300\n"
          else if pid = 9 then ascii "9 (sshd) S 1 1 1 0 -1 64 1 2 3 4 5 3 6 7 20 0 1 0 8 9 400\n"
          else ascii "1 (init) S 0 1 1 0 -1 64 1 2 3 4 5 3 6 7 20 0 1 0 8 9 300\n") } }

/-- `-i 1s -n 1 -k "9, 4711" -l " bash"`. -/
def twoFilters : List ApOption :=
  [.interval (ascii "1s"), .count (ascii "1"), .filterByPid (ascii "9, 4711"),
    .filterByName (ascii " bash")]

/-- The command line is accepted. -/
theorem apParseArgs_twoFilters :
    apParseArgs configDefault FilterAlloc.ok twoFilters
      = .ok ({ intervalMs := 1000, count := 1,
               pidWhitelist := { filterPids := [9, 4711], filterPidsCapacity := 8,
                                 filterComms := [ascii "bash"], filterCommsCapacity := 8 } },
          false) := by
  have hpids : parseFilterPidList FilterAlloc.ok .pid (ascii "9, 4711") {}
      = some { filterPids := [9, 4711], filterPidsCapacity := 8 } := by
    rw [parseFilterPidList_eq]
    decide
  have hcomms : parseFilterPidList FilterAlloc.ok .comm (ascii " bash")
      { filterPids := [9, 4711], filterPidsCapacity := 8 }
      = some { filterPids := [9, 4711], filterPidsCapacity := 8,
               filterComms := [ascii "bash"], filterCommsCapacity := 8 } := by
    rw [parseFilterPidList_eq]
    decide
  have hinterval : parseDurationMs (ascii "1s") = some 1000 := by decide
  have hcount : parseNumberOfSnapshots (ascii "1") = some 1 := by decide
  simp only [twoFilters, apParseArgs, List.foldlM_cons, List.foldlM_nil, parseOption, hinterval,
    hcount, bind, Except.bind, hpids, hcomms]
  rfl

/-- Both outputs are open, and their files are empty. -/
def openOutputs : Output where
  rotation :=
    { dir := fun q =>
        if q = LogBase.log.path configDefault ∨ q = LogBase.jsonl.path configDefault then some []
        else none }
  streams _ := some []

/-- One process is named by the list of names, one by the list of PIDs, one by none, and the
analyzer leaves itself out though its PID is named. -/
theorem records_exactly_requested_two :
    let w : ApPidWhitelist :=
      { filterPids := [9, 4711], filterPidsCapacity := 8,
        filterComms := [ascii "bash"], filterCommsCapacity := 8 }
    let out := collectSnapshot configDefault fourEnv w openOutputs {}
    ∃ rs : List ProcessStateInput, rs.map ProcessStateInput.pid = [7, 9] ∧
      Flushed configDefault .log (ascii "[2026-01-19 21:47:41.677] "
        ++ ascii " SNAPSHOT START ################# \n" ++ (rs.map logLine).flatten
        ++ ascii "SNAPSHOT END ################# \n") out.1 ∧
      Flushed configDefault .jsonl (rs.map jsonLine).flatten out.1 ∧
      out.2 = processStatsSnapshotEnd (rs.foldl (processStatsUpdate true) {}) := by
  intro w out
  have hopen : ∀ b, Flushed configDefault b [] (handleRotations configDefault fourEnv openOutputs) := by
    intro b
    cases b <;> exact ⟨by decide +kernel, by decide +kernel⟩
  obtain ⟨hlog, hjsonl, hstats⟩ := records_exactly_requested configDefault FilterAlloc.ok _ _ _
    apParseArgs_twoFilters fourEnv openOutputs {}
  refine ⟨_, ?_, hlog [] (hopen .log), hjsonl [] (hopen .jsonl), hstats⟩
  decide +kernel

end ProcessAnalyzer
