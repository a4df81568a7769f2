import ProcessAnalyzer.Proofs.PidReuse
import ProcessAnalyzer.Proofs.Timestamps

/-!
# `ProcessAnalyzer.Proofs.WallClock`: two runs under different wall clocks

Every sample carries two clocks: the monotonic time that the accumulators use, and the text
of `CLOCK_REALTIME`. The module keeps the text of the first and of the last sample, and
`process_stats_print_metrics` puts both into the header of `metrics.json`, together with a
duration that it computes from the two texts.

* `unstampedModule_collectSnapshots`: two runs with the same samples leave the same module,
  but for the two texts.
* `stamped_statsAfter`: the two texts are those of the readings of the first and the last
  sample.
* `sameResults_iff`: the results of the two runs are the same exactly when no metrics file is
  written or the wall-clock time between the first and the last sample is the same.
-/

set_option autoImplicit false

namespace ProcessAnalyzer

open ProcessAnalyzer.Lib ProcessAnalyzer.Stats

/-! ### Without the texts -/

/-- A sample without the text of the wall clock. -/
def unstamped (r : ProcessStateInput) : ProcessStateInput := { r with hRTimestamp := [] }

/-- The module without the texts of the wall clock. -/
def unstampedModule (m : StatsModule) : StatsModule :=
  { m with hRInitialTimestamp := [], hRLastTimestamp := [] }

/-- Modules that differ in the texts only have the other fields in common. -/
theorem fields_of_unstampedModule {m₁ m₂ : StatsModule}
    (h : unstampedModule m₁ = unstampedModule m₂) :
    m₁.gProcessTable = m₂.gProcessTable ∧ m₁.isModuleInitialized = m₂.isModuleInitialized ∧
    m₁.progName = m₂.progName ∧ m₁.gNumberOfSnapshots = m₂.gNumberOfSnapshots ∧
    m₁.gClockTicksPerSecond = m₂.gClockTicksPerSecond ∧
    m₁.gOnlineCpuCount = m₂.gOnlineCpuCount := by
  simpa only [unstampedModule, StatsModule.mk.injEq, true_and] using h

/-- No accumulator looks at the text. -/
theorem updateEntry_unstamped (hz cpus : Int64) (r : ProcessStateInput) :
    updateEntry hz cpus (unstamped r) = updateEntry hz cpus r := rfl

theorem tableStep_unstamped (hz cpus : Int64) (t : List ProcessState) (callocOk : Bool)
    (r : ProcessStateInput) :
    tableStep hz cpus t ⟨none, callocOk, unstamped r⟩ = tableStep hz cpus t ⟨none, callocOk, r⟩ := by
  unfold tableStep
  rw [updateEntry_unstamped]
  rfl

/-- An update changes the table, and otherwise the texts only. -/
theorem unstampedModule_eq (callocOk : Bool) (m : StatsModule) (r : ProcessStateInput)
    (hm : m.isModuleInitialized = true) :
    unstampedModule (processStatsUpdate callocOk m r)
      = { unstampedModule m with
          gProcessTable := tableStep m.gClockTicksPerSecond m.gOnlineCpuCount m.gProcessTable
            ⟨none, callocOk, r⟩ } := by
  have htable := processStatsUpdate_tableStep m ⟨none, callocOk, r⟩ hm
  obtain ⟨hinit, hticks, hcpus⟩ := processStatsUpdate_frame callocOk m r
  have hprog : (processStatsUpdate callocOk m r).progName = m.progName := by
    simp only [processStatsUpdate, hm, if_true]
    split <;> split <;> rfl
  have hcount : (processStatsUpdate callocOk m r).gNumberOfSnapshots = m.gNumberOfSnapshots := by
    simp only [processStatsUpdate, hm, if_true]
    split <;> split <;> rfl
  unfold unstampedModule
  rw [htable, hinit, hticks, hcpus, hprog, hcount]

/-- An update of modules and samples that differ in the texts only. -/
theorem unstampedModule_processStatsUpdate (callocOk : Bool) {m₁ m₂ : StatsModule}
    {r₁ r₂ : ProcessStateInput} (hm : unstampedModule m₁ = unstampedModule m₂)
    (hr : unstamped r₁ = unstamped r₂) :
    unstampedModule (processStatsUpdate callocOk m₁ r₁)
      = unstampedModule (processStatsUpdate callocOk m₂ r₂) := by
  obtain ⟨htable, hinit, -, -, hticks, hcpus⟩ := fields_of_unstampedModule hm
  cases h : m₁.isModuleInitialized with
  | false =>
      have hskip : ∀ (m : StatsModule) (r : ProcessStateInput), m.isModuleInitialized = false →
          processStatsUpdate callocOk m r = m := by
        intro m r hm
        simp only [processStatsUpdate, hm, Bool.false_eq_true, if_false]
      rw [hskip m₁ r₁ h, hskip m₂ r₂ (hinit ▸ h)]
      exact hm
  | true =>
      rw [unstampedModule_eq callocOk m₁ r₁ h, unstampedModule_eq callocOk m₂ r₂ (hinit ▸ h), hm,
        htable, hticks, hcpus, ← tableStep_unstamped _ _ _ _ r₁,
        ← tableStep_unstamped _ _ _ _ r₂, hr]

/-- The samples of one snapshot, on modules that differ in the texts only. -/
theorem unstampedModule_foldl (callocOk : Int32 → Bool) (rs₁ rs₂ : List ProcessStateInput)
    (m₁ m₂ : StatsModule) (hrs : rs₁.map unstamped = rs₂.map unstamped)
    (hm : unstampedModule m₁ = unstampedModule m₂) :
    unstampedModule (rs₁.foldl (fun m r => processStatsUpdate (callocOk r.pid) m r) m₁)
      = unstampedModule (rs₂.foldl (fun m r => processStatsUpdate (callocOk r.pid) m r) m₂) := by
  induction rs₁ generalizing rs₂ m₁ m₂ with
  | nil =>
      rw [List.map_nil, eq_comm, List.map_eq_nil_iff] at hrs
      rw [hrs]
      exact hm
  | cons r₁ rs₁ ih =>
      obtain ⟨r₂, rest, rfl, hr, hrest⟩ := List.map_eq_cons_iff.mp hrs.symm
      have hpid : (unstamped r₂).pid = (unstamped r₁).pid := by rw [hr]
      apply ih rest _ _ hrest.symm
      show unstampedModule (processStatsUpdate (callocOk r₁.pid) m₁ r₁)
        = unstampedModule (processStatsUpdate (callocOk r₂.pid) m₂ r₂)
      rw [show r₂.pid = r₁.pid from hpid]
      exact unstampedModule_processStatsUpdate _ hm hr.symm

/-- Two snapshots take the same samples, in the same order, and differ in the texts of the
wall clock only. -/
structure SameSamples (config : Config) (w : ApPidWhitelist) (env₁ env₂ : SnapshotEnv) : Prop where
  records : (snapshotRecords config env₁ w).map unstamped
    = (snapshotRecords config env₂ w).map unstamped
  callocOk : env₁.callocOk = env₂.callocOk

section Runs
variable (config : Config) (w : ApPidWhitelist) {envs₁ envs₂ : List SnapshotEnv}

/-- One snapshot in each run. -/
theorem unstampedModule_collectSnapshot {env₁ env₂ : SnapshotEnv}
    (h : SameSamples config w env₁ env₂) (o₁ o₂ : Output) {m₁ m₂ : StatsModule}
    (hm : unstampedModule m₁ = unstampedModule m₂) :
    unstampedModule (collectSnapshot config env₁ w o₁ m₁).2
      = unstampedModule (collectSnapshot config env₂ w o₂ m₂).2 := by
  have hend : ∀ m, unstampedModule (processStatsSnapshotEnd m)
      = processStatsSnapshotEnd (unstampedModule m) := by
    intro m
    unfold processStatsSnapshotEnd
    cases hm : m.isModuleInitialized <;> simp [unstampedModule, hm]
  rw [stats_collectSnapshot, stats_collectSnapshot, hend, hend, h.callocOk,
    unstampedModule_foldl env₂.callocOk _ _ m₁ m₂ h.records hm]

/-- Two runs with the same samples leave the same module, but for the texts. -/
theorem unstampedModule_collectSnapshots (h : List.Forall₂ (SameSamples config w) envs₁ envs₂)
    (s₁ s₂ : Output × StatsModule) (hs : unstampedModule s₁.2 = unstampedModule s₂.2) :
    unstampedModule (collectSnapshots config w envs₁ s₁).2
      = unstampedModule (collectSnapshots config w envs₂ s₂).2 := by
  induction h generalizing s₁ s₂ with
  | nil => exact hs
  | cons hhead _ ih =>
      exact ih _ _ (unstampedModule_collectSnapshot config w hhead s₁.1 s₂.1 hs)

end Runs

/-! ### The two texts -/

/-- The wall-clock readings behind the samples of a run, one for each sample. -/
def sampleClocks (config : Config) (w : ApPidWhitelist) (envs : List SnapshotEnv) :
    List WallClock :=
  envs.flatMap fun env => (snapshotRecords config env w).map fun _ => env.wallClock

/-- The module holds the texts of the first and the last reading. -/
structure Stamped (clocks : List WallClock) (m : StatsModule) : Prop where
  initialized : m.isModuleInitialized = true
  initial : m.hRInitialTimestamp = (clocks.head?.map hRTimestampText).getD []
  last : m.hRLastTimestamp = (clocks.getLast?.map hRTimestampText).getD []

/-- One sample with the text of the reading `c`. -/
theorem Stamped.update {clocks : List WallClock} {m : StatsModule}
    (h : Stamped clocks m) (callocOk : Bool) {r : ProcessStateInput} {c : WallClock}
    (hr : r.hRTimestamp = hRTimestampText c) :
    Stamped (clocks ++ [c]) (processStatsUpdate callocOk m r) := by
  have hlast : (processStatsUpdate callocOk m r).hRLastTimestamp = r.hRTimestamp := by
    simp only [processStatsUpdate, h.initialized, if_true]
    split <;> split <;> rfl
  have hinitial : (processStatsUpdate callocOk m r).hRInitialTimestamp
      = if m.hRInitialTimestamp.length = 0 then r.hRTimestamp else m.hRInitialTimestamp := by
    simp only [processStatsUpdate, h.initialized, if_true]
    split <;> split <;> rfl
  refine ⟨(isModuleInitialized_processStatsUpdate callocOk m r).trans h.initialized, ?_, ?_⟩
  · rw [hinitial, h.initial, hr]
    cases clocks with
    | nil =>
        simp only [List.head?_nil, Option.map_none, Option.getD_none, List.length_nil, if_true,
          List.nil_append, List.head?_cons, Option.map_some, Option.getD_some]
    | cons d ds =>
        -- The text of an earlier reading is not empty, so it stays.
        have hne := hRTimestampText_ne_nil d
        simp [hne]
  · rw [hlast, hr, List.getLast?_concat, Option.map_some, Option.getD_some]

/-- The samples of one snapshot. -/
theorem Stamped.updates {clocks : List WallClock} {m : StatsModule} (h : Stamped clocks m)
    (callocOk : Int32 → Bool) (c : WallClock) (rs : List ProcessStateInput)
    (hrs : ∀ r ∈ rs, r.hRTimestamp = hRTimestampText c) :
    Stamped (clocks ++ rs.map fun _ => c)
      (rs.foldl (fun m r => processStatsUpdate (callocOk r.pid) m r) m) := by
  induction rs generalizing clocks m with
  | nil =>
      rw [List.map_nil, List.append_nil]
      exact h
  | cons r rs ih =>
      have hstep := h.update (callocOk r.pid) (hrs r List.mem_cons_self)
      have hrest := ih hstep fun x hx => hrs x (List.mem_cons_of_mem _ hx)
      rw [List.append_assoc] at hrest
      exact hrest

/-- A run of snapshots. -/
theorem Stamped.run (config : Config) (w : ApPidWhitelist) (envs : List SnapshotEnv)
    {clocks : List WallClock} (s : Output × StatsModule) (h : Stamped clocks s.2) :
    Stamped (clocks ++ sampleClocks config w envs) (collectSnapshots config w envs s).2 := by
  induction envs generalizing clocks s with
  | nil =>
      show Stamped (clocks ++ []) s.2
      rw [List.append_nil]
      exact h
  | cons env envs ih =>
      have hone : Stamped (clocks ++ (snapshotRecords config env w).map fun _ => env.wallClock)
          (collectSnapshot config env w s.1 s.2).2 := by
        have hfold := h.updates env.callocOk env.wallClock (snapshotRecords config env w)
          fun r hr => hRTimestamp_of_mem_snapshotRecords hr
        rw [stats_collectSnapshot]
        unfold processStatsSnapshotEnd
        rw [if_pos hfold.initialized]
        exact ⟨hfold.initialized, hfold.initial, hfold.last⟩
      have hrest := ih _ hone
      rw [List.append_assoc] at hrest
      exact hrest

/-- The time between the first and the last of a list of readings. -/
def elapsedOf (clocks : List WallClock) : ℚ :=
  match clocks.head?, clocks.getLast? with
  | some start, some stop => start.elapsed stop
  | _, _ => 0

/-- The duration in the header is the wall-clock time between the first and the last sample. -/
theorem Stamped.duration {clocks : List WallClock} {m : StatsModule} (h : Stamped clocks m)
    (hvalid : ∀ c ∈ clocks, c.Valid) :
    getSnapshotDuration m.hRInitialTimestamp m.hRLastTimestamp = elapsedOf clocks := by
  rw [h.initial, h.last]
  unfold elapsedOf
  cases clocks with
  | nil =>
      have hnone : parseTimestampToDouble [] = -1 := rfl
      show getSnapshotDuration [] [] = 0
      unfold getSnapshotDuration
      rw [hnone, if_neg (by norm_num)]
  | cons c cs =>
      have hlast : (c :: cs).getLast? = some ((c :: cs).getLast (List.cons_ne_nil c cs)) :=
        List.getLast?_eq_some_getLast _
      rw [List.head?_cons, hlast, Option.map_some, Option.map_some, Option.getD_some,
        Option.getD_some]
      exact getSnapshotDuration_hRTimestampText (hvalid c List.mem_cons_self)
        (hvalid _ (List.getLast_mem _))

/-! ### The two reports -/

/-- Two texts of `metrics.json` that differ in the strings `start_time` and `end_time` at
most. -/
def SameFile (env : MetricsEnv) (file₁ file₂ : Option (List JsonPiece)) : Prop :=
  (file₁ = none ∧ file₂ = none) ∨
  ∃ (f : MetaFields) (start₁ end₁ start₂ end₂ : Bytes) (rest : List JsonPiece),
    file₁ = some (headerPieces env { f with startTimeIso := start₁, endTimeIso := end₁ } ++ rest) ∧
    file₂ = some (headerPieces env { f with startTimeIso := start₂, endTimeIso := end₂ } ++ rest)

/-- Two outcomes of `process_stats_print_metrics` with the same results: the metrics of every
process, the rankings on the console and in the file, the messages, and the file but for the
two strings. -/
def SameResults (env : MetricsEnv) :
    Except Fault MetricsResult → Except Fault MetricsResult → Prop
  | .error fault₁, .error fault₂ => fault₁ = fault₂
  | .ok out₁, .ok out₂ =>
      out₁.console = out₂.console ∧ out₁.stderr = out₂.stderr ∧
      out₁.module.gProcessTable = out₂.module.gProcessTable ∧
      SameFile env out₁.metricsFile out₂.metricsFile
  | _, _ => False

/-- Files that differ in the two strings at most have the same duration. -/
theorem durationSec_of_sameFile {env : MetricsEnv} {f₁ f₂ : MetaFields}
    {rest₁ rest₂ : List JsonPiece}
    (h : SameFile env (some (headerPieces env f₁ ++ rest₁)) (some (headerPieces env f₂ ++ rest₂))) :
    f₁.durationSec = f₂.durationSec := by
  rcases h with ⟨hnone, -⟩ | ⟨f, start₁, end₁, start₂, end₂, rest, h₁, h₂⟩
  · cases hnone
  · have hduration : ∀ {g g' : MetaFields} {r r' : List JsonPiece},
        headerPieces env g ++ r = headerPieces env g' ++ r' → g.durationSec = g'.durationSec := by
      intro g g' r r' heq
      -- The headers have the same number of pieces, and the duration is one of them.
      have hheader := (List.append_inj heq rfl).1
      simp only [headerPieces, List.cons.injEq, JsonPiece.real.injEq, true_and, and_true] at hheader
      obtain ⟨-, -, -, -, -, hreal, -⟩ := hheader
      exact hreal
    have hfirst := hduration (Option.some.inj h₁)
    have hsecond := hduration (Option.some.inj h₂)
    exact hfirst.trans hsecond.symm

section Reports
variable (qsort : Qsort) (config : Config) (env : MetricsEnv) (args : MetricsArguments)
  (intervalMs : UInt64) {m₁ m₂ : StatsModule}

/-- Two modules that differ in the texts only have the same results, exactly when no metrics
file is written or the two durations are the same. -/
theorem sameResults_iff_duration (h : unstampedModule m₁ = unstampedModule m₂)
    (hinit : m₁.isModuleInitialized = true) :
    SameResults env (processStatsPrintMetrics qsort config env args intervalMs m₁)
        (processStatsPrintMetrics qsort config env args intervalMs m₂)
      ↔ (m₁.gProcessTable ≠ [] → env.arrMallocOk = true → MetricsFileOpens config env →
        getSnapshotDuration m₁.hRInitialTimestamp m₁.hRLastTimestamp
          = getSnapshotDuration m₂.hRInitialTimestamp m₂.hRLastTimestamp) := by
  obtain ⟨htable, hinit₂, hprog, hcount, -, -⟩ := fields_of_unstampedModule h
  rw [hinit] at hinit₂
  by_cases hearly : m₁.gProcessTable = [] ∨ env.arrMallocOk = false
  · -- Both calls return at once.
    have hreturn : ∀ m : StatsModule, m.gProcessTable = m₁.gProcessTable →
        processStatsPrintMetrics qsort config env args intervalMs m = .ok ⟨[], [], none, m⟩ := by
      intro m hm
      unfold processStatsPrintMetrics
      rw [if_pos]
      rw [hm, List.length_eq_zero_iff]
      exact Or.inr hearly
    rw [hreturn m₁ rfl, hreturn m₂ htable.symm]
    constructor
    · intro _ hne harr _
      rcases hearly with hnil | hfail
      · exact absurd hnil hne
      · rw [harr] at hfail
        cases hfail
    · intro _
      exact ⟨rfl, rfl, htable, Or.inl ⟨rfl, rfl⟩⟩
  · rw [not_or, Bool.not_eq_false] at hearly
    obtain ⟨hne, harr⟩ := hearly
    rw [processStatsPrintMetrics_eq qsort config env args intervalMs m₁ hinit hne harr,
      processStatsPrintMetrics_eq qsort config env args intervalMs m₂ hinit₂.symm (htable ▸ hne)
        harr]
    by_cases hopen : MetricsFileOpens config env
    · rw [if_pos hopen, if_pos hopen]
      have haveraged : averagedTable args m₂ = averagedTable args m₁ := by
        unfold averagedTable
        rw [htable]
      obtain ⟨arr, console, first, rest, h₁, h₂⟩ := foldl_metricBlock_congr qsort config args
        printOrder (averagedTable args m₁) [] true (headerPieces env (metaFields m₁ intervalMs))
        (headerPieces env (metaFields m₂ intervalMs))
      rw [haveraged, h₁, h₂]
      simp only [metricsJsonEnd, Option.map_some, List.append_assoc]
      constructor
      · rintro ⟨-, -, -, hfile⟩ - - -
        exact durationSec_of_sameFile hfile
      · intro hduration
        refine ⟨rfl, rfl, rfl, Or.inr ⟨metaFields m₁ intervalMs, m₁.hRInitialTimestamp,
          m₁.hRLastTimestamp, m₂.hRInitialTimestamp, m₂.hRLastTimestamp, rest ++ footerPieces, rfl,
          ?_⟩⟩
        have hmeta : metaFields m₂ intervalMs = { metaFields m₁ intervalMs with
            startTimeIso := m₂.hRInitialTimestamp, endTimeIso := m₂.hRLastTimestamp } := by
          unfold metaFields
          rw [hduration hne harr hopen, hprog, hcount]
        rw [hmeta]
    · rw [if_neg hopen, if_neg hopen]
      exact ⟨fun _ _ _ ho => absurd ho hopen, fun _ => rfl⟩

end Reports

/-! ### Two runs -/

section TwoRuns
variable (config : Config) (w : ApPidWhitelist) (hz cpus : Int64) (prog : Bytes) (o : Output)
  (envs : List SnapshotEnv)

/-- A run that starts with `process_stats_initialize` holds the texts of its readings. -/
theorem stamped_statsAfter :
    Stamped (sampleClocks config w envs) (statsAfter config w hz cpus prog o envs) := by
  have hstart : Stamped [] (initializedModule hz cpus prog) := ⟨rfl, rfl, rfl⟩
  exact Stamped.run config w envs (o, initializedModule hz cpus prog) hstart

/-- The table of a run is empty exactly when no sample enters it. -/
theorem table_statsAfter_ne_nil_iff :
    (statsAfter config w hz cpus prog o envs).gProcessTable ≠ [] ↔ entered config w envs ≠ [] := by
  rw [table_statsAfter]
  constructor
  · intro hne hnil
    rw [hnil] at hne
    exact hne rfl
  · intro hne
    apply table_updateAll_ne_nil
    rw [ne_eq, List.map_eq_nil_iff]
    exact hne

/-- The readings of a run are valid when those of its snapshots are. -/
theorem valid_sampleClocks (hvalid : ∀ env ∈ envs, env.wallClock.Valid) :
    ∀ c ∈ sampleClocks config w envs, c.Valid := by
  intro c hc
  obtain ⟨env, henv, hmem⟩ := List.mem_flatMap.mp hc
  obtain ⟨-, -, rfl⟩ := List.mem_map.mp hmem
  exact hvalid env henv

end TwoRuns

/-- Results and the wall clock. Two runs with the same samples have the same results (the
metrics of every process, the rankings and the duration) exactly when no metrics file is
written or the wall-clock time between the first and the last sample is the same in both. -/
theorem sameResults_iff (config : Config) (w : ApPidWhitelist) (hz cpus : Int64) (prog : Bytes)
    (o₁ o₂ : Output) (envs₁ envs₂ : List SnapshotEnv)
    (hsame : List.Forall₂ (SameSamples config w) envs₁ envs₂)
    (hvalid₁ : ∀ env ∈ envs₁, env.wallClock.Valid) (hvalid₂ : ∀ env ∈ envs₂, env.wallClock.Valid)
    (qsort : Qsort) (env : MetricsEnv) (args : MetricsArguments) (intervalMs : UInt64) :
    SameResults env
        (processStatsPrintMetrics qsort config env args intervalMs
          (statsAfter config w hz cpus prog o₁ envs₁))
        (processStatsPrintMetrics qsort config env args intervalMs
          (statsAfter config w hz cpus prog o₂ envs₂))
      ↔ (entered config w envs₁ ≠ [] → env.arrMallocOk = true → MetricsFileOpens config env →
        elapsedOf (sampleClocks config w envs₁) = elapsedOf (sampleClocks config w envs₂)) := by
  have hstamped₁ := stamped_statsAfter config w hz cpus prog o₁ envs₁
  have hstamped₂ := stamped_statsAfter config w hz cpus prog o₂ envs₂
  have hmodules : unstampedModule (statsAfter config w hz cpus prog o₁ envs₁)
      = unstampedModule (statsAfter config w hz cpus prog o₂ envs₂) :=
    unstampedModule_collectSnapshots config w hsame _ _ rfl
  rw [sameResults_iff_duration qsort config env args intervalMs hmodules hstamped₁.initialized,
    hstamped₁.duration (valid_sampleClocks config w envs₁ hvalid₁),
    hstamped₂.duration (valid_sampleClocks config w envs₂ hvalid₂), table_statsAfter_ne_nil_iff]

/-! ### The same snapshots under another clock -/

/-- The snapshot with another reading of the wall clock. -/
def SnapshotEnv.atClock (env : SnapshotEnv) (c : WallClock) : SnapshotEnv :=
  { env with wallClock := c }

theorem unstamped_readFd (files : ProcFiles) (p : ProcessStateInput) (text : Bytes) :
    unstamped (readFd files { p with hRTimestamp := text }) = unstamped (readFd files p) := by
  unfold readFd unstamped
  simp only
  split <;> rfl

/-- Reading the files of a process does not look at the text in the record. -/
theorem unstamped_readProcStat (files : ProcFiles) (stale : Bytes) (pageSizeKb : Int64)
    (pid : Int32) (p : ProcessStateInput) (text : Bytes) :
    let r₁ := readProcStat files stale pageSizeKb pid p
    let r₂ := readProcStat files stale pageSizeKb pid { p with hRTimestamp := text }
    r₂.2 = r₁.2 ∧ (r₁.2 = true → unstamped (readFd files r₂.1) = unstamped (readFd files r₁.1)) := by
  intro r₁ r₂
  cases hparts : statParts files stale pid with
  | none =>
      have h₁ : r₁ = (p, false) := readProcStat_of_none files stale pageSizeKb pid p hparts
      have h₂ : r₂ = ({ p with hRTimestamp := text }, false) :=
        readProcStat_of_none files stale pageSizeKb pid _ hparts
      rw [h₁, h₂]
      exact ⟨rfl, fun hf => absurd hf Bool.false_ne_true⟩
  | some parts =>
      obtain ⟨-, hok₁, hrec₁⟩ := readProcStat_of_some files stale pageSizeKb pid p hparts
      obtain ⟨-, hok₂, hrec₂⟩ := readProcStat_of_some files stale pageSizeKb pid
        { p with hRTimestamp := text } hparts
      refine ⟨hok₂.trans hok₁.symm, fun hok => ?_⟩
      have hscan := hok₁.symm.trans hok
      rw [show r₁.1 = _ from hrec₁ hscan, show r₂.1 = _ from hrec₂ hscan]
      exact unstamped_readFd files (statRecord files pageSizeKb pid parts.1
        (scanStat statFields parts.2 ⟨p.state, p.ppid, p.utime, p.stime, p.threads, -1⟩).1 p) text

/-- The sample of a process under another clock differs in the text only. -/
theorem unstamped_sampleOf_atClock (env : SnapshotEnv) (c : WallClock) (pid : Int32) :
    (sampleOf (env.atClock c) pid).map unstamped = (sampleOf env pid).map unstamped := by
  obtain ⟨hok, hrec⟩ := unstamped_readProcStat env.files (env.stale pid) env.pageSizeKb pid
    { freshRecord env with pid := pid } (hRTimestampText c)
  have hfresh : { freshRecord (env.atClock c) with pid := pid }
      = { freshRecord env with pid := pid, hRTimestamp := hRTimestampText c } := by
    simp only [freshRecord, SnapshotEnv.atClock]
  -- The reading of the clock changes neither the files nor the buffers.
  have hread : readProcStat (env.atClock c).files ((env.atClock c).stale pid)
      (env.atClock c).pageSizeKb pid { freshRecord (env.atClock c) with pid := pid }
        = readProcStat env.files (env.stale pid) env.pageSizeKb pid
          { freshRecord env with pid := pid, hRTimestamp := hRTimestampText c } := by
    rw [hfresh]
    rfl
  rw [sampleOf_eq (env.atClock c) pid hread, sampleOf_eq env pid rfl, hok]
  cases hread₁ : (readProcStat env.files (env.stale pid) env.pageSizeKb pid
    { freshRecord env with pid := pid }).2 with
  | false => rw [if_neg Bool.false_ne_true, if_neg Bool.false_ne_true]
  | true =>
      rw [if_pos rfl, if_pos rfl, Option.map_some, Option.map_some]
      exact congrArg some (hrec hread₁)

/-- Two snapshots that differ in the reading of the wall clock take the same samples. -/
theorem sameSamples_atClock (config : Config) (w : ApPidWhitelist) (env : SnapshotEnv)
    (c : WallClock) : SameSamples config w env (env.atClock c) where
  records := by
    have hpasses : ∀ r, decide (Passes config env w (unstamped r))
        = decide (Passes config env w r) := fun r => rfl
    have hmap : ∀ l : List ProcessStateInput,
        (l.filter fun r => decide (Passes config env w r)).map unstamped
          = (l.map unstamped).filter fun r => decide (Passes config env w r) := by
      intro l
      rw [List.filter_map]
      rfl
    rw [snapshotRecords_eq, snapshotRecords_eq, hmap]
    refine Eq.trans ?_ (hmap _).symm
    rw [List.map_filterMap, List.map_filterMap]
    have hsample : (fun pid => (sampleOf (env.atClock c) pid).map unstamped)
        = fun pid => (sampleOf env pid).map unstamped :=
      funext (unstamped_sampleOf_atClock env c)
    rw [hsample]
    rfl
  callocOk := rfl

/-- 2026-01-19 at the given time. -/
def clockAt (hour min sec : Int) : WallClock := ⟨126, 0, 19, hour, min, sec, 0⟩

/-- Two snapshots of process 1, with the readings of the wall clock left open. -/
def twoEnvs (first second : WallClock) : List SnapshotEnv :=
  [initEnv.atClock first, { initEnv with monotonic := 11 }.atClock second]

/-- Each of the two snapshots takes one sample. -/
theorem length_snapshotRecords_twoEnvs (c : WallClock) :
    (snapshotRecords configDefault (initEnv.atClock c) {}).length = 1 ∧
    (snapshotRecords configDefault ({ initEnv with monotonic := 11 }.atClock c) {}).length = 1 := by
  have hlength : ∀ env : SnapshotEnv, (snapshotRecords configDefault (env.atClock c) {}).length
      = (snapshotRecords configDefault env {}).length := by
    intro env
    have hmap := congrArg List.length (sameSamples_atClock configDefault {} env c).records
    rw [List.length_map, List.length_map] at hmap
    exact hmap.symm
  rw [hlength, hlength]
  exact ⟨by decide +kernel, by decide +kernel⟩

/-- So there are two readings. -/
theorem sampleClocks_twoEnvs (first second : WallClock) :
    sampleClocks configDefault {} (twoEnvs first second) = [first, second] := by
  have hfirst := (length_snapshotRecords_twoEnvs first).1
  have hsecond := (length_snapshotRecords_twoEnvs second).2
  unfold sampleClocks twoEnvs
  rw [List.flatMap_cons, List.flatMap_cons, List.flatMap_nil, List.map_const', List.map_const',
    hfirst, hsecond]
  rfl

/-- And the first sample enters the table. -/
theorem entered_twoEnvs_ne_nil (first second : WallClock) :
    entered configDefault {} (twoEnvs first second) ≠ [] := by
  obtain ⟨r, hr⟩ := List.length_eq_one_iff.mp (length_snapshotRecords_twoEnvs first).1
  have hcalloc : (initEnv.atClock first).callocOk r.pid = true := rfl
  unfold entered twoEnvs
  rw [List.flatMap_cons, arrivals, hr, List.map_singleton, List.singleton_append, entering,
    if_pos (Or.inl hcalloc)]
  exact List.cons_ne_nil _ _

/-- The two runs take the same samples whatever the readings are. -/
theorem sameSamples_twoEnvs (first second first' second' : WallClock) :
    List.Forall₂ (SameSamples configDefault {}) (twoEnvs first second) (twoEnvs first' second') := by
  have hclock : ∀ (env : SnapshotEnv) (c c' : WallClock),
      SameSamples configDefault {} (env.atClock c) (env.atClock c') :=
    fun env c c' => sameSamples_atClock configDefault {} (env.atClock c) c'
  exact .cons (hclock initEnv first first') (.cons (hclock _ second second') .nil)

theorem valid_twoEnvs {first second : WallClock} (hfirst : first.Valid) (hsecond : second.Valid) :
    ∀ env ∈ twoEnvs first second, env.wallClock.Valid := by
  intro env henv
  rcases List.mem_cons.mp henv with rfl | henv
  · exact hfirst
  · rw [List.mem_singleton.mp henv]
    exact hsecond

/-- A run of one second has the same results when the clock is an hour behind. -/
theorem sameResults_otherHour :
    SameResults ⟨true, true, true, none⟩
      (processStatsPrintMetrics Qsort.mergeSort configDefault ⟨true, true, true, none⟩ {} 1000
        (statsAfter configDefault {} 100 1 [] noOutput
          (twoEnvs (clockAt 21 47 41) (clockAt 21 47 42))))
      (processStatsPrintMetrics Qsort.mergeSort configDefault ⟨true, true, true, none⟩ {} 1000
        (statsAfter configDefault {} 100 1 [] noOutput
          (twoEnvs (clockAt 20 47 41) (clockAt 20 47 42)))) := by
  have helapsed : elapsedOf [clockAt 21 47 41, clockAt 21 47 42]
      = elapsedOf [clockAt 20 47 41, clockAt 20 47 42] := by
    decide +kernel
  have hiff := sameResults_iff configDefault {} 100 1 [] noOutput noOutput
    (twoEnvs (clockAt 21 47 41) (clockAt 21 47 42)) (twoEnvs (clockAt 20 47 41) (clockAt 20 47 42))
    (sameSamples_twoEnvs _ _ _ _) (valid_twoEnvs (by decide) (by decide))
    (valid_twoEnvs (by decide) (by decide)) Qsort.mergeSort ⟨true, true, true, none⟩ {} 1000
  rw [sampleClocks_twoEnvs, sampleClocks_twoEnvs] at hiff
  exact hiff.mpr fun _ _ _ => helapsed

/-- The clock is set back by an hour between two snapshots that are one second apart. The
duration is 0 instead of 1, so the results differ. -/
theorem not_sameResults_setBack :
    ¬ SameResults ⟨true, true, true, none⟩
      (processStatsPrintMetrics Qsort.mergeSort configDefault ⟨true, true, true, none⟩ {} 1000
        (statsAfter configDefault {} 100 1 [] noOutput
          (twoEnvs (clockAt 21 47 41) (clockAt 21 47 42))))
      (processStatsPrintMetrics Qsort.mergeSort configDefault ⟨true, true, true, none⟩ {} 1000
        (statsAfter configDefault {} 100 1 [] noOutput
          (twoEnvs (clockAt 21 47 41) (clockAt 20 47 42)))) := by
  intro hsame
  have hstamped₁ := stamped_statsAfter configDefault {} 100 1 [] noOutput
    (twoEnvs (clockAt 21 47 41) (clockAt 21 47 42))
  have hstamped₂ := stamped_statsAfter configDefault {} 100 1 [] noOutput
    (twoEnvs (clockAt 21 47 41) (clockAt 20 47 42))
  have hmodules : unstampedModule (statsAfter configDefault {} 100 1 [] noOutput
        (twoEnvs (clockAt 21 47 41) (clockAt 21 47 42)))
      = unstampedModule (statsAfter configDefault {} 100 1 [] noOutput
        (twoEnvs (clockAt 21 47 41) (clockAt 20 47 42))) :=
    unstampedModule_collectSnapshots configDefault {} (sameSamples_twoEnvs _ _ _ _)
      (noOutput, initializedModule 100 1 []) (noOutput, initializedModule 100 1 []) rfl
  have htable := (table_statsAfter_ne_nil_iff configDefault {} 100 1 [] noOutput
    (twoEnvs (clockAt 21 47 41) (clockAt 21 47 42))).mpr (entered_twoEnvs_ne_nil _ _)
  have hduration := (sameResults_iff_duration Qsort.mergeSort configDefault
    ⟨true, true, true, none⟩ {} 1000 hmodules hstamped₁.initialized).mp hsame htable rfl
    ⟨rfl, rfl, rfl⟩
  rw [hstamped₁.duration (valid_sampleClocks _ _ _ (valid_twoEnvs (by decide) (by decide))),
    hstamped₂.duration (valid_sampleClocks _ _ _ (valid_twoEnvs (by decide) (by decide))),
    sampleClocks_twoEnvs, sampleClocks_twoEnvs] at hduration
  revert hduration
  decide +kernel

end ProcessAnalyzer
