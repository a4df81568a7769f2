import ProcessAnalyzer.Model.Metrics
import ProcessAnalyzer.Proofs.Aggregates

/-!
# `ProcessAnalyzer.Proofs.Report`: the end-of-run report

`process_stats_print_metrics` runs the same body once per requested metric over one array,
which it sorts again each time. `foldl_metricBlock` describes the whole sequence of
blocks: the array stays a permutation of the table, and the console and the JSON stream
receive the same list of blocks, each of them the first entries of a sorted permutation of
the table.

* `comparator_eq` writes each of the eleven comparators as the descending comparator of a
  number (`Metric.sortKey`), so each is a total preorder and `Lib.isTopN_take_sort`
  applies.
* `processStatsPrintMetrics_eq` gives the result of a call that passes the early returns:
  the report when the metrics file opens, and a write through the null stream when it does
  not.
-/

set_option autoImplicit false

namespace ProcessAnalyzer.Stats

open ProcessAnalyzer.Lib

/-! ### Comparators as keys -/

/-- The number by which a block sorts, as its comparator reads it. `labs` is taken in
machine arithmetic. -/
def Metric.sortKey (ps : ProcessState) : Metric → ℚ
  | .avgCpu => ps.averageCpuUsage
  | .avgRss => ps.rssAverageKb.toInt
  | .rssIncr => ps.rssVariationSinceStartup.toInt
  | .rssDelta => ps.rssVariationSinceStartup.abs.toInt
  | .bytesRead => ps.totalReadKbytes.toNat
  | .readRate => ps.avgReadRateKbS
  | .writtenBytes => ps.totalWriteKbytes.toNat
  | .writeRate => ps.avgWriteRateKbS
  | .fdsIncrease => ps.fdDelta.toInt
  | .noOfFds => ps.currentNumOfFds.toNat
  | .fdsDelta => ps.fdDelta.abs.toInt

/-- The key of a metric: the signed value, and the absolute value for the two deltas. -/
def Metric.key (ps : ProcessState) : Metric → ℚ
  | .avgCpu => ps.averageCpuUsage
  | .avgRss => ps.rssAverageKb.toInt
  | .rssIncr => ps.rssVariationSinceStartup.toInt
  | .rssDelta => |(ps.rssVariationSinceStartup.toInt : ℚ)|
  | .bytesRead => ps.totalReadKbytes.toNat
  | .readRate => ps.avgReadRateKbS
  | .writtenBytes => ps.totalWriteKbytes.toNat
  | .writeRate => ps.avgWriteRateKbS
  | .fdsIncrease => ps.fdDelta.toInt
  | .noOfFds => ps.currentNumOfFds.toNat
  | .fdsDelta => |(ps.fdDelta.toInt : ℚ)|

/-- A comparator on a signed field compares the integers. -/
theorem compareDesc_int64 (field : ProcessState → Int64) :
    compareDesc field = compareDesc fun ps => ((field ps).toInt : ℚ) :=
  compareDesc_comp (fun z : Int64 => (z.toInt : ℚ))
    (fun x y => by rw [Int64.lt_iff_toInt_lt, Int.cast_lt]) field

/-- A comparator on an unsigned field compares the natural numbers. -/
theorem compareDesc_uint64 (field : ProcessState → UInt64) :
    compareDesc field = compareDesc fun ps => ((field ps).toNat : ℚ) :=
  compareDesc_comp (fun w : UInt64 => (w.toNat : ℚ))
    (fun x y => by rw [UInt64.lt_iff_toNat_lt, Nat.cast_lt]) field

/-- Every comparator of the source is the descending comparator of its sort key. -/
theorem comparator_eq (m : Metric) : m.comparator = compareDesc fun ps => m.sortKey ps := by
  cases m with
  | avgCpu => rfl
  | avgRss => exact compareDesc_int64 _
  | rssIncr => exact compareDesc_int64 _
  | rssDelta => exact compareDesc_int64 _
  | bytesRead => exact compareDesc_uint64 _
  | readRate => rfl
  | writtenBytes => exact compareDesc_uint64 _
  | writeRate => rfl
  | fdsIncrease => exact compareDesc_int64 _
  | noOfFds => exact compareDesc_uint64 _
  | fdsDelta => exact compareDesc_int64 _

/-- Every comparator of the source is a total preorder. -/
theorem totalPreorderCmp_comparator (m : Metric) : TotalPreorderCmp m.comparator := by
  rw [comparator_eq]
  exact totalPreorderCmp_compareDesc _

/-- An entry whose two deltas are not the smallest `long`, so that `labs` is exact. -/
structure DeltasInRange (ps : ProcessState) : Prop where
  rss : -2 ^ 63 < ps.rssVariationSinceStartup.toInt
  fd : -2 ^ 63 < ps.fdDelta.toInt

/-- On entries in range, the sort key of a block is the metric's key. -/
theorem sortKey_eq_key {ps : ProcessState} (h : DeltasInRange ps) (m : Metric) :
    m.sortKey ps = m.key ps := by
  cases m with
  | rssDelta =>
      show ((ps.rssVariationSinceStartup.abs.toInt : Int) : ℚ) = _
      rw [toInt_abs_of_ne h.rss, Int.cast_abs]
      rfl
  | fdsDelta =>
      show ((ps.fdDelta.abs.toInt : Int) : ℚ) = _
      rw [toInt_abs_of_ne h.fd, Int.cast_abs]
      rfl
  | _ => rfl

/-! ### The sequence of blocks -/

/-- A block of the report: the metric and the entries that it lists. -/
abbrev Block := Metric × List ProcessState

/-- The console form of a block. -/
def Block.console (b : Block) : ConsoleBlock :=
  ⟨b.1.title, b.2.length, b.1.column, b.2.map (consoleRow b.1)⟩

/-- The JSON form of a sequence of blocks. `first` says that no block was written yet. -/
def blocksPieces : Bool → List Block → List JsonPiece
  | _, [] => []
  | first, b :: rest =>
      (if first then [] else [.text ",\n"]) ++ metricBlockPieces (gMetrics b.1) b.2
        ++ blocksPieces false rest

/-- The entries of `b` are the first rows of some permutation of `table` that `qsort`
sorted with the comparator of the metric. -/
def Block.FromSort (qsort : Qsort) (args : MetricsArguments) (table : List ProcessState)
    (b : Block) : Prop :=
  ∃ arr : List ProcessState, arr.Perm table ∧
    b.2 = (qsort.sort b.1.comparator arr).take (rowCount (args.pidsToDisplay b.1) table.length)

/-- The number of rows is the limit or the size of the table, whichever is smaller. -/
theorem rowCount_eq_min (limit : Int32) (count : ℕ) :
    rowCount limit count = min limit.toInt.toNat count := by
  unfold rowCount
  split <;> omega

/-- What a sequence of blocks does to the report. -/
theorem foldl_metricBlock (qsort : Qsort) (config : Config) (args : MetricsArguments)
    (table : List ProcessState) (ms : List Metric) (r : Report) (hr : r.arr.Perm table) :
    ∃ blocks : List Block,
      blocks.map Prod.fst = ms.filter args.requested ∧
      (∀ b ∈ blocks, b.FromSort qsort args table) ∧
      (ms.foldl (metricBlock qsort config args) r).console
        = r.console ++ (if config.configGetMetricsConsoleEnabled then blocks.map Block.console
            else []) ∧
      (ms.foldl (metricBlock qsort config args) r).json.pfJsonOutput
        = r.json.pfJsonOutput.map (· ++ blocksPieces r.json.boIsFirstJsonMetric blocks) := by
  -- Every block sorts the array again, so the invariant is that it is a permutation of the table.
  induction ms generalizing r with
  | nil =>
      refine ⟨[], rfl, by simp, ?_, ?_⟩
      · cases config.configGetMetricsConsoleEnabled <;> simp
      · cases h : r.json.pfJsonOutput <;> simp [h, blocksPieces]
  | cons m ms ih =>
      by_cases hreq : args.requested m
      · -- The block of `m` is the head of the list, the rest comes from the recursion.
        have hperm := (qsort.perm_sort (totalPreorderCmp_comparator m) r.arr).trans hr
        obtain ⟨blocks, hfst, hsort, hcon, hjson⟩ := ih (metricBlock qsort config args r m)
          (by simpa only [metricBlock, hreq, if_true] using hperm)
        have hlen : (qsort.sort m.comparator r.arr).length = table.length := hperm.length_eq
        refine ⟨(m, (qsort.sort m.comparator r.arr).take
          (rowCount (args.pidsToDisplay m) table.length)) :: blocks, ?_, ?_, ?_, ?_⟩
        · simp [hreq, hfst]
        · intro b hb
          rcases List.mem_cons.mp hb with rfl | hb
          · exact ⟨r.arr, hr, rfl⟩
          · exact hsort b hb
        · have hrows : ((qsort.sort m.comparator r.arr).take
              (rowCount (args.pidsToDisplay m) table.length)).length
                = rowCount (args.pidsToDisplay m) table.length := by
            rw [List.length_take, hlen, rowCount_eq_min]
            omega
          rw [List.foldl_cons, hcon]
          cases hc : config.configGetMetricsConsoleEnabled with
          | false => simp [metricBlock, hreq, hc]
          | true => simp [metricBlock, hreq, hc, hlen, consoleBlock, Block.console, hrows]
        · rw [List.foldl_cons, hjson]
          cases hpf : r.json.pfJsonOutput with
          | none => simp [metricBlock, hreq, writeMetricBlockJson, hpf]
          | some written =>
              simp [metricBlock, hreq, writeMetricBlockJson, hpf, hlen, blocksPieces,
                List.append_assoc]
      · obtain ⟨blocks, hfst, hsort, hcon, hjson⟩ := ih r hr
        have hskip : metricBlock qsort config args r m = r := by simp [metricBlock, hreq]
        refine ⟨blocks, ?_, hsort, ?_, ?_⟩
        · simp [hreq, hfst]
        · rw [List.foldl_cons, hskip]
          exact hcon
        · rw [List.foldl_cons, hskip]
          exact hjson

/-- The console output of the blocks does not depend on the JSON stream. -/
theorem console_foldl_metricBlock_congr (qsort : Qsort) (config : Config)
    (args : MetricsArguments) (ms : List Metric) (arr : List ProcessState)
    (console : List ConsoleBlock) (json json' : JsonOutput) :
    (ms.foldl (metricBlock qsort config args) ⟨arr, console, json⟩).console
      = (ms.foldl (metricBlock qsort config args) ⟨arr, console, json'⟩).console := by
  induction ms generalizing arr console json json' with
  | nil => rfl
  | cons m ms ih =>
      rw [List.foldl_cons, List.foldl_cons]
      by_cases hreq : args.requested m
      · simp only [metricBlock, hreq, if_true]
        exact ih _ _ _ _
      · simp only [metricBlock, hreq]
        exact ih _ _ _ _

/-- What a requested block writes to an open stream. -/
def metricBlockText (qsort : Qsort) (args : MetricsArguments) (m : Metric)
    (arr : List ProcessState) (first : Bool) : List JsonPiece :=
  (if first then [] else [.text ",\n"]) ++ metricBlockPieces (gMetrics m)
    ((qsort.sort m.comparator arr).take (rowCount (args.pidsToDisplay m)
      (qsort.sort m.comparator arr).length))

/-- A requested block on an open stream. -/
theorem metricBlock_of_requested (qsort : Qsort) (config : Config) (args : MetricsArguments)
    {m : Metric} (hreq : args.requested m = true) (arr : List ProcessState)
    (console : List ConsoleBlock) (first : Bool) (head : List JsonPiece) :
    metricBlock qsort config args ⟨arr, console, ⟨some head, first⟩⟩ m
      = ⟨qsort.sort m.comparator arr, (metricBlock qsort config args ⟨arr, console, {}⟩ m).console,
          ⟨some (head ++ metricBlockText qsort args m arr first), false⟩⟩ := by
  simp only [metricBlock, hreq, if_true, writeMetricBlockJson, metricBlockText, List.append_assoc]

/-- What the blocks add to an open stream does not depend on the text in front of it. -/
theorem foldl_metricBlock_congr (qsort : Qsort) (config : Config) (args : MetricsArguments)
    (ms : List Metric) (arr : List ProcessState) (console : List ConsoleBlock) (first : Bool)
    (head₁ head₂ : List JsonPiece) :
    ∃ (arr' : List ProcessState) (console' : List ConsoleBlock) (first' : Bool)
      (rest : List JsonPiece),
      ms.foldl (metricBlock qsort config args) ⟨arr, console, ⟨some head₁, first⟩⟩
        = ⟨arr', console', ⟨some (head₁ ++ rest), first'⟩⟩ ∧
      ms.foldl (metricBlock qsort config args) ⟨arr, console, ⟨some head₂, first⟩⟩
        = ⟨arr', console', ⟨some (head₂ ++ rest), first'⟩⟩ := by
  induction ms generalizing arr console first head₁ head₂ with
  | nil =>
      refine ⟨arr, console, first, [], ?_, ?_⟩
      · rw [List.append_nil]
        rfl
      · rw [List.append_nil]
        rfl
  | cons m ms ih =>
      rw [List.foldl_cons, List.foldl_cons]
      by_cases hreq : args.requested m
      · -- The block is the same text behind both heads.
        have hblock := metricBlock_of_requested qsort config args hreq arr console first
        generalize metricBlockText qsort args m arr first = text at hblock
        generalize (metricBlock qsort config args ⟨arr, console, {}⟩ m).console = console₁ at hblock
        obtain ⟨arr', console', first', rest, h₁, h₂⟩ :=
          ih (qsort.sort m.comparator arr) console₁ false (head₁ ++ text) (head₂ ++ text)
        rw [List.append_assoc] at h₁ h₂
        rw [hblock, hblock]
        exact ⟨arr', console', first', text ++ rest, h₁, h₂⟩
      · simp only [metricBlock, hreq]
        exact ih _ _ _ _ _

/-! ### The whole call -/

/-- `open_metrics_file` leaves an open stream: the getter says that the JSON output is
enabled, and both `malloc` and `fopen` succeed. -/
def MetricsFileOpens (config : Config) (env : MetricsEnv) : Prop :=
  config.configGetMetricsJsonEnabled = true ∧ env.pathMallocOk = true ∧ env.fopenOk = true

instance (config : Config) (env : MetricsEnv) : Decidable (MetricsFileOpens config env) :=
  inferInstanceAs (Decidable (_ ∧ _ ∧ _))

/-- The stream after `open_metrics_file`. -/
theorem pfJsonOutput_openMetricsFile (config : Config) (env : MetricsEnv) :
    (openMetricsFile config env).1.pfJsonOutput
      = if MetricsFileOpens config env then some [] else none := by
  by_cases hj : config.configGetMetricsJsonEnabled = true
  · by_cases hp : env.pathMallocOk = true
    · by_cases hf : env.fopenOk = true <;> simp [openMetricsFile, MetricsFileOpens, hj, hp, hf]
    · simp [openMetricsFile, MetricsFileOpens, hj, hp]
  · simp [openMetricsFile, MetricsFileOpens, hj]

/-- The console report of a call, read off the table and the arguments alone: no JSON
stream is involved. It is empty when the pointer array cannot be allocated. -/
def consoleReport (qsort : Qsort) (config : Config) (env : MetricsEnv) (args : MetricsArguments)
    (m : StatsModule) : List ConsoleBlock :=
  if env.arrMallocOk then
    (printOrder.foldl (metricBlock qsort config args)
      ⟨m.gProcessTable.map (computeAverages args), [], {}⟩).console
  else []

section Call
variable (qsort : Qsort) (config : Config) (env : MetricsEnv) (args : MetricsArguments)
  (intervalMs : UInt64) (m : StatsModule)

/-- The table of the module once the averages are filled in. -/
def averagedTable (args : MetricsArguments) (m : StatsModule) : List ProcessState :=
  m.gProcessTable.map (computeAverages args)

/-- The averaging loop changes neither the process nor its deltas and records. -/
theorem computeAverages_frame (args : MetricsArguments) (ps : ProcessState) :
    (computeAverages args ps).pid = ps.pid ∧
    (computeAverages args ps).numberOfRecords = ps.numberOfRecords ∧
    (computeAverages args ps).rssVariationSinceStartup = ps.rssVariationSinceStartup ∧
    (computeAverages args ps).fdDelta = ps.fdDelta := by
  simp only [computeAverages]
  split_ifs <;> exact ⟨rfl, rfl, rfl, rfl⟩

/-- The result of a call that passes the early returns. -/
theorem processStatsPrintMetrics_eq (hm : m.isModuleInitialized = true)
    (ht : m.gProcessTable ≠ []) (ha : env.arrMallocOk = true) :
    processStatsPrintMetrics qsort config env args intervalMs m
      = if MetricsFileOpens config env then
          let r := printOrder.foldl (metricBlock qsort config args) ⟨averagedTable args m, [],
            { pfJsonOutput := some (headerPieces env (metaFields m intervalMs)) }⟩
          .ok ⟨r.console, (openMetricsFile config env).2, metricsJsonEnd r.json,
            { m with gProcessTable := averagedTable args m }⟩
        else .error .nullStream := by
  have hlen : m.gProcessTable.length ≠ 0 := by simpa using ht
  have hpf := pfJsonOutput_openMetricsFile config env
  simp only [processStatsPrintMetrics, hm, ha, hlen, Bool.true_eq_false, or_self, if_false]
  -- `metrics_json_begin` writes the header without a test of the stream.
  by_cases ho : MetricsFileOpens config env
  · rw [if_pos ho] at hpf ⊢
    simp only [metricsJsonBegin, hpf, List.nil_append]
    rfl
  · rw [if_neg ho] at hpf ⊢
    simp only [metricsJsonBegin, hpf]
    rfl

/-- What a call that completes has done: it returned early, or it wrote one block per
requested metric, the same ones to the console and to `metrics.json`. -/
theorem processStatsPrintMetrics_cases {out : MetricsResult}
    (h : processStatsPrintMetrics qsort config env args intervalMs m = .ok out) :
    ((m.isModuleInitialized = false ∨ m.gProcessTable = [] ∨ env.arrMallocOk = false) ∧
      out = ⟨[], [], none, m⟩) ∨
    (MetricsFileOpens config env ∧ ∃ blocks : List Block,
      blocks.map Prod.fst = printOrder.filter args.requested ∧
      (∀ b ∈ blocks, b.FromSort qsort args (averagedTable args m)) ∧
      out = ⟨if config.configGetMetricsConsoleEnabled then blocks.map Block.console else [],
        (openMetricsFile config env).2,
        some (headerPieces env (metaFields m intervalMs) ++ blocksPieces true blocks
          ++ footerPieces),
        { m with gProcessTable := averagedTable args m }⟩) := by
  by_cases hearly : m.isModuleInitialized = false ∨ m.gProcessTable = [] ∨ env.arrMallocOk = false
  · left
    refine ⟨hearly, ?_⟩
    unfold processStatsPrintMetrics at h
    rw [if_pos (by simpa using hearly)] at h
    exact (Except.ok.inj h).symm
  · right
    simp only [not_or, Bool.not_eq_false] at hearly
    rw [processStatsPrintMetrics_eq qsort config env args intervalMs m hearly.1 hearly.2.1
      hearly.2.2] at h
    by_cases ho : MetricsFileOpens config env
    · rw [if_pos ho, Except.ok.injEq] at h
      obtain ⟨blocks, hfst, hsort, hcon, hjson⟩ := foldl_metricBlock qsort config args
        (averagedTable args m) printOrder ⟨averagedTable args m, [],
          { pfJsonOutput := some (headerPieces env (metaFields m intervalMs)) }⟩
        (List.Perm.refl _)
      refine ⟨ho, blocks, hfst, hsort, ?_⟩
      rw [← h, hcon]
      simp only [List.nil_append, metricsJsonEnd, hjson, Option.map_some]
    · rw [if_neg ho] at h
      cases h

/-- The end-of-run step completes with the console report of its table exactly when the
metrics file opens, or when the pointer array cannot be allocated and the step returns at
once. -/
theorem completes_with_consoleReport_iff (hm : m.isModuleInitialized = true)
    (ht : m.gProcessTable ≠ []) :
    (∃ out, processStatsPrintMetrics qsort config env args intervalMs m = .ok out ∧
      out.console = consoleReport qsort config env args m)
    ↔ env.arrMallocOk = false ∨ MetricsFileOpens config env := by
  cases ha : env.arrMallocOk with
  -- the early return, with nothing printed
  | false =>
      refine ⟨fun _ => Or.inl rfl, fun _ => ⟨⟨[], [], none, m⟩, ?_, ?_⟩⟩
      · simp [processStatsPrintMetrics, ha]
      · simp [consoleReport, ha]
  | true =>
      rw [processStatsPrintMetrics_eq qsort config env args intervalMs m hm ht ha]
      by_cases ho : MetricsFileOpens config env
      · refine ⟨fun _ => Or.inr ho, fun _ => ⟨_, if_pos ho, ?_⟩⟩
        simp only [consoleReport, ha, if_true]
        exact console_foldl_metricBlock_congr qsort config args printOrder _ [] _ _
      · rw [if_neg ho]
        simp [ho]

end Call

/-- A sample of process 1 with valid data in every group. -/
def sampleOfInit : ProcessStateInput where
  pid := 1
  comm := ascii "init"
  state := 83
  ppid := 0
  utime := 5
  stime := 3
  rssKb := 1200
  timestamp := 10
  hRTimestamp := ascii "2026-01-19 21:47:41.677"
  threads := 1
  readKbytes := 40
  writeKbytes := 7
  boIsRssValid := true
  boIsIoValid := true
  numberOfFds := 12
  boIsFdValid := true

/-- Two snapshots with three processes. Two of them have the same RSS, and the third uses the
most CPU time. -/
def samplesOfThree : List ProcessStateInput :=
  let bash := { sampleOfInit with pid := 2, comm := ascii "bash", rssKb := 3000 }
  let sshd := { sampleOfInit with pid := 3, comm := ascii "sshd", rssKb := 3000 }
  [sampleOfInit, bash, sshd, { sampleOfInit with utime := 15, timestamp := 11 },
    { bash with timestamp := 11 }, { sshd with utime := 55, timestamp := 11 }]

/-- The first two processes by average CPU usage and by average RSS. -/
def firstTwo : MetricsArguments where
  cpuAverageRequested := true
  cpuAveragePidsToDisplay := 2
  rssAverageRequested := true
  rssAveragePidsToDisplay := 2

/-- With the default configuration and everything allocated, a report on one process
completes when `metrics.json` can be opened. -/
theorem completes_with_consoleReport_init :
    ∃ out, processStatsPrintMetrics Qsort.mergeSort configDefault ⟨true, true, true, none⟩
        { cpuAverageRequested := true, cpuAveragePidsToDisplay := 1 } 100
        (updateAll (initializedModule 100 1 []) [sampleOfInit]) = .ok out ∧
      out.console = consoleReport Qsort.mergeSort configDefault ⟨true, true, true, none⟩
        { cpuAverageRequested := true, cpuAveragePidsToDisplay := 1 }
        (updateAll (initializedModule 100 1 []) [sampleOfInit]) :=
  (completes_with_consoleReport_iff Qsort.mergeSort configDefault ⟨true, true, true, none⟩ _ 100 _
    rfl (table_updateAll_ne_nil _ _ _ _ (by simp))).mpr (Or.inr ⟨rfl, rfl, rfl⟩)

/-- The end-of-run step does not tolerate a missing metrics file: with the default
configuration, when `fopen` fails, the header is written through the null stream. -/
theorem not_completes_when_fopen_fails :
    ¬ ∀ (qsort : Qsort) (config : Config) (env : MetricsEnv) (args : MetricsArguments)
      (intervalMs : UInt64) (m : StatsModule), m.isModuleInitialized = true →
      m.gProcessTable ≠ [] →
      ∃ out, processStatsPrintMetrics qsort config env args intervalMs m = .ok out ∧
        out.console = consoleReport qsort config env args m := by
  intro h
  have hne := table_updateAll_ne_nil 100 1 [] [sampleOfInit] (by simp)
  obtain ⟨out, hout, -⟩ := h Qsort.mergeSort configDefault ⟨true, true, false, none⟩
    { cpuAverageRequested := true, cpuAveragePidsToDisplay := 1 } 100
    (updateAll (initializedModule 100 1 []) [sampleOfInit]) rfl hne
  rw [processStatsPrintMetrics_eq _ _ _ _ _ _ rfl hne rfl] at hout
  simp [MetricsFileOpens] at hout

end ProcessAnalyzer.Stats
