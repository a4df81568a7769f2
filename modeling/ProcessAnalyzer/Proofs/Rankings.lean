import ProcessAnalyzer.Proofs.Report

/-!
# `ProcessAnalyzer.Proofs.Rankings`: every block is a top-N

The blocks of the report are the first rows of sorted permutations of the table
(`ProcessAnalyzer.Proofs.Report`). This module adds what makes them rankings by the
metrics' own keys:

* `deltasInRange_of_mem`: on every table that samples in range produce, the two deltas are
  never the smallest `long`, so `labs` is the absolute value.
* `isTopN_of_fromSort`: a block is a top-N of the table by the metric's key, and it lists
  distinct processes.
-/

set_option autoImplicit false

namespace ProcessAnalyzer.Stats

open ProcessAnalyzer.Lib

/-- The ranges that the snapshot code gives its samples: a valid RSS is not negative
(`read_proc_stat`), and a valid descriptor count comes from a `long` (`read_fd`). -/
structure SampleInRange (x : ProcessStateInput) : Prop where
  rss : x.boIsRssValid = true → 0 ≤ x.rssKb.toInt
  fds : x.boIsFdValid = true → x.numberOfFds.toNat < 2 ^ 63

/-! ### Reachable entries -/

/-- The valid RSS values of samples in range are not negative. -/
theorem validRss_nonneg {xs : List ProcessStateInput} (h : ∀ x ∈ xs, SampleInRange x) :
    ∀ v ∈ validRss xs, 0 ≤ v.toInt := by
  intro v hv
  obtain ⟨x, hx, hpick⟩ := List.mem_filterMap.mp hv
  by_cases hvalid : x.boIsRssValid = true
  · rw [if_pos hvalid, Option.some.injEq] at hpick
    exact hpick ▸ (h x hx).rss hvalid
  · rw [if_neg hvalid] at hpick
    cases hpick

/-- The valid descriptor counts of samples in range fit into a `long`. -/
theorem validFds_lt {xs : List ProcessStateInput} (h : ∀ x ∈ xs, SampleInRange x) :
    ∀ w ∈ validFds xs, w.toNat < 2 ^ 63 := by
  intro w hw
  obtain ⟨x, hx, hpick⟩ := List.mem_filterMap.mp hw
  by_cases hvalid : x.boIsFdValid = true
  · rw [if_pos hvalid, Option.some.injEq] at hpick
    exact hpick ▸ (h x hx).fds hvalid
  · rw [if_neg hvalid] at hpick
    cases hpick

/-- The entry of a process after samples in range has deltas in range. -/
theorem deltasInRange_updateRun (hz cpus : Int64) (x : ProcessStateInput)
    (xs : List ProcessStateInput) (h : ∀ y ∈ x :: xs, SampleInRange y) :
    DeltasInRange (updateRun hz cpus (newProcess x) (x :: xs)) := by
  have hrss := rssGroup_run hz cpus (x :: xs) (newProcess x)
  have hfd := fdGroup_run hz cpus (x :: xs) (newProcess x)
  rw [show (newProcess x).rssGroup = {} from rfl, RssGroup.foldl_sample] at hrss
  rw [show (newProcess x).fdGroup = {} from rfl, FdGroup.foldl_sample] at hfd
  have hvs := validRss_nonneg h
  have hws := validFds_lt h
  refine ⟨?_, ?_⟩
  · have hfirst : 0 ≤ ((validRss (x :: xs)).headD 0).toInt := headD_of_forall (by simp) hvs
    have hlast : 0 ≤ ((validRss (x :: xs)).getLastD 0).toInt := getLastD_of_forall (by simp) hvs
    have hbound := (toInt_mem ((validRss (x :: xs)).headD 0)).2
    rw [show (updateRun hz cpus (newProcess x) (x :: xs)).rssVariationSinceStartup = _ from
      congrArg RssGroup.variation hrss, toInt_sub_of_nonneg hlast hfirst]
    omega
  · have hfirst : ((validFds (x :: xs)).headD 0).toNat < 2 ^ 63 := headD_of_forall (by simp) hws
    have hlast : ((validFds (x :: xs)).getLastD 0).toNat < 2 ^ 63 :=
      getLastD_of_forall (by simp) hws
    rw [show (updateRun hz cpus (newProcess x) (x :: xs)).fdDelta = _ from
      congrArg FdGroup.delta hfd, toInt_sub_toInt64_of_lt hlast hfirst]
    omega

/-- Every entry of a table that samples in range produce has deltas in range. -/
theorem deltasInRange_of_mem (hz cpus : Int64) (prog : Bytes) (samples : List ProcessStateInput)
    (h : ∀ x ∈ samples, SampleInRange x) :
    ∀ ps ∈ (updateAll (initializedModule hz cpus prog) samples).gProcessTable,
      DeltasInRange ps := by
  intro ps hps
  have hfind := Table.find?_of_mem _ (nodupKeys_updateAll hz cpus prog samples) hps
  rw [find?_updateAll] at hfind
  have hsub : ∀ x ∈ samples.filter fun x => x.pid = ps.pid, SampleInRange x :=
    fun x hx => h x (List.mem_filter.mp hx).1
  cases hown : samples.filter fun x => x.pid = ps.pid with
  | nil =>
      rw [hown] at hfind
      cases hfind
  | cons x xs =>
      rw [hown, entryOf_cons, Option.some.injEq] at hfind
      rw [hown] at hsub
      exact hfind ▸ deltasInRange_updateRun _ _ x xs hsub

/-! ### The averaged table -/

/-- The averaged table has the PIDs of the table. -/
theorem map_pid_averagedTable (args : MetricsArguments) (m : StatsModule) :
    (averagedTable args m).map ProcessState.pid = m.gProcessTable.map ProcessState.pid := by
  simp only [averagedTable, List.map_map]
  exact List.map_congr_left fun ps _ => (computeAverages_frame args ps).1

/-! ### Blocks -/

/-- A block is a top-N of the table by the key of its metric. -/
theorem isTopN_of_fromSort {qsort : Qsort} {args : MetricsArguments} {table : List ProcessState}
    {b : Block} (hb : b.FromSort qsort args table) (htable : ∀ ps ∈ table, DeltasInRange ps) :
    IsTopN (fun ps => b.1.key ps) (args.pidsToDisplay b.1).toInt.toNat table b.2 := by
  obtain ⟨arr, hperm, hrows⟩ := hb
  rw [comparator_eq] at hrows
  have htop := isTopN_take_sort qsort (fun ps => b.1.sortKey ps)
    (rowCount (args.pidsToDisplay b.1) table.length) hperm
  rw [← hrows] at htop
  -- On entries with deltas in range the sort key is the key of the metric.
  have hkey : IsTopN (fun ps => b.1.key ps) _ table b.2 := htop.congr fun a ha c hc hac => by
    rw [sortKey_eq_key (htable a ha), sortKey_eq_key (htable c hc)] at hac
    exact hac
  refine ⟨?_, hkey.subperm, hkey.sorted, hkey.top⟩
  rw [hkey.length_eq, rowCount_eq_min]
  omega

/-- A block lists distinct processes when the table does. -/
theorem nodup_pids_of_fromSort {qsort : Qsort} {args : MetricsArguments}
    {table : List ProcessState} {b : Block} (hb : b.FromSort qsort args table)
    (hn : (table.map ProcessState.pid).Nodup) : (b.2.map ProcessState.pid).Nodup := by
  obtain ⟨arr, hperm, hrows⟩ := hb
  have hsorted := (qsort.perm_sort (totalPreorderCmp_comparator b.1) arr).trans hperm
  have hsub : b.2.Sublist (qsort.sort b.1.comparator arr) := hrows ▸ List.take_sublist _ _
  exact (hsub.map _).nodup ((hsorted.map _).nodup_iff.mpr hn)

/-- Every reported ranking is a correct top-N. All comparators are total preorders. When the
table is empty or the pointer array cannot be allocated, there is no block. Otherwise the
call completes if the metrics file opens, and a call that completes produces one block per
requested metric, the same ones on the console and in `metrics.json`, each of them a top-N
of the table by the key of its metric, with distinct processes. -/
theorem rankings_isTopN (qsort : Qsort) (config : Config) (env : MetricsEnv)
    (args : MetricsArguments) (intervalMs : UInt64) (hz cpus : Int64) (prog : Bytes)
    (samples : List ProcessStateInput) (hsamples : ∀ x ∈ samples, SampleInRange x) :
    let m := updateAll (initializedModule hz cpus prog) samples
    let run := processStatsPrintMetrics qsort config env args intervalMs m
    (∀ metric : Metric, TotalPreorderCmp metric.comparator) ∧
    (samples = [] ∨ env.arrMallocOk = false → run = .ok ⟨[], [], none, m⟩) ∧
    (samples ≠ [] → env.arrMallocOk = true → MetricsFileOpens config env →
      ∃ out, run = .ok out) ∧
    (∀ out, samples ≠ [] → env.arrMallocOk = true → run = .ok out →
      ∃ blocks : List Block,
        blocks.map Prod.fst = printOrder.filter args.requested ∧
        (∀ b ∈ blocks,
          IsTopN (fun ps => b.1.key ps) (args.pidsToDisplay b.1).toInt.toNat
            (averagedTable args m) b.2 ∧
          (b.2.map ProcessState.pid).Nodup) ∧
        out.console
          = (if config.configGetMetricsConsoleEnabled then blocks.map Block.console else []) ∧
        out.metricsFile = some (headerPieces env (metaFields m intervalMs)
          ++ blocksPieces true blocks ++ footerPieces)) := by
  intro m run
  have hm : m.isModuleInitialized = true := isModuleInitialized_updateAll samples _
  refine ⟨totalPreorderCmp_comparator, ?_, ?_, ?_⟩
  -- the early returns
  · rintro (hnil | ha)
    · have hempty : m.gProcessTable.length = 0 := by
        simp [m, hnil, updateAll, initializedModule, processStatsInitialize]
      simp [run, processStatsPrintMetrics, hempty]
    · simp [run, processStatsPrintMetrics, ha]
  -- the call completes
  · intro hne ha ho
    simp only [run]
    rw [processStatsPrintMetrics_eq qsort config env args intervalMs m hm
      (table_updateAll_ne_nil hz cpus prog samples hne) ha, if_pos ho]
    exact ⟨_, rfl⟩
  -- the blocks of a call that completes
  · intro out hne ha hrun
    have htable : m.gProcessTable ≠ [] := table_updateAll_ne_nil hz cpus prog samples hne
    rcases processStatsPrintMetrics_cases qsort config env args intervalMs m hrun with
      ⟨hearly, -⟩ | ⟨-, blocks, hfst, hsort, hout⟩
    · simp [hm, htable, ha] at hearly
    · -- The averaging loop keeps the deltas and the PIDs, which the samples determine.
      have hdeltas : ∀ ps ∈ averagedTable args m, DeltasInRange ps := by
        intro ps hps
        obtain ⟨q, hq, rfl⟩ := List.mem_map.mp hps
        have hrange := deltasInRange_of_mem hz cpus prog samples hsamples q hq
        obtain ⟨-, -, hv, hd⟩ := computeAverages_frame args q
        exact ⟨hv ▸ hrange.rss, hd ▸ hrange.fd⟩
      have hnodup : ((averagedTable args m).map ProcessState.pid).Nodup := by
        rw [map_pid_averagedTable]
        exact nodupKeys_updateAll hz cpus prog samples
      subst hout
      exact ⟨blocks, hfst, fun b hb => ⟨isTopN_of_fromSort (hsort b hb) hdeltas,
        nodup_pids_of_fromSort (hsort b hb) hnodup⟩, rfl, rfl⟩

/-- Three processes, two metrics and a limit of two. By CPU usage the third process is first
and the second one is left out. By RSS the second and the third are tied, and the first is left
out. -/
theorem rankings_isTopN_three :
    let m := updateAll (initializedModule 100 1 []) samplesOfThree
    ∃ (out : MetricsResult) (cpu rss : List ProcessState),
      processStatsPrintMetrics Qsort.insertionSort configDefault ⟨true, true, true, none⟩ firstTwo
        100 m = .ok out ∧
      out.console = [Block.console (.avgCpu, cpu), Block.console (.avgRss, rss)] ∧
      IsTopN (fun ps => Metric.avgCpu.key ps) 2 (averagedTable firstTwo m) cpu ∧
      IsTopN (fun ps => Metric.avgRss.key ps) 2 (averagedTable firstTwo m) rss ∧
      cpu.map ProcessState.pid = [3, 1] ∧ rss.map ProcessState.pid = [3, 2] := by
  intro m
  obtain ⟨-, -, hok, hblocks⟩ := rankings_isTopN Qsort.insertionSort configDefault
    ⟨true, true, true, none⟩ firstTwo 100 100 1 [] samplesOfThree
    (fun x hx => by
      have hall : ∀ x ∈ samplesOfThree, 0 ≤ x.rssKb.toInt ∧ x.numberOfFds.toNat < 2 ^ 63 := by
        decide
      exact ⟨fun _ => (hall x hx).1, fun _ => (hall x hx).2⟩)
  obtain ⟨out, hout⟩ := hok (by decide) rfl ⟨rfl, rfl, rfl⟩
  obtain ⟨blocks, hfst, htop, hcon, -⟩ := hblocks out (by decide) rfl hout
  rw [show printOrder.filter firstTwo.requested = [.avgCpu, .avgRss] by decide] at hfst
  obtain ⟨⟨_, cpu⟩, ⟨_, rss⟩, rfl⟩ : ∃ b₁ b₂, blocks = [b₁, b₂] :=
    List.length_eq_two.mp (by simpa using congrArg List.length hfst)
  simp only [List.map_cons, List.map_nil, List.cons.injEq, and_true] at hfst
  obtain ⟨rfl, rfl⟩ := hfst
  -- The rows of the console, evaluated.
  have hpids : (processStatsPrintMetrics Qsort.insertionSort configDefault
      ⟨true, true, true, none⟩ firstTwo 100 m).toOption.map
        (fun out => out.console.map fun b => b.rows.map ConsoleRow.pid)
      = some [[3, 1], [3, 2]] := by decide +kernel
  rw [show processStatsPrintMetrics Qsort.insertionSort configDefault ⟨true, true, true, none⟩
    firstTwo 100 m = .ok out from hout] at hpids
  have hrows : out.console.map (fun b => b.rows.map ConsoleRow.pid) = [[3, 1], [3, 2]] :=
    Option.some.inj hpids
  have hconsole : out.console = [Block.console (.avgCpu, cpu), Block.console (.avgRss, rss)] := hcon
  rw [hconsole] at hrows
  simp only [List.map_cons, List.map_nil, List.cons.injEq, and_true, Block.console, List.map_map]
    at hrows
  have hcpu := (htop (.avgCpu, cpu) (by simp)).1
  have hrss := (htop (.avgRss, rss) (by simp)).1
  exact ⟨out, cpu, rss, hout, hconsole, hcpu, hrss, hrows.1, hrows.2⟩

end ProcessAnalyzer.Stats
