import ProcessAnalyzer.Proofs.Report

/-!
# `ProcessAnalyzer.Proofs.Averages`: the report sees the valid samples alone

The aggregates of an entry are functions of the valid values of its samples
(`ProcessAnalyzer.Proofs.Aggregates`). The average RSS is the one aggregate that is not
kept by the updates: `process_stats_print_metrics` fills it in when it is requested.

* `rssAverageKb_entryOf`: the updates leave it at zero.
* `RssAggregates.average`: the averaging loop divides the sum by the number of valid
  values, with an unsigned division that is exact on the values in range.
* `aggregates_of_validSamples`: the whole statement, from the samples to the table that
  the report leaves behind.
-/

set_option autoImplicit false

namespace ProcessAnalyzer.Stats

open ProcessAnalyzer.Lib

/-! ### The average field between the reports -/

section Untouched
variable (hz cpus : Int64)

/-- The average RSS of an entry that no report has touched is zero. -/
theorem rssAverageKb_entryOf (x : ProcessStateInput) (xs : List ProcessStateInput)
    {ps : ProcessState} (h : entryOf hz cpus (x :: xs) = some ps) : ps.rssAverageKb = 0 := by
  have hrun : ∀ (ys : List ProcessStateInput) (q : ProcessState),
      (updateRun hz cpus q ys).rssAverageKb = q.rssAverageKb := by
    intro ys
    induction ys with
    | nil => intro q; rfl
    | cons y ys ih =>
        intro q
        exact (ih _).trans (sameEntry_updateEntry hz cpus y q).rssAverageKb
  rw [entryOf_cons, Option.some.injEq] at h
  rw [← h, hrun]
  rfl

end Untouched

/-! ### The averaging loop -/

/-- What the averaging loop writes into the average RSS of an entry. -/
theorem rssAverageKb_computeAverages (args : MetricsArguments) (ps : ProcessState)
    (hreq : args.rssAverageRequested = true) :
    (computeAverages args ps).rssAverageKb
      = if ps.numOfRssRecords ≠ 0 then
          (UInt64.ofNat (ps.rssSum.toUInt64.toNat / ps.numOfRssRecords)).toInt64
        else ps.rssAverageKb := by
  simp only [computeAverages, hreq, true_and]
  split_ifs <;> simp_all

/-- The average RSS over the valid values `vs`: the rounded down quotient, between any
bounds of the values. Without a value it is zero. -/
structure RssAverage (vs : List Int64) (ps : ProcessState) : Prop where
  quotient : ps.rssAverageKb.toInt = (vs.map Int64.toInt).sum / vs.length
  between : vs ≠ [] → ∀ lo hi : Int, (∀ v ∈ vs, lo ≤ v.toInt ∧ v.toInt ≤ hi) →
    lo ≤ ps.rssAverageKb.toInt ∧ ps.rssAverageKb.toInt ≤ hi

/-- A sum lies between the multiples of any bounds of its terms. -/
theorem sum_between (vs : List Int64) (lo hi : Int)
    (h : ∀ v ∈ vs, lo ≤ v.toInt ∧ v.toInt ≤ hi) :
    lo * vs.length ≤ (vs.map Int64.toInt).sum ∧ (vs.map Int64.toInt).sum ≤ hi * vs.length := by
  induction vs with
  | nil => simp
  | cons v vs ih =>
      obtain ⟨hlo, hhi⟩ := h v List.mem_cons_self
      obtain ⟨ihlo, ihhi⟩ := ih fun w hw => h w (List.mem_cons_of_mem v hw)
      simp only [List.map_cons, List.sum_cons, List.length_cons, Nat.cast_add, Nat.cast_one,
        mul_add, mul_one]
      omega

/-- The averaging loop turns the RSS aggregates into the average of the values. -/
theorem RssAggregates.average {vs : List Int64} {ps : ProcessState} (h : RssAggregates vs ps)
    (hvs : ∀ v ∈ vs, 0 ≤ v.toInt) (hzero : ps.rssAverageKb = 0) (args : MetricsArguments)
    (hreq : args.rssAverageRequested = true) : RssAverage vs (computeAverages args ps) := by
  have hnonneg : 0 ≤ ps.rssSum.toInt := by
    rw [h.sum]
    exact List.sum_nonneg fun s hs => by
      obtain ⟨v, hv, rfl⟩ := List.mem_map.mp hs
      exact hvs v hv
  have hquot : (computeAverages args ps).rssAverageKb.toInt
      = (vs.map Int64.toInt).sum / vs.length := by
    rw [rssAverageKb_computeAverages args ps hreq, h.records]
    by_cases hlen : vs.length = 0
    · simp [hlen, hzero]
    · -- The sum is not negative, so the unsigned division is the one of the integers.
      have hlt : ps.rssSum.toUInt64.toNat / vs.length < 2 ^ 63 := by
        have hbound := (toInt_mem ps.rssSum).2
        have hle := Nat.div_le_self ps.rssSum.toUInt64.toNat vs.length
        have hcast := toNat_toUInt64_of_nonneg hnonneg
        omega
      have hword : (UInt64.ofNat (ps.rssSum.toUInt64.toNat / vs.length)).toNat
          = ps.rssSum.toUInt64.toNat / vs.length :=
        UInt64.toNat_ofNat_of_lt' (hlt.trans (by decide))
      rw [if_pos hlen, toInt_toInt64_of_lt (hword.symm ▸ hlt), hword]
      push_cast
      rw [toNat_toUInt64_of_nonneg hnonneg, h.sum]
  refine ⟨hquot, fun hne lo hi hbounds => ?_⟩
  -- A rounded down quotient stays between integer bounds.
  obtain ⟨hlo, hhi⟩ := sum_between vs lo hi hbounds
  have hpos : (0 : Int) < vs.length := by
    have := List.length_pos_of_ne_nil hne
    omega
  rw [hquot]
  exact ⟨(Int.le_ediv_iff_mul_le hpos).mpr hlo, Int.ediv_le_of_le_mul hpos hhi⟩

/-! ### From the samples to the report -/

/-- A report that gets past its early returns leaves the averaged table behind. -/
theorem table_of_processStatsPrintMetrics {qsort : Qsort} {config : Config} {env : MetricsEnv}
    {args : MetricsArguments} {intervalMs : UInt64} {m : StatsModule} {out : MetricsResult}
    (hm : m.isModuleInitialized = true) (ht : m.gProcessTable ≠ [])
    (ha : env.arrMallocOk = true)
    (hout : processStatsPrintMetrics qsort config env args intervalMs m = .ok out) :
    out.module.gProcessTable = averagedTable args m := by
  rw [processStatsPrintMetrics_eq qsort config env args intervalMs m hm ht ha] at hout
  by_cases ho : MetricsFileOpens config env
  · rw [if_pos ho, Except.ok.injEq] at hout
    exact hout ▸ rfl
  · rw [if_neg ho] at hout
    cases hout

/-- The averaged table has the averaged entry of a process. -/
theorem find?_averagedTable (args : MetricsArguments) (m : StatsModule) (p : Int32) :
    Table.find? ProcessState.pid (averagedTable args m) p
      = (Table.find? ProcessState.pid m.gProcessTable p).map (computeAverages args) := by
  simp only [averagedTable, Table.find?, List.find?_map, Function.comp_def,
    (computeAverages_frame args _).1]

/-- A process with samples has the entry of these samples, and a report that gets past its
early returns leaves the averaged form of it. -/
theorem entry_of_samples (hz cpus : Int64) (prog : Bytes) {samples : List ProcessStateInput}
    {p : Int32} {x : ProcessStateInput} {xs : List ProcessStateInput}
    (hown : (samples.filter fun y => y.pid = p) = x :: xs) :
    let m := updateAll (initializedModule hz cpus prog) samples
    let ps := updateRun (ticksOf hz) (cpusOf cpus) (newProcess x) (x :: xs)
    m.isModuleInitialized = true ∧ m.gProcessTable ≠ [] ∧
    Table.find? ProcessState.pid m.gProcessTable p = some ps ∧
    ∀ (qsort : Qsort) (config : Config) (env : MetricsEnv) (args : MetricsArguments)
      (intervalMs : UInt64) (out : MetricsResult), env.arrMallocOk = true →
      processStatsPrintMetrics qsort config env args intervalMs m = .ok out →
      Table.find? ProcessState.pid out.module.gProcessTable p = some (computeAverages args ps) := by
  intro m ps
  have hm : m.isModuleInitialized = true := isModuleInitialized_updateAll samples _
  have ht : m.gProcessTable ≠ [] := table_updateAll_ne_nil hz cpus prog samples fun hnil => by
    simp [hnil] at hown
  have hfind : Table.find? ProcessState.pid m.gProcessTable p = some ps := by
    rw [find?_updateAll hz cpus prog samples p, hown, entryOf_cons]
  refine ⟨hm, ht, hfind, fun qsort config env args intervalMs out ha hout => ?_⟩
  rw [table_of_processStatsPrintMetrics hm ht ha hout, find?_averagedTable, hfind,
    Option.map_some]

/-- Invalid optional samples are excluded from aggregation. Whatever the samples of the
other processes and the validity flags are, the entry of a process with increasing
timestamps has the aggregates of its valid values: RSS (not negative, with a sum in range),
descriptor counts (in range) and I/O counters. The average RSS that a report fills in is
the rounded down average of the valid values. -/
theorem aggregates_of_validSamples (hz cpus : Int64) (prog : Bytes) (p : Int32)
    (samples own : List ProcessStateInput) (hown : (samples.filter fun x => x.pid = p) = own)
    (hne : own ≠ []) (htime : own.Pairwise fun a b => a.timestamp < b.timestamp) :
    let m := updateAll (initializedModule hz cpus prog) samples
    let rssInRange := (∀ v ∈ validRss own, 0 ≤ v.toInt) ∧
      ((validRss own).map Int64.toInt).sum < 2 ^ 63
    ∃ ps, Table.find? ProcessState.pid m.gProcessTable p = some ps ∧
      (rssInRange → RssAggregates (validRss own) ps) ∧
      ((∀ w ∈ validFds own, w.toNat < 2 ^ 63) → FdAggregates (validFds own) ps) ∧
      IoAggregates (validReads own) (validWrites own) ps ∧
      ∀ (qsort : Qsort) (config : Config) (env : MetricsEnv) (args : MetricsArguments)
        (intervalMs : UInt64), args.rssAverageRequested = true → env.arrMallocOk = true →
        (MetricsFileOpens config env →
          ∃ out, processStatsPrintMetrics qsort config env args intervalMs m = .ok out) ∧
        (∀ out, processStatsPrintMetrics qsort config env args intervalMs m = .ok out →
          ∃ psOut, Table.find? ProcessState.pid out.module.gProcessTable p = some psOut ∧
            (rssInRange → RssAverage (validRss own) psOut)) := by
  intro m rssInRange
  -- The entry is a function of the process's own samples, whatever the others are.
  obtain ⟨x, xs, rfl⟩ := List.exists_cons_of_ne_nil hne
  obtain ⟨hm, ht, hfind, hreport⟩ := entry_of_samples hz cpus prog hown
  obtain ⟨ps, hentry, hrss, hfd, hread, hwrite⟩ :=
    groups_entryOf (ticksOf hz) (cpusOf cpus) x xs htime
  have hzero := rssAverageKb_entryOf (ticksOf hz) (cpusOf cpus) x xs hentry
  obtain rfl : updateRun (ticksOf hz) (cpusOf cpus) (newProcess x) (x :: xs) = ps := by
    rw [entryOf_cons] at hentry
    exact Option.some.inj hentry
  have hagg : rssInRange → RssAggregates _ _ := fun h => rssAggregates_of_group hrss h.1 h.2
  refine ⟨_, hfind, hagg, fdAggregates_of_group hfd, ioAggregates_of_counters hread hwrite, ?_⟩
  intro qsort config env args intervalMs hreq ha
  refine ⟨fun ho => ?_, fun out hout => ?_⟩
  -- The report completes when its file opens, and replaces every entry by its averaged form.
  · rw [processStatsPrintMetrics_eq qsort config env args intervalMs m hm ht ha, if_pos ho]
    exact ⟨_, rfl⟩
  · exact ⟨_, hreport qsort config env args intervalMs out ha hout,
      fun h => (hagg h).average h.1 hzero args hreq⟩

/-- Four samples of process 1 with other ones between them. Each group misses another sample:
the RSS the first and the last, the descriptors the second, the counters the third. -/
def mixedSamples : List ProcessStateInput :=
  [{ sampleOfInit with boIsRssValid := false },
    { sampleOfInit with pid := 2, rssKb := 7 },
    { sampleOfInit with timestamp := 11, rssKb := 900, boIsFdValid := false, readKbytes := 100 },
    { sampleOfInit with timestamp := 12, rssKb := 1203, numberOfFds := 9, boIsIoValid := false },
    { sampleOfInit with pid := 2, timestamp := 12, rssKb := 8 },
    { sampleOfInit with timestamp := 13, boIsRssValid := false, numberOfFds := 15,
                        readKbytes := 64, writeKbytes := 9 }]

/-- The entry of process 1 has the aggregates of the valid values, with a read counter that went
down once, and the report has their average. -/
theorem aggregates_of_validSamples_mixed :
    let m := updateAll (initializedModule 100 1 []) mixedSamples
    ∃ ps, Table.find? ProcessState.pid m.gProcessTable 1 = some ps ∧
      RssAggregates [900, 1203] ps ∧ FdAggregates [12, 9, 15] ps ∧
      IoAggregates [40, 100, 64] [7, 7, 9] ps ∧
      ∃ out psOut, processStatsPrintMetrics Qsort.insertionSort configDefault
          ⟨true, true, true, none⟩ firstTwo 100 m = .ok out ∧
        Table.find? ProcessState.pid out.module.gProcessTable 1 = some psOut ∧
        RssAverage [900, 1203] psOut := by
  intro m
  have hvalues : (∀ v ∈ ([900, 1203] : List Int64), 0 ≤ v.toInt) ∧
      (([900, 1203] : List Int64).map Int64.toInt).sum < 2 ^ 63 := by
    refine ⟨fun v hv => ?_, by decide⟩
    rcases List.mem_pair.mp hv with rfl | rfl <;> decide
  have hcounts : ∀ v ∈ ([12, 9, 15] : List UInt64), v.toNat < 2 ^ 63 := by
    intro v hv
    rcases List.mem_cons.mp hv with rfl | hv
    · decide
    · rcases List.mem_pair.mp hv with rfl | rfl <;> decide
  obtain ⟨ps, hfind, hrss, hfd, hio, hreport⟩ := aggregates_of_validSamples 100 1 [] 1 mixedSamples
    _ rfl (by decide) (by decide +kernel)
  obtain ⟨hok, haverage⟩ := hreport Qsort.insertionSort configDefault ⟨true, true, true, none⟩
    firstTwo 100 rfl rfl
  obtain ⟨out, hout⟩ := hok ⟨rfl, rfl, rfl⟩
  obtain ⟨psOut, hfindOut, hmean⟩ := haverage out hout
  exact ⟨ps, hfind, hrss hvalues, hfd hcounts, hio, out, psOut, hout, hfindOut, hmean hvalues⟩

end ProcessAnalyzer.Stats
