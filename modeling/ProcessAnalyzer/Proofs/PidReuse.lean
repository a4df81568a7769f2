import ProcessAnalyzer.Proofs.Averages
import ProcessAnalyzer.Proofs.Filtering

/-!
# `ProcessAnalyzer.Proofs.PidReuse`: whose samples an entry holds

A process is a PID together with the start time that the kernel gives in its stat file.
`read_proc_stat` converts the start time and discards it, and the table of the statistics is
keyed by the PID alone.

* `table_collectSnapshots`: the table after any sequence of snapshots, in terms of the
  arrivals that enter it. An arrival is a sample with the start time of its process.
* `lifetimes_iff_noReuse`: the entries of every report are those that the samples of one
  process give alone, exactly when no PID enters the table with two start times.
-/

set_option autoImplicit false

namespace ProcessAnalyzer

open ProcessAnalyzer.Lib ProcessAnalyzer.Stats

/-! ### Start times -/

/-- The values of the conversions of a scan, up to the first mismatch. -/
def statValues : List StatField → Bytes → List Int
  | [], _ => []
  | f :: fs, s =>
      match convertField f s with
      | none => []
      | some (v, rest) => v :: statValues fs rest

/-- The start time of a process: the `%llu` of the format, the twentieth conversion. -/
def startTime (env : SnapshotEnv) (pid : Int32) : Option UInt64 :=
  (statParts env.files (env.stale pid) pid).bind fun parts =>
    (statValues statFields parts.2)[19]?.map clampULong

/-- A scan that succeeds converts all its fields. -/
theorem length_statValues (fs : List StatField) (s : Bytes) (t : StatTargets)
    (hok : (scanStat fs s t).2 = true) : (statValues fs s).length = fs.length := by
  induction fs generalizing s t with
  | nil => rfl
  | cons f fs ih =>
      unfold scanStat at hok
      unfold statValues
      cases hconv : convertField f s with
      | none => simp [hconv] at hok
      | some r =>
          simp only [hconv] at hok ⊢
          rw [List.length_cons, ih r.2 _ hok, List.length_cons]

/-- A process that is sampled has a start time. -/
theorem startTime_of_sampleOf {env : SnapshotEnv} {pid : Int32} {r : ProcessStateInput}
    (h : sampleOf env pid = some r) : ∃ start, startTime env pid = some start := by
  unfold startTime
  unfold sampleOf at h
  cases hparts : statParts env.files (env.stale pid) pid with
  | none =>
      rw [readProcStat_of_none _ _ _ _ _ hparts] at h
      cases h
  | some parts =>
      obtain ⟨-, hok, -⟩ := readProcStat_of_some env.files (env.stale pid) env.pageSizeKb pid
        { freshRecord env with pid := pid } hparts
      split at h
      · rename_i q hread
        rw [hread] at hok
        have hlen := length_statValues statFields parts.2 _ hok.symm
        have hlt : 19 < (statValues statFields parts.2).length := by
          rw [hlen]
          decide
        exact ⟨_, by rw [Option.bind_some, List.getElem?_eq_getElem hlt, Option.map_some]⟩
      · cases h

/-! ### Arrivals -/

/-- A call of `process_stats_update`: the sample, whether memory for a new entry is there,
and the start time that the code does not pass on. -/
structure Arrival where
  startTime : Option UInt64
  callocOk : Bool
  sample : ProcessStateInput

/-- The calls of one snapshot. -/
def arrivals (config : Config) (w : ApPidWhitelist) (env : SnapshotEnv) : List Arrival :=
  (snapshotRecords config env w).map fun r => ⟨startTime env r.pid, env.callocOk r.pid, r⟩

/-- The arrivals that enter the table: the process has an entry already, or memory for one
is there. -/
def entering : List Int32 → List Arrival → List Arrival
  | _, [] => []
  | seen, a :: as =>
      if a.callocOk = true ∨ a.sample.pid ∈ seen then a :: entering (a.sample.pid :: seen) as
      else entering seen as

/-- The arrivals of a sequence of snapshots that enter the table. -/
def entered (config : Config) (w : ApPidWhitelist) (envs : List SnapshotEnv) : List Arrival :=
  entering [] (envs.flatMap (arrivals config w))

/-- No PID comes with two start times. -/
def NoReuse (as : List Arrival) : Prop :=
  ∀ a ∈ as, ∀ b ∈ as, a.sample.pid = b.sample.pid → a.startTime = b.startTime

/-- The samples of one process. -/
def samplesOf (as : List Arrival) (pid : Int32) (start : UInt64) : List ProcessStateInput :=
  (as.filter fun a => a.sample.pid = pid ∧ a.startTime = some start).map Arrival.sample

/-- The entry of a report is the one that the samples of one process alone give, with their
averages. -/
def OfOneLifetime (hz cpus : Int64) (args : MetricsArguments) (as : List Arrival)
    (e : ProcessState) : Prop :=
  ∃ start : UInt64,
    (entryOf hz cpus (samplesOf as e.pid start)).map (computeAverages args) = some e

theorem mem_of_mem_entering {seen : List Int32} {as : List Arrival} {a : Arrival}
    (h : a ∈ entering seen as) : a ∈ as := by
  induction as generalizing seen with
  | nil => cases h
  | cons b as ih =>
      unfold entering at h
      split at h
      · rcases List.mem_cons.mp h with rfl | h
        · exact List.mem_cons_self
        · exact List.mem_cons_of_mem _ (ih h)
      · exact List.mem_cons_of_mem _ (ih h)

/-- What enters first does not depend on what comes later. -/
theorem mem_entering_append {seen : List Int32} {as : List Arrival} (bs : List Arrival)
    {a : Arrival} (h : a ∈ entering seen as) : a ∈ entering seen (as ++ bs) := by
  induction as generalizing seen with
  | nil => cases h
  | cons b as ih =>
      rw [List.cons_append]
      unfold entering at h ⊢
      split at h
      · rename_i hb
        rw [if_pos hb]
        rcases List.mem_cons.mp h with rfl | h
        · exact List.mem_cons_self
        · exact List.mem_cons_of_mem _ (ih h)
      · rename_i hb
        rw [if_neg hb]
        exact ih h

/-- A run without reuse has none in its first part either. -/
theorem NoReuse.take {config : Config} {w : ApPidWhitelist} {envs : List SnapshotEnv}
    (h : NoReuse (entered config w envs)) (k : ℕ) : NoReuse (entered config w (envs.take k)) := by
  have hsub : ∀ a ∈ entered config w (envs.take k), a ∈ entered config w envs := by
    intro a ha
    unfold entered
    rw [← List.take_append_drop k envs, List.flatMap_append]
    exact mem_entering_append _ ha
  intro a ha b hb hpid
  exact h a (hsub a ha) b (hsub b hb) hpid

/-- Every arrival has a start time. -/
theorem startTime_of_mem_entered {config : Config} {w : ApPidWhitelist} {envs : List SnapshotEnv}
    {a : Arrival} (h : a ∈ entered config w envs) : ∃ start, a.startTime = some start := by
  obtain ⟨env, -, ha⟩ := List.mem_flatMap.mp (mem_of_mem_entering h)
  obtain ⟨r, hr, rfl⟩ := List.mem_map.mp ha
  rw [snapshotRecords_eq] at hr
  obtain ⟨pid, -, hsample⟩ := List.mem_filterMap.mp (List.mem_filter.mp hr).1
  show ∃ start, ProcessAnalyzer.startTime env r.pid = some start
  rw [show r.pid = pid from (sameOrigin_of_sampleOf hsample).pid]
  exact startTime_of_sampleOf hsample

/-! ### The table of a run -/

section Table
variable (hz cpus : Int64)

/-- The effect of an arrival on the table. -/
def tableStep (t : List ProcessState) (a : Arrival) : List ProcessState :=
  if a.callocOk = true ∨ a.sample.pid ∈ t.map ProcessState.pid then
    Table.upsert ProcessState.pid t a.sample.pid (newProcess a.sample)
      (updateEntry hz cpus a.sample)
  else t

/-- One call of `process_stats_update` with any outcome of `calloc`. -/
theorem processStatsUpdate_tableStep (m : StatsModule) (a : Arrival)
    (hm : m.isModuleInitialized = true) :
    (processStatsUpdate a.callocOk m a.sample).gProcessTable
      = tableStep m.gClockTicksPerSecond m.gOnlineCpuCount m.gProcessTable a := by
  unfold tableStep
  cases hcalloc : a.callocOk with
  | true =>
      rw [if_pos (Or.inl rfl)]
      exact processStatsUpdate_table m a.sample hm
  | false =>
      -- Only a new entry needs memory.
      cases hfind : Table.find? ProcessState.pid m.gProcessTable a.sample.pid with
      | none =>
          have hnew : ¬ a.sample.pid ∈ m.gProcessTable.map ProcessState.pid :=
            (Table.find?_eq_none_iff _).mp hfind
          rw [if_neg (by simpa using hnew)]
          simp only [processStatsUpdate, hm, getOrCreateProcess, hfind, if_true, Bool.false_eq_true,
            if_false]
          split <;> rfl
      | some ps =>
          obtain ⟨hmem, hpid⟩ := Table.find?_some _ hfind
          rw [if_pos (Or.inr (List.mem_map.mpr ⟨ps, hmem, hpid⟩)),
            ← processStatsUpdate_table m a.sample hm]
          simp only [processStatsUpdate, hm, getOrCreateProcess, hfind, if_true]

/-- The table after a sequence of arrivals comes from those that enter it. -/
theorem foldl_tableStep (as : List Arrival) (t : List ProcessState) (seen : List Int32)
    (hseen : ∀ p, p ∈ seen ↔ p ∈ t.map ProcessState.pid) :
    as.foldl (tableStep hz cpus) t
      = ((entering seen as).map Arrival.sample).foldl
          (fun t x => Table.upsert ProcessState.pid t x.pid (newProcess x) (updateEntry hz cpus x))
          t := by
  induction as generalizing t seen with
  | nil => rfl
  | cons a as ih =>
      rw [List.foldl_cons]
      unfold entering
      by_cases h : a.callocOk = true ∨ a.sample.pid ∈ seen
      · have hstep : tableStep hz cpus t a = Table.upsert ProcessState.pid t a.sample.pid
            (newProcess a.sample) (updateEntry hz cpus a.sample) := by
          unfold tableStep
          rw [if_pos (h.imp_right (hseen _).mp)]
        rw [if_pos h, hstep, List.map_cons, List.foldl_cons]
        apply ih
        intro p
        rw [List.mem_cons, hseen, Table.mem_keys_upsert _ (pid_newProcess a.sample)
          (fun e he => by simpa using he)]
      · have hstep : tableStep hz cpus t a = t := by
          unfold tableStep
          rw [if_neg fun hin => h (hin.imp_right (hseen _).mpr)]
        rw [if_neg h, hstep]
        exact ih t seen hseen

end Table

/-- What a module needs to take samples: it is initialised, with its two divisors. -/
structure Divisors (hz cpus : Int64) (m : StatsModule) : Prop where
  initialized : m.isModuleInitialized = true
  ticks : m.gClockTicksPerSecond = hz
  cpus : m.gOnlineCpuCount = cpus

section Run
variable (config : Config) (w : ApPidWhitelist) {hz cpus : Int64}

/-- The calls of one snapshot keep the divisors and fold the steps of the table. -/
theorem foldl_processStatsUpdate (as : List Arrival) (m : StatsModule) (hm : Divisors hz cpus m) :
    Divisors hz cpus (as.foldl (fun m a => processStatsUpdate a.callocOk m a.sample) m) ∧
    (as.foldl (fun m a => processStatsUpdate a.callocOk m a.sample) m).gProcessTable
      = as.foldl (tableStep hz cpus) m.gProcessTable := by
  induction as generalizing m with
  | nil => exact ⟨hm, rfl⟩
  | cons a as ih =>
      obtain ⟨hinit, hticks, hcpus⟩ := processStatsUpdate_frame a.callocOk m a.sample
      have hstep := processStatsUpdate_tableStep m a hm.initialized
      rw [hm.ticks, hm.cpus] at hstep
      obtain ⟨hdiv, htable⟩ := ih (processStatsUpdate a.callocOk m a.sample)
        ⟨hinit.trans hm.initialized, hticks.trans hm.ticks, hcpus.trans hm.cpus⟩
      rw [hstep] at htable
      exact ⟨hdiv, htable⟩

/-- One snapshot keeps the divisors and folds the steps of its arrivals. -/
theorem table_collectSnapshot (env : SnapshotEnv) (o : Output) (m : StatsModule)
    (hm : Divisors hz cpus m) :
    Divisors hz cpus (collectSnapshot config env w o m).2 ∧
    (collectSnapshot config env w o m).2.gProcessTable
      = (arrivals config w env).foldl (tableStep hz cpus) m.gProcessTable := by
  obtain ⟨hdiv, htable⟩ := foldl_processStatsUpdate (arrivals config w env) m hm
  rw [stats_collectSnapshot]
  unfold arrivals at hdiv htable ⊢
  rw [List.foldl_map] at hdiv htable
  unfold processStatsSnapshotEnd
  rw [if_pos hdiv.initialized]
  exact ⟨⟨hdiv.initialized, hdiv.ticks, hdiv.cpus⟩, htable⟩

/-- A sequence of snapshots folds the steps of all their arrivals. -/
theorem table_collectSnapshots (envs : List SnapshotEnv) (s : Output × StatsModule)
    (hm : Divisors hz cpus s.2) :
    (collectSnapshots config w envs s).2.gProcessTable
      = (envs.flatMap (arrivals config w)).foldl (tableStep hz cpus) s.2.gProcessTable := by
  induction envs generalizing s with
  | nil => rfl
  | cons env envs ih =>
      obtain ⟨hdiv, htable⟩ := table_collectSnapshot config w env s.1 s.2 hm
      rw [List.flatMap_cons, List.foldl_append, ← htable]
      exact ih _ hdiv

end Run

/-! ### The number of records -/

/-- The records of an entry count its samples. -/
theorem numberOfRecords_entryOf (hz cpus : Int64) (xs : List ProcessStateInput) {e : ProcessState}
    (h : entryOf hz cpus xs = some e) : e.numberOfRecords = xs.length := by
  have hrun : ∀ (ys : List ProcessStateInput) (q : ProcessState),
      (updateRun hz cpus q ys).numberOfRecords = q.numberOfRecords + ys.length := by
    intro ys
    induction ys with
    | nil => intro q; rfl
    | cons y ys ih =>
        intro q
        have hstep := numberOfRecords_updateEntry hz cpus y q
        have hrest := ih (updateEntry hz cpus y q)
        show (updateRun hz cpus (updateEntry hz cpus y q) ys).numberOfRecords = _
        rw [hrest, hstep, List.length_cons]
        omega
  cases xs with
  | nil => cases h
  | cons x xs =>
      rw [entryOf_cons, Option.some.injEq] at h
      rw [← h, hrun]
      exact Nat.zero_add _

/-! ### Entries and lifetimes -/

section Lifetimes
variable (config : Config) (w : ApPidWhitelist) (hz cpus : Int64) (prog : Bytes) (o : Output)
  (envs : List SnapshotEnv)

/-- The statistics after a sequence of snapshots, from the start of the module. -/
def statsAfter : StatsModule :=
  (collectSnapshots config w envs (o, initializedModule hz cpus prog)).2

/-- The table of a run is the one that the entered samples give. -/
theorem table_statsAfter :
    (statsAfter config w hz cpus prog o envs).gProcessTable
      = (updateAll (initializedModule hz cpus prog)
          ((entered config w envs).map Arrival.sample)).gProcessTable := by
  have hdiv : Divisors (ticksOf hz) (cpusOf cpus) (initializedModule hz cpus prog) :=
    ⟨rfl, rfl, rfl⟩
  unfold statsAfter
  rw [table_collectSnapshots config w envs (o, initializedModule hz cpus prog) hdiv,
    foldl_tableStep _ _ _ _ [] (fun p => Iff.rfl), updateAll_table _ _ rfl]
  rfl

/-- The entries of a run are those that the entered samples of their PID give. -/
theorem mem_statsAfter_iff (e : ProcessState) :
    e ∈ (statsAfter config w hz cpus prog o envs).gProcessTable
      ↔ entryOf (ticksOf hz) (cpusOf cpus)
          (((entered config w envs).filter fun a => a.sample.pid = e.pid).map Arrival.sample)
        = some e := by
  have hfind := find?_updateAll hz cpus prog ((entered config w envs).map Arrival.sample) e.pid
  rw [List.filter_map] at hfind
  rw [table_statsAfter]
  constructor
  · intro he
    rw [Table.find?_of_mem _ (nodupKeys_updateAll hz cpus prog _) he] at hfind
    exact hfind.symm
  · intro he
    exact (Table.find?_some _ (hfind.trans he)).1

end Lifetimes

/-- The samples of one process are among those of its PID. -/
theorem samplesOf_eq (as : List Arrival) (pid : Int32) (start : UInt64) :
    samplesOf as pid start
      = ((as.filter fun a => a.sample.pid = pid).filter fun a => a.startTime = some start).map
          Arrival.sample := by
  unfold samplesOf
  rw [List.filter_filter]
  simp only [Bool.decide_and, Bool.and_comm]

section Main
variable (config : Config) (w : ApPidWhitelist) (hz cpus : Int64) (prog : Bytes) (o : Output)
  (envs : List SnapshotEnv)

/-- Without reuse every entry of a report comes from one process. -/
theorem ofOneLifetime_of_noReuse (h : NoReuse (entered config w envs)) (args : MetricsArguments) :
    ∀ e ∈ averagedTable args (statsAfter config w hz cpus prog o envs),
      OfOneLifetime (ticksOf hz) (cpusOf cpus) args (entered config w envs) e := by
  intro e he
  obtain ⟨e₀, he₀, rfl⟩ := List.mem_map.mp he
  have hentry := (mem_statsAfter_iff config w hz cpus prog o envs e₀).mp he₀
  -- The first sample of the PID fixes the start time.
  cases hown : (entered config w envs).filter fun a => a.sample.pid = e₀.pid with
  | nil =>
      rw [hown] at hentry
      cases hentry
  | cons a as =>
      have ha : a ∈ (entered config w envs).filter fun a => a.sample.pid = e₀.pid := by
        rw [hown]
        exact List.mem_cons_self
      obtain ⟨hmem, hpid⟩ := List.mem_filter.mp ha
      obtain ⟨start, hstart⟩ := startTime_of_mem_entered hmem
      refine ⟨start, ?_⟩
      have hall : samplesOf (entered config w envs) e₀.pid start
          = ((entered config w envs).filter fun a => a.sample.pid = e₀.pid).map Arrival.sample := by
        rw [samplesOf_eq, List.filter_eq_self.mpr]
        intro b hb
        obtain ⟨hbmem, hbpid⟩ := List.mem_filter.mp hb
        have hsame : a.sample.pid = b.sample.pid :=
          (of_decide_eq_true hpid).trans (of_decide_eq_true hbpid).symm
        exact decide_eq_true ((h a hmem b hbmem hsame).symm.trans hstart)
      rw [(computeAverages_frame args _).1, hall, hentry, Option.map_some]

/-- An entry of one process has no sample of another one. -/
theorem startTime_of_ofOneLifetime {args : MetricsArguments} {e : ProcessState}
    (he : e ∈ (statsAfter config w hz cpus prog o envs).gProcessTable)
    (h : OfOneLifetime (ticksOf hz) (cpusOf cpus) args (entered config w envs)
      (computeAverages args e)) :
    ∃ start, ∀ a ∈ entered config w envs, a.sample.pid = e.pid → a.startTime = some start := by
  have hentry := (mem_statsAfter_iff config w hz cpus prog o envs e).mp he
  obtain ⟨start, hown⟩ := h
  rw [(computeAverages_frame args _).1, samplesOf_eq, Option.map_eq_some_iff] at hown
  obtain ⟨e₁, hown, havg⟩ := hown
  refine ⟨start, fun a ha hpid => ?_⟩
  -- Both lists have as many samples as the entry has records, so none was filtered out.
  have hrecords : e₁.numberOfRecords = e.numberOfRecords := by
    rw [← (computeAverages_frame args e₁).2.1, havg, (computeAverages_frame args e).2.1]
  have hlen := numberOfRecords_entryOf _ _ _ hown
  rw [hrecords, numberOfRecords_entryOf _ _ _ hentry, List.length_map, List.length_map] at hlen
  have hall := List.filter_sublist.eq_of_length hlen.symm
  have hmem : a ∈ (entered config w envs).filter fun a => a.sample.pid = e.pid :=
    List.mem_filter.mpr ⟨ha, decide_eq_true hpid⟩
  exact of_decide_eq_true (List.filter_eq_self.mp hall a hmem)

/-- Whose samples the reports are about. After any number of snapshots every entry of a
report, with its baselines, latest values, sums and averages, is the one that the samples of
one process give alone, exactly when no PID enters the table with two start times. -/
theorem lifetimes_iff_noReuse :
    (∀ (k : ℕ) (args : MetricsArguments),
      ∀ e ∈ averagedTable args (statsAfter config w hz cpus prog o (envs.take k)),
        OfOneLifetime (ticksOf hz) (cpusOf cpus) args (entered config w (envs.take k)) e)
      ↔ NoReuse (entered config w envs) := by
  constructor
  · intro h a ha b hb hpid
    have hlast := h envs.length {}
    rw [List.take_length] at hlast
    -- The PID has an entry, since `a` entered.
    have hin : a.sample.pid
        ∈ (statsAfter config w hz cpus prog o envs).gProcessTable.map ProcessState.pid := by
      rw [table_statsAfter, mem_pids_updateAll]
      exact ⟨a.sample, List.mem_map_of_mem ha, rfl⟩
    obtain ⟨e, he, hepid⟩ := List.mem_map.mp hin
    obtain ⟨start, hall⟩ := startTime_of_ofOneLifetime config w hz cpus prog o envs he
      (hlast _ (List.mem_map_of_mem he))
    rw [hall a ha hepid.symm, hall b hb (hpid.symm.trans hepid.symm)]
  · intro h k args
    exact ofOneLifetime_of_noReuse config w hz cpus prog o (envs.take k) (h.take k) args

end Main

/-- An output without files and streams. -/
def noOutput : Output := ⟨⟨fun _ => none, 0, []⟩, fun _ => none, [], []⟩

/-- The outside of a snapshot at a time that finds a process 7 with the given stat line. -/
def envOfSeven (time : ℚ) (stat : Bytes) : SnapshotEnv :=
  { quietEnv with
    monotonic := time
    entries := [⟨ascii "7", true⟩]
    files := ⟨fun _ => some stat, fun _ => none, fun _ => some []⟩ }

/-- Two snapshots around the reuse of PID 7: a process started at 8 with 300 pages, then one
started at 50 with 100 pages. -/
def reusedEnvs : List SnapshotEnv :=
  [envOfSeven 10 (ascii "7 (a) S 0 1 1 0 -1 64 1 2 3 4 5 3 6 7 20 0 1 0 8 9 300\n"),
    envOfSeven 11 (ascii "7 (b) S 0 1 1 0 -1 64 1 2 3 4 5 3 6 7 20 0 1 0 50 9 100\n")]

/-- The two samples of PID 7 that enter the table. -/
theorem entered_reusedEnvs :
    (entered configDefault {} reusedEnvs).map
        (fun a => (a.startTime, a.sample.pid, a.sample.boIsRssValid, a.sample.rssKb))
      = [(some 8, 7, true, 1200), (some 50, 7, true, 400)] := by
  unfold reusedEnvs
  repeat rw [ascii_ofList]
  decide +kernel

/-- The RSS variation of an entry comes from the valid values of its samples. -/
theorem rssVariation_entryOf (hz cpus : Int64) (xs : List ProcessStateInput) {e : ProcessState}
    (h : entryOf hz cpus xs = some e) :
    e.rssVariationSinceStartup = ((validRss xs).foldl RssGroup.sample {}).variation := by
  cases xs with
  | nil => cases h
  | cons x xs =>
      rw [entryOf_cons, Option.some.injEq] at h
      have hgroup := rssGroup_run hz cpus (x :: xs) (newProcess x)
      rw [h] at hgroup
      exact congrArg RssGroup.variation hgroup

/-- The entry of the reused PID mixes two processes: its RSS variation is -800 KB, while the
variation of each of the two processes alone is zero. -/
theorem not_ofOneLifetime_reusedEnvs :
    ∃ e ∈ averagedTable {} (statsAfter configDefault {} 100 1 [] noOutput reusedEnvs),
      e.rssVariationSinceStartup = -800 ∧
      (∀ start own, entryOf (ticksOf 100) (cpusOf 1)
          (samplesOf (entered configDefault {} reusedEnvs) e.pid start) = some own →
        own.rssVariationSinceStartup = 0) ∧
      ¬ OfOneLifetime (ticksOf 100) (cpusOf 1) {} (entered configDefault {} reusedEnvs) e := by
  -- Two arrivals enter, and only four of their fields matter.
  obtain ⟨a, rest, hentered, ha, hrest⟩ := List.map_eq_cons_iff.mp entered_reusedEnvs
  obtain ⟨b, last, hcons, hb, hnil⟩ := List.map_eq_cons_iff.mp hrest
  rw [hcons, List.map_eq_nil_iff.mp hnil] at hentered
  obtain ⟨hastart, hapid, havalid, harss⟩ : a.startTime = some 8 ∧ a.sample.pid = 7 ∧
      a.sample.boIsRssValid = true ∧ a.sample.rssKb = 1200 := by
    simpa only [Prod.mk.injEq] using ha
  obtain ⟨hbstart, hbpid, hbvalid, hbrss⟩ : b.startTime = some 50 ∧ b.sample.pid = 7 ∧
      b.sample.boIsRssValid = true ∧ b.sample.rssKb = 400 := by
    simpa only [Prod.mk.injEq] using hb
  have hown : ∀ start own, entryOf (ticksOf 100) (cpusOf 1)
      (samplesOf (entered configDefault {} reusedEnvs) 7 start) = some own →
      own.rssVariationSinceStartup = 0 := by
    intro start own hown
    rw [rssVariation_entryOf _ _ _ hown, hentered]
    by_cases h8 : start = 8
    · subst h8
      simp [samplesOf, hastart, hbstart, hapid, validRss, havalid, harss, RssGroup.sample]
    · by_cases h50 : start = 50
      · subst h50
        simp [samplesOf, hastart, hbstart, hbpid, validRss, hbvalid, hbrss, RssGroup.sample]
      · simp [samplesOf, hastart, hbstart, Ne.symm h8, Ne.symm h50, validRss]
  have hin : (7 : Int32)
      ∈ (statsAfter configDefault {} 100 1 [] noOutput reusedEnvs).gProcessTable.map
        ProcessState.pid := by
    rw [table_statsAfter, mem_pids_updateAll, hentered]
    exact ⟨a.sample, List.mem_cons_self, hapid⟩
  obtain ⟨e, he, hpid⟩ := List.mem_map.mp hin
  have hentry := (mem_statsAfter_iff _ _ _ _ _ _ _ e).mp he
  have hvariation : e.rssVariationSinceStartup = -800 := by
    rw [rssVariation_entryOf _ _ _ hentry, hentered, hpid]
    simp [hapid, hbpid, validRss, havalid, hbvalid, harss, hbrss, RssGroup.sample]
  have havg : (computeAverages {} e).rssVariationSinceStartup = -800 := hvariation
  have havgpid : (computeAverages {} e).pid = 7 := hpid
  refine ⟨computeAverages {} e, List.mem_map_of_mem he, havg, ?_, ?_⟩
  · rw [havgpid]
    exact hown
  · rintro ⟨start, hmix⟩
    rw [havgpid] at hmix
    obtain ⟨own, hentry', heq⟩ := Option.map_eq_some_iff.mp hmix
    have hzero : (computeAverages {} own).rssVariationSinceStartup = 0 := hown start own hentry'
    rw [heq, havg] at hzero
    revert hzero
    decide

end ProcessAnalyzer
