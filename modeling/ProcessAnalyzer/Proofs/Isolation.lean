import ProcessAnalyzer.Model.ProcessStats

/-!
# `ProcessAnalyzer.Proofs.Isolation`: one entry per process

`process_stats_update` finds or creates the entry of the sample's process and changes it in
place. `processStatsUpdate_table` states this as one `Table.upsert`, and `updateAll_table`
states a whole sequence of calls as a fold of `upsert`s. Everything about single processes
then comes from the table library:

* `nodupKeys_updateAll`, `mem_pids_updateAll`: the table has exactly one entry per PID
  seen.
* `find?_updateAll`: the entry of a PID is what the samples of that PID alone give.

`entryOf` names that entry. The accumulators of one process are studied on it
(`ProcessAnalyzer.Proofs.Aggregates`), whatever the other samples of the run are.
-/

set_option autoImplicit false

namespace ProcessAnalyzer.Stats

open ProcessAnalyzer.Lib

/-! ### One call -/

section Frame
variable (callocOk : Bool) (m : StatsModule) (input : ProcessStateInput)

/-- An update keeps the initialisation of the module and its two divisors. -/
theorem processStatsUpdate_frame :
    (processStatsUpdate callocOk m input).isModuleInitialized = m.isModuleInitialized ∧
    (processStatsUpdate callocOk m input).gClockTicksPerSecond = m.gClockTicksPerSecond ∧
    (processStatsUpdate callocOk m input).gOnlineCpuCount = m.gOnlineCpuCount := by
  simp only [processStatsUpdate]
  split
  · split <;> split <;> exact ⟨rfl, rfl, rfl⟩
  · exact ⟨rfl, rfl, rfl⟩

@[simp] theorem isModuleInitialized_processStatsUpdate :
    (processStatsUpdate callocOk m input).isModuleInitialized = m.isModuleInitialized :=
  (processStatsUpdate_frame callocOk m input).1

end Frame

/-- The table after one call whose `calloc` succeeds: find or create, then change. -/
theorem processStatsUpdate_table (m : StatsModule) (input : ProcessStateInput)
    (hm : m.isModuleInitialized = true) :
    (processStatsUpdate true m input).gProcessTable
      = Table.upsert ProcessState.pid m.gProcessTable input.pid (newProcess input)
          (updateEntry m.gClockTicksPerSecond m.gOnlineCpuCount input) := by
  cases h : Table.find? ProcessState.pid m.gProcessTable input.pid with
  | some ps =>
      simp only [processStatsUpdate, hm, getOrCreateProcess, h, Table.upsert, if_true]
      split <;> rfl
  | none =>
      simp only [processStatsUpdate, hm, getOrCreateProcess, h, Table.upsert, if_true]
      split <;> rfl

@[simp] theorem pid_newProcess (input : ProcessStateInput) : (newProcess input).pid = input.pid :=
  rfl

/-- What no part of an update touches: the key of the entry, and the average that only a
report fills in. -/
structure SameEntry (ps' ps : ProcessState) : Prop where
  pid : ps'.pid = ps.pid
  rssAverageKb : ps'.rssAverageKb = ps.rssAverageKb

/-- What the optional parts of an update (descriptors, RSS and I/O) do not touch. -/
structure SameCore (ps' ps : ProcessState) : Prop where
  pid : ps'.pid = ps.pid
  rssAverageKb : ps'.rssAverageKb = ps.rssAverageKb
  cpuUsageSum : ps'.cpuUsageSum = ps.cpuUsageSum
  cpuUsageSamples : ps'.cpuUsageSamples = ps.cpuUsageSamples
  prevCpuTicks : ps'.prevCpuTicks = ps.prevCpuTicks
  prevTimestamp : ps'.prevTimestamp = ps.prevTimestamp
  numberOfRecords : ps'.numberOfRecords = ps.numberOfRecords

theorem SameCore.trans {a b c : ProcessState} (h₁ : SameCore a b) (h₂ : SameCore b c) :
    SameCore a c :=
  ⟨h₁.pid.trans h₂.pid, h₁.rssAverageKb.trans h₂.rssAverageKb,
    h₁.cpuUsageSum.trans h₂.cpuUsageSum, h₁.cpuUsageSamples.trans h₂.cpuUsageSamples,
    h₁.prevCpuTicks.trans h₂.prevCpuTicks, h₁.prevTimestamp.trans h₂.prevTimestamp,
    h₁.numberOfRecords.trans h₂.numberOfRecords⟩

section Entry
variable (hz cpus : Int64) (input : ProcessStateInput) (ps : ProcessState)

theorem sameEntry_calculateCpuData : SameEntry (calculateCpuData hz cpus input ps) ps := by
  simp only [calculateCpuData]
  split <;> exact ⟨rfl, rfl⟩

theorem sameCore_calculateFdsDelta : SameCore (calculateFdsDelta input ps) ps := by
  simp only [calculateFdsDelta]
  split_ifs <;> exact ⟨rfl, rfl, rfl, rfl, rfl, rfl, rfl⟩

theorem sameCore_calculateRssData : SameCore (calculateRssData input ps) ps := by
  simp only [calculateRssData]
  split_ifs <;> exact ⟨rfl, rfl, rfl, rfl, rfl, rfl, rfl⟩

theorem sameCore_calculateIoData : SameCore (calculateIoData input ps) ps := by
  simp only [calculateIoData]
  split_ifs <;> exact ⟨rfl, rfl, rfl, rfl, rfl, rfl, rfl⟩

/-- The optional parts together. -/
theorem sameCore_optional :
    SameCore (calculateIoData input (calculateRssData input (calculateFdsDelta input ps))) ps :=
  (sameCore_calculateIoData input _).trans
    ((sameCore_calculateRssData input _).trans (sameCore_calculateFdsDelta input ps))

/-- An update keeps the key and the average of the entry. -/
theorem sameEntry_updateEntry : SameEntry (updateEntry hz cpus input ps) ps := by
  have hcpu := sameEntry_calculateCpuData hz cpus input ps
  constructor
  · exact (sameCore_optional input _).pid.trans hcpu.pid
  · exact (sameCore_optional input _).rssAverageKb.trans hcpu.rssAverageKb

/-- Every update counts one record. -/
theorem numberOfRecords_updateEntry :
    (updateEntry hz cpus input ps).numberOfRecords = ps.numberOfRecords + 1 := by
  have hcpu : (calculateCpuData hz cpus input ps).numberOfRecords = ps.numberOfRecords := by
    simp only [calculateCpuData]
    split <;> rfl
  rw [← hcpu]
  exact congrArg (· + 1) (sameCore_optional input _).numberOfRecords

@[simp] theorem pid_updateEntry : (updateEntry hz cpus input ps).pid = ps.pid :=
  (sameEntry_updateEntry hz cpus input ps).pid

end Entry

/-! ### Sequences of calls -/

/-- The table after a sequence of calls is a fold of find-or-create steps. -/
theorem updateAll_table (inputs : List ProcessStateInput) (m : StatsModule)
    (hm : m.isModuleInitialized = true) :
    (updateAll m inputs).gProcessTable
      = inputs.foldl (fun t x => Table.upsert ProcessState.pid t x.pid (newProcess x)
          (updateEntry m.gClockTicksPerSecond m.gOnlineCpuCount x)) m.gProcessTable := by
  induction inputs generalizing m with
  | nil => rfl
  | cons x xs ih =>
      have hrec := ih (processStatsUpdate true m x) (by simpa using hm)
      obtain ⟨-, hticks, hcpus⟩ := processStatsUpdate_frame true m x
      rw [hticks, hcpus, processStatsUpdate_table m x hm] at hrec
      exact hrec

/-- A sequence of calls does not end the initialisation of the module. -/
theorem isModuleInitialized_updateAll (inputs : List ProcessStateInput) (m : StatsModule) :
    (updateAll m inputs).isModuleInitialized = m.isModuleInitialized := by
  induction inputs generalizing m with
  | nil => rfl
  | cons x xs ih => exact (ih _).trans (isModuleInitialized_processStatsUpdate true m x)

/-- The entry of one process after its samples, from no entry. -/
def entryOf (hz cpus : Int64) (samples : List ProcessStateInput) : Option ProcessState :=
  Table.entryAfter newProcess (updateEntry hz cpus) none samples

section Sequence
variable (hz cpus : Int64) (prog : Bytes) (inputs : List ProcessStateInput)

/-- The divisors that `process_stats_initialize` leaves in an untouched module. -/
def ticksOf (hz : Int64) : Int64 := if hz > 0 then hz else 100

/-- The number of CPUs that `process_stats_initialize` leaves in an untouched module. -/
def cpusOf (cpus : Int64) : Int64 := if cpus > 0 then cpus else 1

/-- The entries of the table have distinct PIDs. -/
theorem nodupKeys_updateAll :
    Table.NodupKeys ProcessState.pid
      (updateAll (initializedModule hz cpus prog) inputs).gProcessTable := by
  rw [updateAll_table inputs _ rfl]
  exact Table.nodup_foldl_upsert _ pid_newProcess (fun x a ha => by simpa using ha) _ _
    (Table.nodupKeys_nil _)

/-- The PIDs of the table are the PIDs of the samples. -/
theorem mem_pids_updateAll (p : Int32) :
    p ∈ (updateAll (initializedModule hz cpus prog) inputs).gProcessTable.map ProcessState.pid
      ↔ ∃ x ∈ inputs, x.pid = p := by
  rw [updateAll_table inputs _ rfl,
    Table.mem_keys_foldl_upsert _ pid_newProcess (fun x a ha => by simpa using ha)]
  simp [initializedModule, processStatsInitialize]

/-- After a sample the table is not empty. -/
theorem table_updateAll_ne_nil (h : inputs ≠ []) :
    (updateAll (initializedModule hz cpus prog) inputs).gProcessTable ≠ [] := by
  obtain ⟨x, hx⟩ := List.exists_mem_of_ne_nil inputs h
  intro hnil
  have hmem := (mem_pids_updateAll hz cpus prog inputs x.pid).mpr ⟨x, hx, rfl⟩
  simp [hnil] at hmem

/-- The entry of a PID depends on the samples of that PID only. -/
theorem find?_updateAll (p : Int32) :
    Table.find? ProcessState.pid
        (updateAll (initializedModule hz cpus prog) inputs).gProcessTable p
      = entryOf (ticksOf hz) (cpusOf cpus) (inputs.filter fun x => x.pid = p) := by
  rw [updateAll_table inputs _ rfl,
    Table.find?_foldl_upsert _ pid_newProcess (fun x a ha => by simpa using ha)]
  rfl

end Sequence

/-- Per-PID isolation. After any sequence of updates the table has exactly one entry per
PID seen, the entry of a PID is the one obtained by feeding that PID's samples alone to an
empty table, and two sequences that agree on the samples of every PID, in order, give the
same entries. -/
theorem perPid_isolation (hz cpus : Int64) (prog : Bytes) (inputs : List ProcessStateInput) :
    let table := fun xs => (updateAll (initializedModule hz cpus prog) xs).gProcessTable
    let entry := fun xs p => Table.find? ProcessState.pid (table xs) p
    ((table inputs).map ProcessState.pid).Nodup ∧
    (∀ p, p ∈ (table inputs).map ProcessState.pid ↔ ∃ x ∈ inputs, x.pid = p) ∧
    (∀ p, entry inputs p = entry (inputs.filter fun x => x.pid = p) p) ∧
    (∀ other : List ProcessStateInput,
      (∀ p, (other.filter fun x => x.pid = p) = inputs.filter fun x => x.pid = p) →
      ∀ p, entry other p = entry inputs p) := by
  intro table entry
  -- All four parts follow from the entry being a function of the PID's own samples.
  have hentry : ∀ xs p, entry xs p
      = entryOf (ticksOf hz) (cpusOf cpus) (xs.filter fun x => x.pid = p) :=
    fun xs p => find?_updateAll hz cpus prog xs p
  refine ⟨nodupKeys_updateAll hz cpus prog inputs, mem_pids_updateAll hz cpus prog inputs, ?_, ?_⟩
  · intro p
    rw [hentry, hentry, List.filter_filter]
    simp
  · intro other hother p
    rw [hentry, hentry, hother p]

end ProcessAnalyzer.Stats
