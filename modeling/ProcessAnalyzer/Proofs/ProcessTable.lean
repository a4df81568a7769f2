import ProcessAnalyzer.Model.ProcessTable
import ProcessAnalyzer.Proofs.Isolation
import ProcessAnalyzer.Proofs.Report
import ProcessAnalyzer.Proofs.Uthash

/-!
# `ProcessAnalyzer.Proofs.ProcessTable`: the list of entries is what the memory has

The accumulators on a list of entries (`Model.ProcessStats`, `Model.Metrics`) and on the uthash
table in the memory (`Model.ProcessTable`) do the same.

* `Simulates` relates a memory with a list: the blocks of the memory are the entries, and no two
  of them have the same PID.
* `hashIter_fillArr`: the loop of `process_stats_print_metrics` fills in the averages of every
  entry and writes its address into the array.
* `hashIter_freeEntry`: the loop of `process_stats_deinit` frees every entry once, although it
  reads `hh.next` of a table that loses its elements.
* `call_simulates` is the step, `process_table_refines` the result over all sequences of calls,
  in which the module can be shut down and started again at any time.
-/

set_option autoImplicit false

namespace ProcessAnalyzer.Stats

open ProcessAnalyzer.Lib
open ProcessAnalyzer.Uthash (Memory UtHashTable Represents)

/-! ### The relation -/

/-- The blocks of a memory with their addresses are the entries of a list, with distinct PIDs. No
stream is open between two calls. -/
def Simulates (s : StatsMemory) (m : StatsModule) : Prop :=
  ∃ l, Represents ProcessState.pid pidHash s.gProcessTable l ∧
    Table.NodupKeys ProcessState.pid (l.map Prod.snd) ∧ s.json = {} ∧
    s.withTable (l.map Prod.snd) = m

/-- What the environment promises: `calloc` gives a block that is not in use. -/
def FreshBlock (s : StatsMemory) : StatsCall → Prop
  | .update (some p) _ => s.gProcessTable.heap p = none
  | _ => True

instance (s : StatsMemory) : ∀ c, Decidable (FreshBlock s c)
  | .update (some p) _ => inferInstanceAs (Decidable (s.gProcessTable.heap p = none))
  | .update none _ => inferInstanceAs (Decidable True)
  | .start .. => inferInstanceAs (Decidable True)
  | .snapshotEnd => inferInstanceAs (Decidable True)
  | .printMetrics .. => inferInstanceAs (Decidable True)
  | .deinit => inferInstanceAs (Decidable True)

/-! ### `get_or_create_process` -/

/-- The lookup in the memory is the lookup in the list. -/
theorem hashFind_represents {m : Memory ProcessState} {l : List (ℕ × ProcessState)}
    (h : Represents ProcessState.pid pidHash m l)
    (hnodup : Table.NodupKeys ProcessState.pid (l.map Prod.snd)) (pid : Int32) :
    match Table.find? ProcessState.pid (l.map Prod.snd) pid with
    | some ps => ∃ p, Uthash.hashFind ProcessState.pid pidHash m pid = some (some p) ∧
        (p, ps) ∈ l
    | none => Uthash.hashFind ProcessState.pid pidHash m pid = some none := by
  obtain ⟨found, hfind, hsound, hcomplete⟩ := Uthash.hashFind_spec h.contains pid
  cases found with
  | some p =>
      obtain ⟨hmem, hkey⟩ := hsound p rfl
      obtain ⟨⟨_, ps⟩, hx, rfl⟩ := List.mem_map.mp hmem
      obtain ⟨e, he, rfl⟩ := h.values _ hx
      unfold Uthash.keyAt at hkey
      rw [he, Option.map_some, Option.some.injEq] at hkey
      have hself := Table.find?_of_mem ProcessState.pid hnodup (List.mem_map_of_mem hx)
      rw [← hkey, hself]
      exact ⟨_, hkey ▸ hfind, hx⟩
  | none =>
      have hnone : Table.find? ProcessState.pid (l.map Prod.snd) pid = none := by
        rw [Table.find?_eq_none_iff, List.map_map, List.mem_map]
        rintro ⟨x, hx, rfl⟩
        obtain ⟨e, he, hvalue⟩ := h.values x hx
        refine hcomplete rfl x.1 (List.mem_map_of_mem hx) ?_
        unfold Uthash.keyAt
        rw [he, Option.map_some, hvalue]
        rfl
      rw [hnone]
      exact hfind

/-! ### `process_stats_update` -/

/-- A change of the entry at an address is a change of the entry with its PID. -/
theorem map_snd_change {m : Memory ProcessState} {l : List (ℕ × ProcessState)}
    (h : Represents ProcessState.pid pidHash m l)
    (hnodup : Table.NodupKeys ProcessState.pid (l.map Prod.snd)) {p : ℕ} {ps : ProcessState}
    (hp : (p, ps) ∈ l) (f : ProcessState → ProcessState) :
    (l.map fun x => if x.1 = p then (p, f ps) else x).map Prod.snd
      = Table.modify ProcessState.pid (l.map Prod.snd) ps.pid f := by
  unfold Table.modify
  rw [List.map_map, List.map_map]
  apply List.map_congr_left
  rintro ⟨q, qs⟩ hq
  show (if q = p then (p, f ps) else (q, qs)).2 = if qs.pid = ps.pid then f qs else qs
  by_cases hqp : q = p
  · obtain rfl := hqp
    rw [h.eq_of_mem hq hp, if_pos rfl, if_pos rfl]
  · -- Another address has another PID, since the PIDs are distinct.
    have hne : qs.pid ≠ ps.pid := by
      intro hpid
      have hpair := List.inj_on_of_nodup_map (f := fun x : ℕ × ProcessState => x.2.pid)
        (List.map_map ▸ hnodup) hq hp hpid
      exact hqp (congrArg Prod.fst hpair)
    rw [if_neg hqp, if_neg hne]

/-- What a sample leaves in the timestamps. -/
def StatsMemory.stamp (s : StatsMemory) (input : ProcessStateInput) : StatsMemory :=
  if s.hRInitialTimestamp.length = 0 then
    { s with hRInitialTimestamp := input.hRTimestamp, hRLastTimestamp := input.hRTimestamp }
  else { s with hRLastTimestamp := input.hRTimestamp }

/-- A sample on the list, in the fields of the memory. -/
theorem processStatsUpdate_withTable {s : StatsMemory} (hinit : s.isModuleInitialized = true)
    (ok : Bool) (table : List ProcessState) (input : ProcessStateInput) :
    processStatsUpdate ok (s.withTable table) input
      = (s.stamp input).withTable
          (match getOrCreateProcess ok table input with
          | some found => Table.modify ProcessState.pid found.2 input.pid
              (updateEntry s.gClockTicksPerSecond s.gOnlineCpuCount input)
          | none => table) := by
  unfold processStatsUpdate StatsMemory.stamp
  rw [if_pos (show (s.withTable table).isModuleInitialized = true from hinit)]
  by_cases hfirst : s.hRInitialTimestamp.length = 0
  · have hfirst' : (s.withTable table).hRInitialTimestamp.length = 0 := hfirst
    simp only [if_pos hfirst, if_pos hfirst']
    simp only [StatsMemory.withTable]
    cases getOrCreateProcess ok table input <;> rfl
  · have hfirst' : ¬ (s.withTable table).hRInitialTimestamp.length = 0 := hfirst
    simp only [if_neg hfirst, if_neg hfirst']
    simp only [StatsMemory.withTable]
    cases getOrCreateProcess ok table input <;> rfl

/-- A sample in the memory, with the address of its entry. -/
theorem processStatsUpdate_of_found {s : StatsMemory} (hinit : s.isModuleInitialized = true)
    {calloc : Option ℕ} {input : ProcessStateInput} {p : ℕ} {m : Memory ProcessState}
    {e : Uthash.Element ProcessState}
    (hfound : StatsMemory.getOrCreateProcess calloc s.gProcessTable input = some (some p, m))
    (he : m.heap p = some e) :
    s.processStatsUpdate calloc input
      = some { s.stamp input with
          gProcessTable := { m with
            heap := Function.update m.heap p (some { e with
              value := updateEntry s.gClockTicksPerSecond s.gOnlineCpuCount input e.value }) } } := by
  unfold StatsMemory.processStatsUpdate StatsMemory.stamp
  rw [if_pos hinit, hfound, Option.bind_some]
  simp only [he, Option.map_some]
  split <;> rfl

/-- The table after a sample whose entry is in the table. -/
theorem simulates_change {s : StatsMemory} (hjson : s.json = {}) {m : Memory ProcessState}
    {l : List (ℕ × ProcessState)} (hrep : Represents ProcessState.pid pidHash m l)
    (hnodup : Table.NodupKeys ProcessState.pid (l.map Prod.snd)) {p : ℕ} {ps : ProcessState}
    (hp : (p, ps) ∈ l) (hz cpus : Int64) (input : ProcessStateInput) :
    ∃ e, m.heap p = some e ∧ Simulates
      { s with gProcessTable := { m with
          heap := Function.update m.heap p
            (some { e with value := updateEntry hz cpus input e.value }) } }
      (s.withTable (Table.modify ProcessState.pid (l.map Prod.snd) ps.pid
        (updateEntry hz cpus input))) := by
  obtain ⟨e, he, hrep'⟩ :=
    hrep.change (a := updateEntry hz cpus input ps) hp (pid_updateEntry ..).symm
  obtain ⟨e', he', hvalue⟩ := hrep.values _ hp
  obtain rfl : e' = e := Option.some.inj (he'.symm.trans he)
  obtain rfl : e'.value = ps := hvalue
  refine ⟨e', he, _, hrep', ?_, hjson, ?_⟩
  · rw [map_snd_change hrep hnodup hp]
    unfold Table.NodupKeys
    rw [Table.map_key_modify]
    · exact hnodup
    · exact fun a ha => (pid_updateEntry ..).trans ha
  · rw [map_snd_change hrep hnodup hp]
    rfl

/-- A new entry comes behind the others. -/
theorem hashAdd_newProcess {m : Memory ProcessState} {l : List (ℕ × ProcessState)}
    (hrep : Represents ProcessState.pid pidHash m l)
    (hnodup : Table.NodupKeys ProcessState.pid (l.map Prod.snd)) {p : ℕ} (hfresh : m.heap p = none)
    {input : ProcessStateInput}
    (hfind : Table.find? ProcessState.pid (l.map Prod.snd) input.pid = none) :
    ∃ r, Uthash.hashAdd ProcessState.pid pidHash
        { m with heap := Function.update m.heap p (some { value := newProcess input }) } p
          = some r ∧
      Represents ProcessState.pid pidHash r (l ++ [(p, newProcess input)]) ∧
      Table.NodupKeys ProcessState.pid ((l ++ [(p, newProcess input)]).map Prod.snd) := by
  have hp : p ∉ l.map Prod.fst := by
    intro hmem
    obtain ⟨x, hx, rfl⟩ := List.mem_map.mp hmem
    obtain ⟨e, he, -⟩ := hrep.values x hx
    rw [hfresh] at he
    cases he
  obtain ⟨r, hadd, hrep'⟩ := hrep.add hp (newProcess input)
  refine ⟨r, hadd, hrep', ?_⟩
  have hpid := (Table.find?_eq_none_iff _).mp hfind
  unfold Table.NodupKeys at hnodup ⊢
  rw [List.map_append, List.map_append, List.nodup_append]
  refine ⟨hnodup, List.nodup_singleton _, ?_⟩
  intro a ha b hb
  rw [List.map_singleton, List.map_singleton, List.mem_singleton, pid_newProcess] at hb
  exact hb ▸ ne_of_mem_of_not_mem ha hpid

/-- A sample. -/
theorem update_simulates {s : StatsMemory} {m : StatsModule} (h : Simulates s m)
    {calloc : Option ℕ} {input : ProcessStateInput} (hfresh : FreshBlock s (.update calloc input)) :
    ∃ s', s.processStatsUpdate calloc input = some s' ∧
      Simulates s' (processStatsUpdate calloc.isSome m input) := by
  obtain ⟨l, hrep, hnodup, hjson, rfl⟩ := h
  have hstamp : (s.stamp input).json = {} := by
    unfold StatsMemory.stamp
    split <;> exact hjson
  by_cases hinit : s.isModuleInitialized = true
  · rw [processStatsUpdate_withTable hinit, getOrCreateProcess]
    have hlookup := hashFind_represents hrep hnodup input.pid
    cases hfind : Table.find? ProcessState.pid (l.map Prod.snd) input.pid with
    | some ps =>
        -- The process is known.
        rw [hfind] at hlookup
        obtain ⟨p, hrun, hp⟩ := hlookup
        have hpid := (Table.find?_some _ hfind).2
        obtain ⟨e, he, hsim⟩ := simulates_change hstamp hrep hnodup hp
          s.gClockTicksPerSecond s.gOnlineCpuCount input
        have hfound : StatsMemory.getOrCreateProcess calloc s.gProcessTable input
            = some (some p, s.gProcessTable) := by
          unfold StatsMemory.getOrCreateProcess
          rw [hrun]
          rfl
        exact ⟨_, processStatsUpdate_of_found hinit hfound he, hpid ▸ hsim⟩
    | none =>
        rw [hfind] at hlookup
        cases calloc with
        | none =>
            -- There is no memory for a new process.
            refine ⟨s.stamp input, ?_, l, ?_, hnodup, hstamp, rfl⟩
            · unfold StatsMemory.processStatsUpdate StatsMemory.stamp
              rw [if_pos hinit, StatsMemory.getOrCreateProcess, hlookup]
              show some (if s.hRInitialTimestamp.length = 0 then _ else _) = _
              rfl
            · unfold StatsMemory.stamp
              split <;> exact hrep
        | some p =>
            -- The process is new, and its entry comes behind the others.
            obtain ⟨r, hadd, hrep', hnodup'⟩ := hashAdd_newProcess hrep hnodup hfresh hfind
            have hmem : (p, newProcess input) ∈ l ++ [(p, newProcess input)] :=
              List.mem_append_right _ (List.mem_singleton_self _)
            obtain ⟨e, he, hsim⟩ := simulates_change hstamp hrep' hnodup' hmem
              s.gClockTicksPerSecond s.gOnlineCpuCount input
            have hfound : StatsMemory.getOrCreateProcess (some p) s.gProcessTable input
                = some (some p, r) := by
              unfold StatsMemory.getOrCreateProcess
              simp only [hlookup, Option.bind_some, hadd, Option.map_some]
            rw [List.map_append, List.map_singleton, pid_newProcess] at hsim
            exact ⟨_, processStatsUpdate_of_found hinit hfound he, hsim⟩
  · refine ⟨s, if_neg hinit, l, hrep, hnodup, hjson, ?_⟩
    have hinit' : ¬ (s.withTable (l.map Prod.snd)).isModuleInitialized = true := hinit
    exact (if_neg hinit').symm

/-! ### `process_stats_print_metrics` -/

/-- The loop fills in the averages of every entry, and the array has all addresses at the end. It
is never longer than the table. -/
theorem hashIter_fillArr {m : Memory ProcessState} {l : List (ℕ × ProcessState)}
    (h : Represents ProcessState.pid pidHash m l) (args : MetricsArguments) :
    ∃ m', Uthash.hashIter Prod.fst (StatsMemory.fillArr args l.length) (m, [])
        = some (m', l.map Prod.fst) ∧
      Represents ProcessState.pid pidHash m'
        (l.map fun x => (x.1, computeAverages args x.2)) := by
  obtain ⟨⟨m', arr⟩, hiter, before, after, hl, hrest, hrep, harr⟩ := Uthash.hashIter_spec
    Prod.fst (StatsMemory.fillArr args l.length) (s := (m, []))
    (I := fun rest s => ∃ before after, l = before ++ after ∧ rest = after.map Prod.fst ∧
      Represents ProcessState.pid pidHash s.1
        ((before.map fun x => (x.1, computeAverages args x.2)) ++ after) ∧
      s.2 = before.map Prod.fst)
    (by
      rintro p rest s ⟨before, after, -, hrest, hrep, -⟩
      obtain ⟨x, after, rfl, rfl, rfl⟩ := List.map_eq_cons_iff.mp hrest.symm
      exact hrep.hhNextOf _)
    (by
      rintro p rest ⟨m, arr⟩ ⟨before, after, hl, hrest, hrep, harr⟩
      obtain ⟨⟨p, ps⟩, after, rfl, rfl, rfl⟩ := List.map_eq_cons_iff.mp hrest.symm
      obtain ⟨e, he, rfl, hrep'⟩ :=
        hrep.change_append (a := computeAverages args ps) (computeAverages_frame args ps).1.symm
      -- The array has room for one more: it has the addresses before this one only.
      have hroom : arr.length < l.length := by
        rw [show arr = _ from harr, hl, List.length_map, List.length_append, List.length_cons]
        omega
      unfold StatsMemory.fillArr
      rw [if_pos hroom, he, Option.map_some]
      refine ⟨_, rfl, before ++ [(p, e.value)], after, ?_, rfl, ?_, ?_⟩
      · rw [hl, List.append_assoc, List.singleton_append]
      · rw [List.map_append, List.append_assoc]
        exact hrep'
      · rw [List.map_append, show arr = _ from harr]
        rfl)
    h.contains ⟨[], l, rfl, rfl, h, rfl⟩
  obtain rfl : after = [] := List.map_eq_nil_iff.mp hrest.symm
  rw [List.append_nil] at hl hrep
  subst hl
  exact ⟨m', (show arr = _ from harr) ▸ hiter, hrep⟩

/-- The averages change no PID. -/
theorem nodupKeys_averages (args : MetricsArguments) {table : List ProcessState}
    (h : Table.NodupKeys ProcessState.pid table) :
    Table.NodupKeys ProcessState.pid (table.map (computeAverages args)) := by
  have hpids : (table.map (computeAverages args)).map ProcessState.pid
      = table.map ProcessState.pid := by
    rw [List.map_map]
    exact List.map_congr_left fun ps _ => (computeAverages_frame args ps).1
  unfold Table.NodupKeys
  rw [hpids]
  exact h

/-- No stream is open, and so the file-scope variables do not matter. -/
theorem openMetricsFile_of_closed (config : Config) (env : MetricsEnv) :
    StatsMemory.openMetricsFile config env {} = openMetricsFile config env := by
  unfold StatsMemory.openMetricsFile
  split
  · rename_i hcalled
    unfold openMetricsFile
    rw [if_pos hcalled.1, if_neg (by simp [hcalled.2])]
    split <;> rfl
  · rename_i hcalled
    unfold openMetricsFile
    split
    · rw [if_pos (by simpa [‹_›] using hcalled)]
    · rfl

/-- The blocks leave a stream open that was open before them. -/
theorem closeJson_report {env : MetricsEnv} {f : MetaFields} {out json : JsonOutput}
    (hbegin : metricsJsonBegin env f out = .ok json) (qsort : Qsort) (config : Config)
    (args : MetricsArguments) (table : List ProcessState) :
    StatsMemory.closeJson
      (printOrder.foldl (metricBlock qsort config args) ⟨table, [], json⟩).json = {} := by
  obtain ⟨blocks, -, -, -, hjson⟩ := foldl_metricBlock qsort config args table printOrder
    ⟨table, [], json⟩ (List.Perm.refl _)
  unfold metricsJsonBegin at hbegin
  split at hbegin
  · cases hbegin
  · cases hbegin
    unfold StatsMemory.closeJson
    rw [hjson]
    rfl

/-- A report prints the same on the memory and on the list, and stops where the list has no result:
when it has no stream. -/
theorem print_simulates {s : StatsMemory} {m : StatsModule} (h : Simulates s m) (qsort : Qsort)
    (config : Config) (env : MetricsEnv) (args : MetricsArguments) (intervalMs : UInt64) :
    Option.Rel (fun r out => r.2 = out.output ∧ Simulates r.1 out.module)
      (s.processStatsPrintMetrics qsort config env args intervalMs)
      (processStatsPrintMetrics qsort config env args intervalMs m).toOption := by
  have hsim := h
  obtain ⟨l, hrep, hnodup, hjson, rfl⟩ := h
  have hcount : Uthash.hashCount s.gProcessTable = some l.length := by
    rw [hrep.contains.hashCount, List.length_map]
  have hempty : (s.withTable (l.map Prod.snd)).gProcessTable.length = l.length :=
    List.length_map _
  unfold processStatsPrintMetrics StatsMemory.processStatsPrintMetrics
  cases hinit : s.isModuleInitialized with
  | false =>
      have hinit' : (s.withTable (l.map Prod.snd)).isModuleInitialized = false := hinit
      rw [if_neg Bool.false_ne_true, if_pos (Or.inl hinit')]
      exact .some ⟨rfl, hsim⟩
  | true =>
      have hinit' : (s.withTable (l.map Prod.snd)).isModuleInitialized = true := hinit
      rw [if_pos rfl, hinit', hempty, hcount, Option.bind_eq_bind, Option.bind_some]
      by_cases hearly : l.length = 0 ∨ env.arrMallocOk = false
      · rw [if_pos (Or.inr hearly), if_pos hearly]
        exact .some ⟨rfl, hsim⟩
      · have hearly' : ¬ (true = false ∨ l.length = 0 ∨ env.arrMallocOk = false) := by
          simpa using hearly
        rw [if_neg hearly, if_neg hearly', hjson, openMetricsFile_of_closed]
        cases hbegin : metricsJsonBegin env (metaFields (s.withTable (l.map Prod.snd)) intervalMs)
            (openMetricsFile config env).1 with
        | error fault =>
            have hbegin' : metricsJsonBegin env (metaFields (s.withTable []) intervalMs)
                (openMetricsFile config env).1 = .error fault := hbegin
            simp only [hbegin, hbegin', Except.toOption, Option.bind_none, bind, Except.bind]
            exact .none
        | ok json =>
            obtain ⟨m, hiter, hrep'⟩ := hashIter_fillArr hrep args
            have hbegin' : metricsJsonBegin env (metaFields (s.withTable []) intervalMs)
                (openMetricsFile config env).1 = .ok json := hbegin
            -- What the blocks of the report read through the array are the entries of the list.
            have hvalues : (l.map Prod.fst).mapM (fun p => (m.heap p).map Uthash.Element.value)
                = some ((l.map Prod.snd).map (computeAverages args)) := by
              have hread := hrep'.mapM_value
              rw [List.map_map, List.map_map] at hread
              rw [List.map_map]
              exact hread
            have hsnd : (l.map fun x => (x.1, computeAverages args x.2)).map Prod.snd
                = (l.map Prod.snd).map (computeAverages args) := by
              rw [List.map_map, List.map_map]
              rfl
            simp only [hbegin, hbegin', Except.toOption, Option.bind_some, bind, Except.bind, hiter,
              hvalues]
            refine .some ⟨rfl, _, hrep', ?_, closeJson_report hbegin qsort config args _, ?_⟩
            · rw [hsnd]
              exact nodupKeys_averages args hnodup
            · rw [hsnd]
              unfold StatsMemory.withTable
              rw [hinit]

/-! ### `process_stats_deinit` -/

/-- The loop frees every entry once and ends. The next entry is read before the current one is
deleted, and the one after it when it is gone. -/
theorem hashIter_freeEntry {m : Memory ProcessState} {l : List (ℕ × ProcessState)}
    (h : Represents ProcessState.pid pidHash m l) :
    Uthash.hashIter id StatsMemory.freeEntry m = some {} := by
  obtain ⟨m', hiter, l', hnil, hrep⟩ := Uthash.hashIter_spec id StatsMemory.freeEntry
    (s := m)
    (I := fun rest m => ∃ l, rest = l.map Prod.fst ∧ Represents ProcessState.pid pidHash m l)
    (by
      rintro p rest m ⟨l, hrest, hrep⟩
      obtain ⟨x, l, rfl, rfl, rfl⟩ := List.map_eq_cons_iff.mp hrest.symm
      exact hrep.hhNextOf [])
    (by
      rintro p rest m ⟨l, hrest, hrep⟩
      obtain ⟨x, l, rfl, rfl, rfl⟩ := List.map_eq_cons_iff.mp hrest.symm
      obtain ⟨m', e, hdelete, he, hrep'⟩ := hrep.delete (p := x.1) (by simp)
      -- The other entries have other addresses.
      have hrest : (x :: l).filter (fun y => y.1 ≠ x.1) = l := by
        have hnodup := hrep.nodup
        rw [List.map_cons, List.nodup_cons] at hnodup
        rw [List.filter_cons_of_neg (by simp), List.filter_eq_self]
        intro y hy
        exact decide_eq_true (ne_of_mem_of_not_mem (List.mem_map_of_mem hy) hnodup.1)
      rw [hrest] at hrep'
      refine ⟨_, ?_, l, rfl, hrep'⟩
      simp only [StatsMemory.freeEntry, hdelete, he, Option.bind_eq_bind, Option.bind_some])
    h.contains ⟨l, rfl, h⟩
  obtain rfl : l' = [] := List.map_eq_nil_iff.mp hnil.symm
  rw [hiter, hrep.eq_empty]

/-- The module after a shutdown. Only the two clock divisors are left. -/
def StatsMemory.cleared (s : StatsMemory) : StatsMemory :=
  { gClockTicksPerSecond := s.gClockTicksPerSecond, gOnlineCpuCount := s.gOnlineCpuCount }

/-- The module is shut down, and its memory is free. -/
theorem processStatsDeinit_eq {s : StatsMemory} {m : StatsModule} (h : Simulates s m) :
    s.processStatsDeinit = some s.cleared := by
  obtain ⟨l, hrep, -⟩ := h
  unfold StatsMemory.processStatsDeinit
  rw [hashIter_freeEntry hrep]
  rfl

/-! ### Runs -/

/-- Every call does the same on the memory and on the list. -/
theorem call_simulates (qsort : Qsort) {s : StatsMemory} {m : StatsModule} (h : Simulates s m)
    {c : StatsCall} (hfresh : FreshBlock s c) :
    Option.Rel Simulates (s.call qsort c) (m.call qsort c) := by
  cases c with
  | start hz cpus prog =>
      obtain ⟨l, hrep, hnodup, hjson, rfl⟩ := h
      exact .some ⟨l, hrep, hnodup, hjson, rfl⟩
  | update calloc input =>
      obtain ⟨s', hrun, hsim⟩ := update_simulates h hfresh
      rw [StatsMemory.call, hrun]
      exact .some hsim
  | snapshotEnd =>
      obtain ⟨l, hrep, hnodup, hjson, rfl⟩ := h
      refine .some ⟨l, ?_, hnodup, ?_, ?_⟩
      · unfold StatsMemory.processStatsSnapshotEnd
        split <;> exact hrep
      · unfold StatsMemory.processStatsSnapshotEnd
        split <;> exact hjson
      · unfold StatsMemory.processStatsSnapshotEnd
        split
        · exact (if_pos (show (s.withTable _).isModuleInitialized = true from ‹_›)).symm
        · exact (if_neg (show ¬ (s.withTable _).isModuleInitialized = true from ‹_›)).symm
  | printMetrics config env args intervalMs =>
      have hrel := print_simulates h qsort config env args intervalMs
      rw [StatsMemory.call, StatsModule.call]
      cases hs : s.processStatsPrintMetrics qsort config env args intervalMs <;>
        cases hm : (processStatsPrintMetrics qsort config env args intervalMs m).toOption <;>
        rw [hs, hm] at hrel <;> cases hrel
      · exact .none
      · exact .some (And.right ‹_›)
  | deinit =>
      rw [StatsMemory.call, processStatsDeinit_eq h]
      obtain ⟨l, -, -, -, rfl⟩ := h
      exact .some ⟨[], Represents.empty, List.nodup_nil, rfl, rfl⟩

/-- The module before its first call. -/
theorem simulates_initial : Simulates {} {} :=
  ⟨[], Represents.empty, List.nodup_nil, rfl, rfl⟩

/-- The run on the memory and the run on the list. -/
theorem exec_call_simulates (qsort : Qsort) {calls : List StatsCall}
    (hfresh : Run.Along (StatsMemory.call qsort) FreshBlock {} calls) :
    Option.Rel Simulates (Run.exec (StatsMemory.call qsort) {} calls)
      (Run.exec (StatsModule.call qsort) {} calls) := by
  refine Run.exec_rel ?_ simulates_initial hfresh
  exact fun s m c hsim hfresh => call_simulates qsort hsim hfresh

/-- The entries in the memory, in the order of `HASH_ITER`. -/
def StatsMemory.entries (s : StatsMemory) : Option (List ProcessState) := do
  let visited ← Uthash.hashIterated s.gProcessTable
  visited.mapM fun p => (s.gProcessTable.heap p).map Uthash.Element.value

/-- What a memory has in common with the model on lists: its entries, in their order, the other
variables and the reports. Its integrity check is quiet, and its blocks are its entries, so that
none is lost. -/
structure Refines (qsort : Qsort) (s : StatsMemory) (m : StatsModule) : Prop where
  entries : s.entries = some m.gProcessTable
  withTable : s.withTable m.gProcessTable = m
  count : Uthash.hashCount s.gProcessTable = some m.gProcessTable.length
  fsck : Uthash.hashFsck s.gProcessTable = true
  blocks : ∃ visited, Uthash.hashIterated s.gProcessTable = some visited ∧
    ∀ p, p ∈ visited ↔ s.gProcessTable.heap p ≠ none
  reports : ∀ config env args intervalMs,
    (s.processStatsPrintMetrics qsort config env args intervalMs).map Prod.snd
      = (processStatsPrintMetrics qsort config env args intervalMs m).toOption.map
          MetricsResult.output

theorem Simulates.refines {s : StatsMemory} {m : StatsModule} (h : Simulates s m)
    (qsort : Qsort) : Refines qsort s m := by
  have hprint := print_simulates h qsort
  obtain ⟨l, hrep, -, -, rfl⟩ := h
  have hvisited := Uthash.hashIterated_spec hrep.contains
  refine ⟨?_, rfl, ?_, Uthash.hashFsck_spec hrep.contains, ⟨_, hvisited, ?_⟩, ?_⟩
  · unfold StatsMemory.entries
    rw [hvisited]
    exact hrep.mapM_value
  · rw [hrep.contains.hashCount]
    exact congrArg some ((List.length_map _).trans (List.length_map _).symm)
  · intro p
    constructor
    · intro hp
      obtain ⟨x, hx, rfl⟩ := List.mem_map.mp hp
      obtain ⟨e, he, -⟩ := hrep.values x hx
      rw [he]
      exact Option.some_ne_none e
    · exact fun hp => Classical.byContradiction fun hnot => hp (hrep.unused p hnot)
  · intro config env args intervalMs
    have hrel := hprint config env args intervalMs
    generalize s.processStatsPrintMetrics qsort config env args intervalMs = r at hrel ⊢
    generalize (processStatsPrintMetrics qsort config env args intervalMs
      (s.withTable (l.map Prod.snd))).toOption = out at hrel ⊢
    cases hrel with
    | none => rfl
    | some hsame => exact congrArg some hsame.1

/-- Over every sequence of calls in which `calloc` gives unused blocks or fails, the module stays
within its blocks and frees none twice, and it is what the model on lists is. It stops where that
one stops, in a report without a stream. -/
theorem process_table_refines (qsort : Qsort) {calls : List StatsCall}
    (hfresh : Run.Along (StatsMemory.call qsort) FreshBlock {} calls) :
    Option.Rel (Refines qsort) (Run.exec (StatsMemory.call qsort) {} calls)
      (Run.exec (StatsModule.call qsort) {} calls) := by
  have hrel := exec_call_simulates qsort hfresh
  generalize Run.exec (StatsMemory.call qsort) {} calls = s at hrel ⊢
  generalize Run.exec (StatsModule.call qsort) {} calls = m at hrel ⊢
  cases hrel with
  | none => exact .none
  | some hsim => exact .some (hsim.refines qsort)

/-- A sample of a process. -/
def tableSample (pid : Int32) : ProcessStateInput where
  pid := pid
  comm := ascii "sh"
  state := 83
  ppid := 1
  utime := 5
  stime := 2
  rssKb := 900
  timestamp := 10
  hRTimestamp := ascii "2026-01-01 00:00:10.000"
  threads := 1
  readKbytes := 0
  writeKbytes := 0
  boIsRssValid := true
  boIsIoValid := true
  numberOfFds := 3
  boIsFdValid := true

/-- Two processes, samples that are lost, a report, and a second life of the module that gets a
block once more. -/
def tableCalls : List StatsCall :=
  [.start 100 4 [], .update (some 64) (tableSample 7), .update (some 80) (tableSample 9),
    .update none (tableSample 7), .update none (tableSample 8), .snapshotEnd,
    .printMetrics configDefault ⟨true, true, true, none⟩ {} 1000, .deinit,
    .start 100 4 [], .update (some 80) (tableSample 9)]

theorem process_table_refines_two_lives : ∃ s,
    Run.exec (StatsMemory.call Qsort.insertionSort) {} tableCalls = some s ∧
      Uthash.hashCount s.gProcessTable = some 1 := by
  have hfresh : Run.Along (StatsMemory.call Qsort.insertionSort) FreshBlock {} tableCalls := by
    decide
  have hlist : (Run.exec (StatsModule.call Qsort.insertionSort) {} tableCalls).map
      (fun m => m.gProcessTable.length) = some 1 := by decide +kernel
  have hrel := process_table_refines Qsort.insertionSort hfresh
  obtain ⟨m, hm, hlength⟩ := Option.map_eq_some_iff.mp hlist
  rw [hm] at hrel
  cases hs : Run.exec (StatsMemory.call Qsort.insertionSort) {} tableCalls with
  | none => rw [hs] at hrel; cases hrel
  | some s =>
      rw [hs] at hrel
      cases hrel with
      | some hrefines => exact ⟨s, rfl, hlength ▸ hrefines.count⟩

/-- After a shutdown the module is as new: when both `sysconf` calls have an answer, a restarted
module does what it does in a new process. No report before has stopped the program. -/
theorem restart_as_new (qsort : Qsort) {calls rest : List StatsCall} {hz cpus : Int64}
    (prog : Bytes) (hfresh : Run.Along (StatsMemory.call qsort) FreshBlock {} calls)
    (hruns : (Run.exec (StatsModule.call qsort) {} calls).isSome) (hhz : hz > 0)
    (hcpus : cpus > 0) :
    Run.exec (StatsMemory.call qsort) {} (calls ++ .deinit :: .start hz cpus prog :: rest)
      = Run.exec (StatsMemory.call qsort) {} (.start hz cpus prog :: rest) := by
  obtain ⟨m, hm⟩ := Option.isSome_iff_exists.mp hruns
  have hrel := exec_call_simulates qsort hfresh
  rw [hm] at hrel
  cases hexec : Run.exec (StatsMemory.call qsort) {} calls with
  | none => rw [hexec] at hrel; cases hrel
  | some s =>
      rw [hexec] at hrel
      cases hrel with
      | some hsim =>
          have hdeinit : s.call qsort .deinit = some s.cleared := processStatsDeinit_eq hsim
          have hsame : s.cleared.call qsort (.start hz cpus prog)
              = StatsMemory.call qsort {} (.start hz cpus prog) := by
            show some (StatsMemory.processStatsInitialize hz cpus prog s.cleared) = some _
            unfold StatsMemory.processStatsInitialize
            rw [if_pos hhz, if_pos hcpus, if_pos hhz, if_pos hcpus]
            rfl
          rw [Run.exec_append, hexec, Option.bind_some, Run.exec, hdeinit, Option.bind_some,
            Run.exec, Run.exec, hsame]

theorem restart_as_new_third_life :
    Run.exec (StatsMemory.call Qsort.insertionSort) {}
        (tableCalls ++ .deinit :: .start 250 2 [] :: [.update (some 64) (tableSample 3)])
      = Run.exec (StatsMemory.call Qsort.insertionSort) {}
          (.start 250 2 [] :: [.update (some 64) (tableSample 3)]) :=
  restart_as_new Qsort.insertionSort [] (by decide) (by decide +kernel) (by decide) (by decide)

end ProcessAnalyzer.Stats
