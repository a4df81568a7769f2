import ProcessAnalyzer.Proofs.PidReuse

/-!
# `ProcessAnalyzer.Proofs.CurrentValues`: how current the current values are

An entry starts with a group of fields that its struct calls the current values. The sample
that creates the entry initialises them (`get_or_create_process`), and `process_stats_update`
assigns them again one by one. The process state is the one that it leaves out.

* `refreshed_updateEntry`: what one update does to the group.
* `current_iff`: an entry shows the latest observation exactly when the process has in its
  last sample the state it had in its first.
-/

set_option autoImplicit false

namespace ProcessAnalyzer.Stats

open ProcessAnalyzer.Lib

/-- The entry holds the current values of its process after the samples `own`, of which the
last one is `last`. -/
structure Current (own : List ProcessStateInput) (last : ProcessStateInput) (e : ProcessState) :
    Prop where
  comm : e.comm = last.comm
  utime : e.utime = last.utime
  stime : e.stime = last.stime
  threads : e.threads = last.threads
  state : e.state = last.state
  rssKb : ∀ v, (validRss own).getLast? = some v → e.rssKb = v
  numberOfRecords : e.numberOfRecords = own.length

/-! ### One update -/

/-- The two entries agree on the current values that are not optional. -/
structure SameValues (ps' ps : ProcessState) : Prop where
  comm : ps'.comm = ps.comm
  utime : ps'.utime = ps.utime
  stime : ps'.stime = ps.stime
  threads : ps'.threads = ps.threads
  state : ps'.state = ps.state

theorem SameValues.trans {a b c : ProcessState} (h₁ : SameValues a b) (h₂ : SameValues b c) :
    SameValues a c :=
  ⟨h₁.comm.trans h₂.comm, h₁.utime.trans h₂.utime, h₁.stime.trans h₂.stime,
    h₁.threads.trans h₂.threads, h₁.state.trans h₂.state⟩

/-- What an update with the sample `x` does to the current values. -/
structure Refreshed (x : ProcessStateInput) (ps' ps : ProcessState) : Prop where
  comm : ps'.comm = x.comm
  utime : ps'.utime = x.utime
  stime : ps'.stime = x.stime
  threads : ps'.threads = x.threads
  state : ps'.state = ps.state
  rssKb : ps'.rssKb = if x.boIsRssValid then x.rssKb else ps.rssKb

section OneUpdate
variable (hz cpus : Int64) (x : ProcessStateInput) (ps : ProcessState)

theorem sameValues_calculateFdsDelta :
    SameValues (calculateFdsDelta x ps) ps ∧ (calculateFdsDelta x ps).rssKb = ps.rssKb := by
  simp only [calculateFdsDelta]
  split_ifs <;> exact ⟨⟨rfl, rfl, rfl, rfl, rfl⟩, rfl⟩

theorem sameValues_calculateRssData :
    SameValues (calculateRssData x ps) ps ∧
    (calculateRssData x ps).rssKb = if x.boIsRssValid then x.rssKb else ps.rssKb := by
  simp only [calculateRssData]
  split_ifs <;> exact ⟨⟨rfl, rfl, rfl, rfl, rfl⟩, rfl⟩

theorem sameValues_calculateIoData :
    SameValues (calculateIoData x ps) ps ∧ (calculateIoData x ps).rssKb = ps.rssKb := by
  simp only [calculateIoData]
  split_ifs <;> exact ⟨⟨rfl, rfl, rfl, rfl, rfl⟩, rfl⟩

/-- The CPU part reads the current values and leaves them as they are. -/
theorem sameValues_calculateCpuData :
    SameValues (calculateCpuData hz cpus x ps) ps ∧
    (calculateCpuData hz cpus x ps).rssKb = ps.rssKb := by
  simp only [calculateCpuData]
  split <;> exact ⟨⟨rfl, rfl, rfl, rfl, rfl⟩, rfl⟩

/-- One update refreshes every current value but the state. -/
theorem refreshed_updateEntry : Refreshed x (updateEntry hz cpus x ps) ps := by
  obtain ⟨hcpu, hcpuRss⟩ := sameValues_calculateCpuData hz cpus x ps
  -- the entry after the plain assignments
  let assigned : ProcessState :=
    { calculateCpuData hz cpus x ps with
      prevCpuTicks := x.utime + x.stime
      utime := x.utime
      stime := x.stime
      threads := x.threads
      comm := x.comm }
  obtain ⟨hfds, hfdsRss⟩ := sameValues_calculateFdsDelta x assigned
  obtain ⟨hrss, hrssRss⟩ := sameValues_calculateRssData x (calculateFdsDelta x assigned)
  obtain ⟨hio, hioRss⟩ :=
    sameValues_calculateIoData x (calculateRssData x (calculateFdsDelta x assigned))
  have hall := hio.trans (hrss.trans hfds)
  have hstate : assigned.state = ps.state := hcpu.state
  have hassigned : assigned.rssKb = ps.rssKb := hcpuRss
  rw [hrssRss, hfdsRss, hassigned] at hioRss
  exact ⟨hall.comm, hall.utime, hall.stime, hall.threads, hall.state.trans hstate, hioRss⟩

end OneUpdate

/-! ### Whole runs -/

section Run
variable (hz cpus : Int64)

/-- The state of an entry is the one it was created with. -/
theorem state_updateRun (xs : List ProcessStateInput) (ps : ProcessState) :
    (updateRun hz cpus ps xs).state = ps.state := by
  induction xs generalizing ps with
  | nil => rfl
  | cons x xs ih => exact (ih _).trans (refreshed_updateEntry hz cpus x ps).state

/-- The RSS of an entry is the last valid value. -/
theorem rssKb_updateRun (xs : List ProcessStateInput) (ps : ProcessState) :
    (updateRun hz cpus ps xs).rssKb = (validRss xs).getLast?.getD ps.rssKb := by
  induction xs generalizing ps with
  | nil => rfl
  | cons x xs ih =>
      have hstep := (refreshed_updateEntry hz cpus x ps).rssKb
      have hrec := ih (updateEntry hz cpus x ps)
      rw [hstep] at hrec
      show (updateRun hz cpus (updateEntry hz cpus x ps) xs).rssKb = _
      rw [hrec]
      cases hv : x.boIsRssValid with
      | false => simp [validRss, hv]
      | true =>
          have hcons : validRss (x :: xs) = x.rssKb :: validRss xs := by simp [validRss, hv]
          rw [hcons, List.getLast?_cons, if_pos rfl, Option.getD_some]

/-- The entry after a run that ends with the sample `last`: all is current but the state,
which is that of the first sample. -/
theorem entryOf_concat (xs : List ProcessStateInput) (first last : ProcessStateInput)
    (hfirst : (xs ++ [last]).head? = some first) :
    ∃ e, entryOf hz cpus (xs ++ [last]) = some e ∧ e.state = first.state ∧
      (e.state = last.state → Current (xs ++ [last]) last e) := by
  have hne : xs ++ [last] ≠ [] := List.append_ne_nil_of_right_ne_nil xs (List.cons_ne_nil last [])
  obtain ⟨y, ys, hcons⟩ := List.exists_cons_of_ne_nil hne
  have hyfirst : y = first := by
    rw [hcons] at hfirst
    exact Option.some.inj hfirst
  have hentry := entryOf_cons hz cpus y ys
  rw [← hcons] at hentry
  refine ⟨_, hentry, ?_, fun hstate => ?_⟩
  · rw [state_updateRun, ← hyfirst]
    rfl
  · -- The last sample has the last word on what it assigns.
    have hlast : updateRun hz cpus (newProcess y) (xs ++ [last])
        = updateEntry hz cpus last (updateRun hz cpus (newProcess y) xs) :=
      List.foldl_concat ..
    have hrefreshed := refreshed_updateEntry hz cpus last (updateRun hz cpus (newProcess y) xs)
    rw [← hlast] at hrefreshed
    refine ⟨hrefreshed.comm, hrefreshed.utime, hrefreshed.stime, hrefreshed.threads, hstate, ?_,
      numberOfRecords_entryOf hz cpus _ hentry⟩
    intro v hv
    rw [rssKb_updateRun, hv, Option.getD_some]

end Run

/-! ### Reports -/

/-- The averages of a report leave the current values as they are. -/
theorem sameValues_computeAverages (args : MetricsArguments) (ps : ProcessState) :
    SameValues (computeAverages args ps) ps ∧ (computeAverages args ps).rssKb = ps.rssKb := by
  simp only [computeAverages]
  split_ifs <;> exact ⟨⟨rfl, rfl, rfl, rfl, rfl⟩, rfl⟩

/-- A report shows the current values of an entry that has them. -/
theorem Current.computeAverages {own : List ProcessStateInput} {last : ProcessStateInput}
    {e : ProcessState} (h : Current own last e) (args : MetricsArguments) :
    Current own last (computeAverages args e) := by
  obtain ⟨hsame, hrss⟩ := sameValues_computeAverages args e
  obtain ⟨-, hrecords, -, -⟩ := computeAverages_frame args e
  refine ⟨hsame.comm.trans h.comm, hsame.utime.trans h.utime, hsame.stime.trans h.stime,
    hsame.threads.trans h.threads, hsame.state.trans h.state, ?_,
    hrecords.trans h.numberOfRecords⟩
  intro v hv
  rw [hrss, h.rssKb v hv]

/-- How current the current values are. After any sequence of `process_stats_update` calls the
entry of a process that was sampled, and its row in every report, hold the values of its last
sample, of its last sample with a valid RSS and the number of its samples, exactly when its
last sample has the state of its first. -/
theorem current_iff (hz cpus : Int64) (prog : Bytes) (inputs : List ProcessStateInput) (p : Int32)
    (first last : ProcessStateInput)
    (hfirst : (inputs.filter fun x => x.pid = p).head? = some first)
    (hlast : (inputs.filter fun x => x.pid = p).getLast? = some last) :
    let module := updateAll (initializedModule hz cpus prog) inputs
    let own := inputs.filter fun x => x.pid = p
    ((∃ e, Table.find? ProcessState.pid module.gProcessTable p = some e ∧
        Current own last e) ∧
      ∀ args, ∀ row ∈ averagedTable args module, row.pid = p → Current own last row)
      ↔ last.state = first.state := by
  intro module own
  obtain ⟨xs, hxs⟩ := List.getLast?_eq_some_iff.mp hlast
  rw [hxs] at hfirst
  obtain ⟨e, hentry, hstate, hcurrent⟩ :=
    entryOf_concat (ticksOf hz) (cpusOf cpus) xs first last hfirst
  have hfind : Table.find? ProcessState.pid module.gProcessTable p = some e := by
    show Table.find? ProcessState.pid (updateAll _ inputs).gProcessTable p = some e
    rw [find?_updateAll, hxs, hentry]
  have hown : own = xs ++ [last] := hxs
  constructor
  · rintro ⟨⟨e', hfind', hcur⟩, -⟩
    have he : e' = e := Option.some.inj (hfind'.symm.trans hfind)
    rw [← hcur.state, he, hstate]
  · intro hsame
    have hcur : Current own last e := hown ▸ hcurrent (hstate.trans hsame.symm)
    refine ⟨⟨e, hfind, hcur⟩, ?_⟩
    intro args row hrow hpid
    obtain ⟨ps, hps, rfl⟩ := List.mem_map.mp hrow
    -- The row of the process is its entry with the averages.
    have hpspid : ps.pid = p := (computeAverages_frame args ps).1.symm.trans hpid
    have hfindps := Table.find?_of_mem _ (nodupKeys_updateAll hz cpus prog inputs) hps
    rw [hpspid] at hfindps
    have he : ps = e := Option.some.inj (hfindps.symm.trans hfind)
    exact he ▸ hcur.computeAverages args

/-- A sample of process 7 in the given state. -/
def sampleInState (state : UInt8) : ProcessStateInput :=
  { blankRecord with pid := 7, state := state }

/-- A process that sleeps in its first and in its last sample is shown as it is. -/
theorem current_sleeping_running_sleeping :
    let inputs := [sampleInState 83, sampleInState 82, sampleInState 83]
    let module := updateAll (initializedModule 100 1 []) inputs
    let own := inputs.filter fun x => x.pid = 7
    (∃ e, Table.find? ProcessState.pid module.gProcessTable 7 = some e ∧
        Current own (sampleInState 83) e) ∧
      ∀ args, ∀ row ∈ averagedTable args module, row.pid = 7 →
        Current own (sampleInState 83) row :=
  (current_iff 100 1 [] [sampleInState 83, sampleInState 82, sampleInState 83] 7
    (sampleInState 83) (sampleInState 83) rfl rfl).mpr rfl

/-- A process that sleeps first and runs in its last sample is shown as sleeping. -/
theorem not_current_sleeping_running :
    ¬ ∃ e, Table.find? ProcessState.pid (updateAll (initializedModule 100 1 [])
          [sampleInState 83, sampleInState 82]).gProcessTable 7 = some e ∧
        Current [sampleInState 83, sampleInState 82] (sampleInState 82) e := by
  rintro ⟨e, hfind, hcurrent⟩
  rw [find?_updateAll,
    show ([sampleInState 83, sampleInState 82].filter fun x => x.pid = 7)
      = [sampleInState 83, sampleInState 82] from rfl, entryOf_cons, Option.some.injEq] at hfind
  have hstate := state_updateRun (ticksOf 100) (cpusOf 1) [sampleInState 83, sampleInState 82]
    (newProcess (sampleInState 83))
  rw [hfind, hcurrent.state] at hstate
  revert hstate
  decide

end ProcessAnalyzer.Stats
