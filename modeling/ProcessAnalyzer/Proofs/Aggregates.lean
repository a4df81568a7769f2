import Mathlib.Algebra.BigOperators.Group.List.Basic
import Mathlib.Tactic.Linarith
import ProcessAnalyzer.Lib.CInt
import ProcessAnalyzer.Proofs.Isolation

/-!
# `ProcessAnalyzer.Proofs.Aggregates`: the accumulators of one process

A sample carries three optional groups of values with a validity flag each: RSS, file
descriptors and I/O counters. `process_stats_update` feeds each group into its own fields
of the entry. This module cuts the entry into these groups (`rssGroup`, `fdGroup`,
`readCounter`, `writeCounter`), states what one valid value does to a group (`sample`), and
shows that a whole update either feeds one value or leaves the group as it is
(`groups_updateEntry`). So the group after a run is a fold over the
valid values alone, whatever the other groups and the CPU part do (`rssGroup_run` and its
siblings). For the I/O counters this needs increasing timestamps, because
`calculate_io_data` drops a sample whose time step is not positive.

The closed forms of these folds (`RssGroup.foldl_sample`, `FdGroup.foldl_sample`,
`Counter.foldl_sample`) are exact in the machine arithmetic. The lemmas behind them turn
them into integer statements where nothing overflows.
-/

set_option autoImplicit false

namespace ProcessAnalyzer.Stats

open ProcessAnalyzer.Lib

/-! ### The valid values of a run -/

/-- The RSS values of the samples whose RSS is valid, in order. -/
def validRss (xs : List ProcessStateInput) : List Int64 :=
  xs.filterMap fun x => if x.boIsRssValid then some x.rssKb else none

/-- The descriptor counts of the samples whose count is valid, in order. -/
def validFds (xs : List ProcessStateInput) : List UInt64 :=
  xs.filterMap fun x => if x.boIsFdValid then some x.numberOfFds else none

/-- The read counters of the samples whose I/O data is valid, in order. -/
def validReads (xs : List ProcessStateInput) : List UInt64 :=
  xs.filterMap fun x => if x.boIsIoValid then some x.readKbytes else none

/-- The write counters of the samples whose I/O data is valid, in order. -/
def validWrites (xs : List ProcessStateInput) : List UInt64 :=
  xs.filterMap fun x => if x.boIsIoValid then some x.writeKbytes else none

/-- The sum over consecutive elements of `max 0 (next - previous)`. Truncated subtraction
is that maximum. -/
def increments : List ℕ → ℕ
  | a :: b :: rest => (b - a) + increments (b :: rest)
  | _ => 0

/-! ### The groups of an entry -/

/-- The RSS fields of an entry. -/
structure RssGroup where
  initialKb : Int64 := 0
  sum : Int64 := 0
  variation : Int64 := 0
  initialized : Bool := false
  records : ℕ := 0

/-- The descriptor fields of an entry. -/
structure FdGroup where
  initial : UInt64 := 0
  current : UInt64 := 0
  delta : Int64 := 0
  initialized : Bool := false

/-- The fields of one I/O direction of an entry. -/
structure Counter where
  prev : UInt64 := 0
  total : UInt64 := 0
  initialized : Bool := false

/-- The RSS group after a valid value. -/
def RssGroup.sample (g : RssGroup) (v : Int64) : RssGroup :=
  let initial := if g.initialized then g.initialKb else v
  ⟨initial, g.sum + v, v - initial, true, g.records + 1⟩

/-- The descriptor group after a valid count. -/
def FdGroup.sample (g : FdGroup) (w : UInt64) : FdGroup :=
  if g.initialized then ⟨g.initial, w, (w - g.initial).toInt64, true⟩
  else ⟨w, w, g.delta, true⟩

/-- An I/O counter after a valid value. -/
def Counter.sample (c : Counter) (r : UInt64) : Counter :=
  if c.initialized then ⟨r, c.total + (if r ≥ c.prev then r - c.prev else 0), true⟩
  else ⟨r, c.total, true⟩

namespace ProcessState

def rssGroup (ps : ProcessState) : RssGroup :=
  ⟨ps.rssInitialKb, ps.rssSum, ps.rssVariationSinceStartup, ps.boIsRssInitialized,
    ps.numOfRssRecords⟩

def fdGroup (ps : ProcessState) : FdGroup :=
  ⟨ps.initialNumOfFds, ps.currentNumOfFds, ps.fdDelta, ps.boIsFdInitialized⟩

def readCounter (ps : ProcessState) : Counter :=
  ⟨ps.prevReadKbytes, ps.totalReadKbytes, ps.boIsIoInitialized⟩

def writeCounter (ps : ProcessState) : Counter :=
  ⟨ps.prevWriteKbytes, ps.totalWriteKbytes, ps.boIsIoInitialized⟩

end ProcessState

/-! ### One update, group by group -/

section OneUpdate
variable (hz cpus : Int64) (x : ProcessStateInput) (ps : ProcessState)

/-- The CPU part of an update touches no field of the optional groups. -/
theorem groups_calculateCpuData :
    (calculateCpuData hz cpus x ps).rssGroup = ps.rssGroup ∧
    (calculateCpuData hz cpus x ps).fdGroup = ps.fdGroup ∧
    (calculateCpuData hz cpus x ps).readCounter = ps.readCounter ∧
    (calculateCpuData hz cpus x ps).writeCounter = ps.writeCounter ∧
    (calculateCpuData hz cpus x ps).prevTimestamp = ps.prevTimestamp := by
  simp only [calculateCpuData]
  split <;> exact ⟨rfl, rfl, rfl, rfl, rfl⟩

/-- The descriptor part feeds its own group and leaves the others as they are. -/
theorem groups_calculateFdsDelta :
    (calculateFdsDelta x ps).fdGroup
      = (if x.boIsFdValid then ps.fdGroup.sample x.numberOfFds else ps.fdGroup) ∧
    (calculateFdsDelta x ps).rssGroup = ps.rssGroup ∧
    (calculateFdsDelta x ps).readCounter = ps.readCounter ∧
    (calculateFdsDelta x ps).writeCounter = ps.writeCounter ∧
    (calculateFdsDelta x ps).prevTimestamp = ps.prevTimestamp := by
  cases hv : x.boIsFdValid with
  | false => simp [calculateFdsDelta, hv]
  | true =>
      cases hi : ps.boIsFdInitialized with
      | false => simp [calculateFdsDelta, hv, hi, FdGroup.sample, ProcessState.rssGroup,
          ProcessState.fdGroup, ProcessState.readCounter, ProcessState.writeCounter]
      | true => simp [calculateFdsDelta, hv, hi, FdGroup.sample, ProcessState.rssGroup,
          ProcessState.fdGroup, ProcessState.readCounter, ProcessState.writeCounter]

/-- The RSS part feeds its own group and leaves the others as they are. -/
theorem groups_calculateRssData :
    (calculateRssData x ps).rssGroup
      = (if x.boIsRssValid then ps.rssGroup.sample x.rssKb else ps.rssGroup) ∧
    (calculateRssData x ps).fdGroup = ps.fdGroup ∧
    (calculateRssData x ps).readCounter = ps.readCounter ∧
    (calculateRssData x ps).writeCounter = ps.writeCounter ∧
    (calculateRssData x ps).prevTimestamp = ps.prevTimestamp := by
  cases hv : x.boIsRssValid with
  | false => simp [calculateRssData, hv]
  | true =>
      cases hi : ps.boIsRssInitialized with
      | false => simp [calculateRssData, hv, hi, RssGroup.sample, ProcessState.rssGroup,
          ProcessState.fdGroup, ProcessState.readCounter, ProcessState.writeCounter]
      | true => simp [calculateRssData, hv, hi, RssGroup.sample, ProcessState.rssGroup,
          ProcessState.fdGroup, ProcessState.readCounter, ProcessState.writeCounter]

/-- The I/O part feeds the two counters and leaves the other groups as they are. The
counters need a positive time step once they are initialised. -/
theorem groups_calculateIoData :
    (calculateIoData x ps).rssGroup = ps.rssGroup ∧
    (calculateIoData x ps).fdGroup = ps.fdGroup ∧
    ((ps.boIsIoInitialized = true → ps.prevTimestamp < x.timestamp) →
      (calculateIoData x ps).readCounter
        = (if x.boIsIoValid then ps.readCounter.sample x.readKbytes else ps.readCounter) ∧
      (calculateIoData x ps).writeCounter
        = (if x.boIsIoValid then ps.writeCounter.sample x.writeKbytes else ps.writeCounter)) := by
  cases hv : x.boIsIoValid with
  | false => simp [calculateIoData, hv]
  | true =>
      cases hi : ps.boIsIoInitialized with
      | false => simp [calculateIoData, hv, hi, Counter.sample, ProcessState.rssGroup,
          ProcessState.fdGroup, ProcessState.readCounter, ProcessState.writeCounter]
      | true =>
          by_cases hdt : x.timestamp - ps.prevTimestamp ≤ 0
          -- Without a time step the sample is dropped, which the hypothesis excludes.
          · refine ⟨by simp [calculateIoData, hv, hi, hdt], by simp [calculateIoData, hv, hi, hdt],
              fun h => ?_⟩
            have hlt := h rfl
            linarith
          · simp [calculateIoData, hv, hi, hdt, Counter.sample, ProcessState.rssGroup,
          ProcessState.fdGroup, ProcessState.readCounter, ProcessState.writeCounter]

/-- A whole update feeds each group its own value when that value is valid, and leaves the
group as it is otherwise. It always records the time of the sample. -/
theorem groups_updateEntry :
    (updateEntry hz cpus x ps).rssGroup
      = (if x.boIsRssValid then ps.rssGroup.sample x.rssKb else ps.rssGroup) ∧
    (updateEntry hz cpus x ps).fdGroup
      = (if x.boIsFdValid then ps.fdGroup.sample x.numberOfFds else ps.fdGroup) ∧
    (updateEntry hz cpus x ps).prevTimestamp = x.timestamp ∧
    ((ps.boIsIoInitialized = true → ps.prevTimestamp < x.timestamp) →
      (updateEntry hz cpus x ps).readCounter
        = (if x.boIsIoValid then ps.readCounter.sample x.readKbytes else ps.readCounter) ∧
      (updateEntry hz cpus x ps).writeCounter
        = (if x.boIsIoValid then ps.writeCounter.sample x.writeKbytes else ps.writeCounter)) := by
  obtain ⟨c1, c2, c3, c4, c5⟩ := groups_calculateCpuData hz cpus x ps
  -- The assignments between the CPU part and the optional parts are outside all groups.
  let ps2 : ProcessState :=
    { calculateCpuData hz cpus x ps with
      prevCpuTicks := x.utime + x.stime
      utime := x.utime
      stime := x.stime
      threads := x.threads
      comm := x.comm }
  obtain ⟨f1, f2, f3, f4, f5⟩ := groups_calculateFdsDelta x ps2
  obtain ⟨r1, r2, r3, r4, r5⟩ := groups_calculateRssData x (calculateFdsDelta x ps2)
  obtain ⟨i1, i2, i3⟩ := groups_calculateIoData x (calculateRssData x (calculateFdsDelta x ps2))
  refine ⟨?_, ?_, rfl, fun htime => ?_⟩
  · calc (updateEntry hz cpus x ps).rssGroup
        = (calculateRssData x (calculateFdsDelta x ps2)).rssGroup := i1
      _ = _ := by rw [r1, f2, show ps2.rssGroup = ps.rssGroup from c1]
  · calc (updateEntry hz cpus x ps).fdGroup
        = (calculateRssData x (calculateFdsDelta x ps2)).fdGroup := i2
      _ = _ := by rw [r2, f1, show ps2.fdGroup = ps.fdGroup from c2]
  · have hread : (calculateRssData x (calculateFdsDelta x ps2)).readCounter = ps.readCounter := by
      rw [r3, f3, show ps2.readCounter = ps.readCounter from c3]
    have hwrite : (calculateRssData x (calculateFdsDelta x ps2)).writeCounter
        = ps.writeCounter := by
      rw [r4, f4, show ps2.writeCounter = ps.writeCounter from c4]
    have hprev : (calculateRssData x (calculateFdsDelta x ps2)).prevTimestamp
        = ps.prevTimestamp := by
      rw [r5, f5, show ps2.prevTimestamp = ps.prevTimestamp from c5]
    have hinit : (calculateRssData x (calculateFdsDelta x ps2)).boIsIoInitialized
        = ps.boIsIoInitialized := congrArg Counter.initialized hread
    rw [hinit, hprev, hread, hwrite] at i3
    exact i3 htime

end OneUpdate

/-! ### Whole runs -/

section Run
variable (hz cpus : Int64)

/-- The entry after the samples of one process, from a given entry. -/
def updateRun (ps : ProcessState) (xs : List ProcessStateInput) : ProcessState :=
  xs.foldl (fun ps x => updateEntry hz cpus x ps) ps

/-- The first sample creates the entry, and every sample updates it. -/
theorem entryOf_cons (x : ProcessStateInput) (xs : List ProcessStateInput) :
    entryOf hz cpus (x :: xs) = some (updateRun hz cpus (newProcess x) (x :: xs)) := by
  have hsome : ∀ (ys : List ProcessStateInput) (ps : ProcessState),
      Table.entryAfter newProcess (updateEntry hz cpus) (some ps) ys
        = some (updateRun hz cpus ps ys) := by
    intro ys
    induction ys with
    | nil => intro ps; rfl
    | cons y ys ih => intro ps; exact ih (updateEntry hz cpus y ps)
  exact hsome xs _

/-- The RSS group after a run is a fold over the valid RSS values. -/
theorem rssGroup_run (xs : List ProcessStateInput) (ps : ProcessState) :
    (updateRun hz cpus ps xs).rssGroup = (validRss xs).foldl RssGroup.sample ps.rssGroup := by
  induction xs generalizing ps with
  | nil => rfl
  | cons x xs ih =>
      have hstep := (groups_updateEntry hz cpus x ps).1
      have hrec := ih (updateEntry hz cpus x ps)
      rw [hstep] at hrec
      cases hv : x.boIsRssValid with
      | false => simpa [validRss, hv, updateRun] using hrec
      | true => simpa [validRss, hv, updateRun] using hrec

/-- The descriptor group after a run is a fold over the valid counts. -/
theorem fdGroup_run (xs : List ProcessStateInput) (ps : ProcessState) :
    (updateRun hz cpus ps xs).fdGroup = (validFds xs).foldl FdGroup.sample ps.fdGroup := by
  induction xs generalizing ps with
  | nil => rfl
  | cons x xs ih =>
      have hstep := (groups_updateEntry hz cpus x ps).2.1
      have hrec := ih (updateEntry hz cpus x ps)
      rw [hstep] at hrec
      cases hv : x.boIsFdValid with
      | false => simpa [validFds, hv, updateRun] using hrec
      | true => simpa [validFds, hv, updateRun] using hrec

/-- The two I/O counters after a run with increasing timestamps are folds over the valid
counter values. The hypothesis on the start only matters once the counters are
initialised. -/
theorem counters_run (xs : List ProcessStateInput) (ps : ProcessState)
    (htime : xs.Pairwise fun a b => a.timestamp < b.timestamp)
    (hstart : ps.boIsIoInitialized = true → ∀ x ∈ xs, ps.prevTimestamp < x.timestamp) :
    (updateRun hz cpus ps xs).readCounter = (validReads xs).foldl Counter.sample ps.readCounter ∧
    (updateRun hz cpus ps xs).writeCounter
      = (validWrites xs).foldl Counter.sample ps.writeCounter := by
  induction xs generalizing ps with
  | nil => exact ⟨rfl, rfl⟩
  | cons x xs ih =>
      obtain ⟨-, -, hprev, hcount⟩ := groups_updateEntry hz cpus x ps
      obtain ⟨hread, hwrite⟩ := hcount fun hi => hstart hi x List.mem_cons_self
      obtain ⟨hlt, htail⟩ := List.pairwise_cons.mp htime
      -- The new entry holds the time of `x`, which is before all later samples.
      have hrec := ih (updateEntry hz cpus x ps) htail (fun _ y hy => hprev ▸ hlt y hy)
      rw [hread, hwrite] at hrec
      cases hv : x.boIsIoValid with
      | false => simpa [validReads, validWrites, hv, updateRun] using hrec
      | true => simpa [validReads, validWrites, hv, updateRun] using hrec

end Run

/-! ### Closed forms of the folds -/

/-- The RSS group after the values `vs`, from the zero group. -/
theorem RssGroup.foldl_sample (vs : List Int64) :
    vs.foldl RssGroup.sample {}
      = ⟨vs.headD 0, vs.foldl (· + ·) 0, vs.getLastD 0 - vs.headD 0, !vs.isEmpty, vs.length⟩ := by
  induction vs using List.reverseRecOn with
  | nil => rfl
  | append_singleton vs v ih =>
      rw [List.foldl_append, ih]
      cases vs with
      | nil => rfl
      | cons a rest =>
          rw [List.getLastD_concat]
          simp [RssGroup.sample, List.foldl_append]

/-- The descriptor group after the counts `ws`, from the zero group. The delta is assigned
from the second valid count on. -/
theorem FdGroup.foldl_sample (ws : List UInt64) :
    ws.foldl FdGroup.sample {}
      = ⟨ws.headD 0, ws.getLastD 0, (ws.getLastD 0 - ws.headD 0).toInt64, !ws.isEmpty⟩ := by
  induction ws using List.reverseRecOn with
  | nil => rfl
  | append_singleton ws w ih =>
      rw [List.foldl_append, ih]
      cases ws with
      | nil => simp [FdGroup.sample]
      | cons a rest =>
          rw [List.getLastD_concat]
          simp [FdGroup.sample]

/-- One more value at the end adds its increase over the last one. -/
theorem increments_concat (rs : List ℕ) (last r : ℕ) :
    increments (rs ++ [last, r]) = increments (rs ++ [last]) + (r - last) := by
  induction rs with
  | nil => simp [increments]
  | cons a rs ih =>
      cases rs with
      | nil => simp [increments]
      | cons b rest =>
          simp only [List.cons_append, increments] at ih ⊢
          omega

/-- An I/O counter after the values `rs`, from the zero counter: the total is the sum of the
increases, modulo the width of the field. -/
theorem Counter.foldl_sample (rs : List UInt64) :
    (rs.foldl Counter.sample {}).prev = rs.getLastD 0 ∧
    (rs.foldl Counter.sample {}).total.toNat = increments (rs.map UInt64.toNat) % 2 ^ 64 ∧
    (rs.foldl Counter.sample {}).initialized = !rs.isEmpty := by
  induction rs using List.reverseRecOn with
  | nil => simp [increments]
  | append_singleton rs r ih =>
      rw [List.foldl_append]
      -- Over the last value, since the code compares each value with the one before it.
      generalize hc : rs.foldl Counter.sample {} = c at ih
      obtain ⟨hprev, htotal, hinit⟩ := ih
      -- The first value is the baseline, every later one adds its increase over the last one.
      cases rs using List.reverseRecOn with
      | nil =>
          subst hc
          simp [Counter.sample, increments]
      | append_singleton rs last =>
          have hinit' : c.initialized = true := by rw [hinit]; cases rs <;> rfl
          have hprev' : c.prev = last := by simpa using hprev
          refine ⟨by simp [Counter.sample, hinit'], ?_, by simp [Counter.sample, hinit']⟩
          have hinc : increments ((rs ++ [last] ++ [r]).map UInt64.toNat)
              = increments ((rs ++ [last]).map UInt64.toNat) + (r.toNat - last.toNat) := by
            simpa using increments_concat (rs.map UInt64.toNat) last.toNat r.toNat
          rw [hinc]
          simp only [List.foldl_cons, List.foldl_nil, Counter.sample, hinit', hprev', if_true,
            UInt64.toNat_add, htotal]
          -- Truncated subtraction is the test of the code.
          by_cases hge : r ≥ last
          · rw [if_pos hge, UInt64.toNat_sub_of_le _ _ hge]
            omega
          · have hlt : r.toNat < last.toNat := by
              rw [← UInt64.lt_iff_toNat_lt]
              exact UInt64.not_le.mp hge
            rw [if_neg hge]
            simp only [UInt64.toNat_zero]
            omega

/-! ### The aggregates of an entry

The predicates below read the accumulators of an entry as functions of the valid values.
An empty list of values stands for a group without a valid sample: `headD` and `getLastD`
are then zero, and so is every aggregate. -/

/-- The RSS aggregates over the valid values `vs`. -/
structure RssAggregates (vs : List Int64) (ps : ProcessState) : Prop where
  initial : ps.rssInitialKb = vs.headD 0
  variation : ps.rssVariationSinceStartup.toInt = (vs.getLastD 0).toInt - (vs.headD 0).toInt
  records : ps.numOfRssRecords = vs.length
  sum : ps.rssSum.toInt = (vs.map Int64.toInt).sum

/-- The descriptor aggregates over the valid counts `ws`. -/
structure FdAggregates (ws : List UInt64) (ps : ProcessState) : Prop where
  initial : ps.initialNumOfFds = ws.headD 0
  current : ps.currentNumOfFds = ws.getLastD 0
  delta : ps.fdDelta.toInt = ((ws.getLastD 0).toNat : Int) - (ws.headD 0).toNat

/-- The I/O aggregates over the valid counter values. -/
structure IoAggregates (reads writes : List UInt64) (ps : ProcessState) : Prop where
  read : ps.totalReadKbytes.toNat = increments (reads.map UInt64.toNat) % 2 ^ 64
  write : ps.totalWriteKbytes.toNat = increments (writes.map UInt64.toNat) % 2 ^ 64

/-- A property of all elements of a list and of the default holds for its last element. -/
theorem getLastD_of_forall {α : Type} {P : α → Prop} {l : List α} {d : α} (hd : P d)
    (h : ∀ a ∈ l, P a) : P (l.getLastD d) := by
  cases l using List.reverseRecOn with
  | nil => exact hd
  | append_singleton l a => simpa using h a (by simp)

/-- A property of all elements of a list and of the default holds for its first element. -/
theorem headD_of_forall {α : Type} {P : α → Prop} {l : List α} {d : α} (hd : P d)
    (h : ∀ a ∈ l, P a) : P (l.headD d) := by
  cases l with
  | nil => exact hd
  | cons a l => exact h a List.mem_cons_self

/-- A group equal to the fold over nonnegative values with a total in range has the RSS
aggregates of these values. -/
theorem rssAggregates_of_group {vs : List Int64} {ps : ProcessState}
    (hg : ps.rssGroup = vs.foldl RssGroup.sample {}) (hvs : ∀ v ∈ vs, 0 ≤ v.toInt)
    (hsum : (vs.map Int64.toInt).sum < 2 ^ 63) : RssAggregates vs ps := by
  rw [RssGroup.foldl_sample] at hg
  have hfirst : 0 ≤ (vs.headD 0).toInt := headD_of_forall (by simp) hvs
  have hlast : 0 ≤ (vs.getLastD 0).toInt := getLastD_of_forall (by simp) hvs
  refine ⟨congrArg RssGroup.initialKb hg, ?_, congrArg RssGroup.records hg, ?_⟩
  · rw [show ps.rssVariationSinceStartup = vs.getLastD 0 - vs.headD 0 from
      congrArg RssGroup.variation hg]
    exact toInt_sub_of_nonneg hlast hfirst
  · rw [show ps.rssSum = vs.foldl (· + ·) 0 from congrArg RssGroup.sum hg,
      toInt_foldl_add vs 0 (by simp) hvs (by simpa using hsum)]
    simp

/-- A group equal to the fold over counts in range has the descriptor aggregates of these
counts. -/
theorem fdAggregates_of_group {ws : List UInt64} {ps : ProcessState}
    (hg : ps.fdGroup = ws.foldl FdGroup.sample {}) (hws : ∀ w ∈ ws, w.toNat < 2 ^ 63) :
    FdAggregates ws ps := by
  rw [FdGroup.foldl_sample] at hg
  refine ⟨congrArg FdGroup.initial hg, congrArg FdGroup.current hg, ?_⟩
  rw [show ps.fdDelta = (ws.getLastD 0 - ws.headD 0).toInt64 from congrArg FdGroup.delta hg]
  exact toInt_sub_toInt64_of_lt (getLastD_of_forall (by simp) hws)
    (headD_of_forall (by simp) hws)

/-- Counters equal to the folds over the values have the I/O aggregates of these values. -/
theorem ioAggregates_of_counters {reads writes : List UInt64} {ps : ProcessState}
    (hread : ps.readCounter = reads.foldl Counter.sample {})
    (hwrite : ps.writeCounter = writes.foldl Counter.sample {}) : IoAggregates reads writes ps where
  read := by
    rw [← (Counter.foldl_sample reads).2.1, ← hread]
    rfl
  write := by
    rw [← (Counter.foldl_sample writes).2.1, ← hwrite]
    rfl

/-- The entry of one process after its samples, group by group. -/
theorem groups_entryOf (hz cpus : Int64) (x : ProcessStateInput) (xs : List ProcessStateInput)
    (htime : (x :: xs).Pairwise fun a b => a.timestamp < b.timestamp) :
    ∃ ps, entryOf hz cpus (x :: xs) = some ps ∧
      ps.rssGroup = (validRss (x :: xs)).foldl RssGroup.sample {} ∧
      ps.fdGroup = (validFds (x :: xs)).foldl FdGroup.sample {} ∧
      ps.readCounter = (validReads (x :: xs)).foldl Counter.sample {} ∧
      ps.writeCounter = (validWrites (x :: xs)).foldl Counter.sample {} := by
  -- A new entry has zero groups and uninitialised counters.
  obtain ⟨hread, hwrite⟩ := counters_run hz cpus (x :: xs) (newProcess x) htime
    (fun h => absurd h (by simp [newProcess]))
  exact ⟨_, entryOf_cons hz cpus x xs, rssGroup_run hz cpus (x :: xs) (newProcess x),
    fdGroup_run hz cpus (x :: xs) (newProcess x), hread, hwrite⟩

end ProcessAnalyzer.Stats
