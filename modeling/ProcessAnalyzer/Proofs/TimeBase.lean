import ProcessAnalyzer.Lib.Mean
import ProcessAnalyzer.Proofs.Averages

/-!
# `ProcessAnalyzer.Proofs.TimeBase`: the time that stands behind the reported rates

Two of the reported values are rates over the observed time. The I/O rates divide the
accumulated kilobytes by `io_time_acc`, and the average CPU usage is the mean of the usages
of the single intervals.

* `ioTimeAcc_run`: `io_time_acc` adds up the steps from the record before each valid I/O
  sample, since `prev_timestamp` moves with every record.
* `coveredTimeFromFirst_eq_iff`: these steps cover the time from the first to the last valid
  sample exactly when no invalid sample stands between two valid ones.
* `cpuUsage_entry`: the CPU accumulators hold the sum of the interval usages and the number
  of intervals.
* `averageCpuUsage_eq_lifetime_iff`: the mean of the usages is the usage of the whole time
  exactly when the load does not vary together with the length of the intervals.
-/

set_option autoImplicit false

namespace ProcessAnalyzer.Stats

open ProcessAnalyzer.Lib

/-! ### The I/O time of one process -/

/-- The timestamps of the samples whose I/O data is valid, in order. -/
def validIoTimes (xs : List ProcessStateInput) : List ℚ :=
  xs.filterMap fun x => if x.boIsIoValid then some x.timestamp else none

/-- The time from the first I/O-valid sample to the last one. -/
def ioSpan (xs : List ProcessStateInput) : ℚ :=
  (validIoTimes xs).getLastD 0 - (validIoTimes xs).headD 0

/-- A sample that stands between two I/O-valid ones is I/O-valid too. -/
def IoUninterrupted (xs : List ProcessStateInput) : Prop :=
  ∀ a b c, [a, b, c].Sublist xs → a.boIsIoValid = true → c.boIsIoValid = true →
    b.boIsIoValid = true

/-- The steps from the record before each I/O-valid sample. The first argument is the time of
the record before the first sample. -/
def coveredTime : ℚ → List ProcessStateInput → ℚ
  | _, [] => 0
  | t, x :: xs => (if x.boIsIoValid then x.timestamp - t else 0) + coveredTime x.timestamp xs

/-- The same from the first I/O-valid sample on, which is the baseline. -/
def coveredTimeFromFirst : List ProcessStateInput → ℚ
  | [] => 0
  | x :: xs => if x.boIsIoValid then coveredTime x.timestamp xs else coveredTimeFromFirst xs

/-- The fields that the I/O time is computed from are the same in two entries. -/
structure SameIoTime (ps' ps : ProcessState) : Prop where
  acc : ps'.ioTimeAcc = ps.ioTimeAcc
  initialized : ps'.boIsIoInitialized = ps.boIsIoInitialized
  prev : ps'.prevTimestamp = ps.prevTimestamp

theorem SameIoTime.trans {a b c : ProcessState} (h₁ : SameIoTime a b) (h₂ : SameIoTime b c) :
    SameIoTime a c :=
  ⟨h₁.acc.trans h₂.acc, h₁.initialized.trans h₂.initialized, h₁.prev.trans h₂.prev⟩

section IoTime
variable (hz cpus : Int64) (x : ProcessStateInput) (ps : ProcessState)

theorem sameIoTime_calculateCpuData : SameIoTime (calculateCpuData hz cpus x ps) ps := by
  simp only [calculateCpuData]
  split <;> exact ⟨rfl, rfl, rfl⟩

theorem sameIoTime_calculateFdsDelta : SameIoTime (calculateFdsDelta x ps) ps := by
  simp only [calculateFdsDelta]
  split_ifs <;> exact ⟨rfl, rfl, rfl⟩

theorem sameIoTime_calculateRssData : SameIoTime (calculateRssData x ps) ps := by
  simp only [calculateRssData]
  split_ifs <;> exact ⟨rfl, rfl, rfl⟩

/-- The I/O part adds the step from the record before it when the sample is valid and the
counters are initialised. -/
theorem ioTimeAcc_calculateIoData
    (htime : ps.boIsIoInitialized = true → ps.prevTimestamp < x.timestamp) :
    (calculateIoData x ps).ioTimeAcc = ps.ioTimeAcc
      + (if x.boIsIoValid ∧ ps.boIsIoInitialized then x.timestamp - ps.prevTimestamp else 0) ∧
    (calculateIoData x ps).boIsIoInitialized = (ps.boIsIoInitialized || x.boIsIoValid) := by
  cases hv : x.boIsIoValid with
  | false => simp [calculateIoData, hv]
  | true =>
      cases hi : ps.boIsIoInitialized with
      | false => simp [calculateIoData, hv, hi]
      | true =>
          have hpos : ¬ x.timestamp - ps.prevTimestamp ≤ 0 := by
            have := htime hi
            linarith
          simp [calculateIoData, hv, hi, hpos]

/-- A whole update does what its I/O part does, and records the time of the sample. -/
theorem ioTimeAcc_updateEntry
    (htime : ps.boIsIoInitialized = true → ps.prevTimestamp < x.timestamp) :
    (updateEntry hz cpus x ps).ioTimeAcc = ps.ioTimeAcc
      + (if x.boIsIoValid ∧ ps.boIsIoInitialized then x.timestamp - ps.prevTimestamp else 0) ∧
    (updateEntry hz cpus x ps).boIsIoInitialized = (ps.boIsIoInitialized || x.boIsIoValid) ∧
    (updateEntry hz cpus x ps).prevTimestamp = x.timestamp := by
  let ps2 : ProcessState :=
    { calculateCpuData hz cpus x ps with
      prevCpuTicks := x.utime + x.stime
      utime := x.utime
      stime := x.stime
      threads := x.threads
      comm := x.comm }
  have hcpu := sameIoTime_calculateCpuData hz cpus x ps
  have hps2 : SameIoTime ps2 ps := ⟨hcpu.acc, hcpu.initialized, hcpu.prev⟩
  have hsame : SameIoTime (calculateRssData x (calculateFdsDelta x ps2)) ps :=
    (sameIoTime_calculateRssData x _).trans ((sameIoTime_calculateFdsDelta x _).trans hps2)
  have hio := ioTimeAcc_calculateIoData x (calculateRssData x (calculateFdsDelta x ps2))
  rw [hsame.acc, hsame.initialized, hsame.prev] at hio
  exact ⟨(hio htime).1, (hio htime).2, rfl⟩

/-- Once the counters are initialised, a run adds the steps before its valid samples. -/
theorem ioTimeAcc_run (xs : List ProcessStateInput) (ps : ProcessState)
    (htime : xs.Pairwise fun a b => a.timestamp < b.timestamp)
    (hstart : ∀ x ∈ xs, ps.prevTimestamp < x.timestamp) (hinit : ps.boIsIoInitialized = true) :
    (updateRun hz cpus ps xs).ioTimeAcc = ps.ioTimeAcc + coveredTime ps.prevTimestamp xs := by
  induction xs generalizing ps with
  | nil => simp [updateRun, coveredTime]
  | cons x xs ih =>
      obtain ⟨hlt, htail⟩ := List.pairwise_cons.mp htime
      obtain ⟨hacc, hi, hprev⟩ := ioTimeAcc_updateEntry hz cpus x ps
        fun _ => hstart x List.mem_cons_self
      have hrec := ih (updateEntry hz cpus x ps) htail (fun y hy => hprev ▸ hlt y hy)
        (by rw [hi, hinit, Bool.true_or])
      show (updateRun hz cpus (updateEntry hz cpus x ps) xs).ioTimeAcc = _
      rw [hrec, hacc, hprev, hinit, coveredTime]
      simp only [and_true]
      ring

/-- Before the first valid sample the accumulator stands still, and that sample is the
baseline. -/
theorem ioTimeAcc_run_uninitialized (xs : List ProcessStateInput) (ps : ProcessState)
    (htime : xs.Pairwise fun a b => a.timestamp < b.timestamp)
    (hinit : ps.boIsIoInitialized = false) :
    (updateRun hz cpus ps xs).ioTimeAcc = ps.ioTimeAcc + coveredTimeFromFirst xs := by
  induction xs generalizing ps with
  | nil => simp [updateRun, coveredTimeFromFirst]
  | cons x xs ih =>
      obtain ⟨hlt, htail⟩ := List.pairwise_cons.mp htime
      obtain ⟨hacc, hi, hprev⟩ := ioTimeAcc_updateEntry hz cpus x ps fun h => by
        rw [hinit] at h
        cases h
      rw [hinit] at hacc hi
      show (updateRun hz cpus (updateEntry hz cpus x ps) xs).ioTimeAcc = _
      cases hv : x.boIsIoValid with
      | false =>
          rw [ih _ htail (by rw [hi, hv, Bool.false_or]), hacc]
          simp [coveredTimeFromFirst, hv]
      | true =>
          rw [ioTimeAcc_run hz cpus xs _ htail (fun y hy => hprev ▸ hlt y hy)
            (by rw [hi, hv, Bool.false_or]), hacc, hprev]
          simp [coveredTimeFromFirst, hv]

end IoTime

/-! ### Covered time and the span of the valid samples -/

theorem validIoTimes_cons_of_valid {x : ProcessStateInput} (xs : List ProcessStateInput)
    (hv : x.boIsIoValid = true) : validIoTimes (x :: xs) = x.timestamp :: validIoTimes xs := by
  simp [validIoTimes, hv]

theorem validIoTimes_cons_of_invalid {x : ProcessStateInput} (xs : List ProcessStateInput)
    (hv : x.boIsIoValid = false) : validIoTimes (x :: xs) = validIoTimes xs := by
  simp [validIoTimes, hv]

theorem validIoTimes_eq_nil_iff (xs : List ProcessStateInput) :
    validIoTimes xs = [] ↔ ∀ x ∈ xs, x.boIsIoValid = false := by
  simp [validIoTimes]

/-- Without a valid sample no sample had to be covered. -/
theorem pairwise_of_validIoTimes_eq_nil {xs : List ProcessStateInput} (h : validIoTimes xs = []) :
    xs.Pairwise fun a b => b.boIsIoValid = true → a.boIsIoValid = true := by
  apply List.pairwise_of_forall_mem_list
  intro a _ b hb hvalid
  rw [(validIoTimes_eq_nil_iff xs).mp h b hb] at hvalid
  cases hvalid

/-- The steps before the valid samples stay within the time up to the last valid sample, and
they fill it exactly when an invalid sample has no valid one after it. -/
theorem coveredTime_span (xs : List ProcessStateInput) (t : ℚ)
    (htime : xs.Pairwise fun a b => a.timestamp < b.timestamp)
    (hstart : ∀ x ∈ xs, t < x.timestamp) :
    coveredTime t xs ≤ (validIoTimes xs).getLastD t - t ∧
    (coveredTime t xs = (validIoTimes xs).getLastD t - t ↔
      xs.Pairwise fun a b => b.boIsIoValid = true → a.boIsIoValid = true) := by
  induction xs generalizing t with
  | nil => simp [coveredTime, validIoTimes]
  | cons x xs ih =>
      obtain ⟨hlt, htail⟩ := List.pairwise_cons.mp htime
      obtain ⟨hle, hiff⟩ := ih x.timestamp htail hlt
      rw [List.pairwise_cons]
      cases hv : x.boIsIoValid with
      | true =>
          -- The step to `x` is covered, so both sides grow by it.
          have hcov : coveredTime t (x :: xs) = (x.timestamp - t) + coveredTime x.timestamp xs := by
            simp [coveredTime, hv]
          rw [validIoTimes_cons_of_valid xs hv, List.getLastD_cons, hcov]
          refine ⟨by linarith, ?_⟩
          rw [← hiff]
          constructor
          · intro h
            exact ⟨fun _ _ _ => rfl, by linarith⟩
          · intro h
            linarith [h.2]
      | false =>
          have hcov : coveredTime t (x :: xs) = coveredTime x.timestamp xs := by
            simp [coveredTime, hv]
          rw [validIoTimes_cons_of_invalid xs hv, hcov]
          by_cases hnil : validIoTimes xs = []
          · -- No valid sample is left: nothing is covered and nothing had to be.
            have hpair := pairwise_of_validIoTimes_eq_nil hnil
            have hzero := hiff.mpr hpair
            rw [hnil, List.getLastD_nil, sub_self] at hzero ⊢
            refine ⟨hzero.le, fun _ => ⟨fun y hy h => ?_, hpair⟩, fun _ => hzero⟩
            rw [(validIoTimes_eq_nil_iff xs).mp hnil y hy] at h
            cases h
          · -- The step to `x` is lost, because a valid sample follows.
            have hlast : ∀ d e : ℚ,
                (validIoTimes xs).getLastD d = (validIoTimes xs).getLastD e := by
              intro d e
              obtain ⟨y, ys, hys⟩ := List.exists_cons_of_ne_nil hnil
              rw [hys, List.getLastD_cons, List.getLastD_cons]
            rw [hlast x.timestamp t] at hle
            have hx := hstart x List.mem_cons_self
            refine ⟨by linarith, fun h => by linarith, fun h => ?_⟩
            have hall : ∀ y ∈ xs, y.boIsIoValid = false := fun y hy => by
              by_contra hy'
              have := h.1 y hy (Bool.eq_true_of_not_eq_false hy')
              cases this
            exact absurd ((validIoTimes_eq_nil_iff xs).mpr hall) hnil

/-- An invalid sample at the front is outside every gap. -/
theorem ioUninterrupted_cons_of_invalid {x : ProcessStateInput} (xs : List ProcessStateInput)
    (hv : x.boIsIoValid = false) : IoUninterrupted (x :: xs) ↔ IoUninterrupted xs := by
  constructor
  · intro h a b c hsub
    exact h a b c (hsub.cons x)
  · intro h a b c hsub ha hc
    rcases List.sublist_cons_iff.mp hsub with htail | ⟨r, hr, hsub'⟩
    · exact h a b c htail ha hc
    · obtain ⟨rfl, rfl⟩ := List.cons.inj hr
      rw [hv] at ha
      cases ha

/-- Behind a valid sample, a gap is an invalid sample with a valid one after it. -/
theorem ioUninterrupted_cons_of_valid {x : ProcessStateInput} (xs : List ProcessStateInput)
    (hv : x.boIsIoValid = true) : IoUninterrupted (x :: xs) ↔
      xs.Pairwise fun a b => b.boIsIoValid = true → a.boIsIoValid = true := by
  rw [List.pairwise_iff_forall_sublist]
  constructor
  · intro h b c hsub hc
    exact h x b c (hsub.cons_cons x) hv hc
  · intro h a b c hsub ha hc
    rcases List.sublist_cons_iff.mp hsub with htail | ⟨r, hr, hsub'⟩
    · exact h ((List.sublist_cons_self a [b, c]).trans htail) hc
    · obtain ⟨rfl, rfl⟩ := List.cons.inj hr
      exact h hsub' hc

/-- The accumulated time is the span of the valid samples exactly when no invalid sample
stands between two valid ones. -/
theorem coveredTimeFromFirst_eq_iff (xs : List ProcessStateInput)
    (htime : xs.Pairwise fun a b => a.timestamp < b.timestamp) :
    coveredTimeFromFirst xs = ioSpan xs ↔ IoUninterrupted xs := by
  induction xs with
  | nil => simp [coveredTimeFromFirst, ioSpan, validIoTimes, IoUninterrupted]
  | cons x xs ih =>
      obtain ⟨hlt, htail⟩ := List.pairwise_cons.mp htime
      cases hv : x.boIsIoValid with
      | false =>
          rw [ioUninterrupted_cons_of_invalid xs hv, ← ih htail, ioSpan,
            validIoTimes_cons_of_invalid xs hv]
          simp [coveredTimeFromFirst, hv, ioSpan]
      | true =>
          rw [ioUninterrupted_cons_of_valid xs hv,
            ← (coveredTime_span xs x.timestamp htail hlt).2, ioSpan,
            validIoTimes_cons_of_valid xs hv, List.getLastD_cons, List.headD_cons]
          simp [coveredTimeFromFirst, hv]

/-! ### The reported I/O rates -/

/-- The I/O rates of a reported entry are the kilobytes of the entry over `span`. -/
structure IoRatesOver (args : MetricsArguments) (ps : ProcessState) (span : ℚ)
    (psOut : ProcessState) : Prop where
  read : args.readRateRequested = true → span ≠ 0 →
    psOut.avgReadRateKbS = ps.totalReadKbytes.toNat / span
  write : args.writeRateRequested = true → span ≠ 0 →
    psOut.avgWriteRateKbS = ps.totalWriteKbytes.toNat / span

/-- The averaging loop divides by the accumulated time. -/
theorem ioRatesOver_computeAverages (args : MetricsArguments) (ps : ProcessState) :
    IoRatesOver args ps ps.ioTimeAcc (computeAverages args ps) where
  read := by
    intro hreq hne
    simp only [computeAverages, hreq, true_and]
    split_ifs <;> simp_all
  write := by
    intro hreq hne
    simp only [computeAverages, hreq, true_and]
    split_ifs <;> simp_all

/-- The I/O rates are taken over the time from the first I/O-valid sample of a process to
the last one exactly when no I/O-invalid sample stands between two I/O-valid ones. Then
`io_time_acc` is that time, and every report divides the accumulated kilobytes by it. -/
theorem ioTimeAcc_eq_ioSpan_iff (hz cpus : Int64) (prog : Bytes) (p : Int32)
    (samples own : List ProcessStateInput) (hown : (samples.filter fun x => x.pid = p) = own)
    (hne : own ≠ []) (htime : own.Pairwise fun a b => a.timestamp < b.timestamp) :
    let m := updateAll (initializedModule hz cpus prog) samples
    ∃ ps, Table.find? ProcessState.pid m.gProcessTable p = some ps ∧
      ((ps.ioTimeAcc = ioSpan own ∧
        ∀ (qsort : Qsort) (config : Config) (env : MetricsEnv) (args : MetricsArguments)
          (intervalMs : UInt64) (out : MetricsResult), env.arrMallocOk = true →
          processStatsPrintMetrics qsort config env args intervalMs m = .ok out →
          ∃ psOut, Table.find? ProcessState.pid out.module.gProcessTable p = some psOut ∧
            IoRatesOver args ps (ioSpan own) psOut) ↔
        IoUninterrupted own) := by
  intro m
  obtain ⟨x, xs, rfl⟩ := List.exists_cons_of_ne_nil hne
  obtain ⟨-, -, hfind, hreport⟩ := entry_of_samples hz cpus prog hown
  -- The new entry starts with uninitialised counters and no accumulated time.
  have hacc := ioTimeAcc_run_uninitialized (ticksOf hz) (cpusOf cpus) (x :: xs) (newProcess x)
    htime rfl
  rw [show (newProcess x).ioTimeAcc = 0 from rfl, zero_add] at hacc
  have hiff := coveredTimeFromFirst_eq_iff _ htime
  refine ⟨_, hfind, fun h => ?_, fun h => ?_⟩
  · rw [hacc] at h
    exact hiff.mp h.1
  · have hspan := hacc.trans (hiff.mpr h)
    refine ⟨hspan, fun qsort config env args intervalMs out ha hout => ?_⟩
    exact ⟨_, hreport qsort config env args intervalMs out ha hout,
      hspan ▸ ioRatesOver_computeAverages args _⟩

/-- A sample of process 1 at the given time, with or without I/O data. -/
def ioSampleAt (t : ℚ) (valid : Bool) : ProcessStateInput :=
  { sampleOfInit with timestamp := t, boIsIoValid := valid }

/-- Two valid samples with an invalid one before them: the rates are taken over the second
between the valid ones. -/
theorem ioTimeAcc_eq_ioSpan_leading_gap :
    ∃ ps, Table.find? ProcessState.pid (updateAll (initializedModule 100 1 [])
        [ioSampleAt 10 false, ioSampleAt 11 true, ioSampleAt 12 true]).gProcessTable 1 = some ps ∧
      ps.ioTimeAcc = 1 := by
  obtain ⟨ps, hfind, hiff⟩ := ioTimeAcc_eq_ioSpan_iff 100 1 [] 1
    [ioSampleAt 10 false, ioSampleAt 11 true, ioSampleAt 12 true]
    [ioSampleAt 10 false, ioSampleAt 11 true, ioSampleAt 12 true] rfl (by simp)
    (by decide +kernel)
  refine ⟨ps, hfind, (hiff.mpr ?_).1.trans (by decide +kernel)⟩
  refine (ioUninterrupted_cons_of_invalid _ rfl).mpr ?_
  exact (ioUninterrupted_cons_of_valid _ rfl).mpr (List.pairwise_singleton _ _)

/-- Three samples at the times 10, 11 and 12, the middle one without I/O data: two seconds
lie between the valid samples, and the entry has accumulated one. -/
theorem ioTimeAcc_short_after_gap :
    [ioSampleAt 10 true, ioSampleAt 11 false, ioSampleAt 12 true].Pairwise
      (fun a b => a.timestamp < b.timestamp) ∧
    (Table.find? ProcessState.pid (updateAll (initializedModule 100 1 [])
        [ioSampleAt 10 true, ioSampleAt 11 false, ioSampleAt 12 true]).gProcessTable 1).map
        ProcessState.ioTimeAcc = some 1 ∧
      ioSpan [ioSampleAt 10 true, ioSampleAt 11 false, ioSampleAt 12 true] = 2 := by
  decide +kernel

/-! ### The CPU usage of the intervals -/

/-- The CPU time of a sample in clock ticks, without the wrap of the C sum. -/
def cpuTicks (x : ProcessStateInput) : ℕ := x.utime.toNat + x.stime.toNat

/-- The intervals between consecutive samples: ticks per second, and the length. -/
def loadIntervals : List ProcessStateInput → List (ℚ × ℚ)
  | a :: b :: rest =>
      (((cpuTicks b : ℚ) - cpuTicks a) / (b.timestamp - a.timestamp), b.timestamp - a.timestamp)
        :: loadIntervals (b :: rest)
  | _ => []

/-- `100 * (cn - c1) / (ticks per second * online CPUs * (tn - t1))`, the usage over the whole
observed time. -/
def lifetimeCpuUsage (hz cpus : Int64) (xs : List ProcessStateInput) : ℚ :=
  100 * (((xs.map cpuTicks).getLastD 0 : ℚ) - (xs.map cpuTicks).headD 0)
    / (hz.toInt * cpus.toInt
      * ((xs.map ProcessStateInput.timestamp).getLastD 0
        - (xs.map ProcessStateInput.timestamp).headD 0))

/-- The entry has seen `a` as its last sample. -/
structure AfterSample (a : ProcessStateInput) (ps : ProcessState) : Prop where
  records : 0 < ps.numberOfRecords
  ticks : ps.prevCpuTicks = a.utime + a.stime
  time : ps.prevTimestamp = a.timestamp

section CpuUsage
variable (hz cpus : Int64)

/-- The CPU accumulators after an update are those of its CPU part. -/
theorem cpu_updateEntry (x : ProcessStateInput) (ps : ProcessState) :
    (updateEntry hz cpus x ps).cpuUsageSum = (calculateCpuData hz cpus x ps).cpuUsageSum ∧
    (updateEntry hz cpus x ps).cpuUsageSamples
      = (calculateCpuData hz cpus x ps).cpuUsageSamples :=
  ⟨(sameCore_optional x _).cpuUsageSum, (sameCore_optional x _).cpuUsageSamples⟩

theorem afterSample_updateEntry (x : ProcessStateInput) (ps : ProcessState) :
    AfterSample x (updateEntry hz cpus x ps) where
  records := Nat.succ_pos _
  ticks := (sameCore_optional x _).prevCpuTicks
  time := rfl

/-- The C sum of the two tick counters when it does not wrap. -/
theorem toNat_utime_add_stime {x : ProcessStateInput} (h : cpuTicks x < 2 ^ 64) :
    (x.utime + x.stime).toNat = cpuTicks x := by
  rw [UInt64.toNat_add]
  exact Nat.mod_eq_of_lt h

/-- The usage of one interval is its load, scaled by the two divisors of the module. -/
theorem computeCpuUsage_eq {a b : ProcessStateInput} (ha : cpuTicks a < 2 ^ 64)
    (hb : cpuTicks b < 2 ^ 64) (hle : cpuTicks a ≤ cpuTicks b) (htime : a.timestamp < b.timestamp) :
    computeCpuUsage hz cpus (a.utime + a.stime) (b.utime + b.stime) a.timestamp b.timestamp
      = 100 / (hz.toInt * cpus.toInt)
        * (((cpuTicks b : ℚ) - cpuTicks a) / (b.timestamp - a.timestamp)) := by
  have hsub : ((b.utime + b.stime) - (a.utime + a.stime)).toNat = cpuTicks b - cpuTicks a := by
    rw [UInt64.toNat_sub_of_le, toNat_utime_add_stime ha, toNat_utime_add_stime hb]
    rw [UInt64.le_iff_toNat_le, toNat_utime_add_stime ha, toNat_utime_add_stime hb]
    exact hle
  rw [computeCpuUsage, if_neg (by linarith), hsub, Nat.cast_sub hle]
  ring

/-- A run adds the scaled loads of its intervals, and counts them. -/
theorem cpuUsage_run (a : ProcessStateInput) (xs : List ProcessStateInput) (ps : ProcessState)
    (hps : AfterSample a ps) (hwrap : ∀ x ∈ a :: xs, cpuTicks x < 2 ^ 64)
    (htime : (a :: xs).Pairwise fun a b => a.timestamp < b.timestamp)
    (hmono : (a :: xs).Pairwise fun a b => cpuTicks a ≤ cpuTicks b) :
    (updateRun hz cpus ps xs).cpuUsageSum = ps.cpuUsageSum
      + 100 / (hz.toInt * cpus.toInt) * ((loadIntervals (a :: xs)).map Prod.fst).sum ∧
    (updateRun hz cpus ps xs).cpuUsageSamples
      = ps.cpuUsageSamples + (loadIntervals (a :: xs)).length := by
  induction xs generalizing a ps with
  | nil => simp [updateRun, loadIntervals]
  | cons b xs ih =>
      obtain ⟨hlt, htail⟩ := List.pairwise_cons.mp htime
      obtain ⟨hle, hmtail⟩ := List.pairwise_cons.mp hmono
      have hb := List.mem_cons_self (a := b) (l := xs)
      have hwa := hwrap a List.mem_cons_self
      have hwb := hwrap b (List.mem_cons_of_mem a hb)
      -- The interval up to `b` passes the two tests of the code.
      have hticks : b.utime + b.stime ≥ ps.prevCpuTicks := by
        rw [hps.ticks, ge_iff_le, UInt64.le_iff_toNat_le, toNat_utime_add_stime hwa,
          toNat_utime_add_stime hwb]
        exact hle b hb
      have hdelta : b.timestamp - ps.prevTimestamp > 0 := by
        rw [hps.time]
        linarith [hlt b hb]
      have hstep := cpu_updateEntry hz cpus b ps
      simp only [calculateCpuData, hps.records, hticks, hdelta, and_self, if_true] at hstep
      rw [hps.ticks, hps.time, computeCpuUsage_eq hz cpus hwa hwb (hle b hb) (hlt b hb)] at hstep
      obtain ⟨ihsum, ihcount⟩ := ih b (updateEntry hz cpus b ps)
        (afterSample_updateEntry hz cpus b ps) (fun x hx => hwrap x (List.mem_cons_of_mem a hx))
        htail hmtail
      constructor
      · show (updateRun hz cpus (updateEntry hz cpus b ps) xs).cpuUsageSum = _
        rw [ihsum, hstep.1, loadIntervals, List.map_cons, List.sum_cons]
        ring
      · show (updateRun hz cpus (updateEntry hz cpus b ps) xs).cpuUsageSamples = _
        rw [ihcount, hstep.2, loadIntervals, List.length_cons]
        omega

/-- The CPU accumulators of an entry: the first sample has no interval, every later one adds
the interval before it. -/
theorem cpuUsage_entry (a : ProcessStateInput) (xs : List ProcessStateInput)
    (hwrap : ∀ x ∈ a :: xs, cpuTicks x < 2 ^ 64)
    (htime : (a :: xs).Pairwise fun a b => a.timestamp < b.timestamp)
    (hmono : (a :: xs).Pairwise fun a b => cpuTicks a ≤ cpuTicks b) :
    (updateRun hz cpus (newProcess a) (a :: xs)).cpuUsageSum
      = 100 / (hz.toInt * cpus.toInt) * ((loadIntervals (a :: xs)).map Prod.fst).sum ∧
    (updateRun hz cpus (newProcess a) (a :: xs)).cpuUsageSamples
      = (loadIntervals (a :: xs)).length := by
  have hfirst := cpu_updateEntry hz cpus a (newProcess a)
  simp only [calculateCpuData, newProcess, lt_irrefl, false_and, if_false, gt_iff_lt] at hfirst
  have hrun := cpuUsage_run hz cpus a xs (updateEntry hz cpus a (newProcess a))
    (afterSample_updateEntry hz cpus a _) hwrap htime hmono
  simp only [newProcess] at hrun
  rw [hfirst.1, hfirst.2, zero_add, Nat.zero_add] at hrun
  exact hrun

end CpuUsage

/-! ### The reported CPU average -/

/-- The averaging loop divides the sum of the usages by their number. -/
theorem averageCpuUsage_computeAverages (args : MetricsArguments) (ps : ProcessState)
    (hreq : args.cpuAverageRequested = true) (hne : ps.cpuUsageSamples ≠ 0) :
    (computeAverages args ps).averageCpuUsage = ps.cpuUsageSum / ps.cpuUsageSamples := by
  simp only [computeAverages, hreq, hne, true_and, ne_eq, not_false_eq_true, if_true]
  split_ifs <;> rfl

/-- The ticks and the lengths of the intervals add up to the whole observed time. -/
theorem sum_loadIntervals (a : ProcessStateInput) (xs : List ProcessStateInput)
    (htime : (a :: xs).Pairwise fun a b => a.timestamp < b.timestamp) :
    ((loadIntervals (a :: xs)).map fun i => i.1 * i.2).sum
      = ((xs.map cpuTicks).getLastD (cpuTicks a) : ℚ) - cpuTicks a ∧
    ((loadIntervals (a :: xs)).map Prod.snd).sum
      = (xs.map ProcessStateInput.timestamp).getLastD a.timestamp - a.timestamp := by
  induction xs generalizing a with
  | nil => simp [loadIntervals]
  | cons b xs ih =>
      obtain ⟨hlt, htail⟩ := List.pairwise_cons.mp htime
      obtain ⟨ihticks, ihtime⟩ := ih b htail
      have hne : b.timestamp - a.timestamp ≠ 0 := by
        have := hlt b List.mem_cons_self
        linarith
      constructor
      · rw [loadIntervals, List.map_cons, List.sum_cons, ihticks, List.map_cons,
          List.getLastD_cons]
        rw [div_mul_cancel₀ _ hne]
        ring
      · rw [loadIntervals, List.map_cons, List.sum_cons, ihtime, List.map_cons,
          List.getLastD_cons]
        ring

/-- The usage over the whole time is the load over the whole time, scaled. -/
theorem lifetimeCpuUsage_eq (hz cpus : Int64) (a : ProcessStateInput)
    (xs : List ProcessStateInput)
    (htime : (a :: xs).Pairwise fun a b => a.timestamp < b.timestamp) :
    lifetimeCpuUsage hz cpus (a :: xs)
      = 100 / (hz.toInt * cpus.toInt) * timeMean (loadIntervals (a :: xs)) := by
  obtain ⟨hticks, htimes⟩ := sum_loadIntervals a xs htime
  rw [timeMean, hticks, htimes, lifetimeCpuUsage]
  simp only [List.map_cons, List.getLastD_cons, List.headD_cons]
  rw [div_mul_div_comm]

/-- The last sample is later than the first one. -/
theorem timestamp_lt_last (a b : ProcessStateInput) (xs : List ProcessStateInput)
    (htime : (a :: b :: xs).Pairwise fun a b => a.timestamp < b.timestamp) :
    a.timestamp < ((b :: xs).map ProcessStateInput.timestamp).getLastD a.timestamp := by
  rw [List.map_cons, List.getLastD_cons]
  refine getLastD_of_forall ((List.pairwise_cons.mp htime).1 b List.mem_cons_self) fun t ht => ?_
  obtain ⟨x, hx, rfl⟩ := List.mem_map.mp ht
  exact (List.pairwise_cons.mp htime).1 x (List.mem_cons_of_mem b hx)

/-- The divisors of the module are positive. -/
theorem ticksOf_pos (hz : Int64) : 0 < (ticksOf hz).toInt := by
  rw [ticksOf]
  split
  · rename_i h
    exact Int64.lt_iff_toInt_lt.mp h
  · decide

theorem cpusOf_pos (cpus : Int64) : 0 < (cpusOf cpus).toInt := by
  rw [cpusOf]
  split
  · rename_i h
    exact Int64.lt_iff_toInt_lt.mp h
  · decide

/-- The average CPU usage in a report is the usage over the observed time exactly when the
load of the intervals does not vary together with their length. -/
theorem averageCpuUsage_eq_lifetime_iff (hz cpus : Int64) (prog : Bytes) (p : Int32)
    (samples own : List ProcessStateInput) (hown : (samples.filter fun x => x.pid = p) = own)
    (hlen : 2 ≤ own.length) (htime : own.Pairwise fun a b => a.timestamp < b.timestamp)
    (hwrap : ∀ x ∈ own, cpuTicks x < 2 ^ 64)
    (hmono : own.Pairwise fun a b => cpuTicks a ≤ cpuTicks b)
    (qsort : Qsort) (config : Config) (env : MetricsEnv) (args : MetricsArguments)
    (intervalMs : UInt64) (out : MetricsResult) (ha : env.arrMallocOk = true)
    (hreq : args.cpuAverageRequested = true)
    (hout : processStatsPrintMetrics qsort config env args intervalMs
      (updateAll (initializedModule hz cpus prog) samples) = .ok out) :
    ∃ psOut, Table.find? ProcessState.pid out.module.gProcessTable p = some psOut ∧
      (psOut.averageCpuUsage = lifetimeCpuUsage (ticksOf hz) (cpusOf cpus) own ↔
        coVariation (loadIntervals own) = 0) := by
  obtain ⟨a, tail, rfl⟩ : ∃ a tail, own = a :: tail :=
    List.exists_cons_of_ne_nil (List.ne_nil_of_length_pos (by omega))
  obtain ⟨b, xs, rfl⟩ : ∃ b xs, tail = b :: xs :=
    List.exists_cons_of_ne_nil (List.ne_nil_of_length_pos (by rw [List.length_cons] at hlen; omega))
  obtain ⟨-, -, -, hreport⟩ := entry_of_samples hz cpus prog hown
  obtain ⟨hsum, hcount⟩ := cpuUsage_entry (ticksOf hz) (cpusOf cpus) a (b :: xs) hwrap htime hmono
  refine ⟨_, hreport qsort config env args intervalMs out ha hout, ?_⟩
  -- The average and the lifetime usage are the two means of the intervals, scaled alike.
  have hne : loadIntervals (a :: b :: xs) ≠ [] := by simp [loadIntervals]
  have hscale : (100 : ℚ) / ((ticksOf hz).toInt * (cpusOf cpus).toInt) ≠ 0 := by
    have hz0 : ((ticksOf hz).toInt : ℚ) ≠ 0 := Int.cast_ne_zero.mpr (ticksOf_pos hz).ne'
    have hc0 : ((cpusOf cpus).toInt : ℚ) ≠ 0 := Int.cast_ne_zero.mpr (cpusOf_pos cpus).ne'
    exact div_ne_zero (by norm_num) (mul_ne_zero hz0 hc0)
  have hdur : ((loadIntervals (a :: b :: xs)).map Prod.snd).sum ≠ 0 := by
    rw [(sum_loadIntervals a (b :: xs) htime).2]
    exact (sub_pos.mpr (timestamp_lt_last a b xs htime)).ne'
  have hlen0 : (loadIntervals (a :: b :: xs)).length ≠ 0 := by
    simpa using hne
  rw [averageCpuUsage_computeAverages args _ hreq (hcount ▸ hlen0), hsum, hcount, mul_div_assoc,
    lifetimeCpuUsage_eq _ _ a (b :: xs) htime, mul_right_inj' hscale]
  exact mean_eq_timeMean_iff _ hne hdur

/-- Samples at equal distances have no such variation, and neither has a constant load. -/
theorem coVariation_loadIntervals_eq_zero (xs : List ProcessStateInput)
    (h : (∃ d, ∀ i ∈ loadIntervals xs, i.2 = d) ∨ ∃ r, ∀ i ∈ loadIntervals xs, i.1 = r) :
    coVariation (loadIntervals xs) = 0 := by
  rcases h with ⟨d, hd⟩ | ⟨r, hr⟩
  · exact coVariation_of_equal_durations _ d hd
  · exact coVariation_of_equal_rates _ r hr

/-- A sample of process 1 at the given time with the given user ticks. -/
def cpuSampleAt (t : ℚ) (ticks : UInt64) : ProcessStateInput :=
  { sampleOfInit with timestamp := t, utime := ticks, stime := 0 }

/-- A report on the average CPU usage with the default configuration completes, and leaves
the averaged table behind. -/
theorem exists_cpuReport (samples : List ProcessStateInput) (hne : samples ≠ []) :
    ∃ out, processStatsPrintMetrics Qsort.mergeSort configDefault ⟨true, true, true, none⟩
        { cpuAverageRequested := true, cpuAveragePidsToDisplay := 1 } 100
        (updateAll (initializedModule 100 1 []) samples) = .ok out ∧
      out.module.gProcessTable
        = averagedTable { cpuAverageRequested := true, cpuAveragePidsToDisplay := 1 }
          (updateAll (initializedModule 100 1 []) samples) := by
  have hopens : MetricsFileOpens configDefault ⟨true, true, true, none⟩ := ⟨rfl, rfl, rfl⟩
  rw [processStatsPrintMetrics_eq _ _ _ _ _ _ (isModuleInitialized_updateAll samples _)
    (table_updateAll_ne_nil _ _ _ _ hne) rfl, if_pos hopens]
  exact ⟨_, rfl, rfl⟩

/-- Three samples, one second apart: a busy second and an idle one are 50 percent. -/
theorem averageCpuUsage_equal_spacing :
    ∃ out psOut, processStatsPrintMetrics Qsort.mergeSort configDefault ⟨true, true, true, none⟩
        { cpuAverageRequested := true, cpuAveragePidsToDisplay := 1 } 100
        (updateAll (initializedModule 100 1 [])
          [cpuSampleAt 10 0, cpuSampleAt 11 100, cpuSampleAt 12 100]) = .ok out ∧
      Table.find? ProcessState.pid out.module.gProcessTable 1 = some psOut ∧
      psOut.averageCpuUsage = 50 := by
  obtain ⟨out, hout, -⟩ := exists_cpuReport
    [cpuSampleAt 10 0, cpuSampleAt 11 100, cpuSampleAt 12 100] (by simp)
  obtain ⟨psOut, hfind, hiff⟩ := averageCpuUsage_eq_lifetime_iff 100 1 [] 1
    [cpuSampleAt 10 0, cpuSampleAt 11 100, cpuSampleAt 12 100]
    [cpuSampleAt 10 0, cpuSampleAt 11 100, cpuSampleAt 12 100] rfl (by simp) (by decide +kernel)
    (by decide +kernel) (by decide +kernel) _ _ _ _ _ out rfl rfl hout
  exact ⟨out, psOut, hout, hfind, (hiff.mpr (by decide +kernel)).trans (by decide +kernel)⟩

/-- A busy second and nine idle ones: the process used 10 percent of the observed time, and
the report says 50. -/
theorem averageCpuUsage_unequal_spacing :
    ∃ out, processStatsPrintMetrics Qsort.mergeSort configDefault ⟨true, true, true, none⟩
        { cpuAverageRequested := true, cpuAveragePidsToDisplay := 1 } 100
        (updateAll (initializedModule 100 1 [])
          [cpuSampleAt 10 0, cpuSampleAt 11 100, cpuSampleAt 20 100]) = .ok out ∧
      (Table.find? ProcessState.pid out.module.gProcessTable 1).map
        ProcessState.averageCpuUsage = some 50 ∧
      lifetimeCpuUsage 100 1 [cpuSampleAt 10 0, cpuSampleAt 11 100, cpuSampleAt 20 100] = 10 := by
  obtain ⟨out, hout, htable⟩ := exists_cpuReport
    [cpuSampleAt 10 0, cpuSampleAt 11 100, cpuSampleAt 20 100] (by simp)
  refine ⟨out, hout, ?_, by decide +kernel⟩
  rw [htable]
  decide +kernel

end ProcessAnalyzer.Stats
