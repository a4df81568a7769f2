import ProcessAnalyzer.Model.MainLoop
import ProcessAnalyzer.Proofs.Report

/-!
# `ProcessAnalyzer.Proofs.Interval`: the sampling interval on its way

The argument of `-i` is a number with a unit. `parse_duration_ms` multiplies it in 64-bit
arithmetic, `getTimeFd` splits the product into seconds and nanoseconds, and
`metrics_json_begin` takes it as a 32-bit parameter.

`denotedMs` is the product as a mathematical number. The split of `getTimeFd` is exact for
every stored value (`getTimeFd_exact`), so the two conversions around it decide:
`intervalAgrees_iff` says that the three places agree with the argument exactly when the
product is below `2 ^ 32`. Above that, the report has the low 32 bits of it, and from
`2 ^ 64` on the timer runs with the low 64 bits. These can be 0, which disarms the timer.
-/

set_option autoImplicit false

namespace ProcessAnalyzer

open ProcessAnalyzer.Lib ProcessAnalyzer.Stats

/-! ### The number that an argument denotes -/

/-- The milliseconds of a unit. -/
def unitMs (unit : Bytes) : Option ℕ :=
  if unit = ascii "ms" then some 1
  else if unit = ascii "s" then some 1000
  else if unit = ascii "m" then some 60000
  else none

/-- The milliseconds that an argument denotes: its number times its unit. -/
def denotedMs (arg : Bytes) : Option ℕ :=
  match scanInt arg with
  | none => none
  | some (value, unit) => (unitMs unit).map fun factor => value.toNat * factor

/-- An accepted argument denotes a positive number, and its low 64 bits are stored. -/
theorem parseDurationMs_spec {arg : Bytes} {ms : UInt64} (h : parseDurationMs arg = some ms) :
    ∃ product, denotedMs arg = some product ∧ 0 < product ∧ ms = UInt64.ofNat product := by
  unfold parseDurationMs at h
  split at h
  · cases h
  · cases hscan : scanInt arg with
    | none =>
        rw [hscan] at h
        cases h
    | some scanned =>
        obtain ⟨value, unit⟩ := scanned
        have hdenoted : denotedMs arg = (unitMs unit).map fun factor => value.toNat * factor := by
          rw [denotedMs, hscan]
        rw [hdenoted]
        rw [hscan] at h
        replace h : (if value > 2 ^ 63 - 1 ∨ value ≤ 0 then none
          else if unit = ascii "ms" then some (UInt64.ofNat value.toNat)
          else if unit = ascii "s" then some (UInt64.ofNat value.toNat * 1000)
          else if unit = ascii "m" then some (UInt64.ofNat value.toNat * 60 * 1000)
          else none) = some ms := h
        split at h
        · cases h
        · rename_i hrange
          have hpos : 0 < value.toNat := by omega
          unfold unitMs
          split at h
          · rename_i hunit
            exact ⟨value.toNat, by simp [hunit], hpos, (Option.some.inj h).symm⟩
          · split at h
            · rename_i hms hs
              refine ⟨value.toNat * 1000, by rw [if_neg hms, if_pos hs]; rfl, by omega, ?_⟩
              rw [← Option.some.inj h, UInt64.ofNat_mul]
              rfl
            · split at h
              · rename_i hms hs hm
                refine ⟨value.toNat * 60000, ?_, by omega, ?_⟩
                · rw [if_neg hms, if_neg hs, if_pos hm]
                  rfl
                · rw [← Option.some.inj h, UInt64.ofNat_mul, UInt64.mul_assoc]
                  rfl
              · cases h

/-! ### The timer -/

/-- The timer runs with exactly the stored interval. -/
theorem getTimeFd_exact (ms : UInt64) {spec : ItimerSpec} (h : getTimeFd true true ms = .ok spec) :
    spec.itInterval = spec.itValue ∧
    spec.itValue.tvSec.toInt * 1000 + spec.itValue.tvNsec.toInt / 1000000 = ms.toNat ∧
    0 ≤ spec.itValue.tvNsec.toInt ∧ spec.itValue.tvNsec.toInt < 10 ^ 9 := by
  obtain rfl := Except.ok.inj h
  have hlt := ms.toNat_lt
  have hdiv : (ms / 1000).toNat = ms.toNat / 1000 := by simp
  have hmod : (ms % 1000 * 1000000).toNat = ms.toNat % 1000 * 1000000 := by
    simp only [UInt64.toNat_mul, UInt64.toNat_mod, UInt64.reduceToNat]
    omega
  have hsec : ((ms / 1000).toInt64).toInt = (ms.toNat / 1000 : ℕ) := by
    rw [toInt_toInt64_of_lt (by omega), hdiv]
  have hnsec : ((ms % 1000 * 1000000).toInt64).toInt = (ms.toNat % 1000 * 1000000 : ℕ) := by
    rw [toInt_toInt64_of_lt (by omega), hmod]
  refine ⟨rfl, ?_, ?_, ?_⟩
  · show ((ms / 1000).toInt64).toInt * 1000 + ((ms % 1000 * 1000000).toInt64).toInt / 1000000 = _
    rw [hsec, hnsec]
    omega
  · show 0 ≤ ((ms % 1000 * 1000000).toInt64).toInt
    rw [hnsec]
    omega
  · show ((ms % 1000 * 1000000).toInt64).toInt < _
    rw [hnsec]
    omega

/-! ### The report -/

/-- The number behind the key `interval_ms` in the text of `metrics.json`. -/
def intervalMsOf : List JsonPiece → Option Int
  | [] => none
  | .text t :: .int z :: rest =>
      if t = "\",\n\t\t\"interval_ms\": " then some z else intervalMsOf rest
  | _ :: rest => intervalMsOf rest

/-- The header has the low 32 bits of the stored interval. -/
theorem intervalMsOf_header (env : MetricsEnv) (m : StatsModule) (ms : UInt64)
    (rest : List JsonPiece) :
    intervalMsOf (headerPieces env (metaFields m ms) ++ rest)
      = some ((ms.toNat % 2 ^ 32 : ℕ) : Int) := by
  simp [headerPieces, metaFields, intervalMsOf]

/-! ### The three places -/

/-- The stored interval, the timer and the report all have the number `product`. -/
structure IntervalAgrees (product : ℕ) (intervalMs : UInt64) : Prop where
  stored : intervalMs.toNat = product
  timer : ∀ spec, getTimeFd true true intervalMs = .ok spec →
    spec.itInterval = spec.itValue ∧
    spec.itValue.tvSec.toInt * 1000 + spec.itValue.tvNsec.toInt / 1000000 = product ∧
    0 ≤ spec.itValue.tvNsec.toInt ∧ spec.itValue.tvNsec.toInt < 10 ^ 9
  reported : ∀ (qsort : Qsort) (config : Config) (env : MetricsEnv) (args : MetricsArguments)
    (m : StatsModule) (out : MetricsResult),
    processStatsPrintMetrics qsort config env args intervalMs m = .ok out →
      ∀ file ∈ out.metricsFile, intervalMsOf file = some (product : Int)

/-- A report on one process, with the default configuration, has a file. -/
theorem exists_metricsFile (intervalMs : UInt64) :
    ∃ out file, processStatsPrintMetrics Qsort.mergeSort configDefault ⟨true, true, true, none⟩ {}
        intervalMs (updateAll (initializedModule 100 1 []) [sampleOfInit]) = .ok out ∧
      out.metricsFile = some file ∧
      intervalMsOf file = some ((intervalMs.toNat % 2 ^ 32 : ℕ) : Int) := by
  have htable := table_updateAll_ne_nil 100 1 [] [sampleOfInit] (by simp)
  have hrun := processStatsPrintMetrics_eq Qsort.mergeSort configDefault ⟨true, true, true, none⟩ {}
    intervalMs _ rfl htable rfl
  rw [if_pos ⟨rfl, rfl, rfl⟩] at hrun
  rcases processStatsPrintMetrics_cases _ _ _ _ _ _ hrun with ⟨hearly, -⟩ | ⟨-, blocks, -, -, hout⟩
  · rcases hearly with hinit | hempty | hmalloc
    · cases hinit
    · exact absurd hempty htable
    · cases hmalloc
  · refine ⟨_, _, hrun.trans (congrArg Except.ok hout), rfl, ?_⟩
    rw [List.append_assoc]
    exact intervalMsOf_header _ _ _ _

/-- The low bits of a product agree with it everywhere exactly when it fits 32 bits. -/
theorem intervalAgrees_ofNat_iff (product : ℕ) :
    IntervalAgrees product (UInt64.ofNat product) ↔ product < 2 ^ 32 := by
  constructor
  · intro h
    obtain ⟨out, file, hrun, hfile, hvalue⟩ := exists_metricsFile (UInt64.ofNat product)
    have hreported := h.reported _ _ _ _ _ out hrun file hfile
    rw [hvalue, h.stored] at hreported
    have heq : product % 2 ^ 32 = product := by exact_mod_cast Option.some.inj hreported
    omega
  · intro h
    have hstored : (UInt64.ofNat product).toNat = product := by
      rw [UInt64.toNat_ofNat']
      omega
    constructor
    · exact hstored
    · intro spec hspec
      have hexact := getTimeFd_exact _ hspec
      rw [hstored] at hexact
      exact hexact
    · intro qsort config env args m out hrun file hfile
      rcases processStatsPrintMetrics_cases _ _ _ _ _ _ hrun with
        ⟨-, rfl⟩ | ⟨-, blocks, -, -, rfl⟩
      · cases hfile
      · obtain rfl := Option.some.inj hfile
        rw [List.append_assoc, intervalMsOf_header, hstored, Nat.mod_eq_of_lt h]

/-- Every accepted argument of `-i` denotes a positive number. The stored interval, the timer
and `metrics.json` agree with it exactly when it is below `2 ^ 32`. -/
theorem intervalAgrees_iff (alloc : FilterAlloc) (s s' : ParseState) (arg : Bytes)
    (h : parseOption alloc s (.interval arg) = .ok s') :
    ∃ product, denotedMs arg = some product ∧ 0 < product ∧
      (IntervalAgrees product s'.cfg.intervalMs ↔ product < 2 ^ 32) := by
  simp only [parseOption] at h
  split at h
  · rename_i ms hms
    obtain ⟨product, hdenoted, hpos, rfl⟩ := parseDurationMs_spec hms
    obtain rfl := Except.ok.inj h
    exact ⟨product, hdenoted, hpos, intervalAgrees_ofNat_iff product⟩
  · cases h

/-- `-i 1500ms`. -/
theorem intervalAgrees_1500ms :
    ∃ s', parseOption FilterAlloc.ok {} (.interval (ascii "1500ms")) = .ok s' ∧
    denotedMs (ascii "1500ms") = some 1500 ∧ IntervalAgrees 1500 s'.cfg.intervalMs := by
  refine ⟨_, rfl, by decide, ?_⟩
  obtain ⟨product, hdenoted, -, hiff⟩ :=
    intervalAgrees_iff FilterAlloc.ok {} _ (ascii "1500ms") rfl
  obtain rfl : 1500 = product := Option.some.inj (Eq.trans (by decide) hdenoted)
  exact hiff.mpr (by decide)

/-- `-i 2305843009213693952s` is accepted and stored as 0, which disarms the timer.
`-i 72000m` is stored exactly, and reported as 25032704. -/
theorem not_intervalAgrees_wrapped :
    (∃ s', parseOption FilterAlloc.ok {} (.interval (ascii "2305843009213693952s")) = .ok s' ∧
      denotedMs (ascii "2305843009213693952s") = some 2305843009213693952000 ∧
      s'.cfg.intervalMs = 0 ∧ getTimeFd true true s'.cfg.intervalMs = .ok ⟨⟨0, 0⟩, ⟨0, 0⟩⟩ ∧
      ¬ IntervalAgrees 2305843009213693952000 s'.cfg.intervalMs) ∧
    (∃ s', parseOption FilterAlloc.ok {} (.interval (ascii "72000m")) = .ok s' ∧
      denotedMs (ascii "72000m") = some 4320000000 ∧ s'.cfg.intervalMs = 4320000000 ∧
      s'.cfg.intervalMs.toUInt32 = 25032704 ∧ ¬ IntervalAgrees 4320000000 s'.cfg.intervalMs) := by
  constructor
  · refine ⟨_, rfl, by decide, by decide, by decide, fun h => ?_⟩
    exact absurd h.stored (by decide)
  · refine ⟨_, rfl, by decide, by decide, by decide, fun h => ?_⟩
    have hwrap : ¬ (4320000000 : ℕ) < 2 ^ 32 := by decide
    exact hwrap ((intervalAgrees_ofNat_iff 4320000000).mp h)

end ProcessAnalyzer
