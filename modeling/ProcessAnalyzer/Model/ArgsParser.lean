import ProcessAnalyzer.Lib.CScan
import ProcessAnalyzer.Model.Config
import ProcessAnalyzer.Model.Metrics

/-!
# `ProcessAnalyzer.Model.ArgsParser`: the command line

`code/args_parser/args_parser.c`: the argument parsers, the white list of the two filter
options with its growing buffers, and the option loop of `ap_parse_args`. `getopt_long`
belongs to the C library. The model starts from the sequence of options that it returns.

Allocations are answered by an oracle (`FilterAlloc`). A failed allocation ends the
program's start, so one answer per buffer size and per stored name is fully general.
-/

set_option autoImplicit false

namespace ProcessAnalyzer

open ProcessAnalyzer.Lib ProcessAnalyzer.Stats

/-! ### The white list -/

/-- `ap_pid_whitelist`. The counts are the lengths of the lists. -/
structure ApPidWhitelist where
  filterPids : List Int32 := []
  filterPidsCapacity : ℕ := 0
  filterComms : List Bytes := []
  filterCommsCapacity : ℕ := 0
  deriving DecidableEq

/-- Whether the allocations succeed: `realloc` of a buffer, by its new capacity, and
`malloc` of a name, by the number of names that are stored already. -/
structure FilterAlloc where
  reallocPids : ℕ → Bool
  reallocComms : ℕ → Bool
  mallocComm : ℕ → Bool

/-- An oracle under which every allocation succeeds. -/
def FilterAlloc.ok : FilterAlloc := ⟨fun _ => true, fun _ => true, fun _ => true⟩

/-- `AP_INITIAL_FILTER_CAPACITY`. -/
def apInitialFilterCapacity : ℕ := 8

/-- The capacity after a growth: the initial one, or twice the old one. -/
def grownCapacity (capacity : ℕ) : ℕ :=
  if capacity = 0 then apInitialFilterCapacity else capacity * 2

/-- `append_filter_pid`. `none` is `parse_args_error`. -/
def appendFilterPid (alloc : FilterAlloc) (w : ApPidWhitelist) (pid : Int32) :
    Option ApPidWhitelist :=
  if pid ∈ w.filterPids then some w
  else if w.filterPids.length = w.filterPidsCapacity then
    let newCapacity := grownCapacity w.filterPidsCapacity
    if alloc.reallocPids newCapacity then
      some { w with filterPids := w.filterPids ++ [pid], filterPidsCapacity := newCapacity }
    else none
  else some { w with filterPids := w.filterPids ++ [pid] }

/-- `append_filter_comm`. -/
def appendFilterComm (alloc : FilterAlloc) (w : ApPidWhitelist) (comm : Bytes) :
    Option ApPidWhitelist :=
  if comm ∈ w.filterComms then some w
  else
    let grown : Option ApPidWhitelist :=
      if w.filterComms.length = w.filterCommsCapacity then
        let newCapacity := grownCapacity w.filterCommsCapacity
        if alloc.reallocComms newCapacity then some { w with filterCommsCapacity := newCapacity }
        else none
      else some w
    grown.bind fun w =>
      if alloc.mallocComm w.filterComms.length then
        some { w with filterComms := w.filterComms ++ [comm] }
      else none

/-! ### Argument parsers -/

/-- The loop of `parse_pid_token`. -/
def parsePidDigits : Bytes → ℕ → Option Int32
  -- zero is not a PID
  | [], value => if value = 0 then none else some (Int32.ofNat value)
  | c :: rest, value =>
      if isDigit c then
        let value := value * 10 + (c.toNat - 48)
        if value > 2147483647 then none else parsePidDigits rest value
      else none

/-- `parse_pid_token`. -/
def parsePidToken (token : Bytes) : Option Int32 :=
  if token = [] then none else parsePidDigits token 0

/-- `filter_parse_type`. -/
inductive FilterParseType where
  | pid
  | comm
  deriving DecidableEq

/-- What `parse_filter_pid_list` does with one token. -/
def appendFilterToken (alloc : FilterAlloc) (type : FilterParseType) (w : ApPidWhitelist)
    (token : Bytes) : Option ApPidWhitelist :=
  match type with
  | .pid => (parsePidToken token).bind (appendFilterPid alloc w)
  | .comm => appendFilterComm alloc w token

/-- The `while (1)` loop of `parse_filter_pid_list`. The segment ends at the next comma or
at the end of the argument, and the token is the segment without white space at its
ends. -/
def parseFilterSegments (alloc : FilterAlloc) (type : FilterParseType) (cursor : Bytes)
    (w : ApPidWhitelist) : Option ApPidWhitelist :=
  let token := trim (cursor.takeWhile (· ≠ 44))
  -- an empty segment refuses the whole list
  if token = [] then none
  else
    (appendFilterToken alloc type w token).bind fun w =>
      match _h : cursor.dropWhile (· ≠ 44) with
      | [] => some w
      | _ :: rest =>
          let next := rest.dropWhile isSpace
          -- a comma at the end refuses it as well
          if next = [] then none else parseFilterSegments alloc type next w
termination_by cursor.length
decreasing_by
  have hlen := (List.dropWhile_sublist (l := cursor) (· ≠ 44)).length_le
  have hnext := (List.dropWhile_sublist (l := rest) isSpace).length_le
  rw [_h, List.length_cons] at hlen
  omega

/-- `parse_filter_pid_list`. -/
def parseFilterPidList (alloc : FilterAlloc) (type : FilterParseType) (arg : Bytes)
    (w : ApPidWhitelist) : Option ApPidWhitelist :=
  let cursor := arg.dropWhile isSpace
  if cursor = [] then none else parseFilterSegments alloc type cursor w

/-- `parse_integer_arg`. -/
def parseIntegerArg (arg : Bytes) : Option Int32 :=
  match scanInt arg with
  | some (value, []) =>
      -- Values outside `long` set `errno`, the others are tested against the `int` range.
      if value ≤ 0 ∨ value > 2147483647 then none else some (Int32.ofInt value)
  | _ => none

/-- `parse_number_of_snapshots`. -/
def parseNumberOfSnapshots (arg : Bytes) : Option Int32 :=
  if arg = ascii "infinity" then some 0x7FFFFFFF else parseIntegerArg arg

/-- `parse_duration_ms`. -/
def parseDurationMs (arg : Bytes) : Option UInt64 :=
  if arg.length < 2 then none
  else
    match scanInt arg with
    | none => none
    | some (value, unit) =>
        if value > 2 ^ 63 - 1 ∨ value ≤ 0 then none
        else if unit = ascii "ms" then some (UInt64.ofNat value.toNat)
        else if unit = ascii "s" then some (UInt64.ofNat value.toNat * 1000)
        else if unit = ascii "m" then some (UInt64.ofNat value.toNat * 60 * 1000)
        else none

/-! ### `ap_parse_args` -/

/-- The options that `getopt_long` returns, with their arguments. The eleven options of
the end metrics are one constructor. -/
inductive ApOption where
  | interval (arg : Bytes)
  | count (arg : Bytes)
  | metric (m : Metric) (arg : Bytes)
  | filterByPid (arg : Bytes)
  | filterByName (arg : Bytes)
  | deleteOldFiles
  | version
  | help

/-- `ap_arguments`. -/
structure ApArguments where
  intervalMs : UInt64 := 0
  count : Int32 := 0
  deleteOldFiles : Bool := false
  endMetricsArgs : MetricsArguments := {}
  pidWhitelist : ApPidWhitelist := {}

/-- Why `ap_parse_args` returns `parse_args_error`. -/
inductive ParseArgsError where
  /-- an argument was refused, with the line printed to `stderr` -/
  | invalid (text : Bytes)
  /-- the version was printed -/
  | version
  /-- the usage was printed -/
  | usage
  /-- `-i` or `-n` is missing -/
  | missing (intervalProvided countProvided : Bool)

/-- The flag and the limit of a metric are set. -/
def requestMetric (n : Int32) (a : MetricsArguments) : Metric → MetricsArguments
  | .avgCpu => { a with cpuAveragePidsToDisplay := n, cpuAverageRequested := true }
  | .avgRss => { a with rssAveragePidsToDisplay := n, rssAverageRequested := true }
  | .rssIncr => { a with rssIncreasePidsToDisplay := n, rssIncreaseRequested := true }
  | .rssDelta => { a with rssDeltaPidsToDisplay := n, rssDeltaRequested := true }
  | .bytesRead => { a with bytesReadPidsToDisplay := n, bytesReadRequested := true }
  | .readRate => { a with readRatePidsToDisplay := n, readRateRequested := true }
  | .writtenBytes => { a with bytesWritePidsToDisplay := n, bytesWriteRequested := true }
  | .writeRate => { a with writeRatePidsToDisplay := n, writeRateRequested := true }
  | .fdsIncrease => { a with fdsIncreasePidsToDisplay := n, fdsIncreaseRequested := true }
  | .noOfFds => { a with openedFdsPidsToDisplay := n, openedFdsRequested := true }
  | .fdsDelta => { a with fdsDeltaPidsToDisplay := n, fdsDeltaRequested := true }

/-- The name of a metric option in its error message. -/
def metricOptionName : Metric → String
  | .avgCpu => "cpu_usage"
  | .avgRss => "rss_usage"
  | .rssIncr => "rss_increase"
  | .rssDelta => "rss_delta"
  | .bytesRead => "bytes_read"
  | .readRate => "read_rate"
  | .writtenBytes => "bytes_write"
  | .writeRate => "write_rate"
  | .fdsIncrease => "FD increase"
  | .noOfFds => "opened FDs"
  | .fdsDelta => "delta FDs"

/-- The error of a refused argument. -/
def invalidArg (name : String) (arg : Bytes) : ParseArgsError :=
  .invalid (ascii "Invalid " ++ ascii name ++ ascii ": " ++ arg ++ ascii "\n")

/-- The variables of the option loop. -/
structure ParseState where
  cfg : ApArguments := {}
  boIntervalProvided : Bool := false
  boCountProvided : Bool := false

/-- One round of the option loop. -/
def parseOption (alloc : FilterAlloc) (s : ParseState) : ApOption → Except ParseArgsError ParseState
  | .interval arg =>
      match parseDurationMs arg with
      | some ms => .ok { s with cfg.intervalMs := ms, boIntervalProvided := true }
      | none => .error (invalidArg "interval" arg)
  | .count arg =>
      match parseNumberOfSnapshots arg with
      | some n => .ok { s with cfg.count := n, boCountProvided := true }
      | none => .error (invalidArg "count" arg)
  | .metric m arg =>
      match parseIntegerArg arg with
      | some n => .ok { s with cfg.endMetricsArgs := requestMetric n s.cfg.endMetricsArgs m }
      | none => .error (invalidArg (metricOptionName m) arg)
  | .filterByPid arg =>
      match parseFilterPidList alloc .pid arg s.cfg.pidWhitelist with
      | some w => .ok { s with cfg.pidWhitelist := w }
      | none => .error (invalidArg "filter_by_pid list" arg)
  | .filterByName arg =>
      match parseFilterPidList alloc .comm arg s.cfg.pidWhitelist with
      | some w => .ok { s with cfg.pidWhitelist := w }
      | none => .error (invalidArg "filter_by_name list" arg)
  | .deleteOldFiles => .ok { s with cfg.deleteOldFiles := true }
  | .version => .error .version
  | .help => .error .usage

/-- `ap_parse_args` on the options that `getopt_long` returns. On success the result has
the arguments and whether `process_stats_initialize` is called. -/
def apParseArgs (config : Config) (alloc : FilterAlloc) (opts : List ApOption) :
    Except ParseArgsError (ApArguments × Bool) := do
  let s ← opts.foldlM (parseOption alloc) {}
  if s.boCountProvided = false ∨ s.boIntervalProvided = false then
    throw (.missing s.boIntervalProvided s.boCountProvided)
  -- the statistics are only kept for a report that somebody sees
  let anyRequested := printOrder.any s.cfg.endMetricsArgs.requested
  return (s.cfg, anyRequested
    && (config.configGetMetricsConsoleEnabled || config.configGetMetricsJsonEnabled))

end ProcessAnalyzer
