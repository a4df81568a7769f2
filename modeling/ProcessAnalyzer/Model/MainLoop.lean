import ProcessAnalyzer.Model.Snapshot

/-!
# `ProcessAnalyzer.Model.MainLoop`: the timer loop of `main`

The timer that `getTimeFd` programs, and the two nested loops of `main` in
`code/process_analyzer.c`. One pass of the outer loop
sees the stop flag or the result of one `read` of the timer, and the inner loop replays
the expirations that this read reports. The loops are generic in what a snapshot does to
the state. `main` runs them with `collect_snapshot`.
-/

set_option autoImplicit false

namespace ProcessAnalyzer

open ProcessAnalyzer.Lib ProcessAnalyzer.Stats

/-! ### The timer -/

/-- `struct timespec`. -/
structure TimeSpec where
  tvSec : Int64
  tvNsec : Int64
  deriving DecidableEq

/-- `struct itimerspec`. -/
structure ItimerSpec where
  itInterval : TimeSpec
  itValue : TimeSpec
  deriving DecidableEq

/-- `getTimeFd`: the setting of the timer, or the message for `stderr`. The arguments say
whether `timerfd_create` and `timerfd_settime` succeed. -/
def getTimeFd (createOk settimeOk : Bool) (intervalMs : UInt64) : Except Bytes ItimerSpec :=
  if createOk = false then .error (ascii "getTimeFd: failed to create timer fd!\n")
  else
    let value : TimeSpec :=
      { tvSec := (intervalMs / 1000).toInt64
        tvNsec := (intervalMs % 1000 * 1000000).toInt64 }
    if settimeOk = false then .error (ascii "getTimeFd: timerfd_settime failed! \n")
    else .ok { itInterval := value, itValue := value }

/-! ### The loops -/

/-- What one pass of the outer loop meets. -/
inductive Wake where
  /-- `g_stop_requested` is set at the top of the loop -/
  | stopRequested
  /-- `read` fails. `interrupted` is `errno == EINTR && g_stop_requested` -/
  | readFailed (interrupted : Bool)
  /-- `read` returns the number of expirations since the last read -/
  | expired (expirations : UInt64)
  deriving DecidableEq

/-- Why the outer loop ends. -/
inductive LoopEnd where
  | countReached
  | interrupted
  | readError
  /-- the loop has not ended: it is blocked in the next `read` -/
  | blocked
  deriving DecidableEq

section Loop
variable {σ : Type} (snapshot : σ → σ) (count : Int32)

/-- `while(expirations-- && noOfIterations < gArguments.count)`. The counter is not changed
inside. -/
def replayLoop (noOfIterations : Int) : ℕ → σ → σ
  | 0, s => s
  | expirations + 1, s =>
      if noOfIterations < count.toInt then replayLoop noOfIterations expirations (snapshot s)
      else s

/-- `while(noOfIterations < gArguments.count)`, on the wakes that it meets. -/
def timerLoop (noOfIterations : Int) : List Wake → σ → LoopEnd × σ
  | [], s => if noOfIterations < count.toInt then (.blocked, s) else (.countReached, s)
  | w :: rest, s =>
      if noOfIterations < count.toInt then
        match w with
        | .stopRequested => (.interrupted, s)
        | .readFailed true => (.interrupted, s)
        | .readFailed false => (.readError, s)
        | .expired e =>
            timerLoop (noOfIterations + 1) rest
              (replayLoop snapshot count noOfIterations e.toNat s)
      else (.countReached, s)

end Loop

/-- The state of a run: the output, the statistics and the environments of the snapshots to
come. -/
structure RunState where
  output : Output
  stats : StatsModule
  envs : List SnapshotEnv

/-- `run_snapshot_once`. -/
def runSnapshotOnce (config : Config) (w : ApPidWhitelist) (s : RunState) : RunState :=
  match s.envs with
  | [] => s
  | env :: envs =>
      let (output, stats) := collectSnapshot config env w s.output s.stats
      ⟨output, stats, envs⟩

/-- The loop of `main` from its first pass. -/
def mainLoop (config : Config) (args : ApArguments) (wakes : List Wake) (s : RunState) :
    LoopEnd × RunState :=
  timerLoop (runSnapshotOnce config args.pidWhitelist) args.count 0 wakes s

end ProcessAnalyzer
