import ProcessAnalyzer.Model.RecordsWorker

/-!
# `ProcessAnalyzer.Model.Timeline`: the selection and the chart of `records.html`

The page of `dashboard/records.html` on one loaded file, from the end of its `prepare` job on.
The user selects a process or a metric, or switches the colours, and each time `updateChart`
runs. It renders from the cache, or starts a worker that builds the diagrams of the selected
process, waits for it and renders then. A step of the page is one task of the browser: an event
of the user, or the message of the worker with everything that waits for it. A worker that was
terminated sends no message.

Toasts are not part of the model.
-/

set_option autoImplicit false

namespace ProcessAnalyzer.Dashboard

open ProcessAnalyzer.Lib

/-- The options of `metricSelect`, which are the keys of `metricLabels`. -/
inductive TimelineMetric where
  | rss
  | cpu
  | read
  | write
  | threads
  | fds
  deriving DecidableEq

/-- `getSeriesForMetric`. -/
def getSeriesForMetric (series : Series) : TimelineMetric → List (Int × ℚ)
  | .rss => series.rss
  | .cpu => series.cpu
  | .read => series.read
  | .write => series.write
  | .threads => series.threads
  | .fds => series.fds

/-- A JSONL file: its lines, whose PIDs are in the range of `int`. -/
structure RecordsFile where
  lines : List (List Char)
  pid_range : ∀ line ∈ lines, ∀ pid, extractInteger line "pid".toList = some pid →
    -2 ^ 31 ≤ pid ∧ pid < 2 ^ 31

/-! ### What is on the page -/

/-- `pidMap[pid]`, up to inherited names. `entries` are the keys of `pidMap` with their names, in
the order of `buildPidMap`. -/
def commOf (entries : List (Int × List Char)) (pid : List Char) : Option (List Char) :=
  (entries.find? fun e => pidText e.1 = pid).map Prod.snd

/-- The options that `populatePIDSelect` makes of `Object.keys(pidMap)`, which has the keys that
are array indices in front. -/
def pidOptions (entries : List (Int × List Char)) : List (List Char) :=
  ((entries.filter fun e => 0 ≤ e.1) ++ entries.filter fun e => e.1 < 0).map fun e => pidText e.1

/-- The value of `pidSelect` after loading. A value that is not an option is no value. `inherited`
are the property names that every JavaScript object has. -/
def selectionAfterLoad (inherited : List Char → Bool) (pidFromURL : Option (List Char))
    (entries : List (Int × List Char)) : List Char :=
  match pidFromURL with
  | some pid =>
      if pid ≠ [] ∧ pid ∈ pidOptions entries then pid
      else if pid ≠ [] ∧ inherited pid then []
      else (pidOptions entries).headD []
  | none => (pidOptions entries).headD []

/-- A rendered chart: the label and the badge over it, and the points. -/
structure Chart where
  comm : List Char
  pid : List Char
  metric : TimelineMetric
  points : List (Int × ℚ)
  deriving DecidableEq

/-- The two selects, the cached diagrams, the chart and the alerts. -/
structure View where
  pid : List Char := []
  metric : TimelineMetric := .rss
  pidSeriesCache : List Char → Option Series := fun _ => none
  timelineChart : Option Chart := none
  alerts : List String := []

namespace View
variable (entries : List (Int × List Char))

/-- `renderTimeline`. -/
def renderTimeline (points : List (Int × ℚ)) (pid : List Char) (metric : TimelineMetric)
    (v : View) : View :=
  { v with timelineChart := some ⟨(commOf entries pid).getD [], pid, metric, points⟩ }

/-- The end of `updateChart`, when the series is there. -/
def showSeries (series : Series) (pid : List Char) (metric : TimelineMetric) (v : View) : View :=
  let points := getSeriesForMetric series metric
  if points = [] then { v with alerts := v.alerts ++ ["No valid data for this metric"] }
  else v.renderTimeline entries points pid metric

/-- `updateChart`, up to its first `await`, and the selection that it captures for a job, if it
needs one. -/
def updateChart (v : View) : View × Option (List Char × TimelineMetric) :=
  if v.pid = [] ∨ commOf entries v.pid = none then (v, none)
  else
    match v.pidSeriesCache v.pid with
    | some series => (v.showSeries entries series v.pid v.metric, none)
    | none => (v, some (v.pid, v.metric))

/-- The rest of `updateChart`, with the result of the job for its selection. -/
def takeSeries (result : Except String PidSeries) (pid : List Char) (metric : TimelineMetric)
    (v : View) : View :=
  match result with
  | .ok r =>
      View.showSeries entries r.series pid metric
        { v with pidSeriesCache := Function.update v.pidSeriesCache pid (some r.series) }
  | .error _ => v

/-- The diagrams that come with the index go into the cache. -/
def cacheInitialSeries (prepared : Prepared) (v : View) : View :=
  match prepared.initialSeries, prepared.initialPid with
  | some series, some pid =>
      if pid ≠ [] ∧ commOf entries pid ≠ none then
        { v with pidSeriesCache := Function.update v.pidSeriesCache pid (some series) }
      else v
  | _, _ => v

end View

/-! ### The page on one file -/

/-- What the page has once a file is loaded: the browser, the file, and the query of its URL. -/
structure Session where
  number : NumberEnv
  date : DateEnv
  inherited : List Char → Bool
  file : RecordsFile
  /-- `getPIDFromURL()` -/
  pidFromURL : Option (List Char)
  /-- the value of `metricSelect`, from the URL or its first option -/
  metricFromURL : TimelineMetric

namespace Session
variable (c : Session)

/-- The result of the `prepare` job. -/
def prepared : Prepared := prepareFile c.number c.date c.pidFromURL c.file.lines

/-- `pidMap[pid]`. -/
def pidMap (pid : List Char) : Option (List Char) := commOf c.prepared.entries pid

/-- The options of `pidSelect`. -/
def options : List (List Char) := pidOptions c.prepared.entries

/-- The value of `pidSelect` after loading. -/
def initialSelection : List Char :=
  selectionAfterLoad c.inherited c.pidFromURL c.prepared.entries

end Session

/-- The page. `seriesTask` is the selection that was captured by the `updateChart` that waits
for the worker. -/
structure Page extends View where
  seriesTask : Option (List Char × TimelineMetric) := none

section Page
variable (c : Session)

/-- `updateChart`, up to its first `await`. A new job of the worker cancels the one before, and
the `updateChart` that waits for that one returns. -/
def updateChart (p : Page) : Page :=
  let (v, job) := p.toView.updateChart c.prepared.entries
  { toView := v, seriesTask := job.or p.seriesTask }

/-- The message of the worker with the result of its job, and the rest of the `updateChart`
that waits for it. -/
def seriesComplete (p : Page) : Option Page :=
  p.seriesTask.map fun (pid, metric) =>
    let result := buildPidSeries c.number c.date (some pid) c.file.lines
    { toView := p.toView.takeSeries c.prepared.entries result pid metric }

/-- The end of `applyFile`: the page with the diagrams that came with the index, updated. -/
def loadedPage : Page :=
  let v : View := { pid := c.initialSelection, metric := c.metricFromURL }
  updateChart c { toView := v.cacheInitialSeries c.prepared.entries c.prepared }

/-- What happens on the page. -/
inductive PageEvent where
  | selectPid (pid : List Char)
  | selectMetric (metric : TimelineMetric)
  | toggleLightMode
  | seriesComplete
  deriving DecidableEq

/-- One task of the browser. The user selects one of the options, and a message needs a
worker. -/
def pageStep (p : Page) : PageEvent → Option Page
  | .selectPid pid => if pid ∈ c.options then some (updateChart c { p with pid := pid }) else none
  | .selectMetric metric => some (updateChart c { p with metric := metric })
  | .toggleLightMode => some (updateChart c p)
  | .seriesComplete => seriesComplete c p

end Page

end ProcessAnalyzer.Dashboard
