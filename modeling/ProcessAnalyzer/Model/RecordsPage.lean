import ProcessAnalyzer.Model.Timeline

/-!
# `ProcessAnalyzer.Model.RecordsPage`: the whole life of a `records.html`

`ProcessAnalyzer.Model.Timeline` is the page on one file, once that is loaded. Here the files
come and go: `applyFile` can run at any time, with a file that the user has opened or that
another tab has sent. It cancels what is running, clears the page and starts a `prepare` job,
and the rest of it runs when the job ends.

What is on the page (`View`) and the functions on it are the same. A step is one task of the
browser, as before. An `applyFile` whose job is cancelled goes on right after the task that
cancels it: it enables the controls and returns. The user cannot change a disabled control.

The labels over the chart and the toasts are not part of the model, and an entry of the cache is
its series.
-/

set_option autoImplicit false

namespace ProcessAnalyzer.Dashboard

open ProcessAnalyzer.Lib

/-- A `File` with records. -/
structure TimelineFile where
  name : List Char
  size : ℕ
  lastModified : Int
  records : RecordsFile

/-- `getFileSignature`. -/
def getFileSignature (file : TimelineFile) : List Char :=
  file.name ++ ':' :: latin (decNat file.size) ++ ':' :: latin (decInt file.lastModified)

/-- What a tab has for its whole life: the browser, and the query of its URL. -/
structure TimelineEnv where
  number : NumberEnv
  date : DateEnv
  /-- the property names that every JavaScript object has -/
  inherited : List Char → Bool
  /-- `getPIDFromURL()` -/
  pidFromURL : Option (List Char)
  /-- `getMetricFromURL()`, when it is a key of `metricLabels` -/
  metricFromURL : Option TimelineMetric

/-- The page with its variables. `seriesTask` comes with what the `updateChart` that waits for it
has captured. -/
structure RecordsPage extends View where
  sharedFile : Option TimelineFile := none
  sharedFileName : List Char := []
  sharedFileSignature : Option (List Char) := none
  /-- the keys of `pidMap` with their names, in the order of `buildPidMap` -/
  pidMap : List (Int × List Char) := []
  prepareTask : Option TimelineFile := none
  seriesTask : Option (TimelineFile × List Char × TimelineMetric) := none
  controlsDisabled : Bool := false

namespace RecordsPage

/-- `pidSelect` has an option. -/
def hasOption (p : RecordsPage) (pid : List Char) : Bool := (pidOptions p.pidMap).contains pid

variable (b : TimelineEnv)

/-- `updateChart`, up to its first `await`. -/
def updateChart (p : RecordsPage) : RecordsPage :=
  match p.sharedFile with
  | none => p
  | some file =>
      let (v, job) := p.toView.updateChart p.pidMap
      { p with toView := v, seriesTask := (job.map fun job => (file, job)).or p.seriesTask }

/-- The end of a `series` job, and the rest of the `updateChart` that waits for it. -/
def seriesComplete (p : RecordsPage) : Option RecordsPage :=
  p.seriesTask.map fun (file, pid, metric) =>
    let result := buildPidSeries b.number b.date (some pid) file.records.lines
    { p with toView := p.toView.takeSeries p.pidMap result pid metric, seriesTask := none }

/-- A `series` job that fails. -/
def seriesFailed (p : RecordsPage) : Option RecordsPage :=
  p.seriesTask.map fun _ => { p with seriesTask := none }

/-- `applyFile`, up to its `await`. -/
def applyFile (file : TimelineFile) (name : List Char) (p : RecordsPage) : RecordsPage :=
  { p with
    sharedFile := some file
    sharedFileName := if name = [] then file.name else name
    sharedFileSignature := some (getFileSignature file)
    pidMap := []
    pid := []
    pidSeriesCache := fun _ => none
    prepareTask := some file
    seriesTask := none
    timelineChart := none
    -- the `applyFile` of a cancelled job enables the controls once more
    controlsDisabled := p.prepareTask.isNone }

/-- The end of a `prepare` job, and the rest of the `applyFile` that waits for it. -/
def prepareComplete (p : RecordsPage) : Option RecordsPage :=
  p.prepareTask.map fun file =>
    let prepared := prepareFile b.number b.date b.pidFromURL file.records.lines
    let v : View :=
      { p.toView with
        pid := selectionAfterLoad b.inherited b.pidFromURL prepared.entries
        metric := b.metricFromURL.getD p.metric }
    updateChart
      { p with
        toView := v.cacheInitialSeries prepared.entries prepared
        pidMap := prepared.entries
        prepareTask := none
        controlsDisabled := false }

/-- A `prepare` job that fails. -/
def prepareFailed (p : RecordsPage) : Option RecordsPage :=
  p.prepareTask.map fun _ => { p with prepareTask := none, controlsDisabled := false }

/-- What happens on the page. -/
inductive Event where
  | applyFile (file : TimelineFile) (name : List Char)
  | prepareComplete
  | prepareFailed
  | seriesComplete
  | seriesFailed
  | selectPid (pid : List Char)
  | selectMetric (metric : TimelineMetric)
  | toggleLightMode

/-- One task of the browser. -/
def step (p : RecordsPage) : Event → Option RecordsPage
  | .applyFile file name => some (p.applyFile file name)
  | .prepareComplete => prepareComplete b p
  | .prepareFailed => prepareFailed p
  | .seriesComplete => seriesComplete b p
  | .seriesFailed => seriesFailed p
  | .selectPid pid =>
      if p.controlsDisabled = false ∧ p.hasOption pid then
        some (updateChart { p with pid := pid })
      else none
  | .selectMetric metric =>
      if p.controlsDisabled = false then some (updateChart { p with metric := metric }) else none
  | .toggleLightMode => some (updateChart p)

end RecordsPage

end ProcessAnalyzer.Dashboard
