import ProcessAnalyzer.Model.RecordsPage
import ProcessAnalyzer.Proofs.Timeline

/-!
# `ProcessAnalyzer.Proofs.RecordsPage`: nothing of an old file stays

A file can come at any time, while jobs for another one are running. The page is either
`Cleared`, with at most a `prepare` job for the new file, or `Loaded`, and then it is the page of
`ProcessAnalyzer.Model.Timeline` on its file.

* `Loaded.step`: between two files every task of the browser does what it does there.
* `pageState_step`: one of the two holds after every task.
* `records_page_of_file`: in every state of every run, the index, the cache, the jobs and the
  chart are those of the file that came last, and no control stays disabled.
* `records_page_simulates`: from the end of a `prepare` job on, the page runs like the page on
  one file.
* `shows_after_loads_iff`: when the chart is the selected one in all states of a run.
-/

set_option autoImplicit false

namespace ProcessAnalyzer.Dashboard

open ProcessAnalyzer.Lib

/-- The session of a tab with a file. -/
def TimelineEnv.session (b : TimelineEnv) (f : TimelineFile) (metric : TimelineMetric) :
    Session where
  number := b.number
  date := b.date
  inherited := b.inherited
  file := f.records
  pidFromURL := b.pidFromURL
  metricFromURL := metric

/-- The events between two files. -/
def PageEvent.onRecordsPage : PageEvent → RecordsPage.Event
  | .selectPid pid => .selectPid pid
  | .selectMetric metric => .selectMetric metric
  | .toggleLightMode => .toggleLightMode
  | .seriesComplete => .seriesComplete

namespace RecordsPage

/-- The page without what belongs to the loading of files. -/
def asPage (p : RecordsPage) : Page where
  toView := p.toView
  seriesTask := p.seriesTask.map Prod.snd

/-- A page without an index. A `prepare` job that is running is for the file of the page. -/
structure Cleared (p : RecordsPage) : Prop where
  pidMap : p.pidMap = []
  pid : p.pid = []
  cache : ∀ pid, p.pidSeriesCache pid = none
  noSeries : p.seriesTask = none
  noChart : p.timelineChart = none
  prepare : ∀ f, p.prepareTask = some f → p.sharedFile = some f
  disabled : p.controlsDisabled = true → p.prepareTask ≠ none

section Loaded
variable (b : TimelineEnv) (f : TimelineFile) (m : TimelineMetric)

/-- A page with the index of its file. -/
structure Loaded (p : RecordsPage) : Prop where
  file : p.sharedFile = some f
  noPrepare : p.prepareTask = none
  pidMap : p.pidMap = (b.session f m).prepared.entries
  series : ∀ g pid metric, p.seriesTask = some (g, pid, metric) → g = f
  enabled : p.controlsDisabled = false

variable {b f m}

@[simp] theorem hasOption_iff {p : RecordsPage} {pid : List Char} :
    p.hasOption pid = true ↔ pid ∈ pidOptions p.pidMap :=
  List.contains_iff_mem

/-- `updateChart`. -/
theorem Loaded.updateChart {p : RecordsPage} (h : Loaded b f m p) :
    Loaded b f m (updateChart p) ∧
      (updateChart p).asPage = Dashboard.updateChart (b.session f m) p.asPage := by
  have hrun : RecordsPage.updateChart p
      = { p with
          toView := (p.toView.updateChart (b.session f m).prepared.entries).1
          seriesTask := ((p.toView.updateChart (b.session f m).prepared.entries).2.map
            fun job => (f, job)).or p.seriesTask } := by
    rw [RecordsPage.updateChart, h.file, ← h.pidMap]
  have hrun' : Dashboard.updateChart (b.session f m) p.asPage
      = { toView := (p.toView.updateChart (b.session f m).prepared.entries).1
          seriesTask := (p.toView.updateChart (b.session f m).prepared.entries).2.or
            (p.seriesTask.map Prod.snd) } := rfl
  rw [hrun, hrun']
  cases (p.toView.updateChart (b.session f m).prepared.entries).2 with
  | none => exact ⟨⟨h.file, h.noPrepare, h.pidMap, h.series, h.enabled⟩, rfl⟩
  | some job =>
      refine ⟨⟨h.file, h.noPrepare, h.pidMap, fun g pid metric hg => ?_, h.enabled⟩, rfl⟩
      exact (Prod.mk.inj (Option.some.inj hg)).1.symm

/-- The end of a `series` job. -/
theorem Loaded.seriesComplete {p : RecordsPage} (h : Loaded b f m p) :
    (∀ p', seriesComplete b p = some p' → Loaded b f m p') ∧
      (seriesComplete b p).map asPage = Dashboard.seriesComplete (b.session f m) p.asPage := by
  unfold RecordsPage.seriesComplete Dashboard.seriesComplete
  cases htask : p.seriesTask with
  | none =>
      have htask' : p.asPage.seriesTask = none := congrArg (Option.map Prod.snd) htask
      rw [htask']
      exact ⟨fun p' hp' => (by cases hp'), rfl⟩
  | some job =>
      obtain ⟨g, pid, metric⟩ := job
      have htask' : p.asPage.seriesTask = some (pid, metric) :=
        congrArg (Option.map Prod.snd) htask
      obtain rfl := h.series g pid metric htask
      rw [htask', Option.map_some, Option.map_some, Option.map_some, h.pidMap]
      refine ⟨fun p' hp' => ?_, rfl⟩
      rw [← Option.some.inj hp']
      exact ⟨h.file, h.noPrepare, rfl, fun _ _ _ hg => (by cases hg), h.enabled⟩

/-- Between two files the page does what it does on one file. -/
theorem Loaded.step {p : RecordsPage} (h : Loaded b f m p) (e : PageEvent) :
    (∀ p', step b p e.onRecordsPage = some p' → Loaded b f m p') ∧
      (step b p e.onRecordsPage).map asPage = pageStep (b.session f m) p.asPage e := by
  cases e with
  | selectPid pid =>
      show (∀ p', (if p.controlsDisabled = false ∧ p.hasOption pid then _ else _) = some p' → _) ∧
        Option.map asPage (if p.controlsDisabled = false ∧ p.hasOption pid then _ else _)
          = if pid ∈ (b.session f m).options then _ else _
      have hiff : p.hasOption pid = true ↔ pid ∈ (b.session f m).options := by
        rw [hasOption_iff, h.pidMap]
        rfl
      by_cases hpid : pid ∈ (b.session f m).options
      · rw [if_pos ⟨h.enabled, hiff.mpr hpid⟩, if_pos hpid]
        have hselected : Loaded b f m { p with pid := pid } :=
          ⟨h.file, h.noPrepare, h.pidMap, h.series, h.enabled⟩
        exact ⟨fun p' hp' => Option.some.inj hp' ▸ hselected.updateChart.1,
          congrArg some hselected.updateChart.2⟩
      · rw [if_neg fun hand => hpid (hiff.mp hand.2), if_neg hpid]
        exact ⟨fun p' hp' => (nomatch hp'), rfl⟩
  | selectMetric metric =>
      have hselected : Loaded b f m { p with metric := metric } :=
        ⟨h.file, h.noPrepare, h.pidMap, h.series, h.enabled⟩
      show (∀ p', (if p.controlsDisabled = false then _ else _) = some p' → _) ∧
        Option.map asPage (if p.controlsDisabled = false then _ else _) = _
      rw [if_pos h.enabled]
      exact ⟨fun p' hp' => Option.some.inj hp' ▸ hselected.updateChart.1,
        congrArg some hselected.updateChart.2⟩
  | toggleLightMode =>
      exact ⟨fun p' hp' => Option.some.inj hp' ▸ h.updateChart.1, congrArg some h.updateChart.2⟩
  | seriesComplete => exact h.seriesComplete

/-! ### The end of a `prepare` job -/

/-- The alerts so far do not matter. -/
theorem updateChart_withAlerts (c : Session) (q : Page) (alerts : List String) :
    ∃ alerts', Dashboard.updateChart c { q with alerts := alerts }
      = { Dashboard.updateChart c q with alerts := alerts' } := by
  unfold Dashboard.updateChart View.updateChart
  dsimp only
  split
  · exact ⟨alerts, rfl⟩
  · cases q.pidSeriesCache q.pid with
    | none => exact ⟨alerts, rfl⟩
    | some series =>
        simp only [View.showSeries]
        split
        · exact ⟨_, rfl⟩
        · exact ⟨alerts, rfl⟩

theorem cacheInitialSeries_withAlerts (entries : List (Int × List Char)) (prepared : Prepared)
    (v : View) (alerts : List String) :
    View.cacheInitialSeries entries prepared { v with alerts := alerts }
      = { v.cacheInitialSeries entries prepared with alerts := alerts } := by
  unfold View.cacheInitialSeries
  cases prepared.initialSeries with
  | none => rfl
  | some series =>
      cases prepared.initialPid with
      | none => rfl
      | some pid =>
          dsimp only
          split <;> rfl

/-- A loaded page is the loaded page of the session. -/
theorem prepareComplete_spec {p : RecordsPage} (h : Cleared p) (hf : p.prepareTask = some f)
    (hm : b.metricFromURL.getD p.metric = m) :
    ∃ p' alerts, prepareComplete b p = some p' ∧ Loaded b f m p' ∧
      p'.asPage = { loadedPage (b.session f m) with alerts := alerts } := by
  subst hm
  set c := b.session f (b.metricFromURL.getD p.metric) with hc
  -- The page behind its index, and the view of the session with the alerts of the page.
  let v : View :=
    { p.toView with pid := c.initialSelection, metric := b.metricFromURL.getD p.metric }
  let loaded : RecordsPage :=
    { p with
      toView := v.cacheInitialSeries c.prepared.entries c.prepared
      pidMap := c.prepared.entries
      prepareTask := none
      controlsDisabled := false }
  have hrun : prepareComplete b p = some loaded.updateChart := by
    rw [prepareComplete, hf]
    rfl
  let base : View := { pid := c.initialSelection, metric := c.metricFromURL }
  have hview : v = { base with alerts := p.alerts } := by
    have hcache : p.pidSeriesCache = fun _ => none := funext h.cache
    simp only [v, hcache, h.noChart]
    rfl
  have hloaded : Loaded b f (b.metricFromURL.getD p.metric) loaded :=
    { file := h.prepare f hf
      noPrepare := rfl
      pidMap := rfl
      series := fun g pid metric hg => nomatch h.noSeries.symm.trans hg
      enabled := rfl }
  obtain ⟨hupdated, hpage⟩ := hloaded.updateChart
  let start : Page := { toView := base.cacheInitialSeries c.prepared.entries c.prepared }
  obtain ⟨alerts, halerts⟩ := updateChart_withAlerts c start p.alerts
  refine ⟨_, alerts, hrun, hupdated, hpage.trans ?_⟩
  have hasPage : loaded.asPage = { start with alerts := p.alerts } := by
    rw [asPage, show loaded.seriesTask = none from h.noSeries, ← cacheInitialSeries_withAlerts,
      ← hview]
    rfl
  rw [hasPage]
  exact halerts

end Loaded

/-! ### The chart on one file -/

section Chart
variable {c : Session}

/-- A chart is the one of its process and metric. -/
def ChartRight (c : Session) (q : Page) : Prop :=
  ∀ chart, q.timelineChart = some chart → chart = c.chartOf chart.pid chart.metric

/-- What `updateChart` renders is right. -/
theorem ChartRight.updateChart {q : Page} (hinv : PageInv c q) (h : ChartRight c q) :
    ChartRight c (Dashboard.updateChart c q) := by
  unfold Dashboard.updateChart View.updateChart
  dsimp only
  split
  · exact h
  · cases hcache : q.pidSeriesCache q.pid with
    | none => exact h
    | some series =>
        rw [hinv.cache q.pid series hcache]
        intro chart hchart
        by_cases hdata : c.HasData q.pid q.metric
        · rw [timelineChart_showSeries c hdata, Option.some.injEq] at hchart
          rw [← hchart]
          rfl
        · rw [timelineChart_showSeries_of_not c hdata] at hchart
          exact h chart hchart

theorem ChartRight.step {q q' : Page} {e : PageEvent} (hinv : PageInv c q) (h : ChartRight c q)
    (hstep : pageStep c q e = some q') : ChartRight c q' := by
  cases e with
  | selectPid pid =>
      rw [pageStep] at hstep
      split at hstep
      · rename_i hoption
        have hselected : ChartRight c { q with pid := pid } := h
        exact Option.some.inj hstep ▸ hselected.updateChart (hinv.withPid hoption)
      · cases hstep
  | selectMetric metric =>
      have hselected : ChartRight c { q with metric := metric } := h
      exact Option.some.inj hstep ▸ hselected.updateChart (hinv.withMetric metric)
  | toggleLightMode => exact Option.some.inj hstep ▸ h.updateChart hinv
  | seriesComplete =>
      obtain ⟨pid, metric, -, -, -, -, -, hshown, hkept⟩ := seriesComplete_spec hinv hstep
      intro chart hchart
      by_cases hdata : c.HasData pid metric
      · rw [hshown hdata, Option.some.injEq] at hchart
        rw [← hchart]
        rfl
      · rw [hkept hdata] at hchart
        exact h chart hchart

/-- The loaded page has no chart but the one that it renders at the end. -/
theorem chartRight_loadedPage (c : Session) : ChartRight c (loadedPage c) := by
  have hbase : PageInv c { pid := c.initialSelection, metric := c.metricFromURL } :=
    ⟨initialSelection_mem c, fun _ _ h => (nomatch h), fun _ _ h => nomatch h⟩
  have hnone : ChartRight c { pid := c.initialSelection, metric := c.metricFromURL } :=
    fun _ h => nomatch h
  simp only [loadedPage, View.cacheInitialSeries]
  split
  · rename_i series pid hseries hpid
    split
    · rw [initialSeries_eq c hseries hpid]
      exact ChartRight.updateChart (hbase.withCache pid) hnone
    · exact ChartRight.updateChart hbase hnone
  · exact ChartRight.updateChart hbase hnone

end Chart

/-! ### Runs -/

section Runs
variable (b : TimelineEnv)

/-- What holds in every state: no index, or the index of the file and a page that fits it. -/
def PageState (p : RecordsPage) : Prop :=
  Cleared p ∨ ∃ f m, Loaded b f m p ∧ PageInv (b.session f m) p.asPage ∧
    ChartRight (b.session f m) p.asPage

variable {b}

/-- Without an index nothing is selected and nothing is shown. -/
theorem Cleared.updateChart {p : RecordsPage} (h : Cleared p) : p.updateChart = p := by
  have hview : p.toView.updateChart p.pidMap = (p.toView, none) := if_pos (Or.inl h.pid)
  rw [RecordsPage.updateChart, hview]
  split <;> rfl

theorem cleared_applyFile (file : TimelineFile) (name : List Char) (p : RecordsPage) :
    Cleared (p.applyFile file name) where
  pidMap := rfl
  pid := rfl
  cache _ := rfl
  noSeries := rfl
  noChart := rfl
  prepare _ hf := hf
  disabled _ := Option.some_ne_none file

/-- One task without an index. -/
theorem Cleared.step {p p' : RecordsPage} {e : Event} (h : Cleared p)
    (hstep : RecordsPage.step b p e = some p') :
    Cleared p' ∨ ∃ f m, e = .prepareComplete ∧ p.sharedFile = some f ∧ Loaded b f m p' ∧
      ∃ alerts, p'.asPage = { loadedPage (b.session f m) with alerts := alerts } := by
  cases e with
  | applyFile file name =>
      rw [← Option.some.inj hstep]
      exact Or.inl (cleared_applyFile file name p)
  | prepareComplete =>
      obtain ⟨f, hf, -⟩ := Option.map_eq_some_iff.mp hstep
      obtain ⟨p'', alerts, hrun, hloaded, hpage⟩ := prepareComplete_spec (b := b) h hf rfl
      obtain rfl : p'' = p' := Option.some.inj (hrun.symm.trans hstep)
      exact Or.inr ⟨f, _, rfl, h.prepare f hf, hloaded, alerts, hpage⟩
  | prepareFailed =>
      obtain ⟨f, hf, rfl⟩ := Option.map_eq_some_iff.mp hstep
      exact Or.inl ⟨h.pidMap, h.pid, h.cache, h.noSeries, h.noChart, fun _ hf => (nomatch hf),
        fun hdisabled => nomatch hdisabled⟩
  | seriesComplete =>
      obtain ⟨job, hjob, -⟩ := Option.map_eq_some_iff.mp hstep
      cases h.noSeries.symm.trans hjob
  | seriesFailed =>
      obtain ⟨job, hjob, -⟩ := Option.map_eq_some_iff.mp hstep
      cases h.noSeries.symm.trans hjob
  | selectPid pid =>
      have hno : ¬ p.hasOption pid = true := by
        rw [hasOption_iff, h.pidMap]
        exact List.not_mem_nil
      rw [RecordsPage.step, if_neg fun hand => hno hand.2] at hstep
      cases hstep
  | selectMetric metric =>
      rw [RecordsPage.step] at hstep
      split at hstep
      · have hselected : Cleared { p with metric := metric } :=
          ⟨h.pidMap, h.pid, h.cache, h.noSeries, h.noChart, h.prepare, h.disabled⟩
        rw [← Option.some.inj hstep, hselected.updateChart]
        exact Or.inl hselected
      · cases hstep
  | toggleLightMode =>
      rw [← Option.some.inj hstep, h.updateChart]
      exact Or.inl h

/-- One task with an index. -/
theorem Loaded.pageState_step {f : TimelineFile} {m : TimelineMetric} {p p' : RecordsPage}
    {e : Event} (h : Loaded b f m p) (hinv : PageInv (b.session f m) p.asPage)
    (hchart : ChartRight (b.session f m) p.asPage) (hstep : RecordsPage.step b p e = some p') :
    PageState b p' := by
  -- An event between two files is one of the page on one file.
  have hbetween (e : PageEvent) (hstep : RecordsPage.step b p e.onRecordsPage = some p') :
      PageState b p' := by
    obtain ⟨hloaded, hpage⟩ := h.step e
    rw [hstep] at hpage
    exact Or.inr ⟨f, m, hloaded p' hstep, hinv.step hpage.symm, hchart.step hinv hpage.symm⟩
  cases e with
  | applyFile file name =>
      rw [← Option.some.inj hstep]
      exact Or.inl (cleared_applyFile file name p)
  | prepareComplete =>
      obtain ⟨g, hg, -⟩ := Option.map_eq_some_iff.mp hstep
      cases h.noPrepare.symm.trans hg
  | prepareFailed =>
      obtain ⟨g, hg, -⟩ := Option.map_eq_some_iff.mp hstep
      cases h.noPrepare.symm.trans hg
  | seriesComplete => exact hbetween .seriesComplete hstep
  | seriesFailed =>
      obtain ⟨job, -, rfl⟩ := Option.map_eq_some_iff.mp hstep
      exact Or.inr ⟨f, m, ⟨h.file, h.noPrepare, h.pidMap, fun _ _ _ hg => (nomatch hg), h.enabled⟩,
        ⟨hinv.pid, hinv.cache, fun _ _ hq => nomatch hq⟩, hchart⟩
  | selectPid pid => exact hbetween (.selectPid pid) hstep
  | selectMetric metric => exact hbetween (.selectMetric metric) hstep
  | toggleLightMode => exact hbetween .toggleLightMode hstep

/-- One task. -/
theorem PageState.step {p p' : RecordsPage} {e : Event} (h : PageState b p)
    (hstep : RecordsPage.step b p e = some p') : PageState b p' := by
  rcases h with h | ⟨f, m, h, hinv, hchart⟩
  · rcases h.step hstep with hcleared | ⟨f, m, -, -, hloaded, alerts, hpage⟩
    · exact Or.inl hcleared
    · have hinv := (pageInv_loadedPage (b.session f m)).1
      refine Or.inr ⟨f, m, hloaded, ?_, ?_⟩
      · rw [hpage]
        exact ⟨hinv.pid, hinv.cache, hinv.task⟩
      · rw [hpage]
        exact chartRight_loadedPage (b.session f m)
  · exact h.pageState_step hinv hchart hstep

/-- The page when its tab is opened. -/
theorem cleared_initial : Cleared {} where
  pidMap := rfl
  pid := rfl
  cache _ := rfl
  noSeries := rfl
  noChart := rfl
  prepare _ hf := nomatch hf
  disabled h := nomatch h

theorem pageState_exec {events : List Event} {p : RecordsPage}
    (hrun : Run.exec (RecordsPage.step b) {} events = some p) : PageState b p :=
  Run.exec_invariant (P := fun _ _ => True) (fun _ _ _ h _ hstep => h.step hstep)
    (Or.inl cleared_initial) (Run.along_true _ _) hrun

/-- The chart is of the file of the page. -/
theorem PageState.chart {p : RecordsPage} (h : PageState b p) {chart : Chart}
    (hchart : p.timelineChart = some chart) : ∃ f, p.sharedFile = some f ∧
      chart = (b.session f p.metric).chartOf chart.pid chart.metric := by
  rcases h with h | ⟨f, m, h, -, hright⟩
  · cases h.noChart.symm.trans hchart
  · exact ⟨f, h.file, hright chart hchart⟩

/-! ### The file that came last -/

/-- The file that comes with an event. -/
def Event.file : Event → Option TimelineFile
  | .applyFile file _ => some file
  | _ => none

/-- The file that came last. -/
def lastFile (events : List Event) (before : Option TimelineFile) : Option TimelineFile :=
  events.foldl (fun last e => e.file.or last) before

/-- What a page shares: its file, with the name and the signature. -/
def shared (p : RecordsPage) : Option TimelineFile × List Char × Option (List Char) :=
  (p.sharedFile, p.sharedFileName, p.sharedFileSignature)

theorem shared_updateChart (p : RecordsPage) : p.updateChart.shared = p.shared := by
  unfold RecordsPage.updateChart
  split <;> rfl

/-- Only a new file takes the place of the file. -/
theorem shared_step {p p' : RecordsPage} {e : Event} (hstep : RecordsPage.step b p e = some p') :
    (∃ file name, e = .applyFile file name ∧ p' = p.applyFile file name) ∨
      (e.file = none ∧ p'.shared = p.shared) := by
  cases e with
  | applyFile file name => exact Or.inl ⟨file, name, rfl, (Option.some.inj hstep).symm⟩
  | prepareComplete =>
      obtain ⟨f, -, rfl⟩ := Option.map_eq_some_iff.mp hstep
      exact Or.inr ⟨rfl, shared_updateChart _⟩
  | prepareFailed =>
      obtain ⟨f, -, rfl⟩ := Option.map_eq_some_iff.mp hstep
      exact Or.inr ⟨rfl, rfl⟩
  | seriesComplete =>
      obtain ⟨job, -, rfl⟩ := Option.map_eq_some_iff.mp hstep
      exact Or.inr ⟨rfl, rfl⟩
  | seriesFailed =>
      obtain ⟨job, -, rfl⟩ := Option.map_eq_some_iff.mp hstep
      exact Or.inr ⟨rfl, rfl⟩
  | selectPid pid =>
      rw [RecordsPage.step] at hstep
      split at hstep
      · exact Or.inr ⟨rfl, Option.some.inj hstep ▸ shared_updateChart _⟩
      · cases hstep
  | selectMetric metric =>
      rw [RecordsPage.step] at hstep
      split at hstep
      · exact Or.inr ⟨rfl, Option.some.inj hstep ▸ shared_updateChart _⟩
      · cases hstep
  | toggleLightMode => exact Or.inr ⟨rfl, Option.some.inj hstep ▸ shared_updateChart _⟩

theorem sharedFile_step {p p' : RecordsPage} {e : Event}
    (hstep : RecordsPage.step b p e = some p') : p'.sharedFile = e.file.or p.sharedFile := by
  rcases shared_step hstep with ⟨file, name, rfl, rfl⟩ | ⟨hnone, hshared⟩
  · rfl
  · rw [hnone]
    exact congrArg Prod.fst hshared

theorem sharedFile_exec {events : List Event} {p p' : RecordsPage}
    (hrun : Run.exec (RecordsPage.step b) p events = some p') :
    p'.sharedFile = lastFile events p.sharedFile := by
  induction events generalizing p with
  | nil => exact Option.some.inj hrun ▸ rfl
  | cons e events ih =>
      rw [Run.exec] at hrun
      obtain ⟨p₁, hstep, hrest⟩ := Option.bind_eq_some_iff.mp hrun
      rw [ih hrest, sharedFile_step hstep]
      rfl

/-- A run between two files. -/
theorem Loaded.exec {f : TimelineFile} {m : TimelineMetric} {p : RecordsPage}
    (h : Loaded b f m p) (pes : List PageEvent) :
    (Run.exec (RecordsPage.step b) p (pes.map PageEvent.onRecordsPage)).map asPage
      = Run.exec (pageStep (b.session f m)) p.asPage pes := by
  induction pes generalizing p with
  | nil => rfl
  | cons e pes ih =>
      obtain ⟨hloaded, hpage⟩ := h.step e
      rw [List.map_cons, Run.exec, Run.exec, ← hpage]
      cases hstep : RecordsPage.step b p e.onRecordsPage with
      | none => rfl
      | some p' => exact ih (hloaded p' hstep)

/-- A selection that is an option is one of an index. -/
theorem entries_ne_nil {c : Session} {pid : List Char} (h : pid ∈ c.options) :
    c.prepared.entries ≠ [] := by
  intro hnil
  rw [Session.options, hnil] at h
  exact List.not_mem_nil h

/-- In every state of every run, in which files come at any time, what the page has is of the
file that came last: the index, the cached diagrams, the jobs that run and the chart. A `series`
job only runs when there is an index, and the controls are disabled only while an index is being
made. -/
theorem records_page_of_file {events : List Event} {p : RecordsPage}
    (hrun : Run.exec (RecordsPage.step b) {} events = some p) :
    p.sharedFile = lastFile events none ∧
    (p.pidMap ≠ [] → ∃ f, lastFile events none = some f ∧
      p.pidMap = (b.session f p.metric).prepared.entries) ∧
    (∀ pid series, p.pidSeriesCache pid = some series → ∃ f, lastFile events none = some f ∧
      series = (b.session f p.metric).seriesOf pid) ∧
    (∀ f, p.prepareTask = some f → lastFile events none = some f ∧ p.seriesTask = none) ∧
    (∀ f pid metric, p.seriesTask = some (f, pid, metric) → lastFile events none = some f ∧
      p.pidMap ≠ [] ∧ pid ∈ (b.session f metric).options) ∧
    (∀ chart, p.timelineChart = some chart → ∃ f, lastFile events none = some f ∧
      chart = (b.session f p.metric).chartOf chart.pid chart.metric) ∧
    (p.controlsDisabled = true → p.prepareTask ≠ none) := by
  have hfile := sharedFile_exec hrun
  rw [show RecordsPage.sharedFile {} = none from rfl] at hfile
  rw [← hfile]
  have hstate : PageState b p := pageState_exec hrun
  have hchart : ∀ chart, p.timelineChart = some chart → _ := fun _ h => hstate.chart h
  refine ⟨rfl, ?_⟩
  rcases hstate with h | ⟨f, m, h, hinv, -⟩
  · refine ⟨fun hne => absurd h.pidMap hne, ?_, fun f hf => ⟨h.prepare f hf, h.noSeries⟩, ?_,
      hchart, h.disabled⟩
    · intro pid series hcache
      cases (h.cache pid).symm.trans hcache
    · intro f pid metric htask
      cases h.noSeries.symm.trans htask
  · refine ⟨fun _ => ⟨f, h.file, h.pidMap⟩,
      fun pid series hcache => ⟨f, h.file, hinv.cache pid series hcache⟩, ?_, ?_,
      hchart, ?_⟩
    · intro g hg
      cases h.noPrepare.symm.trans hg
    · intro g pid metric htask
      obtain rfl := h.series g pid metric htask
      have hoption : pid ∈ (b.session g m).options :=
        hinv.task pid metric (congrArg (Option.map Prod.snd) htask)
      refine ⟨h.file, ?_, hoption⟩
      rw [h.pidMap]
      exact entries_ne_nil hoption
    · intro hdisabled
      cases h.enabled.symm.trans hdisabled

/-- From the end of a `prepare` job on, and until the next file comes, the page runs like the page
on one file, which is the file that came last. -/
theorem records_page_simulates {events : List Event} {p : RecordsPage}
    (hrun : Run.exec (RecordsPage.step b) {} (events ++ [.prepareComplete]) = some p) :
    ∃ f metric alerts, lastFile events none = some f ∧
      p.asPage = { loadedPage (b.session f metric) with alerts := alerts } ∧
      ∀ pes : List PageEvent,
        (Run.exec (RecordsPage.step b) p (pes.map PageEvent.onRecordsPage)).map asPage
          = Run.exec (pageStep (b.session f metric)) p.asPage pes := by
  rw [Run.exec_append] at hrun
  obtain ⟨p₁, hevents, hlast⟩ := Option.bind_eq_some_iff.mp hrun
  rw [Run.exec] at hlast
  obtain ⟨p₂, hstep, hsame⟩ := Option.bind_eq_some_iff.mp hlast
  obtain rfl : p₂ = p := Option.some.inj hsame
  -- A `prepare` job only runs on a page without an index.
  obtain ⟨f, m, hf, hloaded, alerts, hpage⟩ : ∃ f m, p₁.sharedFile = some f ∧ Loaded b f m p₂ ∧
      ∃ alerts, p₂.asPage = { loadedPage (b.session f m) with alerts := alerts } := by
    rcases pageState_exec hevents with h | ⟨g, m, h, -, -⟩
    · obtain ⟨f, hf, -⟩ := Option.map_eq_some_iff.mp hstep
      obtain ⟨p', alerts, hrun', hloaded, hpage⟩ := prepareComplete_spec (b := b) h hf rfl
      obtain rfl : p' = p₂ := Option.some.inj (hrun'.symm.trans hstep)
      exact ⟨f, _, h.prepare f hf, hloaded, alerts, hpage⟩
    · obtain ⟨f, hf, -⟩ := Option.map_eq_some_iff.mp hstep
      cases h.noPrepare.symm.trans hf
  refine ⟨f, m, alerts, ?_, hpage, ?_⟩
  · rw [← hf, sharedFile_exec hevents]
  · exact fun pes => hloaded.exec pes

/-! ### The chart of the selection -/

/-- A task does not leave another chart than the selected one: a job that ends was started for
what is selected, or it has nothing to render, or the selection has no data, and a job that fails
was not needed. -/
def HarmlessTask (b : TimelineEnv) (p : RecordsPage) (e : Event) : Prop :=
  ∀ f pid metric, p.seriesTask = some (f, pid, metric) →
    match e with
    | .seriesComplete => (pid = p.pid ∧ metric = p.metric) ∨
        ¬ (b.session f metric).HasData pid metric ∨ ¬ (b.session f metric).HasData p.pid p.metric
    | .seriesFailed => (b.session f metric).HasData p.pid p.metric →
        p.timelineChart = some ((b.session f metric).chartOf p.pid p.metric)
    | _ => True

/-- When no job is outstanding, the chart is the selected one of the file, if that has data. -/
def ShowsFile (b : TimelineEnv) (p : RecordsPage) : Prop :=
  ∀ f, p.sharedFile = some f → p.prepareTask = none → Shows (b.session f p.metric) p.asPage

/-- Nothing is selected, or the page is up to date with its file. -/
def UpToDatePage (b : TimelineEnv) (p : RecordsPage) : Prop :=
  p.pid = [] ∨ ∃ f, p.sharedFile = some f ∧ UpToDate (b.session f p.metric) p.asPage

theorem UpToDatePage.upToDate {p : RecordsPage} (hup : UpToDatePage b p) {f : TimelineFile}
    (hf : p.sharedFile = some f) (m : TimelineMetric) : UpToDate (b.session f m) p.asPage := by
  rcases hup with hnil | ⟨g, hg, hup⟩
  · refine Or.inr fun hdata => ?_
    rw [show p.asPage.pid = [] from hnil] at hdata
    exact absurd hdata (not_hasData_nil _ _)
  · obtain rfl : f = g := Option.some.inj (hf.symm.trans hg)
    exact hup

theorem UpToDatePage.showsFile {p : RecordsPage} (hup : UpToDatePage b p) : ShowsFile b p := by
  intro f hf _ hnone hdata
  rcases hup.upToDate hf p.metric with hjob | hright
  · rw [hnone] at hjob
    cases hjob
  · exact hright hdata

/-- A harmless task keeps the page up to date. -/
theorem UpToDatePage.step {p p' : RecordsPage} {e : Event} (h : PageState b p)
    (hup : UpToDatePage b p) (hharmless : HarmlessTask b p e)
    (hstep : RecordsPage.step b p e = some p') : UpToDatePage b p' := by
  rcases h with h | ⟨f, m, h, hinv, -⟩
  · rcases h.step hstep with hcleared | ⟨f, m, -, -, hloaded, alerts, hpage⟩
    · exact Or.inl hcleared.pid
    · refine Or.inr ⟨f, hloaded.file, ?_⟩
      rw [hpage]
      exact (pageInv_loadedPage (b.session f m)).2
  · have hnow : UpToDate (b.session f m) p.asPage := hup.upToDate h.file m
    have hbetween (e : PageEvent) (hharmless : Harmless (b.session f m) p.asPage e)
        (hstep : RecordsPage.step b p e.onRecordsPage = some p') : UpToDatePage b p' := by
      obtain ⟨hloaded, hpage⟩ := h.step e
      rw [hstep] at hpage
      have hafter : UpToDate (b.session f m) p'.asPage := hnow.step hinv hharmless hpage.symm
      exact Or.inr ⟨f, (hloaded p' hstep).file, hafter⟩
    cases e with
    | applyFile file name =>
        rw [← Option.some.inj hstep]
        exact Or.inl rfl
    | prepareComplete =>
        obtain ⟨g, hg, -⟩ := Option.map_eq_some_iff.mp hstep
        cases h.noPrepare.symm.trans hg
    | prepareFailed =>
        obtain ⟨g, hg, -⟩ := Option.map_eq_some_iff.mp hstep
        cases h.noPrepare.symm.trans hg
    | seriesComplete =>
        refine hbetween .seriesComplete (fun _ pid metric htask => ?_) hstep
        obtain ⟨⟨g, q, k⟩, hjob, hpair⟩ := Option.map_eq_some_iff.mp htask
        obtain ⟨rfl, rfl⟩ := Prod.mk.inj hpair
        obtain rfl := h.series g q k hjob
        exact hharmless g q k hjob
    | seriesFailed =>
        obtain ⟨⟨g, q, k⟩, hjob, rfl⟩ := Option.map_eq_some_iff.mp hstep
        obtain rfl := h.series g q k hjob
        exact Or.inr ⟨g, h.file, Or.inr (hharmless g q k hjob)⟩
    | selectPid pid => exact hbetween (.selectPid pid) (fun he => nomatch he) hstep
    | selectMetric metric => exact hbetween (.selectMetric metric) (fun he => nomatch he) hstep
    | toggleLightMode => exact hbetween .toggleLightMode (fun he => nomatch he) hstep

/-- A task that is not harmless leaves another chart than the selected one. -/
theorem not_showsFile_of_not_harmless {p : RecordsPage} {e : Event} (h : PageState b p)
    (hharm : ¬ HarmlessTask b p e) :
    ∃ p', RecordsPage.step b p e = some p' ∧ ¬ ShowsFile b p' := by
  unfold HarmlessTask at hharm
  push Not at hharm
  obtain ⟨f, pid, metric, htask, hharm⟩ := hharm
  rcases h with h | ⟨g, m, h, hinv, -⟩
  · cases h.noSeries.symm.trans htask
  · obtain rfl := h.series f pid metric htask
    cases e with
    | seriesComplete =>
        have hnot : ¬ Harmless (b.session f m) p.asPage .seriesComplete := by
          intro hharmless
          exact hharm (hharmless rfl pid metric (congrArg (Option.map Prod.snd) htask))
        obtain ⟨q, hq, hshows⟩ := not_shows_of_not_harmless hinv hnot
        obtain ⟨hloaded, hpage⟩ := h.step .seriesComplete
        rw [hq] at hpage
        obtain ⟨p', hstep, rfl⟩ := Option.map_eq_some_iff.mp hpage
        refine ⟨p', hstep, fun hshown => hshows ?_⟩
        exact hshown f (hloaded p' hstep).file (hloaded p' hstep).noPrepare
    | seriesFailed =>
        rw [Classical.not_imp] at hharm
        refine ⟨{ p with seriesTask := none }, ?_, fun hshown => ?_⟩
        · rw [RecordsPage.step, seriesFailed, htask]
          rfl
        · exact hharm.2 (hshown f h.file h.noPrepare rfl hharm.1)
    | applyFile file name => exact absurd trivial hharm
    | prepareComplete => exact absurd trivial hharm
    | prepareFailed => exact absurd trivial hharm
    | selectPid pid => exact absurd trivial hharm
    | selectMetric metric => exact absurd trivial hharm
    | toggleLightMode => exact absurd trivial hharm

/-- Over the whole life of a tab the timeline shows what is selected, of the file that came last,
in every state exactly when every `series` job that ends or fails is harmless. Files that come
in the middle of jobs do no harm. -/
theorem shows_after_loads_iff (b : TimelineEnv) (events : List Event) :
    (∀ front, front <+: events → ∀ p, Run.exec (RecordsPage.step b) {} front = some p →
      ShowsFile b p) ↔ Run.Along (RecordsPage.step b) (HarmlessTask b) {} events :=
  Run.safe_iff_along (I := PageState b) (J := UpToDatePage b) (Q := ShowsFile b)
    (fun _ _ _ h hstep => h.step hstep) (fun _ _ _ h hup hP hstep => hup.step h hP hstep)
    (fun _ _ hup => hup.showsFile) (fun _ _ h hharm => not_showsFile_of_not_harmless h hharm)
    (Or.inl cleared_initial) (Or.inl rfl) events

end Runs

/-! ### A tab with two files -/

/-- A tab without a query in its URL. -/
def plainEnv : TimelineEnv where
  number := fun _ => none
  date := utcEnv
  inherited := fun _ => false
  pidFromURL := none
  metricFromURL := none

/-- A file with samples of the processes 7 and 9, under a name of one letter. -/
def twoProcessFile (name : Char) : TimelineFile where
  name := [name]
  size := 180
  lastModified := 1767225600000
  records := twoProcessSession.file

/-- The second file comes while the diagrams of process 9 are still being built. -/
def twoFiles : List Event :=
  [.applyFile (twoProcessFile 'a') [], .prepareComplete, .selectPid (pidText 9),
    .applyFile (twoProcessFile 'b') []]

theorem records_page_of_file_two : ∃ p,
    Run.exec (RecordsPage.step plainEnv) {} twoFiles = some p ∧
      p.sharedFile = some (twoProcessFile 'b') := by
  have hsome : (Run.exec (RecordsPage.step plainEnv) {} twoFiles).isSome = true := by
    decide +kernel
  obtain ⟨p, hrun⟩ := Option.isSome_iff_exists.mp hsome
  exact ⟨p, hrun, (records_page_of_file hrun).1⟩

theorem records_page_simulates_two : ∃ p f metric,
    Run.exec (RecordsPage.step plainEnv) {} (twoFiles ++ [.prepareComplete]) = some p ∧
      (Run.exec (RecordsPage.step plainEnv) p
          (lateEnd.map PageEvent.onRecordsPage)).map asPage
        = Run.exec (pageStep (plainEnv.session f metric)) p.asPage lateEnd := by
  have hsome : (Run.exec (RecordsPage.step plainEnv) {}
      (twoFiles ++ [.prepareComplete])).isSome = true := by
    decide +kernel
  obtain ⟨p, hrun⟩ := Option.isSome_iff_exists.mp hsome
  obtain ⟨f, metric, -, -, -, hpage⟩ := records_page_simulates hrun
  exact ⟨p, f, metric, hrun, hpage lateEnd⟩

end RecordsPage

end ProcessAnalyzer.Dashboard
