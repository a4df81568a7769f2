import ProcessAnalyzer.Lib.Run
import ProcessAnalyzer.Model.Timeline
import ProcessAnalyzer.Proofs.InitialSeries

/-!
# `ProcessAnalyzer.Proofs.Timeline`: whether the chart is the selected one

`updateChart` renders at once when the cache has the series, and does not cancel a job then. A
job that is still running was started for another selection in that case, and its end renders
that one.

* `PageInv`: what every step keeps. The cache holds what `buildPidSeries` gives, where the
  initial series comes from the index.
* `shows_iff`: in all states of a run the chart is the selected one exactly when no job ends
  with something to render after another selection was shown.
-/

set_option autoImplicit false

namespace ProcessAnalyzer.Dashboard

open ProcessAnalyzer.Lib

section Spec
variable (c : Session)

/-- The series of a process in the file. -/
def Session.seriesOf (pid : List Char) : Series :=
  match buildPidSeries c.number c.date (some pid) c.file.lines with
  | .ok r => r.series
  | .error _ => {}

/-- The points of a selection. -/
def Session.pointsOf (pid : List Char) (metric : TimelineMetric) : List (Int × ℚ) :=
  getSeriesForMetric (c.seriesOf pid) metric

/-- The process has data for the metric. -/
def Session.HasData (pid : List Char) (metric : TimelineMetric) : Prop := c.pointsOf pid metric ≠ []

/-- The chart of a selection. -/
def Session.chartOf (pid : List Char) (metric : TimelineMetric) : Chart :=
  ⟨(c.pidMap pid).getD [], pid, metric, c.pointsOf pid metric⟩

/-- The timeline shows what is selected: without an outstanding job, the chart is the one of
the selection if that has data. -/
def Shows (p : Page) : Prop :=
  p.seriesTask = none → c.HasData p.pid p.metric →
    p.timelineChart = some (c.chartOf p.pid p.metric)

/-- A job does not end in front of another selection: it was started for the selection, or it
has nothing to render, or the selection has no data. -/
def Harmless (p : Page) (e : PageEvent) : Prop :=
  e = .seriesComplete → ∀ pid metric, p.seriesTask = some (pid, metric) →
    (pid = p.pid ∧ metric = p.metric) ∨ ¬ c.HasData pid metric ∨ ¬ c.HasData p.pid p.metric

/-! ### The processes of the file -/

/-- The entries of the index are the PIDs of the file. -/
theorem mem_entries_prepared (pid : Int) :
    (∃ e ∈ c.prepared.entries, e.1 = pid) ↔ pid ∈ pidsOf c.file.lines := by
  have h := preparedFrom_foldl c.date (normalizePid c.number c.pidFromURL) c.file.lines
  rw [← h.entries, List.mem_map]
  refine exists_congr fun e => and_congr_left fun _ => ?_
  exact (List.perm_insertionSort _ _).mem_iff

/-- An option is a PID of the file. -/
theorem mem_options_iff (pid : List Char) :
    pid ∈ c.options ↔ ∃ n ∈ pidsOf c.file.lines, pidText n = pid := by
  have hmem : ∀ e, e ∈ (c.prepared.entries.filter fun e => 0 ≤ e.1)
      ++ (c.prepared.entries.filter fun e => e.1 < 0) ↔ e ∈ c.prepared.entries := by
    intro e
    simp only [List.mem_append, List.mem_filter, decide_eq_true_eq]
    constructor
    · rintro (⟨he, -⟩ | ⟨he, -⟩) <;> exact he
    · intro he
      rcases lt_or_ge e.1 0 with hneg | hpos
      · exact Or.inr ⟨he, hneg⟩
      · exact Or.inl ⟨he, hpos⟩
  unfold Session.options pidOptions
  rw [List.mem_map]
  constructor
  · rintro ⟨e, he, rfl⟩
    exact ⟨e.1, (mem_entries_prepared c e.1).mp ⟨e, (hmem e).mp he, rfl⟩, rfl⟩
  · rintro ⟨n, hn, rfl⟩
    obtain ⟨e, he, rfl⟩ := (mem_entries_prepared c n).mpr hn
    exact ⟨e, (hmem e).mpr he, rfl⟩

/-- The options are the keys of `pidMap`. -/
theorem pidMap_eq_none_iff (pid : List Char) : c.pidMap pid = none ↔ pid ∉ c.options := by
  rw [mem_options_iff, Session.pidMap, commOf, Option.map_eq_none_iff, List.find?_eq_none]
  constructor
  · rintro h ⟨n, hn, rfl⟩
    obtain ⟨e, he, rfl⟩ := (mem_entries_prepared c n).mpr hn
    exact h e he (decide_eq_true rfl)
  · intro h e he hpid
    exact h ⟨e.1, (mem_entries_prepared c e.1).mp ⟨e, he, rfl⟩, of_decide_eq_true hpid⟩

/-- The PIDs of the file have few digits. -/
theorem natAbs_lt_of_mem_pidsOf {n : Int} (h : n ∈ pidsOf c.file.lines) : n.natAbs < 10 ^ 15 := by
  obtain ⟨line, hline, hn⟩ := List.mem_filterMap.mp h
  have := c.file.pid_range line hline n hn
  omega

/-- The job for an option gives its series. -/
theorem buildPidSeries_of_option {pid : List Char} (h : pid ∈ c.options) :
    ∃ r, buildPidSeries c.number c.date (some pid) c.file.lines = .ok r ∧
      r.series = c.seriesOf pid := by
  obtain ⟨n, hn, rfl⟩ := (mem_options_iff c pid).mp h
  have hnormal := normalizePid_pidText c.number (natAbs_lt_of_mem_pidsOf c hn)
  unfold Session.seriesOf buildPidSeries
  rw [hnormal]
  exact ⟨_, rfl, rfl⟩

/-- No process is the empty option. -/
theorem not_hasData_nil (metric : TimelineMetric) : ¬ c.HasData [] metric := by
  intro h
  apply h
  show getSeriesForMetric (c.seriesOf []) metric = []
  have hnil : c.seriesOf [] = {} := rfl
  rw [hnil]
  cases metric <;> rfl

/-! ### The steps -/

/-- What every step keeps. -/
structure PageInv (p : Page) : Prop where
  pid : p.pid = [] ∨ p.pid ∈ c.options
  cache : ∀ pid series, p.pidSeriesCache pid = some series → series = c.seriesOf pid
  task : ∀ pid metric, p.seriesTask = some (pid, metric) → pid ∈ c.options

/-- A job for the selection is outstanding, or the chart is right. -/
def UpToDate (p : Page) : Prop :=
  p.seriesTask = some (p.pid, p.metric) ∨
    (c.HasData p.pid p.metric → p.timelineChart = some (c.chartOf p.pid p.metric))

/-- The end of `updateChart` only changes what is to be seen. -/
theorem View.showSeries_frame (entries : List (Int × List Char)) (series : Series)
    (pid : List Char) (metric : TimelineMetric) (v : View) :
    (v.showSeries entries series pid metric).pid = v.pid ∧
    (v.showSeries entries series pid metric).metric = v.metric ∧
    (v.showSeries entries series pid metric).pidSeriesCache = v.pidSeriesCache := by
  simp only [View.showSeries]
  split <;> exact ⟨rfl, rfl, rfl⟩

/-- It renders the chart of its process and metric if there is data. -/
theorem timelineChart_showSeries {pid : List Char} {metric : TimelineMetric}
    (h : c.HasData pid metric) (v : View) :
    (v.showSeries c.prepared.entries (c.seriesOf pid) pid metric).timelineChart
      = some (c.chartOf pid metric) := by
  have hpoints : ¬ getSeriesForMetric (c.seriesOf pid) metric = [] := h
  simp only [View.showSeries]
  rw [if_neg hpoints]
  rfl

theorem timelineChart_showSeries_of_not {pid : List Char} {metric : TimelineMetric}
    (h : ¬ c.HasData pid metric) (v : View) :
    (v.showSeries c.prepared.entries (c.seriesOf pid) pid metric).timelineChart
      = v.timelineChart := by
  have hpoints : getSeriesForMetric (c.seriesOf pid) metric = [] := not_not.mp h
  simp only [View.showSeries]
  rw [if_pos hpoints]

variable {c}

theorem PageInv.withPid {p : Page} (h : PageInv c p) {pid : List Char} (hpid : pid ∈ c.options) :
    PageInv c { p with pid := pid } :=
  ⟨Or.inr hpid, h.cache, h.task⟩

theorem PageInv.withMetric {p : Page} (h : PageInv c p) (metric : TimelineMetric) :
    PageInv c { p with metric := metric } :=
  ⟨h.pid, h.cache, h.task⟩

/-- The cache may take the series of a process. -/
theorem PageInv.withCache {p : Page} (h : PageInv c p) (pid : List Char) :
    PageInv c { p with
      pidSeriesCache := Function.update p.pidSeriesCache pid (some (c.seriesOf pid)) } := by
  refine ⟨h.pid, fun q series hq => ?_, h.task⟩
  replace hq : Function.update p.pidSeriesCache pid (some (c.seriesOf pid)) q = some series := hq
  by_cases hsame : q = pid
  · subst hsame
    rw [Function.update_self, Option.some.injEq] at hq
    exact hq.symm
  · rw [Function.update_of_ne hsame] at hq
    exact h.cache q series hq

/-- `updateChart` brings the page up to date, or starts a job that will. -/
theorem updateChart_spec {p : Page} (h : PageInv c p) :
    PageInv c (updateChart c p) ∧ UpToDate c (updateChart c p) := by
  by_cases hguard : p.pid = [] ∨ c.pidMap p.pid = none
  · -- no process is selected
    have hsame : updateChart c p = p := by
      have hview : p.toView.updateChart c.prepared.entries = (p.toView, none) := if_pos hguard
      rw [updateChart, hview]
      rfl
    have hpid : p.pid = [] := by
      rcases hguard with hnil | hnone
      · exact hnil
      · exact h.pid.resolve_right ((pidMap_eq_none_iff c p.pid).mp hnone)
    rw [hsame]
    refine ⟨h, Or.inr fun hdata => ?_⟩
    rw [hpid] at hdata
    exact absurd hdata (not_hasData_nil c p.metric)
  · have hoption : p.pid ∈ c.options :=
      h.pid.resolve_left fun hnil => hguard (Or.inl hnil)
    have hview := show p.toView.updateChart c.prepared.entries = _ from if_neg hguard
    cases hcache : p.pidSeriesCache p.pid with
    | some series =>
        have hshow : updateChart c p
            = { toView := p.toView.showSeries c.prepared.entries (c.seriesOf p.pid) p.pid p.metric,
                seriesTask := p.seriesTask } := by
          rw [updateChart, hview]
          simp only [hcache, h.cache p.pid series hcache]
          rfl
        obtain ⟨hpid, hmetric, hcaches⟩ :=
          p.toView.showSeries_frame c.prepared.entries (c.seriesOf p.pid) p.pid p.metric
        rw [hshow]
        refine ⟨⟨?_, ?_, h.task⟩, Or.inr ?_⟩
        · rw [hpid]
          exact h.pid
        · rw [hcaches]
          exact h.cache
        · rw [hpid, hmetric]
          exact fun hdata => timelineChart_showSeries c hdata p.toView
    | none =>
        have hstart : updateChart c p = { p with seriesTask := some (p.pid, p.metric) } := by
          rw [updateChart, hview]
          simp only [hcache]
          rfl
        rw [hstart]
        refine ⟨⟨h.pid, h.cache, ?_⟩, Or.inl rfl⟩
        intro pid metric htask
        rw [← (Prod.mk.inj (Option.some.inj htask)).1]
        exact hoption

/-- The end of a job: the selection it was started for is shown, whatever is selected now. -/
theorem seriesComplete_spec {p p' : Page} (h : PageInv c p) (hstep : seriesComplete c p = some p') :
    ∃ pid metric, p.seriesTask = some (pid, metric) ∧ PageInv c p' ∧ p'.seriesTask = none ∧
      p'.pid = p.pid ∧ p'.metric = p.metric ∧
      (c.HasData pid metric → p'.timelineChart = some (c.chartOf pid metric)) ∧
      (¬ c.HasData pid metric → p'.timelineChart = p.timelineChart) := by
  obtain ⟨⟨pid, metric⟩, htask, rfl⟩ := Option.map_eq_some_iff.mp hstep
  obtain ⟨r, hok, hseries⟩ := buildPidSeries_of_option c (h.task pid metric htask)
  simp only [hok, View.takeSeries, hseries]
  set v : View := { p.toView with
    pidSeriesCache := Function.update p.pidSeriesCache pid (some (c.seriesOf pid)) }
  obtain ⟨hpid, hmetric, hcaches⟩ :=
    v.showSeries_frame c.prepared.entries (c.seriesOf pid) pid metric
  refine ⟨pid, metric, htask, ⟨?_, ?_, ?_⟩, trivial, hpid, hmetric, ?_, ?_⟩
  · rw [hpid]
    exact h.pid
  · rw [hcaches]
    exact (h.withCache pid).cache
  · intro q m hq
    cases hq
  · exact fun hdata => timelineChart_showSeries c hdata v
  · exact fun hdata => timelineChart_showSeries_of_not c hdata v

/-- One step keeps the invariant. -/
theorem PageInv.step {p p' : Page} {e : PageEvent} (h : PageInv c p)
    (hstep : pageStep c p e = some p') : PageInv c p' := by
  cases e with
  | selectPid pid =>
      rw [pageStep] at hstep
      split at hstep
      · rename_i hoption
        rw [← Option.some.inj hstep]
        exact (updateChart_spec (h.withPid hoption)).1
      · cases hstep
  | selectMetric metric =>
      rw [← Option.some.inj hstep]
      exact (updateChart_spec (h.withMetric metric)).1
  | toggleLightMode =>
      rw [← Option.some.inj hstep]
      exact (updateChart_spec h).1
  | seriesComplete =>
      obtain ⟨-, -, -, hinv, -⟩ := seriesComplete_spec h hstep
      exact hinv

/-- One harmless step keeps the page up to date. -/
theorem UpToDate.step {p p' : Page} {e : PageEvent} (h : PageInv c p) (hup : UpToDate c p)
    (hharmless : Harmless c p e) (hstep : pageStep c p e = some p') : UpToDate c p' := by
  cases e with
  | selectPid pid =>
      rw [pageStep] at hstep
      split at hstep
      · rename_i hoption
        rw [← Option.some.inj hstep]
        exact (updateChart_spec (h.withPid hoption)).2
      · cases hstep
  | selectMetric metric =>
      rw [← Option.some.inj hstep]
      exact (updateChart_spec (h.withMetric metric)).2
  | toggleLightMode =>
      rw [← Option.some.inj hstep]
      exact (updateChart_spec h).2
  | seriesComplete =>
      obtain ⟨pid, metric, htask, -, -, hpid, hmetric, hshown, hkept⟩ :=
        seriesComplete_spec h hstep
      refine Or.inr ?_
      rw [hpid, hmetric]
      intro hdata
      rcases hharmless rfl pid metric htask with ⟨rfl, rfl⟩ | hnone | hnone
      · exact hshown hdata
      · -- Nothing is rendered, and the chart was right before unless the job was for it.
        rw [hkept hnone]
        rcases hup with hjob | hright
        · rw [htask, Option.some.injEq, Prod.mk.injEq] at hjob
          rw [hjob.1, hjob.2] at hnone
          exact absurd hdata hnone
        · exact hright hdata
      · exact absurd hdata hnone

/-- A step that is not harmless renders another chart than the selected one. -/
theorem not_shows_of_not_harmless {p : Page} {e : PageEvent} (h : PageInv c p)
    (hharm : ¬ Harmless c p e) : ∃ p', pageStep c p e = some p' ∧ ¬ Shows c p' := by
  unfold Harmless at hharm
  push Not at hharm
  obtain ⟨rfl, pid, metric, htask, hne, hcaptured, hselected⟩ := hharm
  have hsome : (seriesComplete c p).isSome = true := by
    rw [seriesComplete, Option.isSome_map, htask]
    rfl
  obtain ⟨p', hstep⟩ := Option.isSome_iff_exists.mp hsome
  refine ⟨p', hstep, fun hshows => ?_⟩
  obtain ⟨pid', metric', htask', -, hdone, hpid, hmetric, hshown, -⟩ := seriesComplete_spec h hstep
  rw [htask, Option.some.injEq, Prod.mk.injEq] at htask'
  obtain ⟨rfl, rfl⟩ := htask'
  have hchart := hshows hdone
  rw [hpid, hmetric, hshown hcaptured] at hchart
  have hsame := Option.some.inj (hchart hselected)
  exact hne (congrArg Chart.pid hsame) (congrArg Chart.metric hsame)

/-! ### The loaded page -/

variable (c)

theorem initialSelection_mem : c.initialSelection = [] ∨ c.initialSelection ∈ c.options := by
  have hhead : c.options.headD [] = [] ∨ c.options.headD [] ∈ c.options := by
    cases c.options with
    | nil => exact Or.inl rfl
    | cons pid pids => exact Or.inr List.mem_cons_self
  unfold Session.initialSelection selectionAfterLoad
  split
  · split
    · rename_i h
      exact Or.inr h.2
    · split
      · exact Or.inl rfl
      · exact hhead
  · exact hhead

/-- The series that comes with the index is the one of its process. -/
theorem initialSeries_eq {series : Series} {pid : List Char}
    (hseries : c.prepared.initialSeries = some series) (hpid : c.prepared.initialPid = some pid) :
    series = c.seriesOf pid := by
  have hrange : ∀ n ∈ pidsOf c.file.lines, -2 ^ 31 ≤ n ∧ n < 2 ^ 31 := by
    intro n hn
    obtain ⟨line, hline, hn⟩ := List.mem_filterMap.mp hn
    exact c.file.pid_range line hline n hn
  obtain ⟨n, -, hn, hok⟩ := (prepareFile_initialSeries c.number c.date c.pidFromURL c.file.lines
    hrange).2 series hseries
  obtain rfl : pidText n = pid := Option.some.inj (hn.symm.trans hpid)
  rw [Session.seriesOf, hok]

theorem pageInv_loadedPage : PageInv c (loadedPage c) ∧ UpToDate c (loadedPage c) := by
  have hbase : PageInv c { pid := c.initialSelection, metric := c.metricFromURL } := by
    refine ⟨initialSelection_mem c, ?_, ?_⟩
    · intro pid series h
      cases h
    · intro pid metric h
      cases h
  simp only [loadedPage]
  apply updateChart_spec
  unfold View.cacheInitialSeries
  split
  · rename_i series pid hseries hpid
    split
    · rw [initialSeries_eq c hseries hpid]
      exact hbase.withCache pid
    · exact hbase
  · exact hbase

/-- What the timeline shows. For every file, every order of selections, changes of the colours
and ends of jobs after it was loaded: the timeline shows what is selected in every state on the
way exactly when every job that ends was started for what is selected then, or has nothing to
render, or the selection has no data. -/
theorem shows_iff (events : List PageEvent) :
    (∀ front, front <+: events → ∀ p, Run.exec (pageStep c) (loadedPage c) front = some p →
      Shows c p) ↔ Run.Along (pageStep c) (Harmless c) (loadedPage c) events := by
  obtain ⟨hinv, hup⟩ := pageInv_loadedPage c
  refine Run.safe_iff_along (I := PageInv c) (J := UpToDate c) (Q := Shows c)
    (fun p e p' h hstep => h.step hstep) (fun p e p' h hup hP hstep => hup.step h hP hstep) ?_
    (fun p e h hharm => not_shows_of_not_harmless h hharm) hinv hup events
  intro p _ hup hnone hdata
  rcases hup with hjob | hright
  · rw [hnone] at hjob
    cases hjob
  · exact hright hdata

end Spec

/-- A line of a process with the given number of threads. -/
def threadsLine (pid threads : String) : List Char :=
  ("\x7b\"timestamp\":\"2026-01-01 00:00:00.000\",\"pid\":" ++ pid ++ ",\"comm\":\"a\",\"threads\":"
    ++ threads ++ "\x7d").toList

/-- A file with one sample each of the processes 7 and 9. -/
def twoProcesses : List (List Char) := [threadsLine "7" "1", threadsLine "9" "2"]

theorem pidsOf_twoProcesses : pidsOf twoProcesses = [7, 9] := by decide +kernel

/-- This file on a page whose URL has no query for a process. -/
def twoProcessSession : Session where
  number := fun _ => none
  date := utcEnv
  inherited := fun _ => false
  file :=
    { lines := twoProcesses
      pid_range := by
        intro line hline pid hpid
        have hmem : pid ∈ pidsOf twoProcesses := List.mem_filterMap.mpr ⟨line, hline, hpid⟩
        rw [pidsOf_twoProcesses] at hmem
        rcases List.mem_pair.mp hmem with rfl | rfl <;> decide }
  pidFromURL := none
  metricFromURL := .threads

/-- Process 9 is selected, which starts a job, then 7, whose diagrams came with the index, and
then the job ends. -/
def lateEnd : List PageEvent := [.selectPid (pidText 9), .selectPid (pidText 7), .seriesComplete]

/-- In the end process 7 is selected and the chart is the one of process 9. -/
theorem not_shows_lateEnd :
    ¬ ∀ front, front <+: lateEnd → ∀ p,
      Run.exec (pageStep twoProcessSession) (loadedPage twoProcessSession) front = some p →
        Shows twoProcessSession p := by
  intro h
  have hselected : (Run.exec (pageStep twoProcessSession) (loadedPage twoProcessSession)
      lateEnd).map (fun p => (p.pid, p.metric)) = some (pidText 7, .threads) := by
    decide +kernel
  have hshown : (Run.exec (pageStep twoProcessSession) (loadedPage twoProcessSession)
      lateEnd).map (fun p => (p.seriesTask.isNone, p.timelineChart.map Chart.pid))
        = some (true, some (pidText 9)) := by
    decide +kernel
  obtain ⟨p, hrun, hp⟩ := Option.map_eq_some_iff.mp hselected
  rw [hrun, Option.map_some, Option.some.injEq, Prod.mk.injEq] at hshown
  obtain ⟨hpid, hmetric⟩ := Prod.mk.inj hp
  have hdata : twoProcessSession.HasData p.pid p.metric := by
    rw [hpid, hmetric]
    show ¬ _ = _
    decide +kernel
  rw [h lateEnd (List.prefix_refl _) p hrun (Option.isNone_iff_eq_none.mp hshown.1) hdata] at hshown
  have hsame : p.pid = pidText 9 := Option.some.inj hshown.2
  rw [hpid] at hsame
  revert hsame
  decide

end ProcessAnalyzer.Dashboard
