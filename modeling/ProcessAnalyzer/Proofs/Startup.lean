import ProcessAnalyzer.Proofs.Filtering
import ProcessAnalyzer.Proofs.Retention

/-!
# `ProcessAnalyzer.Proofs.Startup`: what a successful start promises

`process_snapshot_initialize` has one status variable for two files. When the text log
cannot be opened and the JSONL file can, the second assignment hides the first, and the
program runs without its text log.

`StartIsLive` is the promise of a successful start: in every sequence of snapshots in which
files can be reopened after a rotation, every record that the statistics get is also in the
part that its snapshot adds to each enabled file. `startIsLive_iff` says that the start
keeps it unless the failure of the text log is hidden (`LogFailureHidden`).

The promise is an invariant of the snapshots. `Ready` says that the next rotation check
leaves the output open: it is open already, or its file is so large that the check closes
and reopens it. The second case is how a log that could not be opened can come back.
-/

set_option autoImplicit false

namespace ProcessAnalyzer

open ProcessAnalyzer.Lib ProcessAnalyzer.Stats

variable {config : Config} {b c : LogBase}

/-! ### The active file of an output -/

/-- The active file and the stream of an output are the same. -/
structure SameActive (config : Config) (b : LogBase) (o o' : Output) : Prop where
  file : o'.rotation.dir (b.path config) = o.rotation.dir (b.path config)
  stream : o'.streams b = o.streams b

theorem SameFor.sameActive {o o' : Output} (h : SameFor config b o o') : SameActive config b o o' :=
  ⟨h.files .active, h.stream⟩

theorem SameActive.trans {o o' o'' : Output} (h : SameActive config b o o')
    (h' : SameActive config b o' o'') : SameActive config b o o'' :=
  ⟨h'.file.trans h.file, h'.stream.trans h.stream⟩

/-! ### Open outputs -/

/-- After the next rotation check the output is open. -/
def Ready (config : Config) (b : LogBase) (o : Output) : Prop :=
  (∃ text, Flushed config b text o) ∨
    getFileSize o.rotation.dir (b.path config) ≥ config.configGetMaxFileSizeBytes.toInt

theorem Ready.congr {o o' : Output} (h : Ready config b o) (hsame : SameActive config b o o') :
    Ready config b o' := by
  rcases h with ⟨text, hfile, hstream⟩ | hsize
  · exact .inl ⟨text, hsame.file.trans hfile, hsame.stream.trans hstream⟩
  · right
    unfold getFileSize at *
    rw [hsame.file]
    exact hsize

/-- A successful `fopen` opens the output. -/
theorem flushed_fopenAppend (config : Config) (b : LogBase) (o : Output) :
    ∃ text, Flushed config b text (o.fopenAppend config b) := by
  have hstream : (o.fopenAppend config b).streams b = some [] := Function.update_self _ _ _
  cases hfile : o.rotation.dir (b.path config) with
  | none =>
      refine ⟨[], ?_, hstream⟩
      simp [Output.fopenAppend, Output.withStream, Output.withDir, hfile, Dir.store_apply]
  | some text =>
      refine ⟨text, ?_, hstream⟩
      simp [Output.fopenAppend, Output.withStream, Output.withDir, hfile]

/-- The rotation check of a ready output. -/
theorem flushed_handleRotation {o : Output} (h : Ready config b o) (env : SnapshotEnv)
    (hb : b.enabled config = true) (hreopen : env.reopenOk b = true) :
    ∃ text, Flushed config b text (handleRotation config env b o) := by
  unfold handleRotation
  rw [if_pos hb]
  split
  · unfold rotateAndReopen
    simp only [hreopen, if_true]
    exact flushed_fopenAppend config b _
  · rename_i hsmall
    exact h.resolve_right hsmall

/-- The two rotation checks. -/
theorem flushed_handleRotations {o : Output} (h : Ready config b o) (env : SnapshotEnv)
    (hb : b.enabled config = true) (hreopen : env.reopenOk b = true) :
    ∃ text, Flushed config b text (handleRotations config env o) := by
  unfold handleRotations
  cases b with
  | log =>
      obtain ⟨text, hfile, hstream⟩ := flushed_handleRotation h env hb hreopen
      have hsame := (sameFor_handleRotation config (show LogBase.log ≠ .jsonl by decide) env
        (handleRotation config env .log o)).sameActive
      exact ⟨text, hsame.file.trans hfile, hsame.stream.trans hstream⟩
  | jsonl =>
      have hsame :=
        (sameFor_handleRotation config (show LogBase.jsonl ≠ .log by decide) env o).sameActive
      exact flushed_handleRotation (h.congr hsame) env hb hreopen

/-! ### The promise of a start -/

/-- Every record that the statistics get from this snapshot is in the part that the snapshot
adds to the active file, behind the rotation check. -/
def Recorded (config : Config) (w : ApPidWhitelist) (b : LogBase) (env : SnapshotEnv)
    (s : Output × StatsModule) : Prop :=
  ∀ r ∈ snapshotRecords config env w, ∃ text before after,
    (handleRotations config env s.1).rotation.dir (b.path config) = some text ∧
    (collectSnapshot config env w s.1 s.2).1.rotation.dir (b.path config)
      = some (text ++ before ++ lineOf b r ++ after)

/-- A successful start means that every enabled output is live, in every later sequence of
snapshots in which files can be reopened. -/
def StartIsLive (config : Config) (env : InitEnv) (r : Rotation Bytes) : Prop :=
  (processSnapshotInitialize config env { rotation := r }).1 = .success →
  ∀ (w : ApPidWhitelist) (stats : StatsModule) (envs : List SnapshotEnv) (next : SnapshotEnv),
    (∀ env ∈ envs ++ [next], ∀ b, env.reopenOk b = true) →
    ∀ b : LogBase, b.enabled config = true →
      Recorded config w b next
        (collectSnapshots config w envs
          ((processSnapshotInitialize config env { rotation := r }).2, stats))

/-- The text log cannot be opened, the JSONL file can, and the old text log is not so large
that the first snapshot rotates and reopens it. -/
def LogFailureHidden (config : Config) (env : InitEnv) (r : Rotation Bytes) : Prop :=
  env.procDirOk = true ∧ env.lock = .locked ∧
  LogBase.log.enabled config = true ∧ LogBase.jsonl.enabled config = true ∧
  env.fopenOk .log = false ∧ env.fopenOk .jsonl = true ∧
  getFileSize r.dir (LogBase.log.path config) < config.configGetMaxFileSizeBytes.toInt

/-- The line of a record is in the block of its snapshot. -/
theorem lineOf_infix_snapshotBlock (b : LogBase) {env : SnapshotEnv} {w : ApPidWhitelist}
    {r : ProcessStateInput} (hr : r ∈ snapshotRecords config env w) :
    lineOf b r <:+: snapshotBlock config env w b := by
  have hlines : lineOf b r <:+: ((snapshotRecords config env w).map (lineOf b)).flatten :=
    List.infix_of_mem_flatten (List.mem_map_of_mem hr)
  cases b with
  | log => exact hlines.trans ⟨_, _, rfl⟩
  | jsonl => exact hlines

/-- A snapshot of a ready output records everything and leaves the output open. -/
theorem recorded_of_ready {s : Output × StatsModule} (h : Ready config b s.1) (w : ApPidWhitelist)
    (env : SnapshotEnv) (hb : b.enabled config = true) (hreopen : env.reopenOk b = true) :
    Recorded config w b env s ∧ Ready config b (collectSnapshot config env w s.1 s.2).1 := by
  obtain ⟨text, hflushed⟩ := flushed_handleRotations h env hb hreopen
  have hblock := flushed_collectSnapshot config env w b s.1 s.2 hflushed
  constructor
  · intro r hr
    obtain ⟨before, after, hinfix⟩ := lineOf_infix_snapshotBlock b hr
    refine ⟨text, before, after, hflushed.file, ?_⟩
    rw [hblock.file, ← hinfix]
    simp only [List.append_assoc]
  · exact .inl ⟨_, hblock⟩

/-- In a sequence of snapshots a ready output stays ready. -/
theorem ready_collectSnapshots {s : Output × StatsModule} (h : Ready config b s.1)
    (w : ApPidWhitelist) (envs : List SnapshotEnv) (hb : b.enabled config = true)
    (hreopen : ∀ env ∈ envs, env.reopenOk b = true) :
    Ready config b (collectSnapshots config w envs s).1 := by
  unfold collectSnapshots
  induction envs generalizing s with
  | nil => exact h
  | cons env envs ih =>
      obtain ⟨henv, henvs⟩ := List.forall_mem_cons.mp hreopen
      exact ih (recorded_of_ready h w env hb henv).2 henvs

/-- A message leaves the files alone. -/
theorem sameActive_stderr (o : Output) (text : Bytes) :
    SameActive config b o { o with stderr := text } :=
  ⟨rfl, rfl⟩

/-- Opening the JSONL file leaves the text log alone. -/
theorem sameActive_open_jsonl (o : Output) :
    SameActive config .log o (o.fopenAppend config .jsonl) :=
  (sameFor_fopenAppend (by decide) o).sameActive

/-- A successful start leaves every enabled output ready, unless it hides the failure of the
text log. -/
theorem ready_of_success {env : InitEnv} {r : Rotation Bytes}
    (hsuccess : (processSnapshotInitialize config env { rotation := r }).1 = .success)
    (hseen : ¬ LogFailureHidden config env r) (hb : b.enabled config = true) :
    Ready config b (processSnapshotInitialize config env { rotation := r }).2 := by
  unfold processSnapshotInitialize at hsuccess ⊢
  by_cases hproc : env.procDirOk = false
  · rw [if_pos hproc] at hsuccess
    cases hsuccess
  rw [if_neg hproc] at hsuccess ⊢
  by_cases hnone : config.configGetRawLogEnabled = false ∧ config.configGetRawJsonlEnabled = false
  · cases b
    · exact absurd hb (by simp [LogBase.enabled, hnone.1])
    · exact absurd hb (by simp [LogBase.enabled, hnone.2])
  rw [if_neg hnone] at hsuccess ⊢
  by_cases hlock : env.lock ≠ .locked
  · rw [if_pos hlock] at hsuccess
    cases hsuccess
  rw [if_neg hlock] at hsuccess ⊢
  have hlocked : SameActive config .log { rotation := r }
      (Output.lock config env.lock { rotation := r }) := (sameFor_lock env.lock _).sameActive
  cases b with
  | jsonl =>
      -- The status is that of the JSONL file, which is opened last.
      cases hopen : env.fopenOk .jsonl with
      | true =>
          simp only [openOutput, hb, hopen, if_true]
          exact .inl (flushed_fopenAppend config .jsonl _)
      | false => simp [openOutput, hb, hopen] at hsuccess
  | log =>
      cases hopen : env.fopenOk .log with
      | true =>
          have hready : Ready config .log
              ((Output.lock config env.lock { rotation := r }).fopenAppend config .log) :=
            .inl (flushed_fopenAppend config .log _)
          simp only [openOutput, hb, hopen, if_true]
          split
          · split
            · exact hready.congr (sameActive_open_jsonl _)
            · exact hready.congr ⟨rfl, rfl⟩
          · exact hready
      | false =>
          by_cases hjsonl : LogBase.jsonl.enabled config = true
          · cases hopen' : env.fopenOk .jsonl with
            | true =>
                have hsize : getFileSize r.dir (LogBase.log.path config)
                    ≥ config.configGetMaxFileSizeBytes.toInt := by
                  by_contra hsmall
                  exact hseen ⟨by simpa using hproc, not_ne_iff.mp hlock, hb, hjsonl, hopen, hopen',
                    by omega⟩
                simp only [openOutput, hb, hopen, hjsonl, hopen', if_true, Bool.false_eq_true,
                  if_false]
                have hready : Ready config .log { rotation := r } := .inr hsize
                exact hready.congr
                  (hlocked.trans ((sameActive_stderr _ _).trans (sameActive_open_jsonl _)))
            | false => simp [openOutput, hjsonl, hopen'] at hsuccess
          · simp [openOutput, hb, hopen, hjsonl] at hsuccess

/-! ### A closed output -/

/-- Nothing is written to a closed stream. -/
theorem sameActive_write (config : Config) {o : Output} (h : o.streams b = none) (c : LogBase)
    (text : Bytes) :
    SameActive config b o (o.write config c text) := by
  by_cases hbc : b = c
  · subst hbc
    simp only [Output.write, h]
    exact ⟨rfl, rfl⟩
  · constructor
    · exact dir_write config c text o (path_ne config hbc)
    · unfold Output.write
      split
      · rfl
      · exact Function.update_of_ne hbc _ _

theorem sameActive_logData (config : Config) {o : Output} (h : o.streams b = none) (text : Bytes) :
    SameActive config b o (o.logData config text) := by
  unfold Output.logData
  simp only
  split
  · have hwrite := sameActive_write config
      (o := { o with stdout := o.stdout ++ text }) h .log text
    exact ⟨hwrite.file, hwrite.stream⟩
  · exact sameActive_write config h .log text

theorem sameActive_fflush (config : Config) {o : Output} (h : o.streams b = none) (c : LogBase) :
    SameActive config b o (o.fflush config c) := by
  by_cases hbc : b = c
  · subst hbc
    simp only [Output.fflush, h]
    exact ⟨rfl, rfl⟩
  · constructor
    · exact dir_fflush config c o (path_ne config hbc)
    · unfold Output.fflush
      split
      · rfl
      · exact Function.update_of_ne hbc _ _

theorem sameActive_foldl_emitRecord (env : SnapshotEnv) (rs : List ProcessStateInput)
    {s : Output × StatsModule} (h : s.1.streams b = none) :
    SameActive config b s.1 (rs.foldl (fun t r => emitRecord config env r t) s).1 := by
  induction rs generalizing s with
  | nil => exact ⟨rfl, rfl⟩
  | cons r rs ih =>
      have hlog := sameActive_logData config h (logLine r)
      have hjson := sameActive_write config (hlog.stream.trans h) .jsonl (jsonLine r)
      have hemit : SameActive config b s.1 (emitRecord config env r s).1 := hlog.trans hjson
      exact hemit.trans (ih (hemit.stream.trans h))

/-- Behind the rotation check a snapshot leaves a closed output as it is. -/
theorem file_collectSnapshot_of_closed (w : ApPidWhitelist) (env : SnapshotEnv)
    (s : Output × StatsModule) (h : (handleRotations config env s.1).streams b = none) :
    (collectSnapshot config env w s.1 s.2).1.rotation.dir (b.path config)
      = (handleRotations config env s.1).rotation.dir (b.path config) := by
  rw [collectSnapshot_eq]
  simp only [Output.flushOutputFiles]
  have h₁ := sameActive_logData config h
    (ascii "[" ++ hRTimestampText env.wallClock ++ ascii "] ")
  have h₂ := h₁.trans (sameActive_logData config (h₁.stream.trans h)
    (ascii " SNAPSHOT START ################# \n"))
  have h₃ := h₂.trans (sameActive_foldl_emitRecord env (snapshotRecords config env w)
    (s := (_, s.2)) (h₂.stream.trans h))
  have h₄ := h₃.trans (sameActive_logData config (h₃.stream.trans h)
    (ascii "SNAPSHOT END ################# \n"))
  have h₅ := h₄.trans (sameActive_fflush config (h₄.stream.trans h) .log)
  exact (h₅.trans (sameActive_fflush config (h₅.stream.trans h) .jsonl)).file

/-- Process 1 of `initEnv` is recorded under every configuration. -/
theorem exists_record_init (config : Config) : ∃ r, r ∈ snapshotRecords config initEnv {} := by
  have hparts : statParts initEnv.files (initEnv.stale 1) 1
      = some (ascii "init", ascii "S 0 1 1 0 -1 64 1 2 3 4 5 3 6 7 20 0 1 0 8 9 300\n") := by decide
  obtain ⟨-, hok, -⟩ := readProcStat_of_some initEnv.files (initEnv.stale 1) initEnv.pageSizeKb 1
    { freshRecord initEnv with pid := 1 } hparts
  rw [ok_scanStat statFields _ _ ⟨0, 0, 0, 0, 0, 0⟩] at hok
  have hscan : (readProcStat initEnv.files (initEnv.stale 1) initEnv.pageSizeKb 1
      { freshRecord initEnv with pid := 1 }).2 = true := hok.trans (by decide)
  cases hsample : sampleOf initEnv 1 with
  | none =>
      unfold sampleOf at hsample
      split at hsample
      · cases hsample
      · rename_i q hread
        rw [hread] at hscan
        cases hscan
  | some r =>
      refine ⟨r, ?_⟩
      rw [snapshotRecords_eq, List.mem_filter, List.mem_filterMap]
      refine ⟨⟨1, by decide, hsample⟩, ?_⟩
      have hpid : r.pid = 1 := (sameOrigin_of_sampleOf hsample).pid
      rw [decide_eq_true_eq]
      constructor
      · rintro ⟨-, hself⟩
        rw [hpid] at hself
        exact absurd hself (by decide)
      · rintro ⟨hfilter, -⟩
        exact absurd hfilter (by decide)

/-- The line of a record is not empty. -/
theorem logLine_ne_nil (p : ProcessStateInput) : logLine p ≠ [] :=
  List.append_ne_nil_of_right_ne_nil _ (by decide)

/-- With a hidden failure the text log stays closed: the first snapshot writes to the JSONL
file only. -/
theorem not_startIsLive_of_hidden {env : InitEnv} {r : Rotation Bytes}
    (h : LogFailureHidden config env r) : ¬ StartIsLive config env r := by
  obtain ⟨hproc, hlock, hlog, hjsonl, hopen, hopen', hsize⟩ := h
  intro hlive
  have hinit : ∃ o, processSnapshotInitialize config env { rotation := r } = (.success, o) ∧
      SameActive config .log { rotation := r } o := by
    refine ⟨_, ?_, (sameFor_lock env.lock _).sameActive.trans ((sameActive_stderr _
      ((Output.lock config env.lock { rotation := r }).stderr
        ++ ascii "process_snapshot_initialize: Failed to open output file!\n")).trans
          (sameActive_open_jsonl _))⟩
    have hlog' : config.configGetRawLogEnabled = true := hlog
    simp [processSnapshotInitialize, hproc, hlock, hlog', openOutput, hlog, hjsonl, hopen, hopen']
  obtain ⟨o, hinit, hsame⟩ := hinit
  obtain ⟨p, hp⟩ := exists_record_init config
  simp only [StartIsLive, hinit] at hlive
  have hrecorded := hlive trivial {} {} [] initEnv (by simp [initEnv, quietEnv]) .log hlog
  simp only [collectSnapshots, List.foldl_nil] at hrecorded
  obtain ⟨text, before, after, htext, hline⟩ := hrecorded p hp
  -- The rotation check finds a small file and leaves the closed stream alone.
  have hcheck : handleRotation config initEnv .log o = o := by
    have hsmall : ¬ getFileSize o.rotation.dir (LogBase.log.path config)
        ≥ config.configGetMaxFileSizeBytes.toInt := by
      unfold getFileSize at *
      rw [hsame.file]
      exact not_le.mpr hsize
    unfold handleRotation
    rw [if_pos hlog, if_neg hsmall]
  have hclosed : (handleRotations config initEnv o).streams .log = none := by
    unfold handleRotations
    rw [(sameFor_handleRotation config (by decide) initEnv _).stream, hcheck, hsame.stream]
  rw [file_collectSnapshot_of_closed {} initEnv (o, {}) hclosed, htext, Option.some.injEq,
    List.append_assoc, List.append_assoc] at hline
  have hnil := List.self_eq_append_right.mp hline
  rw [List.append_eq_nil_iff, List.append_eq_nil_iff] at hnil
  exact logLine_ne_nil p hnil.2.1

/-- A successful start means that every enabled output is live, exactly when it does not hide
the failure of the text log. -/
theorem startIsLive_iff (config : Config) (env : InitEnv) (r : Rotation Bytes) :
    StartIsLive config env r ↔ ¬ LogFailureHidden config env r := by
  constructor
  · intro hlive hhidden
    exact not_startIsLive_of_hidden hhidden hlive
  · intro hseen hsuccess w stats envs next hreopen b hb
    have hstart : Ready config b (processSnapshotInitialize config env { rotation := r }).2 :=
      ready_of_success hsuccess hseen hb
    have hready := ready_collectSnapshots (s := (_, stats)) hstart w envs hb fun env henv =>
      hreopen env (List.mem_append_left _ henv) b
    exact (recorded_of_ready hready w next hb (hreopen next (by simp) b)).1

/-- With the default configuration and an empty directory: the text log cannot be created, the
JSONL file can, and the start succeeds. -/
theorem not_startIsLive_emptyDir :
    ¬ StartIsLive configDefault ⟨true, .locked, fun b => b = .jsonl⟩ { dir := fun _ => none } :=
  not_startIsLive_of_hidden ⟨rfl, rfl, rfl, rfl, rfl, rfl, by decide⟩

end ProcessAnalyzer
