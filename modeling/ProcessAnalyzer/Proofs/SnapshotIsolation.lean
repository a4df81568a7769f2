import ProcessAnalyzer.Proofs.Filtering

/-!
# `ProcessAnalyzer.Proofs.SnapshotIsolation`: no data of one process in the record of another

`collect_snapshot` fills one local record again and again, and `read_proc_stat` reads from
one buffer. So two things could carry data from one process to the next: the fields of the
record that a failed read leaves, and the bytes behind the line in the buffer.

* `snapshotRecords_eq` of `ProcessAnalyzer.Proofs.Filtering` excludes the first: the record
  of a process is its sample, whatever the old record held.
* `splitStat_congr` excludes the second: when the last `)` is not the final byte of the
  line, the scan starts inside the line or at its NUL.

`record_isolated` puts the two together for a pair of snapshots. They may differ in all the
other entries, in what these reads leave in memory, and in the uninitialised bytes.
-/

set_option autoImplicit false

namespace ProcessAnalyzer

open ProcessAnalyzer.Lib ProcessAnalyzer.Stats

/-! ### The buffer of `read_proc_stat` -/

/-- When the last `)` is not the final byte of the line, the stale bytes of the buffer are
not read. -/
theorem splitStat_congr (stale₁ stale₂ line : Bytes)
    (h : ∀ lparen rparen, strchr (cString line) 40 = some lparen →
      strrchr (cString line) 41 = some rparen → rparen + 1 < line.length) :
    splitStat stale₁ line = splitStat stale₂ line := by
  unfold splitStat
  simp only [cString_append_nul]
  cases hl : strchr (cString line) 40 with
  | none => rfl
  | some lparen =>
      cases hr : strrchr (cString line) 41 with
      | none => rfl
      | some rparen =>
          have hlen : (cString line).length ≤ line.length := (List.takeWhile_prefix _).length_le
          have hlparen : lparen + 1 ≤ line.length := by
            have hlt := lt_of_strchr hl
            omega
          have hrparen : rparen + 2 ≤ line.length := h lparen rparen hl hr
          simp only [cString_take, cString_drop_append_nul line _ hlparen,
            cString_drop_append_nul line _ hrparen]

/-! ### Two snapshots -/

/-- In the stat file the last `)`, if there is one behind a `(`, is not the final byte of the
line that `read_proc_stat` reads. -/
def ClosedBeforeEnd (content : Bytes) : Prop :=
  ∀ line ∈ (fgetsAll 1024 content).head?, ∀ lparen rparen,
    strchr (cString line) 40 = some lparen → strrchr (cString line) 41 = some rparen →
      rparen + 1 < line.length

/-- Two snapshots agree on a process: its files, whether it is the analyzer itself, the
timestamps and the page size of the machine. -/
structure SameProcess (env₁ env₂ : SnapshotEnv) (pid : Int32) : Prop where
  stat : env₁.files.stat pid = env₂.files.stat pid
  io : env₁.files.io pid = env₂.files.io pid
  fd : env₁.files.fd pid = env₂.files.fd pid
  closed : ∀ content ∈ env₁.files.stat pid, ClosedBeforeEnd content
  self : env₁.selfPid = pid ↔ env₂.selfPid = pid
  monotonic : env₁.monotonic = env₂.monotonic
  hRTimestamp : hRTimestampText env₁.wallClock = hRTimestampText env₂.wallClock
  pageSizeKb : env₁.pageSizeKb = env₂.pageSizeKb

section TwoSnapshots
variable {env₁ env₂ : SnapshotEnv} {pid : Int32}

/-- The two reads find the same parentheses. -/
theorem statParts_congr (h : SameProcess env₁ env₂ pid) :
    statParts env₁.files (env₁.stale pid) pid = statParts env₂.files (env₂.stale pid) pid := by
  unfold statParts
  rw [← h.stat]
  cases hstat : env₁.files.stat pid with
  | none => rfl
  | some content =>
      have hclosed := h.closed content hstat
      cases hline : (fgetsAll 1024 content).head? with
      | none => simp [hline]
      | some line =>
          simp only [Option.bind_some, hline]
          exact splitStat_congr _ _ line (hclosed line hline)

/-- The two snapshots have the same sample of the process. -/
theorem sampleOf_congr (h : SameProcess env₁ env₂ pid) : sampleOf env₁ pid = sampleOf env₂ pid := by
  have hread : ∀ p : ProcessStateInput,
      readProcStat env₁.files (env₁.stale pid) env₁.pageSizeKb pid p
        = readProcStat env₂.files (env₂.stale pid) env₂.pageSizeKb pid p := by
    intro p
    have hparts := statParts_congr h
    unfold statParts at hparts
    simp only [readProcStat, hparts, h.pageSizeKb, readProcIo, h.io]
  have hfresh : SameOrigin { freshRecord env₁ with pid := pid }
      { freshRecord env₂ with pid := pid } := by
    constructor
    · rfl
    · simp only [freshRecord, h.monotonic]
    · simp only [freshRecord, h.hRTimestamp]
  have hfd : ∀ p : ProcessStateInput, p.pid = pid → readFd env₁.files p = readFd env₂.files p := by
    intro p hp
    simp only [readFd, countOpenFdsForPid, hp, h.fd]
  obtain ⟨hok, hsame⟩ :=
    readProcStat_congr env₂.files (env₂.stale pid) env₂.pageSizeKb pid hfresh
  have hpid := (sameOrigin_readProcStat env₂.files (env₂.stale pid) env₂.pageSizeKb pid
    { freshRecord env₁ with pid := pid }).pid
  unfold sampleOf
  rw [hread]
  generalize readProcStat env₂.files (env₂.stale pid) env₂.pageSizeKb pid
    { freshRecord env₁ with pid := pid } = r at *
  generalize readProcStat env₂.files (env₂.stale pid) env₂.pageSizeKb pid
    { freshRecord env₂ with pid := pid } = q at *
  obtain ⟨r, okr⟩ := r
  obtain ⟨q, okq⟩ := q
  simp only at hok hsame hpid
  subst hok
  cases okr with
  | false => rfl
  | true =>
      show some (readFd env₁.files r) = some (readFd env₂.files q)
      rw [hfd r hpid, (hsame rfl).2]

end TwoSnapshots

/-! ### The outputs of the two snapshots -/

/-- `collect_snapshot` with the records of its loop given. -/
def emitSnapshot (config : Config) (env : SnapshotEnv) (rs : List ProcessStateInput) (o : Output)
    (stats : StatsModule) : Output × StatsModule :=
  let start := ((handleRotations config env o).logData config
    (ascii "[" ++ hRTimestampText env.wallClock ++ ascii "] ")).logData config
    (ascii " SNAPSHOT START ################# \n")
  let out := rs.foldl (fun t r => emitRecord config env r t) (start, stats)
  ((out.1.logData config (ascii "SNAPSHOT END ################# \n")).flushOutputFiles config,
    processStatsSnapshotEnd out.2)

/-- `collect_snapshot` emits its records. -/
theorem collectSnapshot_eq_emitSnapshot (config : Config) (env : SnapshotEnv) (w : ApPidWhitelist)
    (o : Output) (stats : StatsModule) :
    collectSnapshot config env w o stats
      = emitSnapshot config env (snapshotRecords config env w) o stats := by
  rw [collectSnapshot_eq]
  simp only [emitSnapshot]

/-- Around the entry `de` the snapshot emits the record, and otherwise what it would emit for
the entries before and behind it alone. -/
def EmitsAt (config : Config) (env : SnapshotEnv) (w : ApPidWhitelist)
    (before after : List DirEntry) (record : Option ProcessStateInput) : Prop :=
  ∀ o stats, collectSnapshot config env w o stats
    = emitSnapshot config env
        (snapshotRecords config { env with entries := before } w ++ record.toList
          ++ snapshotRecords config { env with entries := after } w) o stats

/-- The sample of a process does not depend on the listing. -/
theorem sampleOf_entries (env : SnapshotEnv) (entries : List DirEntry) :
    sampleOf { env with entries := entries } = sampleOf env := by
  funext pid
  simp only [sampleOf, freshRecord]

/-- The records of a part of the listing. -/
theorem snapshotRecords_entries (config : Config) (env : SnapshotEnv) (w : ApPidWhitelist)
    (entries : List DirEntry) :
    snapshotRecords config { env with entries := entries } w
      = ((entries.filterMap entryPid).filterMap (sampleOf env)).filter fun r =>
          decide (Passes config env w r) := by
  rw [snapshotRecords_eq, sampleOf_entries]
  apply List.filter_congr
  intro r _
  rw [decide_eq_decide]
  exact Iff.rfl

/-- The records of a snapshot around one entry. -/
theorem snapshotRecords_at (config : Config) (env : SnapshotEnv) (w : ApPidWhitelist)
    (de : DirEntry)
    {before after : List DirEntry} (h : env.entries = before ++ de :: after) :
    snapshotRecords config env w
      = snapshotRecords config { env with entries := before } w
        ++ ((entryPid de).bind fun pid =>
            (sampleOf env pid).filter fun r => decide (Passes config env w r)).toList
        ++ snapshotRecords config { env with entries := after } w := by
  -- The lists on both sides are filtered samples, entry by entry.
  rw [snapshotRecords_eq, snapshotRecords_entries, snapshotRecords_entries]
  have hpids : presentPids env = before.filterMap entryPid ++ (entryPid de).toList
      ++ after.filterMap entryPid := by
    unfold presentPids
    rw [h, List.filterMap_append, List.filterMap_cons]
    cases entryPid de <;> simp
  have hmid : ((entryPid de).toList.filterMap (sampleOf env)).filter
        (fun r => decide (Passes config env w r))
      = ((entryPid de).bind fun pid =>
          (sampleOf env pid).filter fun r => decide (Passes config env w r)).toList := by
    cases entryPid de with
    | none => rfl
    | some pid =>
        cases hs : sampleOf env pid with
        | none => simp [hs]
        | some r => by_cases hp : Passes config env w r <;> simp [hs, hp, Option.filter]
  rw [hpids, List.filterMap_append, List.filterMap_append, List.filter_append, List.filter_append,
    hmid]

/-- What a snapshot emits for one entry. -/
theorem emitsAt_sampleOf (config : Config) (env : SnapshotEnv) (w : ApPidWhitelist) (de : DirEntry)
    {before after : List DirEntry} (h : env.entries = before ++ de :: after) :
    EmitsAt config env w before after ((entryPid de).bind fun pid =>
      (sampleOf env pid).filter fun r => decide (Passes config env w r)) := by
  intro o stats
  exact (collectSnapshot_eq_emitSnapshot config env w o stats).trans
    (congrArg (fun rs => emitSnapshot config env rs o stats) (snapshotRecords_at config env w de h))

/-- The filters look at the PID and the name of the sample, so the two snapshots also agree
on whether it is recorded. -/
theorem entryRecord_congr (config : Config) (w : ApPidWhitelist) {env₁ env₂ : SnapshotEnv}
    (de : DirEntry) (hsame : ∀ pid ∈ entryPid de, SameProcess env₁ env₂ pid) :
    ((entryPid de).bind fun pid =>
        (sampleOf env₁ pid).filter fun r => decide (Passes config env₁ w r))
      = (entryPid de).bind fun pid =>
        (sampleOf env₂ pid).filter fun r => decide (Passes config env₂ w r) := by
  cases hpid : entryPid de with
  | none => rw [Option.bind_none, Option.bind_none]
  | some pid =>
      have hp := hsame pid hpid
      simp only [Option.bind_some, sampleOf_congr hp]
      cases hs : sampleOf env₂ pid with
      | none => rw [Option.filter_none, Option.filter_none]
      | some r =>
          have hrpid : r.pid = pid := (sameOrigin_of_sampleOf hs).pid
          have hself : r.pid = env₁.selfPid ↔ r.pid = env₂.selfPid := by
            rw [hrpid, eq_comm, hp.self, eq_comm]
          have hpass : decide (Passes config env₁ w r) = decide (Passes config env₂ w r) := by
            rw [decide_eq_decide]
            unfold Passes
            rw [hself]
          rw [Option.filter_some, Option.filter_some, hpass]

/-- The record of a process depends on that process and the timestamp only. Two snapshots
that agree on these emit the same record for it, whatever else they list and read. -/
theorem record_isolated (config : Config) (w : ApPidWhitelist) (env₁ env₂ : SnapshotEnv)
    (de : DirEntry) (before₁ after₁ before₂ after₂ : List DirEntry)
    (h₁ : env₁.entries = before₁ ++ de :: after₁) (h₂ : env₂.entries = before₂ ++ de :: after₂)
    (hsame : ∀ pid ∈ entryPid de, SameProcess env₁ env₂ pid) :
    ∃ record : Option ProcessStateInput,
      (∀ r ∈ record, r.pid ∈ entryPid de) ∧
      EmitsAt config env₁ w before₁ after₁ record ∧ EmitsAt config env₂ w before₂ after₂ record := by
  have hrecord := entryRecord_congr config w de hsame
  refine ⟨_, ?_, emitsAt_sampleOf config env₁ w de h₁, ?_⟩
  · intro r hr
    obtain ⟨pid, hpid, hsample⟩ := Option.bind_eq_some_iff.mp hr
    have hrpid : r.pid = pid :=
      (sameOrigin_of_sampleOf (Option.eq_some_of_filter_eq_some hsample)).pid
    rw [hrpid]
    exact hpid
  · rw [hrecord]
    exact emitsAt_sampleOf config env₂ w de h₂

/-- Another listing with process 1, behind a process whose files cannot be read, with other
bytes in the record and in the buffer. -/
def crowdedEnv : SnapshotEnv :=
  { initEnv with
    entries := [⟨ascii "7", true⟩, ⟨ascii "1", true⟩]
    files :=
      { initEnv.files with
        stat := fun pid => if pid = 7 then some (ascii "7 (x)") else initEnv.files.stat pid }
    stale := fun _ => ascii "S 1 1"
    garbage := { initEnv.garbage with rssKb := 900, boIsRssValid := true } }

theorem sameProcess_init : SameProcess initEnv crowdedEnv 1 where
  stat := rfl
  io := rfl
  fd := rfl
  closed := by
    intro content hcontent
    obtain rfl := Option.some.inj hcontent
    intro line hline lparen rparen hl hr
    have hhead : (fgetsAll 1024 (ascii "1 (init) S 0 1 1 0 -1 64 1 2 3 4 5 3 6 7 20 0 1 0 8 9 300\n")).head?
        = some (ascii "1 (init) S 0 1 1 0 -1 64 1 2 3 4 5 3 6 7 20 0 1 0 8 9 300\n") := by decide
    obtain rfl := Option.some.inj (hhead.symm.trans hline)
    have hrparen : rparen = 7 := Option.some.inj (hr.symm.trans (by decide))
    rw [hrparen]
    decide
  self := Iff.rfl
  monotonic := rfl
  hRTimestamp := rfl
  pageSizeKb := rfl

theorem record_isolated_init :
    ∃ record : Option ProcessStateInput,
      (∀ r ∈ record, r.pid ∈ entryPid ⟨ascii "1", true⟩) ∧
      EmitsAt configDefault initEnv {} [] [⟨ascii "uptime", false⟩] record ∧
      EmitsAt configDefault crowdedEnv {} [⟨ascii "7", true⟩] [] record :=
  record_isolated configDefault {} initEnv crowdedEnv ⟨ascii "1", true⟩ [] _ [⟨ascii "7", true⟩] []
    rfl rfl (by
      intro pid hpid
      have hone : pid = 1 := Option.some.inj (hpid.symm.trans (by decide))
      rw [hone]
      exact sameProcess_init)

end ProcessAnalyzer
