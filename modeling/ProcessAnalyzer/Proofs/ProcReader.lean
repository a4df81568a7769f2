import ProcessAnalyzer.Model.ProcReader

/-!
# `ProcessAnalyzer.Proofs.ProcReader`: the readers overwrite the reused record

`collect_snapshot` reads all processes into one record. A read that succeeds assigns every
field except the PID and the timestamps, so nothing of the previous process is left:

* `sameOrigin_readProcStat`: the reads keep the PID and the timestamps.
* `readProcStat_congr`: whether the read succeeds does not depend on the old record, and
  neither does the record that `read_fd` completes afterwards.
-/

set_option autoImplicit false

namespace ProcessAnalyzer.Stats

open ProcessAnalyzer.Lib

/-- Two records of the same process in the same snapshot. -/
structure SameOrigin (p q : ProcessStateInput) : Prop where
  pid : p.pid = q.pid
  timestamp : p.timestamp = q.timestamp
  hRTimestamp : p.hRTimestamp = q.hRTimestamp

/-! ### The scan of the stat line -/

/-- A scan succeeds or fails whatever the targets hold. -/
theorem ok_scanStat (fs : List StatField) (s : Bytes) (t u : StatTargets) :
    (scanStat fs s t).2 = (scanStat fs s u).2 := by
  induction fs generalizing s t u with
  | nil => rfl
  | cons f fs ih =>
      rw [scanStat, scanStat]
      cases convertField f s with
      | none => rfl
      | some r => exact ih r.2 _ _

/-- A successful scan leaves nothing of what a target held that it assigns. `get` reads the
target, and `f₀` is the one conversion that assigns it. -/
theorem get_scanStat {α : Type} (get : StatTargets → α) (f₀ : StatField) {set : Int → α}
    (hset : ∀ v t, get (assignField f₀ v t) = set v)
    (hkeep : ∀ f v t, f ≠ f₀ → get (assignField f v t) = get t) (fs : List StatField) (s : Bytes)
    (t u : StatTargets) (hok : (scanStat fs s t).2 = true) (h : f₀ ∈ fs ∨ get t = get u) :
    get (scanStat fs s t).1 = get (scanStat fs s u).1 := by
  induction fs generalizing s t u with
  | nil => exact h.resolve_left (by simp)
  | cons f fs ih =>
      rw [scanStat] at hok ⊢
      rw [scanStat]
      cases hconv : convertField f s with
      | none => rw [hconv] at hok; cases hok
      | some r =>
          rw [hconv] at hok
          refine ih r.2 _ _ hok ?_
          -- This conversion assigns the target, or a later one does.
          by_cases hf : f = f₀
          · right
            rw [hf, hset, hset]
          · rw [hkeep _ _ _ hf, hkeep _ _ _ hf]
            rcases h with hmem | heq
            · exact Or.inl ((List.mem_cons.mp hmem).resolve_left fun h => hf h.symm)
            · exact Or.inr heq

/-- A successful scan of all fields does not depend on what the targets held. -/
theorem scanStat_congr (s : Bytes) (t u : StatTargets) (hok : (scanStat statFields s t).2 = true) :
    (scanStat statFields s t).1 = (scanStat statFields s u).1 := by
  -- Every target is assigned by the conversion of its own field, and by no other.
  have hget : ∀ {α : Type} (get : StatTargets → α) (f₀ : StatField) {set : Int → α},
      (∀ v t, get (assignField f₀ v t) = set v) →
      (∀ f v t, f ≠ f₀ → get (assignField f v t) = get t) → f₀ ∈ statFields →
      get (scanStat statFields s t).1 = get (scanStat statFields s u).1 :=
    fun get f₀ _ hset hkeep hmem => get_scanStat get f₀ hset hkeep statFields s t u hok (.inl hmem)
  have hstate := hget StatTargets.state .state (fun _ _ => rfl)
    (fun f _ _ hf => by cases f <;> first | rfl | exact absurd rfl hf) (by decide)
  have hppid := hget StatTargets.ppid .ppid (fun _ _ => rfl)
    (fun f _ _ hf => by cases f <;> first | rfl | exact absurd rfl hf) (by decide)
  have hutime := hget StatTargets.utime .utime (fun _ _ => rfl)
    (fun f _ _ hf => by cases f <;> first | rfl | exact absurd rfl hf) (by decide)
  have hstime := hget StatTargets.stime .stime (fun _ _ => rfl)
    (fun f _ _ hf => by cases f <;> first | rfl | exact absurd rfl hf) (by decide)
  have hthreads := hget StatTargets.threads .threads (fun _ _ => rfl)
    (fun f _ _ hf => by cases f <;> first | rfl | exact absurd rfl hf) (by decide)
  have hrss := hget StatTargets.rssPages .rss (fun _ _ => rfl)
    (fun f _ _ hf => by cases f <;> first | rfl | exact absurd rfl hf) (by decide)
  generalize (scanStat statFields s t).1 = t' at *
  generalize (scanStat statFields s u).1 = u' at *
  cases t'
  cases u'
  simp only at hstate hppid hutime hstime hthreads hrss
  rw [hstate, hppid, hutime, hstime, hthreads, hrss]

/-! ### The I/O counters -/

/-- The effect of one line of an `io` file on the two counters. -/
def ioCounterStep (c : UInt64 × UInt64) (line : Bytes) : UInt64 × UInt64 :=
  match scanIoLine (ascii "read_bytes:") line with
  | some v => (v / 1024, c.2)
  | none =>
      match scanIoLine (ascii "write_bytes:") line with
      | some v => (c.1, v / 1024)
      | none => c

/-- The loop of `read_proc_io` changes the two counters only. -/
theorem foldl_readIoLine (lines : List Bytes) (p : ProcessStateInput) :
    lines.foldl readIoLine p
      = { p with
          readKbytes := (lines.foldl ioCounterStep (p.readKbytes, p.writeKbytes)).1
          writeKbytes := (lines.foldl ioCounterStep (p.readKbytes, p.writeKbytes)).2 } := by
  induction lines generalizing p with
  | nil => rfl
  | cons line lines ih =>
      -- The counters take the step, the rest of the record stays.
      have hstep : ((readIoLine p line).readKbytes, (readIoLine p line).writeKbytes)
          = ioCounterStep (p.readKbytes, p.writeKbytes) line := by
        unfold readIoLine ioCounterStep
        cases scanIoLine (ascii "read_bytes:") line with
        | some v => rfl
        | none => cases scanIoLine (ascii "write_bytes:") line <;> rfl
      have hrest : { readIoLine p line with readKbytes := 0, writeKbytes := 0 }
          = { p with readKbytes := 0, writeKbytes := 0 } := by
        unfold readIoLine
        cases scanIoLine (ascii "read_bytes:") line with
        | some v => rfl
        | none => cases scanIoLine (ascii "write_bytes:") line <;> rfl
      rw [List.foldl_cons, List.foldl_cons, ih, hstep]
      rw [ProcessStateInput.ext_iff] at hrest ⊢
      simpa only [and_true, true_and] using hrest

/-- The I/O fields that `read_proc_stat` leaves: the two counters and the flag. -/
def ioFields (files : ProcFiles) (pid : Int32) : UInt64 × UInt64 × Bool :=
  match files.io pid with
  | none => (-1, -1, false)
  | some content =>
      let c := ((fgetsAll 256 content).map cString).foldl ioCounterStep (0, 0)
      (c.1, c.2, true)

/-! ### The whole read -/

section Read
variable (files : ProcFiles) (stale : Bytes) (pageSizeKb : Int64) (pid : Int32)

/-- The record that a successful `read_proc_stat` leaves in `p`. -/
def statRecord (comm : Bytes) (t : StatTargets) (p : ProcessStateInput) : ProcessStateInput :=
  { p with
    comm := comm
    state := t.state
    ppid := t.ppid
    utime := t.utime
    stime := t.stime
    threads := t.threads
    rssKb := if t.rssPages ≥ 0 then t.rssPages * pageSizeKb else -1
    boIsRssValid := t.rssPages ≥ 0
    readKbytes := (ioFields files pid).1
    writeKbytes := (ioFields files pid).2.1
    boIsIoValid := (ioFields files pid).2.2 }

/-- The parentheses of a process's stat line: `comm`, and the text behind it. -/
def statParts : Option (Bytes × Bytes) :=
  ((files.stat pid).bind fun content => (fgetsAll 1024 content).head?).bind (splitStat stale)

/-- A read without parentheses fails and leaves the record as it is. -/
theorem readProcStat_of_none (p : ProcessStateInput) (h : statParts files stale pid = none) :
    readProcStat files stale pageSizeKb pid p = (p, false) := by
  rw [statParts] at h
  simp only [readProcStat, h]

/-- A read with parentheses succeeds exactly when the scan does. -/
theorem readProcStat_of_some (p : ProcessStateInput) {comm text : Bytes}
    (h : statParts files stale pid = some (comm, text)) :
    let scan := scanStat statFields text ⟨p.state, p.ppid, p.utime, p.stime, p.threads, -1⟩
    SameOrigin (readProcStat files stale pageSizeKb pid p).1 p ∧
    (readProcStat files stale pageSizeKb pid p).2 = scan.2 ∧
    (scan.2 = true → (readProcStat files stale pageSizeKb pid p).1
      = statRecord files pageSizeKb pid comm scan.1 p) := by
  rw [statParts] at h
  simp only [readProcStat, h]
  -- The scan decides. The I/O file only changes its three fields.
  generalize scanStat statFields text _ = scan
  obtain ⟨t, ok⟩ := scan
  cases ok with
  | false => exact ⟨⟨rfl, rfl, rfl⟩, rfl, fun hf => absurd hf Bool.false_ne_true⟩
  | true =>
      simp only [Bool.true_eq_false, if_false, readProcIo, statRecord, ioFields]
      cases files.io pid with
      | none => exact ⟨⟨rfl, rfl, rfl⟩, rfl, fun _ => rfl⟩
      | some content =>
          simp only [foldl_readIoLine, implies_true, and_true]
          exact ⟨rfl, rfl, rfl⟩

/-- A read keeps the PID and the timestamps. -/
theorem sameOrigin_readProcStat (p : ProcessStateInput) :
    SameOrigin (readProcStat files stale pageSizeKb pid p).1 p := by
  cases h : statParts files stale pid with
  | none =>
      rw [readProcStat_of_none files stale pageSizeKb pid p h]
      exact ⟨rfl, rfl, rfl⟩
  | some parts => exact (readProcStat_of_some files stale pageSizeKb pid p h).1

/-- Whether a read succeeds does not depend on the old record, and neither does the record
that `read_fd` completes. -/
theorem readProcStat_congr {p q : ProcessStateInput} (h : SameOrigin p q) :
    (readProcStat files stale pageSizeKb pid p).2 = (readProcStat files stale pageSizeKb pid q).2 ∧
    ((readProcStat files stale pageSizeKb pid p).2 = true →
      (readProcStat files stale pageSizeKb pid p).1.comm
        = (readProcStat files stale pageSizeKb pid q).1.comm ∧
      readFd files (readProcStat files stale pageSizeKb pid p).1
        = readFd files (readProcStat files stale pageSizeKb pid q).1) := by
  cases hparts : statParts files stale pid with
  | none =>
      rw [readProcStat_of_none files stale pageSizeKb pid p hparts,
        readProcStat_of_none files stale pageSizeKb pid q hparts]
      exact ⟨rfl, fun hf => absurd hf Bool.false_ne_true⟩
  | some parts =>
      obtain ⟨-, hokp, hrecp⟩ := readProcStat_of_some files stale pageSizeKb pid p hparts
      obtain ⟨-, hokq, hrecq⟩ := readProcStat_of_some files stale pageSizeKb pid q hparts
      have hok := ok_scanStat statFields parts.2
        ⟨p.state, p.ppid, p.utime, p.stime, p.threads, -1⟩
        ⟨q.state, q.ppid, q.utime, q.stime, q.threads, -1⟩
      refine ⟨by rw [hokp, hokq, hok], fun hp => ?_⟩
      rw [hokp] at hp
      have htargets := scanStat_congr parts.2
        ⟨p.state, p.ppid, p.utime, p.stime, p.threads, -1⟩
        ⟨q.state, q.ppid, q.utime, q.stime, q.threads, -1⟩ hp
      rw [hrecp hp, hrecq (hok ▸ hp), htargets]
      refine ⟨rfl, ?_⟩
      -- Only the PID, the timestamps and the descriptor fields are left of the old record.
      unfold readFd statRecord
      simp only [h.pid, h.timestamp, h.hRTimestamp]

end Read

/-- A record before the first read. -/
def blankRecord : ProcessStateInput :=
  ⟨1, [], 0, 0, 0, 0, 0, 0, [], 0, 0, 0, false, false, 0, false⟩

end ProcessAnalyzer.Stats
