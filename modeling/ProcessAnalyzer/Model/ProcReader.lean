import ProcessAnalyzer.Lib.CScan
import ProcessAnalyzer.Model.ProcessStats

/-!
# `ProcessAnalyzer.Model.ProcReader`: reading `/proc`

The readers of `code/process_snapshot/process_snapshot.c`: `read_proc_stat` with
`read_proc_io`, and `read_fd` with `count_open_fds_for_pid`. They fill one
`process_state_input_t` that is reused for all processes of a snapshot, so each of them
takes the record and returns it, also when it fails half-way: what `sscanf` has assigned
before a mismatch stays assigned.

The line buffer of `read_proc_stat` is an uninitialised array. Its bytes behind the line
are the parameter `stale`, because two reads can reach them: the copy of a `comm` whose
parentheses are in the wrong order, and the scan that starts two bytes behind the last
parenthesis.
-/

set_option autoImplicit false

namespace ProcessAnalyzer.Stats

open ProcessAnalyzer.Lib

/-- What the files of `/proc` contain when they are read. `none` is a file or directory
that cannot be opened. -/
structure ProcFiles where
  /-- `/proc/<pid>/stat` -/
  stat : Int32 → Option Bytes
  /-- `/proc/<pid>/io` -/
  io : Int32 → Option Bytes
  /-- the entries of `/proc/<pid>/fd` -/
  fd : Int32 → Option (List Bytes)

/-- `is_numeric`. -/
def isNumeric (s : Bytes) : Bool := s ≠ [] && s.all isDigit

/-- `initialize_page_size_kb`, with the answer of `sysconf` and the value so far. -/
def initializePageSizeKb (pageSize gPageSizeKb : Int64) : Int64 :=
  if gPageSizeKb > 0 then gPageSizeKb
  else
    let g := if pageSize > 0 then pageSize / 1024 else gPageSizeKb
    if g ≤ 0 then 4 else g

/-! ### `read_fd` -/

/-- `count_open_fds_for_pid`: the number of numeric entries, or -1. -/
def countOpenFdsForPid (files : ProcFiles) (pid : Int32) : Int64 :=
  match files.fd pid with
  | none => -1
  | some entries => Int64.ofNat (entries.countP isNumeric)

/-- `read_fd`. -/
def readFd (files : ProcFiles) (p : ProcessStateInput) : ProcessStateInput :=
  let count := countOpenFdsForPid files p.pid
  if count < 0 then { p with boIsFdValid := false, numberOfFds := 0 }
  else { p with numberOfFds := count.toUInt64, boIsFdValid := true }

/-! ### `read_proc_io` -/

/-- `sscanf(line, key ": %llu", &v)`, where `key` is the text before the space. -/
def scanIoLine (key line : Bytes) : Option UInt64 :=
  if key.isPrefixOf line then (scanInt (line.drop key.length)).map fun r => clampULong r.1
  else none

/-- The body of the loop of `read_proc_io`. -/
def readIoLine (p : ProcessStateInput) (line : Bytes) : ProcessStateInput :=
  match scanIoLine (ascii "read_bytes:") line with
  | some v => { p with readKbytes := v / 1024 }
  | none =>
      match scanIoLine (ascii "write_bytes:") line with
      | some v => { p with writeKbytes := v / 1024 }
      | none => p

/-- `read_proc_io`: the record and whether the file could be opened. -/
def readProcIo (files : ProcFiles) (pid : Int32) (p : ProcessStateInput) :
    ProcessStateInput × Bool :=
  match files.io pid with
  | none => (p, false)
  | some content =>
      let lines := (fgetsAll 256 content).map cString
      (lines.foldl readIoLine { p with readKbytes := 0, writeKbytes := 0 }, true)

/-! ### `read_proc_stat` -/

/-- The targets of the conversions in the format of `read_proc_stat`. -/
inductive StatField where
  | state
  | ppid
  | utime
  | stime
  | threads
  | rss
  | discard
  deriving DecidableEq

/-- The 22 conversions of the format, in order. The discarded ones are `%d`, `%u`, `%ld`,
`%llu` and `%lu`, which all consume the same syntax. -/
def statFields : List StatField :=
  [.state, .ppid, .discard, .discard, .discard, .discard, .discard, .discard, .discard, .discard,
    .discard, .utime, .stime, .discard, .discard, .discard, .discard, .threads, .discard, .discard,
    .discard, .rss]

/-- The targets that are not discarded: five fields of the record and the local variable
`rss_pages`. -/
structure StatTargets where
  state : UInt8
  ppid : Int32
  utime : UInt64
  stime : UInt64
  threads : Int32
  rssPages : Int64

/-- The number that a conversion reads, and the rest of the text. `%c` takes the next byte
as it is. `none` is a mismatch. -/
def convertField (f : StatField) (s : Bytes) : Option (Int × Bytes) :=
  match f with
  | .state =>
      match s with
      | [] => none
      -- `%c` does not skip white space
      | c :: rest => some (c.toNat, rest)
  | _ => scanInt s

/-- The assignment of a conversion: `%c`, `%d`, `%lu` and `%ld` in their types. -/
def assignField (f : StatField) (v : Int) (t : StatTargets) : StatTargets :=
  match f with
  | .state => { t with state := UInt8.ofNat v.toNat }
  | .ppid => { t with ppid := (clampLong v).toInt32 }
  | .utime => { t with utime := clampULong v }
  | .stime => { t with stime := clampULong v }
  | .threads => { t with threads := (clampLong v).toInt32 }
  | .rss => { t with rssPages := clampLong v }
  | .discard => t

/-- The conversions in order, up to the first mismatch: the targets and whether all of them
succeeded. -/
def scanStat : List StatField → Bytes → StatTargets → StatTargets × Bool
  | [], _, t => (t, true)
  | f :: fs, s, t =>
      match convertField f s with
      | none => (t, false)
      | some (v, rest) => scanStat fs rest (assignField f v t)

/-- The size of `comm` in `process_state_input_t`. -/
def commSize : ℕ := 64

/-- The number of bytes that are copied to `comm`. A difference of pointers in the wrong
order is a huge `size_t`, which is cut as well. -/
def commLength (lparen rparen : ℕ) : ℕ :=
  if rparen < lparen ∨ rparen - lparen - 1 ≥ commSize then commSize - 1
  else rparen - lparen - 1

/-- The part of `read_proc_stat` that finds the parentheses in the line: the bytes for
`comm`, and the text that `sscanf` reads. -/
def splitStat (stale line : Bytes) : Option (Bytes × Bytes) :=
  -- `rparen + 2` can point behind the line, into what the buffer held before
  let mem := line ++ [0] ++ stale
  let buf := cString mem
  match strchr buf 40, strrchr buf 41 with
  | some lparen, some rparen =>
      some (cString ((mem.drop (lparen + 1)).take (commLength lparen rparen)),
        cString (mem.drop (rparen + 2)))
  | _, _ => none

/-- The indices of the line buffer that `read_proc_stat` reads. -/
structure StatReads where
  /-- the two searches for a parenthesis -/
  searches : List ℕ
  /-- the `memcpy` to `comm` -/
  copied : List ℕ
  /-- `sscanf` -/
  scanned : List ℕ

/-- The reads of `splitStat`. `strrchr` goes up to the NUL of the string, and `sscanf` reads
the string that starts two bytes behind the last parenthesis, with its NUL. -/
def statReads (stale line : Bytes) : StatReads :=
  let mem := line ++ [0] ++ stale
  let buf := cString mem
  let searches := List.range (buf.length + 1)
  match strchr buf 40, strrchr buf 41 with
  | some lparen, some rparen =>
      { searches := searches
        copied := List.range' (lparen + 1) (commLength lparen rparen)
        scanned := List.range' (rparen + 2) ((cString (mem.drop (rparen + 2))).length + 1) }
  | _, _ => ⟨searches, [], []⟩

/-- `read_proc_stat`: the record and whether the result is 0. -/
def readProcStat (files : ProcFiles) (stale : Bytes) (pageSizeKb : Int64) (pid : Int32)
    (p : ProcessStateInput) : ProcessStateInput × Bool :=
  -- the file cannot be opened, or `fgets` reads nothing
  let line := (files.stat pid).bind fun content => (fgetsAll 1024 content).head?
  match line.bind (splitStat stale) with
  | none => (p, false)
  | some (comm, text) =>
      let (t, ok) := scanStat statFields text ⟨p.state, p.ppid, p.utime, p.stime, p.threads, -1⟩
      -- the fields in front of a mismatch are assigned even when the result is -1
      let p := { p with
        comm := comm
        state := t.state
        ppid := t.ppid
        utime := t.utime
        stime := t.stime
        threads := t.threads }
      -- `sscanf` must have converted all 22 fields
      if ok = false then (p, false)
      else
        let p := { p with
          -- a negative number of pages is not valid
          rssKb := if t.rssPages ≥ 0 then t.rssPages * pageSizeKb else -1
          boIsRssValid := t.rssPages ≥ 0 }
        match readProcIo files pid p with
        | (p, true) => ({ p with boIsIoValid := true }, true)
        -- the two counters are unsigned, so this is their largest value
        | (p, false) => ({ p with readKbytes := -1, writeKbytes := -1, boIsIoValid := false }, true)

end ProcessAnalyzer.Stats
