import Mathlib.Data.List.Sort
import ProcessAnalyzer.Lib.Utf8Decoder
import ProcessAnalyzer.Model.Dashboard

/-!
# `ProcessAnalyzer.Model.RecordsWorker`: the worker of `records.html`

`scanFile` reads the JSONL file in slices and passes its lines on. `prepareFile` and
`buildPidSeries` are what the worker does with the lines for its two kinds of jobs: an index of
all processes with the diagrams of one of them, and the diagrams of a given process.

`FileReaderSync.readAsText` decodes each slice on its own. The slices have `CHUNK_SIZE` bytes,
which is a parameter here. `onLine` is called for one line after the other, so a scan is the
list of the lines.

A PID in the file is a number in the range of `pid_t`, and `String` writes it in decimal.
-/

set_option autoImplicit false

namespace ProcessAnalyzer.Dashboard

open ProcessAnalyzer.Lib

/-! ### `scanFile` -/

/-- `PROGRESS_STEP`. -/
def progressStep : ℕ := 32 * 1024 * 1024

/-- `combined.split(/\r?\n/)`. -/
def splitLines : List Char → List (List Char)
  | [] => [[]]
  | c :: rest =>
      if c = '\n' then [] :: splitLines rest
      -- the line feed that follows ends the line
      else if c = '\r' ∧ rest.head? = some '\n' then splitLines rest
      else
        match splitLines rest with
        | [] => [[c]]
        | line :: lines => (c :: line) :: lines

/-- The characters that `String.prototype.trim` removes: white space and line terminators. -/
def isTrimmed (c : Char) : Bool :=
  let n := c.toNat
  (9 ≤ n && n ≤ 13) || n == 0x20 || n == 0xA0 || n == 0x1680 || (0x2000 ≤ n && n ≤ 0x200A)
    || n == 0x2028 || n == 0x2029 || n == 0x202F || n == 0x205F || n == 0x3000 || n == 0xFEFF

/-- `text.trim()`. -/
def trimText (text : List Char) : List Char :=
  ((text.dropWhile isTrimmed).reverse.dropWhile isTrimmed).reverse

/-- The variables of `scanFile`, with the lines passed to `onLine` and the values of `processed`
in the progress messages so far. -/
structure Scan where
  offset : ℕ := 0
  carry : List Char := []
  lastProgress : ℕ := 0
  lines : List (List Char) := []
  progress : List ℕ := []

/-- The arguments of `file.slice` in the loop of `scanFile`, as the bytes between them. -/
def slices (chunkSize : ℕ) (file : Bytes) (offset : ℕ) : List Bytes :=
  if offset < file.length ∧ 0 < chunkSize then
    let nextOffset := min (offset + chunkSize) file.length
    (file.drop offset).take (nextOffset - offset) :: slices chunkSize file nextOffset
  else []
termination_by file.length - offset

/-- The body of the loop for one slice. `readAsText` decodes each slice on its own, and a byte
order mark is taken for a character like any other here. A browser drops one at the start of a
slice. The files of the program begin with other bytes. -/
def scanSlice (size : ℕ) (s : Scan) (slice : Bytes) : Scan :=
  let chunk := decode slice
  let offset := s.offset + slice.length
  let combined := s.carry ++ chunk
  let lines := splitLines combined
  let s :=
    { s with
      offset := offset
      carry := lines.getLast?.getD []
      lines := s.lines ++ lines.dropLast.filter (· ≠ []) }
  if offset - s.lastProgress ≥ progressStep ∨ offset = size then
    { s with lastProgress := offset, progress := s.progress ++ [offset] }
  else s

/-- `scanFile`. -/
def scanFile (chunkSize : ℕ) (file : Bytes) : Scan :=
  let s := (slices chunkSize file 0).foldl (scanSlice file.length) {}
  if trimText s.carry = [] then s else { s with lines := s.lines ++ [trimText s.carry] }

/-! ### PIDs -/

/-- `String(pid)`. -/
def pidText (pid : Int) : List Char := latin (decInt pid)

/-- The integer that a text of an optional minus sign and at most 15 digits denotes. -/
def plainInteger (s : List Char) : Option Int :=
  let negative := s.head? = some '-'
  let digits := if negative then s.tail else s
  if digits ≠ [] ∧ digits.length ≤ 15 ∧ digits.all Char.isDigit = true then
    some (if negative then -(digitsValue digits : Int) else digitsValue digits)
  else none

/-- What `Number` makes of a text of another form, when that is an integer. -/
abbrev NumberEnv : Type := List Char → Option Int

/-- `normalizePid`. The argument comes from the query of the page or from the list of the
processes: `null` or a text. -/
def normalizePid (number : NumberEnv) : Option (List Char) → Option Int
  | none => none
  | some [] => none
  | some (c :: s) =>
      match plainInteger (c :: s) with
      | some pid => some pid
      | none => number (c :: s)

/-! ### `prepareFile` -/

/-- The variables of `prepareFile`. `minPid` is `none` for infinity. -/
structure Preparation where
  entries : List (Int × List Char) := []
  firstPid : Option Int := none
  minPid : Option Int := none
  initialPid : Option Int
  initialComm : List Char := []
  initialSeries : Series := {}

/-- `if (pid < minPid) minPid = pid`. -/
def lowerMinPid (minPid : Option Int) (pid : Int) : Option Int :=
  match minPid with
  | none => some pid
  | some m => some (if pid < m then pid else m)

/-- The part of the callback of `prepareFile` that enters a new PID. -/
def enterPid (p : Preparation) (pid : Int) (comm : List Char) : Preparation :=
  if p.entries.any (·.1 = pid) then p
  else
    let p := { p with entries := p.entries ++ [(pid, comm)] }
    if p.firstPid = none then
      { p with
        firstPid := some pid
        initialPid := if p.initialPid = none then some pid else p.initialPid }
    else p

/-- The part of the callback of `prepareFile` that collects the points of the initial PID. -/
def collectInitial (env : DateEnv) (p : Preparation) (pid : Int) (comm line : List Char) :
    Preparation :=
  if p.initialPid = some pid then
    { p with
      initialComm := if p.initialComm = [] then comm else p.initialComm
      initialSeries := collectMetricPoints env line p.initialSeries }
  else p

/-- The callback of `prepareFile`. -/
def prepareLine (env : DateEnv) (p : Preparation) (line : List Char) : Preparation :=
  match extractInteger line "pid".toList with
  | none => p
  | some pid =>
      let p := { p with minPid := lowerMinPid p.minPid pid }
      let comm := (extractString line "comm".toList).getD []
      collectInitial env (enterPid p pid comm) pid comm line

/-- The result of a `prepare` job. -/
structure Prepared where
  entries : List (Int × List Char)
  initialPid : Option (List Char)
  initialComm : List Char
  initialSeries : Option Series

/-- `prepareFile`, on the lines of the file. -/
def prepareFile (number : NumberEnv) (env : DateEnv) (requestedPid : Option (List Char))
    (lines : List (List Char)) : Prepared :=
  let requested := normalizePid number requestedPid
  let p := lines.foldl (prepareLine env) { initialPid := requested }
  let hasInitialPid := p.entries.any fun e => some e.1 = p.initialPid
  let canReuseInitialSeries := hasInitialPid ∧ (requested ≠ none ∨ p.initialPid = p.minPid)
  { entries := p.entries.insertionSort fun a b => a.1 ≤ b.1
    initialPid := if canReuseInitialSeries then p.initialPid.map pidText else none
    initialComm := p.initialComm
    initialSeries := if canReuseInitialSeries then some p.initialSeries else none }

/-! ### `buildPidSeries` -/

/-- The result of a `series` job. -/
structure PidSeries where
  pid : List Char
  comm : List Char
  series : Series
  deriving DecidableEq

/-- The callback of `buildPidSeries`, on its variables `comm` and `series`. -/
def seriesLine (env : DateEnv) (pid : Int) (s : List Char × Series) (line : List Char) :
    List Char × Series :=
  if extractInteger line "pid".toList ≠ some pid then s
  else
    (if s.1 = [] then (extractString line "comm".toList).getD [] else s.1,
      collectMetricPoints env line s.2)

/-- `buildPidSeries`, on the lines of the file. The error is its message. -/
def buildPidSeries (number : NumberEnv) (env : DateEnv) (requestedPid : Option (List Char))
    (lines : List (List Char)) : Except String PidSeries :=
  match normalizePid number requestedPid with
  | none => .error "Invalid PID"
  | some pid =>
      let (comm, series) := lines.foldl (seriesLine env pid) ([], {})
      .ok ⟨pidText pid, comm, series⟩

end ProcessAnalyzer.Dashboard
