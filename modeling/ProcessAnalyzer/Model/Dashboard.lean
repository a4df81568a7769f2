import Mathlib.Algebra.Order.Field.Rat
import ProcessAnalyzer.Lib.Binary64
import ProcessAnalyzer.Lib.CTime

/-!
# `ProcessAnalyzer.Model.Dashboard`: how `records.html` reads a record

`extractInteger`, `extractString` and `decodeJsonString` of the worker in
`dashboard/records.html`. They search a line of the JSONL file for the marker of a key and
read the value behind it, without parsing the line. `collectMetricPoints` turns what they
find into points of the diagrams.

A JavaScript string is the list of its characters here. The functions compare with ASCII
characters only and cut the line next to them, so it makes no difference that JavaScript
counts code units. `Number` of an integer literal is the nearest binary64 number.
-/

set_option autoImplicit false

namespace ProcessAnalyzer.Dashboard

open ProcessAnalyzer.Lib

/-- `line.indexOf(marker)`. -/
def indexOf (marker : List Char) : List Char → Option ℕ
  | [] => if marker = [] then some 0 else none
  | c :: rest =>
      if marker.isPrefixOf (c :: rest) then some 0
      else (indexOf marker rest).map fun i => i + 1

/-- The number that a string of digits denotes. -/
def digitsValue (s : List Char) : ℕ := s.foldl (fun acc c => acc * 10 + (c.toNat - 48)) 0

/-- The second part of `extractInteger`: the number at the beginning of the text. -/
def readInteger (rest : List Char) : Option Int :=
  let negative := rest.head? = some '-'
  let digits := (if negative then rest.tail else rest).takeWhile Char.isDigit
  -- neither digits nor a minus sign, or a minus sign alone
  if digits = [] then none
  else some (roundInt (if negative then -(digitsValue digits : Int) else digitsValue digits))

/-- `extractInteger`. -/
def extractInteger (line key : List Char) : Option Int :=
  let marker := '"' :: (key ++ ['"', ':'])
  (indexOf marker line).bind fun start => readInteger (line.drop (start + marker.length))

/-- The loop of `extractString`: the text up to the quote that ends the string, if there is
one. -/
def readString (escaped : Bool) : List Char → Option (List Char)
  | [] => none
  | c :: rest =>
      if escaped then (readString false rest).map (c :: ·)
      else if c = '\\' then (readString true rest).map (c :: ·)
      else if c = '"' then some []
      else (readString false rest).map (c :: ·)

/-- `value.replace(/c/g, by)` for one character `c`. -/
def replaceAll (c : Char) (replacement : List Char) (value : List Char) : List Char :=
  value.flatMap fun d => if d = c then replacement else [d]

/-- `decodeJsonString`. The worker's source is a template literal, which has already turned
every pair of backslashes into one: the first pattern is a quote, and the second one is a
backslash with a single backslash as its replacement. -/
def decodeJsonString (value : List Char) : List Char :=
  replaceAll '\\' ['\\'] (replaceAll '"' ['"'] value)

/-- `extractString`. -/
def extractString (line key : List Char) : Option (List Char) :=
  let marker := '"' :: (key ++ ['"', ':', '"'])
  (indexOf marker line).bind fun start =>
    (readString false (line.drop (start + marker.length))).map decodeJsonString

/-! ### `Date.parse` -/

/-- What `Date.parse` depends on: the offset of a local time from UTC in milliseconds, and
what the browser makes of a text that is not of the form `YYYY-MM-DDTHH:mm:ss.sss`. `none`
is `NaN`. -/
structure DateEnv where
  offset : Int → Int
  other : List Char → Option Int
  offset_lt : ∀ t, (offset t).natAbs < 86400000

/-- A number with exactly `n` digits and a value in `lo .. hi`. -/
def fixedNumber (lo hi n : ℕ) (s : List Char) : Option (ℕ × List Char) :=
  let digits := s.take n
  if digits.length = n ∧ digits.all Char.isDigit = true ∧ lo ≤ digitsValue digits
      ∧ digitsValue digits ≤ hi then some (digitsValue digits, s.drop n)
  else none

/-- The next character of a format. -/
def fixedChar (c : Char) : List Char → Option (List Char)
  | [] => none
  | d :: s => if d = c then some s else none

/-- The date-time string format of ECMAScript with milliseconds and without an offset: the
broken-down time and the milliseconds. -/
def isoDateTime (s : List Char) : Option (Tm × ℕ) := do
  let (year, s) ← fixedNumber 0 9999 4 s
  let s ← fixedChar '-' s
  let (mon, s) ← fixedNumber 1 12 2 s
  let s ← fixedChar '-' s
  let (mday, s) ← fixedNumber 1 31 2 s
  let s ← fixedChar 'T' s
  let (hour, s) ← fixedNumber 0 23 2 s
  let s ← fixedChar ':' s
  let (min, s) ← fixedNumber 0 59 2 s
  let s ← fixedChar ':' s
  let (sec, s) ← fixedNumber 0 59 2 s
  let s ← fixedChar '.' s
  let (millis, s) ← fixedNumber 0 999 3 s
  if s = [] then
    some (⟨(year : Int) - 1900, (mon : Int) - 1, mday, hour, min, sec⟩, millis)
  else none

/-- `TimeClip`: a time value has at most 8.64e15 milliseconds. -/
def timeClip (t : Int) : Option Int := if t.natAbs ≤ 8640000000000000 then some t else none

/-- `Date.parse`. A time without an offset is local time. -/
def dateParse (env : DateEnv) (s : List Char) : Option Int :=
  match isoDateTime s with
  | some (tm, millis) =>
      let t := timegm tm * 1000 + millis
      timeClip (t - env.offset t)
  | none => env.other s

/-! ### `collectMetricPoints` -/

/-- The points `{ x, y }` of the diagrams, as `createEmptySeries` starts them. -/
structure Series where
  rss : List (Int × ℚ) := []
  cpu : List (Int × ℚ) := []
  read : List (Int × ℚ) := []
  write : List (Int × ℚ) := []
  threads : List (Int × ℚ) := []
  fds : List (Int × ℚ) := []
  deriving DecidableEq

/-- `value.replace(from, to)` for one character each: the first occurrence. -/
def replaceFirst (c replacement : Char) : List Char → List Char
  | [] => []
  | d :: rest => if d = c then replacement :: rest else d :: replaceFirst c replacement rest

/-- `if (v !== null && v >= 0) series.push({ x, y: scale(v) })`. -/
def pointUnlessNegative (x : Int) (scale : Int → ℚ) : Option Int → List (Int × ℚ)
  | some v => if v ≥ 0 then [(x, scale v)] else []
  | none => []

/-- `collectMetricPoints`. -/
def collectMetricPoints (env : DateEnv) (line : List Char) (series : Series) : Series :=
  match extractString line "timestamp".toList with
  | none => series
  | some timestamp =>
      if timestamp = [] then series
      else
        match dateParse env (replaceFirst ' ' 'T' timestamp) with
        | none => series
        | some x =>
            let field := fun key : String => extractInteger line key.toList
            { rss := series.rss ++ pointUnlessNegative x (fun v => v / 1024) (field "rss_kb")
              cpu := series.cpu ++
                match field "utime", field "stime" with
                | some utime, some stime => [(x, roundInt (utime + stime))]
                | _, _ => []
              read := series.read ++ pointUnlessNegative x (fun v => v) (field "io_read_kb")
              write := series.write ++ pointUnlessNegative x (fun v => v) (field "io_write_kb")
              threads := series.threads ++ (field "threads").toList.map fun v => (x, (v : ℚ))
              fds := series.fds ++ pointUnlessNegative x (fun v => v) (field "fds") }

end ProcessAnalyzer.Dashboard
