import ProcessAnalyzer.Model.ArgsParser

/-!
# `ProcessAnalyzer.Model.FilterScanner`: the pointers of `parse_filter_pid_list`

`parseFilterPidList` of `ProcessAnalyzer.Model.ArgsParser` says which tokens the filter
options see. This module has the scanner of `code/args_parser/args_parser.c` itself: the
argument stays one string, and `cursor`, `token_start`, `token_end` and `segment_end` are
positions in it that the loops move. The terminating NUL is the position behind the last
byte. The white list is filled while the scan goes on, so a refused argument has left its
first tokens in it.

`parse_pid_token` accumulates into an `unsigned long long`, which is a `UInt64` here. Every
allocation succeeds.
-/

set_option autoImplicit false

namespace ProcessAnalyzer

open ProcessAnalyzer.Lib

/-- `parse_args_status`. -/
inductive ParseArgsStatus where
  | error
  | ok
  deriving DecidableEq

/-! ### The loops that move a position -/

/-- `while (i < stop && p(arg[i])) i++;` -/
def advanceWhile (p : UInt8 → Bool) (arg : Bytes) (stop i : ℕ) : ℕ :=
  if i < stop ∧ p (arg.getD i 0) then advanceWhile p arg stop (i + 1) else i
termination_by stop - i
decreasing_by omega

/-- `while (i > start && p(arg[i - 1])) i--;` -/
def retreatWhile (p : UInt8 → Bool) (arg : Bytes) (start : ℕ) : ℕ → ℕ
  | 0 => 0
  | i + 1 => if start < i + 1 ∧ p (arg.getD i 0) then retreatWhile p arg start i else i + 1

/-- A position never moves back. -/
theorem le_advanceWhile (p : UInt8 → Bool) (arg : Bytes) (stop i : ℕ) :
    i ≤ advanceWhile p arg stop i := by
  fun_induction advanceWhile p arg stop i with
  | case1 i _ ih => omega
  | case2 i _ => exact le_refl i

/-! ### `parse_pid_token` -/

/-- One turn of the loop of `parse_pid_token`: the value so far and the next character. -/
def pidTokenStep (value : UInt64) (currentChar : UInt8) : Option UInt64 :=
  if isDigit currentChar then
    let value := value * 10 + UInt64.ofNat (currentChar.toNat - 48)
    if value > 2147483647 then none else some value
  else none

/-- `parse_pid_token`. -/
def scanPidToken (token : Bytes) : Option Int32 :=
  if token = [] then none
  else
    (token.foldlM pidTokenStep 0).bind fun value =>
      if value = 0 then none else some (Int32.ofNat value.toNat)

/-! ### `parse_filter_pid_list` -/

/-- What the loop does with one token. -/
def scanFilterToken (type : FilterParseType) (w : ApPidWhitelist) (token : Bytes) :
    Option ApPidWhitelist :=
  match type with
  | .pid => (scanPidToken token).bind (appendFilterPid .ok w)
  | .comm => appendFilterComm .ok w token

/-- The `while (1)` loop of `parse_filter_pid_list`. -/
def scanFilterSegments (type : FilterParseType) (arg : Bytes) (cursor : ℕ) (w : ApPidWhitelist) :
    ParseArgsStatus × ApPidWhitelist :=
  let segmentEnd := advanceWhile (· ≠ 44) arg arg.length cursor
  let tokenStart := advanceWhile isSpace arg segmentEnd cursor
  let tokenEnd := retreatWhile isSpace arg tokenStart segmentEnd
  if tokenStart = tokenEnd then (.error, w)
  else
    match scanFilterToken type w ((arg.take tokenEnd).drop tokenStart) with
    | none => (.error, w)
    | some w =>
        if h : arg.length ≤ segmentEnd then (.ok, w)
        else if arg.getD segmentEnd 0 ≠ 44 then (.error, w)
        else
          let next := advanceWhile isSpace arg arg.length (segmentEnd + 1)
          if arg.length ≤ next then (.error, w) else scanFilterSegments type arg next w
termination_by arg.length - cursor
decreasing_by
  have hseg := le_advanceWhile (· ≠ 44) arg arg.length cursor
  have hnext := le_advanceWhile isSpace arg arg.length
    (advanceWhile (· ≠ 44) arg arg.length cursor + 1)
  omega

/-- `parse_filter_pid_list`. -/
def scanFilterPidList (type : FilterParseType) (arg : Bytes) (w : ApPidWhitelist) :
    ParseArgsStatus × ApPidWhitelist :=
  let cursor := advanceWhile isSpace arg arg.length 0
  if arg.length ≤ cursor then (.error, w) else scanFilterSegments type arg cursor w

end ProcessAnalyzer
