import Mathlib.Data.List.DropRight
import Mathlib.Data.List.GetD
import ProcessAnalyzer.Model.FilterScanner
import ProcessAnalyzer.Proofs.Whitelist

/-!
# `ProcessAnalyzer.Proofs.FilterGrammar`: the language of the filter options

`parse_filter_pid_list` moves positions over its argument. The lemmas of the first part
turn a moved position into the text behind it (`drop_advanceWhile`, `take_retreatWhile`), so
that one turn of the loop sees the first segment of what is left, without white space at
its ends (`token_eq_trim`). With that the scanner agrees with the fold over the tokens
(`accepted_scanFilterPidList`), and the rest is about lists:

* `scanPidToken_eq`: the accumulator of `parse_pid_token` never wraps, so it holds the
  decimal value.
* `foldlM_tokenStep`: an argument is accepted exactly when all its tokens are in the
  grammar, and then they are inserted one after the other.
* `WellFormed.scanFilterPidList`: a call, accepted or not, keeps the list without
  duplicates and within its capacity.
-/

set_option autoImplicit false

namespace ProcessAnalyzer

open ProcessAnalyzer.Lib

/-! ### Positions and the text behind them -/

section Positions
variable (p : UInt8 → Bool) (arg : Bytes)

/-- The text from a position to a later one, without its first byte. -/
theorem drop_take_eq_cons {stop i : ℕ} (hstop : stop ≤ arg.length) (hi : i < stop) :
    (arg.take stop).drop i = arg.getD i 0 :: (arg.take stop).drop (i + 1) := by
  have hlt : i < (arg.take stop).length := by
    rw [List.length_take]
    omega
  rw [List.drop_eq_getElem_cons hlt, List.getElem_take, List.getD_eq_getElem arg 0 (by omega)]

/-- The text up to a position, without its last byte. -/
theorem drop_take_succ {start i : ℕ} (hi : i < arg.length) (hstart : start ≤ i) :
    (arg.take (i + 1)).drop start = (arg.take i).drop start ++ [arg.getD i 0] := by
  have hlen : start ≤ (arg.take i).length := by
    rw [List.length_take]
    omega
  rw [List.take_succ_eq_append_getElem hi, List.drop_append_of_le_length hlen,
    List.getD_eq_getElem arg 0 hi]

/-- A position that moves forward drops the bytes of the class. -/
theorem drop_advanceWhile {stop i : ℕ} (hstop : stop ≤ arg.length) (hi : i ≤ stop) :
    advanceWhile p arg stop i ≤ stop ∧
    (arg.take stop).drop (advanceWhile p arg stop i) = ((arg.take stop).drop i).dropWhile p := by
  fun_induction advanceWhile p arg stop i with
  | case1 i h ih =>
      obtain ⟨hle, htext⟩ := ih (by omega)
      refine ⟨hle, ?_⟩
      rw [htext, drop_take_eq_cons arg hstop h.1, List.dropWhile_cons_of_pos h.2]
  | case2 i h =>
      refine ⟨hi, ?_⟩
      by_cases hlt : i < stop
      · have hp : ¬ p (arg.getD i 0) = true := fun hp => h ⟨hlt, hp⟩
        rw [drop_take_eq_cons arg hstop hlt, List.dropWhile_cons_of_neg hp]
      · have hnil : (arg.take stop).drop i = [] := by
          rw [List.drop_eq_nil_iff, List.length_take]
          omega
        rw [hnil, List.dropWhile_nil]

/-- A position that moves back drops the bytes of the class at the end. -/
theorem take_retreatWhile {start : ℕ} (i : ℕ) (hi : i ≤ arg.length) (hstart : start ≤ i) :
    start ≤ retreatWhile p arg start i ∧ retreatWhile p arg start i ≤ i ∧
    (arg.take (retreatWhile p arg start i)).drop start
      = ((arg.take i).drop start).rdropWhile p := by
  induction i with
  | zero => simp [retreatWhile, hstart]
  | succ i ih =>
      rw [retreatWhile]
      by_cases h : start < i + 1 ∧ p (arg.getD i 0) = true
      · obtain ⟨hge, hle, htext⟩ := ih (by omega) (by omega)
        rw [if_pos h]
        refine ⟨hge, by omega, ?_⟩
        rw [htext, drop_take_succ arg (by omega) (by omega), List.rdropWhile_concat_pos _ _ _ h.2]
      · rw [if_neg h]
        refine ⟨hstart, le_refl _, ?_⟩
        by_cases hlt : start < i + 1
        · have hp : ¬ p (arg.getD i 0) = true := fun hp => h ⟨hlt, hp⟩
          rw [drop_take_succ arg (by omega) (by omega), List.rdropWhile_concat_neg _ _ _ hp]
        · have hnil : (arg.take (i + 1)).drop start = [] := by
            rw [List.drop_eq_nil_iff, List.length_take]
            omega
          rw [hnil, List.rdropWhile_nil]

end Positions

/-! ### The accumulator of `parse_pid_token` -/

/-- The digit of a character is below ten. -/
theorem digit_lt_ten {c : UInt8} (h : isDigit c = true) : c.toNat - 48 < 10 := by
  simp only [isDigit, Bool.and_eq_true, decide_eq_true_eq, UInt8.le_iff_toNat_le,
    UInt8.reduceToNat] at h
  omega

/-- From a value in the range of `int`, the next value is the exact one. -/
theorem toNat_pidTokenValue {value : UInt64} {c : UInt8} (hvalue : value.toNat ≤ 2147483647)
    (hc : isDigit c = true) :
    (value * 10 + UInt64.ofNat (c.toNat - 48)).toNat = value.toNat * 10 + (c.toNat - 48) := by
  have hdigit := digit_lt_ten hc
  rw [UInt64.toNat_add, UInt64.toNat_mul, UInt64.toNat_ofNat_of_lt' (hdigit.trans (by decide))]
  simp only [UInt64.reduceToNat]
  omega

/-- A turn of the loop leaves a value in the range of `int`. -/
theorem le_of_pidTokenStep {value value' : UInt64} {c : UInt8}
    (h : pidTokenStep value c = some value') : value'.toNat ≤ 2147483647 := by
  unfold pidTokenStep at h
  simp only at h
  split_ifs at h with _ hgt
  rw [← Option.some.inj h]
  simpa [UInt64.lt_iff_toNat_lt] using hgt

/-- So does every number of turns. -/
theorem le_of_foldlM_pidTokenStep (token : Bytes) {value value' : UInt64}
    (hvalue : value.toNat ≤ 2147483647) (h : token.foldlM pidTokenStep value = some value') :
    value'.toNat ≤ 2147483647 := by
  induction token generalizing value with
  | nil =>
      rw [← Option.some.inj h]
      exact hvalue
  | cons c token ih =>
      rw [List.foldlM_cons] at h
      obtain ⟨next, hstep, hrest⟩ := Option.bind_eq_some_iff.mp h
      exact ih (le_of_pidTokenStep hstep) hrest

/-- The loop on machine words is the loop on numbers. -/
theorem foldlM_pidTokenStep (token : Bytes) (value : UInt64) (hvalue : value.toNat ≤ 2147483647) :
    ((token.foldlM pidTokenStep value).bind fun v =>
      if v = 0 then none else some (Int32.ofNat v.toNat)) = parsePidDigits token value.toNat := by
  induction token generalizing value with
  | nil =>
      show (if value = 0 then none else some (Int32.ofNat value.toNat)) = _
      rw [parsePidDigits]
      simp only [← UInt64.toNat_inj, UInt64.toNat_zero]
  | cons c token ih =>
      rw [List.foldlM_cons, parsePidDigits]
      by_cases hc : isDigit c = true
      · have hnext := toNat_pidTokenValue hvalue hc
        simp only [pidTokenStep, hc, if_true]
        by_cases hgt : value.toNat * 10 + (c.toNat - 48) > 2147483647
        · have hword : value * 10 + UInt64.ofNat (c.toNat - 48) > 2147483647 := by
            rw [gt_iff_lt, UInt64.lt_iff_toNat_lt, hnext]
            exact hgt
          rw [if_pos hword, if_pos hgt]
          rfl
        · have hword : ¬ value * 10 + UInt64.ofNat (c.toNat - 48) > 2147483647 := by
            rw [gt_iff_lt, UInt64.lt_iff_toNat_lt, hnext]
            exact hgt
          rw [if_neg hword, if_neg hgt, ← hnext]
          exact ih _ (by omega)
      · simp only [pidTokenStep, hc]
        rfl

theorem scanPidToken_eq (token : Bytes) : scanPidToken token = parsePidToken token := by
  rw [scanPidToken, parsePidToken]
  split
  · rfl
  · exact foldlM_pidTokenStep token 0 (by decide)

theorem scanFilterToken_eq (type : FilterParseType) (w : ApPidWhitelist) (token : Bytes) :
    scanFilterToken type w token = appendFilterToken .ok type w token := by
  cases type with
  | pid => rw [scanFilterToken, appendFilterToken, scanPidToken_eq]
  | comm => rfl

/-! ### The scanner sees the tokens -/

/-- The white list after an accepted call. -/
def accepted (r : ParseArgsStatus × ApPidWhitelist) : Option ApPidWhitelist :=
  if r.1 = .ok then some r.2 else none

section Scanner
variable (arg : Bytes)

/-- The segment that starts at a position, and what is left behind it. -/
theorem segment_eq {cursor : ℕ} (hc : cursor ≤ arg.length) :
    let segmentEnd := advanceWhile (· ≠ 44) arg arg.length cursor
    segmentEnd ≤ arg.length ∧ arg.drop segmentEnd = (arg.drop cursor).dropWhile (· ≠ 44) ∧
      (arg.take segmentEnd).drop cursor = (arg.drop cursor).takeWhile (· ≠ 44) := by
  intro segmentEnd
  have hge : cursor ≤ segmentEnd := le_advanceWhile _ arg _ _
  obtain ⟨hle, htext⟩ := drop_advanceWhile (· ≠ 44) arg (le_refl arg.length) hc
  rw [List.take_length] at htext
  refine ⟨hle, htext, ?_⟩
  -- The two parts make up the text from the position on.
  have hsplit : (arg.take segmentEnd).drop cursor ++ arg.drop segmentEnd = arg.drop cursor := by
    rw [← List.drop_append_of_le_length (by rw [List.length_take]; omega),
      List.take_append_drop]
  have hspan := List.takeWhile_append_dropWhile (p := (· ≠ (44 : UInt8))) (l := arg.drop cursor)
  rw [← hspan] at hsplit
  exact List.append_cancel_right (htext ▸ hsplit)

/-- The token of a segment is the segment without white space at its ends. It is empty when
the two positions meet. -/
theorem token_eq_trim {cursor segmentEnd : ℕ} (hc : cursor ≤ segmentEnd)
    (hs : segmentEnd ≤ arg.length) :
    let tokenStart := advanceWhile isSpace arg segmentEnd cursor
    let tokenEnd := retreatWhile isSpace arg tokenStart segmentEnd
    (arg.take tokenEnd).drop tokenStart = trim ((arg.take segmentEnd).drop cursor) ∧
      (tokenStart = tokenEnd ↔ trim ((arg.take segmentEnd).drop cursor) = []) := by
  intro tokenStart tokenEnd
  obtain ⟨hle, hstart⟩ := drop_advanceWhile isSpace arg hs hc
  obtain ⟨hge, hend, htext⟩ := take_retreatWhile isSpace arg segmentEnd hs hle
  rw [hstart] at htext
  refine ⟨htext, ?_⟩
  rw [show trim ((arg.take segmentEnd).drop cursor) = (arg.take tokenEnd).drop tokenStart from
    htext.symm, List.drop_eq_nil_iff, List.length_take]
  have hbound : tokenEnd ≤ arg.length := hend.trans hs
  have hmeet : tokenStart ≤ tokenEnd := hge
  omega

/-- The loop of the scanner from a position is the loop over the text behind it. -/
theorem accepted_scanFilterSegments (type : FilterParseType) (cursor : ℕ) (w : ApPidWhitelist)
    (hc : cursor ≤ arg.length) :
    accepted (scanFilterSegments type arg cursor w)
      = parseFilterSegments .ok type (arg.drop cursor) w := by
  induction hn : arg.length - cursor using Nat.strong_induction_on generalizing cursor w with
  | _ n ih =>
      subst hn
      rw [scanFilterSegments, parseFilterSegments]
      obtain ⟨hle, hrest, hseg⟩ := segment_eq arg hc
      have hge := le_advanceWhile (· ≠ 44) arg arg.length cursor
      generalize advanceWhile (· ≠ 44) arg arg.length cursor = segmentEnd at *
      obtain ⟨htoken, hmeet⟩ := token_eq_trim arg hge hle
      rw [hseg] at htoken hmeet
      simp only [htoken, hmeet, scanFilterToken_eq]
      have hcomma := List.head?_dropWhile_not (· ≠ (44 : UInt8)) (arg.drop cursor)
      generalize trim ((arg.drop cursor).takeWhile (· ≠ 44)) = token
      generalize (arg.drop cursor).dropWhile (· ≠ 44) = tail at *
      by_cases hnil : token = []
      · rw [if_pos hnil, if_pos hnil]
        rfl
      rw [if_neg hnil, if_neg hnil]
      cases appendFilterToken .ok type w token with
      | none => rfl
      | some w' =>
          cases tail with
          | nil =>
              -- The argument ends with this segment.
              have hend : arg.length ≤ segmentEnd := List.drop_eq_nil_iff.mp hrest
              dsimp only [Option.bind_some]
              rw [dif_pos hend]
              rfl
          | cons c rest =>
              have hlt : segmentEnd < arg.length := by
                by_contra hge'
                rw [List.drop_eq_nil_of_le (by omega)] at hrest
                cases hrest
              obtain rfl : c = 44 := by simpa using hcomma
              rw [List.drop_eq_getElem_cons hlt, List.cons.injEq] at hrest
              have hbyte : arg.getD segmentEnd 0 = 44 := by
                rw [List.getD_eq_getElem arg 0 hlt]
                exact hrest.1
              obtain ⟨hnextLe, hnext⟩ := drop_advanceWhile isSpace arg (le_refl arg.length)
                (show segmentEnd + 1 ≤ arg.length by omega)
              have hnextGe := le_advanceWhile isSpace arg arg.length (segmentEnd + 1)
              rw [List.take_length, hrest.2] at hnext
              dsimp only [Option.bind_some]
              rw [dif_neg (by omega), if_neg (not_not_intro hbyte), ← hnext]
              generalize advanceWhile isSpace arg arg.length (segmentEnd + 1) = next at *
              by_cases hstop : arg.length ≤ next
              · rw [if_pos hstop, if_pos (List.drop_eq_nil_of_le hstop)]
                rfl
              · rw [if_neg hstop, if_neg (mt List.drop_eq_nil_iff.mp hstop)]
                exact ih (arg.length - next) (by omega) next w' hnextLe rfl

/-- `parse_filter_pid_list` handles the tokens of its argument one after the other. -/
theorem accepted_scanFilterPidList (type : FilterParseType) (w : ApPidWhitelist) :
    accepted (scanFilterPidList type arg w) = (tokens arg).foldlM (tokenStep .ok type) w := by
  obtain ⟨hle, htext⟩ := drop_advanceWhile isSpace arg (le_refl arg.length) (Nat.zero_le _)
  rw [List.take_length, List.drop_zero] at htext
  rw [← parseFilterPidList_eq, parseFilterPidList, scanFilterPidList, ← htext]
  generalize advanceWhile isSpace arg arg.length 0 = cursor at *
  by_cases hend : arg.length ≤ cursor
  · rw [if_pos hend, if_pos (List.drop_eq_nil_of_le hend)]
    rfl
  · rw [if_neg hend, if_neg (mt List.drop_eq_nil_iff.mp hend)]
    exact accepted_scanFilterSegments arg type cursor w hle

end Scanner

/-! ### The grammar of one token -/

/-- A token of the language: not empty, and for a PID list a decimal number between 1 and
`INT_MAX`. -/
def TokenInGrammar (type : FilterParseType) (token : Bytes) : Prop :=
  token ≠ [] ∧ (type = .pid → (∀ b ∈ token, isDigit b = true) ∧ 1 ≤ decValue token ∧
    decValue token ≤ 2147483647)

instance (type : FilterParseType) (token : Bytes) : Decidable (TokenInGrammar type token) :=
  inferInstanceAs (Decidable (_ ∧ (_ → _ ∧ _ ∧ _)))

/-- The loop of `parse_pid_token` accepts the digits of a number in range. A value that has
left the range never comes back, because more digits make it no smaller. -/
theorem parsePidDigits_eq (digits : Bytes) (value : ℕ) (hvalue : value ≤ 2147483647) :
    parsePidDigits digits value
      = let n := digits.foldl (fun acc b => acc * 10 + (b.toNat - 48)) value
        if digits.all isDigit = true ∧ 1 ≤ n ∧ n ≤ 2147483647 then some (Int32.ofNat n)
        else none := by
  induction digits generalizing value with
  | nil =>
      rw [parsePidDigits]
      by_cases h0 : value = 0
      · simp [h0]
      · simp [h0, hvalue, Nat.one_le_iff_ne_zero]
  | cons c rest ih =>
      rw [parsePidDigits, List.foldl_cons]
      by_cases hc : isDigit c = true
      · by_cases hgt : value * 10 + (c.toNat - 48) > 2147483647
        · have hle := le_foldl_digits rest (value * 10 + (c.toNat - 48))
          have hout : ¬ ((c :: rest).all isDigit = true ∧
              1 ≤ rest.foldl (fun acc b => acc * 10 + (b.toNat - 48))
                (value * 10 + (c.toNat - 48)) ∧
              rest.foldl (fun acc b => acc * 10 + (b.toNat - 48))
                (value * 10 + (c.toNat - 48)) ≤ 2147483647) := by
            intro h
            omega
          simp only [hc, if_true, hgt, if_neg hout]
        · simp only [hc, if_true, if_neg hgt, ih _ (Nat.le_of_not_gt hgt)]
          simp [hc]
      · simp [hc]

/-- `parse_pid_token` accepts the tokens of the language. -/
theorem parsePidToken_eq (token : Bytes) :
    parsePidToken token
      = if TokenInGrammar .pid token then some (Int32.ofNat (decValue token)) else none := by
  rw [parsePidToken]
  by_cases hnil : token = []
  · rw [if_pos hnil, if_neg fun h => h.1 hnil]
  · rw [if_neg hnil, parsePidDigits_eq token 0 (Nat.zero_le _)]
    have hiff : (token.all isDigit = true ∧ 1 ≤ decValue token ∧ decValue token ≤ 2147483647)
        ↔ TokenInGrammar .pid token := by
      rw [List.all_eq_true]
      exact ⟨fun h => ⟨hnil, fun _ => h⟩, fun h => h.2 rfl⟩
    exact if_congr hiff rfl rfl

/-! ### The list of a run -/

/-- A list followed by the new elements of another one, in order and each of them once. -/
def extendBy {α : Type} [DecidableEq α] (prior new : List α) : List α :=
  prior ++ (new.filter fun a => a ∉ prior).eraseDups

/-- One more element at the end, unless it is there already. -/
def insertNew {α : Type} [DecidableEq α] (l : List α) (a : α) : List α :=
  if a ∈ l then l else l ++ [a]

/-- Inserting one element after the other extends the list. -/
theorem foldl_insertNew {α : Type} [DecidableEq α] (new prior : List α) :
    new.foldl insertNew prior = extendBy prior new := by
  induction new generalizing prior with
  | nil => simp [extendBy]
  | cons a new ih =>
      rw [List.foldl_cons, ih, insertNew]
      by_cases ha : a ∈ prior
      · simp [extendBy, ha]
      · rw [if_neg ha, extendBy, extendBy, List.filter_cons_of_pos (by simpa using ha),
          List.eraseDups_cons, List.filter_filter, List.append_assoc, List.singleton_append]
        have hfilter : (fun b => decide (b ∉ prior ++ [a]))
            = fun b => !b == a && decide (b ∉ prior) := by
          funext b
          by_cases hb : b = a <;> simp [hb]
        rw [hfilter]

/-- A white list without duplicates whose counts are within the capacities. -/
structure WellFormed (w : ApPidWhitelist) : Prop where
  nodupPids : w.filterPids.Nodup
  pidsCapacity : w.filterPids.length ≤ w.filterPidsCapacity
  nodupComms : w.filterComms.Nodup
  commsCapacity : w.filterComms.length ≤ w.filterCommsCapacity

theorem WellFormed.empty : WellFormed {} := ⟨List.nodup_nil, le_rfl, List.nodup_nil, le_rfl⟩

theorem nodup_insertNew {α : Type} [DecidableEq α] {l : List α} (h : l.Nodup) (a : α) :
    (insertNew l a).Nodup := by
  rw [insertNew]
  split
  · exact h
  · rename_i ha
    exact List.nodup_append.mpr ⟨h, List.nodup_singleton a, fun b hb c hc hbc => by
      rw [List.mem_singleton.mp hc] at hbc
      exact ha (hbc ▸ hb)⟩

/-- There is room for one more element after a growth. -/
theorem lt_grownCapacity {n capacity : ℕ} (h : n = capacity) : n < grownCapacity capacity := by
  rw [grownCapacity]
  split
  · rw [h]
    simp_all [apInitialFilterCapacity]
  · omega

/-- With memory for it, `append_filter_pid` inserts the PID. -/
theorem appendFilterPid_ok (w : ApPidWhitelist) (pid : Int32) :
    ∃ w', appendFilterPid .ok w pid = some w' ∧ w'.filterPids = insertNew w.filterPids pid ∧
      w'.filterComms = w.filterComms ∧ (WellFormed w → WellFormed w') := by
  unfold appendFilterPid
  by_cases hmem : pid ∈ w.filterPids
  · rw [if_pos hmem]
    exact ⟨w, rfl, by rw [insertNew, if_pos hmem], rfl, id⟩
  · have hnew : insertNew w.filterPids pid = w.filterPids ++ [pid] := if_neg hmem
    rw [if_neg hmem]
    by_cases hfull : w.filterPids.length = w.filterPidsCapacity
    · -- A full buffer grows first.
      rw [if_pos hfull]
      refine ⟨_, rfl, hnew.symm, rfl, fun h => ⟨hnew ▸ nodup_insertNew h.nodupPids pid, ?_,
        h.nodupComms, h.commsCapacity⟩⟩
      rw [List.length_append]
      exact lt_grownCapacity hfull
    · rw [if_neg hfull]
      refine ⟨_, rfl, hnew.symm, rfl, fun h => ⟨hnew ▸ nodup_insertNew h.nodupPids pid, ?_,
        h.nodupComms, h.commsCapacity⟩⟩
      rw [List.length_append]
      exact lt_of_le_of_ne h.pidsCapacity hfull

/-- With memory for it, `append_filter_comm` inserts the name. -/
theorem appendFilterComm_ok (w : ApPidWhitelist) (comm : Bytes) :
    ∃ w', appendFilterComm .ok w comm = some w' ∧ w'.filterComms = insertNew w.filterComms comm ∧
      w'.filterPids = w.filterPids ∧ (WellFormed w → WellFormed w') := by
  unfold appendFilterComm
  by_cases hmem : comm ∈ w.filterComms
  · rw [if_pos hmem]
    exact ⟨w, rfl, by rw [insertNew, if_pos hmem], rfl, id⟩
  · have hnew : insertNew w.filterComms comm = w.filterComms ++ [comm] := if_neg hmem
    rw [if_neg hmem]
    by_cases hfull : w.filterComms.length = w.filterCommsCapacity
    · rw [if_pos hfull]
      refine ⟨_, rfl, hnew.symm, rfl, fun h => ⟨h.nodupPids, h.pidsCapacity,
        hnew ▸ nodup_insertNew h.nodupComms comm, ?_⟩⟩
      rw [List.length_append]
      exact lt_grownCapacity hfull
    · rw [if_neg hfull]
      refine ⟨_, rfl, hnew.symm, rfl, fun h => ⟨h.nodupPids, h.pidsCapacity,
        hnew ▸ nodup_insertNew h.nodupComms comm, ?_⟩⟩
      rw [List.length_append]
      exact lt_of_le_of_ne h.commsCapacity hfull

/-- The white list `w'` is `w` with the tokens of a list added: their values to the PIDs, or
the tokens themselves to the names. -/
def FilledBy (type : FilterParseType) (ts : List Bytes) (w w' : ApPidWhitelist) : Prop :=
  match type with
  | .pid => w'.filterComms = w.filterComms ∧
      ∃ values : List Int32, values.map Int32.toInt = ts.map (fun t => (decValue t : Int)) ∧
        w'.filterPids = extendBy w.filterPids values
  | .comm => w'.filterPids = w.filterPids ∧ w'.filterComms = extendBy w.filterComms ts

/-- One token: outside the language it is refused, inside it is inserted. -/
theorem tokenStep_eq_none_of_not {type : FilterParseType} {t : Bytes} (w : ApPidWhitelist)
    (h : ¬ TokenInGrammar type t) : tokenStep .ok type w t = none := by
  rw [tokenStep]
  by_cases hnil : t = []
  · rw [if_pos hnil]
  · rw [if_neg hnil, appendFilterToken.eq_def]
    cases type with
    | pid =>
        show (parsePidToken t).bind _ = none
        rw [parsePidToken_eq, if_neg h]
        rfl
    | comm => exact absurd ⟨hnil, by simp⟩ h

/-- The PID tokens of an argument, from a given white list. -/
theorem foldlM_tokenStep_pid (ts : List Bytes) (w : ApPidWhitelist)
    (h : ∀ t ∈ ts, TokenInGrammar .pid t) :
    ∃ w', ts.foldlM (tokenStep .ok .pid) w = some w' ∧ w'.filterComms = w.filterComms ∧
      w'.filterPids = (ts.map fun t => Int32.ofNat (decValue t)).foldl insertNew w.filterPids := by
  induction ts generalizing w with
  | nil => exact ⟨w, rfl, rfl, rfl⟩
  | cons t ts ih =>
      have ht := h t List.mem_cons_self
      obtain ⟨w₁, hadd, hpids, hcomms, -⟩ := appendFilterPid_ok w (Int32.ofNat (decValue t))
      have hstep : tokenStep .ok .pid w t = some w₁ := by
        rw [tokenStep, if_neg ht.1]
        show (parsePidToken t).bind _ = _
        rw [parsePidToken_eq, if_pos ht]
        exact hadd
      obtain ⟨w', hrun, hcomms', hpids'⟩ := ih w₁ fun u hu => h u (List.mem_cons_of_mem t hu)
      refine ⟨w', ?_, hcomms'.trans hcomms, ?_⟩
      · rw [List.foldlM_cons, hstep]
        exact hrun
      · rw [hpids', List.map_cons, List.foldl_cons, hpids]

/-- The name tokens of an argument, from a given white list. -/
theorem foldlM_tokenStep_comm (ts : List Bytes) (w : ApPidWhitelist)
    (h : ∀ t ∈ ts, TokenInGrammar .comm t) :
    ∃ w', ts.foldlM (tokenStep .ok .comm) w = some w' ∧ w'.filterPids = w.filterPids ∧
      w'.filterComms = ts.foldl insertNew w.filterComms := by
  induction ts generalizing w with
  | nil => exact ⟨w, rfl, rfl, rfl⟩
  | cons t ts ih =>
      have ht := h t List.mem_cons_self
      obtain ⟨w₁, hadd, hcomms, hpids, -⟩ := appendFilterComm_ok w t
      have hstep : tokenStep .ok .comm w t = some w₁ := by
        rw [tokenStep, if_neg ht.1]
        exact hadd
      obtain ⟨w', hrun, hpids', hcomms'⟩ := ih w₁ fun u hu => h u (List.mem_cons_of_mem t hu)
      refine ⟨w', ?_, hpids'.trans hpids, ?_⟩
      · rw [List.foldlM_cons, hstep]
        exact hrun
      · rw [hcomms', List.foldl_cons, hcomms]

/-- Tokens of the language are all accepted and fill the white list. -/
theorem foldlM_tokenStep (type : FilterParseType) (ts : List Bytes) (w : ApPidWhitelist)
    (h : ∀ t ∈ ts, TokenInGrammar type t) :
    ∃ w', ts.foldlM (tokenStep .ok type) w = some w' ∧ FilledBy type ts w w' := by
  cases type with
  | pid =>
      obtain ⟨w', hrun, hcomms, hpids⟩ := foldlM_tokenStep_pid ts w h
      refine ⟨w', hrun, hcomms, ts.map fun t => Int32.ofNat (decValue t), ?_, ?_⟩
      · rw [List.map_map]
        refine List.map_congr_left fun t ht => ?_
        have hle := ((h t ht).2 rfl).2.2
        exact Int32.toInt_ofNat_of_lt (by omega)
      · rw [hpids, foldl_insertNew]
  | comm =>
      obtain ⟨w', hrun, hpids, hcomms⟩ := foldlM_tokenStep_comm ts w h
      exact ⟨w', hrun, hpids, by rw [hcomms, foldl_insertNew]⟩

/-- A token outside the language refuses the list. -/
theorem foldlM_tokenStep_eq_none (type : FilterParseType) (ts : List Bytes) (w : ApPidWhitelist)
    (h : ¬ ∀ t ∈ ts, TokenInGrammar type t) : ts.foldlM (tokenStep .ok type) w = none := by
  induction ts generalizing w with
  | nil => exact absurd (by simp) h
  | cons t ts ih =>
      rw [List.foldlM_cons]
      by_cases ht : TokenInGrammar type t
      · cases tokenStep .ok type w t with
        | none => rfl
        | some w₁ => exact ih w₁ fun hall => h (List.forall_mem_cons.mpr ⟨ht, hall⟩)
      · rw [tokenStep_eq_none_of_not w ht]
        rfl

/-! ### Whole calls -/

/-- One token keeps the white list well formed. -/
theorem WellFormed.scanFilterToken {type : FilterParseType} {w w' : ApPidWhitelist} {token : Bytes}
    (hw : WellFormed w) (h : scanFilterToken type w token = some w') : WellFormed w' := by
  cases type with
  | pid =>
      obtain ⟨pid, -, hadd⟩ := Option.bind_eq_some_iff.mp h
      obtain ⟨w₁, hok, -, -, hkeep⟩ := appendFilterPid_ok w pid
      rw [hok, Option.some.injEq] at hadd
      exact hadd ▸ hkeep hw
  | comm =>
      obtain ⟨w₁, hok, -, -, hkeep⟩ := appendFilterComm_ok w token
      rw [ProcessAnalyzer.scanFilterToken, hok, Option.some.injEq] at h
      exact h ▸ hkeep hw

/-- So does the loop, wherever it stops. -/
theorem WellFormed.scanFilterSegments (type : FilterParseType) (arg : Bytes) (cursor : ℕ)
    {w : ApPidWhitelist} (hw : WellFormed w) :
    WellFormed (scanFilterSegments type arg cursor w).2 := by
  fun_induction ProcessAnalyzer.scanFilterSegments type arg cursor w with
  | case1 => exact hw
  | case2 => exact hw
  | case3 cursor w _ _ _ _ w' htoken => exact hw.scanFilterToken htoken
  | case4 cursor w _ _ _ _ w' htoken => exact hw.scanFilterToken htoken
  | case5 cursor w _ _ _ _ w' htoken => exact hw.scanFilterToken htoken
  | case6 cursor w _ _ _ _ w' htoken _ _ _ _ ih => exact ih (hw.scanFilterToken htoken)

/-- A call, accepted or not, keeps the white list well formed. -/
theorem WellFormed.scanFilterPidList (type : FilterParseType) (arg : Bytes) {w : ApPidWhitelist}
    (hw : WellFormed w) : WellFormed (scanFilterPidList type arg w).2 := by
  unfold ProcessAnalyzer.scanFilterPidList
  simp only
  split
  · exact hw
  · exact hw.scanFilterSegments type arg _

/-- A sequence of calls, accepted or not. -/
def scanFilterCalls (w : ApPidWhitelist) (calls : List (FilterParseType × Bytes)) :
    ApPidWhitelist :=
  calls.foldl (fun w call => (scanFilterPidList call.1 call.2 w).2) w

theorem WellFormed.scanFilterCalls (calls : List (FilterParseType × Bytes)) {w : ApPidWhitelist}
    (hw : WellFormed w) : WellFormed (scanFilterCalls w calls) := by
  induction calls generalizing w with
  | nil => exact hw
  | cons call calls ih => exact ih (hw.scanFilterPidList call.1 call.2)

/-- `parse_filter_pid_list` accepts exactly its grammar and builds exactly the denoted list:
* a call succeeds if and only if every segment between commas, trimmed, is a token of the
  language, and then the tokens or their values are added to the list, each once;
* after any sequence of calls, from the empty white list or from any other one without
  duplicates and within its capacity, the white list is of this kind;
* the accumulator of `parse_pid_token` never wraps. -/
theorem scanFilterPidList_grammar :
    (∀ (type : FilterParseType) (arg : Bytes) (w : ApPidWhitelist),
      ((scanFilterPidList type arg w).1 = .ok ↔ ∀ t ∈ tokens arg, TokenInGrammar type t) ∧
      ((scanFilterPidList type arg w).1 = .ok →
        FilledBy type (tokens arg) w (scanFilterPidList type arg w).2)) ∧
    WellFormed {} ∧
    (∀ (calls : List (FilterParseType × Bytes)) (w : ApPidWhitelist), WellFormed w →
      WellFormed (scanFilterCalls w calls)) ∧
    (∀ (before : Bytes) (c : UInt8) (value : UInt64), before.foldlM pidTokenStep 0 = some value →
      isDigit c = true → value.toNat * 10 + (c.toNat - 48) < 2 ^ 64) := by
  refine ⟨fun type arg w => ?_, WellFormed.empty, fun calls w hw => hw.scanFilterCalls calls,
    fun before c value hrun hc => ?_⟩
  · have hscan := accepted_scanFilterPidList arg type w
    by_cases hall : ∀ t ∈ tokens arg, TokenInGrammar type t
    · obtain ⟨w', hrun, hfilled⟩ := foldlM_tokenStep type (tokens arg) w hall
      rw [hrun, accepted] at hscan
      split_ifs at hscan with hok
      rw [Option.some.inj hscan]
      exact ⟨⟨fun _ => hall, fun _ => hok⟩, fun _ => hfilled⟩
    · rw [foldlM_tokenStep_eq_none type _ w hall, accepted] at hscan
      split_ifs at hscan with hok
      exact ⟨⟨fun h => absurd h hok, fun h => absurd h hall⟩, fun h => absurd h hok⟩
  · have hle := le_of_foldlM_pidTokenStep before (by decide) hrun
    have hdigit := digit_lt_ten hc
    omega

end ProcessAnalyzer
