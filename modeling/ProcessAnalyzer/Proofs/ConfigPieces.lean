import Mathlib.Data.List.TakeWhile
import Mathlib.Data.Set.List
import ProcessAnalyzer.Proofs.ConfigKeys

/-!
# `ProcessAnalyzer.Proofs.ConfigPieces`: lines that are longer than the buffer

`parse_config_file` reads with a buffer of 512 bytes and takes every piece that `fgets`
returns for a line. `lineRule` applies the same rule to the lines of the file. The two
readings are compared as lists of `ConfigLine`:

* `runLines_eq`: a reading sets the options up to its first refused line, and fails exactly
  when there is one.
* `forall_runLines_eq_iff`: two readings have the same effect on every configuration if and
  only if both or none are refused and every key gets the same last value (`SameSettings`).
* `configLines_fgetsAll_eq_flatMap`: the pieces of a file are the pieces of its lines.
* `sameSettings_iff_cutHarmlessly`: what it takes for one line that its pieces have the effect
  of the line.
* `lineBased_of_cutsHarmless`: a file whose lines are cut harmlessly up to the first refused
  one is read line by line, and for a file of one line nothing else will do.
-/

set_option autoImplicit false

namespace ProcessAnalyzer

open ProcessAnalyzer.Lib

/-! ### The rule for one line after the other -/

/-- The rule for a line, applied to the lines in order: the status and the configuration. -/
def lineRule : List Bytes → Config → ConfigStatus × Config
  | [], c => (.success, c)
  | line :: rest, c =>
      match configLine line with
      | .skip => lineRule rest c
      | .missing => (.errorParse, c)
      | .option key value =>
          match configSetOption key value c with
          | some c => lineRule rest c
          | none => (.errorParse, c)

/-- The calls of `config_set_option` that the loop of `parse_config_file` makes: the keys and
the values, with that of a refused option. -/
def optionCalls : List Bytes → Config → Options
  | [], _ => []
  | line :: rest, c =>
      match configLine line with
      | .skip => optionCalls rest c
      | .missing => []
      | .option key value =>
          (key, value) ::
            match configSetOption key value c with
            | some c => optionCalls rest c
            | none => []

/-- A comment line. -/
def isComment (line : Bytes) : Bool := (trim (cString line)).head? = some 35

/-- The bytes `line` are a whole line of the text, with `front` before it. -/
def LineAt (text front line : Bytes) : Prop :=
  ∃ back, text = front ++ (line ++ back) ∧ (front = [] ∨ front.getLast? = some 10) ∧
    (10 : UInt8) ∉ line ∧ (back = [] ∨ back.head? = some 10)

/-- `parse_config_file` reads the text line by line. -/
structure LineBased (text : Bytes) : Prop where
  /-- the status and the configuration are those of the line rule -/
  result : ∀ (env : ConfigEnv) (path : Bytes) (c : Config), env.configFile = .content text →
    (parseConfigFile env path c).status = (lineRule (text.splitOn 10) c).1 ∧
    (parseConfigFile env path c).config = (lineRule (text.splitOn 10) c).2
  /-- no option is set or refused between the two ends of a comment line -/
  comments : ∀ front line, LineAt text front line → isComment line → ∀ c,
    optionCalls (fgetsAll configLineSize (front ++ line)) c
      = optionCalls (fgetsAll configLineSize front) c

/-- The rule on what the lines are to the parser. -/
def runLines : List ConfigLine → Config → ConfigStatus × Config
  | [], c => (.success, c)
  | .skip :: rest, c => runLines rest c
  | .missing :: _, c => (.errorParse, c)
  | .option key value :: rest, c =>
      match configSetOption key value c with
      | some c => runLines rest c
      | none => (.errorParse, c)

/-- Skipped lines do not matter to the rule. -/
theorem lineRule_eq_runLines (lines : List Bytes) (c : Config) :
    lineRule lines c = runLines (configLines lines) c := by
  induction lines generalizing c with
  | nil => rfl
  | cons line lines ih =>
      rw [lineRule, configLines_cons]
      cases hline : configLine line with
      | skip =>
          have hskip : configLines [line] = [] := by simp [configLines, hline]
          rw [hskip]
          exact ih c
      | missing =>
          have hone : configLines [line] = [.missing] := by simp [configLines, hline]
          rw [hone]
          rfl
      | option key value =>
          have hone : configLines [line] = [.option key value] := by simp [configLines, hline]
          rw [hone, List.singleton_append, runLines]
          dsimp only
          cases configSetOption key value c with
          | none => rfl
          | some c => exact ih c

/-- The parser applies the rule to the pieces that it reads. -/
theorem parseConfigLines_eq_lineRule (lineno : ℕ) (lines : List Bytes) (c : Config) :
    ((parseConfigLines lineno lines c).status, (parseConfigLines lineno lines c).config)
      = lineRule lines c := by
  induction lines generalizing lineno c with
  | nil => rfl
  | cons line lines ih =>
      rw [parseConfigLines, lineRule]
      cases configLine line with
      | skip => exact ih (lineno + 1) c
      | missing => rfl
      | option key value =>
          dsimp only
          cases configSetOption key value c with
          | none => rfl
          | some c => exact ih (lineno + 1) c

/-! ### What a reading does -/

/-- The parser goes on after the line. -/
def acceptedLine : ConfigLine → Bool
  | .skip => true
  | .missing => false
  | .option key value => ((keyNamed key).bind fun k => k.value value).isSome

/-- The key and the text of an option line. -/
def ConfigLine.toOption : ConfigLine → Option (Bytes × Bytes)
  | .option key value => some (key, value)
  | _ => none

/-- The options in front of the first refused line. -/
def acceptedOptions (ls : List ConfigLine) : Options :=
  (ls.takeWhile acceptedLine).filterMap ConfigLine.toOption

/-- Some line is refused. -/
def refused (ls : List ConfigLine) : Bool := !ls.all acceptedLine

/-- Setting an option succeeds exactly for an accepted line. -/
theorem configSetOption_eq (key value : Bytes) (c : Config) :
    configSetOption key value c
      = (keyNamed key).bind fun k => (k.value value).map (k.store c) := by
  cases hkey : keyNamed key with
  | none => exact configSetOption_of_unknown hkey value c
  | some k =>
      obtain rfl := keyNamed_eq_some_iff.mp hkey
      exact configSetOption_name k value c

theorem isSome_configSetOption (key value : Bytes) (c : Config) :
    (configSetOption key value c).isSome = acceptedLine (.option key value) := by
  rw [configSetOption_eq, acceptedLine]
  cases keyNamed key with
  | none => rfl
  | some k => simp

/-- A reading sets its options up to the first refused line, and fails exactly when there is
one. -/
theorem runLines_eq (ls : List ConfigLine) (c : Config) :
    ∃ c', applyOptions (acceptedOptions ls) c = some c' ∧
      runLines ls c = (if refused ls then .errorParse else .success, c') := by
  induction ls generalizing c with
  | nil => exact ⟨c, rfl, rfl⟩
  | cons l ls ih =>
      cases l with
      | skip =>
          obtain ⟨c', happly, hrun⟩ := ih c
          refine ⟨c', ?_, ?_⟩
          · rw [show acceptedOptions (.skip :: ls) = acceptedOptions ls from rfl]
            exact happly
          · simpa [runLines, refused, acceptedLine] using hrun
      | missing => exact ⟨c, by simp [acceptedOptions, acceptedLine, applyOptions],
          by simp [runLines, refused, acceptedLine]⟩
      | option key value =>
          have hsome := isSome_configSetOption key value c
          cases hset : configSetOption key value c with
          | none =>
              rw [hset] at hsome
              have hacc : acceptedLine (.option key value) = false := hsome.symm
              exact ⟨c, by simp [acceptedOptions, hacc, applyOptions],
                by simp [runLines, refused, hacc, hset]⟩
          | some c₁ =>
              rw [hset] at hsome
              have hacc : acceptedLine (.option key value) = true := hsome.symm
              obtain ⟨c', happly, hrun⟩ := ih c₁
              refine ⟨c', ?_, ?_⟩
              · have hcons : acceptedOptions (.option key value :: ls)
                    = (key, value) :: acceptedOptions ls := by
                  simp [acceptedOptions, hacc, ConfigLine.toOption]
                rw [hcons]
                show (configSetOption key value c).bind (applyOptions (acceptedOptions ls)) = _
                rw [hset]
                exact happly
              · rw [runLines, hset]
                simpa [refused, hacc] using hrun

/-! ### Two readings -/

/-- Both readings are refused or none is, and every key gets the same last value from both. -/
structure SameSettings (ls ls' : List ConfigLine) : Prop where
  refused : refused ls = refused ls'
  last : ∀ k, lastValue k (acceptedOptions ls) = lastValue k (acceptedOptions ls')

/-- A field after the options has the value of its last option, or its old value. -/
theorem field_of_applyOptions {opts : Options} {c c' : Config} (h : applyOptions opts c = some c')
    (k : ConfigKey) : k.field c' = (lastValue k opts).getD (k.field c) := by
  obtain ⟨hnone, hlast⟩ := (applyOptions_spec opts c).2 c' h k
  by_cases hnil : valuesOf k opts = []
  · rw [hnone hnil, lastValue, hnil]
    rfl
  · rw [hlast hnil, Option.getD_some]

/-- Every field can have another value. -/
theorem exists_field_ne (k : ConfigKey) (x : OptionValue) : ∃ c : Config, k.field c ≠ x := by
  let other : Config := ⟨[0], true, true, true, true, true, true, 1, 1, true⟩
  have hne : k.field configurationZero ≠ k.field other := by cases k <;> decide
  by_cases hx : k.field configurationZero = x
  · exact ⟨other, fun h => hne (hx.trans h.symm)⟩
  · exact ⟨configurationZero, hx⟩

/-- Two readings have the same effect on every configuration exactly when they have the same
settings. -/
theorem forall_runLines_eq_iff (ls ls' : List ConfigLine) :
    (∀ c, runLines ls c = runLines ls' c) ↔ SameSettings ls ls' := by
  constructor
  · intro h
    have hrefused : refused ls = refused ls' := by
      obtain ⟨c₁, -, h₁⟩ := runLines_eq ls configurationZero
      obtain ⟨c₂, -, h₂⟩ := runLines_eq ls' configurationZero
      have hstatus := congrArg Prod.fst (h₁.symm.trans ((h configurationZero).trans h₂))
      cases hr : refused ls <;> cases hr' : refused ls' <;> simp_all
    refine ⟨hrefused, fun k => ?_⟩
    -- The fields agree from every start, so an unset key is unset in both.
    have hfield : ∀ c : Config, (lastValue k (acceptedOptions ls)).getD (k.field c)
        = (lastValue k (acceptedOptions ls')).getD (k.field c) := by
      intro c
      obtain ⟨c₁, happly₁, h₁⟩ := runLines_eq ls c
      obtain ⟨c₂, happly₂, h₂⟩ := runLines_eq ls' c
      have hconfig : c₁ = c₂ := congrArg Prod.snd (h₁.symm.trans ((h c).trans h₂))
      rw [← field_of_applyOptions happly₁, ← field_of_applyOptions happly₂, hconfig]
    cases hlast : lastValue k (acceptedOptions ls) with
    | none =>
        cases hlast' : lastValue k (acceptedOptions ls') with
        | none => rfl
        | some y =>
            obtain ⟨c, hc⟩ := exists_field_ne k y
            exact absurd (by simpa [hlast, hlast'] using hfield c) hc
    | some x =>
        cases hlast' : lastValue k (acceptedOptions ls') with
        | none =>
            obtain ⟨c, hc⟩ := exists_field_ne k x
            exact absurd (by simpa [hlast, hlast'] using (hfield c).symm) hc
        | some y => simpa [hlast, hlast'] using hfield configurationZero
  · intro h c
    obtain ⟨c₁, happly₁, h₁⟩ := runLines_eq ls c
    obtain ⟨c₂, happly₂, h₂⟩ := runLines_eq ls' c
    have hconfig : c₁ = c₂ := ConfigKey.config_ext fun k => by
      rw [field_of_applyOptions happly₁, field_of_applyOptions happly₂, h.last k]
    rw [h₁, h₂, h.refused, hconfig]

/-! ### The pieces of a line -/

/-- The pieces of a text up to a newline and those behind it, as far as the parser looks at
them. -/
theorem configLines_fgetsFrom_newline (size : ℕ) (line cur rest : Bytes) (h : (10 : UInt8) ∉ line) :
    configLines (fgetsFrom size cur (line ++ 10 :: rest))
      = configLines (fgetsFrom size cur line) ++ configLines (fgetsAll size rest) := by
  induction line generalizing cur with
  | nil =>
      have hnewline : fgetsFrom size cur (10 :: rest) = (cur ++ [10]) :: fgetsAll size rest := by
        rw [fgetsFrom, if_pos (Or.inl rfl)]
        rfl
      have hcur : configLines [cur ++ [10]] = configLines (fgetsFrom size cur []) := by
        rw [fgetsFrom]
        by_cases hnil : cur = []
        · rw [if_pos hnil, hnil]
          decide
        · rw [if_neg hnil]
          simp [configLines, configLine_append_newline]
      rw [List.nil_append, hnewline, configLines_cons, hcur]
  | cons b line ih =>
      have hb : b ≠ 10 := fun hb => h (hb ▸ List.mem_cons_self)
      have hline : (10 : UInt8) ∉ line := fun hmem => h (List.mem_cons_of_mem b hmem)
      rw [List.cons_append, fgetsFrom, fgetsFrom]
      split
      · rw [configLines_cons _ (fgetsFrom size [] (line ++ 10 :: rest)),
          configLines_cons _ (fgetsFrom size [] line), ih [] hline, List.append_assoc]
      · exact ih (cur ++ [b]) hline

/-- The pieces of a file are the pieces of its lines. -/
theorem configLines_fgetsAll_eq_flatMap (text : Bytes) :
    configLines (fgetsAll configLineSize text)
      = (text.splitOn 10).flatMap fun line => configLines (fgetsAll configLineSize line) := by
  induction hn : text.length using Nat.strong_induction_on generalizing text with
  | _ n ih =>
      subst hn
      by_cases hmem : (10 : UInt8) ∈ text
      · obtain ⟨line, rest, rfl, hline⟩ := List.eq_append_cons_of_mem hmem
        rw [List.splitOn_append_cons_self_of_not_mem hline, List.flatMap_cons,
          ← ih rest.length (by simp; omega) rest rfl]
        exact configLines_fgetsFrom_newline configLineSize line [] rest hline
      · rw [List.splitOn_eq_singleton hmem]
        simp

/-! ### Two parts of a reading -/

/-- A reading in two parts: the second part is reached unless the first one is refused. -/
theorem runLines_append (ls more : List ConfigLine) (c : Config) :
    runLines (ls ++ more) c
      = if refused ls then runLines ls c else runLines more (runLines ls c).2 := by
  induction ls generalizing c with
  | nil => rfl
  | cons l ls ih =>
      cases l with
      | skip =>
          rw [List.cons_append, runLines, runLines, ih c]
          rfl
      | missing => rfl
      | option key value =>
          have hsome := isSome_configSetOption key value c
          rw [List.cons_append, runLines, runLines]
          cases hset : configSetOption key value c with
          | none =>
              have hacc : acceptedLine (.option key value) = false := by
                rw [← hsome, hset]
                rfl
              simp [refused, hacc]
          | some c₁ =>
              have hacc : acceptedLine (.option key value) = true := by
                rw [← hsome, hset]
                rfl
              have hrefused : refused (.option key value :: ls) = refused ls := by
                simp [refused, hacc]
              rw [hrefused]
              exact ih c₁

/-- The lines of a file, one by one. -/
theorem configLines_eq_flatMap (lines : List Bytes) :
    configLines lines = lines.flatMap fun line => configLines [line] := by
  induction lines with
  | nil => rfl
  | cons line lines ih => rw [configLines_cons, List.flatMap_cons, ih]

/-- The options that are tried: those up to the first refused line, and this one. -/
def triedOptions : List ConfigLine → Options
  | [] => []
  | l :: ls => l.toOption.toList ++ if acceptedLine l then triedOptions ls else []

theorem triedOptions_append (ls more : List ConfigLine) :
    triedOptions (ls ++ more)
      = triedOptions ls ++ if refused ls then [] else triedOptions more := by
  induction ls with
  | nil => rfl
  | cons l ls ih =>
      rw [List.cons_append, triedOptions, triedOptions, ih]
      by_cases hl : acceptedLine l = true <;> simp [hl, refused]

/-- The calls depend on what the pieces are to the parser only. -/
theorem optionCalls_eq (pieces : List Bytes) (c : Config) :
    optionCalls pieces c = triedOptions (configLines pieces) := by
  induction pieces generalizing c with
  | nil => rfl
  | cons piece pieces ih =>
      rw [optionCalls, configLines_cons]
      cases hpiece : configLine piece with
      | skip =>
          have hskip : configLines [piece] = [] := by simp [configLines, hpiece]
          rw [hskip]
          exact ih c
      | missing =>
          have hone : configLines [piece] = [.missing] := by simp [configLines, hpiece]
          rw [hone]
          rfl
      | option key value =>
          have hone : configLines [piece] = [.option key value] := by simp [configLines, hpiece]
          have hsome := isSome_configSetOption key value c
          rw [hone, List.singleton_append, triedOptions, ← hsome]
          dsimp only [ConfigLine.toOption, Option.toList_some]
          cases configSetOption key value c with
          | none => rfl
          | some c₁ => exact congrArg ((key, value) :: ·) (ih c₁)

/-! ### Harmless cuts -/

/-- The value that a text denotes for the option with a name. -/
def optionValue (name v : Bytes) : Option OptionValue := (keyNamed name).bind fun k => k.value v

/-- The first line of the reading is refused. -/
def HeadRefused (ls : List ConfigLine) : Prop := ∃ l rest, ls = l :: rest ∧ acceptedLine l = false

/-- The reading consists of accepted assignments of one option, and the last of them gives it
the value. -/
def SetsOption (key value : Bytes) (ls : List ConfigLine) : Prop :=
  ∃ vs : List Bytes, ls = vs.map (ConfigLine.option key) ∧
    (∀ v ∈ vs, (optionValue key v).isSome = true) ∧
    vs.getLast?.bind (optionValue key) = optionValue key value

/-- The pieces of a line do what the line does. Those of a blank line or a comment are blank or
comments. When the line is refused, so is its first piece that is not skipped. When it sets an
option, its pieces set this option and no other one, at last to the same value. -/
def CutHarmlessly (line : Bytes) : Prop :=
  let pieces := configLines (fgetsAll configLineSize line)
  match configLine line with
  | .skip => pieces = []
  | .missing => HeadRefused pieces
  | .option key value =>
      if (optionValue key value).isSome then SetsOption key value pieces else HeadRefused pieces

/-- Every line up to the first refused one is cut harmlessly. -/
def CutsHarmless (lines : List Bytes) : Prop :=
  ∀ before line after, lines = before ++ line :: after →
    (∀ l ∈ before, acceptedLine (configLine l) = true) → CutHarmlessly line

/-- The lines are cut harmlessly when the first one is, and the others are unless it is
refused. -/
theorem cutsHarmless_cons_iff (line : Bytes) (lines : List Bytes) :
    CutsHarmless (line :: lines) ↔
      CutHarmlessly line ∧ (acceptedLine (configLine line) = true → CutsHarmless lines) := by
  constructor
  · intro h
    refine ⟨h [] line lines rfl (by simp), fun hline before l after heq hbefore => ?_⟩
    exact h (line :: before) l after (by rw [heq]; rfl) (List.forall_mem_cons.mpr ⟨hline, hbefore⟩)
  · rintro ⟨hline, hlines⟩ before l after heq hbefore
    cases before with
    | nil =>
        obtain ⟨rfl, -⟩ := List.cons.inj heq
        exact hline
    | cons first before =>
        obtain ⟨rfl, hrest⟩ := List.cons.inj heq
        obtain ⟨hfirst, hbefore⟩ := List.forall_mem_cons.mp hbefore
        exact hlines hfirst before l after hrest hbefore

/-- An option of the reading is an option that its key gets a value from. -/
theorem lastValue_acceptedOptions_ne_none_iff (ls : List ConfigLine) (k : ConfigKey) :
    lastValue k (acceptedOptions ls) ≠ none ↔ ∃ v, (k.name, v) ∈ acceptedOptions ls := by
  have hmem : ∀ v, v ∈ valuesOf k (acceptedOptions ls) ↔ (k.name, v) ∈ acceptedOptions ls := by
    intro v
    simp [valuesOf]
  constructor
  · intro h
    cases hlast : (valuesOf k (acceptedOptions ls)).getLast? with
    | none => simp [lastValue, hlast] at h
    | some v => exact ⟨v, (hmem v).mp (List.mem_of_getLast? hlast)⟩
  · rintro ⟨v, hv⟩
    have hne : valuesOf k (acceptedOptions ls) ≠ [] := List.ne_nil_of_mem ((hmem v).mpr hv)
    have hlast := (hmem _).mp (List.getLast_mem hne)
    -- Only accepted lines count, so the last text denotes a value.
    obtain ⟨l, hl, hoption⟩ := List.mem_filterMap.mp hlast
    have haccepted := List.mem_takeWhile_imp hl
    cases l with
    | option key value =>
        obtain ⟨rfl, rfl⟩ := Prod.mk.inj (Option.some.inj hoption)
        rw [acceptedLine, keyNamed_eq_some_iff.mpr rfl, Option.bind_some] at haccepted
        rw [lastValue, List.getLast?_eq_some_getLast hne, Option.bind_some]
        exact Option.isSome_iff_ne_none.mp haccepted
    | _ => cases hoption

/-- A reading that sets nothing is empty or refused at once. -/
theorem eq_nil_or_headRefused {ls : List ConfigLine} (hskip : ConfigLine.skip ∉ ls)
    (h : ∀ k, lastValue k (acceptedOptions ls) = none) : ls = [] ∨ HeadRefused ls := by
  cases ls with
  | nil => exact Or.inl rfl
  | cons l ls =>
      refine Or.inr ⟨l, ls, rfl, ?_⟩
      by_contra haccepted
      rw [Bool.not_eq_false] at haccepted
      cases l with
      | skip => exact hskip List.mem_cons_self
      | missing => cases haccepted
      | option key value =>
          have hfirst : (key, value) ∈ acceptedOptions (.option key value :: ls) := by
            simp [acceptedOptions, haccepted, ConfigLine.toOption]
          have hvalue := haccepted
          rw [acceptedLine] at hvalue
          cases hkey : keyNamed key with
          | none => simp [hkey] at hvalue
          | some k =>
              obtain rfl := keyNamed_eq_some_iff.mp hkey
              exact (lastValue_acceptedOptions_ne_none_iff _ k).mpr ⟨value, hfirst⟩ (h k)

theorem optionValue_name (k : ConfigKey) (v : Bytes) : optionValue k.name v = k.value v := by
  rw [optionValue, keyNamed_eq_some_iff.mpr rfl, Option.bind_some]

section Assignments
variable {key : Bytes} {vs : List Bytes}

/-- Accepted assignments of one option are not refused, and all of them count. -/
theorem refused_assignments (hvs : ∀ v ∈ vs, (optionValue key v).isSome = true) :
    refused (vs.map (ConfigLine.option key)) = false ∧
      acceptedOptions (vs.map (ConfigLine.option key)) = vs.map fun v => (key, v) := by
  have hall : ∀ l ∈ vs.map (ConfigLine.option key), acceptedLine l = true := by
    intro l hl
    obtain ⟨v, hv, rfl⟩ := List.mem_map.mp hl
    exact hvs v hv
  refine ⟨by simpa [refused] using hall, ?_⟩
  rw [acceptedOptions, List.takeWhile_eq_self_iff.mpr hall, List.filterMap_map]
  show vs.filterMap (fun v => some (key, v)) = _
  rw [List.filterMap_eq_map']

/-- The last of them gives the option its value. -/
theorem lastValue_assignments (k : ConfigKey) (vs : List Bytes) :
    lastValue k (vs.map fun v => (k.name, v)) = vs.getLast?.bind (optionValue k.name) := by
  have hvalues : valuesOf k (vs.map fun v => (k.name, v)) = vs := by
    simp [valuesOf, List.filter_map, Function.comp_def]
  rw [lastValue, hvalues, funext (optionValue_name k)]

/-- No other option gets a value. -/
theorem lastValue_assignments_of_ne {j k : ConfigKey} (hj : j ≠ k) (vs : List Bytes) :
    lastValue j (vs.map fun v => (k.name, v)) = none := by
  have hname : k.name ≠ j.name := fun heq => hj (ConfigKey.name_injective heq.symm)
  have hvalues : valuesOf j (vs.map fun v => (k.name, v)) = [] := by
    simp [valuesOf, hname]
  rw [lastValue, hvalues]
  rfl

end Assignments

section OneLine
variable {ls : List ConfigLine} (hskip : ConfigLine.skip ∉ ls)
include hskip

/-- Only the empty reading does nothing. -/
theorem sameSettings_nil_iff : SameSettings ls [] ↔ ls = [] := by
  constructor
  · intro h
    rcases eq_nil_or_headRefused hskip h.last with hnil | ⟨l, rest, rfl, hl⟩
    · exact hnil
    · have hrefused := h.refused
      simp [refused, hl] at hrefused
  · rintro rfl
    exact ⟨rfl, fun _ => rfl⟩

/-- A refused line does what a reading does that is refused at once. -/
theorem sameSettings_refused_iff {l : ConfigLine} (hl : acceptedLine l = false) :
    SameSettings ls [l] ↔ HeadRefused ls := by
  have hnone : acceptedOptions [l] = [] := by simp [acceptedOptions, hl]
  have hrefused : refused [l] = true := by simp [refused, hl]
  constructor
  · intro h
    refine (eq_nil_or_headRefused hskip fun k => ?_).resolve_left ?_
    · rw [h.last k, hnone]
      rfl
    · rintro rfl
      have hempty := h.refused
      rw [hrefused] at hempty
      cases hempty
  · rintro ⟨l', rest, rfl, hl'⟩
    refine ⟨by simp [refused, hl, hl'], fun k => ?_⟩
    rw [hnone, show acceptedOptions (l' :: rest) = [] by simp [acceptedOptions, hl']]

/-- A reading that does what an assignment does has no line about another option: it would give
that option a value. -/
theorem assignment_of_sameSettings {k : ConfigKey} {value : Bytes}
    (hall : ∀ l ∈ ls, acceptedLine l = true)
    (h : ∀ j, lastValue j (acceptedOptions ls) = lastValue j [(k.name, value)]) :
    ∀ l ∈ ls, ∃ v, l = .option k.name v := by
  intro l hl
  cases l with
  | skip => exact absurd hl hskip
  | missing => cases hall _ hl
  | option key v =>
      have hsome := hall _ hl
      rw [acceptedLine] at hsome
      cases hkey : keyNamed key with
      | none => simp [hkey] at hsome
      | some j =>
          obtain rfl := keyNamed_eq_some_iff.mp hkey
          have hmem : (j.name, v) ∈ acceptedOptions ls := by
            rw [acceptedOptions, List.takeWhile_eq_self_iff.mpr hall]
            exact List.mem_filterMap.mpr ⟨_, hl, rfl⟩
          have hlast := (lastValue_acceptedOptions_ne_none_iff ls j).mpr ⟨v, hmem⟩
          -- An accepted line about another option would leave a value for it.
          by_cases hj : j = k
          · exact ⟨v, by rw [hj]⟩
          · rw [h j] at hlast
            exact absurd (lastValue_assignments_of_ne hj [value]) hlast

/-- The accepted assignments of one option do what the last of them does. -/
theorem sameSettings_option_iff {key value : Bytes} (hvalue : (optionValue key value).isSome) :
    SameSettings ls [.option key value] ↔ SetsOption key value ls := by
  obtain ⟨k, hkey⟩ : ∃ k, keyNamed key = some k := by
    cases hkey : keyNamed key with
    | none => simp [optionValue, hkey] at hvalue
    | some k => exact ⟨k, rfl⟩
  obtain rfl := keyNamed_eq_some_iff.mp hkey
  -- The line itself is one accepted assignment.
  obtain ⟨haccepted, hone⟩ := refused_assignments (List.forall_mem_singleton.mpr hvalue)
  rw [List.map_singleton] at haccepted hone
  have hsingle : lastValue k [(k.name, value)] = optionValue k.name value :=
    lastValue_assignments k [value]
  constructor
  · intro h
    have hall : ∀ l ∈ ls, acceptedLine l = true := by
      have hrefused := h.refused
      rw [haccepted] at hrefused
      simpa [refused] using hrefused
    have hkeys := assignment_of_sameSettings hskip hall fun j =>
      (h.last j).trans (congrArg (lastValue j) hone)
    obtain ⟨vs, rfl⟩ : ∃ vs : List Bytes, vs.map (ConfigLine.option k.name) = ls :=
      (Set.range_list_map (ConfigLine.option k.name)).ge fun l hl => by
        obtain ⟨v, rfl⟩ := hkeys l hl
        exact ⟨v, rfl⟩
    have hvs : ∀ v ∈ vs, (optionValue k.name v).isSome = true := fun v hv =>
      hall _ (List.mem_map_of_mem hv)
    refine ⟨vs, rfl, hvs, ?_⟩
    have hlast := h.last k
    rw [(refused_assignments hvs).2, hone, lastValue_assignments] at hlast
    exact hlast.trans hsingle
  · rintro ⟨vs, rfl, hvs, hlast⟩
    obtain ⟨hrefused, hoptions⟩ := refused_assignments hvs
    refine ⟨hrefused.trans haccepted.symm, fun j => ?_⟩
    rw [hoptions, hone]
    by_cases hj : j = k
    · subst hj
      rw [lastValue_assignments, hlast]
      exact hsingle.symm
    · rw [lastValue_assignments_of_ne hj]
      exact (lastValue_assignments_of_ne hj [value]).symm

end OneLine

/-- The pieces of a line have the effect of the line on every configuration exactly when it is
cut harmlessly. -/
theorem sameSettings_iff_cutHarmlessly (line : Bytes) :
    SameSettings (configLines (fgetsAll configLineSize line)) (configLines [line]) ↔
      CutHarmlessly line := by
  have hskip : ∀ lines, ConfigLine.skip ∉ configLines lines := fun lines => by simp [configLines]
  unfold CutHarmlessly
  cases hline : configLine line with
  | skip =>
      rw [show configLines [line] = [] by simp [configLines, hline]]
      exact sameSettings_nil_iff (hskip _)
  | missing =>
      rw [show configLines [line] = [.missing] by simp [configLines, hline]]
      exact sameSettings_refused_iff (hskip _) rfl
  | option key value =>
      rw [show configLines [line] = [.option key value] by simp [configLines, hline]]
      dsimp only
      split
      · rename_i hvalue
        exact sameSettings_option_iff (hskip _) hvalue
      · rename_i hvalue
        exact sameSettings_refused_iff (hskip _) (Bool.not_eq_true _ ▸ hvalue)

/-- A line that fits into the buffer is not cut. -/
theorem cutHarmlessly_of_short {line : Bytes} (h : (10 : UInt8) ∉ line)
    (hlen : line.length < configLineSize) : CutHarmlessly line := by
  have hsplit : line.splitOn 10 = [line] := List.splitOn_eq_singleton h
  have hshort : ShortLines line := by
    intro l hl
    rw [hsplit, List.mem_singleton] at hl
    exact hl ▸ hlen
  rw [← sameSettings_iff_cutHarmlessly, configLines_fgetsAll hshort, hsplit]
  exact ⟨rfl, fun _ => rfl⟩

/-- A line is accepted or skipped unless its reading is refused. -/
theorem refused_configLines_singleton (line : Bytes) :
    refused (configLines [line]) = !acceptedLine (configLine line) := by
  by_cases hskip : configLine line = .skip
  · simp [refused, configLines, hskip, acceptedLine]
  · simp [refused, configLines, hskip]

/-- With harmless cuts the pieces have the effect of the lines. -/
theorem runLines_of_cutsHarmless (lines : List Bytes) (h : CutsHarmless lines) (c : Config) :
    runLines (lines.flatMap fun line => configLines (fgetsAll configLineSize line)) c
      = runLines (lines.flatMap fun line => configLines [line]) c := by
  induction lines generalizing c with
  | nil => rfl
  | cons line lines ih =>
      obtain ⟨hline, hlines⟩ := (cutsHarmless_cons_iff line lines).mp h
      have hsame := (sameSettings_iff_cutHarmlessly line).mpr hline
      have hrun := (forall_runLines_eq_iff _ _).mpr hsame
      rw [List.flatMap_cons, List.flatMap_cons, runLines_append, runLines_append, hsame.refused,
        hrun c]
      by_cases hrefused : refused (configLines [line]) = true
      · rw [if_pos hrefused, if_pos hrefused]
      · rw [if_neg hrefused, if_neg hrefused]
        refine ih (hlines ?_) _
        simpa [refused_configLines_singleton] using hrefused

/-- In front of a line that the parser reaches, the lines are accepted, and they are cut
harmlessly as far as it is known. -/
theorem accepted_of_pieces_accepted {before : List Bytes} {line : Bytes} {after : List Bytes}
    (h : CutsHarmless (before ++ line :: after))
    (haccepted :
      refused (before.flatMap fun l => configLines (fgetsAll configLineSize l)) = false) :
    CutHarmlessly line := by
  induction before with
  | nil => exact ((cutsHarmless_cons_iff line after).mp h).1
  | cons first before ih =>
      obtain ⟨hfirst, hrest⟩ := (cutsHarmless_cons_iff first _).mp h
      rw [List.flatMap_cons, refused, List.all_append, Bool.not_and, Bool.or_eq_false_iff]
        at haccepted
      have hsame := ((sameSettings_iff_cutHarmlessly first).mpr hfirst).refused
      rw [refused_configLines_singleton] at hsame
      refine ih (hrest ?_) haccepted.2
      have hpieces : refused (configLines (fgetsAll configLineSize first)) = false := haccepted.1
      rwa [hpieces, eq_comm, Bool.not_eq_false'] at hsame

/-! ### The whole file -/

/-- The result of the parser against that of the line rule, as a comparison of the two readings
of the text. -/
theorem result_iff_runLines (text : Bytes) :
    (∀ (env : ConfigEnv) (path : Bytes) (c : Config), env.configFile = .content text →
      (parseConfigFile env path c).status = (lineRule (text.splitOn 10) c).1 ∧
      (parseConfigFile env path c).config = (lineRule (text.splitOn 10) c).2) ↔
    ∀ c, runLines (configLines (fgetsAll configLineSize text)) c
      = runLines (configLines (text.splitOn 10)) c := by
  have hparse : ∀ (env : ConfigEnv) (path : Bytes) (c : Config), env.configFile = .content text →
      ((parseConfigFile env path c).status, (parseConfigFile env path c).config)
        = runLines (configLines (fgetsAll configLineSize text)) c := by
    intro env path c henv
    have hcontent : parseConfigFile env path c
        = parseConfigLines 0 (fgetsAll configLineSize text) c := by
      rw [parseConfigFile, henv]
    rw [hcontent, parseConfigLines_eq_lineRule, lineRule_eq_runLines]
  constructor
  · intro h c
    let env : ConfigEnv :=
      ⟨none, .content text, fun _ => none, fun _ => .created, fun _ => true, []⟩
    obtain ⟨hstatus, hconfig⟩ := h env [] c rfl
    rw [← hparse env [] c rfl, ← lineRule_eq_runLines, hstatus, hconfig]
  · intro h env path c henv
    have hrun := hparse env path c henv
    rw [h c, ← lineRule_eq_runLines] at hrun
    exact ⟨congrArg Prod.fst hrun, congrArg Prod.snd hrun⟩

/-- What is in front of a line ends with whole lines. -/
theorem splitOn_of_lineStart {front : Bytes} (h : front = [] ∨ front.getLast? = some 10) :
    ∃ before, ∀ rest : Bytes, (front ++ rest).splitOn 10 = before ++ rest.splitOn 10 := by
  rcases h with rfl | hlast
  · exact ⟨[], fun rest => rfl⟩
  · obtain ⟨f, rfl⟩ := List.getLast?_eq_some_iff.mp hlast
    refine ⟨f.splitOn 10, fun rest => ?_⟩
    rw [List.append_assoc, List.singleton_append, List.splitOn_append_cons_self]

/-- When the lines are cut harmlessly, a comment line is passed over. -/
theorem optionCalls_comment {text front line : Bytes} (h : CutsHarmless (text.splitOn 10))
    (hline : LineAt text front line) (hcomment : isComment line) (c : Config) :
    optionCalls (fgetsAll configLineSize (front ++ line)) c
      = optionCalls (fgetsAll configLineSize front) c := by
  obtain ⟨back, rfl, hfront, hnewline, hback⟩ := hline
  obtain ⟨before, hbefore⟩ := splitOn_of_lineStart hfront
  obtain ⟨after, hafter⟩ : ∃ after, (line ++ back).splitOn 10 = line :: after := by
    rcases hback with rfl | hhead
    · exact ⟨[], by rw [List.append_nil, List.splitOn_eq_singleton hnewline]⟩
    · obtain ⟨b, rfl⟩ := List.head?_eq_some_iff.mp hhead
      exact ⟨b.splitOn 10, List.splitOn_append_cons_self_of_not_mem hnewline b⟩
  rw [hbefore, hafter] at h
  -- The pieces of both texts, line by line.
  have hpieces : configLines (fgetsAll configLineSize front)
      = before.flatMap fun l => configLines (fgetsAll configLineSize l) := by
    have hsplit := hbefore []
    rw [List.append_nil, List.splitOn_nil] at hsplit
    rw [configLines_fgetsAll_eq_flatMap, hsplit, List.flatMap_append, List.flatMap_singleton]
    exact List.append_nil _
  have hmore : configLines (fgetsAll configLineSize (front ++ line))
      = configLines (fgetsAll configLineSize front)
        ++ configLines (fgetsAll configLineSize line) := by
    rw [configLines_fgetsAll_eq_flatMap, hbefore, List.splitOn_eq_singleton hnewline,
      List.flatMap_append, List.flatMap_singleton, hpieces]
  rw [optionCalls_eq, optionCalls_eq, hmore, triedOptions_append]
  by_cases hrefused : refused (configLines (fgetsAll configLineSize front)) = true
  · rw [if_pos hrefused, List.append_nil]
  · -- The comment is reached, so it is cut harmlessly, and its pieces are skipped.
    rw [Bool.not_eq_true, hpieces] at hrefused
    have hharmless := accepted_of_pieces_accepted h hrefused
    have hskip : configLine line = .skip := by
      rw [configLine, if_pos (Or.inr (of_decide_eq_true hcomment))]
    rw [CutHarmlessly, hskip] at hharmless
    dsimp only at hharmless
    rw [hharmless, triedOptions, ite_self, List.append_nil]

/-- `parse_config_file` reads a text line by line when every line up to the first refused one is
cut harmlessly. For a text of one line this is also necessary. -/
theorem lineBased_of_cutsHarmless (text : Bytes) :
    (CutsHarmless (text.splitOn 10) → LineBased text) ∧
    ((10 : UInt8) ∉ text → (LineBased text ↔ CutHarmlessly text)) := by
  have hsufficient : CutsHarmless (text.splitOn 10) → LineBased text := fun h => by
    refine ⟨(result_iff_runLines text).mpr fun c => ?_,
      fun front line hline hcomment c => optionCalls_comment h hline hcomment c⟩
    rw [configLines_fgetsAll_eq_flatMap, configLines_eq_flatMap (text.splitOn 10)]
    exact runLines_of_cutsHarmless _ h c
  refine ⟨hsufficient, fun hone => ⟨fun h => ?_, fun h => hsufficient ?_⟩⟩
  · have hrun := (result_iff_runLines text).mp h.result
    rw [List.splitOn_eq_singleton hone] at hrun
    exact (sameSettings_iff_cutHarmlessly text).mp ((forall_runLines_eq_iff _ _).mp hrun)
  · rw [List.splitOn_eq_singleton hone]
    exact (cutsHarmless_cons_iff text []).mpr ⟨h, fun _ before line after heq => by simp at heq⟩

/-- A comment with blanks behind it, and an option with more blanks than fit into the buffer. -/
def blankTails : Bytes :=
  35 :: (List.replicate 600 32 ++ 10 :: (ascii "include_self=1" ++ List.replicate 600 32))

/-- Both lines are cut harmlessly. -/
theorem lineBased_of_cutsHarmless_blankTails : LineBased blankTails := by
  refine (lineBased_of_cutsHarmless blankTails).1 ?_
  have hlines : blankTails.splitOn 10
      = [35 :: List.replicate 600 32, ascii "include_self=1" ++ List.replicate 600 32] := by
    decide +kernel
  rw [hlines, cutsHarmless_cons_iff, cutsHarmless_cons_iff]
  refine ⟨?_, fun _ => ⟨?_, fun _ before line after heq => by simp at heq⟩⟩
  · have hpieces : configLines (fgetsAll configLineSize (35 :: List.replicate 600 32)) = [] := by
      decide +kernel
    rw [CutHarmlessly, show configLine (35 :: List.replicate 600 32) = .skip by decide +kernel]
    exact hpieces
  · have hpieces : configLines (fgetsAll configLineSize
        (ascii "include_self=1" ++ List.replicate 600 32))
        = [.option (ascii "include_self") (ascii "1")] := by decide +kernel
    rw [CutHarmlessly, show configLine (ascii "include_self=1" ++ List.replicate 600 32)
      = .option (ascii "include_self") (ascii "1") by decide +kernel]
    dsimp only
    rw [if_pos (by decide), hpieces]
    exact ⟨[ascii "1"], rfl, by decide, rfl⟩

/-- A line of a text has no newline. -/
theorem newline_notMem_of_mem_splitOn {text line : Bytes} (h : line ∈ text.splitOn 10) :
    (10 : UInt8) ∉ line := by
  induction text generalizing line with
  | nil =>
      rw [List.splitOn_nil, List.mem_singleton] at h
      simp [h]
  | cons b text ih =>
      obtain ⟨first, lines, hsplit⟩ :=
        List.exists_cons_of_ne_nil (List.splitOn_ne_nil (10 : UInt8) text)
      rw [List.splitOn_cons_eq_if_modifyHead, hsplit] at h
      rw [hsplit] at ih
      split at h
      · rcases List.mem_cons.mp h with rfl | hmem
        · simp
        · exact ih hmem
      · rename_i hb
        rw [List.modifyHead_cons, List.mem_cons] at h
        rcases h with rfl | hmem
        · rw [List.mem_cons, not_or]
          exact ⟨fun heq => hb (by simp [heq]), ih List.mem_cons_self⟩
        · exact ih (List.mem_cons_of_mem first hmem)

/-- Lines of at most 511 bytes are enough. -/
theorem cutsHarmless_of_shortLines {text : Bytes} (h : ShortLines text) :
    CutsHarmless (text.splitOn 10) := by
  intro before line after heq _
  have hmem : line ∈ text.splitOn 10 := heq ▸ List.mem_append_right _ List.mem_cons_self
  exact cutHarmlessly_of_short (newline_notMem_of_mem_splitOn hmem) (h line hmem)

/-- A comment of 525 bytes whose end looks like an option. -/
def longComment : Bytes := 35 :: List.replicate 510 120 ++ ascii "include_self=1"

/-- The end of a long comment is read as an option: the rule skips the whole line, and the
parser sets `include_self`. -/
theorem not_lineBased_longComment : ¬ LineBased longComment := by
  intro h
  have hrun := (result_iff_runLines longComment).mp h.result configurationZero
  have hline : (runLines (configLines (longComment.splitOn 10)) configurationZero).2.includeSelf
      = false := by decide +kernel
  have hpieces : (runLines (configLines (fgetsAll configLineSize longComment))
      configurationZero).2.includeSelf = true := by decide +kernel
  rw [hrun, hline] at hpieces
  cases hpieces

end ProcessAnalyzer
