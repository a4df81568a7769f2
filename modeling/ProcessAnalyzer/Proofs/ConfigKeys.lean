import ProcessAnalyzer.Model.ConfigFile

/-!
# `ProcessAnalyzer.Proofs.ConfigKeys`: the options of the configuration file

`config_set_option` compares the key with ten names. Here the names are a type
(`ConfigKey`), and every key has its values, its field of the configuration and its getter.
`configSetOption_name` reads the chain of comparisons in these terms: an option with the name
of a key stores its value in the field of that key, and nothing else changes.

`ConfigLine` lists come from two readings of a file. `fgetsAll` gives what the parser reads,
and `splitOn` gives the lines. `configLines_fgetsAll` says that both are the same when
no line is longer than the buffer.

`applyOptions_spec` is the effect of a list of options: a field has the value of the last
option with its key, and without one it keeps its value.
-/

set_option autoImplicit false

namespace ProcessAnalyzer

open ProcessAnalyzer.Lib

/-! ### Keys, fields and getters -/

/-- The options of the configuration file. -/
inductive ConfigKey where
  | outputDir
  | rawLogEnabled
  | rawJsonlEnabled
  | rawConsoleEnabled
  | compressionEnabled
  | metricsOnConsole
  | metricsOnJson
  | maxFileSize
  | maxNumberOfFiles
  | includeSelf
  deriving DecidableEq

/-- The value of an option. -/
inductive OptionValue where
  | text (s : Bytes)
  | flag (b : Bool)
  | size (n : Int64)
  | number (n : Int32)
  deriving DecidableEq

namespace ConfigKey

/-- The name of the option in the file. -/
def name : ConfigKey → Bytes
  | .outputDir => ascii "output_dir"
  | .rawLogEnabled => ascii "raw_log_enabled"
  | .rawJsonlEnabled => ascii "raw_jsonl_enabled"
  | .rawConsoleEnabled => ascii "raw_console_enabled"
  | .compressionEnabled => ascii "compression_enabled"
  | .metricsOnConsole => ascii "metrics_on_console"
  | .metricsOnJson => ascii "metrics_on_json"
  | .maxFileSize => ascii "max_file_size"
  | .maxNumberOfFiles => ascii "max_number_of_files"
  | .includeSelf => ascii "include_self"

/-- All keys. -/
def all : List ConfigKey :=
  [.outputDir, .rawLogEnabled, .rawJsonlEnabled, .rawConsoleEnabled, .compressionEnabled,
    .metricsOnConsole, .metricsOnJson, .maxFileSize, .maxNumberOfFiles, .includeSelf]

/-- The value that a text denotes for an option. -/
def value (k : ConfigKey) (v : Bytes) : Option OptionValue :=
  match k with
  | .outputDir => if v.length ≥ pathMax then none else some (.text v)
  | .maxFileSize => (parseSize v).map .size
  | .maxNumberOfFiles => some (.number (atoi v))
  | _ => (parseBool v).map .flag

/-- The field of the option. -/
def field (c : Config) : ConfigKey → OptionValue
  | .outputDir => .text c.outputDir
  | .rawLogEnabled => .flag c.rawLogEnabled
  | .rawJsonlEnabled => .flag c.rawJsonlEnabled
  | .rawConsoleEnabled => .flag c.rawConsoleEnabled
  | .compressionEnabled => .flag c.compressionEnabled
  | .metricsOnConsole => .flag c.metricsConsoleEnabled
  | .metricsOnJson => .flag c.metricsJsonEnabled
  | .maxFileSize => .size c.maxFileSizeBytes
  | .maxNumberOfFiles => .number c.maxNumberOfFiles
  | .includeSelf => .flag c.includeSelf

/-- The configuration with another value of the option. -/
def store (c : Config) : ConfigKey → OptionValue → Config
  | .outputDir, .text s => { c with outputDir := s }
  | .rawLogEnabled, .flag b => { c with rawLogEnabled := b }
  | .rawJsonlEnabled, .flag b => { c with rawJsonlEnabled := b }
  | .rawConsoleEnabled, .flag b => { c with rawConsoleEnabled := b }
  | .compressionEnabled, .flag b => { c with compressionEnabled := b }
  | .metricsOnConsole, .flag b => { c with metricsConsoleEnabled := b }
  | .metricsOnJson, .flag b => { c with metricsJsonEnabled := b }
  | .maxFileSize, .size n => { c with maxFileSizeBytes := n }
  | .maxNumberOfFiles, .number n => { c with maxNumberOfFiles := n }
  | .includeSelf, .flag b => { c with includeSelf := b }
  | _, _ => c

/-- The getter of the option. -/
def getter (c : Config) : ConfigKey → OptionValue
  | .outputDir => .text c.configGetOutputDir
  | .rawLogEnabled => .flag c.configGetRawLogEnabled
  | .rawJsonlEnabled => .flag c.configGetRawJsonlEnabled
  | .rawConsoleEnabled => .flag c.configGetRawConsoleEnabled
  | .compressionEnabled => .flag c.configGetCompressionEnabled
  | .metricsOnConsole => .flag c.configGetMetricsConsoleEnabled
  | .metricsOnJson => .flag c.configGetMetricsJsonEnabled
  | .maxFileSize => .size c.configGetMaxFileSizeBytes
  | .maxNumberOfFiles => .number c.configGetMaxNumberOfFiles
  | .includeSelf => .flag c.configGetIncludeSelf

/-- The names are distinct. -/
theorem name_injective : Function.Injective name := by
  intro k j h
  revert h
  cases k <;> cases j <;> decide

/-- The getters are right, except that of `metrics_on_json`, which reads another field. -/
theorem getter_eq_field (c : Config) {k : ConfigKey} (h : k ≠ .metricsOnJson) :
    k.getter c = k.field c := by
  cases k <;> first | rfl | exact absurd rfl h

/-- Storing a value of the option changes its own field. -/
theorem field_store_self (c : Config) {k : ConfigKey} {v : Bytes} {x : OptionValue}
    (h : k.value v = some x) : k.field (k.store c x) = x := by
  cases k with
  | outputDir =>
      simp only [value] at h
      split at h
      · cases h
      · obtain rfl := Option.some.inj h
        rfl
  | maxNumberOfFiles =>
      obtain rfl := Option.some.inj h
      rfl
  | _ =>
      obtain ⟨y, -, rfl⟩ := Option.map_eq_some_iff.mp h
      rfl

/-- The fields of the other options stay. -/
theorem field_store_of_ne (c : Config) {j k : ConfigKey} (h : j ≠ k) (x : OptionValue) :
    j.field (k.store c x) = j.field c := by
  cases k <;> cases x <;> first | rfl | cases j <;> first | rfl | exact absurd rfl h

/-- A configuration is determined by its fields. -/
theorem config_ext {c c' : Config} (h : ∀ k : ConfigKey, k.field c = k.field c') : c = c' := by
  cases c
  cases c'
  simp only [Config.mk.injEq]
  exact ⟨OptionValue.text.inj (h .outputDir), OptionValue.flag.inj (h .rawLogEnabled),
    OptionValue.flag.inj (h .rawJsonlEnabled), OptionValue.flag.inj (h .rawConsoleEnabled),
    OptionValue.flag.inj (h .compressionEnabled), OptionValue.flag.inj (h .metricsOnConsole),
    OptionValue.flag.inj (h .metricsOnJson), OptionValue.size.inj (h .maxFileSize),
    OptionValue.number.inj (h .maxNumberOfFiles), OptionValue.flag.inj (h .includeSelf)⟩

end ConfigKey

/-! ### One option -/

/-- The key with a name. -/
def keyNamed (name : Bytes) : Option ConfigKey := ConfigKey.all.find? fun k => k.name = name

theorem keyNamed_eq_some_iff {name : Bytes} {k : ConfigKey} :
    keyNamed name = some k ↔ name = k.name := by
  constructor
  · intro h
    unfold keyNamed at h
    have hname := List.find?_some h
    exact (of_decide_eq_true hname).symm
  · rintro rfl
    cases k <;> decide

/-- `config_set_option` of a known key stores its value, and fails only for a text that
denotes none. -/
theorem configSetOption_name (k : ConfigKey) (v : Bytes) (c : Config) :
    configSetOption k.name v c = (k.value v).map (k.store c) := by
  cases k with
  | outputDir =>
      simp only [configSetOption, ConfigKey.name, if_true, ConfigKey.value]
      split <;> rfl
  | maxFileSize =>
      simp +decide only [configSetOption, if_false, if_true, ConfigKey.value]
      cases parseSize v <;> rfl
  | maxNumberOfFiles =>
      simp +decide only [configSetOption, if_false, if_true, ConfigKey.value]
      rfl
  | _ =>
      simp +decide only [configSetOption, if_false, if_true, ConfigKey.value]
      cases parseBool v <;> rfl

/-- An unknown key is refused. -/
theorem configSetOption_of_unknown {name : Bytes} (h : keyNamed name = none) (v : Bytes)
    (c : Config) : configSetOption name v c = none := by
  have hne : ∀ k : ConfigKey, name ≠ k.name := by
    intro k hk
    rw [keyNamed_eq_some_iff.mpr hk] at h
    cases h
  exact (if_neg (hne .outputDir)).trans <| (if_neg (hne .rawLogEnabled)).trans <|
    (if_neg (hne .rawJsonlEnabled)).trans <| (if_neg (hne .rawConsoleEnabled)).trans <|
    (if_neg (hne .compressionEnabled)).trans <| (if_neg (hne .metricsOnConsole)).trans <|
    (if_neg (hne .metricsOnJson)).trans <| (if_neg (hne .maxFileSize)).trans <|
    (if_neg (hne .maxNumberOfFiles)).trans <| if_neg (hne .includeSelf)

/-! ### A list of options -/

/-- The options of a file in order: keys and texts. -/
abbrev Options := List (Bytes × Bytes)

/-- The options set one after the other, or `none` when one is refused. -/
def applyOptions (opts : Options) (c : Config) : Option Config :=
  opts.foldlM (fun c opt => configSetOption opt.1 opt.2 c) c

/-- The texts that the options give a key. -/
def valuesOf (k : ConfigKey) (opts : Options) : List Bytes :=
  (opts.filter fun opt => opt.1 = k.name).map Prod.snd

/-- The value of the last option with the key. -/
def lastValue (k : ConfigKey) (opts : Options) : Option OptionValue :=
  (valuesOf k opts).getLast?.bind k.value

/-- The options are accepted: known keys with valid values. -/
def AcceptedOptions (opts : Options) : Prop :=
  ∀ opt ∈ opts, ∃ k, keyNamed opt.1 = some k ∧ (k.value opt.2).isSome = true

@[simp] theorem valuesOf_cons_self (k : ConfigKey) (v : Bytes) (opts : Options) :
    valuesOf k ((k.name, v) :: opts) = v :: valuesOf k opts := by
  simp [valuesOf]

theorem valuesOf_cons_of_ne {j k : ConfigKey} (h : j ≠ k) (v : Bytes) (opts : Options) :
    valuesOf k ((j.name, v) :: opts) = valuesOf k opts := by
  have hname : j.name ≠ k.name := fun heq => h (ConfigKey.name_injective heq)
  simp [valuesOf, hname]

/-- The first option is set, then the others. -/
theorem applyOptions_cons (k : ConfigKey) (v : Bytes) (opts : Options) (c : Config) :
    applyOptions ((k.name, v) :: opts) c
      = (k.value v).bind fun x => applyOptions opts (k.store c x) := by
  show (configSetOption k.name v c).bind (applyOptions opts) = _
  rw [configSetOption_name]
  cases k.value v <;> rfl

/-- What setting the options does: it succeeds exactly for accepted options, and then every
field has the value of the last option with its key, or its old value. -/
theorem applyOptions_spec (opts : Options) (c : Config) :
    ((applyOptions opts c).isSome = true ↔ AcceptedOptions opts) ∧
    ∀ c', applyOptions opts c = some c' → ∀ k : ConfigKey,
      (valuesOf k opts = [] → k.field c' = k.field c) ∧
      (valuesOf k opts ≠ [] → lastValue k opts = some (k.field c')) := by
  induction opts generalizing c with
  | nil =>
      refine ⟨by simp [applyOptions, AcceptedOptions], ?_⟩
      intro c' hc' k
      obtain rfl := Option.some.inj hc'
      exact ⟨fun _ => rfl, fun hne => absurd rfl hne⟩
  | cons opt opts ih =>
      obtain ⟨name, v⟩ := opt
      have haccepted : AcceptedOptions ((name, v) :: opts)
          ↔ (∃ k, keyNamed name = some k ∧ (k.value v).isSome = true) ∧ AcceptedOptions opts :=
        List.forall_mem_cons
      rw [haccepted]
      cases hkey : keyNamed name with
      | none =>
          have hnone : applyOptions ((name, v) :: opts) c = none := by
            show (configSetOption name v c).bind (applyOptions opts) = none
            rw [configSetOption_of_unknown hkey]
            rfl
          simp [hnone]
      | some j =>
          obtain rfl := keyNamed_eq_some_iff.mp hkey
          rw [applyOptions_cons]
          cases hvalue : j.value v with
          | none => simp [hvalue]
          | some x =>
            obtain ⟨hsome, hrest⟩ := ih (j.store c x)
            simp only [Option.bind_some, Option.some.injEq, exists_eq_left', hvalue,
              Option.isSome_some, true_and]
            refine ⟨hsome, ?_⟩
            intro c' hc' k
            obtain ⟨hnone, hlast⟩ := hrest c' hc' k
            by_cases hjk : j = k
            · subst hjk
              rw [valuesOf_cons_self]
              refine ⟨fun hnil => absurd hnil (by simp), fun _ => ?_⟩
              -- The new option counts when no later one has its key.
              unfold lastValue at hlast ⊢
              rw [valuesOf_cons_self]
              cases hvs : valuesOf j opts with
              | nil => simp [hvalue, hnone hvs, ConfigKey.field_store_self c hvalue]
              | cons w ws =>
                  rw [List.getLast?_cons_cons, ← hvs]
                  exact hlast (by simp [hvs])
            · unfold lastValue at hlast ⊢
              rw [valuesOf_cons_of_ne hjk]
              exact ⟨fun hnil =>
                (hnone hnil).trans (ConfigKey.field_store_of_ne c (Ne.symm hjk) x), hlast⟩

/-! ### The lines of a file -/

/-- The lines that the parser does not skip. -/
def configLines (lines : List Bytes) : List ConfigLine :=
  (lines.map configLine).filter (· ≠ .skip)

/-- The options among the lines. -/
def optionsOf (lines : List Bytes) : Options :=
  (configLines lines).filterMap fun l =>
    match l with
    | .option key value => some (key, value)
    | _ => none

/-- The parser succeeds exactly when every line that it does not skip is an accepted option,
and then it has set these options. -/
theorem parseConfigLines_success_iff (lineno : ℕ) (lines : List Bytes) (c c' : Config) :
    ((parseConfigLines lineno lines c).status = .success ∧
      (parseConfigLines lineno lines c).config = c') ↔
    ConfigLine.missing ∉ configLines lines ∧ applyOptions (optionsOf lines) c = some c' := by
  induction lines generalizing lineno c with
  | nil => simp [parseConfigLines, configLines, optionsOf, applyOptions]
  | cons line lines ih =>
      cases hline : configLine line with
      | skip =>
          have hskip : configLines (line :: lines) = configLines lines := by
            simp [configLines, hline]
          simp only [parseConfigLines, hline, optionsOf, hskip]
          exact ih (lineno + 1) c
      | missing => simp [parseConfigLines, hline, configLines]
      | option key value =>
          have hopt : configLines (line :: lines) = .option key value :: configLines lines := by
            simp [configLines, hline]
          have happly : applyOptions (optionsOf (line :: lines)) c
              = (configSetOption key value c).bind fun c₁ => applyOptions (optionsOf lines) c₁ := by
            simp only [optionsOf, hopt, List.filterMap_cons]
            rfl
          rw [happly, hopt]
          simp only [parseConfigLines, hline, List.mem_cons, reduceCtorEq, false_or]
          cases configSetOption key value c with
          | none => simp
          | some c₁ => exact ih (lineno + 1) c₁

/-! ### Lines and pieces of `fgets` -/

/-- No line is longer than what `fgets` reads at once. -/
def ShortLines (content : Bytes) : Prop :=
  ∀ line ∈ content.splitOn 10, line.length < configLineSize

/-- Trimming removes a newline at the end. -/
theorem trim_append_newline (s : Bytes) : trim (s ++ [10]) = trim s := by
  have hspace : isSpace 10 = true := by decide
  unfold trim
  rw [List.dropWhile_append]
  split
  · rename_i hall
    rw [List.isEmpty_iff] at hall
    simp [hall, hspace]
  · simp [hspace]

/-- The newline at the end of a line does not matter. -/
theorem configLine_append_newline (line : Bytes) : configLine (line ++ [10]) = configLine line := by
  have htrim : trim (cString (line ++ [10])) = trim (cString line) := by
    unfold cString
    rw [List.takeWhile_append]
    split
    · rename_i hall
      rw [(List.takeWhile_prefix _).eq_of_length hall]
      exact trim_append_newline line
    · rfl
  simp only [configLine, htrim]

theorem configLines_cons (line : Bytes) (lines : List Bytes) :
    configLines (line :: lines) = configLines [line] ++ configLines lines := by
  simp only [configLines, ← List.filter_append, ← List.map_append, List.singleton_append]

@[simp] theorem configLines_nil_cons (lines : List Bytes) :
    configLines ([] :: lines) = configLines lines := by
  rw [configLines_cons]
  rfl

/-- The pieces that `fgets` reads have the same configuration lines as the lines of the file:
a line fits into one piece, or its newline is a piece of its own. -/
theorem configLines_fgetsFrom (content cur : Bytes)
    (hhead : ∀ line ∈ (content.splitOn 10).head?, (cur ++ line).length < configLineSize)
    (htail : ∀ line ∈ (content.splitOn 10).tail, line.length < configLineSize) :
    configLines (fgetsFrom configLineSize cur content)
      = configLines ((content.splitOn 10).modifyHead (cur ++ ·)) := by
  induction content generalizing cur with
  | nil =>
      unfold fgetsFrom
      split
      · rename_i hcur
        rw [hcur]
        rfl
      · simp
  | cons b rest ih =>
      have hsplit := List.splitOn_cons_eq_if_modifyHead (a := (10 : UInt8)) b rest
      obtain ⟨line, lines, hrest⟩ :=
        List.exists_cons_of_ne_nil (List.splitOn_ne_nil (10 : UInt8) rest)
      rw [hsplit, hrest] at hhead htail ⊢
      rw [hrest] at ih
      unfold fgetsFrom
      by_cases hb : b = 10
      · subst hb
        simp only [true_or, if_true, beq_self_eq_true, List.modifyHead_cons, List.append_nil] at *
        rw [configLines_cons, configLines_cons (cur), ih [] (by simpa using htail line (by simp))
          (fun l hl => htail l (List.mem_cons_of_mem _ hl))]
        simp [configLines, configLine_append_newline]
      · have hbne : (b == 10) = false := by simpa using hb
        simp only [hb, false_or, hbne, Bool.false_eq_true, if_false, List.modifyHead_cons,
          List.head?_cons, Option.mem_def, Option.some.injEq, forall_eq', List.tail_cons] at *
        split
        · rename_i hfull
          -- The buffer is full, so the line ends here.
          have hline : line = [] := by
            rw [← List.length_eq_zero_iff]
            simp only [List.length_append, List.length_cons, List.length_nil] at hfull hhead
            omega
          subst hline
          rw [configLines_cons, ih [] (by simp [configLineSize]) htail, List.append_nil,
            configLines_nil_cons, ← configLines_cons]
        · rw [ih (cur ++ [b]) (by simpa using hhead) htail]
          simp

/-- On a file with short lines the parser sees its lines. -/
theorem configLines_fgetsAll {content : Bytes} (h : ShortLines content) :
    configLines (fgetsAll configLineSize content) = configLines (content.splitOn 10) := by
  have hlines := configLines_fgetsFrom content []
    (fun line hline => h line (List.mem_of_mem_head? hline))
    (fun line hline => h line (List.mem_of_mem_tail hline))
  unfold fgetsAll
  rw [hlines]
  congr 1
  cases content.splitOn 10 <;> rfl

end ProcessAnalyzer
