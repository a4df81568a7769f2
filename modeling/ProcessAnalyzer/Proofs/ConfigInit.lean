import ProcessAnalyzer.Proofs.ConfigKeys

/-!
# `ProcessAnalyzer.Proofs.ConfigInit`: the configuration in force

`Loaded env text c` says that `config_init` reads the file with this text, succeeds and
leaves the configuration `c`. `loaded_iff` is the run of `config_init` in these terms: the
options of the file are set on a zero configuration, and the result is validated.

Two results follow from it.

* `getters_driven_iff`: every option of the file drives its own getter, unless the file sets
  `metrics_on_json`. The getter of that option reads the field of `metrics_on_console`.
* `loaded_defaults_iff`: the configuration is the default configuration with the options of
  the file set on it, exactly when the file sets all options whose default is not zero.
-/

set_option autoImplicit false

namespace ProcessAnalyzer

open ProcessAnalyzer.Lib

/-! ### The run of `config_init` -/

/-- `config_init` succeeds on the file with this text and leaves the configuration. -/
structure Loaded (env : ConfigEnv) (text : Bytes) (c : Config) : Prop where
  path : env.configFilePath.isSome = true
  file : env.configFile = .content text
  status : (configInit env).status = .success
  config : (configInit env).config = c

/-- The options that `parse_config_file` reads from the text. -/
def readOptions (text : Bytes) : Options := optionsOf (fgetsAll configLineSize text)

/-- What validation does: it refuses the output directory, or it goes on to the values. -/
theorem validateConfig_cases (env : ConfigEnv) (c : Config) :
    ((ensureOutputDir env c.outputDir).1 = none ∧
      (validateConfig env c).status = .errorValidation ∧
      (validateConfig env c).config = c ∧ (validateConfig env c).dummyFile = none) ∨
    ∃ dummy stdout, (ensureOutputDir env c.outputDir).1 = some dummy ∧
      validateConfig env c = { validateValues c stdout with dummyFile := some dummy } := by
  unfold validateConfig
  rcases hdir : ensureOutputDir env c.outputDir with ⟨dummy | dummy, stdout, stderr⟩
  · exact Or.inl ⟨rfl, rfl, rfl, rfl⟩
  · exact Or.inr ⟨dummy, stdout, rfl, rfl⟩

/-- Validation does not change the configuration. -/
theorem config_validateConfig (env : ConfigEnv) (c : Config) :
    (validateConfig env c).config = c := by
  have hvalues (stdout : Bytes) : (validateValues c stdout).config = c := by
    unfold validateValues
    split
    · rfl
    · split
      · rfl
      · split <;> rfl
  rcases validateConfig_cases env c with ⟨-, -, hconfig, -⟩ | ⟨dummy, stdout, -, heq⟩
  · exact hconfig
  · rw [heq]
    exact hvalues stdout

/-- Validation looks at the output directory, the limits and the raw outputs. -/
theorem status_validateConfig_congr (env : ConfigEnv) {c c' : Config}
    (hdir : c'.outputDir = c.outputDir) (hsize : c'.maxFileSizeBytes = c.maxFileSizeBytes)
    (hfiles : c'.maxNumberOfFiles = c.maxNumberOfFiles) (hlog : c'.rawLogEnabled = c.rawLogEnabled)
    (hjsonl : c'.rawJsonlEnabled = c.rawJsonlEnabled)
    (hconsole : c'.rawConsoleEnabled = c.rawConsoleEnabled) :
    (validateConfig env c').status = (validateConfig env c).status := by
  have hvalues (stdout : Bytes) :
      (validateValues c' stdout).status = (validateValues c stdout).status := by
    simp only [validateValues, hsize, hfiles, hlog, hjsonl, hconsole]
    split
    · rfl
    · split
      · rfl
      · split <;> rfl
  unfold validateConfig
  rw [hdir]
  rcases ensureOutputDir env c.outputDir with ⟨dummy | dummy, stdout, stderr⟩
  · rfl
  · exact hvalues stdout

/-- The file that `ensure_output_dir` creates and removes. -/
theorem eq_dummyPath_of_ensureOutputDir {env : ConfigEnv} {dir dummy : Bytes}
    (h : (ensureOutputDir env dir).1 = some dummy) : dummy = dummyPath dir := by
  have haccess (dummy : Bytes) (h : checkFileAccess env dir = some dummy) :
      dummy = dummyPath dir := by
    unfold checkFileAccess at h
    split at h
    · cases h
    · split at h
      · exact (Option.some.inj h).symm
      · cases h
  cases hcheck : checkFileAccess env dir with
  | none =>
      simp only [ensureOutputDir, hcheck] at h
      split at h
      · cases h
      · cases h
      · split at h <;> cases h
  | some path =>
      have hpath : dummy = path := by
        simp only [ensureOutputDir, hcheck] at h
        split at h
        · exact (Option.some.inj h).symm
        · cases h
        · split at h
          · exact (Option.some.inj h).symm
          · cases h
      exact hpath.trans (haccess path hcheck)

/-- Reading the configuration file creates no file. -/
theorem dummyFile_parseConfigFile (env : ConfigEnv) (path : Bytes) (c : Config) :
    (parseConfigFile env path c).dummyFile = none := by
  have hlines (lineno : ℕ) (lines : List Bytes) (c : Config) :
      (parseConfigLines lineno lines c).dummyFile = none := by
    induction lines generalizing lineno c with
    | nil => rfl
    | cons line lines ih =>
        unfold parseConfigLines
        split
        · exact ih _ _
        · rfl
        · split
          · exact ih _ _
          · rfl
  unfold parseConfigFile
  split
  · rfl
  · rfl
  · rfl
  · exact hlines 0 _ c

/-- The file that `config_init` creates and removes is in the output directory. -/
theorem dummyFile_configInit {env : ConfigEnv} {dummy : Bytes}
    (h : (configInit env).dummyFile = some dummy) :
    dummy = dummyPath (configInit env).config.outputDir := by
  have hvalidate (c : Config) (h : (validateConfig env c).dummyFile = some dummy) :
      dummy = dummyPath (validateConfig env c).config.outputDir := by
    rw [config_validateConfig]
    rcases validateConfig_cases env c with ⟨-, -, -, hnone⟩ | ⟨dummy', stdout, hdir, heq⟩
    · rw [hnone] at h
      cases h
    · rw [heq] at h
      rw [← Option.some.inj h]
      exact eq_dummyPath_of_ensureOutputDir hdir
  unfold configInit at h ⊢
  split at h
  · dsimp only at h ⊢
    split at h
    · rename_i hstatus
      rw [if_pos hstatus]
      rw [dummyFile_parseConfigFile] at h
      cases h
    · rename_i hstatus
      rw [if_neg hstatus]
      exact hvalidate _ h
  · exact hvalidate _ h

/-- The run of `config_init` on a file. -/
theorem loaded_iff (env : ConfigEnv) (text : Bytes) (c : Config) :
    Loaded env text c ↔
      env.configFilePath.isSome = true ∧ env.configFile = .content text ∧
      ConfigLine.missing ∉ configLines (fgetsAll configLineSize text) ∧
      applyOptions (readOptions text) configurationZero = some c ∧
      (validateConfig env c).status = .success := by
  have hparse := parseConfigLines_success_iff 0 (fgetsAll configLineSize text) configurationZero
  have hrun : env.configFilePath.isSome = true → env.configFile = .content text →
      (((configInit env).status = .success ∧ (configInit env).config = c) ↔
        ((parseConfigLines 0 (fgetsAll configLineSize text) configurationZero).status = .success ∧
          (parseConfigLines 0 (fgetsAll configLineSize text) configurationZero).config = c) ∧
        (validateConfig env c).status = .success) := by
    intro hpath hfile
    obtain ⟨path, hpath⟩ := Option.isSome_iff_exists.mp hpath
    simp only [configInit, hpath, parseConfigFile, hfile]
    generalize parseConfigLines 0 (fgetsAll configLineSize text) configurationZero = r
    by_cases hr : r.status = .success
    · simp only [hr, ne_eq, not_true_eq_false, if_false, config_validateConfig, true_and]
      constructor
      · rintro ⟨hstatus, rfl⟩
        exact ⟨rfl, hstatus⟩
      · rintro ⟨rfl, hstatus⟩
        exact ⟨hstatus, rfl⟩
    · simp [hr]
  constructor
  · rintro ⟨hpath, hfile, hstatus, hconfig⟩
    obtain ⟨hlines, hvalid⟩ := (hrun hpath hfile).mp ⟨hstatus, hconfig⟩
    obtain ⟨hmissing, happly⟩ := (hparse c).mp hlines
    exact ⟨hpath, hfile, hmissing, happly, hvalid⟩
  · rintro ⟨hpath, hfile, hmissing, happly, hvalid⟩
    obtain ⟨hstatus, hconfig⟩ := (hrun hpath hfile).mpr ⟨(hparse c).mpr ⟨hmissing, happly⟩, hvalid⟩
    exact ⟨hpath, hfile, hstatus, hconfig⟩

/-! ### Keys and getters -/

/-- The options in the lines of a text. -/
def fileOptions (text : Bytes) : Options := optionsOf (text.splitOn 10)

/-- With short lines these are the options that are read. -/
theorem readOptions_eq {text : Bytes} (h : ShortLines text) :
    readOptions text = fileOptions text := by
  simp only [readOptions, fileOptions, optionsOf, configLines_fgetsAll h]

/-- The option drives its getter: the getter returns the value of its last occurrence in the
file, and the same for every file that is accepted and gives this option the same texts. -/
def DrivesGetter (k : ConfigKey) (text : Bytes) (c : Config) : Prop :=
  lastValue k (fileOptions text) = some (k.getter c) ∧
  ∀ (env' : ConfigEnv) (text' : Bytes) (c' : Config), ShortLines text' → Loaded env' text' c' →
    valuesOf k (fileOptions text') = valuesOf k (fileOptions text) → k.getter c' = k.getter c

/-- The field of an option that the file sets. -/
theorem lastValue_of_loaded {env : ConfigEnv} {text : Bytes} {c : Config} (hshort : ShortLines text)
    (h : Loaded env text c) {k : ConfigKey} (hk : valuesOf k (fileOptions text) ≠ []) :
    lastValue k (fileOptions text) = some (k.field c) := by
  obtain ⟨-, -, -, happly, -⟩ := (loaded_iff env text c).mp h
  rw [readOptions_eq hshort] at happly
  exact ((applyOptions_spec _ _).2 c happly k).2 hk

/-- Every option but `metrics_on_json` drives its getter. -/
theorem drivesGetter_of_ne {env : ConfigEnv} {text : Bytes} {c : Config} (hshort : ShortLines text)
    (h : Loaded env text c) {k : ConfigKey} (hjson : k ≠ .metricsOnJson)
    (hk : valuesOf k (fileOptions text) ≠ []) : DrivesGetter k text c := by
  have hlast := lastValue_of_loaded hshort h hk
  constructor
  · rw [ConfigKey.getter_eq_field c hjson]
    exact hlast
  · intro env' text' c' hshort' h' hvalues
    have hlast' := lastValue_of_loaded hshort' h' (k := k) (by rwa [hvalues])
    unfold lastValue at hlast hlast'
    rw [hvalues, hlast] at hlast'
    rw [ConfigKey.getter_eq_field c hjson, ConfigKey.getter_eq_field c' hjson]
    exact (Option.some.inj hlast').symm

/-- The text of an option line for `metrics_on_console`. -/
def consoleLine (b : Bool) : Bytes :=
  ascii "metrics_on_console=" ++ if b then ascii "1" else ascii "0"

/-- The file with one more line for `metrics_on_console`. -/
theorem loaded_append_consoleLine {env : ConfigEnv} {text : Bytes} {c : Config}
    (hshort : ShortLines text) (h : Loaded env text c) (b : Bool) :
    let text' := text ++ 10 :: consoleLine b
    ShortLines text' ∧
    Loaded { env with configFile := .content text' } text' { c with metricsConsoleEnabled := b } ∧
    fileOptions text' = fileOptions text
      ++ [(ConfigKey.metricsOnConsole.name, if b then ascii "1" else ascii "0")] := by
  intro text'
  have hsplit : text'.splitOn 10 = text.splitOn 10 ++ [consoleLine b] := by
    have hsingle : (consoleLine b).splitOn 10 = [consoleLine b] := by
      cases b <;> decide
    rw [List.splitOn_append_cons_self, hsingle]
  have hline : configLine (consoleLine b)
      = .option ConfigKey.metricsOnConsole.name (if b then ascii "1" else ascii "0") := by
    cases b <;> decide
  have hlines : configLines (text'.splitOn 10)
      = configLines (text.splitOn 10)
        ++ [.option ConfigKey.metricsOnConsole.name (if b then ascii "1" else ascii "0")] := by
    rw [hsplit]
    simp [configLines, hline]
  have hshort' : ShortLines text' := by
    intro line hmem
    rw [hsplit, List.mem_append, List.mem_singleton] at hmem
    rcases hmem with hmem | rfl
    · exact hshort line hmem
    · cases b <;> decide
  have hoptions : fileOptions text' = fileOptions text
      ++ [(ConfigKey.metricsOnConsole.name, if b then ascii "1" else ascii "0")] := by
    simp only [fileOptions, optionsOf, hlines, List.filterMap_append]
    rfl
  refine ⟨hshort', ?_, hoptions⟩
  obtain ⟨hpath, -, hmissing, happly, hvalid⟩ := (loaded_iff env text c).mp h
  rw [loaded_iff]
  refine ⟨hpath, rfl, ?_, ?_, ?_⟩
  · rw [configLines_fgetsAll hshort] at hmissing
    rw [configLines_fgetsAll hshort', hlines, List.mem_append, List.mem_singleton]
    exact not_or.mpr ⟨hmissing, by simp⟩
  · rw [readOptions_eq hshort] at happly
    rw [readOptions_eq hshort', hoptions, applyOptions, List.foldlM_append]
    have hset : configSetOption ConfigKey.metricsOnConsole.name
        (if b then ascii "1" else ascii "0") c = some { c with metricsConsoleEnabled := b } := by
      cases b <;> rfl
    show (applyOptions (fileOptions text) configurationZero).bind _ = _
    rw [happly]
    show (configSetOption _ _ c).bind some = _
    rw [hset]
    rfl
  · rw [← hvalid]
    exact status_validateConfig_congr _ rfl rfl rfl rfl rfl rfl

/-- The option `metrics_on_json` does not drive its getter: a line for `metrics_on_console`
changes what it returns. -/
theorem not_drivesGetter_metricsOnJson {env : ConfigEnv} {text : Bytes} {c : Config}
    (hshort : ShortLines text) (h : Loaded env text c) : ¬ DrivesGetter .metricsOnJson text c := by
  rintro ⟨-, hsame⟩
  obtain ⟨hshort', hload', hoptions⟩ :=
    loaded_append_consoleLine hshort h (!c.metricsConsoleEnabled)
  have hget := hsame _ _ _ hshort' hload' (by
    rw [hoptions]
    simp +decide [valuesOf])
  have hflag : (!c.metricsConsoleEnabled) = c.metricsConsoleEnabled := OptionValue.flag.inj hget
  cases hc : c.metricsConsoleEnabled <;> simp [hc] at hflag

/-- On a file with short lines that `config_init` accepts, every option that the file sets
drives its own getter, exactly when the file does not set `metrics_on_json`. -/
theorem getters_driven_iff (env : ConfigEnv) (text : Bytes) (c : Config) (hshort : ShortLines text)
    (h : Loaded env text c) :
    (∀ k, valuesOf k (fileOptions text) ≠ [] → DrivesGetter k text c) ↔
      valuesOf .metricsOnJson (fileOptions text) = [] := by
  constructor
  · intro hall
    by_contra hset
    exact not_drivesGetter_metricsOnJson hshort h (hall .metricsOnJson hset)
  · intro hunset k hk
    apply drivesGetter_of_ne hshort h _ hk
    rintro rfl
    exact hk hunset

/-- The outside of `config_init` with a file and a writable output directory. -/
def fileEnv (text : Bytes) : ConfigEnv where
  configFilePath := some (ascii "/etc/process_analyzer.conf")
  configFile := .content text
  stat _ := some true
  mkdir _ := .alreadyExists
  openOk _ := true
  strerror := []

/-- On a file with short lines that are all options, only these options count. -/
theorem loaded_of_options {text : Bytes} {opts : Options} {c : Config} (hshort : ShortLines text)
    (hlines : configLines (text.splitOn 10) = opts.map fun opt => .option opt.1 opt.2)
    (happly : applyOptions opts configurationZero = some c)
    (hvalid : (validateConfig (fileEnv text) c).status = .success) :
    fileOptions text = opts ∧ Loaded (fileEnv text) text c := by
  have hoptions : fileOptions text = opts := by
    simp only [fileOptions, optionsOf, hlines, List.filterMap_map]
    exact List.filterMap_some
  refine ⟨hoptions, (loaded_iff _ _ _).mpr ⟨rfl, rfl, ?_, ?_, hvalid⟩⟩
  · rw [configLines_fgetsAll hshort, hlines]
    simp
  · rw [readOptions_eq hshort, hoptions]
    exact happly

/-- A file that sets four options, one of them twice. -/
def fourOptions : Bytes :=
  ascii "output_dir = /tmp/p\nraw_log_enabled=no\nraw_log_enabled=1\nmax_file_size=4k\nmax_number_of_files=3\n"

/-- The configuration that this file leaves. -/
def fourOptionsConfig : Config :=
  { configurationZero with
    outputDir := ascii "/tmp/p", rawLogEnabled := true, maxFileSizeBytes := 4096,
    maxNumberOfFiles := 3 }

theorem shortLines_fourOptions : ShortLines fourOptions := by
  unfold ShortLines fourOptions
  rw [ascii_ofList]
  decide

theorem loaded_fourOptions :
    fileOptions fourOptions
      = [(ConfigKey.outputDir.name, ascii "/tmp/p"), (ConfigKey.rawLogEnabled.name, ascii "no"),
        (ConfigKey.rawLogEnabled.name, ascii "1"), (ConfigKey.maxFileSize.name, ascii "4k"),
        (ConfigKey.maxNumberOfFiles.name, ascii "3")] ∧
    Loaded (fileEnv fourOptions) fourOptions fourOptionsConfig := by
  apply loaded_of_options shortLines_fourOptions
  · unfold fourOptions
    simp only [List.map_cons, List.map_nil, ConfigKey.name]
    repeat rw [ascii_ofList]
    decide
  · simp only [applyOptions_cons]
    rfl
  · decide

theorem getters_driven_fourOptions :
    ShortLines fourOptions ∧ Loaded (fileEnv fourOptions) fourOptions fourOptionsConfig ∧
      ∀ k, valuesOf k (fileOptions fourOptions) ≠ [] →
        DrivesGetter k fourOptions fourOptionsConfig := by
  have hunset : valuesOf .metricsOnJson (fileOptions fourOptions) = [] := by
    rw [loaded_fourOptions.1]
    simp [valuesOf, ConfigKey.name_injective.eq_iff]
  have hdriven := getters_driven_iff (fileEnv fourOptions) fourOptions fourOptionsConfig
    shortLines_fourOptions loaded_fourOptions.2
  exact ⟨shortLines_fourOptions, loaded_fourOptions.2, hdriven.mpr hunset⟩

/-- A file that asks for `metrics.json` and no console report. -/
def jsonOnly : Bytes :=
  ascii "output_dir=/tmp/p\nraw_log_enabled=1\nmax_file_size=4k\nmax_number_of_files=3\nmetrics_on_console=no\nmetrics_on_json=yes\n"

/-- The getter of `metrics_on_json` returns the value of `metrics_on_console`. -/
theorem not_drivesGetter_jsonOnly :
    ∃ c, ShortLines jsonOnly ∧ Loaded (fileEnv jsonOnly) jsonOnly c ∧
      lastValue .metricsOnJson (fileOptions jsonOnly) = some (.flag true) ∧
      ConfigKey.metricsOnJson.getter c = .flag false ∧ ¬ DrivesGetter .metricsOnJson jsonOnly c := by
  have hshort : ShortLines jsonOnly := by
    unfold ShortLines jsonOnly
    rw [ascii_ofList]
    decide
  obtain ⟨hoptions, hload⟩ : fileOptions jsonOnly
      = [(ConfigKey.outputDir.name, ascii "/tmp/p"), (ConfigKey.rawLogEnabled.name, ascii "1"),
        (ConfigKey.maxFileSize.name, ascii "4k"), (ConfigKey.maxNumberOfFiles.name, ascii "3"),
        (ConfigKey.metricsOnConsole.name, ascii "no"), (ConfigKey.metricsOnJson.name, ascii "yes")] ∧
      Loaded (fileEnv jsonOnly) jsonOnly { fourOptionsConfig with metricsJsonEnabled := true } := by
    apply loaded_of_options hshort
    · unfold jsonOnly
      simp only [List.map_cons, List.map_nil, ConfigKey.name]
      repeat rw [ascii_ofList]
      decide
    · simp only [applyOptions_cons]
      rfl
    · decide
  refine ⟨_, hshort, hload, ?_, rfl, not_drivesGetter_metricsOnJson hshort hload⟩
  rw [hoptions]
  simp only [lastValue, valuesOf, ConfigKey.name_injective.eq_iff, List.filter_cons]
  rfl

/-! ### Defaults -/

/-- The options whose default is not what `configuration_t` starts with. -/
def nonzeroDefaults : List ConfigKey :=
  [.outputDir, .rawLogEnabled, .rawJsonlEnabled, .metricsOnConsole, .metricsOnJson, .maxFileSize,
    .maxNumberOfFiles]

theorem mem_nonzeroDefaults_iff (k : ConfigKey) :
    k ∈ nonzeroDefaults ↔ k.field configDefault ≠ k.field configurationZero := by
  cases k <;> decide

/-- Setting the options on the default configuration gives the same as setting them on the
zero configuration, exactly when they cover the options with another default. -/
theorem applyOptions_default_iff {opts : Options} {expected : Config}
    (h : applyOptions opts configDefault = some expected) :
    applyOptions opts configurationZero = some expected ↔
      ∀ k ∈ nonzeroDefaults, valuesOf k opts ≠ [] := by
  obtain ⟨haccepted, hfields⟩ := applyOptions_spec opts configDefault
  obtain ⟨haccepted', hfields'⟩ := applyOptions_spec opts configurationZero
  constructor
  · intro hzero k hk hnil
    rw [mem_nonzeroDefaults_iff] at hk
    exact hk (((hfields expected h k).1 hnil).symm.trans ((hfields' expected hzero k).1 hnil))
  · intro hcover
    have hsome := haccepted'.mpr (haccepted.mp (by rw [h]; rfl))
    obtain ⟨c, hc⟩ := Option.isSome_iff_exists.mp hsome
    rw [hc]
    refine congrArg some (ConfigKey.config_ext fun k => ?_)
    by_cases hnil : valuesOf k opts = []
    · -- An option that is not set has the same default and zero value.
      have hdefault : k.field configDefault = k.field configurationZero := by
        by_contra hne
        exact hcover k ((mem_nonzeroDefaults_iff k).mpr hne) hnil
      rw [(hfields' c hc k).1 hnil, (hfields expected h k).1 hnil, hdefault]
    · have hlast := (hfields expected h k).2 hnil
      have hlast' := (hfields' c hc k).2 hnil
      exact Option.some.inj (hlast'.symm.trans hlast)

/-- For a file whose options are valid on top of the default configuration, `config_init`
succeeds with exactly that configuration if and only if the file sets every option whose
default is not zero. -/
theorem loaded_defaults_iff (env : ConfigEnv) (text : Bytes) (expected : Config)
    (hpath : env.configFilePath.isSome = true) (hfile : env.configFile = .content text)
    (hmissing : ConfigLine.missing ∉ configLines (fgetsAll configLineSize text))
    (happly : applyOptions (readOptions text) configDefault = some expected)
    (hvalid : (validateConfig env expected).status = .success) :
    Loaded env text expected ↔ ∀ k ∈ nonzeroDefaults, valuesOf k (readOptions text) ≠ [] := by
  rw [← applyOptions_default_iff happly, loaded_iff]
  constructor
  · rintro ⟨-, -, -, hzero, -⟩
    exact hzero
  · intro hzero
    exact ⟨hpath, hfile, hmissing, hzero, hvalid⟩

/-- A file that sets the seven options. -/
def sevenOptions : Bytes :=
  ascii "output_dir=/tmp/p\nraw_log_enabled=0\nraw_jsonl_enabled=1\nmetrics_on_console=no\nmetrics_on_json=1\nmax_file_size=4k\nmax_number_of_files=9\n"

theorem readOptions_sevenOptions :
    ConfigLine.missing ∉ configLines (fgetsAll configLineSize sevenOptions) ∧
    readOptions sevenOptions
      = [(ConfigKey.outputDir.name, ascii "/tmp/p"), (ConfigKey.rawLogEnabled.name, ascii "0"),
        (ConfigKey.rawJsonlEnabled.name, ascii "1"), (ConfigKey.metricsOnConsole.name, ascii "no"),
        (ConfigKey.metricsOnJson.name, ascii "1"), (ConfigKey.maxFileSize.name, ascii "4k"),
        (ConfigKey.maxNumberOfFiles.name, ascii "9")] := by
  simp only [readOptions, optionsOf, ConfigKey.name]
  unfold sevenOptions
  repeat rw [ascii_ofList]
  decide +kernel

theorem loaded_defaults_sevenOptions :
    Loaded (fileEnv sevenOptions) sevenOptions
      { configDefault with
        outputDir := ascii "/tmp/p", rawLogEnabled := false, metricsConsoleEnabled := false,
        maxFileSizeBytes := 4096, maxNumberOfFiles := 9 } := by
  obtain ⟨hmissing, hoptions⟩ := readOptions_sevenOptions
  refine (loaded_defaults_iff (fileEnv sevenOptions) sevenOptions _ rfl rfl hmissing ?_
    (by decide)).mpr ?_
  · rw [hoptions]
    simp only [applyOptions_cons]
    rfl
  · rw [hoptions]
    simp [nonzeroDefaults, valuesOf, ConfigKey.name_injective.eq_iff]

/-- A file without an option for the JSONL output and the metrics. These have the default
`true`, and `config_init` succeeds with all of them off. -/
theorem not_loaded_defaults_fourOptions :
    Loaded (fileEnv fourOptions) fourOptions fourOptionsConfig ∧
    fourOptionsConfig.rawJsonlEnabled = false ∧ fourOptionsConfig.metricsConsoleEnabled = false ∧
    ∃ expected, applyOptions (readOptions fourOptions) configDefault = some expected ∧
      (validateConfig (fileEnv fourOptions) expected).status = .success ∧
      expected.rawJsonlEnabled = true ∧ expected.metricsConsoleEnabled = true ∧
      ¬ Loaded (fileEnv fourOptions) fourOptions expected := by
  obtain ⟨hoptions, hload⟩ := loaded_fourOptions
  refine ⟨hload, rfl, rfl, { configDefault with
    outputDir := ascii "/tmp/p", rawLogEnabled := true, maxFileSizeBytes := 4096,
    maxNumberOfFiles := 3 }, ?_, by decide, rfl, rfl, ?_⟩
  · rw [readOptions_eq shortLines_fourOptions, hoptions]
    simp only [applyOptions_cons]
    rfl
  · intro hload'
    have hsame := congrArg Config.rawJsonlEnabled (hload'.config.symm.trans hload.config)
    cases hsame

end ProcessAnalyzer
