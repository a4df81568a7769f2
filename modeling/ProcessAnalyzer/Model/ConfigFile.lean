import ProcessAnalyzer.Lib.CScan
import ProcessAnalyzer.Model.Config

/-!
# `ProcessAnalyzer.Model.ConfigFile`: reading the configuration

`config_init` of `code/config/config.c` with everything it calls: the parser of the
configuration file and the validation. The outcomes of the system calls are parameters
(`ConfigEnv`). All functions work on the `static` variable `configuration_t`, which is
passed along here. Before the first assignment it is zero (`configurationZero`).

The line buffer of `parse_config_file` has 512 bytes, so `fgets` cuts a longer line into
pieces (`fgetsAll`). `trim` works in place on the C string in that buffer.
-/

set_option autoImplicit false

namespace ProcessAnalyzer

open ProcessAnalyzer.Lib

/-- `config_status`. -/
inductive ConfigStatus where
  | success
  | errorIo
  | errorParse
  | errorValidation
  deriving DecidableEq

/-- `configuration_t` before the first assignment. -/
def configurationZero : Config where
  outputDir := []
  rawLogEnabled := false
  rawJsonlEnabled := false
  rawConsoleEnabled := false
  compressionEnabled := false
  metricsConsoleEnabled := false
  metricsJsonEnabled := false
  maxFileSizeBytes := 0
  maxNumberOfFiles := 0
  includeSelf := false

/-! ### Values -/

/-- `parse_bool`. -/
def parseBool (v : Bytes) : Option Bool :=
  if strcasecmpEq v (ascii "true") || strcasecmpEq v (ascii "yes") || v = ascii "1" then some true
  else if strcasecmpEq v (ascii "false") || strcasecmpEq v (ascii "no") || v = ascii "0" then
    some false
  else none

/-- `parse_size`. Of the text behind the number only the first byte is tested. The product
is taken modulo `2 ^ 64` and converted to `off_t`. -/
def parseSize (v : Bytes) : Option Int64 :=
  match scanInt v with
  | none => none
  | some (z, rest) =>
      let n := clampULong z
      match rest with
      | [] => some n.toInt64
      | c :: _ =>
          if c = 107 ∨ c = 75 then some (n * 1024).toInt64
          else if c = 109 ∨ c = 77 then some (n * (1024 * 1024)).toInt64
          else if c = 103 ∨ c = 71 then some (n * (1024 * 1024 * 1024)).toInt64
          else none

/-! ### `config_set_option` -/

/-- `config_set_option`: the configuration afterwards, or `none` for the result -1, which
leaves it unchanged. -/
def configSetOption (key value : Bytes) (c : Config) : Option Config :=
  if key = ascii "output_dir" then
    if value.length ≥ pathMax then none else some { c with outputDir := value }
  else if key = ascii "raw_log_enabled" then
    (parseBool value).map fun b => { c with rawLogEnabled := b }
  else if key = ascii "raw_jsonl_enabled" then
    (parseBool value).map fun b => { c with rawJsonlEnabled := b }
  else if key = ascii "raw_console_enabled" then
    (parseBool value).map fun b => { c with rawConsoleEnabled := b }
  else if key = ascii "compression_enabled" then
    (parseBool value).map fun b => { c with compressionEnabled := b }
  else if key = ascii "metrics_on_console" then
    (parseBool value).map fun b => { c with metricsConsoleEnabled := b }
  else if key = ascii "metrics_on_json" then
    (parseBool value).map fun b => { c with metricsJsonEnabled := b }
  else if key = ascii "max_file_size" then
    (parseSize value).map fun n => { c with maxFileSizeBytes := n }
  else if key = ascii "max_number_of_files" then
    -- whatever the text is, `atoi` gives a number
    some { c with maxNumberOfFiles := atoi value }
  else if key = ascii "include_self" then
    (parseBool value).map fun b => { c with includeSelf := b }
  else none

/-! ### `parse_config_file` -/

/-- What a line of the file is to the parser. -/
inductive ConfigLine where
  /-- an empty line or a comment -/
  | skip
  /-- a line without `=` -/
  | missing
  | option (key value : Bytes)
  deriving DecidableEq

/-- The part of the loop of `parse_config_file` that looks at the line. -/
def configLine (line : Bytes) : ConfigLine :=
  let s := trim (cString line)
  if s = [] ∨ s.head? = some 35 then .skip
  else
    match strchr s 61 with
    | none => .missing
    | some eq => .option (trim (s.take eq)) (trim (s.drop (eq + 1)))

/-- A status with the configuration so far and what was printed. -/
structure ConfigResult where
  status : ConfigStatus
  config : Config
  stdout : Bytes := []
  stderr : Bytes := []
  /-- the file that `check_file_access` has created and removed -/
  dummyFile : Option Bytes := none
  deriving DecidableEq

/-- The loop of `parse_config_file`. `lineno` counts the lines before. An error keeps the
options that are already set. -/
def parseConfigLines (lineno : ℕ) : List Bytes → Config → ConfigResult
  | [], c => { status := .success, config := c }
  | line :: rest, c =>
      match configLine line with
      | .skip => parseConfigLines (lineno + 1) rest c
      | .missing =>
          { status := .errorParse
            config := c
            stderr := ascii "parse_config_file: Config error line " ++ decNat (lineno + 1)
              ++ ascii ": missing '='\n" }
      | .option key value =>
          match configSetOption key value c with
          | some c => parseConfigLines (lineno + 1) rest c
          | none =>
              { status := .errorParse
                config := c
                stderr := ascii "parse_config_file: Config error line " ++ decNat (lineno + 1)
                  ++ ascii ": invalid option '" ++ key ++ ascii "'\n" }

/-- The configuration file. -/
inductive ConfigFile where
  /-- `stat` fails -/
  | inaccessible
  | notRegular
  /-- `fopen` fails -/
  | unreadable
  | content (text : Bytes)
  deriving DecidableEq

/-- The result of `mkdir`. -/
inductive MkdirResult where
  | created
  /-- `errno == EEXIST` -/
  | alreadyExists
  | failed
  deriving DecidableEq

/-- What `config_init` reads from the outside. -/
structure ConfigEnv where
  /-- `getenv("PROCESS_ANALYZER_CONFIG")` -/
  configFilePath : Option Bytes
  configFile : ConfigFile
  /-- `stat` of the output directory: whether it is a directory, or `none` when it fails -/
  stat : Bytes → Option Bool
  mkdir : Bytes → MkdirResult
  /-- `open` of the dummy file succeeds -/
  openOk : Bytes → Bool
  /-- `strerror(errno)` -/
  strerror : Bytes

/-- `sizeof(line)` in `parse_config_file`. -/
def configLineSize : ℕ := 512

/-- `parse_config_file`. -/
def parseConfigFile (env : ConfigEnv) (path : Bytes) (c : Config) : ConfigResult :=
  match env.configFile with
  | .inaccessible =>
      { status := .errorIo
        config := c
        stderr := ascii "Config error: cannot access config file " ++ path ++ ascii ": "
          ++ env.strerror ++ ascii "\n" }
  | .notRegular =>
      { status := .errorIo
        config := c
        stderr := ascii "Config error: " ++ path ++ ascii " is not a regular file\n" }
  | .unreadable =>
      { status := .errorIo
        config := c
        stderr := ascii "parse_config_file: failed to open " ++ path ++ ascii "\n" }
  | .content text => parseConfigLines 0 (fgetsAll configLineSize text) c

/-! ### The output directory -/

/-- `mkdir` of a path. An empty path is never accepted. -/
def mkdirAccepts (env : ConfigEnv) (path : Bytes) : Bool :=
  path ≠ [] && env.mkdir path ≠ .failed

/-- `mkdir_p`: one trailing slash is removed, then `mkdir` is called for the part in front
of every later slash and for the whole path, up to the first failure. For an empty path
there is no last byte, and the calls are for the empty path. -/
def mkdirP (env : ConfigEnv) (path : Bytes) : Bool :=
  if path.length ≥ pathMax then false
  else
    let tmp := if path.getLast? = some 47 then path.dropLast else path
    let parents := ((List.range tmp.length).filter fun i => 1 ≤ i ∧ tmp[i]? = some 47).map tmp.take
    (parents ++ [tmp]).all (mkdirAccepts env)

/-- The path of `check_file_access`. -/
def dummyPath (dir : Bytes) : Bytes := dir ++ ascii "/" ++ ascii "dummyfile"

/-- `check_file_access`: the file that is created and removed, or `none` when the result is
`-1`. A file of this name that was there before is gone as well. -/
def checkFileAccess (env : ConfigEnv) (dir : Bytes) : Option Bytes :=
  if (dummyPath dir).length ≥ pathMax then none
  else if env.openOk (dummyPath dir) then some (dummyPath dir)
  else none

/-- `ensure_output_dir`: the file of `check_file_access`, or `none` when the result is not 0,
and what is printed to `stdout` and `stderr`. -/
def ensureOutputDir (env : ConfigEnv) (path : Bytes) : Option Bytes × Bytes × Bytes :=
  let access (stdout : Bytes) : Option Bytes × Bytes × Bytes :=
    match checkFileAccess env path with
    | some dummy => (some dummy, stdout, [])
    | none => (none, stdout, ascii "Config error: no write permission for " ++ path ++ ascii "\n")
  -- `stat("")` fails
  match if path = [] then none else env.stat path with
  | some true => access []
  | some false =>
      (none, [], ascii "Config error: " ++ path ++ ascii " exists but is not a directory\n")
  | none =>
      if mkdirP env path then
        access (ascii "config: created output directory " ++ path ++ ascii "\n")
      else
        (none, [], ascii "Config error: cannot create directory " ++ path ++ ascii ": "
          ++ env.strerror ++ ascii "\n")

/-! ### `validate_config` -/

/-- `CONFIG_MIN_FILE_SIZE_BYTES`. -/
def configMinFileSizeBytes : Int64 := 1024

/-- `CONFIG_MIN_NO_OF_FILES`. -/
def configMinNoOfFiles : Int32 := 1

/-- `CONFIG_MAX_NO_OF_FILES`. -/
def configMaxNoOfFiles : Int32 := 1000

/-- `validate_config` behind the check of the output directory. -/
def validateValues (c : Config) (stdout : Bytes) : ConfigResult :=
  if c.maxFileSizeBytes < configMinFileSizeBytes then
    { status := .errorValidation
      config := c
      stdout := stdout
      stderr := ascii "Config error: max_file_size too small,minimum size: "
        ++ decInt configMinFileSizeBytes.toInt ++ ascii ", config value "
        ++ decInt c.maxFileSizeBytes.toInt ++ ascii "\n" }
  else if c.maxNumberOfFiles < configMinNoOfFiles ∨ c.maxNumberOfFiles ≥ configMaxNoOfFiles then
    { status := .errorValidation
      config := c
      stdout := stdout
      stderr := ascii "Config error: invalid max_number_of_files expected a value between "
        ++ decInt configMinNoOfFiles.toInt ++ ascii " and " ++ decInt configMaxNoOfFiles.toInt
        ++ ascii ", config value: " ++ decInt c.maxNumberOfFiles.toInt ++ ascii "\n" }
  else if c.rawLogEnabled = false ∧ c.rawJsonlEnabled = false ∧ c.rawConsoleEnabled = false then
    { status := .errorValidation
      config := c
      stdout := stdout
      stderr := ascii "Config error: all raw outputs disabled\n" }
  else { status := .success, config := c, stdout := stdout }

/-- `validate_config`. -/
def validateConfig (env : ConfigEnv) (c : Config) : ConfigResult :=
  match ensureOutputDir env c.outputDir with
  | (none, stdout, stderr) =>
      { status := .errorValidation, config := c, stdout := stdout, stderr := stderr }
  | (some dummy, stdout, _) => { validateValues c stdout with dummyFile := some dummy }

/-! ### `config_init` -/

/-- `config_init`. With a configuration file the default values are not used. -/
def configInit (env : ConfigEnv) : ConfigResult :=
  match env.configFilePath with
  | some path =>
      let banner := ascii "config_init: parsing configuration from " ++ path ++ ascii "\n"
      let r := parseConfigFile env path configurationZero
      if r.status ≠ .success then { r with stdout := banner ++ r.stdout }
      else
        let v := validateConfig env r.config
        { v with stdout := banner ++ v.stdout }
  | none =>
      let v := validateConfig env configDefault
      { v with stdout := ascii "config_init: using default configuration\n" ++ v.stdout }

end ProcessAnalyzer
