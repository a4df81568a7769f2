import ProcessAnalyzer.Lib.CText

/-!
# `ProcessAnalyzer.Model.Config`: the configuration in force

`config_t` of `code/config/config.c`, its default value, the getters through which the
other modules read it, and the file names of `config.h`.

The getters are written out one by one, because one of them does not read the field its
name says: `config_get_metrics_json_enabled` returns `metrics_console_enabled`.
-/

set_option autoImplicit false

namespace ProcessAnalyzer

open ProcessAnalyzer.Lib

/-- `config_t`. `off_t` is 64 bits wide. -/
structure Config where
  outputDir : Bytes
  rawLogEnabled : Bool
  rawJsonlEnabled : Bool
  rawConsoleEnabled : Bool
  compressionEnabled : Bool
  metricsConsoleEnabled : Bool
  metricsJsonEnabled : Bool
  maxFileSizeBytes : Int64
  maxNumberOfFiles : Int32
  includeSelf : Bool
  deriving DecidableEq

/-- `PATH_MAX`. -/
def pathMax : ℕ := 4096

/-- `config_default`. -/
def configDefault : Config where
  outputDir := ascii "/tmp/ptime"
  rawLogEnabled := true
  rawJsonlEnabled := true
  rawConsoleEnabled := false
  compressionEnabled := false
  metricsConsoleEnabled := true
  metricsJsonEnabled := true
  maxFileSizeBytes := 5 * 1024 * 1024
  maxNumberOfFiles := 3
  includeSelf := false

namespace Config

def configGetOutputDir (c : Config) : Bytes := c.outputDir

def configGetMaxFileSizeBytes (c : Config) : Int64 := c.maxFileSizeBytes

def configGetMaxNumberOfFiles (c : Config) : Int32 := c.maxNumberOfFiles

def configGetRawConsoleEnabled (c : Config) : Bool := c.rawConsoleEnabled

def configGetRawLogEnabled (c : Config) : Bool := c.rawLogEnabled

def configGetRawJsonlEnabled (c : Config) : Bool := c.rawJsonlEnabled

def configGetMetricsConsoleEnabled (c : Config) : Bool := c.metricsConsoleEnabled

/-- The source returns the console flag here, not the JSON flag. -/
def configGetMetricsJsonEnabled (c : Config) : Bool := c.metricsConsoleEnabled

def configGetIncludeSelf (c : Config) : Bool := c.includeSelf

def configGetCompressionEnabled (c : Config) : Bool := c.compressionEnabled

end Config

/-- `CONFIG_LOG_FILE`. -/
def configLogFile : Bytes := ascii "ptime.log"

/-- `CONFIG_JSON_FILE`. -/
def configJsonFile : Bytes := ascii "ptime.jsonl"

/-- `CONFIG_METRICS_JSON`. -/
def configMetricsJson : Bytes := ascii "metrics.json"

/-- `CONFIG_LOCK_FILE`. -/
def configLockFile : Bytes := ascii "ptime.lock"

end ProcessAnalyzer
