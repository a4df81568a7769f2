import ProcessAnalyzer.Lib.JsonText
import ProcessAnalyzer.Lib.Utf8Decoder
import ProcessAnalyzer.Model.Metrics
import ProcessAnalyzer.Model.Timeline

/-!
# `ProcessAnalyzer.Model.MetricsPage`: `metrics.json` on the page that shows it

The way of the report from `process_stats_print_metrics` to the eyes of the user: the bytes of the
file, the text that the browser makes of them, and what `dashboard/index.html` does with that
text. `JSON.parse` is `ProcessAnalyzer.Lib.JsonText.parse`.

A function of the page can throw a `TypeError` in the middle. What it has done before stays done,
so a call returns the page and whether it has thrown (`Ran`). None of the names that the page reads
is inherited by an object, a number or an array, except for `length`.

A fraction of the report is a double in the program. Here it is the exact quotient of what the
module holds, and `%.2f` prints the binary64 number nearest to it. `JSON.parse` reads the binary64
number nearest to the numeral. The quotient in `p.rss_avg_kb / 1024` is left to the browser. Colours,
toasts and the options of the chart library are not part of the model.
-/

set_option autoImplicit false

namespace ProcessAnalyzer

open ProcessAnalyzer.Lib ProcessAnalyzer.Lib.JsonText

namespace Stats

/-! ### The bytes of the file -/

/-- The digits of `%.<decimals>f` without the point: the integer nearest to `10 ^ decimals` times
the binary64 number, ties to even. -/
def fixedDigits (decimals : ℕ) (q : ℚ) : ℕ := (nearestInt (|roundRat q| * 10 ^ decimals)).toNat

/-- The text that `%.<decimals>f` writes. -/
def decFixed (decimals : ℕ) (q : ℚ) : Bytes :=
  let n := fixedDigits decimals q
  (if q < 0 then [45] else []) ++ decNat (n / 10 ^ decimals)
    ++ if decimals = 0 then [] else 46 :: decIntPad decimals ((n % 10 ^ decimals : ℕ) : Int)

/-- The tie is broken before the digits are cut: the double next to 0.005 is larger, and the one
next to 1.005 is smaller. -/
example : decFixed 2 (1 / 200) = ascii "0.01" ∧ decFixed 2 (201 / 200) = ascii "1.00" := by
  decide +kernel

/-- What `fprintf` writes for a part of its format. -/
def JsonPiece.print : JsonPiece → Bytes
  | .text s => utf8 s.toList
  | .str s => s
  | .chr c => [c]
  | .int z => decInt z
  | .real q decimals => decFixed decimals q

/-- The bytes of the file. -/
def fileBytes (pieces : List JsonPiece) : Bytes := pieces.flatMap JsonPiece.print

end Stats

namespace Dashboard

open ProcessAnalyzer.Stats

/-- `reader.readAsText`: UTF-8, without a byte order mark. -/
def readAsText (bs : Bytes) : List Char :=
  match decode bs with
  | [] => []
  | c :: cs => if c = Char.ofNat 0xFEFF then cs else c :: cs

/-! ### JavaScript -/

/-- `v.key`. `none` is `undefined`. Of two members with one key the last one counts. -/
def property (key : String) : Value → Option Value
  | .obj items => (items.reverse.find? fun m => m.1 = utf16 key.toList).map Prod.snd
  | _ => none

/-- The value counts as `true` in a condition. -/
def truthy : Value → Bool
  | .null => false
  | .bool b => b
  | .num q => q ≠ 0
  | .str units => units ≠ []
  | .arr _ => true
  | .obj _ => true

/-- `v || otherwise`. -/
def orElse (v : Option Value) (otherwise : Value) : Value :=
  match v with
  | some v => if truthy v then v else otherwise
  | none => otherwise

/-- `!list.length` is the negation of this. -/
def hasLength : Value → Bool
  | .arr items => items ≠ []
  | .str units => units ≠ []
  | .obj items => match property "length" (.obj items) with
      | some v => truthy v
      | none => false
  | _ => false

/-- An access to a property of the value throws a `TypeError`. -/
def isNull : Value → Bool
  | .null => true
  | _ => false

/-! ### The page -/

/-- The height of a bar: a property of a process, or a property of it divided by 1024. -/
inductive Height where
  | value (v : Option Value)
  | quotient (v : Option Value)

/-- A chart, with the list that its handlers have captured. -/
structure BarChart where
  label : String
  labels : List (Option Value)
  heights : List Height
  list : List Value
  metric : String

/-- What `renderMeta` puts into its six elements, without the texts around it. -/
structure MetaTexts where
  mHost : Option Value
  mDur : Option Value
  mInterval : Option Value
  mSnap : Option Value
  mStart : Option Value
  mEnd : Option Value

/-- The page. Its eleven cards and charts go by the names of the metrics. `rows` has, for each
`.chart-row`, whether it is shown and whether it is a `single-card`. -/
structure MetricsPage where
  texts : Option MetaTexts := none
  display : Metric → Bool := fun _ => true
  rows : List (Bool × Bool) := []
  chart : Metric → Option BarChart := fun _ => none

/-- What a call has left behind. -/
structure Ran where
  page : MetricsPage
  threw : Bool := false

/-- The next call, unless this one has thrown. -/
def Ran.andThen (r : Ran) (f : MetricsPage → Ran) : Ran := if r.threw then r else f r.page

/-- `data-metric` of a card. -/
def dataMetric : Metric → String
  | .avgCpu => "cpu_average"
  | .avgRss => "rss_average"
  | .rssIncr => "rss_increase"
  | .rssDelta => "rss_delta"
  | .bytesRead => "kbytes_read"
  | .writtenBytes => "written_kbytes"
  | .readRate => "read_rate"
  | .writeRate => "write_rate"
  | .fdsIncrease => "fds_increase"
  | .fdsDelta => "fds_delta"
  | .noOfFds => "opened_fds"

/-- The cards of each `.chart-row`. -/
def chartRows : List (List Metric) :=
  [[.avgCpu, .avgRss], [.rssIncr, .rssDelta], [.bytesRead, .writtenBytes], [.readRate, .writeRate],
    [.fdsIncrease, .fdsDelta], [.noOfFds]]

/-- `hasMetricData`. -/
def hasMetricData (metrics : Value) (key : String) : Bool :=
  match property key metrics with
  | some (.arr items) => items ≠ []
  | _ => false

/-- `updateChartVisibility`. -/
def updateChartVisibility (metrics : Value) (p : MetricsPage) : MetricsPage :=
  let display := fun m => hasMetricData metrics (dataMetric m)
  { p with
    display := display
    rows := chartRows.map fun row =>
      let visibleCards := (row.filter display).length
      (visibleCards ≠ 0, visibleCards = 1) }

/-- `renderMeta`. -/
def renderMeta (info : Option Value) (p : MetricsPage) : Ran :=
  match info with
  | none => ⟨p, true⟩
  | some info =>
      if isNull info then ⟨p, true⟩
      else
        ⟨{ p with
            texts := some
              { mHost := property "hostname" info
                mDur := property "duration_sec" info
                mInterval := property "interval_ms" info
                mSnap := property "snapshots" info
                mStart := property "start_time" info
                mEnd := property "end_time" info } }, false⟩

/-- `makeChart`. A `list` that is no array has no `map`, and a process that is `null` has no
properties. -/
def makeChart (list : Value) (label : String) (height : Value → Height) (metric : String) :
    Option BarChart :=
  match list with
  | .arr items =>
      if items.any isNull then none
      else
        some
          { label := label
            labels := items.map (property "comm")
            heights := items.map height
            list := items
            metric := metric }
  | _ => none

/-- The common body of the functions that render one chart. -/
def renderChart (m : Metric) (label : String) (height : Value → Height) (metric : String)
    (list : Value) (p : MetricsPage) : Ran :=
  let p := { p with chart := Function.update p.chart m none }
  if hasLength list = false then ⟨p, false⟩
  else
    match makeChart list label height metric with
    | some c => ⟨{ p with chart := Function.update p.chart m (some c) }, false⟩
    | none => ⟨p, true⟩

/-- `renderCPU`. -/
def renderCPU : Value → MetricsPage → Ran :=
  renderChart .avgCpu "CPU %" (fun p => .value (property "cpu_avg_pct" p)) "cpu"

/-- `renderRSS`. -/
def renderRSS : Value → MetricsPage → Ran :=
  renderChart .avgRss "RSS (MB)" (fun p => .quotient (property "rss_avg_kb" p)) "rss"

/-- `renderReadRate`. -/
def renderReadRate : Value → MetricsPage → Ran :=
  renderChart .readRate "Read KB/s" (fun p => .value (property "read_rate_kbps" p)) "read"

/-- `renderWriteRate`. -/
def renderWriteRate : Value → MetricsPage → Ran :=
  renderChart .writeRate "Write KB/s" (fun p => .value (property "write_rate_kbps" p)) "write"

/-- `renderRSSIncrease`. -/
def renderRSSIncrease : Value → MetricsPage → Ran :=
  renderChart .rssIncr "RSS Increase (MB)" (fun p => .quotient (property "rss_incr_kb" p)) "rss"

/-- `renderRSSDelta`. -/
def renderRSSDelta : Value → MetricsPage → Ran :=
  renderChart .rssDelta "RSS Delta (MB)" (fun p => .quotient (property "rss_delta_kb" p)) "rss"

/-- `renderKbytesRead`. -/
def renderKbytesRead : Value → MetricsPage → Ran :=
  renderChart .bytesRead "Disk Read (KB)" (fun p => .value (property "bytes_read_kb" p)) "read"

/-- `renderKbytesWritten`. -/
def renderKbytesWritten : Value → MetricsPage → Ran :=
  renderChart .writtenBytes "Disk Write (KB)" (fun p => .value (property "written_bytes_kb" p))
    "write"

/-- `fdsIncrease`. -/
def fdsIncrease : Value → MetricsPage → Ran :=
  renderChart .fdsIncrease "FD Increase" (fun p => .value (property "no_of_fds_increase" p)) "fds"

/-- `fdsOpened`. -/
def fdsOpened : Value → MetricsPage → Ran :=
  renderChart .noOfFds "FD Open" (fun p => .value (property "no_of_opened_fds" p)) "fds"

/-- `fdsDelta`. -/
def fdsDelta : Value → MetricsPage → Ran :=
  renderChart .fdsDelta "FD Delta" (fun p => .value (property "fds_delta" p)) "fds"

/-- `renderDashboard`. -/
def renderDashboard (data : Value) (p : MetricsPage) : Ran :=
  if isNull data then ⟨p, true⟩
  else
    let metrics := orElse (property "metrics" data) (.obj [])
    let list := fun key => orElse (property key metrics) (.arr [])
    (renderMeta (property "meta" data) p).andThen fun p =>
    (renderCPU (list "cpu_average") (updateChartVisibility metrics p)).andThen fun p =>
    (renderRSS (list "rss_average") p).andThen fun p =>
    (renderReadRate (list "read_rate") p).andThen fun p =>
    (renderWriteRate (list "write_rate") p).andThen fun p =>
    (renderRSSIncrease (list "rss_increase") p).andThen fun p =>
    (renderRSSDelta (list "rss_delta") p).andThen fun p =>
    (renderKbytesRead (list "kbytes_read") p).andThen fun p =>
    (renderKbytesWritten (list "written_kbytes") p).andThen fun p =>
    (fdsIncrease (list "fds_increase") p).andThen fun p =>
    (fdsOpened (list "opened_fds") p).andThen fun p =>
    fdsDelta (list "fds_delta") p

/-- The `onload` of the reader in `loadFile`, as far as the page is concerned. Whatever is thrown
is caught, and the toast says so. -/
def loadText (text : List Char) (p : MetricsPage) : Ran :=
  match parse text with
  | some json => renderDashboard json p
  | none => ⟨p, true⟩

/-- The key of an option of `metricLabels` in `records.html`. -/
def metricOption : TimelineMetric → String
  | .rss => "rss"
  | .cpu => "cpu"
  | .read => "read"
  | .write => "write"
  | .threads => "threads"
  | .fds => "fds"

/-- The URL that a click opens: `records.html` with the PID and the metric in its query. -/
structure TimelineLink where
  pid : Option Value
  metric : String

/-- `chartClickHandler`, on the bar with an index. -/
def chartClick (p : MetricsPage) (m : Metric) (index : ℕ) : Option TimelineLink :=
  (p.chart m).bind fun c =>
    (c.list[index]?).map fun process => ⟨property "pid" process, c.metric⟩

end Dashboard

end ProcessAnalyzer
