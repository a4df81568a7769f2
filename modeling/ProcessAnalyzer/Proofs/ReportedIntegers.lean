import ProcessAnalyzer.Proofs.Averages
import ProcessAnalyzer.Proofs.MetricsJson
import ProcessAnalyzer.Proofs.PidReuse
import ProcessAnalyzer.Proofs.Rankings

/-!
# `ProcessAnalyzer.Proofs.ReportedIntegers`: one integer, two outputs

A report prints the value of a metric twice. The console row takes it straight from the
entry, with the format of the field. `metrics.json` takes it from a getter of `g_metrics`
that returns `int64_t` or `int32_t`, whatever the type of the field is.

`printedIntegers` and `writtenIntegers` read the integers of a metric back from the console
blocks and from the pieces of the file, each with the process of its row.
`printed_eq_written_iff` compares the two for every process with a row. They are the same
integer exactly when the field is in the range of the getter (`InGetterRange`): below
`2 ^ 63` for the three unsigned fields, and 32 bits wide for the descriptor delta.
-/

set_option autoImplicit false

namespace ProcessAnalyzer.Stats

open ProcessAnalyzer.Lib

/-! ### Reading the two outputs -/

/-- The integer of a printed value. A `%.2f` has none. -/
def MetricValue.integer : MetricValue → Option Int
  | .real _ => none
  | .signed v => some v.toInt
  | .unsigned v => some v.toNat

/-- The integers in the rows of the console block of a metric, each with its process. -/
def printedIntegers (m : Metric) (console : List ConsoleBlock) : List (Int × Int) :=
  (console.filter fun block => block.title = m.title).flatMap fun block =>
    block.rows.filterMap fun row => row.value.integer.map fun z => (row.pid.toInt, z)

/-- The text in front of the PID in an object of `metrics.json`. -/
def pidLabel : String := "\t\t\t\x7b\n\t\t\t\"pid\": "

/-- The PID of the object that begins here. -/
def pidAt : List JsonPiece → Option Int
  | .text label :: .int z :: _ => if label = pidLabel then some z else none
  | _ => none

/-- The integer that stands here as the member `key`. -/
def integerAt (key : String) : List JsonPiece → Option Int
  | .text k :: .text colon :: .int z :: _ => if k = key ∧ colon = "\": " then some z else none
  | _ => none

/-- The integer members `key` of the objects in a text, each with the PID of its object.
`pid` is the PID of the object that the text is in. -/
def integersFrom (key : String) (pid : Int) : List JsonPiece → List (Int × Int)
  | [] => []
  | p :: rest =>
      let pid := (pidAt (p :: rest)).getD pid
      ((integerAt key (p :: rest)).map fun z => (pid, z)).toList ++ integersFrom key pid rest

/-- The integers that a file gives for a metric, each with its process. -/
def writtenIntegers (m : Metric) (file : List JsonPiece) : List (Int × Int) :=
  integersFrom (gMetrics m).valueKey 0 file

/-- The integer that the getter of a metric returns. -/
def Metric.writtenInteger (m : Metric) (ps : ProcessState) : Option Int :=
  match (gMetrics m).getter with
  | .double _ => none
  | .int64 get => some (get ps).toInt
  | .int32 get => some (get ps).toInt

/-- The integers of a metric in a sequence of blocks, with `value` the integer of an entry. -/
def blockIntegers (m : Metric) (value : ProcessState → Option Int) (blocks : List Block) :
    List (Int × Int) :=
  blocks.flatMap fun b =>
    if b.1 = m then b.2.filterMap fun ps => (value ps).map fun z => (ps.pid.toInt, z) else []

/-- The integers of a sequence of blocks are those of the entries that it lists. -/
theorem mem_blockIntegers {m : Metric} {value : ProcessState → Option Int} {blocks : List Block}
    {p : Int32} {z : Int} :
    (p.toInt, z) ∈ blockIntegers m value blocks
      ↔ ∃ b ∈ blocks, b.1 = m ∧ ∃ ps ∈ b.2, ps.pid = p ∧ value ps = some z := by
  simp only [blockIntegers, List.mem_flatMap]
  apply exists_congr
  intro b
  apply and_congr_right
  intro _
  by_cases hm : b.1 = m
  · simp only [hm, if_true, true_and, List.mem_filterMap, Option.map_eq_some_iff, Prod.mk.injEq,
      Int32.toInt_inj]
    apply exists_congr
    intro ps
    constructor
    · rintro ⟨hps, w, hw, hpid, rfl⟩
      exact ⟨hps, hpid, hw⟩
    · rintro ⟨hps, hpid, hw⟩
      exact ⟨hps, z, hw, hpid, rfl⟩
  · simp only [hm, if_false, false_and, List.not_mem_nil]

/-! ### The console side -/

/-- Every metric has a title of its own. -/
theorem title_injective {m m' : Metric} (h : m.title = m'.title) : m = m' := by
  revert h
  cases m <;> cases m' <;> decide

/-- The integers that the console gives for a metric are those of its block. -/
theorem printedIntegers_map_console (m : Metric) (blocks : List Block) :
    printedIntegers m (blocks.map Block.console)
      = blockIntegers m (fun ps => (m.consoleValue ps).integer) blocks := by
  induction blocks with
  | nil => rfl
  | cons b bs ih =>
      simp only [printedIntegers, blockIntegers, List.map_cons, List.flatMap_cons] at ih ⊢
      by_cases hm : b.1 = m
      · have hrows : b.console.rows.filterMap (fun row => row.value.integer.map fun z =>
            (row.pid.toInt, z)) = b.2.filterMap fun ps => (m.consoleValue ps).integer.map fun z =>
              (ps.pid.toInt, z) := by
          rw [← hm]
          exact List.filterMap_map
        rw [List.filter_cons_of_pos (by simp [Block.console, hm]), List.flatMap_cons, ih, if_pos hm,
          hrows]
      · have htitle : b.1.title ≠ m.title := fun h => hm (title_injective h)
        rw [List.filter_cons_of_neg (by simp [Block.console, htitle]), ih, if_neg hm,
          List.nil_append]

/-! ### The JSON side -/

/-- Every metric has a value key of its own. -/
theorem valueKey_injective {m m' : Metric} (h : (gMetrics m).valueKey = (gMetrics m').valueKey) :
    m = m' := by
  revert h
  cases m <;> cases m' <;> decide

/-- A literal part of the file that is neither the label of a PID nor a value key. -/
def isOtherText (s : String) : Bool :=
  s ≠ pidLabel && printOrder.all fun m => (gMetrics m).valueKey ≠ s

/-- A piece at which the reader has nothing to do. -/
def isOtherPiece : JsonPiece → Bool
  | .text s => isOtherText s
  | _ => true

section Reader
variable (m : Metric) (pid : Int)

/-- The reader passes over a literal part. -/
theorem integersFrom_other {p : JsonPiece} (hp : isOtherPiece p = true) (rest : List JsonPiece) :
    integersFrom (gMetrics m).valueKey pid (p :: rest)
      = integersFrom (gMetrics m).valueKey pid rest := by
  have hnone : pidAt (p :: rest) = none ∧ integerAt (gMetrics m).valueKey (p :: rest) = none := by
    cases p with
    | text s =>
        simp only [isOtherPiece, isOtherText, Bool.and_eq_true, decide_eq_true_eq,
          List.all_eq_true] at hp
        have hkey : s ≠ (gMetrics m).valueKey := (hp.2 m (mem_printOrder m)).symm
        constructor
        · unfold pidAt
          split <;> simp_all
        · unfold integerAt
          split <;> simp_all
    | _ => exact ⟨rfl, rfl⟩
  simp only [integersFrom, hnone.1, hnone.2, Option.getD_none, Option.map_none, Option.toList_none,
    List.nil_append]

/-- The reader passes over a sequence of such parts. -/
theorem integersFrom_others {ps : List JsonPiece} (hps : ps.all isOtherPiece = true)
    (rest : List JsonPiece) :
    integersFrom (gMetrics m).valueKey pid (ps ++ rest)
      = integersFrom (gMetrics m).valueKey pid rest := by
  induction ps with
  | nil => rfl
  | cons p ps ih =>
      rw [List.all_cons, Bool.and_eq_true] at hps
      rw [List.cons_append, integersFrom_other m pid hps.1, ih hps.2]

/-- The reader takes the PID of an object. -/
theorem integersFrom_pid (z : Int) (rest : List JsonPiece) :
    integersFrom (gMetrics m).valueKey pid (.text pidLabel :: .int z :: rest)
      = integersFrom (gMetrics m).valueKey z rest := by
  have hkey : integerAt (gMetrics m).valueKey (.text pidLabel :: .int z :: rest) = none := rfl
  have hpid : pidAt (.text pidLabel :: .int z :: rest) = some z := by
    simp only [pidAt, if_true]
  rw [integersFrom, hkey, hpid]
  exact integersFrom_other m z rfl rest

/-- A key that is not followed by the colon of a member, or not the one asked for. -/
theorem integersFrom_otherKey {k colon : String}
    (h : k ≠ (gMetrics m).valueKey ∨ colon ≠ "\": ") (rest : List JsonPiece) :
    integersFrom (gMetrics m).valueKey pid (.text k :: .text colon :: rest)
      = integersFrom (gMetrics m).valueKey pid (.text colon :: rest) := by
  have hkey : integerAt (gMetrics m).valueKey (.text k :: .text colon :: rest) = none := by
    have hnot : ¬ (k = (gMetrics m).valueKey ∧ colon = "\": ") := by tauto
    cases rest with
    | nil => rfl
    | cons p rest =>
        cases p with
        | int z => exact if_neg hnot
        | _ => rfl
  have hpid : pidAt (.text k :: .text colon :: rest) = none := rfl
  rw [integersFrom, hkey, hpid]
  rfl

/-- The reader takes the value of an object: the integer that the getter returns. -/
theorem integersFrom_valuePieces (m' : Metric) (ps : ProcessState) (rest : List JsonPiece) :
    integersFrom (gMetrics m).valueKey pid (valuePieces (gMetrics m') ps ++ rest)
      = (if m' = m then ((m.writtenInteger ps).map fun z => (pid, z)).toList else [])
        ++ integersFrom (gMetrics m).valueKey pid rest := by
  have hpieces : valuePieces (gMetrics m') ps
      = [.text "\t\t\t\""] ++ .text (gMetrics m').valueKey :: .text "\": "
        :: valuePiece (gMetrics m') ps :: [.text ",\n"] := by
    unfold valuePieces valuePiece
    cases (gMetrics m').getter <;> rfl
  have hcolon : isOtherPiece (.text "\": ") = true := by decide
  have hend : isOtherPiece (.text ",\n") = true := by decide
  have hvalue : isOtherPiece (valuePiece (gMetrics m') ps) = true := by
    unfold valuePiece
    cases (gMetrics m').getter <;> rfl
  rw [hpieces, List.append_assoc, integersFrom_others m pid (by decide)]
  simp only [List.cons_append, List.nil_append]
  by_cases hm : m' = m
  · subst hm
    rw [if_pos rfl, integersFrom]
    have hpid : pidAt (.text (gMetrics m').valueKey :: .text "\": "
        :: valuePiece (gMetrics m') ps :: .text ",\n" :: rest) = none := rfl
    have hint : integerAt (gMetrics m').valueKey (.text (gMetrics m').valueKey :: .text "\": "
        :: valuePiece (gMetrics m') ps :: .text ",\n" :: rest) = m'.writtenInteger ps := by
      unfold valuePiece Metric.writtenInteger
      cases (gMetrics m').getter <;> simp [integerAt]
    rw [hpid, hint, integersFrom_other m' _ hcolon, integersFrom_other m' _ hvalue,
      integersFrom_other m' _ hend]
    rfl
  · have hkey : (gMetrics m').valueKey ≠ (gMetrics m).valueKey :=
      fun h => hm (valueKey_injective h)
    rw [if_neg hm, integersFrom_otherKey m pid (Or.inl hkey), integersFrom_other m pid hcolon,
      integersFrom_other m pid hvalue, integersFrom_other m pid hend]
    rfl

/-- The reader takes the PID and the value of an object. -/
theorem integersFrom_processPieces (m' : Metric) (last : Bool) (ps : ProcessState)
    (rest : List JsonPiece) :
    integersFrom (gMetrics m).valueKey pid (processPieces (gMetrics m') last ps ++ rest)
      = (if m' = m then ((m.writtenInteger ps).map fun z => (ps.pid.toInt, z)).toList else [])
        ++ integersFrom (gMetrics m).valueKey ps.pid.toInt rest := by
  have hhead : [JsonPiece.text ",\n\t\t\t\"comm\": \"", .str ps.comm,
      .text "\",\n\t\t\t\"state\": \"", .chr ps.state, .text "\",\n"].all isOtherPiece = true := by
    simp only [List.all_cons, List.all_nil, isOtherPiece]
    decide
  have hcomma : isOtherText (if last then "" else ",") = true := by
    cases last <;> decide
  have htail : [JsonPiece.text "\t\t\t\"threads\": ", .int ps.threads.toInt,
      .text ",\n\t\t\t\"records\": ", .int ps.numberOfRecords, .text "\n\t\t\t\x7d",
      .text (if last then "" else ","), .text "\n"].all isOtherPiece = true := by
    simp only [List.all_cons, List.all_nil, isOtherPiece, hcomma]
    decide
  have hpieces : processPieces (gMetrics m') last ps ++ rest
      = .text pidLabel :: .int ps.pid.toInt :: ([JsonPiece.text ",\n\t\t\t\"comm\": \"",
        .str ps.comm, .text "\",\n\t\t\t\"state\": \"", .chr ps.state, .text "\",\n"]
        ++ (valuePieces (gMetrics m') ps ++ ([JsonPiece.text "\t\t\t\"threads\": ",
          .int ps.threads.toInt, .text ",\n\t\t\t\"records\": ", .int ps.numberOfRecords,
          .text "\n\t\t\t\x7d", .text (if last then "" else ","), .text "\n"] ++ rest))) := by
    simp only [processPieces, pidLabel, List.cons_append, List.nil_append, List.append_assoc]
  rw [hpieces, integersFrom_pid, integersFrom_others m _ hhead, integersFrom_valuePieces,
    integersFrom_others m _ htail]

/-- The reader takes the values of an array. It leaves with the PID of the last object. -/
theorem integersFrom_processLoop (m' : Metric) (rows : List ProcessState) (rest : List JsonPiece) :
    ∃ pid' : Int, integersFrom (gMetrics m).valueKey pid (processLoop (gMetrics m') rows ++ rest)
      = (if m' = m then rows.filterMap fun ps => (m.writtenInteger ps).map fun z =>
          (ps.pid.toInt, z) else [])
        ++ integersFrom (gMetrics m).valueKey pid' rest := by
  induction rows generalizing pid with
  | nil => exact ⟨pid, by simp [processLoop]⟩
  | cons ps rows ih =>
      obtain ⟨pid', hrest⟩ := ih ps.pid.toInt
      refine ⟨pid', ?_⟩
      rw [processLoop, List.append_assoc, integersFrom_processPieces, hrest]
      by_cases hm : m' = m
      · simp only [hm, if_true, List.filterMap_cons]
        cases m.writtenInteger ps <;> simp
      · simp only [hm, if_false, List.nil_append]

/-- The reader takes the values of a sequence of blocks. -/
theorem integersFrom_blocksPieces (first : Bool) (blocks : List Block) (rest : List JsonPiece) :
    ∃ pid' : Int, integersFrom (gMetrics m).valueKey pid (blocksPieces first blocks ++ rest)
      = blockIntegers m m.writtenInteger blocks
        ++ integersFrom (gMetrics m).valueKey pid' rest := by
  induction blocks generalizing pid first with
  | nil => exact ⟨pid, rfl⟩
  | cons b bs ih =>
      have hsep : (if first then [] else [JsonPiece.text ",\n"]).all isOtherPiece = true := by
        cases first <;> decide
      have hopen : isOtherPiece (.text "\t\t\"") = true := by decide
      have hbracket : isOtherPiece (.text "\":[\n") = true := by decide
      have hclose : isOtherPiece (.text "\t\t]") = true := by decide
      -- The key of the block is not followed by the colon of a member.
      have hcolon : "\":[\n" ≠ "\": " := by decide
      obtain ⟨pid₁, hloop⟩ := integersFrom_processLoop m pid b.1 b.2
        (.text "\t\t]" :: (blocksPieces false bs ++ rest))
      obtain ⟨pid₂, hrest⟩ := ih pid₁ false
      refine ⟨pid₂, ?_⟩
      simp only [blocksPieces, metricBlockPieces, List.append_assoc, List.cons_append,
        List.nil_append]
      rw [integersFrom_others m pid hsep, integersFrom_other m pid hopen,
        integersFrom_otherKey m pid (Or.inr hcolon), integersFrom_other m pid hbracket, hloop,
        integersFrom_other m pid₁ hclose, hrest]
      simp only [blockIntegers, List.flatMap_cons, List.append_assoc]

end Reader

/-- The integers that a file gives for a metric are those of its block. -/
theorem writtenIntegers_file (m : Metric) (env : MetricsEnv) (f : MetaFields)
    (blocks : List Block) :
    writtenIntegers m (headerPieces env f ++ blocksPieces true blocks ++ footerPieces)
      = blockIntegers m m.writtenInteger blocks := by
  have hheader : (headerPieces env f).all isOtherPiece = true := by
    simp only [headerPieces, List.all_cons, List.all_nil, isOtherPiece]
    decide
  obtain ⟨pid', hblocks⟩ := integersFrom_blocksPieces m 0 true blocks footerPieces
  have hfooter : integersFrom (gMetrics m).valueKey pid' footerPieces = [] := by
    rw [← List.append_nil footerPieces, integersFrom_others m pid' (by decide)]
    rfl
  unfold writtenIntegers
  rw [List.append_assoc, integersFrom_others m 0 hheader, hblocks, hfooter, List.append_nil]

/-! ### The range of the getters -/

/-- The field of a metric is in the range of the type that its getter returns. -/
def InGetterRange (ps : ProcessState) : Metric → Prop
  | .bytesRead => ps.totalReadKbytes.toNat < 2 ^ 63
  | .writtenBytes => ps.totalWriteKbytes.toNat < 2 ^ 63
  | .noOfFds => ps.currentNumOfFds.toNat < 2 ^ 63
  | .fdsIncrease => -2 ^ 31 ≤ ps.fdDelta.toInt ∧ ps.fdDelta.toInt < 2 ^ 31
  | .fdsDelta => -2 ^ 31 ≤ ps.fdDelta.toInt ∧ ps.fdDelta.toInt < 2 ^ 31
  | _ => True

/-- An unsigned field keeps its value as an `int64_t` when it is below `2 ^ 63`. -/
theorem toInt_toInt64_eq_iff {w : UInt64} {z : Int} (hz : some (w.toNat : Int) = some z) :
    some w.toInt64.toInt = some z ↔ w.toNat < 2 ^ 63 := by
  rw [← hz, Option.some.injEq]
  constructor
  · intro h
    have hlt := (toInt_mem w.toInt64).2
    omega
  · intro h
    exact toInt_toInt64_of_lt h

/-- A `long` keeps its value as an `int32_t` when it has 32 bits. -/
theorem toInt_toInt32_eq_iff {v : Int64} {z : Int} (hz : some v.toInt = some z) :
    some v.toInt32.toInt = some z ↔ -2 ^ 31 ≤ v.toInt ∧ v.toInt < 2 ^ 31 := by
  rw [← hz, Option.some.injEq]
  constructor
  · intro h
    have hle := v.toInt32.le_toInt
    have hlt := v.toInt32.toInt_lt
    omega
  · rintro ⟨hlo, hhi⟩
    rw [Int64.toInt_toInt32, Int.bmod_eq_of_le] <;> omega

/-- The getter returns the integer of the console row exactly when the field is in its
range. -/
theorem writtenInteger_eq_iff {m : Metric} {ps : ProcessState} {z : Int}
    (hz : (m.consoleValue ps).integer = some z) :
    m.writtenInteger ps = some z ↔ InGetterRange ps m := by
  cases m with
  | avgCpu => cases hz
  | readRate => cases hz
  | writeRate => cases hz
  | avgRss => exact iff_of_true hz trivial
  | rssIncr => exact iff_of_true hz trivial
  | rssDelta => exact iff_of_true hz trivial
  | bytesRead => exact toInt_toInt64_eq_iff hz
  | writtenBytes => exact toInt_toInt64_eq_iff hz
  | noOfFds => exact toInt_toInt64_eq_iff hz
  | fdsIncrease => exact toInt_toInt32_eq_iff hz
  | fdsDelta => exact toInt_toInt32_eq_iff hz

/-- Every integer in a console row has one in the file. -/
theorem exists_writtenInteger {m : Metric} {ps : ProcessState} {z : Int}
    (hz : (m.consoleValue ps).integer = some z) : ∃ w, m.writtenInteger ps = some w := by
  cases m with
  | avgCpu => cases hz
  | readRate => cases hz
  | writeRate => cases hz
  | _ => exact ⟨_, rfl⟩

/-- The averaging loop leaves the fields alone whose range matters. -/
theorem inGetterRange_computeAverages (args : MetricsArguments) (ps : ProcessState) (m : Metric) :
    InGetterRange (computeAverages args ps) m ↔ InGetterRange ps m := by
  have hframe : (computeAverages args ps).totalReadKbytes = ps.totalReadKbytes ∧
      (computeAverages args ps).totalWriteKbytes = ps.totalWriteKbytes ∧
      (computeAverages args ps).currentNumOfFds = ps.currentNumOfFds := by
    simp only [computeAverages]
    split_ifs <;> exact ⟨rfl, rfl, rfl⟩
  obtain ⟨hread, hwrite, hfds⟩ := hframe
  obtain ⟨-, -, -, hdelta⟩ := computeAverages_frame args ps
  cases m <;> simp only [InGetterRange, hread, hwrite, hfds, hdelta]

/-! ### Reachable tables -/

/-- A sequence of `process_stats_update` calls, each with the outcome of its `calloc`. -/
def updateCalls (m : StatsModule) (calls : List (Bool × ProcessStateInput)) : StatsModule :=
  calls.foldl (fun m call => processStatsUpdate call.1 m call.2) m

/-- The entries of a reachable table have distinct PIDs. -/
theorem nodupKeys_updateCalls (calls : List (Bool × ProcessStateInput)) (m : StatsModule)
    (hm : m.isModuleInitialized = true) (hn : Table.NodupKeys ProcessState.pid m.gProcessTable) :
    Table.NodupKeys ProcessState.pid (updateCalls m calls).gProcessTable := by
  induction calls generalizing m with
  | nil => exact hn
  | cons call calls ih =>
      apply ih (processStatsUpdate call.1 m call.2)
      · rw [isModuleInitialized_processStatsUpdate, hm]
      · rw [processStatsUpdate_tableStep m ⟨none, call.1, call.2⟩ hm]
        unfold tableStep
        split
        · exact Table.nodup_upsert _ (pid_newProcess call.2) (fun e he => by simpa using he) hn
        · exact hn

/-- The rows of a process in the blocks of a report are its averaged entry. -/
theorem row_of_fromSort {qsort : Qsort} {args : MetricsArguments} {m : StatsModule}
    (hn : Table.NodupKeys ProcessState.pid m.gProcessTable) {b : Block}
    (hb : b.FromSort qsort args (averagedTable args m)) {row : ProcessState} (hrow : row ∈ b.2) :
    ∃ ps, Table.find? ProcessState.pid m.gProcessTable row.pid = some ps ∧
      row = computeAverages args ps := by
  obtain ⟨arr, hperm, hrows⟩ := hb
  have hmem : row ∈ averagedTable args m := by
    rw [hrows] at hrow
    have hsorted := (qsort.perm_sort (totalPreorderCmp_comparator b.1) arr).trans hperm
    exact hsorted.mem_iff.mp (List.mem_of_mem_take hrow)
  obtain ⟨ps, hps, rfl⟩ := List.mem_map.mp hmem
  refine ⟨ps, ?_, rfl⟩
  rw [(computeAverages_frame args ps).1]
  exact Table.find?_of_mem _ hn hps

/-- The two outputs of a report. For every table that `process_stats_update` calls reach and
every integer that a report prints on the console for a process, `metrics.json` gives one
integer for that process in the block of the metric. It is the printed one exactly when the
field of the table is in the range of the getter. -/
theorem printed_eq_written_iff (qsort : Qsort) (config : Config) (env : MetricsEnv)
    (args : MetricsArguments) (intervalMs : UInt64) (hz cpus : Int64) (prog : Bytes)
    (calls : List (Bool × ProcessStateInput)) {out : MetricsResult}
    (hout : processStatsPrintMetrics qsort config env args intervalMs
      (updateCalls (initializedModule hz cpus prog) calls) = .ok out)
    {m : Metric} {p : Int32} {z : Int} (hprinted : (p.toInt, z) ∈ printedIntegers m out.console) :
    ∃ (file : List JsonPiece) (ps : ProcessState) (w : Int),
      out.metricsFile = some file ∧
      Table.find? ProcessState.pid
        (updateCalls (initializedModule hz cpus prog) calls).gProcessTable p = some ps ∧
      (∀ w', (p.toInt, w') ∈ writtenIntegers m file ↔ w' = w) ∧
      (z = w ↔ InGetterRange ps m) := by
  have hn := nodupKeys_updateCalls calls (initializedModule hz cpus prog) rfl
    (Table.nodupKeys_nil _)
  generalize updateCalls (initializedModule hz cpus prog) calls = module at hout hn ⊢
  rcases processStatsPrintMetrics_cases qsort config env args intervalMs module hout with
    ⟨-, rfl⟩ | ⟨-, blocks, -, hsort, rfl⟩
  -- an early return prints nothing
  · cases hprinted
  · have hconsole : (p.toInt, z) ∈ printedIntegers m (blocks.map Block.console) := by
      cases hc : config.configGetMetricsConsoleEnabled with
      | true => simpa only [hc, if_true] using hprinted
      | false =>
          simp only [hc] at hprinted
          cases hprinted
    rw [printedIntegers_map_console, mem_blockIntegers] at hconsole
    obtain ⟨b, hb, hbm, row, hrow, rfl, hvalue⟩ := hconsole
    obtain ⟨ps, hps, rfl⟩ := row_of_fromSort hn (hsort b hb) hrow
    obtain ⟨w, hw⟩ := exists_writtenInteger hvalue
    refine ⟨_, ps, w, rfl, hps, ?_, ?_⟩
    · intro w'
      rw [writtenIntegers_file, mem_blockIntegers]
      constructor
      · -- Another row of the process would be the same entry.
        rintro ⟨b', hb', -, row', hrow', hpid, hw'⟩
        obtain ⟨ps', hps', rfl⟩ := row_of_fromSort hn (hsort b' hb') hrow'
        rw [hpid, hps, Option.some.injEq] at hps'
        subst hps'
        exact Option.some.inj (hw'.symm.trans hw)
      · rintro rfl
        exact ⟨b, hb, hbm, _, hrow, rfl, hw⟩
    · rw [← inGetterRange_computeAverages args, ← writtenInteger_eq_iff hvalue, hw,
        Option.some.injEq, eq_comm]

/-! ### Two reports -/

/-- A report on one process with one metric has one block with one row. -/
theorem report_of_single (qsort : Qsort) (config : Config) (env : MetricsEnv)
    (args : MetricsArguments) (intervalMs : UInt64) {module : StatsModule} {e : ProcessState}
    {m : Metric} (hm : module.isModuleInitialized = true) (htable : module.gProcessTable = [e])
    (ha : env.arrMallocOk = true) (ho : MetricsFileOpens config env)
    (hconsole : config.configGetMetricsConsoleEnabled = true)
    (hreq : printOrder.filter args.requested = [m]) (hlimit : 1 ≤ (args.pidsToDisplay m).toInt) :
    ∃ out file,
      processStatsPrintMetrics qsort config env args intervalMs module = .ok out ∧
      out.metricsFile = some file ∧
      printedIntegers m out.console = blockIntegers m (fun ps => (m.consoleValue ps).integer)
        [(m, [computeAverages args e])] ∧
      writtenIntegers m file
        = blockIntegers m m.writtenInteger [(m, [computeAverages args e])] := by
  have hne : module.gProcessTable ≠ [] := by simp [htable]
  have hok := processStatsPrintMetrics_eq qsort config env args intervalMs module hm hne ha
  rw [if_pos ho] at hok
  rcases processStatsPrintMetrics_cases qsort config env args intervalMs module hok with
    ⟨hearly, -⟩ | ⟨-, blocks, hfst, hsort, hout⟩
  · simp [hm, htable, ha] at hearly
  · rw [hreq, List.map_eq_singleton_iff] at hfst
    obtain ⟨b, rfl, rfl⟩ := hfst
    have hb := hsort b List.mem_cons_self
    -- The one row can only be the one entry.
    have hrows : b.2 = [computeAverages args e] := by
      have hlen : b.2.length = 1 := by
        rw [length_of_fromSort hb]
        simp only [averagedTable, htable, List.map_cons, List.map_nil, List.length_singleton]
        omega
      obtain ⟨row, hrow⟩ := List.length_eq_one_iff.mp hlen
      obtain ⟨ps, hps, hrowps⟩ := row_of_fromSort (by simp [Table.NodupKeys, htable]) hb
        (hrow ▸ List.mem_singleton_self row)
      have hpse : ps = e := by
        have hmem := (Table.find?_some _ hps).1
        rw [htable] at hmem
        exact List.mem_singleton.mp hmem
      rw [hrow, hrowps, hpse]
    have hpair : b = (b.1, [computeAverages args e]) := Prod.ext rfl hrows
    refine ⟨_, _, hok, ?_, ?_, writtenIntegers_file b.1 env (metaFields module intervalMs) _⟩
    · rw [hout, hpair]
    · rw [hout]
      simp only [hconsole, if_true]
      rw [printedIntegers_map_console, hpair]

/-- The ranking by descriptor delta with one row. -/
def fdsDeltaOnly : MetricsArguments where
  fdsDeltaRequested := true
  fdsDeltaPidsToDisplay := 1

/-- A sample of process 1 at the given time with the given number of descriptors. -/
def fdSampleAt (t : ℚ) (fds : UInt64) : ProcessStateInput :=
  { sampleOfInit with timestamp := t, numberOfFds := fds }

/-- The calls for two samples of process 1. -/
def fdCalls (first second : UInt64) : List (Bool × ProcessStateInput) :=
  [(true, fdSampleAt 10 first), (true, fdSampleAt 11 second)]

/-- The table after two samples of process 1. -/
theorem table_fdCalls (first second : UInt64) :
    ∃ e, (updateCalls (initializedModule 100 1 []) (fdCalls first second)).gProcessTable = [e] ∧
      e.pid = 1 ∧ e.fdDelta = (second - first).toInt64 := by
  have hgroup : (updateEntry 100 1 (fdSampleAt 11 second) (updateEntry 100 1 (fdSampleAt 10 first)
      (newProcess (fdSampleAt 10 first)))).fdGroup
        = ⟨first, second, (second - first).toInt64, true⟩ := by
    rw [(groups_updateEntry _ _ _ _).2.1, (groups_updateEntry _ _ _ _).2.1]
    rfl
  refine ⟨updateEntry 100 1 (fdSampleAt 11 second) (updateEntry 100 1 (fdSampleAt 10 first)
    (newProcess (fdSampleAt 10 first))), rfl, ?_, congrArg FdGroup.delta hgroup⟩
  rw [pid_updateEntry, pid_updateEntry]
  rfl

/-- The report on two samples of process 1. -/
theorem report_fdCalls (first second : UInt64) :
    ∃ out file,
      processStatsPrintMetrics Qsort.mergeSort configDefault ⟨true, true, true, none⟩ fdsDeltaOnly
        100 (updateCalls (initializedModule 100 1 []) (fdCalls first second)) = .ok out ∧
      out.metricsFile = some file ∧
      printedIntegers .fdsDelta out.console = [(1, (second - first).toInt64.toInt)] ∧
      writtenIntegers .fdsDelta file = [(1, (second - first).toInt64.toInt32.toInt)] := by
  obtain ⟨e, htable, hpid, hdelta⟩ := table_fdCalls first second
  obtain ⟨hpid', -, -, hdelta'⟩ := computeAverages_frame fdsDeltaOnly e
  rw [hpid] at hpid'
  rw [hdelta] at hdelta'
  have hreq : printOrder.filter fdsDeltaOnly.requested = [.fdsDelta] := by decide
  obtain ⟨out, file, hout, hfile, hprinted, hwritten⟩ := report_of_single Qsort.mergeSort
    configDefault ⟨true, true, true, none⟩ fdsDeltaOnly 100 rfl htable rfl ⟨rfl, rfl, rfl⟩ rfl hreq
    (by decide)
  generalize (second - first).toInt64 = delta at hdelta' ⊢
  refine ⟨out, file, hout, hfile, ?_, ?_⟩
  · rw [hprinted]
    simp [blockIntegers, Metric.consoleValue, MetricValue.integer, hdelta', hpid']
  · rw [hwritten]
    simp [blockIntegers, Metric.writtenInteger, gMetrics, getFdsDelta, hdelta', hpid']

/-- Five more descriptors are five more in both outputs. -/
theorem printed_eq_written_five :
    ∃ out file,
      processStatsPrintMetrics Qsort.mergeSort configDefault ⟨true, true, true, none⟩ fdsDeltaOnly
        100 (updateCalls (initializedModule 100 1 []) (fdCalls 7 12)) = .ok out ∧
      (1, 5) ∈ printedIntegers .fdsDelta out.console ∧ out.metricsFile = some file ∧
      ∀ w, (1, w) ∈ writtenIntegers .fdsDelta file ↔ w = 5 := by
  obtain ⟨e, htable, -, hdelta⟩ := table_fdCalls 7 12
  obtain ⟨out, file, hout, -, hprinted, -⟩ := report_fdCalls 7 12
  have hfive : ((1 : Int32).toInt, (5 : Int)) ∈ printedIntegers .fdsDelta out.console := by
    rw [hprinted]
    decide
  obtain ⟨file, ps, w, hfile, hps, hwritten, hiff⟩ := printed_eq_written_iff _ _ _ _ _ _ _ _ _
    hout hfive
  have hrange : InGetterRange ps .fdsDelta := by
    have hmem := (Table.find?_some _ hps).1
    rw [htable] at hmem
    rw [List.mem_singleton.mp hmem, InGetterRange, hdelta]
    decide
  rw [← hiff.mpr hrange] at hwritten
  exact ⟨out, file, hout, hfive, hfile, hwritten⟩

/-- A process that opens `2 ^ 31` descriptors: the console says so, and the file has the
number with the opposite sign. -/
theorem printed_ne_written_large :
    ∃ out file,
      processStatsPrintMetrics Qsort.mergeSort configDefault ⟨true, true, true, none⟩ fdsDeltaOnly
        100 (updateCalls (initializedModule 100 1 []) (fdCalls 0 2147483648)) = .ok out ∧
      out.metricsFile = some file ∧
      printedIntegers .fdsDelta out.console = [(1, 2147483648)] ∧
      writtenIntegers .fdsDelta file = [(1, -2147483648)] :=
  report_fdCalls 0 2147483648

end ProcessAnalyzer.Stats
