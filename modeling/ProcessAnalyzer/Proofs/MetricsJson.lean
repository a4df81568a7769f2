import ProcessAnalyzer.Lib.JsonTokens
import ProcessAnalyzer.Proofs.Report

/-!
# `ProcessAnalyzer.Proofs.MetricsJson`: the structure of `metrics.json`

The file is written piece by piece: `metrics_json_begin`, one `write_metric_block_json` per
requested metric, `metrics_json_end`. The comma between two blocks depends on the flag
`boIsFirstJsonMetric`, and the comma between two processes on an index.

* `lexes_headerPieces`, `lexes_processPieces`: the tokens of the header and of one process.
* `lexes_processLoop`, `lexes_blocksPieces`: by induction the tokens of a block, and of the
  sequence of all blocks.
* `metricsFile_documented`: the whole file is one JSON object with the documented members.
-/

set_option autoImplicit false

namespace ProcessAnalyzer.Stats

open ProcessAnalyzer.Lib ProcessAnalyzer.Lib.JsonTokens

/-! ### Pieces as texts with holes -/

/-- The characters of a literal part, or the hole that a conversion fills. -/
def pieceAtoms : JsonPiece → List (Atom JsonPiece)
  | .text s => s.toList.map .char
  | .str s => [.word (.str s)]
  | .chr c => [.word (.chr c)]
  | .int z => [.num (.int z)]
  | .real q decimals => [.num (.real q decimals)]

/-- The text of a list of pieces. -/
def fileAtoms (pieces : List JsonPiece) : List (Atom JsonPiece) := pieces.flatMap pieceAtoms

/-- The content of a string without holes. -/
def literal (s : String) : List (Atom JsonPiece) := s.toList.map .char

theorem fileAtoms_append (ps qs : List JsonPiece) :
    fileAtoms (ps ++ qs) = fileAtoms ps ++ fileAtoms qs := by
  unfold fileAtoms
  rw [List.flatMap_append]

theorem fileAtoms_cons (p : JsonPiece) (ps : List JsonPiece) :
    fileAtoms (p :: ps) = pieceAtoms p ++ fileAtoms ps := by
  unfold fileAtoms
  rw [List.flatMap_cons]

/-- The characters of a literal part, one by one. -/
theorem pieceAtoms_ofList (cs : List Char) :
    pieceAtoms (.text (String.ofList cs)) = cs.map .char := by
  show (String.ofList cs).toList.map Atom.char = _
  rw [String.toList_ofList]

theorem literal_ofList (cs : List Char) : literal (String.ofList cs) = cs.map .char := by
  unfold literal
  rw [String.toList_ofList]

/-! ### The documented values -/

/-- A member with a fixed key. -/
def member (key : String) (value : JsonTree JsonPiece) :
    List (Atom JsonPiece) × JsonTree JsonPiece :=
  (literal key, value)

/-- The printed text of a `%s` as a string. -/
def textValue (s : Bytes) : JsonTree JsonPiece := .str [.word (.str s)]

/-- The members of `meta`. -/
def metaMembers (env : MetricsEnv) (f : MetaFields) :
    List (List (Atom JsonPiece) × JsonTree JsonPiece) :=
  [member "tool" (textValue f.progName), member "version" (textValue f.version),
    member "schema_version" (textValue (ascii "1.0")),
    member "hostname" (textValue (env.hostname.getD (ascii "unknown"))),
    member "interval_ms" (.num (.int f.intervalMs.toNat)),
    member "start_time" (textValue f.startTimeIso), member "end_time" (textValue f.endTimeIso),
    member "duration_sec" (.num (.real f.durationSec 3)),
    member "snapshots" (.num (.int f.snapshotCount.toNat))]

/-- The value of a metric as it is printed. -/
def valuePiece (m : MetricDesc) (ps : ProcessState) : JsonPiece :=
  match m.getter with
  | .double get => .real (get ps) 2
  | .int64 get => .int (get ps).toInt
  | .int32 get => .int (get ps).toInt

/-- One process in the array of a metric. -/
def processTree (m : MetricDesc) (ps : ProcessState) : JsonTree JsonPiece :=
  .obj [member "pid" (.num (.int ps.pid.toInt)), member "comm" (textValue ps.comm),
    member "state" (.str [.word (.chr ps.state)]), member m.valueKey (.num (valuePiece m ps)),
    member "threads" (.num (.int ps.threads.toInt)),
    member "records" (.num (.int ps.numberOfRecords))]

/-- The member of a block in `metrics`. -/
def blockMember (b : Block) : List (Atom JsonPiece) × JsonTree JsonPiece :=
  member (gMetrics b.1).jsonKey (.arr (b.2.map (processTree (gMetrics b.1))))

/-! ### The tokens of the pieces -/

set_option maxRecDepth 2000 in
/-- The header: the whole of `meta`, and the beginning of `metrics`. -/
theorem lexes_headerPieces (env : MetricsEnv) (f : MetaFields) :
    Lexes (fileAtoms (headerPieces env f))
      (.lbrace :: .str (literal "meta") :: .colon :: (JsonTree.obj (metaMembers env f)).tokens
        ++ [.comma, .str (literal "metrics"), .colon, .lbrace]) := by
  unfold headerPieces metaMembers member
  simp only [fileAtoms_cons]
  repeat rw [pieceAtoms_ofList]
  repeat rw [literal_ofList]
  rfl

/-- The value line of a process has the key and the value of its metric. -/
theorem lexes_valuePieces (m : Metric) (ps : ProcessState) :
    Lexes (fileAtoms (valuePieces (gMetrics m) ps))
      [.str (literal (gMetrics m).valueKey), .colon, .num (valuePiece (gMetrics m) ps), .comma] := by
  unfold valuePieces
  cases m <;>
  · simp only [gMetrics, fileAtoms_cons, List.cons_append, List.nil_append]
    repeat rw [pieceAtoms_ofList]
    repeat rw [literal_ofList]
    rfl

/-- One process, with the comma behind it unless it is the last one. -/
theorem lexes_processPieces (m : Metric) (last : Bool) (ps : ProcessState) :
    Lexes (fileAtoms (processPieces (gMetrics m) last ps))
      ((processTree (gMetrics m) ps).tokens ++ if last then [] else [.comma]) := by
  have hfront : Lexes (fileAtoms [.text "\t\t\t\x7b\n\t\t\t\"pid\": ", .int ps.pid.toInt,
        .text ",\n\t\t\t\"comm\": \"", .str ps.comm, .text "\",\n\t\t\t\"state\": \"",
        .chr ps.state, .text "\",\n"])
      [.lbrace, .str (literal "pid"), .colon, .num (.int ps.pid.toInt), .comma,
        .str (literal "comm"), .colon, .str [.word (.str ps.comm)], .comma,
        .str (literal "state"), .colon, .str [.word (.chr ps.state)], .comma] := by
    simp only [fileAtoms_cons]
    repeat rw [pieceAtoms_ofList]
    repeat rw [literal_ofList]
    rfl
  have hback : Lexes (fileAtoms [.text "\t\t\t\"threads\": ", .int ps.threads.toInt,
        .text ",\n\t\t\t\"records\": ", .int ps.numberOfRecords, .text "\n\t\t\t\x7d",
        .text (if last then "" else ","), .text "\n"])
      ([.str (literal "threads"), .colon, .num (.int ps.threads.toInt), .comma,
        .str (literal "records"), .colon, .num (.int ps.numberOfRecords), .rbrace]
        ++ if last then [] else [.comma]) := by
    simp only [fileAtoms_cons]
    cases last with
    | false =>
        simp only [Bool.false_eq_true, if_false]
        repeat rw [pieceAtoms_ofList]
        repeat rw [literal_ofList]
        rfl
    | true =>
        simp only [if_true]
        repeat rw [pieceAtoms_ofList]
        repeat rw [literal_ofList]
        rfl
  have hall := (hfront.append (lexes_valuePieces m ps)).append hback
  rw [← fileAtoms_append, ← fileAtoms_append] at hall
  exact hall

/-- The loop over the processes of a block separates them by commas. -/
theorem lexes_processLoop (m : Metric) (rows : List ProcessState) :
    Lexes (fileAtoms (processLoop (gMetrics m) rows))
      (separated (rows.map fun ps => (processTree (gMetrics m) ps).tokens)) := by
  induction rows with
  | nil => exact lexes_nil
  | cons ps rest ih =>
      have hone := (lexes_processPieces m rest.isEmpty ps).append ih
      rw [← fileAtoms_append] at hone
      cases rest with
      | nil =>
          simp only [List.isEmpty_nil, if_true, List.map_nil, separated, List.append_nil] at hone
          exact hone
      | cons q rest =>
          simp only [List.isEmpty_cons, Bool.false_eq_true, if_false, List.append_assoc,
            List.singleton_append] at hone
          exact hone

/-- A block is the member of its metric. -/
theorem lexes_metricBlockPieces (b : Block) :
    Lexes (fileAtoms (metricBlockPieces (gMetrics b.1) b.2))
      (.str (blockMember b).1 :: .colon :: (blockMember b).2.tokens) := by
  have hfront : Lexes (fileAtoms [.text "\t\t\"", .text (gMetrics b.1).jsonKey, .text "\":[\n"])
      [.str (literal (gMetrics b.1).jsonKey), .colon, .lbracket] := by
    cases b.1 <;>
    · simp only [gMetrics, fileAtoms_cons]
      repeat rw [pieceAtoms_ofList]
      repeat rw [literal_ofList]
      rfl
  have hback : Lexes (fileAtoms [.text "\t\t]"]) [.rbracket] := by
    simp only [fileAtoms_cons]
    rw [pieceAtoms_ofList]
    rfl
  have hall := (hfront.append (lexes_processLoop b.1 b.2)).append hback
  rw [← fileAtoms_append, ← fileAtoms_append] at hall
  unfold metricBlockPieces blockMember member
  rw [JsonTree.tokens, itemTokens_eq, List.map_map]
  exact hall

/-- The tokens of a member of `metrics`. -/
def blockTokens (b : Block) : List (Token JsonPiece) :=
  .str (blockMember b).1 :: .colon :: (blockMember b).2.tokens

/-- Behind a first block every block has its comma in front. -/
theorem lexes_blocksPieces_false (blocks : List Block) :
    Lexes (fileAtoms (blocksPieces false blocks))
      ((blocks.map blockTokens).flatMap (.comma :: ·)) := by
  have hcomma : Lexes (fileAtoms [.text ",\n"]) [.comma] := by
    simp only [fileAtoms_cons]
    rw [pieceAtoms_ofList]
    rfl
  induction blocks with
  | nil => exact lexes_nil
  | cons b rest ih =>
      have hall := (hcomma.append (lexes_metricBlockPieces b)).append ih
      rw [← fileAtoms_append, ← fileAtoms_append] at hall
      rw [List.map_cons, List.flatMap_cons]
      exact hall

/-- All blocks, starting with the first one. -/
theorem lexes_blocksPieces (blocks : List Block) :
    Lexes (fileAtoms (blocksPieces true blocks)) (separated (blocks.map blockTokens)) := by
  cases blocks with
  | nil => exact lexes_nil
  | cons b rest =>
      have hall := (lexes_metricBlockPieces b).append (lexes_blocksPieces_false rest)
      rw [← fileAtoms_append] at hall
      rw [List.map_cons, separated_cons]
      exact hall

/-- The value that the whole file denotes. -/
def metricsTree (env : MetricsEnv) (f : MetaFields) (blocks : List Block) : JsonTree JsonPiece :=
  .obj [member "meta" (.obj (metaMembers env f)), member "metrics" (.obj (blocks.map blockMember))]

/-- The tokens of the whole file. -/
theorem lexes_metricsTree (env : MetricsEnv) (f : MetaFields) (blocks : List Block) :
    Lexes (fileAtoms (headerPieces env f ++ blocksPieces true blocks ++ footerPieces))
      (metricsTree env f blocks).tokens := by
  have hfooter : Lexes (fileAtoms footerPieces) [.rbrace, .rbrace] := by
    unfold footerPieces
    simp only [fileAtoms_cons]
    rw [pieceAtoms_ofList]
    rfl
  have hall := ((lexes_headerPieces env f).append (lexes_blocksPieces blocks)).append hfooter
  rw [← fileAtoms_append, ← fileAtoms_append] at hall
  have hmetrics : (JsonTree.obj (blocks.map blockMember)).tokens
      = .lbrace :: separated (blocks.map blockTokens) ++ [.rbrace] := by
    rw [JsonTree.tokens, memberTokens_eq, List.map_map]
    rfl
  unfold metricsTree
  rw [JsonTree.tokens, memberTokens_eq]
  simp only [member, List.map_cons, List.map_nil, separated, hmetrics]
  simpa only [List.cons_append, List.append_assoc, List.nil_append,
    List.singleton_append] using hall

/-! ### The documented structure -/

/-- The documented structure of the file: an object with the members `meta` and `metrics`,
where `metrics` has one member for each requested metric, under its key, and no other. It is
an array of as many processes as are asked for and there are, with the documented members. -/
def Documented (args : MetricsArguments) (size : ℕ) (doc : JsonTree JsonPiece) : Prop :=
  ∃ info metrics : List (List (Atom JsonPiece) × JsonTree JsonPiece),
    doc = .obj [member "meta" (.obj info), member "metrics" (.obj metrics)] ∧
    info.map Prod.fst = [literal "tool", literal "version", literal "schema_version",
      literal "hostname", literal "interval_ms", literal "start_time", literal "end_time",
      literal "duration_sec", literal "snapshots"] ∧
    (metrics.map Prod.fst).Nodup ∧
    (∀ key, key ∈ metrics.map Prod.fst
      ↔ ∃ m : Metric, args.requested m = true ∧ key = literal (gMetrics m).jsonKey) ∧
    ∀ (m : Metric) (value : JsonTree JsonPiece),
      (literal (gMetrics m).jsonKey, value) ∈ metrics →
      ∃ entries : List (JsonTree JsonPiece), value = .arr entries ∧
        entries.length = min (args.pidsToDisplay m).toInt.toNat size ∧
        ∀ entry ∈ entries, ∃ members, entry = .obj members ∧
          members.map Prod.fst = [literal "pid", literal "comm", literal "state",
            literal (gMetrics m).valueKey, literal "threads", literal "records"]

/-- Different literals are different strings. -/
theorem literal_injective : Function.Injective literal := by
  intro s t h
  have hlist : s.toList = t.toList := by
    unfold literal at h
    exact List.map_injective_iff.mpr (fun c d hcd => Atom.char.inj hcd) h
  exact String.toList_inj.mp hlist

/-- Every metric has a key of its own. -/
theorem jsonKey_injective {m m' : Metric} (h : (gMetrics m).jsonKey = (gMetrics m').jsonKey) :
    m = m' := by
  revert h
  cases m <;> cases m' <;> decide

/-- Every metric has its place in the order of the report, and only one. -/
theorem nodup_printOrder : printOrder.Nodup := by decide

theorem mem_printOrder (m : Metric) : m ∈ printOrder := by
  cases m <;> decide

/-- A block has as many rows as are asked for and there are. -/
theorem length_of_fromSort {qsort : Qsort} {args : MetricsArguments} {table : List ProcessState}
    {b : Block} (h : b.FromSort qsort args table) :
    b.2.length = min (args.pidsToDisplay b.1).toInt.toNat table.length := by
  obtain ⟨arr, hperm, hrows⟩ := h
  have hsorted := (qsort.perm_sort (totalPreorderCmp_comparator b.1) arr).length_eq
  rw [hrows, List.length_take, hsorted, hperm.length_eq, rowCount_eq_min]
  omega

/-- The tree of a report has the documented structure. -/
theorem documented_metricsTree {qsort : Qsort} {args : MetricsArguments}
    {table : List ProcessState} {blocks : List Block}
    (hfst : blocks.map Prod.fst = printOrder.filter args.requested)
    (hsort : ∀ b ∈ blocks, b.FromSort qsort args table) (env : MetricsEnv) (f : MetaFields) :
    Documented args table.length (metricsTree env f blocks) := by
  have hkeys : (blocks.map blockMember).map Prod.fst
      = (printOrder.filter args.requested).map fun m => literal (gMetrics m).jsonKey := by
    rw [← hfst, List.map_map, List.map_map]
    rfl
  have hinj : Function.Injective fun m => literal (gMetrics m).jsonKey := by
    intro m m' h
    exact jsonKey_injective (literal_injective h)
  refine ⟨metaMembers env f, blocks.map blockMember, rfl, rfl, ?_, ?_, ?_⟩
  · rw [hkeys]
    exact (nodup_printOrder.filter _).map hinj
  · intro key
    rw [hkeys, List.mem_map]
    constructor
    · rintro ⟨m, hm, rfl⟩
      exact ⟨m, (List.mem_filter.mp hm).2, rfl⟩
    · rintro ⟨m, hm, rfl⟩
      exact ⟨m, List.mem_filter.mpr ⟨mem_printOrder m, hm⟩, rfl⟩
  · intro m value hmem
    obtain ⟨b, hb, hmember⟩ := List.mem_map.mp hmem
    -- The key identifies the block.
    have hkey : literal (gMetrics b.1).jsonKey = literal (gMetrics m).jsonKey :=
      congrArg Prod.fst hmember
    obtain rfl : b.1 = m := hinj hkey
    have hvalue : JsonTree.arr (b.2.map (processTree (gMetrics b.1))) = value :=
      congrArg Prod.snd hmember
    refine ⟨b.2.map (processTree (gMetrics b.1)), hvalue.symm, ?_, ?_⟩
    · rw [List.length_map]
      exact length_of_fromSort (hsort b hb)
    · intro entry hentry
      obtain ⟨ps, -, rfl⟩ := List.mem_map.mp hentry
      exact ⟨_, rfl, rfl⟩

/-- The structure of `metrics.json`. For every table with a process, every set of requested
metrics and all limits, a report whose metrics file is open writes one JSON object with the
documented members, with exactly the commas that it needs. -/
theorem metricsFile_documented (qsort : Qsort) (config : Config) (env : MetricsEnv)
    (args : MetricsArguments) (intervalMs : UInt64) (m : StatsModule)
    (hm : m.isModuleInitialized = true) (ht : m.gProcessTable ≠ []) (ha : env.arrMallocOk = true)
    (ho : MetricsFileOpens config env) :
    ∃ (out : MetricsResult) (pieces : List JsonPiece) (doc : JsonTree JsonPiece),
      processStatsPrintMetrics qsort config env args intervalMs m = .ok out ∧
      out.metricsFile = some pieces ∧ Lexes (fileAtoms pieces) doc.tokens ∧
      Documented args m.gProcessTable.length doc := by
  have hok := processStatsPrintMetrics_eq qsort config env args intervalMs m hm ht ha
  rw [if_pos ho] at hok
  rcases processStatsPrintMetrics_cases qsort config env args intervalMs m hok with
    ⟨hearly, -⟩ | ⟨-, blocks, hfst, hsort, hout⟩
  · rw [hm, ha] at hearly
    simp only [Bool.true_eq_false, ht, or_self] at hearly
  · have hlen : (averagedTable args m).length = m.gProcessTable.length := List.length_map _
    refine ⟨_, _, metricsTree env (metaFields m intervalMs) blocks, hok, ?_,
      lexes_metricsTree env (metaFields m intervalMs) blocks, ?_⟩
    · rw [hout]
    · rw [← hlen]
      exact documented_metricsTree hfst hsort env (metaFields m intervalMs)

/-- The report on three processes with two rows for each of two metrics. -/
theorem metricsFile_documented_three :
    ∃ (out : MetricsResult) (pieces : List JsonPiece) (doc : JsonTree JsonPiece),
      processStatsPrintMetrics Qsort.insertionSort configDefault ⟨true, true, true, none⟩ firstTwo
          100 (updateAll (initializedModule 100 1 []) samplesOfThree) = .ok out ∧
      out.metricsFile = some pieces ∧ Lexes (fileAtoms pieces) doc.tokens ∧
      Documented firstTwo 3 doc := by
  have hlength : (updateAll (initializedModule 100 1 []) samplesOfThree).gProcessTable.length = 3 := by
    decide +kernel
  rw [← hlength]
  exact metricsFile_documented Qsort.insertionSort configDefault ⟨true, true, true, none⟩ firstTwo
    100 _ (isModuleInitialized_updateAll samplesOfThree _)
    (table_updateAll_ne_nil 100 1 [] samplesOfThree (by decide)) rfl ⟨rfl, rfl, rfl⟩

end ProcessAnalyzer.Stats
