import ProcessAnalyzer.Proofs.Filtering
import ProcessAnalyzer.Proofs.RecordText

/-!
# `ProcessAnalyzer.Proofs.JsonRecords`: which records survive the way to the dashboard

* `SurvivesRoundTrip` says that the line of a record is one JSON object and that the reader
  of `records.html` gets back what was written.
* `survives_iff`: of the records of a snapshot exactly those survive whose name is the UTF-8
  text of a JSON string body, whose state is a plain ASCII character and whose integers are
  binary64 numbers. Nothing on the way escapes the name, so this is not always the case.
-/

set_option autoImplicit false

namespace ProcessAnalyzer

open ProcessAnalyzer.Lib ProcessAnalyzer.Dashboard ProcessAnalyzer.Stats

/-- The integers that the dashboard reads, under their keys, as they are written. -/
def dashboardIntegers (p : ProcessStateInput) : List (String × Int) :=
  [("pid", p.pid.toInt), ("utime", p.utime.toNat), ("stime", p.stime.toNat),
    ("rss_kb", p.rssKb.toInt), ("io_read_kb", p.readKbytes.toInt64.toInt),
    ("io_write_kb", p.writeKbytes.toInt64.toInt), ("threads", p.threads.toInt),
    ("fds", printedFds p)]

/-- A record survives the way to the dashboard: what `write_output_to_json` writes is a line
of UTF-8 text with one JSON object, and the reader returns the timestamp, the name and the
integers as they were written. -/
def SurvivesRoundTrip (p : ProcessStateInput) : Prop :=
  ∃ text timestamp comm : List Char,
    jsonLine p = utf8 text ++ [10] ∧ '\n' ∉ text ∧ Json.isObject text = true ∧
    p.hRTimestamp = utf8 timestamp ∧ p.comm = utf8 comm ∧
    extractString text "timestamp".toList = some timestamp ∧
    extractString text "comm".toList = some comm ∧
    ∀ f ∈ dashboardIntegers p, extractInteger text f.1.toList = some f.2

/-- The condition under which a record survives. -/
structure Survivable (p : ProcessStateInput) : Prop where
  /-- the name is the UTF-8 text of the body of a JSON string -/
  comm : ∃ comm, p.comm = utf8 comm ∧ Json.isStringBody comm = true
  /-- the state stands for itself in a JSON string -/
  state : PlainByte p.state
  /-- the integers have no more than 53 significant bits -/
  integers : ∀ f ∈ dashboardIntegers p, FitsBinary64 f.2.natAbs

/-! ### The text of a record -/

section Record
variable {p : ProcessStateInput}

/-- The keys of the integers. -/
theorem isWord_recordFields : ∀ f ∈ recordFields p, IsWord f.1.toList := by
  simp only [recordFields, List.forall_mem_cons]
  refine ⟨?_, ?_, ?_, ?_, ?_, ?_, ?_, ?_, by simp⟩ <;>
    exact ⟨⟨by decide, by decide⟩, by decide, by decide⟩

/-- The keys of the integers are proper keys of an object. -/
theorem isStringBody_recordFields :
    ∀ f ∈ recordFields p, Json.isStringBody f.1.toList = true := by
  simp only [recordFields, List.forall_mem_cons]
  refine ⟨?_, ?_, ?_, ?_, ?_, ?_, ?_, ?_, by simp⟩ <;> decide

/-- The integers have other keys than the members in front of them. -/
theorem key_notMem_recordFields : ∀ f ∈ recordFields p,
    f.1.toList ∉ ["timestamp".toList, "pid".toList, "comm".toList, "state".toList] := by
  simp only [recordFields, List.forall_mem_cons]
  refine ⟨?_, ?_, ?_, ?_, ?_, ?_, ?_, ?_, by simp⟩ <;> decide

/-- Every key of the integers is there once. -/
theorem lookup_recordFields : ∀ f ∈ recordFields p, (recordFields p).lookup f.1 = some f.2 := by
  simp only [recordFields, List.forall_mem_cons]
  refine ⟨?_, ?_, ?_, ?_, ?_, ?_, ?_, ?_, by simp⟩ <;> rfl

/-- The bytes around the name and the state are ASCII characters that can be printed. -/
def Printable (bs : Bytes) : Prop := ∀ b ∈ bs, 32 ≤ b ∧ b < 128

theorem Printable.append {as bs : Bytes} (has : Printable as) (hbs : Printable bs) :
    Printable (as ++ bs) := by
  intro b hb
  rcases List.mem_append.mp hb with hb | hb
  · exact has b hb
  · exact hbs b hb

theorem printable_of_plainByte {bs : Bytes} (h : ∀ b ∈ bs, PlainByte b) : Printable bs :=
  fun b hb => ⟨(h b hb).1, (h b hb).2.1⟩

theorem printable_decInt (z : Int) : Printable (decInt z) :=
  printable_of_plainByte fun _ => plainByte_of_mem_decInt

instance (bs : Bytes) : Decidable (Printable bs) := List.decidableBAll _ bs

/-- One more integer with its key. -/
theorem Printable.field {bs : Bytes} (hbs : Printable bs) (s : String)
    (hs : Printable (ascii s)) (z : Int) : Printable (bs ++ ascii s ++ decInt z) :=
  (hbs.append hs).append (printable_decInt z)

theorem printable_lineHead (htimestamp : ∀ b ∈ p.hRTimestamp, PlainByte b) :
    Printable (lineHead p) := by
  have hstart : Printable (ascii "\x7b\"timestamp\":\"") := by decide
  have htext := hstart.append (printable_of_plainByte htimestamp)
  have hpid := htext.field "\",\"pid\":" (by decide) p.pid.toInt
  exact hpid.append (by decide)

theorem printable_lineTail : Printable (lineTail p) := by
  have hstart : Printable (ascii "\",\"ppid\":") := by decide
  have hppid := hstart.append (printable_decInt p.ppid.toInt)
  have hutime := hppid.field ",\"utime\":" (by decide) p.utime.toNat
  have hstime := hutime.field ",\"stime\":" (by decide) p.stime.toNat
  have hrss := hstime.field ",\"rss_kb\":" (by decide) p.rssKb.toInt
  have hread := hrss.field ",\"io_read_kb\":" (by decide) p.readKbytes.toInt64.toInt
  have hwrite := hread.field ",\"io_write_kb\":" (by decide) p.writeKbytes.toInt64.toInt
  have hthreads := hwrite.field ",\"threads\":" (by decide) p.threads.toInt
  have hfds := hthreads.field ",\"fds\":" (by decide) (printedFds p)
  exact hfds.append (by decide)

/-- The text of the line of a record with this name. -/
def lineText (p : ProcessStateInput) (comm : List Char) : List Char :=
  recordText (latin p.hRTimestamp) p.pid.toInt comm (Char.ofNat p.state.toNat) (recordFields p)

/-- The line of a record is the encoding of its text. -/
theorem jsonLine_eq_utf8 (htimestamp : ∀ b ∈ p.hRTimestamp, PlainByte b) {comm : List Char}
    (hcomm : p.comm = utf8 comm) (hstate : p.state < 128) :
    jsonLine p = utf8 (lineText p comm) ++ [10] := by
  have hhead := utf8_latin fun b hb => (printable_lineHead htimestamp b hb).2
  have hmiddle : utf8 (latin lineMiddle) = lineMiddle := by decide
  have hchar : utf8 (latin [p.state]) = [p.state] :=
    utf8_latin fun b hb => List.mem_singleton.mp hb ▸ hstate
  have htail : utf8 (latin (lineTail p)) = _ :=
    utf8_latin fun b hb => (printable_lineTail b hb).2
  rw [lineText, ← latin_line, jsonLine_eq, hcomm]
  simp only [utf8_append, hhead, hmiddle, hchar, htail]

/-- When the line of a record is the encoding of some text, the state is an ASCII character
and the text is that of the record. -/
theorem eq_lineText (htimestamp : ∀ b ∈ p.hRTimestamp, PlainByte b) {comm text : List Char}
    (hcomm : p.comm = utf8 comm) (h : jsonLine p = utf8 text ++ [10]) :
    p.state < 128 ∧ text = lineText p comm := by
  have hhead := utf8_latin fun b hb => (printable_lineHead htimestamp b hb).2
  have hmiddle : utf8 (latin lineMiddle) = lineMiddle := by decide
  have hbytes : utf8 text
      = utf8 (latin (lineHead p) ++ comm ++ latin lineMiddle) ++ (p.state :: lineTail p) := by
    rw [jsonLine_eq, hcomm] at h
    have h' := List.append_cancel_right h
    rw [← h']
    simp only [utf8_append, hhead, hmiddle, List.append_assoc, List.singleton_append]
  -- The state is the first byte of what is left, and a quote follows it.
  obtain ⟨rest, hrest⟩ : ∃ rest, lineTail p = 34 :: rest := by
    delta lineTail
    simp only [List.append_assoc]
    generalize decInt p.ppid.toInt ++ _ = rest
    exact ⟨ascii ",\"ppid\":" ++ rest, rfl⟩
  obtain ⟨es, rfl, hes⟩ := utf8_cancel hbytes
  have hstate : p.state < 128 := lt_of_utf8_eq_cons (by decide) (hrest ▸ hes)
  refine ⟨hstate, ?_⟩
  have hlatin : es = latin (p.state :: lineTail p) := by
    apply utf8_injective
    rw [hes, utf8_latin]
    intro b hb
    rcases List.mem_cons.mp hb with rfl | hb
    · exact hstate
    · exact (printable_lineTail b hb).2
  rw [hlatin, lineText, ← latin_line]
  simp [latin]

/-- A line with a proper name and a plain state is one line. -/
theorem newline_notMem_lineText (htimestamp : ∀ b ∈ p.hRTimestamp, PlainByte b)
    {comm : List Char} (hcomm : Json.isStringBody comm = true) (hstate : PlainByte p.state) :
    '\n' ∉ lineText p comm := by
  -- What the format prints has no control characters, and neither has the body of a string.
  have hlatin : ∀ {bs : Bytes}, Printable bs → '\n' ∉ latin bs := by
    intro bs hbs h
    obtain ⟨b, hb, hcode⟩ := List.mem_map.mp h
    obtain ⟨hlow, hhigh⟩ := hbs b hb
    rw [ofNat_toNat_eq_iff hhigh] at hcode
    rw [UInt8.le_iff_toNat_le, hcode] at hlow
    revert hlow
    decide
  have hmiddle : Printable lineMiddle := by decide
  have hchar : Printable [p.state] :=
    printable_of_plainByte fun b hb => List.mem_singleton.mp hb ▸ hstate
  have hname : '\n' ∉ comm := fun h => Json.le_of_mem_bodyFrom hcomm _ h (by decide)
  rw [lineText, ← latin_line]
  simp only [List.mem_append, not_or]
  exact ⟨⟨⟨⟨hlatin (printable_lineHead htimestamp), hname⟩, hlatin hmiddle⟩, hlatin hchar⟩,
    hlatin printable_lineTail⟩

/-- The timestamp is the body of a JSON string. -/
theorem isStringBody_timestamp (htimestamp : ∀ b ∈ p.hRTimestamp, PlainByte b) :
    Json.isStringBody (latin p.hRTimestamp) = true :=
  Json.isStringBody_of_isPlain (isPlain_of_mem_latin htimestamp)

theorem quote_notMem_timestamp (htimestamp : ∀ b ∈ p.hRTimestamp, PlainByte b) :
    '"' ∉ latin p.hRTimestamp := fun h => (isPlain_of_mem_latin htimestamp _ h).1 rfl

/-- The line is a JSON object exactly when the name and the state may stand in strings. -/
theorem isObject_lineText (htimestamp : ∀ b ∈ p.hRTimestamp, PlainByte b) {comm : List Char}
    (hcomm : Closed false comm) (hstate : p.state < 128) :
    Json.isObject (lineText p comm) = true ↔ Json.isStringBody comm = true ∧ PlainByte p.state := by
  have hlength : (recordFields p).length ≤ (fieldsText (recordFields p)).length := by
    simp only [recordFields, fieldsText, List.length_cons, List.length_append, List.length_nil]
    omega
  rw [lineText, isObject_recordText (isStringBody_timestamp htimestamp) hcomm rfl
    isStringBody_recordFields hlength, isPlain_ofNat_iff hstate]

/-- The integers are read back, up to the rounding of `Number`. -/
theorem extractInteger_lineText (htimestamp : ∀ b ∈ p.hRTimestamp, PlainByte b)
    {comm : List Char} (hcomm : Closed false comm) (hstate : PlainByte p.state) :
    ∀ f ∈ dashboardIntegers p,
      extractInteger (lineText p comm) f.1.toList = some (roundInt f.2) := by
  have hquote : Char.ofNat p.state.toNat ≠ '"' := ((isPlain_ofNat_iff hstate.2.1).mpr hstate).1
  intro f hf
  rcases List.mem_cons.mp hf with rfl | hf
  · exact extractInteger_pid (quote_notMem_timestamp htimestamp)
  · have hmem : f ∈ recordFields p := List.mem_cons_of_mem _ hf
    exact extractInteger_field (isWord_recordFields f hmem) (key_notMem_recordFields f hmem)
      (quote_notMem_timestamp htimestamp) hcomm hquote isWord_recordFields
      (lookup_recordFields f hmem)

/-- A record with a plain timestamp survives exactly under the condition. -/
theorem survivesRoundTrip_iff (htimestamp : ∀ b ∈ p.hRTimestamp, PlainByte b) :
    SurvivesRoundTrip p ↔ Survivable p := by
  constructor
  · rintro ⟨text, timestamp, comm, hline, -, hobject, -, hcomm, -, hread, hintegers⟩
    -- The bytes of the line determine its text.
    obtain ⟨hstate, rfl⟩ := eq_lineText htimestamp hcomm hline
    -- The reader found the whole name, so no quote in it ended the string.
    have hclosed : Closed false comm :=
      (extractString_comm (quote_notMem_timestamp htimestamp)).mp hread
    obtain ⟨hbody, hplain⟩ := (isObject_lineText htimestamp hclosed hstate).mp hobject
    refine ⟨⟨comm, hcomm, hbody⟩, hplain, fun f hf => ?_⟩
    have hround := extractInteger_lineText htimestamp hclosed hplain f hf
    rw [hintegers f hf] at hround
    exact (roundInt_eq_self_iff f.2).mp (Option.some.inj hround).symm
  · rintro ⟨⟨comm, hcomm, hbody⟩, hplain, hintegers⟩
    have hclosed : Closed false comm := closed_of_bodyFrom hbody
    have hstamp : Closed false (latin p.hRTimestamp) :=
      closed_of_bodyFrom (isStringBody_timestamp htimestamp)
    have hencoded := utf8_latin fun b hb => (htimestamp b hb).2.1
    refine ⟨lineText p comm, latin p.hRTimestamp, comm,
      jsonLine_eq_utf8 htimestamp hcomm hplain.2.1,
      newline_notMem_lineText htimestamp hbody hplain,
      (isObject_lineText htimestamp hclosed hplain.2.1).mpr ⟨hbody, hplain⟩, hencoded.symm, hcomm,
      extractString_timestamp hstamp,
      (extractString_comm (quote_notMem_timestamp htimestamp)).mpr hclosed, fun f hf => ?_⟩
    rw [extractInteger_lineText htimestamp hclosed hplain f hf,
      (roundInt_eq_self_iff f.2).mpr (hintegers f hf)]

end Record

/-! ### The records of a snapshot -/

/-- The timestamps of the records are plain text. -/
theorem plainByte_of_mem_snapshotRecords {config : Config} {env : SnapshotEnv}
    {w : ApPidWhitelist} {p : ProcessStateInput} (h : p ∈ snapshotRecords config env w) :
    ∀ b ∈ p.hRTimestamp, PlainByte b := by
  intro b hb
  rw [hRTimestamp_of_mem_snapshotRecords h] at hb
  exact plainByte_of_mem_hRTimestampText hb

/-- A record of a snapshot survives the way to the dashboard exactly when its name is the
UTF-8 text of the body of a JSON string, its state is a printable ASCII character other than
a quote and a backslash, and its integers are exact as binary64 numbers. -/
theorem survives_iff (config : Config) (env : SnapshotEnv) (w : ApPidWhitelist)
    (p : ProcessStateInput) (h : p ∈ snapshotRecords config env w) :
    SurvivesRoundTrip p ↔ Survivable p := by
  exact survivesRoundTrip_iff (plainByte_of_mem_snapshotRecords h)

/-- The record of `init` survives. -/
theorem survives_iff_init :
    ∃ p ∈ snapshotRecords configDefault initEnv {}, p.comm = ascii "init" ∧ SurvivesRoundTrip p := by
  have hrecords : (snapshotRecords configDefault initEnv {}).map
      (fun p => (p.comm, p.state, dashboardIntegers p))
        = [(ascii "init", 83, [("pid", 1), ("utime", 5), ("stime", 3), ("rss_kb", 1200),
            ("io_read_kb", -1), ("io_write_kb", -1), ("threads", 1), ("fds", 2)])] := by
    decide +kernel
  obtain ⟨p, hp, hfields⟩ := List.mem_map.mp (hrecords ▸ List.mem_singleton_self _)
  obtain ⟨hcomm, hstate, hintegers⟩ : p.comm = ascii "init" ∧ p.state = 83 ∧
      dashboardIntegers p = _ := by simpa only [Prod.mk.injEq] using hfields
  refine ⟨p, hp, hcomm, (survives_iff configDefault initEnv {} p hp).mpr ⟨?_, ?_, ?_⟩⟩
  · exact ⟨"init".toList, by rw [hcomm]; decide, by decide⟩
  · rw [hstate]
    exact ⟨by decide, by decide, by decide, by decide⟩
  · rw [hintegers]
    simp only [List.forall_mem_cons]
    refine ⟨?_, ?_, ?_, ?_, ?_, ?_, ?_, ?_, by simp⟩ <;> exact fitsBinary64_of_lt (by decide)

/-- The outside of a snapshot that finds a process whose name has a quote in it. -/
def quotedNameEnv : SnapshotEnv :=
  { quietEnv with
    entries := [⟨ascii "7", true⟩]
    files := ⟨fun _ => some (ascii "7 (a\"b) S 0 1 1 0 -1 64 1 2 3 4 5 3 6 7 20 0 1 0 8 9 300\n"),
      fun _ => none, fun _ => some [ascii "0", ascii "1"]⟩ }

/-- A record whose name has a quote in it does not survive. -/
theorem not_survives_quotedName :
    ∃ p ∈ snapshotRecords configDefault quotedNameEnv {},
      p.comm = ascii "a\"b" ∧ ¬ SurvivesRoundTrip p := by
  have hrecords : (snapshotRecords configDefault quotedNameEnv {}).map (·.comm)
      = [ascii "a\"b"] := by
    decide +kernel
  obtain ⟨p, hp, hcomm⟩ := List.mem_map.mp (hrecords ▸ List.mem_singleton_self _)
  refine ⟨p, hp, hcomm, fun h => ?_⟩
  have hsurvivable := (survivesRoundTrip_iff (plainByte_of_mem_snapshotRecords hp)).mp h
  obtain ⟨comm, hbytes, hbody⟩ := hsurvivable.comm
  -- The quote would end the string.
  have hname : utf8 comm = utf8 "a\"b".toList := by
    rw [← hbytes]
    exact hcomm.trans (by decide)
  rw [utf8_injective hname] at hbody
  revert hbody
  decide

end ProcessAnalyzer
