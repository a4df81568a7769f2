import ProcessAnalyzer.Lib.CInt
import ProcessAnalyzer.Proofs.IoValidity
import ProcessAnalyzer.Proofs.JsonRecords
import ProcessAnalyzer.Proofs.Timestamps

/-!
# `ProcessAnalyzer.Proofs.Markers`: validity flags and the marker -1

A sample carries its validity as flags to `process_stats` and as the number -1 to the two
files, where `records.html` tests the sign. `PlotGroup` lists the fields that can be missing.

* `marks_of_sampleOf`: in every sample the printed integer of a group is -1 when the flag is
  off and not negative when it is on.
* `points_collectMetricPoints`: the dashboard adds the point of a group exactly when
  `process_stats` treats the sample as valid for it, whatever the decoder makes of the state
  and of a name without quotes.
* `points_of_validSamples`: both together, for every sample of every snapshot.

The date-time string format has no leap second and no year of five digits. With a clock in
`WallClock.InIsoRange` every timestamp of `print_timestamp` is in that format.
-/

set_option autoImplicit false

namespace ProcessAnalyzer

open ProcessAnalyzer.Lib ProcessAnalyzer.Dashboard ProcessAnalyzer.Stats

/-! ### The groups -/

/-- The diagrams of fields that can be missing. -/
inductive PlotGroup where
  | rss
  | read
  | write
  | fds
  deriving DecidableEq

namespace PlotGroup

/-- The flag of a group. -/
def flag (p : ProcessStateInput) : PlotGroup → Bool
  | rss => p.boIsRssValid
  | read => p.boIsIoValid
  | write => p.boIsIoValid
  | fds => p.boIsFdValid

/-- The integer that both lines print for a group. -/
def printed (p : ProcessStateInput) : PlotGroup → Int
  | rss => p.rssKb.toInt
  | read => p.readKbytes.toInt64.toInt
  | write => p.writeKbytes.toInt64.toInt
  | fds => printedFds p

/-- The key of a group in the JSONL line. -/
def jsonKey : PlotGroup → String
  | rss => "rss_kb"
  | read => "io_read_kb"
  | write => "io_write_kb"
  | fds => "fds"

/-- The label of a group in the log line. -/
def logLabel : PlotGroup → String
  | rss => "RSS(KB)"
  | read => "IOR(KB)"
  | write => "IOW(KB)"
  | fds => "FD"

/-- What `process_stats` does with a sample that it treats as valid for a group: it takes the
first such sample as the baseline. -/
def TreatedAsValid (p : ProcessStateInput) : PlotGroup → Prop
  | rss => (calculateRssData p {}).boIsRssInitialized = true
  | read => (calculateIoData p {}).boIsIoInitialized = true
  | write => (calculateIoData p {}).boIsIoInitialized = true
  | fds => (calculateFdsDelta p {}).boIsFdInitialized = true

/-- `process_stats` goes by the flags. -/
theorem treatedAsValid_iff (p : ProcessStateInput) (g : PlotGroup) :
    g.TreatedAsValid p ↔ g.flag p = true := by
  cases g with
  | rss => cases h : p.boIsRssValid <;> simp [TreatedAsValid, flag, calculateRssData, h]
  | read => cases h : p.boIsIoValid <;> simp [TreatedAsValid, flag, calculateIoData, h]
  | write => cases h : p.boIsIoValid <;> simp [TreatedAsValid, flag, calculateIoData, h]
  | fds => cases h : p.boIsFdValid <;> simp [TreatedAsValid, flag, calculateFdsDelta, h]

instance (p : ProcessStateInput) (g : PlotGroup) : Decidable (g.TreatedAsValid p) :=
  decidable_of_iff (g.flag p = true) (treatedAsValid_iff p g).symm

/-- The points of the diagram of a group. -/
def points (series : Series) : PlotGroup → List (Int × ℚ)
  | rss => series.rss
  | read => series.read
  | write => series.write
  | fds => series.fds

/-- The height of the point for an integer. -/
def height (v : Int) : PlotGroup → ℚ
  | rss => v / 1024
  | read => v
  | write => v
  | fds => v

end PlotGroup

/-- The integer agrees with the flag: -1 when it is off, and not negative when it is on. -/
def Marks (flag : Bool) (z : Int) : Prop := if flag then 0 ≤ z else z = -1

instance (flag : Bool) (z : Int) : Decidable (Marks flag z) :=
  inferInstanceAs (Decidable (if flag then 0 ≤ z else z = -1))

/-! ### What the readers leave -/

/-- `initialize_page_size_kb` leaves a positive page size. -/
theorem initializePageSizeKb_pos (pageSize gPageSizeKb : Int64) :
    0 < (initializePageSizeKb pageSize gPageSizeKb).toInt := by
  unfold initializePageSizeKb
  split
  · rename_i h
    exact Int64.lt_iff_toInt_lt.mp h
  · dsimp only
    generalize (if pageSize > 0 then pageSize / 1024 else gPageSizeKb) = g
    split
    · decide
    · rename_i h
      exact Int64.lt_iff_toInt_lt.mp (Int64.not_le.mp h)

/-- The resident pages of a process, as `read_proc_stat` reads them. -/
def residentPages (env : SnapshotEnv) (pid : Int32) : Option Int64 :=
  (statParts env.files (env.stale pid) pid).map fun parts =>
    (scanStat statFields parts.2 ⟨0, 0, 0, 0, 0, -1⟩).1.rssPages

/-- The fields of a sample that can be missing come from the stat line, the I/O file and the
descriptor directory. -/
theorem fields_of_sampleOf {env : SnapshotEnv} {pid : Int32} {p : ProcessStateInput}
    (h : sampleOf env pid = some p) :
    ∃ pages, residentPages env pid = some pages ∧
      p.rssKb = (if pages ≥ 0 then pages * env.pageSizeKb else -1) ∧
      p.boIsRssValid = decide (pages ≥ 0) ∧
      (p.readKbytes, p.writeKbytes, p.boIsIoValid) = ioFields env.files pid ∧
      (p.numberOfFds, p.boIsFdValid) = (let count := countOpenFdsForPid env.files pid
        if count < 0 then (0, false) else (count.toUInt64, true)) := by
  cases hparts : statParts env.files (env.stale pid) pid with
  | none =>
      rw [sampleOf_eq env pid (readProcStat_of_none _ _ _ _ _ hparts)] at h
      cases h
  | some parts =>
      obtain ⟨horigin, hok, hrecord⟩ := readProcStat_of_some env.files (env.stale pid)
        env.pageSizeKb pid { freshRecord env with pid := pid } hparts
      rw [sampleOf_eq env pid rfl, hok] at h
      generalize hstart : (⟨_, _, _, _, _, -1⟩ : StatTargets) = start at hok hrecord h
      cases hscan : (scanStat statFields parts.2 start).2 with
      | false =>
          rw [hscan] at h
          cases h
      | true =>
          -- What the scan leaves does not depend on the old record.
          have hpages : residentPages env pid
              = some (scanStat statFields parts.2 start).1.rssPages := by
            rw [residentPages, hparts, Option.map_some,
              scanStat_congr parts.2 start ⟨0, 0, 0, 0, 0, -1⟩ hscan]
          rw [hscan, if_pos rfl, hrecord hscan, Option.some.injEq] at h
          refine ⟨_, hpages, ?_⟩
          rw [← h]
          have hpid : (statRecord env.files env.pageSizeKb pid parts.1
            (scanStat statFields parts.2 start).1 { freshRecord env with pid := pid }).pid = pid :=
            rfl
          unfold readFd
          rw [hpid]
          dsimp only
          split <;> exact ⟨rfl, rfl, rfl, rfl⟩

/-- A valid I/O counter is a number of bytes divided by 1024, so it is not negative as a
signed number. -/
theorem toInt_div_nonneg (v : Option UInt64) :
    0 ≤ (((v.map (· / 1024)).getD 0).toInt64).toInt := by
  cases v with
  | none => decide
  | some w =>
      have hlt : (w / 1024).toNat < 2 ^ 63 := by
        have hw := w.toNat_lt
        have hk : (1024 : UInt64).toNat = 1024 := rfl
        rw [UInt64.toNat_div, hk]
        omega
      show 0 ≤ (w / 1024).toInt64.toInt
      rw [toInt_toInt64_of_lt hlt]
      exact Int.natCast_nonneg _

/-- The two I/O counters agree with their flag. -/
theorem marks_ioFields (files : ProcFiles) (pid : Int32) :
    Marks (ioFields files pid).2.2 (ioFields files pid).1.toInt64.toInt ∧
    Marks (ioFields files pid).2.2 (ioFields files pid).2.1.toInt64.toInt := by
  cases hio : files.io pid with
  | none =>
      have hfields : ioFields files pid = (-1, -1, false) := by
        unfold ioFields
        rw [hio]
      rw [hfields]
      exact ⟨by decide, by decide⟩
  | some content =>
      rw [ioFields_of_some hio]
      exact ⟨toInt_div_nonneg _, toInt_div_nonneg _⟩

/-- The marker and the flags agree in every sample of a snapshot. -/
theorem marks_of_sampleOf {env : SnapshotEnv} {pid : Int32} {p : ProcessStateInput}
    (h : sampleOf env pid = some p) (hpage : 0 < env.pageSizeKb.toInt)
    (hfits : ∀ pages, residentPages env pid = some pages →
      pages.toInt * env.pageSizeKb.toInt < 2 ^ 63) (g : PlotGroup) :
    Marks (g.flag p) (g.printed p) := by
  obtain ⟨pages, hpages, hrss, hrssValid, hio, hfd⟩ := fields_of_sampleOf h
  cases g with
  | rss =>
      show Marks p.boIsRssValid p.rssKb.toInt
      rw [hrss, hrssValid]
      by_cases hvalid : pages ≥ 0
      · have hnonneg : 0 ≤ pages.toInt := Int64.le_iff_toInt_le.mp hvalid
        have hproduct : 0 ≤ pages.toInt * env.pageSizeKb.toInt := Int.mul_nonneg hnonneg hpage.le
        rw [if_pos hvalid, decide_eq_true hvalid]
        show 0 ≤ (pages * env.pageSizeKb).toInt
        rw [Int64.toInt_mul, bmod_two_pow_64_of_mem (by omega) (hfits pages hpages)]
        exact hproduct
      · rw [if_neg hvalid, decide_eq_false hvalid]
        decide
  | read =>
      show Marks p.boIsIoValid p.readKbytes.toInt64.toInt
      have hmarks := (marks_ioFields env.files pid).1
      rw [← hio] at hmarks
      exact hmarks
  | write =>
      show Marks p.boIsIoValid p.writeKbytes.toInt64.toInt
      have hmarks := (marks_ioFields env.files pid).2
      rw [← hio] at hmarks
      exact hmarks
  | fds =>
      show Marks p.boIsFdValid (printedFds p)
      dsimp only at hfd
      split at hfd
      · obtain ⟨-, hflag⟩ := Prod.mk.inj hfd
        unfold printedFds
        rw [hflag]
        exact (rfl : (-1 : Int) = -1)
      · rename_i hcount
        obtain ⟨hnumber, hflag⟩ := Prod.mk.inj hfd
        unfold printedFds
        rw [hflag, hnumber, if_pos rfl, Int64.toInt64_toUInt64]
        exact Int64.le_iff_toInt_le.mp (Int64.not_lt.mp hcount)

/-! ### The two lines -/

/-- The integers at the end of a log line, under their labels. -/
def logFields (p : ProcessStateInput) : List (String × Int) :=
  [("RSS(KB)", p.rssKb.toInt), ("IOR(KB)", p.readKbytes.toInt64.toInt),
    ("IOW(KB)", p.writeKbytes.toInt64.toInt), ("THREADS", p.threads.toInt), ("FD", printedFds p)]

/-- A log line in front of these integers. -/
def logHead (p : ProcessStateInput) : Bytes :=
  ascii "PID=" ++ decInt p.pid.toInt ++ ascii " COMM=" ++ p.comm ++ ascii " STATE=" ++ [p.state]
    ++ ascii " PPID=" ++ decInt p.ppid.toInt ++ ascii " UTIME=" ++ decNat p.utime.toNat
    ++ ascii " STIME=" ++ decNat p.stime.toNat

/-- The fields of a log line. -/
theorem logLine_eq (p : ProcessStateInput) :
    logLine p = logHead p
      ++ (logFields p).flatMap (fun f => ascii " " ++ ascii f.1 ++ ascii "=" ++ decInt f.2)
      ++ ascii "\n" := by
  unfold logLine logHead logFields
  simp [ascii]

/-- The fields of a JSONL line. -/
theorem jsonLine_fields (p : ProcessStateInput) :
    jsonLine p = lineHead p ++ p.comm ++ lineMiddle ++ [p.state] ++ ascii "\","
      ++ (ascii ",").intercalate
          ((recordFields p).map fun f => ascii "\"" ++ ascii f.1 ++ ascii "\":" ++ decInt f.2)
      ++ ascii "\x7d\n" := by
  rw [jsonLine_eq]
  unfold lineTail recordFields
  simp [ascii, List.intercalate, List.intersperse]

/-- Both lines have the printed integer of a group. -/
theorem printed_mem_fields (p : ProcessStateInput) (g : PlotGroup) :
    (g.jsonKey, g.printed p) ∈ recordFields p ∧ (g.logLabel, g.printed p) ∈ logFields p := by
  cases g <;> simp [recordFields, logFields, PlotGroup.jsonKey, PlotGroup.logLabel,
    PlotGroup.printed]

/-! ### The text that the dashboard sees -/

/-- The text of a line whose name and state are decoded to these characters. -/
def decodedLine (p : ProcessStateInput) (comm state : List Char) : List Char :=
  '\x7b' :: '"' :: ("timestamp".toList ++ '"' :: ':' :: '"' :: (latin p.hRTimestamp ++ '"' :: ',' ::
    '"' :: ("pid".toList ++ '"' :: ':' :: (intText p.pid.toInt ++ ',' ::
    '"' :: ("comm".toList ++ '"' :: ':' :: '"' :: (comm ++ '"' :: ',' ::
    '"' :: ("state".toList ++ '"' :: ':' :: '"' :: (state ++ '"' :: ',' ::
      fieldsText (recordFields p)))))))))

theorem printable_lineMiddle : Printable lineMiddle := by decide

/-- Whatever decoder is used, only the name and the state depend on it. -/
theorem eq_decodedLine {p : ProcessStateInput} (htimestamp : ∀ b ∈ p.hRTimestamp, PlainByte b)
    {line : List Char} (h : Decodes (jsonLine p) (line ++ ['\n'])) :
    ∃ comm state, Decodes p.comm comm ∧ Decodes [p.state] state ∧
      line = decodedLine p comm state := by
  rw [jsonLine_eq] at h
  obtain ⟨_, end₅, heq, h, hend₅⟩ := h.append_inv
  obtain ⟨_, tail, rfl, h, htail⟩ := h.append_inv
  obtain ⟨_, state, rfl, h, hstate⟩ := h.append_inv
  obtain ⟨_, middle, rfl, h, hmiddle⟩ := h.append_inv
  obtain ⟨head, comm, rfl, hhead, hcomm⟩ := h.append_inv
  refine ⟨comm, state, hcomm, hstate, ?_⟩
  have hbreak : end₅ = ['\n'] := hend₅.eq_latin (by simp)
  rw [hbreak] at heq
  rw [List.append_cancel_right heq,
    hhead.eq_latin fun b hb => (printable_lineHead htimestamp b hb).2,
    hmiddle.eq_latin fun b hb => (printable_lineMiddle b hb).2,
    htail.eq_latin fun b hb => (printable_lineTail b hb).2]
  unfold decodedLine lineHead lineMiddle lineTail recordFields
  simp only [fieldsText, intText, latin_append, List.append_assoc]
  simp [latin, ascii]

/-- A state is passed over, even if it is a quote. -/
theorem after_state {key tail : List Char} (hkey : IsWord key) {b : UInt8} {state : List Char}
    (h : Decodes [b] state) (rest : List Char) :
    after (markerOf key tail) ('"' :: (state ++ '"' :: ',' :: rest))
      = after (markerOf key tail) ('"' :: ',' :: rest) := by
  by_cases hquote : '"' ∈ state
  · -- Then it is the quote alone: the byte is ASCII.
    have hb : b = 34 := by
      have hmem := h.mem_of_ascii (show (34 : UInt8) < 128 by decide) hquote
      exact (List.mem_singleton.mp hmem).symm
    subst hb
    rw [h.eq_latin (by simp)]
    show after (markerOf key tail) ('"' :: ([] ++ '"' :: '"' :: ',' :: rest)) = _
    rw [after_quoted hkey.toIsKey (by simp) fun _ => by simp]
    show after (markerOf key tail) ('"' :: ([] ++ '"' :: ',' :: rest)) = _
    exact after_quoted hkey.toIsKey (by simp) fun _ => by simp
  · exact after_quoteFree hkey hquote rest

/-- The integers are read back, up to the rounding of `Number`. -/
theorem extractInteger_decodedLine {p : ProcessStateInput}
    (htimestamp : ∀ b ∈ p.hRTimestamp, PlainByte b) {comm state : List Char} (hcomm : '"' ∉ comm)
    (hstate : Decodes [p.state] state) {f : String × Int} (hf : f ∈ recordFields p) :
    extractInteger (decodedLine p comm state) f.1.toList = some (roundInt f.2) := by
  have hkey := isWord_recordFields f hf
  have hne := key_notMem_recordFields f hf
  simp only [List.mem_cons, List.not_mem_nil, or_false, not_or] at hne
  obtain ⟨c, rest, hc, hafter⟩ := after_fieldsText hkey isWord_recordFields
    (lookup_recordFields f hf)
  obtain ⟨t, ht⟩ : ∃ t, fieldsText (recordFields p) = '"' :: t := ⟨_, rfl⟩
  rw [extractInteger_eq, decodedLine, after_brace,
    after_stringMember hkey (by decide) hne.1
      (after_quoteFree hkey (quote_notMem_timestamp htimestamp)),
    after_intMember hkey (by decide) hne.2.1,
    after_stringMember hkey (by decide) hne.2.2.1 (after_quoteFree hkey hcomm), ht,
    after_stringMember hkey (by decide) hne.2.2.2 (after_state hkey hstate), ← ht, hafter,
    Option.bind_some, readInteger_intText f.2 hc]

/-- The timestamp is read back. -/
theorem extractString_decodedLine {p : ProcessStateInput}
    (htimestamp : ∀ b ∈ p.hRTimestamp, PlainByte b) (comm state : List Char) :
    extractString (decodedLine p comm state) "timestamp".toList = some (latin p.hRTimestamp) := by
  rw [extractString_eq, decodedLine, after_brace]
  show (after (markerOf "timestamp".toList ['"']) ('"' :: ("timestamp".toList ++ '"' :: ':' ::
    (['"'] ++ (latin p.hRTimestamp ++ '"' :: _))))).bind _ = _
  rw [after_found, Option.bind_some, readString_eq_iff_closed]
  exact closed_of_bodyFrom (isStringBody_timestamp htimestamp)

/-! ### `Date.parse` of a timestamp -/

/-- A reading of the wall clock that the date-time string format can express: a year of four
digits and no leap second. -/
structure WallClock.InIsoRange (c : WallClock) : Prop where
  valid : c.Valid
  year : c.FourDigitYear
  sec : c.tmSec ≤ 59

/-- A field of the format reads a padded number back. -/
theorem fixedNumber_decIntPad {lo hi width : ℕ} {z : Int} (hw : 0 < width) (hlo : lo ≤ z)
    (hhi : z ≤ hi) (hlt : hi < 10 ^ width) (rest : List Char) :
    fixedNumber lo hi width (latin (decIntPad width z) ++ rest) = some (z.toNat, rest) := by
  have hz : 0 ≤ z := le_trans (Int.natCast_nonneg lo) hlo
  have hzlt : z < 10 ^ width := lt_of_le_of_lt hhi (by exact_mod_cast hlt)
  obtain ⟨hlen, hdigits, hvalue⟩ := decIntPad_spec hw hz hzlt
  have hlatin : (latin (decIntPad width z)).length = width := by
    rw [latin, List.length_map, hlen]
  have hall : (latin (decIntPad width z)).all Char.isDigit = true := by
    rw [List.all_eq_true]
    intro c hc
    obtain ⟨b, hb, rfl⟩ := List.mem_map.mp hc
    exact isDigit_ofNat (hdigits b hb)
  have hnumber : digitsValue (latin (decIntPad width z)) = z.toNat := by
    rw [digitsValue_latin fun b hb => lt_of_isDigit (hdigits b hb)]
    omega
  unfold fixedNumber
  rw [List.take_left' hlatin, List.drop_left' hlatin]
  simp only [hlatin, hall, hnumber, true_and]
  rw [if_pos ⟨by omega, by omega⟩]

/-- The blank behind the date becomes the letter of the format. -/
theorem replaceFirst_of_notMem {c d : Char} {s : List Char} (h : c ∉ s) (rest : List Char) :
    replaceFirst c d (s ++ c :: rest) = s ++ d :: rest := by
  induction s with
  | nil => simp [replaceFirst]
  | cons a s ih =>
      have ha : a ≠ c := fun hac => h (hac ▸ List.mem_cons_self)
      rw [List.cons_append, replaceFirst, if_neg ha, ih fun hc => h (List.mem_cons_of_mem _ hc)]
      rfl

/-- There is no blank in a padded number. -/
theorem blank_notMem_decIntPad {width : ℕ} {z : Int} (hw : 0 < width) (hz : 0 ≤ z)
    (hlt : z < 10 ^ width) : ' ' ∉ latin (decIntPad width z) := by
  intro h
  obtain ⟨b, hb, hcode⟩ := List.mem_map.mp h
  have hdigit := isDigit_ofNat ((decIntPad_spec hw hz hlt).2.1 b hb)
  rw [hcode] at hdigit
  revert hdigit
  decide

/-- The text that `Date.parse` gets for such a reading. -/
theorem isoText_eq {c : WallClock} (h : c.InIsoRange) :
    replaceFirst ' ' 'T' (latin (hRTimestampText c))
      = latin (decIntPad 4 (c.tmYear + 1900)) ++ '-' :: (latin (decIntPad 2 (c.tmMon + 1)) ++ '-' ::
        (latin (decIntPad 2 c.tmMday) ++ 'T' :: (latin (decIntPad 2 c.tmHour) ++ ':' ::
        (latin (decIntPad 2 c.tmMin) ++ ':' :: (latin (decIntPad 2 c.tmSec) ++ '.' ::
        (latin (decIntPad 3 c.millis) ++ [])))))) := by
  obtain ⟨hmon, hmday, -, -, -, -⟩ := h.valid
  obtain ⟨hlow, hhigh⟩ := h.year
  have hdate : ' ' ∉ latin (decIntPad 4 (c.tmYear + 1900)) ++ '-' ::
      (latin (decIntPad 2 (c.tmMon + 1)) ++ '-' :: latin (decIntPad 2 c.tmMday)) := by
    simp only [List.mem_append, List.mem_cons, not_or]
    exact ⟨blank_notMem_decIntPad (by decide) hlow (by omega), by decide,
      blank_notMem_decIntPad (by decide) (by omega) (by omega), by decide,
      blank_notMem_decIntPad (by decide) (by omega) (by omega)⟩
  have hreplace := replaceFirst_of_notMem (d := 'T') hdate (latin (decIntPad 2 c.tmHour) ++ ':' ::
    (latin (decIntPad 2 c.tmMin) ++ ':' :: (latin (decIntPad 2 c.tmSec) ++ '.' ::
    (latin (decIntPad 3 c.millis) ++ []))))
  simp only [List.append_assoc, List.cons_append] at hreplace
  rw [hRTimestampText_of_fourDigitYear h.valid h.year, ← hreplace]
  congr 1
  unfold dateText timeText
  simp only [latin, List.map_append, List.map_cons, List.append_nil]
  rfl

/-- The format reads such a reading back. -/
theorem isoDateTime_isoText {c : WallClock} (h : c.InIsoRange) :
    isoDateTime (replaceFirst ' ' 'T' (latin (hRTimestampText c)))
      = some (c.tm, c.millis.toNat) := by
  obtain ⟨⟨hmon, hmon'⟩, ⟨hmday, hmday'⟩, ⟨hhour, hhour'⟩, ⟨hmin, hmin'⟩, ⟨hsec, -⟩,
    ⟨hmillis, hmillis'⟩⟩ := h.valid
  obtain ⟨hlow, hhigh⟩ := h.year
  have hsec' := h.sec
  rw [isoText_eq h]
  unfold isoDateTime
  simp only [bind, Option.bind, fixedChar, if_true,
    fixedNumber_decIntPad (show 0 < 4 by decide)
      (show ((0 : ℕ) : Int) ≤ c.tmYear + 1900 by omega)
      (show c.tmYear + 1900 ≤ ((9999 : ℕ) : Int) by omega) (by decide),
    fixedNumber_decIntPad (show 0 < 2 by decide) (show ((1 : ℕ) : Int) ≤ c.tmMon + 1 by omega)
      (show c.tmMon + 1 ≤ ((12 : ℕ) : Int) by omega) (by decide),
    fixedNumber_decIntPad (show 0 < 2 by decide) (show ((1 : ℕ) : Int) ≤ c.tmMday by omega)
      (show c.tmMday ≤ ((31 : ℕ) : Int) by omega) (by decide),
    fixedNumber_decIntPad (show 0 < 2 by decide) (show ((0 : ℕ) : Int) ≤ c.tmHour by omega)
      (show c.tmHour ≤ ((23 : ℕ) : Int) by omega) (by decide),
    fixedNumber_decIntPad (show 0 < 2 by decide) (show ((0 : ℕ) : Int) ≤ c.tmMin by omega)
      (show c.tmMin ≤ ((59 : ℕ) : Int) by omega) (by decide),
    fixedNumber_decIntPad (show 0 < 2 by decide) (show ((0 : ℕ) : Int) ≤ c.tmSec by omega)
      (show c.tmSec ≤ ((59 : ℕ) : Int) by omega) (by decide),
    fixedNumber_decIntPad (show 0 < 3 by decide) (show ((0 : ℕ) : Int) ≤ c.millis by omega)
      (show c.millis ≤ ((999 : ℕ) : Int) by omega) (by decide)]
  simp only [WallClock.tm, Option.some.injEq, Prod.mk.injEq, Tm.mk.injEq, and_true]
  omega

/-- The days of a year of four digits are few. -/
theorem natAbs_daysFromCivil_lt {year day : Int} (month : Int) (hyear : 0 ≤ year ∧ year ≤ 9999)
    (hday : 1 ≤ day ∧ day ≤ 31) :
    (daysFromCivil year month day).natAbs < 10000000 := by
  unfold daysFromCivil
  dsimp only
  split <;> omega

/-- The time value of a reading of a local clock, in milliseconds since the epoch. -/
def timeValue (env : DateEnv) (c : WallClock) : Int :=
  let t := timegm c.tm * 1000 + c.millis
  t - env.offset t

/-- `Date.parse` reads such a reading. -/
theorem dateParse_isoText (env : DateEnv) {c : WallClock} (h : c.InIsoRange) :
    dateParse env (replaceFirst ' ' 'T' (latin (hRTimestampText c)))
      = some (timeValue env c) := by
  obtain ⟨hmon, hmday, hhour, hmin, hsec, hmillis⟩ := h.valid
  have hdays := natAbs_daysFromCivil_lt (c.tmMon + 1) h.year hmday
  have htime : timegm c.tm = daysFromCivil (c.tmYear + 1900) (c.tmMon + 1) c.tmMday * 86400
      + c.tmHour * 3600 + c.tmMin * 60 + c.tmSec := rfl
  have hoffset := env.offset_lt (timegm c.tm * 1000 + c.millis)
  have hnat : ((c.millis.toNat : ℕ) : Int) = c.millis := Int.toNat_of_nonneg hmillis.1
  unfold dateParse
  rw [isoDateTime_isoText h]
  dsimp only
  rw [hnat]
  unfold timeClip
  rw [if_pos]
  · rfl
  · omega

/-! ### The points -/

/-- A line with a date adds to each group the point of the integer under its key. -/
theorem collectMetricPoints_eq {env : DateEnv} {line timestamp : List Char} {x : Int}
    (hfound : extractString line "timestamp".toList = some timestamp) (hne : timestamp ≠ [])
    (hdate : dateParse env (replaceFirst ' ' 'T' timestamp) = some x) (series : Series)
    (g : PlotGroup) :
    g.points (collectMetricPoints env line series)
      = g.points series ++ pointUnlessNegative x (fun v => g.height v)
          (extractInteger line g.jsonKey.toList) := by
  unfold collectMetricPoints
  rw [hfound]
  dsimp only
  rw [if_neg hne, hdate]
  cases g <;> rfl

/-- An integer that agrees with a flag gives a point exactly when the flag is on. -/
theorem pointUnlessNegative_of_marks {flag : Bool} {z : Int} (h : Marks flag z) (x : Int)
    (scale : Int → ℚ) :
    pointUnlessNegative x scale (some (roundInt z))
      = if flag then [(x, scale (roundInt z))] else [] := by
  cases flag with
  | true =>
      have hnonneg : roundInt z ≥ 0 := roundInt_nonneg h
      rw [pointUnlessNegative, if_pos hnonneg, if_pos rfl]
  | false =>
      have hz : z = -1 := h
      have hround : roundInt (-1) = -1 :=
        (roundInt_eq_self_iff (-1)).mpr (fitsBinary64_of_lt (by decide))
      rw [hz, hround]
      rfl

/-- A record of a snapshot is the sample of its process. -/
theorem sampleOf_of_mem_snapshotRecords {config : Config} {env : SnapshotEnv}
    {w : ApPidWhitelist} {p : ProcessStateInput} (h : p ∈ snapshotRecords config env w) :
    sampleOf env p.pid = some p := by
  rw [snapshotRecords_eq] at h
  obtain ⟨pid, -, hsample⟩ := List.mem_filterMap.mp (List.mem_filter.mp h).1
  have hpid : p.pid = pid := (sameOrigin_of_sampleOf hsample).pid
  rw [hpid]
  exact hsample

/-- The dashboard adds the point of a group exactly when `process_stats` treats the sample as
valid for it. -/
theorem points_collectMetricPoints {config : Config} {env : SnapshotEnv} {w : ApPidWhitelist}
    {p : ProcessStateInput} (hp : p ∈ snapshotRecords config env w)
    (hquote : 34 ∉ p.comm) (hclock : env.wallClock.InIsoRange) {g : PlotGroup}
    (hmarks : Marks (g.flag p) (g.printed p)) {line : List Char}
    (hline : Decodes (jsonLine p) (line ++ ['\n'])) (date : DateEnv) (series : Series) :
    g.points (collectMetricPoints date line series)
      = g.points series
        ++ if g.TreatedAsValid p then
            [(timeValue date env.wallClock, g.height (roundInt (g.printed p)))]
          else [] := by
  have hplain := plainByte_of_mem_snapshotRecords hp
  obtain ⟨comm, state, hcomm, hstate, rfl⟩ := eq_decodedLine hplain hline
  -- The decoder makes no quote out of bytes that are none.
  have hfree : '"' ∉ comm := by
    intro hmem
    exact hquote (hcomm.mem_of_ascii (show (34 : UInt8) < 128 by decide) hmem)
  have htext := hRTimestamp_of_mem_snapshotRecords hp
  have hne : latin p.hRTimestamp ≠ [] := by
    rw [htext, latin, ne_eq, List.map_eq_nil_iff]
    exact hRTimestampText_ne_nil env.wallClock
  have hdate := dateParse_isoText date hclock
  rw [← htext] at hdate
  rw [collectMetricPoints_eq (extractString_decodedLine hplain comm state) hne hdate series g,
    extractInteger_decodedLine hplain hfree hstate (printed_mem_fields p g).1,
    pointUnlessNegative_of_marks hmarks]
  simp only [PlotGroup.treatedAsValid_iff]

/-- Both lines of a sample print -1 for a group when its flag is off, and otherwise a number
that is not negative. So the dashboard adds the point of the group exactly when
`process_stats` treats the sample as valid for it. -/
theorem points_of_validSamples (pageSize gPageSizeKb : Int64) (config : Config)
    (env : SnapshotEnv) (w : ApPidWhitelist)
    (hpage : env.pageSizeKb = initializePageSizeKb pageSize gPageSizeKb)
    (p : ProcessStateInput) (hp : p ∈ snapshotRecords config env w)
    (hfits : ∀ pages, residentPages env p.pid = some pages →
      pages.toInt * env.pageSizeKb.toInt < 2 ^ 63) (g : PlotGroup) :
    (jsonLine p = lineHead p ++ p.comm ++ lineMiddle ++ [p.state] ++ ascii "\","
        ++ (ascii ",").intercalate
            ((recordFields p).map fun f => ascii "\"" ++ ascii f.1 ++ ascii "\":" ++ decInt f.2)
        ++ ascii "\x7d\n" ∧
      (g.jsonKey, g.printed p) ∈ recordFields p) ∧
    (logLine p = logHead p
        ++ (logFields p).flatMap (fun f => ascii " " ++ ascii f.1 ++ ascii "=" ++ decInt f.2)
        ++ ascii "\n" ∧
      (g.logLabel, g.printed p) ∈ logFields p) ∧
    Marks (g.flag p) (g.printed p) ∧
    (34 ∉ p.comm → env.wallClock.InIsoRange →
      ∀ line, Decodes (jsonLine p) (line ++ ['\n']) → ∀ (date : DateEnv) (series : Series),
        g.points (collectMetricPoints date line series)
          = g.points series
            ++ if g.TreatedAsValid p then
                [(timeValue date env.wallClock, g.height (roundInt (g.printed p)))]
              else []) := by
  have hpositive : 0 < env.pageSizeKb.toInt := by
    rw [hpage]
    exact initializePageSizeKb_pos pageSize gPageSizeKb
  have hmarks := marks_of_sampleOf (sampleOf_of_mem_snapshotRecords hp) hpositive hfits g
  obtain ⟨hjson, hlog⟩ := printed_mem_fields p g
  refine ⟨⟨jsonLine_fields p, hjson⟩, ⟨logLine_eq p, hlog⟩, hmarks, ?_⟩
  intro hquote hclock line hline date series
  exact points_collectMetricPoints hp hquote hclock hmarks hline date series

/-- A line with an ASCII name and state is decoded to its characters. -/
theorem decodes_jsonLine {p : ProcessStateInput} (htimestamp : ∀ b ∈ p.hRTimestamp, PlainByte b)
    (hcomm : ∀ b ∈ p.comm, b < 128) (hstate : p.state < 128) :
    ∃ line, Decodes (jsonLine p) (line ++ ['\n']) := by
  refine ⟨latin (lineHead p ++ p.comm ++ lineMiddle ++ [p.state] ++ lineTail p), ?_⟩
  have hascii : ∀ b ∈ jsonLine p, b < 128 := by
    intro b hb
    rw [jsonLine_eq] at hb
    simp only [List.mem_append, List.mem_singleton] at hb
    rcases hb with ((((hb | hb) | hb) | rfl) | hb) | rfl
    · exact (printable_lineHead htimestamp b hb).2
    · exact hcomm b hb
    · exact (printable_lineMiddle b hb).2
    · exact hstate
    · exact (printable_lineTail b hb).2
    · decide
  have hline := decodes_latin hascii
  rw [jsonLine_eq, latin_append _ [10]] at hline
  rw [jsonLine_eq]
  exact hline

/-- A browser one hour east of Greenwich that reads no other format. -/
def eastOneHour : DateEnv := ⟨fun _ => 3600000, fun _ => none, fun _ => by decide⟩

/-- The record of `init` has an RSS and no I/O counters, and the dashboard plots the RSS
alone. -/
theorem points_of_validSamples_init :
    ∃ p ∈ snapshotRecords configDefault initEnv {}, ∃ line,
      Decodes (jsonLine p) (line ++ ['\n']) ∧
      PlotGroup.rss.printed p = 1200 ∧ PlotGroup.read.printed p = -1 ∧
      PlotGroup.rss.points (collectMetricPoints eastOneHour line {})
        = [(1768855661677, PlotGroup.rss.height (roundInt 1200))] ∧
      PlotGroup.read.points (collectMetricPoints eastOneHour line {}) = [] := by
  have hrecords : (snapshotRecords configDefault initEnv {}).map
      (fun p => (p.pid, p.comm, p.state, p.boIsRssValid, p.boIsIoValid))
        = [(1, ascii "init", 83, true, false)] := by
    decide +kernel
  have hprinted : (snapshotRecords configDefault initEnv {}).map
      (fun p => (PlotGroup.rss.printed p, PlotGroup.read.printed p)) = [(1200, -1)] := by
    decide +kernel
  obtain ⟨p, hp⟩ := List.length_eq_one_iff.mp
    ((List.length_map _).symm.trans (congrArg List.length hrecords))
  rw [hp, List.map_singleton, List.cons.injEq, Prod.mk.injEq, Prod.mk.injEq, Prod.mk.injEq,
    Prod.mk.injEq] at hrecords
  rw [hp, List.map_singleton, List.cons.injEq, Prod.mk.injEq] at hprinted
  obtain ⟨⟨hpid, hcomm, hstate, hrssValid, hioValid⟩, -⟩ := hrecords
  obtain ⟨⟨hrss, hread⟩, -⟩ := hprinted
  have hmem : p ∈ snapshotRecords configDefault initEnv {} := by
    rw [hp]
    exact List.mem_singleton_self p
  have hprintable : Printable p.comm := by
    rw [hcomm]
    decide
  obtain ⟨line, hline⟩ := decodes_jsonLine (plainByte_of_mem_snapshotRecords hmem)
    (fun b hb => (hprintable b hb).2) (by rw [hstate]; decide)
  have hclock : initEnv.wallClock.InIsoRange := ⟨by decide, by decide, by decide⟩
  have hvalue : timeValue eastOneHour initEnv.wallClock = 1768855661677 := by decide +kernel
  have hpages : residentPages initEnv p.pid = some 300 := by
    rw [hpid]
    decide +kernel
  have hfits : ∀ pages, residentPages initEnv p.pid = some pages →
      pages.toInt * initEnv.pageSizeKb.toInt < 2 ^ 63 := by
    intro pages h
    rw [hpages, Option.some.injEq] at h
    rw [← h]
    decide
  have hpoints := fun g => (points_of_validSamples 4096 0 configDefault initEnv {} (by decide) p
    hmem hfits g).2.2.2 (by rw [hcomm]; decide) hclock line hline eastOneHour {}
  refine ⟨p, hmem, line, hline, hrss, hread, ?_, ?_⟩
  · rw [hpoints .rss, if_pos ((PlotGroup.treatedAsValid_iff p .rss).mpr hrssValid), hvalue, hrss]
    rfl
  · rw [hpoints .read, if_neg]
    · rfl
    · rw [PlotGroup.treatedAsValid_iff]
      exact ne_true_of_eq_false hioValid

end ProcessAnalyzer
