import ProcessAnalyzer.Lib.Utf8
import ProcessAnalyzer.Model.Snapshot
import ProcessAnalyzer.Proofs.Dashboard

/-!
# `ProcessAnalyzer.Proofs.RecordText`: the text of a JSONL line and what the reader finds

`write_output_to_json` prints a record with the bytes of the process name as they are, and
`records.html` looks the values up again. `recordText` is the text of a line as the
dashboard sees it.

* `latin_line`: the bytes of a line are this text, when the name is UTF-8.
* `extractString_timestamp`, `extractInteger_pid`, `extractString_comm` and
  `extractInteger_field`: what the reader returns for each key. The reader walks over the
  members in front of the key, so a name that ends its own string is in its way.
* `isObject_recordText`: a line with a closed name is a JSON object exactly when the name and
  the state are proper contents of JSON strings.
-/

set_option autoImplicit false

namespace ProcessAnalyzer

open ProcessAnalyzer.Lib ProcessAnalyzer.Dashboard ProcessAnalyzer.Stats

/-! ### Numbers -/

/-- The text of an integer. -/
def intText (z : Int) : List Char := latin (decInt z)

/-- The byte of a digit as a character. -/
theorem isDigit_ofNat {b : UInt8} (h : isDigit b = true) : (Char.ofNat b.toNat).isDigit = true := by
  simp only [isDigit, Bool.and_eq_true, decide_eq_true_eq, UInt8.le_iff_toNat_le,
    UInt8.reduceToNat] at h
  obtain ⟨hlow, hhigh⟩ := h
  interval_cases b.toNat <;> rfl

/-- A digit is an ASCII character. -/
theorem lt_of_isDigit {b : UInt8} (h : isDigit b = true) : b < 128 := by
  simp only [isDigit, Bool.and_eq_true, decide_eq_true_eq, UInt8.le_iff_toNat_le,
    UInt8.reduceToNat] at h
  rw [UInt8.lt_iff_toNat_lt]
  show b.toNat < 128
  omega

/-- The digits of a natural number are its characters. -/
theorem isDigit_latin_decNat (n : ℕ) : ∀ c ∈ latin (decNat n), c.isDigit = true := by
  intro c hc
  obtain ⟨b, hb, rfl⟩ := List.mem_map.mp hc
  exact isDigit_ofNat (isDigit_decNat n b hb)

/-- The text of a natural number has no leading zero. -/
theorem isNatText_decNat (n : ℕ) : Json.IsNatText (latin (decNat n)) := by
  by_cases hn : n = 0
  · left
    rw [hn]
    rfl
  · right
    have hne : Nat.digits 10 n ≠ [] := by simpa [Nat.digits_eq_nil_iff_eq_zero] using hn
    -- The first digit is the last one of `Nat.digits`, which is not zero.
    have hlast := Nat.getLast_digit_ne_zero 10 hn
    have hlt := Nat.digits_lt_base (by decide : 1 < 10) (List.getLast_mem hne)
    have hrev : (Nat.digits 10 n).reverse
        = (Nat.digits 10 n).getLast hne :: (Nat.digits 10 n).dropLast.reverse := by
      conv_lhs => rw [← List.dropLast_append_getLast hne]
      simp
    have htext : latin (decNat n)
        = Char.ofNat (digitByte ((Nat.digits 10 n).getLast hne)).toNat
          :: latin ((Nat.digits 10 n).dropLast.reverse.map digitByte) := by
      rw [decNat, if_neg hn, hrev]
      rfl
    have hdigits := isDigit_latin_decNat n
    rw [htext] at hdigits ⊢
    refine ⟨_, _, rfl, ?_, hdigits _ List.mem_cons_self,
      fun c hc => hdigits c (List.mem_cons_of_mem _ hc)⟩
    generalize (Nat.digits 10 n).getLast hne = d at hlast hlt
    interval_cases d <;> first | exact absurd rfl hlast | decide

/-- The text of an integer is a JSON number. -/
theorem isIntText_intText (z : Int) : Json.IsIntText (intText z) := by
  unfold intText decInt
  split
  · exact .inr ⟨_, rfl, isNatText_decNat _⟩
  · exact .inl (isNatText_decNat _)

/-- The digits are read back. -/
theorem digitsValue_latin {bs : Bytes} (h : ∀ b ∈ bs, b < 128) :
    digitsValue (latin bs) = decValue bs := by
  unfold digitsValue decValue latin
  rw [List.foldl_map]
  refine List.foldl_ext _ _ _ fun acc b hb => ?_
  rw [toNat_ofNat_toNat (h b hb)]

/-- The reader takes the digits up to the end of the number. -/
theorem takeWhile_isDigit_append {ds : List Char} (hds : ∀ c ∈ ds, c.isDigit = true) {c : Char}
    (hc : Json.EndsNumber c) (rest : List Char) :
    (ds ++ c :: rest).takeWhile Char.isDigit = ds := by
  have hstop : (c :: rest).takeWhile Char.isDigit = [] := by
    rcases hc with rfl | rfl <;> rfl
  rw [List.takeWhile_append_of_pos hds, hstop, List.append_nil]

/-- The reader reads an integer back, up to the rounding of `Number`. -/
theorem readInteger_intText (z : Int) {c : Char} (hc : Json.EndsNumber c) (rest : List Char) :
    readInteger (intText z ++ c :: rest) = some (roundInt z) := by
  have hdigits := isDigit_latin_decNat z.natAbs
  have htake := takeWhile_isDigit_append hdigits hc rest
  have hvalue : digitsValue (latin (decNat z.natAbs)) = z.natAbs := by
    rw [digitsValue_latin fun b hb => lt_of_isDigit (isDigit_decNat _ b hb), decValue_decNat]
  have hne : latin (decNat z.natAbs) ≠ [] := by
    simpa [latin] using decNat_ne_nil z.natAbs
  by_cases hz : z < 0
  · have htext : intText z = '-' :: latin (decNat z.natAbs) := by
      rw [intText, decInt, if_pos hz]
      rfl
    have hneg : -(z.natAbs : Int) = z := by omega
    rw [htext, List.cons_append, readInteger]
    simp only [List.head?_cons, List.tail_cons, if_true, htake, hne, if_false, hvalue, hneg]
  · have htext : intText z = latin (decNat z.natAbs) := by
      rw [intText, decInt, if_neg hz]
    have hpos : (z.natAbs : Int) = z := by omega
    -- The first character is a digit, so there is no sign.
    have hhead : (latin (decNat z.natAbs) ++ c :: rest).head? ≠ some '-' := by
      obtain ⟨d, ds, hd, hdigit⟩ := Json.head_of_isNatText (isNatText_decNat z.natAbs)
      rw [hd]
      rintro hminus
      rw [Option.some.inj hminus] at hdigit
      cases hdigit
    rw [htext, readInteger]
    simp only [hhead, if_false, htake, hne, hvalue, hpos]

/-! ### Plain text -/

/-- A byte that stands for itself in a JSON string. -/
def PlainByte (b : UInt8) : Prop := 32 ≤ b ∧ b < 128 ∧ b ≠ 34 ∧ b ≠ 92

/-- An ASCII byte is some character exactly when it has its code. -/
theorem ofNat_toNat_eq_iff {b : UInt8} (h : b < 128) (c : Char) :
    Char.ofNat b.toNat = c ↔ b.toNat = c.toNat := by
  constructor
  · rintro rfl
    exact (toNat_ofNat_toNat h).symm
  · intro hcode
    rw [hcode, Char.ofNat_toNat]

/-- A plain byte as a character. -/
theorem isPlain_ofNat_iff {b : UInt8} (h : b < 128) :
    Json.IsPlain (Char.ofNat b.toNat) ↔ PlainByte b := by
  have hcontrol : (Char.ofNat b.toNat).val < 0x20 ↔ b.toNat < 32 := by
    rw [UInt32.lt_iff_toNat_lt]
    show (Char.ofNat b.toNat).toNat < 32 ↔ _
    rw [toNat_ofNat_toNat h]
  have hquote : b.toNat = '"'.toNat ↔ b = 34 := by rw [← UInt8.toNat_inj]; rfl
  have hbackslash : b.toNat = '\\'.toNat ↔ b = 92 := by rw [← UInt8.toNat_inj]; rfl
  have hlow : 32 ≤ b ↔ ¬ b.toNat < 32 := by
    rw [UInt8.le_iff_toNat_le, not_lt]
    rfl
  unfold Json.IsPlain PlainByte
  rw [ne_eq, ne_eq, ofNat_toNat_eq_iff h, ofNat_toNat_eq_iff h, hcontrol, hquote, hbackslash, hlow]
  tauto

/-- A digit is plain. -/
theorem plainByte_of_isDigit {b : UInt8} (h : isDigit b = true) : PlainByte b := by
  simp only [isDigit, Bool.and_eq_true, decide_eq_true_eq, UInt8.le_iff_toNat_le,
    UInt8.reduceToNat] at h
  refine ⟨?_, lt_of_isDigit (by simp [isDigit, UInt8.le_iff_toNat_le, h]), ?_, ?_⟩
  · rw [UInt8.le_iff_toNat_le]
    show 32 ≤ b.toNat
    omega
  · rintro rfl
    revert h
    decide
  · rintro rfl
    revert h
    decide

/-- The text of an integer is plain. -/
theorem plainByte_of_mem_decInt {z : Int} {b : UInt8} (h : b ∈ decInt z) : PlainByte b := by
  rcases mem_decInt h with rfl | hdigit
  · exact ⟨by decide, by decide, by decide, by decide⟩
  · exact plainByte_of_isDigit hdigit

/-- Plain bytes are plain characters. -/
theorem isPlain_of_mem_latin {bs : Bytes} (h : ∀ b ∈ bs, PlainByte b) :
    ∀ c ∈ latin bs, Json.IsPlain c := by
  intro c hc
  obtain ⟨b, hb, rfl⟩ := List.mem_map.mp hc
  exact (isPlain_ofNat_iff (h b hb).2.1).mpr (h b hb)

/-- There are no quotes in the text of an integer. -/
theorem quote_notMem_intText (z : Int) : '"' ∉ intText z := fun h =>
  (isPlain_of_mem_latin (fun _ => plainByte_of_mem_decInt) _ h).1 rfl

/-- The text of a padded number is plain. -/
theorem plainByte_of_mem_decIntPad {width : ℕ} {z : Int} {b : UInt8}
    (h : b ∈ decIntPad width z) : PlainByte b := by
  unfold decIntPad at h
  simp only [List.mem_append] at h
  rcases h with (hsign | hzeros) | hdigits
  · split at hsign
    · rw [List.mem_singleton.mp hsign]
      exact ⟨by decide, by decide, by decide, by decide⟩
    · cases hsign
  · rw [(List.mem_replicate.mp hzeros).2]
    exact ⟨by decide, by decide, by decide, by decide⟩
  · exact plainByte_of_isDigit (isDigit_decNat _ b hdigits)

/-- The text of the timestamp is plain. -/
theorem plainByte_of_mem_hRTimestampText {clock : WallClock} {b : UInt8}
    (h : b ∈ hRTimestampText clock) : PlainByte b := by
  have hseparator : ∀ {s : Bytes}, (s.all fun c => c == 45 || c == 32 || c == 58 || c == 46) →
      b ∈ s → PlainByte b := by
    intro s hs hb
    have hsep := List.all_eq_true.mp hs b hb
    simp only [Bool.or_eq_true, beq_iff_eq] at hsep
    rcases hsep with ((rfl | rfl) | rfl) | rfl <;>
      exact ⟨by decide, by decide, by decide, by decide⟩
  have hmem := List.mem_of_mem_take h
  simp only [List.mem_append, or_assoc] at hmem
  rcases hmem with h | h | h | h | h | h | h | h | h | h | h | h | h
  all_goals first
    | exact plainByte_of_mem_decIntPad h
    | exact hseparator (by decide) h

/-! ### The text of a line -/

/-- The integer members at the end of a line, with the brace behind the last one. -/
def fieldsText : List (String × Int) → List Char
  | [] => []
  | [(key, z)] => '"' :: (key.toList ++ '"' :: ':' :: (intText z ++ ['\x7d']))
  | (key, z) :: f :: fs =>
      '"' :: (key.toList ++ '"' :: ':' :: (intText z ++ ',' :: fieldsText (f :: fs)))

/-- The text of a line from the string of the state on. -/
def stateText (state : Char) (fields : List (String × Int)) : List Char :=
  '"' :: ("state".toList ++ '"' :: ':' :: '"' :: state :: '"' :: ',' :: fieldsText fields)

/-- The text of a line from the string of the name on. -/
def commText (comm : List Char) (state : Char) (fields : List (String × Int)) : List Char :=
  '"' :: ("comm".toList ++ '"' :: ':' :: '"' :: (comm ++ '"' :: ',' :: stateText state fields))

/-- The text of a line as the dashboard sees it. -/
def recordText (timestamp : List Char) (pid : Int) (comm : List Char) (state : Char)
    (fields : List (String × Int)) : List Char :=
  '\x7b' :: '"' :: ("timestamp".toList ++ '"' :: ':' :: '"' :: (timestamp ++ '"' :: ',' ::
    '"' :: ("pid".toList ++ '"' :: ':' :: (intText pid ++ ',' :: commText comm state fields))))

/-- The integers at the end of a line. -/
def recordFields (p : ProcessStateInput) : List (String × Int) :=
  [("ppid", p.ppid.toInt), ("utime", p.utime.toNat), ("stime", p.stime.toNat),
    ("rss_kb", p.rssKb.toInt), ("io_read_kb", p.readKbytes.toInt64.toInt),
    ("io_write_kb", p.writeKbytes.toInt64.toInt), ("threads", p.threads.toInt),
    ("fds", printedFds p)]

/-- The bytes of a line in front of the name. -/
def lineHead (p : ProcessStateInput) : Bytes :=
  ascii "\x7b\"timestamp\":\"" ++ p.hRTimestamp ++ ascii "\",\"pid\":" ++ decInt p.pid.toInt
    ++ ascii ",\"comm\":\""

/-- The bytes of a line behind the name and in front of the state. -/
def lineMiddle : Bytes := ascii "\",\"state\":\""

/-- The bytes of a line behind the state, without the line feed. -/
def lineTail (p : ProcessStateInput) : Bytes :=
  ascii "\",\"ppid\":" ++ decInt p.ppid.toInt ++ ascii ",\"utime\":" ++ decInt p.utime.toNat
    ++ ascii ",\"stime\":" ++ decInt p.stime.toNat ++ ascii ",\"rss_kb\":" ++ decInt p.rssKb.toInt
    ++ ascii ",\"io_read_kb\":" ++ decInt p.readKbytes.toInt64.toInt
    ++ ascii ",\"io_write_kb\":" ++ decInt p.writeKbytes.toInt64.toInt
    ++ ascii ",\"threads\":" ++ decInt p.threads.toInt
    ++ ascii ",\"fds\":" ++ decInt (printedFds p) ++ ascii "\x7d"

/-- The parts of a line. -/
theorem jsonLine_eq (p : ProcessStateInput) :
    jsonLine p = lineHead p ++ p.comm ++ lineMiddle ++ [p.state] ++ lineTail p ++ [10] := by
  have hnat : ∀ n : ℕ, decNat n = decInt (n : Int) := by
    intro n
    rw [decInt, if_neg (by omega), Int.natAbs_natCast]
  have hbreak : ascii "\x7d\n" = ascii "\x7d" ++ [10] := by decide
  unfold jsonLine lineHead lineMiddle lineTail
  rw [hbreak, hnat p.utime.toNat, hnat p.stime.toNat]
  simp only [List.append_assoc]

/-- The text of a line, from its parts. -/
theorem latin_line (p : ProcessStateInput) (comm : List Char) :
    latin (lineHead p) ++ comm ++ latin lineMiddle ++ latin [p.state] ++ latin (lineTail p)
      = recordText (latin p.hRTimestamp) p.pid.toInt comm (Char.ofNat p.state.toNat)
          (recordFields p) := by
  unfold lineHead lineMiddle lineTail recordText commText stateText recordFields
  simp only [fieldsText, intText, latin_append, List.append_assoc]
  simp [latin, ascii]

/-! ### What the reader finds -/

/-- A key of the format: a word without the characters that separate the members. -/
structure IsWord (key : List Char) : Prop extends IsKey key where
  colon : ':' ∉ key
  comma : ',' ∉ key

/-- `extractInteger` reads the number behind the marker. -/
theorem extractInteger_eq (line key : List Char) :
    extractInteger line key = (after (markerOf key []) line).bind readInteger := by
  show (indexOf (markerOf key []) line).bind (fun start =>
    readInteger (line.drop (start + (markerOf key []).length))) = _
  rw [after]
  cases indexOf (markerOf key []) line <;> rfl

/-- `extractString` reads the string behind the marker. -/
theorem extractString_eq (line key : List Char) :
    extractString line key = (after (markerOf key ['"']) line).bind (readString false) := by
  have hdecode : decodeJsonString = id := funext decodeJsonString_eq
  show (indexOf (markerOf key ['"']) line).bind (fun start =>
    (readString false (line.drop (start + (markerOf key ['"']).length))).map decodeJsonString) = _
  rw [after, hdecode]
  cases indexOf (markerOf key ['"']) line <;> simp

section Walk
variable {key tail : List Char}

/-- What stands between two strings is not a key: it has a colon or a comma. -/
theorem after_separator (hkey : IsWord key) {chunk : List Char} (hchunk : '"' ∉ chunk)
    (hsep : ':' ∈ chunk ∨ ',' ∈ chunk) (rest : List Char) :
    after (markerOf key tail) ('"' :: (chunk ++ '"' :: rest))
      = after (markerOf key tail) ('"' :: rest) := by
  refine after_quoted hkey.toIsKey hchunk fun heq => ?_
  subst heq
  rcases hsep with hcolon | hcomma
  · exact absurd hcolon hkey.colon
  · exact absurd hcomma hkey.comma

/-- The colon in front of a string. -/
theorem after_colon (hkey : IsWord key) (rest : List Char) :
    after (markerOf key tail) ('"' :: ':' :: '"' :: rest)
      = after (markerOf key tail) ('"' :: rest) := by
  show after (markerOf key tail) ('"' :: ([':'] ++ '"' :: rest)) = _
  exact after_separator hkey (by decide) (by decide) rest

/-- The comma in front of a member. -/
theorem after_comma (hkey : IsWord key) (rest : List Char) :
    after (markerOf key tail) ('"' :: ',' :: '"' :: rest)
      = after (markerOf key tail) ('"' :: rest) := by
  show after (markerOf key tail) ('"' :: ([','] ++ '"' :: rest)) = _
  exact after_separator hkey (by decide) (by decide) rest

/-- An integer between two members. -/
theorem after_int (hkey : IsWord key) (z : Int) (rest : List Char) :
    after (markerOf key tail) ('"' :: ':' :: (intText z ++ ',' :: '"' :: rest))
      = after (markerOf key tail) ('"' :: rest) := by
  have hquote : '"' ∉ ':' :: (intText z ++ [',']) := by
    simp [quote_notMem_intText z]
  have h : after (markerOf key tail) ('"' :: ((':' :: (intText z ++ [','])) ++ '"' :: rest)) = _ :=
    after_separator hkey hquote (.inl List.mem_cons_self) rest
  simpa using h

/-- A member with an integer is passed over. -/
theorem after_intMember (hkey : IsWord key) {k : List Char} (hk : '"' ∉ k) (hne : key ≠ k)
    (z : Int) (rest : List Char) :
    after (markerOf key tail) ('"' :: (k ++ '"' :: ':' :: (intText z ++ ',' :: '"' :: rest)))
      = after (markerOf key tail) ('"' :: rest) := by
  rw [after_quoted hkey.toIsKey hk fun h => absurd h hne, after_int hkey]

/-- A member with a string is passed over when the body of the string is. -/
theorem after_stringMember (hkey : IsWord key) {k : List Char} (hk : '"' ∉ k) (hne : key ≠ k)
    {body : List Char}
    (hbody : ∀ rest, after (markerOf key tail) ('"' :: (body ++ '"' :: ',' :: rest))
      = after (markerOf key tail) ('"' :: ',' :: rest)) (rest : List Char) :
    after (markerOf key tail)
        ('"' :: (k ++ '"' :: ':' :: '"' :: (body ++ '"' :: ',' :: '"' :: rest)))
      = after (markerOf key tail) ('"' :: rest) := by
  rw [after_quoted hkey.toIsKey hk fun h => absurd h hne, after_colon hkey, hbody, after_comma hkey]

/-- A body without quotes is passed over. -/
theorem after_quoteFree (hkey : IsWord key) {body : List Char} (hbody : '"' ∉ body)
    (rest : List Char) :
    after (markerOf key tail) ('"' :: (body ++ '"' :: ',' :: rest))
      = after (markerOf key tail) ('"' :: ',' :: rest) :=
  after_quoted hkey.toIsKey hbody fun _ => by simp

/-- The integer members are passed over up to the one with the key. -/
theorem after_fieldsText {key : String} (hkey : IsWord key.toList) {fields : List (String × Int)}
    (hfields : ∀ f ∈ fields, IsWord f.1.toList) {z : Int} (hfind : fields.lookup key = some z) :
    ∃ c rest, Json.EndsNumber c ∧
      after (markerOf key.toList []) (fieldsText fields) = some (intText z ++ c :: rest) := by
  induction fields with
  | nil => cases hfind
  | cons f fields ih =>
      obtain ⟨k, y⟩ := f
      by_cases hk : key = k
      · subst hk
        rw [List.lookup_cons_self] at hfind
        cases hfind
        cases fields with
        | nil => exact ⟨_, [], .inr rfl, after_found _⟩
        | cons f fields => exact ⟨_, _, .inl rfl, after_found _⟩
      · have hrest : fields.lookup key = some z := by
          rw [List.lookup_cons] at hfind
          simpa [beq_eq_false_iff_ne.mpr hk] using hfind
        obtain ⟨c, rest, hc, hafter⟩ := ih (fun f hf => hfields f (List.mem_cons_of_mem _ hf)) hrest
        have hword := hfields (k, y) List.mem_cons_self
        have hne : key.toList ≠ k.toList := fun h => hk (String.toList_inj.mp h)
        cases fields with
        | nil => cases hrest
        | cons f fields =>
            refine ⟨c, rest, hc, ?_⟩
            -- The text of the next member starts with a quote.
            obtain ⟨t, ht⟩ : ∃ t, fieldsText (f :: fields) = '"' :: t := by
              cases fields <;> exact ⟨_, rfl⟩
            rw [fieldsText, ht, after_intMember hkey hword.quote hne, ← ht, hafter]

variable {timestamp comm : List Char} {pid : Int} {state : Char} {fields : List (String × Int)}

/-- The text of a line from the process ID on. -/
def pidText (pid : Int) (comm : List Char) (state : Char) (fields : List (String × Int)) :
    List Char :=
  '"' :: ("pid".toList ++ '"' :: ':' :: (intText pid ++ ',' :: commText comm state fields))

/-- The brace at the beginning is passed over. -/
theorem after_brace (rest : List Char) :
    after (markerOf key tail) ('\x7b' :: rest) = after (markerOf key tail) rest := by
  show after (markerOf key tail) (['\x7b'] ++ rest) = _
  exact after_skip (by decide) rest

/-- The timestamp is passed over. -/
theorem after_recordText (hkey : IsWord key) (hne : key ≠ "timestamp".toList)
    (htimestamp : '"' ∉ timestamp) :
    after (markerOf key tail) (recordText timestamp pid comm state fields)
      = after (markerOf key tail) (pidText pid comm state fields) := by
  rw [recordText, after_brace,
    after_stringMember hkey (by decide) hne (after_quoteFree hkey htimestamp)]
  rfl

/-- The process ID is passed over. -/
theorem after_pidText (hkey : IsWord key) (hne : key ≠ "pid".toList) :
    after (markerOf key tail) (pidText pid comm state fields)
      = after (markerOf key tail) (commText comm state fields) := by
  rw [pidText, commText, after_intMember hkey (by decide) hne]

/-- The name is passed over when it is closed. -/
theorem after_commText (hkey : IsWord key) (hne : key ≠ "comm".toList)
    (hcomm : Closed false comm) :
    after (markerOf key tail) (commText comm state fields)
      = after (markerOf key tail) (stateText state fields) := by
  rw [commText, stateText,
    after_stringMember hkey (by decide) hne (after_body hkey.toIsKey hcomm)]

/-- The state is passed over. -/
theorem after_stateText (hkey : IsWord key) (hne : key ≠ "state".toList) (hstate : state ≠ '"')
    (hfields : fields ≠ []) :
    after (markerOf key tail) (stateText state fields)
      = after (markerOf key tail) (fieldsText fields) := by
  obtain ⟨t, ht⟩ : ∃ t, fieldsText fields = '"' :: t := by
    match fields, hfields with
    | [_], _ => exact ⟨_, rfl⟩
    | _ :: _ :: _, _ => exact ⟨_, rfl⟩
  have hstate' : '"' ∉ [state] := by simpa using hstate.symm
  rw [stateText, ht]
  exact after_stringMember hkey (by decide) hne (after_quoteFree hkey hstate') t

/-! ### The values that are read -/

/-- The timestamp is read back. -/
theorem extractString_timestamp (htimestamp : Closed false timestamp) :
    extractString (recordText timestamp pid comm state fields) "timestamp".toList
      = some timestamp := by
  rw [extractString_eq, recordText, after_brace]
  -- The quote behind the colon belongs to the marker of a string.
  show (after (markerOf "timestamp".toList ['"'])
    ('"' :: ("timestamp".toList ++ '"' :: ':' :: (['"'] ++ (timestamp ++ '"' :: _))))).bind _ = _
  rw [after_found, Option.bind_some, readString_eq_iff_closed]
  exact htimestamp

/-- The process ID is read back, up to the rounding of `Number`. -/
theorem extractInteger_pid (htimestamp : '"' ∉ timestamp) :
    extractInteger (recordText timestamp pid comm state fields) "pid".toList
      = some (roundInt pid) := by
  have hkey : IsWord "pid".toList := ⟨⟨by decide, by decide⟩, by decide, by decide⟩
  rw [extractInteger_eq, after_recordText hkey (by decide) htimestamp, pidText]
  show (after (markerOf "pid".toList [])
    ('"' :: ("pid".toList ++ '"' :: ':' :: ([] ++ (intText pid ++ ',' :: _))))).bind _ = _
  rw [after_found, Option.bind_some, readInteger_intText pid (.inl rfl)]

/-- The name is read back exactly when it is closed. -/
theorem extractString_comm (htimestamp : '"' ∉ timestamp) :
    extractString (recordText timestamp pid comm state fields) "comm".toList = some comm ↔
      Closed false comm := by
  have hkey : IsWord "comm".toList := ⟨⟨by decide, by decide⟩, by decide, by decide⟩
  rw [extractString_eq, after_recordText hkey (by decide) htimestamp,
    after_pidText hkey (by decide), commText]
  show (after (markerOf "comm".toList ['"'])
    ('"' :: ("comm".toList ++ '"' :: ':' :: (['"'] ++ (comm ++ '"' :: _))))).bind _ = _ ↔ _
  rw [after_found, Option.bind_some, readString_eq_iff_closed]

/-- An integer member is read back, up to the rounding of `Number`. -/
theorem extractInteger_field {key : String} (hkey : IsWord key.toList)
    (hne : key.toList ∉ ["timestamp".toList, "pid".toList, "comm".toList, "state".toList])
    (htimestamp : '"' ∉ timestamp) (hcomm : Closed false comm) (hstate : state ≠ '"')
    (hfields : ∀ f ∈ fields, IsWord f.1.toList) {z : Int} (hfind : fields.lookup key = some z) :
    extractInteger (recordText timestamp pid comm state fields) key.toList = some (roundInt z) := by
  simp only [List.mem_cons, List.not_mem_nil, or_false, not_or] at hne
  have hnil : fields ≠ [] := by
    rintro rfl
    cases hfind
  obtain ⟨c, rest, hc, hafter⟩ := after_fieldsText hkey hfields hfind
  rw [extractInteger_eq, after_recordText hkey hne.1 htimestamp, after_pidText hkey hne.2.1,
    after_commText hkey hne.2.2.1 hcomm, after_stateText hkey hne.2.2.2 hstate hnil, hafter,
    Option.bind_some, readInteger_intText z hc]

end Walk

/-! ### The grammar -/

section Grammar
variable {timestamp comm : List Char} {pid : Int} {state : Char} {fields : List (String × Int)}

/-- The integer members are the rest of an object. -/
theorem members_fieldsText (hne : fields ≠ [])
    (hkeys : ∀ f ∈ fields, Json.isStringBody f.1.toList = true) (fuel : ℕ) :
    Json.members (fuel + fields.length + 1) (fieldsText fields) = some [] := by
  -- By induction on the fields. The last one is followed by the brace, the others by a comma.
  induction fields with
  | nil => exact absurd rfl hne
  | cons f fields ih =>
      obtain ⟨key, z⟩ := f
      have hkey := hkeys (key, z) List.mem_cons_self
      cases fields with
      | nil =>
          show Json.members (fuel + 2) _ = _
          rw [fieldsText, Json.members_int hkey (isIntText_intText z) (.inr rfl),
            Json.afterValue_close]
      | cons g fields =>
          obtain ⟨t, ht⟩ : ∃ t, fieldsText (g :: fields) = '"' :: t := by
            cases fields <;> exact ⟨_, rfl⟩
          show Json.members (fuel + (g :: fields).length + 2) _ = _
          rw [fieldsText, Json.members_int hkey (isIntText_intText z) (.inl rfl), ht,
            Json.afterValue_comma, ← ht]
          exact ih (by simp) fun f hf => hkeys f (List.mem_cons_of_mem _ hf)

/-- The string of a plain state is followed by the integer members. -/
theorem members_stateText {t : List Char} (hfields : fieldsText fields = '"' :: 'p' :: t)
    (hkeys : ∀ f ∈ fields, Json.isStringBody f.1.toList = true) (hplain : Json.IsPlain state)
    (fuel : ℕ) :
    Json.members (fuel + fields.length + 2) (stateText state fields) = some [] := by
  have hne : fields ≠ [] := by
    rintro rfl
    cases hfields
  have hbody : Json.isStringBody [state] = true :=
    Json.isStringBody_of_isPlain fun c hc => List.mem_singleton.mp hc ▸ hplain
  have hstring : Json.string .plain (state :: '"' :: ',' :: fieldsText fields) = _ :=
    Json.string_append hbody _
  rw [stateText, Json.members_string (by decide), hstring, Option.bind_some, hfields,
    Json.afterValue_comma, ← hfields]
  exact members_fieldsText hne hkeys fuel

/-- A state that is not plain breaks the object: a quote ends the string at once, a backslash
takes the closing quote with it, so that the string ends in front of the next key, and a
control character may not stand in a string. -/
theorem members_stateText_eq_none {t : List Char} (hfields : fieldsText fields = '"' :: 'p' :: t)
    (hplain : ¬ Json.IsPlain state) (fuel : ℕ) :
    Json.members (fuel + 2) (stateText state fields) = none := by
  rw [stateText, Json.members_string (by decide), hfields]
  by_cases hquote : state = '"'
  · subst hquote
    rfl
  · by_cases hbackslash : state = '\\'
    · subst hbackslash
      rfl
    · have hcontrol : state.val < 0x20 := by
        by_contra hcontrol
        exact hplain ⟨hquote, hbackslash, hcontrol⟩
      simp [Json.string, Json.StringState.next, hquote, hbackslash, hcontrol]

/-- A closed name is followed by the member of the state exactly when it is the body of a
JSON string. -/
theorem members_commText (hcomm : Closed false comm) (fuel : ℕ) :
    Json.members (fuel + 2) (commText comm state fields)
      = if Json.isStringBody comm = true then
          Json.members (fuel + 1) (stateText state fields) else none := by
  have hstart : false = true ↔ Json.StringState.plain = .escape := by simp
  have hstring : _ = if Json.isStringBody comm = true then some _ else none :=
    string_of_closed hstart hcomm (',' :: stateText state fields)
  rw [commText, Json.members_string (by decide), hstring]
  by_cases hbody : Json.isStringBody comm = true
  · rw [if_pos hbody, if_pos hbody]
    exact Json.afterValue_comma _ _
  · rw [if_neg hbody, if_neg hbody]
    rfl

/-- The members in front of the name. -/
theorem members_recordText (htimestamp : Json.isStringBody timestamp = true) (fuel : ℕ) :
    Json.members (fuel + 4) (recordText timestamp pid comm state fields).tail
      = Json.members (fuel + 2) (commText comm state fields) := by
  rw [recordText, List.tail_cons, Json.members_string (by decide), Json.string_append htimestamp,
    Option.bind_some, Json.afterValue_comma,
    Json.members_int (by decide) (isIntText_intText pid) (.inl rfl)]
  exact Json.afterValue_comma _ _

/-- A line with a closed name is a JSON object exactly when its name and its state are
proper contents of strings. -/
theorem isObject_recordText (htimestamp : Json.isStringBody timestamp = true)
    (hcomm : Closed false comm) {t : List Char} (hfields : fieldsText fields = '"' :: 'p' :: t)
    (hkeys : ∀ f ∈ fields, Json.isStringBody f.1.toList = true)
    (hlength : fields.length ≤ (fieldsText fields).length) :
    Json.isObject (recordText timestamp pid comm state fields) = true ↔
      Json.isStringBody comm = true ∧ Json.IsPlain state := by
  -- One unit of fuel per character is more than one per member.
  obtain ⟨fuel, hfuel⟩ : ∃ fuel,
      (recordText timestamp pid comm state fields).length = fuel + fields.length + 5 := by
    refine ⟨(recordText timestamp pid comm state fields).length - fields.length - 5, ?_⟩
    simp only [recordText, commText, stateText, List.length_cons, List.length_append]
    omega
  have hobject : Json.isObject (recordText timestamp pid comm state fields) = true ↔
      (Json.members (fuel + fields.length + 5)
        (recordText timestamp pid comm state fields).tail).map Json.skip = some [] := by
    rw [Json.isObject, hfuel]
    exact decide_eq_true_iff
  rw [hobject, members_recordText htimestamp, members_commText hcomm]
  by_cases hbody : Json.isStringBody comm = true
  · rw [if_pos hbody]
    by_cases hplain : Json.IsPlain state
    · have hrest := members_stateText hfields hkeys hplain fuel
      rw [hrest]
      exact ⟨fun _ => ⟨hbody, hplain⟩, fun _ => rfl⟩
    · rw [members_stateText_eq_none hfields hplain]
      exact iff_of_false (by simp) fun h => hplain h.2
  · rw [if_neg hbody]
    exact iff_of_false (by simp) fun h => hbody h.1

end Grammar

end ProcessAnalyzer
