import Mathlib.Data.List.TakeWhile
import ProcessAnalyzer.Model.MetricsPage
import ProcessAnalyzer.Proofs.MetricsJson
import ProcessAnalyzer.Proofs.RecordText

/-!
# `ProcessAnalyzer.Proofs.MetricsPage`: the page shows the report

The report is printed without escapes, so what `index.html` makes of it depends on the texts in
it: the names of the processes and of the host. `Proofs.MetricsJson` has the tokens of the file
with the texts left open, and `ProcessAnalyzer.Lib.JsonText` fills them in.

* `isNumeral_int`, `isNumeral_real`: a printed number is read back, a fraction as it was rounded.
* `decode_fileBytes`: the bytes of the file are decoded piece by piece.
* `parse_file`: the value that `JSON.parse` makes of a file whose texts have no quotes and
  backslashes, if they have no control characters either.
* `renderDashboard_report`: what `renderDashboard` makes of that value.
* `dashboard_loads_iff`: such a file can be loaded if and only if it has no control character in a
  text, and otherwise nothing changes on the page.
* `dashboard_shows_report`: a file that is loaded shows for every metric the rows of its block.
-/

set_option autoImplicit false

namespace ProcessAnalyzer.Stats

open ProcessAnalyzer.Lib ProcessAnalyzer.Lib.JsonTokens ProcessAnalyzer.Lib.JsonText

/-! ### Numbers in the file -/

/-- The text of a part as the browser decodes it. -/
def JsonPiece.decoded (p : JsonPiece) : List Char := decode p.print

/-- The number that a part prints. -/
def JsonPiece.printed : JsonPiece → ℚ
  | .int z => z
  | .real q decimals => (if q < 0 then -1 else 1) * (fixedDigits decimals q / 10 ^ decimals)
  | _ => 0

/-- The number that is read for a part: the binary64 number nearest to the printed one. -/
def JsonPiece.number (p : JsonPiece) : ℚ := roundRat p.printed

/-- Integers of at most 53 bits are read as they were printed. -/
theorem number_int {z : Int} (h : z.natAbs < 2 ^ 53) : (JsonPiece.int z).number = z := by
  show roundRat (z : ℚ) = z
  rw [roundRat_intCast, (roundInt_eq_self_iff z).mpr (fitsBinary64_of_lt h)]

theorem number_int32 (z : Int32) : (JsonPiece.int z.toInt).number = z.toInt := by
  have hlt := z.toInt_lt
  have hle := z.le_toInt
  exact number_int (by omega)

theorem number_uint32 (n : UInt32) :
    (JsonPiece.int n.toNat).number = ((n.toNat : Int) : ℚ) := by
  have hlt := n.toNat_lt
  exact number_int (by omega)

/-- ASCII bytes are decoded one by one. -/
theorem decode_ascii {bs : Bytes} (h : ∀ b ∈ bs, b < 128) : decode bs = latin bs := by
  conv_lhs => rw [← utf8_latin h]
  exact decode_utf8 _

theorem natValue_latin {bs : Bytes} (h : ∀ b ∈ bs, b < 128) :
    natValue (latin bs) = decValue bs := digitsValue_latin h

theorem decValue_append (xs ys : Bytes) :
    decValue (xs ++ ys) = decValue xs * 10 ^ ys.length + decValue ys := by
  induction ys using List.reverseRecOn with
  | nil => simp [decValue]
  | append_singleton ys y ih =>
      unfold decValue at ih ⊢
      rw [← List.append_assoc, List.foldl_append, ih, List.foldl_append, List.length_append,
        List.length_singleton, Nat.pow_succ]
      simp only [List.foldl_cons, List.foldl_nil]
      ring

/-- The integer part of a numeral is read up to the first character that is no digit. -/
theorem unsignedNumeral_append {int : List Char} (h : Json.IsNatText int) {rest : List Char}
    (hrest : ∀ c r, rest = c :: r → c.isDigit = false) :
    unsignedNumeral (int ++ rest)
      = (fractionDigits rest).bind fun (frac, rest) =>
          (exponentValue rest).map fun e =>
            (natValue (int ++ frac) : ℚ) * 10 ^ (e - (frac.length : Int)) := by
  have hdigits : ∀ c ∈ int, c.isDigit = true := by
    rcases h with rfl | ⟨d, ds, rfl, -, hd, hds⟩
    · exact List.forall_mem_singleton.mpr rfl
    · exact List.forall_mem_cons.mpr ⟨hd, hds⟩
  have htake : (int ++ rest).takeWhile Char.isDigit = int := by
    rw [List.takeWhile_append_of_pos hdigits]
    cases rest with
    | nil => rw [List.takeWhile_nil, List.append_nil]
    | cons c r =>
        rw [List.takeWhile_cons_of_neg (by rw [hrest c r rfl]; decide), List.append_nil]
  have hdrop : (int ++ rest).dropWhile Char.isDigit = rest := by
    rw [List.dropWhile_append_of_pos hdigits]
    cases rest with
    | nil => rfl
    | cons c r => rw [List.dropWhile_cons_of_neg (by rw [hrest c r rfl]; decide)]
  have hshape : int = ['0'] ∨ (int ≠ [] ∧ int.head? ≠ some '0') := by
    rcases h with rfl | ⟨d, ds, rfl, hd, -, -⟩
    · exact Or.inl rfl
    · exact Or.inr ⟨List.cons_ne_nil d ds, fun heq => hd (Option.some.inj heq)⟩
  unfold unsignedNumeral
  simp only [htake, hdrop]
  rw [if_pos hshape]

/-- A numeral with or without a sign. -/
theorem isNumeral_of_unsigned {s : List Char} {q : ℚ} (hchars : ∀ c ∈ s, isNumberChar c = true)
    (hhead : ∃ d ds, s = d :: ds ∧ d.isDigit = true) (h : unsignedNumeral s = some q) :
    IsNumeral s (roundRat q) ∧ IsNumeral ('-' :: s) (roundRat (-q)) := by
  obtain ⟨d, ds, rfl, hd⟩ := hhead
  have hnumeral : numeral (d :: ds) = some q := by
    rw [numeral]
    · exact h
    · rintro r hr
      rw [(List.cons.inj hr).1] at hd
      cases hd
  have hminus : numeral ('-' :: d :: ds) = some (-q) := by
    rw [numeral, h]
    rfl
  exact ⟨⟨hchars, ⟨d, ds, rfl, Or.inl hd⟩, congrArg (Option.map roundRat) hnumeral⟩,
    ⟨List.forall_mem_cons.mpr ⟨rfl, hchars⟩, ⟨'-', _, rfl, Or.inr rfl⟩,
      congrArg (Option.map roundRat) hminus⟩⟩

theorem isNumberChar_of_isDigit {c : Char} (h : c.isDigit = true) : isNumberChar c = true := by
  unfold isNumberChar
  rw [h]
  rfl

/-- The text of a natural number is its numeral. -/
theorem unsignedNumeral_decNat (n : ℕ) : unsignedNumeral (latin (decNat n)) = some (n : ℚ) := by
  have h := unsignedNumeral_append (isNatText_decNat n)
    (show ∀ c r, ([] : List Char) = c :: r → c.isDigit = false by simp)
  have hvalue : natValue (latin (decNat n)) = n := by
    rw [natValue_latin fun b hb => lt_of_isDigit (isDigit_decNat n b hb), decValue_decNat]
  rw [List.append_nil] at h
  rw [h]
  simp [fractionDigits, exponentValue, hvalue]

/-- A printed integer is read back. -/
theorem isNumeral_int (z : Int) :
    (∀ b ∈ decInt z, b < 128) ∧
      IsNumeral (JsonPiece.int z).decoded (JsonPiece.int z).number := by
  have hdigits := isDigit_latin_decNat z.natAbs
  have hboth := isNumeral_of_unsigned (fun c hc => isNumberChar_of_isDigit (hdigits c hc))
    (Json.head_of_isNatText (isNatText_decNat z.natAbs)) (unsignedNumeral_decNat z.natAbs)
  have hascii : ∀ b ∈ decInt z, b < 128 := by
    intro b hb
    rcases mem_decInt hb with rfl | hb
    · decide
    · exact lt_of_isDigit hb
  refine ⟨hascii, ?_⟩
  show IsNumeral (decode (decInt z)) (roundRat z)
  rw [decode_ascii hascii]
  unfold decInt
  split
  · rename_i hz
    have hvalue : (z : ℚ) = -((z.natAbs : ℕ) : ℚ) := by
      have habs : z = -(z.natAbs : Int) := by omega
      have hcast : (z : ℚ) = ((-(z.natAbs : Int) : Int) : ℚ) := congrArg _ habs
      rw [hcast, Int.cast_neg, Int.cast_natCast]
    rw [hvalue]
    exact hboth.2
  · rename_i hz
    have hvalue : (z : ℚ) = ((z.natAbs : ℕ) : ℚ) := by
      have habs : z = (z.natAbs : Int) := by omega
      conv_lhs => rw [habs]
      rfl
    rw [hvalue]
    exact hboth.1

/-- The digits of a fraction, in front of the point and behind it. -/
theorem unsignedNumeral_decFixed (n : ℕ) {decimals : ℕ} (hd : 0 < decimals) :
    unsignedNumeral (latin (decNat (n / 10 ^ decimals)
        ++ 46 :: decIntPad decimals ((n % 10 ^ decimals : ℕ) : Int)))
      = some ((n : ℚ) / 10 ^ decimals) := by
  have hlt : n % 10 ^ decimals < 10 ^ decimals := Nat.mod_lt _ (Nat.pow_pos (by decide))
  obtain ⟨hlen, hfrac, hvalue⟩ := decIntPad_spec hd
    (Int.natCast_nonneg (n % 10 ^ decimals)) (by exact_mod_cast hlt)
  set frac := decIntPad decimals ((n % 10 ^ decimals : ℕ) : Int)
  have hlatin : (latin frac).length = decimals := by rw [latin, List.length_map, hlen]
  have hfracChars : ∀ c ∈ latin frac, c.isDigit = true := by
    intro c hc
    obtain ⟨b, hb, rfl⟩ := List.mem_map.mp hc
    exact isDigit_ofNat (hfrac b hb)
  have hnumber : natValue (latin (decNat (n / 10 ^ decimals)) ++ latin frac) = n := by
    have hmod : decValue frac = n % 10 ^ decimals := by exact_mod_cast hvalue
    rw [← latin_append, natValue_latin, decValue_append, decValue_decNat, hlen, hmod, Nat.mul_comm]
    · exact Nat.div_add_mod n (10 ^ decimals)
    · intro b hb
      rcases List.mem_append.mp hb with hb | hb
      · exact lt_of_isDigit (isDigit_decNat _ b hb)
      · exact lt_of_isDigit (hfrac b hb)
  have hfraction : fractionDigits ('.' :: latin frac) = some (latin frac, []) := by
    have htake : (latin frac).takeWhile Char.isDigit = latin frac :=
      List.takeWhile_eq_self_iff.mpr hfracChars
    have hdrop : (latin frac).dropWhile Char.isDigit = [] :=
      List.dropWhile_eq_nil_iff.mpr hfracChars
    have hne : latin frac ≠ [] := List.ne_nil_of_length_pos (by omega)
    rw [fractionDigits, htake, hdrop, if_neg hne]
  rw [latin_append]
  show unsignedNumeral (latin (decNat (n / 10 ^ decimals)) ++ '.' :: latin frac) = _
  rw [unsignedNumeral_append (isNatText_decNat _)
    (fun c r hr => by rw [← (List.cons.inj hr).1]; rfl), hfraction]
  simp only [Option.bind_some, exponentValue, Option.map_some, hnumber, hlatin, zero_sub,
    zpow_neg, zpow_natCast]
  rw [div_eq_mul_inv]

/-- The bytes of a printed fraction behind its sign. -/
theorem isNumeral_fixed (n decimals : ℕ) :
    let s := latin (decNat (n / 10 ^ decimals)
      ++ if decimals = 0 then [] else 46 :: decIntPad decimals ((n % 10 ^ decimals : ℕ) : Int))
    IsNumeral s (roundRat ((n : ℚ) / 10 ^ decimals)) ∧
      IsNumeral ('-' :: s) (roundRat (-((n : ℚ) / 10 ^ decimals))) := by
  intro s
  have hint := isDigit_latin_decNat (n / 10 ^ decimals)
  obtain ⟨d, ds, heq, hdigit⟩ := Json.head_of_isNatText (isNatText_decNat (n / 10 ^ decimals))
  have hhead : ∃ d ds, s = d :: ds ∧ d.isDigit = true := by
    refine ⟨d, ds ++ latin (if decimals = 0 then []
      else 46 :: decIntPad decimals ((n % 10 ^ decimals : ℕ) : Int)), ?_, hdigit⟩
    rw [show s = latin _ from rfl, latin_append, heq]
    rfl
  have hchars : ∀ c ∈ s, isNumberChar c = true := by
    intro c hc
    rw [show s = latin _ from rfl, latin_append] at hc
    rcases List.mem_append.mp hc with hc | hc
    · exact isNumberChar_of_isDigit (hint c hc)
    · split at hc
      · cases hc
      · rename_i hd
        have hlt : n % 10 ^ decimals < 10 ^ decimals := Nat.mod_lt _ (Nat.pow_pos (by decide))
        obtain ⟨-, hfrac, -⟩ := decIntPad_spec (Nat.pos_of_ne_zero hd)
          (Int.natCast_nonneg (n % 10 ^ decimals)) (by exact_mod_cast hlt)
        obtain ⟨b, hb, rfl⟩ := List.mem_map.mp hc
        rcases List.mem_cons.mp hb with rfl | hb
        · rfl
        · exact isNumberChar_of_isDigit (isDigit_ofNat (hfrac b hb))
  refine isNumeral_of_unsigned hchars hhead ?_
  by_cases hd : decimals = 0
  · subst hd
    have htext : s = latin (decNat n) := by
      show latin (decNat (n / 10 ^ 0) ++ []) = _
      rw [List.append_nil, pow_zero, Nat.div_one]
    rw [htext, unsignedNumeral_decNat, pow_zero, div_one]
  · have htext : s = latin (decNat (n / 10 ^ decimals)
        ++ 46 :: decIntPad decimals ((n % 10 ^ decimals : ℕ) : Int)) := by
      show latin (_ ++ if decimals = 0 then _ else _) = _
      rw [if_neg hd]
    rw [htext]
    exact unsignedNumeral_decFixed n (Nat.pos_of_ne_zero hd)

/-- A character of a numeral is ASCII. -/
theorem lt_of_isNumberChar {b : UInt8} (h : isNumberChar (Char.ofNat b.toNat) = true) :
    b < 128 := by
  by_contra hb
  have hlarge : 128 ≤ b.toNat := Nat.not_lt.mp hb
  have hlt := b.toNat_lt
  revert h
  interval_cases b.toNat <;> decide

/-- A printed fraction is read back, as it was rounded. -/
theorem isNumeral_real (q : ℚ) (decimals : ℕ) :
    (∀ b ∈ decFixed decimals q, b < 128) ∧
      IsNumeral (JsonPiece.real q decimals).decoded (JsonPiece.real q decimals).number := by
  have hfixed := isNumeral_fixed (fixedDigits decimals q) decimals
  have hlatin : IsNumeral (latin (decFixed decimals q)) (JsonPiece.real q decimals).number := by
    unfold decFixed JsonPiece.number JsonPiece.printed
    simp only
    split
    · rw [neg_one_mul]
      exact hfixed.2
    · rw [one_mul]
      exact hfixed.1
  have hascii : ∀ b ∈ decFixed decimals q, b < 128 := fun b hb =>
    lt_of_isNumberChar (hlatin.chars _ (List.mem_map_of_mem hb))
  refine ⟨hascii, ?_⟩
  show IsNumeral (decode (decFixed decimals q)) _
  rw [decode_ascii hascii]
  exact hlatin

/-! ### The text of the file -/

/-- The bytes of one unit of the file. -/
def atomBytes : Atom JsonPiece → Bytes
  | .char c => String.utf8EncodeChar c
  | .word p => p.print
  | .num p => p.print

theorem flatMap_atomBytes (p : JsonPiece) : (pieceAtoms p).flatMap atomBytes = p.print := by
  cases p with
  | text s =>
      show (s.toList.map Atom.char).flatMap atomBytes = utf8 s.toList
      rw [List.flatMap_map]
      rfl
  | str s => exact List.append_nil _
  | chr c => rfl
  | int z => exact List.append_nil _
  | real q decimals => exact List.append_nil _

theorem fileBytes_eq (pieces : List JsonPiece) :
    fileBytes pieces = (fileAtoms pieces).flatMap atomBytes := by
  induction pieces with
  | nil => rfl
  | cons p ps ih =>
      rw [fileAtoms_cons, List.flatMap_append, flatMap_atomBytes, ← ih]
      rfl

/-- Where every hole is closed by an ASCII character, the text is decoded unit by unit. -/
theorem decode_atoms {atoms : List (Atom JsonPiece)} (h : closed atoms = true)
    (hnums : ∀ p, .num p ∈ atoms → ∀ b ∈ p.print, b < 128) :
    decode (atoms.flatMap atomBytes) = fill JsonPiece.decoded atoms := by
  induction atoms with
  | nil => rfl
  | cons a atoms ih =>
      have hnums' : ∀ p, .num p ∈ atoms → ∀ b ∈ p.print, b < 128 :=
        fun p hp => hnums p (List.mem_cons_of_mem a hp)
      cases a with
      | char c =>
          show decode (String.utf8EncodeChar c ++ atoms.flatMap atomBytes)
            = c :: fill JsonPiece.decoded atoms
          rw [decode_char_append, ih h hnums']
      | word p =>
          obtain _ | ⟨_ | _ | _, rest⟩ := atoms <;> simp only [closed, Bool.false_eq_true] at h
          rename_i c
          rw [Bool.and_eq_true, beq_iff_eq] at h
          obtain ⟨rfl, hrest⟩ := h
          have htail := ih hrest hnums'
          show decode (p.print ++ 34 :: rest.flatMap atomBytes) = decode p.print ++ _
          rw [decode_append_ascii _ (by decide)]
          exact congrArg _ htail
      | num p =>
          obtain _ | ⟨_ | _ | _, rest⟩ := atoms <;> simp only [closed, Bool.false_eq_true] at h
          rw [Bool.and_eq_true] at h
          have htail := ih h.2 hnums'
          have hascii := hnums p List.mem_cons_self
          show decode (p.print ++ List.flatMap atomBytes (_ :: rest)) = decode p.print ++ _
          rw [← utf8_latin hascii, decode_utf8_append, decode_utf8, htail]
          rfl

/-! ### The texts of the file -/

/-- The text that a part copies into the file. -/
def JsonPiece.copied : JsonPiece → Option Bytes
  | .str s => some s
  | .chr c => some [c]
  | _ => none

/-- The texts that are copied into the file. -/
def fileTexts (pieces : List JsonPiece) : List Bytes := pieces.filterMap JsonPiece.copied

/-- No control characters. -/
def controlFree (s : Bytes) : Bool := s.all (32 ≤ ·)

/-- An ASCII byte is an ASCII character of the text. -/
theorem mem_decode_of_ascii {bs : Bytes} {text : List Char} (h : Decodes bs text) {a : UInt8}
    (ha : a < 128) (hmem : a ∈ bs) : Char.ofNat a.toNat ∈ text := by
  induction h with
  | nil => cases hmem
  | ascii hb h ih =>
      rcases List.mem_cons.mp hmem with rfl | hmem
      · exact List.mem_cons_self
      · exact List.mem_cons_of_mem _ (ih hmem)
  | other hb hds h ih =>
      rcases List.mem_cons.mp hmem with rfl | hmem
      · exact absurd ha hb
      · exact List.mem_append_right _ (ih hmem)

/-- The control characters of a text are its control bytes. -/
theorem plainText_decode (s : Bytes) : plainText (decode s) = controlFree s := by
  have hdecodes := (decodes_decodeFrom s).1
  rw [Bool.eq_iff_iff]
  unfold plainText controlFree
  simp only [List.all_eq_true, decide_eq_true_eq, Bool.not_eq_true', decide_eq_false_iff_not]
  constructor
  · intro h b hb
    by_contra hlt
    have hsmall : b.toNat < 32 := Nat.not_le.mp hlt
    have hascii : b < 128 := Nat.lt_trans hsmall (by decide)
    refine h _ (mem_decode_of_ascii hdecodes hascii hb) ?_
    show (Char.ofNat b.toNat).val.toNat < 32
    rw [show (Char.ofNat b.toNat).val.toNat = b.toNat from toNat_ofNat_toNat hascii]
    exact hsmall
  · intro h c hc hlt
    have hsmall : c.toNat < 32 := hlt
    have hbyte : (UInt8.ofNat c.toNat).toNat = c.toNat := by
      rw [UInt8.toNat_ofNat']
      omega
    have hascii : UInt8.ofNat c.toNat < 128 := by
      show (UInt8.ofNat c.toNat).toNat < 128
      omega
    have hchar : Char.ofNat (UInt8.ofNat c.toNat).toNat = c := by
      rw [hbyte]
      exact Char.ofNat_toNat c
    have hmem := hdecodes.mem_of_ascii hascii (hchar.symm ▸ hc)
    have hle : 32 ≤ (UInt8.ofNat c.toNat).toNat := h _ hmem
    omega

/-- A literal is its own text. -/
theorem fill_literal (text : JsonPiece → List Char) (s : String) :
    fill text (literal s) = s.toList := by
  unfold fill literal
  rw [List.flatMap_map]
  exact List.flatMap_singleton' s.toList

theorem fill_word (text : JsonPiece → List Char) (p : JsonPiece) :
    fill text [.word p] = text p := List.append_nil _

/-- The tokens of values, with commas between them. -/
theorem all_separated (xs : List (List (Token JsonPiece))) :
    (separated xs).all (plainToken JsonPiece.decoded)
      = xs.all fun x => x.all (plainToken JsonPiece.decoded) := by
  cases xs with
  | nil => rfl
  | cons x xs =>
      rw [separated_cons, List.all_append, List.all_cons, List.all_flatMap]
      rfl

theorem all_arr (items : List (JsonTree JsonPiece)) :
    (JsonTree.arr items).tokens.all (plainToken JsonPiece.decoded)
      = items.all fun t => t.tokens.all (plainToken JsonPiece.decoded) := by
  rw [JsonTree.tokens, itemTokens_eq]
  show ((separated _ ++ [Token.rbracket]).all _) = _
  rw [List.all_append, all_separated, List.all_map]
  exact Bool.and_true _

theorem all_obj (items : List (List (Atom JsonPiece) × JsonTree JsonPiece)) :
    (JsonTree.obj items).tokens.all (plainToken JsonPiece.decoded)
      = items.all fun m => plainText (fill JsonPiece.decoded m.1)
          && m.2.tokens.all (plainToken JsonPiece.decoded) := by
  rw [JsonTree.tokens, memberTokens_eq]
  show ((separated _ ++ [Token.rbrace]).all _) = _
  rw [List.all_append, all_separated, List.all_map]
  exact Bool.and_true _

theorem all_str (content : List (Atom JsonPiece)) :
    (JsonTree.str content).tokens.all (plainToken JsonPiece.decoded)
      = plainText (fill JsonPiece.decoded content) := by
  rw [JsonTree.tokens]
  exact Bool.and_true _

theorem all_num (p : JsonPiece) :
    (JsonTree.num p).tokens.all (plainToken JsonPiece.decoded) = true := by
  rw [JsonTree.tokens]
  rfl

/-- The texts of one process. -/
theorem all_processTree (k : Metric) (ps : ProcessState) :
    (processTree (gMetrics k) ps).tokens.all (plainToken JsonPiece.decoded)
      = [ps.comm, [ps.state]].all controlFree := by
  have hkey : plainText (gMetrics k).valueKey.toList = true := by
    cases k <;> decide
  have hcomm : plainText (JsonPiece.str ps.comm).decoded = controlFree ps.comm :=
    plainText_decode ps.comm
  have hstate : plainText (JsonPiece.chr ps.state).decoded = controlFree [ps.state] :=
    plainText_decode [ps.state]
  have hplain : plainText "pid".toList = true ∧ plainText "comm".toList = true ∧
      plainText "state".toList = true ∧ plainText "threads".toList = true ∧
      plainText "records".toList = true := by decide
  unfold processTree
  rw [all_obj]
  simp only [member, textValue, List.all_cons, List.all_nil, fill_literal, all_num, all_str,
    fill_word, hkey, hcomm, hstate, hplain, Bool.true_and, Bool.and_true]

/-- The texts of a block. -/
theorem all_blockMember (b : Block) :
    (plainText (fill JsonPiece.decoded (blockMember b).1)
        && (blockMember b).2.tokens.all (plainToken JsonPiece.decoded))
      = (b.2.flatMap fun ps => [ps.comm, [ps.state]]).all controlFree := by
  have hkey : plainText (gMetrics b.1).jsonKey.toList = true := by
    cases b.1 <;> decide
  unfold blockMember member
  rw [fill_literal, hkey, all_arr, List.all_map, List.all_flatMap, Bool.true_and]
  congr 1
  funext ps
  exact all_processTree b.1 ps

/-- The texts of the header. -/
def headerTexts (env : MetricsEnv) (f : MetaFields) : List Bytes :=
  [f.progName, f.version, ascii "1.0", env.hostname.getD (ascii "unknown"), f.startTimeIso,
    f.endTimeIso]

/-- The texts of the rows. -/
def blockTexts (blocks : List Block) : List Bytes :=
  blocks.flatMap fun b => b.2.flatMap fun ps => [ps.comm, [ps.state]]

theorem all_metaMembers (env : MetricsEnv) (f : MetaFields) :
    (JsonTree.obj (metaMembers env f)).tokens.all (plainToken JsonPiece.decoded)
      = (headerTexts env f).all controlFree := by
  have hstr (s : Bytes) : plainText (JsonPiece.str s).decoded = controlFree s := plainText_decode s
  have hplain : plainText "tool".toList = true ∧ plainText "version".toList = true ∧
      plainText "schema_version".toList = true ∧ plainText "hostname".toList = true ∧
      plainText "interval_ms".toList = true ∧ plainText "start_time".toList = true ∧
      plainText "end_time".toList = true ∧ plainText "duration_sec".toList = true ∧
      plainText "snapshots".toList = true := by decide
  unfold metaMembers headerTexts
  rw [all_obj]
  simp only [member, textValue, List.all_cons, List.all_nil, fill_literal, all_num, all_str,
    fill_word, hstr, hplain, Bool.true_and, Bool.and_true]

/-- The texts of the whole file. -/
theorem all_metricsTree (env : MetricsEnv) (f : MetaFields) (blocks : List Block) :
    (metricsTree env f blocks).tokens.all (plainToken JsonPiece.decoded)
      = (headerTexts env f ++ blockTexts blocks).all controlFree := by
  have hplain : plainText "meta".toList = true ∧ plainText "metrics".toList = true := by decide
  unfold metricsTree blockTexts
  rw [all_obj]
  simp only [member, List.all_cons, List.all_nil, fill_literal, hplain, all_metaMembers,
    Bool.true_and, Bool.and_true]
  rw [List.all_append, all_obj, List.all_map, List.all_flatMap]
  congr 2
  funext b
  exact all_blockMember b

/-! ### The parts of the file -/

theorem fileTexts_append (ps qs : List JsonPiece) :
    fileTexts (ps ++ qs) = fileTexts ps ++ fileTexts qs := List.filterMap_append

theorem fileTexts_valuePieces (k : Metric) (ps : ProcessState) :
    fileTexts (valuePieces (gMetrics k) ps) = [] := by
  cases k <;> rfl

theorem fileTexts_processLoop (k : Metric) (rows : List ProcessState) :
    fileTexts (processLoop (gMetrics k) rows)
      = rows.flatMap fun ps => [ps.comm, [ps.state]] := by
  induction rows with
  | nil => rfl
  | cons ps rows ih =>
      rw [processLoop, fileTexts_append, ih, processPieces, fileTexts_append, fileTexts_append,
        fileTexts_valuePieces]
      rfl

theorem fileTexts_blocksPieces (first : Bool) (blocks : List Block) :
    fileTexts (blocksPieces first blocks) = blockTexts blocks := by
  induction blocks generalizing first with
  | nil => rfl
  | cons b blocks ih =>
      have hfirst : fileTexts (if first then [] else [.text ",\n"]) = [] := by
        cases first <;> rfl
      have hhead : fileTexts [.text "\t\t\"", .text (gMetrics b.1).jsonKey, .text "\":[\n"] = [] :=
        rfl
      have hback : fileTexts [.text "\t\t]"] = [] := rfl
      rw [blocksPieces, fileTexts_append, fileTexts_append, ih, hfirst, metricBlockPieces,
        fileTexts_append, fileTexts_append, fileTexts_processLoop, hhead, hback, List.append_nil]
      rfl

theorem fileTexts_file (env : MetricsEnv) (f : MetaFields) (blocks : List Block) :
    fileTexts (headerPieces env f ++ blocksPieces true blocks ++ footerPieces)
      = headerTexts env f ++ blockTexts blocks := by
  rw [fileTexts_append, fileTexts_append, fileTexts_blocksPieces]
  exact List.append_nil _

/-- Behind every hole of the header its string or its line goes on. -/
theorem closed_headerPieces (env : MetricsEnv) (f : MetaFields) :
    closed (fileAtoms (headerPieces env f)) = true := by
  unfold headerPieces
  simp only [fileAtoms_cons]
  repeat rw [pieceAtoms_ofList]
  rfl

theorem closed_valuePieces (k : Metric) (ps : ProcessState) :
    closed (fileAtoms (valuePieces (gMetrics k) ps)) = true := by
  unfold valuePieces
  cases k <;>
  · simp only [gMetrics, fileAtoms_cons, List.cons_append, List.nil_append]
    repeat rw [pieceAtoms_ofList]
    rfl

theorem closed_processPieces (k : Metric) (last : Bool) (ps : ProcessState) :
    closed (fileAtoms (processPieces (gMetrics k) last ps)) = true := by
  have hfront : closed (fileAtoms [.text "\t\t\t\x7b\n\t\t\t\"pid\": ", .int ps.pid.toInt,
      .text ",\n\t\t\t\"comm\": \"", .str ps.comm, .text "\",\n\t\t\t\"state\": \"",
      .chr ps.state, .text "\",\n"]) = true := by
    simp only [fileAtoms_cons]
    repeat rw [pieceAtoms_ofList]
    rfl
  have hback : closed (fileAtoms [.text "\t\t\t\"threads\": ", .int ps.threads.toInt,
      .text ",\n\t\t\t\"records\": ", .int ps.numberOfRecords, .text "\n\t\t\t\x7d",
      .text (if last then "" else ","), .text "\n"]) = true := by
    simp only [fileAtoms_cons]
    cases last with
    | false =>
        simp only [Bool.false_eq_true, if_false]
        repeat rw [pieceAtoms_ofList]
        rfl
    | true =>
        simp only [if_true]
        repeat rw [pieceAtoms_ofList]
        rfl
  have hall := closed_append (closed_append hfront (closed_valuePieces k ps)) hback
  rw [← fileAtoms_append, ← fileAtoms_append] at hall
  exact hall

theorem closed_processLoop (k : Metric) (rows : List ProcessState) :
    closed (fileAtoms (processLoop (gMetrics k) rows)) = true := by
  induction rows with
  | nil => rfl
  | cons ps rows ih =>
      rw [processLoop, fileAtoms_append]
      exact closed_append (closed_processPieces k rows.isEmpty ps) ih

/-- A literal part has no holes. -/
theorem closed_chars (cs : List Char) :
    closed (cs.map fun c => (.char c : Atom JsonPiece)) = true := by
  induction cs with
  | nil => rfl
  | cons c cs ih => exact ih

theorem closed_text (s : String) : closed (fileAtoms [.text s]) = true := by
  rw [fileAtoms_cons]
  exact closed_append (closed_chars s.toList) rfl

theorem closed_blocksPieces (first : Bool) (blocks : List Block) :
    closed (fileAtoms (blocksPieces first blocks)) = true := by
  induction blocks generalizing first with
  | nil => rfl
  | cons b blocks ih =>
      have hfirst : closed (fileAtoms (if first then [] else [.text ",\n"])) = true := by
        cases first with
        | false => exact closed_text ",\n"
        | true => rfl
      have hhead : closed (fileAtoms [.text "\t\t\"", .text (gMetrics b.1).jsonKey,
          .text "\":[\n"]) = true := by
        rw [fileAtoms_cons, fileAtoms_cons]
        exact closed_append (closed_chars _) (closed_append (closed_chars _) (closed_text _))
      rw [blocksPieces, metricBlockPieces, fileAtoms_append, fileAtoms_append, fileAtoms_append,
        fileAtoms_append]
      exact closed_append (closed_append hfirst (closed_append
        (closed_append hhead (closed_processLoop b.1 b.2)) (closed_text _))) (ih false)

/-- A hole of the file is one of its parts. -/
theorem mem_of_mem_fileAtoms {pieces : List JsonPiece} {p : JsonPiece} :
    (.word p ∈ fileAtoms pieces → p ∈ pieces ∧ ∃ s, p.copied = some s ∧ p.print = s) ∧
    (.num p ∈ fileAtoms pieces →
      (∀ b ∈ p.print, b < 128) ∧ IsNumeral p.decoded p.number) := by
  constructor
  · intro h
    obtain ⟨q, hq, hmem⟩ := List.mem_flatMap.mp h
    cases q with
    | text s => simp [pieceAtoms] at hmem
    | str s =>
        obtain rfl := Atom.word.inj (List.mem_singleton.mp hmem)
        exact ⟨hq, s, rfl, rfl⟩
    | chr c =>
        obtain rfl := Atom.word.inj (List.mem_singleton.mp hmem)
        exact ⟨hq, [c], rfl, rfl⟩
    | int z => simp [pieceAtoms] at hmem
    | real q decimals => simp [pieceAtoms] at hmem
  · intro h
    obtain ⟨q, hq, hmem⟩ := List.mem_flatMap.mp h
    cases q with
    | text s => simp [pieceAtoms] at hmem
    | str s => simp [pieceAtoms] at hmem
    | chr c => simp [pieceAtoms] at hmem
    | int z =>
        obtain rfl := Atom.num.inj (List.mem_singleton.mp hmem)
        exact isNumeral_int z
    | real q decimals =>
        obtain rfl := Atom.num.inj (List.mem_singleton.mp hmem)
        exact isNumeral_real q decimals

/-- The text of the file, as the browser reads it. -/
theorem decode_fileBytes {pieces : List JsonPiece} (h : closed (fileAtoms pieces) = true) :
    decode (fileBytes pieces) = fill JsonPiece.decoded (fileAtoms pieces) := by
  rw [fileBytes_eq]
  exact decode_atoms h fun p hp => (mem_of_mem_fileAtoms.2 hp).1

/-- What `JSON.parse` makes of a file whose texts have no quotes and backslashes. -/
theorem parse_file (env : MetricsEnv) (f : MetaFields) (blocks : List Block)
    (hquotes : ∀ s ∈ headerTexts env f ++ blockTexts blocks, 34 ∉ s ∧ 92 ∉ s) :
    parse (Dashboard.readAsText
        (fileBytes (headerPieces env f ++ blocksPieces true blocks ++ footerPieces)))
      = if (headerTexts env f ++ blockTexts blocks).all controlFree
        then some (treeValue JsonPiece.decoded JsonPiece.number (metricsTree env f blocks))
        else none := by
  set pieces := headerPieces env f ++ blocksPieces true blocks ++ footerPieces with hpieces
  have hclosed : closed (fileAtoms pieces) = true := by
    rw [hpieces, fileAtoms_append, fileAtoms_append]
    exact closed_append
      (closed_append (closed_headerPieces env f) (closed_blocksPieces true blocks)) (closed_text _)
  -- The file begins with a brace, so there is no byte order mark.
  have hread : Dashboard.readAsText (fileBytes pieces)
      = fill JsonPiece.decoded (fileAtoms pieces) := by
    unfold Dashboard.readAsText
    rw [decode_fileBytes hclosed]
    rfl
  have hwords : ∀ p, .word p ∈ fileAtoms pieces → ∀ c ∈ p.decoded, c ≠ '"' ∧ c ≠ '\\' := by
    intro p hp c hc
    obtain ⟨hmem, s, hcopied, hprint⟩ := mem_of_mem_fileAtoms.1 hp
    have hs : s ∈ headerTexts env f ++ blockTexts blocks := by
      rw [← fileTexts_file]
      exact List.mem_filterMap.mpr ⟨p, hmem, hcopied⟩
    obtain ⟨hquote, hbackslash⟩ := hquotes s hs
    have hdecodes : Decodes s p.decoded := by
      show Decodes s (decode p.print)
      rw [hprint]
      exact (decodes_decodeFrom s).1
    constructor
    · rintro rfl
      exact hquote (hdecodes.mem_of_ascii (by decide) hc)
    · rintro rfl
      exact hbackslash (hdecodes.mem_of_ascii (by decide) hc)
  rw [hread, parse_fill (lexes_metricsTree env f blocks) hclosed hwords
    fun p hp => (mem_of_mem_fileAtoms.2 hp).2, all_metricsTree]

end ProcessAnalyzer.Stats

namespace ProcessAnalyzer.Dashboard

open ProcessAnalyzer.Lib ProcessAnalyzer.Lib.JsonTokens ProcessAnalyzer.Lib.JsonText
open ProcessAnalyzer.Stats

/-! ### The value of the file -/

/-- A process of a block, as `JSON.parse` returns it. -/
def processValue (k : Metric) (ps : ProcessState) : Value :=
  .obj [(utf16 "pid".toList, .num (JsonPiece.int ps.pid.toInt).number),
    (utf16 "comm".toList, .str (utf16 (decode ps.comm))),
    (utf16 "state".toList, .str (utf16 (decode [ps.state]))),
    (utf16 (gMetrics k).valueKey.toList, .num (valuePiece (gMetrics k) ps).number),
    (utf16 "threads".toList, .num (JsonPiece.int ps.threads.toInt).number),
    (utf16 "records".toList, .num (JsonPiece.int ps.numberOfRecords).number)]

/-- The header of the file. -/
def metaValue (env : MetricsEnv) (f : MetaFields) : Value :=
  .obj [(utf16 "tool".toList, .str (utf16 (decode f.progName))),
    (utf16 "version".toList, .str (utf16 (decode f.version))),
    (utf16 "schema_version".toList, .str (utf16 (decode (ascii "1.0")))),
    (utf16 "hostname".toList, .str (utf16 (decode (env.hostname.getD (ascii "unknown"))))),
    (utf16 "interval_ms".toList, .num (JsonPiece.int f.intervalMs.toNat).number),
    (utf16 "start_time".toList, .str (utf16 (decode f.startTimeIso))),
    (utf16 "end_time".toList, .str (utf16 (decode f.endTimeIso))),
    (utf16 "duration_sec".toList, .num (JsonPiece.real f.durationSec 3).number),
    (utf16 "snapshots".toList, .num (JsonPiece.int f.snapshotCount.toNat).number)]

/-- The blocks of the file. -/
def metricsValue (blocks : List Block) : Value :=
  .obj (blocks.map fun b =>
    (utf16 (gMetrics b.1).jsonKey.toList, .arr (b.2.map (processValue b.1))))

theorem treeValue_processTree (k : Metric) (ps : ProcessState) :
    treeValue JsonPiece.decoded JsonPiece.number (processTree (gMetrics k) ps)
      = processValue k ps := by
  unfold processTree member textValue
  rw [treeValue, memberValues_eq]
  simp only [List.map_cons, List.map_nil, treeValue, fill_literal, fill_word]
  rfl

theorem treeValue_metricsTree (env : MetricsEnv) (f : MetaFields) (blocks : List Block) :
    treeValue JsonPiece.decoded JsonPiece.number (metricsTree env f blocks)
      = .obj [(utf16 "meta".toList, metaValue env f),
          (utf16 "metrics".toList, metricsValue blocks)] := by
  have hmeta : treeValue JsonPiece.decoded JsonPiece.number (.obj (metaMembers env f))
      = metaValue env f := by
    unfold metaMembers member textValue
    rw [treeValue, memberValues_eq]
    simp only [List.map_cons, List.map_nil, treeValue, fill_literal, fill_word]
    rfl
  have hmetrics : treeValue JsonPiece.decoded JsonPiece.number (.obj (blocks.map blockMember))
      = metricsValue blocks := by
    unfold metricsValue
    rw [treeValue, memberValues_eq, List.map_map]
    congr 1
    refine List.map_congr_left fun b _ => ?_
    show (utf16 (fill _ (literal _)), treeValue _ _ (.arr _)) = _
    rw [fill_literal, treeValue, itemValues_eq, List.map_map]
    congr 2
    exact List.map_congr_left fun ps _ => treeValue_processTree b.1 ps
  unfold metricsTree
  rw [treeValue, memberValues_eq]
  simp only [List.map_cons, List.map_nil, member, fill_literal, hmeta, hmetrics]

/-! ### Rendering -/

/-- The rows of a metric in a sequence of blocks. -/
def blockRows (blocks : List Block) (k : Metric) : List ProcessState :=
  ((blocks.reverse.find? fun b => b.1 = k).map Prod.snd).getD []

/-- The page looks for the blocks under the keys that the report gives them. -/
theorem jsonKey_eq_dataMetric (a k : Metric) :
    decide (utf16 (gMetrics a).jsonKey.toList = utf16 (dataMetric k).toList) = decide (a = k) := by
  cases a <;> cases k <;> decide

theorem property_metricsValue (blocks : List Block) (k : Metric) :
    property (dataMetric k) (metricsValue blocks)
      = (blocks.reverse.find? fun b => b.1 = k).map fun b =>
          .arr (b.2.map (processValue k)) := by
  show ((blocks.map fun b => (utf16 (gMetrics b.1).jsonKey.toList,
    Value.arr (b.2.map (processValue b.1)))).reverse.find?
      fun m => decide (m.1 = utf16 (dataMetric k).toList)).map Prod.snd = _
  rw [← List.map_reverse, List.find?_map]
  have hkey : ((fun m : List ℕ × Value => decide (m.1 = utf16 (dataMetric k).toList)) ∘
      fun b : Block => (utf16 (gMetrics b.1).jsonKey.toList, .arr (b.2.map (processValue b.1))))
      = fun b => decide (b.1 = k) := by
    funext b
    exact jsonKey_eq_dataMetric b.1 k
  rw [hkey, Option.map_map]
  cases hfind : blocks.reverse.find? fun b => decide (b.1 = k) with
  | none => rfl
  | some b =>
      have hb := List.find?_some hfind
      rw [decide_eq_true_eq] at hb
      subst hb
      rfl

/-- The list that is passed to the function of a chart. -/
theorem orElse_property (blocks : List Block) (k : Metric) :
    orElse (property (dataMetric k) (metricsValue blocks)) (.arr [])
      = .arr ((blockRows blocks k).map (processValue k)) := by
  rw [property_metricsValue]
  unfold blockRows
  cases blocks.reverse.find? fun b => decide (b.1 = k) with
  | none => rfl
  | some b => rfl

theorem hasMetricData_metricsValue (blocks : List Block) (k : Metric) :
    hasMetricData (metricsValue blocks) (dataMetric k) = decide (blockRows blocks k ≠ []) := by
  unfold hasMetricData
  rw [property_metricsValue]
  unfold blockRows
  cases blocks.reverse.find? fun b => decide (b.1 = k) with
  | none => rfl
  | some b =>
      show decide (b.2.map _ ≠ []) = decide (b.2 ≠ [])
      simp only [ne_eq, List.map_eq_nil_iff]

/-- The rows of cards of the page. -/
theorem rows_updateChartVisibility (blocks : List Block) (p : MetricsPage) :
    (updateChartVisibility (metricsValue blocks) p).rows
      = chartRows.map fun row =>
          let shown := (row.filter fun k => blockRows blocks k ≠ []).length
          (decide (shown ≠ 0), decide (shown = 1)) := by
  unfold updateChartVisibility
  simp only [hasMetricData_metricsValue]

/-- The chart of a list of objects, if there are any. -/
def chartOf (label : String) (height : Value → Height) (metric : String) (items : List Value) :
    Option BarChart :=
  if items = [] then none
  else
    some
      { label := label
        labels := items.map (property "comm")
        heights := items.map height
        list := items
        metric := metric }

/-- A function that renders a chart replaces that chart and nothing else. -/
theorem renderChart_arr (m : Metric) (label : String) (height : Value → Height) (metric : String)
    {items : List Value} (h : ∀ v ∈ items, isNull v = false) (p : MetricsPage) :
    renderChart m label height metric (.arr items) p
      = ⟨{ p with chart := Function.update p.chart m (chartOf label height metric items) },
          false⟩ := by
  have hany : items.any isNull = false := List.any_eq_false.mpr fun v hv => by
    rw [h v hv]
    decide
  unfold renderChart chartOf makeChart
  cases items with
  | nil => rfl
  | cons v items =>
      simp only [hasLength, ne_eq, List.cons_ne_nil, not_false_eq_true, decide_true,
        Bool.true_eq_false, if_false, hany, Bool.false_eq_true, Function.update_idem]

/-- The metric of the timeline that goes with a metric of the report. -/
def timelineOf : Metric → TimelineMetric
  | .avgCpu => .cpu
  | .avgRss => .rss
  | .rssIncr => .rss
  | .rssDelta => .rss
  | .bytesRead => .read
  | .readRate => .read
  | .writtenBytes => .write
  | .writeRate => .write
  | .fdsIncrease => .fds
  | .noOfFds => .fds
  | .fdsDelta => .fds

/-- The height of a bar: what the report says, in megabytes where it says kilobytes of memory. -/
def heightOf (k : Metric) (ps : ProcessState) : Height :=
  let printed : Value := .num (valuePiece (gMetrics k) ps).number
  if timelineOf k = .rss then .quotient (some printed) else .value (some printed)

/-- A chart shows rows of the report: a bar for each of them, in their order, with the name of the
process and the printed value, and a click on it leads to the timeline of that process. -/
structure ShowsRows (k : Metric) (rows : List ProcessState) (c : BarChart) : Prop where
  labels : c.labels = rows.map fun ps => some (.str (utf16 (decode ps.comm)))
  heights : c.heights = rows.map (heightOf k)
  pids : c.list.map (property "pid") = rows.map fun ps => some (.num ps.pid.toInt)
  metric : c.metric = metricOption (timelineOf k)

/-- The properties of a process that the page reads. -/
theorem property_processValue (k : Metric) (ps : ProcessState) :
    property "pid" (processValue k ps) = some (.num ps.pid.toInt) ∧
    property "comm" (processValue k ps) = some (.str (utf16 (decode ps.comm))) := by
  have hpid := number_int32 ps.pid
  have hread : property "pid" (processValue k ps)
      = some (.num (JsonPiece.int ps.pid.toInt).number) := by
    cases k <;> rfl
  rw [hpid] at hread
  exact ⟨hread, by cases k <;> rfl⟩

/-- The page shows a report: its header, the cards of the metrics that have rows, and their
charts. -/
structure ShowsReport (env : MetricsEnv) (f : MetaFields) (rows : Metric → List ProcessState)
    (p : MetricsPage) : Prop where
  texts : p.texts = some
    { mHost := some (.str (utf16 (decode (env.hostname.getD (ascii "unknown")))))
      mDur := some (.num (JsonPiece.real f.durationSec 3).number)
      mInterval := some (.num ((f.intervalMs.toNat : Int) : ℚ))
      mSnap := some (.num (JsonPiece.int f.snapshotCount.toNat).number)
      mStart := some (.str (utf16 (decode f.startTimeIso)))
      mEnd := some (.str (utf16 (decode f.endTimeIso))) }
  display : ∀ k, p.display k = true ↔ rows k ≠ []
  cards : p.rows = chartRows.map fun row =>
    let shown := (row.filter fun k => rows k ≠ []).length
    (decide (shown ≠ 0), decide (shown = 1))
  chart : ∀ k, (rows k = [] → p.chart k = none) ∧
    (rows k ≠ [] → ∃ c, p.chart k = some c ∧ ShowsRows k (rows k) c)

/-- The chart of the rows of a block. -/
theorem chartOf_rows (k : Metric) (label : String) {height : Value → Height} {metric : String}
    (rows : List ProcessState) (hheight : ∀ ps, height (processValue k ps) = heightOf k ps)
    (hmetric : metric = metricOption (timelineOf k)) :
    (rows = [] → chartOf label height metric (rows.map (processValue k)) = none) ∧
    (rows ≠ [] → ∃ c, chartOf label height metric (rows.map (processValue k)) = some c ∧
      ShowsRows k rows c) := by
  unfold chartOf
  simp only [List.map_eq_nil_iff]
  refine ⟨fun h => if_pos h, fun h => ⟨_, if_neg h, ?_, ?_, ?_, hmetric⟩⟩
  · show (rows.map (processValue k)).map (property "comm") = _
    rw [List.map_map]
    exact List.map_congr_left fun ps _ => (property_processValue k ps).2
  · show (rows.map (processValue k)).map height = _
    rw [List.map_map]
    exact List.map_congr_left fun ps _ => hheight ps
  · show (rows.map (processValue k)).map (property "pid") = _
    rw [List.map_map]
    exact List.map_congr_left fun ps _ => (property_processValue k ps).1

/-- `renderDashboard` on the value of a report. -/
theorem renderDashboard_report (env : MetricsEnv) (f : MetaFields) (blocks : List Block)
    (p : MetricsPage) :
    ∃ p', renderDashboard
          (treeValue JsonPiece.decoded JsonPiece.number (metricsTree env f blocks)) p
        = ⟨p', false⟩ ∧ ShowsReport env f (blockRows blocks) p' := by
  have hnull (k : Metric) : ∀ v ∈ (blockRows blocks k).map (processValue k), isNull v = false := by
    intro v hv
    obtain ⟨ps, -, rfl⟩ := List.mem_map.mp hv
    rfl
  have hmetrics : orElse (property "metrics" (.obj [(utf16 "meta".toList, metaValue env f),
      (utf16 "metrics".toList, metricsValue blocks)])) (.obj []) = metricsValue blocks := rfl
  have hmeta : property "meta" (.obj [(utf16 "meta".toList, metaValue env f),
      (utf16 "metrics".toList, metricsValue blocks)]) = some (metaValue env f) := rfl
  have hlist (k : Metric) (key : String) (hkey : dataMetric k = key) :
      orElse (property key (metricsValue blocks)) (.arr [])
        = .arr ((blockRows blocks k).map (processValue k)) :=
    hkey ▸ orElse_property blocks k
  have hobject : isNull (.obj [(utf16 "meta".toList, metaValue env f),
      (utf16 "metrics".toList, metricsValue blocks)]) = false ∧
      isNull (metaValue env f) = false := ⟨rfl, rfl⟩
  have hrender (k : Metric) (label : String) (height : Value → Height) (metric : String)
      (q : MetricsPage) := renderChart_arr k label height metric (hnull k) q
  rw [treeValue_metricsTree]
  unfold renderDashboard
  simp only [hmetrics, hmeta, hlist .avgCpu "cpu_average" rfl, hlist .avgRss "rss_average" rfl,
    hlist .readRate "read_rate" rfl, hlist .writeRate "write_rate" rfl,
    hlist .rssIncr "rss_increase" rfl, hlist .rssDelta "rss_delta" rfl,
    hlist .bytesRead "kbytes_read" rfl, hlist .writtenBytes "written_kbytes" rfl,
    hlist .fdsIncrease "fds_increase" rfl, hlist .noOfFds "opened_fds" rfl,
    hlist .fdsDelta "fds_delta" rfl, hobject, renderMeta, Ran.andThen, renderCPU, renderRSS,
    renderReadRate, renderWriteRate, renderRSSIncrease, renderRSSDelta, renderKbytesRead,
    renderKbytesWritten, fdsIncrease, fdsOpened, fdsDelta, hrender, Bool.false_eq_true, if_false]
  refine ⟨_, rfl, ?_⟩
  -- Each chart is the work of its own function.
  have hchart (k : Metric) (label : String) {height : Value → Height} {metric : String}
      (hheight : ∀ ps, height (processValue k ps) = heightOf k ps)
      (hmetric : metric = metricOption (timelineOf k)) :=
    chartOf_rows k label (blockRows blocks k) hheight hmetric
  constructor
  · have hinterval := number_uint32 f.intervalMs
    rw [← hinterval]
    rfl
  · intro k
    show hasMetricData (metricsValue blocks) (dataMetric k) = true ↔ _
    rw [hasMetricData_metricsValue, decide_eq_true_eq]
  · exact rows_updateChartVisibility blocks p
  · intro k
    cases k with
    | avgCpu => exact hchart .avgCpu "CPU %" (fun _ => rfl) rfl
    | avgRss => exact hchart .avgRss "RSS (MB)" (fun _ => rfl) rfl
    | rssIncr => exact hchart .rssIncr "RSS Increase (MB)" (fun _ => rfl) rfl
    | rssDelta => exact hchart .rssDelta "RSS Delta (MB)" (fun _ => rfl) rfl
    | bytesRead => exact hchart .bytesRead "Disk Read (KB)" (fun _ => rfl) rfl
    | readRate => exact hchart .readRate "Read KB/s" (fun _ => rfl) rfl
    | writtenBytes => exact hchart .writtenBytes "Disk Write (KB)" (fun _ => rfl) rfl
    | writeRate => exact hchart .writeRate "Write KB/s" (fun _ => rfl) rfl
    | fdsIncrease => exact hchart .fdsIncrease "FD Increase" (fun _ => rfl) rfl
    | noOfFds => exact hchart .noOfFds "FD Open" (fun _ => rfl) rfl
    | fdsDelta => exact hchart .fdsDelta "FD Delta" (fun _ => rfl) rfl

/-! ### The whole way -/

/-- The rows that a report has for a metric: those of its block, if it was requested. -/
theorem blockRows_spec {qsort : Qsort} {args : MetricsArguments} {table : List ProcessState}
    {blocks : List Block} (hfst : blocks.map Prod.fst = printOrder.filter args.requested)
    (hsort : ∀ b ∈ blocks, b.FromSort qsort args table) (k : Metric) :
    if args.requested k then
      ∃ arr : List ProcessState, arr.Perm table ∧
        blockRows blocks k
          = (qsort.sort k.comparator arr).take (rowCount (args.pidsToDisplay k) table.length)
    else blockRows blocks k = [] := by
  have hmem : args.requested k = true ↔ ∃ b ∈ blocks, b.1 = k := by
    rw [← List.mem_map, hfst, List.mem_filter]
    exact ⟨fun h => ⟨mem_printOrder k, h⟩, fun h => h.2⟩
  unfold blockRows
  cases hfind : blocks.reverse.find? fun b => decide (b.1 = k) with
  | none =>
      have hnone : args.requested k = false := by
        rw [← Bool.not_eq_true, hmem]
        rintro ⟨b, hb, hk⟩
        have hne := List.find?_eq_none.mp hfind b (List.mem_reverse.mpr hb)
        exact hne (decide_eq_true hk)
      rw [if_neg (by rw [hnone]; decide)]
      rfl
  | some b =>
      have hb := List.mem_reverse.mp (List.mem_of_find?_eq_some hfind)
      have hk := List.find?_some hfind
      rw [decide_eq_true_eq] at hk
      rw [if_pos (hmem.mpr ⟨b, hb, hk⟩), ← hk]
      exact hsort b hb

section Report
variable {qsort : Qsort} {config : Config} {env : MetricsEnv} {args : MetricsArguments}
  {intervalMs : UInt64} {m : StatsModule} {out : MetricsResult} {pieces : List JsonPiece}

/-- What `JSON.parse` makes of the file of a report. -/
theorem parse_report (hout : processStatsPrintMetrics qsort config env args intervalMs m = .ok out)
    (hfile : out.metricsFile = some pieces)
    (hquotes : ∀ s ∈ fileTexts pieces, 34 ∉ s ∧ 92 ∉ s) :
    ∃ blocks : List Block, blocks.map Prod.fst = printOrder.filter args.requested ∧
      (∀ b ∈ blocks, b.FromSort qsort args (averagedTable args m)) ∧
      parse (readAsText (fileBytes pieces))
        = if (fileTexts pieces).all controlFree then
            some (treeValue JsonPiece.decoded JsonPiece.number
              (metricsTree env (metaFields m intervalMs) blocks))
          else none := by
  rcases processStatsPrintMetrics_cases qsort config env args intervalMs m hout with
    ⟨-, rfl⟩ | ⟨-, blocks, hfst, hsort, rfl⟩
  · cases hfile
  · obtain rfl := Option.some.inj hfile
    have htexts := fileTexts_file env (metaFields m intervalMs) blocks
    rw [htexts] at hquotes ⊢
    exact ⟨blocks, hfst, hsort, parse_file env (metaFields m intervalMs) blocks hquotes⟩

/-- The texts of a report are those of its header, and the names and states of processes. -/
theorem mem_fileTexts_report
    (hout : processStatsPrintMetrics qsort config env args intervalMs m = .ok out)
    (hfile : out.metricsFile = some pieces) {s : Bytes} (hs : s ∈ fileTexts pieces) :
    s ∈ headerTexts env (metaFields m intervalMs) ∨
      ∃ ps ∈ averagedTable args m, s = ps.comm ∨ s = [ps.state] := by
  rcases processStatsPrintMetrics_cases qsort config env args intervalMs m hout with
    ⟨-, rfl⟩ | ⟨-, blocks, -, hsort, rfl⟩
  · cases hfile
  · obtain rfl := Option.some.inj hfile
    rw [fileTexts_file env (metaFields m intervalMs) blocks, List.mem_append] at hs
    refine hs.imp_right fun hrow => ?_
    obtain ⟨b, hb, hrow⟩ := List.mem_flatMap.mp hrow
    obtain ⟨ps, hps, htext⟩ := List.mem_flatMap.mp hrow
    obtain ⟨arr, hperm, hrows⟩ := hsort b hb
    rw [hrows] at hps
    have hsorted := (qsort.perm_sort (totalPreorderCmp_comparator b.1) arr).trans hperm
    exact ⟨ps, hsorted.mem_iff.mp (List.mem_of_mem_take hps), by simpa using htext⟩

/-- A report with something to report has a file when that can be opened. -/
theorem exists_file (qsort : Qsort) (args : MetricsArguments) (intervalMs : UInt64)
    (hm : m.isModuleInitialized = true) (ht : m.gProcessTable ≠ []) (ha : env.arrMallocOk = true)
    (ho : MetricsFileOpens config env) :
    ∃ out pieces, processStatsPrintMetrics qsort config env args intervalMs m = .ok out ∧
      out.metricsFile = some pieces := by
  have hok := processStatsPrintMetrics_eq qsort config env args intervalMs m hm ht ha
  rw [if_pos ho] at hok
  rcases processStatsPrintMetrics_cases qsort config env args intervalMs m hok with
    ⟨hearly, -⟩ | ⟨-, blocks, -, -, hout⟩
  · simp [hm, ht, ha] at hearly
  · exact ⟨_, _, hok, by rw [hout]⟩

theorem all_controlFree_iff (texts : List Bytes) :
    texts.all controlFree = true ↔ ∀ s ∈ texts, ∀ b ∈ s, 32 ≤ b := by
  unfold controlFree
  simp only [List.all_eq_true, decide_eq_true_eq]

end Report

/-- When the report can be loaded. For every report whose texts have no quotes and backslashes,
`index.html` loads the file if and only if none of the texts has a control character. Otherwise the
page stays as it is. -/
theorem dashboard_loads_iff (qsort : Qsort) (config : Config) (env : MetricsEnv)
    (args : MetricsArguments) (intervalMs : UInt64) (m : StatsModule) {out : MetricsResult}
    (hout : processStatsPrintMetrics qsort config env args intervalMs m = .ok out)
    {pieces : List JsonPiece} (hfile : out.metricsFile = some pieces)
    (hquotes : ∀ s ∈ fileTexts pieces, 34 ∉ s ∧ 92 ∉ s) (page : MetricsPage) :
    ((loadText (readAsText (fileBytes pieces)) page).threw = false
      ↔ ∀ s ∈ fileTexts pieces, ∀ b ∈ s, 32 ≤ b) ∧
    ((loadText (readAsText (fileBytes pieces)) page).threw = true →
      (loadText (readAsText (fileBytes pieces)) page).page = page) := by
  obtain ⟨blocks, -, -, hparse⟩ := parse_report hout hfile hquotes
  rw [← all_controlFree_iff]
  cases hall : (fileTexts pieces).all controlFree with
  | false =>
      have hload : loadText (readAsText (fileBytes pieces)) page = ⟨page, true⟩ := by
        unfold loadText
        rw [hparse, hall]
        rfl
      rw [hload]
      refine ⟨⟨fun h => ?_, fun h => ?_⟩, fun _ => rfl⟩
      · cases h
      · cases h
  | true =>
      obtain ⟨p', hrender, -⟩ := renderDashboard_report env (metaFields m intervalMs) blocks page
      have hload : loadText (readAsText (fileBytes pieces)) page = ⟨p', false⟩ := by
        unfold loadText
        rw [hparse, hall]
        exact hrender
      rw [hload]
      exact ⟨⟨fun _ => rfl, fun _ => rfl⟩, fun h => by cases h⟩

/-- A process with much memory, whose name has a line feed in it. -/
def lineFeedInName : ProcessStateInput :=
  { sampleOfInit with pid := 4, comm := ascii "a\nb", rssKb := 4000 }

/-- The report on three processes and that one. -/
theorem dashboard_loads_iff_lineFeed :
    ∃ out pieces, processStatsPrintMetrics Qsort.insertionSort configDefault
        ⟨true, true, true, none⟩ firstTwo 100
        (updateAll (initializedModule 100 1 []) (samplesOfThree ++ [lineFeedInName])) = .ok out ∧
      out.metricsFile = some pieces ∧
      ((loadText (readAsText (fileBytes pieces)) {}).threw = false
        ↔ ∀ s ∈ fileTexts pieces, ∀ b ∈ s, 32 ≤ b) ∧
      ((loadText (readAsText (fileBytes pieces)) {}).threw = true →
        (loadText (readAsText (fileBytes pieces)) {}).page = {}) := by
  set m := updateAll (initializedModule 100 1 []) (samplesOfThree ++ [lineFeedInName])
  have hne : m.gProcessTable ≠ [] := table_updateAll_ne_nil _ _ _ _ (by simp)
  obtain ⟨out, pieces, hout, hfile⟩ := exists_file Qsort.insertionSort firstTwo 100
    (isModuleInitialized_updateAll _ _) hne
    (show (⟨true, true, true, none⟩ : MetricsEnv).arrMallocOk = true from rfl)
    (show MetricsFileOpens configDefault ⟨true, true, true, none⟩ from ⟨rfl, rfl, rfl⟩)
  refine ⟨out, pieces, hout, hfile, dashboard_loads_iff Qsort.insertionSort configDefault
    ⟨true, true, true, none⟩ firstTwo 100 m hout hfile (fun s hs => ?_) {}⟩
  rcases mem_fileTexts_report hout hfile hs with hheader | ⟨ps, hps, htext⟩
  · have hall : ∀ s ∈ headerTexts ⟨true, true, true, none⟩ (metaFields m 100), 34 ∉ s ∧ 92 ∉ s := by
      decide +kernel
    exact hall s hheader
  · have hall : ∀ ps ∈ averagedTable firstTwo m,
        (34 ∉ ps.comm ∧ 92 ∉ ps.comm) ∧ 34 ∉ [ps.state] ∧ 92 ∉ [ps.state] := by
      decide +kernel
    rcases htext with rfl | rfl
    · exact (hall ps hps).1
    · exact (hall ps hps).2

/-- The page shows the report. For every report whose texts have no quotes, backslashes and control
characters, `index.html` loads the file and shows, for every metric, one bar for each row of its
block, in the order of the block, with the name of the process and the printed value. A click on
the bar leads to the timeline of that process. The metrics without rows are hidden. -/
theorem dashboard_shows_report (qsort : Qsort) (config : Config) (env : MetricsEnv)
    (args : MetricsArguments) (intervalMs : UInt64) (m : StatsModule) {out : MetricsResult}
    (hout : processStatsPrintMetrics qsort config env args intervalMs m = .ok out)
    {pieces : List JsonPiece} (hfile : out.metricsFile = some pieces)
    (hplain : ∀ s ∈ fileTexts pieces, ∀ b ∈ s, 32 ≤ b ∧ b ≠ 34 ∧ b ≠ 92) (page : MetricsPage) :
    ∃ rows : Metric → List ProcessState,
      (∀ k, if args.requested k then
          ∃ arr : List ProcessState, arr.Perm (averagedTable args m) ∧
            rows k = (qsort.sort k.comparator arr).take
              (rowCount (args.pidsToDisplay k) (averagedTable args m).length)
        else rows k = []) ∧
      (loadText (readAsText (fileBytes pieces)) page).threw = false ∧
      ShowsReport env (metaFields m intervalMs) rows
        (loadText (readAsText (fileBytes pieces)) page).page ∧
      ∀ k i ps, (rows k)[i]? = some ps →
        chartClick (loadText (readAsText (fileBytes pieces)) page).page k i
          = some ⟨some (.num ps.pid.toInt), metricOption (timelineOf k)⟩ := by
  have hquotes : ∀ s ∈ fileTexts pieces, 34 ∉ s ∧ 92 ∉ s := fun s hs =>
    ⟨fun h => (hplain s hs 34 h).2.1 rfl, fun h => (hplain s hs 92 h).2.2 rfl⟩
  have hall : (fileTexts pieces).all controlFree = true :=
    (all_controlFree_iff _).mpr fun s hs b hb => (hplain s hs b hb).1
  obtain ⟨blocks, hfst, hsort, hparse⟩ := parse_report hout hfile hquotes
  obtain ⟨p', hrender, hshows⟩ := renderDashboard_report env (metaFields m intervalMs) blocks page
  have hload : loadText (readAsText (fileBytes pieces)) page = ⟨p', false⟩ := by
    unfold loadText
    rw [hparse, if_pos hall]
    exact hrender
  rw [hload]
  refine ⟨blockRows blocks, blockRows_spec hfst hsort, rfl, hshows, ?_⟩
  intro k i ps hps
  have hne : blockRows blocks k ≠ [] := fun hnil => by
    rw [hnil] at hps
    cases hps
  obtain ⟨c, hchart, hc⟩ := (hshows.chart k).2 hne
  have hpid : (c.list[i]?).map (property "pid") = some (some (.num ps.pid.toInt)) := by
    rw [← List.getElem?_map, hc.pids, List.getElem?_map, hps]
    rfl
  obtain ⟨process, hprocess, hproperty⟩ := Option.map_eq_some_iff.mp hpid
  show ((p'.chart k).bind fun c => (c.list[i]?).map _) = _
  rw [hchart, Option.bind_some, hprocess, Option.map_some, hproperty, hc.metric]

/-- The report on three processes is loaded, with two bars in the chart of the CPU usage. -/
theorem dashboard_shows_report_three :
    ∃ out pieces, processStatsPrintMetrics Qsort.insertionSort configDefault
        ⟨true, true, true, none⟩ firstTwo 100
        (updateAll (initializedModule 100 1 []) samplesOfThree) = .ok out ∧
      out.metricsFile = some pieces ∧
      (loadText (readAsText (fileBytes pieces)) {}).threw = false ∧
      ∃ c, (loadText (readAsText (fileBytes pieces)) {}).page.chart .avgCpu = some c ∧
        c.heights.length = 2 := by
  set m := updateAll (initializedModule 100 1 []) samplesOfThree
  have hne : m.gProcessTable ≠ [] := table_updateAll_ne_nil _ _ _ _ (by decide)
  obtain ⟨out, pieces, hout, hfile⟩ := exists_file Qsort.insertionSort firstTwo 100
    (isModuleInitialized_updateAll _ _) hne
    (show (⟨true, true, true, none⟩ : MetricsEnv).arrMallocOk = true from rfl)
    (show MetricsFileOpens configDefault ⟨true, true, true, none⟩ from ⟨rfl, rfl, rfl⟩)
  have hplain : ∀ s ∈ fileTexts pieces, ∀ b ∈ s, 32 ≤ b ∧ b ≠ 34 ∧ b ≠ 92 := by
    intro s hs
    rcases mem_fileTexts_report hout hfile hs with hheader | ⟨ps, hps, htext⟩
    · have hall : ∀ s ∈ headerTexts ⟨true, true, true, none⟩ (metaFields m 100),
          ∀ b ∈ s, 32 ≤ b ∧ b ≠ 34 ∧ b ≠ 92 := by
        decide +kernel
      exact hall s hheader
    · have hall : ∀ ps ∈ averagedTable firstTwo m,
          (∀ b ∈ ps.comm, 32 ≤ b ∧ b ≠ 34 ∧ b ≠ 92) ∧
            ∀ b ∈ [ps.state], 32 ≤ b ∧ b ≠ 34 ∧ b ≠ 92 := by
        decide +kernel
      rcases htext with rfl | rfl
      · exact (hall ps hps).1
      · exact (hall ps hps).2
  obtain ⟨rows, hrows, hload, hshows, -⟩ := dashboard_shows_report Qsort.insertionSort configDefault
    ⟨true, true, true, none⟩ firstTwo 100 m hout hfile hplain {}
  have hlength : (rows .avgCpu).length = 2 := by
    obtain ⟨arr, hperm, hcpu⟩ := hrows .avgCpu
    have hcount : (averagedTable firstTwo m).length = 3 := by decide +kernel
    have hsorted := (Qsort.insertionSort.perm_sort (totalPreorderCmp_comparator .avgCpu) arr).trans
      hperm
    rw [hcpu, List.length_take, hsorted.length_eq, hcount]
    rfl
  obtain ⟨c, hchart, hc⟩ := (hshows.chart .avgCpu).2 fun hnil => by
    rw [hnil] at hlength
    cases hlength
  exact ⟨out, pieces, hout, hfile, hload, c, hchart, by rw [hc.heights, List.length_map, hlength]⟩

end ProcessAnalyzer.Dashboard
