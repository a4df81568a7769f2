import Mathlib.Algebra.Order.Field.Rat
import ProcessAnalyzer.Lib.Binary64
import ProcessAnalyzer.Lib.JsonTokens

/-!
# `ProcessAnalyzer.Lib.JsonText`: the value of a JSON text

A reader of JSON texts (ECMA-404, RFC 8259). `tokenize` splits a text into tokens, by a scanner
that takes one character at a time, and `value` reads the tokens by recursive descent. `parse`
does both. A string is the list of its UTF-16 code units, so that an escape may stand for half of
a surrogate pair, and a number is the binary64 number nearest to its numeral.

* `tokenize_fill`: the tokens of a text with holes (`ProcessAnalyzer.Lib.JsonTokens`), when the
  holes are filled. A word without quotes and backslashes stays inside of its string. If there
  is a control character in a string, the text has no tokens.
* `value_tokens`: a tree is read back from its tokens.
* `parse_fill`: so the text of a tree has the value of the tree.
-/

set_option autoImplicit false

namespace ProcessAnalyzer.Lib.JsonText

open ProcessAnalyzer.Lib.JsonTokens

/-! ### Values -/

/-- A JSON value. -/
inductive Value where
  | null
  | bool (b : Bool)
  | num (q : ℚ)
  | str (units : List ℕ)
  | arr (items : List Value)
  | obj (members : List (List ℕ × Value))

/-- The UTF-16 code units of a character. -/
def unitsOf (c : Char) : List ℕ :=
  if c.toNat < 0x10000 then [c.toNat]
  else [0xD800 + (c.toNat - 0x10000) / 0x400, 0xDC00 + (c.toNat - 0x10000) % 0x400]

/-- The UTF-16 code units of a text. -/
def utf16 (s : List Char) : List ℕ := s.flatMap unitsOf

theorem utf16_append (s t : List Char) : utf16 (s ++ t) = utf16 s ++ utf16 t :=
  List.flatMap_append

/-! ### Numerals -/

/-- The number that a list of digits denotes. -/
def natValue (s : List Char) : ℕ := s.foldl (fun n c => n * 10 + (c.toNat - 48)) 0

/-- The digits of an optional fraction, and the text behind it. -/
def fractionDigits : List Char → Option (List Char × List Char)
  | '.' :: s =>
      if s.takeWhile Char.isDigit = [] then none
      else some (s.takeWhile Char.isDigit, s.dropWhile Char.isDigit)
  | s => some ([], s)

/-- The exponent at the end of a numeral. -/
def exponentValue : List Char → Option Int
  | [] => some 0
  | c :: s =>
      let digits := Json.exponentSign s
      if (c = 'e' ∨ c = 'E') ∧ digits ≠ [] ∧ digits.all Char.isDigit then
        some (if s.head? = some '-' then -(natValue digits : Int) else natValue digits)
      else none

/-- A numeral without its sign. The integer part has no leading zeros. -/
def unsignedNumeral (s : List Char) : Option ℚ :=
  let int := s.takeWhile Char.isDigit
  if int = ['0'] ∨ (int ≠ [] ∧ int.head? ≠ some '0') then
    (fractionDigits (s.dropWhile Char.isDigit)).bind fun (frac, rest) =>
      (exponentValue rest).map fun e =>
        (natValue (int ++ frac) : ℚ) * 10 ^ (e - (frac.length : Int))
  else none

/-- The number that a numeral denotes. -/
def numeral : List Char → Option ℚ
  | '-' :: s => (unsignedNumeral s).map fun q => -q
  | s => unsignedNumeral s

/-- The binary64 number that is read for a numeral. -/
def numberValue (s : List Char) : Option ℚ := (numeral s).map roundRat

/-! ### Tokens -/

/-- A token with its value. -/
inductive Tok where
  | lbrace
  | rbrace
  | lbracket
  | rbracket
  | colon
  | comma
  | str (units : List ℕ)
  | num (q : ℚ)
  | bool (b : Bool)
  | null
  deriving DecidableEq

/-- Where the scanner is. -/
inductive Scan where
  | between
  /-- in a string, with its content so far -/
  | string (units : List ℕ)
  /-- behind a backslash -/
  | escape (units : List ℕ)
  /-- in a `\u` escape, with so many digits to come behind the next one -/
  | hex (units : List ℕ) (left value : ℕ)
  | number (text : List Char)
  | name (text : List Char)

/-- The code unit of a character behind a backslash, `u` apart. -/
def escapedUnit (c : Char) : Option ℕ :=
  if c = '"' ∨ c = '\\' ∨ c = '/' then some c.toNat
  else if c = 'b' then some 8
  else if c = 'f' then some 12
  else if c = 'n' then some 10
  else if c = 'r' then some 13
  else if c = 't' then some 9
  else none

/-- The value of a hexadecimal digit. -/
def hexValue (c : Char) : Option ℕ :=
  if c.isDigit then some (c.toNat - 48)
  else if 'a' ≤ c ∧ c ≤ 'f' then some (c.toNat - 87)
  else if 'A' ≤ c ∧ c ≤ 'F' then some (c.toNat - 55)
  else none

/-- A character that can stand in a numeral. -/
def isNumberChar (c : Char) : Bool :=
  c.isDigit || c == '-' || c == '+' || c == '.' || c == 'e' || c == 'E'

/-- The tokens of one character. -/
def punctuationTok (c : Char) : Option Tok :=
  if c = '\x7b' then some .lbrace
  else if c = '\x7d' then some .rbrace
  else if c = '[' then some .lbracket
  else if c = ']' then some .rbracket
  else if c = ':' then some .colon
  else if c = ',' then some .comma
  else none

/-- The token of a name. -/
def nameToken (text : List Char) : Option Tok :=
  if text = ['t', 'r', 'u', 'e'] then some (.bool true)
  else if text = ['f', 'a', 'l', 's', 'e'] then some (.bool false)
  else if text = ['n', 'u', 'l', 'l'] then some .null
  else none

/-- The scanner between two tokens: what it writes, and where it goes. -/
def startToken (c : Char) : Option (List Tok × Scan) :=
  if c = '"' then some ([], .string [])
  else if Json.isWhiteSpace c then some ([], .between)
  else
    match punctuationTok c with
    | some t => some ([t], .between)
    | none =>
        if c.isDigit ∨ c = '-' then some ([], .number [c])
        else if c.isLower then some ([], .name [c])
        else none

/-- One character. -/
def Scan.step : Scan → Char → Option (List Tok × Scan)
  | .between, c => startToken c
  | .string units, c =>
      if c = '"' then some ([.str units], .between)
      else if c = '\\' then some ([], .escape units)
      else if c.val < 0x20 then none
      else some ([], .string (units ++ unitsOf c))
  | .escape units, c =>
      if c = 'u' then some ([], .hex units 3 0)
      else (escapedUnit c).map fun u => ([], .string (units ++ [u]))
  | .hex units 0 value, c =>
      (hexValue c).map fun d => ([], .string (units ++ [value * 16 + d]))
  | .hex units (left + 1) value, c =>
      (hexValue c).map fun d => ([], .hex units left (value * 16 + d))
  | .number text, c =>
      if isNumberChar c then some ([], .number (text ++ [c]))
      else
        (numberValue text).bind fun q =>
          (startToken c).map fun (toks, s) => (.num q :: toks, s)
  | .name text, c =>
      if c.isLower then some ([], .name (text ++ [c]))
      else
        (nameToken text).bind fun t =>
          (startToken c).map fun (toks, s) => (t :: toks, s)

/-- The end of the text. -/
def Scan.finish : Scan → Option (List Tok)
  | .between => some []
  | .number text => (numberValue text).map fun q => [.num q]
  | .name text => (nameToken text).map fun t => [t]
  | .string _ => none
  | .escape _ => none
  | .hex _ _ _ => none

/-- The tokens of a text. -/
def tokenize (s : Scan) : List Char → Option (List Tok)
  | [] => s.finish
  | c :: rest => (s.step c).bind fun (toks, s') => (tokenize s' rest).map fun us => toks ++ us

/-! ### The grammar -/

mutual

/-- A value, and the tokens behind it. -/
def value : ℕ → List Tok → Option (Value × List Tok)
  | 0, _ => none
  | fuel + 1, toks =>
      match toks with
      | .null :: rest => some (.null, rest)
      | .bool b :: rest => some (.bool b, rest)
      | .num q :: rest => some (.num q, rest)
      | .str units :: rest => some (.str units, rest)
      | .lbracket :: .rbracket :: rest => some (.arr [], rest)
      | .lbracket :: rest =>
          (elements fuel rest).map fun (items, rest) => (.arr items, rest)
      | .lbrace :: .rbrace :: rest => some (.obj [], rest)
      | .lbrace :: rest =>
          (members fuel rest).map fun (items, rest) => (.obj items, rest)
      | _ => none

/-- The elements of an array, up to its closing bracket. -/
def elements : ℕ → List Tok → Option (List Value × List Tok)
  | 0, _ => none
  | fuel + 1, toks =>
      (value fuel toks).bind fun (v, rest) =>
        match rest with
        | .comma :: rest => (elements fuel rest).map fun (items, rest) => (v :: items, rest)
        | .rbracket :: rest => some ([v], rest)
        | _ => none

/-- The members of an object, up to its closing brace. -/
def members : ℕ → List Tok → Option (List (List ℕ × Value) × List Tok)
  | 0, _ => none
  | fuel + 1, toks =>
      match toks with
      | .str key :: .colon :: toks =>
          (value fuel toks).bind fun (v, rest) =>
            match rest with
            | .comma :: rest =>
                (members fuel rest).map fun (items, rest) => ((key, v) :: items, rest)
            | .rbrace :: rest => some ([(key, v)], rest)
            | _ => none
      | _ => none

end

/-- The value of a text. -/
def parse (text : List Char) : Option Value :=
  (tokenize .between text).bind fun toks =>
    match value toks.length toks with
    | some (v, []) => some v
    | _ => none

/-! ### Texts with holes -/

section Fill
variable {α : Type} (text : α → List Char) (number : α → ℚ)

/-- The text of one unit. -/
def fillAtom : Atom α → List Char
  | .char c => [c]
  | .word a => text a
  | .num a => text a

/-- The text with its holes filled. -/
def fill (atoms : List (Atom α)) : List Char := atoms.flatMap (fillAtom text)

theorem fill_append (xs ys : List (Atom α)) : fill text (xs ++ ys) = fill text xs ++ fill text ys :=
  List.flatMap_append

/-- A token with its value. -/
def fillToken : Token α → Tok
  | .lbrace => .lbrace
  | .rbrace => .rbrace
  | .lbracket => .lbracket
  | .rbracket => .rbracket
  | .colon => .colon
  | .comma => .comma
  | .str content => .str (utf16 (fill text content))
  | .num a => .num (number a)

/-- No control characters. -/
def plainText (s : List Char) : Bool := s.all fun c => !(c.val < 0x20)

/-- A token that may stand in a text. -/
def plainToken : Token α → Bool
  | .str content => plainText (fill text content)
  | _ => true

/-- The values of tokens that may all stand in a text. -/
def fillTokens (ts : List (Token α)) : Option (List Tok) :=
  if ts.all (plainToken text) then some (ts.map (fillToken text number)) else none

/-- Every hole ends where it should: behind a word comes a quote, and behind a number a character
that cannot stand in a numeral. -/
def closed : List (Atom α) → Bool
  | [] => true
  | .char _ :: rest => closed rest
  | .word _ :: .char c :: rest => c == '"' && closed (.char c :: rest)
  | .num _ :: .char c :: rest => !isNumberChar c && closed (.char c :: rest)
  | _ => false

/-- A numeral that is read as a number, as it stands in a text. -/
structure IsNumeral (s : List Char) (q : ℚ) : Prop where
  chars : ∀ c ∈ s, isNumberChar c = true
  head : ∃ d ds, s = d :: ds ∧ (d.isDigit = true ∨ d = '-')
  value : numberValue s = some q

end Fill

/-- The rest of a text whose holes are closed. -/
theorem closed_tail {α : Type} {a : Atom α} {atoms : List (Atom α)}
    (h : closed (a :: atoms) = true) : closed atoms = true := by
  cases a with
  | char c => exact h
  | word b =>
      obtain _ | ⟨_ | _ | _, rest⟩ := atoms <;> simp only [closed, Bool.false_eq_true] at h
      exact (Bool.and_eq_true _ _ ▸ h).2
  | num b =>
      obtain _ | ⟨_ | _ | _, rest⟩ := atoms <;> simp only [closed, Bool.false_eq_true] at h
      exact (Bool.and_eq_true _ _ ▸ h).2

/-- Two texts whose holes are closed. -/
theorem closed_append {α : Type} {xs ys : List (Atom α)} (hx : closed xs = true)
    (hy : closed ys = true) : closed (xs ++ ys) = true := by
  induction xs with
  | nil => exact hy
  | cons a xs ih =>
      cases a with
      | char c => exact ih hx
      | word a =>
          obtain _ | ⟨_ | _ | _, rest⟩ := xs <;> simp only [closed, Bool.false_eq_true] at hx
          rw [Bool.and_eq_true] at hx
          simp only [List.cons_append, closed, Bool.and_eq_true]
          exact ⟨hx.1, ih hx.2⟩
      | num a =>
          obtain _ | ⟨_ | _ | _, rest⟩ := xs <;> simp only [closed, Bool.false_eq_true] at hx
          rw [Bool.and_eq_true] at hx
          simp only [List.cons_append, closed, Bool.and_eq_true]
          exact ⟨hx.1, ih hx.2⟩

/-! ### Tokens of a filled text -/

/-- The content of a string: the scanner stays in the string, or it stops at a control
character. -/
theorem tokenize_string {cs : List Char} (h : ∀ c ∈ cs, c ≠ '"' ∧ c ≠ '\\') (units : List ℕ)
    (rest : List Char) :
    tokenize (.string units) (cs ++ rest)
      = if plainText cs then tokenize (.string (units ++ utf16 cs)) rest else none := by
  induction cs generalizing units with
  | nil => simp [plainText, utf16]
  | cons c cs ih =>
      obtain ⟨hquote, hbackslash⟩ := h c List.mem_cons_self
      rw [List.cons_append, tokenize, Scan.step, if_neg hquote, if_neg hbackslash]
      by_cases hc : c.val < 0x20
      · have hplain : plainText (c :: cs) = false := by
          simp [plainText, hc]
        rw [if_pos hc, hplain]
        rfl
      · have hplain : plainText (c :: cs) = plainText cs := by
          simp [plainText, hc]
        have hunits : units ++ unitsOf c ++ utf16 cs = units ++ utf16 (c :: cs) := by
          rw [List.append_assoc]
          rfl
        have hrest := ih (fun d hd => h d (List.mem_cons_of_mem c hd)) (units ++ unitsOf c)
        rw [if_neg hc, hplain, Option.bind_some]
        show (tokenize (.string (units ++ unitsOf c)) (cs ++ rest)).map ([] ++ ·) = _
        rw [hrest, hunits]
        split
        · exact congrFun Option.map_id _
        · rfl

/-- The characters of a numeral are collected. -/
theorem tokenize_number {ds : List Char} (h : ∀ c ∈ ds, isNumberChar c = true)
    (s rest : List Char) :
    tokenize (.number s) (ds ++ rest) = tokenize (.number (s ++ ds)) rest := by
  induction ds generalizing s with
  | nil => rw [List.nil_append, List.append_nil]
  | cons d ds ih =>
      have hrest := ih (fun c hc => h c (List.mem_cons_of_mem d hc)) (s ++ [d])
      rw [List.cons_append, tokenize, Scan.step, if_pos (h d List.mem_cons_self), Option.bind_some]
      show (tokenize (.number (s ++ [d])) (ds ++ rest)).map ([] ++ ·) = _
      rw [hrest, List.append_assoc]
      exact congrFun Option.map_id _

/-- A numeral up to a character that cannot stand in it. -/
theorem tokenize_numeral {s : List Char} {q : ℚ} (h : IsNumeral s q) {c : Char}
    (hc : isNumberChar c = false) (rest : List Char) :
    tokenize .between (s ++ c :: rest) = (tokenize .between (c :: rest)).map (.num q :: ·) := by
  obtain ⟨d, ds, rfl, hd⟩ := h.head
  have hstart : startToken d = some ([], .number [d]) := by
    have hne : ∀ e : Char, e.isDigit = false → e ≠ '-' → d ≠ e := by
      rintro e hdigit hminus rfl
      rcases hd with hd | hd
      · rw [hdigit] at hd
        cases hd
      · exact hminus hd
    have hspace : Json.isWhiteSpace d = false := by
      simp only [Json.isWhiteSpace, Bool.or_eq_false_iff, beq_eq_false_iff_ne]
      exact ⟨⟨⟨hne _ rfl (by decide), hne _ rfl (by decide)⟩, hne _ rfl (by decide)⟩,
        hne _ rfl (by decide)⟩
    have hpunct : punctuationTok d = none := by
      unfold punctuationTok
      rw [if_neg (hne _ rfl (by decide)), if_neg (hne _ rfl (by decide)),
        if_neg (hne _ rfl (by decide)), if_neg (hne _ rfl (by decide)),
        if_neg (hne _ rfl (by decide)), if_neg (hne _ rfl (by decide))]
    unfold startToken
    rw [if_neg (hne _ rfl (by decide)), hspace, hpunct]
    simp only [Bool.false_eq_true, if_false]
    rw [if_pos hd]
  have hds : ∀ c ∈ ds, isNumberChar c = true := fun c hc => h.chars c (List.mem_cons_of_mem d hc)
  rw [List.cons_append, tokenize, Scan.step, hstart, Option.bind_some]
  show (tokenize (.number [d]) (ds ++ c :: rest)).map ([] ++ ·) = _
  rw [tokenize_number hds, tokenize, tokenize, Scan.step, Scan.step, hc, List.singleton_append,
    h.value]
  simp only [Bool.false_eq_true, if_false, Option.bind_some]
  cases startToken c with
  | none => rfl
  | some r =>
      obtain ⟨toks, st⟩ := r
      simp only [Option.map_some, Option.bind_some, Option.map_map]
      rfl

section Fill
variable {α : Type} {text : α → List Char} {number : α → ℚ}

/-- The scanner and the lexer know the same punctuation. -/
theorem punctuationTok_eq (text : α → List Char) (number : α → ℚ) (c : Char) :
    punctuationTok c = (punctuation c).map (fillToken text number) := by
  unfold punctuationTok punctuation
  repeat' split
  all_goals rfl

/-- Punctuation may stand in every text. -/
theorem plainToken_of_punctuation {c : Char} {t : Token α} (h : punctuation c = some t) :
    plainToken text t = true := by
  unfold punctuation at h
  repeat' split at h
  all_goals first | cases h; rfl | cases h

/-- A string that is open becomes the first token. -/
theorem lex_open {content atoms : List (Atom α)} {ts : List (Token α)}
    (h : lex (some content) atoms = some ts) :
    ∃ more us, ts = .str (content ++ more) :: us := by
  induction atoms generalizing content with
  | nil => cases h
  | cons a atoms ih =>
      have hlonger : ∀ {b : Atom α}, lex (some (content ++ [b])) atoms = some ts →
          ∃ more us, ts = .str (content ++ more) :: us := by
        intro b hb
        obtain ⟨more, us, hts⟩ := ih hb
        exact ⟨b :: more, us, by rw [hts, List.append_assoc, List.singleton_append]⟩
      cases a with
      | char c =>
          rw [lex] at h
          split at h
          · obtain ⟨us, -, rfl⟩ := Option.map_eq_some_iff.mp h
            exact ⟨[], us, by rw [List.append_nil]⟩
          · split at h
            · cases h
            · exact hlonger h
      | word b => exact hlonger h
      | num b => exact hlonger h

theorem plainText_append (s t : List Char) :
    plainText (s ++ t) = (plainText s && plainText t) := List.all_append

/-- A character of a numeral ends no string. -/
theorem ne_of_isNumberChar {c : Char} (h : isNumberChar c = true) : c ≠ '"' ∧ c ≠ '\\' := by
  constructor
  · rintro rfl
    cases h
  · rintro rfl
    cases h

/-- A token that needs no more than its characters. -/
theorem fillTokens_cons {t : Token α} (h : plainToken text t = true) (ts : List (Token α)) :
    fillTokens text number (t :: ts)
      = (fillTokens text number ts).map (fillToken text number t :: ·) := by
  unfold fillTokens
  rw [List.all_cons, h, Bool.true_and]
  split <;> rfl

/-- A character between two tokens. -/
theorem tokenize_between {c : Char} {atoms : List (Atom α)} {ts : List (Token α)}
    (h : lex none (.char c :: atoms) = some ts)
    (hstring : ∀ us, lex (some []) atoms = some us →
      tokenize (.string []) (fill text atoms) = fillTokens text number us)
    (hbetween : ∀ us, lex none atoms = some us →
      tokenize .between (fill text atoms) = fillTokens text number us) :
    tokenize .between (fill text (.char c :: atoms)) = fillTokens text number ts := by
  rw [lex] at h
  show ((startToken c).bind fun r =>
    (tokenize r.2 (fill text atoms)).map fun us => r.1 ++ us) = _
  unfold startToken
  split at h
  · rename_i hquote
    rw [if_pos hquote, ← hstring ts h]
    exact congrFun Option.map_id _
  · rename_i hquote
    rw [if_neg hquote]
    split at h
    · rename_i hspace
      rw [if_pos hspace, ← hbetween ts h]
      exact congrFun Option.map_id _
    · rename_i hspace
      rw [if_neg hspace, punctuationTok_eq text number]
      cases hp : (punctuation c : Option (Token α)) with
      | none =>
          rw [hp] at h
          cases h
      | some t =>
          rw [hp] at h
          obtain ⟨us, hus, rfl⟩ := Option.map_eq_some_iff.mp h
          rw [fillTokens_cons (plainToken_of_punctuation hp), ← hbetween us hus]
          rfl

/-- Content of a string: everything but its closing quote. -/
theorem tokenize_content {content atoms : List (Atom α)} {a : Atom α} {ts : List (Token α)}
    (h : lex (some (content ++ [a])) atoms = some ts)
    (ha : ∀ c ∈ fillAtom text a, c ≠ '"' ∧ c ≠ '\\')
    (hcontent : plainText (fill text content) = true)
    (hrest : plainText (fill text (content ++ [a])) = true →
      tokenize (.string (utf16 (fill text (content ++ [a])))) (fill text atoms)
        = fillTokens text number ts) :
    tokenize (.string (utf16 (fill text content))) (fill text (a :: atoms))
      = fillTokens text number ts := by
  have hfill : fill text (content ++ [a]) = fill text content ++ fillAtom text a := by
    rw [fill_append]
    show _ ++ (fillAtom text a ++ []) = _
    rw [List.append_nil]
  show tokenize (.string _) (fillAtom text a ++ fill text atoms) = _
  rw [tokenize_string ha, ← utf16_append, ← hfill]
  cases hplain : plainText (fillAtom text a) with
  | true =>
      refine hrest ?_
      rw [hfill, plainText_append, hcontent, hplain]
      rfl
  | false =>
      -- The control character is in the token that the string becomes.
      obtain ⟨more, us, rfl⟩ := lex_open h
      have hbad : plainToken text (.str (content ++ [a] ++ more)) = false := by
        show plainText (fill text (content ++ [a] ++ more)) = false
        rw [fill_append, hfill, plainText_append, plainText_append, hplain, Bool.and_false,
          Bool.false_and]
      unfold fillTokens
      rw [List.all_cons, hbad]
      rfl

/-- The scanner in the place of the lexer. -/
def scanOf (text : α → List Char) : Option (List (Atom α)) → Scan
  | none => .between
  | some content => .string (utf16 (fill text content))

/-- The open string has no control characters so far. -/
def plainOpen (text : α → List Char) : Option (List (Atom α)) → Bool
  | none => true
  | some content => plainText (fill text content)

/-- The tokens of a text whose holes are filled. Words without quotes and backslashes stay in
their strings, and a control character in a string is an error. -/
theorem tokenize_fill {st : Option (List (Atom α))} {atoms : List (Atom α)}
    {ts : List (Token α)} (h : lex st atoms = some ts) (hclosed : closed atoms = true)
    (hst : plainOpen text st = true)
    (hwords : ∀ a, .word a ∈ atoms → ∀ c ∈ text a, c ≠ '"' ∧ c ≠ '\\')
    (hnums : ∀ a, .num a ∈ atoms → IsNumeral (text a) (number a)) :
    tokenize (scanOf text st) (fill text atoms) = fillTokens text number ts := by
  induction atoms generalizing st ts with
  | nil =>
      cases st with
      | none =>
          obtain rfl := Option.some.inj h
          rfl
      | some content => cases h
  | cons a atoms ih =>
      have hrest {st : Option (List (Atom α))} {us : List (Token α)} (hus : lex st atoms = some us)
          (hplain : plainOpen text st = true) :
          tokenize (scanOf text st) (fill text atoms) = fillTokens text number us :=
        ih hus (closed_tail hclosed) hplain (fun b hb => hwords b (List.mem_cons_of_mem a hb))
          fun b hb => hnums b (List.mem_cons_of_mem a hb)
      cases st with
      | none =>
          cases a with
          | char c =>
              exact tokenize_between h (fun us hus => hrest hus rfl) fun us hus => hrest hus rfl
          | word b => cases h
          | num b =>
              obtain ⟨us, hus, rfl⟩ := Option.map_eq_some_iff.mp h
              obtain _ | ⟨_ | _ | _, rest⟩ := atoms <;>
                simp only [closed, Bool.false_eq_true] at hclosed
              rename_i c
              rw [Bool.and_eq_true, Bool.not_eq_true'] at hclosed
              rw [fillTokens_cons rfl, ← hrest hus rfl]
              exact tokenize_numeral (hnums b List.mem_cons_self) hclosed.1 (fill text rest)
      | some content =>
          have hmore (hlex : lex (some (content ++ [a])) atoms = some ts)
              (ha : ∀ c ∈ fillAtom text a, c ≠ '"' ∧ c ≠ '\\') :=
            tokenize_content hlex ha hst (hrest hlex)
          cases a with
          | char c =>
              rw [lex] at h
              split at h
              · rename_i hquote
                subst hquote
                obtain ⟨us, hus, rfl⟩ := Option.map_eq_some_iff.mp h
                have hplain : plainToken text (.str content) = true := hst
                rw [fillTokens_cons hplain, ← hrest hus rfl]
                rfl
              · rename_i hquote
                split at h
                · cases h
                · rename_i hbackslash
                  refine hmore h fun d hd => ?_
                  obtain rfl := List.mem_singleton.mp hd
                  exact ⟨hquote, hbackslash⟩
          | word b => exact hmore h (hwords b List.mem_cons_self)
          | num b =>
              exact hmore h fun d hd =>
                ne_of_isNumberChar ((hnums b List.mem_cons_self).chars d hd)

end Fill

/-! ### Trees -/

section Trees
variable {α : Type} (text : α → List Char) (number : α → ℚ)

mutual
/-- The value of a tree. -/
def treeValue : JsonTree α → Value
  | .str content => .str (utf16 (fill text content))
  | .num a => .num (number a)
  | .arr items => .arr (itemValues items)
  | .obj items => .obj (memberValues items)

/-- The values of the elements of an array. -/
def itemValues : List (JsonTree α) → List Value
  | [] => []
  | t :: rest => treeValue t :: itemValues rest

/-- The members of an object with their values. -/
def memberValues : List (List (Atom α) × JsonTree α) → List (List ℕ × Value)
  | [] => []
  | m :: rest => pairValue m :: memberValues rest

/-- One member with its value. -/
def pairValue : List (Atom α) × JsonTree α → List ℕ × Value
  | (key, t) => (utf16 (fill text key), treeValue t)
end

theorem itemValues_eq (items : List (JsonTree α)) :
    itemValues text number items = items.map (treeValue text number) := by
  induction items with
  | nil => rw [itemValues, List.map_nil]
  | cons t rest ih => rw [itemValues, ih, List.map_cons]

theorem memberValues_eq (items : List (List (Atom α) × JsonTree α)) :
    memberValues text number items
      = items.map fun m => (utf16 (fill text m.1), treeValue text number m.2) := by
  induction items with
  | nil => rw [memberValues, List.map_nil]
  | cons m rest ih =>
      obtain ⟨key, t⟩ := m
      rw [memberValues, ih, List.map_cons, pairValue]

/-- A value does not begin with a closing bracket or brace. -/
theorem tokens_head (t : JsonTree α) :
    ∃ k ks, t.tokens = k :: ks ∧ k ≠ .rbracket ∧ k ≠ .rbrace := by
  cases t with
  | str content => exact ⟨_, _, JsonTree.tokens.eq_1 content, by simp, by simp⟩
  | num a => exact ⟨_, _, JsonTree.tokens.eq_2 a, by simp, by simp⟩
  | arr items => exact ⟨_, _, JsonTree.tokens.eq_3 items, by simp, by simp⟩
  | obj items => exact ⟨_, _, JsonTree.tokens.eq_4 items, by simp, by simp⟩

/-- An array with an element. -/
theorem value_lbracket {toks : List Tok} (h : ∀ rest, toks ≠ .rbracket :: rest) (fuel : ℕ) :
    value (fuel + 1) (.lbracket :: toks)
      = (elements fuel toks).map fun (items, rest) => (.arr items, rest) := by
  cases toks with
  | nil => rfl
  | cons k ks => cases k <;> first | rfl | exact absurd rfl (h ks)

/-- An object with a member. -/
theorem value_lbrace {toks : List Tok} (h : ∀ rest, toks ≠ .rbrace :: rest) (fuel : ℕ) :
    value (fuel + 1) (.lbrace :: toks)
      = (members fuel toks).map fun (items, rest) => (.obj items, rest) := by
  cases toks with
  | nil => rfl
  | cons k ks => cases k <;> first | rfl | exact absurd rfl (h ks)

/-- The first token of an array's elements is not its closing bracket. -/
theorem items_head (t : JsonTree α) (ts : List (JsonTree α)) (behind : List Tok) (rest : List Tok) :
    (separated (itemTokens (t :: ts))).map (fillToken text number) ++ behind
      ≠ .rbracket :: rest := by
  obtain ⟨k, ks, htokens, hk, -⟩ := tokens_head t
  rw [itemTokens, separated_cons, htokens]
  intro heq
  cases k <;> first | exact hk rfl | cases heq

mutual
/-- A tree is read back from its tokens, and the tokens behind it are left. -/
theorem value_tokens : ∀ (t : JsonTree α) (fuel : ℕ), t.tokens.length ≤ fuel → ∀ rest : List Tok,
    value fuel (t.tokens.map (fillToken text number) ++ rest)
      = some (treeValue text number t, rest)
  | .str content, fuel, hfuel, rest => by
      rw [JsonTree.tokens] at hfuel ⊢
      obtain ⟨n, rfl⟩ : ∃ n, fuel = n + 1 := ⟨fuel - 1, by simp at hfuel; omega⟩
      rw [treeValue]
      rfl
  | .num a, fuel, hfuel, rest => by
      rw [JsonTree.tokens] at hfuel ⊢
      obtain ⟨n, rfl⟩ : ∃ n, fuel = n + 1 := ⟨fuel - 1, by simp at hfuel; omega⟩
      rw [treeValue]
      rfl
  | .arr [], fuel, hfuel, rest => by
      rw [JsonTree.tokens] at hfuel ⊢
      obtain ⟨n, rfl⟩ : ∃ n, fuel = n + 1 := ⟨fuel - 1, by simp at hfuel; omega⟩
      rw [treeValue, itemValues, itemTokens]
      rfl
  | .arr (t :: ts), fuel, hfuel, rest => by
      rw [JsonTree.tokens] at hfuel ⊢
      simp only [List.cons_append, List.length_cons, List.length_append, List.length_nil] at hfuel
      obtain ⟨n, rfl⟩ : ∃ n, fuel = n + 1 := ⟨fuel - 1, by omega⟩
      have hitems := elements_tokens (t :: ts) (by simp) n (by omega) rest
      rw [List.cons_append, List.map_cons, List.map_append, List.cons_append, List.append_assoc]
      show value (n + 1) (.lbracket :: (_ ++ (.rbracket :: rest))) = _
      rw [value_lbracket (items_head text number t ts _), hitems, treeValue]
      rfl
  | .obj [], fuel, hfuel, rest => by
      rw [JsonTree.tokens] at hfuel ⊢
      obtain ⟨n, rfl⟩ : ∃ n, fuel = n + 1 := ⟨fuel - 1, by simp at hfuel; omega⟩
      rw [treeValue, memberValues, memberTokens]
      rfl
  | .obj (m :: ms), fuel, hfuel, rest => by
      rw [JsonTree.tokens] at hfuel ⊢
      simp only [List.cons_append, List.length_cons, List.length_append, List.length_nil] at hfuel
      obtain ⟨n, rfl⟩ : ∃ n, fuel = n + 1 := ⟨fuel - 1, by omega⟩
      have hitems := members_tokens (m :: ms) (by simp) n (by omega) rest
      have hhead : ∀ r, (separated (memberTokens (m :: ms))).map (fillToken text number)
          ++ .rbrace :: rest ≠ .rbrace :: r := by
        obtain ⟨key, t⟩ := m
        intro r heq
        rw [memberTokens, separated_cons, pairTokens] at heq
        cases heq
      rw [List.cons_append, List.map_cons, List.map_append, List.cons_append, List.append_assoc]
      show value (n + 1) (.lbrace :: (_ ++ (.rbrace :: rest))) = _
      rw [value_lbrace hhead, hitems, treeValue]
      rfl

/-- The elements of an array. -/
theorem elements_tokens : ∀ (items : List (JsonTree α)), items ≠ [] → ∀ fuel : ℕ,
    (separated (itemTokens items)).length < fuel → ∀ rest : List Tok,
    elements fuel ((separated (itemTokens items)).map (fillToken text number)
        ++ .rbracket :: rest)
      = some (itemValues text number items, rest)
  | [], hne, _, _, _ => absurd rfl hne
  | [t], _, fuel, hfuel, rest => by
      obtain ⟨n, rfl⟩ : ∃ n, fuel = n + 1 := ⟨fuel - 1, by omega⟩
      have htoks : separated (itemTokens [t]) = t.tokens := by
        rw [itemTokens, itemTokens]
        rfl
      rw [htoks] at hfuel ⊢
      rw [elements, value_tokens t n (by omega), itemValues, itemValues]
      rfl
  | t :: u :: ts, _, fuel, hfuel, rest => by
      obtain ⟨n, rfl⟩ : ∃ n, fuel = n + 1 := ⟨fuel - 1, by omega⟩
      have htoks : separated (itemTokens (t :: u :: ts))
          = t.tokens ++ .comma :: separated (itemTokens (u :: ts)) := by
        rw [itemTokens, itemTokens]
        rfl
      rw [htoks] at hfuel ⊢
      simp only [List.length_append, List.length_cons] at hfuel
      have hitems := elements_tokens (u :: ts) (by simp) n (by omega) rest
      rw [List.map_append, List.append_assoc, elements, value_tokens t n (by omega), itemValues]
      show (elements n (_ ++ (.rbracket :: rest))).map _ = _
      rw [hitems]
      rfl

/-- The members of an object. -/
theorem members_tokens : ∀ (items : List (List (Atom α) × JsonTree α)), items ≠ [] → ∀ fuel : ℕ,
    (separated (memberTokens items)).length < fuel → ∀ rest : List Tok,
    members fuel ((separated (memberTokens items)).map (fillToken text number)
        ++ .rbrace :: rest)
      = some (memberValues text number items, rest)
  | [], hne, _, _, _ => absurd rfl hne
  | [(key, t)], _, fuel, hfuel, rest => by
      obtain ⟨n, rfl⟩ : ∃ n, fuel = n + 1 := ⟨fuel - 1, by omega⟩
      have htoks : separated (memberTokens [(key, t)]) = .str key :: .colon :: t.tokens := by
        rw [memberTokens, memberTokens, pairTokens]
        rfl
      rw [htoks] at hfuel ⊢
      simp only [List.length_cons] at hfuel
      rw [memberValues, memberValues, pairValue]
      show members (n + 1) (.str _ :: .colon :: (t.tokens.map _ ++ (.rbrace :: rest))) = _
      rw [members, value_tokens t n (by omega)]
      rfl
  | (key, t) :: m :: ms, _, fuel, hfuel, rest => by
      obtain ⟨n, rfl⟩ : ∃ n, fuel = n + 1 := ⟨fuel - 1, by omega⟩
      have htoks : separated (memberTokens ((key, t) :: m :: ms))
          = .str key :: .colon :: t.tokens ++ .comma :: separated (memberTokens (m :: ms)) := by
        rw [memberTokens, memberTokens, pairTokens]
        rfl
      rw [htoks] at hfuel ⊢
      simp only [List.length_append, List.length_cons] at hfuel
      have hitems := members_tokens (m :: ms) (by simp) n (by omega) rest
      rw [memberValues, pairValue, List.map_append, List.append_assoc]
      show members (n + 1) (.str _ :: .colon :: (t.tokens.map _ ++ _)) = _
      rw [members, value_tokens t n (by omega)]
      show Option.map _ (members n (_ ++ (.rbrace :: rest))) = _
      rw [hitems]
      rfl
end

variable {text number}

/-- The text of a tree, with its holes filled, has the value of the tree. Words without quotes and
backslashes do no harm, but a control character in a string does. -/
theorem parse_fill {atoms : List (Atom α)} {t : JsonTree α} (h : Lexes atoms t.tokens)
    (hclosed : closed atoms = true)
    (hwords : ∀ a, .word a ∈ atoms → ∀ c ∈ text a, c ≠ '"' ∧ c ≠ '\\')
    (hnums : ∀ a, .num a ∈ atoms → IsNumeral (text a) (number a)) :
    parse (fill text atoms)
      = if t.tokens.all (plainToken text) then some (treeValue text number t) else none := by
  have htoks : tokenize .between (fill text atoms) = fillTokens text number t.tokens :=
    tokenize_fill h hclosed rfl hwords hnums
  unfold parse
  rw [htoks, fillTokens]
  split
  · have hvalue := value_tokens text number t t.tokens.length le_rfl []
    rw [List.append_nil] at hvalue
    rw [Option.bind_some, List.length_map, hvalue]
  · rfl

end Trees

end ProcessAnalyzer.Lib.JsonText
