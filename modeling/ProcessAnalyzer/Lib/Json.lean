import Mathlib.Data.List.Basic
import Mathlib.Data.Nat.Notation

/-!
# `ProcessAnalyzer.Lib.Json`: a recogniser of JSON texts

A recursive-descent recogniser of the JSON grammar (RFC 8259). Every function takes the text
from some place on and returns the text behind what it has recognised. The recursion through
nested values is bounded by fuel. One unit per character is enough, since every nested call
has passed a character.

* `string` recognises a string behind its opening quote, by an automaton that reads one
  character at a time. `isStringBody` says that a text may stand between the quotes
  (`string_append`).
* `number`, `value`, `members` and `elements` follow the grammar, and `isObject` is the test
  of a whole text.
* `members_int` and `members_string` recognise one member of an object that is written
  without white space, and `afterValue_comma` and `afterValue_close` what follows it.
-/

set_option autoImplicit false

namespace ProcessAnalyzer.Lib.Json

/-! ### Lexical parts -/

/-- White space between tokens. -/
def isWhiteSpace (c : Char) : Bool := c == ' ' || c == '\t' || c == '\n' || c == '\r'

/-- The text without white space at its beginning. -/
def skip (s : List Char) : List Char := s.dropWhile isWhiteSpace

/-- A hexadecimal digit. -/
def isHexDigit (c : Char) : Bool :=
  c.isDigit || ('a' ≤ c && c ≤ 'f') || ('A' ≤ c && c ≤ 'F')

/-- A character that may stand behind a backslash, `u` apart. -/
def isEscape (c : Char) : Bool :=
  c == '"' || c == '\\' || c == '/' || c == 'b' || c == 'f' || c == 'n' || c == 'r' || c == 't'

/-- Where the recogniser is inside of a string. -/
inductive StringState where
  | plain
  /-- behind a backslash -/
  | escape
  /-- in a `\u` escape, with so many hexadecimal digits to come behind the next one -/
  | hex (left : ℕ)
  deriving DecidableEq

/-- The state behind a character that does not end the string, if it may stand there. -/
def StringState.next : StringState → Char → Option StringState
  | .plain, c => if c = '\\' then some .escape else if c.val < 0x20 then none else some .plain
  | .escape, c => if isEscape c then some .plain else if c = 'u' then some (.hex 3) else none
  | .hex 0, c => if isHexDigit c then some .plain else none
  | .hex (left + 1), c => if isHexDigit c then some (.hex left) else none

/-- A string from a state on, up to its closing quote. -/
def string (st : StringState) : List Char → Option (List Char)
  | [] => none
  | c :: rest =>
      if st = .plain ∧ c = '"' then some rest
      else (st.next c).bind fun st' => string st' rest

/-- The text from a state on may stand before the closing quote. -/
def bodyFrom (st : StringState) : List Char → Bool
  | [] => st = .plain
  | c :: rest =>
      if st = .plain ∧ c = '"' then false
      else match st.next c with
        | some st' => bodyFrom st' rest
        | none => false

/-- The text may stand between the quotes of a string. -/
def isStringBody (s : List Char) : Bool := bodyFrom .plain s

/-- The digits behind a first digit. -/
def digits : List Char → Option (List Char)
  | c :: rest => if c.isDigit then some (rest.dropWhile Char.isDigit) else none
  | [] => none

/-- The integer part of a number: no leading zeros. -/
def intPart : List Char → Option (List Char)
  | '0' :: rest => some rest
  | s => digits s

/-- The optional fraction of a number. -/
def fraction : List Char → Option (List Char)
  | '.' :: rest => digits rest
  | s => some s

/-- The sign of an exponent, if there is one. -/
def exponentSign : List Char → List Char
  | '+' :: rest => rest
  | '-' :: rest => rest
  | s => s

/-- The optional exponent of a number. -/
def exponent : List Char → Option (List Char)
  | 'e' :: rest => digits (exponentSign rest)
  | 'E' :: rest => digits (exponentSign rest)
  | s => some s

/-- A number. -/
def number : List Char → Option (List Char)
  | '-' :: rest => (intPart rest).bind fun s => (fraction s).bind exponent
  | s => (intPart s).bind fun s => (fraction s).bind exponent

/-! ### Values -/

mutual

/-- A value, without white space around it. -/
def value : ℕ → List Char → Option (List Char)
  | 0, _ => none
  | fuel + 1, s =>
      match s with
      | '"' :: rest => string .plain rest
      | '\x7b' :: rest =>
          match skip rest with
          | '\x7d' :: rest => some rest
          | rest => members fuel rest
      | '[' :: rest =>
          match skip rest with
          | ']' :: rest => some rest
          | rest => elements fuel rest
      | 't' :: 'r' :: 'u' :: 'e' :: rest => some rest
      | 'f' :: 'a' :: 'l' :: 's' :: 'e' :: rest => some rest
      | 'n' :: 'u' :: 'l' :: 'l' :: rest => some rest
      | s => number s

/-- The members of an object, from the quote of a key on. -/
def members : ℕ → List Char → Option (List Char)
  | 0, _ => none
  | fuel + 1, s =>
      match s with
      | '"' :: rest =>
          (string .plain rest).bind fun rest =>
            match skip rest with
            | ':' :: rest =>
                (value fuel (skip rest)).bind fun rest =>
                  match skip rest with
                  | ',' :: rest => members fuel (skip rest)
                  | '\x7d' :: rest => some rest
                  | _ => none
            | _ => none
      | _ => none

/-- The elements of an array, from a value on. -/
def elements : ℕ → List Char → Option (List Char)
  | 0, _ => none
  | fuel + 1, s =>
      (value fuel s).bind fun rest =>
        match skip rest with
        | ',' :: rest => elements fuel (skip rest)
        | ']' :: rest => some rest
        | _ => none

end

/-- The text is one JSON object, with white space around it at most. -/
def isObject (text : List Char) : Bool :=
  match skip text with
  | '\x7b' :: _ => (value (text.length + 1) (skip text)).map skip = some []
  | _ => false

/-! ### Strings -/

/-- A body is recognised up to its closing quote. -/
theorem string_append_of_bodyFrom {st : StringState} {body : List Char}
    (h : bodyFrom st body = true) (rest : List Char) :
    string st (body ++ '"' :: rest) = some rest := by
  induction body generalizing st with
  | nil =>
      have hst : st = .plain := by simpa [bodyFrom] using h
      simp [string, hst]
  | cons c body ih =>
      rw [bodyFrom] at h
      split at h
      · cases h
      · rename_i hquote
        rw [List.cons_append, string, if_neg hquote]
        cases hnext : st.next c with
        | none => simp [hnext] at h
        | some st' =>
            rw [hnext] at h
            exact ih h

/-- A string with a proper body. -/
theorem string_append {body : List Char} (h : isStringBody body = true) (rest : List Char) :
    string .plain (body ++ '"' :: rest) = some rest :=
  string_append_of_bodyFrom h rest

/-- A character that stands for itself in a string. -/
def IsPlain (c : Char) : Prop := c ≠ '"' ∧ c ≠ '\\' ∧ ¬ c.val < 0x20

/-- Text of plain characters may stand in a string. -/
theorem isStringBody_of_isPlain {body : List Char} (h : ∀ c ∈ body, IsPlain c) :
    isStringBody body = true := by
  unfold isStringBody
  induction body with
  | nil => rfl
  | cons c body ih =>
      obtain ⟨hquote, hbackslash, hcontrol⟩ := h c List.mem_cons_self
      simp only [bodyFrom, StringState.next, hquote, hbackslash, hcontrol, and_false, if_false]
      exact ih fun d hd => h d (List.mem_cons_of_mem _ hd)

/-- A character that does not end the string is no control character. -/
theorem le_of_next {st st' : StringState} {c : Char} (h : st.next c = some st') :
    ¬ c.val < 0x20 := by
  intro hcontrol
  have hbackslash : c ≠ '\\' := by
    rintro rfl
    revert hcontrol
    decide
  have hhex : isHexDigit c = false := by
    cases hdigit : isHexDigit c with
    | false => rfl
    | true =>
        simp only [isHexDigit, Char.isDigit, Bool.or_eq_true, Bool.and_eq_true, decide_eq_true_eq,
          ge_iff_le, Char.le_def, UInt32.le_iff_toNat_le, UInt32.lt_iff_toNat_lt] at hdigit hcontrol
        simp at hdigit hcontrol
        omega
  have hescape : isEscape c = false ∧ c ≠ 'u' := by
    constructor
    · cases hescape : isEscape c with
      | false => rfl
      | true =>
          simp only [isEscape, Bool.or_eq_true, beq_iff_eq] at hescape
          rcases hescape with ((((((rfl | rfl) | rfl) | rfl) | rfl) | rfl) | rfl) | rfl <;>
            revert hcontrol <;> decide
    · rintro rfl
      revert hcontrol
      decide
  rcases st with _ | _ | _ | left <;>
    simp [StringState.next, hbackslash, hcontrol, hhex, hescape] at h

/-- There are no control characters in a string. -/
theorem le_of_mem_bodyFrom {st : StringState} {body : List Char} (h : bodyFrom st body = true) :
    ∀ c ∈ body, ¬ c.val < 0x20 := by
  induction body generalizing st with
  | nil => simp
  | cons d body ih =>
      rw [bodyFrom] at h
      split at h
      · cases h
      · cases hnext : st.next d with
        | none => simp [hnext] at h
        | some st' =>
            rw [hnext] at h
            intro c hc
            rcases List.mem_cons.mp hc with rfl | hc
            · exact le_of_next hnext
            · exact ih h c hc

/-! ### Numbers -/

/-- The text of an integer without a sign: digits, with no leading zero. -/
def IsNatText (s : List Char) : Prop :=
  s = ['0'] ∨ ∃ d ds, s = d :: ds ∧ d ≠ '0' ∧ d.isDigit = true ∧ ∀ c ∈ ds, c.isDigit = true

/-- The text of an integer. -/
def IsIntText (s : List Char) : Prop := IsNatText s ∨ ∃ t, s = '-' :: t ∧ IsNatText t

/-- A character that can stand behind a number inside of an object. -/
def EndsNumber (c : Char) : Prop := c = ',' ∨ c = '\x7d'

/-- Digits are skipped up to the end of the number. -/
theorem dropWhile_isDigit_append {ds : List Char} (hds : ∀ c ∈ ds, c.isDigit = true) {c : Char}
    (hc : EndsNumber c) (rest : List Char) :
    (ds ++ c :: rest).dropWhile Char.isDigit = c :: rest := by
  rw [List.dropWhile_append_of_pos hds]
  rcases hc with rfl | rfl <;> rfl

/-- The integer part is the whole number when no fraction or exponent follows. -/
theorem intPart_append {s : List Char} (h : IsNatText s) {c : Char} (hc : EndsNumber c)
    (rest : List Char) :
    ((intPart (s ++ c :: rest)).bind fun s => (fraction s).bind exponent) = some (c :: rest) := by
  have hend : (fraction (c :: rest)).bind exponent = some (c :: rest) := by
    rcases hc with rfl | rfl <;> rfl
  rcases h with rfl | ⟨d, ds, rfl, hd0, hd, hds⟩
  · exact hend
  · have hint : intPart (d :: ds ++ c :: rest) = some (c :: rest) := by
      rw [List.cons_append, intPart, digits, if_pos hd, dropWhile_isDigit_append hds hc]
      · rintro r hr
        exact hd0 (List.cons.inj hr).1
    rw [hint, Option.bind_some, hend]

/-- The head of an integer's text. -/
theorem head_of_isNatText {s : List Char} (h : IsNatText s) :
    ∃ d ds, s = d :: ds ∧ d.isDigit = true := by
  rcases h with rfl | ⟨d, ds, rfl, -, hd, -⟩
  · exact ⟨'0', [], rfl, rfl⟩
  · exact ⟨d, ds, rfl, hd⟩

/-- An integer is a number. -/
theorem number_append {s : List Char} (h : IsIntText s) {c : Char} (hc : EndsNumber c)
    (rest : List Char) : number (s ++ c :: rest) = some (c :: rest) := by
  rcases h with h | ⟨t, rfl, h⟩
  · obtain ⟨d, ds, rfl, hd⟩ := head_of_isNatText h
    rw [List.cons_append, number]
    · exact intPart_append h hc rest
    · rintro r hr
      rw [(List.cons.inj hr).1] at hd
      cases hd
  · exact intPart_append h hc rest

/-! ### Members -/

/-- No white space is skipped before another character. -/
theorem skip_cons {c : Char} (h : isWhiteSpace c = false) (rest : List Char) :
    skip (c :: rest) = c :: rest := by
  rw [skip, List.dropWhile_cons_of_neg (by simp [h])]

/-- The head of an integer's text is a digit or a minus sign. -/
theorem head_of_isIntText {s : List Char} (h : IsIntText s) :
    ∃ d ds, s = d :: ds ∧ (d.isDigit = true ∨ d = '-') := by
  rcases h with h | ⟨t, rfl, -⟩
  · obtain ⟨d, ds, rfl, hd⟩ := head_of_isNatText h
    exact ⟨d, ds, rfl, .inl hd⟩
  · exact ⟨'-', t, rfl, .inr rfl⟩

/-- A value that starts with a digit or a minus sign is a number. -/
theorem value_eq_number {d : Char} (hd : d.isDigit = true ∨ d = '-') (fuel : ℕ)
    (rest : List Char) : value (fuel + 1) (d :: rest) = number (d :: rest) := by
  -- The text does not match the beginning of any other value.
  have hne : ∀ e : Char, e.isDigit = false → e ≠ '-' → d ≠ e := by
    rintro e hdigit hminus rfl
    rcases hd with hd | hd
    · rw [hdigit] at hd
      cases hd
    · exact hminus hd
  rw [value]
  all_goals
    intros
    rename_i heq
    exact hne _ (by decide) (by decide) (List.cons.inj heq).1

/-- An integer is a value. -/
theorem value_append_of_isIntText {s : List Char} (h : IsIntText s) {c : Char}
    (hc : EndsNumber c) (fuel : ℕ) (rest : List Char) :
    value (fuel + 1) (s ++ c :: rest) = some (c :: rest) := by
  obtain ⟨d, ds, rfl, hd⟩ := head_of_isIntText h
  rw [List.cons_append, value_eq_number hd, ← List.cons_append]
  exact number_append h hc rest

/-- What follows the value of a member. -/
def afterValue (fuel : ℕ) (s : List Char) : Option (List Char) :=
  match skip s with
  | ',' :: rest => members fuel (skip rest)
  | '\x7d' :: rest => some rest
  | _ => none

/-- A member that is written without white space. -/
theorem members_member {key : List Char} (hkey : isStringBody key = true) {c : Char}
    (hc : isWhiteSpace c = false) (fuel : ℕ) (rest : List Char) :
    members (fuel + 1) ('"' :: (key ++ '"' :: ':' :: c :: rest))
      = (value fuel (c :: rest)).bind (afterValue fuel) := by
  rw [members]
  simp only [string_append hkey, Option.bind_some]
  rw [skip_cons (by decide)]
  simp only [skip_cons hc]
  rfl

/-- A member with an integer. -/
theorem members_int {key : List Char} (hkey : isStringBody key = true) {s : List Char}
    (hs : IsIntText s) {c : Char} (hc : EndsNumber c) (fuel : ℕ) (rest : List Char) :
    members (fuel + 2) ('"' :: (key ++ '"' :: ':' :: (s ++ c :: rest)))
      = afterValue (fuel + 1) (c :: rest) := by
  have hvalue := value_append_of_isIntText hs hc fuel rest
  obtain ⟨d, ds, rfl, hd⟩ := head_of_isIntText hs
  have hspace : isWhiteSpace d = false := by
    rcases hd with hd | rfl
    · cases hspace : isWhiteSpace d with
      | false => rfl
      | true =>
          simp only [isWhiteSpace, Bool.or_eq_true, beq_iff_eq] at hspace
          rcases hspace with ((rfl | rfl) | rfl) | rfl <;> cases hd
    · rfl
  rw [List.cons_append] at hvalue ⊢
  rw [members_member hkey hspace, hvalue, Option.bind_some]

/-- A member with a string, whatever its body is. -/
theorem members_string {key : List Char} (hkey : isStringBody key = true) (fuel : ℕ)
    (rest : List Char) :
    members (fuel + 2) ('"' :: (key ++ '"' :: ':' :: '"' :: rest))
      = (string .plain rest).bind (afterValue (fuel + 1)) := by
  rw [members_member hkey (by decide)]
  rfl

/-- The next member begins behind the comma. -/
theorem afterValue_comma (fuel : ℕ) (rest : List Char) :
    afterValue fuel (',' :: '"' :: rest) = members fuel ('"' :: rest) := by
  rw [afterValue, skip_cons (by decide)]
  simp only [skip_cons (show isWhiteSpace '"' = false by decide)]

/-- The end of the object. -/
theorem afterValue_close (fuel : ℕ) (rest : List Char) :
    afterValue fuel ('\x7d' :: rest) = some rest := by
  rw [afterValue, skip_cons (by decide)]
  rfl

end ProcessAnalyzer.Lib.Json
