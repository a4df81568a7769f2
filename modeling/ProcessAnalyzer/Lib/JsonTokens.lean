import ProcessAnalyzer.Lib.Json

/-!
# `ProcessAnalyzer.Lib.JsonTokens`: JSON texts with holes

A text that a program prints with format strings, where the content of a conversion is left
open. A conversion of a text is a `word`, a conversion of a number is a `num`, and everything
else is characters of the format. The structure of such a text does not depend on the holes:

* `lex` splits it into tokens. A quoted string is one token, whatever words stand in it, and
  so is a number. A word outside of quotes, and a character that starts no token, is an error.
* `JsonTree` is a JSON value, and `JsonTree.tokens` writes it down. Elements and members are
  separated by single commas (`separated`).
* `Lexes.append` composes the tokens of a text that is printed in pieces.
-/

set_option autoImplicit false

namespace ProcessAnalyzer.Lib.JsonTokens

variable {α : Type}

/-- One unit of a text with holes. -/
inductive Atom (α : Type) where
  /-- a character of a format string -/
  | char (c : Char)
  /-- the text of a conversion -/
  | word (a : α)
  /-- the number of a conversion -/
  | num (a : α)
  deriving DecidableEq

/-- A token. -/
inductive Token (α : Type) where
  | lbrace
  | rbrace
  | lbracket
  | rbracket
  | colon
  | comma
  | str (content : List (Atom α))
  | num (a : α)
  deriving DecidableEq

/-! ### Tokens of a text -/

/-- The tokens of one character. -/
def punctuation (c : Char) : Option (Token α) :=
  if c = '\x7b' then some .lbrace
  else if c = '\x7d' then some .rbrace
  else if c = '[' then some .lbracket
  else if c = ']' then some .rbracket
  else if c = ':' then some .colon
  else if c = ',' then some .comma
  else none

/-- The tokens of a text. The first argument is the content of the string that is open, if
one is. -/
def lex : Option (List (Atom α)) → List (Atom α) → Option (List (Token α))
  | none, [] => some []
  -- the string is not closed
  | some _, [] => none
  | none, .char c :: rest =>
      if c = '"' then lex (some []) rest
      else if Json.isWhiteSpace c then lex none rest
      else
        match punctuation c with
        | some t => (lex none rest).map (t :: ·)
        | none => none
  | none, .word _ :: _ => none
  | none, .num a :: rest => (lex none rest).map (.num a :: ·)
  | some content, .char c :: rest =>
      if c = '"' then (lex none rest).map (.str content :: ·)
      -- the texts here have no escapes
      else if c = '\\' then none
      else lex (some (content ++ [.char c])) rest
  | some content, .word a :: rest => lex (some (content ++ [.word a])) rest
  | some content, .num a :: rest => lex (some (content ++ [.num a])) rest

/-- The text has these tokens. -/
def Lexes (text : List (Atom α)) (tokens : List (Token α)) : Prop := lex none text = some tokens

/-- Behind a text that ends between two tokens, the tokens start again. -/
theorem lex_append {st : Option (List (Atom α))} {xs : List (Atom α)} {ts : List (Token α)}
    (h : lex st xs = some ts) (ys : List (Atom α)) :
    lex st (xs ++ ys) = (lex none ys).map (ts ++ ·) := by
  induction xs generalizing st ts with
  | nil =>
      cases st with
      | none =>
          obtain rfl := Option.some.inj h
          simp
      | some content => cases h
  | cons a xs ih =>
      -- A token that is written is in front of the rest on both sides.
      have hcons : ∀ {t : Token α}, (lex none xs).map (t :: ·) = some ts →
          (lex none (xs ++ ys)).map (t :: ·) = (lex none ys).map (ts ++ ·) := by
        intro t ht
        obtain ⟨us, hus, rfl⟩ := Option.map_eq_some_iff.mp ht
        rw [ih hus, Option.map_map]
        rfl
      rw [List.cons_append]
      cases st with
      | none =>
          cases a with
          | char c =>
              rw [lex] at h ⊢
              split at h
              · rename_i hquote
                rw [if_pos hquote]
                exact ih h
              · rename_i hquote
                rw [if_neg hquote]
                split at h
                · rename_i hspace
                  rw [if_pos hspace]
                  exact ih h
                · rename_i hspace
                  rw [if_neg hspace]
                  cases hp : (punctuation c : Option (Token α)) with
                  | none =>
                      rw [hp] at h
                      cases h
                  | some t =>
                      rw [hp] at h
                      exact hcons h
          | word w => cases h
          | num n => exact hcons h
      | some content =>
          cases a with
          | char c =>
              rw [lex] at h ⊢
              split at h
              · rename_i hquote
                rw [if_pos hquote]
                exact hcons h
              · rename_i hquote
                rw [if_neg hquote]
                split at h
                · cases h
                · rename_i hescape
                  rw [if_neg hescape]
                  exact ih h
          | word w => exact ih h
          | num n => exact ih h

/-- The tokens of a text in two pieces. -/
theorem Lexes.append {xs ys : List (Atom α)} {ts us : List (Token α)} (hx : Lexes xs ts)
    (hy : Lexes ys us) : Lexes (xs ++ ys) (ts ++ us) := by
  unfold Lexes at *
  rw [lex_append hx, hy, Option.map_some]

theorem lexes_nil : Lexes ([] : List (Atom α)) [] := rfl

/-! ### Trees -/

/-- A JSON value. -/
inductive JsonTree (α : Type) where
  | str (content : List (Atom α))
  | num (a : α)
  | arr (items : List (JsonTree α))
  | obj (members : List (List (Atom α) × JsonTree α))

/-- Texts with single commas between them. -/
def separated : List (List (Token α)) → List (Token α)
  | [] => []
  | [x] => x
  | x :: y :: rest => x ++ .comma :: separated (y :: rest)

/-- The first of several texts, and the others behind their commas. -/
theorem separated_cons (x : List (Token α)) (xs : List (List (Token α))) :
    separated (x :: xs) = x ++ xs.flatMap (.comma :: ·) := by
  induction xs generalizing x with
  | nil => simp [separated]
  | cons y ys ih => rw [separated, ih, List.flatMap_cons, List.cons_append]

mutual
/-- The tokens of a value. -/
def JsonTree.tokens : JsonTree α → List (Token α)
  | .str content => [.str content]
  | .num a => [.num a]
  | .arr items => .lbracket :: separated (itemTokens items) ++ [.rbracket]
  | .obj members => .lbrace :: separated (memberTokens members) ++ [.rbrace]

/-- The tokens of the elements of an array, one by one. -/
def itemTokens : List (JsonTree α) → List (List (Token α))
  | [] => []
  | t :: rest => t.tokens :: itemTokens rest

/-- The tokens of the members of an object, one by one. -/
def memberTokens : List (List (Atom α) × JsonTree α) → List (List (Token α))
  | [] => []
  | m :: rest => pairTokens m :: memberTokens rest

/-- The tokens of one member. -/
def pairTokens : List (Atom α) × JsonTree α → List (Token α)
  | (key, t) => .str key :: .colon :: t.tokens
end

theorem itemTokens_eq (items : List (JsonTree α)) :
    itemTokens items = items.map JsonTree.tokens := by
  induction items with
  | nil => rw [itemTokens, List.map_nil]
  | cons t rest ih => rw [itemTokens, ih, List.map_cons]

theorem memberTokens_eq (members : List (List (Atom α) × JsonTree α)) :
    memberTokens members = members.map fun m => .str m.1 :: .colon :: m.2.tokens := by
  induction members with
  | nil => rw [memberTokens, List.map_nil]
  | cons m rest ih =>
      obtain ⟨key, t⟩ := m
      rw [memberTokens, ih, List.map_cons, pairTokens]

end ProcessAnalyzer.Lib.JsonTokens
