import Mathlib.Data.Nat.Digits.Lemmas

/-!
# `ProcessAnalyzer.Lib.CText`: C strings as byte lists

A C string is the list of its bytes before the terminating NUL. This module has the
character classes of the "C" locale, the decimal numbers that `printf` writes and
`strtol` reads, and the trimming of white space.

* `decNat` and `decInt` are the texts of `%u`, `%lu` and of `%d`, `%ld`. `decValue` is
  the number that a digit string denotes. `decValue_decNat` is the round trip, and
  `isDigit_decNat` says that the text consists of digits only.
* `trim` removes white space at both ends.
-/

set_option autoImplicit false

namespace ProcessAnalyzer.Lib

/-- The bytes of a C string, without the terminating NUL. -/
abbrev Bytes := List UInt8

/-- The bytes of an ASCII literal. -/
def ascii (s : String) : Bytes := s.toList.map fun c => c.toNat.toUInt8

/-- The bytes of a literal, character by character. -/
theorem ascii_ofList (cs : List Char) :
    ascii (String.ofList cs) = cs.map fun c => c.toNat.toUInt8 := by
  unfold ascii
  rw [String.toList_ofList]

/-! ### Character classes -/

/-- `isspace` in the "C" locale: space, `\t`, `\n`, `\v`, `\f` and `\r`. -/
def isSpace (b : UInt8) : Bool := b == 32 || (9 ≤ b && b ≤ 13)

/-- `isdigit`: the bytes `'0'` to `'9'`. -/
def isDigit (b : UInt8) : Bool := 48 ≤ b && b ≤ 57

/-- A digit is not white space. -/
theorem isSpace_of_isDigit {b : UInt8} (h : isDigit b = true) : isSpace b = false := by
  simp only [isDigit, Bool.and_eq_true, decide_eq_true_eq, UInt8.le_iff_toNat_le,
    UInt8.reduceToNat] at h
  simp only [isSpace, Bool.or_eq_false_iff, Bool.and_eq_false_iff, beq_eq_false_iff_ne, ne_eq,
    decide_eq_false_iff_not, UInt8.le_iff_toNat_le, UInt8.reduceToNat, ← UInt8.toNat_inj]
  omega

/-- The string without white space at its two ends. -/
def trim (s : Bytes) : Bytes := ((s.dropWhile isSpace).reverse.dropWhile isSpace).reverse

/-! ### Decimal numbers -/

/-- The byte of the decimal digit `d`. -/
def digitByte (d : ℕ) : UInt8 := (48 + d).toUInt8

/-- The text that `%u` and its longer forms write for `n`. -/
def decNat (n : ℕ) : Bytes :=
  if n = 0 then [48] else (Nat.digits 10 n).reverse.map digitByte

/-- The text that `%d` and its longer forms write for `z`. -/
def decInt (z : Int) : Bytes :=
  if z < 0 then 45 :: decNat z.natAbs else decNat z.natAbs

/-- The text that `%0<width>d` writes for `z`: zeros between the sign and the digits. -/
def decIntPad (width : ℕ) (z : Int) : Bytes :=
  let digits := decNat z.natAbs
  let sign : Bytes := if z < 0 then [45] else []
  sign ++ List.replicate (width - (sign.length + digits.length)) 48 ++ digits

/-- The number that a string of digits denotes, most significant digit first. -/
def decValue (s : Bytes) : ℕ := s.foldl (fun acc b => acc * 10 + (b.toNat - 48)) 0

/-- A decimal digit's byte read back. -/
theorem toNat_digitByte {d : ℕ} (hd : d < 10) : (digitByte d).toNat = 48 + d := by
  unfold digitByte
  rw [UInt8.toNat_ofNat']
  omega

/-- A decimal digit's byte is a digit. -/
theorem isDigit_digitByte {d : ℕ} (hd : d < 10) : isDigit (digitByte d) = true := by
  have h := toNat_digitByte hd
  simp only [isDigit, Bool.and_eq_true, decide_eq_true_eq, UInt8.le_iff_toNat_le, h,
    UInt8.reduceToNat]
  omega

/-- `decNat` writes digits only. -/
theorem isDigit_decNat (n : ℕ) : ∀ b ∈ decNat n, isDigit b = true := by
  intro b hb
  unfold decNat at hb
  split at hb
  · rw [List.mem_singleton.mp hb]
    decide
  · obtain ⟨d, hd, rfl⟩ := List.mem_map.mp hb
    exact isDigit_digitByte (Nat.digits_lt_base (by decide) (List.mem_reverse.mp hd))

/-- `decNat` writes at least one digit. -/
theorem decNat_ne_nil (n : ℕ) : decNat n ≠ [] := by
  unfold decNat
  split
  · simp
  · rename_i hn
    simpa [Nat.digits_eq_nil_iff_eq_zero] using hn

/-- `decInt` writes digits and a minus sign. -/
theorem mem_decInt {z : Int} {b : UInt8} (h : b ∈ decInt z) : b = 45 ∨ isDigit b = true := by
  unfold decInt at h
  split at h
  · rcases List.mem_cons.mp h with rfl | hmem
    · exact Or.inl rfl
    · exact Or.inr (isDigit_decNat _ b hmem)
  · exact Or.inr (isDigit_decNat _ b h)

/-- `decInt` writes at least one digit. -/
theorem decInt_ne_nil (z : Int) : decInt z ≠ [] := by
  unfold decInt
  split
  · exact List.cons_ne_nil _ _
  · exact decNat_ne_nil _

/-- A number below `10 ^ k` has at most `k` digits. -/
theorem length_decNat_le {n k : ℕ} (hk : 0 < k) (h : n < 10 ^ k) : (decNat n).length ≤ k := by
  unfold decNat
  split
  · exact hk
  · rw [List.length_map, List.length_reverse]
    exact (Nat.digits_length_le_iff (by decide) n).mpr h

/-- A number from `10 ^ k` on has more than `k` digits. -/
theorem lt_length_decNat {n k : ℕ} (h : 10 ^ k ≤ n) : k < (decNat n).length := by
  have hpos : 0 < 10 ^ k := Nat.pow_pos (by decide)
  unfold decNat
  rw [if_neg (by omega), List.length_map, List.length_reverse, ← not_le,
    Nat.digits_length_le_iff (by decide), not_lt]
  exact h

/-- Reading a digit list most significant digit first inverts `Nat.ofDigits`, which reads
it least significant digit first. -/
theorem decValue_map_digitByte (ds : List ℕ) (hds : ∀ d ∈ ds, d < 10) :
    decValue (ds.reverse.map digitByte) = Nat.ofDigits 10 ds := by
  induction ds with
  | nil => rfl
  | cons d ds ih =>
      have hrest := ih fun e he => hds e (List.mem_cons_of_mem _ he)
      have hd := toNat_digitByte (hds d List.mem_cons_self)
      unfold decValue at *
      rw [List.reverse_cons, List.map_append, List.foldl_append, hrest, Nat.ofDigits_cons]
      simp only [List.map_cons, List.map_nil, List.foldl_cons, List.foldl_nil, hd]
      omega

/-- The round trip of decimal numbers. -/
@[simp] theorem decValue_decNat (n : ℕ) : decValue (decNat n) = n := by
  unfold decNat
  split
  · rename_i hn
    rw [hn]
    rfl
  · rw [decValue_map_digitByte _ fun d hd => Nat.digits_lt_base (by decide) hd]
    exact Nat.ofDigits_digits 10 n

end ProcessAnalyzer.Lib
