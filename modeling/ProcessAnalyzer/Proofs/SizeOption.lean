import ProcessAnalyzer.Lib.CInt
import ProcessAnalyzer.Model.ConfigFile

/-!
# `ProcessAnalyzer.Proofs.SizeOption`: which sizes `parse_size` reads

A size is a decimal number with at most one suffix letter (`DenotesSize`). `parse_size` hands
the text to `strtoull` and looks at one byte behind the number, so it also accepts texts
that are no sizes, and sizes that do not fit.

* `parseSize_of_intParts`: what is stored for a text that `strtoull` can read.
* `sizeParsedExactly_iff`: the texts on which the function is right are those outside the
  four kinds of `Misread`.
-/

set_option autoImplicit false

namespace ProcessAnalyzer

open ProcessAnalyzer.Lib

/-- The power of 1024 that a suffix letter stands for. -/
def suffixExponent (c : UInt8) : Option ℕ :=
  if c = 107 ∨ c = 75 then some 1
  else if c = 109 ∨ c = 77 then some 2
  else if c = 103 ∨ c = 71 then some 3
  else none

/-- The power of 1024 for the text behind a number, by its first byte. -/
def scaleOf : Bytes → Option ℕ
  | [] => some 0
  | c :: _ => suffixExponent c

/-- The whole text is an unsigned decimal number with at most one suffix letter, and it
denotes `size`. -/
def DenotesSize (v : Bytes) (size : ℕ) : Prop :=
  ∃ digits suffix e, v = digits ++ suffix ∧ digits ≠ [] ∧ (∀ b ∈ digits, isDigit b = true) ∧
    suffix.length ≤ 1 ∧ scaleOf suffix = some e ∧ size = decValue digits * 1024 ^ e

/-- `parse_size` accepts exactly the sizes that fit into `off_t`, and stores what they
denote. -/
def SizeParsedExactly (v : Bytes) : Prop :=
  ∀ n : Int64, parseSize v = some n ↔ ∃ size, DenotesSize v size ∧ n.toInt = size

/-- The texts that `parse_size` accepts and should not: a number that it can read, with white
space or a sign in front of it, with more than one byte behind it, or too large. -/
def Misread (v : Bytes) : Prop :=
  ∃ w sign digits rest e, IntParts v w sign digits rest ∧ scaleOf rest = some e ∧
    (w ≠ [] ∨ sign ≠ [] ∨ 1 < rest.length ∨ 2 ^ 63 ≤ decValue digits * 1024 ^ e)

/-- A suffix letter is no digit. -/
theorem isDigit_of_scaleOf {rest : Bytes} {e : ℕ} (h : scaleOf rest = some e) :
    ∀ b, rest.head? = some b → isDigit b = false := by
  intro b hb
  cases rest with
  | nil => cases hb
  | cons c rest =>
      obtain rfl : c = b := by simpa using hb
      simp only [scaleOf, suffixExponent] at h
      split_ifs at h with h1 h2 h3
      · rcases h1 with rfl | rfl <;> rfl
      · rcases h2 with rfl | rfl <;> rfl
      · rcases h3 with rfl | rfl <;> rfl

/-- A size has the parts of an integer text without white space and sign. -/
theorem intParts_of_denotesSize {v : Bytes} {size : ℕ} (h : DenotesSize v size) :
    ∃ digits suffix e, IntParts v [] [] digits suffix ∧ suffix.length ≤ 1 ∧
      scaleOf suffix = some e ∧ size = decValue digits * 1024 ^ e := by
  obtain ⟨digits, suffix, e, rfl, hne, hdigits, hlen, he, hsize⟩ := h
  exact ⟨digits, suffix, e, ⟨rfl, by simp, Or.inl rfl, hne, hdigits, isDigit_of_scaleOf he⟩, hlen,
    he, hsize⟩

/-- What is stored for a text that `strtoull` can read. -/
theorem parseSize_of_intParts {v w sign digits rest : Bytes} (h : IntParts v w sign digits rest) :
    parseSize v = (scaleOf rest).map fun e =>
      (clampULong (signedValue sign digits) * UInt64.ofNat (1024 ^ e)).toInt64 := by
  rw [parseSize, scanInt_of_intParts h]
  cases rest with
  | nil => simp [scaleOf]
  | cons c rest =>
      simp only [scaleOf, suffixExponent]
      split_ifs <;> rfl

/-- A size below `2 ^ 63` is stored as it is. -/
theorem toInt_stored {n e : ℕ} (h : n * 1024 ^ e < 2 ^ 63) :
    (clampULong n * UInt64.ofNat (1024 ^ e)).toInt64.toInt = (n * 1024 ^ e : ℕ) := by
  have hpos : 0 < 1024 ^ e := Nat.pow_pos (by decide)
  have hn : n < 2 ^ 64 := by nlinarith
  have hclamp : clampULong n = UInt64.ofNat n := by
    rw [clampULong, if_neg (by simpa using hn), if_neg (by omega), Int.natAbs_natCast]
  have hmul : clampULong n * UInt64.ofNat (1024 ^ e) = UInt64.ofNat (n * 1024 ^ e) := by
    rw [hclamp, ← UInt64.ofNat_mul]
  have hword : (UInt64.ofNat (n * 1024 ^ e)).toNat = n * 1024 ^ e :=
    UInt64.toNat_ofNat_of_lt' (h.trans (by decide))
  rw [hmul, toInt_toInt64_of_lt (by rw [hword]; exact h), hword]

/-- A size that fits is accepted and stored. -/
theorem parseSize_of_denotesSize {v : Bytes} {size : ℕ} (h : DenotesSize v size)
    (hfits : size < 2 ^ 63) : ∃ n, parseSize v = some n ∧ n.toInt = size := by
  obtain ⟨digits, suffix, e, hparts, -, he, rfl⟩ := intParts_of_denotesSize h
  rw [parseSize_of_intParts hparts, he]
  exact ⟨_, rfl, toInt_stored hfits⟩

/-- A size starts with a digit, so it has one reading only. -/
theorem parts_of_denotesSize {v w sign digits rest : Bytes} {size e : ℕ}
    (h : DenotesSize v size) (hparts : IntParts v w sign digits rest)
    (he : scaleOf rest = some e) :
    w = [] ∧ sign = [] ∧ rest.length ≤ 1 ∧ size = decValue digits * 1024 ^ e := by
  obtain ⟨ds, suffix, e', hds, hlen, he', rfl⟩ := intParts_of_denotesSize h
  obtain ⟨d, dt, hcons⟩ := List.exists_cons_of_ne_nil hds.digits_ne_nil
  have hd : isDigit d = true := hds.isDigit_digits d (hcons ▸ List.mem_cons_self)
  have hfirst : v = d :: (dt ++ suffix) := by
    rw [hds.text, hcons]
    rfl
  -- The first byte of `w` would be white space, the one of `sign` a sign.
  have hw : w = [] := by
    cases w with
    | nil => rfl
    | cons b w =>
        have htext := hparts.text
        rw [hfirst, List.cons_append, List.cons.injEq] at htext
        have hb := hparts.spaces b List.mem_cons_self
        rw [← htext.1, isSpace_of_isDigit hd] at hb
        cases hb
  have hsign : sign = [] := by
    have htext := hparts.text
    rw [hw, hfirst] at htext
    rcases hparts.sign_cases with rfl | rfl | rfl
    · rfl
    · obtain ⟨rfl, -⟩ := List.cons.inj htext
      cases hd
    · obtain ⟨rfl, -⟩ := List.cons.inj htext
      cases hd
  have hscan := (scanInt_of_intParts hds).symm.trans (scanInt_of_intParts hparts)
  simp only [hsign, signedValue, Option.some.injEq, Prod.mk.injEq] at hscan
  obtain ⟨hvalue, rfl⟩ := hscan
  rw [he] at he'
  have hdigits : decValue ds = decValue digits := by simpa using hvalue
  exact ⟨hw, hsign, hlen, by rw [hdigits, Option.some.inj he']⟩

/-- `parse_size` is exact on a text if and only if the text is of none of the misread
kinds. -/
theorem sizeParsedExactly_iff (v : Bytes) : SizeParsedExactly v ↔ ¬ Misread v := by
  constructor
  · intro h hmis
    obtain ⟨w, sign, digits, rest, e, hparts, he, hkind⟩ := hmis
    -- The text is accepted, so it must be a size, and then none of the kinds applies.
    have hparse := parseSize_of_intParts hparts
    rw [he, Option.map_some] at hparse
    obtain ⟨size, hsize, hstored⟩ := (h _).mp hparse
    obtain ⟨hw, hsign, hlen, rfl⟩ := parts_of_denotesSize hsize hparts he
    rcases hkind with hkind | hkind | hkind | hkind
    · exact hkind hw
    · exact hkind hsign
    · omega
    · have hlt := (toInt_mem
        (clampULong (signedValue sign digits) * UInt64.ofNat (1024 ^ e)).toInt64).2
      rw [hstored] at hlt
      omega
  · intro hmis n
    constructor
    · intro h
      cases hscan : scanInt v with
      | none => simp [parseSize, hscan] at h
      | some scanned =>
          obtain ⟨w, sign, digits, hparts, -⟩ := exists_intParts_of_scanInt
            (show scanInt v = some (scanned.1, scanned.2) from hscan)
          rw [parseSize_of_intParts hparts, Option.map_eq_some_iff] at h
          obtain ⟨e, he, hstored⟩ := h
          -- Outside the misread kinds the text is a size, and it fits.
          have hkind : ¬ (w ≠ [] ∨ sign ≠ [] ∨ 1 < scanned.2.length ∨
              2 ^ 63 ≤ decValue digits * 1024 ^ e) :=
            fun hkind => hmis ⟨w, sign, digits, scanned.2, e, hparts, he, hkind⟩
          push Not at hkind
          obtain ⟨rfl, rfl, hlen, hfits⟩ := hkind
          refine ⟨_, ⟨digits, scanned.2, e, hparts.text, hparts.digits_ne_nil,
            hparts.isDigit_digits, hlen, he, rfl⟩, ?_⟩
          rw [← hstored]
          exact toInt_stored hfits
    · intro h
      obtain ⟨size, hsize, hn⟩ := h
      have hlt := (toInt_mem n).2
      obtain ⟨m, hparse, hm⟩ := parseSize_of_denotesSize hsize (by omega)
      rw [hparse, Int64.toInt_inj.mp (hm.trans hn.symm)]

/-- `17179869185g` is a size of more than `2 ^ 64` bytes. It is stored as one gigabyte. -/
theorem parseSize_wraps :
    parseSize (ascii "17179869185g") = some 1073741824 ∧
      ¬ SizeParsedExactly (ascii "17179869185g") := by
  have hparse : parseSize (ascii "17179869185g") = some 1073741824 := by decide +kernel
  refine ⟨hparse, fun h => ?_⟩
  obtain ⟨size, hsize, hn⟩ := (h 1073741824).mp hparse
  obtain ⟨digits, suffix, e, hparts, -, he, rfl⟩ := intParts_of_denotesSize hsize
  have hscan : scanInt (ascii "17179869185g") = some (17179869185, [103]) := by decide +kernel
  rw [scanInt_of_intParts hparts] at hscan
  simp only [signedValue, Option.some.injEq, Prod.mk.injEq] at hscan
  obtain ⟨hvalue, rfl⟩ := hscan
  obtain rfl : 3 = e := by simpa [scaleOf, suffixExponent] using he
  simp only [List.nil_eq, reduceCtorEq, if_false] at hvalue
  have htoInt : (1073741824 : Int64).toInt = 1073741824 := by decide
  rw [htoInt] at hn
  omega

end ProcessAnalyzer
