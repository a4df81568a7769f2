import ProcessAnalyzer.Lib.CText

/-!
# `ProcessAnalyzer.Lib.CScan`: reading text the way C does

`fgets`, the integer conversions of `sscanf`, `atoi` and the searches of `string.h`, on
byte lists. The conversions follow glibc where the C standard leaves an overflow open:
`strtol` and `strtoul` saturate at 64 bits, and the narrower conversions keep the low 32
bits of the result.
-/

set_option autoImplicit false

namespace ProcessAnalyzer.Lib

/-- The C string at the start of a memory area: the bytes before the first NUL. -/
def cString (mem : Bytes) : Bytes := mem.takeWhile (· ≠ 0)

/-- The results of successive calls of `fgets` with a buffer of `size` bytes: each one ends
after a newline, when the buffer is full, or at the end of the file. `cur` is the part of
the next result that has been read. -/
def fgetsFrom (size : ℕ) (cur : Bytes) : Bytes → List Bytes
  | [] => if cur = [] then [] else [cur]
  | b :: rest =>
      if b = 10 ∨ (cur ++ [b]).length + 1 = size then
        (cur ++ [b]) :: fgetsFrom size [] rest
      else fgetsFrom size (cur ++ [b]) rest

/-- All the results of `fgets` on a file, until it returns `NULL`. -/
def fgetsAll (size : ℕ) (content : Bytes) : List Bytes := fgetsFrom size [] content

/-- The integer syntax of `%d`, `%u`, `%ld`, `%lu` and `%llu`: white space, an optional
sign and at least one digit. Returns the number, before any conversion, and the rest. -/
def scanInt (s : Bytes) : Option (Int × Bytes) :=
  let s := s.dropWhile isSpace
  let (negative, s) :=
    match s with
    | 45 :: rest => (true, rest)
    | 43 :: rest => (false, rest)
    | _ => (false, s)
  let digits := s.takeWhile isDigit
  if digits = [] then none
  else
    let value : Int := decValue digits
    some (if negative then -value else value, s.dropWhile isDigit)

/-- The result of `strtol` for a number. -/
def clampLong (z : Int) : Int64 :=
  if z > 2 ^ 63 - 1 then Int64.ofInt (2 ^ 63 - 1)
  else if z < -2 ^ 63 then Int64.ofInt (-2 ^ 63) else Int64.ofInt z

/-- The result of `strtoul` for a number: a magnitude out of range saturates, and a sign
negates modulo the width. -/
def clampULong (z : Int) : UInt64 :=
  if z.natAbs ≥ 2 ^ 64 then UInt64.ofNat (2 ^ 64 - 1)
  else if z < 0 then -UInt64.ofNat z.natAbs else UInt64.ofNat z.natAbs

/-- `atoi` of a string of digits. -/
def atoi (s : Bytes) : Int32 :=
  match scanInt s with
  | some (z, _) => (clampLong z).toInt32
  | none => 0

/-- `strchr`: the index of the first occurrence. -/
def strchr (s : Bytes) (c : UInt8) : Option ℕ := s.findIdx? (· = c)

/-- `strrchr`: the index of the last occurrence. -/
def strrchr (s : Bytes) (c : UInt8) : Option ℕ :=
  (s.reverse.findIdx? (· = c)).map fun i => s.length - 1 - i

/-- `tolower` in the "C" locale. -/
def toLower (b : UInt8) : UInt8 := if 65 ≤ b ∧ b ≤ 90 then b + 32 else b

/-- `strcasecmp` returns 0. -/
def strcasecmpEq (s t : Bytes) : Bool := s.map toLower = t.map toLower

/-! ### The two searches -/

theorem strchr_append {c : UInt8} {s : Bytes} (h : c ∉ s) (rest : Bytes) :
    strchr (s ++ c :: rest) c = some s.length := by
  have hnone : s.findIdx? (· = c) = none := by
    rw [List.findIdx?_eq_none_iff]
    intro b hb
    exact decide_eq_false fun hbc => h (hbc ▸ hb)
  rw [strchr, List.findIdx?_append, hnone]
  simp [List.findIdx?_cons]

theorem strrchr_append {c : UInt8} {rest : Bytes} (h : c ∉ rest) (s : Bytes) :
    strrchr (s ++ c :: rest) c = some s.length := by
  have hrev : strchr ((s ++ c :: rest).reverse) c = some rest.length := by
    rw [List.reverse_append, List.reverse_cons, List.append_assoc, List.singleton_append,
      strchr_append (by simpa using h), List.length_reverse]
  unfold strchr at hrev
  rw [strrchr, hrev, Option.map_some, List.length_append, List.length_cons]
  congr 1
  omega

theorem strrchr_eq_none {c : UInt8} {s : Bytes} (h : c ∉ s) : strrchr s c = none := by
  have hnone : s.reverse.findIdx? (· = c) = none := by
    rw [List.findIdx?_eq_none_iff]
    intro b hb
    exact decide_eq_false fun hbc => h (hbc ▸ List.mem_reverse.mp hb)
  rw [strrchr, hnone, Option.map_none]

/-- The last occurrence, with what stands in front of it and behind it. -/
theorem exists_append_of_strrchr {s : Bytes} {c : UInt8} {i : ℕ} (h : strrchr s c = some i) :
    ∃ rest : Bytes, c ∉ rest ∧ s = s.take i ++ c :: rest := by
  by_cases hc : c ∈ s
  · obtain ⟨bs, as, hrev, hbs⟩ := List.eq_append_cons_of_mem (List.mem_reverse.mpr hc)
    have hs : s = as.reverse ++ c :: bs.reverse := by
      rw [← List.reverse_reverse s, hrev]
      simp
    have hlast : c ∉ bs.reverse := by simpa using hbs
    rw [hs, strrchr_append hlast, Option.some.injEq] at h
    refine ⟨bs.reverse, hlast, ?_⟩
    rw [hs, ← h, List.take_left]
  · rw [strrchr_eq_none hc] at h
    cases h

/-! ### Strings in a buffer -/

/-- A cut of the memory is a cut of the string. -/
theorem cString_take (mem : Bytes) (n : ℕ) : cString (mem.take n) = (cString mem).take n := by
  induction mem generalizing n with
  | nil => simp [cString]
  | cons b mem ih =>
      cases n with
      | zero => simp [cString]
      | succ n =>
          have hrest := ih n
          unfold cString at hrest ⊢
          rw [List.take_succ_cons, List.takeWhile_cons, List.takeWhile_cons, hrest]
          split <;> simp

/-- The C string of bytes without NUL is all of them. -/
theorem cString_append_of_notMem {s : Bytes} (h : (0 : UInt8) ∉ s) (rest : Bytes) :
    cString (s ++ rest) = s ++ cString rest := by
  unfold cString
  exact List.takeWhile_append_of_pos fun b hb => decide_eq_true fun hb0 => h (hb0 ▸ hb)

theorem cString_eq_self {s : Bytes} (h : (0 : UInt8) ∉ s) : cString s = s := by
  have := cString_append_of_notMem h []
  simpa [cString] using this

/-- A text and its NUL are all that a string function sees of a buffer. -/
theorem cString_append_nul (s rest : Bytes) : cString (s ++ [0] ++ rest) = cString s := by
  unfold cString
  rw [List.append_assoc, List.takeWhile_append]
  split
  · rename_i hall
    have hs : s.takeWhile (· ≠ 0) = s := (List.takeWhile_prefix _).eq_of_length hall
    rw [hs]
    simp
  · rfl

/-- A string that starts inside the text or at its NUL ends at this NUL. -/
theorem cString_drop_append_nul (s rest : Bytes) {i : ℕ} (h : i ≤ s.length) :
    cString ((s ++ [0] ++ rest).drop i) = cString (s.drop i) := by
  rw [List.append_assoc, List.drop_append_of_le_length h, ← List.append_assoc]
  exact cString_append_nul _ _

/-- A string that starts inside another one is the rest of it. -/
theorem cString_drop (mem : Bytes) {n : ℕ} (h : n ≤ (cString mem).length) :
    cString (mem.drop n) = (cString mem).drop n := by
  induction mem generalizing n with
  | nil => simp [cString]
  | cons b mem ih =>
      cases n with
      | zero => rfl
      | succ n =>
          unfold cString at h ih ⊢
          rw [List.takeWhile_cons] at h ⊢
          split at h
          · rename_i hb
            rw [if_pos hb, List.drop_succ_cons, List.drop_succ_cons]
            exact ih (by simpa using h)
          · cases h

/-- The index of a found byte is in the string. -/
theorem lt_of_strchr {s : Bytes} {c : UInt8} {i : ℕ} (h : strchr s c = some i) : i < s.length := by
  unfold strchr at h
  rw [List.findIdx?_eq_some_iff_getElem] at h
  exact h.1

/-- The byte at the index that a search returns is the one searched for. -/
theorem getElem?_of_strchr {s : Bytes} {c : UInt8} {i : ℕ} (h : strchr s c = some i) :
    s[i]? = some c := by
  unfold strchr at h
  rw [List.findIdx?_eq_some_iff_getElem] at h
  obtain ⟨hlt, hc, -⟩ := h
  rw [List.getElem?_eq_getElem hlt, of_decide_eq_true hc]

theorem getElem?_of_strrchr {s : Bytes} {c : UInt8} {i : ℕ} (h : strrchr s c = some i) :
    s[i]? = some c := by
  obtain ⟨rest, hrest, hs⟩ := exists_append_of_strrchr h
  have hi : i = (s.take i).length := by
    have hfound := strrchr_append hrest (s.take i)
    rw [← hs, h] at hfound
    exact Option.some.inj hfound
  have hget : (s.take i ++ c :: rest)[(s.take i).length]? = some c := by
    rw [List.getElem?_append_right (le_refl _), Nat.sub_self]
    rfl
  rwa [← hs, ← hi] at hget

/-! ### Integers in a text -/

/-- A span of bytes of one class ends where the next byte is not of the class. -/
theorem takeWhile_append_stop {p : UInt8 → Bool} {body rest : Bytes}
    (hbody : ∀ b ∈ body, p b = true) (hrest : ∀ b, rest.head? = some b → p b = false) :
    (body ++ rest).takeWhile p = body := by
  rw [List.takeWhile_append_of_pos hbody]
  cases rest with
  | nil => simp
  | cons b rest => simp [hrest b rfl]

theorem dropWhile_append_stop {p : UInt8 → Bool} {body rest : Bytes}
    (hbody : ∀ b ∈ body, p b = true) (hrest : ∀ b, rest.head? = some b → p b = false) :
    (body ++ rest).dropWhile p = rest := by
  rw [List.dropWhile_append_of_pos hbody]
  cases rest with
  | nil => simp
  | cons b rest => simp [hrest b rfl]

/-- The parts of a text that starts with an integer: white space, a sign, digits, and the
rest, which does not go on with a digit. -/
structure IntParts (s w sign digits rest : Bytes) : Prop where
  text : s = w ++ (sign ++ (digits ++ rest))
  spaces : ∀ b ∈ w, isSpace b = true
  sign_cases : sign = [] ∨ sign = [43] ∨ sign = [45]
  digits_ne_nil : digits ≠ []
  isDigit_digits : ∀ b ∈ digits, isDigit b = true
  stop : ∀ b, rest.head? = some b → isDigit b = false

/-- The number that a sign and digits denote. -/
def signedValue (sign digits : Bytes) : Int :=
  if sign = [45] then -(decValue digits : Int) else decValue digits

/-- The integer of a text with these parts. -/
theorem scanInt_of_intParts {s w sign digits rest : Bytes} (h : IntParts s w sign digits rest) :
    scanInt s = some (signedValue sign digits, rest) := by
  obtain ⟨d, ds, hds⟩ := List.exists_cons_of_ne_nil h.digits_ne_nil
  have hd : isDigit d = true := h.isDigit_digits d (hds ▸ List.mem_cons_self)
  have htake : (digits ++ rest).takeWhile isDigit = digits :=
    takeWhile_append_stop h.isDigit_digits h.stop
  have hdrop : (digits ++ rest).dropWhile isDigit = rest :=
    dropWhile_append_stop h.isDigit_digits h.stop
  have hspace : s.dropWhile isSpace = sign ++ (digits ++ rest) := by
    rw [h.text]
    refine dropWhile_append_stop h.spaces fun b hb => ?_
    rcases h.sign_cases with rfl | rfl | rfl
    · simp only [hds, List.nil_append, List.cons_append, List.head?_cons, Option.some.injEq] at hb
      exact isSpace_of_isDigit (hb ▸ hd)
    · simp only [List.cons_append, List.head?_cons, Option.some.injEq] at hb
      exact hb ▸ rfl
    · simp only [List.cons_append, List.head?_cons, Option.some.injEq] at hb
      exact hb ▸ rfl
  have hne := h.digits_ne_nil
  unfold scanInt
  simp only [hspace]
  rcases h.sign_cases with rfl | rfl | rfl
  · -- A digit is none of the two signs.
    have h45 : d ≠ 45 := by rintro rfl; simp [isDigit] at hd
    have h43 : d ≠ 43 := by rintro rfl; simp [isDigit] at hd
    rw [hds] at htake hdrop hne ⊢
    simp only [List.nil_append, List.cons_append] at htake hdrop ⊢
    split
    · rename_i heq
      exact absurd (List.cons.inj heq).1 h45
    · rename_i heq
      exact absurd (List.cons.inj heq).1 h43
    · simp [htake, hdrop, signedValue]
  · simp [htake, hdrop, hne, signedValue]
  · simp [htake, hdrop, hne, signedValue]

/-- A text with an integer has these parts. -/
theorem exists_intParts_of_scanInt {s rest : Bytes} {z : Int} (h : scanInt s = some (z, rest)) :
    ∃ w sign digits, IntParts s w sign digits rest ∧ z = signedValue sign digits := by
  have key : ∀ (sign t : Bytes), s.dropWhile isSpace = sign ++ t →
      (sign = [] ∨ sign = [43] ∨ sign = [45]) → t.takeWhile isDigit ≠ [] →
      IntParts s (s.takeWhile isSpace) sign (t.takeWhile isDigit) (t.dropWhile isDigit) := by
    intro sign t ht hsign hne
    refine ⟨?_, List.all_eq_true.mp List.all_takeWhile, hsign, hne,
      List.all_eq_true.mp List.all_takeWhile, fun b hb => ?_⟩
    · rw [List.takeWhile_append_dropWhile, ← ht, List.takeWhile_append_dropWhile]
    · have := List.head?_dropWhile_not isDigit t
      rw [hb] at this
      simpa using this
  unfold scanInt at h
  simp only at h
  split at h
  · rename_i t ht
    by_cases hne : t.takeWhile isDigit = []
    · simp [hne] at h
    · simp only [hne, if_true, if_false, Option.some.injEq, Prod.mk.injEq] at h
      obtain ⟨rfl, rfl⟩ := h
      exact ⟨_, _, _, key [45] t ht (by simp) hne, by simp [signedValue]⟩
  · rename_i t ht
    by_cases hne : t.takeWhile isDigit = []
    · simp [hne] at h
    · simp only [hne, Bool.false_eq_true, if_false, Option.some.injEq, Prod.mk.injEq] at h
      obtain ⟨rfl, rfl⟩ := h
      exact ⟨_, _, _, key [43] t ht (by simp) hne, by simp [signedValue]⟩
  · by_cases hne : (s.dropWhile isSpace).takeWhile isDigit = []
    · simp [hne] at h
    · simp only [hne, Bool.false_eq_true, if_false, Option.some.injEq, Prod.mk.injEq] at h
      obtain ⟨rfl, rfl⟩ := h
      exact ⟨_, _, _, key [] _ rfl (by simp) hne, by simp [signedValue]⟩

/-- A printed number is read back, whatever follows that is not a digit. -/
theorem scanInt_decInt (z : Int) {rest : Bytes} (h : ∀ b, rest.head? = some b → isDigit b = false) :
    scanInt (32 :: (decInt z ++ rest)) = some (z, rest) := by
  have hspace : ∀ b ∈ ([32] : Bytes), isSpace b = true := by
    intro b hb
    rw [List.mem_singleton.mp hb]
    rfl
  by_cases hz : z < 0
  · have hparts : IntParts (32 :: (decInt z ++ rest)) [32] [45] (decNat z.natAbs) rest :=
      ⟨by simp [decInt, hz], hspace, by simp, decNat_ne_nil _, isDigit_decNat _, h⟩
    rw [scanInt_of_intParts hparts, signedValue, if_pos rfl, decValue_decNat]
    simp only [Option.some.injEq, Prod.mk.injEq, and_true]
    omega
  · have hparts : IntParts (32 :: (decInt z ++ rest)) [32] [] (decNat z.natAbs) rest :=
      ⟨by simp [decInt, hz], hspace, by simp, decNat_ne_nil _, isDigit_decNat _, h⟩
    rw [scanInt_of_intParts hparts, signedValue, if_neg (by decide), decValue_decNat]
    simp only [Option.some.injEq, Prod.mk.injEq, and_true]
    omega

/-! ### The first line of a file -/

/-- A result that has begun ends somewhere in what follows. -/
theorem head?_fgetsFrom {size : ℕ} (cur rest : Bytes) (hne : cur ≠ [])
    (hlen : cur.length + 1 < size) :
    ∃ more, more <+: rest ∧ (fgetsFrom size cur rest).head? = some (cur ++ more) := by
  induction rest generalizing cur with
  | nil => exact ⟨[], List.prefix_refl _, by simp [fgetsFrom, hne]⟩
  | cons b rest ih =>
      rw [fgetsFrom]
      split
      · exact ⟨[b], by simp, rfl⟩
      · rename_i hgo
        have hlen' : (cur ++ [b]).length + 1 < size := by
          rw [not_or] at hgo
          simp only [List.length_append, List.length_singleton] at hgo ⊢
          omega
        obtain ⟨more, hmore, hhead⟩ := ih (cur ++ [b]) (by simp) hlen'
        refine ⟨b :: more, (List.prefix_cons_inj b).mpr hmore, ?_⟩
        rw [hhead, List.append_assoc, List.singleton_append]

/-- Bytes without a newline that fit into the buffer are at the start of the result. -/
theorem head?_fgetsFrom_append (size : ℕ) (body cur rest : Bytes) (hbody : (10 : UInt8) ∉ body)
    (hne : cur ++ body ≠ []) (hcur : cur.length + 1 < size)
    (hlen : (cur ++ body).length + 1 ≤ size) :
    ∃ more, more <+: rest ∧
      (fgetsFrom size cur (body ++ rest)).head? = some (cur ++ body ++ more) := by
  induction body generalizing cur with
  | nil =>
      rw [List.append_nil] at hne ⊢
      exact head?_fgetsFrom cur rest hne hcur
  | cons b body ih =>
      have hb : b ≠ 10 := fun h => hbody (h ▸ List.mem_cons_self)
      rw [List.cons_append, fgetsFrom]
      simp only [List.length_append, List.length_cons, List.length_nil] at hlen ⊢
      by_cases hfull : cur.length + (0 + 1) + 1 = size
      · -- The buffer is full, so this was the last byte.
        obtain rfl : body = [] := List.eq_nil_of_length_eq_zero (by omega)
        rw [if_pos (Or.inr hfull)]
        exact ⟨[], List.nil_prefix, by simp⟩
      · rw [if_neg (by simp only [hb, hfull, or_self, not_false_eq_true])]
        obtain ⟨more, hmore, hhead⟩ := ih (cur ++ [b])
          (fun h => hbody (List.mem_cons_of_mem b h)) (by simp)
          (by simp only [List.length_append, List.length_singleton]; omega)
          (by simp only [List.length_append, List.length_singleton]; omega)
        refine ⟨more, hmore, ?_⟩
        rw [hhead, List.append_assoc cur [b] body, List.singleton_append]

/-- A newline ends the result. -/
theorem head?_fgetsFrom_newline {size : ℕ} (body cur rest : Bytes) (hbody : (10 : UInt8) ∉ body)
    (hlen : (cur ++ body).length + 1 < size) :
    (fgetsFrom size cur (body ++ 10 :: rest)).head? = some (cur ++ body ++ [10]) := by
  induction body generalizing cur with
  | nil =>
      rw [List.nil_append, List.append_nil, fgetsFrom, if_pos (Or.inl rfl)]
      rfl
  | cons b body ih =>
      have hb : b ≠ 10 := fun h => hbody (h ▸ List.mem_cons_self)
      simp only [List.length_append, List.length_cons] at hlen
      have hgo : ¬ (b = 10 ∨ (cur ++ [b]).length + 1 = size) := by
        simp only [List.length_append, List.length_singleton, hb, false_or]
        omega
      rw [List.cons_append, fgetsFrom, if_neg hgo, ih (cur ++ [b])
        (fun h => hbody (List.mem_cons_of_mem b h))
        (by simp only [List.length_append, List.length_singleton]; omega)]
      rw [List.append_assoc cur [b] body, List.singleton_append]

end ProcessAnalyzer.Lib
