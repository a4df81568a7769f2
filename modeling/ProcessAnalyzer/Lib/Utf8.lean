import ProcessAnalyzer.Lib.CText

/-!
# `ProcessAnalyzer.Lib.Utf8`: text and its bytes

The UTF-8 encoding of a list of characters, on top of the encoding of one character that
Lean has. The code is prefix-free, so a known beginning of the bytes is a known beginning of
the text (`utf8_cancel`), and bytes below 128 are characters of their own (`latin`).

`Decodes` is what every decoder of bytes does that may not be UTF-8: an ASCII byte is its own
character, and nothing else becomes an ASCII character.
-/

set_option autoImplicit false

namespace ProcessAnalyzer.Lib

/-- The bytes of a text. -/
def utf8 (cs : List Char) : Bytes := cs.flatMap String.utf8EncodeChar

@[simp] theorem utf8_nil : utf8 [] = [] := rfl

@[simp] theorem utf8_cons (c : Char) (cs : List Char) :
    utf8 (c :: cs) = String.utf8EncodeChar c ++ utf8 cs := rfl

@[simp] theorem utf8_append (cs ds : List Char) : utf8 (cs ++ ds) = utf8 cs ++ utf8 ds :=
  List.flatMap_append

/-- The first character can be read off the bytes. -/
theorem utf8EncodeChar_prefixFree {c d : Char} {xs ys : Bytes}
    (h : String.utf8EncodeChar c ++ xs = String.utf8EncodeChar d ++ ys) : c = d ∧ xs = ys := by
  have hdecode : ∀ (e : Char) (zs : Bytes),
      ByteArray.utf8DecodeChar? (String.utf8EncodeChar e ++ zs).toByteArray 0 = some e := by
    intro e zs
    rw [List.toByteArray_append]
    exact ByteArray.utf8DecodeChar?_utf8EncodeChar_append
  have hcd : c = d := by
    have := hdecode c xs
    rw [h, hdecode d ys] at this
    exact (Option.some.inj this).symm
  subst hcd
  exact ⟨rfl, List.append_cancel_left h⟩

/-- A known beginning of the bytes is a known beginning of the text. -/
theorem utf8_cancel {cs ds : List Char} {rest : Bytes} (h : utf8 cs = utf8 ds ++ rest) :
    ∃ es, cs = ds ++ es ∧ utf8 es = rest := by
  induction ds generalizing cs with
  | nil => exact ⟨cs, rfl, h⟩
  | cons d ds ih =>
      cases cs with
      | nil =>
          rw [utf8_nil, utf8_cons, List.append_assoc] at h
          exact absurd (List.append_eq_nil_iff.mp h.symm).1 String.utf8EncodeChar_ne_nil
      | cons c cs =>
          rw [utf8_cons, utf8_cons, List.append_assoc] at h
          obtain ⟨rfl, htail⟩ := utf8EncodeChar_prefixFree h
          obtain ⟨es, rfl, hes⟩ := ih htail
          exact ⟨es, rfl, hes⟩

/-- Different texts have different bytes. -/
theorem utf8_injective : Function.Injective utf8 := by
  intro cs ds h
  have hbytes : utf8 cs = utf8 ds ++ [] := h.trans (List.append_nil _).symm
  obtain ⟨es, hcs, hes⟩ := utf8_cancel hbytes
  cases es with
  | nil => rw [hcs, List.append_nil]
  | cons e es => exact absurd (List.append_eq_nil_iff.mp hes).1 String.utf8EncodeChar_ne_nil

/-! ### ASCII -/

/-- Each byte as a character. -/
def latin (bs : Bytes) : List Char := bs.map fun b => Char.ofNat b.toNat

@[simp] theorem latin_append (as bs : Bytes) : latin (as ++ bs) = latin as ++ latin bs :=
  List.map_append

/-- The code of an ASCII character. -/
theorem toNat_ofNat_toNat {b : UInt8} (h : b < 128) : (Char.ofNat b.toNat).toNat = b.toNat := by
  have hb : b.toNat < 128 := h
  have hvalid : b.toNat.isValidChar := Or.inl (by omega)
  rw [Char.ofNat, dif_pos hvalid]
  rfl

/-- An ASCII character is encoded by its code. -/
theorem utf8EncodeChar_ofNat {b : UInt8} (h : b < 128) :
    String.utf8EncodeChar (Char.ofNat b.toNat) = [b] := by
  have hb : b.toNat < 128 := h
  have hval : (Char.ofNat b.toNat).val.toNat = b.toNat := toNat_ofNat_toNat h
  unfold String.utf8EncodeChar
  simp only [hval]
  rw [if_pos (by omega)]
  simp

/-- ASCII bytes are the encoding of their characters. -/
theorem utf8_latin {bs : Bytes} (h : ∀ b ∈ bs, b < 128) : utf8 (latin bs) = bs := by
  induction bs with
  | nil => rfl
  | cons b bs ih =>
      show String.utf8EncodeChar (Char.ofNat b.toNat) ++ utf8 (latin bs) = b :: bs
      rw [utf8EncodeChar_ofNat (h b List.mem_cons_self),
        ih fun c hc => h c (List.mem_cons_of_mem _ hc)]
      rfl

/-- A byte in front of an ASCII byte, or the last one of a text, is ASCII or inside of a
longer character. At the beginning of a text it is ASCII. -/
theorem lt_of_utf8_eq_cons {cs : List Char} {b c : UInt8} {rest : Bytes} (hc : c < 128)
    (h : utf8 cs = b :: c :: rest) : b < 128 := by
  cases cs with
  | nil => cases h
  | cons d ds =>
      rw [utf8_cons] at h
      -- The second byte of a longer character is a continuation byte, which is not ASCII.
      have hcontinue : ∀ v, UInt8.ofNat (v % 64 + 128) ≠ c := by
        rintro v rfl
        have hc' : (UInt8.ofNat (v % 64 + 128)).toNat < 128 := hc
        rw [UInt8.toNat_ofNat'] at hc'
        omega
      unfold String.utf8EncodeChar at h
      simp only at h
      split at h
      · rename_i hv
        rw [← (List.cons.inj h).1]
        show (UInt8.ofNat d.val.toNat).toNat < 128
        rw [UInt8.toNat_ofNat']
        omega
      · split at h
        · exact absurd (List.cons.inj (List.cons.inj h).2).1 (hcontinue _)
        · split at h
          · exact absurd (List.cons.inj (List.cons.inj h).2).1 (hcontinue _)
          · exact absurd (List.cons.inj (List.cons.inj h).2).1 (hcontinue _)

/-! ### Decoding -/

/-- A text that a decoder can make of the bytes. An ASCII byte stands for itself. Another
byte becomes characters that are not ASCII, such as the replacement character, or nothing. -/
inductive Decodes : Bytes → List Char → Prop where
  | nil : Decodes [] []
  | ascii {b : UInt8} {bs : Bytes} {cs : List Char} (hb : b < 128) (h : Decodes bs cs) :
      Decodes (b :: bs) (Char.ofNat b.toNat :: cs)
  | other {b : UInt8} {bs : Bytes} {ds cs : List Char} (hb : ¬ b < 128)
      (hds : ∀ d ∈ ds, 128 ≤ d.toNat) (h : Decodes bs cs) : Decodes (b :: bs) (ds ++ cs)

/-- Parts of the bytes become parts of the text. -/
theorem Decodes.append_inv {as bs : Bytes} {text : List Char} (h : Decodes (as ++ bs) text) :
    ∃ cs ds, text = cs ++ ds ∧ Decodes as cs ∧ Decodes bs ds := by
  induction as generalizing text with
  | nil => exact ⟨[], text, rfl, .nil, h⟩
  | cons a as ih =>
      cases h with
      | ascii ha h =>
          obtain ⟨cs, ds, rfl, hcs, hds⟩ := ih h
          exact ⟨_, ds, rfl, .ascii ha hcs, hds⟩
      | other ha hes h =>
          obtain ⟨cs, ds, rfl, hcs, hds⟩ := ih h
          exact ⟨_, ds, (List.append_assoc _ _ _).symm, .other ha hes hcs, hds⟩

/-- Decoding ASCII bytes gives their characters. -/
theorem Decodes.eq_latin {bs : Bytes} (hbs : ∀ b ∈ bs, b < 128) {text : List Char}
    (h : Decodes bs text) : text = latin bs := by
  induction h with
  | nil => rfl
  | ascii hb h ih =>
      rw [ih fun b hmem => hbs b (List.mem_cons_of_mem _ hmem)]
      rfl
  | other hb hds h ih => exact absurd (hbs _ List.mem_cons_self) hb

/-- An ASCII character in the text is a byte of the text. -/
theorem Decodes.mem_of_ascii {bs : Bytes} {text : List Char} (h : Decodes bs text) {a : UInt8}
    (ha : a < 128) (hmem : Char.ofNat a.toNat ∈ text) : a ∈ bs := by
  induction h with
  | nil => cases hmem
  | ascii hb h ih =>
      rcases List.mem_cons.mp hmem with heq | hmem
      · have hcode := congrArg Char.toNat heq
        rw [toNat_ofNat_toNat ha, toNat_ofNat_toNat hb] at hcode
        rw [UInt8.toNat_inj.mp hcode]
        exact List.mem_cons_self
      · exact List.mem_cons_of_mem _ (ih hmem)
  | other hb hds h ih =>
      rcases List.mem_append.mp hmem with hmem | hmem
      · have hcode := hds _ hmem
        rw [toNat_ofNat_toNat ha] at hcode
        have hlt : a.toNat < 128 := ha
        omega
      · exact List.mem_cons_of_mem _ (ih hmem)

/-- ASCII bytes decode to their characters. -/
theorem decodes_latin {bs : Bytes} (hbs : ∀ b ∈ bs, b < 128) : Decodes bs (latin bs) := by
  induction bs with
  | nil => exact .nil
  | cons b bs ih =>
      exact .ascii (hbs b List.mem_cons_self) (ih fun c hc => hbs c (List.mem_cons_of_mem _ hc))

end ProcessAnalyzer.Lib
