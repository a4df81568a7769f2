import Mathlib.Data.List.Count
import ProcessAnalyzer.Lib.Utf8

/-!
# `ProcessAnalyzer.Lib.Utf8Decoder`: the decoder of the web platform

A UTF-8 decoder that accepts all bytes: what is not UTF-8 becomes replacement characters. It
keeps the sequence that it is in, with the range of the next byte, and a byte outside of that
range ends the sequence with a replacement character and is then looked at afresh. So does the
end of the input. A byte order mark is an ordinary character here.

* `decode_utf8_append`: the encoding of a text is decoded to the text.
* `decode_continuation_append`, `decode_incomplete`: the two halves of a character that was
  cut. The rest of it gives one replacement character for each byte, its beginning gives one
  altogether.
* `count_decode_pieces`, `count_lt_of_not_whole`: bytes that are decoded piece by piece. Every
  character that is cut makes the number of replacement characters grow.
* `decode_append_ascii`: bytes up to an ASCII byte are decoded on their own.
* `decodes_flatMap_decode`: wherever the bytes are cut, and also when they are not UTF-8, every
  ASCII byte stands for itself and no other byte becomes an ASCII character.
-/

set_option autoImplicit false

namespace ProcessAnalyzer.Lib

/-! ### The decoder -/

/-- U+FFFD. -/
def replacement : Char := Char.ofNat 0xFFFD

/-- The decoder inside of a sequence: how many bytes are missing, the bits so far, and the
range of the next byte. -/
structure Utf8Sequence where
  missing : ℕ
  codePoint : ℕ
  lower : ℕ := 0x80
  upper : ℕ := 0xBF
  deriving DecidableEq

/-- The first byte of a sequence: what it writes, and the sequence that it begins. -/
def startSequence (b : ℕ) : List Char × Option Utf8Sequence :=
  if b ≤ 0x7F then ([Char.ofNat b], none)
  else if 0xC2 ≤ b ∧ b ≤ 0xDF then ([], some { missing := 1, codePoint := b % 0x20 })
  else if 0xE0 ≤ b ∧ b ≤ 0xEF then
    ([], some
      { missing := 2
        codePoint := b % 0x10
        lower := if b = 0xE0 then 0xA0 else 0x80
        upper := if b = 0xED then 0x9F else 0xBF })
  else if 0xF0 ≤ b ∧ b ≤ 0xF4 then
    ([], some
      { missing := 3
        codePoint := b % 0x08
        lower := if b = 0xF0 then 0x90 else 0x80
        upper := if b = 0xF4 then 0x8F else 0xBF })
  else ([replacement], none)

/-- A byte in the range of the sequence. -/
def Utf8Sequence.next (s : Utf8Sequence) (b : ℕ) : List Char × Option Utf8Sequence :=
  let codePoint := s.codePoint * 0x40 + b % 0x40
  if s.missing = 1 then ([Char.ofNat codePoint], none)
  else ([], some { missing := s.missing - 1, codePoint := codePoint })

/-- One byte. Outside of the range the sequence is given up, and the byte begins another one. -/
def decodeStep (state : Option Utf8Sequence) (b : ℕ) : List Char × Option Utf8Sequence :=
  match state with
  | none => startSequence b
  | some s =>
      if s.lower ≤ b ∧ b ≤ s.upper then s.next b
      else (replacement :: (startSequence b).1, (startSequence b).2)

/-- The text of the bytes, from a state of the decoder. The end of the input gives up a
sequence too. -/
def decodeFrom : Option Utf8Sequence → Bytes → List Char
  | none, [] => []
  | some _, [] => [replacement]
  | state, b :: bs =>
      (decodeStep state b.toNat).1 ++ decodeFrom (decodeStep state b.toNat).2 bs

/-- The text of the bytes. -/
def decode (bs : Bytes) : List Char := decodeFrom none bs

@[simp] theorem decode_nil : decode [] = [] := rfl

/-! ### One character -/

/-- A byte that is not the first one of a character. -/
def isContinuation (b : UInt8) : Bool := 0x80 ≤ b.toNat && b.toNat ≤ 0xBF

/-- The bytes complete the sequence to the character. -/
def Completes (c : Char) : Bytes → Utf8Sequence → Prop
  | [], _ => False
  | [b], s => (s.lower ≤ b.toNat ∧ b.toNat ≤ s.upper) ∧ s.next b.toNat = ([c], none)
  | b :: b' :: bs, s =>
      (s.lower ≤ b.toNat ∧ b.toNat ≤ s.upper) ∧
        ∃ s', s.next b.toNat = ([], some s') ∧ Completes c (b' :: bs) s'

/-- The encoding of a character: one byte, or a first byte and the bytes that complete its
sequence. -/
structure EncodedBy (c : Char) (b : UInt8) (bs : Bytes) : Prop where
  encode : String.utf8EncodeChar c = b :: bs
  continuation : ∀ t ∈ bs, isContinuation t = true
  decoded : (bs = [] ∧ startSequence b.toNat = ([c], none)) ∨
    ∃ s, startSequence b.toNat = ([], some s) ∧ Completes c bs s

theorem toNat_ofNat_of_lt {n : ℕ} (h : n < 256) : (UInt8.ofNat n).toNat = n := by
  rw [UInt8.toNat_ofNat']
  exact Nat.mod_eq_of_lt h

/-- The last byte of a sequence. -/
theorem completes_one {c : Char} {s : Utf8Sequence} {t : ℕ} (ht : t < 64) (hm : s.missing = 1)
    (hrange : s.lower ≤ t + 128 ∧ t + 128 ≤ s.upper)
    (hc : Char.ofNat (s.codePoint * 64 + t) = c) : Completes c [UInt8.ofNat (t + 128)] s := by
  have hb := toNat_ofNat_of_lt (show t + 128 < 256 by omega)
  show (s.lower ≤ _ ∧ _ ≤ s.upper) ∧ s.next _ = ([c], none)
  rw [hb, Utf8Sequence.next, if_pos hm, show (t + 128) % 0x40 = t by omega, hc]
  exact ⟨hrange, rfl⟩

/-- A byte of a sequence that is not the last one. -/
theorem completes_cons {c : Char} {s : Utf8Sequence} {t k : ℕ} {b : UInt8} {bs : Bytes}
    (ht : t < 64) (hm : s.missing = k + 2) (hrange : s.lower ≤ t + 128 ∧ t + 128 ≤ s.upper)
    (h : Completes c (b :: bs) { missing := k + 1, codePoint := s.codePoint * 64 + t }) :
    Completes c (UInt8.ofNat (t + 128) :: b :: bs) s := by
  have hb := toNat_ofNat_of_lt (show t + 128 < 256 by omega)
  show (s.lower ≤ _ ∧ _ ≤ s.upper) ∧ ∃ s', s.next _ = ([], some s') ∧ Completes c (b :: bs) s'
  rw [hb, Utf8Sequence.next, if_neg (by omega), hm, show (t + 128) % 0x40 = t by omega]
  exact ⟨hrange, _, rfl, h⟩

/-- Every character has such an encoding. The ranges of the second byte are those that the
shortest form and the gap of the surrogates leave. -/
theorem exists_encodedBy (c : Char) : ∃ b bs, EncodedBy c b bs := by
  have hchar : ∀ n, n = c.val.toNat → Char.ofNat n = c := fun n hn => hn ▸ Char.ofNat_toNat c
  have hrange : c.val.toNat < 0xD800 ∨ (0xDFFF < c.val.toNat ∧ c.val.toNat < 0x110000) := c.valid
  have htail : ∀ t, t < 64 → isContinuation (UInt8.ofNat (t + 128)) = true := by
    intro t ht
    rw [isContinuation, toNat_ofNat_of_lt (by omega), Bool.and_eq_true, decide_eq_true_eq,
      decide_eq_true_eq]
    omega
  have hmod : ∀ v : ℕ, v % 64 < 64 := fun v => Nat.mod_lt v (by decide)
  have hencode := String.utf8EncodeChar.eq_1 c
  generalize c.val.toNat = v at *
  split at hencode
  · refine ⟨_, [], hencode, List.forall_mem_nil _, Or.inl ⟨rfl, ?_⟩⟩
    rw [toNat_ofNat_of_lt (by omega), startSequence, if_pos (by omega), hchar v rfl]
  · split at hencode
    · refine ⟨_, _, hencode, List.forall_mem_cons.mpr ⟨htail _ (hmod _), List.forall_mem_nil _⟩,
        Or.inr ?_⟩
      rw [toNat_ofNat_of_lt (by omega), startSequence, if_neg (by omega), if_pos (by omega)]
      refine ⟨_, rfl, completes_one (hmod v) rfl ?_ (hchar _ ?_)⟩
      · simp only
        omega
      · simp only
        omega
    · split at hencode
      · refine ⟨_, _, hencode, List.forall_mem_cons.mpr ⟨htail _ (hmod _),
          List.forall_mem_cons.mpr ⟨htail _ (hmod _), List.forall_mem_nil _⟩⟩, Or.inr ?_⟩
        rw [toNat_ofNat_of_lt (by omega), startSequence, if_neg (by omega), if_neg (by omega),
          if_pos (by omega)]
        refine ⟨_, rfl, completes_cons (hmod _) rfl ?_
          (completes_one (hmod v) rfl (by simp only; omega) (hchar _ (by simp only; omega)))⟩
        simp only
        split_ifs <;> omega
      · refine ⟨_, _, hencode, List.forall_mem_cons.mpr ⟨htail _ (hmod _),
          List.forall_mem_cons.mpr ⟨htail _ (hmod _),
            List.forall_mem_cons.mpr ⟨htail _ (hmod _), List.forall_mem_nil _⟩⟩⟩, Or.inr ?_⟩
        rw [toNat_ofNat_of_lt (by omega), startSequence, if_neg (by omega), if_neg (by omega),
          if_neg (by omega), if_pos (by omega)]
        refine ⟨_, rfl, completes_cons (hmod _) rfl ?_
          (completes_cons (hmod _) rfl (by simp only; omega)
            (completes_one (hmod v) rfl (by simp only; omega) (hchar _ (by simp only; omega))))⟩
        simp only
        split_ifs <;> omega

/-! ### Texts and their parts -/

/-- The bytes that complete a sequence write the character. -/
theorem decodeFrom_completes {c : Char} {bs : Bytes} {s : Utf8Sequence} (h : Completes c bs s)
    (rest : Bytes) : decodeFrom (some s) (bs ++ rest) = c :: decode rest := by
  induction bs generalizing s with
  | nil => exact absurd h id
  | cons b bs ih =>
      cases bs with
      | nil =>
          obtain ⟨hrange, hnext⟩ := h
          rw [List.cons_append, decodeFrom, decodeStep, if_pos hrange, hnext]
          rfl
      | cons b' bs =>
          obtain ⟨hrange, s', hnext, hrest⟩ := h
          rw [List.cons_append, decodeFrom, decodeStep, if_pos hrange, hnext]
          exact ih hrest

/-- Some of these bytes leave the sequence incomplete. -/
theorem decodeFrom_incomplete {c : Char} {as bs : Bytes} {s : Utf8Sequence}
    (h : Completes c (as ++ bs) s) (hbs : bs ≠ []) : decodeFrom (some s) as = [replacement] := by
  induction as generalizing s with
  | nil => rfl
  | cons a as ih =>
      have hcons : as ++ bs ≠ [] := List.append_ne_nil_of_right_ne_nil as hbs
      obtain ⟨b, rest, hrest⟩ := List.exists_cons_of_ne_nil hcons
      rw [List.cons_append, hrest] at h
      obtain ⟨hrange, s', hnext, hcompletes⟩ := h
      rw [decodeFrom, decodeStep, if_pos hrange, hnext]
      exact ih (hrest ▸ hcompletes)

/-- The encoding of a character is decoded to it. -/
theorem decode_char_append (c : Char) (rest : Bytes) :
    decode (String.utf8EncodeChar c ++ rest) = c :: decode rest := by
  obtain ⟨b, bs, h⟩ := exists_encodedBy c
  rw [h.encode, List.cons_append]
  show (startSequence b.toNat).1 ++ decodeFrom (startSequence b.toNat).2 (bs ++ rest) = _
  rcases h.decoded with ⟨rfl, hstart⟩ | ⟨s, hstart, hcompletes⟩
  · rw [hstart]
    rfl
  · rw [hstart]
    exact decodeFrom_completes hcompletes rest

/-- The encoding of a text is decoded to it. -/
theorem decode_utf8_append (cs : List Char) (rest : Bytes) :
    decode (utf8 cs ++ rest) = cs ++ decode rest := by
  induction cs with
  | nil => rfl
  | cons c cs ih => rw [utf8_cons, List.append_assoc, decode_char_append, ih, List.cons_append]

@[simp] theorem decode_utf8 (cs : List Char) : decode (utf8 cs) = cs := by
  have h := decode_utf8_append cs []
  rwa [List.append_nil, decode_nil, List.append_nil] at h

/-- The beginning of a character without its end is one replacement character. -/
theorem decode_incomplete {c : Char} {as bs : Bytes} (h : String.utf8EncodeChar c = as ++ bs)
    (has : as ≠ []) (hbs : bs ≠ []) : decode as = [replacement] := by
  obtain ⟨b, ts, hc⟩ := exists_encodedBy c
  obtain ⟨a, as, rfl⟩ := List.exists_cons_of_ne_nil has
  have hcons : b :: ts = a :: (as ++ bs) := hc.encode.symm.trans h
  obtain ⟨rfl, rfl⟩ := List.cons.inj hcons
  show (startSequence b.toNat).1 ++ decodeFrom (startSequence b.toNat).2 as = _
  rcases hc.decoded with ⟨hnil, -⟩ | ⟨s, hstart, hcompletes⟩
  · exact absurd (List.append_eq_nil_iff.mp hnil).2 hbs
  · rw [hstart]
    exact decodeFrom_incomplete hcompletes hbs

/-- A continuation byte without a beginning is a replacement character. -/
theorem startSequence_of_isContinuation {b : UInt8} (h : isContinuation b = true) :
    startSequence b.toNat = ([replacement], none) := by
  rw [isContinuation, Bool.and_eq_true, decide_eq_true_eq, decide_eq_true_eq] at h
  rw [startSequence, if_neg (by omega), if_neg (by omega), if_neg (by omega), if_neg (by omega)]

theorem decode_continuation_append {bs : Bytes} (h : ∀ b ∈ bs, isContinuation b = true)
    (rest : Bytes) :
    decode (bs ++ rest) = List.replicate bs.length replacement ++ decode rest := by
  induction bs with
  | nil => rfl
  | cons b bs ih =>
      have hrest := ih fun t ht => h t (List.mem_cons_of_mem _ ht)
      show (startSequence b.toNat).1 ++ decodeFrom (startSequence b.toNat).2 (bs ++ rest) = _
      rw [startSequence_of_isContinuation (h b List.mem_cons_self), List.length_cons,
        List.replicate_succ]
      exact congrArg (replacement :: ·) hrest

/-! ### Pieces -/

/-- Where bytes are cut: between two characters, or inside of one. -/
theorem utf8_eq_append {ds : List Char} {p r : Bytes} (h : utf8 ds = p ++ r) :
    (∃ as bs, ds = as ++ bs ∧ p = utf8 as ∧ r = utf8 bs) ∨
    ∃ as c bs q q', ds = as ++ c :: bs ∧ String.utf8EncodeChar c = q ++ q' ∧ q ≠ [] ∧ q' ≠ [] ∧
      p = utf8 as ++ q ∧ r = q' ++ utf8 bs := by
  induction ds generalizing p with
  | nil =>
      obtain ⟨rfl, rfl⟩ := List.append_eq_nil_iff.mp h.symm
      exact Or.inl ⟨[], [], rfl, rfl, rfl⟩
  | cons d ds ih =>
      rw [utf8_cons] at h
      rcases List.append_eq_append_iff.mp h with ⟨p', rfl, hrest⟩ | ⟨q', hd, rfl⟩
      · -- The cut is behind the first character.
        rcases ih hrest with
          ⟨as, bs, rfl, rfl, rfl⟩ | ⟨as, c, bs, q, q', rfl, hc, hq, hq', rfl, rfl⟩
        · exact Or.inl ⟨d :: as, bs, rfl, rfl, rfl⟩
        · refine Or.inr ⟨d :: as, c, bs, q, q', rfl, hc, hq, hq', ?_, rfl⟩
          rw [utf8_cons, List.append_assoc]
      · by_cases hp : p = []
        · subst hp
          exact Or.inl ⟨[], d :: ds, rfl, rfl, by rw [utf8_cons, hd]; rfl⟩
        · by_cases hq' : q' = []
          · subst hq'
            refine Or.inl ⟨[d], ds, rfl, ?_, rfl⟩
            rw [utf8_cons, hd, utf8_nil, List.append_nil, List.append_nil]
          · exact Or.inr ⟨[], d, ds, p, q', rfl, hd, hp, hq', rfl, rfl⟩

/-- The second part of a cut character has continuation bytes only. -/
theorem isContinuation_of_append {c : Char} {q q' : Bytes}
    (h : String.utf8EncodeChar c = q ++ q') (hq : q ≠ []) : ∀ b ∈ q', isContinuation b = true := by
  obtain ⟨b, bs, hc⟩ := exists_encodedBy c
  obtain ⟨a, as, rfl⟩ := List.exists_cons_of_ne_nil hq
  have hcons : b :: bs = a :: (as ++ q') := hc.encode.symm.trans h
  obtain ⟨-, rfl⟩ := List.cons.inj hcons
  exact fun t ht => hc.continuation t (List.mem_append_right _ ht)

theorem utf8_eq_nil {ds : List Char} (h : utf8 ds = []) : ds = [] := utf8_injective h

/-- Pieces of the end of a character and a text: there are at least as many replacement
characters as bytes of the one and replacement characters in the other. -/
theorem count_decode_pieces (ps : List Bytes) {t : Bytes} {ds : List Char}
    (ht : ∀ b ∈ t, isContinuation b = true) (h : ps.flatten = t ++ utf8 ds) :
    t.length + ds.count replacement ≤ (ps.flatMap decode).count replacement := by
  induction ps generalizing t ds with
  | nil =>
      obtain ⟨rfl, hds⟩ := List.append_eq_nil_iff.mp h.symm
      rw [utf8_eq_nil hds]
      exact le_rfl
  | cons p ps ih =>
      rw [List.flatten_cons] at h
      rw [List.flatMap_cons, List.count_append]
      rcases List.append_eq_append_iff.mp h with ⟨t', rfl, hrest⟩ | ⟨p', rfl, hrest⟩
      · -- The piece ends inside of the cut character.
        have hp := decode_continuation_append (fun b hb => ht b (List.mem_append_left _ hb)) []
        rw [List.append_nil, decode_nil, List.append_nil] at hp
        have hmore := ih (fun b hb => ht b (List.mem_append_right _ hb)) hrest
        rw [hp, List.count_replicate_self, List.length_append]
        omega
      · rw [decode_continuation_append ht, List.count_append, List.count_replicate_self]
        rcases utf8_eq_append hrest with
          ⟨as, bs, rfl, rfl, hbs⟩ | ⟨as, c, bs, q, q', rfl, hc, hq, hq', rfl, hbs⟩
        · have hmore := ih (List.forall_mem_nil _) hbs
          rw [decode_utf8, List.count_append]
          rw [List.length_nil] at hmore
          omega
        · have hmore := ih (isContinuation_of_append hc hq) hbs
          have hpos : 0 < q'.length := List.length_pos_of_ne_nil hq'
          rw [decode_utf8_append, decode_incomplete hc hq hq', List.count_append,
            List.count_append, List.count_singleton_self, List.count_cons]
          split_ifs <;> omega

/-- Every piece is the encoding of a text. -/
def Whole (ps : List Bytes) : Prop := ∀ p ∈ ps, ∃ es, utf8 es = p

/-- Whole pieces give the text. -/
theorem flatMap_decode_of_whole {ps : List Bytes} (hwhole : Whole ps) {ds : List Char}
    (h : ps.flatten = utf8 ds) : ps.flatMap decode = ds := by
  induction ps generalizing ds with
  | nil => exact (utf8_eq_nil h.symm).symm
  | cons p ps ih =>
      obtain ⟨es, rfl⟩ := hwhole p List.mem_cons_self
      rw [List.flatten_cons] at h
      obtain ⟨ds', rfl, hrest⟩ := utf8_cancel h.symm
      rw [List.flatMap_cons, decode_utf8,
        ih (fun q hq => hwhole q (List.mem_cons_of_mem _ hq)) hrest.symm]

/-- A cut inside of a character makes the number of replacement characters grow. -/
theorem count_lt_of_not_whole {ps : List Bytes} (hcut : ¬ Whole ps) {ds : List Char}
    (h : ps.flatten = utf8 ds) :
    ds.count replacement < (ps.flatMap decode).count replacement := by
  induction ps generalizing ds with
  | nil => exact absurd (List.forall_mem_nil _) hcut
  | cons p ps ih =>
      rw [List.flatten_cons] at h
      rw [List.flatMap_cons, List.count_append]
      rcases utf8_eq_append h.symm with
        ⟨as, bs, rfl, rfl, hbs⟩ | ⟨as, c, bs, q, q', rfl, hc, hq, hq', rfl, hbs⟩
      · have hlater : ¬ Whole ps :=
          fun hwhole => hcut (List.forall_mem_cons.mpr ⟨⟨as, rfl⟩, hwhole⟩)
        have hmore := ih hlater hbs
        rw [decode_utf8, List.count_append]
        omega
      · have hmore := count_decode_pieces ps (isContinuation_of_append hc hq) hbs
        have hpos : 0 < q'.length := List.length_pos_of_ne_nil hq'
        rw [decode_utf8_append, decode_incomplete hc hq hq', List.count_append,
          List.count_append, List.count_singleton_self, List.count_cons]
        split_ifs <;> omega

/-- The pieces are whole exactly when the bytes in front of every cut are. -/
theorem whole_iff_take (ps : List Bytes) :
    Whole ps ↔ ∀ k, ∃ es, utf8 es = (ps.take k).flatten := by
  constructor
  · intro hwhole k
    induction ps generalizing k with
    | nil => exact ⟨[], by rw [List.take_nil]; rfl⟩
    | cons p ps ih =>
        cases k with
        | zero => exact ⟨[], rfl⟩
        | succ k =>
            obtain ⟨es, rfl⟩ := hwhole p List.mem_cons_self
            obtain ⟨fs, hfs⟩ := ih (fun q hq => hwhole q (List.mem_cons_of_mem _ hq)) k
            exact ⟨es ++ fs, by rw [utf8_append, hfs]; rfl⟩
  · intro h p hp
    obtain ⟨k, hk, rfl⟩ := List.mem_iff_getElem.mp hp
    obtain ⟨es, hes⟩ := h k
    obtain ⟨fs, hfs⟩ := h (k + 1)
    rw [List.take_add_one, List.getElem?_eq_getElem hk, List.flatten_append, ← hes] at hfs
    -- What is behind a whole beginning is whole.
    obtain ⟨gs, -, hgs⟩ := utf8_cancel hfs
    exact ⟨gs, by simpa using hgs⟩

/-! ### ASCII bytes -/

/-- The least code point that a sequence can become. -/
def Utf8Sequence.floor (s : Utf8Sequence) : ℕ :=
  (s.codePoint * 64 + (s.lower - 128)) * 64 ^ (s.missing - 1)

/-- The greatest one. -/
def Utf8Sequence.ceil (s : Utf8Sequence) : ℕ :=
  (s.codePoint * 64 + (s.upper - 128)) * 64 ^ (s.missing - 1) + (64 ^ (s.missing - 1) - 1)

/-- A sequence becomes a character that is not ASCII, of bytes that are not either. -/
structure Utf8Sequence.Proper (s : Utf8Sequence) : Prop where
  missing : s.missing = 1 ∨ s.missing = 2 ∨ s.missing = 3
  range : 128 ≤ s.lower ∧ s.upper ≤ 191
  floor : 128 ≤ s.floor
  scalar : s.ceil < 0xD800 ∨ (0xE000 ≤ s.floor ∧ s.ceil < 0x110000)

/-- The first byte of a sequence. -/
theorem startSequence_cases (b : ℕ) :
    (b < 128 ∧ startSequence b = ([Char.ofNat b], none)) ∨
    (128 ≤ b ∧ startSequence b = ([replacement], none)) ∨
    (128 ≤ b ∧ ∃ s, startSequence b = ([], some s) ∧ s.Proper) := by
  unfold startSequence
  split
  · exact Or.inl ⟨by omega, rfl⟩
  · have hb : 128 ≤ b := by omega
    split
    · refine Or.inr (Or.inr ⟨hb, _, rfl, ⟨Or.inl rfl, ⟨Nat.le_refl 128, Nat.le_refl 191⟩, ?_, ?_⟩⟩)
      · simp only [Utf8Sequence.floor]
        omega
      · simp only [Utf8Sequence.ceil]
        omega
    · split
      · refine Or.inr (Or.inr ⟨hb, _, rfl, ⟨Or.inr (Or.inl rfl), ⟨?_, ?_⟩, ?_, ?_⟩⟩)
        · dsimp only
          split <;> decide
        · dsimp only
          split <;> decide
        · simp only [Utf8Sequence.floor]
          split <;> omega
        · simp only [Utf8Sequence.ceil, Utf8Sequence.floor]
          split <;> split <;> omega
      · split
        · refine Or.inr (Or.inr ⟨hb, _, rfl, ⟨Or.inr (Or.inr rfl), ⟨?_, ?_⟩, ?_, ?_⟩⟩)
          · dsimp only
            split <;> decide
          · dsimp only
            split <;> decide
          · simp only [Utf8Sequence.floor]
            split <;> omega
          · simp only [Utf8Sequence.ceil, Utf8Sequence.floor]
            split <;> split <;> omega
        · exact Or.inr (Or.inl ⟨hb, rfl⟩)

/-- A byte in the range of a sequence. -/
theorem Utf8Sequence.Proper.next {s : Utf8Sequence} (h : s.Proper) {b : ℕ}
    (hb : s.lower ≤ b ∧ b ≤ s.upper) :
    (∃ c : Char, s.next b = ([c], none) ∧ 128 ≤ c.toNat) ∨
      ∃ s', s.next b = ([], some s') ∧ s'.Proper := by
  obtain ⟨missing, codePoint, lower, upper⟩ := s
  obtain ⟨hmissing, ⟨hlower, hupper⟩, hfloor, hscalar⟩ := h
  simp only [Utf8Sequence.floor, Utf8Sequence.ceil] at *
  rcases hmissing with rfl | rfl | rfl
  · refine Or.inl ⟨_, rfl, ?_⟩
    have hvalid : (codePoint * 0x40 + b % 0x40).isValidChar := by
      show _ < 0xD800 ∨ (0xDFFF < _ ∧ _ < 0x110000)
      omega
    rw [Char.ofNat, dif_pos hvalid]
    show 128 ≤ codePoint * 0x40 + b % 0x40
    omega
  · refine Or.inr ⟨_, rfl, ⟨Or.inl rfl, ⟨Nat.le_refl 128, Nat.le_refl 191⟩, ?_, ?_⟩⟩
    · simp only [Utf8Sequence.floor]
      omega
    · simp only [Utf8Sequence.floor, Utf8Sequence.ceil]
      omega
  · refine Or.inr ⟨_, rfl, ⟨Or.inr (Or.inl rfl), ⟨Nat.le_refl 128, Nat.le_refl 191⟩, ?_, ?_⟩⟩
    · simp only [Utf8Sequence.floor]
      omega
    · simp only [Utf8Sequence.floor, Utf8Sequence.ceil]
      omega

/-- An ASCII byte begins afresh, wherever the decoder is. -/
theorem decodeFrom_append_ascii {b : UInt8} (hb : b < 128) (ys xs : Bytes) :
    decode (xs ++ b :: ys) = decode xs ++ decode (b :: ys) ∧
      ∀ s : Utf8Sequence, s.Proper →
        decodeFrom (some s) (xs ++ b :: ys) = decodeFrom (some s) xs ++ decode (b :: ys) := by
  have hascii : b.toNat < 128 := hb
  induction xs with
  | nil =>
      refine ⟨rfl, fun s hs => ?_⟩
      have hlower := hs.range.1
      show (decodeStep (some s) b.toNat).1 ++ decodeFrom (decodeStep (some s) b.toNat).2 ys = _
      simp only [decodeStep, if_neg (show ¬ (s.lower ≤ b.toNat ∧ b.toNat ≤ s.upper) by omega)]
      rfl
  | cons x xs ih =>
      obtain ⟨hbetween, hinside⟩ := ih
      have hfirst : decode (x :: xs ++ b :: ys) = decode (x :: xs) ++ decode (b :: ys) := by
        show (startSequence x.toNat).1 ++ decodeFrom (startSequence x.toNat).2 (xs ++ b :: ys)
          = (startSequence x.toNat).1 ++ decodeFrom (startSequence x.toNat).2 xs ++ decode (b :: ys)
        rw [List.append_assoc]
        rcases startSequence_cases x.toNat with ⟨-, hstart⟩ | ⟨-, hstart⟩ | ⟨-, s, hstart, hs⟩
        · rw [hstart]
          exact congrArg _ hbetween
        · rw [hstart]
          exact congrArg _ hbetween
        · rw [hstart]
          exact congrArg _ (hinside s hs)
      refine ⟨hfirst, fun s hs => ?_⟩
      show (decodeStep (some s) x.toNat).1
          ++ decodeFrom (decodeStep (some s) x.toNat).2 (xs ++ b :: ys)
        = (decodeStep (some s) x.toNat).1 ++ decodeFrom (decodeStep (some s) x.toNat).2 xs
          ++ decode (b :: ys)
      rw [decodeStep]
      by_cases hx : s.lower ≤ x.toNat ∧ x.toNat ≤ s.upper
      · simp only [if_pos hx]
        rw [List.append_assoc]
        rcases hs.next hx with ⟨c, hnext, -⟩ | ⟨s', hnext, hs'⟩
        · rw [hnext]
          exact congrArg _ hbetween
        · rw [hnext]
          exact congrArg _ (hinside s' hs')
      · simp only [if_neg hx]
        exact congrArg (replacement :: ·) hfirst

/-- Bytes up to an ASCII byte are decoded on their own. -/
theorem decode_append_ascii (xs : Bytes) {b : UInt8} (hb : b < 128) (ys : Bytes) :
    decode (xs ++ b :: ys) = decode xs ++ decode (b :: ys) :=
  (decodeFrom_append_ascii hb ys xs).1

/-- What is decoded from inside of a sequence belongs to the bytes of the sequence, up to the
first byte that begins another one. -/
theorem decodes_decodeFrom (bs : Bytes) :
    Decodes bs (decode bs) ∧ ∀ s : Utf8Sequence, s.Proper →
      ∃ ds cs, decodeFrom (some s) bs = ds ++ cs ∧ (∀ d ∈ ds, 128 ≤ d.toNat) ∧ Decodes bs cs := by
  have hreplacement : ∀ d ∈ [replacement], 128 ≤ d.toNat := by
    intro d hd
    rw [List.mem_singleton.mp hd]
    show 128 ≤ 0xFFFD
    omega
  induction bs with
  | nil => exact ⟨.nil, fun s _ => ⟨[replacement], [], rfl, hreplacement, .nil⟩⟩
  | cons b bs ih =>
      obtain ⟨hbs, hinside⟩ := ih
      -- A byte that begins a sequence, or stands alone.
      have hfirst : Decodes (b :: bs)
          ((startSequence b.toNat).1 ++ decodeFrom (startSequence b.toNat).2 bs) := by
        rcases startSequence_cases b.toNat with ⟨hb, hstart⟩ | ⟨hb, hstart⟩ | ⟨hb, s, hstart, hs⟩
        · rw [hstart]
          exact .ascii hb hbs
        · rw [hstart]
          exact .other (Nat.not_lt.mpr hb) hreplacement hbs
        · obtain ⟨ds, cs, heq, hds, hcs⟩ := hinside s hs
          rw [hstart, List.nil_append, heq]
          exact .other (Nat.not_lt.mpr hb) hds hcs
      refine ⟨hfirst, fun s hs => ?_⟩
      rw [decodeFrom, decodeStep]
      by_cases hb : s.lower ≤ b.toNat ∧ b.toNat ≤ s.upper
      · have hlarge : ¬ b < 128 := by
          have hlower := hs.range.1
          show ¬ b.toNat < 128
          omega
        simp only [if_pos hb]
        refine ⟨[], _, rfl, fun d hd => absurd hd List.not_mem_nil, ?_⟩
        rcases hs.next hb with ⟨c, hnext, hc⟩ | ⟨s', hnext, hs'⟩
        · rw [hnext]
          exact .other hlarge (List.forall_mem_singleton.mpr hc) hbs
        · obtain ⟨ds, cs, heq, hds, hcs⟩ := hinside s' hs'
          rw [hnext]
          show Decodes (b :: bs) (decodeFrom (some s') bs)
          rw [heq]
          exact .other hlarge hds hcs
      · simp only [if_neg hb]
        exact ⟨[replacement], _, rfl, hreplacement, hfirst⟩

theorem Decodes.append {as bs : Bytes} {cs ds : List Char} (has : Decodes as cs)
    (hbs : Decodes bs ds) : Decodes (as ++ bs) (cs ++ ds) := by
  induction has with
  | nil => exact hbs
  | ascii hb h ih => exact .ascii hb ih
  | other hb hes h ih =>
      rw [List.append_assoc]
      exact .other hb hes ih

end ProcessAnalyzer.Lib
