import Mathlib.Data.List.TakeWhile
import ProcessAnalyzer.Model.RecordsWorker

/-!
# `ProcessAnalyzer.Proofs.ChunkedLines`: reading a file in slices

`scanFile` keeps the text behind the last line terminator and puts it in front of the next
slice. `linesOf` are the lines of a text as a whole.

* `splitLines_append`: the text in front of a cut only matters by its carry, wherever the cut
  is, also between the two characters of a terminator.
* `lines_scanFile`: the scan gives the lines of the texts of the slices.
* `scanFile_iff`: these are the lines of the file exactly when no cut is inside of a character.
  Otherwise the replacement characters are too many.
-/

set_option autoImplicit false

namespace ProcessAnalyzer.Dashboard

open ProcessAnalyzer.Lib

/-- The lines of a text: its parts between the terminators without the empty ones. The last
part, which has no terminator, is trimmed. -/
def linesOf (text : List Char) : List (List Char) :=
  let parts := splitLines text
  let last := trimText (parts.getLast?.getD [])
  parts.dropLast.filter (· ≠ []) ++ if last = [] then [] else [last]

/-! ### Splitting -/

theorem splitLines_ne_nil (text : List Char) : splitLines text ≠ [] := by
  cases text with
  | nil => exact List.cons_ne_nil _ _
  | cons c rest =>
      unfold splitLines
      split
      · exact List.cons_ne_nil _ _
      · split
        · exact splitLines_ne_nil rest
        · split <;> exact List.cons_ne_nil _ _

/-- The parts of a text are its first parts and its carry. -/
theorem splitLines_eq_concat (text : List Char) :
    splitLines text
      = (splitLines text).dropLast ++ [(splitLines text).getLast?.getD []] := by
  have h := List.dropLast_concat_getLast (splitLines_ne_nil text)
  rw [List.getLast?_eq_some_getLast (splitLines_ne_nil text), Option.getD_some, h]

/-- A text with one part only is that part. -/
theorem eq_of_splitLines_eq_singleton {text line : List Char} (h : splitLines text = [line]) :
    line = text := by
  induction text generalizing line with
  | nil => exact (List.cons.inj h).1.symm
  | cons c rest ih =>
      unfold splitLines at h
      split at h
      · exact absurd (List.cons.inj h).2 (splitLines_ne_nil rest)
      · split at h
        · -- A line feed follows, so there are two parts.
          rename_i hcr
          cases rest with
          | nil => cases hcr.2
          | cons d rest =>
              rw [splitLines, if_pos (Option.some.inj hcr.2)] at h
              exact absurd (List.cons.inj h).2 (splitLines_ne_nil rest)
        · split at h
          · rename_i hnil
            exact absurd hnil (splitLines_ne_nil rest)
          · rename_i l ls hsplit
            obtain ⟨rfl, rfl⟩ := List.cons.inj h
            rw [ih hsplit]

/-- A character that is no part of a terminator belongs to the first part. -/
theorem splitLines_cons {c : Char} {rest line : List Char} {lines : List (List Char)}
    (hlf : c ≠ '\n') (hcr : ¬ (c = '\r' ∧ rest.head? = some '\n'))
    (h : splitLines rest = line :: lines) : splitLines (c :: rest) = (c :: line) :: lines := by
  rw [splitLines, if_neg hlf, if_neg hcr, h]

/-- What is in front of a cut matters by its carry only. -/
theorem splitLines_append (a b : List Char) :
    splitLines (a ++ b)
      = (splitLines a).dropLast ++ splitLines ((splitLines a).getLast?.getD [] ++ b) := by
  induction a with
  | nil => rfl
  | cons c a ih =>
      by_cases hlf : c = '\n'
      · have hcons : ∀ rest, splitLines (c :: rest) = [] :: splitLines rest := fun rest => by
          rw [splitLines, if_pos hlf]
        rw [List.cons_append, hcons, hcons, ih, List.dropLast_cons_of_ne_nil (splitLines_ne_nil a),
          List.getLast?_cons_of_ne_nil (splitLines_ne_nil a), List.cons_append]
      · by_cases hcr : c = '\r' ∧ a.head? = some '\n'
        · -- The terminator is whole in front of the cut.
          have hcr' : c = '\r' ∧ (a ++ b).head? = some '\n' := by
            rw [List.head?_append, hcr.2]
            exact ⟨hcr.1, rfl⟩
          rw [List.cons_append, splitLines, if_neg hlf, if_pos hcr', ih, splitLines, if_neg hlf,
            if_pos hcr]
        · cases hsplit : splitLines a with
          | nil => exact absurd hsplit (splitLines_ne_nil a)
          | cons line lines =>
              rw [splitLines_cons hlf hcr hsplit]
              cases lines with
              | nil =>
                  -- No terminator so far: all of the text is the carry.
                  rw [eq_of_splitLines_eq_singleton hsplit]
                  rfl
              | cons line' lines =>
                  have hne : a ≠ [] := by
                    rintro rfl
                    cases hsplit
                  have hcr' : ¬ (c = '\r' ∧ (a ++ b).head? = some '\n') := by
                    rwa [List.head?_append_of_ne_nil a hne]
                  rw [hsplit, List.dropLast_cons_cons, List.cons_append] at ih
                  rw [List.cons_append, splitLines_cons hlf hcr' ih, List.dropLast_cons_cons,
                    List.cons_append, List.getLast?_cons_cons, List.getLast?_cons_cons]

/-! ### The scan -/

section Scan
variable (size : ℕ)

/-- The carry and the lines after one slice. -/
theorem scanSlice_spec (s : Scan) (slice : Bytes) :
    (scanSlice size s slice).carry = (splitLines (s.carry ++ decode slice)).getLast?.getD [] ∧
    (scanSlice size s slice).lines
      = s.lines ++ (splitLines (s.carry ++ decode slice)).dropLast.filter (· ≠ []) := by
  simp only [scanSlice]
  split <;> exact ⟨rfl, rfl⟩

/-- The carry and the lines after the slices are those of the texts of the slices. -/
theorem foldl_scanSlice (ps : List Bytes) (s : Scan) (text : List Char)
    (hcarry : s.carry = (splitLines text).getLast?.getD [])
    (hlines : s.lines = (splitLines text).dropLast.filter (· ≠ [])) :
    (ps.foldl (scanSlice size) s).carry
        = (splitLines (text ++ ps.flatMap decode)).getLast?.getD [] ∧
    (ps.foldl (scanSlice size) s).lines
        = (splitLines (text ++ ps.flatMap decode)).dropLast.filter (· ≠ []) := by
  induction ps generalizing s text with
  | nil =>
      rw [List.flatMap_nil, List.append_nil]
      exact ⟨hcarry, hlines⟩
  | cons p ps ih =>
      rw [List.foldl_cons, List.flatMap_cons, ← List.append_assoc]
      have hsplit := splitLines_append text (decode p)
      rw [← hcarry] at hsplit
      have hne := splitLines_ne_nil (s.carry ++ decode p)
      obtain ⟨hcarry', hlines'⟩ := scanSlice_spec size s p
      apply ih
      · rw [hcarry', hsplit, List.getLast?_append_of_ne_nil _ hne]
      · rw [hlines', hsplit, List.dropLast_append_of_ne_nil hne, List.filter_append, hlines]

/-- The scan gives the lines of the texts of the slices. -/
theorem lines_scanFile (chunkSize : ℕ) (file : Bytes) :
    (scanFile chunkSize file).lines = linesOf ((slices chunkSize file 0).flatMap decode) := by
  obtain ⟨hcarry, hlines⟩ :=
    foldl_scanSlice file.length (slices chunkSize file 0) {} [] rfl rfl
  rw [List.nil_append] at hcarry hlines
  unfold scanFile linesOf
  simp only [hcarry]
  split
  · rw [List.append_nil]
    exact hlines
  · exact congrArg (· ++ _) hlines

end Scan

/-! ### The slices -/

/-- The slice at an offset in the file. -/
theorem slices_of_lt {chunkSize : ℕ} (hpos : 0 < chunkSize) {file : Bytes} {offset : ℕ}
    (hoffset : offset < file.length) :
    slices chunkSize file offset = (file.drop offset).take chunkSize ::
      slices chunkSize file (min (offset + chunkSize) file.length) := by
  have hslice : (file.drop offset).take (min (offset + chunkSize) file.length - offset)
      = (file.drop offset).take chunkSize := by
    rw [List.take_eq_take_iff, List.length_drop]
    omega
  rw [slices, if_pos ⟨hoffset, hpos⟩]
  simp only [hslice]

/-- The first slices are the first bytes of the file. -/
theorem flatten_take_slices {chunkSize : ℕ} (hpos : 0 < chunkSize) (file : Bytes) (offset k : ℕ) :
    ((slices chunkSize file offset).take k).flatten = (file.drop offset).take (k * chunkSize) := by
  induction k generalizing offset with
  | zero => rw [List.take_zero, Nat.zero_mul, List.take_zero, List.flatten_nil]
  | succ k ih =>
      by_cases hoffset : offset < file.length
      · rw [slices_of_lt hpos hoffset, List.take_succ_cons, List.flatten_cons, ih,
          show (k + 1) * chunkSize = chunkSize + k * chunkSize by ring, List.take_add,
          List.drop_drop]
        -- At the end of the file both rests are empty.
        by_cases hend : offset + chunkSize ≤ file.length
        · rw [Nat.min_eq_left hend]
        · have hgone : file.drop (offset + chunkSize) = [] := List.drop_of_length_le (by omega)
          rw [Nat.min_eq_right (by omega), List.drop_length, hgone]
      · rw [slices, if_neg (by tauto), List.take_nil, List.flatten_nil,
          List.drop_of_length_le (by omega), List.take_nil]

/-- The slices are the whole file. -/
theorem flatten_slices {chunkSize : ℕ} (hpos : 0 < chunkSize) (file : Bytes) :
    (slices chunkSize file 0).flatten = file := by
  have h := flatten_take_slices hpos file 0
    ((slices chunkSize file 0).length + file.length)
  have hle : file.length ≤ ((slices chunkSize file 0).length + file.length) * chunkSize :=
    (Nat.le_add_left _ _).trans (Nat.le_mul_of_pos_right _ hpos)
  rwa [List.take_of_length_le (Nat.le_add_right _ _), List.drop_zero,
    List.take_of_length_le hle] at h

/-- The slices are whole when the file may be cut at every multiple of their size. -/
theorem whole_slices_iff {chunkSize : ℕ} (hpos : 0 < chunkSize) (content : List Char) :
    Whole (slices chunkSize (utf8 content) 0) ↔
      ∀ k, k * chunkSize < (utf8 content).length →
        ∃ front, utf8 front = (utf8 content).take (k * chunkSize) := by
  rw [whole_iff_take]
  constructor
  · intro h k _
    obtain ⟨front, hfront⟩ := h k
    exact ⟨front, hfront.trans (flatten_take_slices hpos _ 0 k)⟩
  · intro h k
    rw [flatten_take_slices hpos, List.drop_zero]
    by_cases hk : k * chunkSize < (utf8 content).length
    · exact h k hk
    · exact ⟨content, (List.take_of_length_le (by omega)).symm⟩

/-! ### Replacement characters -/

/-- Splitting removes terminators only. -/
theorem count_splitLines {c : Char} (hlf : c ≠ '\n') (hcr : c ≠ '\r') (text : List Char) :
    (splitLines text).flatten.count c = text.count c := by
  induction text with
  | nil => rfl
  | cons d rest ih =>
      unfold splitLines
      split
      · rename_i hd
        rw [List.flatten_cons, List.nil_append, ih, hd, List.count_cons_of_ne hlf.symm]
      · split
        · rename_i hd
          rw [ih, hd.1, List.count_cons_of_ne hcr.symm]
        · split
          · rename_i hnil
            exact absurd hnil (splitLines_ne_nil rest)
          · rename_i line lines hsplit
            rw [hsplit] at ih
            rw [List.flatten_cons, List.cons_append, List.count_cons, List.count_cons, ← ih,
              List.flatten_cons]

/-- A character that `trim` keeps is in the rest as often as before. -/
theorem count_trimText {c : Char} (hc : isTrimmed c = false) (text : List Char) :
    (trimText text).count c = text.count c := by
  have hdrop : ∀ s : List Char, (s.dropWhile isTrimmed).count c = s.count c := by
    intro s
    have hnone : (s.takeWhile isTrimmed).count c = 0 := by
      apply List.count_eq_zero_of_not_mem
      intro hmem
      rw [List.mem_takeWhile_imp hmem] at hc
      cases hc
    have hsum : (s.takeWhile isTrimmed ++ s.dropWhile isTrimmed).count c
        = (s.takeWhile isTrimmed).count c + (s.dropWhile isTrimmed).count c := List.count_append
    rw [List.takeWhile_append_dropWhile, hnone] at hsum
    omega
  rw [trimText, List.count_reverse, hdrop, List.count_reverse, hdrop]

/-- The lines of a text have all its replacement characters. -/
theorem count_linesOf (text : List Char) :
    (linesOf text).flatten.count replacement = text.count replacement := by
  have htrimmed : isTrimmed replacement = false := by decide
  have hsplit := count_splitLines (c := replacement) (by decide) (by decide) text
  rw [splitLines_eq_concat, List.flatten_append, List.count_append, List.flatten_singleton,
    ← count_trimText htrimmed ((splitLines text).getLast?.getD [])] at hsplit
  rw [← hsplit]
  simp only [linesOf, List.flatten_append, List.count_append, List.flatten_filter_ne_nil]
  split
  · rename_i hnil
    rw [hnil, List.flatten_nil]
  · rw [List.flatten_singleton]

/-- Chunked and whole reading. For every text, encoded in a file, and every size of the slices
the scan passes on the lines of the decoded file exactly when no slice begins inside of a
character: the bytes in front of it are the encoding of a text. -/
theorem scanFile_iff (chunkSize : ℕ) (hpos : 0 < chunkSize) (content : List Char) :
    (scanFile chunkSize (utf8 content)).lines = linesOf (decode (utf8 content)) ↔
      ∀ k, k * chunkSize < (utf8 content).length →
        ∃ front, utf8 front = (utf8 content).take (k * chunkSize) := by
  rw [← whole_slices_iff hpos, lines_scanFile, decode_utf8]
  have hflatten := flatten_slices hpos (utf8 content)
  constructor
  · intro hlines
    by_contra hcut
    have hmore := count_lt_of_not_whole hcut hflatten
    rw [← count_linesOf, ← hlines, count_linesOf] at hmore
    exact absurd hmore (lt_irrefl _)
  · intro hwhole
    rw [flatMap_decode_of_whole hwhole hflatten]

/-- A line of three bytes in slices of two: the cut is in front of the line feed. -/
theorem lines_scanFile_between :
    (scanFile 2 (utf8 ['a', '\r', '\n'])).lines = linesOf (decode (utf8 ['a', '\r', '\n'])) := by
  refine (scanFile_iff 2 (by decide) ['a', '\r', '\n']).mpr fun k hk => ?_
  have hlength : (utf8 ['a', '\r', '\n']).length = 3 := by decide
  obtain rfl | rfl : k = 0 ∨ k = 1 := by omega
  · exact ⟨[], by decide⟩
  · exact ⟨['a', '\r'], by decide⟩

/-- A character of two bytes in slices of one: it becomes two replacement characters. -/
theorem lines_scanFile_ne_inside :
    (scanFile 1 (utf8 [Char.ofNat 0xE9])).lines
      ≠ linesOf (decode (utf8 [Char.ofNat 0xE9])) := by
  intro h
  have hslices : slices 1 (utf8 [Char.ofNat 0xE9]) 0 = [[195], [169]] := by
    have hbytes : utf8 [Char.ofNat 0xE9] = [195, 169] := by decide
    rw [hbytes, slices_of_lt (by decide) (by decide), slices_of_lt (by decide) (by decide), slices,
      if_neg (by decide)]
    rfl
  rw [lines_scanFile, hslices, decode_utf8] at h
  revert h
  decide

end ProcessAnalyzer.Dashboard
