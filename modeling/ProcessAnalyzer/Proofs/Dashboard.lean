import ProcessAnalyzer.Lib.Json
import ProcessAnalyzer.Model.Dashboard

/-!
# `ProcessAnalyzer.Proofs.Dashboard`: what the reader of `records.html` finds

The reader looks for the first place of a marker. `after` is the text behind it. A marker
`"key":` starts with a quote, so it can only be found at a quote, and then the key stands
before the next one. This gives the rules to walk through a line:

* `after_skip`: text without quotes is passed over.
* `after_quoted`: a quoted text is passed over, unless it is the key and a colon follows.
* `after_body`: a text with escaped quotes is passed over as a whole.
* `after_found`: the key is found.

`Closed` says that the reader takes a text as a whole for the body of a string. Such a text
is a JSON string body exactly when the JSON recogniser accepts the string
(`string_of_closed`).
-/

set_option autoImplicit false

namespace ProcessAnalyzer.Dashboard

open ProcessAnalyzer.Lib

/-! ### The place of a marker -/

/-- The text behind the first place of the marker. -/
def after (marker line : List Char) : Option (List Char) :=
  (indexOf marker line).map fun i => line.drop (i + marker.length)

/-- The marker stands at the beginning. -/
theorem after_append {marker : List Char} (hmarker : marker ≠ []) (rest : List Char) :
    after marker (marker ++ rest) = some rest := by
  cases marker with
  | nil => exact absurd rfl hmarker
  | cons m ms =>
      have hprefix : (m :: ms).isPrefixOf (m :: (ms ++ rest)) = true := by
        rw [List.isPrefixOf_iff_prefix, ← List.cons_append]
        exact List.prefix_append _ _
      rw [after, List.cons_append, indexOf, if_pos hprefix]
      simp

/-- The marker does not stand at the beginning. -/
theorem after_cons {marker : List Char} {c : Char} {rest : List Char}
    (h : ¬ marker <+: c :: rest) : after marker (c :: rest) = after marker rest := by
  have hprefix : marker.isPrefixOf (c :: rest) ≠ true := by
    rwa [ne_eq, List.isPrefixOf_iff_prefix]
  rw [after, indexOf, if_neg hprefix, Option.map_map, after]
  congr 1
  funext i
  simp [Nat.add_right_comm i 1 marker.length]

/-- A marker of a key: quoted, with a colon behind it. -/
def markerOf (key tail : List Char) : List Char := '"' :: (key ++ '"' :: ':' :: tail)

/-- A key is a plain word. -/
structure IsKey (key : List Char) : Prop where
  quote : '"' ∉ key
  backslash : '\\' ∉ key

section Walk
variable {key tail : List Char}

/-- Text without quotes is passed over. -/
theorem after_skip {chunk : List Char} (hchunk : '"' ∉ chunk) (rest : List Char) :
    after (markerOf key tail) (chunk ++ rest) = after (markerOf key tail) rest := by
  induction chunk with
  | nil => rfl
  | cons c chunk ih =>
      have hc : c ≠ '"' := fun h => hchunk (h ▸ List.mem_cons_self)
      rw [List.cons_append, after_cons, ih fun h => hchunk (List.mem_cons_of_mem _ h)]
      rintro ⟨t, ht⟩
      exact hc (List.cons.inj ht).1.symm

/-- Where a word ends at a quote, another word that ends at a quote is the same word. -/
theorem eq_of_prefix_quote {chunk t rest : List Char} (hkey : '"' ∉ key) (hchunk : '"' ∉ chunk)
    (h : key ++ '"' :: t <+: chunk ++ '"' :: rest) : key = chunk ∧ t <+: rest := by
  induction key generalizing chunk with
  | nil =>
      cases chunk with
      | nil => exact ⟨rfl, (List.cons_prefix_cons.mp h).2⟩
      | cons c chunk =>
          exact absurd ((List.cons_prefix_cons.mp h).1 ▸ List.mem_cons_self) hchunk
  | cons k key ih =>
      cases chunk with
      | nil =>
          exact absurd ((List.cons_prefix_cons.mp h).1 ▸ List.mem_cons_self) hkey
      | cons c chunk =>
          obtain ⟨rfl, htail⟩ := List.cons_prefix_cons.mp h
          obtain ⟨rfl, ht⟩ := ih (fun hk => hkey (List.mem_cons_of_mem _ hk))
            (fun hc => hchunk (List.mem_cons_of_mem _ hc)) htail
          exact ⟨rfl, ht⟩

/-- A quoted text is passed over, unless it is the key and a colon follows. -/
theorem after_quoted (hkey : IsKey key) {chunk : List Char} (hchunk : '"' ∉ chunk)
    {rest : List Char} (hne : key = chunk → rest.head? ≠ some ':') :
    after (markerOf key tail) ('"' :: (chunk ++ '"' :: rest))
      = after (markerOf key tail) ('"' :: rest) := by
  rw [after_cons, after_skip hchunk]
  intro hprefix
  obtain ⟨heq, ht⟩ := eq_of_prefix_quote hkey.quote hchunk (List.cons_prefix_cons.mp hprefix).2
  obtain ⟨t, rfl⟩ := ht
  exact hne heq rfl

/-- The key is found. -/
theorem after_found (rest : List Char) :
    after (markerOf key tail) ('"' :: (key ++ '"' :: ':' :: (tail ++ rest))) = some rest := by
  have hne : markerOf key tail ≠ [] := by simp [markerOf]
  have h := after_append hne rest
  simpa [markerOf] using h

end Walk

/-! ### Bodies of strings -/

/-- The reader takes the text as a whole for a part of a string that starts in this state:
it has no quote that ends the string, and no escape that goes on behind it. -/
def Closed (escaped : Bool) : List Char → Prop
  | [] => escaped = false
  | c :: rest =>
      if escaped = true then Closed false rest
      else if c = '\\' then Closed true rest
      else c ≠ '"' ∧ Closed false rest

/-- The reader returns the text in front of a quote exactly when it is closed. -/
theorem readString_eq_iff_closed (escaped : Bool) (body rest : List Char) :
    readString escaped (body ++ '"' :: rest) = some body ↔ Closed escaped body := by
  have hcons : ∀ (c : Char) (o : Option (List Char)) (t : List Char),
      o.map (c :: ·) = some (c :: t) ↔ o = some t := by
    intro c o t
    cases o <;> simp
  induction body generalizing escaped with
  | nil => cases escaped <;> simp [readString, Closed]
  | cons c body ih =>
      cases escaped with
      | true => simp only [List.cons_append, readString, Closed, if_true, hcons, ih]
      | false =>
          by_cases hbackslash : c = '\\'
          · simp [readString, Closed, hbackslash, ih]
          · by_cases hquote : c = '"'
            · simp [readString, Closed, hquote]
            · simp [readString, Closed, hbackslash, hquote, ih]

/-- The two replacements of `decodeJsonString` replace nothing by something else. -/
theorem decodeJsonString_eq (value : List Char) : decodeJsonString value = value := by
  have hid : ∀ (c : Char) (s : List Char), replaceAll c [c] s = s := by
    intro c s
    have hsingle : (fun d => if d = c then [c] else [d]) = fun d => [d] := by
      funext d
      split
      · rename_i hd
        rw [hd]
      · rfl
    rw [replaceAll, hsingle, List.flatMap_singleton']
  rw [decodeJsonString, hid, hid]

section Body
variable {key tail : List Char}

/-- A marker does not stand behind a quote in front of a closed text: its second quote would
end the text, and a comma follows there. -/
theorem not_prefix_of_closed (hkey : IsKey key) {body rest : List Char}
    (hbody : Closed false body) :
    ¬ key ++ '"' :: ':' :: tail <+: body ++ '"' :: ',' :: rest := by
  -- Along the key, which has neither quotes nor backslashes, the body goes on without an escape.
  induction key generalizing body with
  | nil =>
      intro h
      cases body with
      | nil =>
          have hcolon := (List.cons_prefix_cons.mp (List.cons_prefix_cons.mp h).2).1
          revert hcolon
          decide
      | cons c body =>
          obtain ⟨rfl, -⟩ := List.cons_prefix_cons.mp h
          rw [Closed, if_neg (by simp), if_neg (by decide)] at hbody
          exact hbody.1 rfl
  | cons k key ih =>
      intro h
      have hk : k ≠ '"' := fun hk => hkey.quote (hk ▸ List.mem_cons_self)
      have hk' : k ≠ '\\' := fun hk => hkey.backslash (hk ▸ List.mem_cons_self)
      cases body with
      | nil => exact hk (List.cons_prefix_cons.mp h).1
      | cons c body =>
          obtain ⟨rfl, htail⟩ := List.cons_prefix_cons.mp h
          rw [Closed, if_neg (by simp), if_neg hk'] at hbody
          exact ih ⟨fun hq => hkey.quote (List.mem_cons_of_mem _ hq),
            fun hb => hkey.backslash (List.mem_cons_of_mem _ hb)⟩ hbody.2 htail

/-- No marker starts inside of a closed text: a quote in it is escaped. -/
theorem after_closed (hkey : IsKey key) {escaped : Bool} {body : List Char}
    (hbody : Closed escaped body) (rest : List Char) :
    after (markerOf key tail) (body ++ '"' :: ',' :: rest)
      = after (markerOf key tail) ('"' :: ',' :: rest) := by
  induction body generalizing escaped with
  | nil => rfl
  | cons c body ih =>
      rw [Closed] at hbody
      rw [List.cons_append, after_cons]
      · split at hbody
        · exact ih hbody
        · split at hbody
          · exact ih hbody
          · exact ih hbody.2
      -- A quote that starts a marker would be escaped, or it would end the text.
      · intro hprefix
        obtain ⟨hc, htail⟩ := List.cons_prefix_cons.mp hprefix
        split at hbody
        · exact not_prefix_of_closed hkey hbody htail
        · split at hbody
          · rename_i hbackslash
            rw [hbackslash] at hc
            revert hc
            decide
          · exact hbody.1 hc.symm

/-- A string with a closed body is passed over as a whole. -/
theorem after_body (hkey : IsKey key) {body : List Char} (hbody : Closed false body)
    (rest : List Char) :
    after (markerOf key tail) ('"' :: (body ++ '"' :: ',' :: rest))
      = after (markerOf key tail) ('"' :: ',' :: rest) := by
  rw [after_cons, after_closed hkey hbody]
  intro hprefix
  exact not_prefix_of_closed hkey hbody (List.cons_prefix_cons.mp hprefix).2

end Body

/-- The reader and the JSON recogniser stay in step: the reader is behind a backslash when
the recogniser is. -/
theorem closed_next {escaped : Bool} {st st' : Json.StringState} {c : Char} {body : List Char}
    (hst : escaped = true ↔ st = .escape) (hbody : Closed escaped (c :: body))
    (hnext : st.next c = some st') :
    ∃ escaped', (escaped' = true ↔ st' = .escape) ∧ Closed escaped' body := by
  -- A hexadecimal digit is neither a backslash nor a quote, so the reader stays outside of an
  -- escape.
  have hhex : ∀ {st'' : Json.StringState}, Json.isHexDigit c = true → escaped = false →
      st'' ≠ .escape → ∃ escaped', (escaped' = true ↔ st'' = .escape) ∧ Closed escaped' body := by
    intro st'' hdigit hescaped hne
    have hc : c ≠ '\\' := by
      rintro rfl
      revert hdigit
      decide
    rw [Closed, if_neg (by simp [hescaped]), if_neg hc] at hbody
    exact ⟨false, by simp [hne], hbody.2⟩
  cases st with
  | plain =>
      have hescaped : escaped ≠ true := fun h => by cases hst.mp h
      rw [Closed, if_neg hescaped] at hbody
      rw [Json.StringState.next] at hnext
      split at hnext
      · rename_i hbackslash
        cases hnext
        rw [if_pos hbackslash] at hbody
        exact ⟨true, by simp, hbody⟩
      · rename_i hbackslash
        rw [if_neg hbackslash] at hbody
        split at hnext
        · cases hnext
        · cases hnext
          exact ⟨false, by simp, hbody.2⟩
  | escape =>
      rw [Closed, if_pos (hst.mpr rfl)] at hbody
      rw [Json.StringState.next] at hnext
      refine ⟨false, ?_, hbody⟩
      split at hnext
      · cases hnext
        simp
      · split at hnext
        · cases hnext
          simp
        · cases hnext
  | hex left =>
      have hescaped : escaped = false := by
        cases escaped with
        | false => rfl
        | true => cases hst.mp rfl
      cases left with
      | zero =>
          rw [Json.StringState.next] at hnext
          split at hnext
          · rename_i hdigit
            cases hnext
            exact hhex hdigit hescaped (by simp)
          · cases hnext
      | succ left =>
          rw [Json.StringState.next] at hnext
          split at hnext
          · rename_i hdigit
            cases hnext
            exact hhex hdigit hescaped (by simp)
          · cases hnext

/-- On a closed text the reader and the JSON recogniser agree where the string ends, so the
recogniser accepts the string exactly when the text is a JSON body. -/
theorem string_of_closed {escaped : Bool} {st : Json.StringState}
    (hst : escaped = true ↔ st = .escape) {body : List Char} (hbody : Closed escaped body)
    (rest : List Char) :
    Json.string st (body ++ '"' :: rest)
      = if Json.bodyFrom st body = true then some rest else none := by
  -- By induction on the body, with the reader and the recogniser in step.
  induction body generalizing escaped st with
  | nil =>
      rw [Closed] at hbody
      rcases st with _ | _ | _ | left
      · rfl
      · exact absurd (hst.mpr rfl) (by simp [hbody])
      · rfl
      · rfl
  | cons c body ih =>
      rw [List.cons_append, Json.string, Json.bodyFrom]
      by_cases hend : st = .plain ∧ c = '"'
      · -- A quote that ends the string is not in a closed text.
        obtain ⟨rfl, rfl⟩ := hend
        have hescaped : escaped ≠ true := fun h => by cases hst.mp h
        rw [Closed, if_neg hescaped, if_neg (by decide)] at hbody
        exact absurd rfl hbody.1
      · rw [if_neg hend, if_neg hend]
        cases hnext : st.next c with
        | none => simp
        | some st' =>
            obtain ⟨escaped', hst', hrest⟩ := closed_next hst hbody hnext
            exact ih hst' hrest

/-- A JSON body is closed. -/
theorem closed_of_bodyFrom {st : Json.StringState} {body : List Char}
    (h : Json.bodyFrom st body = true) : Closed (decide (st = .escape)) body := by
  induction body generalizing st with
  | nil =>
      have hst : st = .plain := by simpa [Json.bodyFrom] using h
      simp [Closed, hst]
  | cons c body ih =>
      rw [Json.bodyFrom] at h
      split at h
      · cases h
      · rename_i hend
        cases hnext : st.next c with
        | none => simp [hnext] at h
        | some st' =>
            simp only [hnext] at h
            -- Each state of the recogniser tells how it got past this character.
            have hrest := ih h
            have hhex : Json.isHexDigit c = true → c ≠ '\\' ∧ c ≠ '"' := by
              intro hdigit
              constructor <;> (rintro rfl; revert hdigit; decide)
            rcases st with _ | _ | _ | left <;> rw [Json.StringState.next] at hnext
            · split at hnext
              · rename_i hbackslash
                cases hnext
                simpa [Closed, hbackslash] using hrest
              · rename_i hbackslash
                have hquote : c ≠ '"' := fun hc => hend ⟨rfl, hc⟩
                split at hnext
                · cases hnext
                · cases hnext
                  simpa [Closed, hbackslash, hquote] using hrest
            · split at hnext
              · cases hnext
                simpa [Closed] using hrest
              · split at hnext
                · cases hnext
                  simpa [Closed] using hrest
                · cases hnext
            · split at hnext
              · rename_i hdigit
                cases hnext
                simpa [Closed, hhex hdigit] using hrest
              · cases hnext
            · split at hnext
              · rename_i hdigit
                cases hnext
                simpa [Closed, hhex hdigit] using hrest
              · cases hnext

end ProcessAnalyzer.Dashboard
