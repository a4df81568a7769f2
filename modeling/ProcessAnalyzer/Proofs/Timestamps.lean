import Mathlib.Data.List.TakeWhile
import ProcessAnalyzer.Model.Metrics
import ProcessAnalyzer.Model.Snapshot

/-!
# `ProcessAnalyzer.Proofs.Timestamps`: the text of the wall clock read back

`print_timestamp` writes the broken-down local time of `CLOCK_REALTIME` as text, and
`parse_timestamp_to_double` reads that text back as if it were UTC. For a valid reading with
a year of four digits the result is the number of seconds that `timegm` gives, with the
milliseconds. Another year is not read back.

`getSnapshotDuration_hRTimestampText` states what follows for the duration in the header of
`metrics.json`: it is the wall-clock time between the two readings.
-/

set_option autoImplicit false

namespace ProcessAnalyzer

open ProcessAnalyzer.Lib ProcessAnalyzer.Stats

namespace WallClock

/-- What `localtime_r` promises about its fields, and a number of nanoseconds below one
second about the milliseconds. The year is not limited. -/
structure Valid (c : WallClock) : Prop where
  mon : 0 ≤ c.tmMon ∧ c.tmMon ≤ 11
  mday : 1 ≤ c.tmMday ∧ c.tmMday ≤ 31
  hour : 0 ≤ c.tmHour ∧ c.tmHour ≤ 23
  min : 0 ≤ c.tmMin ∧ c.tmMin ≤ 59
  sec : 0 ≤ c.tmSec ∧ c.tmSec ≤ 60
  millis : 0 ≤ c.millis ∧ c.millis ≤ 999

instance (c : WallClock) : Decidable c.Valid :=
  decidable_of_iff
    ((0 ≤ c.tmMon ∧ c.tmMon ≤ 11) ∧ (1 ≤ c.tmMday ∧ c.tmMday ≤ 31) ∧
      (0 ≤ c.tmHour ∧ c.tmHour ≤ 23) ∧ (0 ≤ c.tmMin ∧ c.tmMin ≤ 59) ∧
      (0 ≤ c.tmSec ∧ c.tmSec ≤ 60) ∧ 0 ≤ c.millis ∧ c.millis ≤ 999)
    ⟨fun ⟨hmon, hmday, hhour, hmin, hsec, hms⟩ => ⟨hmon, hmday, hhour, hmin, hsec, hms⟩,
      fun h => ⟨h.mon, h.mday, h.hour, h.min, h.sec, h.millis⟩⟩

/-- The fields of `struct tm`. -/
def tm (c : WallClock) : Tm := ⟨c.tmYear, c.tmMon, c.tmMday, c.tmHour, c.tmMin, c.tmSec⟩

/-- The reading in seconds since the epoch. -/
def seconds (c : WallClock) : ℚ := timegm c.tm + c.millis / 1000

/-- The year has at most four digits and no sign. -/
def FourDigitYear (c : WallClock) : Prop := 0 ≤ c.tmYear + 1900 ∧ c.tmYear + 1900 ≤ 9999

instance (c : WallClock) : Decidable c.FourDigitYear := inferInstanceAs (Decidable (_ ∧ _))

/-- The time between two readings in seconds, or 0 when it is negative or one of them is not
between the epoch and the year 9999. -/
def elapsed (start stop : WallClock) : ℚ :=
  if start.FourDigitYear ∧ stop.FourDigitYear ∧ 0 < start.seconds ∧ 0 < stop.seconds
      ∧ start.seconds ≤ stop.seconds then stop.seconds - start.seconds
  else 0

end WallClock

/-! ### The text -/

/-- The text of the time of day, from the blank on. -/
def timeText (c : WallClock) : Bytes :=
  32 :: (decIntPad 2 c.tmHour ++ 58 :: (decIntPad 2 c.tmMin ++ 58 ::
    (decIntPad 2 c.tmSec ++ 46 :: decIntPad 3 c.millis)))

/-- The text of the month, the day and the time, from the first hyphen on. -/
def dateText (c : WallClock) : Bytes :=
  45 :: (decIntPad 2 (c.tmMon + 1) ++ 45 :: (decIntPad 2 c.tmMday ++ timeText c))

/-- The timestamp is the year and the rest, cut to the buffer. -/
theorem hRTimestampText_eq (c : WallClock) :
    hRTimestampText c = (decIntPad 4 (c.tmYear + 1900) ++ dateText c).take 63 := by
  have hhyphen : ascii "-" = [45] := by decide
  have hblank : ascii " " = [32] := by decide
  have hcolon : ascii ":" = [58] := by decide
  have hdot : ascii "." = [46] := by decide
  unfold hRTimestampText dateText timeText
  rw [hhyphen, hblank, hcolon, hdot]
  simp only [List.append_assoc, List.cons_append, List.nil_append]

/-- The timestamp is never empty. -/
theorem hRTimestampText_ne_nil (c : WallClock) : hRTimestampText c ≠ [] := by
  rw [hRTimestampText_eq, ne_eq, List.take_eq_nil_iff, List.append_eq_nil_iff]
  rintro (h | ⟨-, h⟩)
  · cases h
  · cases h

/-- A text that starts with a digit has no white space to skip. -/
theorem dropWhile_isSpace_digits {ds : Bytes} (hne : ds ≠ []) (hdigits : ∀ b ∈ ds, isDigit b = true)
    (rest : Bytes) : (ds ++ rest).dropWhile isSpace = ds ++ rest := by
  obtain ⟨b, ds, rfl⟩ := List.exists_cons_of_ne_nil hne
  have hb := isSpace_of_isDigit (hdigits b List.mem_cons_self)
  rw [List.cons_append, List.dropWhile_cons_of_neg (by rw [hb]; decide)]

/-- A padded number that fits its width, with the bound as a numeral. -/
theorem decIntPad_two {z : Int} (hz : 0 ≤ z) (hlt : z < 100) :
    (decIntPad 2 z).length = 2 ∧ ∀ b ∈ decIntPad 2 z, isDigit b = true := by
  obtain ⟨hlen, hdigits, -⟩ := @decIntPad_spec 2 z (by decide) hz (by omega)
  exact ⟨hlen, hdigits⟩

/-- A digit is not a dot. -/
theorem ne_dot_of_isDigit {b : UInt8} (h : isDigit b = true) : b ≠ 46 := by
  rintro rfl
  revert h
  decide

section Valid
variable {c : WallClock} (h : c.Valid)
include h

/-- The fields of a valid reading have their full width. -/
theorem length_dateText : (dateText c).length = 19 := by
  obtain ⟨⟨hmon, hmon'⟩, ⟨hmday, hmday'⟩, ⟨hhour, hhour'⟩, ⟨hmin, hmin'⟩, ⟨hsec, hsec'⟩,
    ⟨hmillis, hmillis'⟩⟩ := h
  have hms : (decIntPad 3 c.millis).length = 3 :=
    (decIntPad_spec (by decide) hmillis (by omega)).1
  unfold dateText timeText
  simp only [List.length_cons, List.length_append, hms,
    (decIntPad_two (show 0 ≤ c.tmMon + 1 by omega) (by omega)).1,
    (decIntPad_two (show 0 ≤ c.tmMday by omega) (by omega)).1,
    (decIntPad_two hhour (by omega)).1, (decIntPad_two hmin (by omega)).1,
    (decIntPad_two hsec (by omega)).1]

/-- The rest of `strptime` behind a year that was read. -/
theorem strptimeDateTime_of_year {year : ℕ} {s : Bytes}
    (hyear : strptimeNumber 0 9999 4 s = some (year, dateText c)) :
    strptimeDateTime s
      = some ⟨(year : Int) - 1900, c.tmMon, c.tmMday, c.tmHour, c.tmMin, c.tmSec⟩ := by
  obtain ⟨⟨hmon, hmon'⟩, ⟨hmday, hmday'⟩, ⟨hhour, hhour'⟩, ⟨hmin, hmin'⟩, ⟨hsec, hsec'⟩, -⟩ := h
  have hdigits := (decIntPad_two hhour (by omega)).2
  have hne : decIntPad 2 c.tmHour ≠ [] :=
    List.ne_nil_of_length_eq_add_one (decIntPad_two hhour (by omega)).1
  -- The blank of the format skips the blank of the text.
  have hblank : ∀ rest : Bytes, (32 :: (decIntPad 2 c.tmHour ++ rest)).dropWhile isSpace
      = decIntPad 2 c.tmHour ++ rest := by
    intro rest
    rw [List.dropWhile_cons_of_pos (by decide)]
    exact dropWhile_isSpace_digits hne hdigits rest
  unfold strptimeDateTime
  rw [hyear]
  unfold dateText timeText
  simp only [bind, Option.bind, strptimeLiteral, if_true,
    strptimeNumber_decIntPad (show 0 < 2 by decide) (show ((1 : ℕ) : Int) ≤ c.tmMon + 1 by omega)
      (show c.tmMon + 1 ≤ ((12 : ℕ) : Int) by omega) (by decide),
    strptimeNumber_decIntPad (show 0 < 2 by decide) (show ((1 : ℕ) : Int) ≤ c.tmMday by omega)
      (show c.tmMday ≤ ((31 : ℕ) : Int) by omega) (by decide), hblank,
    strptimeNumber_decIntPad (show 0 < 2 by decide) (show ((0 : ℕ) : Int) ≤ c.tmHour by omega)
      (show c.tmHour ≤ ((23 : ℕ) : Int) by omega) (by decide),
    strptimeNumber_decIntPad (show 0 < 2 by decide) (show ((0 : ℕ) : Int) ≤ c.tmMin by omega)
      (show c.tmMin ≤ ((59 : ℕ) : Int) by omega) (by decide),
    strptimeNumber_decIntPad (show 0 < 2 by decide) (show ((0 : ℕ) : Int) ≤ c.tmSec by omega)
      (show c.tmSec ≤ ((61 : ℕ) : Int) by omega) (by decide)]
  simp only [pure, Option.some.injEq, Tm.mk.injEq, true_and]
  omega

/-- `strchr` finds the dot in front of the milliseconds. -/
theorem dropWhile_ne_dot_dateText :
    (dateText c).dropWhile (· ≠ 46) = 46 :: decIntPad 3 c.millis := by
  obtain ⟨⟨hmon, hmon'⟩, ⟨hmday, hmday'⟩, ⟨hhour, hhour'⟩, ⟨hmin, hmin'⟩, ⟨hsec, hsec'⟩, -⟩ := h
  have hfield : ∀ z : Int, 0 ≤ z → z < 100 → ∀ rest : Bytes,
      (decIntPad 2 z ++ rest).dropWhile (· ≠ 46) = rest.dropWhile (· ≠ 46) := by
    intro z hz hlt rest
    apply List.dropWhile_append_of_pos
    intro b hb
    exact decide_eq_true (ne_dot_of_isDigit ((decIntPad_two hz hlt).2 b hb))
  have hskip : ∀ (b : UInt8) (rest : Bytes), b ≠ 46 →
      (b :: rest).dropWhile (· ≠ 46) = rest.dropWhile (· ≠ 46) := by
    intro b rest hb
    exact List.dropWhile_cons_of_pos (decide_eq_true hb)
  unfold dateText timeText
  rw [hskip 45 _ (by decide), hfield _ (by omega) (by omega), hskip 45 _ (by decide),
    hfield _ (by omega) (by omega), hskip 32 _ (by decide), hfield _ hhour (by omega),
    hskip 58 _ (by decide), hfield _ hmin (by omega), hskip 58 _ (by decide),
    hfield _ hsec (by omega)]
  exact List.dropWhile_cons_of_neg (by decide)

/-- `atoi` reads the milliseconds. -/
theorem atoiDigits_millis : (atoiDigits (decIntPad 3 c.millis) : Int) = c.millis := by
  obtain ⟨hmillis, hmillis'⟩ := h.millis
  obtain ⟨hlen, hdigits, hvalue⟩ := @decIntPad_spec 3 c.millis (by decide) hmillis (by omega)
  have hne : decIntPad 3 c.millis ≠ [] := List.ne_nil_of_length_eq_add_one hlen
  have hspace := dropWhile_isSpace_digits hne hdigits []
  rw [List.append_nil] at hspace
  unfold atoiDigits
  rw [hspace, List.takeWhile_eq_self_iff.mpr hdigits]
  exact hvalue

/-- The timestamp of such a reading is not cut when the year has four digits. -/
theorem hRTimestampText_of_fourDigitYear (hyear : c.FourDigitYear) :
    hRTimestampText c = decIntPad 4 (c.tmYear + 1900) ++ dateText c := by
  obtain ⟨hlo, hhi⟩ := hyear
  have hlen : (decIntPad 4 (c.tmYear + 1900)).length = 4 :=
    (decIntPad_spec (by decide) hlo (by omega)).1
  rw [hRTimestampText_eq, List.take_of_length_le]
  rw [List.length_append, hlen, length_dateText h]
  decide

/-- A reading with a year of four digits is read back in seconds. -/
theorem parseTimestampToDouble_of_fourDigitYear (hyear : c.FourDigitYear) :
    parseTimestampToDouble (hRTimestampText c) = c.seconds := by
  have htext := hRTimestampText_of_fourDigitYear h hyear
  obtain ⟨hlo, hhi⟩ := hyear
  obtain ⟨-, hdigits, -⟩ := @decIntPad_spec 4 (c.tmYear + 1900) (by decide) hlo (by omega)
  have hread : strptimeDateTime (hRTimestampText c) = some c.tm := by
    have hnumber := strptimeNumber_decIntPad (show 0 < 4 by decide)
      (show ((0 : ℕ) : Int) ≤ c.tmYear + 1900 by omega)
      (show c.tmYear + 1900 ≤ ((9999 : ℕ) : Int) by omega) (by decide) (dateText c)
    rw [htext, strptimeDateTime_of_year h hnumber]
    unfold WallClock.tm
    rw [Int.toNat_of_nonneg hlo, Int.add_sub_cancel]
  have hdot : (hRTimestampText c).dropWhile (· ≠ 46) = 46 :: decIntPad 3 c.millis := by
    rw [htext, List.dropWhile_append_of_pos fun b hb =>
      decide_eq_true (ne_dot_of_isDigit (hdigits b hb))]
    exact dropWhile_ne_dot_dateText h
  have hmillis : (atoiDigits (decIntPad 3 c.millis) : ℚ) = (c.millis : ℚ) := by
    exact_mod_cast congrArg (Int.cast : Int → ℚ) (atoiDigits_millis h)
  unfold parseTimestampToDouble
  simp only [hread, hdot, hmillis, WallClock.seconds]

end Valid

/-- A year with a sign is no number for `strptime`. -/
theorem strptimeDateTime_of_minus (rest : Bytes) : strptimeDateTime (45 :: rest) = none := by
  have hfail : strptimeNumber 0 9999 4 (45 :: rest) = none := by
    unfold strptimeNumber
    rw [List.dropWhile_cons_of_neg (by decide)]
    rfl
  unfold strptimeDateTime
  rw [hfail]
  rfl

/-- Behind four digits of the year, a fifth one stands where the hyphen is expected. -/
theorem strptimeDateTime_of_longYear {ds : Bytes} (hdigits : ∀ b ∈ ds, isDigit b = true)
    (hlen : 4 < ds.length) (rest : Bytes) : strptimeDateTime (ds ++ rest) = none := by
  have hfour : (ds.take 4).length = 4 := by
    rw [List.length_take]
    omega
  have htake : ∀ b ∈ ds.take 4, isDigit b = true :=
    fun b hb => hdigits b (List.mem_of_mem_take hb)
  obtain ⟨d, more, hdrop⟩ := List.exists_cons_of_ne_nil
    (show ds.drop 4 ≠ [] by
      rw [← List.length_pos_iff, List.length_drop]
      omega)
  have hsplit : ds ++ rest = ds.take 4 ++ d :: (more ++ rest) := by
    conv_lhs => rw [← List.take_append_drop 4 ds, hdrop, List.append_assoc]
    rfl
  have hlt := decValue_lt (ds.take 4) htake
  rw [hfour] at hlt
  have hnumber := strptimeNumber_append 0 9999 (ds.take 4) (d :: (more ++ rest))
    (List.ne_nil_of_length_eq_add_one hfour) htake (Nat.zero_le _) (by omega)
  have hhyphen : d ≠ 45 := by
    rintro rfl
    have hd := hdigits 45 (List.mem_of_mem_drop (hdrop ▸ List.mem_cons_self))
    revert hd
    decide
  rw [hfour] at hnumber
  unfold strptimeDateTime
  rw [hsplit, hnumber]
  simp only [bind, Option.bind, strptimeLiteral, hhyphen, if_false]

/-- A year with a sign or with more than four digits is not read back. -/
theorem parseTimestampToDouble_of_not_fourDigitYear {c : WallClock} (hyear : ¬ c.FourDigitYear) :
    parseTimestampToDouble (hRTimestampText c) = -1 := by
  have hnone : strptimeDateTime (hRTimestampText c) = none := by
    rw [hRTimestampText_eq]
    by_cases hneg : c.tmYear + 1900 < 0
    · have htext : ∃ rest, (decIntPad 4 (c.tmYear + 1900) ++ dateText c).take 63 = 45 :: rest := by
        unfold decIntPad
        simp only [hneg, if_true, List.cons_append, List.take_succ_cons]
        exact ⟨_, rfl⟩
      obtain ⟨rest, htext⟩ := htext
      rw [htext]
      exact strptimeDateTime_of_minus rest
    · have hbig : 10 ^ 4 ≤ (c.tmYear + 1900).natAbs := by
        have hnot : ¬ (c.tmYear + 1900 ≤ 9999) := fun hle => hyear ⟨by omega, hle⟩
        omega
      have hlen := lt_length_decNat hbig
      have htext : decIntPad 4 (c.tmYear + 1900) = decNat (c.tmYear + 1900).natAbs := by
        unfold decIntPad
        simp only [hneg, if_false, List.nil_append, List.length_nil, Nat.zero_add,
          Nat.sub_eq_zero_of_le (le_of_lt hlen), List.replicate_zero]
      -- The cut of the buffer leaves five digits at least.
      rw [htext, List.take_append]
      apply strptimeDateTime_of_longYear
      · intro b hb
        exact isDigit_decNat _ b (List.mem_of_mem_take hb)
      · rw [List.length_take]
        omega
  unfold parseTimestampToDouble
  rw [hnone]

/-- `get_snapshot_duration` of two timestamps is the time between the two readings. -/
theorem getSnapshotDuration_hRTimestampText {start stop : WallClock} (hstart : start.Valid)
    (hstop : stop.Valid) :
    getSnapshotDuration (hRTimestampText start) (hRTimestampText stop) = start.elapsed stop := by
  unfold getSnapshotDuration WallClock.elapsed
  by_cases hs : start.FourDigitYear
  · rw [parseTimestampToDouble_of_fourDigitYear hstart hs]
    by_cases he : stop.FourDigitYear
    · rw [parseTimestampToDouble_of_fourDigitYear hstop he]
      simp only [gt_iff_lt, ge_iff_le, hs, he, true_and]
    · rw [parseTimestampToDouble_of_not_fourDigitYear he, if_neg (by norm_num),
        if_neg (by simp [he])]
  · rw [parseTimestampToDouble_of_not_fourDigitYear hs, if_neg (by norm_num),
      if_neg (by simp [hs])]

end ProcessAnalyzer
