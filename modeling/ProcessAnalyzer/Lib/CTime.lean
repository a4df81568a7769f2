import ProcessAnalyzer.Lib.CText

/-!
# `ProcessAnalyzer.Lib.CTime`: broken-down time

`struct tm`, the `strptime` conversion for `%Y-%m-%d %H:%M:%S` and `timegm`, as the C
library documents them.
-/

set_option autoImplicit false

namespace ProcessAnalyzer.Lib

/-- `struct tm`: `tm_year` counts from 1900 and `tm_mon` from 0. -/
structure Tm where
  tmYear : Int
  tmMon : Int
  tmMday : Int
  tmHour : Int
  tmMin : Int
  tmSec : Int
  deriving DecidableEq

/-- The digits of a numeric `strptime` field: at most `n` more, and none that would carry
the value past `hi`. -/
def strptimeDigits (hi : ℕ) : ℕ → ℕ → Bytes → ℕ × Bytes
  | 0, val, s => (val, s)
  | _ + 1, val, [] => (val, [])
  | n + 1, val, b :: s =>
      if val * 10 ≤ hi ∧ isDigit b then strptimeDigits hi n (val * 10 + (b.toNat - 48)) s
      else (val, b :: s)

/-- A numeric `strptime` field with value in `lo .. hi` and at most `n` digits. -/
def strptimeNumber (lo hi n : ℕ) (s : Bytes) : Option (ℕ × Bytes) :=
  match s.dropWhile isSpace with
  | [] => none
  | b :: rest =>
      if isDigit b then
        let (val, rest) := strptimeDigits hi (n - 1) (b.toNat - 48) rest
        if lo ≤ val ∧ val ≤ hi then some (val, rest) else none
      else none

/-- A literal byte of a `strptime` format. -/
def strptimeLiteral (c : UInt8) : Bytes → Option Bytes
  | [] => none
  | b :: s => if b = c then some s else none

/-- `strptime(s, "%Y-%m-%d %H:%M:%S", &tm)` into a zeroed `tm`. -/
def strptimeDateTime (s : Bytes) : Option Tm := do
  let (year, s) ← strptimeNumber 0 9999 4 s
  let s ← strptimeLiteral 45 s
  let (mon, s) ← strptimeNumber 1 12 2 s
  let s ← strptimeLiteral 45 s
  let (mday, s) ← strptimeNumber 1 31 2 s
  let s := s.dropWhile isSpace
  let (hour, s) ← strptimeNumber 0 23 2 s
  let s ← strptimeLiteral 58 s
  let (min, s) ← strptimeNumber 0 59 2 s
  let s ← strptimeLiteral 58 s
  let (sec, _) ← strptimeNumber 0 61 2 s
  return ⟨(year : Int) - 1900, (mon : Int) - 1, mday, hour, min, sec⟩

/-- The days from 1970-01-01 to the given day of the proleptic Gregorian calendar. Years
start in March, so that the leap day is the last day of its year. -/
def daysFromCivil (year month day : Int) : Int :=
  let y := if month ≤ 2 then year - 1 else year
  let era := y / 400
  let yoe := y - era * 400
  let mp := (month + 9) % 12
  let doy := (153 * mp + 2) / 5 + day - 1
  let doe := yoe * 365 + yoe / 4 - yoe / 100 + doy
  era * 146097 + doe - 719468

/-- `timegm`: seconds since the epoch of a UTC time with `tm_mon` in `0 .. 11`. -/
def timegm (tm : Tm) : Int :=
  daysFromCivil (tm.tmYear + 1900) (tm.tmMon + 1) tm.tmMday * 86400
    + tm.tmHour * 3600 + tm.tmMin * 60 + tm.tmSec

/-- `atoi` on a string without a sign: the value of the leading digits. -/
def atoiDigits (s : Bytes) : ℕ := decValue ((s.dropWhile isSpace).takeWhile isDigit)

/-! ### Fields of fixed width -/

/-- More digits make the value no smaller. -/
theorem le_foldl_digits (ds : Bytes) (val : ℕ) :
    val ≤ ds.foldl (fun acc b => acc * 10 + (b.toNat - 48)) val := by
  induction ds generalizing val with
  | nil => exact le_refl _
  | cons b ds ih =>
      have hrest := ih (val * 10 + (b.toNat - 48))
      rw [List.foldl_cons]
      omega

/-- A field takes as many digits as it may, when their value stays in range. -/
theorem strptimeDigits_append (hi : ℕ) (ds rest : Bytes) (val : ℕ)
    (hdigits : ∀ b ∈ ds, isDigit b = true)
    (hhi : ds.foldl (fun acc b => acc * 10 + (b.toNat - 48)) val ≤ hi) :
    strptimeDigits hi ds.length val (ds ++ rest)
      = (ds.foldl (fun acc b => acc * 10 + (b.toNat - 48)) val, rest) := by
  induction ds generalizing val with
  | nil => cases rest <;> rfl
  | cons b ds ih =>
      rw [List.foldl_cons] at hhi ⊢
      -- The value after the next digit is below the final one, so the test passes.
      have hnext := le_foldl_digits ds (val * 10 + (b.toNat - 48))
      have hle : val * 10 ≤ hi := by omega
      rw [List.length_cons, List.cons_append, strptimeDigits,
        if_pos ⟨hle, hdigits b List.mem_cons_self⟩]
      exact ih _ (fun c hc => hdigits c (List.mem_cons_of_mem _ hc)) hhi

/-- A field reads a number of its full width back. -/
theorem strptimeNumber_append (lo hi : ℕ) (ds rest : Bytes) (hne : ds ≠ [])
    (hdigits : ∀ b ∈ ds, isDigit b = true) (hlo : lo ≤ decValue ds) (hhi : decValue ds ≤ hi) :
    strptimeNumber lo hi ds.length (ds ++ rest) = some (decValue ds, rest) := by
  obtain ⟨b, ds, rfl⟩ := List.exists_cons_of_ne_nil hne
  have hb := hdigits b List.mem_cons_self
  have hvalue : decValue (b :: ds)
      = ds.foldl (fun acc b => acc * 10 + (b.toNat - 48)) (b.toNat - 48) := by
    unfold decValue
    rw [List.foldl_cons, Nat.zero_mul, Nat.zero_add]
  rw [hvalue] at hlo hhi ⊢
  unfold strptimeNumber
  rw [List.cons_append, List.dropWhile_cons_of_neg (by rw [isSpace_of_isDigit hb]; decide)]
  simp only [hb, if_true, List.length_cons, Nat.add_sub_cancel]
  rw [strptimeDigits_append hi ds rest _ (fun c hc => hdigits c (List.mem_cons_of_mem _ hc)) hhi]
  simp only [hlo, hhi, and_self, if_true]

/-- The value of `k` digits is below `10 ^ k`. -/
theorem decValue_lt (ds : Bytes) (hdigits : ∀ b ∈ ds, isDigit b = true) :
    decValue ds < 10 ^ ds.length := by
  induction ds using List.reverseRecOn with
  | nil => decide
  | append_singleton ds b ih =>
      have hrest := ih fun c hc => hdigits c (List.mem_append_left _ hc)
      have hb := hdigits b (List.mem_append_right _ (List.mem_singleton_self b))
      simp only [isDigit, Bool.and_eq_true, decide_eq_true_eq, UInt8.le_iff_toNat_le,
        UInt8.reduceToNat] at hb
      unfold decValue at hrest ⊢
      rw [List.foldl_append, List.length_append, List.length_singleton, Nat.pow_succ]
      simp only [List.foldl_cons, List.foldl_nil]
      omega

/-- Leading zeros do not change the value. -/
theorem decValue_replicate_append (j : ℕ) (s : Bytes) :
    decValue (List.replicate j 48 ++ s) = decValue s := by
  induction j with
  | zero => rfl
  | succ j ih =>
      rw [List.replicate_succ, List.cons_append, ← ih]
      rfl

/-- The text of a padded number that fits its width: `width` digits with its value. -/
theorem decIntPad_spec {width : ℕ} {z : Int} (hw : 0 < width) (hz : 0 ≤ z)
    (hlt : z < 10 ^ width) :
    (decIntPad width z).length = width ∧ (∀ b ∈ decIntPad width z, isDigit b = true) ∧
    (decValue (decIntPad width z) : Int) = z := by
  have hnat : z.natAbs < 10 ^ width := by
    zify
    rw [abs_of_nonneg hz]
    exact hlt
  have hlen := length_decNat_le hw hnat
  have htext : decIntPad width z
      = List.replicate (width - (decNat z.natAbs).length) 48 ++ decNat z.natAbs := by
    unfold decIntPad
    simp only [not_lt.mpr hz, if_false, List.nil_append, List.length_nil, Nat.zero_add]
  rw [htext]
  refine ⟨?_, ?_, ?_⟩
  · rw [List.length_append, List.length_replicate]
    omega
  · intro b hb
    rcases List.mem_append.mp hb with h | h
    · rw [List.eq_of_mem_replicate h]
      decide
    · exact isDigit_decNat _ b h
  · rw [decValue_replicate_append, decValue_decNat]
    exact Int.natAbs_of_nonneg hz

/-- A field of a format reads a padded number back. -/
theorem strptimeNumber_decIntPad {lo hi width : ℕ} {z : Int} (hw : 0 < width) (hlo : lo ≤ z)
    (hhi : z ≤ hi) (hlt : hi < 10 ^ width) (rest : Bytes) :
    strptimeNumber lo hi width (decIntPad width z ++ rest) = some (z.toNat, rest) := by
  have hz : 0 ≤ z := le_trans (Int.natCast_nonneg lo) hlo
  have hzlt : z < 10 ^ width := lt_of_le_of_lt hhi (by exact_mod_cast hlt)
  obtain ⟨hlen, hdigits, hvalue⟩ := decIntPad_spec hw hz hzlt
  have hne : decIntPad width z ≠ [] := by
    rw [← List.length_pos_iff, hlen]
    exact hw
  have hread := strptimeNumber_append lo hi (decIntPad width z) rest hne hdigits (by omega)
    (by omega)
  rw [hlen] at hread
  have hnat : decValue (decIntPad width z) = z.toNat := by omega
  rw [hread, hnat]

end ProcessAnalyzer.Lib
