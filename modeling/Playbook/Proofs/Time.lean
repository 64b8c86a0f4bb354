import Mathlib.Tactic.IntervalCases
import Playbook.Proofs.Json.Numeral
import Playbook.Time

/-! # Points in time read back

The text of a moment denotes it, as long as its year has four digits and it is not within a leap second. The
calendar goes by eras of 400 years: within an era the year is found first, then the day of the year, then the
month, and years begin in March.

Main statements: `Time.daysOfDate_dateOfDays` says that the calendar can be turned around, and
`Time.parse?_text` that times are read back.
-/

namespace Playbook.Time

open Json.Parser (decimal digits decimal_toDigits decimal_concat)

/-! ## Digits -/

/-- Zeros in front do not count. -/
theorem decimal_zeros_append (k : Nat) (ds : List Char) :
    decimal (List.replicate k '0' ++ ds) = decimal ds := by
  induction k with
  | zero => rfl
  | succ k ih =>
    rw [List.replicate_succ, List.cons_append, ← ih]
    rfl

/-- Each zero at the end makes a number ten times as large. -/
theorem decimal_append_zeros (ds : List Char) (k : Nat) :
    decimal (ds ++ List.replicate k '0') = decimal ds * 10 ^ k := by
  induction k with
  | zero => simp
  | succ k ih =>
    have hlast : decimal (ds ++ List.replicate k '0' ++ ['0']) =
        decimal (ds ++ List.replicate k '0') * 10 :=
      decimal_concat _ '0'
    rw [List.replicate_succ', ← List.append_assoc, hlast, ih, Nat.pow_succ, Nat.mul_assoc]

/-- A number in a field of digits that is wide enough for it. -/
structure Fills (width n : Nat) (ds : List Char) : Prop where
  length : ds.length = width
  isDigit : ∀ c ∈ ds, c.isDigit = true
  value : decimal ds = n

theorem fills_padded {width n : Nat} (hpos : 0 < width) (h : n < 10 ^ width) :
    Fills width n (padded width n).toList := by
  have hlen : (Nat.toDigits 10 n).length ≤ width := (Nat.length_toDigits_le_iff (by decide) hpos).2 h
  have htext : (padded width n).toList =
      List.replicate (width - (Nat.toDigits 10 n).length) '0' ++ Nat.toDigits 10 n := by
    rw [padded, String.toList_ofList]
  rw [htext]
  refine ⟨?_, ?_, ?_⟩
  · rw [List.length_append, List.length_replicate]
    omega
  · intro c hc
    rcases List.mem_append.1 hc with hc | hc
    · rw [List.eq_of_mem_replicate hc]
      decide
    · exact Nat.isDigit_of_mem_toDigits (by decide) (by decide) hc
  · rw [decimal_zeros_append, decimal_toDigits]

namespace Fills

variable {width n : Nat} {ds : List Char}

theorem fixedDigits (h : Fills width n ds) (rest : List Char) :
    Time.fixedDigits width (ds ++ rest) = some (n, rest) := by
  have htake : (ds ++ rest).take width = ds := by
    rw [← h.length, List.take_left]
  have hdrop : (ds ++ rest).drop width = rest := by
    rw [← h.length, List.drop_left]
  have hall : ds.all Char.isDigit = true := List.all_eq_true.2 h.isDigit
  simp only [Time.fixedDigits, htake, hdrop, h.length, hall, h.value, decide_true, Bool.and_self, if_true]

/-- Digits are read as far as they go. -/
theorem digits (h : Fills width n ds) {c : Char} (hc : c.isDigit = false) (rest : List Char) :
    Json.Parser.digits (ds ++ c :: rest) = (ds, c :: rest) := by
  rw [Json.Parser.digits, List.takeWhile_append_of_pos h.isDigit, List.dropWhile_append_of_pos h.isDigit]
  simp [hc]

end Fills

/-! ## Fractions -/

/-- The digits of a fraction count from the left. -/
theorem Fills.fraction {k n : Nat} {ds : List Char} (h : Fills k n ds) (hpos : 0 < k) (hk : k ≤ 9)
    {c : Char} (hc : c.isDigit = false) (rest : List Char) :
    Time.fraction ('.' :: (ds ++ c :: rest)) = some (n * 10 ^ (9 - k), c :: rest) := by
  have hnine : (ds ++ List.replicate 9 '0').take 9 = ds ++ List.replicate (9 - k) '0' := by
    have hlen : ds.length ≤ 9 := Nat.le_trans (Nat.le_of_eq h.length) hk
    rw [List.take_append, h.length, List.take_replicate, List.take_of_length_le hlen]
    congr 2
    omega
  have hvalue : decimal ((ds ++ List.replicate 9 '0').take 9) = n * 10 ^ (9 - k) := by
    rw [hnine, decimal_append_zeros, h.value]
  rw [Time.fraction, h.digits hc]
  cases ds with
  | nil =>
    rw [← h.length] at hpos
    cases hpos
  | cons d ds => simp only [hvalue]

/-- Behind the seconds there is a fraction of as many digits as it needs. -/
theorem fraction_fractionText {nanos : Nat} (h : nanos < secondNanos) {c : Char}
    (hdigit : c.isDigit = false) (hdot : c ≠ '.') (rest : List Char) :
    fraction ((fractionText nanos).toList ++ c :: rest) = some (nanos, c :: rest) := by
  have hbound : nanos < 1000000000 := h
  -- a fraction of so many digits
  have hread : ∀ {k n : Nat}, 0 < k → k ≤ 9 → n < 10 ^ k → n * 10 ^ (9 - k) = nanos →
      fraction (("." ++ padded k n).toList ++ c :: rest) = some (nanos, c :: rest) := by
    intro k n hpos hk hn hvalue
    rw [String.toList_append, ← hvalue]
    exact (fills_padded hpos hn).fraction hpos hk hdigit rest
  rw [fractionText]
  split
  · rename_i hzero
    rw [hzero]
    show fraction (c :: rest) = some (0, c :: rest)
    rw [fraction]
    exact fun _ heq => hdot (List.cons.inj heq).1
  split
  · exact hread (by decide) (by decide) (by omega) (by omega)
  split
  · exact hread (by decide) (by decide) (by omega) (by omega)
  · exact hread (by decide) (by decide) hbound (by omega)

/-! ## Calendar -/

/-- A day as the day of a year in an era. -/
structure Dated (days era yoe doy : Int) : Prop where
  days : days + 719468 = era * 146097 + (yoe * 365 + yoe / 4 - yoe / 100 + doy)
  year : 0 ≤ yoe ∧ yoe ≤ 399
  day : 0 ≤ doy ∧ doy ≤ 365
  /-- Only a year that ends in a leap year has as many days. -/
  leap : doy = 365 → (yoe + 1) % 4 = 0 ∧ ((yoe + 1) % 100 ≠ 0 ∨ (yoe + 1) % 400 = 0)

/-- The year that is found for a day of an era is the one in which the day lies. -/
theorem dated {days era doe yoe : Int} (hdays : days + 719468 = era * 146097 + doe)
    (hdoe : 0 ≤ doe ∧ doe < 146097)
    (hyoe : yoe = (doe - doe / 1460 + doe / 36524 - doe / 146096) / 365) :
    Dated days era yoe (doe - (365 * yoe + yoe / 4 - yoe / 100)) := by
  by_cases hlast : doe = 146096
  · subst hlast
    have hyear : yoe = 399 := hyoe
    subst hyear
    exact ⟨by omega, by decide, by decide, fun _ => by decide⟩
  · have hzero : doe / 146096 = 0 := by omega
    rw [hzero, Int.sub_zero] at hyoe
    -- days and years are in the same century
    have hcentury : doe / 36524 = 0 ∨ doe / 36524 = 1 ∨ doe / 36524 = 2 ∨ doe / 36524 = 3 := by omega
    have hsame : yoe / 100 = doe / 36524 := by
      rcases hcentury with hc | hc | hc | hc <;> rw [hc] at hyoe ⊢ <;> omega
    have hfour : yoe / 4 = doe / 1460 ∨ yoe / 4 = doe / 1460 - 1 := by omega
    have hone : yoe % 4 = 0 ∨ yoe % 4 = 1 ∨ yoe % 4 = 2 ∨ yoe % 4 = 3 := by omega
    rw [hsame]
    refine ⟨by omega, by omega, ?_, ?_⟩
    · rcases hfour with hf | hf <;> rcases hone with hv | hv | hv | hv <;> omega
    · intro hfull
      rcases hfour with hf | hf <;> rcases hone with hv | hv | hv | hv <;> omega

/-- The date of a day of a year that begins in March. -/
inductive DateInYear (year doy : Int) : Int × Nat × Nat → Prop where
  | fromMarch (mp day : Nat) (hmonth : (mp : Int) = (5 * doy + 2) / 153) (hlt : mp < 10)
      (hday : (day : Int) = doy - (153 * mp + 2) / 5 + 1) : DateInYear year doy (year, mp + 3, day)
  | fromJanuary (mp day : Nat) (hmonth : (mp : Int) = (5 * doy + 2) / 153) (hle : 10 ≤ mp)
      (hday : (day : Int) = doy - (153 * mp + 2) / 5 + 1) :
      DateInYear year doy (year + 1, mp - 9, day)

/-- The month and the day are those of the day of the year. -/
theorem dateInYear {doy mp : Int} (hdoy : 0 ≤ doy ∧ doy ≤ 365) (hmp : mp = (5 * doy + 2) / 153)
    (year : Int) :
    DateInYear year doy (year + (if (if mp < 10 then mp + 3 else mp - 9) ≤ 2 then 1 else 0),
      (if mp < 10 then mp + 3 else mp - 9).toNat, (doy - (153 * mp + 2) / 5 + 1).toNat) := by
  obtain ⟨m, rfl⟩ : ∃ m : Nat, mp = m := ⟨mp.toNat, by omega⟩
  have hday : ((doy - (153 * (m : Int) + 2) / 5 + 1).toNat : Int) = doy - (153 * m + 2) / 5 + 1 := by
    omega
  by_cases hm : m < 10
  · have hlt : (m : Int) < 10 := by omega
    have hlate : ¬ (m : Int) + 3 ≤ 2 := by omega
    have hnat : ((m : Int) + 3).toNat = m + 3 := by omega
    rw [if_pos hlt, if_neg hlate, hnat, Int.add_zero]
    exact .fromMarch m _ hmp hm hday
  · have hge : ¬ (m : Int) < 10 := by omega
    have hearly : (m : Int) - 9 ≤ 2 := by omega
    have hnat : ((m : Int) - 9).toNat = m - 9 := by omega
    rw [if_neg hge, if_pos hearly, hnat]
    exact .fromJanuary m _ hmp (by omega) hday

theorem dateOfDays_cases (days : Int) :
    ∃ era yoe doy, Dated days era yoe doy ∧ DateInYear (yoe + era * 400) doy (dateOfDays days) := by
  have hdays : days + 719468 =
      (days + 719468) / 146097 * 146097 + (days + 719468 - (days + 719468) / 146097 * 146097) := by
    omega
  have hdated := dated hdays (by omega) rfl
  refine ⟨_, _, _, hdated, ?_⟩
  -- the divisors are positive, so rounding down is what integer division does
  simp (disch := decide) only [dateOfDays, Int.fdiv_eq_ediv_of_nonneg]
  exact dateInYear hdated.day rfl _

/-- The date of a day is that of this day. -/
theorem daysOfDate_dateOfDays {days year : Int} {month day : Nat}
    (h : dateOfDays days = (year, month, day)) : daysOfDate year month day = days := by
  obtain ⟨era, yoe, doy, ⟨hera, hyear, hdoy, -⟩, hdate⟩ := dateOfDays_cases days
  rw [h] at hdate
  simp (disch := decide) only [daysOfDate, Int.fdiv_eq_ediv_of_nonneg]
  cases hdate with
  | fromMarch mp _ hmonth hlt hday =>
    have hlate : ¬ mp + 3 ≤ 2 := by omega
    have hback : (mp + 3 + 9) % 12 = mp := by omega
    rw [if_neg hlate, hback]
    omega
  | fromJanuary mp _ hmonth hle hday =>
    have hearly : mp - 9 ≤ 2 := by omega
    have hback : (mp - 9 + 9) % 12 = mp := by omega
    rw [if_pos hearly, hback]
    omega

theorem daysInMonth_le (year month : Nat) : daysInMonth year month ≤ 31 := by
  rw [daysInMonth]
  split
  · split <;> decide
  · split <;> decide

theorem daysInMonth_fromMarch (year : Nat) {mp : Nat} (h : mp < 10) :
    daysInMonth year (mp + 3) = if mp = 1 ∨ mp = 3 ∨ mp = 6 ∨ mp = 8 then 30 else 31 := by
  simp only [daysInMonth]
  interval_cases mp <;> rfl

/-- The date of a day is one of the calendar. -/
theorem dateOfDays_valid {days year : Int} {month day : Nat} (h : dateOfDays days = (year, month, day))
    (hpos : 0 ≤ year) : 1 ≤ month ∧ month ≤ 12 ∧ 1 ≤ day ∧ day ≤ daysInMonth year.toNat month := by
  obtain ⟨era, yoe, doy, ⟨-, hyear, hdoy, hleap⟩, hdate⟩ := dateOfDays_cases days
  rw [h] at hdate
  cases hdate with
  | fromMarch mp _ hmonth hlt hday =>
    rw [daysInMonth_fromMarch _ hlt]
    refine ⟨by omega, by omega, by omega, ?_⟩
    split <;> omega
  | fromJanuary mp _ hmonth hle hday =>
    have hmp : mp = 10 ∨ mp = 11 := by omega
    rcases hmp with rfl | rfl
    · refine ⟨by omega, by omega, by omega, ?_⟩
      show day ≤ 31
      omega
    · refine ⟨by omega, by omega, by omega, ?_⟩
      show day ≤ if isLeap (yoe + era * 400 + 1).toNat then 29 else 28
      -- the last day of February is the last day of a leap year that begins in March
      by_cases hfull : doy = 365
      · have hisLeap : isLeap (yoe + era * 400 + 1).toNat = true := by
          have hyears := hleap hfull
          simp only [isLeap, Bool.and_eq_true, Bool.or_eq_true, beq_iff_eq, bne_iff_ne]
          omega
        rw [if_pos hisLeap]
        omega
      · split <;> omega

/-! ## Texts -/

/-- The year of a moment in UTC. -/
def year (t : Time) : Int := (dateOfDays (t.seconds.fdiv 86400)).1

/-- A moment whose year has four digits at most, and not within a leap second. -/
structure IsCommon (t : Time) : Prop where
  year : 0 ≤ t.year ∧ t.year ≤ 9999
  nanos : t.nanos < secondNanos

instance (t : Time) : Decidable t.IsCommon :=
  decidable_of_iff ((0 ≤ t.year ∧ t.year ≤ 9999) ∧ t.nanos < secondNanos)
    ⟨fun h => ⟨h.1, h.2⟩, fun h => ⟨h.year, h.nanos⟩⟩

/-- The text of a moment, field by field. -/
theorem toList_text {t : Time} (h : t.IsCommon) {year : Int} {month day clock : Nat}
    (hdate : dateOfDays (t.seconds.fdiv 86400) = (year, month, day))
    (hclock : (t.seconds - t.seconds.fdiv 86400 * 86400).toNat = clock) :
    t.text.toList = (padded 4 year.toNat).toList ++ '-' :: ((padded 2 month).toList ++ '-' ::
      ((padded 2 day).toList ++ 'T' :: ((padded 2 (clock / 3600)).toList ++ ':' ::
        ((padded 2 (clock / 60 % 60)).toList ++ ':' :: ((padded 2 (clock % 60)).toList ++
          ((fractionText t.nanos).toList ++ '+' :: ['0', '0', ':', '0', '0'])))))) := by
  have hyear : 0 ≤ year ∧ year ≤ 9999 := by
    have hbounds := h.year
    rwa [Time.year, hdate] at hbounds
  have hplain : ¬ secondNanos ≤ t.nanos := Nat.not_le_of_lt h.nanos
  simp [text, parts, hdate, hclock, hyear, hplain]

theorem mark_cons {allowed : List Char} {c : Char} (h : c ∈ allowed) (rest : List Char) :
    mark allowed (c :: rest) = some rest := by
  rw [mark, if_pos (List.contains_iff_mem.2 h)]

/-- A moment is read back from its text. -/
theorem parse?_text {t : Time} (h : t.IsCommon) : parse? t.text = some t := by
  rcases hdate : dateOfDays (t.seconds.fdiv 86400) with ⟨year, month, day⟩
  obtain ⟨clock, hclock⟩ : ∃ clock : Nat, (t.seconds - t.seconds.fdiv 86400 * 86400).toNat = clock :=
    ⟨_, rfl⟩
  have hyear : 0 ≤ year ∧ year ≤ 9999 := by
    have hbounds := h.year
    rwa [Time.year, hdate] at hbounds
  obtain ⟨hmonth, hmonth', hday, hday'⟩ := dateOfDays_valid hdate hyear.1
  have hshort : daysInMonth year.toNat month ≤ 31 := daysInMonth_le _ _
  have hseconds : t.seconds = t.seconds.fdiv 86400 * 86400 + clock ∧ clock < 86400 := by
    rw [Int.fdiv_eq_ediv_of_nonneg _ (show (0 : Int) ≤ 86400 by decide)] at hclock ⊢
    omega
  have hfour : Fills 4 year.toNat (padded 4 year.toNat).toList := fills_padded (by decide) (by omega)
  have htwo : ∀ {n : Nat}, n < 100 → Fills 2 n (padded 2 n).toList :=
    fun hn => fills_padded (by decide) hn
  have hfraction := fraction_fractionText h.nanos (show '+'.isDigit = false by decide) (by decide)
    ['0', '0', ':', '0', '0']
  rw [parse?, toList_text h hdate hclock]
  -- one field after the other
  refine Option.bind_eq_some_iff.2 ⟨_, hfour.fixedDigits _, ?_⟩
  refine Option.bind_eq_some_iff.2 ⟨_, mark_cons (by decide) _, ?_⟩
  refine Option.bind_eq_some_iff.2 ⟨_, (htwo (show month < 100 by omega)).fixedDigits _, ?_⟩
  refine Option.bind_eq_some_iff.2 ⟨_, mark_cons (by decide) _, ?_⟩
  refine Option.bind_eq_some_iff.2 ⟨_, (htwo (show day < 100 by omega)).fixedDigits _, ?_⟩
  refine Option.bind_eq_some_iff.2 ⟨_, mark_cons (by decide) _, ?_⟩
  refine Option.bind_eq_some_iff.2 ⟨_, (htwo (show clock / 3600 < 100 by omega)).fixedDigits _, ?_⟩
  refine Option.bind_eq_some_iff.2 ⟨_, mark_cons (by decide) _, ?_⟩
  refine Option.bind_eq_some_iff.2 ⟨_, (htwo (show clock / 60 % 60 < 100 by omega)).fixedDigits _, ?_⟩
  refine Option.bind_eq_some_iff.2 ⟨_, mark_cons (by decide) _, ?_⟩
  refine Option.bind_eq_some_iff.2 ⟨_, (htwo (show clock % 60 < 100 by omega)).fixedDigits _, ?_⟩
  refine Option.bind_eq_some_iff.2 ⟨_, hfraction, ?_⟩
  refine Option.bind_eq_some_iff.2 ⟨(0, []), rfl, ?_⟩
  have hdate' : (decide (month < 1) || decide (12 < month) || decide (day < 1) ||
      decide (daysInMonth year.toNat month < day)) = false := by
    simp only [Bool.or_eq_false_iff, decide_eq_false_iff_not]
    omega
  have hclock' : (decide (23 < clock / 3600) || decide (59 < clock / 60 % 60) ||
      decide (60 < clock % 60)) = false := by
    simp only [Bool.or_eq_false_iff, decide_eq_false_iff_not]
    omega
  have hleap : ¬ clock % 60 = 60 := by omega
  have hdays : daysOfDate year.toNat month day = t.seconds.fdiv 86400 := by
    rw [Int.toNat_of_nonneg hyear.1]
    exact daysOfDate_dateOfDays hdate
  have hsum : clock / 3600 * 3600 + clock / 60 % 60 * 60 + clock % 60 = clock := by omega
  simp only [List.isEmpty_nil, Bool.not_true, Bool.false_eq_true, if_false, hdate', hclock', hleap, hdays,
    hsum, Int.sub_zero, ← hseconds.1]

end Playbook.Time
