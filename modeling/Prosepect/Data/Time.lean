/-
Time: instants in UTC at the microsecond precision of `TIMESTAMPTZ`, calendar dates as day
numbers, and the one textual form the code writes and reads, `%Y%m%dT%H%M%SZ`.
-/
import Prosepect.Data.Text

namespace Time

open Text

/-- `DateTime<Utc>`: microseconds since 1970-01-01T00:00:00Z. -/
abbrev DateTime := Int

/-- `NaiveDate`: days since 1970-01-01. -/
abbrev NaiveDate := Int

/-- `TimeDelta`, in microseconds. -/
abbrev TimeDelta := Int

def usPerSecond : Int := 1000000
def usPerDay : Int := 86400000000

/-- `date_naive()`. -/
def dateNaive (t : DateTime) : NaiveDate := t / usPerDay

/-- `Utc.from_utc_datetime(&date.and_hms_opt(0, 0, 0))`. -/
def midnight (d : NaiveDate) : DateTime := d * usPerDay

/-- Seconds since midnight. -/
def secondOfDay (t : DateTime) : Int := t % usPerDay / usPerSecond

/-- The instant without its fraction of a second. -/
def truncSecond (t : DateTime) : DateTime := t - t % usPerSecond

theorem dateNaive_midnight (d : Int) : dateNaive (midnight d) = d := by
  show d * 86400000000 / 86400000000 = d
  omega

theorem truncSecond_eq (t : Int) : truncSecond t = midnight (dateNaive t) + secondOfDay t * usPerSecond := by
  show (_ : Int) = _
  unfold truncSecond midnight dateNaive secondOfDay usPerDay usPerSecond
  omega

theorem truncSecond_truncSecond (t : Int) : truncSecond (truncSecond t) = truncSecond t := by
  show (_ : Int) = _
  unfold truncSecond usPerSecond
  omega

/-- An instant is its second and the fraction of it. -/
theorem eq_of_second {t u : Int} (h : truncSecond t = truncSecond u) (hus : (t % usPerSecond).toNat = (u % usPerSecond).toNat) :
    t = u := by
  have h : t - t % usPerSecond = u - u % usPerSecond := h
  unfold usPerSecond at h hus
  omega

/-- Midnight of a day is a whole second. -/
theorem midnight_le_truncSecond {s t : Int} (h : s ≤ t) : midnight (dateNaive s) ≤ truncSecond t := by
  show (_ : Int) ≤ _
  unfold midnight dateNaive truncSecond usPerDay usPerSecond
  omega

theorem secondOfDay_bounds (t : Int) : 0 ≤ secondOfDay t ∧ secondOfDay t < 86400 := by
  unfold secondOfDay usPerDay usPerSecond
  omega

/-! ## The proleptic Gregorian calendar -/

/-- Year, month and day. -/
structure Civil where
  year : Int
  month : Int
  day : Int
deriving DecidableEq, Repr

/-- The years of an era of 400 years that lie wholly before day `doe` of it, counted in centuries,
in groups of four and singly: the last of each kind may be a day longer. -/
def yearOfEra (doe : Int) : Int :=
  let century := min (doe / 36524) 3
  let group := min ((doe - 36524 * century) / 1461) 24
  let year := min ((doe - 36524 * century - 1461 * group) / 365) 3
  100 * century + 4 * group + year

/-- The days of the first `yoe` years of an era. -/
def eraDays (yoe : Int) : Int := 365 * yoe + yoe / 4 - yoe / 100

/-- The date of day `doy`, counted from March 1, of year `yoe` of an era. -/
def ofMarch (era yoe doy : Int) : Civil :=
  let mp := (5 * doy + 2) / 153
  let month := if mp < 10 then mp + 3 else mp - 9
  ⟨yoe + era * 400 + (if month ≤ 2 then 1 else 0), month, doy - (153 * mp + 2) / 5 + 1⟩

/-- Year, month and day of a day number. -/
def civil (n : NaiveDate) : Civil :=
  let doe := (n + 719468) % 146097
  ofMarch ((n + 719468) / 146097) (yearOfEra doe) (doe - eraDays (yearOfEra doe))

/-- The day number of a year, month and day. -/
def daysOf (c : Civil) : NaiveDate :=
  let y := c.year - (if c.month ≤ 2 then 1 else 0)
  let era := y / 400
  let doy := (153 * (if c.month > 2 then c.month - 3 else c.month + 9) + 2) / 5 + c.day - 1
  era * 146097 + (eraDays (y - era * 400) + doy) - 719468

/-- A day of an era lies in one of its 400 years, within 366 days of that year's start. -/
theorem yearOfEra_bounds (doe : Int) (h0 : 0 ≤ doe) (h1 : doe < 146097) :
    (0 ≤ yearOfEra doe ∧ yearOfEra doe < 400) ∧
    0 ≤ doe - eraDays (yearOfEra doe) ∧ doe - eraDays (yearOfEra doe) < 366 := by
  unfold yearOfEra
  simp only
  obtain ⟨q, hq⟩ : ∃ q, min (doe / 36524) 3 = q := ⟨_, rfl⟩
  have hq0 : 0 ≤ q ∧ q ≤ 3 ∧ 0 ≤ doe - 36524 * q ∧ doe - 36524 * q ≤ 36524 := by omega
  rw [hq]
  obtain ⟨g, hg⟩ : ∃ g, min ((doe - 36524 * q) / 1461) 24 = g := ⟨_, rfl⟩
  have hg0 : 0 ≤ g ∧ g ≤ 24 ∧ 0 ≤ doe - 36524 * q - 1461 * g ∧ doe - 36524 * q - 1461 * g ≤ 1460 := by omega
  rw [hg]
  obtain ⟨y, hy⟩ : ∃ y, min ((doe - 36524 * q - 1461 * g) / 365) 3 = y := ⟨_, rfl⟩
  have hy0 : 0 ≤ y ∧ y ≤ 3 ∧ 0 ≤ doe - 36524 * q - 1461 * g - 365 * y ∧
      doe - 36524 * q - 1461 * g - 365 * y ≤ 365 := by omega
  rw [hy]
  have hdays : eraDays (100 * q + 4 * g + y) = 36524 * q + 1461 * g + 365 * y := by
    unfold eraDays
    have h4 : (100 * q + 4 * g + y) / 4 = 25 * q + g := by omega
    have h100 : (100 * q + 4 * g + y) / 100 = q := by omega
    omega
  rw [hdays]
  omega

theorem ofMarch_bounds {era yoe doy : Int} (h0 : 0 ≤ doy) (h1 : doy < 366) :
    (1 ≤ (ofMarch era yoe doy).month ∧ (ofMarch era yoe doy).month ≤ 12) ∧
    1 ≤ (ofMarch era yoe doy).day ∧ (ofMarch era yoe doy).day ≤ 31 := by
  have hmp : 0 ≤ (5 * doy + 2) / 153 ∧ (5 * doy + 2) / 153 < 12 := by omega
  unfold ofMarch
  simp only
  refine ⟨?_, by omega, by omega⟩
  by_cases h : (5 * doy + 2) / 153 < 10
  · simp only [if_pos h]; omega
  · simp only [if_neg h]; omega

theorem daysOf_ofMarch {era yoe doy : Int} (hy0 : 0 ≤ yoe) (hy1 : yoe < 400) (h0 : 0 ≤ doy) (h1 : doy < 366) :
    daysOf (ofMarch era yoe doy) = era * 146097 + (eraDays yoe + doy) - 719468 := by
  have hmp : 0 ≤ (5 * doy + 2) / 153 ∧ (5 * doy + 2) / 153 < 12 := by omega
  have hera : ∀ b : Int, (yoe + era * 400 + b - b) / 400 = era := fun b => by omega
  have hyoe : ∀ b : Int, yoe + era * 400 + b - b - era * 400 = yoe := fun b => by omega
  unfold daysOf ofMarch
  simp only [hera, hyoe]
  by_cases h : (5 * doy + 2) / 153 < 10
  · simp only [if_pos h, if_pos (show (5 * doy + 2) / 153 + 3 > 2 by omega), Int.add_sub_cancel]
    show (_ : Int) = _
    omega
  · simp only [if_neg h, if_neg (show ¬ (5 * doy + 2) / 153 - 9 > 2 by omega), Int.sub_add_cancel]
    show (_ : Int) = _
    omega

theorem civil_bounds (n : Int) : (1 ≤ (civil n).month ∧ (civil n).month ≤ 12) ∧
    1 ≤ (civil n).day ∧ (civil n).day ≤ 31 := by
  obtain ⟨-, h0, h1⟩ := yearOfEra_bounds ((n + 719468) % 146097) (by omega) (by omega)
  exact ofMarch_bounds h0 h1

/-- The day number is recovered from the date. -/
theorem daysOf_civil (n : Int) : daysOf (civil n) = n := by
  obtain ⟨⟨hy0, hy1⟩, h0, h1⟩ := yearOfEra_bounds ((n + 719468) % 146097) (by omega) (by omega)
  have hz : (n + 719468) / 146097 * 146097 + (n + 719468) % 146097 = n + 719468 := by omega
  have hd : daysOf (civil n) = _ := daysOf_ofMarch hy0 hy1 h0 h1
  rw [hd]
  show (_ : Int) = _
  omega

/-- `NaiveDate::from_ymd_opt` accepts the date: it is the date of its day number, and its year is
one chrono can hold. -/
def Civil.valid (c : Civil) : Bool := civil (daysOf c) == c && -262143 ≤ c.year && c.year ≤ 262142

/-- The number of days of a month. -/
def daysInMonth (year month : Int) : Int :=
  daysOf ⟨if month = 12 then year + 1 else year, if month = 12 then 1 else month + 1, 1⟩ - daysOf ⟨year, month, 1⟩

/-- `DateTime::<Utc>::MIN_UTC` and `MAX_UTC`. -/
def minUtc : DateTime := midnight (daysOf ⟨-262143, 1, 1⟩)
def maxUtc : DateTime := midnight (daysOf ⟨262143, 1, 1⟩) - 1

/-- `checked_add_signed`. -/
def checkedAddSigned (t : DateTime) (d : TimeDelta) : Option DateTime :=
  if minUtc ≤ t + d ∧ t + d ≤ maxUtc then some (t + d) else none

/-- `checked_add_months`: the same day of a later month, or that month's last day. -/
def checkedAddMonths (t : DateTime) (n : Nat) : Option DateTime :=
  let c := civil (dateNaive t)
  let m := c.month - 1 + n
  let year := c.year + m / 12
  let month := m % 12 + 1
  let c' : Civil := ⟨year, month, min c.day (daysInMonth year month)⟩
  if c'.valid then some (midnight (daysOf c') + t % usPerDay) else none

/-! ## `%Y%m%dT%H%M%SZ` -/

/-- `%Y`: four digits for the years 0 to 9999, a sign and at least four digits for others. -/
def formatYear (y : Int) : List Char :=
  if 0 ≤ y ∧ y ≤ 9999 then padded 4 y.toNat
  else (if y < 0 then '-' else '+') :: (if y.natAbs < 10000 then padded 4 y.natAbs else Nat.toDigits 10 y.natAbs)

/-- `t.format("%Y%m%dT%H%M%SZ")`. -/
def formatUtc (t : DateTime) : List Char :=
  let c := civil (dateNaive t)
  let s := (secondOfDay t).toNat
  formatYear c.year ++ (padded 2 c.month.toNat ++ (padded 2 c.day.toNat ++ ('T' ::
    (padded 2 (s / 3600) ++ (padded 2 (s / 60 % 60) ++ (padded 2 (s % 60) ++ ['Z']))))))

/-- `%Y`: a signed number of any length, or one of up to four digits. -/
def readYear (l : List Char) : Option (Int × List Char) :=
  match l.dropWhile isWhitespace with
  | '-' :: l => if (l.head?.bind digitVal).isSome then
      let (n, l) := readDigits l.length 0 l; some (-n, l) else none
  | '+' :: l => if (l.head?.bind digitVal).isSome then
      let (n, l) := readDigits l.length 0 l; some (n, l) else none
  | l => (readNumber 4 l).map fun (n, l) => (n, l)

/-- A literal character of the format. -/
def readLiteral (c : Char) : List Char → Option (List Char)
  | [] => none
  | a :: l => if a = c then some l else none

/-- `NaiveDateTime::parse_from_str(value, "%Y%m%dT%H%M%SZ")`; second 60 is a leap second. -/
def parseUtc (l : List Char) : Option DateTime := do
  let (year, l) ← readYear l
  let (month, l) ← readNumber 2 l
  let (day, l) ← readNumber 2 l
  let l ← readLiteral 'T' l
  let (hour, l) ← readNumber 2 l
  let (minute, l) ← readNumber 2 l
  let (second, l) ← readNumber 2 l
  let l ← readLiteral 'Z' l
  let c : Civil := ⟨year, month, day⟩
  if l = [] ∧ c.valid ∧ hour ≤ 23 ∧ minute ≤ 59 ∧ second ≤ 60 then
    some (midnight (daysOf c) + ((hour * 3600 + minute * 60 + second : Nat) : Int) * usPerSecond)
  else none

theorem readYear_padded {n : Nat} (l : List Char) (h : n < 10000) :
    readYear (padded 4 n ++ l) = some ((n : Int), l) := by
  obtain ⟨c, t, hc⟩ : ∃ c t, padded 4 n = c :: t := List.exists_cons_of_length_pos (by simp)
  obtain ⟨d, rfl⟩ := mem_padded (hc ▸ List.mem_cons_self : c ∈ padded 4 n)
  have hr := readNumber_padded (w := 3) l h
  -- a sign is no digit
  have hd : ∀ s, digitVal s = none → digit d ≠ s := by
    rintro s hs rfl
    rw [digitVal_digit] at hs
    cases hs
  rw [hc] at hr ⊢
  simp only [List.cons_append] at hr ⊢
  unfold readYear
  rw [List.dropWhile_cons_of_neg (by simp [isWhitespace_digit])]
  split
  · rename_i heq
    exact absurd (List.cons.inj heq).1 (hd '-' rfl)
  · rename_i heq
    exact absurd (List.cons.inj heq).1 (hd '+' rfl)
  · rw [hr]
    rfl

/-- A formatted instant is read back up to its fraction of a second, in the years 0 to 9999. -/
theorem parseUtc_formatUtc {t : Int} (h0 : 0 ≤ (civil (dateNaive t)).year) (h1 : (civil (dateNaive t)).year ≤ 9999) :
    parseUtc (formatUtc t) = some (truncSecond t) := by
  obtain ⟨⟨hm0, hm1⟩, hd0, hd1⟩ := civil_bounds (dateNaive t)
  obtain ⟨hs0, hs1⟩ := secondOfDay_bounds t
  obtain ⟨s, hs⟩ := Int.eq_ofNat_of_zero_le hs0
  have hlt : s < 86400 := by omega
  have hback : daysOf (civil (dateNaive t)) = dateNaive t := daysOf_civil _
  have hvalid : (civil (dateNaive t)).valid = true := by
    unfold Civil.valid
    simp only [hback, beq_self_eq_true, Bool.true_and, Bool.and_eq_true, decide_eq_true_eq]
    omega
  rw [truncSecond_eq, hs]
  unfold formatUtc parseUtc formatYear
  simp only [hs, Int.toNat_natCast, if_pos (And.intro h0 h1)]
  generalize civil (dateNaive t) = c at *
  obtain ⟨year, month, day⟩ := c
  simp only at h0 h1 hm0 hm1 hd0 hd1
  obtain ⟨y, rfl⟩ := Int.eq_ofNat_of_zero_le h0
  obtain ⟨m, rfl⟩ := Int.eq_ofNat_of_zero_le (by omega : 0 ≤ month)
  obtain ⟨d, rfl⟩ := Int.eq_ofNat_of_zero_le (by omega : 0 ≤ day)
  simp only [Int.toNat_natCast, readYear_padded _ (by omega : y < 10000), Option.bind_eq_bind, Option.bind_some,
    readNumber_padded (w := 1) _ (by omega : m < 10 ^ 2), readNumber_padded (w := 1) _ (by omega : d < 10 ^ 2),
    readNumber_padded (w := 1) _ (by omega : s / 3600 < 10 ^ 2),
    readNumber_padded (w := 1) _ (by omega : s / 60 % 60 < 10 ^ 2),
    readNumber_padded (w := 1) _ (by omega : s % 60 < 10 ^ 2), readLiteral, if_true, hvalid, hback]
  rw [if_pos ⟨trivial, trivial, by omega, by omega, by omega⟩]
  congr 4
  omega

theorem formatUtc_truncSecond (t : Int) : formatUtc (truncSecond t) = formatUtc t := by
  have hd : dateNaive (truncSecond t) = dateNaive t := by
    show (_ : Int) = _
    unfold truncSecond dateNaive usPerDay usPerSecond
    omega
  have hs : secondOfDay (truncSecond t) = secondOfDay t := by
    show (_ : Int) = _
    unfold truncSecond secondOfDay usPerDay usPerSecond
    omega
  unfold formatUtc
  rw [hd, hs]

theorem mem_formatUtc {t : Int} (h0 : 0 ≤ (civil (dateNaive t)).year) (h1 : (civil (dateNaive t)).year ≤ 9999)
    {c : Char} (h : c ∈ formatUtc t) : (∃ d, c = digit d) ∨ c = 'T' ∨ c = 'Z' := by
  unfold formatUtc formatYear at h
  simp only [if_pos (And.intro h0 h1), List.mem_append, List.mem_cons, List.not_mem_nil, or_false] at h
  rcases h with h | h | h | h | h | h | h | h
  · exact .inl (mem_padded h)
  · exact .inl (mem_padded h)
  · exact .inl (mem_padded h)
  · exact .inr (.inl h)
  · exact .inl (mem_padded h)
  · exact .inl (mem_padded h)
  · exact .inl (mem_padded h)
  · exact .inr (.inr h)

theorem not_mem_formatUtc {t : Int} (h0 : 0 ≤ (civil (dateNaive t)).year) (h1 : (civil (dateNaive t)).year ≤ 9999)
    {c : Char} (hc : digitVal c = none) (hT : c ≠ 'T') (hZ : c ≠ 'Z') : c ∉ formatUtc t := by
  intro h
  rcases mem_formatUtc h0 h1 h with ⟨d, rfl⟩ | rfl | rfl
  · rw [digitVal_digit] at hc
    cases hc
  · exact hT rfl
  · exact hZ rfl

/-! ## Distinct instants -/

/-- The digits of a year with a sign. -/
theorem ofDigitChars_year (n : Nat) :
    Nat.ofDigitChars 10 (if n < 10000 then padded 4 n else Nat.toDigits 10 n) 0 = n := by
  split
  · exact ofDigitChars_padded (by omega)
  · exact Nat.ofDigitChars_ten_toDigits

theorem not_mem_padded {c : Char} (hc : digitVal c = none) (w n : Nat) : c ∉ padded w n := by
  intro h
  obtain ⟨d, rfl⟩ := mem_padded h
  rw [digitVal_digit] at hc
  cases hc

theorem not_mem_year {c : Char} (hc : digitVal c = none) (hd : c.isDigit = false) (n : Nat) :
    c ∉ (if n < 10000 then padded 4 n else Nat.toDigits 10 n) := by
  intro h
  split at h
  · exact not_mem_padded hc _ _ h
  · rw [Nat.isDigit_of_mem_toDigits (by decide) (by decide) h] at hd
    cases hd

theorem padded_ne_sign {n : Nat} {s : Char} {l r : List Char} (hs : digitVal s = none) : padded 4 n ++ r ≠ s :: l := by
  intro h
  obtain ⟨c, t, hc⟩ : ∃ c t, padded 4 n = c :: t := List.exists_cons_of_length_pos (by simp)
  rw [hc] at h
  obtain rfl := (List.cons.inj h).1
  exact not_mem_padded hs 4 n (hc ▸ List.mem_cons_self)

/-- A year is found in front of a hyphen. -/
theorem formatYear_append_inj {y z : Int} {l l' : List Char} (h : formatYear y ++ '-' :: l = formatYear z ++ '-' :: l') :
    formatYear y = formatYear z ∧ l = l' := by
  have hsign : ∀ x : Int, digitVal (if x < 0 then '-' else '+') = none := by
    intro x
    split <;> rfl
  unfold formatYear at h ⊢
  by_cases hy : 0 ≤ y ∧ y ≤ 9999
  · rw [if_pos hy] at h ⊢
    by_cases hz : 0 ≤ z ∧ z ≤ 9999
    · rw [if_pos hz] at h ⊢
      exact split_at_first (not_mem_padded rfl _ _) (not_mem_padded rfl _ _) h
    · rw [if_neg hz] at h
      exact absurd h (padded_ne_sign (hsign z))
  · rw [if_neg hy] at h ⊢
    by_cases hz : 0 ≤ z ∧ z ≤ 9999
    · rw [if_pos hz] at h
      exact absurd h.symm (padded_ne_sign (hsign y))
    · rw [if_neg hz] at h ⊢
      obtain ⟨hs, hrest⟩ := List.cons.inj h
      obtain ⟨hdigits, rfl⟩ := split_at_first (not_mem_year rfl rfl _) (not_mem_year rfl rfl _) hrest
      rw [hs, hdigits]
      exact ⟨rfl, rfl⟩

theorem formatYear_inj {y z : Int} (h : formatYear y = formatYear z) : y = z := by
  unfold formatYear at h
  have hsign : ∀ x : Int, digitVal (if x < 0 then '-' else '+') = none := by
    intro x
    split <;> rfl
  by_cases hy : 0 ≤ y ∧ y ≤ 9999
  · rw [if_pos hy] at h
    by_cases hz : 0 ≤ z ∧ z ≤ 9999
    · rw [if_pos hz] at h
      have := padded_inj (by omega) (by omega) h
      omega
    · rw [if_neg hz] at h
      exact absurd (by rw [List.append_nil]; exact h) (padded_ne_sign (r := []) (hsign z))
  · rw [if_neg hy] at h
    by_cases hz : 0 ≤ z ∧ z ≤ 9999
    · rw [if_pos hz] at h
      exact absurd (by rw [List.append_nil]; exact h.symm) (padded_ne_sign (r := []) (hsign y))
    · rw [if_neg hz] at h
      obtain ⟨hs, hdigits⟩ := List.cons.inj h
      have habs : y.natAbs = z.natAbs := by rw [← ofDigitChars_year y.natAbs, hdigits, ofDigitChars_year]
      -- the sign is what is left of the two years of one absolute value
      have hiff : y < 0 ↔ z < 0 := by
        by_cases hy' : y < 0 <;> by_cases hz' : z < 0 <;> simp [hy', hz'] at hs ⊢
      omega

/-- A date is its year, month and day. -/
theorem date_ext {a b : NaiveDate} (hyear : (civil a).year = (civil b).year)
    (hmonth : (civil a).month.toNat = (civil b).month.toNat) (hday : (civil a).day.toNat = (civil b).day.toNat) : a = b := by
  obtain ⟨⟨hm, -⟩, hd, -⟩ := civil_bounds a
  obtain ⟨⟨hm', -⟩, hd', -⟩ := civil_bounds b
  rw [← daysOf_civil a, ← daysOf_civil b]
  generalize civil a = c at *
  generalize civil b = c' at *
  obtain ⟨year, month, day⟩ := c
  obtain ⟨year', month', day'⟩ := c'
  simp only at hyear hmonth hday hm hm' hd hd'
  rw [hyear, show month = month' by omega, show day = day' by omega]

/-- The text tells two instants apart that are not in the same second. -/
theorem formatUtc_inj {t u : DateTime} (h : formatUtc t = formatUtc u) : truncSecond t = truncSecond u := by
  obtain ⟨⟨hm0, hm1⟩, hd0, hd1⟩ := civil_bounds (dateNaive t)
  obtain ⟨⟨hm0', hm1'⟩, hd0', hd1'⟩ := civil_bounds (dateNaive u)
  obtain ⟨hs0, hs1⟩ := secondOfDay_bounds t
  obtain ⟨hs0', hs1'⟩ := secondOfDay_bounds u
  unfold formatUtc at h
  simp only at h
  -- what follows the year has one length
  obtain ⟨hyear, h⟩ := List.append_inj' h (by simp)
  obtain ⟨hmonth, h⟩ := List.append_inj h (by simp)
  obtain ⟨hday, h⟩ := List.append_inj h (by simp)
  obtain ⟨hhour, h⟩ := List.append_inj (List.cons.inj h).2 (by simp)
  obtain ⟨hminute, h⟩ := List.append_inj h (by simp)
  obtain ⟨hsecond, -⟩ := List.append_inj h (by simp)
  have hdate : dateNaive t = dateNaive u :=
    date_ext (formatYear_inj hyear) (padded_inj (by omega) (by omega) hmonth) (padded_inj (by omega) (by omega) hday)
  have hhour := padded_inj (by omega) (by omega) hhour
  have hminute := padded_inj (by omega) (by omega) hminute
  have hsecond := padded_inj (by omega) (by omega) hsecond
  rw [truncSecond_eq, truncSecond_eq, hdate, show secondOfDay t = secondOfDay u by omega]

/-- A character that is no digit, sign or one of the two letters is not in the text. -/
theorem other_not_mem_formatUtc {c : Char} (hc : digitVal c = none) (hd : c.isDigit = false)
    (hother : c ∉ ['-', '+', 'T', 'Z']) (t : DateTime) : c ∉ formatUtc t := by
  have hpadded : ∀ w n, c ∉ padded w n := not_mem_padded hc
  have hyear : ∀ y, c ∉ formatYear y := by
    intro y
    unfold formatYear
    split
    · exact hpadded _ _
    · rw [List.mem_cons, not_or]
      constructor
      · split
        · rintro rfl
          simp at hother
        · rintro rfl
          simp at hother
      · exact not_mem_year hc hd _
  simp only [List.mem_cons, List.not_mem_nil, or_false, not_or] at hother
  unfold formatUtc
  simp [hpadded, hyear, hother]

theorem sep_not_mem_formatUtc (t : DateTime) : ';' ∉ formatUtc t :=
  other_not_mem_formatUtc rfl rfl (by decide) t

/-! ## RFC 3339 -/

/-- `%Y-%m-%d`. -/
def formatDate (d : NaiveDate) : List Char :=
  let c := civil d
  formatYear c.year ++ '-' :: (padded 2 c.month.toNat ++ '-' :: padded 2 c.day.toNat)

/-- The fraction of a second, in as many groups of three digits as it needs. -/
def formatFraction (us : Nat) : List Char :=
  if us = 0 then [] else if us % 1000 = 0 then '.' :: padded 3 (us / 1000) else '.' :: padded 6 us

/-- `to_rfc3339_opts(SecondsFormat::AutoSi, true)`. -/
def formatRfc3339 (t : DateTime) : List Char :=
  let s := (secondOfDay t).toNat
  formatDate (dateNaive t) ++ 'T' :: (padded 2 (s / 3600) ++ ':' :: (padded 2 (s / 60 % 60) ++ ':' ::
    (padded 2 (s % 60) ++ (formatFraction (t % usPerSecond).toNat ++ ['Z']))))

/-- A date is found in front of any text. -/
theorem formatDate_append_inj {a b : NaiveDate} {x y : List Char} (h : formatDate a ++ x = formatDate b ++ y) : a = b ∧ x = y := by
  obtain ⟨⟨hm0, hm1⟩, hd0, hd1⟩ := civil_bounds a
  obtain ⟨⟨hm0', hm1'⟩, hd0', hd1'⟩ := civil_bounds b
  unfold formatDate at h
  simp only [List.append_assoc, List.cons_append] at h
  obtain ⟨hyear, h⟩ := formatYear_append_inj h
  obtain ⟨hmonth, h⟩ := List.append_inj h (by simp)
  obtain ⟨hday, rfl⟩ := List.append_inj (List.cons.inj h).2 (by simp)
  exact ⟨date_ext (formatYear_inj hyear) (padded_inj (by omega) (by omega) hmonth) (padded_inj (by omega) (by omega) hday), rfl⟩

theorem formatFraction_inj {m n : Nat} (hm : m < 1000000) (hn : n < 1000000) (h : formatFraction m = formatFraction n) :
    m = n := by
  have hlength : ∀ us, (formatFraction us).length = if us = 0 then 0 else if us % 1000 = 0 then 4 else 7 := by
    intro us
    unfold formatFraction
    split
    · rfl
    · split <;> simp
  -- the three forms differ in their lengths
  have hlen := congrArg List.length h
  rw [hlength, hlength] at hlen
  unfold formatFraction at h
  by_cases hm0 : m = 0
  · by_cases hn0 : n = 0
    · omega
    · simp only [hm0, hn0, if_true, if_false] at hlen
      split at hlen <;> cases hlen
  · by_cases hn0 : n = 0
    · simp only [hm0, hn0, if_true, if_false] at hlen
      split at hlen <;> cases hlen
    · simp only [hm0, hn0, if_false] at h hlen
      by_cases hmk : m % 1000 = 0
      · by_cases hnk : n % 1000 = 0
        · simp only [hmk, hnk, if_true] at h
          have := padded_inj (by omega) (by omega) (List.cons.inj h).2
          omega
        · simp only [hmk, hnk, if_true, if_false] at hlen
          cases hlen
      · by_cases hnk : n % 1000 = 0
        · simp only [hmk, hnk, if_true, if_false] at hlen
          cases hlen
        · simp only [hmk, hnk, if_false] at h
          exact padded_inj (by omega) (by omega) (List.cons.inj h).2

theorem formatRfc3339_inj {t u : DateTime} (h : formatRfc3339 t = formatRfc3339 u) : t = u := by
  obtain ⟨hs0, hs1⟩ := secondOfDay_bounds t
  obtain ⟨hs0', hs1'⟩ := secondOfDay_bounds u
  unfold formatRfc3339 at h
  simp only at h
  obtain ⟨hdate, h⟩ := formatDate_append_inj h
  obtain ⟨hhour, h⟩ := List.append_inj (List.cons.inj h).2 (by simp)
  obtain ⟨hminute, h⟩ := List.append_inj (List.cons.inj h).2 (by simp)
  obtain ⟨hsecond, h⟩ := List.append_inj (List.cons.inj h).2 (by simp)
  obtain ⟨hfraction, -⟩ := List.append_inj' h (by simp)
  have hhour := padded_inj (by omega) (by omega) hhour
  have hminute := padded_inj (by omega) (by omega) hminute
  have hsecond := padded_inj (by omega) (by omega) hsecond
  have hs : secondOfDay t = secondOfDay u := by omega
  have hf : ∀ x : Int, (x % usPerSecond).toNat < 1000000 := fun x => by unfold usPerSecond; omega
  have hus := formatFraction_inj (hf t) (hf u) hfraction
  have ht := truncSecond_eq t
  have hu := truncSecond_eq u
  rw [hdate, hs, ← hu] at ht
  exact eq_of_second ht hus

end Time
