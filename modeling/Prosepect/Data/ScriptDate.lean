/-
The `Date` of ECMAScript: the date-time text it reads and writes, and the days it keeps within. Its
first ten characters name the day in the years 0 to 9999; before and after them they name the month
only, and are read as its first day (`shown`).
-/
import Prosepect.Data.Rfc3339

namespace Script

open Time Text

/-! ## Days of a month -/

/-- A day of an era lies in the year it was counted from. -/
theorem yearOfEra_eraDays {yoe doy : Int} (hy0 : 0 ≤ yoe) (hy1 : yoe < 400) (h0 : 0 ≤ doy) (h1 : doy < 365) :
    yearOfEra (eraDays yoe + doy) = yoe := by
  obtain ⟨q, g, y, hyoe, hq, hg, hy⟩ : ∃ q g y : Int, yoe = 100 * q + 4 * g + y ∧ (0 ≤ q ∧ q ≤ 3) ∧ (0 ≤ g ∧ g ≤ 24) ∧ 0 ≤ y ∧ y ≤ 3 :=
    ⟨yoe / 100, yoe % 100 / 4, yoe % 4, by omega, by omega, by omega, by omega⟩
  subst hyoe
  have hdays : eraDays (100 * q + 4 * g + y) = 36524 * q + 1461 * g + 365 * y := by
    unfold eraDays
    have h4 : (100 * q + 4 * g + y) / 4 = 25 * q + g := by omega
    have h100 : (100 * q + 4 * g + y) / 100 = q := by omega
    omega
  rw [hdays]
  unfold yearOfEra
  simp only
  have hcentury : min ((36524 * q + 1461 * g + 365 * y + doy) / 36524) 3 = q := by omega
  rw [hcentury]
  have hgroup : min ((36524 * q + 1461 * g + 365 * y + doy - 36524 * q) / 1461) 24 = g := by omega
  rw [hgroup]
  have hyear : min ((36524 * q + 1461 * g + 365 * y + doy - 36524 * q - 1461 * g) / 365) 3 = y := by omega
  rw [hyear]

theorem civil_ofMarch {era yoe doy : Int} (hy0 : 0 ≤ yoe) (hy1 : yoe < 400) (h0 : 0 ≤ doy) (h1 : doy < 365) :
    civil (era * 146097 + (eraDays yoe + doy) - 719468) = ofMarch era yoe doy := by
  have hdays : 0 ≤ eraDays yoe ∧ eraDays yoe + doy < 146097 := by
    unfold eraDays
    omega
  have hdiv : (era * 146097 + (eraDays yoe + doy) - 719468 + 719468) / 146097 = era := by omega
  have hmod : (era * 146097 + (eraDays yoe + doy) - 719468 + 719468) % 146097 = eraDays yoe + doy := by omega
  unfold civil
  simp only [hdiv, hmod, yearOfEra_eraDays hy0 hy1 h0 h1]
  congr 1
  omega

/-- A month goes up to its 28th day at least, and up to any day it has. -/
theorem civil_in_month (n : Int) {k : Int} (h1 : 1 ≤ k) (h : k ≤ 28 ∨ k ≤ (civil n).day) :
    civil (n - (civil n).day + k) = { civil n with day := k } := by
  obtain ⟨⟨hy0, hy1⟩, hdoy0, hdoy1⟩ := yearOfEra_bounds ((n + 719468) % 146097) (by omega) (by omega)
  have hn : n = (n + 719468) / 146097 * 146097 + (n + 719468) % 146097 - 719468 := by omega
  by_cases hlast : k = (civil n).day
  · rw [← hlast, Int.sub_add_cancel]
    simp only [hlast]
  · have hcivil : civil n = ofMarch ((n + 719468) / 146097) (yearOfEra ((n + 719468) % 146097))
        ((n + 719468) % 146097 - eraDays (yearOfEra ((n + 719468) % 146097))) := rfl
    rw [hcivil] at h hlast ⊢
    generalize (n + 719468) / 146097 = era at *
    generalize hdoe : (n + 719468) % 146097 = doe at *
    generalize hyoe : yearOfEra doe = yoe at *
    generalize hd : doe - eraDays yoe = doy at *
    have hday : (ofMarch era yoe doy).day = doy - (153 * ((5 * doy + 2) / 153) + 2) / 5 + 1 := rfl
    rw [hday] at h hlast
    have hsame : (5 * ((153 * ((5 * doy + 2) / 153) + 2) / 5 + k - 1) + 2) / 153 = (5 * doy + 2) / 153 := by omega
    have hwhere : n - (ofMarch era yoe doy).day + k =
        era * 146097 + (eraDays yoe + ((153 * ((5 * doy + 2) / 153) + 2) / 5 + k - 1)) - 719468 := by
      rw [hday]
      omega
    rw [hwhere, civil_ofMarch hy0 hy1 (by omega) (by omega)]
    unfold ofMarch
    simp only [hsame]
    congr 1
    omega

/-! ## Texts -/

/-- `MakeDay` and `TimeClip` keep to this many days around 1970. -/
def maxDay : Int := 100000000

def msPerDay : Int := 86400000

/-- The year of the format: four digits, or a sign and six; there is no `-000000`. -/
def readIsoYear : List Char → Option (Int × List Char)
  | '+' :: l => (readExactly 6 0 l).map fun (n, l) => (n, l)
  | '-' :: l => (readExactly 6 0 l).bind fun (n, l) => if n = 0 then none else some (-n, l)
  | l => (readExactly 4 0 l).map fun (n, l) => (n, l)

/-- A month or a day, which may be left out. -/
def readPart : List Char → Option (Int × List Char)
  | '-' :: l => (readExactly 2 0 l).map fun (n, l) => (n, l)
  | l => some (1, l)

/-- `YYYY`, `YYYY-MM` or `YYYY-MM-DD`, a date there is. -/
def readIsoDay (l : List Char) : Option (NaiveDate × List Char) := do
  let (year, l) ← readIsoYear l
  let (month, l) ← readPart l
  let (day, l) ← readPart l
  let c : Civil := ⟨year, month, day⟩
  if civil (daysOf c) = c then some (daysOf c, l) else none

/-- Seconds and their fraction, which may be left out. -/
def readSeconds : List Char → Option (Int × List Char)
  | ':' :: l => do
    let (second, l) ← readExactly 2 0 l
    let (fraction, l) ← readFraction l
    some (second * usPerSecond + fraction, l)
  | l => some (0, l)

/-- `HH:mm`, `HH:mm:ss` or `HH:mm:ss.sss`, up to 24:00, in microseconds. -/
def readIsoClock (l : List Char) : Option (Int × List Char) := do
  let (hour, l) ← readExactly 2 0 l
  let l ← readLiteral ':' l
  let (minute, l) ← readExactly 2 0 l
  let (rest, l) ← readSeconds l
  if minute ≤ 59 ∧ rest < 60 * usPerSecond ∧ (hour ≤ 23 ∨ hour = 24 ∧ minute = 0 ∧ rest = 0) then
    some (((hour * 3600 + minute * 60 : Nat) : Int) * usPerSecond + rest, l)
  else none

/-- The clock of the machine, and the texts outside the format that its engine reads; all times are in
milliseconds. -/
structure Host where
  /-- The date and time that the clock shows at an instant. -/
  localTime : Int → Int
  /-- The instant that is taken for a date and time of the clock. -/
  ofLocal : Int → Int
  /-- What `Date.parse` makes of another text. -/
  other : List Char → Option Int

/-- What the offset makes of a date and time; without one it is local. -/
def readIsoZone (host : Host) (t : Int) : List Char → Option Int
  | [] => some (host.ofLocal (t / 1000) * 1000 + t % 1000)
  | 'Z' :: l => if l = [] then some t else none
  | l => do
    let (offset, l) ← readOffset l
    if l = [] then some (t - offset) else none

/-- The text of the format; a date alone is in UTC. -/
def readIso (host : Host) (l : List Char) : Option Int := do
  let (day, l) ← readIsoDay l
  match l with
  | [] => some (midnight day)
  | 'T' :: l =>
    let (time, l) ← readIsoClock l
    readIsoZone host (midnight day + time) l
  | _ => none

/-- `TimeClip`. -/
def timeClip (ms : Int) : Option Int := if -(maxDay * msPerDay) ≤ ms ∧ ms ≤ maxDay * msPerDay then some ms else none

/-- The instant a text names, in microseconds. -/
def instantOf (host : Host) (l : List Char) : Option Int := do
  let t ← (readIso host l).or ((host.other l).map (· * 1000))
  let _ ← timeClip (t / 1000)
  some t

/-- `new Date(text).getTime()`: whole milliseconds. -/
def dateValue (host : Host) (l : List Char) : Option Int := (instantOf host l).map (· / 1000)

/-- The year as it is written: four digits for the years 0 to 9999, a sign and six for others. -/
def isoYear (y : Int) : List Char :=
  if 0 ≤ y ∧ y ≤ 9999 then padded 4 y.toNat else (if y < 0 then '-' else '+') :: padded 6 y.natAbs

/-- `toISOString()`. -/
def toISOString (ms : Int) : List Char :=
  let c := civil (ms / msPerDay)
  let s := (ms % msPerDay).toNat
  isoYear c.year ++ '-' :: (padded 2 c.month.toNat ++ '-' :: (padded 2 c.day.toNat ++ 'T' ::
    (padded 2 (s / 3600000) ++ ':' :: (padded 2 (s / 60000 % 60) ++ ':' ::
      (padded 2 (s / 1000 % 60) ++ '.' :: (padded 3 (s % 1000) ++ ['Z']))))))

/-! ## The first ten characters -/

/-- The day that the first ten characters of a date name. -/
def shown (d : Int) : Int := if FourDigits d then d else d - (civil d).day + 1

/-- The first ten characters of `toISOString()`. -/
def day10 (d : NaiveDate) : List Char := (toISOString (d * msPerDay)).take 10

theorem shown_of_fourDigits {d : Int} (h : FourDigits d) : shown d = d := if_pos h

theorem fourDigits_congr {a b : NaiveDate} (h : (civil a).year = (civil b).year) : FourDigits a ↔ FourDigits b := by
  unfold FourDigits
  rw [h]

/-- Past the four digits, a day further is still shown as the first of the month. -/
theorem shown_shown_add_one {d : Int} (h : ¬ FourDigits d) : shown (shown d + 1) = shown d := by
  have hfirst : shown d = d - (civil d).day + 1 := if_neg h
  have hnext : shown d + 1 = d - (civil d).day + 2 := by
    rw [hfirst]
    omega
  have hcivil : civil (shown d + 1) = { civil d with day := 2 } := by
    rw [hnext]
    exact civil_in_month d (by omega) (.inl (by omega))
  have hfour : ¬ FourDigits (shown d + 1) := by
    rwa [fourDigits_congr (b := d) (by rw [hcivil])]
  have hshown : shown (shown d + 1) = shown d + 1 - (civil (shown d + 1)).day + 1 := if_neg hfour
  rw [hshown, hcivil]
  simp only
  omega

theorem shown_le (d : Int) : shown d ≤ d := by
  obtain ⟨-, hd, -⟩ := civil_bounds d
  unfold shown
  split
  · exact le_rfl
  · omega

/-- The day after the last that is written in four digits is the first of its month. -/
theorem shown_add_one {d : Int} (h : FourDigits d) : shown (d + 1) = d + 1 := by
  obtain ⟨-, hd, -⟩ := civil_bounds (d + 1)
  unfold shown
  split
  · rfl
  · rename_i hfour
    -- otherwise both days are of one month
    by_cases hfirst : (civil (d + 1)).day = 1
    · omega
    · have hbefore : civil (d + 1 - (civil (d + 1)).day + ((civil (d + 1)).day - 1)) = _ :=
        civil_in_month (d + 1) (by omega) (.inr (by omega))
      have hd' : d + 1 - (civil (d + 1)).day + ((civil (d + 1)).day - 1) = d := by omega
      rw [hd'] at hbefore
      rw [fourDigits_congr (b := d) (by rw [hbefore])] at hfour
      exact absurd h hfour

theorem shown_eq_iff {d : Int} : shown d = d ↔ FourDigits d ∨ (civil d).day = 1 := by
  unfold shown
  split
  · rename_i h
    simp [h]
  · rename_i h
    simp only [h, false_or]
    omega

/-- The years within the days of a `Date` have at most six digits. -/
theorem year_bounds {d : Int} (h0 : -(2 * maxDay) ≤ d) (h1 : d ≤ 2 * maxDay) : (civil d).year.natAbs < 1000000 := by
  obtain ⟨⟨hy0, hy1⟩, -⟩ := yearOfEra_bounds ((d + 719468) % 146097) (by omega) (by omega)
  have hyear : (civil d).year = yearOfEra ((d + 719468) % 146097) + (d + 719468) / 146097 * 400 +
      (if (civil d).month ≤ 2 then 1 else 0) := rfl
  unfold maxDay at h0 h1
  rw [hyear]
  split <;> omega

/-! ## Reading them back -/

theorem readIsoYear_isoYear {y : Int} (h : y.natAbs < 1000000) (l : List Char) : readIsoYear (isoYear y ++ l) = some (y, l) := by
  unfold isoYear
  split
  · rename_i hy
    obtain ⟨n, rfl⟩ := Int.eq_ofNat_of_zero_le hy.1
    have hread : readExactly 4 0 (padded 4 n ++ l) = some (n, l) := readExactly_padded l (by omega)
    rw [Int.toNat_natCast]
    unfold readIsoYear
    split
    · rename_i heq
      exact absurd heq (padded_ne_sign rfl)
    · rename_i heq
      exact absurd heq (padded_ne_sign rfl)
    · rw [hread]
      rfl
  · rename_i hy
    have hread : readExactly 6 0 (padded 6 y.natAbs ++ l) = some (y.natAbs, l) := readExactly_padded l (by omega)
    by_cases hneg : y < 0
    · have hne : y.natAbs ≠ 0 := by omega
      have hback : -(y.natAbs : Int) = y := by omega
      simp only [if_pos hneg, List.cons_append, readIsoYear, hread, Option.bind_some, if_neg hne, hback]
    · have hback : (y.natAbs : Int) = y := by omega
      simp only [if_neg hneg, List.cons_append, readIsoYear, hread, Option.map_some, hback]

theorem readPart_padded {n : Int} (h0 : 0 ≤ n) (h1 : n < 100) (l : List Char) :
    readPart ('-' :: (padded 2 n.toNat ++ l)) = some (n, l) := by
  obtain ⟨n, rfl⟩ := Int.eq_ofNat_of_zero_le h0
  have hread : readExactly 2 0 (padded 2 n ++ l) = some (n, l) := readExactly_padded l (by omega)
  simp only [Int.toNat_natCast, readPart, hread, Option.map_some]

theorem day10_of_fourDigits {d : Int} (h : FourDigits d) : day10 d = formatDate d := by
  have hday : d * msPerDay / msPerDay = d := by
    unfold msPerDay
    omega
  have hyear : 0 ≤ (civil d).year ∧ (civil d).year ≤ 9999 := h
  have hlen : (formatDate d).length = 10 := by
    unfold formatDate formatYear
    simp [if_pos hyear]
  unfold day10 toISOString
  simp only [hday]
  have hiso : isoYear (civil d).year = formatYear (civil d).year := by
    unfold isoYear formatYear
    rw [if_pos hyear, if_pos hyear]
  rw [hiso]
  have happ : ∀ r : List Char, formatYear (civil d).year ++ '-' :: (padded 2 (civil d).month.toNat ++ '-' ::
      (padded 2 (civil d).day.toNat ++ 'T' :: r)) = formatDate d ++ 'T' :: r := by
    intro r
    unfold formatDate
    simp
  rw [happ, List.take_append_of_le_length (by omega), ← hlen, List.take_length]

theorem day10_of_not_fourDigits {d : Int} (h : ¬ FourDigits d) :
    day10 d = isoYear (civil d).year ++ '-' :: padded 2 (civil d).month.toNat := by
  have hday : d * msPerDay / msPerDay = d := by
    unfold msPerDay
    omega
  have hyear : ¬ (0 ≤ (civil d).year ∧ (civil d).year ≤ 9999) := h
  have hlen : (isoYear (civil d).year ++ '-' :: padded 2 (civil d).month.toNat).length = 10 := by
    unfold isoYear
    simp [if_neg hyear]
  unfold day10 toISOString
  simp only [hday]
  rw [← List.cons_append, ← List.append_assoc, List.take_append_of_le_length (by omega), ← hlen, List.take_length]

/-- What follows a date is not taken for a part of it. -/
theorem readIsoDay_day10 {d : Int} (h0 : -(2 * maxDay) ≤ d) (h1 : d ≤ 2 * maxDay) {l : List Char} (hl : l.head? ≠ some '-') :
    readIsoDay (day10 d ++ l) = some (shown d, l) := by
  obtain ⟨⟨hm0, hm1⟩, hd0, hd1⟩ := civil_bounds d
  have hyear := year_bounds h0 h1
  by_cases h : FourDigits d
  · rw [day10_of_fourDigits h, shown_of_fourDigits h]
    have hformat : formatYear (civil d).year = isoYear (civil d).year := by
      unfold formatYear isoYear
      rw [if_pos (show 0 ≤ (civil d).year ∧ (civil d).year ≤ 9999 from h), if_pos (show 0 ≤ (civil d).year ∧ (civil d).year ≤ 9999 from h)]
    have hback : daysOf ⟨(civil d).year, (civil d).month, (civil d).day⟩ = d := daysOf_civil d
    unfold readIsoDay formatDate
    simp only [hformat, List.append_assoc, List.cons_append, readIsoYear_isoYear hyear, Option.bind_eq_bind, Option.bind_some]
    rw [readPart_padded (by omega) (by omega)]
    simp only [Option.bind_some]
    rw [readPart_padded (by omega) (by omega)]
    simp only [Option.bind_some, hback, if_true]
  · have hpart : readPart l = some (1, l) := by
      cases l with
      | nil => rfl
      | cons c l =>
        have hc : c ≠ '-' := fun hc => hl (by rw [hc]; rfl)
        unfold readPart
        split
        · rename_i heq
          exact absurd (List.cons.inj heq).1 hc
        · rfl
    have hshown : shown d = d - (civil d).day + 1 := if_neg h
    have hfirst : civil (shown d) = { civil d with day := 1 } := by
      rw [hshown]
      exact civil_in_month d (by omega) (.inl (by omega))
    have hback : daysOf ⟨(civil d).year, (civil d).month, 1⟩ = shown d := by
      rw [← daysOf_civil (shown d), hfirst]
    rw [day10_of_not_fourDigits h]
    unfold readIsoDay
    simp only [List.append_assoc, List.cons_append, readIsoYear_isoYear hyear, Option.bind_eq_bind, Option.bind_some]
    rw [readPart_padded (by omega) (by omega)]
    simp only [Option.bind_some, hpart, hback, hfirst, if_true]

/-- Midnight as the code writes it. -/
def midnightText : List Char := "T00:00:00.000Z".toList

theorem readIso_day10 (host : Host) {d : Int} (h0 : -(2 * maxDay) ≤ d) (h1 : d ≤ 2 * maxDay) :
    readIso host (day10 d ++ midnightText) = some (midnight (shown d)) := by
  have hclock : readIsoClock "00:00:00.000Z".toList = some (0, ['Z']) := by decide
  have htext : midnightText = 'T' :: "00:00:00.000Z".toList := rfl
  unfold readIso
  rw [readIsoDay_day10 h0 h1 (by decide), htext]
  simp only [Option.bind_eq_bind, Option.bind_some, hclock, readIsoZone, if_true]
  congr 1
  exact Int.add_zero _


theorem timeClip_day {d : Int} (h0 : -maxDay ≤ d) (h1 : d ≤ maxDay) : timeClip (d * msPerDay) = some (d * msPerDay) := by
  unfold maxDay at h0 h1
  unfold timeClip maxDay msPerDay
  rw [if_pos (by omega)]

theorem midnight_div_thousand (d : Int) : midnight d / 1000 = d * msPerDay := by
  show d * 86400000000 / 1000 = d * 86400000
  omega

theorem instantOf_day10 (host : Host) {d : Int} (h0 : -(2 * maxDay) ≤ d) (h1 : d ≤ 2 * maxDay) (hs0 : -maxDay ≤ shown d)
    (hs1 : shown d ≤ maxDay) : instantOf host (day10 d ++ midnightText) = some (midnight (shown d)) := by
  have hclip : timeClip (midnight (shown d) / 1000) = _ := (congrArg timeClip (midnight_div_thousand _)).trans (timeClip_day hs0 hs1)
  unfold instantOf
  rw [readIso_day10 host h0 h1]
  simp only [Option.some_or, Option.bind_eq_bind, Option.bind_some, hclip]

theorem eq_of_instantOf_day10 {host : Host} {d t : Int} (h0 : -(2 * maxDay) ≤ d) (h1 : d ≤ 2 * maxDay)
    (h : instantOf host (day10 d ++ midnightText) = some t) : t = midnight (shown d) := by
  unfold instantOf at h
  rw [readIso_day10 host h0 h1] at h
  simp only [Option.some_or, Option.bind_eq_bind, Option.bind_some] at h
  obtain ⟨_, -, h⟩ := Option.bind_eq_some_iff.1 h
  exact (Option.some.inj h).symm

/-- The years of four digits are far within the days of a `Date`. -/
theorem fourDigits_bounds {d : Int} (h : FourDigits d) : -1000000 ≤ d ∧ d ≤ 3000000 := by
  obtain ⟨⟨hy0, hy1⟩, -⟩ := yearOfEra_bounds ((d + 719468) % 146097) (by omega) (by omega)
  have hyear : (civil d).year = yearOfEra ((d + 719468) % 146097) + (d + 719468) / 146097 * 400 +
      (if (civil d).month ≤ 2 then 1 else 0) := rfl
  obtain ⟨h0, h1⟩ := h
  rw [hyear] at h0 h1
  split at h0 <;> omega

/-- The day after one written in four digits is read back, and only that. -/
theorem shown_shown_add_one_eq_iff {d : Int} : shown (shown d + 1) = d + 1 ↔ FourDigits d := by
  constructor
  · intro h
    by_contra hfour
    have hle : shown d ≤ d := shown_le d
    have hsame : shown d = d + 1 := (shown_shown_add_one hfour).symm.trans h
    omega
  · intro h
    rw [shown_of_fourDigits h]
    exact shown_add_one h

/-! ## Local days -/

/-- The day that the clock shows. -/
def localDay (host : Host) (ms : Int) : Int := host.localTime ms / msPerDay

/-- The instant that is taken for the start of a day. -/
def dayStart (host : Host) (d : Int) : Int := host.ofLocal (d * msPerDay)

/-- `date.setHours(0, 0, 0, 0)`. -/
def startOfDay (host : Host) (ms : Int) : Int := dayStart host (localDay host ms)

/-- The clock shows the day, from the instant on that is taken for its start. -/
def HasDay (host : Host) (d : Int) : Prop := localDay host (dayStart host d) = d

/-- How a clock goes: it starts each day it shows on that day, and the days in their order. -/
structure Host.Orderly (host : Host) : Prop where
  hasDay : ∀ ms, HasDay host (localDay host ms)
  ordered : ∀ {d d' : Int}, HasDay host d → HasDay host d' → d < d' → dayStart host d < dayStart host d'

theorem Host.Orderly.dayStart_le_iff {host : Host} (h : host.Orderly) {d d' : Int} (hd : HasDay host d) (hd' : HasDay host d') :
    dayStart host d ≤ dayStart host d' ↔ d ≤ d' := by
  constructor
  · intro hle
    by_contra hlt
    exact absurd (h.ordered hd' hd (not_le.1 hlt)) (not_lt.2 hle)
  · intro hle
    rcases Int.lt_or_eq_of_le hle with hlt | rfl
    · exact le_of_lt (h.ordered hd hd' hlt)
    · exact le_rfl

/-- `new Date(year, month - 1, day)`: months and days run over, and years below 100 are those of the
twentieth century. -/
def ofParts (host : Host) (year month day : Int) : Int :=
  let year := if 0 ≤ year ∧ year ≤ 99 then 1900 + year else year
  dayStart host (daysOf ⟨year + (month - 1) / 12, (month - 1) % 12 + 1, 1⟩ + (day - 1))

/-- `Math.round((b - a) / 86_400_000)`. -/
def elapsedDays (a b : Int) : Int := (2 * (b - a) + msPerDay) / (2 * msPerDay)

/-- A whole number in decimal. -/
def decimal (n : Int) : List Char := if n < 0 then '-' :: Nat.toDigits 10 n.natAbs else Nat.toDigits 10 n.natAbs

/-- `String(n).padStart(2, '0')`. -/
def padStart2 (n : Int) : List Char := List.replicate (2 - (decimal n).length) '0' ++ decimal n

theorem padded_eq_toDigits : ∀ {w n : Nat}, 10 ^ w ≤ n → n < 10 ^ (w + 1) → padded (w + 1) n = Nat.toDigits 10 n
  | 0, n, h0, h1 => by
    have hn : n < 10 := by simpa using h1
    rw [Nat.toDigits_of_lt_base hn]
    interval_cases n <;> rfl
  | w + 1, n, h0, h1 => by
    have hdiv0 : 10 ^ w ≤ n / 10 := by
      rw [Nat.le_div_iff_mul_le (by omega), ← pow_succ]
      exact h0
    have hdiv1 : n / 10 < 10 ^ (w + 1) := by
      rw [Nat.div_lt_iff_lt_mul (by omega), ← pow_succ]
      exact h1
    have hpos : 0 < 10 ^ w := by positivity
    have hlast : Nat.toDigits 10 (n % 10) = [digit n] := by
      have hlt : n % 10 < 10 := Nat.mod_lt _ (by omega)
      rw [Nat.toDigits_of_lt_base hlt]
      unfold digit
      interval_cases n % 10 <;> rfl
    rw [padded, padded_eq_toDigits hdiv0 hdiv1, ← hlast, Nat.toDigits_append_toDigits (by omega) (by omega) (Nat.mod_lt _ (by omega)),
      Nat.div_add_mod]

theorem padStart2_eq_padded {n : Int} (h0 : 0 ≤ n) (h1 : n < 100) : padStart2 n = padded 2 n.toNat := by
  interval_cases n <;> rfl

end Script
