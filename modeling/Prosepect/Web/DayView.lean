/-
`calendar.ts`, `eventOccursOnDate`: the first occurrence of an event is shown from the day it starts on
to the day its end falls on, and a later one on the day it starts on alone. What the view then shows too
much and too little is said in `DayAgrees`.
-/
import Prosepect.Calendar.Occurrences
import Prosepect.Web.AllDayEvents

namespace Prosepect.Web

open Time Script Text

/-! ## The code -/

/-- What `eventOccursOnDate` reads of a `CalendarEvent`. -/
structure DayEvent extends EventTimes where
  recurrence : EventRecurrence
  recurrenceUntil : Option (List Char)

section

variable (host : Host)

def localDateKey (value : Int) : List Char :=
  let c := civil (localDay host value)
  decimal c.year ++ '-' :: (padStart2 c.month ++ '-' :: padStart2 c.day)

def parseLocalDateKey (value : List Char) : Option Int := do
  let (year, l) ← readExactly 4 0 value
  let l ← readLiteral '-' l
  let (month, l) ← readExactly 2 0 l
  let l ← readLiteral '-' l
  let (day, l) ← readExactly 2 0 l
  let date := ofParts host year month day
  if l = [] ∧ localDateKey host date = value then some date else none

/-- `a <= b` and `a < b`, of numbers of which one may be no number. -/
def atMost (a b : Option Int) : Bool :=
  match a, b with
  | some x, some y => decide (x ≤ y)
  | _, _ => false

def below (a b : Option Int) : Bool :=
  match a, b with
  | some x, some y => decide (x < y)
  | _, _ => false

/-- The number that a date is compared as: `null` is 0. -/
def number (date : Option (Option Int)) : Option Int := date.getD (some 0)

/-- The last lines of `eventOccursOnDate`. -/
def repeatsOnDay (recurrence : EventRecurrence) (start : Option Int) (target : Int) : Bool :=
  match recurrence, start with
  | .daily, _ => true
  | _, none => false
  | .weekly, some start => elapsedDays start target % 7 == 0
  | .monthly, some start => (civil (localDay host target)).day == (civil (localDay host start)).day
  | _, some start => (civil (localDay host target)).month == (civil (localDay host start)).month &&
      (civil (localDay host target)).day == (civil (localDay host start)).day

/-- `parseLocalDateKey(key)!` of a date, and `startOfLocalDay(new Date(value))` where there are none: `null`,
or a date that may be invalid. -/
def boundary (key : Option (List Char)) (value : List Char) : Option (Option Int) :=
  match key with
  | some key => (parseLocalDateKey host key).map some
  | none => some ((dateValue host value).map (startOfDay host))

/-- No result where the code throws. -/
def eventOccursOnDate (event : DayEvent) (date : Int) : Option Bool := do
  let target := startOfDay host date
  let allDayRange ← allDayDateRange host event.toEventTimes
  let start := boundary host (allDayRange.map (·.start)) event.startsAt
  let last := boundary host (allDayRange.map (·.lastDay)) event.endsAt
  if atMost (number start) (some target) && atMost (some target) (number last) then some true
  else if event.recurrence == .none || below (some target) (number start) then some false
  else if event.recurrenceUntil.any fun until_ => below (dateValue host until_) (some target) then some false
  else start.map fun start => repeatsOnDay host event.recurrence start target

end

/-! ## The occurrences -/

/-- The days of an event's first occurrence: the one it starts on, the one of its last moment and the one
its end falls on; and when an occurrence starts that does so on a day. -/
structure Course where
  first : Int
  last : Int
  ends : Int
  startOn : Int → Int

/-- The local day of an instant in microseconds. -/
def dayOf (host : Host) (t : Int) : Int := localDay host (t / 1000)

/-- The dates from `a` on and before `b`. -/
def Course.dates (a b : Int) : Course := ⟨a, b - 1, b - 1, midnight⟩

/-- The instants from `s` on and before `e`; later occurrences start at the local time of `s`. -/
def Course.times (host : Host) (s e : Int) : Course :=
  ⟨dayOf host s, dayOf host (e - 1), dayOf host e, fun d =>
    if d = dayOf host s then s else host.ofLocal (d * msPerDay + host.localTime (s / 1000) % msPerDay) * 1000 + s % 1000⟩

/-- An event has either dates or two instants. -/
inductive CourseOf (host : Host) (event : DayEvent) : Course → Prop
  | dates {a b : Int} (h : Midnights host event.toEventTimes a b) : CourseOf host event (.dates a b)
  | times {s e : Int} (h : ¬ ∃ a b, Midnights host event.toEventTimes a b) (hs : instantOf host event.startsAt = some s)
      (he : instantOf host event.endsAt = some e) : CourseOf host event (.times host s e)

section

variable (host : Host) (event : DayEvent) (c : Course)

/-- An occurrence that starts on the day does so by `recurrence_until`. -/
def InTime (d : Int) : Prop :=
  ∀ until_ t, event.recurrenceUntil = some until_ → instantOf host until_ = some t → c.startOn d ≤ t

/-- The occurrence that starts on day `x` lasts on day `d`. -/
def LastsOn (x d : Int) : Prop :=
  RepeatsOn event.recurrence c.first x ∧ InTime host event c x ∧ x ≤ d ∧ d ≤ x + (c.last - c.first)

/-- Some occurrence of the event does. -/
def Shows (d : Int) : Prop := ∃ x, LastsOn host event c x d

/-- The view shows the event on a date exactly if it has an occurrence then. -/
def Agrees (date : Int) : Prop :=
  ∃ shown, eventOccursOnDate host event date = some shown ∧ (shown = true ↔ Shows host event c (localDay host date))

/-! ## Where the view is right -/

/-- A date that is written in its ten characters as it is spoken, and that the clock shows. -/
def Plain (d : Int) : Prop := (1000 ≤ (civil d).year ∧ (civil d).year ≤ 9999) ∧ HasDay host d

/-- The dates of an event with dates are plain. -/
def Dated : Prop := ∀ a b, Midnights host event.toEventTimes a b → Plain host a ∧ Plain host (b - 1)

/-- The rule of the code repeats the event on the day, which begins by `recurrence_until`. -/
def Repeated (d : Int) : Prop :=
  event.recurrence ≠ .none ∧ repeatsOnDay host event.recurrence (some (dayStart host c.first)) (dayStart host d) = true ∧
    ∀ until_ ms, event.recurrenceUntil = some until_ → dateValue host until_ = some ms → dayStart host d ≤ ms

/-- A day of the event is shown rightly. -/
structure DayAgrees (d : Int) : Prop where
  /-- On the day that the end falls on, but not the last moment, and where the first occurrence is out of
  time, there is a later occurrence. -/
  ends : c.first ≤ d → d ≤ c.ends → c.last < d ∨ ¬ InTime host event c c.first → ∃ x, c.first < x ∧ LastsOn host event c x d
  /-- On a day that the rule of the code repeats the event on, either an occurrence starts in time or an
  earlier one lasts. -/
  starts : c.first ≤ d → c.ends < d → Repeated host event c d → ¬ LastsOn host event c d d →
    ∃ x, x < d ∧ LastsOn host event c x d
  /-- A day after the first occurrence that another lasts on is one that the rule of the code repeats it on. -/
  lasts : ∀ x, c.ends < d → LastsOn host event c x d → Repeated host event c d

end

/-! ## Dates of the local calendar -/

variable {host : Host} {event : DayEvent} {c : Course}

theorem decimal_year {y : Int} (h0 : 1000 ≤ y) (h1 : y ≤ 9999) : decimal y = padded 4 y.toNat := by
  have habs : y.natAbs = y.toNat := by omega
  have hneg : ¬ y < 0 := by omega
  unfold decimal
  rw [if_neg hneg, habs, padded_eq_toDigits (w := 3) (by omega) (by omega)]

theorem ofParts_civil (host : Host) {d : Int} (h : 1000 ≤ (civil d).year) :
    ofParts host (civil d).year (civil d).month (civil d).day = dayStart host d := by
  obtain ⟨⟨hm0, hm1⟩, -⟩ := civil_bounds d
  have hback := daysOf_civil d
  have hyear : ¬ (0 ≤ (civil d).year ∧ (civil d).year ≤ 99) := by omega
  have hmonth : ((civil d).month - 1) / 12 = 0 := by omega
  have hmonth' : ((civil d).month - 1) % 12 + 1 = (civil d).month := by omega
  have hday : ∀ y m k : Int, daysOf ⟨y, m, 1⟩ + (k - 1) = daysOf ⟨y, m, k⟩ := by
    intro y m k
    unfold daysOf
    simp only
    show (_ : Int) = _
    omega
  unfold ofParts
  simp only [if_neg hyear, hmonth, hmonth', Int.add_zero, hday]
  congr 1

theorem Plain.fourDigits {d : Int} (h : Plain host d) : FourDigits d := by
  obtain ⟨⟨h0, h1⟩, -⟩ := h
  constructor <;> omega

/-- A plain date is read as its start. -/
theorem parseLocalDateKey_formatDate {d : Int} (h : Plain host d) : parseLocalDateKey host (formatDate d) = some (dayStart host d) := by
  obtain ⟨⟨hm0, hm1⟩, hd0, hd1⟩ := civil_bounds d
  have hfour := h.fourDigits
  obtain ⟨⟨h0, h1⟩, hday⟩ := h
  have hkey : localDateKey host (dayStart host d) = formatDate d := by
    have hyear : 0 ≤ (civil d).year ∧ (civil d).year ≤ 9999 := hfour
    unfold localDateKey formatDate formatYear
    rw [show localDay host (dayStart host d) = d from hday]
    simp only [if_pos hyear, decimal_year h0 h1]
    rw [padStart2_eq_padded (by omega) (by omega), padStart2_eq_padded (by omega) (by omega)]
  have hparts := ofParts_civil host h0
  obtain ⟨hyear0, hyear1⟩ : 0 ≤ (civil d).year ∧ (civil d).year ≤ 9999 := hfour
  have hself : formatDate d =
      padded 4 (civil d).year.toNat ++ '-' :: (padded 2 (civil d).month.toNat ++ '-' :: (padded 2 (civil d).day.toNat ++ [])) := by
    unfold formatDate formatYear
    simp only [if_pos (And.intro hyear0 hyear1), List.append_nil]
  have hyear : readExactly 4 0 (formatDate d) = some ((civil d).year.toNat, _) := hself ▸ readExactly_padded _ (by omega)
  have hmonth : ∀ r, readExactly 2 0 (padded 2 (civil d).month.toNat ++ r) = some ((civil d).month.toNat, r) :=
    fun r => readExactly_padded r (by omega)
  have hday' : ∀ r, readExactly 2 0 (padded 2 (civil d).day.toNat ++ r) = some ((civil d).day.toNat, r) :=
    fun r => readExactly_padded r (by omega)
  have hcast : ((civil d).year.toNat : Int) = (civil d).year ∧ ((civil d).month.toNat : Int) = (civil d).month ∧
      ((civil d).day.toNat : Int) = (civil d).day := by omega
  unfold parseLocalDateKey
  simp only [hyear, hmonth, hday', readLiteral, Option.bind_eq_bind, Option.bind_some, if_true, hcast, hparts, hkey, and_self]

/-! ## What the code shows -/

theorem allDayDateRange_of_plain {event : EventTimes} {a b : Int} (h : Midnights host event a b) (ha : Plain host a) (hb : Plain host (b - 1)) :
    allDayDateRange host event = some (some ⟨formatDate a, formatDate (b - 1)⟩) := by
  rw [h.range_fourDigits hb.fourDigits, day10_of_fourDigits ha.fourDigits]

theorem atMost_dayStart (hclock : host.Orderly) {x y : Int} (hx : HasDay host x) (hy : HasDay host y) :
    atMost (some (dayStart host x)) (some (dayStart host y)) = decide (x ≤ y) :=
  decide_eq_decide.2 (hclock.dayStart_le_iff hx hy)

theorem below_dayStart (hclock : host.Orderly) {x y : Int} (hx : HasDay host x) (hy : HasDay host y) :
    below (some (dayStart host x)) (some (dayStart host y)) = decide (x < y) := by
  refine decide_eq_decide.2 ?_
  rw [← not_le, ← not_le, hclock.dayStart_le_iff hy hx]

theorem any_below_eq_false_iff {until_ : Option (List Char)} {target : Int} :
    (until_.any fun text => below (dateValue host text) (some target)) = false ↔
      ∀ text ms, until_ = some text → dateValue host text = some ms → target ≤ ms := by
  cases until_ with
  | none => simp
  | some text =>
    rw [Option.any_some]
    unfold below
    cases hvalue : dateValue host text with
    | none =>
      simp only [true_iff]
      rintro _ ms ⟨⟩ hms
      rw [hvalue] at hms
      cases hms
    | some x =>
      simp only [decide_eq_false_iff_not, not_lt]
      constructor
      · rintro hle _ ms ⟨⟩ hms
        rw [hvalue] at hms
        cases hms
        exact hle
      · intro h
        exact h text x rfl hvalue

/-- The result of the code, of an event whose first occurrence goes from a day of the clock to another. -/
theorem eventOccursOnDate_days (hclock : host.Orderly) {range : Option DateRange} {date : Int}
    (hrange : allDayDateRange host event.toEventTimes = some range)
    (hstart : boundary host (range.map (·.start)) event.startsAt = some (some (dayStart host c.first)))
    (hlast : boundary host (range.map (·.lastDay)) event.endsAt = some (some (dayStart host c.ends)))
    (hfirst : HasDay host c.first) (hends : HasDay host c.ends) :
    ∃ shown, eventOccursOnDate host event date = some shown ∧ (shown = true ↔
      c.first ≤ localDay host date ∧ (localDay host date ≤ c.ends ∨ Repeated host event c (localDay host date))) := by
  have hday := hclock.hasDay date
  have htarget : startOfDay host date = dayStart host (localDay host date) := rfl
  unfold eventOccursOnDate
  simp only [hrange, Option.bind_eq_bind, Option.bind_some, hstart, hlast, htarget]
  generalize localDay host date = d at *
  simp only [number, Option.getD_some, atMost_dayStart hclock hfirst hday, atMost_dayStart hclock hday hends,
    below_dayStart hclock hday hfirst]
  by_cases hbetween : c.first ≤ d ∧ d ≤ c.ends
  · refine ⟨true, ?_, ?_⟩
    · rw [if_pos (by simp [hbetween])]
    · simp [hbetween]
  · rw [if_neg (by simpa using hbetween)]
    by_cases hno : event.recurrence = .none ∨ d < c.first
    · refine ⟨false, ?_, ?_⟩
      · rw [if_pos (by simpa using hno)]
      · simp only [Bool.false_eq_true, false_iff, not_and, not_or]
        rintro hle
        constructor
        · intro hends
          exact hbetween ⟨hle, hends⟩
        · rintro ⟨hrule, -⟩
          rcases hno with hnone | hlt
          · exact hrule hnone
          · omega
    · obtain ⟨hrule, hlt⟩ := not_or.1 hno
      rw [if_neg (by simpa using hno)]
      by_cases hlimit : (event.recurrenceUntil.any fun text => below (dateValue host text) (some (dayStart host d))) = true
      · refine ⟨false, ?_, ?_⟩
        · rw [if_pos hlimit]
        · simp only [Bool.false_eq_true, false_iff, not_and, not_or]
          rintro hle
          constructor
          · intro hends
            exact hbetween ⟨hle, hends⟩
          · rintro ⟨-, -, hintime⟩
            rw [any_below_eq_false_iff.2 hintime] at hlimit
            cases hlimit
      · have hintime := any_below_eq_false_iff.1 (Bool.eq_false_iff.2 hlimit)
        rw [if_neg hlimit, Option.map_some]
        refine ⟨_, rfl, ?_⟩
        constructor
        · intro hrepeats
          exact ⟨by omega, .inr ⟨hrule, hrepeats, hintime⟩⟩
        · rintro ⟨hle, hends | ⟨-, hrepeats, -⟩⟩
          · exact absurd ⟨hle, hends⟩ hbetween
          · exact hrepeats

/-- What the code shows, of an event that has its dates or its times. -/
theorem eventOccursOnDate_iff (hclock : host.Orderly) (hcourse : CourseOf host event c) (hdated : Dated host event) (date : Int) :
    ∃ shown, eventOccursOnDate host event date = some shown ∧ (shown = true ↔
      c.first ≤ localDay host date ∧ (localDay host date ≤ c.ends ∨ Repeated host event c (localDay host date))) := by
  cases hcourse with
  | @dates a b h =>
    obtain ⟨ha, hb⟩ := hdated a b h
    refine eventOccursOnDate_days hclock (allDayDateRange_of_plain h ha hb) ?_ ?_ ha.2 hb.2
    · show (parseLocalDateKey host (formatDate a)).map some = _
      rw [parseLocalDateKey_formatDate ha, Option.map_some]
      rfl
    · show (parseLocalDateKey host (formatDate (b - 1))).map some = _
      rw [parseLocalDateKey_formatDate hb, Option.map_some]
      rfl
  | times h hs he =>
    refine eventOccursOnDate_days hclock (allDayDateRange_eq_null_iff.2 h) ?_ ?_ (hclock.hasDay _) (hclock.hasDay _)
    · show some ((dateValue host event.startsAt).map (startOfDay host)) = _
      unfold dateValue
      rw [hs]
      rfl
    · show some ((dateValue host event.endsAt).map (startOfDay host)) = _
      unfold dateValue
      rw [he]
      rfl

/-- The rule of the code is that of the occurrences, where the offsets of the clock at the two days are less
than twelve hours apart. -/
theorem repeatsOnDay_iff {rule : EventRecurrence} {a b : Int} (hrule : rule ≠ .none) (hle : a ≤ b) (ha : HasDay host a) (hb : HasDay host b)
    (hnear : (dayStart host b - b * msPerDay - (dayStart host a - a * msPerDay)).natAbs < 43200000) :
    repeatsOnDay host rule (some (dayStart host a)) (dayStart host b) = true ↔ RepeatsOn rule a b := by
  have hdays : elapsedDays (dayStart host a) (dayStart host b) = b - a := by
    unfold msPerDay at hnear
    unfold elapsedDays msPerDay
    omega
  have hlocal : localDay host (dayStart host a) = a ∧ localDay host (dayStart host b) = b := ⟨ha, hb⟩
  cases rule with
  | none => exact absurd rfl hrule
  | daily => exact ⟨fun _ => hle, fun _ => rfl⟩
  | weekly => simp [repeatsOnDay, RepeatsOn, hdays, hle]
  | monthly => simp [repeatsOnDay, RepeatsOn, hlocal, hle]
  | yearly => simp [repeatsOnDay, RepeatsOn, hlocal, hle]

/-! ## The day view -/

theorem LastsOn.first_le {x d : Int} (h : LastsOn host event c x d) : c.first ≤ x := h.1.le

theorem utcHost_orderly : utcHost.Orderly := by
  have hday : ∀ d : Int, localDay utcHost (dayStart utcHost d) = d := by
    intro d
    show d * 86400000 / 86400000 = d
    omega
  constructor
  · intro ms
    exact hday _
  · intro d d' _ _ hlt
    show d * 86400000 < d' * 86400000
    omega

/-- Two hours that end at midnight. -/
def evening : DayEvent := ⟨⟨false, "2026-09-01T22:00:00Z".toList, "2026-09-02T00:00:00Z".toList⟩, .none, none⟩

/-- Two nights from a Tuesday to a Thursday, each week. -/
def retreat : DayEvent := ⟨⟨false, "2026-09-01T20:00:00Z".toList, "2026-09-03T08:00:00Z".toList⟩, .weekly, none⟩

/-- Midnight in UTC, as a `Date`. -/
def dateOf (year month day : Int) : Int := daysOf ⟨year, month, day⟩ * msPerDay

theorem not_midnights_of_timed {event : EventTimes} (h : event.allDay = false) : ¬ ∃ a b, Midnights host event a b := by
  rintro ⟨a, b, hall, -⟩
  rw [h] at hall
  cases hall

def eveningCourse : Course := .times utcHost 1788300000000000 1788307200000000

def retreatCourse : Course := .times utcHost 1788292800000000 1788422400000000

theorem evening_course : CourseOf utcHost evening eveningCourse :=
  .times (not_midnights_of_timed rfl) (by decide) (by decide)

theorem retreat_course : CourseOf utcHost retreat retreatCourse :=
  .times (not_midnights_of_timed rfl) (by decide) (by decide)

end Prosepect.Web
