/-
`all-day-events.ts`: an all-day event lies between two midnights of UTC, its dates are the first ten
characters of ISO texts, and its last day is the one before its end. The texts are ten characters
long in the years 0 to 9999 only, and a `Date` does not see microseconds.
-/
import Prosepect.Data.ScriptDate

namespace Prosepect.Web

open Time Script

/-! ## The code -/

/-- What `all-day-events.ts` picks of a `CalendarEvent`. -/
structure EventTimes where
  allDay : Bool
  startsAt : List Char
  endsAt : List Char

structure AllDayTimes where
  startsAt : List Char
  endsAt : List Char
deriving DecidableEq

structure DateRange where
  start : List Char
  lastDay : List Char
deriving DecidableEq

/-- The event with its times replaced. -/
def EventTimes.retimed (event : EventTimes) (times : AllDayTimes) : EventTimes := ⟨event.allDay, times.startsAt, times.endsAt⟩

section

variable (host : Host)

def utcMidnight (value : List Char) : Bool :=
  match dateValue host value with
  | none => false
  | some time => time % msPerDay == 0

/-- `new Date(value).toISOString().slice(0, 10)`, which throws where there is no date. -/
def isoDate (value : List Char) : Option (List Char) := (dateValue host value).map fun time => (toISOString time).take 10

def shiftDate (value : List Char) (days : Int) : Option (List Char) := do
  let time ← dateValue host (value ++ midnightText)
  let shifted ← timeClip (time + days * msPerDay)
  some ((toISOString shifted).take 10)

/-- `new Date(a) <= new Date(b)`. -/
def notAfter (a b : List Char) : Bool :=
  match dateValue host a, dateValue host b with
  | some x, some y => x ≤ y
  | _, _ => false

/-- `null`, a range, or no result where the code throws. -/
def allDayDateRange (event : EventTimes) : Option (Option DateRange) :=
  if !event.allDay || !utcMidnight host event.startsAt || !utcMidnight host event.endsAt ||
      notAfter host event.endsAt event.startsAt then some none
  else do
    let start ← isoDate host event.startsAt
    let lastDay ← shiftDate host (← isoDate host event.endsAt) (-1)
    some (some ⟨start, lastDay⟩)

def allDayEventTimes (start lastDay : List Char) : Option AllDayTimes := do
  let day ← shiftDate host lastDay 1
  some ⟨start ++ midnightText, day ++ midnightText⟩

def moveAllDayEvent (event : EventTimes) (start : List Char) : Option (Option AllDayTimes) := do
  match ← allDayDateRange host event with
  | none => some none
  | some _ =>
    let days := ((← dateValue host event.endsAt) - (← dateValue host event.startsAt)) / msPerDay
    let lastDay ← shiftDate host start (days - 1)
    let times ← allDayEventTimes host start lastDay
    some (some times)

/-! ## What its dates are to say -/

/-- The event is all-day, from the midnight of `a` to that of a later day `b`. -/
def DateOnly (event : EventTimes) (a b : Int) : Prop :=
  event.allDay = true ∧ instantOf host event.startsAt = some (midnight a) ∧ instantOf host event.endsAt = some (midnight b) ∧ a < b

/-- The dates of a range come back from its times. -/
def RangeKept (start lastDay : Int) : Prop :=
  ∃ times, allDayEventTimes host (formatDate start) (formatDate lastDay) = some times ∧
    allDayDateRange host ⟨true, times.startsAt, times.endsAt⟩ = some (some ⟨formatDate start, formatDate lastDay⟩)

/-- There is no range exactly where the event has no dates. -/
def NullWhereNoDates (event : EventTimes) : Prop :=
  allDayDateRange host event = some none ↔ ¬ ∃ a b, DateOnly host event a b

/-- Moved to `d`, the event has as many days from `d` on, and moved back it has its times again. -/
def MovesAndReturns (event : EventTimes) (d : Int) : Prop :=
  ∀ a b, DateOnly host event a b → ∃ range moved back, allDayDateRange host event = some (some range) ∧
    moveAllDayEvent host event (formatDate d) = some (some moved) ∧ DateOnly host (event.retimed moved) d (d + (b - a)) ∧
    moveAllDayEvent host (event.retimed moved) range.start = some (some back) ∧ DateOnly host (event.retimed back) a b

/-- An all-day event whose times are midnights to the millisecond has them to the microsecond. -/
def WholeMidnights (event : EventTimes) : Prop :=
  ∀ s t, event.allDay = true → instantOf host event.startsAt = some s → instantOf host event.endsAt = some t →
    s % usPerDay < 1000 → t % usPerDay < 1000 → dateNaive s < dateNaive t → s % usPerDay = 0 ∧ t % usPerDay = 0

/-- The last days, of the event and of what it is moved to, are written in four digits, and so is its
first day unless that is the first of a month. -/
def WithinFourDigits (event : EventTimes) (d : Int) : Prop :=
  ∀ a b, DateOnly host event a b →
    FourDigits (d + (b - a) - 1) ∧ (FourDigits a ∨ (civil a).day = 1) ∧ FourDigits (b - 1)

end

/-! ## Shifting -/

variable {host : Host}

theorem shiftDate_day10 {d k : Int} (h0 : -maxDay ≤ shown d) (h1 : shown d ≤ maxDay) (hd0 : -(2 * maxDay) ≤ d) (hd1 : d ≤ 2 * maxDay)
    (hk0 : -maxDay ≤ shown d + k) (hk1 : shown d + k ≤ maxDay) : shiftDate host (day10 d) k = some (day10 (shown d + k)) := by
  have hvalue : dateValue host (day10 d ++ midnightText) = some (shown d * msPerDay) := by
    unfold dateValue
    rw [instantOf_day10 host hd0 hd1 h0 h1, Option.map_some]
    exact congrArg some (midnight_div_thousand _)
  have hsum : shown d * msPerDay + k * msPerDay = (shown d + k) * msPerDay := (Int.add_mul _ _ _).symm
  have hclip : timeClip ((shown d + k) * msPerDay) = some _ := timeClip_day hk0 hk1
  unfold shiftDate
  simp only [hvalue, Option.bind_eq_bind, Option.bind_some, hsum, hclip]
  rfl

/-- Where a date is shifted at all, it is as far as the shown date. -/
theorem shiftDate_ok {d k : Int} {l : List Char} (hd0 : -(2 * maxDay) ≤ d) (hd1 : d ≤ 2 * maxDay)
    (h : shiftDate host (day10 d) k = some l) : l = day10 (shown d + k) ∧ -maxDay ≤ shown d + k ∧ shown d + k ≤ maxDay := by
  unfold shiftDate at h
  simp only [Option.bind_eq_bind] at h
  obtain ⟨time, htime, h⟩ := Option.bind_eq_some_iff.1 h
  obtain ⟨shifted, hshifted, h⟩ := Option.bind_eq_some_iff.1 h
  obtain ⟨t, ht, rfl⟩ := Option.map_eq_some_iff.1 htime
  rw [eq_of_instantOf_day10 hd0 hd1 ht] at hshifted
  have hsum : midnight (shown d) / 1000 + k * msPerDay = (shown d + k) * msPerDay :=
    (congrArg (· + k * msPerDay) (midnight_div_thousand _)).trans (Int.add_mul _ _ _).symm
  rw [hsum] at hshifted
  unfold timeClip at hshifted
  split at hshifted
  · rename_i hclip
    cases hshifted
    cases h
    have hbounds : -maxDay ≤ shown d + k ∧ shown d + k ≤ maxDay := by
      unfold maxDay msPerDay at hclip
      unfold maxDay
      omega
    exact ⟨rfl, hbounds⟩
  · cases hshifted

/-! ## Ranges -/

theorem instantOf_bounds {l : List Char} {d : Int} (h : instantOf host l = some (midnight d)) : -maxDay ≤ d ∧ d ≤ maxDay := by
  unfold instantOf at h
  simp only [Option.bind_eq_bind] at h
  obtain ⟨t, -, h⟩ := Option.bind_eq_some_iff.1 h
  obtain ⟨ms, hclip, h⟩ := Option.bind_eq_some_iff.1 h
  cases h
  have hms : midnight d / 1000 = d * msPerDay := midnight_div_thousand d
  rw [hms] at hclip
  unfold timeClip at hclip
  split at hclip
  · rename_i hin
    unfold maxDay msPerDay at hin
    unfold maxDay
    omega
  · cases hclip

theorem dateValue_midnight {l : List Char} {d : Int} (h : instantOf host l = some (midnight d)) :
    dateValue host l = some (d * msPerDay) := by
  unfold dateValue
  rw [h, Option.map_some]
  exact congrArg some (midnight_div_thousand d)

/-- What the code takes for dates: midnights to the millisecond, in order. -/
def Midnights (host : Host) (event : EventTimes) (a b : Int) : Prop :=
  event.allDay = true ∧ dateValue host event.startsAt = some (a * msPerDay) ∧ dateValue host event.endsAt = some (b * msPerDay) ∧ a < b

theorem DateOnly.midnights {event : EventTimes} {a b : Int} (h : DateOnly host event a b) : Midnights host event a b :=
  ⟨h.1, dateValue_midnight h.2.1, dateValue_midnight h.2.2.1, h.2.2.2⟩

theorem utcMidnight_iff {value : List Char} : utcMidnight host value = true ↔ ∃ d : Int, dateValue host value = some (d * msPerDay) := by
  unfold utcMidnight
  split
  · rename_i hnone
    simp [hnone]
  · rename_i time hsome
    rw [hsome, beq_iff_eq]
    constructor
    · intro h
      refine ⟨time / msPerDay, congrArg some ?_⟩
      unfold msPerDay at h ⊢
      omega
    · rintro ⟨d, hd⟩
      cases hd
      unfold msPerDay
      omega

theorem Midnights.range {event : EventTimes} {a b : Int} (h : Midnights host event a b) :
    allDayDateRange host event = (shiftDate host (day10 b) (-1)).map fun lastDay => some ⟨day10 a, lastDay⟩ := by
  obtain ⟨hall, ha, hb, hlt⟩ := h
  have hua : utcMidnight host event.startsAt = true := utcMidnight_iff.2 ⟨a, ha⟩
  have hub : utcMidnight host event.endsAt = true := utcMidnight_iff.2 ⟨b, hb⟩
  have hafter : notAfter host event.endsAt event.startsAt = false := by
    unfold notAfter
    rw [ha, hb]
    simp only [decide_eq_false_iff_not]
    unfold msPerDay
    omega
  unfold allDayDateRange isoDate
  simp only [hall, hua, hub, hafter, ha, hb, Bool.not_true, Bool.or_false, Bool.false_eq_true, if_false, Option.map_some,
    Option.bind_eq_bind, Option.bind_some]
  rw [Option.map_eq_bind]
  rfl

/-- There is no range exactly where the times are not midnights to the millisecond. -/
theorem allDayDateRange_eq_null_iff {event : EventTimes} :
    allDayDateRange host event = some none ↔ ¬ ∃ a b, Midnights host event a b := by
  constructor
  · rintro hnull ⟨a, b, h⟩
    rw [h.range] at hnull
    obtain ⟨lastDay, -, hsome⟩ := Option.map_eq_some_iff.1 hnull
    cases hsome
  · intro hno
    unfold allDayDateRange
    split
    · rfl
    · rename_i hcond
      simp only [Bool.or_eq_true, Bool.not_eq_true', not_or, Bool.not_eq_false] at hcond
      obtain ⟨⟨⟨hall, hua⟩, hub⟩, hafter⟩ := hcond
      obtain ⟨a, ha⟩ := utcMidnight_iff.1 hua
      obtain ⟨b, hb⟩ := utcMidnight_iff.1 hub
      unfold notAfter at hafter
      rw [ha, hb] at hafter
      simp only [decide_eq_true_eq] at hafter
      refine absurd ⟨a, b, hall, ha, hb, ?_⟩ hno
      unfold msPerDay at hafter
      omega

theorem Midnights.range_fourDigits {event : EventTimes} {a b : Int} (h : Midnights host event a b) (hlast : FourDigits (b - 1)) :
    allDayDateRange host event = some (some ⟨day10 a, formatDate (b - 1)⟩) := by
  have hshown : shown b = b := by
    have hnext := shown_add_one hlast
    rwa [Int.sub_add_cancel] at hnext
  have hbounds := fourDigits_bounds hlast
  have hshift : shiftDate host (day10 b) (-1) = some (day10 (shown b + -1)) := by
    refine shiftDate_day10 ?_ ?_ ?_ ?_ ?_ ?_
    all_goals
      rw [show maxDay = 100000000 from rfl]
      try rw [hshown]
      omega
  rw [h.range, hshift, hshown]
  show some (some (DateRange.mk (day10 a) (day10 (b - 1)))) = _
  rw [day10_of_fourDigits hlast]

/-- The times of a range that ends in the years of four digits, from a day that is read back. -/
theorem allDayEventTimes_dateOnly (host : Host) {a b : Int} (h0 : -maxDay ≤ a) (ha : shown a = a) (hb : FourDigits b) (hab : a ≤ b) :
    ∃ times, allDayEventTimes host (day10 a) (day10 b) = some times ∧
      ∀ event : EventTimes, event.allDay = true → DateOnly host (event.retimed times) a (b + 1) := by
  have hbounds := fourDigits_bounds hb
  have hmax : maxDay = 100000000 := rfl
  have hsb : shown b = b := shown_of_fourDigits hb
  have hnext : shown (b + 1) = b + 1 := shown_add_one hb
  have hshift : shiftDate host (day10 b) 1 = some (day10 (shown b + 1)) :=
    shiftDate_day10 (by omega) (by omega) (by omega) (by omega) (by omega) (by omega)
  rw [hsb] at hshift
  have hstart : instantOf host (day10 a ++ midnightText) = some (midnight (shown a)) :=
    instantOf_day10 host (by omega) (by omega) (by omega) (by omega)
  have hend : instantOf host (day10 (b + 1) ++ midnightText) = some (midnight (shown (b + 1))) :=
    instantOf_day10 host (by omega) (by omega) (by omega) (by omega)
  rw [ha] at hstart
  rw [hnext] at hend
  refine ⟨⟨day10 a ++ midnightText, day10 (b + 1) ++ midnightText⟩, ?_, ?_⟩
  · unfold allDayEventTimes
    rw [hshift]
    rfl
  · intro event hall
    exact ⟨hall, hstart, hend, by show (_ : Int) < _; omega⟩

/-- Where the moved event has the dates it should have, its last day is written in four digits. -/
theorem fourDigits_of_allDayEventTimes {event : EventTimes} {a b : Int} {start : List Char} {times : AllDayTimes}
    (h0 : -maxDay ≤ b) (h1 : b ≤ maxDay)
    (htimes : allDayEventTimes host start (day10 b) = some times) (h : DateOnly host (event.retimed times) a (b + 1)) :
    FourDigits b := by
  unfold allDayEventTimes at htimes
  simp only [Option.bind_eq_bind] at htimes
  obtain ⟨day, hday, htimes⟩ := Option.bind_eq_some_iff.1 htimes
  cases htimes
  have hmax : maxDay = 100000000 := rfl
  obtain ⟨rfl, hd0, hd1⟩ := shiftDate_ok (by omega) (by omega) hday
  have hend : midnight (b + 1) = midnight (shown (shown b + 1)) := eq_of_instantOf_day10 (by omega) (by omega) h.2.2.1
  have hdays : b + 1 = shown (shown b + 1) := by
    have hsame := congrArg dateNaive hend
    rwa [dateNaive_midnight, dateNaive_midnight] at hsame
  exact shown_shown_add_one_eq_iff.1 hdays.symm

/-! ## Moves -/

/-- What a move is made of. -/
theorem moveAllDayEvent_eq {event : EventTimes} {a b : Int} {range : DateRange} (h : DateOnly host event a b)
    (hrange : allDayDateRange host event = some (some range)) (start : List Char) :
    moveAllDayEvent host event start =
      (shiftDate host start (b - a - 1)).bind fun lastDay => (allDayEventTimes host start lastDay).map some := by
  obtain ⟨-, ha, hb, -⟩ := h.midnights
  have hdays : (b * msPerDay - a * msPerDay) / msPerDay - 1 = b - a - 1 := by
    unfold msPerDay
    omega
  unfold moveAllDayEvent
  simp only [hrange, ha, hb, hdays, Option.bind_eq_bind, Option.bind_some]
  congr 1
  funext lastDay
  rw [Option.map_eq_bind]
  rfl

/-- A move to a day that is read back, with the last day written in four digits. -/
theorem moveAllDayEvent_dateOnly {event : EventTimes} {a b d : Int} {range : DateRange} (h : DateOnly host event a b)
    (hrange : allDayDateRange host event = some (some range)) (h0 : -maxDay ≤ d) (hd : shown d = d)
    (hlast : FourDigits (d + (b - a) - 1)) :
    ∃ times, moveAllDayEvent host event (day10 d) = some (some times) ∧ DateOnly host (event.retimed times) d (d + (b - a)) := by
  have hlt : a < b := h.2.2.2
  have hbounds := fourDigits_bounds hlast
  have hmax : maxDay = 100000000 := rfl
  have hshift : shiftDate host (day10 d) (b - a - 1) = some (day10 (shown d + (b - a - 1))) :=
    shiftDate_day10 (by omega) (by omega) (by omega) (by omega) (by omega) (by omega)
  have hday : shown d + (b - a - 1) = d + (b - a) - 1 := by omega
  rw [hday] at hshift
  obtain ⟨times, htimes, hdates⟩ := allDayEventTimes_dateOnly host h0 hd hlast (by omega)
  refine ⟨times, ?_, ?_⟩
  · rw [moveAllDayEvent_eq h hrange, hshift, Option.bind_some, htimes]
    rfl
  · have hdates := hdates event h.1
    rwa [Int.sub_add_cancel] at hdates

/-- What a move that keeps the days comes to. -/
theorem fourDigits_of_move {event : EventTimes} {a b d : Int} {range : DateRange} {times : AllDayTimes} (h : DateOnly host event a b)
    (hrange : allDayDateRange host event = some (some range)) (h0 : -(2 * maxDay) ≤ d) (h1 : d ≤ 2 * maxDay) (hd : shown d = d)
    (hmove : moveAllDayEvent host event (day10 d) = some (some times)) (hdates : DateOnly host (event.retimed times) d (d + (b - a))) :
    FourDigits (d + (b - a) - 1) := by
  rw [moveAllDayEvent_eq h hrange] at hmove
  obtain ⟨lastDay, hshift, hmove⟩ := Option.bind_eq_some_iff.1 hmove
  obtain ⟨times', htimes, hsome⟩ := Option.map_eq_some_iff.1 hmove
  cases hsome
  obtain ⟨rfl, hk0, hk1⟩ := shiftDate_ok h0 h1 hshift
  have hday : shown d + (b - a - 1) = d + (b - a) - 1 := by omega
  rw [hday] at htimes hk0 hk1
  have hend : DateOnly host (event.retimed times) d (d + (b - a) - 1 + 1) := by rwa [Int.sub_add_cancel]
  exact fourDigits_of_allDayEventTimes hk0 hk1 htimes hend

/-- Moving keeps the days and moving back restores the times exactly within the four digits. -/
theorem movesAndReturns_iff {event : EventTimes} {d : Int} (hd : FourDigits d) :
    MovesAndReturns host event d ↔ WithinFourDigits host event d := by
  have hsd : shown d = d := shown_of_fourDigits hd
  have hbounds := fourDigits_bounds hd
  have hmax : maxDay = 100000000 := rfl
  constructor
  · intro hmoves a b h
    obtain ⟨range, moved, back, hrange, hmove, hdates, hback, hrestored⟩ := hmoves a b h
    obtain ⟨ha0, ha1⟩ := instantOf_bounds h.2.1
    rw [← day10_of_fourDigits hd] at hmove
    have hlast := fourDigits_of_move h hrange (by omega) (by omega) hsd hmove hdates
    have hrange' := hdates.midnights.range_fourDigits hlast
    -- the range starts with the first ten characters, and the event moved back starts where they say
    have hstart : range.start = day10 a := by
      have hrange₂ := hrange
      rw [h.midnights.range] at hrange₂
      obtain ⟨lastDay, -, hsome⟩ := Option.map_eq_some_iff.1 hrange₂
      cases hsome
      rfl
    rw [hstart] at hback
    have hsa : shown a = a := by
      rw [moveAllDayEvent_eq hdates hrange'] at hback
      obtain ⟨lastDay, -, hback⟩ := Option.bind_eq_some_iff.1 hback
      obtain ⟨times, htimes, hsome⟩ := Option.map_eq_some_iff.1 hback
      cases hsome
      unfold allDayEventTimes at htimes
      simp only [Option.bind_eq_bind] at htimes
      obtain ⟨day, -, htimes⟩ := Option.bind_eq_some_iff.1 htimes
      cases htimes
      have hsame : midnight a = midnight (shown a) := eq_of_instantOf_day10 (by omega) (by omega) hrestored.2.1
      have hsame := congrArg dateNaive hsame
      rw [dateNaive_midnight, dateNaive_midnight] at hsame
      exact hsame.symm
    have hdays : a + (d + (b - a) - d) = b := by omega
    rw [← hdays] at hrestored
    have hend := fourDigits_of_move hdates hrange' (by omega) (by omega) hsa hback hrestored
    rw [hdays] at hend
    exact ⟨hlast, shown_eq_iff.1 hsa, hend⟩
  · intro hwithin a b h
    obtain ⟨hlast, hfirst, hend⟩ := hwithin a b h
    obtain ⟨ha0, ha1⟩ := instantOf_bounds h.2.1
    have hsa : shown a = a := shown_eq_iff.2 hfirst
    have hrange := h.midnights.range_fourDigits hend
    obtain ⟨moved, hmove, hdates⟩ := moveAllDayEvent_dateOnly h hrange (by omega) hsd hlast
    have hrange' := hdates.midnights.range_fourDigits hlast
    have hdays : a + (d + (b - a) - d) = b := by omega
    have hlast' : FourDigits (a + (d + (b - a) - d) - 1) := by rwa [hdays]
    obtain ⟨back, hback, hrestored⟩ := moveAllDayEvent_dateOnly hdates hrange' ha0 hsa hlast'
    rw [hdays] at hrestored
    rw [day10_of_fourDigits hd] at hmove
    exact ⟨_, moved, back, hrange, hmove, hdates, hback, hrestored⟩

/-! ## The dates of every event -/

theorem rangeKept {start lastDay : Int} (hs : FourDigits start) (hl : FourDigits lastDay) (hle : start ≤ lastDay) :
    RangeKept host start lastDay := by
  have hbounds := fourDigits_bounds hs
  have hmax : maxDay = 100000000 := rfl
  obtain ⟨times, htimes, hdates⟩ :=
    allDayEventTimes_dateOnly host (by omega) (shown_of_fourDigits hs) hl hle
  have hdates := hdates ⟨true, [], []⟩ rfl
  have hlast : FourDigits (lastDay + 1 - 1) := by rwa [Int.add_sub_cancel]
  have hrange := hdates.midnights.range_fourDigits hlast
  rw [Int.add_sub_cancel, day10_of_fourDigits hs] at hrange
  rw [day10_of_fourDigits hs, day10_of_fourDigits hl] at htimes
  exact ⟨times, htimes, hrange⟩

/-- A time is at a midnight to the millisecond. -/
theorem dateValue_midnight_iff {value : List Char} {d : Int} : dateValue host value = some (d * msPerDay) ↔
    ∃ t, instantOf host value = some t ∧ dateNaive t = d ∧ t % usPerDay < 1000 := by
  unfold dateValue
  rw [Option.map_eq_some_iff]
  refine exists_congr fun t => and_congr_right fun _ => ?_
  show (_ : Int) = _ ↔ (_ : Int) = _ ∧ _
  unfold dateNaive msPerDay usPerDay
  omega

/-- The code has no range exactly where there are no dates, if no time is a midnight but for its microseconds. -/
theorem nullWhereNoDates_iff {event : EventTimes} : NullWhereNoDates host event ↔ WholeMidnights host event := by
  unfold NullWhereNoDates
  rw [allDayDateRange_eq_null_iff, not_iff_not]
  constructor
  · intro hsame s t hall hs ht hs0 ht0 hlt
    have hmid : Midnights host event (dateNaive s) (dateNaive t) :=
      ⟨hall, dateValue_midnight_iff.2 ⟨s, hs, rfl, hs0⟩, dateValue_midnight_iff.2 ⟨t, ht, rfl, ht0⟩, hlt⟩
    obtain ⟨a, b, -, ha, hb, -⟩ := hsame.1 ⟨_, _, hmid⟩
    rw [hs] at ha
    rw [ht] at hb
    cases ha
    cases hb
    constructor
    · exact Int.mul_emod_left a usPerDay
    · exact Int.mul_emod_left b usPerDay
  · intro hwhole
    constructor
    · rintro ⟨a, b, hall, ha, hb, hlt⟩
      obtain ⟨s, hs, rfl, hs0⟩ := dateValue_midnight_iff.1 ha
      obtain ⟨t, ht, rfl, ht0⟩ := dateValue_midnight_iff.1 hb
      obtain ⟨hs1, ht1⟩ := hwhole s t hall hs ht hs0 ht0 hlt
      have hmid : ∀ u : Int, u % usPerDay = 0 → midnight (dateNaive u) = u := fun u hu => Int.ediv_mul_cancel (Int.dvd_of_emod_eq_zero hu)
      refine ⟨dateNaive s, dateNaive t, hall, ?_, ?_, hlt⟩
      · rw [hs, hmid s hs1]
      · rw [ht, hmid t ht1]
    · rintro ⟨a, b, h⟩
      exact ⟨a, b, h.midnights⟩

/-- Dates and instants convert without drift exactly for the events whose times are whole midnights, as far as
their dates and those they are moved to are written in ten characters. -/
theorem dates_convert_iff (host : Host) (event : EventTimes) {d : Int} (hd : FourDigits d) :
    ((∀ start lastDay : Int, FourDigits start → FourDigits lastDay → start ≤ lastDay → lastDay < daysOf ⟨9999, 12, 31⟩ →
        RangeKept host start lastDay) ∧
      MovesAndReturns host event d ∧ NullWhereNoDates host event) ↔
    WithinFourDigits host event d ∧ WholeMidnights host event := by
  rw [movesAndReturns_iff hd, nullWhereNoDates_iff]
  constructor
  · rintro ⟨-, hwithin, hwhole⟩
    exact ⟨hwithin, hwhole⟩
  · rintro ⟨hwithin, hwhole⟩
    exact ⟨fun start lastDay hs hl hle _ => rangeKept hs hl hle, hwithin, hwhole⟩

/-- A machine in UTC whose engine reads no text outside the format. -/
def utcHost : Host := ⟨id, id, fun _ => none⟩

/-- Two days of September 2026. -/
def twoDays : EventTimes := ⟨true, "2026-09-01T00:00:00Z".toList, "2026-09-03T00:00:00Z".toList⟩

theorem dates_convert_iff_newYearsEve :
    ((∀ start lastDay : Int, FourDigits start → FourDigits lastDay → start ≤ lastDay → lastDay < daysOf ⟨9999, 12, 31⟩ →
        RangeKept utcHost start lastDay) ∧
      MovesAndReturns utcHost twoDays (daysOf ⟨2026, 12, 31⟩) ∧ NullWhereNoDates utcHost twoDays) ↔
    WithinFourDigits utcHost twoDays (daysOf ⟨2026, 12, 31⟩) ∧ WholeMidnights utcHost twoDays :=
  dates_convert_iff utcHost twoDays (by decide)

/-- The same two days, half a millisecond after midnight. -/
def lateDays : EventTimes := ⟨true, "2026-09-01T00:00:00.000500Z".toList, "2026-09-03T00:00:00.000500Z".toList⟩

/-- Two days moved to 9999-12-31 end on that day, and times past midnight are taken for dates. -/
theorem last_year_loses_day :
    FourDigits (daysOf ⟨9999, 12, 31⟩) ∧ ¬ MovesAndReturns utcHost twoDays (daysOf ⟨9999, 12, 31⟩) ∧
      ¬ NullWhereNoDates utcHost lateDays := by
  refine ⟨by decide, ?_, ?_⟩
  · intro hmoves
    have hdates : DateOnly utcHost twoDays (daysOf ⟨2026, 9, 1⟩) (daysOf ⟨2026, 9, 3⟩) := by
      refine ⟨rfl, ?_, ?_, ?_⟩ <;> decide
    obtain ⟨range, moved, back, -, hmove, hkept, -⟩ := hmoves _ _ hdates
    have hmoved : moveAllDayEvent utcHost twoDays (formatDate (daysOf ⟨9999, 12, 31⟩)) =
        some (some ⟨"9999-12-31T00:00:00.000Z".toList, "+010000-01T00:00:00.000Z".toList⟩) := by
      decide +kernel
    rw [hmoved] at hmove
    cases hmove
    have hend : instantOf utcHost "+010000-01T00:00:00.000Z".toList = some (midnight (daysOf ⟨10000, 1, 1⟩)) := by decide
    have hkept : instantOf utcHost "+010000-01T00:00:00.000Z".toList = _ := hkept.2.2.1
    rw [hend] at hkept
    exact absurd hkept (by decide)
  · intro hnull
    have hrange : allDayDateRange utcHost lateDays = some (some ⟨"2026-09-01".toList, "2026-09-02".toList⟩) := by decide +kernel
    have hnone : ¬ ∃ a b, DateOnly utcHost lateDays a b := by
      rintro ⟨a, b, -, ha, -⟩
      have hstart : instantOf utcHost lateDays.startsAt = some (midnight (daysOf ⟨2026, 9, 1⟩) + 500) := by decide
      rw [hstart] at ha
      have hoff : (1788220800000500 : Int) = a * 86400000000 := Option.some.inj ha
      omega
    rw [hnull.2 hnone] at hrange
    cases hrange

end Prosepect.Web
