/-
A deadline that is moved to another day: the wall clock time it is asked for, and when the zone of
the connection has it (`deadline_keeps_wall`).
-/
import Prosepect.Data.Zone
import Prosepect.GoogleTasks.Links

namespace Prosepect

open Time

namespace GoogleTasks

/-- The time of day of the deadline there is, or a second before midnight. -/
def timeOfDay (zone : Zone) (existing : Option DateTime) : Int :=
  match existing with
  | some t => zone.wall t % usPerDay
  | none => usPerDay - usPerSecond

theorem timeOfDay_bounds (zone : Zone) (existing : Option DateTime) :
    0 ≤ timeOfDay zone existing ∧ timeOfDay zone existing < usPerDay := by
  cases existing with
  | none => norm_num [timeOfDay, usPerDay, usPerSecond]
  | some t => exact ⟨Int.emod_nonneg _ (by norm_num [usPerDay]), Int.emod_lt_of_pos _ (by norm_num [usPerDay])⟩

/-- The wall clock time that is asked for. -/
def requestedWall (zone : Zone) (date : NaiveDate) (existing : Option DateTime) : Int :=
  midnight date + timeOfDay zone existing

theorem day_and_time_iff (wall date time : Int) (h0 : 0 ≤ time) (h1 : time < usPerDay) :
    wall = midnight date + time ↔ dateNaive wall = date ∧ wall % usPerDay = time := by
  have h1' : time < 86400000000 := h1
  show wall = date * 86400000000 + time ↔ (wall / 86400000000 : Int) = date ∧ wall % 86400000000 = time
  omega

/-- The requested wall clock time is on the requested day. -/
theorem wall_eq_requested_iff {zone : Zone} {date : NaiveDate} {existing : Option DateTime} {wall : Int} :
    wall = requestedWall zone date existing ↔ dateNaive wall = date ∧ wall % usPerDay = timeOfDay zone existing := by
  obtain ⟨h0, h1⟩ := timeOfDay_bounds zone existing
  exact day_and_time_iff wall date _ h0 h1

/-- The instant that is tried. -/
def chosenInstant (zone : Zone) (date : NaiveDate) (existing : Option DateTime) : DateTime :=
  match existing with
  | some t =>
    if zone.wall (requestedWall zone date existing - (zone.wall t - t)) = requestedWall zone date existing then
      requestedWall zone date existing - (zone.wall t - t)
    else zone.instant (requestedWall zone date existing)
  | none => zone.instant (requestedWall zone date existing)

theorem deadline_eq (zone : Zone) (date : NaiveDate) (existing : Option DateTime) :
    zone.deadline (some date) existing =
      if zone.wall (chosenInstant zone date existing) = requestedWall zone date existing then
        .ok (some (chosenInstant zone date existing))
      else .error (.conflict "That date has no matching local deadline time. Choose a deadline in prosepect.") := by
  cases existing <;> rfl

/-- A zone of PostgreSQL. -/
def postgres (z : TimeZone) : Zone := ⟨z.wall, z.instant⟩

variable {z : TimeZone} {date : NaiveDate} {existing : Option DateTime}

/-- The instant that is tried shows the requested time, if any does. -/
theorem wall_chosenInstant {t : DateTime} (h : z.wall t = requestedWall (postgres z) date existing) :
    z.wall (chosenInstant (postgres z) date existing) = requestedWall (postgres z) date existing := by
  have hstandard := TimeZone.wall_instant h
  cases existing with
  | none => exact hstandard
  | some e =>
    unfold chosenInstant
    simp only
    split
    · assumption
    · exact hstandard

/-- A deadline that is moved to another day keeps its wall clock time, if that day has it: of two
instants it takes the one with the offset of the deadline there was. -/
theorem deadline_keeps_wall (z : TimeZone) (date : NaiveDate) (existing : Option DateTime) :
    (∀ r, (postgres z).deadline (some date) existing = .ok r → ∃ t, r = some t ∧
      dateNaive (z.wall t) = date ∧ z.wall t % usPerDay = timeOfDay (postgres z) existing ∧
      ∀ task : Task, task.dueAt = r → (googleTaskFields (postgres z) task).date = some date) ∧
    ((∃ e, (postgres z).deadline (some date) existing = .error e) ↔
      ¬ ∃ t, dateNaive (z.wall t) = date ∧ z.wall t % usPerDay = timeOfDay (postgres z) existing) ∧
    (∀ e t, existing = some e → dateNaive (z.wall t) = date → z.wall t % usPerDay = z.wall e % usPerDay →
      z.offset t = z.offset e → (postgres z).deadline (some date) existing = .ok (some t)) ∧
    (postgres z).deadline none existing = .ok none := by
  refine ⟨fun r h => ?_, ?_, fun e t he hdate htime hoffset => ?_, rfl⟩
  · rw [deadline_eq] at h
    split at h
    · cases h
      obtain ⟨hdate, htime⟩ := wall_eq_requested_iff.1 ‹_›
      refine ⟨_, rfl, hdate, htime, fun task hdue => ?_⟩
      unfold googleTaskFields
      rw [hdue, Option.map_some]
      exact congrArg some hdate
    · cases h
  · rw [deadline_eq]
    simp only [← wall_eq_requested_iff]
    constructor
    · rintro ⟨e, he⟩ ⟨t, ht⟩
      have hshown : (postgres z).wall (chosenInstant (postgres z) date existing) = requestedWall (postgres z) date existing :=
        wall_chosenInstant ht
      rw [if_pos hshown] at he
      cases he
    · intro h
      have hnone : (postgres z).wall (chosenInstant (postgres z) date existing) ≠ requestedWall (postgres z) date existing :=
        fun hc => h ⟨_, hc⟩
      rw [if_neg hnone]
      exact ⟨_, rfl⟩
  · subst he
    have hwall : z.wall t = requestedWall (postgres z) date (some e) := wall_eq_requested_iff.2 ⟨hdate, htime⟩
    have hsame : requestedWall (postgres z) date (some e) - ((postgres z).wall e - e) = t := by
      rw [← hwall]
      show t + z.offset t - (e + z.offset e - e) = t
      rw [hoffset]
      ring
    have hchosen : chosenInstant (postgres z) date (some e) = t := by
      unfold chosenInstant
      simp only [hsame]
      rw [if_pos (show (postgres z).wall t = _ from hwall)]
    rw [deadline_eq, hchosen, if_pos (show (postgres z).wall t = _ from hwall)]

/-- Clocks go back from two hours ahead of UTC to one. -/
def backward : TimeZone := ⟨7200000000, [(0, 3600000000)], by decide⟩

/-- Half past one comes twice; the deadline of the day before had the first offset. -/
theorem deadline_keeps_wall_backward :
    (postgres backward).deadline (some 0) (some (-88200000000)) = .ok (some (-1800000000)) :=
  (deadline_keeps_wall backward 0 (some (-88200000000))).2.2.1 _ _ rfl (by decide) (by decide) (by decide)

end GoogleTasks

end Prosepect
