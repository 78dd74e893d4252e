/-
The occurrences of an event: the days a rule repeats a day on, and the instants they start at on a
clock. An UNTIL is the last instant at which one may start.
-/
import Prosepect.Store.Schema

namespace Prosepect

open Time

/-- The wall clock at an instant, and the instant that is taken for a wall clock time. -/
structure WallClock where
  wall : DateTime → Int
  instant : Int → DateTime

/-- The clock of UTC. -/
def WallClock.utc : WallClock := ⟨id, id⟩

/-- The rule repeats what starts on day `s` on day `d`. A month without that day is left out. -/
def RepeatsOn (rule : EventRecurrence) (s d : NaiveDate) : Prop :=
  match rule with
  | .none => d = s
  | .daily => s ≤ d
  | .weekly => s ≤ d ∧ (d - s) % 7 = 0
  | .monthly => s ≤ d ∧ (civil d).day = (civil s).day
  | .yearly => s ≤ d ∧ (civil d).month = (civil s).month ∧ (civil d).day = (civil s).day

instance (rule : EventRecurrence) (s d : NaiveDate) : Decidable (RepeatsOn rule s d) :=
  match rule with
  | .none => inferInstanceAs (Decidable (d = s))
  | .daily => inferInstanceAs (Decidable (s ≤ d))
  | .weekly => inferInstanceAs (Decidable (s ≤ d ∧ (d - s) % 7 = 0))
  | .monthly => inferInstanceAs (Decidable (s ≤ d ∧ _))
  | .yearly => inferInstanceAs (Decidable (s ≤ d ∧ _ ∧ _))

theorem RepeatsOn.le {rule : EventRecurrence} {s d : Int} (h : RepeatsOn rule s d) : s ≤ d := by
  cases rule with
  | none => exact le_of_eq (Eq.symm h)
  | daily => exact h
  | weekly => exact h.1
  | monthly => exact h.1
  | yearly => exact h.1

/-- The first day is one of them. -/
theorem repeatsOn_self (rule : EventRecurrence) (s : Int) : RepeatsOn rule s s := by
  cases rule with
  | none => rfl
  | daily => exact le_refl s
  | weekly => exact ⟨le_refl s, by simp⟩
  | monthly => exact ⟨le_refl s, rfl⟩
  | yearly => exact ⟨le_refl s, rfl, rfl⟩

/-- The wall clock time of an occurrence on a day: the one of the first start. -/
def wallOn (clock : WallClock) (startsAt : DateTime) (d : NaiveDate) : Int := midnight d + clock.wall startsAt % usPerDay

/-- An occurrence of the event starts at `u`. -/
def Occurs (clock : WallClock) (e : CalendarEvent) (u : DateTime) : Prop :=
  (u = e.startsAt ∨ e.recurrence ≠ .none ∧ e.startsAt < u ∧
    ∃ d, RepeatsOn e.recurrence (dateNaive (clock.wall e.startsAt)) d ∧ u = clock.instant (wallOn clock e.startsAt d)) ∧
  ∀ until_, e.recurrenceUntil = some until_ → u ≤ until_

theorem Occurs.startsAt_le {clock : WallClock} {e : CalendarEvent} {u : DateTime} (h : Occurs clock e u) : e.startsAt ≤ u := by
  rcases h.1 with rfl | ⟨-, hlt, -⟩
  · exact le_rfl
  · exact le_of_lt hlt

end Prosepect
