/-
`calendar_store.rs`, `list_calendar_events`: the events of a window of time, and the one kind of
occurrence it misses (`window_complete_iff`).
-/
import Prosepect.Calendar.Occurrences
import Prosepect.Store.Actions

namespace Prosepect

open Time

structure CalendarEventQuery where
  startsBefore : DateTime
  endsAfter : DateTime
  calendarId : Option Uuid
deriving DecidableEq, Repr

namespace Store

/-- `ORDER BY starts_at, ends_at, id`. -/
def eventBefore (a b : CalendarEvent) : Bool :=
  decide (a.startsAt < b.startsAt ∨ a.startsAt = b.startsAt ∧
    (a.endsAt < b.endsAt ∨ a.endsAt = b.endsAt ∧ a.id ≤ b.id))

/-- The `WHERE` clause. -/
def inWindow (query : CalendarEventQuery) (e : CalendarEvent) : Prop :=
  (∀ calendar, query.calendarId = some calendar → e.calendarId = calendar) ∧
    ((e.startsAt < query.startsBefore ∧ query.endsAfter < e.endsAt) ∨
      (e.recurrence ≠ .none ∧ e.startsAt < query.startsBefore ∧
        ∀ until_, e.recurrenceUntil = some until_ → query.endsAfter < until_))

instance (query : CalendarEventQuery) (e : CalendarEvent) : Decidable (inWindow query e) :=
  inferInstanceAs (Decidable ((∀ calendar ∈ query.calendarId, e.calendarId = calendar) ∧
    (_ ∨ (_ ∧ _ ∧ ∀ until_ ∈ e.recurrenceUntil, query.endsAfter < until_))))

def listCalendarEvents (query : CalendarEventQuery) (db : Db) : Except AppError (List CalendarEvent) :=
  if query.startsBefore ≤ query.endsAfter then .error (.validation "starts_before must be after ends_after")
  else .ok ((db.events.filter fun e => decide (inWindow query e)).insertionSort fun a b => eventBefore a b = true)

variable {query : CalendarEventQuery} {db : Db} {e : CalendarEvent}

theorem listed_iff (hwindow : query.endsAfter < query.startsBefore) (he : e ∈ db.events) :
    (∃ items, listCalendarEvents query db = .ok items ∧ e ∈ items) ↔ inWindow query e := by
  unfold listCalendarEvents
  rw [if_neg (not_le.2 hwindow)]
  simp [he]

/-- The occurrence that starts at `u` overlaps the window. -/
def Overlaps (query : CalendarEventQuery) (e : CalendarEvent) (u : DateTime) : Prop :=
  u < query.startsBefore ∧ query.endsAfter < u + (e.endsAt - e.startsAt)

/-- The series is over when the window begins, and so is its first occurrence, but a later one that
started in time is still going on. -/
def Outlasting (clock : WallClock) (query : CalendarEventQuery) (e : CalendarEvent) : Prop :=
  (∃ until_, e.recurrenceUntil = some until_ ∧ until_ ≤ query.endsAfter) ∧ e.endsAt ≤ query.endsAfter ∧
    ∃ u, Occurs clock e u ∧ query.endsAfter < u + (e.endsAt - e.startsAt)

/-- A window misses no occurrence of an event, exactly when none is still going on after the end of the
series. -/
theorem window_complete_iff (clock : WallClock) (hwindow : query.endsAfter < query.startsBefore) (he : e ∈ db.events)
    (hcalendar : ∀ calendar, query.calendarId = some calendar → e.calendarId = calendar) :
    (∀ u, Occurs clock e u → Overlaps query e u → ∃ items, listCalendarEvents query db = .ok items ∧ e ∈ items) ↔
      ¬ Outlasting clock query e := by
  simp only [listed_iff hwindow he]
  constructor
  · rintro hall ⟨⟨until_, hu, hle⟩, hends, u, hoccurs, hlate⟩
    have hbefore : u < query.startsBefore := ((hoccurs.2 until_ hu).trans hle).trans_lt hwindow
    obtain ⟨-, ⟨-, hlt⟩ | ⟨-, -, hlt⟩⟩ := hall u hoccurs ⟨hbefore, hlate⟩
    · exact absurd hends (not_le.2 hlt)
    · exact absurd hle (not_le.2 (hlt until_ hu))
  · intro hnot u hoccurs hoverlaps
    have hstart : e.startsAt < query.startsBefore := hoccurs.startsAt_le.trans_lt hoverlaps.1
    refine ⟨hcalendar, ?_⟩
    by_cases hends : query.endsAfter < e.endsAt
    · exact .inl ⟨hstart, hends⟩
    · refine .inr ⟨?_, hstart, fun until_ hu => ?_⟩
      · -- the first occurrence is over
        rcases hoccurs.1 with rfl | ⟨hrule, -, -⟩
        · have hlate : query.endsAfter < e.startsAt + (e.endsAt - e.startsAt) := hoverlaps.2
          rw [add_sub_cancel] at hlate
          exact absurd hlate hends
        · exact hrule
      · by_contra hle
        exact hnot ⟨⟨until_, hu, not_lt.1 hle⟩, not_lt.1 hends, u, hoccurs, hoverlaps.2⟩

/-! ## A last night -/

/-- An event of four hours, on two days. -/
def night : CalendarEvent where
  id := 1
  title := "Watch"
  description := ""
  startsAt := 0
  endsAt := 14400000000
  allDay := false
  timezone := "UTC"
  location := ""
  attendees := []
  recurrence := .daily
  recurrenceUntil := some 86400000000
  calendarId := 0
  linkedTaskId := none
  createdAt := 0
  updatedAt := 0
  version := 1

def nights : Db := { (Workspace.initial 0 2 none false).db with events := [night] }

/-- The afternoon of the first day, and the second night from its second hour on. -/
def afternoon : CalendarEventQuery := ⟨72000000000, 50000000000, none⟩

def lastNight : CalendarEventQuery := ⟨172800000000, 90000000000, none⟩

theorem night_occurs : Occurs .utc night 86400000000 := by
  refine ⟨.inr ⟨by decide, by decide, 1, by decide, by decide⟩, fun until_ h => ?_⟩
  cases h
  exact le_rfl

/-- The second occurrence is missed while it is going on. -/
theorem last_night_missed : ¬ ∀ (clock : WallClock) (query : CalendarEventQuery) (db : Db) (e : CalendarEvent),
    query.endsAfter < query.startsBefore → e ∈ db.events →
    (∀ calendar, query.calendarId = some calendar → e.calendarId = calendar) →
    ∀ u, Occurs clock e u → Overlaps query e u → ∃ items, listCalendarEvents query db = .ok items ∧ e ∈ items := by
  intro h
  have hlisted := h .utc lastNight nights night (by decide) (by decide) (by simp [lastNight]) _ night_occurs
    ⟨by decide, by decide⟩
  rw [listed_iff (by decide) (by decide)] at hlisted
  exact absurd hlisted (by decide)

theorem window_complete_iff_afternoon :
    (∀ u, Occurs .utc night u → Overlaps afternoon night u →
      ∃ items, listCalendarEvents afternoon nights = .ok items ∧ night ∈ items) ↔ ¬ Outlasting .utc afternoon night :=
  window_complete_iff .utc (by decide) (by decide) (by simp [afternoon])

end Store

end Prosepect
