/-
The CHECK constraints an event of Google has to meet to be stored, as conditions on what Google
sends (`GoogleEvent.Fits`). Nothing between the two enforces them: an event that does not fit
cannot be stored, and stops the pull it arrives with.
-/
import Prosepect.Calendar.Outcomes

namespace Prosepect

open Text Time Resumption SyncService

namespace Db

/-- The CHECK constraints of `tasks` on the columns a remote event writes. -/
def checkTask (title description : String) (start end_ : Option DateTime) : Except SqlError Unit := do
  unless 1 ≤ (sqlTrim title).length ∧ (sqlTrim title).length ≤ 240 do throw (.check "tasks_title_check")
  unless description.length ≤ 10000 do throw (.check "tasks_description_check")
  match start, end_ with
  | none, none => return ()
  | some start, some end_ => unless end_ > start do throw (.check "tasks_check1")
  | _, _ => throw (.check "tasks_check1")

/-- The constraints of `calendar_events`, all at once. -/
theorem checkEvent_ok_iff (e : LocalEvent) : checkEvent e = .ok () ↔
    (1 ≤ (sqlTrim e.title).length ∧ (sqlTrim e.title).length ≤ 240) ∧ e.description.length ≤ 10000 ∧
    (1 ≤ e.timezone.length ∧ e.timezone.length ≤ 64) ∧ e.location.length ≤ 500 ∧ e.startsAt < e.endsAt ∧
    (e.recurrence ≠ .none ∨ e.recurrenceUntil = none) := by
  unfold checkEvent
  simp only [require_ok_iff, require_last_iff, gt_iff_lt]

/-- A task takes what an event could. -/
theorem checkTask_of_event {e : LocalEvent} (h : checkEvent e = .ok ()) :
    checkTask e.title e.description (some e.startsAt) (some e.endsAt) = .ok () := by
  obtain ⟨ht, hd, -, -, hs, -⟩ := (checkEvent_ok_iff e).1 h
  unfold checkTask
  simp only [ht, hd, hs, and_self, if_true]
  rfl

end Db

/-- An event that is not cancelled, with a start and an end that say when, the end not before the start. -/
structure GoogleEvent.Dated (event : GoogleEvent) (start end_ : GoogleEventTime) (s e : DateTime) : Prop where
  live : event.cancelled = false
  hasStart : event.start = some start
  hasEnd : event.end = some end_
  startsAt : eventTime start = .ok s
  endsAt : eventTime end_ = .ok e
  ordered : s ≤ e

/-- What an event of Google would have to be like to be stored: the bounds on its texts, a duration,
and no end of a recurrence whose frequency is not one of the four. -/
structure GoogleEvent.Fits (event : GoogleEvent) (start : GoogleEventTime) (s e : DateTime) : Prop where
  title : ∀ summary, event.summary = some summary → 1 ≤ (sqlTrim summary).length ∧ (sqlTrim summary).length ≤ 240
  description : event.description.length ≤ 10000
  location : event.location.length ≤ 500
  timezone : ∀ zone, start.timeZone = some zone → 1 ≤ zone.length ∧ zone.length ≤ 64
  lasting : s ≠ e
  until_ : (parseRecurrence event.recurrence).1 = .none → (parseRecurrence event.recurrence).2 = none

/-- The event becomes a record that meets every constraint, on its row and on that of a task. -/
def GoogleEvent.Storable (event : GoogleEvent) : Prop :=
  ∃ n, normalizeEvent event = .ok n ∧ (∀ id, Db.checkEvent (n.toLocal id) = .ok ()) ∧
    Db.checkTask n.title n.description (some n.startsAt) (some n.endsAt) = .ok ()

/-- Delivered into any tables that have the calendar, the event does not stop the pull. -/
def GoogleEvent.Passable (event : GoogleEvent) : Prop :=
  ∀ {σ : Type} (P : Provider σ) (g : σ) (calendar : SyncCalendar) (db : Db), db.Valid →
    (db.calendar? calendar.id).isSome → ((applyRemoteEvent calendar event).run (exec P) (db, g)).1 = .ok ()

section Normalized

variable {event : GoogleEvent} {start end_ : GoogleEventTime} {s e : DateTime}

theorem normalizeEvent_dated (h : event.Dated start end_ s e) : normalizeEvent event = .ok
    { title := event.summary.getD "Untitled event"
      description := event.description
      startsAt := s, endsAt := e, allDay := start.dateTime.isNone
      timezone := start.timeZone.getD "UTC"
      location := event.location
      attendees := event.attendees.map (·.email)
      recurrence := (parseRecurrence event.recurrence).1
      recurrenceUntil := (parseRecurrence event.recurrence).2 } := by
  unfold normalizeEvent
  simp only [h.hasStart, h.hasEnd, h.startsAt, h.endsAt]
  rfl

/-- Of the constraints, what Google's side has to see to. -/
theorem storable_iff_fits (h : event.Dated start end_ s e) : event.Storable ↔ event.Fits start s e := by
  have hn := normalizeEvent_dated h
  constructor
  · rintro ⟨n, hn', hchecks, -⟩
    rw [hn] at hn'
    obtain rfl := Except.ok.inj hn'
    obtain ⟨ht, hd, htz, hl, hs, hr⟩ := (Db.checkEvent_ok_iff _).1 (hchecks 0)
    constructor
    · intro summary hsummary
      simpa [NormalizedEvent.toLocal, hsummary] using ht
    · exact hd
    · exact hl
    · intro zone hzone
      simpa [NormalizedEvent.toLocal, hzone] using htz
    · exact ne_of_lt hs
    · intro hnone
      exact hr.resolve_left fun hne => hne hnone
  · intro hf
    have hcheck : ∀ id, Db.checkEvent (NormalizedEvent.toLocal
        { title := event.summary.getD "Untitled event"
          description := event.description
          startsAt := s, endsAt := e, allDay := start.dateTime.isNone
          timezone := start.timeZone.getD "UTC"
          location := event.location
          attendees := event.attendees.map (·.email)
          recurrence := (parseRecurrence event.recurrence).1
          recurrenceUntil := (parseRecurrence event.recurrence).2 } id) = .ok () := by
      intro id
      rw [Db.checkEvent_ok_iff]
      refine ⟨?_, hf.description, ?_, hf.location, lt_of_le_of_ne h.ordered hf.lasting, ?_⟩
      · show 1 ≤ (sqlTrim (event.summary.getD "Untitled event")).length ∧
          (sqlTrim (event.summary.getD "Untitled event")).length ≤ 240
        have huntitled : 1 ≤ (sqlTrim "Untitled event").length ∧ (sqlTrim "Untitled event").length ≤ 240 := by decide
        cases hsummary : event.summary with
        | none => simpa only [Option.getD_none] using huntitled
        | some summary => simpa only [Option.getD_some] using hf.title summary hsummary
      · show 1 ≤ (start.timeZone.getD "UTC").length ∧ (start.timeZone.getD "UTC").length ≤ 64
        have hutc : 1 ≤ "UTC".length ∧ "UTC".length ≤ 64 := by decide
        cases hzone : start.timeZone with
        | none => simpa only [Option.getD_none] using hutc
        | some zone => simpa only [Option.getD_some] using hf.timezone zone hzone
      · by_cases hr : (parseRecurrence event.recurrence).1 = .none
        · exact .inr (hf.until_ hr)
        · exact .inl hr
    have htask := Db.checkTask_of_event (hcheck 0)
    exact ⟨_, hn, hcheck, htask⟩

end Normalized

section Delivered

variable {event : GoogleEvent} {n : NormalizedEvent} {σ : Type} {P : Provider σ} {g : σ} {calendar : SyncCalendar} {db : Db}

/-- Whatever a delivery of storable content decides on succeeds. -/
theorem run_exit_storable (hv : db.Valid) {externalId : String}
    (hn : event.cancelled = true ∨ ∃ n, normalizeEvent event = .ok n ∧ db.storable calendar.id n = true) :
    (((exitOf externalId event db.policy ((db.mappingAt? calendar.externalId externalId).map db.mappingState)).perform
      calendar event).run (exec P) (db, g)).1 = .ok () := by
  cases hm : db.mappingAt? calendar.externalId externalId with
  | none =>
    simp only [Option.map_none, exitOf]
    by_cases hc : event.cancelled = true
    · rw [if_pos hc]
      rfl
    · obtain ⟨n, hn, hs⟩ := hn.resolve_left hc
      rw [if_neg hc, hn]
      obtain ⟨db', hrun, -⟩ := run_importNew_ok P g calendar event n hv hm hs
      rw [hrun]
  | some m =>
    obtain ⟨hmem, -, -⟩ := hv.mappingAt?_eq_some.1 hm
    have hconflict : ∀ title, (((Exit.conflict (db.mappingState m) title).perform calendar event).run (exec P) (db, g)).1 =
        .ok () := by
      intro title
      show ((createConflict (db.mappingState m) title).run (exec P) (db, g)).1 = _
      rw [run_createConflict hv hmem]
    have hremove : (((Exit.remove (db.mappingState m)).perform calendar event).run (exec P) (db, g)).1 = .ok () := by
      rw [run_remove]
    simp only [Option.map_some, exitOf]
    by_cases ht : (db.mappingState m).reversibleTombstone = true
    · rw [if_pos ht]
      unfold exitTombstone
      split
      · exact congrArg Prod.fst (run_sql_ok rfl)
      · split
        · rw [run_holdConflict hv hmem]
        · rfl
    · rw [if_neg ht]
      by_cases hc : event.cancelled = true
      · rw [if_pos hc]
        unfold exitCancelled
        split
        · split
          · exact hconflict _
          · split
            · exact congrArg Prod.fst (run_sql_ok rfl)
            · exact hremove
        · exact hremove
      · obtain ⟨n, hn, hs⟩ := hn.resolve_left hc
        have hoverwrite : (((Exit.overwrite (db.mappingState m) n).perform calendar event).run (exec P) (db, g)).1 =
            .ok () := by
          obtain ⟨db', hrun, -⟩ := run_overwrite_ok P g calendar event n hv hmem hs
          rw [hrun]
        rw [if_neg hc, hn]
        unfold exitChanged
        dsimp only
        split
        · rfl
        · split
          · split
            · exact hconflict _
            · split
              · exact congrArg Prod.fst (run_sql_ok rfl)
              · exact hoverwrite
          · exact hoverwrite

/-- A storable event can be delivered anywhere. -/
theorem passable_of_storable (h : event.Storable) : event.Passable := by
  obtain ⟨n, hn, hcheck, -⟩ := h
  intro σ P g calendar db hv hcal
  cases hid : event.id with
  | none => rw [run_applyRemoteEvent_none calendar hid]
  | some externalId =>
    rw [run_applyRemoteEvent calendar hid]
    exact run_exit_storable hv (.inr ⟨n, hn, Db.storable_iff.2 ⟨hcheck 0, hcal⟩⟩)

end Delivered

/-- An event of one instant. -/
def instantEvent : GoogleEvent where
  id := some "reminder"
  etag := some "1"
  status := some "confirmed"
  summary := some "Reminder"
  description := ""
  start := some ⟨some 0, none, none⟩
  «end» := some ⟨some 0, none, none⟩
  location := ""
  attendees := []
  recurrence := []
  updated := none

end Prosepect
