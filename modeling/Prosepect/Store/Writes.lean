/-
What an accepted event says to the provider. The requests compare instants; a write of an all-day
event carries the dates of the instants, and the end of a recurrence carries no fraction of a
second. So the write of an accepted event may have an empty range: which requests leave such an
event is said here of the request alone.
-/
import Prosepect.Store.MoveRuns

namespace Prosepect

open Text Time Resumption

/-! ## Ranges of a write -/

namespace GoogleEventWrite

/-- The text of `UNTIL` in a rule. -/
def untilText (rule : String) : Option (List Char) := (rule.toList.splitOn ';').findSome? (stripPrefix "UNTIL=")

/-- The end is after the start: of two instants, or of two dates of which the second is exclusive. -/
def Ordered (start end_ : GoogleEventTime) : Prop :=
  match start.dateTime, end_.dateTime, start.date, end_.date with
  | some s, some e, _, _ => s < e
  | none, none, some s, some e => s < e
  | _, _, _, _ => False

/-- A rule of the write ends at `t`, to the second. -/
def Until (body : GoogleEventWrite) (t : DateTime) : Prop :=
  ∃ rule ∈ body.recurrence, untilText rule = some (formatUtc t) ∧ truncSecond t = t

/-- The range the provider takes: the end is after the start, and no recurrence ends before the
start it is sent with. -/
structure Ranged (body : GoogleEventWrite) : Prop where
  ordered : Ordered body.start body.end
  ends : ∀ s t, eventTime body.start = .ok s → body.Until t → s ≤ t

theorem untilText_forever {r : EventRecurrence} {rule : String} (h : rule ∈ recurrenceRule r none) : untilText rule = none := by
  cases r with
  | none => cases h
  | daily => rw [List.mem_singleton.1 h]; decide
  | weekly => rw [List.mem_singleton.1 h]; decide
  | monthly => rw [List.mem_singleton.1 h]; decide
  | yearly => rw [List.mem_singleton.1 h]; decide

/-- A rule ends where the recurrence does, without the fraction of a second. -/
theorem until_fromLocal {e : LocalEvent} {t : DateTime} :
    (fromLocal e).Until t ↔ e.recurrence ≠ .none ∧ ∃ u, e.recurrenceUntil = some u ∧ t = truncSecond u := by
  show (∃ rule ∈ recurrenceRule e.recurrence e.recurrenceUntil, _) ↔ _
  constructor
  · rintro ⟨rule, hrule, htext, hsecond⟩
    have hr : e.recurrence ≠ .none := by
      intro hnone
      rw [hnone] at hrule
      cases hrule
    refine ⟨hr, ?_⟩
    cases hu : e.recurrenceUntil with
    | none =>
      rw [hu] at hrule
      rw [untilText_forever hrule] at htext
      cases htext
    | some u =>
      obtain ⟨rule', hlist, htoList⟩ := toList_recurrenceRule hr u
      rw [hu, hlist] at hrule
      obtain rfl := List.mem_singleton.1 hrule
      unfold untilText at htext
      rw [htoList, until_recurrenceRule hr (sep_not_mem_formatUtc u)] at htext
      refine ⟨u, rfl, ?_⟩
      rw [← hsecond]
      exact formatUtc_inj (Option.some.inj htext).symm
  · rintro ⟨hr, u, hu, rfl⟩
    obtain ⟨rule, hlist, htoList⟩ := toList_recurrenceRule hr u
    refine ⟨rule, by rw [hu, hlist]; exact List.mem_singleton_self _, ?_, ?_⟩
    · unfold untilText
      rw [htoList, until_recurrenceRule hr (sep_not_mem_formatUtc u), formatUtc_truncSecond]
    · exact truncSecond_truncSecond u

end GoogleEventWrite

/-- The dates of an all-day event are apart, and a recurrence of a timed one does not end within
the second it starts in. -/
def Spans (allDay : Bool) (startsAt endsAt : DateTime) (recurrence : EventRecurrence) (until_ : Option DateTime) : Prop :=
  if allDay then dateNaive startsAt < dateNaive endsAt
  else recurrence ≠ .none → ∀ u, until_ = some u → startsAt ≤ truncSecond u

open GoogleEventWrite in
theorem ranged_fromLocal_iff {e : LocalEvent} (hrange : e.startsAt < e.endsAt)
    (huntil : ∀ u, e.recurrenceUntil = some u → e.startsAt < u) :
    (fromLocal e).Ranged ↔ Spans e.allDay e.startsAt e.endsAt e.recurrence e.recurrenceUntil := by
  have hwrite : (fromLocal e).Ranged ↔ Ordered (fromLocal e).start (fromLocal e).end ∧ ∀ s, eventTime (fromLocal e).start = .ok s →
      e.recurrence ≠ .none → ∀ u, e.recurrenceUntil = some u → s ≤ truncSecond u := by
    constructor
    · rintro ⟨hordered, hends⟩
      exact ⟨hordered, fun s hs hr u hu => hends s _ hs (until_fromLocal.2 ⟨hr, u, hu, rfl⟩)⟩
    · rintro ⟨hordered, hends⟩
      refine ⟨hordered, fun s t hs ht => ?_⟩
      obtain ⟨hr, u, hu, rfl⟩ := until_fromLocal.1 ht
      exact hends s hs hr u hu
  rw [hwrite]
  unfold Spans fromLocal Ordered eventTime
  cases e.allDay with
  | true =>
    simp only [if_true]
    constructor
    · rintro ⟨hdates, -⟩
      exact hdates
    · intro hdates
      refine ⟨hdates, ?_⟩
      rintro s hs - u hu
      obtain rfl := Except.ok.inj hs
      -- midnight is a whole second at or before the start
      exact midnight_le_truncSecond (le_of_lt (huntil u hu))
  | false =>
    simp only [Bool.false_eq_true, if_false]
    constructor
    · rintro ⟨-, hends⟩
      exact hends _ rfl
    · intro hends
      refine ⟨hrange, ?_⟩
      rintro s hs hr u hu
      obtain rfl := Except.ok.inj hs
      exact hends hr u hu

/-! ## Requests -/

/-- A request that writes an event. -/
inductive EventRequest
  | create (r : CreateCalendarEventRequest)
  | update (event : Uuid) (r : UpdateCalendarEventRequest)
  | move (locked : Bool) (item : Uuid) (isTask : Bool) (r : MoveCalendarItemRequest)

namespace EventRequest

open Store Workspace

/-- The id of the event that is written. -/
def run (toLowercase : String → String) : EventRequest → WorkspaceTx Uuid
  | create r => do
    let event ← onDb (createCalendarEvent toLowercase r)
    return event.id
  | update event r => do
    let event ← onDb (updateCalendarEvent toLowercase event r)
    return event.id
  | move locked item isTask r => do
    let receipt ← moveCalendarItem locked item isTask r
    return receipt.eventId

/-- The range a request asks for; a move keeps the kind of the event and its recurrence. -/
def Spans (db : Db) : EventRequest → Prop
  | create r => Prosepect.Spans r.allDay r.startsAt r.endsAt r.recurrence r.recurrenceUntil
  | update _ r => Prosepect.Spans r.allDay r.startsAt r.endsAt r.recurrence r.recurrenceUntil
  | move _ item isTask r => ∀ e, (itemEvent? item isTask db).bind db.event? = some e →
      Prosepect.Spans e.allDay r.startsAt r.endsAt e.recurrence e.recurrenceUntil

end EventRequest

namespace Store

open Workspace GoogleEventWrite

variable {w w' : Workspace} {toLowercase : String → String}

/-- A requested range is as its write needs it exactly where it spans the days or seconds it is
written in. -/
theorem ranged_requested_iff {r : CreateCalendarEventRequest} (h : validateEventRequest r = .ok ()) (event : Uuid)
    (attendees : List String) : (fromLocal (requestedContent event r attendees)).Ranged ↔
      Prosepect.Spans r.allDay r.startsAt r.endsAt r.recurrence r.recurrenceUntil := by
  have hfit := (validateEventRequest_ok_iff r).1 h
  exact ranged_fromLocal_iff hfit.range fun u hu => (hfit.ends u hu).2

/-- An accepted request leaves an event whose write has a range exactly where the request spans one. -/
theorem accepted_ranged_iff {request : EventRequest} {event : Uuid} (hv : w.db.Valid)
    (h : request.run toLowercase w = .ok (event, w')) :
    ∃ e, w'.db.event? event = some e ∧ ((fromLocal e.toLocalEvent).Ranged ↔ request.Spans w.db) := by
  cases request with
  | create r =>
    rw [EventRequest.run] at h
    obtain ⟨e, db, he, h⟩ := onDb_bind_ok h
    cases h
    have hvalid := (Db.aged_createCalendarEvent toLowercase r _ _ _ he hv).1
    obtain ⟨attendees, hr, -, hrow, -, rfl⟩ := createCalendarEvent_ok he
    refine ⟨e, hvalid.event?_eq_some.2 ⟨?_, rfl⟩, ?_⟩
    · rw [markEventForSync_events]
      exact List.mem_append_right _ (List.mem_singleton_self _)
    · rw [hrow]
      exact ranged_requested_iff hr _ attendees
  | update id r =>
    rw [EventRequest.run] at h
    obtain ⟨e, db, he, h⟩ := onDb_bind_ok h
    cases h
    have hvalid := (Db.aged_updateCalendarEvent toLowercase id r _ _ _ he hv).1
    obtain ⟨previous, attendees, hr, hp, -, -, hrow, -, rfl⟩ := updateCalendarEvent_ok he
    refine ⟨e, hvalid.event?_eq_some.2 ⟨?_, rfl⟩, ?_⟩
    · obtain ⟨hmem, hid⟩ := event?_mem hp
      have hsame : previous.id = e.id := by rw [hid, hrow]; rfl
      show e ∈ (changeEvent previous e w.db).events
      rw [Db.changeEvent_events]
      exact Table.mem_update.2 (.inr ⟨previous, hmem, beq_iff_eq.2 hsame, rfl⟩)
    · rw [hrow]
      exact ranged_requested_iff hr id attendees
  | move locked item isTask r =>
    obtain ⟨receipt, u, hmove, h⟩ := Tx.bind_ok h
    cases h
    obtain ⟨e, task, w₁, ⟨hrange, hitem, huntil⟩, he, -, rfl, rfl, rfl⟩ := moveCalendarItem_ok hmove
    obtain ⟨hmem, -⟩ := event?_mem he
    have hmem' : e ∈ w.db.fresh.events := hmem
    refine ⟨_, event?_moveEvent hv.fresh hmem' r.startsAt r.endsAt (movedTask task r.startsAt r.endsAt), ?_⟩
    rw [ranged_fromLocal_iff hrange huntil]
    have hfound : (itemEvent? item isTask w.db).bind w.db.event? = some e := by rw [hitem]; exact he
    constructor
    · rintro hspans e' he'
      rw [hfound] at he'
      obtain rfl := Option.some.inj he'
      exact hspans
    · intro hspans
      exact hspans e hfound

/-! ## A fair from ten to eleven -/

/-- A workspace with one calendar, of Google. -/
def googleWorkspace : Workspace :=
  let w := Workspace.initial 0 1 none false
  { w with db := { w.db with calendars := [⟨0, .google, some "c", true, true, true, .owner, none, none, none⟩] } }

/-- An event on the first days of the epoch. -/
def fair (allDay : Bool) (startsAt endsAt : DateTime) : CreateCalendarEventRequest :=
  ⟨0, "Fair", "", startsAt, endsAt, allDay, "UTC", "", [], .none, none⟩

theorem valid_googleWorkspace : googleWorkspace.db.Valid := by decide +kernel

/-- The event a request leaves. -/
def leaves (request : EventRequest) (w : Workspace) : Option CalendarEvent :=
  match request.run (fun s => s) w with
  | .ok (event, w') => w'.db.event? event
  | .error _ => none

theorem accepted_ranged_fair : ∃ e, leaves (.create (fair true 36000000000 122400000000)) googleWorkspace = some e ∧
    (fromLocal e.toLocalEvent).Ranged := by
  obtain ⟨event, w', hrun⟩ : ∃ event w', (EventRequest.create (fair true 36000000000 122400000000)).run (fun s => s)
      googleWorkspace = .ok (event, w') := ⟨_, _, rfl⟩
  obtain ⟨e, he, hiff⟩ := accepted_ranged_iff valid_googleWorkspace hrun
  have hspans : dateNaive 36000000000 < dateNaive 122400000000 := by decide
  refine ⟨e, ?_, hiff.2 hspans⟩
  unfold leaves
  rw [hrun]
  exact he

/-- An hour of a day is accepted as an all-day event, and written as a range of no days. -/
theorem fair_not_ranged : googleWorkspace.db.OfGoogle 0 ∧
    ∃ e, leaves (.create (fair true 36000000000 39600000000)) googleWorkspace = some e ∧
      (fromLocal e.toLocalEvent).start.date = some 0 ∧ (fromLocal e.toLocalEvent).end.date = some 0 ∧
      ¬ (fromLocal e.toLocalEvent).Ranged := by
  refine ⟨⟨_, List.mem_singleton_self _, rfl, rfl⟩, _, rfl, rfl, rfl, ?_⟩
  rintro ⟨hordered, -⟩
  exact lt_irrefl (0 : Int) hordered

end Store

end Prosepect
