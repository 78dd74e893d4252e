/-
The constraints of the schema on the tables of the synchronization: primary keys, UNIQUE columns
and foreign keys, with fresh ids above all that are in use. Every primitive keeps them.
-/
import Prosepect.Store.Schema

namespace Prosepect

open Table (update delete has mem_update mem_delete has_eq_false_iff Unique)

/-- The key of the partial unique index on unresolved conflicts. -/
def SyncConflict.openKey (c : SyncConflict) : Option Uuid := if c.status = .unresolved then some c.mappingId else none

namespace Db

/-- The constraints of the schema. -/
structure Valid (db : Db) : Prop where
  calendarIds : Unique (fun c : Calendar => some c.id) db.calendars
  calendarsUsed : ∀ c ∈ db.calendars, c.id < db.nextId
  eventIds : Unique (fun e : CalendarEvent => some e.id) db.events
  eventsUsed : ∀ e ∈ db.events, e.id < db.nextId
  eventTasks : Unique (fun e : CalendarEvent => e.linkedTaskId) db.events
  eventCalendar : ∀ e ∈ db.events, ∃ c ∈ db.calendars, c.id = e.calendarId
  mappingIds : Unique (fun m : Mapping => some m.id) db.mappings
  mappingsUsed : ∀ m ∈ db.mappings, m.id < db.nextId
  mappingKeys : Unique (fun m : Mapping => some (m.externalCalendarId, m.externalEventId)) db.mappings
  mappingEvents : Unique (fun m : Mapping => m.canonicalEventId) db.mappings
  mappingEvent : ∀ m ∈ db.mappings, ∀ e, m.canonicalEventId = some e → ∃ x ∈ db.events, x.id = e
  conflictIds : Unique (fun c : SyncConflict => some c.id) db.conflicts
  conflictsUsed : ∀ c ∈ db.conflicts, c.id < db.nextId
  conflictsOpen : Unique SyncConflict.openKey db.conflicts
  conflictMapping : ∀ c ∈ db.conflicts, ∃ m ∈ db.mappings, m.id = c.mappingId

instance (db : Db) : Decidable db.Valid :=
  decidable_of_iff
    (Unique (fun c : Calendar => some c.id) db.calendars ∧ (∀ c ∈ db.calendars, c.id < db.nextId) ∧
      Unique (fun e : CalendarEvent => some e.id) db.events ∧ (∀ e ∈ db.events, e.id < db.nextId) ∧
      Unique (fun e : CalendarEvent => e.linkedTaskId) db.events ∧
      (∀ e ∈ db.events, ∃ c ∈ db.calendars, c.id = e.calendarId) ∧
      Unique (fun m : Mapping => some m.id) db.mappings ∧ (∀ m ∈ db.mappings, m.id < db.nextId) ∧
      Unique (fun m : Mapping => some (m.externalCalendarId, m.externalEventId)) db.mappings ∧
      Unique (fun m : Mapping => m.canonicalEventId) db.mappings ∧
      (∀ m ∈ db.mappings, ∀ e ∈ m.canonicalEventId, ∃ x ∈ db.events, x.id = e) ∧
      Unique (fun c : SyncConflict => some c.id) db.conflicts ∧ (∀ c ∈ db.conflicts, c.id < db.nextId) ∧
      Unique SyncConflict.openKey db.conflicts ∧ (∀ c ∈ db.conflicts, ∃ m ∈ db.mappings, m.id = c.mappingId))
    ⟨fun ⟨a, b, c, d, e, f, g, h, i, j, k, l, m, n, o⟩ => ⟨a, b, c, d, e, f, g, h, i, j, k, l, m, n, o⟩,
      fun ⟨a, b, c, d, e, f, g, h, i, j, k, l, m, n, o⟩ => ⟨a, b, c, d, e, f, g, h, i, j, k, l, m, n, o⟩⟩

/-! ## Searching by a key -/

section Find

variable {db : Db}

theorem Valid.event?_eq_some (h : db.Valid) {id : Uuid} {e : CalendarEvent} :
    db.event? id = some e ↔ e ∈ db.events ∧ e.id = id := by
  have hf := h.eventIds.find_eq_some_iff (k := id) (r := e)
  rwa [Option.some.injEq] at hf

theorem Valid.mapping?_eq_some (h : db.Valid) {id : Uuid} {m : Mapping} :
    db.mapping? id = some m ↔ m ∈ db.mappings ∧ m.id = id := by
  have hf := h.mappingIds.find_eq_some_iff (k := id) (r := m)
  rwa [Option.some.injEq] at hf

theorem Valid.calendar?_eq_some (h : db.Valid) {id : Uuid} {c : Calendar} :
    db.calendar? id = some c ↔ c ∈ db.calendars ∧ c.id = id := by
  have hf := h.calendarIds.find_eq_some_iff (k := id) (r := c)
  rwa [Option.some.injEq] at hf

theorem Valid.mappingOf?_eq_some (h : db.Valid) {event : Uuid} {m : Mapping} :
    db.mappingOf? event = some m ↔ m ∈ db.mappings ∧ m.canonicalEventId = some event :=
  h.mappingEvents.find_eq_some_iff

theorem Valid.mappingAt?_eq_some (h : db.Valid) {calendar event : String} {m : Mapping} :
    db.mappingAt? calendar event = some m ↔
      m ∈ db.mappings ∧ m.externalCalendarId = calendar ∧ m.externalEventId = event := by
  have hf := h.mappingKeys.find_eq_some_iff (k := (calendar, event)) (r := m)
  rw [Option.some.injEq, Prod.mk.injEq] at hf
  exact hf

theorem Valid.taskEvent?_eq_some (h : db.Valid) {task : Uuid} {e : CalendarEvent} :
    db.taskEvent? task = some e ↔ e ∈ db.events ∧ e.linkedTaskId = some task :=
  h.eventTasks.find_eq_some_iff

theorem calendar?_isSome {id : Uuid} : (db.calendar? id).isSome ↔ ∃ c ∈ db.calendars, c.id = id := by
  simp [calendar?]

theorem event?_isSome {id : Uuid} : (db.event? id).isSome ↔ ∃ e ∈ db.events, e.id = id := by
  simp [event?]

theorem mapping?_isSome {id : Uuid} : (db.mapping? id).isSome ↔ ∃ m ∈ db.mappings, m.id = id := by
  simp [mapping?]

theorem mappingOf?_eq_none {event : Uuid} :
    db.mappingOf? event = none ↔ ∀ m ∈ db.mappings, m.canonicalEventId ≠ some event := by
  simp [mappingOf?]

theorem mappingAt?_eq_none {calendar event : String} : db.mappingAt? calendar event = none ↔
    ∀ m ∈ db.mappings, ¬ (m.externalCalendarId = calendar ∧ m.externalEventId = event) := by
  simp [mappingAt?]

/-- The mapping of a fresh event. -/
theorem Valid.mappingOf?_fresh (h : db.Valid) : db.mappingOf? db.nextId = none := by
  rw [mappingOf?_eq_none]
  intro m hm hc
  obtain ⟨x, hx, he⟩ := h.mappingEvent m hm _ hc
  exact absurd (h.eventsUsed x hx) (by rw [he]; exact lt_irrefl _)

end Find

/-! ## The primitives keep the constraints -/

section Primitives

variable {db : Db}

/-- The constraints are about four tables and the supply of ids. -/
theorem Valid.congr {db' : Db} (h : db.Valid) (hc : db'.calendars = db.calendars) (he : db'.events = db.events)
    (hm : db'.mappings = db.mappings) (hk : db'.conflicts = db.conflicts) (hn : db.nextId ≤ db'.nextId) : db'.Valid where
  calendarIds := hc ▸ h.calendarIds
  calendarsUsed := fun c hcm => lt_of_lt_of_le (h.calendarsUsed c (hc ▸ hcm)) hn
  eventIds := he ▸ h.eventIds
  eventsUsed := fun e hem => lt_of_lt_of_le (h.eventsUsed e (he ▸ hem)) hn
  eventTasks := he ▸ h.eventTasks
  eventCalendar := fun e hem => hc ▸ h.eventCalendar e (he ▸ hem)
  mappingIds := hm ▸ h.mappingIds
  mappingsUsed := fun m hmm => lt_of_lt_of_le (h.mappingsUsed m (hm ▸ hmm)) hn
  mappingKeys := hm ▸ h.mappingKeys
  mappingEvents := hm ▸ h.mappingEvents
  mappingEvent := fun m hmm => he ▸ h.mappingEvent m (hm ▸ hmm)
  conflictIds := hk ▸ h.conflictIds
  conflictsUsed := fun c hcm => lt_of_lt_of_le (h.conflictsUsed c (hk ▸ hcm)) hn
  conflictsOpen := hk ▸ h.conflictsOpen
  conflictMapping := fun c hcm => hm ▸ h.conflictMapping c (hk ▸ hcm)

theorem Valid.fresh (h : db.Valid) : db.fresh.Valid := h.congr rfl rfl rfl rfl (Nat.le_succ _)

theorem Valid.insertActivity (h : db.Valid) (kind message : String) : (db.insertActivity kind message).Valid :=
  h.congr rfl rfl rfl rfl (Nat.le_succ _)

theorem Valid.deleteUndos (h : db.Valid) (p : TaskDeleteUndo → Bool) : (db.deleteUndos p).Valid :=
  h.congr rfl rfl rfl rfl le_rfl

theorem Valid.updateTask (h : db.Valid) (id : Uuid) (f : TaskRow → TaskRow) : (db.updateTask id f).Valid :=
  h.congr rfl rfl rfl rfl le_rfl

theorem Valid.enqueue (h : db.Valid) (calendar : Option Uuid) (kind key : String) :
    (db.enqueue calendar kind key).Valid := by
  unfold Db.enqueue
  split <;> exact h.congr rfl rfl rfl rfl (Nat.le_succ _)

/-- An update of a calendar that keeps its id. -/
theorem Valid.updateCalendar (h : db.Valid) (id : Uuid) {f : Calendar → Calendar} (hf : ∀ c, (f c).id = c.id) :
    (db.updateCalendar id f).Valid where
  calendarIds := h.calendarIds.update fun c => .inl (by simp [hf])
  calendarsUsed := by
    intro c hc
    rcases mem_update.1 hc with ⟨hc, -⟩ | ⟨s, hs, -, rfl⟩
    · exact h.calendarsUsed c hc
    · rw [hf]; exact h.calendarsUsed s hs
  eventIds := h.eventIds
  eventsUsed := h.eventsUsed
  eventTasks := h.eventTasks
  eventCalendar := by
    intro e he
    obtain ⟨c, hc, hce⟩ := h.eventCalendar e he
    by_cases hp : (c.id == id) = true
    · exact ⟨f c, mem_update.2 (.inr ⟨c, hc, hp, rfl⟩), by rw [hf]; exact hce⟩
    · exact ⟨c, mem_update.2 (.inl ⟨hc, by simpa using hp⟩), hce⟩
  mappingIds := h.mappingIds
  mappingsUsed := h.mappingsUsed
  mappingKeys := h.mappingKeys
  mappingEvents := h.mappingEvents
  mappingEvent := h.mappingEvent
  conflictIds := h.conflictIds
  conflictsUsed := h.conflictsUsed
  conflictsOpen := h.conflictsOpen
  conflictMapping := h.conflictMapping

/-- A mapping that exists after an update comes from one with its id. -/
theorem exists_mem_update {α : Type} {p : α → Bool} {f : α → α} {t : List α} {g : α → Uuid} (hf : ∀ r, g (f r) = g r)
    {k : Uuid} (h : ∃ r ∈ t, g r = k) : ∃ r ∈ update p f t, g r = k := by
  obtain ⟨r, hr, hk⟩ := h
  cases hp : p r with
  | true => exact ⟨f r, mem_update.2 (.inr ⟨r, hr, hp, rfl⟩), by rw [hf]; exact hk⟩
  | false => exact ⟨r, mem_update.2 (.inl ⟨hr, hp⟩), hk⟩

/-- An update of mappings that keeps their ids and keys, and at most drops their events. -/
theorem Valid.updateMappings (h : db.Valid) (p : Mapping → Bool) {f : Mapping → Mapping} (hid : ∀ m, (f m).id = m.id)
    (hcal : ∀ m, (f m).externalCalendarId = m.externalCalendarId)
    (hev : ∀ m, (f m).externalEventId = m.externalEventId)
    (hcan : ∀ m, (f m).canonicalEventId = m.canonicalEventId ∨ (f m).canonicalEventId = none) :
    (db.updateMappings p f).Valid where
  calendarIds := h.calendarIds
  calendarsUsed := h.calendarsUsed
  eventIds := h.eventIds
  eventsUsed := h.eventsUsed
  eventTasks := h.eventTasks
  eventCalendar := h.eventCalendar
  mappingIds := h.mappingIds.update fun m => .inl (by simp [hid])
  mappingsUsed := by
    intro m hm
    rcases mem_update.1 hm with ⟨hm, -⟩ | ⟨s, hs, -, rfl⟩
    · exact h.mappingsUsed m hm
    · rw [hid]; exact h.mappingsUsed s hs
  mappingKeys := h.mappingKeys.update fun m => .inl (by simp [hcal, hev])
  mappingEvents := h.mappingEvents.update hcan
  mappingEvent := by
    intro m hm e he
    rcases mem_update.1 hm with ⟨hm, -⟩ | ⟨s, hs, -, rfl⟩
    · exact h.mappingEvent m hm e he
    · rcases hcan s with hc | hc
      · exact h.mappingEvent s hs e (hc ▸ he)
      · rw [hc] at he; cases he
  conflictIds := h.conflictIds
  conflictsUsed := h.conflictsUsed
  conflictsOpen := h.conflictsOpen
  conflictMapping := fun c hc => exists_mem_update hid (h.conflictMapping c hc)

theorem Valid.updateMapping (h : db.Valid) (id : Uuid) {f : Mapping → Mapping} (hid : ∀ m, (f m).id = m.id)
    (hcal : ∀ m, (f m).externalCalendarId = m.externalCalendarId)
    (hev : ∀ m, (f m).externalEventId = m.externalEventId)
    (hcan : ∀ m, (f m).canonicalEventId = m.canonicalEventId ∨ (f m).canonicalEventId = none) :
    (db.updateMapping id f).Valid :=
  h.updateMappings _ hid hcal hev hcan

/-- A mapping is linked to an event that no other one is linked to. -/
theorem Valid.link (h : db.Valid) {id event : Uuid} (he : ∃ e ∈ db.events, e.id = event)
    (hfree : ∀ m ∈ db.mappings, m.canonicalEventId = some event → m.id = id) :
    (db.updateMapping id fun m => { m with canonicalEventId := some event }).Valid where
  calendarIds := h.calendarIds
  calendarsUsed := h.calendarsUsed
  eventIds := h.eventIds
  eventsUsed := h.eventsUsed
  eventTasks := h.eventTasks
  eventCalendar := h.eventCalendar
  mappingIds := h.mappingIds.update fun m => .inl rfl
  mappingsUsed := by
    intro m hm
    rcases mem_update.1 hm with ⟨hm, -⟩ | ⟨s, hs, -, rfl⟩
    · exact h.mappingsUsed m hm
    · exact h.mappingsUsed s hs
  mappingKeys := h.mappingKeys.update fun m => .inl rfl
  mappingEvents := h.mappingEvents.assign h.mappingIds (fun _ => rfl) hfree
  mappingEvent := by
    intro m hm e hc
    rcases mem_update.1 hm with ⟨hm, -⟩ | ⟨s, hs, -, rfl⟩
    · exact h.mappingEvent m hm e hc
    · obtain rfl : event = e := by simpa using hc
      exact he
  conflictIds := h.conflictIds
  conflictsUsed := h.conflictsUsed
  conflictsOpen := h.conflictsOpen
  conflictMapping := fun c hc => exists_mem_update (by intro; rfl) (h.conflictMapping c hc)

theorem Valid.deleteMappings (h : db.Valid) (p : Mapping → Bool) : (db.deleteMappings p).Valid where
  calendarIds := h.calendarIds
  calendarsUsed := h.calendarsUsed
  eventIds := h.eventIds
  eventsUsed := h.eventsUsed
  eventTasks := h.eventTasks
  eventCalendar := h.eventCalendar
  mappingIds := h.mappingIds.delete p
  mappingsUsed := fun m hm => h.mappingsUsed m (mem_delete.1 hm).1
  mappingKeys := h.mappingKeys.delete p
  mappingEvents := h.mappingEvents.delete p
  mappingEvent := fun m hm => h.mappingEvent m (mem_delete.1 hm).1
  conflictIds := h.conflictIds.delete _
  conflictsUsed := fun c hc => h.conflictsUsed c (mem_delete.1 hc).1
  conflictsOpen := h.conflictsOpen.delete _
  conflictMapping := by
    intro c hc
    obtain ⟨hc, hgone⟩ := mem_delete.1 hc
    obtain ⟨m, hm, hmc⟩ := h.conflictMapping c hc
    have := has_eq_false_iff.1 hgone m hm
    exact ⟨m, mem_delete.2 ⟨hm, by simpa [hmc] using this⟩, hmc⟩

/-- A mapping of a new remote event and an event that has none. -/
theorem Valid.insertMapping (h : db.Valid) {m : Mapping} (hid : ∀ x ∈ db.mappings, x.id ≠ m.id) (hused : m.id < db.nextId)
    (hkey : db.mappingAt? m.externalCalendarId m.externalEventId = none)
    (hfree : ∀ e, m.canonicalEventId = some e → db.mappingOf? e = none ∧ ∃ x ∈ db.events, x.id = e) :
    (db.insertMapping m).Valid where
  calendarIds := h.calendarIds
  calendarsUsed := h.calendarsUsed
  eventIds := h.eventIds
  eventsUsed := h.eventsUsed
  eventTasks := h.eventTasks
  eventCalendar := h.eventCalendar
  mappingIds := h.mappingIds.insert fun k hk x hx hxk => hid x hx (Option.some.inj (hxk.trans hk.symm))
  mappingsUsed := by
    intro x hx
    rcases List.mem_append.1 hx with hx | hx
    · exact h.mappingsUsed x hx
    · rw [List.mem_singleton.1 hx]; exact hused
  mappingKeys := by
    refine h.mappingKeys.insert fun k hk x hx hxk => ?_
    obtain ⟨h1, h2⟩ := Prod.mk.inj (Option.some.inj (hxk.trans hk.symm))
    exact mappingAt?_eq_none.1 hkey x hx ⟨h1, h2⟩
  mappingEvents := h.mappingEvents.insert fun k hk x hx => mappingOf?_eq_none.1 (hfree k hk).1 x hx
  mappingEvent := by
    intro x hx e he
    rcases List.mem_append.1 hx with hx | hx
    · exact h.mappingEvent x hx e he
    · rw [List.mem_singleton.1 hx] at he; exact (hfree e he).2
  conflictIds := h.conflictIds
  conflictsUsed := h.conflictsUsed
  conflictsOpen := h.conflictsOpen
  conflictMapping := by
    intro c hc
    obtain ⟨x, hx, hxc⟩ := h.conflictMapping c hc
    exact ⟨x, List.mem_append_left _ hx, hxc⟩

/-- An update of events that keeps their ids and tasks, in calendars that exist. -/
theorem Valid.updateEvents (h : db.Valid) (p : CalendarEvent → Bool) {f : CalendarEvent → CalendarEvent}
    (hid : ∀ e, (f e).id = e.id) (htask : ∀ e, (f e).linkedTaskId = e.linkedTaskId)
    (hcal : ∀ e ∈ db.events, p e = true → ∃ c ∈ db.calendars, c.id = (f e).calendarId) :
    (db.updateEvents p f).Valid where
  calendarIds := h.calendarIds
  calendarsUsed := h.calendarsUsed
  eventIds := h.eventIds.update fun e => .inl (by simp [hid])
  eventsUsed := by
    intro e he
    rcases mem_update.1 he with ⟨he, -⟩ | ⟨s, hs, -, rfl⟩
    · exact h.eventsUsed e he
    · rw [hid]; exact h.eventsUsed s hs
  eventTasks := h.eventTasks.update fun e => .inl (htask e)
  eventCalendar := by
    intro e he
    rcases mem_update.1 he with ⟨he, -⟩ | ⟨s, hs, hp, rfl⟩
    · exact h.eventCalendar e he
    · exact hcal s hs hp
  mappingIds := h.mappingIds
  mappingsUsed := h.mappingsUsed
  mappingKeys := h.mappingKeys
  mappingEvents := h.mappingEvents
  mappingEvent := fun m hm e he => exists_mem_update hid (h.mappingEvent m hm e he)
  conflictIds := h.conflictIds
  conflictsUsed := h.conflictsUsed
  conflictsOpen := h.conflictsOpen
  conflictMapping := h.conflictMapping

/-- A reference that a deletion of events leaves does not point to a deleted one. -/
theorem refersTo_false {p : CalendarEvent → Bool} {e : CalendarEvent} (he : e ∈ db.events) {r : Option Uuid}
    (hr : r = some e.id) (h : db.refersTo p r = false) : p e = false := by
  have := has_eq_false_iff.1 h e he
  simpa [hr] using this

theorem Valid.deleteEvents (h : db.Valid) (p : CalendarEvent → Bool) : (db.deleteEvents p).Valid where
  calendarIds := h.calendarIds
  calendarsUsed := h.calendarsUsed
  eventIds := h.eventIds.delete p
  eventsUsed := fun e he => h.eventsUsed e (mem_delete.1 he).1
  eventTasks := h.eventTasks.delete p
  eventCalendar := fun e he => h.eventCalendar e (mem_delete.1 he).1
  mappingIds := h.mappingIds.update fun m => .inl rfl
  mappingsUsed := by
    intro m hm
    rcases mem_update.1 hm with ⟨hm, -⟩ | ⟨s, hs, -, rfl⟩
    · exact h.mappingsUsed m hm
    · exact h.mappingsUsed s hs
  mappingKeys := h.mappingKeys.update fun m => .inl rfl
  mappingEvents := h.mappingEvents.update fun m => .inr rfl
  mappingEvent := by
    intro m hm e he
    rcases mem_update.1 hm with ⟨hm, hn⟩ | ⟨s, hs, -, rfl⟩
    · obtain ⟨x, hx, hxe⟩ := h.mappingEvent m hm e he
      exact ⟨x, mem_delete.2 ⟨hx, refersTo_false hx (by rw [he, hxe]) hn⟩, hxe⟩
    · cases he
  conflictIds := h.conflictIds.update fun c => .inl rfl
  conflictsUsed := by
    intro c hc
    rcases mem_update.1 hc with ⟨hc, -⟩ | ⟨s, hs, -, rfl⟩
    · exact h.conflictsUsed c hc
    · exact h.conflictsUsed s hs
  conflictsOpen := h.conflictsOpen.update fun c => .inl rfl
  conflictMapping := by
    intro c hc
    have hmap : ∃ m ∈ db.mappings, m.id = c.mappingId := by
      rcases mem_update.1 hc with ⟨hc, -⟩ | ⟨s, hs, -, rfl⟩
      · exact h.conflictMapping c hc
      · exact h.conflictMapping s hs
    exact exists_mem_update (by intro; rfl) hmap

theorem Valid.insertEvent (h : db.Valid) {e : CalendarEvent} (hid : ∀ x ∈ db.events, x.id ≠ e.id) (hused : e.id < db.nextId)
    (htask : ∀ t, e.linkedTaskId = some t → db.taskEvent? t = none) (hcal : ∃ c ∈ db.calendars, c.id = e.calendarId) :
    (db.insertEvent e).Valid where
  calendarIds := h.calendarIds
  calendarsUsed := h.calendarsUsed
  eventIds := h.eventIds.insert fun k hk x hx hxk => hid x hx (Option.some.inj (hxk.trans hk.symm))
  eventsUsed := by
    intro x hx
    rcases List.mem_append.1 hx with hx | hx
    · exact h.eventsUsed x hx
    · rw [List.mem_singleton.1 hx]; exact hused
  eventTasks := by
    refine h.eventTasks.insert fun k hk x hx hxk => ?_
    have := List.find?_eq_none.1 (htask k hk) x hx
    simp [hxk] at this
  eventCalendar := by
    intro x hx
    rcases List.mem_append.1 hx with hx | hx
    · exact h.eventCalendar x hx
    · rw [List.mem_singleton.1 hx]; exact hcal
  mappingIds := h.mappingIds
  mappingsUsed := h.mappingsUsed
  mappingKeys := h.mappingKeys
  mappingEvents := h.mappingEvents
  mappingEvent := by
    intro m hm k hk
    obtain ⟨x, hx, hxk⟩ := h.mappingEvent m hm k hk
    exact ⟨x, List.mem_append_left _ hx, hxk⟩
  conflictIds := h.conflictIds
  conflictsUsed := h.conflictsUsed
  conflictsOpen := h.conflictsOpen
  conflictMapping := h.conflictMapping

/-- An update of conflicts that keeps their ids and mappings, and opens none. -/
theorem Valid.updateConflicts (h : db.Valid) (p : SyncConflict → Bool) {f : SyncConflict → SyncConflict}
    (hid : ∀ c, (f c).id = c.id) (hmap : ∀ c, (f c).mappingId = c.mappingId)
    (hopen : ∀ c, (f c).openKey = c.openKey ∨ (f c).openKey = none) : (db.updateConflicts p f).Valid where
  calendarIds := h.calendarIds
  calendarsUsed := h.calendarsUsed
  eventIds := h.eventIds
  eventsUsed := h.eventsUsed
  eventTasks := h.eventTasks
  eventCalendar := h.eventCalendar
  mappingIds := h.mappingIds
  mappingsUsed := h.mappingsUsed
  mappingKeys := h.mappingKeys
  mappingEvents := h.mappingEvents
  mappingEvent := h.mappingEvent
  conflictIds := h.conflictIds.update fun c => .inl (by simp [hid])
  conflictsUsed := by
    intro c hc
    rcases mem_update.1 hc with ⟨hc, -⟩ | ⟨s, hs, -, rfl⟩
    · exact h.conflictsUsed c hc
    · rw [hid]; exact h.conflictsUsed s hs
  conflictsOpen := h.conflictsOpen.update hopen
  conflictMapping := by
    intro c hc
    rcases mem_update.1 hc with ⟨hc, -⟩ | ⟨s, hs, -, rfl⟩
    · exact h.conflictMapping c hc
    · rw [hmap]; exact h.conflictMapping s hs

theorem Valid.insertConflict (h : db.Valid) {c : SyncConflict} (hid : ∀ x ∈ db.conflicts, x.id ≠ c.id)
    (hused : c.id < db.nextId)
    (hopen : c.status = .unresolved → ∀ x ∈ db.conflicts, x.mappingId = c.mappingId → x.status ≠ .unresolved)
    (hmap : ∃ m ∈ db.mappings, m.id = c.mappingId) : (db.insertConflict c).Valid where
  calendarIds := h.calendarIds
  calendarsUsed := h.calendarsUsed
  eventIds := h.eventIds
  eventsUsed := h.eventsUsed
  eventTasks := h.eventTasks
  eventCalendar := h.eventCalendar
  mappingIds := h.mappingIds
  mappingsUsed := h.mappingsUsed
  mappingKeys := h.mappingKeys
  mappingEvents := h.mappingEvents
  mappingEvent := h.mappingEvent
  conflictIds := h.conflictIds.insert fun k hk x hx hxk => hid x hx (Option.some.inj (hxk.trans hk.symm))
  conflictsUsed := by
    intro x hx
    rcases List.mem_append.1 hx with hx | hx
    · exact h.conflictsUsed x hx
    · rw [List.mem_singleton.1 hx]; exact hused
  conflictsOpen := by
    refine h.conflictsOpen.insert fun k hk x hx hxk => ?_
    unfold SyncConflict.openKey at hk hxk
    split at hk
    · split at hxk
      · exact hopen ‹_› x hx (Option.some.inj (hxk.trans hk.symm)) ‹_›
      · cases hxk
    · cases hk
  conflictMapping := by
    intro x hx
    rcases List.mem_append.1 hx with hx | hx
    · exact h.conflictMapping x hx
    · rw [List.mem_singleton.1 hx]; exact hmap

end Primitives

/-! ## Mapped events -/

/-- The calendar of this id is one of Google. -/
def OfGoogle (db : Db) (calendar : Uuid) : Prop := ∃ c ∈ db.calendars, c.id = calendar ∧ c.source = .google

/-- The event of a mapping is in a calendar of Google. -/
def Mapped (db : Db) : Prop :=
  ∀ m ∈ db.mappings, ∀ e ∈ db.events, m.canonicalEventId = some e.id → db.OfGoogle e.calendarId

/-- The constraints of the schema, and only events of Google calendars are mapped. -/
structure Sound (db : Db) : Prop where
  valid : db.Valid
  mapped : db.Mapped

section Sound

variable {db db' : Db}

theorem OfGoogle.updateCalendar {calendar : Uuid} (h : db.OfGoogle calendar) (id : Uuid) {f : Calendar → Calendar}
    (hid : ∀ c, (f c).id = c.id) (hs : ∀ c, (f c).source = c.source) : (db.updateCalendar id f).OfGoogle calendar := by
  obtain ⟨c, hc, hcid, hcs⟩ := h
  by_cases hp : (c.id == id) = true
  · exact ⟨f c, mem_update.2 (.inr ⟨c, hc, hp, rfl⟩), by rw [hid, hcid], by rw [hs, hcs]⟩
  · exact ⟨c, mem_update.2 (.inl ⟨hc, by simpa using hp⟩), hcid, hcs⟩

/-- Mapped events depend on three tables only. -/
theorem Sound.congr (h : db.Sound) (hv : db'.Valid) (hc : db'.calendars = db.calendars) (he : db'.events = db.events)
    (hm : db'.mappings = db.mappings) : db'.Sound := by
  refine ⟨hv, ?_⟩
  unfold Mapped OfGoogle
  rw [hm, he, hc]
  exact h.mapped

theorem Sound.tick (h : db.Sound) (t : Time.DateTime) : Sound { db with now := t } :=
  h.congr (h.valid.congr rfl rfl rfl rfl le_rfl) rfl rfl rfl

theorem Sound.updateCalendar (h : db.Sound) (id : Uuid) {f : Calendar → Calendar} (hid : ∀ c, (f c).id = c.id)
    (hs : ∀ c, (f c).source = c.source) : (db.updateCalendar id f).Sound :=
  ⟨h.valid.updateCalendar id hid, fun m hm e he hme => (h.mapped m hm e he hme).updateCalendar id hid hs⟩

/-- An update of mappings that keeps their ids and keys, and at most drops their events. -/
theorem Sound.updateMappings (h : db.Sound) (p : Mapping → Bool) {f : Mapping → Mapping} (hid : ∀ m, (f m).id = m.id)
    (hcal : ∀ m, (f m).externalCalendarId = m.externalCalendarId)
    (hev : ∀ m, (f m).externalEventId = m.externalEventId)
    (hcan : ∀ m, (f m).canonicalEventId = m.canonicalEventId ∨ (f m).canonicalEventId = none) :
    (db.updateMappings p f).Sound := by
  refine ⟨h.valid.updateMappings p hid hcal hev hcan, ?_⟩
  intro m hm e he hme
  rcases mem_update.1 hm with ⟨hm, -⟩ | ⟨s, hs, -, rfl⟩
  · exact h.mapped m hm e he hme
  · rcases hcan s with hc | hc
    · exact h.mapped s hs e he (hc.symm.trans hme)
    · rw [hc] at hme
      cases hme

theorem Sound.deleteMappings (h : db.Sound) (p : Mapping → Bool) : (db.deleteMappings p).Sound :=
  ⟨h.valid.deleteMappings p, fun m hm e he hme => h.mapped m (mem_delete.1 hm).1 e he hme⟩

theorem Sound.deleteEvents (h : db.Sound) (p : CalendarEvent → Bool) : (db.deleteEvents p).Sound := by
  refine ⟨h.valid.deleteEvents p, ?_⟩
  intro m hm e he hme
  obtain ⟨he, -⟩ := mem_delete.1 he
  rcases mem_update.1 hm with ⟨hm, -⟩ | ⟨s, hs, -, rfl⟩
  · exact h.mapped m hm e he hme
  · cases hme

/-- A new event is not mapped. -/
theorem Valid.unmapped_fresh (h : db.Valid) : ∀ m ∈ db.mappings, m.canonicalEventId ≠ some db.nextId :=
  mappingOf?_eq_none.1 h.mappingOf?_fresh

theorem Valid.insertFresh (h : db.Valid) {event : CalendarEvent} (hid : event.id = db.nextId)
    (htask : ∀ t, event.linkedTaskId = some t → db.taskEvent? t = none)
    (hcal : ∃ c ∈ db.calendars, c.id = event.calendarId) : (db.fresh.insertEvent event).Valid := by
  refine h.fresh.insertEvent ?_ ?_ htask hcal
  · intro x hx hxid
    have := h.eventsUsed x hx
    rw [hxid, hid] at this
    exact lt_irrefl _ this
  · rw [hid]
    exact Nat.lt_succ_self _

theorem Sound.insertEvent (h : db.Sound) {event : CalendarEvent} (hid : event.id = db.nextId)
    (htask : ∀ t, event.linkedTaskId = some t → db.taskEvent? t = none)
    (hcal : ∃ c ∈ db.calendars, c.id = event.calendarId) : (db.fresh.insertEvent event).Sound := by
  refine ⟨h.valid.insertFresh hid htask hcal, ?_⟩
  intro m hm e he hme
  rcases List.mem_append.1 he with he | he
  · exact h.mapped m hm e he hme
  · rw [List.mem_singleton.1 he, hid] at hme
    exact absurd hme (h.valid.unmapped_fresh m hm)

end Sound

end Db

end Prosepect
