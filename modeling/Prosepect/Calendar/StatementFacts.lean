/-
What the statements of a synchronization keep: the constraints of the schema.
-/
import Prosepect.Calendar.Statements
import Prosepect.Store.Valid

namespace Prosepect

open Resumption

namespace Db

variable {db db' : Db}

/-! ## Checked statements, inverted -/

/-- A guard of a checked statement that did not stop it. -/
theorem guard_ok {c : Prop} [Decidable c] {e : SqlError} {x : Except SqlError Db}
    (h : (if c then .error e else x) = .ok db') : ¬ c ∧ x = .ok db' := by
  by_cases hc : c
  · rw [if_pos hc] at h; cases h
  · rw [if_neg hc] at h; exact ⟨hc, h⟩

theorem guard_isSome {α : Type} {o : Option α} (h : ¬ o.isNone = true) : o.isSome = true :=
  Option.isSome_iff_ne_none.2 (by simpa using h)

theorem bind_ok {α : Type} {x : Except SqlError α} {f : α → Except SqlError Db} (h : (x >>= f) = .ok db') :
    ∃ a, x = .ok a ∧ f a = .ok db' := by
  cases x with
  | ok a => exact ⟨a, rfl, h⟩
  | error e => cases h

theorem updateCanonicalEvent_ok {event calendar : Uuid} {content : NormalizedEvent}
    (h : db.updateCanonicalEvent event calendar content = .ok db') :
    (db.event? event = none ∧ db' = db) ∨
    ∃ e, db.event? event = some e ∧ checkEvent (content.toLocal event) = .ok () ∧ (db.calendar? calendar).isSome ∧
      ∃ tasks, db' = { db.updateEvent event (applyContent calendar content db.now) with tasks := tasks } := by
  unfold updateCanonicalEvent at h
  cases he : db.event? event with
  | none => rw [he] at h; cases h; exact .inl ⟨rfl, rfl⟩
  | some e =>
    rw [he] at h
    obtain ⟨⟨⟩, hc, h⟩ := bind_ok h
    obtain ⟨hcal, h⟩ := guard_ok h
    refine .inr ⟨e, rfl, hc, guard_isSome hcal, ?_⟩
    cases h
    cases e.linkedTaskId with
    | none => exact ⟨_, rfl⟩
    | some task => exact ⟨_, rfl⟩

theorem insertCanonicalEvent_ok {calendar : Uuid} {content : NormalizedEvent}
    (h : db.insertCanonicalEvent calendar content = .ok db') :
    checkEvent (content.toLocal db.nextId) = .ok () ∧ (db.calendar? calendar).isSome ∧
      db' = db.fresh.insertEvent (db.importedEvent calendar content) := by
  unfold insertCanonicalEvent at h
  obtain ⟨⟨⟩, hc, h⟩ := bind_ok h
  obtain ⟨hcal, h⟩ := guard_ok h
  cases h
  exact ⟨hc, guard_isSome hcal, rfl⟩

theorem linkMapping_ok {mapping event : Uuid} (h : db.linkMapping mapping event = .ok db') :
    (db.mapping? mapping = none ∧ db' = db) ∨
    ((db.mapping? mapping).isSome ∧ (∀ m ∈ db.mappings, m.canonicalEventId = some event → m.id = mapping) ∧
      (∃ e ∈ db.events, e.id = event) ∧
      db' = db.updateMapping mapping fun m => { m with canonicalEventId := some event }) := by
  unfold linkMapping at h
  by_cases hm : (db.mapping? mapping).isNone
  · rw [if_pos hm] at h; cases h; exact .inl ⟨by simpa using hm, rfl⟩
  · rw [if_neg hm] at h
    obtain ⟨hfree, h⟩ := guard_ok h
    obtain ⟨hev, h⟩ := guard_ok h
    cases h
    refine .inr ⟨guard_isSome hm, ?_, event?_isSome.1 (guard_isSome hev), rfl⟩
    intro m hmm hme
    have := Table.has_eq_false_iff.1 (Bool.eq_false_iff.2 hfree) m hmm
    simpa [hme] using this

theorem recordMapping_ok {calendar event : Uuid} {externalCalendar externalEvent : String} {etag : Option String}
    {fingerprint : Fingerprint}
    (h : db.recordMapping calendar event externalCalendar externalEvent etag fingerprint = .ok db') :
    db.mappingAt? externalCalendar externalEvent = none ∧ db.mappingOf? event = none ∧
      (db.calendar? calendar).isSome ∧ (∃ e ∈ db.events, e.id = event) ∧
      db' = db.fresh.insertMapping
        (newMapping db.nextId calendar event externalCalendar externalEvent etag fingerprint db.now) := by
  unfold recordMapping at h
  obtain ⟨hu, h⟩ := guard_ok h
  obtain ⟨hf, h⟩ := guard_ok h
  cases h
  simp only [Bool.or_eq_true, not_or, Bool.not_eq_true, Option.isSome_eq_false_iff, Option.isNone_iff_eq_none] at hu
  simp only [Bool.or_eq_true, not_or] at hf
  exact ⟨hu.1, hu.2, guard_isSome hf.1, event?_isSome.1 (guard_isSome hf.2), rfl⟩

theorem recordConflict_ok {mapping : Uuid} {event : Option Uuid} {title : String}
    (h : db.recordConflict mapping event title = .ok db') :
    ((∃ c ∈ db.conflicts, c.mappingId = mapping ∧ c.status = .unresolved) ∧ db' = db.fresh) ∨
    ((∀ c ∈ db.conflicts, c.mappingId = mapping → c.status ≠ .unresolved) ∧ (db.mapping? mapping).isSome ∧
      db' = db.fresh.insertConflict ⟨db.nextId, mapping, event, title, .unresolved, none, db.now, none⟩) := by
  unfold recordConflict at h
  by_cases hc : Table.has (fun c => c.mappingId == mapping && c.status == .unresolved) db.conflicts = true
  · rw [if_pos hc] at h; cases h
    exact .inl ⟨by simpa using hc, rfl⟩
  · rw [if_neg hc] at h
    obtain ⟨hf, h⟩ := guard_ok h
    cases h
    refine .inr ⟨fun c hcm hcid => ?_, ?_, rfl⟩
    · have := Table.has_eq_false_iff.1 (Bool.eq_false_iff.2 hc) c hcm
      simpa [hcid] using this
    · simp only [Bool.or_eq_true, not_or] at hf
      exact guard_isSome hf.1

/-! ## The constraints -/

theorem Valid.importEvent (h : db.Valid) {calendar : Uuid} {content : NormalizedEvent} (hc : (db.calendar? calendar).isSome) :
    (db.fresh.insertEvent (db.importedEvent calendar content)).Valid := by
  refine h.fresh.insertEvent ?_ (Nat.lt_succ_self _) (fun t ht => by cases ht) (calendar?_isSome.1 hc)
  intro x hx hid
  exact absurd (h.eventsUsed x hx) (by rw [hid]; exact lt_irrefl _)

theorem Valid.recordMapping (h : db.Valid) {calendar event : Uuid} {externalCalendar externalEvent : String}
    {etag : Option String} {fingerprint : Fingerprint}
    (hr : db.recordMapping calendar event externalCalendar externalEvent etag fingerprint = .ok db') : db'.Valid := by
  obtain ⟨hkey, hfree, -, hev, rfl⟩ := recordMapping_ok hr
  refine h.fresh.insertMapping ?_ (Nat.lt_succ_self _) hkey ?_
  · intro x hx hid
    exact absurd (h.mappingsUsed x hx) (by rw [hid]; exact lt_irrefl _)
  · intro e he
    cases he
    exact ⟨hfree, hev⟩

theorem Valid.recordConflict (h : db.Valid) {mapping : Uuid} {event : Option Uuid} {title : String}
    (hr : db.recordConflict mapping event title = .ok db') : db'.Valid := by
  rcases recordConflict_ok hr with ⟨-, rfl⟩ | ⟨hopen, hm, rfl⟩
  · exact h.fresh
  · refine h.fresh.insertConflict ?_ (Nat.lt_succ_self _) (fun _ x hx hxm => hopen x hx hxm) ?_
    · intro x hx hid
      exact absurd (h.conflictsUsed x hx) (by rw [hid]; exact lt_irrefl _)
    · exact mapping?_isSome.1 hm

theorem Valid.linkMapping (h : db.Valid) {mapping event : Uuid} (hr : db.linkMapping mapping event = .ok db') :
    db'.Valid := by
  rcases linkMapping_ok hr with ⟨-, rfl⟩ | ⟨-, hfree, hev, rfl⟩
  · exact h
  · exact h.link hev hfree

theorem Valid.updateCanonicalEvent (h : db.Valid) {event calendar : Uuid} {content : NormalizedEvent}
    (hr : db.updateCanonicalEvent event calendar content = .ok db') : db'.Valid := by
  rcases updateCanonicalEvent_ok hr with ⟨-, rfl⟩ | ⟨e, he, -, hc, tasks, rfl⟩
  · exact h
  · have hv : (db.updateEvent event (applyContent calendar content db.now)).Valid :=
      h.updateEvents _ (fun _ => rfl) (fun _ => rfl) fun _ _ _ => calendar?_isSome.1 hc
    exact hv.congr rfl rfl rfl rfl le_rfl

theorem Valid.deleteCanonicalEvent (h : db.Valid) (event : Uuid) : (db.deleteCanonicalEvent event).Valid := by
  unfold Db.deleteCanonicalEvent
  split
  · exact (h.deleteEvents _).updateTask _ _
  · exact h.deleteEvents _

end Db

theorem Except.map_ok {ε α β : Type} {x : Except ε α} {f : α → β} {b : β} (h : x.map f = .ok b) :
    ∃ a, x = .ok a ∧ f a = b := by
  cases x with
  | ok a => exact ⟨a, rfl, Except.ok.inj h⟩
  | error e => cases h

/-! What a statement that can fail has done when it succeeds. -/

namespace Stmt

variable {db db' : Db}

theorem selectCalendars_ok {only : Option Uuid} {v : (selectCalendars only).Val}
    (hr : (selectCalendars only).run db = .ok (v, db')) : db.selectCalendars only = .ok v ∧ db' = db := by
  rw [Stmt.run] at hr
  obtain ⟨_, hc, hx⟩ := Except.map_ok hr
  cases hx
  exact ⟨hc, rfl⟩

theorem insertConflict_ok {id : Uuid} {event : Option Uuid} {title : String} {v : (insertConflict id event title).Val}
    (hr : (insertConflict id event title).run db = .ok (v, db')) : db.recordConflict id event title = .ok db' := by
  rw [Stmt.run] at hr
  obtain ⟨_, hc, hx⟩ := Except.map_ok hr
  cases hx
  exact hc

theorem updateCanonicalEvent_ok {id calendar : Uuid} {content : NormalizedEvent}
    {v : (updateCanonicalEvent id calendar content).Val}
    (hr : (updateCanonicalEvent id calendar content).run db = .ok (v, db')) :
    db.updateCanonicalEvent id calendar content = .ok db' := by
  rw [Stmt.run] at hr
  obtain ⟨_, hc, hx⟩ := Except.map_ok hr
  cases hx
  exact hc

theorem insertCanonicalEvent_ok {calendar : Uuid} {content : NormalizedEvent}
    {v : (insertCanonicalEvent calendar content).Val}
    (hr : (insertCanonicalEvent calendar content).run db = .ok (v, db')) :
    db.insertCanonicalEvent calendar content = .ok db' ∧ v = db.nextId := by
  rw [Stmt.run] at hr
  obtain ⟨_, hc, hx⟩ := Except.map_ok hr
  cases hx
  exact ⟨hc, rfl⟩

theorem linkMapping_ok {id event : Uuid} {v : (linkMapping id event).Val}
    (hr : (linkMapping id event).run db = .ok (v, db')) : db.linkMapping id event = .ok db' := by
  rw [Stmt.run] at hr
  obtain ⟨_, hc, hx⟩ := Except.map_ok hr
  cases hx
  exact hc

theorem insertMapping_ok {calendar event : Uuid} {externalCalendar externalEvent : String} {etag : Option String}
    {fingerprint : Fingerprint}
    {v : (insertMapping calendar event externalCalendar externalEvent etag fingerprint).Val}
    (hr : (insertMapping calendar event externalCalendar externalEvent etag fingerprint).run db = .ok (v, db')) :
    db.recordMapping calendar event externalCalendar externalEvent etag fingerprint = .ok db' := by
  rw [Stmt.run] at hr
  obtain ⟨_, hc, hx⟩ := Except.map_ok hr
  cases hx
  exact hc

end Stmt

/-- Every statement keeps the constraints. -/
theorem Stmt.run_valid {s : Stmt} {db db' : Db} {v : s.Val} (hr : s.run db = .ok (v, db')) (h : db.Valid) :
    db'.Valid := by
  cases s with
  | selectCalendars only =>
    obtain ⟨-, rfl⟩ := Stmt.selectCalendars_ok hr
    exact h
  | selectMapping | selectPolicy | existsUnresolved | selectUnmapped | selectDirty | selectResolutionPending =>
    cases hr; exact h
  | dropTombstone => cases hr; exact (h.deleteUndos _).deleteMappings _
  | deleteUndos => cases hr; exact h.deleteUndos _
  | insertConflict =>
    have hc := Stmt.insertConflict_ok hr
    exact h.recordConflict hc
  | deleteMapping | deletePendingMapping => cases hr; exact h.deleteMappings _
  | deleteCanonicalEvent => cases hr; exact h.deleteCanonicalEvent _
  | setUnresolved | clearPendingResolution | updateMappingBaseline | recordPushed =>
    cases hr
    exact h.updateMapping _ (fun _ => rfl) (fun _ => rfl) (fun _ => rfl) (fun _ => .inl rfl)
  | updateCanonicalEvent =>
    have hc := Stmt.updateCanonicalEvent_ok hr
    exact h.updateCanonicalEvent hc
  | insertCanonicalEvent =>
    obtain ⟨hc, -⟩ := Stmt.insertCanonicalEvent_ok hr
    obtain ⟨-, hcal, rfl⟩ := Db.insertCanonicalEvent_ok hc
    exact h.importEvent hcal
  | linkMapping =>
    have hc := Stmt.linkMapping_ok hr
    exact h.linkMapping hc
  | insertMapping =>
    have hc := Stmt.insertMapping_ok hr
    exact h.recordMapping hc
  | setSyncToken | setSyncError | setSynced => cases hr; exact h.updateCalendar _ fun _ => rfl
  | recordActivity => cases hr; exact h.insertActivity _ _

theorem Stmt.exec_ok {s : Stmt} {db db' : Db} {v : s.Val} (h : s.run db = .ok (v, db')) :
    s.exec db = (.ok v, db') := by
  unfold Stmt.exec
  rw [h]
  rfl

theorem Stmt.exec_error {s : Stmt} {db : Db} {e : SqlError} (h : s.run db = .error e) :
    s.exec db = (.error e, db) := by
  unfold Stmt.exec
  rw [h]
  rfl

/-- A statement ran, or left everything as it was. -/
theorem Stmt.exec_cases (s : Stmt) (db : Db) :
    (∃ v db', s.run db = .ok (v, db') ∧ s.exec db = (.ok v, db')) ∨
    ∃ e, s.run db = .error e ∧ s.exec db = (.error e, db) := by
  cases h : s.run db with
  | ok p => exact .inl ⟨p.1, p.2, rfl, Stmt.exec_ok h⟩
  | error e => exact .inr ⟨e, rfl, Stmt.exec_error h⟩

theorem Stmt.exec_valid (s : Stmt) {db : Db} (h : db.Valid) : (s.exec db).2.Valid := by
  rcases s.exec_cases db with ⟨v, db', hr, hx⟩ | ⟨e, -, hx⟩
  · rw [hx]; exact Stmt.run_valid hr h
  · rw [hx]; exact h

/-! ## Mapped events -/

/-- A statement that writes an event or links one puts it in a Google calendar. -/
def Stmt.Placed (s : Stmt) (db : Db) : Prop :=
  match s with
  | .updateCanonicalEvent _ calendar _ => db.OfGoogle calendar
  | .linkMapping _ event | .insertMapping _ event .. => ∀ e ∈ db.events, e.id = event → db.OfGoogle e.calendarId
  | _ => True

namespace Db

variable {db db' : Db}

theorem Sound.recordMapping (h : db.Sound) {calendar event : Uuid} {externalCalendar externalEvent : String}
    {etag : Option String} {fingerprint : Fingerprint}
    (hr : db.recordMapping calendar event externalCalendar externalEvent etag fingerprint = .ok db')
    (hp : ∀ e ∈ db.events, e.id = event → db.OfGoogle e.calendarId) : db'.Sound := by
  refine ⟨h.valid.recordMapping hr, ?_⟩
  obtain ⟨-, -, -, -, rfl⟩ := recordMapping_ok hr
  intro m hm e he hme
  rcases List.mem_append.1 hm with hm | hm
  · exact h.mapped m hm e he hme
  · rw [List.mem_singleton.1 hm] at hme
    exact hp e he (Option.some.inj hme).symm

theorem Sound.linkMapping (h : db.Sound) {mapping event : Uuid} (hr : db.linkMapping mapping event = .ok db')
    (hp : ∀ e ∈ db.events, e.id = event → db.OfGoogle e.calendarId) : db'.Sound := by
  refine ⟨h.valid.linkMapping hr, ?_⟩
  rcases linkMapping_ok hr with ⟨-, rfl⟩ | ⟨-, -, -, rfl⟩
  · exact h.mapped
  · intro m hm e he hme
    rcases Table.mem_update.1 hm with ⟨hm, -⟩ | ⟨x, -, -, rfl⟩
    · exact h.mapped m hm e he hme
    · exact hp e he (Option.some.inj hme).symm

theorem Sound.updateCanonicalEvent (h : db.Sound) {event calendar : Uuid} {content : NormalizedEvent}
    (hr : db.updateCanonicalEvent event calendar content = .ok db') (hp : db.OfGoogle calendar) : db'.Sound := by
  refine ⟨h.valid.updateCanonicalEvent hr, ?_⟩
  rcases updateCanonicalEvent_ok hr with ⟨-, rfl⟩ | ⟨e, -, -, -, tasks, rfl⟩
  · exact h.mapped
  · intro m hm x hx hmx
    rcases Table.mem_update.1 hx with ⟨hx, -⟩ | ⟨y, -, -, rfl⟩
    · exact h.mapped m hm x hx hmx
    · exact hp

theorem Sound.deleteCanonicalEvent (h : db.Sound) (event : Uuid) : (db.deleteCanonicalEvent event).Sound := by
  refine ⟨h.valid.deleteCanonicalEvent event, ?_⟩
  unfold Db.deleteCanonicalEvent
  split
  · exact (h.deleteEvents _).mapped
  · exact (h.deleteEvents _).mapped

end Db

/-- A statement whose events are in Google calendars leaves only such events mapped. -/
theorem Stmt.run_sound {s : Stmt} {db db' : Db} {v : s.Val} (hr : s.run db = .ok (v, db')) (h : db.Sound)
    (hp : s.Placed db) : db'.Sound := by
  have hv := Stmt.run_valid hr h.valid
  cases s with
  | selectCalendars only =>
    obtain ⟨-, rfl⟩ := Stmt.selectCalendars_ok hr
    exact h
  | selectMapping | selectPolicy | existsUnresolved | selectUnmapped | selectDirty | selectResolutionPending =>
    cases hr; exact h
  | dropTombstone => cases hr; exact ⟨hv, (h.deleteMappings _).mapped⟩
  | deleteUndos => cases hr; exact ⟨hv, h.mapped⟩
  | insertConflict =>
    have hc := Stmt.insertConflict_ok hr
    rcases Db.recordConflict_ok hc with ⟨-, rfl⟩ | ⟨-, -, rfl⟩
    · exact ⟨hv, h.mapped⟩
    · exact ⟨hv, h.mapped⟩
  | deleteMapping | deletePendingMapping => cases hr; exact h.deleteMappings _
  | deleteCanonicalEvent => cases hr; exact h.deleteCanonicalEvent _
  | setUnresolved | clearPendingResolution | updateMappingBaseline | recordPushed =>
    cases hr
    exact h.updateMappings _ (fun _ => rfl) (fun _ => rfl) (fun _ => rfl) (fun _ => .inl rfl)
  | updateCanonicalEvent =>
    have hc := Stmt.updateCanonicalEvent_ok hr
    exact h.updateCanonicalEvent hc hp
  | insertCanonicalEvent =>
    obtain ⟨hc, -⟩ := Stmt.insertCanonicalEvent_ok hr
    obtain ⟨-, hcal, rfl⟩ := Db.insertCanonicalEvent_ok hc
    exact h.insertEvent rfl (fun t ht => by cases ht) (Db.calendar?_isSome.1 hcal)
  | linkMapping =>
    have hc := Stmt.linkMapping_ok hr
    exact h.linkMapping hc hp
  | insertMapping =>
    have hc := Stmt.insertMapping_ok hr
    exact h.recordMapping hc hp
  | setSyncToken | setSyncError | setSynced => cases hr; exact h.updateCalendar _ (fun _ => rfl) fun _ => rfl
  | recordActivity => cases hr; exact ⟨hv, h.mapped⟩

/-- Calendars of Google stay such. -/
theorem Stmt.run_ofGoogle {s : Stmt} {db db' : Db} {v : s.Val} (hr : s.run db = .ok (v, db')) {calendar : Uuid}
    (h : db.OfGoogle calendar) : db'.OfGoogle calendar := by
  cases s with
  | selectCalendars only =>
    obtain ⟨-, rfl⟩ := Stmt.selectCalendars_ok hr
    exact h
  | selectMapping | selectPolicy | existsUnresolved | selectUnmapped | selectDirty | selectResolutionPending =>
    cases hr; exact h
  | dropTombstone | deleteUndos | deleteMapping | deletePendingMapping => cases hr; exact h
  | setUnresolved | clearPendingResolution | updateMappingBaseline | recordPushed | recordActivity => cases hr; exact h
  | insertConflict =>
    have hc := Stmt.insertConflict_ok hr
    rcases Db.recordConflict_ok hc with ⟨-, rfl⟩ | ⟨-, -, rfl⟩
    · exact h
    · exact h
  | deleteCanonicalEvent event =>
    cases hr
    unfold Db.deleteCanonicalEvent
    split
    · exact h
    · exact h
  | updateCanonicalEvent =>
    have hc := Stmt.updateCanonicalEvent_ok hr
    rcases Db.updateCanonicalEvent_ok hc with ⟨-, rfl⟩ | ⟨e, -, -, -, tasks, rfl⟩
    · exact h
    · exact h
  | insertCanonicalEvent =>
    obtain ⟨hc, -⟩ := Stmt.insertCanonicalEvent_ok hr
    obtain ⟨-, -, rfl⟩ := Db.insertCanonicalEvent_ok hc
    exact h
  | linkMapping =>
    have hc := Stmt.linkMapping_ok hr
    rcases Db.linkMapping_ok hc with ⟨-, rfl⟩ | ⟨-, -, -, rfl⟩
    · exact h
    · exact h
  | insertMapping =>
    have hc := Stmt.insertMapping_ok hr
    obtain ⟨-, -, -, -, rfl⟩ := Db.recordMapping_ok hc
    exact h
  | setSyncToken | setSyncError | setSynced =>
    cases hr
    exact h.updateCalendar _ (fun _ => rfl) fun _ => rfl

/-- The calendars a pass goes through. -/
theorem Db.mem_selectCalendars {db : Db} {only : Option Uuid} {cs : List SyncCalendar}
    (h : db.selectCalendars only = .ok cs) {c : SyncCalendar} (hc : c ∈ cs) :
    ∃ row ∈ db.calendars, row.source = .google ∧ row.selected = true ∧ row.id = c.id ∧ row.externalId = some c.externalId ∧
      row.syncToken = c.syncToken := by
  unfold selectCalendars at h
  generalize hrows : db.calendars.filter (fun c => c.source == .google && c.selected && (only.isNone || only == some c.id))
    = rows at h
  have hin : ∀ row ∈ rows, row ∈ db.calendars ∧ row.source = .google ∧ row.selected = true := by
    intro row hrow
    rw [← hrows] at hrow
    obtain ⟨hm, hp⟩ := List.mem_filter.1 hrow
    simp only [Bool.and_eq_true, beq_iff_eq] at hp
    exact ⟨hm, hp.1.1, hp.1.2⟩
  clear hrows
  induction rows generalizing cs with
  | nil =>
    cases h
    cases hc
  | cons row rows ih =>
    rw [List.mapM_cons] at h
    cases hrow : syncCalendar row with
    | error e => rw [hrow] at h; cases h
    | ok first =>
      cases hrest : rows.mapM syncCalendar with
      | error e => rw [hrow, hrest] at h; cases h
      | ok rest =>
        rw [hrow, hrest] at h
        cases h
        rcases List.mem_cons.1 hc with rfl | hc
        · obtain ⟨hm, hs, hsel⟩ := hin row List.mem_cons_self
          unfold syncCalendar at hrow
          split at hrow
          · cases hrow
            exact ⟨row, hm, hs, hsel, rfl, ‹_›, rfl⟩
          · cases hrow
        · exact ih hc hrest fun r hr => hin r (List.mem_cons_of_mem _ hr)

/-! ## Sample tables -/

/-- The calendar of the samples. -/
def work : SyncCalendar := ⟨1, "work", none⟩

def workCalendar : Calendar where
  id := 1
  source := .google
  externalId := some "work"
  selected := true
  isDefault := false
  providerPrimary := true
  accessRole := .owner
  syncToken := none
  lastSyncedAt := none
  lastSyncError := none

def planning : CalendarEvent where
  id := 2
  title := "Planning"
  description := ""
  startsAt := 0
  endsAt := 3600000000
  allDay := false
  timezone := "UTC"
  location := ""
  attendees := []
  recurrence := .none
  recurrenceUntil := none
  calendarId := 1
  linkedTaskId := none
  createdAt := 0
  updatedAt := 0
  version := 2

/-- A clean mapping of `planning` at a first etag. -/
def planningMapping : Mapping :=
  Db.newMapping 3 1 2 "work" "planning" (some "1") (localFingerprint planning.toLocalEvent) 0

/-- One Google calendar with one event. -/
def planningTables (mapping : Mapping) : Db where
  now := 0
  nextId := 10
  policy := some .ask
  timezone := "UTC"
  calendars := [workCalendar]
  events := [planning]
  mappings := [mapping]
  conflicts := []
  jobs := []
  undos := []
  tasks := []
  projects := []
  labels := []
  activity := []

example : (planningTables planningMapping).Valid := by decide

end Prosepect
