/-
What each outcome of a delivery leaves in the tables: the program of an outcome, run without
interruption from tables that meet the constraints, is a function of them.
-/
import Prosepect.Calendar.Delivery

namespace Prosepect

open Resumption

namespace Db

/-! ## The tables after a conflict -/

/-- A conflict of the mapping is recorded unless one is open. -/
def openConflict (m : Mapping) (title : String) (db : Db) : Db :=
  if Table.has (fun c => c.mappingId == m.id && c.status == .unresolved) db.conflicts then db.fresh
  else db.fresh.insertConflict ⟨db.nextId, m.id, m.canonicalEventId, title, .unresolved, none, db.now, none⟩

def raiseConflict (m : Mapping) (title : String) (db : Db) : Db :=
  ((db.openConflict m title).updateMapping m.id flagUnresolved).insertActivity
    "synchronization_conflict" "A calendar event needs a conflict decision"

section

variable (m : Mapping) (db : Db) (title : String)

@[simp] theorem openConflict_events : (db.openConflict m title).events = db.events := by
  unfold openConflict
  split <;> rfl

@[simp] theorem openConflict_mappings : (db.openConflict m title).mappings = db.mappings := by
  unfold openConflict
  split <;> rfl

@[simp] theorem openConflict_policy : (db.openConflict m title).policy = db.policy := by
  unfold openConflict
  split <;> rfl

end

/-! ## The tables after an overwrite -/

/-- The content of an event meets the CHECK constraints, whatever its id, in a calendar that exists. -/
def storable (calendar : Uuid) (content : NormalizedEvent) (db : Db) : Bool :=
  (checkEvent (content.toLocal 0)).isOk && (db.calendar? calendar).isSome

section

variable {db : Db}

theorem Valid.recordConflict_eq (h : db.Valid) {m : Mapping} (hm : m ∈ db.mappings) (title : String) :
    db.recordConflict m.id m.canonicalEventId title = .ok (db.openConflict m title) := by
  unfold Db.recordConflict openConflict
  have hmap : (db.mapping? m.id).isNone = false := by
    rw [h.mapping?_eq_some.2 ⟨hm, rfl⟩]
    rfl
  have hev : (m.canonicalEventId.any fun e => (db.event? e).isNone) = false := by
    cases he : m.canonicalEventId with
    | none => rfl
    | some e =>
      have := event?_isSome.2 (h.mappingEvent m hm e he)
      simpa [Option.isSome_iff_ne_none] using this
  simp only [hmap, hev, Bool.or_self, Bool.false_eq_true, if_false]
  split <;> rfl

theorem checkEvent_toLocal (content : NormalizedEvent) (id id' : Uuid) :
    checkEvent (content.toLocal id) = checkEvent (content.toLocal id') := rfl

theorem storable_iff {calendar : Uuid} {content : NormalizedEvent} :
    db.storable calendar content = true ↔
      checkEvent (content.toLocal 0) = .ok () ∧ (db.calendar? calendar).isSome := by
  unfold storable
  rw [Bool.and_eq_true]
  cases checkEvent (content.toLocal 0) <;> simp [Except.isOk, Except.toBool]

theorem updateCanonicalEvent_error {event calendar : Uuid} {content : NormalizedEvent} {e : CalendarEvent}
    (he : db.event? event = some e) (h : db.storable calendar content = false) :
    ∃ error, db.updateCanonicalEvent event calendar content = .error error := by
  unfold updateCanonicalEvent
  rw [he]
  cases hc : checkEvent (content.toLocal event) with
  | error error => exact ⟨error, rfl⟩
  | ok u =>
    refine ⟨.foreignKey, ?_⟩
    have hcal : (db.calendar? calendar).isNone = true := by
      cases hcal : db.calendar? calendar with
      | none => rfl
      | some c => rw [storable_iff.2 ⟨hc, by rw [hcal]; rfl⟩] at h; cases h
    exact if_pos hcal

theorem updateCanonicalEvent_storable {event calendar : Uuid} {content : NormalizedEvent} {e : CalendarEvent}
    (he : db.event? event = some e) (h : db.storable calendar content = true) :
    ∃ tasks, db.updateCanonicalEvent event calendar content =
      .ok { db.updateEvent event (applyContent calendar content db.now) with tasks := tasks } := by
  obtain ⟨hc, hcal⟩ := storable_iff.1 h
  rw [checkEvent_toLocal content 0 event] at hc
  have hnone : ¬ (db.calendar? calendar).isNone = true := by
    rw [Option.isNone_iff_eq_none]
    exact Option.isSome_iff_ne_none.1 hcal
  unfold updateCanonicalEvent
  simp only [he, hc]
  cases e.linkedTaskId with
  | none => exact ⟨_, if_neg hnone⟩
  | some task => exact ⟨_, if_neg hnone⟩

theorem insertCanonicalEvent_error {calendar : Uuid} {content : NormalizedEvent}
    (h : db.storable calendar content = false) : ∃ error, db.insertCanonicalEvent calendar content = .error error := by
  unfold insertCanonicalEvent
  cases hc : checkEvent (content.toLocal db.nextId) with
  | error error => exact ⟨error, rfl⟩
  | ok u =>
    refine ⟨.foreignKey, ?_⟩
    have hcal : (db.calendar? calendar).isNone = true := by
      cases hcal : db.calendar? calendar with
      | none => rfl
      | some c => rw [storable_iff.2 ⟨hc, by rw [hcal]; rfl⟩] at h; cases h
    exact if_pos hcal

theorem insertCanonicalEvent_storable {calendar : Uuid} {content : NormalizedEvent}
    (h : db.storable calendar content = true) :
    db.insertCanonicalEvent calendar content = .ok (db.fresh.insertEvent (db.importedEvent calendar content)) := by
  obtain ⟨hc, hcal⟩ := storable_iff.1 h
  rw [checkEvent_toLocal content 0 db.nextId] at hc
  have hnone : ¬ (db.calendar? calendar).isNone = true := by
    rw [Option.isNone_iff_eq_none]
    exact Option.isSome_iff_ne_none.1 hcal
  unfold insertCanonicalEvent
  rw [hc]
  exact if_neg hnone

/-- A mapping without an event can be linked to one just inserted. -/
theorem Valid.linkMapping_fresh (h : db.Valid) {m : Mapping} (hm : m ∈ db.mappings) (calendar : Uuid)
    (content : NormalizedEvent) :
    (db.fresh.insertEvent (db.importedEvent calendar content)).linkMapping m.id db.nextId =
      .ok ((db.fresh.insertEvent (db.importedEvent calendar content)).updateMapping m.id fun m =>
        { m with canonicalEventId := some db.nextId }) := by
  unfold Db.linkMapping
  have hmap : ¬ ((db.fresh.insertEvent (db.importedEvent calendar content)).mapping? m.id).isNone = true := by
    rw [Option.isNone_iff_eq_none]
    exact Option.isSome_iff_ne_none.1 (mapping?_isSome.2 ⟨m, hm, rfl⟩)
  have hfree : ¬ Table.has (fun x : Mapping => x.canonicalEventId == some db.nextId && x.id != m.id)
      (db.fresh.insertEvent (db.importedEvent calendar content)).mappings = true := by
    rw [Table.has_iff]
    rintro ⟨x, hx, hc⟩
    simp only [Bool.and_eq_true, beq_iff_eq] at hc
    exact mappingOf?_eq_none.1 h.mappingOf?_fresh x hx hc.1
  have hev : ¬ ((db.fresh.insertEvent (db.importedEvent calendar content)).event? db.nextId).isNone = true := by
    rw [Option.isNone_iff_eq_none]
    exact Option.isSome_iff_ne_none.1 (event?_isSome.2 ⟨_, List.mem_append_right _ (List.mem_singleton.2 rfl), rfl⟩)
  rw [if_neg hmap, if_neg hfree, if_neg hev]

/-- An event just inserted can be mapped to a remote event that has no mapping. -/
theorem Valid.recordMapping_fresh (h : db.Valid) {calendar : Uuid} (content : NormalizedEvent)
    {externalCalendar externalEvent : String} (hfree : db.mappingAt? externalCalendar externalEvent = none)
    (hcal : (db.calendar? calendar).isSome) (etag : Option String) (fingerprint : Fingerprint) :
    ∃ db', (db.fresh.insertEvent (db.importedEvent calendar content)).recordMapping calendar db.nextId
        externalCalendar externalEvent etag fingerprint = .ok db' ∧
      db'.mappings = db.mappings ++
        [newMapping (db.nextId + 1) calendar db.nextId externalCalendar externalEvent etag fingerprint db.now] := by
  unfold Db.recordMapping
  have hkey : ((db.fresh.insertEvent (db.importedEvent calendar content)).mappingAt? externalCalendar
      externalEvent).isSome = false := by
    rw [show (db.fresh.insertEvent (db.importedEvent calendar content)).mappingAt? externalCalendar externalEvent =
      db.mappingAt? externalCalendar externalEvent from rfl, hfree]
    rfl
  have hof : ((db.fresh.insertEvent (db.importedEvent calendar content)).mappingOf? db.nextId).isSome = false := by
    rw [show (db.fresh.insertEvent (db.importedEvent calendar content)).mappingOf? db.nextId =
      db.mappingOf? db.nextId from rfl, h.mappingOf?_fresh]
    rfl
  have hcal' : ((db.fresh.insertEvent (db.importedEvent calendar content)).calendar? calendar).isNone = false := by
    rw [show (db.fresh.insertEvent (db.importedEvent calendar content)).calendar? calendar = db.calendar? calendar from rfl]
    simpa [Option.isSome_iff_ne_none] using hcal
  have hev : ((db.fresh.insertEvent (db.importedEvent calendar content)).event? db.nextId).isNone = false := by
    rw [event?, Option.isNone_eq_false_iff, List.find?_isSome]
    exact ⟨db.importedEvent calendar content, List.mem_append_right _ (List.mem_singleton.2 rfl), by
      simp [Db.importedEvent, NormalizedEvent.toLocal]⟩
  simp only [hkey, hof, hcal', hev, Bool.or_self, Bool.false_eq_true, if_false]
  exact ⟨_, rfl, rfl⟩

end

end Db

namespace SyncService

section Outcomes

variable {σ : Type} {P : Provider σ} {g : σ} {db : Db} {calendar : SyncCalendar} {event : GoogleEvent} {m : Mapping}

theorem run_createConflict (h : db.Valid) (hm : m ∈ db.mappings) (title : String) :
    (createConflict (db.mappingState m) title).run (exec P) (db, g) = (.ok (), (db.raiseConflict m title, g)) := by
  have hr : (Stmt.insertConflict m.id m.canonicalEventId title).run db = .ok ((), db.openConflict m title) := by
    simp only [Stmt.run, h.recordConflict_eq hm]
    rfl
  unfold createConflict
  simp only [Prog.bind_eq, Db.mappingState]
  rw [run_sql_bind hr, run_sql_bind rfl]
  exact run_sql_ok rfl

theorem run_holdConflict (h : db.Valid) (hm : m ∈ db.mappings) :
    ((Exit.holdConflict (db.mappingState m)).perform calendar event).run (exec P) (db, g) =
      (.ok (), ((db.raiseConflict m (event.summary.getD "Deleted task event")).deleteUndos
        (·.mappingId == some m.id), g)) := by
  simp only [Exit.perform, Prog.bind_eq]
  rw [Prog.run_bind_ok _ (run_createConflict h hm _)]
  exact run_sql_ok rfl

theorem run_remove :
    ((Exit.remove (db.mappingState m)).perform calendar event).run (exec P) (db, g) =
      (.ok (), (((match m.canonicalEventId with
        | some e => db.deleteCanonicalEvent e
        | none => db).deleteMappings (·.id == m.id)).insertActivity
          "remote_event_deleted" "Applied a Google event deletion", g)) := by
  simp only [Exit.perform, Prog.bind_eq]
  cases hc : m.canonicalEventId with
  | none =>
    simp only [Db.mappingState, hc]
    rw [run_sql_bind rfl]
    exact run_sql_ok rfl
  | some e =>
    simp only [Db.mappingState, hc]
    rw [run_sql_bind rfl, run_sql_bind rfl]
    exact run_sql_ok rfl

section

variable (P : Provider σ) (g : σ) (calendar : SyncCalendar) (event : GoogleEvent) (n : NormalizedEvent)

/-- Content that cannot be stored stops the delivery and leaves everything as it was. -/
theorem run_overwrite_error (h : db.Valid) (hm : m ∈ db.mappings)
    (hs : db.storable calendar.id n = false) :
    ∃ error, ((Exit.overwrite (db.mappingState m) n).perform calendar event).run (exec P) (db, g) =
      (.error error, (db, g)) := by
  simp only [Exit.perform, applyContent, Prog.bind_eq]
  cases hc : m.canonicalEventId with
  | none =>
    obtain ⟨error, he⟩ := Db.insertCanonicalEvent_error hs
    refine ⟨.database error, ?_⟩
    simp only [Db.mappingState, hc]
    rw [run_sql_bind_error]
    simp only [Stmt.run, he]
    rfl
  | some e =>
    obtain ⟨x, hx⟩ := Option.isSome_iff_exists.1 (Db.event?_isSome.2 (h.mappingEvent m hm e hc))
    obtain ⟨error, he⟩ := Db.updateCanonicalEvent_error hx hs
    refine ⟨.database error, ?_⟩
    simp only [Db.mappingState, hc]
    rw [run_sql_bind_error]
    simp only [Stmt.run, he]
    rfl

/-- Content that can be stored is, as that of the event: the mapping is clean, at the etag of the event. -/
theorem run_overwrite_ok (h : db.Valid) (hm : m ∈ db.mappings)
    (hs : db.storable calendar.id n = true) :
    ∃ db', ((Exit.overwrite (db.mappingState m) n).perform calendar event).run (exec P) (db, g) = (.ok (), (db', g)) ∧
      ∃ mid : Db,
        (mid.now = db.now ∧ ∃ m₁ ∈ mid.mappings, m₁.id = m.id ∧
          ∃ e ∈ mid.events, m₁.canonicalEventId = some e.id ∧ e.toLocalEvent = n.toLocal e.id) ∧
        (mid.mappings = db.mappings ∨ mid.mappings = Table.update (·.id == m.id)
          (fun m => { m with canonicalEventId := some db.nextId }) db.mappings) ∧
        db' = (mid.updateMapping m.id (Db.baseline event.etag (eventFingerprint n) db.now)).insertActivity
          "remote_event_applied" "Applied a Google event change" := by
  simp only [Exit.perform, applyContent, Prog.bind_eq]
  cases hc : m.canonicalEventId with
  | none =>
    have h1 : (Stmt.insertCanonicalEvent calendar.id n).run db =
        .ok (db.nextId, db.fresh.insertEvent (db.importedEvent calendar.id n)) := by
      simp only [Stmt.run, Db.insertCanonicalEvent_storable hs]
      rfl
    have h2 : (Stmt.linkMapping m.id db.nextId).run (db.fresh.insertEvent (db.importedEvent calendar.id n)) =
        .ok ((), (db.fresh.insertEvent (db.importedEvent calendar.id n)).updateMapping m.id fun m =>
          { m with canonicalEventId := some db.nextId }) := by
      simp only [Stmt.run, h.linkMapping_fresh hm]
      rfl
    simp only [Db.mappingState, hc]
    rw [run_sql_bind h1, run_sql_bind h2, run_sql_bind rfl, recordActivity, run_sql_ok rfl]
    refine ⟨_, rfl, (db.fresh.insertEvent (db.importedEvent calendar.id n)).updateMapping m.id fun m =>
      { m with canonicalEventId := some db.nextId }, ⟨rfl, { m with canonicalEventId := some db.nextId }, ?_, rfl, ?_⟩,
      .inr rfl, rfl⟩
    · exact Table.mem_update.2 (.inr ⟨m, hm, beq_self_eq_true m.id, rfl⟩)
    · exact ⟨db.importedEvent calendar.id n, List.mem_append_right _ (List.mem_singleton_self _), rfl, rfl⟩
  | some e =>
    obtain ⟨x, hx⟩ := Option.isSome_iff_exists.1 (Db.event?_isSome.2 (h.mappingEvent m hm e hc))
    obtain ⟨tasks, he⟩ := Db.updateCanonicalEvent_storable hx hs
    have h1 : (Stmt.updateCanonicalEvent e calendar.id n).run db =
        .ok ((), { db.updateEvent e (Db.applyContent calendar.id n db.now) with tasks := tasks }) := by
      simp only [Stmt.run, he]
      rfl
    simp only [Db.mappingState, hc]
    rw [run_sql_bind h1, run_sql_bind rfl, recordActivity, run_sql_ok rfl]
    obtain ⟨hmem, rfl⟩ := h.event?_eq_some.1 hx
    refine ⟨_, rfl, { db.updateEvent x.id (Db.applyContent calendar.id n db.now) with tasks := tasks },
      ⟨rfl, m, hm, rfl, Db.applyContent calendar.id n db.now x, ?_, hc, rfl⟩, .inl rfl, rfl⟩
    exact Table.mem_update.2 (.inr ⟨x, hmem, beq_self_eq_true x.id, rfl⟩)

theorem run_importNew_error (db : Db) (externalId : String) (hs : db.storable calendar.id n = false) :
    ∃ error, ((Exit.importNew externalId n).perform calendar event).run (exec P) (db, g) = (.error error, (db, g)) := by
  obtain ⟨error, he⟩ := Db.insertCanonicalEvent_error hs
  refine ⟨.database error, ?_⟩
  simp only [Exit.perform, importEvent, Prog.bind_eq]
  rw [run_sql_bind_error]
  simp only [Stmt.run, he]
  rfl

/-- An event that can be stored is imported with a clean mapping at its etag. -/
theorem run_importNew_ok (h : db.Valid) {externalId : String}
    (hfree : db.mappingAt? calendar.externalId externalId = none) (hs : db.storable calendar.id n = true) :
    ∃ db', ((Exit.importNew externalId n).perform calendar event).run (exec P) (db, g) = (.ok (), (db', g)) ∧
      db'.mappings = db.mappings ++ [Db.newMapping (db.nextId + 1) calendar.id db.nextId calendar.externalId
        externalId event.etag (eventFingerprint n) db.now] := by
  have h1 : (Stmt.insertCanonicalEvent calendar.id n).run db =
      .ok (db.nextId, db.fresh.insertEvent (db.importedEvent calendar.id n)) := by
    simp only [Stmt.run, Db.insertCanonicalEvent_storable hs]
    rfl
  obtain ⟨db', h2, hmap⟩ := h.recordMapping_fresh n hfree (Db.storable_iff.1 hs).2 event.etag (eventFingerprint n)
  have h3 : (Stmt.insertMapping calendar.id db.nextId calendar.externalId externalId event.etag
      (eventFingerprint n)).run (db.fresh.insertEvent (db.importedEvent calendar.id n)) = .ok ((), db') := by
    simp only [Stmt.run, h2]
    rfl
  simp only [Exit.perform, importEvent, Prog.bind_eq]
  rw [run_sql_bind h1, run_sql_bind h3, recordActivity, run_sql_ok rfl]
  exact ⟨_, rfl, hmap⟩

end

end Outcomes

end SyncService

end Prosepect
