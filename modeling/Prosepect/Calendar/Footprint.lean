/-
What the parts of a pass may issue, whatever is answered: the statements of each exit of a delivery
(`Exit.Runs`), the operations of a creation (`Creates`) and of a push (`Pushes`); which requests write
to a remote event, and which calendar the row of a mapping addresses (`Addressed`).
-/
import Prosepect.Calendar.Passes
import Prosepect.Store.Edits

namespace Prosepect

open Resumption SyncService Table Time

/-! ## Deliveries -/

/-- The statements of an exit. -/
inductive SyncService.Exit.Runs (c : SyncCalendar) (event : GoogleEvent) : Exit → Stmt → Prop
  | activity {x : Exit} {kind message : String} : Runs c event x (.recordActivity kind message)
  | drop {st : MappingState} : Runs c event (.drop st) (.dropTombstone st.id)
  | holdRecord {st : MappingState} {title : String} :
    Runs c event (.holdConflict st) (.insertConflict st.id st.canonicalEventId title)
  | holdFlag {st : MappingState} : Runs c event (.holdConflict st) (.setUnresolved st.id)
  | holdReceipts {st : MappingState} : Runs c event (.holdConflict st) (.deleteUndos st.id)
  | record {st : MappingState} {title : String} :
    Runs c event (.conflict st title) (.insertConflict st.id st.canonicalEventId title)
  | flag {st : MappingState} {title : String} : Runs c event (.conflict st title) (.setUnresolved st.id)
  | forget {st : MappingState} : Runs c event (.forget st) (.deleteMapping st.id)
  | removeEvent {st : MappingState} {id : Uuid} : st.canonicalEventId = some id →
    Runs c event (.remove st) (.deleteCanonicalEvent id)
  | removeMapping {st : MappingState} : Runs c event (.remove st) (.deleteMapping st.id)
  | keep {st : MappingState} : Runs c event (.keep st) (.clearPendingResolution st.id)
  | update {st : MappingState} {n : NormalizedEvent} {id : Uuid} : st.canonicalEventId = some id →
    Runs c event (.overwrite st n) (.updateCanonicalEvent id c.id n)
  | insert {st : MappingState} {n : NormalizedEvent} : st.canonicalEventId = none →
    Runs c event (.overwrite st n) (.insertCanonicalEvent c.id n)
  | link {st : MappingState} {n : NormalizedEvent} {id : Uuid} : st.canonicalEventId = none →
    Runs c event (.overwrite st n) (.linkMapping st.id id)
  | baseline {st : MappingState} {n : NormalizedEvent} :
    Runs c event (.overwrite st n) (.updateMappingBaseline st.id event.etag (eventFingerprint n))
  | importInsert {x : String} {n : NormalizedEvent} : Runs c event (.importNew x n) (.insertCanonicalEvent c.id n)
  | importRecord {x : String} {n : NormalizedEvent} {id : Uuid} :
    Runs c event (.importNew x n) (.insertMapping c.id id c.externalId x event.etag (eventFingerprint n))

/-- The operations are statements of one kind. -/
abbrev Sqls (P : Stmt → Prop) (o : Op) : Prop := ∃ s, o = .sql s ∧ P s

section Only

variable {α : Type} {P : Stmt → Prop} {R : Op → Prop}

theorem only_sql {s : Stmt} (h : P s) : (sql s).Only (Sqls P) := by
  refine ⟨⟨s, rfl, h⟩, fun r => ?_⟩
  cases r <;> exact trivial

theorem only_request {q : Request} (h : R (.http q)) : (request q).Only R := by
  refine ⟨h, fun r => ?_⟩
  cases r <;> exact trivial

theorem only_sendFrom {q : Request} (h : R (.http q)) : ∀ attempts, (sendFrom q attempts).Only R
  | 0 => only_request h
  | n + 1 => by
    refine (only_request h).bind fun response => ?_
    apply Prog.Only.ite
    · exact fun _ => only_sendFrom h n
    · exact fun _ => trivial

theorem only_errorForStatus {β : Type} (context : String) (response : Response β) :
    (errorForStatus context response).Only R :=
  .ite (fun _ => trivial) fun _ => trivial

theorem only_json {β : Type} (context : String) (response : Response β) : (json context response).Only R := by
  unfold json
  split <;> exact trivial

theorem only_sendJson {q : Request} (h : R (.http q)) : (sendJson q).Only R :=
  (only_sendFrom h 3).bind fun response => (only_errorForStatus _ response).bind fun response => only_json _ response

end Only

theorem createConflict_only {P : Stmt → Prop} {st : MappingState} {title : String}
    (hrecord : P (.insertConflict st.id st.canonicalEventId title)) (hflag : P (.setUnresolved st.id))
    (hactivity : ∀ kind message, P (.recordActivity kind message)) : (createConflict st title).Only (Sqls P) :=
  (only_sql hrecord).bind fun _ => (only_sql hflag).bind fun _ => only_sql (hactivity _ _)

/-- An exit runs its statements only. -/
theorem SyncService.Exit.perform_only (c : SyncCalendar) (event : GoogleEvent) (x : Exit) :
    (x.perform c event).Only (Sqls (Exit.Runs c event x)) := by
  cases x with
  | skip | invalid => exact trivial
  | drop st => exact only_sql .drop
  | holdConflict st =>
    exact (createConflict_only .holdRecord .holdFlag fun _ _ => .activity).bind fun _ => only_sql .holdReceipts
  | conflict st title => exact createConflict_only .record .flag fun _ _ => .activity
  | forget st => exact only_sql .forget
  | remove st =>
    have hmapping : Prog.Only (Sqls (Exit.Runs c event (.remove st))) (do
        sql (.deleteMapping st.id)
        recordActivity "remote_event_deleted" "Applied a Google event deletion") :=
      (only_sql .removeMapping).bind fun _ => only_sql .activity
    simp only [Exit.perform]
    cases hid : st.canonicalEventId with
    | none => exact hmapping
    | some id => exact (only_sql (.removeEvent hid)).bind fun _ => hmapping
  | keep st => exact only_sql .keep
  | overwrite st n =>
    have hbaseline : Prog.Only (Sqls (Exit.Runs c event (.overwrite st n))) (do
        sql (.updateMappingBaseline st.id event.etag (eventFingerprint n))
        recordActivity "remote_event_applied" "Applied a Google event change") :=
      (only_sql .baseline).bind fun _ => only_sql .activity
    simp only [Exit.perform, applyContent]
    cases hid : st.canonicalEventId with
    | none => exact (only_sql (.insert hid)).bind fun _ => (only_sql (.link hid)).bind fun _ => hbaseline
    | some id => exact (only_sql (.update hid)).bind fun _ => hbaseline
  | importNew x n =>
    exact (only_sql .importInsert).bind fun _ => (only_sql .importRecord).bind fun _ => only_sql .activity

/-- The mapping an exit is about. -/
def SyncService.Exit.state? : Exit → Option MappingState
  | .skip | .invalid _ | .importNew .. => none
  | .drop st | .holdConflict st | .conflict st _ | .forget st | .remove st | .keep st | .overwrite st _ => some st

theorem exitOf_state {x : String} {event : GoogleEvent} {setting : Option SyncConflictPolicy} {m : Option MappingState}
    {st : MappingState} (h : (exitOf x event setting m).state? = some st) : m = some st := by
  cases m with
  | none =>
    simp only [exitOf] at h
    split at h
    · cases h
    · split at h
      · cases h
      · cases h
  | some r =>
    suffices h : (exitOf x event setting (some r)).state? = none ∨ (exitOf x event setting (some r)).state? = some r by
      rename_i h₀
      rcases h with h | h
      · rw [h] at h₀
        cases h₀
      · exact h.symm.trans h₀
    simp only [exitOf, exitTombstone, exitCancelled, exitChanged]
    repeat' split
    all_goals first | exact .inl rfl | exact .inr rfl

/-- Without a mapping to act on, an exit does nothing, unless there was none. -/
theorem exitOf_idle {x : String} {event : GoogleEvent} {setting : Option SyncConflictPolicy} {st : MappingState}
    (h : (exitOf x event setting (some st)).state? = none) : exitOf x event setting (some st) = .skip ∨
      ∃ message, exitOf x event setting (some st) = .invalid message := by
  generalize hx : exitOf x event setting (some st) = exit at h
  cases exit with
  | skip => exact .inl rfl
  | invalid message => exact .inr ⟨message, rfl⟩
  | importNew y n =>
    simp only [exitOf, exitTombstone, exitCancelled, exitChanged] at hx
    repeat' split at hx
    all_goals cases hx
  | _ => cases h

/-! ## Pushes -/

/-- The operations that create a remote event. -/
inductive Creates (c : SyncCalendar) (event : LocalEvent) : Op → Prop
  | post : Creates c event (.http (.postEvent c.externalId
      { GoogleEventWrite.fromLocal event with id := some (googleEventId event.id) }))
  | get : Creates c event (.http (.getEvent c.externalId (googleEventId event.id)))
  | record {x : String} {etag : Option String} :
    Creates c event (.sql (.insertMapping c.id event.id c.externalId x etag (localFingerprint event)))
  | activity {kind message : String} : Creates c event (.sql (.recordActivity kind message))

theorem pushUnmapped_only (c : SyncCalendar) (event : LocalEvent) : (pushUnmapped c event).Only (Creates c event) := by
  have hsql : ∀ s, Creates c event (.sql s) → (sql s).Only (Creates c event) := by
    intro s hs
    refine ⟨hs, fun r => ?_⟩
    cases r <;> exact trivial
  have hcreate : (createRemote c event).Only (Creates c event) := by
    refine (only_sendFrom .post 3).bind fun response => .ite (fun _ => only_sendJson .get) fun _ => ?_
    exact (only_errorForStatus _ _).bind fun response => only_json _ _
  exact hcreate.bind fun remote => (hsql _ .record).bind fun _ => hsql _ .activity

/-- The operations that push a mapping. -/
inductive Pushes (c : SyncCalendar) (d : DirtyMapping) : Op → Prop
  | put {event : LocalEvent} : d.localDeleted = false → d.event = some event →
    Pushes c d (.http (.putEvent c.externalId d.externalEventId (GoogleEventWrite.fromLocal event) d.externalEtag))
  | pushed {event : LocalEvent} {etag : Option String} : d.localDeleted = false → d.event = some event →
    Pushes c d (.sql (.recordPushed d.mappingId etag (localFingerprint event)))
  | delete : Pushes c d (.http (.deleteEvent c.externalId d.externalEventId d.externalEtag))
  | deleted : Pushes c d (.sql (.deleteMapping d.mappingId))
  | activity {kind message : String} : Pushes c d (.sql (.recordActivity kind message))

theorem pushDirty_only (c : SyncCalendar) (d : DirtyMapping) : (pushDirty c d).Only (Pushes c d) := by
  have hsql : ∀ s, Pushes c d (.sql s) → (sql s).Only (Pushes c d) := by
    intro s hs
    refine ⟨hs, fun r => ?_⟩
    cases r <;> exact trivial
  have hdeleted : Prog.Only (Pushes c d) (do
      sql (.deleteMapping d.mappingId)
      recordActivity "local_event_deleted" "Deleted a Google event from Prosepect") :=
    (hsql _ .deleted).bind fun _ => hsql _ .activity
  unfold pushDirty
  split
  · rename_i hd he
    exact (only_sendJson (.put hd he)).bind fun remote => (hsql _ (.pushed hd he)).bind fun _ => hsql _ .activity
  · refine (only_sendFrom .delete 3).bind fun response => ?_
    exact .ite (fun _ => hdeleted) fun _ => (only_errorForStatus _ _).bind fun _ => hdeleted

/-! ## Remote events -/

/-- The request changes or deletes this remote event. -/
def Request.Writes (calendar event : String) : Request → Prop
  | .putEvent c e _ _ => c = calendar ∧ e = event
  | .deleteEvent c e _ => c = calendar ∧ e = event
  | .listEvents .. | .getEvent .. | .postEvent .. | .accessToken => False

/-- The key of the remote event a mapping stands for. -/
def Mapping.key (m : Mapping) : String × String := (m.externalCalendarId, m.externalEventId)

namespace Db

/-- A calendar of Google, as a pass reads it. -/
def Listed (db : Db) (c : SyncCalendar) : Prop :=
  ∃ row ∈ db.calendars, row.id = c.id ∧ row.source = .google ∧ row.externalId = some c.externalId

/-- A mapping carries the external id of its calendar. -/
def Addressed (db : Db) : Prop :=
  ∀ m ∈ db.mappings, ∀ c ∈ db.calendars, c.source = .google → c.id = m.calendarId →
    c.externalId = some m.externalCalendarId

section Addressed

variable {db db' : Db}

theorem Addressed.key (h : db.Addressed) {m : Mapping} (hm : m ∈ db.mappings) {c : SyncCalendar} (hc : db.Listed c)
    (hmc : m.calendarId = c.id) : m.key = (c.externalId, m.externalEventId) := by
  obtain ⟨row, hrow, hid, hs, hx⟩ := hc
  have := h m hm row hrow hs (hid.trans hmc.symm)
  rw [hx] at this
  rw [Mapping.key, ← Option.some.inj this]

theorem Listed.edited {c : SyncCalendar} (h : db.Listed c) (he : db.Edited db') : db'.Listed c := by
  obtain ⟨row, hrow, hrest⟩ := h
  exact ⟨row, he.calendars row hrow, hrest⟩

theorem Addressed.edited (h : db.Addressed) (he : db.Edited db') : db'.Addressed := by
  intro m' hm' c hc hs hid
  obtain ⟨m, hm, hr⟩ := he.origin m' hm'
  rw [hr.externalCalendarId]
  rw [hr.calendarId] at hid
  rcases he.added c hc with hc | hn
  · exact h m hm c hc hs hid
  · rw [hn] at hs
    cases hs

/-- Calendars keep what identifies them. -/
theorem Listed.updateCalendar {c : SyncCalendar} (h : db.Listed c) (id : Uuid) {f : Calendar → Calendar}
    (hid : ∀ c, (f c).id = c.id) (hs : ∀ c, (f c).source = c.source) (hx : ∀ c, (f c).externalId = c.externalId) :
    (db.updateCalendar id f).Listed c := by
  obtain ⟨row, hrow, hrid, hrs, hrx⟩ := h
  by_cases hp : (row.id == id) = true
  · exact ⟨f row, mem_update.2 (.inr ⟨row, hrow, hp, rfl⟩), by rw [hid, hrid], by rw [hs, hrs], by rw [hx, hrx]⟩
  · exact ⟨row, mem_update.2 (.inl ⟨hrow, by simpa using hp⟩), hrid, hrs, hrx⟩

theorem Addressed.updateCalendar (h : db.Addressed) (id : Uuid) {f : Calendar → Calendar}
    (hid : ∀ c, (f c).id = c.id) (hs : ∀ c, (f c).source = c.source) (hx : ∀ c, (f c).externalId = c.externalId) :
    (db.updateCalendar id f).Addressed := by
  intro m hm c hc hcs hcm
  rcases mem_update.1 hc with ⟨hc, -⟩ | ⟨row, hrow, -, rfl⟩
  · exact h m hm c hc hcs hcm
  · rw [hs] at hcs
    rw [hid] at hcm
    rw [hx]
    exact h m hm row hrow hcs hcm

/-- Rows keep their calendar, and what addresses them. -/
theorem Addressed.of (h : db.Addressed) (hc : db'.calendars = db.calendars)
    (hm : ∀ m' ∈ db'.mappings, ∃ m ∈ db.mappings, m'.calendarId = m.calendarId ∧
      m'.externalCalendarId = m.externalCalendarId) : db'.Addressed := by
  intro m' hm' c hcal hs hid
  obtain ⟨m, hmem, hmc, hmx⟩ := hm m' hm'
  rw [hc] at hcal
  rw [hmx]
  exact h m hmem c hcal hs (hid.trans hmc)

theorem Addressed.updateMapping (h : db.Addressed) (id : Uuid) {f : Mapping → Mapping}
    (hc : ∀ m, (f m).calendarId = m.calendarId) (hx : ∀ m, (f m).externalCalendarId = m.externalCalendarId) :
    (db.updateMapping id f).Addressed := by
  refine h.of rfl ?_
  intro m' hm'
  rcases mem_update.1 hm' with ⟨hm', -⟩ | ⟨m, hm, -, rfl⟩
  · exact ⟨m', hm', rfl, rfl⟩
  · exact ⟨m, hm, hc m, hx m⟩

end Addressed

end Db

/-- A mapping is recorded with the external id of the calendar it is recorded for. -/
def Stmt.Located (s : Stmt) (db : Db) : Prop :=
  match s with
  | .insertMapping calendar _ externalCalendar .. =>
    ∀ c ∈ db.calendars, c.id = calendar → c.externalId = some externalCalendar
  | _ => True

theorem Db.Listed.located {db : Db} (hv : db.Valid) {c : SyncCalendar} (h : db.Listed c) :
    ∀ row ∈ db.calendars, row.id = c.id → row.externalId = some c.externalId := by
  obtain ⟨row, hrow, hid, -, hx⟩ := h
  intro x hxr hxid
  rw [hv.calendarIds.eq hxr hrow (k := c.id) (by rw [hxid]) (by rw [hid])]
  exact hx

theorem Stmt.run_listed {s : Stmt} {db db' : Db} {v : s.Val} (hr : s.run db = .ok (v, db')) {c : SyncCalendar}
    (h : db.Listed c) : db'.Listed c := by
  cases s with
  | selectCalendars only =>
    obtain ⟨-, rfl⟩ := Stmt.selectCalendars_ok hr
    exact h
  | setSyncToken | setSyncError | setSynced =>
    cases hr
    exact h.updateCalendar _ (fun _ => rfl) (fun _ => rfl) fun _ => rfl
  | deleteCanonicalEvent event =>
    cases hr
    unfold Db.deleteCanonicalEvent
    split
    · exact h
    · exact h
  | insertConflict =>
    have hc := Stmt.insertConflict_ok hr
    rcases Db.recordConflict_ok hc with ⟨-, rfl⟩ | ⟨-, -, rfl⟩
    · exact h
    · exact h
  | updateCanonicalEvent =>
    have hc := Stmt.updateCanonicalEvent_ok hr
    rcases Db.updateCanonicalEvent_ok hc with ⟨-, rfl⟩ | ⟨e, -, -, -, tasks, rfl⟩
    · exact h
    · exact h
  | insertCanonicalEvent =>
    obtain ⟨hc, -⟩ := Stmt.insertCanonicalEvent_ok hr
    obtain ⟨-, -, rfl⟩ := Db.insertCanonicalEvent_ok hc
    exact h
  | linkMapping =>
    have hc := Stmt.linkMapping_ok hr
    rcases Db.linkMapping_ok hc with ⟨-, rfl⟩ | ⟨-, -, -, rfl⟩
    · exact h
    · exact h
  | insertMapping =>
    have hc := Stmt.insertMapping_ok hr
    obtain ⟨-, -, -, -, rfl⟩ := Db.recordMapping_ok hc
    exact h
  | _ => cases hr; exact h

theorem Stmt.run_addressed {s : Stmt} {db db' : Db} {v : s.Val} (hr : s.run db = .ok (v, db')) (h : db.Addressed)
    (hl : s.Located db) : db'.Addressed := by
  cases s with
  | selectCalendars only =>
    obtain ⟨-, rfl⟩ := Stmt.selectCalendars_ok hr
    exact h
  | setSyncToken | setSyncError | setSynced =>
    cases hr
    exact h.updateCalendar _ (fun _ => rfl) (fun _ => rfl) fun _ => rfl
  | dropTombstone | deleteMapping | deletePendingMapping =>
    cases hr
    exact h.of rfl fun m hm => ⟨m, (mem_delete.1 hm).1, rfl, rfl⟩
  | setUnresolved | clearPendingResolution | updateMappingBaseline | recordPushed =>
    cases hr
    exact h.updateMapping _ (fun _ => rfl) fun _ => rfl
  | deleteCanonicalEvent event =>
    cases hr
    have hdelete : (db.deleteEvent event).Addressed := by
      refine h.of rfl fun m' hm' => ?_
      rcases mem_update.1 hm' with ⟨hm', -⟩ | ⟨m, hm, -, rfl⟩
      · exact ⟨m', hm', rfl, rfl⟩
      · exact ⟨m, hm, rfl, rfl⟩
    unfold Db.deleteCanonicalEvent
    split
    · exact hdelete
    · exact hdelete
  | insertConflict =>
    have hc := Stmt.insertConflict_ok hr
    rcases Db.recordConflict_ok hc with ⟨-, rfl⟩ | ⟨-, -, rfl⟩
    · exact h
    · exact h
  | updateCanonicalEvent =>
    have hc := Stmt.updateCanonicalEvent_ok hr
    rcases Db.updateCanonicalEvent_ok hc with ⟨-, rfl⟩ | ⟨e, -, -, -, tasks, rfl⟩
    · exact h
    · exact h
  | insertCanonicalEvent =>
    obtain ⟨hc, -⟩ := Stmt.insertCanonicalEvent_ok hr
    obtain ⟨-, -, rfl⟩ := Db.insertCanonicalEvent_ok hc
    exact h
  | linkMapping =>
    have hc := Stmt.linkMapping_ok hr
    rcases Db.linkMapping_ok hc with ⟨-, rfl⟩ | ⟨-, -, -, rfl⟩
    · exact h
    · exact h.updateMapping _ (fun _ => rfl) fun _ => rfl
  | insertMapping =>
    have hc := Stmt.insertMapping_ok hr
    obtain ⟨-, -, -, -, rfl⟩ := Db.recordMapping_ok hc
    intro m hm c hcal hs hid
    rcases List.mem_append.1 hm with hm | hm
    · exact h m hm c hcal hs hid
    · rw [List.mem_singleton.1 hm] at hid ⊢
      exact hl c hcal hid
  | _ => cases hr; exact h

/-! ## The row of a mapping -/

/-- The statement writes the row of this mapping, and not only its conflict or its event. -/
def Stmt.Touches (mapping : Uuid) : Stmt → Prop
  | .dropTombstone id | .deleteMapping id | .clearPendingResolution id | .linkMapping id _
  | .updateMappingBaseline id .. | .recordPushed id .. => id = mapping
  | _ => False

/-- A delivery touches the mapping it has read. -/
theorem SyncService.Exit.Runs.touches {c : SyncCalendar} {event : GoogleEvent} {x : Exit} {s : Stmt} {k : Uuid}
    (h : Exit.Runs c event x s) (ht : s.Touches k) : ∃ st, x.state? = some st ∧ st.id = k := by
  cases h with
  | drop | forget | removeMapping | keep | link | baseline => exact ⟨_, rfl, ht⟩
  | _ => exact ht.elim

/-- A delivery flags the mapping it has read. -/
theorem SyncService.Exit.Runs.flags {c : SyncCalendar} {event : GoogleEvent} {x : Exit} {k : Uuid}
    (h : Exit.Runs c event x (.setUnresolved k)) : ∃ st, x.state? = some st ∧ st.id = k := by
  cases h with
  | holdFlag | flag => exact ⟨_, rfl, rfl⟩

theorem SyncService.Exit.Runs.located {c : SyncCalendar} {event : GoogleEvent} {x : Exit} {s : Stmt} {db : Db} (hv : db.Valid)
    (hc : db.Listed c) (h : Exit.Runs c event x s) : s.Located db := by
  cases h with
  | importRecord => exact hc.located hv
  | _ => trivial

/-- A row that keeps all but its conflict, and perhaps its event. -/
structure Mapping.Kept (m m' : Mapping) : Prop where
  row : m' = { m with conflictState := m'.conflictState, canonicalEventId := m'.canonicalEventId }
  conflict : m.conflictState = .unresolved → m'.conflictState = .unresolved
  canonical : m'.canonicalEventId = m.canonicalEventId ∨ m'.canonicalEventId = none

theorem Mapping.Kept.refl (m : Mapping) : Mapping.Kept m m := ⟨rfl, fun h => h, .inl rfl⟩

section Row

variable {db db' : Db} {m : Mapping}

theorem exists_kept_update {p : Mapping → Bool} {f : Mapping → Mapping} (hm : m ∈ db.mappings)
    (hf : p m = true → m.Kept (f m)) : ∃ m' ∈ update p f db.mappings, m.Kept m' := by
  by_cases hp : p m = true
  · exact ⟨f m, mem_update.2 (.inr ⟨m, hm, hp, rfl⟩), hf hp⟩
  · exact ⟨m, mem_update.2 (.inl ⟨hm, by simpa using hp⟩), .refl m⟩

theorem exists_kept_delete {p : Mapping → Bool} (hm : m ∈ db.mappings) (hp : p m = false) :
    ∃ m' ∈ delete p db.mappings, m.Kept m' :=
  ⟨m, mem_delete.2 ⟨hm, hp⟩, .refl m⟩

/-- A row no statement touches stays. -/
theorem Stmt.run_row {s : Stmt} {v : s.Val} (hr : s.run db = .ok (v, db')) (hm : m ∈ db.mappings) (ht : ¬ s.Touches m.id)
    (hp : m.deleteResolutionPending = false) : ∃ m' ∈ db'.mappings, m.Kept m' := by
  have hne : ∀ id, ¬ id = m.id → (m.id == id) = false := fun id h => beq_eq_false_iff_ne.2 fun h' => h h'.symm
  cases s with
  | selectCalendars only =>
    obtain ⟨-, rfl⟩ := Stmt.selectCalendars_ok hr
    exact ⟨m, hm, .refl m⟩
  | dropTombstone id | deleteMapping id => cases hr; exact exists_kept_delete hm (hne id ht)
  | deletePendingMapping id => cases hr; exact exists_kept_delete hm (by simp [hp])
  | setUnresolved id => cases hr; exact exists_kept_update hm fun _ => ⟨rfl, fun _ => rfl, .inl rfl⟩
  | clearPendingResolution id | updateMappingBaseline id | recordPushed id =>
    cases hr
    refine exists_kept_update hm fun h => ?_
    rw [hne id ht] at h
    cases h
  | deleteCanonicalEvent event =>
    cases hr
    have hdelete : ∃ m' ∈ (db.deleteEvent event).mappings, m.Kept m' :=
      exists_kept_update hm fun _ => ⟨rfl, fun h => h, .inr rfl⟩
    unfold Db.deleteCanonicalEvent
    split
    · exact hdelete
    · exact hdelete
  | insertConflict =>
    have hc := Stmt.insertConflict_ok hr
    rcases Db.recordConflict_ok hc with ⟨-, rfl⟩ | ⟨-, -, rfl⟩
    · exact ⟨m, hm, .refl m⟩
    · exact ⟨m, hm, .refl m⟩
  | updateCanonicalEvent =>
    have hc := Stmt.updateCanonicalEvent_ok hr
    rcases Db.updateCanonicalEvent_ok hc with ⟨-, rfl⟩ | ⟨e, -, -, -, tasks, rfl⟩
    · exact ⟨m, hm, .refl m⟩
    · exact ⟨m, hm, .refl m⟩
  | insertCanonicalEvent =>
    obtain ⟨hc, -⟩ := Stmt.insertCanonicalEvent_ok hr
    obtain ⟨-, -, rfl⟩ := Db.insertCanonicalEvent_ok hc
    exact ⟨m, hm, .refl m⟩
  | linkMapping id event =>
    have hc := Stmt.linkMapping_ok hr
    rcases Db.linkMapping_ok hc with ⟨-, rfl⟩ | ⟨-, -, -, rfl⟩
    · exact ⟨m, hm, .refl m⟩
    · refine exists_kept_update hm fun h => ?_
      rw [hne id ht] at h
      cases h
  | insertMapping =>
    have hc := Stmt.insertMapping_ok hr
    obtain ⟨-, -, -, -, rfl⟩ := Db.recordMapping_ok hc
    exact ⟨m, List.mem_append_left _ hm, .refl m⟩
  | _ => cases hr; exact ⟨m, hm, .refl m⟩

/-- What a statement makes of a row that stays. -/
inductive Stmt.Makes (now : DateTime) : Stmt → Mapping → Mapping → Prop
  | same {s : Stmt} {m : Mapping} : Makes now s m m
  | flagged {m : Mapping} : Makes now (.setUnresolved m.id) m (Db.flagUnresolved m)
  | cleared {m : Mapping} : Makes now (.clearPendingResolution m.id) m (Db.clearResolution m)
  | linked {m : Mapping} {event : Uuid} : Makes now (.linkMapping m.id event) m { m with canonicalEventId := some event }
  | based {m : Mapping} {etag : Option String} {fingerprint : Fingerprint} :
    Makes now (.updateMappingBaseline m.id etag fingerprint) m (Db.baseline etag fingerprint now m)
  | pushed {m : Mapping} {etag : Option String} {fingerprint : Fingerprint} :
    Makes now (.recordPushed m.id etag fingerprint) m (Db.pushed etag fingerprint now m)
  | detached {m : Mapping} {event : Uuid} :
    m.canonicalEventId = some event → Makes now (.deleteCanonicalEvent event) m { m with canonicalEventId := none }

theorem Stmt.Makes.id {now : DateTime} {s : Stmt} {m m' : Mapping} (h : s.Makes now m m') : m'.id = m.id := by
  cases h <;> rfl

theorem Stmt.Makes.key {now : DateTime} {s : Stmt} {m m' : Mapping} (h : s.Makes now m m') : m'.key = m.key := by
  cases h <;> rfl

/-- The row a statement adds. -/
def Stmt.Adds (db : Db) (s : Stmt) (m : Mapping) : Prop :=
  ∃ calendar event externalCalendar externalEvent etag fingerprint,
    s = .insertMapping calendar event externalCalendar externalEvent etag fingerprint ∧
      m = Db.newMapping db.nextId calendar event externalCalendar externalEvent etag fingerprint db.now

/-- Each row is one there was, or a new one. -/
theorem Stmt.run_makes {s : Stmt} {v : s.Val} (hr : s.run db = .ok (v, db')) :
    ∀ m' ∈ db'.mappings, s.Adds db m' ∨ ∃ m ∈ db.mappings, s.Makes db.now m m' := by
  have hsame : ∀ m' ∈ db.mappings, s.Adds db m' ∨ ∃ m ∈ db.mappings, s.Makes db.now m m' :=
    fun m' hm' => .inr ⟨m', hm', .same⟩
  have hupdate : ∀ (p : Mapping → Bool) (f : Mapping → Mapping),
      (∀ m ∈ db.mappings, p m = true → s.Makes db.now m (f m)) →
      ∀ m' ∈ update p f db.mappings, s.Adds db m' ∨ ∃ m ∈ db.mappings, s.Makes db.now m m' := by
    intro p f hf m' hm'
    rcases mem_update.1 hm' with ⟨hm', -⟩ | ⟨m, hm, hp, rfl⟩
    · exact hsame m' hm'
    · exact .inr ⟨m, hm, hf m hm hp⟩
  cases s with
  | selectCalendars only =>
    obtain ⟨-, rfl⟩ := Stmt.selectCalendars_ok hr
    exact hsame
  | dropTombstone | deleteMapping | deletePendingMapping =>
    cases hr
    exact fun m' hm' => hsame m' (mem_delete.1 hm').1
  | setUnresolved id =>
    cases hr
    refine hupdate _ _ fun m _ hp => ?_
    obtain rfl := beq_iff_eq.1 hp
    exact .flagged
  | clearPendingResolution id =>
    cases hr
    refine hupdate _ _ fun m _ hp => ?_
    obtain rfl := beq_iff_eq.1 hp
    exact .cleared
  | updateMappingBaseline id =>
    cases hr
    refine hupdate _ _ fun m _ hp => ?_
    obtain rfl := beq_iff_eq.1 hp
    exact .based
  | recordPushed id =>
    cases hr
    refine hupdate _ _ fun m _ hp => ?_
    obtain rfl := beq_iff_eq.1 hp
    exact .pushed
  | deleteCanonicalEvent event =>
    cases hr
    have hdelete := hupdate (fun m => db.refersTo (·.id == event) m.canonicalEventId)
      (fun m => { m with canonicalEventId := none }) fun m _ hp => by
        obtain ⟨e, -, he⟩ := has_iff.1 hp
        simp only [Bool.and_eq_true, beq_iff_eq] at he
        exact .detached (by rw [← he.2, he.1])
    unfold Db.deleteCanonicalEvent
    split
    · exact hdelete
    · exact hdelete
  | insertConflict =>
    have hc := Stmt.insertConflict_ok hr
    rcases Db.recordConflict_ok hc with ⟨-, rfl⟩ | ⟨-, -, rfl⟩
    · exact hsame
    · exact hsame
  | updateCanonicalEvent =>
    have hc := Stmt.updateCanonicalEvent_ok hr
    rcases Db.updateCanonicalEvent_ok hc with ⟨-, rfl⟩ | ⟨e, -, -, -, tasks, rfl⟩
    · exact hsame
    · exact hsame
  | insertCanonicalEvent =>
    obtain ⟨hc, -⟩ := Stmt.insertCanonicalEvent_ok hr
    obtain ⟨-, -, rfl⟩ := Db.insertCanonicalEvent_ok hc
    exact hsame
  | linkMapping id event =>
    have hc := Stmt.linkMapping_ok hr
    rcases Db.linkMapping_ok hc with ⟨-, rfl⟩ | ⟨-, -, -, rfl⟩
    · exact hsame
    · refine hupdate _ _ fun m _ hp => ?_
      obtain rfl := beq_iff_eq.1 hp
      exact .linked
  | insertMapping =>
    have hc := Stmt.insertMapping_ok hr
    obtain ⟨-, -, -, -, rfl⟩ := Db.recordMapping_ok hc
    intro m' hm'
    rcases List.mem_append.1 hm' with hm' | hm'
    · exact hsame m' hm'
    · rw [List.mem_singleton.1 hm']
      exact .inl ⟨_, _, _, _, _, _, rfl, rfl⟩
  | _ => cases hr; exact hsame

/-- No statement makes a change for the next push. -/
theorem Stmt.run_clean {s : Stmt} {v : s.Val} (hr : s.run db = .ok (v, db')) :
    ∀ m' ∈ db'.mappings, m'.Clean ∨ ∃ m ∈ db.mappings, m'.key = m.key ∧ (m.Clean → m'.Clean) := by
  intro m' hm'
  rcases Stmt.run_makes hr m' hm' with ⟨_, _, _, _, _, _, -, rfl⟩ | ⟨m, hm, hmake⟩
  · exact .inl ⟨rfl, rfl⟩
  · refine .inr ⟨m, hm, hmake.key, ?_⟩
    cases hmake with
    | based => exact fun _ => ⟨rfl, rfl⟩
    | pushed => exact fun h => ⟨rfl, h.2⟩
    | _ => exact fun h => h

/-- The statement rewrites or deletes this event. -/
def Stmt.Rewrites (event : Uuid) : Stmt → Prop
  | .updateCanonicalEvent id .. | .deleteCanonicalEvent id => id = event
  | _ => False

/-- A delivery rewrites the event of the mapping it has read. -/
theorem SyncService.Exit.Runs.rewrites {c : SyncCalendar} {event : GoogleEvent} {x : Exit} {s : Stmt} {e : Uuid}
    (h : Exit.Runs c event x s) (hs : s.Rewrites e) : ∃ st, x.state? = some st ∧ st.canonicalEventId = some e := by
  cases h with
  | removeEvent hid | update hid =>
    obtain rfl : _ = e := hs
    exact ⟨_, rfl, hid⟩
  | _ => exact hs.elim

/-- An event no statement rewrites stays. -/
theorem Stmt.run_event {s : Stmt} {v : s.Val} (hr : s.run db = .ok (v, db')) {e : CalendarEvent} (he : e ∈ db.events)
    (hs : ¬ s.Rewrites e.id) : e ∈ db'.events := by
  have hne : ∀ id, ¬ id = e.id → (e.id == id) = false := fun id h => beq_eq_false_iff_ne.2 fun h' => h h'.symm
  cases s with
  | selectCalendars only =>
    obtain ⟨-, rfl⟩ := Stmt.selectCalendars_ok hr
    exact he
  | deleteCanonicalEvent event =>
    cases hr
    have hdelete : e ∈ (db.deleteEvent event).events := mem_delete.2 ⟨he, hne event hs⟩
    unfold Db.deleteCanonicalEvent
    split
    · exact hdelete
    · exact hdelete
  | insertConflict =>
    have hc := Stmt.insertConflict_ok hr
    rcases Db.recordConflict_ok hc with ⟨-, rfl⟩ | ⟨-, -, rfl⟩
    · exact he
    · exact he
  | updateCanonicalEvent event =>
    have hc := Stmt.updateCanonicalEvent_ok hr
    rcases Db.updateCanonicalEvent_ok hc with ⟨-, rfl⟩ | ⟨x, -, -, -, tasks, rfl⟩
    · exact he
    · exact mem_update.2 (.inl ⟨he, hne event hs⟩)
  | insertCanonicalEvent =>
    obtain ⟨hc, -⟩ := Stmt.insertCanonicalEvent_ok hr
    obtain ⟨-, -, rfl⟩ := Db.insertCanonicalEvent_ok hc
    exact List.mem_append_left _ he
  | linkMapping =>
    have hc := Stmt.linkMapping_ok hr
    rcases Db.linkMapping_ok hc with ⟨-, rfl⟩ | ⟨-, -, -, rfl⟩
    · exact he
    · exact he
  | insertMapping =>
    have hc := Stmt.insertMapping_ok hr
    obtain ⟨-, -, -, -, rfl⟩ := Db.recordMapping_ok hc
    exact he
  | _ => cases hr; exact he

/-- A statement changes no setting. -/
theorem Stmt.run_policy {s : Stmt} {v : s.Val} (hr : s.run db = .ok (v, db')) : db'.policy = db.policy := by
  cases s with
  | selectCalendars only =>
    obtain ⟨-, rfl⟩ := Stmt.selectCalendars_ok hr
    rfl
  | deleteCanonicalEvent event =>
    cases hr
    unfold Db.deleteCanonicalEvent
    split <;> rfl
  | insertConflict =>
    have hc := Stmt.insertConflict_ok hr
    rcases Db.recordConflict_ok hc with ⟨-, rfl⟩ | ⟨-, -, rfl⟩ <;> rfl
  | updateCanonicalEvent event =>
    have hc := Stmt.updateCanonicalEvent_ok hr
    rcases Db.updateCanonicalEvent_ok hc with ⟨-, rfl⟩ | ⟨x, -, -, -, tasks, rfl⟩ <;> rfl
  | insertCanonicalEvent =>
    obtain ⟨hc, -⟩ := Stmt.insertCanonicalEvent_ok hr
    obtain ⟨-, -, rfl⟩ := Db.insertCanonicalEvent_ok hc
    rfl
  | linkMapping =>
    have hc := Stmt.linkMapping_ok hr
    rcases Db.linkMapping_ok hc with ⟨-, rfl⟩ | ⟨-, -, -, rfl⟩ <;> rfl
  | insertMapping =>
    have hc := Stmt.insertMapping_ok hr
    obtain ⟨-, -, -, -, rfl⟩ := Db.recordMapping_ok hc
    rfl
  | _ => cases hr; rfl

end Row

end Prosepect
