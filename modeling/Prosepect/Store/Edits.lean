/-
What edits of events and tasks do to the tables of a synchronization: the frame in which all of
them stay (`Edited`), while only events of Google calendars are mapped (`Sound`).

An edit keeps the rows of the mappings, apart from their flags. An event that is edited has its
mapping flagged; one whose mapping is left clean is as it was.
-/
import Prosepect.Store.Conflicts
import Prosepect.Store.Tasks
import Prosepect.Store.Valid

namespace Prosepect

open Resumption Table Time

namespace Mapping

/-- Nothing of the mapping waits to be pushed. -/
def Clean (m : Mapping) : Prop := m.localDirty = false ∧ m.localDeleted = false

/-- A change of the mapping waits to be pushed, or to be decided about. -/
def Awaiting (m : Mapping) : Prop := m.localDirty = true ∨ m.localDeleted = true ∨ m.reversibleTombstone = true

/-- A deleted mapping has no event, and nothing to send of one. -/
def Dropped (m : Mapping) : Prop :=
  m.localDeleted = true ∨ m.reversibleTombstone = true → m.localDirty = false ∧ m.canonicalEventId = none

/-- What an edit keeps of a mapping. -/
structure Edited (m m' : Mapping) : Prop where
  id : m'.id = m.id
  calendarId : m'.calendarId = m.calendarId
  externalCalendarId : m'.externalCalendarId = m.externalCalendarId
  externalEventId : m'.externalEventId = m.externalEventId
  externalEtag : m'.externalEtag = m.externalEtag
  conflictState : m'.conflictState = m.conflictState
  pendingResolution : m'.pendingResolution = m.pendingResolution
  canonical : m'.canonicalEventId = m.canonicalEventId ∨ m'.canonicalEventId = none
  awaiting : m.Awaiting → m'.Awaiting
  tombstone : m.reversibleTombstone = true → m'.reversibleTombstone = true
  /-- Without its event, a mapping is out of reach. -/
  frozen : m.canonicalEventId = none → m' = m
  fingerprint : m.conflictState = .unresolved → m'.baseFingerprint = m.baseFingerprint
  deleteResolutionPending : m'.deleteResolutionPending = m.deleteResolutionPending
  dropped : m.Dropped → m'.Dropped

theorem Edited.refl (m : Mapping) : Edited m m :=
  ⟨rfl, rfl, rfl, rfl, rfl, rfl, rfl, .inl rfl, fun h => h, fun h => h, fun _ => rfl, fun _ => rfl, rfl, fun h => h⟩

theorem Edited.trans {m m' m'' : Mapping} (h : Edited m m') (h' : Edited m' m'') : Edited m m'' where
  id := h'.id.trans h.id
  calendarId := h'.calendarId.trans h.calendarId
  externalCalendarId := h'.externalCalendarId.trans h.externalCalendarId
  externalEventId := h'.externalEventId.trans h.externalEventId
  externalEtag := h'.externalEtag.trans h.externalEtag
  conflictState := h'.conflictState.trans h.conflictState
  pendingResolution := h'.pendingResolution.trans h.pendingResolution
  canonical := by
    rcases h'.canonical with h2 | h2
    · rcases h.canonical with h1 | h1
      · exact .inl (h2.trans h1)
      · exact .inr (h2.trans h1)
    · exact .inr h2
  awaiting := fun ha => h'.awaiting (h.awaiting ha)
  tombstone := fun ha => h'.tombstone (h.tombstone ha)
  frozen := by
    intro hn
    obtain rfl := h.frozen hn
    exact h'.frozen hn
  fingerprint := fun hu => (h'.fingerprint (h.conflictState.trans hu)).trans (h.fingerprint hu)
  deleteResolutionPending := h'.deleteResolutionPending.trans h.deleteResolutionPending
  dropped := fun hd => h'.dropped (h.dropped hd)

end Mapping

/-- What of a conflict the synchronization depends on. -/
def SyncConflict.key (c : SyncConflict) : Uuid × Uuid × ConflictStatus := (c.id, c.mappingId, c.status)

namespace Db

/-- The frame of an edit. -/
structure Edited (db db' : Db) : Prop where
  now : db'.now = db.now
  policy : db'.policy = db.policy
  nextId : db.nextId ≤ db'.nextId
  calendars : ∀ c ∈ db.calendars, c ∈ db'.calendars
  added : ∀ c ∈ db'.calendars, c ∈ db.calendars ∨ c.source = .native
  conflicts : db'.conflicts.map SyncConflict.key = db.conflicts.map SyncConflict.key
  kept : ∀ m ∈ db.mappings, ∃ m' ∈ db'.mappings, m.Edited m'
  origin : ∀ m' ∈ db'.mappings, ∃ m ∈ db.mappings, m.Edited m'
  events : ∀ e' ∈ db'.events, db.nextId ≤ e'.id ∨ ∃ e ∈ db.events, e.id = e'.id
  mapped : db.Mapped → db'.Mapped
  clean : db.Mapped → ∀ m' ∈ db'.mappings, m'.Clean → ∀ e' ∈ db'.events, m'.canonicalEventId = some e'.id →
    m' ∈ db.mappings ∧ e' ∈ db.events

theorem Edited.refl (db : Db) : Edited db db where
  now := rfl
  policy := rfl
  nextId := le_rfl
  calendars := fun _ h => h
  added := fun _ h => .inl h
  conflicts := rfl
  kept := fun m hm => ⟨m, hm, .refl m⟩
  origin := fun m hm => ⟨m, hm, .refl m⟩
  events := fun e h => .inr ⟨e, h, rfl⟩
  mapped := fun h => h
  clean := fun _ _ hm _ _ he _ => ⟨hm, he⟩

theorem Edited.trans {a b c : Db} (h : Edited a b) (h' : Edited b c) : Edited a c where
  now := h'.now.trans h.now
  policy := h'.policy.trans h.policy
  nextId := h.nextId.trans h'.nextId
  calendars := fun k hk => h'.calendars k (h.calendars k hk)
  added := by
    intro k hk
    rcases h'.added k hk with hk | hk
    · exact h.added k hk
    · exact .inr hk
  conflicts := h'.conflicts.trans h.conflicts
  kept := by
    intro m hm
    obtain ⟨m', hm', hr⟩ := h.kept m hm
    obtain ⟨m'', hm'', hr'⟩ := h'.kept m' hm'
    exact ⟨m'', hm'', hr.trans hr'⟩
  origin := by
    intro m'' hm''
    obtain ⟨m', hm', hr'⟩ := h'.origin m'' hm''
    obtain ⟨m, hm, hr⟩ := h.origin m' hm'
    exact ⟨m, hm, hr.trans hr'⟩
  events := by
    intro e he
    rcases h'.events e he with hn | ⟨e', he', hid⟩
    · exact .inl (h.nextId.trans hn)
    · rcases h.events e' he' with hn | ⟨e'', he'', hid'⟩
      · exact .inl (hid ▸ hn)
      · exact .inr ⟨e'', he'', hid'.trans hid⟩
  mapped := fun hg => h'.mapped (h.mapped hg)
  clean := by
    intro hg m hm hc e he hme
    obtain ⟨hm, he⟩ := h'.clean (h.mapped hg) m hm hc e he hme
    exact h.clean hg m hm hc e he hme

/-- An edit keeps the constraints and stays in the frame. -/
def Edit (db db' : Db) : Prop := db.Valid → db'.Valid ∧ db.Edited db'

theorem Edit.refl (db : Db) : Edit db db := fun h => ⟨h, .refl db⟩

theorem Edit.trans {a b c : Db} (h : Edit a b) (h' : Edit b c) : Edit a c := by
  intro ha
  obtain ⟨hb, hab⟩ := h ha
  obtain ⟨hc, hbc⟩ := h' hb
  exact ⟨hc, hab.trans hbc⟩

/-! ## The blocks edits are made of -/

section Blocks

variable {db db' : Db}

/-- Nothing the synchronization depends on. -/
theorem edit_same (hc : db'.calendars = db.calendars) (he : db'.events = db.events) (hm : db'.mappings = db.mappings)
    (hk : db'.conflicts = db.conflicts) (ht : db'.now = db.now) (hp : db'.policy = db.policy)
    (hn : db.nextId ≤ db'.nextId) : Edit db db' := by
  intro h
  refine ⟨h.congr hc he hm hk hn, ?_⟩
  constructor
  · exact ht
  · exact hp
  · exact hn
  · rw [hc]
    exact fun _ h => h
  · rw [hc]
    exact fun _ h => .inl h
  · rw [hk]
  · rw [hm]
    exact fun m hm => ⟨m, hm, .refl m⟩
  · rw [hm]
    exact fun m hm => ⟨m, hm, .refl m⟩
  · rw [he]
    exact fun e h => .inr ⟨e, h, rfl⟩
  · unfold Mapped OfGoogle
    rw [hm, he, hc]
    exact fun h => h
  · rw [hm, he]
    exact fun _ _ hm _ _ he _ => ⟨hm, he⟩

theorem Edit.congr {a b : Db} (h : Edit db a) (hc : b.calendars = a.calendars) (he : b.events = a.events)
    (hm : b.mappings = a.mappings) (hk : b.conflicts = a.conflicts) (ht : b.now = a.now) (hp : b.policy = a.policy)
    (hn : a.nextId ≤ b.nextId) : Edit db b :=
  h.trans (edit_same hc he hm hk ht hp hn)

theorem edit_updateTask (id : Uuid) (f : TaskRow → TaskRow) : Edit db (db.updateTask id f) :=
  edit_same rfl rfl rfl rfl rfl rfl le_rfl

theorem edit_enqueue (calendar : Option Uuid) (kind key : String) : Edit db (db.enqueue calendar kind key) := by
  unfold enqueue
  split
  · exact edit_same rfl rfl rfl rfl rfl rfl (Nat.le_succ _)
  · exact edit_same rfl rfl rfl rfl rfl rfl (Nat.le_succ _)

/-- A native calendar is added. -/
theorem edit_insertCalendar {c : Calendar} (hid : c.id = db.nextId) (hs : c.source = .native) :
    Edit db { db.fresh with calendars := db.calendars ++ [c] } := by
  intro h
  have hv := h.fresh
  refine ⟨{ hv with calendarIds := ?_, calendarsUsed := ?_, eventCalendar := ?_ }, ?_⟩
  · refine h.calendarIds.insert ?_
    rintro k hk x hx hxk
    have := h.calendarsUsed x hx
    rw [Option.some.inj hxk, ← Option.some.inj hk, hid] at this
    exact lt_irrefl _ this
  · intro x hx
    rcases List.mem_append.1 hx with hx | hx
    · exact Nat.lt_succ_of_lt (h.calendarsUsed x hx)
    · rw [List.mem_singleton.1 hx, hid]
      exact Nat.lt_succ_self _
  · intro e he
    obtain ⟨x, hx, hxe⟩ := h.eventCalendar e he
    exact ⟨x, List.mem_append_left _ hx, hxe⟩
  · refine { Edited.refl db with
      nextId := Nat.le_succ _, calendars := fun x hx => List.mem_append_left _ hx, added := ?_, mapped := ?_ }
    · intro x hx
      rcases List.mem_append.1 hx with hx | hx
      · exact .inl hx
      · rw [List.mem_singleton.1 hx]
        exact .inr hs
    · intro hg m hm e he hme
      obtain ⟨x, hx, hxe⟩ := hg m hm e he hme
      exact ⟨x, List.mem_append_left _ hx, hxe⟩

theorem edited_update {p : Mapping → Bool} {f : Mapping → Mapping} {t : List Mapping}
    (hf : ∀ m ∈ t, p m = true → m.Edited (f m)) :
    (∀ m ∈ t, ∃ m' ∈ update p f t, m.Edited m') ∧ ∀ m' ∈ update p f t, ∃ m ∈ t, m.Edited m' := by
  constructor
  · intro m hm
    by_cases hp : p m = true
    · exact ⟨f m, mem_update.2 (.inr ⟨m, hm, hp, rfl⟩), hf m hm hp⟩
    · exact ⟨m, mem_update.2 (.inl ⟨hm, by simpa using hp⟩), .refl m⟩
  · intro m' hm'
    rcases mem_update.1 hm' with ⟨hm', -⟩ | ⟨m, hm, hp, rfl⟩
    · exact ⟨m', hm', .refl m'⟩
    · exact ⟨m, hm, hf m hm hp⟩

/-- Rows of mappings are flagged, or lose their event. -/
theorem edit_updateMappings (p : Mapping → Bool) {f : Mapping → Mapping} (hf : ∀ m ∈ db.mappings, p m = true → m.Edited (f m))
    (hfid : ∀ m, (f m).id = m.id) (hfcal : ∀ m, (f m).externalCalendarId = m.externalCalendarId)
    (hfev : ∀ m, (f m).externalEventId = m.externalEventId)
    (hfcan : ∀ m, (f m).canonicalEventId = m.canonicalEventId ∨ (f m).canonicalEventId = none)
    (hclean : ∀ m ∈ db.mappings, p m = true → (f m).canonicalEventId = none ∨ ¬ (f m).Clean) :
    Edit db (db.updateMappings p f) := by
  intro h
  refine ⟨h.updateMappings p hfid hfcal hfev hfcan, ?_⟩
  obtain ⟨hkept, horigin⟩ := edited_update hf
  refine { Edited.refl db with kept := hkept, origin := horigin, mapped := ?_, clean := ?_ }
  · exact fun hg => (Sound.updateMappings ⟨h, hg⟩ p hfid hfcal hfev hfcan).mapped
  intro _ m hm hc e he hme
  rcases mem_update.1 hm with ⟨hm, -⟩ | ⟨s, hs, hp, rfl⟩
  · exact ⟨hm, he⟩
  · rcases hclean s hs hp with hn | hn
    · rw [hn] at hme
      cases hme
    · exact absurd hc hn

/-- A mapping loses its event. -/
theorem edited_detached {m : Mapping} (hc : m.canonicalEventId ≠ none) : m.Edited { m with canonicalEventId := none } :=
  { Mapping.Edited.refl m with
    canonical := .inr rfl, frozen := fun hn => absurd hn hc, dropped := fun hd hdel => ⟨(hd hdel).1, rfl⟩ }

theorem refersTo_ne {p : CalendarEvent → Bool} {r : Option Uuid} (h : db.refersTo p r = true) : r ≠ none := by
  rintro rfl
  obtain ⟨e, -, he⟩ := has_iff.1 h
  simp at he

theorem edit_deleteEvents (p : CalendarEvent → Bool) : Edit db (db.deleteEvents p) := by
  intro h
  refine ⟨h.deleteEvents p, ?_⟩
  obtain ⟨hkept, horigin⟩ := edited_update (p := fun m => db.refersTo p m.canonicalEventId)
    (f := fun m => { m with canonicalEventId := none }) (t := db.mappings) fun m _ hp => edited_detached (refersTo_ne hp)
  refine { Edited.refl db with
    conflicts := ?_, kept := hkept, origin := horigin, events := ?_, mapped := ?_, clean := ?_ }
  · exact map_update fun _ => rfl
  · intro e he
    exact .inr ⟨e, (mem_delete.1 he).1, rfl⟩
  · exact fun hg => (Sound.deleteEvents ⟨h, hg⟩ p).mapped
  · intro _ m hm hc e he hme
    obtain ⟨he, -⟩ := mem_delete.1 he
    rcases mem_update.1 hm with ⟨hm, -⟩ | ⟨s, hs, -, rfl⟩
    · exact ⟨hm, he⟩
    · cases hme

/-- A new event, which no mapping has yet. -/
theorem edit_insertEvent {event : CalendarEvent} (hid : event.id = db.nextId)
    (htask : ∀ t, event.linkedTaskId = some t → db.taskEvent? t = none)
    (hcal : ∃ c ∈ db.calendars, c.id = event.calendarId) : Edit db (db.fresh.insertEvent event) := by
  intro h
  refine ⟨h.insertFresh hid htask hcal, ?_⟩
  refine { Edited.refl db with nextId := Nat.le_succ _, events := ?_, mapped := ?_, clean := ?_ }
  · intro e he
    rcases List.mem_append.1 he with he | he
    · exact .inr ⟨e, he, rfl⟩
    · rw [List.mem_singleton.1 he, hid]
      exact .inl le_rfl
  · exact fun hg => (Sound.insertEvent ⟨h, hg⟩ hid htask hcal).mapped
  · intro _ m hm _ e he hme
    rcases List.mem_append.1 he with he | he
    · exact ⟨hm, he⟩
    · rw [List.mem_singleton.1 he, hid] at hme
      exact absurd hme (h.unmapped_fresh m hm)

/-- The row of an event is replaced, when no clean mapping has it. -/
theorem edit_updateEvent {e e' : CalendarEvent} (he : e ∈ db.events) (hid : e'.id = e.id)
    (htask : e'.linkedTaskId = e.linkedTaskId) (hcal : ∃ c ∈ db.calendars, c.id = e'.calendarId)
    (hmap : db.Sound → ∀ m ∈ db.mappings, m.canonicalEventId = some e.id → ¬ m.Clean ∧ db.OfGoogle e'.calendarId) :
    Edit db (db.updateEvent e.id fun _ => e') := by
  intro h
  have hrow : ∀ x ∈ db.events, (x.id == e.id) = true → x = e := fun x hx hxid =>
    h.eventIds.eq hx he (k := e.id) (by rw [beq_iff_eq.1 hxid]) rfl
  have hmem : ∀ x ∈ update (·.id == e.id) (fun _ => e') db.events, (x ∈ db.events ∧ x.id ≠ e.id) ∨ x = e' := by
    intro x hx
    rcases mem_update.1 hx with ⟨hx, hne⟩ | ⟨-, -, -, rfl⟩
    · exact .inl ⟨hx, by simpa using hne⟩
    · exact .inr rfl
  constructor
  · -- on the row itself, the update keeps the id and the task
    have heq : db.updateEvent e.id (fun _ => e') = db.updateEvent e.id fun x =>
        { e' with id := x.id, linkedTaskId := x.linkedTaskId } := by
      unfold updateEvent updateEvents
      rw [update_congr]
      intro x hx hxid
      rw [hrow x hx hxid, ← hid, ← htask]
    rw [heq]
    exact h.updateEvents _ (fun _ => rfl) (fun _ => rfl) fun _ _ _ => hcal
  · refine { Edited.refl db with events := ?_, mapped := ?_, clean := ?_ }
    · intro x hx
      rcases hmem x hx with ⟨hx, -⟩ | rfl
      · exact .inr ⟨x, hx, rfl⟩
      · exact .inr ⟨e, he, hid.symm⟩
    · intro hg m hm x hx hmx
      rcases hmem x hx with ⟨hx, -⟩ | rfl
      · exact hg m hm x hx hmx
      · exact (hmap ⟨h, hg⟩ m hm (by rw [hmx, hid])).2
    · intro hg m hm hc x hx hmx
      rcases hmem x hx with ⟨hx, -⟩ | rfl
      · exact ⟨hm, hx⟩
      · exact absurd hc (hmap ⟨h, hg⟩ m hm (by rw [hmx, hid])).1

theorem edit_deleteTask (id : Uuid) : Edit db (db.deleteTask id) :=
  (edit_deleteEvents _).trans (edit_same rfl rfl rfl rfl rfl rfl le_rfl)

end Blocks

end Db

namespace Store

open Db

section Marks

variable {db : Db}

theorem edit_detachEventMapping (event : CalendarEvent) : Edit db (detachEventMapping event db) :=
  edit_updateMappings _ (fun m _ hp => edited_detached (by
    simp only [Bool.and_eq_true, beq_iff_eq] at hp
    simp [hp.2])) (by intro; rfl) (by intro; rfl) (by intro; rfl) (by intro; exact .inr rfl) (fun _ _ _ => .inl rfl)

theorem calendar?_source (hv : db.Valid) {calendar : Uuid} :
    (db.calendar? calendar).map (·.source) = some .google ↔ db.OfGoogle calendar := by
  rw [Option.map_eq_some_iff]
  constructor
  · rintro ⟨c, hc, hs⟩
    obtain ⟨hc, hid⟩ := hv.calendar?_eq_some.1 hc
    exact ⟨c, hc, hid, hs⟩
  · rintro ⟨c, hc, hid, hs⟩
    exact ⟨c, hv.calendar?_eq_some.2 ⟨hc, hid⟩, hs⟩

/-- A job concerns none of the other tables. -/
theorem enqueue_eq (db : Db) (calendar : Option Uuid) (kind key : String) :
    ∃ jobs, db.enqueue calendar kind key = { db.fresh with jobs := jobs } := by
  unfold enqueue
  split
  · exact ⟨_, rfl⟩
  · exact ⟨_, rfl⟩

@[simp] theorem enqueue_mappings (calendar : Option Uuid) (kind key : String) :
    (db.enqueue calendar kind key).mappings = db.mappings := by
  obtain ⟨jobs, heq⟩ := enqueue_eq db calendar kind key
  rw [heq]
  rfl

def markRow (deleted : Bool) (m : Mapping) : Mapping :=
  { m with
    localDirty := !deleted
    localDeleted := deleted
    canonicalEventId := if deleted then none else m.canonicalEventId }

/-- The mappings with the one of an event marked. -/
def markMappings (event : CalendarEvent) (deleted : Bool) (db : Db) : List Mapping :=
  if (db.calendar? event.calendarId).map (·.source) = some .google then
    update (·.canonicalEventId == some event.id) (markRow deleted) db.mappings
  else db.mappings

/-- Besides the mappings, a mark takes an id and leaves a job. -/
theorem markEventForSync_eq (db : Db) (event : CalendarEvent) (deleted : Bool) :
    ∃ jobs, markEventForSync event deleted db =
      { db with
        mappings := markMappings event deleted db, jobs := jobs
        nextId := if (db.calendar? event.calendarId).map (·.source) = some .google then db.nextId + 1 else db.nextId } := by
  unfold markEventForSync markMappings
  split
  · obtain ⟨jobs, heq⟩ := enqueue_eq (db.updateMappings (·.canonicalEventId == some event.id) (markRow deleted))
      (some event.calendarId) "calendar_sync" ("calendar-event:" ++ uuidText event.id ++ ":" ++ toString event.version ++
        ":" ++ (if deleted then "deleted" else "changed"))
    exact ⟨jobs, heq⟩
  · exact ⟨db.jobs, rfl⟩

@[simp] theorem markEventForSync_events (event : CalendarEvent) (deleted : Bool) :
    (markEventForSync event deleted db).events = db.events := by
  obtain ⟨_, heq⟩ := markEventForSync_eq db event deleted
  rw [heq]

@[simp] theorem markEventForSync_calendars (event : CalendarEvent) (deleted : Bool) :
    (markEventForSync event deleted db).calendars = db.calendars := by
  obtain ⟨_, heq⟩ := markEventForSync_eq db event deleted
  rw [heq]

@[simp] theorem markEventForSync_mappings (event : CalendarEvent) (deleted : Bool) :
    (markEventForSync event deleted db).mappings = markMappings event deleted db := by
  obtain ⟨_, heq⟩ := markEventForSync_eq db event deleted
  rw [heq]

@[simp] theorem markEventForSync_conflicts (event : CalendarEvent) (deleted : Bool) :
    (markEventForSync event deleted db).conflicts = db.conflicts := by
  obtain ⟨_, heq⟩ := markEventForSync_eq db event deleted
  rw [heq]

@[simp] theorem markEventForSync_now (event : CalendarEvent) (deleted : Bool) :
    (markEventForSync event deleted db).now = db.now := by
  obtain ⟨_, heq⟩ := markEventForSync_eq db event deleted
  rw [heq]

@[simp] theorem markEventForSync_policy (event : CalendarEvent) (deleted : Bool) :
    (markEventForSync event deleted db).policy = db.policy := by
  obtain ⟨_, heq⟩ := markEventForSync_eq db event deleted
  rw [heq]

@[simp] theorem markEventForSync_nextId (event : CalendarEvent) (deleted : Bool) :
    (markEventForSync event deleted db).nextId =
      if (db.calendar? event.calendarId).map (·.source) = some .google then db.nextId + 1 else db.nextId := by
  obtain ⟨_, heq⟩ := markEventForSync_eq db event deleted
  rw [heq]

@[simp] theorem markEventForSync_calendar? (event : CalendarEvent) (deleted : Bool) (calendar : Uuid) :
    (markEventForSync event deleted db).calendar? calendar = db.calendar? calendar := by
  unfold calendar?
  rw [markEventForSync_calendars]

theorem markRow_canonical (deleted : Bool) (m : Mapping) :
    (markRow deleted m).canonicalEventId = m.canonicalEventId ∨ (markRow deleted m).canonicalEventId = none := by
  cases deleted with
  | true => exact .inr rfl
  | false => exact .inl rfl

theorem edited_markRow (deleted : Bool) {m : Mapping} (hc : m.canonicalEventId ≠ none) : m.Edited (markRow deleted m) := by
  refine ⟨rfl, rfl, rfl, rfl, rfl, rfl, rfl, markRow_canonical deleted m, ?_, fun ht => ht, fun hn => absurd hn hc,
    fun _ => rfl, rfl, ?_⟩
  · intro _
    cases deleted with
    | true => exact .inr (.inl rfl)
    | false => exact .inl rfl
  · intro hd hdel
    cases deleted with
    | true => exact ⟨rfl, rfl⟩
    | false =>
      rcases hdel with hdel | ht
      · cases hdel
      · exact absurd (hd (.inr ht)).2 hc

theorem edit_markEventForSync (event : CalendarEvent) (deleted : Bool) : Edit db (markEventForSync event deleted db) := by
  unfold markEventForSync
  split
  · refine (edit_updateMappings _ (f := markRow deleted) ?_ (by intro; rfl) (by intro; rfl) (by intro; rfl)
      (markRow_canonical deleted) ?_).trans (edit_enqueue _ _ _)
    · intro m _ hp
      apply edited_markRow deleted
      rw [beq_iff_eq.1 hp]
      simp
    · intro m _ _
      cases deleted with
      | true => exact .inl rfl
      | false => exact .inr fun hc => by cases hc.1
  · exact .refl db

/-- After an event of a Google calendar is marked, its mapping is not clean, or gone. -/
theorem marked {event : CalendarEvent} (hv : db.Valid) (hg : db.OfGoogle event.calendarId) (deleted : Bool) {m : Mapping}
    (hm : m ∈ (markEventForSync event deleted db).mappings) (hc : m.canonicalEventId = some event.id) :
    deleted = false ∧ ¬ m.Clean := by
  rw [markEventForSync_mappings, markMappings, if_pos ((calendar?_source hv).2 hg)] at hm
  rcases mem_update.1 hm with ⟨-, hne⟩ | ⟨s, -, -, rfl⟩
  · rw [hc] at hne
    simp at hne
  · cases deleted with
    | true => cases hc
    | false => exact ⟨rfl, fun h => by cases h.1⟩

/-- A mapping that is left an event was its mapping before. -/
theorem of_marked {event : CalendarEvent} {deleted : Bool} {m : Mapping} {k : Uuid}
    (hm : m ∈ (markEventForSync event deleted db).mappings) (hc : m.canonicalEventId = some k) :
    ∃ s ∈ db.mappings, s.canonicalEventId = some k := by
  rw [markEventForSync_mappings, markMappings] at hm
  split at hm
  · rcases mem_update.1 hm with ⟨hm, -⟩ | ⟨s, hs, -, rfl⟩
    · exact ⟨m, hm, hc⟩
    · cases deleted with
      | true => cases hc
      | false => exact ⟨s, hs, hc⟩
  · exact ⟨m, hm, hc⟩

/-- An event that leaves its calendar has no mapping left, if events of Google calendars only have some. -/
theorem unmapped_of_detached {event : CalendarEvent} (hv : db.Valid) (he : event ∈ db.events)
    (hg : (detachEventMapping event (markEventForSync event true db)).Mapped) {m : Mapping}
    (hm : m ∈ (detachEventMapping event (markEventForSync event true db)).mappings) :
    m.canonicalEventId ≠ some event.id := by
  intro hc
  have hgoogle : db.OfGoogle event.calendarId := by
    obtain ⟨c, hcal, hcs⟩ := hg m hm event (by simpa [detachEventMapping, updateMappings] using he) hc
    exact ⟨c, by simpa [detachEventMapping, updateMappings] using hcal, hcs⟩
  have hm' : m ∈ (markEventForSync event true db).mappings := by
    rcases mem_update.1 hm with ⟨hm, -⟩ | ⟨s, -, -, rfl⟩
    · exact hm
    · cases hc
  exact absurd (marked hv hgoogle true hm' hc).1 (by simp)

/-- A mark for a change keeps the events of the mappings. -/
theorem mapped_of_marked {event : CalendarEvent} (hg : (markEventForSync event false db).Mapped) : db.Mapped := by
  intro m hm e he hme
  obtain ⟨m', hm', hc⟩ : ∃ m' ∈ markMappings event false db, m'.canonicalEventId = some e.id := by
    unfold markMappings
    split
    · by_cases hp : (m.canonicalEventId == some event.id) = true
      · exact ⟨markRow false m, mem_update.2 (.inr ⟨m, hm, hp, rfl⟩), hme⟩
      · exact ⟨m, mem_update.2 (.inl ⟨hm, by simpa using hp⟩), hme⟩
    · exact ⟨m, hm, hme⟩
  obtain ⟨c, hcal, hcs⟩ := hg m' (by simpa using hm') e (by simpa using he) hc
  exact ⟨c, by simpa using hcal, hcs⟩

/-- The row of an event is replaced, and its mapping marked, when the event stays in its calendar or
has no mapping. -/
theorem edit_writeEvent {e e' : CalendarEvent} (he : e ∈ db.events) (hid : e'.id = e.id)
    (htask : e'.linkedTaskId = e.linkedTaskId) (hcal : ∃ c ∈ db.calendars, c.id = e'.calendarId)
    (hmap : e'.calendarId = e.calendarId ∨ (db.Sound → ∀ m ∈ db.mappings, m.canonicalEventId ≠ some e.id)) :
    Edit db (markEventForSync e' false (db.updateEvent e.id fun _ => e')) := by
  -- in the other order, the mapping is marked by the time the event is written
  refine Edit.congr (a := (markEventForSync e' false db).updateEvent e.id fun _ => e') ?_ ?_ ?_ ?_ ?_ ?_ ?_ ?_
  rotate_left
  · simp [updateEvent, updateEvents]
  · simp [updateEvent, updateEvents]
  · simp [updateEvent, updateEvents, markMappings, calendar?]
  · simp [updateEvent, updateEvents]
  · simp [updateEvent, updateEvents]
  · simp [updateEvent, updateEvents]
  · simp [updateEvent, updateEvents, calendar?]
  intro h
  refine ((edit_markEventForSync e' false).trans (edit_updateEvent (by simpa using he) hid htask (by simpa using hcal) ?_)) h
  intro hs m hm hc
  rcases hmap with hsame | hno
  · have hg : (markEventForSync e' false db).OfGoogle e'.calendarId := by
      rw [hsame]
      exact hs.mapped m hm e (by simpa using he) hc
    have hg' : db.OfGoogle e'.calendarId := by
      obtain ⟨c, hc, hcs⟩ := hg
      exact ⟨c, by simpa using hc, hcs⟩
    exact ⟨(marked h hg' false hm (by rw [hc, hid])).2, hg⟩
  · obtain ⟨s, hm, hsc⟩ := of_marked hm hc
    exact absurd hsc (hno ⟨h, mapped_of_marked hs.mapped⟩ s hm)

/-- The mapping of an event that moves is detached, and the event written. -/
theorem edit_moveEvent {e e' : CalendarEvent} (he : e ∈ db.events) (hid : e'.id = e.id)
    (htask : e'.linkedTaskId = e.linkedTaskId) (hcal : ∃ c ∈ db.calendars, c.id = e'.calendarId) :
    Edit db (markEventForSync e' false
      ((detachEventMapping e (markEventForSync e true db)).updateEvent e.id fun _ => e')) := by
  intro h
  have hdetach : Edit db (detachEventMapping e (markEventForSync e true db)) :=
    (edit_markEventForSync e true).trans (edit_detachEventMapping e)
  refine (hdetach.trans (edit_writeEvent ?_ hid htask ?_ (.inr fun hs m hm => unmapped_of_detached h he hs.mapped hm))) h
  · show e ∈ (markEventForSync e true db).events
    rw [markEventForSync_events]
    exact he
  · show ∃ c ∈ (markEventForSync e true db).calendars, c.id = e'.calendarId
    rw [markEventForSync_calendars]
    exact hcal

/-- An event is written, its task with it, and then the mapping it leaves and the one it has. -/
theorem edit_writtenEvent {e e' : CalendarEvent} {w : Db} (he : e ∈ db.events) (hid : e'.id = e.id)
    (htask : e'.linkedTaskId = e.linkedTaskId) (hcal : ∃ c ∈ db.calendars, c.id = e'.calendarId)
    (hw : ∃ tasks, w = { db.updateEvent e.id fun _ => e' with tasks := tasks }) :
    Edit db (markEventForSync e' false
      (if e.calendarId ≠ e'.calendarId then detachEventMapping e (markEventForSync e true w) else w)) := by
  obtain ⟨tasks, rfl⟩ := hw
  by_cases hmove : e.calendarId ≠ e'.calendarId
  · rw [if_pos hmove]
    refine (edit_moveEvent he hid htask hcal).congr ?_ ?_ ?_ ?_ ?_ ?_ ?_
    · simp [detachEventMapping, updateMappings, updateEvent, updateEvents]
    · simp [detachEventMapping, updateMappings, updateEvent, updateEvents]
    · simp [detachEventMapping, updateMappings, updateEvent, updateEvents, markMappings, calendar?]
    · simp [detachEventMapping, updateMappings, updateEvent, updateEvents]
    · simp [detachEventMapping, updateMappings, updateEvent, updateEvents]
    · simp [detachEventMapping, updateMappings, updateEvent, updateEvents]
    · simp [detachEventMapping, updateMappings, updateEvent, updateEvents, calendar?]
  · rw [if_neg hmove]
    refine (edit_writeEvent he hid htask hcal (.inl (not_not.1 hmove).symm)).congr ?_ ?_ ?_ ?_ ?_ ?_ ?_
    · simp
    · simp
    · simp [markMappings, calendar?]
    · simp
    · simp
    · simp
    · simp [calendar?]

end Marks

/-! ## The operations on events -/

section Events

variable {db db' : Db}

theorem calendar?_mem {calendar : Uuid} {c : Calendar} (h : db.calendar? calendar = some c) :
    c ∈ db.calendars ∧ c.id = calendar :=
  ⟨List.mem_of_find?_eq_some h, by simpa using List.find?_some h⟩

theorem event?_mem {id : Uuid} {e : CalendarEvent} (h : db.event? id = some e) : e ∈ db.events ∧ e.id = id :=
  ⟨List.mem_of_find?_eq_some h, by simpa using List.find?_some h⟩

theorem taskEvent?_mem {task : Uuid} {e : CalendarEvent} (h : db.taskEvent? task = some e) :
    e ∈ db.events ∧ e.linkedTaskId = some task :=
  ⟨List.mem_of_find?_eq_some h, by simpa using List.find?_some h⟩

theorem ensureCalendarWritable_ok {α : Type} {calendar : Uuid} {f : Unit → StoreTx α} {a : α}
    (h : (ensureCalendarWritable calendar >>= f) db = .ok (a, db')) :
    (∃ c ∈ db.calendars, c.id = calendar) ∧ f () db = .ok (a, db') := by
  obtain ⟨u, x, hw, hf⟩ := Tx.bind_ok h
  unfold ensureCalendarWritable at hw
  rw [Tx.read_bind_run] at hw
  cases hc : db.calendar? calendar with
  | none =>
    simp only [hc] at hw
    cases hw
  | some c =>
    simp only [hc] at hw
    split at hw
    · cases hw
    · cases hw
      exact ⟨⟨c, calendar?_mem hc⟩, hf⟩

theorem eventError_ok {α : Type} {event : Uuid} {version : Int} {a : α} (h : eventError event version db = .ok (a, db')) :
    False := by
  unfold eventError at h
  rw [Tx.read_bind_run] at h
  cases he : db.event? event with
  | none =>
    simp only [he] at h
    cases h
  | some e =>
    simp only [he] at h
    cases h

theorem check_ok {α : Type} {x : Except SqlError Unit} {f : Unit → StoreTx α} {a : α}
    (h : (check x >>= f) db = .ok (a, db')) : f () db = .ok (a, db') := by
  obtain ⟨⟨⟩, -, h⟩ := Tx.ofExcept_bind_ok h
  exact h

theorem edits_createCalendarEvent (toLowercase : String → String) (r : CreateCalendarEventRequest) :
    Tx.Within Edit (createCalendarEvent toLowercase r) := by
  intro db a db' h
  unfold createCalendarEvent at h
  obtain ⟨⟨⟩, -, h⟩ := Tx.ofExcept_bind_ok h
  obtain ⟨hcal, h⟩ := ensureCalendarWritable_ok h
  obtain ⟨attendees, -, h⟩ := Tx.ofExcept_bind_ok h
  rw [Tx.read_bind_run] at h
  have h := check_ok h
  cases h
  refine Edit.trans (edit_insertEvent rfl ?_ hcal) (edit_markEventForSync _ _)
  intro t ht
  cases ht

theorem edits_updateCalendarEvent (toLowercase : String → String) (id : Uuid) (r : UpdateCalendarEventRequest) :
    Tx.Within Edit (updateCalendarEvent toLowercase id r) := by
  intro db a db' h
  unfold updateCalendarEvent at h
  obtain ⟨⟨⟩, -, h⟩ := Tx.ofExcept_bind_ok h
  obtain ⟨hcal, h⟩ := ensureCalendarWritable_ok h
  rw [Tx.read_bind_run] at h
  cases hp : db.event? id with
  | none =>
    simp only [hp] at h
    obtain ⟨_, -, h⟩ := Tx.ofExcept_bind_ok h
    exact (eventError_ok h).elim
  | some previous =>
    simp only [hp] at h
    obtain ⟨he, hid⟩ := event?_mem hp
    subst hid
    obtain ⟨-, h⟩ := ensureCalendarWritable_ok h
    obtain ⟨attendees, -, h⟩ := Tx.ofExcept_bind_ok h
    split at h
    · exact (eventError_ok h).elim
    · have h := check_ok h
      cases h
      refine edit_writtenEvent he ?_ ?_ hcal ?_
      · rfl
      · rfl
      · dsimp only
        cases ht : previous.linkedTaskId with
        | none => exact ⟨db.tasks, rfl⟩
        | some task => exact ⟨_, rfl⟩

theorem edits_deleteCalendarEvent (id : Uuid) (expectedVersion : Int) :
    Tx.Within Edit (deleteCalendarEvent id expectedVersion) := by
  intro db a db' h
  unfold deleteCalendarEvent at h
  rw [Tx.read_bind_run] at h
  cases he : db.event? id with
  | none =>
    simp only [he] at h
    exact (eventError_ok h).elim
  | some existing =>
    simp only [he] at h
    split at h
    · exact (eventError_ok h).elim
    · obtain ⟨-, h⟩ := ensureCalendarWritable_ok h
      cases h
      have hdeleted : Edit db ((markEventForSync existing true db).deleteEvent id) :=
        (edit_markEventForSync existing true).trans (edit_deleteEvents _)
      dsimp only
      cases existing.linkedTaskId with
      | none => exact hdeleted
      | some task => exact hdeleted.trans (edit_updateTask _ _)

end Events

/-! ## The events of tasks -/

section Tasks

variable {db db' : Db}

theorem edit_ensureDefaultCalendar : Edit db (ensureDefaultCalendar db).2 := by
  unfold ensureDefaultCalendar
  split
  · exact .refl db
  · exact edit_insertCalendar rfl rfl

theorem ensureDefaultCalendar_exists :
    ∃ c ∈ (ensureDefaultCalendar db).2.calendars, c.id = (ensureDefaultCalendar db).1 := by
  unfold ensureDefaultCalendar
  cases hc : db.calendars.find? (·.isDefault) with
  | some c => exact ⟨c, List.mem_of_find?_eq_some hc, rfl⟩
  | none => exact ⟨_, List.mem_append_right _ (List.mem_singleton.2 rfl), rfl⟩

theorem preferredGoogleCalendar_exists {calendar : Uuid} (h : preferredGoogleCalendar db = some calendar) :
    ∃ c ∈ db.calendars, c.id = calendar := by
  unfold preferredGoogleCalendar at h
  obtain ⟨c, hc, hid⟩ := List.mem_map.1 (List.min?_mem h)
  exact ⟨c, (List.mem_filter.1 hc).1, hid⟩

theorem edit_preferredTimeBlockCalendar : Edit db (preferredTimeBlockCalendar db).2 := by
  unfold preferredTimeBlockCalendar
  split
  · exact .refl db
  · exact edit_ensureDefaultCalendar

theorem preferredTimeBlockCalendar_exists (db : Db) :
    ∃ c ∈ (preferredTimeBlockCalendar db).2.calendars, c.id = (preferredTimeBlockCalendar db).1 := by
  unfold preferredTimeBlockCalendar
  cases hp : preferredGoogleCalendar db with
  | some calendar => exact preferredGoogleCalendar_exists hp
  | none => exact ensureDefaultCalendar_exists

/-- The calendar is found, or added; the events stay. -/
theorem preferredTimeBlockCalendar_events : (preferredTimeBlockCalendar db).2.events = db.events := by
  unfold preferredTimeBlockCalendar ensureDefaultCalendar
  split
  · rfl
  · split
    · rfl
    · rfl

theorem edit_removeTaskCalendarEvent (task : Uuid) : Edit db (removeTaskCalendarEvent task db) := by
  unfold removeTaskCalendarEvent
  split
  · exact (edit_markEventForSync _ true).trans (edit_deleteEvents _)
  · exact .refl db

theorem ite_succ_le (p : Prop) [Decidable p] (n : Nat) :
    (if p then n + 1 else n) ≤ if p then n + 1 + 1 else n + 1 := by
  split
  · omega
  · omega

/-- The row of an event is replaced after the mapping it leaves is marked. -/
theorem edit_rewrittenEvent {e e' : CalendarEvent} {w : Db} (he : e ∈ db.events) (hid : e'.id = e.id)
    (htask : e'.linkedTaskId = e.linkedTaskId) (hcal : ∃ c ∈ db.calendars, c.id = e'.calendarId)
    (hw : w = if e.calendarId ≠ e'.calendarId then detachEventMapping e (markEventForSync e true db) else db) :
    Edit db (markEventForSync e' false (w.fresh.updateEvent e.id fun _ => e')) := by
  by_cases hmove : e.calendarId ≠ e'.calendarId
  · rw [if_pos hmove] at hw
    subst hw
    refine (edit_moveEvent he hid htask hcal).congr ?_ ?_ ?_ ?_ ?_ ?_ ?_
    · simp [fresh, updateEvent, updateEvents]
    · simp [fresh, updateEvent, updateEvents]
    · simp [fresh, updateEvent, updateEvents, markMappings, calendar?]
    · simp [fresh, updateEvent, updateEvents]
    · simp [fresh, updateEvent, updateEvents]
    · simp [fresh, updateEvent, updateEvents]
    · simp only [markEventForSync_nextId]
      exact ite_succ_le _ _
  · rw [if_neg hmove] at hw
    subst hw
    refine (edit_writeEvent he hid htask hcal (.inl (not_not.1 hmove).symm)).congr ?_ ?_ ?_ ?_ ?_ ?_ ?_
    · simp [fresh, updateEvent, updateEvents]
    · simp [fresh, updateEvent, updateEvents]
    · simp [fresh, updateEvent, updateEvents, markMappings, calendar?]
    · simp [fresh, updateEvent, updateEvents]
    · simp [fresh, updateEvent, updateEvents]
    · simp [fresh, updateEvent, updateEvents]
    · simp only [markEventForSync_nextId]
      exact ite_succ_le _ _

/-- The event of a scheduled task, when its calendar is known. -/
theorem edit_scheduledEvent {task : Task} {calendar : Uuid} {startsAt endsAt : DateTime} {w : Db}
    (hcal : ∃ c ∈ db.calendars, c.id = calendar)
    (hw : w = match db.taskEvent? task.id with
      | some e => if e.calendarId ≠ calendar then detachEventMapping e (markEventForSync e true db) else db
      | none => db) :
    Edit db (markEventForSync (upsertTaskEvent task calendar startsAt endsAt w).1 false
      (upsertTaskEvent task calendar startsAt endsAt w).2) := by
  have hevents : w.taskEvent? task.id = db.taskEvent? task.id := by
    rw [hw]
    split
    · split
      · simp [taskEvent?, detachEventMapping, updateMappings]
      · rfl
    · rfl
  cases he : db.taskEvent? task.id with
  | none =>
    simp only [he] at hw
    subst hw
    simp only [upsertTaskEvent, he]
    refine Edit.trans (edit_insertEvent rfl ?_ hcal) (edit_markEventForSync _ _)
    rintro t ⟨⟩
    exact he
  | some e =>
    simp only [he] at hw
    simp only [upsertTaskEvent, hevents.trans he]
    exact edit_rewrittenEvent (taskEvent?_mem he).1 rfl rfl hcal hw

theorem edits_syncTaskCalendarEvent (task : Task) : Tx.Within Edit (syncTaskCalendarEvent task) := by
  intro db a db' h
  unfold syncTaskCalendarEvent at h
  cases hs : task.scheduledStart with
  | none =>
    simp only [hs] at h
    cases h
    exact edit_removeTaskCalendarEvent _
  | some startsAt =>
    cases hend : task.scheduledEnd with
    | none =>
      simp only [hs, hend] at h
      cases h
      exact edit_removeTaskCalendarEvent _
    | some endsAt =>
      simp only [hs, hend, Tx.read_bind_run, Tx.write_bind_run] at h
      have hpreferred : Edit db (preferredTimeBlockCalendar db).2 := edit_preferredTimeBlockCalendar
      have hcal := preferredTimeBlockCalendar_exists db
      have htask : (preferredTimeBlockCalendar db).2.taskEvent? task.id = db.taskEvent? task.id := by
        unfold taskEvent?
        rw [preferredTimeBlockCalendar_events]
      refine hpreferred.trans ?_
      cases he : db.taskEvent? task.id with
      | none =>
        simp only [he, Tx.read_bind_run] at h
        have h := check_ok h
        cases h
        exact edit_scheduledEvent hcal (by rw [htask, he])
      | some e =>
        simp only [he] at h
        by_cases hmove : e.calendarId ≠ (preferredTimeBlockCalendar db).1
        · simp only [if_pos hmove, Tx.write_bind_run, Tx.read_bind_run] at h
          have h := check_ok h
          cases h
          exact edit_scheduledEvent hcal (by rw [htask, he]; exact (if_pos hmove).symm)
        · simp only [if_neg hmove, Tx.read_bind_run] at h
          have h := check_ok h
          cases h
          exact edit_scheduledEvent hcal (by rw [htask, he]; exact (if_neg hmove).symm)

theorem edit_ensureLabels (labels : List String) : Edit db (ensureLabels labels db) := edit_same rfl rfl rfl rfl rfl rfl le_rfl

theorem edit_insertTask (row : TaskRow) : Edit db (db.fresh.insertTask row) :=
  edit_same rfl rfl rfl rfl rfl rfl (Nat.le_succ _)

theorem edits_createTask (toLowercase : String → String) (r : CreateTaskRequest) :
    Tx.Within Edit (createTask toLowercase r) := by
  intro db a db' h
  unfold createTask at h
  obtain ⟨⟨⟩, -, h⟩ := Tx.ofExcept_bind_ok h
  obtain ⟨labels, -, h⟩ := Tx.ofExcept_bind_ok h
  split at h
  · cases h
  · rw [Tx.read_bind_run] at h
    obtain ⟨⟨⟩, -, h⟩ := Tx.ofExcept_bind_ok h
    rw [Tx.write_bind_run] at h
    obtain ⟨_, u, hs, h⟩ := Tx.bind_ok h
    cases h
    exact ((edit_insertTask _).trans (edit_ensureLabels labels)).trans (edits_syncTaskCalendarEvent _ _ _ _ hs)

theorem edits_createNextRecurringTask (task : Uuid) : Tx.Within Edit (createNextRecurringTask task) := by
  intro db a db' h
  unfold createNextRecurringTask at h
  rw [Tx.read_bind_run] at h
  cases ht : db.task? task with
  | none =>
    simp only [ht] at h
    cases h
  | some row =>
    simp only [ht, Tx.write_bind_run] at h
    cases hd : (successorSource row).dueAt with
    | none =>
      simp only [hd] at h
      cases h
    | some dueAt =>
      simp only [hd] at h
      obtain ⟨nextDueAt, -, h⟩ := Tx.ofExcept_bind_ok h
      rw [Tx.read_bind_run] at h
      split at h
      · cases h
      · split at h
        · cases h
        · rw [Tx.write_bind_run] at h
          exact ((edit_ensureLabels _).trans (edit_insertTask _)).trans (edits_syncTaskCalendarEvent _ _ _ _ h)

theorem edits_removeNextOccurrenceForReopen (task : Uuid) : Tx.Within Edit (removeNextOccurrenceForReopen task) := by
  intro db a db' h
  unfold removeNextOccurrenceForReopen at h
  rw [Tx.read_bind_run] at h
  cases hn : db.tasks.find? (·.recurrenceSourceId == some task) with
  | none =>
    simp only [hn] at h
    cases h
    exact .refl db
  | some next =>
    simp only [hn] at h
    split at h
    · cases h
      exact edit_deleteTask _
    · cases h

theorem edits_updateTaskScoped (toLowercase : String → String) (task : Uuid) (r : UpdateTaskRequest)
    (scope : Option RecurrenceEditScope) : Tx.Within Edit (updateTaskScoped toLowercase task r scope) := by
  intro db a db' h
  unfold updateTaskScoped at h
  obtain ⟨⟨⟩, -, h⟩ := Tx.ofExcept_bind_ok h
  obtain ⟨labels, -, h⟩ := Tx.ofExcept_bind_ok h
  split at h
  · cases h
  · split at h
    · cases h
    · rw [Tx.read_bind_run] at h
      obtain ⟨⟨⟩, -, h⟩ := Tx.ofExcept_bind_ok h
      obtain ⟨⟨⟩, -, h⟩ := Tx.ofExcept_bind_ok h
      cases ht : db.task? task with
      | none =>
        simp only [ht] at h
        cases h
      | some row =>
        simp only [ht] at h
        obtain ⟨prepared, -, h⟩ := Tx.ofExcept_bind_ok h
        have hsuccessor : ∀ (t : Task) (c : Prop) [Decidable c],
            Tx.Within Edit (if c then createNextRecurringTask task >>= fun _ => pure t else pure t) := by
          intro t c _
          apply Tx.Within.ite
          · exact fun _ => .bind (R := Edit) Edit.trans (edits_createNextRecurringTask task) fun _ => .pure Edit.refl t
          · exact fun _ => .pure Edit.refl t
        have hwritten : ∀ f : Db → TaskRow, Tx.Within Edit (Tx.read >>= fun x =>
            Tx.write (fun db => ensureLabels (f x).labels (db.updateTask task fun _ => f x)) >>= fun _ =>
              syncTaskCalendarEvent (f x).toTask >>= fun _ =>
                if row.status ≠ .completed ∧ (f x).status = .completed ∧ (f x).recurrence ≠ .none
                then createNextRecurringTask task >>= fun _ => pure (f x).toTask else pure (f x).toTask) := by
          intro f
          refine .bind (R := Edit) Edit.trans (.read Edit.refl) fun x => .bind (R := Edit) Edit.trans (.write fun u => ?_) fun _ =>
            .bind (R := Edit) Edit.trans (edits_syncTaskCalendarEvent _) fun _ => hsuccessor _ _
          exact (edit_updateTask _ _).trans (edit_ensureLabels _)
        split at h
        · obtain ⟨_, u, hr, h⟩ := Tx.bind_ok h
          exact (edits_removeNextOccurrenceForReopen task _ _ _ hr).trans (hwritten _ _ _ _ h)
        · exact hwritten _ _ _ _ h

theorem edits_deleteTask (task : Uuid) (expectedVersion : Int) : Tx.Within Edit (deleteTask task expectedVersion) := by
  intro db a db' h
  unfold deleteTask at h
  split at h
  · cases h
  · rw [Tx.read_bind_run] at h
    split at h
    · cases h
    · rw [Tx.write_bind_run, Tx.read_bind_run] at h
      cases ht : (removeTaskCalendarEvent task db).task? task with
      | none =>
        simp only [ht] at h
        cases h
      | some row =>
        simp only [ht] at h
        split at h
        · cases h
        · cases h
          exact (edit_removeTaskCalendarEvent task).trans (edit_deleteTask task)

/-- The mapping of an event is held back, if no decision about it is to come. -/
theorem edit_holdMapping (db : Db) {m : Mapping} {event : Uuid} (hm : m ∈ db.mappings) (hc : m.canonicalEventId = some event)
    (hn : m.conflictState = .none) (until_ : DateTime) (fingerprint : Fingerprint) :
    Edit db (db.updateMapping m.id (holdMapping until_ fingerprint)) := by
  intro h
  refine edit_updateMappings _ ?_ (by intro; rfl) (by intro; rfl) (by intro; rfl) (by intro; exact .inr rfl)
    (fun _ _ _ => .inl rfl) h
  intro x hx hid
  obtain rfl : x = m := h.mappingIds.eq hx hm (k := m.id) (by rw [beq_iff_eq.1 hid]) rfl
  refine ⟨rfl, rfl, rfl, rfl, rfl, rfl, rfl, .inr rfl, fun _ => .inr (.inl rfl), fun _ => rfl, ?_, ?_, rfl,
    fun _ _ => ⟨rfl, rfl⟩⟩
  · intro hno
    rw [hno] at hc
    cases hc
  · intro hu
    rw [hn] at hu
    cases hu

theorem task?_mem {task : Uuid} {row : TaskRow} (h : db.task? task = some row) : row ∈ db.tasks ∧ row.id = task :=
  ⟨List.mem_of_find?_eq_some h, by simpa using List.find?_some h⟩

theorem undoable_ok {locked : Bool} {task : Uuid} {expectedVersion : Int} {row : TaskRow}
    (h : undoable locked task expectedVersion db = .ok (row, db')) :
    db' = db ∧ 1 ≤ expectedVersion ∧ locked = false ∧ db.task? task = some row ∧ row.version = expectedVersion ∧
      Table.has (·.parentTaskId == some task) db.tasks = false ∧
      (db.undos.filter fun u => decide (u.expiresAt > db.now)).length < 100 := by
  unfold undoable at h
  split at h
  · cases h
  · split at h
    · cases h
    · rw [Tx.read_bind_run] at h
      cases ht : db.task? task with
      | none =>
        simp only [ht] at h
        cases h
      | some r =>
        simp only [ht] at h
        split at h
        · cases h
        · split at h
          · cases h
          · split at h
            · cases h
            · rename_i h1 h2 h3 h4 h5
              cases h
              exact ⟨rfl, by omega, by simpa using h2, rfl, by simpa using h3, eq_false_of_ne_true h4, by omega⟩

/-- What is to be held back is only read. -/
theorem heldMapping_ok {validated : Bool} {event : Option CalendarEvent} {mapping : Option (Mapping × Fingerprint)}
    (h : heldMapping validated event db = .ok (mapping, db')) :
    db' = db ∧ (∀ e, event = some e → ∃ c, db.calendar? e.calendarId = some c ∧
      (mapping = none → c.source ≠ .google ∧ db.mappingOf? e.id = none)) ∧
    ∀ p, mapping = some p → ∃ e c, event = some e ∧ db.calendar? e.calendarId = some c ∧ c.source = .google ∧
      db.mappingOf? e.id = some p.1 ∧ holdable c p.1 = true ∧ preferredGoogleCalendar db = some c.id ∧
      Table.has (fun k => k.mappingId == p.1.id && k.status == .unresolved) db.conflicts = false ∧
      p.2 = localFingerprint e.toLocalEvent := by
  cases event with
  | none =>
    cases h
    exact ⟨rfl, by simp, by simp⟩
  | some e =>
    unfold heldMapping at h
    simp only [Tx.read_bind_run] at h
    cases hc : db.calendar? e.calendarId with
    | none =>
      simp only [hc] at h
      cases h
    | some c =>
      cases hm : db.mappingOf? e.id with
      | none =>
        simp only [hc, hm] at h
        split at h
        · cases h
        · cases h
          refine ⟨rfl, ?_, by simp⟩
          rintro _ ⟨⟩
          exact ⟨c, hc, fun _ => ⟨‹_›, hm⟩⟩
      | some m =>
        simp only [hc, hm] at h
        split at h
        · cases h
        · split at h
          · cases h
          · split at h
            · rename_i h1 h2 h3
              cases h
              simp only [not_or, not_not, Bool.not_eq_false, Bool.not_eq_true] at h1 h2
              refine ⟨rfl, ?_, ?_⟩
              · rintro _ ⟨⟩
                exact ⟨c, hc, by simp⟩
              · rintro _ ⟨⟩
                exact ⟨e, c, rfl, hc, h1, hm, h2.2.1, h2.1, h2.2.2, rfl⟩
            · cases h

theorem insertJob_ok {calendar : Uuid} {key : String} {availableAt : DateTime} {a : Unit}
    (h : insertJob calendar key availableAt db = .ok (a, db')) :
    Table.has (·.idempotencyKey == key) db.jobs = false ∧
      db' = { db.fresh with jobs := db.jobs ++ [⟨db.nextId, some calendar, "calendar_sync", key, availableAt⟩] } := by
  unfold insertJob at h
  rw [Tx.read_bind_run] at h
  split at h
  · cases h
  · rename_i hkey
    cases h
    exact ⟨eq_false_of_ne_true hkey, rfl⟩

/-- The tables before the task is deleted. -/
def heldBack (row : TaskRow) (mapping : Option (Mapping × Fingerprint)) (db : Db) : Db :=
  let expiry := db.now + undoWindow
  let db' := { db.fresh with
    undos := db.undos ++ [⟨db.nextId, row.id, row.title, mapping.map (·.1.id), expiry⟩] }
  match mapping with
  | none => db'
  | some (m, fingerprint) =>
    let held := db'.updateMapping m.id (holdMapping expiry fingerprint)
    { held.fresh with jobs := held.jobs ++ [⟨held.nextId, some m.calendarId, "calendar_sync",
      "task-delete-expiry:" ++ uuidText db.nextId, expiry⟩] }

theorem holdDeletion_ok {row : TaskRow} {mapping : Option (Mapping × Fingerprint)} {receipt : TaskDeleteUndo}
    (h : holdDeletion row mapping db = .ok (receipt, db')) :
    receipt = ⟨db.nextId, row.id, row.title, mapping.map (·.1.id), db.now + undoWindow⟩ ∧
      db' = (heldBack row mapping db).deleteTask row.id := by
  unfold holdDeletion at h
  rw [Tx.read_bind_run, Tx.write_bind_run] at h
  cases mapping with
  | none =>
    cases h
    exact ⟨rfl, rfl⟩
  | some p =>
    obtain ⟨_, _, ⟨⟩, h⟩ := Tx.bind_ok h
    obtain ⟨_, u, hjob, h⟩ := Tx.bind_ok h
    obtain ⟨-, rfl⟩ := insertJob_ok hjob
    cases h
    exact ⟨rfl, rfl⟩

theorem deleteTaskWithUndo_ok {locked validated : Bool} {task : Uuid} {expectedVersion : Int} {receipt : TaskDeleteUndo}
    (h : deleteTaskWithUndo locked validated task expectedVersion db = .ok (receipt, db')) :
    ∃ row mapping, undoable locked task expectedVersion db = .ok (row, db) ∧
      heldMapping validated (db.taskEvent? task) db = .ok (mapping, db) ∧
      receipt = ⟨db.nextId, task, row.title, mapping.map (·.1.id), db.now + undoWindow⟩ ∧
      db' = (heldBack row mapping db).deleteTask task := by
  unfold deleteTaskWithUndo at h
  obtain ⟨row, u, hrow, hrest⟩ := Tx.bind_ok h
  obtain ⟨rfl, -, -, htask, -⟩ := undoable_ok hrow
  rw [Tx.read_bind_run] at hrest
  obtain ⟨mapping, v, hmapping, hlast⟩ := Tx.bind_ok hrest
  obtain ⟨rfl, -⟩ := heldMapping_ok hmapping
  obtain ⟨-, hid⟩ := task?_mem htask
  obtain ⟨hreceipt, hdb⟩ := holdDeletion_ok hlast
  rw [hid] at hreceipt hdb
  exact ⟨row, mapping, hrow, hmapping, hreceipt, hdb⟩

theorem edit_heldBack (row : TaskRow) (mapping : Option (Mapping × Fingerprint))
    (hmapping : ∀ p, mapping = some p → p.1 ∈ db.mappings ∧ (∃ event, p.1.canonicalEventId = some event) ∧
      p.1.conflictState = .none) : Edit db (heldBack row mapping db) := by
  have hreceipt : ∀ receipt, Edit db { db.fresh with undos := db.undos ++ [receipt] } := fun _ =>
    edit_same rfl rfl rfl rfl rfl rfl (Nat.le_succ _)
  cases mapping with
  | none => exact hreceipt _
  | some p =>
    obtain ⟨hm, ⟨event, hc⟩, hn⟩ := hmapping p rfl
    let receipt : TaskDeleteUndo := ⟨db.nextId, row.id, row.title, some p.1.id, db.now + undoWindow⟩
    have hheld := (hreceipt receipt).trans (edit_holdMapping { db.fresh with undos := db.undos ++ [receipt] } hm hc hn
      receipt.expiresAt p.2)
    exact hheld.congr rfl rfl rfl rfl rfl rfl (Nat.le_succ _)

theorem holdable_conflictState {c : Calendar} {m : Mapping} (h : holdable c m = true) : m.conflictState = .none := by
  simp only [holdable, Bool.and_eq_true, beq_iff_eq] at h
  exact h.1.1.1.1.2

theorem edits_deleteTaskWithUndo (locked validated : Bool) (task : Uuid) (expectedVersion : Int) :
    Tx.Within Edit (deleteTaskWithUndo locked validated task expectedVersion) := by
  intro db a db' h
  obtain ⟨row, mapping, -, hmapping, -, rfl⟩ := deleteTaskWithUndo_ok h
  refine (edit_heldBack row mapping ?_).trans (edit_deleteTask task)
  intro p hp
  obtain ⟨e, c, -, -, -, hm, hhold, -⟩ := (heldMapping_ok hmapping).2.2 p hp
  exact ⟨List.mem_of_find?_eq_some hm, ⟨e.id, by simpa using List.find?_some hm⟩, holdable_conflictState hhold⟩

end Tasks

/-! ## Resolving a conflict -/

section Resolving

variable {db db' : Db}

theorem unresolved?_mem {id : Uuid} {c : SyncConflict} (h : unresolved? id db = some c) :
    c ∈ db.conflicts ∧ c.id = id ∧ c.status = .unresolved := by
  unfold unresolved? at h
  rw [Option.filter_eq_some_iff] at h
  obtain ⟨hc, hs⟩ := h
  exact ⟨List.mem_of_find?_eq_some hc, by simpa using List.find?_some hc, by simpa using hs⟩

/-- The row of a mapping after its conflict is resolved; a held deletion is released. -/
def resolvedRow (resolution : Resolution) (m : Mapping) : Mapping :=
  resolveMapping resolution (if m.reversibleTombstone then
    { m with reversibleTombstone := false, deletionHoldUntil := none, deleteResolutionPending := true } else m)

/-- What an accepted resolution does. -/
theorem resolveSyncConflict_ok (hv : db.Valid) {locked : Bool} {conflict : Uuid} {resolution : String} {a : SyncConflict}
    (h : resolveSyncConflict locked conflict resolution db = .ok (a, db')) :
    ∃ c m r, unresolved? conflict db = some c ∧ db.mapping? c.mappingId = some m ∧ Resolution.ofText resolution = some r ∧
      (m.reversibleTombstone = true → r = .google ∧ locked = false) ∧ a = resolvedConflict r db.now c ∧
      ∃ undos jobs, db' = { db with
        mappings := update (·.id == m.id) (resolvedRow r) db.mappings
        conflicts := update (·.id == conflict) (resolvedConflict r db.now) db.conflicts
        undos := undos, jobs := jobs, nextId := db.nextId + 1 } := by
  unfold resolveSyncConflict at h
  cases hr : Resolution.ofText resolution with
  | none =>
    simp only [hr] at h
    cases h
  | some r =>
    simp only [hr, Tx.read_bind_run] at h
    cases hc : unresolved? conflict db with
    | none =>
      simp only [hc] at h
      cases h
    | some c =>
      simp only [hc] at h
      cases hm : db.mapping? c.mappingId with
      | none =>
        simp only [hm, Option.any_none, Bool.false_eq_true, if_false, Tx.write_bind_run] at h
        cases h
      | some m =>
        simp only [hm, Option.any_some] at h
        obtain ⟨hmem, hid⟩ := hv.mapping?_eq_some.1 hm
        have hrow : ∀ x ∈ db.mappings, (x.id == m.id) = true → x = m := fun x hx hxid =>
          hv.mappingIds.eq hx hmem (k := m.id) (by rw [beq_iff_eq.1 hxid]) rfl
        by_cases ht : m.reversibleTombstone = true
        · rw [if_pos ht] at h
          split at h
          · cases h
          · split at h
            · cases h
            · simp only [Tx.write_bind_run] at h
              cases h
              rename_i hgoogle hunlocked
              refine ⟨c, m, r, rfl, hm, rfl, fun _ => ⟨not_not.1 hgoogle, by simpa using hunlocked⟩, rfl, ?_⟩
              obtain ⟨jobs, heq⟩ := enqueue_eq
                (((releaseTombstone c.mappingId db).updateConflicts (·.id == conflict)
                  (resolvedConflict r db.now)).updateMapping m.id (resolveMapping r))
                (some m.calendarId) "calendar_sync" ("conflict-resolution:" ++ uuidText conflict ++ ":" ++ r.text)
              have hrows : update (·.id == m.id) (resolveMapping r) (releaseTombstone c.mappingId db).mappings =
                  update (·.id == m.id) (resolvedRow r) db.mappings := by
                unfold releaseTombstone updateMapping updateMappings
                rw [hid, update_comp (by intro; rfl), ← hid]
                apply update_congr
                intro x hx hxid
                rw [hrow x hx hxid, resolvedRow, if_pos ht]
              exact ⟨_, jobs, heq.trans (by rw [← hrows]; rfl)⟩
        · rw [if_neg ht] at h
          simp only [Tx.write_bind_run] at h
          cases h
          refine ⟨c, m, r, rfl, hm, rfl, fun ht' => absurd ht' ht, rfl, ?_⟩
          obtain ⟨jobs, heq⟩ := enqueue_eq
            ((db.updateConflicts (·.id == conflict) (resolvedConflict r db.now)).updateMapping m.id (resolveMapping r))
            (some m.calendarId) "calendar_sync" ("conflict-resolution:" ++ uuidText conflict ++ ":" ++ r.text)
          have hrows : update (·.id == m.id) (resolveMapping r) db.mappings =
              update (·.id == m.id) (resolvedRow r) db.mappings := by
            apply update_congr
            intro x hx hxid
            rw [hrow x hx hxid, resolvedRow, if_neg ht]
          exact ⟨db.undos, jobs, heq.trans (by rw [← hrows]; rfl)⟩

theorem resolvedRow_id (resolution : Resolution) (m : Mapping) : (resolvedRow resolution m).id = m.id := by
  unfold resolvedRow resolveMapping
  split <;> rfl

/-- A resolution keeps the tables valid. -/
theorem Valid.resolve (h : db.Valid) {locked : Bool} {conflict : Uuid} {resolution : String} {a : SyncConflict}
    (hr : resolveSyncConflict locked conflict resolution db = .ok (a, db')) : db'.Valid := by
  obtain ⟨c, m, r, -, -, -, -, -, undos, jobs, rfl⟩ := resolveSyncConflict_ok h hr
  have hmapping : (db.updateMapping m.id (resolvedRow r)).Valid := by
    refine h.updateMapping _ (resolvedRow_id r) ?_ ?_ ?_
    all_goals
      intro x
      unfold resolvedRow resolveMapping
      split
    all_goals first | rfl | exact .inl rfl
  have hv := hmapping.updateConflicts (·.id == conflict) (f := resolvedConflict r db.now) (by intro; rfl)
    (by intro; rfl) (by intro; exact .inr rfl)
  exact hv.congr rfl rfl rfl rfl (Nat.le_succ _)

/-- A resolution keeps the tables sound. -/
theorem Sound.resolve (h : db.Sound) {locked : Bool} {conflict : Uuid} {resolution : String} {a : SyncConflict}
    (hr : resolveSyncConflict locked conflict resolution db = .ok (a, db')) : db'.Sound := by
  refine ⟨Valid.resolve h.valid hr, ?_⟩
  obtain ⟨c, m, r, -, -, -, -, -, undos, jobs, rfl⟩ := resolveSyncConflict_ok h.valid hr
  intro x hx e he hxe
  rcases mem_update.1 hx with ⟨hx, -⟩ | ⟨y, hy, -, rfl⟩
  · exact h.mapped x hx e he hxe
  · refine h.mapped y hy e he ?_
    rw [← hxe]
    unfold resolvedRow resolveMapping
    split <;> rfl

end Resolving

end Store

/-! ## Local operations -/

/-- The changes of events and tasks a user can make, each a transaction of its own. -/
inductive LocalOp
  | createEvent (r : CreateCalendarEventRequest)
  | updateEvent (id : Uuid) (r : UpdateCalendarEventRequest)
  | deleteEvent (id : Uuid) (expectedVersion : Int)
  | createTask (r : CreateTaskRequest)
  | updateTask (task : Uuid) (r : UpdateTaskRequest) (scope : Option RecurrenceEditScope)
  | deleteTask (task : Uuid) (expectedVersion : Int)
  | deleteTaskWithUndo (validated : Bool) (task : Uuid) (expectedVersion : Int)

/-- `locked`: a synchronization is running. -/
def LocalOp.perform (toLowercase : String → String) (locked : Bool) (op : LocalOp) (db : Db) : Db :=
  match op with
  | .createEvent r => (Tx.commit (Store.createCalendarEvent toLowercase r) db).2
  | .updateEvent id r => (Tx.commit (Store.updateCalendarEvent toLowercase id r) db).2
  | .deleteEvent id version => (Tx.commit (Store.deleteCalendarEvent id version) db).2
  | .createTask r => (Tx.commit (Store.createTask toLowercase r) db).2
  | .updateTask task r scope => (Tx.commit (Store.updateTaskScoped toLowercase task r scope) db).2
  | .deleteTask task version => (Tx.commit (Store.deleteTask task version) db).2
  | .deleteTaskWithUndo validated task version =>
    (Tx.commit (Store.deleteTaskWithUndo locked validated task version) db).2

/-- Whatever a user does, the tables stay valid and in the frame of an edit. -/
theorem LocalOp.edited (toLowercase : String → String) (locked : Bool) (op : LocalOp) (db : Db) :
    db.Edit (op.perform toLowercase locked db) := by
  cases op with
  | createEvent r => exact Tx.Within.commit Db.Edit.refl (Store.edits_createCalendarEvent toLowercase r) db
  | updateEvent id r => exact Tx.Within.commit Db.Edit.refl (Store.edits_updateCalendarEvent toLowercase id r) db
  | deleteEvent id version => exact Tx.Within.commit Db.Edit.refl (Store.edits_deleteCalendarEvent id version) db
  | createTask r => exact Tx.Within.commit Db.Edit.refl (Store.edits_createTask toLowercase r) db
  | updateTask task r scope =>
    exact Tx.Within.commit Db.Edit.refl (Store.edits_updateTaskScoped toLowercase task r scope) db
  | deleteTask task version => exact Tx.Within.commit Db.Edit.refl (Store.edits_deleteTask task version) db
  | deleteTaskWithUndo validated task version =>
    exact Tx.Within.commit Db.Edit.refl (Store.edits_deleteTaskWithUndo locked validated task version) db

end Prosepect
