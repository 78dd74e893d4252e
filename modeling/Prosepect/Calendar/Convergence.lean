/-
One pass over a calendar that finds one remote change of a locally edited event, where the policy
keeps the local version: when the local version arrives at Google in the push of the same pass.

A changed event keeps the etag the mapping had, which Google refuses. A cancelled one is created
anew under the id of the local row, which Google refuses if it was the id of the cancelled one.
-/
import Prosepect.Calendar.Creation
import Prosepect.Calendar.Pull

namespace Prosepect

open Time Resumption Versions SyncService

/-! ## What is claimed -/

/-- A version has exactly the shape of a write. -/
def Google.Says (v : Google.Version) (body : GoogleEventWrite) : Prop :=
  v.content.summary = some body.summary ∧ v.content.description = body.description ∧
    v.content.start = some body.start ∧ v.content.end = some body.end ∧ v.content.location = body.location ∧
    v.content.attendees = body.attendees ∧ v.content.recurrence = body.recurrence

instance (v : Google.Version) (body : GoogleEventWrite) : Decidable (Google.Says v body) :=
  inferInstanceAs (Decidable (_ ∧ _))

theorem Google.says_written (key : String × String) (revision : Nat) (e : LocalEvent) (id : Option String)
    (now : DateTime) :
    Google.Says ⟨key, revision, Google.written { GoogleEventWrite.fromLocal e with id := id } now⟩
      (GoogleEventWrite.fromLocal e) :=
  ⟨rfl, rfl, rfl, rfl, rfl, rfl, rfl⟩

/-- The pass succeeds, and the event of the mapping has a clean mapping at the last version Google
has, which is live and has exactly the shape of the local event. -/
def Converged (m : Mapping) (db : Db) (out : Except SyncError Unit × (Db × Google)) : Prop :=
  out.1 = .ok () ∧ ∃ e ∈ db.events, m.canonicalEventId = some e.id ∧
    ∃ m' ∈ out.2.1.mappings, m'.canonicalEventId = some e.id ∧ m'.localDirty = false ∧ m'.localDeleted = false ∧
      ∃ v, out.2.2.events.current (m'.externalCalendarId, m'.externalEventId) = some v ∧ Google.cancelled v = false ∧
        Google.etag v = m'.externalEtag ∧ Google.Says v (GoogleEventWrite.fromLocal e.toLocalEvent)

/-- A pass is sent one change of a locally edited event, for which the policy keeps the local
version, and nothing else was edited on either side. -/
structure Contested (calendar : SyncCalendar) (externalId : String) (m : Mapping) (v : Google.Version) (db : Db)
    (g : Google) : Prop where
  reliable : g.faults = []
  mapping : db.mappingAt? calendar.externalId externalId = some m
  dirty : m.localDirty = true
  current : g.events.current (calendar.externalId, externalId) = some v
  sent : g.since calendar.syncToken ≤ v.revision
  changed : Google.cancelled v = true ∨ m.externalEtag ≠ Google.etag v
  keeps : keepLocal (policyInForce db.policy (db.mappingState m)) (Google.event v) (db.mappingState m) = true
  seen : ∀ event ∈ delivered calendar g, event.id ≠ some externalId → Seen calendar db event
  unmapped : db.selectUnmapped calendar.id = []
  clean : ∀ r ∈ db.mappings, r.id ≠ m.id → Db.pushable calendar.id db.now r = false
  settled : db.selectResolutionPending calendar.id = []

/-- The condition for a changed event: the mapping has no etag, and nothing holds its push back. -/
def Unguarded (calendar : SyncCalendar) (m : Mapping) (v : Google.Version) (db : Db) : Prop :=
  m.externalEtag = none ∧ m.reversibleTombstone = false ∧ m.localDeleted = false ∧
    Db.pushable calendar.id db.now m = true ∧ (∃ n, normalizeEvent (Google.event v) = .ok n) ∧
    ∃ e ∈ db.events, m.canonicalEventId = some e.id

/-- The condition for a cancelled event: the id of the local row is free, or leads to its content. -/
def Recreatable (calendar : SyncCalendar) (m : Mapping) (db : Db) (g : Google) : Prop :=
  ∃ e ∈ db.events, m.canonicalEventId = some e.id ∧ e.calendarId = calendar.id ∧
    db.mappingAt? calendar.externalId (googleEventId e.id) = none ∧
    ∀ w, g.events.current (creationKey calendar e.toLocalEvent) = some w →
      Google.cancelled w = false ∧ Google.Says w (GoogleEventWrite.fromLocal e.toLocalEvent)

namespace Db

/-! ## What a pass selects -/

theorem selectUnmapped_eq_nil {db : Db} {calendar : Uuid} : db.selectUnmapped calendar = [] ↔
    ∀ e ∈ db.events, e.calendarId = calendar → ∃ r ∈ db.mappings, r.canonicalEventId = some e.id := by
  unfold selectUnmapped
  rw [List.map_eq_nil_iff, List.filter_eq_nil_iff]
  constructor
  · intro h e he hcal
    by_contra hno
    refine h e he ?_
    rw [Bool.and_eq_true, Option.isNone_iff_eq_none, mappingOf?_eq_none]
    exact ⟨by simpa using hcal, fun m hm hmc => hno ⟨m, hm, hmc⟩⟩
  · intro h e he hsel
    rw [Bool.and_eq_true, Option.isNone_iff_eq_none, mappingOf?_eq_none, beq_iff_eq] at hsel
    obtain ⟨r, hr, hrc⟩ := h e he hsel.1
    exact hsel.2 r hr hrc

/-- A mapping whose resolved deletion is settled by reading the event again. -/
def resolutionPending (calendar : Uuid) (m : Mapping) : Bool :=
  m.calendarId == calendar && m.deleteResolutionPending && !m.localDirty && !m.localDeleted && m.canonicalEventId.isNone

theorem selectResolutionPending_eq_nil {db : Db} {calendar : Uuid} : db.selectResolutionPending calendar = [] ↔
    ∀ r ∈ db.mappings, resolutionPending calendar r = false := by
  have hnil : ∀ l : List Mapping, ((l.insertionSort fun a b => a.id ≤ b.id).take 100).map (fun m => (m.id, m.externalEventId)) = [] ↔
      l = [] := by
    intro l
    rw [List.map_eq_nil_iff, List.take_eq_nil_iff]
    constructor
    · rintro (h | h)
      · omega
      · rw [← List.length_eq_zero_iff, ← List.length_insertionSort fun a b : Mapping => a.id ≤ b.id, h]
        rfl
    · rintro rfl
      exact .inr rfl
  refine (hnil _).trans ?_
  rw [List.filter_eq_nil_iff]
  simp only [resolutionPending, Bool.not_eq_true]

theorem selectDirty_eq_nil {db : Db} {calendar : Uuid} :
    db.selectDirty calendar = [] ↔ ∀ r ∈ db.mappings, pushable calendar db.now r = false := by
  unfold selectDirty
  rw [List.map_eq_nil_iff, List.filter_eq_nil_iff]
  simp only [Bool.not_eq_true]

end Db

namespace SyncService

section Pass

variable {calendar : SyncCalendar} {externalId : String} {db db' : Db} {g g' : Google}

/-! ## The parts of a pass -/

/-- A change is sent once, among the events of other ids. -/
theorem delivered_split {v : Google.Version} (hc : g.events.current (calendar.externalId, externalId) = some v)
    (hs : g.since calendar.syncToken ≤ v.revision) :
    ∃ l l', delivered calendar g = l ++ Google.event v :: l' ∧ ∀ x ∈ l ++ l', x.id ≠ some externalId := by
  obtain ⟨l, l', hl, hne⟩ := History.since_split hc hs
  have hkey := History.current_key hc
  have hcal : (v.key.1 == calendar.externalId) = true := by rw [hkey]; exact beq_self_eq_true _
  refine ⟨(l.filter (·.key.1 == calendar.externalId)).map Google.event,
    (l'.filter (·.key.1 == calendar.externalId)).map Google.event, ?_, ?_⟩
  · unfold delivered Google.changed
    rw [hl, List.filter_append, List.filter_cons, if_pos hcal, List.map_append, List.map_cons]
  · intro x hx
    rw [← List.map_append, ← List.filter_append] at hx
    obtain ⟨w, hw, rfl⟩ := List.mem_map.1 hx
    obtain ⟨hw, hwcal⟩ := List.mem_filter.1 hw
    intro hid
    refine hne w hw ?_
    rw [beq_iff_eq] at hwcal
    exact Prod.ext hwcal (Option.some.inj hid)

/-- After a pull without a resolved deletion to settle, a pass is a push. -/
theorem run_syncCalendar_pull {fuel : Nat}
    (h : (pullCalendar fuel calendar).run (exec Google.provider) (db, g) = (.ok (), (db', g')))
    (hs : db'.selectResolutionPending calendar.id = []) :
    (syncCalendar fuel calendar).run (exec Google.provider) (db, g) =
      ((pushCalendar calendar).bind fun _ => sql (.setSynced calendar.id)).run (exec Google.provider) (db', g') := by
  have hattempt : (pullCalendar fuel calendar).attempt.run (exec Google.provider) (db, g) = (.ok (.ok ()), (db', g')) := by
    rw [Prog.run_attempt, h]
  have hreconcile : (reconcileDeletedTaskResolution calendar).run (exec Google.provider) (db', g') = (.ok (), (db', g')) := by
    unfold reconcileDeletedTaskResolution
    rw [Prog.bind_eq, run_sql_bind (s := .selectResolutionPending calendar.id) rfl, hs]
    rfl
  unfold syncCalendar
  rw [Prog.bind_eq, Prog.run_bind_ok _ hattempt]
  exact Prog.run_bind_ok _ hreconcile

/-- A pull that fails ends the pass. -/
theorem run_syncCalendar_error {fuel : Nat} {e : SyncError}
    (h : (pullCalendar fuel calendar).run (exec Google.provider) (db, g) = (.error e, (db', g'))) :
    ((syncCalendar fuel calendar).run (exec Google.provider) (db, g)).1 = .error e := by
  have hattempt : (pullCalendar fuel calendar).attempt.run (exec Google.provider) (db, g) = (.ok (.error e), (db', g')) := by
    rw [Prog.run_attempt, h]
  unfold syncCalendar
  rw [Prog.bind_eq, Prog.run_bind_ok _ hattempt]
  simp only [Prog.bind_eq]
  rw [run_sql_bind (s := .setSyncError calendar.id e) rfl]
  rfl

/-- A push without unmapped events. -/
theorem run_push_dirty (hu : db.selectUnmapped calendar.id = []) :
    (pushCalendar calendar).run (exec Google.provider) (db, g) =
      (Prog.forEach (pushDirty calendar) (db.selectDirty calendar.id)).run (exec Google.provider) (db, g) := by
  unfold pushCalendar
  simp only [Prog.bind_eq]
  rw [run_sql_bind (s := .selectUnmapped calendar.id) rfl, hu]
  simp only [Prog.forEach, Prog.ret_bind]
  rw [run_sql_bind (s := .selectDirty calendar.id) rfl]

/-- A push of one unmapped event after which no mapping is to be pushed. -/
theorem run_push_unmapped {e : LocalEvent} {res : Except SyncError Unit} (hu : db.selectUnmapped calendar.id = [e])
    (h : (pushUnmapped calendar e).run (exec Google.provider) (db, g) = (res, (db', g')))
    (hd : res = .ok () → db'.selectDirty calendar.id = []) :
    (pushCalendar calendar).run (exec Google.provider) (db, g) = (res, (db', g')) := by
  unfold pushCalendar
  simp only [Prog.bind_eq]
  rw [run_sql_bind (s := .selectUnmapped calendar.id) rfl, hu]
  simp only [Prog.forEach, Prog.bind_assoc, Prog.ret_bind]
  cases res with
  | error err => exact Prog.run_bind_error _ h
  | ok u =>
    rw [Prog.run_bind_ok _ h, run_sql_bind (s := .selectDirty calendar.id) rfl, hd rfl]
    rfl

/-- The end of a pass keeps what it succeeded in. -/
theorem run_setSynced (calendar : SyncCalendar) {p : Sync Unit} (h : p.run (exec Google.provider) (db, g) = (.ok (), (db', g'))) :
    ∃ db'', db'.Matches db'' ∧
      (p.bind fun _ => sql (.setSynced calendar.id)).run (exec Google.provider) (db, g) = (.ok (), (db'', g')) := by
  refine ⟨db'.updateCalendar calendar.id fun c => { c with lastSyncedAt := some db'.now, lastSyncError := none },
    Db.matches_updateCalendar db' calendar.id (by intro; rfl), ?_⟩
  rw [Prog.run_bind_ok _ h]
  exact run_sql_ok rfl

/-- The pull of a contested pass succeeds as the delivery of the change does. -/
theorem run_pull_contested {m : Mapping} {v : Google.Version} (h : Contested calendar externalId m v db g) (fuel : Nat)
    {res : Except SyncError Unit}
    (hdel : (applyRemoteEvent calendar (Google.event v)).run (exec Google.provider) (db, g) = (res, (db', g)))
    (hseen : ∀ x, x.id ≠ some externalId → Seen calendar db x → Seen calendar db' x) :
    ∃ db'', db'.Matches db'' ∧ (pullCalendar (fuel + 2) calendar).run (exec Google.provider) (db, g) = (res, (db'', g)) := by
  obtain ⟨l, l', hl, hne⟩ := delivered_split h.current h.sent
  have hold : ∀ x ∈ l ++ l', Seen calendar db x := by
    intro x hx
    refine h.seen x ?_ (hne x hx)
    rw [hl]
    rcases List.mem_append.1 hx with hx | hx
    · exact List.mem_append_left _ hx
    · exact List.mem_append_right _ (List.mem_cons_of_mem _ hx)
  have hall := run_forEach_one l l' (fun x hx => hold x (List.mem_append_left _ hx)) hdel fun x hx =>
    hseen x (hne x (List.mem_append_right _ hx)) (hold x (List.mem_append_right _ hx))
  rw [run_pullCalendar h.reliable, hl]
  cases res with
  | error e => exact ⟨db', .refl db', Prog.run_bind_error _ hall⟩
  | ok u =>
    rw [Prog.run_bind_ok _ hall]
    exact run_finishPull g db' _

end Pass

section Live

variable {calendar : SyncCalendar} {externalId : String} {m : Mapping} {v : Google.Version} {db db' db'' : Db} {g : Google}

/-! ## A changed event -/

/-- The tables with the row of the mapping replaced. -/
structure Replaced (m : Mapping) (f : Mapping → Mapping) (db db' : Db) : Prop where
  now : db'.now = db.now
  events : db'.events = db.events
  mappings : db'.mappings = Table.update (·.id == m.id) f db.mappings

/-- What a delivery that keeps the local version leaves of a mapping. -/
structure Left (f : Mapping → Mapping) : Prop where
  id : ∀ r, (f r).id = r.id
  calendar : ∀ r, (f r).calendarId = r.calendarId
  externalCalendar : ∀ r, (f r).externalCalendarId = r.externalCalendarId
  externalEvent : ∀ r, (f r).externalEventId = r.externalEventId
  canonical : ∀ r, (f r).canonicalEventId = r.canonicalEventId
  dirty : ∀ r, (f r).localDirty = r.localDirty

theorem left_clearResolution : Left Db.clearResolution := by constructor <;> (intro; rfl)

theorem left_flagUnresolved : Left Db.flagUnresolved := by constructor <;> (intro; rfl)

variable {f : Mapping → Mapping}

/-- The rows after the row of `m` is replaced. -/
theorem mem_replaced (hv : db.Valid) (hm : m ∈ db.mappings) (hr : Replaced m f db db') {r : Mapping} :
    r ∈ db'.mappings ↔ (r ∈ db.mappings ∧ r.id ≠ m.id) ∨ r = f m := by
  rw [hr.mappings, Table.mem_update]
  constructor
  · rintro (⟨h, hne⟩ | ⟨s, hs, hid, rfl⟩)
    · exact .inl ⟨h, by simpa using hne⟩
    · rw [hv.mappingIds.eq hs hm (k := m.id) (by rw [beq_iff_eq.1 hid]) rfl]
      exact .inr rfl
  · rintro (⟨h, hne⟩ | rfl)
    · exact .inl ⟨h, by simpa using hne⟩
    · exact .inr ⟨m, hm, beq_self_eq_true _, rfl⟩

theorem seen_replaced (hv : db.Valid) (hv' : db'.Valid) (h : Contested calendar externalId m v db g) (hf : Left f)
    (hr : Replaced m f db db') (hp : db'.policy = db.policy) (x : GoogleEvent) (hx : x.id ≠ some externalId)
    (hseen : Seen calendar db x) : Seen calendar db' x := by
  obtain ⟨hm, -, hev⟩ := hv.mappingAt?_eq_some.1 h.mapping
  refine hseen.congr hv hv' hp hr.events externalId ?_ hx
  intro r hcal hne
  rw [mem_replaced hv hm hr]
  constructor
  · rintro (⟨h, -⟩ | rfl)
    · exact h
    · rw [hf.externalEvent] at hne
      exact absurd hev hne
  · intro hmem
    refine .inl ⟨hmem, ?_⟩
    intro hid
    rw [hv.mappingIds.eq hmem hm (k := m.id) (by rw [hid]) rfl] at hne
    exact hne hev

/-- No event is unmapped then, and no resolved deletion is to be settled. -/
theorem quiet_replaced (hv : db.Valid) (h : Contested calendar externalId m v db g) (hf : Left f)
    (hr : Replaced m f db db') :
    db'.selectUnmapped calendar.id = [] ∧ db'.selectResolutionPending calendar.id = [] := by
  obtain ⟨hm, -, -⟩ := hv.mappingAt?_eq_some.1 h.mapping
  constructor
  · rw [Db.selectUnmapped_eq_nil, hr.events]
    intro e he hcal
    obtain ⟨r, hrm, hrc⟩ := Db.selectUnmapped_eq_nil.1 h.unmapped e he hcal
    by_cases hid : r.id = m.id
    · obtain rfl := hv.mappingIds.eq hrm hm (k := m.id) (by rw [hid]) rfl
      exact ⟨f r, (mem_replaced hv hm hr).2 (.inr rfl), (hf.canonical r).trans hrc⟩
    · exact ⟨r, (mem_replaced hv hm hr).2 (.inl ⟨hrm, hid⟩), hrc⟩
  · rw [Db.selectResolutionPending_eq_nil]
    intro r hrm
    rcases (mem_replaced hv hm hr).1 hrm with ⟨hrm, -⟩ | rfl
    · exact Db.selectResolutionPending_eq_nil.1 h.settled r hrm
    · simp [Db.resolutionPending, hf.dirty, h.dirty]

/-- The mappings to push are the replaced row, or none. -/
theorem dirty_replaced (hv : db.Valid) (h : Contested calendar externalId m v db g) (hf : Left f)
    (hr : Replaced m f db db') : db'.selectDirty calendar.id =
      if Db.pushable calendar.id db.now (f m) then [db'.dirtyMapping (f m)] else [] := by
  obtain ⟨hm, -, -⟩ := hv.mappingAt?_eq_some.1 h.mapping
  have hids : Table.Unique (fun r : Mapping => some r.id) db'.mappings := by
    rw [hr.mappings]
    exact hv.mappingIds.update fun r => .inl (by rw [hf.id])
  have hothers : ∀ r ∈ db'.mappings, Db.pushable calendar.id db'.now r = true → r = f m := by
    intro r hrm hp
    rcases (mem_replaced hv hm hr).1 hrm with ⟨hrm, hid⟩ | rfl
    · rw [hr.now, h.clean r hrm hid] at hp
      cases hp
    · rfl
  split
  · rename_i hp
    unfold Db.selectDirty
    rw [hids.filter_eq_singleton (k := (f m).id) ((mem_replaced hv hm hr).2 (.inr rfl)) (by rw [hr.now]; exact hp)
      fun r hrm hp => by rw [hothers r hrm hp]]
    rfl
  · rename_i hp
    rw [Db.selectDirty_eq_nil]
    intro r hrm
    by_contra hno
    rw [Bool.not_eq_false] at hno
    have := hothers r hrm hno
    rw [this, hr.now] at hno
    exact hp hno

/-- A mapping that is still dirty has not converged. -/
theorem not_converged_of_dirty (hv : db.Valid) (h : Contested calendar externalId m v db g) (hf : Left f)
    (hr : Replaced m f db db') {out : Except SyncError Unit × (Db × Google)} (ho : out.2.1.mappings = db'.mappings) :
    ¬ Converged m db out := by
  obtain ⟨hm, -, -⟩ := hv.mappingAt?_eq_some.1 h.mapping
  rintro ⟨-, e, -, he, m', hm', hc, hd, -⟩
  rw [ho] at hm'
  rcases (mem_replaced hv hm hr).1 hm' with ⟨hm', hid⟩ | rfl
  · rw [hv.mappingEvents.eq hm' hm hc he] at hid
    exact hid rfl
  · rw [hf.dirty, h.dirty] at hd
    cases hd

/-! ## The push of a changed event -/

variable {d : DirtyMapping}

/-- A push with an etag that is not the last one is refused. -/
theorem run_pushDirty_refused (db : Db) (hg : g.faults = [])
    (hc : g.events.current (calendar.externalId, d.externalEventId) = some v) (hlive : Google.cancelled v = false)
    (hmis : Google.mismatch d.externalEtag v = true) :
    ∃ err, (pushDirty calendar d).run (exec Google.provider) (db, g) = (.error err, (db, g)) := by
  have hdel : ∃ err, (pushDeleted calendar d).run (exec Google.provider) (db, g) = (.error err, (db, g)) := by
    have hserve : Google.serve (.deleteEvent calendar.externalId d.externalEventId d.externalEtag) g =
        (⟨412, none⟩, g) := by
      show g.delete _ _ = _
      simp only [Google.delete, hc, hlive, hmis, if_true, Bool.false_eq_true, if_false]
    unfold pushDeleted
    rw [Prog.bind_eq, Prog.run_bind_ok _ (run_send_reliable hg _), hserve]
    exact ⟨_, rfl⟩
  unfold pushDirty
  split
  · rename_i e _ _
    have hserve : Google.serve (.putEvent calendar.externalId d.externalEventId (GoogleEventWrite.fromLocal e)
        d.externalEtag) g = (⟨412, none⟩, g) := by
      show g.put _ _ _ = _
      simp only [Google.put, hc, hmis, if_true]
    unfold pushChanged sendJson
    rw [Prog.bind_eq, Prog.bind_eq, Prog.bind_assoc, Prog.run_bind_ok _ (run_send_reliable hg _), hserve]
    exact ⟨_, rfl⟩
  · exact hdel

/-- A push without an etag is accepted. -/
theorem run_pushChanged_accepted (db : Db) (hg : g.faults = [])
    (hc : g.events.current (calendar.externalId, d.externalEventId) = some v) (hetag : d.externalEtag = none) (e : LocalEvent) :
    ∃ w, (pushChanged calendar d e).run (exec Google.provider) (db, g) =
        (.ok (), ((db.updateMapping d.mappingId (Db.pushed (Google.etag w) (localFingerprint e) db.now)).insertActivity
          "local_event_updated" "Updated a Google event from Prosepect",
          g.commit (calendar.externalId, d.externalEventId) (Google.written (GoogleEventWrite.fromLocal e) g.now))) ∧
      (g.commit (calendar.externalId, d.externalEventId) (Google.written (GoogleEventWrite.fromLocal e) g.now)).events.current
        (calendar.externalId, d.externalEventId) = some w ∧
      Google.cancelled w = false ∧ Google.Says w (GoogleEventWrite.fromLocal e) := by
  refine ⟨⟨_, g.events.next, Google.written (GoogleEventWrite.fromLocal e) g.now⟩, ?_, History.current_commit, rfl,
    ⟨rfl, rfl, rfl, rfl, rfl, rfl, rfl⟩⟩
  have hserve : Google.serve (.putEvent calendar.externalId d.externalEventId (GoogleEventWrite.fromLocal e)
      d.externalEtag) g = (⟨200, some (Google.event ⟨(calendar.externalId, d.externalEventId), g.events.next,
        Google.written (GoogleEventWrite.fromLocal e) g.now⟩)⟩,
        g.commit (calendar.externalId, d.externalEventId) (Google.written (GoogleEventWrite.fromLocal e) g.now)) := by
    show g.put _ _ _ = _
    simp only [Google.put, hc, Google.mismatch, hetag, Option.any_none, Bool.false_eq_true, if_false]
  unfold pushChanged sendJson
  rw [Prog.bind_eq, Prog.bind_eq, Prog.bind_assoc, Prog.run_bind_ok _ (run_send_reliable hg _), hserve]
  rfl

theorem run_pushDeleted_accepted (db : Db) (hg : g.faults = [])
    (hc : g.events.current (calendar.externalId, d.externalEventId) = some v) (hlive : Google.cancelled v = false)
    (hetag : d.externalEtag = none) :
    ∃ g', (pushDeleted calendar d).run (exec Google.provider) (db, g) =
      (.ok (), ((db.deleteMappings (·.id == d.mappingId)).insertActivity
        "local_event_deleted" "Deleted a Google event from Prosepect", g')) := by
  have hserve : Google.serve (.deleteEvent calendar.externalId d.externalEventId d.externalEtag) g =
      (⟨204, none⟩, g.commit (calendar.externalId, d.externalEventId)
        { v.content with status := some "cancelled", updated := some g.now }) := by
    show g.delete _ _ = _
    simp only [Google.delete, hc, hlive, Google.mismatch, hetag, Option.any_none, Bool.false_eq_true, if_false]
  unfold pushDeleted
  rw [Prog.bind_eq, Prog.run_bind_ok _ (run_send_reliable hg _), hserve]
  exact ⟨_, rfl⟩

/-- What is left of a pass after the pull, when the row of the mapping is replaced. -/
theorem run_pass_replaced (hv : db.Valid) (h : Contested calendar externalId m v db g) (hf : Left f)
    (hr : Replaced m f db db') {fuel : Nat}
    (hpull : (pullCalendar fuel calendar).run (exec Google.provider) (db, g) = (.ok (), (db', g))) :
    (syncCalendar fuel calendar).run (exec Google.provider) (db, g) =
      ((Prog.forEach (pushDirty calendar)
        (if Db.pushable calendar.id db.now (f m) then [db'.dirtyMapping (f m)] else [])).bind
          fun _ => sql (.setSynced calendar.id)).run (exec Google.provider) (db', g) := by
  obtain ⟨hunmapped, hsettled⟩ := quiet_replaced hv h hf hr
  rw [run_syncCalendar_pull hpull hsettled, Prog.run_bind, run_push_dirty hunmapped, ← Prog.run_bind,
    dirty_replaced hv h hf hr]

/-- A replaced row that is not to be pushed stays dirty. -/
theorem not_converged_of_held (hv : db.Valid) (h : Contested calendar externalId m v db g) (hf : Left f)
    (hr : Replaced m f db db') {fuel : Nat}
    (hpull : (pullCalendar fuel calendar).run (exec Google.provider) (db, g) = (.ok (), (db', g)))
    (hp : ¬ Db.pushable calendar.id db.now (f m) = true) :
    ¬ Converged m db ((syncCalendar fuel calendar).run (exec Google.provider) (db, g)) := by
  have hnone : (Prog.forEach (pushDirty calendar) []).run (exec Google.provider) (db', g) = (.ok (), (db', g)) := rfl
  obtain ⟨db2, hm2, hrun⟩ := run_setSynced calendar hnone
  apply not_converged_of_dirty hv h hf hr
  rw [run_pass_replaced hv h hf hr hpull, if_neg hp, hrun]
  exact hm2.mappings

theorem Replaced.of_matches (hr : Replaced m f db db') (hm : db'.Matches db'') : Replaced m f db db'' :=
  ⟨hm.now.trans hr.now, hm.events.trans hr.events, hm.mappings.trans hr.mappings⟩

theorem replaced_clearResolution (m : Mapping) (db : Db) :
    Replaced m Db.clearResolution db (db.updateMapping m.id Db.clearResolution) := ⟨rfl, rfl, rfl⟩

theorem replaced_raiseConflict (m : Mapping) (title : String) (db : Db) :
    Replaced m Db.flagUnresolved db ((db.raiseConflict m title).deleteUndos (·.mappingId == some m.id)) where
  now := by
    show (db.openConflict m title).now = _
    unfold Db.openConflict
    split <;> rfl
  events := Db.openConflict_events m db title
  mappings := by
    show Table.update _ _ (db.openConflict m title).mappings = _
    rw [Db.openConflict_mappings]

theorem not_ask (h : Contested calendar externalId m v db g) : policyInForce db.policy (db.mappingState m) ≠ .ask := by
  intro hask
  have hk := h.keeps
  rw [hask] at hk
  cases hk

/-- A changed event whose mapping has no reversible tombstone: the local version is kept. -/
theorem deliver_kept (h : Contested calendar externalId m v db g) (hlive : Google.cancelled v = false)
    (htomb : m.reversibleTombstone = false) {n : NormalizedEvent} (hn : normalizeEvent (Google.event v) = .ok n) :
    (applyRemoteEvent calendar (Google.event v)).run (exec Google.provider) (db, g) =
      (.ok (), (db.updateMapping m.id Db.clearResolution, g)) := by
  have hid : (Google.event v).id = some externalId := by
    show some v.key.2 = _
    rw [History.current_key h.current]
  have hetag : m.externalEtag ≠ Google.etag v := by
    rcases h.changed with hc | hc
    · rw [hlive] at hc
      cases hc
    · exact hc
  have hedit : ((db.mappingState m).localDirty || (db.mappingState m).localDeleted) = true := by
    show (m.localDirty || m.localDeleted) = true
    rw [h.dirty]
    rfl
  have hl : (Google.event v).cancelled = false := hlive
  have hexit := exitOf_edited externalId db.policy (m := db.mappingState m) htomb hl hn hetag hedit
  rw [if_neg (not_ask h), if_pos h.keeps] at hexit
  rw [run_applyRemoteEvent calendar hid, h.mapping, Option.map_some, hexit, Exit.perform]
  exact run_sql_ok (s := .clearPendingResolution m.id) rfl

/-- A push that is accepted converges exactly if it is one of an event. -/
theorem converged_accepted_iff (hv : db.Valid) (h : Contested calendar externalId m v db g)
    (hlive : Google.cancelled v = false) (hr : Replaced m Db.clearResolution db db') {fuel : Nat}
    (hpull : (pullCalendar fuel calendar).run (exec Google.provider) (db, g) = (.ok (), (db', g)))
    (hp : Db.pushable calendar.id db.now (Db.clearResolution m) = true) (hme : m.externalEtag = none) :
    Converged m db ((syncCalendar fuel calendar).run (exec Google.provider) (db, g)) ↔
      m.localDeleted = false ∧ ∃ e ∈ db.events, m.canonicalEventId = some e.id := by
  obtain ⟨hm, hmcal, hmev⟩ := hv.mappingAt?_eq_some.1 h.mapping
  have hpass := run_pass_replaced hv h left_clearResolution hr hpull
  rw [if_pos hp] at hpass
  have hcur : g.events.current (calendar.externalId, (db'.dirtyMapping (Db.clearResolution m)).externalEventId) = some v := by
    show g.events.current (calendar.externalId, m.externalEventId) = some v
    rw [hmev]
    exact h.current
  cases hcan : m.canonicalEventId with
  | none =>
    refine iff_of_false ?_ ?_
    · rintro ⟨-, e, -, he, -⟩
      rw [hcan] at he
      cases he
    · rintro ⟨-, e, -, he⟩
      cases he
  | some k =>
    obtain ⟨x, hx, hxk⟩ := hv.mappingEvent m hm k hcan
    have hev : (db'.dirtyMapping (Db.clearResolution m)).event = some x.toLocalEvent := by
      have hfind : db'.event? k = some x := by
        unfold Db.event?
        rw [hr.events]
        exact hv.event?_eq_some.2 ⟨hx, hxk⟩
      show (m.canonicalEventId.bind db'.event?).map (·.toLocalEvent) = _
      rw [hcan, Option.bind_some, hfind]
      rfl
    cases hdel : m.localDeleted with
    | true =>
      -- the event is deleted at Google
      refine iff_of_false ?_ (by rintro ⟨hno, -⟩; cases hno)
      have hdirty : pushDirty calendar (db'.dirtyMapping (Db.clearResolution m)) =
          pushDeleted calendar (db'.dirtyMapping (Db.clearResolution m)) := by
        have hd : (db'.dirtyMapping (Db.clearResolution m)).localDeleted = true := hdel
        unfold pushDirty
        rw [hd]
      obtain ⟨g', hpush⟩ := run_pushDeleted_accepted db' h.reliable hcur hlive hme
      obtain ⟨db3, hm3, hend⟩ := run_setSynced calendar hpush
      rintro ⟨-, e, -, he, m', hm', hc, -⟩
      rw [hpass, Prog.forEach, hdirty, Prog.bind_assoc, Prog.run_bind_ok _ hpush, Prog.forEach, Prog.ret_bind] at hm'
      rw [Prog.run_bind_ok _ hpush] at hend
      rw [hend] at hm'
      rw [hm3.mappings] at hm'
      obtain ⟨hm', hid⟩ := Table.mem_delete.1 (show m' ∈ Table.delete (·.id == m.id) db'.mappings from hm')
      rcases (mem_replaced hv hm hr).1 hm' with ⟨hm', -⟩ | rfl
      · rw [hv.mappingEvents.eq hm' hm hc he] at hid
        simp at hid
      · simp [Db.clearResolution] at hid
    | false =>
      refine iff_of_true ?_ ⟨rfl, x, hx, by rw [hxk]⟩
      have hdirty : pushDirty calendar (db'.dirtyMapping (Db.clearResolution m)) =
          pushChanged calendar (db'.dirtyMapping (Db.clearResolution m)) x.toLocalEvent := by
        have hd : (db'.dirtyMapping (Db.clearResolution m)).localDeleted = false := hdel
        unfold pushDirty
        rw [hd, hev]
      obtain ⟨w, hpush, hw, hwlive, hsays⟩ := run_pushChanged_accepted db' h.reliable hcur hme x.toLocalEvent
      obtain ⟨db3, hm3, hend⟩ := run_setSynced calendar hpush
      rw [Prog.run_bind_ok _ hpush] at hend
      unfold Converged
      rw [hpass, Prog.forEach, hdirty, Prog.bind_assoc, Prog.run_bind_ok _ hpush, Prog.forEach, Prog.ret_bind, hend]
      refine ⟨rfl, x, hx, by rw [hcan, hxk], Db.pushed (Google.etag w) (localFingerprint x.toLocalEvent) db'.now
        (Db.clearResolution m), ?_, by rw [← hxk] at hcan; exact hcan, rfl, hdel, w, ?_, hwlive, rfl, hsays⟩
      · rw [hm3.mappings]
        exact Table.mem_update.2 (.inr ⟨Db.clearResolution m, (mem_replaced hv hm hr).2 (.inr rfl), beq_self_eq_true _, rfl⟩)
      · have hkey : (m.externalCalendarId, m.externalEventId) = (calendar.externalId, m.externalEventId) := by rw [hmcal]
        exact (congrArg _ hkey).trans hw

/-- A changed event converges exactly if its mapping has no etag and nothing holds its push back. -/
theorem converged_live_iff (hv : db.Valid) (h : Contested calendar externalId m v db g)
    (hlive : Google.cancelled v = false) (fuel : Nat) :
    Converged m db ((syncCalendar (fuel + 2) calendar).run (exec Google.provider) (db, g)) ↔ Unguarded calendar m v db := by
  obtain ⟨hm, hmcal, hmev⟩ := hv.mappingAt?_eq_some.1 h.mapping
  have hid : (Google.event v).id = some externalId := by
    show some v.key.2 = _
    rw [History.current_key h.current]
  have hetag : m.externalEtag ≠ Google.etag v := by
    rcases h.changed with hc | hc
    · rw [hlive] at hc
      cases hc
    · exact hc
  cases htomb : m.reversibleTombstone with
  | true =>
    refine iff_of_false ?_ fun hu => by rw [hu.2.1] at htomb; cases htomb
    -- a conflict is raised, and holds the push back
    have hexit : exitOf externalId (Google.event v) db.policy (some (db.mappingState m)) = .holdConflict (db.mappingState m) := by
      have hl : (Google.event v).cancelled = false := hlive
      have he : (m.externalEtag != Google.etag v) = true := by simpa using hetag
      simp only [exitOf, exitTombstone, Db.mappingState, htomb, hl, if_true, Bool.false_eq_true, if_false]
      rw [if_pos]
      rw [Bool.or_eq_true]
      exact .inr he
    have hdel : (applyRemoteEvent calendar (Google.event v)).run (exec Google.provider) (db, g) =
        (.ok (), ((db.raiseConflict m ((Google.event v).summary.getD "Deleted task event")).deleteUndos
          (·.mappingId == some m.id), g)) := by
      rw [run_applyRemoteEvent calendar hid, h.mapping, Option.map_some, hexit]
      exact run_holdConflict hv hm
    have hr := replaced_raiseConflict m ((Google.event v).summary.getD "Deleted task event") db
    have hv1 : ((db.raiseConflict m ((Google.event v).summary.getD "Deleted task event")).deleteUndos
        (·.mappingId == some m.id)).Valid := by
      have := run_valid (P := Google.provider) (applyRemoteEvent calendar (Google.event v)) (w := (db, g)) hv
      rwa [hdel] at this
    obtain ⟨db2, hm2, hpull⟩ := run_pull_contested h fuel hdel
      (seen_replaced hv hv1 h left_flagUnresolved hr (Db.openConflict_policy m db _))
    refine not_converged_of_held hv h left_flagUnresolved (hr.of_matches hm2) hpull ?_
    simp [Db.pushable, Db.flagUnresolved]
  | false =>
    cases hn : normalizeEvent (Google.event v) with
    | error message =>
      refine iff_of_false ?_ ?_
      · rintro ⟨hok, -⟩
        have hdel : (applyRemoteEvent calendar (Google.event v)).run (exec Google.provider) (db, g) =
            (.error (.integration message), (db, g)) := by
          have hl : (Google.event v).cancelled = false := hlive
          rw [run_applyRemoteEvent calendar hid, h.mapping, Option.map_some]
          simp only [exitOf, Db.mappingState, htomb, hl, hn, Bool.false_eq_true, if_false]
          rfl
        obtain ⟨db2, -, hpull⟩ := run_pull_contested h fuel hdel fun _ _ hs => hs
        rw [run_syncCalendar_error hpull] at hok
        cases hok
      · rintro ⟨-, -, -, -, ⟨n, hn'⟩, -⟩
        rw [hn] at hn'
        cases hn'
    | ok n =>
      have hdel := deliver_kept h hlive htomb hn
      have hv1 : (db.updateMapping m.id Db.clearResolution).Valid := by
        have := run_valid (P := Google.provider) (applyRemoteEvent calendar (Google.event v)) (w := (db, g)) hv
        rwa [hdel] at this
      have hr1 := replaced_clearResolution m db
      obtain ⟨db2, hm2, hpull⟩ := run_pull_contested h fuel hdel
        (seen_replaced hv hv1 h left_clearResolution hr1 rfl)
      have hr := hr1.of_matches hm2
      by_cases hp : Db.pushable calendar.id db.now (Db.clearResolution m) = true
      · have hcur : g.events.current (calendar.externalId, (db2.dirtyMapping (Db.clearResolution m)).externalEventId) = some v := by
          show g.events.current (calendar.externalId, m.externalEventId) = some v
          rw [hmev]
          exact h.current
        have hpass := run_pass_replaced hv h left_clearResolution hr hpull
        rw [if_pos hp] at hpass
        cases hme : m.externalEtag with
        | some t =>
          refine iff_of_false ?_ fun hu => by rw [hu.1] at hme; cases hme
          rintro ⟨hok, -⟩
          -- the etag of the mapping is not the one Google has
          have hmis : Google.mismatch (db2.dirtyMapping (Db.clearResolution m)).externalEtag v = true := by
            show m.externalEtag.any (fun t => Google.etag v != some t) = true
            rw [hme] at hetag ⊢
            simpa using hetag.symm
          obtain ⟨err, hpush⟩ := run_pushDirty_refused db2 h.reliable hcur hlive hmis
          rw [hpass, Prog.forEach, Prog.bind_assoc, Prog.run_bind_error _ hpush] at hok
          cases hok
        | none =>
          rw [converged_accepted_iff hv h hlive hr hpull hp hme]
          constructor
          · rintro ⟨hdel, he⟩
            exact ⟨hme, htomb, hdel, hp, ⟨n, hn⟩, he⟩
          · rintro ⟨-, -, hdel, -, -, he⟩
            exact ⟨hdel, he⟩
      · refine iff_of_false (not_converged_of_held hv h left_clearResolution hr hpull hp) ?_
        rintro ⟨-, -, -, hpm, -⟩
        exact hp hpm

end Live

section Cancelled

variable {calendar : SyncCalendar} {externalId : String} {m : Mapping} {v : Google.Version} {db db' db'' : Db} {g : Google}

/-! ## A cancelled event -/

/-- The tables without the mapping. -/
structure Removed (m : Mapping) (db db' : Db) : Prop where
  now : db'.now = db.now
  events : db'.events = db.events
  mappings : db'.mappings = Table.delete (·.id == m.id) db.mappings
  calendars : ∀ id, (db'.calendar? id).isSome = (db.calendar? id).isSome

theorem Removed.of_matches (hr : Removed m db db') (hm : db'.Matches db'') : Removed m db db'' :=
  ⟨hm.now.trans hr.now, hm.events.trans hr.events, hm.mappings.trans hr.mappings,
    fun id => (hm.calendars id).trans (hr.calendars id)⟩

theorem mem_removed (hr : Removed m db db') {r : Mapping} : r ∈ db'.mappings ↔ r ∈ db.mappings ∧ r.id ≠ m.id := by
  rw [hr.mappings, Table.mem_delete]
  simp

/-- A cancelled event of which the local version is kept loses its mapping. -/
theorem deliver_cancelled (hv : db.Valid) (h : Contested calendar externalId m v db g) (hc : Google.cancelled v = true) :
    ∃ db', Removed m db db' ∧ db'.policy = db.policy ∧ db'.Valid ∧
      (applyRemoteEvent calendar (Google.event v)).run (exec Google.provider) (db, g) = (.ok (), (db', g)) := by
  have hid : (Google.event v).id = some externalId := by
    show some v.key.2 = _
    rw [History.current_key h.current]
  have hl : (Google.event v).cancelled = true := hc
  have hdel : ∃ db', Removed m db db' ∧ db'.policy = db.policy ∧
      (applyRemoteEvent calendar (Google.event v)).run (exec Google.provider) (db, g) = (.ok (), (db', g)) := by
    rw [run_applyRemoteEvent calendar hid, h.mapping, Option.map_some]
    cases htomb : m.reversibleTombstone with
    | true =>
      have hexit : exitOf externalId (Google.event v) db.policy (some (db.mappingState m)) = .drop (db.mappingState m) := by
        simp only [exitOf, exitTombstone, Db.mappingState, htomb, hl, if_true]
      rw [hexit, Exit.perform]
      exact ⟨(db.deleteUndos (·.mappingId == some m.id)).deleteMappings (·.id == m.id), ⟨rfl, rfl, rfl, fun _ => rfl⟩, rfl,
        run_sql_ok (s := .dropTombstone m.id) rfl⟩
    | false =>
      have hexit : exitOf externalId (Google.event v) db.policy (some (db.mappingState m)) = .forget (db.mappingState m) := by
        have hd : (db.mappingState m).localDirty = true := h.dirty
        have ht : (db.mappingState m).reversibleTombstone = false := htomb
        simp only [exitOf, ht, hl, Bool.false_eq_true, if_false, if_true, exitCancelled, hd, if_neg (not_ask h), h.keeps]
      rw [hexit, Exit.perform]
      exact ⟨db.deleteMappings (·.id == m.id), ⟨rfl, rfl, rfl, fun _ => rfl⟩, rfl, run_sql_ok (s := .deleteMapping m.id) rfl⟩
  obtain ⟨db', hr, hp, hrun⟩ := hdel
  refine ⟨db', hr, hp, ?_, hrun⟩
  have := run_valid (P := Google.provider) (applyRemoteEvent calendar (Google.event v)) (w := (db, g)) hv
  rwa [hrun] at this

theorem seen_removed (hv : db.Valid) (hv' : db'.Valid) (h : Contested calendar externalId m v db g)
    (hr : Removed m db db') (hp : db'.policy = db.policy) (x : GoogleEvent) (hx : x.id ≠ some externalId)
    (hseen : Seen calendar db x) : Seen calendar db' x := by
  obtain ⟨hm, -, hev⟩ := hv.mappingAt?_eq_some.1 h.mapping
  refine hseen.congr hv hv' hp hr.events externalId ?_ hx
  intro r hcal hne
  rw [mem_removed hr]
  constructor
  · exact And.left
  · intro hmem
    refine ⟨hmem, ?_⟩
    intro hid
    rw [hv.mappingIds.eq hmem hm (k := m.id) (by rw [hid]) rfl] at hne
    exact hne hev

/-- The one event without a mapping then is the event of the mapping, if it is in the calendar. -/
theorem unmapped_removed (hv : db.Valid) (h : Contested calendar externalId m v db g) (hr : Removed m db db')
    {x : CalendarEvent} (hx : x ∈ db.events) (hcan : m.canonicalEventId = some x.id) :
    db'.selectUnmapped calendar.id = if x.calendarId = calendar.id then [x.toLocalEvent] else [] := by
  obtain ⟨hm, -, -⟩ := hv.mappingAt?_eq_some.1 h.mapping
  -- an event of the calendar that is not mapped was mapped by the removed mapping
  have honly : ∀ e ∈ db'.events, (e.calendarId == calendar.id && (db'.mappingOf? e.id).isNone) = true → e = x := by
    intro e he hsel
    rw [Bool.and_eq_true, beq_iff_eq, Option.isNone_iff_eq_none, Db.mappingOf?_eq_none] at hsel
    rw [hr.events] at he
    obtain ⟨r, hrm, hrc⟩ := Db.selectUnmapped_eq_nil.1 h.unmapped e he hsel.1
    by_cases hid : r.id = m.id
    · rw [hv.mappingIds.eq hrm hm (k := m.id) (by rw [hid]) rfl, hcan] at hrc
      exact hv.eventIds.eq he hx (k := x.id) hrc.symm rfl
    · exact absurd hrc (hsel.2 r ((mem_removed hr).2 ⟨hrm, hid⟩))
  have hfree : db'.mappingOf? x.id = none := by
    rw [Db.mappingOf?_eq_none]
    intro r hrm hrc
    obtain ⟨hrm, hid⟩ := (mem_removed hr).1 hrm
    rw [hv.mappingEvents.eq hrm hm hrc hcan] at hid
    exact hid rfl
  have hids : Table.Unique (fun e : CalendarEvent => some e.id) db'.events := by
    rw [hr.events]
    exact hv.eventIds
  unfold Db.selectUnmapped
  split
  · rename_i hcal
    rw [hids.filter_eq_singleton (a := x) (k := x.id) (by rw [hr.events]; exact hx) (by rw [hfree, hcal]; simp)
      fun e he hsel => by rw [honly e he hsel]]
    rfl
  · rename_i hcal
    rw [List.map_eq_nil_iff, List.filter_eq_nil_iff]
    intro e he hsel
    rw [honly e he hsel, Bool.and_eq_true, beq_iff_eq] at hsel
    exact hcal hsel.1

theorem quiet_removed (h : Contested calendar externalId m v db g) (hr : Removed m db db') :
    db'.selectResolutionPending calendar.id = [] ∧ db'.selectDirty calendar.id = [] := by
  constructor
  · rw [Db.selectResolutionPending_eq_nil]
    intro r hrm
    exact Db.selectResolutionPending_eq_nil.1 h.settled r ((mem_removed hr).1 hrm).1
  · rw [Db.selectDirty_eq_nil]
    intro r hrm
    obtain ⟨hrm, hid⟩ := (mem_removed hr).1 hrm
    rw [hr.now]
    exact h.clean r hrm hid

/-- No mapping is left of the event. -/
theorem not_converged_of_unmapped (hv : db.Valid) (hm : m ∈ db.mappings) (hr : Removed m db db')
    {out : Except SyncError Unit × (Db × Google)} (ho : out.2.1.mappings = db'.mappings) : ¬ Converged m db out := by
  rintro ⟨-, e, -, he, m', hm', hc, -⟩
  rw [ho] at hm'
  obtain ⟨hm', hid⟩ := (mem_removed hr).1 hm'
  rw [hv.mappingEvents.eq hm' hm hc he] at hid
  exact hid rfl

/-- A cancelled event converges exactly if the id of its local row is free, or leads to its content. -/
theorem converged_cancelled_iff (hv : db.Valid) (h : Contested calendar externalId m v db g)
    (hc : Google.cancelled v = true) (fuel : Nat) :
    Converged m db ((syncCalendar (fuel + 2) calendar).run (exec Google.provider) (db, g)) ↔
      Recreatable calendar m db g := by
  obtain ⟨hm, hmcal, hmev⟩ := hv.mappingAt?_eq_some.1 h.mapping
  obtain ⟨db1, hr1, hp1, hv1, hdel⟩ := deliver_cancelled hv h hc
  obtain ⟨db2, hm2, hpull⟩ := run_pull_contested h fuel hdel (seen_removed hv hv1 h hr1 hp1)
  have hr := hr1.of_matches hm2
  obtain ⟨hsettled, hdirty⟩ := quiet_removed h hr
  have hpass := run_syncCalendar_pull hpull hsettled
  cases hcan : m.canonicalEventId with
  | none =>
    refine iff_of_false ?_ ?_
    · rintro ⟨-, e, -, he, -⟩
      rw [hcan] at he
      cases he
    · rintro ⟨e, -, he, -⟩
      rw [hcan] at he
      cases he
  | some k =>
    obtain ⟨x, hx, rfl⟩ := hv.mappingEvent m hm k hcan
    have hunmapped := unmapped_removed hv h hr hx hcan
    -- the event of the condition is this one
    have honly : ∀ e ∈ db.events, m.canonicalEventId = some e.id → e = x := by
      intro e he hec
      rw [hcan] at hec
      exact hv.eventIds.eq he hx (k := x.id) hec.symm rfl
    by_cases hcal : x.calendarId = calendar.id
    · rw [if_pos hcal] at hunmapped
      obtain ⟨w, g', hcreate, hadopt, hcur⟩ := run_createRemote_reliable calendar x.toLocalEvent db2 h.reliable
      rcases run_pushUnmapped hadopt hcreate with ⟨hrec, hrun⟩ | ⟨hrec, err, hrun⟩
      · -- the mapping is recorded, and is the one of the event
        have hmem : ∀ r, r ∈ (db2.fresh.insertMapping (recordOf calendar x.toLocalEvent db2 w)).mappings ↔
            r ∈ db2.mappings ∨ r = recordOf calendar x.toLocalEvent db2 w := by
          intro r
          show r ∈ db2.mappings ++ [_] ↔ _
          rw [List.mem_append, List.mem_singleton]
        have hpush := run_push_unmapped hunmapped hrun (by
          intro _
          rw [Db.selectDirty_eq_nil]
          intro r hrm
          rcases (hmem r).1 hrm with hrm | rfl
          · exact Db.selectDirty_eq_nil.1 hdirty r hrm
          · simp [recordOf, Db.newMapping, Db.pushable])
        obtain ⟨db3, hm3, hend⟩ := run_setSynced calendar hpush
        have hat : db.mappingAt? calendar.externalId (googleEventId x.id) = none ∨
            googleEventId x.id = externalId := by
          by_cases hgid : googleEventId x.id = externalId
          · exact .inr hgid
          · refine .inl ?_
            rw [Db.mappingAt?_eq_none]
            rintro r hrm ⟨hrcal, hrev⟩
            refine Db.mappingAt?_eq_none.1 hrec.1 r ((mem_removed hr).2 ⟨hrm, ?_⟩) ⟨hrcal, hrev⟩
            intro hid
            rw [hv.mappingIds.eq hrm hm (k := m.id) (by rw [hid]) rfl, hmev] at hrev
            exact hgid hrev.symm
        have hout : Converged m db ((syncCalendar (fuel + 2) calendar).run (exec Google.provider) (db, g)) ↔
            Google.cancelled w = false ∧ Google.Says w (GoogleEventWrite.fromLocal x.toLocalEvent) := by
          rw [hpass, hend]
          constructor
          · rintro ⟨-, e, he, hec, m', hm', hmc, -, -, u, hu, hulive, -, hsays⟩
            obtain rfl := honly e he hec
            rw [hm3.mappings] at hm'
            rcases (hmem m').1 hm' with hm' | rfl
            · obtain ⟨hm', hid⟩ := (mem_removed hr).1 hm'
              rw [hv.mappingEvents.eq hm' hm hmc hec] at hid
              exact absurd rfl hid
            · obtain rfl := Option.some.inj (hu.symm.trans hcur)
              exact ⟨hulive, hsays⟩
          · rintro ⟨hlive, hsays⟩
            refine ⟨rfl, x, hx, hcan, recordOf calendar x.toLocalEvent db2 w, ?_, rfl, rfl, rfl, w, hcur, hlive, rfl, hsays⟩
            rw [hm3.mappings]
            exact (hmem _).2 (.inr rfl)
        rw [hout]
        constructor
        · rintro ⟨hlive, hsays⟩
          refine ⟨x, hx, hcan, hcal, ?_, ?_⟩
          · rcases hat with hat | hgid
            · exact hat
            · -- the cancelled event would have been adopted
              have hkey : creationKey calendar x.toLocalEvent = (calendar.externalId, externalId) := by
                unfold creationKey
                rw [hgid]
              rcases hadopt with hadopt | ⟨hnone, -⟩
              · rw [hkey, h.current] at hadopt
                rw [← Option.some.inj hadopt, hc] at hlive
                cases hlive
              · rw [hkey, h.current] at hnone
                cases hnone
          · intro u hu
            rcases hadopt with hadopt | ⟨hnone, -⟩
            · obtain rfl := Option.some.inj (hu.symm.trans hadopt)
              exact ⟨hlive, hsays⟩
            · rw [hu] at hnone
              cases hnone
        · rintro ⟨e, he, hec, -, -, hw⟩
          obtain rfl := honly e he hec
          rcases hadopt with hadopt | ⟨-, rfl⟩
          · exact hw w hadopt
          · exact ⟨rfl, Google.says_written _ _ _ _ _⟩
      · -- the id is taken by another mapping
        refine iff_of_false ?_ ?_
        · rintro ⟨hok, -⟩
          have hpush := run_push_unmapped hunmapped hrun (by rintro ⟨⟩)
          rw [hpass, Prog.run_bind_error _ hpush] at hok
          cases hok
        · rintro ⟨e, he, hec, -, hat, -⟩
          obtain rfl := honly e he hec
          refine hrec ⟨?_, ?_, ?_, ?_⟩
          · rw [Db.mappingAt?_eq_none] at hat ⊢
            intro r hrm
            exact hat r ((mem_removed hr).1 hrm).1
          · rw [Db.mappingOf?_eq_none]
            intro r hrm hrc
            obtain ⟨hrm, hid⟩ := (mem_removed hr).1 hrm
            rw [hv.mappingEvents.eq hrm hm hrc hcan] at hid
            exact hid rfl
          · rw [hr.calendars]
            obtain ⟨c, hcm, hcid⟩ := hv.eventCalendar e hx
            exact Db.calendar?_isSome.2 ⟨c, hcm, hcid.trans hcal⟩
          · exact Db.event?_isSome.2 ⟨e, by rw [hr.events]; exact hx, rfl⟩
    · -- the event is of another calendar
      rw [if_neg hcal] at hunmapped
      refine iff_of_false ?_ ?_
      · have hpush : (pushCalendar calendar).run (exec Google.provider) (db2, g) = (.ok (), (db2, g)) := by
          rw [run_push_dirty hunmapped, hdirty]
          rfl
        obtain ⟨db3, hm3, hend⟩ := run_setSynced calendar hpush
        apply not_converged_of_unmapped hv hm hr
        rw [hpass, hend]
        exact hm3.mappings
      · rintro ⟨e, he, hec, hecal, -⟩
        rw [honly e he hec] at hecal
        exact hcal hecal

end Cancelled

end SyncService

/-- A kept local version arrives at Google in the same pass exactly if the changed event has a
mapping without an etag, that nothing holds back, or the cancelled one a local row whose id Google
has not seen, or has with the content of the row. -/
theorem converged_iff {calendar : SyncCalendar} {externalId : String} {m : Mapping} {v : Google.Version} {db : Db}
    {g : Google} (hv : db.Valid) (h : Contested calendar externalId m v db g) (fuel : Nat) :
    Converged m db ((syncCalendar (fuel + 2) calendar).run (exec Google.provider) (db, g)) ↔
      (Google.cancelled v = true ∧ Recreatable calendar m db g) ∨
      (Google.cancelled v = false ∧ Unguarded calendar m v db) := by
  cases hc : Google.cancelled v with
  | true => simpa using converged_cancelled_iff hv h hc fuel
  | false => simpa using converged_live_iff hv h hc fuel

/-! ## An edited event, moved at Google -/

/-- Two versions of the sample event, the second moved. -/
def movedGoogle : Google where
  events := (History.empty.commit ("work", "planning")
      (Google.written (GoogleEventWrite.fromLocal planning.toLocalEvent) 0)).commit ("work", "planning")
      (Google.written (GoogleEventWrite.fromLocal { planning.toLocalEvent with endsAt := 7200000000 }) 0)
  now := 0
  expired := 0
  faults := []

/-- The event was edited since the first version, and the user prefers local versions. -/
def editedMapping : Mapping :=
  { planningMapping with localDirty := true, externalEtag := some (Google.revisionText 0) }

def editedTables : Db := { planningTables editedMapping with policy := some .prosepect }

def movedVersion : Google.Version :=
  ⟨("work", "planning"), 1,
    Google.written (GoogleEventWrite.fromLocal { planning.toLocalEvent with endsAt := 7200000000 }) 0⟩

theorem contested_moved : Contested work "planning" editedMapping movedVersion editedTables movedGoogle where
  reliable := rfl
  mapping := by decide
  dirty := rfl
  current := by decide
  sent := by decide
  changed := .inr (by decide)
  keeps := by decide
  seen := by
    have hsent : delivered work movedGoogle = [Google.event movedVersion] := by decide
    intro event he hid
    rw [hsent, List.mem_singleton] at he
    subst he
    exact absurd rfl hid
  unmapped := by decide
  clean := by decide
  settled := by decide

theorem converged_iff_moved :
    Converged editedMapping editedTables ((syncCalendar 2 work).run (exec Google.provider) (editedTables, movedGoogle)) ↔
      (Google.cancelled movedVersion = true ∧ Recreatable work editedMapping editedTables movedGoogle) ∨
      (Google.cancelled movedVersion = false ∧ Unguarded work editedMapping movedVersion editedTables) :=
  converged_iff (by decide) contested_moved 0

/-- The push is refused, with the etag of the first version. -/
theorem moved_not_converged : Contested work "planning" editedMapping movedVersion editedTables movedGoogle ∧
    ¬ Converged editedMapping editedTables
      ((syncCalendar 2 work).run (exec Google.provider) (editedTables, movedGoogle)) := by
  refine ⟨contested_moved, ?_⟩
  rintro ⟨hok, -⟩
  revert hok
  decide

end Prosepect
