/-
A remote event delivered twice in a row: when the second delivery leaves the events, the mappings
and the open conflicts as the first one left them.

It does not when the first delivery uses up a resolution that keeps the local version
(`pending_resolution` is cleared, the stale etag stays): the second is decided by the setting.
-/
import Prosepect.Calendar.Outcomes

namespace Prosepect

open Resumption SyncService

/-- Google when nothing is asked of it. -/
def silent : Provider Unit := ⟨fun _ _ => (.error (), ())⟩

/-- The tables after a delivery, whether it succeeds or fails. -/
def deliver (calendar : SyncCalendar) (event : GoogleEvent) (db : Db) : Db :=
  ((applyRemoteEvent calendar event).run (exec silent) (db, ())).2.1

namespace Db

/-- The same tables at another time. -/
def at_ (t : Time.DateTime) (db : Db) : Db := { db with now := t }

/-- The same events, mappings and open conflicts. -/
structure Agrees (db db' : Db) : Prop where
  events : db'.events = db.events
  mappings : db'.mappings = db.mappings
  conflicts : ∀ c : SyncConflict, c.status = .unresolved → (c ∈ db'.conflicts ↔ c ∈ db.conflicts)

theorem Agrees.refl (db : Db) : Agrees db db := ⟨rfl, rfl, fun _ _ => Iff.rfl⟩

end Db

/-- A second delivery is decided otherwise than the first: the first uses up a resolution that
keeps the local version, and the setting of the user asks, or takes the remote version. -/
structure Reconsidered (calendar : SyncCalendar) (event : GoogleEvent) (db : Db) (externalId : String) (m : Mapping)
    (r : Resolution) (n : NormalizedEvent) : Prop where
  id : event.id = some externalId
  mapping : db.mappingAt? calendar.externalId externalId = some m
  kept : m.reversibleTombstone = false
  live : event.cancelled = false
  content : normalizeEvent event = .ok n
  changed : m.externalEtag ≠ event.etag
  edited : (m.localDirty || m.localDeleted) = true
  resolution : m.pendingResolution = some r
  keeps : keepLocal r.policy event (db.mappingState m) = true
  setting : (db.policy.getD .ask = .ask ∧
      ¬ (m.conflictState = .unresolved ∧ ∃ c ∈ db.conflicts, c.mappingId = m.id ∧ c.status = .unresolved)) ∨
    (db.policy.getD .ask ≠ .ask ∧ keepLocal (db.policy.getD .ask) event (db.mappingState m) = false ∧
      db.storable calendar.id n = true)

section

variable {calendar : SyncCalendar} {event : GoogleEvent} {externalId : String} {db db' : Db} {m : Mapping}

theorem deliver_none (hid : event.id = none) : deliver calendar event db = db := by
  unfold deliver
  rw [run_applyRemoteEvent_none calendar hid]

theorem deliver_exit (hid : event.id = some externalId) : deliver calendar event db =
    (((exitOf externalId event db.policy ((db.mappingAt? calendar.externalId externalId).map db.mappingState)).perform
      calendar event).run (exec silent) (db, ())).2.1 := by
  unfold deliver
  rw [run_applyRemoteEvent calendar hid]

theorem deliver_eq (db : Db) (hid : event.id = some externalId) (e : Exit)
    (he : exitOf externalId event db.policy ((db.mappingAt? calendar.externalId externalId).map db.mappingState) = e) :
    deliver calendar event db = ((e.perform calendar event).run (exec silent) (db, ())).2.1 := by
  rw [deliver_exit hid, he]

/-! ## What the decision is taken from after the first delivery -/

/-- A conflict of the mapping is open afterwards. -/
theorem exists_open (db : Db) (m : Mapping) (title : String) :
    ∃ c ∈ (db.openConflict m title).conflicts, c.mappingId = m.id ∧ c.status = .unresolved := by
  unfold Db.openConflict
  split
  · rename_i h
    obtain ⟨c, hc, hm⟩ := Table.has_iff.1 h
    exact ⟨c, hc, by simpa using hm⟩
  · exact ⟨_, List.mem_append_right _ (List.mem_singleton.2 rfl), rfl, rfl⟩

/-- Where a conflict is open, none is added. -/
theorem openConflict_of_open {title : String} (h : ∃ c ∈ db.conflicts, c.mappingId = m.id ∧ c.status = .unresolved) :
    (db.openConflict m title).conflicts = db.conflicts := by
  unfold Db.openConflict
  rw [if_pos]
  · rfl
  · obtain ⟨c, hc, hm, hs⟩ := h
    exact Table.has_iff.2 ⟨c, hc, by simp [hm, hs]⟩

theorem mappingState_congr {m' : Mapping} (he : db'.events = db.events) (hid : m'.id = m.id)
    (hcan : m'.canonicalEventId = m.canonicalEventId) (hetag : m'.externalEtag = m.externalEtag)
    (hdirty : m'.localDirty = m.localDirty) (hdel : m'.localDeleted = m.localDeleted)
    (hpend : m'.pendingResolution = m.pendingResolution) (htomb : m'.reversibleTombstone = m.reversibleTombstone) :
    db'.mappingState m' = db.mappingState m := by
  unfold Db.mappingState Db.event?
  rw [he, hid, hcan, hetag, hdirty, hdel, hpend, htomb]

/-- The mapping of an identity, after an update of it. -/
theorem mappingAt?_update (hm : db.mappingAt? calendar.externalId externalId = some m) {f : Mapping → Mapping}
    (hcal : ∀ m, (f m).externalCalendarId = m.externalCalendarId) (hev : ∀ m, (f m).externalEventId = m.externalEventId)
    (h : db'.mappings = Table.update (·.id == m.id) f db.mappings) :
    db'.mappingAt? calendar.externalId externalId = some (f m) := by
  unfold Db.mappingAt? at hm ⊢
  rw [h, Table.find_update (fun r => by simp [hcal, hev]), hm]
  simp

/-- No mapping of an identity is left where only mappings of other ids are. -/
theorem mappingAt?_gone (hv : db.Valid) (hm : db.mappingAt? calendar.externalId externalId = some m)
    (h : ∀ r ∈ db'.mappings, r.id ≠ m.id ∧ ∃ s ∈ db.mappings, s.id = r.id ∧
      s.externalCalendarId = r.externalCalendarId ∧ s.externalEventId = r.externalEventId) :
    db'.mappingAt? calendar.externalId externalId = none := by
  rw [Db.mappingAt?_eq_none]
  rintro r hr ⟨hcal, hev⟩
  obtain ⟨hne, s, hs, hid, hcal', hev'⟩ := h r hr
  have : db.mappingAt? calendar.externalId externalId = some s :=
    hv.mappingAt?_eq_some.2 ⟨hs, hcal'.trans hcal, hev'.trans hev⟩
  rw [hm] at this
  rw [Option.some.inj this, hid] at hne
  exact hne rfl

theorem gone_delete : ∀ r ∈ Table.delete (·.id == m.id) db.mappings, r.id ≠ m.id ∧ ∃ s ∈ db.mappings, s.id = r.id ∧
    s.externalCalendarId = r.externalCalendarId ∧ s.externalEventId = r.externalEventId := by
  intro r hr
  obtain ⟨hr, hne⟩ := Table.mem_delete.1 hr
  exact ⟨by simpa using hne, r, hr, rfl, rfl, rfl⟩

/-! ## The second delivery, outcome by outcome -/

/-- A delivery that is skipped, or refused, changes nothing. -/
theorem deliver_still (db : Db) (hid : event.id = some externalId)
    (he : exitOf externalId event db.policy ((db.mappingAt? calendar.externalId externalId).map db.mappingState) = .skip ∨
      ∃ message, exitOf externalId event db.policy
        ((db.mappingAt? calendar.externalId externalId).map db.mappingState) = .invalid message) :
    deliver calendar event db = db := by
  rcases he with he | ⟨message, he⟩
  · rw [deliver_eq _ hid _ he]; rfl
  · rw [deliver_eq _ hid _ he]; rfl

/-- Once its mapping is deleted, a cancelled event is unknown. -/
theorem deliver_gone (db' : Db) (hv : db.Valid) (hid : event.id = some externalId)
    (hm : db.mappingAt? calendar.externalId externalId = some m) (hc : event.cancelled = true)
    (h : ∀ r ∈ db'.mappings, r.id ≠ m.id ∧ ∃ s ∈ db.mappings, s.id = r.id ∧
      s.externalCalendarId = r.externalCalendarId ∧ s.externalEventId = r.externalEventId) :
    deliver calendar event db' = db' := by
  refine deliver_still _ hid (.inl ?_)
  rw [mappingAt?_gone hv hm h]
  simp [exitOf, hc]

/-- A mapping that is at the etag of a live event is left alone. -/
theorem deliver_same_etag (db : Db) (hid : event.id = some externalId)
    (hm : db.mappingAt? calendar.externalId externalId = some m) (htomb : m.reversibleTombstone = false)
    (hc : event.cancelled = false) (hetag : m.externalEtag = event.etag) : deliver calendar event db = db := by
  refine deliver_still _ hid ?_
  rw [hm, Option.map_some]
  unfold exitOf
  simp only [Db.mappingState, htomb, hc, Bool.false_eq_true, if_false]
  cases normalizeEvent event with
  | error message => exact .inr ⟨message, rfl⟩
  | ok n => exact .inl (by simp [exitChanged, hetag])

/-- The mapping after a conflict is raised: nothing the decision is taken from has changed. -/
theorem state_raiseConflict (hm : db.mappingAt? calendar.externalId externalId = some m) (title : String)
    (t : Time.DateTime) :
    ((db.raiseConflict m title).at_ t).mappingAt? calendar.externalId externalId = some (Db.flagUnresolved m) ∧
    ((db.raiseConflict m title).at_ t).mappingState (Db.flagUnresolved m) = db.mappingState m ∧
    ((db.raiseConflict m title).at_ t).policy = db.policy := by
  refine ⟨mappingAt?_update hm (fun _ => rfl) (fun _ => rfl) ?_, mappingState_congr ?_ rfl rfl rfl rfl rfl rfl rfl, ?_⟩
  · show Table.update _ _ (db.openConflict m title).mappings = _
    rw [Db.openConflict_mappings]
  · exact Db.openConflict_events m db title
  · exact Db.openConflict_policy m db title

/-- Raising a conflict that is open on a mapping that is flagged. -/
theorem raiseConflict_agrees (db : Db) (m : Mapping) (title : String)
    (hflag : Table.update (·.id == m.id) Db.flagUnresolved db.mappings = db.mappings)
    (hopen : ∃ c ∈ db.conflicts, c.mappingId = m.id ∧ c.status = .unresolved) :
    Db.Agrees db (db.raiseConflict m title) where
  events := Db.openConflict_events m db title
  mappings := by
    show Table.update _ _ (db.openConflict m title).mappings = _
    rw [Db.openConflict_mappings, hflag]
  conflicts := by
    intro c _
    show c ∈ (db.openConflict m title).conflicts ↔ _
    rw [openConflict_of_open hopen]

theorem raiseConflict_flagged (title : String) :
    Table.update (·.id == m.id) Db.flagUnresolved (db.raiseConflict m title).mappings =
      (db.raiseConflict m title).mappings :=
  Table.update_update (fun _ => rfl) (fun _ => rfl)

theorem valid_deliver (calendar : SyncCalendar) (event : GoogleEvent) (hv : db.Valid) : (deliver calendar event db).Valid :=
  run_valid _ hv

theorem valid_at (hv : db.Valid) (t : Time.DateTime) : (db.at_ t).Valid := hv.congr rfl rfl rfl rfl le_rfl

theorem mem_of_mappingAt? (hm : db.mappingAt? calendar.externalId externalId = some m) : m ∈ db.mappings :=
  List.mem_of_find?_eq_some hm

/-- The mapping after an overwrite is at the etag of the event. -/
theorem mappingAt?_overwrite (hm : db.mappingAt? calendar.externalId externalId = some m) {mid : Db} {i : Uuid}
    {f : Fingerprint} {t : Time.DateTime} {kind message : String}
    (hmid : mid.mappings = db.mappings ∨
      mid.mappings = Table.update (·.id == m.id) (fun m => { m with canonicalEventId := some i }) db.mappings)
    (h : db' = (mid.updateMapping m.id (Db.baseline event.etag f t)).insertActivity kind message) :
    ∃ m' : Mapping, m'.externalEtag = event.etag ∧ db'.mappingAt? calendar.externalId externalId = some m' ∧
      m'.reversibleTombstone = m.reversibleTombstone := by
  subst h
  rcases hmid with hmid | hmid
  · refine ⟨_, ?_, mappingAt?_update (f := Db.baseline event.etag f t) hm (fun _ => rfl) (fun _ => rfl) ?_, ?_⟩
    · rfl
    · show Table.update _ _ mid.mappings = _
      rw [hmid]
    · rfl
  · have hlink : mid.mappingAt? calendar.externalId externalId = some { m with canonicalEventId := some i } :=
      mappingAt?_update hm (by intro; rfl) (by intro; rfl) hmid
    refine ⟨_, ?_, mappingAt?_update (f := Db.baseline event.etag f t) hlink (fun _ => rfl) (fun _ => rfl) rfl, ?_⟩
    · rfl
    · rfl

section Twice

variable (hv : db.Valid) (hid : event.id = some externalId)
  (hm : db.mappingAt? calendar.externalId externalId = some m) (t : Time.DateTime)
include hv hid hm

theorem twice_conflict {title : String}
    (he : exitOf externalId event db.policy (some (db.mappingState m)) = .conflict (db.mappingState m) title) :
    Db.Agrees (deliver calendar event db) (deliver calendar event ((deliver calendar event db).at_ t)) := by
  have h1 : deliver calendar event db = db.raiseConflict m title := by
    rw [deliver_eq _ hid (.conflict (db.mappingState m) title) (by rw [hm]; exact he), Exit.perform,
      run_createConflict hv (mem_of_mappingAt? hm)]
  have hv1 := valid_at (valid_deliver calendar event hv) t
  rw [h1] at hv1 ⊢
  obtain ⟨hm', hs', hp'⟩ := state_raiseConflict hm title t
  rw [deliver_eq _ hid (.conflict (((db.raiseConflict m title).at_ t).mappingState (Db.flagUnresolved m)) title)
    (by rw [hm', hp', Option.map_some, hs']; exact he), Exit.perform, run_createConflict hv1 (mem_of_mappingAt? hm')]
  obtain ⟨h1, h2, h3⟩ := raiseConflict_agrees ((db.raiseConflict m title).at_ t) (Db.flagUnresolved m) title
    (raiseConflict_flagged title) (exists_open _ _ title)
  exact ⟨h1, h2, h3⟩

theorem twice_holdConflict
    (he : exitOf externalId event db.policy (some (db.mappingState m)) = .holdConflict (db.mappingState m)) :
    Db.Agrees (deliver calendar event db) (deliver calendar event ((deliver calendar event db).at_ t)) := by
  generalize htitle : event.summary.getD "Deleted task event" = title
  have h1 : deliver calendar event db = (db.raiseConflict m title).deleteUndos (·.mappingId == some m.id) := by
    rw [deliver_eq _ hid (.holdConflict (db.mappingState m)) (by rw [hm]; exact he),
      run_holdConflict hv (mem_of_mappingAt? hm), htitle]
  have hv1 := valid_at (valid_deliver calendar event hv) t
  rw [h1] at hv1 ⊢
  obtain ⟨hm', hs', hp'⟩ := state_raiseConflict hm title t
  rw [deliver_eq _ hid (.holdConflict ((((db.raiseConflict m title).deleteUndos
      (·.mappingId == some m.id)).at_ t).mappingState (Db.flagUnresolved m)))
    (by
      show exitOf externalId event ((db.raiseConflict m title).at_ t).policy
        ((((db.raiseConflict m title).at_ t).mappingAt? calendar.externalId externalId).map
          ((db.raiseConflict m title).at_ t).mappingState) =
        .holdConflict (((db.raiseConflict m title).at_ t).mappingState (Db.flagUnresolved m))
      rw [hm', hp', Option.map_some, hs']
      exact he),
    run_holdConflict hv1 (mem_of_mappingAt? hm')]
  obtain ⟨h1, h2, h3⟩ := raiseConflict_agrees
    (((db.raiseConflict m title).deleteUndos (·.mappingId == some m.id)).at_ t) (Db.flagUnresolved m)
    (event.summary.getD "Deleted task event") (raiseConflict_flagged title) (exists_open _ _ title)
  exact ⟨h1, h2, h3⟩

/-- The outcomes that delete the mapping. -/
theorem twice_gone (hc : event.cancelled = true)
    (h : ∀ r ∈ (deliver calendar event db).mappings, r.id ≠ m.id ∧ ∃ s ∈ db.mappings, s.id = r.id ∧
      s.externalCalendarId = r.externalCalendarId ∧ s.externalEventId = r.externalEventId) :
    Db.Agrees (deliver calendar event db) (deliver calendar event ((deliver calendar event db).at_ t)) := by
  rw [deliver_gone ((deliver calendar event db).at_ t) hv hid hm hc h]
  exact ⟨rfl, rfl, fun _ _ => Iff.rfl⟩

theorem twice_remove (hc : event.cancelled = true)
    (he : exitOf externalId event db.policy (some (db.mappingState m)) = .remove (db.mappingState m)) :
    Db.Agrees (deliver calendar event db) (deliver calendar event ((deliver calendar event db).at_ t)) := by
  refine twice_gone hv hid hm t hc ?_
  rw [deliver_eq _ hid (.remove (db.mappingState m)) (by rw [hm]; exact he), run_remove]
  intro r hr
  cases hcan : m.canonicalEventId with
  | none =>
    rw [hcan] at hr
    exact gone_delete r hr
  | some e =>
    rw [hcan] at hr
    -- deleting the event changes no id and no key of a mapping
    have hsub : r ∈ Table.delete (·.id == m.id) (db.deleteCanonicalEvent e).mappings := hr
    obtain ⟨hr, hne⟩ := Table.mem_delete.1 hsub
    have hmap : (db.deleteCanonicalEvent e).mappings = (db.deleteEvent e).mappings := by
      unfold Db.deleteCanonicalEvent
      split <;> rfl
    rw [hmap] at hr
    refine ⟨by simpa using hne, ?_⟩
    rcases Table.mem_update.1 hr with ⟨hr, -⟩ | ⟨s, hs, -, rfl⟩
    · exact ⟨r, hr, rfl, rfl, rfl⟩
    · exact ⟨s, hs, rfl, rfl, rfl⟩

/-- An overwrite: the second delivery finds the mapping at the etag of the event, or the same
content that cannot be stored. -/
theorem twice_overwrite {n : NormalizedEvent} (htomb : m.reversibleTombstone = false) (hc : event.cancelled = false)
    (he : exitOf externalId event db.policy (some (db.mappingState m)) = .overwrite (db.mappingState m) n) :
    Db.Agrees (deliver calendar event db) (deliver calendar event ((deliver calendar event db).at_ t)) := by
  have hmm := mem_of_mappingAt? hm
  have h1 : deliver calendar event db = _ := deliver_eq _ hid (.overwrite (db.mappingState m) n) (by rw [hm]; exact he)
  cases hs : db.storable calendar.id n with
  | false =>
    obtain ⟨error, hr⟩ := run_overwrite_error silent () calendar event n hv hmm hs
    obtain ⟨error', hr'⟩ := run_overwrite_error silent () calendar event n (valid_at hv t) hmm hs
    rw [hr] at h1
    rw [h1, deliver_eq (db.at_ t) hid (.overwrite ((db.at_ t).mappingState m) n)
      (by
        rw [show (db.at_ t).mappingAt? calendar.externalId externalId = some m from hm]
        exact he), hr']
    exact ⟨rfl, rfl, fun _ _ => Iff.rfl⟩
  | true =>
    obtain ⟨db', hr, mid, -, hmid, hdb⟩ := run_overwrite_ok silent () calendar event n hv hmm hs
    rw [hr] at h1
    obtain ⟨m', hetag, hm', htomb'⟩ := mappingAt?_overwrite hm hmid hdb
    rw [h1, deliver_same_etag (db'.at_ t) hid hm' (htomb'.trans htomb) hc hetag]
    exact ⟨rfl, rfl, fun _ _ => Iff.rfl⟩

end Twice

/-- An import: the second delivery finds the mapping of the first, or the same content that cannot
be stored. -/
theorem twice_import (hv : db.Valid) (hid : event.id = some externalId)
    (hm : db.mappingAt? calendar.externalId externalId = none) (t : Time.DateTime) {n : NormalizedEvent}
    (hc : event.cancelled = false) (he : exitOf externalId event db.policy none = .importNew externalId n) :
    Db.Agrees (deliver calendar event db) (deliver calendar event ((deliver calendar event db).at_ t)) := by
  have h1 : deliver calendar event db = _ := deliver_eq _ hid (.importNew externalId n) (by rw [hm]; exact he)
  cases hs : db.storable calendar.id n with
  | false =>
    obtain ⟨error, hr⟩ := run_importNew_error silent () calendar event n db externalId hs
    obtain ⟨error', hr'⟩ := run_importNew_error silent () calendar event n (db.at_ t) externalId hs
    rw [hr] at h1
    rw [h1, deliver_eq (db.at_ t) hid (.importNew externalId n)
      (by
        rw [show (db.at_ t).mappingAt? calendar.externalId externalId = none from hm]
        exact he), hr']
    exact ⟨rfl, rfl, fun _ _ => Iff.rfl⟩
  | true =>
    obtain ⟨db', hr, hmap⟩ := run_importNew_ok silent () calendar event n hv hm hs
    rw [hr] at h1
    have hm' : (db'.at_ t).mappingAt? calendar.externalId externalId = some (Db.newMapping (db.nextId + 1) calendar.id
        db.nextId calendar.externalId externalId event.etag (eventFingerprint n) db.now) := by
      unfold Db.mappingAt? at hm ⊢
      rw [show (db'.at_ t).mappings = db'.mappings from rfl, hmap, List.find?_append, hm]
      simp [Db.newMapping]
    rw [h1, deliver_same_etag (db'.at_ t) hid hm' rfl hc rfl]
    exact ⟨rfl, rfl, fun _ _ => Iff.rfl⟩

/-- A kept local version: what the second delivery does is up to the setting. -/
theorem twice_keep (hv : db.Valid) (hid : event.id = some externalId)
    (hm : db.mappingAt? calendar.externalId externalId = some m) (t : Time.DateTime) {n : NormalizedEvent}
    (htomb : m.reversibleTombstone = false) (hc : event.cancelled = false) (hn : normalizeEvent event = .ok n)
    (hetag : m.externalEtag ≠ event.etag) (hedit : (m.localDirty || m.localDeleted) = true)
    (he : exitOf externalId event db.policy (some (db.mappingState m)) = .keep (db.mappingState m)) :
    Db.Agrees (deliver calendar event db) (deliver calendar event ((deliver calendar event db).at_ t)) ↔
      ¬ ((db.policy.getD .ask = .ask ∧
          ¬ (m.conflictState = .unresolved ∧ ∃ c ∈ db.conflicts, c.mappingId = m.id ∧ c.status = .unresolved)) ∨
        (db.policy.getD .ask ≠ .ask ∧ keepLocal (db.policy.getD .ask) event (db.mappingState m) = false ∧
          db.storable calendar.id n = true)) := by
  set db1 : Db := (db.updateMapping m.id Db.clearResolution).at_ t with hdb1
  have h1 : deliver calendar event db = db.updateMapping m.id Db.clearResolution := by
    rw [deliver_eq _ hid (.keep (db.mappingState m)) (by rw [hm]; exact he), Exit.perform]
    exact congrArg (fun w => w.2.1) (run_sql_ok (P := silent) (g := ()) (s := .clearPendingResolution m.id) rfl)
  have hv1 : db1.Valid := by
    have := valid_at (valid_deliver calendar event hv) t
    rwa [h1] at this
  have hm1 : db1.mappingAt? calendar.externalId externalId = some (Db.clearResolution m) :=
    mappingAt?_update hm (fun _ => rfl) (fun _ => rfl) rfl
  have hmm1 := mem_of_mappingAt? hm1
  rw [h1]
  -- the second decision is the first one, by the setting alone
  have hexit : exitOf externalId event db1.policy (some (db1.mappingState (Db.clearResolution m))) =
      if db.policy.getD .ask = .ask then .conflict (db1.mappingState (Db.clearResolution m)) n.title
      else if keepLocal (db.policy.getD .ask) event (db.mappingState m)
        then .keep (db1.mappingState (Db.clearResolution m))
      else .overwrite (db1.mappingState (Db.clearResolution m)) n :=
    exitOf_edited _ _ htomb hc hn hetag hedit
  have h2 : deliver calendar event db1 = _ := deliver_exit hid
  rw [hm1, Option.map_some, hexit] at h2
  by_cases hask : db.policy.getD .ask = .ask
  · rw [if_pos hask, Exit.perform, run_createConflict hv1 hmm1] at h2
    rw [h2]
    simp only [hask, true_and, ne_eq, not_true_eq_false, false_and, or_false, not_not]
    constructor
    · rintro ⟨-, hmap, hopen⟩
      have hrows : Table.update (·.id == m.id) Db.flagUnresolved db1.mappings = db1.mappings := by
        have hraise : (db1.raiseConflict (Db.clearResolution m) n.title).mappings =
            Table.update (·.id == m.id) Db.flagUnresolved db1.mappings := by
          show Table.update _ _ (db1.openConflict (Db.clearResolution m) n.title).mappings = _
          rw [Db.openConflict_mappings]
          rfl
        exact hraise.symm.trans hmap
      have hrow := List.map_inj_left.1 (hrows.trans (List.map_id _).symm) _ hmm1
      have hflag : Db.flagUnresolved (Db.clearResolution m) = Db.clearResolution m := by
        simpa [Db.clearResolution] using hrow
      refine ⟨congrArg Mapping.conflictState hflag.symm, ?_⟩
      obtain ⟨c, hc1, hc2, hc3⟩ := exists_open db1 (Db.clearResolution m) n.title
      exact ⟨c, (hopen c hc3).1 hc1, hc2, hc3⟩
    · rintro ⟨hflag, hopen⟩
      obtain ⟨a, b, c⟩ := raiseConflict_agrees db1 (Db.clearResolution m) n.title
        (by
          refine (List.map_congr_left fun r hr => ?_).trans (List.map_id _)
          by_cases hrid : r.id = m.id
          · rw [hv1.mappingIds.eq hr hmm1 (k := m.id) (by rw [hrid]) rfl]
            simp only [Db.clearResolution, Db.flagUnresolved, beq_self_eq_true, if_true, hflag, id]
          · simp [Db.clearResolution, hrid])
        hopen
      exact ⟨a, b, c⟩
  · rw [if_neg hask] at h2
    simp only [hask, false_and, false_or, ne_eq, not_false_eq_true, true_and]
    by_cases hk : keepLocal (db.policy.getD .ask) event (db.mappingState m) = true
    · rw [if_pos hk, Exit.perform] at h2
      rw [h2, show (sql (Stmt.clearPendingResolution (db1.mappingState (Db.clearResolution m)).id)).run (exec silent)
        (db1, ()) = (.ok (), (db1.updateMapping m.id Db.clearResolution, ())) from
          run_sql_ok (s := .clearPendingResolution m.id) rfl]
      simp only [hk, Bool.true_eq_false, false_and, not_false_eq_true, iff_true]
      exact ⟨rfl, Table.update_update (fun _ => rfl) (fun _ => rfl), fun _ _ => Iff.rfl⟩
    · rw [if_neg hk] at h2
      simp only [hk, true_and, Bool.not_eq_true]
      cases hs : db.storable calendar.id n with
      | false =>
        obtain ⟨error, hr⟩ := run_overwrite_error silent () calendar event n hv1 hmm1 hs
        rw [h2, hr]
        exact iff_of_true ⟨rfl, rfl, fun _ _ => Iff.rfl⟩ rfl
      | true =>
        obtain ⟨db', hr, mid, -, hmid, hdb⟩ := run_overwrite_ok silent () calendar event n hv1 hmm1 hs
        rw [h2, hr]
        refine iff_of_false (fun hagree => ?_) (by simp)
        -- the mapping has the etag of the event now
        obtain ⟨m', hetag', hm', -⟩ := mappingAt?_overwrite hm1 hmid hdb
        have hsame : db'.mappingAt? calendar.externalId externalId = some (Db.clearResolution m) := by
          unfold Db.mappingAt?
          rw [hagree.mappings]
          exact hm1
        rw [hsame] at hm'
        exact hetag (by rw [← hetag', ← Option.some.inj hm']; rfl)

theorem agrees_still {t : Time.DateTime} (h : deliver calendar event db = db) (h' : deliver calendar event (db.at_ t) = db.at_ t) :
    Db.Agrees (deliver calendar event db) (deliver calendar event ((deliver calendar event db).at_ t)) := by
  rw [h, h']
  exact ⟨rfl, rfl, fun _ _ => Iff.rfl⟩

theorem twice_still (hid : event.id = some externalId) (t : Time.DateTime) {e : Exit}
    (he : exitOf externalId event db.policy ((db.mappingAt? calendar.externalId externalId).map db.mappingState) = e)
    (h : e = .skip ∨ ∃ message, e = .invalid message) :
    Db.Agrees (deliver calendar event db) (deliver calendar event ((deliver calendar event db).at_ t)) := by
  subst he
  exact agrees_still (deliver_still _ hid h) (deliver_still (db.at_ t) hid h)

theorem twice_tombstone (hv : db.Valid) (hid : event.id = some externalId)
    (hm : db.mappingAt? calendar.externalId externalId = some m) (t : Time.DateTime) (htomb : m.reversibleTombstone = true) :
    Db.Agrees (deliver calendar event db) (deliver calendar event ((deliver calendar event db).at_ t)) := by
  have he : exitOf externalId event db.policy (some (db.mappingState m)) = exitTombstone event (db.mappingState m) := by
    simp only [exitOf, Db.mappingState, htomb, if_true]
  unfold exitTombstone at he
  split at he
  · rename_i hc
    refine twice_gone hv hid hm t hc ?_
    rw [deliver_eq _ hid (.drop (db.mappingState m)) (by rw [hm]; exact he)]
    exact gone_delete
  · split at he
    · exact twice_holdConflict hv hid hm t he
    · exact twice_still hid t (e := .skip) (by rw [hm]; exact he) (.inl rfl)

theorem twice_cancelled (hv : db.Valid) (hid : event.id = some externalId)
    (hm : db.mappingAt? calendar.externalId externalId = some m) (t : Time.DateTime) (htomb : m.reversibleTombstone = false)
    (hc : event.cancelled = true) :
    Db.Agrees (deliver calendar event db) (deliver calendar event ((deliver calendar event db).at_ t)) := by
  have he : exitOf externalId event db.policy (some (db.mappingState m)) =
      exitCancelled event db.policy (db.mappingState m) := by
    simp only [exitOf, Db.mappingState, htomb, hc, if_true, Bool.false_eq_true, if_false]
  unfold exitCancelled at he
  split at he
  · split at he
    · exact twice_conflict hv hid hm t he
    · split at he
      · refine twice_gone hv hid hm t hc ?_
        rw [deliver_eq _ hid (.forget (db.mappingState m)) (by rw [hm]; exact he)]
        exact gone_delete
      · exact twice_remove hv hid hm t hc he
  · exact twice_remove hv hid hm t hc he

/-- Redelivery changes nothing exactly when the second delivery is not decided otherwise than the
first: when no resolution that keeps the local version is used up by the first. -/
theorem redelivery_agrees_iff (calendar : SyncCalendar) (event : GoogleEvent) {db : Db} (hv : db.Valid)
    (t : Time.DateTime) :
    Db.Agrees (deliver calendar event db) (deliver calendar event ((deliver calendar event db).at_ t)) ↔
      ¬ ∃ externalId m r n, Reconsidered calendar event db externalId m r n := by
  cases hid : event.id with
  | none =>
    refine iff_of_true (agrees_still (deliver_none hid) (deliver_none hid)) ?_
    rintro ⟨x, m, r, n, h⟩
    exact absurd (hid.symm.trans h.id) (by simp)
  | some externalId =>
    -- a delivery that is decided otherwise has this identity, and its mapping
    have hkey : ∀ {x m r n}, Reconsidered calendar event db x m r n → x = externalId ∧
        db.mappingAt? calendar.externalId externalId = some m := by
      intro x m r n h
      obtain rfl : x = externalId := Option.some.inj (h.id.symm.trans hid)
      exact ⟨rfl, h.mapping⟩
    cases hm : db.mappingAt? calendar.externalId externalId with
    | none =>
      refine iff_of_true ?_ (by
        rintro ⟨x, m, r, n, h⟩
        exact absurd (hm.symm.trans (hkey h).2) (by simp))
      cases hc : event.cancelled with
      | true => exact twice_still hid t (e := .skip) (by rw [hm]; simp [exitOf, hc]) (.inl rfl)
      | false =>
        cases hn : normalizeEvent event with
        | error message =>
          exact twice_still hid t (e := .invalid message) (by rw [hm]; simp [exitOf, hc, hn]) (.inr ⟨_, rfl⟩)
        | ok n => exact twice_import (n := n) hv hid hm t hc (by simp [exitOf, hc, hn])
    | some m =>
      have hm' : ∀ {x m' r n}, Reconsidered calendar event db x m' r n → m' = m := fun h =>
        Option.some.inj ((hkey h).2.symm.trans hm)
      cases htomb : m.reversibleTombstone with
      | true =>
        refine iff_of_true (twice_tombstone hv hid hm t htomb) ?_
        rintro ⟨x, m', r, n, h⟩
        exact absurd h.kept (by rw [hm' h, htomb]; simp)
      | false =>
        cases hc : event.cancelled with
        | true =>
          refine iff_of_true (twice_cancelled hv hid hm t htomb hc) ?_
          rintro ⟨x, m', r, n, h⟩
          exact absurd (hc.symm.trans h.live) (by simp)
        | false =>
          cases hn : normalizeEvent event with
          | error message =>
            refine iff_of_true (twice_still hid t (e := .invalid message)
              (by rw [hm]; simp [exitOf, Db.mappingState, htomb, hc, hn]) (.inr ⟨_, rfl⟩)) ?_
            rintro ⟨x, m', r, n, h⟩
            exact absurd (hn.symm.trans h.content) (by simp)
          | ok n =>
            by_cases hetag : m.externalEtag = event.etag
            · refine iff_of_true (twice_still hid t (e := .skip)
                (by rw [hm]; simp [exitOf, exitChanged, Db.mappingState, htomb, hc, hn, hetag]) (.inl rfl)) ?_
              rintro ⟨x, m', r, n', h⟩
              exact h.changed (by rw [hm' h]; exact hetag)
            · cases hedit : m.localDirty || m.localDeleted with
              | false =>
                refine iff_of_true (twice_overwrite (n := n) hv hid hm t htomb hc
                  (by simp [exitOf, exitChanged, Db.mappingState, htomb, hc, hn, hetag, hedit])) ?_
                rintro ⟨x, m', r, n', h⟩
                exact absurd h.edited (by rw [hm' h, hedit]; simp)
              | true =>
                have he := exitOf_edited externalId db.policy (m := db.mappingState m) htomb hc hn hetag hedit
                by_cases hask : policyInForce db.policy (db.mappingState m) = .ask
                · rw [if_pos hask] at he
                  refine iff_of_true (twice_conflict hv hid hm t he) ?_
                  rintro ⟨x, m', r, n', h⟩
                  have hr := h.resolution
                  rw [hm' h] at hr
                  -- a resolution never asks
                  simp only [policyInForce, Db.mappingState, hr] at hask
                  cases r <;> cases hask
                · rw [if_neg hask] at he
                  by_cases hk : keepLocal (policyInForce db.policy (db.mappingState m)) event (db.mappingState m) = true
                  · rw [if_pos hk] at he
                    rw [twice_keep hv hid hm t htomb hc hn hetag hedit he, not_iff_not]
                    constructor
                    · intro hset
                      cases hr : m.pendingResolution with
                      | some r =>
                        have hforce : policyInForce db.policy (db.mappingState m) = r.policy := by
                          simp only [policyInForce, Db.mappingState, hr]
                        rw [hforce] at hk
                        exact ⟨externalId, m, r, n, hid, hm, htomb, hc, hn, hetag, hedit, hr, hk, hset⟩
                      | none =>
                        -- the setting kept the local version, and still does
                        have hforce : policyInForce db.policy (db.mappingState m) = db.policy.getD .ask := by
                          simp only [policyInForce, Db.mappingState, hr]
                        rw [hforce] at hk hask
                        rcases hset with ⟨hset, -⟩ | ⟨-, hset, -⟩
                        · exact absurd hset hask
                        · exact absurd (hk.symm.trans hset) (by simp)
                    · rintro ⟨x, m', r, n', h⟩
                      obtain rfl := hm' h
                      obtain rfl : n = n' := Except.ok.inj (hn.symm.trans h.content)
                      exact h.setting
                  · rw [if_neg hk] at he
                    refine iff_of_true (twice_overwrite hv hid hm t htomb hc he) ?_
                    rintro ⟨x, m', r, n', h⟩
                    obtain rfl := hm' h
                    exact hk (by
                      have := h.keeps
                      simpa only [policyInForce, Db.mappingState, h.resolution] using this)

end

/-! ## A resolution used up -/

/-- The user edited the event, and just resolved its conflict for the local version. -/
def keptTables : Db :=
  planningTables { planningMapping with localDirty := true, pendingResolution := some .prosepect }

/-- The remote version the conflict was about. -/
def movedPlanning : GoogleEvent where
  id := some "planning"
  etag := some "2"
  status := some "confirmed"
  summary := some "Planning, moved"
  description := ""
  start := some ⟨some 0, none, some "UTC"⟩
  «end» := some ⟨some 7200000000, none, some "UTC"⟩
  location := ""
  attendees := []
  recurrence := []
  updated := none

theorem redelivery_agrees_iff_kept :
    Db.Agrees (deliver work movedPlanning keptTables)
        (deliver work movedPlanning ((deliver work movedPlanning keptTables).at_ 0)) ↔
      ¬ ∃ externalId m r n, Reconsidered work movedPlanning keptTables externalId m r n :=
  redelivery_agrees_iff work movedPlanning (by decide) 0

/-- The second delivery raises the conflict the user has resolved. -/
theorem redelivery_raises_conflict :
    keptTables.Valid ∧ (deliver work movedPlanning keptTables).conflicts = [] ∧
      (deliver work movedPlanning (deliver work movedPlanning keptTables)).conflicts ≠ [] ∧
      ¬ Db.Agrees (deliver work movedPlanning keptTables)
        (deliver work movedPlanning (deliver work movedPlanning keptTables)) := by
  refine ⟨by decide, by decide, by decide, fun h => ?_⟩
  have hm := h.mappings
  revert hm
  decide

end Prosepect
