/-
The policy `latest`: which side a delivery keeps, against the times at which the two sides were
changed. The local time is a column of the event. A deleted event has none, and is taken for older
than any remote change.
-/
import Prosepect.Calendar.Redelivery
import Prosepect.Store.Stamps

namespace Prosepect

open Resumption Table Time SyncService

/-! ## Pending changes -/

namespace Mapping

/-- An edit of the event waits to be pushed. -/
def EditPending (m : Mapping) : Prop :=
  m.localDirty = true ∧ m.reversibleTombstone = false ∧ ∃ event, m.canonicalEventId = some event

/-- A deletion waits to be pushed, or to be held back no longer. -/
def DeletionPending (m : Mapping) : Prop := m.localDeleted = true ∧ m.canonicalEventId = none

/-- The pending change is as it was. -/
def SameChange (m m' : Mapping) : Prop :=
  m'.localDirty = m.localDirty ∧ m'.localDeleted = m.localDeleted ∧ m'.canonicalEventId = m.canonicalEventId

end Mapping

/-- When the change of a mapping was made: the event was changed, or the mapping lost it. -/
def Clock.changed (c : Clock) (m : Mapping) : DateTime :=
  match m.canonicalEventId with
  | some event => c.event event
  | none => c.mapping m.id

/-- A delivered remote change: a cancellation, or a version that is not the one last seen. -/
structure RemoteChange (m : Mapping) (externalId : String) (updated : DateTime) (event : GoogleEvent) : Prop where
  id : event.id = some externalId
  updated : event.updated = some updated
  changed : event.cancelled = true ∨ m.externalEtag ≠ event.etag

section Outcomes

variable {σ : Type}

/-- The local change is kept: no event is written, and the change stays pending; of a cancelled
event the mapping may go, so that the local one is no longer that event. -/
structure KeptLocal (m : Mapping) (event : GoogleEvent) (db : Db) (out : Except SyncError Unit × (Db × σ)) : Prop where
  ok : out.1 = .ok ()
  events : out.2.1.events = db.events
  pending : ∀ m' ∈ out.2.1.mappings, m'.id = m.id → m.SameChange m'
  mapped : event.cancelled = false → ∃ m' ∈ out.2.1.mappings, m'.id = m.id

/-- The remote change is applied: the event has the content that was sent and nothing is pending, or
the event and its mapping are gone. -/
structure AppliedRemote (m : Mapping) (event : GoogleEvent) (out : Except SyncError Unit × (Db × σ)) : Prop where
  ok : out.1 = .ok ()
  cancelled : event.cancelled = true → (∀ m' ∈ out.2.1.mappings, m'.id ≠ m.id) ∧
    ∀ e ∈ out.2.1.events, m.canonicalEventId ≠ some e.id
  changed : event.cancelled = false → ∃ n, normalizeEvent event = .ok n ∧
    ∃ m' ∈ out.2.1.mappings, m'.id = m.id ∧ m'.localDirty = false ∧ m'.localDeleted = false ∧
      m'.externalEtag = event.etag ∧
      ∃ e ∈ out.2.1.events, m'.canonicalEventId = some e.id ∧ e.toLocalEvent = n.toLocal e.id

/-- The side that changed last is kept. -/
def KeepsLatest (m : Mapping) (event : GoogleEvent) (made updated : DateTime) (db : Db)
    (out : Except SyncError Unit × (Db × σ)) : Prop :=
  (updated ≤ made → KeptLocal m event db out) ∧ (made < updated → AppliedRemote m event out)

end Outcomes

section Sides

variable {σ : Type} {m : Mapping} {event : GoogleEvent} {made updated : DateTime} {db : Db}
  {out : Except SyncError Unit × (Db × σ)}

/-- A change that is pending is not also settled. -/
theorem KeptLocal.not_applied (hpending : m.EditPending ∨ m.DeletionPending) (hc : event.cancelled = false)
    (hk : KeptLocal m event db out) : ¬ AppliedRemote m event out := by
  intro ha
  obtain ⟨n, -, m', hm', hid, hdirty, hdeleted, -⟩ := ha.changed hc
  obtain ⟨hdirty', hdeleted', -⟩ := hk.pending m' hm' hid
  rcases hpending with ⟨hedit, -⟩ | ⟨hdeletion, -⟩
  · rw [← hdirty', hdirty] at hedit
    cases hedit
  · rw [← hdeleted', hdeleted] at hdeletion
    cases hdeletion

theorem KeptLocal.keepsLatest_iff (hpending : m.EditPending ∨ m.DeletionPending) (hc : event.cancelled = false)
    (hk : KeptLocal m event db out) : KeepsLatest m event made updated db out ↔ updated ≤ made := by
  constructor
  · intro h
    by_contra hlt
    exact hk.not_applied hpending hc (h.2 (not_le.1 hlt))
  · intro hle
    exact ⟨fun _ => hk, fun hlt => absurd hlt (not_lt.2 hle)⟩

theorem AppliedRemote.keepsLatest_iff (hpending : m.EditPending ∨ m.DeletionPending) (hc : event.cancelled = false)
    (ha : AppliedRemote m event out) : KeepsLatest m event made updated db out ↔ made < updated := by
  constructor
  · intro h
    by_contra hle
    exact (h.1 (not_lt.1 hle)).not_applied hpending hc ha
  · intro hlt
    exact ⟨fun hle => absurd hlt (not_lt.2 hle), fun _ => ha⟩

/-- A delivery that fails keeps neither side. -/
theorem not_keepsLatest_of_error {e : SyncError} (h : out.1 = .error e) : ¬ KeepsLatest m event made updated db out := by
  intro hk
  rcases le_or_gt updated made with hle | hlt
  · have hok := (hk.1 hle).ok
    rw [h] at hok
    cases hok
  · have hok := (hk.2 hlt).ok
    rw [h] at hok
    cases hok

end Sides

/-- Where the side that changed last is kept: always of a cancellation; of another remote change if
it has a start and an end, and fits the tables where it is to be applied, and if the event is still
there, or its deletion is the older change, or a newer one that is still held back. -/
def Timely (calendar : SyncCalendar) (m : Mapping) (event : GoogleEvent) (made updated : DateTime) (db : Db) : Prop :=
  event.cancelled = true ∨
  (m.reversibleTombstone = true ∧ updated ≤ made) ∨
  (m.reversibleTombstone = false ∧ ∃ n, normalizeEvent event = .ok n ∧
    (made < updated → db.storable calendar.id n = true) ∧ (m.canonicalEventId = none → made < updated))

namespace SyncService

section Deliveries

variable {σ : Type} {P : Provider σ} {g : σ} {db : Db} {calendar : SyncCalendar} {event : GoogleEvent} {m : Mapping}

/-- Content that can be stored becomes the content of the event, or of a new one. -/
theorem run_overwrite_applied (h : db.Valid) (hm : m ∈ db.mappings) {n : NormalizedEvent} (hn : normalizeEvent event = .ok n)
    (hc : event.cancelled = false) (hs : db.storable calendar.id n = true) :
    AppliedRemote m event (((Exit.overwrite (db.mappingState m) n).perform calendar event).run (exec P) (db, g)) := by
  obtain ⟨db', hrun, mid, ⟨-, m₁, hm₁, hid, e, he, hlinked, hcontent⟩, -, rfl⟩ := run_overwrite_ok P g calendar event n h hm hs
  rw [hrun]
  refine ⟨rfl, fun hcancelled => ?_, fun _ => ⟨n, hn, Db.baseline event.etag (eventFingerprint n) db.now m₁, ?_, hid, rfl, rfl,
    rfl, e, he, hlinked, hcontent⟩⟩
  · rw [hc] at hcancelled
    cases hcancelled
  · exact mem_update.2 (.inr ⟨m₁, hm₁, beq_iff_eq.2 hid, rfl⟩)

/-- The row of the mapping is the only one with its id. -/
theorem sameChange_updateMapping (h : db.Valid) (hm : m ∈ db.mappings) {f : Mapping → Mapping} (hf : m.SameChange (f m)) :
    ∀ m' ∈ (db.updateMapping m.id f).mappings, m'.id = m.id → m.SameChange m' := by
  rintro m' hm' hid
  rcases mem_update.1 hm' with ⟨-, hne⟩ | ⟨s, hs, hsid, rfl⟩
  · rw [hid] at hne
    exact absurd hne (by simp)
  · obtain rfl : s = m := h.mappingIds.eq hs hm rfl (by rw [beq_iff_eq.1 hsid])
    exact hf

/-- The remote change is left aside, and the local one still pending. -/
theorem run_keep (h : db.Valid) (hm : m ∈ db.mappings) :
    KeptLocal m event db (((Exit.keep (db.mappingState m)).perform calendar event).run (exec P) (db, g)) := by
  have hrun : ((Exit.keep (db.mappingState m)).perform calendar event).run (exec P) (db, g) =
      (.ok (), (db.updateMapping m.id Db.clearResolution, g)) := run_sql_ok rfl
  rw [hrun]
  exact ⟨rfl, rfl, sameChange_updateMapping h hm ⟨rfl, rfl, rfl⟩,
    fun _ => ⟨Db.clearResolution m, mem_update.2 (.inr ⟨m, hm, beq_self_eq_true m.id, rfl⟩), rfl⟩⟩

/-- A held deletion stays held, with a conflict for the user to decide. -/
theorem run_hold (h : db.Valid) (hm : m ∈ db.mappings) :
    KeptLocal m event db (((Exit.holdConflict (db.mappingState m)).perform calendar event).run (exec P) (db, g)) := by
  rw [run_holdConflict h hm]
  have hmappings : ((db.raiseConflict m (event.summary.getD "Deleted task event")).deleteUndos
      (·.mappingId == some m.id)).mappings = (db.updateMapping m.id Db.flagUnresolved).mappings := by
    show Table.update _ _ (db.openConflict m _).mappings = _
    rw [Db.openConflict_mappings]
    rfl
  refine ⟨rfl, Db.openConflict_events m db _, fun m' hm' => ?_, fun _ => ⟨Db.flagUnresolved m, ?_, rfl⟩⟩
  · rw [hmappings] at hm'
    exact sameChange_updateMapping h hm (f := Db.flagUnresolved) ⟨rfl, rfl, rfl⟩ m' hm'
  · rw [hmappings]
    exact mem_update.2 (.inr ⟨m, hm, beq_self_eq_true m.id, rfl⟩)

/-- Of a cancelled event only the mapping goes. -/
theorem kept_of_dropped {db' : Db} (hc : event.cancelled = true) (he : db'.events = db.events)
    (hm : ∀ m' ∈ db'.mappings, m'.id ≠ m.id) : KeptLocal m event db ((.ok (), (db', g)) : Except SyncError Unit × (Db × σ)) := by
  refine ⟨rfl, he, fun m' hm' hid => absurd hid (hm m' hm'), fun hlive => ?_⟩
  rw [hc] at hlive
  cases hlive

theorem applied_of_dropped {db' : Db} (hc : event.cancelled = true) (he : ∀ e ∈ db'.events, m.canonicalEventId ≠ some e.id)
    (hm : ∀ m' ∈ db'.mappings, m'.id ≠ m.id) : AppliedRemote m event ((.ok (), (db', g)) : Except SyncError Unit × (Db × σ)) := by
  refine ⟨rfl, fun _ => ⟨hm, he⟩, fun hlive => ?_⟩
  rw [hc] at hlive
  cases hlive

theorem id_ne_of_mem_delete {l : List Mapping} : ∀ m' ∈ Table.delete (fun x : Mapping => x.id == m.id) l, m'.id ≠ m.id := by
  rintro m' hm' hid
  have hne := (mem_delete.1 hm').2
  rw [hid] at hne
  exact absurd hne (by simp)

/-- The event and the mapping go. -/
theorem run_remove_applied (hc : event.cancelled = true) :
    AppliedRemote m event (((Exit.remove (db.mappingState m)).perform calendar event).run (exec P) (db, g)) := by
  rw [run_remove]
  refine applied_of_dropped hc (fun e he => ?_) id_ne_of_mem_delete
  cases hcan : m.canonicalEventId with
  | none => exact fun h => nomatch h
  | some id =>
    rw [hcan] at he
    have hgone : e ∈ (db.deleteCanonicalEvent id).events := he
    unfold Db.deleteCanonicalEvent at hgone
    rintro ⟨⟩
    split at hgone
    · exact absurd (mem_delete.1 hgone).2 (by simp)
    · exact absurd (mem_delete.1 hgone).2 (by simp)

/-- The event was gone already. -/
theorem run_remove_kept (hc : event.cancelled = true) (hnone : m.canonicalEventId = none) :
    KeptLocal m event db (((Exit.remove (db.mappingState m)).perform calendar event).run (exec P) (db, g)) := by
  rw [run_remove, hnone]
  exact kept_of_dropped hc rfl id_ne_of_mem_delete

variable {externalId : String} {made updated : DateTime}

/-- A tombstone is decided about without the policy. -/
theorem tombstone_keeps_iff (h : db.Valid) (hm : m ∈ db.mappings) (htomb : m.reversibleTombstone = true)
    (hpending : m.DeletionPending) (hevent : RemoteChange m externalId updated event) :
    KeepsLatest m event made updated db (((exitTombstone event (db.mappingState m)).perform calendar event).run (exec P) (db, g)) ↔
      Timely calendar m event made updated db := by
  unfold exitTombstone
  by_cases hc : event.cancelled = true
  · rw [if_pos hc]
    have hrun : ((Exit.drop (db.mappingState m)).perform calendar event).run (exec P) (db, g) =
        (.ok (), ((db.deleteUndos (·.mappingId == some m.id)).deleteMappings (·.id == m.id), g)) := run_sql_ok rfl
    rw [hrun]
    refine ⟨fun _ => .inl hc, fun _ => ⟨fun _ => kept_of_dropped hc rfl id_ne_of_mem_delete, fun _ => ?_⟩⟩
    exact applied_of_dropped hc (fun e _ => by rw [hpending.2]; exact fun hnone => nomatch hnone) id_ne_of_mem_delete
  · have hlive := eq_false_of_ne_true hc
    have hetag : (event.etag.isNone || (db.mappingState m).externalEtag != event.etag) = true := by
      simp [Db.mappingState, hevent.changed.resolve_left hc]
    rw [if_neg hc, if_pos hetag, (run_hold h hm).keepsLatest_iff (.inr hpending) hlive]
    constructor
    · exact fun hle => .inr (.inl ⟨htomb, hle⟩)
    · rintro (hcancelled | ⟨-, hle⟩ | ⟨hreal, -⟩)
      · exact absurd hcancelled hc
      · exact hle
      · rw [htomb] at hreal
        cases hreal

/-- The local time the policy sees: that of the event, or none. -/
theorem keepLocal_latest_iff {event : GoogleEvent} {s : MappingState} (hu : event.updated = some updated) :
    keepLocal .latest event s = true ↔ ∃ t, s.localUpdatedAt = some t ∧ updated ≤ t := by
  unfold keepLocal
  rw [hu]
  cases s.localUpdatedAt with
  | none => simp
  | some t => simp

theorem cancelled_keeps (hpolicy : policyInForce db.policy (db.mappingState m) = .latest)
    (hpending : m.EditPending ∨ m.DeletionPending) (hevent : RemoteChange m externalId updated event)
    (htime : ∀ t, (db.mappingState m).localUpdatedAt = some t ↔ m.canonicalEventId ≠ none ∧ t = made)
    (hc : event.cancelled = true) :
    KeepsLatest m event made updated db
      (((exitCancelled event db.policy (db.mappingState m)).perform calendar event).run (exec P) (db, g)) := by
  have hkeep := keepLocal_latest_iff (s := db.mappingState m) hevent.updated
  have hforget : ((Exit.forget (db.mappingState m)).perform calendar event).run (exec P) (db, g) =
      (.ok (), (db.deleteMappings (·.id == m.id), g)) := run_sql_ok rfl
  -- without an event both sides come to the same
  have hgone : m.canonicalEventId = none → KeepsLatest m event made updated db
      (((Exit.remove (db.mappingState m)).perform calendar event).run (exec P) (db, g)) :=
    fun hnone => ⟨fun _ => run_remove_kept hc hnone, fun _ => run_remove_applied hc⟩
  unfold exitCancelled
  by_cases hdirty : (db.mappingState m).localDirty = true
  · rw [if_pos hdirty, hpolicy, if_neg (by decide)]
    by_cases hk : keepLocal .latest event (db.mappingState m) = true
    · obtain ⟨t, ht, hle⟩ := hkeep.1 hk
      obtain ⟨-, rfl⟩ := (htime t).1 ht
      rw [if_pos hk, hforget]
      exact ⟨fun _ => kept_of_dropped hc rfl id_ne_of_mem_delete, fun hlt => absurd hlt (not_lt.2 hle)⟩
    · rw [if_neg hk]
      cases hcan : m.canonicalEventId with
      | none => exact hgone hcan
      | some id =>
        refine ⟨fun hle => absurd (hkeep.2 ⟨made, (htime made).2 ⟨?_, rfl⟩, hle⟩) hk, fun _ => run_remove_applied hc⟩
        rw [hcan]
        exact fun hnone => nomatch hnone
  · rw [if_neg hdirty]
    rcases hpending with ⟨hd, -⟩ | ⟨-, hnone⟩
    · exact absurd hd hdirty
    · exact hgone hnone

theorem changed_keeps_iff (h : db.Valid) (hm : m ∈ db.mappings) (htomb : m.reversibleTombstone = false)
    (hpolicy : policyInForce db.policy (db.mappingState m) = .latest) (hpending : m.EditPending ∨ m.DeletionPending)
    (hevent : RemoteChange m externalId updated event)
    (htime : ∀ t, (db.mappingState m).localUpdatedAt = some t ↔ m.canonicalEventId ≠ none ∧ t = made)
    (hc : event.cancelled = false) {n : NormalizedEvent} (hn : normalizeEvent event = .ok n) :
    KeepsLatest m event made updated db
      (((exitChanged event db.policy n (db.mappingState m)).perform calendar event).run (exec P) (db, g)) ↔
      Timely calendar m event made updated db := by
  have hkeep := keepLocal_latest_iff (s := db.mappingState m) hevent.updated
  have hflags : ((db.mappingState m).localDirty || (db.mappingState m).localDeleted) = true := by
    rcases hpending with ⟨hd, -⟩ | ⟨hd, -⟩
    · simp [Db.mappingState, hd]
    · simp [Db.mappingState, hd]
  have hetag : (db.mappingState m).externalEtag ≠ event.etag := by
    rcases hevent.changed with hcancelled | hne
    · rw [hc] at hcancelled
      cases hcancelled
    · exact hne
  have htimely : Timely calendar m event made updated db ↔
      (made < updated → db.storable calendar.id n = true) ∧ (m.canonicalEventId = none → made < updated) := by
    unfold Timely
    rw [hc, htomb, hn]
    constructor
    · rintro (hcancelled | ⟨htrue, -⟩ | ⟨-, n', hn', hboth⟩)
      · cases hcancelled
      · cases htrue
      · obtain rfl := Except.ok.inj hn'
        exact hboth
    · exact fun hboth => .inr (.inr ⟨rfl, n, rfl, hboth⟩)
  rw [htimely]
  unfold exitChanged
  rw [if_neg hetag, if_pos hflags, hpolicy, if_neg (by decide)]
  by_cases hk : keepLocal .latest event (db.mappingState m) = true
  · obtain ⟨t, ht, hle⟩ := hkeep.1 hk
    obtain ⟨hsome, rfl⟩ := (htime t).1 ht
    rw [if_pos hk, (run_keep h hm).keepsLatest_iff hpending hc]
    exact ⟨fun _ => ⟨fun hlt => absurd hlt (not_lt.2 hle), fun hnone => absurd hnone hsome⟩, fun _ => hle⟩
  · rw [if_neg hk]
    -- an event that is there is older than the remote change
    have hold : m.canonicalEventId ≠ none → made < updated := by
      intro hsome
      by_contra hle
      exact hk (hkeep.2 ⟨made, (htime made).2 ⟨hsome, rfl⟩, not_lt.1 hle⟩)
    cases hs : db.storable calendar.id n with
    | true =>
      rw [(run_overwrite_applied h hm hn hc hs).keepsLatest_iff hpending hc]
      constructor
      · exact fun hlt => ⟨fun _ => rfl, fun _ => hlt⟩
      · rintro ⟨-, hnone⟩
        exact (em (m.canonicalEventId = none)).elim hnone hold
    | false =>
      obtain ⟨error, hrun⟩ := run_overwrite_error P g calendar event n h hm hs
      rw [hrun]
      constructor
      · exact fun hkept => absurd hkept (not_keepsLatest_of_error rfl)
      · rintro ⟨hfits, hnone⟩
        have hlt := (em (m.canonicalEventId = none)).elim hnone hold
        cases hfits hlt

end Deliveries

end SyncService

section

variable {env : Env} {c : Clock} {w : Workspace} {σ : Type}

/-- What the policy sees of a pending change: the time of an edit, and nothing of a deletion. -/
theorem localUpdatedAt_iff (h : Chronicle env c w) {m : Mapping} (hm : m ∈ w.db.mappings) (t : DateTime) :
    (w.db.mappingState m).localUpdatedAt = some t ↔ m.canonicalEventId ≠ none ∧ t = c.changed m := by
  unfold Db.mappingState Clock.changed
  cases hcan : m.canonicalEventId with
  | none => simp
  | some id =>
    obtain ⟨e, he, rfl⟩ := h.movesValid.db.mappingEvent m hm id hcan
    have hfound : w.db.event? e.id = some e := h.movesValid.db.event?_eq_some.2 ⟨he, rfl⟩
    have htime := h.updatedAt e he
    simp only [Option.bind_some, hfound, Option.map_some, Option.some.injEq, ne_eq, reduceCtorEq, not_false_eq_true, true_and]
    rw [htime]
    exact eq_comm

/-- Under `latest` a delivery keeps the side that changed last exactly where it is timely. -/
theorem latest_keeps_iff (h : Chronicle env c w) {calendar : SyncCalendar} {externalId : String} {m : Mapping}
    (hm : w.db.mappingAt? calendar.externalId externalId = some m) (hpending : m.EditPending ∨ m.DeletionPending)
    (hpolicy : policyInForce w.db.policy (w.db.mappingState m) = .latest) {event : GoogleEvent} {updated : DateTime}
    (hevent : RemoteChange m externalId updated event) (P : Provider σ) (g : σ) :
    KeepsLatest m event (c.changed m) updated w.db ((applyRemoteEvent calendar event).run (exec P) (w.db, g)) ↔
      Timely calendar m event (c.changed m) updated w.db := by
  have hv := h.movesValid.db
  obtain ⟨hmem, -, -⟩ := hv.mappingAt?_eq_some.1 hm
  have htime := localUpdatedAt_iff h hmem
  rw [run_applyRemoteEvent calendar hevent.id, hm]
  simp only [Option.map_some, exitOf]
  by_cases htomb : (w.db.mappingState m).reversibleTombstone = true
  · have hdeletion : m.DeletionPending := by
      rcases hpending with ⟨-, hreal, -⟩ | hdeletion
      · exact absurd (htomb.symm.trans hreal) (by decide)
      · exact hdeletion
    rw [if_pos htomb]
    exact tombstone_keeps_iff hv hmem htomb hdeletion hevent
  · have hreal := eq_false_of_ne_true htomb
    rw [if_neg htomb]
    by_cases hc : event.cancelled = true
    · rw [if_pos hc]
      exact ⟨fun _ => .inl hc, fun _ => cancelled_keeps hpolicy hpending hevent htime hc⟩
    · have hlive := eq_false_of_ne_true hc
      rw [if_neg hc]
      cases hn : normalizeEvent event with
      | ok n => exact changed_keeps_iff hv hmem hreal hpolicy hpending hevent htime hlive hn
      | error message =>
        constructor
        · exact fun hkept => absurd hkept (not_keepsLatest_of_error rfl)
        · rintro (hcancelled | ⟨htrue, -⟩ | ⟨-, n, hn', -⟩)
          · exact absurd hcancelled hc
          · exact absurd htrue htomb
          · rw [hn] at hn'
            cases hn'

end

/-! ## A lunch that is edited, and one that is deleted -/

/-- The actions in turn, with the times of the last changes. -/
def after (env : Env) (actions : List Action) (x : Clock × Workspace) : Clock × Workspace :=
  actions.foldl (fun x a => (x.1.step x.2 (a.perform env x.2), a.perform env x.2)) x

theorem chronicle_after {env : Env} : ∀ (actions : List Action) {x : Clock × Workspace}, Chronicle env x.1 x.2 →
    Chronicle env (after env actions x).1 (after env actions x).2
  | [], _, h => h
  | a :: actions, _, h => chronicle_after actions (Chronicle.step a h)

def lunchEnv : Env := ⟨fun s => s, fun _ => 0⟩

def lunch : NormalizedEvent := ⟨"Lunch", "", 100, 200, false, "UTC", "", [], .none, none⟩

/-- A lunch of Google under the policy `latest`, imported at 0, and what happens to it at 10. -/
def lunchAfter (a : Action) : Clock × Workspace :=
  after lunchEnv [.discoverCalendar ⟨"c", "c", none, some true, some true, some .owner⟩,
      .sync (.insertCanonicalEvent 1 lunch), .sync (.insertMapping 1 2 "c" "x" (some "1") (eventFingerprint lunch)),
      .tick 10, a, .tick 20]
    (⟨fun _ => 0, fun _ => 0⟩, .initial 0 1 (some .latest) false)

theorem chronicle_lunchAfter (a : Action) : Chronicle lunchEnv (lunchAfter a).1 (lunchAfter a).2 :=
  chronicle_after _ (.start _ 0 1 (some .latest) false)

def lunchEdited : Clock × Workspace :=
  lunchAfter (.updateEvent 2 { calendarId := 1, title := "Late lunch", description := "", startsAt := 300, endsAt := 400,
                               allDay := false, timezone := "UTC", location := "", attendees := [], recurrence := .none,
                               recurrenceUntil := none, expectedVersion := 1 })

def lunchDeleted : Clock × Workspace := lunchAfter (.deleteEvent 2 1)

def lunchCalendar : SyncCalendar := ⟨1, "c", none⟩

/-- The mapping, as it was imported. -/
def lunchMapping : Mapping := Db.newMapping 3 1 2 "c" "x" (some "1") (eventFingerprint lunch) 0

/-- A new version of the lunch. -/
def lunchChanged (updated : DateTime) : GoogleEvent :=
  ⟨some "x", some "2", some "confirmed", some "Early lunch", "", some ⟨some 50, none, none⟩, some ⟨some 90, none, none⟩, "", [],
    [], some updated⟩

theorem remoteChange_lunch (updated : DateTime) {m : Mapping} (hm : m.externalEtag = some "1") :
    RemoteChange m "x" updated (lunchChanged updated) :=
  ⟨rfl, rfl, .inr (by rw [hm]; exact fun h => absurd (Option.some.inj h) (by decide))⟩

theorem latest_keeps_lunchEdited : KeepsLatest { lunchMapping with localDirty := true } (lunchChanged 5)
    (lunchEdited.1.changed { lunchMapping with localDirty := true }) 5 lunchEdited.2.db
    ((applyRemoteEvent lunchCalendar (lunchChanged 5)).run (exec silent) (lunchEdited.2.db, ())) := by
  refine (latest_keeps_iff (chronicle_lunchAfter _) ?_ (.inl ⟨rfl, rfl, 2, rfl⟩)
    ?_ (remoteChange_lunch 5 rfl) silent ()).2 (.inr (.inr ⟨rfl, _, rfl, ?_, ?_⟩))
  · decide +kernel
  · decide +kernel
  · decide +kernel
  · decide +kernel

/-- The lunch deleted at 10 comes back with the content it had at 5. -/
theorem lunchDeleted_comes_back :
    lunchDeleted.2.db.mappingAt? "c" "x" = some { lunchMapping with localDeleted := true, canonicalEventId := none } ∧
      policyInForce lunchDeleted.2.db.policy (lunchDeleted.2.db.mappingState
        { lunchMapping with localDeleted := true, canonicalEventId := none }) = .latest ∧
      lunchDeleted.1.changed { lunchMapping with localDeleted := true, canonicalEventId := none } = 10 ∧
      ¬ KeepsLatest { lunchMapping with localDeleted := true, canonicalEventId := none } (lunchChanged 5) 10 5 lunchDeleted.2.db
        ((applyRemoteEvent lunchCalendar (lunchChanged 5)).run (exec silent) (lunchDeleted.2.db, ())) := by
  refine ⟨by decide +kernel, by decide +kernel, by decide +kernel, ?_⟩
  rintro ⟨hkept, -⟩
  have hevents := congrArg List.length (hkept (by decide)).events
  exact absurd hevents (by decide +kernel)

end Prosepect
