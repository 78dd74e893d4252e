/-
Reversible deletions of tasks: from the deletion until Google reports its event deleted, or the user
keeps the event of Google, the row of its mapping stays as it is, whatever passes, cleanups, resolutions
and edits happen; the only request that may write to the event is the deletion under the stored etag,
after the hold and with no conflict to decide, and none once the user has kept it (`tombstone_safe`).
-/
import Prosepect.Calendar.Footprint

namespace Prosepect

open Resumption SyncService Store Table Time

namespace Tombstone

/-! ## The deletion -/

section Deletion

variable {db db' : Db}

/-- What an accepted deletion with a Google event leaves of its mapping. -/
theorem deleteTaskWithUndo_held {locked validated : Bool} {task : Uuid} {version : Int}
    {receipt : TaskDeleteUndo} {k : Uuid}
    (h : deleteTaskWithUndo locked validated task version db = .ok (receipt, db')) (hk : receipt.mappingId = some k) :
    ∃ m ∈ db.mappings, m.id = k ∧ (∃ c, holdable c m = true) ∧ ∃ fingerprint,
      holdMapping receipt.expiresAt fingerprint m ∈ db'.mappings := by
  obtain ⟨row, mapping, -, hmapping, rfl, rfl⟩ := deleteTaskWithUndo_ok h
  cases mapping with
  | none => cases hk
  | some p =>
    obtain ⟨e, c, -, -, -, hm, hhold, -⟩ := (heldMapping_ok hmapping).2.2 p rfl
    have hmem := List.mem_of_find?_eq_some hm
    refine ⟨p.1, hmem, Option.some.inj hk, ⟨c, hhold⟩, p.2, mem_update.2 (.inl ⟨?_, ?_⟩)⟩
    · exact mem_update.2 (.inr ⟨p.1, hmem, by simp, rfl⟩)
    -- without its event, the row is out of the reach of the deletion
    · by_contra hr
      exact Db.refersTo_ne (eq_true_of_ne_false hr) rfl

end Deletion

/-! ## The runs -/

/-- How a deletion went on. -/
structure Story where
  /-- Google has reported the event deleted. -/
  deleted : Bool
  /-- The user has chosen to keep the event of Google. -/
  kept : Bool
  /-- Since then, the user has changed what was kept. -/
  edited : Bool
deriving DecidableEq, Repr

/-- The answer reports the remote event deleted. -/
def reports (calendar event : String) (q : Request) (r : Response q.Body) : Bool :=
  match q, r with
  | .listEvents c _ _, ⟨status, some page⟩ =>
    c == calendar && !(decide (400 ≤ status ∧ status < 600)) && page.items.any fun e => e.id == some event && e.cancelled
  | .getEvent c _, ⟨status, some e⟩ =>
    c == calendar && !(decide (400 ≤ status ∧ status < 600)) && e.id == some event && e.cancelled
  | .deleteEvent c x _, ⟨status, _⟩ =>
    c == calendar && x == event && (status == 404 || !(decide (400 ≤ status ∧ status < 600)))
  | _, _ => false

/-- After something others did. -/
def Story.after (row : Mapping) (kept : Bool) (db : Db) (s : Story) : Story where
  deleted := s.deleted
  kept := s.kept || kept
  edited := s.edited || ((s.kept || kept) && db.mappings.any fun m => m.key == row.key && (m.localDirty || m.localDeleted))

/-- A resolution about the mapping was accepted. -/
def accepted (row : Mapping) : Except AppError SyncConflict → Bool
  | .ok c => c.mappingId == row.id
  | .error _ => false

/-- What others do at any time, a synchronization running or not. -/
inductive Others (toLowercase : String → String) (row : Mapping) (running : Bool) (w : Watched Story) : Watched Story → Prop
  | edit (op : LocalOp) : Others toLowercase row running w
    ⟨op.perform toLowercase running w.db, w.notes.after row false (op.perform toLowercase running w.db)⟩
  | resolve (conflict : Uuid) (resolution : String) (result : Except AppError SyncConflict × Db) :
    Tx.commit (resolveSyncConflict running conflict resolution) w.db = result →
    Others toLowercase row running w ⟨result.2, w.notes.after row (accepted row result.1) result.2⟩
  | policy (p : Option SyncConflictPolicy) : Others toLowercase row running w ⟨{ w.db with policy := p }, w.notes⟩
  | cleanup (expired : TaskDeleteUndo → Bool) : (∀ u, expired u = true → u.expiresAt ≤ w.db.now) →
    Others toLowercase row running w ⟨w.db.deleteUndos expired, w.notes⟩
  | tick (t : DateTime) : w.db.now ≤ t → Others toLowercase row running w ⟨{ w.db with now := t }, w.notes⟩

/-- Passes with any answers, cut off and failing anywhere, while the mapping of a deletion is watched. -/
def observer (toLowercase : String → String) (row : Mapping) : Observer Story where
  note _ _ _ story := story
  answers q w r story := story = match r with
    | .ok response =>
      { w.notes with deleted := w.notes.deleted || reports row.externalCalendarId row.externalEventId q response }
    | .error _ => w.notes
  allowed _ _ := True
  fault _ _ := True
  others running := Others toLowercase row running

/-! ## What is kept -/

/-- A reversibly deleted row, while it is held. -/
def Held (row m : Mapping) : Prop := m = { row with conflictState := m.conflictState }

/-- What holds of a watched deletion. -/
structure Safe (row : Mapping) (cs : List SyncCalendar) (w : Watched Story) : Prop where
  valid : w.db.Valid
  addressed : w.db.Addressed
  listed : ∀ c ∈ cs, w.db.Listed c
  order : w.notes.edited = true → w.notes.kept = true
  held : w.notes.deleted = false → w.notes.kept = false → ∃ m ∈ w.db.mappings, Held row m
  settled : w.notes.deleted = false → w.notes.kept = true → w.notes.edited = false →
    ∀ m ∈ w.db.mappings, m.key = row.key → m.Clean

/-- Before an operation: a write to the event is the deletion under the stored etag, after the hold
and with nothing to decide, and none is left once the user has kept the event. -/
def Permitted (row : Mapping) (o : Op) (w : Watched Story) : Prop :=
  ∀ q, o = .http q → q.Writes row.externalCalendarId row.externalEventId →
    w.notes.deleted = false → w.notes.edited = false →
    w.notes.kept = false ∧ q = .deleteEvent row.externalCalendarId row.externalEventId row.externalEtag ∧
      (∀ t, row.deletionHoldUntil = some t → t ≤ w.db.now) ∧
      ∀ m ∈ w.db.mappings, m.id = row.id → m.conflictState = .none

def Before (row : Mapping) (o : Op) (w : Watched Story) : Prop := Safe row [] w ∧ Permitted row o w

/-- The row a deletion leaves. -/
structure Held₀ (row : Mapping) : Prop where
  tombstone : row.reversibleTombstone = true
  deleted : row.localDeleted = true
  event : row.canonicalEventId = none
  undecided : row.deleteResolutionPending = false

section Facts

variable {row m m' : Mapping} {cs : List SyncCalendar} {w w' : Watched Story} {db' : Db}
  {toLowercase : String → String}

theorem Held.id (h : Held row m) : m.id = row.id := by
  rw [h]

theorem Held.key (h : Held row m) : m.key = row.key := by
  rw [h]
  rfl

theorem Held.kept (h : Held row m) (h₀ : Held₀ row) (hk : m.Kept m') : Held row m' := by
  have hc : m'.canonicalEventId = row.canonicalEventId := by
    rcases hk.canonical with hc | hc
    · rw [hc, h]
    · rw [hc, h₀.event]
  unfold Held
  rw [hk.row, hc, h]

theorem Safe.mono (h : Safe row cs w) (ds : List SyncCalendar) (hd : ∀ c ∈ ds, w.db.Listed c) : Safe row ds w :=
  { h with listed := hd }

/-- A statement that does not touch the row while it is held. -/
theorem Safe.run (h : Safe row cs w) (h₀ : Held₀ row) {s : Stmt} {v : s.Val} (hr : s.run w.db = .ok (v, db'))
    (hl : s.Located w.db) (ht : w.notes.deleted = false → w.notes.kept = false → ¬ s.Touches row.id) :
    Safe row cs ⟨db', w.notes⟩ where
  valid := Stmt.run_valid hr h.valid
  addressed := Stmt.run_addressed hr h.addressed hl
  listed := fun c hc => Stmt.run_listed hr (h.listed c hc)
  order := h.order
  held := by
    intro hd hk
    obtain ⟨m, hm, hheld⟩ := h.held hd hk
    obtain ⟨m', hm', hkept⟩ := Stmt.run_row hr hm (by rw [hheld.id]; exact ht hd hk) (by rw [hheld]; exact h₀.undecided)
    exact ⟨m', hm', hheld.kept h₀ hkept⟩
  settled := by
    intro hd hk he m' hm' hkey
    rcases Stmt.run_clean hr m' hm' with hc | ⟨m, hm, hmk, hc⟩
    · exact hc
    · exact hc (h.settled hd hk he m hm (hmk.symm.trans hkey))

/-- What was not noted leaves the rows of the event clean. -/
theorem clean_of_after {kept : Bool} {db : Db} {story : Story} (hk : (story.after row kept db).kept = true)
    (he : (story.after row kept db).edited = false) : ∀ m ∈ db.mappings, m.key = row.key → m.Clean := by
  intro m hm hkey
  simp only [Story.after, Bool.or_eq_false_iff, Bool.and_eq_false_iff] at he
  rcases he.2 with hno | hno
  · simp only [Story.after] at hk
    rw [hno.1, hno.2] at hk
    cases hk
  · have := List.any_eq_false.1 hno m hm
    simp only [hkey, beq_self_eq_true, Bool.true_and, Bool.not_eq_true, Bool.or_eq_false_iff] at this
    exact this

theorem after_order {kept : Bool} {db : Db} {story : Story} (h : story.edited = true → story.kept = true) :
    (story.after row kept db).edited = true → (story.after row kept db).kept = true := by
  intro he
  simp only [Story.after, Bool.or_eq_true, Bool.and_eq_true] at he ⊢
  rcases he with he | he
  · exact .inl (h he)
  · exact he.1

/-- The tables change in three columns at most that matter here. -/
theorem Safe.congr (h : Safe row cs w) (hv : db'.Valid) (hc : db'.calendars = w.db.calendars)
    (hm : db'.mappings = w.db.mappings) : Safe row cs ⟨db', w.notes⟩ where
  valid := hv
  addressed := h.addressed.of hc fun m hmem => ⟨m, hm ▸ hmem, rfl, rfl⟩
  listed := by
    intro c hcs
    obtain ⟨r, hr, hrest⟩ := h.listed c hcs
    exact ⟨r, hc ▸ hr, hrest⟩
  order := h.order
  held := by
    rw [hm]
    exact h.held
  settled := by
    rw [hm]
    exact h.settled

theorem Safe.edited (h : Safe row cs w) (h₀ : Held₀ row) (hv : db'.Valid) (he : w.db.Edited db') :
    Safe row cs ⟨db', w.notes.after row false db'⟩ where
  valid := hv
  addressed := h.addressed.edited he
  listed := fun c hc => (h.listed c hc).edited he
  order := after_order h.order
  held := by
    intro hd hk
    simp only [Story.after, Bool.or_false] at hd hk
    obtain ⟨m, hm, hheld⟩ := h.held hd hk
    obtain ⟨m', hm', hr⟩ := he.kept m hm
    rw [hr.frozen (by rw [hheld]; exact h₀.event)] at hm'
    exact ⟨m, hm', hheld⟩
  settled := fun _ hk he => clean_of_after hk he

/-- An accepted resolution. -/
theorem Safe.resolved (h : Safe row cs w) {locked : Bool} {conflict : Uuid} {resolution : String} {a : SyncConflict}
    (hr : resolveSyncConflict locked conflict resolution w.db = .ok (a, db')) :
    Safe row cs ⟨db', w.notes.after row (accepted row (.ok a)) db'⟩ := by
  have hv := Valid.resolve h.valid hr
  obtain ⟨c, x, r, -, hx, -, -, rfl, undos, jobs, rfl⟩ := resolveSyncConflict_ok h.valid hr
  obtain ⟨-, hxid⟩ := h.valid.mapping?_eq_some.1 hx
  refine ⟨hv, ?_, h.listed, after_order h.order, ?_, fun _ hk he => clean_of_after hk he⟩
  · refine h.addressed.of rfl fun m' hm' => ?_
    rcases mem_update.1 hm' with ⟨hm', -⟩ | ⟨m, hm, -, rfl⟩
    · exact ⟨m', hm', rfl, rfl⟩
    · refine ⟨m, hm, ?_⟩
      unfold resolvedRow resolveMapping
      split <;> exact ⟨rfl, rfl⟩
  · intro hd hk
    simp only [Story.after, Bool.or_eq_false_iff] at hd hk
    obtain ⟨m, hm, hheld⟩ := h.held hd hk.1
    refine ⟨m, mem_update.2 (.inl ⟨hm, ?_⟩), hheld⟩
    -- the conflict that is resolved is about another mapping
    rw [hheld.id, hxid]
    have hne : (c.mappingId == row.id) = false := hk.2
    rw [beq_eq_false_iff_ne] at hne ⊢
    exact hne.symm

theorem Safe.others (h : Safe row cs w) (h₀ : Held₀ row) {running : Bool}
    (ho : Others toLowercase row running w w') : Safe row cs w' := by
  cases ho with
  | edit op =>
    obtain ⟨hv, he⟩ := op.edited toLowercase running w.db h.valid
    exact h.edited h₀ hv he
  | resolve conflict resolution result hres =>
    subst hres
    unfold Tx.commit
    split
    · exact h.resolved ‹_›
    · refine ⟨h.valid, h.addressed, h.listed, after_order h.order, ?_, fun _ hk he => clean_of_after hk he⟩
      intro hd hk
      simp only [Story.after, Bool.or_eq_false_iff] at hd hk
      exact h.held hd hk.1
  | policy p => exact h.congr (h.valid.congr rfl rfl rfl rfl le_rfl) rfl rfl
  | cleanup expired _ => exact h.congr (h.valid.deleteUndos _) rfl rfl
  | tick t _ => exact h.congr (h.valid.congr rfl rfl rfl rfl le_rfl) rfl rfl

theorem stable_safe (h₀ : Held₀ row) (cs : List SyncCalendar) : Stable (observer toLowercase row).system (Safe row cs) :=
  fun _ _ h ho => h.others h₀ ho

theorem answered_safe (cs : List SyncCalendar) : Observer.Answered (observer toLowercase row) (Safe row cs) := by
  rintro q w r t story h - hr
  have hmore : story.deleted = false → w.notes.deleted = false := by
    intro hd
    cases r with
    | ok response =>
      rw [hr] at hd
      exact (Bool.or_eq_false_iff.1 hd).1
    | error e =>
      rw [hr] at hd
      exact hd
  have hrest : story.kept = w.notes.kept ∧ story.edited = w.notes.edited := by
    cases r with
    | ok response => rw [hr]; exact ⟨rfl, rfl⟩
    | error e => rw [hr]; exact ⟨rfl, rfl⟩
  refine ⟨h.valid.congr rfl rfl rfl rfl le_rfl, h.addressed, h.listed, ?_, ?_, ?_⟩
  · rw [hrest.1, hrest.2]
    exact h.order
  · intro hd hk
    rw [hrest.1] at hk
    exact h.held (hmore hd) hk
  · intro hd hk he
    rw [hrest.1] at hk
    rw [hrest.2] at he
    exact h.settled (hmore hd) hk he

end Facts

/-! ## Through a pass -/

section Pass

variable {row : Mapping} {cs : List SyncCalendar} {c : SyncCalendar} {toLowercase : String → String}

/-- An answer that reports the event deleted is noted. -/
abbrev Reported (row : Mapping) (q : Request) (r : Response q.Body) (w : Watched Story) : Prop :=
  reports row.externalCalendarId row.externalEventId q r = true → w.notes.deleted = true

theorem deleted_of_others {w w' : Watched Story} {running : Bool} (ho : Others toLowercase row running w w') :
    w'.notes.deleted = w.notes.deleted := by
  cases ho <;> rfl

theorem lasting_deleted : Lasting (observer toLowercase row).system fun w => w.notes.deleted = true where
  stable := by
    intro w w' hd ho
    rw [deleted_of_others ho]
    exact hd
  step := by
    rintro (s | q) w r w' hstep hd
    · rcases hstep with ⟨-, v, db', -, -, rfl⟩ | ⟨-, -, rfl⟩
      · exact hd
      · exact hd
    · obtain ⟨t, story, -, hr, rfl⟩ := hstep
      show story.deleted = true
      cases r with
      | ok response =>
        rw [hr]
        exact Bool.or_eq_true_iff.2 (.inl hd)
      | error e =>
        rw [hr]
        exact hd

theorem lasting_reported (q : Request) (r : Response q.Body) :
    Lasting (observer toLowercase row).system (Reported row q r) where
  stable := fun w w' h ho hr => lasting_deleted.stable w w' (h hr) ho
  step := fun o w x w' hs h hr => lasting_deleted.step o w x w' hs (h hr)

theorem learnt {q : Request} {w : Watched Story} {r : Response q.Body} {t : DateTime} {story : Story}
    (h : (observer toLowercase row).answers q w (.ok r) story) : Reported row q r ⟨{ w.db with now := t }, story⟩ := by
  intro hr
  show story.deleted = true
  rw [show story = _ from h]
  exact Bool.or_eq_true_iff.2 (.inr hr)

/-- A delivered cancellation of an event was reported. -/
theorem reports_of_answer {event : GoogleEvent} {q : Request} {r : Response q.Body} (hs : Source c event q r)
    {calendar x y : String} (hid : event.id = some x) (hcal : c.externalId = calendar) (hx : x = y)
    (hc : event.cancelled = true) : reports calendar y q r = true := by
  subst hx
  cases hs with
  | listed hstatus hmem =>
    simp only [reports, hcal, beq_self_eq_true, hstatus, decide_false, Bool.not_false, Bool.and_self, Bool.true_and]
    exact List.any_eq_true.2 ⟨event, hmem, by simp [hid, hc]⟩
  | got hstatus hgot =>
    simp [reports, hcal, hstatus, hid, hc]

theorem reports_of_source {event : GoogleEvent} {q : Request} {r : Response q.Body} (hs : Source c event q r)
    {x : String} (hid : event.id = some x) (hkey : (c.externalId, x) = row.key) (hc : event.cancelled = true) :
    reports row.externalCalendarId row.externalEventId q r = true := by
  obtain ⟨hcal, hx⟩ : c.externalId = row.externalCalendarId ∧ x = row.externalEventId := Prod.mk.inj hkey
  exact reports_of_answer hs hid hcal hx hc

/-- Outside the push, no request writes to the event. -/
theorem before_sql (s : Stmt) {w : Watched Story} (h : Safe row cs w) : Before row (.sql s) w :=
  ⟨h.mono [] (by simp), fun q hq => by cases hq⟩

theorem before_http {q : Request} (hq : ¬ q.Writes row.externalCalendarId row.externalEventId) {w : Watched Story}
    (h : Safe row cs w) : Before row (.http q) w := by
  refine ⟨h.mono [] (by simp), ?_⟩
  rintro q' ⟨⟩ hw
  exact absurd hw hq

/-- A statement of a pass that does not touch the row. -/
theorem keeps_statement (h₀ : Held₀ row) {s : Stmt} (hl : ∀ w, Safe row cs w → s.Located w.db) (ht : ¬ s.Touches row.id) :
    Keeps (observer toLowercase row).system (Before row) (Safe row cs) (sql s) :=
  Observer.keeps_sql (stable_safe h₀ cs) (fun _ hw => before_sql s hw) fun w _ _ hw _ hrun =>
    hw.run h₀ hrun (hl w hw) fun _ _ => ht

/-- What a delivery has read of the mapping, while it is held. -/
def ReadHeld (row : Mapping) (event : GoogleEvent) (m : Option MappingState) (w : Watched Story) : Prop :=
  w.notes.deleted = false → w.notes.kept = false →
    ∀ st, m = some st → st.id = row.id → st.reversibleTombstone = true ∧ event.cancelled = false

theorem ReadHeld.back {event : GoogleEvent} {m : Option MappingState} {w w' : Watched Story}
    (h : ReadHeld row event m w) (hd : w'.notes.deleted = false → w.notes.deleted = false)
    (hk : w'.notes.kept = false → w.notes.kept = false) : ReadHeld row event m w' :=
  fun hd' hk' => h (hd hd') (hk hk')

theorem kept_of_others {w w' : Watched Story} {running : Bool} (ho : Others toLowercase row running w w')
    (hk : w'.notes.kept = false) : w.notes.kept = false := by
  cases ho with
  | edit | resolve => exact (Bool.or_eq_false_iff.1 hk).1
  | policy | cleanup | tick => exact hk

theorem stable_readHeld (event : GoogleEvent) (m : Option MappingState) :
    Stable (observer toLowercase row).system (ReadHeld row event m) := by
  intro w w' h ho
  refine h.back ?_ (kept_of_others ho)
  rw [deleted_of_others ho]
  exact fun h => h

/-- What an exit does to the row while it is held: nothing but a conflict. -/
theorem not_touches_exit {event : GoogleEvent} {x : String} {setting : Option SyncConflictPolicy} {m : Option MappingState}
    {s : Stmt} (hs : Exit.Runs c event (exitOf x event setting m) s)
    (h : ∀ st, m = some st → st.id = row.id → st.reversibleTombstone = true ∧ event.cancelled = false) :
    ¬ s.Touches row.id := by
  intro ht
  obtain ⟨st, hst, hid⟩ := hs.touches ht
  obtain rfl := exitOf_state hst
  obtain ⟨htomb, hlive⟩ := h st rfl hid
  simp only [exitOf, htomb, if_true, exitTombstone, hlive, Bool.false_eq_true, if_false] at hs
  split at hs
  · cases hs <;> exact ht
  · cases hs
    exact ht

theorem holds_applied (h₀ : Held₀ row) (hc : c ∈ cs) {event : GoogleEvent} {q : Request} {r : Response q.Body}
    (hsource : Source c event q r) {w : Watched Story} (hw : Safe row cs w) (hreported : Reported row q r w) :
    Holds (observer toLowercase row).system (Before row) (fun _ w => Safe row cs w) (applyRemoteEvent c event) w := by
  have hstable : Stable (observer toLowercase row).system (Safe row cs) := stable_safe h₀ cs
  refine Observer.holds_applyRemoteEvent (A := fun w => Safe row cs w ∧ Reported row q r w)
    (R := fun m w => (Safe row cs w ∧ Reported row q r w) ∧ ReadHeld row event m w)
    (hstable.and (lasting_reported q r).stable)
    (fun m => (hstable.and (lasting_reported q r).stable).and (stable_readHeld event m))
    (fun _ _ h => h.1) (fun _ _ _ h => before_sql _ h.1) ?_ (fun s w e h _ => holds_fail hstable (fun _ h => h) h.1)
    (fun _ _ h => h.1) (fun _ h => before_sql _ h.1) (fun _ _ h => h) ?_ ⟨hw, hreported⟩
  · rintro x w hid ⟨hw, hreported⟩
    refine ⟨⟨hw, hreported⟩, ?_⟩
    intro hd hk st hst hid'
    replace hd : w.notes.deleted = false := hd
    obtain ⟨m, hm, rfl⟩ := Option.map_eq_some_iff.1 hst
    obtain ⟨hmem, hmc, hmx⟩ := hw.valid.mappingAt?_eq_some.1 hm
    obtain ⟨held, hheld, hrow⟩ := hw.held hd hk
    obtain rfl : m = held := hw.valid.mappingIds.eq hmem hheld (k := row.id) (by rw [← hid']; rfl) (by rw [hrow.id])
    refine ⟨by rw [hrow]; exact h₀.tombstone, ?_⟩
    by_contra hcancelled
    have hkey : (c.externalId, x) = row.key := by rw [← hrow.key, Mapping.key, hmc, hmx]
    have := hreported (reports_of_source hsource hid hkey (by simpa using hcancelled))
    rw [this] at hd
    cases hd
  · rintro x m w hid ⟨⟨hw, -⟩, hread⟩
    have hA : Stable (observer toLowercase row).system fun w => Safe row cs w ∧ ReadHeld row event m w :=
      hstable.and (stable_readHeld event m)
    refine (Observer.keeps_only hA (P := Exit.Runs c event (exitOf x event w.db.policy m)) ?_ ?_
      (Exit.perform_only c event _) w ⟨hw, hread⟩).mono (fun _ _ h => h) fun _ _ h => h.1
    · exact fun s w _ h => before_sql s h.1
    · intro s w v db' hs h _ hrun
      exact ⟨h.1.run h₀ hrun (hs.located h.1.valid (h.1.listed c hc)) fun hd hk => not_touches_exit hs (h.2 hd hk), h.2⟩

/-- What a push has read of a mapping. -/
structure Pushing (row : Mapping) (c : SyncCalendar) (d : DirtyMapping) (w : Watched Story) : Prop where
  own : w.notes.deleted = false → w.notes.kept = false → d.mappingId = row.id → (c.externalId, d.externalEventId) = row.key
  due : w.notes.deleted = false → w.notes.edited = false → (c.externalId, d.externalEventId) = row.key →
    w.notes.kept = false ∧ d.localDeleted = true ∧ d.externalEtag = row.externalEtag ∧
      (∀ t, row.deletionHoldUntil = some t → t ≤ w.db.now) ∧ ∀ m ∈ w.db.mappings, m.id = row.id → m.conflictState = .none

/-- The mappings to push: of the watched event, the held row only, and when its deletion is due. -/
theorem pushing_of_dirty (h₀ : Held₀ row) (hc : c ∈ cs) {w : Watched Story} (hw : Safe row cs w) {d : DirtyMapping}
    (hd : d ∈ w.db.selectDirty c.id) : Pushing row c d w := by
  obtain ⟨m, hm, rfl⟩ := List.mem_map.1 hd
  obtain ⟨hm, hp⟩ := List.mem_filter.1 hm
  simp only [Db.pushable, Bool.and_eq_true, beq_iff_eq] at hp
  obtain ⟨⟨⟨⟨hcal, hflags⟩, hnone⟩, -⟩, hhold⟩ := hp
  have hkey : m.key = (c.externalId, m.externalEventId) := hw.addressed.key hm (hw.listed c hc) hcal
  constructor
  · intro hdel hkept hid
    obtain ⟨held, hheld, hrow⟩ := hw.held hdel hkept
    obtain rfl : m = held := hw.valid.mappingIds.eq hm hheld (k := row.id) (by rw [← hid]; rfl) (by rw [hrow.id])
    exact hkey.symm.trans hrow.key
  · intro hdel hedit hdkey
    have hmkey : m.key = row.key := hkey.trans hdkey
    have hkept : w.notes.kept = false := by
      by_contra hk
      have hclean := hw.settled hdel (by simpa using hk) hedit m hm hmkey
      rw [hclean.1, hclean.2] at hflags
      cases hflags
    obtain ⟨held, hheld, hrow⟩ := hw.held hdel hkept
    obtain rfl : m = held := hw.valid.mappingKeys.eq hm hheld (k := row.key) (congrArg some hmkey) (congrArg some hrow.key)
    refine ⟨hkept, ?_, ?_, ?_, ?_⟩
    · show m.localDeleted = true
      rw [hrow]
      exact h₀.deleted
    · show m.externalEtag = row.externalEtag
      rw [hrow]
    · intro t ht
      have hmt : m.deletionHoldUntil = some t := by
        rw [hrow]
        exact ht
      rw [hmt] at hhold
      simpa using hhold
    · intro x hx hid
      obtain rfl : x = m := hw.valid.mappingIds.eq hx hm (k := row.id) (by rw [hid]) (by rw [hrow.id])
      exact hnone

/-- Meanwhile others wait, or change nothing of it. -/
theorem Pushing.others {d : DirtyMapping} {w w' : Watched Story} (hp : Pushing row c d w) (h₀ : Held₀ row)
    (hw : Safe row cs w) (ho : Others toLowercase row true w w') : Pushing row c d w' := by
  have hdeleted := deleted_of_others ho
  refine ⟨fun hd hk => hp.own (hdeleted ▸ hd) (kept_of_others ho hk), ?_⟩
  intro hd he hkey
  have hback : w.notes.edited = false := by
    cases ho with
    | edit | resolve => exact (Bool.or_eq_false_iff.1 he).1
    | policy | cleanup | tick => exact he
  rw [hdeleted] at hd
  obtain ⟨hkept, hdel, hetag, hhold, hnone⟩ := hp.due hd hback hkey
  cases ho with
  | edit op =>
    obtain ⟨-, hedited⟩ := op.edited toLowercase true w.db hw.valid
    refine ⟨by simp [Story.after, hkept], hdel, hetag, ?_, ?_⟩
    · intro t ht
      exact (hhold t ht).trans hedited.now.ge
    · intro m' hm' hid
      obtain ⟨m, hm, hr⟩ := hedited.origin m' hm'
      rw [hr.conflictState]
      exact hnone m hm (hr.id.symm.trans hid)
  | resolve conflict resolution result hres =>
    subst hres
    unfold Tx.commit
    split
    · rename_i a db' hr
      obtain ⟨x, k, r, -, hk, -, hlocked, rfl, undos, jobs, rfl⟩ := resolveSyncConflict_ok hw.valid hr
      obtain ⟨hkmem, hkid⟩ := hw.valid.mapping?_eq_some.1 hk
      refine ⟨?_, hdel, hetag, hhold, ?_⟩
      · -- the held row is not released while a synchronization runs
        have hno : (x.mappingId == row.id) = false := by
          rw [beq_eq_false_iff_ne]
          intro hx
          obtain ⟨held, hheld, hrow⟩ := hw.held hd hkept
          obtain rfl : k = held :=
            hw.valid.mappingIds.eq hkmem hheld (k := row.id) (by rw [hkid, hx]) (by rw [hrow.id])
          have := (hlocked (by rw [hrow]; exact h₀.tombstone)).2
          cases this
        simp only [Story.after, accepted, resolvedConflict, hkept, hno, Bool.or_self]
      · intro m' hm' hid
        rcases mem_update.1 hm' with ⟨hm', -⟩ | ⟨m, hm, -, rfl⟩
        · exact hnone m' hm' hid
        · unfold resolvedRow resolveMapping
          rfl
    · exact ⟨by simp [Story.after, accepted, hkept], hdel, hetag, hhold, hnone⟩
  | policy p => exact ⟨hkept, hdel, hetag, hhold, hnone⟩
  | cleanup expired _ => exact ⟨hkept, hdel, hetag, hhold, hnone⟩
  | tick t ht => exact ⟨hkept, hdel, hetag, fun u hu => (hhold u hu).trans ht, hnone⟩

/-- What holds while a list of mappings is pushed. -/
def PushingAll (row : Mapping) (cs : List SyncCalendar) (c : SyncCalendar) (ds : List DirtyMapping) (w : Watched Story) : Prop :=
  Safe row cs w ∧ ∀ d ∈ ds, Pushing row c d w

theorem stable_pushing (h₀ : Held₀ row) (ds : List DirtyMapping) :
    Stable (observer toLowercase row).system (PushingAll row cs c ds) :=
  fun _ _ h ho => ⟨h.1.others h₀ ho, fun d hd => (h.2 d hd).others h₀ h.1 ho⟩

theorem answered_pushing (ds : List DirtyMapping) :
    Observer.Answered (observer toLowercase row) (PushingAll row cs c ds) := by
  intro q w r t story h ht hr
  refine ⟨answered_safe cs q w r t story h.1 ht hr, ?_⟩
  have hback : (story.deleted = false → w.notes.deleted = false) ∧ story.kept = w.notes.kept ∧
      story.edited = w.notes.edited := by
    cases r with
    | ok response =>
      rw [hr]
      exact ⟨fun h => (Bool.or_eq_false_iff.1 h).1, rfl, rfl⟩
    | error e =>
      rw [hr]
      exact ⟨fun h => h, rfl, rfl⟩
  intro d hd
  have hp := h.2 d hd
  refine ⟨fun hdel hk => hp.own (hback.1 hdel) (hback.2.1 ▸ hk), ?_⟩
  intro hdel he hkey
  obtain ⟨hkept, hd, hetag, hhold, hnone⟩ := hp.due (hback.1 hdel) (hback.2.2 ▸ he) hkey
  exact ⟨hback.2.1 ▸ hkept, hd, hetag, fun u hu => (hhold u hu).trans ht, hnone⟩

/-- A statement of the push of a mapping. -/
theorem PushingAll.run {ds : List DirtyMapping} {w : Watched Story} (h : PushingAll row cs c ds w) (h₀ : Held₀ row)
    {s : Stmt} {v : s.Val} {db' : Db} (hr : s.run w.db = .ok (v, db')) (hl : s.Located w.db)
    (ht : w.notes.deleted = false → w.notes.kept = false → ¬ s.Touches row.id)
    (hstate : ∀ m' ∈ db'.mappings, ∃ m ∈ w.db.mappings, m'.id = m.id ∧ m'.conflictState = m.conflictState)
    (hnow : db'.now = w.db.now) : PushingAll row cs c ds ⟨db', w.notes⟩ := by
  refine ⟨h.1.run h₀ hr hl ht, fun d hd => ?_⟩
  have hp := h.2 d hd
  refine ⟨hp.own, ?_⟩
  intro hdel he hkey
  obtain ⟨hkept, hd, hetag, hhold, hnone⟩ := hp.due hdel he hkey
  refine ⟨hkept, hd, hetag, ?_, ?_⟩
  · intro t ht
    show t ≤ db'.now
    rw [hnow]
    exact hhold t ht
  · intro m' hm' hid
    obtain ⟨m, hm, hmid, hms⟩ := hstate m' hm'
    rw [hms]
    exact hnone m hm (hmid.symm.trans hid)

/-- A push never changes the held row's event: what it has read of it is a deletion. -/
theorem PushingAll.deletes {ds : List DirtyMapping} {d : DirtyMapping} (hd : d ∈ ds) {w : Watched Story}
    (h : PushingAll row cs c ds w) (hdel : w.notes.deleted = false) (hkept : w.notes.kept = false)
    (hid : d.mappingId = row.id) : (c.externalId, d.externalEventId) = row.key ∧ d.localDeleted = true := by
  have hkey := (h.2 d hd).own hdel hkept hid
  have hedit : w.notes.edited = false := by
    by_contra he
    have := h.1.order (by simpa using he)
    rw [hkept] at this
    cases this
  exact ⟨hkey, ((h.2 d hd).due hdel hedit hkey).2.1⟩

theorem keeps_pushDirty (h₀ : Held₀ row) {ds : List DirtyMapping} {d : DirtyMapping} (hd : d ∈ ds) :
    Keeps (observer toLowercase row).system (Before row) (PushingAll row cs c ds) (pushDirty c d) := by
  have hstable : Stable (observer toLowercase row).system (PushingAll row cs c ds) := stable_pushing h₀ ds
  have hanswer : Observer.Answered (observer toLowercase row) (PushingAll row cs c ds) := answered_pushing ds
  have hactivity : ∀ kind message, Keeps (observer toLowercase row).system (Before row) (PushingAll row cs c ds)
      (recordActivity kind message) := by
    intro kind message
    refine Observer.keeps_sql hstable (fun w hw => before_sql _ hw.1) ?_
    intro w v db' hw _ hrun
    refine hw.run h₀ hrun trivial (fun _ _ => id) ?_ ?_
    all_goals cases hrun
    · exact fun m hm => ⟨m, hm, rfl, rfl⟩
    · rfl
  unfold pushDirty
  split
  · rename_i event hlive _
    refine (Observer.keeps_sendJson hstable hanswer ?_).bind fun remote =>
      Keeps.bind (Observer.keeps_sql hstable (fun w hw => before_sql _ hw.1) ?_) fun _ => hactivity _ _
    · intro w hw
      refine ⟨hw.1.mono [] (by simp), ?_⟩
      rintro q ⟨⟩ ⟨hcal, hx⟩ hdel hedit
      have hdeleted := ((hw.2 d hd).due hdel hedit (by rw [hcal, hx]; rfl)).2.1
      rw [hlive] at hdeleted
      cases hdeleted
    · intro w v db' hw _ hrun
      refine hw.run h₀ hrun trivial ?_ ?_ ?_
      · intro hdel hkept hid
        have hdeleted := (hw.deletes hd hdel hkept hid).2
        rw [hlive] at hdeleted
        cases hdeleted
      all_goals cases hrun
      rotate_left
      · rfl
      · intro m hm
        rcases mem_update.1 hm with ⟨hm, -⟩ | ⟨x, hx, -, rfl⟩
        · exact ⟨m, hm, rfl, rfl⟩
        · exact ⟨x, hx, rfl, rfl⟩
  · intro w hw
    have hdelete : ∀ r : Response (Request.deleteEvent c.externalId d.externalEventId d.externalEtag).Body,
        (r.status = 404 ∨ ¬ (400 ≤ r.status ∧ r.status < 600)) →
        Keeps (observer toLowercase row).system (Before row) (fun w => PushingAll row cs c ds w ∧ Reported row _ r w)
          (sql (.deleteMapping d.mappingId)) := by
      intro r hstatus
      refine Observer.keeps_sql (hstable.and (lasting_reported _ r).stable) (fun w hw => before_sql _ hw.1.1) ?_
      rintro w v db' ⟨hw, hreported⟩ _ hrun
      refine ⟨hw.run h₀ hrun trivial ?_ ?_ ?_, hreported⟩
      rotate_left
      · cases hrun
        exact fun m hm => ⟨m, (mem_delete.1 hm).1, rfl, rfl⟩
      · cases hrun
        rfl
      intro hdel hkept hid
      -- the answer to the deletion of the held event was noted
      have hkey := (hw.deletes hd hdel hkept hid).1
      have hgone : w.notes.deleted = true := by
        refine hreported ?_
        obtain ⟨hcal, hx⟩ : c.externalId = row.externalCalendarId ∧ d.externalEventId = row.externalEventId :=
          Prod.mk.inj hkey
        rcases hstatus with hstatus | hstatus
        · simp [reports, hcal, hx, hstatus]
        · simp [reports, hcal, hx, hstatus]
      rw [hdel] at hgone
      cases hgone
    have hend : ∀ r, (r.status = 404 ∨ ¬ (400 ≤ r.status ∧ r.status < 600)) → ∀ w, PushingAll row cs c ds w →
        Reported row (.deleteEvent c.externalId d.externalEventId d.externalEtag) r w →
        Holds (observer toLowercase row).system (Before row) (fun _ w => PushingAll row cs c ds w) (do
          sql (.deleteMapping d.mappingId)
          recordActivity "local_event_deleted" "Deleted a Google event from Prosepect") w := by
      intro r hstatus w hw hreported
      refine Holds.bind (B := fun _ w => PushingAll row cs c ds w ∧ Reported row _ r w) ?_ (fun _ _ h => h.1)
        (hdelete r hstatus w ⟨hw, hreported⟩)
      exact fun _ w hw => hactivity _ _ w hw.1
    refine Holds.bind ?_ (fun _ _ h => h.1) (Observer.holds_send hstable hanswer ?_
      (fun r => (lasting_reported (.deleteEvent c.externalId d.externalEventId d.externalEtag) r).stable)
      (fun w r t story _ _ hr => learnt hr) 3 w hw)
    · rintro response w ⟨hw, hlearnt⟩
      have hreported := hlearnt response rfl
      by_cases hgone : response.status = 404
      · rw [if_pos hgone]
        exact hend response (.inl hgone) w hw hreported
      · rw [if_neg hgone]
        unfold errorForStatus
        by_cases herror : 400 ≤ response.status ∧ response.status < 600
        · rw [if_pos herror]
          exact holds_fail hstable (fun _ h => h) hw
        · rw [if_neg herror]
          exact hend response (.inr herror) w hw hreported
    · intro w hw
      refine ⟨hw.1.mono [] (by simp), ?_⟩
      rintro q ⟨⟩ ⟨hcal, hx⟩ hdel hedit
      obtain ⟨hkept, -, hetag, hhold, hnone⟩ := (hw.2 d hd).due hdel hedit (by rw [hcal, hx]; rfl)
      exact ⟨hkept, by rw [hcal, hx, hetag], hhold, hnone⟩

theorem keeps_pushUnmapped (h₀ : Held₀ row) (hc : c ∈ cs) (event : LocalEvent) :
    Keeps (observer toLowercase row).system (Before row) (Safe row cs) (pushUnmapped c event) := by
  refine (pushUnmapped_only c event).keeps (stable_safe h₀ cs) ?_ ?_
  · rintro o w ho hw
    cases ho with
    | post => exact before_http id hw
    | get => exact before_http id hw
    | record => exact before_sql _ hw
    | activity => exact before_sql _ hw
  · rintro o w r w' ho hw hstep
    have hsql : ∀ {s : Stmt} {r : Except SqlError s.Val}, (observer toLowercase row).system.step (.sql s) w r w' →
        s.Located w.db → ¬ s.Touches row.id → Safe row cs w' := by
      rintro s r (⟨-, v, db', hrun, -, rfl⟩ | ⟨-, -, rfl⟩) hl ht
      · exact hw.run h₀ hrun hl fun _ _ => ht
      · exact hw
    cases ho with
    | post | get =>
      obtain ⟨t, story, ht, hr, rfl⟩ := hstep
      exact answered_safe cs _ w r t story hw ht hr
    | record => exact hsql hstep ((hw.listed c hc).located hw.valid) id
    | activity => exact hsql hstep trivial id

theorem keeps_pushCalendar (h₀ : Held₀ row) (hc : c ∈ cs) :
    Keeps (observer toLowercase row).system (Before row) (Safe row cs) (pushCalendar c) := by
  have hstable : Stable (observer toLowercase row).system (Safe row cs) := stable_safe h₀ cs
  have hfail : ∀ e w, Safe row cs w →
      Holds (observer toLowercase row).system (Before row) (fun _ w => Safe row cs w) (.fail e : Sync Unit) w :=
    fun e w hw => holds_fail hstable (fun _ h => h) hw
  refine Keeps.bind (keeps_statement h₀ (fun _ _ => trivial) id) fun unmapped =>
    Keeps.bind (Keeps.forEach hstable fun event _ => keeps_pushUnmapped h₀ hc event) fun _ => ?_
  intro w hw
  refine Observer.holds_sql hstable (fun w hw => before_sql _ hw) ?_ (fun w e hw _ => hfail e w hw) hw
  intro w dirty db' hw _ hrun
  cases hrun
  have hpush : Keeps (observer toLowercase row).system (Before row) (PushingAll row cs c (w.db.selectDirty c.id))
      (Prog.forEach (pushDirty c) (w.db.selectDirty c.id)) :=
    Keeps.forEach (stable_pushing h₀ _) fun d hd => keeps_pushDirty h₀ hd
  exact (hpush w ⟨hw, fun d hd => pushing_of_dirty h₀ hc hw hd⟩).mono (fun _ _ h => h) fun _ _ h => h.1

/-- A pass keeps the deletion safe. -/
theorem kept (h₀ : Held₀ row) : Kept (observer toLowercase row) (Before row) (Safe row) (Reported row) where
  stable := stable_safe h₀
  answered := answered_safe
  lasting := lasting_reported
  learnt := fun _ _ _ _ _ _ _ _ hr => learnt hr
  forget := fun cs w hw => hw.mono [] (by simp)
  reading := by
    intro cs q w hq hw
    refine before_http ?_ hw
    cases q with
    | putEvent | deleteEvent | postEvent => cases hq
    | listEvents | getEvent | accessToken => exact id
  selecting := fun _ _ hw => before_sql _ hw
  selected := by
    intro only w cs db' hw hrun
    obtain ⟨hsel, rfl⟩ := Stmt.selectCalendars_ok hrun
    refine hw.mono _ ?_
    intro c hc
    obtain ⟨r, hr, hs, -, hid, hx, -⟩ := Db.mem_selectCalendars hsel hc
    exact ⟨r, hr, hid, hs, hx⟩
  keeping := fun _ _ _ _ hw => before_sql _ hw
  kept := by
    intro cs s w v db' hs hw hrun
    cases s with
    | setSyncError | setSynced | selectResolutionPending | recordActivity =>
      exact hw.run h₀ hrun trivial fun _ _ => id
    | _ => cases hs
  applied := fun cs c hc event q r hsource w hw hreported => holds_applied h₀ hc hsource hw hreported
  dropped := fun cs c hc k => keeps_statement h₀ (fun _ _ => trivial) id
  finished := by
    intro cs c hc token
    refine Keeps.bind (keeps_statement h₀ (fun _ _ => trivial) id) fun unresolved => ?_
    refine .ite (fun _ => .ret (stable_safe h₀ cs) ()) fun _ => ?_
    cases token with
    | some token => exact keeps_statement (s := .setSyncToken c.id token) h₀ (fun _ _ => trivial) id
    | none => exact .ret (stable_safe h₀ cs) ()
  pushed := fun cs c hc => keeps_pushCalendar h₀ hc

end Pass

end Tombstone

/-! ## Every run -/

/-- In every run from these tables the row of a held deletion stays, and writes to its event are permitted. -/
def Tombstone.Secured (toLowercase : String → String) (row : Mapping) (db : Db) : Prop :=
  ∀ c, Reach (observer toLowercase row).system ⟨⟨db, ⟨false, false, false⟩⟩, none⟩ c →
    (c.world.notes.deleted = false → c.world.notes.kept = false → ∃ m ∈ c.world.db.mappings, Held row m) ∧
    ∀ o k, c.thread = some (.op o k) → Permitted row o c.world

/-- A reversible deletion holds the mapping of its event back, and it is safe from then on. -/
theorem tombstone_safe (toLowercase : String → String) {db db₀ : Db} (hv : db.Valid) (ha : db.Addressed)
    {validated : Bool} {task : Uuid} {version : Int} {receipt : TaskDeleteUndo} {k : Uuid}
    (hd : deleteTaskWithUndo false validated task version db = .ok (receipt, db₀)) (hk : receipt.mappingId = some k) :
    ∃ m ∈ db.mappings, ∃ row ∈ db₀.mappings, m.id = k ∧ row.id = k ∧ row.key = m.key ∧
      row.externalEtag = m.externalEtag ∧ m.externalEtag.isSome ∧ row.canonicalEventId = none ∧
      row.deletionHoldUntil = some receipt.expiresAt ∧ Tombstone.Secured toLowercase row db₀ := by
  obtain ⟨m, hm, hid, ⟨calendar, hhold⟩, fingerprint, hrow⟩ := Tombstone.deleteTaskWithUndo_held hd hk
  obtain ⟨hetag, hundecided⟩ : m.externalEtag.isSome ∧ m.deleteResolutionPending = false := by
    simp only [holdable, Bool.and_eq_true, Bool.not_eq_true'] at hhold
    refine ⟨?_, hhold.1.1.2⟩
    cases he : m.externalEtag with
    | none => simp [he] at hhold
    | some etag => rfl
  refine ⟨m, hm, _, hrow, hid, hid, rfl, rfl, hetag, rfl, rfl, ?_⟩
  have h₀ : Tombstone.Held₀ (holdMapping receipt.expiresAt fingerprint m) := ⟨rfl, rfl, rfl, hundecided⟩
  obtain ⟨hv₀, hedited⟩ := edits_deleteTaskWithUndo false validated task version db receipt db₀ hd hv
  have hstart : Tombstone.Safe (holdMapping receipt.expiresAt fingerprint m) [] ⟨db₀, ⟨false, false, false⟩⟩ :=
    ⟨hv₀, ha.edited hedited, by simp, by simp, fun _ _ => ⟨_, hrow, rfl⟩, by simp⟩
  intro c hr
  have hkept : Kept (Tombstone.observer toLowercase (holdMapping receipt.expiresAt fingerprint m)) _ _ _ :=
    Tombstone.kept h₀
  have hinv := hkept.reach (fun w w' h ho => h.others h₀ ho) (fun o w _ h => h.1) hr hstart
  refine ⟨?_, ?_⟩
  · have hsafe : Tombstone.Safe (holdMapping receipt.expiresAt fingerprint m) [] c.world :=
      Inv.world (fun _ h => h) (fun _ _ h => h.1) hinv
    exact hsafe.held
  · rintro o k hthread
    obtain ⟨w, thread⟩ := c
    obtain rfl : thread = _ := hthread
    exact (Inv.at hinv).2

/-- A task in the time block of `planning`. -/
def plannedTask : TaskRow where
  id := 4
  projectId := none
  parentTaskId := none
  title := "Planning"
  description := ""
  dueAt := none
  scheduledStart := some 0
  scheduledEnd := some 3600000000
  status := .todo
  priority := .medium
  recurrence := .none
  labels := []
  remindAt := none
  position := 1024
  completedAt := none
  createdAt := 0
  updatedAt := 0
  version := 1
  recurrenceSourceId := none
  recurrenceDefaults := none
  recurrenceProjectId := none

def plannedTables : Db :=
  { planningTables planningMapping with
    calendars := [{ workCalendar with providerPrimary := true }]
    events := [{ planning with linkedTaskId := some 4 }]
    tasks := [plannedTask] }

/-- The tables without the task and its event. -/
def heldTables : Db := (Tx.commit (deleteTaskWithUndo false false 4 1) plannedTables).2

theorem tombstone_safe_planned : ∃ m ∈ plannedTables.mappings, ∃ row ∈ heldTables.mappings, m.id = 3 ∧ row.id = 3 ∧
    row.key = m.key ∧ row.externalEtag = m.externalEtag ∧ m.externalEtag.isSome ∧ row.canonicalEventId = none ∧
    row.deletionHoldUntil = some undoWindow ∧ Tombstone.Secured String.toLower row heldTables := by
  have ha : plannedTables.Addressed := by
    unfold Db.Addressed
    decide
  have hd : deleteTaskWithUndo false false 4 1 plannedTables =
      .ok (⟨10, 4, "Planning", some 3, undoWindow⟩, heldTables) := rfl
  exact tombstone_safe String.toLower (by decide) ha hd rfl

end Prosepect
