/-
Conflicts nobody has decided, under the policy to ask: from the moment a pull has put a mapping on
hold until a resolution of its conflict is accepted, no step of a synchronization rewrites its event,
writes to the remote event or moves its baseline, whatever is answered, edited, and cut off in
between (`undecided_untouched`).
-/
import Prosepect.Calendar.Tombstones

namespace Prosepect

open Resumption SyncService Store Table Time

namespace Undecided

/-! ## The decision table under the policy to ask -/

/-- A change of the mapping waits to be pushed, as a delivery reads it. -/
def pending (st : MappingState) : Bool := st.localDirty || st.localDeleted || st.reversibleTombstone

/-- The exits of a delivery when there is nobody to decide. -/
inductive Asks (event : GoogleEvent) (st : MappingState) : Exit → Prop
  | skip : Asks event st .skip
  | invalid {message : String} : Asks event st (.invalid message)
  | record {title : String} : pending st = true → Asks event st (.conflict st title)
  | hold : pending st = true → Asks event st (.holdConflict st)
  | drop : st.reversibleTombstone = true → event.cancelled = true → Asks event st (.drop st)
  | remove : st.localDirty = false → st.reversibleTombstone = false → event.cancelled = true → Asks event st (.remove st)
  | overwrite {n : NormalizedEvent} : pending st = false → Asks event st (.overwrite st n)

section Table

variable {x : String} {event : GoogleEvent} {setting : Option SyncConflictPolicy} {st : MappingState}

theorem asks_exitOf (hask : setting.getD .ask = .ask) (hnone : st.pendingResolution = none) :
    Asks event st (exitOf x event setting (some st)) := by
  have hpolicy : policyInForce setting st = .ask := by
    unfold policyInForce
    rw [hnone]
    exact hask
  unfold exitOf
  by_cases ht : st.reversibleTombstone = true
  · simp only [ht, if_true]
    have hp : pending st = true := by simp [pending, ht]
    unfold exitTombstone
    by_cases hc : event.cancelled = true
    · rw [if_pos hc]
      exact .drop ht hc
    · rw [if_neg hc]
      by_cases he : (event.etag.isNone || st.externalEtag != event.etag) = true
      · rw [if_pos he]
        exact .hold hp
      · rw [if_neg he]
        exact .skip
  · simp only [if_neg ht]
    by_cases hc : event.cancelled = true
    · simp only [if_pos hc]
      unfold exitCancelled
      by_cases hd : st.localDirty = true
      · rw [if_pos hd, if_pos hpolicy]
        exact .record (by simp [pending, hd])
      · rw [if_neg hd]
        exact .remove (by simpa using hd) (by simpa using ht) hc
    · simp only [if_neg hc]
      cases normalizeEvent event with
      | error message => exact .invalid
      | ok n =>
        show Asks event st (exitChanged event setting n st)
        unfold exitChanged
        by_cases he : st.externalEtag = event.etag
        · rw [if_pos he]
          exact .skip
        · rw [if_neg he]
          by_cases hd : (st.localDirty || st.localDeleted) = true
          · rw [if_pos hd, if_pos hpolicy]
            exact .record (by simp [pending, hd])
          · rw [if_neg hd]
            refine .overwrite ?_
            simp only [Bool.or_eq_true, not_or, Bool.not_eq_true] at hd ht
            simp [pending, hd.1, hd.2, ht]

end Table

/-! ## The runs -/

/-- What is noted of the mappings of one remote event. -/
structure Notes where
  /-- The row as a pull has put it on hold. -/
  hold : Option Mapping
  /-- A resolution of a conflict of the event was accepted. -/
  decided : Bool
  /-- Google has reported the event deleted. -/
  cancelled : Bool
deriving DecidableEq, Repr

/-- A statement puts the mapping on hold, or drops it when its event is gone and it has no edit. -/
def Notes.after (key : String × String) (s : Stmt) (db : Db) (n : Notes) : Notes :=
  match s with
  | .setUnresolved id => { n with hold := n.hold.or (((db.mapping? id).filter (·.key == key)).map Db.flagUnresolved) }
  | .deleteMapping id | .dropTombstone id =>
    if n.cancelled && (db.mapping? id).all (!·.localDirty) then { n with hold := n.hold.filter (·.id != id) } else n
  | _ => n

/-- A resolution of a conflict of the event was accepted. -/
def accepted (key : String × String) (db : Db) : Except AppError SyncConflict → Bool
  | .ok c => (db.mapping? c.mappingId).any (·.key == key)
  | .error _ => false

/-- What others do at any time, a synchronization running or not; the policy stays to ask. -/
inductive Others (toLowercase : String → String) (key : String × String) (running : Bool) (w : Watched Notes) :
    Watched Notes → Prop
  | edit (op : LocalOp) : Others toLowercase key running w ⟨op.perform toLowercase running w.db, w.notes⟩
  | resolve (conflict : Uuid) (resolution : String) (result : Except AppError SyncConflict × Db) :
    Tx.commit (resolveSyncConflict running conflict resolution) w.db = result →
    Others toLowercase key running w
      ⟨result.2, { w.notes with decided := w.notes.decided || accepted key w.db result.1 }⟩
  | policy (p : Option SyncConflictPolicy) : p.getD .ask = .ask →
    Others toLowercase key running w ⟨{ w.db with policy := p }, w.notes⟩
  | cleanup (expired : TaskDeleteUndo → Bool) : (∀ u, expired u = true → u.expiresAt ≤ w.db.now) →
    Others toLowercase key running w ⟨w.db.deleteUndos expired, w.notes⟩
  | tick (t : DateTime) : w.db.now ≤ t → Others toLowercase key running w ⟨{ w.db with now := t }, w.notes⟩

/-- Passes with any answers, cut off and failing anywhere. -/
def observer (toLowercase : String → String) (key : String × String) : Observer Notes where
  note s db _ n := n.after key s db
  answers q w r n := n = match r with
    | .ok response => { w.notes with cancelled := w.notes.cancelled || Tombstone.reports key.1 key.2 q response }
    | .error _ => w.notes
  allowed _ _ := True
  fault _ _ := True
  others running := Others toLowercase key running

/-! ## What is kept -/

/-- No resolution is pending, and a deleted mapping has no event. -/
structure Asking (m : Mapping) : Prop where
  resolution : m.pendingResolution = none
  deletion : m.deleteResolutionPending = false
  dropped : m.Dropped

/-- The row on hold, as it may have become. -/
structure OnHold (row m : Mapping) : Prop where
  id : m.id = row.id
  externalEtag : m.externalEtag = row.externalEtag
  baseFingerprint : m.baseFingerprint = row.baseFingerprint
  conflict : m.conflictState = .unresolved
  awaiting : m.Awaiting
  /-- Only the user deletes its event. -/
  canonical : m.canonicalEventId = row.canonicalEventId ∨ m.canonicalEventId = none

structure Waits (key : String × String) (cs : List SyncCalendar) (w : Watched Notes) : Prop where
  valid : w.db.Valid
  addressed : w.db.Addressed
  listed : ∀ c ∈ cs, w.db.Listed c
  policy : w.db.policy.getD .ask = .ask
  asking : w.notes.decided = false → ∀ m ∈ w.db.mappings, m.key = key → Asking m
  held : w.notes.decided = false → ∀ row, w.notes.hold = some row → row.key = key ∧
    ∃ m ∈ w.db.mappings, m.key = key ∧ OnHold row m

/-- Before an operation: nothing is sent to the remote event, and the event of the row stays. -/
def Restrained (key : String × String) (o : Op) (w : Watched Notes) : Prop :=
  w.notes.decided = false → ∀ row, w.notes.hold = some row →
    (∀ q, o = .http q → ¬ q.Writes key.1 key.2) ∧
    ∀ s, o = .sql s → ∀ v db', s.run w.db = .ok (v, db') → ∀ m ∈ w.db.mappings, m.id = row.id →
      ∀ e ∈ w.db.events, m.canonicalEventId = some e.id → e ∈ db'.events

def Before (key : String × String) (o : Op) (w : Watched Notes) : Prop := Waits key [] w ∧ Restrained key o w

/-- What a statement may do to the mappings of the event while nobody has decided. -/
structure Careful (key : String × String) (s : Stmt) (w : Watched Notes) : Prop where
  link : ∀ m ∈ w.db.mappings, m.key = key → ∀ e, s = .linkMapping m.id e →
    m.localDeleted = false ∧ m.reversibleTombstone = false
  flag : ∀ m ∈ w.db.mappings, m.key = key → s = .setUnresolved m.id → m.Awaiting
  touch : ∀ row, w.notes.hold = some row → s.Touches row.id →
    (s = .deleteMapping row.id ∨ s = .dropTombstone row.id) ∧ w.notes.cancelled = true ∧
      ∀ m ∈ w.db.mappings, m.id = row.id → m.localDirty = false
  rewrite : ∀ row, w.notes.hold = some row → ∀ m ∈ w.db.mappings, m.id = row.id →
    ∀ e, m.canonicalEventId = some e → ¬ s.Rewrites e

section Facts

variable {key : String × String} {row m m' : Mapping} {cs : List SyncCalendar} {w w' : Watched Notes} {db' : Db}
  {s : Stmt} {toLowercase : String → String}

theorem OnHold.kept (h : OnHold row m) (hk : m.Kept m') : OnHold row m' := by
  have hrow := hk.row
  constructor
  · rw [hrow]
    exact h.id
  · rw [hrow]
    exact h.externalEtag
  · rw [hrow]
    exact h.baseFingerprint
  · exact hk.conflict h.conflict
  · rw [hrow]
    exact h.awaiting
  · rcases hk.canonical with hc | hc
    · rw [hc]
      exact h.canonical
    · exact .inr hc

theorem OnHold.edited (h : OnHold row m) (he : m.Edited m') : OnHold row m' where
  id := he.id.trans h.id
  externalEtag := he.externalEtag.trans h.externalEtag
  baseFingerprint := (he.fingerprint h.conflict).trans h.baseFingerprint
  conflict := he.conflictState.trans h.conflict
  awaiting := he.awaiting h.awaiting
  canonical := by
    rcases he.canonical with hc | hc
    · rw [hc]
      exact h.canonical
    · exact .inr hc

theorem Asking.edited (h : Asking m) (he : m.Edited m') : Asking m' where
  resolution := he.pendingResolution.trans h.resolution
  deletion := he.deleteResolutionPending.trans h.deletion
  dropped := he.dropped h.dropped

theorem edited_key (he : m.Edited m') : m'.key = m.key := by
  rw [Mapping.key, he.externalCalendarId, he.externalEventId]
  rfl

/-- What a statement makes of a row that asks. -/
theorem Asking.makes {now : DateTime} (h : Asking m)
    (hlink : ∀ e, s = .linkMapping m.id e → m.localDeleted = false ∧ m.reversibleTombstone = false)
    (hm : s.Makes now m m') : Asking m' := by
  cases hm with
  | same => exact h
  | flagged => exact ⟨h.resolution, h.deletion, h.dropped⟩
  | cleared => exact ⟨rfl, h.deletion, h.dropped⟩
  | linked =>
    obtain ⟨hdeleted, htomb⟩ := hlink _ rfl
    refine ⟨h.resolution, h.deletion, ?_⟩
    rintro (hd | ht)
    · exact absurd (hdeleted.symm.trans hd) (by decide)
    · exact absurd (htomb.symm.trans ht) (by decide)
  | based =>
    refine ⟨rfl, rfl, ?_⟩
    rintro (hd | ht)
    · cases hd
    · exact ⟨rfl, (h.dropped (.inr ht)).2⟩
  | pushed => exact ⟨h.resolution, h.deletion, fun hd => ⟨rfl, (h.dropped hd).2⟩⟩
  | detached => exact ⟨h.resolution, h.deletion, fun hd => ⟨(h.dropped hd).1, rfl⟩⟩

/-- What is on hold after a statement was before, or is the row it has flagged. -/
theorem hold_after {n : Notes} {db : Db} (h : (n.after key s db).hold = some row) :
    n.hold = some row ∨ ∃ m, s = .setUnresolved m.id ∧ db.mapping? m.id = some m ∧ m.key = key ∧ row = Db.flagUnresolved m := by
  have hdrop : ∀ id, (if n.cancelled && (db.mapping? id).all (!·.localDirty) then
      { n with hold := n.hold.filter (·.id != id) } else n).hold = some row → n.hold = some row := by
    intro id h
    split at h
    · exact (Option.filter_eq_some_iff.1 h).1
    · exact h
  cases s with
  | setUnresolved id =>
    rcases Option.or_eq_some_iff.1 h with h | ⟨-, h⟩
    · exact .inl h
    · obtain ⟨m, hm, rfl⟩ := Option.map_eq_some_iff.1 h
      obtain ⟨hfind, hkey⟩ := Option.filter_eq_some_iff.1 hm
      have hid : m.id = id := by simpa using List.find?_some hfind
      subst hid
      exact .inr ⟨m, rfl, hfind, by simpa using hkey, rfl⟩
  | deleteMapping id => exact .inl (hdrop id h)
  | dropTombstone id => exact .inl (hdrop id h)
  | _ => exact .inl h

theorem decided_after (n : Notes) (db : Db) : (n.after key s db).decided = n.decided := by
  cases s with
  | deleteMapping id | dropTombstone id =>
    simp only [Notes.after]
    split <;> rfl
  | _ => rfl

theorem cancelled_after (n : Notes) (db : Db) : (n.after key s db).cancelled = n.cancelled := by
  cases s with
  | deleteMapping id | dropTombstone id =>
    simp only [Notes.after]
    split <;> rfl
  | _ => rfl

/-- A row that is deleted with its event is not on hold any more. -/
theorem hold_dropped {n : Notes} {db : Db} (hv : db.Valid) (hs : s = .deleteMapping row.id ∨ s = .dropTombstone row.id)
    (hc : n.cancelled = true) (hclean : ∀ m ∈ db.mappings, m.id = row.id → m.localDirty = false) :
    (n.after key s db).hold ≠ some row := by
  intro h
  have hall : (db.mapping? row.id).all (!·.localDirty) = true := by
    cases hm : db.mapping? row.id with
    | none => rfl
    | some m =>
      obtain ⟨hmem, hid⟩ := hv.mapping?_eq_some.1 hm
      simp [hclean m hmem hid]
  have hfilter : n.hold.filter (·.id != row.id) = some row := by
    rcases hs with rfl | rfl
    · simpa only [Notes.after, hc, hall, Bool.and_self, if_true] using h
    · simpa only [Notes.after, hc, hall, Bool.and_self, if_true] using h
  have := (Option.filter_eq_some_iff.1 hfilter).2
  simp at this

theorem Waits.mono (h : Waits key cs w) (ds : List SyncCalendar) (hd : ∀ c ∈ ds, w.db.Listed c) : Waits key ds w :=
  { h with listed := hd }

/-- A careful statement. -/
theorem Waits.run (h : Waits key cs w) {v : s.Val} (hr : s.run w.db = .ok (v, db')) (hl : s.Located w.db)
    (hs : w.notes.decided = false → Careful key s w) : Waits key cs ⟨db', w.notes.after key s w.db⟩ where
  valid := Stmt.run_valid hr h.valid
  addressed := Stmt.run_addressed hr h.addressed hl
  listed := fun c hc => Stmt.run_listed hr (h.listed c hc)
  policy := by
    rw [show db'.policy = w.db.policy from Stmt.run_policy hr]
    exact h.policy
  asking := by
    intro hd m' hm' hkey
    replace hd : w.notes.decided = false := (decided_after w.notes w.db).symm.trans hd
    rcases Stmt.run_makes hr m' hm' with ⟨_, _, _, _, _, _, -, rfl⟩ | ⟨m, hm, hmake⟩
    · exact ⟨rfl, rfl, by rintro (hd | ht) <;> contradiction⟩
    · have hmkey := hmake.key.symm.trans hkey
      exact (h.asking hd m hm hmkey).makes (fun e he => (hs hd).link m hm hmkey e he) hmake
  held := by
    intro hd row hhold
    replace hd : w.notes.decided = false := (decided_after w.notes w.db).symm.trans hd
    rcases hold_after hhold with hold | ⟨m, rfl, hm, hkey, rfl⟩
    · obtain ⟨hkey, m, hm, hmkey, hu⟩ := h.held hd row hold
      refine ⟨hkey, ?_⟩
      by_cases ht : s.Touches row.id
      · obtain ⟨hs, hc, hclean⟩ := (hs hd).touch row hold ht
        exact absurd hhold (hold_dropped h.valid hs hc hclean)
      · obtain ⟨m', hm', hk⟩ := Stmt.run_row hr hm (by rw [hu.id]; exact ht) (h.asking hd m hm hmkey).deletion
        refine ⟨m', hm', ?_, hu.kept hk⟩
        rw [← hmkey, hk.row]
        rfl
    · obtain ⟨hmem, hid⟩ := h.valid.mapping?_eq_some.1 hm
      cases hr
      refine ⟨hkey, _, mem_update.2 (.inr ⟨m, hmem, by simp, rfl⟩), hkey, ?_⟩
      exact ⟨rfl, rfl, rfl, rfl, (hs hd).flag m hmem hkey rfl, .inl rfl⟩

theorem before_sql (h : Waits key cs w) (hs : w.notes.decided = false → Careful key s w) : Before key (.sql s) w := by
  refine ⟨h.mono [] (by simp), ?_⟩
  intro hd row hhold
  refine ⟨fun q hq => (by cases hq), ?_⟩
  rintro _ ⟨⟩ v db' hr m hm hid e he hc
  exact Stmt.run_event hr he ((hs hd).rewrite row hhold m hm hid e.id hc)

theorem before_http {q : Request} (h : Waits key cs w)
    (hq : w.notes.decided = false → ∀ row, w.notes.hold = some row → ¬ q.Writes key.1 key.2) : Before key (.http q) w := by
  refine ⟨h.mono [] (by simp), ?_⟩
  intro hd row hhold
  refine ⟨?_, fun s hs => (by cases hs)⟩
  rintro _ ⟨⟩
  exact hq hd row hhold

/-- A statement about other things. -/
def Aside : Stmt → Prop
  | .linkMapping .. | .setUnresolved _ | .dropTombstone _ | .deleteMapping _ | .clearPendingResolution _
  | .updateMappingBaseline .. | .recordPushed .. | .updateCanonicalEvent .. | .deleteCanonicalEvent _ => False
  | _ => True

theorem careful_aside (hs : Aside s) : Careful key s w := by
  constructor
  · rintro m - - e rfl
    exact hs.elim
  · rintro m - - rfl
    exact hs.elim
  · intro row _ ht
    cases s with
    | dropTombstone | deleteMapping | clearPendingResolution | linkMapping | updateMappingBaseline | recordPushed =>
      exact hs.elim
    | _ => exact ht.elim
  · intro row _ m _ _ e _ hr
    cases s with
    | updateCanonicalEvent | deleteCanonicalEvent => exact hs.elim
    | _ => exact hr.elim

/-! ## What others do -/

theorem Waits.edited (h : Waits key cs w) (hv : db'.Valid) (he : w.db.Edited db') : Waits key cs ⟨db', w.notes⟩ where
  valid := hv
  addressed := h.addressed.edited he
  listed := fun c hc => (h.listed c hc).edited he
  policy := by
    rw [show db'.policy = w.db.policy from he.policy]
    exact h.policy
  asking := by
    intro hd m' hm' hkey
    obtain ⟨m, hm, hr⟩ := he.origin m' hm'
    exact (h.asking hd m hm ((edited_key hr).symm.trans hkey)).edited hr
  held := by
    intro hd row hhold
    obtain ⟨hkey, m, hm, hmkey, hu⟩ := h.held hd row hhold
    obtain ⟨m', hm', hr⟩ := he.kept m hm
    exact ⟨hkey, m', hm', (edited_key hr).trans hmkey, hu.edited hr⟩

/-- The tables change in other columns. -/
theorem Waits.congr (h : Waits key cs w) (hv : db'.Valid) (hc : db'.calendars = w.db.calendars)
    (hm : db'.mappings = w.db.mappings) (hp : db'.policy.getD .ask = .ask) : Waits key cs ⟨db', w.notes⟩ where
  valid := hv
  addressed := h.addressed.of hc fun m hmem => ⟨m, hm ▸ hmem, rfl, rfl⟩
  listed := by
    intro c hcs
    obtain ⟨r, hr, hrest⟩ := h.listed c hcs
    exact ⟨r, hc ▸ hr, hrest⟩
  policy := hp
  asking := by
    rw [hm]
    exact h.asking
  held := by
    rw [hm]
    exact h.held

/-- An accepted resolution: of the event, and then it is decided, or of another one. -/
theorem Waits.resolved (h : Waits key cs w) {locked : Bool} {conflict : Uuid} {resolution : String} {a : SyncConflict}
    (hr : resolveSyncConflict locked conflict resolution w.db = .ok (a, db')) :
    Waits key cs ⟨db', { w.notes with decided := w.notes.decided || accepted key w.db (.ok a) }⟩ := by
  have hv := Valid.resolve h.valid hr
  obtain ⟨c, x, r, -, hx, -, -, rfl, undos, jobs, rfl⟩ := resolveSyncConflict_ok h.valid hr
  obtain ⟨-, hxid⟩ := h.valid.mapping?_eq_some.1 hx
  -- the rows of the event are others, as long as it is undecided
  have hother : (w.notes.decided || accepted key w.db (.ok (resolvedConflict r w.db.now c))) = false →
      w.notes.decided = false ∧ x.key ≠ key := by
    intro hd
    obtain ⟨hd, ha⟩ := Bool.or_eq_false_iff.1 hd
    refine ⟨hd, fun hkey => ?_⟩
    have hfind : (w.db.mapping? c.mappingId).any (·.key == key) = false := ha
    rw [← hxid, hxid, hx] at hfind
    simp [hkey] at hfind
  have hrow : ∀ m ∈ w.db.mappings, m.id = x.id → m = x := fun m hm hid =>
    h.valid.mappingIds.eq hm (h.valid.mapping?_eq_some.1 hx).1 (k := x.id) (by rw [hid]) rfl
  refine ⟨hv, ?_, h.listed, h.policy, ?_, ?_⟩
  · refine h.addressed.of rfl fun m' hm' => ?_
    rcases mem_update.1 hm' with ⟨hm', -⟩ | ⟨m, hm, -, rfl⟩
    · exact ⟨m', hm', rfl, rfl⟩
    · refine ⟨m, hm, ?_⟩
      unfold resolvedRow resolveMapping
      split <;> exact ⟨rfl, rfl⟩
  · intro hd m' hm' hkey
    obtain ⟨hd, hne⟩ := hother hd
    rcases mem_update.1 hm' with ⟨hm', -⟩ | ⟨m, hm, hp, rfl⟩
    · exact h.asking hd m' hm' hkey
    · obtain rfl := hrow m hm (beq_iff_eq.1 hp)
      refine absurd ?_ hne
      rw [← hkey]
      unfold resolvedRow resolveMapping
      split <;> rfl
  · intro hd row hhold
    obtain ⟨hd, hne⟩ := hother hd
    obtain ⟨hkey, m, hm, hmkey, hu⟩ := h.held hd row hhold
    refine ⟨hkey, m, mem_update.2 (.inl ⟨hm, ?_⟩), hmkey, hu⟩
    rw [beq_eq_false_iff_ne]
    intro hid
    rw [hrow m hm hid] at hmkey
    exact hne hmkey

theorem Waits.others (h : Waits key cs w) {running : Bool} (ho : Others toLowercase key running w w') :
    Waits key cs w' := by
  cases ho with
  | edit op =>
    obtain ⟨hv, he⟩ := op.edited toLowercase running w.db h.valid
    exact h.edited hv he
  | resolve conflict resolution result hres =>
    subst hres
    unfold Tx.commit
    split
    · exact h.resolved ‹_›
    · simpa only [accepted, Bool.or_false] using h
  | policy p hp => exact h.congr (h.valid.congr rfl rfl rfl rfl le_rfl) rfl rfl hp
  | cleanup expired _ => exact h.congr (h.valid.deleteUndos _) rfl rfl h.policy
  | tick t _ => exact h.congr (h.valid.congr rfl rfl rfl rfl le_rfl) rfl rfl h.policy

theorem stable_waits (cs : List SyncCalendar) : Stable (observer toLowercase key).system (Waits key cs) :=
  fun _ _ h ho => h.others ho

/-- An answer decides nothing. -/
theorem notes_of_answer {q : Request} {r : Except Unit (Response q.Body)} {n : Notes}
    (h : (observer toLowercase key).answers q w r n) : n.hold = w.notes.hold ∧ n.decided = w.notes.decided := by
  cases r with
  | ok response => rw [h]; exact ⟨rfl, rfl⟩
  | error e => rw [h]; exact ⟨rfl, rfl⟩

theorem answered_waits (cs : List SyncCalendar) : Observer.Answered (observer toLowercase key) (Waits key cs) := by
  rintro q w r t n h - hr
  have hsame := notes_of_answer hr
  refine ⟨h.valid.congr rfl rfl rfl rfl le_rfl, h.addressed, h.listed, h.policy, ?_, ?_⟩
  · rw [hsame.2]
    exact h.asking
  · rw [hsame.1, hsame.2]
    exact h.held

end Facts

/-! ## Deliveries -/

/-- What a delivery of another event has read. -/
def Apart (key : String × String) (st : MappingState) (w : Watched Notes) : Prop :=
  ∀ m ∈ w.db.mappings, m.key = key → m.id ≠ st.id ∧ ∀ e, st.canonicalEventId = some e → m.canonicalEventId ≠ some e

/-- What a delivery of the event has read, and what its row has become since. -/
structure Own (key : String × String) (st : MappingState) (w : Watched Notes) : Prop where
  resolution : st.pendingResolution = none
  dropped : st.localDeleted = true ∨ st.reversibleTombstone = true →
    st.localDirty = false ∧ st.canonicalEventId = none
  hold : w.notes.hold = none ∨ pending st = true
  id : ∀ m ∈ w.db.mappings, m.key = key → m.id = st.id
  awaiting : pending st = true → ∀ m ∈ w.db.mappings, m.key = key → m.Awaiting
  frozen : st.canonicalEventId = none → ∀ m ∈ w.db.mappings, m.key = key → m.canonicalEventId = none ∧
    m.localDirty = st.localDirty ∧ m.localDeleted = st.localDeleted ∧ m.reversibleTombstone = st.reversibleTombstone

/-- What a delivery under `own` has read of a mapping. -/
def Read (key own : String × String) (m : Option MappingState) (w : Watched Notes) : Prop :=
  ∀ st, m = some st → w.notes.decided = false → (own ≠ key → Apart key st w) ∧ (own = key → Own key st w)

/-- A cancellation of the event in an answer is noted. -/
abbrev Reported (key : String × String) (q : Request) (r : Response q.Body) (w : Watched Notes) : Prop :=
  Tombstone.reports key.1 key.2 q r = true → w.notes.cancelled = true

section Pass

variable {key : String × String} {cs : List SyncCalendar} {c : SyncCalendar} {event : GoogleEvent} {st : MappingState}
  {toLowercase : String → String} {w w' : Watched Notes} {A : Watched Notes → Prop}

/-- As long as nobody decides, others edit the rows of the event. -/
theorem rows_of_others (hw : Waits key cs w) {running : Bool} (ho : Others toLowercase key running w w')
    (hd : w'.notes.decided = false) : w.notes.decided = false ∧ w'.notes.hold = w.notes.hold ∧
      ∀ m' ∈ w'.db.mappings, m'.key = key → ∃ m ∈ w.db.mappings, m.key = key ∧ m.Edited m' := by
  have hsame : ∀ m' ∈ w.db.mappings, m'.key = key → ∃ m ∈ w.db.mappings, m.key = key ∧ m.Edited m' :=
    fun m hm hkey => ⟨m, hm, hkey, .refl m⟩
  cases ho with
  | edit op =>
    obtain ⟨-, he⟩ := op.edited toLowercase running w.db hw.valid
    refine ⟨hd, rfl, fun m' hm' hkey => ?_⟩
    obtain ⟨m, hm, hr⟩ := he.origin m' hm'
    exact ⟨m, hm, (edited_key hr).symm.trans hkey, hr⟩
  | resolve conflict resolution result hres =>
    subst hres
    obtain ⟨hd, ha⟩ := Bool.or_eq_false_iff.1 hd
    refine ⟨hd, rfl, ?_⟩
    unfold Tx.commit at ha ⊢
    split
    · rename_i a db' hr
      rw [hr] at ha
      obtain ⟨x, k, r, -, hk, -, -, rfl, undos, jobs, rfl⟩ := resolveSyncConflict_ok hw.valid hr
      obtain ⟨hkmem, hkid⟩ := hw.valid.mapping?_eq_some.1 hk
      have hne : k.key ≠ key := by
        intro hkey
        have hfind : (w.db.mapping? x.mappingId).any (·.key == key) = false := ha
        rw [← hkid, hkid, hk] at hfind
        simp [hkey] at hfind
      intro m' hm' hkey
      rcases mem_update.1 hm' with ⟨hm', -⟩ | ⟨m, hm, hp, rfl⟩
      · exact hsame m' hm' hkey
      · obtain rfl : m = k := hw.valid.mappingIds.eq hm hkmem (k := k.id) (by rw [beq_iff_eq.1 hp]) rfl
        refine absurd ?_ hne
        rw [← hkey]
        unfold resolvedRow resolveMapping
        split <;> rfl
    · exact hsame
  | policy p _ => exact ⟨hd, rfl, hsame⟩
  | cleanup expired _ => exact ⟨hd, rfl, hsame⟩
  | tick t _ => exact ⟨hd, rfl, hsame⟩

theorem Apart.back (h : Apart key st w) (hrows : ∀ m' ∈ w'.db.mappings, m'.key = key →
    ∃ m ∈ w.db.mappings, m.key = key ∧ m.Edited m') : Apart key st w' := by
  intro m' hm' hkey
  obtain ⟨m, hm, hmkey, he⟩ := hrows m' hm' hkey
  obtain ⟨hid, hc⟩ := h m hm hmkey
  refine ⟨by rwa [he.id], fun e hst => ?_⟩
  rcases he.canonical with h' | h'
  · rw [h']
    exact hc e hst
  · rw [h']
    simp

theorem Own.back (h : Own key st w) (hhold : w'.notes.hold = w.notes.hold) (hrows : ∀ m' ∈ w'.db.mappings, m'.key = key →
    ∃ m ∈ w.db.mappings, m.key = key ∧ m.Edited m') : Own key st w' where
  resolution := h.resolution
  dropped := h.dropped
  hold := by
    rw [hhold]
    exact h.hold
  id := by
    intro m' hm' hkey
    obtain ⟨m, hm, hmkey, he⟩ := hrows m' hm' hkey
    exact he.id.trans (h.id m hm hmkey)
  awaiting := by
    intro hp m' hm' hkey
    obtain ⟨m, hm, hmkey, he⟩ := hrows m' hm' hkey
    exact he.awaiting (h.awaiting hp m hm hmkey)
  frozen := by
    intro hc m' hm' hkey
    obtain ⟨m, hm, hmkey, he⟩ := hrows m' hm' hkey
    have hfrozen := h.frozen hc m hm hmkey
    rw [he.frozen hfrozen.1]
    exact hfrozen

theorem lasting_cancelled : Lasting (observer toLowercase key).system fun w => w.notes.cancelled = true where
  stable := by
    intro w w' hc ho
    cases ho with
    | edit | resolve | policy | cleanup | tick => exact hc
  step := by
    rintro (s | q) w r w' hstep hc
    · rcases hstep with ⟨-, v, db', -, -, rfl⟩ | ⟨-, -, rfl⟩
      · exact (cancelled_after w.notes w.db).trans hc
      · exact hc
    · obtain ⟨t, n, -, hr, rfl⟩ := hstep
      show n.cancelled = true
      cases r with
      | ok response =>
        rw [hr]
        exact Bool.or_eq_true_iff.2 (.inl hc)
      | error e =>
        rw [hr]
        exact hc

theorem lasting_reported (q : Request) (r : Response q.Body) :
    Lasting (observer toLowercase key).system (Reported key q r) where
  stable := fun w w' h ho hr => lasting_cancelled.stable w w' (h hr) ho
  step := fun o w x w' hs h hr => lasting_cancelled.step o w x w' hs (h hr)

theorem learnt {q : Request} {r : Response q.Body} {t : DateTime} {n : Notes}
    (h : (observer toLowercase key).answers q w (.ok r) n) : Reported key q r ⟨{ w.db with now := t }, n⟩ := by
  intro hr
  show n.cancelled = true
  rw [show n = _ from h]
  exact Bool.or_eq_true_iff.2 (.inr hr)

/-- What a program relies on besides the invariant, when others at most edit the rows of the event. -/
theorem stable_with {B : Watched Notes → Prop} (hB : ∀ w w', B w → w'.notes.hold = w.notes.hold →
    (∀ m' ∈ w'.db.mappings, m'.key = key → ∃ m ∈ w.db.mappings, m.key = key ∧ m.Edited m') → B w') :
    Stable (observer toLowercase key).system fun w => Waits key cs w ∧ (w.notes.decided = false → B w) := by
  rintro w w' ⟨hw, hb⟩ ho
  refine ⟨hw.others ho, fun hd => ?_⟩
  obtain ⟨hd, hhold, hrows⟩ := rows_of_others hw ho hd
  exact hB w w' (hb hd) hhold hrows

/-- A careful statement, whatever it is that makes it careful. -/
theorem holds_careful {s : Stmt} (hA : Stable (observer toLowercase key).system A)
    (h : ∀ w, A w → Waits key cs w ∧ s.Located w.db ∧ (w.notes.decided = false → Careful key s w)) {w : Watched Notes}
    (hw : A w) : Holds (observer toLowercase key).system (Before key) (fun _ w => Waits key cs w) (sql s) w := by
  refine holds_op hA (fun w hw => before_sql (h w hw).1 (h w hw).2.2) ?_ hw
  rintro w r w' hw (⟨-, v, db', hrun, rfl, rfl⟩ | ⟨-, ⟨e, rfl⟩, rfl⟩)
  · obtain ⟨hwaits, hl, hs⟩ := h w hw
    exact holds_ret (stable_waits cs) (fun _ h => h) (hwaits.run hrun hl hs)
  · exact holds_fail hA (fun w hw => (h w hw).1) hw

theorem keeps_careful {s : Stmt} (hs : ∀ w, Waits key cs w → s.Located w.db ∧ Careful key s w) :
    Keeps (observer toLowercase key).system (Before key) (Waits key cs) (sql s) :=
  fun _ hw => holds_careful (stable_waits cs) (fun w hw => ⟨hw, (hs w hw).1, fun _ => (hs w hw).2⟩) hw

theorem keeps_aside {s : Stmt} (hl : ∀ w, Waits key cs w → s.Located w.db) (hs : Aside s) :
    Keeps (observer toLowercase key).system (Before key) (Waits key cs) (sql s) :=
  keeps_careful fun w hw => ⟨hl w hw, careful_aside hs⟩

/-- The row on hold is the one of the event. -/
theorem Waits.row (h : Waits key cs w) (hd : w.notes.decided = false) {row m : Mapping} (hhold : w.notes.hold = some row)
    (hm : m ∈ w.db.mappings) (hid : m.id = row.id) : m.key = key := by
  obtain ⟨-, x, hx, hkey, hu⟩ := h.held hd row hhold
  obtain rfl : m = x := h.valid.mappingIds.eq hm hx (k := row.id) (by rw [hid]) (by rw [hu.id])
  exact hkey

/-- Once it is decided, a delivery may do anything. -/
theorem holds_decided (hc : c ∈ cs) (x : Exit) {w : Watched Notes} (hw : Waits key cs w) (hd : w.notes.decided = true) :
    Holds (observer toLowercase key).system (Before key) (fun _ w => Waits key cs w) (x.perform c event) w := by
  have hA : Stable (observer toLowercase key).system fun w => Waits key cs w ∧ w.notes.decided = true := by
    rintro w w' ⟨hw, hd⟩ ho
    refine ⟨hw.others ho, ?_⟩
    by_contra hno
    have := (rows_of_others hw ho (by simpa using hno)).1
    rw [hd] at this
    cases this
  refine (Observer.keeps_only hA (P := Exit.Runs c event x) ?_ ?_ (Exit.perform_only c event _) w ⟨hw, hd⟩).mono
    (fun _ _ h => h) fun _ _ h => h.1
  · rintro s w - ⟨hw, hd⟩
    exact before_sql hw fun hno => absurd (hd.symm.trans hno) (by decide)
  · rintro s w v db' hs ⟨hw, hd⟩ - hrun
    refine ⟨hw.run hrun (hs.located hw.valid (hw.listed c hc)) ?_, (decided_after w.notes w.db).trans hd⟩
    exact fun hno => absurd (hd.symm.trans hno) (by decide)

end Pass

section Exits

variable {key : String × String} {cs : List SyncCalendar} {c : SyncCalendar} {event : GoogleEvent} {st : MappingState}
  {toLowercase : String → String} {w w' : Watched Notes}

/-- The delivery of another event. -/
theorem holds_apart (hc : c ∈ cs) {x : Exit} (hx : x.state? = some st) (hw : Waits key cs w)
    (ha : w.notes.decided = false → Apart key st w) :
    Holds (observer toLowercase key).system (Before key) (fun _ w => Waits key cs w) (x.perform c event) w := by
  have hA : Stable (observer toLowercase key).system
      fun w => Waits key cs w ∧ (w.notes.decided = false → Apart key st w) :=
    stable_with fun _ _ h _ hrows => h.back hrows
  have hcareful : ∀ s w, Exit.Runs c event x s → Waits key cs w → w.notes.decided = false → Apart key st w →
      Careful key s w := by
    intro s w hs hw hd ha
    have hid : ∀ st', x.state? = some st' → st' = st := fun st' h => Option.some.inj (h.symm.trans hx)
    constructor
    · rintro m hm hkey e rfl
      obtain ⟨st', hst, hm'⟩ := hs.touches (k := m.id) rfl
      rw [hid st' hst] at hm'
      exact absurd hm'.symm (ha m hm hkey).1
    · rintro m hm hkey rfl
      obtain ⟨st', hst, hm'⟩ := hs.flags
      rw [hid st' hst] at hm'
      exact absurd hm'.symm (ha m hm hkey).1
    · intro row hhold ht
      obtain ⟨st', hst, hm'⟩ := hs.touches ht
      rw [hid st' hst] at hm'
      obtain ⟨-, m, hm, hkey, hu⟩ := hw.held hd row hhold
      exact absurd (hu.id.trans hm'.symm) (ha m hm hkey).1
    · intro row hhold m hm hrow e he hr
      obtain ⟨st', hst, hm'⟩ := hs.rewrites hr
      rw [hid st' hst] at hm'
      exact (ha m hm (hw.row hd hhold hm hrow)).2 e hm' he
  refine (Observer.keeps_only hA (P := Exit.Runs c event x) ?_ ?_ (Exit.perform_only c event _) w ⟨hw, ha⟩).mono
    (fun _ _ h => h) fun _ _ h => h.1
  · rintro s w hs ⟨hw, ha⟩
    exact before_sql hw fun hd => hcareful s w hs hw hd (ha hd)
  · rintro s w v db' hs ⟨hw, ha⟩ - hrun
    refine ⟨hw.run hrun (hs.located hw.valid (hw.listed c hc)) fun hd => hcareful s w hs hw hd (ha hd), ?_⟩
    intro hd
    replace hd : w.notes.decided = false := (decided_after w.notes w.db).symm.trans hd
    intro m' hm' hkey
    rcases Stmt.run_makes hrun m' hm' with ⟨_, _, _, _, _, _, rfl, -⟩ | ⟨m, hm, hmake⟩
    · -- only the import of an event without a mapping adds one
      cases hs
      cases hx
    · have hmkey := hmake.key.symm.trans hkey
      obtain ⟨hid, hcan⟩ := ha hd m hm hmkey
      refine ⟨by rwa [hmake.id], fun e he => ?_⟩
      cases hmake with
      | same | flagged | cleared | based | pushed => exact hcan e he
      | linked =>
        obtain ⟨st', hst, hm'⟩ := hs.touches (k := m.id) rfl
        rw [Option.some.inj (hst.symm.trans hx)] at hm'
        exact absurd hm'.symm hid
      | detached => simp

/-- A change that needs a decision. -/
theorem holds_conflict (hc : c ∈ cs) {x : Exit} (hx : (∃ title, x = .conflict st title) ∨ x = .holdConflict st)
    (hw : Waits key cs w) (ha : w.notes.decided = false → ∀ m ∈ w.db.mappings, m.key = key → m.Awaiting) :
    Holds (observer toLowercase key).system (Before key) (fun _ w => Waits key cs w) (x.perform c event) w := by
  have hA : Stable (observer toLowercase key).system fun w =>
      Waits key cs w ∧ (w.notes.decided = false → ∀ m ∈ w.db.mappings, m.key = key → m.Awaiting) := by
    refine stable_with (B := fun w => ∀ m ∈ w.db.mappings, m.key = key → m.Awaiting) ?_
    intro w w' h _ hrows m' hm' hkey
    obtain ⟨m, hm, hmkey, he⟩ := hrows m' hm' hkey
    exact he.awaiting (h m hm hmkey)
  have hkind : ∀ s, Exit.Runs c event x s → (∃ id, s = .setUnresolved id) ∨ Aside s := by
    intro s hs
    rcases hx with ⟨title, rfl⟩ | rfl
    · cases hs with
      | flag => exact .inl ⟨_, rfl⟩
      | activity | record => exact .inr trivial
    · cases hs with
      | holdFlag => exact .inl ⟨_, rfl⟩
      | activity | holdRecord | holdReceipts => exact .inr trivial
  have hcareful : ∀ s w, Exit.Runs c event x s → (∀ m ∈ w.db.mappings, m.key = key → m.Awaiting) → Careful key s w := by
    intro s w hs ha
    rcases hkind s hs with ⟨id, rfl⟩ | hs
    · refine ⟨?_, fun m hm hkey _ => ha m hm hkey, fun row _ ht => ht.elim, fun row _ m _ _ e _ hr => hr.elim⟩
      rintro m - - e ⟨⟩
    · exact careful_aside hs
  refine (Observer.keeps_only hA (P := Exit.Runs c event x) ?_ ?_ (Exit.perform_only c event _) w ⟨hw, ha⟩).mono
    (fun _ _ h => h) fun _ _ h => h.1
  · rintro s w hs ⟨hw, ha⟩
    exact before_sql hw fun hd => hcareful s w hs (ha hd)
  · rintro s w v db' hs ⟨hw, ha⟩ - hrun
    refine ⟨hw.run hrun (hs.located hw.valid (hw.listed c hc)) fun hd => hcareful s w hs (ha hd), ?_⟩
    intro hd
    replace hd : w.notes.decided = false := (decided_after w.notes w.db).symm.trans hd
    intro m' hm' hkey
    rcases Stmt.run_makes hrun m' hm' with ⟨_, _, _, _, _, _, rfl, -⟩ | ⟨m, hm, hmake⟩
    · rcases hx with ⟨title, rfl⟩ | rfl
      · cases hs
      · cases hs
    · have hbefore := ha hd m hm (hmake.key.symm.trans hkey)
      rcases hkind s hs with ⟨id, rfl⟩ | hs
      · cases hmake with
        | same | flagged => exact hbefore
      · cases hmake with
        | same => exact hbefore
        | _ => exact hs.elim

/-- With nothing on hold, a pass may write as it likes, but for a link. -/
theorem careful_free {s : Stmt} (hfree : w.notes.hold = none) (hflag : ∀ id, s ≠ .setUnresolved id)
    (hlink : ∀ m ∈ w.db.mappings, m.key = key → ∀ e, s = .linkMapping m.id e →
      m.localDeleted = false ∧ m.reversibleTombstone = false) : Careful key s w := by
  refine ⟨hlink, fun m _ _ hs => absurd hs (hflag m.id), fun row hhold => ?_, fun row hhold => ?_⟩
  · rw [hfree] at hhold
    cases hhold
  · rw [hfree] at hhold
    cases hhold

/-- Nothing of the event is on hold. -/
abbrev Free (key : String × String) (cs : List SyncCalendar) (w : Watched Notes) : Prop :=
  Waits key cs w ∧ (w.notes.decided = false → w.notes.hold = none)

theorem stable_free : Stable (observer toLowercase key).system (Free key cs) :=
  stable_with (B := fun w => w.notes.hold = none) fun _ _ h hhold _ => hhold.trans h

theorem free_after {s : Stmt} {v : s.Val} {db' : Db} (h : Free key cs w) (hr : s.run w.db = .ok (v, db'))
    (hl : s.Located w.db) (hflag : ∀ id, s ≠ .setUnresolved id) (hlink : w.notes.decided = false →
      ∀ m ∈ w.db.mappings, m.key = key → ∀ e, s = .linkMapping m.id e →
        m.localDeleted = false ∧ m.reversibleTombstone = false) :
    Free key cs ⟨db', w.notes.after key s w.db⟩ := by
  refine ⟨h.1.run hr hl fun hd => careful_free (h.2 hd) hflag (hlink hd), ?_⟩
  intro hd
  replace hd : w.notes.decided = false := (decided_after w.notes w.db).symm.trans hd
  by_contra hno
  obtain ⟨row, hrow⟩ := Option.ne_none_iff_exists'.1 hno
  rcases hold_after hrow with hhold | ⟨m, hs, -⟩
  · rw [h.2 hd] at hhold
    cases hhold
  · exact hflag m.id hs

theorem keeps_free {s : Stmt} (hl : ∀ w, Waits key cs w → s.Located w.db) (hflag : ∀ id, s ≠ .setUnresolved id)
    (hlink : ∀ id e, s ≠ .linkMapping id e) :
    Keeps (observer toLowercase key).system (Before key) (Free key cs) (sql s) := by
  have hno : ∀ w : Watched Notes, ∀ m ∈ w.db.mappings, m.key = key → ∀ e, s = .linkMapping m.id e →
      m.localDeleted = false ∧ m.reversibleTombstone = false := fun _ m _ _ e hs => absurd hs (hlink m.id e)
  refine Observer.keeps_sql stable_free (fun w hw => before_sql hw.1 fun hd => careful_free (hw.2 hd) hflag (hno w)) ?_
  exact fun w v db' hw _ hrun => free_after hw hrun (hl w hw.1) hflag fun _ => hno w

/-- Others keep rows without an event as they are. -/
theorem stable_without {P : Mapping → Prop} {B : Watched Notes → Prop}
    (hB : ∀ w w', B w → w'.notes.hold = w.notes.hold → B w') : Stable (observer toLowercase key).system fun w =>
    Waits key cs w ∧ (w.notes.decided = false → B w ∧ ∀ m ∈ w.db.mappings, m.key = key → m.canonicalEventId = none ∧ P m) := by
  refine stable_with (B := fun w => B w ∧ ∀ m ∈ w.db.mappings, m.key = key → m.canonicalEventId = none ∧ P m) ?_
  rintro w w' ⟨hb, h⟩ hhold hrows
  refine ⟨hB w w' hb hhold, fun m' hm' hkey => ?_⟩
  obtain ⟨m, hm, hmkey, he⟩ := hrows m' hm' hkey
  have hm := h m hm hmkey
  rw [he.frozen hm.1]
  exact hm

/-- The mapping is dropped with its event, when it has no edit. -/
theorem holds_dropped {s : Stmt} (hs : s = .deleteMapping st.id ∨ s = .dropTombstone st.id) (hw : Waits key cs w)
    (hcancelled : w.notes.cancelled = true) (ho : w.notes.decided = false → ∀ m ∈ w.db.mappings, m.key = key →
      m.canonicalEventId = none ∧ m.localDirty = false) :
    Holds (observer toLowercase key).system (Before key) (fun _ w => Waits key cs w) (sql s) w := by
  have hrows : Stable (observer toLowercase key).system fun w => Waits key cs w ∧ (w.notes.decided = false →
      True ∧ ∀ m ∈ w.db.mappings, m.key = key → m.canonicalEventId = none ∧ m.localDirty = false) :=
    stable_without (P := fun m => m.localDirty = false) (B := fun _ => True) fun _ _ _ _ => trivial
  have hlasting : Lasting (observer toLowercase key).system fun w => w.notes.cancelled = true := lasting_cancelled
  have hA := hrows.and hlasting.stable
  refine holds_careful (A := fun w => (Waits key cs w ∧ (w.notes.decided = false → True ∧ ∀ m ∈ w.db.mappings,
    m.key = key → m.canonicalEventId = none ∧ m.localDirty = false)) ∧ w.notes.cancelled = true) hA ?_
    ⟨⟨hw, fun hd => ⟨trivial, ho hd⟩⟩, hcancelled⟩
  rintro w ⟨⟨hw, ho⟩, hcancelled⟩
  have hl : s.Located w.db := by
    rcases hs with rfl | rfl
    · trivial
    · trivial
  refine ⟨hw, hl, fun hd => ⟨?_, ?_, ?_, ?_⟩⟩
  · rintro m - - e rfl
    rcases hs with hs | hs <;> cases hs
  · rintro m - - rfl
    rcases hs with hs | hs <;> cases hs
  · intro row hhold ht
    refine ⟨?_, hcancelled, fun m hm hid => ((ho hd).2 m hm (hw.row hd hhold hm hid)).2⟩
    rcases hs with rfl | rfl
    · exact .inl (by rw [show st.id = row.id from ht])
    · exact .inr (by rw [show st.id = row.id from ht])
  · intro row _ m _ _ e _ hr
    rcases hs with rfl | rfl
    · exact hr
    · exact hr

/-- A new event takes the place of one that is gone. -/
theorem holds_linked {n : NormalizedEvent} (hw : Waits key cs w) (ho : w.notes.decided = false → w.notes.hold = none ∧
    ∀ m ∈ w.db.mappings, m.key = key → m.canonicalEventId = none ∧ m.localDeleted = false ∧ m.reversibleTombstone = false) :
    Holds (observer toLowercase key).system (Before key) (fun _ w => Free key cs w) (do
      let id ← sql (.insertCanonicalEvent c.id n)
      sql (.linkMapping st.id id)) w := by
  have hA : Stable (observer toLowercase key).system fun w => Waits key cs w ∧ (w.notes.decided = false →
      w.notes.hold = none ∧ ∀ m ∈ w.db.mappings, m.key = key →
        m.canonicalEventId = none ∧ m.localDeleted = false ∧ m.reversibleTombstone = false) :=
    stable_without (P := fun m => m.localDeleted = false ∧ m.reversibleTombstone = false)
      (B := fun w => w.notes.hold = none) fun _ _ h hhold => hhold.trans h
  have hback : ∀ w : Watched Notes, (Waits key cs w ∧ (w.notes.decided = false → w.notes.hold = none ∧
      ∀ m ∈ w.db.mappings, m.key = key → m.canonicalEventId = none ∧ m.localDeleted = false ∧
        m.reversibleTombstone = false)) → Free key cs w := fun w h => ⟨h.1, fun hd => (h.2 hd).1⟩
  refine Observer.holds_sql hA ?_ ?_ (fun w e hw _ => holds_fail hA hback hw) ⟨hw, ho⟩
  · exact fun w hw => before_sql hw.1 fun hd => careful_free (hw.2 hd).1 (by simp) (by simp)
  · intro w id db' hw _ hrun
    have hnext := free_after (hback w hw) hrun trivial (by simp) (by simp)
    obtain ⟨hins, rfl⟩ := Stmt.insertCanonicalEvent_ok hrun
    obtain ⟨-, -, rfl⟩ := Db.insertCanonicalEvent_ok hins
    refine holds_op hA ?_ ?_ (w := ⟨w.db.fresh.insertEvent (w.db.importedEvent c.id n), w.notes⟩) ⟨hnext.1, hw.2⟩
    · exact fun w hw => before_sql hw.1 fun hd => careful_free (hw.2 hd).1 (by simp) fun m hm hkey _ _ =>
        ((hw.2 hd).2 m hm hkey).2
    · rintro w r w' hw (⟨-, v, db', hrun, rfl, rfl⟩ | ⟨-, ⟨e, rfl⟩, rfl⟩)
      · refine holds_ret stable_free (fun _ h => h) (free_after (hback w hw) hrun trivial (by simp) ?_)
        exact fun hd m hm hkey _ _ => ((hw.2 hd).2 m hm hkey).2
      · exact holds_fail hA hback hw

/-- The exits of a delivery of the event, when nobody has decided. -/
theorem holds_own (hc : c ∈ cs) {x : Exit} (hx : Asks event st x) (hw : Waits key cs w) (ho : Own key st w)
    (hcancelled : event.cancelled = true → w.notes.cancelled = true) :
    Holds (observer toLowercase key).system (Before key) (fun _ w => Waits key cs w) (x.perform c event) w := by
  have hfree : pending st = false → w.notes.hold = none := by
    intro hp
    rcases ho.hold with h | h
    · exact h
    · rw [hp] at h
      cases h
  have hclean : st.localDirty = false → st.canonicalEventId = none → ∀ m ∈ w.db.mappings, m.key = key →
      m.canonicalEventId = none ∧ m.localDirty = false := by
    intro hdirty hid m hm hkey
    obtain ⟨hcan, hd, -⟩ := ho.frozen hid m hm hkey
    exact ⟨hcan, hd.trans hdirty⟩
  cases hx with
  | skip => exact holds_ret (stable_waits cs) (fun _ h => h) hw
  | invalid => exact holds_fail (stable_waits cs) (fun _ h => h) hw
  | record hp => exact holds_conflict hc (.inl ⟨_, rfl⟩) hw fun _ => ho.awaiting hp
  | hold hp => exact holds_conflict hc (.inr rfl) hw fun _ => ho.awaiting hp
  | drop ht hc =>
    obtain ⟨hdirty, hid⟩ := ho.dropped (.inr ht)
    exact holds_dropped (.inr rfl) hw (hcancelled hc) fun _ => hclean hdirty hid
  | remove hdirty ht hc =>
    simp only [Exit.perform]
    cases hid : st.canonicalEventId with
    | none =>
      refine Holds.bind (fun _ w hw => ?_) (fun _ _ h => h)
        (holds_dropped (.inl rfl) hw (hcancelled hc) fun _ => hclean hdirty hid)
      exact keeps_aside (s := .recordActivity "remote_event_deleted" "Applied a Google event deletion")
        (fun _ _ => trivial) trivial w hw
    | some e =>
      -- the mapping of an event that exists is not deleted
      have hp : pending st = false := by
        by_contra hp
        have hdel : st.localDeleted = true := by simpa [pending, hdirty, ht] using hp
        rw [(ho.dropped (.inl hdel)).2] at hid
        cases hid
      have hfirst : Keeps (observer toLowercase key).system (Before key) (Free key cs) (sql (.deleteCanonicalEvent e)) :=
        keeps_free (fun _ _ => trivial) (by simp) (by simp)
      have hpass := hfirst.bind fun _ =>
        Keeps.bind (keeps_free (s := .deleteMapping st.id) (fun _ _ => trivial) (by simp) (by simp)) fun _ =>
          keeps_free (s := .recordActivity "remote_event_deleted" "Applied a Google event deletion")
            (fun _ _ => trivial) (by simp) (by simp)
      exact (hpass w ⟨hw, fun _ => hfree hp⟩).mono (fun _ _ h => h) fun _ _ h => h.1
  | @overwrite n hp =>
    have hend : Keeps (observer toLowercase key).system (Before key) (Free key cs) (do
        sql (.updateMappingBaseline st.id event.etag (eventFingerprint n))
        recordActivity "remote_event_applied" "Applied a Google event change") :=
      Keeps.bind (keeps_free (fun _ _ => trivial) (by simp) (by simp)) fun _ =>
        keeps_free (fun _ _ => trivial) (by simp) (by simp)
    refine Holds.mono (fun _ _ h => h) (fun _ _ (h : Free key cs _) => h.1) ?_
    simp only [Exit.perform, applyContent]
    cases hid : st.canonicalEventId with
    | some e =>
      have hfirst : Keeps (observer toLowercase key).system (Before key) (Free key cs)
          (sql (.updateCanonicalEvent e c.id n)) := keeps_free (fun _ _ => trivial) (by simp) (by simp)
      exact (hfirst.bind fun _ => hend) w ⟨hw, fun _ => hfree hp⟩
    | none =>
      have hst : (st.localDirty = false ∧ st.localDeleted = false) ∧ st.reversibleTombstone = false := by
        simpa [pending] using hp
      have hlinked : Holds (observer toLowercase key).system (Before key) (fun _ w => Free key cs w) (do
          let id ← sql (.insertCanonicalEvent c.id n)
          sql (.linkMapping st.id id)) w := holds_linked hw fun _ =>
        ⟨hfree hp, fun m hm hkey => by
          obtain ⟨hcan, -, hdel, ht⟩ := ho.frozen hid m hm hkey
          exact ⟨hcan, hdel.trans hst.1.2, ht.trans hst.2⟩⟩
      have hpass := hlinked.bind (Q := fun _ w => Free key cs w) (fun _ w hw => hend w hw) fun _ _ h => h
      simp only [Prog.bind_eq, Prog.bind_assoc] at hpass
      exact hpass

end Exits

/-! ## Whole passes -/

section Pass

variable {key : String × String} {cs : List SyncCalendar} {c : SyncCalendar} {toLowercase : String → String}
  {w w' : Watched Notes}

/-- What is read of a mapping. -/
theorem read_of_select (hw : Waits key cs w) (externalCalendar x : String) :
    Read key (externalCalendar, x) ((w.db.mappingAt? externalCalendar x).map w.db.mappingState) w := by
  intro st hst hd
  obtain ⟨m, hm, rfl⟩ := Option.map_eq_some_iff.1 hst
  obtain ⟨hmem, hcal, hx⟩ := hw.valid.mappingAt?_eq_some.1 hm
  have hkey : m.key = (externalCalendar, x) := by rw [Mapping.key, hcal, hx]
  constructor
  · intro hne y hy hykey
    have hym : y ≠ m := by
      rintro rfl
      exact hne (hkey.symm.trans hykey)
    refine ⟨fun hid => hym (hw.valid.mappingIds.eq hy hmem (k := m.id) (congrArg some hid) rfl), fun e he hye => ?_⟩
    exact hym (hw.valid.mappingEvents.eq hy hmem (k := e) hye he)
  · intro hown
    have hrow : ∀ y ∈ w.db.mappings, y.key = key → y = m := fun y hy hykey =>
      hw.valid.mappingKeys.eq hy hmem (k := key) (congrArg some hykey) (congrArg some (hkey.trans hown))
    have hasks := hw.asking hd m hmem (hkey.trans hown)
    have hpending : pending (w.db.mappingState m) = true ↔ m.Awaiting := by
      simp only [pending, Db.mappingState, Bool.or_eq_true, Mapping.Awaiting, or_assoc]
    refine ⟨hasks.resolution, hasks.dropped, ?_, ?_, ?_, ?_⟩
    · cases hhold : w.notes.hold with
      | none => exact .inl rfl
      | some row =>
        obtain ⟨-, y, hy, hykey, hu⟩ := hw.held hd row hhold
        rw [hrow y hy hykey] at hu
        exact .inr (hpending.2 hu.awaiting)
    · intro y hy hykey
      rw [hrow y hy hykey]
      rfl
    · intro hp y hy hykey
      rw [hrow y hy hykey]
      exact hpending.1 hp
    · intro hc y hy hykey
      rw [hrow y hy hykey]
      exact ⟨hc, rfl, rfl, rfl⟩

theorem stable_read (own : String × String) (m : Option MappingState) :
    Stable (observer toLowercase key).system fun w => Waits key cs w ∧ Read key own m w := by
  rintro w w' ⟨hw, hread⟩ ho
  refine ⟨hw.others ho, fun st hst hd => ?_⟩
  obtain ⟨hd, hhold, hrows⟩ := rows_of_others hw ho hd
  obtain ⟨hapart, hown⟩ := hread st hst hd
  exact ⟨fun h => (hapart h).back hrows, fun h => (hown h).back hhold hrows⟩

theorem holds_applied (hc : c ∈ cs) {event : GoogleEvent} {q : Request} {r : Response q.Body} (hsource : Source c event q r)
    (hw : Waits key cs w) (hreported : Reported key q r w) :
    Holds (observer toLowercase key).system (Before key) (fun _ w => Waits key cs w) (applyRemoteEvent c event) w := by
  have hstable : Stable (observer toLowercase key).system (Waits key cs) := stable_waits cs
  have hsql : ∀ s w, Aside s → Waits key cs w → Before key (.sql s) w := fun s w hs hw =>
    before_sql hw fun _ => careful_aside hs
  refine Observer.holds_applyRemoteEvent (A := fun w => Waits key cs w ∧ Reported key q r w)
    (R := fun m w => (Waits key cs w ∧ ∀ x, event.id = some x → Read key (c.externalId, x) m w) ∧ Reported key q r w)
    (hstable.and (lasting_reported q r).stable) (fun m => ?_) (fun _ _ h => h.1) (fun x w _ h => hsql _ w trivial h.1)
    ?_ (fun s w e h _ => holds_fail hstable (fun _ h => h) h.1) (fun _ _ h => ⟨h.1.1, h.2⟩)
    (fun w h => hsql _ w trivial h.1) (fun _ _ h => h) ?_ ⟨hw, hreported⟩
  · refine Stable.and ?_ (lasting_reported q r).stable
    rintro w w' ⟨hw, hread⟩ ho
    exact ⟨hw.others ho, fun x hx => (stable_read (c.externalId, x) m w w' ⟨hw, hread x hx⟩ ho).2⟩
  · rintro x w hid ⟨hw, hreported⟩
    refine ⟨⟨hw, fun y hy => ?_⟩, hreported⟩
    obtain rfl := Option.some.inj (hid.symm.trans hy)
    exact read_of_select hw c.externalId x
  · rintro x m w hid ⟨⟨hw, hread⟩, hreported⟩
    have hread := hread x hid
    cases m with
    | none =>
      -- nothing is done but an import
      have hkind : ∀ s, Exit.Runs c event (exitOf x event w.db.policy none) s → Aside s := by
        intro s hs
        generalize hx : exitOf x event w.db.policy none = exit at hs
        have hstate : exit.state? = none := by
          cases h : exit.state? with
          | none => rfl
          | some st =>
            rw [← hx] at h
            cases exitOf_state h
        cases hs with
        | activity | importInsert | importRecord => exact trivial
        | _ => cases hstate
      refine Observer.keeps_only hstable (P := Exit.Runs c event (exitOf x event w.db.policy none)) ?_ ?_
        (Exit.perform_only c event _) w hw
      · exact fun s w hs hw => hsql s w (hkind s hs) hw
      · exact fun s w v db' hs hw _ hrun =>
          hw.run hrun (hs.located hw.valid (hw.listed c hc)) fun _ => careful_aside (hkind s hs)
    | some st =>
      cases hd : w.notes.decided with
      | true => exact holds_decided hc _ hw hd
      | false =>
        obtain ⟨hapart, hown⟩ := hread st rfl hd
        by_cases hkey : (c.externalId, x) = key
        · refine holds_own hc (asks_exitOf hw.policy (hown hkey).resolution) hw (hown hkey) fun hcancelled => ?_
          obtain ⟨hcal, hx⟩ : c.externalId = key.1 ∧ x = key.2 := by
            rw [← hkey]
            exact ⟨rfl, rfl⟩
          exact hreported (Tombstone.reports_of_answer hsource hid hcal hx hcancelled)
        · have hA : Stable (observer toLowercase key).system
              fun w => Waits key cs w ∧ Read key (c.externalId, x) (some st) w := stable_read (c.externalId, x) (some st)
          cases hx : (exitOf x event w.db.policy (some st)).state? with
          | some st' =>
            obtain rfl := Option.some.inj (exitOf_state hx)
            exact holds_apart hc hx hw fun _ => hapart hkey
          | none =>
            have hidle : exitOf x event w.db.policy (some st) = .skip ∨
                ∃ message, exitOf x event w.db.policy (some st) = .invalid message :=
              exitOf_idle hx
            rcases hidle with h | ⟨message, h⟩
            · rw [h]
              exact holds_ret hstable (fun _ h => h) hw
            · rw [h]
              exact holds_fail hstable (fun _ h => h) hw

/-! ### The push -/

/-- The mappings a push has read are not on hold. -/
def Pushing (key : String × String) (c : SyncCalendar) (ds : List DirtyMapping) (w : Watched Notes) : Prop :=
  ∀ d ∈ ds, ∀ row, w.notes.hold = some row → d.mappingId ≠ row.id ∧ (c.externalId, d.externalEventId) ≠ key

theorem pushing_of_dirty (hc : c ∈ cs) (hw : Waits key cs w) (hd : w.notes.decided = false) :
    Pushing key c (w.db.selectDirty c.id) w := by
  intro d hdirty row hhold
  obtain ⟨m, hm, rfl⟩ := List.mem_map.1 hdirty
  obtain ⟨hm, hp⟩ := List.mem_filter.1 hm
  simp only [Db.pushable, Bool.and_eq_true, beq_iff_eq] at hp
  obtain ⟨⟨⟨⟨hcal, -⟩, hnone⟩, -⟩, -⟩ := hp
  obtain ⟨-, x, hx, hkey, hu⟩ := hw.held hd row hhold
  have hne : m ≠ x := by
    rintro rfl
    rw [hu.conflict] at hnone
    cases hnone
  refine ⟨fun hid => hne (hw.valid.mappingIds.eq hm hx (k := row.id) (congrArg some hid) (congrArg some hu.id)), ?_⟩
  intro hmkey
  refine hne (hw.valid.mappingKeys.eq hm hx (k := key) (congrArg some ?_) (congrArg some hkey))
  exact (hw.addressed.key hm (hw.listed c hc) hcal).trans hmkey

theorem stable_pushing (ds : List DirtyMapping) : Stable (observer toLowercase key).system fun w =>
    Waits key cs w ∧ (w.notes.decided = false → Pushing key c ds w) := by
  refine stable_with (B := Pushing key c ds) ?_
  intro w w' h hhold _ d hd row hrow
  exact h d hd row (hhold.symm.trans hrow)

theorem keeps_pushDirty {ds : List DirtyMapping} {d : DirtyMapping} (hd : d ∈ ds) :
    Keeps (observer toLowercase key).system (Before key)
      (fun w => Waits key cs w ∧ (w.notes.decided = false → Pushing key c ds w)) (pushDirty c d) := by
  have hcareful : ∀ s w, Pushes c d (.sql s) → Pushing key c ds w → Careful key s w := by
    intro s w hs hp
    cases hs with
    | activity => exact careful_aside trivial
    | pushed | deleted =>
      refine ⟨?_, ?_, ?_, fun _ _ _ _ _ _ _ h => h⟩
      · rintro m - - e ⟨⟩
      · rintro m - - ⟨⟩
      · intro row hhold ht
        exact absurd ht (hp d hd row hhold).1
  refine (pushDirty_only c d).keeps (stable_pushing ds) ?_ ?_
  · rintro o w ho ⟨hw, hp⟩
    cases o with
    | sql s => exact before_sql hw fun hno => hcareful s w ho (hp hno)
    | http q =>
      refine before_http hw fun hno row hhold => ?_
      have hne := (hp hno d hd row hhold).2
      cases ho with
      | put | delete =>
        rintro ⟨hcal, hx⟩
        exact hne (by rw [hcal, hx])
  · rintro o w r w' ho ⟨hw, hp⟩ hstep
    cases o with
    | sql s =>
      rcases hstep with ⟨-, v, db', hrun, -, rfl⟩ | ⟨-, -, rfl⟩
      · have hl : s.Located w.db := by
          cases ho <;> trivial
        refine ⟨hw.run hrun hl fun hno => hcareful s w ho (hp hno), fun hno => ?_⟩
        replace hno : w.notes.decided = false := (decided_after w.notes w.db).symm.trans hno
        intro d hd row hrow
        rcases hold_after hrow with hhold | ⟨m, rfl, -⟩
        · exact hp hno d hd row hhold
        · cases ho
      · exact ⟨hw, hp⟩
    | http q =>
      obtain ⟨t, n, ht, hr, rfl⟩ := hstep
      refine ⟨answered_waits cs q w r t n hw ht hr, ?_⟩
      have hsame : n.hold = w.notes.hold ∧ n.decided = w.notes.decided := notes_of_answer hr
      intro hno d hd row hrow
      exact hp (hsame.2.symm.trans hno) d hd row (hsame.1.symm.trans hrow)

theorem keeps_pushUnmapped (hc : c ∈ cs) (event : LocalEvent) :
    Keeps (observer toLowercase key).system (Before key) (Waits key cs) (pushUnmapped c event) := by
  refine (pushUnmapped_only c event).keeps (stable_waits cs) ?_ ?_
  · rintro o w ho hw
    cases ho with
    | post | get => exact before_http hw fun _ _ _ => id
    | record | activity => exact before_sql hw fun _ => careful_aside trivial
  · rintro o w r w' ho hw hstep
    have hsql : ∀ {s : Stmt} {r : Except SqlError s.Val}, (observer toLowercase key).system.step (.sql s) w r w' →
        s.Located w.db → Aside s → Waits key cs w' := by
      rintro s r (⟨-, v, db', hrun, -, rfl⟩ | ⟨-, -, rfl⟩) hl hs
      · exact hw.run hrun hl fun _ => careful_aside hs
      · exact hw
    cases ho with
    | post | get =>
      obtain ⟨t, n, ht, hr, rfl⟩ := hstep
      exact answered_waits cs _ w r t n hw ht hr
    | record => exact hsql hstep ((hw.listed c hc).located hw.valid) trivial
    | activity => exact hsql hstep trivial trivial

theorem keeps_pushCalendar (hc : c ∈ cs) :
    Keeps (observer toLowercase key).system (Before key) (Waits key cs) (pushCalendar c) := by
  have hstable : Stable (observer toLowercase key).system (Waits key cs) := stable_waits cs
  refine Keeps.bind (keeps_aside (fun _ _ => trivial) trivial) fun unmapped =>
    Keeps.bind (Keeps.forEach hstable fun event _ => keeps_pushUnmapped hc event) fun _ => ?_
  intro w hw
  refine Observer.holds_sql hstable (fun w hw => before_sql hw fun _ => careful_aside (s := .selectDirty c.id) trivial) ?_
    (fun w e hw _ => holds_fail hstable (fun _ h => h) hw) hw
  intro w dirty db' hw _ hrun
  cases hrun
  have hpush : Keeps (observer toLowercase key).system (Before key)
      (fun w' => Waits key cs w' ∧ (w'.notes.decided = false → Pushing key c (w.db.selectDirty c.id) w'))
      (Prog.forEach (pushDirty c) (w.db.selectDirty c.id)) :=
    Keeps.forEach (stable_pushing _) fun d hd => keeps_pushDirty hd
  exact (hpush w ⟨hw, pushing_of_dirty hc hw⟩).mono (fun _ _ h => h) fun _ _ h => h.1

/-- A pass leaves what nobody has decided. -/
theorem kept : Kept (observer toLowercase key) (Before key) (Waits key) (Reported key) where
  stable := stable_waits
  answered := answered_waits
  lasting := lasting_reported
  learnt := fun _ _ _ _ _ _ _ _ hr => learnt hr
  forget := fun cs w hw => hw.mono [] (by simp)
  reading := by
    intro cs q w hq hw
    refine before_http hw fun _ _ _ => ?_
    cases q with
    | putEvent | deleteEvent | postEvent => cases hq
    | listEvents | getEvent | accessToken => exact id
  selecting := fun _ _ hw => before_sql hw fun _ => careful_aside trivial
  selected := by
    intro only w cs db' hw hrun
    obtain ⟨hsel, rfl⟩ := Stmt.selectCalendars_ok hrun
    refine hw.mono _ ?_
    intro c hc
    obtain ⟨r, hr, hs, -, hid, hx, -⟩ := Db.mem_selectCalendars hsel hc
    exact ⟨r, hr, hid, hs, hx⟩
  keeping := by
    intro cs s w hs hw
    refine before_sql hw fun _ => careful_aside ?_
    cases s with
    | setSyncError | setSynced | selectResolutionPending | recordActivity => trivial
    | _ => cases hs
  kept := by
    intro cs s w v db' hs hw hrun
    cases s with
    | setSyncError | setSynced | selectResolutionPending | recordActivity =>
      exact hw.run hrun trivial fun _ => careful_aside trivial
    | _ => cases hs
  applied := fun cs c hc event q r hsource w hw hreported => holds_applied hc hsource hw hreported
  dropped := fun cs c hc k => keeps_aside (fun _ _ => trivial) trivial
  finished := by
    intro cs c hc token
    refine Keeps.bind (keeps_aside (fun _ _ => trivial) trivial) fun unresolved => ?_
    refine .ite (fun _ => .ret (stable_waits cs) ()) fun _ => ?_
    cases token with
    | some token => exact keeps_aside (s := .setSyncToken c.id token) (fun _ _ => trivial) trivial
    | none => exact .ret (stable_waits cs) ()
  pushed := fun cs c hc => keeps_pushCalendar hc

end Pass

/-- The event is a change of the remote event of a row, and there is a change of the row to push. -/
def Disputes (event : GoogleEvent) (m : Mapping) : Prop :=
  m.Awaiting ∧ (event.cancelled = true ∨ (∃ n, normalizeEvent event = .ok n) ∧ m.externalEtag ≠ event.etag)

/-- A dispute is put on hold, but for a deletion on both sides. -/
def Settles (event : GoogleEvent) (m : Mapping) (st : MappingState) (x : Exit) : Prop :=
  (∃ title, x = .conflict st title) ∨ x = .holdConflict st ∨
    (event.cancelled = true ∧ m.localDirty = false ∧ m.canonicalEventId = none ∧ (x = .drop st ∨ x = .remove st))

theorem settles_exitOf {db : Db} {m : Mapping} {x : String} {event : GoogleEvent} (hask : db.policy.getD .ask = .ask)
    (hm : Asking m) (hd : Disputes event m) :
    Settles event m (db.mappingState m) (exitOf x event db.policy (some (db.mappingState m))) := by
  obtain ⟨hawaiting, hchange⟩ := hd
  have hpending : pending (db.mappingState m) = true := by
    simpa only [pending, Db.mappingState, Bool.or_eq_true, Mapping.Awaiting, or_assoc] using hawaiting
  have hasks : Asks event (db.mappingState m) (exitOf x event db.policy (some (db.mappingState m))) :=
    asks_exitOf hask hm.resolution
  generalize hx : exitOf x event db.policy (some (db.mappingState m)) = exit at hasks ⊢
  cases hasks with
  | record _ => exact .inl ⟨_, rfl⟩
  | hold _ => exact .inr (.inl rfl)
  | overwrite hp =>
    rw [hpending] at hp
    cases hp
  | drop ht hc =>
    obtain ⟨hdirty, hnone⟩ := hm.dropped (.inr ht)
    exact .inr (.inr ⟨hc, hdirty, hnone, .inl rfl⟩)
  | remove hdirty ht hc =>
    have hdel : m.localDeleted = true ∨ m.reversibleTombstone = true := by
      rcases hawaiting with h | h
      · exact absurd (hdirty.symm.trans h) (by decide)
      · exact h
    exact .inr (.inr ⟨hc, hdirty, (hm.dropped hdel).2, .inr rfl⟩)
  | skip | invalid =>
    exfalso
    rcases hchange with hc | ⟨⟨n, hn⟩, hne⟩
    · simp only [exitOf, exitTombstone, exitCancelled, hc, if_true] at hx
      repeat' split at hx
      all_goals cases hx
    · have hne' : ¬ (db.mappingState m).externalEtag = event.etag := hne
      have hdiff : (event.etag.isNone || (db.mappingState m).externalEtag != event.etag) = true := by simp [hne']
      by_cases hc : event.cancelled = true
      · simp only [exitOf, exitTombstone, exitCancelled, hc, if_true] at hx
        repeat' split at hx
        all_goals cases hx
      · simp only [exitOf, exitTombstone, exitChanged, hn, hdiff, hne', if_neg hc, if_true, if_false] at hx
        repeat' split at hx
        all_goals cases hx

end Undecided

/-! ## Every run -/

/-- In every run from these tables: a dispute is put on hold, and as long as nobody has decided, the row
on hold stays and nothing is done about its event. -/
def Undecided.Untouched (toLowercase : String → String) (key : String × String) (hold : Option Mapping) (db : Db) : Prop :=
  ∀ c, Reach (observer toLowercase key).system ⟨⟨db, ⟨hold, false, false⟩⟩, none⟩ c → c.world.notes.decided = false →
    (∀ m ∈ c.world.db.mappings, m.key = key → ∀ event, Disputes event m →
      Settles event m (c.world.db.mappingState m)
        (exitOf m.externalEventId event c.world.db.policy (some (c.world.db.mappingState m)))) ∧
    (∀ row, c.world.notes.hold = some row → ∃ m ∈ c.world.db.mappings, OnHold row m) ∧
    ∀ o k, c.thread = some (.op o k) → Restrained key o c.world

/-- Under the policy to ask, what nobody has decided is left alone. -/
theorem undecided_untouched (toLowercase : String → String) (key : String × String) {db : Db} (hv : db.Valid)
    (ha : db.Addressed) (hask : db.policy.getD .ask = .ask)
    (hasking : ∀ m ∈ db.mappings, m.key = key → Undecided.Asking m) {hold : Option Mapping}
    (hhold : ∀ row, hold = some row →
      row ∈ db.mappings ∧ row.key = key ∧ row.conflictState = .unresolved ∧ row.Awaiting) :
    Undecided.Untouched toLowercase key hold db := by
  have hstart : Undecided.Waits key [] ⟨db, ⟨hold, false, false⟩⟩ := by
    refine ⟨hv, ha, by simp, hask, fun _ => hasking, ?_⟩
    intro _ row hrow
    obtain ⟨hmem, hkey, hconflict, hawaiting⟩ := hhold row hrow
    exact ⟨hkey, row, hmem, hkey, rfl, rfl, rfl, hconflict, hawaiting, .inl rfl⟩
  intro c hr hd
  have hkept : Kept (Undecided.observer toLowercase key) (Undecided.Before key) (Undecided.Waits key)
      (Undecided.Reported key) := Undecided.kept
  have hinv := hkept.reach (fun w w' h ho => h.others ho) (fun o w _ h => h.1) hr hstart
  have hw : Undecided.Waits key [] c.world := Inv.world (fun _ h => h) (fun _ _ h => h.1) hinv
  refine ⟨?_, ?_, ?_⟩
  · exact fun m hm hkey event hdisputes => Undecided.settles_exitOf hw.policy (hw.asking hd m hm hkey) hdisputes
  · intro row hrow
    obtain ⟨-, m, hm, -, hu⟩ := hw.held hd row hrow
    exact ⟨m, hm, hu⟩
  · rintro o k hthread
    obtain ⟨w, thread⟩ := c
    obtain rfl : thread = _ := hthread
    exact (Inv.at hinv).2

/-- `planningMapping` on hold with a change of its event. -/
def heldMapping : Mapping := { planningMapping with localDirty := true, conflictState := .unresolved }

theorem undecided_untouched_planning :
    Undecided.Untouched String.toLower ("work", "planning") (some heldMapping) (planningTables heldMapping) := by
  have ha : (planningTables heldMapping).Addressed := by
    unfold Db.Addressed
    decide
  refine undecided_untouched String.toLower ("work", "planning") (by decide) ha rfl ?_ ?_
  · intro m hm _
    obtain rfl := List.mem_singleton.1 hm
    exact ⟨rfl, rfl, by rintro (hd | ht) <;> contradiction⟩
  · rintro row ⟨⟩
    exact ⟨List.mem_singleton.2 rfl, rfl, rfl, .inl rfl⟩

end Prosepect
