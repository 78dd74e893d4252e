/-
One remote event, delivered without interruption: the decision `apply_remote_event` takes, as a
table over the event, the mapping and the policy (`exitOf`), and what each outcome leaves in the
tables (`deliver`). `run_applyRemoteEvent` connects the two to the program.
-/
import Prosepect.Calendar.Sync
import Prosepect.Calendar.StatementFacts

namespace Prosepect

open Resumption

/-! ## Uninterrupted runs -/

/-- Google as a party that answers requests. -/
structure Provider (σ : Type) where
  answer : (r : Request) → σ → Except Unit (Response r.Body) × σ

def exec {σ : Type} (P : Provider σ) : (o : calendarSig.Op) → Db × σ → calendarSig.Res o × (Db × σ)
  | .sql s, w => ((s.exec w.1).1, ((s.exec w.1).2, w.2))
  | .http r, w => ((P.answer r w.2).1, (w.1, (P.answer r w.2).2))

namespace SyncService

section Run

variable {σ α : Type} {P : Provider σ} {g : σ} {db db' : Db} {s : Stmt}

theorem run_sql_ok {v : s.Val} (h : s.run db = .ok (v, db')) :
    (sql s).run (exec P) (db, g) = (.ok v, (db', g)) := by
  have hx : exec P (.sql s) (db, g) = (.ok v, (db', g)) := by simp only [exec, Stmt.exec_ok h]
  rw [sql, Prog.run_op, hx]
  rfl

theorem run_sql_error {e : SqlError} (h : s.run db = .error e) :
    (sql s).run (exec P) (db, g) = (.error (.database e), (db, g)) := by
  have hx : exec P (.sql s) (db, g) = (.error e, (db, g)) := by simp only [exec, Stmt.exec_error h]
  rw [sql, Prog.run_op, hx]
  rfl

theorem run_sql_bind {v : s.Val} {k : s.Val → Sync α} (h : s.run db = .ok (v, db')) :
    ((sql s).bind k).run (exec P) (db, g) = (k v).run (exec P) (db', g) :=
  Prog.run_bind_ok _ (run_sql_ok h)

theorem run_sql_bind_error {k : s.Val → Sync α} {e : SqlError} (h : s.run db = .error e) :
    ((sql s).bind k).run (exec P) (db, g) = (.error (.database e), (db, g)) :=
  Prog.run_bind_error _ (run_sql_error h)

end Run

/-- An uninterrupted run keeps the constraints of the schema. -/
theorem run_valid {σ α : Type} {P : Provider σ} (p : Sync α) {w : Db × σ} (h : w.1.Valid) :
    (p.run (exec P) w).2.1.Valid := by
  induction p generalizing w with
  | ret a => exact h
  | fail e => exact h
  | op o k ih =>
    rw [Prog.run_op]
    apply ih
    cases o with
    | sql s => exact s.exec_valid h
    | http r => exact h

/-! ## The decision -/

/-- The outcomes of a delivery. -/
inductive Exit
  | skip
  | invalid (message : String)
  | drop (mapping : MappingState)
  | holdConflict (mapping : MappingState)
  | conflict (mapping : MappingState) (title : String)
  | forget (mapping : MappingState)
  | remove (mapping : MappingState)
  | keep (mapping : MappingState)
  | overwrite (mapping : MappingState) (content : NormalizedEvent)
  | importNew (externalId : String) (content : NormalizedEvent)
deriving DecidableEq, Repr

/-- The policy in force for a mapping, given the setting of the user. -/
def policyInForce (setting : Option SyncConflictPolicy) (mapping : MappingState) : SyncConflictPolicy :=
  match mapping.pendingResolution with
  | some resolution => resolution.policy
  | none => setting.getD .ask

def exitTombstone (event : GoogleEvent) (m : MappingState) : Exit :=
  if event.cancelled then .drop m
  else if event.etag.isNone || m.externalEtag != event.etag then .holdConflict m
  else .skip

def exitCancelled (event : GoogleEvent) (setting : Option SyncConflictPolicy) (m : MappingState) : Exit :=
  if m.localDirty then
    if policyInForce setting m = .ask then .conflict m (event.summary.getD "Deleted event")
    else if keepLocal (policyInForce setting m) event m then .forget m
    else .remove m
  else .remove m

def exitChanged (event : GoogleEvent) (setting : Option SyncConflictPolicy) (n : NormalizedEvent)
    (m : MappingState) : Exit :=
  if m.externalEtag = event.etag then .skip
  else if m.localDirty || m.localDeleted then
    if policyInForce setting m = .ask then .conflict m n.title
    else if keepLocal (policyInForce setting m) event m then .keep m
    else .overwrite m n
  else .overwrite m n

def exitOf (externalId : String) (event : GoogleEvent) (setting : Option SyncConflictPolicy) :
    Option MappingState → Exit
  | some m =>
    if m.reversibleTombstone then exitTombstone event m
    else if event.cancelled then exitCancelled event setting m
    else match normalizeEvent event with
      | .ok n => exitChanged event setting n m
      | .error message => .invalid message
  | none =>
    if event.cancelled then .skip
    else match normalizeEvent event with
      | .ok n => .importNew externalId n
      | .error message => .invalid message

/-- The outcomes for a mapping with local changes and a live event it has not seen. -/
theorem exitOf_edited (externalId : String) {event : GoogleEvent} (setting : Option SyncConflictPolicy)
    {m : MappingState} {n : NormalizedEvent} (htomb : m.reversibleTombstone = false) (hc : event.cancelled = false)
    (hn : normalizeEvent event = .ok n) (hetag : m.externalEtag ≠ event.etag)
    (hedit : (m.localDirty || m.localDeleted) = true) :
    exitOf externalId event setting (some m) =
      if policyInForce setting m = .ask then .conflict m n.title
      else if keepLocal (policyInForce setting m) event m then .keep m
      else .overwrite m n := by
  simp only [exitOf, exitChanged, htomb, hc, hn, hetag, hedit, Bool.false_eq_true, if_false, if_true]

/-- The statements of an outcome. -/
def Exit.perform (calendar : SyncCalendar) (event : GoogleEvent) : Exit → Sync Unit
  | .skip => .ret ()
  | .invalid message => .fail (.integration message)
  | .drop m => sql (.dropTombstone m.id)
  | .holdConflict m => do
    createConflict m (event.summary.getD "Deleted task event")
    sql (.deleteUndos m.id)
  | .conflict m title => createConflict m title
  | .forget m => sql (.deleteMapping m.id)
  | .remove m => do
    match m.canonicalEventId with
    | some eventId => sql (.deleteCanonicalEvent eventId)
    | none => pure ()
    sql (.deleteMapping m.id)
    recordActivity "remote_event_deleted" "Applied a Google event deletion"
  | .keep m => sql (.clearPendingResolution m.id)
  | .overwrite m n => applyContent calendar m event n
  | .importNew externalId n => importEvent calendar externalId event n

section Decision

variable {σ α : Type} {P : Provider σ} {g : σ} {db : Db}

theorem run_policyOf_bind (m : MappingState) (k : SyncConflictPolicy → Sync α) :
    ((policyOf m).bind k).run (exec P) (db, g) = (k (policyInForce db.policy m)).run (exec P) (db, g) := by
  unfold policyOf policyInForce
  cases m.pendingResolution with
  | some r => rfl
  | none =>
    simp only [Prog.bind_eq, Prog.bind_assoc]
    rw [run_sql_bind (s := .selectPolicy) rfl]
    rfl

theorem run_applyToTombstone (calendar : SyncCalendar) (event : GoogleEvent) (m : MappingState) :
    (applyToTombstone m event).run (exec P) (db, g) =
      ((exitTombstone event m).perform calendar event).run (exec P) (db, g) := by
  unfold applyToTombstone exitTombstone
  by_cases hc : event.cancelled = true
  · simp only [hc, if_true, Exit.perform]
  · by_cases he : (event.etag.isNone || m.externalEtag != event.etag) = true
    · simp only [hc, he, if_true, Exit.perform]
      rfl
    · simp only [hc, he, Exit.perform]
      rfl

theorem run_applyCancelled (calendar : SyncCalendar) (event : GoogleEvent) (m : MappingState) :
    (applyCancelled m event).run (exec P) (db, g) =
      ((exitCancelled event db.policy m).perform calendar event).run (exec P) (db, g) := by
  unfold applyCancelled exitCancelled
  by_cases hd : m.localDirty = true
  · simp only [hd, if_true]
    rw [Prog.bind_eq, run_policyOf_bind]
    by_cases ha : policyInForce db.policy m = .ask
    · simp only [ha, if_true, Exit.perform]
    · by_cases hk : keepLocal (policyInForce db.policy m) event m = true
      · simp only [ha, if_false, hk, if_true, Exit.perform]
      · simp only [ha, if_false, hk, Exit.perform]
        rfl
  · simp only [hd, Exit.perform]
    rfl

theorem run_applyChanged (calendar : SyncCalendar) (event : GoogleEvent) (n : NormalizedEvent) (m : MappingState) :
    (applyChanged calendar m event n).run (exec P) (db, g) =
      ((exitChanged event db.policy n m).perform calendar event).run (exec P) (db, g) := by
  unfold applyChanged exitChanged
  by_cases he : m.externalEtag = event.etag
  · simp only [he, if_true, Exit.perform, Prog.pure_eq]
  · by_cases hd : (m.localDirty || m.localDeleted) = true
    · simp only [he, if_false, hd, if_true]
      rw [Prog.bind_eq, run_policyOf_bind]
      by_cases ha : policyInForce db.policy m = .ask
      · simp only [ha, if_true, Exit.perform]
      · by_cases hk : keepLocal (policyInForce db.policy m) event m = true
        · simp only [ha, if_false, hk, if_true, Exit.perform]
        · simp only [ha, if_false, hk, Exit.perform]
          rfl
    · simp only [he, if_false, hd, Exit.perform]
      rfl

/-- A delivery takes the outcome of the table. -/
theorem run_applyRemoteEvent (calendar : SyncCalendar) {event : GoogleEvent} {externalId : String}
    (hid : event.id = some externalId) :
    (applyRemoteEvent calendar event).run (exec P) (db, g) =
      ((exitOf externalId event db.policy ((db.mappingAt? calendar.externalId externalId).map db.mappingState)).perform
        calendar event).run (exec P) (db, g) := by
  unfold applyRemoteEvent
  rw [hid]
  simp only [Prog.bind_eq]
  rw [run_sql_bind rfl]
  cases db.mappingAt? calendar.externalId externalId with
  | none =>
    simp only [Option.map_none, exitOf]
    split
    · rfl
    · cases normalizeEvent event <;> rfl
  | some m =>
    simp only [Option.map_some, exitOf]
    split
    · exact run_applyToTombstone calendar event _
    · split
      · exact run_applyCancelled calendar event _
      · cases normalizeEvent event with
        | error message => rfl
        | ok n => exact run_applyChanged calendar event n _

theorem run_applyRemoteEvent_none (calendar : SyncCalendar) {event : GoogleEvent} (hid : event.id = none) :
    (applyRemoteEvent calendar event).run (exec P) (db, g) = (.ok (), (db, g)) := by
  unfold applyRemoteEvent
  rw [hid]
  rfl

end Decision

end SyncService

end Prosepect
