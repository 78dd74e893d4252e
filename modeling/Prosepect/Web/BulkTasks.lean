/-
`bulk-tasks.ts`: the request of a bulk action on a task leaves its rule of recurrence out, and what is
left out of a request is decoded to its default. So the rule of a recurring task is dropped with its
defaults, whatever the action names (`bulkTaskFields_keeps_iff`).
-/
import Prosepect.Data.Script
import Prosepect.Store.Completion

namespace Prosepect.Web

open Resumption Table Text Time Store

/-! ## The requests -/

/-- The actions other than a deletion. -/
inductive BulkTaskAction
  | complete
  | priority (priority : TaskPriority)
  | project (projectId : Option Uuid)
  | label (label : String)
deriving DecidableEq

/-- The JSON object of an update; nothing where a key is left out. -/
structure EditableTaskFields where
  title : String
  description : String
  projectId : Option Uuid
  parentTaskId : Option Uuid
  dueAt : Option DateTime
  scheduledStart : Option DateTime
  scheduledEnd : Option DateTime
  remindAt : Option DateTime
  status : TaskStatus
  priority : TaskPriority
  recurrence : Option TaskRecurrence
  labels : Option (List String)
  recurrenceScope : Option RecurrenceEditScope

def bulkTaskFields (task : Task) (action : BulkTaskAction) : EditableTaskFields where
  title := task.title
  description := task.description
  projectId := match action with
    | .project projectId => projectId
    | _ => task.projectId
  parentTaskId := task.parentTaskId
  dueAt := task.dueAt
  scheduledStart := task.scheduledStart
  scheduledEnd := task.scheduledEnd
  remindAt := task.remindAt
  status := match action with
    | .complete => .completed
    | _ => task.status
  priority := match action with
    | .priority priority => priority
    | _ => task.priority
  recurrence := none
  -- a `Set` keeps the first of equal labels
  labels := some (match action with
    | .label label => (task.labels ++ [String.ofList (Script.trim label.toList)]).eraseDups
    | _ => task.labels)
  recurrenceScope := none

/-- What `setTaskStatus` sends. -/
def statusFields (task : Task) (status : TaskStatus) : EditableTaskFields where
  title := task.title
  description := task.description
  projectId := task.projectId
  parentTaskId := task.parentTaskId
  dueAt := task.dueAt
  scheduledStart := task.scheduledStart
  scheduledEnd := task.scheduledEnd
  remindAt := task.remindAt
  status := status
  priority := task.priority
  recurrence := some task.recurrence
  labels := some task.labels
  recurrenceScope := none

/-- `#[serde(default)]` of the rule and of the labels. -/
def EditableTaskFields.decode (fields : EditableTaskFields) (expectedVersion : Int) : UpdateTaskRequest where
  projectId := fields.projectId
  parentTaskId := fields.parentTaskId
  title := fields.title
  description := fields.description
  dueAt := fields.dueAt
  scheduledStart := fields.scheduledStart
  scheduledEnd := fields.scheduledEnd
  status := fields.status
  priority := fields.priority
  recurrence := fields.recurrence.getD .none
  labels := fields.labels.getD []
  remindAt := fields.remindAt
  expectedVersion := expectedVersion

/-- The update of a task at the version it was read. -/
def sendFields (toLowercase : String → String) (task : Task) (fields : EditableTaskFields) : StoreTx Task :=
  updateTaskScoped toLowercase task.id (fields.decode task.version) fields.recurrenceScope

/-! ## What an action is to leave -/

/-- The fields that the action does not name are as they were. -/
structure KeepsOthers (action : BulkTaskAction) (row row' : TaskRow) : Prop where
  title : row'.title = row.title
  description : row'.description = row.description
  parentTaskId : row'.parentTaskId = row.parentTaskId
  dueAt : row'.dueAt = row.dueAt
  scheduledStart : row'.scheduledStart = row.scheduledStart
  scheduledEnd : row'.scheduledEnd = row.scheduledEnd
  remindAt : row'.remindAt = row.remindAt
  recurrence : row'.recurrence = row.recurrence
  recurrenceDefaults : row'.recurrenceDefaults = row.recurrenceDefaults
  recurrenceProjectId : row'.recurrenceProjectId = row.recurrenceProjectId
  projectId : (∀ p, action ≠ .project p) → row'.projectId = row.projectId
  status : action ≠ .complete → row'.status = row.status
  priority : (∀ p, action ≠ .priority p) → row'.priority = row.priority
  labels : (∀ l, action ≠ .label l) → row'.labels = row.labels

/-- A recurring task that is completed leaves the tasks that `setTaskStatus` leaves. -/
def CompletesAlike (toLowercase : String → String) (action : BulkTaskAction) (row : TaskRow) (db db' : Db) : Prop :=
  action = .complete → row.recurrence ≠ .none →
    ∃ a db'', sendFields toLowercase row.toTask (statusFields row.toTask .completed) db = .ok (a, db'') ∧ db'.tasks = db''.tasks

/-- A task without a rule and without defaults of one, whose texts are stored as the server stores them. -/
structure Plainly (toLowercase : String → String) (action : BulkTaskAction) (row : TaskRow) : Prop where
  recurrence : row.recurrence = .none
  recurrenceDefaults : row.recurrenceDefaults = none
  recurrenceProjectId : row.recurrenceProjectId = none
  title : trim row.title = row.title
  description : trim row.description = row.description
  labels : (∀ l, action ≠ .label l) → validateLabels toLowercase row.labels = .ok row.labels

/-! ## What it leaves -/

variable {toLowercase : String → String} {action : BulkTaskAction} {db db' : Db} {row : TaskRow} {a : Task}

/-- Without a scope a request without a rule drops the defaults. -/
theorem prepare_drops {r : UpdateTaskRequest} {prepared : TaskRow} (hr : r.recurrence = .none) (h : prepare row r none = .ok prepared) :
    prepared = { row with recurrenceDefaults := none, recurrenceProjectId := none } := by
  have hversion := (prepare_ok h).1
  have hscope : ¬ ((none : Option RecurrenceEditScope).isSome = true ∧ row.status = .completed) := by simp
  have hdrop : r.recurrence ≠ row.recurrence ∨ r.recurrence = .none := .inr hr
  unfold prepare at h
  rw [if_neg (not_not.2 hversion), if_neg hscope] at h
  simp only [if_pos hdrop] at h
  cases h
  rfl

/-- The row after an action: no rule, no defaults, and the texts as the server stores them. -/
theorem sendFields_bulk (hids : Unique (fun t : TaskRow => some t.id) db.tasks) (hrow : db.task? row.id = some row)
    (h : sendFields toLowercase row.toTask (bulkTaskFields row.toTask action) db = .ok (a, db')) :
    ∃ labels, validateLabels toLowercase ((bulkTaskFields row.toTask action).labels.getD []) = .ok labels ∧
      db'.task? row.id = some (updatedTask ((bulkTaskFields row.toTask action).decode row.version) labels
        { row with recurrenceDefaults := none, recurrenceProjectId := none } db.now row) := by
  obtain ⟨row', updated, -, hu⟩ := updateTaskScoped_ok h
  obtain ⟨labels, prepared, hlabels, hprepared, rfl⟩ := hu.written
  have hfound : db.task? row.id = some row' := hu.found
  rw [hrow] at hfound
  cases hfound
  rw [prepare_drops rfl hprepared] at hu
  exact ⟨labels, hlabels, hu.task? hids⟩

/-- What an action does not name is kept, and completing leaves what `setTaskStatus` leaves, exactly for the
tasks that do not recur and whose texts are stored as the server stores them. -/
theorem bulkTaskFields_keeps_iff (hids : Unique (fun t : TaskRow => some t.id) db.tasks) (hrow : db.task? row.id = some row)
    (h : sendFields toLowercase row.toTask (bulkTaskFields row.toTask action) db = .ok (a, db')) :
    (∃ row', db'.task? row.id = some row' ∧ KeepsOthers action row row' ∧ CompletesAlike toLowercase action row db db') ↔
      Plainly toLowercase action row := by
  obtain ⟨labels, hlabels, hrow'⟩ := sendFields_bulk hids hrow h
  constructor
  · rintro ⟨row', hfound, hkeeps, -⟩
    rw [hrow'] at hfound
    cases hfound
    refine ⟨hkeeps.recurrence.symm, hkeeps.recurrenceDefaults.symm, hkeeps.recurrenceProjectId.symm, hkeeps.title,
      hkeeps.description, fun hother => ?_⟩
    have hsame : labels = row.labels := hkeeps.labels hother
    cases action with
    | label l => exact absurd rfl (hother l)
    | complete => exact hlabels.trans (congrArg Except.ok hsame)
    | priority p => exact hlabels.trans (congrArg Except.ok hsame)
    | project p => exact hlabels.trans (congrArg Except.ok hsame)
  · intro hplain
    refine ⟨_, hrow', ⟨hplain.title, hplain.description, rfl, rfl, rfl, rfl, rfl, hplain.recurrence.symm,
      hplain.recurrenceDefaults.symm, hplain.recurrenceProjectId.symm, ?_, ?_, ?_, ?_⟩, ?_⟩
    · intro hother
      cases action with
      | project p => exact absurd rfl (hother p)
      | _ => rfl
    · intro hother
      cases action with
      | complete => exact absurd rfl hother
      | _ => rfl
    · intro hother
      cases action with
      | priority p => exact absurd rfl (hother p)
      | _ => rfl
    · intro hother
      have hstored := hplain.labels hother
      cases action with
      | label l => exact absurd rfl (hother l)
      | _ => exact Except.ok.inj (hlabels.symm.trans hstored)
    · intro _ hrecurs
      exact absurd hplain.recurrence hrecurs

/-! ## A daily task -/

/-- The tables after a bulk action on their one task. -/
def afterBulk (row : TaskRow) (action : BulkTaskAction) : Db :=
  (Tx.commit (sendFields (fun s => s) row.toTask (bulkTaskFields row.toTask action)) (soloTables row)).2

theorem unique_soloTables (row : TaskRow) : Unique (fun t : TaskRow => some t.id) (soloTables row).tasks :=
  List.pairwise_singleton _ row

/-- The same task, once. -/
def errand : TaskRow := { standup with recurrence := .none, dueAt := none }

theorem bulkTaskFields_keeps_iff_errand :
    (∃ row', (afterBulk errand .complete).task? errand.id = some row' ∧ KeepsOthers .complete errand row' ∧
      CompletesAlike (fun s => s) .complete errand (soloTables errand) (afterBulk errand .complete)) ↔
    Plainly (fun s => s) .complete errand := by
  obtain ⟨a, h⟩ := Tx.commit_ok (t := sendFields (fun s => s) errand.toTask (bulkTaskFields errand.toTask .complete))
    (s := soloTables errand) (by decide +kernel)
  exact bulkTaskFields_keeps_iff (unique_soloTables errand) (by decide) h

/-- A new priority ends the rule of a daily task, and so does completing it, which leaves no successor. -/
theorem bulk_drops_rule :
    (∃ row', (afterBulk standup (.priority .high)).task? standup.id = some row' ∧ ¬ KeepsOthers (.priority .high) standup row') ∧
      ¬ CompletesAlike (fun s => s) .complete standup (soloTables standup) (afterBulk standup .complete) := by
  constructor
  · have hrule : ((afterBulk standup (.priority .high)).task? standup.id).map (·.recurrence) = some .none := by decide +kernel
    obtain ⟨row', hrow', hnone⟩ := Option.map_eq_some_iff.1 hrule
    refine ⟨row', hrow', fun hkeeps => ?_⟩
    rw [hkeeps.recurrence] at hnone
    cases hnone
  · intro halike
    obtain ⟨a, db', hrun, htasks⟩ := halike rfl (by decide)
    have halone : (afterBulk standup .complete).tasks.length = 1 := by decide +kernel
    have htwo : ((Tx.commit (sendFields (fun s => s) standup.toTask (statusFields standup.toTask .completed))
        (soloTables standup)).2.tasks).length = 2 := by decide +kernel
    unfold Tx.commit at htwo
    rw [hrun] at htwo
    rw [htasks] at halone
    exact absurd (htwo.symm.trans halone) (by decide)

end Prosepect.Web
