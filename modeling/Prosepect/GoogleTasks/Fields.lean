/-
`google_tasks.rs`, `google_tasks_client.rs`: the fields a task shares with its copy in Google Tasks,
their three-way merge, and what is read of an answer of Google.
-/
import Prosepect.Data.Time

namespace Prosepect

open Time Text

namespace GoogleTasks

structure TaskFields where
  title : String
  date : Option NaiveDate
  completed : Bool
deriving DecidableEq, Repr

inductive ConflictField
  | title | date | completion
deriving DecidableEq, Repr

inductive TaskConflictChoice
  | google | prosepect
deriving DecidableEq, Repr

section Merge

variable {α : Type} [DecidableEq α]

def merge (baseline mine remote : α) : Option α :=
  if mine = remote ∨ remote = baseline then some mine
  else if mine = baseline then some remote
  else none

theorem merge_self (baseline mine : α) : merge baseline mine mine = some mine := by
  simp [merge]

/-- Where only the remote side has changed, it wins. -/
theorem merge_baseline (baseline remote : α) : merge baseline baseline remote = some remote := by
  unfold merge
  split
  · rename_i h
    rcases h with h | h <;> rw [h]
  · simp

theorem merge_remote_baseline (baseline mine : α) : merge baseline mine baseline = some mine := by
  simp [merge]

end Merge

def orConflict {α : Type} (field : ConflictField) : Option α → Except ConflictField α
  | some a => .ok a
  | none => .error field

/-- Independent changes are merged; two changes of one field have no winner. -/
def reconcile (baseline mine remote : TaskFields) : Except ConflictField TaskFields := do
  return {
    title := ← orConflict .title (merge baseline.title mine.title remote.title)
    date := ← orConflict .date (merge baseline.date mine.date remote.date)
    completed := ← orConflict .completion (merge baseline.completed mine.completed remote.completed) }

def resolveConflictingFields (baseline mine remote : TaskFields) (choice : TaskConflictChoice) : TaskFields :=
  let preferred := match choice with
    | .google => remote
    | .prosepect => mine
  { title := (merge baseline.title mine.title remote.title).getD preferred.title
    date := (merge baseline.date mine.date remote.date).getD preferred.date
    completed := (merge baseline.completed mine.completed remote.completed).getD preferred.completed }

theorem reconcile_self (baseline mine : TaskFields) : reconcile baseline mine mine = .ok mine := by
  unfold reconcile
  simp only [merge_self]
  rfl

theorem reconcile_baseline (baseline remote : TaskFields) : reconcile baseline baseline remote = .ok remote := by
  unfold reconcile
  simp only [merge_baseline]
  rfl

theorem reconcile_remote_baseline (baseline mine : TaskFields) : reconcile baseline mine baseline = .ok mine := by
  unfold reconcile
  simp only [merge_remote_baseline]
  rfl

/-- A title is never truncated. -/
def TaskFields.valid (f : TaskFields) : Bool := decide ((trim f.title).length ≠ 0) && decide ((trim f.title).length ≤ 240)

/-! ## What Google answers -/

inductive TasksError
  | authorization | notFound | conflict | rateLimited | unavailable | invalidResponse | invalidInput | capacity
  | ambiguousCreate
deriving DecidableEq, Repr

structure GoogleTask where
  id : String
  etag : Option String
  title : String
  due : Option String
  status : Option String
  deleted : Bool
  notes : Option String
  assignmentInfo : Option String
deriving DecidableEq, Repr

/-- `parse_from_rfc3339` and `date_naive`, and how a date is printed. -/
structure Dates where
  parse : String → Option NaiveDate
  print : NaiveDate → String

def GoogleTask.fields (dates : Dates) (task : GoogleTask) : Except TasksError TaskFields := do
  if task.id = "" ∨ task.deleted = true ∨ task.assignmentInfo.isSome then throw .invalidInput
  let completed ← match task.status with
    | some "completed" => pure true
    | some "needsAction" => pure false
    | _ => throw .invalidResponse
  let date ← match task.due with
    | none => pure none
    | some due =>
      match dates.parse due with
      | some date => pure (some date)
      | none => throw .invalidResponse
  let fields : TaskFields := { title := trim task.title, date := date, completed := completed }
  if fields.valid = false then throw .invalidInput
  return fields

/-- `google_body`. -/
structure GoogleBody where
  title : String
  due : Option String
  status : String
deriving DecidableEq, Repr

def TaskFields.googleBody (dates : Dates) (f : TaskFields) : GoogleBody where
  title := f.title
  due := f.date.map fun date => dates.print date ++ "T00:00:00.000Z"
  status := if f.completed then "completed" else "needsAction"

end GoogleTasks

end Prosepect
