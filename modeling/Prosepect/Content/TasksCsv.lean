/-
`export_store.rs`, `export_tasks_csv`: a reader of CSV finds the header and one record of fifteen
cells for each task, and no cell that a spreadsheet takes for a formula.
-/
import Prosepect.Data.Csv
import Prosepect.Data.Rfc3339
import Prosepect.Store.Calendars

namespace Prosepect

open Time Text Csv Store

namespace Export

/-! ## Texts of values -/

/-- `HH:MM:SS` with a fraction. -/
def clockText (t : DateTime) : List Char :=
  let s := (secondOfDay t).toNat
  padded 2 (s / 3600) ++ ':' :: (padded 2 (s / 60 % 60) ++ ':' :: (padded 2 (s % 60) ++ formatFraction (t % usPerSecond).toNat))

/-- `to_string` of a `DateTime<Utc>`. -/
def displayUtc (t : DateTime) : List Char := formatDate (dateNaive t) ++ ' ' :: (clockText t ++ " UTC".toList)

/-- `to_rfc3339`. -/
def toRfc3339 (t : DateTime) : List Char := formatDate (dateNaive t) ++ 'T' :: (clockText t ++ "+00:00".toList)

def optionalDisplay {α : Type} (toText : α → List Char) (value : Option α) : List Char := (value.map toText).getD []

/-- `format!("{:?}", status).to_lowercase()`. -/
def statusText : TaskStatus → List Char
  | .todo => "todo".toList
  | .inProgress => "inprogress".toList
  | .blocked => "blocked".toList
  | .completed => "completed".toList

def priorityText : TaskPriority → List Char
  | .low => "low".toList
  | .medium => "medium".toList
  | .high => "high".toList
  | .urgent => "urgent".toList

def recurrenceText : TaskRecurrence → List Char
  | .none => "none".toList
  | .daily => "daily".toList
  | .weekly => "weekly".toList
  | .monthly => "monthly".toList
  | .yearly => "yearly".toList

/-- `labels.join(";")`. -/
def labelsText : List String → List Char
  | [] => []
  | [label] => label.toList
  | label :: rest => label.toList ++ ';' :: labelsText rest

def idText (id : Uuid) : List Char := (uuidText id).toList

/-! ## Cells -/

/-- White space, control characters and the byte order mark. -/
def isHidden (c : Char) : Bool :=
  isWhitespace c || decide (c.toNat < 0x20 ∨ 0x7f ≤ c.toNat ∧ c.toNat < 0xa0) || decide (c.toNat = 0xfeff)

/-- What a spreadsheet takes for the start of a formula. -/
def isFormula (c : Char) : Bool := c ∈ ['=', '+', '-', '@', '＝', '＋', '－', '＠']

def unsafeCell (value : List Char) : Bool :=
  (value.head?.any fun c => c ∈ ['\t', '\r', '\n']) || ((value.dropWhile isHidden).head?.any isFormula)

/-- A cell with an apostrophe in front of it, where it is needed. -/
def guardedCell (value : List Char) : List Char := if unsafeCell value then '\x27' :: value else value

def csvField (value : List Char) : List Char :=
  if unsafeCell value || (guardedCell value).any fun c => decide (Special c) then quote (guardedCell value) else guardedCell value

def header : List (List Char) :=
  ["id".toList, "project_id".toList, "parent_task_id".toList, "title".toList, "description".toList, "due_at".toList,
    "scheduled_start".toList, "scheduled_end".toList, "status".toList, "priority".toList, "recurrence".toList,
    "labels".toList, "completed_at".toList, "created_at".toList, "updated_at".toList]

def taskFields (task : Task) : List (List Char) :=
  [idText task.id, optionalDisplay idText task.projectId, optionalDisplay idText task.parentTaskId, task.title.toList,
    task.description.toList, optionalDisplay displayUtc task.dueAt, optionalDisplay displayUtc task.scheduledStart,
    optionalDisplay displayUtc task.scheduledEnd, statusText task.status, priorityText task.priority,
    recurrenceText task.recurrence, labelsText task.labels, optionalDisplay displayUtc task.completedAt,
    toRfc3339 task.createdAt, toRfc3339 task.updatedAt]

def exportTasksCsv (tasks : List Task) : List Char :=
  "id,project_id,parent_task_id,title,description,due_at,scheduled_start,scheduled_end,status,priority,recurrence,labels,completed_at,created_at,updated_at\r\n".toList ++
    tasks.flatMap fun task => joined ((taskFields task).map csvField) ++ ['\r', '\n']

/-! ## What a reader finds -/

theorem writes_csvField (value : List Char) : Writes (guardedCell value) (csvField value) := by
  unfold csvField
  split
  · exact .quoted
  · rename_i h
    simp only [Bool.or_eq_true, not_or, List.any_eq_true, decide_eq_true_eq, not_exists, not_and] at h
    exact .plain h.2

theorem isHidden_apostrophe : isHidden '\x27' = false := by decide

theorem isFormula_apostrophe : isFormula '\x27' = false := by decide

/-- A guarded cell does not start a formula, whatever is hidden in front of it. -/
theorem guardedCell_inert (value : List Char) : ((guardedCell value).dropWhile isHidden).head?.any isFormula = false := by
  unfold guardedCell
  split
  · rw [List.dropWhile_cons_of_neg (by simp [isHidden_apostrophe])]
    exact isFormula_apostrophe
  · rename_i h
    unfold unsafeCell at h
    simp only [Bool.or_eq_true, not_or, Bool.not_eq_true] at h
    exact h.2

theorem header_text : joined (header.map csvField) ++ ['\r', '\n'] =
    "id,project_id,parent_task_id,title,description,due_at,scheduled_start,scheduled_end,status,priority,recurrence,labels,completed_at,created_at,updated_at\r\n".toList := by
  decide +kernel

/-- The names of the columns need no apostrophe. -/
theorem header_guarded : header.map guardedCell = header := by decide +kernel

theorem writes_cells (cells : List (List Char)) : List.Forall₂ Writes (cells.map guardedCell) (cells.map csvField) := by
  rw [List.forall₂_map_left_iff, List.forall₂_map_right_iff]
  exact List.forall₂_same.2 fun value _ => writes_csvField value

/-- The cells a reader is to find. -/
def records (tasks : List Task) : List (List (List Char)) :=
  header :: tasks.map fun task => (taskFields task).map guardedCell

theorem read_exportTasksCsv (tasks : List Task) : read (exportTasksCsv tasks) = some (records tasks) := by
  have hwritten : exportTasksCsv tasks = (header.map csvField :: tasks.map fun task => (taskFields task).map csvField).flatMap
      fun ws => joined ws ++ ['\r', '\n'] := by
    unfold exportTasksCsv
    rw [← header_text, List.flatMap_cons, List.flatMap_map]
  rw [hwritten]
  refine read_records (.cons ⟨by simp [header], ?_⟩ ?_)
  · have hcells := writes_cells header
    rwa [header_guarded] at hcells
  · rw [List.forall₂_map_left_iff, List.forall₂_map_right_iff]
    exact List.forall₂_same.2 fun task _ => ⟨by simp [taskFields], writes_cells _⟩

theorem guarded_of_mem_records {tasks : List Task} {record : List (List Char)} {cell : List Char}
    (hrecord : record ∈ records tasks) (hcell : cell ∈ record) : ∃ value, cell = guardedCell value := by
  rcases List.mem_cons.1 hrecord with rfl | hrecord
  · rw [← header_guarded] at hcell
    obtain ⟨value, -, rfl⟩ := List.mem_map.1 hcell
    exact ⟨value, rfl⟩
  · obtain ⟨task, -, rfl⟩ := List.mem_map.1 hrecord
    obtain ⟨value, -, rfl⟩ := List.mem_map.1 hcell
    exact ⟨value, rfl⟩

end Export

end Prosepect
