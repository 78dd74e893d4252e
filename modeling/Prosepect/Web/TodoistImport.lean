/-
`todoist-import.ts`: the rows of a Todoist export become tasks. The CSV reader, the date detector and
the clock of the browser are not read here: the rows are what the reader returned, and `Browser` has
what the detector and the clock answer.
-/
import Prosepect.Data.Outline
import Prosepect.Web.QuickCapture

namespace Prosepect.Web

open Text Script Regex Outline

/-- What the import asks the browser. Instants are milliseconds. -/
structure Browser extends Host where
  detectTemporalSuggestion : List Char → Option TemporalSuggestion
  /-- `zonedLocalToIso`; nothing where it throws. -/
  zonedLocalToIso : (localDateTime timeZone : List Char) → Option Int
  /-- `new Date(localDateTime)`; nothing where it is invalid. -/
  localDate : (localDateTime : List Char) → Option Int
  /-- `Number(text)` where it is finite. -/
  toNumber : List Char → Option Rat

inductive ImportedRecurrence
  | none | daily | weekly | monthly | yearly
deriving DecidableEq, Repr

structure TodoistImportTaskPayload where
  title : List Char
  description : List Char
  dueAt : Option Int
  scheduledStart : Option Int
  scheduledEnd : Option Int
  priority : CapturedPriority
  recurrence : ImportedRecurrence
  labels : List (List Char)
  parentIndex : Option Nat
deriving DecidableEq

structure TodoistImportReport where
  importedTasks : Nat
  importedComments : Nat
  importedSections : Nat
  skippedRows : Nat
  warnings : List (List Char)
deriving DecidableEq

structure TodoistImportRequestPayload where
  projectName : List Char
  projectDescription : List Char
  tasks : List TodoistImportTaskPayload
deriving DecidableEq

structure ParsedTodoistImport where
  request : TodoistImportRequestPayload
  report : TodoistImportReport
deriving DecidableEq

/-- A row by the names of its columns. -/
abbrev TodoistRow := String → Option (List Char)

/-- What the CSV reader returns. -/
structure ParseResult where
  data : List TodoistRow
  errors : List (Option String)
  fields : Option (List String)

/-! ## Fields -/

def field (row : TodoistRow) (name : String) : List Char := (row name).getD []

def parseIndent (value : List Char) : Nat :=
  match parseInt value with
  | some indent => if 1 ≤ indent ∧ indent ≤ 4 then indent.toNat else 1
  | none => 1

/-- `[description.trim(), addition.trim()].filter(Boolean).join('\n\n')` -/
def appendDescription (description addition : List Char) : List Char :=
  if trim description = [] then trim addition
  else if trim addition = [] then trim description
  else trim description ++ '\n' :: '\n' :: trim addition

def truncate (value : List Char) (maximum : Nat) : List Char := value.take maximum

def addWarning (report : TodoistImportReport) (warning : List Char) : TodoistImportReport :=
  if report.warnings.contains warning then report else { report with warnings := report.warnings ++ [warning] }

/-- `Row n: text` -/
def rowWarning (sourceRow : Nat) (text : List Char) : List Char :=
  "Row ".toList ++ (sourceRow.repr.toList ++ (": ".toList ++ text))

def PRIORITIES (value : List Char) : Option CapturedPriority :=
  match value with
  | [c] => PRIORITY_MAP c
  | _ => none

/-! ## Recurrence -/

def isDigit (c : Char) : Bool := (digitVal c).isSome

/-- `(?:tail)?` after a stem. -/
def stem (s tail : String) : Pattern := .seq (word s) (.rep 0 (some 1) (word tail))

def WEEKDAY : Pattern :=
  .any [stem "mon" "day", stem "tue" "sday", stem "wed" "nesday", stem "thu" "rsday", stem "fri" "day",
    stem "sat" "urday", stem "sun" "day"]

/-- `(?:\s+(?:at\s+)?(?:\d{1,2}(?::\d{2})?\s*(?:am|pm)?))?` -/
def clockPattern : Pattern :=
  .rep 0 (some 1) (.all [spaces 1, .rep 0 (some 1) (.seq (word "at") (spaces 1)), .rep 1 (some 2) (.one isDigit),
    .rep 0 (some 1) (.seq (word ":") (.rep 2 (some 2) (.one isDigit))), spaces 0,
    .rep 0 (some 1) (.any [word "am", word "pm"])])

def recurrenceRules : List (ImportedRecurrence × Pattern) :=
  [(.daily, .any [word "daily", word "every day"]),
    (.weekly, .any [word "weekly", word "every week", .seq (word "every ") WEEKDAY]),
    (.monthly, .any [word "monthly", word "every month"]),
    (.yearly, .any [word "yearly", word "annually", word "every year"])]

/-- `/\bevery!?\b|\b(?:daily|weekly|monthly|yearly)\b/` -/
def recurrenceWords : Pattern :=
  .any [.all [.look wordBoundary, word "every", .rep 0 (some 1) (word "!"), .look wordBoundary],
    .all [.look wordBoundary, .any [word "daily", word "weekly", word "monthly", word "yearly"], .look wordBoundary]]

structure Recurrence where
  value : ImportedRecurrence
  unsupported : Bool

def parseRecurrence (host : Host) (input : List Char) : Recurrence :=
  let normalized := host.toLowerCase (trim input)
  if normalized = [] then ⟨.none, false⟩
  else
    match recurrenceRules.find? fun rule => (Pattern.all [.look atStart, rule.2, clockPattern, .look atEnd]).test normalized with
    | some rule => ⟨rule.1, false⟩
    | none => ⟨.none, recurrenceWords.test normalized⟩

/-! ## Dates -/

structure ImportedDate where
  dueAt : Option Int
  scheduledStart : Option Int
deriving DecidableEq

/-- `/^(?:no date|no due date)$/i` -/
def noDatePattern : Pattern :=
  .all [.look atStart, .any [.text sameLetter "no date".toList, .text sameLetter "no due date".toList], .look atEnd]

/-- The instants of a suggestion under a reading of local times; nothing where the reading throws. -/
def datesBy (read : List Char → Option Int) (temporal : TemporalSuggestion) (endOfDay : List Char) : Option ImportedDate := do
  let dueAt ←
    if truthy temporal.dueDate then (read ((temporal.dueDate).getD [] ++ endOfDay)).map some
    else if truthy temporal.scheduledStart then (read (temporal.scheduledStart.getD [])).map some
    else some none
  let scheduledStart ←
    if truthy temporal.scheduledStart then (read (temporal.scheduledStart.getD [])).map some else some none
  return ⟨dueAt, scheduledStart⟩

/-- The date and the warnings it leaves. -/
def parseImportedDate (browser : Browser) (input timeZone : List Char) (sourceRow : Nat) :
    Except String (ImportedDate × List (List Char)) :=
  if input = [] ∨ noDatePattern.test input = true then .ok (⟨none, none⟩, [])
  else
    match browser.detectTemporalSuggestion input with
    | none => .ok (⟨none, none⟩, [])
    | some temporal =>
      match datesBy (browser.zonedLocalToIso · timeZone) temporal "T23:59".toList with
      | some date => .ok (date, [])
      | none =>
        let warning := rowWarning sourceRow
          ("timezone \"".toList ++ (timeZone ++ "\" was invalid; browser timezone was used.".toList))
        match datesBy browser.localDate temporal "T23:59:00".toList with
        | some date => .ok (date, [warning])
        | none => .error "Invalid time value"

/-- The minutes and the warnings they leave. -/
def parseDuration (browser : Browser) (row : TodoistRow) (sourceRow : Nat) : Option Int × List (List Char) :=
  match browser.toNumber (field row "DURATION") with
  | none => (none, [])
  | some value =>
    if value ≤ 0 then (none, [])
    else
      let unit := browser.toLowerCase (trim (field row "DURATION_UNIT"))
      if unit = [] ∨ unit = "minute".toList ∨ unit = "minutes".toList then (some (value + 1 / 2).floor, [])
      else (none, [rowWarning sourceRow ("duration unit \"".toList ++ (unit ++ "\" was not supported.".toList))])

/-- An instant further from the epoch is no date. -/
def maximumTime : Int := 8640000000000000

def addMinutes (instant minutes : Int) : Except String Int :=
  let sum := instant + minutes * 60000
  if -maximumTime ≤ sum ∧ sum ≤ maximumTime then .ok sum else .error "Invalid time value"

/-- The end of the work time, an hour after its start if nothing else is known. -/
def workEnd (date : ImportedDate) (duration : Option Int) : Except String (Option Int) :=
  match date.scheduledStart with
  | some start => (addMinutes start (duration.getD 60)).map some
  | none => .ok none

/-! ## A task row -/

/-- The task of a row and the warnings it leaves, in the order they are added. -/
def taskOf (browser : Browser) (sourceRow : Nat) (row : TodoistRow) (content currentSection : List Char)
    (parentIndex : Option Nat) : Except String (TodoistImportTaskPayload × List (List Char)) := do
  let captured := parseQuickCapture browser.toHost content [] none
  let dateText := trim (field row "DATE")
  let deadlineText := trim (field row "DEADLINE")
  let timeZone := trim (field row "TIMEZONE")
  let language := trim (field row "DATE_LANG")
  let languageWarnings :=
    if language ≠ [] ∧ browser.toLowerCase language ≠ "en".toList then
      [rowWarning sourceRow ("date language \"".toList ++
        (language ++ "\" is not yet supported; English parsing was attempted.".toList))]
    else []
  let written := parseRecurrence browser.toHost dateText
  let writtenWarnings :=
    if written.unsupported then
      [rowWarning sourceRow ("recurrence \"".toList ++
        (dateText ++ "\" could not be represented and was preserved in the description.".toList))]
    else []
  let nested := parentIndex ≠ none ∧ written.value ≠ .none
  let nestedWarnings :=
    if nested then
      [rowWarning sourceRow "recurring subtasks are not supported; recurrence was preserved as text.".toList]
    else []
  let recurrence : Recurrence := if nested then ⟨.none, true⟩ else written
  let (date, dateWarnings) ← parseImportedDate browser dateText timeZone sourceRow
  let (deadline, deadlineWarnings) ← parseImportedDate browser deadlineText timeZone sourceRow
  let description := trim (field row "DESCRIPTION")
  let description :=
    if currentSection ≠ [] then appendDescription description ("Imported Todoist section: ".toList ++ currentSection)
    else description
  let description :=
    if recurrence.unsupported = true ∧ dateText ≠ [] then
      appendDescription description ("Todoist recurrence: ".toList ++ dateText)
    else if dateText ≠ [] ∧ date.dueAt = none ∧ date.scheduledStart = none then
      appendDescription description ("Todoist date: ".toList ++ dateText)
    else description
  let (duration, durationWarnings) := parseDuration browser row sourceRow
  let scheduledEnd ← workEnd date duration
  let responsibleWarnings :=
    if trim (field row "RESPONSIBLE") ≠ [] then
      [rowWarning sourceRow "task assignments are not supported and were omitted.".toList]
    else []
  return (
    { title := truncate (if captured.title = [] then content else captured.title) 240
      description := truncate description 10000
      dueAt := deadline.dueAt <|> date.dueAt
      scheduledStart := date.scheduledStart
      scheduledEnd
      priority := (PRIORITIES (trim (field row "PRIORITY"))).getD .medium
      recurrence := recurrence.value
      labels := captured.labels
      parentIndex },
    languageWarnings ++ writtenWarnings ++ nestedWarnings ++ dateWarnings ++ deadlineWarnings ++ durationWarnings ++
      responsibleWarnings)

/-! ## The rows one after the other -/

structure Importing where
  tasks : List TodoistImportTaskPayload
  /-- The last task at each indent. -/
  parentsByIndent : List (Option Nat)
  currentSection : List Char
  lastTaskIndex : Option Nat
  report : TodoistImportReport
deriving DecidableEq

def Importing.initial : Importing := ⟨[], [], [], none, ⟨0, 0, 0, 0, []⟩⟩

def Importing.skip (s : Importing) (warning : List Char) : Importing :=
  { s with report := addWarning { s.report with skippedRows := s.report.skippedRows + 1 } warning }

def rowType (browser : Browser) (row : TodoistRow) : List Char := browser.toLowerCase (field row "TYPE")

def rowContent (row : TodoistRow) : List Char := trim (field row "CONTENT")

def rowIndent (row : TodoistRow) : Nat := parseIndent (field row "INDENT")

def missingParent (sourceRow : Nat) : List Char :=
  rowWarning sourceRow "missing parent indentation; task was imported at top level.".toList

def appendComment (content : List Char) (task : TodoistImportTaskPayload) : TodoistImportTaskPayload :=
  { task with description := appendDescription task.description ("Imported Todoist comments:\n- ".toList ++ content) }

def importNote (sourceRow : Nat) (content : List Char) (s : Importing) : Importing :=
  match s.lastTaskIndex with
  | none => s.skip (rowWarning sourceRow "comment had no preceding task and was skipped.".toList)
  | some last =>
    if content = [] then s.skip (rowWarning sourceRow "comment had no preceding task and was skipped.".toList)
    else
      { s with
        tasks := s.tasks.modify last (appendComment content)
        report := { s.report with importedComments := s.report.importedComments + 1 } }

def importTask (browser : Browser) (sourceRow : Nat) (row : TodoistRow) (s : Importing) : Except String Importing := do
  let indent := rowIndent row
  let parentIndex := if indent > 1 then at? s.parentsByIndent (indent - 1) else none
  let (task, warnings) ← taskOf browser sourceRow row (rowContent row) s.currentSection parentIndex
  let missing := if indent > 1 ∧ parentIndex = none then [missingParent sourceRow] else []
  let report := (missing ++ warnings).foldl addWarning s.report
  return { s with
    tasks := s.tasks ++ [task]
    lastTaskIndex := some s.tasks.length
    parentsByIndent := place s.parentsByIndent indent s.tasks.length
    report := { report with importedTasks := report.importedTasks + 1 } }

def importRow (browser : Browser) (sourceRow : Nat) (row : TodoistRow) (s : Importing) : Except String Importing :=
  let type := rowType browser row
  let content := rowContent row
  if type = "section".toList then
    .ok { s with
      currentSection := content
      report := { s.report with importedSections := s.report.importedSections + 1 } }
  else if type = "note".toList then .ok (importNote sourceRow content s)
  else if type ≠ "task".toList then
    .ok (s.skip (rowWarning sourceRow
      ("unsupported Todoist row type \"".toList ++ ((if type = [] then "empty".toList else type) ++ "\".".toList))))
  else if content = [] then .ok (s.skip (rowWarning sourceRow "empty task was skipped.".toList))
  else importTask browser sourceRow row s

/-- The rows from row `sourceRow` of the file on. -/
def importRows (browser : Browser) : (sourceRow : Nat) → List TodoistRow → Importing → Except String Importing
  | _, [], s => .ok s
  | sourceRow, row :: rest, s => do importRows browser (sourceRow + 1) rest (← importRow browser sourceRow row s)

def sectionWarning (sections : Nat) : List Char :=
  sections.repr.toList ++ " Todoist section".toList ++ ((if sections = 1 then [] else ['s']) ++
    " were preserved in task descriptions.".toList)

def parseTodoistCsv (browser : Browser) (parsed : ParseResult) (projectName : List Char) : Except String ParsedTodoistImport := do
  if let error :: _ := parsed.errors then
    throw ("Could not read Todoist CSV: " ++ error.getD "invalid CSV")
  let fields := parsed.fields.getD []
  if "TYPE" ∉ fields ∨ "CONTENT" ∉ fields then
    throw "Todoist CSV must include TYPE and CONTENT columns"
  -- the first row is row 2 of the file
  let s ← importRows browser 2 parsed.data .initial
  let report := if s.report.importedSections = 0 then s.report else addWarning s.report (sectionWarning s.report.importedSections)
  let name := trim projectName
  return {
    request := {
      projectName := truncate (if name = [] then "Todoist import".toList else name) 120
      projectDescription := "Imported from a Todoist project CSV.".toList
      tasks := s.tasks }
    report }

end Prosepect.Web
