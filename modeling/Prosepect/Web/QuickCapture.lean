/-
`quick-capture.ts`: what is typed into the capture field, read as a title, a date, a project, labels
and a priority. Texts are lists of characters and ranges count characters.

The date detector is not read here: `detected` is what it returned.
-/
import Prosepect.Data.Script

namespace Prosepect.Web

open Text Script Regex

/-- What the language takes from the Unicode tables. -/
structure Host where
  toLowerCase : List Char → List Char
  /-- `\p{L}` -/
  isLetter : Char → Bool
  /-- `\p{N}` -/
  isNumber : Char → Bool
  /-- Simple case folding, by which patterns with the flags `iu` compare characters. -/
  canonicalize : Char → Char
  not_space : ∀ c, isLetter c = true ∨ isNumber c = true → isSpace c = false

structure TemporalSuggestion where
  dueDate : Option (List Char)
  dueTime : Option (List Char)
  scheduledStart : Option (List Char)
  scheduledEnd : Option (List Char)
  label : List Char
  matchedText : List Char
  matchStart : Nat
  matchEnd : Nat
  ordered : matchStart ≤ matchEnd
deriving DecidableEq

inductive CapturedPriority
  | low | medium | high | urgent
deriving DecidableEq, Repr

structure QuickCaptureProject where
  id : List Char
  name : List Char

structure QuickCaptureResult where
  title : List Char
  dueDate : Option (List Char)
  dueTime : Option (List Char)
  scheduledStart : Option (List Char)
  scheduledEnd : Option (List Char)
  labels : List (List Char)
  priority : Option CapturedPriority
  projectId : Option (List Char)
deriving DecidableEq

structure QuickCaptureAnalysis where
  result : QuickCaptureResult
  temporalSuggestion : Option TemporalSuggestion

structure TextRange where
  start : Nat
  stop : Nat
deriving DecidableEq

/-! ## Patterns -/

/-- `[\p{L}\p{N}_-]` -/
def Host.isLabelChar (host : Host) (c : Char) : Bool := host.isLetter c || host.isNumber c || c == '_' || c == '-'

/-- `[@#]` -/
def isLabelMark (c : Char) : Bool := c == '@' || c == '#'

/-- `/(?<!\S)([@#])([\p{L}\p{N}_-]{1,32})\b/gu` -/
def Host.labelPattern (host : Host) : Pattern :=
  .all [.look startsToken, .one isLabelMark, .rep 1 (some 32) (.one host.isLabelChar), .look wordBoundary]

/-- The flag `i` without `u`, on ASCII letters. -/
def sameLetter (a b : Char) : Bool := a.toLower == b.toLower

/-- `/(?<!\S)p([1-4])(?=\s|$)/i` -/
def priorityPattern : Pattern :=
  .all [.look startsToken, .one (sameLetter 'p'), .one fun c => '1' ≤ c && c ≤ '4', .look endsToken]

/-- `/^(?:due|by)\b/i` -/
def deadlinePattern : Pattern :=
  .all [.look atStart, .any [.text sameLetter "due".toList, .text sameLetter "by".toList], .look wordBoundary]

/-- `(?<!\S)#name(?=\s|$)` with the flags `iu`. -/
def Host.projectPattern (host : Host) (name : List Char) : Pattern :=
  .all [.look startsToken, .one fun c => host.canonicalize c == host.canonicalize '#',
    .text (fun a b => host.canonicalize a == host.canonicalize b) name, .look endsToken]

def PRIORITY_MAP : Char → Option CapturedPriority
  | '1' => some .urgent
  | '2' => some .high
  | '3' => some .medium
  | '4' => some .low
  | _ => none

/-! ## Recognisers -/

def overlaps (left right : TextRange) : Bool := left.start < right.stop && right.start < left.stop

def detectProject (host : Host) (input : List Char) (projects : List QuickCaptureProject) : Option (List Char × TextRange) :=
  let matches_ := projects.filterMap fun project =>
    ((host.projectPattern project.name).exec input).map fun m => (project.id, (⟨m.start, m.stop⟩ : TextRange))
  (matches_.mergeSort fun left right =>
    left.2.start < right.2.start || (left.2.start == right.2.start && right.2.stop ≤ left.2.stop)).head?

structure DetectedLabels where
  values : List (List Char)
  ranges : List TextRange

def detectLabel (host : Host) (excludedRanges : List TextRange) (found : DetectedLabels) (m : Regex.Match) : DetectedLabels :=
  let range : TextRange := ⟨m.start, m.stop⟩
  if m.text.head? = some '#' ∧ excludedRanges.any (overlaps · range) = true then found
  else
    let label := host.toLowerCase m.text.tail
    { values := if label ∉ found.values ∧ found.values.length < 10 then found.values ++ [label] else found.values
      ranges := found.ranges ++ [range] }

def detectLabels (host : Host) (input : List Char) (excludedRanges : List TextRange) : DetectedLabels :=
  (host.labelPattern.matchAll input).foldl (detectLabel host excludedRanges) ⟨[], []⟩

/-! ## The title -/

/-- The ranges so far, the last one first. -/
def mergeRange : List TextRange → TextRange → List TextRange
  | [], range => [range]
  | previous :: result, range =>
    if range.start ≤ previous.stop then { previous with stop := max previous.stop range.stop } :: result
    else range :: previous :: result

def mergeRanges (ranges : List TextRange) : List TextRange :=
  ((ranges.mergeSort fun left right => left.start ≤ right.start).foldl mergeRange []).reverse

/-- `input.slice(start, stop)`. -/
def slice (input : List Char) (start stop : Nat) : List Char := (input.take stop).drop start

def cutRanges (input : List Char) (cursor : Nat) : List TextRange → List Char
  | [] => input.drop cursor
  | range :: rest => slice input cursor range.start ++ ' ' :: cutRanges input range.stop rest

def removeRanges (input : List Char) (ranges : List TextRange) : List Char :=
  if ranges = [] then trim input else cutRanges input 0 (mergeRanges ranges)

/-- `/\s+/g` -/
def gapPattern : Pattern := spaces 1

/-- `/\s+([,.!?])/g` -/
def spacedPunctuation : Pattern := .all [spaces 1, .one fun c => c == ',' || c == '.' || c == '!' || c == '?']

/-- `/[,:;-]\s*$/` -/
def trailingPunctuation : Pattern :=
  .all [.one fun c => c == ',' || c == ':' || c == ';' || c == '-', spaces 0, .look atEnd]

def cleanTitle (value : List Char) : List Char :=
  let value := gapPattern.replaceAll (fun _ => [' ']) value
  let value := spacedPunctuation.replaceAll (fun m => m.dropWhile isSpace) value
  let value := trailingPunctuation.replaceFirst (fun _ => []) value
  trim value

/-! ## The analysis -/

/-- What the code makes of an empty text where it expects a value or nothing. -/
def truthy (text : Option (List Char)) : Bool := text.any fun text => !text.isEmpty

/-- Explicit deadline language does not reserve work time. -/
def withoutWorkTime (detected : TemporalSuggestion) : TemporalSuggestion :=
  if truthy detected.scheduledStart && deadlinePattern.test detected.matchedText then
    { detected with
      dueDate := detected.scheduledStart.map (slice · 0 10)
      dueTime := detected.scheduledStart.map (slice · 11 16)
      scheduledStart := none
      scheduledEnd := none }
  else detected

def toRange (suggestion : TemporalSuggestion) : TextRange := ⟨suggestion.matchStart, suggestion.matchEnd⟩

/-- The parts the date and the project take. -/
def excludedRanges (temporalSuggestion : Option TemporalSuggestion) (project : Option (List Char × TextRange)) : List TextRange :=
  (temporalSuggestion.map toRange).toList ++ (project.map (·.2)).toList

def analyzeQuickCapture (host : Host) (input : List Char) (projects : List QuickCaptureProject)
    (detected : Option TemporalSuggestion) : QuickCaptureAnalysis :=
  let temporalSuggestion := detected.map withoutWorkTime
  let project := detectProject host input projects
  let excluded := excludedRanges temporalSuggestion project
  let labels := detectLabels host input excluded
  let priorityMatch := priorityPattern.exec input
  let ranges := excluded ++ labels.ranges ++ (priorityMatch.map fun m => (⟨m.start, m.stop⟩ : TextRange)).toList
  { result :=
      { title := cleanTitle (removeRanges input ranges)
        dueDate := temporalSuggestion.bind (·.dueDate)
        dueTime := (temporalSuggestion.bind (·.dueTime)).filter fun text => !text.isEmpty
        scheduledStart := temporalSuggestion.bind (·.scheduledStart)
        scheduledEnd := temporalSuggestion.bind (·.scheduledEnd)
        labels := labels.values
        priority := priorityMatch.bind fun m => m.text.getLast?.bind PRIORITY_MAP
        projectId := project.map (·.1) }
    temporalSuggestion }

/-- Without date detection, `detected` is nothing. -/
def parseQuickCapture (host : Host) (input : List Char) (projects : List QuickCaptureProject)
    (detected : Option TemporalSuggestion) : QuickCaptureResult :=
  (analyzeQuickCapture host input projects detected).result

end Prosepect.Web
