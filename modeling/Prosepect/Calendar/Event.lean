/-
Calendar events in their three shapes: the local row, what Google sends (`GoogleEvent`) and what
is sent to Google (`GoogleEventWrite`); the conversions between them, and the fingerprint by which
a mapping remembers the content last agreed on.

The fingerprint of an event is the SHA-256 of its write body as JSON. It is modelled as the body
itself: two fingerprints are equal exactly when the bodies are.
-/
import Prosepect.Data.Time

namespace Prosepect

open Text Time

/-- `Uuid`. Fresh ones are drawn from an unbounded supply. -/
abbrev Uuid := Nat

/-! ## Shapes -/

inductive EventRecurrence
  | none | daily | weekly | monthly | yearly
deriving DecidableEq, Repr

/-- The columns of `calendar_events` the synchronization reads. -/
structure LocalEvent where
  id : Uuid
  title : String
  description : String
  startsAt : DateTime
  endsAt : DateTime
  allDay : Bool
  timezone : String
  location : String
  attendees : List String
  recurrence : EventRecurrence
  recurrenceUntil : Option DateTime
deriving DecidableEq, Repr

structure GoogleEventTime where
  dateTime : Option DateTime
  date : Option NaiveDate
  timeZone : Option String
deriving DecidableEq, Repr

structure GoogleAttendee where
  email : String
deriving DecidableEq, Repr

/-- An event as Google sends it, decoded. -/
structure GoogleEvent where
  id : Option String
  etag : Option String
  status : Option String
  summary : Option String
  description : String
  start : Option GoogleEventTime
  «end» : Option GoogleEventTime
  location : String
  attendees : List GoogleAttendee
  recurrence : List String
  updated : Option DateTime
deriving DecidableEq, Repr

/-- The body of a write. -/
structure GoogleEventWrite where
  id : Option String
  summary : String
  description : String
  start : GoogleEventTime
  «end» : GoogleEventTime
  location : String
  attendees : List GoogleAttendee
  recurrence : List String
deriving DecidableEq, Repr

/-- A remote event in the terms of the local row. -/
structure NormalizedEvent where
  title : String
  description : String
  startsAt : DateTime
  endsAt : DateTime
  allDay : Bool
  timezone : String
  location : String
  attendees : List String
  recurrence : EventRecurrence
  recurrenceUntil : Option DateTime
deriving DecidableEq, Repr

def GoogleEvent.cancelled (event : GoogleEvent) : Bool := event.status == some "cancelled"

/-! ## Recurrence rules -/

/-- The name of a frequency in a rule. -/
def EventRecurrence.freq : EventRecurrence → String
  | .none => "NONE"
  | .daily => "DAILY"
  | .weekly => "WEEKLY"
  | .monthly => "MONTHLY"
  | .yearly => "YEARLY"

def recurrenceRule (value : EventRecurrence) (until_ : Option DateTime) : List String :=
  if value = .none then []
  else
    let rule := "RRULE:FREQ=" ++ value.freq
    match until_ with
    | some t => [rule ++ (";UNTIL=" ++ String.ofList (formatUtc t))]
    | Option.none => [rule]

def parseRecurrence (values : List String) : EventRecurrence × Option DateTime :=
  match values.find? (startsWith · "RRULE:") with
  | Option.none => (.none, Option.none)
  | some rule =>
    let recurrence : EventRecurrence :=
      if contains rule "FREQ=DAILY" then .daily
      else if contains rule "FREQ=WEEKLY" then .weekly
      else if contains rule "FREQ=MONTHLY" then .monthly
      else if contains rule "FREQ=YEARLY" then .yearly
      else .none
    let until_ := ((rule.toList.splitOn ';').findSome? (stripPrefix "UNTIL=")).bind parseUtc
    (recurrence, until_)

/-- A rule with an end, as characters. -/
theorem toList_recurrenceRule {r : EventRecurrence} (hr : r ≠ .none) (t : DateTime) :
    ∃ rule, recurrenceRule r (some t) = [rule] ∧
      rule.toList = ("RRULE:FREQ=".toList ++ r.freq.toList) ++ ';' :: ("UNTIL=".toList ++ formatUtc t) := by
  refine ⟨_, if_neg hr, ?_⟩
  simp only [String.toList_append, String.toList_ofList, List.append_assoc]
  rfl

/-- The part of a rule with its end. -/
theorem until_recurrenceRule {r : EventRecurrence} (hr : r ≠ .none) {l : List Char} (h : ';' ∉ l) :
    (((("RRULE:FREQ=".toList ++ r.freq.toList) ++ ';' :: ("UNTIL=".toList ++ l)).splitOn ';').findSome?
      (stripPrefix "UNTIL=")) = some l := by
  have hl : (("UNTIL=".toList ++ l).splitOn ';') = ["UNTIL=".toList ++ l] := by
    apply List.splitOn_eq_singleton
    rw [List.mem_append, not_or]
    exact ⟨by decide, h⟩
  have hall : (("RRULE:FREQ=".toList ++ r.freq.toList).all fun x => !(x == ';')) = true := by
    cases r with
    | none => exact absurd rfl hr
    | daily => decide
    | weekly => decide
    | monthly => decide
    | yearly => decide
  have hf : ∀ x ∈ "RRULE:FREQ=".toList ++ r.freq.toList, (x == ';') = false := by
    intro x hx
    simpa using List.all_eq_true.1 hall x hx
  rw [List.splitOn_eq_splitOnP, List.splitOnP_append_cons_of_forall_mem hf ';' rfl, ← List.splitOn_eq_splitOnP, hl]
  cases r with
  | none => exact absurd rfl hr
  | daily => simp [stripPrefix]
  | weekly => simp [stripPrefix]
  | monthly => simp [stripPrefix]
  | yearly => simp [stripPrefix]

/-- The frequency of a rule with an end. -/
theorem freq_recurrenceRule {r : EventRecurrence} (hr : r ≠ .none) {rule : String} {l : List Char} (h : 'F' ∉ l)
    (hrule : rule.toList = ("RRULE:FREQ=".toList ++ r.freq.toList) ++ ';' :: ("UNTIL=".toList ++ l)) :
    startsWith rule "RRULE:" = true ∧
    (if contains rule "FREQ=DAILY" then EventRecurrence.daily
      else if contains rule "FREQ=WEEKLY" then .weekly
      else if contains rule "FREQ=MONTHLY" then .monthly
      else if contains rule "FREQ=YEARLY" then .yearly
      else .none) = r := by
  -- no part of `l` is the name of a frequency, which starts with F
  have hno : ∀ p : List Char, ¬ ('F' :: p) <:+: l := by
    intro p hp
    exact h (hp.subset List.mem_cons_self)
  unfold startsWith contains
  rw [hrule]
  cases r with
  | none => exact absurd rfl hr
  | daily => simp [EventRecurrence.freq, List.infix_cons_iff, hno]
  | weekly => simp [EventRecurrence.freq, List.infix_cons_iff, hno]
  | monthly => simp [EventRecurrence.freq, List.infix_cons_iff, hno]
  | yearly => simp [EventRecurrence.freq, List.infix_cons_iff, hno]

/-- A rule is read back, up to the fraction of a second, if it ends in the years 0 to 9999. -/
theorem parseRecurrence_recurrenceRule {r : EventRecurrence} (hr : r ≠ .none) {t : Int}
    (h0 : 0 ≤ (civil (dateNaive t)).year) (h1 : (civil (dateNaive t)).year ≤ 9999) :
    parseRecurrence (recurrenceRule r (some t)) = (r, some (truncSecond t)) := by
  obtain ⟨rule, hlist, hrule⟩ := toList_recurrenceRule hr t
  have hF : 'F' ∉ formatUtc t := not_mem_formatUtc h0 h1 (by decide) (by decide) (by decide)
  have hsep : ';' ∉ formatUtc t := not_mem_formatUtc h0 h1 (by decide) (by decide) (by decide)
  obtain ⟨hstart, hfreq⟩ := freq_recurrenceRule hr hF hrule
  have huntil := until_recurrenceRule hr hsep
  rw [← hrule] at huntil
  unfold parseRecurrence
  simp only [hlist, List.find?_singleton, hstart, if_true, hfreq, huntil, Option.bind_some, parseUtc_formatUtc h0 h1]

theorem parseRecurrence_forever (r : EventRecurrence) : parseRecurrence (recurrenceRule r none) = (r, none) := by
  cases r <;> decide

/-- A recurrence without an end, or with one in the years 0 to 9999, survives being written as a
rule and read back. -/
theorem recurrenceRule_parseRecurrence {r : EventRecurrence} {until_ : Option DateTime}
    (h : ∀ t, until_ = some t → 0 ≤ (civil (dateNaive t)).year ∧ (civil (dateNaive t)).year ≤ 9999) :
    recurrenceRule (parseRecurrence (recurrenceRule r until_)).1 (parseRecurrence (recurrenceRule r until_)).2 =
      recurrenceRule r until_ := by
  by_cases hr : r = .none
  · subst hr
    rfl
  · cases until_ with
    | none => rw [parseRecurrence_forever]
    | some t =>
      obtain ⟨h0, h1⟩ := h t rfl
      rw [parseRecurrence_recurrenceRule hr h0 h1]
      simp only [recurrenceRule, if_neg hr, formatUtc_truncSecond]

/-! ## Conversions -/

def eventTime (value : GoogleEventTime) : Except String DateTime :=
  match value.dateTime with
  | some t => .ok t
  | none =>
    match value.date with
    | some d => .ok (midnight d)
    | none => .error "Google event time is empty"

def normalizeEvent (event : GoogleEvent) : Except String NormalizedEvent :=
  match event.start, event.end with
  | none, _ => .error "Google event has no start"
  | some _, none => .error "Google event has no end"
  | some start, some end_ => do
    let allDay := start.dateTime.isNone
    let startsAt ← eventTime start
    let endsAt ← eventTime end_
    let (recurrence, until_) := parseRecurrence event.recurrence
    return {
      title := event.summary.getD "Untitled event"
      description := event.description
      startsAt, endsAt, allDay
      timezone := start.timeZone.getD "UTC"
      location := event.location
      attendees := event.attendees.map (·.email)
      recurrence
      recurrenceUntil := until_ }

def GoogleEventWrite.fromLocal (event : LocalEvent) : GoogleEventWrite where
  id := none
  summary := event.title
  description := event.description
  start := {
    dateTime := if event.allDay then none else some event.startsAt
    date := if event.allDay then some (dateNaive event.startsAt) else none
    timeZone := if event.allDay then none else some event.timezone }
  «end» := {
    dateTime := if event.allDay then none else some event.endsAt
    date := if event.allDay then some (dateNaive event.endsAt) else none
    timeZone := if event.allDay then none else some event.timezone }
  location := event.location
  attendees := event.attendees.map (⟨·⟩)
  recurrence := recurrenceRule event.recurrence event.recurrenceUntil

/-- The columns of a canonical event written from a remote one. -/
def NormalizedEvent.toLocal (event : NormalizedEvent) (id : Uuid) : LocalEvent where
  id := id
  title := event.title
  description := event.description
  startsAt := event.startsAt
  endsAt := event.endsAt
  allDay := event.allDay
  timezone := event.timezone
  location := event.location
  attendees := event.attendees
  recurrence := event.recurrence
  recurrenceUntil := event.recurrenceUntil

/-! ## Fingerprints -/

/-- A stored fingerprint: of a write body, or, from older versions, of a text with less in it. -/
inductive Fingerprint
  | write (body : GoogleEventWrite)
  | legacy (text : String)
deriving DecidableEq, Repr

def localFingerprint (event : LocalEvent) : Fingerprint := .write (.fromLocal event)

def eventFingerprint (event : NormalizedEvent) : Fingerprint := localFingerprint (event.toLocal 0)

theorem localFingerprint_eq_iff (a b : LocalEvent) :
    localFingerprint a = localFingerprint b ↔ GoogleEventWrite.fromLocal a = GoogleEventWrite.fromLocal b := by
  simp [localFingerprint]

/-- `google_event_id`: the 32 hexadecimal digits of the id of the local row. -/
def googleEventId (eventId : Uuid) : String :=
  let digits := Nat.toDigits 16 eventId
  String.ofList (List.replicate (32 - digits.length) '0' ++ digits)

end Prosepect
