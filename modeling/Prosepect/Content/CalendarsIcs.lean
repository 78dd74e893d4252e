/-
`export_store.rs`, `export_calendars_ics`: what a reader of iCalendar finds in the export — one
calendar, an event for each event, its texts, times and rule — and the events for which it does not.
-/
import Prosepect.Content.TasksCsv
import Prosepect.Data.Ical

namespace Prosepect

open Time Text Ical Store

namespace Export

/-! ## The export -/

def icsTime (value : DateTime) : List Char := formatUtc value

/-- `value.replace(a, b)` for a character `a`. -/
def replaceChar (a : Char) (b : String) (value : List Char) : List Char :=
  value.flatMap fun c => if c = a then b.toList else [c]

def icsEscape (value : List Char) : List Char :=
  replaceChar ';' "\\;" (replaceChar ',' "\\," (replaceChar '\n' "\\n" (replaceChar '\\' "\\\\" value)))

def icsEvent (event : CalendarEvent) : List Char :=
  "BEGIN:VEVENT\r\n".toList ++
  ("UID:".toList ++ idText event.id ++ "@prosepect\r\n".toList) ++
  ("DTSTAMP:".toList ++ icsTime event.updatedAt ++ "\r\n".toList) ++
  ("DTSTART:".toList ++ icsTime event.startsAt ++ "\r\n".toList) ++
  ("DTEND:".toList ++ icsTime event.endsAt ++ "\r\n".toList) ++
  ("SUMMARY:".toList ++ icsEscape event.title.toList ++ "\r\n".toList) ++
  (if event.description.isEmpty then [] else "DESCRIPTION:".toList ++ icsEscape event.description.toList ++ "\r\n".toList) ++
  (if event.location.isEmpty then [] else "LOCATION:".toList ++ icsEscape event.location.toList ++ "\r\n".toList) ++
  (if event.recurrence.freq = "NONE" then []
   else
     "RRULE:FREQ=".toList ++ event.recurrence.freq.toList ++
     (match event.recurrenceUntil with
      | some until_ => ";UNTIL=".toList ++ icsTime until_
      | none => []) ++
     "\r\n".toList) ++
  "END:VEVENT\r\n".toList

def exportCalendarsIcs (events : List CalendarEvent) : List Char :=
  "BEGIN:VCALENDAR\r\nVERSION:2.0\r\nPRODID:-//rakkio//EN\r\nCALSCALE:GREGORIAN\r\n".toList ++
    (events.flatMap icsEvent ++ "END:VCALENDAR\r\n".toList)

/-! ## What a reader is to find -/

def valueOf (properties : List Property) (name : String) : Option (List Char) :=
  (properties.find? (·.name == name.toList)).map (·.value)

/-- The text of a property. One that is left out is empty. -/
def textOf (properties : List Property) (name : String) : Option (List Char) :=
  match valueOf properties name with
  | none => some []
  | some value => unescape value

/-- The instant of an event as a value: a date, if the event is all day. -/
def stampOf (event : CalendarEvent) (t : DateTime) : Stamp := if event.allDay then .date (dateNaive t) else .utc t

def frequency (value : List Char) : Option EventRecurrence :=
  [EventRecurrence.daily, .weekly, .monthly, .yearly].find? fun recurrence => value == recurrence.freq.toList

/-- `FREQ=…` and `UNTIL=…`. -/
def readRule (value : List Char) : Option (EventRecurrence × Option Stamp) :=
  match value.splitOn ';' with
  | [freq] => do return (← frequency (← stripPrefix "FREQ=" freq), none)
  | [freq, until_] => do
    return (← frequency (← stripPrefix "FREQ=" freq), some (← readStamp (← stripPrefix "UNTIL=" until_)))
  | _ => none

/-- How an event repeats, if it does. -/
def repetition (event : CalendarEvent) : Option (EventRecurrence × Option Stamp) :=
  if event.recurrence = .none then none else some (event.recurrence, event.recurrenceUntil.map (stampOf event))

def ruleOf (properties : List Property) : Option (Option (EventRecurrence × Option Stamp)) :=
  match valueOf properties "RRULE" with
  | none => some none
  | some value => (readRule value).map some

def propertyNames (event : CalendarEvent) : List String :=
  ["UID", "DTSTAMP", "DTSTART", "DTEND", "SUMMARY"] ++ (if event.description.isEmpty then [] else ["DESCRIPTION"]) ++
    (if event.location.isEmpty then [] else ["LOCATION"]) ++ (if event.recurrence = .none then [] else ["RRULE"])

/-- The properties are those of the event and say what is stored. -/
structure Denotes (event : CalendarEvent) (properties : List Property) : Prop where
  names : properties.map (·.name) = (propertyNames event).map String.toList
  uid : valueOf properties "UID" = some (idText event.id ++ "@prosepect".toList)
  start : (valueOf properties "DTSTART").bind readStamp = some (stampOf event event.startsAt)
  stop : (valueOf properties "DTEND").bind readStamp = some (stampOf event event.endsAt)
  summary : textOf properties "SUMMARY" = some (normalized event.title.toList)
  description : textOf properties "DESCRIPTION" = some (normalized event.description.toList)
  location : textOf properties "LOCATION" = some (normalized event.location.toList)
  rule : ruleOf properties = some (repetition event)

/-- A reader sees one calendar with one event for each event, in their order, and nothing else. -/
structure Faithful (events : List CalendarEvent) (text : List Char) : Prop where
  calendar : ∃ c, readCalendar text = some c ∧
    c.properties.map (·.name) = ["VERSION".toList, "PRODID".toList, "CALSCALE".toList] ∧
    List.Forall₂ Denotes events c.events
  /-- No line continues the one before it. -/
  unfolded : ∀ line ∈ physicalLines text, line.head? ≠ some ' ' ∧ line.head? ≠ some '\t'

/-- An instant a time can say: a whole second in the years 0 to 9999. -/
def Writable (t : DateTime) : Prop := truncSecond t = t ∧ FourDigits (dateNaive t)

/-- What an event has to be like. -/
structure Exportable (event : CalendarEvent) : Prop where
  timed : event.allDay = false
  title : '\r' ∉ event.title.toList
  description : '\r' ∉ event.description.toList
  location : '\r' ∉ event.location.toList
  start : Writable event.startsAt
  stop : Writable event.endsAt
  until_ : event.recurrence ≠ .none → ∀ t, event.recurrenceUntil = some t → Writable t

/-! ## The lines of the export -/

theorem icsEscape_eq (value : List Char) : icsEscape value = value.flatMap escaped := by
  unfold icsEscape replaceChar
  rw [List.flatMap_assoc, List.flatMap_assoc, List.flatMap_assoc]
  congr 1
  funext c
  unfold escaped
  split
  · rename_i hc
    subst hc
    decide
  · split
    · rename_i hc
      subst hc
      decide
    · split
      · rename_i hc
        subst hc
        decide
      · simp_all

/-- A property with the text, if it is not empty. -/
def textProperty (name text : String) : List Property := if text.isEmpty then [] else [⟨name.toList, icsEscape text.toList⟩]

def ruleProperty (event : CalendarEvent) : List Property :=
  if event.recurrence = .none then []
  else
    [⟨"RRULE".toList, "FREQ=".toList ++ (event.recurrence.freq.toList ++
      (match event.recurrenceUntil with
        | some until_ => ";UNTIL=".toList ++ icsTime until_
        | none => []))⟩]

def eventProperties (event : CalendarEvent) : List Property :=
  [⟨"UID".toList, idText event.id ++ "@prosepect".toList⟩, ⟨"DTSTAMP".toList, icsTime event.updatedAt⟩,
    ⟨"DTSTART".toList, icsTime event.startsAt⟩, ⟨"DTEND".toList, icsTime event.endsAt⟩,
    ⟨"SUMMARY".toList, icsEscape event.title.toList⟩] ++ textProperty "DESCRIPTION" event.description ++
    textProperty "LOCATION" event.location ++ ruleProperty event

def calendarProperties : List Property :=
  [⟨"VERSION".toList, "2.0".toList⟩, ⟨"PRODID".toList, "-//rakkio//EN".toList⟩, ⟨"CALSCALE".toList, "GREGORIAN".toList⟩]

/-- Everything that is written, in order. -/
def allProperties (events : List CalendarEvent) : List Property :=
  begin "VCALENDAR" :: (calendarProperties ++
    (((events.map eventProperties).flatMap fun e => begin "VEVENT" :: (e ++ [«end» "VEVENT"])) ++ [«end» "VCALENDAR"]))

theorem line_eq (name value : List Char) : name ++ [':'] ++ value ++ "\r\n".toList = terminated (written ⟨name, value⟩) := by
  simp [written, terminated]

theorem text_eq (name text : String) : (if text.isEmpty then ([] : List Char)
    else name.toList ++ [':'] ++ icsEscape text.toList ++ "\r\n".toList) =
      ((textProperty name text).map written).flatMap terminated := by
  unfold textProperty
  split
  · rfl
  · rw [line_eq]
    simp

theorem rule_eq (event : CalendarEvent) : (if event.recurrence.freq = "NONE" then ([] : List Char)
    else "RRULE:FREQ=".toList ++ event.recurrence.freq.toList ++
      (match event.recurrenceUntil with
        | some until_ => ";UNTIL=".toList ++ icsTime until_
        | none => []) ++ "\r\n".toList) = ((ruleProperty event).map written).flatMap terminated := by
  unfold ruleProperty
  by_cases hnone : event.recurrence = .none
  · rw [if_pos hnone, hnone, if_pos (show EventRecurrence.none.freq = "NONE" from rfl)]
    rfl
  · have hfreq : event.recurrence.freq ≠ "NONE" := by
      cases hr : event.recurrence with
      | none => exact absurd hr hnone
      | daily => decide
      | weekly => decide
      | monthly => decide
      | yearly => decide
    rw [if_neg hnone, if_neg hfreq]
    simp [written, terminated]

theorem icsEvent_eq (event : CalendarEvent) :
    icsEvent event = ((begin "VEVENT" :: (eventProperties event ++ [«end» "VEVENT"])).map written).flatMap terminated := by
  have hbegin : "BEGIN:VEVENT\r\n".toList = terminated (written (begin "VEVENT")) := by decide
  have hend : "END:VEVENT\r\n".toList = terminated (written («end» "VEVENT")) := by decide
  have huid : "UID:".toList ++ idText event.id ++ "@prosepect\r\n".toList =
      terminated (written ⟨"UID".toList, idText event.id ++ "@prosepect".toList⟩) := by
    simp [written, terminated]
  have hstamp := line_eq "DTSTAMP".toList (icsTime event.updatedAt)
  have hstart := line_eq "DTSTART".toList (icsTime event.startsAt)
  have hstop := line_eq "DTEND".toList (icsTime event.endsAt)
  have hsummary := line_eq "SUMMARY".toList (icsEscape event.title.toList)
  have hdescription := text_eq "DESCRIPTION" event.description
  have hlocation := text_eq "LOCATION" event.location
  unfold icsEvent eventProperties
  rw [rule_eq, hbegin, hend, huid]
  simp only [List.map_cons, List.map_append, List.flatMap_cons, List.flatMap_append, List.map_nil, List.flatMap_nil,
    List.append_nil, ← hstamp, ← hstart, ← hstop, ← hsummary, ← hdescription, ← hlocation, List.append_assoc]
  rfl

theorem exportCalendarsIcs_eq (events : List CalendarEvent) :
    exportCalendarsIcs events = ((allProperties events).map written).flatMap terminated := by
  have hhead : "BEGIN:VCALENDAR\r\nVERSION:2.0\r\nPRODID:-//rakkio//EN\r\nCALSCALE:GREGORIAN\r\n".toList =
      ((begin "VCALENDAR" :: calendarProperties).map written).flatMap terminated := by decide +kernel
  have hfoot : "END:VCALENDAR\r\n".toList = (([«end» "VCALENDAR"] : List Property).map written).flatMap terminated := by decide
  have hevents : events.flatMap icsEvent =
      (((events.map eventProperties).flatMap fun e => begin "VEVENT" :: (e ++ [«end» "VEVENT"])).map written).flatMap terminated := by
    induction events with
    | nil => rfl
    | cons event events ih =>
      simp only [List.flatMap_cons, ih, icsEvent_eq, List.map_cons, List.map_append, List.flatMap_append, List.append_assoc,
        List.cons_append, List.map_nil, List.flatMap_nil]
  unfold exportCalendarsIcs allProperties
  rw [hhead, hfoot, hevents]
  simp only [List.map_cons, List.map_append, List.flatMap_cons, List.flatMap_append, List.append_assoc]

/-! ## What stands in the lines -/

theorem textProperty_eq {name text : String} {p : Property} (h : p ∈ textProperty name text) :
    p = ⟨name.toList, icsEscape text.toList⟩ ∧ text.toList ≠ [] := by
  unfold textProperty at h
  split at h
  · cases h
  · rename_i ht
    refine ⟨List.mem_singleton.1 h, fun hnil => ht ?_⟩
    simpa using hnil

theorem mem_eventProperties {event : CalendarEvent} {p : Property} (h : p ∈ eventProperties event) :
    p = ⟨"UID".toList, idText event.id ++ "@prosepect".toList⟩ ∨
    (∃ name t, name ∈ ["DTSTAMP", "DTSTART", "DTEND"] ∧ p = ⟨name.toList, icsTime t⟩) ∨
    (p = ⟨"SUMMARY".toList, icsEscape event.title.toList⟩ ∨ p = ⟨"DESCRIPTION".toList, icsEscape event.description.toList⟩ ∨
      p = ⟨"LOCATION".toList, icsEscape event.location.toList⟩) ∨
    ∃ recurrence until_, recurrence ≠ EventRecurrence.none ∧
      p = ⟨"RRULE".toList, "FREQ=".toList ++ (recurrence.freq.toList ++
        (match (until_ : Option DateTime) with | some until_ => ";UNTIL=".toList ++ icsTime until_ | none => []))⟩ := by
  unfold eventProperties at h
  simp only [List.mem_append, List.mem_cons, List.not_mem_nil, or_false] at h
  rcases h with (((rfl | rfl | rfl | rfl | rfl) | h) | h) | h
  · exact .inl rfl
  · exact .inr (.inl ⟨"DTSTAMP", _, by decide, rfl⟩)
  · exact .inr (.inl ⟨"DTSTART", _, by decide, rfl⟩)
  · exact .inr (.inl ⟨"DTEND", _, by decide, rfl⟩)
  · exact .inr (.inr (.inl (.inl rfl)))
  · exact .inr (.inr (.inl (.inr (.inl (textProperty_eq h).1))))
  · exact .inr (.inr (.inl (.inr (.inr (textProperty_eq h).1))))
  · unfold ruleProperty at h
    split at h
    · cases h
    · rename_i hr
      exact .inr (.inr (.inr ⟨event.recurrence, event.recurrenceUntil, hr, List.mem_singleton.1 h⟩))

theorem digitChar_of_mem_toDigits {c : Char} : ∀ {n : Nat}, c ∈ Nat.toDigits 16 n → ∃ d, d < 16 ∧ c = Nat.digitChar d := by
  intro n
  induction n using Nat.strongRecOn with
  | ind n ih =>
    intro h
    rw [Nat.toDigits_eq_if (by decide)] at h
    split at h
    · rename_i hn
      exact ⟨n, hn, List.mem_singleton.1 h⟩
    · rename_i hn
      rcases List.mem_append.1 h with h | h
      · exact ih (n / 16) (by omega) h
      · exact ⟨n % 16, by omega, List.mem_singleton.1 h⟩

/-- The text of an id has digits, letters and hyphens. -/
theorem mem_idText {c : Char} {id : Uuid} (h : c ∈ idText id) : c = '-' ∨ ∃ d, d < 16 ∧ c = Nat.digitChar d := by
  have hdigits : c ∈ (googleEventId id).toList → ∃ d, d < 16 ∧ c = Nat.digitChar d := by
    intro h
    simp only [googleEventId, String.toList_ofList, List.mem_append, List.mem_replicate] at h
    rcases h with ⟨-, rfl⟩ | h
    · exact ⟨0, by decide, rfl⟩
    · exact digitChar_of_mem_toDigits h
  have hpart : ∀ start len : Nat, c ∈ ((googleEventId id).toList.drop start).take len → ∃ d, d < 16 ∧ c = Nat.digitChar d :=
    fun _ _ h => hdigits (List.mem_of_mem_drop (List.mem_of_mem_take h))
  simp only [idText, uuidText, String.toList_ofList, List.mem_append, List.mem_cons] at h
  rcases h with (((h | rfl | h) | rfl | h) | rfl | h) | rfl | h
  · exact .inr (hpart _ _ h)
  · exact .inl rfl
  · exact .inr (hpart _ _ h)
  · exact .inl rfl
  · exact .inr (hpart _ _ h)
  · exact .inl rfl
  · exact .inr (hpart _ _ h)
  · exact .inl rfl
  · exact .inr (hpart _ _ h)

/-- Line breaks and separators. -/
def IsBreak (c : Char) : Prop := c = '\r' ∨ c = '\n'

theorem break_not_mem_idText {c : Char} (hc : IsBreak c) (id : Uuid) : c ∉ idText id := by
  intro h
  have hdigit : ∀ d < 16, Nat.digitChar d ≠ '\r' ∧ Nat.digitChar d ≠ '\n' := by decide
  rcases mem_idText h with rfl | ⟨d, hd, rfl⟩
  · rcases hc with hc | hc <;> exact absurd hc (by decide)
  · rcases hc with hc | hc
    · exact (hdigit d hd).1 hc
    · exact (hdigit d hd).2 hc

theorem break_not_mem_icsTime {c : Char} (hc : IsBreak c) (t : DateTime) : c ∉ icsTime t := by
  rcases hc with rfl | rfl
  · exact other_not_mem_formatUtc rfl rfl (by decide) t
  · exact other_not_mem_formatUtc rfl rfl (by decide) t

/-- Only a carriage return of a text can break a line. -/
theorem break_mem_written {event : CalendarEvent} {p : Property} (hp : p ∈ eventProperties event) {c : Char} (hc : IsBreak c)
    (h : c ∈ written p) :
    c = '\r' ∧ (p = ⟨"SUMMARY".toList, icsEscape event.title.toList⟩ ∧ '\r' ∈ event.title.toList ∨
      p = ⟨"DESCRIPTION".toList, icsEscape event.description.toList⟩ ∧ '\r' ∈ event.description.toList ∨
      p = ⟨"LOCATION".toList, icsEscape event.location.toList⟩ ∧ '\r' ∈ event.location.toList) := by
  have htext : ∀ (name : String) (text : List Char), c ∉ name.toList → c ∈ written ⟨name.toList, icsEscape text⟩ →
      c = '\r' ∧ '\r' ∈ text := by
    intro name text hname h
    simp only [written, icsEscape_eq, List.mem_append, List.mem_cons] at h
    rcases h with h | rfl | h
    · exact absurd h hname
    · rcases hc with hc | hc <;> exact absurd hc (by decide)
    · rcases hc with rfl | rfl
      · exact ⟨rfl, (return_mem_escaped text).1 h⟩
      · exact absurd h (lineFeed_not_mem_escaped text)
  have hfixed : ∀ l : List Char, '\r' ∉ l → '\n' ∉ l → c ∉ l := by
    intro l h1 h2
    rcases hc with rfl | rfl
    · exact h1
    · exact h2
  have hcolon : c ≠ ':' := by
    rcases hc with rfl | rfl <;> decide
  rcases mem_eventProperties hp with rfl | ⟨name, t, hname, rfl⟩ | (rfl | rfl | rfl) | ⟨recurrence, until_, hr, rfl⟩
  · refine absurd h ?_
    simp only [written, List.mem_append, List.mem_cons, not_or]
    exact ⟨hfixed _ (by decide) (by decide), hcolon,
      break_not_mem_idText hc event.id, hfixed _ (by decide) (by decide)⟩
  · refine absurd h ?_
    simp only [written, List.mem_append, List.mem_cons, not_or]
    refine ⟨?_, hcolon, break_not_mem_icsTime hc t⟩
    simp only [List.mem_cons, List.not_mem_nil, or_false] at hname
    rcases hname with rfl | rfl | rfl <;> exact hfixed _ (by decide) (by decide)
  · obtain ⟨h1, h2⟩ := htext "SUMMARY" _ (hfixed _ (by decide) (by decide)) h
    exact ⟨h1, .inl ⟨rfl, h2⟩⟩
  · obtain ⟨h1, h2⟩ := htext "DESCRIPTION" _ (hfixed _ (by decide) (by decide)) h
    exact ⟨h1, .inr (.inl ⟨rfl, h2⟩)⟩
  · obtain ⟨h1, h2⟩ := htext "LOCATION" _ (hfixed _ (by decide) (by decide)) h
    exact ⟨h1, .inr (.inr ⟨rfl, h2⟩)⟩
  · refine absurd h ?_
    have hfreq : c ∉ recurrence.freq.toList := by
      cases recurrence <;> exact hfixed _ (by decide) (by decide)
    have huntil : c ∉ (match (until_ : Option DateTime) with | some until_ => ";UNTIL=".toList ++ icsTime until_ | none => []) := by
      cases until_ with
      | none => exact List.not_mem_nil
      | some t =>
        simp only [List.mem_append, not_or]
        exact ⟨hfixed _ (by decide) (by decide), break_not_mem_icsTime hc t⟩
    simp only [written, List.mem_append, List.mem_cons, not_or]
    exact ⟨hfixed _ (by decide) (by decide), hcolon,
      hfixed _ (by decide) (by decide), hfreq, huntil⟩

def fixedProperties : List Property :=
  begin "VCALENDAR" :: «end» "VCALENDAR" :: begin "VEVENT" :: «end» "VEVENT" :: calendarProperties

theorem mem_allProperties {events : List CalendarEvent} {p : Property} (h : p ∈ allProperties events) :
    p ∈ fixedProperties ∨ ∃ event ∈ events, p ∈ eventProperties event := by
  simp only [allProperties, List.mem_cons, List.mem_append, List.mem_flatMap, List.mem_map, List.not_mem_nil, or_false] at h
  rcases h with rfl | h | ⟨-, ⟨event, he, rfl⟩, rfl | h | rfl⟩ | rfl
  · exact .inl List.mem_cons_self
  · exact .inl (by simp [fixedProperties, h])
  · exact .inl (by simp [fixedProperties])
  · exact .inr ⟨event, he, h⟩
  · exact .inl (by simp [fixedProperties])
  · exact .inl (by simp [fixedProperties])

theorem mem_allProperties_of {events : List CalendarEvent} {event : CalendarEvent} {p : Property} (he : event ∈ events)
    (h : p ∈ eventProperties event) : p ∈ allProperties events := by
  simp only [allProperties, List.mem_cons, List.mem_append, List.mem_flatMap, List.mem_map]
  exact .inr (.inr (.inl ⟨_, ⟨event, he, rfl⟩, .inr (.inl h)⟩))

theorem lineFeed_not_mem_lines {events : List CalendarEvent} : ∀ l ∈ (allProperties events).map written, '\n' ∉ l := by
  intro l hl h
  obtain ⟨p, hp, rfl⟩ := List.mem_map.1 hl
  rcases mem_allProperties hp with hp | ⟨event, -, hp⟩
  · have hfixed : ∀ p ∈ fixedProperties, '\n' ∉ written p := by decide
    exact hfixed p hp h
  · exact absurd (break_mem_written hp (.inr rfl) h).1 (by decide)

/-- The texts of an event have no carriage return in them. -/
def Unbroken (event : CalendarEvent) : Prop :=
  '\r' ∉ event.title.toList ∧ '\r' ∉ event.description.toList ∧ '\r' ∉ event.location.toList

theorem return_not_mem_lines_iff {events : List CalendarEvent} :
    (∀ l ∈ (allProperties events).map written, '\r' ∉ l) ↔ ∀ event ∈ events, Unbroken event := by
  constructor
  · intro h event he
    have hline : ∀ (name : String) (text : List Char), (⟨name.toList, icsEscape text⟩ : Property) ∈ eventProperties event →
        '\r' ∉ text := by
      intro name text hp htext
      refine h _ (List.mem_map_of_mem (mem_allProperties_of he hp)) ?_
      simp only [written, List.mem_append, List.mem_cons]
      rw [icsEscape_eq]
      exact .inr (.inr ((return_mem_escaped text).2 htext))
    have hoptional : ∀ name text : String, textProperty name text ⊆ eventProperties event → '\r' ∉ text.toList := by
      intro name text hsub htext
      have hne : text.isEmpty = false := by
        cases hempty : text.isEmpty with
        | false => rfl
        | true =>
          rw [String.isEmpty_iff.1 hempty] at htext
          cases htext
      exact hline name _ (hsub (by simp [textProperty, hne])) htext
    refine ⟨hline "SUMMARY" _ (by simp [eventProperties]), hoptional "DESCRIPTION" _ fun p hp => ?_,
      hoptional "LOCATION" _ fun p hp => ?_⟩
    · simp only [eventProperties, List.mem_append]
      exact .inl (.inl (.inr hp))
    · simp only [eventProperties, List.mem_append]
      exact .inl (.inr hp)
  · intro h l hl hr
    obtain ⟨p, hp, rfl⟩ := List.mem_map.1 hl
    rcases mem_allProperties hp with hp | ⟨event, he, hp⟩
    · have hfixed : ∀ p ∈ fixedProperties, '\r' ∉ written p := by decide
      exact hfixed p hp hr
    · obtain ⟨htitle, hdescription, hlocation⟩ := h event he
      rcases (break_mem_written hp (.inl rfl) hr).2 with ⟨-, h⟩ | ⟨-, h⟩ | ⟨-, h⟩
      · exact htitle h
      · exact hdescription h
      · exact hlocation h

/-! ## What a reader finds -/

/-- The names are upper case letters. -/
theorem name_eventProperties {event : CalendarEvent} {p : Property} (h : p ∈ eventProperties event) :
    p.name ∈ (["UID", "DTSTAMP", "DTSTART", "DTEND", "SUMMARY", "DESCRIPTION", "LOCATION", "RRULE"] : List String).map String.toList := by
  rcases mem_eventProperties h with rfl | ⟨name, t, hname, rfl⟩ | (rfl | rfl | rfl) | ⟨_, _, _, rfl⟩
  · simp
  · simp only [List.mem_cons, List.not_mem_nil, or_false] at hname
    rcases hname with rfl | rfl | rfl <;> simp
  · simp
  · simp
  · simp
  · simp

theorem isBracket_eventProperties {event : CalendarEvent} : ∀ p ∈ eventProperties event, p.isBracket = false := by
  intro p hp
  have hnames : ∀ name ∈ (["UID", "DTSTAMP", "DTSTART", "DTEND", "SUMMARY", "DESCRIPTION", "LOCATION", "RRULE"] : List String).map
      String.toList, (name == "BEGIN".toList || name == "END".toList) = false := by decide
  exact hnames _ (name_eventProperties hp)

/-- No name has a colon in it or begins with white space. -/
theorem name_allProperties {events : List CalendarEvent} {p : Property} (hp : p ∈ allProperties events) :
    ':' ∉ p.name ∧ p.name ≠ [] ∧ p.name.head? ≠ some ' ' ∧ p.name.head? ≠ some '\t' := by
  rcases mem_allProperties hp with hp | ⟨event, -, hp⟩
  · have hfixed : ∀ p ∈ fixedProperties, ':' ∉ p.name ∧ p.name ≠ [] ∧ p.name.head? ≠ some ' ' ∧ p.name.head? ≠ some '\t' := by decide
    exact hfixed p hp
  · have hnames : ∀ name ∈ (["UID", "DTSTAMP", "DTSTART", "DTEND", "SUMMARY", "DESCRIPTION", "LOCATION", "RRULE"] : List String).map
        String.toList, ':' ∉ name ∧ name ≠ [] ∧ name.head? ≠ some ' ' ∧ name.head? ≠ some '\t' := by decide
    exact hnames _ (name_eventProperties hp)

theorem property_allProperties {events : List CalendarEvent} :
    ((allProperties events).map written).mapM property = some (allProperties events) := by
  have hcolon : ∀ p ∈ allProperties events, ':' ∉ p.name := fun p hp => (name_allProperties hp).1
  revert hcolon
  induction allProperties events with
  | nil => exact fun _ => rfl
  | cons p ps ih =>
    intro hcolon
    rw [List.map_cons, List.mapM_cons, property_written (hcolon p List.mem_cons_self),
      ih fun q hq => hcolon q (List.mem_cons_of_mem _ hq)]
    rfl

/-- Texts without carriage returns leave the lines as they are written. -/
theorem physicalLines_export {events : List CalendarEvent} (h : ∀ event ∈ events, Unbroken event) :
    physicalLines (exportCalendarsIcs events) = (allProperties events).map written := by
  rw [exportCalendarsIcs_eq, physicalLines_lines lineFeed_not_mem_lines, lines_of_not_mem (return_not_mem_lines_iff.2 h)]

theorem readCalendar_export {events : List CalendarEvent} (h : ∀ event ∈ events, Unbroken event) :
    readCalendar (exportCalendarsIcs events) = some ⟨calendarProperties, events.map eventProperties⟩ := by
  unfold readCalendar
  rw [physicalLines_export h, property_allProperties]
  simp only [Option.bind_eq_bind, Option.bind_some, allProperties, if_true, calendarProperties, List.cons_append, List.nil_append]
  rw [readBody_property _ (by decide), readBody_property _ (by decide), readBody_property _ (by decide), readBody_events]
  · rfl
  · intro e he p hp
    obtain ⟨event, -, rfl⟩ := List.mem_map.1 he
    exact isBracket_eventProperties p hp

/-! ## What the properties of an event say -/

theorem valueOf_append (a b : List Property) (name : String) : valueOf (a ++ b) name = (valueOf a name).or (valueOf b name) := by
  unfold valueOf
  rw [List.find?_append]
  cases a.find? fun p => p.name == name.toList <;> rfl

theorem valueOf_textProperty (name text : String) :
    valueOf (textProperty name text) name = if text.isEmpty then none else some (icsEscape text.toList) := by
  unfold textProperty
  split
  · rfl
  · simp [valueOf]

theorem valueOf_textProperty_ne {name name' : String} (text : String) (h : name.toList ≠ name'.toList) :
    valueOf (textProperty name text) name' = none := by
  unfold textProperty
  split
  · rfl
  · simp [valueOf, h]

theorem valueOf_ruleProperty_ne {name : String} (event : CalendarEvent) (h : "RRULE".toList ≠ name.toList) :
    valueOf (ruleProperty event) name = none := by
  unfold ruleProperty
  split
  · rfl
  · simp only [valueOf, List.find?_cons, beq_eq_false_iff_ne.2 h, List.find?_nil, Option.map_none]

/-- A text that is written, or left out because it is empty, is read. -/
theorem unescape_text (text : String) :
    (match (if text.isEmpty then none else some (icsEscape text.toList) : Option (List Char)) with
      | none => some []
      | some value => unescape value) = some text.toList := by
  split
  · rename_i h
    split at h
    · rename_i hempty
      rw [String.isEmpty_iff.1 hempty]
      rfl
    · cases h
  · rename_i value h
    split at h
    · cases h
    · obtain rfl := Option.some.inj h
      rw [icsEscape_eq, unescape_escaped]

theorem textOf_description (event : CalendarEvent) : textOf (eventProperties event) "DESCRIPTION" = some event.description.toList := by
  unfold textOf eventProperties
  rw [valueOf_append, valueOf_append, valueOf_append, valueOf_textProperty, valueOf_textProperty_ne _ (by decide),
    valueOf_ruleProperty_ne _ (by decide), Option.or_none, Option.or_none]
  exact unescape_text event.description

theorem textOf_location (event : CalendarEvent) : textOf (eventProperties event) "LOCATION" = some event.location.toList := by
  unfold textOf eventProperties
  rw [valueOf_append, valueOf_append, valueOf_append, valueOf_textProperty, valueOf_textProperty_ne _ (by decide),
    valueOf_ruleProperty_ne _ (by decide), Option.or_none]
  exact unescape_text event.location

/-- A time stands for the instant exactly if it is that of a timed event and a time can say it. -/
theorem readStamp_icsTime_iff (event : CalendarEvent) (t : Int) :
    readStamp (icsTime t) = some (stampOf event t) ↔ event.allDay = false ∧ Writable t := by
  unfold icsTime stampOf Writable
  by_cases hy : FourDigits (dateNaive t)
  · rw [readStamp_formatUtc hy]
    cases event.allDay with
    | true => simp
    | false => simp [hy]
  · rw [readStamp_sign hy]
    simp [hy]

theorem readRule_once {recurrence : EventRecurrence} (h : recurrence ≠ .none) :
    readRule ("FREQ=".toList ++ (recurrence.freq.toList ++ [])) = some (recurrence, none) := by
  cases recurrence with
  | none => exact absurd rfl h
  | daily => decide
  | weekly => decide
  | monthly => decide
  | yearly => decide

theorem readRule_until {recurrence : EventRecurrence} (h : recurrence ≠ .none) (t : DateTime) :
    readRule ("FREQ=".toList ++ (recurrence.freq.toList ++ (";UNTIL=".toList ++ icsTime t))) =
      (readStamp (icsTime t)).map fun stamp => (recurrence, some stamp) := by
  have hl : ("UNTIL=".toList ++ icsTime t).splitOn ';' = ["UNTIL=".toList ++ icsTime t] := by
    apply List.splitOn_eq_singleton
    rw [List.mem_append, not_or]
    exact ⟨by decide, sep_not_mem_formatUtc t⟩
  have hall : (("FREQ=".toList ++ recurrence.freq.toList).all fun x => !(x == ';')) = true := by
    cases recurrence <;> decide
  have hf : ∀ x ∈ "FREQ=".toList ++ recurrence.freq.toList, (x == ';') = false := by
    intro x hx
    simpa using List.all_eq_true.1 hall x hx
  have hsplit : ("FREQ=".toList ++ (recurrence.freq.toList ++ (";UNTIL=".toList ++ icsTime t))).splitOn ';' =
      ["FREQ=".toList ++ recurrence.freq.toList, "UNTIL=".toList ++ icsTime t] := by
    have hjoin : "FREQ=".toList ++ (recurrence.freq.toList ++ (";UNTIL=".toList ++ icsTime t)) =
        ("FREQ=".toList ++ recurrence.freq.toList) ++ ';' :: ("UNTIL=".toList ++ icsTime t) := by
      rw [List.append_assoc]
      rfl
    rw [hjoin, List.splitOn_eq_splitOnP, List.splitOnP_append_cons_of_forall_mem hf ';' rfl, ← List.splitOn_eq_splitOnP, hl]
  have hprefix : ∀ value, stripPrefix "UNTIL=" ("UNTIL=".toList ++ value) = some value := by
    intro value
    simp [stripPrefix]
  have hfreq : (stripPrefix "FREQ=" ("FREQ=".toList ++ recurrence.freq.toList)).bind frequency = some recurrence := by
    cases recurrence with
    | none => exact absurd rfl h
    | daily => decide
    | weekly => decide
    | monthly => decide
    | yearly => decide
  unfold readRule
  rw [hsplit]
  obtain ⟨f, hf1, hf2⟩ := Option.bind_eq_some_iff.1 hfreq
  simp only [hf1, hf2, hprefix, Option.bind_eq_bind, Option.bind_some]
  cases readStamp (icsTime t) <;> rfl

theorem ruleOf_iff (event : CalendarEvent) : ruleOf (eventProperties event) = some (repetition event) ↔
    (event.recurrence ≠ .none → ∀ t, event.recurrenceUntil = some t → event.allDay = false ∧ Writable t) := by
  have hvalue : valueOf (eventProperties event) "RRULE" = (ruleProperty event).head?.map (·.value) := by
    unfold eventProperties
    rw [valueOf_append, valueOf_append, valueOf_append, valueOf_textProperty_ne _ (by decide), valueOf_textProperty_ne _ (by decide)]
    unfold ruleProperty
    split
    · rfl
    · rfl
  unfold ruleOf repetition
  rw [hvalue]
  unfold ruleProperty
  by_cases hnone : event.recurrence = .none
  · simp [hnone]
  · rw [if_neg hnone, if_neg hnone]
    simp only [List.head?_cons, Option.map_some]
    cases hu : event.recurrenceUntil with
    | none =>
      simp only
      rw [readRule_once hnone]
      simp
    | some t =>
      simp only
      rw [readRule_until hnone]
      simp only [Option.map_map, Option.map_some, Option.some.injEq, forall_eq', ne_eq, hnone, not_false_eq_true, true_implies]
      rw [← readStamp_icsTime_iff]
      cases readStamp (icsTime t) <;> simp

/-- The properties of an event with unbroken texts say what is stored exactly if it is timed and its
times can be said. -/
theorem denotes_iff {event : CalendarEvent} (h : Unbroken event) :
    Denotes event (eventProperties event) ↔ Exportable event := by
  obtain ⟨htitle, hdescription, hlocation⟩ := h
  constructor
  · intro hd
    obtain ⟨htimed, hstart⟩ := (readStamp_icsTime_iff event event.startsAt).1 hd.start
    exact ⟨htimed, htitle, hdescription, hlocation, hstart, ((readStamp_icsTime_iff event event.endsAt).1 hd.stop).2,
      fun hr t ht => ((ruleOf_iff event).1 hd.rule hr t ht).2⟩
  · intro he
    constructor
    · unfold eventProperties propertyNames textProperty ruleProperty
      simp only [List.map_append, List.map_cons, List.map_nil]
      split <;> split <;> split <;> rfl
    · rfl
    · exact (readStamp_icsTime_iff event event.startsAt).2 ⟨he.timed, he.start⟩
    · exact (readStamp_icsTime_iff event event.endsAt).2 ⟨he.timed, he.stop⟩
    · rw [normalized_of_not_mem htitle]
      show unescape (icsEscape event.title.toList) = _
      rw [icsEscape_eq, unescape_escaped]
    · rw [normalized_of_not_mem hdescription, textOf_description]
    · rw [normalized_of_not_mem hlocation, textOf_location]
    · exact (ruleOf_iff event).2 fun hr t ht => ⟨he.timed, he.until_ hr t ht⟩

theorem length_allProperties (events : List CalendarEvent) :
    (allProperties events).length = calendarProperties.length + eventLines (events.map eventProperties) + 2 := by
  have hevents : ∀ es : List (List Property),
      (es.flatMap fun e => begin "VEVENT" :: (e ++ [«end» "VEVENT"])).length = eventLines es := by
    intro es
    induction es with
    | nil => rfl
    | cons e es ih =>
      rw [List.flatMap_cons, List.length_append, ih]
      simp only [eventLines, List.map_cons, List.sum_cons, List.length_cons, List.length_append, List.length_nil]
  simp only [allProperties, List.length_cons, List.length_append, hevents, List.length_nil]
  omega

/-- An event that is denoted has as many properties as are written for it. -/
theorem Denotes.length {event : CalendarEvent} {properties : List Property} (h : Denotes event properties) :
    properties.length = (eventProperties event).length := by
  have hlen := congrArg List.length h.names
  rw [List.length_map, List.length_map] at hlen
  rw [hlen]
  unfold propertyNames eventProperties textProperty ruleProperty
  simp only [List.length_append]
  split <;> split <;> split <;> rfl

theorem eventLines_eq {events : List CalendarEvent} {es : List (List Property)} (h : List.Forall₂ Denotes events es) :
    eventLines es = eventLines (events.map eventProperties) := by
  induction h with
  | nil => rfl
  | cons hd _ ih =>
    unfold eventLines at ih ⊢
    rw [List.map_cons, List.sum_cons, ih, hd.length]
    rfl

/-- A faithful export has as many lines as are written, so no text breaks one. -/
theorem Faithful.unbroken {events : List CalendarEvent} (h : Faithful events (exportCalendarsIcs events)) :
    ∀ event ∈ events, Unbroken event := by
  obtain ⟨c, hread, hnames, hevents⟩ := h.calendar
  have hlen := length_readCalendar hread
  have hproperties : c.properties.length = calendarProperties.length := by
    have := congrArg List.length hnames
    rwa [List.length_map] at this
  rw [hproperties, eventLines_eq hevents, ← length_allProperties, exportCalendarsIcs_eq,
    physicalLines_lines lineFeed_not_mem_lines] at hlen
  refine return_not_mem_lines_iff.1 (length_lines_eq_iff.1 ?_)
  rw [hlen, List.length_map]

/-- The export is faithful exactly if every event is timed, its times are whole seconds in the years 0
to 9999 and no carriage return is in its texts. -/
theorem export_faithful_iff (events : List CalendarEvent) :
    Faithful events (exportCalendarsIcs events) ↔ ∀ event ∈ events, Exportable event := by
  constructor
  · intro h event he
    have hunbroken := h.unbroken
    obtain ⟨c, hread, -, hevents⟩ := h.calendar
    rw [readCalendar_export hunbroken] at hread
    obtain rfl := Option.some.inj hread
    rw [List.forall₂_map_right_iff] at hevents
    exact (denotes_iff (hunbroken event he)).1 (List.forall₂_same.1 hevents event he)
  · intro h
    have hunbroken : ∀ event ∈ events, Unbroken event := fun event he => ⟨(h event he).title, (h event he).description, (h event he).location⟩
    constructor
    · refine ⟨_, readCalendar_export hunbroken, rfl, ?_⟩
      rw [List.forall₂_map_right_iff]
      exact List.forall₂_same.2 fun event he => (denotes_iff (hunbroken event he)).2 (h event he)
    · intro line hl
      rw [physicalLines_export hunbroken] at hl
      obtain ⟨p, hp, rfl⟩ := List.mem_map.1 hl
      obtain ⟨-, hne, hspace, htab⟩ := name_allProperties hp
      unfold written
      rw [List.head?_append_of_ne_nil _ hne]
      exact ⟨hspace, htab⟩

/-- An event whose title has a carriage return and the end of an event in it. -/
def injectingEvent : CalendarEvent where
  id := 1
  title := "a\rEND:VEVENT"
  description := ""
  startsAt := 1767225600000000
  endsAt := 1767229200000000
  allDay := false
  timezone := "UTC"
  location := ""
  attendees := []
  recurrence := .none
  recurrenceUntil := none
  calendarId := 2
  linkedTaskId := none
  createdAt := 1767225600000000
  updatedAt := 1767225600000000
  version := 1

/-- Its title ends the event. -/
theorem title_injects : ¬ Faithful [injectingEvent] (exportCalendarsIcs [injectingEvent]) := by
  intro h
  obtain ⟨c, hread, -⟩ := h.calendar
  have hnone : readCalendar (exportCalendarsIcs [injectingEvent]) = none := by decide +kernel
  rw [hnone] at hread
  cases hread

end Export

end Prosepect
