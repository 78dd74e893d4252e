/-
The fingerprint of an event under the echo of its write. A fingerprint is taken of the write body
as JSON text; the text determines the body. Google sends back what it was sent, in its own time
fields, and may leave out what is empty: the event read from that has the body that was sent.
-/
import Prosepect.Data.Json
import Prosepect.Store.Writes

namespace Prosepect

open Text Time Resumption

/-! ## Write bodies as JSON -/

/-- A field with `skip_serializing_if = "Option::is_none"`. -/
def optionalField {α : Type} (key : String) (f : α → Json) : Option α → List (String × Json)
  | none => []
  | some a => [(key, f a)]

theorem fst_optionalField {α : Type} {key : String} {f : α → Json} {o : Option α} {p : String × Json}
    (h : p ∈ optionalField key f o) : p.1 = key := by
  cases o with
  | none => cases h
  | some a => rw [List.mem_singleton.1 h]

/-- An optional field is found in front of fields of other names. -/
theorem optionalField_inj {α : Type} {key : String} {f : α → Json} (hf : ∀ a b, f a = f b → a = b) {o o' : Option α}
    {l l' : List (String × Json)} (hl : ∀ p ∈ l, p.1 ≠ key) (hl' : ∀ p ∈ l', p.1 ≠ key)
    (h : optionalField key f o ++ l = optionalField key f o' ++ l') : o = o' ∧ l = l' := by
  cases o with
  | none =>
    cases o' with
    | none => exact ⟨rfl, h⟩
    | some b =>
      have hmem : (key, f b) ∈ l := by
        rw [show l = (key, f b) :: l' from h]
        exact List.mem_cons_self
      exact absurd rfl (hl _ hmem)
  | some a =>
    cases o' with
    | none =>
      have hmem : (key, f a) ∈ l' := by
        rw [← show (key, f a) :: l = l' from h]
        exact List.mem_cons_self
      exact absurd rfl (hl' _ hmem)
    | some b =>
      obtain ⟨hfield, rfl⟩ := List.cons.inj h
      rw [hf a b (Prod.mk.inj hfield).2]
      exact ⟨rfl, rfl⟩

/-- A text as a value. -/
def jsonText (l : List Char) : Json := .str (String.ofList l)

theorem jsonText_inj {l l' : List Char} (h : jsonText l = jsonText l') : l = l' :=
  String.ofList_injective (Json.str.inj h)

/-- `GoogleEventTimeWrite`. -/
def GoogleEventTime.toJson (t : GoogleEventTime) : Json :=
  .obj (optionalField "dateTime" (fun t => jsonText (formatRfc3339 t)) t.dateTime ++
    (optionalField "date" (fun d => jsonText (formatDate d)) t.date ++ optionalField "timeZone" Json.str t.timeZone))

theorem GoogleEventTime.toJson_inj {a b : GoogleEventTime} (h : a.toJson = b.toJson) : a = b := by
  have hlate : ∀ {t : GoogleEventTime} {p : String × Json}, p ∈ optionalField "timeZone" Json.str t.timeZone → p.1 ≠ "date" := by
    rintro t p hp hkey
    rw [fst_optionalField hp] at hkey
    exact absurd hkey (by decide)
  have hfirst : ∀ {t : GoogleEventTime} {p : String × Json}, p ∈ optionalField "date" (fun d => jsonText (formatDate d)) t.date ++
      optionalField "timeZone" Json.str t.timeZone → p.1 ≠ "dateTime" := by
    rintro t p hp hkey
    rcases List.mem_append.1 hp with hp | hp
    · rw [fst_optionalField hp] at hkey
      exact absurd hkey (by decide)
    · rw [fst_optionalField hp] at hkey
      exact absurd hkey (by decide)
  obtain ⟨hdateTime, h⟩ := optionalField_inj (fun _ _ he => formatRfc3339_inj (jsonText_inj he)) (fun _ => hfirst)
    (fun _ => hfirst) (Json.obj.inj h)
  have hdates : ∀ d d', jsonText (formatDate d) = jsonText (formatDate d') → d = d' := by
    rintro d d' he
    have happend : formatDate d ++ [] = formatDate d' ++ [] := by rw [jsonText_inj he]
    exact (formatDate_append_inj happend).1
  obtain ⟨hdate, h⟩ := optionalField_inj hdates (fun _ => hlate) (fun _ => hlate) h
  have hzone : optionalField "timeZone" Json.str a.timeZone ++ [] = optionalField "timeZone" Json.str b.timeZone ++ [] := by
    rw [h]
  obtain ⟨htimeZone, -⟩ := optionalField_inj (fun _ _ => Json.str.inj) (by rintro p hp; cases hp) (by rintro p hp; cases hp) hzone
  obtain ⟨dateTime, date, timeZone⟩ := a
  obtain ⟨dateTime', date', timeZone'⟩ := b
  simp only at hdateTime hdate htimeZone
  rw [hdateTime, hdate, htimeZone]

namespace GoogleEventWrite

/-- A list with `skip_serializing_if = "Vec::is_empty"`. -/
def nonempty (l : List String) : Option (List String) := if l = [] then none else some l

theorem nonempty_inj {l l' : List String} (h : nonempty l = nonempty l') : l = l' := by
  unfold nonempty at h
  split at h
  · split at h
    · rw [‹l = []›, ‹l' = []›]
    · cases h
  · split at h
    · cases h
    · exact Option.some.inj h

def toJson (body : GoogleEventWrite) : Json :=
  .obj (optionalField "id" Json.str body.id ++
    ("summary", .str body.summary) :: ("description", .str body.description) :: ("start", body.start.toJson) ::
    ("end", body.end.toJson) :: ("location", .str body.location) ::
    ("attendees", .arr (body.attendees.map fun a => .obj [("email", .str a.email)])) ::
    optionalField "recurrence" (fun l => .arr (l.map .str)) (nonempty body.recurrence))

/-- The text a fingerprint is taken of. -/
def text (body : GoogleEventWrite) : String := body.toJson.text

theorem toJson_inj {a b : GoogleEventWrite} (h : a.toJson = b.toJson) : a = b := by
  have hrest : ∀ {c : GoogleEventWrite} {p : String × Json}, p ∈ ("summary", Json.str c.summary) ::
      ("description", .str c.description) :: ("start", c.start.toJson) :: ("end", c.end.toJson) ::
      ("location", .str c.location) :: ("attendees", .arr (c.attendees.map fun a => .obj [("email", .str a.email)])) ::
      optionalField "recurrence" (fun l => .arr (l.map .str)) (nonempty c.recurrence) → p.1 ≠ "id" := by
    rintro c p hp
    simp only [List.mem_cons] at hp
    rcases hp with rfl | rfl | rfl | rfl | rfl | rfl | hp
    iterate 6 simp
    rw [fst_optionalField hp]
    decide
  obtain ⟨hid, h⟩ := optionalField_inj (fun _ _ => Json.str.inj) (fun _ => hrest) (fun _ => hrest) (Json.obj.inj h)
  simp only [List.cons.injEq, Prod.mk.injEq, true_and, Json.str.injEq, Json.arr.injEq] at h
  obtain ⟨hsummary, hdescription, hstart, hend, hlocation, hattendees, hrecurrence⟩ := h
  have hemail : Function.Injective fun a : GoogleAttendee => Json.obj [("email", .str a.email)] := by
    rintro ⟨x⟩ ⟨y⟩ hxy
    simp only [Json.obj.injEq, List.cons.injEq, Prod.mk.injEq, true_and, Json.str.injEq, and_true] at hxy
    rw [hxy]
  have hlist : ∀ l l' : List String, Json.arr (l.map .str) = .arr (l'.map .str) → l = l' := by
    rintro l l' hl
    exact List.map_injective_iff.2 (fun _ _ => Json.str.inj) (Json.arr.inj hl)
  have htail : optionalField "recurrence" (fun l => Json.arr (l.map .str)) (nonempty a.recurrence) ++ [] =
      optionalField "recurrence" (fun l => Json.arr (l.map .str)) (nonempty b.recurrence) ++ [] := by rw [hrecurrence]
  obtain ⟨hrules, -⟩ := optionalField_inj hlist (by rintro p hp; cases hp) (by rintro p hp; cases hp) htail
  obtain ⟨id, summary, description, start, end_, location, attendees, recurrence⟩ := a
  obtain ⟨id', summary', description', start', end_', location', attendees', recurrence'⟩ := b
  simp only at hid hsummary hdescription hstart hend hlocation hattendees hrules
  rw [hid, hsummary, hdescription, GoogleEventTime.toJson_inj hstart, GoogleEventTime.toJson_inj hend, hlocation,
    List.map_injective_iff.2 hemail hattendees, nonempty_inj hrules]

theorem text_inj {a b : GoogleEventWrite} (h : a.text = b.text) : a = b := toJson_inj (Json.text_inj h)

end GoogleEventWrite

/-- What `local_fingerprint` hashes. -/
def fingerprintInput (e : LocalEvent) : String := (GoogleEventWrite.fromLocal e).text

theorem fingerprintInput_eq_iff (a b : LocalEvent) :
    fingerprintInput a = fingerprintInput b ↔ GoogleEventWrite.fromLocal a = GoogleEventWrite.fromLocal b := by
  constructor
  · exact GoogleEventWrite.text_inj
  · intro h
    unfold fingerprintInput
    rw [h]

/-! ## The echo -/

/-- An event as Google sends it, before what is left out has its default. -/
structure SentEvent where
  id : Option String
  etag : Option String
  status : Option String
  summary : Option String
  description : Option String
  start : Option GoogleEventTime
  «end» : Option GoogleEventTime
  location : Option String
  attendees : Option (List GoogleAttendee)
  recurrence : Option (List String)
  updated : Option DateTime

/-- The fields with `serde(default)` have one. -/
def SentEvent.decode (s : SentEvent) : GoogleEvent where
  id := s.id
  etag := s.etag
  status := s.status
  summary := s.summary
  description := s.description.getD ""
  start := s.start
  «end» := s.end
  location := s.location.getD ""
  attendees := s.attendees.getD []
  recurrence := s.recurrence.getD []
  updated := s.updated

/-- A field comes back, or is left out if it is empty. -/
def Returned {α : Type} (empty sent : α) (back : Option α) : Prop := back = some sent ∨ sent = empty ∧ back = none

theorem Returned.getD {α : Type} {empty sent : α} {back : Option α} (h : Returned empty sent back) : back.getD empty = sent := by
  rcases h with rfl | ⟨rfl, rfl⟩
  · rfl
  · rfl

theorem Returned.some {α : Type} {empty sent : α} {back : Option α} (h : Returned empty sent back) (hsent : sent ≠ empty) :
    back = some sent := by
  rcases h with rfl | ⟨hempty, -⟩
  · rfl
  · exact absurd hempty hsent

/-- The same instant, or the same date. -/
def GoogleEventTime.Same (sent back : GoogleEventTime) : Prop := back.dateTime = sent.dateTime ∧ back.date = sent.date

/-- What comes back of a write: the same texts, times and lists. The start keeps its zone; of the
zone of the end nothing is asked. -/
structure SentEvent.Echoes (body : GoogleEventWrite) (s : SentEvent) : Prop where
  summary : Returned "" body.summary s.summary
  description : Returned "" body.description s.description
  start : ∃ t, s.start = some t ∧ body.start.Same t ∧ ∀ zone, body.start.timeZone = some zone → Returned "" zone t.timeZone
  «end» : ∃ t, s.end = some t ∧ body.end.Same t
  location : Returned "" body.location s.location
  attendees : Returned [] body.attendees s.attendees
  recurrence : Returned [] body.recurrence s.recurrence

/-- The years 1 to 9999. -/
def LocalEvent.WithinYears (e : LocalEvent) : Prop :=
  ∀ t, t = e.startsAt ∨ t = e.endsAt ∨ e.recurrenceUntil = some t →
    1 ≤ (civil (dateNaive t)).year ∧ (civil (dateNaive t)).year ≤ 9999

/-- The event read from an echo has the body that was sent. -/
theorem fromLocal_echo {e : LocalEvent} {s : SentEvent} (htitle : e.title ≠ "") (hzone : e.timezone ≠ "")
    (hyears : e.WithinYears) (h : s.Echoes (GoogleEventWrite.fromLocal e)) :
    ∃ n, normalizeEvent s.decode = .ok n ∧ ∀ id, GoogleEventWrite.fromLocal (n.toLocal id) = GoogleEventWrite.fromLocal e := by
  obtain ⟨start, hstart, ⟨hsdt, hsd⟩, hszone⟩ := h.start
  obtain ⟨end_, hend, hedt, hed⟩ := h.end
  have hsummary : s.summary = some e.title := h.summary.some htitle
  have hdescription : s.description.getD "" = e.description := h.description.getD
  have hlocation : s.location.getD "" = e.location := h.location.getD
  have hattendees : s.attendees.getD [] = e.attendees.map (⟨·⟩) := h.attendees.getD
  have hrecurrence : s.recurrence.getD [] = recurrenceRule e.recurrence e.recurrenceUntil := h.recurrence.getD
  have hemails : ∀ l : List String, ((l.map GoogleAttendee.mk).map (·.email)).map GoogleAttendee.mk = l.map GoogleAttendee.mk := by
    intro l
    simp
  have hrule := recurrenceRule_parseRecurrence (r := e.recurrence) fun t ht =>
    ⟨le_trans (by decide) (hyears t (.inr (.inr ht))).1, (hyears t (.inr (.inr ht))).2⟩
  unfold normalizeEvent SentEvent.decode
  simp only [hstart, hend, hsummary, hdescription, hlocation, hattendees, hrecurrence, Option.getD_some]
  unfold GoogleEventWrite.fromLocal at hsdt hsd hszone hedt hed ⊢
  simp only at hsdt hsd hszone hedt hed
  cases hall : e.allDay with
  | true =>
    simp only [hall, if_true] at hsdt hsd hedt hed ⊢
    -- midnight of a date has that date, whatever the time of day was
    refine ⟨_, by rw [hsdt]; unfold eventTime; rw [hsdt, hedt, hsd, hed]; rfl, ?_⟩
    intro id
    simp only [NormalizedEvent.toLocal, Option.isNone_none, if_true, dateNaive_midnight, hemails, hrule]
  | false =>
    simp only [hall, Bool.false_eq_true, if_false] at hsdt hsd hszone hedt hed ⊢
    have hzoned : start.timeZone = some e.timezone := (hszone e.timezone rfl).some hzone
    refine ⟨_, by rw [hsdt]; unfold eventTime; rw [hsdt, hedt]; rfl, ?_⟩
    intro id
    simp only [NormalizedEvent.toLocal, hzoned, Option.isNone_some, Bool.false_eq_true, if_false, hemails, hrule,
      Option.getD_some]

namespace Store

/-- Fingerprints are stable under the echo of a write, and as fine as the writes. -/
theorem fingerprint_stable :
    (∀ (toLowercase : String → String) (r : CreateCalendarEventRequest) (db db' : Db) (event : CalendarEvent),
      createCalendarEvent toLowercase r db = .ok (event, db') → event.WithinYears →
      ∀ s : SentEvent, s.Echoes (.fromLocal event.toLocalEvent) → ∃ n, normalizeEvent s.decode = .ok n ∧
        eventFingerprint n = localFingerprint event.toLocalEvent ∧
        fingerprintInput (n.toLocal 0) = fingerprintInput event.toLocalEvent) ∧
    ∀ a b : LocalEvent, fingerprintInput a = fingerprintInput b ↔ GoogleEventWrite.fromLocal a = .fromLocal b := by
  refine ⟨?_, fingerprintInput_eq_iff⟩
  rintro toLowercase r db db' event h hyears s hecho
  obtain ⟨attendees, hr, -, hevent, -, -⟩ := createCalendarEvent_ok h
  have hfit := (validateEventRequest_ok_iff r).1 hr
  have htitle : event.title = trim r.title := by rw [hevent]; rfl
  have hzone : event.timezone = trim r.timezone := by rw [hevent]; rfl
  have hnonempty : ∀ {t : String}, 1 ≤ t.length → t ≠ "" := by
    rintro t ht rfl
    exact absurd ht (by decide)
  obtain ⟨n, hn, hbody⟩ := fromLocal_echo (htitle ▸ hnonempty hfit.title.1) (hzone ▸ hnonempty hfit.timezone.1) hyears hecho
  refine ⟨n, hn, ?_, ?_⟩
  · exact (localFingerprint_eq_iff _ _).2 (hbody 0)
  · exact (fingerprintInput_eq_iff _ _).2 (hbody 0)

/-- The fair of two days, from ten on the first to ten on the second. -/
def fairRow : CalendarEvent :=
  { toLocalEvent := requestedContent 1 (fair true 36000000000 122400000000) [], calendarId := 0, linkedTaskId := none,
    createdAt := 0, updatedAt := 0, version := 1 }

/-- It comes back without what is empty, and with a zone nobody has sent. -/
def fairEcho : SentEvent :=
  ⟨some "g", none, some "confirmed", some "Fair", none, some ⟨none, some 0, none⟩, some ⟨none, some 1, some "UTC"⟩, none,
    none, none, none⟩

theorem fingerprint_stable_fair : ∃ n, normalizeEvent fairEcho.decode = .ok n ∧
    eventFingerprint n = localFingerprint fairRow.toLocalEvent := by
  obtain ⟨db', hcreate⟩ : ∃ db', createCalendarEvent (fun s => s) (fair true 36000000000 122400000000) googleWorkspace.db =
      .ok (fairRow, db') := ⟨_, rfl⟩
  have hyears : fairRow.WithinYears := by
    rintro t (rfl | rfl | ht)
    · decide
    · decide
    · cases ht
  have hecho : fairEcho.Echoes (.fromLocal fairRow.toLocalEvent) := {
    summary := .inl (by decide)
    description := .inr ⟨by decide, rfl⟩
    start := ⟨_, rfl, ⟨rfl, by decide⟩, by rintro zone hzone; cases hzone⟩
    «end» := ⟨_, rfl, ⟨rfl, by decide⟩⟩
    location := .inr ⟨by decide, rfl⟩
    attendees := .inr ⟨rfl, rfl⟩
    recurrence := .inr ⟨rfl, rfl⟩ }
  obtain ⟨n, hn, hfingerprint, -⟩ := fingerprint_stable.1 _ _ _ db' fairRow hcreate hyears fairEcho hecho
  exact ⟨n, hn, hfingerprint⟩

end Store

end Prosepect
