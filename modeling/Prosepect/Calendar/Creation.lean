/-
The creation of Google events: when the mapping that the push of an unmapped event records is
true of what Google has.

It is not when Google has another version under the id of the event: the push adopts whatever the
id leads to, and records the fingerprint of the local content.
-/
import Prosepect.Calendar.Google

namespace Prosepect

open Text Time Resumption Versions SyncService

/-! ## What is sent comes back -/

/-- The recurrence of an event survives being written as a rule and read back. -/
def LocalEvent.RoundTrips (e : LocalEvent) : Prop :=
  recurrenceRule (parseRecurrence (recurrenceRule e.recurrence e.recurrenceUntil)).1
    (parseRecurrence (recurrenceRule e.recurrence e.recurrenceUntil)).2 =
      recurrenceRule e.recurrence e.recurrenceUntil

instance (e : LocalEvent) : Decidable e.RoundTrips := inferInstanceAs (Decidable (_ = _))

theorem LocalEvent.roundTrips {e : LocalEvent} (h : ∀ t, e.recurrenceUntil = some t →
    0 ≤ (civil (dateNaive t)).year ∧ (civil (dateNaive t)).year ≤ 9999) : e.RoundTrips :=
  recurrenceRule_parseRecurrence h

/-- What comes back of an event that was written. -/
def LocalEvent.echo (e : LocalEvent) : NormalizedEvent where
  title := e.title
  description := e.description
  startsAt := if e.allDay then midnight (dateNaive e.startsAt) else e.startsAt
  endsAt := if e.allDay then midnight (dateNaive e.endsAt) else e.endsAt
  allDay := e.allDay
  timezone := if e.allDay then "UTC" else e.timezone
  location := e.location
  attendees := e.attendees
  recurrence := (parseRecurrence (recurrenceRule e.recurrence e.recurrenceUntil)).1
  recurrenceUntil := (parseRecurrence (recurrenceRule e.recurrence e.recurrenceUntil)).2

/-- Nothing but the recurrence of an event can change by being written and read back. -/
theorem eventFingerprint_echo (e : LocalEvent) : eventFingerprint e.echo = localFingerprint e ↔ e.RoundTrips := by
  unfold eventFingerprint
  rw [localFingerprint_eq_iff]
  constructor
  · intro h
    exact congrArg GoogleEventWrite.recurrence h
  · intro h
    unfold GoogleEventWrite.fromLocal NormalizedEvent.toLocal LocalEvent.echo
    cases hd : e.allDay with
    | true =>
      simp only [if_true, dateNaive_midnight, GoogleEventWrite.mk.injEq, true_and]
      exact h
    | false =>
      simp only [Bool.false_eq_true, if_false, GoogleEventWrite.mk.injEq, true_and]
      exact h

namespace Google

/-- The fingerprint of a version, where it has the shape of an event. -/
def fingerprint? (v : Version) : Option Fingerprint :=
  match normalizeEvent (event v) with
  | .ok n => some (eventFingerprint n)
  | .error _ => none

/-- A mapping is at a version of its event that is live and has the fingerprint of the mapping. -/
def Truthful (g : Google) (m : Mapping) : Prop :=
  ∃ v ∈ g.events.log, v.key = (m.externalCalendarId, m.externalEventId) ∧ v.content.tagged = true ∧
    etag v = m.externalEtag ∧ cancelled v = false ∧ fingerprint? v = m.baseFingerprint

instance (g : Google) (m : Mapping) : Decidable (g.Truthful m) := inferInstanceAs (Decidable (∃ _ ∈ _, _))

theorem revisionText_inj {a b : Nat} (h : revisionText a = revisionText b) : a = b := by
  have hd : Nat.toDigits 10 a = Nat.toDigits 10 b := by
    rw [← Nat.toList_repr, ← Nat.toList_repr]
    exact congrArg String.toList h
  have ha := Nat.ofDigitChars_ten_toDigits (n := a)
  rw [hd, Nat.ofDigitChars_ten_toDigits] at ha
  exact ha.symm

/-- An etag belongs to one version. -/
theorem eq_of_etag {g : Google} {v w : Version} (hv : v ∈ g.events.log) (hw : w ∈ g.events.log)
    (htv : v.content.tagged = true) (htw : w.content.tagged = true) (h : etag v = etag w) : v = w := by
  simp only [etag, htv, htw, if_true, Option.some.injEq] at h
  exact History.eq_of_revision hv hw (revisionText_inj h)

theorem normalizeEvent_written (key : String × String) (revision : Nat) (e : LocalEvent) (id : Option String)
    (now : DateTime) :
    normalizeEvent (event ⟨key, revision, written { GoogleEventWrite.fromLocal e with id := id } now⟩) = .ok e.echo := by
  have ha : (e.attendees.map GoogleAttendee.mk).map (·.email) = e.attendees := by simp [Function.comp_def]
  unfold normalizeEvent LocalEvent.echo
  cases hd : e.allDay with
  | true =>
    simp only [event, written, GoogleEventWrite.fromLocal, hd, eventTime, ha, if_true]
    rfl
  | false =>
    simp only [event, written, GoogleEventWrite.fromLocal, hd, eventTime, ha, Bool.false_eq_true, if_false]
    rfl

end Google

/-! ## Creating an event, whatever becomes of the requests -/

section Create

variable (calendar : SyncCalendar) (e : LocalEvent)

/-- Where an event is created, and with what. -/
def creationKey : String × String := (calendar.externalId, googleEventId e.id)

def creationBody : GoogleEventWrite := { GoogleEventWrite.fromLocal e with id := some (googleEventId e.id) }

/-- The version of the event, if it is created. -/
def createdVersion (g : Google) : Google.Version :=
  ⟨creationKey calendar e, g.events.next, Google.written (creationBody e) g.now⟩

/-- Google during a creation: as before, or with the event created. -/
def Tried (g g' : Google) : Prop :=
  g'.now = g.now ∧ (g'.events = g.events ∨ (g.events.current (creationKey calendar e) = none ∧
    g'.events = g.events.commit (creationKey calendar e) (Google.written (creationBody e) g.now)))

/-- The version a creation ends up with: one that was there, or the created one. -/
def Adopted (g : Google) (v : Google.Version) : Prop :=
  g.events.current (creationKey calendar e) = some v ∨
    (g.events.current (creationKey calendar e) = none ∧ v = createdVersion calendar e g)

/-- What a creation may have been answered. -/
def Offered (g : Google) (remote : GoogleEvent) (g' : Google) : Prop :=
  ∃ v, Adopted calendar e g v ∧ v ∈ g'.events.log ∧ remote = Google.event v

variable {calendar e} {g g' : Google} {db : Db}

theorem adopted_of_current (h : Tried calendar e g g') {v : Google.Version}
    (hv : g'.events.current (creationKey calendar e) = some v) : Adopted calendar e g v := by
  rcases h.2 with he | ⟨hn, he⟩
  · rw [he] at hv
    exact .inl hv
  · rw [he, History.current_commit] at hv
    exact .inr ⟨hn, (Option.some.inj hv).symm⟩

theorem tried_post (h : Tried calendar e g g') :
    Tried calendar e g (Google.serve (.postEvent calendar.externalId (creationBody e)) g').2 ∧
      ∀ b, (Google.serve (.postEvent calendar.externalId (creationBody e)) g').1.body = some b →
        Offered calendar e g b (Google.serve (.postEvent calendar.externalId (creationBody e)) g').2 := by
  obtain ⟨hnow, he⟩ := h
  have hserve : Google.serve (.postEvent calendar.externalId (creationBody e)) g' =
      g'.post calendar.externalId (creationBody e) := rfl
  rw [hserve]
  rcases g'.post_cases calendar.externalId (creationBody e) (rfl : _ = creationKey calendar e) with
    ⟨v, -, hp⟩ | ⟨hn, hp⟩
  · rw [hp]
    exact ⟨⟨hnow, he⟩, by rintro b hb; cases hb⟩
  · rw [hp]
    -- Google has not created it yet
    have hev : g'.events = g.events := by
      rcases he with he | ⟨-, he⟩
      · exact he
      · rw [he, History.current_commit] at hn
        cases hn
    have hn0 : g.events.current (creationKey calendar e) = none := by rw [← hev]; exact hn
    constructor
    · refine ⟨hnow, .inr ⟨hn0, ?_⟩⟩
      show g'.events.commit _ (Google.written _ g'.now) = _
      rw [hev, hnow]
    · rintro b hb
      refine ⟨createdVersion calendar e g, .inr ⟨hn0, rfl⟩, ?_, ?_⟩
      · show _ ∈ (g'.events.commit _ (Google.written _ g'.now)).log
        rw [hev, hnow]
        exact History.mem_commit.2 (.inl rfl)
      · have hb : Google.event ⟨creationKey calendar e, g'.events.next, Google.written (creationBody e) g'.now⟩ = b :=
          Option.some.inj hb
        rw [← hb, hev, hnow]
        rfl

theorem tried_get (h : Tried calendar e g g') :
    Tried calendar e g (Google.serve (.getEvent calendar.externalId (googleEventId e.id)) g').2 ∧
      ∀ b, (Google.serve (.getEvent calendar.externalId (googleEventId e.id)) g').1.body = some b →
        Offered calendar e g b (Google.serve (.getEvent calendar.externalId (googleEventId e.id)) g').2 := by
  refine ⟨h, ?_⟩
  intro b hb
  have hb : (g'.get (creationKey calendar e)).body = some b := hb
  unfold Google.get at hb
  cases hv : g'.events.current (creationKey calendar e) with
  | none => rw [hv] at hb; cases hb
  | some v =>
    rw [hv] at hb
    exact ⟨v, adopted_of_current h hv, History.current_mem hv, (Option.some.inj hb).symm⟩

theorem tried_faults (h : Tried calendar e g g') (faults : List Fault) : Tried calendar e g { g' with faults := faults } := h

theorem createRemote_eq (calendar : SyncCalendar) (e : LocalEvent) : createRemote calendar e =
    (send (.postEvent calendar.externalId (creationBody e))).bind fun response =>
      if response.status = 409 then sendJson (.getEvent calendar.externalId (googleEventId e.id))
      else (errorForStatus "Google event creation failed" response).bind fun response =>
        json "Google event creation returned invalid JSON" response := rfl

/-- Whatever becomes of the requests of a creation, a remote event it ends up with is one that was
there under the id, or the event as written. -/
theorem run_createRemote (calendar : SyncCalendar) (e : LocalEvent) (db : Db) (g : Google) : ∃ res g',
    (createRemote calendar e).run (exec Google.provider) (db, g) = (res, (db, g')) ∧ Tried calendar e g g' ∧
      ∀ remote, res = .ok remote → Offered calendar e g remote g' := by
  obtain ⟨res, g1, hr, htried, hres⟩ := run_send_google (I := Tried calendar e g)
    (fun g' faults h => tried_faults h faults) (fun g' h => tried_post h) db ⟨rfl, .inl rfl⟩
  rw [createRemote_eq, Prog.run_bind, hr]
  cases res with
  | error err => exact ⟨.error err, g1, rfl, htried, by rintro remote h; cases h⟩
  | ok x =>
    simp only
    by_cases hs : x.status = 409
    · rw [if_pos hs]
      obtain ⟨res, g2, hr, htried, hres⟩ := run_send_google (I := Tried calendar e g)
        (fun g' faults h => tried_faults h faults) (fun g' h => tried_get h) db htried
      unfold sendJson
      rw [Prog.bind_eq, Prog.run_bind, hr]
      cases res with
      | error err => exact ⟨.error err, g2, rfl, htried, by rintro remote h; cases h⟩
      | ok y =>
        obtain ⟨out, hout, hb⟩ := run_decode (P := Google.provider) "Google Calendar request failed"
          "Google Calendar returned invalid JSON" y (db, g2)
        exact ⟨out, g2, hout, htried, fun remote h => hres y rfl remote (hb remote h)⟩
    · rw [if_neg hs]
      obtain ⟨out, hout, hb⟩ := run_decode (P := Google.provider) "Google event creation failed"
        "Google event creation returned invalid JSON" x (db, g1)
      exact ⟨out, g1, hout, htried, fun remote h => hres x rfl remote (hb remote h)⟩

/-- Without faults a creation ends up with the version under the id, if there is one. -/
theorem run_createRemote_reliable (calendar : SyncCalendar) (e : LocalEvent) (db : Db) (h : g.faults = []) : ∃ v g',
    (createRemote calendar e).run (exec Google.provider) (db, g) = (.ok (Google.event v), (db, g')) ∧
      Adopted calendar e g v ∧ g'.events.current (creationKey calendar e) = some v := by
  rw [createRemote_eq, Prog.run_bind_ok _ (run_send_reliable h _)]
  have hserve : Google.serve (.postEvent calendar.externalId (creationBody e)) g =
      g.post calendar.externalId (creationBody e) := rfl
  rw [hserve]
  rcases g.post_cases calendar.externalId (creationBody e) (rfl : _ = creationKey calendar e) with
    ⟨v, hv, hp⟩ | ⟨hn, hp⟩
  · rw [hp]
    refine ⟨v, g, ?_, .inl hv, hv⟩
    have hget : Google.serve (.getEvent calendar.externalId (googleEventId e.id)) g = (⟨200, some (Google.event v)⟩, g) := by
      show (g.get (creationKey calendar e), g) = _
      unfold Google.get
      rw [hv]
    simp only [if_true]
    unfold sendJson
    rw [Prog.bind_eq, Prog.run_bind_ok _ (run_send_reliable h _), hget]
    rfl
  · rw [hp]
    exact ⟨createdVersion calendar e g, _, rfl, .inr ⟨hn, rfl⟩, History.current_commit⟩

/-- The tables accept a mapping of the event. -/
def Recordable (calendar : SyncCalendar) (e : LocalEvent) (db : Db) : Prop :=
  db.mappingAt? calendar.externalId (googleEventId e.id) = none ∧ db.mappingOf? e.id = none ∧
    (db.calendar? calendar.id).isSome ∧ (db.event? e.id).isSome

/-- The tables and Google after the push of an unmapped event. -/
def created (calendar : SyncCalendar) (e : LocalEvent) (db : Db) (g : Google) : Db × Google :=
  ((pushUnmapped calendar e).run (exec Google.provider) (db, g)).2

/-- The mapping that is recorded for a version. -/
def recordOf (calendar : SyncCalendar) (e : LocalEvent) (db : Db) (v : Google.Version) : Mapping :=
  Db.newMapping db.nextId calendar.id e.id calendar.externalId (googleEventId e.id) (Google.etag v) (localFingerprint e) db.now

theorem adopted_key {v : Google.Version} (hv : Adopted calendar e g v) : v.key = creationKey calendar e := by
  rcases hv with hv | ⟨-, rfl⟩
  · exact History.current_key hv
  · rfl

/-- After an answer, the mapping is recorded if the tables accept it. -/
theorem run_pushUnmapped {v : Google.Version} (hv : Adopted calendar e g v)
    (h : (createRemote calendar e).run (exec Google.provider) (db, g) = (.ok (Google.event v), (db, g'))) :
    (Recordable calendar e db ∧ (pushUnmapped calendar e).run (exec Google.provider) (db, g) =
      (.ok (), ((db.fresh.insertMapping (recordOf calendar e db v)).insertActivity
        "local_event_created" "Created a Google event from Prosepect", g'))) ∨
    (¬ Recordable calendar e db ∧ ∃ err, (pushUnmapped calendar e).run (exec Google.provider) (db, g) =
      (.error err, (db, g'))) := by
  have hid : (Google.event v).id.getD (googleEventId e.id) = googleEventId e.id := by
    show v.key.2 = _
    rw [adopted_key hv]
    rfl
  unfold pushUnmapped
  rw [Prog.bind_eq, Prog.run_bind_ok _ h, hid]
  cases hrec : db.recordMapping calendar.id e.id calendar.externalId (googleEventId e.id) (Google.event v).etag
      (localFingerprint e) with
  | ok db' =>
    obtain ⟨hat, hof, hcal, hev, rfl⟩ := Db.recordMapping_ok hrec
    have hrun : (Stmt.insertMapping calendar.id e.id calendar.externalId (googleEventId e.id) (Google.event v).etag
        (localFingerprint e)).run db = .ok ((), db.fresh.insertMapping (recordOf calendar e db v)) := by
      simp only [Stmt.run, hrec]
      rfl
    rw [Prog.bind_eq, run_sql_bind hrun]
    exact .inl ⟨⟨hat, hof, hcal, Db.event?_isSome.2 hev⟩, rfl⟩
  | error err =>
    have hrun : (Stmt.insertMapping calendar.id e.id calendar.externalId (googleEventId e.id) (Google.event v).etag
        (localFingerprint e)).run db = .error err := by
      simp only [Stmt.run, hrec]
      rfl
    rw [Prog.bind_eq, run_sql_bind_error hrun]
    refine .inr ⟨?_, _, rfl⟩
    rintro ⟨hat, hof, hcal, hev⟩
    unfold Db.recordMapping at hrec
    rw [if_neg (by rw [hat, hof]; simp), if_neg (by
      rw [Bool.or_eq_true, not_or]
      exact ⟨by simpa [Option.isSome_iff_ne_none] using hcal, by simpa [Option.isSome_iff_ne_none] using hev⟩)] at hrec
    cases hrec

/-- A mapping that the push records is for a version the creation ended up with. -/
theorem exists_adopted (calendar : SyncCalendar) (e : LocalEvent) (db : Db) (g : Google) {m : Mapping}
    (hm : m ∈ (created calendar e db g).1.mappings) (hnew : m ∉ db.mappings) :
    Recordable calendar e db ∧ ∃ v, Adopted calendar e g v ∧ v ∈ (created calendar e db g).2.events.log ∧
      m = recordOf calendar e db v := by
  obtain ⟨res, g', hr, -, hres⟩ := run_createRemote calendar e db g
  cases res with
  | error err =>
    unfold created pushUnmapped at hm
    rw [Prog.bind_eq, Prog.run_bind_error _ hr] at hm
    exact absurd hm hnew
  | ok remote =>
    obtain ⟨v, hv, hlog, rfl⟩ := hres remote rfl
    rcases run_pushUnmapped hv hr with ⟨hrec, hrun⟩ | ⟨-, err, hrun⟩
    · unfold created at hm ⊢
      rw [hrun] at hm ⊢
      rcases List.mem_append.1 hm with hm | hm
      · exact absurd hm hnew
      · exact ⟨hrec, v, hv, hlog, List.mem_singleton.1 hm⟩
    · unfold created at hm
      rw [hrun] at hm
      exact absurd hm hnew

theorem fingerprint_createdVersion (calendar : SyncCalendar) (e : LocalEvent) (g : Google) :
    Google.fingerprint? (createdVersion calendar e g) = some (eventFingerprint e.echo) := by
  unfold Google.fingerprint? createdVersion creationBody
  rw [Google.normalizeEvent_written]

end Create

/-- Every mapping the push of an unmapped event records is true of Google, whatever becomes of the
requests, exactly if, where the tables accept a mapping, Google has nothing under the id of the
event and the recurrence of the event survives, or what it has is live, with an etag, and has the
fingerprint of the event. -/
theorem created_truthful_iff (calendar : SyncCalendar) (e : LocalEvent) {db : Db} (hv : db.Valid) (g : Google) :
    (∀ faults : List Fault, ∀ m ∈ (created calendar e db { g with faults := faults }).1.mappings, m ∉ db.mappings →
      (created calendar e db { g with faults := faults }).2.Truthful m) ↔
    (Recordable calendar e db →
      (g.events.current (creationKey calendar e) = none ∧ e.RoundTrips) ∨
      ∃ v, g.events.current (creationKey calendar e) = some v ∧ v.content.tagged = true ∧
        Google.cancelled v = false ∧ Google.fingerprint? v = some (localFingerprint e)) := by
  constructor
  · intro h hrec
    -- the run without faults records a mapping
    obtain ⟨v, g', hr, hadopt, hcur⟩ := run_createRemote_reliable calendar e (g := { g with faults := [] }) db rfl
    have hlog := History.current_mem hcur
    obtain ⟨hmap, hg⟩ : (created calendar e db { g with faults := [] }).1.mappings = db.mappings ++ [recordOf calendar e db v] ∧
        (created calendar e db { g with faults := [] }).2 = g' := by
      unfold created
      rcases run_pushUnmapped hadopt hr with ⟨-, hrun⟩ | ⟨hno, -⟩
      · rw [hrun]
        exact ⟨rfl, rfl⟩
      · exact absurd hrec hno
    have hnew : recordOf calendar e db v ∉ db.mappings := by
      intro hm
      have := hv.mappingsUsed _ hm
      exact absurd this (lt_irrefl _)
    obtain ⟨w, hw, -, htag, hetag, hlive, hf⟩ := h [] (recordOf calendar e db v) (by rw [hmap]; simp) hnew
    rw [hg] at hw
    have htagv : v.content.tagged = true := by
      by_contra hno
      have : Google.etag v = none := if_neg hno
      have hetag : Google.etag w = Google.etag v := hetag
      rw [this, Google.etag, if_pos htag] at hetag
      cases hetag
    obtain rfl := Google.eq_of_etag hw hlog htag htagv hetag
    rcases hadopt with hcur | ⟨hnone, rfl⟩
    · exact .inr ⟨w, hcur, htag, hlive, hf⟩
    · refine .inl ⟨hnone, ?_⟩
      rw [fingerprint_createdVersion] at hf
      exact (eventFingerprint_echo e).1 (Option.some.inj hf)
  · rintro h faults m hm hnew
    obtain ⟨hrec, v, hadopt, hlog, rfl⟩ := exists_adopted calendar e db _ hm hnew
    have hkey := adopted_key hadopt
    have hsays : v.content.tagged = true ∧ Google.cancelled v = false ∧
        Google.fingerprint? v = some (localFingerprint e) := by
      rcases h hrec with ⟨hnone, htrips⟩ | ⟨w, hcur, hw⟩
      · rcases hadopt with hcur | ⟨-, rfl⟩
        · exact absurd (hnone.symm.trans hcur) (by simp)
        · refine ⟨rfl, rfl, ?_⟩
          rw [fingerprint_createdVersion, (eventFingerprint_echo e).2 htrips]
      · rcases hadopt with hcur' | ⟨hnone, -⟩
        · obtain rfl := Option.some.inj (hcur.symm.trans hcur')
          exact hw
        · exact absurd (hcur.symm.trans hnone) (by simp)
    exact ⟨v, hlog, hkey, hsays.1, rfl, hsays.2.1, hsays.2.2⟩

/-! ## A mapping lost, and the event edited -/

/-- The event before its first push. -/
def unmappedTables (event : CalendarEvent) : Db := { planningTables planningMapping with events := [event], mappings := [] }

/-- A Google calendar without events. -/
def emptyGoogle : Google := ⟨History.empty, 0, 0, []⟩

/-- Google after a push that was cut off before it recorded its mapping. -/
def orphanedGoogle : Google := (created work planning.toLocalEvent (unmappedTables planning) emptyGoogle).2

/-- The event, edited since. -/
def renamedPlanning : CalendarEvent := { planning with title := "Planning, renamed", version := 3 }

theorem created_truthful_iff_first :
    (∀ faults : List Fault, ∀ m ∈ (created work planning.toLocalEvent (unmappedTables planning)
        { emptyGoogle with faults := faults }).1.mappings, m ∉ (unmappedTables planning).mappings →
      (created work planning.toLocalEvent (unmappedTables planning) { emptyGoogle with faults := faults }).2.Truthful m) ↔
    (Recordable work planning.toLocalEvent (unmappedTables planning) →
      (emptyGoogle.events.current (creationKey work planning.toLocalEvent) = none ∧ planning.toLocalEvent.RoundTrips) ∨
      ∃ v, emptyGoogle.events.current (creationKey work planning.toLocalEvent) = some v ∧ v.content.tagged = true ∧
        Google.cancelled v = false ∧ Google.fingerprint? v = some (localFingerprint planning.toLocalEvent)) :=
  created_truthful_iff work planning.toLocalEvent (by decide) emptyGoogle

/-- The retry records the new content for the version with the old one. -/
theorem created_untruthful : (unmappedTables renamedPlanning).Valid ∧
    ¬ ∀ m ∈ (created work renamedPlanning.toLocalEvent (unmappedTables renamedPlanning) orphanedGoogle).1.mappings,
      m ∉ (unmappedTables renamedPlanning).mappings →
      (created work renamedPlanning.toLocalEvent (unmappedTables renamedPlanning) orphanedGoogle).2.Truthful m := by
  constructor
  · decide
  · decide

end Prosepect
