/-
An uninterrupted pull: Google's events are delivered in turn, those that were seen before change
nothing, and the token is moved on or not.
-/
import Prosepect.Calendar.Google
import Prosepect.Calendar.Outcomes

namespace Prosepect

open Time Resumption Versions

/-- The same events and mappings, at the same time, in calendars of the same ids. -/
structure Db.Matches (db db' : Db) : Prop where
  now : db'.now = db.now
  events : db'.events = db.events
  mappings : db'.mappings = db.mappings
  calendars : ∀ id, (db'.calendar? id).isSome = (db.calendar? id).isSome

theorem Db.Matches.refl (db : Db) : db.Matches db := ⟨rfl, rfl, rfl, fun _ => rfl⟩

theorem Db.Matches.trans {db db' db'' : Db} (h : db.Matches db') (h' : db'.Matches db'') : db.Matches db'' where
  now := h'.now.trans h.now
  events := h'.events.trans h.events
  mappings := h'.mappings.trans h.mappings
  calendars := fun id => (h'.calendars id).trans (h.calendars id)

theorem Db.matches_updateCalendar (db : Db) (id : Uuid) {f : Calendar → Calendar} (hf : ∀ c, (f c).id = c.id) :
    db.Matches (db.updateCalendar id f) where
  now := rfl
  events := rfl
  mappings := rfl
  calendars := by
    intro k
    rw [Bool.eq_iff_iff, Db.calendar?_isSome, Db.calendar?_isSome]
    constructor
    · rintro ⟨c, hc, hk⟩
      rcases Table.mem_update.1 hc with ⟨hc, -⟩ | ⟨c', hc', -, rfl⟩
      · exact ⟨c, hc, hk⟩
      · exact ⟨c', hc', (hf c').symm.trans hk⟩
    · rintro ⟨c, hc, hk⟩
      by_cases hid : (c.id == id) = true
      · exact ⟨f c, Table.mem_update.2 (.inr ⟨c, hc, hid, rfl⟩), (hf c).trans hk⟩
      · exact ⟨c, Table.mem_update.2 (.inl ⟨hc, by simpa using hid⟩), hk⟩

namespace Google

/-- The revision a pull with this token starts from: it is full without one, and with an expired one. -/
def since (g : Google) (token : Option String) : Nat := (token.bind g.readToken).getD 0

end Google

namespace SyncService

/-- What a pull is sent. -/
def delivered (calendar : SyncCalendar) (g : Google) : List GoogleEvent :=
  (g.changed calendar.externalId (g.since calendar.syncToken)).map Google.event

section

variable {calendar : SyncCalendar} {db db' : Db} {g : Google}

/-- A pull delivers, also where it has to start over. -/
theorem run_pullCalendar (h : g.faults = []) (fuel : Nat) (db : Db) :
    (pullCalendar (fuel + 2) calendar).run (exec Google.provider) (db, g) =
      ((Prog.forEach (applyRemoteEvent calendar) (delivered calendar g)).bind fun _ =>
        finishPull calendar (some (Google.revisionText g.events.next))).run (exec Google.provider) (db, g) := by
  -- one page is enough
  have hpage : ∀ (fuel : Nat) (token : Option String) (retried : Bool) (since : Nat),
      g.list calendar.externalId token = ⟨200, some (g.page calendar.externalId since)⟩ →
      (pullPages calendar (fuel + 1) token none retried).run (exec Google.provider) (db, g) =
        ((Prog.forEach (applyRemoteEvent calendar) ((g.changed calendar.externalId since).map Google.event)).bind
          fun _ => finishPull calendar (some (Google.revisionText g.events.next))).run (exec Google.provider) (db, g) := by
    intro fuel token retried since hlist
    have hserve : Google.serve (.listEvents calendar.externalId token none) g =
        (⟨200, some (g.page calendar.externalId since)⟩, g) := by
      show (g.list calendar.externalId token, g) = _
      rw [hlist]
    unfold pullPages
    rw [Prog.bind_eq, Prog.run_bind_ok _ (run_send_reliable h _), hserve]
    rfl
  unfold pullCalendar
  cases htoken : calendar.syncToken with
  | none =>
    have hsince : g.since calendar.syncToken = 0 := by rw [htoken]; rfl
    rw [hpage (fuel + 1) none false 0 rfl]
    unfold delivered
    rw [hsince]
  | some token =>
    cases hread : g.readToken token with
    | some n =>
      have hsince : g.since calendar.syncToken = n := by
        rw [htoken]
        simp [Google.since, hread]
      rw [hpage (fuel + 1) (some token) false n (by simp only [Google.list, hread])]
      unfold delivered
      rw [hsince]
    | none =>
      have hsince : g.since calendar.syncToken = 0 := by
        rw [htoken]
        simp [Google.since, hread]
      have hserve : Google.serve (.listEvents calendar.externalId (some token) none) g = (⟨410, none⟩, g) := by
        show (g.list calendar.externalId (some token), g) = _
        simp only [Google.list, hread]
      -- the token has expired: a full pull follows
      have hgone : (pullPages calendar (fuel + 1 + 1) (some token) none false).run (exec Google.provider) (db, g) =
          (pullPages calendar (fuel + 1) none none true).run (exec Google.provider) (db, g) := by
        rw [pullPages, Prog.bind_eq, Prog.run_bind_ok _ (run_send_reliable h _), hserve]
        rfl
      rw [hgone, hpage fuel none true 0 rfl]
      unfold delivered
      rw [hsince]

theorem run_finishPull (g : Google) (db : Db) (token : Option String) : ∃ db', db.Matches db' ∧
    (finishPull calendar token).run (exec Google.provider) (db, g) = (.ok (), (db', g)) := by
  unfold finishPull
  rw [Prog.bind_eq, run_sql_bind (s := .existsUnresolved calendar.id) rfl]
  split
  · exact ⟨db, .refl db, rfl⟩
  · cases token with
    | none => exact ⟨db, .refl db, rfl⟩
    | some token => exact ⟨_, Db.matches_updateCalendar db calendar.id (by intro; rfl), run_sql_ok rfl⟩

/-! ## Events seen before -/

/-- Delivered, the event changes nothing. -/
def Seen (calendar : SyncCalendar) (db : Db) (event : GoogleEvent) : Prop :=
  ∀ externalId, event.id = some externalId →
    exitOf externalId event db.policy ((db.mappingAt? calendar.externalId externalId).map db.mappingState) = .skip

theorem run_seen {event : GoogleEvent} (h : Seen calendar db event) :
    (applyRemoteEvent calendar event).run (exec Google.provider) (db, g) = (.ok (), (db, g)) := by
  cases hid : event.id with
  | none => exact run_applyRemoteEvent_none calendar hid
  | some externalId =>
    rw [run_applyRemoteEvent calendar hid, h externalId hid]
    rfl

theorem run_forEach_seen {events : List GoogleEvent} (h : ∀ event ∈ events, Seen calendar db event) :
    (Prog.forEach (applyRemoteEvent calendar) events).run (exec Google.provider) (db, g) = (.ok (), (db, g)) := by
  induction events with
  | nil => rfl
  | cons event events ih =>
    obtain ⟨h1, h2⟩ := List.forall_mem_cons.1 h
    rw [Prog.forEach, Prog.run_bind_ok _ (run_seen h1)]
    exact ih h2

/-- Among events seen before, one decides the outcome. -/
theorem run_forEach_one {event : GoogleEvent} (l l' : List GoogleEvent) {res : Except SyncError Unit}
    (hl : ∀ x ∈ l, Seen calendar db x)
    (h : (applyRemoteEvent calendar event).run (exec Google.provider) (db, g) = (res, (db', g)))
    (hl' : ∀ x ∈ l', Seen calendar db' x) :
    (Prog.forEach (applyRemoteEvent calendar) (l ++ event :: l')).run (exec Google.provider) (db, g) = (res, (db', g)) := by
  rw [Prog.forEach_append, Prog.run_bind_ok _ (run_forEach_seen hl), Prog.forEach]
  cases res with
  | ok _ => rw [Prog.run_bind_ok _ h, run_forEach_seen hl']
  | error e => rw [Prog.run_bind_error _ h]

/-- The mapping of an identity depends on the rows with that identity alone. -/
theorem mappingAt?_congr (hv : db.Valid) (hv' : db'.Valid) {externalCalendar externalEvent : String}
    (h : ∀ r : Mapping, r.externalCalendarId = externalCalendar → r.externalEventId = externalEvent →
      (r ∈ db'.mappings ↔ r ∈ db.mappings)) :
    db'.mappingAt? externalCalendar externalEvent = db.mappingAt? externalCalendar externalEvent := by
  apply Option.ext
  intro r
  rw [hv'.mappingAt?_eq_some, hv.mappingAt?_eq_some]
  constructor
  · rintro ⟨hr, hcal, hev⟩
    exact ⟨(h r hcal hev).1 hr, hcal, hev⟩
  · rintro ⟨hr, hcal, hev⟩
    exact ⟨(h r hcal hev).2 hr, hcal, hev⟩

/-- What was seen before still is when only the mapping of another event has changed. -/
theorem Seen.congr (hv : db.Valid) (hv' : db'.Valid) (hp : db'.policy = db.policy) (he : db'.events = db.events)
    (externalId : String) (h : ∀ r : Mapping, r.externalCalendarId = calendar.externalId →
      r.externalEventId ≠ externalId → (r ∈ db'.mappings ↔ r ∈ db.mappings))
    {event : GoogleEvent} (hid : event.id ≠ some externalId) (hseen : Seen calendar db event) :
    Seen calendar db' event := by
  intro other hother
  have hne : other ≠ externalId := by
    rintro rfl
    exact hid hother
  have hat : db'.mappingAt? calendar.externalId other = db.mappingAt? calendar.externalId other :=
    mappingAt?_congr hv hv' fun r hcal hev => h r hcal (by rw [hev]; exact hne)
  have hstate : db'.mappingState = db.mappingState := by
    funext m
    unfold Db.mappingState Db.event?
    rw [he]
  rw [hat, hp, hstate]
  exact hseen other hother

end

end SyncService

end Prosepect
