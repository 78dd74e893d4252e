/-
Google Calendar as the party a synchronization talks to: it keeps every version of every event,
tells versions apart by etags, refuses a write with an `If-Match` that is not the etag of the last
version, and gives no id out twice, not even that of a cancelled event. Sync tokens are revisions.

A request may go wrong on the way (`Fault`): it may be lost before or after it took effect.
-/
import Prosepect.Data.Versions
import Prosepect.Calendar.Delivery

namespace Prosepect

open Time Resumption Versions

/-- What a version of an event says. -/
structure GoogleContent where
  status : Option String
  summary : Option String
  description : String
  start : Option GoogleEventTime
  «end» : Option GoogleEventTime
  location : String
  attendees : List GoogleAttendee
  recurrence : List String
  updated : Option DateTime
  /-- The version is sent with an etag. -/
  tagged : Bool
deriving DecidableEq, Repr

/-- What becomes of a request on the way. -/
inductive Fault
  | none
  /-- It does not reach Google. -/
  | unsent
  /-- It is refused with this status before it takes effect. -/
  | refused (status : Nat)
  /-- It takes effect, and the answer is lost. -/
  | unanswered
  /-- It takes effect, and is answered with this status and a body that does not decode. -/
  | broken (status : Nat)
deriving DecidableEq, Repr

structure Google where
  /-- By the ids of the calendar and of the event. -/
  events : History (String × String) GoogleContent
  now : DateTime
  /-- Sync tokens of earlier revisions have expired. -/
  expired : Nat
  /-- What becomes of the next requests; those after them go well. -/
  faults : List Fault

namespace Google

abbrev Version := Versions.Version (String × String) GoogleContent

/-- The text of a revision, in an etag or a sync token. -/
def revisionText (n : Nat) : String := n.repr

def etag (v : Version) : Option String := if v.content.tagged then some (revisionText v.revision) else none

def cancelled (v : Version) : Bool := v.content.status == some "cancelled"

/-- A version as it is sent. -/
def event (v : Version) : GoogleEvent where
  id := some v.key.2
  etag := etag v
  status := v.content.status
  summary := v.content.summary
  description := v.content.description
  start := v.content.start
  «end» := v.content.end
  location := v.content.location
  attendees := v.content.attendees
  recurrence := v.content.recurrence
  updated := v.content.updated

/-- What a write says. -/
def written (body : GoogleEventWrite) (now : DateTime) : GoogleContent where
  status := some "confirmed"
  summary := some body.summary
  description := body.description
  start := some body.start
  «end» := some body.end
  location := body.location
  attendees := body.attendees
  recurrence := body.recurrence
  updated := some now
  tagged := true

variable (g : Google)

/-- A new version of an event. -/
def commit (key : String × String) (content : GoogleContent) : Google :=
  { g with events := g.events.commit key content }

/-- The revision of a sync token, unless it is none, or expired. -/
def readToken (token : String) : Option Nat :=
  ((List.range (g.events.next + 1)).find? (revisionText · == token)).filter (g.expired ≤ ·)

/-- The last versions of the events of a calendar from a revision on. -/
def changed (calendar : String) (since : Nat) : List Version :=
  (g.events.since since).filter (·.key.1 == calendar)

/-- All in one page. -/
def page (calendar : String) (since : Nat) : GoogleEventList where
  items := (g.changed calendar since).map event
  nextPageToken := none
  nextSyncToken := some (revisionText g.events.next)

def mismatch (ifMatch : Option String) (v : Version) : Bool := ifMatch.any fun t => etag v != some t

def list (calendar : String) : (syncToken : Option String) → Response GoogleEventList
  | none => ⟨200, some (g.page calendar 0)⟩
  | some token => match g.readToken token with
    | some since => ⟨200, some (g.page calendar since)⟩
    | none => ⟨410, none⟩

def get (key : String × String) : Response GoogleEvent :=
  match g.events.current key with
  | some v => ⟨200, some (event v)⟩
  | none => ⟨404, none⟩

def post (calendar : String) (body : GoogleEventWrite) : Response GoogleEvent × Google :=
  let key := (calendar, body.id.getD (revisionText g.events.next))
  match g.events.current key with
  | some _ => (⟨409, none⟩, g)
  | none => (⟨200, some (event ⟨key, g.events.next, written body g.now⟩)⟩, g.commit key (written body g.now))

def put (key : String × String) (body : GoogleEventWrite) (ifMatch : Option String) : Response GoogleEvent × Google :=
  match g.events.current key with
  | none => (⟨404, none⟩, g)
  | some v =>
    if mismatch ifMatch v then (⟨412, none⟩, g)
    else (⟨200, some (event ⟨key, g.events.next, written body g.now⟩)⟩, g.commit key (written body g.now))

def delete (key : String × String) (ifMatch : Option String) : Response GoogleEvent × Google :=
  match g.events.current key with
  | none => (⟨404, none⟩, g)
  | some v =>
    if cancelled v then (⟨410, none⟩, g)
    else if mismatch ifMatch v then (⟨412, none⟩, g)
    else (⟨204, none⟩, g.commit key { v.content with status := some "cancelled", updated := some g.now })

/-- What a request that arrives does, and its answer. -/
def serve : (r : Request) → Google → Response r.Body × Google
  | .listEvents calendar syncToken _, g => (g.list calendar syncToken, g)
  | .getEvent calendar id, g => (g.get (calendar, id), g)
  | .postEvent calendar body, g => g.post calendar body
  | .putEvent calendar id body ifMatch, g => g.put (calendar, id) body ifMatch
  | .deleteEvent calendar id ifMatch, g => g.delete (calendar, id) ifMatch
  | .accessToken, g => (⟨200, some ()⟩, g)

/-- What a request does, and what comes back, under a fault. -/
def suffer (r : Request) (g : Google) : Fault → Except Unit (Response r.Body) × Google
  | .none => (.ok (serve r g).1, (serve r g).2)
  | .unsent => (.error (), g)
  | .refused status => (.ok ⟨status, none⟩, g)
  | .unanswered => (.error (), (serve r g).2)
  | .broken status => (.ok ⟨status, none⟩, (serve r g).2)

def answer (r : Request) (g : Google) : Except Unit (Response r.Body) × Google :=
  match g.faults with
  | [] => suffer r g .none
  | fault :: faults => suffer r { g with faults := faults } fault

/-- Google, to a synchronization. -/
def provider : Provider Google := ⟨answer⟩

/-! ## What a request leaves -/

/-- Google itself asks for no repetition. -/
theorem serve_status (r : Request) (g : Google) : SyncService.retryable (serve r g).1.status = false := by
  cases r with
  | listEvents calendar syncToken _ =>
    simp only [serve]
    unfold list
    cases syncToken with
    | none => rfl
    | some token => simp only; split <;> rfl
  | getEvent calendar id =>
    simp only [serve, get]
    split <;> rfl
  | postEvent calendar body =>
    simp only [serve, post]
    split <;> rfl
  | putEvent calendar id body ifMatch =>
    simp only [serve, put]
    split
    · rfl
    · split <;> rfl
  | deleteEvent calendar id ifMatch =>
    simp only [serve, delete]
    split
    · rfl
    · split
      · rfl
      · split <;> rfl
  | accessToken => rfl

theorem post_cases (g : Google) (calendar : String) (body : GoogleEventWrite) {key : String × String}
    (hkey : (calendar, body.id.getD (revisionText g.events.next)) = key) :
    (∃ v, g.events.current key = some v ∧ g.post calendar body = (⟨409, none⟩, g)) ∨
    (g.events.current key = none ∧ g.post calendar body =
      (⟨200, some (event ⟨key, g.events.next, written body g.now⟩)⟩, g.commit key (written body g.now))) := by
  subst hkey
  unfold post
  simp only
  cases g.events.current (calendar, body.id.getD (revisionText g.events.next)) with
  | some v => exact .inl ⟨v, rfl, rfl⟩
  | none => exact .inr ⟨rfl, rfl⟩

theorem answer_reliable {g : Google} (h : g.faults = []) (r : Request) :
    answer r g = (.ok (serve r g).1, (serve r g).2) := by
  unfold answer
  rw [h]
  rfl

/-- What holds of Google whether a request arrives or not, and of the answer where it has a body
that decodes, holds under every fault. -/
theorem answer_cases {I : Google → Prop} {r : Request} {Q : r.Body → Google → Prop}
    (hI : ∀ g faults, I g → I { g with faults := faults })
    (hQ : ∀ g, I g → I (serve r g).2 ∧ ∀ b, (serve r g).1.body = some b → Q b (serve r g).2) {g : Google} (hg : I g) :
    I (answer r g).2 ∧ ∀ x, (answer r g).1 = .ok x → ∀ b, x.body = some b → Q b (answer r g).2 := by
  have hsuffer : ∀ g, I g → ∀ fault,
      I (suffer r g fault).2 ∧ ∀ x, (suffer r g fault).1 = .ok x → ∀ b, x.body = some b → Q b (suffer r g fault).2 := by
    rintro g hg fault
    cases fault with
    | none =>
      refine ⟨(hQ g hg).1, ?_⟩
      rintro x hx b hb
      obtain rfl := Except.ok.inj hx
      exact (hQ g hg).2 b hb
    | unsent => exact ⟨hg, by rintro x hx; cases hx⟩
    | refused status =>
      refine ⟨hg, ?_⟩
      rintro x hx b hb
      obtain rfl := Except.ok.inj hx
      cases hb
    | unanswered => exact ⟨(hQ g hg).1, by rintro x hx; cases hx⟩
    | broken status =>
      refine ⟨(hQ g hg).1, ?_⟩
      rintro x hx b hb
      obtain rfl := Except.ok.inj hx
      cases hb
  unfold answer
  cases g.faults with
  | nil => exact hsuffer g hg .none
  | cons fault faults => exact hsuffer _ (hI g faults hg) fault

end Google

namespace SyncService

section Send

variable {σ : Type} {P : Provider σ} {r : Request}

/-- What every attempt keeps and every answer meets, the outcome of all attempts does. -/
theorem run_sendFrom {I : σ → Prop} {Q : Response r.Body → σ → Prop}
    (h : ∀ g, I g → I (P.answer r g).2 ∧ ∀ x, (P.answer r g).1 = .ok x → Q x (P.answer r g).2) (db : Db) :
    ∀ (n : Nat) (g : σ), I g → ∃ res g', (sendFrom r n).run (exec P) (db, g) = (res, (db, g')) ∧ I g' ∧
      ∀ x, res = .ok x → Q x g' := by
  have hone : ∀ g, I g → ∃ res g', (request r).run (exec P) (db, g) = (res, (db, g')) ∧ I g' ∧
      ∀ x, res = .ok x → Q x g' := by
    rintro g hg
    obtain ⟨hI, hQ⟩ := h g hg
    cases hx : (P.answer r g).1 with
    | ok x =>
      refine ⟨.ok x, (P.answer r g).2, ?_, hI, ?_⟩
      · simp only [request, Prog.run_op, exec, hx]
        rfl
      · rintro y hy
        obtain rfl := Except.ok.inj hy
        exact hQ x hx
    | error u =>
      refine ⟨.error .transport, (P.answer r g).2, ?_, hI, by rintro y hy; cases hy⟩
      simp only [request, Prog.run_op, exec, hx]
      rfl
  intro n
  induction n with
  | zero => exact hone
  | succ n ih =>
    rintro g hg
    obtain ⟨res, g', hr, hI, hQ⟩ := hone g hg
    unfold sendFrom
    rw [Prog.bind_eq, Prog.run_bind, hr]
    cases res with
    | error e => exact ⟨.error e, g', rfl, hI, by rintro y hy; cases hy⟩
    | ok x =>
      simp only
      by_cases hs : retryable x.status = true
      · simp only [hs, if_true]
        exact ih g' hI
      · simp only [hs]
        exact ⟨.ok x, g', rfl, hI, hQ⟩

/-- The body of an answer that is no error. -/
theorem run_decode {β : Type} (context context' : String) (x : Response β) (w : Db × σ) :
    ∃ res, ((errorForStatus context x).bind fun x => json context' x).run (exec P) w = (res, w) ∧
      ∀ b, res = .ok b → x.body = some b := by
  unfold errorForStatus
  by_cases hs : 400 ≤ x.status ∧ x.status < 600
  · rw [if_pos hs]
    exact ⟨_, rfl, by rintro b hb; cases hb⟩
  · rw [if_neg hs]
    simp only [Prog.ret_bind, json]
    cases hx : x.body with
    | none => exact ⟨_, rfl, by rintro b hb; cases hb⟩
    | some b => exact ⟨_, rfl, by rintro c hc; rw [Except.ok.inj hc]⟩

/-- What holds of Google whether a request arrives or not holds after all attempts. -/
theorem run_send_google {I : Google → Prop} {Q : r.Body → Google → Prop}
    (hI : ∀ g faults, I g → I { g with faults := faults })
    (hQ : ∀ g, I g → I (Google.serve r g).2 ∧ ∀ b, (Google.serve r g).1.body = some b → Q b (Google.serve r g).2)
    (db : Db) {g : Google} (hg : I g) :
    ∃ res g', (send r).run (exec Google.provider) (db, g) = (res, (db, g')) ∧ I g' ∧
      ∀ x, res = .ok x → ∀ b, x.body = some b → Q b g' :=
  run_sendFrom (P := Google.provider) (Q := fun x g' => ∀ b, x.body = some b → Q b g')
    (fun _ hg => Google.answer_cases hI hQ hg) db 3 g hg

/-- Without faults one attempt is enough. -/
theorem run_send_reliable {db : Db} {g : Google} (h : g.faults = []) (r : Request) :
    (send r).run (exec Google.provider) (db, g) = (.ok (Google.serve r g).1, (db, (Google.serve r g).2)) := by
  have hone : (request r).run (exec Google.provider) (db, g) =
      (.ok (Google.serve r g).1, (db, (Google.serve r g).2)) := by
    simp only [request, Prog.run_op, exec, Google.provider, Google.answer_reliable h]
    rfl
  unfold send sendFrom
  rw [Prog.bind_eq, Prog.run_bind_ok _ hone, Google.serve_status]
  rfl

end Send

end SyncService

end Prosepect
