/-
The limits on requests of `request_limits.rs`: semaphores for all requests, and for every account
slots that are dropped from a map when nothing refers to them any more.

A request holds permits and, as an `Arc`, the slots of its account. They are dropped one by one
when the request ends, is refused, or is cancelled.
-/
import Prosepect.Limits.RateLimit
import Prosepect.Resumption.Guards

namespace Prosepect

open Resumption

/-! ## Semaphores -/

/-- A semaphore, with whatever it keeps of those that wait. -/
structure Semaphore (σ : Type) where
  new : Nat → σ
  /-- A permit is given to one that asks, at once or after a while. -/
  acquire : σ → σ → Prop
  /-- A permit is dropped. -/
  release : σ → σ → Prop
  /-- One comes to wait, or waits no longer. -/
  idle : σ → σ → Prop

/-- A semaphore counts its permits: one is given only if there is one, and comes back when dropped. -/
structure Semaphore.Counts {σ : Type} (S : Semaphore σ) (available : σ → Nat) : Prop where
  new : ∀ n, available (S.new n) = n
  acquire : ∀ s t, S.acquire s t → available s = available t + 1
  release : ∀ s t, S.release s t → available t = available s + 1
  idle : ∀ s t, S.idle s t → available t = available s

namespace RequestLimits

inductive SlotKind
  | requests | writes | large
deriving DecidableEq, Repr

/-- The semaphores: three for all, and the three of every `AccountSlots`, which is named by its address. -/
inductive Sem
  | requests
  | authentication
  | large
  | slot (address : Nat) (kind : SlotKind)
deriving DecidableEq, Repr

def Sem.capacity : Sem → Nat
  | .requests => 32
  | .authentication => 4
  | .large => 2
  | .slot _ .requests => 8
  | .slot _ .writes => 4
  | .slot _ .large => 1

/-- `RequestLimits`, with the `AccountSlots` on the heap. -/
structure World (σ : Type) where
  reads : LoginRateLimiter
  sems : Sem → σ
  accounts : KeyMap Uuid Nat
  /-- `Arc::strong_count` at an address. -/
  strong : Nat → Nat
  /-- No address from here on is used yet. -/
  fresh : Nat

namespace World

variable {σ : Type}

/-- `RequestLimits::default`. -/
def default (S : Semaphore σ) : World σ := ⟨.withLimit 600, fun s => S.new s.capacity, ∅, fun _ => 0, 0⟩

def put (w : World σ) (s : Sem) (x : σ) : World σ := { w with sems := Function.update w.sems s x }

/-- `Arc::strong_count(slots) > 1`. -/
def used (w : World σ) (_ : Uuid) (address : Nat) : Bool := decide (1 < w.strong address)

/-- `accounts.retain(…)`, which drops the references of the entries that go. -/
def prune (w : World σ) : World σ :=
  { w with
    accounts := w.accounts.retain w.used
    strong := fun address => w.strong address -
      w.accounts.entries.countP fun e => decide (e.2 = address) && !w.used e.1 e.2 }

/-- `Arc::clone`. -/
def clone (w : World σ) (address : Nat) : World σ :=
  { w with strong := Function.update w.strong address (w.strong address + 1) }

/-- An `Arc` is dropped. -/
def forget (w : World σ) (address : Nat) : World σ :=
  { w with strong := Function.update w.strong address (w.strong address - 1) }

/-- `Arc::new(AccountSlots { … })`, put into the map. -/
def allocate (S : Semaphore σ) (w : World σ) (user : Uuid) : World σ :=
  { w with
    sems := fun s => match s with
      | .slot address kind => if address = w.fresh then S.new (Sem.slot address kind).capacity else w.sems s
      | _ => w.sems s
    accounts := w.accounts.insert user w.fresh
    strong := Function.update w.strong w.fresh 1
    fresh := w.fresh + 1 }

/-- What `account_request` does under the lock of the map. -/
def account (S : Semaphore σ) (w : World σ) (user : Uuid) : Nat × World σ :=
  match w.prune.accounts.lookup user with
  | some address => (address, w.prune.clone address)
  | none => (w.fresh, (w.prune.allocate S user).clone w.fresh)

end World

/-! ## Requests -/

inductive Method
  | get | head | options | post
  | other (name : String)
deriving DecidableEq, Repr

structure Request where
  method : Method
  /-- `uri().path()`. -/
  uriPath : List Char

/-- `trim_start_matches`, for at most so many matches. -/
def trimStartMatches (pat : List Char) : Nat → List Char → List Char
  | 0, s => s
  | n + 1, s => if pat.isPrefixOf s then trimStartMatches pat n (s.drop pat.length) else s

namespace Request

variable (r : Request)

def path : List Char := trimStartMatches "/api/v1".toList r.uriPath.length r.uriPath

def authentication : Bool :=
  ["/auth/google/start".toList, "/auth/google/callback".toList, "/development/session".toList].contains r.path

def logout : Bool := decide (r.method = .post) && decide (r.path = "/session/logout".toList)

def upload : Bool := decide (r.method = .post) && decide (r.path = "/files".toList)

def large : Bool :=
  r.upload || "/exports/".toList.isPrefixOf r.path || "/imports/".toList.isPrefixOf r.path ||
    (decide (r.method = .get) && decide (r.path = "/notes".toList)) ||
    ("/files/".toList.isPrefixOf r.path && "/download".toList.isSuffixOf r.path)

def write : Bool := !(decide (r.method = .get) || decide (r.method = .head) || decide (r.method = .options))

end Request

/-! ## The middleware -/

def busy : AppError := .invalidRequest 429 "the server is busy; try again shortly"

inductive Op
  | acquire (s : Sem)
  | checkReads (user : Uuid)
  | authenticate
  | account (user : Uuid)
  /-- `drop(admission)`. -/
  | dropAdmission
  /-- `Ok(AccountPermit { … })`: the locals become the fields of the permit. -/
  | accountPermit
  /-- The handler of the route. -/
  | handle

def Op.Answer : Op → Type
  | .authenticate => Uuid
  | .account _ => Nat
  | _ => Unit

abbrev LimitSig : Sig := ⟨Op, fun o => Except AppError o.Answer⟩

abbrev LimitProg (α : Type) : Type := Prog LimitSig AppError α

def call (o : Op) : LimitProg o.Answer := .op o Prog.ofExcept

def onlyIf (b : Bool) (p : LimitProg Unit) : LimitProg Unit := if b then p else pure ()

/-- `acquire`, and `try_acquire_owned`. -/
def acquire (s : Sem) : LimitProg Unit := call (.acquire s)

def accountRequest (user : Uuid) (write large : Bool) : LimitProg Unit := do
  onlyIf (!write) (call (.checkReads user))
  let account ← call (.account user)
  acquire (.slot account .requests)
  onlyIf write (acquire (.slot account .writes))
  onlyIf large (acquire (.slot account .large))
  call .accountPermit

/-- `next.run(request)`: the handler of uploads asks for a large request of its own. -/
def nextRun (r : Request) : LimitProg Unit := do
  onlyIf r.upload (acquire .large)
  call .handle

def admitted (r : Request) (user : Uuid) : LimitProg Unit := do
  call .dropAdmission
  accountRequest user r.write r.large
  acquire .requests
  onlyIf (r.large && !r.upload) (acquire .large)
  nextRun r

def authenticated (r : Request) : LimitProg Unit := do
  acquire .requests
  let user ← call .authenticate
  if r.logout then nextRun r else admitted r user

def limitRequests (r : Request) : LimitProg Unit :=
  if r.authentication then do
    acquire .authentication
    nextRun r
  else authenticated r

/-! ## What a request holds -/

inductive Guard
  | permit (s : Sem)
  | account (address : Nat)
deriving DecidableEq, Repr

structure Frame where
  request : Request
  /-- The answer of `CurrentUser`. -/
  user : Option Uuid
  /-- `account_request` has returned its permit. -/
  admitted : Bool
  /-- In the order in which they are dropped. -/
  guards : List Guard
  /-- All permits that were taken, and all that were given back. -/
  taken : List Sem
  returned : List Sem

namespace Frame

def arrived (r : Request) : Frame := ⟨r, none, false, [], [], []⟩

def take (f : Frame) (s : Sem) : Frame := { f with guards := .permit s :: f.guards, taken := s :: f.taken }

def refer (f : Frame) (address : Nat) : Frame := { f with guards := .account address :: f.guards }

/-- The admission is the permit that was taken first. -/
def leave (f : Frame) : Frame := { f with guards := f.guards.erase (.permit .requests), returned := .requests :: f.returned }

/-- Locals are dropped last first, the fields of `AccountPermit` in their order. -/
def enter (f : Frame) : Frame := { f with guards := f.guards.reverse, admitted := true }

def after : (o : Op) → Except AppError o.Answer → Frame → Frame
  | .acquire s, .ok _, f => f.take s
  | .authenticate, .ok user, f => { f with user := some user }
  | .account _, .ok address, f => f.refer address
  | .dropAdmission, .ok _, f => f.leave
  | .accountPermit, .ok _, f => f.enter
  | _, _, f => f

def pop (f : Frame) : Frame :=
  match f.guards with
  | [] => f
  | .permit s :: gs => { f with guards := gs, returned := s :: f.returned }
  | .account _ :: gs => { f with guards := gs }

end Frame

/-! ## Steps -/

section Steps

variable {σ : Type} (S : Semaphore σ)

/-- What an operation may answer. An acquisition that times out is answered busy, as is one that
finds no permit at once where it would not wait; the lock of the map may be poisoned. -/
inductive Step : (o : Op) → World σ → Except AppError o.Answer → World σ → Prop
  | acquired {s : Sem} {w : World σ} {x : σ} : S.acquire (w.sems s) x → Step (.acquire s) w (.ok ()) (w.put s x)
  | busy {s : Sem} {w : World σ} : Step (.acquire s) w (.error busy) w
  | checkReads {user : Uuid} {w : World σ} {now : Int} :
      Step (.checkReads user) w (w.reads.checkKey (toString user) now).1
        { w with reads := (w.reads.checkKey (toString user) now).2 }
  | authenticate {w : World σ} {r : Except AppError Uuid} : Step .authenticate w r w
  | account {user : Uuid} {w : World σ} : Step (.account user) w (.ok (w.account S user).1) (w.account S user).2
  | poisoned {user : Uuid} {w : World σ} : Step (.account user) w (.error RequestLimits.busy) w
  | dropAdmission {w : World σ} {x : σ} : S.release (w.sems .requests) x → Step .dropAdmission w (.ok ()) (w.put .requests x)
  | accountPermit {w : World σ} : Step .accountPermit w (.ok ()) w
  | handle {w : World σ} {r : Except AppError Unit} : Step .handle w r w

inductive Release : Guard → World σ → World σ → Prop
  | permit {s : Sem} {w : World σ} {x : σ} : S.release (w.sems s) x → Release (.permit s) w (w.put s x)
  | account {address : Nat} {w : World σ} : Release (.account address) w (w.forget address)

inductive Idle : World σ → World σ → Prop
  | queue {s : Sem} {w : World σ} {x : σ} : S.idle (w.sems s) x → Idle w (w.put s x)

def limits : Holding LimitSig AppError (World σ) Frame Guard where
  step := Step S
  after := Frame.after
  guards := Frame.guards
  pop := Frame.pop
  release := Release S
  idle := Idle S
  start f p := ∃ r, f = .arrived r ∧ p = limitRequests r

end Steps

end RequestLimits

end Prosepect
