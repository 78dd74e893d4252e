/-
`0026_workspace_content_limits.sql`: the counters of what the users of a workspace store. A trigger
on each of the eight tables adds what a row's change means to a private row of its transaction;
a deferred one adds that row to the counters when the transaction commits, and compares them with
the limits.

Content is counted in pairs, bytes and records. An integer here does not overflow.
-/
import Mathlib.Algebra.Group.Prod
import Mathlib.Algebra.BigOperators.Group.Multiset.Basic
import Mathlib.Algebra.Order.Sub.Unbundled.Hom
import Mathlib.Data.Multiset.AddSub
import Mathlib.Algebra.Order.Ring.Int
import Prosepect.Data.Table

namespace Prosepect

open Table

namespace Content

abbrev UserId := Nat

/-- Bytes and records. -/
abbrev Amount := Int × Int

inductive Relation
  | projects | tasks | calendars | calendarEvents | notes | files | labels | savedTaskViews
deriving DecidableEq, Repr

/-- A row of one of the tables; `octets` is `octet_length(to_jsonb(row)::text)`. -/
structure Row where
  relation : Relation
  id : Nat
  userId : UserId
  octets : Nat
deriving DecidableEq, Repr

/-- A row of `workspace_content_usage`, or of `workspace_content_pending` for one transaction. -/
structure Entry where
  userId : UserId
  amount : Amount
deriving DecidableEq, Repr

structure Limits where
  user : Amount
  total : Amount
deriving DecidableEq, Repr

structure Store where
  users : List UserId
  rows : Multiset Row
  usage : List Entry
  total : Amount
  pending : List Entry
  limits : Limits

/-! ## The triggers -/

def Row.amount (r : Row) : Amount := (r.octets, 1)

/-- `ON CONFLICT (transaction_id, user_id) DO UPDATE`. -/
def addPending (user : UserId) (delta : Amount) (pending : List Entry) : List Entry :=
  if has (·.userId == user) pending then update (·.userId == user) (fun p => { p with amount := p.amount + delta }) pending
  else pending ++ [⟨user, delta⟩]

inductive QuotaError
  /-- `workspace content limit reached` -/
  | quota
  /-- `CHECK (bytes >= 0)` and `CHECK (records >= 0)` -/
  | check
deriving DecidableEq, Repr

def negative (a : Amount) : Prop := a.1 < 0 ∨ a.2 < 0

instance (a : Amount) : Decidable (negative a) := inferInstanceAs (Decidable (_ ∨ _))

/-- One of the two comparisons; `usage` is NULL for a user who is gone. -/
def exceeds (part : Amount → Int) (change : Amount) (usage : Option Amount) (total : Amount) (limits : Limits) : Prop :=
  0 < part change ∧ ((∃ u ∈ usage, part limits.user < part u) ∨ part limits.total < part total)

instance (part : Amount → Int) (change : Amount) (usage : Option Amount) (total : Amount) (limits : Limits) :
    Decidable (exceeds part change usage total limits) :=
  inferInstanceAs (Decidable (_ ∧ ((∃ u ∈ usage, _) ∨ _)))

/-- What a table says of a user; nothing is as much as zero. -/
def amountIn (entries : List Entry) (user : UserId) : Amount :=
  ((entries.find? (·.userId == user)).map (·.amount)).getD 0

/-- The counter of a user, inserted when it is missing, with `delta` more. -/
def addUsage (user : UserId) (delta : Amount) (usage : List Entry) : List Entry :=
  update (·.userId == user) (fun u => { u with amount := u.amount + delta })
    (if has (·.userId == user) usage then usage else usage ++ [⟨user, 0⟩])

/-- What a user has after a change, unless an account deletion has taken the counter. -/
def counted (db : Store) (user : UserId) (change : Amount) : Option Amount :=
  if user ∈ db.users then some (amountIn db.usage user + change) else none

/-- `apply_workspace_content_usage`, for the user of a deferred event. -/
def applyUsage (db : Store) (user : UserId) : Except QuotaError Store :=
  match db.pending.find? (·.userId == user) with
  | none => .ok db
  | some change =>
    let pending := delete (·.userId == user) db.pending
    if change.amount = 0 then .ok { db with pending := pending }
    else
      let total := db.total + change.amount
      let usage := if user ∈ db.users then addUsage user change.amount db.usage else db.usage
      let after := counted db user change.amount
      if negative total ∨ (∃ u ∈ after, negative u) then .error .check
      else if exceeds Prod.fst change.amount after total db.limits ∨ exceeds Prod.snd change.amount after total db.limits then
        .error .quota
      else .ok { db with usage := usage, total := total, pending := pending }

def applyAll (db : Store) : List UserId → Except QuotaError Store
  | [] => .ok db
  | user :: events => do applyAll (← applyUsage db user) events

/-! ## Transactions -/

/-- A transaction that has not ended: the rows it has changed or deleted, which it has locked, the
rows it has written, the users whose rows it has inserted, which it keeps from being deleted, and the
users it has deleted. -/
structure Transaction where
  before : Multiset Row
  after : Multiset Row
  pending : List Entry
  /-- The deferred events, one for each write of a pending row. -/
  events : List UserId
  inserted : List UserId
  deleted : List UserId

def Transaction.start : Transaction := ⟨0, 0, [], [], [], []⟩

/-- The row trigger. -/
def Transaction.change (user : UserId) (delta : Amount) (t : Transaction) : Transaction :=
  { t with pending := addPending user delta t.pending, events := t.events ++ [user] }

/-- The rows that others have locked or the transaction has changed already. -/
def locked (others : List Transaction) : Multiset Row := (others.map (·.before)).sum

/-- A write of the transaction beside the others. A row that another one has locked is waited for,
so is a user whom another one inserts a row of or deletes. A foreign key that deletes rows or
clears their columns writes them one by one. -/
inductive Write (db : Store) (others : List Transaction) (t : Transaction) : Transaction → Prop
  | insert (r : Row) (huser : r.userId ∈ db.users) (hthere : ∀ o ∈ t :: others, r.userId ∉ o.deleted) :
      Write db others t { t.change r.userId r.amount with
        after := r ::ₘ t.after, inserted := r.userId :: t.inserted }
  | updateOwn (r r' : Row) (hr : r ∈ t.after) (huser : r'.userId = r.userId) :
      Write db others t { t.change r.userId (r'.amount - r.amount) with after := r' ::ₘ t.after.erase r }
  | update (r r' : Row) (hr : r ∈ db.rows - locked (t :: others)) (huser : r'.userId = r.userId) :
      Write db others t { t.change r.userId (r'.amount - r.amount) with
        before := r ::ₘ t.before, after := r' ::ₘ t.after }
  | deleteOwn (r : Row) (hr : r ∈ t.after) :
      Write db others t { t.change r.userId (-r.amount) with after := t.after.erase r }
  | delete (r : Row) (hr : r ∈ db.rows - locked (t :: others)) :
      Write db others t { t.change r.userId (-r.amount) with before := r ::ₘ t.before }
  /-- The user's rows follow, each when it is free. -/
  | deleteUser (user : UserId) (huser : user ∈ db.users) (hthere : ∀ o ∈ t :: others, user ∉ o.deleted)
      (hfree : ∀ o ∈ others, user ∉ o.inserted) : Write db others t { t with deleted := user :: t.deleted }

/-- What the transaction sees when its deferred events run. -/
def Transaction.view (t : Transaction) (db : Store) : Store where
  users := db.users.filter (· ∉ t.deleted)
  rows := db.rows - t.before + t.after
  usage := delete (fun u => decide (u.userId ∈ t.deleted)) db.usage
  total := db.total
  pending := db.pending ++ t.pending
  limits := db.limits

/-- The deletion of a user has reached all rows. -/
def Transaction.Cascaded (t : Transaction) (db : Store) : Prop := ∀ r ∈ db.rows - t.before + t.after, r.userId ∉ t.deleted

def Transaction.commit (t : Transaction) (db : Store) : Except QuotaError Store := applyAll (t.view db) t.events

/-! ## Runs -/

structure System where
  db : Store
  open_ : List Transaction

/-- Transactions in any interleaving. A deferred event that finds a counter locked waits, so that
the events of a transaction and its end are one step. -/
inductive Step (s : System) : System → Prop
  | signUp (user : UserId) (h : user ∉ s.db.users) : Step s { s with db := { s.db with users := user :: s.db.users } }
  | setLimits (limits : Limits) : Step s { s with db := { s.db with limits := limits } }
  | begin_ : Step s { s with open_ := .start :: s.open_ }
  | write {a b : List Transaction} {t t' : Transaction} (h : s.open_ = a ++ t :: b) (hw : Write s.db (a ++ b) t t') :
      Step s { s with open_ := a ++ t' :: b }
  | rollback {a b : List Transaction} {t : Transaction} (h : s.open_ = a ++ t :: b) : Step s { s with open_ := a ++ b }
  | commit {a b : List Transaction} {t : Transaction} {db : Store} (h : s.open_ = a ++ t :: b) (hc : t.Cascaded s.db)
      (hok : t.commit s.db = .ok db) : Step s ⟨db, a ++ b⟩
  | refused {a b : List Transaction} {t : Transaction} {e : QuotaError} (h : s.open_ = a ++ t :: b) (hc : t.Cascaded s.db)
      (herror : t.commit s.db = .error e) : Step s ⟨s.db, a ++ b⟩

def System.initial (limits : Limits) : System := ⟨⟨[], 0, [], 0, [], limits⟩, []⟩

abbrev Reachable (limits : Limits) : System → Prop := Relation.ReflTransGen Step (System.initial limits)

end Content

end Prosepect
