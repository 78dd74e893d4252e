/-
The counters are exact after every transaction of every interleaving, and the limits hold.

While a transaction commits, each counter lacks what the pending rows still owe it (`Owing`): the
first deferred event of a user settles the debt, the later ones find none. Before that, what a
transaction owes is the difference between the rows it has written and those it has locked.
-/
import Mathlib.Algebra.Order.BigOperators.Group.Multiset
import Mathlib.Algebra.Order.Monoid.Prod
import Mathlib.Algebra.Order.Ring.Int
import Mathlib.Tactic.Abel
import Prosepect.Content.Usage

namespace Prosepect

open Table

namespace Content

/-! ## Sums over rows -/

def amountOf (user : UserId) (rows : Multiset Row) : Amount := ((rows.filter (·.userId = user)).map Row.amount).sum

def amountAll (rows : Multiset Row) : Amount := (rows.map Row.amount).sum

@[simp] theorem amountOf_add (user : UserId) (a b : Multiset Row) : amountOf user (a + b) = amountOf user a + amountOf user b := by
  simp [amountOf]

@[simp] theorem amountAll_add (a b : Multiset Row) : amountAll (a + b) = amountAll a + amountAll b := by
  simp [amountAll]

theorem amountOf_cons (user : UserId) (r : Row) (rows : Multiset Row) :
    amountOf user (r ::ₘ rows) = (if r.userId = user then r.amount else 0) + amountOf user rows := by
  unfold amountOf
  by_cases h : r.userId = user <;> simp [h]

theorem amountAll_cons (r : Row) (rows : Multiset Row) : amountAll (r ::ₘ rows) = r.amount + amountAll rows := by
  simp [amountAll]

theorem amountOf_erase (user : UserId) {r : Row} {rows : Multiset Row} (hr : r ∈ rows) :
    amountOf user (rows.erase r) = amountOf user rows - if r.userId = user then r.amount else 0 := by
  conv_rhs => rw [← Multiset.cons_erase hr, amountOf_cons]
  abel

theorem amountAll_erase {r : Row} {rows : Multiset Row} (hr : r ∈ rows) :
    amountAll (rows.erase r) = amountAll rows - r.amount := by
  conv_rhs => rw [← Multiset.cons_erase hr, amountAll_cons]
  abel

theorem amountOf_sub (user : UserId) {a b : Multiset Row} (h : b ≤ a) : amountOf user (a - b) = amountOf user a - amountOf user b := by
  conv_rhs => rw [← tsub_add_cancel_of_le h, amountOf_add]
  abel

theorem amountAll_sub {a b : Multiset Row} (h : b ≤ a) : amountAll (a - b) = amountAll a - amountAll b := by
  conv_rhs => rw [← tsub_add_cancel_of_le h, amountAll_add]
  abel

theorem Row.amount_nonneg (r : Row) : 0 ≤ r.amount := ⟨Int.natCast_nonneg _, Int.one_nonneg⟩

theorem amountOf_nonneg (user : UserId) (rows : Multiset Row) : 0 ≤ amountOf user rows := by
  refine Multiset.sum_nonneg fun a ha => ?_
  obtain ⟨r, -, rfl⟩ := Multiset.mem_map.1 ha
  exact r.amount_nonneg

theorem amountAll_nonneg (rows : Multiset Row) : 0 ≤ amountAll rows := by
  refine Multiset.sum_nonneg fun a ha => ?_
  obtain ⟨r, -, rfl⟩ := Multiset.mem_map.1 ha
  exact r.amount_nonneg

theorem amountOf_eq_zero {user : UserId} {rows : Multiset Row} (h : ∀ r ∈ rows, r.userId ≠ user) : amountOf user rows = 0 := by
  unfold amountOf
  rw [Multiset.filter_eq_nil.2 h]
  rfl

/-! ## Tables of amounts -/

/-- No user has two rows. -/
abbrev Keyed (entries : List Entry) : Prop := Unique (fun e : Entry => some e.userId) entries

def amountIn_all (entries : List Entry) : Amount := (entries.map (·.amount)).sum

section Entries

variable {entries : List Entry} {user v : UserId} {delta : Amount}

theorem find_ne_none {e : Entry} (he : e ∈ entries) (hid : e.userId = user) : entries.find? (·.userId == user) ≠ none := by
  intro hnone
  have hno := List.find?_eq_none.1 hnone e he
  simp [hid] at hno

theorem Keyed.addPending (h : Keyed entries) (user : UserId) (delta : Amount) : Keyed (addPending user delta entries) := by
  unfold Content.addPending
  split
  · exact h.congr (map_update fun _ => rfl)
  · rename_i hno
    refine h.insert fun k hk e he heq => ?_
    rw [Bool.not_eq_true, has_eq_false_iff] at hno
    have hne := hno e he
    simp [Option.some.inj (heq.trans hk.symm)] at hne

theorem amountIn_addPending (entries : List Entry) (user v : UserId) (delta : Amount) :
    amountIn (addPending user delta entries) v = amountIn entries v + if v = user then delta else 0 := by
  unfold amountIn addPending
  split
  · rename_i hhas
    rw [find_update (by intro; rfl)]
    cases hfound : entries.find? (·.userId == v) with
    | none =>
      obtain ⟨e, he, hid⟩ := has_iff.1 hhas
      have hne : v ≠ user := by
        rintro rfl
        exact find_ne_none he (by simpa using hid) hfound
      simp [hne]
    | some e =>
      have hid : e.userId = v := by simpa using List.find?_some hfound
      by_cases hv : v = user
      · simp [hid, hv]
      · simp [hid, hv]
  · rename_i hno
    rw [Bool.not_eq_true, has_eq_false_iff] at hno
    rw [List.find?_append]
    by_cases hv : v = user
    · subst hv
      rw [List.find?_eq_none.2 fun e he => by simp [hno e he]]
      simp
    · cases hfound : entries.find? (·.userId == v) with
      | none => simp [hv, Ne.symm hv]
      | some e => simp [hv]

theorem Keyed.filter_eq (h : Keyed entries) {e : Entry} (he : e ∈ entries) : entries.filter (·.userId == e.userId) = [e] :=
  h.filter_eq_singleton he (by simp) (k := e.userId) fun r _ hr => by simpa using hr

theorem Keyed.amountIn_mem (h : Keyed entries) {e : Entry} (he : e ∈ entries) : amountIn entries e.userId = e.amount := by
  have hfound : entries.find? (·.userId == e.userId) = some e := by
    have hfind := (h.find_eq_some_iff (k := e.userId) (r := e)).2 ⟨he, rfl⟩
    simpa using hfind
  unfold amountIn
  rw [hfound]
  rfl

/-- What a table says of a user and what it says of the others. -/
theorem Keyed.amountIn_all_delete (h : Keyed entries) (user : UserId) :
    amountIn_all (delete (·.userId == user) entries) + amountIn entries user = amountIn_all entries := by
  have hperm := ((delete_append_perm (·.userId == user) entries).map (·.amount)).sum_eq
  unfold amountIn_all
  rw [← hperm, List.map_append, List.sum_append]
  congr 1
  unfold amountIn
  cases hfound : entries.find? (·.userId == user) with
  | none =>
    have hnone : entries.filter (·.userId == user) = [] := by
      rw [List.filter_eq_nil_iff]
      exact List.find?_eq_none.1 hfound
    rw [hnone]
    rfl
  | some e =>
    have hid : e.userId = user := by simpa using List.find?_some hfound
    rw [← hid, h.filter_eq (List.mem_of_find?_eq_some hfound)]
    simp

theorem delete_addPending (entries : List Entry) (user : UserId) (delta : Amount) :
    delete (·.userId == user) (Content.addPending user delta entries) = delete (·.userId == user) entries := by
  unfold Content.addPending
  split
  · rename_i hhas
    clear hhas
    induction entries with
    | nil => rfl
    | cons e entries ih =>
      by_cases he : e.userId = user <;> simp_all [Table.update, Table.delete]
  · simp [Table.delete, List.filter_append]

theorem Keyed.amountIn_all_addPending (h : Keyed entries) (user : UserId) (delta : Amount) :
    amountIn_all (Content.addPending user delta entries) = amountIn_all entries + delta := by
  have hkeyed := h.addPending user delta
  have hsame := delete_addPending entries user delta
  rw [← hkeyed.amountIn_all_delete user, ← h.amountIn_all_delete user, hsame, amountIn_addPending, if_pos rfl]
  abel

theorem amountIn_delete (entries : List Entry) (user v : UserId) :
    amountIn (delete (·.userId == user) entries) v = if v = user then 0 else amountIn entries v := by
  unfold amountIn
  by_cases hv : v = user
  · subst hv
    rw [find_delete_none fun _ _ h => h, if_pos rfl]
    rfl
  · rw [if_neg hv, find_delete]
    intro e _ he
    simpa [beq_iff_eq.1 he] using hv

/-- The two statements for a counter do what one would. -/
theorem addUsage_eq (user : UserId) (delta : Amount) (entries : List Entry) :
    addUsage user delta entries = addPending user delta entries := by
  unfold addUsage addPending
  split
  · rfl
  · rename_i hno
    rw [Bool.not_eq_true, has_eq_false_iff] at hno
    have hold : update (·.userId == user) (fun u => { u with amount := u.amount + delta }) entries = entries :=
      update_of_not hno
    unfold Table.update at hold ⊢
    rw [List.map_append, hold]
    simp

end Entries

/-! ## Committing -/

/-- The counters lack what the pending rows owe them. -/
structure Owing (db : Store) : Prop where
  users : ∀ r ∈ db.rows, r.userId ∈ db.users
  keyed : Keyed db.usage
  counted : ∀ e ∈ db.usage, e.userId ∈ db.users
  pending : Keyed db.pending
  owed : ∀ user ∈ db.users, amountIn db.usage user + amountIn db.pending user = amountOf user db.rows
  total : db.total + amountIn_all db.pending = amountAll db.rows

/-- Nothing is owed: every counter is exact. -/
structure Exact (db : Store) : Prop extends Owing db where
  settled : db.pending = []

section Commit

variable {db db' : Store} {user : UserId}

theorem Owing.gone (h : Owing db) (hu : user ∉ db.users) : amountIn db.usage user = 0 ∧ amountOf user db.rows = 0 := by
  constructor
  · unfold amountIn
    rw [List.find?_eq_none.2 fun e he hid => hu ?_]
    · rfl
    · rw [← beq_iff_eq.1 hid]
      exact h.counted e he
  · exact amountOf_eq_zero fun r hr hid => hu (hid ▸ h.users r hr)

theorem Exact.amountIn_eq (h : Exact db) (user : UserId) : amountIn db.usage user = amountOf user db.rows := by
  by_cases hu : user ∈ db.users
  · have howed := h.owed user hu
    rw [h.settled] at howed
    simpa [amountIn] using howed
  · obtain ⟨husage, hrows⟩ := h.toOwing.gone hu
    rw [husage, hrows]

theorem Exact.total_eq (h : Exact db) : db.total = amountAll db.rows := by
  have htotal := h.total
  rw [h.settled] at htotal
  simpa [amountIn_all] using htotal

/-- What an event does when there is something to apply. -/
theorem applyUsage_ok (h : applyUsage db user = .ok db') : (db.pending.find? (·.userId == user) = none ∧ db' = db) ∨
    ∃ change, db.pending.find? (·.userId == user) = some change ∧
      db' = { db with
        pending := delete (·.userId == user) db.pending
        usage := if user ∈ db.users ∧ change.amount ≠ 0 then addPending user change.amount db.usage else db.usage
        total := db.total + change.amount } ∧
      ∀ part : Amount → Int, part = Prod.fst ∨ part = Prod.snd → 0 < part change.amount →
        (user ∈ db.users → part (amountIn db.usage user + change.amount) ≤ part db.limits.user) ∧
        part (db.total + change.amount) ≤ part db.limits.total := by
  unfold applyUsage at h
  cases hfound : db.pending.find? (·.userId == user) with
  | none =>
    simp only [hfound] at h
    cases h
    exact .inl ⟨rfl, rfl⟩
  | some change =>
    simp only [hfound] at h
    refine .inr ⟨change, rfl, ?_⟩
    split at h
    · rename_i hzero
      cases h
      refine ⟨by simp [hzero], fun part hpart hpos => ?_⟩
      rw [hzero] at hpos
      rcases hpart with rfl | rfl <;> exact absurd hpos (lt_irrefl 0)
    · rename_i hzero
      split at h
      · cases h
      · split at h
        · cases h
        · rename_i hno
          cases h
          refine ⟨by simp [hzero, addUsage_eq], fun part hpart hpos => ?_⟩
          rw [not_or] at hno
          have hpartno : ¬ exceeds part change.amount (counted db user change.amount) (db.total + change.amount) db.limits := by
            rcases hpart with rfl | rfl
            · exact hno.1
            · exact hno.2
          unfold exceeds at hpartno
          simp only [not_and, not_or, not_exists, not_lt] at hpartno
          obtain ⟨huser, htotal⟩ := hpartno hpos
          exact ⟨fun hu => huser _ (by simp [counted, hu]), htotal⟩

theorem Owing.addPending_users (h : Owing db) (hu : user ∈ db.users) {delta : Amount} :
    ∀ e ∈ addPending user delta db.usage, e.userId ∈ db.users := by
  intro e he
  unfold addPending at he
  split at he
  · rcases mem_update.1 he with ⟨he, -⟩ | ⟨e', he', -, rfl⟩
    · exact h.counted e he
    · exact h.counted e' he'
  · rcases List.mem_append.1 he with he | he
    · exact h.counted e he
    · rw [List.mem_singleton.1 he]
      exact hu

theorem Owing.applyUsage (h : Owing db) (hok : Content.applyUsage db user = .ok db') : Owing db' := by
  rcases applyUsage_ok hok with ⟨-, rfl⟩ | ⟨change, hfound, rfl, -⟩
  · exact h
  have hchange : amountIn db.pending user = change.amount := by
    unfold amountIn
    rw [hfound]
    rfl
  have husage : ∀ v ∈ db.users,
      amountIn (if user ∈ db.users ∧ change.amount ≠ 0 then addPending user change.amount db.usage else db.usage) v =
        amountIn db.usage v + if v = user then change.amount else 0 := by
    intro v hv
    split
    · exact amountIn_addPending _ _ _ _
    · rename_i hno
      by_cases hvu : v = user
      · subst hvu
        have hzero : change.amount = 0 := by simpa [hv] using hno
        simp [hzero]
      · simp [hvu]
  refine ⟨h.users, ?_, ?_, ?_, ?_, ?_⟩
  · dsimp only
    split
    · exact h.keyed.addPending user _
    · exact h.keyed
  · dsimp only
    split
    · rename_i hu
      exact h.addPending_users hu.1
    · exact h.counted
  · exact h.pending.delete _
  · intro v hv
    have howed := h.owed v hv
    dsimp only
    rw [husage v hv, amountIn_delete]
    by_cases hvu : v = user
    · subst hvu
      rw [hchange] at howed
      simpa using howed
    · simpa [hvu] using howed
  · have htotal := h.total
    rw [← h.pending.amountIn_all_delete user, hchange] at htotal
    rw [← htotal]
    dsimp only
    abel

theorem applyUsage_frame (hok : applyUsage db user = .ok db') :
    db'.rows = db.rows ∧ db'.users = db.users ∧ db'.limits = db.limits ∧ db'.pending = delete (·.userId == user) db.pending := by
  rcases applyUsage_ok hok with ⟨hnone, rfl⟩ | ⟨change, -, rfl, -⟩
  · refine ⟨rfl, rfl, rfl, (delete_of_not fun e he => ?_).symm⟩
    simpa using List.find?_eq_none.1 hnone e he
  · exact ⟨rfl, rfl, rfl, rfl⟩

/-- After its events nothing of a transaction is pending. -/
theorem Owing.applyAll : ∀ (events : List UserId) {db db' : Store}, Owing db → Content.applyAll db events = .ok db' →
    Owing db' ∧ db'.rows = db.rows ∧ db'.users = db.users ∧ db'.limits = db.limits ∧
      db'.pending = db.pending.filter (·.userId ∉ events)
  | [], db, db', h, hok => by
    cases hok
    exact ⟨h, rfl, rfl, rfl, by simp⟩
  | user :: events, db, db', h, hok => by
    cases hstep : Content.applyUsage db user with
    | error e =>
      unfold Content.applyAll at hok
      rw [hstep] at hok
      cases hok
    | ok mid =>
      unfold Content.applyAll at hok
      rw [hstep] at hok
      obtain ⟨hrows, husers, hlimits, hpending⟩ := applyUsage_frame hstep
      obtain ⟨howing, hrows', husers', hlimits', hpending'⟩ := Owing.applyAll events (h.applyUsage hstep) hok
      refine ⟨howing, hrows'.trans hrows, husers'.trans husers, hlimits'.trans hlimits, ?_⟩
      rw [hpending', hpending]
      unfold Table.delete
      rw [List.filter_filter]
      refine List.filter_congr fun e _ => ?_
      by_cases he : e.userId = user <;> simp [he]

end Commit

/-! ## The limits -/

section Limits

variable {db db' : Store}

/-- The counter of a user is not touched by the events of others. -/
theorem applyAll_other {user : UserId} : ∀ (events : List UserId) {db db' : Store}, Content.applyAll db events = .ok db' →
    amountIn db.pending user = 0 → amountIn db'.usage user = amountIn db.usage user
  | [], db, db', hok, _ => by
    cases hok
    rfl
  | v :: events, db, db', hok, hzero => by
    cases hstep : applyUsage db v with
    | error e =>
      unfold applyAll at hok
      rw [hstep] at hok
      cases hok
    | ok mid =>
      unfold applyAll at hok
      rw [hstep] at hok
      have hpending : amountIn mid.pending user = 0 := by
        rw [(applyUsage_frame hstep).2.2.2, amountIn_delete]
        split
        · rfl
        · exact hzero
      rw [applyAll_other events hok hpending]
      rcases applyUsage_ok hstep with ⟨-, rfl⟩ | ⟨change, hfound, rfl, -⟩
      · rfl
      · dsimp only
        split
        · rename_i hv
          rw [amountIn_addPending]
          by_cases huv : user = v
          · subst huv
            unfold amountIn at hzero
            rw [hfound] at hzero
            exact absurd hzero hv.2
          · simp [huv]
        · rfl

/-- After a commit, who has more than before is within the limit. -/
theorem applyAll_user {part : Amount → Int} (hpart : part = Prod.fst ∨ part = Prod.snd) {user : UserId} :
    ∀ (events : List UserId) {db db' : Store}, applyAll db events = .ok db' → user ∈ db.users → user ∈ events →
      0 < part (amountIn db.pending user) → part (amountIn db'.usage user) ≤ part db.limits.user
  | [], _, _, _, _, hevent, _ => absurd hevent List.not_mem_nil
  | v :: events, db, db', hok, hu, hevent, hpos => by
    cases hstep : applyUsage db v with
    | error e =>
      unfold applyAll at hok
      rw [hstep] at hok
      cases hok
    | ok mid =>
      unfold applyAll at hok
      rw [hstep] at hok
      obtain ⟨-, husers, hlimits, hpending⟩ := applyUsage_frame hstep
      by_cases huv : user = v
      · subst huv
        rcases applyUsage_ok hstep with ⟨hnone, -⟩ | ⟨change, hfound, hmid, hwithin⟩
        · unfold amountIn at hpos
          rw [hnone] at hpos
          rcases hpart with rfl | rfl <;> exact absurd hpos (lt_irrefl 0)
        · have hchange : amountIn db.pending user = change.amount := by
            unfold amountIn
            rw [hfound]
            rfl
          have hzero : amountIn mid.pending user = 0 := by
            rw [hpending, amountIn_delete, if_pos rfl]
          rw [hchange] at hpos
          have hne : change.amount ≠ 0 := by
            intro heq
            rw [heq] at hpos
            rcases hpart with rfl | rfl <;> exact absurd hpos (lt_irrefl 0)
          rw [applyAll_other events hok hzero, hmid]
          dsimp only
          rw [if_pos ⟨hu, hne⟩, amountIn_addPending, if_pos rfl]
          exact (hwithin part hpart hpos).1 hu
      · have hsame : amountIn mid.pending user = amountIn db.pending user := by
          rw [hpending, amountIn_delete, if_neg huv]
        rw [← hlimits]
        refine applyAll_user hpart events hok (husers ▸ hu) ?_ (hsame ▸ hpos)
        exact (List.mem_cons.1 hevent).resolve_left huv

/-- After a commit the total is within the limit, or no user has more than before. -/
theorem applyAll_total {part : Amount → Int} (hpart : part = Prod.fst ∨ part = Prod.snd) :
    ∀ (events : List UserId) {db db' : Store}, applyAll db events = .ok db' →
      part db'.total ≤ part db.limits.total ∨
        (∀ user ∈ events, part (amountIn db.pending user) ≤ 0) ∧ part db'.total ≤ part db.total
  | [], db, db', hok => by
    cases hok
    exact .inr ⟨fun _ h => absurd h List.not_mem_nil, le_refl _⟩
  | v :: events, db, db', hok => by
    cases hstep : applyUsage db v with
    | error e =>
      unfold applyAll at hok
      rw [hstep] at hok
      cases hok
    | ok mid =>
      unfold applyAll at hok
      rw [hstep] at hok
      obtain ⟨-, -, hlimits, hpending⟩ := applyUsage_frame hstep
      have hadd : ∀ a b : Amount, part (a + b) = part a + part b := by
        intro a b
        rcases hpart with rfl | rfl <;> rfl
      have hnull : part 0 = 0 := by rcases hpart with rfl | rfl <;> rfl
      have hmid : part mid.total = part db.total + part (amountIn db.pending v) ∧
          (0 < part (amountIn db.pending v) → part mid.total ≤ part db.limits.total) := by
        rcases applyUsage_ok hstep with ⟨hnone, rfl⟩ | ⟨change, hfound, rfl, hwithin⟩
        · unfold amountIn
          rw [hnone]
          simp [hnull]
        · unfold amountIn
          rw [hfound]
          exact ⟨hadd _ _, fun hpos => (hwithin part hpart hpos).2⟩
      rcases applyAll_total hpart events hok with hdone | ⟨hnone, hle⟩
      · exact .inl (hlimits ▸ hdone)
      · by_cases hpos : 0 < part (amountIn db.pending v)
        · exact .inl (hle.trans (hmid.2 hpos))
        · refine .inr ⟨fun user huser => ?_, by omega⟩
          by_cases huv : user = v
          · subst huv
            omega
          · have hsame := hnone user ((List.mem_cons.1 huser).resolve_left huv)
            rwa [hpending, amountIn_delete, if_neg huv] at hsame

theorem amountIn_all_nonpos {entries : List Entry} (h : ∀ e ∈ entries, e.amount ≤ 0) : amountIn_all entries ≤ 0 := by
  induction entries with
  | nil => exact le_refl _
  | cons e entries ih =>
    have hrest := ih fun x hx => h x (List.mem_cons_of_mem _ hx)
    exact add_nonpos (h e List.mem_cons_self) hrest

/-- A commit after which nobody has more is never refused. -/
theorem Owing.applyAll_succeeds : ∀ (events : List UserId) {db : Store}, Owing db → (∀ e ∈ db.pending, e.amount ≤ 0) →
    ∃ db', Content.applyAll db events = .ok db'
  | [], db, _, _ => ⟨db, rfl⟩
  | user :: events, db, h, hnone => by
    have hstep : ∃ mid, Content.applyUsage db user = .ok mid := by
      unfold Content.applyUsage
      cases hfound : db.pending.find? (·.userId == user) with
      | none => exact ⟨db, rfl⟩
      | some change =>
        have hmem := List.mem_of_find?_eq_some hfound
        have hle : change.amount ≤ 0 := hnone change hmem
        have hchange : amountIn db.pending user = change.amount := by
          unfold amountIn
          rw [hfound]
          rfl
        have htotal : 0 ≤ db.total + change.amount := by
          have hrest : amountIn_all (delete (·.userId == user) db.pending) ≤ 0 :=
            amountIn_all_nonpos fun e he => hnone e (mem_delete.1 he).1
          have hsum := h.total
          rw [← h.pending.amountIn_all_delete user, hchange] at hsum
          have hrows := amountAll_nonneg db.rows
          rw [← hsum] at hrows
          calc (0 : Amount) ≤ db.total + (amountIn_all (delete (·.userId == user) db.pending) + change.amount) := hrows
            _ ≤ db.total + (0 + change.amount) := by gcongr
            _ = db.total + change.amount := by rw [zero_add]
        have huser : ∀ u ∈ Content.counted db user change.amount, 0 ≤ u := by
          intro u hu
          unfold Content.counted at hu
          split at hu
          · rename_i hthere
            rw [Option.mem_def, Option.some.injEq] at hu
            rw [← hu, ← hchange, h.owed user hthere]
            exact amountOf_nonneg user db.rows
          · cases hu
        have hnegative : ∀ a : Amount, 0 ≤ a → ¬ negative a := by
          intro a ha hneg
          rcases hneg with hneg | hneg
          · exact absurd hneg (not_lt_of_ge ha.1)
          · exact absurd hneg (not_lt_of_ge ha.2)
        simp only
        split
        · exact ⟨_, rfl⟩
        · rw [if_neg, if_neg]
          · exact ⟨_, rfl⟩
          · rintro (hex | hex)
            · exact absurd hex.1 (not_lt_of_ge hle.1)
            · exact absurd hex.1 (not_lt_of_ge hle.2)
          · rintro (hneg | ⟨u, hu, hneg⟩)
            · exact hnegative _ htotal hneg
            · exact hnegative u (huser u hu) hneg
    obtain ⟨mid, hstep⟩ := hstep
    have hmid : ∀ e ∈ mid.pending, e.amount ≤ 0 := by
      rw [(applyUsage_frame hstep).2.2.2]
      exact fun e he => hnone e (mem_delete.1 he).1
    obtain ⟨db', hrest⟩ := Owing.applyAll_succeeds events (h.applyUsage hstep) hmid
    refine ⟨db', ?_⟩
    unfold Content.applyAll
    rw [hstep]
    exact hrest

end Limits

/-! ## Transactions -/

/-- What an open transaction owes is what it has written less what it has locked. -/
structure Transaction.Balanced (t : Transaction) : Prop where
  keyed : Keyed t.pending
  owed : ∀ user, amountIn t.pending user = amountOf user t.after - amountOf user t.before
  total : amountIn_all t.pending = amountAll t.after - amountAll t.before
  deferred : ∀ e ∈ t.pending, e.userId ∈ t.events
  /-- A row it has written is one it has inserted, or was one it has locked. -/
  origin : ∀ r ∈ t.after, r.userId ∈ t.inserted ∨ ∃ b ∈ t.before, b.userId = r.userId

theorem balanced_start : Transaction.start.Balanced where
  keyed := .nil _
  owed := by
    intro user
    simp [Transaction.start, amountIn, amountOf]
  total := by simp [Transaction.start, amountIn_all, amountAll]
  deferred := fun _ h => absurd h List.not_mem_nil
  origin := fun _ h => absurd h (Multiset.notMem_zero _)

section Transaction

variable {db : Store} {others : List Transaction} {t t' : Transaction}

theorem mem_addPending {entries : List Entry} {user : UserId} {delta : Amount} {e : Entry} (he : e ∈ addPending user delta entries) :
    e.userId = user ∨ ∃ e' ∈ entries, e'.userId = e.userId := by
  unfold addPending at he
  split at he
  · rcases mem_update.1 he with ⟨he, -⟩ | ⟨e', he', -, rfl⟩
    · exact .inr ⟨e, he, rfl⟩
    · exact .inr ⟨e', he', rfl⟩
  · rcases List.mem_append.1 he with he | he
    · exact .inr ⟨e, he, rfl⟩
    · rw [List.mem_singleton.1 he]
      exact .inl rfl

/-- The row trigger keeps the balance of a write that changes the rows of the user by `delta`. -/
theorem Transaction.Balanced.change (h : t.Balanced) {user : UserId} {delta : Amount} {before after : Multiset Row}
    {inserted : List UserId}
    (howed : ∀ v, amountOf v after - amountOf v before = amountOf v t.after - amountOf v t.before + if v = user then delta else 0)
    (htotal : amountAll after - amountAll before = amountAll t.after - amountAll t.before + delta)
    (horigin : ∀ r ∈ after, r.userId ∈ inserted ∨ ∃ b ∈ before, b.userId = r.userId) :
    Transaction.Balanced { t.change user delta with before := before, after := after, inserted := inserted } where
  keyed := h.keyed.addPending user delta
  owed := by
    intro v
    show amountIn (addPending user delta t.pending) v = _
    rw [amountIn_addPending, h.owed, howed]
  total := by
    show amountIn_all (addPending user delta t.pending) = _
    rw [h.keyed.amountIn_all_addPending, h.total, htotal]
  deferred := by
    intro e he
    show e.userId ∈ t.events ++ [user]
    rcases mem_addPending he with hid | ⟨e', he', hid⟩
    · simp [hid]
    · exact List.mem_append_left _ (hid ▸ h.deferred e' he')
  origin := horigin

theorem Write.balanced (hw : Write db others t t') (h : t.Balanced) : t'.Balanced := by
  cases hw with
  | insert r _ _ =>
    refine h.change (fun v => ?_) ?_ fun x hx => ?_
    · rw [amountOf_cons]
      by_cases hv : r.userId = v
      · simp only [hv, if_true]
        abel
      · simp only [hv, Ne.symm hv, if_false]
        abel
    · rw [amountAll_cons]
      abel
    · rcases Multiset.mem_cons.1 hx with rfl | hx
      · exact .inl List.mem_cons_self
      · exact (h.origin x hx).imp_left (List.mem_cons_of_mem _)
  | updateOwn r r' hr huser =>
    refine h.change (fun v => ?_) ?_ fun x hx => ?_
    · rw [amountOf_cons, amountOf_erase v hr, huser]
      by_cases hv : r.userId = v
      · simp only [hv, if_true]
        abel
      · simp only [hv, Ne.symm hv, if_false]
        abel
    · rw [amountAll_cons, amountAll_erase hr]
      abel
    · rcases Multiset.mem_cons.1 hx with rfl | hx
      · rw [huser]
        exact h.origin r hr
      · exact h.origin x (Multiset.mem_of_mem_erase hx)
  | update r r' hr huser =>
    refine h.change (fun v => ?_) ?_ fun x hx => ?_
    · rw [amountOf_cons, amountOf_cons, huser]
      by_cases hv : r.userId = v
      · simp only [hv, if_true]
        abel
      · simp only [hv, Ne.symm hv, if_false]
        abel
    · rw [amountAll_cons, amountAll_cons]
      abel
    · rcases Multiset.mem_cons.1 hx with rfl | hx
      · exact .inr ⟨r, Multiset.mem_cons_self _ _, huser.symm⟩
      · exact (h.origin x hx).imp_right fun ⟨b, hb, hid⟩ => ⟨b, Multiset.mem_cons_of_mem hb, hid⟩
  | deleteOwn r hr =>
    refine h.change (fun v => ?_) ?_ fun x hx => ?_
    · rw [amountOf_erase v hr]
      by_cases hv : r.userId = v
      · simp only [hv, if_true]
        abel
      · simp only [hv, Ne.symm hv, if_false]
        abel
    · rw [amountAll_erase hr]
      abel
    · exact h.origin x (Multiset.mem_of_mem_erase hx)
  | delete r hr =>
    show Transaction.Balanced { t.change r.userId (-r.amount) with
      before := r ::ₘ t.before
      after := t.after
      inserted := t.inserted }
    refine h.change (fun v => ?_) ?_ fun x hx => ?_
    · rw [amountOf_cons]
      by_cases hv : r.userId = v
      · simp only [hv, if_true]
        abel
      · simp only [hv, Ne.symm hv, if_false]
        abel
    · rw [amountAll_cons]
      abel
    · exact (h.origin x hx).imp_right fun ⟨b, hb, hid⟩ => ⟨b, Multiset.mem_cons_of_mem hb, hid⟩
  | deleteUser user _ _ _ => exact ⟨h.keyed, h.owed, h.total, h.deferred, h.origin⟩

end Transaction

/-! ## Runs -/

/-- Neither deletes a user whom the other inserts rows of. -/
def Apart (t o : Transaction) : Prop := (∀ u ∈ t.inserted, u ∉ o.deleted) ∧ ∀ u ∈ o.inserted, u ∉ t.deleted

theorem Apart.symm {t o : Transaction} (h : Apart t o) : Apart o t := ⟨h.2, h.1⟩

structure System.Inv (s : System) : Prop where
  exact_ : Exact s.db
  locks : locked s.open_ ≤ s.db.rows
  balanced : ∀ t ∈ s.open_, t.Balanced
  inserted : ∀ t ∈ s.open_, ∀ u ∈ t.inserted, u ∈ s.db.users
  apart : s.open_.Pairwise Apart

section Inv

variable {s s' : System} {a b : List Transaction} {t t' : Transaction}

theorem locked_perm {l l' : List Transaction} (h : l.Perm l') : locked l = locked l' := (h.map _).sum_eq

theorem locked_cons (t : Transaction) (l : List Transaction) : locked (t :: l) = t.before + locked l := by
  simp [locked]

/-- The order of the open transactions does not matter. -/
theorem System.Inv.perm {db : Store} {l l' : List Transaction} (h : System.Inv ⟨db, l⟩) (hp : l.Perm l') : System.Inv ⟨db, l'⟩ where
  exact_ := h.exact_
  locks := by
    have hlocks := h.locks
    dsimp only at hlocks ⊢
    rwa [← locked_perm hp]
  balanced := fun t ht => h.balanced t (hp.mem_iff.2 ht)
  inserted := fun t ht => h.inserted t (hp.mem_iff.2 ht)
  apart := (hp.pairwise_iff Apart.symm).1 h.apart

theorem Write.before_le {db : Store} {others : List Transaction} (hw : Write db others t t')
    (hlocks : locked (t :: others) ≤ db.rows) : locked (t' :: others) ≤ db.rows := by
  have hone : ∀ r ∈ db.rows - locked (t :: others), r ::ₘ locked (t :: others) ≤ db.rows := by
    intro r hr
    have hle := add_le_add_right (Multiset.singleton_le.2 hr) (locked (t :: others))
    rwa [add_tsub_cancel_of_le hlocks, add_comm, Multiset.singleton_add] at hle
  cases hw with
  | insert | updateOwn | deleteOwn | deleteUser => exact hlocks
  | update r r' hr _ =>
    have hle := hone r hr
    rw [locked_cons] at hle ⊢
    rwa [Multiset.cons_add]
  | delete r hr =>
    have hle := hone r hr
    rw [locked_cons] at hle ⊢
    rwa [Multiset.cons_add]

theorem Write.inv {db : Store} {others : List Transaction} (hw : Write db others t t') (h : System.Inv ⟨db, t :: others⟩) :
    System.Inv ⟨db, t' :: others⟩ := by
  have hthis := h.apart
  obtain ⟨hapart, hothers⟩ := List.pairwise_cons.1 hthis
  refine ⟨h.exact_, hw.before_le h.locks, fun o ho => ?_, fun o ho => ?_, List.pairwise_cons.2 ⟨fun o ho => ?_, hothers⟩⟩
  · rcases List.mem_cons.1 ho with rfl | ho
    · exact hw.balanced (h.balanced t List.mem_cons_self)
    · exact h.balanced o (List.mem_cons_of_mem _ ho)
  · rcases List.mem_cons.1 ho with rfl | ho
    · have hold := h.inserted t List.mem_cons_self
      cases hw with
      | insert r huser _ =>
        intro u hu
        rcases List.mem_cons.1 hu with rfl | hu
        · exact huser
        · exact hold u hu
      | updateOwn | update | deleteOwn | delete | deleteUser => exact hold
    · exact h.inserted o (List.mem_cons_of_mem _ ho)
  · have hold := hapart o ho
    cases hw with
    | insert r _ hthere =>
      refine ⟨fun u hu => ?_, hold.2⟩
      rcases List.mem_cons.1 hu with rfl | hu
      · exact hthere o (List.mem_cons_of_mem _ ho)
      · exact hold.1 u hu
    | deleteUser user _ _ hfree =>
      refine ⟨hold.1, fun u hu hdeleted => ?_⟩
      rcases List.mem_cons.1 hdeleted with rfl | hdeleted
      · exact hfree o ho hu
      · exact hold.2 u hu hdeleted
    | updateOwn | update | deleteOwn | delete => exact hold

end Inv

/-! ## Ends of transactions -/

section Ends

variable {db db' : Store} {others : List Transaction} {t : Transaction}

/-- When the deferred events of a transaction run, its pending rows say what is owed. -/
theorem System.Inv.owing (h : System.Inv ⟨db, t :: others⟩) (hc : t.Cascaded db) : Owing (t.view db) := by
  have hbalanced := h.balanced t List.mem_cons_self
  have hexact : Exact db := h.exact_
  have hbefore : t.before ≤ db.rows := by
    have hlocks : locked (t :: others) ≤ db.rows := h.locks
    rw [locked_cons] at hlocks
    exact (Multiset.le_add_right _ _).trans hlocks
  have hpending : (t.view db).pending = t.pending := by
    show db.pending ++ t.pending = t.pending
    rw [hexact.settled, List.nil_append]
  refine ⟨fun r hr => ?_, hexact.keyed.delete _, fun e he => ?_, hpending ▸ hbalanced.keyed, fun user hu => ?_, ?_⟩
  · have hnot := hc r hr
    have hthere : r.userId ∈ db.users := by
      rcases Multiset.mem_add.1 hr with hr | hr
      · exact hexact.users r (Multiset.mem_of_le (Multiset.sub_le_self _ _) hr)
      · rcases hbalanced.origin r hr with hinserted | ⟨b, hb, hid⟩
        · exact h.inserted t List.mem_cons_self _ hinserted
        · exact hid ▸ hexact.users b (Multiset.mem_of_le hbefore hb)
    exact List.mem_filter.2 ⟨hthere, by simpa using hnot⟩
  · obtain ⟨he, hnot⟩ := mem_delete.1 he
    exact List.mem_filter.2 ⟨hexact.counted e he, by simpa using hnot⟩
  · obtain ⟨-, hnot⟩ := List.mem_filter.1 hu
    have husage : amountIn (t.view db).usage user = amountIn db.usage user := by
      show amountIn (delete (fun u => decide (u.userId ∈ t.deleted)) db.usage) user = _
      unfold amountIn
      rw [find_delete]
      intro e _ he
      rw [beq_iff_eq.1 he]
      simpa using hnot
    rw [husage, hpending, hbalanced.owed, hexact.amountIn_eq]
    show _ = amountOf user (db.rows - t.before + t.after)
    rw [amountOf_add, amountOf_sub user hbefore]
    abel
  · rw [hpending, hbalanced.total]
    show db.total + _ = amountAll (db.rows - t.before + t.after)
    rw [hexact.total_eq, amountAll_add, amountAll_sub hbefore]
    abel

/-- A commit leaves nothing owed. -/
theorem System.Inv.committed (h : System.Inv ⟨db, t :: others⟩) (hc : t.Cascaded db) (hok : t.commit db = .ok db') :
    Exact db' ∧ db'.rows = db.rows - t.before + t.after ∧ db'.users = db.users.filter (· ∉ t.deleted) := by
  obtain ⟨howing, hrows, husers, -, hpending⟩ := Owing.applyAll t.events (h.owing hc) hok
  refine ⟨⟨howing, ?_⟩, hrows, husers⟩
  rw [hpending, List.filter_eq_nil_iff]
  intro e he
  have hexact : Exact db := h.exact_
  have hmem : e ∈ db.pending ++ t.pending := he
  rw [hexact.settled, List.nil_append] at hmem
  simpa using (h.balanced t List.mem_cons_self).deferred e hmem

theorem System.Inv.ended (h : System.Inv ⟨db, t :: others⟩) : System.Inv ⟨db, others⟩ where
  exact_ := h.exact_
  locks := by
    have hlocks : locked (t :: others) ≤ db.rows := h.locks
    rw [locked_cons] at hlocks
    exact (Multiset.le_add_left _ _).trans hlocks
  balanced := fun o ho => h.balanced o (List.mem_cons_of_mem _ ho)
  inserted := fun o ho => h.inserted o (List.mem_cons_of_mem _ ho)
  apart := (List.pairwise_cons.1 h.apart).2

theorem System.Inv.commit (h : System.Inv ⟨db, t :: others⟩) (hc : t.Cascaded db) (hok : t.commit db = .ok db') :
    System.Inv ⟨db', others⟩ := by
  obtain ⟨hexact, hrows, husers⟩ := h.committed hc hok
  refine ⟨hexact, ?_, h.ended.balanced, fun o ho u hu => ?_, h.ended.apart⟩
  · have hlocks : locked (t :: others) ≤ db.rows := h.locks
    rw [locked_cons] at hlocks
    show locked others ≤ db'.rows
    rw [hrows]
    exact (le_tsub_of_add_le_left hlocks).trans (Multiset.le_add_right _ _)
  · show u ∈ db'.users
    rw [husers]
    have hapart := (List.pairwise_cons.1 h.apart).1 o ho
    exact List.mem_filter.2 ⟨h.ended.inserted o ho u hu, by simpa using hapart.2 u hu⟩

end Ends

section Runs

variable {s s' : System}

theorem Exact.limits {db : Store} (h : Exact db) (limits : Limits) : Exact { db with limits := limits } :=
  ⟨⟨h.users, h.keyed, h.counted, h.pending, h.owed, h.total⟩, h.settled⟩

theorem Exact.signUp {db : Store} (h : Exact db) {user : UserId} (hu : user ∉ db.users) :
    Exact { db with users := user :: db.users } := by
  refine ⟨⟨fun r hr => .tail _ (h.users r hr), h.keyed, fun e he => .tail _ (h.counted e he), h.pending, fun v hv => ?_, h.total⟩,
    h.settled⟩
  rcases List.mem_cons.1 hv with rfl | hv
  · -- somebody new has nothing
    obtain ⟨husage, hrows⟩ := h.toOwing.gone hu
    dsimp only
    rw [husage, hrows, h.settled]
    rfl
  · exact h.owed v hv

theorem Step.inv (hstep : Step s s') (h : s.Inv) : s'.Inv := by
  obtain ⟨db, l⟩ := s
  have hmiddle : ∀ {a b : List Transaction} {t : Transaction}, l = a ++ t :: b → System.Inv ⟨db, t :: (a ++ b)⟩ := by
    rintro a b t rfl
    exact h.perm List.perm_middle
  cases hstep with
  | signUp user hu => exact ⟨h.exact_.signUp hu, h.locks, h.balanced, fun t ht u hu => .tail _ (h.inserted t ht u hu), h.apart⟩
  | setLimits limits => exact ⟨h.exact_.limits limits, h.locks, h.balanced, h.inserted, h.apart⟩
  | begin_ =>
    refine ⟨h.exact_, ?_, fun t ht => ?_, fun t ht => ?_, List.pairwise_cons.2 ⟨fun t ht => ?_, h.apart⟩⟩
    · show locked (Transaction.start :: l) ≤ db.rows
      rw [locked_cons]
      simpa [Transaction.start] using h.locks
    · rcases List.mem_cons.1 ht with rfl | ht
      · exact balanced_start
      · exact h.balanced t ht
    · rcases List.mem_cons.1 ht with rfl | ht
      · exact fun _ hu => absurd hu List.not_mem_nil
      · exact h.inserted t ht
    · exact ⟨fun _ hu => absurd hu List.not_mem_nil, fun _ _ => List.not_mem_nil⟩
  | write hl hw => exact (hw.inv (hmiddle hl)).perm List.perm_middle.symm
  | rollback hl => exact (hmiddle hl).ended
  | commit hl hc hok => exact (hmiddle hl).commit hc hok
  | refused hl _ _ => exact (hmiddle hl).ended

theorem inv_reachable {limits : Limits} (h : Reachable limits s) : s.Inv := by
  induction h with
  | refl =>
    refine ⟨⟨⟨?_, .nil _, ?_, .nil _, ?_, rfl⟩, rfl⟩, le_refl _, ?_, ?_, .nil⟩
    · exact fun _ h => absurd h (Multiset.notMem_zero _)
    all_goals exact fun _ h => absurd h List.not_mem_nil
  | tail _ hstep ih => exact hstep.inv ih

theorem Keyed.sum_ite {entries : List Entry} (h : Keyed entries) {e : Entry} (he : e ∈ entries) (amount : Amount) :
    (entries.map fun x => if e.userId = x.userId then amount else 0).sum = amount := by
  rw [← ((delete_append_perm (·.userId == e.userId) entries).map _).sum_eq, List.map_append, List.sum_append,
    h.filter_eq he, List.sum_eq_zero fun a ha => ?_]
  · simp
  · obtain ⟨x, hx, rfl⟩ := List.mem_map.1 ha
    have hne := (mem_delete.1 hx).2
    exact if_neg fun heq => by simp [heq] at hne

theorem Keyed.sum_amountOf {entries : List Entry} (h : Keyed entries) {rows : Multiset Row}
    (hthere : ∀ r ∈ rows, ∃ e ∈ entries, e.userId = r.userId) :
    (entries.map fun e => amountOf e.userId rows).sum = amountAll rows := by
  induction rows using Multiset.induction with
  | empty => simp [amountOf, amountAll]
  | cons r rows ih =>
    obtain ⟨e, he, hid⟩ := hthere r (Multiset.mem_cons_self r rows)
    simp only [amountOf_cons, amountAll_cons, List.sum_map_add]
    rw [ih fun x hx => hthere x (Multiset.mem_cons_of_mem hx), ← hid, h.sum_ite he]

/-- The counters of the users add up to the total. -/
theorem Exact.sum_usage {db : Store} (h : Exact db) : amountIn_all db.usage = db.total := by
  have hthere : ∀ r ∈ db.rows, ∃ e ∈ db.usage, e.userId = r.userId := by
    intro r hr
    by_contra hnone
    have hzero : amountIn db.usage r.userId = 0 := by
      unfold amountIn
      rw [List.find?_eq_none.2 fun e he hid => hnone ⟨e, he, beq_iff_eq.1 hid⟩]
      rfl
    rw [h.amountIn_eq, ← Multiset.cons_erase hr, amountOf_cons, if_pos rfl] at hzero
    have hrecords := congrArg Prod.snd hzero
    have hrest := (amountOf_nonneg r.userId (db.rows.erase r)).2
    simp only [Prod.snd_add, Row.amount, Prod.snd_zero] at hrecords hrest
    omega
  rw [h.total_eq, ← h.keyed.sum_amountOf hthere]
  unfold amountIn_all
  congr 1
  refine List.map_congr_left fun e he => ?_
  rw [← h.amountIn_eq, h.keyed.amountIn_mem he]

end Runs

/-- The net effect of a transaction for one part of the amounts. -/
def Transaction.net (t : Transaction) (user : UserId) : Amount := amountOf user t.after - amountOf user t.before

def Transaction.netAll (t : Transaction) : Amount := amountAll t.after - amountAll t.before

section Net

variable {db db' : Store} {others : List Transaction} {t : Transaction} (h : System.Inv ⟨db, t :: others⟩) (hc : t.Cascaded db)

include h

theorem System.Inv.view_pending : (t.view db).pending = t.pending := by
  have hexact : Exact db := h.exact_
  show db.pending ++ t.pending = t.pending
  rw [hexact.settled, List.nil_append]

theorem System.Inv.net_eq (user : UserId) : amountIn (t.view db).pending user = t.net user := by
  rw [h.view_pending]
  exact (h.balanced t List.mem_cons_self).owed user

include hc

theorem System.Inv.user_within (hok : t.commit db = .ok db') {part : Amount → Int} (hpart : part = Prod.fst ∨ part = Prod.snd)
    {user : UserId} (hpos : 0 < part (t.net user)) : part (amountIn db'.usage user) ≤ part db.limits.user := by
  have hbalanced := h.balanced t List.mem_cons_self
  have hle : ∀ a : Amount, a ≤ 0 → part a ≤ 0 := by
    intro a ha
    rcases hpart with rfl | rfl
    · exact ha.1
    · exact ha.2
  -- who has more has written a row
  have hwritten : ∃ r ∈ t.after, r.userId = user := by
    by_contra hnone
    have hzero : amountOf user t.after = 0 := amountOf_eq_zero fun r hr hid => hnone ⟨r, hr, hid⟩
    refine absurd hpos (not_lt_of_ge (hle _ ?_))
    unfold Transaction.net
    rw [hzero, zero_sub]
    exact neg_nonpos.2 (amountOf_nonneg user t.before)
  obtain ⟨r, hr, rfl⟩ := hwritten
  have huser : r.userId ∈ (t.view db).users := (h.owing hc).users r (Multiset.mem_add.2 (.inr hr))
  have hevent : r.userId ∈ t.events := by
    by_contra hnot
    have hnone : amountIn t.pending r.userId = 0 := by
      unfold amountIn
      rw [List.find?_eq_none.2 fun e he hid => ?_]
      · rfl
      · have hsame : e.userId = r.userId := by simpa using hid
        exact hnot (hsame ▸ hbalanced.deferred e he)
    rw [← h.net_eq, h.view_pending, hnone] at hpos
    exact absurd hpos (not_lt_of_ge (hle 0 (le_refl _)))
  rw [← h.net_eq] at hpos
  have hall : applyAll (t.view db) t.events = .ok db' := hok
  have hwithin := applyAll_user hpart t.events hall huser hevent hpos
  exact hwithin

theorem System.Inv.total_within (hok : t.commit db = .ok db') {part : Amount → Int} (hpart : part = Prod.fst ∨ part = Prod.snd)
    (hpos : 0 < part t.netAll) : part db'.total ≤ part db.limits.total := by
  rcases applyAll_total hpart t.events hok with hwithin | ⟨-, hle⟩
  · exact hwithin
  · obtain ⟨hexact, hrows, -⟩ := h.committed hc hok
    have hold : Exact db := h.exact_
    have hlocks : locked (t :: others) ≤ db.rows := h.locks
    rw [locked_cons] at hlocks
    have hbefore : t.before ≤ db.rows := (Multiset.le_add_right _ _).trans hlocks
    have htotal : db'.total = db.total + t.netAll := by
      rw [hexact.total_eq, hold.total_eq, hrows, amountAll_add, amountAll_sub hbefore]
      unfold Transaction.netAll
      abel
    have hsum : part db'.total = part db.total + part t.netAll := by
      rw [htotal]
      rcases hpart with rfl | rfl <;> rfl
    have hview : part db'.total ≤ part db.total := hle
    omega

theorem System.Inv.commit_succeeds (hnone : ∀ user, t.net user ≤ 0) : ∃ db', t.commit db = .ok db' := by
  refine (h.owing hc).applyAll_succeeds t.events fun e he => ?_
  rw [← (h.owing hc).pending.amountIn_mem he, h.net_eq]
  exact hnone e.userId

end Net

/-- In every interleaving, between any two steps, the counters are exact; a transaction that has
reached its end is refused as a whole if it would give a user, or all of them, more than before and
more than a limit; one that gives no user more is not refused. -/
theorem counters_exact {limits : Limits} {s : System} (h : Reachable limits s) :
    (∀ user, amountIn s.db.usage user = amountOf user s.db.rows) ∧ s.db.total = amountAll s.db.rows ∧
      amountIn_all s.db.usage = s.db.total ∧ (∀ e ∈ s.db.usage, 0 ≤ e.amount) ∧ 0 ≤ s.db.total ∧ s.db.pending = [] ∧
      ∀ a t b, s.open_ = a ++ t :: b → t.Cascaded s.db →
        (∀ db, t.commit s.db = .ok db → db.rows = s.db.rows - t.before + t.after ∧
          ∀ part, part = Prod.fst ∨ part = Prod.snd →
            (∀ user, 0 < part (t.net user) → part (amountIn db.usage user) ≤ part s.db.limits.user) ∧
            (0 < part t.netAll → part db.total ≤ part s.db.limits.total)) ∧
        ((∀ user, t.net user ≤ 0) → ∃ db, t.commit s.db = .ok db) := by
  have hinv := inv_reachable h
  have hexact := hinv.exact_
  refine ⟨hexact.amountIn_eq, hexact.total_eq, hexact.sum_usage, fun e he => ?_, ?_, hexact.settled, ?_⟩
  · rw [← hexact.keyed.amountIn_mem he, hexact.amountIn_eq]
    exact amountOf_nonneg _ _
  · rw [hexact.total_eq]
    exact amountAll_nonneg _
  · intro a t b hopen hc
    have hthis : System.Inv ⟨s.db, t :: (a ++ b)⟩ := by
      have hwhole : System.Inv ⟨s.db, s.open_⟩ := hinv
      rw [hopen] at hwhole
      exact hwhole.perm List.perm_middle
    exact ⟨fun db hok => ⟨(hthis.committed hc hok).2.1, fun part hpart =>
      ⟨fun user hpos => hthis.user_within hc hok hpart hpos, fun hpos => hthis.total_within hc hok hpart hpos⟩⟩,
      fun hnone => hthis.commit_succeeds hc hnone⟩

/-- A user's first task, and a second one that the limit on bytes refuses. -/
theorem counters_exact_of_one : ∃ s : System, ∃ t : Transaction, Reachable ⟨(8, 2), (20, 4)⟩ s ∧ s.open_ = [t] ∧
    t.commit s.db = .error .quota ∧ amountIn s.db.usage 1 = amountOf 1 s.db.rows ∧ amountIn s.db.usage 1 = (5, 1) := by
  let limits : Limits := ⟨(8, 2), (20, 4)⟩
  let first : Transaction := { Transaction.start.change 1 (5, 1) with after := {⟨.tasks, 1, 1, 5⟩}, inserted := [1] }
  let second : Transaction := { Transaction.start.change 1 (4, 1) with after := {⟨.tasks, 2, 1, 4⟩}, inserted := [1] }
  let db : Store := ⟨[1], 0 - 0 + {⟨.tasks, 1, 1, 5⟩}, [⟨1, (5, 1)⟩], (5, 1), [], limits⟩
  have hempty : Reachable limits ⟨⟨[1], 0, [], 0, [], limits⟩, [.start]⟩ := by
    refine .tail (.tail .refl (.signUp 1 ?_)) .begin_
    exact List.not_mem_nil
  have hfirst : Reachable limits ⟨⟨[1], 0, [], 0, [], limits⟩, [first]⟩ := by
    refine .tail hempty (.write (a := []) (b := []) rfl (.insert ⟨.tasks, 1, 1, 5⟩ ?_ ?_))
    · exact List.mem_singleton_self 1
    · simp [Transaction.start]
  have hcommitted : Reachable limits ⟨db, []⟩ := by
    refine .tail hfirst (.commit (a := []) (b := []) rfl ?_ rfl)
    intro r _
    exact List.not_mem_nil
  have hsecond : Reachable limits ⟨db, [second]⟩ := by
    refine .tail (.tail hcommitted .begin_) (.write (a := []) (b := []) rfl (.insert ⟨.tasks, 2, 1, 4⟩ ?_ ?_))
    · exact List.mem_singleton_self 1
    · simp [Transaction.start]
  exact ⟨_, second, hsecond, rfl, rfl, (counters_exact hsecond).1 1, rfl⟩

end Content

end Prosepect
