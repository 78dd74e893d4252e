/-
Transactions: sequential code over one state that runs as a whole or, on an error, not at all.

- `Tx σ ε α`: a monad of state and errors; `Tx.commit` runs one and rolls back on an error;
- inversion of a successful run, and `Tx.Within`: every successful run relates its end to its
  start, with one rule for each construct;
- `Errs` and `Tx.Errs`: every error is one of a set, with one rule for each construct.
-/
import Mathlib.Tactic.Common

namespace Resumption

/-- Code over a state that may fail. -/
def Tx (σ ε α : Type) : Type := σ → Except ε (α × σ)

namespace Tx

variable {σ ε α β : Type}

instance : Monad (Tx σ ε) where
  pure a := fun s => .ok (a, s)
  bind t f := fun s =>
    match t s with
    | .ok (a, s') => f a s'
    | .error e => .error e

/-- The state. -/
def read : Tx σ ε σ := fun s => .ok (s, s)

/-- Change the state. -/
def write (f : σ → σ) : Tx σ ε Unit := fun s => .ok ((), f s)

/-- End with an error. -/
def raise (e : ε) : Tx σ ε α := fun _ => .error e

/-- Continue with an outcome obtained elsewhere. -/
def ofExcept : Except ε α → Tx σ ε α
  | .ok a => pure a
  | .error e => raise e

/-- Code for each member of a list, in order. -/
def each {γ : Type} (f : γ → Tx σ ε Unit) : List γ → Tx σ ε Unit
  | [] => pure ()
  | a :: l => f a >>= fun _ => each f l

/-- Run to the end and keep the state, or keep the state as it was. -/
def commit (t : Tx σ ε α) (s : σ) : Except ε α × σ :=
  match t s with
  | .ok (a, s') => (.ok a, s')
  | .error e => (.error e, s)

section Run

variable {t : Tx σ ε α} {f : α → Tx σ ε β} {s s' : σ}

@[simp] theorem pure_run (a : α) (s : σ) : (pure a : Tx σ ε α) s = .ok (a, s) := rfl
@[simp] theorem read_run (s : σ) : (read : Tx σ ε σ) s = .ok (s, s) := rfl
@[simp] theorem write_run (f : σ → σ) (s : σ) : (write f : Tx σ ε Unit) s = .ok ((), f s) := rfl
@[simp] theorem raise_run (e : ε) (s : σ) : (raise e : Tx σ ε α) s = .error e := rfl
@[simp] theorem ofExcept_ok (a : α) : (ofExcept (.ok a) : Tx σ ε α) = pure a := rfl
@[simp] theorem ofExcept_error (e : ε) : (ofExcept (.error e) : Tx σ ε α) = raise e := rfl

theorem bind_run (t : Tx σ ε α) (f : α → Tx σ ε β) (s : σ) : (t >>= f) s = match t s with
    | .ok (a, s') => f a s'
    | .error e => .error e := rfl

theorem bind_run_ok {a : α} (h : t s = .ok (a, s')) : (t >>= f) s = f a s' := by
  rw [bind_run, h]

theorem bind_run_error {e : ε} (h : t s = .error e) : (t >>= f) s = .error e := by
  rw [bind_run, h]

@[simp] theorem pure_bind_run (a : α) (f : α → Tx σ ε β) (s : σ) : ((pure a : Tx σ ε α) >>= f) s = f a s := rfl
@[simp] theorem read_bind_run (f : σ → Tx σ ε β) (s : σ) : ((read : Tx σ ε σ) >>= f) s = f s s := rfl
@[simp] theorem write_bind_run (g : σ → σ) (f : Unit → Tx σ ε β) (s : σ) :
    ((write g : Tx σ ε Unit) >>= f) s = f () (g s) := rfl
@[simp] theorem raise_bind_run (e : ε) (f : α → Tx σ ε β) (s : σ) :
    ((raise e : Tx σ ε α) >>= f) s = .error e := rfl

/-- A successful sequence is two successful parts. -/
theorem bind_ok {b : β} (h : (t >>= f) s = .ok (b, s')) :
    ∃ a u, t s = .ok (a, u) ∧ f a u = .ok (b, s') := by
  rw [bind_run] at h
  split at h
  · exact ⟨_, _, ‹_›, h⟩
  · cases h

theorem ofExcept_run_ok {x : Except ε α} {a : α} (h : ofExcept x s = .ok (a, s')) : x = .ok a ∧ s' = s := by
  cases x with
  | ok b => cases h; exact ⟨rfl, rfl⟩
  | error e => cases h

theorem ofExcept_bind_ok {x : Except ε α} {b : β} (h : (ofExcept x >>= f) s = .ok (b, s')) :
    ∃ a, x = .ok a ∧ f a s = .ok (b, s') := by
  obtain ⟨a, u, hx, hf⟩ := bind_ok h
  obtain ⟨rfl, rfl⟩ := ofExcept_run_ok hx
  exact ⟨a, rfl, hf⟩

theorem commit_ok (h : (commit t s).1.isOk = true) : ∃ a, t s = .ok (a, (commit t s).2) := by
  unfold commit at h ⊢
  split at h
  · exact ⟨_, ‹_›⟩
  · cases h

end Run

/-! ## What successful runs do to the state -/

/-- Every successful run relates its end to its start. -/
def Within (R : σ → σ → Prop) (t : Tx σ ε α) : Prop := ∀ s a s', t s = .ok (a, s') → R s s'

section Within

variable {R : σ → σ → Prop}

theorem Within.pure (hr : ∀ s, R s s) (a : α) : Within R (Pure.pure a : Tx σ ε α) := by
  intro s b s' h
  cases h
  exact hr s

theorem Within.read (hr : ∀ s, R s s) : Within R (Tx.read : Tx σ ε σ) := by
  intro s b s' h
  cases h
  exact hr s

theorem Within.write {f : σ → σ} (hf : ∀ s, R s (f s)) : Within R (Tx.write f : Tx σ ε Unit) := by
  intro s b s' h
  cases h
  exact hf s

theorem Within.raise (e : ε) : Within R (Tx.raise e : Tx σ ε α) := by
  intro s b s' h
  cases h

theorem Within.ofExcept (hr : ∀ s, R s s) (x : Except ε α) : Within R (Tx.ofExcept x : Tx σ ε α) := by
  intro s b s' h
  rw [(ofExcept_run_ok h).2]
  exact hr s

theorem Within.bind (ht : ∀ {a b c}, R a b → R b c → R a c) {t : Tx σ ε α} {f : α → Tx σ ε β} (h : Within R t)
    (hf : ∀ a, Within R (f a)) : Within R (t >>= f) := by
  intro s b s' hs
  obtain ⟨a, u, h1, h2⟩ := bind_ok hs
  exact ht (h s a u h1) (hf a u b s' h2)

theorem Within.ite {c : Prop} [Decidable c] {t u : Tx σ ε α} (ht : c → Within R t) (hu : ¬ c → Within R u) :
    Within R (if c then t else u) := by
  by_cases h : c
  · rw [if_pos h]; exact ht h
  · rw [if_neg h]; exact hu h

theorem Within.each (hr : ∀ s, R s s) (ht : ∀ {a b c}, R a b → R b c → R a c) {γ : Type} {f : γ → Tx σ ε Unit}
    {l : List γ} (h : ∀ a ∈ l, Within R (f a)) : Within R (Tx.each f l) := by
  induction l with
  | nil => exact .pure hr ()
  | cons a l ih =>
    exact Within.bind (R := R) ht (h a List.mem_cons_self) fun _ => ih fun b hb => h b (List.mem_cons_of_mem _ hb)

theorem Within.commit (hr : ∀ s, R s s) {t : Tx σ ε α} (h : Within R t) (s : σ) : R s (commit t s).2 := by
  unfold Tx.commit
  cases ht : t s with
  | ok p => exact h s p.1 p.2 ht
  | error e => exact hr s

end Within

end Tx

/-! ## Checks in sequence -/

section Checks

variable {ε : Type} {c : Prop} [Decidable c] {e : ε} {k : Unit → Except ε Unit} {x : Except ε Unit}

/-- A check that refuses what meets `c`, before the rest. -/
theorem refuse_ok_iff : (if c then throw e >>= k else k ()) = .ok () ↔ ¬ c ∧ k () = .ok () := by
  by_cases hc : c
  · rw [if_pos hc]
    constructor
    · intro h
      cases h
    · exact fun h => absurd hc h.1
  · simp [hc]

theorem refuse_last_iff : (if c then throw e else pure () : Except ε Unit) = .ok () ↔ ¬ c := by
  by_cases hc : c
  · rw [if_pos hc]
    constructor
    · intro h
      cases h
    · exact fun h => absurd hc h
  · simp [hc, pure, Except.pure]

/-- A check that asks for `c`, before the rest. -/
theorem require_ok_iff : (if c then x else throw e >>= k) = .ok () ↔ c ∧ x = .ok () := by
  by_cases hc : c
  · simp [hc]
  · rw [if_neg hc]
    constructor
    · intro h
      cases h
    · exact fun h => absurd h.1 hc

theorem require_last_iff : (if c then pure () else throw e : Except ε Unit) = .ok () ↔ c := by
  by_cases hc : c
  · simp [hc, pure, Except.pure]
  · rw [if_neg hc]
    constructor
    · intro h
      cases h
    · exact fun h => absurd h hc

/-- Every error is one of a set. -/
def Errs {α : Type} (P : ε → Prop) (x : Except ε α) : Prop := ∀ e, x = .error e → P e

variable {P : ε → Prop}

theorem Errs.ok {α : Type} (a : α) : Errs P (.ok a : Except ε α) := by
  intro e h
  cases h

theorem Errs.error {α : Type} (h : P e) : Errs P (.error e : Except ε α) := by
  intro e' he
  cases he
  exact h

theorem Errs.bind {α β : Type} {x : Except ε α} {f : α → Except ε β} (h : Errs P x)
    (hf : ∀ a, x = .ok a → Errs P (f a)) : Errs P (x >>= f) := by
  intro e' he
  cases hx : x with
  | error e =>
    rw [hx] at he
    cases he
    exact h _ hx
  | ok a =>
    rw [hx] at he
    exact hf a hx e' he

theorem Errs.refuse {α : Type} {f : Unit → Except ε α} (h : P e) (hf : Errs P (f ())) :
    Errs P (if c then throw e >>= f else f ()) := by
  by_cases hc : c
  · rw [if_pos hc]
    exact .error h
  · rw [if_neg hc]
    exact hf

theorem Errs.refuse_last (h : P e) : Errs P (if c then throw e else pure () : Except ε Unit) := by
  by_cases hc : c
  · rw [if_pos hc]
    exact .error h
  · rw [if_neg hc]
    exact .ok ()

end Checks

/-! ## The errors of failing runs -/

namespace Tx

variable {σ ε α β : Type} {P : ε → Prop}

/-- Every failing run ends with an error of a set. -/
def Errs (P : ε → Prop) (t : Tx σ ε α) : Prop := ∀ s, Resumption.Errs P (t s)

theorem Errs.pure (a : α) : Errs P (Pure.pure a : Tx σ ε α) := fun _ => .ok _

theorem Errs.read : Errs P (Tx.read : Tx σ ε σ) := fun _ => .ok _

theorem Errs.write (f : σ → σ) : Errs P (Tx.write f : Tx σ ε Unit) := fun _ => .ok _

theorem Errs.raise {e : ε} (h : P e) : Errs P (Tx.raise e : Tx σ ε α) := fun _ => .error h

theorem Errs.ofExcept {x : Except ε α} (h : Resumption.Errs P x) : Errs P (Tx.ofExcept x : Tx σ ε α) := by
  intro s e he
  cases x with
  | ok a => cases he
  | error e' =>
    cases he
    exact h _ rfl

theorem Errs.bind {t : Tx σ ε α} {f : α → Tx σ ε β} (h : Errs P t) (hf : ∀ a, Errs P (f a)) : Errs P (t >>= f) := by
  intro s e he
  rw [bind_run] at he
  cases ht : t s with
  | error e' =>
    rw [ht] at he
    cases he
    exact h s _ ht
  | ok p =>
    rw [ht] at he
    exact hf p.1 p.2 e he

/-- Another error comes from what follows. -/
theorem Errs.bind_error {t : Tx σ ε α} {f : α → Tx σ ε β} {s : σ} {e : ε} (ht : Errs P t) (hne : ¬ P e)
    (h : (t >>= f) s = .error e) : ∃ a s', t s = .ok (a, s') ∧ f a s' = .error e := by
  rw [bind_run] at h
  cases hs : t s with
  | error e' =>
    rw [hs] at h
    cases h
    exact absurd (ht s _ hs) hne
  | ok p =>
    rw [hs] at h
    exact ⟨p.1, p.2, rfl, h⟩

theorem Errs.ofExcept_bind_error {x : Except ε α} {f : α → Tx σ ε β} {s : σ} {e : ε} (hx : Resumption.Errs P x)
    (hne : ¬ P e) (h : (Tx.ofExcept x >>= f) s = .error e) : ∃ a, x = .ok a ∧ f a s = .error e := by
  obtain ⟨a, s', ha, hf⟩ := Errs.bind_error (.ofExcept hx) hne h
  obtain ⟨rfl, rfl⟩ := ofExcept_run_ok ha
  exact ⟨a, rfl, hf⟩

theorem Errs.ite {c : Prop} [Decidable c] {t u : Tx σ ε α} (ht : c → Errs P t) (hu : ¬ c → Errs P u) :
    Errs P (if c then t else u) := by
  by_cases h : c
  · rw [if_pos h]
    exact ht h
  · rw [if_neg h]
    exact hu h

end Tx

end Resumption
