/-
Effects: sequential code over one state that may fail, and whose writes stay when it does.

- `Eff σ ε α`: a monad of state and errors;
- `Eff.Within`: however a run ends, its end relates to its start, with one rule for each construct;
- `Eff.Ends`: what holds at the end of a run from one state, for each of its two ends.
-/
import Mathlib.Tactic.Common

namespace Resumption

/-- Code over a state that may fail after it has written. -/
def Eff (σ ε α : Type) : Type := σ → Except ε α × σ

namespace Eff

variable {σ ε α β : Type}

instance : Monad (Eff σ ε) where
  pure a := fun s => (.ok a, s)
  bind t f := fun s =>
    match t s with
    | (.ok a, s') => f a s'
    | (.error e, s') => (.error e, s')

/-- The state. -/
def read : Eff σ ε σ := fun s => (.ok s, s)

/-- Change the state. -/
def write (f : σ → σ) : Eff σ ε Unit := fun s => (.ok (), f s)

/-- Change the state, with an answer. -/
def exchange (f : σ → α × σ) : Eff σ ε α := fun s => (.ok (f s).1, (f s).2)

/-- End with an error. -/
def raise (e : ε) : Eff σ ε α := fun s => (.error e, s)

section Run

variable {t : Eff σ ε α} {f : α → Eff σ ε β} {s s' : σ}

@[simp] theorem pure_run (a : α) (s : σ) : (pure a : Eff σ ε α) s = (.ok a, s) := rfl
@[simp] theorem read_run (s : σ) : (read : Eff σ ε σ) s = (.ok s, s) := rfl
@[simp] theorem write_run (f : σ → σ) (s : σ) : (write f : Eff σ ε Unit) s = (.ok (), f s) := rfl
@[simp] theorem raise_run (e : ε) (s : σ) : (raise e : Eff σ ε α) s = (.error e, s) := rfl

theorem bind_run_ok {a : α} (h : t s = (.ok a, s')) : (t >>= f) s = f a s' := by
  show (match t s with | (.ok a, s') => f a s' | (.error e, s') => (.error e, s')) = _
  rw [h]

theorem bind_run_error {e : ε} (h : t s = (.error e, s')) : (t >>= f) s = (.error e, s') := by
  show (match t s with | (.ok a, s') => f a s' | (.error e, s') => (.error e, s')) = _
  rw [h]

@[simp] theorem read_bind_run (f : σ → Eff σ ε β) (s : σ) : (read >>= f) s = f s s := rfl
@[simp] theorem write_bind_run (g : σ → σ) (f : Unit → Eff σ ε β) (s : σ) : (write g >>= f) s = f () (g s) := rfl
@[simp] theorem pure_bind_run (a : α) (f : α → Eff σ ε β) (s : σ) : (pure a >>= f) s = f a s := rfl
@[simp] theorem raise_bind_run (e : ε) (f : α → Eff σ ε β) (s : σ) : (raise e >>= f) s = (.error e, s) := rfl

/-- A run that succeeds has succeeded at each step. -/
theorem bind_ok {b : β} (h : (t >>= f) s = (.ok b, s')) : ∃ a mid, t s = (.ok a, mid) ∧ f a mid = (.ok b, s') := by
  rcases ht : t s with ⟨a | a, mid⟩
  · rw [bind_run_error ht] at h
    cases h
  · rw [bind_run_ok ht] at h
    exact ⟨a, mid, rfl, h⟩

end Run

/-- However it ends, a run takes a state to one that `R` relates to it. -/
def Within (R : σ → σ → Prop) (t : Eff σ ε α) : Prop := ∀ s, R s (t s).2

section Within

variable {R : σ → σ → Prop}

theorem Within.pure (hrefl : ∀ s, R s s) (a : α) : Within R (pure a : Eff σ ε α) := fun s => hrefl s

theorem Within.raise (hrefl : ∀ s, R s s) (e : ε) : Within R (raise e : Eff σ ε α) := fun s => hrefl s

theorem Within.read (hrefl : ∀ s, R s s) : Within R (read : Eff σ ε σ) := fun s => hrefl s

theorem Within.write {f : σ → σ} (h : ∀ s, R s (f s)) : Within R (write f : Eff σ ε Unit) := fun s => h s

theorem Within.exchange {f : σ → α × σ} (h : ∀ s, R s (f s).2) : Within R (exchange f : Eff σ ε α) := fun s => h s

theorem Within.bind (htrans : ∀ {a b c}, R a b → R b c → R a c) {t : Eff σ ε α} {f : α → Eff σ ε β} (h : Within R t)
    (hf : ∀ a, Within R (f a)) : Within R (t >>= f) := by
  intro s
  have hs := h s
  rcases ht : t s with ⟨a | a, s'⟩
  · rw [bind_run_error ht]
    rwa [ht] at hs
  · rw [bind_run_ok ht]
    rw [ht] at hs
    exact htrans hs (hf a s')

theorem Within.ite {p : Prop} [Decidable p] {t u : Eff σ ε α} (ht : p → Within R t) (hu : ¬p → Within R u) :
    Within R (if p then t else u) := by
  split
  · exact ht ‹_›
  · exact hu ‹_›

end Within

/-- A run from `s` ends with a value and a state of `Q`, or fails in a state of `E`. -/
def Ends (t : Eff σ ε α) (s : σ) (Q : α → σ → Prop) (E : σ → Prop) : Prop :=
  match t s with
  | (.ok a, s') => Q a s'
  | (.error _, s') => E s'

section Ends

variable {t u : Eff σ ε α} {f : α → Eff σ ε β} {s s' : σ} {Q Q' : α → σ → Prop} {E : σ → Prop}

theorem Ends.pure {a : α} (h : Q a s) : Ends (pure a : Eff σ ε α) s Q E := h

theorem Ends.raise {e : ε} (h : E s) : Ends (raise e : Eff σ ε α) s Q E := h

theorem Ends.read {Q : σ → σ → Prop} (h : Q s s) : Ends (read : Eff σ ε σ) s Q E := h

theorem Ends.write {Q : Unit → σ → Prop} {g : σ → σ} (h : Q () (g s)) : Ends (write g : Eff σ ε Unit) s Q E := h

theorem Ends.exchange {g : σ → α × σ} (h : Q (g s).1 (g s).2) : Ends (exchange g : Eff σ ε α) s Q E := h

theorem Ends.bind {Q : β → σ → Prop} (h : Ends t s (fun a s' => Ends (f a) s' Q E) E) : Ends (t >>= f) s Q E := by
  unfold Ends at h ⊢
  rcases ht : t s with ⟨a | a, s'⟩
  · rw [bind_run_error ht]
    rwa [ht] at h
  · rw [bind_run_ok ht]
    rwa [ht] at h

theorem Ends.imp {E' : σ → Prop} (h : Ends t s Q E) (hq : ∀ a s', Q a s' → Q' a s') (he : ∀ s', E s' → E' s') :
    Ends t s Q' E' := by
  unfold Ends at h ⊢
  rcases ht : t s with ⟨a | a, s'⟩
  · rw [ht] at h
    exact he s' h
  · rw [ht] at h
    exact hq a s' h

/-- A run by its first part, which may fail in other states. -/
theorem Ends.andThen {R : β → σ → Prop} {E' : σ → Prop} (h : Ends t s Q E) (hf : ∀ a s', Q a s' → Ends (f a) s' R E')
    (he : ∀ s', E s' → E' s') : Ends (t >>= f) s R E' :=
  .bind (h.imp hf he)

/-- A run by its first part. -/
theorem Ends.step {R : β → σ → Prop} (h : Ends t s Q E) (hf : ∀ a s', Q a s' → Ends (f a) s' R E) : Ends (t >>= f) s R E :=
  h.andThen hf fun _ he => he

theorem Ends.ite {p : Prop} [Decidable p] (ht : p → Ends t s Q E) (hu : ¬p → Ends u s Q E) :
    Ends (if p then t else u) s Q E := by
  split
  · exact ht ‹_›
  · exact hu ‹_›

theorem Ends.ok {a : α} (h : Ends t s Q E) (ht : t s = (.ok a, s')) : Q a s' := by
  unfold Ends at h
  rwa [ht] at h

theorem Ends.error {e : ε} (h : Ends t s Q E) (ht : t s = (.error e, s')) : E s' := by
  unfold Ends at h
  rwa [ht] at h

/-- The same run by other code. -/
theorem Ends.congr (h : Ends t s Q E) (heq : t s = u s) : Ends u s Q E := by
  unfold Ends at h ⊢
  rwa [← heq]

/-- What holds at both ends. -/
theorem Ends.state {P : σ → Prop} (h : Ends t s (fun _ => P) P) : P (t s).2 := by
  unfold Ends at h
  rcases ht : t s with ⟨a | a, s'⟩ <;> rwa [ht] at h

end Ends

-- a run is looked at through the rules only, it is not evaluated
attribute [irreducible] Ends

end Eff

end Resumption
