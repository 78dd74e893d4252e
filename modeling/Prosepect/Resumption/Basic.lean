/-
Resumption programs: sequential code that acts on a shared world only through atomic operations,
and may fail in between.

- `Prog S ε α`: a program over the operations of a signature `S`, with errors in `ε` and a result
  in `α`; a monad, with `attempt` to catch errors and `forEach` to loop over a list;
- `Prog.run`: the uninterrupted run of a program when every operation is a function of the world.

How programs run among other parties is in `Resumption.Interleave`.
-/
import Mathlib.Tactic.Common

namespace Resumption

/-- A signature: the atomic operations and what each returns. -/
structure Sig where
  Op : Type
  Res : Op → Type

/-- A program: a result, an error, or an operation and what follows its answer. -/
inductive Prog (S : Sig) (ε α : Type) : Type
  | ret (a : α)
  | fail (e : ε)
  | op (o : S.Op) (k : S.Res o → Prog S ε α)

namespace Prog

variable {S : Sig} {ε α β γ W : Type}

/-- Sequencing: an error of the first part ends the whole program. -/
def bind : Prog S ε α → (α → Prog S ε β) → Prog S ε β
  | .ret a, f => f a
  | .fail e, _ => .fail e
  | .op o k, f => .op o fun r => (k r).bind f

instance : Monad (Prog S ε) where
  pure := .ret
  bind := Prog.bind

/-- Run a program and return its outcome, errors included. -/
def attempt : Prog S ε α → Prog S ε (Except ε α)
  | .ret a => .ret (.ok a)
  | .fail e => .ret (.error e)
  | .op o k => .op o fun r => (k r).attempt

/-- Continue with an outcome obtained elsewhere. -/
def ofExcept : Except ε α → Prog S ε α
  | .ok a => .ret a
  | .error e => .fail e

/-- Run `f` on every element, in order, until one fails. -/
def forEach (f : β → Prog S ε Unit) : List β → Prog S ε Unit
  | [] => .ret ()
  | b :: bs => (f b).bind fun _ => forEach f bs

/-- Thread an accumulator through a list, in order, until one step fails. -/
def foldEach (f : γ → β → Prog S ε γ) : γ → List β → Prog S ε γ
  | c, [] => .ret c
  | c, b :: bs => (f c b).bind fun c => foldEach f c bs

@[simp] theorem pure_eq (a : α) : (pure a : Prog S ε α) = .ret a := rfl
@[simp] theorem bind_eq (p : Prog S ε α) (f : α → Prog S ε β) : p >>= f = p.bind f := rfl
@[simp] theorem ret_bind (a : α) (f : α → Prog S ε β) : (ret a : Prog S ε α).bind f = f a := rfl
@[simp] theorem fail_bind (e : ε) (f : α → Prog S ε β) : (fail e : Prog S ε α).bind f = .fail e := rfl
@[simp] theorem op_bind (o : S.Op) (k : S.Res o → Prog S ε α) (f : α → Prog S ε β) :
    (op o k).bind f = .op o fun r => (k r).bind f := rfl
@[simp] theorem ofExcept_ok (a : α) : (ofExcept (.ok a) : Prog S ε α) = .ret a := rfl
@[simp] theorem ofExcept_error (e : ε) : (ofExcept (.error e) : Prog S ε α) = .fail e := rfl

theorem bind_assoc (p : Prog S ε α) (f : α → Prog S ε β) (g : β → Prog S ε γ) :
    (p.bind f).bind g = p.bind fun a => (f a).bind g := by
  induction p with
  | ret a => rfl
  | fail e => rfl
  | op o k ih => simp only [op_bind]; congr 1; funext r; exact ih r

theorem forEach_append (f : β → Prog S ε Unit) (l l' : List β) :
    forEach f (l ++ l') = (forEach f l).bind fun _ => forEach f l' := by
  induction l with
  | nil => rfl
  | cons b l ih => simp only [List.cons_append, forEach, bind_assoc, ih]

/-! ## Uninterrupted runs -/

/-- The uninterrupted run of a program from a world. -/
def run (exec : (o : S.Op) → W → S.Res o × W) : Prog S ε α → W → Except ε α × W
  | .ret a, w => (.ok a, w)
  | .fail e, w => (.error e, w)
  | .op o k, w => (k (exec o w).1).run exec (exec o w).2

section Run

variable (exec : (o : S.Op) → W → S.Res o × W)

@[simp] theorem run_ret (a : α) (w : W) : (ret a : Prog S ε α).run exec w = (.ok a, w) := rfl
@[simp] theorem run_fail (e : ε) (w : W) : (fail e : Prog S ε α).run exec w = (.error e, w) := rfl
@[simp] theorem run_op (o : S.Op) (k : S.Res o → Prog S ε α) (w : W) :
    (op o k).run exec w = (k (exec o w).1).run exec (exec o w).2 := rfl

/-- The run of a sequence: the second part starts where a successful first part ends. -/
theorem run_bind (p : Prog S ε α) (f : α → Prog S ε β) (w : W) :
    (p.bind f).run exec w = match p.run exec w with
      | (.ok a, w') => (f a).run exec w'
      | (.error e, w') => (.error e, w') := by
  induction p generalizing w with
  | ret a => rfl
  | fail e => rfl
  | op o k ih => exact ih _ _

theorem run_bind_ok {p : Prog S ε α} {f : α → Prog S ε β} {w w' : W} {a : α}
    (h : p.run exec w = (.ok a, w')) : (p.bind f).run exec w = (f a).run exec w' := by
  rw [run_bind, h]

theorem run_bind_error {p : Prog S ε α} {f : α → Prog S ε β} {w w' : W} {e : ε}
    (h : p.run exec w = (.error e, w')) : (p.bind f).run exec w = (.error e, w') := by
  rw [run_bind, h]

theorem run_attempt (p : Prog S ε α) (w : W) : p.attempt.run exec w = (.ok (p.run exec w).1, (p.run exec w).2) := by
  induction p generalizing w with
  | ret a => rfl
  | fail e => rfl
  | op o k ih => exact ih _ _

end Run

end Prog

end Resumption
