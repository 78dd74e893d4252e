/-
Resumption programs side by side: any number of them over one world, their operations interleaved,
each of which may be cut off before an operation.

- `Pool`: the world, the running programs with the requests they answer, and the answers given;
- `Pool.Next`, `Pool.Reach`: the steps, each with its event, and the runs whose steps meet a condition;
- `Pool.play`: the next step of one program, where every operation is a function of the world.
-/
import Mathlib.Logic.Function.Basic
import Prosepect.Resumption.Basic

namespace Resumption

variable {S : Sig} {ε W R : Type}

/-- A request, and what is left of the program that answers it. -/
structure Thread (S : Sig) (ε R : Type) where
  request : R
  rest : Prog S ε Unit

structure Pool (S : Sig) (ε W R : Type) where
  world : W
  threads : Nat → Option (Thread S ε R)
  /-- What has been answered, the last answer first. -/
  answers : List (R × Except ε Unit)

/-- What an operation may answer and leave, and which program a request starts. -/
structure Server (S : Sig) (ε W R : Type) where
  step : (o : S.Op) → W → S.Res o → W → Prop
  start : R → W → Prog S ε Unit → W → Prop

namespace Pool

inductive Event (S : Sig)
  | start (i : Nat)
  | act (i : Nat) (o : S.Op) (r : S.Res o)
  | answer (i : Nat)
  | cut (i : Nat)

/-- The program takes the place, with the world it leaves. -/
def put (c : Pool S ε W R) (i : Nat) (t : Option (Thread S ε R)) (w : W) : Pool S ε W R :=
  { c with world := w, threads := Function.update c.threads i t }

@[simp] theorem put_world (c : Pool S ε W R) (i : Nat) (t : Option (Thread S ε R)) (w : W) : (c.put i t w).world = w := rfl

@[simp] theorem put_answers (c : Pool S ε W R) (i : Nat) (t : Option (Thread S ε R)) (w : W) :
    (c.put i t w).answers = c.answers := rfl

theorem put_threads (c : Pool S ε W R) (i : Nat) (t : Option (Thread S ε R)) (w : W) :
    (c.put i t w).threads = Function.update c.threads i t := rfl

@[simp] theorem put_same (c : Pool S ε W R) (i : Nat) (t : Option (Thread S ε R)) (w : W) : (c.put i t w).threads i = t := by
  rw [put_threads, Function.update_self]

@[simp] theorem put_other (c : Pool S ε W R) {i j : Nat} (t : Option (Thread S ε R)) (w : W) (h : j ≠ i) :
    (c.put i t w).threads j = c.threads j := by
  rw [put_threads, Function.update_of_ne h]

/-- A running program after a step is the one that made it or was there before. -/
theorem put_eq_some {c : Pool S ε W R} {i j : Nat} {t : Option (Thread S ε R)} {u : Thread S ε R} {w : W}
    (h : (c.put i t w).threads j = some u) : j = i ∧ t = some u ∨ j ≠ i ∧ c.threads j = some u := by
  by_cases hj : j = i
  · subst hj
    exact .inl ⟨rfl, by simpa using h⟩
  · exact .inr ⟨hj, by simpa [hj] using h⟩

variable (M : Server S ε W R)

/-- One step. -/
inductive Next (c : Pool S ε W R) : Event S → Pool S ε W R → Prop
  | start {i : Nat} {q : R} {p : Prog S ε Unit} {w : W} : c.threads i = none → M.start q c.world p w →
      Next c (.start i) (c.put i (some ⟨q, p⟩) w)
  | act {i : Nat} {q : R} {o : S.Op} {k : S.Res o → Prog S ε Unit} {r : S.Res o} {w : W} :
      c.threads i = some ⟨q, .op o k⟩ → M.step o c.world r w → Next c (.act i o r) (c.put i (some ⟨q, k r⟩) w)
  | done {i : Nat} {q : R} : c.threads i = some ⟨q, .ret ()⟩ →
      Next c (.answer i) { c.put i none c.world with answers := (q, .ok ()) :: c.answers }
  | failed {i : Nat} {q : R} {e : ε} : c.threads i = some ⟨q, .fail e⟩ →
      Next c (.answer i) { c.put i none c.world with answers := (q, .error e) :: c.answers }
  | cut {i : Nat} {t : Thread S ε R} : c.threads i = some t → Next c (.cut i) (c.put i none c.world)

/-- The runs from a pool whose steps meet a condition on the event and the pool before it. -/
inductive Reach (G : Event S → Pool S ε W R → Prop) (c : Pool S ε W R) : Pool S ε W R → Prop
  | refl : Reach G c c
  | tail {d e : Pool S ε W R} {a : Event S} : Reach G c d → G a d → Next M d a e → Reach G c e

variable {M} {G : Event S → Pool S ε W R → Prop}

/-- What a step keeps under the condition, a run keeps. -/
theorem Reach.inv {I : Pool S ε W R → Prop} (hstep : ∀ c a d, I c → G a c → Next M c a d → I d) {c d : Pool S ε W R}
    (h : Reach M G c d) (hc : I c) : I d := by
  induction h with
  | refl => exact hc
  | tail _ hg hn ih => exact hstep _ _ _ ih hg hn

theorem Reach.mono {G' : Event S → Pool S ε W R → Prop} (hG : ∀ a c, G a c → G' a c) {c d : Pool S ε W R}
    (h : Reach M G c d) : Reach M G' c d := by
  induction h with
  | refl => exact .refl
  | tail _ hg hn ih => exact .tail ih (hG _ _ hg) hn

/-- The program of the place goes on: its next operation, or its answer. -/
def play (exec : (o : S.Op) → W → S.Res o × W) (c : Pool S ε W R) (i : Nat) : Pool S ε W R :=
  match c.threads i with
  | none => c
  | some ⟨q, .ret ()⟩ => { c.put i none c.world with answers := (q, .ok ()) :: c.answers }
  | some ⟨q, .fail e⟩ => { c.put i none c.world with answers := (q, .error e) :: c.answers }
  | some ⟨q, .op o k⟩ => c.put i (some ⟨q, k (exec o c.world).1⟩) (exec o c.world).2

theorem next_play {exec : (o : S.Op) → W → S.Res o × W} (hx : ∀ o w, M.step o w (exec o w).1 (exec o w).2)
    {c : Pool S ε W R} {i : Nat} {q : R} {o : S.Op} {k : S.Res o → Prog S ε Unit} (h : c.threads i = some ⟨q, .op o k⟩) :
    Next M c (.act i o (exec o c.world).1) (c.play exec i) := by
  unfold Pool.play
  rw [h]
  exact .act h (hx o c.world)

theorem Reach.play {exec : (o : S.Op) → W → S.Res o × W} (hx : ∀ o w, M.step o w (exec o w).1 (exec o w).2)
    {c d : Pool S ε W R} (h : Reach M (fun _ _ => True) c d) (i : Nat) : Reach M (fun _ _ => True) c (d.play exec i) := by
  unfold Pool.play
  split
  · exact h
  next q ht => exact h.tail trivial (.done ht)
  next q e ht => exact h.tail trivial (.failed ht)
  next q o k ht => exact h.tail trivial (.act ht (hx o d.world))

theorem Reach.plays {exec : (o : S.Op) → W → S.Res o × W} (hx : ∀ o w, M.step o w (exec o w).1 (exec o w).2)
    {c : Pool S ε W R} : ∀ (l : List Nat) {d : Pool S ε W R}, Reach M (fun _ _ => True) c d →
      Reach M (fun _ _ => True) c (l.foldl (Pool.play exec) d)
  | [], _, h => h
  | i :: l, _, h => Reach.plays hx l (h.play hx i)

end Pool

end Resumption
