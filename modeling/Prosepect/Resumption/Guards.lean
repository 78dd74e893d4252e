/-
Resumption programs that hold guards: what a task has taken is given back when it ends, however it
ends — one guard after the other, the last taken first, other tasks going on in between.

- `Holding`: what operations do to the world and to the frame of their task, and what it is to drop a guard;
- `Tasks`, `Tasks.Next`, `Tasks.Reach`: any number of tasks over one world, their steps and runs;
- `Holding.Throughout`: what holds before the operations of a program and at its ends, whatever they answer.
-/
import Mathlib.Algebra.BigOperators.Group.Multiset.Basic
import Prosepect.Resumption.Basic

namespace Resumption

variable {S : Sig} {ε W F G : Type}

/-- How a task ended. A task that is cancelled, or panics, has no answer. -/
inductive Outcome (ε : Type)
  | answered (answer : Except ε Unit)
  | cancelled

/-- Operations on a world and on frames, which have guards. -/
structure Holding (S : Sig) (ε W F G : Type) where
  step : (o : S.Op) → W → S.Res o → W → Prop
  after : (o : S.Op) → S.Res o → F → F
  guards : F → List G
  /-- The frame without its first guard. -/
  pop : F → F
  /-- What the world becomes when the guard is dropped. -/
  release : G → W → W → Prop
  /-- What the world does by itself. -/
  idle : W → W → Prop
  start : F → Prog S ε Unit → Prop

inductive Task (S : Sig) (ε F : Type)
  | running (frame : F) (rest : Prog S ε Unit)
  | closing (frame : F) (outcome : Outcome ε)

def Task.frame : Task S ε F → F
  | .running f _ => f
  | .closing f _ => f

structure Tasks (S : Sig) (ε W F : Type) where
  world : W
  tasks : Multiset (Task S ε F)
  /-- The frames of the tasks that are gone, the last first. -/
  gone : List (F × Outcome ε)

namespace Tasks

variable (M : Holding S ε W F G)

/-- One step of one task, or of the world. -/
inductive Next : Tasks S ε W F → Tasks S ε W F → Prop
  | start {w : W} {ts : Multiset (Task S ε F)} {gone : List (F × Outcome ε)} {f : F} {p : Prog S ε Unit} : M.start f p →
      Next ⟨w, ts, gone⟩ ⟨w, .running f p ::ₘ ts, gone⟩
  | act {w w' : W} {ts : Multiset (Task S ε F)} {gone : List (F × Outcome ε)} {f : F} {o : S.Op} {k : S.Res o → Prog S ε Unit}
      {r : S.Res o} : M.step o w r w' →
      Next ⟨w, .running f (.op o k) ::ₘ ts, gone⟩ ⟨w', .running (M.after o r f) (k r) ::ₘ ts, gone⟩
  | returned {w : W} {ts : Multiset (Task S ε F)} {gone : List (F × Outcome ε)} {f : F} :
      Next ⟨w, .running f (.ret ()) ::ₘ ts, gone⟩ ⟨w, .closing f (.answered (.ok ())) ::ₘ ts, gone⟩
  | failed {w : W} {ts : Multiset (Task S ε F)} {gone : List (F × Outcome ε)} {f : F} {e : ε} :
      Next ⟨w, .running f (.fail e) ::ₘ ts, gone⟩ ⟨w, .closing f (.answered (.error e)) ::ₘ ts, gone⟩
  | cancelled {w : W} {ts : Multiset (Task S ε F)} {gone : List (F × Outcome ε)} {f : F} {p : Prog S ε Unit} :
      Next ⟨w, .running f p ::ₘ ts, gone⟩ ⟨w, .closing f .cancelled ::ₘ ts, gone⟩
  | drop {w w' : W} {ts : Multiset (Task S ε F)} {gone : List (F × Outcome ε)} {f : F} {a : Outcome ε} {g : G} {gs : List G} :
      M.guards f = g :: gs → M.release g w w' →
      Next ⟨w, .closing f a ::ₘ ts, gone⟩ ⟨w', .closing (M.pop f) a ::ₘ ts, gone⟩
  | ended {w : W} {ts : Multiset (Task S ε F)} {gone : List (F × Outcome ε)} {f : F} {a : Outcome ε} : M.guards f = [] →
      Next ⟨w, .closing f a ::ₘ ts, gone⟩ ⟨w, ts, (f, a) :: gone⟩
  | idle {w w' : W} {ts : Multiset (Task S ε F)} {gone : List (F × Outcome ε)} : M.idle w w' → Next ⟨w, ts, gone⟩ ⟨w', ts, gone⟩

/-- The runs from a world without tasks. -/
inductive Reach (w : W) : Tasks S ε W F → Prop
  | init : Reach w ⟨w, 0, []⟩
  | tail {c d : Tasks S ε W F} : Reach w c → Next M c d → Reach w d

variable {M}

/-- The frames of the tasks, gone ones too. -/
def Has (c : Tasks S ε W F) (f : F) : Prop := (∃ t ∈ c.tasks, t.frame = f) ∨ ∃ a, (f, a) ∈ c.gone

/-- After a step, a frame was there before, or is that of a new task, or what an operation or the
drop of a guard made of one. -/
theorem Next.has {c d : Tasks S ε W F} (h : Next M c d) {f : F} (hf : d.Has f) :
    c.Has f ∨ (∃ p, M.start f p) ∨
    (∃ g o k r, Task.running g (.op o k) ∈ c.tasks ∧ M.step o c.world r d.world ∧ f = M.after o r g) ∨
    ∃ g a x gs, Task.closing g a ∈ c.tasks ∧ M.guards g = x :: gs ∧ M.release x c.world d.world ∧ f = M.pop g := by
  cases h with
  | start hs =>
    rcases hf with ⟨t, ht, rfl⟩ | hf
    · rcases Multiset.mem_cons.1 ht with rfl | ht
      · exact .inr (.inl ⟨_, hs⟩)
      · exact .inl (.inl ⟨t, ht, rfl⟩)
    · exact .inl (.inr hf)
  | act hs =>
    rcases hf with ⟨t, ht, rfl⟩ | hf
    · rcases Multiset.mem_cons.1 ht with rfl | ht
      · exact .inr (.inr (.inl ⟨_, _, _, _, Multiset.mem_cons_self _ _, hs, rfl⟩))
      · exact .inl (.inl ⟨t, Multiset.mem_cons_of_mem ht, rfl⟩)
    · exact .inl (.inr hf)
  | returned | failed | cancelled =>
    rcases hf with ⟨t, ht, rfl⟩ | hf
    · rcases Multiset.mem_cons.1 ht with rfl | ht
      · exact .inl (.inl ⟨_, Multiset.mem_cons_self _ _, rfl⟩)
      · exact .inl (.inl ⟨t, Multiset.mem_cons_of_mem ht, rfl⟩)
    · exact .inl (.inr hf)
  | drop hg hr =>
    rcases hf with ⟨t, ht, rfl⟩ | hf
    · rcases Multiset.mem_cons.1 ht with rfl | ht
      · exact .inr (.inr (.inr ⟨_, _, _, _, Multiset.mem_cons_self _ _, hg, hr, rfl⟩))
      · exact .inl (.inl ⟨t, Multiset.mem_cons_of_mem ht, rfl⟩)
    · exact .inl (.inr hf)
  | ended hg =>
    rcases hf with ⟨t, ht, rfl⟩ | ⟨a, ha⟩
    · exact .inl (.inl ⟨t, Multiset.mem_cons_of_mem ht, rfl⟩)
    · rcases List.mem_cons.1 ha with heq | ha
      · cases heq
        exact .inl (.inl ⟨_, Multiset.mem_cons_self _ _, rfl⟩)
      · exact .inl (.inr ⟨a, ha⟩)
  | idle => exact .inl hf

/-- What may happen to the world in a step. -/
theorem Next.world_cases {c d : Tasks S ε W F} (h : Next M c d) :
    d.world = c.world ∨ (∃ o r, M.step o c.world r d.world) ∨ (∃ g, M.release g c.world d.world) ∨ M.idle c.world d.world := by
  cases h with
  | act hs => exact .inr (.inl ⟨_, _, hs⟩)
  | drop _ hr => exact .inr (.inr (.inl ⟨_, hr⟩))
  | idle hi => exact .inr (.inr (.inr hi))
  | start | returned | failed | cancelled | ended => exact .inl rfl

/-- What a step keeps, a run keeps. -/
theorem Reach.inv {I : Tasks S ε W F → Prop} {w : W} (hinit : I ⟨w, 0, []⟩) (hstep : ∀ c d, I c → Next M c d → I d)
    {c : Tasks S ε W F} (h : Reach M w c) : I c := by
  induction h with
  | init => exact hinit
  | tail _ hn ih => exact hstep _ _ ih hn

/-- How many guards of one kind the tasks hold. -/
def held [DecidableEq G] (M : Holding S ε W F G) (ts : Multiset (Task S ε F)) (g : G) : Nat :=
  (ts.map fun t => (M.guards t.frame).count g).sum

section Held

variable [DecidableEq G] {ts : Multiset (Task S ε F)} {t : Task S ε F} {g : G}

@[simp] theorem held_zero : held M (0 : Multiset (Task S ε F)) g = 0 := rfl

@[simp] theorem held_cons : held M (t ::ₘ ts) g = (M.guards t.frame).count g + held M ts g := by
  simp [held]

theorem count_le_held (ht : t ∈ ts) : (M.guards t.frame).count g ≤ held M ts g := by
  obtain ⟨us, rfl⟩ := Multiset.exists_cons_of_mem ht
  rw [held_cons]
  exact Nat.le_add_right _ _

/-- As many tasks as hold a guard are at most as many guards as are held. -/
theorem countP_le_held {p : Task S ε F → Prop} [DecidablePred p] (hp : ∀ t ∈ ts, p t → g ∈ M.guards t.frame) :
    ts.countP p ≤ held M ts g := by
  induction ts using Multiset.induction with
  | empty => exact Nat.le_refl 0
  | cons t ts ih =>
    have hts := ih fun u hu => hp u (Multiset.mem_cons_of_mem hu)
    rw [held_cons, Multiset.countP_cons]
    by_cases ht : p t
    · have hmem := hp t (Multiset.mem_cons_self t ts) ht
      have hpos := List.count_pos_iff.2 hmem
      rw [if_pos ht]
      omega
    · rw [if_neg ht]
      omega

end Held

end Tasks

namespace Holding

variable (M : Holding S ε W F G) {α β : Type} {P : F → S.Op → Prop} {E : F → ε → Prop}

/-- Whatever the operations of a program may answer: `P` holds before each of them, `E` of the error
with which it fails, and `Q` of its result. -/
def Throughout (P : F → S.Op → Prop) (E : F → ε → Prop) (Q : F → α → Prop) : F → Prog S ε α → Prop
  | f, .ret a => Q f a
  | f, .fail e => E f e
  | f, .op o k => P f o ∧ ∀ r, (∃ w w', M.step o w r w') → Throughout P E Q (M.after o r f) (k r)

variable {M}

theorem Throughout.bind {Q : F → β → Prop} {k : α → Prog S ε β} {f : F} {p : Prog S ε α}
    (h : M.Throughout P E (fun f a => M.Throughout P E Q f (k a)) f p) : M.Throughout P E Q f (p.bind k) := by
  induction p generalizing f with
  | ret a => exact h
  | fail e => exact h
  | op o k' ih => exact ⟨h.1, fun r hr => ih r (h.2 r hr)⟩

/-- What every operation asks for and every end leaves holds at any point. -/
theorem Throughout.here {C : F → Prop} {Q : F → α → Prop} {f : F} {p : Prog S ε α} (hP : ∀ f o, P f o → C f)
    (hE : ∀ f e, E f e → C f) (hQ : ∀ f a, Q f a → C f) (h : M.Throughout P E Q f p) : C f := by
  cases p with
  | ret a => exact hQ f a h
  | fail e => exact hE f e h
  | op o k => exact hP f o h.1

/-- Running tasks are at a point of their program. -/
theorem Throughout.run {Q : F → Unit → Prop} {w : W} (hstart : ∀ f p, M.start f p → M.Throughout P E Q f p)
    {c : Tasks S ε W F} (h : Tasks.Reach M w c) {f : F} {p : Prog S ε Unit} (ht : Task.running f p ∈ c.tasks) :
    M.Throughout P E Q f p := by
  induction h generalizing f p with
  | init => exact absurd ht (Multiset.notMem_zero _)
  | tail _ hn ih =>
    cases hn with
    | start hs =>
      rcases Multiset.mem_cons.1 ht with heq | ht
      · cases heq
        exact hstart _ _ hs
      · exact ih ht
    | act hs =>
      rcases Multiset.mem_cons.1 ht with heq | ht
      · cases heq
        exact (ih (Multiset.mem_cons_self _ _)).2 _ ⟨_, _, hs⟩
      · exact ih (Multiset.mem_cons_of_mem ht)
    | ended => exact ih (Multiset.mem_cons_of_mem ht)
    | idle => exact ih ht
    | returned | failed | cancelled | drop =>
      rcases Multiset.mem_cons.1 ht with heq | ht
      · cases heq
      · exact ih (Multiset.mem_cons_of_mem ht)

/-- What is said of the ends of a program holds of the tasks that have ended. -/
theorem Throughout.outcomes {D : F → Outcome ε → Prop} {Q : F → Unit → Prop} {w : W}
    (hstart : ∀ f p, M.start f p → M.Throughout P E Q f p) (hret : ∀ f, Q f () → D f (.answered (.ok ())))
    (hfail : ∀ f e, E f e → D f (.answered (.error e))) (hcancel : ∀ f, D f .cancelled) (hpop : ∀ f a, D f a → D (M.pop f) a)
    {c : Tasks S ε W F} (h : Tasks.Reach M w c) :
    (∀ f a, Task.closing f a ∈ c.tasks → D f a) ∧ ∀ d ∈ c.gone, D d.1 d.2 := by
  induction h with
  | init => exact ⟨fun f a ht => absurd ht (Multiset.notMem_zero _), fun d hd => absurd hd List.not_mem_nil⟩
  | tail h hn ih =>
    obtain ⟨hclosing, hgone⟩ := ih
    cases hn with
    | start =>
      refine ⟨fun f a ht => ?_, hgone⟩
      rcases Multiset.mem_cons.1 ht with heq | ht
      · cases heq
      · exact hclosing f a ht
    | act =>
      refine ⟨fun f a ht => ?_, hgone⟩
      rcases Multiset.mem_cons.1 ht with heq | ht
      · cases heq
      · exact hclosing f a (Multiset.mem_cons_of_mem ht)
    | idle => exact ⟨hclosing, hgone⟩
    | returned =>
      refine ⟨fun f a ht => ?_, hgone⟩
      rcases Multiset.mem_cons.1 ht with heq | ht
      · cases heq
        exact hret _ (Throughout.run hstart h (Multiset.mem_cons_self _ _))
      · exact hclosing f a (Multiset.mem_cons_of_mem ht)
    | failed =>
      refine ⟨fun f a ht => ?_, hgone⟩
      rcases Multiset.mem_cons.1 ht with heq | ht
      · cases heq
        exact hfail _ _ (Throughout.run hstart h (Multiset.mem_cons_self _ _))
      · exact hclosing f a (Multiset.mem_cons_of_mem ht)
    | cancelled =>
      refine ⟨fun f a ht => ?_, hgone⟩
      rcases Multiset.mem_cons.1 ht with heq | ht
      · cases heq
        exact hcancel _
      · exact hclosing f a (Multiset.mem_cons_of_mem ht)
    | drop =>
      refine ⟨fun f a ht => ?_, hgone⟩
      rcases Multiset.mem_cons.1 ht with heq | ht
      · cases heq
        exact hpop _ _ (hclosing _ _ (Multiset.mem_cons_self _ _))
      · exact hclosing f a (Multiset.mem_cons_of_mem ht)
    | ended =>
      refine ⟨fun f a ht => hclosing f a (Multiset.mem_cons_of_mem ht), fun d hd => ?_⟩
      rcases List.mem_cons.1 hd with rfl | hd
      · exact hclosing _ _ (Multiset.mem_cons_self _ _)
      · exact hgone d hd

end Holding

end Resumption
