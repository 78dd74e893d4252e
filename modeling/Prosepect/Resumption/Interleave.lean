/-
Resumption programs among other parties: one program runs at a time, its operations interleaved
with steps of the environment, and it may be cut off between two operations.

- `System`: what an operation may do, what the environment may do (while a program runs and while
  none does), which programs may be started, and where a run may be cut off;
- `Next`, `Reach`: the steps of a configuration, and its runs;
- `Holds`: the rely-guarantee assertion of a program — `At` before each operation it comes to and
  `Q` at its end, whatever the environment does in between — with one rule for each constructor,
  for sequencing and for loops;
- `Keeps`: the programs that keep one assertion; `Only`: the programs whose operations are of one kind;
- `reach_inv`: what `Holds` of every program that may be started gives for every run.
-/
import Mathlib.Logic.Relation
import Prosepect.Resumption.Basic

namespace Resumption

variable {S : Sig} {ε α β γ W : Type}

/-- A shared world and the parties that act on it. -/
structure System (S : Sig) (ε W : Type) where
  /-- What an operation may answer, and the world it may leave. -/
  step : (o : S.Op) → W → S.Res o → W → Prop
  /-- What the environment may do while a program runs (`true`) and while none does (`false`). -/
  env : Bool → W → W → Prop
  /-- The programs that may be started in a world. -/
  start : Prog S ε Unit → W → Prop
  /-- A run may be cut off before this operation in this world. -/
  cut : S.Op → W → Prop

/-- The world, and the rest of the running program. -/
structure Config (S : Sig) (ε W : Type) where
  world : W
  thread : Option (Prog S ε Unit)

variable (M : System S ε W)

/-- One step of a configuration. -/
inductive Next : Config S ε W → Config S ε W → Prop
  | idle {w w' : W} : M.env false w w' → Next ⟨w, none⟩ ⟨w', none⟩
  | busy {w w' : W} {p : Prog S ε Unit} : M.env true w w' → Next ⟨w, some p⟩ ⟨w', some p⟩
  | start {w : W} {p : Prog S ε Unit} : M.start p w → Next ⟨w, none⟩ ⟨w, some p⟩
  | op {w w' : W} {o : S.Op} {k : S.Res o → Prog S ε Unit} {r : S.Res o} :
      M.step o w r w' → Next ⟨w, some (.op o k)⟩ ⟨w', some (k r)⟩
  | done {w : W} : Next ⟨w, some (.ret ())⟩ ⟨w, none⟩
  | failed {w : W} {e : ε} : Next ⟨w, some (.fail e)⟩ ⟨w, none⟩
  | cut {w : W} {o : S.Op} {k : S.Res o → Prog S ε Unit} :
      M.cut o w → Next ⟨w, some (.op o k)⟩ ⟨w, none⟩

/-- The runs of a configuration. -/
def Reach : Config S ε W → Config S ε W → Prop := Relation.ReflTransGen (Next M)

/-- What the environment does while a program runs, any number of steps. -/
def Rely : W → W → Prop := Relation.ReflTransGen (M.env true)

/-- An assertion the environment keeps. -/
def Stable (A : W → Prop) : Prop := ∀ w w', A w → M.env true w w' → A w'

/-- Before each operation the program comes to, `At` holds; at its end, `Q` does. -/
def Holds (At : S.Op → W → Prop) (Q : Except ε α → W → Prop) : Prog S ε α → W → Prop
  | .ret a, w => ∀ w', Rely M w w' → Q (.ok a) w'
  | .fail e, w => ∀ w', Rely M w w' → Q (.error e) w'
  | .op o k, w => ∀ w', Rely M w w' → At o w' ∧ ∀ r w'', M.step o w' r w'' → Holds At Q (k r) w''

variable {M}

theorem Rely.refl (w : W) : Rely M w w := Relation.ReflTransGen.refl

theorem Stable.rely {A : W → Prop} (hA : Stable M A) {w w' : W} (h : Rely M w w') (hw : A w) : A w' := by
  induction h with
  | refl => exact hw
  | tail _ he ih => exact hA _ _ ih he

theorem Stable.and {A B : W → Prop} (hA : Stable M A) (hB : Stable M B) : Stable M fun w => A w ∧ B w :=
  fun w w' h he => ⟨hA w w' h.1 he, hB w w' h.2 he⟩

theorem Stable.imp_left {A : W → Prop} {P : Prop} (hA : Stable M A) : Stable M fun w => P → A w :=
  fun w w' h he hp => hA w w' (h hp) he

/-- When the environment is quiet while a program runs, every assertion is stable. -/
theorem stable_of_quiet (hq : ∀ w w', ¬ M.env true w w') (A : W → Prop) : Stable M A :=
  fun w w' _ he => absurd he (hq w w')

/-! ## The rules of `Holds` -/

section Rules

variable {At : S.Op → W → Prop} {Q : Except ε α → W → Prop}

theorem Holds.rely {p : Prog S ε α} {w w' : W} (h : Holds M At Q p w) (hr : Rely M w w') : Holds M At Q p w' := by
  cases p with
  | ret a => exact fun w'' h'' => h w'' (hr.trans h'')
  | fail e => exact fun w'' h'' => h w'' (hr.trans h'')
  | op o k => exact fun w'' h'' => h w'' (hr.trans h'')

theorem holds_ret {A : W → Prop} (hA : Stable M A) {a : α} (hq : ∀ w, A w → Q (.ok a) w) {w : W} (hw : A w) :
    Holds M At Q (.ret a) w :=
  fun _ hr => hq _ (hA.rely hr hw)

theorem holds_fail {A : W → Prop} (hA : Stable M A) {e : ε} (hq : ∀ w, A w → Q (.error e) w) {w : W}
    (hw : A w) : Holds M At Q (.fail e) w :=
  fun _ hr => hq _ (hA.rely hr hw)

/-- An operation: a stable assertion gives `At` before it and the assertion of what follows. -/
theorem holds_op {A : W → Prop} (hA : Stable M A) {o : S.Op} {k : S.Res o → Prog S ε α}
    (hat : ∀ w, A w → At o w) (hk : ∀ w r w', A w → M.step o w r w' → Holds M At Q (k r) w') {w : W} (hw : A w) :
    Holds M At Q (.op o k) w := by
  intro w' hr
  have hw' := hA.rely hr hw
  exact ⟨hat w' hw', fun r w'' hs => hk w' r w'' hw' hs⟩

theorem Holds.mono {At' : S.Op → W → Prop} {Q' : Except ε α → W → Prop} (hat : ∀ o w, At o w → At' o w)
    (hq : ∀ x w, Q x w → Q' x w) : ∀ {p : Prog S ε α} {w : W}, Holds M At Q p w → Holds M At' Q' p w
  | .ret _, _, h => fun w' hr => hq _ _ (h w' hr)
  | .fail _, _, h => fun w' hr => hq _ _ (h w' hr)
  | .op _ _, _, h => fun w' hr =>
    ⟨hat _ _ (h w' hr).1, fun r w'' hs => Holds.mono hat hq ((h w' hr).2 r w'' hs)⟩

/-- Sequencing: the end of the first part gives the assertion of the second. -/
theorem Holds.bind {B : Except ε β → W → Prop} {f : β → Prog S ε α} (hok : ∀ b w, B (.ok b) w → Holds M At Q (f b) w)
    (herr : ∀ e w, B (.error e) w → Q (.error e) w) :
    ∀ {p : Prog S ε β} {w : W}, Holds M At B p w → Holds M At Q (p.bind f) w
  | .ret b, w, h => hok b w (h w (Rely.refl w))
  | .fail _, _, h => fun w' hr => herr _ _ (h w' hr)
  | .op _ _, _, h => fun w' hr =>
    ⟨(h w' hr).1, fun r w'' hs => Holds.bind hok herr ((h w' hr).2 r w'' hs)⟩

theorem Holds.attempt {Q : Except ε (Except ε α) → W → Prop} :
    ∀ {p : Prog S ε α} {w : W}, Holds M At (fun x w => Q (.ok x) w) p w → Holds M At Q p.attempt w
  | .ret _, _, h => h
  | .fail _, _, h => h
  | .op _ _, _, h => fun w' hr => ⟨(h w' hr).1, fun r w'' hs => Holds.attempt ((h w' hr).2 r w'' hs)⟩

/-- A loop: an invariant indexed by the elements still to come. -/
theorem holds_forEach {Q : Except ε Unit → W → Prop} {A : List β → W → Prop} {f : β → Prog S ε Unit}
    (hA : Stable M (A [])) (hq : ∀ w, A [] w → Q (.ok ()) w)
    (hf : ∀ b bs w, A (b :: bs) w →
      Holds M At (fun x w => match x with | .ok _ => A bs w | .error e => Q (.error e) w) (f b) w) :
    ∀ (bs : List β) (w : W), A bs w → Holds M At Q (Prog.forEach f bs) w
  | [], _, h => holds_ret hA hq h
  | b :: bs, w, h => by
    refine Holds.bind (fun _ w' h' => ?_) (fun _ _ h' => ?_) (hf b bs w h)
    · exact holds_forEach hA hq hf bs w' h'
    · exact h'

/-- A fold: an invariant indexed by the elements still to come and the accumulator. -/
theorem holds_foldEach {Q : Except ε γ → W → Prop} {A : List β → γ → W → Prop} {f : γ → β → Prog S ε γ}
    (hA : ∀ c, Stable M (A [] c)) (hq : ∀ c w, A [] c w → Q (.ok c) w)
    (hf : ∀ b bs c w, A (b :: bs) c w →
      Holds M At (fun x w => match x with | .ok c' => A bs c' w | .error e => Q (.error e) w) (f c b) w) :
    ∀ (bs : List β) (c : γ) (w : W), A bs c w → Holds M At Q (Prog.foldEach f c bs) w
  | [], c, _, h => holds_ret (hA c) (hq c) h
  | b :: bs, c, w, h => by
    refine Holds.bind (fun c' w' h' => ?_) (fun _ _ h' => ?_) (hf b bs c w h)
    · exact holds_foldEach hA hq hf bs c' w' h'
    · exact h'

/-- An uninterrupted run ends in the postcondition. -/
theorem Holds.run {exec : (o : S.Op) → W → S.Res o × W} (hx : ∀ o w, M.step o w (exec o w).1 (exec o w).2) :
    ∀ {p : Prog S ε α} {w : W}, Holds M At Q p w → Q (p.run exec w).1 (p.run exec w).2
  | .ret _, w, h => h w (Rely.refl w)
  | .fail _, w, h => h w (Rely.refl w)
  | .op o k, w, h => Holds.run (p := k (exec o w).1) hx ((h w (Rely.refl w)).2 _ _ (hx o w))

end Rules

/-! ## Assertions a program keeps -/

/-- The assertion holds at the end of the program if it does at its start, and gives `At` on the way. -/
def Keeps (M : System S ε W) (At : S.Op → W → Prop) (A : W → Prop) (p : Prog S ε α) : Prop :=
  ∀ w, A w → Holds M At (fun _ w => A w) p w

section Keeps

variable {At : S.Op → W → Prop} {A : W → Prop}

theorem Keeps.ret (hA : Stable M A) (a : α) : Keeps M At A (.ret a : Prog S ε α) :=
  fun _ hw => holds_ret hA (fun _ h => h) hw

theorem Keeps.fail (hA : Stable M A) (e : ε) : Keeps M At A (.fail e : Prog S ε α) :=
  fun _ hw => holds_fail hA (fun _ h => h) hw

theorem Keeps.ofExcept (hA : Stable M A) : ∀ x : Except ε α, Keeps M At A (Prog.ofExcept x : Prog S ε α)
  | .ok a => .ret hA a
  | .error e => .fail hA e

theorem Keeps.op (hA : Stable M A) {o : S.Op} {k : S.Res o → Prog S ε α} (hat : ∀ w, A w → At o w)
    (hk : ∀ w r w', A w → M.step o w r w' → A w' ∧ Keeps M At A (k r)) : Keeps M At A (.op o k) := by
  intro w hw
  refine holds_op hA hat (fun w r w' hw hs => ?_) hw
  obtain ⟨hw', hr⟩ := hk w r w' hw hs
  exact hr w' hw'

theorem Keeps.bind {p : Prog S ε β} {f : β → Prog S ε α} (hp : Keeps M At A p) (hf : ∀ b, Keeps M At A (f b)) :
    Keeps M At A (p.bind f) :=
  fun w hw => Holds.bind (fun b w' hw' => hf b w' hw') (fun _ _ h => h) (hp w hw)

theorem Keeps.attempt {p : Prog S ε α} (hp : Keeps M At A p) : Keeps M At A p.attempt :=
  fun w hw => Holds.attempt (hp w hw)

theorem Keeps.forEach (hA : Stable M A) {f : β → Prog S ε Unit} {bs : List β} (hf : ∀ b ∈ bs, Keeps M At A (f b)) :
    Keeps M At A (Prog.forEach f bs) := by
  induction bs with
  | nil => exact .ret hA ()
  | cons b bs ih =>
    exact .bind (hf b List.mem_cons_self) fun _ => ih fun x hx => hf x (List.mem_cons_of_mem _ hx)

theorem Keeps.ite {c : Prop} [Decidable c] {p q : Prog S ε α} (hp : c → Keeps M At A p) (hq : ¬ c → Keeps M At A q) :
    Keeps M At A (if c then p else q) := by
  by_cases h : c
  · rw [if_pos h]
    exact hp h
  · rw [if_neg h]
    exact hq h

end Keeps

/-! ## What lasts -/

/-- An assertion that every step keeps. -/
structure Lasting (M : System S ε W) (B : W → Prop) : Prop where
  stable : Stable M B
  step : ∀ o w r w', M.step o w r w' → B w → B w'

theorem Lasting.holds {B : W → Prop} (hB : Lasting M B) {At : S.Op → W → Prop} {Q : Except ε α → W → Prop} :
    ∀ {p : Prog S ε α} {w : W}, Holds M At Q p w → B w → Holds M At (fun x w => Q x w ∧ B w) p w
  | .ret _, _, h, hw => fun w' hr => ⟨h w' hr, hB.stable.rely hr hw⟩
  | .fail _, _, h, hw => fun w' hr => ⟨h w' hr, hB.stable.rely hr hw⟩
  | .op o _, _, h, hw => fun w' hr =>
    ⟨(h w' hr).1, fun r w'' hs => hB.holds ((h w' hr).2 r w'' hs) (hB.step o w' r w'' hs (hB.stable.rely hr hw))⟩

/-- What lasts may be assumed on the way. -/
theorem Lasting.keeps {A B : W → Prop} (hB : Lasting M B) {At : S.Op → W → Prop} {p : Prog S ε α}
    (hp : ∀ w, A w → B w → Holds M At (fun _ w => A w) p w) : Keeps M At (fun w => A w ∧ B w) p :=
  fun w hw => hB.holds (hp w hw.1 hw.2) hw.2

/-! ## Footprints -/

/-- Every operation of the program is of one kind, whatever is answered. -/
def Prog.Only (P : S.Op → Prop) : Prog S ε α → Prop
  | .ret _ => True
  | .fail _ => True
  | .op o k => P o ∧ ∀ r, (k r).Only P

section Only

variable {P : S.Op → Prop}

theorem Prog.Only.bind {f : β → Prog S ε α} (hf : ∀ b, (f b).Only P) :
    ∀ {p : Prog S ε β}, p.Only P → (p.bind f).Only P
  | .ret b, _ => hf b
  | .fail _, _ => trivial
  | .op _ _, h => ⟨h.1, fun r => Prog.Only.bind hf (h.2 r)⟩

theorem Prog.Only.ite {c : Prop} [Decidable c] {p q : Prog S ε α} (hp : c → p.Only P) (hq : ¬ c → q.Only P) :
    (if c then p else q).Only P := by
  by_cases h : c
  · rw [if_pos h]
    exact hp h
  · rw [if_neg h]
    exact hq h

/-- The operations of one kind keep an assertion, so their programs do. -/
theorem Prog.Only.keeps {At : S.Op → W → Prop} {A : W → Prop} (hA : Stable M A) (hat : ∀ o w, P o → A w → At o w)
    (hstep : ∀ o w r w', P o → A w → M.step o w r w' → A w') : ∀ {p : Prog S ε α}, p.Only P → Keeps M At A p
  | .ret a, _ => .ret hA a
  | .fail e, _ => .fail hA e
  | .op o _, h => .op hA (fun w hw => hat o w h.1 hw) fun w r w' hw hs =>
    ⟨hstep o w r w' h.1 hw hs, Prog.Only.keeps hA hat hstep (h.2 r)⟩

end Only

/-! ## Invariants of runs -/

/-- The invariant of a configuration: `J` while no program runs, and `Holds` of the running one. -/
def Inv (M : System S ε W) (At : S.Op → W → Prop) (J : W → Prop) (c : Config S ε W) : Prop :=
  match c.thread with
  | none => J c.world
  | some p => Holds M At (fun _ w => J w) p c.world

/-- One step keeps the invariant. -/
theorem next_inv {At : S.Op → W → Prop} {J : W → Prop} (hidle : ∀ w w', J w → M.env false w w' → J w')
    (hstart : ∀ p w, M.start p w → J w → Holds M At (fun _ w => J w) p w)
    (hcut : ∀ o w, M.cut o w → At o w → J w) {c c' : Config S ε W} (hn : Next M c c') (hc : Inv M At J c) :
    Inv M At J c' := by
  cases hn with
  | idle h => exact hidle _ _ hc h
  | busy h => exact Holds.rely hc (.single h)
  | start h => exact hstart _ _ h hc
  | op h => exact (hc _ (Rely.refl _)).2 _ _ h
  | done => exact hc _ (Rely.refl _)
  | failed => exact hc _ (Rely.refl _)
  | cut h => exact hcut _ _ h (hc _ (Rely.refl _)).1

/-- The rule for runs: what the environment, every program that may be started and every cut keep
holds in every configuration reached. -/
theorem reach_inv {At : S.Op → W → Prop} {J : W → Prop} (hidle : ∀ w w', J w → M.env false w w' → J w')
    (hstart : ∀ p w, M.start p w → J w → Holds M At (fun _ w => J w) p w)
    (hcut : ∀ o w, M.cut o w → At o w → J w) {c c' : Config S ε W} (hr : Reach M c c') (hc : Inv M At J c) :
    Inv M At J c' := by
  induction hr with
  | refl => exact hc
  | tail _ hn ih => exact next_inv hidle hstart hcut hn ih

/-- What both the invariant and the assertions before operations give holds in every configuration. -/
theorem Inv.world {At : S.Op → W → Prop} {J B : W → Prop} (hj : ∀ w, J w → B w) (hat : ∀ o w, At o w → B w) :
    ∀ {c : Config S ε W}, Inv M At J c → B c.world
  | ⟨w, none⟩, h => hj w h
  | ⟨w, some (.ret _)⟩, h => hj w (h w (Rely.refl w))
  | ⟨w, some (.fail _)⟩, h => hj w (h w (Rely.refl w))
  | ⟨w, some (.op o _)⟩, h => hat o w (h w (Rely.refl w)).1

/-- What holds before the next operation of a running program. -/
theorem Inv.at {At : S.Op → W → Prop} {J : W → Prop} {w : W} {o : S.Op} {k : S.Res o → Prog S ε Unit}
    (h : Inv M At J ⟨w, some (.op o k)⟩) : At o w :=
  (h w (Rely.refl w)).1

/-! ## Runs that happen -/

theorem reach_rely (p : Prog S ε Unit) {w w' : W} (h : Rely M w w') : Reach M ⟨w, some p⟩ ⟨w', some p⟩ :=
  h.lift (fun u => (⟨u, some p⟩ : Config S ε W)) fun _ _ he => Next.busy he

/-- Each operation answered by a function of the world, after what others do first. -/
theorem reach_run {exec : (o : S.Op) → W → S.Res o × W} {I : W → Prop}
    (hx : ∀ o w, I w → I (exec o w).2 ∧ ∃ u, Rely M w u ∧ M.step o u (exec o w).1 (exec o w).2) :
    ∀ (p : Prog S ε Unit) (w : W), I w → Reach M ⟨w, some p⟩ ⟨(p.run exec w).2, none⟩
  | .ret _, _, _ => .single .done
  | .fail _, _, _ => .single .failed
  | .op o k, w, hw => by
    obtain ⟨hI, u, hr, hs⟩ := hx o w hw
    exact ((reach_rely _ hr).tail (.op hs)).trans (reach_run hx (k (exec o w).1) _ hI)

end Resumption
