/-
Resumption programs whose tasks keep a record: what was asked, the guards, and every operation with
its answer, in order. A record only grows, so what it says of the past stays.

- `Record`, `Record.Later`: records, and what grows in them;
- `Service`: requests and their programs over one world; `Service.tasks`: with records as frames;
- `Service.Ensures`: what programs make sure of before an operation, which so holds of what is on record;
- `Service.Ensures.facts`: what an operation leaves true, of everything on record;
- `Service.Ensures.origin`: what there is, an operation on record has made;
- `Service.logged`: everything of one kind on all records, and what a step adds to it.
-/
import Mathlib.Data.Multiset.Bind
import Mathlib.Tactic.Abel
import Prosepect.Resumption.Guards

namespace Resumption

/-- An operation and its answer. -/
abbrev Entry (S : Sig) : Type := (o : S.Op) × S.Res o

structure Record (S : Sig) (R G : Type) where
  request : R
  guards : List G
  /-- The first operation first. -/
  log : List (Entry S)

namespace Record

variable {S : Sig} {R G : Type} {f g : Record S R G} {o : S.Op} {r : S.Res o}

def arrived (request : R) : Record S R G := ⟨request, [], []⟩

/-- The operation was done, and answered so. -/
def Did (f : Record S R G) (o : S.Op) (r : S.Res o) : Prop := ⟨o, r⟩ ∈ f.log

/-- What the record may become. -/
structure Later (f g : Record S R G) : Prop where
  request : g.request = f.request
  log : f.log <+: g.log

@[refl] theorem Later.refl (f : Record S R G) : f.Later f := ⟨rfl, List.prefix_refl _⟩

theorem Later.trans {k : Record S R G} (h : f.Later g) (h' : g.Later k) : f.Later k :=
  ⟨h'.request.trans h.request, h.log.trans h'.log⟩

theorem Later.did (h : f.Later g) (hd : f.Did o r) : g.Did o r := h.log.subset hd

/-- The record with one operation more. -/
def add (f : Record S R G) (guards : List G) (o : S.Op) (r : S.Res o) : Record S R G := ⟨f.request, guards, f.log ++ [⟨o, r⟩]⟩

theorem later_add (f : Record S R G) (guards : List G) (o : S.Op) (r : S.Res o) : f.Later (f.add guards o r) :=
  ⟨rfl, List.prefix_append _ _⟩

theorem did_add (f : Record S R G) (guards : List G) (o : S.Op) (r : S.Res o) : (f.add guards o r).Did o r :=
  List.mem_append_right _ (List.mem_singleton_self _)

end Record

/-- Requests over one world: what operations do, which guards they take, and the program of each request. -/
structure Service (S : Sig) (ε W R G : Type) where
  step : (o : S.Op) → W → S.Res o → W → Prop
  /-- The guards after an operation. -/
  guards : (o : S.Op) → S.Res o → List G → List G
  release : G → W → W → Prop
  idle : W → W → Prop
  accepts : R → Prop
  program : R → Prog S ε Unit

namespace Service

variable {S : Sig} {ε W R G : Type} (M : Service S ε W R G)

/-- The requests as tasks, with their records. -/
def tasks : Holding S ε W (Record S R G) G where
  step := M.step
  after o r f := f.add (M.guards o r f.guards) o r
  guards := Record.guards
  pop f := { f with guards := f.guards.tail }
  release := M.release
  idle := M.idle
  start f p := ∃ r, M.accepts r ∧ f = .arrived r ∧ p = M.program r

abbrev Run (S : Sig) (ε W R G : Type) : Type := Tasks S ε W (Record S R G)

/-- The states of a run that begins in a world without tasks. -/
abbrev Reach (w : W) (c : Run S ε W R G) : Prop := Tasks.Reach M.tasks w c

abbrev Next (c d : Run S ε W R G) : Prop := Tasks.Next M.tasks c d

/-- What every program makes sure of before an operation, whatever is answered to it. -/
def Ensures (P : Record S R G → S.Op → Prop) : Prop :=
  ∃ (E : Record S R G → ε → Prop) (Q : Record S R G → Unit → Prop),
    ∀ r, M.accepts r → M.tasks.Throughout P E Q (.arrived r) (M.program r)

variable {M} {c d : Run S ε W R G} {f : Record S R G} {w : W}

/-! ## Records grow -/

theorem later_pop (f : Record S R G) : f.Later (M.tasks.pop f) := ⟨rfl, List.prefix_refl _⟩

/-- No record is lost. -/
theorem Next.later (h : Next M c d) (hf : c.Has f) : ∃ g, d.Has g ∧ f.Later g := by
  -- A task of the rest, and one that is gone, is as it was; the one that made the step goes on.
  rcases hf with ⟨t, ht, rfl⟩ | ⟨a, ha⟩
  · cases h with
    | start | idle =>
      refine ⟨_, .inl ⟨t, ?_, rfl⟩, .refl _⟩
      first
        | exact Multiset.mem_cons_of_mem ht
        | exact ht
    | act =>
      rcases Multiset.mem_cons.1 ht with rfl | ht
      · exact ⟨_, .inl ⟨_, Multiset.mem_cons_self _ _, rfl⟩, Record.later_add _ _ _ _⟩
      · exact ⟨_, .inl ⟨t, Multiset.mem_cons_of_mem ht, rfl⟩, .refl _⟩
    | returned | failed | cancelled =>
      rcases Multiset.mem_cons.1 ht with rfl | ht
      · exact ⟨_, .inl ⟨_, Multiset.mem_cons_self _ _, rfl⟩, .refl _⟩
      · exact ⟨_, .inl ⟨t, Multiset.mem_cons_of_mem ht, rfl⟩, .refl _⟩
    | drop =>
      rcases Multiset.mem_cons.1 ht with rfl | ht
      · exact ⟨_, .inl ⟨_, Multiset.mem_cons_self _ _, rfl⟩, later_pop _⟩
      · exact ⟨_, .inl ⟨t, Multiset.mem_cons_of_mem ht, rfl⟩, .refl _⟩
    | ended =>
      rcases Multiset.mem_cons.1 ht with rfl | ht
      · exact ⟨_, .inr ⟨_, List.mem_cons_self⟩, .refl _⟩
      · exact ⟨_, .inl ⟨t, ht, rfl⟩, .refl _⟩
  · refine ⟨f, .inr ⟨a, ?_⟩, .refl f⟩
    cases h with
    | ended => exact List.mem_cons_of_mem _ ha
    | _ => exact ha

/-! ## What is on record -/

section Facts

variable {P : Record S R G → S.Op → Prop}

/-- Before an operation, a running task has what its program makes sure of. -/
theorem Ensures.ready (hP : M.Ensures P) (h : Reach M w c) {o : S.Op} {k : S.Res o → Prog S ε Unit}
    (ht : Task.running f (.op o k) ∈ c.tasks) : P f o := by
  obtain ⟨E, Q, hstart⟩ := hP
  have hrun : M.tasks.Throughout P E Q f (.op o k) := by
    refine Holding.Throughout.run (fun f p hs => ?_) h ht
    obtain ⟨r, hr, rfl, rfl⟩ := hs
    exact hstart r hr
  exact hrun.1

/-- A step is that of an operation its program had made sure of, or leaves the world, drops a guard or
is the world's own. -/
theorem Ensures.next (hP : M.Ensures P) (h : Reach M w c) (hn : Next M c d) :
    (∃ f o r, c.Has f ∧ P f o ∧ M.step o c.world r d.world) ∨ d.world = c.world ∨ (∃ g, M.release g c.world d.world) ∨
      M.idle c.world d.world := by
  cases hn with
  | @act w₀ w' ts gone f o k r hs =>
    have ht : Task.running f (.op o k) ∈ Task.running f (.op o k) ::ₘ ts := Multiset.mem_cons_self _ _
    exact .inl ⟨f, o, r, .inl ⟨_, ht, rfl⟩, hP.ready h ht, hs⟩
  | drop _ hr => exact .inr (.inr (.inl ⟨_, hr⟩))
  | idle hi => exact .inr (.inr (.inr hi))
  | start | returned | failed | cancelled | ended => exact .inr (.inl rfl)

/-- Where an operation is on record, its program had made sure of it. -/
theorem Ensures.logged (hP : M.Ensures P) (h : Reach M w c) (hf : c.Has f) {pre post : List (Entry S)} {o : S.Op} {r : S.Res o}
    (hlog : f.log = pre ++ ⟨o, r⟩ :: post) : ∃ guards, P ⟨f.request, guards, pre⟩ o := by
  induction h generalizing f pre post o r with
  | init =>
    rcases hf with ⟨t, ht, -⟩ | ⟨a, ha⟩
    · exact absurd ht (Multiset.notMem_zero t)
    · exact absurd ha List.not_mem_nil
  | tail h hn ih =>
    rcases hn.has hf with hold | ⟨p, q, -, rfl, -⟩ | ⟨g, o', k, r', ht, -, rfl⟩ | ⟨g, a, x, gs, ht, -, -, rfl⟩
    · exact ih hold hlog
    · cases pre with
      | nil => cases hlog
      | cons => cases hlog
    · -- The entry is the new one, or it was there.
      have hlog' : g.log ++ [⟨o', r'⟩] = pre ++ ⟨o, r⟩ :: post := hlog
      rcases List.eq_nil_or_concat' post with rfl | ⟨post, e, rfl⟩
      · obtain ⟨rfl, heq⟩ := List.append_inj' hlog' rfl
        cases heq
        exact ⟨g.guards, hP.ready h ht⟩
      · rw [← List.cons_append, ← List.append_assoc] at hlog'
        exact ih (.inl ⟨_, ht, rfl⟩) (List.append_inj' hlog' rfl).1
    · exact ih (.inl ⟨_, ht, rfl⟩) hlog

theorem Ensures.did (hP : M.Ensures P) (h : Reach M w c) (hf : c.Has f) {o : S.Op} {r : S.Res o} (hd : f.Did o r) :
    ∃ g : Record S R G, g.Later f ∧ P g o := by
  obtain ⟨pre, post, hlog⟩ := List.append_of_mem hd
  obtain ⟨guards, hp⟩ := hP.logged h hf hlog
  refine ⟨⟨f.request, guards, pre⟩, ⟨rfl, ?_⟩, hp⟩
  rw [hlog]
  exact List.prefix_append _ _

/-- What an operation leaves true of its answer, and steps keep true, is true of everything on record. -/
theorem Ensures.facts (hP : M.Ensures P) {K : Run S ε W R G → Entry S → Prop}
    (hkeep : ∀ {c d : Run S ε W R G} {e : Entry S}, Reach M w c → Next M c d → K c e → K d e)
    (hdo : ∀ {c d : Run S ε W R G} {f : Record S R G} {o : S.Op} {r : S.Res o}, Reach M w c → Next M c d → c.Has f →
      (∀ e ∈ f.log, K c e) → P f o → M.step o c.world r d.world → K d ⟨o, r⟩)
    (h : Reach M w c) : ∀ f, c.Has f → ∀ e ∈ f.log, K c e := by
  induction h with
  | init =>
    rintro f (⟨t, ht, -⟩ | ⟨a, ha⟩)
    · exact absurd ht (Multiset.notMem_zero t)
    · exact absurd ha List.not_mem_nil
  | tail h hn ih =>
    intro f hf e he
    rcases hn.has hf with hold | ⟨p, q, -, rfl, -⟩ | ⟨g, o, k, r, ht, hs, rfl⟩ | ⟨g, a, x, gs, ht, -, -, rfl⟩
    · exact hkeep h hn (ih f hold e he)
    · exact absurd he List.not_mem_nil
    · have hg := ih g (.inl ⟨_, ht, rfl⟩)
      rcases List.mem_append.1 he with he | he
      · exact hkeep h hn (hg e he)
      · rw [List.mem_singleton.1 he]
        exact hdo h hn (.inl ⟨_, ht, rfl⟩) hg (hP.ready h ht) hs
    · exact hkeep h hn (ih g (.inl ⟨_, ht, rfl⟩) e he)

/-- What is there, and was not at the beginning, an operation on record has made. -/
theorem Ensures.origin (hP : M.Ensures P) {X : Type} (present : W → X → Prop) (made : X → Entry S → Prop) (hinit : ∀ x, ¬ present w x)
    (hdo : ∀ {c : Run S ε W R G} {w' : W} {f : Record S R G} {o : S.Op} {r : S.Res o} {x : X}, Reach M w c → c.Has f → P f o →
      M.step o c.world r w' → present w' x → present c.world x ∨ made x ⟨o, r⟩)
    (hrelease : ∀ {g : G} {w w' : W} {x : X}, M.release g w w' → present w' x → present w x)
    (hidle : ∀ {w w' : W} {x : X}, M.idle w w' → present w' x → present w x)
    (h : Reach M w c) {x : X} (hx : present c.world x) : ∃ f, c.Has f ∧ ∃ e ∈ f.log, made x e := by
  induction h with
  | init => exact absurd hx (hinit x)
  | @tail c d h hn ih =>
    -- Either it was there, or the operation of this step has made it.
    have hold : present c.world x → ∃ f, d.Has f ∧ ∃ e ∈ f.log, made x e := by
      intro hp
      obtain ⟨f, hf, e, he, hmade⟩ := ih hp
      obtain ⟨g, hg, hl⟩ := Next.later hn hf
      exact ⟨g, hg, e, hl.log.subset he, hmade⟩
    cases hn with
    | @act w₀ w' ts gone f o k r hs =>
      have ht : Task.running f (.op o k) ∈ Task.running f (.op o k) ::ₘ ts := Multiset.mem_cons_self _ _
      rcases hdo h (.inl ⟨_, ht, rfl⟩) (hP.ready h ht) hs hx with hp | hmade
      · exact hold hp
      · exact ⟨_, .inl ⟨_, Multiset.mem_cons_self _ _, rfl⟩, _, Record.did_add _ _ _ _, hmade⟩
    | drop _ hr => exact hold (hrelease hr hx)
    | idle hi => exact hold (hidle hi hx)
    | start | returned | failed | cancelled | ended => exact hold hx

end Facts

/-! ## Counting -/

section Counting

variable {X : Type} (x : Entry S → Option X)

/-- What one record says, of one kind. -/
def onRecord (f : Record S R G) : Multiset X := (f.log.filterMap x : List X)

/-- What is on record, of one kind: of the tasks, and of those that are gone. -/
def logged (c : Run S ε W R G) : Multiset X :=
  (c.tasks.bind fun t => onRecord x t.frame) + (c.gone : Multiset (Record S R G × Outcome ε)).bind fun d => onRecord x d.1

@[simp] theorem onRecord_arrived (r : R) : onRecord x (.arrived r : Record S R G) = 0 := rfl

@[simp] theorem onRecord_pop (f : Record S R G) : onRecord x (M.tasks.pop f) = onRecord x f := rfl

theorem onRecord_add (f : Record S R G) (guards : List G) (o : S.Op) (r : S.Res o) :
    onRecord x (f.add guards o r) = onRecord x f + ((x ⟨o, r⟩).toList : Multiset X) := by
  unfold onRecord Record.add
  rw [List.filterMap_append, ← Multiset.coe_add]
  cases hx : x ⟨o, r⟩ with
  | none =>
    rw [List.filterMap_cons_none hx]
    rfl
  | some y =>
    rw [List.filterMap_cons_some hx]
    rfl

@[simp] theorem logged_empty : logged x (⟨w, 0, []⟩ : Run S ε W R G) = 0 := rfl

/-- A step adds what the operation puts on record. -/
theorem Next.logged (h : Next M c d) :
    (∃ o r, M.step o c.world r d.world ∧ logged x d = logged x c + ((x ⟨o, r⟩).toList : Multiset X)) ∨
    (logged x d = logged x c ∧ (d.world = c.world ∨ (∃ g, M.release g c.world d.world) ∨ M.idle c.world d.world)) := by
  cases h with
  | act hs =>
    refine .inl ⟨_, _, hs, ?_⟩
    unfold Service.logged
    rw [Multiset.cons_bind, Multiset.cons_bind]
    show onRecord x (Record.add _ _ _ _) + _ + _ = _
    rw [onRecord_add]
    simp only [Task.frame]
    abel
  | start hs =>
    obtain ⟨r, -, rfl, rfl⟩ := hs
    refine .inr ⟨?_, .inl rfl⟩
    simp [Service.logged, Task.frame]
  | returned | failed | cancelled =>
    refine .inr ⟨?_, .inl rfl⟩
    simp [Service.logged, Task.frame]
  | drop _ hr =>
    refine .inr ⟨?_, .inr (.inl ⟨_, hr⟩)⟩
    simp [Service.logged, Task.frame]
  | ended =>
    refine .inr ⟨?_, .inl rfl⟩
    simp only [Service.logged, Multiset.cons_bind, ← Multiset.cons_coe, Task.frame]
    abel
  | idle hi => exact .inr ⟨rfl, .inr (.inr hi)⟩

/-- What one of the records says is on record. -/
theorem mem_logged {e : Entry S} {y : X} (hf : c.Has f) (he : e ∈ f.log) (hx : x e = some y) : y ∈ logged x c := by
  have hy : y ∈ onRecord x f := List.mem_filterMap.2 ⟨e, he, hx⟩
  rcases hf with ⟨t, ht, rfl⟩ | ⟨a, ha⟩
  · exact Multiset.mem_add.2 (.inl (Multiset.mem_bind.2 ⟨t, ht, hy⟩))
  · exact Multiset.mem_add.2 (.inr (Multiset.mem_bind.2 ⟨(f, a), ha, hy⟩))

end Counting

end Service

end Resumption
