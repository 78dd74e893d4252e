/-
Every run of the programs keeps the limits on stored attachments; what is refused would have
exceeded one of them, and what could not be stored is taken back.
-/
import Mathlib.Logic.Relation
import Prosepect.Content.StorageQuotaHolds

namespace Prosepect

open Time Resumption Tasks

namespace StorageQuota

variable {limits : StorageLimits}

/-! ## Runs -/

theorem runs_of_reach {c : QuotaTasks} (h : Reach (quota limits) .empty c) {f : Frame} {p : QuotaProg Unit}
    (ht : Resumption.Task.running f p ∈ c.tasks) : Runs limits (fun _ _ => True) f p := by
  refine Holding.Throughout.run (fun f p hs => ?_) h ht
  obtain ⟨user, r, rfl, rfl⟩ := hs
  exact runs_program user r

/-- What holds in every state of a run. -/
structure Holds (limits : StorageLimits) (c : QuotaTasks) : Prop where
  inv : Inv limits c.world c.tasks
  numbered : Numbered c.world
  known : ∀ f, c.Has f → Known limits c.world f

theorem Release.pending {g : Guard} {w w' : World} (h : Release g w w') : w'.pending = none := by
  cases h with
  | rollback => rfl
  | commit => rfl

theorem next_grown {c d : QuotaTasks} (h : Next (quota limits) c d) : Grown c.world d.world := by
  rcases h.world_cases with heq | ⟨o, r, hs⟩ | ⟨g, hr⟩ | hi
  · rw [heq]
    exact .refl _
  · exact Step.grown hs
  · exact Release.grown hr
  · exact Idle.grown hi

theorem pop_guards {f : Frame} {gs : List Guard} (h : f.guards = .lock :: gs) : f.pop.guards = f.guards.erase .lock := by
  show f.guards.tail = _
  rw [h]
  rfl

theorem Inv.next {c d : QuotaTasks} (h : Holds limits c) (hruns : ∀ f p, Resumption.Task.running f p ∈ c.tasks → Runs limits (fun _ _ => True) f p)
    (hn : Next (quota limits) c d) : Inv limits d.world d.tasks := by
  have hinv := h.inv
  cases hn with
  | start hs =>
    obtain ⟨user, r, rfl, rfl⟩ := hs
    exact hinv.start rfl
  | act hs =>
    have hk := h.known _ (.inl ⟨_, Multiset.mem_cons_self _ _, rfl⟩)
    exact hinv.act (hruns _ _ (Multiset.mem_cons_self _ _)).1 hk.read hs
  | returned | failed | cancelled => exact hinv.goOn rfl fun _ hr => hr
  | @drop w w' ts gone f a g gs hg hr =>
    have hguards : f.guards = g :: gs := hg
    cases hr with
    | rollback => exact hinv.unlock (hguards ▸ List.mem_cons_self) (pop_guards hguards) (.inr rfl)
    | commit => exact hinv.unlock (hguards ▸ List.mem_cons_self) (pop_guards hguards) (.inl rfl)
  | ended hg => exact hinv.ended hg
  | idle hi =>
    cases hi with
    | relink => exact hinv.shrink (shrinks_relink _ _)

theorem Known.next {c d : QuotaTasks} (h : Holds limits c) (hruns : ∀ f p, Resumption.Task.running f p ∈ c.tasks → Runs limits (fun _ _ => True) f p)
    (hn : Next (quota limits) c d) {f : Frame} (hf : d.Has f) : Known limits d.world f := by
  rcases hn.has hf with hold | ⟨p, user, r, rfl, -⟩ | ⟨g, o, k, r, ht, hs, rfl⟩ | ⟨g, a, x, gs, ht, hg, hr, rfl⟩
  · exact (h.known f hold).grown (next_grown hn)
  · exact Known.arrived _ _ _
  · exact (h.known g (.inl ⟨_, ht, rfl⟩)).act h.inv.within h.numbered (hruns _ _ ht).1 hs
  · have hk := h.known g (.inl ⟨_, ht, rfl⟩)
    exact hk.release (next_grown hn) (Release.pending hr) rfl rfl rfl rfl rfl

theorem holds_of_reach {c : QuotaTasks} (h : Reach (quota limits) .empty c) : Holds limits c := by
  induction h with
  | init =>
    refine ⟨Inv.empty, fun row hr => absurd hr List.not_mem_nil, fun f hf => ?_⟩
    rcases hf with ⟨t, ht, -⟩ | ⟨a, ha⟩
    · exact absurd ht (Multiset.notMem_zero t)
    · exact absurd ha List.not_mem_nil
  | tail h hn ih =>
    have hruns := fun f p ht => runs_of_reach h (f := f) (p := p) ht
    exact ⟨Inv.next ih hruns hn, ih.numbered.grown (next_grown hn), fun f hf => Known.next ih hruns hn hf⟩

/-! ## What was read -/

/-- A state of the run that leads to the other. -/
def Earlier (limits : StorageLimits) (e c : QuotaTasks) : Prop :=
  Reach (quota limits) .empty e ∧ Relation.ReflTransGen (Next (quota limits)) e c

theorem Earlier.tail {e c d : QuotaTasks} (h : Earlier limits e c) (hn : Next (quota limits) c d) : Earlier limits e d :=
  ⟨h.1, h.2.tail hn⟩

/-- What a request has read of the sums was so in an earlier state. -/
structure ReadThen (limits : StorageLimits) (c : QuotaTasks) (f : Frame) : Prop where
  user : ∀ n, f.userUsed = some n → ∃ e, Earlier limits e c ∧ n = usedBy f.user e.world.files
  total : ∀ n, f.totalUsed = some n → ∃ e, Earlier limits e c ∧ n = usedByAll e.world.files

theorem ReadThen.tail {c d : QuotaTasks} {f : Frame} (h : ReadThen limits c f) (hn : Next (quota limits) c d) : ReadThen limits d f := by
  constructor
  · intro n hf
    obtain ⟨e, he, hu⟩ := h.user n hf
    exact ⟨e, he.tail hn, hu⟩
  · intro n hf
    obtain ⟨e, he, hu⟩ := h.total n hf
    exact ⟨e, he.tail hn, hu⟩

theorem ReadThen.same {c : QuotaTasks} {f g : Frame} (h : ReadThen limits c f) (hu : g.user = f.user) (hr : g.userUsed = f.userUsed)
    (ht : g.totalUsed = f.totalUsed) : ReadThen limits c g := by
  constructor
  · rw [hu, hr]
    exact h.user
  · rw [ht]
    exact h.total

/-- An operation reads the sums of the state it is in, or no sum. -/
theorem ReadThen.act {c : QuotaTasks} {w' : World} {f : Frame} {o : Op} {r : Except Failure o.Answer}
    (hc : Reach (quota limits) .empty c) (h : ReadThen limits c f) (hready : Ready limits f o) (hs : Step o c.world r w') :
    ReadThen limits c (f.after o r) := by
  have hnow : Earlier limits c c := ⟨hc, .refl⟩
  cases o with
  | userUsedBytes user =>
    obtain ⟨rfl, -⟩ := hready
    cases hs with
    | does hd =>
      cases hd
      exact ⟨fun n hn => ⟨c, hnow, (Option.some.inj hn).symm⟩, h.total⟩
    | failed | lost => exact h
  | totalUsedBytes =>
    cases hs with
    | does hd =>
      cases hd
      exact ⟨h.user, fun n hn => ⟨c, hnow, (Option.some.inj hn).symm⟩⟩
    | failed | lost => exact h
  | _ =>
    cases r with
    | ok a => exact h.same rfl rfl rfl
    | error e => exact h.same rfl rfl rfl

theorem readThen_of_reach {c : QuotaTasks} (h : Reach (quota limits) .empty c) : ∀ f, c.Has f → ReadThen limits c f := by
  induction h with
  | init =>
    rintro f (⟨t, ht, -⟩ | ⟨a, ha⟩)
    · exact absurd ht (Multiset.notMem_zero t)
    · exact absurd ha List.not_mem_nil
  | tail h hn ih =>
    intro f hf
    rcases hn.has hf with hold | ⟨p, user, r, rfl, -⟩ | ⟨g, o, k, r, ht, hs, rfl⟩ | ⟨g, a, x, gs, ht, -, -, rfl⟩
    · exact (ih f hold).tail hn
    · exact ⟨nofun, nofun⟩
    · exact ((ih g (.inl ⟨_, ht, rfl⟩)).act h (runs_of_reach h ht).1 hs).tail hn
    · exact ((ih g (.inl ⟨_, ht, rfl⟩)).same (g := g.pop) rfl rfl rfl).tail hn

/-! ## The limits hold -/

/-- What the answer of a request says of it. -/
def Said (limits : StorageLimits) (f : Frame) : Outcome AppError → Prop
  | .answered (.error e) => Ended limits f e
  | _ => True

theorem said_of_reach {c : QuotaTasks} (h : Reach (quota limits) .empty c) : ∀ d ∈ c.gone, Said limits d.1 d.2 := by
  have hstart : ∀ f p, (quota limits).start f p → Runs limits (fun _ _ => True) f p := by
    rintro f p ⟨user, r, rfl, rfl⟩
    exact runs_program user r
  refine (Holding.Throughout.outcomes (D := Said limits) hstart (fun _ _ => trivial) (fun f e he => he) (fun _ => trivial)
    (fun f a hd => ?_) h).2
  cases a with
  | cancelled => trivial
  | answered r =>
    cases r with
    | ok => trivial
    | error e =>
      have hd' : Ended limits f e := hd
      exact ⟨hd'.refused, hd'.unstored⟩

/-- Where a check has found no room, the sums and the bytes exceeded the limit. -/
theorem exceeded_of_refused {c : QuotaTasks} (h : Reach (quota limits) .empty c) {f : Frame} (hf : c.Has f) (hx : Exceeds limits f) :
    ∃ e, Earlier limits e c ∧
      (limits.user < usedBy f.user e.world.files + f.byteSize ∨ limits.total < usedByAll e.world.files + f.byteSize) := by
  have hk := (holds_of_reach h).known f hf
  have hr := readThen_of_reach h f hf
  have hle : limits.user ≤ 9223372036854775807 := le_trans limits.user_le_total limits.total_le
  rcases hx with ⟨n, hn, hlt⟩ | ⟨n, hn, hlt⟩
  · obtain ⟨hn₀, hnle⟩ := hk.read.user n hn
    obtain ⟨e, he, rfl⟩ := hr.user n hn
    rw [saturatingSub_eq hn₀ hnle hle] at hlt
    exact ⟨e, he, .inl (by omega)⟩
  · obtain ⟨hn₀, hnle⟩ := hk.read.total n hn
    obtain ⟨e, he, rfl⟩ := hr.total n hn
    rw [saturatingSub_eq hn₀ hnle limits.total_le] at hlt
    exact ⟨e, he, .inr (by omega)⟩

def someLimits : StorageLimits := ⟨10, 10, by decide, by decide, by decide⟩

def someUpload : Store.FileRequest := ⟨none, none, none, none, "", "note.txt", "text/plain", 3, 0, 0⟩

/-- The only task goes on. -/
theorem reach_act {w w' : World} {f : Frame} {p : QuotaProg Unit} {o : Op} {k : Except Failure o.Answer → QuotaProg Unit}
    {r : Except Failure o.Answer} (h : Reach (quota someLimits) .empty ⟨w, {.running f p}, []⟩) (hp : p = .op o k) (hs : Step o w r w') :
    Reach (quota someLimits) .empty ⟨w', {.running (f.after o r) (k r)}, []⟩ := by
  subst hp
  exact h.tail (.act (M := quota someLimits) hs)

/-- An upload whose bytes are not stored. -/
theorem reach_unstored : ∃ (w : World) (f : Frame), f.request = .uploadFile 5 someUpload ∧ f.deletion = some (0, .ok "1-5") ∧
    Reach (quota someLimits) .empty ⟨w, 0, [(f, .answered (.error storageError))]⟩ := by
  have h₀ : Reach (quota someLimits) .empty ⟨.empty, {.running (.arrived 1 (.uploadFile 5 someUpload))
      (program someLimits 1 (.uploadFile 5 someUpload))}, []⟩ := Reach.init.tail (.start ⟨1, _, rfl, rfl⟩)
  have h₁ := reach_act h₀ rfl (.does .verifyFileParent)
  have h₂ := reach_act h₁ rfl (.does .begin)
  have h₃ := reach_act h₂ rfl (.does (.lock rfl))
  have h₄ := reach_act h₃ rfl (.does .userUsedBytes)
  have h₅ := reach_act h₄ rfl (.does .totalUsedBytes)
  have h₆ := reach_act h₅ rfl (.does (@Does.insert _ _ _ 0 (by decide)))
  have h₇ := reach_act h₆ rfl (.does .commit)
  have h₈ := reach_act h₇ rfl .notStored
  have h₉ := reach_act h₈ rfl (.does (.deleteFileMetadata (List.mem_singleton_self _) rfl rfl))
  have h₁₀ := (h₉.tail .failed).tail (.ended (M := quota someLimits) rfl)
  exact ⟨_, _, rfl, rfl, h₁₀⟩

end StorageQuota

end Prosepect
