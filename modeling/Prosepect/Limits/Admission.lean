/-
What the limits on requests promise, for any interleaving of requests that arrive, wait, time out,
end or are cancelled.

A request that refers to slots keeps its account in the map, so that all requests of an account
refer to the same slots (`Inv.mapped`); the permits of a semaphore are all with somebody or there
to be taken (`Inv.permits`).
-/
import Prosepect.Limits.RequestLimits

namespace Prosepect

open Resumption

namespace RequestLimits

variable {σ : Type} {S : Semaphore σ}

/-! ## What a request holds where it is -/

namespace Frame

/-- The request has what it needs of the slots at an address. -/
structure Granted (f : Frame) (a : Nat) : Prop where
  account : .account a ∈ f.guards
  request : .permit (.slot a .requests) ∈ f.guards
  write : f.request.write = true → .permit (.slot a .writes) ∈ f.guards
  large : f.request.large = true → .permit (.slot a .large) ∈ f.guards

/-- Until it ends, a request refers to the slots whose permits it has. -/
structure Good (f : Frame) : Prop where
  covered : ∀ a k, .permit (.slot a k) ∈ f.guards → .account a ∈ f.guards
  named : ∀ a, .account a ∈ f.guards → ∃ user, f.user = some user
  granted : f.admitted = true → ∃ a, f.Granted a

/-- What was taken and is not held has been given back. -/
def Balanced (f : Frame) : Prop := ∀ s, f.taken.count s = f.returned.count s + f.guards.count (.permit s)

@[simp] theorem after_error (o : Op) (e : AppError) (f : Frame) : f.after o (.error e) = f := by
  cases o <;> rfl

theorem Good.arrived (r : Request) : (arrived r).Good := by
  constructor
  · intro a k h
    exact absurd h (List.not_mem_nil)
  · intro a h
    exact absurd h (List.not_mem_nil)
  · intro h
    exact absurd h Bool.false_ne_true

theorem Granted.mono {f g : Frame} {a : Nat} (h : f.Granted a) (hr : g.request = f.request) (hs : f.guards ⊆ g.guards) :
    g.Granted a :=
  ⟨hs h.account, hs h.request, fun hw => hs (h.write (hr ▸ hw)), fun hl => hs (h.large (hr ▸ hl))⟩

theorem Good.take {f : Frame} (h : f.Good) {s : Sem} (hs : ∀ a k, s = .slot a k → .account a ∈ f.guards) : (f.take s).Good := by
  constructor
  · intro a k hk
    rcases List.mem_cons.1 hk with heq | hk
    · cases heq
      exact List.mem_cons_of_mem _ (hs a k rfl)
    · exact List.mem_cons_of_mem _ (h.covered a k hk)
  · intro a ha
    rcases List.mem_cons.1 ha with heq | ha
    · cases heq
    · exact h.named a ha
  · intro ha
    obtain ⟨a, hg⟩ := h.granted ha
    exact ⟨a, hg.mono rfl (List.subset_cons_self _ _)⟩

theorem Good.refer {f : Frame} (h : f.Good) {user : Uuid} (hu : f.user = some user) (a : Nat) : (f.refer a).Good := by
  constructor
  · intro b k hk
    rcases List.mem_cons.1 hk with heq | hk
    · cases heq
    · exact List.mem_cons_of_mem _ (h.covered b k hk)
  · intro b _
    exact ⟨user, hu⟩
  · intro ha
    obtain ⟨b, hg⟩ := h.granted ha
    exact ⟨b, hg.mono rfl (List.subset_cons_self _ _)⟩

theorem Good.leave {f : Frame} (h : f.Good) : f.leave.Good := by
  have hother : ∀ g : Guard, g ≠ .permit .requests → g ∈ f.guards → g ∈ f.leave.guards := fun g hne hg =>
    (List.mem_erase_of_ne hne).2 hg
  constructor
  · intro a k hk
    exact hother _ (by simp) (h.covered a k (List.mem_of_mem_erase hk))
  · intro a ha
    exact h.named a (List.mem_of_mem_erase ha)
  · intro ha
    obtain ⟨a, hg⟩ := h.granted ha
    exact ⟨a, hother _ (by simp) hg.account, hother _ (by simp) hg.request, fun hw => hother _ (by simp) (hg.write hw),
      fun hl => hother _ (by simp) (hg.large hl)⟩

theorem Good.enter {f : Frame} (h : f.Good) {a : Nat} (hg : f.Granted a) : f.enter.Good := by
  have hsub : f.guards ⊆ f.enter.guards := fun g hg => List.mem_reverse.2 hg
  constructor
  · intro b k hk
    exact hsub (h.covered b k (List.mem_reverse.1 hk))
  · intro b hb
    exact h.named b (List.mem_reverse.1 hb)
  · intro _
    exact ⟨a, hg.mono rfl hsub⟩

theorem Good.named_as {f : Frame} (h : f.Good) (user : Uuid) : ({ f with user := some user } : Frame).Good := by
  constructor
  · exact h.covered
  · intro a _
    exact ⟨user, rfl⟩
  · intro ha
    obtain ⟨a, hg⟩ := h.granted ha
    exact ⟨a, hg.mono rfl fun _ hx => hx⟩

end Frame

open RequestLimits.Frame

/-- What holds before an operation. -/
def Ready (f : Frame) : Op → Prop
  | .authenticate => f.user = none
  | .account user => f.user = some user
  | .dropAdmission => .permit .requests ∈ f.guards
  | .handle =>
    f.request.authentication = true ∨ f.request.logout = true ∨
      f.admitted = true ∧ (f.request.large = true → f.request.upload = false → .permit .large ∈ f.guards)
  | _ => True

/-- The request is good at every point, and ready for every operation. -/
def Runs {α : Type} (S : Semaphore σ) (Q : Frame → α → Prop) : Frame → LimitProg α → Prop :=
  (limits S).Throughout (fun f o => f.Good ∧ Ready f o) (fun f _ => f.Good) Q

section Runs

variable {α β : Type} {f : Frame}

theorem runs_bind {Q : Frame → β → Prop} {p : LimitProg α} {k : α → LimitProg β}
    (h : Runs S (fun f a => Runs S Q f (k a)) f p) : Runs S Q f (p >>= k) := Holding.Throughout.bind h

theorem runs_call {o : Op} {Q : Frame → o.Answer → Prop} (hg : f.Good) (hr : Ready f o)
    (hQ : ∀ a, Q (f.after o (.ok a)) a) : Runs S Q f (call o) := by
  refine ⟨⟨hg, hr⟩, fun r _ => ?_⟩
  cases r with
  | ok a => exact hQ a
  | error e =>
    show Good (f.after o (.error e))
    rw [after_error]
    exact hg

theorem runs_onlyIf {Q : Frame → Unit → Prop} {b : Bool} {p : LimitProg Unit} (hf : b = false → Q f ())
    (ht : b = true → Runs S Q f p) : Runs S Q f (onlyIf b p) := by
  cases b with
  | false => exact hf rfl
  | true => exact ht rfl

/-- The frame has grown by permits. -/
structure Grown (f g : Frame) : Prop where
  good : g.Good
  request : g.request = f.request
  user : g.user = f.user
  admitted : g.admitted = f.admitted
  sub : f.guards ⊆ g.guards

theorem runs_acquire {Q : Frame → Unit → Prop} {s : Sem} (hg : f.Good) (hs : ∀ a k, s = .slot a k → .account a ∈ f.guards)
    (hQ : ∀ g, Grown f g → .permit s ∈ g.guards → Q g ()) : Runs S Q f (acquire s) := by
  refine runs_call hg trivial fun _ => ?_
  exact hQ _ ⟨hg.take hs, rfl, rfl, rfl, List.subset_cons_self _ _⟩ List.mem_cons_self

theorem runs_acquireIf {Q : Frame → Unit → Prop} {s : Sem} {b : Bool} (hg : f.Good)
    (hs : ∀ a k, s = .slot a k → .account a ∈ f.guards)
    (hQ : ∀ g, Grown f g → (b = true → .permit s ∈ g.guards) → Q g ()) : Runs S Q f (onlyIf b (acquire s)) := by
  apply runs_onlyIf
  · rintro rfl
    exact hQ f ⟨hg, rfl, rfl, rfl, fun _ hx => hx⟩ fun h => absurd h Bool.false_ne_true
  · intro _
    exact runs_acquire hg hs fun g hgrown hmem => hQ g hgrown fun _ => hmem

/-- `account_request` grants what the request asks for. -/
theorem runs_accountRequest {Q : Frame → Unit → Prop} {user : Uuid} (hg : f.Good) (hu : f.user = some user)
    (hQ : ∀ g : Frame, g.Good → g.request = f.request → g.admitted = true → Q g ()) :
    Runs S Q f (accountRequest user f.request.write f.request.large) := by
  have hslot : ∀ {g : Frame} {a : Nat} {k : SlotKind}, .account a ∈ g.guards →
      ∀ b k', Sem.slot a k = .slot b k' → .account b ∈ g.guards := by
    rintro g a k ha b k' heq
    cases heq
    exact ha
  unfold accountRequest
  -- The rates of reads leave the frame as it is.
  have hreads : ∀ {Q : Frame → Unit → Prop}, Q f () → Runs S Q f (onlyIf (!f.request.write) (call (.checkReads user))) :=
    fun hQ => runs_onlyIf (fun _ => hQ) fun _ => runs_call hg trivial fun _ => hQ
  refine runs_bind (hreads (runs_bind (runs_call hg hu fun a => ?_)))
  have ha : .account a ∈ (f.refer a).guards := List.mem_cons_self
  refine runs_bind (runs_acquire (hg.refer hu a) (hslot ha) fun f₁ h₁ hrequest => ?_)
  refine runs_bind (runs_acquireIf h₁.good (hslot (h₁.sub ha)) fun f₂ h₂ hwrite => ?_)
  refine runs_bind (runs_acquireIf h₂.good (hslot (h₂.sub (h₁.sub ha))) fun f₃ h₃ hlarge => ?_)
  have hreq : f₃.request = f.request := by rw [h₃.request, h₂.request, h₁.request]; rfl
  have hgranted : f₃.Granted a := by
    refine ⟨h₃.sub (h₂.sub (h₁.sub ha)), h₃.sub (h₂.sub hrequest), fun hw => h₃.sub (hwrite ?_), fun hl => hlarge ?_⟩
    · exact hreq ▸ hw
    · exact hreq ▸ hl
  exact runs_call h₃.good trivial fun _ => hQ _ (h₃.good.enter hgranted) hreq rfl

theorem runs_nextRun (hg : f.Good) (hr : Ready f .handle) : Runs S (fun g _ => g.Good) f (nextRun f.request) := by
  unfold nextRun
  refine runs_bind (runs_acquireIf hg (by simp) fun g h _ => runs_call h.good ?_ fun _ => ?_)
  · unfold Ready at hr ⊢
    rw [h.request, h.admitted]
    refine hr.imp id fun hr => hr.imp id fun ⟨ha, hl⟩ => ⟨ha, fun h₁ h₂ => h.sub (hl h₁ h₂)⟩
  · exact h.good

theorem runs_admitted {user : Uuid} (hg : f.Good) (hu : f.user = some user) (ha : .permit .requests ∈ f.guards) :
    Runs S (fun g _ => g.Good) f (admitted f.request user) := by
  unfold admitted
  refine runs_bind (runs_call hg ha fun _ => ?_)
  have hleave : Runs S (fun g _ => Runs S (fun g _ => g.Good) g (do
      acquire .requests
      onlyIf (f.request.large && !f.request.upload) (acquire .large)
      nextRun f.request)) f.leave (accountRequest user f.request.write f.request.large) := by
    refine runs_accountRequest (f := f.leave) hg.leave hu fun g hgood hreq hadm => ?_
    refine runs_bind (runs_acquire hgood (by simp) fun g₁ h₁ _ => ?_)
    refine runs_bind (runs_acquireIf h₁.good (by simp) fun g₂ h₂ hlarge => ?_)
    have hr₂ : g₂.request = f.request := by rw [h₂.request, h₁.request, hreq]; rfl
    rw [← hr₂]
    refine runs_nextRun h₂.good (.inr (.inr ⟨?_, fun hl hup => hlarge ?_⟩))
    · rw [h₂.admitted, h₁.admitted, hadm]
    · rw [hr₂] at hl hup
      rw [hl, hup]
      rfl
  exact runs_bind hleave

/-- Every request is good throughout. -/
theorem runs_limitRequests (r : Request) : Runs S (fun g _ => g.Good) (arrived r) (limitRequests r) := by
  unfold limitRequests
  split
  · rename_i hauth
    refine runs_bind (runs_acquire (Good.arrived r) (by simp) fun g h _ => ?_)
    have hr : g.request = r := h.request
    rw [← hr]
    exact runs_nextRun h.good (.inl (by rw [hr]; exact hauth))
  · unfold authenticated
    refine runs_bind (runs_acquire (Good.arrived r) (by simp) fun g h hmem => ?_)
    have hr : g.request = r := h.request
    refine runs_bind (runs_call h.good h.user fun user => ?_)
    rw [← hr]
    by_cases hout : g.request.logout = true
    · rw [if_pos hout]
      exact runs_nextRun (f := { g with user := some user }) (h.good.named_as user) (.inr (.inl hout))
    · rw [if_neg hout]
      exact runs_admitted (f := { g with user := some user }) (h.good.named_as user) rfl hmem

end Runs

end RequestLimits

end Prosepect
