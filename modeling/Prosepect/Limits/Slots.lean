/-
The invariant of the limits on requests, over any run: every permit is with somebody or there to
be taken, and what refers to slots keeps them in the map.
-/
import Prosepect.Limits.Admission

namespace Prosepect

open Resumption Tasks

namespace RequestLimits

variable {σ : Type} {S : Semaphore σ} {available : σ → Nat}

abbrev LimitTask : Type := Resumption.Task LimitSig AppError Frame

abbrev LimitTasks (σ : Type) : Type := Tasks LimitSig AppError (World σ) Frame

/-- How many guards of one kind are held. -/
def heldBy (ts : Multiset LimitTask) (g : Guard) : Nat := (ts.map fun t => t.frame.guards.count g).sum

@[simp] theorem heldBy_cons (t : LimitTask) (ts : Multiset LimitTask) (g : Guard) :
    heldBy (t ::ₘ ts) g = t.frame.guards.count g + heldBy ts g := by
  simp [heldBy]

theorem heldBy_eq (S : Semaphore σ) (ts : Multiset LimitTask) (g : Guard) : heldBy ts g = held (limits S) ts g := rfl

/-- A task with a guard is one of those that hold it. -/
theorem heldBy_pos {ts : Multiset LimitTask} {t : LimitTask} {g : Guard} (ht : t ∈ ts) (hg : g ∈ t.frame.guards) :
    0 < heldBy ts g := by
  have hle : t.frame.guards.count g ≤ heldBy ts g := by
    obtain ⟨us, rfl⟩ := Multiset.exists_cons_of_mem ht
    rw [heldBy_cons]
    omega
  have hpos := List.count_pos_iff.2 hg
  omega

theorem heldBy_eq_zero {ts : Multiset LimitTask} {g : Guard} (h : ∀ t ∈ ts, g ∉ t.frame.guards) : heldBy ts g = 0 := by
  unfold heldBy
  rw [Multiset.sum_eq_zero_iff]
  intro n hn
  obtain ⟨t, ht, rfl⟩ := Multiset.mem_map.1 hn
  exact List.count_eq_zero.2 (h t ht)

structure Inv (available : σ → Nat) (w : World σ) (ts : Multiset LimitTask) : Prop where
  permits : ∀ s : Sem, available (w.sems s) + heldBy ts (.permit s) = s.capacity
  /-- The map refers to the slots, and so do those that hold them. -/
  strong : ∀ user a, w.accounts.lookup user = some a → w.strong a = 1 + heldBy ts (.account a)
  apart : ∀ user other a, w.accounts.lookup user = some a → w.accounts.lookup other = some a → user = other
  fresh : ∀ user a, w.accounts.lookup user = some a → a < w.fresh
  unused : ∀ a k, w.fresh ≤ a → heldBy ts (.permit (.slot a k)) = 0
  mapped : ∀ t ∈ ts, ∀ a, .account a ∈ t.frame.guards → ∃ user, t.frame.user = some user ∧ w.accounts.lookup user = some a
  balanced : ∀ t ∈ ts, t.frame.Balanced

theorem Inv.init (hS : S.Counts available) : Inv available (World.default S) 0 := by
  constructor
  · intro s
    exact hS.new s.capacity
  · intro user a h
    cases h
  · intro user other a h
    cases h
  · intro user a h
    cases h
  · intro a k _
    rfl
  · intro t ht
    exact absurd ht (Multiset.notMem_zero t)
  · intro t ht
    exact absurd ht (Multiset.notMem_zero t)

/-- A task goes on with another frame, and the world with it. -/
theorem Inv.replace {w w' : World σ} {ts : Multiset LimitTask} {t t' : LimitTask} (h : Inv available w (t ::ₘ ts))
    (hpermits : ∀ s, available (w'.sems s) + t'.frame.guards.count (.permit s) =
      available (w.sems s) + t.frame.guards.count (.permit s))
    (hstrong : ∀ user a, w.accounts.lookup user = some a →
      w'.strong a + t.frame.guards.count (.account a) = w.strong a + t'.frame.guards.count (.account a))
    (haccounts : w'.accounts = w.accounts) (hfresh : w'.fresh = w.fresh)
    (hunused : ∀ a k, w.fresh ≤ a → .permit (.slot a k) ∉ t'.frame.guards)
    (hmapped : ∀ a, .account a ∈ t'.frame.guards → ∃ user, t'.frame.user = some user ∧ w.accounts.lookup user = some a)
    (hbalanced : t'.frame.Balanced) : Inv available w' (t' ::ₘ ts) := by
  constructor
  · intro s
    have hold := h.permits s
    have hnew := hpermits s
    rw [heldBy_cons] at hold ⊢
    omega
  · intro user a ha
    rw [haccounts] at ha
    have hold := h.strong user a ha
    have hnew := hstrong user a ha
    rw [heldBy_cons] at hold ⊢
    omega
  · intro user other a ha hb
    rw [haccounts] at ha hb
    exact h.apart user other a ha hb
  · intro user a ha
    rw [haccounts] at ha
    rw [hfresh]
    exact h.fresh user a ha
  · intro a k ha
    rw [hfresh] at ha
    have hold := h.unused a k ha
    rw [heldBy_cons] at hold ⊢
    rw [List.count_eq_zero.2 (hunused a k ha)]
    omega
  · intro u hu a ha
    rw [haccounts]
    rcases Multiset.mem_cons.1 hu with rfl | hu
    · exact hmapped a ha
    · exact h.mapped u (Multiset.mem_cons_of_mem hu) a ha
  · intro u hu
    rcases Multiset.mem_cons.1 hu with rfl | hu
    · exact hbalanced
    · exact h.balanced u (Multiset.mem_cons_of_mem hu)

section Task

variable {w w' : World σ} {ts : Multiset LimitTask} {t t' : LimitTask} {f : Frame}

/-- No slot beyond the allocated ones is held by a task. -/
theorem Inv.not_unused (h : Inv available w (t ::ₘ ts)) {a : Nat} {k : SlotKind} (ha : w.fresh ≤ a) :
    .permit (.slot a k) ∉ t.frame.guards := by
  intro hmem
  have hpos := heldBy_pos (Multiset.mem_cons_self t ts) hmem
  rw [h.unused a k ha] at hpos
  omega

/-- The frame stays as it is, but for its user. -/
theorem Inv.same (h : Inv available w (t ::ₘ ts)) (hg : t'.frame.guards = t.frame.guards)
    (hu : ∀ user, t.frame.user = some user → t'.frame.user = some user) (ht : t'.frame.taken = t.frame.taken)
    (hr : t'.frame.returned = t.frame.returned) : Inv available w (t' ::ₘ ts) := by
  refine h.replace (fun s => by rw [hg]) (fun _ a _ => by rw [hg]) rfl rfl (fun a k ha => ?_) (fun a ha => ?_) ?_
  · rw [hg]
    exact h.not_unused ha
  · rw [hg] at ha
    obtain ⟨user, hu', hl⟩ := h.mapped t (Multiset.mem_cons_self t ts) a ha
    exact ⟨user, hu user hu', hl⟩
  · have hb := h.balanced t (Multiset.mem_cons_self t ts)
    intro s
    rw [ht, hr, hg]
    exact hb s

theorem put_sems (w : World σ) (s s' : Sem) (x : σ) : (w.put s x).sems s' = if s' = s then x else w.sems s' := by
  unfold World.put
  by_cases h : s' = s
  · subst h
    simp
  · simp [h]

theorem Inv.take {p p' : LimitProg Unit} {s : Sem} {x : σ} (hS : S.Counts available)
    (h : Inv available w (.running f p ::ₘ ts)) (hx : S.acquire (w.sems s) x)
    (hcovered : ∀ a k, .permit (.slot a k) ∈ (f.take s).guards → .account a ∈ (f.take s).guards) :
    Inv available (w.put s x) (.running (f.take s) p' ::ₘ ts) := by
  have hb := h.balanced _ (Multiset.mem_cons_self _ ts)
  have haccount : ∀ a, Guard.account a ∈ (f.take s).guards → .account a ∈ f.guards := by
    intro a ha
    rcases List.mem_cons.1 ha with heq | ha
    · cases heq
    · exact ha
  refine h.replace (fun s' => ?_) (fun _ a _ => ?_) rfl rfl (fun a k ha hmem => ?_) (fun a ha => ?_) (fun s' => ?_)
  · have hone := hS.acquire _ _ hx
    rw [put_sems]
    show _ + (Guard.permit s :: f.guards).count (.permit s') = _ + f.guards.count (.permit s')
    rw [List.count_cons]
    by_cases hs : s' = s
    · subst hs
      simp
      omega
    · simp [hs, Ne.symm hs]
  · show w.strong a + f.guards.count (.account a) = w.strong a + (Guard.permit s :: f.guards).count (.account a)
    rw [List.count_cons_of_ne (by simp)]
  · -- The slots of a permit are referred to, so that they are allocated.
    obtain ⟨user, -, hl⟩ := h.mapped _ (Multiset.mem_cons_self _ ts) a (haccount a (hcovered a k hmem))
    have hlt := h.fresh user a hl
    omega
  · exact h.mapped _ (Multiset.mem_cons_self _ ts) a (haccount a ha)
  · have hbs := hb s'
    show (s :: f.taken).count s' = f.returned.count s' + (Guard.permit s :: f.guards).count (.permit s')
    have hbs' : f.taken.count s' = f.returned.count s' + f.guards.count (.permit s') := hbs
    rw [List.count_cons, List.count_cons, hbs']
    by_cases hs : s = s'
    · subst hs
      simp
      omega
    · simp [hs]

theorem Inv.leave {p p' : LimitProg Unit} {x : σ} (hS : S.Counts available) (h : Inv available w (.running f p ::ₘ ts))
    (hx : S.release (w.sems .requests) x) (hmem : .permit .requests ∈ f.guards) :
    Inv available (w.put .requests x) (.running f.leave p' ::ₘ ts) := by
  have hb := h.balanced _ (Multiset.mem_cons_self _ ts)
  have hpos := List.count_pos_iff.2 hmem
  refine h.replace (fun s' => ?_) (fun _ a _ => ?_) rfl rfl (fun a k ha hin => ?_) (fun a ha => ?_) (fun s' => ?_)
  · have hone := hS.release _ _ hx
    rw [put_sems]
    show _ + (f.guards.erase (.permit .requests)).count (.permit s') = _ + f.guards.count (.permit s')
    rw [List.count_erase]
    by_cases hs : s' = .requests
    · subst hs
      simp
      omega
    · simp [hs, Ne.symm hs]
  · show w.strong a + f.guards.count (.account a) = w.strong a + (f.guards.erase (.permit .requests)).count (.account a)
    rw [List.count_erase_of_ne (by simp)]
  · exact h.not_unused ha (List.mem_of_mem_erase hin)
  · exact h.mapped _ (Multiset.mem_cons_self _ ts) a (List.mem_of_mem_erase ha)
  · have hbs : f.taken.count s' = f.returned.count s' + f.guards.count (.permit s') := hb s'
    show f.taken.count s' = (Sem.requests :: f.returned).count s' + (f.guards.erase (.permit .requests)).count (.permit s')
    rw [List.count_erase, List.count_cons, hbs]
    by_cases hs : s' = .requests
    · subst hs
      simp
      omega
    · simp [Ne.symm hs]

theorem Inv.enter {p p' : LimitProg Unit} (h : Inv available w (.running f p ::ₘ ts)) :
    Inv available w (.running f.enter p' ::ₘ ts) := by
  have hcount : ∀ g : Guard, f.guards.reverse.count g = f.guards.count g := fun g => List.count_reverse
  refine h.replace (fun s => ?_) (fun _ a _ => ?_) rfl rfl (fun a k ha hin => ?_) (fun a ha => ?_) (fun s => ?_)
  · exact congrArg (available (w.sems s) + ·) (hcount _)
  · exact congrArg (w.strong a + ·) (hcount _).symm
  · exact h.not_unused ha (List.mem_reverse.1 hin)
  · exact h.mapped _ (Multiset.mem_cons_self _ ts) a (List.mem_reverse.1 ha)
  · have hbs := h.balanced _ (Multiset.mem_cons_self _ ts) s
    show f.taken.count s = f.returned.count s + f.guards.reverse.count (.permit s)
    rw [hcount]
    exact hbs

/-- A guard of a task that ends is dropped. -/
theorem Inv.drop {a : Outcome AppError} {g : Guard} {gs : List Guard} (hS : S.Counts available)
    (h : Inv available w (.closing f a ::ₘ ts)) (hg : f.guards = g :: gs) (hr : Release S g w w') :
    Inv available w' (.closing f.pop a ::ₘ ts) := by
  have hb := h.balanced _ (Multiset.mem_cons_self _ ts)
  have hold : ∀ g', g' ∈ gs → g' ∈ f.guards := fun g' hg' => by rw [hg]; exact List.mem_cons_of_mem _ hg'
  have hpop : f.pop.guards = gs ∧ f.pop.user = f.user ∧ f.pop.taken = f.taken := by
    unfold Frame.pop
    rw [hg]
    cases g <;> exact ⟨rfl, rfl, rfl⟩
  obtain ⟨hguards, huser, htaken⟩ := hpop
  cases hr with
  | @permit s w x hx =>
    have hreturned : f.pop.returned = s :: f.returned := by
      unfold Frame.pop
      rw [hg]
    refine h.replace (fun s' => ?_) (fun _ a _ => ?_) rfl rfl (fun a k ha hin => ?_) (fun a ha => ?_) (fun s' => ?_)
    · have hone := hS.release _ _ hx
      rw [put_sems]
      show _ + f.pop.guards.count (.permit s') = _ + f.guards.count (.permit s')
      rw [hguards, hg, List.count_cons]
      by_cases hs : s' = s
      · subst hs
        simp
        omega
      · simp [hs, Ne.symm hs]
    · show w.strong a + f.guards.count (.account a) = w.strong a + f.pop.guards.count (.account a)
      rw [hguards, hg, List.count_cons_of_ne (by simp)]
    · have hin' : Guard.permit (.slot a k) ∈ f.pop.guards := hin
      rw [hguards] at hin'
      exact h.not_unused ha (hold _ hin')
    · have ha' : Guard.account a ∈ f.pop.guards := ha
      rw [hguards] at ha'
      show ∃ user, f.pop.user = some user ∧ _
      rw [huser]
      exact h.mapped _ (Multiset.mem_cons_self _ ts) a (hold _ ha')
    · have hbs : f.taken.count s' = f.returned.count s' + f.guards.count (.permit s') := hb s'
      show f.pop.taken.count s' = f.pop.returned.count s' + f.pop.guards.count (.permit s')
      rw [htaken, hreturned, hguards, hbs, hg, List.count_cons, List.count_cons]
      by_cases hs : s = s'
      · subst hs
        simp
        omega
      · simp [hs]
  | @account b w =>
    have hreturned : f.pop.returned = f.returned := by
      unfold Frame.pop
      rw [hg]
    have hmem : .account b ∈ f.guards := by rw [hg]; exact List.mem_cons_self
    refine h.replace (fun s' => ?_) (fun user a ha => ?_) rfl rfl (fun a k ha hin => ?_) (fun a ha => ?_) (fun s' => ?_)
    · show available (w.sems s') + f.pop.guards.count (.permit s') = _ + f.guards.count (.permit s')
      rw [hguards, hg, List.count_cons_of_ne (by simp)]
    · show Function.update w.strong b (w.strong b - 1) a + f.guards.count (.account a) = w.strong a + f.pop.guards.count (.account a)
      rw [hguards, hg, List.count_cons]
      by_cases hab : a = b
      · -- One of those that refer to the slots drops its reference.
        subst hab
        have hstrong := h.strong user a ha
        simp
        omega
      · simp [hab, Ne.symm hab]
    · have hin' : Guard.permit (.slot a k) ∈ f.pop.guards := hin
      rw [hguards] at hin'
      exact h.not_unused ha (hold _ hin')
    · have ha' : Guard.account a ∈ f.pop.guards := ha
      rw [hguards] at ha'
      show ∃ user, f.pop.user = some user ∧ _
      rw [huser]
      exact h.mapped _ (Multiset.mem_cons_self _ ts) a (hold _ ha')
    · have hbs : f.taken.count s' = f.returned.count s' + f.guards.count (.permit s') := hb s'
      show f.pop.taken.count s' = f.pop.returned.count s' + f.pop.guards.count (.permit s')
      rw [htaken, hreturned, hguards, hbs, hg, List.count_cons_of_ne (by simp)]

end Task

section Pool

variable {w : World σ} {ts : Multiset LimitTask} {f : Frame}

theorem Inv.start (h : Inv available w ts) (r : Request) : Inv available w (.running (.arrived r) (limitRequests r) ::ₘ ts) := by
  have hempty : ∀ g, heldBy (.running (.arrived r) (limitRequests r) ::ₘ ts) g = heldBy ts g := by
    intro g
    rw [heldBy_cons]
    exact Nat.zero_add _
  constructor
  · intro s
    rw [hempty]
    exact h.permits s
  · intro user a ha
    rw [hempty]
    exact h.strong user a ha
  · exact h.apart
  · exact h.fresh
  · intro a k ha
    rw [hempty]
    exact h.unused a k ha
  · intro t ht a ha
    rcases Multiset.mem_cons.1 ht with rfl | ht
    · exact absurd ha List.not_mem_nil
    · exact h.mapped t ht a ha
  · intro t ht
    rcases Multiset.mem_cons.1 ht with rfl | ht
    · intro s
      rfl
    · exact h.balanced t ht

/-- A task without guards goes. -/
theorem Inv.ended {t : LimitTask} (h : Inv available w (t ::ₘ ts)) (hg : t.frame.guards = []) : Inv available w ts := by
  have hempty : ∀ g, heldBy (t ::ₘ ts) g = heldBy ts g := by
    intro g
    rw [heldBy_cons, hg]
    exact Nat.zero_add _
  constructor
  · intro s
    rw [← hempty]
    exact h.permits s
  · intro user a ha
    rw [← hempty]
    exact h.strong user a ha
  · exact h.apart
  · exact h.fresh
  · intro a k ha
    rw [← hempty]
    exact h.unused a k ha
  · intro u hu
    exact h.mapped u (Multiset.mem_cons_of_mem hu)
  · intro u hu
    exact h.balanced u (Multiset.mem_cons_of_mem hu)

theorem Inv.idle {s : Sem} {x : σ} (hS : S.Counts available) (h : Inv available w ts) (hx : S.idle (w.sems s) x) :
    Inv available (w.put s x) ts := by
  refine ⟨fun s' => ?_, h.strong, h.apart, h.fresh, h.unused, h.mapped, h.balanced⟩
  have hp := h.permits s'
  rw [put_sems]
  by_cases hs : s' = s
  · subst hs
    rw [if_pos rfl, hS.idle _ _ hx]
    exact hp
  · rw [if_neg hs]
    exact hp

theorem Inv.reads (h : Inv available w ts) (l : LoginRateLimiter) : Inv available { w with reads := l } ts :=
  ⟨h.permits, h.strong, h.apart, h.fresh, h.unused, h.mapped, h.balanced⟩

/-- Nothing refers to slots that are not allocated yet. -/
theorem Inv.unheld (h : Inv available w ts) {a : Nat} (ha : w.fresh ≤ a) : heldBy ts (.account a) = 0 := by
  refine heldBy_eq_zero fun t ht hmem => ?_
  obtain ⟨user, -, hl⟩ := h.mapped t ht a hmem
  have hlt := h.fresh user a hl
  omega

/-- Slots that something refers to stay in the map. -/
theorem Inv.stays (h : Inv available w ts) {user : Uuid} {a : Nat} (hl : w.accounts.lookup user = some a)
    (hheld : 0 < heldBy ts (.account a)) : w.prune.accounts.lookup user = some a := by
  refine KeyMap.lookup_retain_eq_some.2 ⟨hl, ?_⟩
  have hstrong := h.strong user a hl
  unfold World.used
  rw [decide_eq_true_eq]
  omega

theorem Inv.prune (h : Inv available w ts) : Inv available w.prune ts := by
  have hold : ∀ {user a}, w.prune.accounts.lookup user = some a → w.accounts.lookup user = some a ∧ w.used user a = true :=
    fun hl => KeyMap.lookup_retain_eq_some.1 hl
  constructor
  · exact h.permits
  · intro user a hl
    obtain ⟨hl, hused⟩ := hold hl
    rw [← h.strong user a hl]
    -- The entries that go refer to other slots.
    have hnone : w.accounts.entries.countP (fun e => decide (e.2 = a) && !w.used e.1 e.2) = 0 := by
      rw [List.countP_eq_zero]
      intro e he hgone
      obtain ⟨other, b⟩ := e
      simp only [Bool.and_eq_true, decide_eq_true_eq, Bool.not_eq_true'] at hgone
      obtain ⟨rfl, hgone⟩ := hgone
      have hother : w.accounts.lookup other = some b := AList.mem_lookup_iff.2 he
      obtain rfl := h.apart user other b hl hother
      rw [hused] at hgone
      cases hgone
    show w.strong a - _ = w.strong a
    rw [hnone]
    rfl
  · intro user other a ha hb
    exact h.apart user other a (hold ha).1 (hold hb).1
  · intro user a ha
    exact h.fresh user a (hold ha).1
  · exact h.unused
  · intro t ht a ha
    obtain ⟨user, hu, hl⟩ := h.mapped t ht a ha
    exact ⟨user, hu, h.stays hl (heldBy_pos ht ha)⟩
  · exact h.balanced

/-- The reference that `account_request` clones. -/
theorem Inv.clone {p p' : LimitProg Unit} {user : Uuid} {a : Nat} (h : Inv available w (.running f p ::ₘ ts))
    (hu : f.user = some user) (hl : w.accounts.lookup user = some a) :
    Inv available (w.clone a) (.running (f.refer a) p' ::ₘ ts) := by
  have hb := h.balanced _ (Multiset.mem_cons_self _ ts)
  refine h.replace (fun s => ?_) (fun other b hb => ?_) rfl rfl (fun b k hfresh hin => ?_) (fun b hin => ?_) (fun s => ?_)
  · show _ + (Guard.account a :: f.guards).count (.permit s) = _ + f.guards.count (.permit s)
    rw [List.count_cons_of_ne (by simp)]
    rfl
  · show Function.update w.strong a (w.strong a + 1) b + f.guards.count (.account b) =
      w.strong b + (Guard.account a :: f.guards).count (.account b)
    rw [List.count_cons]
    by_cases hab : b = a
    · subst hab
      simp
      omega
    · simp [hab, Ne.symm hab]
  · rcases List.mem_cons.1 hin with heq | hin
    · cases heq
    · exact h.not_unused hfresh hin
  · rcases List.mem_cons.1 hin with heq | hin
    · cases heq
      exact ⟨user, hu, hl⟩
    · exact h.mapped _ (Multiset.mem_cons_self _ ts) b hin
  · show f.taken.count s = f.returned.count s + (Guard.account a :: f.guards).count (.permit s)
    rw [List.count_cons_of_ne (by simp)]
    exact hb s

/-- New slots for an account that has none in the map. -/
theorem Inv.allocate (hS : S.Counts available) (h : Inv available w ts) {user : Uuid} (hl : w.accounts.lookup user = none) :
    Inv available (w.allocate S user) ts := by
  have hlookup : ∀ other, (w.allocate S user).accounts.lookup other =
      if other = user then some w.fresh else w.accounts.lookup other := fun other => KeyMap.lookup_insert_eq _ _ _ _
  have hstrong : ∀ a, (w.allocate S user).strong a = if a = w.fresh then 1 else w.strong a := by
    intro a
    show Function.update w.strong w.fresh 1 a = _
    by_cases ha : a = w.fresh
    · subst ha
      simp
    · simp [ha]
  constructor
  · intro s
    cases s with
    | slot a k =>
      show available (if a = w.fresh then _ else _) + _ = _
      by_cases ha : a = w.fresh
      · rw [if_pos ha, hS.new, h.unused a k (by omega)]
        rfl
      · rw [if_neg ha]
        exact h.permits (.slot a k)
    | _ => exact h.permits _
  · intro other a ha
    rw [hlookup] at ha
    rw [hstrong]
    by_cases ho : other = user
    · rw [if_pos ho] at ha
      cases ha
      rw [if_pos rfl, h.unheld (Nat.le_refl _)]
    · rw [if_neg ho] at ha
      have hlt := h.fresh other a ha
      rw [if_neg (by omega)]
      exact h.strong other a ha
  · intro one other a ha hb
    rw [hlookup] at ha hb
    split at ha
    · split at hb
      · simp_all
      · cases ha
        have hlt := h.fresh other _ hb
        omega
    · split at hb
      · cases hb
        have hlt := h.fresh one _ ha
        omega
      · exact h.apart one other a ha hb
  · intro other a ha
    rw [hlookup] at ha
    show a < w.fresh + 1
    split at ha
    · cases ha
      omega
    · have hlt := h.fresh other a ha
      omega
  · intro a k ha
    have ha' : w.fresh + 1 ≤ a := ha
    exact h.unused a k (by omega)
  · intro t ht a ha
    obtain ⟨other, hu, hother⟩ := h.mapped t ht a ha
    refine ⟨other, hu, ?_⟩
    rw [hlookup, if_neg]
    · exact hother
    · rintro rfl
      rw [hl] at hother
      cases hother
  · exact h.balanced

theorem Inv.account {p p' : LimitProg Unit} {user : Uuid} (hS : S.Counts available)
    (h : Inv available w (.running f p ::ₘ ts)) (hu : f.user = some user) :
    Inv available (w.account S user).2 (.running (f.refer (w.account S user).1) p' ::ₘ ts) := by
  unfold World.account
  split
  · rename_i a hl
    exact h.prune.clone hu hl
  · rename_i hl
    refine (h.prune.allocate hS hl).clone hu ?_
    exact (KeyMap.lookup_insert_eq _ _ _ _).trans (if_pos rfl)

end Pool

/-! ## Runs -/

/-- Frames of tasks that are gone: all that was taken has come back. -/
def Settled (gone : List (Frame × Outcome AppError)) : Prop := ∀ d ∈ gone, d.1.taken.Perm d.1.returned

theorem Frame.Balanced.settled {f : Frame} (h : f.Balanced) (hg : f.guards = []) : f.taken.Perm f.returned := by
  rw [List.perm_iff_count]
  intro s
  have hs := h s
  rw [hg] at hs
  exact hs

/-- What an operation does to its task and the world. -/
theorem Inv.act {w w' : World σ} {ts : Multiset LimitTask} {f : Frame} {o : Op} {k : Except AppError o.Answer → LimitProg Unit}
    {r : Except AppError o.Answer} (hS : S.Counts available) (h : Inv available w (.running f (.op o k) ::ₘ ts))
    (hready : Ready f o) (hgood : (f.after o r).Good) (hs : Step S o w r w') :
    Inv available w' (.running (f.after o r) (k r) ::ₘ ts) := by
  cases hs with
  | acquired hx => exact h.take hS hx hgood.covered
  | account => exact h.account hS hready
  | dropAdmission hx => exact h.leave hS hx hready
  | accountPermit => exact h.enter
  | @authenticate w r =>
    cases r with
    | ok user =>
      have hnone : f.user = none := hready
      exact h.same rfl (fun _ hu => absurd (hnone.symm.trans hu) nofun) rfl rfl
    | error e => exact h.same rfl (fun _ hu => hu) rfl rfl
  | @checkReads user w now =>
    have hf : ∀ r : Except AppError Unit, f.after (.checkReads user) r = f := fun r => by cases r <;> rfl
    rw [hf]
    have hsame : Inv available w (.running f (k (w.reads.checkKey (toString user) now).1) ::ₘ ts) :=
      h.same rfl (fun _ hu => hu) rfl rfl
    exact hsame.reads _
  | busy | poisoned => exact h.same rfl (fun _ hu => hu) rfl rfl
  | @handle w r =>
    cases r with
    | ok => exact h.same rfl (fun _ hu => hu) rfl rfl
    | error => exact h.same rfl (fun _ hu => hu) rfl rfl

/-- A request is good at every point of a run. -/
theorem good_of_reach {c : LimitTasks σ} (h : Reach (limits S) (World.default S) c) {f : Frame} {p : LimitProg Unit}
    (ht : Resumption.Task.running f p ∈ c.tasks) : Runs S (fun g _ => g.Good) f p := by
  refine Holding.Throughout.run (fun f p hs => ?_) h ht
  obtain ⟨r, rfl, rfl⟩ := hs
  exact runs_limitRequests r

theorem Runs.good {f : Frame} {p : LimitProg Unit} (h : Runs S (fun g _ => g.Good) f p) : f.Good :=
  Holding.Throughout.here (fun _ _ hp => hp.1) (fun _ _ he => he) (fun _ _ hq => hq) h

theorem inv_of_reach (hS : S.Counts available) {c : LimitTasks σ} (h : Reach (limits S) (World.default S) c) :
    Inv available c.world c.tasks ∧ Settled c.gone := by
  induction h with
  | init => exact ⟨Inv.init hS, fun d hd => absurd hd List.not_mem_nil⟩
  | tail h hn ih =>
    obtain ⟨hinv, hgone⟩ := ih
    cases hn with
    | start hs =>
      obtain ⟨r, rfl, rfl⟩ := hs
      exact ⟨hinv.start r, hgone⟩
    | act hs =>
      have hruns := good_of_reach h (Multiset.mem_cons_self _ _)
      exact ⟨hinv.act hS hruns.1.2 (Runs.good (hruns.2 _ ⟨_, _, hs⟩)) hs, hgone⟩
    | returned | failed | cancelled => exact ⟨hinv.same rfl (fun _ hu => hu) rfl rfl, hgone⟩
    | drop hg hr => exact ⟨hinv.drop hS hg hr, hgone⟩
    | ended hg =>
      refine ⟨hinv.ended hg, fun d hd => ?_⟩
      rcases List.mem_cons.1 hd with rfl | hd
      · exact (hinv.balanced _ (Multiset.mem_cons_self _ _)).settled hg
      · exact hgone d hd
    | idle hi =>
      cases hi with
      | queue hx => exact ⟨hinv.idle hS hx, hgone⟩

end RequestLimits

end Prosepect
