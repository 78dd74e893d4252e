/-
The limits on requests that run at the same time, over any run: those of an account, although its
slots are dropped from the map and made again, and those of all large requests.
-/
import Prosepect.Limits.Slots

namespace Prosepect

open Resumption Tasks

namespace RequestLimits

variable {σ : Type} {S : Semaphore σ} {available : σ → Nat}

/-- The request holds a permit of its account: `account_request` has returned, and the request has not ended. -/
def admittedBy (user : Uuid) : LimitTask → Bool
  | .running f _ => f.admitted && decide (f.user = some user)
  | .closing _ _ => false

/-- The handler of the route is at work on it. -/
def handling : LimitTask → Bool
  | .running _ (.op .handle _) => true
  | _ => false

def largeDownload (r : Request) : Bool := r.large && !r.upload

/-- Slots at an address are in use: something refers to them, or a request that has not ended has a
permit of them. A request that ends drops its reference before its last permits. -/
def Uses (a : Nat) : LimitTask → Prop
  | .running f _ => .account a ∈ f.guards ∨ ∃ k, .permit (.slot a k) ∈ f.guards
  | .closing f _ => .account a ∈ f.guards

/-- The paths that are not admitted by an account. -/
def freePaths : List (List Char) :=
  ["/auth/google/start".toList, "/auth/google/callback".toList, "/development/session".toList, "/session/logout".toList]

theorem freePaths_not_large (post get : Bool) : freePaths.all (fun path =>
    !((post && decide (path = "/files".toList)) || "/exports/".toList.isPrefixOf path || "/imports/".toList.isPrefixOf path ||
      (get && decide (path = "/notes".toList)) ||
      ("/files/".toList.isPrefixOf path && "/download".toList.isSuffixOf path))) = true := by
  revert post get
  decide

theorem not_large_of_free {r : Request} (h : r.authentication = true ∨ r.logout = true) : r.large = false := by
  have hmem : r.path ∈ freePaths := by
    rcases h with h | h
    · unfold Request.authentication at h
      rw [List.contains_iff_mem] at h
      exact List.mem_append_left ["/session/logout".toList] h
    · unfold Request.logout at h
      rw [Bool.and_eq_true, decide_eq_true_eq, decide_eq_true_eq] at h
      rw [h.2]
      exact List.mem_append_right
        ["/auth/google/start".toList, "/auth/google/callback".toList, "/development/session".toList] List.mem_cons_self
  have hnot := List.all_eq_true.1 (freePaths_not_large (decide (r.method = .post)) (decide (r.method = .get))) r.path hmem
  rw [Bool.not_eq_true'] at hnot
  exact hnot

section Limits

variable {c : LimitTasks σ}

/-- Slots in use are those the map has of the account. -/
theorem mapped_of_uses (hS : S.Counts available) (h : Reach (limits S) (World.default S) c) {t : LimitTask} (ht : t ∈ c.tasks)
    {a : Nat} (hu : Uses a t) : ∃ user, t.frame.user = some user ∧ c.world.accounts.lookup user = some a := by
  have hinv := (inv_of_reach hS h).1
  cases t with
  | closing f o => exact hinv.mapped _ ht a hu
  | running f p =>
    rcases hu with ha | ⟨k, hk⟩
    · exact hinv.mapped _ ht a ha
    · have hgood := (good_of_reach h ht).good
      exact hinv.mapped _ ht a (hgood.covered a k hk)

/-- An admitted request has its permits of the slots that the map has of its account. -/
theorem granted_of_admittedBy (hS : S.Counts available) (h : Reach (limits S) (World.default S) c) {t : LimitTask}
    (ht : t ∈ c.tasks) {user : Uuid} (hadm : admittedBy user t = true) :
    ∃ a, c.world.accounts.lookup user = some a ∧ t.frame.Granted a := by
  cases t with
  | closing f o => cases hadm
  | running f p =>
    simp only [admittedBy, Bool.and_eq_true, decide_eq_true_eq] at hadm
    obtain ⟨hadm, huser⟩ := hadm
    have hgood := (good_of_reach h ht).good
    obtain ⟨a, hgranted⟩ := hgood.granted hadm
    obtain ⟨other, hother, hl⟩ := mapped_of_uses hS h ht (.inl hgranted.account)
    obtain rfl : user = other := Option.some.inj (huser.symm.trans hother)
    exact ⟨a, hl, hgranted⟩

/-- As many requests of an account as have a permit of one kind. -/
theorem countP_le_capacity (hS : S.Counts available) (h : Reach (limits S) (World.default S) c) (user : Uuid) (k : SlotKind)
    {p : LimitTask → Bool} (hadm : ∀ t, p t = true → admittedBy user t = true)
    (hp : ∀ t a, p t = true → t.frame.Granted a → .permit (.slot a k) ∈ t.frame.guards) :
    c.tasks.countP (fun t => p t = true) ≤ (Sem.slot 0 k).capacity := by
  by_cases hnone : c.tasks.countP (fun t => p t = true) = 0
  · rw [hnone]
    exact Nat.zero_le _
  · -- One of them names the slots that all of them share.
    obtain ⟨t, ht, hpt⟩ := Multiset.countP_pos.1 (Nat.pos_of_ne_zero hnone)
    obtain ⟨b, hb, -⟩ := granted_of_admittedBy hS h ht (hadm t hpt)
    have hle : c.tasks.countP (fun t => p t = true) ≤ heldBy c.tasks (.permit (.slot b k)) := by
      rw [heldBy_eq S]
      refine countP_le_held fun u hu hpu => ?_
      obtain ⟨b', hb', hgranted⟩ := granted_of_admittedBy hS h hu (hadm u hpu)
      obtain rfl : b = b' := Option.some.inj (hb.symm.trans hb')
      exact hp u b hpu hgranted
    have hcap := (inv_of_reach hS h).1.permits (.slot b k)
    have heq : (Sem.slot b k).capacity = (Sem.slot 0 k).capacity := by cases k <;> rfl
    omega

/-- A large request that is no upload has a permit of all large requests when it is handled. -/
theorem large_permit (h : Reach (limits S) (World.default S) c) {t : LimitTask} (ht : t ∈ c.tasks)
    (hp : (handling t && largeDownload t.frame.request) = true) : .permit .large ∈ t.frame.guards := by
  rw [Bool.and_eq_true] at hp
  obtain ⟨hhandling, hlarge⟩ := hp
  unfold handling at hhandling
  split at hhandling
  · rename_i f k
    have hl : f.request.large = true ∧ f.request.upload = false := by
      simpa [largeDownload, Resumption.Task.frame] using hlarge
    have hready := (good_of_reach h ht).1.2
    rcases hready with hfree | hfree | ⟨-, hready⟩
    · rw [not_large_of_free (.inl hfree)] at hl
      cases hl.1
    · rw [not_large_of_free (.inr hfree)] at hl
      cases hl.1
    · exact hready hl.1 hl.2
  · cases hhandling

/-- What is handled was admitted by an account, but for the paths of authentication and logout. -/
theorem admitted_of_handling (h : Reach (limits S) (World.default S) c) {t : LimitTask} (ht : t ∈ c.tasks)
    (hp : handling t = true) :
    t.frame.request.authentication = true ∨ t.frame.request.logout = true ∨ ∃ user, admittedBy user t = true := by
  unfold handling at hp
  split at hp
  · rename_i f k
    have hruns := good_of_reach h ht
    refine hruns.1.2.imp id fun hr => hr.imp id fun hr => ?_
    have hgood := hruns.1.1
    obtain ⟨a, hgranted⟩ := hgood.granted hr.1
    obtain ⟨user, hu⟩ := hgood.named a hgranted.account
    exact ⟨user, by simp [admittedBy, hr.1, hu]⟩
  · cases hp

end Limits

/-- Counting, whoever waits. -/
def counter : Semaphore Nat := ⟨id, fun s t => s = t + 1, fun s t => t = s + 1, fun s t => t = s⟩

theorem counter_counts : counter.Counts id := by
  constructor
  · intro n
    rfl
  · intro s t h
    exact h
  · intro s t h
    exact h
  · intro s t h
    exact h

/-- An operation of a task is answered. -/
theorem reach_call {w w' : World Nat} {ts : Multiset LimitTask} {gone : List (Frame × Outcome AppError)} {f : Frame} {o : Op}
    {a : o.Answer} {k : o.Answer → LimitProg Unit}
    (h : Reach (limits counter) (World.default counter) ⟨w, .running f (call o >>= k) ::ₘ ts, gone⟩)
    (hs : Step counter o w (.ok a) w') :
    Reach (limits counter) (World.default counter) ⟨w', .running (f.after o (.ok a)) (k a) ::ₘ ts, gone⟩ :=
  h.tail (.act (M := limits counter) hs)

def createTask : Request := ⟨.post, "/api/v1/tasks".toList⟩

theorem createTask_slots : (accountRequest 7 createTask.write createTask.large >>= fun _ => acquire .requests >>= fun _ =>
      onlyIf (createTask.large && !createTask.upload) (acquire .large) >>= fun _ => nextRun createTask) =
    call (.account 7) >>= fun a => acquire (.slot a .requests) >>= fun _ => acquire (.slot a .writes) >>= fun _ =>
      call .accountPermit >>= fun _ => acquire .requests >>= fun _ => nextRun createTask := by
  -- The operations of `account_request` one after the other.
  refine (Prog.bind_assoc (call (.account 7)) _ _).trans (congrArg (Prog.bind (call (.account 7))) (funext fun a => ?_))
  refine (Prog.bind_assoc (acquire (.slot a .requests)) _ _).trans
    (congrArg (Prog.bind (acquire (.slot a .requests))) (funext fun _ => ?_))
  exact Prog.bind_assoc (acquire (.slot a .writes)) _ _

/-- `POST /tasks` is admitted. -/
theorem reach_createTask : ∃ (w : World Nat) (f : Frame) (p : LimitProg Unit), admittedBy 7 (.running f p) = true ∧
    Reach (limits counter) (World.default counter) ⟨w, {.running f p}, []⟩ := by
  have h₀ : Reach (limits counter) (World.default counter)
      ⟨World.default counter, .running (.arrived createTask) (acquire .requests >>= fun _ =>
        call .authenticate >>= fun user => admitted createTask user) ::ₘ 0, []⟩ := Reach.init.tail (.start ⟨createTask, rfl, rfl⟩)
  have h₁ := reach_call h₀ (.acquired (x := 31) rfl)
  have h₂ := reach_call h₁ (.authenticate (r := .ok 7))
  have h₃ := reach_call h₂ (.dropAdmission (x := 32) rfl)
  rw [createTask_slots] at h₃
  have h₄ := reach_call h₃ .account
  have h₅ := reach_call h₄ (.acquired (x := 7) rfl)
  have h₆ := reach_call h₅ (.acquired (x := 3) rfl)
  have h₇ := reach_call h₆ .accountPermit
  exact ⟨_, _, _, by rfl, h₇⟩

end RequestLimits

end Prosepect
