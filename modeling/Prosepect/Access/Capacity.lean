/-
The number of accounts never exceeds the limit, in every run of the requests of everybody: whoever is
added was counted under the lock, and nobody else is added while it is held. Where an invite is
needed, the email of every account has been invited.
-/
import Prosepect.Access.SignInHolds
import Prosepect.Resumption.Locks

namespace Prosepect

open Time Resumption Tasks

namespace Access

variable {cfg : Config} {w w' : World} {c d : AccessRun}

/-! ## Users that go or stay -/

/-- Nobody is added; who goes makes room. -/
structure Fewer (w w' : World) : Prop where
  length : w'.users.length ≤ w.users.length
  registered : ∀ subject, registered w.users subject = true → registered w'.users subject = true ∨ w'.users.length < w.users.length

theorem Fewer.of_eq (h : w'.users = w.users) : Fewer w w' := by
  refine ⟨?_, fun subject hr => .inl ?_⟩
  · rw [h]
  · rw [h]
    exact hr

theorem fewer_deleteUser (w : World) (user : Uuid) : Fewer w (w.deleteUser user) := by
  refine ⟨List.length_filter_le _ _, fun subject hr => ?_⟩
  by_cases hall : ∀ u ∈ w.users, (!(u.id == user)) = true
  · refine .inl ?_
    show Access.registered (w.users.filter fun u => !(u.id == user)) subject = true
    rw [List.filter_eq_self.2 hall]
    exact hr
  · refine .inr ?_
    push Not at hall
    obtain ⟨u, hu, hgone⟩ := hall
    exact List.length_filter_lt_length_iff_exists.2 ⟨u, hu, hgone⟩

/-- Only a sign-in adds a user. -/
theorem Does.fewer {o : Op} {a : o.Answer} (h : Does cfg o w a w') (ho : ∀ user, o ≠ .ensureDevelopmentUser user)
    (hu : ∀ login, o ≠ .upsertUser login) : Fewer w w' := by
  cases h with
  | ensureDevelopmentUser => exact absurd rfl (ho _)
  | upsertUser => exact absurd rfl (hu _)
  | deleteUser => exact fewer_deleteUser _ _
  | recordLegalAcceptance =>
    unfold World.recordLegalAcceptance
    split
    · exact .of_eq rfl
    · exact .of_eq rfl
  | _ => exact .of_eq rfl

theorem upsertUser_length (w : World) (login : GoogleLoginResult) (now : DateTime) :
    (w.upsertUser login now).users.length = if registered w.users login.subject then w.users.length else w.users.length + 1 := by
  simp only [World.upsertUser]
  split
  · rw [List.length_map]
  · rw [List.length_append, List.length_singleton]

/-! ## What the lock protects -/

/-- What a transaction has read under the lock: there is room for the subject, and no more users than
were counted. -/
structure Read (limit : Int) (f : AccessRecord) (users : List User) : Prop where
  registered : ∀ subject, f.Did (.subjectRegistered subject) (.ok true) → registered users subject = true ∨ (users.length : Int) < limit
  counted : ∀ n : Int, f.Did .countUsers (.ok n) → (users.length : Int) ≤ n

structure Capped (cfg : Config) (limit : Int) (w : World) (ts : Multiset AccessTask) : Prop where
  within : (w.users.length : Int) ≤ limit
  lock : Protects (service cfg).tasks .lock (fun f => Read limit f w.users) w.locked ts

section Steps

variable {limit : Int} {ts : Multiset AccessTask} {t t' : AccessTask} {f : AccessRecord}

theorem Read.fewer (h : Read limit f w.users) (hw : (w.users.length : Int) ≤ limit) (hf : Fewer w w') : Read limit f w'.users := by
  have hlen : (w'.users.length : Int) ≤ w.users.length := by exact_mod_cast hf.length
  refine ⟨fun subject hd => ?_, fun n hd => le_trans hlen (h.counted n hd)⟩
  rcases h.registered subject hd with hr | hlt
  · rcases hf.registered subject hr with hr | hlt
    · exact .inl hr
    · have hlt' : (w'.users.length : Int) < w.users.length := by exact_mod_cast hlt
      exact .inr (lt_of_lt_of_le hlt' hw)
  · exact .inr (lt_of_le_of_lt hlen hlt)

/-- What an operation adds to what was read. -/
theorem Read.add {o : Op} {r : Except AppError o.Answer} (h : Read limit f w.users)
    (hr : ∀ subject, (⟨.subjectRegistered subject, .ok true⟩ : Entry AccessSig) = ⟨o, r⟩ → Access.registered w.users subject = true)
    (hn : ∀ n : Int, (⟨.countUsers, .ok n⟩ : Entry AccessSig) = ⟨o, r⟩ → (w.users.length : Int) ≤ n) : Read limit (done f o r) w.users := by
  refine ⟨fun subject hd => ?_, fun n hd => ?_⟩
  · rcases did_done_iff.1 hd with hd | heq
    · exact h.registered subject hd
    · exact .inl (hr subject heq)
  · rcases did_done_iff.1 hd with hd | heq
    · exact h.counted n hd
    · exact hn n heq

theorem Read.quiet {o : Op} (h : Read limit f w.users) (hq : Quiet o) (r : Except AppError o.Answer) : Read limit (done f o r) w.users := by
  refine h.add (fun subject heq => ?_) fun n heq => ?_
  · cases heq
    exact hq.elim
  · cases heq
    exact hq.elim

theorem Read.error {o : Op} (h : Read limit f w.users) (e : AppError) : Read limit (done f o (.error e)) w.users := by
  refine h.add (fun subject heq => ?_) fun n heq => ?_
  · cases heq
  · cases heq

/-- Users go, and the lock stays as it is. -/
theorem Capped.fewer (h : Capped cfg limit w ts) (hf : Fewer w w') (hl : w'.locked = w.locked) : Capped cfg limit w' ts := by
  have hlen : (w'.users.length : Int) ≤ w.users.length := by exact_mod_cast hf.length
  refine ⟨le_trans hlen h.within, ?_⟩
  rw [hl]
  exact h.lock.mono fun f hr => hr.fewer h.within hf

/-- Where there is room for the subject, a sign-in stays within the limit. -/
theorem within_upsertUser (hmax : cfg.maxUserAccounts = some limit) {login : GoogleLoginResult} (hroom : HasRoom cfg f login.subject)
    (hw : (w.users.length : Int) ≤ limit) (hread : Read limit f w.users) (now : DateTime) :
    ((w.upsertUser login now).users.length : Int) ≤ limit := by
  rw [upsertUser_length]
  split
  · exact hw
  · next hnew =>
    unfold HasRoom at hroom
    rw [hmax] at hroom
    have hlt : (w.users.length : Int) < limit := by
      rcases hroom.2 with hd | ⟨n, hd, hlt⟩
      · rcases hread.registered _ hd with hr | hlt
        · exact absurd hr hnew
        · exact hlt
      · exact lt_of_le_of_lt (hread.counted n hd) hlt
    push_cast
    omega

theorem HasRoom.guards (hmax : cfg.maxUserAccounts = some limit) {subject : String} (h : HasRoom cfg f subject) : f.guards = [.lock] := by
  unfold HasRoom at h
  rw [hmax] at h
  exact h.1

/-- A sign-in ends its transaction, with its row or without. -/
theorem Capped.upsert (hmax : cfg.maxUserAccounts = some limit) {login : GoogleLoginResult} {p p' : AccessProg Unit}
    {r : Except AppError User} (h : Capped cfg limit w (.running f p ::ₘ ts)) (hroom : HasRoom cfg f login.subject)
    (hw : w' = w.unlock ∨ ∃ now, w' = w.upsertUser login now) : Capped cfg limit w' (.running (done f (.upsertUser login) r) p' ::ₘ ts) := by
  have hguards := hroom.guards hmax
  have hmem : Guard.lock ∈ f.guards := by
    rw [hguards]
    exact List.mem_singleton_self _
  have hread := h.lock.holder _ (Multiset.mem_cons_self _ ts) hmem
  have hgone : Guard.lock ∉ (done f (.upsertUser login) r).guards := by
    show Guard.lock ∉ f.guards.erase .lock
    rw [hguards]
    exact List.not_mem_nil
  rcases hw with rfl | ⟨now, rfl⟩
  · exact ⟨h.within, h.lock.give hmem hgone⟩
  · exact ⟨within_upsertUser hmax hroom h.within hread now, h.lock.give hmem hgone⟩

/-- An operation that leaves the guards. -/
theorem Capped.same {o : Op} {r : Except AppError o.Answer} {p p' : AccessProg Unit} (h : Capped cfg limit w (.running f p ::ₘ ts))
    (hg : guardsAfter o r f.guards = f.guards) (hr : Read limit f w.users → Read limit (done f o r) w.users) :
    Capped cfg limit w (.running (done f o r) p' ::ₘ ts) :=
  ⟨h.within, h.lock.goOn hg fun _ hread => hr hread⟩

theorem guardsAfter_quiet {o : Op} (hq : Quiet o) (r : Except AppError o.Answer) (guards : List Guard) : guardsAfter o r guards = guards := by
  cases o with
  | lockAccounts | upsertUser => exact hq.elim
  | _ => rfl

theorem guardsAfter_error {o : Op} (ho : ∀ login, o ≠ .upsertUser login) (e : AppError) (guards : List Guard) :
    guardsAfter o (.error e) guards = guards := by
  cases o with
  | upsertUser => exact absurd rfl (ho _)
  | _ => rfl

theorem Does.locked {o : Op} {a : o.Answer} (h : Does cfg o w a w') (ho : o ≠ .lockAccounts) (hu : ∀ login, o ≠ .upsertUser login) :
    w'.locked = w.locked := by
  cases h with
  | lockAccounts => exact absurd rfl ho
  | upsertUser => exact absurd rfl (hu _)
  | ensureDevelopmentUser =>
    unfold World.ensureDevelopmentUser
    split <;> rfl
  | recordLegalAcceptance =>
    unfold World.recordLegalAcceptance
    split <;> rfl
  | _ => rfl

/-- What an operation that succeeds does to its task and the world. -/
theorem Capped.does {o : Op} {k : Except AppError o.Answer → AccessProg Unit} {a : o.Answer} (hdev : cfg.allowInsecureDevAuth = false)
    (hmax : cfg.maxUserAccounts = some limit) (h : Capped cfg limit w (.running f (.op o k) ::ₘ ts)) (hready : Ready cfg f o)
    (hs : Does cfg o w a w') : Capped cfg limit w' (.running (done f o (.ok a)) (k (.ok a)) ::ₘ ts) := by
  by_cases hq : Quiet o
  · have hl : w'.locked = w.locked := hs.locked (by rintro rfl; exact hq) (by rintro login rfl; exact hq)
    have hf : Fewer w w' := hs.fewer (ready_production hdev hready) (by rintro login rfl; exact hq)
    exact (h.same (guardsAfter_quiet hq _ _) fun hr => hr.quiet hq _).fewer hf hl
  · cases hs with
    | lockAccounts hfree =>
      obtain ⟨hguards, hunread, -⟩ := hready
      have hlock := h.lock
      rw [hfree] at hlock
      have hg : (done f .lockAccounts (.ok ())).guards = [.lock] := congrArg (Guard.lock :: ·) hguards
      have hread : Read limit (done f .lockAccounts (.ok ())) w.users := by
        refine ⟨fun subject hd => ?_, fun n hd => ?_⟩
        · rcases did_done_iff.1 hd with hd | heq
          · exact absurd hd (hunread.1 subject _)
          · cases heq
        · rcases did_done_iff.1 hd with hd | heq
          · exact absurd hd (hunread.2 _)
          · cases heq
      refine ⟨h.within, ?_⟩
      apply hlock.take
      · exact hg
      · exact hread
    | subjectRegistered =>
      refine h.same rfl fun hr => hr.add (fun subject heq => ?_) fun n heq => ?_
      · simp only [Sigma.mk.injEq, Op.subjectRegistered.injEq] at heq
        obtain ⟨rfl, heq⟩ := heq
        exact (Except.ok.inj (eq_of_heq heq)).symm
      · cases heq
    | countUsers =>
      refine h.same rfl fun hr => hr.add (fun subject heq => ?_) fun n heq => ?_
      · cases heq
      · simp only [Sigma.mk.injEq, true_and] at heq
        have hn : n = (w.users.length : Int) := Except.ok.inj (eq_of_heq heq)
        exact hn.ge
    | upsertUser => exact h.upsert hmax hready.1 (.inr ⟨_, rfl⟩)
    | _ => exact absurd trivial hq

theorem Capped.act {o : Op} {k : Except AppError o.Answer → AccessProg Unit} {r : Except AppError o.Answer}
    (hdev : cfg.allowInsecureDevAuth = false) (hmax : cfg.maxUserAccounts = some limit)
    (h : Capped cfg limit w (.running f (.op o k) ::ₘ ts)) (hready : Ready cfg f o) (hs : Step cfg o w r w') :
    Capped cfg limit w' (.running (done f o r) (k r) ::ₘ ts) := by
  have herror : ∀ e, (∀ login, o ≠ .upsertUser login) → Capped cfg limit w (.running (done f o (.error e)) (k (.error e)) ::ₘ ts) :=
    fun e ho => h.same (guardsAfter_error ho e _) fun hr => hr.error e
  cases hs with
  | does hd => exact h.does hdev hmax hready hd
  | failed hp ho => exact herror _ ho
  | aborted => exact h.upsert hmax hready.1 (.inl rfl)
  | @lost o w w' a e hd hp ho =>
    by_cases hu : ∃ login, o = .upsertUser login
    · obtain ⟨login, rfl⟩ := hu
      cases hd with
      | upsertUser => exact h.upsert hmax hready.1 (.inr ⟨_, rfl⟩)
    · have hu' : ∀ login, o ≠ .upsertUser login := fun login heq => hu ⟨login, heq⟩
      exact (herror _ hu').fewer (hd.fewer (ready_production hdev hready) hu') (hd.locked ho hu')
  | refused hp =>
    refine herror _ ?_
    rintro login rfl
    cases hp
  | unavailable hp =>
    refine herror _ ?_
    rintro login rfl
    cases hp
  | noSession | noAttempt | noAccount | noUser | noObjects | notHandled => exact herror _ nofun

end Steps

/-! ## Runs -/

theorem capped_of_reach {limit : Int} (hdev : cfg.allowInsecureDevAuth = false) (hmax : cfg.maxUserAccounts = some limit) (hlimit : 0 < limit)
    (hc : (service cfg).Reach .empty c) : Capped cfg limit c.world c.tasks := by
  induction hc with
  | init => exact ⟨le_of_lt hlimit, .empty⟩
  | tail hc hn ih =>
    cases hn with
    | start hs =>
      obtain ⟨r, -, rfl, rfl⟩ := hs
      exact ⟨ih.within, ih.lock.start List.not_mem_nil⟩
    | act hs => exact ih.act hdev hmax ((ensures cfg).ready hc (Multiset.mem_cons_self _ _)) hs
    | returned | failed | cancelled => exact ⟨ih.within, ih.lock.goOn rfl fun _ hr => hr⟩
    | @drop w w' ts gone f a g gs hg hr =>
      cases hr with
      | rollback =>
        have hmem : Guard.lock ∈ (service cfg).tasks.guards f := by
          rw [hg]
          exact List.mem_cons_self
        have hgone : Guard.lock ∉ (service cfg).tasks.guards ((service cfg).tasks.pop f) := by
          show Guard.lock ∉ ((service cfg).tasks.guards f).tail
          rw [hg]
          exact ih.lock.notMem_tail hg
        exact ⟨ih.within, ih.lock.give hmem hgone⟩
    | @ended w ts gone f a hg =>
      have hnone : Guard.lock ∉ (service cfg).tasks.guards f := by
        rw [hg]
        exact List.not_mem_nil
      exact ⟨ih.within, ih.lock.ended hnone⟩
    | idle hi =>
      obtain ⟨husers, -, -, -, hlocked⟩ := Idle.same hi
      exact ih.fewer (.of_eq husers) hlocked

/-- Where the number of accounts is limited, there are never more, whatever requests run at once. -/
theorem accounts_within_limit {limit : Int} (hdev : cfg.allowInsecureDevAuth = false) (hmax : cfg.maxUserAccounts = some limit)
    (hlimit : 0 < limit) (hc : (service cfg).Reach .empty c) : (c.world.users.length : Int) ≤ limit :=
  (capped_of_reach hdev hmax hlimit hc).within

/-- After the sign-in, nobody else may join. -/
theorem accounts_within_limit_of_one : ∃ c : AccessRun, (service someConfig).Reach .empty c ∧ c.world = signedInWorld ∧
    (c.world.users.length : Int) ≤ 1 := by
  obtain ⟨f, ts, -, -, h⟩ := reach_signedIn
  exact ⟨_, h, rfl, accounts_within_limit rfl rfl (by decide) h⟩

/-! ## Invites -/

def Invited (cfg : Config) (w : World) (email : String) : Prop := ∃ i ∈ w.invites, cfg.lower i.email = cfg.lower email

theorem Invited.grown {email : String} (h : Invited cfg w email) (hg : Grown w w') : Invited cfg w' email := by
  obtain ⟨i, hi, heq⟩ := h
  obtain ⟨i', hi', hemail⟩ := hg.invites i hi
  exact ⟨i', hi', by rw [hemail, heq]⟩

/-- Everybody is invited, and who was found to be is. -/
structure InvitedAll (cfg : Config) (c : AccessRun) : Prop where
  users : ∀ u ∈ c.world.users, Invited cfg c.world u.email
  found : ∀ f email, c.Has f → f.Did (.emailCanSignIn email) (.ok true) → Invited cfg c.world email

theorem invited_of_canSignIn (hall : ∀ u ∈ w.users, Invited cfg w u.email) {email : String} (h : emailCanSignIn cfg email w = true) :
    Invited cfg w email := by
  rw [emailCanSignIn, Bool.or_eq_true, List.any_eq_true, List.any_eq_true] at h
  rcases h with ⟨u, hu, heq⟩ | ⟨i, hi, heq⟩
  · obtain ⟨i, hi, hemail⟩ := hall u hu
    exact ⟨i, hi, hemail.trans (eq_of_beq heq)⟩
  · rw [Bool.and_eq_true] at heq
    exact ⟨i, hi, eq_of_beq heq.1⟩

/-- A sign-in changes the email of one user, or adds one. -/
theorem upsertUser_email {login : GoogleLoginResult} {now : DateTime} {u' : User} (h : u' ∈ (w.upsertUser login now).users) :
    u'.email = login.email ∨ ∃ u ∈ w.users, u.email = u'.email := by
  simp only [World.upsertUser] at h
  split at h
  · obtain ⟨u, hu, rfl⟩ := List.mem_map.1 h
    unfold signedInUser
    split
    · exact .inl rfl
    · exact .inr ⟨u, hu, rfl⟩
  · rcases List.mem_append.1 h with hu | hu
    · exact .inr ⟨u', hu, rfl⟩
    · rw [List.mem_singleton.1 hu]
      exact .inl rfl

theorem Does.emails {o : Op} {a : o.Answer} (h : Does cfg o w a w') (ho : ∀ user, o ≠ .ensureDevelopmentUser user) {u' : User}
    (hu : u' ∈ w'.users) : (∃ u ∈ w.users, u.email = u'.email) ∨ ∃ login, o = .upsertUser login ∧ u'.email = login.email := by
  cases h with
  | ensureDevelopmentUser => exact absurd rfl (ho _)
  | @upsertUser login w now =>
    rcases upsertUser_email hu with heq | hold
    · exact .inr ⟨login, rfl, heq⟩
    · exact .inl hold
  | deleteUser => exact .inl ⟨u', List.mem_of_mem_filter hu, rfl⟩
  | recordLegalAcceptance =>
    unfold World.recordLegalAcceptance at hu
    split at hu
    · exact .inl ⟨u', hu, rfl⟩
    · exact .inl ⟨u', hu, rfl⟩
  | _ => exact .inl ⟨u', hu, rfl⟩

theorem Step.emails {o : Op} {r : Except AppError o.Answer} (h : Step cfg o w r w') (ho : ∀ user, o ≠ .ensureDevelopmentUser user) {u' : User}
    (hu : u' ∈ w'.users) : (∃ u ∈ w.users, u.email = u'.email) ∨ ∃ login, o = .upsertUser login ∧ u'.email = login.email := by
  cases h with
  | does hd => exact hd.emails ho hu
  | lost hd => exact hd.emails ho hu
  | _ => exact .inl ⟨u', hu, rfl⟩

theorem Step.canSignIn {email : String} {b : Bool} (h : Step cfg (.emailCanSignIn email) w (.ok b) w') : b = emailCanSignIn cfg email w := by
  cases h with
  | does hd =>
    cases hd with
    | emailCanSignIn => rfl

/-- Users are invited after a step, if those whom it takes in are. -/
theorem InvitedAll.users_next (hdev : cfg.allowInsecureDevAuth = false) (hinvite : cfg.inviteOnly = true) (h : InvitedAll cfg c)
    (hc : (service cfg).Reach .empty c) (hn : (service cfg).Next c d) : ∀ u ∈ d.world.users, Invited cfg d.world u.email := by
  have hg := next_grown hdev hc hn
  intro u' hu'
  have hold : (∃ u ∈ c.world.users, u.email = u'.email) → Invited cfg d.world u'.email := by
    rintro ⟨u, hu, heq⟩
    rw [← heq]
    exact (h.users u hu).grown hg
  rcases (ensures cfg).next hc hn with ⟨f, o, r, hf, hready, hs⟩ | heq | ⟨g, hr⟩ | hi
  · rcases Step.emails hs (ready_production hdev hready) hu' with hu | ⟨login, rfl, heq⟩
    · exact hold hu
    · rw [heq]
      exact (h.found f login.email hf (hready.2.1 hinvite)).grown hg
  · rw [heq] at hu'
    exact hold ⟨u', hu', rfl⟩
  · rw [hr.eq] at hu'
    exact hold ⟨u', hu', rfl⟩
  · rw [hi.same.1] at hu'
    exact hold ⟨u', hu', rfl⟩

theorem InvitedAll.next (hdev : cfg.allowInsecureDevAuth = false) (hinvite : cfg.inviteOnly = true) (h : InvitedAll cfg c)
    (hc : (service cfg).Reach .empty c) (hn : (service cfg).Next c d) : InvitedAll cfg d := by
  have hg := next_grown hdev hc hn
  refine ⟨h.users_next hdev hinvite hc hn, fun f email hf hd => ?_⟩
  rcases hn.has hf with hold | ⟨p, q, -, rfl, -⟩ | ⟨g, o, k, r, ht, hs, rfl⟩ | ⟨g, a, x, gs, ht, -, -, rfl⟩
  · exact (h.found f email hold hd).grown hg
  · exact absurd hd List.not_mem_nil
  · rcases did_done_iff.1 hd with hd | heq
    · exact (h.found g email (.inl ⟨_, ht, rfl⟩) hd).grown hg
    · cases heq
      exact (invited_of_canSignIn h.users (Step.canSignIn hs).symm).grown hg
  · exact (h.found g email (.inl ⟨_, ht, rfl⟩) hd).grown hg

/-- Where an invite is needed, the email of every account has been invited: also where the account that
had it was deleted, or the email of an account has changed. -/
theorem accounts_invited (hdev : cfg.allowInsecureDevAuth = false) (hinvite : cfg.inviteOnly = true) (hc : (service cfg).Reach .empty c) :
    ∀ u ∈ c.world.users, ∃ i ∈ c.world.invites, cfg.lower i.email = cfg.lower u.email := by
  have hall : InvitedAll cfg c := by
    induction hc with
    | init =>
      refine ⟨fun u hu => absurd hu List.not_mem_nil, fun f email hf => ?_⟩
      rcases hf with ⟨t, ht, -⟩ | ⟨a, ha⟩
      · exact absurd ht (Multiset.notMem_zero t)
      · exact absurd ha List.not_mem_nil
    | tail hc hn ih => exact ih.next hdev hinvite hc hn
  exact hall.users

theorem accounts_invited_of_one : ∃ c : AccessRun, (service someConfig).Reach .empty c ∧ ∃ i ∈ c.world.invites, i.email = someUser.email := by
  obtain ⟨f, ts, -, -, h⟩ := reach_signedIn
  exact ⟨_, h, accounts_invited rfl rfl h someUser (List.mem_singleton_self _)⟩

end Access

end Prosepect
