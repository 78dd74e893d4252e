/-
What is over stays over, in every run of the requests of everybody: a session that was ended, and all
that there was of an account that was deleted, whatever was under way meanwhile.
-/
import Prosepect.Access.SignInEnds

namespace Prosepect

open Time Resumption

namespace Access

variable {cfg : Config} {w w' : World} {c d : AccessRun}

/-! ## Sessions that were ended -/

/-- The token of a session that was found. -/
def authenticatedToken (cfg : Config) (e : Entry AccessSig) : Option (List UInt8) :=
  match e with
  | ⟨.authenticateSession token, .ok _⟩ => some (cfg.tokenHash token)
  | _ => none

/-- Nobody has a session with the token. -/
def NoSession (w : World) (hash : List UInt8) : Prop := ∀ s ∈ w.sessions, s.tokenHash ≠ hash

theorem noSession_deleteSession (cfg : Config) (w : World) (token : String) : NoSession (w.deleteSession cfg token) (cfg.tokenHash token) := by
  intro s hs
  simpa using (List.mem_filter.1 hs).2

/-- A session with the token is there after a step only if one was inserted by it, or was there before. -/
theorem NoSession.next {hash : List UInt8} (h : NoSession c.world hash) (hn : (service cfg).Next c d) :
    NoSession d.world hash ∨
      (Service.logged (insertedToken cfg) d).count hash = (Service.logged (insertedToken cfg) c).count hash + 1 := by
  rcases Service.Next.logged (insertedToken cfg) hn with ⟨o, r, hs, hlog⟩ | ⟨-, hw⟩
  · by_cases hnew : ∃ token user csrfToken expiresAt, o = .insertSession token user csrfToken expiresAt ∧ cfg.tokenHash token = hash
    · obtain ⟨token, user, csrfToken, expiresAt, rfl, rfl⟩ := hnew
      right
      rw [hlog, Multiset.count_add]
      exact congrArg _ (Multiset.count_singleton_self _)
    · left
      intro s hmem heq
      rcases Step.sessions hs hmem with hold | ⟨token, rfl, hhash⟩
      · exact h s hold heq
      · exact hnew ⟨token, _, _, _, rfl, hhash.trans heq⟩
  · left
    have hsame : d.world.sessions = c.world.sessions := by
      rcases hw with heq | ⟨g, hr⟩ | hi
      · rw [heq]
      · rw [hr.eq]
        rfl
      · exact hi.same.2.1
    intro s hmem
    rw [hsame] at hmem
    exact h s hmem

/-- What an answer on record says of the token it is about. -/
def Ended (cfg : Config) (c : AccessRun) (e : Entry AccessSig) : Prop :=
  match e with
  | ⟨.authenticateSession token, .ok _⟩ => cfg.tokenHash token ∈ Service.logged (insertedToken cfg) c
  | ⟨.deleteSession token, .ok _⟩ => cfg.tokenHash token ∈ Service.logged (insertedToken cfg) c ∧
      ((Service.logged (insertedToken cfg) c).count (cfg.tokenHash token) ≤ 1 → NoSession c.world (cfg.tokenHash token))
  | _ => True

theorem Ended.next {e : Entry AccessSig} (h : Ended cfg c e) (hn : (service cfg).Next c d) : Ended cfg d e := by
  have hle := logged_le hn
  unfold Ended at h ⊢
  split
  · exact Multiset.mem_of_le hle h
  · next token _ =>
    obtain ⟨hmem, hnone⟩ := h
    refine ⟨Multiset.mem_of_le hle hmem, fun hone => ?_⟩
    have hcount := Multiset.count_le_of_le (cfg.tokenHash token) hle
    have hpos := Multiset.count_pos.2 hmem
    rcases (hnone (by omega)).next hn with hno | hmore
    · exact hno
    · omega
  · trivial

theorem ended_error (o : Op) (e : AppError) : Ended cfg c ⟨o, .error e⟩ := by
  cases o <;> trivial

theorem Does.ended {o : Op} {a : o.Answer} (h : Does cfg o w a w') (hd : d.world = w')
    (hsessions : ∀ s ∈ w.sessions, s.tokenHash ∈ Service.logged (insertedToken cfg) d)
    (hdelete : ∀ token, o = .deleteSession token → cfg.tokenHash token ∈ Service.logged (insertedToken cfg) d) :
    Ended cfg d ⟨o, .ok a⟩ := by
  cases h with
  | @authenticateSession token w s now hs ha =>
    rw [authenticates, Bool.and_eq_true, beq_iff_eq] at ha
    show cfg.tokenHash token ∈ _
    rw [← ha.1]
    exact hsessions s hs
  | @deleteSession token w =>
    refine ⟨hdelete token rfl, fun _ => ?_⟩
    rw [hd]
    exact noSession_deleteSession cfg w token
  | _ => trivial

theorem Step.ended {o : Op} {r : Except AppError o.Answer} (h : Step cfg o w r w') (hd : d.world = w')
    (hsessions : ∀ s ∈ w.sessions, s.tokenHash ∈ Service.logged (insertedToken cfg) d)
    (hdelete : ∀ token, o = .deleteSession token → cfg.tokenHash token ∈ Service.logged (insertedToken cfg) d) :
    Ended cfg d ⟨o, r⟩ := by
  cases h with
  | does h => exact h.ended hd hsessions hdelete
  | _ => exact ended_error _ _

theorem ended_of_reach (hdev : cfg.allowInsecureDevAuth = false) (hc : (service cfg).Reach .empty c) :
    ∀ f, c.Has f → ∀ e ∈ f.log, Ended cfg c e := by
  refine (ensures cfg).facts (K := fun c e => Ended cfg c e) (fun _ hn hk => hk.next hn) (fun {c d f o r} hc hn _ hlog hready hs => ?_) hc
  refine Step.ended hs rfl (fun s hmem => Multiset.mem_of_le (logged_le hn) (logged_of_mem hc hmem)) ?_
  -- A session is ended by a request that was authenticated with its token.
  rintro token rfl
  obtain ⟨htoken, user, ha⟩ : sessionToken f.request.headers = some token ∧ ∃ user, Authenticated cfg f user := hready
  rcases ha with ⟨token', session, ht, hauth, -⟩ | hdev'
  · obtain rfl : token = token' := Option.some.inj (htoken.symm.trans ht)
    have hold : Ended cfg c ⟨.authenticateSession token, .ok session⟩ := hlog _ hauth
    exact Multiset.mem_of_le (logged_le hn) hold
  · rw [hdev] at hdev'
    cases hdev'

theorem Does.authenticatedToken {o : Op} {a : o.Answer} (h : Does cfg o w a w') {hash : List UInt8} (hno : NoSession w hash) :
    authenticatedToken cfg ⟨o, .ok a⟩ ≠ some hash := by
  cases h with
  | @authenticateSession token w s now hs ha =>
    rw [authenticates, Bool.and_eq_true, beq_iff_eq] at ha
    intro heq
    exact hno s hs (ha.1.trans (Option.some.inj heq))
  | _ => exact (Option.some_ne_none _).symm

theorem authenticatedToken_error (o : Op) (e : AppError) : authenticatedToken cfg ⟨o, .error e⟩ = none := by
  cases o <;> rfl

/-- Without a session, the token authenticates nobody. -/
theorem Step.authenticatedToken {o : Op} {r : Except AppError o.Answer} (h : Step cfg o w r w') {hash : List UInt8}
    (hno : NoSession w hash) : authenticatedToken cfg ⟨o, r⟩ ≠ some hash := by
  cases h with
  | does hd => exact hd.authenticatedToken hno
  | _ =>
    rw [authenticatedToken_error]
    exact (Option.some_ne_none _).symm

/-- After a session was ended, and as long as its token was not drawn twice, it is not there, and no step
authenticates with the token. -/
theorem logged_out (hdev : cfg.allowInsecureDevAuth = false) (hc : (service cfg).Reach .empty c) {f : AccessRecord} (hf : c.Has f)
    {token : String} (hd : f.Did (.deleteSession token) (.ok ()))
    (hfresh : (Service.logged (insertedToken cfg) c).count (cfg.tokenHash token) ≤ 1) :
    (∀ s ∈ c.world.sessions, s.tokenHash ≠ cfg.tokenHash token) ∧
    ∀ d, (service cfg).Next c d →
      (Service.logged (authenticatedToken cfg) d).count (cfg.tokenHash token) = (Service.logged (authenticatedToken cfg) c).count (cfg.tokenHash token) := by
  have hended : Ended cfg c ⟨.deleteSession token, .ok ()⟩ := ended_of_reach hdev hc f hf _ hd
  have hnone : NoSession c.world (cfg.tokenHash token) := hended.2 hfresh
  refine ⟨hnone, fun d hn => ?_⟩
  rcases Service.Next.logged (authenticatedToken cfg) hn with ⟨o, r, hs, hlog⟩ | ⟨hlog, -⟩
  · rw [hlog, Multiset.count_add]
    have hnot : cfg.tokenHash token ∉ ((authenticatedToken cfg ⟨o, r⟩).toList : Multiset (List UInt8)) := by
      rw [Multiset.mem_coe, Option.mem_toList]
      exact Step.authenticatedToken hs hnone
    rw [Multiset.count_eq_zero.2 hnot, add_zero]
  · rw [hlog]

/-- A record without sessions adds none. -/
theorem logged_first {w w' : World} {ts : Multiset AccessTask} {gone : List (AccessRecord × Outcome AppError)} {f : AccessRecord}
    {p : AccessProg Unit} (h : Service.onRecord (insertedToken cfg) f = 0) :
    Service.logged (insertedToken cfg) ⟨w, .running f p ::ₘ ts, gone⟩ = Service.logged (insertedToken cfg) ⟨w', ts, gone⟩ := by
  unfold Service.logged
  rw [Multiset.cons_bind, Task.frame, h, zero_add]

def someLogout : Request := ⟨.post, .logout, someHeaders⟩

theorem logged_out_of_one : ∃ (c : AccessRun) (f : AccessRecord), (service someConfig).Reach .empty c ∧ c.Has f ∧
    f.Did (.deleteSession "1") (.ok ()) ∧ ∀ s ∈ c.world.sessions, s.tokenHash ≠ ascii "1" := by
  obtain ⟨k, ts, -, hlog, h₀⟩ := reach_signedIn
  have h₁ := h₀.tail (.start ⟨someLogout, rfl, rfl, rfl⟩)
  have h₂ := reach_act h₁ rfl (.does .acquire)
  have h₃ := reach_act (o := .authenticateSession "1") h₂ rfl (.does (@Does.authenticateSession _ _ _ someSession 0 (List.mem_singleton_self _) (by decide)))
  have h₄ := reach_act (o := .deleteSession "1") h₃ rfl (.does .deleteSession)
  -- Only the sign-in has inserted a session.
  have hone : Multiset.count (ascii "1") {ascii "1"} = 1 := Multiset.count_singleton_self _
  refine ⟨_, _, h₄, has_first, List.mem_of_getElem? (i := 2) rfl, (logged_out rfl h₄ has_first (List.mem_of_getElem? (i := 2) rfl) ?_).1⟩
  refine (Eq.trans (congrArg (Multiset.count (ascii "1")) ((logged_first ?_).trans hlog)) hone).le
  rfl

/-! ## Accounts that were deleted -/

/-- The identifier was somebody's, and is nobody's any more. -/
structure Gone (w : World) (user : Uuid) : Prop where
  lt : user < w.nextId
  none : ¬ w.hasUser user

theorem Gone.grown {user : Uuid} (h : Gone w user) (hg : Grown w w') : Gone w' user := by
  refine ⟨lt_of_lt_of_le h.lt hg.nextId, ?_⟩
  rintro ⟨u', hu', heq⟩
  rcases hg.users u' hu' with ⟨u, hu, hid, -⟩ | hnew
  · exact h.none ⟨u, hu, hid.trans heq⟩
  · rw [heq] at hnew
    exact absurd (lt_of_lt_of_le h.lt hnew) (lt_irrefl _)

theorem Sound.gone (hs : Sound w) {user : Uuid} (hu : w.hasUser user) : Gone (w.deleteUser user) user := by
  refine ⟨hs.user_lt hu, ?_⟩
  rintro ⟨u, hm, rfl⟩
  simpa using (List.mem_filter.1 hm).2

/-- An account that was deleted is gone. -/
def Deleted (w : World) (e : Entry AccessSig) : Prop :=
  match e with
  | ⟨.deleteUser user, .ok _⟩ => Gone w user
  | _ => True

theorem Deleted.grown {e : Entry AccessSig} (h : Deleted w e) (hg : Grown w w') : Deleted w' e := by
  unfold Deleted at h ⊢
  split
  · exact Gone.grown h hg
  · trivial

theorem deleted_error (o : Op) (e : AppError) : Deleted w ⟨o, .error e⟩ := by
  cases o <;> trivial

theorem Does.deleted {o : Op} {a : o.Answer} (hs : Sound w) (h : Does cfg o w a w') : Deleted w' ⟨o, .ok a⟩ := by
  cases h with
  | deleteUser hu => exact hs.gone hu
  | _ => trivial

theorem Step.deleted {o : Op} {r : Except AppError o.Answer} (hs : Sound w) (h : Step cfg o w r w') : Deleted w' ⟨o, r⟩ := by
  cases h with
  | does hd => exact hd.deleted hs
  | _ => exact deleted_error _ _

theorem deleted_of_reach (hdev : cfg.allowInsecureDevAuth = false) (hc : (service cfg).Reach .empty c) :
    ∀ f, c.Has f → ∀ e ∈ f.log, Deleted c.world e :=
  (ensures cfg).facts (K := fun c e => Deleted c.world e) (fun hc hn hk => hk.grown (next_grown hdev hc hn))
    (fun hc _ _ _ _ hs => Step.deleted (sound_of_reach hdev hc) hs) hc

/-- The rest of the foreign keys. -/
structure Referenced (w : World) : Prop where
  attempts : ∀ a ∈ w.attempts, ∀ user, a.userId = some user → w.hasUser user
  acceptances : ∀ a ∈ w.acceptances, w.hasUser a.userId
  invites : ∀ i ∈ w.invites, ∀ user, i.usedBy = some user → w.hasUser user

theorem Referenced.empty : Referenced .empty := ⟨nofun, nofun, nofun⟩

/-- Whoever was there still is; the rows are as they were, or fewer. -/
theorem Referenced.shrink (h : Referenced w) (hu : ∀ user, w.hasUser user → w'.hasUser user) (ha : w'.attempts ⊆ w.attempts)
    (hc : w'.acceptances = w.acceptances) (hi : w'.invites = w.invites) : Referenced w' := by
  refine ⟨fun a hm user heq => hu _ (h.attempts a (ha hm) user heq), fun a hm => ?_, fun i hm user heq => ?_⟩
  · rw [hc] at hm
    exact hu _ (h.acceptances a hm)
  · rw [hi] at hm
    exact hu _ (h.invites i hm user heq)

theorem Referenced.deleteUser (h : Referenced w) (user : Uuid) : Referenced (w.deleteUser user) := by
  have hhas : ∀ id, w.hasUser id → id ≠ user → (w.deleteUser user).hasUser id := by
    rintro id ⟨u, hu, rfl⟩ hne
    exact ⟨u, List.mem_filter.2 ⟨hu, by simpa using hne⟩, rfl⟩
  refine ⟨fun a ha id heq => ?_, fun a ha => ?_, fun i hi id heq => ?_⟩
  · obtain ⟨ha, hkept⟩ := List.mem_filter.1 ha
    refine hhas _ (h.attempts a ha id heq) ?_
    rintro rfl
    simp [heq] at hkept
  · obtain ⟨ha, hkept⟩ := List.mem_filter.1 ha
    exact hhas _ (h.acceptances a ha) (by simpa using hkept)
  · obtain ⟨j, hj, rfl⟩ := List.mem_map.1 hi
    -- An invite that the user has used is used by nobody now.
    split at heq
    · cases heq
    · next hne =>
      refine hhas _ (h.invites j hj id heq) ?_
      rintro rfl
      simp [heq] at hne

theorem hasUser_upsertUser {user : Uuid} (h : w.hasUser user) (login : GoogleLoginResult) (now : DateTime) : (w.upsertUser login now).hasUser user := by
  obtain ⟨u, hu, rfl⟩ := h
  unfold World.upsertUser World.hasUser
  split
  · exact ⟨_, List.mem_map_of_mem hu, signedInUser_id login u⟩
  · exact ⟨u, List.mem_append_left _ hu, rfl⟩

theorem Does.referenced {o : Op} {a : o.Answer} (hr : Referenced w) (h : Does cfg o w a w') (ho : ∀ user, o ≠ .ensureDevelopmentUser user) :
    Referenced w' := by
  cases h with
  | ensureDevelopmentUser => exact absurd rfl (ho _)
  | @saveAttempt login user purpose legal secret w now hu hfree =>
    refine ⟨fun a ha id heq => ?_, hr.acceptances, hr.invites⟩
    rcases List.mem_append.1 ha with ha | ha
    · exact hr.attempts a (List.mem_of_mem_filter ha) id heq
    · rw [List.mem_singleton.1 ha] at heq
      exact hu id heq
  | consumeAttempt => exact hr.shrink (fun _ h => h) List.erase_subset rfl rfl
  | upsertUser => exact hr.shrink (fun _ h => hasUser_upsertUser h _ _) (List.Subset.refl _) rfl rfl
  | @consumeInvite email user w now hu =>
    refine ⟨hr.attempts, hr.acceptances, fun i hi id heq => ?_⟩
    obtain ⟨j, hj, rfl⟩ := List.mem_map.1 hi
    split at heq
    · cases heq
      exact hu
    · exact hr.invites j hj id heq
  | @recordLegalAcceptance user terms privacy age w now hu hage =>
    unfold World.recordLegalAcceptance
    split
    · exact hr
    · refine ⟨hr.attempts, fun a ha => ?_, hr.invites⟩
      rcases List.mem_append.1 ha with ha | ha
      · exact hr.acceptances a ha
      · rw [List.mem_singleton.1 ha]
        exact hu
  | deleteUser => exact hr.deleteUser _
  | _ => exact hr.shrink (fun _ h => h) (List.Subset.refl _) rfl rfl

theorem Step.referenced {o : Op} {r : Except AppError o.Answer} (hr : Referenced w) (h : Step cfg o w r w')
    (ho : ∀ user, o ≠ .ensureDevelopmentUser user) : Referenced w' := by
  cases h with
  | does hd => exact hd.referenced hr ho
  | lost hd => exact hd.referenced hr ho
  | aborted => exact hr.shrink (fun _ h => h) (List.Subset.refl _) rfl rfl
  | _ => exact hr

theorem Idle.referenced (hr : Referenced w) (h : Idle w w') : Referenced w' := by
  cases h with
  | invite =>
    refine ⟨hr.attempts, hr.acceptances, fun i hi user heq => ?_⟩
    rcases List.mem_append.1 hi with hi | hi
    · exact hr.invites i hi user heq
    · rw [List.mem_singleton.1 hi] at heq
      cases heq
  | disconnect | refresh => exact hr.shrink (fun _ h => h) (List.Subset.refl _) rfl rfl

theorem referenced_of_reach (hdev : cfg.allowInsecureDevAuth = false) (hc : (service cfg).Reach .empty c) : Referenced c.world := by
  induction hc with
  | init => exact .empty
  | tail hc hn ih =>
    rcases (ensures cfg).next hc hn with ⟨f, o, r, -, hready, hs⟩ | heq | ⟨g, hr⟩ | hi
    · exact Step.referenced ih hs (ready_production hdev hready)
    · rw [heq]
      exact ih
    · rw [hr.eq]
      exact ih.shrink (fun _ h => h) (List.Subset.refl _) rfl rfl
    · exact Idle.referenced ih hi

/-- After an account was deleted, no row of any table is of the user, however long ago it was and whatever
requests of the user, or sign-ins of the same Google account, were under way. -/
theorem account_deleted (hdev : cfg.allowInsecureDevAuth = false) (hc : (service cfg).Reach .empty c) {f : AccessRecord} (hf : c.Has f)
    {user : Uuid} (hd : f.Did (.deleteUser user) (.ok ())) :
    (∀ u ∈ c.world.users, u.id ≠ user) ∧ (∀ s ∈ c.world.sessions, s.userId ≠ user) ∧ (∀ a ∈ c.world.attempts, a.userId ≠ some user) ∧
    (∀ a ∈ c.world.acceptances, a.userId ≠ user) ∧ (∀ a ∈ c.world.accounts, a.userId ≠ user) ∧ ∀ i ∈ c.world.invites, i.usedBy ≠ some user := by
  have hgone : Gone c.world user := deleted_of_reach hdev hc f hf _ hd
  have hsound := sound_of_reach hdev hc
  have hrefs := referenced_of_reach hdev hc
  refine ⟨fun u hu heq => hgone.none ⟨u, hu, heq⟩, fun s hs heq => hgone.none ?_, fun a ha heq => hgone.none (hrefs.attempts a ha user heq),
    fun a ha heq => hgone.none ?_, fun a ha heq => hgone.none ?_, fun i hi heq => hgone.none (hrefs.invites i hi user heq)⟩
  · rw [← heq]
    exact hsound.sessions s hs
  · rw [← heq]
    exact hrefs.acceptances a ha
  · rw [← heq]
    exact hsound.accounts a ha

def someDelete : Request := ⟨.delete, .deleteAccount "DELETE", someHeaders⟩

theorem account_deleted_of_one : ∃ (c : AccessRun) (f : AccessRecord), (service someConfig).Reach .empty c ∧ c.Has f ∧
    f.Did (.deleteUser 0) (.ok ()) ∧ c.world.invites ≠ [] ∧ (∀ u ∈ c.world.users, u.id ≠ 0) ∧ ∀ i ∈ c.world.invites, i.usedBy ≠ some 0 := by
  obtain ⟨k, ts, -, -, h₀⟩ := reach_signedIn
  have h₁ := h₀.tail (.start ⟨someDelete, rfl, rfl, rfl⟩)
  have h₂ := reach_act h₁ rfl (.does .acquire)
  have h₃ := reach_act (o := .authenticateSession "1") h₂ rfl (.does (@Does.authenticateSession _ _ _ someSession 0 (List.mem_singleton_self _) (by decide)))
  have h₄ := reach_act h₃ rfl (.does .checkWrite)
  have h₅ := reach_act h₄ rfl (.does .acquire)
  have h₆ := reach_act h₅ rfl (.does .acquire)
  have h₇ := reach_act h₆ rfl (.does (@Does.googleCredentials _ 0 _ ⟨_, List.mem_singleton_self _, rfl⟩))
  have h₈ := reach_act h₇ rfl (.does .revoke)
  have h₉ := reach_act h₈ rfl (.does .deleteAccountObjects)
  have h₁₀ := reach_act h₉ rfl (.does (@Does.deleteUser _ 0 _ ⟨someUser, List.mem_singleton_self _, rfl⟩))
  obtain ⟨husers, -, -, -, -, hinvites⟩ := account_deleted rfl h₁₀ has_first (List.mem_of_getElem? (i := 8) rfl)
  exact ⟨_, _, h₁₀, has_first, List.mem_of_getElem? (i := 8) rfl, List.cons_ne_nil _ _, husers, hinvites⟩

end Access

end Prosepect
