/-
Who is signed in, in every run of the requests of everybody: a login attempt is used once, by its
browser and in time; a session belongs to the Google account that was verified when it was made, and
has accepted the current terms; and a handler runs for a user only in such a session.
-/
import Prosepect.Access.SignInHolds

namespace Prosepect

open Time Resumption

namespace Access

variable {cfg : Config} {w w' : World} {c d : AccessRun}

/-! ## Attempts -/

/-- The attempt that a callback was given. -/
def consumedBy (e : Entry AccessSig) : Option LoginAttempt :=
  match e with
  | ⟨.consumeAttempt _ _, .ok a⟩ => some a
  | _ => none

/-- Whatever was given out, or is left, was saved: as often, at least. -/
def Counted (c : AccessRun) : Prop := Service.logged consumedBy c + (c.world.attempts : Multiset LoginAttempt) ≤ (c.world.saved : Multiset LoginAttempt)

/-- What is given out and what is left was left before, or is saved now. -/
def Spends (w w' : World) (given : Multiset LoginAttempt) : Prop :=
  ∃ new : Multiset LoginAttempt, (w'.saved : Multiset LoginAttempt) = w.saved + new ∧ given + w'.attempts ≤ w.attempts + new

theorem spends_of_le (hs : w'.saved = w.saved) (ha : (w'.attempts : Multiset LoginAttempt) ≤ w.attempts) : Spends w w' 0 := by
  refine ⟨0, ?_, ?_⟩
  · rw [hs, add_zero]
  · rw [zero_add, add_zero]
    exact ha

theorem filter_le (p : LoginAttempt → Bool) (l : List LoginAttempt) : ((l.filter p : List LoginAttempt) : Multiset LoginAttempt) ≤ l :=
  Multiset.coe_le.2 List.filter_sublist.subperm

theorem Does.spends {o : Op} {a : o.Answer} (h : Does cfg o w a w') :
    Spends w w' (consumedBy ⟨o, .ok a⟩).toList ∧ Spends w w' 0 := by
  cases h with
  | @consumeAttempt state secret w a now hmem hc =>
    have herase : ({a} : Multiset LoginAttempt) + ((w.attempts.erase a : List LoginAttempt) : Multiset LoginAttempt) = w.attempts := by
      rw [← Multiset.coe_erase, Multiset.singleton_add, Multiset.cons_erase (Multiset.mem_coe.2 hmem)]
    refine ⟨⟨0, (add_zero _).symm, ?_⟩, spends_of_le rfl (Multiset.coe_le.2 (List.erase_sublist.subperm))⟩
    rw [add_zero]
    exact herase.le
  | @saveAttempt login user purpose legal secret w now hu hfree =>
    have hsave : Spends w (w.saveAttempt (newAttempt cfg login user purpose legal secret now) now) 0 := by
      refine ⟨{newAttempt cfg login user purpose legal secret now}, ?_, ?_⟩
      · exact (Multiset.coe_add _ _).symm
      · rw [zero_add]
        show ((_ ++ _ : List LoginAttempt) : Multiset LoginAttempt) ≤ _
        rw [← Multiset.coe_add]
        exact add_le_add (filter_le _ _) le_rfl
    exact ⟨hsave, hsave⟩
  | deleteUser => exact ⟨spends_of_le rfl (filter_le _ _), spends_of_le rfl (filter_le _ _)⟩
  | ensureDevelopmentUser =>
    unfold World.ensureDevelopmentUser
    split
    · exact ⟨spends_of_le rfl le_rfl, spends_of_le rfl le_rfl⟩
    · exact ⟨spends_of_le rfl le_rfl, spends_of_le rfl le_rfl⟩
  | recordLegalAcceptance =>
    unfold World.recordLegalAcceptance
    split
    · exact ⟨spends_of_le rfl le_rfl, spends_of_le rfl le_rfl⟩
    · exact ⟨spends_of_le rfl le_rfl, spends_of_le rfl le_rfl⟩
  | _ => exact ⟨spends_of_le rfl le_rfl, spends_of_le rfl le_rfl⟩

theorem consumedBy_error (o : Op) (e : AppError) : consumedBy ⟨o, .error e⟩ = none := by
  cases o <;> rfl

theorem Step.spends {o : Op} {r : Except AppError o.Answer} (h : Step cfg o w r w') : Spends w w' (consumedBy ⟨o, r⟩).toList := by
  cases h with
  | does hd => exact hd.spends.1
  | lost hd =>
    rw [consumedBy_error]
    exact hd.spends.2
  | _ =>
    rw [consumedBy_error]
    exact spends_of_le rfl le_rfl

theorem Does.saved {o : Op} {b : o.Answer} (h : Does cfg o w b w') {a : LoginAttempt} (ha : a ∈ w'.saved) :
    a ∈ w.saved ∨ ∃ login user purpose legal secret started, o = .saveAttempt login user purpose legal secret ∧
      a = newAttempt cfg login user purpose legal secret started := by
  cases h with
  | @saveAttempt login user purpose legal secret w now =>
    rcases List.mem_append.1 ha with ha | ha
    · exact .inl ha
    · exact .inr ⟨login, user, purpose, legal, secret, now, rfl, List.mem_singleton.1 ha⟩
  | ensureDevelopmentUser =>
    unfold World.ensureDevelopmentUser at ha
    split at ha
    · exact .inl ha
    · exact .inl ha
  | recordLegalAcceptance =>
    unfold World.recordLegalAcceptance at ha
    split at ha
    · exact .inl ha
    · exact .inl ha
  | _ => exact .inl ha

theorem Step.saved {o : Op} {r : Except AppError o.Answer} (h : Step cfg o w r w') {a : LoginAttempt} (ha : a ∈ w'.saved) :
    a ∈ w.saved ∨ ∃ login user purpose legal secret started, o = .saveAttempt login user purpose legal secret ∧
      a = newAttempt cfg login user purpose legal secret started := by
  cases h with
  | does hd => exact hd.saved ha
  | lost hd => exact hd.saved ha
  | _ => exact .inl ha

theorem Counted.spend (h : Counted c) {given : Multiset LoginAttempt} (hlog : Service.logged consumedBy d = Service.logged consumedBy c + given)
    (hs : Spends c.world d.world given) : Counted d := by
  obtain ⟨new, hsaved, hle⟩ := hs
  unfold Counted
  rw [hlog, hsaved, add_assoc]
  calc Service.logged consumedBy c + (given + d.world.attempts)
      ≤ Service.logged consumedBy c + (c.world.attempts + new) := by gcongr
    _ = Service.logged consumedBy c + c.world.attempts + new := (add_assoc _ _ _).symm
    _ ≤ c.world.saved + new := by gcongr; exact h

theorem counted_of_reach (hc : (service cfg).Reach .empty c) : Counted c := by
  induction hc with
  | init => exact le_rfl
  | tail _ hn ih =>
    rcases Service.Next.logged consumedBy hn with ⟨o, r, hs, hlog⟩ | ⟨hlog, hw⟩
    · exact ih.spend hlog (Step.spends hs)
    · have hlog' := hlog.trans (add_zero _).symm
      refine ih.spend hlog' ?_
      rcases hw with heq | ⟨g, hr⟩ | hi
      · rw [heq]
        exact spends_of_le rfl le_rfl
      · rw [hr.eq]
        exact spends_of_le rfl le_rfl
      · obtain ⟨-, -, hattempts, hsaved, -⟩ := hi.same
        refine spends_of_le hsaved ?_
        rw [hattempts]

theorem mem_saved (hc : (service cfg).Reach .empty c) {f : AccessRecord} (hf : c.Has f) {state secret : String} {a : LoginAttempt}
    (hd : f.Did (.consumeAttempt state secret) (.ok a)) : a ∈ c.world.saved := by
  have hmem : a ∈ Service.logged consumedBy c := Service.mem_logged consumedBy hf hd rfl
  exact Multiset.mem_coe.1 (Multiset.mem_of_le (counted_of_reach hc) (Multiset.mem_add.2 (.inl hmem)))

/-- A login attempt was saved by a request that begins one. -/
theorem saved_begins (hc : (service cfg).Reach .empty c) {a : LoginAttempt} (ha : a ∈ c.world.saved) :
    ∃ f login user purpose legal secret started, c.Has f ∧ Begins cfg f user purpose legal secret ∧
      (∃ r, f.Did (.saveAttempt login user purpose legal secret) r) ∧ a = newAttempt cfg login user purpose legal secret started := by
  have horigin : ∃ f, c.Has f ∧ ∃ e ∈ f.log, ∃ login user purpose legal secret started,
      e.1 = .saveAttempt login user purpose legal secret ∧ a = newAttempt cfg login user purpose legal secret started := by
    refine (ensures cfg).origin (fun w a => a ∈ w.saved)
      (fun a e => ∃ login user purpose legal secret started, e.1 = .saveAttempt login user purpose legal secret ∧
        a = newAttempt cfg login user purpose legal secret started) (fun _ => List.not_mem_nil) ?_ ?_ ?_ hc ha
    · intro c w' f o r a _ _ _ hs ha
      exact Step.saved hs ha
    · intro g w w' a hr ha
      rw [hr.eq] at ha
      exact ha
    · intro w w' a hi ha
      rw [hi.same.2.2.2.1] at ha
      exact ha
  obtain ⟨f, hf, ⟨o, r⟩, he, login, user, purpose, legal, secret, started, rfl, rfl⟩ := horigin
  obtain ⟨g, hl, hb⟩ := (ensures cfg).did hc hf he
  exact ⟨f, login, user, purpose, legal, secret, started, hf, hb.later hl, ⟨r, he⟩, rfl⟩

/-- What is found is of the state and the browser, and in time. -/
def Found (cfg : Config) (e : Entry AccessSig) : Prop :=
  match e with
  | ⟨.consumeAttempt state secret, .ok a⟩ => ∃ now, consumable cfg state secret now a = true
  | _ => True

theorem Does.found {o : Op} {a : o.Answer} (h : Does cfg o w a w') : Found cfg ⟨o, .ok a⟩ := by
  cases h with
  | consumeAttempt _ hc => exact ⟨_, hc⟩
  | _ => trivial

theorem found_error (o : Op) (e : AppError) : Found cfg ⟨o, .error e⟩ := by
  cases o <;> trivial

theorem Step.found {o : Op} {r : Except AppError o.Answer} (h : Step cfg o w r w') : Found cfg ⟨o, r⟩ := by
  cases h with
  | does hd => exact hd.found
  | _ => exact found_error _ _

theorem found_of_reach (hc : (service cfg).Reach .empty c) : ∀ f, c.Has f → ∀ e ∈ f.log, Found cfg e :=
  (ensures cfg).facts (K := fun _ e => Found cfg e) (fun _ _ hk => hk) (fun _ _ _ _ _ hs => Step.found hs) hc

/-- Whoever has this identifier has this Google account; nobody new will have it. -/
structure Bound (w : World) (id : Uuid) (subject : String) : Prop where
  lt : id < w.nextId
  subject : ∀ u ∈ w.users, u.id = id → u.googleSubject = some subject

theorem Bound.grown {id : Uuid} {subject : String} (h : Bound w id subject) (hg : Grown w w') : Bound w' id subject := by
  refine ⟨lt_of_lt_of_le h.lt hg.nextId, fun u' hu' heq => ?_⟩
  rcases hg.users u' hu' with ⟨u, hu, hid, hsub⟩ | hnew
  · rw [← hsub]
    exact h.subject u hu (hid.trans heq)
  · rw [heq] at hnew
    exact absurd (lt_of_lt_of_le h.lt hnew) (lt_irrefl _)

/-- The user, if there is one, has accepted. -/
structure Accepted (w : World) (user : Uuid) (terms privacy : String) : Prop where
  lt : user < w.nextId
  row : w.hasUser user → ∃ a ∈ w.acceptances, a.userId = user ∧ a.termsVersion = terms ∧ a.privacyVersion = privacy ∧ a.ageConfirmed = true

theorem Accepted.grown {user : Uuid} {terms privacy : String} (h : Accepted w user terms privacy) (hg : Grown w w') :
    Accepted w' user terms privacy := by
  refine ⟨lt_of_lt_of_le h.lt hg.nextId, fun hhas => ?_⟩
  obtain ⟨u', hu', heq⟩ := hhas
  -- The user was there before, for identifiers do not come back.
  rcases hg.users u' hu' with ⟨u, hu, hid, -⟩ | hnew
  · obtain ⟨a, ha, rfl, hrest⟩ := h.row ⟨u, hu, hid.trans heq⟩
    exact ⟨a, hg.acceptances a ha ⟨u', hu', heq⟩, rfl, hrest⟩
  · rw [heq] at hnew
    exact absurd (lt_of_lt_of_le h.lt hnew) (lt_irrefl _)

/-- What an answer on record says of the users. -/
def Known (w : World) (e : Entry AccessSig) : Prop :=
  match e with
  | ⟨.upsertUser login, .ok profile⟩ => Bound w profile.id login.subject
  | ⟨.matchesUser user login, .ok true⟩ => Bound w user login.subject
  | ⟨.recordLegalAcceptance user terms privacy _, .ok _⟩ => Accepted w user terms privacy
  | _ => True

theorem Known.grown {e : Entry AccessSig} (h : Known w e) (hg : Grown w w') : Known w' e := by
  unfold Known at h ⊢
  split
  · exact Bound.grown h hg
  · exact Bound.grown h hg
  · exact Accepted.grown h hg
  · trivial

theorem accepted_recordLegalAcceptance (hs : Sound w) {user : Uuid} {terms privacy : String} {now : DateTime} (hu : w.hasUser user) :
    Accepted (w.recordLegalAcceptance user terms privacy true now) user terms privacy := by
  unfold World.recordLegalAcceptance
  split
  · next hany =>
    refine ⟨hs.user_lt hu, fun _ => ?_⟩
    obtain ⟨a, ha, heq⟩ := List.any_eq_true.1 hany
    simp only [Bool.and_eq_true, beq_iff_eq] at heq
    exact ⟨a, ha, heq.1.1, heq.1.2, heq.2, hs.ages a ha⟩
  · exact ⟨hs.user_lt hu, fun _ => ⟨_, List.mem_append_right _ (List.mem_singleton_self _), rfl, rfl, rfl, rfl⟩⟩

theorem bound_of_mem (hs : Sound w) {u : User} {subject : String} (hu : u ∈ w.users) (hsub : u.googleSubject = some subject) :
    Bound w u.id subject := by
  refine ⟨hs.below u hu, fun v hv heq => ?_⟩
  rw [hs.unique hv hu heq]
  exact hsub

theorem Does.known {o : Op} {a : o.Answer} (hs : Sound w) (h : Does cfg o w a w') : Known w' ⟨o, .ok a⟩ := by
  cases h with
  | @upsertUser login w now =>
    obtain ⟨hmem, hsub⟩ := profileOf_spec w login now
    exact bound_of_mem (hs.upsertUser login now) hmem hsub
  | @matchesUser user login w =>
    have hknown : ∀ b, w.users.any (isUserOf cfg user login) = b → Known w ⟨.matchesUser user login, .ok b⟩ := by
      intro b hb
      cases b with
      | false => trivial
      | true =>
        obtain ⟨u, hu, heq⟩ := List.any_eq_true.1 hb
        simp only [isUserOf, Bool.and_eq_true, beq_iff_eq] at heq
        obtain ⟨⟨rfl, hsub⟩, -⟩ := heq
        exact bound_of_mem hs hu hsub
    exact hknown _ rfl
  | recordLegalAcceptance hu hage =>
    cases hage
    exact accepted_recordLegalAcceptance hs hu
  | _ => trivial

theorem known_error (w : World) (o : Op) (e : AppError) : Known w ⟨o, .error e⟩ := by
  cases o <;> trivial

theorem Step.known {o : Op} {r : Except AppError o.Answer} (hs : Sound w) (h : Step cfg o w r w') : Known w' ⟨o, r⟩ := by
  cases h with
  | does hd => exact hd.known hs
  | _ => exact known_error _ _ _

theorem known_of_reach (hdev : cfg.allowInsecureDevAuth = false) (hc : (service cfg).Reach .empty c) :
    ∀ f, c.Has f → ∀ e ∈ f.log, Known c.world e :=
  (ensures cfg).facts (K := fun c e => Known c.world e) (fun hc hn hk => hk.grown (next_grown hdev hc hn))
    (fun hc _ _ _ _ hs => Step.known (sound_of_reach hdev hc) hs) hc

/-- The sign-in that opened a session: Google has verified who it was, for an attempt of the browser that
had accepted the current terms and the age; and the tokens and the end of the session are its own. -/
structure Opened (cfg : Config) (c : AccessRun) (f : AccessRecord) (s : Session) (attempt : LoginAttempt) (login : GoogleLoginResult) :
    Prop where
  has : c.Has f
  joined : Joined cfg f s.userId attempt login currentTermsVersion currentPrivacyVersion
  accepted : f.Did (.recordLegalAcceptance s.userId currentTermsVersion currentPrivacyVersion true) (.ok ())
  token : ∃ token, f.Did .randomToken (.ok token) ∧ cfg.tokenHash token = s.tokenHash
  csrfToken : f.Did .randomToken (.ok s.csrfToken)
  expiresAt : ∃ now : DateTime, f.Did .utcNow (.ok now) ∧ s.expiresAt = now + sessionLifetime

theorem Opened.next {f : AccessRecord} {s : Session} {attempt : LoginAttempt} {login : GoogleLoginResult}
    (h : Opened cfg c f s attempt login) (hn : (service cfg).Next c d) : ∃ g, Opened cfg d g s attempt login := by
  obtain ⟨g, hg, hl⟩ := Service.Next.later hn h.has
  obtain ⟨token, ht, hhash⟩ := h.token
  obtain ⟨now, hnow, hexp⟩ := h.expiresAt
  exact ⟨g, hg, h.joined.later hl, hl.did h.accepted, ⟨token, hl.did ht, hhash⟩, hl.did h.csrfToken, now, hl.did hnow, hexp⟩

/-- An attempt to sign in was begun with the current terms. -/
theorem accepts_current (hc : (service cfg).Reach .empty c) {f : AccessRecord} (hf : c.Has f) {attempt : LoginAttempt}
    {login : GoogleLoginResult} (hi : Identified cfg f attempt login) {terms privacy : String} (ha : Accepts attempt terms privacy) :
    terms = currentTermsVersion ∧ privacy = currentPrivacyVersion := by
  obtain ⟨state, secret, -, hd⟩ := hi.consumed
  obtain ⟨k, start, user, purpose, legal, browser, started, -, hb, -, rfl⟩ := saved_begins hc (mem_saved hc hf hd)
  obtain ⟨hpurpose, hterms, hprivacy, -⟩ := ha
  obtain ⟨-, rfl, -⟩ := hb.signIn hpurpose
  exact ⟨(Option.some.inj hterms).symm, (Option.some.inj hprivacy).symm⟩

/-- Every session was opened by a sign-in. -/
theorem opened_of_mem (hdev : cfg.allowInsecureDevAuth = false) (hc : (service cfg).Reach .empty c) {s : Session} (hs : s ∈ c.world.sessions) :
    ∃ f attempt login, Opened cfg c f s attempt login := by
  obtain ⟨f, hf, token, hhash, r, he⟩ := inserted_of_mem hc hs
  obtain ⟨g, hl, hsigned, htoken, hcsrf, now, hnow, hexp⟩ := (ensures cfg).did hc hf he
  rcases hsigned with ⟨attempt, login, terms, privacy, hj, hd⟩ | hdev'
  · obtain ⟨rfl, rfl⟩ := accepts_current hc hf (hj.identified.later hl) hj.accepts
    exact ⟨f, attempt, login, hf, hj.later hl, hl.did hd, ⟨token, hl.did htoken, hhash⟩, hl.did hcsrf, now, hl.did hnow, hexp⟩
  · rw [hdev] at hdev'
    cases hdev'

/-- The user of a session, as long as there is one, has the Google account that was verified. -/
theorem Opened.subject (hdev : cfg.allowInsecureDevAuth = false) (hc : (service cfg).Reach .empty c) {f : AccessRecord} {s : Session}
    {attempt : LoginAttempt} {login : GoogleLoginResult} (h : Opened cfg c f s attempt login) :
    ∀ u ∈ c.world.users, u.id = s.userId → u.googleSubject = some login.subject := by
  obtain ⟨profile, hd, heq⟩ := h.joined.upserted
  have hbound : Bound c.world profile.id login.subject := known_of_reach hdev hc f h.has _ hd
  rw [heq] at hbound
  exact hbound.subject

/-- Every session was opened by a sign-in whose Google account is that of its user, who is there and has
accepted the current terms and the age. -/
theorem sessions_signed_in (hdev : cfg.allowInsecureDevAuth = false) (hc : (service cfg).Reach .empty c) {s : Session}
    (hs : s ∈ c.world.sessions) :
    ∃ f attempt login, Opened cfg c f s attempt login ∧
      (∃ u ∈ c.world.users, u.id = s.userId ∧ u.googleSubject = some login.subject) ∧
      ∃ a ∈ c.world.acceptances, a.userId = s.userId ∧ a.termsVersion = currentTermsVersion ∧
        a.privacyVersion = currentPrivacyVersion ∧ a.ageConfirmed = true := by
  obtain ⟨f, attempt, login, ho⟩ := opened_of_mem hdev hc hs
  obtain ⟨u, hu, heq⟩ := (sound_of_reach hdev hc).sessions s hs
  have haccepted : Accepted c.world s.userId currentTermsVersion currentPrivacyVersion :=
    known_of_reach hdev hc f ho.has _ ho.accepted
  exact ⟨f, attempt, login, ho, ⟨u, hu, heq, ho.subject hdev hc u hu heq⟩, haccepted.row ⟨u, hu, heq⟩⟩

theorem sessions_signed_in_of_one : ∃ (c : AccessRun) (f : AccessRecord) (attempt : LoginAttempt) (login : GoogleLoginResult),
    (service someConfig).Reach .empty c ∧ Opened someConfig c f someSession attempt login ∧ login.subject = "g" := by
  obtain ⟨k, ts, -, -, h⟩ := reach_signedIn
  obtain ⟨f, attempt, login, ho, ⟨u, hu, -, hsub⟩, -⟩ := sessions_signed_in rfl h (List.mem_singleton_self someSession)
  obtain rfl := List.mem_singleton.1 hu
  exact ⟨_, f, attempt, login, h, ho, (Option.some.inj hsub).symm⟩

/-! ## Handlers -/

/-- What an answer to `authenticate_session` says. -/
def InSession (cfg : Config) (c : AccessRun) (e : Entry AccessSig) : Prop :=
  match e with
  | ⟨.authenticateSession token, .ok session⟩ => ∃ f s attempt login, Opened cfg c f s attempt login ∧ ∃ now,
      authenticates cfg token now s = true ∧ session = ⟨s.userId, s.csrfToken⟩
  | _ => True

theorem InSession.next {e : Entry AccessSig} (h : InSession cfg c e) (hn : (service cfg).Next c d) : InSession cfg d e := by
  unfold InSession at h ⊢
  split
  · obtain ⟨f, s, attempt, login, ho, hrest⟩ := h
    obtain ⟨g, hg⟩ := ho.next hn
    exact ⟨g, s, attempt, login, hg, hrest⟩
  · trivial

theorem Does.inSession {o : Op} {a : o.Answer} (h : Does cfg o w a w') (hopened : ∀ s ∈ w.sessions, ∃ f attempt login, Opened cfg c f s attempt login) :
    InSession cfg c ⟨o, .ok a⟩ := by
  cases h with
  | @authenticateSession token w s now hs ha =>
    obtain ⟨f, attempt, login, ho⟩ := hopened s hs
    exact ⟨f, s, attempt, login, ho, now, ha, rfl⟩
  | _ => trivial

theorem inSession_error (o : Op) (e : AppError) : InSession cfg c ⟨o, .error e⟩ := by
  cases o <;> trivial

theorem Step.inSession {o : Op} {r : Except AppError o.Answer} (h : Step cfg o w r w')
    (hopened : ∀ s ∈ w.sessions, ∃ f attempt login, Opened cfg c f s attempt login) : InSession cfg c ⟨o, r⟩ := by
  cases h with
  | does hd => exact hd.inSession hopened
  | _ => exact inSession_error _ _

theorem inSession_of_reach (hdev : cfg.allowInsecureDevAuth = false) (hc : (service cfg).Reach .empty c) :
    ∀ f, c.Has f → ∀ e ∈ f.log, InSession cfg c e := by
  refine (ensures cfg).facts (K := fun c e => InSession cfg c e) (fun _ hn hk => hk.next hn) (fun hc hn _ _ _ hs => ?_) hc
  -- The session was there before, and its sign-in is on record after.
  refine Step.inSession hs fun s hmem => ?_
  obtain ⟨f, attempt, login, ho⟩ := opened_of_mem hdev hc hmem
  obtain ⟨g, hg⟩ := ho.next hn
  exact ⟨g, attempt, login, hg⟩

/-- The operations for a user. -/
def actsFor : Op → Option Uuid
  | .handle user | .deleteUser user | .revoke user | .deleteAccountObjects user | .googleCredentials user => some user
  | .saveAttempt _ user _ _ _ => user
  | _ => none

theorem authenticated_of_actsFor {f : AccessRecord} {o : Op} {user : Uuid} (h : Ready cfg f o) (ho : actsFor o = some user) :
    Authenticated cfg f user := by
  cases o with
  | saveAttempt login id purpose legal secret =>
    have hid : id = some user := ho
    subst hid
    have hb : Begins cfg f (some user) purpose legal secret := h
    by_cases hp : purpose = .login
    · obtain ⟨hnone, -⟩ := hb.signIn hp
      cases hnone
    · obtain ⟨id, heq, ha⟩ := hb.connection hp
      cases heq
      exact ha
  | handle | deleteUser | revoke | deleteAccountObjects | googleCredentials =>
    cases ho
    exact h
  | _ => cases ho

def someOther : Request := ⟨.get, .other "/tasks", someHeaders⟩

end Access

end Prosepect
