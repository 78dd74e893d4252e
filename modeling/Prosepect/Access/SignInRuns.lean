/-
What the programs of sign-in ensure before each of their operations, whatever is answered to them:
who has been authenticated, whom Google has identified, what has been accepted and counted.
-/
import Prosepect.Access.SignIn

namespace Prosepect

open Time Resumption

namespace Access

abbrev AccessRecord : Type := Record AccessSig Request Guard

variable {cfg : Config} {f g h : AccessRecord}

/-! ## What a record says -/

/-- The request is of the user: by a session whose CSRF token it supplies where it has to, or by the
header of development. -/
def Authenticated (cfg : Config) (f : AccessRecord) (user : Uuid) : Prop :=
  (∃ token session, sessionToken f.request.headers = some token ∧ f.Did (.authenticateSession token) (.ok session) ∧
    session.userId = user ∧ (requiresCsrf f.request.method = true → suppliedCsrf f.request.headers = some session.csrfToken)) ∨
  cfg.allowInsecureDevAuth = true

/-- The callback has consumed the attempt, with the secret of its browser, and Google has said, for the
nonce and the verifier of the attempt, who signs in. -/
structure Identified (cfg : Config) (f : AccessRecord) (attempt : LoginAttempt) (login : GoogleLoginResult) : Prop where
  consumed : ∃ state secret, oauthBrowserSecret f.request.headers cfg.secureCookies = some secret ∧
    f.Did (.consumeAttempt state secret) (.ok attempt)
  verified : ∃ clientId code response jwks claims, cfg.google = some clientId ∧
    f.Did (.exchangeCode code attempt.pkceVerifier) (.ok response) ∧ f.Did .fetchKeys (.ok jwks) ∧
    Verified cfg.jose response.idToken jwks clientId attempt.nonce response.accessToken claims ∧
    login.subject = claims.sub ∧ login.email = claims.email ∧ cfg.decrypt login.encryptedAccessToken = some response.accessToken ∧
    ∀ c, login.encryptedRefreshToken = some c → ∃ token, response.refreshToken = some token ∧ cfg.decrypt c = some token

/-- There is room for the user: the count, made under the lock, is below the limit, or the user was
there. -/
def HasRoom (cfg : Config) (f : AccessRecord) (subject : String) : Prop :=
  match cfg.maxUserAccounts with
  | none => f.guards = []
  | some limit => f.guards = [.lock] ∧ (f.Did (.subjectRegistered subject) (.ok true) ∨ ∃ n : Int, f.Did .countUsers (.ok n) ∧ n < limit)

/-- The email was found invited, where that is asked for. -/
def MayJoin (cfg : Config) (f : AccessRecord) (email : String) : Prop :=
  cfg.inviteOnly = true → f.Did (.emailCanSignIn email) (.ok true)

/-- The terms, the privacy policy and the age of the attempt are accepted. -/
def Accepts (attempt : LoginAttempt) (terms privacy : String) : Prop :=
  attempt.purpose = .login ∧ attempt.termsVersion = some terms ∧ attempt.privacyVersion = some privacy ∧ attempt.ageConfirmed = true

/-- The identity was signed in as the user. -/
structure Joined (cfg : Config) (f : AccessRecord) (user : Uuid) (attempt : LoginAttempt) (login : GoogleLoginResult)
    (terms privacy : String) : Prop where
  identified : Identified cfg f attempt login
  accepts : Accepts attempt terms privacy
  invited : MayJoin cfg f login.email
  upserted : ∃ profile, f.Did (.upsertUser login) (.ok profile) ∧ profile.id = user

/-- A session may be created. -/
def SignedIn (cfg : Config) (f : AccessRecord) (user : Uuid) : Prop :=
  (∃ attempt login terms privacy, Joined cfg f user attempt login terms privacy ∧
    f.Did (.recordLegalAcceptance user terms privacy true) (.ok ())) ∨ cfg.allowInsecureDevAuth = true

/-- No user has been looked for or counted yet. -/
def Unread (f : AccessRecord) : Prop :=
  (∀ subject r, ¬ f.Did (.subjectRegistered subject) r) ∧ ∀ r, ¬ f.Did .countUsers r

/-- What is saved of a sign-in or a connection that begins. -/
structure Begins (cfg : Config) (f : AccessRecord) (user : Option Uuid) (purpose : Purpose)
    (legal : Option String × Option String × Bool) (secret : String) : Prop where
  browser : ∀ s, oauthBrowserSecret f.request.headers cfg.secureCookies = some s → s = secret
  signIn : purpose = .login → user = none ∧ legal = (some currentTermsVersion, some currentPrivacyVersion, true) ∧
    ∃ query, f.request.route = .googleAuthStart query ∧ query.termsVersion = currentTermsVersion ∧
      query.privacyVersion = currentPrivacyVersion ∧ query.ageConfirmed = true
  connection : purpose ≠ .login → ∃ id, user = some id ∧ Authenticated cfg f id

/-- What holds before an operation. -/
def Ready (cfg : Config) (f : AccessRecord) : Op → Prop
  | .insertSession token user csrfToken expiresAt => SignedIn cfg f user ∧ f.Did .randomToken (.ok token) ∧
      f.Did .randomToken (.ok csrfToken) ∧ ∃ now : DateTime, f.Did .utcNow (.ok now) ∧ expiresAt = now + sessionLifetime
  | .deleteSession token => sessionToken f.request.headers = some token ∧ ∃ user, Authenticated cfg f user
  | .ensureDevelopmentUser _ => cfg.allowInsecureDevAuth = true
  | .saveAttempt _ user purpose legal secret => Begins cfg f user purpose legal secret
  | .consumeAttempt state secret => oauthBrowserSecret f.request.headers cfg.secureCookies = some secret ∧
      ∃ query, f.request.route = .googleAuthCallback query ∧ query.state = some state
  | .lockAccounts => f.guards = [] ∧ Unread f ∧ cfg.maxUserAccounts ≠ none
  | .subjectRegistered _ | .countUsers => f.guards = [.lock]
  | .upsertUser login => HasRoom cfg f login.subject ∧ MayJoin cfg f login.email ∧
      ∃ attempt terms privacy, Identified cfg f attempt login ∧ Accepts attempt terms privacy
  | .recordLegalAcceptance user terms privacy _ => ∃ attempt login, Joined cfg f user attempt login terms privacy
  | .writeCredentials user login => f.Did (.matchesUser user login) (.ok true) ∧ ∃ attempt token session,
      Identified cfg f attempt login ∧ attempt.userId = some user ∧ attempt.purpose ≠ .login ∧
      sessionToken f.request.headers = some token ∧ f.Did (.authenticateSession token) (.ok session) ∧ session.userId = user
  | .deleteUser user | .revoke user | .handle user | .deleteAccountObjects user | .googleCredentials user => Authenticated cfg f user
  | _ => True

/-! ## Records that grow -/

theorem Authenticated.later {user : Uuid} (ha : Authenticated cfg f user) (hl : f.Later g) : Authenticated cfg g user := by
  rcases ha with ⟨token, session, ht, hd, hu, hc⟩ | hdev
  · refine .inl ⟨token, session, ?_, hl.did hd, hu, ?_⟩
    · rw [hl.request]
      exact ht
    · rw [hl.request]
      exact hc
  · exact .inr hdev

theorem Identified.later {attempt : LoginAttempt} {login : GoogleLoginResult} (hi : Identified cfg f attempt login) (hl : f.Later g) :
    Identified cfg g attempt login := by
  obtain ⟨state, secret, hs, hd⟩ := hi.consumed
  obtain ⟨clientId, code, response, jwks, claims, hid, he, hk, hrest⟩ := hi.verified
  refine ⟨⟨state, secret, ?_, hl.did hd⟩, clientId, code, response, jwks, claims, hid, hl.did he, hl.did hk, hrest⟩
  rw [hl.request]
  exact hs

theorem MayJoin.later {email : String} (hm : MayJoin cfg f email) (hl : f.Later g) : MayJoin cfg g email := fun hi => hl.did (hm hi)

theorem Joined.later {user : Uuid} {attempt : LoginAttempt} {login : GoogleLoginResult} {terms privacy : String}
    (hj : Joined cfg f user attempt login terms privacy) (hl : f.Later g) : Joined cfg g user attempt login terms privacy := by
  obtain ⟨profile, hd, hu⟩ := hj.upserted
  exact ⟨hj.identified.later hl, hj.accepts, hj.invited.later hl, profile, hl.did hd, hu⟩

theorem SignedIn.later {user : Uuid} (hs : SignedIn cfg f user) (hl : f.Later g) : SignedIn cfg g user := by
  rcases hs with ⟨attempt, login, terms, privacy, hj, hd⟩ | hdev
  · exact .inl ⟨attempt, login, terms, privacy, hj.later hl, hl.did hd⟩
  · exact .inr hdev

theorem Begins.later {user : Option Uuid} {purpose : Purpose} {legal : Option String × Option String × Bool} {secret : String}
    (hb : Begins cfg f user purpose legal secret) (hl : f.Later g) : Begins cfg g user purpose legal secret := by
  refine ⟨fun s hs => hb.browser s ?_, fun hp => ?_, fun hp => ?_⟩
  · rw [← hl.request]
    exact hs
  · rw [hl.request]
    exact hb.signIn hp
  · obtain ⟨id, hu, ha⟩ := hb.connection hp
    exact ⟨id, hu, ha.later hl⟩

/-- Operations that neither take guards nor look for users. -/
def Quiet : Op → Prop
  | .lockAccounts | .subjectRegistered _ | .countUsers | .upsertUser _ => False
  | _ => True

/-- The record goes on by quiet operations. -/
structure Went (f g : AccessRecord) : Prop where
  later : f.Later g
  guards : g.guards = f.guards
  unread : Unread f → Unread g

@[refl] theorem Went.refl (f : AccessRecord) : Went f f := ⟨.refl f, rfl, id⟩

theorem Went.trans (h₁ : Went f g) (h₂ : Went g h) : Went f h :=
  ⟨h₁.later.trans h₂.later, h₂.guards.trans h₁.guards, h₂.unread ∘ h₁.unread⟩

theorem Went.did {o : Op} {r : Except AppError o.Answer} (hw : Went f g) (hd : f.Did o r) : g.Did o r := hw.later.did hd

/-- The record after an operation. -/
def done (f : AccessRecord) (o : Op) (r : Except AppError o.Answer) : AccessRecord := f.add (guardsAfter o r f.guards) o r

theorem later_done (f : AccessRecord) (o : Op) (r : Except AppError o.Answer) : f.Later (done f o r) := Record.later_add _ _ _ _

theorem did_done (f : AccessRecord) (o : Op) (r : Except AppError o.Answer) : (done f o r).Did o r := Record.did_add _ _ _ _

theorem did_done_iff {o o' : Op} {r : Except AppError o.Answer} {r' : Except AppError o'.Answer} :
    (done f o r).Did o' r' ↔ f.Did o' r' ∨ (⟨o', r'⟩ : Entry AccessSig) = ⟨o, r⟩ := by
  unfold done Record.add Record.Did
  rw [List.mem_append, List.mem_singleton]

theorem went_done {o : Op} (hq : Quiet o) (f : AccessRecord) (r : Except AppError o.Answer) : Went f (done f o r) := by
  refine ⟨later_done f o r, ?_, fun hu => ⟨fun subject r' hd => ?_, fun r' hd => ?_⟩⟩
  · show guardsAfter o r f.guards = f.guards
    cases o with
    | lockAccounts | upsertUser => exact hq.elim
    | _ => rfl
  · rcases did_done_iff.1 hd with hd | heq
    · exact hu.1 subject r' hd
    · cases heq
      exact hq
  · rcases did_done_iff.1 hd with hd | heq
    · exact hu.2 r' hd
    · cases heq
      exact hq

/-! ## The programs -/

def Runs {α : Type} (cfg : Config) (Q : AccessRecord → α → Prop) : AccessRecord → AccessProg α → Prop :=
  (service cfg).tasks.Throughout (Ready cfg) (fun _ _ => True) Q

section Programs

variable {α β : Type} {r : Request}

theorem runs_bind {Q : AccessRecord → β → Prop} {p : AccessProg α} {k : α → AccessProg β}
    (hp : Runs cfg (fun g a => Runs cfg Q g (k a)) f p) : Runs cfg Q f (p >>= k) := Holding.Throughout.bind hp

theorem runs_call {o : Op} {Q : AccessRecord → o.Answer → Prop} (hr : Ready cfg f o)
    (hQ : ∀ a w w', Step cfg o w (.ok a) w' → Q (done f o (.ok a)) a) : Runs cfg Q f (call o) := by
  refine ⟨hr, fun r hstep => ?_⟩
  obtain ⟨w, w', hs⟩ := hstep
  cases r with
  | ok a => exact hQ a w w' hs
  | error e => exact trivial

/-- A call of a quiet operation. -/
theorem runs_quiet {o : Op} {Q : AccessRecord → o.Answer → Prop} (hq : Quiet o) (hr : Ready cfg f o)
    (hQ : ∀ g a, Went f g → g.Did o (.ok a) → Q g a) : Runs cfg Q f (call o) :=
  runs_call hr fun a _ _ _ => hQ _ a (went_done hq f _) (did_done f o _)

theorem runs_failIf {Q : AccessRecord → Unit → Prop} {p : Bool} {e : AppError} (hQ : p = false → Q f ()) : Runs cfg Q f (failIf p e) := by
  cases p with
  | false => exact hQ rfl
  | true => exact trivial

theorem runs_orFail {Q : AccessRecord → α → Prop} {o : Option α} {e : AppError} (hQ : ∀ a, o = some a → Q f a) :
    Runs cfg Q f (orFail o e) := by
  cases o with
  | none => exact trivial
  | some a => exact hQ a rfl

theorem runs_ite {Q : AccessRecord → α → Prop} {c : Prop} [Decidable c] {p q : AccessProg α} (hp : c → Runs cfg Q f p)
    (hq : ¬ c → Runs cfg Q f q) : Runs cfg Q f (if c then p else q) := by
  by_cases h : c
  · rw [if_pos h]
    exact hp h
  · rw [if_neg h]
    exact hq h

theorem runs_pure {Q : AccessRecord → α → Prop} {a : α} (hQ : Q f a) : Runs cfg Q f (pure a) := hQ

/-- A program whose error is dealt with. -/
theorem runs_attempt {Q : AccessRecord → Except AppError α → Prop} {p : AccessProg α}
    (hp : (service cfg).tasks.Throughout (Ready cfg) (fun g e => Q g (.error e)) (fun g a => Q g (.ok a)) f p) : Runs cfg Q f p.attempt := by
  induction p generalizing f with
  | ret a => exact hp
  | fail e => exact hp
  | op o k ih => exact ⟨hp.1, fun r hr => ih r (hp.2 r hr)⟩

/-- The same where nothing is asked of the errors. -/
theorem runs_recover {Q : AccessRecord → Except AppError α → Prop} {p : AccessProg α} (he : ∀ g e, Q g (.error e))
    (hp : Runs cfg (fun g a => Q g (.ok a)) f p) : Runs cfg Q f p.attempt := by
  refine runs_attempt ?_
  induction p generalizing f with
  | ret a => exact hp
  | fail e => exact he f e
  | op o k ih => exact ⟨hp.1, fun r hr => ih r (hp.2 r hr)⟩

/-! ### Who makes a request -/

theorem runs_limitWrite {Q : AccessRecord → Unit → Prop} {user : Uuid} (hQ : ∀ g, Went f g → Q g ()) : Runs cfg Q f (limitWrite r user) := by
  refine runs_ite (fun _ => ?_) fun _ => ?_
  · exact runs_quiet trivial trivial fun g _ hg _ => hQ g hg
  · exact runs_pure (hQ f (.refl f))

theorem runs_checkCsrf {Q : AccessRecord → Unit → Prop} {session : SessionAuthentication}
    (hQ : (requiresCsrf r.method = true → suppliedCsrf r.headers = some session.csrfToken) → Q f ()) : Runs cfg Q f (checkCsrf r session) := by
  refine runs_ite (fun _ => ?_) fun hsafe => ?_
  · refine runs_bind (runs_orFail fun supplied hs => ?_)
    refine runs_failIf fun hne => hQ fun _ => ?_
    rw [bne_eq_false_iff_eq] at hne
    rw [hs, hne]
  · exact runs_pure (hQ fun hc => absurd hc hsafe)

/-- What is remembered of a request is true. -/
def Remembers (cfg : Config) (f : AccessRecord) (ext : Extensions) : Prop :=
  ∀ user method, ext.authenticated = some (user, method) → Authenticated cfg f user

theorem Remembers.went {ext : Extensions} (hr : Remembers cfg f ext) (hw : Went f g) : Remembers cfg g ext :=
  fun user method ha => (hr user method ha).later hw.later

theorem remembers_none : Remembers cfg f ⟨none, none⟩ := fun _ _ ha => absurd ha nofun

theorem runs_sessionUser {Q : AccessRecord → Uuid × Extensions → Prop} {token : String} (hreq : f.request = r)
    (ht : sessionToken r.headers = some token)
    (hQ : ∀ g user ext, Went f g → Authenticated cfg g user → Remembers cfg g ext → Q g (user, ext)) :
    Runs cfg Q f (sessionUser r token) := by
  subst hreq
  unfold sessionUser
  refine runs_bind (runs_quiet trivial trivial fun g session hg hd => ?_)
  refine runs_bind (runs_checkCsrf fun hcsrf => ?_)
  refine runs_bind (runs_limitWrite fun h hh => ?_)
  have hw := hg.trans hh
  have ha : Authenticated cfg h session.userId := by
    refine .inl ⟨token, session, ?_, hh.did hd, rfl, ?_⟩
    · rw [hw.later.request]
      exact ht
    · rw [hw.later.request]
      exact hcsrf
  refine runs_pure (hQ h _ _ hw ha fun user method heq => ?_)
  cases heq
  exact ha

theorem runs_developmentHeaderUser {Q : AccessRecord → Uuid × Extensions → Prop} {value : List UInt8} {ext : Extensions}
    (hdev : cfg.allowInsecureDevAuth = true)
    (hQ : ∀ g user ext, Went f g → Authenticated cfg g user → Remembers cfg g ext → Q g (user, ext)) :
    Runs cfg Q f (developmentHeaderUser cfg r value ext) := by
  unfold developmentHeaderUser
  refine runs_bind (runs_orFail fun text _ => ?_)
  refine runs_bind (runs_orFail fun user _ => ?_)
  refine runs_bind (runs_limitWrite fun g hg => ?_)
  exact runs_pure (hQ g _ _ hg (.inr hdev) fun _ _ _ => .inr hdev)

theorem runs_currentUser {Q : AccessRecord → Uuid × Extensions → Prop} {ext : Extensions} (hreq : f.request = r)
    (hext : Remembers cfg f ext)
    (hQ : ∀ g user ext, Went f g → Authenticated cfg g user → Remembers cfg g ext → Q g (user, ext)) :
    Runs cfg Q f (currentUser cfg r ext) := by
  unfold currentUser
  split
  · next user method heq =>
    obtain ⟨hsome, -⟩ := Option.filter_eq_some_iff.1 heq
    exact runs_pure (hQ f user ext (.refl f) (hext user method hsome) hext)
  · split
    · next value heq =>
      obtain ⟨-, hdev⟩ := Option.filter_eq_some_iff.1 heq
      exact runs_developmentHeaderUser hdev hQ
    · split
      · next token ht => exact runs_sessionUser hreq ht hQ
      · exact trivial

theorem runs_limitRequests {Q : AccessRecord → Response → Prop} {next : Extensions → AccessProg Response} (hreq : f.request = r)
    (hnext : ∀ g ext, Went f g → Remembers cfg g ext → Runs cfg Q g (next ext)) : Runs cfg Q f (limitRequests cfg r next) := by
  refine runs_ite (fun _ => ?_) fun _ => ?_
  · exact runs_bind (runs_quiet trivial trivial fun g _ hg _ => hnext g _ hg remembers_none)
  · refine runs_bind (runs_quiet trivial trivial fun f₁ _ h₁ _ => ?_)
    refine runs_bind (runs_currentUser (h₁.later.request.trans hreq) remembers_none fun f₂ user ext h₂ _ hext => ?_)
    refine runs_ite (fun _ => ?_) fun _ => ?_
    · exact hnext f₂ ext (h₁.trans h₂) hext
    · refine runs_bind (runs_quiet trivial trivial fun f₃ _ h₃ _ => ?_)
      refine runs_bind (runs_quiet trivial trivial fun f₄ _ h₄ _ => ?_)
      have hw := ((h₁.trans h₂).trans h₃).trans h₄
      have hext₄ := (hext.went h₃).went h₄
      refine runs_ite (fun _ => ?_) fun _ => ?_
      · refine runs_bind (runs_quiet trivial trivial fun f₅ _ h₅ _ => ?_)
        exact hnext f₅ ext (hw.trans h₅) (hext₄.went h₅)
      · exact hnext f₄ ext hw hext₄

/-! ### Sessions -/

theorem runs_createSession {Q : AccessRecord → String × String → Prop} {user : Uuid} (hs : SignedIn cfg f user) (hQ : ∀ g a, Q g a) :
    Runs cfg Q f (createSession user) := by
  unfold createSession
  refine runs_bind (runs_quiet trivial trivial fun f₁ token h₁ htoken => ?_)
  refine runs_bind (runs_quiet trivial trivial fun f₂ csrfToken h₂ hcsrf => ?_)
  refine runs_bind (runs_quiet trivial trivial fun f₃ now h₃ hnow => ?_)
  refine runs_bind (runs_quiet trivial ⟨?_, ?_, ?_, now, hnow, rfl⟩ fun f₄ _ _ _ => runs_pure (hQ f₄ _))
  · exact ((hs.later h₁.later).later h₂.later).later h₃.later
  · exact h₃.did (h₂.did htoken)
  · exact h₃.did hcsrf

theorem runs_developmentSession {Q : AccessRecord → Response → Prop} (hQ : ∀ g a, Q g a) : Runs cfg Q f (developmentSession cfg r) := by
  unfold developmentSession
  refine runs_bind (runs_failIf fun hdev => ?_)
  rw [Bool.not_eq_false'] at hdev
  have hrest : ∀ g id, Runs cfg Q g (startDevelopment cfg id) := by
    intro g id
    refine runs_bind (runs_quiet trivial hdev fun g₁ user _ _ => ?_)
    exact runs_bind (runs_createSession (.inr hdev) fun g₂ _ => runs_pure (hQ g₂ _))
  cases hid : requestedUser cfg r with
  | some id => exact hrest f id
  | none => exact runs_bind (runs_quiet trivial trivial fun g id _ _ => hrest g id)

theorem runs_logout {Q : AccessRecord → Response → Prop} {ext : Extensions} (hreq : f.request = r) (hext : Remembers cfg f ext)
    (hQ : ∀ g a, Q g a) : Runs cfg Q f (logout cfg r ext) := by
  unfold logout
  refine runs_bind (runs_currentUser hreq hext fun g user _ hg ha _ => ?_)
  refine runs_bind ?_
  unfold endSession
  split
  · next token ht =>
    refine runs_quiet trivial ⟨?_, user, ha⟩ fun h _ _ _ => runs_pure (hQ h _)
    rw [hg.later.request, hreq]
    exact ht
  · exact runs_pure (runs_pure (hQ g _))

theorem runs_deleteAccount {Q : AccessRecord → Response → Prop} {ext : Extensions} {confirmation : String} (hreq : f.request = r)
    (hext : Remembers cfg f ext) (hQ : ∀ g a, Q g a) : Runs cfg Q f (deleteAccount cfg r ext confirmation) := by
  unfold deleteAccount
  refine runs_bind (runs_currentUser hreq hext fun g user _ hg ha _ => ?_)
  refine runs_bind (runs_failIf fun _ => ?_)
  -- What is left to do, whether there were credentials or not.
  have hrest : ∀ k : AccessRecord, Went g k → Runs cfg Q k (do
      call (.deleteAccountObjects user)
      call (.deleteUser user)
      return .noContent (expiredSessionCookie cfg.secureCookies)) := by
    intro k hk
    refine runs_bind (runs_quiet trivial (ha.later hk.later) fun k₁ _ h₁ _ => ?_)
    exact runs_bind (runs_quiet trivial (ha.later (hk.trans h₁).later) fun k₂ _ _ _ => runs_pure (hQ k₂ _))
  refine runs_bind (runs_attempt ⟨ha, fun answer _ => ?_⟩)
  have hk : Went g (done g (.googleCredentials user) answer) := went_done (o := .googleCredentials user) trivial g answer
  cases answer with
  | ok a =>
    refine runs_bind (runs_failIf fun _ => ?_)
    exact runs_bind (runs_quiet trivial (ha.later hk.later) fun k _ hw _ => hrest k (hk.trans hw))
  | error e =>
    cases e with
    | notConfigured => exact hrest _ hk
    | _ => exact trivial

/-! ### Going to Google -/

theorem runs_browserSecret {Q : AccessRecord → String → Prop} (hreq : f.request = r)
    (hQ : ∀ g secret, Went f g → (∀ s, oauthBrowserSecret g.request.headers cfg.secureCookies = some s → s = secret) → Q g secret) :
    Runs cfg Q f (browserSecret cfg r) := by
  subst hreq
  unfold browserSecret
  split
  · next secret hs =>
    refine runs_pure (hQ f secret (.refl f) fun s h => ?_)
    rw [hs] at h
    exact (Option.some.inj h).symm
  · next hnone =>
    refine runs_quiet trivial trivial fun g secret hg _ => hQ g secret hg fun s h => ?_
    rw [hg.later.request, hnone] at h
    cases h

/-- The attempt is saved as the rest of its columns allow. -/
theorem runs_googleAuthorizationRedirect {Q : AccessRecord → Response → Prop} {login : GoogleLoginStart} {user : Option Uuid}
    {purpose : Purpose} {legalVersions : Option (String × String)} (hreq : f.request = r)
    (hbegins : ∀ g legal secret, Went f g → legalColumns purpose legalVersions = some legal →
      (∀ s, oauthBrowserSecret g.request.headers cfg.secureCookies = some s → s = secret) → Begins cfg g user purpose legal secret)
    (hQ : ∀ g a, Q g a) : Runs cfg Q f (googleAuthorizationRedirect cfg r login user purpose legalVersions) := by
  unfold googleAuthorizationRedirect
  refine runs_bind (runs_browserSecret hreq fun g secret hg hsecret => ?_)
  refine runs_bind (runs_orFail fun legal hlegal => ?_)
  refine runs_bind (runs_quiet trivial (hbegins g legal secret hg hlegal hsecret) fun h _ _ _ => runs_pure (hQ h _))

theorem runs_googleAuthStart {Q : AccessRecord → Response → Prop} {query : GoogleLoginQuery} (hreq : f.request = r)
    (hroute : r.route = .googleAuthStart query) (hQ : ∀ g a, Q g a) : Runs cfg Q f (googleAuthStart cfg r query) := by
  unfold googleAuthStart
  refine runs_bind (runs_quiet trivial trivial fun f₁ _ h₁ _ => ?_)
  refine runs_bind (runs_failIf fun haccepted => ?_)
  refine runs_bind (runs_failIf fun _ => ?_)
  refine runs_bind (runs_quiet trivial trivial fun f₂ login h₂ _ => ?_)
  have hreq₂ := (h₁.trans h₂).later.request.trans hreq
  refine runs_googleAuthorizationRedirect hreq₂ (fun g legal secret hg hlegal hsecret => ⟨hsecret, fun _ => ?_, ?_⟩) hQ
  · simp only [Bool.or_eq_false_iff, bne_eq_false_iff_eq, Bool.not_eq_false'] at haccepted
    obtain ⟨⟨hterms, hprivacy⟩, hage⟩ := haccepted
    cases hlegal
    refine ⟨rfl, rfl, query, ?_, hterms, hprivacy, hage⟩
    rw [hg.later.request, hreq₂, hroute]
  · exact fun hne => absurd rfl hne

theorem runs_connectStart {Q : AccessRecord → Response → Prop} {ext : Extensions} {calendarAccess tasksAccess : Bool} {purpose : Purpose}
    (hreq : f.request = r) (hext : Remembers cfg f ext) (hpurpose : purpose ≠ .login) (hQ : ∀ g a, Q g a) :
    Runs cfg Q f (connectStart cfg r ext calendarAccess tasksAccess purpose) := by
  unfold connectStart
  refine runs_bind (runs_currentUser hreq hext fun f₁ user _ h₁ ha _ => ?_)
  refine runs_bind (runs_quiet trivial trivial fun f₂ _ h₂ _ => ?_)
  refine runs_bind (runs_failIf fun _ => ?_)
  refine runs_bind (runs_quiet trivial trivial fun f₃ login h₃ _ => ?_)
  have hw := (h₁.trans h₂).trans h₃
  refine runs_googleAuthorizationRedirect (hw.later.request.trans hreq) (fun g legal secret hg _ hsecret => ⟨hsecret, ?_, ?_⟩) hQ
  · exact fun hlogin => absurd hlogin hpurpose
  · exact fun _ => ⟨user, rfl, ha.later ((h₂.trans h₃).trans hg).later⟩

/-! ### Coming back from Google -/

theorem runs_expiresAt {Q : AccessRecord → Option DateTime → Prop} {response : TokenResponse} (hQ : ∀ g a, Went f g → Q g a) :
    Runs cfg Q f (expiresAt response) := by
  unfold expiresAt
  split
  · exact runs_bind (runs_quiet trivial trivial fun g _ hg _ => runs_pure (hQ g _ hg))
  · exact runs_pure (hQ f _ (.refl f))

theorem Does.decrypt {token : String} {w w' : World} {c : List UInt8} (hd : Does cfg (.encrypt token) w c w') :
    cfg.decrypt c = some token := by
  cases hd with
  | encrypt h => exact h

/-- What is encrypted can be decrypted. -/
theorem runs_encrypt {Q : AccessRecord → List UInt8 → Prop} {token : String}
    (hQ : ∀ g c, Went f g → cfg.decrypt c = some token → Q g c) : Runs cfg Q f (call (.encrypt token)) := by
  refine runs_call trivial fun c w w' hs => hQ _ c (went_done (o := .encrypt token) trivial f _) ?_
  cases hs with
  | does hd => exact hd.decrypt

theorem runs_encryptToken {Q : AccessRecord → Option (List UInt8) → Prop} {token : Option String}
    (hQ : ∀ g c, Went f g → (∀ x, c = some x → ∃ t, token = some t ∧ cfg.decrypt x = some t) → Q g c) :
    Runs cfg Q f (encryptToken token) := by
  cases token with
  | none => exact runs_pure (hQ f none (.refl f) nofun)
  | some token =>
    refine runs_bind (runs_encrypt fun g c hg hc => runs_pure (hQ g _ hg fun x hx => ?_))
    cases hx
    exact ⟨token, rfl, hc⟩

theorem runs_integration {Q : AccessRecord → α → Prop} {x : Except String α} (hQ : ∀ a, x = .ok a → Q f a) :
    Runs cfg Q f (integration x) := by
  cases x with
  | error e => exact trivial
  | ok a => exact hQ a rfl

/-- Google identifies who signs in. -/
theorem runs_completeLogin {Q : AccessRecord → GoogleLoginResult → Prop} {clientId code : String} {attempt : LoginAttempt}
    (hid : cfg.google = some clientId)
    (hconsumed : ∃ state secret, oauthBrowserSecret f.request.headers cfg.secureCookies = some secret ∧
      f.Did (.consumeAttempt state secret) (.ok attempt))
    (hQ : ∀ g login, Went f g → Identified cfg g attempt login → Q g login) :
    Runs cfg Q f (completeLogin cfg clientId code attempt.nonce attempt.pkceVerifier) := by
  unfold completeLogin
  refine runs_bind (runs_quiet trivial trivial fun f₁ response h₁ hresponse => ?_)
  refine runs_bind (runs_quiet trivial trivial fun f₂ jwks h₂ hjwks => ?_)
  refine runs_bind (runs_quiet trivial trivial fun f₃ expNow h₃ _ => ?_)
  refine runs_bind (runs_quiet trivial trivial fun f₄ iatNow h₄ _ => ?_)
  refine runs_bind (runs_integration fun claims hclaims => ?_)
  refine runs_bind (runs_expiresAt fun f₅ accessTokenExpiresAt h₅ => ?_)
  refine runs_bind (runs_encrypt fun f₆ access h₆ haccess => ?_)
  refine runs_bind (runs_encryptToken fun f₇ refresh h₇ hrefresh => ?_)
  have h₁₇ := ((((h₂.trans h₃).trans h₄).trans h₅).trans h₆).trans h₇
  refine runs_pure (hQ f₇ _ (h₁.trans h₁₇) ⟨?_, ?_⟩)
  · obtain ⟨state, secret, hs, hd⟩ := hconsumed
    refine ⟨state, secret, ?_, (h₁.trans h₁₇).did hd⟩
    rw [(h₁.trans h₁₇).later.request]
    exact hs
  · refine ⟨clientId, code, response, jwks, claims, hid, h₁₇.did hresponse, ?_, (verifyIdToken_ok hclaims).1, rfl, rfl, haccess, hrefresh⟩
    exact ((((h₃.trans h₄).trans h₅).trans h₆).trans h₇).did hjwks

/-- What is known of the session that a connection is made in. -/
def Connects (f : AccessRecord) (attempt : LoginAttempt) : Prop :=
  ∀ user, attempt.userId = some user → ∃ token session, sessionToken f.request.headers = some token ∧
    f.Did (.authenticateSession token) (.ok session) ∧ session.userId = user

theorem Connects.went {attempt : LoginAttempt} (hc : Connects f attempt) (hw : Went f g) : Connects g attempt := by
  intro user hu
  obtain ⟨token, session, ht, hd, heq⟩ := hc user hu
  refine ⟨token, session, ?_, hw.did hd, heq⟩
  rw [hw.later.request]
  exact ht

theorem runs_checkConnection {Q : AccessRecord → Unit → Prop} {attempt : LoginAttempt} (hreq : f.request = r)
    (hQ : ∀ g, Went f g → Connects g attempt → Q g ()) : Runs cfg Q f (checkConnection r attempt) := by
  subst hreq
  unfold checkConnection
  split
  · next hnone =>
    refine runs_pure (hQ f (.refl f) fun user hu => ?_)
    rw [hnone] at hu
    cases hu
  · next user hsome =>
    refine runs_bind (runs_orFail fun token ht => ?_)
    refine runs_bind (runs_quiet trivial trivial fun g session hg hd => ?_)
    refine runs_failIf fun hne => hQ g hg fun user' hu => ⟨token, session, ?_, hd, ?_⟩
    · rw [hg.later.request]
      exact ht
    · rw [bne_eq_false_iff_eq] at hne
      rw [hsome] at hu
      exact hne.trans (Option.some.inj hu)

theorem runs_updateGoogleCredentials {Q : AccessRecord → Unit → Prop} {attempt : LoginAttempt} {user : Uuid} {login : GoogleLoginResult}
    (hi : Identified cfg f attempt login) (hc : Connects f attempt) (hu : attempt.userId = some user) (hp : attempt.purpose ≠ .login)
    (hQ : ∀ g, Q g ()) : Runs cfg Q f (updateGoogleCredentials user login) := by
  unfold updateGoogleCredentials
  refine runs_bind (runs_quiet trivial trivial fun g isUser hg hd => ?_)
  refine runs_bind (runs_failIf fun hne => ?_)
  cases isUser with
  | false => cases hne
  | true =>
    obtain ⟨token, session, ht, ha, hs⟩ := (hc.went hg) user hu
    exact runs_quiet trivial ⟨hd, attempt, token, session, hi.later hg.later, hu, hp, ht, ha, hs⟩ fun h _ _ _ => hQ h

theorem runs_checkCapacity {Q : AccessRecord → Unit → Prop} {subject : String} (hguards : f.guards = []) (hunread : Unread f)
    (hQ : ∀ g, f.Later g → HasRoom cfg g subject → Q g ()) : Runs cfg Q f (checkCapacity cfg subject) := by
  unfold checkCapacity
  split
  · next hnone =>
    refine runs_pure (hQ f (.refl f) ?_)
    unfold HasRoom
    rw [hnone]
    exact hguards
  · next limit hsome =>
    have hroom : ∀ {g : AccessRecord}, g.guards = [.lock] →
        (g.Did (.subjectRegistered subject) (.ok true) ∨ ∃ n : Int, g.Did .countUsers (.ok n) ∧ n < limit) → HasRoom cfg g subject := by
      intro g hg h
      unfold HasRoom
      rw [hsome]
      exact ⟨hg, h⟩
    refine runs_bind (runs_call ⟨hguards, hunread, fun hne => ?_⟩ fun _ _ _ _ => ?_)
    · rw [hsome] at hne
      cases hne
    have hlock : (done f .lockAccounts (.ok ())).guards = [.lock] := congrArg (Guard.lock :: ·) hguards
    have hl₁ := later_done f .lockAccounts (.ok ())
    refine runs_bind (runs_call hlock fun known _ _ _ => ?_)
    have hl₂ := hl₁.trans (later_done _ (.subjectRegistered subject) (.ok known))
    cases known with
    | true => exact runs_pure (hQ _ hl₂ (hroom hlock (.inl (did_done _ _ _))))
    | false =>
      refine runs_bind (runs_call hlock fun (users : Int) _ _ _ => ?_)
      refine runs_failIf fun hfew => hQ _ (hl₂.trans (later_done _ _ _)) (hroom hlock (.inr ⟨users, did_done _ _ _, ?_⟩))
      have hlt : ¬ users ≥ limit := of_decide_eq_false hfew
      omega

theorem runs_mayBeInvited {Q : AccessRecord → Bool → Prop} {email : String}
    (hQ : ∀ g b, Went f g → (b = true → MayJoin cfg g email) → Q g b) : Runs cfg Q f (mayBeInvited cfg email) := by
  refine runs_ite (fun _ => ?_) fun hopen => ?_
  · refine runs_quiet trivial trivial fun g b hg hd => hQ g b hg fun hb _ => ?_
    rw [← hb]
    exact hd
  · exact runs_pure (hQ f true (.refl f) fun _ hinvite => absurd hinvite hopen)

theorem runs_upsertGoogleUser {Q : AccessRecord → User → Prop} {login : GoogleLoginResult} (hguards : f.guards = []) (hunread : Unread f)
    (hjoin : MayJoin cfg f login.email)
    (hacc : ∃ attempt terms privacy, Identified cfg f attempt login ∧ Accepts attempt terms privacy)
    (hQ : ∀ g user, f.Later g → g.Did (.upsertUser login) (.ok user) → Q g user) : Runs cfg Q f (upsertGoogleUser cfg login) := by
  unfold upsertGoogleUser
  refine runs_bind (runs_quiet trivial trivial fun f₁ _ h₁ _ => ?_)
  refine runs_bind (runs_checkCapacity (h₁.guards.trans hguards) (h₁.unread hunread) fun f₂ h₂ hroom => ?_)
  have hl := h₁.later.trans h₂
  obtain ⟨attempt, terms, privacy, hi, ha⟩ := hacc
  refine runs_call ⟨hroom, hjoin.later hl, attempt, terms, privacy, hi.later hl, ha⟩ fun user _ _ _ => ?_
  exact hQ _ user (hl.trans (later_done _ _ _)) (did_done _ _ _)

theorem runs_signInUser {Q : AccessRecord → Response → Prop} {attempt : LoginAttempt} {terms privacy : String} {login : GoogleLoginResult}
    (hguards : f.guards = []) (hunread : Unread f) (hi : Identified cfg f attempt login) (ha : Accepts attempt terms privacy)
    (hjoin : MayJoin cfg f login.email) (hQ : ∀ g a, Q g a) : Runs cfg Q f (signInUser cfg attempt terms privacy login) := by
  unfold signInUser
  refine runs_bind (runs_recover (fun g e => ?_) (runs_upsertGoogleUser hguards hunread hjoin ⟨attempt, terms, privacy, hi, ha⟩
    fun f₁ user h₁ hd => ?_))
  · cases e with
    | forbidden => exact runs_pure (hQ g _)
    | _ => exact trivial
  · have hj : Joined cfg f₁ user.id attempt login terms privacy := ⟨hi.later h₁, ha, hjoin.later h₁, user, hd, rfl⟩
    -- Consuming the invite changes nothing of what is known.
    have hrest : ∀ g, f₁.Later g → Runs cfg Q g (startSession cfg user.id terms privacy attempt.ageConfirmed) := by
      intro g hg
      refine runs_bind (runs_quiet trivial ⟨attempt, login, hj.later hg⟩ fun k _ hk hacc => ?_)
      rw [ha.2.2.2] at hacc
      have hs : SignedIn cfg k user.id := .inl ⟨attempt, login, terms, privacy, (hj.later hg).later hk.later, hacc⟩
      exact runs_bind (runs_createSession hs fun k' _ => runs_pure (hQ k' _))
    refine runs_bind (runs_ite (fun _ => ?_) fun _ => ?_)
    · exact runs_quiet trivial trivial fun g _ hg _ => hrest g hg.later
    · exact runs_pure (hrest f₁ (.refl f₁))

theorem runs_loginCallback {Q : AccessRecord → Response → Prop} {attempt : LoginAttempt} {login : GoogleLoginResult} (hguards : f.guards = [])
    (hunread : Unread f) (hi : Identified cfg f attempt login) (hp : attempt.purpose = .login) (hQ : ∀ g a, Q g a) :
    Runs cfg Q f (loginCallback cfg attempt login) := by
  unfold loginCallback
  split
  · next terms privacy hterms hprivacy =>
    refine runs_ite (fun hage => ?_) fun _ => runs_pure (hQ f _)
    refine runs_bind (runs_mayBeInvited fun g invited hg hjoin => ?_)
    cases invited with
    | true =>
      exact runs_signInUser (hg.guards.trans hguards) (hg.unread hunread) (hi.later hg.later) ⟨hp, hterms, hprivacy, hage⟩ (hjoin rfl) hQ
    | false => exact runs_pure (hQ g _)
  · exact runs_pure (hQ f _)

theorem runs_completeCallback {Q : AccessRecord → Response → Prop} {attempt : LoginAttempt} {login : GoogleLoginResult}
    (hguards : f.guards = []) (hunread : Unread f) (hi : Identified cfg f attempt login) (hc : Connects f attempt) (hQ : ∀ g a, Q g a) :
    Runs cfg Q f (completeCallback cfg attempt login) := by
  unfold completeCallback
  split
  · next hp =>
    have hne : attempt.purpose ≠ .login := by
      rw [hp]
      nofun
    refine runs_bind (runs_orFail fun user hu => ?_)
    refine runs_bind (runs_failIf fun _ => ?_)
    exact runs_bind (runs_updateGoogleCredentials hi hc hu hne fun g => runs_pure (hQ g _))
  · next hp =>
    have hne : attempt.purpose ≠ .login := by
      rw [hp]
      nofun
    refine runs_bind (runs_orFail fun user hu => ?_)
    refine runs_bind (runs_updateGoogleCredentials hi hc hu hne fun g => ?_)
    exact runs_bind (runs_quiet trivial trivial fun h _ _ _ => runs_pure (hQ h _))
  · next hp => exact runs_loginCallback hguards hunread hi hp hQ

theorem runs_googleAuthCallback {Q : AccessRecord → Response → Prop} {query : GoogleCallbackQuery} (hreq : f.request = r)
    (hroute : r.route = .googleAuthCallback query) (hguards : f.guards = []) (hunread : Unread f) (hQ : ∀ g a, Q g a) : Runs cfg Q f (googleAuthCallback cfg r query) := by
  subst hreq
  unfold googleAuthCallback
  refine runs_bind (runs_failIf fun _ => ?_)
  refine runs_bind (runs_orFail fun code _ => ?_)
  refine runs_bind (runs_orFail fun state hstate => ?_)
  refine runs_bind (runs_orFail fun secret hsecret => ?_)
  refine runs_bind (runs_quiet trivial ⟨hsecret, query, hroute, hstate⟩ fun f₁ attempt h₁ hattempt => ?_)
  refine runs_bind (runs_checkConnection h₁.later.request fun f₂ h₂ hc => ?_)
  refine runs_bind (runs_orFail fun clientId hid => ?_)
  have h₁₂ := h₁.trans h₂
  have hconsumed : ∃ state secret, oauthBrowserSecret f₂.request.headers cfg.secureCookies = some secret ∧
      f₂.Did (.consumeAttempt state secret) (.ok attempt) := by
    refine ⟨state, secret, ?_, h₂.did hattempt⟩
    rw [h₁₂.later.request]
    exact hsecret
  refine runs_bind (runs_completeLogin hid hconsumed fun f₃ login h₃ hi => ?_)
  have hw := h₁₂.trans h₃
  exact runs_completeCallback (hw.guards.trans hguards) (hw.unread hunread) hi (hc.went h₃) hQ

/-! ### All requests -/

theorem runs_handler {Q : AccessRecord → Response → Prop} {ext : Extensions} (hreq : f.request = r) (hguards : f.guards = [])
    (hunread : Unread f) (hext : Remembers cfg f ext) (hQ : ∀ g a, Q g a) : Runs cfg Q f (handler cfg r ext) := by
  unfold handler
  split
  · exact runs_developmentSession hQ
  · exact runs_logout hreq hext hQ
  · exact runs_deleteAccount hreq hext hQ
  · next query hroute => exact runs_googleAuthStart hreq hroute hQ
  · exact runs_connectStart hreq hext nofun hQ
  · exact runs_connectStart hreq hext nofun hQ
  · next query hroute => exact runs_googleAuthCallback hreq hroute hguards hunread hQ
  · refine runs_bind (runs_currentUser hreq hext fun g user _ _ ha _ => ?_)
    exact runs_bind (runs_quiet trivial ha fun h _ _ _ => runs_pure (hQ h _))

/-- What every program ensures. -/
theorem runs_program (cfg : Config) (r : Request) : Runs cfg (fun _ _ => True) (.arrived r) (program cfg r) := by
  have hunread : Unread (.arrived r) := ⟨fun _ _ hd => absurd hd List.not_mem_nil, fun _ hd => absurd hd List.not_mem_nil⟩
  unfold program
  refine runs_bind (runs_limitRequests rfl fun f ext hf hext => ?_)
  refine runs_handler hf.later.request hf.guards (hf.unread hunread) hext fun g response => ?_
  exact runs_quiet trivial trivial fun _ _ _ _ => trivial

end Programs

theorem ensures (cfg : Config) : (service cfg).Ensures (Ready cfg) := ⟨fun _ _ => True, fun _ _ => True, fun r _ => runs_program cfg r⟩

end Access

end Prosepect
