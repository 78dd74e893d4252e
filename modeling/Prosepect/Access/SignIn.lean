/-
Signing in and being signed in: `auth.rs`, the middleware of `request_limits.rs`, and the routes of
`routes.rs` and `export_routes.rs` that begin, use and end a session, with the statements they come to.

What a statement writes is committed at once, but for the lock of `upsert_google_user`, which is held
to the end of its transaction.
-/
import Prosepect.Access.Accounts
import Prosepect.Resumption.Records

namespace Prosepect

open Text Time Resumption

namespace Access

/-! ## Requests -/

structure GoogleLoginQuery where
  termsVersion : String
  privacyVersion : String
  ageConfirmed : Bool
deriving DecidableEq, Repr

structure GoogleCallbackQuery where
  code : Option String
  state : Option String
  error : Option String
deriving DecidableEq, Repr

inductive Route
  | developmentSession
  | logout
  | deleteAccount (confirmation : String)
  | googleAuthStart (query : GoogleLoginQuery)
  | googleCalendarConnectStart
  | googleTasksConnectStart
  | googleAuthCallback (query : GoogleCallbackQuery)
  /-- A route whose handler takes the `CurrentUser`, and is modelled elsewhere if at all. -/
  | other (path : String)
deriving DecidableEq, Repr

structure Request where
  method : Method
  route : Route
  headers : HeaderMap
deriving DecidableEq, Repr

def Route.path : Route → String
  | .developmentSession => "/development/session"
  | .logout => "/session/logout"
  | .deleteAccount _ => "/account"
  | .googleAuthStart _ => "/auth/google/start"
  | .googleCalendarConnectStart => "/auth/google/calendar/start"
  | .googleTasksConnectStart => "/auth/google/tasks/start"
  | .googleAuthCallback _ => "/auth/google/callback"
  | .other path => path

/-- The router: the methods of a route. -/
def Request.Routed (r : Request) : Prop :=
  match r.route with
  | .developmentSession | .logout => r.method = .post
  | .deleteAccount _ => r.method = .delete
  | .googleAuthStart _ | .googleCalendarConnectStart | .googleTasksConnectStart | .googleAuthCallback _ =>
    r.method = .get ∨ r.method = .head
  | .other _ => True

/-- Revoking a session, which is possible at any limit. -/
def Request.isLogout (r : Request) : Bool := decide (r.method = .post) && r.route.path == "/session/logout"

/-- The paths before which nobody is authenticated. -/
def Request.isPublic (r : Request) : Bool :=
  ["/auth/google/start", "/auth/google/callback", "/development/session"].contains r.route.path

def Request.isUpload (r : Request) : Bool := decide (r.method = .post) && r.route.path == "/files"

def Request.isLarge (r : Request) : Bool :=
  r.isUpload || startsWith r.route.path "/exports/" || startsWith r.route.path "/imports/" ||
    (decide (r.method = .get) && r.route.path == "/notes") ||
    (startsWith r.route.path "/files/" && "/download".toList.isSuffixOf r.route.path.toList)

/-! ## Operations -/

/-- The semaphores of `RequestLimits`. -/
inductive Slots
  | authentication
  | requests
  | account (user : Uuid) (write large : Bool)
  | large
deriving DecidableEq, Repr

structure SessionAuthentication where
  userId : Uuid
  csrfToken : String
deriving DecidableEq, Repr

/-- The answer of the token endpoint. -/
structure TokenResponse where
  accessToken : String
  refreshToken : Option String
  idToken : String
  expiresIn : Option TimeDelta
  scopes : Option (List String)
deriving DecidableEq, Repr

inductive Response
  | session (cookie : String) (user : User) (csrfToken : String)
  | redirect (location : String) (cookie : Option String)
  | noContent (cookie : String)
  /-- What the handler of another module answers. -/
  | handled
deriving DecidableEq, Repr

inductive Op
  | acquire (slots : Slots)
  | checkWrite (user : Uuid)
  | checkLogin
  | authenticateSession (token : String)
  | insertSession (token : String) (user : Uuid) (csrfToken : String) (expiresAt : DateTime)
  | deleteSession (token : String)
  | uuidNow
  | ensureDevelopmentUser (user : Uuid)
  | randomToken
  | utcNow
  | unixTime
  | beginAuthorization (calendarAccess tasksAccess : Bool)
  | saveAttempt (login : GoogleLoginStart) (user : Option Uuid) (purpose : Purpose) (legal : Option String × Option String × Bool)
      (secret : String)
  | consumeAttempt (state secret : String)
  | exchangeCode (code verifier : String)
  | fetchKeys
  | encrypt (token : String)
  | emailCanSignIn (email : String)
  | begin
  | lockAccounts
  | subjectRegistered (subject : String)
  | countUsers
  /-- Both `INSERT`s of `upsert_google_user`, and its commit. -/
  | upsertUser (login : GoogleLoginResult)
  | consumeInvite (email : String) (user : Uuid)
  | recordLegalAcceptance (user : Uuid) (terms privacy : String) (age : Bool)
  | matchesUser (user : Uuid) (login : GoogleLoginResult)
  | writeCredentials (user : Uuid) (login : GoogleLoginResult)
  | enqueueDiscovery (user : Uuid)
  | googleCredentials (user : Uuid)
  | revoke (user : Uuid)
  /-- The loop over `account_object_keys`. -/
  | deleteAccountObjects (user : Uuid)
  | deleteUser (user : Uuid)
  /-- The handler of another module runs for the user. -/
  | handle (user : Uuid)
  | respond (response : Response)

def Op.Answer : Op → Type
  | .authenticateSession _ => SessionAuthentication
  | .uuidNow => Uuid
  | .ensureDevelopmentUser _ | .upsertUser _ => User
  | .randomToken => String
  | .utcNow => DateTime
  | .unixTime => Nat
  | .beginAuthorization _ _ => GoogleLoginStart
  | .consumeAttempt _ _ => LoginAttempt
  | .exchangeCode _ _ => TokenResponse
  | .fetchKeys => List Jwk
  | .encrypt _ => List UInt8
  | .emailCanSignIn _ | .subjectRegistered _ | .matchesUser _ _ => Bool
  | .countUsers => Int
  | _ => Unit

abbrev AccessSig : Sig := ⟨Op, fun o => Except AppError o.Answer⟩

abbrev AccessProg (α : Type) : Type := Prog AccessSig AppError α

def call (o : Op) : AccessProg o.Answer := .op o fun r => Prog.ofExcept r

def failIf (p : Bool) (e : AppError) : AccessProg Unit := if p then .fail e else pure ()

/-- `ok_or`. -/
def orFail {α : Type} (o : Option α) (e : AppError) : AccessProg α := Prog.ofExcept (o.elim (.error e) .ok)

/-! ## Who makes a request -/

/-- What the server remembers of a request: its user with the method, and the CSRF token of the session. -/
structure Extensions where
  authenticated : Option (Uuid × Method)
  sessionCsrf : Option String
deriving DecidableEq, Repr

def limitWrite (r : Request) (user : Uuid) : AccessProg Unit :=
  if requiresCsrf r.method && !r.isLogout then call (.checkWrite user) else pure ()

def csrfRequired : AppError := .forbidden "a valid CSRF token is required"

def checkCsrf (r : Request) (session : SessionAuthentication) : AccessProg Unit :=
  if requiresCsrf r.method then do
    let supplied ← orFail (suppliedCsrf r.headers) csrfRequired
    failIf (supplied != session.csrfToken) csrfRequired
  else pure ()

/-- The user of a session. -/
def sessionUser (r : Request) (token : String) : AccessProg (Uuid × Extensions) := do
  let session ← call (.authenticateSession token)
  checkCsrf r session
  limitWrite r session.userId
  return (session.userId, ⟨some (session.userId, r.method), some session.csrfToken⟩)

/-- The user that a header names. -/
def developmentHeaderUser (cfg : Config) (r : Request) (value : List UInt8) (ext : Extensions) : AccessProg (Uuid × Extensions) := do
  let text ← orFail (toStr value) .unauthorized
  let user ← orFail (cfg.parseUuid text) .unauthorized
  limitWrite r user
  return (user, { ext with authenticated := some (user, r.method) })

/-- `CurrentUser::from_request_parts`. -/
def currentUser (cfg : Config) (r : Request) (ext : Extensions) : AccessProg (Uuid × Extensions) :=
  match ext.authenticated.filter fun a => decide (a.2 = r.method) with
  | some (user, _) => return (user, ext)
  | none =>
    match (header? r.headers developmentUserHeader).filter fun _ => cfg.allowInsecureDevAuth with
    | some value => developmentHeaderUser cfg r value ext
    | none =>
      match sessionToken r.headers with
      | some token => sessionUser r token
      | none => .fail .unauthorized

/-- `limit_requests`, around a handler. -/
def limitRequests (cfg : Config) (r : Request) (next : Extensions → AccessProg Response) : AccessProg Response :=
  if r.isPublic then do
    call (.acquire .authentication)
    next ⟨none, none⟩
  else do
    call (.acquire .requests)
    let (user, ext) ← currentUser cfg r ⟨none, none⟩
    if r.isLogout then next ext
    else do
      call (.acquire (.account user (requiresCsrf r.method) r.isLarge))
      call (.acquire .requests)
      if r.isLarge && !r.isUpload then call (.acquire .large)
      next ext

/-! ## Sessions -/

/-- Thirty days. -/
def sessionLifetime : TimeDelta := 30 * usPerDay

/-- The token and the CSRF token of the session. -/
def createSession (user : Uuid) : AccessProg (String × String) := do
  let token ← call .randomToken
  let csrfToken ← call .randomToken
  let now : DateTime ← call .utcNow
  call (.insertSession token user csrfToken (now + sessionLifetime))
  return (token, csrfToken)

def requestedUser (cfg : Config) (r : Request) : Option Uuid := do
  let value ← header? r.headers developmentUserHeader
  let text ← toStr value
  cfg.parseUuid text

def startDevelopment (cfg : Config) (id : Uuid) : AccessProg Response := do
  let user ← call (.ensureDevelopmentUser id)
  let (token, csrfToken) ← createSession user.id
  return .session (sessionCookie token cfg.secureCookies) user csrfToken

def developmentSession (cfg : Config) (r : Request) : AccessProg Response := do
  failIf (!cfg.allowInsecureDevAuth) .unauthorized
  let id ← match requestedUser cfg r with
    | some id => pure id
    | none => call .uuidNow
  startDevelopment cfg id

def endSession (r : Request) : AccessProg Unit :=
  match sessionToken r.headers with
  | some token => call (.deleteSession token)
  | none => pure ()

def logout (cfg : Config) (r : Request) (ext : Extensions) : AccessProg Response := do
  let _ ← currentUser cfg r ext
  endSession r
  return .noContent (expiredSessionCookie cfg.secureCookies)

def deleteAccount (cfg : Config) (r : Request) (ext : Extensions) (confirmation : String) : AccessProg Response := do
  let (user, _) ← currentUser cfg r ext
  failIf (confirmation != "DELETE") (.validation "account deletion confirmation must equal DELETE")
  let credentials ← (call (.googleCredentials user)).attempt
  match credentials with
  | .ok _ =>
    failIf cfg.google.isNone (.notConfigured "Google OAuth")
    call (.revoke user)
  | .error (.notConfigured _) => pure ()
  | .error e => .fail e
  call (.deleteAccountObjects user)
  call (.deleteUser user)
  return .noContent (expiredSessionCookie cfg.secureCookies)

/-! ## Going to Google -/

def currentTermsVersion : String := "2026-10-04"

def currentPrivacyVersion : String := "2026-10-04"

/-- The secret of the browser, or a new one. -/
def browserSecret (cfg : Config) (r : Request) : AccessProg String :=
  match oauthBrowserSecret r.headers cfg.secureCookies with
  | some secret => pure secret
  | none => call .randomToken

def googleAuthorizationRedirect (cfg : Config) (r : Request) (login : GoogleLoginStart) (user : Option Uuid) (purpose : Purpose)
    (legalVersions : Option (String × String)) : AccessProg Response := do
  let secret ← browserSecret cfg r
  let legal ← orFail (legalColumns purpose legalVersions) (.validation "invalid OAuth purpose")
  call (.saveAttempt login user purpose legal secret)
  return .redirect login.authorizationUrl (some (oauthCookie secret cfg.secureCookies))

def googleAuthStart (cfg : Config) (r : Request) (query : GoogleLoginQuery) : AccessProg Response := do
  call .checkLogin
  failIf (query.termsVersion != currentTermsVersion || query.privacyVersion != currentPrivacyVersion || !query.ageConfirmed)
    (.validation "the current Terms, Privacy Policy, and age requirement must be accepted")
  failIf cfg.google.isNone (.notConfigured "Google OAuth")
  let login ← call (.beginAuthorization false false)
  googleAuthorizationRedirect cfg r login none .login (some (currentTermsVersion, currentPrivacyVersion))

/-- `google_calendar_connect_start` and `google_tasks_connect_start`. -/
def connectStart (cfg : Config) (r : Request) (ext : Extensions) (calendarAccess tasksAccess : Bool) (purpose : Purpose) :
    AccessProg Response := do
  let (user, _) ← currentUser cfg r ext
  call .checkLogin
  failIf cfg.google.isNone (.notConfigured "Google OAuth")
  let login ← call (.beginAuthorization calendarAccess tasksAccess)
  googleAuthorizationRedirect cfg r login (some user) purpose none

/-! ## Coming back from Google -/

def integration {α : Type} (x : Except String α) : AccessProg α := Prog.ofExcept (x.mapError .integration)

def expiresAt (response : TokenResponse) : AccessProg (Option DateTime) :=
  match response.expiresIn with
  | some duration => do
    let now : DateTime ← call .utcNow
    return some (now + duration)
  | none => pure none

def encryptToken : Option String → AccessProg (Option (List UInt8))
  | some token => do
    let ciphertext ← call (.encrypt token)
    return some ciphertext
  | none => pure none

/-- `complete_login`. -/
def completeLogin (cfg : Config) (clientId code nonce verifier : String) : AccessProg GoogleLoginResult := do
  let response ← call (.exchangeCode code verifier)
  let jwks ← call .fetchKeys
  let expNow ← call .unixTime
  let iatNow ← call .unixTime
  let claims ← integration (verifyIdToken cfg.jose response.idToken jwks clientId nonce response.accessToken expNow iatNow)
  let accessTokenExpiresAt ← expiresAt response
  let encryptedAccessToken ← call (.encrypt response.accessToken)
  let encryptedRefreshToken ← encryptToken response.refreshToken
  return {
    subject := claims.sub
    email := claims.email
    displayName := claims.name.getD claims.email
    avatarUrl := claims.picture
    encryptedAccessToken := encryptedAccessToken
    encryptedRefreshToken := encryptedRefreshToken
    accessTokenExpiresAt := accessTokenExpiresAt
    scopes := response.scopes.getD [] }

def capacityReached : AppError :=
  .forbidden "new registrations are temporarily paused because service capacity has been reached"

/-- The lock and the count of `upsert_google_user`. -/
def checkCapacity (cfg : Config) (subject : String) : AccessProg Unit :=
  match cfg.maxUserAccounts with
  | none => pure ()
  | some limit => do
    call .lockAccounts
    let known : Bool ← call (.subjectRegistered subject)
    if known then pure ()
    else do
      let users : Int ← call .countUsers
      failIf (decide (users ≥ limit)) capacityReached

def upsertGoogleUser (cfg : Config) (login : GoogleLoginResult) : AccessProg User := do
  call .begin
  checkCapacity cfg login.subject
  call (.upsertUser login)

def updateGoogleCredentials (user : Uuid) (login : GoogleLoginResult) : AccessProg Unit := do
  let isUser ← call (.matchesUser user login)
  failIf (!isUser) (.forbidden "Google Calendar must be connected with the signed-in account")
  call (.writeCredentials user login)

def tasksScope : String := "https://www.googleapis.com/auth/tasks"

/-- `app_url` without slashes at its end. -/
def trimmedUrl (url : String) : String := String.ofList (url.toList.reverse.dropWhile (· == '/')).reverse

def settingsUrl (cfg : Config) : String := trimmedUrl cfg.appUrl ++ "/settings"

def authenticationErrorRedirect (cfg : Config) (error : String) : Response :=
  .redirect (trimmedUrl cfg.appUrl ++ "/?auth_error=" ++ error) none

def invalidAttempt : AppError := .forbidden "the Google sign-in request expired or is invalid"

/-- A connection is made by the session that asked for it. -/
def checkConnection (r : Request) (attempt : LoginAttempt) : AccessProg Unit :=
  match attempt.userId with
  | none => pure ()
  | some user => do
    let token ← orFail (sessionToken r.headers) .unauthorized
    let session ← call (.authenticateSession token)
    failIf (session.userId != user) (.forbidden "the Google connection belongs to a different session")

def consumeInviteIf (cfg : Config) (email : String) (user : Uuid) : AccessProg Unit :=
  if cfg.inviteOnly then call (.consumeInvite email user) else pure ()

/-- The end of a sign-in. -/
def startSession (cfg : Config) (user : Uuid) (terms privacy : String) (age : Bool) : AccessProg Response := do
  call (.recordLegalAcceptance user terms privacy age)
  let (token, _) ← createSession user
  return .redirect cfg.appUrl (some (sessionCookie token cfg.secureCookies))

/-- A sign-in, once Google and the legal acceptance are in order. -/
def signInUser (cfg : Config) (attempt : LoginAttempt) (terms privacy : String) (login : GoogleLoginResult) : AccessProg Response := do
  let result ← (upsertGoogleUser cfg login).attempt
  match result with
  | .ok user =>
    consumeInviteIf cfg login.email user.id
    startSession cfg user.id terms privacy attempt.ageConfirmed
  | .error (.forbidden _) => return authenticationErrorRedirect cfg "capacity_reached"
  | .error e => .fail e

def mayBeInvited (cfg : Config) (email : String) : AccessProg Bool := if cfg.inviteOnly then call (.emailCanSignIn email) else pure true

def loginCallback (cfg : Config) (attempt : LoginAttempt) (login : GoogleLoginResult) : AccessProg Response :=
  match attempt.termsVersion, attempt.privacyVersion with
  | some terms, some privacy =>
    if attempt.ageConfirmed then do
      let invited ← mayBeInvited cfg login.email
      if invited then signInUser cfg attempt terms privacy login
      else return authenticationErrorRedirect cfg "invite_required"
    else return authenticationErrorRedirect cfg "legal_acceptance_required"
  | _, _ => return authenticationErrorRedirect cfg "legal_acceptance_required"

def tasksCallback (cfg : Config) (attempt : LoginAttempt) (login : GoogleLoginResult) : AccessProg Response := do
  let user ← orFail attempt.userId (.forbidden "Google Tasks connection did not identify a user")
  failIf (!login.scopes.contains tasksScope) (.forbidden "Google Tasks permission was not granted")
  updateGoogleCredentials user login
  return .redirect (settingsUrl cfg) none

def calendarCallback (cfg : Config) (attempt : LoginAttempt) (login : GoogleLoginResult) : AccessProg Response := do
  let user ← orFail attempt.userId (.forbidden "Google Calendar connection did not identify a user")
  updateGoogleCredentials user login
  call (.enqueueDiscovery user)
  return .redirect (settingsUrl cfg) none

def completeCallback (cfg : Config) (attempt : LoginAttempt) (login : GoogleLoginResult) : AccessProg Response :=
  match attempt.purpose with
  | .tasksConnect => tasksCallback cfg attempt login
  | .calendarConnect => calendarCallback cfg attempt login
  | .login => loginCallback cfg attempt login

def googleAuthCallback (cfg : Config) (r : Request) (query : GoogleCallbackQuery) : AccessProg Response := do
  failIf query.error.isSome (.forbidden "Google sign-in was not completed")
  let code ← orFail query.code (.forbidden "Google did not return an authorization code")
  let state ← orFail query.state (.forbidden "Google did not return the sign-in state")
  let secret ← orFail (oauthBrowserSecret r.headers cfg.secureCookies) invalidAttempt
  let attempt ← call (.consumeAttempt state secret)
  checkConnection r attempt
  let clientId ← orFail cfg.google (.notConfigured "Google OAuth")
  let login ← completeLogin cfg clientId code attempt.nonce attempt.pkceVerifier
  completeCallback cfg attempt login

/-! ## The programs -/

def otherHandler (cfg : Config) (r : Request) (ext : Extensions) : AccessProg Response := do
  let (user, _) ← currentUser cfg r ext
  call (.handle user)
  return .handled

def handler (cfg : Config) (r : Request) (ext : Extensions) : AccessProg Response :=
  match r.route with
  | .developmentSession => developmentSession cfg r
  | .logout => logout cfg r ext
  | .deleteAccount confirmation => deleteAccount cfg r ext confirmation
  | .googleAuthStart query => googleAuthStart cfg r query
  | .googleCalendarConnectStart => connectStart cfg r ext true false .calendarConnect
  | .googleTasksConnectStart => connectStart cfg r ext false true .tasksConnect
  | .googleAuthCallback query => googleAuthCallback cfg r query
  | .other _ => otherHandler cfg r ext

def program (cfg : Config) (r : Request) : AccessProg Unit := do
  let response ← limitRequests cfg r (handler cfg r)
  call (.respond response)

/-! ## Steps -/

/-- Who answers an operation. -/
inductive Party
  | database | google | limits | process
deriving DecidableEq, Repr

def Op.party : Op → Party
  | .acquire _ | .checkWrite _ | .checkLogin => .limits
  | .uuidNow | .randomToken | .utcNow | .unixTime | .respond _ => .process
  | .beginAuthorization _ _ | .exchangeCode _ _ | .fetchKeys | .encrypt _ | .revoke _ => .google
  | _ => .database

/-- The row that `matchesUser` looks for. -/
def isUserOf (cfg : Config) (user : Uuid) (login : GoogleLoginResult) (u : User) : Bool :=
  u.id == user && u.googleSubject == some login.subject && cfg.lower u.email == cfg.lower login.email

def World.hasUser (w : World) (user : Uuid) : Prop := ∃ u ∈ w.users, u.id = user

/-- What an operation answers when it succeeds. `now` is the `NOW()` of its transaction. -/
inductive Does (cfg : Config) : (o : Op) → World → o.Answer → World → Prop
  | acquire {slots : Slots} {w : World} : Does cfg (.acquire slots) w () w
  | checkWrite {user : Uuid} {w : World} : Does cfg (.checkWrite user) w () w
  | checkLogin {w : World} : Does cfg .checkLogin w () w
  | authenticateSession {token : String} {w : World} {s : Session} {now : DateTime} (h : s ∈ w.sessions)
      (ha : authenticates cfg token now s = true) : Does cfg (.authenticateSession token) w ⟨s.userId, s.csrfToken⟩ w
  /-- With the primary and the foreign key. -/
  | insertSession {token : String} {user : Uuid} {csrfToken : String} {expiresAt : DateTime} {w : World} (hu : w.hasUser user)
      (h : ∀ s ∈ w.sessions, s.tokenHash ≠ cfg.tokenHash token) :
      Does cfg (.insertSession token user csrfToken expiresAt) w ()
        (w.insertSession ⟨cfg.tokenHash token, user, csrfToken, expiresAt⟩)
  | deleteSession {token : String} {w : World} : Does cfg (.deleteSession token) w () (w.deleteSession cfg token)
  | uuidNow {w : World} : Does cfg .uuidNow w w.nextId { w with nextId := w.nextId + 1 }
  | ensureDevelopmentUser {user : Uuid} {w : World} {u : User} (h : u ∈ (w.ensureDevelopmentUser user).users) (hu : u.id = user) :
      Does cfg (.ensureDevelopmentUser user) w u (w.ensureDevelopmentUser user)
  | randomToken {w : World} {token : String} : Does cfg .randomToken w token w
  | utcNow {w : World} {now : DateTime} : Does cfg .utcNow w now w
  | unixTime {w : World} {now : Nat} : Does cfg .unixTime w now w
  | beginAuthorization {calendarAccess tasksAccess : Bool} {w : World} {login : GoogleLoginStart} :
      Does cfg (.beginAuthorization calendarAccess tasksAccess) w login w
  | saveAttempt {login : GoogleLoginStart} {user : Option Uuid} {purpose : Purpose} {legal : Option String × Option String × Bool}
      {secret : String} {w : World} {now : DateTime} (hu : ∀ id, user = some id → w.hasUser id)
      (h : ∀ a ∈ w.attempts, now < a.expiresAt → a.stateHash ≠ cfg.tokenHash login.state) :
      Does cfg (.saveAttempt login user purpose legal secret) w ()
        (w.saveAttempt (newAttempt cfg login user purpose legal secret now) now)
  | consumeAttempt {state secret : String} {w : World} {a : LoginAttempt} {now : DateTime} (h : a ∈ w.attempts)
      (hc : consumable cfg state secret now a = true) : Does cfg (.consumeAttempt state secret) w a (w.consumeAttempt a)
  | exchangeCode {code verifier : String} {w : World} {response : TokenResponse} : Does cfg (.exchangeCode code verifier) w response w
  | fetchKeys {w : World} {jwks : List Jwk} : Does cfg .fetchKeys w jwks w
  | encrypt {token : String} {w : World} {ciphertext : List UInt8} (h : cfg.decrypt ciphertext = some token) :
      Does cfg (.encrypt token) w ciphertext w
  | emailCanSignIn {email : String} {w : World} : Does cfg (.emailCanSignIn email) w (emailCanSignIn cfg email w) w
  | begin {w : World} : Does cfg .begin w () w
  | lockAccounts {w : World} (h : w.locked = false) : Does cfg .lockAccounts w () { w with locked := true }
  | subjectRegistered {subject : String} {w : World} : Does cfg (.subjectRegistered subject) w (registered w.users subject) w
  | countUsers {w : World} : Does cfg .countUsers w (w.users.length : Int) w
  | upsertUser {login : GoogleLoginResult} {w : World} {now : DateTime} :
      Does cfg (.upsertUser login) w (profileOf w.users login w.nextId) (w.upsertUser login now)
  /-- `used_by` refers to a user. -/
  | consumeInvite {email : String} {user : Uuid} {w : World} {now : DateTime} (h : w.hasUser user) :
      Does cfg (.consumeInvite email user) w () (w.consumeInvite cfg email user now)
  | noInvite {email : String} {user : Uuid} {w : World} (h : ∀ i ∈ w.invites, cfg.lower i.email = cfg.lower email → i.usedAt ≠ none) :
      Does cfg (.consumeInvite email user) w () w
  | recordLegalAcceptance {user : Uuid} {terms privacy : String} {age : Bool} {w : World} {now : DateTime} (hu : w.hasUser user)
      (h : age = true) : Does cfg (.recordLegalAcceptance user terms privacy age) w () (w.recordLegalAcceptance user terms privacy age now)
  | matchesUser {user : Uuid} {login : GoogleLoginResult} {w : World} :
      Does cfg (.matchesUser user login) w (w.users.any (isUserOf cfg user login)) w
  | writeCredentials {user : Uuid} {login : GoogleLoginResult} {w : World} {now : DateTime} (hu : w.hasUser user) :
      Does cfg (.writeCredentials user login) w () (w.connect user login now)
  | enqueueDiscovery {user : Uuid} {w : World} : Does cfg (.enqueueDiscovery user) w () w
  | googleCredentials {user : Uuid} {w : World} (h : ∃ a ∈ w.accounts, a.userId = user) : Does cfg (.googleCredentials user) w () w
  | revoke {user : Uuid} {w : World} : Does cfg (.revoke user) w () w
  | deleteAccountObjects {user : Uuid} {w : World} : Does cfg (.deleteAccountObjects user) w () w
  | deleteUser {user : Uuid} {w : World} (h : w.hasUser user) : Does cfg (.deleteUser user) w () (w.deleteUser user)
  | handle {user : Uuid} {w : World} : Does cfg (.handle user) w () w
  | respond {response : Response} {w : World} : Does cfg (.respond response) w () w

/-- What an operation may answer. Of a statement that commits, the answer may be lost; one that fails
with the lock ends its transaction. -/
inductive Step (cfg : Config) : (o : Op) → World → Except AppError o.Answer → World → Prop
  | does {o : Op} {w w' : World} {a : o.Answer} (h : Does cfg o w a w') : Step cfg o w (.ok a) w'
  | failed {o : Op} {w : World} {e : SqlError} (hp : o.party = .database) (ho : ∀ login, o ≠ .upsertUser login) :
      Step cfg o w (.error (.database e)) w
  | aborted {login : GoogleLoginResult} {w : World} {e : SqlError} : Step cfg (.upsertUser login) w (.error (.database e)) w.unlock
  | lost {o : Op} {w w' : World} {a : o.Answer} {e : SqlError} (h : Does cfg o w a w') (hp : o.party = .database)
      (ho : o ≠ .lockAccounts) : Step cfg o w (.error (.database e)) w'
  | refused {o : Op} {w : World} {message : String} (hp : o.party = .limits) : Step cfg o w (.error (.invalidRequest 429 message)) w
  | unavailable {o : Op} {w : World} {message : String} (hp : o.party = .google) : Step cfg o w (.error (.integration message)) w
  | noSession {token : String} {w : World} {now : DateTime} (h : ∀ s ∈ w.sessions, authenticates cfg token now s = false) :
      Step cfg (.authenticateSession token) w (.error .unauthorized) w
  | noAttempt {state secret : String} {w : World} {now : DateTime} (h : ∀ a ∈ w.attempts, consumable cfg state secret now a = false) :
      Step cfg (.consumeAttempt state secret) w (.error invalidAttempt) w
  | noAccount {user : Uuid} {w : World} (h : ∀ a ∈ w.accounts, a.userId ≠ user) :
      Step cfg (.googleCredentials user) w (.error (.notConfigured "Google Calendar integration")) w
  | noUser {user : Uuid} {w : World} (h : ¬ w.hasUser user) : Step cfg (.deleteUser user) w (.error .unauthorized) w
  | noObjects {user : Uuid} {w : World} :
      Step cfg (.deleteAccountObjects user) w (.error (.invalidRequest 500 "could not delete account files")) w
  | notHandled {user : Uuid} {w : World} {e : AppError} : Step cfg (.handle user) w (.error e) w

/-- The transaction with the lock; dropped without a commit, it is rolled back. -/
inductive Guard
  | lock
deriving DecidableEq, Repr

inductive Release : Guard → World → World → Prop
  | rollback {w : World} : Release .lock w w.unlock

/-- What the operators, the synchronization and the settings of a user do to these tables. -/
inductive Idle : World → World → Prop
  | invite {w : World} {email : String} : Idle w { w with invites := w.invites ++ [⟨email, none, none⟩] }
  | disconnect {w : World} {user : Uuid} : Idle w (w.disconnect user)
  | refresh {w : World} {user : Uuid} {token : List UInt8} {expiresAt : Option DateTime} {now : DateTime} :
      Idle w (w.refresh user token expiresAt now)

def guardsAfter : (o : Op) → Except AppError o.Answer → List Guard → List Guard
  | .lockAccounts, .ok _, guards => .lock :: guards
  | .upsertUser _, _, guards => guards.erase .lock
  | _, _, guards => guards

def service (cfg : Config) : Service AccessSig AppError World Request Guard where
  step := Step cfg
  guards := guardsAfter
  release := Release
  idle := Idle
  accepts := Request.Routed
  program := program cfg

end Access

end Prosepect
