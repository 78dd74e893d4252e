/-
The tables of sign-in: `users`, `sessions`, `oauth_login_attempts`, `account_invites`,
`legal_acceptances` and `google_accounts`, and what the statements of `store.rs` write to them. The
rows are those of all users, for who is signed in is what is to be decided.
-/
import Prosepect.Access.Headers
import Prosepect.Access.IdToken
import Prosepect.Store.UndoGuards

namespace Prosepect

open Text Time
open Store (GoogleAccountRow updateGoogleAccessToken)

namespace Access

/-- The configuration, and the libraries the code calls. -/
structure Config where
  allowInsecureDevAuth : Bool
  inviteOnly : Bool
  secureCookies : Bool
  maxUserAccounts : Option Int
  appUrl : String
  /-- The client id of `google_oauth`. -/
  google : Option String
  jose : Jose
  /-- SHA-256. -/
  tokenHash : String → List UInt8
  /-- `LOWER`. -/
  lower : String → String
  parseUuid : List Char → Option Uuid
  /-- What a ciphertext was made of, under the key of the configuration. -/
  decrypt : List UInt8 → Option String

/-! ## Rows -/

structure User where
  id : Uuid
  googleSubject : Option String
  email : String
  displayName : String
  avatarUrl : Option String
deriving DecidableEq, Repr

structure Session where
  tokenHash : List UInt8
  userId : Uuid
  csrfToken : String
  expiresAt : DateTime
deriving DecidableEq, Repr

inductive Purpose
  | login | calendarConnect | tasksConnect
deriving DecidableEq, Repr

/-- A row of `oauth_login_attempts`. -/
structure LoginAttempt where
  stateHash : List UInt8
  nonce : String
  pkceVerifier : String
  expiresAt : DateTime
  userId : Option Uuid
  purpose : Purpose
  termsVersion : Option String
  privacyVersion : Option String
  ageConfirmed : Bool
  browserBindingHash : List UInt8
deriving DecidableEq, Repr

structure Invite where
  email : String
  usedAt : Option DateTime
  usedBy : Option Uuid
deriving DecidableEq, Repr

structure LegalAcceptance where
  userId : Uuid
  termsVersion : String
  privacyVersion : String
  ageConfirmed : Bool
  acceptedAt : DateTime
deriving DecidableEq, Repr

structure OwnedAccount where
  userId : Uuid
  row : GoogleAccountRow
deriving DecidableEq, Repr

structure World where
  users : List User
  sessions : List Session
  attempts : List LoginAttempt
  invites : List Invite
  acceptances : List LegalAcceptance
  accounts : List OwnedAccount
  /-- `pg_advisory_xact_lock(741733075)` is held. -/
  locked : Bool
  nextId : Uuid
  /-- All login attempts there ever were. No code reads them. -/
  saved : List LoginAttempt

/-! ## What is written -/

structure GoogleLoginStart where
  authorizationUrl : String
  state : String
  nonce : String
  pkceVerifier : String
deriving DecidableEq, Repr

structure GoogleLoginResult where
  subject : String
  email : String
  displayName : String
  avatarUrl : Option String
  encryptedAccessToken : List UInt8
  encryptedRefreshToken : Option (List UInt8)
  accessTokenExpiresAt : Option DateTime
  scopes : List String
deriving DecidableEq, Repr

/-- `scope LIKE '%/auth/calendar%'`. -/
def calendarScope (scope : String) : Bool := contains scope "/auth/calendar"

/-- The `ON CONFLICT` of `upsert_google_user`: a plain sign-in leaves the credentials. -/
def signedInAccount (login : GoogleLoginResult) (now : DateTime) (row : GoogleAccountRow) : GoogleAccountRow :=
  if login.scopes.any calendarScope then
    { row with
      encryptedAccessToken := login.encryptedAccessToken
      encryptedRefreshToken := login.encryptedRefreshToken.or row.encryptedRefreshToken
      accessTokenExpiresAt := login.accessTokenExpiresAt
      scopes := login.scopes
      updatedAt := now }
  else { row with updatedAt := now }

/-- The `ON CONFLICT` of `update_google_credentials`. -/
def connectedAccount (login : GoogleLoginResult) (now : DateTime) (row : GoogleAccountRow) : GoogleAccountRow :=
  { row with
    encryptedAccessToken := login.encryptedAccessToken
    encryptedRefreshToken := login.encryptedRefreshToken.or row.encryptedRefreshToken
    accessTokenExpiresAt := login.accessTokenExpiresAt
    scopes := login.scopes
    updatedAt := now }

def newAccount (login : GoogleLoginResult) (now : DateTime) : GoogleAccountRow :=
  ⟨login.encryptedAccessToken, login.encryptedRefreshToken, login.accessTokenExpiresAt, login.scopes, now, now⟩

/-- `INSERT INTO google_accounts … ON CONFLICT (user_id) DO UPDATE`. -/
def upsertAccount (accounts : List OwnedAccount) (user : Uuid) (new : GoogleAccountRow) (update : GoogleAccountRow → GoogleAccountRow) :
    List OwnedAccount :=
  if accounts.any (·.userId == user) then
    accounts.map fun a => if a.userId == user then { a with row := update a.row } else a
  else accounts ++ [⟨user, new⟩]

def newUser (login : GoogleLoginResult) (id : Uuid) : User :=
  ⟨id, some login.subject, login.email, login.displayName, login.avatarUrl⟩

/-- The `ON CONFLICT (google_subject)` of `upsert_google_user`. -/
def signedInUser (login : GoogleLoginResult) (u : User) : User :=
  if u.googleSubject == some login.subject then
    { u with email := login.email, displayName := login.displayName, avatarUrl := login.avatarUrl }
  else u

/-- The row that `upsert_google_user` returns. -/
def profileOf (users : List User) (login : GoogleLoginResult) (nextId : Uuid) : User :=
  match users.find? (·.googleSubject == some login.subject) with
  | some u => signedInUser login u
  | none => newUser login nextId

/-- Somebody has the subject. -/
def registered (users : List User) (subject : String) : Bool := users.any (·.googleSubject == some subject)

def developmentUser (id : Uuid) : User := ⟨id, none, toString id ++ "@development.invalid", "", none⟩

/-- The columns of `save_google_login_attempt` that depend on the purpose. -/
def legalColumns : Purpose → Option (String × String) → Option (Option String × Option String × Bool)
  | .login, some (terms, privacy) => some (some terms, some privacy, true)
  | .calendarConnect, none | .tasksConnect, none => some (none, none, false)
  | _, _ => none

def newAttempt (cfg : Config) (login : GoogleLoginStart) (user : Option Uuid) (purpose : Purpose)
    (legal : Option String × Option String × Bool) (secret : String) (now : DateTime) : LoginAttempt :=
  { stateHash := cfg.tokenHash login.state
    nonce := login.nonce
    pkceVerifier := login.pkceVerifier
    expiresAt := now + 600 * usPerSecond
    userId := user
    purpose := purpose
    termsVersion := legal.1
    privacyVersion := legal.2.1
    ageConfirmed := legal.2.2
    browserBindingHash := cfg.tokenHash secret }

/-- What `consume_google_login_attempt` deletes. -/
def consumable (cfg : Config) (state secret : String) (now : DateTime) (a : LoginAttempt) : Bool :=
  a.stateHash == cfg.tokenHash state && a.browserBindingHash == cfg.tokenHash secret && decide (now < a.expiresAt)

/-- What `authenticate_session` finds. -/
def authenticates (cfg : Config) (token : String) (now : DateTime) (s : Session) : Bool :=
  s.tokenHash == cfg.tokenHash token && decide (now < s.expiresAt)

/-- `email_can_sign_in`. -/
def emailCanSignIn (cfg : Config) (email : String) (w : World) : Bool :=
  w.users.any (fun u => cfg.lower u.email == cfg.lower email) ||
    w.invites.any fun i => cfg.lower i.email == cfg.lower email && i.usedAt.isNone

namespace World

variable (cfg : Config) (w : World)

def empty : World := ⟨[], [], [], [], [], [], false, 0, []⟩

/-- A transaction with the lock ends without a commit. -/
def unlock : World := { w with locked := false }

def ensureDevelopmentUser (id : Uuid) : World :=
  if w.users.any (·.id == id) then w else { w with users := w.users ++ [developmentUser id] }

def insertSession (s : Session) : World := { w with sessions := w.sessions ++ [s] }

def deleteSession (token : String) : World := { w with sessions := w.sessions.filter fun s => !(s.tokenHash == cfg.tokenHash token) }

/-- The transaction of `save_google_login_attempt`, which first deletes what has expired. -/
def saveAttempt (a : LoginAttempt) (now : DateTime) : World :=
  { w with attempts := w.attempts.filter (fun b => decide (now < b.expiresAt)) ++ [a], saved := w.saved ++ [a] }

def consumeAttempt (a : LoginAttempt) : World := { w with attempts := w.attempts.erase a }

/-- The two statements of `upsert_google_user` and its commit: from the first statement on, the rows are
locked. -/
def upsertUser (login : GoogleLoginResult) (now : DateTime) : World :=
  { w with
    users := if registered w.users login.subject then w.users.map (signedInUser login) else w.users ++ [newUser login w.nextId]
    accounts :=
      upsertAccount w.accounts (profileOf w.users login w.nextId).id (newAccount login now) (signedInAccount login now)
    nextId := if registered w.users login.subject then w.nextId else w.nextId + 1
    locked := false }

def connect (user : Uuid) (login : GoogleLoginResult) (now : DateTime) : World :=
  { w with accounts := upsertAccount w.accounts user (newAccount login now) (connectedAccount login now) }

def consumeInvite (email : String) (user : Uuid) (now : DateTime) : World :=
  { w with
    invites := w.invites.map fun i =>
      if cfg.lower i.email == cfg.lower email && i.usedAt.isNone then { i with usedAt := some now, usedBy := some user } else i }

def recordLegalAcceptance (user : Uuid) (terms privacy : String) (age : Bool) (now : DateTime) : World :=
  if w.acceptances.any (fun a => a.userId == user && a.termsVersion == terms && a.privacyVersion == privacy) then w
  else { w with acceptances := w.acceptances ++ [⟨user, terms, privacy, age, now⟩] }

/-- `DELETE FROM users`, with what it cascades to. -/
def deleteUser (user : Uuid) : World :=
  { w with
    users := w.users.filter fun u => !(u.id == user)
    sessions := w.sessions.filter fun s => !(s.userId == user)
    attempts := w.attempts.filter fun a => !(a.userId == some user)
    invites := w.invites.map fun i => if i.usedBy == some user then { i with usedBy := none } else i
    acceptances := w.acceptances.filter fun a => !(a.userId == user)
    accounts := w.accounts.filter fun a => !(a.userId == user) }

/-- `revoke_google_integration`. -/
def disconnect (user : Uuid) : World := { w with accounts := w.accounts.filter fun a => !(a.userId == user) }

/-- `update_google_access_token`. -/
def refresh (user : Uuid) (token : List UInt8) (expiresAt : Option DateTime) (now : DateTime) : World :=
  { w with
    accounts := w.accounts.map fun a =>
      if a.userId == user then { a with row := updateGoogleAccessToken token expiresAt now a.row } else a }

end World

end Access

end Prosepect
