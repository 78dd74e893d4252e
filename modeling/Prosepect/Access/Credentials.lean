/-
Whose credentials are stored: in every run of the requests of everybody, the refresh token of a user
was given by Google to somebody it had verified to be that user; a connection was asked for and made
in sessions of the user.
-/
import Prosepect.Access.SignInEnds

namespace Prosepect

open Time Resumption

namespace Access

variable {cfg : Config} {w w' : World} {c d : AccessRun}

/-! ## Where refresh tokens come from -/

/-- The account was there with the token, or is written with that of a login. -/
def Refreshed (w w' : World) (o : Op) (a : OwnedAccount) : Prop :=
  (∃ b ∈ w.accounts, b.userId = a.userId ∧ b.row.encryptedRefreshToken = a.row.encryptedRefreshToken) ∨
  ∃ login, a.row.encryptedRefreshToken = login.encryptedRefreshToken ∧
    ((o = .upsertUser login ∧ a.userId = (profileOf w.users login w.nextId).id ∧ ∃ now, w' = w.upsertUser login now) ∨
      o = .writeCredentials a.userId login)

theorem refreshed_of_mem {o : Op} {a : OwnedAccount} (h : a ∈ w.accounts) : Refreshed w w' o a := .inl ⟨a, h, rfl, rfl⟩

/-- A login without a refresh token leaves the one that was there. -/
theorem or_cases (new old : Option (List UInt8)) : new.or old = old ∨ new.or old = new := by
  cases new with
  | none => exact .inl rfl
  | some c => exact .inr rfl

theorem signedInAccount_refresh (login : GoogleLoginResult) (now : DateTime) (row : Store.GoogleAccountRow) :
    (signedInAccount login now row).encryptedRefreshToken = row.encryptedRefreshToken ∨
      (signedInAccount login now row).encryptedRefreshToken = login.encryptedRefreshToken := by
  unfold signedInAccount
  split
  · exact or_cases _ _
  · exact .inl rfl

/-- An upsert keeps a token or takes that of the login. -/
theorem upsertAccount_refresh (token : Option (List UInt8)) {user : Uuid} {new : Store.GoogleAccountRow}
    {update : Store.GoogleAccountRow → Store.GoogleAccountRow} (hnew : new.encryptedRefreshToken = token)
    (hupdate : ∀ row, (update row).encryptedRefreshToken = row.encryptedRefreshToken ∨ (update row).encryptedRefreshToken = token)
    {a : OwnedAccount} (h : a ∈ upsertAccount w.accounts user new update) :
    (∃ b ∈ w.accounts, b.userId = a.userId ∧ b.row.encryptedRefreshToken = a.row.encryptedRefreshToken) ∨
      a.userId = user ∧ a.row.encryptedRefreshToken = token := by
  rcases mem_upsertAccount h with h | ⟨hu, hrow | ⟨b, hb, hbu, hrow⟩⟩
  · exact .inl ⟨a, h, rfl, rfl⟩
  · exact .inr ⟨hu, hrow ▸ hnew⟩
  · rw [hrow]
    rcases hupdate b.row with hkeep | htake
    · exact .inl ⟨b, hb, hbu.trans hu.symm, hkeep.symm⟩
    · exact .inr ⟨hu, htake⟩

theorem Does.refreshed {o : Op} {b : o.Answer} (h : Does cfg o w b w') {a : OwnedAccount} (ha : a ∈ w'.accounts) : Refreshed w w' o a := by
  cases h with
  | @upsertUser login w now =>
    rcases upsertAccount_refresh login.encryptedRefreshToken rfl (signedInAccount_refresh login now) ha with hb | ⟨hu, ht⟩
    · exact .inl hb
    · exact .inr ⟨login, ht, .inl ⟨rfl, hu, now, rfl⟩⟩
  | @writeCredentials user login w now =>
    rcases upsertAccount_refresh login.encryptedRefreshToken rfl (fun row => or_cases _ _) ha with hb | ⟨hu, ht⟩
    · exact .inl hb
    · exact .inr ⟨login, ht, .inr (by rw [hu])⟩
  | deleteUser => exact refreshed_of_mem (List.mem_of_mem_filter ha)
  | ensureDevelopmentUser =>
    unfold World.ensureDevelopmentUser at ha
    split at ha
    · exact refreshed_of_mem ha
    · exact refreshed_of_mem ha
  | recordLegalAcceptance =>
    unfold World.recordLegalAcceptance at ha
    split at ha
    · exact refreshed_of_mem ha
    · exact refreshed_of_mem ha
  | _ => exact refreshed_of_mem ha

theorem Step.refreshed {o : Op} {r : Except AppError o.Answer} (h : Step cfg o w r w') {a : OwnedAccount} (ha : a ∈ w'.accounts) :
    Refreshed w w' o a := by
  cases h with
  | does hd => exact hd.refreshed ha
  | lost hd => exact hd.refreshed ha
  | _ => exact refreshed_of_mem ha

theorem Idle.refreshed (h : Idle w w') {a : OwnedAccount} (ha : a ∈ w'.accounts) :
    ∃ b ∈ w.accounts, b.userId = a.userId ∧ b.row.encryptedRefreshToken = a.row.encryptedRefreshToken := by
  cases h with
  | invite => exact ⟨a, ha, rfl, rfl⟩
  | disconnect => exact ⟨a, List.mem_of_mem_filter ha, rfl, rfl⟩
  | refresh =>
    obtain ⟨b, hb, rfl⟩ := List.mem_map.1 ha
    refine ⟨b, hb, ?_⟩
    split
    · exact ⟨rfl, rfl⟩
    · exact ⟨rfl, rfl⟩

/-! ## Whose they are -/

/-- The user has the Google account, and the ciphertext is stored as the refresh token. -/
structure Stores (w : World) (user : Uuid) (subject : String) (ciphertext : List UInt8) : Prop where
  account : ∃ a ∈ w.accounts, a.userId = user ∧ a.row.encryptedRefreshToken = some ciphertext
  user : ∃ u ∈ w.users, u.id = user ∧ u.googleSubject = some subject

/-- The ciphertext is of a login of the subject. -/
structure Gives (e : Entry AccessSig) (user : Uuid) (subject : String) (ciphertext : List UInt8) (login : GoogleLoginResult) : Prop where
  subject : login.subject = subject
  token : login.encryptedRefreshToken = some ciphertext
  op : e.1 = .upsertUser login ∨ e.1 = .writeCredentials user login

/-- Who has an account in the table after a step had the subject before. -/
theorem Stores.before (hs : Sound w) (hg : Grown w w') {user : Uuid} {subject : String} {ciphertext : List UInt8}
    (hu : ∃ u ∈ w'.users, u.id = user ∧ u.googleSubject = some subject)
    (ha : ∃ a ∈ w.accounts, a.userId = user ∧ a.row.encryptedRefreshToken = some ciphertext) : Stores w user subject ciphertext := by
  refine ⟨ha, ?_⟩
  obtain ⟨u', hu', rfl, hsub⟩ := hu
  rcases hg.users u' hu' with ⟨u, hu, hid, hsame⟩ | hnew
  · exact ⟨u, hu, hid, hsame.trans hsub⟩
  · obtain ⟨a, ha, heq, -⟩ := ha
    have hlt := hs.user_lt (hs.accounts a ha)
    rw [heq] at hlt
    exact absurd (lt_of_lt_of_le hlt hnew) (lt_irrefl _)

theorem Step.stores (hs : Sound w) (hg : Grown w w') {o : Op} {r : Except AppError o.Answer} (h : Step cfg o w r w')
    (hmatch : ∀ user login, o = .writeCredentials user login → Bound w user login.subject) {user : Uuid} {subject : String}
    {ciphertext : List UInt8} (hx : Stores w' user subject ciphertext) :
    Stores w user subject ciphertext ∨ ∃ login, Gives ⟨o, r⟩ user subject ciphertext login := by
  obtain ⟨⟨a, ha, rfl, htoken⟩, u', hu', hid, hsub⟩ := hx
  rcases Step.refreshed h ha with ⟨b, hb, hbu, hbt⟩ | ⟨login, ht, ⟨rfl, hprofile, now, rfl⟩ | rfl⟩
  · exact .inl (Stores.before hs hg ⟨u', hu', hid, hsub⟩ ⟨b, hb, hbu, hbt.trans htoken⟩)
  · -- The user that a sign-in leaves has the subject of the login.
    obtain ⟨hmem, hprofileSub⟩ := profileOf_spec w login now
    have hbound := bound_of_mem (hs.upsertUser login now) hmem hprofileSub
    exact .inr ⟨login, Option.some.inj ((hbound.subject u' hu' (hid.trans hprofile)).symm.trans hsub), ht.symm.trans htoken, .inl rfl⟩
  · have hb := (hmatch _ _ rfl).grown hg
    exact .inr ⟨login, Option.some.inj ((hb.subject u' hu' hid).symm.trans hsub), ht.symm.trans htoken, .inr rfl⟩

/-- Google has verified whose the refresh token is that it gave with the identity. -/
structure Granted (cfg : Config) (c : AccessRun) (f : AccessRecord) (subject : String) (ciphertext : List UInt8) (attempt : LoginAttempt)
    (login : GoogleLoginResult) : Prop where
  has : c.Has f
  identified : Identified cfg f attempt login
  subject : login.subject = subject
  token : login.encryptedRefreshToken = some ciphertext

/-- A connection is made in a session of the user that it is for. -/
def ConnectedBy (f : AccessRecord) (attempt : LoginAttempt) (user : Uuid) : Prop :=
  attempt.purpose ≠ .login → attempt.userId = some user ∧ ∃ token session, sessionToken f.request.headers = some token ∧
    f.Did (.authenticateSession token) (.ok session) ∧ session.userId = user

/-- What is stored was given, on record. -/
theorem gives_of_stores (hdev : cfg.allowInsecureDevAuth = false) (hc : (service cfg).Reach .empty c) {user : Uuid} {subject : String}
    {ciphertext : List UInt8} (h : Stores c.world user subject ciphertext) :
    ∃ f, c.Has f ∧ ∃ e ∈ f.log, ∃ login, Gives e user subject ciphertext login := by
  refine (ensures cfg).origin (X := Uuid × String × List UInt8) (x := (user, subject, ciphertext))
    (fun w x => Stores w x.1 x.2.1 x.2.2) (fun x e => ∃ login, Gives e x.1 x.2.1 x.2.2 login) ?_ ?_ ?_ ?_ hc h
  · rintro x ⟨⟨a, ha, -⟩, -⟩
    exact absurd ha List.not_mem_nil
  · intro c w' f o r x hc hf hready hs hx
    have hmatch : ∀ user login, o = .writeCredentials user login → Bound c.world user login.subject := by
      rintro user login rfl
      exact known_of_reach hdev hc f hf _ hready.1
    exact Step.stores (sound_of_reach hdev hc) (Step.grown hs (ready_production hdev hready)) hs hmatch hx
  · intro g w w' x hr hx
    rw [hr.eq] at hx
    exact ⟨hx.account, hx.user⟩
  · intro w w' x hi hx
    obtain ⟨⟨a, ha, hu, htoken⟩, hsub⟩ := hx
    obtain ⟨b, hb, hbu, hbt⟩ := Idle.refreshed hi ha
    rw [hi.same.1] at hsub
    exact ⟨⟨b, hb, hbu.trans hu, hbt.trans htoken⟩, hsub⟩

/-- The refresh token that is stored for a user was given by Google to somebody whom it had verified to
have the Google account of the user, with a sign-in or a connection; and a connection was made in a
session of the user. -/
theorem refresh_tokens_granted (hdev : cfg.allowInsecureDevAuth = false) (hc : (service cfg).Reach .empty c) {a : OwnedAccount}
    (ha : a ∈ c.world.accounts) {ciphertext : List UInt8} (ht : a.row.encryptedRefreshToken = some ciphertext) :
    ∃ u ∈ c.world.users, u.id = a.userId ∧ ∃ subject, u.googleSubject = some subject ∧ ∃ f attempt login,
      Granted cfg c f subject ciphertext attempt login ∧ ConnectedBy f attempt u.id := by
  have hsound := sound_of_reach hdev hc
  obtain ⟨u, hu, hid⟩ := hsound.accounts a ha
  obtain ⟨subject, hsub⟩ := hsound.subjects u hu
  have hstores : Stores c.world a.userId subject ciphertext := ⟨⟨a, ha, rfl, ht⟩, u, hu, hid, hsub⟩
  obtain ⟨f, hf, ⟨o, r⟩, he, login, hgives⟩ := gives_of_stores hdev hc hstores
  refine ⟨u, hu, hid, subject, hsub, f, ?_⟩
  rw [hid]
  rcases hgives.op with rfl | rfl
  · obtain ⟨g, hl, -, -, attempt, terms, privacy, hi, haccepts⟩ := (ensures cfg).did hc hf he
    exact ⟨attempt, login, ⟨hf, hi.later hl, hgives.subject, hgives.token⟩, fun hne => absurd haccepts.1 hne⟩
  · obtain ⟨g, hl, -, attempt, token, session, hi, hu, -, htoken, hsession, heq⟩ := (ensures cfg).did hc hf he
    refine ⟨attempt, login, ⟨hf, hi.later hl, hgives.subject, hgives.token⟩, fun _ => ⟨hu, token, session, ?_, hl.did hsession, heq⟩⟩
    rw [hl.request] at *
    exact htoken

theorem refresh_tokens_granted_of_one : ∃ c : AccessRun, (service someConfig).Reach .empty c ∧ ∃ f attempt login,
    Granted someConfig c f "g" (ascii "r") attempt login := by
  obtain ⟨f, ts, -, -, h⟩ := reach_signedIn
  obtain ⟨u, hu, -, subject, hsub, g, attempt, login, hg, -⟩ := refresh_tokens_granted rfl h (List.mem_singleton_self _) rfl
  obtain rfl := List.mem_singleton.1 hu
  cases hsub
  exact ⟨_, h, g, attempt, login, hg⟩

end Access

end Prosepect
