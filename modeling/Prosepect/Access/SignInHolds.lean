/-
What the steps of all requests keep of the tables of sign-in, with the authentication of development
off: a user keeps the Google subject, identifiers do not come back, and what was accepted stays as
long as the user does.
-/
import Prosepect.Access.SignInRuns

namespace Prosepect

open Time Resumption

namespace Access

abbrev AccessRun : Type := Service.Run AccessSig AppError World Request Guard

abbrev AccessTask : Type := Resumption.Task AccessSig AppError AccessRecord

variable {cfg : Config} {w w' : World} {c d : AccessRun}

/-! ## What a step leaves -/

structure Grown (w w' : World) : Prop where
  nextId : w.nextId ≤ w'.nextId
  /-- Who was there has the subject; who is new has a new identifier. -/
  users : ∀ u' ∈ w'.users, (∃ u ∈ w.users, u.id = u'.id ∧ u.googleSubject = u'.googleSubject) ∨ w.nextId ≤ u'.id
  /-- Acceptances go with their user. -/
  acceptances : ∀ a ∈ w.acceptances, w'.hasUser a.userId → a ∈ w'.acceptances
  invites : ∀ i ∈ w.invites, ∃ i' ∈ w'.invites, i'.email = i.email
  saved : w.saved ⊆ w'.saved

/-- Sessions, attempts, credentials and the lock are of no account. -/
theorem Grown.of_eq (hid : w'.nextId = w.nextId) (hu : w'.users = w.users) (ha : w'.acceptances = w.acceptances)
    (hi : w'.invites = w.invites) (hs : w'.saved = w.saved) : Grown w w' := by
  refine ⟨hid.ge, fun u hm => .inl ⟨u, hu ▸ hm, rfl, rfl⟩, fun a hm _ => ha ▸ hm, fun i hm => ⟨i, hi ▸ hm, rfl⟩, ?_⟩
  rw [hs]
  exact List.Subset.refl _

theorem Grown.refl (w : World) : Grown w w := .of_eq rfl rfl rfl rfl rfl

@[simp] theorem signedInUser_id (login : GoogleLoginResult) (u : User) : (signedInUser login u).id = u.id := by
  unfold signedInUser
  split <;> rfl

@[simp] theorem signedInUser_googleSubject (login : GoogleLoginResult) (u : User) :
    (signedInUser login u).googleSubject = u.googleSubject := by
  unfold signedInUser
  split <;> rfl

theorem grown_upsertUser (w : World) (login : GoogleLoginResult) (now : DateTime) : Grown w (w.upsertUser login now) := by
  refine ⟨?_, fun u' hu' => ?_, fun a ha _ => ha, fun i hi => ⟨i, hi, rfl⟩, List.Subset.refl _⟩
  · show w.nextId ≤ if registered w.users login.subject then w.nextId else w.nextId + 1
    split
    · exact le_rfl
    · exact Nat.le_succ _
  · have hmem : u' ∈ if registered w.users login.subject then w.users.map (signedInUser login)
        else w.users ++ [newUser login w.nextId] := hu'
    split at hmem
    · obtain ⟨u, hu, rfl⟩ := List.mem_map.1 hmem
      exact .inl ⟨u, hu, by simp, by simp⟩
    · rcases List.mem_append.1 hmem with hu | hu
      · exact .inl ⟨u', hu, rfl, rfl⟩
      · rw [List.mem_singleton.1 hu]
        exact .inr le_rfl

theorem grown_deleteUser (w : World) (user : Uuid) : Grown w (w.deleteUser user) := by
  refine ⟨le_rfl, fun u hu => .inl ⟨u, List.mem_of_mem_filter hu, rfl, rfl⟩, fun a ha hhas => ?_, fun i hi => ?_, List.Subset.refl _⟩
  · obtain ⟨u, hu, heq⟩ := hhas
    have hkept := (List.mem_filter.1 hu).2
    rw [heq] at hkept
    exact List.mem_filter.2 ⟨ha, hkept⟩
  · refine ⟨_, List.mem_map_of_mem hi, ?_⟩
    split <;> rfl

theorem grown_consumeInvite (cfg : Config) (w : World) (email : String) (user : Uuid) (now : DateTime) :
    Grown w (w.consumeInvite cfg email user now) := by
  refine ⟨le_rfl, fun u hu => .inl ⟨u, hu, rfl, rfl⟩, fun a ha _ => ha, fun i hi => ⟨_, List.mem_map_of_mem hi, ?_⟩, List.Subset.refl _⟩
  split <;> rfl

theorem grown_recordLegalAcceptance (w : World) (user : Uuid) (terms privacy : String) (age : Bool) (now : DateTime) :
    Grown w (w.recordLegalAcceptance user terms privacy age now) := by
  unfold World.recordLegalAcceptance
  split
  · exact .refl w
  · exact ⟨le_rfl, fun u hu => .inl ⟨u, hu, rfl, rfl⟩, fun a ha _ => List.mem_append_left _ ha, fun i hi => ⟨i, hi, rfl⟩,
      List.Subset.refl _⟩

theorem Does.grown {o : Op} {a : o.Answer} (h : Does cfg o w a w') (ho : ∀ user, o ≠ .ensureDevelopmentUser user) : Grown w w' := by
  cases h with
  | uuidNow => exact ⟨Nat.le_succ _, fun u hu => .inl ⟨u, hu, rfl, rfl⟩, fun a ha _ => ha, fun i hi => ⟨i, hi, rfl⟩, List.Subset.refl _⟩
  | ensureDevelopmentUser => exact absurd rfl (ho _)
  | saveAttempt =>
    exact ⟨le_rfl, fun u hu => .inl ⟨u, hu, rfl, rfl⟩, fun a ha _ => ha, fun i hi => ⟨i, hi, rfl⟩, List.subset_append_left _ _⟩
  | upsertUser => exact grown_upsertUser _ _ _
  | consumeInvite => exact grown_consumeInvite _ _ _ _ _
  | recordLegalAcceptance => exact grown_recordLegalAcceptance _ _ _ _ _ _
  | deleteUser => exact grown_deleteUser _ _
  | _ => exact .of_eq rfl rfl rfl rfl rfl

theorem Step.grown {o : Op} {r : Except AppError o.Answer} (h : Step cfg o w r w') (ho : ∀ user, o ≠ .ensureDevelopmentUser user) :
    Grown w w' := by
  cases h with
  | does hd => exact hd.grown ho
  | lost hd => exact hd.grown ho
  | _ => exact .of_eq rfl rfl rfl rfl rfl

theorem Release.eq {g : Guard} (h : Release g w w') : w' = w.unlock := by
  cases h with
  | rollback => rfl

theorem Idle.same (h : Idle w w') : w'.users = w.users ∧ w'.sessions = w.sessions ∧ w'.attempts = w.attempts ∧ w'.saved = w.saved ∧
    w'.locked = w.locked := by
  cases h with
  | _ => exact ⟨rfl, rfl, rfl, rfl, rfl⟩

theorem Idle.grown (h : Idle w w') : Grown w w' := by
  cases h with
  | invite =>
    exact ⟨le_rfl, fun u hu => .inl ⟨u, hu, rfl, rfl⟩, fun a ha _ => ha, fun i hi => ⟨i, List.mem_append_left _ hi, rfl⟩, List.Subset.refl _⟩
  | disconnect | refresh => exact .of_eq rfl rfl rfl rfl rfl

/-- Without the authentication of development, no user is made by a header. -/
theorem ready_production (hdev : cfg.allowInsecureDevAuth = false) {f : AccessRecord} {o : Op} (h : Ready cfg f o) :
    ∀ user, o ≠ .ensureDevelopmentUser user := by
  rintro user rfl
  have h' : cfg.allowInsecureDevAuth = true := h
  rw [hdev] at h'
  cases h'

theorem next_grown (hdev : cfg.allowInsecureDevAuth = false) (hc : (service cfg).Reach .empty c) (hn : (service cfg).Next c d) :
    Grown c.world d.world := by
  rcases (ensures cfg).next hc hn with ⟨f, o, r, -, hready, hs⟩ | heq | ⟨g, hr⟩ | hi
  · exact Step.grown hs (ready_production hdev hready)
  · rw [heq]
    exact .refl _
  · rw [hr.eq]
    exact .of_eq rfl rfl rfl rfl rfl
  · exact Idle.grown hi

/-! ## The tables -/

/-- The keys of the tables. -/
structure Sound (w : World) : Prop where
  ids : (w.users.map (·.id)).Nodup
  below : ∀ u ∈ w.users, u.id < w.nextId
  subjects : ∀ u ∈ w.users, ∃ subject, u.googleSubject = some subject
  sessions : ∀ s ∈ w.sessions, w.hasUser s.userId
  accounts : ∀ a ∈ w.accounts, w.hasUser a.userId
  ages : ∀ a ∈ w.acceptances, a.ageConfirmed = true

theorem Sound.empty : Sound .empty := ⟨List.nodup_nil, nofun, nofun, nofun, nofun, nofun⟩

theorem Sound.unique (h : Sound w) {u v : User} (hu : u ∈ w.users) (hv : v ∈ w.users) (heq : u.id = v.id) : u = v :=
  List.inj_on_of_nodup_map h.ids hu hv heq

theorem Sound.user_lt (h : Sound w) {user : Uuid} (hu : w.hasUser user) : user < w.nextId := by
  obtain ⟨u, hm, rfl⟩ := hu
  exact h.below u hm

/-- The rows of users are as they were; rows of the other tables may go. -/
theorem Sound.shrink (h : Sound w) (hid : w.nextId ≤ w'.nextId) (hu : w'.users = w.users) (hs : w'.sessions ⊆ w.sessions)
    (ha : ∀ a ∈ w'.accounts, ∃ b ∈ w.accounts, b.userId = a.userId) (hc : w'.acceptances ⊆ w.acceptances) : Sound w' := by
  have hhas : ∀ user, w.hasUser user → w'.hasUser user := by
    rintro user ⟨u, hm, heq⟩
    exact ⟨u, hu ▸ hm, heq⟩
  constructor
  · rw [hu]
    exact h.ids
  · intro u hm
    rw [hu] at hm
    exact lt_of_lt_of_le (h.below u hm) hid
  · intro u hm
    rw [hu] at hm
    exact h.subjects u hm
  · exact fun s hm => hhas _ (h.sessions s (hs hm))
  · intro a hm
    obtain ⟨b, hb, heq⟩ := ha a hm
    exact heq ▸ hhas _ (h.accounts b hb)
  · exact fun a hm => h.ages a (hc hm)

theorem mem_upsertAccount {accounts : List OwnedAccount} {user : Uuid} {new : Store.GoogleAccountRow}
    {update : Store.GoogleAccountRow → Store.GoogleAccountRow} {a : OwnedAccount} (h : a ∈ upsertAccount accounts user new update) :
    a ∈ accounts ∨ a.userId = user ∧ (a.row = new ∨ ∃ b ∈ accounts, b.userId = user ∧ a.row = update b.row) := by
  unfold upsertAccount at h
  split at h
  · obtain ⟨b, hb, rfl⟩ := List.mem_map.1 h
    split
    · next heq =>
      have hb' : b.userId = user := by simpa using heq
      exact .inr ⟨hb', .inr ⟨b, hb, hb', rfl⟩⟩
    · exact .inl hb
  · rcases List.mem_append.1 h with h | h
    · exact .inl h
    · rw [List.mem_singleton.1 h]
      exact .inr ⟨rfl, .inl rfl⟩

theorem Sound.upsertAccount (h : Sound w) {user : Uuid} {new : Store.GoogleAccountRow}
    {update : Store.GoogleAccountRow → Store.GoogleAccountRow} (hu : w.hasUser user) :
    Sound { w with accounts := upsertAccount w.accounts user new update } := by
  refine ⟨h.ids, h.below, h.subjects, h.sessions, fun a ha => ?_, h.ages⟩
  rcases mem_upsertAccount ha with ha | ⟨rfl, -⟩
  · exact h.accounts a ha
  · exact hu

theorem registered_iff {users : List User} {subject : String} : registered users subject = true ↔ ∃ u ∈ users, u.googleSubject = some subject := by
  simp [registered]

/-- The row that a sign-in returns is the row it leaves. -/
theorem profileOf_spec (w : World) (login : GoogleLoginResult) (now : DateTime) :
    profileOf w.users login w.nextId ∈ (w.upsertUser login now).users ∧
    (profileOf w.users login w.nextId).googleSubject = some login.subject := by
  cases hfind : w.users.find? (·.googleSubject == some login.subject) with
  | some u =>
    have hmem := List.mem_of_find?_eq_some hfind
    have hsub : u.googleSubject = some login.subject := by simpa using List.find?_some hfind
    have hreg : registered w.users login.subject = true := registered_iff.2 ⟨u, hmem, hsub⟩
    simp only [profileOf, World.upsertUser, hfind, hreg, if_true]
    exact ⟨List.mem_map_of_mem hmem, by simp [hsub]⟩
  | none =>
    have hreg : registered w.users login.subject = false := by
      rw [List.find?_eq_none] at hfind
      rw [← Bool.not_eq_true, registered_iff]
      rintro ⟨u, hu, hs⟩
      exact hfind u hu (by simp [hs])
    simp [profileOf, World.upsertUser, hfind, hreg, newUser]

theorem Sound.upsertUser (h : Sound w) (login : GoogleLoginResult) (now : DateTime) : Sound (w.upsertUser login now) := by
  have hids : ((w.upsertUser login now).users.map (·.id)).Nodup ∧ (∀ u ∈ (w.upsertUser login now).users, u.id < (w.upsertUser login now).nextId) ∧
      (∀ u ∈ (w.upsertUser login now).users, ∃ subject, u.googleSubject = some subject) ∧
      ∀ user, w.hasUser user → (w.upsertUser login now).hasUser user := by
    simp only [World.upsertUser, World.hasUser]
    split
    · refine ⟨?_, fun u hu => ?_, fun u hu => ?_, ?_⟩
      · rw [List.map_map]
        have heq : ((fun u : User => u.id) ∘ signedInUser login) = fun u => u.id := by
          funext u
          simp
        rw [heq]
        exact h.ids
      · obtain ⟨v, hv, rfl⟩ := List.mem_map.1 hu
        rw [signedInUser_id]
        exact h.below v hv
      · obtain ⟨v, hv, rfl⟩ := List.mem_map.1 hu
        rw [signedInUser_googleSubject]
        exact h.subjects v hv
      · rintro user ⟨u, hu, rfl⟩
        exact ⟨_, List.mem_map_of_mem hu, signedInUser_id login u⟩
    · refine ⟨?_, fun u hu => ?_, fun u hu => ?_, ?_⟩
      · rw [List.map_append, List.nodup_append']
        refine ⟨h.ids, List.nodup_singleton _, ?_⟩
        rw [List.map_singleton, List.disjoint_singleton, List.mem_map]
        rintro ⟨u, hu, heq⟩
        have hlt := h.below u hu
        rw [heq] at hlt
        exact absurd hlt (Nat.lt_irrefl _)
      · rcases List.mem_append.1 hu with hu | hu
        · exact Nat.lt_succ_of_lt (h.below u hu)
        · rw [List.mem_singleton.1 hu]
          exact Nat.lt_succ_self _
      · rcases List.mem_append.1 hu with hu | hu
        · exact h.subjects u hu
        · rw [List.mem_singleton.1 hu]
          exact ⟨login.subject, rfl⟩
      · rintro user ⟨u, hu, heq⟩
        exact ⟨u, List.mem_append_left _ hu, heq⟩
  obtain ⟨hnodup, hbelow, hsubjects, hhas⟩ := hids
  refine ⟨hnodup, hbelow, hsubjects, fun s hs => hhas _ (h.sessions s hs), fun a ha => ?_, h.ages⟩
  rcases mem_upsertAccount ha with ha | ⟨heq, -⟩
  · exact hhas _ (h.accounts a ha)
  · exact ⟨_, (profileOf_spec w login now).1, heq.symm⟩

theorem Sound.deleteUser (h : Sound w) (user : Uuid) : Sound (w.deleteUser user) := by
  -- Whoever a kept row is of was not deleted.
  have hhas : ∀ id, w.hasUser id → (!(id == user)) = true → (w.deleteUser user).hasUser id := by
    rintro id ⟨u, hu, rfl⟩ hne
    exact ⟨u, List.mem_filter.2 ⟨hu, hne⟩, rfl⟩
  constructor
  · exact h.ids.sublist (List.filter_sublist.map _)
  · exact fun u hu => h.below u (List.mem_of_mem_filter hu)
  · exact fun u hu => h.subjects u (List.mem_of_mem_filter hu)
  · intro s hs
    obtain ⟨hs, hne⟩ := List.mem_filter.1 hs
    exact hhas _ (h.sessions s hs) hne
  · intro a ha
    obtain ⟨ha, hne⟩ := List.mem_filter.1 ha
    exact hhas _ (h.accounts a ha) hne
  · exact fun a ha => h.ages a (List.mem_of_mem_filter ha)

theorem Does.sound {o : Op} {a : o.Answer} (hs : Sound w) (h : Does cfg o w a w') (ho : ∀ user, o ≠ .ensureDevelopmentUser user) :
    Sound w' := by
  cases h with
  | insertSession hu =>
    refine ⟨hs.ids, hs.below, hs.subjects, fun s hm => ?_, hs.accounts, hs.ages⟩
    rcases List.mem_append.1 hm with hm | hm
    · exact hs.sessions s hm
    · rw [List.mem_singleton.1 hm]
      exact hu
  | deleteSession => exact hs.shrink le_rfl rfl (List.filter_subset_self _) (fun a ha => ⟨a, ha, rfl⟩) (List.Subset.refl _)
  | uuidNow => exact hs.shrink (Nat.le_succ _) rfl (List.Subset.refl _) (fun a ha => ⟨a, ha, rfl⟩) (List.Subset.refl _)
  | ensureDevelopmentUser => exact absurd rfl (ho _)
  | upsertUser => exact hs.upsertUser _ _
  | @recordLegalAcceptance user terms privacy age w now hu hage =>
    unfold World.recordLegalAcceptance
    split
    · exact hs
    · refine ⟨hs.ids, hs.below, hs.subjects, hs.sessions, hs.accounts, fun a ha => ?_⟩
      rcases List.mem_append.1 ha with ha | ha
      · exact hs.ages a ha
      · rw [List.mem_singleton.1 ha]
        exact hage
  | writeCredentials hu => exact hs.upsertAccount hu
  | deleteUser => exact hs.deleteUser _
  | _ => exact hs.shrink le_rfl rfl (List.Subset.refl _) (fun a ha => ⟨a, ha, rfl⟩) (List.Subset.refl _)

theorem Step.sound {o : Op} {r : Except AppError o.Answer} (hs : Sound w) (h : Step cfg o w r w') (ho : ∀ user, o ≠ .ensureDevelopmentUser user) :
    Sound w' := by
  cases h with
  | does hd => exact hd.sound hs ho
  | lost hd => exact hd.sound hs ho
  | aborted => exact hs.shrink le_rfl rfl (List.Subset.refl _) (fun a ha => ⟨a, ha, rfl⟩) (List.Subset.refl _)
  | _ => exact hs

theorem Idle.sound (hs : Sound w) (h : Idle w w') : Sound w' := by
  cases h with
  | invite => exact hs.shrink le_rfl rfl (List.Subset.refl _) (fun a ha => ⟨a, ha, rfl⟩) (List.Subset.refl _)
  | disconnect =>
    exact hs.shrink le_rfl rfl (List.Subset.refl _) (fun a ha => ⟨a, List.mem_of_mem_filter ha, rfl⟩) (List.Subset.refl _)
  | refresh =>
    refine hs.shrink le_rfl rfl (List.Subset.refl _) (fun a ha => ?_) (List.Subset.refl _)
    obtain ⟨b, hb, rfl⟩ := List.mem_map.1 ha
    refine ⟨b, hb, ?_⟩
    split <;> rfl

theorem sound_of_reach (hdev : cfg.allowInsecureDevAuth = false) (hc : (service cfg).Reach .empty c) : Sound c.world := by
  induction hc with
  | init => exact .empty
  | tail hc hn ih =>
    rcases (ensures cfg).next hc hn with ⟨f, o, r, -, hready, hs⟩ | heq | ⟨g, hr⟩ | hi
    · exact Step.sound ih hs (ready_production hdev hready)
    · rw [heq]
      exact ih
    · rw [hr.eq]
      exact ih.shrink le_rfl rfl (List.Subset.refl _) (fun a ha => ⟨a, ha, rfl⟩) (List.Subset.refl _)
    · exact Idle.sound ih hi

/-! ## Sessions -/

/-- The token, as it is stored, of a session that was to be inserted. -/
def insertedToken (cfg : Config) (e : Entry AccessSig) : Option (List UInt8) :=
  match e with
  | ⟨.insertSession token _ _ _, _⟩ => some (cfg.tokenHash token)
  | _ => none

theorem Does.sessions {o : Op} {b : o.Answer} (h : Does cfg o w b w') {s : Session} (hs : s ∈ w'.sessions) :
    s ∈ w.sessions ∨ ∃ token, o = .insertSession token s.userId s.csrfToken s.expiresAt ∧ cfg.tokenHash token = s.tokenHash := by
  cases h with
  | @insertSession token user csrfToken expiresAt w =>
    rcases List.mem_append.1 hs with hs | hs
    · exact .inl hs
    · rw [List.mem_singleton.1 hs]
      exact .inr ⟨token, rfl, rfl⟩
  | deleteSession => exact .inl (List.mem_of_mem_filter hs)
  | deleteUser => exact .inl (List.mem_of_mem_filter hs)
  | ensureDevelopmentUser =>
    unfold World.ensureDevelopmentUser at hs
    split at hs
    · exact .inl hs
    · exact .inl hs
  | recordLegalAcceptance =>
    unfold World.recordLegalAcceptance at hs
    split at hs
    · exact .inl hs
    · exact .inl hs
  | _ => exact .inl hs

theorem Step.sessions {o : Op} {r : Except AppError o.Answer} (h : Step cfg o w r w') {s : Session} (hs : s ∈ w'.sessions) :
    s ∈ w.sessions ∨ ∃ token, o = .insertSession token s.userId s.csrfToken s.expiresAt ∧ cfg.tokenHash token = s.tokenHash := by
  cases h with
  | does hd => exact hd.sessions hs
  | lost hd => exact hd.sessions hs
  | _ => exact .inl hs

/-- Every session was inserted. -/
theorem inserted_of_mem (hc : (service cfg).Reach .empty c) {s : Session} (hs : s ∈ c.world.sessions) :
    ∃ f, c.Has f ∧ ∃ token, cfg.tokenHash token = s.tokenHash ∧ ∃ r, f.Did (.insertSession token s.userId s.csrfToken s.expiresAt) r := by
  have horigin : ∃ f, c.Has f ∧ ∃ e ∈ f.log, ∃ token, e.1 = .insertSession token s.userId s.csrfToken s.expiresAt ∧
      cfg.tokenHash token = s.tokenHash := by
    refine (ensures cfg).origin (fun w s => s ∈ w.sessions)
      (fun s e => ∃ token, e.1 = .insertSession token s.userId s.csrfToken s.expiresAt ∧ cfg.tokenHash token = s.tokenHash)
      (fun _ => List.not_mem_nil) ?_ ?_ ?_ hc hs
    · intro c w' f o r s _ _ _ hstep hs
      exact Step.sessions hstep hs
    · intro g w w' s hr hs
      rw [hr.eq] at hs
      exact hs
    · intro w w' s hi hs
      rw [hi.same.2.1] at hs
      exact hs
  obtain ⟨f, hf, ⟨o, r⟩, he, token, rfl, hhash⟩ := horigin
  exact ⟨f, hf, token, hhash, r, he⟩

/-- Tokens on record stay on record. -/
theorem logged_le (hn : (service cfg).Next c d) : Service.logged (insertedToken cfg) c ≤ Service.logged (insertedToken cfg) d := by
  rcases Service.Next.logged (insertedToken cfg) hn with ⟨o, r, -, hlog⟩ | ⟨hlog, -⟩
  · rw [hlog]
    exact Multiset.le_add_right _ _
  · rw [hlog]

theorem logged_of_mem (hc : (service cfg).Reach .empty c) {s : Session} (hs : s ∈ c.world.sessions) :
    s.tokenHash ∈ Service.logged (insertedToken cfg) c := by
  obtain ⟨f, hf, token, hhash, r, he⟩ := inserted_of_mem hc hs
  rw [← hhash]
  exact Service.mem_logged (insertedToken cfg) hf he rfl

/-! ## A run -/

def ascii (text : String) : List UInt8 := text.toList.map fun c => UInt8.ofNat c.toNat

def someClaims : GoogleClaims := ⟨"g", "a@b", none, none, true, "n", .one "app", none, 0, 1, none⟩

def someKey : Jwk := ⟨some "k", true, none, none, none, []⟩

/-- One user may join, by invitation. -/
def someConfig : Config where
  allowInsecureDevAuth := false
  inviteOnly := true
  secureCookies := true
  maxUserAccounts := some 1
  appUrl := "u"
  google := some "app"
  jose := ⟨fun _ => some ⟨true, none, false, some "k"⟩, fun _ _ _ => some someClaims, id⟩
  tokenHash := ascii
  lower := id
  parseUuid _ := none
  decrypt bytes := some (String.ofList (bytes.map fun b => Char.ofNat b.toNat))

def someSecret : String := String.ofList (List.replicate 43 'A')

def someBrowser : HeaderMap := jarHeader [((oauthCookieName true).toList, someSecret.toList)]

def someQuery : GoogleLoginQuery := ⟨currentTermsVersion, currentPrivacyVersion, true⟩

def someStart : Request := ⟨.get, .googleAuthStart someQuery, []⟩

def someCallback : Request := ⟨.get, .googleAuthCallback ⟨some "c", some "s", none⟩, someBrowser⟩

def someLogin : GoogleLoginStart := ⟨"v", "s", "n", "p"⟩

def someTokens : TokenResponse := ⟨"t", some "r", "i", none, none⟩

/-- The first task goes on. -/
theorem reach_act {w w' : World} {ts : Multiset AccessTask} {gone : List (AccessRecord × Outcome AppError)} {f : AccessRecord}
    {p : AccessProg Unit} {o : Op} {k : Except AppError o.Answer → AccessProg Unit} {r : Except AppError o.Answer}
    (h : (service someConfig).Reach .empty ⟨w, .running f p ::ₘ ts, gone⟩) (hp : p = .op o k) (hs : Step someConfig o w r w') :
    (service someConfig).Reach .empty ⟨w', .running (f.add (guardsAfter o r f.guards) o r) (k r) ::ₘ ts, gone⟩ := by
  subst hp
  exact h.tail (.act hs)

def someHeaders : HeaderMap := ("x-csrf-token", ascii "x") :: jarHeader [(sessionCookieName.toList, "1".toList)]

def someResult : GoogleLoginResult := ⟨"g", "a@b", "a@b", none, ascii "t", some (ascii "r"), none, []⟩

def someUser : User := newUser someResult 0

def someSession : Session := ⟨ascii "1", 0, "x", sessionLifetime⟩

def someAttempt : LoginAttempt := newAttempt someConfig someLogin none .login (some currentTermsVersion, some currentPrivacyVersion, true) someSecret 0

/-- The world after the sign-in. -/
def signedInWorld : World where
  users := [someUser]
  sessions := [someSession]
  attempts := []
  invites := [⟨"a@b", some 0, some 0⟩]
  acceptances := [⟨0, currentTermsVersion, currentPrivacyVersion, true, 0⟩]
  accounts := [⟨0, newAccount someResult 0⟩]
  locked := false
  nextId := 1
  saved := [someAttempt]

theorem has_first {w : World} {ts : Multiset AccessTask} {gone : List (AccessRecord × Outcome AppError)} {f : AccessRecord} {p : AccessProg Unit} :
    Tasks.Has (⟨w, .running f p ::ₘ ts, gone⟩ : AccessRun) f := .inl ⟨_, Multiset.mem_cons_self _ _, rfl⟩

/-- Somebody who is invited signs in. -/
theorem reach_signedIn : ∃ (f : AccessRecord) (ts : Multiset AccessTask),
    f.Did (.consumeAttempt "s" someSecret) (.ok someAttempt) ∧
    Service.logged (insertedToken someConfig) ⟨signedInWorld, .running f (.ret ()) ::ₘ ts, []⟩ = {ascii "1"} ∧
    (service someConfig).Reach .empty ⟨signedInWorld, .running f (.ret ()) ::ₘ ts, []⟩ := by
  have h₀ : (service someConfig).Reach .empty ⟨_, .running (.arrived someStart) (program someConfig someStart) ::ₘ 0, []⟩ :=
    (Tasks.Reach.init.tail (.idle (@Idle.invite _ "a@b"))).tail (.start ⟨someStart, .inl rfl, rfl, rfl⟩)
  have h₁ := reach_act h₀ rfl (.does .acquire)
  have h₂ := reach_act h₁ rfl (.does .checkLogin)
  have h₃ := reach_act h₂ rfl (.does (@Does.beginAuthorization _ _ _ _ someLogin))
  have h₄ := reach_act h₃ rfl (.does (@Does.randomToken _ _ someSecret))
  have h₅ := reach_act h₄ rfl (.does (@Does.saveAttempt _ _ _ _ _ _ _ 0 nofun nofun))
  have h₆ := h₅.tail (.start ⟨someCallback, .inl rfl, rfl, rfl⟩)
  have h₇ := reach_act h₆ rfl (.does .acquire)
  have h₈ := reach_act (o := .consumeAttempt "s" someSecret) h₇ rfl (.does (@Does.consumeAttempt _ _ _ _ someAttempt 0 (List.mem_singleton_self _) (by decide +kernel)))
  have h₉ := reach_act h₈ rfl (.does (@Does.exchangeCode _ _ _ _ someTokens))
  have h₁₀ := reach_act h₉ rfl (.does (@Does.fetchKeys _ _ [someKey]))
  have h₁₁ := reach_act h₁₀ rfl (.does (@Does.unixTime _ _ 0))
  have h₁₂ := reach_act h₁₁ rfl (.does (@Does.unixTime _ _ 0))
  have h₁₃ := reach_act h₁₂ rfl (.does (@Does.encrypt _ "t" _ (ascii "t") (by decide)))
  have h₁₄ := reach_act h₁₃ rfl (.does (@Does.encrypt _ "r" _ (ascii "r") (by decide)))
  have h₁₅ := reach_act h₁₄ rfl (.does .emailCanSignIn)
  have h₁₆ := reach_act h₁₅ rfl (.does .begin)
  have h₁₇ := reach_act h₁₆ rfl (.does (.lockAccounts rfl))
  have h₁₈ := reach_act h₁₇ rfl (.does .subjectRegistered)
  have h₁₉ := reach_act h₁₈ rfl (.does .countUsers)
  have h₂₀ := reach_act h₁₉ rfl (.does (@Does.upsertUser _ _ _ 0))
  have h₂₁ := reach_act h₂₀ rfl (.does (@Does.consumeInvite _ _ _ _ 0 ⟨someUser, List.mem_singleton_self _, rfl⟩))
  have h₂₂ := reach_act h₂₁ rfl (.does (@Does.recordLegalAcceptance _ _ _ _ _ _ 0 ⟨someUser, List.mem_singleton_self _, rfl⟩ rfl))
  have h₂₃ := reach_act h₂₂ rfl (.does (@Does.randomToken _ _ "1"))
  have h₂₄ := reach_act h₂₃ rfl (.does (@Does.randomToken _ _ "x"))
  have h₂₅ := reach_act h₂₄ rfl (.does (@Does.utcNow _ _ 0))
  have h₂₆ := reach_act h₂₅ rfl (.does (.insertSession ⟨someUser, List.mem_singleton_self _, rfl⟩ nofun))
  have h₂₇ := reach_act h₂₆ rfl (.does .respond)
  exact ⟨_, _, List.mem_of_getElem? (i := 1) rfl, rfl, h₂₇⟩

end Access

end Prosepect
