/-
A link is synchronized again and again while nobody edits: after one success there is nothing to do,
and after failures there is still no conflict, unless a title with white space around it is sent.
-/
import Prosepect.GoogleTasks.Settle

namespace Prosepect

open Time Text Resumption Table

namespace GoogleTasks

variable {G : Type}

/-- Primary keys. -/
structure Keyed (σ : LinkState G) : Prop where
  links : Unique (fun l : GoogleTaskLink => some l.id) σ.links
  tasks : Unique (fun t : TaskRow => some t.id) σ.w.db.tasks

theorem Keyed.row {σ : LinkState G} (h : Keyed σ) {l : GoogleTaskLink} (hl : l ∈ σ.links) : Row l σ := ⟨h.links, hl⟩

/-- A task of Google is the copy of a link, or the one it has created. -/
def GoogleTaskLink.Concerns (l : GoogleTaskLink) (identity : String) (t : GoogleTask) : Prop :=
  l.externalTaskId = some identity ∨ (l.createReference.isSome ∧ t.notes = l.createReference)

/-- Nobody edits the link, the shared fields of its task or its copy; all else may change. -/
structure Undisturbed (env : LinkEnv G) (shown : G → String → Option GoogleTask) (link : Uuid) (σ σ' : LinkState G) : Prop where
  links : ∀ l, l.id = link → (l ∈ σ'.links ↔ l ∈ σ.links)
  mine : ∀ l ∈ σ.links, l.id = link → l.mine? env.zone σ'.w = l.mine? env.zone σ.w
  google : ∀ l ∈ σ.links, l.id = link → ∀ identity t, l.Concerns identity t →
    (shown σ'.google identity = some t ↔ shown σ.google identity = some t)

/-- The link is synchronized any number of times, whether a run succeeds or fails, and nobody edits. -/
inductive Retried (env : LinkEnv G) (shown : G → String → Option GoogleTask) (link : Uuid) (σ : LinkState G) :
    LinkState G → Prop
  | start : Retried env shown link σ σ
  | wait {a b : LinkState G} : Retried env shown link σ a → Undisturbed env shown link a b → Retried env shown link σ b
  | sync {a : LinkState G} (l : GoogleTaskLink) (remote : List GoogleTask) : Retried env shown link σ a → Keyed a →
      l ∈ a.links → l.id = link → Snapshot shown remote a.google →
      Retried env shown link σ (syncGoogleTaskLink env remote l a).2

/-- The task or the copy has the fields of the baseline. -/
def GoogleTaskLink.OneSide (env : LinkEnv G) (w : Workspace) (t : GoogleTask) (l : GoogleTaskLink) : Prop :=
  ∀ baseline mine remote, l.baseline = some baseline → l.mine? env.zone w = some mine → t.fields env.dates = .ok remote →
    mine = baseline ∨ remote = baseline

/-- Only one side differs from the baseline, as far as there are two. -/
structure GoogleTaskLink.OneSided (env : LinkEnv G) (shown : G → String → Option GoogleTask) (l : GoogleTaskLink)
    (σ : LinkState G) : Prop where
  linked : l.phase = .linked → ∀ identity, l.externalTaskId = some identity → ∀ t, shown σ.google identity = some t →
    l.OneSide env σ.w t
  creating : l.phase = .creating → ∀ reference, l.createReference = some reference → ∀ identity t,
    shown σ.google identity = some t → t.notes = some reference → l.OneSide env σ.w t
  prepared : l.phase = .prepared → ∀ reference, l.createReference = some reference → ∀ identity t,
    shown σ.google identity = some t → t.notes ≠ some reference

/-- The title of the task can be sent as it is, where there is a baseline. -/
def GoogleTaskLink.SendsTitle (env : LinkEnv G) (l : GoogleTaskLink) (σ : LinkState G) : Prop :=
  l.phase = .linked ∨ l.phase = .creating → ∀ baseline mine, l.baseline = some baseline →
    l.mine? env.zone σ.w = some mine → Sendable baseline mine

/-- Since a creation that may have happened was sent, neither side has been edited. -/
structure GoogleTaskLink.Unedited (env : LinkEnv G) (shown : G → String → Option GoogleTask) (l : GoogleTaskLink)
    (σ : LinkState G) : Prop where
  mine : ∀ sent, l.baseline = some sent → l.mine? env.zone σ.w = some sent
  google : ∀ sent, l.baseline = some sent → ∀ reference, l.createReference = some reference → ∀ identity t,
    shown σ.google identity = some t → t.notes = some reference → (sent.googleBody env.dates).Held t
  title : ∀ sent, l.baseline = some sent → trim sent.title = sent.title

section Runs

variable {env : LinkEnv G} {shown : G → String → Option GoogleTask} {l : GoogleTaskLink} {σ σ' : LinkState G}

theorem GoogleTaskLink.OneSided.agrees (h : l.OneSided env shown σ) (hsend : l.SendsTitle env σ) : l.Agrees env shown σ := by
  have hmergeable : ∀ {baseline mine remote : TaskFields}, mine = baseline ∨ remote = baseline →
      Mergeable baseline mine remote := by
    rintro baseline mine remote (rfl | rfl)
    · exact mergeable_baseline _ _
    · exact ⟨.inr (.inl rfl), .inr (.inl rfl), .inr (.inl rfl)⟩
  refine ⟨?_, ?_, h.prepared, hsend⟩
  · intro hphase identity hid t ht baseline mine remote hb hm hr
    exact hmergeable (h.linked hphase identity hid t ht baseline mine remote hb hm hr)
  · intro hphase reference hreference identity t ht hnotes baseline mine remote hb hm hr
    exact hmergeable (h.creating hphase reference hreference identity t ht hnotes baseline mine remote hb hm hr)

theorem Undisturbed.agrees (h : Undisturbed env shown l.id σ σ') (hl : l ∈ σ.links) (hagrees : l.Agrees env shown σ) :
    l.Agrees env shown σ' where
  linked := by
    intro hphase identity hid t ht baseline mine remote hb hm hr
    rw [h.mine l hl rfl] at hm
    exact hagrees.linked hphase identity hid t ((h.google l hl rfl identity t (.inl hid)).1 ht) baseline mine remote hb hm hr
  creating := by
    intro hphase reference hreference identity t ht hnotes baseline mine remote hb hm hr
    rw [h.mine l hl rfl] at hm
    have hconcerns : l.Concerns identity t := .inr ⟨by rw [hreference]; rfl, by rw [hnotes, hreference]⟩
    exact hagrees.creating hphase reference hreference identity t ((h.google l hl rfl identity t hconcerns).1 ht) hnotes
      baseline mine remote hb hm hr
  prepared := by
    intro hphase reference hreference identity t ht hnotes
    have hconcerns : l.Concerns identity t := .inr ⟨by rw [hreference]; rfl, by rw [hnotes, hreference]⟩
    exact hagrees.prepared hphase reference hreference identity t ((h.google l hl rfl identity t hconcerns).1 ht) hnotes
  sendable := by
    intro hphase baseline mine hb hm
    rw [h.mine l hl rfl] at hm
    exact hagrees.sendable hphase baseline mine hb hm

theorem Undisturbed.settled (h : Undisturbed env shown l.id σ σ') (hl : l ∈ σ.links) {identity : String} {fields : TaskFields}
    (hs : l.Settled env shown identity fields σ) : l.Settled env shown identity fields σ' := by
  obtain ⟨t, ht, hfields⟩ := hs.google
  refine ⟨hs.phase, hs.externalTaskId, hs.conflict, hs.baseline, ?_, t, ?_, hfields⟩
  · rw [h.mine l hl rfl]
    exact hs.mine
  · exact (h.google l hl rfl identity t (.inl hs.externalTaskId)).2 ht

/-- What holds of a link all through the retries. -/
theorem Retried.agrees (hp : Provider env shown) {link : Uuid} (h : Retried env shown link σ σ') (hrow : Row l σ) (hid : l.id = link)
    (hagrees : l.Agrees env shown σ) :
    ∃ l', (l' ∈ σ'.links ∧ ∀ x ∈ σ'.links, x.id = link → x = l') ∧ l'.id = link ∧
      (l'.conflict = none ∨ l'.conflict = l.conflict) ∧ l'.Agrees env shown σ' := by
  induction h with
  | start => exact ⟨l, ⟨hrow.mem, fun x hx hxid => hrow.eq hx (hxid.trans hid.symm)⟩, hid, .inr rfl, hagrees⟩
  | @wait a b _ hwait ih =>
    obtain ⟨l', ⟨hl', honly⟩, hid', hconflict, hagrees'⟩ := ih
    subst hid'
    refine ⟨l', ⟨(hwait.links l' rfl).2 hl', fun x hx hxid => honly x ((hwait.links x hxid).1 hx) hxid⟩, rfl, hconflict,
      hwait.agrees hl' hagrees'⟩
  | @sync a k remote _ hkeys hk hkid hremote ih =>
    obtain ⟨l', ⟨hl', honly⟩, hid', hconflict, hagrees'⟩ := ih
    obtain rfl := honly k hk hkid
    have hends : ∃ l'', Continues k l'' (syncGoogleTaskLink env remote k a).2 ∧
        l''.Agrees env shown (syncGoogleTaskLink env remote k a).2 :=
      ((ends_syncGoogleTaskLink hp (hkeys.row hk) hremote hkeys.tasks).imp (fun _ _ hs => hs.agrees (hkeys.row hk) hagrees')
        fun _ hf => hf hagrees').state (P := fun s => ∃ l'', Continues k l'' s ∧ l''.Agrees env shown s)
    obtain ⟨l'', hcontinues, hagrees''⟩ := hends
    refine ⟨l'', ⟨hcontinues.row.mem, fun x hx hxid => hcontinues.row.eq hx ?_⟩, hcontinues.id.trans hkid, ?_, hagrees''⟩
    · rw [hxid, hcontinues.id, hkid]
    · rcases hcontinues.conflict with h | h
      · exact .inl h
      · rw [h]
        exact hconflict

/-- A recovered link is settled if nothing has been edited since. -/
theorem Recovered.settled (hp : Provider env shown) {a : Option String} {l' : GoogleTaskLink}
    (h : Recovered env shown l a σ σ' l') (hunedited : l.Unedited env shown σ) :
    ∃ identity fields, a = some identity ∧ l'.Settled env shown identity fields σ' := by
  obtain ⟨t, fields, reference, sent, ht, hfields, hreference, hnotes, rfl, hid, hsent⟩ := h.found
  obtain rfl : fields = sent := by
    rw [hp.held (hunedited.google sent hsent reference hreference t.id t ht hnotes) hfields, hunedited.title sent hsent]
  refine ⟨t.id, fields, rfl, h.phase, hid, h.conflict, h.baseline.trans hsent, ?_, t, ?_, hfields⟩
  · unfold GoogleTaskLink.mine?
    rw [h.w, h.continues.taskId]
    exact hunedited.mine fields hsent
  · rw [h.google]
    exact ht

theorem syncGoogleTaskLink_left (remote : List GoogleTask) (h : l.phase = .detached ∨ holding l.taskId σ.w = true) :
    syncGoogleTaskLink env remote l σ = (.ok none, σ) := by
  unfold syncGoogleTaskLink
  rw [Eff.read_bind_run]
  by_cases hphase : l.phase = .detached
  · rw [if_pos hphase]
    rfl
  · rw [if_neg hphase, if_pos (h.resolve_left hphase)]
    rfl

/-- After a run that succeeds while nobody edits, the task, its copy and the baseline have the same
fields, and the next run sends nothing, writes no task and records no conflict; a link that is
detached or held back is left alone. If only one side differs from the baseline, and the title of
the task can be sent as it is, no run and no retry ever records a conflict. -/
theorem link_settles (hp : Provider env shown) (hkeys : Keyed σ) (hl : l ∈ σ.links) :
    (∀ remote a σ₁, Snapshot shown remote σ.google → syncGoogleTaskLink env remote l σ = (.ok a, σ₁) →
      (l.phase = .creating → l.Unedited env shown σ) →
        match a with
        | some identity => ∃ l₁ fields, l₁ ∈ σ₁.links ∧ l₁.id = l.id ∧ l₁.Settled env shown identity fields σ₁ ∧
            ∀ σ₂ remote₂, Undisturbed env shown l.id σ₁ σ₂ → Keyed σ₂ → Snapshot shown remote₂ σ₂.google →
              (∀ post patch, syncGoogleTaskLink (env.withWrites post patch) remote₂ l₁ σ₂ =
                syncGoogleTaskLink env remote₂ l₁ σ₂) ∧
              Quiet l₁ σ₂ (syncGoogleTaskLink env remote₂ l₁ σ₂).2
        | none => ∃ l₁ ∈ σ₁.links, l₁.id = l.id ∧ ∀ remote₂, syncGoogleTaskLink env remote₂ l₁ σ₁ = (.ok none, σ₁)) ∧
    (l.OneSided env shown σ → l.SendsTitle env σ → ∀ σ', Retried env shown l.id σ σ' → ∀ l' ∈ σ'.links, l'.id = l.id →
      l'.conflict = none ∨ l'.conflict = l.conflict) := by
  refine ⟨fun remote a σ₁ hremote hrun hunedited => ?_, fun hone hsend σ' hretried l' hl' hid => ?_⟩
  · have hsynced := (ends_syncGoogleTaskLink hp (hkeys.row hl) hremote hkeys.tasks).ok hrun
    have hsettled : ∀ l₁ identity fields, Continues l l₁ σ₁ → l₁.Settled env shown identity fields σ₁ →
        l₁ ∈ σ₁.links ∧ l₁.id = l.id ∧ l₁.Settled env shown identity fields σ₁ ∧
          ∀ σ₂ remote₂, Undisturbed env shown l.id σ₁ σ₂ → Keyed σ₂ → Snapshot shown remote₂ σ₂.google →
            (∀ post patch, syncGoogleTaskLink (env.withWrites post patch) remote₂ l₁ σ₂ =
              syncGoogleTaskLink env remote₂ l₁ σ₂) ∧ Quiet l₁ σ₂ (syncGoogleTaskLink env remote₂ l₁ σ₂).2 := by
      intro l₁ identity fields hcontinues hs
      refine ⟨hcontinues.row.mem, hcontinues.id, hs, fun σ₂ remote₂ hwait hkeys₂ hremote₂ => ?_⟩
      rw [← hcontinues.id] at hwait
      have hmem : l₁ ∈ σ₂.links := (hwait.links l₁ rfl).2 hcontinues.row.mem
      exact syncGoogleTaskLink_settled hp (hkeys₂.row hmem) (hwait.settled hcontinues.row.mem hs) hremote₂
    rcases hsynced with ⟨rfl, rfl, hleft⟩ | ⟨l₁, hcontinues, ⟨identity, fields, rfl, hs⟩ | ⟨rfl, hdetached⟩⟩ | ⟨hphase, l₁, hrecovered⟩
    · exact ⟨l, hl, rfl, fun remote₂ => syncGoogleTaskLink_left remote₂ hleft⟩
    · exact ⟨l₁, fields, hsettled l₁ identity fields hcontinues hs⟩
    · exact ⟨l₁, hcontinues.row.mem, hcontinues.id, fun remote₂ => syncGoogleTaskLink_left remote₂ (.inl hdetached)⟩
    · obtain ⟨identity, fields, rfl, hs⟩ := hrecovered.settled hp (hunedited hphase)
      exact ⟨l₁, fields, hsettled l₁ identity fields hrecovered.continues hs⟩
  · obtain ⟨l'', ⟨-, honly⟩, -, hconflict, -⟩ := hretried.agrees hp (hkeys.row hl) rfl (hone.agrees hsend)
    rw [honly l' hl' hid]
    exact hconflict

end Runs

/-! ## A list of tasks -/

/-- A Google that keeps what it is sent. -/
def keptGoogle : Google (List GoogleTask) where
  get identity g :=
    match g.find? fun t => t.id == identity with
    | some t => .ok t
    | none => .error .notFound
  post body reference g :=
    let t : GoogleTask := ⟨"g" ++ reference, some "e", body.title, body.due, some body.status, false, some reference, none⟩
    if (g.find? fun t' => t'.id == t.id).isSome then (.error .ambiguousCreate, g) else (.ok t, g ++ [t])
  patch identity _ body g :=
    match g.find? fun t => t.id == identity with
    | some t =>
      let t := { t with title := body.title, due := body.due, status := some body.status }
      (.ok t, update (·.id == identity) (fun _ => t) g)
    | none => (.error .notFound, g)

def keptEnv : LinkEnv (List GoogleTask) := ⟨⟨id, fun _ => 0⟩, ⟨id, id⟩, ⟨fun _ => none, fun _ => ""⟩, keptGoogle⟩

def keptTask (g : List GoogleTask) (identity : String) : Option GoogleTask := g.find? fun t => t.id == identity

section Kept

variable {g g' : List GoogleTask} {body : GoogleBody} {reference identity etag : String} {t : GoogleTask}

theorem keptGoogle_post (h : keptGoogle.post body reference g = (.ok t, g')) :
    t = ⟨"g" ++ reference, some "e", body.title, body.due, some body.status, false, some reference, none⟩ ∧ g' = g ++ [t] ∧
      g.find? (fun t' => t'.id == t.id) = none := by
  unfold keptGoogle at h
  dsimp only at h
  split at h
  · cases h
  · rename_i hnone
    cases h
    exact ⟨rfl, rfl, by simpa using hnone⟩

theorem keptGoogle_post_error {e : TasksError} (h : keptGoogle.post body reference g = (.error e, g')) :
    g' = g ∧ e = .ambiguousCreate := by
  unfold keptGoogle at h
  dsimp only at h
  split at h
  · cases h
    exact ⟨rfl, rfl⟩
  · cases h

/-- A task with other fields. -/
def GoogleTask.patched (body : GoogleBody) (t : GoogleTask) : GoogleTask :=
  { t with title := body.title, due := body.due, status := some body.status }

theorem keptGoogle_patch (h : keptGoogle.patch identity etag body g = (.ok t, g')) :
    ∃ t', keptTask g identity = some t' ∧ t = t'.patched body ∧ g' = update (·.id == identity) (fun _ => t) g := by
  unfold keptGoogle at h
  dsimp only at h
  split at h
  · cases h
    exact ⟨_, ‹_›, rfl, rfl⟩
  · cases h

theorem keptGoogle_patch_error {e : TasksError} (h : keptGoogle.patch identity etag body g = (.error e, g')) : g' = g := by
  unfold keptGoogle at h
  dsimp only at h
  split at h
  · cases h
  · cases h
    rfl

theorem keptTask_patch (h : keptTask g identity = some t) (body : GoogleBody) :
    keptTask (update (·.id == identity) (fun _ => t.patched body) g) identity = some (t.patched body) := by
  have hid : t.id = identity := by simpa using List.find?_some h
  unfold keptTask at h ⊢
  rw [find_update_const, h]
  · simp [hid]
  · intro r hr
    have : r.id = identity := by simpa using hr
    rw [this, ← hid]
    rfl

end Kept

theorem keptProvider : Provider keptEnv keptTask where
  get := by
    intro g id t h _
    change (match g.find? fun t => t.id == id with
      | some t => Except.ok t
      | none => .error TasksError.notFound) = .ok t at h
    unfold keptTask
    cases hfind : g.find? fun t => t.id == id with
    | none =>
      rw [hfind] at h
      cases h
    | some t' =>
      rw [hfind] at h
      rw [Except.ok.inj h]
  post_ok := by
    intro g g' body reference t h
    obtain ⟨rfl, rfl, hnone⟩ := keptGoogle_post h
    unfold keptTask
    rw [List.find?_append, hnone]
    simp
  post := by
    intro g g' body reference a id t h ht
    cases a with
    | error e =>
      have hsame : g' = g ∧ e = .ambiguousCreate := keptGoogle_post_error h
      exact .inl (hsame.1 ▸ ht)
    | ok created =>
      obtain ⟨rfl, rfl, -⟩ := keptGoogle_post h
      unfold keptTask at ht
      rw [List.find?_append] at ht
      cases hfind : g.find? fun t => t.id == id with
      | some t' =>
        rw [hfind] at ht
        exact .inl (hfind.trans ht)
      | none =>
        rw [hfind, Option.none_or] at ht
        obtain rfl : t = _ := List.mem_singleton.1 (List.mem_of_find?_eq_some ht)
        exact .inr ⟨rfl, ⟨rfl, rfl, rfl⟩, nofun⟩
  patch_ok := by
    intro g g' id etag body t h _
    obtain ⟨t', hfind, rfl, rfl⟩ := keptGoogle_patch h
    exact keptTask_patch hfind body
  patch := by
    intro g g' id etag body a t h ht
    cases a with
    | error e => exact .inl (keptGoogle_patch_error h ▸ ht)
    | ok t' =>
      obtain ⟨t'', hfind, rfl, rfl⟩ := keptGoogle_patch h
      rw [keptTask_patch hfind body] at ht
      obtain rfl := Option.some.inj ht
      exact .inr ⟨rfl, rfl, rfl⟩
  dates := fun _ _ h => by cases h

/-! ## A title with white space in front -/

def account : Workspace := .initial 0 0 none false

def connected : Workspace := (Action.connectGoogle ⟨0, []⟩).perform keptEnv.env account

def discovered : Workspace :=
  (Action.discoverCalendar ⟨"c", "c", none, some true, some true, some .owner⟩).perform keptEnv.env connected

def milkRequest : CreateTaskRequest :=
  ⟨none, none, "Buy milk", "", none, some 3600000000, some 7200000000, .todo, .medium, .none, [], none⟩

/-- A task with an event in the calendar of Google. -/
def scheduled : Workspace := (Action.createTask milkRequest).perform keptEnv.env discovered

def milk : TaskFields := ⟨"Buy milk", none, false⟩

def reference : String := "prosepect task reference: 100"

def prepared : GoogleTaskLink := ⟨100, 1, none, none, some milk, .prepared, some reference, none, none⟩

def linked : GoogleTaskLink := ⟨100, 1, some ("g" ++ reference), some "e", some milk, .linked, some reference, none, none⟩

def copy : GoogleTask := ⟨"g" ++ reference, some "e", "Buy milk", none, some "needsAction", false, some reference, none⟩

def created : LinkState (List GoogleTask) := (syncGoogleTaskLink keptEnv [] prepared ⟨scheduled, [prepared], []⟩).2

def oatMilk : NormalizedEvent := ⟨" Buy oat milk", "", 3600000000, 7200000000, false, "UTC", "", [], .none, none⟩

/-- The event gets a new title in Google Calendar, and the task gets it with the space in front. -/
def renamed : LinkState (List GoogleTask) :=
  { created with w := (Action.sync (.updateCanonicalEvent 2 0 oatMilk)).perform keptEnv.env created.w }

def failed : LinkState (List GoogleTask) := (syncGoogleTaskLink keptEnv renamed.google linked renamed).2

def conflicting : LinkState (List GoogleTask) := (syncGoogleTaskLink keptEnv failed.google linked failed).2

theorem renamed_reached : LinkRun keptEnv ⟨account, [], []⟩ renamed := by
  have hstep : ∀ {σ σ' : LinkState (List GoogleTask)}, LinkStep keptEnv σ σ' → σ.w.db.now = 0 → σ'.w.db.now = 0 →
      LinkRun keptEnv σ σ' := by
    intro σ σ' h hnow hnow'
    exact .single ⟨h, by rw [hnow, hnow']⟩
  have hconnected : LinkRun keptEnv ⟨account, [], []⟩ ⟨connected, [], []⟩ :=
    hstep (.work (.connectGoogle ⟨0, []⟩) []) (by decide +kernel) (by decide +kernel)
  have hdiscovered : LinkRun keptEnv ⟨connected, [], []⟩ ⟨discovered, [], []⟩ :=
    hstep (.work (.discoverCalendar ⟨"c", "c", none, some true, some true, some .owner⟩) []) (by decide +kernel) (by decide +kernel)
  have hscheduled : LinkRun keptEnv ⟨discovered, [], []⟩ ⟨scheduled, [], []⟩ :=
    hstep (.work (.createTask milkRequest) []) (by decide +kernel) (by decide +kernel)
  have hprepared : LinkRun keptEnv ⟨scheduled, [], []⟩ ⟨scheduled, [prepared], []⟩ :=
    hstep (.insert prepared fun _ hl => absurd hl List.not_mem_nil) (by decide +kernel) (by decide +kernel)
  have hcreated : LinkRun keptEnv ⟨scheduled, [prepared], []⟩ created :=
    hstep (.sync [] (List.mem_singleton_self prepared)) (by decide +kernel) (by decide +kernel)
  have hrenamed : LinkRun keptEnv created renamed :=
    hstep (.work (.sync (.updateCanonicalEvent 2 0 oatMilk)) created.google) (by decide +kernel) (by decide +kernel)
  exact ((((hconnected.trans hdiscovered).trans hscheduled).trans hprepared).trans hcreated).trans hrenamed

/-- The creation of a copy settles its link. -/
theorem link_settles_of_one : ∃ l₁ fields, l₁ ∈ created.links ∧ l₁.id = prepared.id ∧
    l₁.Settled keptEnv keptTask ("g" ++ reference) fields created := by
  have hkeys : Keyed (⟨scheduled, [prepared], []⟩ : LinkState (List GoogleTask)) :=
    ⟨List.pairwise_singleton _ _, by decide +kernel⟩
  have hok : (syncGoogleTaskLink keptEnv [] prepared ⟨scheduled, [prepared], []⟩).1 = .ok (some ("g" ++ reference)) := by
    decide +kernel
  have hsettles := (link_settles keptProvider hkeys (List.mem_singleton_self prepared)).1 [] (some ("g" ++ reference)) created
    (fun _ ht => absurd ht List.not_mem_nil) (Prod.ext hok rfl) fun h => by cases h
  obtain ⟨l₁, fields, hl₁, hid, hs, -⟩ := hsettles
  exact ⟨l₁, fields, hl₁, hid, hs⟩

/-- Only the task differs from the baseline, then a run fails, and its retry records a conflict. -/
theorem conflict_of_white_space : ∃ σ σ' : LinkState (List GoogleTask), ∃ l ∈ σ.links,
    LinkRun keptEnv ⟨account, [], []⟩ σ ∧ Provider keptEnv keptTask ∧ Keyed σ ∧ l.OneSided keptEnv keptTask σ ∧
      Retried keptEnv keptTask l.id σ σ' ∧ ∃ l' ∈ σ'.links, l'.id = l.id ∧ l.conflict = none ∧ l'.conflict ≠ none := by
  have hlinks : renamed.links = [linked] := by decide +kernel
  have hfailed : failed.links = [linked] := by decide +kernel
  have hkeyed : ∀ σ : LinkState (List GoogleTask), σ.links = [linked] → Unique (fun t : TaskRow => some t.id) σ.w.db.tasks → Keyed σ :=
    fun σ h ht => ⟨by rw [h]; exact List.pairwise_singleton _ _, ht⟩
  have hmem : ∀ σ : LinkState (List GoogleTask), σ.links = [linked] → linked ∈ σ.links := by
    intro σ h
    rw [h]
    exact List.mem_singleton_self _
  have hkeys : Keyed renamed := hkeyed renamed hlinks (by decide +kernel)
  have hkeys' : Keyed failed := hkeyed failed hfailed (by decide +kernel)
  have hone : linked.OneSided keptEnv keptTask renamed := by
    have hshown : keptTask renamed.google ("g" ++ reference) = some copy := by decide +kernel
    have hfields : copy.fields keptEnv.dates = .ok milk := by decide +kernel
    refine ⟨fun _ identity hid t ht baseline mine remote hb hm hr => ?_, fun h => ?_, fun h => ?_⟩
    · obtain rfl := Option.some.inj hid
      obtain rfl := Option.some.inj (hshown.symm.trans ht)
      obtain rfl := Except.ok.inj (hfields.symm.trans hr)
      exact .inr (Option.some.inj hb)
    · cases h
    · cases h
  have hconflict : (conflicting.links.any fun l => l.id == 100 && l.conflict.isSome) = true := by decide +kernel
  obtain ⟨l', hl', hboth⟩ := List.any_eq_true.1 hconflict
  rw [Bool.and_eq_true, beq_iff_eq] at hboth
  have hremote : ∀ t ∈ renamed.google, keptTask renamed.google t.id = some t := by decide +kernel
  have hremote' : ∀ t ∈ failed.google, keptTask failed.google t.id = some t := by decide +kernel
  refine ⟨renamed, conflicting, linked, hmem _ hlinks, renamed_reached, keptProvider, hkeys, hone, ?_, l', hl', hboth.1, rfl, ?_⟩
  · exact .sync linked failed.google (.sync linked renamed.google .start hkeys (hmem _ hlinks) rfl hremote) hkeys'
      (hmem _ hfailed) rfl hremote'
  · rw [Option.isSome_iff_ne_none] at hboth
    exact hboth.2

end GoogleTasks

end Prosepect
