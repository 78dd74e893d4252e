/-
What one synchronization of a link leaves: where it succeeds the task, its copy and the baseline have
the same fields, and where it fails no field has two changes that had not.
-/
import Prosepect.GoogleTasks.LinkRuns
import Prosepect.GoogleTasks.Merging
import Prosepect.Store.Completion
import Prosepect.Store.Declared

namespace Prosepect

open Time Text Resumption Table

/-! ## The task -/

namespace Store

open Db

variable {db db' : Db}

/-- The row of a task that has been updated. -/
theorem task?_updateTaskScoped {toLowercase : String → String} {task : Uuid} {r : UpdateTaskRequest}
    {scope : Option RecurrenceEditScope} {a : Task} (hids : Unique (fun t : TaskRow => some t.id) db.tasks)
    (h : updateTaskScoped toLowercase task r scope db = .ok (a, db')) :
    ∃ row, db'.task? task = some row ∧ row.title = trim r.title ∧ row.dueAt = r.dueAt ∧ row.status = r.status := by
  obtain ⟨row, updated, -, hu⟩ := updateTaskScoped_ok h
  obtain ⟨labels, prepared, -, -, rfl⟩ := hu.written
  exact ⟨_, hu.task? hids, rfl, rfl, rfl⟩

end Store

namespace GoogleTasks

variable {G : Type}

/-! ## Fields -/

/-- The shared fields of the task of a link. -/
def GoogleTaskLink.mine? (zone : Zone) (w : Workspace) (l : GoogleTaskLink) : Option TaskFields :=
  (w.db.task? l.taskId).map fun row => googleTaskFields zone row.toTask

/-- A title that is the same without the white space around it, or that would not be sent, or makes
no difference to the baseline. -/
def Sendable (baseline mine : TaskFields) : Prop :=
  trim mine.title = mine.title ∨ trim mine.title = baseline.title ∨ mine.title = baseline.title ∨ mine.valid = false

section Fields

variable {baseline mine remote merged : TaskFields}

/-- After Google has taken the merged fields, without the white space around the title, they can
still be merged. -/
theorem Mergeable.sent (h : reconcile baseline mine remote = .ok merged) (hsend : Sendable baseline mine) (hvalid : merged.valid = true) :
    Mergeable baseline mine { merged with title := trim merged.title } := by
  obtain ⟨ht, hd, hc⟩ := reconcile_ok h
  refine ⟨?_, unopposed_merge hd, unopposed_merge hc⟩
  rcases merge_eq_some ht with ⟨hm, -⟩ | ⟨-, hm⟩
  · show Unopposed baseline.title mine.title (trim merged.title)
    rw [hm]
    rcases hsend with hsame | hbase | hbase | hinvalid
    · exact .inl hsame.symm
    · exact .inr (.inl hbase)
    · exact .inr (.inr hbase)
    · have : merged.valid = mine.valid := by
        unfold TaskFields.valid
        rw [hm]
      rw [this, hinvalid] at hvalid
      cases hvalid
  · exact .inr (.inr hm)

end Fields

/-! ## Google -/

/-- A task holds the fields of a body. -/
structure GoogleBody.Held (body : GoogleBody) (task : GoogleTask) : Prop where
  title : task.title = body.title
  due : task.due = body.due
  status : task.status = some body.status

theorem GoogleTask.fields_ok {dates : Dates} {task : GoogleTask} {fields : TaskFields} (h : task.fields dates = .ok fields) :
    fields.valid = true ∧ fields.title = trim task.title ∧ task.due.map dates.parse = fields.date.map some ∧
      task.status = some (if fields.completed then "completed" else "needsAction") := by
  unfold GoogleTask.fields at h
  by_cases hbad : task.id = "" ∨ task.deleted = true ∨ task.assignmentInfo.isSome
  · rw [if_pos hbad] at h
    cases h
  · rw [if_neg hbad] at h
    cases hdue : task.due with
    | none =>
      simp only [hdue] at h
      split at h
      · simp only [pure_bind] at h
        split at h
        · cases h
        · rename_i hvalid
          cases h
          exact ⟨by simpa using hvalid, rfl, rfl, ‹_›⟩
      · simp only [pure_bind] at h
        split at h
        · cases h
        · rename_i hvalid
          cases h
          exact ⟨by simpa using hvalid, rfl, rfl, ‹_›⟩
      · cases h
    | some due =>
      cases hparse : dates.parse due with
      | none =>
        simp only [hdue, hparse] at h
        split at h <;> cases h
      | some date =>
        simp only [hdue, hparse] at h
        split at h
        · simp only [pure_bind] at h
          split at h
          · cases h
          · rename_i hvalid
            cases h
            exact ⟨by simpa using hvalid, rfl, congrArg some hparse, ‹_›⟩
        · simp only [pure_bind] at h
          split at h
          · cases h
          · rename_i hvalid
            cases h
            exact ⟨by simpa using hvalid, rfl, congrArg some hparse, ‹_›⟩
        · cases h

/-- What a run relies on: `shown`, the task of Google with an id; a write that is answered is done, one
that is refused is not, and otherwise it may have been; what is written is held as it was sent. -/
structure Provider (env : LinkEnv G) (shown : G → String → Option GoogleTask) : Prop where
  get : ∀ {g : G} {id : String} {t : GoogleTask}, env.google.get id g = .ok t → t.id = id → shown g id = some t
  post_ok : ∀ {g g' : G} {body : GoogleBody} {reference : String} {t : GoogleTask},
    env.google.post body reference g = (.ok t, g') → shown g' t.id = some t
  post : ∀ {g g' : G} {body : GoogleBody} {reference : String} {a : Except TasksError GoogleTask} {id : String} {t : GoogleTask},
    env.google.post body reference g = (a, g') → shown g' id = some t →
      shown g id = some t ∨ (t.notes = some reference ∧ body.Held t ∧ ∀ e, a = .error e → e.rejected = false)
  patch_ok : ∀ {g g' : G} {id etag : String} {body : GoogleBody} {t : GoogleTask},
    env.google.patch id etag body g = (.ok t, g') → t.id = id → shown g' id = some t
  patch : ∀ {g g' : G} {id etag : String} {body : GoogleBody} {a : Except TasksError GoogleTask} {t : GoogleTask},
    env.google.patch id etag body g = (a, g') → shown g' id = some t → shown g id = some t ∨ body.Held t
  dates : ∀ date d, env.dates.parse (env.dates.print date ++ "T00:00:00.000Z") = some d → d = date

section Provider

variable {env : LinkEnv G} {shown : G → String → Option GoogleTask} {fields : TaskFields} {t : GoogleTask}

theorem GoogleTask.trim_title {dates : Dates} (h : t.fields dates = .ok fields) : trim fields.title = fields.title := by
  rw [(GoogleTask.fields_ok h).2.1, trim_trim]

/-- What is read of a task that holds what was sent. -/
theorem Provider.held (hp : Provider env shown) {sent : TaskFields} (hheld : (sent.googleBody env.dates).Held t)
    (h : t.fields env.dates = .ok fields) : fields = { sent with title := trim sent.title } := by
  obtain ⟨-, htitle, hdate, hstatus⟩ := GoogleTask.fields_ok h
  obtain ⟨title, date, completed⟩ := fields
  obtain ⟨sentTitle, sentDate, sentCompleted⟩ := sent
  have htitle : title = trim sentTitle := htitle.trans (congrArg trim hheld.title)
  have hcompleted : completed = sentCompleted := by
    have := hstatus.symm.trans hheld.status
    cases completed <;> cases sentCompleted <;> simp [TaskFields.googleBody] at this ⊢
  have hdate : date = sentDate := by
    rw [hheld.due] at hdate
    cases sentDate with
    | none =>
      cases date with
      | none => rfl
      | some d => cases hdate
    | some d =>
      cases date with
      | none => cases hdate
      | some d' => rw [hp.dates d d' (Option.some.inj hdate)]
  rw [htitle, hdate, hcompleted]

end Provider

/-! ## The row of a link -/

/-- The row of a link, the only one with its id. -/
structure Row (l : GoogleTaskLink) (σ : LinkState G) : Prop where
  ids : Unique (fun l : GoogleTaskLink => some l.id) σ.links
  mem : l ∈ σ.links

section Row

variable {l l' : GoogleTaskLink} {σ : LinkState G}

theorem Row.eq (h : Row l σ) (hl : l' ∈ σ.links) (hid : l'.id = l.id) : l' = l :=
  h.ids.eq hl h.mem rfl (by rw [hid])

theorem Row.update (h : Row l σ) {f : GoogleTaskLink → GoogleTaskLink} (hf : ∀ l, (f l).id = l.id) (w : Workspace) (google : G) :
    Row (f l) { w := w, links := Table.update (·.id == l.id) f σ.links, google := google : LinkState G } where
  ids := h.ids.congr (map_update fun l => by rw [hf])
  mem := mem_update.2 (.inr ⟨l, h.mem, by simp, rfl⟩)

theorem Row.congr (h : Row l σ) {σ' : LinkState G} (hlinks : σ'.links = σ.links) : Row l σ' :=
  ⟨hlinks ▸ h.ids, hlinks ▸ h.mem⟩

end Row

/-- The fields of the task and of a task of Google can be merged. -/
def GoogleTaskLink.Merges (env : LinkEnv G) (w : Workspace) (t : GoogleTask) (l : GoogleTaskLink) : Prop :=
  ∀ baseline mine remote, l.baseline = some baseline → l.mine? env.zone w = some mine → t.fields env.dates = .ok remote →
    Mergeable baseline mine remote

/-- No field of a link has two changes. -/
structure GoogleTaskLink.Agrees (env : LinkEnv G) (shown : G → String → Option GoogleTask) (l : GoogleTaskLink)
    (σ : LinkState G) : Prop where
  linked : l.phase = .linked → ∀ identity, l.externalTaskId = some identity → ∀ t, shown σ.google identity = some t →
    l.Merges env σ.w t
  creating : l.phase = .creating → ∀ reference, l.createReference = some reference → ∀ identity t,
    shown σ.google identity = some t → t.notes = some reference → l.Merges env σ.w t
  /-- Google has nothing yet. -/
  prepared : l.phase = .prepared → ∀ reference, l.createReference = some reference → ∀ identity t,
    shown σ.google identity = some t → t.notes ≠ some reference
  sendable : l.phase = .linked ∨ l.phase = .creating → ∀ baseline mine, l.baseline = some baseline →
    l.mine? env.zone σ.w = some mine → Sendable baseline mine

/-- The task, its copy and the baseline have the same fields. -/
structure GoogleTaskLink.Settled (env : LinkEnv G) (shown : G → String → Option GoogleTask) (l : GoogleTaskLink)
    (identity : String) (fields : TaskFields) (σ : LinkState G) : Prop where
  phase : l.phase = .linked
  externalTaskId : l.externalTaskId = some identity
  conflict : l.conflict = none
  baseline : l.baseline = some fields
  mine : l.mine? env.zone σ.w = some fields
  google : ∃ t, shown σ.google identity = some t ∧ t.fields env.dates = .ok fields

section Settled

variable {env : LinkEnv G} {shown : G → String → Option GoogleTask} {l : GoogleTaskLink} {σ : LinkState G}

theorem mergeable_self (baseline fields : TaskFields) : Mergeable baseline fields fields := ⟨.inl rfl, .inl rfl, .inl rfl⟩

theorem GoogleTaskLink.Settled.agrees {identity : String} {fields : TaskFields} (h : l.Settled env shown identity fields σ) :
    l.Agrees env shown σ where
  linked := by
    intro _ id hid t ht baseline mine remote hbaseline hmine hremote
    obtain rfl := Option.some.inj (h.externalTaskId.symm.trans hid)
    obtain ⟨t', ht', hfields⟩ := h.google
    obtain rfl := Option.some.inj (ht'.symm.trans ht)
    obtain rfl := Option.some.inj (h.mine.symm.trans hmine)
    obtain rfl := Except.ok.inj (hfields.symm.trans hremote)
    exact mergeable_self _ _
  creating := fun hphase => by
    rw [h.phase] at hphase
    cases hphase
  prepared := fun hphase => by
    rw [h.phase] at hphase
    cases hphase
  sendable := by
    intro _ baseline mine hbaseline hmine
    obtain rfl := Option.some.inj (h.baseline.symm.trans hbaseline)
    obtain rfl := Option.some.inj (h.mine.symm.trans hmine)
    exact .inr (.inr (.inl rfl))

theorem GoogleTaskLink.agrees_detached (h : l.phase = .detached) : l.Agrees env shown σ where
  linked := fun hphase => by
    rw [h] at hphase
    cases hphase
  creating := fun hphase => by
    rw [h] at hphase
    cases hphase
  prepared := fun hphase => by
    rw [h] at hphase
    cases hphase
  sendable := fun hphase => by
    rw [h] at hphase
    rcases hphase with hphase | hphase <;> cases hphase

end Settled

/-- What is left of a link: its row, without a conflict that it did not have. -/
structure Continues (link l : GoogleTaskLink) (σ : LinkState G) : Prop where
  row : Row l σ
  id : l.id = link.id
  taskId : l.taskId = link.taskId
  conflict : l.conflict = none ∨ l.conflict = link.conflict

/-! ## The steps -/

section Steps

variable {env : LinkEnv G} {shown : G → String → Option GoogleTask} {link : GoogleTaskLink} {σ : LinkState G}

/-- Only Google has moved. -/
structure Beyond (σ σ' : LinkState G) : Prop where
  w : σ'.w = σ.w
  links : σ'.links = σ.links

theorem Beyond.mine? {σ' : LinkState G} (h : Beyond σ σ') (l : GoogleTaskLink) :
    l.mine? env.zone σ'.w = l.mine? env.zone σ.w := by
  rw [h.w]

theorem ends_orFail {α : Type} {message : String} {r : Option α} {Q : α → LinkState G → Prop} {E : LinkState G → Prop}
    (hsome : ∀ a, r = some a → Q a σ) (hnone : E σ) : Eff.Ends (orFail message r) σ Q E := by
  cases r with
  | none => exact .raise hnone
  | some a => exact .pure (hsome a rfl)

theorem ends_orGoogle {α : Type} {r : Except TasksError α} {Q : α → LinkState G → Prop} {E : LinkState G → Prop}
    (hok : ∀ a, r = .ok a → Q a σ) (herror : ∀ e, r = .error e → E σ) : Eff.Ends (orGoogle r) σ Q E := by
  cases r with
  | error e => exact .raise (herror e rfl)
  | ok a => exact .pure (hok a rfl)

theorem ends_onStore {α : Type} {t : WorkspaceTx α} {Q : α → LinkState G → Prop} {E : LinkState G → Prop}
    (hok : ∀ a w, t σ.w = .ok (a, w) → Q a { σ with w := w }) (herror : E σ) : Eff.Ends (onStore t) σ Q E := by
  unfold onStore
  refine .bind (.read ?_)
  cases ht : t σ.w with
  | error e => exact .raise herror
  | ok p => exact .bind (.write (.pure (hok p.1 p.2 ht)))

theorem ends_recordGoogleTaskLink (hrow : Row link σ) (task : GoogleTask) (fields : TaskFields) {E : LinkState G → Prop} (he : E σ) :
    Eff.Ends (recordGoogleTaskLink link.id task fields) σ
      (fun _ σ' => σ'.w = σ.w ∧ σ'.google = σ.google ∧ ∃ etag, Row { link with
        phase := .linked, externalTaskId := some task.id, externalEtag := some etag, baseline := some fields,
        conflict := none, resolution := none } σ') E := by
  unfold recordGoogleTaskLink
  refine .bind (ends_orFail (fun etag _ => .bind (.read ?_)) he)
  refine .ite (fun _ => .raise he) fun _ => .write ⟨rfl, rfl, etag, ?_⟩
  exact hrow.update (f := fun l => { l with
        phase := .linked, externalTaskId := some task.id, externalEtag := some etag, baseline := some fields,
        conflict := none, resolution := none }) (fun _ => rfl) σ.w σ.google

theorem ends_detachGoogleTask (hrow : Row link σ) {E : LinkState G → Prop} :
    Eff.Ends (detachGoogleTask link.id) σ (fun _ σ' => σ'.w = σ.w ∧ σ'.google = σ.google ∧
      Row { link with phase := .detached, conflict := none, resolution := none } σ') E :=
  .write ⟨rfl, rfl, hrow.update (f := fun l => { l with phase := .detached, conflict := none, resolution := none })
    (fun _ => rfl) σ.w σ.google⟩

/-- Without two changes of a field there is no conflict. -/
theorem ends_mergeGoogleTask (task : Task) (remote : GoogleTask) (baseline mine fields : TaskFields) :
    Eff.Ends (mergeGoogleTask link task remote baseline mine fields) σ
      (fun merged σ' => σ' = σ ∧ (Mergeable baseline mine fields → reconcile baseline mine fields = .ok merged))
      (fun _ => ¬Mergeable baseline mine fields) := by
  unfold mergeGoogleTask
  cases hr : reconcile baseline mine fields with
  | ok merged => exact .pure ⟨rfl, fun _ => rfl⟩
  | error e =>
    have hno : ¬Mergeable baseline mine fields := by
      intro h
      obtain ⟨merged, hok⟩ := h.ok
      rw [hr] at hok
      cases hok
    dsimp only
    split
    · exact .pure ⟨rfl, fun h => absurd h hno⟩
    · refine .ite (fun _ => .raise hno) fun _ => .bind (ends_orFail (fun etag _ => ?_) hno)
      exact .bind (.read (.bind (.write (.bind (.write (.raise hno))))))

theorem ends_clientGet (hp : Provider env shown) (identity : String) {E : LinkState G → Prop} :
    Eff.Ends (clientGet env identity) σ
      (fun a σ' => σ' = σ ∧ ∀ t, a = .ok t → t.id = identity ∧ shown σ.google identity = some t) E := by
  refine .exchange ?_
  cases hget : env.google.get identity σ.google with
  | error e =>
    simp only [hget]
    exact ⟨trivial, nofun⟩
  | ok t =>
    simp only [hget]
    refine ⟨trivial, fun t' ht' => ?_⟩
    split at ht'
    · cases ht'
    · rename_i hid
      rw [not_not] at hid
      cases ht'
      exact ⟨hid, hp.get hget hid⟩

theorem ends_clientUpdate (hp : Provider env shown) (identity etag : String) (fields : TaskFields) {E : LinkState G → Prop} :
    Eff.Ends (clientUpdate env identity etag fields) σ
      (fun a σ' => Beyond σ σ' ∧ (∀ t, shown σ'.google identity = some t →
        shown σ.google identity = some t ∨ (fields.valid = true ∧ (fields.googleBody env.dates).Held t)) ∧
        ∀ t, a = .ok t → t.id = identity ∧ shown σ'.google identity = some t) E := by
  refine .exchange ?_
  by_cases hbad : trim etag = "" ∨ trim etag = "*" ∨ fields.valid = false
  · simp only [if_pos hbad]
    exact ⟨⟨rfl, rfl⟩, fun t ht => .inl ht, nofun⟩
  · have hvalid : fields.valid = true := by
      rw [not_or, not_or] at hbad
      exact eq_true_of_ne_false hbad.2.2
    simp only [if_neg hbad]
    rcases hpatch : env.google.patch identity etag (fields.googleBody env.dates) σ.google with ⟨e | t, g⟩
    · exact ⟨⟨rfl, rfl⟩, fun t ht => (hp.patch hpatch ht).imp id fun hheld => ⟨hvalid, hheld⟩, nofun⟩
    · refine ⟨⟨rfl, rfl⟩, fun t ht => (hp.patch hpatch ht).imp id fun hheld => ⟨hvalid, hheld⟩, fun t' ht' => ?_⟩
      dsimp only at ht'
      split at ht'
      · cases ht'
      · rename_i hid
        rw [not_or, not_not] at hid
        cases ht'
        exact ⟨hid.1, hp.patch_ok hpatch hid.1⟩

theorem ends_pushGoogleTask (hp : Provider env shown) {identity : String} {remote : GoogleTask} {fields merged : TaskFields}
    (hremote : remote.id = identity) (hshown : shown σ.google identity = some remote)
    (hfields : remote.fields env.dates = .ok fields) : Eff.Ends (pushGoogleTask env identity remote fields merged) σ
      (fun acknowledged σ' => Beyond σ σ' ∧ (acknowledged.id = identity ∧ shown σ'.google identity = some acknowledged) ∧
        acknowledged.fields env.dates = .ok merged)
      (fun σ' => Beyond σ σ' ∧ ∀ t, shown σ'.google identity = some t →
        shown σ.google identity = some t ∨ (merged.valid = true ∧ (merged.googleBody env.dates).Held t)) := by
  refine .ite (fun hsame => .pure ⟨⟨rfl, rfl⟩, ⟨hremote, hshown⟩, hsame ▸ hfields⟩) fun _ => ?_
  refine .bind (ends_orFail (fun etag _ => ?_) ⟨⟨rfl, rfl⟩, fun t ht => .inl ht⟩)
  refine .step (ends_clientUpdate hp identity etag merged) fun answer σ' ⟨hbeyond, hheld, hdone⟩ => ?_
  refine .bind (ends_orGoogle (fun acknowledged hok => ?_) fun _ _ => ⟨hbeyond, hheld⟩)
  refine .bind (ends_orGoogle (fun echoed hechoed => ?_) fun _ _ => ⟨hbeyond, hheld⟩)
  refine .ite (fun _ => .raise ⟨hbeyond, hheld⟩) fun hsame => .pure ⟨hbeyond, hdone acknowledged hok, ?_⟩
  rw [not_not] at hsame
  rw [hechoed, hsame]

theorem date_of_wall {date wall timeOfDay : Int} (h : 0 ≤ timeOfDay ∧ timeOfDay < usPerDay)
    (hwall : date * usPerDay + timeOfDay = wall) : wall / usPerDay = date := by
  subst hwall
  norm_num [usPerDay] at h ⊢
  omega

/-- The deadline that a date is given has it. -/
theorem Zone.deadline_date {zone : Zone} {date : Option NaiveDate} {existing deadline : Option DateTime}
    (h : zone.deadline date existing = .ok deadline) : deadline.map (fun t => zone.wall t / usPerDay) = date := by
  have hchosen : ∀ (c : DateTime) (wall : Int) (e : AppError),
      (if zone.wall c = wall then Except.ok (some c) else .error e) = .ok deadline → zone.wall c = wall ∧ deadline = some c := by
    intro c wall e hif
    split at hif
    · cases hif
      exact ⟨‹_›, rfl⟩
    · cases hif
  unfold Zone.deadline at h
  cases date with
  | none =>
    cases h
    rfl
  | some date =>
    cases existing with
    | none =>
      have htime : 0 ≤ usPerDay - usPerSecond ∧ usPerDay - usPerSecond < usPerDay := by
        norm_num [usPerDay, usPerSecond]
      dsimp only [Option.map_none] at h
      obtain ⟨hwall, rfl⟩ := hchosen _ _ _ h
      rw [Option.map_some, date_of_wall htime hwall.symm]
    | some e =>
      have htime : 0 ≤ zone.wall e % usPerDay ∧ zone.wall e % usPerDay < usPerDay :=
        ⟨Int.emod_nonneg _ (by norm_num [usPerDay]), Int.emod_lt_of_pos _ (by norm_num [usPerDay])⟩
      dsimp only [Option.map_some] at h
      generalize hday : date * usPerDay + zone.wall e % usPerDay = wall at h
      obtain ⟨hwall, rfl⟩ := hchosen _ _ _ h
      rw [Option.map_some, date_of_wall htime (hday.trans hwall.symm)]

/-- The fields of a task that has been updated with merged fields. -/
theorem googleTaskFields_merged {zone : Zone} {task updated : Task} {merged : TaskFields} {dueAt : Option DateTime}
    (htitle : updated.title = merged.title) (hdue : updated.dueAt = dueAt)
    (hdate : dueAt.map (fun t => zone.wall t / usPerDay) = merged.date)
    (hstatus : updated.status = (mergedRequest task (googleTaskFields zone task) merged dueAt).status) :
    googleTaskFields zone updated = merged := by
  obtain ⟨title, date, completed⟩ := merged
  have hcompleted : decide (updated.status = .completed) = completed := by
    rw [hstatus]
    show decide ((if completed = decide (task.status = .completed) then task.status
      else if completed then TaskStatus.completed else .todo) = .completed) = completed
    split
    · rename_i hsame
      exact hsame.symm
    · cases completed <;> rfl
  unfold googleTaskFields
  rw [htitle, hdue, hcompleted, hdate]

/-- The deadline of the merged fields. -/
def mergedDueAt (zone : Zone) (task : Task) (merged : TaskFields) : Except AppError (Option DateTime) :=
  if merged.date = (googleTaskFields zone task).date then .ok task.dueAt else zone.deadline merged.date task.dueAt

theorem mergedDueAt_date {zone : Zone} {task : Task} {merged : TaskFields} {dueAt : Option DateTime}
    (h : mergedDueAt zone task merged = .ok dueAt) : dueAt.map (fun t => zone.wall t / usPerDay) = merged.date := by
  unfold mergedDueAt at h
  split at h
  · rename_i hsame
    cases h
    exact hsame.symm
  · exact Zone.deadline_date h

theorem pullGoogleTask_eq (task : Task) (merged : TaskFields) :
    pullGoogleTask env task (googleTaskFields env.zone task) merged =
      if merged = googleTaskFields env.zone task then return ()
      else onStore (Tx.ofExcept (mergedDueAt env.zone task merged)) >>= fun dueAt =>
        onStore (Workspace.onDb (Store.updateTask env.env.toLowercase task.id
          (mergedRequest task (googleTaskFields env.zone task) merged dueAt))) >>= fun _ => pure () := rfl

theorem ends_mergedUpdate {task : Uuid} {row : TaskRow} {merged : TaskFields} {dueAt : Option DateTime}
    (hrow : σ.w.db.task? task = some row) (hids : Unique (fun t : TaskRow => some t.id) σ.w.db.tasks)
    (htrim : trim merged.title = merged.title) (hdue : mergedDueAt env.zone row.toTask merged = .ok dueAt) :
    Eff.Ends (onStore (Workspace.onDb (Store.updateTask env.env.toLowercase row.id
        (mergedRequest row.toTask (googleTaskFields env.zone row.toTask) merged dueAt)))) σ
      (fun _ σ' => σ'.links = σ.links ∧ σ'.google = σ.google ∧
        ∃ row', σ'.w.db.task? task = some row' ∧ googleTaskFields env.zone row'.toTask = merged)
      (fun σ' => σ' = σ) := by
  refine ends_onStore (fun updated w hupdate => ?_) ?_
  · obtain ⟨db, hdb, rfl⟩ := Workspace.onDb_ok hupdate
    obtain ⟨row', hrow', htitle, hdue', hstatus⟩ := Store.task?_updateTaskScoped hids hdb
    have hid : row.id = task := (Store.task?_mem hrow).2
    rw [hid] at hrow'
    exact ⟨rfl, rfl, row', hrow', googleTaskFields_merged (htitle.trans htrim) hdue' (mergedDueAt_date hdue) hstatus⟩
  · rfl

theorem ends_pullGoogleTask {task : Uuid} {row : TaskRow} {merged : TaskFields} (hrow : σ.w.db.task? task = some row)
    (hids : Unique (fun t : TaskRow => some t.id) σ.w.db.tasks) (htrim : trim merged.title = merged.title) :
    Eff.Ends (pullGoogleTask env row.toTask (googleTaskFields env.zone row.toTask) merged) σ
      (fun _ σ' => σ'.links = σ.links ∧ σ'.google = σ.google ∧
        ∃ row', σ'.w.db.task? task = some row' ∧ googleTaskFields env.zone row'.toTask = merged)
      (fun σ' => σ' = σ) := by
  rw [pullGoogleTask_eq]
  refine .ite (fun hsame => .pure ⟨rfl, rfl, row, hrow, hsame.symm⟩) fun _ => ?_
  have hdue : Eff.Ends (onStore (Tx.ofExcept (mergedDueAt env.zone row.toTask merged))) σ
      (fun dueAt σ' => mergedDueAt env.zone row.toTask merged = .ok dueAt ∧ σ' = σ) (fun σ' => σ' = σ) := by
    refine ends_onStore (fun dueAt w h => ?_) ?_
    · cases hx : mergedDueAt env.zone row.toTask merged with
      | error e =>
        rw [hx] at h
        cases h
      | ok d =>
        rw [hx] at h
        cases h
        exact ⟨rfl, rfl⟩
    · rfl
  refine Eff.Ends.step hdue ?_
  rintro dueAt σ' ⟨hd, rfl⟩
  exact Eff.Ends.step (ends_mergedUpdate hrow hids htrim hd) fun _ _ h => .pure h

end Steps

/-! ## One link -/

/-- How a run that succeeds leaves a link: settled, or unlinked. -/
def Done (env : LinkEnv G) (shown : G → String → Option GoogleTask) (link : GoogleTaskLink) (a : Option String)
    (σ : LinkState G) : Prop :=
  ∃ l, Continues link l σ ∧
    ((∃ identity fields, a = some identity ∧ l.Settled env shown identity fields σ) ∨ (a = none ∧ l.phase = .detached))

/-- How a run that fails leaves a link that had no field with two changes. -/
def Failed (env : LinkEnv G) (shown : G → String → Option GoogleTask) (link : GoogleTaskLink) (σ σ' : LinkState G) : Prop :=
  link.Agrees env shown σ → ∃ l, Continues link l σ' ∧ l.Agrees env shown σ'

section Link

variable {env : LinkEnv G} {shown : G → String → Option GoogleTask} {link : GoogleTaskLink} {σ : LinkState G} {row : TaskRow}

theorem Failed.refl (hrow : Row link σ) : Failed env shown link σ σ := fun h => ⟨link, ⟨hrow, rfl, rfl, .inr rfl⟩, h⟩

theorem ends_detach (hrow : Row link σ) {E : LinkState G → Prop} :
    Eff.Ends (detachGoogleTask link.id >>= fun _ => pure none) σ (Done env shown link) E := by
  refine .step (ends_detachGoogleTask hrow) fun _ σ' ⟨_, _, hrow'⟩ => .pure ?_
  exact ⟨_, ⟨hrow', rfl, rfl, .inl rfl⟩, .inr ⟨rfl, rfl⟩⟩

theorem mine?_eq (hrow : σ.w.db.task? link.taskId = some row) :
    link.mine? env.zone σ.w = some (googleTaskFields env.zone row.toTask) := by
  unfold GoogleTaskLink.mine?
  rw [hrow]
  rfl

theorem agrees_linked (hphase : link.phase = .linked)
    (hmerges : ∀ identity t, link.externalTaskId = some identity → shown σ.google identity = some t → link.Merges env σ.w t)
    (hsend : ∀ baseline mine, link.baseline = some baseline → link.mine? env.zone σ.w = some mine → Sendable baseline mine) :
    link.Agrees env shown σ where
  linked := fun _ identity hid t ht => hmerges identity t hid ht
  creating := fun h => by
    rw [hphase] at h
    cases h
  prepared := fun h => by
    rw [hphase] at h
    cases h
  sendable := fun _ => hsend

theorem ends_reconcileGoogleTask (hp : Provider env shown) (hrow : Row link σ) (hphase : link.phase = .linked)
    {identity : String} {remote : GoogleTask} (hid : link.externalTaskId = some identity) (hremote : remote.id = identity)
    (hshown : shown σ.google identity = some remote) (htask : σ.w.db.task? link.taskId = some row)
    (hids : Unique (fun t : TaskRow => some t.id) σ.w.db.tasks) :
    Eff.Ends (reconcileGoogleTask env link row.toTask identity remote) σ (Done env shown link) (Failed env shown link σ) := by
  unfold reconcileGoogleTask
  refine .ite (fun _ => ends_detach hrow) fun _ => ?_
  refine .bind (ends_orGoogle (fun fields hfields => ?_) fun _ _ => .refl hrow)
  refine .bind (ends_orFail (fun baseline hbaseline => ?_) (.refl hrow))
  -- no field of a link that agrees has two changes, so that the merged fields are those of `reconcile`
  have hmerges : link.Agrees env shown σ → Mergeable baseline (googleTaskFields env.zone row.toTask) fields := fun h =>
    h.linked hphase identity hid remote hshown baseline _ fields hbaseline (mine?_eq htask) hfields
  refine .andThen (ends_mergeGoogleTask row.toTask remote baseline (googleTaskFields env.zone row.toTask) fields)
    (fun merged σ₀ ⟨hσ, hmerged⟩ => ?_) fun σ' hno hagrees => absurd (hmerges hagrees) hno
  subst hσ
  refine .andThen (ends_pushGoogleTask hp hremote hshown hfields)
    (fun acknowledged σ₁ ⟨hbeyond, ⟨hackid, hack⟩, hecho⟩ => ?_)
    fun σ₁ ⟨hbeyond, hheld⟩ hagrees => ⟨link, ⟨hrow.congr hbeyond.links, rfl, rfl, .inr rfl⟩, ?_⟩
  · have htrim : trim merged.title = merged.title := GoogleTask.trim_title hecho
    have htask₁ : σ₁.w.db.task? link.taskId = some row := by
      rw [hbeyond.w]
      exact htask
    refine .andThen (ends_pullGoogleTask htask₁ (by rw [hbeyond.w]; exact hids) htrim)
      (fun _ σ₂ ⟨hlinks, hgoogle, row', htask₂, hfields₂⟩ => ?_) fun σ₂ hσ₂ hagrees => ?_
    · have hrow₂ : Row link σ₂ := hrow.congr (hlinks.trans hbeyond.links)
      have hmine₂ : link.mine? env.zone σ₂.w = some merged := by
        rw [mine?_eq htask₂, hfields₂]
      have hshown₂ : shown σ₂.google identity = some acknowledged := by
        rw [hgoogle]
        exact hack
      refine .step (ends_recordGoogleTaskLink hrow₂ acknowledged merged fun hagrees => ?_) fun _ σ₃ ⟨hw, hg, etag, hrow₃⟩ =>
        .pure ?_
      · refine ⟨link, ⟨hrow₂, rfl, rfl, .inr rfl⟩, agrees_linked hphase ?_ ?_⟩
        · intro id t hid' ht b m r hb hm hr
          obtain rfl := Option.some.inj (hid.symm.trans hid')
          obtain rfl := Option.some.inj (hshown₂.symm.trans ht)
          obtain rfl := Option.some.inj (hmine₂.symm.trans hm)
          obtain rfl := Except.ok.inj (hecho.symm.trans hr)
          exact mergeable_self _ _
        · intro b m hb hm
          obtain rfl := Option.some.inj (hmine₂.symm.trans hm)
          exact .inl htrim
      · refine ⟨_, ⟨hrow₃, rfl, rfl, .inl rfl⟩, .inl ⟨identity, merged, rfl, rfl, congrArg some hackid, rfl, rfl, ?_, ?_⟩⟩
        · rw [hw]
          exact hmine₂
        · exact ⟨acknowledged, by rw [hg]; exact hshown₂, hecho⟩
    · subst hσ₂
      refine ⟨link, ⟨hrow.congr hbeyond.links, rfl, rfl, .inr rfl⟩, agrees_linked hphase ?_ ?_⟩
      · intro id t hid' ht b m r hb hm hr
        obtain rfl := Option.some.inj (hid.symm.trans hid')
        obtain rfl := Option.some.inj (hack.symm.trans ht)
        obtain rfl := Option.some.inj (hbaseline.symm.trans hb)
        obtain rfl := Option.some.inj ((mine?_eq htask₁).symm.trans hm)
        obtain rfl := Except.ok.inj (hecho.symm.trans hr)
        exact mergeable_merged (hmerged (hmerges hagrees))
      · rw [hbeyond.w]
        exact hagrees.sendable (.inl hphase)
  · refine agrees_linked hphase ?_ ?_
    · intro id t hid' ht
      obtain rfl := Option.some.inj (hid.symm.trans hid')
      rcases hheld t ht with hold | ⟨hvalid, hheld⟩
      · rw [hbeyond.w]
        exact hagrees.linked hphase _ hid t hold
      · intro b m r hb hm hr
        obtain rfl := Option.some.inj (hbaseline.symm.trans hb)
        rw [hbeyond.w] at hm
        obtain rfl := Option.some.inj ((mine?_eq htask).symm.trans hm)
        rw [hp.held hheld hr]
        exact .sent (hmerged (hmerges hagrees)) (hagrees.sendable (.inl hphase) _ _ hbaseline (mine?_eq htask)) hvalid
    · rw [hbeyond.w]
      exact hagrees.sendable (.inl hphase)

/-- What a synchronization is given: tasks of the list as they are. -/
def Snapshot (shown : G → String → Option GoogleTask) (remote : List GoogleTask) (google : G) : Prop :=
  ∀ t ∈ remote, shown google t.id = some t

theorem ends_linkedGoogleTask (hp : Provider env shown) (hrow : Row link σ) (hphase : link.phase = .linked)
    {remote : List GoogleTask} (hremote : Snapshot shown remote σ.google) (htask : σ.w.db.task? link.taskId = some row)
    (hids : Unique (fun t : TaskRow => some t.id) σ.w.db.tasks) :
    Eff.Ends (linkedGoogleTask env remote link row.toTask) σ (Done env shown link) (Failed env shown link σ) := by
  unfold linkedGoogleTask
  refine .bind (ends_orFail (fun identity hid => ?_) (.refl hrow))
  cases hfind : remote.find? (·.id == identity) with
  | some t =>
    have ht : t.id = identity := by simpa using List.find?_some hfind
    have hshown : shown σ.google identity = some t := by
      rw [← ht]
      exact hremote t (List.mem_of_find?_eq_some hfind)
    exact ends_reconcileGoogleTask hp hrow hphase hid ht hshown htask hids
  | none =>
    refine .step (ends_clientGet hp identity) fun answer σ' ⟨hσ, hget⟩ => ?_
    subst hσ
    cases answer with
    | error e =>
      cases e with
      | notFound => exact ends_detach hrow
      | _ => exact .raise (.refl hrow)
    | ok t =>
      obtain ⟨ht, hshown⟩ := hget t rfl
      exact ends_reconcileGoogleTask hp hrow hphase hid ht hshown htask hids

/-- The title that is sent at a creation makes no difference to the baseline, which is what is sent. -/
theorem mergeable_baseline (mine fields : TaskFields) : Mergeable mine mine fields :=
  ⟨.inr (.inr rfl), .inr (.inr rfl), .inr (.inr rfl)⟩

theorem ends_clientCreate (hp : Provider env shown) (fields : TaskFields) (reference : String) {E : LinkState G → Prop} :
    Eff.Ends (clientCreate env fields reference) σ
      (fun a σ' => Beyond σ σ' ∧ (∀ identity t, shown σ'.google identity = some t →
        shown σ.google identity = some t ∨ (t.notes = some reference ∧ ∀ e, a = .error e → e.rejected = false)) ∧
        ∀ t, a = .ok t → shown σ'.google t.id = some t) E := by
  refine .exchange ?_
  by_cases hbad : fields.valid = false ∨ reference.length > 8192
  · simp only [if_pos hbad]
    exact ⟨⟨rfl, rfl⟩, fun _ t ht => .inl ht, nofun⟩
  · simp only [if_neg hbad]
    rcases hpost : env.google.post (fields.googleBody env.dates) reference σ.google with ⟨e | t, g⟩
    · refine ⟨⟨rfl, rfl⟩, fun _ t ht => (hp.post hpost ht).imp id fun h => ⟨h.1, fun e' he' => ?_⟩, nofun⟩
      cases he'
      exact h.2.2 e rfl
    · refine ⟨⟨rfl, rfl⟩, fun _ t ht => (hp.post hpost ht).imp id fun h => ⟨h.1, fun e' he' => ?_⟩, fun t' ht' => ?_⟩
      · dsimp only at he'
        split at he'
        · cases he'
          rfl
        · cases he'
      · dsimp only at ht'
        split at ht'
        · cases ht'
        · cases ht'
          exact hp.post_ok hpost

theorem ends_createGoogleTask (hp : Provider env shown) (hrow : Row link σ) (hphase : link.phase = .prepared)
    (htask : σ.w.db.task? link.taskId = some row) :
    Eff.Ends (createGoogleTask env link (googleTaskFields env.zone row.toTask)) σ (Done env shown link)
      (Failed env shown link σ) := by
  unfold createGoogleTask
  -- the claim of the creation
  have hclaimed := hrow.update (f := fun l => { l with
    phase := .creating, baseline := some (googleTaskFields env.zone row.toTask) }) (fun _ => rfl) σ.w σ.google
  refine .bind (.read (.ite (fun _ => .raise (.refl hrow)) fun _ => .bind (.write ?_)))
  have hcreating : ∀ {σ' : LinkState G} {links : List GoogleTaskLink}, Beyond { σ with links := links } σ' →
      Row { link with phase := .creating, baseline := some (googleTaskFields env.zone row.toTask) } σ' →
      Failed env shown link σ σ' := by
    intro σ' links hbeyond hrow' _
    have hmine : ∀ m, σ'.w.db.task? link.taskId = some row → link.mine? env.zone σ'.w = some m → m = googleTaskFields env.zone row.toTask :=
      fun m ht hm => (Option.some.inj ((mine?_eq ht).symm.trans hm)).symm
    have htask' : σ'.w.db.task? link.taskId = some row := by
      rw [hbeyond.w]
      exact htask
    refine ⟨_, ⟨hrow', rfl, rfl, .inr rfl⟩, fun h => ?_, fun _ reference _ identity t _ _ b m r hb hm hr => ?_, fun h => ?_,
      fun _ b m hb hm => ?_⟩
    · cases h
    · obtain rfl := Option.some.inj hb
      rw [hmine m htask' hm]
      exact mergeable_baseline _ _
    · cases h
    · obtain rfl := Option.some.inj hb
      rw [hmine m htask' hm]
      exact .inr (.inr (.inl rfl))
  refine .bind (ends_orFail (fun reference hreference => ?_) (hcreating ⟨rfl, rfl⟩ hclaimed))
  refine .step (ends_clientCreate hp _ reference) fun answer σ₁ ⟨hbeyond, hposted, hdone⟩ => ?_
  have hrow₁ : Row { link with phase := .creating, baseline := some (googleTaskFields env.zone row.toTask) } σ₁ :=
    hclaimed.congr hbeyond.links
  cases answer with
  | error e =>
    refine .ite (fun hrejected => .bind (.write (.raise fun hagrees => ?_))) fun _ => .raise (hcreating hbeyond hrow₁)
    have hback := hrow₁.update (f := fun l => if l.phase = .creating then { l with phase := .prepared } else l)
      (fun l => by split <;> rfl) σ₁.w σ₁.google
    refine ⟨_, ⟨hback, rfl, rfl, .inr rfl⟩, fun h => ?_, fun h => ?_, fun _ reference' hreference' identity t ht hnotes => ?_,
      fun h => ?_⟩
    · cases h
    · cases h
    · rcases hposted identity t ht with hold | ⟨-, hnot⟩
      · exact hagrees.prepared hphase reference' hreference' identity t hold hnotes
      · rw [hnot e rfl] at hrejected
        cases hrejected
    · rcases h with h | h <;> cases h
  | ok created =>
    refine .bind (ends_orGoogle (fun fields hfields => ?_) fun _ _ => hcreating hbeyond hrow₁)
    refine .ite (fun _ => .raise (hcreating hbeyond hrow₁)) fun hsame => ?_
    rw [not_not] at hsame
    refine .step (ends_recordGoogleTaskLink hrow₁ created _ (hcreating hbeyond hrow₁)) fun _ σ₂ ⟨hw, hg, etag, hrow₂⟩ => .pure ?_
    refine ⟨_, ⟨hrow₂, rfl, rfl, .inl rfl⟩, .inl ⟨created.id, googleTaskFields env.zone row.toTask, rfl, rfl, rfl, rfl, rfl, ?_, ?_⟩⟩
    · rw [hw, hbeyond.w]
      exact mine?_eq htask
    · refine ⟨created, ?_, hsame ▸ hfields⟩
      rw [hg]
      exact hdone created rfl

/-- What a recovery leaves of a link: the copy that was found, and what was sent as the baseline. -/
structure Recovered (env : LinkEnv G) (shown : G → String → Option GoogleTask) (link : GoogleTaskLink) (a : Option String)
    (σ σ' : LinkState G) (l : GoogleTaskLink) : Prop where
  continues : Continues link l σ'
  agrees : link.Agrees env shown σ → l.Agrees env shown σ'
  w : σ'.w = σ.w
  google : σ'.google = σ.google
  conflict : l.conflict = none
  phase : l.phase = .linked
  baseline : l.baseline = link.baseline
  found : ∃ t fields reference sent, shown σ.google t.id = some t ∧ t.fields env.dates = .ok fields ∧
    link.createReference = some reference ∧ t.notes = some reference ∧ a = some t.id ∧ l.externalTaskId = some t.id ∧
    link.baseline = some sent

theorem ends_recoverGoogleTask (hrow : Row link σ) (hphase : link.phase = .creating) {remote : List GoogleTask}
    (hremote : Snapshot shown remote σ.google) :
    Eff.Ends (recoverGoogleTask env remote link) σ (fun a σ' => ∃ l, Recovered env shown link a σ σ' l)
      (Failed env shown link σ) := by
  unfold recoverGoogleTask
  refine .bind (ends_orFail (fun reference hreference => ?_) (.refl hrow))
  split
  · rename_i candidate hcandidates
    obtain ⟨hmem, hnotes⟩ : candidate ∈ remote ∧ candidate.notes = some reference := by
      have : candidate ∈ remote.filter fun task => task.notes == some reference := hcandidates ▸ List.mem_singleton_self _
      simpa using List.mem_filter.1 this
    refine .bind (ends_orFail (fun sent hsent => ?_) (.refl hrow))
    refine .bind (ends_orGoogle (fun fields hfields => ?_) fun _ _ => .refl hrow)
    refine .step (ends_recordGoogleTaskLink hrow candidate sent (.refl hrow)) fun _ σ' ⟨hw, hg, etag, hrow'⟩ => .pure ?_
    refine ⟨_, ⟨hrow', rfl, rfl, .inl rfl⟩, fun hagrees => agrees_linked rfl ?_ ?_, hw, hg, rfl, rfl, hsent.symm,
      candidate, fields, reference, sent, hremote candidate hmem, hfields, hreference, hnotes, rfl, rfl, hsent⟩
    · intro identity t hid ht b m r hb hm hr
      obtain rfl : candidate.id = identity := Option.some.inj hid
      rw [hg] at ht
      obtain rfl := Option.some.inj ((hremote candidate hmem).symm.trans ht)
      rw [hw] at hm
      exact hagrees.creating hphase reference hreference _ candidate (hremote candidate hmem) hnotes b m r (hsent.trans hb) hm hr
    · intro b m hb hm
      rw [hw] at hm
      exact hagrees.sendable (.inr hphase) b m (hsent.trans hb) hm
  · exact .raise (.refl hrow)

/-- How a run that succeeds ends: it has left the link alone, has done it, or has recovered it. -/
def Synced (env : LinkEnv G) (shown : G → String → Option GoogleTask) (link : GoogleTaskLink) (σ : LinkState G)
    (a : Option String) (σ' : LinkState G) : Prop :=
  (a = none ∧ σ' = σ ∧ (link.phase = .detached ∨ holding link.taskId σ.w = true)) ∨ Done env shown link a σ' ∨
    (link.phase = .creating ∧ ∃ l, Recovered env shown link a σ σ' l)

theorem ends_syncGoogleTaskLink (hp : Provider env shown) (hrow : Row link σ) {remote : List GoogleTask}
    (hremote : Snapshot shown remote σ.google) (hids : Unique (fun t : TaskRow => some t.id) σ.w.db.tasks) :
    Eff.Ends (syncGoogleTaskLink env remote link) σ (Synced env shown link σ) (Failed env shown link σ) := by
  unfold syncGoogleTaskLink
  refine .bind (.read (.ite (fun hdetached => .pure (.inl ⟨rfl, rfl, .inl hdetached⟩)) fun hphase => ?_))
  refine .ite (fun hheld => .pure (.inl ⟨rfl, rfl, .inr hheld⟩)) fun _ => ?_
  cases htask : σ.w.db.task? link.taskId with
  | none => exact (ends_detach hrow).imp (fun _ _ h => .inr (.inl h)) fun _ h => h
  | some row =>
    dsimp only
    cases hlink : link.phase with
    | creating => exact (ends_recoverGoogleTask hrow hlink hremote).imp (fun _ _ h => .inr (.inr ⟨hlink, h⟩)) fun _ h => h
    | prepared => exact (ends_createGoogleTask hp hrow hlink htask).imp (fun _ _ h => .inr (.inl h)) fun _ h => h
    | linked => exact (ends_linkedGoogleTask hp hrow hlink hremote htask hids).imp (fun _ _ h => .inr (.inl h)) fun _ h => h
    | detached => exact absurd hlink hphase

/-- Without a field that has two changes, a run leaves none. -/
theorem Synced.agrees {a : Option String} {σ' : LinkState G} (hrow : Row link σ) (h : Synced env shown link σ a σ')
    (hagrees : link.Agrees env shown σ) : ∃ l, Continues link l σ' ∧ l.Agrees env shown σ' := by
  rcases h with ⟨-, rfl, -⟩ | ⟨l, hcontinues, ⟨_, _, -, hsettled⟩ | ⟨-, hdetached⟩⟩ | ⟨-, l, hrecovered⟩
  · exact Failed.refl hrow hagrees
  · exact ⟨l, hcontinues, hsettled.agrees⟩
  · exact ⟨l, hcontinues, GoogleTaskLink.agrees_detached hdetached⟩
  · exact ⟨l, hrecovered.continues, hrecovered.agrees hagrees⟩

end Link

/-! ## A settled link -/

/-- Whatever Google would do with a write. -/
def LinkEnv.withWrites (env : LinkEnv G) (post : GoogleBody → String → G → Except TasksError GoogleTask × G)
    (patch : String → String → GoogleBody → G → Except TasksError GoogleTask × G) : LinkEnv G :=
  { env with google := { env.google with post := post, patch := patch } }

/-- Nothing but the row of the link is written, and no conflict in it. -/
structure Quiet (l : GoogleTaskLink) (σ σ' : LinkState G) : Prop where
  w : σ'.w = σ.w
  google : σ'.google = σ.google
  conflict : ∀ l' ∈ σ'.links, l'.id = l.id → l'.conflict = none

section Quiet

variable {env : LinkEnv G} {shown : G → String → Option GoogleTask} {l : GoogleTaskLink} {σ : LinkState G} {row : TaskRow}

theorem Quiet.refl (hrow : Row l σ) (hconflict : l.conflict = none) : Quiet l σ σ :=
  ⟨rfl, rfl, fun l' hl' hid => by rw [hrow.eq hl' hid]; exact hconflict⟩

/-- A settled link has nothing to send and nothing to fetch. -/
theorem reconcileGoogleTask_settled {identity : String} {fields : TaskFields} {t : GoogleTask}
    (hbaseline : l.baseline = some fields) (hfields : t.fields env.dates = .ok fields)
    (hmine : googleTaskFields env.zone row.toTask = fields)
    (post : GoogleBody → String → G → Except TasksError GoogleTask × G)
    (patch : String → String → GoogleBody → G → Except TasksError GoogleTask × G) :
    reconcileGoogleTask (env.withWrites post patch) l row.toTask identity t σ =
      (recordGoogleTaskLink l.id t fields >>= fun _ => pure (some identity)) σ := by
  have hdeleted : t.deleted = false := by
    by_contra hdeleted
    unfold GoogleTask.fields at hfields
    rw [if_pos (.inr (.inl (eq_true_of_ne_false hdeleted)))] at hfields
    cases hfields
  unfold reconcileGoogleTask
  rw [hdeleted, hbaseline]
  have hdates : (env.withWrites post patch).dates = env.dates := rfl
  have hzone : (env.withWrites post patch).zone = env.zone := rfl
  rw [hdates, hzone, hfields, hmine]
  simp only [orGoogle, orFail, mergeGoogleTask, reconcile_self, pushGoogleTask, pullGoogleTask, Bool.false_eq_true, if_false,
    if_true, Eff.pure_bind_run]

theorem ends_record_quiet (hrow : Row l σ) (hconflict : l.conflict = none) (t : GoogleTask) (fields : TaskFields)
    (identity : Option String) :
    Eff.Ends (recordGoogleTaskLink l.id t fields >>= fun _ => pure identity) σ (fun _ => Quiet l σ) (Quiet l σ) := by
  refine .step (ends_recordGoogleTaskLink hrow t fields (.refl hrow hconflict)) fun _ σ' ⟨hw, hg, etag, hrow'⟩ => .pure ?_
  exact ⟨hw, hg, fun l' hl' hid => by rw [hrow'.eq hl' hid]⟩

/-- What follows the answer of `get`. -/
def reconcileHidden (env : LinkEnv G) (link : GoogleTaskLink) (task : Task) (identity : String) :
    Except TasksError GoogleTask → LinkM G (Option String)
  | .ok hidden => reconcileGoogleTask env link task identity hidden
  | .error .notFound => do
    detachGoogleTask link.id
    return none
  | .error e => Eff.raise (.google e)

theorem linkedGoogleTask_shown {task : Task} {identity : String} (hid : l.externalTaskId = some identity) {t : GoogleTask}
    {remote : List GoogleTask} (hfind : remote.find? (·.id == identity) = some t) (env : LinkEnv G) :
    linkedGoogleTask env remote l task σ = reconcileGoogleTask env l task identity t σ := by
  unfold linkedGoogleTask
  rw [hid]
  simp only [orFail, Eff.pure_bind_run, hfind]

theorem linkedGoogleTask_hidden {task : Task} {identity : String} (hid : l.externalTaskId = some identity)
    {remote : List GoogleTask} (hfind : remote.find? (·.id == identity) = none) {answer : Except TasksError GoogleTask}
    {env : LinkEnv G} (hget : clientGet env identity σ = (.ok answer, σ)) :
    linkedGoogleTask env remote l task σ = reconcileHidden env l task identity answer σ := by
  unfold linkedGoogleTask
  rw [hid]
  simp only [orFail, Eff.pure_bind_run, hfind]
  refine (Eff.bind_run_ok hget).trans ?_
  cases answer with
  | ok t => rfl
  | error e => cases e <;> rfl

/-- A run of a link that is settled sends nothing and writes no task. -/
theorem linkedGoogleTask_settled (hp : Provider env shown) (hrow : Row l σ) {identity : String} {fields : TaskFields}
    (hs : l.Settled env shown identity fields σ) {remote : List GoogleTask} (hremote : Snapshot shown remote σ.google)
    (htask : σ.w.db.task? l.taskId = some row) :
    (∀ post patch, linkedGoogleTask (env.withWrites post patch) remote l row.toTask σ =
      linkedGoogleTask env remote l row.toTask σ) ∧
    Eff.Ends (linkedGoogleTask env remote l row.toTask) σ (fun _ => Quiet l σ) (Quiet l σ) := by
  have hmine : googleTaskFields env.zone row.toTask = fields := Option.some.inj ((mine?_eq htask).symm.trans hs.mine)
  obtain ⟨t, ht, hfields⟩ := hs.google
  -- both ways to find the copy lead to the same run
  have hfound : ∀ post patch, reconcileGoogleTask (env.withWrites post patch) l row.toTask identity t σ =
      reconcileGoogleTask env l row.toTask identity t σ := by
    intro post patch
    rw [reconcileGoogleTask_settled hs.baseline hfields hmine post patch]
    exact (reconcileGoogleTask_settled hs.baseline hfields hmine env.google.post env.google.patch).symm
  have hquiet : Eff.Ends (reconcileGoogleTask env l row.toTask identity t) σ (fun _ => Quiet l σ) (Quiet l σ) :=
    (ends_record_quiet hrow hs.conflict t fields (some identity)).congr
      (reconcileGoogleTask_settled hs.baseline hfields hmine env.google.post env.google.patch).symm
  cases hfind : remote.find? (·.id == identity) with
  | some t' =>
    have hid : t'.id = identity := by simpa using List.find?_some hfind
    have ht' := hremote t' (List.mem_of_find?_eq_some hfind)
    rw [hid, ht] at ht'
    obtain rfl := Option.some.inj ht'
    refine ⟨fun post patch => ?_, hquiet.congr (linkedGoogleTask_shown hs.externalTaskId hfind env).symm⟩
    rw [linkedGoogleTask_shown hs.externalTaskId hfind, linkedGoogleTask_shown hs.externalTaskId hfind]
    exact hfound post patch
  | none =>
    obtain ⟨answer, hget, hok⟩ : ∃ answer, clientGet env identity σ = (.ok answer, σ) ∧ ∀ t', answer = .ok t' → t' = t := by
      have hends := ends_clientGet (σ := σ) (E := fun _ => False) hp identity
      rcases hrun : clientGet env identity σ with ⟨a | a, σ'⟩
      · exact (hends.error hrun).elim
      · obtain ⟨hσ, h⟩ := hends.ok hrun
        rw [hσ]
        exact ⟨a, rfl, fun t' ht' => Option.some.inj ((h t' ht').2.symm.trans ht)⟩
    have hsame : ∀ post patch, reconcileHidden (env.withWrites post patch) l row.toTask identity answer σ =
        reconcileHidden env l row.toTask identity answer σ := by
      intro post patch
      cases answer with
      | ok t' =>
        obtain rfl := hok t' rfl
        exact hfound post patch
      | error e => cases e <;> rfl
    have hends : Eff.Ends (reconcileHidden env l row.toTask identity answer) σ (fun _ => Quiet l σ) (Quiet l σ) := by
      cases answer with
      | ok t' =>
        obtain rfl := hok t' rfl
        exact hquiet
      | error e =>
        cases e with
        | notFound =>
          exact (ends_detachGoogleTask hrow).step fun _ σ' ⟨hw, hg, hrow'⟩ =>
            .pure ⟨hw, hg, fun l' hl' hid => by rw [hrow'.eq hl' hid]⟩
        | _ => exact .raise (.refl hrow hs.conflict)
    refine ⟨fun post patch => ?_, hends.congr (linkedGoogleTask_hidden hs.externalTaskId hfind hget).symm⟩
    have hget' : clientGet (env.withWrites post patch) identity σ = (.ok answer, σ) := hget
    rw [linkedGoogleTask_hidden hs.externalTaskId hfind hget', linkedGoogleTask_hidden hs.externalTaskId hfind hget]
    exact hsame post patch

/-- So is a run of any link that has just been synchronized. -/
theorem syncGoogleTaskLink_settled (hp : Provider env shown) (hrow : Row l σ) {identity : String} {fields : TaskFields}
    (hs : l.Settled env shown identity fields σ) {remote : List GoogleTask} (hremote : Snapshot shown remote σ.google) :
    (∀ post patch, syncGoogleTaskLink (env.withWrites post patch) remote l σ = syncGoogleTaskLink env remote l σ) ∧
    Quiet l σ (syncGoogleTaskLink env remote l σ).2 := by
  obtain ⟨row, htask⟩ : ∃ row, σ.w.db.task? l.taskId = some row := by
    have hmine := hs.mine
    unfold GoogleTaskLink.mine? at hmine
    obtain ⟨row, hrow, -⟩ := Option.map_eq_some_iff.1 hmine
    exact ⟨row, hrow⟩
  have hunfold : ∀ env' : LinkEnv G, syncGoogleTaskLink env' remote l σ =
      (if holding l.taskId σ.w then pure none else linkedGoogleTask env' remote l row.toTask) σ := by
    intro env'
    unfold syncGoogleTaskLink
    rw [Eff.read_bind_run, if_neg (by rw [hs.phase]; exact nofun), htask, hs.phase]
  by_cases hheld : holding l.taskId σ.w = true
  · refine ⟨fun post patch => ?_, ?_⟩
    · rw [hunfold, hunfold, if_pos hheld, if_pos hheld]
    · rw [hunfold, if_pos hheld]
      exact .refl hrow hs.conflict
  · obtain ⟨hsame, hquiet⟩ := linkedGoogleTask_settled hp hrow hs hremote htask
    refine ⟨fun post patch => ?_, ?_⟩
    · rw [hunfold, hunfold, if_neg hheld, if_neg hheld]
      exact hsame post patch
    · rw [hunfold, if_neg hheld]
      exact hquiet.state

end Quiet

end GoogleTasks

end Prosepect
