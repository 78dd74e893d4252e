/-
Runs of the links beside the workspace, in any order: while the receipt of a deletion is live, the
link of its task is left alone.
-/
import Prosepect.GoogleTasks.Links
import Prosepect.Store.Receipts

namespace Prosepect

open Time Resumption Table

namespace GoogleTasks

variable {G α β : Type}

/-! ## One link -/

/-- All that is written of the links is in the row `link`; no receipt is issued. -/
structure Confined (link : Uuid) (σ σ' : LinkState G) : Prop where
  onward : σ.w.Onward σ'.w
  receipts : σ.w.Withholding σ'.w
  ids : σ'.links.map (fun l => some l.id) = σ.links.map fun l => some l.id
  others : ∀ l ∈ σ.links, l.id ≠ link → l ∈ σ'.links

namespace Confined

variable {link : Uuid}

theorem refl (σ : LinkState G) : Confined link σ σ := ⟨.refl _, .refl _, rfl, fun _ hl _ => hl⟩

theorem trans {a b c : LinkState G} (h : Confined link a b) (h' : Confined link b c) : Confined link a c where
  onward := h.onward.trans h'.onward
  receipts := h.receipts.trans h'.receipts
  ids := h'.ids.trans h.ids
  others := fun l hl hne => h'.others l (h.others l hl hne) hne

theorem workspace {σ : LinkState G} {w : Workspace} (h : σ.w.Onward w) (hr : σ.w.Withholding w) (google : G) :
    Confined link σ { σ with w := w, google := google } :=
  ⟨h, hr, rfl, fun _ hl _ => hl⟩

end Confined

section Steps

variable {link : Uuid}

theorem confined_bind {t : LinkM G α} {f : α → LinkM G β} (h : Eff.Within (Confined link) t)
    (hf : ∀ a, Eff.Within (Confined link) (f a)) : Eff.Within (Confined link) (t >>= f) :=
  .bind (R := Confined link) Confined.trans h hf

theorem confined_read : Eff.Within (Confined link) (Eff.read : LinkM G (LinkState G)) := .read Confined.refl

theorem confined_pure (a : α) : Eff.Within (Confined link) (pure a : LinkM G α) := .pure Confined.refl a

theorem confined_raise (e : LinkError) : Eff.Within (Confined link) (Eff.raise e : LinkM G α) := .raise Confined.refl e

theorem confined_updateLink {f : GoogleTaskLink → GoogleTaskLink} (hf : ∀ l, (f l).id = l.id) :
    Eff.Within (Confined link) (updateLink link f : LinkM G Unit) := by
  refine .write fun σ => ⟨.refl _, .refl _, map_update fun l => by rw [hf], fun l hl hne => ?_⟩
  exact mem_update.2 (.inl ⟨hl, by simpa using hne⟩)

theorem confined_request (f : G → Except TasksError α × G) :
    Eff.Within (Confined link) (request f : LinkM G (Except TasksError α)) :=
  .exchange fun σ => .workspace (σ := σ) (.refl _) (.refl _) _

theorem confined_orFail (message : String) (r : Option α) : Eff.Within (Confined link) (orFail message r : LinkM G α) := by
  cases r with
  | none => exact confined_raise _
  | some a => exact confined_pure a

theorem confined_orGoogle (r : Except TasksError α) : Eff.Within (Confined link) (orGoogle r : LinkM G α) := by
  cases r with
  | error e => exact confined_raise _
  | ok a => exact confined_pure a

theorem confined_onStore {t : WorkspaceTx α} (h : Tx.Within Workspace.Onward t) (hr : Tx.Within Workspace.Withholding t) :
    Eff.Within (Confined link) (onStore t : LinkM G α) := by
  intro σ
  unfold onStore
  rw [Eff.read_bind_run]
  cases ht : t σ.w with
  | error e => exact .refl σ
  | ok p => exact .workspace (σ := σ) (h _ _ _ ht) (hr _ _ _ ht) _

theorem confined_recordGoogleTaskLink (task : GoogleTask) (fields : TaskFields) :
    Eff.Within (Confined link) (recordGoogleTaskLink link task fields : LinkM G Unit) := by
  refine confined_bind (confined_orFail _ _) fun etag => confined_bind confined_read fun σ => ?_
  exact .ite (fun _ => confined_raise _) fun _ => confined_updateLink fun _ => rfl

theorem confined_detachGoogleTask : Eff.Within (Confined link) (detachGoogleTask link : LinkM G Unit) :=
  confined_updateLink fun _ => rfl

end Steps

section Link

variable (env : LinkEnv G) (remote : List GoogleTask) (link : GoogleTaskLink) (task : Task)

theorem confined_recoverGoogleTask : Eff.Within (Confined link.id) (recoverGoogleTask env remote link) := by
  refine confined_bind (confined_orFail _ _) fun reference => ?_
  split
  · refine confined_bind (confined_orFail _ _) fun sent => confined_bind (confined_orGoogle _) fun _ => ?_
    exact confined_bind (confined_recordGoogleTaskLink _ _) fun _ => confined_pure _
  · exact confined_raise _

theorem confined_createGoogleTask (mine : TaskFields) : Eff.Within (Confined link.id) (createGoogleTask env link mine) := by
  refine confined_bind confined_read fun σ => .ite (fun _ => confined_raise _) fun _ => ?_
  refine confined_bind (confined_updateLink fun _ => rfl) fun _ => confined_bind (confined_orFail _ _) fun reference => ?_
  refine confined_bind (confined_request _) fun answer => ?_
  cases answer with
  | error e =>
    refine .ite (fun _ => confined_bind (confined_updateLink fun l => ?_) fun _ => confined_raise _) fun _ => ?_
    · split <;> rfl
    · exact confined_raise _
  | ok created =>
    refine confined_bind (confined_orGoogle _) fun fields => .ite (fun _ => confined_raise _) fun _ => ?_
    exact confined_bind (confined_recordGoogleTaskLink _ _) fun _ => confined_pure _

theorem confined_mergeGoogleTask (shown : GoogleTask) (baseline mine fields : TaskFields) :
    Eff.Within (Confined link.id) (mergeGoogleTask link task shown baseline mine fields : LinkM G TaskFields) := by
  unfold mergeGoogleTask
  split
  · exact confined_pure _
  · dsimp only
    split
    · exact confined_pure _
    · refine .ite (fun _ => confined_raise _) fun _ => ?_
      refine confined_bind (confined_orFail _ _) fun etag => confined_bind confined_read fun σ => ?_
      refine confined_bind (.write fun σ => ?_) fun _ =>
        confined_bind (confined_updateLink fun _ => rfl) fun _ => confined_raise _
      have hquiet : σ.w.Quiet { σ.w with db := σ.w.db.fresh } := Workspace.quiet_fresh rfl rfl rfl rfl
      exact .workspace (σ := σ) hquiet.onward (fun _ hu => hu) _

theorem confined_pushGoogleTask (identity : String) (shown : GoogleTask) (fields merged : TaskFields) :
    Eff.Within (Confined link.id) (pushGoogleTask env identity shown fields merged) := by
  refine .ite (fun _ => confined_pure _) fun _ => confined_bind (confined_orFail _ _) fun etag => ?_
  refine confined_bind (confined_request _) fun answer => confined_bind (confined_orGoogle _) fun acknowledged => ?_
  exact confined_bind (confined_orGoogle _) fun echoed => .ite (fun _ => confined_raise _) fun _ => confined_pure _

theorem confined_pullGoogleTask (mine merged : TaskFields) :
    Eff.Within (Confined link.id) (pullGoogleTask env task mine merged) := by
  refine .ite (fun _ => confined_pure _) fun _ => ?_
  refine confined_bind (confined_onStore (.ofExcept Workspace.Onward.refl _) (.ofExcept Workspace.Withholding.refl _)) fun dueAt => ?_
  refine confined_bind (confined_onStore ?_ ?_) fun _ => confined_pure _
  · exact Workspace.onward_onDb (Db.aged_updateTaskScoped _ _ _ none)
  · exact Workspace.withholding_onDb fun db a db' h => (Db.culled_updateTaskScoped _ _ _ none db a db' h).receiptless

theorem confined_reconcileGoogleTask (identity : String) (shown : GoogleTask) :
    Eff.Within (Confined link.id) (reconcileGoogleTask env link task identity shown) := by
  refine .ite (fun _ => confined_bind confined_detachGoogleTask fun _ => confined_pure _) fun _ => ?_
  refine confined_bind (confined_orGoogle _) fun fields => confined_bind (confined_orFail _ _) fun baseline => ?_
  refine confined_bind (confined_mergeGoogleTask link task _ _ _ _) fun merged => ?_
  refine confined_bind (confined_pushGoogleTask env link _ _ _ _) fun acknowledged => ?_
  refine confined_bind (confined_pullGoogleTask env link task _ _) fun _ => ?_
  exact confined_bind (confined_recordGoogleTaskLink _ _) fun _ => confined_pure _

theorem confined_linkedGoogleTask : Eff.Within (Confined link.id) (linkedGoogleTask env remote link task) := by
  refine confined_bind (confined_orFail _ _) fun identity => ?_
  split
  · exact confined_reconcileGoogleTask env link task _ _
  · refine confined_bind (confined_request _) fun answer => ?_
    split
    · exact confined_reconcileGoogleTask env link task _ _
    · exact confined_bind confined_detachGoogleTask fun _ => confined_pure _
    · exact confined_raise _

theorem confined_syncGoogleTaskLink : Eff.Within (Confined link.id) (syncGoogleTaskLink env remote link) := by
  refine confined_bind confined_read fun σ => .ite (fun _ => confined_pure _) fun _ => ?_
  refine .ite (fun _ => confined_pure _) fun _ => ?_
  split
  · exact confined_bind confined_detachGoogleTask fun _ => confined_pure _
  · split
    · exact confined_recoverGoogleTask env remote link
    · exact confined_createGoogleTask env link _
    · exact confined_linkedGoogleTask env remote link _
    · exact confined_linkedGoogleTask env remote link _

end Link

/-! ## Runs -/

/-- The links, the workspace and Google move; what else is written of a link is not its phase. -/
inductive LinkStep (env : LinkEnv G) (σ : LinkState G) : LinkState G → Prop
  | work (a : Action) (google : G) : LinkStep env σ { σ with w := a.perform env.env σ.w, google := google }
  | sync (remote : List GoogleTask) {link : GoogleTaskLink} (h : link ∈ σ.links) :
      LinkStep env σ (syncGoogleTaskLink env remote link σ).2
  | leave (link : Uuid) : LinkStep env σ (leaveGoogleTaskUnlinked link σ).2
  | insert (link : GoogleTaskLink) (h : ∀ l ∈ σ.links, l.id ≠ link.id) : LinkStep env σ { σ with links := σ.links ++ [link] }
  | resolve (link : Uuid) (choice : TaskConflictChoice) :
      LinkStep env σ { σ with links := update (·.id == link) (fun l => { l with resolution := some choice }) σ.links }

/-- A run whose clock does not go back. -/
abbrev LinkRun (env : LinkEnv G) : LinkState G → LinkState G → Prop :=
  Relation.ReflTransGen fun σ σ' => LinkStep env σ σ' ∧ σ.w.db.now ≤ σ'.w.db.now

/-- The link of a task, but for a choice about its conflict. -/
def Left (task : Uuid) (σ σ' : LinkState G) : Prop :=
  ∀ l ∈ σ.links, l.taskId = task → ∃ l' ∈ σ'.links, l' = { l with resolution := l'.resolution }

theorem Left.refl (task : Uuid) (σ : LinkState G) : Left task σ σ := fun l hl _ => ⟨l, hl, rfl⟩

theorem Left.trans {task : Uuid} {a b c : LinkState G} (h : Left task a b) (h' : Left task b c) : Left task a c := by
  intro l hl ht
  obtain ⟨l', hl', heq⟩ := h l hl ht
  obtain ⟨l'', hl'', heq'⟩ := h' l' hl' (by rw [heq]; exact ht)
  refine ⟨l'', hl'', ?_⟩
  rw [heq', heq]

section Runs

variable {env : LinkEnv G} {σ σ' : LinkState G} {receipt : TaskDeleteUndo}

/-- The receipt is there and has not expired. -/
def Live (receipt : TaskDeleteUndo) (w : Workspace) : Prop := receipt ∈ w.db.undos ∧ w.db.now < receipt.expiresAt

theorem Live.holding {w : Workspace} (h : Live receipt w) : holding receipt.taskId w = true := by
  unfold GoogleTasks.holding
  rw [has_iff]
  exact ⟨receipt, h.1, by simpa using h.2⟩

theorem leaveGoogleTaskUnlinked_cases (link : Uuid) (σ : LinkState G) :
    (leaveGoogleTaskUnlinked link σ).2 = σ ∨ (∃ l ∈ σ.links, l.id = link ∧ holding l.taskId σ.w = false) ∧
      (leaveGoogleTaskUnlinked link σ).2 = (detachGoogleTask link σ).2 := by
  unfold leaveGoogleTaskUnlinked
  rw [Eff.read_bind_run]
  split
  · rename_i h
    obtain ⟨l, hl, hp⟩ := has_iff.1 h
    simp only [Bool.and_eq_true, beq_iff_eq, Bool.not_eq_true'] at hp
    exact .inr ⟨⟨l, hl, hp.1.1, hp.2⟩, rfl⟩
  · exact .inl rfl

/-- A link that is held back is not written. -/
theorem syncGoogleTaskLink_held {remote : List GoogleTask} {link : GoogleTaskLink} (h : holding link.taskId σ.w = true) :
    (syncGoogleTaskLink env remote link σ).2 = σ := by
  unfold syncGoogleTaskLink
  rw [Eff.read_bind_run]
  by_cases hphase : link.phase = .detached
  · rw [if_pos hphase]
    rfl
  · simp only [hphase, h, if_false, if_true]
    rfl

theorem LinkStep.onward (h : LinkStep env σ σ') (hv : σ.w.MovesValid) :
    σ'.w.MovesValid ∧ σ.w.db.nextId ≤ σ'.w.db.nextId ∧ σ.w.Issuing σ'.w := by
  cases h with
  | work a google =>
    obtain ⟨hv', hforward⟩ := Workspace.onward_perform env.env a σ.w hv
    exact ⟨hv', hforward.nextId, Workspace.issuing_perform env.env a σ.w⟩
  | @sync remote link hl =>
    have hconfined := confined_syncGoogleTaskLink env remote link σ
    obtain ⟨hv', hforward⟩ := hconfined.onward hv
    exact ⟨hv', hforward.nextId, fun u hu => .inl (hconfined.receipts u hu)⟩
  | leave link =>
    rcases leaveGoogleTaskUnlinked_cases link σ with h | ⟨-, h⟩ <;> rw [h] <;> exact ⟨hv, le_rfl, fun u hu => .inl hu⟩
  | insert link h => exact ⟨hv, le_rfl, fun u hu => .inl hu⟩
  | resolve link choice => exact ⟨hv, le_rfl, fun u hu => .inl hu⟩

theorem LinkStep.ids (h : LinkStep env σ σ') (hu : Unique (fun l => some l.id) σ.links) :
    Unique (fun l => some l.id) σ'.links := by
  cases h with
  | work a google => exact hu
  | @sync remote link hl => exact hu.congr (confined_syncGoogleTaskLink env remote link σ).ids
  | leave link =>
    have hdetached : Confined link σ (detachGoogleTask link σ).2 := confined_detachGoogleTask σ
    rcases leaveGoogleTaskUnlinked_cases link σ with h | ⟨-, h⟩ <;> rw [h]
    · exact hu
    · exact hu.congr hdetached.ids
  | insert link h => exact hu.insert fun k hk l hl heq => h l hl (Option.some.inj (heq.trans hk.symm))
  | resolve link choice => exact hu.congr (map_update fun _ => rfl)

/-- While the receipt is live, no step writes the link of its task. -/
theorem LinkStep.left (h : LinkStep env σ σ') (hu : Unique (fun l => some l.id) σ.links) (hlive : Live receipt σ.w) :
    Left receipt.taskId σ σ' := by
  cases h with
  | work a google => exact fun l hl _ => ⟨l, hl, rfl⟩
  | @sync remote link hlink =>
    by_cases htask : link.taskId = receipt.taskId
    · rw [syncGoogleTaskLink_held (by rw [htask]; exact hlive.holding)]
      exact .refl _ σ
    · intro l hl ht
      refine ⟨l, (confined_syncGoogleTaskLink env remote link σ).others l hl fun heq => ?_, rfl⟩
      rw [hu.eq hl hlink rfl (by rw [heq])] at ht
      exact htask ht
  | leave link =>
    have hdetached : Confined link σ (detachGoogleTask link σ).2 := confined_detachGoogleTask σ
    rcases leaveGoogleTaskUnlinked_cases link σ with h | ⟨⟨l₀, hl₀, hid, hheld⟩, h⟩ <;> rw [h]
    · exact .refl _ σ
    · intro l hl ht
      refine ⟨l, hdetached.others l hl fun heq => ?_, rfl⟩
      rw [← hu.eq hl hl₀ rfl (by rw [heq, hid]), ht, hlive.holding] at hheld
      cases hheld
  | insert link h => exact fun l hl _ => ⟨l, List.mem_append_left _ hl, rfl⟩
  | resolve link choice =>
    intro l hl _
    by_cases hid : l.id = link
    · exact ⟨_, mem_update.2 (.inr ⟨l, hl, by simpa using hid, rfl⟩), rfl⟩
    · exact ⟨l, mem_update.2 (.inl ⟨hl, by simpa using hid⟩), rfl⟩

/-- A receipt that is new is under a fresh id. -/
theorem LinkRun.issuing (h : LinkRun env σ σ') (hv : σ.w.MovesValid) : σ.w.Issuing σ'.w := by
  have hall : ∀ σ', LinkRun env σ σ' → σ'.w.MovesValid ∧ σ.w.db.nextId ≤ σ'.w.db.nextId ∧ σ.w.Issuing σ'.w := by
    intro σ' hrun
    induction hrun with
    | refl => exact ⟨hv, le_rfl, fun u hu => .inl hu⟩
    | tail _ hstep ih =>
      obtain ⟨hvb, hnext, hissuing⟩ := ih
      obtain ⟨hvc, hnext', hissuing'⟩ := hstep.1.onward hvb
      exact ⟨hvc, hnext.trans hnext', hissuing.trans hnext hissuing'⟩
  exact (hall σ' h).2.2

theorem LinkRun.left (h : LinkRun env σ σ') (hv : σ.w.MovesValid) (hu : Unique (fun l => some l.id) σ.links)
    (hused : receipt.id < σ.w.db.nextId) (hlive : Live receipt σ'.w) : Left receipt.taskId σ σ' := by
  -- a receipt that is live at the end of a run is so all along
  have hall : ∀ σ', LinkRun env σ σ' → σ'.w.MovesValid ∧ Unique (fun l => some l.id) σ'.links ∧
      receipt.id < σ'.w.db.nextId ∧ (Live receipt σ'.w → Left receipt.taskId σ σ') := by
    intro σ' hrun
    induction hrun with
    | refl => exact ⟨hv, hu, hused, fun _ => .refl _ σ⟩
    | @tail b c _ hstep ih =>
      obtain ⟨hvb, hub, husedb, hleft⟩ := ih
      obtain ⟨hvc, hnext, hissuing⟩ := hstep.1.onward hvb
      refine ⟨hvc, hstep.1.ids hub, husedb.trans_le hnext, fun hlive => ?_⟩
      have hliveb : Live receipt b.w := by
        refine ⟨?_, hstep.2.trans_lt hlive.2⟩
        rcases hissuing receipt hlive.1 with hmem | hnew
        · exact hmem
        · exact absurd husedb (Nat.not_lt_of_le hnew)
      exact (hleft hliveb).trans (hstep.1.left hub hliveb)
  exact (hall σ' h).2.2.2 hlive

end Runs

end GoogleTasks

end Prosepect
