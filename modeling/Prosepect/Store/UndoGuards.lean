/-
An undo of a deletion never overwrites a later change. It reads the receipt (`prepareUndo`), asks
Google, and then, after whatever else has happened, restores the rows (`consumeUndo`) or refuses.
-/
import Prosepect.Store.Declared
import Prosepect.Store.Receipts

namespace Prosepect

open Resumption Table Time

namespace Store

/-! ## An attempt in two transactions -/

/-- What `undo_task_delete_inner` reads before it asks Google: the snapshot, and when it expires. -/
def prepareUndo (receipt : Uuid) : WorkspaceTx (Snapshot × DateTime) := do
  let w ← Tx.read
  match w.db.undos.find? (·.id == receipt), w.snapshots.find? (·.1 == receipt) with
  | some u, some (_, s) => if u.expiresAt ≤ w.db.now then Workspace.onDb changed else return (s, u.expiresAt)
  | _, _ => Tx.raise (.notFound "task deletion Undo")

/-- Its transaction, with what was read. -/
def consumeUndo (locked : Bool) (receipt : Uuid) (snapshot : Snapshot) (expiry : DateTime) : WorkspaceTx Unit := do
  let w ← Tx.read
  match w.db.undos.find? (·.id == receipt), w.snapshots.find? (·.1 == receipt) with
  | some u, some (_, s) =>
    if locked ∨ u.expiresAt ≤ w.db.now ∨ s ≠ snapshot ∨ unchanged expiry snapshot w = false ∨
        restorable snapshot w = false then Workspace.onDb changed
    else
      Tx.write (restore snapshot)
      Tx.write fun w => { w with
        db := w.db.deleteUndos (·.id == receipt), snapshots := Table.delete (·.1 == receipt) w.snapshots }
  | _, _ => Workspace.onDb changed

/-- An attempt that reads at `read` and, Google having answered, commits at `w`. -/
def attemptUndo (locked : Bool) (validation : Except AppError Unit) (receipt : Uuid) (read w : Workspace) :
    Except AppError Unit × Workspace :=
  match prepareUndo receipt read with
  | .error e => (.error e, w)
  | .ok ((snapshot, expiry), _) =>
    match if snapshot.mapping.isSome then validation else .ok () with
    | .error e => (.error e, w)
    | .ok () => Tx.commit (consumeUndo locked receipt snapshot expiry) w

/-- An attempt that nothing comes between is one step. -/
theorem attemptUndo_self (locked : Bool) (validation : Except AppError Unit) (receipt : Uuid) (w : Workspace) :
    attemptUndo locked validation receipt w w = Tx.commit (undoTaskDelete locked validation receipt) w := by
  unfold attemptUndo prepareUndo undoTaskDelete consumeUndo Tx.commit
  simp only [Tx.read_bind_run]
  cases hu : w.db.undos.find? (·.id == receipt) with
  | none => rfl
  | some u =>
    cases hs : w.snapshots.find? (·.1 == receipt) with
    | none => rfl
    | some x =>
      by_cases hexpired : u.expiresAt ≤ w.db.now
      · simp only [hexpired, if_true]
        rfl
      · simp only [hexpired, if_false, Tx.pure_run]
        cases hv : (if x.2.mapping.isSome then validation else .ok ()) with
        | error e => rfl
        | ok a => simp

theorem prepareUndo_ok {receipt : Uuid} {w w' : Workspace} {p : Snapshot × DateTime}
    (h : prepareUndo receipt w = .ok (p, w')) :
    w' = w ∧ (∃ u ∈ w.db.undos, u.id = receipt ∧ u.expiresAt = p.2) ∧ (receipt, p.1) ∈ w.snapshots := by
  unfold prepareUndo at h
  rw [Tx.read_bind_run] at h
  cases hu : w.db.undos.find? (·.id == receipt) with
  | none =>
    simp only [hu] at h
    cases h
  | some u =>
    cases hs : w.snapshots.find? (·.1 == receipt) with
    | none =>
      simp only [hu, hs] at h
      cases h
    | some x =>
      simp only [hu, hs] at h
      split at h
      · exact (Workspace.onDb_raise_ok h).elim
      · cases h
        have hk : x.1 = receipt := by simpa using List.find?_some hs
        exact ⟨rfl, ⟨u, List.mem_of_find?_eq_some hu, by simpa using List.find?_some hu, rfl⟩,
          hk ▸ List.mem_of_find?_eq_some hs⟩

theorem consumeUndo_ok {locked : Bool} {receipt : Uuid} {s : Snapshot} {expiry : DateTime} {a : Unit} {w w' : Workspace}
    (h : consumeUndo locked receipt s expiry w = .ok (a, w')) :
    locked = false ∧ (∃ u ∈ w.db.undos, u.id = receipt ∧ w.db.now < u.expiresAt) ∧ (receipt, s) ∈ w.snapshots ∧
      AsLeft expiry s w ∧ Vacant s w ∧ w' = { restore s w with
        db := (restore s w).db.deleteUndos (·.id == receipt)
        snapshots := Table.delete (·.1 == receipt) (restore s w).snapshots } := by
  unfold consumeUndo at h
  rw [Tx.read_bind_run] at h
  cases hu : w.db.undos.find? (·.id == receipt) with
  | none =>
    simp only [hu] at h
    exact (Workspace.onDb_raise_ok h).elim
  | some u =>
    cases hs : w.snapshots.find? (·.1 == receipt) with
    | none =>
      simp only [hu, hs] at h
      exact (Workspace.onDb_raise_ok h).elim
    | some x =>
      simp only [hu, hs] at h
      split at h
      · exact (Workspace.onDb_raise_ok h).elim
      · rename_i hok
        rw [Tx.write_bind_run] at h
        cases h
        simp only [not_or, Bool.not_eq_false, not_not, Bool.not_eq_true] at hok
        obtain ⟨hlocked, hactive, rfl, hleft, hfree⟩ := hok
        have hk : x.1 = receipt := by simpa using List.find?_some hs
        exact ⟨hlocked, ⟨u, List.mem_of_find?_eq_some hu, by simpa using List.find?_some hu, lt_of_not_ge hactive⟩,
          hk ▸ List.mem_of_find?_eq_some hs, unchanged_ok hleft, restorable_ok hfree, rfl⟩

/-! ## Where the receipt leads -/

/-- A run of any steps. -/
abbrev Reaches (env : Env) (w w' : Workspace) : Prop := Run env (fun _ _ => True) w w'

theorem Reaches.trans {env : Env} {a b c : Workspace} (h : Reaches env a b) (h' : Reaches env b c) : Reaches env a c := by
  induction h' with
  | start => exact h
  | step x _ hp ih => exact .step x ih hp

section Receipt

variable {env : Env} {validated : Bool} {task : Uuid} {receipt : TaskDeleteUndo} {s : Snapshot} {w₀ w₁ w : Workspace}

/-- The snapshot under the receipt is the one of the deletion, as long as there is one. -/
theorem Deleted.snapshot_eq (h : Deleted validated task receipt s w₀ w₁) (hd : w₀.Declared) (hv : w₁.MovesValid)
    (hrun : Reaches env w₁ w) {x : Snapshot} (hx : (receipt.id, x) ∈ w.snapshots) : x = s := by
  rcases (Workspace.traced_run hv hrun).snapshots _ hx with hx | hle
  · rw [h.snapshots] at hx
    rcases List.mem_append.1 hx with hx | hx
    · have hlt := hd.snapshotsUsed _ hx
      rw [h.issued] at hlt
      exact absurd hlt (Nat.lt_irrefl _)
    · exact (Prod.mk.inj (List.mem_singleton.1 hx)).2
  · exact absurd h.used (Nat.not_lt_of_le hle)

theorem Deleted.receipt_eq (h : Deleted validated task receipt s w₀ w₁) (hd : w₀.Declared) (hv : w₁.MovesValid)
    (hrun : Reaches env w₁ w) {u : TaskDeleteUndo} (hu : u ∈ w.db.undos) (hid : u.id = receipt.id) : u = receipt := by
  rcases Workspace.issuing_run hv hrun u hu with hu | hle
  · rw [h.undos] at hu
    rcases List.mem_append.1 hu with hu | hu
    · have hlt := hd.undosUsed u hu
      rw [hid, h.issued] at hlt
      exact absurd hlt (Nat.lt_irrefl _)
    · exact List.mem_singleton.1 hu
  · rw [hid] at hle
    exact absurd h.used (Nat.not_lt_of_le hle)

end Receipt

/-! ## Changes that an undo would overwrite -/

/-- A calendar as a snapshot guards it: without the columns a synchronization writes. -/
def guardedCalendar (w : Workspace) (calendar : Uuid) : Option CalendarGuard :=
  (w.db.calendar? calendar).map (calendarGuard w)

/-- Between the deletion of `task`, from `w₀` to `w₁`, and `w`, a row that the deletion guards has
changed, or the window has expired. -/
inductive Disturbed (env : Env) (task : Uuid) (receipt : TaskDeleteUndo) (w₀ w₁ w : Workspace) : Prop
  | expired (h : receipt.expiresAt ≤ w.db.now)
  | project {row : TaskRow} {id : Uuid} (hrow : w₀.db.task? task = some row)
      (hid : row.projectId = some id ∨ row.recurrenceProjectId = some id)
      (h : w.projects.find? (·.id == id) ≠ w₁.projects.find? (·.id == id))
  | dependency {row : TaskRow} {id : Uuid} (hrow : w₀.db.task? task = some row)
      (hid : row.parentTaskId = some id ∨ row.recurrenceSourceId = some id) (h : w.db.task? id ≠ w₁.db.task? id)
  | successor {t : TaskRow} (ht : t ∈ w₀.db.tasks) (hsource : t.recurrenceSourceId = some task)
      (h : w.db.task? t.id ≠ w₁.db.task? t.id)
  | file {f : FileRecord} (hf : f ∈ w₀.files)
      (hattached : Workspace.losesParent task (w₀.db.taskEvent? task) w₀.notes f = true)
      (h : w.files.find? (·.id == f.id) ≠ w₁.files.find? (·.id == f.id))
  | calendar {e : CalendarEvent} (he : w₀.db.taskEvent? task = some e)
      (h : guardedCalendar w e.calendarId ≠ guardedCalendar w₁ e.calendarId)
  | preference {e : CalendarEvent} {id : Uuid} {between : Workspace} (he : w₀.db.taskEvent? task = some e)
      (hto : Reaches env w₁ between) (hfrom : Reaches env between w) (h : between.preference? id ≠ w₁.preference? id)
  | account {e : CalendarEvent} {c : Calendar} (he : w₀.db.taskEvent? task = some e)
      (hc : w₀.db.calendar? e.calendarId = some c) (hgoogle : c.source = .google) (h : w.account ≠ w₁.account)
  | mapping {e : CalendarEvent} {m : Mapping} (he : w₀.db.taskEvent? task = some e)
      (hm : w₀.db.mappingOf? e.id = some m) (h : w.db.mapping? m.id ≠ w₁.db.mapping? m.id)
  | conflict {e : CalendarEvent} {m : Mapping} {k : SyncConflict} (he : w₀.db.taskEvent? task = some e)
      (hm : w₀.db.mappingOf? e.id = some m) (hk : k ∈ w.db.conflicts) (hof : k.mappingId = m.id)
      (h : k.status = .unresolved)
  | focus {f : FocusTask} {between : Workspace} (hf : f ∈ w₀.focus) (hof : f.taskId = task)
      (hto : Reaches env w₁ between) (hfrom : Reaches env between w)
      (h : between.focusOn f.focusDate ≠ w₁.focusOn f.focusDate)
  | review {f : FocusTask} {between : Workspace} (hf : f ∈ w₀.focus) (hof : f.taskId = task)
      (hto : Reaches env w₁ between) (hfrom : Reaches env between w) (h : between.reviews ≠ w₁.reviews)

section Undisturbed

variable {env : Env} {validated : Bool} {task : Uuid} {receipt : TaskDeleteUndo} {s : Snapshot} {w₀ w₁ w : Workspace}
  (h : Deleted validated task receipt s w₀ w₁)

include h

theorem Deleted.task_id (hd : w₀.Declared) : s.task.id = task := (hd.task?_eq_some.1 h.row).2

theorem Deleted.event_eq (hd : w₀.Declared) : s.event = w₀.db.taskEvent? task := by
  rw [← h.task_id hd]
  exact h.taken.event

/-- A row that goes is not in the way of the snapshot any more. -/
theorem Deleted.task?_other {id : Uuid} {t : TaskRow} (ht : w₀.db.task? id = some t) (hid : id ≠ task) :
    w₁.db.task? id = some (if t.recurrenceSourceId == some task then Workspace.detachedTask t else t) := by
  rw [Workspace.task?_dropped h.gone.tasks hid, ht]
  rfl

theorem Deleted.mem_successors (hd : w₀.Declared) {t : TaskRow} :
    t ∈ s.successors ↔ t ∈ w₀.db.tasks ∧ t.recurrenceSourceId = some task := by
  have heq : s.successors = w₀.db.tasks.filter (·.recurrenceSourceId == some s.task.id) := h.taken.successors
  rw [heq, List.mem_filter, h.task_id hd, beq_iff_eq]

theorem Deleted.mem_files (hd : w₀.Declared) {f : FileRecord} :
    f ∈ s.files ↔ f ∈ w₀.files ∧ Workspace.losesParent task (w₀.db.taskEvent? task) w₀.notes f = true := by
  have heq : s.files = attachedFiles s.task.id s.event s.notes w₀ := h.taken.files
  have hnotes : s.notes = attachedNotes s.task.id s.event w₀ := h.taken.notes
  have hany : ∀ f : FileRecord, (s.notes.any fun n => f.noteId == some n.id) =
      w₀.notes.any fun n => Workspace.goesWith task (w₀.db.taskEvent? task) n && f.noteId == some n.id := by
    intro f
    rw [Bool.eq_iff_iff, List.any_eq_true, List.any_eq_true, hnotes]
    unfold attachedNotes
    simp only [List.mem_insertionSort, List.mem_filter, h.task_id hd, h.event_eq hd, Workspace.goesWith, Bool.and_eq_true,
      and_assoc]
  rw [heq]
  unfold attachedFiles
  rw [List.mem_insertionSort, List.mem_filter]
  simp only [hany, h.task_id hd, h.event_eq hd, Workspace.losesParent]

theorem Deleted.mem_focus (hd : w₀.Declared) {f : FocusTask} : f ∈ s.focus ↔ f ∈ w₀.focus ∧ f.taskId = task := by
  have heq : s.focus = focusOf s.task.id w₀ := h.taken.focus
  rw [heq, h.task_id hd]
  unfold focusOf
  rw [List.mem_insertionSort, List.mem_filter, beq_iff_eq]

/-- A revision of the snapshot is as it was over the whole run. -/
theorem Deleted.revision_eq (hv : w₁.MovesValid) (hleft : AsLeft receipt.expiresAt s w) {scope : GuardScope}
    (hscope : scope ∈ guardScopes s.focus s.event) {between : Workspace} (hto : Reaches env w₁ between)
    (hfrom : Reaches env between w) : between.revisions scope = w₁.revisions scope := by
  have hsame : w.revisions scope = w₁.revisions scope := by
    refine hleft.revisions (scope, w₁.revisions scope) ?_
    rw [h.revisions]
    exact List.mem_map.2 ⟨scope, hscope, rfl⟩
  have hvb := (Workspace.onward_run hto hv).1
  refine le_antisymm ?_ ((Workspace.traced_run hv hto).risen scope)
  exact hsame ▸ (Workspace.traced_run hvb hfrom).risen scope

theorem Deleted.dependency_eq (hd : w₀.Declared) (hleft : AsLeft receipt.expiresAt s w) (hfree : Vacant s w) {id : Uuid}
    {t : TaskRow} (hmem : t ∈ s.taskDependencies) (ht : w₀.db.task? id = some t) : w.db.task? id = w₁.db.task? id := by
  obtain ⟨htmem, rfl⟩ := hd.task?_eq_some.1 ht
  have hw := hleft.tasks t hmem
  have hne : t.id ≠ task := by
    rw [← h.task_id hd]
    exact hfree.task t (task?_mem hw).1
  by_cases hsource : t.recurrenceSourceId = some task
  · -- the task it depends on is its own successor, which is expected in two states
    have hsuccessor := hleft.successors t ((h.mem_successors hd).2 ⟨htmem, hsource⟩)
    rw [hw, Option.some.injEq] at hsuccessor
    rw [hsuccessor] at hsource
    cases hsource
  · rw [hw, h.task?_other ht hne, if_neg (by simpa using hsource)]

theorem Deleted.successor_eq (hd : w₀.Declared) (hleft : AsLeft receipt.expiresAt s w) (hfree : Vacant s w) {t : TaskRow}
    (ht : t ∈ w₀.db.tasks) (hsource : t.recurrenceSourceId = some task) : w.db.task? t.id = w₁.db.task? t.id := by
  have hw := hleft.successors t ((h.mem_successors hd).2 ⟨ht, hsource⟩)
  have hmem := (task?_mem hw).1
  have hother := hfree.task _ hmem
  have hne : t.id ≠ task := h.task_id hd ▸ hother
  rw [hw, h.task?_other (hd.task?_eq_some.2 ⟨ht, rfl⟩) hne, if_pos (by simpa using hsource)]
  rfl

theorem Deleted.file_left (hd : w₀.Declared) {f : FileRecord} (hf : f ∈ s.files) :
    w₁.files.find? (·.id == f.id) = some (Workspace.detachedFile f) := by
  obtain ⟨hmem, hloses⟩ := (h.mem_files hd).1 hf
  have hfound : w₀.files.find? (·.id == f.id) = some f := by
    have hfind := (hd.fileIds.find_eq_some_iff (k := f.id) (r := f)).2 ⟨hmem, rfl⟩
    simpa using hfind
  rw [h.gone.files, find_update (by intro; rfl), hfound, Option.map_some, if_pos hloses]

theorem Deleted.guard_left (hd : w₀.Declared) {e : CalendarEvent} (he : w₀.db.taskEvent? task = some e) :
    ∃ c g, w₀.db.calendar? e.calendarId = some c ∧ s.calendar = some g ∧ g.id = e.calendarId ∧
      guardedCalendar w₁ e.calendarId = some g ∧
      s.googleAccount = (if c.source = .google then w₁.account else none) ∧ (c.source = .google → w₁.account.isSome) := by
  have hguarded : Guarded s.event s.calendar s.googleAccount w₀ := h.taken.guarded
  rw [h.event_eq hd, he] at hguarded
  obtain ⟨c, hc, hcal, haccount, hsome⟩ := hguarded
  have hcid : c.id = e.calendarId := (calendar?_mem hc).2
  refine ⟨c, _, hc, hcal, hcid, ?_, by rw [h.gone.account]; exact haccount, by rw [h.gone.account]; exact hsome⟩
  have hfound : w₁.db.calendar? e.calendarId = some c := by
    unfold Db.calendar?
    rw [h.gone.calendars]
    exact hc
  unfold guardedCalendar
  rw [hfound, Option.map_some]
  unfold calendarGuard Workspace.label
  rw [h.gone.labels]

theorem Deleted.mapping_left (hd : w₀.Declared) {e : CalendarEvent} {m : Mapping} (he : w₀.db.taskEvent? task = some e)
    (hm : w₀.db.mappingOf? e.id = some m) :
    ∃ m', s.mapping = some m' ∧ m'.id = m.id ∧ w₁.db.mapping? m.id = some (heldRow receipt.expiresAt m') := by
  have hevent : s.event = some e := (h.event_eq hd).trans he
  cases hs : s.mapping with
  | none =>
    have hnone := (h.unheld hs).1 e hevent
    rw [hnone] at hm
    cases hm
  | some m' =>
    obtain ⟨hheld, hmappings⟩ := h.held m' hs
    obtain ⟨x, m₀, hx, hm₀, rfl⟩ := hheld.event
    obtain rfl : e = x := Option.some.inj (hevent.symm.trans hx)
    obtain rfl : m = m₀ := Option.some.inj (hm.symm.trans hm₀)
    have hmem := (hd.db.mappingOf?_eq_some.1 hm).1
    refine ⟨_, rfl, rfl, ?_⟩
    have hfound : w₀.db.mapping? m.id = some m := hd.db.mapping?_eq_some.2 ⟨hmem, rfl⟩
    unfold Db.mapping? at hfound ⊢
    rw [hmappings, find_update_const _ (fun r hr => by rw [beq_iff_eq.1 hr]; rfl), hfound]
    simp

/-- What an undo compares is all that may not have changed. -/
theorem Deleted.undisturbed (hd : w₀.Declared) (hv : w₁.MovesValid) (hactive : w.db.now < receipt.expiresAt)
    (hleft : AsLeft receipt.expiresAt s w) (hfree : Vacant s w) : ¬ Disturbed env task receipt w₀ w₁ w := by
  have hrow : ∀ {row}, w₀.db.task? task = some row → row = s.task := fun hrow => Option.some.inj (hrow.symm.trans h.row)
  intro hdisturbed
  cases hdisturbed with
  | expired hexpired => exact absurd hactive (not_lt_of_ge hexpired)
  | @project row id hr hid hne =>
    obtain rfl := hrow hr
    obtain ⟨p, hp, hfound⟩ : ∃ p ∈ s.projects, w₀.projects.find? (·.id == id) = some p :=
      hid.elim (h.taken.project id) (h.taken.recurrenceProject id)
    have hpid : p.id = id := by simpa using List.find?_some hfound
    refine hne ?_
    rw [h.gone.projects, hfound, ← hpid]
    exact hleft.projects p hp
  | @dependency row id hr hid hne =>
    obtain rfl := hrow hr
    obtain ⟨t, ht, hfound⟩ : ∃ t ∈ s.taskDependencies, w₀.db.task? id = some t :=
      hid.elim (h.taken.parent id) (h.taken.source id)
    exact hne (h.dependency_eq hd hleft hfree ht hfound)
  | successor ht hsource hne => exact hne (h.successor_eq hd hleft hfree ht hsource)
  | @file f hf hattached hne =>
    have hmem := (h.mem_files hd).2 ⟨hf, hattached⟩
    exact hne ((hleft.files f hmem).trans (h.file_left hd hmem).symm)
  | @calendar e he hne =>
    obtain ⟨c, g, -, hg, hgid, hguard, -⟩ := h.guard_left hd he
    obtain ⟨c', hc', hguard'⟩ := hleft.calendar g hg
    refine hne ?_
    rw [hguard]
    unfold guardedCalendar
    rw [← hgid, hc', Option.map_some, hguard']
  | @preference e id between he hto hfrom hne =>
    have hscope : GuardScope.calendars ∈ guardScopes s.focus s.event := by
      rw [h.event_eq hd, he]
      simp [guardScopes]
    exact hne ((Workspace.traced_run hv hto).calendars (h.revision_eq hv hleft hscope hto hfrom) id)
  | @account e c he hc hgoogle hne =>
    obtain ⟨c', g, hc', -, -, -, haccount, hsome⟩ := h.guard_left hd he
    obtain rfl : c = c' := Option.some.inj (hc.symm.trans hc')
    rw [if_pos hgoogle] at haccount
    obtain ⟨a, ha⟩ := Option.isSome_iff_exists.1 (hsome hgoogle)
    exact hne ((hleft.account a (haccount.trans ha)).trans ha.symm)
  | @mapping e m he hm hne =>
    obtain ⟨m', hm', hid, hfound⟩ := h.mapping_left hd he hm
    have hheld := hleft.mapping m' hm'
    simp only [stillHeld, Bool.and_eq_true, beq_iff_eq] at hheld
    exact hne (by rw [hfound, ← hid]; exact hheld.1)
  | @conflict e m k he hm hk hof hopen =>
    obtain ⟨m', hm', hid, -⟩ := h.mapping_left hd he hm
    have hheld := hleft.mapping m' hm'
    simp only [stillHeld, Bool.and_eq_true, Bool.not_eq_true'] at hheld
    have hno := has_eq_false_iff.1 hheld.2 k hk
    simp [hof, hid, hopen] at hno
  | @focus f between hf hof hto hfrom hne =>
    have hmem := (h.mem_focus hd).2 ⟨hf, hof⟩
    have hscope : GuardScope.focus f.focusDate ∈ guardScopes s.focus s.event := by
      unfold guardScopes
      simp only [List.mem_append, List.mem_map]
      exact .inl (.inr ⟨f, hmem, rfl⟩)
    exact hne ((Workspace.traced_run hv hto).focus _ (h.revision_eq hv hleft hscope hto hfrom))
  | @review f between hf hof hto hfrom hne =>
    have hmem := (h.mem_focus hd).2 ⟨hf, hof⟩
    have hscope : GuardScope.reviewSelection ∈ guardScopes s.focus s.event := by
      unfold guardScopes
      cases hfocus : s.focus with
      | nil =>
        rw [hfocus] at hmem
        cases hmem
      | cons _ _ => simp
    exact hne ((Workspace.traced_run hv hto).reviews (h.revision_eq hv hleft hscope hto hfrom))

end Undisturbed

/-! ## Changes that do not matter -/

/-- A calendar without the columns that only a synchronization writes. -/
def unsynced (c : Calendar) : Calendar := { c with syncToken := none, lastSyncedAt := none, lastSyncError := none }

/-- Nothing of the user has changed: time has passed, ids were drawn, jobs and activity recorded,
the reviews moved on, calendars synchronized. -/
structure Untouched (w w' : Workspace) : Prop where
  calendars : w'.db.calendars.map unsynced = w.db.calendars.map unsynced
  events : w'.db.events = w.db.events
  mappings : w'.db.mappings = w.db.mappings
  conflicts : w'.db.conflicts = w.db.conflicts
  undos : w'.db.undos = w.db.undos
  tasks : w'.db.tasks = w.db.tasks
  projectIds : w'.db.projects = w.db.projects
  projects : w'.projects = w.projects
  labels : w'.labels = w.labels
  notes : w'.notes = w.notes
  files : w'.files = w.files
  focus : w'.focus = w.focus
  moves : w'.moves = w.moves
  snapshots : w'.snapshots = w.snapshots
  revisions : w'.revisions = w.revisions
  account : w'.account = w.account
  nextId : w.db.nextId ≤ w'.db.nextId

section Untouched

variable {w w' : Workspace}

theorem Untouched.refl (w : Workspace) : Untouched w w :=
  ⟨rfl, rfl, rfl, rfl, rfl, rfl, rfl, rfl, rfl, rfl, rfl, rfl, rfl, rfl, rfl, rfl, le_rfl⟩

theorem Untouched.trans {a b c : Workspace} (h : Untouched a b) (h' : Untouched b c) : Untouched a c where
  calendars := h'.calendars.trans h.calendars
  events := h'.events.trans h.events
  mappings := h'.mappings.trans h.mappings
  conflicts := h'.conflicts.trans h.conflicts
  undos := h'.undos.trans h.undos
  tasks := h'.tasks.trans h.tasks
  projectIds := h'.projectIds.trans h.projectIds
  projects := h'.projects.trans h.projects
  labels := h'.labels.trans h.labels
  notes := h'.notes.trans h.notes
  files := h'.files.trans h.files
  focus := h'.focus.trans h.focus
  moves := h'.moves.trans h.moves
  snapshots := h'.snapshots.trans h.snapshots
  revisions := h'.revisions.trans h.revisions
  account := h'.account.trans h.account
  nextId := h.nextId.trans h'.nextId

theorem Untouched.calendar? (h : Untouched w w') (id : Uuid) :
    (w'.db.calendar? id).map unsynced = (w.db.calendar? id).map unsynced := by
  have hfind : ∀ l : List Calendar, (l.find? fun c => some c.id == some id).map unsynced =
      (l.map unsynced).find? fun c => some c.id == some id := by
    intro l
    rw [List.find?_map]
    rfl
  unfold Db.calendar?
  rw [hfind, hfind, h.calendars]

theorem Untouched.guardedCalendar (h : Untouched w w') (id : Uuid) : guardedCalendar w' id = guardedCalendar w id := by
  have hmap : ∀ w : Workspace, Store.guardedCalendar w id = ((w.db.calendar? id).map unsynced).map (calendarGuard w) := by
    intro w
    rw [Option.map_map]
    rfl
  have hguard : calendarGuard w' = calendarGuard w := by
    funext c
    unfold calendarGuard Workspace.label
    rw [h.labels]
  rw [hmap, hmap, h.calendar?, hguard]

theorem Untouched.unchanged (h : Untouched w w') (expiry : DateTime) (s : Snapshot) :
    unchanged expiry s w' = unchanged expiry s w := by
  have hguard := h.guardedCalendar
  unfold Store.guardedCalendar at hguard
  unfold Store.unchanged stillHeld Db.task? Db.mapping?
  simp only [h.revisions, h.projects, h.tasks, h.account, h.files, h.mappings, h.conflicts, hguard]

theorem Untouched.restorable (h : Untouched w w') (s : Snapshot) : restorable s w' = restorable s w := by
  unfold Store.restorable Db.task? Db.event? Db.taskEvent?
  simp only [h.tasks, h.events, h.notes, h.focus]

/-- An undo that is possible stays so until the receipt expires. -/
theorem Untouched.consumeUndo_ok (h : Untouched w w') {locked : Bool} {receipt : Uuid} {s : Snapshot} {expiry : DateTime}
    {a : Unit} {v : Workspace} (hok : consumeUndo locked receipt s expiry w = .ok (a, v))
    (hactive : ∀ u ∈ w.db.undos, u.id = receipt → w'.db.now < u.expiresAt) :
    ∃ v', consumeUndo locked receipt s expiry w' = .ok ((), v') := by
  unfold consumeUndo at hok ⊢
  rw [Tx.read_bind_run] at hok ⊢
  rw [h.undos, h.snapshots]
  cases hu : w.db.undos.find? (·.id == receipt) with
  | none =>
    simp only [hu] at hok
    exact (Workspace.onDb_raise_ok hok).elim
  | some u =>
    cases hs : w.snapshots.find? (·.1 == receipt) with
    | none =>
      simp only [hu, hs] at hok
      exact (Workspace.onDb_raise_ok hok).elim
    | some x =>
      simp only [hu, hs] at hok ⊢
      rw [h.unchanged, h.restorable]
      have hnow := hactive u (List.mem_of_find?_eq_some hu) (by simpa using List.find?_some hu)
      split at hok
      · exact (Workspace.onDb_raise_ok hok).elim
      · rename_i hno
        rw [if_neg fun hyes => hno (hyes.imp_right fun hyes => hyes.imp_left fun hle => absurd hnow (not_lt_of_ge hle))]
        exact ⟨_, rfl⟩

theorem Untouched.prepareUndo_ok (h : Untouched w w') {receipt : Uuid} {p : Snapshot × DateTime} {v : Workspace}
    (hok : prepareUndo receipt w = .ok (p, v)) (hactive : ∀ u ∈ w.db.undos, u.id = receipt → w'.db.now < u.expiresAt) :
    prepareUndo receipt w' = .ok (p, w') := by
  unfold prepareUndo at hok ⊢
  rw [Tx.read_bind_run] at hok ⊢
  rw [h.undos, h.snapshots]
  cases hu : w.db.undos.find? (·.id == receipt) with
  | none =>
    simp only [hu] at hok
    cases hok
  | some u =>
    cases hs : w.snapshots.find? (·.1 == receipt) with
    | none =>
      simp only [hu, hs] at hok
      cases hok
    | some x =>
      simp only [hu, hs] at hok ⊢
      have hnow := hactive u (List.mem_of_find?_eq_some hu) (by simpa using List.find?_some hu)
      split at hok
      · exact (Workspace.onDb_raise_ok hok).elim
      · cases hok
        rw [if_neg (not_le_of_gt hnow)]
        rfl

theorem Untouched.declared (h : Untouched w w') (hd : w.Declared) : w'.Declared := by
  have hids : w'.db.calendars.map (fun c => some c.id) = w.db.calendars.map fun c => some c.id := by
    have hmap := congrArg (List.map fun c : Calendar => some c.id) h.calendars
    rwa [List.map_map, List.map_map] at hmap
  have hcalendar : ∀ id, (w'.db.calendar? id).isSome = (w.db.calendar? id).isSome := by
    intro id
    rw [← Option.isSome_map (f := unsynced), h.calendar?, Option.isSome_map]
  have htask : ∀ id, w'.db.task? id = w.db.task? id := fun id => by unfold Db.task?; rw [h.tasks]
  have hevent : ∀ id, w'.db.event? id = w.db.event? id := fun id => by unfold Db.event?; rw [h.events]
  have hmem : ∀ c ∈ w'.db.calendars, ∃ c' ∈ w.db.calendars, c'.id = c.id := by
    intro c hc
    have hid : some c.id ∈ w.db.calendars.map fun c => some c.id := hids ▸ List.mem_map_of_mem hc
    obtain ⟨c', hc', heq⟩ := List.mem_map.1 hid
    exact ⟨c', hc', Option.some.inj heq⟩
  have hvalid : w'.db.Valid := by
    refine ⟨hd.db.calendarIds.congr hids, fun c hc => ?_, ?_, ?_, ?_, fun e he => ?_, ?_, ?_, ?_, ?_, ?_, ?_, ?_, ?_, ?_⟩
    · obtain ⟨c', hc', hid⟩ := hmem c hc
      exact hid ▸ (hd.db.calendarsUsed c' hc').trans_le h.nextId
    · exact h.events ▸ hd.db.eventIds
    · exact fun e he => (hd.db.eventsUsed e (h.events ▸ he)).trans_le h.nextId
    · exact h.events ▸ hd.db.eventTasks
    · obtain ⟨c, hc, hce⟩ := hd.db.eventCalendar e (h.events ▸ he)
      exact Db.calendar?_isSome.1 (hcalendar _ ▸ Db.calendar?_isSome.2 ⟨c, hc, hce⟩)
    · exact h.mappings ▸ hd.db.mappingIds
    · exact fun m hm => (hd.db.mappingsUsed m (h.mappings ▸ hm)).trans_le h.nextId
    · exact h.mappings ▸ hd.db.mappingKeys
    · exact h.mappings ▸ hd.db.mappingEvents
    · exact h.mappings ▸ h.events ▸ hd.db.mappingEvent
    · exact h.conflicts ▸ hd.db.conflictIds
    · exact fun c hc => (hd.db.conflictsUsed c (h.conflicts ▸ hc)).trans_le h.nextId
    · exact h.conflicts ▸ hd.db.conflictsOpen
    · exact h.conflicts ▸ h.mappings ▸ hd.db.conflictMapping
  exact {
    db := hvalid
    undosUsed := fun u hu => (hd.undosUsed u (h.undos ▸ hu)).trans_le h.nextId
    taskIds := h.tasks ▸ hd.taskIds
    taskSources := h.tasks ▸ hd.taskSources
    taskSource := fun t ht s hs => htask s ▸ hd.taskSource t (h.tasks ▸ ht) s hs
    eventTask := fun e he t ht => htask t ▸ hd.eventTask e (h.events ▸ he) t ht
    projects := fun p hp => h.projectIds ▸ hd.projects p (h.projects ▸ hp)
    labels := fun l hl => hcalendar _ ▸ hd.labels l (h.labels ▸ hl)
    noteIds := h.notes ▸ hd.noteIds
    noteProject := fun n hn p hp => h.projectIds ▸ hd.noteProject n (h.notes ▸ hn) p hp
    noteTask := fun n hn t ht => htask t ▸ hd.noteTask n (h.notes ▸ hn) t ht
    noteEvent := fun n hn e he => hevent e ▸ hd.noteEvent n (h.notes ▸ hn) e he
    fileIds := h.files ▸ hd.fileIds
    fileProject := fun f hf p hp => h.projectIds ▸ hd.fileProject f (h.files ▸ hf) p hp
    fileTask := fun f hf t ht => htask t ▸ hd.fileTask f (h.files ▸ hf) t ht
    fileNote := fun f hf n hn => h.notes ▸ hd.fileNote f (h.files ▸ hf) n hn
    fileEvent := fun f hf e he => hevent e ▸ hd.fileEvent f (h.files ▸ hf) e he
    fileParent := fun f hf => hd.fileParent f (h.files ▸ hf)
    focusTasks := h.focus ▸ hd.focusTasks
    focusPositions := h.focus ▸ hd.focusPositions
    focusTask := fun f hf => htask _ ▸ hd.focusTask f (h.focus ▸ hf)
    moveEvent := fun m hm => hevent _ ▸ hd.moveEvent m (h.moves ▸ hm)
    moveTask := fun m hm t ht => htask t ▸ hd.moveTask m (h.moves ▸ hm) t ht
    snapshotsUsed := fun x hx => (hd.snapshotsUsed x (h.snapshots ▸ hx)).trans_le h.nextId }

end Untouched

/-! ## Refreshes -/

/-- A row of `google_accounts`. -/
structure GoogleAccountRow where
  encryptedAccessToken : List UInt8
  encryptedRefreshToken : Option (List UInt8)
  accessTokenExpiresAt : Option DateTime
  scopes : List String
  connectedAt : DateTime
  updatedAt : DateTime
deriving DecidableEq, Repr

/-- Credentials are never copied into a receipt. -/
def googleAccountGuard (row : GoogleAccountRow) : GoogleAccount := ⟨row.connectedAt, row.scopes⟩

def updateGoogleAccessToken (encryptedToken : List UInt8) (expiresAt : Option DateTime) (now : DateTime)
    (row : GoogleAccountRow) : GoogleAccountRow :=
  { row with encryptedAccessToken := encryptedToken, accessTokenExpiresAt := expiresAt, updatedAt := now }

/-- Time, a new access token, or what a synchronization writes of a calendar. -/
inductive Refresh (env : Env) (w : Workspace) : Workspace → Prop
  | tick (now : DateTime) : Refresh env w ((Action.tick now).perform env w)
  | accessToken (row : GoogleAccountRow) (token : List UInt8) (expiresAt : Option DateTime)
      (h : w.account = some (googleAccountGuard row)) :
      Refresh env w { w with account := some (googleAccountGuard (updateGoogleAccessToken token expiresAt w.db.now row)) }
  | syncToken (calendar : Uuid) (token : String) :
      Refresh env w ((Action.sync (.setSyncToken calendar token)).perform env w)
  | synced (calendar : Uuid) : Refresh env w ((Action.sync (.setSynced calendar)).perform env w)
  | syncError (calendar : Uuid) (error : SyncError) :
      Refresh env w ((Action.sync (.setSyncError calendar error)).perform env w)

theorem untouched_settle {w : Workspace} (hd : w.Declared) (calendar : Uuid) {f : Calendar → Calendar}
    (hf : ∀ c, unsynced (f c) = unsynced c) : Untouched w (w.settle (w.db.updateCalendar calendar f)) := by
  have hid : ∀ c, (f c).id = c.id := by
    intro c
    have h := congrArg Calendar.id (hf c)
    exact h
  have hcalendars : (w.db.updateCalendar calendar f).calendars.map unsynced = w.db.calendars.map unsynced :=
    map_update hf
  have hfind : ∀ id, (w.db.updateCalendar calendar f).calendar? id =
      (w.db.calendar? id).map fun c => if c.id == calendar then f c else c := fun id =>
    find_update (by simp [hid])
  have hlabels : w.labels.filter (fun l => ((w.db.updateCalendar calendar f).calendar? l.id).isSome) = w.labels := by
    refine List.filter_eq_self.2 fun l hl => ?_
    rw [hfind, Option.isSome_map]
    exact hd.labels l hl
  have hpreferences : ∀ c, Workspace.calendarPreferences (f c) = Workspace.calendarPreferences c := by
    intro c
    have h := congrArg Workspace.calendarPreferences (hf c)
    exact h
  have hchanges : Workspace.calendarChanges w.db (w.db.updateCalendar calendar f) = 0 := by
    unfold Workspace.calendarChanges
    rw [Nat.add_eq_zero_iff, List.length_eq_zero_iff, List.length_eq_zero_iff, List.filter_eq_nil_iff,
      List.filter_eq_nil_iff]
    constructor
    · intro c hc
      rcases mem_update.1 hc with ⟨hc, -⟩ | ⟨c₀, hc₀, -, rfl⟩
      · rw [hd.db.calendar?_eq_some.2 ⟨hc, rfl⟩]
        simp
      · rw [hid, hd.db.calendar?_eq_some.2 ⟨hc₀, rfl⟩, hpreferences]
        simp
    · intro c hc
      rw [hfind, hd.db.calendar?_eq_some.2 ⟨hc, rfl⟩]
      simp
  have hself := hd.settle_self
  have hrest : w.settle (w.db.updateCalendar calendar f) = { w.settle w.db with db := w.db.updateCalendar calendar f } := by
    have hlabels' : w.labels.filter (fun l => (w.db.calendar? l.id).isSome) = w.labels := List.filter_eq_self.2 hd.labels
    unfold Workspace.settle
    dsimp only
    rw [hlabels, hchanges, hlabels', Workspace.calendarChanges_self hd.db]
    rfl
  rw [hrest, hself]
  exact ⟨hcalendars, rfl, rfl, rfl, rfl, rfl, rfl, rfl, rfl, rfl, rfl, rfl, rfl, rfl, rfl, rfl, le_rfl⟩

theorem Refresh.untouched {env : Env} {w w' : Workspace} (hd : w.Declared) (h : Refresh env w w') : Untouched w w' := by
  cases h with
  | tick now => exact ⟨rfl, rfl, rfl, rfl, rfl, rfl, rfl, rfl, rfl, rfl, rfl, rfl, rfl, rfl, rfl, rfl, le_rfl⟩
  | accessToken row token expiresAt h =>
    exact ⟨rfl, rfl, rfl, rfl, rfl, rfl, rfl, rfl, rfl, rfl, rfl, rfl, rfl, rfl, rfl, h.symm, le_rfl⟩
  | syncToken calendar token => exact untouched_settle hd calendar fun _ => rfl
  | synced calendar => exact untouched_settle hd calendar fun _ => rfl
  | syncError calendar error => exact untouched_settle hd calendar fun _ => rfl

theorem untouched_refreshes {env : Env} {w w' : Workspace} (hd : w.Declared)
    (h : Relation.ReflTransGen (Refresh env) w w') : Untouched w w' := by
  induction h with
  | refl => exact .refl w
  | tail _ hstep ih => exact ih.trans (hstep.untouched (ih.declared hd))

/-! ## The guards are complete -/

end Store

end Prosepect
