/-
The revisions a snapshot is bound to, over whole runs: none ever falls, and one that is as it was
says that the rows it counts were not written.
-/
import Prosepect.Store.MoveRuns
import Prosepect.Store.TaskRuns

namespace Prosepect

open Resumption Table Time Store

namespace Workspace

def focusOn (date : NaiveDate) (w : Workspace) : List FocusTask := w.focus.filter (·.focusDate == date)

/-- The columns of a calendar that decide which one is preferred. -/
def preference? (id : Uuid) (w : Workspace) : Option (CalendarSource × Option String × Bool × Bool × Bool × AccessRole) :=
  (w.db.calendar? id).map calendarPreferences

structure Counted (w w' : Workspace) : Prop where
  risen : ∀ s, w.revisions s ≤ w'.revisions s
  calendars : w'.revisions .calendars = w.revisions .calendars → ∀ id, w'.preference? id = w.preference? id
  focus : ∀ date, w'.revisions (.focus date) = w.revisions (.focus date) → w'.focusOn date = w.focusOn date
  reviews : w'.revisions .reviewSelection = w.revisions .reviewSelection → w'.reviews = w.reviews

/-- No snapshot is new. -/
structure Heeded (w w' : Workspace) : Prop extends w.Counted w' where
  snapshots : ∀ x ∈ w'.snapshots, x ∈ w.snapshots

variable {w w' : Workspace}

theorem Counted.refl (w : Workspace) : w.Counted w := ⟨fun _ => le_rfl, fun _ _ => rfl, fun _ _ => rfl, fun _ => rfl⟩

theorem Counted.trans {a b c : Workspace} (h : a.Counted b) (h' : b.Counted c) : a.Counted c where
  risen := fun s => (h.risen s).trans (h'.risen s)
  calendars := by
    intro heq id
    -- a revision that ends where it began never moved
    have hab : b.revisions .calendars = a.revisions .calendars :=
      le_antisymm (heq ▸ h'.risen .calendars) (h.risen .calendars)
    exact (h'.calendars (heq.trans hab.symm) id).trans (h.calendars hab id)
  focus := by
    intro date heq
    have hab : b.revisions (.focus date) = a.revisions (.focus date) :=
      le_antisymm (heq ▸ h'.risen (.focus date)) (h.risen (.focus date))
    exact (h'.focus date (heq.trans hab.symm)).trans (h.focus date hab)
  reviews := by
    intro heq
    have hab : b.revisions .reviewSelection = a.revisions .reviewSelection :=
      le_antisymm (heq ▸ h'.risen .reviewSelection) (h.risen .reviewSelection)
    exact (h'.reviews (heq.trans hab.symm)).trans (h.reviews hab)

theorem Heeded.refl (w : Workspace) : w.Heeded w := ⟨.refl w, fun _ hx => hx⟩

theorem Heeded.trans {a b c : Workspace} (h : a.Heeded b) (h' : b.Heeded c) : a.Heeded c :=
  ⟨h.toCounted.trans h'.toCounted, fun x hx => h.snapshots x (h'.snapshots x hx)⟩

/-! ## What the triggers count -/

theorem bump_apply (scope : GuardScope) (n : Nat) (revisions : GuardScope → Nat) (s : GuardScope) :
    bump scope n revisions s = revisions s + if s = scope then n else 0 := by
  unfold bump
  split <;> simp

theorem bumpFocus_apply (rows : List FocusTask) (revisions : GuardScope → Nat) (s : GuardScope) :
    bumpFocus rows revisions s = revisions s + (rows.filter fun f => decide (s = .focus f.focusDate)).length := by
  unfold bumpFocus
  induction rows generalizing revisions with
  | nil => simp
  | cons f rows ih =>
    rw [List.foldl_cons, ih, bump_apply, List.filter_cons]
    by_cases hs : s = .focus f.focusDate
    · simp only [hs, if_true, decide_true, List.length_cons]
      omega
    · simp [hs]

theorem bumpFocus_other {rows : List FocusTask} {revisions : GuardScope → Nat} {s : GuardScope}
    (hs : ∀ date, s ≠ .focus date) : bumpFocus rows revisions s = revisions s := by
  rw [bumpFocus_apply]
  simp [hs]

theorem bumpFocus_focus (rows : List FocusTask) (revisions : GuardScope → Nat) (date : NaiveDate) :
    bumpFocus rows revisions (.focus date) = revisions (.focus date) + (rows.filter (·.focusDate == date)).length := by
  rw [bumpFocus_apply]
  congr 2
  refine List.filter_congr fun f _ => ?_
  rw [Bool.eq_iff_iff, decide_eq_true_iff, beq_iff_eq, GuardScope.focus.injEq]
  exact eq_comm

/-- Without a change that is counted, the calendars are preferred as before. -/
theorem preference_of_calendarChanges {db db' : Db} (h : calendarChanges db db' = 0) (id : Uuid) :
    (db'.calendar? id).map calendarPreferences = (db.calendar? id).map calendarPreferences := by
  obtain ⟨hnew, hold⟩ := Nat.add_eq_zero_iff.1 h
  rw [List.length_eq_zero_iff, List.filter_eq_nil_iff] at hnew hold
  cases hc : db'.calendar? id with
  | some c =>
    obtain ⟨hmem, rfl⟩ := calendar?_mem hc
    have hsame := hnew c hmem
    simp only [bne_iff_ne, ne_eq, not_not] at hsame
    exact hsame.symm
  | none =>
    cases hc' : db.calendar? id with
    | none => rfl
    | some c =>
      obtain ⟨hmem, rfl⟩ := calendar?_mem hc'
      exact absurd (Option.isNone_iff_eq_none.2 hc) (hold c hmem)

theorem heeded_settle (db : Db) : w.Heeded (w.settle db) where
  risen := by
    intro s
    show w.revisions s ≤ bumpFocus _ _ s
    rw [bumpFocus_apply, bump_apply]
    omega
  calendars := by
    intro heq
    have hcount : bumpFocus _ (bump .calendars (calendarChanges w.db db) w.revisions) .calendars =
      w.revisions .calendars := heq
    rw [bumpFocus_other (by simp), bump_apply, if_pos rfl] at hcount
    have hzero : calendarChanges w.db db = 0 := by omega
    exact preference_of_calendarChanges hzero
  focus := by
    intro date heq
    have hcount : bumpFocus (w.focus.filter fun f => !(db.task? f.taskId).isSome)
      (bump .calendars (calendarChanges w.db db) w.revisions) (.focus date) = w.revisions (.focus date) := heq
    rw [bumpFocus_focus, bump_apply, if_neg (by simp)] at hcount
    have hnone : ((w.focus.filter fun f => !(db.task? f.taskId).isSome).filter (·.focusDate == date)) = [] :=
      List.length_eq_zero_iff.1 (by omega)
    rw [List.filter_filter, List.filter_eq_nil_iff] at hnone
    show (Table.delete (fun f : FocusTask => !(db.task? f.taskId).isSome) w.focus).filter _ = _
    unfold Table.delete focusOn
    rw [List.filter_filter]
    refine List.filter_congr fun f hf => ?_
    have hkept := hnone f hf
    cases hd : f.focusDate == date with
    | false => simp
    | true => simpa [hd, Option.isSome_iff_ne_none] using hkept
  reviews := fun _ => rfl
  snapshots := fun _ hx => hx

/-- A write that leaves the counted rows and the snapshots alone. -/
theorem heeded_beside (hc : w'.db.calendars = w.db.calendars) (hf : w'.focus = w.focus) (hr : w'.reviews = w.reviews)
    (hrev : w'.revisions = w.revisions) (hs : ∀ x ∈ w'.snapshots, x ∈ w.snapshots) : w.Heeded w' := by
  refine ⟨⟨fun s => by rw [hrev], fun _ id => ?_, fun date _ => ?_, fun _ => hr⟩, hs⟩
  · unfold preference? Db.calendar?
    rw [hc]
  · unfold focusOn
    rw [hf]

/-! ## Rules -/

section Rules

variable {α β : Type}

theorem heeded_pure (a : α) : Tx.Within Heeded (pure a : WorkspaceTx α) := .pure .refl a

theorem heeded_bind {t : WorkspaceTx α} {f : α → WorkspaceTx β} (h : Tx.Within Heeded t) (hf : ∀ a, Tx.Within Heeded (f a)) :
    Tx.Within Heeded (t >>= f) :=
  .bind (R := Heeded) Heeded.trans h hf

theorem heeded_void {t : WorkspaceTx α} (h : Tx.Within Heeded t) : Tx.Within Heeded (Action.void t) :=
  heeded_bind h fun _ => heeded_pure ()

theorem heeded_read {f : Workspace → WorkspaceTx α} (h : ∀ w, Tx.Within Heeded (f w)) : Tx.Within Heeded (Tx.read >>= f) :=
  heeded_bind (.read .refl) h

theorem heeded_check {γ : Type} {x : Except AppError γ} {f : γ → WorkspaceTx α} (h : ∀ a, Tx.Within Heeded (f a)) :
    Tx.Within Heeded (Tx.ofExcept x >>= f) :=
  heeded_bind (.ofExcept .refl x) h

theorem heeded_onDb (t : StoreTx α) : Tx.Within Heeded (onDb t) := by
  intro w a w' h
  obtain ⟨db, -, rfl⟩ := onDb_ok h
  exact heeded_settle db

theorem heeded_write {g : Workspace → Workspace} (h : ∀ w, Heeded w (g w)) : Tx.Within Heeded (Tx.write g : WorkspaceTx Unit) :=
  .write h

end Rules

/-! ## The operations -/

section Operations

theorem heeded_updateProject (project : Uuid) (r : UpdateProjectRequest) : Tx.Within Heeded (updateProject project r) := by
  unfold updateProject
  refine heeded_check fun _ => .ite (fun _ => .raise _) fun _ => heeded_read fun w => ?_
  split
  · exact .raise _
  · refine .ite (fun _ => .raise _) fun _ => ?_
    exact heeded_bind (heeded_write fun w => heeded_beside rfl rfl rfl rfl fun _ hx => hx) fun _ => heeded_pure _

theorem heeded_insertProject (r : CreateProjectRequest) : Tx.Within Heeded (insertProject r) :=
  heeded_read fun _ =>
    heeded_bind (heeded_write fun _ => heeded_beside rfl rfl rfl rfl fun _ hx => hx) fun _ => heeded_pure _

theorem heeded_deleteProject (project : Uuid) (expectedVersion : Int) :
    Tx.Within Heeded (deleteProject project expectedVersion) := by
  unfold deleteProject
  refine .ite (fun _ => .raise _) fun _ => heeded_bind (heeded_onDb _) fun _ => heeded_read fun w => ?_
  split
  · exact .raise _
  · exact .ite (fun _ => .raise _) fun _ => heeded_onDb _

theorem heeded_importTodoistProject (toLowercase : String → String) (r : TodoistImportRequest) :
    Tx.Within Heeded (importTodoistProject toLowercase r) := by
  unfold importTodoistProject
  refine heeded_check fun _ => .ite (fun _ => .raise _) fun _ => heeded_check fun _ => ?_
  refine heeded_bind (heeded_insertProject _) fun _ => heeded_read fun _ => ?_
  exact heeded_bind (heeded_onDb _) fun _ => heeded_pure _

theorem heeded_createCalendar (toLowercase : String → String) (name color : String) :
    Tx.Within Heeded (createCalendar toLowercase name color) :=
  heeded_check fun _ => heeded_read fun _ => heeded_bind (heeded_onDb _) fun _ =>
    heeded_bind (heeded_write fun _ => heeded_beside rfl rfl rfl rfl fun _ hx => hx) fun _ => heeded_pure _

theorem heeded_updateCalendar (toLowercase : String → String) (calendar : Uuid) (r : UpdateCalendarRequest) :
    Tx.Within Heeded (updateCalendar toLowercase calendar r) := by
  unfold updateCalendar
  refine heeded_check fun _ => heeded_read fun w => ?_
  split
  · exact .raise _
  · refine .ite (fun _ => .raise _) fun _ => heeded_bind (heeded_onDb _) fun _ => ?_
    refine heeded_bind (heeded_write fun _ => heeded_beside rfl rfl rfl rfl fun _ hx => hx) fun _ => ?_
    exact .ite (fun _ => heeded_onDb _) fun _ => heeded_pure _

theorem heeded_deleteCalendar (calendar : Uuid) (expectedVersion : Int) :
    Tx.Within Heeded (deleteCalendar calendar expectedVersion) := by
  unfold deleteCalendar
  refine heeded_read fun w => ?_
  split
  · exact .raise _
  · exact .ite (fun _ => heeded_onDb _) fun _ => .ite (fun _ => .raise _) fun _ => .raise _

theorem heeded_upsertGoogleCalendar (entry : GoogleCalendar) : Tx.Within Heeded (upsertGoogleCalendar entry) := by
  unfold upsertGoogleCalendar
  refine heeded_read fun w => ?_
  dsimp only
  split <;>
    exact heeded_bind (heeded_onDb _) fun _ => heeded_write fun _ => heeded_beside rfl rfl rfl rfl fun _ hx => hx

theorem heeded_revokeGoogleIntegration : Tx.Within Heeded revokeGoogleIntegration :=
  heeded_bind (heeded_onDb _) fun _ => heeded_write fun _ => heeded_beside rfl rfl rfl rfl fun _ hx => hx

theorem heeded_createNote (r : CreateNoteRequest) : Tx.Within Heeded (createNote r) :=
  heeded_check fun _ => heeded_read fun _ => heeded_check fun _ =>
    heeded_bind (heeded_write fun _ => heeded_beside rfl rfl rfl rfl fun _ hx => hx) fun _ => heeded_pure _

theorem heeded_updateNote (note : Uuid) (r : UpdateNoteRequest) : Tx.Within Heeded (updateNote note r) := by
  unfold updateNote
  refine heeded_check fun _ => heeded_read fun w => heeded_check fun _ => ?_
  split
  · exact .raise _
  · refine .ite (fun _ => .raise _) fun _ => ?_
    exact heeded_bind (heeded_write fun _ => heeded_beside rfl rfl rfl rfl fun _ hx => hx) fun _ => heeded_pure _

theorem heeded_deleteNote (note : Uuid) (expectedVersion : Int) : Tx.Within Heeded (deleteNote note expectedVersion) := by
  unfold deleteNote
  refine heeded_read fun w => ?_
  split
  · exact .raise _
  · exact .ite (fun _ => .raise _) fun _ => heeded_write fun _ => heeded_beside rfl rfl rfl rfl fun _ hx => hx

theorem heeded_createFileMetadata (others : Int) (r : FileRequest) : Tx.Within Heeded (createFileMetadata others r) := by
  unfold createFileMetadata
  refine heeded_check fun _ => heeded_read fun w => heeded_check fun _ => ?_
  refine .ite (fun _ => .raise _) fun _ => .ite (fun _ => .raise _) fun _ => .ite (fun _ => .raise _) fun _ => ?_
  exact heeded_bind (heeded_write fun _ => heeded_beside rfl rfl rfl rfl fun _ hx => hx) fun _ => heeded_pure _

theorem heeded_deleteFileMetadata (file : Uuid) : Tx.Within Heeded (deleteFileMetadata file) := by
  unfold deleteFileMetadata
  refine heeded_read fun w => ?_
  split
  · exact .raise _
  · exact heeded_bind (heeded_write fun _ => heeded_beside rfl rfl rfl rfl fun _ hx => hx) fun _ => heeded_pure _

/-- A revision that is only bumped. -/
theorem heeded_bump (scope : GuardScope) (n : Nat) : w.Heeded { w with revisions := bump scope n w.revisions } :=
  ⟨⟨fun s => by dsimp only; rw [bump_apply]; omega, fun _ _ => rfl, fun _ _ => rfl, fun _ => rfl⟩, fun _ hx => hx⟩

/-- The rows of a date that are replaced count, those before and those after. -/
theorem heeded_replaceFocus (date : NaiveDate) (tasks : List Uuid) : w.Heeded (replaceFocus date tasks w) where
  risen := by
    intro s
    show w.revisions s ≤ bumpFocus _ _ s
    rw [bumpFocus_apply]
    omega
  calendars := fun _ _ => rfl
  focus := by
    intro day heq
    have hrows : ∀ f ∈ focusRows date w.db.now tasks, f.focusDate = date := by
      intro f hf
      obtain ⟨i, hi, rfl⟩ := List.mem_mapIdx.1 hf
      rfl
    have hcount : bumpFocus (w.focus.filter (·.focusDate == date) ++ focusRows date w.db.now tasks) w.revisions
      (.focus day) = w.revisions (.focus day) := heq
    rw [bumpFocus_focus] at hcount
    have hnone := List.length_eq_zero_iff.1 (Nat.add_eq_left.1 hcount)
    rw [List.filter_append, List.append_eq_nil_iff] at hnone
    show ((Table.delete (·.focusDate == date) w.focus) ++ focusRows date w.db.now tasks).filter (·.focusDate == day) =
      w.focus.filter (·.focusDate == day)
    rw [List.filter_append, hnone.2, List.append_nil]
    unfold Table.delete
    rw [List.filter_filter]
    refine List.filter_congr fun f hf => ?_
    have hold := List.filter_eq_nil_iff.1 hnone.1
    cases hday : f.focusDate == day with
    | false => simp
    | true =>
      cases hdate : f.focusDate == date with
      | false => simp [hdate]
      | true => exact absurd hday (hold f (List.mem_filter.2 ⟨hf, hdate⟩))
  reviews := fun _ => rfl
  snapshots := fun _ hx => hx

theorem heeded_updateDailyFocus (date : NaiveDate) (taskIds : List Uuid) :
    Tx.Within Heeded (updateDailyFocus date taskIds) := by
  unfold updateDailyFocus
  refine .ite (fun _ => .raise _) fun _ => .ite (fun _ => .raise _) fun _ => heeded_read fun w => ?_
  exact .ite (fun _ => .raise _) fun _ => heeded_write fun w =>
    (heeded_bump (.focus date) 1).trans (heeded_replaceFocus date taskIds)

/-- A write of a review counts for the selection, whatever it writes. -/
theorem heeded_writeReview (date : NaiveDate) (f : List DailyReview → List DailyReview) : w.Heeded (writeReview date f w) where
  risen := by
    intro s
    show w.revisions s ≤ bump _ _ _ s
    rw [bump_apply, bump_apply]
    omega
  calendars := fun _ _ => rfl
  focus := fun _ _ => rfl
  reviews := by
    intro heq
    have hcount : bump (.focus date) 1 (bump .reviewSelection 1 w.revisions) .reviewSelection =
      w.revisions .reviewSelection := heq
    rw [bump_apply, bump_apply, if_pos rfl] at hcount
    omega
  snapshots := fun _ hx => hx

theorem heeded_startDailyReview (date : NaiveDate) (manual : Bool) : Tx.Within Heeded (startDailyReview date manual) := by
  unfold startDailyReview
  refine heeded_read fun w => .ite (fun _ => heeded_pure _) fun _ => ?_
  split
  · exact heeded_pure _
  · split
    · exact heeded_pure _
    · refine heeded_bind (heeded_write fun w => ?_) fun _ => heeded_pure _
      exact Heeded.trans (b := w.fresh) (heeded_beside rfl rfl rfl rfl fun _ hx => hx) (heeded_writeReview _ _)

theorem heeded_decideReview : ∀ (decisions : List ReviewDecision) (carried : List Uuid),
    Tx.Within Heeded (decideReview decisions carried)
  | [], _ => heeded_pure _
  | d :: rest, carried => by
    unfold decideReview
    split
    · exact heeded_decideReview rest _
    · exact heeded_decideReview rest _
    · split
      · exact .raise _
      · exact heeded_bind (heeded_write fun _ => heeded_beside rfl rfl rfl rfl fun _ hx => hx)
          fun _ => heeded_decideReview rest _

theorem heeded_completeDailyReview (date : NaiveDate) (expectedVersion : Int) (decisions : List ReviewDecision) :
    Tx.Within Heeded (completeDailyReview date expectedVersion decisions) := by
  unfold completeDailyReview
  refine heeded_bind (heeded_write fun w => heeded_bump .reviewSelection 1) fun _ => heeded_read fun w => ?_
  split
  · exact .raise _
  · refine .ite (fun _ => .raise _) fun _ => .ite (fun _ => .raise _) fun _ => ?_
    split
    · exact .raise _
    · refine heeded_bind (heeded_write fun w => (heeded_bump _ 1).trans (heeded_bump _ 1)) fun _ => ?_
      refine .ite (fun _ => .raise _) fun _ => heeded_bind (heeded_decideReview _ _) fun _ => ?_
      refine .ite (fun _ => .raise _) fun _ => ?_
      refine heeded_bind (heeded_write fun w => heeded_replaceFocus _ _) fun _ => ?_
      exact heeded_bind (heeded_write fun w => heeded_writeReview _ _) fun _ => heeded_pure _

theorem heeded_cleanupMoves (w : Workspace) : w.Heeded (Store.cleanupMoves w) :=
  heeded_beside rfl rfl rfl rfl fun _ hx => hx

theorem heeded_moveCalendarItem (locked : Bool) (item : Uuid) (isTask : Bool) (r : MoveCalendarItemRequest) :
    Tx.Within Heeded (moveCalendarItem locked item isTask r) := by
  intro w receipt w' h
  obtain ⟨e, task, w₁, -, -, -, -, rfl, rfl⟩ := moveCalendarItem_ok h
  have hclean := (heeded_cleanupMoves w).trans (heeded_settle w.db)
  have hmoved := hclean.trans (heeded_settle (moveEvent e r.startsAt r.endsAt (movedTask task r.startsAt r.endsAt) w.db.fresh))
  exact hmoved.trans (heeded_beside rfl rfl rfl rfl fun _ hx => hx)

theorem heeded_undoCalendarMove (locked : Bool) (receipt : Uuid) : Tx.Within Heeded (undoCalendarMove locked receipt) := by
  intro w a w' h
  obtain ⟨inverse, e, task, w₁, -, -, -, -, -, -, -, -, rfl, rfl⟩ := undoCalendarMove_ok h
  have hmoved : w.Heeded _ := (heeded_settle w.db).trans (heeded_settle (moveEvent e inverse.startsAt inverse.endsAt
    (inverse.taskId.map fun id => (id, inverse.taskStartsAt, inverse.taskEndsAt)) w.db))
  refine hmoved.trans (Heeded.trans ?_ (heeded_cleanupMoves _))
  exact heeded_beside rfl rfl rfl rfl fun _ hx => hx

/-- An undo inserts focus rows, which count. -/
theorem heeded_undoTaskDelete (locked : Bool) (validation : Except AppError Unit) (receipt : Uuid) :
    Tx.Within Heeded (undoTaskDelete locked validation receipt) := by
  intro w a w' h
  obtain ⟨u, s, -, -, -, -, rfl⟩ := undoTaskDelete_ok h
  have hcalendars : (restoreDb s w.db).calendars = w.db.calendars := by
    obtain ⟨tasks, hrelinked⟩ := relinkSuccessors_eq s (restoreEvent s (w.db.insertTask (restoredTask w.db.now s.task)))
    unfold restoreDb
    rw [hrelinked]
    unfold restoreMapping restoreEvent
    split <;> split <;> rfl
  refine ⟨⟨fun scope => ?_, fun _ id => ?_, fun date heq => ?_, fun _ => rfl⟩, fun x hx => (mem_delete.1 hx).1⟩
  · show w.revisions scope ≤ bumpFocus s.focus w.revisions scope
    rw [bumpFocus_apply]
    omega
  · show ((restoreDb s w.db).calendars.find? _).map _ = (w.db.calendars.find? _).map _
    rw [hcalendars]
  · have hcount : bumpFocus s.focus w.revisions (.focus date) = w.revisions (.focus date) := heq
    rw [bumpFocus_focus] at hcount
    have hnone := List.length_eq_zero_iff.1 (Nat.add_eq_left.1 hcount)
    show (w.focus ++ s.focus).filter (·.focusDate == date) = w.focus.filter (·.focusDate == date)
    rw [List.filter_append, hnone, List.append_nil]

end Operations

/-! ## Runs -/

/-- What a step does to what the receipts of deletions rest on: a new snapshot is under a fresh id. -/
structure Traced (w w' : Workspace) : Prop extends w.Counted w' where
  snapshots : ∀ x ∈ w'.snapshots, x ∈ w.snapshots ∨ w.db.nextId ≤ x.1

theorem Heeded.traced (h : w.Heeded w') : w.Traced w' := ⟨h.toCounted, fun x hx => .inl (h.snapshots x hx)⟩

theorem Traced.refl (w : Workspace) : w.Traced w := (Heeded.refl w).traced

theorem Traced.trans {a b c : Workspace} (hn : a.db.nextId ≤ b.db.nextId) (h : a.Traced b) (h' : b.Traced c) : a.Traced c := by
  refine ⟨h.toCounted.trans h'.toCounted, fun x hx => ?_⟩
  rcases h'.snapshots x hx with hx | hle
  · exact h.snapshots x hx
  · exact .inr (hn.trans hle)

theorem traced_deleteTaskWithSnapshot (octets : Snapshot → Nat) (locked validated : Bool) (task : Uuid) (expectedVersion : Int) :
    Tx.Within Traced (deleteTaskWithSnapshot octets locked validated task expectedVersion) := by
  intro w receipt w' h
  obtain ⟨row, s, held, mapping, w₁, w₂, -, -, -, rfl, -, -, hreceipt, rfl, -, rfl⟩ := deleteTaskWithSnapshot_ok h
  have hsettled := (heeded_settle (w := w) w.db).trans ((heeded_settle w.db).trans
    (heeded_settle ((heldBack row held w.db).deleteTask row.id)))
  refine ⟨⟨hsettled.risen, hsettled.calendars, hsettled.focus, hsettled.reviews⟩, fun x hx => ?_⟩
  rcases List.mem_append.1 hx with hx | hx
  · exact .inl hx
  · rw [List.mem_singleton.1 hx, hreceipt]
    exact .inr le_rfl

theorem heeded_tx (env : Env) {a : Action} (ha : ∀ locked validated task version,
    a ≠ .deleteTaskWithUndo locked validated task version) : Tx.Within Heeded (a.tx env) := by
  cases a with
  | tick now => exact heeded_write fun w => heeded_beside rfl rfl rfl rfl fun _ hx => hx
  | createProject r => exact heeded_void (heeded_check fun _ => heeded_insertProject r)
  | updateProject project r => exact heeded_void (heeded_updateProject project r)
  | deleteProject project version => exact heeded_deleteProject project version
  | importTodoistProject r => exact heeded_void (heeded_importTodoistProject _ r)
  | importGoogleTask title deadline completed => exact heeded_void (heeded_onDb _)
  | createTask r => exact heeded_void (heeded_onDb _)
  | updateTask task r scope => exact heeded_void (heeded_onDb _)
  | reorderTasks taskIds => exact heeded_onDb _
  | deleteTask task version => exact heeded_onDb _
  | deleteTaskWithUndo locked validated task version => exact absurd rfl (ha locked validated task version)
  | undoTaskDelete locked validation receipt => exact heeded_undoTaskDelete locked validation receipt
  | cleanupTaskDeleteUndos => exact heeded_onDb (Tx.write Store.cleanupTaskDeleteUndos)
  | createEvent r => exact heeded_void (heeded_onDb _)
  | updateEvent event r => exact heeded_void (heeded_onDb _)
  | deleteEvent event version => exact heeded_onDb _
  | moveCalendarItem locked item isTask r => exact heeded_void (heeded_moveCalendarItem locked item isTask r)
  | undoCalendarMove locked receipt => exact heeded_undoCalendarMove locked receipt
  | cleanupMoves => exact heeded_write heeded_cleanupMoves
  | createCalendar name color => exact heeded_void (heeded_createCalendar _ name color)
  | updateCalendar calendar r => exact heeded_updateCalendar _ calendar r
  | deleteCalendar calendar version => exact heeded_deleteCalendar calendar version
  | connectGoogle account => exact heeded_write fun _ => heeded_beside rfl rfl rfl rfl fun _ hx => hx
  | revokeGoogleIntegration => exact heeded_revokeGoogleIntegration
  | discoverCalendar entry => exact heeded_upsertGoogleCalendar entry
  | migrateScheduledTasks => exact heeded_onDb _
  | createNote r => exact heeded_void (heeded_createNote r)
  | updateNote note r => exact heeded_void (heeded_updateNote note r)
  | deleteNote note version => exact heeded_deleteNote note version
  | createFile others r => exact heeded_void (heeded_createFileMetadata others r)
  | deleteFile file => exact heeded_void (heeded_deleteFileMetadata file)
  | updateDailyFocus date taskIds => exact heeded_updateDailyFocus date taskIds
  | startDailyReview date manual => exact heeded_void (heeded_startDailyReview date manual)
  | completeDailyReview date version decisions => exact heeded_void (heeded_completeDailyReview date version decisions)
  | resolveSyncConflict locked conflict resolution => exact heeded_void (heeded_onDb _)
  | setSyncConflictPolicy policy => exact heeded_onDb _
  | requestSync calendar key => exact heeded_onDb (Store.enqueueSync calendar key)
  | sync s => exact heeded_onDb (Tx.write fun db => (s.exec db).2)

theorem traced_perform (env : Env) (a : Action) (w : Workspace) : w.Traced (a.perform env w) := by
  refine Tx.Within.commit Traced.refl (fun w b w' h => ?_) w
  by_cases ha : ∃ locked validated task version, a = .deleteTaskWithUndo locked validated task version
  · obtain ⟨locked, validated, task, version, rfl⟩ := ha
    obtain ⟨receipt, u, hdelete, h⟩ := Tx.bind_ok h
    cases h
    exact traced_deleteTaskWithSnapshot env.octets locked validated task version w receipt _ hdelete
  · exact (heeded_tx env (fun l v t n hax => ha ⟨l, v, t, n, hax⟩) w b w' h).traced

/-- Over a run of a workspace whose receipts are in order. -/
theorem traced_run {env : Env} {P : Action → Workspace → Prop} (hw : w.MovesValid) (h : Run env P w w') : w.Traced w' := by
  induction h with
  | start => exact .refl w
  | @step w₁ a hrun _ ih => exact ih.trans (onward_run hrun hw).2.nextId (traced_perform env a w₁)

end Workspace

end Prosepect
