/-
What the schema declares of a workspace beside the first tables (`Declared`), and what a deletion
with a receipt leaves of it: the rows of the task are gone, those that stay are `detached`.
-/
import Prosepect.Store.MoveRuns

namespace Prosepect

open Resumption Table Time Store

namespace Workspace

/-- Primary keys, UNIQUE columns, references, and the one parent of a file. -/
structure Declared (w : Workspace) : Prop where
  db : w.db.Valid
  undosUsed : ∀ u ∈ w.db.undos, u.id < w.db.nextId
  taskIds : Unique (fun t : TaskRow => some t.id) w.db.tasks
  taskSources : Unique (fun t : TaskRow => t.recurrenceSourceId) w.db.tasks
  taskSource : ∀ t ∈ w.db.tasks, ∀ s, t.recurrenceSourceId = some s → (w.db.task? s).isSome
  eventTask : ∀ e ∈ w.db.events, ∀ t, e.linkedTaskId = some t → (w.db.task? t).isSome
  projects : ∀ p ∈ w.projects, p.id ∈ w.db.projects
  labels : ∀ l ∈ w.labels, (w.db.calendar? l.id).isSome
  noteIds : Unique (fun n : Note => some n.id) w.notes
  noteProject : ∀ n ∈ w.notes, ∀ p, n.projectId = some p → p ∈ w.db.projects
  noteTask : ∀ n ∈ w.notes, ∀ t, n.taskId = some t → (w.db.task? t).isSome
  noteEvent : ∀ n ∈ w.notes, ∀ e, n.eventId = some e → (w.db.event? e).isSome
  fileIds : Unique (fun f : FileRecord => some f.id) w.files
  fileProject : ∀ f ∈ w.files, ∀ p, f.projectId = some p → p ∈ w.db.projects
  fileTask : ∀ f ∈ w.files, ∀ t, f.taskId = some t → (w.db.task? t).isSome
  fileNote : ∀ f ∈ w.files, ∀ n, f.noteId = some n → ∃ x ∈ w.notes, x.id = n
  fileEvent : ∀ f ∈ w.files, ∀ e, f.eventId = some e → (w.db.event? e).isSome
  fileParent : ∀ f ∈ w.files, ([f.projectId, f.taskId, f.noteId, f.eventId].filterMap id).length ≤ 1
  focusTasks : Unique (fun f : FocusTask => some (f.focusDate, f.taskId)) w.focus
  focusPositions : Unique (fun f : FocusTask => some (f.focusDate, f.position)) w.focus
  focusTask : ∀ f ∈ w.focus, (w.db.task? f.taskId).isSome
  moveEvent : ∀ m ∈ w.moves, (w.db.event? m.eventId).isSome
  moveTask : ∀ m ∈ w.moves, ∀ t, m.taskId = some t → (w.db.task? t).isSome
  snapshotsUsed : ∀ x ∈ w.snapshots, x.1 < w.db.nextId

instance (w : Workspace) : Decidable w.Declared :=
  decidable_of_iff
    (w.db.Valid ∧ (∀ u ∈ w.db.undos, u.id < w.db.nextId) ∧ Unique (fun t : TaskRow => some t.id) w.db.tasks ∧
      Unique (fun t : TaskRow => t.recurrenceSourceId) w.db.tasks ∧
      (∀ t ∈ w.db.tasks, ∀ s ∈ t.recurrenceSourceId, (w.db.task? s).isSome) ∧
      (∀ e ∈ w.db.events, ∀ t ∈ e.linkedTaskId, (w.db.task? t).isSome) ∧ (∀ p ∈ w.projects, p.id ∈ w.db.projects) ∧
      (∀ l ∈ w.labels, (w.db.calendar? l.id).isSome) ∧ Unique (fun n : Note => some n.id) w.notes ∧
      (∀ n ∈ w.notes, ∀ p ∈ n.projectId, p ∈ w.db.projects) ∧ (∀ n ∈ w.notes, ∀ t ∈ n.taskId, (w.db.task? t).isSome) ∧
      (∀ n ∈ w.notes, ∀ e ∈ n.eventId, (w.db.event? e).isSome) ∧ Unique (fun f : FileRecord => some f.id) w.files ∧
      (∀ f ∈ w.files, ∀ p ∈ f.projectId, p ∈ w.db.projects) ∧ (∀ f ∈ w.files, ∀ t ∈ f.taskId, (w.db.task? t).isSome) ∧
      (∀ f ∈ w.files, ∀ n ∈ f.noteId, ∃ x ∈ w.notes, x.id = n) ∧
      (∀ f ∈ w.files, ∀ e ∈ f.eventId, (w.db.event? e).isSome) ∧
      (∀ f ∈ w.files, ([f.projectId, f.taskId, f.noteId, f.eventId].filterMap id).length ≤ 1) ∧
      Unique (fun f : FocusTask => some (f.focusDate, f.taskId)) w.focus ∧
      Unique (fun f : FocusTask => some (f.focusDate, f.position)) w.focus ∧
      (∀ f ∈ w.focus, (w.db.task? f.taskId).isSome) ∧ (∀ m ∈ w.moves, (w.db.event? m.eventId).isSome) ∧
      (∀ m ∈ w.moves, ∀ t ∈ m.taskId, (w.db.task? t).isSome) ∧ ∀ x ∈ w.snapshots, x.1 < w.db.nextId)
    ⟨fun ⟨a, b, c, d, e, f, g, h, i, j, k, l, m, n, o, p, q, r, s, t, u, v, x, y⟩ =>
        ⟨a, b, c, d, e, f, g, h, i, j, k, l, m, n, o, p, q, r, s, t, u, v, x, y⟩,
      fun ⟨a, b, c, d, e, f, g, h, i, j, k, l, m, n, o, p, q, r, s, t, u, v, x, y⟩ =>
        ⟨a, b, c, d, e, f, g, h, i, j, k, l, m, n, o, p, q, r, s, t, u, v, x, y⟩⟩

variable {w w' : Workspace}

theorem Declared.task?_eq_some (h : w.Declared) {id : Uuid} {t : TaskRow} :
    w.db.task? id = some t ↔ t ∈ w.db.tasks ∧ t.id = id := by
  have hf := h.taskIds.find_eq_some_iff (k := id) (r := t)
  rwa [Option.some.injEq] at hf

/-! ## References -/

theorem filter_eq_self {p : Uuid → Bool} {r : Option Uuid} (h : ∀ id, r = some id → p id = true) : r.filter p = r := by
  cases r with
  | none => rfl
  | some id => simp [h id rfl]

theorem kept_of {p : Uuid → Bool} {r : Option Uuid} (h : ∀ id, r = some id → p id = true) : kept p r = true := by
  cases r with
  | none => rfl
  | some id => simpa [kept] using h id rfl

theorem calendarChanges_self {db : Db} (h : db.Valid) : calendarChanges db db = 0 := by
  have hmem : ∀ c ∈ db.calendars, db.calendar? c.id = some c := fun c hc => h.calendar?_eq_some.2 ⟨hc, rfl⟩
  have h1 : (db.calendars.filter fun c => (db.calendar? c.id).map calendarPreferences != some (calendarPreferences c)) = [] := by
    refine List.filter_eq_nil_iff.2 fun c hc => ?_
    simp [hmem c hc]
  have h2 : (db.calendars.filter fun c => (db.calendar? c.id).isNone) = [] := by
    refine List.filter_eq_nil_iff.2 fun c hc => ?_
    simp [hmem c hc]
  simp [calendarChanges, h1, h2]

theorem bump_zero (scope : GuardScope) (revisions : GuardScope → Nat) : bump scope 0 revisions = revisions := by
  funext s
  simp [bump]

/-- Nothing refers to a row that is not there. -/
theorem Declared.settle_self (h : w.Declared) : w.settle w.db = w := by
  have hnotes : Table.delete (fun n : Note => !(kept (fun id => decide (id ∈ w.db.projects)) n.projectId &&
      kept (fun id => (w.db.task? id).isSome) n.taskId && kept (fun id => (w.db.event? id).isSome) n.eventId)) w.notes =
      w.notes := by
    refine delete_of_not fun n hn => ?_
    simp [kept_of fun id hid => decide_eq_true (h.noteProject n hn id hid), kept_of (h.noteTask n hn),
      kept_of (h.noteEvent n hn)]
  have hfiles : (w.files.map fun f => { f with
      projectId := f.projectId.filter fun id => decide (id ∈ w.db.projects)
      taskId := f.taskId.filter fun id => (w.db.task? id).isSome
      noteId := f.noteId.filter fun id => Table.has (fun n => n.id == id) w.notes
      eventId := f.eventId.filter fun id => (w.db.event? id).isSome }) = w.files := by
    conv_rhs => rw [← List.map_id w.files]
    refine List.map_congr_left fun f hf => ?_
    rw [filter_eq_self fun id hid => decide_eq_true (h.fileProject f hf id hid), filter_eq_self (h.fileTask f hf),
      filter_eq_self (h.fileEvent f hf), filter_eq_self fun id hid => ?_]
    · rfl
    · obtain ⟨n, hn, hid'⟩ := h.fileNote f hf id hid
      exact has_iff.2 ⟨n, hn, by simpa using hid'⟩
  have hfocus : (w.focus.filter fun f => !(w.db.task? f.taskId).isSome) = [] := by
    refine List.filter_eq_nil_iff.2 fun f hf => ?_
    simp [h.focusTask f hf]
  have hprojects : (w.projects.filter fun p => decide (p.id ∈ w.db.projects)) = w.projects :=
    List.filter_eq_self.2 fun p hp => decide_eq_true (h.projects p hp)
  have hlabels : (w.labels.filter fun l => (w.db.calendar? l.id).isSome) = w.labels := List.filter_eq_self.2 h.labels
  have hdelete : Table.delete (fun f : FocusTask => !(w.db.task? f.taskId).isSome) w.focus = w.focus :=
    delete_of_not fun f hf => by simp [h.focusTask f hf]
  have hmoves : Table.delete (fun m : CalendarMoveUndo => !((w.db.event? m.eventId).isSome &&
      kept (fun id => (w.db.task? id).isSome) m.taskId)) w.moves = w.moves :=
    delete_of_not fun m hm => by simp [h.moveEvent m hm, kept_of (h.moveTask m hm)]
  unfold settle
  dsimp only
  rw [hnotes, hfiles, hfocus, hprojects, hlabels, hdelete, hmoves, calendarChanges_self h.db, bump_zero]
  rfl

/-! ## What goes with a task -/

/-- The note goes with the task or its event. -/
def goesWith (task : Uuid) (event : Option CalendarEvent) (n : Note) : Bool :=
  n.taskId == some task || event.any fun e => n.eventId == some e.id

/-- The file loses its parent when the task, its event and its notes go. -/
def losesParent (task : Uuid) (event : Option CalendarEvent) (notes : List Note) (f : FileRecord) : Bool :=
  f.taskId == some task || (event.any fun e => f.eventId == some e.id) ||
    notes.any fun n => goesWith task event n && f.noteId == some n.id

def detachedFile (f : FileRecord) : FileRecord := { f with taskId := none, eventId := none, noteId := none }

def detachedTask (t : TaskRow) : TaskRow := { t with recurrenceSourceId := none }

/-- The workspace after its task `task` has gone with all that goes with it. -/
structure Gone (task : Uuid) (w w' : Workspace) : Prop where
  now : w'.db.now = w.db.now
  tasks : w'.db.tasks = update (·.recurrenceSourceId == some task) detachedTask (delete (·.id == task) w.db.tasks)
  events : w'.db.events = delete (·.linkedTaskId == some task) w.db.events
  calendars : w'.db.calendars = w.db.calendars
  projects : w'.projects = w.projects
  labels : w'.labels = w.labels
  notes : w'.notes = delete (goesWith task (w.db.taskEvent? task)) w.notes
  files : w'.files = update (losesParent task (w.db.taskEvent? task) w.notes) detachedFile w.files
  focus : w'.focus = delete (·.taskId == task) w.focus
  reviews : w'.reviews = w.reviews
  account : w'.account = w.account

section Gone

variable {db : Db} {task : Uuid}

theorem task?_dropped (htasks : db.tasks = update (·.recurrenceSourceId == some task) detachedTask
    (delete (·.id == task) w.db.tasks)) {id : Uuid} (hid : id ≠ task) :
    db.task? id = (w.db.task? id).map fun t => if t.recurrenceSourceId == some task then detachedTask t else t := by
  unfold Db.task?
  rw [htasks, find_update (by intro; rfl), find_delete]
  intro t _ ht
  have hti : t.id = id := by simpa using ht
  simpa [hti] using hid

theorem task?_gone (htasks : db.tasks = update (·.recurrenceSourceId == some task) detachedTask
    (delete (·.id == task) w.db.tasks)) : db.task? task = none := by
  unfold Db.task?
  rw [htasks, find_update (by intro; rfl), find_delete_none, Option.map_none]
  simp

theorem task?_isSome_dropped (htasks : db.tasks = update (·.recurrenceSourceId == some task) detachedTask
    (delete (·.id == task) w.db.tasks)) {id : Uuid} (h : (w.db.task? id).isSome) :
    (db.task? id).isSome = !(id == task) := by
  by_cases hid : id = task
  · rw [hid, task?_gone htasks]
    simp
  · rw [task?_dropped htasks hid, Option.isSome_map, h]
    simp [hid]

theorem Declared.event?_isSome_dropped (h : w.Declared) (hevents : db.events = delete (·.linkedTaskId == some task) w.db.events)
    {id : Uuid} (hid : (w.db.event? id).isSome) :
    (db.event? id).isSome = !((w.db.taskEvent? task).any fun e => some id == some e.id) := by
  obtain ⟨x, hx⟩ := Option.isSome_iff_exists.1 hid
  obtain ⟨hmem, rfl⟩ := Store.event?_mem hx
  by_cases hlink : x.linkedTaskId = some task
  · have hnone : db.event? x.id = none := by
      unfold Db.event?
      rw [hevents, find_delete_none]
      intro e he heid
      rw [h.db.eventIds.eq he hmem (congrArg some (by simpa using heid)) rfl, hlink, beq_self_eq_true]
    rw [hnone, h.db.taskEvent?_eq_some.2 ⟨hmem, hlink⟩]
    simp
  · have hsome : db.event? x.id = some x := by
      unfold Db.event?
      rw [hevents, find_delete]
      · exact hx
      · intro e he heid
        rw [h.db.eventIds.eq he hmem (congrArg some (by simpa using heid)) rfl]
        simpa using hlink
    rw [hsome]
    cases he : w.db.taskEvent? task with
    | none => rfl
    | some e =>
      obtain ⟨hemem, helink⟩ := h.db.taskEvent?_eq_some.1 he
      have hne : x.id ≠ e.id := by
        intro hxe
        rw [h.db.eventIds.eq hmem hemem rfl (by rw [hxe])] at hlink
        exact hlink helink
      simp [hne]

/-- A reference after some of the rows it may point to have gone. -/
theorem kept_eq {p q : Uuid → Bool} {r : Option Uuid} (h : ∀ id, r = some id → p id = !q id) :
    kept p r = !r.any q := by
  cases r with
  | none => rfl
  | some id => simp [kept, h id rfl]

theorem filter_eq {p q : Uuid → Bool} {r : Option Uuid} (h : ∀ id, r = some id → p id = !q id) :
    r.filter p = if r.any q then none else r := by
  cases r with
  | none => simp
  | some id => cases hq : q id <;> simp [h id rfl, hq]

theorem any_eq (r : Option Uuid) (id : Uuid) : r.any (· == id) = (r == some id) := by
  cases r <;> simp

theorem any_event (r : Option Uuid) (event : Option CalendarEvent) :
    (r.any fun id => event.any fun e => some id == some e.id) = event.any fun e => r == some e.id := by
  cases r <;> cases event <;> simp

theorem any_note (r : Option Uuid) (notes : List Note) (p : Note → Bool) :
    (r.any fun id => notes.any fun n => p n && n.id == id) = notes.any fun n => p n && r == some n.id := by
  cases r with
  | none => simp
  | some id => simp [BEq.comm]

/-- A file has one parent, so when it loses one it has none. -/
theorem detached_eq {f : FileRecord} (h : ([f.projectId, f.taskId, f.noteId, f.eventId].filterMap id).length ≤ 1)
    {a b c : Bool} (ha : a = true → f.taskId.isSome) (hb : b = true → f.eventId.isSome) (hc : c = true → f.noteId.isSome) :
    { f with taskId := if a then none else f.taskId, noteId := if c then none else f.noteId,
             eventId := if b then none else f.eventId } = if a || b || c then detachedFile f else f := by
  obtain ⟨_, project, taskId, note, event, _, _, _, _, _⟩ := f
  cases project <;> cases taskId <;> cases note <;> cases event <;> simp_all [detachedFile, List.filterMap]
  all_goals split <;> rfl

variable (h : w.Declared) (hnow : db.now = w.db.now) (hcalendars : db.calendars = w.db.calendars)
  (hprojects : db.projects = w.db.projects)
  (htasks : db.tasks = update (·.recurrenceSourceId == some task) detachedTask (delete (·.id == task) w.db.tasks))
  (hevents : db.events = delete (·.linkedTaskId == some task) w.db.events)

include h htasks hevents hprojects in
theorem Declared.settle_notes : (w.settle db).notes = delete (goesWith task (w.db.taskEvent? task)) w.notes := by
  unfold settle
  refine List.filter_congr fun n hn => ?_
  dsimp only
  rw [kept_of fun id hid => decide_eq_true (hprojects ▸ h.noteProject n hn id hid),
    kept_eq (q := (· == task)) fun id hid => task?_isSome_dropped htasks (h.noteTask n hn id hid),
    kept_eq fun id hid => h.event?_isSome_dropped hevents (h.noteEvent n hn id hid), any_eq, any_event]
  simp [goesWith]

include h htasks hevents hprojects in
theorem Declared.settle_files : (w.settle db).files =
    update (losesParent task (w.db.taskEvent? task) w.notes) detachedFile w.files := by
  have hnotes := h.settle_notes hprojects htasks hevents
  unfold settle at hnotes ⊢
  dsimp only at hnotes ⊢
  rw [hnotes]
  unfold update
  refine List.map_congr_left fun f hf => ?_
  have hnote : ∀ id, f.noteId = some id → has (fun n => n.id == id) (delete (goesWith task (w.db.taskEvent? task)) w.notes) =
      !w.notes.any fun n => goesWith task (w.db.taskEvent? task) n && n.id == id := by
    intro id hid
    obtain ⟨n, hn, hnid⟩ := h.fileNote f hf id hid
    have honly : ∀ x ∈ w.notes, x.id = id → x = n := fun x hx hxid => h.noteIds.eq hx hn rfl (by rw [hnid, hxid])
    rw [Bool.eq_iff_iff, has_iff, Bool.not_eq_true', List.any_eq_false]
    constructor
    · rintro ⟨x, hx, hxid⟩ y hy hyid
      obtain ⟨hx, hstays⟩ := mem_delete.1 hx
      simp only [Bool.and_eq_true, beq_iff_eq] at hyid hxid
      rw [honly y hy hyid.2, ← honly x hx hxid, hstays] at hyid
      exact absurd hyid.1 (by simp)
    · intro hall
      refine ⟨n, mem_delete.2 ⟨hn, ?_⟩, by simpa using hnid⟩
      have hstays := hall n hn
      simpa [hnid] using hstays
  rw [filter_eq_self fun id hid => decide_eq_true (hprojects ▸ h.fileProject f hf id hid),
    filter_eq (q := (· == task)) fun id hid => task?_isSome_dropped htasks (h.fileTask f hf id hid),
    filter_eq fun id hid => h.event?_isSome_dropped hevents (h.fileEvent f hf id hid), filter_eq hnote,
    any_eq, any_event, any_note]
  exact detached_eq (h.fileParent f hf) (by cases f.taskId <;> simp) (by cases f.eventId <;> simp)
    (by cases f.noteId <;> simp)

include h hnow hcalendars htasks hevents hprojects in
theorem Declared.gone_settle : w.Gone task (w.settle db) where
  now := hnow
  tasks := htasks
  events := hevents
  calendars := hcalendars
  projects := List.filter_eq_self.2 fun p hp => decide_eq_true (hprojects ▸ h.projects p hp)
  labels := by
    refine List.filter_eq_self.2 fun l hl => ?_
    unfold Db.calendar?
    rw [hcalendars]
    exact h.labels l hl
  notes := h.settle_notes hprojects htasks hevents
  files := h.settle_files hprojects htasks hevents
  focus := by
    refine List.filter_congr fun f hf => ?_
    dsimp only
    rw [task?_isSome_dropped htasks (h.focusTask f hf), Bool.not_not]
  reviews := rfl
  account := rfl

end Gone

end Workspace

namespace Store

open Db Workspace

variable {w w' : Workspace}

/-! ## A deletion with a receipt -/

/-- The mapping of a snapshot: that of the event, clean, under the fingerprint of the event. -/
structure Held (s : Snapshot) (m : Mapping) (w : Workspace) : Prop where
  event : ∃ e m₀, s.event = some e ∧ w.db.mappingOf? e.id = some m₀ ∧
    m = { m₀ with baseFingerprint := some (localFingerprint e.toLocalEvent) }
  clean : m.localDirty = false ∧ m.localDeleted = false ∧ m.reversibleTombstone = false ∧ m.deletionHoldUntil = none
  decided : ∀ k ∈ w.db.conflicts, k.mappingId = m.id → k.status ≠ .unresolved

def heldRow (expiry : DateTime) (m : Mapping) : Mapping :=
  { m with canonicalEventId := none, localDeleted := true, reversibleTombstone := true, deletionHoldUntil := some expiry }

/-- What a deletion with a receipt leaves, the receipt and the snapshot with it. -/
structure Deleted (validated : Bool) (task : Uuid) (receipt : TaskDeleteUndo) (s : Snapshot) (w w' : Workspace) : Prop where
  row : w.db.task? task = some s.task
  leaf : ∀ t ∈ w.db.tasks, t.parentTaskId ≠ some task
  gone : w.Gone task w'
  taken : Taken s.task w { s with revisions := readRevisions (guardScopes s.focus s.event) w }
  revisions : s.revisions = readRevisions (guardScopes s.focus s.event) w'
  held : ∀ m, s.mapping = some m → Held s m w ∧
    w'.db.mappings = update (·.id == m.id) (fun _ => heldRow receipt.expiresAt m) w.db.mappings
  unheld : s.mapping = none → (∀ e, s.event = some e → w.db.mappingOf? e.id = none) ∧ w'.db.mappings = w.db.mappings
  fingerprint : validated = false → ∀ m, s.mapping = some m → m ∈ w.db.mappings
  conflicts : ∀ k ∈ w'.db.conflicts, ∃ k₀ ∈ w.db.conflicts, k₀.mappingId = k.mappingId ∧ k₀.status = k.status
  issued : receipt = ⟨w.db.nextId, task, s.task.title, s.mapping.map (·.id), w.db.now + undoWindow⟩
  used : receipt.id < w'.db.nextId
  undos : w'.db.undos = w.db.undos ++ [receipt]
  snapshots : w'.snapshots = w.snapshots ++ [(receipt.id, s)]

theorem heldMapping_fingerprint {event : Option CalendarEvent} {m : Mapping} {fingerprint : Fingerprint} {db db' : Db}
    (h : heldMapping false event db = .ok (some (m, fingerprint), db')) : m.baseFingerprint = some fingerprint := by
  cases event with
  | none => cases h
  | some e =>
    unfold heldMapping at h
    simp only [Tx.read_bind_run] at h
    cases hc : db.calendar? e.calendarId with
    | none =>
      simp only [hc] at h
      cases h
    | some c =>
      cases hm : db.mappingOf? e.id with
      | none =>
        simp only [hc, hm] at h
        split at h <;> cases h
      | some m₀ =>
        simp only [hc, hm] at h
        split at h
        · cases h
        · split at h
          · cases h
          · split at h
            · rename_i hfp
              cases h
              simpa using hfp
            · cases h

theorem heldBack_tables (row : TaskRow) (held : Option (Mapping × Fingerprint)) (db : Db) :
    (heldBack row held db).now = db.now ∧ (heldBack row held db).tasks = db.tasks ∧
      (heldBack row held db).events = db.events ∧ (heldBack row held db).calendars = db.calendars ∧
      (heldBack row held db).projects = db.projects ∧ (heldBack row held db).conflicts = db.conflicts ∧
      (heldBack row held db).undos =
        db.undos ++ [⟨db.nextId, row.id, row.title, held.map (·.1.id), db.now + undoWindow⟩] := by
  cases held <;> exact ⟨rfl, rfl, rfl, rfl, rfl, rfl, rfl⟩

/-- The event of the task goes; its mapping has been taken from it before. -/
theorem deleteTask_mappings {db : Db} {task : Uuid}
    (h : ∀ m ∈ db.mappings, ∀ e ∈ db.events, e.linkedTaskId = some task → m.canonicalEventId ≠ some e.id) :
    (db.deleteTask task).mappings = db.mappings := by
  refine update_of_not fun m hm => ?_
  rw [refersTo, has_eq_false_iff]
  intro e he
  by_cases hlink : e.linkedTaskId = some task
  · have hne := h m hm e he hlink
    simpa using fun _ heq => hne (by rw [heq])
  · simp [hlink]

theorem deleteTaskWithSnapshot_deleted {octets : Snapshot → Nat} {locked validated : Bool} {task : Uuid}
    {expectedVersion : Int} {receipt : TaskDeleteUndo} (hd : w.Declared)
    (h : deleteTaskWithSnapshot octets locked validated task expectedVersion w = .ok (receipt, w')) :
    ∃ s, Deleted validated task receipt s w w' := by
  obtain ⟨row, s, held, mapping, _, _, htask, -, hleaf, rfl, htaken, hheld, hreceipt, rfl, hmapping, rfl⟩ :=
    deleteTaskWithSnapshot_ok h
  simp only [hd.settle_self] at htaken ⊢
  obtain ⟨hnow, htasks, hevents, hcalendars, hprojects, hconflicts, hundos⟩ := heldBack_tables row held w.db
  obtain ⟨hmem, rfl⟩ := hd.task?_eq_some.1 htask
  have hgone : w.Gone row.id (w.settle ((heldBack row held w.db).deleteTask row.id)) := by
    refine hd.gone_settle hnow hcalendars hprojects ?_ ?_
    · exact congrArg (fun l => update (·.recurrenceSourceId == some row.id) detachedTask (delete (·.id == row.id) l)) htasks
    · exact congrArg (delete fun e : CalendarEvent => e.linkedTaskId == some row.id) hevents
  obtain rfl := htaken.task
  refine ⟨{ s with
    mapping := mapping
    revisions := readRevisions (s.revisions.map (·.1)) (w.settle ((heldBack s.task held w.db).deleteTask s.task.id)) }, ?_⟩
  obtain ⟨-, hunheld, hheldRow⟩ := heldMapping_ok hheld
  -- the one event of the task, and its mapping
  have honly : ∀ e ∈ w.db.events, e.linkedTaskId = some s.task.id → s.event = some e := by
    intro e he hlink
    rw [htaken.event]
    exact hd.db.taskEvent?_eq_some.2 ⟨he, hlink⟩
  constructor
  · exact htask
  · intro t ht hp
    have hno := has_eq_false_iff.1 hleaf t ht
    simp [hp] at hno
  · exact ⟨hgone.now, hgone.tasks, hgone.events, hgone.calendars, hgone.projects, hgone.labels, hgone.notes, hgone.files,
      hgone.focus, hgone.reviews, hgone.account⟩
  · exact ⟨rfl, htaken.event, htaken.notes, htaken.files, htaken.focus, htaken.successors, htaken.single, htaken.project,
      htaken.recurrenceProject, htaken.parent, htaken.source, htaken.projects, htaken.dependencies, htaken.guarded, rfl⟩
  · have hscopes : s.revisions.map (·.1) = guardScopes s.focus s.event := by
      rw [htaken.revisions, readRevisions, List.map_map]
      exact List.map_id _
    show readRevisions (s.revisions.map (·.1)) _ = _
    rw [hscopes]
    rfl
  · intro m hm
    rw [hmapping, Option.map_eq_some_iff] at hm
    obtain ⟨⟨m₀, fingerprint⟩, rfl, rfl⟩ := hm
    obtain ⟨e, c, hevent, -, -, hm₀, hholdable, -, hdecided, rfl⟩ := hheldRow _ rfl
    obtain ⟨hm₀mem, hm₀event⟩ := hd.db.mappingOf?_eq_some.1 hm₀
    have hclean : m₀.localDirty = false ∧ m₀.localDeleted = false ∧ m₀.reversibleTombstone = false ∧
        m₀.deletionHoldUntil = none := by
      simp only [holdable, Bool.and_eq_true, Bool.not_eq_true', Option.isNone_iff_eq_none] at hholdable
      exact ⟨hholdable.1.1.1.1.1.1.2, hholdable.1.1.1.1.1.2, hholdable.1.2, hholdable.2⟩
    refine ⟨⟨⟨e, m₀, hevent, hm₀, rfl⟩, hclean, fun k hk hkm hopen => ?_⟩, ?_⟩
    · have hno := has_eq_false_iff.1 hdecided k hk
      simp [hkm, hopen] at hno
    · have hrows : (heldBack s.task (some (m₀, localFingerprint e.toLocalEvent)) w.db).mappings =
          update (·.id == m₀.id) (fun _ => heldRow receipt.expiresAt
            { m₀ with baseFingerprint := some (localFingerprint e.toLocalEvent) }) w.db.mappings := by
        refine update_congr fun r hr hid => ?_
        rw [hd.db.mappingIds.eq hr hm₀mem rfl (congrArg some (by simpa using Eq.symm (beq_iff_eq.1 hid))), hreceipt]
        simp only [holdMapping, heldRow, hclean.1]
      show ((heldBack s.task (some (m₀, localFingerprint e.toLocalEvent)) w.db).deleteTask s.task.id).mappings = _
      rw [deleteTask_mappings, hrows]
      intro m hm x hx hlink heq
      rw [hevents] at hx
      obtain rfl : e = x := Option.some.inj (hevent.symm.trans (honly x hx hlink))
      rw [hrows] at hm
      rcases mem_update.1 hm with ⟨hm, hne⟩ | ⟨y, -, -, rfl⟩
      · rw [hd.db.mappingEvents.eq hm hm₀mem heq hm₀event] at hne
        simp at hne
      · cases heq
  · intro hm
    rw [hmapping, Option.map_eq_none_iff] at hm
    subst hm
    have hnone : ∀ e, s.event = some e → w.db.mappingOf? e.id = none := by
      intro e he
      obtain ⟨c, -, hc⟩ := hunheld e he
      exact (hc rfl).2
    refine ⟨hnone, deleteTask_mappings fun m hm e he hlink heq => ?_⟩
    have hnot := List.find?_eq_none.1 (hnone e (honly e he hlink)) m hm
    simp [heq] at hnot
  · intro hv m hm
    subst hv
    rw [hmapping, Option.map_eq_some_iff] at hm
    obtain ⟨⟨m₀, fingerprint⟩, rfl, rfl⟩ := hm
    obtain ⟨e, -, -, -, -, hm₀, -, -, -, -⟩ := hheldRow _ rfl
    have hsame := heldMapping_fingerprint hheld
    have heq : { m₀ with baseFingerprint := some fingerprint } = m₀ := by rw [← hsame]
    exact heq ▸ (hd.db.mappingOf?_eq_some.1 hm₀).1
  · intro k hk
    rcases mem_update.1 hk with ⟨hk, -⟩ | ⟨k₀, hk₀, -, rfl⟩
    · exact ⟨k, hconflicts ▸ hk, rfl, rfl⟩
    · exact ⟨k₀, hconflicts ▸ hk₀, rfl, rfl⟩
  · rw [hreceipt, hmapping, Option.map_map]
    rfl
  · rw [hreceipt]
    show w.db.nextId < (heldBack s.task held w.db).nextId
    cases held with
    | none => exact Nat.lt_succ_self _
    | some p => exact Nat.lt_succ_of_lt (Nat.lt_succ_self _)
  · rw [hreceipt]
    exact hundos
  · rfl

end Store

end Prosepect
