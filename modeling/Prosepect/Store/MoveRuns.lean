/-
Receipts of moves over whole runs: what a receipt says stays true of its event, whose version only
rises, so that an undo finds the move it was issued for or none.
-/
import Prosepect.Store.Actions
import Prosepect.Store.Aging

namespace Prosepect

open Resumption Table Time Store

namespace Workspace

/-- A receipt is of an event that is there, and that is at least as old as the move left it. -/
def Issued (m : CalendarMoveUndo) (w : Workspace) : Prop :=
  m.id < w.db.nextId ∧ ∃ e ∈ w.db.events, e.id = m.eventId ∧ e.linkedTaskId = m.taskId ∧ m.eventVersion ≤ e.version

structure MovesValid (w : Workspace) : Prop where
  db : w.db.Valid
  moves : ∀ m ∈ w.moves, w.Issued m
  ids : ∀ a ∈ w.moves, ∀ b ∈ w.moves, a.id = b.id → a = b
  /-- The event of a snapshot is to come back into a calendar that the snapshot names. -/
  snapshots : ∀ x ∈ w.snapshots, ∀ e, x.2.event = some e →
    e.id < w.db.nextId ∧ ∃ g, x.2.calendar = some g ∧ g.id = e.calendarId

/-- What a step does to the receipts: none comes back, and the events of those that stay are not
younger than before. -/
structure Forward (w w' : Workspace) : Prop where
  nextId : w.db.nextId ≤ w'.db.nextId
  moves : ∀ m ∈ w'.moves, m ∈ w.moves ∨ w.db.nextId ≤ m.id
  aged : ∀ m ∈ w'.moves, m ∈ w.moves → ∀ e ∈ w.db.events, e.id = m.eventId → ∀ e' ∈ w'.db.events, e'.id = m.eventId →
    e.version ≤ e'.version

def Onward (w w' : Workspace) : Prop := w.MovesValid → w'.MovesValid ∧ w.Forward w'

variable {w w' : Workspace}

theorem MovesValid.event_eq (h : w.MovesValid) {a b : CalendarEvent} (ha : a ∈ w.db.events) (hb : b ∈ w.db.events)
    (hid : a.id = b.id) : a = b :=
  h.db.eventIds.eq ha hb rfl (by rw [hid])

theorem Forward.refl (h : w.MovesValid) : w.Forward w := by
  refine ⟨le_rfl, fun m hm => .inl hm, fun m _ _ e he hid e' he' hid' => ?_⟩
  rw [h.event_eq he he' (hid.trans hid'.symm)]

theorem Forward.trans {a b c : Workspace} (ha : a.MovesValid) (hb : b.MovesValid) (h : a.Forward b)
    (h' : b.Forward c) : a.Forward c where
  nextId := h.nextId.trans h'.nextId
  moves := by
    intro m hm
    rcases h'.moves m hm with hm | hn
    · exact h.moves m hm
    · exact .inr (h.nextId.trans hn)
  aged := by
    intro m hmc hma e he hid e'' he'' hid''
    -- a receipt that is there before and after was there in between
    rcases h'.moves m hmc with hmb | hn
    · obtain ⟨-, e', he', hid', -⟩ := hb.moves m hmb
      exact (h.aged m hmb hma e he hid e' he' hid').trans (h'.aged m hmc hmb e' he' hid' e'' he'' hid'')
    · exact absurd ((ha.moves m hma).1.trans_le h.nextId) (Nat.not_lt_of_le hn)

theorem Onward.refl (w : Workspace) : w.Onward w := fun h => ⟨h, .refl h⟩

theorem Onward.trans {a b c : Workspace} (h : a.Onward b) (h' : b.Onward c) : a.Onward c := by
  intro ha
  obtain ⟨hb, hab⟩ := h ha
  obtain ⟨hc, hbc⟩ := h' hb
  exact ⟨hc, hab.trans ha hb hbc⟩

/-- The event of a receipt after a step that lets events only grow older. -/
theorem Issued.later {m : CalendarMoveUndo} (h : w.Issued m) (hv : w.db.Valid) (hl : w.db.Later w'.db) {e' : CalendarEvent}
    (he' : e' ∈ w'.db.events) (hid : e'.id = m.eventId) :
    w'.Issued m ∧ ∀ e ∈ w.db.events, e.id = m.eventId → e.version ≤ e'.version := by
  obtain ⟨hused, e, he, heid, hlink, hversion⟩ := h
  rcases hl.events e' he' with hn | ⟨x, hx, hxid, hxlink, hxversion⟩
  · have hlt := hv.eventsUsed e he
    rw [heid, ← hid] at hlt
    exact absurd hlt (Nat.not_lt_of_le hn)
  · obtain rfl : x = e := hv.eventIds.eq hx he rfl (by rw [hxid, hid, heid])
    refine ⟨⟨hused.trans_le hl.nextId, e', he', hid, hxlink ▸ hlink, hversion.trans hxversion⟩, fun y hy hyid => ?_⟩
    rwa [hv.eventIds.eq hy he rfl (by rw [hyid, heid])]

/-- A step on the first tables that issues no receipt. -/
theorem onward_of_aged (hdb : w.db.Aged w'.db) (hmoves : ∀ m ∈ w'.moves, m ∈ w.moves)
    (hthere : ∀ m ∈ w'.moves, ∃ e ∈ w'.db.events, e.id = m.eventId) (hsnapshots : ∀ x ∈ w'.snapshots, x ∈ w.snapshots) :
    w.Onward w' := by
  intro h
  obtain ⟨hv', hl⟩ := hdb h.db
  constructor
  · refine ⟨hv', fun m hm => ?_, fun a ha b hb => h.ids a (hmoves a ha) b (hmoves b hb), fun x hx e he => ?_⟩
    · obtain ⟨e', he', hid⟩ := hthere m hm
      exact ((h.moves m (hmoves m hm)).later h.db hl he' hid).1
    · obtain ⟨hused, hcalendar⟩ := h.snapshots x (hsnapshots x hx) e he
      exact ⟨hused.trans_le hl.nextId, hcalendar⟩
  · exact ⟨hl.nextId, fun m hm => .inl (hmoves m hm), fun m hm hmem e he hid e' he' hid' =>
      ((h.moves m hmem).later h.db hl he' hid').2 e he hid⟩

theorem settle_moves {db : Db} {m : CalendarMoveUndo} (hm : m ∈ (w.settle db).moves) :
    m ∈ w.moves ∧ (∃ e ∈ db.events, e.id = m.eventId) ∧ ∀ t, m.taskId = some t → (db.task? t).isSome := by
  obtain ⟨hmem, hkept⟩ := mem_delete.1 hm
  simp only [Bool.not_eq_false', Bool.and_eq_true] at hkept
  refine ⟨hmem, Db.event?_isSome.1 hkept.1, fun t ht => ?_⟩
  simpa [kept, ht] using hkept.2

theorem onward_settle {db : Db} (h : w.db.Aged db) : w.Onward (w.settle db) :=
  onward_of_aged h (fun _ hm => (settle_moves hm).1) (fun _ hm => (settle_moves hm).2.1) fun _ hx => hx

theorem onward_onDb {α : Type} {t : StoreTx α} (h : Tx.Within Db.Aged t) : Tx.Within Onward (onDb t) := by
  intro w a w' hw
  obtain ⟨db, ht, rfl⟩ := onDb_ok hw
  exact onward_settle (h w.db a db ht)

/-- A step beside the first tables. -/
theorem onward_beside (hdb : w.db.Aged w'.db) (hevents : w'.db.events = w.db.events)
    (hmoves : ∀ m ∈ w'.moves, m ∈ w.moves) (hsnapshots : w'.snapshots = w.snapshots) : w.Onward w' := by
  intro h
  refine onward_of_aged hdb hmoves (fun m hm => ?_) (fun x hx => hsnapshots ▸ hx) h
  obtain ⟨-, e, he, hid, -⟩ := h.moves m (hmoves m hm)
  exact ⟨e, hevents ▸ he, hid⟩

theorem Quiet.onward (h : w.Quiet w') : w.Onward w' :=
  onward_beside h.db.aged h.db.events h.moves h.snapshots

theorem onward_quiet {α : Type} {t : WorkspaceTx α} (h : Tx.Within Quiet t) : Tx.Within Onward t :=
  fun w a w' hw => (h w a w' hw).onward

theorem onward_void {α : Type} {t : WorkspaceTx α} (h : Tx.Within Onward t) : Tx.Within Onward (Action.void t) :=
  .bind (R := Onward) Onward.trans h fun _ => .pure .refl ()

/-! ## The operations -/

section Operations

theorem onward_createCalendar (toLowercase : String → String) (name color : String) :
    Tx.Within Onward (createCalendar toLowercase name color) := by
  unfold createCalendar
  refine .bind (R := Onward) Onward.trans (.ofExcept .refl _) fun _ => ?_
  intro w a w' h
  rw [Tx.read_bind_run] at h
  obtain ⟨_, db, hdb, h⟩ := onDb_bind_ok h
  cases hdb
  rw [Tx.write_bind_run] at h
  cases h
  exact (onward_settle (Db.aged_insertCalendar rfl)).trans (onward_beside (.refl _) rfl (fun _ hm => hm) rfl)

theorem onward_writeCalendar (calendar : Uuid) {f : Calendar → Calendar} (hf : ∀ c, (f c).id = c.id) :
    Tx.Within Onward (onDb (Tx.write (Db.updateCalendar calendar f))) :=
  onward_onDb (.write fun _ => Db.aged_updateCalendar calendar hf)

/-- A write beside the first tables and the receipts. -/
theorem onward_write {g : Workspace → Workspace} (hdb : ∀ w, (g w).db = w.db) (hm : ∀ w, (g w).moves = w.moves)
    (hs : ∀ w, (g w).snapshots = w.snapshots) : Tx.Within Onward (Tx.write g : WorkspaceTx Unit) :=
  .write fun w => onward_beside (by rw [hdb]; exact .refl _) (by rw [hdb]) (fun _ h => hm w ▸ h) (hs w)

theorem onward_updateCalendar (toLowercase : String → String) (calendar : Uuid) (r : UpdateCalendarRequest) :
    Tx.Within Onward (updateCalendar toLowercase calendar r) := by
  unfold updateCalendar
  refine .bind (R := Onward) Onward.trans (.ofExcept .refl _) fun _ => ?_
  refine .bind (R := Onward) Onward.trans (.read .refl) fun w => ?_
  split
  · exact .raise _
  · refine .ite (fun _ => .raise _) fun _ => ?_
    refine .bind (R := Onward) Onward.trans (onward_writeCalendar calendar fun _ => rfl) fun _ => ?_
    refine .bind (R := Onward) Onward.trans (onward_write (fun _ => rfl) (fun _ => rfl) fun _ => rfl) fun _ => ?_
    exact .ite (fun _ => onward_onDb (Db.aged_enqueueSync _ _)) fun _ => .pure .refl _

theorem onward_deleteCalendar (calendar : Uuid) (expectedVersion : Int) :
    Tx.Within Onward (deleteCalendar calendar expectedVersion) := by
  unfold deleteCalendar
  refine .bind (R := Onward) Onward.trans (.read .refl) fun w => ?_
  split
  · exact .raise _
  · refine .ite (fun _ => onward_onDb (.write fun _ => Db.aged_deleteCalendars _)) fun _ => ?_
    exact .ite (fun _ => .raise _) fun _ => .raise _

theorem onward_upsertGoogleCalendar (entry : GoogleCalendar) : Tx.Within Onward (upsertGoogleCalendar entry) := by
  intro w a w' h
  unfold upsertGoogleCalendar at h
  rw [Tx.read_bind_run] at h
  dsimp only at h
  cases hc : w.db.calendars.find? fun c => c.source == .google && c.externalId == some entry.id with
  | some c =>
    simp only [hc] at h
    obtain ⟨_, u, hcalendar, hlabel⟩ := Tx.bind_ok h
    have hwritten : u.Onward w' := onward_write (by intro; rfl) (by intro; rfl) (by intro; rfl) u a w' hlabel
    exact (onward_writeCalendar c.id (by intro; rfl) _ _ _ hcalendar).trans hwritten
  | none =>
    simp only [hc] at h
    obtain ⟨_, db, hdb, h⟩ := onDb_bind_ok h
    cases hdb
    cases h
    exact (onward_settle (Db.aged_insertCalendar rfl)).trans (onward_beside (.refl _) rfl (fun _ hm => hm) rfl)

theorem onward_revokeGoogleIntegration : Tx.Within Onward revokeGoogleIntegration := by
  unfold revokeGoogleIntegration
  refine .bind (R := Onward) Onward.trans (onward_onDb (.write fun _ => Db.aged_deleteCalendars _)) fun _ => ?_
  exact onward_write (fun _ => rfl) (fun _ => rfl) fun _ => rfl

theorem onward_insertProject (r : CreateProjectRequest) : Tx.Within Onward (insertProject r) := by
  intro w p w' h
  cases h
  exact onward_beside (Db.aged_same rfl rfl rfl rfl (Nat.le_succ _)) rfl (fun _ hm => hm) rfl

theorem onward_createProject (r : CreateProjectRequest) : Tx.Within Onward (createProject r) :=
  .bind (R := Onward) Onward.trans (.ofExcept .refl _) fun _ => onward_insertProject r

theorem onward_deleteProject (project : Uuid) (expectedVersion : Int) :
    Tx.Within Onward (deleteProject project expectedVersion) := by
  unfold deleteProject
  refine .ite (fun _ => .raise _) fun _ => ?_
  refine .bind (R := Onward) Onward.trans (onward_onDb (.write fun _ => Db.aged_removeProjectEvents project)) fun _ => ?_
  refine .bind (R := Onward) Onward.trans (.read .refl) fun w => ?_
  split
  · exact .raise _
  · exact .ite (fun _ => .raise _) fun _ => onward_onDb (.write fun _ => Db.aged_deleteProject project)

theorem onward_importTodoistProject (toLowercase : String → String) (r : TodoistImportRequest) :
    Tx.Within Onward (importTodoistProject toLowercase r) := by
  unfold importTodoistProject
  refine .bind (R := Onward) Onward.trans (.ofExcept .refl _) fun _ => .ite (fun _ => .raise _) fun _ => ?_
  refine .bind (R := Onward) Onward.trans (.ofExcept .refl _) fun _ => ?_
  refine .bind (R := Onward) Onward.trans (onward_insertProject _) fun _ => ?_
  refine .bind (R := Onward) Onward.trans (.read .refl) fun _ => ?_
  exact .bind (R := Onward) Onward.trans (onward_onDb (Db.aged_importTasks _ _ _ _)) fun _ => .pure .refl _

/-- A deletion with a receipt: the snapshot names the calendar of the event. -/
theorem onward_deleteTaskWithSnapshot (octets : Snapshot → Nat) (locked validated : Bool) (task : Uuid)
    (expectedVersion : Int) : Tx.Within Onward (deleteTaskWithSnapshot octets locked validated task expectedVersion) := by
  intro w receipt w' h hv
  obtain ⟨row, s, held, mapping, w₁, w₂, htask, -, -, rfl, htaken, hheld, -, rfl, -, rfl⟩ := deleteTaskWithSnapshot_ok h
  have hheldBack : w.db.Aged (Db.deleteTask row.id (heldBack row held w.db)) := by
    refine Db.Aged.trans (Db.Edit.aged (edit_heldBack row held ?_) fun e he => ?_) (Db.aged_deleteTask row.id)
    · intro p hp
      obtain ⟨e, c, -, -, -, hm, hhold, -⟩ := (heldMapping_ok hheld).2.2 p hp
      exact ⟨List.mem_of_find?_eq_some hm, ⟨e.id, by simpa using List.find?_some hm⟩, holdable_conflictState hhold⟩
    · unfold heldBack at he
      cases held <;> exact he
  have hself : (w.settle w.db).Onward ((w.settle w.db).settle w.db) := onward_settle (Db.Aged.refl w.db)
  obtain ⟨hv₂, hforward⟩ := ((onward_settle (Db.Aged.refl w.db)).trans (hself.trans (onward_settle hheldBack))) hv
  refine ⟨⟨hv₂.db, hv₂.moves, hv₂.ids, fun x hx e he => ?_⟩, ⟨hforward.nextId, hforward.moves, hforward.aged⟩⟩
  rcases List.mem_append.1 hx with hx | hx
  · exact hv₂.snapshots x hx e he
  · rw [List.mem_singleton.1 hx] at he ⊢
    have hevent : s.event = some e := he
    have hmem := (taskEvent?_mem (htaken.event.symm.trans hevent)).1
    have hguarded := htaken.guarded
    rw [hevent] at hguarded
    obtain ⟨c, hc, hcal, -⟩ := hguarded
    exact ⟨(hv.db.eventsUsed e hmem).trans_le hforward.nextId, _, hcal, (calendar?_mem hc).2⟩

/-- A mapping that was held back, with its event again. -/
theorem valid_relinked {db : Db} (h : db.Valid) {mapping event : Uuid} (he : ∃ e ∈ db.events, e.id = event)
    (hfree : ∀ m ∈ db.mappings, m.canonicalEventId = some event → m.id = mapping) :
    (db.updateMapping mapping fun m => { m with
      canonicalEventId := some event, localDeleted := false, localDirty := false, reversibleTombstone := false,
      deletionHoldUntil := none }).Valid := by
  have hlink := h.link he hfree
  have hflags := hlink.updateMapping mapping (f := fun m => { m with
    localDeleted := false, localDirty := false, reversibleTombstone := false, deletionHoldUntil := none })
    (fun _ => rfl) (fun _ => rfl) (fun _ => rfl) fun _ => .inl rfl
  unfold Db.updateMapping Db.updateMappings at hflags ⊢
  dsimp only at hflags
  rwa [update_comp (by intro; rfl)] at hflags

/-- The tables after an undo of a deletion: the event has its id again, which no other one has. -/
theorem valid_restoreDb {expiry : DateTime} {s : Snapshot} (hv : w.db.Valid)
    (hs : ∀ e, s.event = some e → e.id < w.db.nextId ∧ ∃ g, s.calendar = some g ∧ g.id = e.calendarId)
    (hleft : AsLeft expiry s w) (hfree : Vacant s w) :
    (restoreDb s w.db).Valid ∧ (restoreDb s w.db).nextId = w.db.nextId ∧
      (∀ e ∈ w.db.events, e ∈ (restoreDb s w.db).events) ∧
      ∀ e ∈ (restoreDb s w.db).events, e ∈ w.db.events ∨ ∃ e₀, s.event = some e₀ ∧ e.id = e₀.id := by
  obtain ⟨tasks, hrelinked⟩ := relinkSuccessors_eq s (restoreEvent s (w.db.insertTask (restoredTask w.db.now s.task)))
  have hinserted : (w.db.insertTask (restoredTask w.db.now s.task)).Valid := hv.congr rfl rfl rfl rfl le_rfl
  unfold restoreDb
  rw [hrelinked]
  cases hevent : s.event with
  | none =>
    unfold restoreEvent restoreMapping
    rw [hevent]
    cases s.mapping with
    | none => exact ⟨hinserted.congr rfl rfl rfl rfl le_rfl, rfl, fun _ he => he, fun _ he => .inl he⟩
    | some m =>
      have hplaced : Db.Valid { w.db.insertTask (restoredTask w.db.now s.task) with tasks := tasks } :=
        hinserted.congr rfl rfl rfl rfl le_rfl
      exact ⟨hplaced.updateMapping m.id (fun _ => rfl) (fun _ => rfl) (fun _ => rfl) fun _ => .inr rfl, rfl,
        fun _ he => he, fun _ he => .inl he⟩
  | some e₀ =>
    obtain ⟨hused, g, hg, hgid⟩ := hs e₀ hevent
    obtain ⟨c, hc, hguard⟩ := hleft.calendar g hg
    have hcalendar : ∃ c ∈ w.db.calendars, c.id = e₀.calendarId :=
      ⟨c, (calendar?_mem hc).1, (calendar?_mem hc).2.trans hgid⟩
    have hlinked : ∀ t, e₀.linkedTaskId = some t → w.db.taskEvent? t = none := by
      intro t ht
      refine List.find?_eq_none.2 fun x hx => ?_
      simpa using hfree.linked e₀ hevent t ht x hx
    have hplaced := hinserted.insertEvent (e := { e₀ with version := e₀.version + 1, updatedAt := w.db.now })
      (hfree.event e₀ hevent) hused hlinked hcalendar
    have hrelated : Db.Valid { (w.db.insertTask (restoredTask w.db.now s.task)).insertEvent
        { e₀ with version := e₀.version + 1, updatedAt := w.db.now } with tasks := tasks } :=
      hplaced.congr rfl rfl rfl rfl le_rfl
    have hmem : ∀ e ∈ w.db.events ++ [{ e₀ with version := e₀.version + 1, updatedAt := w.db.now }],
        e ∈ w.db.events ∨ ∃ x, some e₀ = some x ∧ e.id = x.id := by
      intro e he
      rcases List.mem_append.1 he with he | he
      · exact .inl he
      · exact .inr ⟨e₀, rfl, by rw [List.mem_singleton.1 he]⟩
    unfold restoreEvent restoreMapping
    rw [hevent]
    cases hm : s.mapping with
    | none => exact ⟨hrelated, rfl, fun _ he => List.mem_append_left _ he, hmem⟩
    | some m =>
      refine ⟨valid_relinked hrelated ⟨_, List.mem_append_right _ (List.mem_singleton_self _), rfl⟩ ?_, rfl,
        fun _ he => List.mem_append_left _ he, hmem⟩
      -- no mapping is of an event that is not there
      intro x hx hxe
      obtain ⟨y, hy, hyid⟩ := hv.mappingEvent x hx _ hxe
      exact absurd hyid (hfree.event e₀ hevent y hy)

theorem onward_undoTaskDelete (locked : Bool) (validation : Except AppError Unit) (receipt : Uuid) :
    Tx.Within Onward (undoTaskDelete locked validation receipt) := by
  intro w a w' h hv
  obtain ⟨u, s, -, hs, hleft, hfree, rfl⟩ := undoTaskDelete_ok h
  obtain ⟨hvalid, hnext, hkept, hfrom⟩ := valid_restoreDb hv.db (hv.snapshots _ hs) hleft hfree
  -- a receipt is of an event that was there, so not of the one that is back
  have hold : ∀ m ∈ w.moves, ∀ e ∈ (restoreDb s w.db).events, e.id = m.eventId → e ∈ w.db.events := by
    intro m hm e he hid
    rcases hfrom e he with he | ⟨e₀, hevent, he₀⟩
    · exact he
    · obtain ⟨-, x, hx, hxid, -⟩ := hv.moves m hm
      exact absurd (hxid.trans (hid.symm.trans he₀)) (hfree.event e₀ hevent x hx)
  have hle : w.db.nextId ≤ (restoreDb s w.db).nextId := hnext ▸ le_rfl
  constructor
  · refine ⟨hvalid.deleteUndos _, fun m hm => ?_, hv.ids, fun x hx e he => ?_⟩
    · obtain ⟨hused, e, he, hrest⟩ := hv.moves m hm
      exact ⟨hused.trans_le hle, e, hkept e he, hrest⟩
    · obtain ⟨hused, hcalendar⟩ := hv.snapshots x (mem_delete.1 hx).1 e he
      exact ⟨hused.trans_le hle, hcalendar⟩
  · refine ⟨hle, fun m hm => .inl hm, fun m hm _ e he hid e' he' hid' => ?_⟩
    rw [hv.event_eq he (hold m hm e' he' hid') (hid.trans hid'.symm)]

theorem onward_cleanupMoves (w : Workspace) : w.Onward (Store.cleanupMoves w) :=
  onward_beside (.refl _) rfl (fun _ hm => (mem_delete.1 hm).1) rfl

/-- What a move leaves: the event at its new times, under the next version. -/
theorem event?_moveEvent {db : Db} (hv : db.Valid) {e : CalendarEvent} (he : e ∈ db.events) (startsAt endsAt : DateTime)
    (task : Option (Uuid × Option DateTime × Option DateTime)) :
    (moveEvent e startsAt endsAt task db).event? e.id =
      some { e with startsAt := startsAt, endsAt := endsAt, updatedAt := db.now, version := e.version + 1 } := by
  have hevents : (moveEvent e startsAt endsAt task db).events = update (·.id == e.id)
      (fun _ => { e with startsAt := startsAt, endsAt := endsAt, updatedAt := db.now, version := e.version + 1 }) db.events := by
    unfold moveEvent
    rw [markEventForSync_events]
    unfold writeSchedule
    cases task <;> rfl
  refine (Db.Valid.event?_eq_some (Db.aged_moveEvent he startsAt endsAt task hv).1).2 ⟨?_, rfl⟩
  rw [hevents]
  exact mem_update.2 (.inr ⟨e, he, by simp, rfl⟩)

theorem onward_moveCalendarItem (locked : Bool) (item : Uuid) (isTask : Bool) (r : MoveCalendarItemRequest) :
    Tx.Within Onward (moveCalendarItem locked item isTask r) := by
  intro w receipt w' h hv
  obtain ⟨e, task, w₁, -, he, -, hreceipt, rfl, rfl⟩ := moveCalendarItem_ok h
  obtain ⟨hmem, -⟩ := event?_mem he
  have hfresh : w.db.Aged w.db.fresh := Db.aged_same rfl rfl rfl rfl (Nat.le_succ _)
  have hmem' : e ∈ w.db.fresh.events := hmem
  have hmove := Db.aged_moveEvent hmem' r.startsAt r.endsAt (movedTask task r.startsAt r.endsAt)
  have hmoved := hfresh.trans hmove
  have hclean := onward_cleanupMoves w
  have hself : (Store.cleanupMoves w).Onward ((Store.cleanupMoves w).settle w.db) := onward_settle (Db.Aged.refl w.db)
  obtain ⟨hv₁, hforward⟩ := (hclean.trans (hself.trans (onward_settle hmoved))) hv
  have hid : receipt.id = w.db.nextId := by rw [hreceipt]
  have hsucc : w.db.nextId + 1 ≤ (moveEvent e r.startsAt r.endsAt (movedTask task r.startsAt r.endsAt) w.db.fresh).nextId :=
    (hmove hv.db.fresh).2.nextId
  -- the receipts before are older than this one
  have hbefore : ∀ m ∈ (((Store.cleanupMoves w).settle w.db).settle (moveEvent e r.startsAt r.endsAt
      (movedTask task r.startsAt r.endsAt) w.db.fresh)).moves, m.id < receipt.id := by
    intro m hm
    rw [hid]
    exact (hv.moves m (mem_delete.1 (settle_moves (settle_moves hm).1).1).1).1
  constructor
  · refine ⟨hv₁.db, fun m hm => ?_, fun a ha b hb hab => ?_, hv₁.snapshots⟩
    · rcases List.mem_append.1 hm with hm | hm
      · exact hv₁.moves m hm
      · rw [List.mem_singleton.1 hm]
        have hevent := event?_moveEvent hv.db.fresh hmem r.startsAt r.endsAt (movedTask task r.startsAt r.endsAt)
        obtain ⟨hmoved', -⟩ := event?_mem hevent
        refine ⟨hid ▸ Nat.lt_of_succ_le hsucc, _, hmoved', ?_, ?_, ?_⟩
        · rw [hreceipt]
        · rw [hreceipt]
        · rw [hreceipt]
    · rcases List.mem_append.1 ha with ha | ha <;> rcases List.mem_append.1 hb with hb | hb
      · exact hv₁.ids a ha b hb hab
      · rw [List.mem_singleton.1 hb] at hab
        exact absurd (hbefore a ha) (by rw [hab]; exact Nat.lt_irrefl _)
      · rw [List.mem_singleton.1 ha] at hab
        exact absurd (hbefore b hb) (by rw [hab]; exact Nat.lt_irrefl _)
      · rw [List.mem_singleton.1 ha, List.mem_singleton.1 hb]
  · refine ⟨hforward.nextId, fun m hm => ?_, fun m hm hmem' => ?_⟩
    · rcases List.mem_append.1 hm with hm | hm
      · exact hforward.moves m hm
      · rw [List.mem_singleton.1 hm]
        exact .inr (Nat.le_of_eq hid.symm)
    · rcases List.mem_append.1 hm with hm | hm
      · exact hforward.aged m hm hmem'
      · rw [List.mem_singleton.1 hm] at hmem'
        exact absurd (hv.moves _ hmem').1 (by rw [hid]; exact Nat.lt_irrefl _)

theorem onward_undoCalendarMove (locked : Bool) (receipt : Uuid) : Tx.Within Onward (undoCalendarMove locked receipt) := by
  intro w a w' h
  obtain ⟨inverse, e, task, w₁, -, he, -, -, -, -, -, -, rfl, rfl⟩ := undoCalendarMove_ok h
  obtain ⟨hmem, -⟩ := event?_mem he
  have hself : w.Onward (w.settle w.db) := onward_settle (Db.Aged.refl w.db)
  have hmoved : (w.settle w.db).Onward _ := onward_settle (Db.aged_moveEvent hmem inverse.startsAt inverse.endsAt
    (inverse.taskId.map fun id => (id, inverse.taskStartsAt, inverse.taskEndsAt)))
  refine (hself.trans hmoved).trans (Onward.trans ?_ (onward_cleanupMoves _))
  exact onward_beside (.refl _) rfl (fun _ hm => (mem_delete.1 hm).1) rfl

end Operations

/-! ## Runs -/

theorem onward_tx (env : Env) (a : Action) : Tx.Within Onward (a.tx env) := by
  cases a with
  | tick now =>
    exact .write fun w => onward_beside (Db.aged_same rfl rfl rfl rfl le_rfl) rfl (fun _ hm => hm) rfl
  | createProject r => exact onward_void (onward_createProject r)
  | updateProject project r => exact onward_quiet (quiet_void (quiet_updateProject project r))
  | deleteProject project version => exact onward_deleteProject project version
  | importTodoistProject r => exact onward_void (onward_importTodoistProject _ r)
  | importGoogleTask title deadline completed => exact onward_void (onward_onDb (Db.aged_importGoogleTask _ _ _))
  | createTask r => exact onward_void (onward_onDb (Db.aged_createTask _ r))
  | updateTask task r scope => exact onward_void (onward_onDb (Db.aged_updateTaskScoped _ task r scope))
  | reorderTasks taskIds => exact onward_onDb (Db.aged_reorderTasks taskIds)
  | deleteTask task version => exact onward_onDb (Db.aged_deleteTaskTx task version)
  | deleteTaskWithUndo locked validated task version =>
    exact onward_void (onward_deleteTaskWithSnapshot env.octets locked validated task version)
  | undoTaskDelete locked validation receipt => exact onward_undoTaskDelete locked validation receipt
  | cleanupTaskDeleteUndos => exact onward_onDb (t := Tx.write Store.cleanupTaskDeleteUndos) (.write fun _ =>
      Db.aged_same rfl rfl rfl rfl le_rfl)
  | createEvent r => exact onward_void (onward_onDb (Db.aged_createCalendarEvent _ r))
  | updateEvent event r => exact onward_void (onward_onDb (Db.aged_updateCalendarEvent _ event r))
  | deleteEvent event version => exact onward_onDb (Db.aged_deleteCalendarEvent event version)
  | moveCalendarItem locked item isTask r => exact onward_void (onward_moveCalendarItem locked item isTask r)
  | undoCalendarMove locked receipt => exact onward_undoCalendarMove locked receipt
  | cleanupMoves => exact .write onward_cleanupMoves
  | createCalendar name color => exact onward_void (onward_createCalendar _ name color)
  | updateCalendar calendar r => exact onward_updateCalendar _ calendar r
  | deleteCalendar calendar version => exact onward_deleteCalendar calendar version
  | connectGoogle account => exact onward_write (fun _ => rfl) (fun _ => rfl) fun _ => rfl
  | revokeGoogleIntegration => exact onward_revokeGoogleIntegration
  | discoverCalendar entry => exact onward_upsertGoogleCalendar entry
  | migrateScheduledTasks => exact onward_onDb Db.aged_migrateScheduledTasks
  | createNote r => exact onward_quiet (quiet_void (quiet_createNote r))
  | updateNote note r => exact onward_quiet (quiet_void (quiet_updateNote note r))
  | deleteNote note version => exact onward_quiet (quiet_deleteNote note version)
  | createFile others r => exact onward_quiet (quiet_void (quiet_createFileMetadata others r))
  | deleteFile file => exact onward_quiet (quiet_void (quiet_deleteFileMetadata file))
  | updateDailyFocus date taskIds => exact onward_quiet (quiet_updateDailyFocus date taskIds)
  | startDailyReview date manual => exact onward_quiet (quiet_void (quiet_startDailyReview date manual))
  | completeDailyReview date version decisions =>
    exact onward_quiet (quiet_void (quiet_completeDailyReview date version decisions))
  | resolveSyncConflict locked conflict resolution =>
    exact onward_void (onward_onDb (Db.aged_resolveSyncConflict locked conflict resolution))
  | setSyncConflictPolicy policy => exact onward_onDb (Db.aged_setSyncConflictPolicy policy)
  | requestSync calendar key => exact onward_onDb (t := Store.enqueueSync calendar key) (Db.aged_enqueueSync calendar key)
  | sync s => exact onward_onDb (.write fun db => Db.aged_exec s db)

theorem onward_perform (env : Env) (a : Action) (w : Workspace) : w.Onward (a.perform env w) :=
  Tx.Within.commit Onward.refl (onward_tx env a) w

theorem onward_run {env : Env} {P : Action → Workspace → Prop} {w w' : Workspace} (h : Run env P w w') : w.Onward w' := by
  induction h with
  | start => exact .refl w
  | step a _ _ ih => exact ih.trans (onward_perform env a _)

theorem movesValid_initial (now : DateTime) (nextId : Uuid) (policy : Option SyncConflictPolicy) (automatic : Bool) :
    (Workspace.initial now nextId policy automatic).MovesValid := by
  constructor
  · constructor
    all_goals first | exact .nil _ | exact fun _ h => nomatch h
  · exact fun _ h => nomatch h
  · exact fun _ h => nomatch h
  · exact fun _ h => nomatch h

end Workspace

end Prosepect
