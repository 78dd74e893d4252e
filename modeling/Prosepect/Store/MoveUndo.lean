/-
The undo of a move, at any point of a run after the move: it gives back the times before the move,
or fails and changes nothing.
-/
import Prosepect.Store.MoveRuns

namespace Prosepect

open Resumption Table Time Store

namespace Workspace

variable {w w' : Workspace}

/-- The task an event is linked to. -/
def taskOf (e : CalendarEvent) (w : Workspace) : Option TaskRow := e.linkedTaskId.bind w.db.task?

/-- The undo in `w₂` of the move that led from `w₀` to `w₁`, with `w₃` after it. -/
structure Undone (receipt : CalendarMoveUndo) (w₀ w₁ w₂ w₃ : Workspace) : Prop where
  inTime : w₂.db.now < w₀.db.now + moveWindow
  guard : (w₂.db.mappingOf? receipt.eventId).map mappingGuardOf = (w₀.db.mappingOf? receipt.eventId).map mappingGuardOf
  event : ∃ e₀ e₁ e₂, w₀.db.event? receipt.eventId = some e₀ ∧ w₁.db.event? receipt.eventId = some e₁ ∧
    w₂.db.event? receipt.eventId = some e₂ ∧ e₂.version = e₁.version ∧ e₂.linkedTaskId = e₁.linkedTaskId ∧
    (w₂.taskOf e₂).map (·.version) = (w₁.taskOf e₁).map (·.version) ∧
    w₃.db.event? receipt.eventId = some { e₂ with
      startsAt := e₀.startsAt, endsAt := e₀.endsAt, updatedAt := w₂.db.now, version := e₂.version + 1 } ∧
    ∀ t, e₀.linkedTaskId = some t → ∃ t₀ t₃, w₀.db.task? t = some t₀ ∧ w₃.db.task? t = some t₃ ∧
      t₃.scheduledStart = t₀.scheduledStart ∧ t₃.scheduledEnd = t₀.scheduledEnd
  dirty : ∀ m ∈ w₃.db.mappings, m.canonicalEventId = some receipt.eventId →
    ∀ e, w₃.db.event? receipt.eventId = some e → w₃.db.OfGoogle e.calendarId → m.localDirty = true
  consumed : ∀ m ∈ w₃.moves, m.id ≠ receipt.id

/-! ## Receipts -/

/-- A receipt that is older than a step is not from it. -/
theorem Forward.old (h : w.Forward w') {m : CalendarMoveUndo} (hm : m ∈ w'.moves) (hid : m.id < w.db.nextId) : m ∈ w.moves := by
  rcases h.moves m hm with hm | hn
  · exact hm
  · exact absurd hid (Nat.not_lt_of_le hn)

theorem mem_of_moved {locked isTask : Bool} {item : Uuid} {r : MoveCalendarItemRequest} {receipt : CalendarMoveUndo}
    (h : moveCalendarItem locked item isTask r w = .ok (receipt, w')) : receipt ∈ w'.moves ∧ receipt.id = w.db.nextId := by
  obtain ⟨e, task, w₁, -, -, -, hreceipt, -, rfl⟩ := moveCalendarItem_ok h
  exact ⟨List.mem_append_right _ (List.mem_singleton_self _), by rw [hreceipt]⟩

/-- What a run leaves of a receipt is the receipt. -/
theorem receipt_eq {locked isTask : Bool} {item : Uuid} {r : MoveCalendarItemRequest} {receipt m : CalendarMoveUndo}
    {w₂ : Workspace} (hv : w'.MovesValid) (hmove : moveCalendarItem locked item isTask r w = .ok (receipt, w'))
    (hf : w'.Forward w₂) (hm : m ∈ w₂.moves) (hid : m.id = receipt.id) : m = receipt := by
  obtain ⟨hmem, -⟩ := mem_of_moved hmove
  have hused := (hv.moves receipt hmem).1
  exact hv.ids m (hf.old hm (hid ▸ hused)) receipt hmem hid

/-! ## The tables after a move -/

theorem task?_updateTask {db : Db} {id : Uuid} {f : TaskRow → TaskRow} (hf : ∀ t, (f t).id = t.id) :
    (db.updateTask id f).task? id = (db.task? id).map f := by
  have hfind := find_update (p := fun t : TaskRow => t.id == id) (q := fun t => some t.id == some id) (f := f)
    (t := db.tasks) fun t => by rw [hf]
  refine hfind.trans ?_
  show _ = (db.tasks.find? fun t => some t.id == some id).map f
  cases ht : db.tasks.find? fun t => some t.id == some id with
  | none => rfl
  | some t =>
    have htid : t.id = id := by simpa using List.find?_some ht
    simp only [Option.map_some, htid, beq_self_eq_true, if_true]

/-- The task of an event that is moved has the times that are written, and a new version. -/
theorem task?_moveEvent (db : Db) (e : CalendarEvent) (startsAt endsAt : DateTime) (id : Uuid)
    (start end_ : Option DateTime) :
    (moveEvent e startsAt endsAt (some (id, start, end_)) db).task? id = (db.task? id).map (Task.reschedule start end_ db.now) := by
  have hbeside : (writeSchedule e startsAt endsAt (some (id, start, end_)) db).2.Beside
      (moveEvent e startsAt endsAt (some (id, start, end_)) db) := beside_markEventForSync _ false
  exact (hbeside.task? id).trans (task?_updateTask fun _ => rfl)

theorem moveEvent_calendars {db : Db} (e : CalendarEvent) (startsAt endsAt : DateTime)
    (task : Option (Uuid × Option DateTime × Option DateTime)) :
    (moveEvent e startsAt endsAt task db).calendars = db.calendars := by
  unfold moveEvent
  rw [markEventForSync_calendars]
  unfold writeSchedule
  cases task <;> rfl

/-- The mapping of an event in a Google calendar is flagged when the event is moved. -/
theorem dirty_moveEvent {db : Db} (hv : db.Valid) {e : CalendarEvent} (_ : e ∈ db.events) (startsAt endsAt : DateTime)
    (task : Option (Uuid × Option DateTime × Option DateTime)) (hg : db.OfGoogle e.calendarId) {m : Mapping}
    (hm : m ∈ (moveEvent e startsAt endsAt task db).mappings) (hc : m.canonicalEventId = some e.id) : m.localDirty = true := by
  have hsame : (writeSchedule e startsAt endsAt task db).2.mappings = db.mappings ∧
      (writeSchedule e startsAt endsAt task db).2.calendars = db.calendars ∧
      (writeSchedule e startsAt endsAt task db).1.id = e.id ∧
      (writeSchedule e startsAt endsAt task db).1.calendarId = e.calendarId := by
    unfold writeSchedule
    cases task <;> exact ⟨rfl, rfl, rfl, rfl⟩
  obtain ⟨hmappings, hcalendars, hid, hcalendar⟩ := hsame
  have hgoogle : ((writeSchedule e startsAt endsAt task db).2.calendar? e.calendarId).map (·.source) = some .google := by
    unfold Db.calendar?
    rw [hcalendars]
    exact (calendar?_source hv).2 hg
  unfold moveEvent at hm
  rw [markEventForSync_mappings, markMappings, hcalendar, if_pos hgoogle, hid, hmappings] at hm
  rcases mem_update.1 hm with ⟨-, hne⟩ | ⟨x, -, -, rfl⟩
  · rw [hc] at hne
    simp at hne
  · rfl

/-! ## The undo -/

/-- What a move leaves: the receipt, and the event and its task under their next versions. -/
theorem moved {locked isTask : Bool} {item : Uuid} {r : MoveCalendarItemRequest} {receipt : CalendarMoveUndo}
    (hv : w.MovesValid) (h : moveCalendarItem locked item isTask r w = .ok (receipt, w')) :
    ∃ e₀ e₁, w.db.event? receipt.eventId = some e₀ ∧ w'.db.event? receipt.eventId = some e₁ ∧
      receipt.startsAt = e₀.startsAt ∧ receipt.endsAt = e₀.endsAt ∧ receipt.taskId = e₀.linkedTaskId ∧
      e₁.linkedTaskId = e₀.linkedTaskId ∧ e₁.version = receipt.eventVersion ∧ e₀.version < receipt.eventVersion ∧
      (w'.taskOf e₁).map (·.version) = receipt.taskVersion ∧ receipt.expiresAt = w.db.now + moveWindow ∧
      receipt.mappingGuard = (w.db.mappingOf? receipt.eventId).map mappingGuardOf ∧
      ∀ t, e₀.linkedTaskId = some t → ∃ t₀, w.db.task? t = some t₀ ∧ receipt.taskStartsAt = t₀.scheduledStart ∧
        receipt.taskEndsAt = t₀.scheduledEnd := by
  obtain ⟨e, task, w₁, -, he, htask, rfl, rfl, rfl⟩ := moveCalendarItem_ok h
  obtain ⟨hmem, -⟩ := event?_mem he
  have hmem' : e ∈ w.db.fresh.events := hmem
  have hmoved := event?_moveEvent hv.db.fresh hmem' r.startsAt r.endsAt (movedTask task r.startsAt r.endsAt)
  refine ⟨e, _, he, hmoved, rfl, rfl, rfl, rfl, rfl, Int.lt_add_one_of_le le_rfl, ?_, rfl, rfl, ?_⟩
  · rcases htask with ⟨hnone, rfl⟩ | ⟨id, t, hlink, ht, rfl⟩
    · simp [taskOf, hnone]
    · have htid : t.id = id := (task?_mem ht).2
      have hafter := task?_moveEvent w.db.fresh e r.startsAt r.endsAt t.id (some r.startsAt) (some r.endsAt)
      have hfound : w.db.fresh.task? t.id = some t := by
        rw [htid]
        exact ht
      rw [hfound] at hafter
      simp only [taskOf, hlink, Option.bind_some, ← htid]
      show Option.map _ ((moveEvent e r.startsAt r.endsAt (some (t.id, some r.startsAt, some r.endsAt)) w.db.fresh).task? t.id) = _
      rw [hafter]
      rfl
  · intro t ht
    rcases htask with ⟨hnone, -⟩ | ⟨id, t', hlink, hfound, rfl⟩
    · rw [hnone] at ht
      cases ht
    · obtain rfl : id = t := Option.some.inj (hlink.symm.trans ht)
      exact ⟨t', hfound, rfl, rfl⟩

/-- An undo that succeeds, whatever came between it and the move. -/
theorem undone {locked locked' isTask : Bool} {item : Uuid} {r : MoveCalendarItemRequest} {receipt : CalendarMoveUndo}
    {w₀ w₁ w₂ w₃ : Workspace} (hv : w₀.MovesValid)
    (hmove : moveCalendarItem locked item isTask r w₀ = .ok (receipt, w₁)) (hrun : w₁.Onward w₂)
    (h : undoCalendarMove locked' receipt.id w₂ = .ok ((), w₃)) : Undone receipt w₀ w₁ w₂ w₃ := by
  have hv₁ := (onward_moveCalendarItem locked item isTask r w₀ receipt w₁ hmove hv).1
  obtain ⟨hv₂, hforward⟩ := hrun hv₁
  obtain ⟨inverse, e, task, w, hfind, he, htask, hversion, hlink, htaskVersion, hactive, hguard, rfl, rfl⟩ :=
    undoCalendarMove_ok h
  obtain rfl : inverse = receipt :=
    receipt_eq hv₁ hmove hforward (List.mem_of_find?_eq_some hfind) (by simpa using List.find?_some hfind)
  obtain ⟨e₀, e₁, he₀, he₁, hstarts, hends, htask₀, hlink₁, hversion₁, -, htaskVersion₁, hexpires, hguard₀, htimes⟩ :=
    moved hv hmove
  obtain ⟨hmem, hid⟩ := event?_mem he
  have hback := event?_moveEvent hv₂.db hmem inverse.startsAt inverse.endsAt
    (inverse.taskId.map fun id => (id, inverse.taskStartsAt, inverse.taskEndsAt))
  rw [hid] at hguard
  refine ⟨hexpires ▸ hactive, hguard.trans hguard₀, ?_, ?_, ?_⟩
  · refine ⟨e₀, e₁, e, he₀, he₁, he, hversion.trans hversion₁.symm, hlink.trans (htask₀.trans hlink₁.symm), ?_, ?_, ?_⟩
    · rw [htaskVersion₁, ← htaskVersion]
      rcases htask with ⟨hnone, rfl⟩ | ⟨id, t, hsome, ht, rfl⟩
      · simp [taskOf, hnone]
      · simp [taskOf, hsome, ht]
    · rw [← hstarts, ← hends, ← hid]
      exact hback
    · intro t ht
      obtain ⟨t₀, ht₀, hs, hend⟩ := htimes t ht
      rcases htask with ⟨hnone, -⟩ | ⟨id, t₂, hsome, ht₂, -⟩
      · rw [hlink, htask₀, ht] at hnone
        cases hnone
      · obtain rfl : id = t := Option.some.inj (hsome.symm.trans (hlink.trans (htask₀.trans ht)))
        have hafter := task?_moveEvent w₂.db e inverse.startsAt inverse.endsAt id inverse.taskStartsAt inverse.taskEndsAt
        rw [ht₂] at hafter
        have hinverse : inverse.taskId = some id := htask₀.trans ht
        refine ⟨t₀, Task.reschedule inverse.taskStartsAt inverse.taskEndsAt w₂.db.now t₂, ht₀, ?_, hs, hend⟩
        show (moveEvent e inverse.startsAt inverse.endsAt
          (inverse.taskId.map fun id => (id, inverse.taskStartsAt, inverse.taskEndsAt)) w₂.db).task? id = _
        rw [hinverse]
        exact hafter
  · intro m hm hc x hx hg
    rw [← hid] at hx hc
    obtain rfl := Option.some.inj (hback.symm.trans hx)
    have hgoogle : w₂.db.OfGoogle e.calendarId := by
      obtain ⟨c, hmemc, hcs⟩ := hg
      exact ⟨c, by rwa [← moveEvent_calendars], hcs⟩
    exact dirty_moveEvent hv₂.db hmem _ _ _ hgoogle hm hc
  · intro m hm hmid
    have hdeleted := (mem_delete.1 (mem_delete.1 hm).1).2
    simp [hmid] at hdeleted

/-- A later move of the same item puts the receipt out of date for good. -/
theorem superseded {locked isTask locked' isTask' locked'' : Bool} {item item' : Uuid} {r r' : MoveCalendarItemRequest}
    {receipt later : CalendarMoveUndo} {w₀ w₁ wₐ wᵦ w₂ w₃ : Workspace} (hv : w₀.MovesValid)
    (hmove : moveCalendarItem locked item isTask r w₀ = .ok (receipt, w₁)) (hrun : w₁.Onward wₐ)
    (hmove' : moveCalendarItem locked' item' isTask' r' wₐ = .ok (later, wᵦ))
    (hitem : later.eventId = receipt.eventId ∨ ∃ t, later.taskId = some t ∧ receipt.taskId = some t)
    (hrun' : wᵦ.Onward w₂) : undoCalendarMove locked'' receipt.id w₂ ≠ .ok ((), w₃) := by
  intro h
  have hv₁ := (onward_moveCalendarItem locked item isTask r w₀ receipt w₁ hmove hv).1
  obtain ⟨hvₐ, hforward⟩ := hrun hv₁
  obtain ⟨hvᵦ, hmoved⟩ := onward_moveCalendarItem locked' item' isTask' r' wₐ later wᵦ hmove' hvₐ
  obtain ⟨hv₂, hforward'⟩ := hrun' hvᵦ
  obtain ⟨inverse, e₂, task, w, hfind, he₂, -, hversion, -, -, -, -, -, -⟩ := undoCalendarMove_ok h
  have hmem₂ := List.mem_of_find?_eq_some hfind
  obtain rfl : inverse = receipt :=
    receipt_eq hv₁ hmove (hforward.trans hv₁ hvₐ (hmoved.trans hvₐ hvᵦ hforward')) hmem₂ (by simpa using List.find?_some hfind)
  -- the receipt has been there all the time, and so has its event
  have husedₐ : inverse.id < wₐ.db.nextId := (hv₁.moves inverse (mem_of_moved hmove).1).1.trans_le hforward.nextId
  have hmemᵦ := hforward'.old hmem₂ (husedₐ.trans_le hmoved.nextId)
  have hmemₐ := hmoved.old hmemᵦ husedₐ
  obtain ⟨-, eₐ, heₐ, hidₐ, hlinkₐ, hversionₐ⟩ := hvₐ.moves inverse hmemₐ
  obtain ⟨x₀, x₁, hx₀, hx₁, -, -, htask, -, hversion₁, hlt, -⟩ := moved hvₐ hmove'
  obtain ⟨hx₀mem, hx₀id⟩ := event?_mem hx₀
  have hsame : x₀ = eₐ := by
    rcases hitem with hevent | ⟨t, hlater, hreceipt⟩
    · exact hvₐ.event_eq hx₀mem heₐ (hx₀id.trans (hevent.trans hidₐ.symm))
    · exact hvₐ.db.eventTasks.eq hx₀mem heₐ (htask ▸ hlater) (hlinkₐ.trans hreceipt)
  obtain ⟨hx₁mem, hx₁id⟩ := event?_mem hx₁
  obtain ⟨he₂mem, he₂id⟩ := event?_mem he₂
  have hx₁event : x₁.id = inverse.eventId := by rw [hx₁id, ← hx₀id, hsame, hidₐ]
  have haged := hforward'.aged inverse hmem₂ hmemᵦ x₁ hx₁mem hx₁event e₂ he₂mem he₂id
  rw [hsame] at hlt
  omega

theorem undo_fails {locked : Bool} {receipt : Uuid} (h : ∀ w', undoCalendarMove locked receipt w ≠ .ok ((), w')) :
    ∃ error, undoCalendarMove locked receipt w = .error error := by
  cases hu : undoCalendarMove locked receipt w with
  | error error => exact ⟨error, rfl⟩
  | ok p => exact absurd hu (h p.2)

end Workspace

end Prosepect
