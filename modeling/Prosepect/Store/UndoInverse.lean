/-
An undo right after a deletion gives back what the deletion took: the task, its event, notes, file
links, focus rows, successor and mapping, up to the versions of the rows that were written again.

`google_tasks_sync.rs`: meanwhile the Google Tasks link of the task is left alone.
-/
import Prosepect.GoogleTasks.LinkRuns
import Prosepect.Store.UndoGuards

namespace Prosepect

open Resumption Table Time GoogleTasks

namespace Store

/-! ## Rows that are written again -/

def renewedTask (now : DateTime) (t : TaskRow) : TaskRow := { t with version := t.version + 1, updatedAt := now }
def renewedEvent (now : DateTime) (e : CalendarEvent) : CalendarEvent := { e with version := e.version + 1, updatedAt := now }
def renewedNote (now : DateTime) (n : Note) : Note := { n with version := n.version + 1, updatedAt := now }

/-- The mapping of an event, under the fingerprint of the event as it is. -/
def refingerprinted (event : Option CalendarEvent) (m : Mapping) : Mapping :=
  { m with baseFingerprint := event.map fun e => localFingerprint e.toLocalEvent }

/-- The workspace `w` is `w₀` again, but for the versions of the task, of its event, notes and
successor, which were written at `now`. -/
structure Restored (validated : Bool) (task : Uuid) (now : DateTime) (w₀ w : Workspace) : Prop where
  tasks : w.db.tasks.Perm (update (fun t => t.id == task || t.recurrenceSourceId == some task) (renewedTask now) w₀.db.tasks)
  events : w.db.events.Perm (update (·.linkedTaskId == some task) (renewedEvent now) w₀.db.events)
  notes : w.notes.Perm (update (Workspace.goesWith task (w₀.db.taskEvent? task)) (renewedNote now) w₀.notes)
  files : w.files = w₀.files
  focus : w.focus.Perm w₀.focus
  mappings : w.db.mappings = update (fun m => (w₀.db.taskEvent? task).any fun e => m.canonicalEventId == some e.id)
    (refingerprinted (w₀.db.taskEvent? task)) w₀.db.mappings
  fingerprint : validated = false → w.db.mappings = w₀.db.mappings
  receipts : w.db.undos = w₀.db.undos ∧ w.snapshots = w₀.snapshots

section Restore

variable {validated : Bool} {task : Uuid} {receipt : TaskDeleteUndo} {s : Snapshot} {w₀ w₁ w : Workspace}
  (h : Deleted validated task receipt s w₀ w₁) (hd : w₀.Declared)

include h hd

/-! ## The undo is possible -/

theorem Deleted.successor_left {t : TaskRow} (ht : t ∈ s.successors) (hne : t.id ≠ task) :
    w₁.db.task? t.id = some { t with recurrenceSourceId := none } := by
  obtain ⟨hmem, hsource⟩ := (h.mem_successors hd).1 ht
  rw [h.task?_other (hd.task?_eq_some.2 ⟨hmem, rfl⟩) hne, if_pos (by simpa using hsource)]
  rfl

/-- The task depends on no task of which it is the source. -/
def Unrelated (task : Uuid) (w₀ : Workspace) : Prop :=
  ∀ row id t, w₀.db.task? task = some row → row.parentTaskId = some id ∨ row.recurrenceSourceId = some id →
    w₀.db.task? id = some t → t.recurrenceSourceId ≠ some task

variable (hu : Unrelated task w₀)

include hu

theorem Deleted.successor_ne {t : TaskRow} (ht : t ∈ s.successors) : t.id ≠ task := by
  rintro rfl
  obtain ⟨hmem, hsource⟩ := (h.mem_successors hd).1 ht
  have hrow := hd.task?_eq_some.2 ⟨hmem, rfl⟩
  exact hu t t.id t hrow (.inr hsource) hrow hsource

theorem Deleted.asLeft : AsLeft receipt.expiresAt s w₁ where
  projects := by
    intro p hp
    obtain ⟨id, hid⟩ := h.taken.projects p hp
    have hpid : p.id = id := by simpa using List.find?_some hid
    rw [h.gone.projects, hpid, hid]
  tasks := by
    intro t ht
    obtain ⟨id, hid, hfound⟩ := h.taken.dependencies t ht
    obtain ⟨hmem, rfl⟩ := hd.task?_eq_some.1 hfound
    have hsource := hu s.task t.id t h.row hid hfound
    have hne : t.id ≠ task := by
      rintro rfl
      rcases hid with hparent | hself
      · exact h.leaf s.task (hd.task?_eq_some.1 h.row).1 hparent
      · exact hu s.task t.id s.task h.row (.inr hself) h.row hself
    rw [h.task?_other hfound hne, if_neg (by simpa using hsource)]
  calendar := by
    intro g hg
    have hguarded : Guarded s.event s.calendar s.googleAccount w₀ := h.taken.guarded
    cases he : s.event with
    | none =>
      rw [he, hg] at hguarded
      cases hguarded.1
    | some e =>
      obtain ⟨c, g', -, hg', hid, hguard, -⟩ := h.guard_left hd ((h.event_eq hd).symm.trans he)
      obtain rfl : g = g' := Option.some.inj (hg.symm.trans hg')
      unfold guardedCalendar at hguard
      rw [Option.map_eq_some_iff, ← hid] at hguard
      exact hguard
  successors := fun t ht => h.successor_left hd ht (h.successor_ne hd hu ht)
  mapping := by
    intro m hm
    obtain ⟨hheld, -⟩ := h.held m hm
    obtain ⟨e, m₀, he, hm₀, rfl⟩ := hheld.event
    obtain ⟨m', hm', hid, hfound⟩ := h.mapping_left hd ((h.event_eq hd).symm.trans he) hm₀
    obtain rfl := Option.some.inj (hm.symm.trans hm')
    simp only [stillHeld, Bool.and_eq_true, beq_iff_eq, Bool.not_eq_true', has_eq_false_iff]
    refine ⟨hfound, fun k hk => ?_⟩
    obtain ⟨k₀, hk₀, hof, hstatus⟩ := h.conflicts k hk
    by_cases hkm : k.mappingId = m₀.id
    · have hdecided := hheld.decided k₀ hk₀ (hof.trans hkm)
      rw [hstatus] at hdecided
      simp [hdecided]
    · simp [hkm]
  revisions := by
    intro x hx
    rw [h.revisions] at hx
    obtain ⟨scope, -, rfl⟩ := List.mem_map.1 hx
    rfl
  account := by
    intro a ha
    have hguarded : Guarded s.event s.calendar s.googleAccount w₀ := h.taken.guarded
    cases he : s.event with
    | none =>
      rw [he, ha] at hguarded
      cases hguarded.2
    | some e =>
      obtain ⟨c, g, -, -, -, -, haccount, -⟩ := h.guard_left hd ((h.event_eq hd).symm.trans he)
      rw [ha] at haccount
      split at haccount
      · exact haccount.symm
      · cases haccount
  files := fun f hf => h.file_left hd hf

omit hu

theorem Deleted.mem_notes {n : Note} : n ∈ s.notes ↔ n ∈ w₀.notes ∧ Workspace.goesWith task (w₀.db.taskEvent? task) n = true := by
  have hnotes : s.notes = attachedNotes s.task.id s.event w₀ := h.taken.notes
  rw [hnotes, h.task_id hd, h.event_eq hd]
  unfold attachedNotes
  rw [List.mem_insertionSort, List.mem_filter]
  rfl

/-- The keys of what went are free. -/
theorem Deleted.restorable_left : restorable s w₁ = true := by
  have hevent : ∀ e, s.event = some e → e ∈ w₀.db.events ∧ e.linkedTaskId = some task := by
    intro e he
    exact hd.db.taskEvent?_eq_some.1 ((h.event_eq hd).symm.trans he)
  simp only [restorable, Bool.and_eq_true]
  refine ⟨⟨⟨⟨?_, ?_⟩, ?_⟩, ?_⟩, ?_⟩
  · rw [h.task_id hd, Workspace.task?_gone h.gone.tasks]
    rfl
  · cases hsource : s.task.recurrenceSourceId with
    | none => rfl
    | some id =>
      rw [Option.any_some, Bool.not_eq_true', has_eq_false_iff]
      intro t ht
      rw [h.gone.tasks] at ht
      -- another task with this source would be the task itself
      rcases mem_update.1 ht with ⟨ht, -⟩ | ⟨t₀, -, -, rfl⟩
      · obtain ⟨ht, hne⟩ := mem_delete.1 ht
        rw [beq_eq_false_iff_ne]
        intro hsame
        have heq := hd.taskSources.eq ht (hd.task?_eq_some.1 h.row).1 hsame hsource
        rw [heq, h.task_id hd] at hne
        simp at hne
      · rfl
  · cases he : s.event with
    | none => rfl
    | some e =>
      obtain ⟨hmem, hlink⟩ := hevent e he
      have hnone : w₁.db.event? e.id = none := by
        unfold Db.event?
        rw [h.gone.events, find_delete_none]
        intro x hx hxid
        rw [hd.db.eventIds.eq hx hmem rfl (by simpa using Eq.symm (beq_iff_eq.1 hxid)), hlink, beq_self_eq_true]
      have hfree : w₁.db.taskEvent? task = none := by
        unfold Db.taskEvent?
        rw [h.gone.events, find_delete_none]
        exact fun _ _ hx => hx
      simp [hnone, hlink, hfree]
  · refine List.all_eq_true.2 fun n hn => ?_
    obtain ⟨hmem, hgoes⟩ := (h.mem_notes hd).1 hn
    rw [Bool.not_eq_true', has_eq_false_iff]
    intro x hx
    rw [h.gone.notes] at hx
    obtain ⟨hx, hstays⟩ := mem_delete.1 hx
    rw [beq_eq_false_iff_ne]
    intro hid
    rw [hd.noteIds.eq hx hmem rfl (by rw [hid]), hgoes] at hstays
    cases hstays
  · refine List.all_eq_true.2 fun f hf => ?_
    obtain ⟨hmem, hof⟩ := (h.mem_focus hd).1 hf
    rw [Bool.not_eq_true', has_eq_false_iff]
    intro g hg
    rw [h.gone.focus] at hg
    obtain ⟨hg, hne⟩ := mem_delete.1 hg
    by_contra hclash
    simp only [Bool.not_eq_false, Bool.and_eq_true, Bool.or_eq_true, beq_iff_eq] at hclash
    have heq : g = f := by
      rcases hclash.2 with htask | hposition
      · exact hd.focusTasks.eq hg hmem rfl (by rw [hclash.1, htask])
      · exact hd.focusPositions.eq hg hmem rfl (by rw [hclash.1, hposition])
    rw [heq, hof] at hne
    simp at hne

end Restore

theorem AsLeft.unchanged {expiry : DateTime} {s : Snapshot} {w : Workspace} (h : AsLeft expiry s w) :
    unchanged expiry s w = true := by
  simp only [Store.unchanged, Bool.and_eq_true, List.all_eq_true, beq_iff_eq]
  refine ⟨⟨⟨⟨⟨⟨⟨h.revisions, h.projects⟩, h.tasks⟩, ?_⟩, ?_⟩, h.files⟩, h.successors⟩, ?_⟩
  · cases hc : s.calendar with
    | none => rfl
    | some g =>
      rw [Option.all_some, beq_iff_eq, Option.map_eq_some_iff]
      exact h.calendar g hc
  · cases ha : s.googleAccount with
    | none => rfl
    | some a =>
      rw [Option.all_some, beq_iff_eq]
      exact h.account a ha
  · cases hm : s.mapping with
    | none => rfl
    | some m => exact h.mapping m hm

/-! ## The undo gives everything back -/

/-- The rows of a filter, written again one by one, are the table it was taken from. -/
theorem foldl_restoreFiles {l : List FileRecord} (hids : Unique (fun f : FileRecord => some f.id) l) :
    ∀ (files : List FileRecord) (k : FileRecord → FileRecord), (∀ f ∈ files, f ∈ l) →
      (∀ r, k r = r ∨ k r = Workspace.detachedFile r) → (∀ r ∈ l, r ∉ files → k r = r) →
      files.foldl (fun rows f => Table.update (·.id == f.id)
        (fun row => { row with taskId := f.taskId, eventId := f.eventId, noteId := f.noteId }) rows) (l.map k) = l := by
  intro files
  induction files with
  | nil =>
    intro k _ _ hk
    rw [List.foldl_nil, List.map_congr_left fun r hr => hk r hr (by simp), List.map_id']
  | cons f files ih =>
    intro k hmem hone hk
    have hstep : Table.update (·.id == f.id)
        (fun row => { row with taskId := f.taskId, eventId := f.eventId, noteId := f.noteId }) (l.map k) =
        l.map fun r => if r = f then f else k r := by
      unfold Table.update
      rw [List.map_map]
      refine List.map_congr_left fun r hr => ?_
      have hid : (k r).id = r.id := by
        rcases hone r with h | h
        · rw [h]
        · rw [h, Workspace.detachedFile]
      simp only [Function.comp_apply, hid]
      by_cases hrf : r = f
      · subst hrf
        rw [if_pos rfl, if_pos (beq_self_eq_true _)]
        rcases hone r with h | h
        · rw [h]
        · rw [h, Workspace.detachedFile]
      · have hne : r.id ≠ f.id := fun heq => hrf (hids.eq hr (hmem f List.mem_cons_self) rfl (by rw [heq]))
        rw [if_neg hrf, if_neg (by simpa using hne)]
    rw [List.foldl_cons, hstep]
    refine ih _ (fun g hg => hmem g (List.mem_cons_of_mem _ hg)) (fun r => ?_) fun r hr hnot => ?_
    · by_cases hrf : r = f
      · subst hrf
        simp
      · rw [if_neg hrf]
        exact hone r
    · by_cases hrf : r = f
      · rw [if_pos hrf, hrf]
      · rw [if_neg hrf]
        exact hk r hr (by simp [hrf, hnot])

section Restored

variable {validated : Bool} {task : Uuid} {receipt : TaskDeleteUndo} {s : Snapshot} {w₀ w₁ w : Workspace}
  (h : Deleted validated task receipt s w₀ w₁) (hd : w₀.Declared) (hw : Untouched w₁ w) (hleft : AsLeft receipt.expiresAt s w) (hfree : Vacant s w)

include h hd

theorem Deleted.event_rows : w₀.db.events.filter (·.linkedTaskId == some task) = s.event.toList := by
  cases he : s.event with
  | none =>
    rw [h.event_eq hd] at he
    simpa [Db.taskEvent?] using he
  | some e =>
    obtain ⟨hmem, hlink⟩ := hd.db.taskEvent?_eq_some.1 ((h.event_eq hd).symm.trans he)
    exact hd.db.eventTasks.filter_eq_singleton hmem (by simpa using hlink) (k := task) fun r _ hr => by simpa using hr

theorem Deleted.task_rows : w₀.db.tasks.filter (·.id == task) = [s.task] := by
  obtain ⟨hmem, hid⟩ := hd.task?_eq_some.1 h.row
  exact hd.taskIds.filter_eq_singleton hmem (by simpa using hid) (k := task) fun r _ hr => by simpa using hr

theorem Deleted.restored_fingerprint (hvalidated : validated = false) :
    update (fun m => (w₀.db.taskEvent? task).any fun e => m.canonicalEventId == some e.id)
      (refingerprinted (w₀.db.taskEvent? task)) w₀.db.mappings = w₀.db.mappings := by
  rw [← h.event_eq hd]
  cases he : s.event with
  | none => exact update_of_not fun _ _ => rfl
  | some e =>
    have hsame : ∀ r ∈ w₀.db.mappings, r.canonicalEventId = some e.id → refingerprinted (some e) r = r := by
      intro r hr hcanonical
      cases hm : s.mapping with
      | none =>
        have hno := List.find?_eq_none.1 ((h.unheld hm).1 e he) r hr
        simp [hcanonical] at hno
      | some m =>
        obtain ⟨x, m₀, hx, hm₀, hfingerprint⟩ := (h.held m hm).1.event
        obtain rfl : e = x := Option.some.inj (he.symm.trans hx)
        obtain ⟨hmem, hevent⟩ := hd.db.mappingOf?_eq_some.1 hm₀
        obtain rfl := hd.db.mappingEvents.eq hr hmem hcanonical hevent
        -- the mapping of the snapshot is the row itself
        have hrow : m = r := hd.db.mappingIds.eq (h.fingerprint hvalidated m hm) hr rfl (by rw [hfingerprint])
        rw [hrow] at hfingerprint
        exact hfingerprint.symm
    rw [update_congr (g := fun r => r) fun r hr hp => hsame r hr (by simpa using hp)]
    simp [Table.update]

/-- The ids of the receipts that were there are not that of the new one. -/
theorem Deleted.unissued : (∀ u ∈ w₀.db.undos, (u.id == receipt.id) = false) ∧ ∀ x ∈ w₀.snapshots, (x.1 == receipt.id) = false := by
  rw [h.issued]
  constructor
  · intro u hu
    simpa using (hd.undosUsed u hu).ne
  · intro x hx
    simpa using (hd.snapshotsUsed x hx).ne

theorem Deleted.receipts_left : Table.delete (·.id == receipt.id) w₁.db.undos = w₀.db.undos ∧
    Table.delete (·.1 == receipt.id) w₁.snapshots = w₀.snapshots := by
  obtain ⟨hundos, hsnapshots⟩ := h.unissued hd
  rw [h.undos, h.snapshots]
  unfold Table.delete
  constructor
  · rw [List.filter_append, List.filter_eq_self.2 fun u hu => by simp [hundos u hu]]
    simp
  · rw [List.filter_append, List.filter_eq_self.2 fun x hx => by simp [hsnapshots x hx]]
    simp

theorem Deleted.find_receipt : w₁.db.undos.find? (·.id == receipt.id) = some receipt ∧
    w₁.snapshots.find? (·.1 == receipt.id) = some (receipt.id, s) := by
  obtain ⟨hundos, hsnapshots⟩ := h.unissued hd
  rw [h.undos, h.snapshots]
  constructor
  · rw [List.find?_append, List.find?_eq_none.2 fun u hu => by simp [hundos u hu]]
    simp
  · rw [List.find?_append, List.find?_eq_none.2 fun x hx => by simp [hsnapshots x hx]]
    simp

include hw

theorem Deleted.restored_events : (restoreEvent s (w.db.insertTask (restoredTask w.db.now s.task))).events.Perm
    (update (·.linkedTaskId == some task) (renewedEvent w.db.now) w₀.db.events) := by
  have hevents : (restoreEvent s (w.db.insertTask (restoredTask w.db.now s.task))).events =
      w.db.events ++ s.event.toList.map (renewedEvent w.db.now) := by
    unfold restoreEvent
    cases s.event with
    | none => exact (List.append_nil _).symm
    | some e => rfl
  rw [hevents, hw.events, h.gone.events, ← h.event_rows hd]
  exact delete_append_map_perm _ _ _

theorem Deleted.restored_notes :
    (w.notes ++ s.notes.map (renewedNote w.db.now)).Perm
      (update (Workspace.goesWith task (w₀.db.taskEvent? task)) (renewedNote w.db.now) w₀.notes) := by
  have hnotes : s.notes = attachedNotes s.task.id s.event w₀ := h.taken.notes
  have hsorted : s.notes.Perm (w₀.notes.filter (Workspace.goesWith task (w₀.db.taskEvent? task))) := by
    rw [hnotes, h.task_id hd, h.event_eq hd]
    exact List.perm_insertionSort _ _
  rw [hw.notes, h.gone.notes]
  exact ((hsorted.map _).append_left _).trans (delete_append_map_perm _ _ _)

theorem Deleted.restored_focus : (w.focus ++ s.focus).Perm w₀.focus := by
  have hfocus : s.focus = focusOf s.task.id w₀ := h.taken.focus
  have hsorted : s.focus.Perm (w₀.focus.filter (·.taskId == task)) := by
    rw [hfocus, h.task_id hd]
    exact List.perm_insertionSort _ _
  rw [hw.focus, h.gone.focus]
  exact (hsorted.append_left _).trans (delete_append_perm _ _)

theorem Deleted.restored_files : (restore s w).files = w₀.files := by
  have hfiles : w.files = w₀.files.map fun f =>
      if Workspace.losesParent task (w₀.db.taskEvent? task) w₀.notes f then Workspace.detachedFile f else f := by
    rw [hw.files, h.gone.files]
    rfl
  show s.files.foldl _ w.files = _
  rw [hfiles]
  refine foldl_restoreFiles hd.fileIds s.files _ (fun f hf => ((h.mem_files hd).1 hf).1) (fun r => ?_) fun r hr hnot => ?_
  · split
    · exact .inr rfl
    · exact .inl rfl
  · rw [if_neg fun hloses => hnot ((h.mem_files hd).2 ⟨hr, hloses⟩)]

theorem Deleted.restored_mappings (db : Db) (hdb : db.mappings = w.db.mappings) :
    (restoreMapping s db).mappings = update (fun m => (w₀.db.taskEvent? task).any fun e => m.canonicalEventId == some e.id)
      (refingerprinted (w₀.db.taskEvent? task)) w₀.db.mappings := by
  rw [hw.mappings] at hdb
  rw [← h.event_eq hd]
  unfold restoreMapping
  cases hm : s.mapping with
  | none =>
    obtain ⟨hnone, hsame⟩ := h.unheld hm
    dsimp only
    rw [hdb, hsame, update_of_not]
    intro m hmem
    cases he : s.event with
    | none => rfl
    | some e =>
      have hno := List.find?_eq_none.1 (hnone e he) m hmem
      simpa using hno
  | some m =>
    obtain ⟨hheld, hmappings⟩ := h.held m hm
    obtain ⟨e, m₀, he, hm₀, rfl⟩ := hheld.event
    obtain ⟨hmem, hcanonical⟩ := hd.db.mappingOf?_eq_some.1 hm₀
    obtain ⟨hclean, hlive, hnot, hhold⟩ := hheld.clean
    show Table.update _ _ db.mappings = _
    rw [hdb, hmappings, he]
    unfold Table.update
    rw [List.map_map]
    refine List.map_congr_left fun r hr => ?_
    simp only [Function.comp_apply, Option.any_some]
    by_cases hrm : r = m₀
    · -- the mapping of the event is as it was, under its fingerprint
      subst hrm
      simp only [beq_self_eq_true, if_true, hcanonical, heldRow, refingerprinted, Option.map_some]
      simp_all
    · have hid : r.id ≠ m₀.id := fun heq => hrm (hd.db.mappingIds.eq hr hmem rfl (by rw [heq]))
      have hevent : r.canonicalEventId ≠ some e.id := fun heq => hrm (hd.db.mappingEvents.eq hr hmem heq hcanonical)
      simp [hid, hevent]

include hleft hfree

theorem Deleted.restored_tasks : (relinkSuccessors s (restoreEvent s (w.db.insertTask (restoredTask w.db.now s.task)))).tasks.Perm
    (update (fun t => t.id == task || t.recurrenceSourceId == some task) (renewedTask w.db.now) w₀.db.tasks) := by
  have hinserted : (restoreEvent s (w.db.insertTask (restoredTask w.db.now s.task))).tasks =
      w.db.tasks ++ [renewedTask w.db.now s.task] := by
    unfold restoreEvent
    split <;> rfl
  have hnow : (restoreEvent s (w.db.insertTask (restoredTask w.db.now s.task))).now = w.db.now := by
    unfold restoreEvent
    split <;> rfl
  have hrelinked : (relinkSuccessors s (restoreEvent s (w.db.insertTask (restoredTask w.db.now s.task)))).tasks =
      update (·.recurrenceSourceId == some task) (renewedTask w.db.now) (delete (·.id == task) w₀.db.tasks) ++
        [renewedTask w.db.now s.task] := by
    have hsingle : s.successors.length ≤ 1 := h.taken.single
    have hmem := fun t => h.mem_successors hd (t := t)
    unfold relinkSuccessors
    cases hsucc : s.successors with
    | nil =>
      rw [hsucc] at hmem
      have hnone : ∀ t ∈ delete (·.id == task) w₀.db.tasks, (t.recurrenceSourceId == some task) = false := by
        intro t ht
        have hno := (hmem t).not.1 (by simp)
        simpa [(mem_delete.1 ht).1] using hno
      rw [List.foldl_nil, hinserted, hw.tasks, h.gone.tasks, update_of_not hnone, update_of_not hnone]
    | cons t rest =>
      obtain rfl : rest = [] := by
        rw [hsucc, List.length_cons] at hsingle
        exact List.eq_nil_of_length_eq_zero (by omega)
      rw [hsucc] at hmem
      obtain ⟨htmem, htsource⟩ := (hmem t).1 (by simp)
      have hleft' := hleft.successors t (by rw [hsucc]; exact List.mem_singleton_self t)
      have hother := hfree.task _ (task?_mem hleft').1
      have htne : t.id ≠ s.task.id := hother
      show Table.update _ _ (restoreEvent s (w.db.insertTask (restoredTask w.db.now s.task))).tasks = _
      rw [hinserted, hw.tasks, h.gone.tasks, hnow]
      unfold Table.update
      rw [List.map_append, List.map_map]
      congr 1
      · refine List.map_congr_left fun r hr => ?_
        by_cases hrt : r = t
        · subst hrt
          simp [htsource, Workspace.detachedTask, renewedTask, h.task_id hd]
        · have hid : r.id ≠ t.id := fun heq => hrt (hd.taskIds.eq (mem_delete.1 hr).1 htmem rfl (by rw [heq]))
          have hsource : r.recurrenceSourceId ≠ some task := fun heq =>
            hrt (List.mem_singleton.1 ((hmem r).2 ⟨(mem_delete.1 hr).1, heq⟩))
          simp [hid, hsource]
      · simp [renewedTask, htne.symm]
  rw [hrelinked]
  have hback := (delete_append_perm (·.id == task) w₀.db.tasks).map fun t =>
    if t.id == task || t.recurrenceSourceId == some task then renewedTask w.db.now t else t
  rw [List.map_append, h.task_rows hd] at hback
  refine List.Perm.trans (List.Perm.of_eq ?_) hback
  congr 1
  · refine List.map_congr_left fun t ht => ?_
    rw [(mem_delete.1 ht).2, Bool.false_or]
  · simp [h.task_id hd]

theorem Deleted.restored : Restored validated task w.db.now w₀ { restore s w with
    db := (restore s w).db.deleteUndos (·.id == receipt.id)
    snapshots := Table.delete (·.1 == receipt.id) (restore s w).snapshots } := by
  obtain ⟨tasks, hrelinked⟩ := relinkSuccessors_eq s (restoreEvent s (w.db.insertTask (restoredTask w.db.now s.task)))
  have hmiddle : (relinkSuccessors s (restoreEvent s (w.db.insertTask (restoredTask w.db.now s.task)))).mappings =
      w.db.mappings := by
    rw [hrelinked]
    unfold restoreEvent
    split <;> rfl
  have hmappings := h.restored_mappings hd hw _ hmiddle
  have htasks := h.restored_tasks hd hw hleft hfree
  rw [← (beside_restoreMapping s _).tasks] at htasks
  have hevents : (restoreDb s w.db).events =
      (restoreEvent s (w.db.insertTask (restoredTask w.db.now s.task))).events := by
    unfold restoreDb
    have hlast : ∀ db : Db, (restoreMapping s db).events = db.events := by
      intro db
      unfold restoreMapping
      split <;> rfl
    rw [hlast, hrelinked]
  have hundos : (restoreDb s w.db).undos = w.db.undos := by
    unfold restoreDb
    rw [(beside_restoreMapping s _).undos, hrelinked]
    exact (beside_restoreEvent s _).undos
  refine ⟨htasks, ?_, h.restored_notes hd hw, h.restored_files hd hw, h.restored_focus hd hw, hmappings, fun hvalidated => ?_, ?_⟩
  · show (restoreDb s w.db).events.Perm _
    rw [hevents]
    exact h.restored_events hd hw
  · exact hmappings.trans (h.restored_fingerprint hd hvalidated)
  · obtain ⟨hleftUndos, hleftSnapshots⟩ := h.receipts_left hd
    constructor
    · show Table.delete _ (restoreDb s w.db).undos = _
      rw [hundos, hw.undos, hleftUndos]
    · show Table.delete _ w.snapshots = _
      rw [hw.snapshots, hleftSnapshots]

end Restored

/-! ## One undo -/

/-- An attempt that succeeds is the undo at the workspace where it commits. -/
theorem attemptUndo_ok {locked : Bool} {validation : Except AppError Unit} {receipt : Uuid} {read w w' : Workspace}
    (h : attemptUndo locked validation receipt read w = (.ok (), w')) : ∃ s expiry,
      prepareUndo receipt read = .ok ((s, expiry), read) ∧ consumeUndo locked receipt s expiry w = .ok ((), w') := by
  unfold attemptUndo at h
  cases hp : prepareUndo receipt read with
  | error e =>
    simp only [hp] at h
    cases h
  | ok x =>
    obtain ⟨⟨s, expiry⟩, v⟩ := x
    obtain rfl := (prepareUndo_ok hp).1
    simp only [hp] at h
    split at h
    · cases h
    · unfold Tx.commit at h
      cases hc : consumeUndo locked receipt s expiry w with
      | error e =>
        simp only [hc] at h
        cases h
      | ok y =>
        simp only [hc, Prod.mk.injEq] at h
        exact ⟨s, expiry, rfl, by rw [hc, ← h.2]⟩

theorem attemptUndo_cases (locked : Bool) (validation : Except AppError Unit) (receipt : Uuid) (read w : Workspace) :
    (∃ e, attemptUndo locked validation receipt read w = (.error e, w)) ∨
      ∃ w', attemptUndo locked validation receipt read w = (.ok (), w') := by
  unfold attemptUndo
  split
  · exact .inl ⟨_, rfl⟩
  · split
    · exact .inl ⟨_, rfl⟩
    · unfold Tx.commit
      split
      · exact .inr ⟨_, rfl⟩
      · exact .inl ⟨_, rfl⟩

/-- A transaction that commits is one that a single step could have made. -/
theorem consumeUndo_undone {locked : Bool} {receipt : Uuid} {s : Snapshot} {expiry : DateTime} {w w' : Workspace}
    (h : consumeUndo locked receipt s expiry w = .ok ((), w')) (hexpiry : ∀ u ∈ w.db.undos, u.id = receipt → u.expiresAt = expiry) :
    undoTaskDelete locked (.ok ()) receipt w = .ok ((), w') := by
  unfold consumeUndo at h
  unfold undoTaskDelete
  rw [Tx.read_bind_run] at h ⊢
  cases hu : w.db.undos.find? (·.id == receipt) with
  | none =>
    simp only [hu] at h
    exact (Workspace.onDb_raise_ok h).elim
  | some u =>
    have hsame : u.expiresAt = expiry := hexpiry u (List.mem_of_find?_eq_some hu) (by simpa using List.find?_some hu)
    cases hs : w.snapshots.find? (·.1 == receipt) with
    | none =>
      simp only [hu, hs] at h
      exact (Workspace.onDb_raise_ok h).elim
    | some x =>
      simp only [hu, hs] at h ⊢
      split at h
      · exact (Workspace.onDb_raise_ok h).elim
      · rename_i hok
        simp only [not_or, Bool.not_eq_false, not_not, Bool.not_eq_true] at hok
        obtain ⟨hlocked, hactive, rfl, hleft, hfree⟩ := hok
        rw [if_neg hactive]
        simp only [ite_self, Tx.ofExcept_ok, Tx.pure_bind_run, hlocked, hsame, hleft, hfree]
        exact h

section Attempts

variable {validated : Bool} {task : Uuid} {receipt : TaskDeleteUndo} {s : Snapshot} {w₀ w₁ w : Workspace}
  (h : Deleted validated task receipt s w₀ w₁) (hd : w₀.Declared)

include h hd

theorem Deleted.snapshot_only {x : Snapshot} (hx : (receipt.id, x) ∈ w₁.snapshots) : x = s := by
  rw [h.snapshots] at hx
  rcases List.mem_append.1 hx with hx | hx
  · have hno := (h.unissued hd).2 _ hx
    simp at hno
  · exact (Prod.mk.inj (List.mem_singleton.1 hx)).2

theorem Deleted.receipt_only {u : TaskDeleteUndo} (hu : u ∈ w₁.db.undos) (hid : u.id = receipt.id) : u = receipt := by
  rw [h.undos] at hu
  rcases List.mem_append.1 hu with hu | hu
  · have hno := (h.unissued hd).1 u hu
    simp [hid] at hno
  · exact List.mem_singleton.1 hu

/-- Nothing stands in the way of an undo before anything else changes. -/
theorem Deleted.attempt_succeeds (hu : Unrelated task w₀) {read : Workspace} (hread : Untouched w₁ read)
    (hw : Untouched read w) (hactive : read.db.now < receipt.expiresAt) (hactive' : w.db.now < receipt.expiresAt) :
    (attemptUndo false (.ok ()) receipt.id read w).1 = .ok () := by
  obtain ⟨hreceipt, hsnapshot⟩ := h.find_receipt hd
  have hw₁ := hread.trans hw
  have hprepare : prepareUndo receipt.id read = .ok ((s, receipt.expiresAt), read) := by
    unfold prepareUndo
    rw [Tx.read_bind_run, hread.undos, hread.snapshots, hreceipt, hsnapshot]
    simp only
    rw [if_neg (not_le_of_gt hactive)]
    rfl
  have hunchanged : unchanged receipt.expiresAt s w = true := by
    rw [hw₁.unchanged]
    exact (h.asLeft hd hu).unchanged
  have hrestorable : restorable s w = true := by
    rw [hw₁.restorable]
    exact h.restorable_left hd
  have hconsume : ∃ v, consumeUndo false receipt.id s receipt.expiresAt w = .ok ((), v) := by
    unfold consumeUndo
    rw [Tx.read_bind_run, hw₁.undos, hw₁.snapshots, hreceipt, hsnapshot]
    simp only
    rw [if_neg (by simp [hactive', hunchanged, hrestorable])]
    exact ⟨_, rfl⟩
  obtain ⟨v, hconsume⟩ := hconsume
  unfold attemptUndo
  simp only [hprepare, ite_self]
  unfold Tx.commit
  rw [hconsume]

/-- The undo gives back all that the deletion took. -/
theorem Deleted.attempt_restores {locked : Bool} {validation : Except AppError Unit} {read w' : Workspace}
    (hread : Untouched w₁ read) (hw : Untouched read w)
    (hattempt : attemptUndo locked validation receipt.id read w = (.ok (), w')) :
    Restored validated task w.db.now w₀ w' := by
  obtain ⟨snapshot, expiry, hprepare, hconsume⟩ := attemptUndo_ok hattempt
  obtain ⟨-, ⟨u, hu, hid, rfl⟩, -⟩ := prepareUndo_ok hprepare
  obtain ⟨-, -, hsnapshot, hleft, hfree, rfl⟩ := consumeUndo_ok hconsume
  have hw₁ := hread.trans hw
  obtain rfl := h.receipt_only hd (hread.undos ▸ hu) hid
  obtain rfl := h.snapshot_only hd (hw₁.snapshots ▸ hsnapshot)
  exact h.restored hd hw₁ hleft hfree

/-- Of all attempts one succeeds, at most. -/
theorem Deleted.attempt_once {env : Env} (hv : w₁.MovesValid) {locked : Bool} {validation : Except AppError Unit}
    {read w' : Workspace} (hread : Reaches env w₁ read) (hw : Reaches env read w)
    (hattempt : attemptUndo locked validation receipt.id read w = (.ok (), w')) {read' w'' : Workspace}
    (hw' : Reaches env w' w'') (locked' : Bool) (validation' : Except AppError Unit) :
    ∃ e, attemptUndo locked' validation' receipt.id read' w'' = (.error e, w'') := by
  obtain ⟨snapshot, expiry, hprepare, hconsume⟩ := attemptUndo_ok hattempt
  obtain ⟨-, ⟨u, hu, hid, hexpiry⟩, -⟩ := prepareUndo_ok hprepare
  obtain rfl := h.receipt_eq hd hv hread hu hid
  have hrun := hread.trans hw
  have hundone := consumeUndo_undone hconsume fun x hx hxid => by
    rw [h.receipt_eq hd hv hrun hx hxid]
    exact hexpiry
  obtain ⟨hvw, hnext⟩ := Workspace.onward_run hrun hv
  obtain ⟨hv', hnext'⟩ := Workspace.onward_undoTaskDelete locked (.ok ()) u.id w () w' hundone hvw
  have hgone : ∀ x ∈ w'.db.undos, x.id ≠ u.id := by
    obtain ⟨-, -, -, -, -, rfl⟩ := consumeUndo_ok hconsume
    intro x hx
    simpa using (mem_delete.1 hx).2
  rcases attemptUndo_cases locked' validation' u.id read' w'' with hfails | ⟨w₃, hagain⟩
  · exact hfails
  · -- a second one would find the receipt
    obtain ⟨s', expiry', -, hconsume'⟩ := attemptUndo_ok hagain
    obtain ⟨-, ⟨x, hx, hxid, -⟩, -⟩ := consumeUndo_ok hconsume'
    have hused : u.id < w'.db.nextId := h.used.trans_le (hnext.nextId.trans hnext'.nextId)
    rcases Workspace.issuing_run hv' hw' x hx with hold | hnew
    · exact absurd hxid (hgone x hold)
    · rw [hxid] at hnew
      exact absurd hused (Nat.not_lt_of_le hnew)

/-- The Google Tasks link of the task waits for the undo. -/
theorem Deleted.attempt_left {G : Type} {env : LinkEnv G} (hv : w₁.MovesValid) {links : List GoogleTaskLink} {google : G}
    {σ : LinkState G} (hu : Unique (fun l => some l.id) links) (hrun : LinkRun env ⟨w₁, links, google⟩ σ) {locked : Bool}
    {validation : Except AppError Unit} {read w' : Workspace}
    (hattempt : attemptUndo locked validation receipt.id read σ.w = (.ok (), w')) : Left task ⟨w₁, links, google⟩ σ := by
  obtain ⟨s', expiry, -, hconsume⟩ := attemptUndo_ok hattempt
  obtain ⟨-, ⟨u, hu', hid, hactive⟩, -⟩ := consumeUndo_ok hconsume
  obtain rfl : u = receipt := by
    rcases hrun.issuing hv u hu' with hold | hnew
    · exact h.receipt_only hd hold hid
    · rw [hid] at hnew
      exact absurd h.used (Nat.not_lt_of_le hnew)
  have hleft := hrun.left hv hu h.used ⟨hu', hactive⟩
  rwa [show u.taskId = task by rw [h.issued]] at hleft

end Attempts

end Store

end Prosepect
