/-
The limits of `task_delete_undos`: at most 100 receipts of a user that have not expired, 4 MiB for their
snapshots and 1 MiB for each. A deletion tests them before the triggers count; the 512 octets it
spares are enough for what the second write of the snapshot adds.
-/
import Prosepect.Store.Declared
import Prosepect.Store.Receipts
import Prosepect.Store.SnapshotText

namespace Prosepect

open Resumption Table Time Store

namespace Workspace

variable {w w' : Workspace}

/-! ## How often a deletion counts -/

theorem settle_revisions_le (db : Db) (scope : GuardScope) :
    (w.settle db).revisions scope ≤ w.revisions scope + calendarChanges w.db db +
      (w.focus.filter fun f => !(db.task? f.taskId).isSome).length := by
  have hle := List.length_filter_le (fun f : FocusTask => decide (scope = .focus f.focusDate))
    (w.focus.filter fun f => !(db.task? f.taskId).isSome)
  show bumpFocus (w.focus.filter fun f => !(db.task? f.taskId).isSome) _ scope ≤ _
  rw [bumpFocus_apply, bump_apply]
  split <;> omega

theorem settle_focus {db : Db} {f : FocusTask} (hf : f ∈ (w.settle db).focus) : f ∈ w.focus ∧ (db.task? f.taskId).isSome := by
  obtain ⟨hmem, halive⟩ := mem_delete.1 hf
  exact ⟨hmem, by simpa using halive⟩

theorem calendarChanges_of_eq {db db' : Db} (hv : db.Valid) (h : db'.calendars = db.calendars) : calendarChanges db db' = 0 := by
  rw [← calendarChanges_self hv]
  unfold calendarChanges Db.calendar?
  rw [h]

/-- Between the two reads of the revisions only the focus rows of the task count, each for one date. -/
theorem deletion_counts (hv : w.db.Valid) (row : TaskRow) (held : Option (Mapping × Fingerprint)) (scope : GuardScope) :
    (((w.settle w.db).settle w.db).settle ((heldBack row held w.db).deleteTask row.id)).revisions scope ≤
      (w.settle w.db).revisions scope + (focusOf row.id (w.settle w.db)).length := by
  obtain ⟨-, htasks, -, hcalendars, -⟩ := heldBack_tables row held w.db
  have hdropped : ((heldBack row held w.db).deleteTask row.id).tasks =
      update (·.recurrenceSourceId == some row.id) detachedTask (delete (·.id == row.id) w.db.tasks) := by
    rw [← htasks]
    rfl
  have hsame : calendarChanges (w.settle w.db).db w.db = 0 := calendarChanges_of_eq hv rfl
  have hkept : calendarChanges ((w.settle w.db).settle w.db).db ((heldBack row held w.db).deleteTask row.id) = 0 :=
    calendarChanges_of_eq hv hcalendars
  have hread := settle_revisions_le (w := w.settle w.db) w.db scope
  have hdeleted := settle_revisions_le (w := (w.settle w.db).settle w.db) ((heldBack row held w.db).deleteTask row.id) scope
  -- the rows of other tasks have their tasks before and after
  have hnone : ((w.settle w.db).focus.filter fun f => !(w.db.task? f.taskId).isSome) = [] := by
    refine List.filter_eq_nil_iff.2 fun f hf => ?_
    simp [(settle_focus hf).2]
  have hown : ((((w.settle w.db).settle w.db).focus).filter fun f =>
      !(((heldBack row held w.db).deleteTask row.id).task? f.taskId).isSome).length ≤
      (focusOf row.id (w.settle w.db)).length := by
    rw [focusOf, List.length_insertionSort]
    calc _ = (((w.settle w.db).settle w.db).focus.filter (·.taskId == row.id)).length := by
            refine congrArg List.length (List.filter_congr fun f hf => ?_)
            rw [task?_isSome_dropped hdropped (settle_focus hf).2, Bool.not_not]
      _ ≤ ((w.settle w.db).focus.filter (·.taskId == row.id)).length :=
          (List.filter_sublist.filter _).length_le
  rw [hsame, hnone, List.length_nil] at hread
  rw [hkept] at hdeleted
  omega

end Workspace

namespace Store

variable {w w' : Workspace}

/-! ## What a deletion raises -/

/-- The CHECK constraint on `snapshot` is violated. -/
def snapshotTooLarge : AppError := .database (.check "task_delete_undos_snapshot_check")

theorem errs_onDb {α : Type} {P : AppError → Prop} {t : StoreTx α} (h : Tx.Errs P t) : Tx.Errs P (Workspace.onDb t) := by
  intro w e he
  unfold Workspace.onDb at he
  cases ht : t w.db with
  | ok p =>
    rw [ht] at he
    cases he
  | error e' =>
    rw [ht] at he
    cases he
    exact h w.db _ ht

theorem errs_changed {α : Type} : Tx.Errs (· ≠ snapshotTooLarge) (changed : StoreTx α) := .raise nofun

theorem errs_capacity {α : Type} : Tx.Errs (· ≠ snapshotTooLarge) (capacity : StoreTx α) := .raise nofun

theorem errs_googleRefusal {α : Type} : Tx.Errs (· ≠ snapshotTooLarge) (googleRefusal : StoreTx α) := .raise nofun

theorem errs_undoable (locked : Bool) (task : Uuid) (expectedVersion : Int) :
    Tx.Errs (· ≠ snapshotTooLarge) (undoable locked task expectedVersion) := by
  unfold undoable
  refine .ite (fun _ => .raise nofun) fun _ => .ite (fun _ => errs_changed) fun _ => .bind .read fun db => ?_
  split
  · exact .raise nofun
  · refine .ite (fun _ => errs_changed) fun _ => .ite (fun _ => .raise nofun) fun _ => ?_
    exact .ite (fun _ => errs_capacity) fun _ => .pure _

theorem errs_cap {α : Type} (rows : List α) (max : Nat) : Tx.Errs (· ≠ snapshotTooLarge) (cap rows max) := by
  unfold cap
  exact .ite (fun _ => errs_onDb errs_capacity) fun _ => .pure _

theorem errs_dependency {α : Type} (find : Uuid → Option α) (key : Option Uuid) :
    Tx.Errs (· ≠ snapshotTooLarge) (dependency find key) := by
  unfold dependency
  split
  · exact .pure _
  · split
    · exact .pure _
    · exact errs_onDb errs_changed

theorem errs_eventGuards (event : Option CalendarEvent) : Tx.Errs (· ≠ snapshotTooLarge) (eventGuards event) := by
  unfold eventGuards
  split
  · exact .pure _
  · refine .bind .read fun w => ?_
    split
    · exact errs_onDb errs_changed
    · refine .ite (fun _ => ?_) fun _ => .pure _
      exact .ite (fun _ => errs_onDb errs_changed) fun _ => .pure _

theorem errs_takeSnapshot (row : TaskRow) : Tx.Errs (· ≠ snapshotTooLarge) (takeSnapshot row) := by
  unfold takeSnapshot
  refine .bind .read fun w => ?_
  refine .bind (errs_cap _ _) fun _ => .bind (errs_cap _ _) fun _ => .bind (errs_cap _ _) fun _ => .bind (errs_cap _ _) fun _ => ?_
  refine .bind (errs_dependency _ _) fun _ => .bind (errs_dependency _ _) fun _ => ?_
  refine .bind (errs_dependency _ _) fun _ => .bind (errs_dependency _ _) fun _ => ?_
  exact .bind (errs_eventGuards _) fun _ => .pure _

theorem errs_heldMapping (validated : Bool) (event : Option CalendarEvent) :
    Tx.Errs (· ≠ snapshotTooLarge) (heldMapping validated event) := by
  unfold heldMapping
  split
  · exact .pure _
  · refine .bind .read fun db => ?_
    split
    · exact errs_changed
    · exact .ite (fun _ => errs_googleRefusal) fun _ => .pure _
    · refine .ite (fun _ => errs_googleRefusal) fun _ => .ite (fun _ => errs_googleRefusal) fun _ => ?_
      exact .ite (fun _ => .pure _) fun _ => errs_googleRefusal

theorem errs_holdDeletion (row : TaskRow) (mapping : Option (Mapping × Fingerprint)) :
    Tx.Errs (· ≠ snapshotTooLarge) (holdDeletion row mapping) := by
  unfold holdDeletion
  refine .bind .read fun db => .bind (.write _) fun _ => ?_
  split
  · exact .bind (.write _) fun _ => .pure _
  · refine .bind (.write _) fun _ => .bind ?_ fun _ => .bind (.write _) fun _ => .pure _
    unfold insertJob
    exact .bind .read fun _ => .ite (fun _ => errs_changed) fun _ => .write _

/-! ## The size of what a deletion writes -/

theorem checkSnapshot_fits {octets : Snapshot → Nat} {s : Snapshot} (h : octets s ≤ snapshotBytes) :
    checkSnapshot octets s w = .ok ((), w) := by
  unfold checkSnapshot
  rw [if_pos h, Tx.pure_run]

theorem takeSnapshot_focus {row : TaskRow} {s : Snapshot} (h : takeSnapshot row w = .ok (s, w')) : s.focus.length ≤ 32 := by
  obtain ⟨-, htaken⟩ := takeSnapshot_ok h
  unfold takeSnapshot at h
  rw [Tx.read_bind_run] at h
  obtain ⟨_, u, h1, h⟩ := Tx.bind_ok h
  obtain ⟨-, rfl⟩ := cap_ok h1
  obtain ⟨_, u, h2, h⟩ := Tx.bind_ok h
  obtain ⟨-, rfl⟩ := cap_ok h2
  obtain ⟨_, u, h3, -⟩ := Tx.bind_ok h
  rw [htaken.focus]
  exact (cap_ok h3).1

theorem guardScopes_length (focus : List FocusTask) (event : Option CalendarEvent) :
    (guardScopes focus event).length ≤ focus.length + 2 := by
  unfold guardScopes
  rw [List.length_append, List.length_append, List.length_map]
  split <;> split <;> simp only [List.length_nil, List.length_singleton] <;> omega

/-- What the deletion writes, first with the fingerprint of the mapping, then with the revisions too. -/
theorem detached_octets (rows : RowText) (hv : w.db.Valid) {row : TaskRow} {s : Snapshot}
    (h : takeSnapshot row (w.settle w.db) = .ok (s, w')) (held : Option (Mapping × Fingerprint)) :
    rows.octets { s with mapping := held.map fun (m, fingerprint) => { m with baseFingerprint := some fingerprint } } ≤
        rows.octets { s with mapping := held.map (·.1) } + 512 ∧
      rows.octets { s with
        mapping := held.map fun (m, fingerprint) => { m with baseFingerprint := some fingerprint }
        revisions := readRevisions (s.revisions.map (·.1))
          (((w.settle w.db).settle w.db).settle ((heldBack row held w.db).deleteTask row.id)) } ≤
        rows.octets { s with mapping := held.map (·.1) } + 512 := by
  obtain ⟨-, htaken⟩ := takeSnapshot_ok h
  have hfocus := takeSnapshot_focus h
  have hscopes := guardScopes_length s.focus s.event
  have hrevisions : s.revisions = (guardScopes s.focus s.event).map fun scope => (scope, (w.settle w.db).revisions scope) :=
    htaken.revisions
  have hnames : s.revisions.map (·.1) = guardScopes s.focus s.event := by
    rw [hrevisions, List.map_map]
    exact List.map_id _
  have hcounts : ∀ scope ∈ guardScopes s.focus s.event,
      (((w.settle w.db).settle w.db).settle ((heldBack row held w.db).deleteTask row.id)).revisions scope ≤
        (w.settle w.db).revisions scope + 99 := by
    intro scope _
    have hcount := Workspace.deletion_counts hv row held scope
    rw [← htaken.focus] at hcount
    omega
  have hmapping := rows.octets_heldMapping_le held
  have hsame := rows.octets_rewritten s (guardScopes s.focus s.event) hmapping
    fun scope _ => Nat.le_add_right ((w.settle w.db).revisions scope) 99
  have hcounted := rows.octets_rewritten s (guardScopes s.focus s.event) hmapping hcounts
  rw [← hrevisions] at hsame hcounted
  rw [hnames]
  -- 62 octets for a fingerprint, two for each of at most 34 revisions
  constructor
  · exact hsame.trans (by omega)
  · exact hcounted.trans (by omega)

theorem checkSnapshot_bind_error {α : Type} {octets : Snapshot → Nat} {s : Snapshot} {f : Unit → WorkspaceTx α} {e : AppError}
    (h : (checkSnapshot octets s >>= f) w = .error e) (hfits : octets s ≤ snapshotBytes) : f () w = .error e := by
  rwa [Tx.bind_run_ok (checkSnapshot_fits hfits)] at h

/-- A deletion whose snapshot passes the test writes it both times. -/
theorem deleteTaskWithSnapshot_fits (rows : RowText) (hv : w.db.Valid) (locked validated : Bool) (task : Uuid)
    (expectedVersion : Int) :
    deleteTaskWithSnapshot rows.octets locked validated task expectedVersion w ≠ .error snapshotTooLarge := by
  intro h
  have hraised : ¬ snapshotTooLarge ≠ snapshotTooLarge := fun hne => hne rfl
  unfold deleteTaskWithSnapshot at h
  obtain ⟨row, w₁, hrow, h⟩ := Tx.Errs.bind_error (errs_onDb (errs_undoable _ _ _)) hraised h
  obtain ⟨db, hundoable, rfl⟩ := Workspace.onDb_ok hrow
  obtain rfl : db = w.db := (undoable_ok hundoable).1
  obtain ⟨s, u, htaken, h⟩ := Tx.Errs.bind_error (errs_takeSnapshot _) hraised h
  obtain rfl : u = w.settle w.db := (takeSnapshot_ok htaken).1
  obtain ⟨held, u, hheld, h⟩ := Tx.Errs.bind_error (errs_onDb (errs_heldMapping _ _)) hraised h
  obtain ⟨db, hmapping, rfl⟩ := Workspace.onDb_ok hheld
  obtain rfl : db = w.db := (heldMapping_ok hmapping).1
  obtain ⟨hrepaired, hdetached⟩ := detached_octets rows hv htaken held
  rw [Tx.read_bind_run] at h
  split at h
  · exact absurd rfl (errs_onDb errs_capacity _ _ h)
  · rename_i htest
    push Not at htest
    have h := checkSnapshot_bind_error h (hrepaired.trans htest.1)
    obtain ⟨receipt, u, hdelete, h⟩ := Tx.Errs.bind_error (errs_onDb (errs_holdDeletion _ _)) hraised h
    obtain ⟨db, hdeletion, rfl⟩ := Workspace.onDb_ok hdelete
    obtain rfl : db = (heldBack row held w.db).deleteTask row.id := (holdDeletion_ok hdeletion).2
    rw [Tx.read_bind_run] at h
    have h := checkSnapshot_bind_error h (hdetached.trans htest.1)
    cases h

/-- What a deletion leaves is within the limits it tests. -/
theorem deleteTaskWithSnapshot_sizes (rows : RowText) (hv : w.db.Valid) {locked validated : Bool} {task : Uuid}
    {expectedVersion : Int} {receipt : TaskDeleteUndo}
    (h : deleteTaskWithSnapshot rows.octets locked validated task expectedVersion w = .ok (receipt, w')) :
    ∃ s, (w.db.undos.filter fun u => decide (u.expiresAt > w.db.now)).length < 100 ∧ receipt.id = w.db.nextId ∧
      w'.db.undos = w.db.undos ++ [receipt] ∧ w'.snapshots = w.snapshots ++ [(receipt.id, s)] ∧ w'.db.now = w.db.now ∧
      w.db.nextId < w'.db.nextId ∧ rows.octets s ≤ snapshotBytes ∧
      activeBytes rows.octets w + rows.octets s ≤ ownerBytes := by
  unfold deleteTaskWithSnapshot at h
  obtain ⟨row, db₁, hundoable, h⟩ := Workspace.onDb_bind_ok h
  obtain ⟨rfl, -, -, -, -, -, hcount⟩ := undoable_ok hundoable
  obtain ⟨s, u, htaken, h⟩ := Tx.bind_ok h
  obtain rfl : u = w.settle w.db := (takeSnapshot_ok htaken).1
  obtain ⟨held, db₁, hmapping, h⟩ := Workspace.onDb_bind_ok h
  obtain rfl : db₁ = w.db := (heldMapping_ok hmapping).1
  obtain ⟨-, hdetached⟩ := detached_octets rows hv htaken held
  -- the rest only compares sizes
  generalize rows.octets = octets at h hdetached ⊢
  rw [Tx.read_bind_run] at h
  split at h
  · exact (Workspace.onDb_raise_ok h).elim
  · rename_i htest
    push Not at htest
    obtain ⟨hsize, howner⟩ := htest
    obtain ⟨_, u, hcheck, h⟩ := Tx.bind_ok h
    obtain rfl := checkSnapshot_ok hcheck
    obtain ⟨receipt', db₂, hdelete, h⟩ := Workspace.onDb_bind_ok h
    obtain ⟨rfl, rfl⟩ := holdDeletion_ok hdelete
    rw [Tx.read_bind_run] at h
    obtain ⟨_, u, hcheck', h⟩ := Tx.bind_ok h
    obtain rfl := checkSnapshot_ok hcheck'
    cases h
    obtain ⟨hnow, -, -, -, -, -, hundos⟩ := heldBack_tables row held w.db
    refine ⟨_, hcount, ?_, ?_, rfl, ?_, ?_, ?_, ?_⟩
    · rfl
    · exact hundos
    · exact hnow
    · show w.db.nextId < (heldBack row held w.db).nextId
      cases held with
      | none => exact Nat.lt_succ_self _
      | some p => exact Nat.lt_succ_of_lt (Nat.lt_succ_self _)
    · exact hdetached.trans hsize
    · rw [Nat.add_assoc] at howner
      exact (Nat.add_le_add_left hdetached _).trans howner

end Store

/-! ## Runs -/

/-- The limits of the receipts; each has its snapshot. -/
structure WithinLimits (octets : Snapshot → Nat) (w : Workspace) : Prop where
  receipts : (w.db.undos.filter fun u => decide (u.expiresAt > w.db.now)).length ≤ 100
  owner : activeBytes octets w ≤ ownerBytes
  each : ∀ x ∈ w.snapshots, octets x.2 ≤ snapshotBytes
  covered : ∀ u ∈ w.db.undos, ∃ s, (u.id, s) ∈ w.snapshots

/-- What the limits rest on: a fresh id is of no snapshot. -/
structure WithinLimits.Kept (octets : Snapshot → Nat) (w : Workspace) : Prop extends WithinLimits octets w where
  used : ∀ x ∈ w.snapshots, x.1 < w.db.nextId

/-- The clock does not run backwards. -/
def Forwards : Action → Workspace → Prop
  | .tick now, w => w.db.now ≤ now
  | _, _ => True

namespace WithinLimits

variable {octets : Snapshot → Nat} {w w' : Workspace}

/-- Receipts expire or go, and count no more. -/
theorem activeBytes_le (hs : w'.snapshots.Sublist w.snapshots) (hu : w'.db.undos.Sublist w.db.undos)
    (hnow : w.db.now ≤ w'.db.now) : activeBytes octets w' ≤ activeBytes octets w := by
  unfold activeBytes
  refine List.Sublist.sum_le_sum (List.Sublist.map _ ?_) fun _ _ => Nat.zero_le _
  refine (hs.filter _).trans (List.monotone_filter_right _ fun x hx => ?_)
  obtain ⟨u, hmem, hactive⟩ := has_iff.1 hx
  simp only [Bool.and_eq_true, decide_eq_true_eq] at hactive
  exact has_iff.2 ⟨u, hu.subset hmem, by simpa [hactive.1] using hnow.trans_lt hactive.2⟩

theorem Kept.fewer (h : Kept octets w) (hs : w'.snapshots.Sublist w.snapshots) (hu : w'.db.undos.Sublist w.db.undos)
    (hkept : ∀ x ∈ w.snapshots, (∃ u ∈ w'.db.undos, u.id = x.1) → x ∈ w'.snapshots) (hnow : w.db.now ≤ w'.db.now)
    (hn : w.db.nextId ≤ w'.db.nextId) : Kept octets w' where
  receipts := by
    have hactive : (w'.db.undos.filter fun u => decide (u.expiresAt > w'.db.now)).Sublist
        (w.db.undos.filter fun u => decide (u.expiresAt > w.db.now)) := by
      refine (hu.filter _).trans (List.monotone_filter_right _ fun u hlive => ?_)
      simp only [decide_eq_true_eq] at hlive ⊢
      exact hnow.trans_lt hlive
    exact hactive.length_le.trans h.receipts
  owner := (activeBytes_le hs hu hnow).trans h.owner
  each := fun x hx => h.each x (hs.subset hx)
  covered := by
    intro u hmem
    obtain ⟨s, hsnapshot⟩ := h.covered u (hu.subset hmem)
    exact ⟨s, hkept _ hsnapshot ⟨u, hmem, rfl⟩⟩
  used := fun x hx => (h.used x (hs.subset hx)).trans_le hn

/-- A receipt more, under a fresh id, whose snapshot fits. -/
theorem Kept.issue (h : Kept octets w) {receipt : TaskDeleteUndo} {s : Snapshot}
    (hcount : (w.db.undos.filter fun u => decide (u.expiresAt > w.db.now)).length < 100) (hid : receipt.id = w.db.nextId)
    (hundos : w'.db.undos = w.db.undos ++ [receipt]) (hsnapshots : w'.snapshots = w.snapshots ++ [(receipt.id, s)])
    (hnow : w'.db.now = w.db.now) (hn : w.db.nextId < w'.db.nextId) (heach : octets s ≤ snapshotBytes)
    (howner : activeBytes octets w + octets s ≤ ownerBytes) : Kept octets w' where
  receipts := by
    rw [hundos, hnow, List.filter_append, List.length_append]
    have hone := List.length_filter_le (fun u : TaskDeleteUndo => decide (u.expiresAt > w.db.now)) [receipt]
    rw [List.length_singleton] at hone
    omega
  owner := by
    have hold : (w.snapshots.filter fun x => Table.has (fun u => u.id == x.1 && decide (u.expiresAt > w.db.now))
        (w.db.undos ++ [receipt])) =
        w.snapshots.filter fun x => Table.has (fun u => u.id == x.1 && decide (u.expiresAt > w.db.now)) w.db.undos := by
      refine List.filter_congr fun x hx => ?_
      have hother : (receipt.id == x.1) = false := by
        have hlt := h.used x hx
        rw [hid]
        simpa using hlt.ne'
      simp [Table.has, hother]
    have hnew : (([(receipt.id, s)].filter fun x => Table.has (fun u => u.id == x.1 && decide (u.expiresAt > w.db.now))
        (w.db.undos ++ [receipt])).map fun x => octets x.2).sum ≤ octets s := by
      rw [List.filter_cons]
      split <;> simp
    unfold activeBytes at howner ⊢
    rw [hundos, hsnapshots, hnow, List.filter_append, hold, List.map_append, List.sum_append]
    omega
  each := by
    intro x hx
    rw [hsnapshots] at hx
    rcases List.mem_append.1 hx with hx | hx
    · exact h.each x hx
    · rw [List.mem_singleton.1 hx]
      exact heach
  covered := by
    intro u hu
    rw [hundos] at hu
    rw [hsnapshots]
    rcases List.mem_append.1 hu with hu | hu
    · obtain ⟨s₀, hs₀⟩ := h.covered u hu
      exact ⟨s₀, List.mem_append_left _ hs₀⟩
    · rw [List.mem_singleton.1 hu]
      exact ⟨s, List.mem_append_right _ (List.mem_singleton_self _)⟩
  used := by
    intro x hx
    rw [hsnapshots] at hx
    rcases List.mem_append.1 hx with hx | hx
    · exact (h.used x hx).trans hn
    · rw [List.mem_singleton.1 hx, hid]
      exact hn

theorem kept_initial (octets : Snapshot → Nat) (now : DateTime) (nextId : Uuid) (policy : Option SyncConflictPolicy)
    (automatic : Bool) : Kept octets (Workspace.initial now nextId policy automatic) where
  receipts := Nat.zero_le _
  owner := Nat.zero_le _
  each := fun _ hx => nomatch hx
  covered := fun _ hu => nomatch hu
  used := fun _ hx => nomatch hx

theorem Kept.perform (rows : RowText) (toLowercase : String → String) {a : Action} (ha : Forwards a w)
    (hv : w.MovesValid) (h : Kept rows.octets w) : Kept rows.octets (a.perform ⟨toLowercase, rows.octets⟩ w) := by
  have hn := (Workspace.onward_perform ⟨toLowercase, rows.octets⟩ a w hv).2.nextId
  by_cases hdelete : ∃ locked validated task version, a = .deleteTaskWithUndo locked validated task version
  · obtain ⟨locked, validated, task, version, rfl⟩ := hdelete
    refine Tx.Within.commit (R := fun w w' => w.db.Valid → Kept rows.octets w → Kept rows.octets w') (fun _ _ h => h)
      (fun w b w' hrun hv h => ?_) w hv.db h
    obtain ⟨receipt, u, hrun, hvoid⟩ := Tx.bind_ok hrun
    cases hvoid
    obtain ⟨s, hcount, hid, hundos, hsnapshots, hnow, hnext, heach, howner⟩ := deleteTaskWithSnapshot_sizes rows hv hrun
    exact h.issue hcount hid hundos hsnapshots hnow hnext heach howner
  · by_cases htick : ∃ now, a = .tick now
    · obtain ⟨now, rfl⟩ := htick
      exact h.fewer (.refl _) (.refl _) (fun _ hx _ => hx) ha hn
    · have hculled : w.Culled (a.perform ⟨toLowercase, rows.octets⟩ w) :=
        Tx.Within.commit (R := Workspace.Culled) Workspace.Culled.refl
          (Workspace.culled_tx _ (fun l v t n hax => hdelete ⟨l, v, t, n, hax⟩) fun now hax => htick ⟨now, hax⟩) w
      exact h.fewer hculled.snapshots hculled.db.undos hculled.kept hculled.db.now.ge hn

end WithinLimits

/-- The receipts are within their limits, and a deletion never writes a snapshot that is too large,
whatever the counters say and however many dates the task was in the focus of. -/
theorem receipts_within_budget (rows : RowText) (toLowercase : String → String) {now : DateTime} {nextId : Uuid}
    {policy : Option SyncConflictPolicy} {automatic : Bool} {w : Workspace}
    (h : Run ⟨toLowercase, rows.octets⟩ Forwards (Workspace.initial now nextId policy automatic) w) :
    WithinLimits rows.octets w ∧
    ∀ (revisions : GuardScope → Nat) (locked validated : Bool) (task : Uuid) (expectedVersion : Int),
      deleteTaskWithSnapshot rows.octets locked validated task expectedVersion { w with revisions := revisions } ≠
        .error snapshotTooLarge := by
  have hrun : w.MovesValid ∧ WithinLimits.Kept rows.octets w := by
    refine h.keeps (I := fun w => w.MovesValid ∧ WithinLimits.Kept rows.octets w) ?_ ?_
    · intro a w ha hw
      exact ⟨(Workspace.onward_perform _ a w hw.1).1, hw.2.perform rows toLowercase ha hw.1⟩
    · exact ⟨Workspace.movesValid_initial now nextId policy automatic, WithinLimits.kept_initial _ now nextId policy automatic⟩
  refine ⟨hrun.2.toWithinLimits, fun revisions locked validated task expectedVersion => ?_⟩
  have hv : { w with revisions := revisions }.db.Valid := hrun.1.db
  exact deleteTaskWithSnapshot_fits rows hv locked validated task expectedVersion

/-- Rows with their ids only. -/
def briefText : RowText where
  task t := .obj [("id", .str (uuidText t.id)), ("title", .str t.title)]
  event e := .obj [("id", .str (uuidText e.id))]
  note n := .obj [("id", .str (uuidText n.id))]
  file f := .obj [("id", .str (uuidText f.id))]
  focus f := .obj [("task_id", .str (uuidText f.taskId)), ("focus_date", .str (String.ofList (formatDate f.focusDate)))]
  project p := .obj [("id", .str (uuidText p.id))]
  calendar g := .obj [("id", .str (uuidText g.id))]
  account a := .obj [("scopes", .arr (a.scopes.map .str))]
  mapping m := [("id", .str (uuidText m.id))]
  digest _ _ := 0

/-- A task in the focus of a date, deleted with a receipt. -/
def deletedInFocus : Workspace :=
  let env : Env := ⟨id, briefText.octets⟩
  let created := (Action.createTask ⟨none, none, "t", "", none, none, none, .todo, .medium, .none, [], none⟩).perform env
    (.initial 0 0 none false)
  (Action.deleteTaskWithUndo false false 0 1).perform env ((Action.updateDailyFocus 5 [0]).perform env created)

theorem receipts_within_budget_deletedInFocus :
    Run ⟨id, briefText.octets⟩ Forwards (Workspace.initial 0 0 none false) deletedInFocus ∧
      deletedInFocus.db.undos.length = 1 ∧ WithinLimits briefText.octets deletedInFocus := by
  have hrun : Run ⟨id, briefText.octets⟩ Forwards (.initial 0 0 none false) deletedInFocus :=
    .step _ (.step _ (.step _ .start trivial) trivial) trivial
  exact ⟨hrun, by decide +kernel, (receipts_within_budget briefText id hrun).1⟩

end Prosepect
