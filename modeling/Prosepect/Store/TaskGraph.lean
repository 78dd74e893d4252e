/-
The graph of the tasks: parents and subtasks (`TaskGraph`), recurring tasks and their successors
(`Lineage`), and what the writes of the table keep of both.
-/
import Prosepect.Data.Forest
import Prosepect.Store.Actions
import Prosepect.Store.TaskChecks

namespace Prosepect

open Relation Resumption Table Time

/-- The parent of a task. -/
def parentOf (tasks : List TaskRow) (id : Uuid) : Option Uuid :=
  (tasks.find? fun t => some t.id == some id).bind (·.parentTaskId)

/-- Parents and subtasks: no cycle, the same project, and nothing that recurs on either side. -/
structure TaskGraph (tasks : List TaskRow) : Prop where
  ids : Unique (fun t : TaskRow => some t.id) tasks
  acyclic : Forest.Acyclic (parentOf tasks)
  parents : ∀ t ∈ tasks, ∀ p, t.parentTaskId = some p →
    t.recurrence = .none ∧ ∃ q ∈ tasks, q.id = p ∧ q.projectId = t.projectId ∧ q.recurrence = .none

/-- Recurring tasks and their successors: at most one for each, which is completed, and one that
nobody has changed recurs. -/
structure Lineage (tasks : List TaskRow) : Prop where
  unique : Unique (fun t : TaskRow => t.recurrenceSourceId) tasks
  completed : ∀ t ∈ tasks, ∀ s, t.recurrenceSourceId = some s → ∃ q ∈ tasks, q.id = s ∧ q.status = .completed
  recurs : ∀ t ∈ tasks, t.recurrenceSourceId ≠ none → t.version = 1 → t.recurrence ≠ .none
  versions : ∀ t ∈ tasks, 1 ≤ t.version

/-! ## Rows that stay -/

/-- What writes that are not about its place in the graph keep of a task; without a new version, it
is as it was but for its position. -/
structure TaskRow.Kept (t t' : TaskRow) : Prop where
  id : t'.id = t.id
  projectId : t'.projectId = t.projectId
  parentTaskId : t'.parentTaskId = t.parentTaskId
  status : t'.status = t.status
  recurrence : t'.recurrence = t.recurrence
  recurrenceSourceId : t'.recurrenceSourceId = t.recurrenceSourceId
  recurrenceProjectId : t'.recurrenceProjectId = t.recurrenceProjectId ∨ t'.recurrenceProjectId = none
  version : t.version ≤ t'.version
  same : t'.version = t.version → t' = { t with position := t'.position }

/-- Writes of the store, which are not those of a synchronization, keep the texts as well. -/
structure TaskRow.Touched (t t' : TaskRow) : Prop where
  kept : t.Kept t'
  title : t'.title = t.title
  description : t'.description = t.description
  labels : t'.labels = t.labels
  recurrenceDefaults : t'.recurrenceDefaults = t.recurrenceDefaults
  dueAt : t'.dueAt = none → t.dueAt = none
  timed : (t'.scheduledStart = t.scheduledStart ∧ t'.scheduledEnd = t.scheduledEnd) ∨
    Store.Timed t'.scheduledStart t'.scheduledEnd

theorem TaskRow.Kept.refl (t : TaskRow) : t.Kept t := ⟨rfl, rfl, rfl, rfl, rfl, rfl, .inl rfl, le_rfl, fun _ => rfl⟩

theorem TaskRow.Touched.refl (t : TaskRow) : t.Touched t := ⟨.refl t, rfl, rfl, rfl, rfl, fun h => h, .inl ⟨rfl, rfl⟩⟩

theorem TaskRow.Kept.trans {t t' t'' : TaskRow} (h : t.Kept t') (h' : t'.Kept t'') : t.Kept t'' where
  id := h'.id.trans h.id
  projectId := h'.projectId.trans h.projectId
  parentTaskId := h'.parentTaskId.trans h.parentTaskId
  status := h'.status.trans h.status
  recurrence := h'.recurrence.trans h.recurrence
  recurrenceSourceId := h'.recurrenceSourceId.trans h.recurrenceSourceId
  recurrenceProjectId := by
    rcases h'.recurrenceProjectId with h2 | h2
    · rcases h.recurrenceProjectId with h1 | h1
      · exact .inl (h2.trans h1)
      · exact .inr (h2.trans h1)
    · exact .inr h2
  version := h.version.trans h'.version
  same := by
    intro hv
    have hle := h.version
    have hle' := h'.version
    rw [h'.same (by omega), h.same (by omega)]

theorem TaskRow.Touched.trans {t t' t'' : TaskRow} (h : t.Touched t') (h' : t'.Touched t'') : t.Touched t'' where
  kept := h.kept.trans h'.kept
  title := h'.title.trans h.title
  description := h'.description.trans h.description
  labels := h'.labels.trans h.labels
  recurrenceDefaults := h'.recurrenceDefaults.trans h.recurrenceDefaults
  dueAt := fun hd => h.dueAt (h'.dueAt hd)
  timed := by
    rcases h'.timed with ⟨hs', he'⟩ | ht'
    · rcases h.timed with ⟨hs, he⟩ | ht
      · exact .inl ⟨hs'.trans hs, he'.trans he⟩
      · exact .inr (by rw [hs', he']; exact ht)
    · exact .inr ht'

/-- A schedule that is written makes a new version. -/
theorem kept_reschedule (start end_ : Option DateTime) (now : DateTime) (t : TaskRow) :
    t.Kept (Task.reschedule start end_ now t) := by
  refine ⟨rfl, rfl, rfl, rfl, rfl, rfl, .inl rfl, Int.le_add_one le_rfl, fun hv => ?_⟩
  have hne : t.version + 1 = t.version := hv
  omega

theorem touched_reschedule {start end_ : Option DateTime} (ht : Store.Timed start end_) (now : DateTime) (t : TaskRow) :
    t.Touched (Task.reschedule start end_ now t) :=
  ⟨kept_reschedule start end_ now t, rfl, rfl, rfl, rfl, fun h => h, .inr ht⟩

section Rows

variable {R : TaskRow → TaskRow → Prop} {a b c tasks tasks' : List TaskRow}

theorem rows_trans (ht : ∀ {x y z}, R x y → R y z → R x z) (h : List.Forall₂ R a b) (h' : List.Forall₂ R b c) :
    List.Forall₂ R a c := by
  induction h generalizing c with
  | nil => exact h'
  | cons hr _ ih =>
    cases h' with
    | cons hr' htail => exact .cons (ht hr hr') (ih htail)

theorem rows_update {p : TaskRow → Bool} {f : TaskRow → TaskRow} (hr : ∀ t, R t t)
    (hf : ∀ t ∈ tasks, p t = true → R t (f t)) : List.Forall₂ R tasks (update p f tasks) := by
  refine List.forall₂_map_right_iff.2 (List.forall₂_same.2 fun t ht => ?_)
  by_cases hp : p t = true
  · rw [if_pos hp]
    exact hf t ht hp
  · rw [if_neg hp]
    exact hr t

theorem rows_map {β : Type} {g : TaskRow → β} (h : List.Forall₂ R tasks tasks') (hg : ∀ t t', R t t' → g t' = g t) :
    tasks'.map g = tasks.map g := by
  induction h with
  | nil => rfl
  | cons hr _ ih => rw [List.map_cons, List.map_cons, hg _ _ hr, ih]

theorem rows_of_mem (h : List.Forall₂ R tasks tasks') {t' : TaskRow} (ht : t' ∈ tasks') : ∃ t ∈ tasks, R t t' := by
  induction h with
  | nil => cases ht
  | @cons a b l l' hr _ ih =>
    rcases List.mem_cons.1 ht with rfl | ht
    · exact ⟨a, List.mem_cons_self, hr⟩
    · obtain ⟨t, hm, hk⟩ := ih ht
      exact ⟨t, List.mem_cons_of_mem _ hm, hk⟩

theorem rows_mem (h : List.Forall₂ R tasks tasks') {t : TaskRow} (ht : t ∈ tasks) : ∃ t' ∈ tasks', R t t' := by
  induction h with
  | nil => cases ht
  | @cons a b l l' hr _ ih =>
    rcases List.mem_cons.1 ht with rfl | ht
    · exact ⟨b, List.mem_cons_self, hr⟩
    · obtain ⟨t', hm, hk⟩ := ih ht
      exact ⟨t', List.mem_cons_of_mem _ hm, hk⟩

theorem rows_unique {κ : Type} {key : TaskRow → Option κ} (h : List.Forall₂ R tasks tasks')
    (hk : ∀ t t', R t t' → key t' = key t) (hu : Unique key tasks) : Unique key tasks' :=
  hu.congr (rows_map h hk)

end Rows

/-- Row by row. -/
abbrev TasksKept (tasks tasks' : List TaskRow) : Prop := List.Forall₂ TaskRow.Kept tasks tasks'

/-! ## The graph -/

section Graph

variable {tasks tasks' : List TaskRow} {t : TaskRow}

theorem parentOf_eq_some (hu : Unique (fun t : TaskRow => some t.id) tasks) {a b : Uuid} :
    parentOf tasks a = some b ↔ ∃ t ∈ tasks, t.id = a ∧ t.parentTaskId = some b := by
  unfold parentOf
  rw [Option.bind_eq_some_iff]
  constructor
  · rintro ⟨t, hf, hp⟩
    obtain ⟨ht, hid⟩ := hu.find_eq_some_iff.1 hf
    exact ⟨t, ht, Option.some.inj hid, hp⟩
  · rintro ⟨t, ht, hid, hp⟩
    exact ⟨t, hu.find_eq_some_iff.2 ⟨ht, congrArg some hid⟩, hp⟩

theorem TaskGraph.mem_of_parent (h : TaskGraph tasks) {a b : Uuid} (hab : parentOf tasks a = some b) :
    ∃ q ∈ tasks, q.id = b := by
  obtain ⟨t, ht, -, hp⟩ := (parentOf_eq_some h.ids).1 hab
  obtain ⟨-, q, hq, hid, -⟩ := h.parents t ht b hp
  exact ⟨q, hq, hid⟩

/-- The columns the graph is about. -/
def TaskRow.node (t : TaskRow) : Uuid × Option Uuid × Option Uuid × TaskRecurrence :=
  (t.id, t.projectId, t.parentTaskId, t.recurrence)

theorem exists_node (hk : tasks'.map TaskRow.node = tasks.map TaskRow.node) {t' : TaskRow} (ht : t' ∈ tasks') :
    ∃ t ∈ tasks, t'.id = t.id ∧ t'.projectId = t.projectId ∧ t'.parentTaskId = t.parentTaskId ∧
      t'.recurrence = t.recurrence := by
  have hm : t'.node ∈ tasks.map TaskRow.node := hk ▸ List.mem_map_of_mem ht
  obtain ⟨t, hmem, heq⟩ := List.mem_map.1 hm
  obtain ⟨h1, h2, h3, h4⟩ := (by simpa only [TaskRow.node, Prod.mk.injEq] using heq :
    t.id = t'.id ∧ t.projectId = t'.projectId ∧ t.parentTaskId = t'.parentTaskId ∧ t.recurrence = t'.recurrence)
  exact ⟨t, hmem, h1.symm, h2.symm, h3.symm, h4.symm⟩

theorem TaskGraph.congr (h : TaskGraph tasks) (hk : tasks'.map TaskRow.node = tasks.map TaskRow.node) :
    TaskGraph tasks' := by
  have hids : Unique (fun t : TaskRow => some t.id) tasks' := by
    refine h.ids.congr ?_
    have hfst := congrArg (List.map fun n => some n.1) hk
    rwa [List.map_map, List.map_map] at hfst
  refine ⟨hids, h.acyclic.mono fun a b hab => ?_, ?_⟩
  · obtain ⟨t', ht', hid, hp⟩ := (parentOf_eq_some hids).1 hab
    obtain ⟨t, ht, htid, -, htp, -⟩ := exists_node hk ht'
    exact (parentOf_eq_some h.ids).2 ⟨t, ht, htid.symm.trans hid, htp.symm.trans hp⟩
  · intro t' ht' p hp
    obtain ⟨t, ht, -, htproj, htp, htrec⟩ := exists_node hk ht'
    obtain ⟨hrec, q, hq, hid, hproj, hqrec⟩ := h.parents t ht p (htp.symm.trans hp)
    obtain ⟨q', hq', hqid, hqproj, -, hqr⟩ := exists_node hk.symm hq
    exact ⟨htrec.trans hrec, q', hq', hqid.symm.trans hid, hqproj.symm.trans (hproj.trans htproj.symm), hqr.symm.trans hqrec⟩

theorem TaskGraph.kept (h : TaskGraph tasks) (hk : TasksKept tasks tasks') : TaskGraph tasks' := by
  refine h.congr (rows_map hk fun t t' hr => ?_)
  unfold TaskRow.node
  rw [hr.id, hr.projectId, hr.parentTaskId, hr.recurrence]

/-- A parent that is there and agrees with the task. -/
def Fitting (tasks : List TaskRow) (project parent : Option Uuid) (recurrence : TaskRecurrence) : Prop :=
  ∀ p, parent = some p → recurrence = .none ∧ ∃ q ∈ tasks, q.id = p ∧ q.projectId = project ∧ q.recurrence = .none

/-- A new task has no subtasks. -/
theorem TaskGraph.insert (h : TaskGraph tasks) (hid : ∀ q ∈ tasks, q.id ≠ t.id)
    (hp : Fitting tasks t.projectId t.parentTaskId t.recurrence) : TaskGraph (tasks ++ [t]) := by
  have hids : Unique (fun t : TaskRow => some t.id) (tasks ++ [t]) :=
    h.ids.insert fun k hk q hq hqk => hid q hq (Option.some.inj (hqk.trans hk.symm))
  have hleaf : ∀ b, parentOf tasks b ≠ some t.id := by
    intro b hb
    obtain ⟨q, hq, hqid⟩ := h.mem_of_parent hb
    exact hid q hq hqid
  refine ⟨hids, ?_, ?_⟩
  · refine h.acyclic.update (x := t.id) (fun a b hab hb => ?_) (fun p hb hr => ?_)
    · obtain ⟨q, hq, hqid, hqp⟩ := (parentOf_eq_some hids).1 hb
      rcases List.mem_append.1 hq with hq | hq
      · exact (parentOf_eq_some h.ids).2 ⟨q, hq, hqid, hqp⟩
      · rw [List.mem_singleton.1 hq] at hqid
        exact absurd hqid.symm hab
    · obtain ⟨q, hq, hqid, hqp⟩ := (parentOf_eq_some hids).1 hb
      rcases List.mem_append.1 hq with hq | hq
      · exact hid q hq hqid
      · rw [List.mem_singleton.1 hq] at hqp
        obtain ⟨-, r, hrm, hrid, -⟩ := hp p hqp
        obtain ⟨b, hb⟩ := Forest.reach_parent hr fun hpx => hid r hrm (hrid.trans hpx)
        exact hleaf b hb
  · intro r hr p hrp
    have hthere : ∀ {project recurrence}, Fitting tasks project (some p) recurrence → recurrence = .none ∧
        ∃ q ∈ tasks ++ [t], q.id = p ∧ q.projectId = project ∧ q.recurrence = .none := by
      intro project recurrence ha
      obtain ⟨hrec, q, hq, hrest⟩ := ha p rfl
      exact ⟨hrec, q, List.mem_append_left _ hq, hrest⟩
    rcases List.mem_append.1 hr with hr | hr
    · exact hthere fun p' hp' => h.parents r hr p' (hrp.trans hp')
    · rw [List.mem_singleton.1 hr] at hrp ⊢
      exact hthere fun p' hp' => hp p' (hrp.trans hp')

/-- Tasks whose subtasks go with them. -/
theorem TaskGraph.delete (h : TaskGraph tasks) {p : TaskRow → Bool}
    (hp : ∀ t ∈ tasks, p t = false → ∀ q ∈ tasks, t.parentTaskId = some q.id → p q = false) :
    TaskGraph (delete p tasks) := by
  have hids := h.ids.delete p
  refine ⟨hids, h.acyclic.mono fun a b hab => ?_, ?_⟩
  · obtain ⟨t, ht, hid, hb⟩ := (parentOf_eq_some hids).1 hab
    exact (parentOf_eq_some h.ids).2 ⟨t, (mem_delete.1 ht).1, hid, hb⟩
  · intro t ht b hb
    obtain ⟨ht, hstay⟩ := mem_delete.1 ht
    obtain ⟨hrec, q, hq, hid, hrest⟩ := h.parents t ht b hb
    exact ⟨hrec, q, mem_delete.2 ⟨hq, hp t ht hstay q hq (by rw [hb, hid])⟩, hid, hrest⟩

/-- A task gets another place: its new parent is not below it, and its subtasks still fit. -/
theorem TaskGraph.assign (h : TaskGraph tasks) {row : TaskRow} (hrow : row ∈ tasks) (hid : t.id = row.id)
    (hp : Fitting tasks t.projectId t.parentTaskId t.recurrence) (hself : t.parentTaskId ≠ some row.id)
    (hbelow : ∀ p, t.parentTaskId = some p → ¬ ReflTransGen (Forest.Above (parentOf tasks)) p row.id)
    (hsub : (∃ c ∈ tasks, c.parentTaskId = some row.id) → t.projectId = row.projectId ∧ t.recurrence = .none) :
    TaskGraph (update (·.id == row.id) (fun _ => t) tasks) := by
  have hids : Unique (fun t : TaskRow => some t.id) (update (·.id == row.id) (fun _ => t) tasks) :=
    h.ids.assign h.ids (fun _ => congrArg some hid) fun _ _ hk => Option.some.inj hk
  refine ⟨hids, ?_, ?_⟩
  · refine h.acyclic.update (x := row.id) (fun a b hab hb => ?_) (fun p hb => ?_)
    · obtain ⟨r, hr, hrid, hrp⟩ := (parentOf_eq_some hids).1 hb
      rcases mem_update.1 hr with ⟨hr, -⟩ | ⟨_, -, -, rfl⟩
      · exact (parentOf_eq_some h.ids).2 ⟨r, hr, hrid, hrp⟩
      · exact absurd (hrid.symm.trans hid) hab
    · obtain ⟨r, hr, hrid, hrp⟩ := (parentOf_eq_some hids).1 hb
      rcases mem_update.1 hr with ⟨_, hne⟩ | ⟨_, -, -, rfl⟩
      · rw [hrid, beq_self_eq_true] at hne
        cases hne
      · exact hbelow p hrp
  · -- the parent of a task is the one it was, or the task that has changed, which is no parent then
    have hthere : ∀ {p q project}, q ∈ tasks → q.id = p → q.projectId = project → q.recurrence = .none →
        (p = row.id → t.projectId = project ∧ t.recurrence = .none) →
        ∃ q ∈ update (·.id == row.id) (fun _ => t) tasks, q.id = p ∧ q.projectId = project ∧ q.recurrence = .none := by
      intro p q project hq hqid hproj hrec hchanged
      by_cases hpr : p = row.id
      · obtain ⟨htp, htr⟩ := hchanged hpr
        exact ⟨t, mem_update.2 (.inr ⟨row, hrow, beq_self_eq_true _, rfl⟩), by rw [hid, hpr], htp, htr⟩
      · exact ⟨q, mem_update.2 (.inl ⟨hq, beq_eq_false_iff_ne.2 fun hqr => hpr (hqid.symm.trans hqr)⟩), hqid, hproj, hrec⟩
    intro r hr p hrp
    rcases mem_update.1 hr with ⟨hr, -⟩ | ⟨_, -, -, rfl⟩
    · obtain ⟨hrec, q, hq, hqid, hproj, hqrec⟩ := h.parents r hr p hrp
      refine ⟨hrec, hthere hq hqid hproj hqrec fun hpr => ?_⟩
      obtain ⟨htp, htr⟩ := hsub ⟨r, hr, by rw [hrp, hpr]⟩
      have hqrow : q = row := h.ids.eq hq hrow (congrArg some (hqid.trans hpr)) rfl
      exact ⟨by rw [htp, ← hproj, hqrow], htr⟩
    · obtain ⟨hrec, q, hq, hqid, hproj, hqrec⟩ := hp p hrp
      exact ⟨hrec, hthere hq hqid hproj hqrec fun hpr => absurd (by rw [hrp, hpr]) hself⟩

/-- The query for the chain of parents follows the parents. -/
theorem parentChain_eq {db : Db} (h : TaskGraph db.tasks) : ∀ (n : Nat) (t : TaskRow), t ∈ db.tasks →
    Store.parentChain db n t.id = Forest.chain (parentOf db.tasks) n t.id
  | 0, _, _ => rfl
  | n + 1, t, ht => by
    have hfind : db.task? t.id = some t := h.ids.find_eq_some_iff.2 ⟨ht, rfl⟩
    have hup : parentOf db.tasks t.id = t.parentTaskId := by
      show (db.task? t.id).bind _ = _
      rw [hfind]
      rfl
    unfold Store.parentChain Forest.chain
    rw [hup]
    simp only [hfind]
    cases hp : t.parentTaskId with
    | none => rfl
    | some p =>
      obtain ⟨-, q, hq, hid, -⟩ := h.parents t ht p hp
      subst hid
      exact congrArg (List.cons t.id) (parentChain_eq h n q hq)

/-- The query finds exactly the tasks above the start, itself included. -/
theorem mem_parentChain {db : Db} (h : TaskGraph db.tasks) {t : TaskRow} (ht : t ∈ db.tasks) {x : Uuid} :
    x ∈ Store.parentChain db db.tasks.length t.id ↔ ReflTransGen (Forest.Above (parentOf db.tasks)) t.id x := by
  rw [parentChain_eq h _ t ht]
  refine ⟨Forest.reach_of_mem_chain, fun hr => ?_⟩
  have hmem : ∀ b, ReflTransGen (Forest.Above (parentOf db.tasks)) t.id b → b ∈ db.tasks.map (·.id) := by
    intro b hb
    rcases ReflTransGen.cases_tail hb with rfl | ⟨c, -, hc⟩
    · exact List.mem_map_of_mem ht
    · obtain ⟨q, hq, hid⟩ := h.mem_of_parent hc
      exact hid ▸ List.mem_map_of_mem hq
  have hchain := Forest.mem_chain h.acyclic hmem hr
  rwa [List.length_map] at hchain

end Graph

/-! ## The lineage -/

section Lineage

variable {tasks tasks' : List TaskRow} {t : TaskRow}

theorem Lineage.kept (h : Lineage tasks) (hk : TasksKept tasks tasks') : Lineage tasks' where
  unique := rows_unique hk (fun _ _ hr => hr.recurrenceSourceId) h.unique
  completed := by
    intro t' ht' s hs
    obtain ⟨t, ht, hr⟩ := rows_of_mem hk ht'
    obtain ⟨q, hq, hid, hstatus⟩ := h.completed t ht s (hr.recurrenceSourceId.symm.trans hs)
    obtain ⟨q', hq', hr'⟩ := rows_mem hk hq
    exact ⟨q', hq', hr'.id.trans hid, hr'.status.trans hstatus⟩
  recurs := by
    intro t' ht' hs hv
    obtain ⟨t, ht, hr⟩ := rows_of_mem hk ht'
    have hone : t.version = 1 := by
      have hle := hr.version
      have hge := h.versions t ht
      omega
    rw [hr.recurrence]
    exact h.recurs t ht (hr.recurrenceSourceId ▸ hs) hone
  versions := by
    intro t' ht'
    obtain ⟨t, ht, hr⟩ := rows_of_mem hk ht'
    exact (h.versions t ht).trans hr.version

/-- A new task, a successor perhaps of a completed one that has none. -/
theorem Lineage.insert (h : Lineage tasks) (hv : 1 ≤ t.version)
    (hs : ∀ s, t.recurrenceSourceId = some s →
      (∃ q ∈ tasks, q.id = s ∧ q.status = .completed) ∧ ∀ r ∈ tasks, r.recurrenceSourceId ≠ some s)
    (hr : t.recurrenceSourceId ≠ none → t.version = 1 → t.recurrence ≠ .none) : Lineage (tasks ++ [t]) where
  unique := h.unique.insert fun k hk => (hs k hk).2
  completed := by
    intro r hrm s hrs
    have hthere : (∃ q ∈ tasks, q.id = s ∧ q.status = .completed) →
        ∃ q ∈ tasks ++ [t], q.id = s ∧ q.status = .completed :=
      fun ⟨q, hq, hrest⟩ => ⟨q, List.mem_append_left _ hq, hrest⟩
    rcases List.mem_append.1 hrm with hrm | hrm
    · exact hthere (h.completed r hrm s hrs)
    · rw [List.mem_singleton.1 hrm] at hrs
      exact hthere (hs s hrs).1
  recurs := by
    intro r hrm
    rcases List.mem_append.1 hrm with hrm | hrm
    · exact h.recurs r hrm
    · rw [List.mem_singleton.1 hrm]
      exact hr
  versions := by
    intro r hrm
    rcases List.mem_append.1 hrm with hrm | hrm
    · exact h.versions r hrm
    · rw [List.mem_singleton.1 hrm]
      exact hv

/-- Tasks that go, and are no longer the sources of others. -/
theorem Lineage.drop (h : Lineage tasks) {p c : TaskRow → Bool}
    (hc : ∀ t ∈ tasks, p t = false → ∀ q ∈ tasks, t.recurrenceSourceId = some q.id → p q = true → c t = true) :
    Lineage (update c (fun t => { t with recurrenceSourceId := none }) (delete p tasks)) where
  unique := (h.unique.delete p).update fun _ => .inr rfl
  completed := by
    intro r hr s hs
    rcases mem_update.1 hr with ⟨hr, hcr⟩ | ⟨_, -, -, rfl⟩
    · obtain ⟨hr, hstay⟩ := mem_delete.1 hr
      obtain ⟨q, hq, hid, hstatus⟩ := h.completed r hr s hs
      have hqstay : p q = false := by
        by_contra hgone
        rw [hc r hr hstay q hq (by rw [hs, hid]) (eq_true_of_ne_false hgone)] at hcr
        cases hcr
      have hqd : q ∈ delete p tasks := mem_delete.2 ⟨hq, hqstay⟩
      cases hcq : c q with
      | false => exact ⟨q, mem_update.2 (.inl ⟨hqd, hcq⟩), hid, hstatus⟩
      | true => exact ⟨_, mem_update.2 (.inr ⟨q, hqd, hcq, rfl⟩), hid, hstatus⟩
    · cases hs
  recurs := by
    intro r hr hs hv
    rcases mem_update.1 hr with ⟨hr, -⟩ | ⟨_, -, -, rfl⟩
    · exact h.recurs r (mem_delete.1 hr).1 hs hv
    · exact absurd rfl hs
  versions := by
    intro r hr
    rcases mem_update.1 hr with ⟨hr, -⟩ | ⟨q, hq, -, rfl⟩
    · exact h.versions r (mem_delete.1 hr).1
    · exact h.versions q (mem_delete.1 hq).1

/-- A task with a new version; one that is open has no successor. -/
theorem Lineage.assign (h : Lineage tasks) (hids : Unique (fun t : TaskRow => some t.id) tasks) {row : TaskRow}
    (hrow : row ∈ tasks) (hid : t.id = row.id) (hsource : t.recurrenceSourceId = row.recurrenceSourceId)
    (hv : t.version = row.version + 1)
    (hopen : t.status ≠ .completed → ∀ r ∈ tasks, r.recurrenceSourceId ≠ some row.id) :
    Lineage (update (·.id == row.id) (fun _ => t) tasks) := by
  have hkey : ∀ r ∈ tasks, (r.id == row.id) = true → r = row :=
    fun r hr hrr => hids.eq hr hrow (congrArg some (beq_iff_eq.1 hrr)) rfl
  have hversion := h.versions row hrow
  constructor
  · refine h.unique.congr ((List.map_map ..).trans (List.map_congr_left fun r hr => ?_))
    show (if (r.id == row.id) = true then t else r).recurrenceSourceId = _
    by_cases hrr : (r.id == row.id) = true
    · rw [if_pos hrr, hsource, hkey r hr hrr]
    · rw [if_neg hrr]
  · intro r hr s hs
    have hold : ∃ q ∈ tasks, q.recurrenceSourceId = some s := by
      rcases mem_update.1 hr with ⟨hr, -⟩ | ⟨_, -, -, rfl⟩
      · exact ⟨r, hr, hs⟩
      · exact ⟨row, hrow, hsource ▸ hs⟩
    obtain ⟨r', hr', hs'⟩ := hold
    obtain ⟨q, hq, hqid, hstatus⟩ := h.completed r' hr' s hs'
    cases hqr : q.id == row.id with
    | false => exact ⟨q, mem_update.2 (.inl ⟨hq, hqr⟩), hqid, hstatus⟩
    | true =>
      refine ⟨t, mem_update.2 (.inr ⟨row, hrow, beq_self_eq_true _, rfl⟩), by rw [hid, ← hqid, hkey q hq hqr], ?_⟩
      by_contra hne
      exact hopen hne r' hr' (by rw [hs', ← hqid, beq_iff_eq.1 hqr])
  · intro r hr hs hone
    rcases mem_update.1 hr with ⟨hr, -⟩ | ⟨_, -, -, rfl⟩
    · exact h.recurs r hr hs hone
    · omega
  · intro r hr
    rcases mem_update.1 hr with ⟨hr, -⟩ | ⟨_, -, -, rfl⟩
    · exact h.versions r hr
    · omega

/-- A completed task without a successor gets one back. -/
theorem Lineage.link (h : Lineage tasks) (hids : Unique (fun t : TaskRow => some t.id) tasks) {s k : Uuid}
    {f : TaskRow → TaskRow} (hsource : ∀ r, (f r).recurrenceSourceId = some s) (hid : ∀ r, (f r).id = r.id)
    (hstatus : ∀ r, (f r).status = r.status) (hv : ∀ r, (f r).version = r.version + 1)
    (hs : ∃ q ∈ tasks, q.id = s ∧ q.status = .completed) (hfree : ∀ r ∈ tasks, r.recurrenceSourceId ≠ some s) :
    Lineage (update (·.id == k) f tasks) := by
  have hthere : ∀ {x : Uuid}, (∃ q ∈ tasks, q.id = x ∧ q.status = .completed) →
      ∃ q ∈ update (·.id == k) f tasks, q.id = x ∧ q.status = .completed := by
    rintro x ⟨q, hq, hqid, hqs⟩
    cases hqk : q.id == k with
    | false => exact ⟨q, mem_update.2 (.inl ⟨hq, hqk⟩), hqid, hqs⟩
    | true => exact ⟨f q, mem_update.2 (.inr ⟨q, hq, hqk, rfl⟩), (hid q).trans hqid, (hstatus q).trans hqs⟩
  constructor
  · exact h.unique.assign hids hsource fun r hr hrs => absurd hrs (hfree r hr)
  · intro r hr x hx
    rcases mem_update.1 hr with ⟨hr, -⟩ | ⟨q, -, -, rfl⟩
    · exact hthere (h.completed r hr x hx)
    · obtain rfl : s = x := Option.some.inj ((hsource q).symm.trans hx)
      exact hthere hs
  · intro r hr hrs hone
    rcases mem_update.1 hr with ⟨hr, -⟩ | ⟨q, hq, -, rfl⟩
    · exact h.recurs r hr hrs hone
    · have hqv := h.versions q hq
      rw [hv q] at hone
      omega
  · intro r hr
    rcases mem_update.1 hr with ⟨hr, -⟩ | ⟨q, hq, -, rfl⟩
    · exact h.versions r hr
    · have hqv := h.versions q hq
      rw [hv q]
      omega

end Lineage

end Prosepect
