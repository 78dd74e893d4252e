/-
Histories of focus lists and daily reviews.

- what a focus update, the start and the completion of a review do to the rows of the focus;
- `Diary`: focus updates, changes of tasks and reviews, on dates that never go back;
- `final_iff`: a review lists no task that an earlier one has removed or rescheduled, exactly when
  no review looks back past the focus of a date that has been reviewed.
-/
import Prosepect.Store.Actions
import Prosepect.Store.Edits

namespace Prosepect

open Time Resumption

namespace Workspace

/-! ## The rows of the focus -/

/-- The task is in the focus of the date. -/
def Focused (w : Workspace) (date : NaiveDate) (task : Uuid) : Prop :=
  ∃ f ∈ w.focus, f.focusDate = date ∧ f.taskId = task

/-- The task is there and not completed. -/
def Unfinished (w : Workspace) (task : Uuid) : Prop := (w.db.task? task).any (·.status != .completed) = true

instance (w : Workspace) (date : NaiveDate) (task : Uuid) : Decidable (w.Focused date task) :=
  inferInstanceAs (Decidable (∃ f ∈ w.focus, f.focusDate = date ∧ f.taskId = task))

instance (w : Workspace) (task : Uuid) : Decidable (w.Unfinished task) :=
  inferInstanceAs (Decidable ((w.db.task? task).any (·.status != .completed) = true))

variable {w w' : Workspace}

theorem unfinished_iff {task : Uuid} : w.Unfinished task ↔ ∃ t, w.db.task? task = some t ∧ t.status ≠ .completed := by
  unfold Unfinished
  rw [Option.any_eq_true_iff_get]
  constructor
  · rintro ⟨hsome, hstatus⟩
    exact ⟨_, (Option.some_get hsome).symm, by simpa using hstatus⟩
  · rintro ⟨t, ht, hstatus⟩
    simp [ht, hstatus]

theorem focused_focusRows {l : List FocusTask} {date d : NaiveDate} {now : DateTime} {tasks : List Uuid} {task : Uuid}
    (hw : w'.focus = Table.delete (·.focusDate == date) l ++ Store.focusRows date now tasks) (hl : l = w.focus) :
    w'.Focused d task ↔ if d = date then task ∈ tasks else w.Focused d task := by
  subst hl
  unfold Focused
  constructor
  · rintro ⟨f, hf, rfl, rfl⟩
    rw [hw, List.mem_append, Table.mem_delete] at hf
    rcases hf with ⟨hf, hother⟩ | hf
    · rw [if_neg (by simpa using hother)]
      exact ⟨f, hf, rfl, rfl⟩
    · obtain ⟨i, hi, rfl⟩ := List.mem_mapIdx.1 hf
      rw [if_pos rfl]
      exact List.getElem_mem hi
  · intro h
    by_cases hd : d = date
    · rw [if_pos hd] at h
      obtain ⟨i, hi, rfl⟩ := List.getElem_of_mem h
      exact ⟨_, by rw [hw]; exact List.mem_append_right _ (List.mem_mapIdx.2 ⟨i, hi, rfl⟩), hd.symm, rfl⟩
    · rw [if_neg hd] at h
      obtain ⟨f, hf, rfl, rfl⟩ := h
      refine ⟨f, ?_, rfl, rfl⟩
      rw [hw, List.mem_append, Table.mem_delete]
      exact .inl ⟨hf, by simpa using hd⟩

/-- A change of the tasks only takes rows away. -/
theorem focused_of_onDb {α : Type} {t : StoreTx α} {a : α} (h : onDb t w = .ok (a, w')) {date : NaiveDate} {task : Uuid}
    (hf : w'.Focused date task) : w.Focused date task := by
  unfold onDb at h
  split at h
  · cases h
    obtain ⟨f, hf, hdate, htask⟩ := hf
    exact ⟨f, (Table.mem_delete.1 hf).1, hdate, htask⟩
  · cases h

end Workspace

namespace Store

open Workspace

variable {w w' : Workspace}

theorem updateDailyFocus_focused {date : NaiveDate} {taskIds : List Uuid}
    (h : updateDailyFocus date taskIds w = .ok ((), w')) (d : NaiveDate) (task : Uuid) :
    w'.Focused d task ↔ if d = date then task ∈ taskIds else w.Focused d task := by
  unfold updateDailyFocus at h
  split at h
  · cases h
  · split at h
    · cases h
    · rw [Tx.read_bind_run] at h
      split at h
      · cases h
      · cases h
        exact focused_focusRows rfl rfl

/-! ## What a review looks back at -/

theorem mem_focusTasksForDate {date : NaiveDate} {task : Uuid} :
    task ∈ (focusTasksForDate date w).map (·.id) ↔ w.Focused date task ∧ w.Unfinished task := by
  unfold focusTasksForDate
  simp only [List.mem_map, List.mem_filterMap, List.mem_insertionSort, List.mem_filter]
  constructor
  · rintro ⟨t, ⟨f, ⟨hf, hdate⟩, ht⟩, rfl⟩
    obtain ⟨hrow, hstatus⟩ := Option.filter_eq_some_iff.1 ht
    have hid : f.taskId = t.id := (task?_mem hrow).2.symm
    rw [hid] at hrow
    exact ⟨⟨f, hf, by simpa using hdate, hid⟩, unfinished_iff.2 ⟨t, hrow, by simpa using hstatus⟩⟩
  · rintro ⟨⟨f, hf, hdate, rfl⟩, hu⟩
    obtain ⟨t, ht, hstatus⟩ := unfinished_iff.1 hu
    refine ⟨t, ⟨f, ⟨hf, by simpa using hdate⟩, ?_⟩, (task?_mem ht).2⟩
    exact Option.filter_eq_some_iff.2 ⟨ht, by simpa using hstatus⟩

/-- The latest date before the review with an unfinished task in its focus. -/
theorem previousUnfinishedFocusDate_eq_some {reviewDate date : NaiveDate} :
    previousUnfinishedFocusDate reviewDate w = some date ↔
      (date < reviewDate ∧ ∃ task, w.Focused date task ∧ w.Unfinished task) ∧
        ∀ d task, d < reviewDate → w.Focused d task → w.Unfinished task → d ≤ date := by
  have hmem : ∀ d : NaiveDate, d ∈ (w.focus.filter fun f =>
      decide (f.focusDate < reviewDate) && (w.db.task? f.taskId).any (·.status != .completed)).map (·.focusDate) ↔
        d < reviewDate ∧ ∃ task, w.Focused d task ∧ w.Unfinished task := by
    intro d
    simp only [List.mem_map, List.mem_filter, Bool.and_eq_true, decide_eq_true_eq]
    constructor
    · rintro ⟨f, ⟨hf, hlt, hu⟩, rfl⟩
      exact ⟨hlt, f.taskId, ⟨f, hf, rfl, rfl⟩, hu⟩
    · rintro ⟨hlt, _, ⟨f, hf, rfl, rfl⟩, hu⟩
      exact ⟨f, ⟨hf, hlt, hu⟩, rfl⟩
  unfold previousUnfinishedFocusDate
  rw [List.max?_eq_some_iff, hmem]
  refine and_congr_right fun _ => ⟨fun h d task hlt hf hu => h d ((hmem d).2 ⟨hlt, task, hf, hu⟩), fun h d hd => ?_⟩
  obtain ⟨hlt, task, hf, hu⟩ := (hmem d).1 hd
  exact h d task hlt hf hu

/-- What a started review lists. -/
def lists (reviewDate : NaiveDate) (manual : Bool) (w : Workspace) : Option (List TaskRow) :=
  if manual = false ∧ w.automaticDailyReview = false then none
  else (previousUnfinishedFocusDate reviewDate w).map (focusTasksForDate · w)

theorem startDailyReview_ok {date : NaiveDate} {manual : Bool} {r : Option (DailyReview × List TaskRow)}
    (h : startDailyReview date manual w = .ok (r, w')) : w'.focus = w.focus ∧ r.map (·.2) = lists date manual w := by
  unfold startDailyReview at h
  unfold lists
  rw [Tx.read_bind_run] at h
  split at h
  · cases h
    rw [if_pos ‹_›]
    exact ⟨rfl, rfl⟩
  · rw [if_neg ‹_›]
    cases hp : previousUnfinishedFocusDate date w with
    | none =>
      simp only [hp] at h
      cases h
      exact ⟨rfl, rfl⟩
    | some previous =>
      simp only [hp] at h
      cases hr : w.reviews.find? (·.reviewDate == date) with
      | some review =>
        simp only [hr] at h
        cases h
        exact ⟨rfl, rfl⟩
      | none =>
        simp only [hr] at h
        cases h
        exact ⟨rfl, rfl⟩

/-! ## What a completed review leaves -/

theorem decideReview_ok : ∀ {decisions : List ReviewDecision} {carried l : List Uuid} {w w' : Workspace},
    decideReview decisions carried w = .ok (l, w') →
      w'.focus = w.focus ∧ l = carried ++ (decisions.filter fun d => d.action == .carryForward).map (·.taskId)
  | [], carried, l, w, w', h => by
    cases h
    exact ⟨rfl, by simp⟩
  | d :: rest, carried, l, w, w', h => by
    unfold decideReview at h
    cases hd : d.action with
    | carryForward =>
      simp only [hd] at h
      obtain ⟨hfocus, rfl⟩ := decideReview_ok h
      exact ⟨hfocus, by simp [hd]⟩
    | remove =>
      simp only [hd] at h
      obtain ⟨hfocus, rfl⟩ := decideReview_ok h
      exact ⟨hfocus, by simp [hd]⟩
    | reschedule =>
      cases hdue : d.dueAt with
      | none =>
        simp only [hd, hdue] at h
        cases h
      | some dueAt =>
        simp only [hd, hdue, Tx.write_bind_run] at h
        obtain ⟨hfocus, rfl⟩ := decideReview_ok h
        exact ⟨hfocus, by simp [hd]⟩

theorem mem_dedup {a : Uuid} : ∀ {l : List Uuid}, a ∈ dedup l ↔ a ∈ l
  | [] => Iff.rfl
  | [b] => Iff.rfl
  | b :: c :: l => by
    unfold dedup
    split
    next h =>
      subst h
      rw [mem_dedup]
      simp
    next h => rw [List.mem_cons, mem_dedup, List.mem_cons (a := a) (b := b)]

theorem mem_foldl_insert {a : Uuid} : ∀ {existing carried : List Uuid},
    a ∈ existing.foldl (fun l t => if t ∈ l then l else t :: l) carried ↔ a ∈ carried ∨ a ∈ existing
  | [], carried => by simp
  | t :: rest, carried => by
    rw [List.foldl_cons, mem_foldl_insert]
    split
    next h =>
      constructor
      · rintro (ha | ha)
        · exact .inl ha
        · exact .inr (List.mem_cons_of_mem _ ha)
      · rintro (ha | ha)
        · exact .inl ha
        · rcases List.mem_cons.1 ha with rfl | ha
          · exact .inl h
          · exact .inr ha
    next h =>
      simp only [List.mem_cons]
      tauto

/-- The focus of the date afterwards: what was there, and what is carried forward. -/
theorem completeDailyReview_focused {date : NaiveDate} {version : Int} {decisions : List ReviewDecision} {r : DailyReview}
    (h : completeDailyReview date version decisions w = .ok (r, w')) :
    (decisions.map (·.taskId)).Nodup ∧ ∀ d task, w'.Focused d task ↔
      w.Focused d task ∨ d = date ∧ ∃ x ∈ decisions, x.taskId = task ∧ x.action = .carryForward := by
  unfold completeDailyReview at h
  rw [Tx.write_bind_run, Tx.read_bind_run] at h
  cases hr : w.reviews.find? (·.reviewDate == date) with
  | none =>
    simp only [hr] at h
    cases h
  | some review =>
    simp only [hr] at h
    split at h
    · cases h
    · split at h
      · cases h
      · cases hp : previousUnfinishedFocusDate date
            { w with revisions := bump .reviewSelection 1 w.revisions } with
        | none =>
          simp only [hp] at h
          cases h
        | some previous =>
          simp only [hp, Tx.write_bind_run] at h
          split at h
          · cases h
          next hdecided =>
            obtain ⟨carried, u, hdecide, h⟩ := Tx.bind_ok h
            obtain ⟨hu, rfl⟩ := decideReview_ok hdecide
            split at h
            · cases h
            · cases h
              refine ⟨not_not.1 fun hn => hdecided (.inl hn), fun d task => ?_⟩
              rw [focused_focusRows rfl hu]
              have hcarried : ∀ t, t ∈ [] ++ (decisions.filter fun d => d.action == .carryForward).map (·.taskId) ↔
                  ∃ x ∈ decisions, x.taskId = t ∧ x.action = .carryForward := by
                intro t
                simp only [List.nil_append, List.mem_map, List.mem_filter, beq_iff_eq]
                exact ⟨fun ⟨x, ⟨hx, ha⟩, ht⟩ => ⟨x, hx, ht, ha⟩, fun ⟨x, hx, ht, ha⟩ => ⟨x, ⟨hx, ha⟩, ht⟩⟩
              have hexisting : ∀ t, t ∈ ((w.focus.filter (·.focusDate == date)).insertionSort
                  fun a b => a.position ≤ b.position).map (·.taskId) ↔ w.Focused date t := by
                intro t
                simp only [List.mem_map, List.mem_insertionSort, List.mem_filter, beq_iff_eq]
                exact ⟨fun ⟨f, ⟨hf, hdate⟩, ht⟩ => ⟨f, hf, hdate, ht⟩, fun ⟨f, hf, hdate, ht⟩ => ⟨f, ⟨hf, hdate⟩, ht⟩⟩
              by_cases hd : d = date
              · subst hd
                rw [if_pos rfl, mem_dedup, mem_foldl_insert, hcarried, hexisting]
                simp only [true_and]
                exact or_comm
              · rw [if_neg hd]
                exact ⟨.inl, fun h => h.elim id fun h => absurd h.1 hd⟩

end Store

/-! ## Histories -/

open Store

/-- A successful transaction of a history. One that fails leaves no trace. -/
inductive DiaryOp
  | focus (date : NaiveDate) (taskIds : List Uuid)
  /-- Any change of the tasks: a new status, an edit, a deletion, the time that passes. -/
  | tasks (t : StoreTx Unit)
  | start (date : NaiveDate) (manual : Bool) (review : Option (DailyReview × List TaskRow))
  | complete (date : NaiveDate) (expectedVersion : Int) (decisions : List ReviewDecision)

namespace DiaryOp

def date? : DiaryOp → Option NaiveDate
  | .focus date _ => some date
  | .tasks _ => none
  | .start date _ _ => some date
  | .complete date _ _ => some date

def Runs (w w' : Workspace) : DiaryOp → Prop
  | .focus date taskIds => updateDailyFocus date taskIds w = .ok ((), w')
  | .tasks t => Workspace.onDb t w = .ok ((), w')
  | .start date manual review => startDailyReview date manual w = .ok (review, w')
  | .complete date version decisions => ∃ r, completeDailyReview date version decisions w = .ok (r, w')

/-- A review of the date decided to remove or to reschedule the task. -/
def Drops (date : NaiveDate) (task : Uuid) : DiaryOp → Prop
  | .complete d _ decisions => d = date ∧ ∃ x ∈ decisions, x.taskId = task ∧ x.action ≠ .carryForward
  | _ => False

/-- It puts the task into the focus of the date or of a later one. -/
def Puts (date : NaiveDate) (task : Uuid) : DiaryOp → Prop
  | .focus d taskIds => date ≤ d ∧ task ∈ taskIds
  | .complete d _ decisions => date ≤ d ∧ ∃ x ∈ decisions, x.taskId = task ∧ x.action = .carryForward
  | _ => False

end DiaryOp

/-- An operation with the workspace before and after it. -/
structure DiaryEntry where
  before : Workspace
  op : DiaryOp
  after : Workspace

/-- A history, its last entry first, on dates that never go back. -/
inductive Diary : List DiaryEntry → Workspace → Prop
  | start {w : Workspace} (h : w.focus = []) : Diary [] w
  | step {past : List DiaryEntry} {w w' : Workspace} {op : DiaryOp} (h : Diary past w) (hrun : op.Runs w w')
      (hdate : ∀ e ∈ past, ∀ d ∈ e.op.date?, ∀ date ∈ op.date?, d ≤ date) : Diary (⟨w, op, w'⟩ :: past) w'

/-- A review of the date has dropped the task, which has not been put into the focus of that or a
later date since. -/
def LetGo (date : NaiveDate) (task : Uuid) : List DiaryEntry → Prop
  | [] => False
  | e :: past => e.op.Drops date task ∨ LetGo date task past ∧ ¬ e.op.Puts date task

/-- The decisions of the reviews are final: a task that has been dropped is not listed on a later
date, and one that is carried forward is in the focus of the date. -/
def Final : List DiaryEntry → Prop
  | [] => True
  | e :: past => Final past ∧
    match e.op with
    | .start reviewDate _ review => ∀ listed ∈ review.map (·.2), ∀ date task,
        LetGo date task past → date < reviewDate → task ∉ listed.map (·.id)
    | .complete date _ decisions => ∀ x ∈ decisions, x.action = .carryForward → e.after.Focused date x.taskId
    | _ => True

/-- No review drops a task that is in the focus of its own date. -/
def DropsOthers : List DiaryEntry → Prop
  | [] => True
  | e :: past => DropsOthers past ∧
    match e.op with
    | .complete date _ decisions => ∀ x ∈ decisions, x.action ≠ .carryForward → ¬ e.before.Focused date x.taskId
    | _ => True

/-- When a review starts, a list from before the date that dropped one of its tasks, still
unfinished, is followed by the list of a later date with an unfinished task. -/
def LooksBack : List DiaryEntry → Prop
  | [] => True
  | e :: past => LooksBack past ∧
    match e.op with
    | .start reviewDate manual _ => manual = true ∨ e.before.automaticDailyReview = true → ∀ date task,
        LetGo date task past → date < reviewDate → e.before.Unfinished task →
          ∀ d < date, e.before.Focused d task →
            ∃ later other, d < later ∧ later < reviewDate ∧ e.before.Focused later other ∧ e.before.Unfinished other
    | _ => True

/-! ## Where the dropped tasks are -/

variable {past : List DiaryEntry} {w w' : Workspace}

/-- The focus lists are of dates there has been something to do on. -/
theorem Diary.focused_le (h : Diary past w) {d : NaiveDate} {task : Uuid} (hf : w.Focused d task) :
    ∃ e ∈ past, ∃ date ∈ e.op.date?, d ≤ date := by
  induction h generalizing d task with
  | start hempty =>
    obtain ⟨f, hf, -⟩ := hf
    rw [hempty] at hf
    cases hf
  | @step past w w' op h hrun hdate ih =>
    have hold : w.Focused d task → ∃ e ∈ (⟨w, op, w'⟩ : DiaryEntry) :: past, ∃ date ∈ e.op.date?, d ≤ date := by
      intro hf
      obtain ⟨e, he, hle⟩ := ih hf
      exact ⟨e, List.mem_cons_of_mem _ he, hle⟩
    have hnew : d ∈ op.date? → ∃ e ∈ (⟨w, op, w'⟩ : DiaryEntry) :: past, ∃ date ∈ e.op.date?, d ≤ date :=
      fun hd => ⟨_, List.mem_cons_self, d, hd, le_rfl⟩
    cases op with
    | focus date taskIds =>
      rw [updateDailyFocus_focused hrun] at hf
      by_cases hd : d = date
      · exact hnew (hd ▸ rfl)
      · rw [if_neg hd] at hf
        exact hold hf
    | tasks t => exact hold (Workspace.focused_of_onDb hrun hf)
    | start date manual review =>
      unfold Workspace.Focused at hf
      rw [(startDailyReview_ok hrun).1] at hf
      exact hold hf
    | complete date version decisions =>
      obtain ⟨r, hrun⟩ := hrun
      rcases ((completeDailyReview_focused hrun).2 d task).1 hf with hf | ⟨rfl, -⟩
      · exact hold hf
      · exact hnew rfl

/-- A dropped task is in the focus of earlier dates only. -/
theorem Diary.dropped_lt (h : Diary past w) (hothers : DropsOthers past) {date d : NaiveDate} {task : Uuid}
    (hdropped : LetGo date task past) (hf : w.Focused d task) : d < date := by
  induction h generalizing d with
  | start hempty => exact hdropped.elim
  | @step past w w' op h hrun hdate ih =>
    obtain ⟨hothers, hop⟩ := hothers
    have hold : ¬ op.Drops date task → w.Focused d task → d < date := by
      intro hn hf
      rcases hdropped with hdrops | ⟨hdropped, -⟩
      · exact absurd hdrops hn
      · exact ih hothers hdropped hf
    cases op with
    | focus at_ taskIds =>
      rw [updateDailyFocus_focused hrun] at hf
      by_cases hd : d = at_
      · rw [if_pos hd] at hf
        rcases hdropped with hdrops | ⟨-, hputs⟩
        · exact hdrops.elim
        · subst hd
          exact not_le.1 fun hle => hputs ⟨hle, hf⟩
      · rw [if_neg hd] at hf
        exact hold id hf
    | tasks t => exact hold id (Workspace.focused_of_onDb hrun hf)
    | start at_ manual review =>
      unfold Workspace.Focused at hf
      rw [(startDailyReview_ok hrun).1] at hf
      exact hold id hf
    | complete at_ version decisions =>
      obtain ⟨r, hrun⟩ := hrun
      obtain ⟨hnodup, hfocused⟩ := completeDailyReview_focused hrun
      rcases hdropped with ⟨rfl, x, hx, rfl, haction⟩ | ⟨hdropped, hputs⟩
      · rcases (hfocused d x.taskId).1 hf with hf | ⟨-, y, hy, htask, hcarry⟩
        · -- no list is of a later date, and the one of this date did not have the task
          obtain ⟨e, he, date', hdate', hle⟩ := h.focused_le hf
          have hle' : d ≤ at_ := hle.trans (hdate e he date' hdate' at_ rfl)
          have hne : d ≠ at_ := by
            rintro rfl
            exact hop x hx haction hf
          exact lt_of_le_of_ne hle' hne
        · have hxy : y = x := List.inj_on_of_nodup_map hnodup hy hx htask
          exact absurd (hxy ▸ hcarry) haction
      · rcases (hfocused d task).1 hf with hf | ⟨rfl, hcarry⟩
        · exact ih hothers hdropped hf
        · exact not_le.1 fun hle => hputs ⟨hle, hcarry⟩

/-- What a review lists, in terms of the focus. -/
theorem mem_lists {reviewDate : NaiveDate} {manual : Bool} {task : Uuid} :
    (∃ listed ∈ lists reviewDate manual w, task ∈ listed.map (·.id)) ↔
      (manual = true ∨ w.automaticDailyReview = true) ∧ w.Unfinished task ∧ ∃ d < reviewDate, w.Focused d task ∧
        ∀ later other, w.Focused later other → w.Unfinished other → later < reviewDate → later ≤ d := by
  unfold lists
  by_cases hoff : manual = false ∧ w.automaticDailyReview = false
  · rw [if_pos hoff]
    simp [hoff.1, hoff.2]
  · rw [if_neg hoff]
    have hon : manual = true ∨ w.automaticDailyReview = true := by
      cases manual <;> cases ha : w.automaticDailyReview <;> simp_all
    constructor
    · rintro ⟨_, hlisted, htask⟩
      obtain ⟨d, hd, rfl⟩ := Option.map_eq_some_iff.1 hlisted
      obtain ⟨⟨hlt, -⟩, hmax⟩ := previousUnfinishedFocusDate_eq_some.1 hd
      obtain ⟨hf, hu⟩ := mem_focusTasksForDate.1 htask
      exact ⟨hon, hu, d, hlt, hf, fun later other hf hu hl => hmax later other hl hf hu⟩
    · rintro ⟨-, hu, d, hlt, hf, hmax⟩
      have hprevious : previousUnfinishedFocusDate reviewDate w = some d :=
        previousUnfinishedFocusDate_eq_some.2 ⟨⟨hlt, task, hf, hu⟩, fun later other hl hf hu => hmax later other hf hu hl⟩
      exact ⟨_, Option.map_eq_some_iff.2 ⟨d, hprevious, rfl⟩, mem_focusTasksForDate.2 ⟨hf, hu⟩⟩

/-- Where reviews drop only tasks that are not in the focus of their own date, decisions are final
exactly when no later review looks back past the date they were made on. -/
theorem final_iff (h : Diary past w) (hothers : DropsOthers past) : Final past ↔ LooksBack past := by
  induction h with
  | start hempty => exact Iff.rfl
  | @step past w w' op h hrun hdate ih =>
    refine and_congr (ih hothers.1) ?_
    cases op with
    | focus date taskIds => exact Iff.rfl
    | tasks t => exact Iff.rfl
    | start reviewDate manual review =>
      have hlists : review.map (·.2) = lists reviewDate manual w := (startDailyReview_ok hrun).2
      simp only [hlists]
      constructor
      · intro hfinal hon date task hdropped hlt hu d hd hf
        by_contra hnone
        have hlast : ∀ later other, w.Focused later other → w.Unfinished other → later < reviewDate → later ≤ d := by
          intro later other hf hu hl
          by_contra hle
          exact hnone ⟨later, other, not_le.1 hle, hl, hf, hu⟩
        obtain ⟨listed, hlisted, htask⟩ := mem_lists.2 ⟨hon, hu, d, hd.trans hlt, hf, hlast⟩
        exact hfinal listed hlisted date task hdropped hlt htask
      · intro hback listed hlisted date task hdropped hlt htask
        obtain ⟨hon, hu, d, -, hf, hlast⟩ := mem_lists.1 ⟨listed, hlisted, htask⟩
        obtain ⟨later, other, hd, hl, hother, hunfinished⟩ :=
          hback hon date task hdropped hlt hu d (h.dropped_lt hothers.1 hdropped hf) hf
        exact absurd (hlast later other hother hunfinished hl) (not_le.2 hd)
    | complete date version decisions =>
      obtain ⟨r, hrun⟩ := hrun
      exact ⟨fun _ => trivial, fun _ x hx hcarry =>
        ((completeDailyReview_focused hrun).2 date x.taskId).2 (.inr ⟨rfl, x, hx, rfl, hcarry⟩)⟩

/-! ## A task that is removed -/

def chore : CreateTaskRequest := ⟨none, none, "t", "", none, none, none, .todo, .medium, .none, [], none⟩

/-- A new account with two tasks. -/
def chores : Workspace :=
  (Action.createTask chore).perform ⟨id, fun _ => 0⟩ ((Action.createTask chore).perform ⟨id, fun _ => 0⟩ (.initial 0 0 none false))

def choresPlanned : Workspace := (Tx.commit (updateDailyFocus 1 [0]) chores).2

def choresOpened : Workspace := (Tx.commit (startDailyReview 2 true) choresPlanned).2

def choresReviewed : Workspace := (Tx.commit (completeDailyReview 2 1 [⟨0, .remove, none⟩]) choresOpened).2

/-- Day 1 is planned, and its task removed on day 2. -/
def choresPast (review : Option (DailyReview × List TaskRow)) : List DiaryEntry :=
  [⟨choresOpened, .complete 2 1 [⟨0, .remove, none⟩], choresReviewed⟩, ⟨choresPlanned, .start 2 true review, choresOpened⟩,
    ⟨chores, .focus 1 [0], choresPlanned⟩]

theorem chores_diary : ∃ review, Diary (choresPast review) choresReviewed := by
  obtain ⟨_, hfocus⟩ := Tx.commit_ok (t := updateDailyFocus 1 [0]) (s := chores) (by decide +kernel)
  obtain ⟨review, hstart⟩ := Tx.commit_ok (t := startDailyReview 2 true) (s := choresPlanned) (by decide +kernel)
  obtain ⟨r, hcomplete⟩ := Tx.commit_ok (t := completeDailyReview 2 1 [⟨0, .remove, none⟩]) (s := choresOpened)
    (by decide +kernel)
  refine ⟨review, .step (.step (.step (.start (by decide +kernel)) hfocus ?_) hstart ?_) ⟨r, hcomplete⟩ ?_⟩
  · simp
  · simp [DiaryOp.date?]
  · simp [DiaryOp.date?]

/-- The task removed on day 2 is listed on day 3. -/
theorem removed_listed_again : ¬ ∀ past w, Diary past w → Final past := by
  intro h
  obtain ⟨review, hpast⟩ := chores_diary
  obtain ⟨r, hstart⟩ := Tx.commit_ok (t := startDailyReview 3 true) (s := choresReviewed) (by decide +kernel)
  have hrun : (DiaryOp.start 3 true r).Runs choresReviewed (Tx.commit (startDailyReview 3 true) choresReviewed).2 := hstart
  have hdiary := Diary.step hpast hrun (by simp [choresPast, DiaryOp.date?])
  obtain ⟨-, hfinal⟩ := h _ _ hdiary
  obtain ⟨listed, hlisted, htask⟩ : ∃ listed ∈ lists 3 true choresReviewed, 0 ∈ listed.map (·.id) := by decide +kernel
  refine hfinal listed ?_ 2 0 (.inl ⟨rfl, _, List.mem_cons_self, rfl, by decide⟩) (by decide) htask
  rw [(startDailyReview_ok hstart).2]
  exact hlisted

def choresReplanned : Workspace := (Tx.commit (updateDailyFocus 3 [1]) choresReviewed).2

/-- With another task in the focus of day 3, day 4 does not list it. -/
theorem final_iff_chores : ∃ review r w, Final (⟨choresReplanned, .start 4 true r, w⟩ ::
    ⟨choresReviewed, .focus 3 [1], choresReplanned⟩ :: choresPast review) := by
  obtain ⟨review, hpast⟩ := chores_diary
  obtain ⟨_, hfocus⟩ := Tx.commit_ok (t := updateDailyFocus 3 [1]) (s := choresReviewed) (by decide +kernel)
  obtain ⟨r, hstart⟩ := Tx.commit_ok (t := startDailyReview 4 true) (s := choresReplanned) (by decide +kernel)
  have hrun : (DiaryOp.start 4 true r).Runs choresReplanned (Tx.commit (startDailyReview 4 true) choresReplanned).2 := hstart
  have hreplanned : Diary (⟨choresReviewed, .focus 3 [1], choresReplanned⟩ :: choresPast review) choresReplanned := by
    refine .step hpast hfocus ?_
    simp [choresPast, DiaryOp.date?]
  refine ⟨review, r, _, (final_iff (.step hreplanned hrun ?_) ?_).2 ?_⟩
  · simp [choresPast, DiaryOp.date?]
  · refine ⟨⟨⟨⟨⟨trivial, trivial⟩, trivial⟩, ?_⟩, trivial⟩, trivial⟩
    intro x hx haction
    rw [List.mem_singleton.1 hx]
    decide +kernel
  · refine ⟨⟨⟨⟨⟨trivial, trivial⟩, ?_⟩, trivial⟩, trivial⟩, ?_⟩
    · intro hon date task hdropped
      exact absurd hdropped (by simp [LetGo, DiaryOp.Drops])
    · intro hon date task hdropped hlt hu d hd hf
      have hbetween : ∀ a b : Int, a < b → b < 4 → a < 3 := by omega
      have hfocused : choresReplanned.Focused 3 1 := by decide +kernel
      have hunfinished : choresReplanned.Unfinished 1 := by decide +kernel
      exact ⟨3, 1, hbetween d date hd hlt, by decide, hfocused, hunfinished⟩

end Prosepect
