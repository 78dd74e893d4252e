/-
The series of a recurring task: `n` completions in a row, each of the occurrence the one before left.
The deadline advances by days, weeks or months (`Anchored`), schedule and reminder keep their offset,
and of a month that is too short the next occurrence keeps the day.
-/
import Prosepect.Data.Months
import Prosepect.Store.Completion

namespace Prosepect

open Resumption Table Time

namespace Store

variable {toLowercase : String → String} {db db' : Db} {row current next : TaskRow} {n : Nat}

/-- `n` completions in a row lead from a task to an occurrence; between them nobody edits it. -/
inductive Series (toLowercase : String → String) (row : TaskRow) : Nat → TaskRow → Prop
  | zero : Series toLowercase row 0 row
  | succ {n : Nat} {current next : TaskRow} {db db' : Db} {a : Task} : Series toLowercase row n current →
    db.task? current.id = some current → updateTask toLowercase current.id (completion current) db = .ok (a, db') →
    next ∈ db'.tasks → next.recurrenceSourceId = some current.id → Series toLowercase row (n + 1) next

/-! ## The dates of the source -/

/-- Everything the next dates are computed from. -/
structure SameDates (t t' : Task) : Prop where
  dueAt : t'.dueAt = t.dueAt
  scheduledStart : t'.scheduledStart = t.scheduledStart
  scheduledEnd : t'.scheduledEnd = t.scheduledEnd
  remindAt : t'.remindAt = t.remindAt
  recurrence : t'.recurrence = t.recurrence

theorem SameDates.shiftable {t t' : Task} (h : SameDates t t') (shift : TimeDelta) :
    shiftable t' shift = shiftable t shift := by
  unfold Store.shiftable
  rw [h.scheduledStart, h.scheduledEnd, h.remindAt]

theorem SameDates.overflows {t t' : Task} (h : SameDates t t') (ho : Overflows t') : Overflows t := by
  obtain ⟨dueAt, nextDueAt, hd, hn, hs⟩ := ho
  rw [h.dueAt] at hd
  rw [h.recurrence] at hn
  rw [h.shiftable] at hs
  exact ⟨dueAt, nextDueAt, hd, hn, hs⟩

theorem SameDates.outOfRange {t t' : Task} (h : SameDates t t') (ho : OutOfRange t') : OutOfRange t := by
  obtain ⟨dueAt, e, hd, hn⟩ := ho
  rw [h.dueAt] at hd
  rw [h.recurrence] at hn
  exact ⟨dueAt, e, hd, hn⟩

theorem SameDates.shifted {t t' next : Task} {dueAt nextDueAt : DateTime} (h : SameDates t t')
    (hs : Shifted t' dueAt nextDueAt next) : Shifted t dueAt nextDueAt next := by
  obtain ⟨hd, hn, hdue, hstart, hend, hremind, hrange⟩ := hs
  exact ⟨h.dueAt ▸ hd, h.recurrence ▸ hn, hdue, h.scheduledStart ▸ hstart, h.scheduledEnd ▸ hend,
    h.remindAt ▸ hremind, hrange⟩

/-- A completion without an edit keeps what the exception has saved. -/
theorem prepare_completion {prepared : TaskRow} (hrec : row.recurrence ≠ .none)
    (h : prepare row (completion row) none = .ok prepared) : prepared = row := by
  unfold prepare at h
  rw [if_neg (by simp [completion]), if_neg (by simp)] at h
  simp only at h
  rw [if_neg (by simpa [completion] using hrec)] at h
  cases h
  rfl

theorem sameDates_completion (labels : List String) (now : DateTime) :
    SameDates (successorSource row) (successorSource (updatedTask (completion row) labels row now row)) := by
  unfold successorSource updatedTask
  cases row.recurrenceDefaults with
  | none => exact ⟨rfl, rfl, rfl, rfl, rfl⟩
  | some d => exact ⟨rfl, rfl, rfl, rfl, rfl⟩

/-! ## One completion -/

/-- The occurrence that a completion leaves. -/
theorem completion_next {a : Task} (hrec : current.recurrence ≠ .none) (hopen : current.status ≠ .completed)
    (hfound : db.task? current.id = some current)
    (h : updateTask toLowercase current.id (completion current) db = .ok (a, db')) (hnext : next ∈ db'.tasks)
    (hsource : next.recurrenceSourceId = some current.id) :
    (∃ dueAt nextDueAt, Shifted (successorSource current) dueAt nextDueAt next.toTask) ∧ next.status = .todo ∧
      next.recurrence = (successorSource current).recurrence ∧ next.recurrenceDefaults = none := by
  obtain ⟨labels, prepared, -, hprepared, hf⟩ := completes_next hfound hopen rfl hrec h hnext hsource
  obtain rfl : prepared = current := prepare_completion hrec hprepared
  have hdates := (sameDates_completion labels db.now : SameDates (successorSource prepared) _)
  obtain ⟨dueAt, nextDueAt, hs⟩ := hf.dates
  exact ⟨⟨dueAt, nextDueAt, hdates.shifted hs⟩, hf.todo, hf.recurrence.trans hdates.recurrence, hf.recurrenceDefaults⟩

/-! ## All of them -/

/-- The deadline after `n` periods. -/
def Advanced (recurrence : TaskRecurrence) (d : DateTime) (n : Nat) (u : DateTime) : Prop :=
  match recurrence with
  | .none => False
  | .daily => u = d + n * usPerDay
  | .weekly => u = d + n * (7 * usPerDay)
  | .monthly => MonthsLater 1 d n u
  | .yearly => MonthsLater 12 d n u

theorem checkedAddSigned_ok {t u : DateTime} {d : TimeDelta} (h : checkedAddSigned t d = some u) : u = t + d := by
  unfold checkedAddSigned at h
  split at h
  · exact (Option.some.inj h).symm
  · cases h

theorem inRange_ok {o : Option DateTime} {u : DateTime} (h : (match o with
      | some t => .ok t
      | none => .error (.validation "recurrence date is out of range") : Except AppError DateTime) = .ok u) : o = some u := by
  cases o with
  | none => cases h
  | some t =>
    cases h
    rfl

theorem nextRecurrenceDate_ok {d u : DateTime} {recurrence : TaskRecurrence}
    (h : nextRecurrenceDate d recurrence = .ok u) : match recurrence with
      | .none => False
      | .daily => u = d + usPerDay
      | .weekly => u = d + 7 * usPerDay
      | .monthly => checkedAddMonths d 1 = some u
      | .yearly => checkedAddMonths d 12 = some u := by
  cases recurrence with
  | none => cases h
  | daily => exact checkedAddSigned_ok (inRange_ok h)
  | weekly => exact checkedAddSigned_ok (inRange_ok h)
  | monthly => exact inRange_ok h
  | yearly => exact inRange_ok h

theorem Advanced.zero {recurrence : TaskRecurrence} (hrec : recurrence ≠ .none) (d : DateTime) :
    Advanced recurrence d 0 d := by
  cases recurrence with
  | none => exact absurd rfl hrec
  | daily => simp [Advanced]
  | weekly => simp [Advanced]
  | monthly => exact MonthsLater.zero 1 d
  | yearly => exact MonthsLater.zero 12 d

theorem Advanced.step {recurrence : TaskRecurrence} {d u v : DateTime} (h : Advanced recurrence d n u)
    (hn : nextRecurrenceDate u recurrence = .ok v) : Advanced recurrence d (n + 1) v := by
  have hv := nextRecurrenceDate_ok hn
  cases recurrence with
  | none => exact h
  | daily =>
    have hu : u = d + n * usPerDay := h
    have hv : v = u + usPerDay := hv
    show v = d + ((n + 1 : Nat) : Int) * usPerDay
    rw [hv, hu, Nat.cast_succ, add_one_mul, add_assoc]
  | weekly =>
    have hu : u = d + n * (7 * usPerDay) := h
    have hv : v = u + 7 * usPerDay := hv
    show v = d + ((n + 1 : Nat) : Int) * (7 * usPerDay)
    rw [hv, hu, Nat.cast_succ, add_one_mul, add_assoc]
  | monthly => exact MonthsLater.step h hv
  | yearly => exact MonthsLater.step h hv

/-- An open occurrence, `n` periods after the source, with the offsets of the source. -/
structure Anchored (source : Task) (n : Nat) (next : TaskRow) : Prop where
  todo : next.status = .todo
  recurrence : next.recurrence = source.recurrence
  plain : next.recurrenceDefaults = none
  dates : ∃ d u, source.dueAt = some d ∧ next.dueAt = some u ∧ Advanced source.recurrence d n u ∧
    next.scheduledStart = source.scheduledStart.map (· + (u - d)) ∧
    next.scheduledEnd = source.scheduledEnd.map (· + (u - d)) ∧ next.remindAt = source.remindAt.map (· + (u - d))

/-- Two shifts in a row are one. -/
theorem map_shift (value : Option DateTime) (d u v : DateTime) :
    (value.map (· + (u - d))).map (· + (v - u)) = value.map (· + (v - d)) := by
  cases value with
  | none => rfl
  | some t =>
    have hsum : ∀ t d u v : Int, t + (u - d) + (v - u) = t + (v - d) := by
      intro t d u v
      omega
    exact congrArg some (hsum t d u v)

theorem successorSource_plain (h : row.recurrenceDefaults = none) : successorSource row = row.toTask := by
  unfold successorSource
  rw [h]

theorem Anchored.step {source : Task} (h : Anchored source n current)
    (hs : ∃ dueAt nextDueAt, Shifted (successorSource current) dueAt nextDueAt next.toTask) (htodo : next.status = .todo)
    (hrec : next.recurrence = (successorSource current).recurrence) (hplain : next.recurrenceDefaults = none) :
    Anchored source (n + 1) next := by
  rw [successorSource_plain h.plain] at hs hrec
  obtain ⟨d, u, hd, hu, hadvanced, hstart, hend, hremind⟩ := h.dates
  obtain ⟨u', v, hu', hv, hdue, hstart', hend', hremind', -⟩ := hs
  obtain rfl : u = u' := Option.some.inj (hu.symm.trans hu')
  rw [h.recurrence] at hv hrec
  refine ⟨htodo, hrec, hplain, d, v, hd, hdue, hadvanced.step hv, ?_, ?_, ?_⟩
  · rw [hstart', hstart, map_shift]
  · rw [hend', hend, map_shift]
  · rw [hremind', hremind, map_shift]

theorem anchored_first (hs : ∃ dueAt nextDueAt, Shifted (successorSource row) dueAt nextDueAt next.toTask)
    (htodo : next.status = .todo) (hrec : next.recurrence = (successorSource row).recurrence)
    (hplain : next.recurrenceDefaults = none) : Anchored (successorSource row) 1 next := by
  obtain ⟨d, u, hd, hu, hdue, hstart, hend, hremind, -⟩ := hs
  exact ⟨htodo, hrec, hplain, d, u, hd, hdue, (Advanced.zero (Db.nextRecurrenceDate_recurs hu) d).step hu, hstart, hend,
    hremind⟩

theorem Anchored.recurs {source : Task} (h : Anchored source n next) : next.recurrence ≠ .none := by
  obtain ⟨d, u, -, -, hadvanced, -⟩ := h.dates
  rw [h.recurrence]
  intro hnone
  rw [hnone] at hadvanced
  exact hadvanced

/-- Every occurrence is open and recurs. -/
theorem Series.anchored (h : Series toLowercase row n next) (hrec : row.recurrence ≠ .none)
    (hopen : row.status ≠ .completed) : n = 0 ∧ next = row ∨ Anchored (successorSource row) n next := by
  induction h with
  | zero => exact .inl ⟨rfl, rfl⟩
  | succ hseries hfound hrun hnext hsource ih =>
    refine .inr ?_
    rcases ih with ⟨rfl, rfl⟩ | ih
    · obtain ⟨hs, htodo, hr, hplain⟩ := completion_next hrec hopen hfound hrun hnext hsource
      exact anchored_first hs htodo hr hplain
    · obtain ⟨hs, htodo, hr, hplain⟩ := completion_next ih.recurs (by rw [ih.todo]; simp) hfound hrun hnext hsource
      exact ih.step hs htodo hr hplain

/-- A monthly task of the last of January. -/
def monthEnd : TaskRow := { standup with recurrence := .monthly, dueAt := some (midnight (daysOf ⟨2026, 1, 31⟩)) }

/-- An occurrence of `monthEnd`. -/
def monthEndTask (id source : Uuid) (d : NaiveDate) (position : Int) : TaskRow :=
  { monthEnd with id := id, dueAt := some (midnight d), position := position, recurrenceSourceId := some source }

/-- The tables after `monthEnd` has been completed. -/
def februaryTables : Db := (Tx.commit (updateTask (fun s => s) 1 (completion monthEnd)) (soloTables monthEnd)).2

/-- The tables after its successor has been completed too. -/
def marchTables : Db :=
  (Tx.commit (updateTask (fun s => s) 2 (completion (monthEndTask 2 1 (daysOf ⟨2026, 2, 28⟩) 2048))) februaryTables).2

/-- A task as its completion leaves it. -/
def doneTask (row : TaskRow) : Task := { row.toTask with status := .completed, completedAt := some 0, version := 2 }

theorem series_monthEnd : Series (fun s => s) monthEnd 2 (monthEndTask 3 2 (daysOf ⟨2026, 3, 28⟩) 3072) := by
  have hjanuary : updateTask (fun s => s) 1 (completion monthEnd) (soloTables monthEnd) =
      .ok (doneTask monthEnd, februaryTables) := by decide +kernel
  have hfebruary : updateTask (fun s => s) 2 (completion (monthEndTask 2 1 (daysOf ⟨2026, 2, 28⟩) 2048)) februaryTables =
      .ok (doneTask (monthEndTask 2 1 (daysOf ⟨2026, 2, 28⟩) 2048), marchTables) := by decide +kernel
  have hfirst : Series (fun s => s) monthEnd 1 (monthEndTask 2 1 (daysOf ⟨2026, 2, 28⟩) 2048) :=
    .succ .zero rfl hjanuary (by decide +kernel) rfl
  exact .succ hfirst (by decide +kernel) hfebruary (by decide +kernel) rfl

end Store

end Prosepect
