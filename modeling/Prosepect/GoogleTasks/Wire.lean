/-
The fields of a task on their way to Google and back: they come back as they were sent exactly when
the title has no white space at its ends and the date has a year of four digits
(`fields_survive_iff`).
-/
import Prosepect.Data.Rfc3339
import Prosepect.GoogleTasks.Settle

namespace Prosepect

open Time Text Store

namespace GoogleTasks

/-- The dates of `chrono`. -/
def chrono : Dates where
  parse := fun s => (parseFromRfc3339 s.toList).map (·.1)
  print := fun d => String.ofList (formatDate d)

theorem parse_print (d : NaiveDate) :
    chrono.parse (chrono.print d ++ "T00:00:00.000Z") = if FourDigits d then some d else none := by
  have htext : (chrono.print d ++ "T00:00:00.000Z").toList = formatDate d ++ "T00:00:00.000Z".toList := by
    unfold chrono
    rw [String.toList_append, String.toList_ofList]
  show (parseFromRfc3339 _).map (·.1) = _
  rw [htext]
  unfold parseFromRfc3339
  by_cases h : FourDigits d
  · rw [if_pos h, readDate_formatDate h]
    rfl
  · rw [if_neg h, readDate_sign h]
    rfl

theorem parse_fourDigits {s : String} {d : NaiveDate} (h : chrono.parse s = some d) : FourDigits d := by
  obtain ⟨⟨date, rest⟩, hparse, rfl⟩ := Option.map_eq_some_iff.1 h
  unfold parseFromRfc3339 at hparse
  simp only [Option.bind_eq_bind] at hparse
  obtain ⟨⟨date', l⟩, hdate, hparse⟩ := Option.bind_eq_some_iff.1 hparse
  have hkept : date = date' := by
    cases l with
    | nil => cases hparse
    | cons c l =>
      simp only at hparse
      split at hparse
      · obtain ⟨⟨time, l₁⟩, -, hparse⟩ := Option.bind_eq_some_iff.1 hparse
        obtain ⟨⟨offset, l₂⟩, -, hparse⟩ := Option.bind_eq_some_iff.1 hparse
        simp only at hparse
        split at hparse
        · cases hparse
          rfl
        · cases hparse
      · cases hparse
  rw [hkept]
  exact readDate_fourDigits hdate

/-- The title is as `tasks` stores it. -/
def StoredTitle (task : Task) : Prop := 1 ≤ (sqlTrim task.title).length ∧ (sqlTrim task.title).length ≤ 240

instance (task : Task) : Decidable (StoredTitle task) := inferInstanceAs (Decidable (_ ∧ _))

/-- A task of Google that is no assignment, with the fields it was sent. -/
structure Echo (body : GoogleBody) (answer : GoogleTask) : Prop where
  held : body.Held answer
  id : answer.id ≠ ""
  live : answer.deleted = false
  own : answer.assignmentInfo = none

/-- The projected fields are valid, and an answer that echoes them is read as what was sent. -/
def Survives (zone : Zone) (task : Task) : Prop :=
  (googleTaskFields zone task).valid = true ∧
    ∀ answer, Echo ((googleTaskFields zone task).googleBody chrono) answer →
      answer.fields chrono = .ok (googleTaskFields zone task)

/-- What was read of an answer is sent again as it came. -/
def Reencodes (answer : GoogleTask) (fields : TaskFields) : Prop :=
  (fields.googleBody chrono).title = answer.title ∧
    (fields.googleBody chrono).due.map chrono.parse = answer.due.map chrono.parse ∧
    some (fields.googleBody chrono).status = answer.status

/-- An echo of valid fields whose date has a year of four digits. -/
theorem fields_of_echo {fields : TaskFields} {answer : GoogleTask} (he : Echo (fields.googleBody chrono) answer)
    (hvalid : fields.valid = true) (htrim : trim fields.title = fields.title)
    (hdate : ∀ d, fields.date = some d → FourDigits d) : answer.fields chrono = .ok fields := by
  obtain ⟨⟨htitle, hdue, hstatus⟩, hid, hlive, hown⟩ := he
  obtain ⟨title, date, completed⟩ := fields
  simp only [TaskFields.googleBody] at htitle hdue hstatus htrim hdate
  have hgood : ¬ (answer.id = "" ∨ answer.deleted = true ∨ answer.assignmentInfo.isSome) := by
    rw [hlive, hown]
    simp [hid]
  have hdone : answer.status = some "completed" → completed = true := by
    intro hs
    rw [hstatus] at hs
    cases completed with
    | true => rfl
    | false => simp at hs
  have hopen : answer.status = some "needsAction" → completed = false := by
    intro hs
    rw [hstatus] at hs
    cases completed with
    | true => simp at hs
    | false => rfl
  have hother : ¬ answer.status = some "completed" → ¬ answer.status = some "needsAction" → False := by
    intro h1 h2
    cases completed with
    | true => exact h1 hstatus
    | false => exact h2 hstatus
  unfold GoogleTask.fields
  rw [if_neg hgood, hdue, htitle, htrim]
  cases date with
  | none =>
    simp only [Option.map_none]
    split
    next hs =>
      obtain rfl := hdone hs
      simp only [pure_bind, hvalid, Bool.true_eq_false, if_false]
      rfl
    next hs =>
      obtain rfl := hopen hs
      simp only [pure_bind, hvalid, Bool.true_eq_false, if_false]
      rfl
    next h1 h2 => exact (hother h1 h2).elim
  | some d =>
    simp only [Option.map_some, parse_print, if_pos (hdate d rfl)]
    split
    next hs =>
      obtain rfl := hdone hs
      simp only [pure_bind, hvalid, Bool.true_eq_false, if_false]
      rfl
    next hs =>
      obtain rfl := hopen hs
      simp only [pure_bind, hvalid, Bool.true_eq_false, if_false]
      rfl
    next h1 h2 => exact (hother h1 h2).elim

/-- An echo of any fields. -/
def echo (body : GoogleBody) : GoogleTask := ⟨"echo", none, body.title, body.due, some body.status, false, none, none⟩

theorem survives_iff {zone : Zone} {task : Task} (hstored : StoredTitle task) : Survives zone task ↔
    trim task.title = task.title ∧ ∀ t, task.dueAt = some t → FourDigits (dateNaive (zone.wall t)) := by
  constructor
  · rintro ⟨-, h⟩
    have hread := h (echo _) ⟨⟨rfl, rfl, rfl⟩, by simp [echo], rfl, rfl⟩
    obtain ⟨-, htitle, hdate, -⟩ := GoogleTask.fields_ok hread
    refine ⟨htitle.symm, fun t ht => ?_⟩
    simp only [echo, TaskFields.googleBody, googleTaskFields, ht, Option.map_some, Option.some.injEq, parse_print] at hdate
    by_contra hyear
    rw [if_neg (show ¬ FourDigits (zone.wall t / usPerDay) from hyear)] at hdate
    cases hdate
  · rintro ⟨htrim, hyear⟩
    have hvalid : (googleTaskFields zone task).valid = true := by
      have hsql : sqlTrim task.title = task.title := by rw [← htrim, sqlTrim_trim]
      unfold StoredTitle at hstored
      rw [hsql] at hstored
      unfold TaskFields.valid googleTaskFields
      simp only [htrim, Bool.and_eq_true, decide_eq_true_eq]
      omega
    refine ⟨hvalid, fun answer he => fields_of_echo he hvalid htrim fun d hd => ?_⟩
    obtain ⟨t, ht, rfl⟩ := Option.map_eq_some_iff.1 hd
    exact hyear t ht

theorem reencodes_iff {answer : GoogleTask} {fields : TaskFields} (h : answer.fields chrono = .ok fields) :
    Reencodes answer fields ↔ trim answer.title = answer.title := by
  obtain ⟨-, htitle, hdate, hstatus⟩ := GoogleTask.fields_ok h
  have hdue : (fields.googleBody chrono).due.map chrono.parse = answer.due.map chrono.parse := by
    rw [hdate]
    show (fields.date.map _).map chrono.parse = _
    cases hd : fields.date with
    | none => rfl
    | some d =>
      obtain ⟨due, -, hparse⟩ := Option.map_eq_some_iff.1 (hdate.trans (congrArg (Option.map some) hd))
      simp only [Option.map_some, parse_print, if_pos (parse_fourDigits hparse)]
  unfold Reencodes
  rw [hdue, hstatus]
  simp only [TaskFields.googleBody, htitle, and_true]

/-- Fields survive the way to Google and back, and what comes from there the way back, exactly when
neither title has white space at its ends and the date has a year of four digits. -/
theorem fields_survive_iff {zone : Zone} {task : Task} {answer : GoogleTask} {fields : TaskFields}
    (hstored : StoredTitle task) (h : answer.fields chrono = .ok fields) :
    Survives zone task ∧ Reencodes answer fields ↔
      (trim task.title = task.title ∧ ∀ t, task.dueAt = some t → FourDigits (dateNaive (zone.wall t))) ∧
        trim answer.title = answer.title :=
  and_congr (survives_iff hstored) (reencodes_iff h)

/-- A task with a deadline on 1 January 1970, which is also what Google sends back. -/
def dated (title : String) : Task where
  id := 1
  projectId := none
  parentTaskId := none
  title := title
  description := ""
  dueAt := some 0
  scheduledStart := none
  scheduledEnd := none
  status := .todo
  priority := .medium
  recurrence := .none
  labels := []
  remindAt := none
  position := 1
  completedAt := none
  createdAt := 0
  updatedAt := 0
  version := 1

def utc : Zone := ⟨id, id⟩

theorem fields_dated : (echo ((googleTaskFields utc (dated "Review")).googleBody chrono)).fields chrono =
    .ok (googleTaskFields utc (dated "Review")) :=
  fields_of_echo ⟨⟨rfl, rfl, rfl⟩, by simp [echo], rfl, rfl⟩ (by decide +kernel) (by decide +kernel) (by
    rintro d ⟨⟩
    decide +kernel)

/-- A title with a space at its end, as a pull of its event may write it, comes back without it. -/
theorem padded_title_changes : ¬ ∀ zone task answer fields, StoredTitle task → answer.fields chrono = .ok fields →
    Survives zone task ∧ Reencodes answer fields := by
  intro h
  obtain ⟨htrim, -⟩ := (survives_iff (by decide +kernel)).1 (h utc (dated "Review ") _ _ (by decide +kernel) fields_dated).1
  exact absurd htrim (by decide +kernel)

theorem fields_survive_iff_dated : Survives utc (dated "Review") ∧
    Reencodes (echo ((googleTaskFields utc (dated "Review")).googleBody chrono)) (googleTaskFields utc (dated "Review")) :=
  (fields_survive_iff (by decide +kernel) fields_dated).2 ⟨⟨by decide +kernel, by
    rintro t ⟨⟩
    decide +kernel⟩, by decide +kernel⟩

end GoogleTasks

end Prosepect
