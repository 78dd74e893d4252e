/-
The checks of task requests, each as the condition it stands for, and what passes them again once
it is stored: trimmed texts, normalized labels.
-/
import Prosepect.Calendar.Constraints
import Prosepect.Store.TaskFacts

namespace Prosepect

open Resumption Text Time

namespace Store

/-! ## The fields -/

/-- Both ends of a schedule, in order, or none. -/
def Timed (start end_ : Option DateTime) : Prop :=
  (start = none ∧ end_ = none) ∨ ∃ s e, start = some s ∧ end_ = some e ∧ s < e

/-- What `validate_task_fields` asks for. -/
structure FieldsFit (r : CreateTaskRequest) : Prop where
  title : 1 ≤ (trim r.title).length ∧ (trim r.title).length ≤ 240
  description : r.description.length ≤ 10000
  recurs : r.recurrence ≠ .none → r.dueAt ≠ none ∧ r.parentTaskId = none
  timed : Timed r.scheduledStart r.scheduledEnd

theorem timed_ok_iff {start end_ : Option DateTime} : (match start, end_ with
      | none, none => pure ()
      | some start, some end_ =>
        if end_ > start then pure () else throw (.validation "scheduled_end must be after scheduled_start")
      | _, _ => throw (.validation "scheduled_start and scheduled_end must be provided together") :
        Except AppError Unit) = .ok () ↔ Timed start end_ := by
  unfold Timed
  cases start with
  | none =>
    cases end_ with
    | none => exact ⟨fun _ => .inl ⟨rfl, rfl⟩, fun _ => rfl⟩
    | some e => simp [throw, throwThe, MonadExceptOf.throw]
  | some s =>
    cases end_ with
    | none => simp [throw, throwThe, MonadExceptOf.throw]
    | some e =>
      by_cases h : s < e
      · simp [h, pure, Except.pure]
      · simp [h, throw, throwThe, MonadExceptOf.throw]

theorem validateTaskFields_ok_iff (r : CreateTaskRequest) : validateTaskFields r = .ok () ↔ FieldsFit r := by
  unfold validateTaskFields
  simp only [refuse_ok_iff]
  constructor
  · rintro ⟨ht, hd, hdue, hparent, htimes⟩
    refine ⟨by omega, by omega, fun hr => ⟨fun h => hdue ⟨hr, h⟩, ?_⟩, timed_ok_iff.1 htimes⟩
    by_contra hp
    exact hparent ⟨hr, hp⟩
  · rintro ⟨ht, hd, hr, htimes⟩
    refine ⟨by omega, by omega, fun h => (hr h.1).1 h.2, fun h => h.2 (hr h.1).2, timed_ok_iff.2 htimes⟩

/-! ## Trimmed texts -/

theorem length_trimChars_le (p : Char → Bool) (l : List Char) : (trimChars p l).length ≤ l.length :=
  (List.rdropWhile_prefix (p := p) (l.dropWhile p)).length_le.trans (List.dropWhile_suffix (l := l) p).length_le

theorem length_trim_le (s : String) : (trim s).length ≤ s.length := by
  have h := length_trimChars_le isWhitespace s.toList
  rw [← String.length_toList, ← String.length_toList]
  simpa [trim] using h

/-- Without white space at its ends a text has no spaces there. -/
theorem sqlTrim_trim (s : String) : sqlTrim (trim s) = trim s := by
  have htrimmed : trimChars isWhitespace (trim s).toList = (trim s).toList := by
    simp [trim, trimChars_idem]
  obtain ⟨hhead, hlast⟩ := (trimChars_eq_self_iff _ _).1 htrimmed
  have hspace : ∀ c : Char, ¬ isWhitespace c = true → ¬ (c == ' ') = true := by
    intro c hc hs
    rw [beq_iff_eq.1 hs] at hc
    exact hc (by decide)
  have h : trimChars (· == ' ') (trim s).toList = (trim s).toList :=
    (trimChars_eq_self_iff _ _).2 ⟨fun hl => hspace _ (hhead hl), fun hl => hspace _ (hlast hl)⟩
  unfold sqlTrim
  rw [h, String.ofList_toList]

/-! ## Labels -/

/-- A label as `validate_labels` leaves it. -/
structure LabelFits (toLowercase : String → String) (label : String) : Prop where
  normal : toLowercase (trim label) = label
  nonempty : label.length ≠ 0
  short : label.length ≤ 32

section Labels

variable {toLowercase : String → String}

/-- A second normalization finds nothing to do: of lower-case letters and what is not white space
`to_lowercase` leaves as it is. -/
def Settles (toLowercase : String → String) : Prop :=
  ∀ s, toLowercase (trim (toLowercase (trim s))) = toLowercase (trim s)

theorem normalizeLabels_ok (hl : Settles toLowercase) : ∀ {labels seen out : List String},
    normalizeLabels toLowercase seen labels = .ok out → (∀ l ∈ seen, LabelFits toLowercase l) → seen.Nodup →
    (∀ l ∈ out, LabelFits toLowercase l) ∧ out.Nodup
  | [], seen, out, h, hs, hn => by
    cases h
    exact ⟨hs, hn⟩
  | label :: rest, seen, out, h, hs, hn => by
    unfold normalizeLabels at h
    simp only at h
    split at h
    · exact normalizeLabels_ok hl h hs hn
    · rename_i hempty
      split at h
      · cases h
      · rename_i hlong
        split at h
        · exact normalizeLabels_ok hl h hs hn
        · rename_i hnew
          refine normalizeLabels_ok hl h ?_ ?_
          · intro l hm
            rcases List.mem_append.1 hm with hm | hm
            · exact hs l hm
            · rw [List.mem_singleton.1 hm]
              exact ⟨hl label, hempty, by omega⟩
          · refine List.nodup_append.2 ⟨hn, List.nodup_singleton _, fun a ha b hb => ?_⟩
            rw [List.mem_singleton.1 hb]
            exact fun hab => hnew (hab ▸ ha)

theorem normalizeLabels_normal : ∀ {labels seen : List String}, (∀ l ∈ labels, LabelFits toLowercase l) →
    (seen ++ labels).Nodup → normalizeLabels toLowercase seen labels = .ok (seen ++ labels)
  | [], seen, _, _ => by
    rw [List.append_nil]
    rfl
  | label :: rest, seen, h, hn => by
    have hfit := h label List.mem_cons_self
    have hnew : label ∉ seen := fun hm => (List.nodup_append.1 hn).2.2 label hm label List.mem_cons_self rfl
    unfold normalizeLabels
    simp only [hfit.normal, if_neg hfit.nonempty, if_neg (Nat.not_lt.2 hfit.short), if_neg hnew]
    rw [normalizeLabels_normal (fun l hm => h l (List.mem_cons_of_mem _ hm)) (by rwa [List.append_assoc]),
      List.append_assoc]
    rfl

/-- Labels that are stored are accepted as they are. -/
theorem validateLabels_idem (hl : Settles toLowercase) {labels out : List String}
    (h : validateLabels toLowercase labels = .ok out) : validateLabels toLowercase out = .ok out := by
  unfold validateLabels at h ⊢
  cases hn : normalizeLabels toLowercase [] labels with
  | error e =>
    rw [hn] at h
    cases h
  | ok names =>
    rw [hn] at h
    by_cases hlong : names.length > 10
    · simp only [bind, Except.bind, if_pos hlong] at h
      cases h
    · simp only [bind, Except.bind, if_neg hlong] at h
      cases h
      obtain ⟨hfit, hnodup⟩ := normalizeLabels_ok hl hn (fun l hm => by cases hm) List.nodup_nil
      rw [normalizeLabels_normal hfit (by simpa using hnodup)]
      simp only [bind, Except.bind, List.nil_append, if_neg hlong]
      rfl

end Labels

/-! ## The relations -/

theorem parentFits_ok_iff {project : Option Uuid} {q : TaskRow} {e e' : AppError} : (if q.projectId ≠ project
      then (throw e : Except AppError PUnit) >>= fun _ => if q.recurrence ≠ .none then throw e' else pure ()
      else if q.recurrence ≠ .none then throw e' else pure () : Except AppError Unit) = .ok () ↔
      q.projectId = project ∧ q.recurrence = .none := by
  by_cases hp : q.projectId = project
  · rw [if_neg (not_not.2 hp), refuse_last_iff, not_not]
    exact ⟨fun h => ⟨hp, h⟩, fun h => h.2⟩
  · simp [hp, throw, throwThe, MonadExceptOf.throw, bind, Except.bind]

theorem parent_ok_iff {project parent : Option Uuid} {db : Db} {e e' e'' : AppError} : (match parent with
      | some parent => match db.task? parent with
        | some q =>
          if q.projectId ≠ project
          then (throw e : Except AppError PUnit) >>= fun _ => if q.recurrence ≠ .none then throw e' else pure ()
          else if q.recurrence ≠ .none then throw e' else pure ()
        | none => throw e''
      | none => pure () : Except AppError Unit) = .ok () ↔
      ∀ p, parent = some p → ∃ q, db.task? p = some q ∧ q.projectId = project ∧ q.recurrence = .none := by
  cases parent with
  | none => simp [pure, Except.pure]
  | some p =>
    cases hq : db.task? p with
    | none => simp [hq, throw, throwThe, MonadExceptOf.throw]
    | some q => simpa [hq] using parentFits_ok_iff

theorem validateTaskRelationships_ok_iff {project parent : Option Uuid} {db : Db} :
    validateTaskRelationships project parent db = .ok () ↔ (∀ p, project = some p → p ∈ db.projects) ∧
      ∀ p, parent = some p → ∃ q, db.task? p = some q ∧ q.projectId = project ∧ q.recurrence = .none := by
  unfold validateTaskRelationships
  cases project with
  | none => exact parent_ok_iff.trans ⟨fun h => ⟨fun _ hp => (nomatch hp), h⟩, fun h => h.2⟩
  | some p =>
    simp only [refuse_ok_iff, not_not, Option.some.injEq, forall_eq']
    exact and_congr_right fun _ => parent_ok_iff

theorem validateTaskUpdateRelationships_ok_iff {task : Uuid} {project parent : Option Uuid}
    {recurrence : TaskRecurrence} {db : Db} :
    validateTaskUpdateRelationships task project parent recurrence db = .ok () ↔
      ∃ current, db.task? task = some current ∧
        ((∃ c ∈ db.tasks, c.parentTaskId = some task) → recurrence = .none ∧ current.projectId = project) ∧
        ∀ p, parent = some p → task ∉ parentChain db db.tasks.length p := by
  unfold validateTaskUpdateRelationships
  cases ht : db.task? task with
  | none => simp [throw, throwThe, MonadExceptOf.throw]
  | some current =>
    simp only [refuse_ok_iff, Option.some.injEq, exists_eq_left']
    have hsub : Table.has (fun x => x.parentTaskId == some task) db.tasks = true ↔
        ∃ c ∈ db.tasks, c.parentTaskId = some task := by
      simp
    have hchanges : (¬ (recurrence ≠ .none ∧ Table.has (fun x => x.parentTaskId == some task) db.tasks = true) ∧
        ¬ (current.projectId ≠ project ∧ Table.has (fun x => x.parentTaskId == some task) db.tasks = true)) ↔
        ((∃ c ∈ db.tasks, c.parentTaskId = some task) → recurrence = .none ∧ current.projectId = project) := by
      rw [hsub]
      constructor
      · rintro ⟨hr, hp⟩ hc
        exact ⟨not_not.1 fun h => hr ⟨h, hc⟩, not_not.1 fun h => hp ⟨h, hc⟩⟩
      · intro hc
        exact ⟨fun h => h.1 (hc h.2).1, fun h => h.1 (hc h.2).2⟩
    rw [← and_assoc, hchanges]
    refine and_congr_right fun _ => ?_
    cases parent with
    | none => simp [pure, Except.pure]
    | some p => simp only [refuse_last_iff, Option.some.injEq, forall_eq']

/-! ## Defaults of an exception -/

/-- What `prepare` does with the defaults: it saves them, drops them, or leaves them alone. -/
theorem prepare_ok {row prepared : TaskRow} {r : UpdateTaskRequest} {scope : Option RecurrenceEditScope}
    (h : prepare row r scope = .ok prepared) : row.version = r.expectedVersion ∧
      ((∃ d, defaultsFromTask row.toTask = .ok d ∧ row.recurrenceDefaults = none ∧ r.recurrence = row.recurrence ∧
          prepared = { row with recurrenceDefaults := some d, recurrenceProjectId := row.projectId }) ∨
        prepared = { row with recurrenceDefaults := none, recurrenceProjectId := none } ∨
        (r.recurrence = row.recurrence ∧ prepared = row)) := by
  unfold prepare at h
  by_cases hv : row.version = r.expectedVersion
  · rw [if_neg (not_not.2 hv)] at h
    refine ⟨hv, ?_⟩
    by_cases hs : scope.isSome = true ∧ row.status = .completed
    · rw [if_pos hs] at h
      cases h
    · rw [if_neg hs] at h
      match scope, h with
      | some .thisAndFuture, h =>
        cases h
        exact .inr (.inl rfl)
      | none, h =>
        simp only at h
        split at h
        · cases h
          exact .inr (.inl rfl)
        · rename_i hkeep
          cases h
          exact .inr (.inr ⟨not_not.1 fun hne => hkeep (.inl hne), rfl⟩)
      | some .thisOccurrence, h =>
        simp only at h
        split at h
        · cases h
        · rename_i hrecurs
          have hsame : r.recurrence = row.recurrence := not_not.1 fun hne => hrecurs (.inr hne)
          split at h
          · rename_i hnone
            cases hd : defaultsFromTask row.toTask with
            | error e =>
              rw [hd] at h
              cases h
            | ok d =>
              rw [hd] at h
              cases h
              exact .inl ⟨d, rfl, Option.isNone_iff_eq_none.1 hnone, hsame, rfl⟩
          · cases h
            exact .inr (.inr ⟨hsame, rfl⟩)
  · rw [if_pos hv] at h
    cases h

end Store

end Prosepect
