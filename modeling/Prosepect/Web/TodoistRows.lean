/-
`parseTodoistCsv`: where the rows of a file end up — counted once, a task under the row it is
indented below, a comment at the row it follows — and when a row without text gets in between.
-/
import Prosepect.Web.TodoistImport

namespace Prosepect.Web

open Text Script Outline

/-! ## Rows and their places -/

section Rows

variable (browser : Browser) (rows : List TodoistRow)

def isSection (row : TodoistRow) : Bool := rowType browser row == "section".toList

def isTask (row : TodoistRow) : Bool := rowType browser row == "task".toList

/-- A task row with a text. One without is skipped. -/
def isImported (row : TodoistRow) : Bool := isTask browser row && !(rowContent row).isEmpty

/-- A note row with a text. -/
def isComment (row : TodoistRow) : Bool := rowType browser row == "note".toList && !(rowContent row).isEmpty

def rowAt (p : TodoistRow → Bool) (n : Nat) : Bool := rows[n]?.any p

def indentAt (n : Nat) : Nat := (rows[n]?.map rowIndent).getD 1

def contentAt (n : Nat) : List Char := (rows[n]?.map rowContent).getD []

def taskAt (n : Nat) : Bool := rowAt rows (isTask browser) n

def importedAt (n : Nat) : Bool := rowAt rows (isImported browser) n

def commentAt (n : Nat) : Bool := rowAt rows (isComment browser) n

/-- The place a row has among the imported tasks. -/
def taskIndex (n : Nat) : Nat := Nat.count (importedAt browser rows · = true) n

/-- Of the rows in `p`, the nearest before `n` that is less indented, if it is indented one less. -/
def parentRow (p : Nat → Bool) (n : Nat) : Option Nat :=
  (nearest? (fun j => p j && indentAt rows j < indentAt rows n) n).filter fun m => indentAt rows m + 1 == indentAt rows n

/-- The index of the task a task is imported under. -/
def expectedParent (n : Nat) : Option Nat :=
  ((parentRow rows (taskAt browser rows) n).filter (importedAt browser rows)).map (taskIndex browser rows)

/-- A comment whose task row was imported. -/
def keptComment (n : Nat) : Bool :=
  commentAt browser rows n && (nearest? (taskAt browser rows) n).any (importedAt browser rows)

/-- The comments before `stop` that follow row `m`, of the rows in `p`. -/
def commentsOf (p : Nat → Bool) (stop m : Nat) : List (List Char) :=
  ((List.range stop).filter fun n => commentAt browser rows n && nearest? p n == some m).map (contentAt rows)

def withComments (comments : List (List Char)) (task : TodoistImportTaskPayload) : TodoistImportTaskPayload :=
  comments.foldl (fun task content => appendComment content task) task

/-- Every row is counted once, every task is under its parent and every comment is at its task. -/
structure KeepsPlace (out : ParsedTodoistImport) : Prop where
  tasks : out.report.importedTasks = taskIndex browser rows rows.length
  comments : out.report.importedComments = Nat.count (keptComment browser rows · = true) rows.length
  sections : out.report.importedSections = Nat.count (rowAt rows (isSection browser) · = true) rows.length
  counted : out.report.importedTasks + out.report.importedComments + out.report.importedSections +
    out.report.skippedRows = rows.length
  length : out.request.tasks.length = out.report.importedTasks
  placed : ∀ n, importedAt browser rows n = true → ∃ task, out.request.tasks[taskIndex browser rows n]? = some task ∧
    task.parentIndex = expectedParent browser rows n ∧
    (1 < indentAt rows n → expectedParent browser rows n = none → missingParent (n + 2) ∈ out.report.warnings)
  earlier : ∀ (i : Nat) (task : TodoistImportTaskPayload) (p : Nat), out.request.tasks[i]? = some task →
    task.parentIndex = some p → p < i
  /-- A task is as it was imported, with the comments at its row. -/
  described : ∀ n, importedAt browser rows n = true → ∀ (s : Importing) (task : TodoistImportTaskPayload),
    importRows browser 2 (rows.take (n + 1)) .initial = .ok s → s.tasks[taskIndex browser rows n]? = some task →
    out.request.tasks[taskIndex browser rows n]? =
      some (withComments (commentsOf browser rows (taskAt browser rows) rows.length n) task)

end Rows

/-! ## One row -/

variable {browser : Browser} {rows : List TodoistRow} {row : TodoistRow} {s s' : Importing} {k n : Nat}

theorem taskOf_parentIndex {content section_ : List Char} {parentIndex : Option Nat} {task : TodoistImportTaskPayload}
    {warnings : List (List Char)} (h : taskOf browser k row content section_ parentIndex = .ok (task, warnings)) :
    task.parentIndex = parentIndex := by
  unfold taskOf at h
  simp only [bind, Except.bind, pure, Except.pure] at h
  split at h
  · cases h
  · split at h
    · cases h
    · split at h
      · cases h
      · cases h
        rfl

/-- What a row can do. -/
theorem importRow_cases (h : importRow browser k row s = .ok s') :
    (isSection browser row = true ∧ isImported browser row = false ∧ isComment browser row = false ∧
      s' = { s with
        currentSection := rowContent row
        report := { s.report with importedSections := s.report.importedSections + 1 } }) ∨
    (isSection browser row = false ∧ isImported browser row = false ∧ isComment browser row = true ∧
      ∃ last, s.lastTaskIndex = some last ∧
        s' = { s with
          tasks := s.tasks.modify last (appendComment (rowContent row))
          report := { s.report with importedComments := s.report.importedComments + 1 } }) ∨
    (isSection browser row = false ∧ isImported browser row = false ∧
      (isComment browser row = true → s.lastTaskIndex = none) ∧ ∃ warning, s' = s.skip warning) ∨
    (isSection browser row = false ∧ isImported browser row = true ∧ isComment browser row = false ∧
      importTask browser k row s = .ok s') := by
  unfold importRow at h
  simp only at h
  split at h
  · rename_i hs
    refine .inl ⟨by simp [isSection, hs], ?_, ?_, (Except.ok.inj h).symm⟩
    · simp only [isImported, isTask, hs, Bool.and_eq_false_iff]
      exact .inl (by decide)
    · simp only [isComment, hs, Bool.and_eq_false_iff]
      exact .inl (by decide)
  · rename_i hs
    have hsection : isSection browser row = false := by simpa [isSection] using hs
    split at h
    · rename_i hn
      have himported : isImported browser row = false := by
        simp only [isImported, isTask, hn, Bool.and_eq_false_iff]
        exact .inl (by decide)
      obtain rfl := Except.ok.inj h
      unfold importNote
      split
      · rename_i hl
        exact .inr (.inr (.inl ⟨hsection, himported, fun _ => hl, _, rfl⟩))
      · rename_i last hl
        split
        · rename_i hc
          exact .inr (.inr (.inl ⟨hsection, himported, by simp [isComment, hc], _, rfl⟩))
        · rename_i hc
          exact .inr (.inl ⟨hsection, himported, by simp [isComment, hn, hc], last, hl, rfl⟩)
    · rename_i hn
      have hcomment : isComment browser row = false := by
        simp only [isComment, beq_eq_false_iff_ne.2 hn, Bool.false_and]
      split at h
      · rename_i ht
        obtain rfl := Except.ok.inj h
        exact .inr (.inr (.inl ⟨hsection, by simp only [isImported, isTask, beq_eq_false_iff_ne.2 ht, Bool.false_and],
          by simp [hcomment], _, rfl⟩))
      · rename_i ht
        split at h
        · rename_i hc
          obtain rfl := Except.ok.inj h
          exact .inr (.inr (.inl ⟨hsection, by simp [isImported, hc], by simp [hcomment], _, rfl⟩))
        · rename_i hc
          exact .inr (.inr (.inr ⟨hsection, by simp only [isImported, isTask]; simp [not_not.1 ht, hc], hcomment, h⟩))

/-! ### Warnings -/

theorem mem_addWarning {report : TodoistImportReport} {warning w : List Char} :
    w ∈ (addWarning report warning).warnings ↔ w ∈ report.warnings ∨ w = warning := by
  unfold addWarning
  split
  · rename_i h
    constructor
    · exact .inl
    · rintro (h' | rfl)
      · exact h'
      · exact List.contains_iff_mem.1 h
  · simp

theorem mem_addWarnings {w : List Char} : ∀ {warnings : List (List Char)} {report : TodoistImportReport},
    w ∈ (warnings.foldl addWarning report).warnings ↔ w ∈ report.warnings ∨ w ∈ warnings
  | [], report => by simp
  | warning :: rest, report => by
    rw [List.foldl_cons, mem_addWarnings, mem_addWarning, List.mem_cons, or_assoc]

/-- Warnings change no counter. -/
theorem addWarning_counters (report : TodoistImportReport) (warning : List Char) :
    addWarning report warning = { report with warnings := (addWarning report warning).warnings } := by
  unfold addWarning
  split <;> rfl

theorem addWarnings_counters : ∀ (warnings : List (List Char)) (report : TodoistImportReport),
    warnings.foldl addWarning report = { report with warnings := (warnings.foldl addWarning report).warnings }
  | [], _ => rfl
  | warning :: rest, report => by
    rw [List.foldl_cons, addWarnings_counters rest, addWarning_counters]

/-- What the import of a task row does. -/
theorem importTask_ok (h : importTask browser k row s = .ok s') :
    ∃ task, task.parentIndex = (if rowIndent row > 1 then at? s.parentsByIndent (rowIndent row - 1) else none) ∧
      s'.tasks = s.tasks ++ [task] ∧ s'.lastTaskIndex = some s.tasks.length ∧
      s'.parentsByIndent = place s.parentsByIndent (rowIndent row) s.tasks.length ∧
      s'.report.importedTasks = s.report.importedTasks + 1 ∧ s'.report.importedComments = s.report.importedComments ∧
      s'.report.importedSections = s.report.importedSections ∧ s'.report.skippedRows = s.report.skippedRows ∧
      (∀ w ∈ s.report.warnings, w ∈ s'.report.warnings) ∧
      (1 < rowIndent row → task.parentIndex = none → missingParent k ∈ s'.report.warnings) := by
  unfold importTask at h
  simp only [bind, Except.bind, pure, Except.pure] at h
  split at h
  · cases h
  · rename_i v hv
    obtain ⟨task, warnings⟩ := v
    have hp := taskOf_parentIndex hv
    obtain rfl := Except.ok.inj h
    refine ⟨task, hp, rfl, rfl, rfl, ?_⟩
    rw [addWarnings_counters]
    refine ⟨rfl, rfl, rfl, rfl, fun w hw => mem_addWarnings.2 (.inl hw), fun hi hnone => ?_⟩
    rw [hp] at hnone
    refine mem_addWarnings.2 (.inr (List.mem_append_left _ ?_))
    rw [if_pos ⟨hi, hnone⟩]
    exact List.mem_singleton_self _

/-! ## The run over the rows -/

theorem importRows_concat : ∀ (l : List TodoistRow) {k : Nat} {s : Importing},
    importRows browser k (l ++ [row]) s = (importRows browser k l s).bind (importRow browser (k + l.length) row)
  | [], k, s => by
    simp only [List.nil_append, importRows, List.length_nil, Nat.add_zero, Except.bind]
    cases importRow browser k row s <;> rfl
  | a :: l, k, s => by
    simp only [List.cons_append, importRows, List.length_cons]
    cases h : importRow browser k a s with
    | error e => rfl
    | ok s' =>
      simp only [bind, Except.bind]
      rw [importRows_concat l, show k + 1 + l.length = k + (l.length + 1) by omega]
      rfl

/-- The parent the code finds: among the rows that were imported. -/
def foundParent (browser : Browser) (rows : List TodoistRow) (n : Nat) : Option Nat :=
  (parentRow rows (importedAt browser rows) n).map (taskIndex browser rows)

/-- A comment that the code keeps: after any task that was imported. -/
def foundComment (browser : Browser) (rows : List TodoistRow) (n : Nat) : Bool :=
  commentAt browser rows n && (nearest? (importedAt browser rows) n).isSome

/-- What holds after the first `n` rows. -/
structure Imported (browser : Browser) (rows : List TodoistRow) (n : Nat) (s : Importing) : Prop where
  length : s.tasks.length = taskIndex browser rows n
  last : s.lastTaskIndex = (nearest? (importedAt browser rows) n).map (taskIndex browser rows)
  trail : ∀ k, at? s.parentsByIndent k =
    (anchor (importedAt browser rows) (indentAt rows) k n).map (taskIndex browser rows)
  tasks : s.report.importedTasks = taskIndex browser rows n
  comments : s.report.importedComments = Nat.count (foundComment browser rows · = true) n
  sections : s.report.importedSections = Nat.count (rowAt rows (isSection browser) · = true) n
  counted : s.report.importedTasks + s.report.importedComments + s.report.importedSections + s.report.skippedRows = n
  placed : ∀ m < n, importedAt browser rows m = true → ∃ task, s.tasks[taskIndex browser rows m]? = some task ∧
    task.parentIndex = foundParent browser rows m ∧
    (1 < indentAt rows m → foundParent browser rows m = none → missingParent (m + 2) ∈ s.report.warnings)
  earlier : ∀ (i : Nat) (task : TodoistImportTaskPayload) (p : Nat), s.tasks[i]? = some task →
    task.parentIndex = some p → p < i
  described : ∀ m < n, importedAt browser rows m = true → ∃ s₀ task,
    importRows browser 2 (rows.take (m + 1)) .initial = .ok s₀ ∧ s₀.tasks[taskIndex browser rows m]? = some task ∧
    s.tasks[taskIndex browser rows m]? =
      some (withComments (commentsOf browser rows (importedAt browser rows) n m) task)

theorem imported_zero : Imported browser rows 0 .initial where
  length := by simp [Importing.initial, taskIndex]
  last := rfl
  trail _ := by simp [Importing.initial, at?, anchor, nearest?]
  tasks := by simp [Importing.initial, taskIndex]
  comments := by simp [Importing.initial]
  sections := by simp [Importing.initial]
  counted := rfl
  placed m h := absurd h (Nat.not_lt_zero m)
  earlier i task p h := by simp [Importing.initial] at h
  described m h := absurd h (Nat.not_lt_zero m)

section Step

theorem importedAt_of (browser : Browser) (hr : rows[n]? = some row) : importedAt browser rows n = isImported browser row := by
  simp [importedAt, rowAt, hr]

theorem commentAt_of (browser : Browser) (hr : rows[n]? = some row) : commentAt browser rows n = isComment browser row := by
  simp [commentAt, rowAt, hr]

theorem taskIndex_succ (browser : Browser) (rows : List TodoistRow) (n : Nat) :
    taskIndex browser rows (n + 1) = taskIndex browser rows n + if importedAt browser rows n = true then 1 else 0 :=
  Nat.count_succ _ n

/-- The next index is that of no earlier task. -/
theorem taskIndex_lt {m : Nat} (hm : m < n) (h : importedAt browser rows m = true) :
    taskIndex browser rows m < taskIndex browser rows n :=
  Nat.count_strict_mono h hm

theorem commentsOf_succ (p : Nat → Bool) (n m : Nat) :
    commentsOf browser rows p (n + 1) m = commentsOf browser rows p n m ++
      if commentAt browser rows n = true ∧ nearest? p n = some m then [contentAt rows n] else [] := by
  unfold commentsOf
  rw [List.range_succ, List.filter_append, List.map_append]
  congr 1
  by_cases h : commentAt browser rows n = true ∧ nearest? p n = some m
  · simp [h.1, h.2]
  · rw [if_neg h]
    simp only [List.map_eq_nil_iff, List.filter_eq_nil_iff, List.mem_singleton]
    rintro _ rfl
    simpa using h

/-- No comment is at a row that is not before it. -/
theorem commentsOf_eq_nil {p : Nat → Bool} {stop m : Nat} (h : stop ≤ m + 1) : commentsOf browser rows p stop m = [] := by
  unfold commentsOf
  simp only [List.map_eq_nil_iff, List.filter_eq_nil_iff, List.mem_range, Bool.and_eq_true, beq_iff_eq, not_and]
  intro j hj _ hm
  have := (nearest?_eq_some.1 hm).1
  omega

/-- A row that brings neither a task nor a comment leaves the tasks as they are. -/
theorem Imported.quiet (hi : Imported browser rows n s) (himported : importedAt browser rows n = false)
    (hcomment : foundComment browser rows n = false) (htasks : s'.tasks = s.tasks) (hlast : s'.lastTaskIndex = s.lastTaskIndex)
    (htrail : s'.parentsByIndent = s.parentsByIndent) (hw : ∀ w ∈ s.report.warnings, w ∈ s'.report.warnings)
    (h1 : s'.report.importedTasks = s.report.importedTasks) (h2 : s'.report.importedComments = s.report.importedComments)
    (h3 : s'.report.importedSections = Nat.count (rowAt rows (isSection browser) · = true) (n + 1))
    (h4 : s'.report.importedSections + s'.report.skippedRows = s.report.importedSections + s.report.skippedRows + 1) :
    Imported browser rows (n + 1) s' := by
  have hindex : taskIndex browser rows (n + 1) = taskIndex browser rows n := by
    rw [taskIndex_succ, himported]
    rfl
  have hbefore : ∀ m, m < n + 1 → importedAt browser rows m = true → m < n := by
    intro m hm h
    rcases Nat.lt_or_eq_of_le (Nat.le_of_lt_succ hm) with hm | rfl
    · exact hm
    · rw [himported] at h
      cases h
  constructor
  · rw [htasks, hindex, hi.length]
  · rw [hlast, hi.last, nearest?, himported]
    rfl
  · intro k
    rw [htrail, hi.trail, anchor_succ_of_not _ _ himported]
  · rw [h1, hindex, hi.tasks]
  · rw [h2, Nat.count_succ, hcomment, hi.comments]
    rfl
  · exact h3
  · have := hi.counted
    omega
  · intro m hm h
    obtain ⟨task, ht, hp, hmissing⟩ := hi.placed m (hbefore m hm h) h
    exact ⟨task, by rw [htasks, ht], hp, fun h1 h2 => hw _ (hmissing h1 h2)⟩
  · intro i task p h
    rw [htasks] at h
    exact hi.earlier i task p h
  · intro m hm h
    obtain ⟨s₀, task, h0, ht, hd⟩ := hi.described m (hbefore m hm h) h
    refine ⟨s₀, task, h0, ht, ?_⟩
    rw [htasks, hd, commentsOf_succ, if_neg, List.append_nil]
    rintro ⟨hc, hn⟩
    simp [foundComment, hc, hn] at hcomment

/-- A comment goes to the last task that was imported. -/
theorem Imported.comment (hi : Imported browser rows n s) (hr : rows[n]? = some row) (hsection : isSection browser row = false)
    (himported : isImported browser row = false) (hcomment : isComment browser row = true) {last : Nat}
    (hlast : s.lastTaskIndex = some last) :
    Imported browser rows (n + 1) { s with
      tasks := s.tasks.modify last (appendComment (rowContent row))
      report := { s.report with importedComments := s.report.importedComments + 1 } } := by
  rw [← importedAt_of browser hr] at himported
  rw [← commentAt_of browser hr] at hcomment
  have hindex : taskIndex browser rows (n + 1) = taskIndex browser rows n := by
    rw [taskIndex_succ, himported]
    rfl
  obtain ⟨m₀, hm₀, rfl⟩ : ∃ m₀, nearest? (importedAt browser rows) n = some m₀ ∧ taskIndex browser rows m₀ = last := by
    rw [hi.last] at hlast
    simpa using hlast
  obtain ⟨hm₀n, hm₀i, -⟩ := nearest?_eq_some.1 hm₀
  have hcontent : contentAt rows n = rowContent row := by simp [contentAt, hr]
  have hbefore : ∀ m, m < n + 1 → importedAt browser rows m = true → m < n := by
    intro m hm h
    rcases Nat.lt_or_eq_of_le (Nat.le_of_lt_succ hm) with hm | rfl
    · exact hm
    · rw [himported] at h
      cases h
  constructor
  · rw [hindex, ← hi.length]
    exact List.length_modify ..
  · rw [nearest?, himported]
    exact hi.last
  · intro k
    rw [anchor_succ_of_not _ _ himported]
    exact hi.trail k
  · rw [hindex]
    exact hi.tasks
  · rw [Nat.count_succ, if_pos (by simp [foundComment, hcomment, hm₀]), ← hi.comments]
  · rw [Nat.count_succ, if_neg (by simp [rowAt, hr, hsection]), ← hi.sections]
    rfl
  · have := hi.counted
    simp only
    omega
  · intro m hm h
    obtain ⟨task, ht, hp, hmissing⟩ := hi.placed m (hbefore m hm h) h
    by_cases he : taskIndex browser rows m₀ = taskIndex browser rows m
    · exact ⟨appendComment (rowContent row) task, by simp [he, ht], hp, hmissing⟩
    · exact ⟨task, by simp [he, ht], hp, hmissing⟩
  · intro i task p h hp
    simp only [List.getElem?_modify] at h
    cases hb : s.tasks[i]? with
    | none => simp [hb] at h
    | some before =>
      rw [hb] at h
      obtain rfl := Option.some.inj h
      refine hi.earlier i before p hb ?_
      split at hp
      · exact hp
      · exact hp
  · intro m hm h
    obtain ⟨s₀, task, h0, ht, hd⟩ := hi.described m (hbefore m hm h) h
    refine ⟨s₀, task, h0, ht, ?_⟩
    rw [commentsOf_succ]
    by_cases he : m₀ = m
    · subst he
      rw [if_pos ⟨hcomment, hm₀⟩, hcontent]
      simp [hd, withComments]
    · have hne : taskIndex browser rows m₀ ≠ taskIndex browser rows m :=
        fun h' => he (Nat.count_injective hm₀i h h')
      rw [if_neg (by rw [hm₀]; simp [he])]
      simp [hne, hd]

theorem one_le_parseIndent (value : List Char) : 1 ≤ parseIndent value := by
  unfold parseIndent
  split
  · split
    · omega
    · omega
  · omega

theorem one_le_indentAt (rows : List TodoistRow) (n : Nat) : 1 ≤ indentAt rows n := by
  unfold indentAt
  cases rows[n]? with
  | none => exact Nat.le_refl 1
  | some row => exact one_le_parseIndent _

theorem parentRow_eq_anchor (p : Nat → Bool) (h : 1 < indentAt rows n) :
    parentRow rows p n = anchor p (indentAt rows) (indentAt rows n - 1) n := by
  unfold parentRow anchor
  have hless : ∀ j, (p j && decide (indentAt rows j < indentAt rows n)) = (p j && decide (indentAt rows j ≤ indentAt rows n - 1)) := by
    intro j
    congr 1
    rw [decide_eq_decide]
    omega
  have hexact : ∀ m, (indentAt rows m + 1 == indentAt rows n) = (indentAt rows m == indentAt rows n - 1) := by
    intro m
    rw [Bool.eq_iff_iff, beq_iff_eq, beq_iff_eq]
    omega
  simp only [hless, hexact]

/-- A task that is not indented has no parent. -/
theorem parentRow_eq_none (p : Nat → Bool) (h : indentAt rows n = 1) : parentRow rows p n = none := by
  unfold parentRow
  rw [nearest?_eq_none.2, Option.filter_none]
  intro j _
  have := one_le_indentAt rows j
  simp only [Bool.and_eq_false_iff, decide_eq_false_iff_not]
  exact .inr (by omega)

/-- A task row brings the next task. -/
theorem Imported.task (hi : Imported browser rows n s) (hr : rows[n]? = some row) (hsection : isSection browser row = false)
    (himported : isImported browser row = true) (hcomment : isComment browser row = false)
    (hrun : importRows browser 2 (rows.take (n + 1)) .initial = .ok s') (h : importTask browser (n + 2) row s = .ok s') :
    Imported browser rows (n + 1) s' := by
  rw [← importedAt_of browser hr] at himported
  rw [← commentAt_of browser hr] at hcomment
  have hindent : indentAt rows n = rowIndent row := by simp [indentAt, hr]
  have hindex : taskIndex browser rows (n + 1) = taskIndex browser rows n + 1 := by
    rw [taskIndex_succ, himported]
    rfl
  obtain ⟨task, hparent, htasks, hlast, htrail, h1, h2, h3, h4, hw, hmissing⟩ := importTask_ok h
  have hnew : s'.tasks[taskIndex browser rows n]? = some task := by
    rw [htasks, ← hi.length]
    simp
  have hold : ∀ m, m < n → importedAt browser rows m = true →
      s'.tasks[taskIndex browser rows m]? = s.tasks[taskIndex browser rows m]? := by
    intro m hm h
    rw [htasks, List.getElem?_append_left]
    rw [hi.length]
    exact taskIndex_lt hm h
  have hfound : task.parentIndex = foundParent browser rows n := by
    rw [hparent, foundParent, ← hindent]
    by_cases h1 : 1 < indentAt rows n
    · rw [if_pos h1, hi.trail, parentRow_eq_anchor _ h1]
    · rw [if_neg h1, parentRow_eq_none _ (by have := one_le_indentAt rows n; omega)]
      rfl
  constructor
  · rw [htasks, hindex, List.length_append, hi.length]
    rfl
  · rw [hlast, nearest?, himported, hi.length]
    rfl
  · intro k
    rw [htrail, hi.length, ← hindent]
    exact at?_place_anchor himported hi.trail k
  · rw [h1, hindex, hi.tasks]
  · rw [h2, Nat.count_succ, if_neg (by simp [foundComment, hcomment]), hi.comments]
    rfl
  · rw [h3, Nat.count_succ, if_neg (by simp [rowAt, hr, hsection]), hi.sections]
    rfl
  · have := hi.counted
    omega
  · intro m hm h
    rcases Nat.lt_or_eq_of_le (Nat.le_of_lt_succ hm) with hm | rfl
    · obtain ⟨task', ht, hp, hmiss⟩ := hi.placed m hm h
      exact ⟨task', by rw [hold m hm h, ht], hp, fun h1 h2 => hw _ (hmiss h1 h2)⟩
    · refine ⟨task, hnew, hfound, fun h1 h2 => hmissing (by omega) ?_⟩
      rw [hfound, h2]
  · intro i task' p h hp
    rw [htasks, List.getElem?_append] at h
    split at h
    · exact hi.earlier i task' p h hp
    · rename_i hlt
      obtain ⟨hi0, rfl⟩ : i - s.tasks.length = 0 ∧ task = task' := by
        cases hk : i - s.tasks.length with
        | zero => simpa [hk] using h
        | succ k => simp [hk] at h
      rw [hfound, foundParent, Option.map_eq_some_iff] at hp
      obtain ⟨m, hm, rfl⟩ := hp
      unfold parentRow at hm
      obtain ⟨hm, -⟩ := Option.filter_eq_some_iff.1 hm
      obtain ⟨hmn, hmi, -⟩ := nearest?_eq_some.1 hm
      simp only [Bool.and_eq_true] at hmi
      have := taskIndex_lt hmn hmi.1
      rw [← hi.length] at this
      omega
  · intro m hm h
    rcases Nat.lt_or_eq_of_le (Nat.le_of_lt_succ hm) with hm | rfl
    · obtain ⟨s₀, task', h0, ht, hd⟩ := hi.described m hm h
      refine ⟨s₀, task', h0, ht, ?_⟩
      rw [hold m hm h, hd, commentsOf_succ, if_neg (by simp [hcomment]), List.append_nil]
    · refine ⟨s', task, hrun, hnew, ?_⟩
      rw [hnew, commentsOf_eq_nil (Nat.le_refl _)]
      rfl

/-- The run keeps it. -/
theorem imported_take : ∀ {n : Nat} {s : Importing}, n ≤ rows.length →
    importRows browser 2 (rows.take n) .initial = .ok s → Imported browser rows n s
  | 0, s, _, h => by
    simp only [List.take_zero, importRows, Except.ok.injEq] at h
    subst h
    exact imported_zero
  | n + 1, s', hn, h => by
    obtain ⟨row, hr⟩ : ∃ row, rows[n]? = some row := ⟨rows[n], List.getElem?_eq_getElem (by omega)⟩
    have htake : rows.take (n + 1) = rows.take n ++ [row] := by
      rw [List.take_add_one, hr]
      rfl
    have hrun := h
    rw [htake, importRows_concat, List.length_take, Nat.min_eq_left (by omega), Nat.add_comm 2] at h
    cases hs : importRows browser 2 (rows.take n) .initial with
    | error e =>
      rw [hs] at h
      cases h
    | ok s =>
      rw [hs] at h
      have hi := imported_take (by omega) hs
      rcases importRow_cases h with ⟨h1, h2, h3, rfl⟩ | ⟨h1, h2, h3, last, hl, rfl⟩ | ⟨h1, h2, h3, w, rfl⟩ | ⟨h1, h2, h3, h4⟩
      · refine hi.quiet (by rw [importedAt_of browser hr, h2]) (by simp [foundComment, commentAt_of browser hr, h3]) rfl rfl rfl
          (fun _ h => h) rfl rfl ?_ ?_
        · rw [Nat.count_succ, if_pos (by simp [rowAt, hr, h1]), ← hi.sections]
        · simp only
          omega
      · exact hi.comment hr h1 h2 h3 hl
      · have hfound : foundComment browser rows n = false := by
          unfold foundComment
          rw [commentAt_of browser hr]
          cases hc : isComment browser row with
          | false => rfl
          | true =>
            have hlast := hi.last
            rw [h3 hc, eq_comm, Option.map_eq_none_iff] at hlast
            rw [hlast]
            rfl
        refine hi.quiet (by rw [importedAt_of browser hr, h2]) hfound rfl rfl rfl ?_ ?_ ?_ ?_ ?_
        · intro w' hw'
          exact mem_addWarning.2 (.inl hw')
        · rw [Importing.skip, addWarning_counters]
        · rw [Importing.skip, addWarning_counters]
        · rw [Importing.skip, addWarning_counters, Nat.count_succ, if_neg (by simp [rowAt, hr, h1]), ← hi.sections]
          rfl
        · rw [Importing.skip, addWarning_counters]
          simp only
          omega
      · exact hi.task hr h1 h2 h3 hrun h4

end Step

/-! ## Where a skipped task row gets in between -/

section Conditions

variable (browser : Browser) (rows : List TodoistRow)

/-- The dates of a row can be read, and its work time ends at a date. -/
def Timely (sourceRow : Nat) (row : TodoistRow) : Prop :=
  ∃ date deadline scheduledEnd,
    parseImportedDate browser (Script.trim (field row "DATE")) (Script.trim (field row "TIMEZONE")) sourceRow = .ok date ∧
    parseImportedDate browser (Script.trim (field row "DEADLINE")) (Script.trim (field row "TIMEZONE")) sourceRow = .ok deadline ∧
    workEnd date.1 (parseDuration browser row sourceRow).1 = .ok scheduledEnd

/-- No task hides behind a row without text that is less indented: the nearest such row with a text
is not its parent. -/
def ParentsShown : Prop :=
  ∀ n, importedAt browser rows n = true →
    ∀ m, nearest? (fun j => taskAt browser rows j && indentAt rows j < indentAt rows n) n = some m →
      importedAt browser rows m = false →
        ∀ m', nearest? (fun j => importedAt browser rows j && indentAt rows j < indentAt rows n) n = some m' →
          indentAt rows m' + 1 ≠ indentAt rows n

/-- A comment at a task row without text follows no task at all. -/
def OwnersShown : Prop :=
  ∀ n, commentAt browser rows n = true → ∀ m, nearest? (taskAt browser rows) n = some m →
    importedAt browser rows m = false → nearest? (importedAt browser rows) n = none

end Conditions

theorem taskAt_of_importedAt (h : importedAt browser rows n = true) : taskAt browser rows n = true := by
  unfold importedAt taskAt rowAt at *
  cases hr : rows[n]? with
  | none => simp [hr] at h
  | some row =>
    rw [hr] at h
    simp only [Option.any_some, isImported, Bool.and_eq_true] at h ⊢
    exact h.1

theorem taskOf_ok_iff {content section_ : List Char} {parentIndex : Option Nat} :
    (∃ r, taskOf browser k row content section_ parentIndex = .ok r) ↔ Timely browser k row := by
  unfold taskOf Timely
  simp only [bind, Except.bind, pure, Except.pure]
  constructor
  · rintro ⟨r, h⟩
    split at h
    · cases h
    · rename_i date hdate
      split at h
      · cases h
      · rename_i deadline hdeadline
        split at h
        · cases h
        · rename_i scheduledEnd hend
          exact ⟨date, deadline, scheduledEnd, hdate, hdeadline, hend⟩
  · rintro ⟨date, deadline, scheduledEnd, hdate, hdeadline, hend⟩
    rw [hdate]
    simp only
    rw [hdeadline]
    simp only
    rw [hend]
    exact ⟨_, rfl⟩

theorem importRow_ok_iff :
    (∃ s', importRow browser k row s = .ok s') ↔ (isImported browser row = true → Timely browser k row) := by
  constructor
  · rintro ⟨s', h⟩ himported
    rcases importRow_cases h with ⟨-, h2, -⟩ | ⟨-, h2, -⟩ | ⟨-, h2, -⟩ | ⟨-, -, -, h4⟩
    · rw [himported] at h2
      cases h2
    · rw [himported] at h2
      cases h2
    · rw [himported] at h2
      cases h2
    · unfold importTask at h4
      simp only [bind, Except.bind] at h4
      split at h4
      · cases h4
      · rename_i r hr
        exact taskOf_ok_iff.1 ⟨r, hr⟩
  · intro h
    unfold importRow
    simp only
    split
    · exact ⟨_, rfl⟩
    · split
      · exact ⟨_, rfl⟩
      · split
        · exact ⟨_, rfl⟩
        · rename_i ht
          split
          · exact ⟨_, rfl⟩
          · rename_i hc
            have himported : isImported browser row = true := by
              simp only [isImported, isTask]
              simp [not_not.1 ht, hc]
            obtain ⟨r, hr⟩ : ∃ r, taskOf browser k row (rowContent row) s.currentSection
                (if rowIndent row > 1 then at? s.parentsByIndent (rowIndent row - 1) else none) = .ok r :=
              taskOf_ok_iff.2 (h himported)
            unfold importTask
            simp only [bind, Except.bind, hr]
            exact ⟨_, rfl⟩

theorem importRows_ok_iff : ∀ (l : List TodoistRow) {k : Nat} {s : Importing},
    (∃ s', importRows browser k l s = .ok s') ↔
      ∀ n row, l[n]? = some row → isImported browser row = true → Timely browser (n + k) row
  | [], k, s => by simp [importRows]
  | a :: l, k, s => by
    simp only [importRows, bind, Except.bind]
    constructor
    · rintro ⟨s', h⟩ n row hr himported
      split at h
      · cases h
      · rename_i s₁ hs₁
        cases n with
        | zero =>
          simp only [List.getElem?_cons_zero, Option.some.injEq] at hr
          subst hr
          rw [Nat.zero_add]
          exact importRow_ok_iff.1 ⟨s₁, hs₁⟩ himported
        | succ n =>
          rw [show n + 1 + k = n + (k + 1) by omega]
          exact (importRows_ok_iff l).1 ⟨s', h⟩ n row (by simpa using hr) himported
    · intro h
      obtain ⟨s₁, hs₁⟩ := importRow_ok_iff.2 (show isImported browser a = true → Timely browser k a by
        simpa using h 0 a rfl)
      rw [hs₁]
      refine (importRows_ok_iff l).2 fun n row hr himported => ?_
      rw [show n + (k + 1) = n + 1 + k by omega]
      exact h (n + 1) row (by simpa using hr) himported

/-- The parent that is found is the right one, or hides behind a row without text. -/
theorem foundParent_eq_iff (n : Nat) : foundParent browser rows n = expectedParent browser rows n ↔
    ∀ m, nearest? (fun j => taskAt browser rows j && indentAt rows j < indentAt rows n) n = some m →
      importedAt browser rows m = false →
        ∀ m', nearest? (fun j => importedAt browser rows j && indentAt rows j < indentAt rows n) n = some m' →
          indentAt rows m' + 1 ≠ indentAt rows n := by
  have himp : ∀ j, (importedAt browser rows j && decide (indentAt rows j < indentAt rows n)) = true →
      (taskAt browser rows j && decide (indentAt rows j < indentAt rows n)) = true := by
    intro j hj
    simp only [Bool.and_eq_true] at hj ⊢
    exact ⟨taskAt_of_importedAt hj.1, hj.2⟩
  unfold foundParent expectedParent parentRow
  cases ht : nearest? (fun j => taskAt browser rows j && decide (indentAt rows j < indentAt rows n)) n with
  | none => simp [nearest?_none_of_imp himp ht]
  | some m =>
    cases hm : importedAt browser rows m with
    | true =>
      have hless := (nearest?_eq_some.1 ht).2.1
      simp only [Bool.and_eq_true] at hless
      rw [nearest?_of_imp himp ht (by simp only [hm, hless.2, Bool.and_self])]
      constructor
      · intro _ m₁ h₁ hfalse
        obtain rfl := Option.some.inj h₁
        rw [hm] at hfalse
        cases hfalse
      · intro _
        cases hd : indentAt rows m + 1 == indentAt rows n <;> simp [Option.filter, hd, hm]
    | false =>
      have hnone : ((some m).filter fun m => indentAt rows m + 1 == indentAt rows n).filter (importedAt browser rows) = none := by
        cases hd : indentAt rows m + 1 == indentAt rows n <;> simp [Option.filter, hd, hm]
      rw [hnone]
      constructor
      · rintro h m₁ - - m' hm' hd
        rw [hm'] at h
        simp [Option.filter, hd] at h
      · intro h
        rw [Option.map_none, Option.map_eq_none_iff, Option.filter_eq_none_iff]
        intro m' hm' hd
        exact h m rfl hm m' hm' (by simpa using hd)

/-- What is kept by right is kept by the code. -/
theorem foundComment_of_kept (h : keptComment browser rows n = true) : foundComment browser rows n = true := by
  unfold keptComment at h
  unfold foundComment
  simp only [Bool.and_eq_true] at h ⊢
  obtain ⟨hc, ho⟩ := h
  refine ⟨hc, ?_⟩
  cases ht : nearest? (taskAt browser rows) n with
  | none => simp [ht] at ho
  | some m =>
    rw [ht] at ho
    rw [nearest?_of_imp (fun _ => taskAt_of_importedAt) ht ho]
    rfl

theorem kept_of_ownersShown (ho : OwnersShown browser rows) (h : foundComment browser rows n = true) :
    keptComment browser rows n = true := by
  unfold foundComment at h
  unfold keptComment
  simp only [Bool.and_eq_true] at h ⊢
  obtain ⟨hc, hi⟩ := h
  refine ⟨hc, ?_⟩
  cases ht : nearest? (taskAt browser rows) n with
  | none => simp [nearest?_none_of_imp (fun _ => taskAt_of_importedAt) ht] at hi
  | some m =>
    cases hm : importedAt browser rows m with
    | true => exact hm
    | false => simp [ho n hc m ht hm] at hi

/-- The comments at an imported row are those the code appends to its task. -/
theorem commentsOf_eq (ho : OwnersShown browser rows) {stop m : Nat} (hm : importedAt browser rows m = true) :
    commentsOf browser rows (taskAt browser rows) stop m = commentsOf browser rows (importedAt browser rows) stop m := by
  unfold commentsOf
  congr 1
  refine List.filter_congr fun n _ => ?_
  cases hc : commentAt browser rows n with
  | false => rfl
  | true =>
    rw [Bool.true_and, Bool.true_and, Bool.eq_iff_iff, beq_iff_eq, beq_iff_eq]
    constructor
    · intro h
      exact nearest?_of_imp (fun _ => taskAt_of_importedAt) h hm
    · intro h
      cases ht : nearest? (taskAt browser rows) n with
      | none =>
        rw [nearest?_none_of_imp (fun _ => taskAt_of_importedAt) ht] at h
        cases h
      | some m₁ =>
        cases hm₁ : importedAt browser rows m₁ with
        | true => rw [← h, nearest?_of_imp (fun _ => taskAt_of_importedAt) ht hm₁]
        | false =>
          rw [ho n hc m₁ ht hm₁] at h
          cases h

/-! ## The import of a file -/

/-- The reader found no error and the columns it takes to import. -/
structure Readable (parsed : ParseResult) : Prop where
  errors : parsed.errors = []
  type : "TYPE" ∈ parsed.fields.getD []
  content : "CONTENT" ∈ parsed.fields.getD []

theorem parseTodoistCsv_readable {parsed : ParseResult} (hp : Readable parsed) (projectName : List Char) :
    parseTodoistCsv browser parsed projectName = (importRows browser 2 parsed.data .initial).map fun s =>
      { request :=
          { projectName := truncate (if Script.trim projectName = [] then "Todoist import".toList else Script.trim projectName) 120
            projectDescription := "Imported from a Todoist project CSV.".toList
            tasks := s.tasks }
        report :=
          if s.report.importedSections = 0 then s.report
          else addWarning s.report (sectionWarning s.report.importedSections) } := by
  unfold parseTodoistCsv
  rw [hp.errors]
  simp only [hp.type, hp.content, not_true_eq_false, or_self, if_false]
  cases importRows browser 2 parsed.data .initial <;> rfl

/-- The warning about sections changes no counter and drops no warning. -/
theorem sectioned_report (report : TodoistImportReport) :
    ∃ warnings, (if report.importedSections = 0 then report else addWarning report (sectionWarning report.importedSections)) =
      { report with warnings } ∧ ∀ w ∈ report.warnings, w ∈ warnings := by
  split
  · exact ⟨_, rfl, fun _ h => h⟩
  · exact ⟨_, addWarning_counters _ _, fun w h => mem_addWarning.2 (.inl h)⟩

/-- A file is imported row by row as it should be exactly if its dates can be read and no row without
text stands where a parent or the task of a comment should be. -/
theorem rows_keep_place_iff {parsed : ParseResult} (hp : Readable parsed) (projectName : List Char) :
    (∃ out, parseTodoistCsv browser parsed projectName = .ok out ∧ KeepsPlace browser parsed.data out) ↔
      (∀ n row, parsed.data[n]? = some row → isImported browser row = true → Timely browser (n + 2) row) ∧
        ParentsShown browser parsed.data ∧ OwnersShown browser parsed.data := by
  rw [parseTodoistCsv_readable hp]
  constructor
  · rintro ⟨out, hout, hk⟩
    obtain ⟨s, hs, rfl⟩ : ∃ s, importRows browser 2 parsed.data .initial = .ok s ∧ _ = out := by
      cases hs : importRows browser 2 parsed.data .initial with
      | error e =>
        rw [hs] at hout
        cases hout
      | ok s =>
        rw [hs] at hout
        exact ⟨s, rfl, Except.ok.inj hout⟩
    have hi := imported_take (le_refl parsed.data.length) (by rw [List.take_length]; exact hs)
    obtain ⟨warnings, hreport, -⟩ := sectioned_report s.report
    refine ⟨(importRows_ok_iff parsed.data).1 ⟨s, hs⟩, fun n hn => ?_, fun n hc m hm hmi => ?_⟩
    · -- the task at this index is one task
      obtain ⟨task, ht, hparent, -⟩ := hk.placed n hn
      have hlt : n < parsed.data.length := by
        by_contra hge
        simp [importedAt, rowAt, List.getElem?_eq_none (Nat.le_of_not_lt hge)] at hn
      obtain ⟨task', ht', hfound, -⟩ := hi.placed n hlt hn
      obtain rfl : task = task' := Option.some.inj (ht.symm.trans ht')
      exact (foundParent_eq_iff n).1 (hfound.symm.trans hparent)
    · have hcount := hk.comments
      rw [hreport] at hcount
      have hlt : n < parsed.data.length := by
        by_contra hge
        simp [commentAt, rowAt, List.getElem?_eq_none (Nat.le_of_not_lt hge)] at hc
      cases hn : nearest? (importedAt browser parsed.data) n with
      | none => rfl
      | some m' =>
        have hkept := of_count_eq (fun j => foundComment_of_kept) (hcount.symm.trans hi.comments) n hlt
          (by simp [foundComment, hc, hn])
        simp [keptComment, hc, hm, hmi] at hkept
  · rintro ⟨htimely, hparents, howners⟩
    obtain ⟨s, hs⟩ := (importRows_ok_iff parsed.data (s := .initial)).2 htimely
    have hi := imported_take (le_refl parsed.data.length) (by rw [List.take_length]; exact hs)
    obtain ⟨warnings, hreport, hw⟩ := sectioned_report s.report
    rw [hs]
    simp only [Except.map, hreport]
    refine ⟨_, rfl, ?_⟩
    have hlt : ∀ n, importedAt browser parsed.data n = true → n < parsed.data.length := by
      intro n hn
      by_contra hge
      simp [importedAt, rowAt, List.getElem?_eq_none (Nat.le_of_not_lt hge)] at hn
    constructor
    · exact hi.tasks
    · refine hi.comments.trans ?_
      congr 1
      funext n
      rw [eq_iff_iff]
      exact ⟨kept_of_ownersShown howners, foundComment_of_kept⟩
    · exact hi.sections
    · exact hi.counted
    · exact hi.length.trans hi.tasks.symm
    · intro n hn
      obtain ⟨task, ht, hfound, hmissing⟩ := hi.placed n (hlt n hn) hn
      have he := (foundParent_eq_iff n).2 (hparents n hn)
      exact ⟨task, ht, hfound.trans he, fun h1 h2 => hw _ (hmissing h1 (he.trans h2))⟩
    · exact hi.earlier
    · intro n hn s₁ task h1 ht
      obtain ⟨s₀, task', h0, ht', hd⟩ := hi.described n (hlt n hn) hn
      obtain rfl : s₁ = s₀ := Except.ok.inj (h1.symm.trans h0)
      obtain rfl : task = task' := Option.some.inj (ht.symm.trans ht')
      rw [commentsOf_eq howners hn]
      exact hd

/-! ## Two files -/

/-- A browser that recognises no date. -/
def plainBrowser : Browser where
  toLowerCase l := l.map Char.toLower
  isLetter := Char.isAlpha
  isNumber := Char.isDigit
  canonicalize := Char.toLower
  not_space c h := by
    apply isSpace_of_isWord
    rcases h with h | h
    · simp [isWord, Char.isAlphanum, h]
    · simp [isWord, Char.isAlphanum, h]
  detectTemporalSuggestion _ := none
  zonedLocalToIso _ _ := none
  localDate _ := none
  toNumber _ := some 0

def shortRow (type content : String) : TodoistRow := fun name =>
  if name = "TYPE" then some type.toList else if name = "CONTENT" then some content.toList else none

def shortFile (rows : List (String × String)) : ParseResult :=
  ⟨rows.map fun row => shortRow row.1 row.2, [], some ["TYPE", "CONTENT"]⟩

theorem readable_shortFile (rows : List (String × String)) : Readable (shortFile rows) :=
  ⟨rfl, by simp [shortFile], by simp [shortFile]⟩

/-- A task with a comment is imported as it should be. -/
theorem rows_keep_place_iff_comment :
    ∃ out, parseTodoistCsv plainBrowser (shortFile [("task", "Plan"), ("note", "Buy milk")]) [] = .ok out ∧
      KeepsPlace plainBrowser (shortFile [("task", "Plan"), ("note", "Buy milk")]).data out := by
  refine (rows_keep_place_iff (readable_shortFile _) []).2 ⟨?_, ?_, ?_⟩
  · rintro (_ | _ | n) row hr himported
    · obtain rfl := Option.some.inj hr
      exact ⟨(⟨none, none⟩, []), (⟨none, none⟩, []), none, by decide +kernel, by decide +kernel, by decide +kernel⟩
    · obtain rfl := Option.some.inj hr
      exact absurd himported (by decide +kernel)
    · cases hr
  · rintro (_ | _ | n) hn
    · intro m hm
      cases hm
    · exact absurd hn (by decide +kernel)
    · cases hn
  · rintro (_ | _ | n) hn
    · exact absurd hn (by decide +kernel)
    · intro m hm hfalse
      obtain rfl : 0 = m := by simpa using (show some 0 = some m from hm ▸ by decide +kernel)
      exact absurd hfalse (by decide +kernel)
    · cases hn

/-- A task without text and its comment, behind another task. -/
def emptyTaskFile : ParseResult := shortFile [("task", "Plan"), ("task", ""), ("note", "Buy milk")]

/-- The comment of the row without text is attached to the task before it. -/
theorem comment_of_skipped_row_moves :
    ¬ ∃ out, parseTodoistCsv plainBrowser emptyTaskFile [] = .ok out ∧ KeepsPlace plainBrowser emptyTaskFile.data out := by
  rintro ⟨out, hout, hk⟩
  have hcomments : (parseTodoistCsv plainBrowser emptyTaskFile []).map (·.report.importedComments) = .ok 1 := by
    decide +kernel
  rw [hout, Except.map, hk.comments] at hcomments
  exact absurd (Except.ok.inj hcomments) (by decide +kernel)

end Prosepect.Web
