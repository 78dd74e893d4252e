/-
`export_store.rs`: the JSON export of an account, put together from the rows of its user in seven
tables; and `saved_views.rs`, whose list it shares with a screen, as it does that of the notes.

`lower` is SQL's `lower`, and `collation` compares texts as the database does.
-/
import Mathlib.Logic.Relation
import Prosepect.Store.Listing

namespace Prosepect

open Relation Text Time Store

namespace Export

/-! ## Tables -/

/-- A row with its column `user_id`. -/
structure Owned (α : Type) where
  userId : Uuid
  row : α
deriving DecidableEq, Repr

structure UserProfile where
  id : Uuid
  email : String
  displayName : String
  avatarUrl : Option String
  timezone : String
deriving DecidableEq, Repr

structure CalendarRow where
  id : Uuid
  name : String
  color : String
  source : CalendarSource
  externalId : Option String
  selected : Bool
  isDefault : Bool
  createdAt : DateTime
  updatedAt : DateTime
  version : Int
deriving DecidableEq, Repr

/-- `FileRecord`, without the key of its object. -/
structure ExportedFile where
  id : Uuid
  projectId : Option Uuid
  taskId : Option Uuid
  noteId : Option Uuid
  eventId : Option Uuid
  filename : String
  contentType : String
  byteSize : Int
  createdAt : DateTime
deriving DecidableEq, Repr

inductive SavedTaskStatus
  | open_ | all | todo | inProgress | blocked | completed
deriving DecidableEq, Repr

inductive SavedTaskSort
  | manual | due | priority | title
deriving DecidableEq, Repr

structure CreateSavedTaskView where
  name : String
  projectId : Option Uuid
  search : String
  status : SavedTaskStatus
  priority : Option TaskPriority
  label : Option String
  sort : SavedTaskSort
deriving DecidableEq, Repr

structure SavedTaskView where
  id : Uuid
  projectId : Option Uuid
  name : String
  search : String
  status : SavedTaskStatus
  priority : Option TaskPriority
  label : Option String
  sort : SavedTaskSort
  createdAt : DateTime
deriving DecidableEq, Repr

structure RecurrenceTemplateExport where
  taskId : Uuid
  projectId : Option Uuid
  defaults : RecurrenceDefaults
deriving DecidableEq, Repr

structure Tables where
  users : List UserProfile
  projects : List (Owned Project)
  tasks : List (Owned TaskRow)
  notes : List (Owned Note)
  calendars : List (Owned CalendarRow)
  events : List (Owned CalendarEvent)
  files : List (Owned FileRecord)
  savedTaskViews : List (Owned SavedTaskView)

structure AccountExport where
  recurrenceTemplates : List RecurrenceTemplateExport
  savedTaskViews : List SavedTaskView
  user : UserProfile
  projects : List ProjectSummary
  tasks : List Task
  notes : List Note
  calendars : List CalendarRow
  events : List CalendarEvent
  files : List ExportedFile
deriving DecidableEq, Repr

/-! ## Queries -/

/-- `WHERE user_id = $1`. -/
def rowsOf {α : Type} (user : Uuid) (rows : List (Owned α)) : List α := (rows.filter (·.userId == user)).map (·.row)

def orderBy {α : Type} (le : α → α → Bool) (rows : List α) : List α := rows.insertionSort fun a b => le a b = true

/-- By a time, and by the id. -/
def byTime {α : Type} (time : α → DateTime) (id : α → Uuid) (a b : α) : Bool :=
  decide (time a < time b) || (time a == time b && decide (id a ≤ id b))

def listNotes (user : Uuid) (t : Tables) : List Note :=
  (orderBy (fun a b => byTime Note.updatedAt Note.id b a) (rowsOf user t.notes)).take 200

section

variable (lower : String → String) (collation : String → String → Bool)

def savedTaskViews (user : Uuid) (t : Tables) : List SavedTaskView :=
  (orderBy (fun a b => if lower a.name = lower b.name then decide (a.id ≤ b.id) else collation (lower a.name) (lower b.name))
    (rowsOf user t.savedTaskViews)).take 50

def exportTasks (user : Uuid) (t : Tables) : List Task :=
  (orderBy (byTime (fun t : TaskRow => t.createdAt) fun t => t.id) (rowsOf user t.tasks)).map (·.toTask)

def recurrenceTemplate (row : TaskRow) : Option RecurrenceTemplateExport :=
  row.recurrenceDefaults.map fun defaults => ⟨row.id, row.recurrenceProjectId, defaults⟩

def recurrenceTemplates (user : Uuid) (t : Tables) : List RecurrenceTemplateExport :=
  (orderBy (fun a b : TaskRow => decide (a.id ≤ b.id)) (rowsOf user t.tasks)).filterMap recurrenceTemplate

def userProfile (user : Uuid) (t : Tables) : Except AppError UserProfile :=
  match t.users.find? (·.id == user) with
  | some profile => .ok profile
  | none => .error .unauthorized

def exportedFile (f : FileRecord) : ExportedFile :=
  ⟨f.id, f.projectId, f.taskId, f.noteId, f.eventId, f.filename, f.contentType, f.byteSize, f.createdAt⟩

def exportBundle (user : Uuid) (t : Tables) : Except AppError AccountExport := do
  let profile ← userProfile user t
  return {
    recurrenceTemplates := recurrenceTemplates user t
    savedTaskViews := savedTaskViews lower collation user t
    user := profile
    projects := (orderBy (byTime Project.createdAt Project.id) (rowsOf user t.projects)).map
      (summarize (rowsOf user t.tasks))
    tasks := exportTasks user t
    notes := listNotes user t
    calendars := orderBy (byTime CalendarRow.createdAt CalendarRow.id) (rowsOf user t.calendars)
    events := orderBy (byTime (fun e : CalendarEvent => e.startsAt) fun e => e.id) (rowsOf user t.events)
    files := (orderBy (byTime FileRecord.createdAt FileRecord.id) (rowsOf user t.files)).map exportedFile }

/-! ## Saved views -/

/-- The view a request stores, its texts trimmed. -/
def requestedView (id : Uuid) (now : DateTime) (r : CreateSavedTaskView) : SavedTaskView where
  id := id
  projectId := r.projectId
  name := trim r.name
  search := trim r.search
  status := r.status
  priority := r.priority
  label := r.label.map trim
  sort := r.sort
  createdAt := now

def hasNull (s : String) : Bool := s.toList.contains (Char.ofNat 0)

/-- Under the advisory lock of the user. -/
def createSavedTaskView (user id : Uuid) (now : DateTime) (r : CreateSavedTaskView) (projects : List (Owned Project))
    (views : List (Owned SavedTaskView)) : Except AppError (List (Owned SavedTaskView)) := do
  let view := requestedView id now r
  if hasNull view.name ∨ hasNull view.search ∨ view.label.any hasNull then
    throw (.validation "Saved views cannot contain null characters.")
  if view.name.length = 0 ∨ view.name.length > 80 ∨ view.search.length > 500 ∨
      (view.label.any fun label => label.length = 0 || label.length > 60) then
    throw (.validation "Use a name of 1-80 characters, a search of at most 500, and a label of 1-60.")
  if (r.projectId.all fun project => projects.any fun p => p.userId == user && p.row.id == project) = false then
    throw (.notFound "project")
  if (rowsOf user views).length ≥ 50 then
    throw (.validation "You can save up to 50 views. Delete one before adding another.")
  if views.any fun v => v.userId == user && lower v.row.name == lower view.name then
    throw (.conflict "A saved view with that name already exists.")
  return views ++ [⟨user, view⟩]

/-- Views come by requests, and go by requests or with their project or user. -/
inductive ViewStep (views views' : List (Owned SavedTaskView)) : Prop
  | create (user id : Uuid) (now : DateTime) (r : CreateSavedTaskView) (projects : List (Owned Project)) :
    createSavedTaskView lower user id now r projects views = .ok views' → ViewStep views views'
  | delete (p : Owned SavedTaskView → Bool) : views' = Table.delete p views → ViewStep views views'

/-- The saved views of a service that has run since it had none. -/
def Views (views : List (Owned SavedTaskView)) : Prop := ReflTransGen (ViewStep lower) [] views

end

/-! ## What each query returns -/

section

variable {lower : String → String} {collation : String → String → Bool} {user : Uuid} {t : Tables}
  {views views' : List (Owned SavedTaskView)}

theorem orderBy_perm {α : Type} (le : α → α → Bool) (rows : List α) : (orderBy le rows).Perm rows :=
  List.perm_insertionSort _ rows

/-- A limit that is not reached leaves the rows as they are. -/
theorem take_orderBy_perm {α : Type} (le : α → α → Bool) {rows : List α} {n : Nat} (h : rows.length ≤ n) :
    ((orderBy le rows).take n).Perm rows := by
  rw [List.take_of_length_le (by rw [(orderBy_perm le rows).length_eq]; exact h)]
  exact orderBy_perm le rows

theorem rowsOf_delete_length {α : Type} (p : Owned α → Bool) (rows : List (Owned α)) :
    (rowsOf user (Table.delete p rows)).length ≤ (rowsOf user rows).length := by
  unfold rowsOf Table.delete
  rw [List.length_map, List.length_map]
  exact (List.filter_sublist.filter _).length_le

theorem createSavedTaskView_ok {id : Uuid} {now : DateTime} {r : CreateSavedTaskView} {projects : List (Owned Project)}
    (h : createSavedTaskView lower user id now r projects views = .ok views') :
    (rowsOf user views).length < 50 ∧ views' = views ++ [⟨user, requestedView id now r⟩] := by
  unfold createSavedTaskView at h
  simp only at h
  split at h
  · cases h
  · split at h
    · cases h
    · split at h
      · cases h
      · split at h
        · cases h
        · rename_i hcount
          split at h
          · cases h
          · cases h
            exact ⟨by omega, rfl⟩

/-- No user has more saved views than the list of them shows. -/
theorem Views.le (h : Views lower views) (user : Uuid) : (rowsOf user views).length ≤ 50 := by
  induction h with
  | refl => exact Nat.zero_le _
  | tail _ hstep ih =>
    cases hstep with
    | create owner id now r projects hc =>
      obtain ⟨hcount, rfl⟩ := createSavedTaskView_ok hc
      unfold rowsOf at hcount ih ⊢
      rw [List.filter_append, List.map_append, List.length_append]
      by_cases howner : owner = user
      · subst howner
        simp only [List.filter_cons, beq_self_eq_true, if_true, List.filter_nil, List.map_cons, List.map_nil,
          List.length_cons, List.length_nil]
        omega
      · simp only [List.filter_cons, beq_eq_false_iff_ne.2 howner, Bool.false_eq_true, if_false, List.filter_nil,
          List.map_nil, List.length_nil]
        omega
    | delete p hp =>
      rw [hp]
      exact (rowsOf_delete_length p _).trans ih

/-! ## The export -/

/-- Every row of the user exactly once, and no other. -/
structure Complete (user : Uuid) (t : Tables) (b : AccountExport) : Prop where
  projects : (b.projects.map (·.toProject)).Perm (rowsOf user t.projects)
  tasks : b.tasks.Perm ((rowsOf user t.tasks).map (·.toTask))
  notes : b.notes.Perm (rowsOf user t.notes)
  calendars : b.calendars.Perm (rowsOf user t.calendars)
  events : b.events.Perm (rowsOf user t.events)
  files : b.files.Perm ((rowsOf user t.files).map exportedFile)
  savedTaskViews : b.savedTaskViews.Perm (rowsOf user t.savedTaskViews)
  recurrenceTemplates : b.recurrenceTemplates.Perm ((rowsOf user t.tasks).filterMap recurrenceTemplate)

theorem exportBundle_ok (lower : String → String) (collation : String → String → Bool) {profile : UserProfile} (hu : userProfile user t = .ok profile) :
    ∃ b, exportBundle lower collation user t = .ok b ∧ b.notes = listNotes user t ∧
      ((rowsOf user t.savedTaskViews).length ≤ 50 → (rowsOf user t.notes).length ≤ 200 → Complete user t b) := by
  unfold exportBundle
  rw [hu]
  refine ⟨_, rfl, rfl, fun hviews hnotes => ⟨?_, ?_, ?_, ?_, ?_, ?_, ?_, ?_⟩⟩
  · rw [List.map_map]
    exact (List.Perm.of_eq (List.map_id _)).trans (orderBy_perm _ _)
  · exact (orderBy_perm _ _).map _
  · exact take_orderBy_perm _ hnotes
  · exact orderBy_perm _ _
  · exact orderBy_perm _ _
  · exact (orderBy_perm _ _).map _
  · exact take_orderBy_perm _ hviews
  · exact (orderBy_perm _ _).filterMap _

/-- The export is complete exactly for users with at most 200 notes: it shares the list of notes
with a screen that shows no more. -/
theorem export_complete_iff (hviews : Views lower t.savedTaskViews) (hu : ∃ profile ∈ t.users, profile.id = user) :
    (∃ b, exportBundle lower collation user t = .ok b ∧ Complete user t b) ↔ (rowsOf user t.notes).length ≤ 200 := by
  have hprofile : ∃ profile, userProfile user t = .ok profile := by
    unfold userProfile
    cases hf : t.users.find? (·.id == user) with
    | some profile => exact ⟨profile, rfl⟩
    | none =>
      obtain ⟨profile, hm, hid⟩ := hu
      exact absurd (beq_iff_eq.2 hid) (List.find?_eq_none.1 hf profile hm)
  obtain ⟨profile, hprofile⟩ := hprofile
  obtain ⟨b, hb, hnotes, hcomplete⟩ := exportBundle_ok lower collation hprofile
  constructor
  · rintro ⟨b', hb', hc⟩
    obtain rfl := Except.ok.inj (hb.symm.trans hb')
    rw [← hc.notes.length_eq, hnotes]
    unfold listNotes
    rw [List.length_take]
    exact min_le_left _ _
  · exact fun hn => ⟨b, hb, hcomplete (hviews.le user) hn⟩

end

/-- The tables of a service with one user, who has written some notes. -/
def noted (n : Nat) : Tables where
  users := [⟨1, "ada@example.org", "Ada", none, "UTC"⟩]
  projects := []
  tasks := []
  notes := (List.range n).map fun i => ⟨1, ⟨i, none, none, none, "Note", "", 0, 0, 1⟩⟩
  calendars := []
  events := []
  files := []
  savedTaskViews := []

theorem export_complete_noted : ∃ b, exportBundle (fun s => s) (fun _ _ => true) 1 (noted 2) = .ok b ∧
    Complete 1 (noted 2) b :=
  (export_complete_iff (t := noted 2) .refl ⟨_, List.mem_cons_self, rfl⟩).2 (by decide)

theorem export_leaves_out_a_note : Views (fun s => s) (noted 201).savedTaskViews ∧
    ∃ b, exportBundle (fun s => s) (fun _ _ => true) 1 (noted 201) = .ok b ∧ ¬ Complete 1 (noted 201) b := by
  have hu : userProfile 1 (noted 201) = .ok ⟨1, "ada@example.org", "Ada", none, "UTC"⟩ := rfl
  obtain ⟨b, hb, hnotes, -⟩ := exportBundle_ok (fun s => s) (fun _ _ => true) hu
  refine ⟨.refl, b, hb, fun hc => ?_⟩
  have hlen := hc.notes.length_eq
  rw [hnotes] at hlen
  unfold listNotes at hlen
  have hall : (rowsOf 1 (noted 201).notes).length = 201 := by decide +kernel
  rw [List.length_take, (orderBy_perm _ _).length_eq, hall] at hlen
  omega

end Export

end Prosepect
