/-
`google_tasks_client.rs`: the requests to Google Tasks. What an error says of a creation is decided
here: only a request that was refused has created nothing.
-/
import Prosepect.GoogleTasks.Operations

namespace Prosepect

open Time Text Resumption GoogleTasks

namespace TasksSync

def maxPageBytes : Nat := 2 * 1024 * 1024

def maxListBytes : Nat := 32 * 1024 * 1024

def maxItems : Nat := 20000

/-- The result of a request: the bytes, if they are few enough, as what they decode to. -/
def Reply.result {α : Type} (creating : Bool) : Reply α → Except TasksError (Nat × Option α)
  | .lost => .error (if creating then .ambiguousCreate else .unavailable)
  | .status code size body =>
    if 200 ≤ code ∧ code < 300 then
      if size > maxPageBytes then .error (if creating then .ambiguousCreate else .capacity) else .ok (size, body)
    else if code = 401 ∨ code = 403 then .error .authorization
    else if code = 404 ∨ code = 410 then .error .notFound
    else if code = 412 ∨ code = 409 then .error .conflict
    else if code = 429 then .error .rateLimited
    else if 400 ≤ code ∧ code < 500 then .error .invalidInput
    else if creating then .error .ambiguousCreate
    else .error .unavailable

/-- A segment of a path that `url` takes. -/
def isSegment (s : String) : Bool := s ≠ "" && s ≠ "." && s ≠ ".."

/-- An error of the client. -/
def refuse {α : Type} (e : TasksError) : TasksProg α := .fail (.google e)

/-- `request`. -/
def send (token : String) (c : Call) : TasksProg (Nat × Option c.Body) :=
  if token = "" then refuse .authorization
  else do
    let reply ← call (.http c)
    match Reply.result c.creating reply with
    | .error e => refuse e
    | .ok answer => return answer

/-! ## Lists -/

/-- What has been read of a list. -/
structure Listing where
  items : List GoogleTask
  seen : List String
  bytesRead : Nat
  next : Option String

def Listing.start : Listing := ⟨[], [], 0, none⟩

/-- What the next page makes of it: the tasks, if it was the last one. -/
def Listing.turn (s : Listing) (size : Nat) (body : Option Page) : Except TasksError (List GoogleTask ⊕ Listing) :=
  if s.bytesRead + size > maxListBytes then .error .capacity
  else
    match body with
    | none => .error .invalidResponse
    | some page =>
      if s.items.length + page.items.length > maxItems then .error .capacity
      else
        match page.nextPageToken with
        | none => .ok (.inl (s.items ++ page.items))
        | some cursor =>
          if cursor = "" ∨ cursor ∈ s.seen then .error .invalidResponse
          else .ok (.inr ⟨s.items ++ page.items, s.seen ++ [cursor], s.bytesRead + size, some cursor⟩)

/-- `pages_inner`, with so many cursors left. -/
def pagesInner (token list : String) (s : Listing) : (left : Nat) → TasksProg (List GoogleTask)
  | 0 => do
    let (size, body) ← send token (.listPage list s.next)
    match s.turn size body with
    | .error e => refuse e
    | .ok (.inl items) => return items
    | .ok (.inr _) => refuse .capacity
  | left + 1 => do
    let (size, body) ← send token (.listPage list s.next)
    match s.turn size body with
    | .error e => refuse e
    | .ok (.inl items) => return items
    | .ok (.inr s) => pagesInner token list s left

/-- All tasks of a list. -/
def tasks (token list : String) : TasksProg (List GoogleTask) :=
  if isSegment list = false then refuse .invalidInput
  else do
    let tasks ← pagesInner token list .start 1000
    if tasks.any (·.id == "") = true ∨ ¬ (tasks.map (·.id)).Nodup then refuse .invalidResponse
    else return tasks

/-! ## One task -/

/-- The body decodes to a task, of which this holds. -/
def decoded (body : Option GoogleTask) (ok : GoogleTask → Bool) (e : TasksError) : TasksProg GoogleTask :=
  match body with
  | none => refuse e
  | some remote => if ok remote then return remote else refuse e

def get (token list task : String) : TasksProg GoogleTask :=
  if isSegment list = false ∨ isSegment task = false then refuse .invalidInput
  else do
    let (_, body) ← send token (.get list task)
    decoded body (fun remote => remote.id == task) .invalidResponse

def create (cfg : Config) (token list : String) (fields : TaskFields) (reference : String) : TasksProg GoogleTask :=
  if fields.valid = false ∨ reference.length > 8192 ∨ isSegment list = false then refuse .invalidInput
  else do
    let (_, body) ← send token (.post list (fields.googleBody cfg.dates) reference)
    decoded body (fun remote => remote.id != "" && !noEtag remote.etag) .ambiguousCreate

def update (cfg : Config) (token list task etag : String) (fields : TaskFields) : TasksProg GoogleTask :=
  if trim etag = "" ∨ trim etag = "*" ∨ fields.valid = false ∨ isSegment list = false ∨ isSegment task = false then refuse .invalidInput
  else do
    let (_, body) ← send token (.patch list task etag (fields.googleBody cfg.dates))
    decoded body (fun remote => remote.id == task && !noEtag remote.etag) .invalidResponse

/-- An error of a creation that is answered with a refusal, or not asked for: nothing was created. -/
theorem rejected_iff_refused {α : Type} (reply : Reply α) :
    (∃ e, Reply.result true reply = .error e ∧ e.rejected = true) ↔ reply.refused = true := by
  cases reply with
  | lost => simp [Reply.result, Reply.refused, TasksError.rejected]
  | status code size body =>
    simp only [Reply.result, Reply.refused, decide_eq_true_eq]
    constructor
    · rintro ⟨e, he, hr⟩
      split at he
      · split at he
        · cases he
          cases hr
        · cases he
      · repeat' split at he
        all_goals
          cases he
          first
            | omega
            | cases hr
    · intro hc
      rw [if_neg (by omega)]
      repeat' split
      all_goals exact ⟨_, rfl, rfl⟩

end TasksSync

end Prosepect
