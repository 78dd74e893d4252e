/-
The pages of tasks and projects (`list_tasks` and `list_projects` of `store.rs`) and the loop that
collects them (`collectCursorPages` of `pagination.ts`), with the tables changing between requests.

The cursor goes down from page to page, whatever happens to the rows, so that the loop ends; a row
that is there all along is below the cursor until it is on a page.
-/
import Prosepect.Data.Pages
import Prosepect.Store.Actions

namespace Prosepect

open Paging Table

namespace Store

/-! ## Pages -/

/-- The tasks `list_tasks` chooses from. -/
def listedTasks (project : Option Uuid) (db : Db) : List Task :=
  (db.tasks.filter fun t => project.all fun p => t.projectId == some p).map (·.toTask)

def listTasks (project cursor : Option Uuid) (limit : Nat) (db : Db) : Page Task Uuid :=
  fetchPage Task.id cursor limit (listedTasks project db)

/-- A project with the numbers of its tasks. -/
structure ProjectSummary extends Project where
  totalTasks : Nat
  completedTasks : Nat
deriving DecidableEq, Repr

def summarize (tasks : List TaskRow) (p : Project) : ProjectSummary :=
  let tasks := tasks.filter (·.projectId == some p.id)
  { p with totalTasks := tasks.length, completedTasks := (tasks.filter (·.status == .completed)).length }

def listProjects (cursor : Option Uuid) (limit : Nat) (w : Workspace) : Page ProjectSummary Uuid :=
  fetchPage (fun p : ProjectSummary => p.id) cursor limit (w.projects.map (summarize w.db.tasks))

/-! ## The loop -/

/-- `collectCursorPages`: `loadPage k` answers request `k`, and `fuel` bounds the requests. -/
def collectCursorPages {α : Type} (loadPage : Nat → Option Uuid → Page α Uuid) : (fuel : Nat) → (request : Nat) →
    (cursor : Option Uuid) → (seenCursors : List Uuid) → (items : List α) → Option (Except String (List α))
  | 0, _, _, _, _ => none
  | fuel + 1, request, cursor, seenCursors, items =>
    let page := loadPage request cursor
    let items := items ++ page.items
    match page.nextCursor with
    | none => some (.ok items)
    | some c =>
      if c ∈ seenCursors then some (.error "API returned a repeated pagination cursor")
      else collectCursorPages loadPage fuel (request + 1) (some c) (seenCursors ++ [c]) items

section Collect

variable {α : Type} {key : α → Uuid} {rows : Nat → List α} {limit : Nat}

/-- What has been collected before a request: everything at or above the cursor. -/
structure Collected (key : α → Uuid) (cursor : Option Uuid) (seen : List Uuid) (items : List α) : Prop where
  descends : items.Pairwise fun a b => key b < key a
  above : ∀ c, cursor = some c → ∀ a ∈ items, c ≤ key a
  seen : ∀ s ∈ seen, ∃ c, cursor = some c ∧ c ≤ s
  start : cursor = none → items = []

/-- The collection ends after `n` more requests, each row in order, each from the rows of some
request, and none missing that was there all along. -/
def Collects (key : α → Uuid) (rows : Nat → List α) (limit : Nat) (request : Nat) (cursor : Option Uuid)
    (seen : List Uuid) (items : List α) : Prop :=
  ∃ n out, collectCursorPages (fun k c => fetchPage key c limit (rows k)) n request cursor seen items =
      some (.ok (items ++ out)) ∧
    (items ++ out).Pairwise (fun a b => key b < key a) ∧
    (∀ a ∈ out, ∃ k, request ≤ k ∧ k < request + n ∧ a ∈ rows k) ∧
    ∀ id, (∀ c, cursor = some c → id < c) →
      (∀ k, request ≤ k → k < request + n → ∃ r ∈ rows k, key r = id) → id ∈ out.map key

variable {cursor : Option Uuid} {seen : List Uuid} {items : List α} {request : Nat}

/-- A page comes below what has been collected. -/
theorem Collected.append (h : Collected key cursor seen items) {page rest : List α}
    (hd : Unique (fun r => some (key r)) (rows request)) (hw : window key cursor (rows request) = page ++ rest) :
    (items ++ page).Pairwise fun a b => key b < key a := by
  have hdesc := window_descends key cursor hd
  rw [hw] at hdesc
  refine List.pairwise_append.2 ⟨h.descends, (List.pairwise_append.1 hdesc).1, fun a ha b hb => ?_⟩
  cases hc : cursor with
  | none =>
    rw [h.start hc] at ha
    cases ha
  | some c =>
    have hbelow := (mem_window.1 (hw ▸ List.mem_append_left rest hb : b ∈ window key cursor (rows request))).2 c hc
    exact lt_of_lt_of_le hbelow (h.above c hc a ha)

/-- One request: the next one has a lower cursor, if there is one. -/
theorem collects_step (hlimit : 0 < limit) (hd : ∀ k, Unique (fun r => some (key r)) (rows k))
    (ih : ∀ c, (∀ c', cursor = some c' → c < c') → ∀ request seen items, Collected key (some c) seen items →
      Collects key rows limit request (some c) seen items)
    (h : Collected key cursor seen items) : Collects key rows limit request cursor seen items := by
  obtain ⟨rest, hw, hlast, hmore⟩ := fetchPage_spec key cursor hlimit (hd request)
  have hpage := h.append (hd request) hw
  have hmem : ∀ a ∈ (fetchPage key cursor limit (rows request)).items, a ∈ rows request := by
    intro a ha
    exact (mem_window.1 (hw ▸ List.mem_append_left rest ha : a ∈ window key cursor (rows request))).1
  have hfound : ∀ id, (∀ c, cursor = some c → id < c) → (∃ r ∈ rows request, key r = id) →
      ∃ r, (r ∈ (fetchPage key cursor limit (rows request)).items ∨ r ∈ rest) ∧ key r = id := by
    rintro id hbelow ⟨r, hr, rfl⟩
    have : r ∈ window key cursor (rows request) := mem_window.2 ⟨hr, hbelow⟩
    exact ⟨r, List.mem_append.1 (hw ▸ this), rfl⟩
  cases hnext : (fetchPage key cursor limit (rows request)).nextCursor with
  | none =>
    obtain rfl := hlast hnext
    refine ⟨1, (fetchPage key cursor limit (rows request)).items, ?_, hpage, fun a ha => ⟨request, le_rfl, by omega, hmem a ha⟩,
      fun id hbelow hall => ?_⟩
    · unfold collectCursorPages
      simp only [hnext]
    · obtain ⟨r, hr, rfl⟩ := hfound id hbelow (hall request le_rfl (by omega))
      exact List.mem_map_of_mem (hr.resolve_right (List.not_mem_nil))
  | some c =>
    obtain ⟨hlower, habove, hrest⟩ := hmore c hnext
    have hnew : c ∉ seen := by
      intro hc
      obtain ⟨c', hcursor, hle⟩ := h.seen c hc
      exact absurd (hlower c' hcursor) (not_lt_of_ge hle)
    have hcollected : Collected key (some c) (seen ++ [c]) (items ++ (fetchPage key cursor limit (rows request)).items) := by
      refine ⟨hpage, ?_, ?_, fun hn => by cases hn⟩
      · rintro _ ⟨⟩ a ha
        rcases List.mem_append.1 ha with ha | ha
        · cases hc : cursor with
          | none =>
            rw [h.start hc] at ha
            cases ha
          | some c' => exact (hlower c' hc).le.trans (h.above c' hc a ha)
        · exact habove a ha
      · intro s hs
        refine ⟨c, rfl, ?_⟩
        rcases List.mem_append.1 hs with hs | hs
        · obtain ⟨c', hcursor, hle⟩ := h.seen s hs
          exact (hlower c' hcursor).le.trans hle
        · rw [List.mem_singleton.1 hs]
    obtain ⟨n, out, hrun, hdesc, hreal, hcomplete⟩ := ih c hlower (request + 1) _ _ hcollected
    refine ⟨n + 1, (fetchPage key cursor limit (rows request)).items ++ out, ?_, ?_, fun a ha => ?_, fun id hbelow hall => ?_⟩
    · unfold collectCursorPages
      simp only [hnext, if_neg hnew]
      rw [hrun, List.append_assoc]
    · rw [← List.append_assoc]
      exact hdesc
    · rcases List.mem_append.1 ha with ha | ha
      · exact ⟨request, le_rfl, by omega, hmem a ha⟩
      · obtain ⟨k, hk, hk', hak⟩ := hreal a ha
        exact ⟨k, by omega, by omega, hak⟩
    · rw [List.map_append]
      obtain ⟨r, hr | hr, rfl⟩ := hfound id hbelow (hall request le_rfl (by omega))
      · exact List.mem_append_left _ (List.mem_map_of_mem hr)
      · refine List.mem_append_right _ (hcomplete _ ?_ fun k hk hk' => hall k (by omega) (by omega))
        rintro _ ⟨⟩
        exact hrest r hr

/-- The cursors go down, so that there is a last page. -/
theorem collects (hlimit : 0 < limit) (hd : ∀ k, Unique (fun r => some (key r)) (rows k))
    (h : Collected key cursor seen items) : Collects key rows limit request cursor seen items := by
  have hsome : ∀ c : Uuid, ∀ request seen items, Collected key (some c) seen items →
      Collects key rows limit request (some c) seen items := by
    intro c
    induction c using WellFounded.induction (r := ((· < ·) : Uuid → Uuid → Prop)) wellFounded_lt with
    | _ c ih =>
      intro request seen items hc
      exact collects_step hlimit hd (fun c' hlt => ih c' (hlt c rfl)) hc
  exact collects_step hlimit hd (fun c _ => hsome c) h

end Collect

/-! ## Complete under concurrent change -/

/-- A traversal from the first page with the tables `rows k` at request `k`: it ends without an
error, in strictly descending order, with rows that were there, and with every row there all along. -/
def Traverses {α : Type} (key : α → Uuid) (load : Nat → Option Uuid → Page α Uuid) (rows : Nat → List α) : Prop :=
  ∃ n items, collectCursorPages load n 0 none [] [] = some (.ok items) ∧
    items.Pairwise (fun a b => key b < key a) ∧
    (∀ a ∈ items, ∃ k < n, a ∈ rows k) ∧
    ∀ id, (∀ k < n, ∃ r ∈ rows k, key r = id) → ∃ a ∈ items, key a = id

theorem traverses {α : Type} {key : α → Uuid} {rows : Nat → List α} {limit : Nat} (hlimit : 0 < limit)
    (hd : ∀ k, Unique (fun r => some (key r)) (rows k)) :
    Traverses key (fun k c => fetchPage key c limit (rows k)) rows := by
  have hstart : Collected key none [] ([] : List α) :=
    ⟨.nil, fun c hc => (nomatch hc), fun s hs => (nomatch hs), fun _ => rfl⟩
  have hall : Collects key rows limit 0 none [] [] := collects hlimit hd hstart
  obtain ⟨n, out, hrun, hdesc, hreal, hcomplete⟩ := hall
  refine ⟨n, out, hrun, hdesc, fun a ha => ?_, fun id hthere => ?_⟩
  · obtain ⟨k, -, hk, hak⟩ := hreal a ha
    exact ⟨k, by omega, hak⟩
  · exact List.mem_map.1 (hcomplete id (fun c hc => (nomatch hc)) fun k _ hk => hthere k (by omega))

def namedProject (id : Uuid) : Project := ⟨id, "Garden", "", none, .active, 0, 0, 1⟩

/-- Three projects; the one the first cursor names is deleted before the second request, and a new one inserted. -/
def changingProjects (k : Nat) : Workspace :=
  { Workspace.initial 0 0 none false with
    projects := if k = 0 then [namedProject 1, namedProject 2, namedProject 3] else [namedProject 1, namedProject 4] }

end Store

end Prosepect
