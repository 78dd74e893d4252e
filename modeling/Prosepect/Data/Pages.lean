/-
Pages of rows in descending order of a key: a page holds the first rows below a cursor, one more than
its limit is fetched to see whether there are others, and the cursor of the next page is the last key
kept (`fetchPage_spec`).
-/
import Mathlib.Data.List.Sort
import Prosepect.Data.Table

namespace Paging

open Table

/-- Some rows, and where the next page begins if there is one. -/
structure Page (α κ : Type) where
  items : List α
  nextCursor : Option κ
deriving DecidableEq, Repr

section

variable {α κ : Type} [LinearOrder κ] (key : α → κ)

/-- The rows below a cursor, in descending order. -/
def window (cursor : Option κ) (rows : List α) : List α :=
  (rows.filter fun r => cursor.all fun c => decide (key r < c)).insertionSort fun a b => key b ≤ key a

/-- A page of at most `limit` rows below a cursor. -/
def fetchPage (cursor : Option κ) (limit : Nat) (rows : List α) : Page α κ :=
  let fetched := (window key cursor rows).take (limit + 1)
  if fetched.length > limit then
    { items := fetched.dropLast, nextCursor := fetched.dropLast.getLast?.map key }
  else { items := fetched, nextCursor := none }

variable {key} {cursor : Option κ} {rows : List α} {limit : Nat} {r : α}

theorem mem_window : r ∈ window key cursor rows ↔ r ∈ rows ∧ ∀ c, cursor = some c → key r < c := by
  unfold window
  rw [List.mem_insertionSort, List.mem_filter]
  cases cursor with
  | none => simp
  | some c => simp

/-- Rows with different keys come in strictly descending order. -/
theorem window_descends (key : α → κ) (cursor : Option κ) (h : Unique (fun r => some (key r)) rows) :
    (window key cursor rows).Pairwise fun a b => key b < key a := by
  have hle : (window key cursor rows).Pairwise fun a b => key b ≤ key a := by
    have : IsTrans α fun a b => key b ≤ key a := ⟨fun _ _ _ hab hbc => hbc.trans hab⟩
    have : Std.Total fun a b : α => key b ≤ key a := ⟨fun a b => le_total (key b) (key a)⟩
    exact List.pairwise_insertionSort _ _
  have hne : (window key cursor rows).Pairwise fun a b => key a ≠ key b := by
    refine (List.Perm.pairwise_iff (fun hab => Ne.symm hab) (List.perm_insertionSort _ _)).2 ?_
    refine List.Pairwise.filter _ (h.imp fun hab => ?_)
    rcases hab with hab | hab
    · cases hab
    · exact fun he => hab (congrArg some he)
  exact hle.imp₂ (fun _ _ hab hn => lt_of_le_of_ne hab hn.symm) hne

/-- What is on a page: the window up to the cursor it names, or all of it. -/
theorem fetchPage_spec (key : α → κ) (cursor : Option κ) (hlimit : 0 < limit) (h : Unique (fun r => some (key r)) rows) :
    ∃ rest, window key cursor rows = (fetchPage key cursor limit rows).items ++ rest ∧
      ((fetchPage key cursor limit rows).nextCursor = none → rest = []) ∧
      ∀ c, (fetchPage key cursor limit rows).nextCursor = some c → (∀ c', cursor = some c' → c < c') ∧
        (∀ a ∈ (fetchPage key cursor limit rows).items, c ≤ key a) ∧ ∀ a ∈ rest, key a < c := by
  have hdesc := window_descends key cursor h
  have hbelow : ∀ a ∈ window key cursor rows, ∀ c', cursor = some c' → key a < c' := fun a ha => (mem_window.1 ha).2
  unfold fetchPage
  generalize window key cursor rows = l at *
  simp only
  split
  · rename_i hmore
    have hlen : limit < l.length := by
      rw [List.length_take] at hmore
      omega
    have hdrop : (l.take (limit + 1)).dropLast = l.take limit := by
      rw [List.dropLast_eq_take, List.take_take, List.length_take]
      congr 1
      omega
    rw [hdrop]
    refine ⟨l.drop limit, (List.take_append_drop limit l).symm, fun hnone => ?_, fun c hc => ?_⟩
    · -- a kept row is the last
      have hne : l.take limit ≠ [] := by
        intro hnil
        have := congrArg List.length hnil
        rw [List.length_take, List.length_nil] at this
        omega
      rw [List.getLast?_eq_some_getLast hne] at hnone
      cases hnone
    · obtain ⟨last, hlast, rfl⟩ := Option.map_eq_some_iff.1 hc
      have hmem : last ∈ l.take limit := List.mem_of_getLast? hlast
      obtain ⟨init, hinit⟩ := List.getLast?_eq_some_iff.1 hlast
      rw [← List.take_append_drop limit l] at hdesc
      obtain ⟨hkept, -, hrest⟩ := List.pairwise_append.1 hdesc
      refine ⟨fun c' hc' => hbelow last (List.mem_of_mem_take hmem) c' hc', fun a ha => ?_,
        fun a ha => hrest last hmem a ha⟩
      rw [hinit] at hkept ha
      rcases List.mem_append.1 ha with ha | ha
      · exact ((List.pairwise_append.1 hkept).2.2 a ha last List.mem_cons_self).le
      · rw [List.mem_singleton.1 ha]
  · rename_i hall
    have hshort : l.length ≤ limit := by
      rw [List.length_take] at hall
      omega
    refine ⟨[], ?_, fun _ => rfl, fun c hc => by cases hc⟩
    rw [List.take_of_length_le (by omega), List.append_nil]

end

end Paging
