/-
`google_tasks.rs`: the laws of the three-way merge. Every guarantee of the synchronization of tasks
against lost edits rests on them (`reconcile_laws`).
-/
import Mathlib.Tactic.Tauto
import Prosepect.GoogleTasks.Fields

namespace Prosepect

namespace GoogleTasks

/-! ## One field -/

/-- A field is the same on both sides, or one side has the baseline. -/
def Unopposed {α : Type} (baseline mine remote : α) : Prop := mine = remote ∨ remote = baseline ∨ mine = baseline

/-- Both sides have changed a field, to different values. -/
def Opposed {α : Type} (baseline mine remote : α) : Prop := mine ≠ baseline ∧ remote ≠ baseline ∧ mine ≠ remote

/-- The value of the side that has changed a field, and the baseline's when none has. -/
structure Takes {α : Type} (baseline mine remote merged : α) : Prop where
  neither : mine = baseline → remote = baseline → merged = baseline
  mine : mine ≠ baseline → merged = mine
  remote : remote ≠ baseline → merged = remote

section Field

variable {α : Type} [DecidableEq α] {b m r a : α}

omit [DecidableEq α] in
theorem not_unopposed_iff : ¬ Unopposed b m r ↔ Opposed b m r := by
  unfold Unopposed Opposed
  tauto

theorem merge_eq_some (h : merge b m r = some a) : (a = m ∧ (m = r ∨ r = b)) ∨ (a = r ∧ m = b) := by
  unfold merge at h
  split at h
  · rename_i hsame
    exact .inl ⟨(Option.some.inj h).symm, hsame⟩
  · split at h
    · exact .inr ⟨(Option.some.inj h).symm, ‹_›⟩
    · cases h

theorem Unopposed.some (h : Unopposed b m r) : ∃ a, merge b m r = some a := by
  unfold merge
  split
  · exact ⟨_, rfl⟩
  · rename_i hno
    rw [if_pos]
    · exact ⟨_, rfl⟩
    · rcases h with h | h | h
      · exact absurd (.inl h) hno
      · exact absurd (.inr h) hno
      · exact h

theorem merge_eq_none_iff : merge b m r = none ↔ Opposed b m r := by
  rw [← not_unopposed_iff]
  constructor
  · intro h hno
    obtain ⟨a, ha⟩ := hno.some
    rw [h] at ha
    cases ha
  · intro h
    cases hm : merge b m r with
    | none => rfl
    | some a =>
      rcases merge_eq_some hm with ⟨-, h' | h'⟩ | ⟨-, h'⟩
      · exact absurd (.inl h') h
      · exact absurd (.inr (.inl h')) h
      · exact absurd (.inr (.inr h')) h

theorem merge_takes (h : merge b m r = some a) : Takes b m r a := by
  constructor
  · rintro hm hr
    rcases merge_eq_some h with ⟨ha, -⟩ | ⟨ha, -⟩
    · exact ha.trans hm
    · exact ha.trans hr
  · intro hm
    rcases merge_eq_some h with ⟨ha, -⟩ | ⟨-, hb⟩
    · exact ha
    · exact absurd hb hm
  · intro hr
    rcases merge_eq_some h with ⟨ha, hmr | hb⟩ | ⟨ha, -⟩
    · exact ha.trans hmr
    · exact absurd hb hr
    · exact ha

/-- Whichever side is asked first, the same value comes out. -/
theorem merge_comm (b m r : α) : merge b r m = merge b m r := by
  unfold merge
  by_cases hmr : m = r
  · simp [hmr]
  · by_cases hr : r = b
    · by_cases hm : m = b
      · exact absurd (hm.trans hr.symm) hmr
      · rw [if_neg (by tauto), if_pos hr, if_pos (.inr hr)]
    · by_cases hm : m = b
      · rw [if_pos (.inr hm), if_neg (by tauto), if_pos hm]
      · rw [if_neg (by tauto), if_neg hr, if_neg (by tauto), if_neg hm]

/-- What was merged meets no opposition from the side it was merged with. -/
theorem merge_merged (h : merge b m r = some a) : merge b m a = some a := by
  rcases merge_eq_some h with ⟨rfl, -⟩ | ⟨rfl, rfl⟩
  · exact merge_self b a
  · exact merge_baseline m a

/-- What is merged opposes nothing. -/
theorem unopposed_merge (h : merge b m r = some a) : Unopposed b m a := by
  rcases merge_eq_some h with ⟨rfl, -⟩ | ⟨rfl, hm⟩
  · exact .inl rfl
  · exact .inr (.inr hm)

end Field

/-! ## All fields -/

structure Mergeable (baseline mine remote : TaskFields) : Prop where
  title : Unopposed baseline.title mine.title remote.title
  date : Unopposed baseline.date mine.date remote.date
  completed : Unopposed baseline.completed mine.completed remote.completed

section Fields

variable {baseline mine remote merged : TaskFields}

theorem reconcile_ok (h : reconcile baseline mine remote = .ok merged) :
    merge baseline.title mine.title remote.title = some merged.title ∧
    merge baseline.date mine.date remote.date = some merged.date ∧
    merge baseline.completed mine.completed remote.completed = some merged.completed := by
  unfold reconcile at h
  cases ht : merge baseline.title mine.title remote.title with
  | none =>
    rw [ht] at h
    cases h
  | some title =>
    cases hd : merge baseline.date mine.date remote.date with
    | none =>
      rw [ht, hd] at h
      cases h
    | some date =>
      cases hc : merge baseline.completed mine.completed remote.completed with
      | none =>
        rw [ht, hd, hc] at h
        cases h
      | some completed =>
        rw [ht, hd, hc] at h
        cases h
        exact ⟨rfl, rfl, rfl⟩

theorem reconcile_of_merge (ht : merge baseline.title mine.title remote.title = some merged.title)
    (hd : merge baseline.date mine.date remote.date = some merged.date)
    (hc : merge baseline.completed mine.completed remote.completed = some merged.completed) :
    reconcile baseline mine remote = .ok merged := by
  unfold reconcile
  rw [ht, hd, hc]
  rfl

theorem Mergeable.ok (h : Mergeable baseline mine remote) : ∃ merged, reconcile baseline mine remote = .ok merged := by
  obtain ⟨title, ht⟩ := h.title.some
  obtain ⟨date, hd⟩ := h.date.some
  obtain ⟨completed, hc⟩ := h.completed.some
  exact ⟨⟨title, date, completed⟩, reconcile_of_merge ht hd hc⟩

theorem mergeable_merged (h : reconcile baseline mine remote = .ok merged) : Mergeable baseline mine merged := by
  obtain ⟨ht, hd, hc⟩ := reconcile_ok h
  exact ⟨unopposed_merge ht, unopposed_merge hd, unopposed_merge hc⟩

theorem reconcile_comm (baseline mine remote : TaskFields) :
    reconcile baseline remote mine = reconcile baseline mine remote := by
  unfold reconcile
  rw [merge_comm, merge_comm baseline.date, merge_comm baseline.completed]

theorem reconcile_merged (h : reconcile baseline mine remote = .ok merged) : reconcile baseline mine merged = .ok merged := by
  obtain ⟨ht, hd, hc⟩ := reconcile_ok h
  exact reconcile_of_merge (merge_merged ht) (merge_merged hd) (merge_merged hc)

/-- Nothing is merged exactly if some field is opposed. -/
theorem reconcile_error_iff : (∃ field, reconcile baseline mine remote = .error field) ↔
    Opposed baseline.title mine.title remote.title ∨ Opposed baseline.date mine.date remote.date ∨
      Opposed baseline.completed mine.completed remote.completed := by
  constructor
  · rintro ⟨field, h⟩
    by_contra hno
    simp only [not_or, ← not_unopposed_iff, not_not] at hno
    obtain ⟨merged, hok⟩ := Mergeable.ok ⟨hno.1, hno.2.1, hno.2.2⟩
    rw [h] at hok
    cases hok
  · intro hopposed
    cases h : reconcile baseline mine remote with
    | error field => exact ⟨field, rfl⟩
    | ok merged =>
      obtain ⟨ht, hd, hc⟩ := reconcile_ok h
      rcases hopposed with ho | ho | ho
      · rw [merge_eq_none_iff.2 ho] at ht
        cases ht
      · rw [merge_eq_none_iff.2 ho] at hd
        cases hd
      · rw [merge_eq_none_iff.2 ho] at hc
        cases hc

theorem resolve_of_ok (h : reconcile baseline mine remote = .ok merged) (choice : TaskConflictChoice) :
    resolveConflictingFields baseline mine remote choice = merged := by
  obtain ⟨ht, hd, hc⟩ := reconcile_ok h
  unfold resolveConflictingFields
  rw [ht, hd, hc]
  rfl

/-- The fields of the chosen side. -/
def TaskConflictChoice.side (choice : TaskConflictChoice) (mine remote : TaskFields) : TaskFields :=
  match choice with
  | .google => remote
  | .prosepect => mine

/-- The chosen side has an opposed field, the merge any other one. -/
structure Decides {α : Type} [DecidableEq α] (baseline mine remote chosen resolved : α) : Prop where
  opposed : Opposed baseline mine remote → resolved = chosen
  merged : ¬ Opposed baseline mine remote → merge baseline mine remote = some resolved

theorem decides_getD {α : Type} [DecidableEq α] (b m r chosen : α) : Decides b m r chosen ((merge b m r).getD chosen) := by
  constructor
  · intro h
    rw [merge_eq_none_iff.2 h]
    rfl
  · intro h
    cases hm : merge b m r with
    | none => exact absurd (merge_eq_none_iff.1 hm) h
    | some a => rfl

end Fields

/-- The laws of `reconcile` and of `resolve_conflicting_fields`. -/
theorem reconcile_laws (baseline mine remote : TaskFields) :
    ((∃ field, reconcile baseline mine remote = .error field) ↔
      Opposed baseline.title mine.title remote.title ∨ Opposed baseline.date mine.date remote.date ∨
        Opposed baseline.completed mine.completed remote.completed) ∧
    reconcile baseline remote mine = reconcile baseline mine remote ∧
    (∀ merged, reconcile baseline mine remote = .ok merged →
      (Takes baseline.title mine.title remote.title merged.title ∧ Takes baseline.date mine.date remote.date merged.date ∧
        Takes baseline.completed mine.completed remote.completed merged.completed) ∧
      (∀ side, side = mine ∨ side = remote →
        reconcile baseline side merged = .ok merged ∧ reconcile baseline merged side = .ok merged) ∧
      ∀ choice, resolveConflictingFields baseline mine remote choice = merged) ∧
    ∀ choice resolved, resolveConflictingFields baseline mine remote choice = resolved →
      (Decides baseline.title mine.title remote.title (choice.side mine remote).title resolved.title ∧
        Decides baseline.date mine.date remote.date (choice.side mine remote).date resolved.date ∧
        Decides baseline.completed mine.completed remote.completed (choice.side mine remote).completed resolved.completed) ∧
      ∀ before, reconcile before resolved resolved = .ok resolved := by
  refine ⟨reconcile_error_iff, reconcile_comm baseline mine remote, ?_, ?_⟩
  · intro merged h
    obtain ⟨ht, hd, hc⟩ := reconcile_ok h
    refine ⟨⟨merge_takes ht, merge_takes hd, merge_takes hc⟩, ?_, resolve_of_ok h⟩
    have hside : ∀ side, side = mine ∨ side = remote → reconcile baseline side merged = .ok merged := by
      rintro side (rfl | rfl)
      · exact reconcile_merged h
      · exact reconcile_merged ((reconcile_comm baseline mine side).trans h)
    intro side hs
    exact ⟨hside side hs, (reconcile_comm baseline side merged).trans (hside side hs)⟩
  · rintro choice resolved rfl
    refine ⟨⟨?_, ?_, ?_⟩, fun before => reconcile_self before _⟩
    · exact decides_getD baseline.title mine.title remote.title _
    · exact decides_getD baseline.date mine.date remote.date _
    · exact decides_getD baseline.completed mine.completed remote.completed _

end GoogleTasks

end Prosepect
