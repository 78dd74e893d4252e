/-
Hash maps as association lists without two entries of one key: the number of entries, and the
entries that are kept by a condition on them.
-/
import Mathlib.Data.List.AList

universe u v

/-- `HashMap<κ, α>`. -/
abbrev KeyMap (κ : Type u) (α : Type v) : Type (max u v) := AList fun _ : κ => α

namespace KeyMap

variable {κ : Type u} {α : Type v} {m : KeyMap κ α} {k : κ} {a : α}

/-- `HashMap::len`. -/
def len (m : KeyMap κ α) : Nat := m.entries.length

/-- `HashMap::retain`. -/
def retain (keep : κ → α → Bool) (m : KeyMap κ α) : KeyMap κ α :=
  ⟨m.entries.filter fun e => keep e.1 e.2, m.nodupKeys.sublist List.filter_sublist⟩

variable [DecidableEq κ]

theorem lookup_retain_eq_some {keep : κ → α → Bool} :
    (retain keep m).lookup k = some a ↔ m.lookup k = some a ∧ keep k a = true := by
  have h := @AList.mem_lookup_iff κ (fun _ => α) _ k a (retain keep m)
  simp only [Option.mem_def] at h
  rw [h, ← Option.mem_def, AList.mem_lookup_iff]
  simp [retain]

/-- An entry stays as it is, or is gone because the condition fails. -/
theorem lookup_retain {keep : κ → α → Bool} (m : KeyMap κ α) (k : κ) :
    (retain keep m).lookup k = m.lookup k ∨ ∃ a, m.lookup k = some a ∧ keep k a = false ∧ (retain keep m).lookup k = none := by
  cases hk : m.lookup k with
  | none =>
    left
    rw [Option.eq_none_iff_forall_ne_some]
    intro a ha
    rw [lookup_retain_eq_some, hk] at ha
    exact absurd ha.1 (by simp)
  | some a =>
    cases ha : keep k a with
    | true => exact .inl (lookup_retain_eq_some.2 ⟨hk, ha⟩)
    | false =>
      refine .inr ⟨a, rfl, ha, Option.eq_none_iff_forall_ne_some.2 fun b hb => ?_⟩
      rw [lookup_retain_eq_some, hk] at hb
      obtain ⟨hb, hkeep⟩ := hb
      cases hb
      rw [ha] at hkeep
      exact absurd hkeep (by simp)

theorem lookup_insert_eq (m : KeyMap κ α) (k j : κ) (a : α) :
    (AList.insert k a m).lookup j = if j = k then some a else m.lookup j := by
  by_cases h : j = k
  · subst h
    rw [if_pos rfl, AList.lookup_insert]
  · rw [if_neg h, AList.lookup_insert_ne h]

end KeyMap
