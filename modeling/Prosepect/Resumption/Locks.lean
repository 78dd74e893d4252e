/-
A guard that one task holds at a time, and what its holder knows.

- `Tasks.Protects`: the guard is held once or not at all, and `I` holds of the task that holds it;
- a rule for each thing that may happen to a task: it starts, goes on, takes the guard, gives it
  back, ends.
-/
import Prosepect.Resumption.Guards

namespace Resumption

namespace Tasks

variable {S : Sig} {ε W F G : Type} [DecidableEq G]

/-- `taken` says whether the guard is held. -/
structure Protects (M : Holding S ε W F G) (g : G) (I : F → Prop) (taken : Bool) (ts : Multiset (Task S ε F)) : Prop where
  exclusive : held M ts g = if taken then 1 else 0
  holder : ∀ t ∈ ts, g ∈ M.guards t.frame → I t.frame

namespace Protects

variable {M : Holding S ε W F G} {g : G} {I J : F → Prop} {taken : Bool} {ts : Multiset (Task S ε F)} {t t' : Task S ε F}

theorem empty : Protects M g I false 0 := ⟨rfl, fun t ht => absurd ht (Multiset.notMem_zero t)⟩

theorem mono (h : Protects M g I taken ts) (hI : ∀ f, I f → J f) : Protects M g J taken ts :=
  ⟨h.exclusive, fun t ht hg => hI _ (h.holder t ht hg)⟩

/-- Whoever holds the guard is alone with it. -/
theorem alone (h : Protects M g I taken (t ::ₘ ts)) (hg : g ∈ M.guards t.frame) :
    taken = true ∧ held M ts g = 0 ∧ ∀ u ∈ ts, g ∉ M.guards u.frame := by
  have hone := h.exclusive
  rw [held_cons] at hone
  have hpos : 0 < (M.guards t.frame).count g := List.count_pos_iff.2 hg
  have hle : (if taken then 1 else 0) ≤ 1 := by split <;> omega
  refine ⟨?_, by omega, fun u hu hgu => ?_⟩
  · by_contra hfree
    rw [if_neg hfree] at hone
    omega
  · have hposu : 0 < (M.guards u.frame).count g := List.count_pos_iff.2 hgu
    have hheld := count_le_held (M := M) (g := g) hu
    omega

/-- A task does not hold the guard twice. -/
theorem notMem_tail (h : Protects M g I taken (t ::ₘ ts)) {gs : List G} (hg : M.guards t.frame = g :: gs) : g ∉ gs := by
  intro hmem
  have hone := h.exclusive
  rw [held_cons, hg, List.count_cons_self] at hone
  have hpos : 0 < gs.count g := List.count_pos_iff.2 hmem
  have hle : (if taken then 1 else 0) ≤ 1 := by split <;> omega
  omega

/-- A task starts without the guard. -/
theorem start (h : Protects M g I taken ts) (hg : g ∉ M.guards t.frame) : Protects M g I taken (t ::ₘ ts) := by
  refine ⟨?_, fun u hu hgu => ?_⟩
  · rw [held_cons, List.count_eq_zero_of_not_mem hg, Nat.zero_add]
    exact h.exclusive
  · rcases Multiset.mem_cons.1 hu with rfl | hu
    · exact absurd hgu hg
    · exact h.holder u hu hgu

/-- A task ends that does not hold the guard. -/
theorem ended (h : Protects M g I taken (t ::ₘ ts)) (hg : g ∉ M.guards t.frame) : Protects M g I taken ts := by
  refine ⟨?_, fun u hu hgu => h.holder u (Multiset.mem_cons_of_mem hu) hgu⟩
  have hexclusive := h.exclusive
  rw [held_cons, List.count_eq_zero_of_not_mem hg, Nat.zero_add] at hexclusive
  exact hexclusive

/-- A task goes on with the guards it has. -/
theorem goOn (h : Protects M g I taken (t ::ₘ ts)) (hg : M.guards t'.frame = M.guards t.frame)
    (hI : g ∈ M.guards t.frame → I t.frame → I t'.frame) : Protects M g I taken (t' ::ₘ ts) := by
  refine ⟨?_, fun u hu hgu => ?_⟩
  · rw [held_cons, hg, ← held_cons]
    exact h.exclusive
  · rcases Multiset.mem_cons.1 hu with rfl | hu
    · rw [hg] at hgu
      exact hI hgu (h.holder t (Multiset.mem_cons_self t ts) hgu)
    · exact h.holder u (Multiset.mem_cons_of_mem hu) hgu

/-- The guard is free, and a task takes it. -/
theorem take (h : Protects M g I false (t ::ₘ ts)) (hg : M.guards t'.frame = [g]) (hI : I t'.frame) : Protects M g I true (t' ::ₘ ts) := by
  have hnone := h.exclusive
  rw [held_cons, if_neg Bool.false_ne_true] at hnone
  refine ⟨?_, fun u hu hgu => ?_⟩
  · rw [held_cons, hg, List.count_singleton_self, if_pos rfl]
    omega
  · rcases Multiset.mem_cons.1 hu with rfl | hu
    · exact hI
    · exact h.holder u (Multiset.mem_cons_of_mem hu) hgu

/-- The holder gives the guard back; what others know they need not keep, for nobody has it. -/
theorem give (h : Protects M g I taken (t ::ₘ ts)) (hg : g ∈ M.guards t.frame) (hg' : g ∉ M.guards t'.frame) :
    Protects M g J false (t' ::ₘ ts) := by
  obtain ⟨-, hrest, hothers⟩ := h.alone hg
  refine ⟨?_, fun u hu hgu => ?_⟩
  · rw [held_cons, List.count_eq_zero_of_not_mem hg', hrest]
    rfl
  · rcases Multiset.mem_cons.1 hu with rfl | hu
    · exact absurd hgu hg'
    · exact absurd hgu (hothers u hu)

end Protects

end Tasks

end Resumption
