/-
Forests given by the parent of each node: when following parents never comes back, and what
keeps it so — a node less, a new parent that is not below the node.

`chain` follows the parents for a number of steps, as a recursive query does; in a forest as many
steps as there are nodes are enough.
-/
import Mathlib.Data.List.Perm.Subperm
import Mathlib.Data.List.Nodup
import Mathlib.Logic.Relation
import Mathlib.Tactic.Common

namespace Forest

open Relation

variable {κ : Type} {up up' : κ → Option κ} {a b x : κ}

/-- One step up. -/
def Above (up : κ → Option κ) (a b : κ) : Prop := up a = some b

/-- Nothing is above itself. -/
def Acyclic (up : κ → Option κ) : Prop := ∀ a, ¬ TransGen (Above up) a a

/-- Links that are dropped close no cycle. -/
theorem Acyclic.mono (h : Acyclic up) (hle : ∀ a b, up' a = some b → up a = some b) : Acyclic up' :=
  fun a hc => h a (TransGen.mono hle a a hc)

theorem Acyclic.ne (h : Acyclic up) (hab : up a = some b) : a ≠ b := by
  rintro rfl
  exact h a (.single hab)

section Update

variable [DecidableEq κ]

/-- With a new link of `x` to `p`, what is above `a` was there before, or is reached through it. -/
theorem above_update {p : κ} (hup : ∀ a b, a ≠ x → up' a = some b → up a = some b) (hx : ∀ b, up' x = some b → b = p)
    (h : TransGen (Above up') a b) :
    TransGen (Above up) a b ∨ ReflTransGen (Above up) a x ∧ ReflTransGen (Above up) p b := by
  induction h with
  | @single b hab =>
    by_cases hax : a = x
    · subst hax
      rw [hx b hab]
      exact .inr ⟨.refl, .refl⟩
    · exact .inl (.single (hup a b hax hab))
  | @tail b c _ hbc ih =>
    by_cases hbx : b = x
    · subst hbx
      rw [hx c hbc]
      rcases ih with h | ⟨h, -⟩
      · exact .inr ⟨h.to_reflTransGen, .refl⟩
      · exact .inr ⟨h, .refl⟩
    · have hup' : Above up b c := hup b c hbx hbc
      rcases ih with h | ⟨h, h'⟩
      · exact .inl (h.tail hup')
      · exact .inr ⟨h, h'.tail hup'⟩

/-- A new link of `x` closes no cycle, if `x` is not above its end. -/
theorem Acyclic.update (h : Acyclic up) (hup : ∀ a b, a ≠ x → up' a = some b → up a = some b)
    (hx : ∀ p, up' x = some p → ¬ ReflTransGen (Above up) p x) : Acyclic up' := by
  cases hp : up' x with
  | none =>
    refine h.mono fun a b hab => hup a b ?_ hab
    rintro rfl
    rw [hp] at hab
    cases hab
  | some p =>
    intro a hc
    have hx' : ∀ b, up' x = some b → b = p := fun b hb => Option.some.inj (hb.symm.trans hp)
    rcases above_update hup hx' hc with hc | ⟨hax, hpa⟩
    · exact h a hc
    · exact hx p hp (hpa.trans hax)

end Update

/-- Only parents are above anything. -/
theorem reach_parent (h : ReflTransGen (Above up) a x) (hne : a ≠ x) : ∃ b, up b = some x := by
  rcases ReflTransGen.cases_tail h with rfl | ⟨b, -, hb⟩
  · exact absurd rfl hne
  · exact ⟨b, hb⟩

/-! ## Following the parents -/

/-- The first `n` nodes from `a` upwards. -/
def chain (up : κ → Option κ) : (n : Nat) → κ → List κ
  | 0, _ => []
  | n + 1, a => a :: (match up a with
    | some b => chain up n b
    | none => [])

theorem reach_of_mem_chain : ∀ {n : Nat} {a : κ}, x ∈ chain up n a → ReflTransGen (Above up) a x
  | 0, _, h => by cases h
  | n + 1, a, h => by
    rcases List.mem_cons.1 h with rfl | h
    · exact .refl
    · cases hb : up a with
      | none => simp [hb] at h
      | some b =>
        rw [hb] at h
        exact .head hb (reach_of_mem_chain h)

theorem length_chain_le : ∀ (n : Nat) (a : κ), (chain up n a).length ≤ n
  | 0, _ => Nat.le_refl 0
  | n + 1, a => by
    cases hb : up a with
    | none => simp [chain, hb]
    | some b => simpa [chain, hb] using length_chain_le n b

theorem chain_nodup (h : Acyclic up) : ∀ (n : Nat) (a : κ), (chain up n a).Nodup
  | 0, _ => List.nodup_nil
  | n + 1, a => by
    cases hb : up a with
    | none => simp [chain, hb]
    | some b =>
      simp only [chain, hb, List.nodup_cons]
      refine ⟨fun hm => ?_, chain_nodup h n b⟩
      exact h a (.head' hb (reach_of_mem_chain hm))

/-- A chain that ended before its steps were used up has everything above its start. -/
theorem mem_chain_of_short : ∀ {n : Nat} {a : κ}, (chain up n a).length < n → ReflTransGen (Above up) a x →
    x ∈ chain up n a
  | 0, _, h, _ => absurd h (Nat.not_lt_zero _)
  | n + 1, a, h, hr => by
    rcases ReflTransGen.cases_head hr with rfl | ⟨b, hb, hr⟩
    · exact List.mem_cons_self
    · have hb' : up a = some b := hb
      simp only [chain, hb', List.length_cons] at h ⊢
      exact List.mem_cons_of_mem _ (mem_chain_of_short (Nat.lt_of_succ_lt_succ h) hr)

/-- As many steps as there are nodes reach everything. -/
theorem mem_chain [DecidableEq κ] (h : Acyclic up) {l : List κ} (hl : ∀ b, ReflTransGen (Above up) a b → b ∈ l)
    (hr : ReflTransGen (Above up) a x) : x ∈ chain up l.length a := by
  by_cases hlt : (chain up l.length a).length < l.length
  · exact mem_chain_of_short hlt hr
  · -- without repetitions, a chain of that length has all the nodes
    have hsub : chain up l.length a ⊆ l := fun b hb => hl b (reach_of_mem_chain hb)
    have hperm : (chain up l.length a).Subperm l := List.subperm_of_subset (chain_nodup h l.length a) hsub
    exact (hperm.perm_of_length_le (Nat.le_of_not_lt hlt)).mem_iff.2 (hl x hr)

end Forest
