/-
Outlines: entries in reading order, each at a depth. An entry belongs to the nearest one before it
that is less deep, if that one is exactly one less deep; an array of the last entry at each depth,
cut behind the entry that was placed last, finds it.
-/
import Mathlib.Data.Nat.Count
import Mathlib.Tactic

namespace Outline

variable {α : Type} {p q : Nat → Bool} {n m : Nat}

/-! ## The nearest before -/

/-- The nearest place before `n` that satisfies `p`. -/
def nearest? (p : Nat → Bool) : (n : Nat) → Option Nat
  | 0 => none
  | n + 1 => if p n then some n else nearest? p n

theorem nearest?_eq_some : ∀ {n : Nat}, nearest? p n = some m ↔ m < n ∧ p m = true ∧ ∀ j, m < j → j < n → p j = false
  | 0 => by simp [nearest?]
  | n + 1 => by
    unfold nearest?
    constructor
    · intro h
      split at h
      · rename_i hn
        obtain rfl := Option.some.inj h
        exact ⟨Nat.lt_succ_self n, hn, fun j h1 h2 => by omega⟩
      · rename_i hn
        obtain ⟨hlt, hm, hlast⟩ := nearest?_eq_some.1 h
        refine ⟨by omega, hm, fun j h1 h2 => ?_⟩
        rcases Nat.lt_or_eq_of_le (Nat.le_of_lt_succ h2) with hj | rfl
        · exact hlast j h1 hj
        · simpa using hn
    · rintro ⟨hlt, hm, hlast⟩
      rcases Nat.lt_or_eq_of_le (Nat.le_of_lt_succ hlt) with h | rfl
      · rw [if_neg (by simp [hlast n h])]
        exact nearest?_eq_some.2 ⟨h, hm, fun j h1 h2 => hlast j h1 (by omega)⟩
      · rw [if_pos hm]

theorem nearest?_eq_none : ∀ {n : Nat}, nearest? p n = none ↔ ∀ j, j < n → p j = false
  | 0 => by simp [nearest?]
  | n + 1 => by
    unfold nearest?
    constructor
    · intro h j hj
      split at h
      · cases h
      · rename_i hn
        rcases Nat.lt_or_eq_of_le (Nat.le_of_lt_succ hj) with hj | rfl
        · exact nearest?_eq_none.1 h j hj
        · simpa using hn
    · intro h
      rw [if_neg (by simp [h n (Nat.lt_succ_self n)])]
      exact nearest?_eq_none.2 fun j hj => h j (by omega)

/-- The nearest of a wider kind, if it is of the narrower kind, is the nearest of that kind. -/
theorem nearest?_of_imp (h : ∀ j, q j = true → p j = true) (hp : nearest? p n = some m) (hq : q m = true) :
    nearest? q n = some m := by
  obtain ⟨hlt, -, hlast⟩ := nearest?_eq_some.1 hp
  refine nearest?_eq_some.2 ⟨hlt, hq, fun j h1 h2 => ?_⟩
  have hj := hlast j h1 h2
  cases hqj : q j with
  | false => rfl
  | true =>
    rw [h j hqj] at hj
    exact hj

theorem nearest?_none_of_imp (h : ∀ j, q j = true → p j = true) (hp : nearest? p n = none) : nearest? q n = none := by
  refine nearest?_eq_none.2 fun j hj => ?_
  cases hqj : q j with
  | false => rfl
  | true =>
    have hpj := nearest?_eq_none.1 hp j hj
    rw [h j hqj] at hpj
    exact hpj

/-! ## Counting -/

/-- A narrower kind that is as frequent is the same kind. -/
theorem of_count_eq (h : ∀ j, q j = true → p j = true) :
    ∀ {n : Nat}, Nat.count (q · = true) n = Nat.count (p · = true) n → ∀ j, j < n → p j = true → q j = true
  | 0, _, j, hj, _ => absurd hj (Nat.not_lt_zero j)
  | n + 1, hc, j, hj, hp => by
    have hle : Nat.count (q · = true) n ≤ Nat.count (p · = true) n := Nat.count_mono_left fun k _ hk => h k hk
    rw [Nat.count_succ, Nat.count_succ] at hc
    rcases Nat.lt_or_eq_of_le (Nat.le_of_lt_succ hj) with hlt | rfl
    · refine of_count_eq h ?_ j hlt hp
      by_cases hq : q n = true
      · rw [if_pos hq, if_pos (h n hq)] at hc
        omega
      · rw [if_neg hq] at hc
        split at hc <;> omega
    · by_contra hq
      rw [if_neg hq, if_pos hp] at hc
      omega

/-! ## The last entry at each depth -/

/-- `trail[depth] = a; trail.length = depth + 1`, on an array with holes. -/
def place (trail : List (Option α)) (depth : Nat) (a : α) : List (Option α) :=
  trail.take depth ++ (List.replicate (depth - trail.length) none ++ [some a])

/-- `trail[depth]`. -/
def at? (trail : List (Option α)) (depth : Nat) : Option α := trail[depth]?.join

theorem at?_place (trail : List (Option α)) (depth k : Nat) (a : α) :
    at? (place trail depth a) k = if k < depth then at? trail k else if k = depth then some a else none := by
  unfold at? place
  rcases Nat.lt_trichotomy k depth with h | rfl | h
  · rw [if_pos h]
    by_cases hk : k < trail.length
    · rw [List.getElem?_append_left (by simp; omega), List.getElem?_take_of_lt h]
    · rw [List.getElem?_append_right (by simp; omega), List.getElem?_append_left (by simp; omega)]
      simp only [List.getElem?_eq_none (Nat.le_of_not_lt hk), Option.join_none]
      rw [List.getElem?_replicate]
      split <;> rfl
  · rw [if_neg (Nat.lt_irrefl k), if_pos rfl, List.getElem?_append_right (by simp),
      List.getElem?_append_right (by simp; omega)]
    simp
  · rw [if_neg (by omega), if_neg (by omega), List.getElem?_eq_none (by simp; omega)]
    rfl

/-- The nearest entry before `n` that is at most `k` deep, if it is `k` deep. -/
def anchor (p : Nat → Bool) (depth : Nat → Nat) (k n : Nat) : Option Nat :=
  (nearest? (fun j => p j && depth j ≤ k) n).filter fun m => depth m == k

theorem anchor_succ_of_not (depth : Nat → Nat) (k : Nat) (h : p n = false) :
    anchor p depth k (n + 1) = anchor p depth k n := by
  unfold anchor
  rw [nearest?, if_neg (by simp [h])]

/-- The array keeps the anchors when the entry `n` is placed at its depth. -/
theorem at?_place_anchor {trail : List (Option α)} {depth : Nat → Nat} {f : Nat → α} (h : p n = true)
    (ht : ∀ k, at? trail k = (anchor p depth k n).map f) (k : Nat) :
    at? (place trail (depth n) (f n)) k = (anchor p depth k (n + 1)).map f := by
  rw [at?_place]
  unfold anchor
  rw [nearest?]
  rcases Nat.lt_trichotomy k (depth n) with hk | rfl | hk
  · rw [if_pos hk, if_neg (by simp; omega), ht]
    rfl
  · rw [if_neg (Nat.lt_irrefl _), if_pos rfl, if_pos (by simp [h])]
    simp
  · rw [if_neg (by omega), if_neg (by omega), if_pos (by simp [h]; omega)]
    simp [Option.filter]
    omega

end Outline
