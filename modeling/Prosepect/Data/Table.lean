/-
Tables as lists of rows: the statements of SQL that act on one, and UNIQUE columns — a column is
a partial key, NULL being no key — with what each statement keeps of them.
-/
import Mathlib.Data.List.Nodup
import Mathlib.Data.List.Perm.Basic
import Mathlib.Tactic.Common

namespace Table

variable {α β κ : Type}

/-- `UPDATE … SET f WHERE p`. -/
def update (p : α → Bool) (f : α → α) (t : List α) : List α := t.map fun r => if p r then f r else r

/-- `DELETE … WHERE p`. -/
def delete (p : α → Bool) (t : List α) : List α := t.filter fun r => !p r

/-- `SELECT EXISTS(… WHERE p)`. -/
def has (p : α → Bool) (t : List α) : Bool := t.any p

theorem mem_update {p : α → Bool} {f : α → α} {t : List α} {r : α} :
    r ∈ update p f t ↔ (r ∈ t ∧ p r = false) ∨ ∃ s ∈ t, p s = true ∧ f s = r := by
  simp only [update, List.mem_map]
  constructor
  · rintro ⟨s, hs, rfl⟩
    cases hp : p s with
    | false => exact .inl ⟨by simpa [hp] using hs, by simp [hp]⟩
    | true => exact .inr ⟨s, hs, hp, by simp⟩
  · rintro (⟨hr, hp⟩ | ⟨s, hs, hp, rfl⟩)
    · exact ⟨r, hr, by simp [hp]⟩
    · exact ⟨s, hs, by simp [hp]⟩

@[simp] theorem mem_delete {p : α → Bool} {t : List α} {r : α} : r ∈ delete p t ↔ r ∈ t ∧ p r = false := by
  simp [delete]

@[simp] theorem has_iff {p : α → Bool} {t : List α} : has p t = true ↔ ∃ r ∈ t, p r = true := by
  simp [has]

theorem has_eq_false_iff {p : α → Bool} {t : List α} : has p t = false ↔ ∀ r ∈ t, p r = false := by
  simp [has]

theorem update_congr {p : α → Bool} {f g : α → α} {t : List α} (h : ∀ r ∈ t, p r = true → f r = g r) :
    update p f t = update p g t := by
  refine List.map_congr_left fun r hr => ?_
  by_cases hp : p r = true
  · simp [hp, h r hr hp]
  · simp [hp]

theorem update_of_not {p : α → Bool} {f : α → α} {t : List α} (h : ∀ r ∈ t, p r = false) : update p f t = t := by
  unfold update
  conv_rhs => rw [← List.map_id t]
  exact List.map_congr_left fun r hr => by simp [h r hr]

theorem delete_of_not {p : α → Bool} {t : List α} (h : ∀ r ∈ t, p r = false) : delete p t = t :=
  List.filter_eq_self.2 fun r hr => by simp [h r hr]

/-- A column an update does not write keeps its values. -/
theorem map_update {p : α → Bool} {f : α → α} {t : List α} {g : α → β} (h : ∀ r, g (f r) = g r) :
    (update p f t).map g = t.map g := by
  simp only [update, List.map_map]
  refine List.map_congr_left fun r _ => ?_
  by_cases hp : p r = true <;> simp [hp, h]

/-- What a search finds after an update that does not write what it looks for. -/
theorem find_update {p q : α → Bool} {f : α → α} {t : List α} (h : ∀ r, q (f r) = q r) :
    (update p f t).find? q = (t.find? q).map fun r => if p r then f r else r := by
  unfold update
  induction t with
  | nil => rfl
  | cons a t ih =>
    have hq : q (if p a then f a else a) = q a := by
      by_cases hp : p a = true <;> simp [hp, h]
    rw [List.map_cons, List.find?_cons, List.find?_cons, hq]
    cases q a with
    | true => rfl
    | false => exact ih

/-- The rows an update replaces by `a` are all found, or none is, and `a` like them. -/
theorem find_update_const {p q : α → Bool} {t : List α} (a : α) (h : ∀ r, p r = true → q a = q r) :
    (update p (fun _ => a) t).find? q = (t.find? q).map fun r => if p r then a else r := by
  unfold update
  induction t with
  | nil => rfl
  | cons b t ih =>
    have hq : q (if p b then a else b) = q b := by
      by_cases hp : p b = true <;> simp [hp, h b]
    rw [List.map_cons, List.find?_cons, List.find?_cons, hq]
    cases q b with
    | true => rfl
    | false => exact ih

/-- What a search finds after a deletion of other rows. -/
theorem find_delete {p q : α → Bool} {t : List α} (h : ∀ r ∈ t, q r = true → p r = false) :
    (delete p t).find? q = t.find? q := by
  unfold delete
  induction t with
  | nil => rfl
  | cons a t ih =>
    have ih' := ih fun r hr => h r (List.mem_cons_of_mem _ hr)
    cases hq : q a with
    | true => simp [h a List.mem_cons_self hq, hq]
    | false => by_cases hp : p a = true <;> simp [hp, hq, ih']

/-- A search for rows that are deleted finds none. -/
theorem find_delete_none {p q : α → Bool} {t : List α} (h : ∀ r ∈ t, q r = true → p r = true) :
    (delete p t).find? q = none := by
  rw [List.find?_eq_none]
  intro r hr hq
  obtain ⟨hm, hp⟩ := mem_delete.1 hr
  rw [h r hm hq] at hp
  cases hp

/-- A list is what is deleted from it and what stays. -/
theorem delete_append_perm (p : α → Bool) (l : List α) : (delete p l ++ l.filter p).Perm l :=
  List.perm_append_comm.trans (List.filter_append_perm p l)

/-- Rows that come back changed, at the end. -/
theorem delete_append_map_perm (p : α → Bool) (f : α → α) (l : List α) :
    (delete p l ++ (l.filter p).map f).Perm (update p f l) := by
  have hkept : (delete p l).map (fun r => if p r then f r else r) = delete p l := by
    conv_rhs => rw [← List.map_id (delete p l)]
    refine List.map_congr_left fun r hr => ?_
    simp [(mem_delete.1 hr).2]
  have hback : (l.filter p).map (fun r => if p r then f r else r) = (l.filter p).map f := by
    refine List.map_congr_left fun r hr => ?_
    simp [(List.mem_filter.1 hr).2]
  have hmap := (delete_append_perm p l).map fun r => if p r then f r else r
  rwa [List.map_append, hkept, hback] at hmap

/-- The same update again changes nothing. -/
theorem update_update {p : α → Bool} {f : α → α} {t : List α} (hp : ∀ r, p (f r) = p r) (hf : ∀ r, f (f r) = f r) :
    update p f (update p f t) = update p f t := by
  simp only [update, List.map_map]
  refine List.map_congr_left fun r _ => ?_
  by_cases h : p r = true <;> simp [h, hp, hf]

/-- Two updates of the same rows are one. -/
theorem update_comp {p : α → Bool} {f g : α → α} {t : List α} (hp : ∀ r, p (g r) = p r) :
    update p f (update p g t) = update p (fun r => f (g r)) t := by
  simp only [update, List.map_map]
  refine List.map_congr_left fun r _ => ?_
  by_cases h : p r = true
  · simp [h, hp]
  · simp [h]

/-! ## UNIQUE -/

/-- No two rows have the same key; rows without one are free. -/
def Unique (key : α → Option κ) (t : List α) : Prop := t.Pairwise fun r s => key r = none ∨ key r ≠ key s

instance [DecidableEq κ] (key : α → Option κ) (t : List α) : Decidable (Unique key t) :=
  inferInstanceAs (Decidable (t.Pairwise _))

theorem Unique.nil (key : α → Option κ) : Unique key [] := List.Pairwise.nil

theorem Unique.eq {key : α → Option κ} {t : List α} (h : Unique key t) {r s : α} {k : κ} (hr : r ∈ t) (hs : s ∈ t)
    (hkr : key r = some k) (hks : key s = some k) : r = s := by
  induction h with
  | nil => cases hr
  | cons ha _ ih =>
    rcases List.mem_cons.1 hr with rfl | hr' <;> rcases List.mem_cons.1 hs with rfl | hs'
    · rfl
    · exact absurd (ha s hs') (by simp [hkr, hks])
    · exact absurd (ha r hr') (by simp [hkr, hks])
    · exact ih hr' hs'

/-- A condition that only rows of one key meet selects one row. -/
theorem Unique.filter_eq_singleton {key : α → Option κ} {t : List α} (h : Unique key t) {p : α → Bool} {a : α} {k : κ}
    (ha : a ∈ t) (hp : p a = true) (hk : ∀ r ∈ t, p r = true → key r = some k) : t.filter p = [a] := by
  have hmem : ∀ r ∈ t, p r = true → r = a := fun r hr hpr => h.eq hr ha (hk r hr hpr) (hk a ha hp)
  have hpair : (t.filter p).Pairwise fun r s => key r = none ∨ key r ≠ key s := h.sublist List.filter_sublist
  cases hl : t.filter p with
  | nil =>
    have : a ∈ t.filter p := List.mem_filter.2 ⟨ha, hp⟩
    rw [hl] at this
    cases this
  | cons b l =>
    have hsub : ∀ r ∈ b :: l, r = a := by
      intro r hr
      obtain ⟨hr, hpr⟩ := List.mem_filter.1 (hl ▸ hr)
      exact hmem r hr hpr
    obtain rfl := hsub b List.mem_cons_self
    cases l with
    | nil => rfl
    | cons c l =>
      -- a second one would have the same key
      obtain rfl := hsub c (List.mem_cons_of_mem _ List.mem_cons_self)
      rw [hl] at hpair
      rcases (List.pairwise_cons.1 hpair).1 c List.mem_cons_self with hn | hn
      · rw [hk c ha hp] at hn
        cases hn
      · exact absurd rfl hn

/-- It depends on the keys only. -/
theorem Unique.congr {key : α → Option κ} {t t' : List α} (h : Unique key t) (hk : t'.map key = t.map key) :
    Unique key t' := by
  have hpair : (t.map key).Pairwise fun r s => r = none ∨ r ≠ s := List.pairwise_map.2 h
  exact List.pairwise_map.1 (hk ▸ hpair)

theorem Unique.delete {key : α → Option κ} {t : List α} (h : Unique key t) (p : α → Bool) :
    Unique key (delete p t) :=
  List.Pairwise.sublist List.filter_sublist h

/-- An update that leaves the key alone, or takes it away, keeps it unique. -/
theorem Unique.update {key : α → Option κ} {t : List α} (h : Unique key t) {p : α → Bool} {f : α → α}
    (hf : ∀ r, key (f r) = key r ∨ key (f r) = none) : Unique key (update p f t) := by
  have hg : ∀ r, key (if p r then f r else r) = key r ∨ key (if p r then f r else r) = none := by
    intro r
    by_cases hp : p r = true
    · simpa [hp] using hf r
    · simp [hp]
  refine List.pairwise_map.2 (List.Pairwise.imp (fun {r s} hrs => ?_) h)
  rcases hg r with h1 | h1
  · rcases hg s with h2 | h2
    · rwa [h1, h2]
    · rw [h1, h2]
      cases key r <;> simp
  · exact .inl h1

/-- An update that gives one row, found by another key, a key that no other row has. -/
theorem Unique.assign [DecidableEq κ] {β : Type} [DecidableEq β] {key : α → Option κ} {id : α → β} {t : List α}
    (h : Unique key t) (hid : Unique (fun r => some (id r)) t) {i : β} {f : α → α} {k : κ} (hf : ∀ r, key (f r) = some k)
    (hfree : ∀ r ∈ t, key r = some k → id r = i) : Unique key (Table.update (fun r => id r == i) f t) := by
  refine List.pairwise_map.2 (List.Pairwise.imp_of_mem (fun {r s} hr hs hrs => ?_) (h.and hid))
  obtain ⟨hk, hi⟩ := hrs
  have hne : id r ≠ id s := by simpa using hi
  by_cases h1 : id r = i <;> by_cases h2 : id s = i
  · exact absurd (h1.trans h2.symm) hne
  · -- the row `s` has another key, or it would be the row of `i`
    simp only [h1, beq_self_eq_true, if_true, beq_eq_false_iff_ne.2 h2, Bool.false_eq_true, if_false, hf]
    exact .inr fun hks => h2 (hfree s hs hks.symm)
  · simp only [h2, beq_self_eq_true, if_true, beq_eq_false_iff_ne.2 h1, Bool.false_eq_true, if_false, hf]
    exact .inr fun hkr => h1 (hfree r hr hkr)
  · simpa [h1, h2] using hk

/-- The order of the rows does not matter. -/
theorem Unique.perm {key : α → Option κ} {t t' : List α} (h : Unique key t) (hp : t.Perm t') : Unique key t' := by
  refine (hp.pairwise_iff fun {r s} hrs => ?_).1 h
  rcases hrs with hr | hne
  · by_cases hs : key s = none
    · exact .inl hs
    · exact .inr fun heq => hs (heq.trans hr)
  · exact .inr (Ne.symm hne)

theorem Unique.insert {key : α → Option κ} {t : List α} (h : Unique key t) {r : α}
    (hr : ∀ k, key r = some k → ∀ s ∈ t, key s ≠ some k) : Unique key (t ++ [r]) := by
  refine List.pairwise_append.2 ⟨h, List.pairwise_singleton _ _, fun s hs x hx => ?_⟩
  obtain rfl := List.mem_singleton.1 hx
  cases hk : key s with
  | none => exact .inl rfl
  | some k => exact .inr fun hxk => hr k hxk.symm s hs hk

/-- With a unique key, the row found by it is the one row that has it. -/
theorem Unique.find_eq_some_iff [BEq κ] [LawfulBEq κ] {key : α → Option κ} {t : List α} (h : Unique key t) {k : κ} {r : α} :
    t.find? (fun s => key s == some k) = some r ↔ r ∈ t ∧ key r = some k := by
  constructor
  · intro hf
    exact ⟨List.mem_of_find?_eq_some hf, by simpa using List.find?_some hf⟩
  · rintro ⟨hr, hk⟩
    cases hf : t.find? (fun s => key s == some k) with
    | none => exact absurd (by simpa using hk) (List.find?_eq_none.1 hf r hr)
    | some s =>
      have hs : key s = some k := by simpa using List.find?_some hf
      rw [h.eq (List.mem_of_find?_eq_some hf) hr hs hk]

end Table
