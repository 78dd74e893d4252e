/-
Versioned objects: every write of an object makes a new version under a revision that is never
used twice, and all versions are kept.

- `History`: the versions, newest first, with the bound on their revisions as a field;
- `commit`, `current`, `since`: a write, the last version of an object, and the objects whose last
  version is not older than a revision.
-/
import Mathlib.Data.List.Pairwise
import Mathlib.Tactic.Common

namespace Versions

structure Version (κ τ : Type) where
  key : κ
  revision : Nat
  content : τ
deriving DecidableEq, Repr

/-- All versions, newest first, and the revision of the next. -/
structure History (κ τ : Type) where
  log : List (Version κ τ)
  next : Nat
  bounded : ∀ v ∈ log, v.revision < next
  sorted : log.Pairwise fun a b => b.revision < a.revision

namespace History

variable {κ τ : Type} {h : History κ τ} {v w : Version κ τ} {k k' : κ} {c : τ} {n : Nat}

/-- No version yet. -/
def empty : History κ τ := ⟨[], 0, by simp, .nil⟩

/-- A new version of the object `k`. -/
def commit (h : History κ τ) (k : κ) (c : τ) : History κ τ where
  log := ⟨k, h.next, c⟩ :: h.log
  next := h.next + 1
  bounded := by
    rintro v hv
    rcases List.mem_cons.1 hv with rfl | hv
    · exact Nat.lt_succ_self _
    · exact Nat.lt_succ_of_lt (h.bounded v hv)
  sorted := List.pairwise_cons.2 ⟨h.bounded, h.sorted⟩

/-- Two versions of one revision are the same. -/
theorem eq_of_revision (hv : v ∈ h.log) (hw : w ∈ h.log) (hr : v.revision = w.revision) : v = w := by
  by_contra hne
  have hp : h.log.Pairwise fun a b => a.revision ≠ b.revision := h.sorted.imp fun hlt => Nat.ne_of_gt hlt
  have : Std.Symm fun a b : Version κ τ => a.revision ≠ b.revision := ⟨fun _ _ => Ne.symm⟩
  exact hp.forall hv hw hne hr

theorem mem_commit : v ∈ (h.commit k c).log ↔ v = ⟨k, h.next, c⟩ ∨ v ∈ h.log := List.mem_cons

variable [DecidableEq κ]

/-- The last version of an object. -/
def current (h : History κ τ) (k : κ) : Option (Version κ τ) := h.log.find? (·.key == k)

/-- The last versions from revision `n` on, one for each object, newest first. -/
def since (h : History κ τ) (n : Nat) : List (Version κ τ) :=
  h.log.filter fun v => decide (n ≤ v.revision) && (h.current v.key).map (·.revision) == some v.revision

theorem current_mem (hc : h.current k = some v) : v ∈ h.log := List.mem_of_find?_eq_some hc

theorem current_key (hc : h.current k = some v) : v.key = k := by
  simpa using List.find?_some hc

@[simp] theorem current_commit : (h.commit k c).current k = some ⟨k, h.next, c⟩ := by
  simp [current, commit]

@[simp] theorem current_commit_ne (hk : k' ≠ k) : (h.commit k c).current k' = h.current k' := by
  unfold current commit
  exact List.find?_cons_of_neg (by simpa using hk.symm)

theorem mem_since : v ∈ h.since n ↔ h.current v.key = some v ∧ n ≤ v.revision := by
  unfold since
  rw [List.mem_filter, Bool.and_eq_true, decide_eq_true_eq, beq_iff_eq]
  constructor
  · rintro ⟨hv, hn, hr⟩
    obtain ⟨w, hw, hwr⟩ := Option.map_eq_some_iff.1 hr
    exact ⟨by rw [hw, eq_of_revision (current_mem hw) hv hwr], hn⟩
  · rintro ⟨hc, hn⟩
    exact ⟨current_mem hc, hn, by rw [hc]; rfl⟩

/-- Each object once. -/
theorem since_pairwise (h : History κ τ) (n : Nat) : (h.since n).Pairwise fun a b => a.key ≠ b.key := by
  refine (h.sorted.filter _).imp_of_mem ?_
  intro a b ha hb hlt hkey
  obtain ⟨ha, -⟩ := mem_since.1 ha
  obtain ⟨hb, -⟩ := mem_since.1 hb
  rw [hkey, hb] at ha
  obtain rfl := Option.some.inj ha
  exact absurd hlt (Nat.lt_irrefl _)

/-- The last version of an object among those of all the objects: the others are of other objects. -/
theorem since_split (hc : h.current k = some v) (hn : n ≤ v.revision) :
    ∃ l l', h.since n = l ++ v :: l' ∧ ∀ w ∈ l ++ l', w.key ≠ k := by
  have hk := current_key hc
  obtain ⟨l, l', hl⟩ := List.append_of_mem (mem_since.2 ⟨by rw [hk]; exact hc, hn⟩)
  refine ⟨l, l', hl, ?_⟩
  have hp := h.since_pairwise n
  rw [hl, List.pairwise_append] at hp
  obtain ⟨-, hp', hcross⟩ := hp
  intro w hw
  rcases List.mem_append.1 hw with hw | hw
  · exact hk ▸ hcross w hw v List.mem_cons_self
  · exact hk ▸ ((List.pairwise_cons.1 hp').1 w hw).symm

end History

end Versions
