/-
A window that slides over a history of times: those after a cutoff count. A queue of times from
which the front is dropped as it expires holds what counts of the history, from its cutoff on.
-/
import Mathlib.Tactic

namespace SlidingWindow

variable {τ : Type} [LinearOrder τ] {c d t : τ} {q all l : List τ}

/-- The times that count after a cutoff. -/
def since (c : τ) (l : List τ) : List τ := l.filter fun t => decide (c < t)

/-- The front of a queue goes while it is not after the cutoff. -/
def expire (c : τ) (q : List τ) : List τ := q.dropWhile fun t => decide (t ≤ c)

@[simp] theorem mem_since : t ∈ since c l ↔ t ∈ l ∧ c < t := by
  simp [since]

@[simp] theorem since_append (c : τ) (l m : List τ) : since c (l ++ m) = since c l ++ since c m :=
  List.filter_append l m

/-- What counts later has counted before. -/
theorem since_since (h : c ≤ d) : since d (since c l) = since d l := by
  unfold since
  rw [List.filter_filter]
  refine List.filter_congr fun t _ => ?_
  by_cases hd : d < t
  · simp [hd, lt_of_le_of_lt h hd]
  · simp [hd]

/-- In a queue in order what expires is all in front. -/
theorem expire_eq_since (h : q.Pairwise (· ≤ ·)) : expire c q = since c q := by
  induction q with
  | nil => rfl
  | cons t q ih =>
    rw [List.pairwise_cons] at h
    obtain ⟨hle, hq⟩ := h
    unfold expire since
    by_cases ht : t ≤ c
    · rw [List.dropWhile_cons_of_pos (by simpa using ht), List.filter_cons_of_neg (by simpa using ht)]
      exact ih hq
    · rw [List.dropWhile_cons_of_neg (by simpa using ht)]
      refine (List.filter_eq_self.2 fun s hs => ?_).symm
      rw [not_le] at ht
      rcases List.mem_cons.1 hs with rfl | hs
      · simpa using ht
      · simpa using lt_of_lt_of_le ht (hle s hs)

/-- A queue holds what counts of a history from the cutoff on. -/
structure Holds (c : τ) (q all : List τ) : Prop where
  sub : q.Sublist all
  same : since c q = since c all

namespace Holds

theorem nil (c : τ) : Holds c [] [] := ⟨.slnil, rfl⟩

theorem mono (h : Holds c q all) (hcd : c ≤ d) : Holds d q all :=
  ⟨h.sub, by rw [← since_since hcd, h.same, since_since hcd]⟩

theorem expire_eq (h : Holds c q all) (hs : all.Pairwise (· ≤ ·)) : expire c q = since c all := by
  rw [expire_eq_since (hs.sublist h.sub), h.same]

theorem expire (h : Holds c q all) (hs : all.Pairwise (· ≤ ·)) : Holds c (expire c q) all := by
  refine ⟨(List.dropWhile_sublist _).trans h.sub, ?_⟩
  rw [h.expire_eq hs, since_since le_rfl]

theorem push (h : Holds c q all) (t : τ) : Holds c (q ++ [t]) (all ++ [t]) :=
  ⟨h.sub.append_right [t], by rw [since_append, since_append, h.same]⟩

/-- A queue whose last time does not count can be forgotten. -/
theorem forget (h : Holds c q all) (hs : all.Pairwise (· ≤ ·)) (hlast : ∀ t, q.getLast? = some t → t ≤ c) : Holds c [] all := by
  refine ⟨all.nil_sublist, ?_⟩
  rw [← h.same]
  refine (List.filter_eq_nil_iff.2 fun t ht => ?_).symm
  obtain ⟨r, last, rfl⟩ := List.eq_nil_or_concat q |>.resolve_left (List.ne_nil_of_mem ht)
  have hsort := hs.sublist h.sub
  rw [List.concat_eq_append] at hsort ht hlast
  have hle : t ≤ last := by
    rcases List.mem_append.1 ht with hr | hr
    · exact (List.pairwise_append.1 hsort).2.2 t hr last (by simp)
    · rw [List.mem_singleton.1 hr]
  have hc : t ≤ c := le_trans hle (hlast last (by simp))
  simpa using hc

end Holds

end SlidingWindow
