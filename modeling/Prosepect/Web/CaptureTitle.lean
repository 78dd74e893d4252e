/-
`removeRanges` and `cleanTitle`: the characters outside the ranges are in the title, in their order;
only white space and one mark at the end are lost.
-/
import Prosepect.Web.QuickCapture

namespace Prosepect.Web

open Text Script Regex

/-! ## Ranges -/

def TextRange.covers (r : TextRange) (i : Nat) : Bool := r.start ≤ i && i < r.stop

/-- In a text of `length` characters. -/
def TextRange.Within (r : TextRange) (length : Nat) : Prop := r.start ≤ r.stop ∧ r.stop ≤ length

def covered (ranges : List TextRange) (i : Nat) : Bool := ranges.any (·.covers i)

/-- The characters that are not covered, from a place on. -/
def outside (isCovered : Nat → Bool) (index : Nat) : List Char → List Char
  | [] => []
  | c :: rest => if isCovered index then outside isCovered (index + 1) rest else c :: outside isCovered (index + 1) rest

theorem outside_drop {f : Nat → Bool} : ∀ {n index : Nat} {l : List Char}, (∀ i, index ≤ i → i < index + n → f i = true) →
    outside f index l = outside f (index + n) (l.drop n)
  | 0, _, _, _ => rfl
  | n + 1, index, [], _ => by simp [outside]
  | n + 1, index, c :: l, h => by
    rw [outside, if_pos (h index (Nat.le_refl _) (by omega)), List.drop_succ_cons,
      show index + (n + 1) = index + 1 + n by omega]
    exact outside_drop fun i h1 h2 => h i (by omega) (by omega)

theorem outside_take {f : Nat → Bool} : ∀ {n index : Nat} {l : List Char}, (∀ i, index ≤ i → i < index + n → f i = false) →
    outside f index l = l.take n ++ outside f (index + n) (l.drop n)
  | 0, _, _, _ => rfl
  | n + 1, index, [], _ => by simp [outside]
  | n + 1, index, c :: l, h => by
    rw [outside, if_neg (by simp [h index (Nat.le_refl _) (by omega)]), List.drop_succ_cons, List.take_succ_cons,
      show index + (n + 1) = index + 1 + n by omega, List.cons_append]
    congr 1
    exact outside_take fun i h1 h2 => h i (by omega) (by omega)

theorem outside_congr {f g : Nat → Bool} : ∀ {l : List Char} {index : Nat}, (∀ i, index ≤ i → f i = g i) →
    outside f index l = outside g index l
  | [], _, _ => rfl
  | c :: l, index, h => by
    rw [outside, outside, h index (Nat.le_refl _), outside_congr fun i hi => h i (by omega)]

/-! ## Cutting -/

/-- One range after the other, none before `cursor`. -/
def Apart : (cursor : Nat) → List TextRange → Prop
  | _, [] => True
  | cursor, r :: rest => cursor ≤ r.start ∧ r.start ≤ r.stop ∧ Apart r.stop rest

theorem Apart.not_covered : ∀ {rs : List TextRange} {cursor i : Nat}, Apart cursor rs → i < cursor → covered rs i = false
  | [], _, _, _, _ => rfl
  | r :: rest, cursor, i, ⟨h1, h2, h3⟩, hi => by
    have hr : r.covers i = false := by
      simp only [TextRange.covers, Bool.and_eq_false_iff, decide_eq_false_iff_not]
      exact .inl (by omega)
    have hrest : covered rest i = false := h3.not_covered (by omega)
    simp only [covered, List.any_cons, hr, Bool.false_or]
    exact hrest

/-- What is cut leaves the visible characters that are not covered. -/
theorem ink_cutRanges (input : List Char) : ∀ {rs : List TextRange} {cursor : Nat}, Apart cursor rs →
    (cutRanges input cursor rs).filter isInk = (outside (covered rs) cursor (input.drop cursor)).filter isInk
  | [], cursor, _ => by
    have h : ∀ (l : List Char) (index : Nat), outside (covered []) index l = l := by
      intro l
      induction l with
      | nil => exact fun _ => rfl
      | cons c l ih =>
        intro index
        rw [outside, if_neg (by simp [covered]), ih]
    rw [cutRanges, h]
  | r :: rest, cursor, ⟨h1, h2, h3⟩ => by
    have hbefore : ∀ i, cursor ≤ i → i < cursor + (r.start - cursor) → covered (r :: rest) i = false := by
      intro i _ hi
      have hrest : covered rest i = false := h3.not_covered (by omega)
      simp only [covered, List.any_cons, Bool.or_eq_false_iff]
      refine ⟨?_, hrest⟩
      simp only [TextRange.covers, Bool.and_eq_false_iff, decide_eq_false_iff_not]
      exact .inl (by omega)
    have hin : ∀ i, r.start ≤ i → i < r.start + (r.stop - r.start) → covered (r :: rest) i = true := by
      intro i hi hi'
      simp only [covered, List.any_cons, Bool.or_eq_true]
      refine .inl ?_
      simp only [TextRange.covers, Bool.and_eq_true, decide_eq_true_eq]
      omega
    have hafter : ∀ i, r.stop ≤ i → covered (r :: rest) i = covered rest i := by
      intro i hi
      have hr : r.covers i = false := by
        simp only [TextRange.covers, Bool.and_eq_false_iff, decide_eq_false_iff_not]
        exact .inr (by omega)
      simp only [covered, List.any_cons, hr, Bool.false_or]
    have hslice : slice input cursor r.start = (input.drop cursor).take (r.start - cursor) := by
      rw [slice, List.drop_take]
    rw [cutRanges, outside_take hbefore, show cursor + (r.start - cursor) = r.start by omega, List.drop_drop,
      show cursor + (r.start - cursor) = r.start by omega, outside_drop hin, show r.start + (r.stop - r.start) = r.stop by omega,
      List.drop_drop, show r.start + (r.stop - r.start) = r.stop by omega, outside_congr hafter, List.filter_append,
      List.filter_append, ← ink_cutRanges input h3, hslice]
    rfl

/-! ## Merging -/

theorem mergeRange_covered (acc : List TextRange) (range : TextRange) (i : Nat) (h : ∀ r ∈ acc.head?, r.start ≤ range.start)
    (hacc : ∀ r ∈ acc, r.start ≤ r.stop) :
    covered (mergeRange acc range) i = (covered acc i || range.covers i) := by
  cases acc with
  | nil => simp [mergeRange, covered]
  | cons previous result =>
    have hp : previous.start ≤ range.start := h previous rfl
    have hpp := hacc previous List.mem_cons_self
    simp only [mergeRange]
    split
    · -- the two ranges touch, so their union is a range
      have hunion : TextRange.covers { previous with stop := max previous.stop range.stop } i =
          (previous.covers i || range.covers i) := by
        simp only [TextRange.covers, ← Bool.decide_and, ← Bool.decide_or, decide_eq_decide]
        omega
      simp only [covered, List.any_cons, hunion]
      rw [Bool.or_assoc, Bool.or_assoc, Bool.or_comm (range.covers i)]
    · simp only [covered, List.any_cons]
      rw [Bool.or_comm (range.covers i)]

/-- What the merge of sorted ranges keeps. The ranges so far stand from the last to the first. -/
structure Merged (acc : List TextRange) : Prop where
  valid : ∀ r ∈ acc, r.start ≤ r.stop
  apart : acc.Pairwise fun later earlier => earlier.stop ≤ later.start

theorem Merged.mergeRange {acc : List TextRange} (hm : Merged acc) {range : TextRange} (hr : range.start ≤ range.stop) :
    Merged (mergeRange acc range) := by
  cases acc with
  | nil =>
    refine ⟨fun r h => ?_, List.pairwise_singleton ..⟩
    obtain rfl := List.mem_singleton.1 h
    exact hr
  | cons previous result =>
    obtain ⟨hvalid, hapart⟩ := hm
    obtain ⟨hprevious, hresult⟩ := List.pairwise_cons.1 hapart
    have hpp := hvalid previous List.mem_cons_self
    simp only [Web.mergeRange]
    split
    · constructor
      · rintro r (_ | ⟨_, h⟩)
        · exact Nat.le_trans hpp (Nat.le_max_left ..)
        · exact hvalid r (List.mem_cons_of_mem _ h)
      · exact List.pairwise_cons.2 ⟨hprevious, hresult⟩
    · rename_i hlt
      constructor
      · rintro r (_ | ⟨_, h⟩)
        · exact hr
        · exact hvalid r h
      · refine List.pairwise_cons.2 ⟨?_, hapart⟩
        rintro r (_ | ⟨_, h⟩)
        · omega
        · have := hprevious r h
          omega

theorem head_mergeRange (acc : List TextRange) (range : TextRange) (h : ∀ r ∈ acc.head?, r.start ≤ range.start) :
    ∀ r ∈ (mergeRange acc range).head?, r.start ≤ range.start := by
  cases acc with
  | nil => simp [mergeRange]
  | cons previous result =>
    simp only [mergeRange]
    split
    · rintro r hr
      obtain rfl := Option.some.inj hr
      exact h previous rfl
    · rintro r hr
      obtain rfl := Option.some.inj hr
      exact Nat.le_refl _

theorem foldl_mergeRange : ∀ (l acc : List TextRange), Merged acc → (∀ r ∈ l, r.start ≤ r.stop) →
    l.Pairwise (fun left right => left.start ≤ right.start) → (∀ r ∈ l, ∀ q ∈ acc.head?, q.start ≤ r.start) →
    Merged (l.foldl mergeRange acc) ∧ ∀ i, covered (l.foldl mergeRange acc) i = (covered acc i || covered l i)
  | [], acc, hm, _, _, _ => ⟨hm, fun i => by simp [covered]⟩
  | range :: l, acc, hm, hv, hs, hh => by
    obtain ⟨hrange, hs⟩ := List.pairwise_cons.1 hs
    have hr := hv range List.mem_cons_self
    obtain ⟨hm', hc⟩ := foldl_mergeRange l _ (hm.mergeRange hr) (fun r h => hv r (List.mem_cons_of_mem _ h)) hs
      (fun r h q hq => Nat.le_trans (head_mergeRange acc range (hh range List.mem_cons_self) q hq) (hrange r h))
    refine ⟨hm', fun i => ?_⟩
    rw [List.foldl_cons, hc, mergeRange_covered acc range i (hh range List.mem_cons_self) hm.valid, Bool.or_assoc]
    rfl

theorem apart_of_pairwise : ∀ {rs : List TextRange} {cursor : Nat}, (∀ r ∈ rs, cursor ≤ r.start ∧ r.start ≤ r.stop) →
    rs.Pairwise (fun earlier later => earlier.stop ≤ later.start) → Apart cursor rs
  | [], _, _, _ => trivial
  | r :: rest, cursor, h, hp => by
    obtain ⟨h1, h2⟩ := h r List.mem_cons_self
    obtain ⟨hr, hp⟩ := List.pairwise_cons.1 hp
    exact ⟨h1, h2, apart_of_pairwise (fun q hq => ⟨hr q hq, (h q (List.mem_cons_of_mem _ hq)).2⟩) hp⟩

theorem mergeRanges_spec {ranges : List TextRange} (h : ∀ r ∈ ranges, r.start ≤ r.stop) :
    Apart 0 (mergeRanges ranges) ∧ ∀ i, covered (mergeRanges ranges) i = covered ranges i := by
  have hperm := List.mergeSort_perm ranges fun left right => decide (left.start ≤ right.start)
  have hsorted : (ranges.mergeSort fun left right => decide (left.start ≤ right.start)).Pairwise
      fun left right => left.start ≤ right.start := by
    refine (List.pairwise_mergeSort (fun a b c h1 h2 => ?_) (fun a b => ?_) ranges).imp fun h => of_decide_eq_true h
    · simp only [decide_eq_true_eq] at h1 h2 ⊢
      omega
    · simp only [Bool.or_eq_true, decide_eq_true_eq]
      omega
  obtain ⟨hm, hc⟩ := foldl_mergeRange _ [] ⟨by simp, List.Pairwise.nil⟩
    (fun r hr => h r (hperm.mem_iff.1 hr)) hsorted (by simp)
  constructor
  · refine apart_of_pairwise (fun r hr => ⟨Nat.zero_le _, hm.valid r (List.mem_reverse.1 hr)⟩) ?_
    exact List.pairwise_reverse.2 hm.apart
  · intro i
    unfold mergeRanges
    simp only [covered, List.any_reverse] at hc ⊢
    rw [hc, hperm.any_eq]
    rfl

/-- What is removed leaves the visible characters that are not covered. -/
theorem ink_removeRanges (input : List Char) {ranges : List TextRange} (h : ∀ r ∈ ranges, r.start ≤ r.stop) :
    (removeRanges input ranges).filter isInk = (outside (covered ranges) 0 input).filter isInk := by
  unfold removeRanges
  split
  · rename_i hnil
    subst hnil
    rw [filter_ink_trim, outside_take (fun i _ _ => rfl : ∀ i, 0 ≤ i → i < 0 + input.length → covered [] i = false),
      List.take_length, List.drop_length]
    simp [outside]
  · obtain ⟨hapart, hc⟩ := mergeRanges_spec h
    rw [ink_cutRanges input hapart, List.drop_zero, outside_congr fun i _ => hc i]

/-! ## Cleaning -/

/-- What is taken from the end of a title. -/
def isTrailing (c : Char) : Bool := c == ',' || c == ':' || c == ';' || c == '-'

theorem ink_gaps (value : List Char) : (gapPattern.replaceAll (fun _ => [' ']) value).filter isInk = value.filter isInk := by
  refine filter_replaceAll (fun at_ text h => ?_) value
  obtain ⟨stop, hs, hr⟩ := here_reads h
  obtain ⟨gap, hgap, -, -, hr'⟩ := reads_rep hs
  have hblank : [' '].filter isInk = [] := rfl
  rw [hr.unique hr', filter_ink_of_space hgap, hblank]

theorem ink_spacedPunctuation (value : List Char) :
    (spacedPunctuation.replaceAll (fun m => m.dropWhile isSpace) value).filter isInk = value.filter isInk :=
  filter_replaceAll (fun _ text _ => filter_ink_dropWhile text) value

theorem ink_trailing (value : List Char) :
    (trailingPunctuation.replaceFirst (fun _ => []) value).filter isInk = value.filter isInk ∨
      ∃ c, isTrailing c = true ∧
        value.filter isInk = (trailingPunctuation.replaceFirst (fun _ => []) value).filter isInk ++ [c] := by
  unfold Pattern.replaceFirst
  split
  · exact .inl rfl
  · rename_i m hm
    obtain ⟨pre, rest, rfl, hstart, hh⟩ := mem_exec hm
    obtain ⟨stop, hs, hr⟩ := here_reads hh
    -- a mark, white space and the end
    obtain ⟨mid, hone, hs⟩ := mem_seq.1 hs
    obtain ⟨c, hc, hc'⟩ := reads_one hone
    obtain ⟨mid', hgap, hs⟩ := mem_seq.1 hs
    obtain ⟨gap, hspace, -, -, hg⟩ := reads_rep hgap
    obtain ⟨rfl, hend⟩ := mem_look.1 hs
    have htext : m.text = [c] ++ gap := hr.unique (hc'.trans hg)
    have hrest : rest = m.text := by
      have hnil : stop.rest = [] := by simpa [atEnd] using hend
      have := hr.1
      rw [hnil, List.append_nil] at this
      exact this
    refine .inr ⟨c, hc, ?_⟩
    have hink : isInk c = true := by
      simp only [Bool.or_eq_true, beq_iff_eq] at hc
      rcases hc with ((rfl | rfl) | rfl) | rfl <;> decide
    have hstop : m.stop = (pre ++ rest).length := by
      rw [Match.stop, hstart, hrest, List.length_append]
    rw [hstop, List.drop_length, hstart, List.take_left, List.filter_append, hrest, htext, List.filter_append,
      filter_ink_of_space hspace]
    simp [hink]

/-- A clean title has the visible characters of the text, but for a mark at the end. -/
theorem ink_cleanTitle (value : List Char) :
    (cleanTitle value).filter isInk = value.filter isInk ∨
      ∃ c, isTrailing c = true ∧ value.filter isInk = (cleanTitle value).filter isInk ++ [c] := by
  unfold cleanTitle
  simp only [filter_ink_trim]
  have h := ink_trailing (spacedPunctuation.replaceAll (fun m => m.dropWhile isSpace)
    (gapPattern.replaceAll (fun _ => [' ']) value))
  rwa [ink_spacedPunctuation, ink_gaps] at h

end Prosepect.Web
