/-
`analyzeQuickCapture`: what is cut out of the title is reported, once, and the rest is in the title;
and the inputs for which it is not so.
-/
import Prosepect.Web.CaptureTitle
import Prosepect.Web.CaptureTokens

namespace Prosepect.Web

open Text Script Regex

section Capture

variable (host : Host) (input : List Char) (projects : List QuickCaptureProject) (detected : Option TemporalSuggestion)

def dateRange : Option TextRange := detected.map toRange

def projectRange : Option TextRange := (detectProject host input projects).map (·.2)

/-- The parts of the date and the project. -/
def recognisedRanges : List TextRange := (dateRange detected).toList ++ (projectRange host input projects).toList

def labelRanges : List TextRange := (detectLabels host input (recognisedRanges host input projects detected)).ranges

def priorityRange : Option TextRange := (priorityPattern.exec input).map fun m => ⟨m.start, m.stop⟩

/-- All that is cut out. -/
def consumedRanges : List TextRange :=
  recognisedRanges host input projects detected ++ labelRanges host input projects detected ++ (priorityRange input).toList

/-- The part a token takes. -/
def tokenRange (start : Nat) (w : List Char) : TextRange := ⟨start, start + (w.length + 1)⟩

/-- No part of `left` and `right` overlaps. -/
def Clear (left right : List TextRange) : Prop := ∀ a ∈ left, ∀ b ∈ right, overlaps a b = false

/-- What is typed is neither lost nor split. -/
structure NothingLost : Prop where
  /-- A token outside the date and the project is cut out whole and reported. -/
  tokens : ∀ (start : Nat) (mark : Char) (w : List Char), Token host input start mark w →
    Clear (recognisedRanges host input projects detected) [tokenRange start w] →
      tokenRange start w ∈ labelRanges host input projects detected ∧
        host.toLowerCase w ∈ (parseQuickCapture host input projects detected).labels
  /-- What is cut out as a label is a mark and a label of the result. -/
  labels : ∀ r ∈ labelRanges host input projects detected,
    host.toLowerCase (slice input (r.start + 1) r.stop) ∈ (parseQuickCapture host input projects detected).labels
  project : ∀ r ∈ projectRange host input projects, ∃ project ∈ projects,
    (parseQuickCapture host input projects detected).projectId = some project.id ∧
    (slice input r.start r.stop).map host.canonicalize = ('#' :: project.name).map host.canonicalize
  priority : ∀ r ∈ priorityRange input, ∃ p d priority, slice input r.start r.stop = [p, d] ∧
    PRIORITY_MAP d = some priority ∧ (parseQuickCapture host input projects detected).priority = some priority
  date : ∀ suggestion ∈ detected, suggestion.dueDate ≠ none ∨ suggestion.scheduledStart ≠ none →
    (parseQuickCapture host input projects detected).dueDate ≠ none ∨
      (parseQuickCapture host input projects detected).scheduledStart ≠ none
  /-- No part is cut out by two recognisers. -/
  once : Clear (dateRange detected).toList (projectRange host input projects).toList ∧
    Clear (recognisedRanges host input projects detected) (labelRanges host input projects detected) ∧
    Clear (recognisedRanges host input projects detected) (priorityRange input).toList ∧
    Clear (labelRanges host input projects detected) (priorityRange input).toList
  /-- The title has what is visible of the rest, but for a mark at its end. -/
  title :
    let rest := (outside (covered (consumedRanges host input projects detected)) 0 input).filter isInk
    let title := (parseQuickCapture host input projects detected).title.filter isInk
    title = rest ∨ ∃ c, isTrailing c = true ∧ rest = title ++ [c]

/-- What the input has to be like. -/
structure Separable : Prop where
  /-- Every token outside the date and the project ends in an ASCII letter, a digit or an underscore. -/
  endings : ∀ (start : Nat) (mark : Char) (w : List Char), Token host input start mark w →
    Clear (recognisedRanges host input projects detected) [tokenRange start w] → w.getLast?.any isWord = true
  /-- There are at most ten different labels. -/
  ten : ((labelMatches host input (recognisedRanges host input projects detected)).map (labelOf host)).dedup.length ≤ 10
  /-- The date is not in the name of the project. -/
  apart : Clear (dateRange detected).toList (projectRange host input projects).toList
  /-- No label with an at sign is in the date or in the name of the project. -/
  atSigns : ∀ m ∈ host.labelPattern.matchAll input, m.text.head? = some '@' →
    Clear (recognisedRanges host input projects detected) [⟨m.start, m.stop⟩]
  /-- The priority is not in the date or in the name of the project. -/
  priority : Clear (recognisedRanges host input projects detected) (priorityRange input).toList

end Capture

variable {host : Host} {input : List Char} {projects : List QuickCaptureProject} {detected : Option TemporalSuggestion}

theorem toRange_withoutWorkTime (suggestion : TemporalSuggestion) : toRange (withoutWorkTime suggestion) = toRange suggestion := by
  unfold withoutWorkTime
  split <;> rfl

theorem excludedRanges_eq : excludedRanges (detected.map withoutWorkTime) (detectProject host input projects) =
    recognisedRanges host input projects detected := by
  unfold excludedRanges recognisedRanges dateRange projectRange
  rw [Option.map_map]
  congr 3
  funext suggestion
  exact toRange_withoutWorkTime suggestion

/-- The label of a match is the text of its range behind the mark. -/
theorem slice_append (pre text post : List Char) : slice (pre ++ (text ++ post)) pre.length (pre.length + text.length) = text := by
  unfold slice
  rw [← List.append_assoc, List.take_left' (by simp), List.drop_left]

theorem labels_eq : (parseQuickCapture host input projects detected).labels =
    (detectLabels host input (recognisedRanges host input projects detected)).values := by
  simp only [parseQuickCapture, analyzeQuickCapture, excludedRanges_eq]

theorem labelRanges_eq : labelRanges host input projects detected =
    (labelMatches host input (recognisedRanges host input projects detected)).map fun m => ⟨m.start, m.stop⟩ := by
  rw [labelRanges, detectLabels_eq]

/-- A label match stands outside the date and the project, unless it begins with an at sign. -/
theorem labelMatches_clear {m : Match} (h : m ∈ labelMatches host input (recognisedRanges host input projects detected))
    (hm : m.text.head? = some '#') : Clear (recognisedRanges host input projects detected) [⟨m.start, m.stop⟩] := by
  have hx := (List.mem_filter.1 h).2
  simp only [isExcluded, hm, beq_self_eq_true, Bool.true_and, Bool.not_eq_true', List.any_eq_false] at hx
  intro a ha b hb
  rw [List.mem_singleton.1 hb]
  simpa using hx a ha

/-! ## Words that begin behind white space -/

/-- The range is in the text, begins behind white space and has none in it. -/
structure Stands (input : List Char) (r : TextRange) : Prop where
  within : r.stop ≤ input.length
  before : ∀ i c, i + 1 = r.start → input[i]? = some c → isSpace c = true
  inside : ∀ i c, r.start ≤ i → i < r.stop → input[i]? = some c → isSpace c = false

theorem stands_of (pre text post : List Char) (hpre : pre.getLast?.all isSpace = true) (htext : ∀ c ∈ text, isSpace c = false) :
    Stands (pre ++ (text ++ post)) ⟨pre.length, pre.length + text.length⟩ where
  within := by
    simp only [List.length_append]
    omega
  before i c hi hc := by
    simp only at hi
    rw [List.getElem?_append_left (by omega), show i = pre.length - 1 by omega, ← List.getLast?_eq_getElem?] at hc
    rw [hc] at hpre
    exact hpre
  inside i c h1 h2 hc := by
    simp only at h1 h2
    rw [List.getElem?_append_right h1, List.getElem?_append_left (by omega)] at hc
    exact htext c (List.mem_of_getElem? hc)

/-- Of two such ranges the later begins behind the earlier. -/
theorem Stands.stop_le {a b : TextRange} (ha : Stands input a) (hb : Stands input b) (hlt : a.start < b.start) : a.stop ≤ b.start := by
  by_contra hover
  have hi : b.start - 1 < input.length := by
    have := ha.within
    omega
  have hc : input[b.start - 1]? = some input[b.start - 1] := List.getElem?_eq_getElem hi
  have hspace := hb.before (b.start - 1) _ (by omega) hc
  rw [ha.inside (b.start - 1) _ (by omega) (by omega) hc] at hspace
  cases hspace

theorem Stands.apart {a b : TextRange} (ha : Stands input a) (hb : Stands input b) (hne : a.start ≠ b.start) :
    overlaps a b = false := by
  simp only [overlaps, Bool.and_eq_false_iff, decide_eq_false_iff_not, Nat.not_lt]
  rcases Nat.lt_or_gt_of_ne hne with h | h
  · exact .inr (ha.stop_le hb h)
  · exact .inl (hb.stop_le ha h)

theorem space_of_mark {c : Char} (h : isLabelMark c = true) : isSpace c = false := by
  simp only [isLabelMark, Bool.or_eq_true, beq_iff_eq] at h
  rcases h with rfl | rfl <;> decide

theorem isWord_of_sameLetter {c : Char} (h : sameLetter 'p' c = true) : isWord c = true := by
  have hp : c.toLower = 'p' := (beq_iff_eq.1 h).symm
  delta Char.toLower at hp
  split at hp
  · rename_i hupper
    simp only [isWord, Char.isAlphanum, Bool.or_eq_true]
    exact .inl (.inl (Bool.or_eq_true_iff.2 (.inl (decide_eq_true hupper))))
  · rw [hp]
    decide

theorem isWord_of_digit {c : Char} (h1 : '1' ≤ c) (h4 : c ≤ '4') : isWord c = true := by
  simp only [isWord, Char.isAlphanum, Char.isDigit, Bool.or_eq_true, Bool.and_eq_true, decide_eq_true_eq]
  refine .inl (.inr ⟨?_, ?_⟩)
  · exact UInt32.le_trans (by decide) (show ('1' : Char).val ≤ c.val from h1)
  · exact UInt32.le_trans (show c.val ≤ ('4' : Char).val from h4) (by decide)

/-- A label and the priority do not begin with the same character. -/
theorem labels_clear_priority : Clear (labelRanges host input projects detected) (priorityRange input).toList := by
  intro a ha b hb
  rw [labelRanges_eq] at ha
  obtain ⟨m, hm, rfl⟩ := List.mem_map.1 ha
  obtain ⟨q, hq, rfl⟩ := Option.map_eq_some_iff.1 (Option.mem_toList.1 hb)
  obtain ⟨pre, mark, w, post, hinput, rfl, hpre, hmark, hw⟩ := mem_labelMatches hm
  obtain ⟨pre', p, d, post', hinput', rfl, hpre', hp, h1, h4, hpost'⟩ := mem_priority hq
  have hlabel : Stands input ⟨pre.length, pre.length + (mark :: w).length⟩ := by
    rw [hinput]
    refine stands_of pre (mark :: w) post hpre fun c hc => ?_
    rcases List.mem_cons.1 hc with rfl | hc
    · exact space_of_mark hmark
    · exact space_of_isLabelChar (hw c hc)
  have hpriority : Stands input ⟨pre'.length, pre'.length + [p, d].length⟩ := by
    rw [hinput']
    refine stands_of pre' [p, d] post' hpre' fun c hc => isSpace_of_isWord ?_
    rcases List.mem_cons.1 hc with rfl | hc
    · exact isWord_of_sameLetter hp
    · rw [List.mem_singleton.1 hc]
      exact isWord_of_digit h1 h4
  refine hlabel.apart hpriority fun heq => ?_
  have hhead : mark = p := by
    obtain ⟨-, h⟩ := List.append_inj (hinput.symm.trans hinput') heq
    exact (List.cons.inj h).1
  subst hhead
  simp only [isLabelMark, Bool.or_eq_true, beq_iff_eq] at hmark
  rcases hmark with rfl | rfl <;> exact absurd hp (by decide)

/-! ## The condition is enough and needed -/

theorem labelOf_eq_slice {m : Match} (h : m ∈ labelMatches host input (recognisedRanges host input projects detected)) :
    host.toLowerCase (slice input (m.start + 1) m.stop) = labelOf host m := by
  obtain ⟨pre, mark, w, post, rfl, rfl, -⟩ := mem_labelMatches h
  have hslice := slice_append (pre ++ [mark]) w post
  rw [List.append_assoc, List.singleton_append, List.length_append, List.length_singleton] at hslice
  rw [labelOf, List.tail_cons, Match.stop, List.length_cons, show pre.length + (w.length + 1) = pre.length + 1 + w.length by omega,
    hslice]

/-- A label range that is a token is the match of the token. -/
theorem Token.mem_of_range {start : Nat} {mark : Char} {w : List Char} (h : Token host input start mark w)
    (hr : tokenRange start w ∈ labelRanges host input projects detected) :
    (⟨start, mark :: w⟩ : Match) ∈ labelMatches host input (recognisedRanges host input projects detected) := by
  rw [labelRanges_eq] at hr
  obtain ⟨m, hm, heq⟩ := List.mem_map.1 hr
  obtain ⟨pre, mark', w', post, hinput, rfl, -⟩ := mem_labelMatches hm
  obtain ⟨-, -, -, pre', post', hinput', rfl, -⟩ := h
  simp only [tokenRange, Match.stop, TextRange.mk.injEq, List.length_cons] at heq
  obtain ⟨hpre, htail⟩ := List.append_inj (hinput.symm.trans hinput') heq.1
  subst hpre
  obtain ⟨rfl, hword⟩ := List.cons.inj htail
  have hlen : w'.length = w.length := by omega
  obtain ⟨rfl, -⟩ := List.append_inj hword hlen
  exact hm

theorem Token.mem_labelMatches_iff {start : Nat} {mark : Char} {w : List Char} (h : Token host input start mark w)
    (hc : Clear (recognisedRanges host input projects detected) [tokenRange start w]) :
    (⟨start, mark :: w⟩ : Match) ∈ labelMatches host input (recognisedRanges host input projects detected) ↔
      w.getLast?.any isWord = true := by
  rw [← h.mem_matchAll_iff]
  constructor
  · exact fun hm => (List.mem_filter.1 hm).1
  · intro hm
    refine List.mem_filter.2 ⟨hm, ?_⟩
    have hfree : (recognisedRanges host input projects detected).any (overlaps · ⟨start, start + (mark :: w).length⟩) = false := by
      rw [List.any_eq_false]
      intro a ha
      have hclear : overlaps a ⟨start, start + (mark :: w).length⟩ = false :=
        hc a ha (tokenRange start w) (List.mem_singleton_self _)
      rw [hclear]
      exact Bool.false_ne_true
    simp only [isExcluded, Match.stop, hfree, Bool.and_false, Bool.not_false]

theorem title_eq : (parseQuickCapture host input projects detected).title =
    cleanTitle (removeRanges input (consumedRanges host input projects detected)) := by
  simp only [parseQuickCapture, analyzeQuickCapture, excludedRanges_eq]
  rfl

theorem start_le_stop : ∀ r ∈ consumedRanges host input projects detected, r.start ≤ r.stop := by
  intro r hr
  simp only [consumedRanges, recognisedRanges, List.mem_append, Option.mem_toList] at hr
  rcases hr with ((hr | hr) | hr) | hr
  · obtain ⟨suggestion, -, rfl⟩ := Option.map_eq_some_iff.1 hr
    exact suggestion.ordered
  · obtain ⟨⟨id, range⟩, hp, rfl⟩ := Option.map_eq_some_iff.1 hr
    obtain ⟨-, -, -, -, -, -, -, rfl, -⟩ := mem_detectProject hp
    exact Nat.le_add_right ..
  · rw [labelRanges_eq] at hr
    obtain ⟨m, -, rfl⟩ := List.mem_map.1 hr
    exact Nat.le_add_right ..
  · obtain ⟨m, -, rfl⟩ := Option.map_eq_some_iff.1 hr
    exact Nat.le_add_right ..

/-- Nothing is lost exactly if the tokens can be told apart. -/
theorem nothing_lost_iff (host : Host) (input : List Char) (projects : List QuickCaptureProject)
    (detected : Option TemporalSuggestion) :
    NothingLost host input projects detected ↔ Separable host input projects detected := by
  have hlisted := detectLabels_listed host input (recognisedRanges host input projects detected)
  constructor
  · intro h
    constructor
    · intro start mark w ht hc
      exact (ht.mem_labelMatches_iff hc).1 (ht.mem_of_range (h.tokens start mark w ht hc).1)
    · refine hlisted.subset_iff.1 fun label hl => ?_
      obtain ⟨m, hm, rfl⟩ := List.mem_map.1 hl
      have hmem := h.labels ⟨m.start, m.stop⟩ (by rw [labelRanges_eq]; exact List.mem_map_of_mem hm)
      rwa [labelOf_eq_slice hm, labels_eq] at hmem
    · exact h.once.1
    · intro m hm hat a ha b hb
      refine h.once.2.1 a ha b ?_
      rw [List.mem_singleton.1 hb, labelRanges_eq]
      exact List.mem_map_of_mem (List.mem_filter.2 ⟨hm, by simp [isExcluded, hat]⟩)
    · exact h.once.2.2.1
  · intro h
    have hall := hlisted.subset_iff.2 h.ten
    constructor
    · intro start mark w ht hc
      have hm := (ht.mem_labelMatches_iff hc).2 (h.endings start mark w ht hc)
      refine ⟨?_, ?_⟩
      · rw [labelRanges_eq]
        exact List.mem_map.2 ⟨_, hm, rfl⟩
      · rw [labels_eq]
        exact hall (List.mem_map.2 ⟨_, hm, rfl⟩)
    · intro r hr
      rw [labelRanges_eq] at hr
      obtain ⟨m, hm, rfl⟩ := List.mem_map.1 hr
      rw [labelOf_eq_slice hm, labels_eq]
      exact hall (List.mem_map_of_mem hm)
    · intro r hr
      obtain ⟨⟨id, range⟩, hp, rfl⟩ := Option.map_eq_some_iff.1 hr
      obtain ⟨project, hmem, rfl, pre, text, post, rfl, rfl, hname⟩ := mem_detectProject hp
      refine ⟨project, hmem, ?_, ?_⟩
      · simp only [parseQuickCapture, analyzeQuickCapture, hp, Option.map_some]
      · rw [slice_append]
        exact hname
    · intro r hr
      obtain ⟨m, hm, rfl⟩ := Option.map_eq_some_iff.1 hr
      obtain ⟨pre, p, d, post, rfl, rfl, -, -, h1, h4, -⟩ := mem_priority hm
      obtain ⟨priority, hd⟩ := priority_of_digit h1 h4
      refine ⟨p, d, priority, slice_append pre [p, d] post, hd, ?_⟩
      simp only [parseQuickCapture, analyzeQuickCapture, hm, Option.bind_some]
      exact hd
    · rintro suggestion rfl hs
      simp only [parseQuickCapture, analyzeQuickCapture, Option.map_some, Option.bind_some, withoutWorkTime]
      split
      · rename_i hw
        left
        cases hss : suggestion.scheduledStart with
        | none => simp [truthy, hss] at hw
        | some text => simp
      · exact hs
    · refine ⟨h.apart, ?_, h.priority, labels_clear_priority⟩
      intro a ha b hb
      rw [labelRanges_eq] at hb
      obtain ⟨m, hm, rfl⟩ := List.mem_map.1 hb
      obtain ⟨pre, mark, w, post, -, rfl, -, hmark, -⟩ := mem_labelMatches hm
      simp only [isLabelMark, Bool.or_eq_true, beq_iff_eq] at hmark
      rcases hmark with rfl | rfl
      · exact h.atSigns _ (List.mem_filter.1 hm).1 rfl a ha _ (List.mem_singleton_self _)
      · exact labelMatches_clear hm rfl a ha _ (List.mem_singleton_self _)
    · rw [title_eq, ← ink_removeRanges input start_le_stop]
      exact ink_cleanTitle _

/-! ## A label that is split -/

/-- A host that knows the ASCII letters and one more. -/
def accentHost : Host where
  toLowerCase l := l.map Char.toLower
  isLetter c := c.isAlpha || c == 'é'
  isNumber := Char.isDigit
  canonicalize := Char.toLower
  not_space c h := by
    simp only [Bool.or_eq_true, beq_iff_eq] at h
    rcases h with (h | rfl) | h
    · apply isSpace_of_isWord
      simp [isWord, Char.isAlphanum, h]
    · decide
    · apply isSpace_of_isWord
      simp [isWord, Char.isAlphanum, h]

/-- Of a label that ends in an accented letter the letter stays in the title. -/
theorem accented_label_split : ¬ NothingLost accentHost "#café".toList [] none := by
  intro h
  have htoken : Token accentHost "#café".toList 0 '#' "café".toList :=
    ⟨by decide, List.all_eq_true.1 (by decide), by decide, [], [], by decide, rfl, rfl, rfl⟩
  have hnone : recognisedRanges accentHost "#café".toList [] none = [] := by decide +kernel
  have hcut := (h.tokens 0 '#' "café".toList htoken (fun a ha => by
    rw [hnone] at ha
    cases ha)).1
  exact absurd hcut (by decide +kernel)

end Prosepect.Web
