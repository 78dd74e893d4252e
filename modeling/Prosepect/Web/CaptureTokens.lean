/-
What the recognisers of quick capture find: label tokens, the priority token and the project token,
each with white space or nothing in front of it.
-/
import Prosepect.Web.QuickCapture
import Mathlib.Data.List.Dedup

namespace Prosepect.Web

open Text Script Regex

variable {host : Host} {input : List Char}

/-! ## Labels -/

theorem space_of_isLabelChar {c : Char} (h : host.isLabelChar c = true) : isSpace c = false := by
  simp only [Host.isLabelChar, Bool.or_eq_true, beq_iff_eq] at h
  rcases h with ((h | h) | rfl) | rfl
  · exact host.not_space c (.inl h)
  · exact host.not_space c (.inr h)
  · decide
  · decide

/-- What the pattern matches: a mark, then letters up to a boundary. -/
theorem label_here {before : Option Char} {rest text : List Char} (h : host.labelPattern.here ⟨before, rest⟩ = some text) :
    before.all isSpace = true ∧ ∃ mark w post, text = mark :: w ∧ rest = mark :: (w ++ post) ∧ isLabelMark mark = true ∧
      (∀ c ∈ w, host.isLabelChar c = true) ∧ 1 ≤ w.length ∧ w.length ≤ 32 ∧ wordBoundary w.getLast? post.head? = true := by
  obtain ⟨stop, hs, hr⟩ := here_reads h
  obtain ⟨mid, hstart, hs⟩ := mem_seq.1 hs
  obtain ⟨rfl, hbefore⟩ := mem_look.1 hstart
  obtain ⟨mid, hone, hs⟩ := mem_seq.1 hs
  obtain ⟨mark, hmark, hm⟩ := reads_one hone
  obtain ⟨mid', hrep, hs⟩ := mem_seq.1 hs
  obtain ⟨w, hw, h1, h32, hwr⟩ := reads_rep hrep
  obtain ⟨rfl, hb⟩ := mem_look.1 hs
  have htext : text = mark :: w := hr.unique (hm.trans hwr)
  refine ⟨hbefore, mark, w, stop.rest, htext, ?_, hmark, hw, h1, h32 32 rfl, ?_⟩
  · rw [← List.cons_append, ← htext]
    exact hr.1
  · have hlast : stop.before = w.getLast? := by
      rw [hwr.2]
      cases hl : w.getLast? with
      | none =>
        rw [List.getLast?_eq_none_iff] at hl
        subst hl
        simp at h1
      | some c => rfl
    rw [← hlast]
    exact hb

/-- A token that ends in an ASCII letter, a digit or an underscore is matched whole. -/
theorem label_here_of {before : Option Char} {mark : Char} {w post : List Char} (hbefore : before.all isSpace = true)
    (hmark : isLabelMark mark = true) (hw : ∀ c ∈ w, host.isLabelChar c = true) (h1 : 1 ≤ w.length) (h32 : w.length ≤ 32)
    (hpost : post.head?.all isSpace = true) (hlast : w.getLast?.any isWord = true) :
    host.labelPattern.here ⟨before, mark :: (w ++ post)⟩ = some (mark :: w) := by
  have hout : ∀ c ∈ post.head?, host.isLabelChar c = false := by
    intro c hc
    rw [Option.mem_def.1 hc] at hpost
    cases hl : host.isLabelChar c with
    | false => rfl
    | true =>
      have := space_of_isLabelChar hl
      simp [this] at hpost
  have hboundary : wordBoundary (w.getLast?.or (some mark)) post.head? = true := by
    have hword := not_word_of_space hpost
    cases hl : w.getLast? with
    | none => simp [hl] at hlast
    | some c =>
      rw [hl] at hlast
      simp only [Option.any_some] at hlast
      simp [wordBoundary, hlast, hword]
  obtain ⟨others, ho⟩ := repeated_one_first 1 32 (some mark) post hw hout h1 h32
  refine here_of_first ⟨w.getLast?.or (some mark), post⟩ (others.flatMap (Pattern.look wordBoundary).ways) ?_ ⟨rfl, ?_⟩
  · simp only [Host.labelPattern, Pattern.all, Pattern.ways, startsToken, hbefore, if_true, List.flatMap_cons, List.flatMap_nil,
      List.append_nil, hmark, Option.getD_some, ho, hboundary]
    rfl
  · exact (lastOr_cons mark w before).symm

/-- A mark and a word between white space. -/
structure Token (host : Host) (input : List Char) (start : Nat) (mark : Char) (w : List Char) : Prop where
  isMark : isLabelMark mark = true
  letters : ∀ c ∈ w, host.isLabelChar c = true
  length : 1 ≤ w.length ∧ w.length ≤ 32
  stands : ∃ pre post, input = pre ++ mark :: (w ++ post) ∧ pre.length = start ∧ pre.getLast?.all isSpace = true ∧
    post.head?.all isSpace = true

/-- A token is matched whole exactly if it ends in an ASCII letter, a digit or an underscore. -/
theorem Token.mem_matchAll_iff {start : Nat} {mark : Char} {w : List Char} (h : Token host input start mark w) :
    (⟨start, mark :: w⟩ : Match) ∈ host.labelPattern.matchAll input ↔ w.getLast?.any isWord = true := by
  obtain ⟨hmark, hletters, ⟨h1, h32⟩, pre, post, rfl, rfl, hpre, hpost⟩ := h
  constructor
  · intro hm
    obtain ⟨pre', rest, hinput, hlen, hh⟩ := mem_matchAll hm
    obtain ⟨hpre', rfl⟩ := List.append_inj hinput hlen
    subst hpre'
    obtain ⟨-, mark', w', post', htext, hrest, -, -, -, -, hb⟩ := label_here hh
    obtain ⟨rfl, rfl⟩ := List.cons.inj htext
    obtain rfl := List.append_cancel_left (List.cons.inj hrest).2
    have hword := not_word_of_space hpost
    simpa [wordBoundary, hword] using hb
  · intro hlast
    have hh := label_here_of hpre hmark hletters h1 h32 hpost hlast
    have hfound := from_of_here pre none 0 0
      (by rwa [Option.or_none]) (List.cons_ne_nil _ _) (Nat.zero_le _) ?_
    · rwa [Nat.zero_add] at hfound
    · -- an earlier match has no white space in it and ends before the one in front of the token
      rintro x y t rfl hy ht
      obtain ⟨-, m, v, rest, rfl, hrest, hm, hv, -⟩ := label_here ht
      by_contra hlong
      obtain ⟨c, hc⟩ : ∃ c, y.getLast? = some c := by
        cases hl : y.getLast? with
        | none => exact absurd (List.getLast?_eq_none_iff.1 hl) hy
        | some c => exact ⟨c, rfl⟩
      have hspace : isSpace c = true := by
        rw [List.getLast?_append, hc] at hpre
        simpa using hpre
      have hprefix : y <+: m :: v := by
        have hlong' : m :: v <+: y ++ mark :: (w ++ post) := by
          rw [hrest, ← List.cons_append]
          exact List.prefix_append ..
        exact List.prefix_of_prefix_length_le (List.prefix_append ..) hlong' (by omega)
      have hmem : c ∈ m :: v := hprefix.subset (List.mem_of_getLast? hc)
      rcases List.mem_cons.1 hmem with rfl | hmem
      · simp only [isLabelMark, Bool.or_eq_true, beq_iff_eq] at hm
        rcases hm with rfl | rfl <;> exact absurd hspace (by decide)
      · rw [space_of_isLabelChar (hv c hmem)] at hspace
        cases hspace

/-! ### The labels of a text -/

/-- A project or date token is no label. -/
def isExcluded (excluded : List TextRange) (m : Match) : Bool :=
  m.text.head? == some '#' && excluded.any (overlaps · ⟨m.start, m.stop⟩)

/-- The matches that are taken for labels. -/
def labelMatches (host : Host) (input : List Char) (excluded : List TextRange) : List Match :=
  (host.labelPattern.matchAll input).filter fun m => !isExcluded excluded m

def labelOf (host : Host) (m : Match) : List Char := host.toLowerCase m.text.tail

def addLabel (values : List (List Char)) (label : List Char) : List (List Char) :=
  if values.contains label = false ∧ values.length < 10 then values ++ [label] else values

theorem foldl_detectLabel (host : Host) (excluded : List TextRange) : ∀ (l : List Match) (found : DetectedLabels),
    l.foldl (detectLabel host excluded) found =
      { values := ((l.filter fun m => !isExcluded excluded m).map (labelOf host)).foldl addLabel found.values
        ranges := found.ranges ++ (l.filter fun m => !isExcluded excluded m).map fun m => ⟨m.start, m.stop⟩ }
  | [], found => by simp
  | m :: l, found => by
    rw [List.foldl_cons, foldl_detectLabel host excluded l]
    by_cases h : m.text.head? = some '#' ∧ excluded.any (overlaps · ⟨m.start, m.stop⟩) = true
    · have hx : isExcluded excluded m = true := by simpa [isExcluded] using h
      rw [detectLabel, if_pos h, List.filter_cons_of_neg (by simp [hx])]
    · have hx : isExcluded excluded m = false := by
        unfold isExcluded
        simpa using h
      rw [detectLabel, if_neg h, List.filter_cons_of_pos (by simp [hx])]
      simp [addLabel, labelOf, List.append_assoc]

theorem detectLabels_eq (host : Host) (input : List Char) (excluded : List TextRange) :
    detectLabels host input excluded =
      { values := ((labelMatches host input excluded).map (labelOf host)).foldl addLabel []
        ranges := (labelMatches host input excluded).map fun m => ⟨m.start, m.stop⟩ } := by
  rw [detectLabels, foldl_detectLabel]
  simp [labelMatches]

/-- What the labels so far are of those seen. -/
structure Listed (seen values : List (List Char)) : Prop where
  nodup : values.Nodup
  subset : values ⊆ seen
  cap : values.length ≤ 10
  all : values.length < 10 → seen ⊆ values

theorem Listed.addLabel {seen values : List (List Char)} (h : Listed seen values) (label : List Char) :
    Listed (seen ++ [label]) (addLabel values label) := by
  obtain ⟨hnodup, hsubset, hcap, hall⟩ := h
  simp only [Web.addLabel, List.contains_eq_mem, decide_eq_false_iff_not]
  split
  · rename_i hnew
    constructor
    · exact List.nodup_append.2 ⟨hnodup, List.nodup_singleton _, fun a ha b hb => by
        rw [List.mem_singleton.1 hb]
        rintro rfl
        exact hnew.1 ha⟩
    · exact fun x hx => (List.mem_append.1 hx).elim (fun hx => List.mem_append_left _ (hsubset hx)) fun hx => List.mem_append_right _ hx
    · simp only [List.length_append, List.length_singleton]
      omega
    · intro _ x hx
      rcases List.mem_append.1 hx with hx | hx
      · exact List.mem_append_left _ (hall hnew.2 hx)
      · exact List.mem_append_right _ hx
  · rename_i hold
    refine ⟨hnodup, fun x hx => List.mem_append_left _ (hsubset hx), hcap, fun hlt x hx => ?_⟩
    rcases List.mem_append.1 hx with hx | hx
    · exact hall hlt hx
    · rw [List.mem_singleton.1 hx]
      by_contra hnot
      exact hold ⟨hnot, hlt⟩

theorem listed_foldl : ∀ (labels seen values : List (List Char)), Listed seen values →
    Listed (seen ++ labels) (labels.foldl addLabel values)
  | [], seen, values, h => by simpa using h
  | label :: labels, seen, values, h => by
    have := listed_foldl labels _ _ (h.addLabel label)
    rwa [List.append_assoc] at this

/-- All labels are listed exactly if there are at most ten different ones. -/
theorem Listed.subset_iff {seen values : List (List Char)} (h : Listed seen values) :
    seen ⊆ values ↔ seen.dedup.length ≤ 10 := by
  constructor
  · intro hs
    have hsub : seen.dedup ⊆ values := fun x hx => hs (List.mem_dedup.1 hx)
    exact Nat.le_trans (List.subperm_of_subset (List.nodup_dedup seen) hsub).length_le h.cap
  · intro hle x hx
    rcases Nat.lt_or_ge values.length 10 with hlt | hge
    · exact h.all hlt hx
    · have hsub : values ⊆ seen.dedup := fun y hy => List.mem_dedup.2 (h.subset hy)
      have hperm := (List.subperm_of_subset h.nodup hsub).perm_of_length_le (by omega)
      exact hperm.mem_iff.2 (List.mem_dedup.2 hx)

theorem detectLabels_listed (host : Host) (input : List Char) (excluded : List TextRange) :
    Listed ((labelMatches host input excluded).map (labelOf host)) (detectLabels host input excluded).values := by
  rw [detectLabels_eq]
  simpa using listed_foldl ((labelMatches host input excluded).map (labelOf host)) [] []
    ⟨List.nodup_nil, List.nil_subset _, Nat.zero_le _, fun _ => List.nil_subset _⟩

/-- Where a label match stands. -/
theorem mem_labelMatches {excluded : List TextRange} {m : Match} (h : m ∈ labelMatches host input excluded) :
    ∃ pre mark w post, input = pre ++ mark :: (w ++ post) ∧ m = ⟨pre.length, mark :: w⟩ ∧ pre.getLast?.all isSpace = true ∧
      isLabelMark mark = true ∧ ∀ c ∈ w, host.isLabelChar c = true := by
  obtain ⟨pre, rest, rfl, hstart, hh⟩ := mem_matchAll (List.mem_filter.1 h).1
  obtain ⟨hpre, mark, w, post, htext, rfl, hmark, hw, -⟩ := label_here hh
  refine ⟨pre, mark, w, post, rfl, ?_, hpre, hmark, hw⟩
  cases m
  simp_all

/-! ## The priority -/

/-- The priority token: a letter p and a digit between white space. -/
theorem mem_priority {m : Match} (h : priorityPattern.exec input = some m) :
    ∃ pre p d post, input = pre ++ p :: d :: post ∧ m = ⟨pre.length, [p, d]⟩ ∧ pre.getLast?.all isSpace = true ∧
      sameLetter 'p' p = true ∧ '1' ≤ d ∧ d ≤ '4' ∧ post.head?.all isSpace = true := by
  obtain ⟨pre, rest, rfl, hstart, hh⟩ := mem_exec h
  obtain ⟨stop, hs, hr⟩ := here_reads hh
  obtain ⟨mid, hlook, hs⟩ := mem_seq.1 hs
  obtain ⟨rfl, hpre⟩ := mem_look.1 hlook
  obtain ⟨mid, hone, hs⟩ := mem_seq.1 hs
  obtain ⟨p, hp, hp'⟩ := reads_one hone
  obtain ⟨mid', hone', hs⟩ := mem_seq.1 hs
  obtain ⟨d, hd, hd'⟩ := reads_one hone'
  obtain ⟨rfl, hpost⟩ := mem_look.1 hs
  have htext : m.text = [p, d] := hr.unique (hp'.trans hd')
  simp only [Bool.and_eq_true, decide_eq_true_eq] at hd
  refine ⟨pre, p, d, stop.rest, ?_, ?_, hpre, hp, hd.1, hd.2, hpost⟩
  · have hrest : rest = m.text ++ stop.rest := hr.1
    rw [hrest, htext]
    rfl
  · cases m
    simp_all

/-- Each of the four digits has its priority. -/
theorem priority_of_digit {d : Char} (h1 : '1' ≤ d) (h4 : d ≤ '4') : ∃ priority, PRIORITY_MAP d = some priority := by
  have hn : 49 ≤ d.toNat ∧ d.toNat ≤ 52 := by
    have := UInt32.le_iff_toNat_le.1 (show ('1' : Char).val ≤ d.val from h1)
    have := UInt32.le_iff_toNat_le.1 (show d.val ≤ ('4' : Char).val from h4)
    simp at *
    exact ⟨by assumption, by assumption⟩
  have hd : d = Char.ofNat d.toNat := (Char.ofNat_toNat d).symm
  obtain ⟨n, hn'⟩ : ∃ n, n = d.toNat := ⟨_, rfl⟩
  rw [← hn'] at hn hd
  rw [hd]
  obtain ⟨hl, hu⟩ := hn
  interval_cases n
  · exact ⟨_, rfl⟩
  · exact ⟨_, rfl⟩
  · exact ⟨_, rfl⟩
  · exact ⟨_, rfl⟩

/-! ## The project -/

theorem reads_text {same : Char → Char → Bool} : ∀ {l : List Char} {at_ stop : Place},
    stop ∈ (Pattern.text same l).ways at_ → ∃ text, Reads at_ stop text ∧ List.Forall₂ (fun c d => same c d = true) l text
  | [], at_, stop, h => by
    obtain ⟨rfl, -⟩ := mem_look.1 h
    exact ⟨[], .refl _, .nil⟩
  | [c], at_, stop, h => by
    obtain ⟨d, hd, hr⟩ := reads_one h
    exact ⟨[d], hr, .cons hd .nil⟩
  | c :: c' :: l, at_, stop, h => by
    obtain ⟨mid, hone, hs⟩ := mem_seq.1 h
    obtain ⟨d, hd, hr⟩ := reads_one hone
    obtain ⟨text, ht, hf⟩ := reads_text (l := c' :: l) hs
    exact ⟨d :: text, hr.trans ht, .cons hd hf⟩

theorem folded_eq {fold : Char → Char} {l text : List Char} (h : List.Forall₂ (fun c d => (fold c == fold d) = true) l text) :
    text.map fold = l.map fold := by
  induction h with
  | nil => rfl
  | cons hc _ ih => rw [List.map_cons, List.map_cons, ih, beq_iff_eq.1 hc]

/-- The project token: the name of the project behind a number sign, up to case. -/
theorem mem_detectProject {projects : List QuickCaptureProject} {id : List Char} {range : TextRange}
    (h : detectProject host input projects = some (id, range)) :
    ∃ project ∈ projects, project.id = id ∧ ∃ pre text post, input = pre ++ (text ++ post) ∧
      range = ⟨pre.length, pre.length + text.length⟩ ∧
      text.map host.canonicalize = ('#' :: project.name).map host.canonicalize := by
  unfold detectProject at h
  have hmem := List.mem_mergeSort.1 (List.mem_of_mem_head? h)
  obtain ⟨project, hp, hm⟩ := List.mem_filterMap.1 hmem
  obtain ⟨m, hexec, hm⟩ := Option.map_eq_some_iff.1 hm
  obtain ⟨rfl, rfl⟩ := Prod.mk.inj hm
  obtain ⟨pre, rest, rfl, hstart, hh⟩ := mem_exec hexec
  obtain ⟨stop, hs, hr⟩ := here_reads hh
  obtain ⟨mid, hlook, hs⟩ := mem_seq.1 hs
  obtain ⟨rfl, -⟩ := mem_look.1 hlook
  obtain ⟨mid, hone, hs⟩ := mem_seq.1 hs
  obtain ⟨mark, hmark, hm⟩ := reads_one hone
  obtain ⟨mid', hname, hs⟩ := mem_seq.1 hs
  obtain ⟨name, hn, hf⟩ := reads_text hname
  obtain ⟨rfl, -⟩ := mem_look.1 hs
  have htext : m.text = mark :: name := hr.unique (hm.trans hn)
  refine ⟨project, hp, rfl, pre, m.text, stop.rest, ?_, ?_, ?_⟩
  · rw [← hr.1]
  · rw [Match.stop, hstart]
  · rw [htext, List.map_cons, List.map_cons, beq_iff_eq.1 hmark]
    congr 1
    exact folded_eq hf

end Prosepect.Web
