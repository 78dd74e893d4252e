/-
Patterns over texts, matched by backtracking: characters of a class, assertions about the two
characters around a place, sequence, choice and greedy repetition. Of the ways to match at a place
the first is the match.
-/
import Mathlib.Data.List.Basic
import Mathlib.Tactic

namespace Regex

/-! ## Patterns -/

inductive Pattern
  /-- A character of a class. -/
  | one (p : Char → Bool)
  /-- Nothing, where the character before the place and the one after it are as required. -/
  | look (p : Option Char → Option Char → Bool)
  | seq (a b : Pattern)
  | alt (a b : Pattern)
  /-- At least `min` times and at most `max` times, as often as possible first. -/
  | rep (min : Nat) (max : Option Nat) (a : Pattern)

/-- A place in a text: the character before it and the text from there on. -/
structure Place where
  before : Option Char
  rest : List Char

def repeated (step : Place → List Place) (min : Nat) : (left : Nat) → Place → List Place
  | 0, at_ => if min = 0 then [at_] else []
  | left + 1, at_ => (step at_).flatMap (repeated step (min - 1) left) ++ if min = 0 then [at_] else []

/-- The places where a match that starts here ends, in the order they are tried. -/
def Pattern.ways : Pattern → Place → List Place
  | one _, ⟨_, []⟩ => []
  | one p, ⟨_, c :: rest⟩ => if p c then [⟨some c, rest⟩] else []
  | look p, at_ => if p at_.before at_.rest.head? then [at_] else []
  | seq a b, at_ => (a.ways at_).flatMap b.ways
  | alt a b, at_ => a.ways at_ ++ b.ways at_
  | rep min max a, at_ => repeated a.ways min (max.getD (min + at_.rest.length)) at_

/-- One pattern after the other. -/
def Pattern.all : List Pattern → Pattern
  | [] => .look fun _ _ => true
  | [a] => a
  | a :: rest => .seq a (Pattern.all rest)

/-- A text, its characters compared by `same`. -/
def Pattern.text (same : Char → Char → Bool) (l : List Char) : Pattern := .all (l.map fun c => .one (same c))

def Pattern.any : List Pattern → Pattern
  | [] => .look fun _ _ => false
  | [a] => a
  | a :: rest => .alt a (Pattern.any rest)

/-- The match at a place. -/
def Pattern.here (p : Pattern) (at_ : Place) : Option (List Char) :=
  (p.ways at_).head?.map fun stop => at_.rest.take (at_.rest.length - stop.rest.length)

/-! ## Searching a text -/

/-- A part of the text that was matched. -/
structure Match where
  start : Nat
  text : List Char
deriving DecidableEq

def Match.stop (m : Match) : Nat := m.start + m.text.length

/-- The matches from a place on, one after the other; `skip` characters belong to the last one. -/
def Pattern.from (p : Pattern) (before : Option Char) (skip index : Nat) : List Char → List Match
  | [] => if skip = 0 then ((p.here ⟨before, []⟩).map fun text => ⟨index, text⟩).toList else []
  | c :: rest =>
    match skip with
    | skip + 1 => p.from (some c) skip (index + 1) rest
    | 0 =>
      match p.here ⟨before, c :: rest⟩ with
      | some text => ⟨index, text⟩ :: p.from (some c) (text.length - 1) (index + 1) rest
      | none => p.from (some c) 0 (index + 1) rest

/-- All matches, from left to right, that do not overlap. -/
def Pattern.matchAll (p : Pattern) (text : List Char) : List Match := p.from none 0 0 text

/-- The first match. -/
def Pattern.exec (p : Pattern) (text : List Char) : Option Match := (p.matchAll text).head?

def Pattern.test (p : Pattern) (text : List Char) : Bool := (p.exec text).isSome

def Pattern.replaceFrom (p : Pattern) (f : List Char → List Char) (before : Option Char) (skip : Nat) : List Char → List Char
  | [] => if skip = 0 then ((p.here ⟨before, []⟩).map f).getD [] else []
  | c :: rest =>
    match skip with
    | skip + 1 => p.replaceFrom f (some c) skip rest
    | 0 =>
      match p.here ⟨before, c :: rest⟩ with
      | some text => f text ++ ((if text = [] then [c] else []) ++ p.replaceFrom f (some c) (text.length - 1) rest)
      | none => c :: p.replaceFrom f (some c) 0 rest

/-- The text with `f` of each match in its place. -/
def Pattern.replaceAll (p : Pattern) (f : List Char → List Char) (text : List Char) : List Char :=
  p.replaceFrom f none 0 text

/-- The text with `f` of the first match in its place. -/
def Pattern.replaceFirst (p : Pattern) (f : List Char → List Char) (text : List Char) : List Char :=
  match p.exec text with
  | none => text
  | some m => text.take m.start ++ (f m.text ++ text.drop m.stop)

/-! ## What a pattern reads -/

theorem lastOr_cons (c : Char) (l : List Char) (before : Option Char) :
    (c :: l).getLast?.or before = l.getLast?.or (some c) := by
  cases h : l.getLast? with
  | none =>
    rw [List.getLast?_eq_none_iff] at h
    subst h
    rfl
  | some d => simp [List.getLast?_cons, h]

/-- From one place to a later one, over a text. -/
def Reads (at_ stop : Place) (text : List Char) : Prop :=
  at_.rest = text ++ stop.rest ∧ stop.before = text.getLast?.or at_.before

theorem Reads.refl (at_ : Place) : Reads at_ at_ [] := ⟨rfl, rfl⟩

theorem Reads.trans {a b c : Place} {x y : List Char} (hx : Reads a b x) (hy : Reads b c y) : Reads a c (x ++ y) := by
  refine ⟨by rw [hx.1, hy.1, List.append_assoc], ?_⟩
  rw [hy.2, hx.2, List.getLast?_append, Option.or_assoc]

theorem Reads.unique {at_ stop : Place} {x y : List Char} (hx : Reads at_ stop x) (hy : Reads at_ stop y) : x = y :=
  List.append_cancel_right (hx.1.symm.trans hy.1)

theorem reads_one {at_ stop : Place} {p : Char → Bool} (h : stop ∈ (Pattern.one p).ways at_) :
    ∃ c, p c = true ∧ Reads at_ stop [c] := by
  obtain ⟨before, rest⟩ := at_
  cases rest with
  | nil => simp [Pattern.ways] at h
  | cons c rest =>
    simp only [Pattern.ways] at h
    split at h
    · rename_i hc
      obtain rfl := List.mem_singleton.1 h
      exact ⟨c, hc, rfl, rfl⟩
    · cases h

theorem mem_look {at_ stop : Place} {p : Option Char → Option Char → Bool} :
    stop ∈ (Pattern.look p).ways at_ ↔ stop = at_ ∧ p at_.before at_.rest.head? = true := by
  simp only [Pattern.ways]
  split <;> simp_all

theorem mem_seq {at_ stop : Place} {a b : Pattern} :
    stop ∈ (Pattern.seq a b).ways at_ ↔ ∃ mid ∈ a.ways at_, stop ∈ b.ways mid := by
  simp [Pattern.ways]

/-- A repetition reads one part after the other. -/
theorem reads_repeated {step : Place → List Place} {P : List Char → Prop}
    (hstep : ∀ {at_ stop : Place}, stop ∈ step at_ → ∃ m, P m ∧ Reads at_ stop m) :
    ∀ {left min : Nat} {at_ stop : Place}, stop ∈ repeated step min left at_ →
      ∃ parts : List (List Char), (∀ m ∈ parts, P m) ∧ min ≤ parts.length ∧ parts.length ≤ left ∧ Reads at_ stop parts.flatten
  | 0, min, at_, stop, h => by
    simp only [repeated] at h
    split at h
    · rename_i hmin
      obtain rfl := List.mem_singleton.1 h
      exact ⟨[], by simp, Nat.le_of_eq hmin, Nat.le_refl 0, .refl _⟩
    · cases h
  | left + 1, min, at_, stop, h => by
    simp only [repeated, List.mem_append, List.mem_flatMap] at h
    rcases h with ⟨mid, hmid, hstop⟩ | h
    · obtain ⟨m, hm, hr⟩ := hstep hmid
      obtain ⟨parts, hp, hmin, hleft, hr'⟩ := reads_repeated hstep hstop
      refine ⟨m :: parts, ?_, by simp only [List.length_cons]; omega, by simp only [List.length_cons]; omega, hr.trans hr'⟩
      rintro d (_ | ⟨_, hd⟩)
      · exact hm
      · exact hp d hd
    · split at h
      · rename_i hmin
        obtain rfl := List.mem_singleton.1 h
        exact ⟨[], by simp, Nat.le_of_eq hmin, Nat.zero_le _, .refl _⟩
      · cases h

theorem exists_reads : ∀ {p : Pattern} {at_ stop : Place}, stop ∈ p.ways at_ → ∃ m, Reads at_ stop m
  | .one _, _, _, h => by
    obtain ⟨c, -, hr⟩ := reads_one h
    exact ⟨[c], hr⟩
  | .look _, _, _, h => by
    obtain ⟨rfl, -⟩ := mem_look.1 h
    exact ⟨[], .refl _⟩
  | .seq a b, _, _, h => by
    obtain ⟨mid, ha, hb⟩ := mem_seq.1 h
    obtain ⟨x, hx⟩ := exists_reads ha
    obtain ⟨y, hy⟩ := exists_reads hb
    exact ⟨x ++ y, hx.trans hy⟩
  | .alt a b, _, _, h => by
    simp only [Pattern.ways, List.mem_append] at h
    rcases h with h | h
    · exact exists_reads h
    · exact exists_reads h
  | .rep min max a, _, _, h => by
    simp only [Pattern.ways] at h
    obtain ⟨parts, -, -, -, hr⟩ := reads_repeated (P := fun _ => True) (fun h => by
      obtain ⟨m, hm⟩ := exists_reads h
      exact ⟨m, trivial, hm⟩) h
    exact ⟨_, hr⟩

/-- A repeated class reads characters of the class. -/
theorem reads_rep {at_ stop : Place} {p : Char → Bool} {min : Nat} {max : Option Nat}
    (h : stop ∈ (Pattern.rep min max (.one p)).ways at_) :
    ∃ text, (∀ c ∈ text, p c = true) ∧ min ≤ text.length ∧ (∀ n ∈ max, text.length ≤ n) ∧ Reads at_ stop text := by
  simp only [Pattern.ways] at h
  obtain ⟨parts, hp, hmin, hmax, hr⟩ := reads_repeated (P := fun m => ∃ c, p c = true ∧ m = [c]) (fun h => by
    obtain ⟨c, hc, hr⟩ := reads_one h
    exact ⟨[c], ⟨c, hc, rfl⟩, hr⟩) h
  -- each part is one character
  have hlen : parts.flatten.length = parts.length := by
    rw [List.length_flatten, List.map_congr_left (g := fun _ => 1) fun m hm => by
      obtain ⟨c, -, rfl⟩ := hp m hm
      rfl]
    simp
  refine ⟨parts.flatten, fun c hc => ?_, by omega, fun n hn => ?_, hr⟩
  · obtain ⟨m, hm, hcm⟩ := List.mem_flatten.1 hc
    obtain ⟨d, hd, rfl⟩ := hp m hm
    rwa [List.mem_singleton.1 hcm]
  · obtain rfl := Option.mem_def.1 hn
    rw [hlen]
    exact hmax

/-- Greedy: a run of the class up to a character outside it is read first. -/
theorem repeated_one_first {p : Char → Bool} : ∀ {w : List Char} (min left : Nat) (before : Option Char) (post : List Char),
    (∀ c ∈ w, p c = true) → (∀ c ∈ post.head?, p c = false) → min ≤ w.length → w.length ≤ left →
    ∃ others, repeated (Pattern.one p).ways min left ⟨before, w ++ post⟩ = ⟨w.getLast?.or before, post⟩ :: others
  | [], min, left, before, post, _, hpost, hmin, _ => by
    have hstep : (Pattern.one p).ways ⟨before, post⟩ = [] := by
      cases post with
      | nil => rfl
      | cons c post => simp [Pattern.ways, hpost c rfl]
    obtain rfl : min = 0 := Nat.le_zero.1 hmin
    cases left with
    | zero => exact ⟨[], by simp [repeated]⟩
    | succ left => exact ⟨[], by simp [repeated, hstep]⟩
  | c :: w, min, 0, before, post, _, _, _, hleft => absurd hleft (by simp)
  | c :: w, min, left + 1, before, post, hw, hpost, hmin, hleft => by
    have hc : p c = true := hw c List.mem_cons_self
    obtain ⟨others, ho⟩ := repeated_one_first (min - 1) left (some c) post
      (fun d hd => hw d (List.mem_cons_of_mem _ hd)) hpost (by simp only [List.length_cons] at hmin; omega)
      (by simp only [List.length_cons] at hleft; omega)
    refine ⟨others ++ if min = 0 then [⟨before, c :: (w ++ post)⟩] else [], ?_⟩
    rw [repeated, List.cons_append]
    simp only [Pattern.ways, hc, if_true, List.flatMap_cons, List.flatMap_nil, List.append_nil]
    rw [ho, lastOr_cons, List.cons_append]

/-- What is matched stands there, and the pattern reads it. -/
theorem here_reads {p : Pattern} {at_ : Place} {text : List Char} (h : p.here at_ = some text) :
    ∃ stop ∈ p.ways at_, Reads at_ stop text := by
  unfold Pattern.here at h
  obtain ⟨stop, hs, rfl⟩ := Option.map_eq_some_iff.1 h
  have hmem := List.mem_of_mem_head? hs
  obtain ⟨m, hm⟩ := exists_reads hmem
  refine ⟨stop, hmem, ?_⟩
  have hcut : at_.rest.take (at_.rest.length - stop.rest.length) = m := by
    rw [hm.1]
    simp
  rw [hcut]
  exact hm

theorem here_of_first {p : Pattern} {at_ : Place} {text : List Char} (stop : Place) (others : List Place)
    (h : p.ways at_ = stop :: others) (hr : Reads at_ stop text) : p.here at_ = some text := by
  unfold Pattern.here
  rw [h, List.head?_cons, Option.map_some, hr.1]
  simp

/-! ## Searches -/

/-- A match that was found stands in the text where it says. -/
theorem mem_from {p : Pattern} {m : Match} : ∀ {l : List Char} {before : Option Char} {skip index : Nat},
    m ∈ p.from before skip index l → ∃ pre rest, l = pre ++ rest ∧ m.start = index + pre.length ∧
      p.here ⟨pre.getLast?.or before, rest⟩ = some m.text
  | [], before, skip, index, h => by
    unfold Pattern.from at h
    split at h
    · obtain ⟨text, ht, rfl⟩ := Option.map_eq_some_iff.1 (Option.mem_toList.1 h)
      exact ⟨[], [], rfl, rfl, ht⟩
    · cases h
  | c :: l, before, skip, index, h => by
    -- what is found behind the first character
    have later : ∀ {skip : Nat}, m ∈ p.from (some c) skip (index + 1) l → ∃ pre rest, c :: l = pre ++ rest ∧
        m.start = index + pre.length ∧ p.here ⟨pre.getLast?.or before, rest⟩ = some m.text := by
      intro skip h
      obtain ⟨pre, rest, rfl, hs, hh⟩ := mem_from h
      refine ⟨c :: pre, rest, rfl, by simp only [List.length_cons]; omega, ?_⟩
      rw [← hh, lastOr_cons]
    unfold Pattern.from at h
    split at h
    · exact later h
    · split at h
      · rename_i text ht
        rcases List.mem_cons.1 h with rfl | h
        · exact ⟨[], c :: l, rfl, rfl, ht⟩
        · exact later h
      · exact later h

/-- A match is found where no earlier one reaches. -/
theorem from_of_here {p : Pattern} {text rest : List Char} : ∀ (pre : List Char) (before : Option Char) (skip index : Nat),
    p.here ⟨pre.getLast?.or before, rest⟩ = some text → text ≠ [] → skip ≤ pre.length →
    (∀ x y t, pre = x ++ y → y ≠ [] → p.here ⟨x.getLast?.or before, y ++ rest⟩ = some t → t.length ≤ y.length) →
    (⟨index + pre.length, text⟩ : Match) ∈ p.from before skip index (pre ++ rest)
  | [], before, skip, index, h, hne, hskip, _ => by
    obtain rfl : skip = 0 := Nat.le_zero.1 hskip
    cases rest with
    | nil =>
      obtain ⟨stop, -, hr⟩ := here_reads h
      exact absurd (List.append_eq_nil_iff.1 hr.1.symm).1 hne
    | cons c rest =>
      rw [List.nil_append, Pattern.from]
      simp only [List.getLast?_nil, Option.none_or] at h
      rw [h]
      exact List.mem_cons_self
  | c :: pre, before, skip, index, h, hne, hskip, hfree => by
    rw [lastOr_cons] at h
    -- the places behind the first character
    have later : ∀ {skip : Nat}, skip ≤ pre.length →
        (⟨index + (c :: pre).length, text⟩ : Match) ∈ p.from (some c) skip (index + 1) (pre ++ rest) := by
      intro skip hskip
      rw [show index + (c :: pre).length = index + 1 + pre.length by simp only [List.length_cons]; omega]
      refine from_of_here pre (some c) _ (index + 1) h hne hskip fun x y t hxy hy ht => ?_
      refine hfree (c :: x) y t (by rw [hxy, List.cons_append]) hy ?_
      rw [← ht, lastOr_cons]
    rw [List.cons_append]
    unfold Pattern.from
    split
    · exact later (by simp only [List.length_cons] at hskip; omega)
    · split
      · rename_i t ht
        have hlen := hfree [] (c :: pre) t rfl (List.cons_ne_nil _ _) ht
        exact List.mem_cons_of_mem _ (later (by simp only [List.length_cons] at hlen; omega))
      · exact later (Nat.zero_le _)

theorem mem_matchAll {p : Pattern} {m : Match} {input : List Char} (h : m ∈ p.matchAll input) :
    ∃ pre rest, input = pre ++ rest ∧ m.start = pre.length ∧ p.here ⟨pre.getLast?, rest⟩ = some m.text := by
  obtain ⟨pre, rest, rfl, hs, hh⟩ := mem_from h
  exact ⟨pre, rest, rfl, by omega, by simpa using hh⟩

theorem mem_exec {p : Pattern} {m : Match} {input : List Char} (h : p.exec input = some m) :
    ∃ pre rest, input = pre ++ rest ∧ m.start = pre.length ∧ p.here ⟨pre.getLast?, rest⟩ = some m.text :=
  mem_matchAll (List.mem_of_mem_head? h)

/-- A replacement that keeps the characters of a class in each match keeps them in the text. -/
theorem filter_replaceFrom {p : Pattern} {f : List Char → List Char} {g : Char → Bool}
    (hf : ∀ at_ text, p.here at_ = some text → (f text).filter g = text.filter g) :
    ∀ {l : List Char} {before : Option Char} {skip : Nat},
      (p.replaceFrom f before skip l).filter g = (l.drop skip).filter g
  | [], before, skip => by
    unfold Pattern.replaceFrom
    rw [List.drop_nil]
    split
    · cases h : p.here ⟨before, []⟩ with
      | none => rfl
      | some text =>
        obtain ⟨stop, -, hr⟩ := here_reads h
        have hnil : text = [] := (List.append_eq_nil_iff.1 hr.1.symm).1
        rw [Option.map_some, Option.getD_some, hf _ _ h, hnil]
    · rfl
  | c :: l, before, skip => by
    unfold Pattern.replaceFrom
    split
    · rw [filter_replaceFrom hf, List.drop_succ_cons]
    · split
      · rename_i text h
        obtain ⟨stop, -, hr⟩ := here_reads h
        rw [List.filter_append, List.filter_append, filter_replaceFrom hf, hf _ _ h, List.drop_zero]
        cases text with
        | nil =>
          rw [if_pos rfl, List.length_nil, Nat.zero_sub, List.drop_zero, List.filter_nil, List.nil_append,
            ← List.filter_append, List.singleton_append]
        | cons d text =>
          have hrest : l = text ++ stop.rest := (List.cons.inj hr.1).2
          have hhead : c = d := (List.cons.inj hr.1).1
          rw [if_neg (List.cons_ne_nil d text), List.length_cons, Nat.add_sub_cancel, hrest, List.drop_left, List.filter_nil,
            List.nil_append, ← List.filter_append, hhead, List.cons_append]
      · rw [List.drop_zero, List.filter_cons, filter_replaceFrom hf, List.drop_zero, List.filter_cons]

theorem filter_replaceAll {p : Pattern} {f : List Char → List Char} {g : Char → Bool}
    (hf : ∀ at_ text, p.here at_ = some text → (f text).filter g = text.filter g) (input : List Char) :
    (p.replaceAll f input).filter g = input.filter g :=
  filter_replaceFrom hf

end Regex
