/-
JSON text: values of strings, lists and objects as they are written without white space, and that
the text determines the value. No text of a value is the beginning of another's, so the parts of a
text are found one after the other.
-/
import Prosepect.Data.Text

namespace Json

/-! ## Strings -/

def quoteMark : Char := Char.ofNat 34
def backslash : Char := Char.ofNat 92

def hexDigit (n : Nat) : Char := if n < 10 then Char.ofNat (48 + n) else Char.ofNat (87 + n)

/-- What follows the backslash of a control character. -/
def control : (n : Nat) → List Char
  | 8 => ['b']
  | 9 => ['t']
  | 10 => ['n']
  | 12 => ['f']
  | 13 => ['r']
  | n => ['u', '0', '0', hexDigit (n / 16), hexDigit (n % 16)]

/-- The numbers of the characters that are not written as they are. -/
def escaped : List Nat := List.range 32 ++ [34, 92]

def escapeChar (c : Char) : List Char :=
  if c.toNat ∈ escaped then backslash :: (if c.toNat < 32 then control c.toNat else [c]) else [c]

def quote (s : String) : List Char := quoteMark :: (s.toList.flatMap escapeChar ++ [quoteMark])

theorem escapeChar_plain {c : Char} (h : c.toNat ∉ escaped) : escapeChar c = [c] := if_neg h

theorem escapeChar_special {c : Char} (h : c.toNat ∈ escaped) : ∃ l, escapeChar c = backslash :: l := ⟨_, if_pos h⟩

theorem toNat_inj {c d : Char} (h : c.toNat = d.toNat) : c = d := by
  have := congrArg Char.ofNat h
  rwa [Char.ofNat_toNat, Char.ofNat_toNat] at this

/-- Of two escapes neither begins the other. -/
theorem escapeChar_begins {c d : Char} (hc : c.toNat ∈ escaped) (hd : d.toNat ∈ escaped)
    (h : escapeChar c <+: escapeChar d) : c = d := by
  have htable : ∀ m ∈ escaped, ∀ n ∈ escaped, escapeChar (Char.ofNat m) <+: escapeChar (Char.ofNat n) → m = n := by
    decide +kernel
  apply toNat_inj
  exact htable _ hc _ hd (by rwa [Char.ofNat_toNat, Char.ofNat_toNat])

theorem escapeChar_inj {c d : Char} {x y : List Char} (h : escapeChar c ++ x = escapeChar d ++ y) : c = d ∧ x = y := by
  have hplain : ∀ {c d : Char} {x y : List Char}, c.toNat ∉ escaped → d.toNat ∈ escaped →
      escapeChar c ++ x ≠ escapeChar d ++ y := by
    rintro c d x y hc hd h
    obtain ⟨l, hl⟩ := escapeChar_special hd
    rw [escapeChar_plain hc, hl] at h
    rw [(List.cons.inj h).1] at hc
    exact hc (by decide)
  by_cases hc : c.toNat ∈ escaped
  · by_cases hd : d.toNat ∈ escaped
    · have hcd : c = d := by
        rcases List.prefix_or_prefix_of_prefix (List.prefix_append (escapeChar c) x) (h ▸ List.prefix_append _ y) with hp | hp
        · exact escapeChar_begins hc hd hp
        · exact (escapeChar_begins hd hc hp).symm
      subst hcd
      exact ⟨rfl, List.append_cancel_left h⟩
    · exact absurd h.symm (hplain hd hc)
  · by_cases hd : d.toNat ∈ escaped
    · exact absurd h (hplain hc hd)
    · rw [escapeChar_plain hc, escapeChar_plain hd] at h
      exact List.cons.inj h

/-- No character of a string is written with a quotation mark first. -/
theorem escapeChar_ne_quote (c : Char) (x y : List Char) : escapeChar c ++ x ≠ quoteMark :: y := by
  intro h
  by_cases hc : c.toNat ∈ escaped
  · obtain ⟨l, hl⟩ := escapeChar_special hc
    rw [hl] at h
    exact absurd (List.cons.inj h).1 (by decide)
  · rw [escapeChar_plain hc] at h
    rw [(List.cons.inj h).1] at hc
    exact hc (by decide)

theorem chars_inj : ∀ {s t x y : List Char},
    s.flatMap escapeChar ++ quoteMark :: x = t.flatMap escapeChar ++ quoteMark :: y → s = t ∧ x = y
  | [], [], _, _, h => ⟨rfl, (List.cons.inj h).2⟩
  | [], d :: t, x, y, h => by
    rw [List.flatMap_cons, List.append_assoc] at h
    exact absurd h.symm (escapeChar_ne_quote d _ _)
  | c :: s, [], x, y, h => by
    rw [List.flatMap_cons, List.append_assoc] at h
    exact absurd h (escapeChar_ne_quote c _ _)
  | c :: s, d :: t, x, y, h => by
    rw [List.flatMap_cons, List.flatMap_cons, List.append_assoc, List.append_assoc] at h
    obtain ⟨rfl, hrest⟩ := escapeChar_inj h
    obtain ⟨rfl, rfl⟩ := chars_inj hrest
    exact ⟨rfl, rfl⟩

theorem quote_inj {s t : String} {x y : List Char} (h : quote s ++ x = quote t ++ y) : s = t ∧ x = y := by
  unfold quote at h
  simp only [List.cons_append, List.append_assoc, List.nil_append, List.cons.injEq, true_and] at h
  obtain ⟨hs, hx⟩ := chars_inj h
  exact ⟨String.toList_inj.1 hs, hx⟩

end Json

/-! ## Values -/

inductive Json
  | str (s : String)
  | arr (items : List Json)
  | obj (fields : List (String × Json))

namespace Json

/-- A comma, but before the first. -/
def separator (first : Bool) : List Char := if first then [] else [',']

mutual

def render : Json → List Char
  | .str s => quote s
  | .arr items => '[' :: renderItems true items
  | .obj fields => '{' :: renderFields true fields

def renderItems : (first : Bool) → List Json → List Char
  | _, [] => [']']
  | first, item :: items => separator first ++ (render item ++ renderItems false items)

def renderFields : (first : Bool) → List (String × Json) → List Char
  | _, [] => ['}']
  | first, (key, value) :: fields =>
    separator first ++ (quote key ++ ':' :: (render value ++ renderFields false fields))

end

/-- `serde_json::to_string`. -/
def text (j : Json) : String := String.ofList j.render

/-- A value begins with one of three characters. -/
theorem render_head (j : Json) : ∃ c l, j.render = c :: l ∧ (c = quoteMark ∨ c = '[' ∨ c = '{') := by
  cases j with
  | str s => exact ⟨_, _, by rw [render]; rfl, .inl rfl⟩
  | arr items => exact ⟨_, _, by rw [render], .inr (.inl rfl)⟩
  | obj fields => exact ⟨_, _, by rw [render], .inr (.inr rfl)⟩

/-- No value begins with a bracket that closes a list. -/
theorem renderItems_ne_nil (first : Bool) (item : Json) (items : List Json) (x y : List Char) :
    renderItems first (item :: items) ++ x ≠ ']' :: y := by
  intro h
  rw [renderItems] at h
  cases first with
  | true =>
    obtain ⟨c, l, hl, hc⟩ := render_head item
    rw [hl] at h
    have hclose : c = ']' := (List.cons.inj h).1
    rcases hc with rfl | rfl | rfl
    · exact absurd hclose (by decide)
    · exact absurd hclose (by decide)
    · exact absurd hclose (by decide)
  | false => exact absurd (List.cons.inj h).1 (by decide)

theorem renderFields_ne_nil (first : Bool) (field : String × Json) (fields : List (String × Json)) (x y : List Char) :
    renderFields first (field :: fields) ++ x ≠ '}' :: y := by
  intro h
  rw [renderFields] at h
  cases first with
  | true => exact absurd (List.cons.inj h).1 (by decide)
  | false => exact absurd (List.cons.inj h).1 (by decide)

mutual

theorem render_inj : ∀ {j k : Json} {x y : List Char}, j.render ++ x = k.render ++ y → j = k ∧ x = y
  | .str s, .str t, x, y, h => by
    rw [render, render] at h
    obtain ⟨rfl, rfl⟩ := quote_inj h
    exact ⟨rfl, rfl⟩
  | .arr items, .arr items', x, y, h => by
    rw [render, render] at h
    obtain ⟨rfl, rfl⟩ := renderItems_inj (List.cons.inj h).2
    exact ⟨rfl, rfl⟩
  | .obj fields, .obj fields', x, y, h => by
    rw [render, render] at h
    obtain ⟨rfl, rfl⟩ := renderFields_inj (List.cons.inj h).2
    exact ⟨rfl, rfl⟩
  | .str _, .arr _, _, _, h => by
    rw [render, render] at h
    exact absurd (List.cons.inj h).1 (by decide)
  | .str _, .obj _, _, _, h => by
    rw [render, render] at h
    exact absurd (List.cons.inj h).1 (by decide)
  | .arr _, .str _, _, _, h => by
    rw [render, render] at h
    exact absurd (List.cons.inj h).1 (by decide)
  | .arr _, .obj _, _, _, h => by
    rw [render, render] at h
    exact absurd (List.cons.inj h).1 (by decide)
  | .obj _, .str _, _, _, h => by
    rw [render, render] at h
    exact absurd (List.cons.inj h).1 (by decide)
  | .obj _, .arr _, _, _, h => by
    rw [render, render] at h
    exact absurd (List.cons.inj h).1 (by decide)

theorem renderItems_inj : ∀ {first : Bool} {l l' : List Json} {x y : List Char},
    renderItems first l ++ x = renderItems first l' ++ y → l = l' ∧ x = y
  | _, [], [], _, _, h => by
    rw [renderItems] at h
    exact ⟨rfl, (List.cons.inj h).2⟩
  | first, [], item :: items, x, y, h => by
    rw [renderItems] at h
    exact absurd h.symm (renderItems_ne_nil first item items y x)
  | first, item :: items, [], x, y, h => by
    rw [renderItems.eq_1] at h
    exact absurd h (renderItems_ne_nil first item items x y)
  | first, item :: items, item' :: items', x, y, h => by
    simp only [renderItems, List.append_assoc] at h
    obtain ⟨rfl, hrest⟩ := render_inj (List.append_cancel_left h)
    obtain ⟨rfl, rfl⟩ := renderItems_inj hrest
    exact ⟨rfl, rfl⟩

theorem renderFields_inj : ∀ {first : Bool} {l l' : List (String × Json)} {x y : List Char},
    renderFields first l ++ x = renderFields first l' ++ y → l = l' ∧ x = y
  | _, [], [], _, _, h => by
    rw [renderFields] at h
    exact ⟨rfl, (List.cons.inj h).2⟩
  | first, [], field :: fields, x, y, h => by
    rw [renderFields] at h
    exact absurd h.symm (renderFields_ne_nil first field fields y x)
  | first, field :: fields, [], x, y, h => by
    rw [renderFields.eq_1] at h
    exact absurd h (renderFields_ne_nil first field fields x y)
  | first, (key, value) :: fields, (key', value') :: fields', x, y, h => by
    simp only [renderFields, List.append_assoc, List.cons_append] at h
    obtain ⟨rfl, hvalue⟩ := quote_inj (List.append_cancel_left h)
    obtain ⟨rfl, hrest⟩ := render_inj (List.cons.inj hvalue).2
    obtain ⟨rfl, rfl⟩ := renderFields_inj hrest
    exact ⟨rfl, rfl⟩

end

/-- The text determines the value. -/
theorem text_inj {j k : Json} (h : j.text = k.text) : j = k := by
  have hrender : j.render ++ [] = k.render ++ [] := by
    rw [List.append_nil, List.append_nil]
    exact String.ofList_injective h
  exact (render_inj hrender).1

end Json
