/-
Text: the operations of `str` the code uses, on the characters of a string, and decimal numbers
as they are written and read.
-/
import Mathlib.Data.List.DropRight
import Mathlib.Data.List.Infix
import Mathlib.Tactic

namespace Text

/-! ## White space -/

/-- Unicode `White_Space`, the property `str::trim` removes. -/
def isWhitespace (c : Char) : Bool :=
  (9 ≤ c.toNat && c.toNat ≤ 13) || c.toNat == 0x20 || c.toNat == 0x85 || c.toNat == 0xA0 ||
  c.toNat == 0x1680 || (0x2000 ≤ c.toNat && c.toNat ≤ 0x200A) || c.toNat == 0x2028 ||
  c.toNat == 0x2029 || c.toNat == 0x202F || c.toNat == 0x205F || c.toNat == 0x3000

/-- Remove the characters of `p` at both ends. -/
def trimChars (p : Char → Bool) (l : List Char) : List Char := (l.dropWhile p).rdropWhile p

/-- `str::trim`. -/
def trim (s : String) : String := String.ofList (trimChars isWhitespace s.toList)

/-- `btrim(text)` of PostgreSQL, which removes spaces only. -/
def sqlTrim (s : String) : String := String.ofList (trimChars (· == ' ') s.toList)

theorem trimChars_eq_self_iff (p : Char → Bool) (l : List Char) :
    trimChars p l = l ↔ (∀ hl : l ≠ [], ¬ p (l.head hl)) ∧ ∀ hl : l ≠ [], ¬ p (l.getLast hl) := by
  unfold trimChars
  constructor
  · intro h
    have hlen : (l.dropWhile p).length = l.length := by
      have h1 := (List.dropWhile_suffix (l := l) p).length_le
      have h2 := (List.rdropWhile_prefix (p := p) (l.dropWhile p)).length_le
      rw [h] at h2
      omega
    have hd : l.dropWhile p = l := (List.dropWhile_suffix p).eq_of_length hlen
    rw [hd] at h
    constructor
    · intro hl
      rw [List.head_eq_getElem]
      exact List.dropWhile_eq_self_iff.1 hd (List.length_pos_iff.2 hl)
    · exact List.rdropWhile_eq_self_iff.1 h
  · rintro ⟨h1, h2⟩
    have hd : l.dropWhile p = l := by
      rw [List.dropWhile_eq_self_iff]
      intro hl
      have := h1 (List.length_pos_iff.1 hl)
      rwa [List.head_eq_getElem] at this
    rw [hd]
    exact List.rdropWhile_eq_self_iff.2 h2

theorem trimChars_idem (p : Char → Bool) (l : List Char) : trimChars p (trimChars p l) = trimChars p l := by
  rw [trimChars_eq_self_iff]
  refine ⟨fun hl => ?_, fun hl => List.rdropWhile_last_not p _ hl⟩
  -- the first character of the trimmed text is the first that `p` does not accept
  obtain ⟨t, ht⟩ := List.rdropWhile_prefix (p := p) (l.dropWhile p)
  have hne : l.dropWhile p ≠ [] := by
    intro h
    apply hl
    unfold trimChars
    rw [h]
    rfl
  have hhead : (trimChars p l).head hl = (l.dropWhile p).head hne := by
    unfold trimChars at hl ⊢
    generalize hq : (l.dropWhile p).rdropWhile p = q at ht hl ⊢
    cases q with
    | nil => exact absurd rfl hl
    | cons a q => simp only [← ht, List.cons_append, List.head_cons]
  rw [hhead, List.head_dropWhile_not p hne]
  decide

@[simp] theorem trim_trim (s : String) : trim (trim s) = trim s := by
  simp [trim, trimChars_idem]

/-! ## Searching -/

/-- `s.starts_with(t)`. -/
def startsWith (s t : String) : Bool := t.toList.isPrefixOf s.toList

/-- `s.contains(t)`. -/
def contains (s t : String) : Bool := decide (t.toList <:+: s.toList)

/-- `s.strip_prefix(t)`, on characters. -/
def stripPrefix (t : String) (l : List Char) : Option (List Char) :=
  if t.toList.isPrefixOf l then some (l.drop t.toList.length) else none

/-- A text is split where a character first stands. -/
theorem split_at_first {a : Char} : ∀ {l l' x y : List Char}, a ∉ l → a ∉ l' → l ++ a :: x = l' ++ a :: y → l = l' ∧ x = y
  | [], [], _, _, _, _, h => ⟨rfl, (List.cons.inj h).2⟩
  | [], c :: l', _, _, _, hl', h => absurd ((List.cons.inj h).1 ▸ List.mem_cons_self) hl'
  | c :: l, [], _, _, hl, _, h => absurd ((List.cons.inj h).1 ▸ List.mem_cons_self) hl
  | c :: l, d :: l', x, y, hl, hl', h => by
    obtain ⟨rfl, hrest⟩ := List.cons.inj h
    obtain ⟨rfl, rfl⟩ := split_at_first (fun hm => hl (List.mem_cons_of_mem _ hm)) (fun hm => hl' (List.mem_cons_of_mem _ hm)) hrest
    exact ⟨rfl, rfl⟩

/-! ## Decimal numbers -/

/-- The decimal digit of `n`. -/
def digit (n : Nat) : Char := Char.ofNat (48 + n % 10)

/-- The value of a decimal digit. -/
def digitVal (c : Char) : Option Nat := if '0' ≤ c ∧ c ≤ '9' then some (c.toNat - 48) else none

/-- The last `w` decimal digits of `n`, most significant first. -/
def padded : (w n : Nat) → List Char
  | 0, _ => []
  | w + 1, n => padded w (n / 10) ++ [digit n]

/-- Read up to `w` digits onto the number `acc`; the number and the rest of the text. -/
def readDigits : (w : Nat) → (acc : Nat) → List Char → Nat × List Char
  | 0, acc, l => (acc, l)
  | _ + 1, acc, [] => (acc, [])
  | w + 1, acc, c :: l =>
    match digitVal c with
    | some d => readDigits w (acc * 10 + d) l
    | none => (acc, c :: l)

/-- A number of 1 to `w` digits, after white space. -/
def readNumber (w : Nat) (l : List Char) : Option (Nat × List Char) :=
  match l.dropWhile isWhitespace with
  | [] => none
  | c :: l => if (digitVal c).isSome then some (readDigits w 0 (c :: l)) else none

theorem digitVal_digit (n : Nat) : digitVal (digit n) = some (n % 10) := by
  have h : n % 10 < 10 := Nat.mod_lt _ (by omega)
  unfold digit
  generalize n % 10 = d at h
  interval_cases d <;> decide

theorem isWhitespace_digit (n : Nat) : isWhitespace (digit n) = false := by
  have h : n % 10 < 10 := Nat.mod_lt _ (by omega)
  unfold digit
  generalize n % 10 = d at h
  interval_cases d <;> decide

@[simp] theorem length_padded : ∀ w n, (padded w n).length = w
  | 0, _ => rfl
  | w + 1, n => by simp [padded, length_padded w]

theorem mem_padded : ∀ {w n : Nat} {c : Char}, c ∈ padded w n → ∃ d, c = digit d
  | 0, _, _, h => by cases h
  | w + 1, n, c, h => by
    rcases List.mem_append.1 h with h | h
    · exact mem_padded h
    · exact ⟨n, List.mem_singleton.1 h⟩

/-- Reading on after a padded number. -/
theorem readDigits_padded : ∀ (w v acc n : Nat) (l : List Char), n < 10 ^ w →
    readDigits (w + v) acc (padded w n ++ l) = readDigits v (acc * 10 ^ w + n) l
  | 0, v, acc, n, l, h => by
    have : n = 0 := by simpa using h
    simp [padded, this]
  | w + 1, v, acc, n, l, h => by
    have hn : n / 10 < 10 ^ w := by
      rw [Nat.div_lt_iff_lt_mul (by omega), ← pow_succ]
      exact h
    have hw : w + 1 + v = w + (v + 1) := by omega
    rw [padded, List.append_assoc, hw, readDigits_padded w (v + 1) acc (n / 10) _ hn]
    simp only [List.singleton_append, readDigits, digitVal_digit]
    congr 1
    have := Nat.div_add_mod n 10
    calc (acc * 10 ^ w + n / 10) * 10 + n % 10 = acc * 10 ^ w * 10 + (10 * (n / 10) + n % 10) := by ring
      _ = acc * 10 ^ (w + 1) + n := by rw [this, pow_succ]; ring

/-- A padded number is read back, and the rest of the text is left. -/
theorem readNumber_padded {w n : Nat} (l : List Char) (h : n < 10 ^ (w + 1)) :
    readNumber (w + 1) (padded (w + 1) n ++ l) = some (n, l) := by
  obtain ⟨c, t, hc⟩ : ∃ c t, padded (w + 1) n = c :: t :=
    List.exists_cons_of_length_pos (by simp)
  obtain ⟨d, rfl⟩ := mem_padded (hc ▸ List.mem_cons_self : c ∈ padded (w + 1) n)
  have hr := readDigits_padded (w + 1) 0 0 n l h
  rw [hc] at hr ⊢
  simp only [List.cons_append] at hr ⊢
  unfold readNumber
  rw [List.dropWhile_cons_of_neg (by simp [isWhitespace_digit])]
  simp only [digitVal_digit, Option.isSome_some, if_true]
  rw [show w + 1 = w + 1 + 0 from rfl, hr]
  simp [readDigits]

theorem ofDigitChars_digit (n acc : Nat) : Nat.ofDigitChars 10 [digit n] acc = 10 * acc + n % 10 := by
  have h : n % 10 < 10 := Nat.mod_lt _ (by omega)
  have hval : (digit n).toNat - '0'.toNat = n % 10 := by
    unfold digit
    generalize n % 10 = d at h
    interval_cases d <;> decide
  rw [Nat.ofDigitChars_cons, Nat.ofDigitChars_nil, hval]

/-- The value of a padded number. -/
theorem ofDigitChars_padded : ∀ {w n : Nat}, n < 10 ^ w → Nat.ofDigitChars 10 (padded w n) 0 = n
  | 0, n, h => by
    have : n = 0 := by simpa using h
    simp [padded, this]
  | w + 1, n, h => by
    have hn : n / 10 < 10 ^ w := by
      rw [Nat.div_lt_iff_lt_mul (by omega), ← pow_succ]
      exact h
    rw [padded, Nat.ofDigitChars_append, ofDigitChars_padded hn, ofDigitChars_digit]
    omega

theorem padded_inj {w m n : Nat} (hm : m < 10 ^ w) (hn : n < 10 ^ w) (h : padded w m = padded w n) : m = n := by
  rw [← ofDigitChars_padded hm, ← ofDigitChars_padded hn, h]

end Text
