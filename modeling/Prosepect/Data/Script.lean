/-
Texts in ECMAScript, on their characters: white space, `trim`, `parseInt`, the assertions of its
patterns.
-/
import Prosepect.Data.Regex
import Prosepect.Data.Text

namespace Script

open Text Regex

/-- `\s`: `WhiteSpace` and `LineTerminator`. -/
def isSpace (c : Char) : Bool :=
  (9 ≤ c.toNat && c.toNat ≤ 13) || c.toNat == 0x20 || c.toNat == 0xA0 || c.toNat == 0x1680 ||
  (0x2000 ≤ c.toNat && c.toNat ≤ 0x200A) || c.toNat == 0x2028 || c.toNat == 0x2029 || c.toNat == 0x202F ||
  c.toNat == 0x205F || c.toNat == 0x3000 || c.toNat == 0xFEFF

/-- `trim`. -/
def trim (l : List Char) : List Char := trimChars isSpace l

/-- `\w`, which knows ASCII only. -/
def isWord (c : Char) : Bool := c.isAlphanum || c == '_'

/-- `(?<!\S)`. -/
def startsToken (before _after : Option Char) : Bool := before.all isSpace

/-- `(?=\s|$)`. -/
def endsToken (_before after : Option Char) : Bool := after.all isSpace

/-- `\b`. -/
def wordBoundary (before after : Option Char) : Bool := before.any isWord != after.any isWord

/-- `^`. -/
def atStart (before _after : Option Char) : Bool := before.isNone

/-- `$`. -/
def atEnd (_before after : Option Char) : Bool := after.isNone

/-- `\s*`, `\s+`. -/
def spaces (min : Nat) : Pattern := .rep min none (.one isSpace)

/-- A word as it stands. -/
def word (s : String) : Pattern := .text (· == ·) s.toList

/-- `Number.parseInt(l, 10)`. -/
def parseInt (l : List Char) : Option Int :=
  let l := l.dropWhile isSpace
  let sign : Int := if l.head? = some '-' then -1 else 1
  let digits := if l.head? = some '-' ∨ l.head? = some '+' then l.tail else l
  match digits.takeWhile (digitVal · |>.isSome) with
  | [] => none
  | ds => some (sign * Nat.ofDigitChars 10 ds 0)

/-! ## Visible characters -/

def isInk (c : Char) : Bool := !isSpace c

theorem filter_ink_of_space {l : List Char} (h : ∀ c ∈ l, isSpace c = true) : l.filter isInk = [] := by
  rw [List.filter_eq_nil_iff]
  intro c hc
  simp [isInk, h c hc]

theorem filter_ink_dropWhile (l : List Char) : (l.dropWhile isSpace).filter isInk = l.filter isInk := by
  conv_rhs => rw [← List.takeWhile_append_dropWhile (p := isSpace) (l := l)]
  rw [List.filter_append, filter_ink_of_space fun c hc => List.mem_takeWhile_imp hc, List.nil_append]

/-- Trimming takes away white space only. -/
theorem filter_ink_trim (l : List Char) : (trim l).filter isInk = l.filter isInk := by
  unfold trim trimChars List.rdropWhile
  rw [List.filter_reverse, filter_ink_dropWhile, List.filter_reverse, List.reverse_reverse, filter_ink_dropWhile]

theorem isSpace_of_isWord {c : Char} (h : isWord c = true) : isSpace c = false := by
  delta isWord Char.isAlphanum Char.isAlpha Char.isUpper Char.isLower Char.isDigit at h
  simp only [Bool.or_eq_true, Bool.and_eq_true, decide_eq_true_eq, beq_iff_eq] at h
  have hn : 48 ≤ c.toNat ∧ c.toNat ≤ 122 := by
    rcases h with ((⟨h1, h2⟩ | ⟨h1, h2⟩) | ⟨h1, h2⟩) | rfl
    · exact ⟨by have := UInt32.le_iff_toNat_le.1 h1; simp at this; omega, by have := UInt32.le_iff_toNat_le.1 h2; simp at this; omega⟩
    · exact ⟨by have := UInt32.le_iff_toNat_le.1 h1; simp at this; omega, by have := UInt32.le_iff_toNat_le.1 h2; simp at this; omega⟩
    · exact ⟨by have := UInt32.le_iff_toNat_le.1 h1; simp at this; omega, by have := UInt32.le_iff_toNat_le.1 h2; simp at this; omega⟩
    · decide
  simp only [isSpace, Bool.or_eq_false_iff, Bool.and_eq_false_iff, decide_eq_false_iff_not, beq_eq_false_iff_ne]
  omega

theorem not_word_of_space {o : Option Char} (h : o.all isSpace = true) : o.any isWord = false := by
  cases o with
  | none => rfl
  | some c =>
    cases hc : isWord c with
    | false => exact hc
    | true =>
      have := isSpace_of_isWord hc
      simp [this] at h

end Script
