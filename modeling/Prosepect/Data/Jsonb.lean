/-
`jsonb` of PostgreSQL as text, and how many octets the text takes. An array or an object takes what
its parts take and what stands between them, so that one part grows the whole by no more than
itself; a number that is counted up grows by no more than the digits of what is added.
-/
import Mathlib.Data.List.Sort
import Prosepect.Data.Json

namespace Text

/-- `octet_length`. -/
def octetLength (l : List Char) : Nat := (l.map Char.utf8Size).sum

@[simp] theorem octetLength_nil : octetLength [] = 0 := rfl

@[simp] theorem octetLength_cons (c : Char) (l : List Char) : octetLength (c :: l) = c.utf8Size + octetLength l := rfl

@[simp] theorem octetLength_append (l m : List Char) : octetLength (l ++ m) = octetLength l + octetLength m := by
  simp [octetLength]

theorem octetLength_ascii {l : List Char} (h : ∀ c ∈ l, c.utf8Size = 1) : octetLength l = l.length := by
  induction l with
  | nil => rfl
  | cons c l ih =>
    have hrest := ih fun d hd => h d (List.mem_cons_of_mem c hd)
    rw [octetLength_cons, hrest, h c List.mem_cons_self, List.length_cons]
    omega

theorem utf8Size_of_isDigit {c : Char} (h : c.isDigit = true) : c.utf8Size = 1 := by
  have hle : c.val ≤ 0x7f := by
    simp only [Char.isDigit, Bool.and_eq_true, decide_eq_true_eq] at h
    exact UInt32.le_trans h.2 (by decide)
  simp [Char.utf8Size, hle]

/-! ## Decimal numbers -/

theorem octetLength_toDigits (n : Nat) : octetLength (Nat.toDigits 10 n) = (Nat.toDigits 10 n).length :=
  octetLength_ascii fun _ hc => utf8Size_of_isDigit (Nat.isDigit_of_mem_toDigits (by decide) (by decide) hc)

/-- A sum has at most the digits of both numbers. -/
theorem length_toDigits_add (n k : Nat) :
    (Nat.toDigits 10 (n + k)).length ≤ (Nat.toDigits 10 n).length + (Nat.toDigits 10 k).length := by
  have hn : 0 < (Nat.toDigits 10 n).length := Nat.length_toDigits_pos
  have hk : 0 < (Nat.toDigits 10 k).length := Nat.length_toDigits_pos
  have hnlt : n < 10 ^ (Nat.toDigits 10 n).length := (Nat.length_toDigits_le_iff (by decide) hn).1 le_rfl
  have hklt : k < 10 ^ (Nat.toDigits 10 k).length := (Nat.length_toDigits_le_iff (by decide) hk).1 le_rfl
  have hpow : ∀ {m : Nat}, 0 < m → 2 ≤ 10 ^ m := fun hm => (by decide : 2 ≤ 10 ^ 1).trans (Nat.pow_le_pow_right (by decide) hm)
  refine (Nat.length_toDigits_le_iff (by decide) (by omega)).2 ?_
  calc n + k < 10 ^ (Nat.toDigits 10 n).length + 10 ^ (Nat.toDigits 10 k).length := by omega
    _ ≤ 10 ^ (Nat.toDigits 10 n).length * 10 ^ (Nat.toDigits 10 k).length := Nat.add_le_mul (hpow hn) (hpow hk)
    _ = 10 ^ ((Nat.toDigits 10 n).length + (Nat.toDigits 10 k).length) := (pow_add _ _ _).symm

end Text

/-! ## Values -/

/-- Numbers are integers; an object has each key once. -/
inductive Jsonb
  | null
  | bool (b : Bool)
  | int (n : Int)
  | str (s : String)
  | arr (items : List Jsonb)
  | obj (fields : List (String × Jsonb))

namespace Jsonb

open Text

/-- A nullable column. -/
def optional {α : Type} (f : α → Jsonb) : Option α → Jsonb
  | none => null
  | some a => f a

/-- Shorter keys come first, keys of one length in the order of their octets. -/
def keyLe (a b : String × List Char) : Prop :=
  a.1.utf8ByteSize < b.1.utf8ByteSize ∨ a.1.utf8ByteSize = b.1.utf8ByteSize ∧ a.1 ≤ b.1

instance : DecidableRel keyLe := fun _ _ => inferInstanceAs (Decidable (_ ∨ _ ∧ _))

/-- With a comma and a blank between them. -/
def listed : List (List Char) → List Char
  | [] => []
  | [t] => t
  | t :: u :: rest => t ++ ',' :: ' ' :: listed (u :: rest)

def entry (field : String × List Char) : List Char := Json.quote field.1 ++ ':' :: ' ' :: field.2

mutual

def chars : Jsonb → List Char
  | .null => "null".toList
  | .bool b => (toString b).toList
  | .int n => (toString n).toList
  | .str s => Json.quote s
  | .arr items => '[' :: (listed (itemChars items) ++ [']'])
  | .obj fields => '{' :: (listed (((fieldChars fields).insertionSort keyLe).map entry) ++ ['}'])

def itemChars : List Jsonb → List (List Char)
  | [] => []
  | item :: items => chars item :: itemChars items

def fieldChars : List (String × Jsonb) → List (String × List Char)
  | [] => []
  | (key, value) :: fields => (key, chars value) :: fieldChars fields

end

/-- `jsonb::text`. -/
def text (j : Jsonb) : String := String.ofList j.chars

/-- `octet_length(jsonb::text)`. -/
def octets (j : Jsonb) : Nat := octetLength j.chars

theorem itemChars_eq (items : List Jsonb) : itemChars items = items.map chars := by
  induction items with
  | nil => rw [itemChars, List.map_nil]
  | cons item items ih => rw [itemChars, ih, List.map_cons]

theorem fieldChars_eq (fields : List (String × Jsonb)) : fieldChars fields = fields.map fun f => (f.1, f.2.chars) := by
  induction fields with
  | nil => rw [fieldChars, List.map_nil]
  | cons f fields ih => rw [fieldChars, ih, List.map_cons]

/-! ## Sizes -/

theorem octetLength_listed (texts : List (List Char)) :
    octetLength (listed texts) = (texts.map octetLength).sum + 2 * (texts.length - 1) := by
  have hcomma : ','.utf8Size = 1 := by decide
  have hblank : ' '.utf8Size = 1 := by decide
  induction texts with
  | nil => rfl
  | cons t rest ih =>
    cases rest with
    | nil => simp [listed]
    | cons u rest =>
      rw [listed, octetLength_append, octetLength_cons, octetLength_cons, ih, hcomma, hblank]
      simp only [List.map_cons, List.sum_cons, List.length_cons]
      omega

theorem octetLength_entry (f : String × List Char) :
    octetLength (entry f) = octetLength (Json.quote f.1) + 2 + octetLength f.2 := by
  have hcolon : ':'.utf8Size = 1 := by decide
  have hblank : ' '.utf8Size = 1 := by decide
  rw [entry, octetLength_append, octetLength_cons, octetLength_cons, hcolon, hblank]
  omega

theorem octets_arr (items : List Jsonb) :
    (arr items).octets = 2 + (items.map octets).sum + 2 * (items.length - 1) := by
  have hopen : '['.utf8Size = 1 := by decide
  have hclose : ']'.utf8Size = 1 := by decide
  have hitems : (items.map chars).map octetLength = items.map octets := by
    rw [List.map_map]
    rfl
  rw [octets, chars, octetLength_cons, octetLength_append, octetLength_listed, itemChars_eq, hitems, octetLength_cons,
    octetLength_nil, hopen, hclose, List.length_map]
  omega

/-- The order of the keys does not matter. -/
theorem octets_obj (fields : List (String × Jsonb)) :
    (obj fields).octets =
      2 + (fields.map fun f => octetLength (Json.quote f.1) + 2 + f.2.octets).sum + 2 * (fields.length - 1) := by
  have hopen : '{'.utf8Size = 1 := by decide
  have hclose : '}'.utf8Size = 1 := by decide
  have hsorted := (List.perm_insertionSort keyLe (fieldChars fields)).map fun f => octetLength (entry f)
  have hfields : (fieldChars fields).map (fun f => octetLength (entry f)) =
      fields.map fun f => octetLength (Json.quote f.1) + 2 + f.2.octets := by
    rw [fieldChars_eq, List.map_map]
    exact List.map_congr_left fun f _ => octetLength_entry (f.1, f.2.chars)
  rw [octets, chars, octetLength_cons, octetLength_append, octetLength_listed, List.map_map, List.length_map,
    List.length_insertionSort, octetLength_cons, octetLength_nil, hopen, hclose]
  have hsum := hsorted.sum_eq
  rw [hfields] at hsum
  have hlength : (fieldChars fields).length = fields.length := by rw [fieldChars_eq, List.length_map]
  rw [hlength]
  have heq : (((fieldChars fields).insertionSort keyLe).map (octetLength ∘ entry)).sum =
      (fields.map fun f => octetLength (Json.quote f.1) + 2 + f.2.octets).sum := hsum
  omega

theorem octets_int (n : Nat) : (int n).octets = (Nat.toDigits 10 n).length := by
  rw [octets, chars, ← octetLength_toDigits]
  exact congrArg octetLength Nat.toList_repr

/-- A string of characters that are written as they are, in one octet each. -/
theorem octets_str {s : String} (h : ∀ c ∈ s.toList, c.toNat ∉ Json.escaped ∧ c.utf8Size = 1) :
    (str s).octets = s.length + 2 := by
  have hquote : Json.quoteMark.utf8Size = 1 := by decide
  have hplain : s.toList.flatMap Json.escapeChar = s.toList := by
    conv_rhs => rw [← List.flatMap_singleton' s.toList]
    exact List.flatMap_congr fun c hc => Json.escapeChar_plain (h c hc).1
  rw [octets, chars, Json.quote, octetLength_cons, octetLength_append, octetLength_cons, octetLength_nil, hplain, hquote,
    octetLength_ascii fun c hc => (h c hc).2, String.length_toList]
  omega

/-! ## Growth -/

/-- An array whose items grow by at most `k` each. -/
theorem octets_arr_le {α : Type} {f g : α → Jsonb} {k : Nat} {l : List α} (h : ∀ a ∈ l, (g a).octets ≤ (f a).octets + k) :
    (arr (l.map g)).octets ≤ (arr (l.map f)).octets + l.length * k := by
  have hsum : ((l.map g).map octets).sum ≤ ((l.map f).map octets).sum + l.length * k := by
    induction l with
    | nil => exact Nat.zero_le _
    | cons a l ih =>
      have ha := h a List.mem_cons_self
      have hl := ih fun b hb => h b (List.mem_cons_of_mem a hb)
      simp only [List.map_cons, List.sum_cons, List.length_cons, Nat.add_mul, Nat.one_mul]
      omega
  rw [octets_arr, octets_arr, List.length_map, List.length_map]
  omega

/-- A number that is counted up by at most `k`. -/
theorem octets_int_le {n m k : Nat} (h : m ≤ n + k) : (int m).octets ≤ (int n).octets + (Nat.toDigits 10 k).length := by
  rw [octets_int, octets_int]
  have hmono : (Nat.toDigits 10 m).length ≤ (Nat.toDigits 10 (n + k)).length := by
    refine (Nat.length_toDigits_le_iff (by decide) Nat.length_toDigits_pos).2 (Nat.lt_of_le_of_lt h ?_)
    exact (Nat.length_toDigits_le_iff (by decide) Nat.length_toDigits_pos).1 le_rfl
  exact hmono.trans (length_toDigits_add n k)

end Jsonb
