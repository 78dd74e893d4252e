/-
`DateTime::parse_from_rfc3339`: numbers of a fixed width, the clock, and the offset. A date is read
back from what `%Y-%m-%d` prints in the years 0 to 9999, and in no other.
-/
import Prosepect.Data.Time

namespace Time

open Text

/-! ## Numbers of a fixed width -/

/-- Read `w` digits onto the number `acc`. -/
def readExactly : (w : Nat) → (acc : Nat) → List Char → Option (Nat × List Char)
  | 0, acc, l => some (acc, l)
  | _ + 1, _, [] => none
  | w + 1, acc, c :: l => (digitVal c).bind fun d => readExactly w (acc * 10 + d) l

/-- Reading on after a padded number. -/
theorem readExactly_padded_add : ∀ (w v acc n : Nat) (l : List Char), n < 10 ^ w →
    readExactly (w + v) acc (padded w n ++ l) = readExactly v (acc * 10 ^ w + n) l
  | 0, v, acc, n, l, h => by
    have hn : n = 0 := by simpa using h
    simp [padded, hn]
  | w + 1, v, acc, n, l, h => by
    have hn : n / 10 < 10 ^ w := by
      rw [Nat.div_lt_iff_lt_mul (by omega), ← pow_succ]
      exact h
    have hw : w + 1 + v = w + (v + 1) := by omega
    rw [padded, List.append_assoc, hw, readExactly_padded_add w (v + 1) acc (n / 10) _ hn]
    simp only [List.singleton_append, readExactly, digitVal_digit, Option.bind_some]
    congr 1
    have hdiv := Nat.div_add_mod n 10
    calc (acc * 10 ^ w + n / 10) * 10 + n % 10 = acc * 10 ^ w * 10 + (10 * (n / 10) + n % 10) := by ring
      _ = acc * 10 ^ (w + 1) + n := by rw [hdiv, pow_succ]; ring

theorem readExactly_padded {w n : Nat} (l : List Char) (h : n < 10 ^ w) :
    readExactly w 0 (padded w n ++ l) = some (n, l) := by
  have hread := readExactly_padded_add w 0 0 n l h
  simpa [readExactly] using hread

theorem digitVal_lt {c : Char} {d : Nat} (h : digitVal c = some d) : d < 10 := by
  unfold digitVal at h
  split at h
  · rename_i hc
    cases h
    have hle : c.toNat ≤ '9'.toNat := hc.2
    have hnine : '9'.toNat = 57 := rfl
    omega
  · cases h

theorem readExactly_lt : ∀ {w acc n : Nat} {l r : List Char}, readExactly w acc l = some (n, r) →
    n < (acc + 1) * 10 ^ w
  | 0, acc, n, l, r, h => by
    cases h
    omega
  | w + 1, acc, n, [], r, h => by cases h
  | w + 1, acc, n, c :: l, r, h => by
    unfold readExactly at h
    obtain ⟨d, hd, h⟩ := Option.bind_eq_some_iff.1 h
    have hlt := readExactly_lt h
    have hdigit := digitVal_lt hd
    calc n < (acc * 10 + d + 1) * 10 ^ w := hlt
      _ ≤ ((acc + 1) * 10) * 10 ^ w := Nat.mul_le_mul_right _ (by omega)
      _ = (acc + 1) * 10 ^ (w + 1) := by rw [pow_succ]; ring

/-! ## Dates -/

/-- `YYYY-MM-DD`, a date there is. -/
def readDate (l : List Char) : Option (NaiveDate × List Char) := do
  let (year, l) ← readExactly 4 0 l
  let l ← readLiteral '-' l
  let (month, l) ← readExactly 2 0 l
  let l ← readLiteral '-' l
  let (day, l) ← readExactly 2 0 l
  let c : Civil := ⟨year, month, day⟩
  if c.valid then some (daysOf c, l) else none

/-- The years that are written with four digits. -/
def FourDigits (d : NaiveDate) : Prop := 0 ≤ (civil d).year ∧ (civil d).year ≤ 9999

instance (d : NaiveDate) : Decidable (FourDigits d) := inferInstanceAs (Decidable (_ ∧ _))

theorem valid_civil {d : NaiveDate} (h : FourDigits d) : (civil d).valid = true := by
  unfold Civil.valid
  simp only [daysOf_civil, beq_self_eq_true, Bool.true_and, Bool.and_eq_true, decide_eq_true_eq]
  have h0 := h.1
  have h1 := h.2
  omega

theorem readDate_formatDate {d : NaiveDate} (h : FourDigits d) (l : List Char) :
    readDate (formatDate d ++ l) = some (d, l) := by
  have hvalid := valid_civil h
  have hback := daysOf_civil d
  obtain ⟨⟨hm0, hm1⟩, hd0, hd1⟩ := civil_bounds d
  obtain ⟨h0, h1⟩ := h
  unfold readDate formatDate formatYear
  simp only [if_pos (And.intro h0 h1), List.append_assoc, List.cons_append]
  generalize civil d = c at *
  obtain ⟨year, month, day⟩ := c
  simp only at h0 h1 hm0 hm1 hd0 hd1
  obtain ⟨y, rfl⟩ := Int.eq_ofNat_of_zero_le h0
  obtain ⟨m, rfl⟩ := Int.eq_ofNat_of_zero_le (by omega : 0 ≤ month)
  obtain ⟨n, rfl⟩ := Int.eq_ofNat_of_zero_le (by omega : 0 ≤ day)
  simp only [Int.toNat_natCast, readExactly_padded (w := 4) _ (by omega : y < 10 ^ 4), Option.bind_eq_bind, Option.bind_some,
    readExactly_padded (w := 2) _ (by omega : m < 10 ^ 2), readExactly_padded (w := 2) _ (by omega : n < 10 ^ 2),
    readLiteral, if_true, hvalid, hback]

/-- A sign is not read. -/
theorem readDate_sign {d : NaiveDate} (h : ¬ FourDigits d) (l : List Char) : readDate (formatDate d ++ l) = none := by
  have hyear : ¬ (0 ≤ (civil d).year ∧ (civil d).year ≤ 9999) := h
  unfold readDate formatDate formatYear
  simp only [if_neg hyear, List.cons_append, readExactly]
  split <;> rfl

theorem readDate_fourDigits {l r : List Char} {d : NaiveDate} (h : readDate l = some (d, r)) : FourDigits d := by
  unfold readDate at h
  simp only [Option.bind_eq_bind] at h
  obtain ⟨⟨year, l₁⟩, hyear, h⟩ := Option.bind_eq_some_iff.1 h
  obtain ⟨l₂, -, h⟩ := Option.bind_eq_some_iff.1 h
  obtain ⟨⟨month, l₃⟩, -, h⟩ := Option.bind_eq_some_iff.1 h
  obtain ⟨l₄, -, h⟩ := Option.bind_eq_some_iff.1 h
  obtain ⟨⟨day, l₅⟩, -, h⟩ := Option.bind_eq_some_iff.1 h
  simp only at h
  split at h
  · rename_i hvalid
    cases h
    unfold Civil.valid at hvalid
    simp only [Bool.and_eq_true, beq_iff_eq] at hvalid
    unfold FourDigits
    rw [hvalid.1.1]
    have hlt := readExactly_lt hyear
    simp only at hlt ⊢
    omega
  · cases h

/-! ## Clock and offset -/

/-- The digits after the point, of which the first six count. -/
def readFraction : List Char → Option (Nat × List Char)
  | '.' :: l =>
    let digits := l.takeWhile fun c => (digitVal c).isSome
    if digits = [] then none
    else some ((readDigits 6 0 ((digits ++ List.replicate 6 '0').take 6)).1, l.drop digits.length)
  | l => some (0, l)

/-- `HH:MM:SS` with a fraction, in microseconds. -/
def readClock (l : List Char) : Option (Int × List Char) := do
  let (hour, l) ← readExactly 2 0 l
  let l ← readLiteral ':' l
  let (minute, l) ← readExactly 2 0 l
  let l ← readLiteral ':' l
  let (second, l) ← readExactly 2 0 l
  let (fraction, l) ← readFraction l
  if hour ≤ 23 ∧ minute ≤ 59 ∧ second ≤ 60 then
    some (((hour * 3600 + minute * 60 + second : Nat) : Int) * usPerSecond + fraction, l)
  else none

/-- `Z` or `±HH:MM`, in microseconds. -/
def readOffset : List Char → Option (Int × List Char)
  | [] => none
  | c :: l =>
    if c = 'Z' ∨ c = 'z' then some (0, l)
    else if c = '+' ∨ c = '-' ∨ c = '−' then do
      let (hour, l) ← readExactly 2 0 l
      let l ← readLiteral ':' l
      let (minute, l) ← readExactly 2 0 l
      if hour ≤ 23 ∧ minute ≤ 59 then
        let offset := ((hour * 3600 + minute * 60 : Nat) : Int) * usPerSecond
        some (if c = '+' then offset else -offset, l)
      else none
    else none

/-- `DateTime::parse_from_rfc3339`: the date, the time of day and the offset. -/
def parseFromRfc3339 (l : List Char) : Option (NaiveDate × Int × Int) := do
  let (date, l) ← readDate l
  match l with
  | [] => none
  | c :: l =>
    if c = 'T' ∨ c = 't' ∨ c = ' ' then do
      let (time, l) ← readClock l
      let (offset, l) ← readOffset l
      if l = [] then some (date, time, offset) else none
    else none

end Time
