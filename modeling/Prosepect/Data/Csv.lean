/-
RFC 4180: a reader that takes a text character by character, and what it makes of cells that are
written plain or between quotes.
-/
import Mathlib.Data.List.Basic

namespace Csv

/-! ## The reader -/

inductive Mode
  /-- At the start of a cell. -/
  | start
  /-- In a cell without quotes. -/
  | plain
  | quoted
  /-- After a quote in a quoted cell: its end, or the first of two. -/
  | closed
  /-- After the CR at the end of a record. -/
  | ending
deriving DecidableEq, Repr

/-- The records that were read, and the cells of the one that is being read. -/
structure Reader where
  mode : Mode
  cell : List Char
  record : List (List Char)
  records : List (List (List Char))
deriving DecidableEq, Repr

namespace Reader

def initial : Reader := ⟨.start, [], [], []⟩

/-- The cell ends at a comma. -/
def comma (r : Reader) : Reader := ⟨.start, [], r.record ++ [r.cell], r.records⟩

/-- The record ends at a line break. -/
def lineBreak (r : Reader) : Reader := ⟨.start, [], [], r.records ++ [r.record ++ [r.cell]]⟩

/-- What follows a cell. -/
def separator (r : Reader) (c : Char) : Option Reader :=
  if c = ',' then some r.comma else if c = '\r' then some { r with mode := .ending } else none

def next (r : Reader) (c : Char) : Option Reader :=
  match r.mode with
  | .start =>
    if c = '"' then some { r with mode := .quoted }
    else if c = ',' ∨ c = '\r' ∨ c = '\n' then r.separator c
    else some { r with mode := .plain, cell := r.cell ++ [c] }
  | .plain =>
    if c = '"' ∨ c = ',' ∨ c = '\r' ∨ c = '\n' then r.separator c
    else some { r with cell := r.cell ++ [c] }
  | .quoted => some (if c = '"' then { r with mode := .closed } else { r with cell := r.cell ++ [c] })
  | .closed => if c = '"' then some { r with mode := .quoted, cell := r.cell ++ [c] } else r.separator c
  | .ending => if c = '\n' then some r.lineBreak else none

def feed (r : Reader) : List Char → Option Reader
  | [] => some r
  | c :: l => (r.next c).bind fun r => r.feed l

/-- At the end of the text, with or without a line break before it. -/
def finish (r : Reader) : Option (List (List (List Char))) :=
  match r.mode with
  | .start => if r.record = [] then some r.records else some r.lineBreak.records
  | .plain | .closed => some r.lineBreak.records
  | .quoted | .ending => none

end Reader

/-- The records of a text. -/
def read (l : List Char) : Option (List (List (List Char))) := (Reader.initial.feed l).bind Reader.finish

/-! ## Cells -/

/-- What a cell without quotes does not hold. -/
def Special (c : Char) : Prop := c = ',' ∨ c = '"' ∨ c = '\r' ∨ c = '\n'

instance (c : Char) : Decidable (Special c) := inferInstanceAs (Decidable (_ ∨ _))

/-- Every quote twice. -/
def doubled : List Char → List Char
  | [] => []
  | c :: l => if c = '"' then '"' :: '"' :: doubled l else c :: doubled l

def quote (text : List Char) : List Char := '"' :: (doubled text ++ ['"'])

/-- A way to write a cell. -/
inductive Writes (text : List Char) : List Char → Prop
  | plain (h : ∀ c ∈ text, ¬ Special c) : Writes text text
  | quoted : Writes text (quote text)

/-- A record between commas. -/
def joined : List (List Char) → List Char
  | [] => []
  | [cell] => cell
  | cell :: rest => cell ++ ',' :: joined rest

namespace Reader

variable {r : Reader}

theorem feed_append (r : Reader) (l l' : List Char) : r.feed (l ++ l') = (r.feed l).bind fun r => r.feed l' := by
  induction l generalizing r with
  | nil => rfl
  | cons c l ih =>
    simp only [List.cons_append, feed]
    cases r.next c with
    | none => rfl
    | some r' => exact ih r'

theorem feed_plain {text : List Char} (h : ∀ c ∈ text, ¬ Special c) (hm : r.mode = .plain) :
    r.feed text = some { r with cell := r.cell ++ text } := by
  induction text generalizing r with
  | nil => simp [feed]
  | cons c text ih =>
    have hc : ¬ (c = '"' ∨ c = ',' ∨ c = '\r' ∨ c = '\n') := by
      have hc := h c List.mem_cons_self
      unfold Special at hc
      tauto
    have hnext : r.next c = some { r with cell := r.cell ++ [c] } := by
      unfold next
      rw [hm]
      simp only [if_neg hc]
    unfold feed
    rw [hnext, Option.bind_some,
      ih (r := { r with cell := r.cell ++ [c] }) (fun x hx => h x (List.mem_cons_of_mem _ hx)) hm]
    simp

theorem feed_doubled (text : List Char) (hm : r.mode = .quoted) :
    r.feed (doubled text) = some { r with cell := r.cell ++ text } := by
  induction text generalizing r with
  | nil => simp [doubled, feed]
  | cons c text ih =>
    unfold doubled
    split
    next hc =>
      -- the first quote of a pair might have been the last of the cell
      subst hc
      have hnext : r.next '"' = some { r with mode := .closed } := by
        unfold next
        rw [hm]
        rfl
      have hagain : ({ r with mode := .closed } : Reader).next '"' =
          some { r with mode := .quoted, cell := r.cell ++ ['"'] } := rfl
      rw [feed, hnext, Option.bind_some, feed, hagain, Option.bind_some, ih rfl]
      simp [hm]
    next hc =>
      have hnext : r.next c = some { r with cell := r.cell ++ [c] } := by
        unfold next
        rw [hm]
        simp only [if_neg hc]
      rw [feed, hnext, Option.bind_some, ih (r := { r with cell := r.cell ++ [c] }) hm]
      simp

/-- After a cell that was written one way or the other, the reader has its text and waits for a separator. -/
theorem feed_cell {text written : List Char} (h : Writes text written) (hm : r.mode = .start) (hc : r.cell = []) :
    ∃ mode, (mode = .start ∧ text = [] ∨ mode = .plain ∨ mode = .closed) ∧
      r.feed written = some { r with mode := mode, cell := text } := by
  cases h with
  | plain hplain =>
    cases text with
    | nil =>
      refine ⟨.start, .inl ⟨rfl, rfl⟩, ?_⟩
      obtain ⟨mode, cell, record, records⟩ := r
      obtain rfl : mode = .start := hm
      obtain rfl : cell = [] := hc
      rfl
    | cons c text =>
      have hcs := hplain c List.mem_cons_self
      have hfirst : r.next c = some { r with mode := .plain, cell := [c] } := by
        unfold next
        unfold Special at hcs
        rw [hm]
        simp only [if_neg (show ¬ c = '"' from fun h => hcs (by tauto)),
          if_neg (show ¬ (c = ',' ∨ c = '\r' ∨ c = '\n') from fun h => hcs (by tauto)), hc, List.nil_append]
      refine ⟨.plain, .inr (.inl rfl), ?_⟩
      rw [feed, hfirst, Option.bind_some, feed_plain (fun x hx => hplain x (List.mem_cons_of_mem _ hx)) rfl]
      simp
  | quoted =>
    refine ⟨.closed, .inr (.inr rfl), ?_⟩
    have hfirst : r.next '"' = some { r with mode := .quoted } := by
      unfold next
      rw [hm]
      rfl
    unfold quote
    rw [feed, hfirst, Option.bind_some, feed_append, feed_doubled text rfl, Option.bind_some]
    simp [feed, next, hc]

theorem next_comma {mode : Mode} {text : List Char} (h : mode = .start ∧ text = [] ∨ mode = .plain ∨ mode = .closed) :
    ({ r with mode := mode, cell := text } : Reader).next ',' = some ⟨.start, [], r.record ++ [text], r.records⟩ := by
  rcases h with ⟨rfl, rfl⟩ | rfl | rfl <;> rfl

theorem next_return {mode : Mode} {text : List Char} (h : mode = .start ∧ text = [] ∨ mode = .plain ∨ mode = .closed) :
    ({ r with mode := mode, cell := text } : Reader).next '\r' = some ⟨.ending, text, r.record, r.records⟩ := by
  rcases h with ⟨rfl, rfl⟩ | rfl | rfl <;> rfl

/-- A record of cells with its line break. -/
theorem feed_record {cells written : List (List Char)} (h : List.Forall₂ Writes cells written) (hne : cells ≠ [])
    (hm : r.mode = .start) (hc : r.cell = []) :
    r.feed (joined written ++ ['\r', '\n']) = some ⟨.start, [], [], r.records ++ [r.record ++ cells]⟩ := by
  induction h generalizing r with
  | nil => exact absurd rfl hne
  | @cons text w cells ws hcell hrest ih =>
    obtain ⟨mode, hmode, hfeed⟩ := feed_cell hcell hm hc
    cases hrest with
    | nil =>
      show r.feed (w ++ ['\r', '\n']) = _
      rw [feed_append, hfeed, Option.bind_some, feed, next_return hmode]
      rfl
    | @cons text' w' cells' ws' hcell' hrest' =>
      have htext : joined (w :: w' :: ws') ++ ['\r', '\n'] = w ++ ',' :: (joined (w' :: ws') ++ ['\r', '\n']) := by
        simp [joined]
      rw [htext, feed_append, hfeed, Option.bind_some, feed, next_comma hmode, Option.bind_some, ih (by simp) rfl rfl]
      simp

/-- Records with their line breaks. -/
theorem feed_records {records : List (List (List Char))} {written : List (List (List Char))}
    (h : List.Forall₂ (fun cells ws => cells ≠ [] ∧ List.Forall₂ Writes cells ws) records written)
    (hm : r.mode = .start) (hc : r.cell = []) (hr : r.record = []) :
    r.feed (written.flatMap fun ws => joined ws ++ ['\r', '\n']) = some ⟨.start, [], [], r.records ++ records⟩ := by
  induction h generalizing r with
  | nil =>
    obtain ⟨mode, cell, record, records⟩ := r
    obtain rfl : mode = .start := hm
    obtain rfl : cell = [] := hc
    obtain rfl : record = [] := hr
    simp [feed]
  | cons hrecord _ ih =>
    rw [List.flatMap_cons, feed_append, feed_record hrecord.2 hrecord.1 hm hc, Option.bind_some, ih rfl rfl rfl]
    simp [hr]

end Reader

/-- What is written record by record is read back. -/
theorem read_records {records written : List (List (List Char))}
    (h : List.Forall₂ (fun cells ws => cells ≠ [] ∧ List.Forall₂ Writes cells ws) records written) :
    read (written.flatMap fun ws => joined ws ++ ['\r', '\n']) = some records := by
  unfold read
  rw [Reader.feed_records h rfl rfl rfl]
  rfl

end Csv
