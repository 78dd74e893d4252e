/-
Time zones as piecewise constant offsets: the wall clock at an instant, and the instant PostgreSQL
takes for a wall clock time with `AT TIME ZONE`.
-/
import Prosepect.Data.Time

namespace Time

/-- The offset at first, and the later ones with the instants they start at. -/
structure TimeZone where
  first : Int
  changes : List (DateTime × Int)
  sorted : changes.Pairwise fun a b => a.1 < b.1

namespace TimeZone

variable {z : TimeZone}

/-- The offset after the last of the changes there has been. -/
def offsetAfter : (offset : Int) → List (DateTime × Int) → DateTime → Int
  | offset, [], _ => offset
  | offset, (change, next) :: rest, t => if change ≤ t then offsetAfter next rest t else offset

def offset (z : TimeZone) (t : DateTime) : Int := offsetAfter z.first z.changes t

/-- `timestamptz AT TIME ZONE`. -/
def wall (z : TimeZone) (t : DateTime) : Int := t + z.offset t

def offsets (z : TimeZone) : List Int := z.first :: z.changes.map (·.2)

/-- The instants at which the wall clock shows a time. -/
def instants (z : TimeZone) (wall : Int) : List DateTime :=
  (z.offsets.map fun offset => wall - offset).filter fun t => z.wall t == wall

/-- The offset before the change that skips a time. -/
def offsetBefore : (offset : Int) → List (DateTime × Int) → (wall : Int) → Int
  | offset, [], _ => offset
  | offset, (change, next) :: rest, wall =>
    if change + offset ≤ wall ∧ wall < change + next then offset else offsetBefore next rest wall

/-- `timestamp AT TIME ZONE`: of two instants the later one, and for a time that is skipped the
offset before. -/
def instant (z : TimeZone) (wall : Int) : DateTime :=
  match (z.instants wall).max? with
  | some t => t
  | none => wall - offsetBefore z.first z.changes wall

theorem offsetAfter_mem (t : DateTime) : ∀ (changes : List (DateTime × Int)) (offset : Int),
    offsetAfter offset changes t ∈ offset :: changes.map (·.2)
  | [], offset => List.mem_cons_self
  | (change, next) :: rest, offset => by
    unfold offsetAfter
    split
    · exact List.mem_cons_of_mem _ (offsetAfter_mem t rest next)
    · exact List.mem_cons_self

theorem mem_instants {t : DateTime} {wall : Int} : t ∈ z.instants wall ↔ z.wall t = wall := by
  unfold instants
  rw [List.mem_filter, beq_iff_eq, List.mem_map]
  constructor
  · exact And.right
  · intro h
    refine ⟨⟨z.offset t, offsetAfter_mem t _ _, ?_⟩, h⟩
    rw [← h]
    show t + z.offset t - z.offset t = t
    exact Int.add_sub_cancel t _

/-- A time the clock shows is shown at the instant that is taken for it. -/
theorem wall_instant {t : DateTime} {wall : Int} (h : z.wall t = wall) : z.wall (z.instant wall) = wall := by
  unfold instant
  cases hm : (z.instants wall).max? with
  | none =>
    rw [List.max?_eq_none_iff] at hm
    exact absurd (mem_instants.2 h) (by rw [hm]; simp)
  | some u => exact mem_instants.1 (List.max?_mem hm)

end TimeZone

end Time
