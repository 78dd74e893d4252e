/-
The invariant of the stored bytes: what is committed stays within the limits, and so does what the
transaction with the lock would commit. Rows are only added by a commit of that transaction; all
else makes the sums smaller or leaves them (`Shrinks`).
-/
import Mathlib.Algebra.Order.BigOperators.Group.List
import Mathlib.Algebra.Order.Ring.Int
import Prosepect.Content.StorageQuotaRuns

namespace Prosepect

open Time Resumption Tasks

namespace StorageQuota

variable {limits : StorageLimits} {files files' : List OwnedFile} {w w' : World}

/-! ## Sums -/

/-- What the sums and the identity of a row depend on. -/
def sig (row : OwnedFile) : Uuid × Uuid × Int := (row.userId, row.file.id, row.file.byteSize)

theorem usedBy_sig (user : Uuid) (files : List OwnedFile) :
    usedBy user files = (((files.map sig).filter fun s => s.1 == user).map fun s => s.2.2).sum := by
  unfold usedBy
  rw [List.filter_map, List.map_map]
  rfl

theorem usedByAll_sig (files : List OwnedFile) : usedByAll files = ((files.map sig).map fun s => s.2.2).sum := by
  unfold usedByAll
  rw [List.map_map]
  rfl

@[simp] theorem usedBy_append (user : Uuid) (a b : List OwnedFile) : usedBy user (a ++ b) = usedBy user a + usedBy user b := by
  simp [usedBy]

@[simp] theorem usedByAll_append (a b : List OwnedFile) : usedByAll (a ++ b) = usedByAll a + usedByAll b := by
  simp [usedByAll]

/-- Rows go, or keep their user, identifier and size. -/
def Shrinks (files files' : List OwnedFile) : Prop := (files'.map sig).Sublist (files.map sig)

theorem Shrinks.refl (files : List OwnedFile) : Shrinks files files := List.Sublist.refl _

theorem shrinks_filter (p : OwnedFile → Bool) (files : List OwnedFile) : Shrinks files (files.filter p) :=
  List.filter_sublist.map sig

theorem shrinks_map {g : OwnedFile → OwnedFile} (hg : ∀ row, sig (g row) = sig row) (files : List OwnedFile) :
    Shrinks files (files.map g) := by
  unfold Shrinks
  rw [List.map_map]
  exact (List.map_congr_left fun row _ => hg row) ▸ List.Sublist.refl _

theorem Shrinks.append (h : Shrinks files files') (rows : List OwnedFile) : Shrinks (files ++ rows) (files' ++ rows) := by
  unfold Shrinks
  rw [List.map_append, List.map_append]
  exact List.Sublist.append_right h _

theorem Shrinks.mem (h : Shrinks files files') {row : OwnedFile} (hr : row ∈ files') :
    ∃ old ∈ files, old.userId = row.userId ∧ old.file.id = row.file.id ∧ old.file.byteSize = row.file.byteSize := by
  obtain ⟨old, hold, heq⟩ := List.mem_map.1 (h.subset (List.mem_map_of_mem hr))
  unfold sig at heq
  simp only [Prod.mk.injEq] at heq
  exact ⟨old, hold, heq⟩

/-- No row has a negative size. -/
def Sized (files : List OwnedFile) : Prop := ∀ row ∈ files, 0 ≤ row.file.byteSize

theorem Shrinks.sized (h : Shrinks files files') (hs : Sized files) : Sized files' := by
  intro row hr
  obtain ⟨old, hold, -, -, hsize⟩ := h.mem hr
  rw [← hsize]
  exact hs old hold

theorem Sized.sig (hs : Sized files) : ∀ s ∈ files.map sig, 0 ≤ s.2.2 := by
  intro s h
  obtain ⟨row, hr, rfl⟩ := List.mem_map.1 h
  exact hs row hr

theorem Shrinks.usedBy_le (h : Shrinks files files') (hs : Sized files) (user : Uuid) : usedBy user files' ≤ usedBy user files := by
  rw [usedBy_sig, usedBy_sig]
  refine ((h.filter _).map _).sum_le_sum fun n hn => ?_
  obtain ⟨s, hmem, rfl⟩ := List.mem_map.1 hn
  exact hs.sig s (List.mem_of_mem_filter hmem)

theorem Shrinks.usedByAll_le (h : Shrinks files files') (hs : Sized files) : usedByAll files' ≤ usedByAll files := by
  rw [usedByAll_sig, usedByAll_sig]
  refine (h.map _).sum_le_sum fun n hn => ?_
  obtain ⟨s, hmem, rfl⟩ := List.mem_map.1 hn
  exact hs.sig s hmem

theorem Sized.usedBy_nonneg (hs : Sized files) (user : Uuid) : 0 ≤ usedBy user files := by
  refine List.sum_nonneg fun n hn => ?_
  obtain ⟨row, hr, rfl⟩ := List.mem_map.1 hn
  exact hs row (List.mem_of_mem_filter hr)

theorem Sized.usedByAll_nonneg (hs : Sized files) : 0 ≤ usedByAll files := by
  refine List.sum_nonneg fun n hn => ?_
  obtain ⟨row, hr, rfl⟩ := List.mem_map.1 hn
  exact hs row hr

/-- The rows are within the limits. -/
structure Within (limits : StorageLimits) (files : List OwnedFile) : Prop where
  sized : Sized files
  user : ∀ user, usedBy user files ≤ limits.user
  total : usedByAll files ≤ limits.total

theorem Within.shrink (hw : Within limits files) (h : Shrinks files files') : Within limits files' :=
  ⟨h.sized hw.sized, fun user => le_trans (h.usedBy_le hw.sized user) (hw.user user), le_trans (h.usedByAll_le hw.sized) hw.total⟩

/-- Where the subtraction of the check is exact, a row that passes fits. -/
theorem Within.add (hw : Within limits files) {row : OwnedFile} (hsize : 0 ≤ row.file.byteSize)
    (huser : usedBy row.userId files + row.file.byteSize ≤ limits.user)
    (htotal : usedByAll files + row.file.byteSize ≤ limits.total) : Within limits (files ++ [row]) := by
  constructor
  · intro r hr
    rcases List.mem_append.1 hr with hr | hr
    · exact hw.sized r hr
    · rw [List.mem_singleton.1 hr]
      exact hsize
  · intro user
    rw [usedBy_append]
    by_cases hu : row.userId = user
    · subst hu
      simpa [usedBy] using huser
    · have hother : usedBy user [row] = 0 := by simp [usedBy, hu]
      rw [hother, add_zero]
      exact hw.user user
  · rw [usedByAll_append]
    simpa [usedByAll] using htotal

/-- The check cannot wrap, nor saturate. -/
theorem saturatingSub_eq {a b : Int} (hb : 0 ≤ b) (hab : b ≤ a) (ha : a ≤ 9223372036854775807) : saturatingSub a b = a - b := by
  unfold saturatingSub
  omega

/-! ## What the lock protects -/

abbrev QuotaTask : Type := Resumption.Task QuotaSig AppError Frame

abbrev QuotaTasks : Type := Tasks QuotaSig AppError World Frame

/-- What was read of the sums is not too little. -/
structure ReadEnough (f : Frame) (files : List OwnedFile) : Prop where
  user : ∀ n, f.userUsed = some n → usedBy f.user files ≤ n
  total : ∀ n, f.totalUsed = some n → usedByAll files ≤ n

theorem ReadEnough.shrink {f : Frame} (h : ReadEnough f files) (hs : Sized files) (hsh : Shrinks files files') : ReadEnough f files' :=
  ⟨fun n hn => le_trans (hsh.usedBy_le hs _) (h.user n hn), fun n hn => le_trans (hsh.usedByAll_le hs) (h.total n hn)⟩

structure Inv (limits : StorageLimits) (w : World) (ts : Multiset QuotaTask) : Prop where
  within : Within limits w.files
  /-- What the transaction would commit fits, too. -/
  pending : ∀ row, w.pending = some row → Within limits (w.files ++ [row])
  /-- The lock is held once, or not at all. -/
  locks : held (quota limits) ts .lock = if w.locked then 1 else 0
  read : ∀ t ∈ ts, .lock ∈ t.frame.guards → ReadEnough t.frame w.files

theorem Inv.empty : Inv limits .empty 0 := by
  constructor
  · refine ⟨fun row hr => absurd hr List.not_mem_nil, fun user => le_of_lt limits.user_pos, ?_⟩
    exact le_of_lt (lt_of_lt_of_le limits.user_pos limits.user_le_total)
  · intro row hr
    cases hr
  · rfl
  · intro t ht
    exact absurd ht (Multiset.notMem_zero t)

section Steps

variable {ts : Multiset QuotaTask} {t t' : QuotaTask} {f : Frame}

/-- Rows go or keep their size. -/
theorem Inv.shrink (h : Inv limits w ts) (hs : Shrinks w.files files') : Inv limits { w with files := files' } ts := by
  constructor
  · exact h.within.shrink hs
  · intro row hr
    exact (h.pending row hr).shrink (hs.append [row])
  · exact h.locks
  · intro t ht hl
    exact (h.read t ht hl).shrink h.within.sized hs

/-- A task goes on with the guards it has. -/
theorem Inv.goOn (h : Inv limits w (t ::ₘ ts)) (hg : t'.frame.guards = t.frame.guards)
    (hr : .lock ∈ t.frame.guards → ReadEnough t.frame w.files → ReadEnough t'.frame w.files) : Inv limits w (t' ::ₘ ts) := by
  constructor
  · exact h.within
  · exact h.pending
  · have hlocks := h.locks
    rw [held_cons] at hlocks ⊢
    show (t'.frame.guards).count .lock + _ = _
    rw [hg]
    exact hlocks
  · intro u hu hl
    rcases Multiset.mem_cons.1 hu with rfl | hu
    · rw [hg] at hl
      exact hr hl (h.read t (Multiset.mem_cons_self t ts) hl)
    · exact h.read u (Multiset.mem_cons_of_mem hu) hl

/-- Nobody else has the lock. -/
theorem Inv.alone (h : Inv limits w (t ::ₘ ts)) (hl : .lock ∈ t.frame.guards) :
    w.locked = true ∧ (t.frame.guards).count .lock = 1 ∧ ∀ u ∈ ts, .lock ∉ u.frame.guards := by
  have hlocks := h.locks
  rw [held_cons] at hlocks
  have hcount : 0 < ((quota limits).guards t.frame).count .lock := List.count_pos_iff.2 hl
  have hle : (if w.locked then 1 else 0) ≤ 1 := by split <;> omega
  refine ⟨?_, ?_, fun u hu hul => ?_⟩
  · by_contra hfree
    rw [if_neg hfree] at hlocks
    omega
  · show ((quota limits).guards t.frame).count .lock = 1
    omega
  · have hpos : 0 < ((quota limits).guards u.frame).count .lock := List.count_pos_iff.2 hul
    have hheld := count_le_held (M := quota limits) (g := .lock) hu
    omega

theorem Inv.start (h : Inv limits w ts) {p : QuotaProg Unit} (hf : f.guards = []) : Inv limits w (.running f p ::ₘ ts) := by
  constructor
  · exact h.within
  · exact h.pending
  · rw [held_cons]
    show f.guards.count .lock + _ = _
    rw [hf]
    exact (Nat.zero_add _).trans h.locks
  · intro u hu hl
    rcases Multiset.mem_cons.1 hu with rfl | hu
    · have hl' : .lock ∈ f.guards := hl
      rw [hf] at hl'
      exact absurd hl' List.not_mem_nil
    · exact h.read u hu hl

theorem Inv.ended (h : Inv limits w (t ::ₘ ts)) (hg : t.frame.guards = []) : Inv limits w ts := by
  constructor
  · exact h.within
  · exact h.pending
  · have hlocks := h.locks
    rw [held_cons] at hlocks
    have hnone : ((quota limits).guards t.frame).count .lock = 0 := by
      show t.frame.guards.count .lock = 0
      rw [hg]
      rfl
    omega
  · intro u hu hl
    exact h.read u (Multiset.mem_cons_of_mem hu) hl

/-- The lock is taken by a task that has read nothing. -/
theorem Inv.lock {p p' : QuotaProg Unit} (h : Inv limits w (.running f p ::ₘ ts)) (hfree : w.locked = false) (hg : f.guards = [])
    (hu : f.userUsed = none) (ht : f.totalUsed = none) :
    Inv limits { w with locked := true } (.running { f with guards := .lock :: f.guards } p' ::ₘ ts) := by
  constructor
  · exact h.within
  · exact h.pending
  · have hlocks := h.locks
    rw [held_cons, hfree, if_neg Bool.false_ne_true] at hlocks
    rw [held_cons, if_pos rfl]
    show (Guard.lock :: f.guards).count .lock + _ = 1
    rw [hg, List.count_singleton_self]
    omega
  · intro u hu' hl
    rcases Multiset.mem_cons.1 hu' with rfl | hu'
    · exact ⟨fun n hn => absurd (hu.symm.trans hn) nofun, fun n hn => absurd (ht.symm.trans hn) nofun⟩
    · exact h.read u (Multiset.mem_cons_of_mem hu') hl

/-- A row that fits is inserted. -/
theorem Inv.insert {p p' : QuotaProg Unit} {row : OwnedFile} {g : Frame} (h : Inv limits w (.running f p ::ₘ ts))
    (hl : .lock ∈ f.guards) (huser : row.userId = f.user) (hsize : 0 ≤ row.file.byteSize)
    (hread : ∀ n, f.userUsed = some n → 0 ≤ n ∧ n ≤ limits.user) (hreadt : ∀ n, f.totalUsed = some n → 0 ≤ n ∧ n ≤ limits.total)
    (hfits : Fits limits f row.file.byteSize) (hg : g.guards = f.guards) (hgu : g.user = f.user) (hgr : g.userUsed = f.userUsed)
    (hgt : g.totalUsed = f.totalUsed) : Inv limits (w.insert row) (.running g p' ::ₘ ts) := by
  have henough := h.read _ (Multiset.mem_cons_self _ ts) hl
  have hgo : Inv limits w (.running g p' ::ₘ ts) := by
    refine h.goOn hg fun _ hr => ⟨fun n hn => ?_, fun n hn => ?_⟩
    · show usedBy g.user w.files ≤ n
      rw [hgu]
      exact hr.user n (hgr ▸ hn)
    · exact hr.total n (hgt ▸ hn)
  refine ⟨hgo.within, fun r hr => ?_, hgo.locks, hgo.read⟩
  cases hr
  -- The check was on what had been read, and that was enough.
  obtain ⟨n, hn, hnfits⟩ := hfits.user
  obtain ⟨m, hm, hmfits⟩ := hfits.total
  obtain ⟨hn₀, hnle⟩ := hread n hn
  obtain ⟨hm₀, hmle⟩ := hreadt m hm
  have hle : limits.user ≤ 9223372036854775807 := le_trans limits.user_le_total limits.total_le
  rw [saturatingSub_eq hn₀ hnle hle] at hnfits
  rw [saturatingSub_eq hm₀ hmle limits.total_le] at hmfits
  have hun : usedBy f.user w.files ≤ n := henough.user n hn
  have htn : usedByAll w.files ≤ m := henough.total m hm
  refine h.within.add hsize ?_ ?_
  · rw [huser]
    omega
  · omega

/-- The transaction with the lock ends, with its row or without. -/
theorem Inv.unlock (h : Inv limits w (t ::ₘ ts)) (hl : .lock ∈ t.frame.guards) (hg : t'.frame.guards = t.frame.guards.erase .lock)
    (hw : w' = w.commit ∨ w' = w.rollback) : Inv limits w' (t' ::ₘ ts) := by
  obtain ⟨hlocked, hone, hothers⟩ := h.alone hl
  have hcommit : Within limits (w.files ++ w.pending.toList) := by
    cases hp : w.pending with
    | none =>
      rw [Option.toList_none, List.append_nil]
      exact h.within
    | some row => exact h.pending row hp
  have hcount : t'.frame.guards.count .lock = 0 := by
    rw [hg, List.count_erase_self, hone]
  have hnone : held (quota limits) (t' ::ₘ ts) .lock = 0 := by
    have hlocks := h.locks
    rw [held_cons, hlocked, if_pos rfl] at hlocks
    have hone' : ((quota limits).guards t.frame).count .lock = 1 := hone
    have hcount' : ((quota limits).guards t'.frame).count .lock = 0 := hcount
    rw [held_cons]
    omega
  have hread : ∀ u ∈ t' ::ₘ ts, .lock ∉ u.frame.guards := by
    intro u hu hul
    rcases Multiset.mem_cons.1 hu with rfl | hu
    · have hpos := List.count_pos_iff.2 hul
      omega
    · exact hothers u hu hul
  rcases hw with rfl | rfl
  · exact ⟨hcommit, fun row hr => absurd hr nofun, hnone, fun u hu hul => absurd hul (hread u hu)⟩
  · exact ⟨h.within, fun row hr => absurd hr nofun, hnone, fun u hu hul => absurd hul (hread u hu)⟩

/-- After an error, the frame is as it was, but for the answer to a deletion. -/
structure SameReads (f g : Frame) : Prop where
  guards : g.guards = f.guards
  user : g.user = f.user
  request : g.request = f.request
  userUsed : g.userUsed = f.userUsed
  totalUsed : g.totalUsed = f.totalUsed
  file : g.file = f.file

theorem after_error {o : Op} (ho : o ≠ .commit) (e : Failure) (f : Frame) : SameReads f (f.after o (.error e)) := by
  cases o with
  | commit => exact absurd rfl ho
  | _ => exact ⟨rfl, rfl, rfl, rfl, rfl, rfl⟩

theorem Inv.same {p p' : QuotaProg Unit} {g : Frame} (h : Inv limits w (.running f p ::ₘ ts)) (hs : SameReads f g) :
    Inv limits w (.running g p' ::ₘ ts) := by
  refine h.goOn hs.guards fun _ hr => ⟨fun n hn => ?_, fun n hn => ?_⟩
  · show usedBy g.user w.files ≤ n
    rw [hs.user]
    exact hr.user n (hs.userUsed ▸ hn)
  · exact hr.total n (hs.totalUsed ▸ hn)

/-- What is known of a frame whose reads were of sums within the limits. -/
structure ReadWithin (limits : StorageLimits) (f : Frame) : Prop where
  user : ∀ n, f.userUsed = some n → 0 ≤ n ∧ n ≤ limits.user
  total : ∀ n, f.totalUsed = some n → 0 ≤ n ∧ n ≤ limits.total

theorem shrinks_relink (w : World) (links : OwnedFile → FileLinks) : Shrinks w.files (w.relink links).files := by
  refine shrinks_map ?_ w.files
  intro row
  rfl

/-- What an operation does to its task and the world. -/
theorem Inv.act {o : Op} {k : Except Failure o.Answer → QuotaProg Unit} {r : Except Failure o.Answer}
    (h : Inv limits w (.running f (.op o k) ::ₘ ts)) (hready : Ready limits f o) (hread : ReadWithin limits f) (hs : Step o w r w') :
    Inv limits w' (.running (f.after o r) (k r) ::ₘ ts) := by
  have hself : SameReads f f := ⟨rfl, rfl, rfl, rfl, rfl, rfl⟩
  cases hs with
  | does hd =>
    cases hd with
    | verifyFileParent | begin | put | fileDownload | deleteObject | accountObjectKeys => exact h.same hself
    | lock hfree =>
      obtain ⟨hg, hu, ht⟩ := hready
      exact h.lock hfree hg hu ht
    | userUsedBytes =>
      obtain ⟨rfl, -⟩ := hready
      exact h.goOn rfl fun _ hr => ⟨fun n hn => le_of_eq (Option.some.inj hn), hr.total⟩
    | totalUsedBytes => exact h.goOn rfl fun _ hr => ⟨hr.user, fun n hn => le_of_eq (Option.some.inj hn)⟩
    | insert hsize =>
      obtain ⟨huser, hg, -, hfits⟩ := hready
      exact h.insert (hg ▸ List.mem_singleton_self _) huser hsize.1 hread.user hread.total hfits rfl rfl rfl rfl
    | commit => exact h.unlock (hready ▸ List.mem_singleton_self _) rfl (.inl rfl)
    | deleteFileMetadata => exact (h.shrink (shrinks_filter _ _)).same ⟨rfl, rfl, rfl, rfl, rfl, rfl⟩
    | deleteUser => exact (h.shrink (shrinks_filter _ _)).same hself
    | restoreLinks => exact (h.shrink (shrinks_relink w _)).same hself
  | failed ho => exact h.same (after_error ho _ f)
  | aborted => exact h.unlock (hready ▸ List.mem_singleton_self _) rfl (.inr rfl)
  | lost hd ho =>
    cases hd with
    | lock => exact absurd rfl ho
    | verifyFileParent | begin | put | fileDownload | deleteObject | accountObjectKeys | userUsedBytes | totalUsedBytes =>
      exact h.same hself
    | insert hsize =>
      obtain ⟨huser, hg, -, hfits⟩ := hready
      exact h.insert (hg ▸ List.mem_singleton_self _) huser hsize.1 hread.user hread.total hfits rfl rfl rfl rfl
    | commit => exact h.unlock (hready ▸ List.mem_singleton_self _) rfl (.inl rfl)
    | deleteFileMetadata => exact (h.shrink (shrinks_filter _ _)).same ⟨rfl, rfl, rfl, rfl, rfl, rfl⟩
    | deleteUser => exact (h.shrink (shrinks_filter _ _)).same hself
    | restoreLinks => exact (h.shrink (shrinks_relink w _)).same hself
  | noParent | noDownload | notStored | notDeleted => exact h.same hself
  | notFound => exact h.same ⟨rfl, rfl, rfl, rfl, rfl, rfl⟩

end Steps

/-! ## What is known of a frame -/

def World.rows (w : World) : List OwnedFile := w.files ++ w.pending.toList

/-- A deletion has run, whether it found a row or not. -/
def Ran : Except Failure String → Prop
  | .ok _ => True
  | .error (.notFound _) => True
  | .error _ => False

structure Known (limits : StorageLimits) (w : World) (f : Frame) : Prop where
  read : ReadWithin limits f
  owner : ∀ file, f.file = some file → file < w.nextId ∧ ∀ row ∈ w.rows, row.file.id = file → row.userId = f.user
  /-- A row that is not committed belongs to a transaction that goes on. -/
  pending : ∀ row, w.pending = some row → f.file = some row.file.id → .lock ∈ f.guards
  cleaned : ∀ file a, f.file = some file → f.deletion = some (file, a) → Ran a → ∀ row ∈ w.rows, row.file.id ≠ file

theorem Known.arrived (w : World) (user : Uuid) (r : Request) : Known limits w (.arrived user r) := by
  constructor
  · exact ⟨nofun, nofun⟩
  · exact nofun
  · exact fun _ _ => nofun
  · exact nofun

/-- New rows have new identifiers. -/
structure Grown (w w' : World) : Prop where
  nextId : w.nextId ≤ w'.nextId
  rows : ∀ row ∈ w'.rows, (∃ old ∈ w.rows, old.file.id = row.file.id ∧ old.userId = row.userId) ∨
    w.nextId ≤ row.file.id ∧ row.file.id < w'.nextId
  pending : ∀ row, w'.pending = some row → w.pending = some row ∨ w.nextId ≤ row.file.id

theorem Known.grown {f : Frame} (h : Known limits w f) (hg : Grown w w') : Known limits w' f := by
  constructor
  · exact h.read
  · intro file hf
    obtain ⟨hlt, hown⟩ := h.owner file hf
    refine ⟨lt_of_lt_of_le hlt hg.nextId, fun row hr hid => ?_⟩
    rcases hg.rows row hr with ⟨old, hold, hoid, hou⟩ | ⟨hnew, -⟩
    · rw [← hou]
      exact hown old hold (hoid.trans hid)
    · exact absurd hlt (Nat.not_lt.2 (hid ▸ hnew))
  · intro row hr hf
    rcases hg.pending row hr with hold | hnew
    · exact h.pending row hold hf
    · exact absurd (h.owner _ hf).1 (Nat.not_lt.2 hnew)
  · intro file a hf hd ha row hr hid
    rcases hg.rows row hr with ⟨old, hold, hoid, -⟩ | ⟨hnew, -⟩
    · exact h.cleaned file a hf hd ha old hold (hoid.trans hid)
    · exact absurd (h.owner _ hf).1 (Nat.not_lt.2 (hid ▸ hnew))

/-- Identifiers of rows are not handed out again. -/
def Numbered (w : World) : Prop := ∀ row ∈ w.rows, row.file.id < w.nextId

theorem Numbered.grown (h : Numbered w) (hg : Grown w w') : Numbered w' := by
  intro row hr
  rcases hg.rows row hr with ⟨old, hold, hoid, -⟩ | ⟨-, hlt⟩
  · exact hoid ▸ lt_of_lt_of_le (h old hold) hg.nextId
  · exact hlt

theorem Grown.refl (w : World) : Grown w w :=
  ⟨le_rfl, fun row hr => .inl ⟨row, hr, rfl, rfl⟩, fun _ hr => .inl hr⟩

theorem grown_shrink (hs : Shrinks w.files files') : Grown w { w with files := files' } := by
  refine ⟨le_rfl, fun row hr => ?_, fun _ hr => .inl hr⟩
  rcases List.mem_append.1 hr with hr | hr
  · obtain ⟨old, hold, hu, hid, -⟩ := hs.mem hr
    exact .inl ⟨old, List.mem_append_left _ hold, hid, hu⟩
  · exact .inl ⟨row, List.mem_append_right _ hr, rfl, rfl⟩

theorem grown_commit (w : World) : Grown w w.commit := by
  refine ⟨le_rfl, fun row hr => ?_, nofun⟩
  have hr' : row ∈ w.rows := by simpa [World.rows, World.commit] using hr
  exact .inl ⟨row, hr', rfl, rfl⟩

theorem grown_rollback (w : World) : Grown w w.rollback := by
  refine ⟨le_rfl, fun row hr => ?_, nofun⟩
  have hr' : row ∈ w.files := by simpa [World.rows, World.rollback] using hr
  exact .inl ⟨row, List.mem_append_left _ hr', rfl, rfl⟩

theorem grown_insert {row : OwnedFile} (hid : row.file.id = w.nextId) : Grown w (w.insert row) := by
  refine ⟨Nat.le_succ _, fun r hr => ?_, fun r hr => ?_⟩
  · rcases List.mem_append.1 hr with hr | hr
    · exact .inl ⟨r, List.mem_append_left _ hr, rfl, rfl⟩
    · have hrow : r = row := by simpa [World.insert] using hr
      subst hrow
      exact .inr ⟨le_of_eq hid.symm, hid ▸ Nat.lt_succ_self _⟩
  · cases hr
    exact .inr (le_of_eq hid.symm)

theorem Does.grown {o : Op} {a : o.Answer} (h : Does o w a w') : Grown w w' := by
  cases h with
  | verifyFileParent | begin | userUsedBytes | totalUsedBytes | put | fileDownload | deleteObject | accountObjectKeys => exact .refl w
  | lock => exact ⟨le_rfl, fun row hr => .inl ⟨row, hr, rfl, rfl⟩, fun _ hr => .inl hr⟩
  | insert => exact grown_insert rfl
  | commit => exact grown_commit w
  | deleteFileMetadata | deleteUser => exact grown_shrink (shrinks_filter _ _)
  | restoreLinks => exact grown_shrink (shrinks_relink w _)

theorem Step.grown {o : Op} {r : Except Failure o.Answer} (h : Step o w r w') : Grown w w' := by
  cases h with
  | does hd | lost hd => exact hd.grown
  | aborted => exact grown_rollback w
  | failed | noParent | notFound | noDownload | notStored | notDeleted => exact .refl w

theorem Release.grown {g : Guard} (h : Release g w w') : Grown w w' := by
  cases h with
  | rollback => exact grown_rollback w
  | commit => exact grown_commit w

theorem Idle.grown (h : Idle w w') : Grown w w' := by
  cases h with
  | relink => exact grown_shrink (shrinks_relink w _)

section Frames

variable {f g : Frame}

/-- Another answer to a deletion that has not run says nothing. -/
theorem Known.same (h : Known limits w f) (hs : SameReads f g)
    (hd : g.deletion = f.deletion ∨ ∃ file e, g.deletion = some (file, e) ∧ ¬ Ran e) : Known limits w g := by
  constructor
  · exact ⟨hs.userUsed ▸ h.read.user, hs.totalUsed ▸ h.read.total⟩
  · rw [hs.file, hs.user]
    exact h.owner
  · rw [hs.file, hs.guards]
    exact h.pending
  · intro file a hf hdel ha
    rw [hs.file] at hf
    rcases hd with hd | ⟨other, e, hd, he⟩
    · exact h.cleaned file a hf (hd ▸ hdel) ha
    · rw [hd] at hdel
      cases hdel
      exact absurd ha he

/-- The guards go with what was pending. -/
theorem Known.release (h : Known limits w f) (hg : Grown w w') (hp : w'.pending = none) (hu : g.user = f.user)
    (hr : g.userUsed = f.userUsed) (ht : g.totalUsed = f.totalUsed) (hf : g.file = f.file) (hd : g.deletion = f.deletion) :
    Known limits w' g := by
  have hk := h.grown hg
  constructor
  · exact ⟨hr ▸ hk.read.user, ht ▸ hk.read.total⟩
  · rw [hf, hu]
    exact hk.owner
  · intro row hrow
    rw [hp] at hrow
    cases hrow
  · rw [hf, hd]
    exact hk.cleaned

/-- No row of the user is left with the identifier. -/
theorem Known.delete (h : Known limits w f) {file : Uuid} {r : Except Failure String} (hguards : f.guards = [])
    (hgrown : Grown w w')
    (hgone : ∀ row ∈ w'.files, row.userId = f.user → row.file.id ≠ file) :
    Known limits w' { f with deletion := some (file, r) } := by
  have hk := h.grown hgrown
  refine ⟨⟨hk.read.user, hk.read.total⟩, hk.owner, hk.pending, fun id a hf hdel _ row hrow hid => ?_⟩
  cases hdel
  rcases List.mem_append.1 hrow with hrow' | hrow'
  · exact hgone row hrow' ((hk.owner _ hf).2 row hrow hid) hid
  · -- What is pending belongs to a transaction, and this request has none.
    have hp : w'.pending = some row := by simpa using hrow'
    have hlock := hk.pending row hp (hid ▸ hf)
    rw [hguards] at hlock
    cases hlock

/-- What is known of a frame after an operation. -/
theorem Known.act {o : Op} {r : Except Failure o.Answer} (hw : Within limits w.files) (hn : Numbered w) (h : Known limits w f)
    (hready : Ready limits f o) (hs : Step o w r w') : Known limits w' (f.after o r) := by
  have hself : SameReads f f := ⟨rfl, rfl, rfl, rfl, rfl, rfl⟩
  cases hs with
  | does hd =>
    cases hd with
    | verifyFileParent | begin | put | fileDownload | deleteObject | accountObjectKeys => exact h
    | lock => exact ⟨⟨h.read.user, h.read.total⟩, h.owner, fun _ _ _ => List.mem_cons_self, h.cleaned⟩
    | userUsedBytes =>
      obtain ⟨rfl, -⟩ := hready
      refine ⟨⟨fun n hn => ?_, h.read.total⟩, h.owner, h.pending, h.cleaned⟩
      cases hn
      exact ⟨hw.sized.usedBy_nonneg _, hw.user _⟩
    | totalUsedBytes =>
      refine ⟨⟨h.read.user, fun n hn => ?_⟩, h.owner, h.pending, h.cleaned⟩
      cases hn
      exact ⟨hw.sized.usedByAll_nonneg, hw.total⟩
    | insert =>
      obtain ⟨huser, hg, hdel, -⟩ := hready
      refine ⟨⟨h.read.user, h.read.total⟩, fun file hf => ?_, fun _ _ _ => ?_, fun _ _ _ hd => ?_⟩
      · cases hf
        refine ⟨Nat.lt_succ_self _, fun row hr hid => ?_⟩
        rcases List.mem_append.1 hr with hr | hr
        · have hlt := hn row (List.mem_append_left _ hr)
          rw [hid] at hlt
          exact absurd hlt (Nat.lt_irrefl _)
        · rw [List.mem_singleton.1 hr]
          exact huser
      · show Guard.lock ∈ f.guards
        rw [hg]
        exact List.mem_singleton_self _
      · exact absurd (hdel.symm.trans hd) nofun
    | commit => exact h.release (grown_commit w) rfl rfl rfl rfl rfl rfl
    | @deleteFileMetadata user file w row hrow hu hf =>
      obtain ⟨rfl, hg⟩ := hready
      refine h.delete hg (grown_shrink (shrinks_filter _ _)) fun row hr hu hid => ?_
      have hkeep := (List.mem_filter.1 hr).2
      simp [hu, hid] at hkeep
    | deleteUser => exact h.grown (grown_shrink (shrinks_filter _ _))
    | restoreLinks => exact h.grown (grown_shrink (shrinks_relink w _))
  | @failed o w e ho =>
    refine h.same (after_error ho _ f) ?_
    cases o with
    | deleteFileMetadata => exact .inr ⟨_, _, rfl, id⟩
    | _ => exact .inl rfl
  | aborted => exact h.release (grown_rollback w) rfl rfl rfl rfl rfl rfl
  | lost hd ho =>
    have hk := h.grown hd.grown
    cases hd with
    | lock => exact absurd rfl ho
    | commit => exact h.release (grown_commit w) rfl rfl rfl rfl rfl rfl
    | deleteFileMetadata => exact hk.same ⟨rfl, rfl, rfl, rfl, rfl, rfl⟩ (.inr ⟨_, _, rfl, id⟩)
    | _ => exact hk
  | noParent | noDownload | notStored | notDeleted => exact h
  | notFound hnone =>
    obtain ⟨rfl, hg⟩ := hready
    exact h.delete hg (.refl w) hnone

end Frames

end StorageQuota

end Prosepect
