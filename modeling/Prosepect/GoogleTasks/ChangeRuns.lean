/-
A change of a task that is committed leaves a pending job, which only a claim takes.
-/
import Prosepect.GoogleTasks.Changes

namespace Prosepect

open Time Resumption Table

namespace SyncJobRow

/-- The key of `google_tasks_pending_change_idx`. -/
def slot (j : SyncJobRow) : Option Uuid := if j.pendingChange j.userId then some j.userId else none

theorem slot_eq_some {j : SyncJobRow} {user : Uuid} : j.slot = some user ↔ j.pendingChange user = true := by
  unfold slot
  constructor
  · intro h
    split at h
    · obtain rfl := Option.some.inj h
      assumption
    · cases h
  · intro h
    have huser : j.userId = user := by
      simp only [pendingChange, Bool.and_eq_true, beq_iff_eq] at h
      exact h.1.1.1
    subst huser
    rw [if_pos h]

theorem pendingChange_status {j : SyncJobRow} {user : Uuid} (h : j.pendingChange user = true) :
    j.userId = user ∧ j.kind = "tasks_sync" ∧ j.status = .pending := by
  simp only [pendingChange, Bool.and_eq_true, beq_iff_eq] at h
  exact ⟨h.1.1.1, h.1.1.2, h.1.2⟩

end SyncJobRow

namespace GoogleTasks

namespace ChangeWorld

/-- The jobs that are committed and those that are not. -/
def rows (s : ChangeWorld) : List SyncJobRow := s.queue.jobs ++ s.open_.filterMap (·.inserted)

structure Inv (s : ChangeWorld) : Prop where
  ids : Unique (fun j : SyncJobRow => some j.id) s.rows
  slots : Unique SyncJobRow.slot s.rows
  used : ∀ j ∈ s.rows, j.id < s.queue.nextId
  inserted : ∀ t ∈ s.open_, ∀ r ∈ t.inserted, r.pendingChange t.user = true
  locked : ∀ t ∈ s.open_, ∀ id ∈ t.lockedJob, (∃ j ∈ s.queue.jobs, j.id = id ∧ j.pendingChange t.user = true) ∧ ¬s.WorkerLocks id
  asked : ∀ t ∈ s.open_, t.changed = true → t.upserting = false → t.inserted.isSome = true ∨ t.lockedJob.isSome = true
  quiet : ∀ t ∈ s.open_, t.connection = false → t.inserted = none ∧ t.upserting = false
  selected : ∀ w job start, s.workers w = .selected job start →
    ∃ j ∈ s.queue.jobs, j.id = job.id ∧ j.userId = job.userId ∧ j.kind = job.kind
  alone : ∀ v w id, (s.workers v).rowLock? = some id → (s.workers w).rowLock? = some id → v = w
  running : ∀ w job, s.workers w = .claimed job → ∃ j ∈ s.queue.jobs, j.id = job.id ∧ j.status ≠ .pending

section Inv

variable {s s' : ChangeWorld} {a b : List ChangeTx} {t t' : ChangeTx}

theorem mem_rows {j : SyncJobRow} (hj : j ∈ s.queue.jobs) : j ∈ s.rows := List.mem_append_left _ hj

theorem Inv.id_eq (h : s.Inv) {i j : SyncJobRow} (hi : i ∈ s.queue.jobs) (hj : j ∈ s.queue.jobs) (hid : i.id = j.id) : i = j :=
  h.ids.eq (mem_rows hi) (mem_rows hj) rfl (by rw [hid])

/-- Only the jobs of the queue are looked at by what does not touch the transactions. -/
theorem Inv.workers (h : s.Inv) {workers : Nat → Worker}
    (hlock : ∀ w id, (workers w).rowLock? = some id → (∃ v, (s.workers v).rowLock? = some id ∧ v = w) ∨
      (¬s.WorkerLocks id ∧ (∀ o ∈ s.open_, o.lockedJob ≠ some id) ∧ ∀ v, (workers v).rowLock? = some id → v = w))
    (hselected : ∀ w job start, workers w = .selected job start →
      ∃ j ∈ s.queue.jobs, j.id = job.id ∧ j.userId = job.userId ∧ j.kind = job.kind)
    (hrunning : ∀ w job, workers w = .claimed job → ∃ j ∈ s.queue.jobs, j.id = job.id ∧ j.status ≠ .pending) :
    Inv { s with workers := workers } where
  ids := h.ids
  slots := h.slots
  used := h.used
  inserted := h.inserted
  locked := by
    intro t ht id hid
    obtain ⟨hthere, hfree⟩ := h.locked t ht id hid
    refine ⟨hthere, fun ⟨w, hw⟩ => ?_⟩
    rcases hlock w id hw with ⟨v, hv, -⟩ | ⟨-, hother, -⟩
    · exact hfree ⟨v, hv⟩
    · exact hother t ht hid
  asked := h.asked
  quiet := h.quiet
  selected := hselected
  alone := by
    intro v w id hv hw
    rcases hlock w id hw with ⟨w', hw', rfl⟩ | ⟨hnone, -, honly⟩
    · rcases hlock v id hv with ⟨v', hv', rfl⟩ | ⟨hnone, -, -⟩
      · exact h.alone v' w' id hv' hw'
      · exact absurd ⟨w', hw'⟩ hnone
    · exact honly v hv
  running := hrunning

/-- A worker that lets go of what it holds, or begins. -/
theorem Inv.release (h : s.Inv) (w : Nat) {to_ : Worker} (hto : to_.job? = none) : (s.move w to_).Inv := by
  have hworkers : ∀ v, Function.update s.workers w to_ v = s.workers v ∨ Function.update s.workers w to_ v = to_ := by
    intro v
    by_cases hv : v = w
    · subst hv
      exact .inr (Function.update_self _ _ _)
    · exact .inl (Function.update_of_ne hv _ _)
  have hnone : to_.rowLock? = none := by
    cases to_ <;> simp_all [Worker.job?, Worker.rowLock?]
  refine h.workers (fun v id hv => ?_) (fun v job start hv => ?_) fun v job hv => ?_
  · rcases hworkers v with hsame | hmoved
    · exact .inl ⟨v, hsame ▸ hv, rfl⟩
    · rw [hmoved, hnone] at hv
      cases hv
  · rcases hworkers v with hsame | hmoved
    · exact h.selected v job start (hsame ▸ hv)
    · rw [hmoved] at hv
      rw [hv] at hto
      cases hto
  · rcases hworkers v with hsame | hmoved
    · exact h.running v job (hsame ▸ hv)
    · rw [hmoved] at hv
      rw [hv] at hto
      cases hto

theorem Inv.select (h : s.Inv) {w : Nat} {start : DateTime} {row : SyncJobRow} (hrow : row ∈ s.queue.jobs)
    (hfree : ¬s.WorkerLocks row.id) (hother : ∀ o ∈ s.open_, o.lockedJob ≠ some row.id) :
    (s.move w (.selected row.claimed start)).Inv := by
  have hworkers : ∀ v, v ≠ w → Function.update s.workers w (.selected row.claimed start) v = s.workers v :=
    fun v hv => Function.update_of_ne hv _ _
  have hself : Function.update s.workers w (.selected row.claimed start) w = .selected row.claimed start :=
    Function.update_self _ _ _
  have honly : ∀ v, (Function.update s.workers w (.selected row.claimed start) v).rowLock? = some row.id → v = w := by
    intro v hv
    by_contra hne
    rw [hworkers v hne] at hv
    exact hfree ⟨v, hv⟩
  refine h.workers (fun v id hv => ?_) (fun v job start' hv => ?_) fun v job hv => ?_
  · by_cases hvw : v = w
    · subst hvw
      rw [hself] at hv
      obtain rfl : row.id = id := Option.some.inj hv
      exact .inr ⟨hfree, hother, honly⟩
    · exact .inl ⟨v, hworkers v hvw ▸ hv, rfl⟩
  · by_cases hvw : v = w
    · subst hvw
      rw [hself] at hv
      cases hv
      exact ⟨row, hrow, rfl, rfl, rfl⟩
    · exact h.selected v job start' (hworkers v hvw ▸ hv)
  · by_cases hvw : v = w
    · subst hvw
      rw [hself] at hv
      cases hv
    · exact h.running v job (hworkers v hvw ▸ hv)

end Inv

/-! ## Jobs -/

/-- Rows of the first part that lose their key, or keep it. -/
theorem unique_map_append {α κ : Type} {key : α → Option κ} {l m : List α} {g : α → α} (h : Unique key (l ++ m))
    (hg : ∀ r, key (g r) = key r ∨ key (g r) = none) : Unique key (l.map g ++ m) := by
  obtain ⟨hl, hm, hacross⟩ := List.pairwise_append.1 h
  have hweak : ∀ r k, (key r = none ∨ key r ≠ k) → key (g r) = none ∨ key (g r) ≠ k := by
    intro r k hr
    rcases hg r with heq | hnone
    · rw [heq]
      exact hr
    · exact .inl hnone
  refine List.pairwise_append.2 ⟨List.pairwise_map.2 (hl.imp fun {x y} hxy => ?_), hm, fun x hx y hy => ?_⟩
  · rcases hg y with heq | hnone
    · rw [heq]
      exact hweak x _ hxy
    · by_cases hx : key (g x) = none
      · exact .inl hx
      · exact .inr fun heq => hx (heq.trans hnone)
  · obtain ⟨r, hr, rfl⟩ := List.mem_map.1 hx
    exact hweak r _ (hacross r hr y hy)

section Inv

variable {s s' : ChangeWorld} {a b : List ChangeTx} {t t' : ChangeTx}

/-- A job that no transaction has locked gets a status other than pending. -/
theorem Inv.updateJob (h : s.Inv) {id : Uuid} {f : SyncJobRow → SyncJobRow} (hlock : ∀ t ∈ s.open_, t.lockedJob ≠ some id)
    (hf : ∀ j, (f j).id = j.id ∧ (f j).userId = j.userId ∧ (f j).kind = j.kind ∧ (f j).status ≠ .pending) :
    (s.withJobs (·.updateJob id f)).Inv := by
  have hmem : ∀ j ∈ s.queue.jobs, (j.id ≠ id ∧ j ∈ (s.queue.updateJob id f).jobs) ∨ f j ∈ (s.queue.updateJob id f).jobs := by
    intro j hj
    by_cases hid : j.id = id
    · exact .inr (mem_update.2 (.inr ⟨j, hj, by simpa using hid, rfl⟩))
    · exact .inl ⟨hid, mem_update.2 (.inl ⟨hj, by simpa using hid⟩)⟩
  refine ⟨?_, ?_, fun j hj => ?_, h.inserted, fun t ht k hk => ?_, h.asked, h.quiet, fun w job start hw => ?_, h.alone, fun w job hw => ?_⟩
  · refine unique_map_append h.ids fun r => .inl ?_
    split
    · rw [(hf r).1]
    · rfl
  · refine unique_map_append h.slots fun r => ?_
    split
    · refine .inr ?_
      unfold SyncJobRow.slot
      rw [if_neg fun hpending => (hf r).2.2.2 (SyncJobRow.pendingChange_status hpending).2.2]
    · exact .inl rfl
  · show j.id < s.queue.nextId
    rcases List.mem_append.1 hj with hj | hj
    · rcases mem_update.1 hj with ⟨hj, -⟩ | ⟨i, hi, -, rfl⟩
      · exact h.used j (mem_rows hj)
      · rw [(hf i).1]
        exact h.used i (mem_rows hi)
    · exact h.used j (List.mem_append_right _ hj)
  · obtain ⟨⟨j, hj, hid, hpending⟩, hfree⟩ := h.locked t ht k hk
    refine ⟨⟨j, ?_, hid, hpending⟩, hfree⟩
    refine mem_update.2 (.inl ⟨hj, ?_⟩)
    have hne : j.id ≠ id := fun heq => hlock t ht (by rw [← heq, hid]; exact hk)
    simpa using hne
  · obtain ⟨j, hj, hid, huser, hkind⟩ := h.selected w job start hw
    rcases hmem j hj with ⟨-, hj⟩ | hj
    · exact ⟨j, hj, hid, huser, hkind⟩
    · exact ⟨f j, hj, by rw [(hf j).1, hid], by rw [(hf j).2.1, huser], by rw [(hf j).2.2.1, hkind]⟩
  · obtain ⟨j, hj, hid, hstatus⟩ := h.running w job hw
    rcases hmem j hj with ⟨-, hj⟩ | hj
    · exact ⟨j, hj, hid, hstatus⟩
    · exact ⟨f j, hj, by rw [(hf j).1, hid], (hf j).2.2.2⟩

theorem claim_row (now : DateTime) (j : SyncJobRow) : (j.claim now).id = j.id ∧ (j.claim now).userId = j.userId ∧
    (j.claim now).kind = j.kind ∧ (j.claim now).status ≠ .pending :=
  ⟨rfl, rfl, rfl, nofun⟩

theorem complete_row (now : DateTime) (j : SyncJobRow) : (j.complete now).id = j.id ∧ (j.complete now).userId = j.userId ∧
    (j.complete now).kind = j.kind ∧ (j.complete now).status ≠ .pending :=
  ⟨rfl, rfl, rfl, nofun⟩

theorem fail_row (attempts : Nat) (error : String) (now : DateTime) (j : SyncJobRow) :
    (j.fail attempts error now).id = j.id ∧ (j.fail attempts error now).userId = j.userId ∧
      (j.fail attempts error now).kind = j.kind ∧ (j.fail attempts error now).status ≠ .pending :=
  ⟨rfl, rfl, rfl, nofun⟩

theorem Inv.claim (h : s.Inv) {w : Nat} {start : DateTime} {job : ClaimedSyncJob} (hw : s.workers w = .selected job start) :
    ((s.withJobs (·.updateJob job.id (.claim start))).move w (.claimed job)).Inv := by
  have hlocks : s.WorkerLocks job.id := ⟨w, by rw [hw]; rfl⟩
  have hupdated := h.updateJob (f := .claim start) (fun t ht hlock => (h.locked t ht job.id hlock).2 hlocks) (claim_row start)
  obtain ⟨j, hj, hid, -, -⟩ := h.selected w job start hw
  have hclaimed : j.claim start ∈ (s.queue.updateJob job.id (.claim start)).jobs :=
    mem_update.2 (.inr ⟨j, hj, by simpa using hid, rfl⟩)
  have hworkers : ∀ v, v ≠ w → Function.update s.workers w (.claimed job) v = s.workers v :=
    fun v hv => Function.update_of_ne hv _ _
  have hself : Function.update s.workers w (.claimed job) w = .claimed job := Function.update_self _ _ _
  refine hupdated.workers (fun v id hv => ?_) (fun v k start' hv => ?_) fun v k hv => ?_
  · by_cases hvw : v = w
    · subst hvw
      rw [show (s.withJobs _).workers = s.workers from rfl, hself] at hv
      cases hv
    · exact .inl ⟨v, hworkers v hvw ▸ hv, rfl⟩
  · by_cases hvw : v = w
    · subst hvw
      rw [show (s.withJobs _).workers = s.workers from rfl, hself] at hv
      cases hv
    · exact hupdated.selected v k start' (hworkers v hvw ▸ hv)
  · by_cases hvw : v = w
    · subst hvw
      rw [show (s.withJobs _).workers = s.workers from rfl, hself] at hv
      cases hv
      exact ⟨_, hclaimed, hid, nofun⟩
    · exact hupdated.running v k (hworkers v hvw ▸ hv)

/-- A job that runs is not one that a transaction has locked. -/
theorem Inv.settle (h : s.Inv) {w : Nat} {job : ClaimedSyncJob} {f : SyncJobRow → SyncJobRow} (hw : s.workers w = .claimed job)
    (hf : ∀ j, (f j).id = j.id ∧ (f j).userId = j.userId ∧ (f j).kind = j.kind ∧ (f j).status ≠ .pending) :
    ((s.withJobs (·.updateJob job.id f)).move w .idle).Inv := by
  obtain ⟨j, hj, hid, hstatus⟩ := h.running w job hw
  refine (h.updateJob (fun t ht hlock => ?_) hf).release w rfl
  obtain ⟨⟨i, hi, hid', hpending⟩, -⟩ := h.locked t ht job.id hlock
  rw [h.id_eq hi hj (hid'.trans hid.symm)] at hpending
  exact hstatus (SyncJobRow.pendingChange_status hpending).2.2

/-! ## Transactions -/

theorem mem_split (hs : s.open_ = a ++ t :: b) : t ∈ s.open_ := hs ▸ List.mem_append_right _ List.mem_cons_self

theorem mem_others (hs : s.open_ = a ++ t :: b) {o : ChangeTx} (ho : o ∈ a ++ b) : o ∈ s.open_ := by
  rw [hs]
  rcases List.mem_append.1 ho with ho | ho
  · exact List.mem_append_left _ ho
  · exact List.mem_append_right _ (List.mem_cons_of_mem _ ho)

theorem mem_goOn {o : ChangeTx} (ho : o ∈ a ++ t' :: b) : o = t' ∨ o ∈ a ++ b := by
  rcases List.mem_append.1 ho with ho | ho
  · exact .inr (List.mem_append_left _ ho)
  · rcases List.mem_cons.1 ho with rfl | ho
    · exact .inl rfl
    · exact .inr (List.mem_append_right _ ho)

/-- A transaction goes on without a new job. -/
theorem Inv.goOn (h : s.Inv) (hs : s.open_ = a ++ t :: b) (hinserted : t'.inserted = t.inserted) (huser : t'.user = t.user)
    (hlocked : ∀ id ∈ t'.lockedJob, (∃ j ∈ s.queue.jobs, j.id = id ∧ j.pendingChange t.user = true) ∧ ¬s.WorkerLocks id)
    (hasked : t'.changed = true → t'.upserting = false → t'.inserted.isSome = true ∨ t'.lockedJob.isSome = true)
    (hquiet : t'.connection = true) : (s.goOn a b t').Inv := by
  have hrows : (s.goOn a b t').rows = s.rows := by
    unfold rows ChangeWorld.goOn
    rw [hs, List.filterMap_append, List.filterMap_append, List.filterMap_cons, List.filterMap_cons, hinserted]
  refine ⟨hrows ▸ h.ids, hrows ▸ h.slots, hrows ▸ h.used, fun o ho => ?_, fun o ho => ?_, fun o ho => ?_, fun o ho => ?_,
    h.selected, h.alone, h.running⟩
  · rcases mem_goOn ho with rfl | ho
    · rw [hinserted, huser]
      exact h.inserted t (mem_split hs)
    · exact h.inserted o (mem_others hs ho)
  · rcases mem_goOn ho with rfl | ho
    · rw [huser]
      exact hlocked
    · exact h.locked o (mem_others hs ho)
  · rcases mem_goOn ho with rfl | ho
    · exact hasked
    · exact h.asked o (mem_others hs ho)
  · rcases mem_goOn ho with rfl | ho
    · intro hno
      rw [hquiet] at hno
      cases hno
    · exact h.quiet o (mem_others hs ho)

theorem rows_commit_perm (hs : s.open_ = a ++ t :: b) : (s.commit a b t).rows.Perm s.rows := by
  unfold rows ChangeWorld.commit
  rw [hs, List.append_assoc]
  refine List.Perm.append_left _ ?_
  rw [List.filterMap_append, List.filterMap_append, List.filterMap_cons]
  cases t.inserted with
  | none => exact .refl _
  | some r =>
    show (r :: (a.filterMap _ ++ b.filterMap _)).Perm (a.filterMap _ ++ r :: b.filterMap _)
    exact List.perm_middle.symm

theorem Inv.commit (h : s.Inv) (hs : s.open_ = a ++ t :: b) : (s.commit a b t).Inv := by
  have hperm := rows_commit_perm hs
  have hold : ∀ {j}, j ∈ s.queue.jobs → j ∈ (s.commit a b t).queue.jobs := fun hj => List.mem_append_left _ hj
  refine ⟨h.ids.perm hperm.symm, h.slots.perm hperm.symm, fun j hj => h.used j (hperm.mem_iff.1 hj),
    fun o ho => h.inserted o (mem_others hs ho), fun o ho id hid => ?_, fun o ho => h.asked o (mem_others hs ho),
    fun o ho => h.quiet o (mem_others hs ho), fun w job start hw => ?_, h.alone, fun w job hw => ?_⟩
  · obtain ⟨⟨j, hj, hthere⟩, hfree⟩ := h.locked o (mem_others hs ho) id hid
    exact ⟨⟨j, hold hj, hthere⟩, hfree⟩
  · obtain ⟨j, hj, hthere⟩ := h.selected w job start hw
    exact ⟨j, hold hj, hthere⟩
  · obtain ⟨j, hj, hthere⟩ := h.running w job hw
    exact ⟨j, hold hj, hthere⟩

theorem Inv.rollback (h : s.Inv) (hs : s.open_ = a ++ t :: b) : Inv { s with open_ := a ++ b } := by
  have hsub : (s.queue.jobs ++ (a ++ b).filterMap (·.inserted)).Sublist s.rows := by
    unfold rows
    rw [hs]
    refine List.Sublist.append_left (List.Sublist.filterMap _ ?_) _
    exact List.Sublist.append_left (List.sublist_cons_self t b) a
  exact ⟨h.ids.sublist hsub, h.slots.sublist hsub, fun j hj => h.used j (hsub.subset hj),
    fun o ho => h.inserted o (mem_others hs ho), fun o ho => h.locked o (mem_others hs ho),
    fun o ho => h.asked o (mem_others hs ho), fun o ho => h.quiet o (mem_others hs ho), h.selected, h.alone, h.running⟩

/-- A job under the next id, committed or not. -/
theorem Inv.insertRow (h : s.Inv) {j : SyncJobRow} (hid : j.id = s.queue.nextId)
    (hslot : ∀ user, j.pendingChange user = true → ∀ r ∈ s.rows, r.pendingChange user = false) :
    Unique (fun j : SyncJobRow => some j.id) (s.rows ++ [j]) ∧ Unique SyncJobRow.slot (s.rows ++ [j]) ∧
      ∀ r ∈ s.rows ++ [j], r.id < s.queue.nextId + 1 := by
  refine ⟨h.ids.insert fun k hk r hr heq => ?_, h.slots.insert fun user huser r hr heq => ?_, fun r hr => ?_⟩
  · have hused := h.used r hr
    have hsame : r.id = j.id := Option.some.inj (heq.trans hk.symm)
    rw [hsame, hid] at hused
    exact lt_irrefl _ hused
  · rw [SyncJobRow.slot_eq_some] at huser heq
    rw [hslot user huser r hr] at heq
    cases heq
  · rcases List.mem_append.1 hr with hr | hr
    · exact Nat.lt_succ_of_lt (h.used r hr)
    · rw [List.mem_singleton.1 hr, hid]
      exact Nat.lt_succ_self _

end Inv

/-! ## Steps -/

section Steps

variable {s s' : ChangeWorld}

theorem Inv.enqueue (h : s.Inv) {user : Uuid} {calendar : Option Uuid} {kind key : String} {available : DateTime} {q : Queue}
    (hq : s.queue.insert (s.queue.queue user calendar kind key available) = .ok q)
    (hfree : ∀ o ∈ s.open_, ∀ r ∈ o.inserted, (s.queue.queue user calendar kind key available).pendingChange r.userId = false) :
    Inv { s with queue := q } := by
  have hnew : q = { s.queue with
      jobs := s.queue.jobs ++ [s.queue.queue user calendar kind key available]
      nextId := s.queue.nextId + 1 } := Queue.insert_ok hq
  have hslot : ∀ v, (s.queue.queue user calendar kind key available).pendingChange v = true →
      ∀ r ∈ s.rows, r.pendingChange v = false := by
    intro v hv r hr
    obtain rfl : user = v := (SyncJobRow.pendingChange_status hv).1
    rcases List.mem_append.1 hr with hr | hr
    · by_contra hpending
      unfold Queue.insert at hq
      rw [if_pos] at hq
      · cases hq
      · rw [Bool.and_eq_true, List.any_eq_true]
        have hyes : r.pendingChange user = true := by simpa using hpending
        exact ⟨hv, r, hr, hyes⟩
    · obtain ⟨o, ho, hor⟩ := List.mem_filterMap.1 hr
      by_contra hpending
      have huser := (SyncJobRow.pendingChange_status (by simpa using hpending)).1
      have hno := hfree o ho r hor
      rw [huser, hv] at hno
      cases hno
  subst hnew
  obtain ⟨hids, hslots, hused⟩ := h.insertRow rfl hslot
  have hperm : (s.rows ++ [s.queue.queue user calendar kind key available]).Perm
      ((s.queue.jobs ++ [s.queue.queue user calendar kind key available]) ++ s.open_.filterMap (·.inserted)) := by
    unfold rows
    rw [List.append_assoc, List.append_assoc]
    exact List.Perm.append_left _ List.perm_append_comm
  have hold : ∀ {j}, j ∈ s.queue.jobs → j ∈ s.queue.jobs ++ [s.queue.queue user calendar kind key available] :=
    fun hj => List.mem_append_left _ hj
  refine ⟨hids.perm hperm, hslots.perm hperm, fun j hj => hused j (hperm.mem_iff.2 hj), h.inserted, fun o ho id hid => ?_,
    h.asked, h.quiet, fun w job start hw => ?_, h.alone, fun w job hw => ?_⟩
  · obtain ⟨⟨j, hj, hthere⟩, hlocks⟩ := h.locked o ho id hid
    exact ⟨⟨j, hold hj, hthere⟩, hlocks⟩
  · obtain ⟨j, hj, hthere⟩ := h.selected w job start hw
    exact ⟨j, hold hj, hthere⟩
  · obtain ⟨j, hj, hthere⟩ := h.running w job hw
    exact ⟨j, hold hj, hthere⟩

/-- The key of the index, of a job that has it. -/
theorem pendingChange_queued (q : Queue) (user v : Uuid) (calendar : Option Uuid) (kind key : String) (available : DateTime)
    (h : (q.queue user calendar kind key available).pendingChange v = true) : user = v :=
  (SyncJobRow.pendingChange_status h).1

theorem startsWith_append (p t : String) : Text.startsWith (p ++ t) p = true := by
  unfold Text.startsWith
  rw [String.toList_append]
  exact List.isPrefixOf_iff_prefix.2 (List.prefix_append _ _)

theorem Inv.insertJob (h : s.Inv) {a b : List ChangeTx} {t : ChangeTx} (key : String) (hs : s.open_ = a ++ t :: b)
    (hconnection : t.connection = true) (hnone : t.inserted = none) (hfree : ∀ row ∈ s.queue.jobs, row.pendingChange t.user = false)
    (hothers : ∀ o ∈ a ++ b, ∀ r ∈ o.inserted, r.userId ≠ t.user) :
    Inv { s.goOn a b { t with
        upserting := false
        inserted := some (s.queue.queue t.user none "tasks_sync" ("tasks-change:" ++ key) s.queue.now) } with
      queue := { s.queue with nextId := s.queue.nextId + 1 } } := by
  have hpending : (s.queue.queue t.user none "tasks_sync" ("tasks-change:" ++ key) s.queue.now).pendingChange t.user = true := by
    simp [SyncJobRow.pendingChange, Queue.queue, SyncJobRow.queued, startsWith_append]
  have hslot : ∀ v, (s.queue.queue t.user none "tasks_sync" ("tasks-change:" ++ key) s.queue.now).pendingChange v = true →
      ∀ r ∈ s.rows, r.pendingChange v = false := by
    intro v hv r hr
    obtain rfl := pendingChange_queued _ _ _ _ _ _ _ hv
    rcases List.mem_append.1 hr with hr | hr
    · exact hfree r hr
    · obtain ⟨o, ho, hor⟩ := List.mem_filterMap.1 hr
      rw [hs] at ho
      rcases mem_goOn ho with rfl | ho
      · rw [hnone] at hor
        cases hor
      · by_contra hyes
        exact hothers o ho r hor (SyncJobRow.pendingChange_status (by simpa using hyes)).1
  obtain ⟨hids, hslots, hused⟩ := h.insertRow rfl hslot
  have hperm : (s.rows ++ [s.queue.queue t.user none "tasks_sync" ("tasks-change:" ++ key) s.queue.now]).Perm
      (s.queue.jobs ++ (a ++ { t with
        upserting := false
        inserted := some (s.queue.queue t.user none "tasks_sync" ("tasks-change:" ++ key) s.queue.now) } :: b).filterMap
          (·.inserted)) := by
    unfold rows
    rw [hs, List.append_assoc]
    refine List.Perm.append_left _ ?_
    simp only [List.filterMap_append, List.filterMap_cons, hnone, List.append_assoc]
    exact List.Perm.append_left _ (List.perm_append_singleton _ _)
  refine ⟨hids.perm hperm, hslots.perm hperm, fun j hj => hused j (hperm.mem_iff.2 hj), fun o ho => ?_, fun o ho => ?_,
    fun o ho => ?_, fun o ho => ?_, h.selected, h.alone, h.running⟩
  · rcases mem_goOn ho with rfl | ho
    · intro r hr
      obtain rfl := Option.some.inj hr
      exact hpending
    · exact h.inserted o (mem_others hs ho)
  · rcases mem_goOn ho with rfl | ho
    · exact h.locked t (mem_split hs)
    · exact h.locked o (mem_others hs ho)
  · rcases mem_goOn ho with rfl | ho
    · exact fun _ _ => .inl rfl
    · exact h.asked o (mem_others hs ho)
  · rcases mem_goOn ho with rfl | ho
    · intro hno
      rw [hconnection] at hno
      cases hno
    · exact h.quiet o (mem_others hs ho)

theorem Inv.connection (h : s.Inv) {t : ChangeTx} (ht : t ∈ s.open_) (hupserting : t.upserting = true) : t.connection = true := by
  by_contra hno
  rw [(h.quiet t ht (by simpa using hno)).2] at hupserting
  cases hupserting

theorem Inv.step (h : s.Inv) (hstep : Step s s') : s'.Inv := by
  cases hstep with
  | tick now _ => exact ⟨h.ids, h.slots, h.used, h.inserted, h.locked, h.asked, h.quiet, h.selected, h.alone, h.running⟩
  | enqueue hq hfree => exact h.enqueue hq hfree
  | connect on _ => exact ⟨h.ids, h.slots, h.used, h.inserted, h.locked, h.asked, h.quiet, h.selected, h.alone, h.running⟩
  | start user =>
    refine ⟨h.ids, h.slots, h.used, fun o ho => ?_, fun o ho => ?_, fun o ho => ?_, fun o ho => ?_, h.selected, h.alone,
      h.running⟩
    · rcases List.mem_cons.1 ho with rfl | ho
      · exact fun _ hr => absurd hr (Option.not_mem_none _)
      · exact h.inserted o ho
    · rcases List.mem_cons.1 ho with rfl | ho
      · exact fun _ hid => absurd hid (Option.not_mem_none _)
      · exact h.locked o ho
    · rcases List.mem_cons.1 ho with rfl | ho
      · exact fun hchanged => absurd hchanged Bool.false_ne_true
      · exact h.asked o ho
    · rcases List.mem_cons.1 ho with rfl | ho
      · exact fun _ => ⟨rfl, rfl⟩
      · exact h.quiet o ho
  | pass => exact h
  | @change a b t old new hs _ _ _ _ =>
    exact h.goOn (t := t) hs rfl rfl (h.locked t (mem_split hs)) (fun _ hready => absurd hready (Ne.symm Bool.false_ne_true)) rfl
  | @finish a b t followUp hs hready _ =>
    refine h.goOn (t := t) hs rfl rfl (h.locked t (mem_split hs)) (fun hchanged _ => ?_) rfl
    exact h.asked t (mem_split hs) hchanged hready
  | @lockJob a b t row hs hupserting hrow hpending hfree _ =>
    have hconnection : t.connection = true := h.connection (mem_split hs) hupserting
    refine h.goOn (t := t) hs rfl rfl (fun id hid => ?_) (fun _ _ => .inr rfl) hconnection
    obtain rfl := Option.some.inj hid
    exact ⟨⟨row, hrow, rfl, hpending⟩, hfree⟩
  | @keepJob a b t hs hupserting hthere =>
    have hconnection : t.connection = true := h.connection (mem_split hs) hupserting
    exact h.goOn (t := t) hs rfl rfl (h.locked t (mem_split hs)) (fun _ _ => .inl hthere) hconnection
  | insertJob key hs hupserting hnone hfree hothers =>
    exact h.insertJob key hs (h.connection (mem_split hs) hupserting) hnone hfree hothers
  | commit hs _ => exact h.commit hs
  | rollback hs => exact h.rollback hs
  | begin w _ => exact h.release w rfl
  | select _ hrow _ hfree hother => exact h.select hrow hfree hother
  | none _ => exact h.release _ rfl
  | claim hw =>
    have hclaimed := h.claim hw
    exact ⟨hclaimed.ids, hclaimed.slots, hclaimed.used, hclaimed.inserted, hclaimed.locked, hclaimed.asked, hclaimed.quiet,
      hclaimed.selected, hclaimed.alone, hclaimed.running⟩
  | complete hw => exact h.settle hw (complete_row _)
  | fail error hw => exact h.settle hw (fail_row _ _ _)
  | crash w => exact h.release w rfl

/-- A pending job of the changes stays so until it is claimed. -/
theorem Inv.job_stays (h : s.Inv) (hstep : Step s s') {j : SyncJobRow} {user : Uuid} (hj : j ∈ s.queue.jobs)
    (hpending : j.pendingChange user = true) :
    j ∈ s'.queue.jobs ∨ s'.log = .claimed j.id user "tasks_sync" :: s.log := by
  obtain ⟨huser, hkind, hstatus⟩ := SyncJobRow.pendingChange_status hpending
  have hother : ∀ {id : Uuid} {f : SyncJobRow → SyncJobRow}, j.id ≠ id → j ∈ (s.queue.updateJob id f).jobs := fun hne =>
    mem_update.2 (.inl ⟨hj, by simpa using hne⟩)
  have hsettled : ∀ {w : Nat} {job : ClaimedSyncJob}, s.workers w = .claimed job → j.id ≠ job.id := by
    intro w job hw heq
    obtain ⟨i, hi, hid, hnot⟩ := h.running w job hw
    rw [h.id_eq hi hj (hid.trans heq.symm)] at hnot
    exact hnot hstatus
  cases hstep with
  | @claim w start job hw =>
    by_cases hid : j.id = job.id
    · right
      obtain ⟨i, hi, hid', huser', hkind'⟩ := h.selected w job start hw
      obtain rfl := h.id_eq hi hj (hid'.trans hid.symm)
      show ChangeEvent.claimed job.id job.userId job.kind :: s.log = _
      rw [← hid', ← huser', ← hkind', huser, hkind]
    · exact .inl (hother hid)
  | complete hw => exact .inl (hother (hsettled hw))
  | fail error hw => exact .inl (hother (hsettled hw))
  | enqueue hq _ =>
    rw [Queue.insert_ok hq]
    exact .inl (List.mem_append_left _ hj)
  | commit hs _ => exact .inl (List.mem_append_left _ hj)
  | tick | connect | start | pass | change | finish | lockJob | keepJob | insertJob | rollback | begin | select | none | crash =>
    exact .inl hj

/-- A commit of a change leaves a pending job. -/
theorem Inv.committed (h : s.Inv) (hstep : Step s s') {user : Uuid} (hlog : s'.log = .committed user :: s.log) :
    ∃ j ∈ s'.queue.jobs, j.pendingChange user = true := by
  have hself : ∀ e : ChangeEvent, s.log ≠ e :: s.log := fun e heq => List.cons_ne_self e s.log heq.symm
  cases hstep with
  | @commit a b t hs hready =>
    unfold ChangeWorld.commit at hlog
    dsimp only at hlog
    split at hlog
    · rename_i hchanged
      obtain rfl : t.user = user := by
        have hhead := (List.cons.inj hlog).1
        exact ChangeEvent.committed.inj hhead
      rcases h.asked t (mem_split hs) hchanged hready with hinserted | hlocked
      · obtain ⟨r, hr⟩ := Option.isSome_iff_exists.1 hinserted
        refine ⟨r, List.mem_append_right _ ?_, h.inserted t (mem_split hs) r hr⟩
        rw [hr]
        exact List.mem_singleton_self r
      · obtain ⟨id, hid⟩ := Option.isSome_iff_exists.1 hlocked
        obtain ⟨⟨j, hj, -, hpending⟩, -⟩ := h.locked t (mem_split hs) id hid
        exact ⟨j, List.mem_append_left _ hj, hpending⟩
    · exact absurd hlog (hself _)
  | claim _ => cases hlog
  | tick | enqueue | connect | start | pass | change | finish | lockJob | keepJob | insertJob | rollback | begin | select
  | none | complete | fail | crash => exact absurd hlog (hself _)

theorem inv_initial (now : DateTime) : (initial now).Inv where
  ids := .nil _
  slots := .nil _
  used := fun _ hj => absurd hj List.not_mem_nil
  inserted := fun _ ht => absurd ht List.not_mem_nil
  locked := fun _ ht => absurd ht List.not_mem_nil
  asked := fun _ ht => absurd ht List.not_mem_nil
  quiet := fun _ ht => absurd ht List.not_mem_nil
  selected := fun _ _ _ hw => Worker.noConfusion hw
  alone := fun _ _ _ hv => absurd hv (by simp [initial, Worker.rowLock?])
  running := fun _ _ hw => Worker.noConfusion hw

end Steps

/-! ## Runs -/

/-- Steps one after the other, with pauses. -/
structure Execution (now : DateTime) (run : Nat → ChangeWorld) : Prop where
  start : run 0 = initial now
  step : ∀ n, Step (run n) (run (n + 1)) ∨ run (n + 1) = run n

/-- Workers go on: no job stays pending for ever. -/
def Fair (run : Nat → ChangeWorld) : Prop :=
  ∀ n, ∀ j ∈ (run n).queue.jobs, j.status = .pending → ∃ m, n ≤ m ∧ ∀ i ∈ (run m).queue.jobs, i.id = j.id → i.status ≠ .pending

section Runs

variable {now : DateTime} {run : Nat → ChangeWorld}

theorem Execution.inv (h : Execution now run) (n : Nat) : (run n).Inv := by
  induction n with
  | zero =>
    rw [h.start]
    exact inv_initial now
  | succ n ih =>
    rcases h.step n with hstep | hpause
    · exact ih.step hstep
    · rw [hpause]
      exact ih

/-- A pending job of the changes is there at each later time, or it has been claimed meanwhile. -/
theorem Execution.job_stays (h : Execution now run) {n : Nat} {j : SyncJobRow} {user : Uuid} (hj : j ∈ (run n).queue.jobs)
    (hpending : j.pendingChange user = true) (k : Nat) : j ∈ (run (n + k)).queue.jobs ∨
      ∃ m, n ≤ m ∧ m < n + k ∧ (run (m + 1)).log = .claimed j.id user "tasks_sync" :: (run m).log := by
  induction k with
  | zero => exact .inl hj
  | succ k ih =>
    rcases ih with hthere | ⟨m, hle, hlt, hclaimed⟩
    · rcases h.step (n + k) with hstep | hpause
      · rcases (h.inv (n + k)).job_stays hstep hthere hpending with hstill | hclaimed
        · exact .inl hstill
        · exact .inr ⟨n + k, by omega, by omega, hclaimed⟩
      · rw [← Nat.add_assoc, hpause]
        exact .inl hthere
    · exact .inr ⟨m, hle, by omega, hclaimed⟩

/-- Under any interleaving, a committed change of a shared column is followed by a claim of a job
that synchronizes Google Tasks, whose worker reads after the commit; at no time have the committed
and the open transactions two pending jobs of one user between them; and a transaction that has
changed no shared column leaves the jobs as they are, so does one that is rolled back, as nobody
has seen its job. -/
theorem change_claimed (h : Execution now run) (hfair : Fair run) :
    (∀ n user, (run (n + 1)).log = .committed user :: (run n).log →
      ∃ m job, n < m ∧ (run (m + 1)).log = .claimed job user "tasks_sync" :: (run m).log) ∧
    (∀ n user, ∀ i ∈ (run n).rows, ∀ j ∈ (run n).rows, i.pendingChange user = true → j.pendingChange user = true → i = j) ∧
    ∀ n a t b, (run n).open_ = a ++ t :: b →
      (t.connection = false → ((run n).commit a b t).queue.jobs = (run n).queue.jobs) ∧
      ∀ r ∈ t.inserted, ∀ j ∈ (run n).queue.jobs, j.id ≠ r.id := by
  refine ⟨fun n user hlog => ?_, fun n user i hi j hj hpi hpj => ?_, fun n a t b hs => ⟨fun hquiet => ?_, fun r hr j hj hid => ?_⟩⟩
  · rcases h.step n with hstep | hpause
    · obtain ⟨j, hj, hpending⟩ := (h.inv n).committed hstep hlog
      obtain ⟨m, hle, hgone⟩ := hfair (n + 1) j hj (SyncJobRow.pendingChange_status hpending).2.2
      obtain ⟨k, rfl⟩ := Nat.exists_eq_add_of_le hle
      rcases h.job_stays hj hpending k with hthere | ⟨m, hle', -, hclaimed⟩
      · exact absurd (SyncJobRow.pendingChange_status hpending).2.2 (hgone j hthere rfl)
      · exact ⟨m, j.id, by omega, hclaimed⟩
    · rw [hpause] at hlog
      exact absurd hlog.symm (List.cons_ne_self _ _)
  · exact (h.inv n).slots.eq hi hj (SyncJobRow.slot_eq_some.2 hpi) (SyncJobRow.slot_eq_some.2 hpj)
  · show (run n).queue.jobs ++ t.inserted.toList = _
    rw [((h.inv n).quiet t (mem_split hs) hquiet).1]
    exact List.append_nil _
  · obtain ⟨-, -, hacross⟩ := List.pairwise_append.1 (h.inv n).ids
    rcases hacross j hj r (List.mem_filterMap.2 ⟨t, mem_split hs, hr⟩) with hnone | hne
    · cases hnone
    · exact hne (congrArg some hid)

/-! A task is inserted, and a worker claims the job; then nothing more happens. -/

def added : Task := ⟨0, none, none, "Buy milk", "", none, none, none, .todo, .medium, .none, [], none, 0, none, 0, 0, 1⟩

def inserting : ChangeTx := ⟨7, true, true, true, 1, none, none⟩

def changeJob : SyncJobRow := SyncJobRow.queued 0 7 none "tasks_sync" "tasks-change:a" 0 0

def inserted : ChangeTx := ⟨7, true, false, true, 1, none, some changeJob⟩

def connected : ChangeWorld := { initial 0 with enabled := Function.update (fun _ => false) 7 true }

def committed : ChangeWorld :=
  ({ connected with open_ := [inserted], queue := { connected.queue with nextId := 1 } } : ChangeWorld).commit [] [] inserted

def claimed : ChangeWorld :=
  let selected := (committed.move 0 (.begun 0)).move 0 (.selected changeJob.claimed 0)
  { (selected.withJobs (·.updateJob 0 (.claim 0))).move 0 (.claimed changeJob.claimed) with
    log := .claimed 0 7 "tasks_sync" :: selected.log }

def oneChange : Nat → ChangeWorld
  | 0 => initial 0
  | 1 => connected
  | 2 => { connected with open_ := [.start 7] }
  | 3 => { connected with open_ := [inserting] }
  | 4 => { connected with open_ := [inserted], queue := { connected.queue with nextId := 1 } }
  | 5 => committed
  | 6 => committed.move 0 (.begun 0)
  | 7 => (committed.move 0 (.begun 0)).move 0 (.selected changeJob.claimed 0)
  | _ + 8 => claimed

theorem oneChange_execution : Execution 0 oneChange where
  start := rfl
  step := by
    intro n
    have hnobody : ∀ s : ChangeWorld, s.workers = (fun _ => .idle) ∨ s.workers = Function.update (fun _ => .idle) 0 (.begun 0) →
        ∀ id, ¬s.WorkerLocks id := by
      rintro s hs id ⟨w, hw⟩
      rcases hs with hs | hs
      · rw [hs] at hw
        cases hw
      · rw [hs] at hw
        by_cases h0 : w = 0
        · subst h0
          cases hw
        · rw [Function.update_of_ne h0] at hw
          cases hw
    match n with
    | 0 => exact .inl (.connect true fun _ ho => absurd ho List.not_mem_nil)
    | 1 => exact .inl (.start 7)
    | 2 =>
      left
      exact Step.change (a := []) (b := []) (t := .start 7) none (some added) rfl rfl rfl rfl fun _ ho =>
        absurd ho List.not_mem_nil
    | 3 =>
      left
      exact Step.insertJob (a := []) (b := []) (t := inserting) "a" rfl rfl rfl (fun _ hr => absurd hr List.not_mem_nil)
        fun _ ho => absurd ho List.not_mem_nil
    | 4 => exact .inl (Step.commit (a := []) (b := []) (t := inserted) rfl rfl)
    | 5 => exact .inl (.begin 0 rfl)
    | 6 =>
      left
      exact Step.select (w := 0) rfl (List.mem_singleton_self changeJob) rfl (hnobody _ (.inr rfl) _)
        fun _ ho => absurd ho List.not_mem_nil
    | 7 => exact .inl (Step.claim (w := 0) rfl)
    | _ + 8 => exact .inr rfl

theorem oneChange_fair : Fair oneChange := by
  intro n j hj hstatus
  have hclaimed : ∀ i ∈ claimed.queue.jobs, i.status ≠ .pending := by decide
  refine ⟨n + 8, Nat.le_add_right _ _, fun i hi _ => hclaimed i hi⟩

theorem change_claimed_of_one : ∃ m job, 4 < m ∧ (oneChange (m + 1)).log = .claimed job 7 "tasks_sync" :: (oneChange m).log :=
  (change_claimed oneChange_execution oneChange_fair).1 4 7 rfl

end Runs

end ChangeWorld

end GoogleTasks

end Prosepect
