/-
Every run of the workers: a job is held by one worker, executed at most eight times, claimed when it
is due and never again once it succeeded or failed for the eighth time, and an idempotency key
stays with one row.

The invariant of the attempts: `attempt_count` is the number of claims, each of which is spent by at
most one execution and by at most one outcome; a worker past its claim still has both to spend.
-/
import Prosepect.Queue.Workers

namespace Prosepect

open Time

namespace QueueWorld

variable {s s' : QueueWorld} {w : Nat} {job : ClaimedSyncJob}

/-- What an occurrence requires of those before it. -/
def Allowed : Occurrence → List Occurrence → Prop
  | .claimed j time available, earlier =>
    available ≤ time ∧ earlier.countP (·.succeeds j) = 0 ∧ earlier.countP (·.fails j) < 8
  | .answered user key j, earlier =>
    ∀ middle i older, earlier = middle ++ .answered user key i :: older → i = j ∨ .removed i ∈ middle
  | _, _ => True

/-- The table and the history. -/
structure Sound (s : QueueWorld) : Prop where
  fresh : ∀ r ∈ s.queue.jobs, r.id < s.queue.nextId
  seen : ∀ e ∈ s.history, e.job < s.queue.nextId
  ids : Table.Unique (fun r => some r.id) s.queue.jobs
  keys : Table.Unique (fun r => some (r.userId, r.idempotencyKey)) s.queue.jobs
  past : ∀ later e earlier, s.history = later ++ e :: earlier → Allowed e earlier
  answers : ∀ later user key j earlier, s.history = later ++ .answered user key j :: earlier →
    .removed j ∈ later ∨ ∃ r ∈ s.queue.jobs, r.id = j ∧ r.hasKey user key = true

/-- The claims and what they were spent on. -/
structure Tallied (s : QueueWorld) : Prop where
  attempts : ∀ r ∈ s.queue.jobs, s.claims r.id = r.attemptCount
  bounded : ∀ j, s.claims j ≤ 8
  executed : ∀ j, s.executions j ≤ s.claims j
  spent : ∀ j, s.failures j + s.successes j ≤ s.claims j
  done : ∀ r ∈ s.queue.jobs, 0 < s.successes r.id → r.status = .succeeded

/-- The workers. -/
structure Staffed (s : QueueWorld) : Prop where
  held : ∀ w c, (s.workers w).job? = some c → c.id < s.queue.nextId
  apart : ∀ v w c d, (s.workers v).job? = some c → (s.workers w).job? = some d → c.id = d.id → v = w
  begun : ∀ w start, s.workers w = .begun start → start ≤ s.queue.now
  selected : ∀ w c start, s.workers w = .selected c start →
    start ≤ s.queue.now ∧ ∃ r ∈ s.queue.jobs, r.id = c.id ∧ r.claimable start = true
  running : ∀ w c, (s.workers w).job? = some c → (s.workers w).runs = true →
    ∀ r ∈ s.queue.jobs, r.id = c.id → r.status = .running
  waiting : ∀ w c, (s.workers w).job? = some c → (s.workers w).waits = true → s.executions c.id < s.claims c.id
  unspent : ∀ w c, (s.workers w).job? = some c → (s.workers w).runs = true →
    s.failures c.id + s.successes c.id < s.claims c.id

structure Inv (s : QueueWorld) : Prop where
  sound : s.Sound
  tallied : s.Tallied
  staffed : s.Staffed

/-! ## Rows of a sound table -/

theorem Sound.row_eq (h : s.Sound) {a b : SyncJobRow} (ha : a ∈ s.queue.jobs) (hb : b ∈ s.queue.jobs)
    (hid : a.id = b.id) : a = b :=
  h.ids.eq ha hb rfl (by rw [hid])

theorem Sound.key_eq (h : s.Sound) {a b : SyncJobRow} {user : Uuid} {key : String} (ha : a ∈ s.queue.jobs)
    (hb : b ∈ s.queue.jobs) (hka : a.hasKey user key = true) (hkb : b.hasKey user key = true) : a = b := by
  obtain ⟨hu, hk⟩ := SyncJobRow.hasKey_iff.1 hka
  obtain ⟨hu', hk'⟩ := SyncJobRow.hasKey_iff.1 hkb
  exact h.keys.eq ha hb (by rw [hu, hk]) (by rw [hu', hk'])

theorem countP_eq_zero_of_seen (h : s.Sound) {p : Occurrence → Bool} {j : Uuid} (hj : s.queue.nextId ≤ j)
    (hp : ∀ e, p e = true → e.job = j) : s.history.countP p = 0 := by
  rw [List.countP_eq_zero]
  intro e he hpe
  have := h.seen e he
  rw [hp e hpe] at this
  exact absurd hj (Nat.not_le_of_lt this)

theorem claims_job {j : Uuid} (e : Occurrence) (h : e.claims j = true) : e.job = j := by
  cases e <;> simp_all [Occurrence.claims, Occurrence.job]

theorem succeeds_job {j : Uuid} (e : Occurrence) (h : e.succeeds j = true) : e.job = j := by
  cases e <;> simp_all [Occurrence.succeeds, Occurrence.job]

/-- A split of a history that one occurrence was added to. -/
theorem cons_split {e x : Occurrence} {h later earlier : List Occurrence} (hs : e :: h = later ++ x :: earlier) :
    (later = [] ∧ e = x ∧ h = earlier) ∨ ∃ l, later = e :: l ∧ h = l ++ x :: earlier := by
  cases later with
  | nil =>
    simp only [List.nil_append, List.cons.injEq] at hs
    exact .inl ⟨rfl, hs.1, hs.2⟩
  | cons y l =>
    simp only [List.cons_append, List.cons.injEq] at hs
    exact .inr ⟨l, by rw [hs.1], hs.2⟩

/-! ## What one part of a step keeps -/

/-- An occurrence that is allowed keeps the table and the history sound. -/
theorem Sound.record (h : s.Sound) {e : Occurrence} (hseen : e.job < s.queue.nextId) (ha : Allowed e s.history)
    (hrow : ∀ user key j, e = .answered user key j → ∃ r ∈ s.queue.jobs, r.id = j ∧ r.hasKey user key = true) :
    (s.record e).Sound where
  fresh := h.fresh
  seen := by
    intro x hx
    rcases List.mem_cons.1 hx with rfl | hx
    · exact hseen
    · exact h.seen x hx
  ids := h.ids
  keys := h.keys
  past := by
    intro later x earlier hs
    rcases cons_split hs with ⟨-, rfl, rfl⟩ | ⟨l, -, hl⟩
    · exact ha
    · exact h.past l x earlier hl
  answers := by
    intro later user key j earlier hs
    rcases cons_split hs with ⟨-, rfl, -⟩ | ⟨l, rfl, hl⟩
    · exact .inr (hrow user key j rfl)
    · exact (h.answers l user key j earlier hl).imp_left (List.mem_cons_of_mem _)

/-- An answer with the row of the key: an earlier answer named the same row, or one that was removed. -/
theorem Sound.allowed_answered (h : s.Sound) {r : SyncJobRow} {user : Uuid} {key : String} (hr : r ∈ s.queue.jobs)
    (hkey : r.hasKey user key = true) : Allowed (.answered user key r.id) s.history := by
  intro middle i older hs
  rcases h.answers middle user key i older hs with hremoved | ⟨row, hrow, rfl, hk⟩
  · exact .inr hremoved
  · exact .inl (by rw [h.key_eq hrow hr hk hkey])

theorem Inv.answered (h : s.Inv) {r : SyncJobRow} {user : Uuid} {key : String} (hr : r ∈ s.queue.jobs)
    (hkey : r.hasKey user key = true) : (s.record (.answered user key r.id)).Inv where
  sound := by
    have hseen : (Occurrence.answered user key r.id).job < s.queue.nextId := h.sound.fresh r hr
    apply h.sound.record hseen (h.sound.allowed_answered hr hkey)
    intro user' key' j he
    cases he
    exact ⟨r, hr, rfl, hkey⟩
  tallied := ⟨h.tallied.attempts, h.tallied.bounded, h.tallied.executed, h.tallied.spent, h.tallied.done⟩
  staffed := ⟨h.staffed.held, h.staffed.apart, h.staffed.begun, h.staffed.selected, h.staffed.running,
    h.staffed.waiting, h.staffed.unspent⟩

/-- A step of a worker that changes neither the table nor the history: it ends with no job, or with
the one it had and no more to do with it than before. -/
theorem Inv.move (h : s.Inv) {to_ : Worker} (hbegun : ∀ start, to_ = .begun start → start ≤ s.queue.now)
    (hselected : ∀ c start, to_ ≠ .selected c start) (hjob : ∀ c, to_.job? = some c → (s.workers w).job? = some c)
    (hruns : to_.runs = true → (s.workers w).runs = true)
    (hwaits : to_.waits = true → (s.workers w).waits = true) : (s.move w to_).Inv := by
  have hstaff := h.staffed
  have hjob' : ∀ v c, (Function.update s.workers w to_ v).job? = some c → (s.workers v).job? = some c := by
    intro v c hv
    by_cases hvw : v = w
    · subst hvw
      exact hjob c (by simpa using hv)
    · simpa [hvw] using hv
  have hruns' : ∀ v, (Function.update s.workers w to_ v).runs = true → (s.workers v).runs = true := by
    intro v hv
    by_cases hvw : v = w
    · subst hvw
      exact hruns (by simpa using hv)
    · simpa [hvw] using hv
  have hwaits' : ∀ v, (Function.update s.workers w to_ v).waits = true → (s.workers v).waits = true := by
    intro v hv
    by_cases hvw : v = w
    · subst hvw
      exact hwaits (by simpa using hv)
    · simpa [hvw] using hv
  refine ⟨⟨h.sound.fresh, h.sound.seen, h.sound.ids, h.sound.keys, h.sound.past, h.sound.answers⟩,
    ⟨h.tallied.attempts, h.tallied.bounded, h.tallied.executed, h.tallied.spent, h.tallied.done⟩, ?_⟩
  constructor
  · exact fun v c hv => hstaff.held v c (hjob' v c hv)
  · exact fun u v c d hu hv => hstaff.apart u v c d (hjob' u c hu) (hjob' v d hv)
  · intro v start hv
    by_cases hvw : v = w
    · subst hvw
      exact hbegun start (by simpa [QueueWorld.move] using hv)
    · exact hstaff.begun v start (by simpa [QueueWorld.move, hvw] using hv)
  · intro v c start hv
    by_cases hvw : v = w
    · subst hvw
      exact absurd (by simpa [QueueWorld.move] using hv) (hselected c start)
    · exact hstaff.selected v c start (by simpa [QueueWorld.move, hvw] using hv)
  · exact fun v c hv hr => hstaff.running v c (hjob' v c hv) (hruns' v hr)
  · exact fun v c hv hw => hstaff.waiting v c (hjob' v c hv) (hwaits' v hw)
  · exact fun v c hv hr => hstaff.unspent v c (hjob' v c hv) (hruns' v hr)

/-- A worker that ends its work. -/
theorem Inv.idle (h : s.Inv) (w : Nat) : (s.move w .idle).Inv := by
  apply h.move <;> simp [Worker.job?, Worker.runs, Worker.waits]

/-- The selected job is held by no other worker: it is neither locked nor running. -/
theorem Inv.select (h : s.Inv) {start : DateTime} {row : SyncJobRow} (hw : s.workers w = .begun start)
    (hrow : row ∈ s.queue.jobs) (hclaim : row.claimable start = true) (hfree : ¬s.Locked row.id) :
    (s.move w (.selected row.claimed start)).Inv := by
  have hstaff := h.staffed
  have hnone : ∀ v c, (s.workers v).job? = some c → c.id ≠ row.id := by
    rintro v c hv hid
    cases hx : s.workers v with
    | idle => simp [hx, Worker.job?] at hv
    | begun t => simp [hx, Worker.job?] at hv
    | selected d t =>
      simp only [hx, Worker.job?, Option.some.injEq] at hv
      exact hfree ⟨v, by simp [hx, Worker.rowLock?, hv, hid]⟩
    | claimed d | admitted d | executing d =>
      -- its claim is committed: the row is running, and no claim takes it
      have hrun := hstaff.running v c hv (by simp [hx, Worker.runs]) row hrow hid.symm
      rw [SyncJobRow.claimable_iff, hrun] at hclaim
      simp at hclaim
  refine ⟨⟨h.sound.fresh, h.sound.seen, h.sound.ids, h.sound.keys, h.sound.past, h.sound.answers⟩,
    ⟨h.tallied.attempts, h.tallied.bounded, h.tallied.executed, h.tallied.spent, h.tallied.done⟩, ?_⟩
  have hold : ∀ v c, ((s.move w (.selected row.claimed start)).workers v).job? = some c →
      (v = w ∧ c = row.claimed) ∨ (v ≠ w ∧ (s.workers v).job? = some c) := by
    intro v c hv
    by_cases hvw : v = w
    · subst hvw
      refine .inl ⟨rfl, ?_⟩
      simpa [QueueWorld.move, Worker.job?, eq_comm] using hv
    · exact .inr ⟨hvw, by simpa [QueueWorld.move, hvw] using hv⟩
  constructor
  · intro v c hv
    rcases hold v c hv with ⟨-, rfl⟩ | ⟨-, hv⟩
    · exact h.sound.fresh row hrow
    · exact hstaff.held v c hv
  · intro u v c d hu hv hid
    rcases hold u c hu with ⟨hu, hc⟩ | ⟨-, hu⟩ <;> rcases hold v d hv with ⟨hv, hd⟩ | ⟨-, hv⟩
    · rw [hu, hv]
    · exact absurd (hid.symm.trans (by rw [hc]; rfl)) (hnone v d hv)
    · exact absurd (hid.trans (by rw [hd]; rfl)) (hnone u c hu)
    · exact hstaff.apart u v c d hu hv hid
  · intro v t hv
    by_cases hvw : v = w
    · subst hvw
      simp [QueueWorld.move] at hv
    · exact hstaff.begun v t (by simpa [QueueWorld.move, hvw] using hv)
  · intro v c t hv
    by_cases hvw : v = w
    · subst hvw
      simp only [QueueWorld.move, Function.update_self, Worker.selected.injEq] at hv
      obtain ⟨rfl, rfl⟩ := hv
      exact ⟨hstaff.begun v start hw, row, hrow, rfl, hclaim⟩
    · exact hstaff.selected v c t (by simpa [QueueWorld.move, hvw] using hv)
  · intro v c hv hr
    rcases hold v c hv with ⟨rfl, -⟩ | ⟨hvw, hv⟩
    · simp [QueueWorld.move, Worker.runs] at hr
    · exact hstaff.running v c hv (by simpa [QueueWorld.move, hvw] using hr)
  · intro v c hv hr
    rcases hold v c hv with ⟨rfl, -⟩ | ⟨hvw, hv⟩
    · simp [QueueWorld.move, Worker.waits] at hr
    · exact hstaff.waiting v c hv (by simpa [QueueWorld.move, hvw] using hr)
  · intro v c hv hr
    rcases hold v c hv with ⟨rfl, -⟩ | ⟨hvw, hv⟩
    · simp [QueueWorld.move, Worker.runs] at hr
    · exact hstaff.unspent v c hv (by simpa [QueueWorld.move, hvw] using hr)

/-- A new row has a past of nothing, and no worker holds it. -/
theorem Inv.enqueued (h : s.Inv) {row : SyncJobRow} {q : Queue} (hq : Queue.Enqueued s.queue row q) :
    (s.withQueue q).Inv := by
  obtain ⟨-, hnow, rfl | ⟨hjobs, hnext, hid, hstatus, hattempts, hfree⟩⟩ := hq
  · exact h
  have hzero : ∀ p : Occurrence → Bool, (∀ e, p e = true → e.job = row.id) → s.history.countP p = 0 :=
    fun p hp => countP_eq_zero_of_seen h.sound (Nat.le_of_eq hid.symm) hp
  have hmem : ∀ r ∈ q.jobs, r ∈ s.queue.jobs ∨ r = row := by
    intro r hr
    rw [hjobs] at hr
    simpa using hr
  have hkept : ∀ r ∈ s.queue.jobs, r ∈ q.jobs := fun r hr => by rw [hjobs]; exact List.mem_append_left _ hr
  constructor
  · constructor
    · intro r hr
      show r.id < q.nextId
      rw [hnext]
      rcases hmem r hr with hr | rfl
      · exact Nat.lt_succ_of_lt (h.sound.fresh r hr)
      · exact hid ▸ Nat.lt_succ_self _
    · intro e he
      show e.job < q.nextId
      rw [hnext]
      exact Nat.lt_succ_of_lt (h.sound.seen e he)
    · show Table.Unique _ q.jobs
      rw [hjobs]
      apply h.sound.ids.insert
      rintro k ⟨⟩ r hr hk
      simp only [Option.some.injEq] at hk
      exact absurd (h.sound.fresh r hr) (by rw [hk, hid]; exact Nat.lt_irrefl _)
    · show Table.Unique _ q.jobs
      rw [hjobs]
      apply h.sound.keys.insert
      rintro k ⟨⟩ r hr hk
      simp only [Option.some.injEq, Prod.mk.injEq] at hk
      have := hfree r hr
      rw [SyncJobRow.hasKey_iff.2 hk] at this
      cases this
    · exact h.sound.past
    · intro later user key j earlier hs
      apply (h.sound.answers later user key j earlier hs).imp_right
      rintro ⟨r, hr, hrow⟩
      exact ⟨r, hkept r hr, hrow⟩
  · constructor
    · intro r hr
      rcases hmem r hr with hr | rfl
      · exact h.tallied.attempts r hr
      · exact (hzero _ claims_job).trans hattempts.symm
    · exact h.tallied.bounded
    · exact h.tallied.executed
    · exact h.tallied.spent
    · intro r hr hpos
      rcases hmem r hr with hr | rfl
      · exact h.tallied.done r hr hpos
      · have hnone : s.successes r.id = 0 := hzero _ succeeds_job
        have hsome : 0 < s.successes r.id := hpos
        omega
  · constructor
    · intro w c hw
      show c.id < q.nextId
      rw [hnext]
      exact Nat.lt_succ_of_lt (h.staffed.held w c hw)
    · exact h.staffed.apart
    · intro w start hw
      show start ≤ q.now
      rw [hnow]
      exact h.staffed.begun w start hw
    · intro w c start hw
      obtain ⟨hle, r, hr, hrow⟩ := h.staffed.selected w c start hw
      exact ⟨by show start ≤ q.now; rwa [hnow], r, hkept r hr, hrow⟩
    · intro w c hw hrun r hr hrid
      rcases hmem r hr with hr | rfl
      · exact h.staffed.running w c hw hrun r hr hrid
      · exact absurd (h.staffed.held w c hw) (by rw [← hrid, hid]; exact Nat.lt_irrefl _)
    · exact h.staffed.waiting
    · exact h.staffed.unspent

theorem Inv.tick (h : s.Inv) {now : DateTime} {calendars : List (Uuid × Uuid)} (hnow : s.queue.now ≤ now) :
    (s.withQueue { s.queue with now := now, calendars := calendars }).Inv where
  sound := ⟨h.sound.fresh, h.sound.seen, h.sound.ids, h.sound.keys, h.sound.past, h.sound.answers⟩
  tallied := ⟨h.tallied.attempts, h.tallied.bounded, h.tallied.executed, h.tallied.spent, h.tallied.done⟩
  staffed := ⟨h.staffed.held, h.staffed.apart, fun w start hw => le_trans (h.staffed.begun w start hw) hnow,
    fun w c start hw => (h.staffed.selected w c start hw).imp_left fun hle => le_trans hle hnow,
    h.staffed.running, h.staffed.waiting, h.staffed.unspent⟩

/-- The history of a cascade: the removals are no claims, executions or outcomes. -/
theorem countP_remove (p : SyncJobRow → Bool) (P : Occurrence → Bool) (hP : ∀ j, P (.removed j) = false) :
    (s.remove p).history.countP P = s.history.countP P := by
  simp only [remove, List.countP_append, List.countP_map]
  have hzero : (s.queue.jobs.filter p).countP (P ∘ fun j => Occurrence.removed j.id) = 0 := by
    rw [List.countP_eq_zero]
    intro r _
    simp [hP]
  omega

/-- A split of a history that a list of occurrences was added to. -/
theorem append_split {l h later earlier : List Occurrence} {x : Occurrence} (hs : l ++ h = later ++ x :: earlier) :
    (∃ a b, l = a ++ x :: b) ∨ ∃ m, later = l ++ m ∧ h = m ++ x :: earlier := by
  induction l generalizing later with
  | nil => exact .inr ⟨later, rfl, hs⟩
  | cons y l ih =>
    rcases cons_split hs with ⟨-, rfl, -⟩ | ⟨m, rfl, hm⟩
    · exact .inl ⟨[], l, rfl⟩
    · rcases ih hm with ⟨a, b, rfl⟩ | ⟨n, rfl, hn⟩
      · exact .inl ⟨y :: a, b, rfl⟩
      · exact .inr ⟨n, rfl, hn⟩

theorem Inv.remove (h : s.Inv) {p : SyncJobRow → Bool} (hfree : ∀ j ∈ s.queue.jobs, p j = true → ¬s.Locked j.id) :
    (s.remove p).Inv := by
  have hmem : ∀ r ∈ (s.remove p).queue.jobs, r ∈ s.queue.jobs := fun r hr => (Table.mem_delete.1 hr).1
  have hclaims : ∀ j, (s.remove p).claims j = s.claims j := fun j => countP_remove p _ fun _ => rfl
  have hexec : ∀ j, (s.remove p).executions j = s.executions j := fun j => countP_remove p _ fun _ => rfl
  have hfail : ∀ j, (s.remove p).failures j = s.failures j := fun j => countP_remove p _ fun _ => rfl
  have hsucc : ∀ j, (s.remove p).successes j = s.successes j := fun j => countP_remove p _ fun _ => rfl
  have hnot : ∀ {a b x}, (s.queue.jobs.filter p).map (fun j => Occurrence.removed j.id) = a ++ x :: b →
      ∃ j, x = .removed j := by
    intro a b x hx
    have : x ∈ (s.queue.jobs.filter p).map fun j => Occurrence.removed j.id := by rw [hx]; simp
    obtain ⟨r, -, rfl⟩ := List.mem_map.1 this
    exact ⟨r.id, rfl⟩
  constructor
  · constructor
    · exact fun r hr => h.sound.fresh r (hmem r hr)
    · intro e he
      rcases List.mem_append.1 he with he | he
      · obtain ⟨r, hr, rfl⟩ := List.mem_map.1 he
        exact h.sound.fresh r (List.mem_filter.1 hr).1
      · exact h.sound.seen e he
    · exact h.sound.ids.delete p
    · exact h.sound.keys.delete p
    · intro later e earlier hs
      rcases append_split hs with ⟨a, b, hab⟩ | ⟨m, -, hm⟩
      · obtain ⟨j, rfl⟩ := hnot hab
        trivial
      · exact h.sound.past m e earlier hm
    · intro later user key j earlier hs
      rcases append_split hs with ⟨a, b, hab⟩ | ⟨m, rfl, hm⟩
      · obtain ⟨i, hi⟩ := hnot hab
        cases hi
      · rcases h.sound.answers m user key j earlier hm with hremoved | ⟨r, hr, rfl, hkey⟩
        · exact .inl (List.mem_append_right _ hremoved)
        · by_cases hp : p r = true
          · refine .inl (List.mem_append_left _ (List.mem_map.2 ⟨r, List.mem_filter.2 ⟨hr, hp⟩, rfl⟩))
          · exact .inr ⟨r, Table.mem_delete.2 ⟨hr, by simpa using hp⟩, rfl, hkey⟩
  · constructor
    · intro r hr
      rw [hclaims]
      exact h.tallied.attempts r (hmem r hr)
    · intro j
      rw [hclaims]
      exact h.tallied.bounded j
    · intro j
      rw [hclaims, hexec]
      exact h.tallied.executed j
    · intro j
      rw [hclaims, hfail, hsucc]
      exact h.tallied.spent j
    · intro r hr
      rw [hsucc]
      exact h.tallied.done r (hmem r hr)
  · constructor
    · exact h.staffed.held
    · exact h.staffed.apart
    · exact h.staffed.begun
    · intro w c start hw
      obtain ⟨hle, r, hr, hid, hclaim⟩ := h.staffed.selected w c start hw
      -- the selected row is locked, and no cascade deletes it
      have hlock : s.Locked r.id := by
        refine ⟨w, ?_⟩
        have hw' : s.workers w = .selected c start := hw
        rw [hw', hid]
        rfl
      have hp : p r = false := by
        cases hp : p r with
        | false => rfl
        | true => exact absurd hlock (hfree r hr hp)
      exact ⟨hle, r, Table.mem_delete.2 ⟨hr, hp⟩, hid, hclaim⟩
    · exact fun w c hw hrun r hr => h.staffed.running w c hw hrun r (hmem r hr)
    · intro w c hw hwait
      rw [hclaims, hexec]
      exact h.staffed.waiting w c hw hwait
    · intro w c hw hrun
      rw [hclaims, hfail, hsucc]
      exact h.staffed.unspent w c hw hrun

theorem Sound.job?_mem (h : s.Sound) {id : Uuid} {row : SyncJobRow} (hrow : s.queue.job? id = some row) :
    row ∈ s.queue.jobs ∧ row.id = id ∧ ∀ r ∈ s.queue.jobs, r.id = id → r = row := by
  have hmem := List.mem_of_find?_eq_some hrow
  have hid : row.id = id := by simpa using List.find?_some hrow
  exact ⟨hmem, hid, fun r hr hr' => h.row_eq hr hmem (hr'.trans hid.symm)⟩

/-- An update of one row that leaves its id and key. -/
theorem Sound.updateJob (h : s.Sound) (id : Uuid) {f : SyncJobRow → SyncJobRow} (hid : ∀ r, (f r).id = r.id)
    (hkey : ∀ r, (f r).userId = r.userId ∧ (f r).idempotencyKey = r.idempotencyKey) :
    (s.withQueue (s.queue.updateJob id f)).Sound := by
  constructor
  · intro r hr
    rcases Table.mem_update.1 hr with ⟨hr, -⟩ | ⟨x, hx, -, rfl⟩
    · exact h.fresh r hr
    · exact hid x ▸ h.fresh x hx
  · exact h.seen
  · exact h.ids.update fun r => .inl (by rw [hid])
  · exact h.keys.update fun r => .inl (by rw [(hkey r).1, (hkey r).2])
  · exact h.past
  · intro later user key j earlier hs
    apply (h.answers later user key j earlier hs).imp_right
    rintro ⟨r, hr, rfl, hk⟩
    have hk' : (f r).hasKey user key = true := by
      rw [SyncJobRow.hasKey_iff] at hk ⊢
      exact ⟨(hkey r).1.trans hk.1, (hkey r).2.trans hk.2⟩
    cases hp : r.id == id with
    | false => exact ⟨r, Table.mem_update.2 (.inl ⟨hr, hp⟩), rfl, hk⟩
    | true => exact ⟨f r, Table.mem_update.2 (.inr ⟨r, hr, hp, rfl⟩), hid r, hk'⟩

/-- The commit of a claim: the row was selected while it was due, and has attempts left. -/
theorem Inv.claim (h : s.Inv) {start : DateTime} {row : SyncJobRow} (hw : s.workers w = .selected job start)
    (hrow : s.queue.job? job.id = some row) :
    (((s.withQueue (s.queue.updateJob job.id (.claim start))).move w (.claimed job)).record
      (.claimed job.id s.queue.now row.availableAt)).Inv := by
  obtain ⟨hmem, hid, huniq⟩ := h.sound.job?_mem hrow
  obtain ⟨hstart, r, hr, hrid, hclaim⟩ := h.staffed.selected w job start hw
  obtain rfl := huniq r hr hrid
  obtain ⟨hstatus, havailable, -, hattempts⟩ := SyncJobRow.claimable_iff.1 hclaim
  have hjob : (s.workers w).job? = some job := by rw [hw]; rfl
  -- every claim so far is in `attempt_count`, so neither outcome has used up the job
  have hclaims : s.claims job.id = r.attemptCount := hid ▸ h.tallied.attempts r hr
  have hsucc : s.successes job.id = 0 := by
    by_contra hne
    have hdone := h.tallied.done r hr (by rw [hid]; exact Nat.pos_of_ne_zero hne)
    rw [hdone] at hstatus
    simp at hstatus
  have hspent := h.tallied.spent job.id
  have hexec := h.tallied.executed job.id
  set next := ((s.withQueue (s.queue.updateJob job.id (.claim start))).move w (.claimed job)).record
    (.claimed job.id s.queue.now r.availableAt) with hnext
  have hclaims' : ∀ j, next.claims j = s.claims j + if job.id = j then 1 else 0 := by
    intro j
    simp [hnext, QueueWorld.claims, record, QueueWorld.move, withQueue, List.countP_cons, Occurrence.claims]
  have hexec' : ∀ j, next.executions j = s.executions j := fun j => List.countP_cons_of_neg (by simp [Occurrence.executes])
  have hfail' : ∀ j, next.failures j = s.failures j := fun j => List.countP_cons_of_neg (by simp [Occurrence.fails])
  have hsucc' : ∀ j, next.successes j = s.successes j := fun j => List.countP_cons_of_neg (by simp [Occurrence.succeeds])
  have hrows : ∀ x ∈ next.queue.jobs, (x ∈ s.queue.jobs ∧ x.id ≠ job.id) ∨ x = r.claim start := by
    intro x hx
    rcases Table.mem_update.1 hx with ⟨hx, hne⟩ | ⟨y, hy, hyid, rfl⟩
    · exact .inl ⟨hx, by simpa using hne⟩
    · exact .inr (by rw [huniq y hy (by simpa using hyid)])
  have hold : ∀ v c, (next.workers v).job? = some c → (s.workers v).job? = some c := by
    intro v c hv
    by_cases hvw : v = w
    · subst hvw
      rw [hjob]
      simpa [hnext, record, QueueWorld.move, Worker.job?] using hv
    · simpa [hnext, record, QueueWorld.move, withQueue, hvw] using hv
  have hothers : ∀ v c, v ≠ w → (s.workers v).job? = some c → c.id ≠ job.id :=
    fun v c hvw hv hc => hvw (h.staffed.apart v w c job hv hjob hc)
  have hsame : ∀ v, v ≠ w → next.workers v = s.workers v := by
    intro v hvw
    simp [hnext, record, QueueWorld.move, withQueue, hvw]
  constructor
  · have hsound := h.sound.updateJob job.id (f := SyncJobRow.claim start) (fun _ => rfl) fun _ => ⟨rfl, rfl⟩
    have hallowed : Allowed (.claimed job.id s.queue.now r.availableAt) s.history :=
      ⟨le_trans havailable hstart, hsucc, by
        have : s.failures job.id ≤ s.claims job.id := by omega
        have : s.failures job.id < 8 := by omega
        exact this⟩
    have hseen : job.id < s.queue.nextId := h.staffed.held w job hjob
    have := hsound.record (e := .claimed job.id s.queue.now r.availableAt) hseen hallowed fun _ _ _ he => by cases he
    exact ⟨this.fresh, this.seen, this.ids, this.keys, this.past, this.answers⟩
  · constructor
    · intro x hx
      rw [hclaims']
      rcases hrows x hx with ⟨hx, hne⟩ | rfl
      · simpa [Ne.symm hne] using h.tallied.attempts x hx
      · simp [SyncJobRow.claim, hid, hclaims]
    · intro j
      rw [hclaims']
      by_cases hj : job.id = j
      · subst hj
        simp only [if_true]
        omega
      · simpa [hj] using h.tallied.bounded j
    · intro j
      have := h.tallied.executed j
      rw [hclaims', hexec']
      omega
    · intro j
      have := h.tallied.spent j
      rw [hclaims', hfail', hsucc']
      omega
    · intro x hx hpos
      rw [hsucc'] at hpos
      rcases hrows x hx with ⟨hx, -⟩ | rfl
      · exact h.tallied.done x hx hpos
      · have : s.successes job.id = s.successes (r.claim start).id := by rw [SyncJobRow.claim_id, hid]
        omega
  · constructor
    · exact fun v c hv => h.staffed.held v c (hold v c hv)
    · exact fun u v c d hu hv => h.staffed.apart u v c d (hold u c hu) (hold v d hv)
    · intro v t hv
      by_cases hvw : v = w
      · subst hvw
        simp [hnext, record, QueueWorld.move] at hv
      · exact h.staffed.begun v t (hsame v hvw ▸ hv)
    · intro v c t hv
      by_cases hvw : v = w
      · subst hvw
        simp [hnext, record, QueueWorld.move] at hv
      · rw [hsame v hvw] at hv
        obtain ⟨hle, x, hx, hxid, hxclaim⟩ := h.staffed.selected v c t hv
        have hne := hothers v c hvw (by rw [hv]; rfl)
        exact ⟨hle, x, Table.mem_update.2 (.inl ⟨hx, by simpa [hxid] using hne⟩), hxid, hxclaim⟩
    · intro v c hv hrun x hx hxid
      rcases hrows x hx with ⟨hx, hne⟩ | rfl
      · by_cases hvw : v = w
        · subst hvw
          have := hold v c hv
          rw [hjob] at this
          cases this
          exact absurd hxid hne
        · exact h.staffed.running v c (hold v c hv) (hsame v hvw ▸ hrun) x hx hxid
      · rfl
    · intro v c hv hwait
      rw [hclaims', hexec']
      by_cases hvw : v = w
      · subst hvw
        have := hold v c hv
        rw [hjob] at this
        cases this
        simp only [if_true]
        omega
      · have := h.staffed.waiting v c (hold v c hv) (hsame v hvw ▸ hwait)
        omega
    · intro v c hv hrun
      rw [hclaims', hfail', hsucc']
      by_cases hvw : v = w
      · subst hvw
        have := hold v c hv
        rw [hjob] at this
        cases this
        simp only [if_true]
        omega
      · have := h.staffed.unspent v c (hold v c hv) (hsame v hvw ▸ hrun)
        omega

/-- The execution of a job that is claimed and running spends one of its claims. -/
theorem Inv.execute (h : s.Inv) (hw : s.workers w = .admitted job) :
    ((s.move w (.executing job)).record (.executed job.id)).Inv := by
  have hjob : (s.workers w).job? = some job := by rw [hw]; rfl
  have hwait := h.staffed.waiting w job hjob (by rw [hw]; rfl)
  have hmoved : (s.move w (.executing job)).Inv := by
    apply h.move <;> simp [hw, Worker.job?, Worker.runs, Worker.waits]
  have hexec : ∀ j, ((s.move w (.executing job)).record (.executed job.id)).executions j =
      s.executions j + if job.id = j then 1 else 0 := by
    intro j
    simp [executions, record, QueueWorld.move, List.countP_cons, Occurrence.executes]
  have hclaims : ∀ j, ((s.move w (.executing job)).record (.executed job.id)).claims j = s.claims j :=
    fun j => List.countP_cons_of_neg (by simp [Occurrence.claims])
  have hfail : ∀ j, ((s.move w (.executing job)).record (.executed job.id)).failures j = s.failures j :=
    fun j => List.countP_cons_of_neg (by simp [Occurrence.fails])
  have hsucc : ∀ j, ((s.move w (.executing job)).record (.executed job.id)).successes j = s.successes j :=
    fun j => List.countP_cons_of_neg (by simp [Occurrence.succeeds])
  constructor
  · have hseen : job.id < s.queue.nextId := h.staffed.held w job hjob
    exact hmoved.sound.record (e := .executed job.id) hseen trivial fun _ _ _ he => by cases he
  · constructor
    · intro r hr
      rw [hclaims]
      exact h.tallied.attempts r hr
    · intro j
      rw [hclaims]
      exact h.tallied.bounded j
    · intro j
      rw [hclaims, hexec]
      by_cases hj : job.id = j
      · subst hj
        simp only [if_true]
        omega
      · simpa [hj] using h.tallied.executed j
    · intro j
      rw [hclaims, hfail, hsucc]
      exact h.tallied.spent j
    · intro r hr
      rw [hsucc]
      exact h.tallied.done r hr
  · constructor
    · exact hmoved.staffed.held
    · exact hmoved.staffed.apart
    · exact hmoved.staffed.begun
    · exact hmoved.staffed.selected
    · exact hmoved.staffed.running
    · intro v c hv hvwait
      rw [hclaims, hexec]
      -- the worker that waits is another one, with another job
      have hvw : v ≠ w := by
        rintro rfl
        simp [record, QueueWorld.move, Worker.waits] at hvwait
      have hv' : (s.workers v).job? = some c := by simpa [record, QueueWorld.move, hvw] using hv
      have hne : job.id ≠ c.id := fun hid => hvw (h.staffed.apart v w c job hv' hjob hid.symm)
      have := h.staffed.waiting v c hv' (by simpa [record, QueueWorld.move, hvw] using hvwait)
      simp only [hne, if_false]
      omega
    · intro v c hv hrun
      rw [hclaims, hfail, hsucc]
      exact hmoved.staffed.unspent v c hv hrun

/-- The outcome of a job that no worker holds any more and that has a claim left to spend. -/
theorem Inv.settle (h : s.Inv) {id : Uuid} {f : SyncJobRow → SyncJobRow} {e : Occurrence} (he : e = .succeeded id ∨ e = .failed id)
    (hid : ∀ r, (f r).id = r.id) (hkey : ∀ r, (f r).userId = r.userId ∧ (f r).idempotencyKey = r.idempotencyKey)
    (hattempts : ∀ r, (f r).attemptCount = r.attemptCount) (hstatus : e = .succeeded id → ∀ r, (f r).status = .succeeded)
    (hseen : id < s.queue.nextId) (hspent : s.failures id + s.successes id < s.claims id)
    (hrunning : ∀ r ∈ s.queue.jobs, r.id = id → r.status = .running)
    (hnone : ∀ v c, (s.workers v).job? = some c → c.id ≠ id) :
    ((s.withQueue (s.queue.updateJob id f)).record e).Inv := by
  have hsound := h.sound.updateJob id hid hkey
  have hclaims : ∀ j, ((s.withQueue (s.queue.updateJob id f)).record e).claims j = s.claims j := by
    intro j
    rcases he with rfl | rfl <;> exact List.countP_cons_of_neg (by simp [Occurrence.claims])
  have hexec : ∀ j, ((s.withQueue (s.queue.updateJob id f)).record e).executions j = s.executions j := by
    intro j
    rcases he with rfl | rfl <;> exact List.countP_cons_of_neg (by simp [Occurrence.executes])
  have hothers : ∀ j, j ≠ id → ((s.withQueue (s.queue.updateJob id f)).record e).failures j = s.failures j ∧
      ((s.withQueue (s.queue.updateJob id f)).record e).successes j = s.successes j := by
    intro j hj
    rcases he with rfl | rfl <;>
      simp [failures, successes, record, withQueue, Occurrence.fails, Occurrence.succeeds, Ne.symm hj]
  have hself : ((s.withQueue (s.queue.updateJob id f)).record e).failures id +
      ((s.withQueue (s.queue.updateJob id f)).record e).successes id = s.failures id + s.successes id + 1 := by
    rcases he with rfl | rfl <;>
      simp [failures, successes, record, withQueue, Occurrence.fails, Occurrence.succeeds] <;> omega
  constructor
  · have hjob : e.job < s.queue.nextId := by rcases he with rfl | rfl <;> exact hseen
    have hallowed : Allowed e s.history := by rcases he with rfl | rfl <;> trivial
    apply hsound.record hjob hallowed
    rintro user key j rfl
    rcases he with he | he <;> cases he
  · constructor
    · intro x hx
      rw [hclaims]
      rcases Table.mem_update.1 hx with ⟨hx, -⟩ | ⟨r, hr, -, rfl⟩
      · exact h.tallied.attempts x hx
      · rw [hid, hattempts]
        exact h.tallied.attempts r hr
    · intro j
      rw [hclaims]
      exact h.tallied.bounded j
    · intro j
      rw [hclaims, hexec]
      exact h.tallied.executed j
    · intro j
      rw [hclaims]
      by_cases hj : j = id
      · subst hj
        rw [hself]
        omega
      · rw [(hothers j hj).1, (hothers j hj).2]
        exact h.tallied.spent j
    · intro x hx hpos
      rcases Table.mem_update.1 hx with ⟨hx, hne⟩ | ⟨r, hr, hrid, rfl⟩
      · rw [(hothers x.id (by simpa using hne)).2] at hpos
        exact h.tallied.done x hx hpos
      · have hrid' : r.id = id := by simpa using hrid
        rcases he with rfl | rfl
        · exact hstatus rfl r
        · -- a job that failed now has not succeeded before: its row would say so
          have hsame : ((s.withQueue (s.queue.updateJob id f)).record (.failed id)).successes (f r).id =
              s.successes r.id := by
            rw [hid]
            exact List.countP_cons_of_neg (by simp [Occurrence.succeeds])
          rw [hsame] at hpos
          have hdone := h.tallied.done r hr hpos
          rw [hrunning r hr hrid'] at hdone
          cases hdone
  · constructor
    · exact h.staffed.held
    · exact h.staffed.apart
    · exact h.staffed.begun
    · intro v c start hv
      obtain ⟨hle, r, hr, hrid, hclaim⟩ := h.staffed.selected v c start hv
      have hv' : s.workers v = .selected c start := hv
      have hne := hnone v c (by rw [hv']; rfl)
      exact ⟨hle, r, Table.mem_update.2 (.inl ⟨hr, by simpa [hrid] using hne⟩), hrid, hclaim⟩
    · intro v c hv hrun x hx hxid
      rcases Table.mem_update.1 hx with ⟨hx, -⟩ | ⟨r, -, hrid, rfl⟩
      · exact h.staffed.running v c hv hrun x hx hxid
      · rw [hid] at hxid
        exact absurd (hxid.symm.trans (by simpa using hrid)) (hnone v c hv)
    · intro v c hv hwait
      rw [hclaims, hexec]
      exact h.staffed.waiting v c hv hwait
    · intro v c hv hrun
      rw [hclaims, (hothers c.id (hnone v c hv)).1, (hothers c.id (hnone v c hv)).2]
      exact h.staffed.unspent v c hv hrun

/-- A worker that settles the job it executed: it holds the job no longer, and no other worker did. -/
theorem Inv.finish (h : s.Inv) {f : SyncJobRow → SyncJobRow} {e : Occurrence} (hw : s.workers w = .executing job)
    (he : e = .succeeded job.id ∨ e = .failed job.id) (hid : ∀ r, (f r).id = r.id)
    (hkey : ∀ r, (f r).userId = r.userId ∧ (f r).idempotencyKey = r.idempotencyKey)
    (hattempts : ∀ r, (f r).attemptCount = r.attemptCount)
    (hstatus : e = .succeeded job.id → ∀ r, (f r).status = .succeeded) :
    (((s.withQueue (s.queue.updateJob job.id f)).move w .idle).record e).Inv := by
  have hjob : (s.workers w).job? = some job := by rw [hw]; rfl
  have hruns : (s.workers w).runs = true := by rw [hw]; rfl
  apply (h.idle w).settle he hid hkey hattempts hstatus
  · exact h.staffed.held w job hjob
  · exact h.staffed.unspent w job hjob hruns
  · exact h.staffed.running w job hjob hruns
  · intro v c hv hc
    by_cases hvw : v = w
    · subst hvw
      simp [QueueWorld.move, Worker.job?] at hv
    · exact hvw (h.staffed.apart v w c job (by simpa [QueueWorld.move, hvw] using hv) hjob hc)

/-! ## Runs -/

theorem Inv.step (h : s.Inv) (hs : Step s s') : s'.Inv := by
  cases hs with
  | tick now hnow => exact h.tick hnow
  | calendar calendars => exact h.tick (le_refl _)
  | enqueueSync hq _ =>
    obtain ⟨henq, hu, hk⟩ := Queue.enqueueSync_ok hq
    exact (h.enqueued henq).answered henq.mem (SyncJobRow.hasKey_iff.2 ⟨hu, hk⟩)
  | enqueueOnce hq =>
    obtain ⟨henq, hu, hk⟩ := Queue.insertOrGet_ok hq
    exact (h.enqueued henq).answered henq.mem (SyncJobRow.hasKey_iff.2 ⟨hu, hk⟩)
  | enqueueExpiry hq => exact h.enqueued (Queue.enqueueExpiry_ok hq)
  | enqueueTasksChange hq _ => exact h.enqueued (Queue.enqueueTasksChange_ok hq)
  | remove p hfree => exact h.remove hfree
  | begin w hw =>
    apply h.move <;> simp [Worker.job?, Worker.runs, Worker.waits]
  | select hw hrow hclaim hfree => exact h.select hw hrow hclaim hfree
  | none hw => exact h.idle _
  | claim hw hrow => exact h.claim hw hrow
  | enter hw _ => apply h.move <;> simp [hw, Worker.job?, Worker.runs, Worker.waits]
  | execute hw _ _ => exact h.execute hw
  | giveUp hw _ => exact h.idle _
  | complete hw _ =>
    exact h.finish hw (.inl rfl) (fun _ => rfl) (fun _ => ⟨rfl, rfl⟩) (fun _ => rfl) fun _ _ => rfl
  | fail error hw _ =>
    exact h.finish hw (.inr rfl) (fun _ => rfl) (fun _ => ⟨rfl, rfl⟩) (fun _ => rfl) fun he => by cases he
  | crash w => exact h.idle w

theorem inv_initial (now : DateTime) (calendars : List (Uuid × Uuid)) : (initial now calendars).Inv := by
  constructor
  · constructor <;> simp [initial, Table.Unique.nil]
  · constructor <;> simp [initial, claims, executions, failures, successes]
  · constructor <;> simp [initial, Worker.job?]

theorem Reachable.inv {now : DateTime} {calendars : List (Uuid × Uuid)} (h : Reachable now calendars s) : s.Inv := by
  induction h with
  | start => exact inv_initial now calendars
  | next _ hs ih => exact ih.step hs

/-- In every interleaving of workers, requests and cascades: a job is held by one worker at most and
executed eight times at most; a claim comes when the job is due, after no success and after fewer
than eight failures; the table has one row for a user's key, and two requests for a key are
answered with the same row unless the first was removed in between. -/
theorem queue_safe {now : DateTime} {calendars : List (Uuid × Uuid)} (h : Reachable now calendars s) :
    (∀ v w job, (s.workers v).holds job → (s.workers w).holds job → v = w) ∧
    (∀ job, s.executions job ≤ 8) ∧
    (∀ later job time available earlier, s.history = later ++ .claimed job time available :: earlier →
      available ≤ time ∧ .succeeded job ∉ earlier ∧ earlier.count (.failed job) < 8) ∧
    (∀ a ∈ s.queue.jobs, ∀ b ∈ s.queue.jobs, ∀ user key, a.hasKey user key = true → b.hasKey user key = true → a = b) ∧
    (∀ later middle earlier user key i j,
      s.history = later ++ .answered user key j :: (middle ++ .answered user key i :: earlier) →
        i = j ∨ .removed i ∈ middle) := by
  have hinv := h.inv
  refine ⟨?_, ?_, ?_, ?_, ?_⟩
  · rintro v w job ⟨c, hc, rfl⟩ ⟨d, hd, hid⟩
    exact hinv.staffed.apart v w c d hc hd hid.symm
  · intro job
    exact le_trans (hinv.tallied.executed job) (hinv.tallied.bounded job)
  · intro later job time available earlier hs
    obtain ⟨hdue, hsucc, hfail⟩ := hinv.sound.past _ _ _ hs
    refine ⟨hdue, ?_, ?_⟩
    · intro hmem
      rw [List.countP_eq_zero] at hsucc
      exact hsucc _ hmem (by simp [Occurrence.succeeds])
    · have hcount : earlier.count (.failed job) = earlier.countP (·.fails job) := by
        rw [List.count]
        congr 1
        funext e
        cases e <;> simp [Occurrence.fails]
      rw [hcount]
      exact hfail
  · exact fun a ha b hb user key => hinv.sound.key_eq ha hb
  · intro later middle earlier user key i j hs
    exact hinv.sound.past _ _ _ hs middle i earlier rfl

/-- A job that is enqueued, executed and completed. -/
theorem queue_safe_of_one : ∃ s, Reachable 0 [] s ∧ s.executions 0 = 1 ∧ ∀ job, s.executions job ≤ 8 := by
  have hq : (initial 0 []).queue.enqueueSync 7 none "calendar_discovery" "key " =
      .ok (.queued 0 7 none "calendar_discovery" "key" 0 0, ⟨0, [], [.queued 0 7 none "calendar_discovery" "key" 0 0], 1⟩) := by
    rfl
  have hfree : ∀ j, ¬(initial 0 []).Locked j := by rintro j ⟨w, hw⟩; cases hw
  have h1 := Reachable.start.next (.enqueueSync hq (hfree _))
  have h2 := h1.next (.begin 0 rfl)
  have h3 := h2.next (@Step.select _ 0 0 _ rfl (List.mem_singleton_self _) (by decide) (by
    rintro ⟨w, hw⟩
    by_cases h0 : w = 0
    · subst h0
      simp [move, Worker.rowLock?] at hw
    · simp [move, withQueue, record, initial, h0, Worker.rowLock?] at hw))
  have h4 := h3.next (@Step.claim _ 0 _ _ _ rfl rfl)
  have h5 := h4.next (@Step.enter _ 0 _ rfl (by
    intro w
    by_cases h0 : w = 0
    · subst h0
      simp [move, record, Worker.userLock?]
    · simp [move, withQueue, record, initial, h0, Worker.userLock?]))
  have h6 := h5.next (@Step.execute _ 0 _ _ rfl rfl rfl)
  exact ⟨_, h6, rfl, (queue_safe h6).2.1⟩

end QueueWorld

end Prosepect
