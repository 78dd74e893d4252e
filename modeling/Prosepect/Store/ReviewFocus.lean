/-
The focus list that a completed review leaves.

- `frontInserted_eq`: what the insertions at the front make of two lists;
- `completeDailyReview_ok`: a completion, step by step;
- `review_right_iff`: previous choices come first and in their order, exactly when at most one of
  them is not carried forward and the others are the first that are.
-/
import Prosepect.Store.MoveUndo
import Prosepect.Store.Reviews

namespace Prosepect

open Time Resumption Table

namespace Store

/-! ## Insertions at the front -/

section Merge

variable {existing carried : List Uuid}

/-- What is not there yet goes to the front. -/
def frontInserted (existing carried : List Uuid) : List Uuid :=
  existing.foldl (fun l t => if t ∈ l then l else t :: l) carried

/-- The insertions turn the order of what they insert around. -/
theorem frontInserted_eq (h : existing.Nodup) :
    frontInserted existing carried = (existing.filter (· ∉ carried)).reverse ++ carried := by
  unfold frontInserted
  induction existing generalizing carried with
  | nil => rfl
  | cons t rest ih =>
    obtain ⟨hnew, hrest⟩ := List.nodup_cons.1 h
    rw [List.foldl_cons]
    by_cases ht : t ∈ carried
    · rw [if_pos ht, ih hrest]
      simp [ht]
    · rw [if_neg ht, ih hrest]
      -- the others are not `t`
      have hfilter : (rest.filter (· ∉ t :: carried)) = rest.filter (· ∉ carried) := by
        refine List.filter_congr fun x hx => ?_
        have hne : x ≠ t := fun h => hnew (h ▸ hx)
        simp [hne]
      rw [hfilter]
      simp [ht]

theorem dedup_of_nodup : ∀ {l : List Uuid}, l.Nodup → dedup l = l
  | [], _ => rfl
  | [_], _ => rfl
  | a :: b :: l, h => by
    obtain ⟨ha, hrest⟩ := List.nodup_cons.1 h
    have hne : a ≠ b := by
      rintro rfl
      exact ha List.mem_cons_self
    unfold dedup
    rw [if_neg hne, dedup_of_nodup hrest]

theorem nodup_frontInserted (he : existing.Nodup) (hc : carried.Nodup) : (frontInserted existing carried).Nodup := by
  rw [frontInserted_eq he]
  refine List.nodup_append.2 ⟨List.nodup_reverse.2 (he.filter _), hc, fun a ha b hb hab => ?_⟩
  subst hab
  rw [List.mem_reverse, List.mem_filter] at ha
  simp [hb] at ha

/-- Only a list of at most one element is its own reverse without repeating one. -/
theorem length_le_one_of_reverse {l : List Uuid} (hn : l.Nodup) (hr : l.reverse = l) : l.length ≤ 1 := by
  rcases l with _ | ⟨a, _ | ⟨b, rest⟩⟩
  · simp
  · simp
  · -- the first is the last as well
    have hlast : (a :: b :: rest).getLast? = some a := by
      rw [List.getLast?_eq_head?_reverse, hr]
      rfl
    rw [List.getLast?_cons_cons] at hlast
    exact absurd (List.mem_of_getLast? hlast) (List.nodup_cons.1 hn).1

/-- At most one previous choice is not carried forward, and it is the first; the others are the
first that are carried forward. -/
def Leading (existing carried : List Uuid) : Prop :=
  ∃ left kept, existing = left ++ kept ∧ left.length ≤ 1 ∧ kept <+: carried ∧ ∀ t ∈ left, t ∉ carried

/-- Both lists in their order, exactly when the insertions have nothing to turn around. -/
theorem frontInserted_ordered_iff (he : existing.Nodup) (hc : carried.Nodup) :
    frontInserted existing carried = existing ++ carried.filter (· ∉ existing) ↔ Leading existing carried := by
  rw [frontInserted_eq he]
  constructor
  · intro h
    obtain ⟨kept, hkept⟩ : (existing.filter (· ∉ carried)).reverse <+: existing := by
      refine List.prefix_of_prefix_length_le ⟨carried, h⟩ (List.prefix_append existing _) ?_
      rw [List.length_reverse]
      exact List.length_filter_le _ _
    have hrest : carried = kept ++ carried.filter (· ∉ existing) := by
      refine (List.append_right_inj (existing.filter (· ∉ carried)).reverse).1 ?_
      rw [← List.append_assoc, hkept]
      exact h
    have hnone : kept.filter (· ∉ carried) = [] := by
      rw [List.filter_eq_nil_iff]
      intro t ht
      have hmem : t ∈ carried := hrest ▸ List.mem_append_left _ ht
      simp [hmem]
    have hself : (existing.filter (· ∉ carried)).reverse.filter (· ∉ carried) =
        (existing.filter (· ∉ carried)).reverse := by
      refine List.filter_eq_self.2 fun t ht => ?_
      exact (List.mem_filter.1 (List.mem_reverse.1 ht)).2
    have hreverse : (existing.filter (· ∉ carried)).reverse = existing.filter (· ∉ carried) := by
      conv_rhs => rw [← hkept, List.filter_append, hself, hnone, List.append_nil]
    refine ⟨existing.filter (· ∉ carried), kept, ?_, length_le_one_of_reverse (he.filter _) hreverse, ⟨_, hrest.symm⟩, ?_⟩
    · conv_lhs => rw [← hkept, hreverse]
    · intro t ht
      simpa using (List.mem_filter.1 ht).2
  · rintro ⟨left, kept, rfl, hone, ⟨rest, rfl⟩, hleft⟩
    have hfilter : (left ++ kept).filter (· ∉ kept ++ rest) = left := by
      rw [List.filter_append, List.filter_eq_self.2 fun t ht => by simpa using hleft t ht]
      rw [List.filter_eq_nil_iff.2 fun t ht => by simp [ht], List.append_nil]
    have hreverse : left.reverse = left := by
      rcases left with _ | ⟨a, _ | ⟨b, l⟩⟩
      · rfl
      · rfl
      · simp at hone
    have hnew : (kept ++ rest).filter (· ∉ left ++ kept) = rest := by
      rw [List.filter_append, List.filter_eq_nil_iff.2 fun t ht => by simp [ht], List.nil_append]
      refine List.filter_eq_self.2 fun t ht => ?_
      have hkept : t ∉ kept := fun hk => (List.nodup_append.1 hc).2.2 t hk t ht rfl
      have hfirst : t ∉ left := fun hl => hleft t hl (List.mem_append_right _ ht)
      simp [hkept, hfirst]
    rw [hfilter, hreverse, hnew, List.append_assoc]

end Merge

/-! ## The steps of a completion -/

variable {w w' : Workspace} {date : NaiveDate} {decisions : List ReviewDecision}

/-- The tasks chosen for a date, in their order. -/
def chosen (date : NaiveDate) (w : Workspace) : List Uuid :=
  ((w.focus.filter (·.focusDate == date)).insertionSort fun a b => a.position ≤ b.position).map (·.taskId)

/-- The tasks carried forward, in the order of the decisions. -/
def carriedForward (decisions : List ReviewDecision) : List Uuid :=
  (decisions.filter fun d => d.action == .carryForward).map (·.taskId)

/-- A row after the decisions: with the new deadline and one version more, if there is one for it. -/
def redated (decisions : List ReviewDecision) (now : DateTime) (t : TaskRow) : TaskRow :=
  match decisions.find? fun d => d.taskId == t.id && d.action == .reschedule with
  | some d => { t with dueAt := d.dueAt, updatedAt := now, version := t.version + 1 }
  | none => t

/-- A decision whose task no later one is about. -/
theorem redated_cons {d : ReviewDecision} {rest : List ReviewDecision} {now : DateTime} {dueAt : DateTime}
    (ha : d.action = .reschedule) (hdue : d.dueAt = some dueAt) (hnew : d.taskId ∉ rest.map (·.taskId)) (t : TaskRow) :
    redated rest now (if (t.id == d.taskId) = true then
        { t with dueAt := some dueAt, updatedAt := now, version := t.version + 1 } else t) =
      redated (d :: rest) now t := by
  by_cases hid : t.id = d.taskId
  · have hnone : rest.find? (fun x => x.taskId == t.id && x.action == .reschedule) = none := by
      rw [List.find?_eq_none]
      intro x hx heq
      rw [Bool.and_eq_true, beq_iff_eq, hid] at heq
      exact hnew (List.mem_map.2 ⟨x, hx, heq.1⟩)
    rw [if_pos (by simpa using hid)]
    unfold redated
    simp only [List.find?_cons, hid, beq_self_eq_true, ha, Bool.and_true, hdue]
    rw [hid] at hnone
    rw [hnone]
  · have hne : (d.taskId == t.id) = false := beq_eq_false_iff_ne.2 fun h => hid h.symm
    rw [if_neg (by simpa using hid)]
    unfold redated
    simp only [List.find?_cons, hne, Bool.false_and]

theorem redated_other {d : ReviewDecision} {rest : List ReviewDecision} {now : DateTime} (ha : d.action ≠ .reschedule)
    (t : TaskRow) : redated (d :: rest) now t = redated rest now t := by
  have hne : (d.action == .reschedule) = false := beq_eq_false_iff_ne.2 ha
  unfold redated
  simp only [List.find?_cons, hne, Bool.and_false]

/-- The decisions write deadlines, and nothing else. -/
theorem decideReview_writes : ∀ {decisions : List ReviewDecision} {carried l : List Uuid} {w w' : Workspace},
    decideReview decisions carried w = .ok (l, w') → (decisions.map (·.taskId)).Nodup →
      w' = { w with db := { w.db with tasks := w.db.tasks.map (redated decisions w.db.now) } } ∧
        ∀ d ∈ decisions, d.action = .reschedule → d.dueAt ≠ none
  | [], carried, l, w, w', h, _ => by
    cases h
    refine ⟨?_, by simp⟩
    have hself : w.db.tasks.map (redated [] w.db.now) = w.db.tasks := List.map_id _
    rw [hself]
  | d :: rest, carried, l, w, w', h, hn => by
    obtain ⟨hnew, hrest⟩ := List.nodup_cons.1 hn
    unfold decideReview at h
    have hother : ∀ {carried'}, d.action ≠ .reschedule → decideReview rest carried' w = .ok (l, w') →
        w' = { w with db := { w.db with tasks := w.db.tasks.map (redated (d :: rest) w.db.now) } } ∧
          ∀ x ∈ d :: rest, x.action = .reschedule → x.dueAt ≠ none := by
      intro carried' ha hrun
      obtain ⟨rfl, hdue⟩ := decideReview_writes hrun hrest
      refine ⟨?_, fun x hx hx' => ?_⟩
      · have hrows : w.db.tasks.map (redated rest w.db.now) = w.db.tasks.map (redated (d :: rest) w.db.now) :=
          List.map_congr_left fun t _ => (redated_other ha t).symm
        rw [hrows]
      · rcases List.mem_cons.1 hx with rfl | hx
        · exact absurd hx' ha
        · exact hdue x hx hx'
    cases ha : d.action with
    | carryForward =>
      simp only [ha] at h
      exact hother (by simp [ha]) h
    | remove =>
      simp only [ha] at h
      exact hother (by simp [ha]) h
    | reschedule =>
      cases hd : d.dueAt with
      | none =>
        simp only [ha, hd] at h
        cases h
      | some dueAt =>
        simp only [ha, hd, Tx.write_bind_run] at h
        obtain ⟨rfl, hdue⟩ := decideReview_writes h hrest
        refine ⟨?_, fun x hx hx' => ?_⟩
        · have hrows : (update (·.id == d.taskId) (fun t : TaskRow =>
                { t with dueAt := some dueAt, updatedAt := w.db.now, version := t.version + 1 }) w.db.tasks).map
              (redated rest w.db.now) = w.db.tasks.map (redated (d :: rest) w.db.now) := by
            unfold update
            rw [List.map_map]
            exact List.map_congr_left fun t _ => redated_cons ha hd hnew t
          show _ = { w with db := { w.db with tasks := _ } }
          rw [← hrows]
          rfl
        · rcases List.mem_cons.1 hx with rfl | hx
          · simp [hd]
          · exact hdue x hx hx'

/-- A review that is completed. -/
def completedReview (now : DateTime) (review : DailyReview) : DailyReview :=
  { review with status := .completed, completedAt := some now, version := review.version + 1 }

/-- What a successful completion has checked, and what it has written. -/
structure Completion (date : NaiveDate) (version : Int) (decisions : List ReviewDecision) (w w' : Workspace)
    (review : DailyReview) (previous : NaiveDate) : Prop where
  found : w.reviews.find? (·.reviewDate == date) = some review
  open_ : review.status ≠ .completed
  version : review.version = version
  lookback : previousUnfinishedFocusDate date w = some previous
  single : (decisions.map (·.taskId)).Nodup
  decided : ∀ t, t ∈ decisions.map (·.taskId) ↔ t ∈ (focusTasksForDate previous w).map (·.id)
  dated : ∀ d ∈ decisions, d.action = .reschedule → d.dueAt ≠ none
  short : (dedup (frontInserted (chosen date w) (carriedForward decisions))).length ≤ 3
  db : w'.db = { w.db with tasks := w.db.tasks.map (redated decisions w.db.now) }
  focus : w'.focus = Table.delete (·.focusDate == date) w.focus ++
    focusRows date w.db.now (dedup (frontInserted (chosen date w) (carriedForward decisions)))
  reviews : w'.reviews = Table.update (·.id == review.id) (fun _ => completedReview w.db.now review) w.reviews

theorem completeDailyReview_ok {version : Int} {r : DailyReview}
    (h : completeDailyReview date version decisions w = .ok (r, w')) :
    ∃ review previous, Completion date version decisions w w' review previous := by
  unfold completeDailyReview at h
  rw [Tx.write_bind_run, Tx.read_bind_run] at h
  cases hr : w.reviews.find? (·.reviewDate == date) with
  | none =>
    simp only [hr] at h
    cases h
  | some review =>
    simp only [hr] at h
    split at h
    · cases h
    next hopen =>
      split at h
      · cases h
      next hversion =>
        cases hp : previousUnfinishedFocusDate date
            { w with revisions := Workspace.bump .reviewSelection 1 w.revisions } with
        | none =>
          simp only [hp] at h
          cases h
        | some previous =>
          simp only [hp, Tx.write_bind_run] at h
          split at h
          · cases h
          next hdecided =>
            obtain ⟨carried, u, hdecide, h⟩ := Tx.bind_ok h
            obtain ⟨-, rfl⟩ := decideReview_ok hdecide
            have hsingle : (decisions.map (·.taskId)).Nodup := not_not.1 fun hn => hdecided (.inl hn)
            obtain ⟨rfl, hdated⟩ := decideReview_writes hdecide hsingle
            split at h
            · cases h
            next hshort =>
              cases h
              refine ⟨review, previous, hr, hopen, not_not.1 hversion, hp, hsingle, fun t => ?_, hdated,
                Nat.not_lt.1 hshort, rfl, rfl, rfl⟩
              constructor
              · intro ht
                exact (not_not.1 fun hn => hdecided (.inr (.inl hn)) : decisions.map (·.taskId) ⊆ _) ht
              · intro ht
                exact (not_not.1 fun hn => hdecided (.inr (.inr hn)) : _ ⊆ decisions.map (·.taskId)) ht

/-! ## The focus list -/

/-- The keys of the tables a review reads and writes. -/
structure Keyed (w : Workspace) : Prop where
  taskIds : Unique (fun t : TaskRow => some t.id) w.db.tasks
  focusTasks : Unique (fun f : FocusTask => some (f.focusDate, f.taskId)) w.focus
  focusPositions : Unique (fun f : FocusTask => some (f.focusDate, f.position)) w.focus
  reviewIds : Unique (fun r : DailyReview => some r.id) w.reviews
  reviewDates : Unique (fun r : DailyReview => some r.reviewDate) w.reviews

theorem Keyed.chosen_nodup (hw : Keyed w) (date : NaiveDate) : (chosen date w).Nodup := by
  unfold chosen
  refine ((List.perm_insertionSort _ _).map _).nodup_iff.2 ?_
  have hrows := hw.focusTasks.sublist (List.filter_sublist (p := (·.focusDate == date)))
  refine List.pairwise_map.2 (hrows.imp_of_mem fun {f g} hf hg hfg heq => ?_)
  have hdates : f.focusDate = g.focusDate :=
    (beq_iff_eq.1 (List.mem_filter.1 hf).2).trans (beq_iff_eq.1 (List.mem_filter.1 hg).2).symm
  rcases hfg with hfg | hfg
  · cases hfg
  · refine hfg ?_
    show some (f.focusDate, f.taskId) = some (g.focusDate, g.taskId)
    rw [hdates, heq]

theorem carriedForward_nodup (h : (decisions.map (·.taskId)).Nodup) : (carriedForward decisions).Nodup :=
  h.sublist (List.Sublist.map _ List.filter_sublist)

/-- The unfinished tasks of a date are among those chosen for it, in their order. -/
theorem unfinished_sublist (date : NaiveDate) (w : Workspace) :
    ((focusTasksForDate date w).map (·.id)).Sublist (chosen date w) := by
  unfold focusTasksForDate chosen
  generalize (w.focus.filter (·.focusDate == date)).insertionSort (fun a b => a.position ≤ b.position) = l
  induction l with
  | nil => exact List.Sublist.slnil
  | cons f l ih =>
    rw [List.filterMap_cons]
    cases ht : (w.db.task? f.taskId).filter (·.status != .completed) with
    | none => exact ih.cons _
    | some t =>
      rw [List.map_cons, List.map_cons, (task?_mem (Option.filter_eq_some_iff.1 ht).1).2]
      exact ih.cons_cons _

theorem mem_focusRows {now : DateTime} {tasks : List Uuid} {f : FocusTask} (hf : f ∈ focusRows date now tasks) :
    f.focusDate = date := by
  obtain ⟨i, hi, rfl⟩ := List.mem_mapIdx.1 hf
  rfl

/-- The rows that are written are in order already. -/
theorem insertionSort_focusRows (date : NaiveDate) (now : DateTime) (tasks : List Uuid) :
    (focusRows date now tasks).insertionSort (fun a b => a.position ≤ b.position) = focusRows date now tasks := by
  refine List.Pairwise.insertionSort_eq (List.pairwise_iff_getElem.2 fun i j hi hj hij => ?_)
  simp only [focusRows, List.getElem_mapIdx]
  omega

theorem filter_focusRows (l : List FocusTask) (now : DateTime) (tasks : List Uuid) :
    (Table.delete (·.focusDate == date) l ++ focusRows date now tasks).filter (·.focusDate == date) =
      focusRows date now tasks := by
  rw [List.filter_append, List.filter_eq_nil_iff.2 fun f hf => ?_, List.nil_append, List.filter_eq_self.2 fun f hf => ?_]
  · simpa using mem_focusRows hf
  · simpa using (mem_delete.1 hf).2

theorem delete_focusRows (l : List FocusTask) (now : DateTime) (tasks : List Uuid) :
    Table.delete (·.focusDate == date) (Table.delete (·.focusDate == date) l ++ focusRows date now tasks) =
      Table.delete (·.focusDate == date) l := by
  have hrows : (focusRows date now tasks).filter (fun f => !(f.focusDate == date)) = [] :=
    List.filter_eq_nil_iff.2 fun f hf => by simpa using mem_focusRows hf
  unfold Table.delete
  rw [List.filter_append, hrows, List.append_nil, List.filter_filter]
  simp

/-! ## A right completion -/

/-- The focus of the date is what was chosen for it and then what is carried forward, the deadlines
are written, and the review is completed. -/
structure BuildsFocus (date : NaiveDate) (decisions : List ReviewDecision) (w w' : Workspace) : Prop where
  /-- Exactly the unfinished tasks of the latest earlier date are decided about, each once. -/
  decided : ∃ previous, previousUnfinishedFocusDate date w = some previous ∧
    (decisions.map (·.taskId)).Perm ((focusTasksForDate previous w).map (·.id))
  ordered : chosen date w' = chosen date w ++ (carriedForward decisions).filter (· ∉ chosen date w)
  single : (chosen date w').Nodup
  short : (chosen date w').length ≤ 3
  positions : ((w'.focus.filter (·.focusDate == date)).insertionSort fun a b => a.position ≤ b.position).map (·.position) =
    (List.range (chosen date w').length).map fun (i : Nat) => (i : Int) + 1
  others : Table.delete (·.focusDate == date) w'.focus = Table.delete (·.focusDate == date) w.focus
  dated : ∀ d ∈ decisions, d.action = .reschedule → d.dueAt ≠ none
  tasks : w'.db.tasks = w.db.tasks.map (redated decisions w.db.now)
  completed : ∃ review, review ∈ w.reviews ∧ review.reviewDate = date ∧ review.status = .open_ ∧
    w'.reviews = Table.update (·.id == review.id) (fun _ => completedReview w.db.now review) w.reviews
  /-- No later completion is accepted. -/
  once : ∀ version decisions', ∃ message, completeDailyReview date version decisions' w' = .error (.conflict message)

/-- A completion that is accepted builds the right focus; one that fails leaves everything as it was. -/
def Right (date : NaiveDate) (version : Int) (decisions : List ReviewDecision) (w : Workspace) : Prop :=
  (∀ r w', completeDailyReview date version decisions w = .ok (r, w') → BuildsFocus date decisions w w') ∧
  ∀ e, completeDailyReview date version decisions w = .error e →
    (completeDailyReview date version decisions).commit w = (.error e, w)

def Accepted (date : NaiveDate) (version : Int) (decisions : List ReviewDecision) (w : Workspace) : Prop :=
  ∃ r w', completeDailyReview date version decisions w = .ok (r, w')

theorem Completion.chosen_eq {version : Int} {review : DailyReview} {previous : NaiveDate}
    (h : Completion date version decisions w w' review previous) (hw : Keyed w) :
    chosen date w' = frontInserted (chosen date w) (carriedForward decisions) := by
  have hnodup := nodup_frontInserted (hw.chosen_nodup date) (carriedForward_nodup h.single)
  unfold chosen
  rw [h.focus, filter_focusRows, insertionSort_focusRows, dedup_of_nodup hnodup]
  exact List.ext_getElem (by simp [focusRows, chosen]) fun i _ _ => by simp [focusRows, chosen]

theorem completeDailyReview_again {version : Int} {review : DailyReview} {previous : NaiveDate}
    (h : Completion date version decisions w w' review previous) (hw : Keyed w) (version' : Int)
    (decisions' : List ReviewDecision) :
    ∃ message, completeDailyReview date version' decisions' w' = .error (.conflict message) := by
  have hrow : w'.reviews = Table.update (·.id == review.id) (completedReview w.db.now) w.reviews := by
    rw [h.reviews]
    refine update_congr fun r hr hid => ?_
    rw [hw.reviewIds.eq hr (List.mem_of_find?_eq_some h.found) rfl (by rw [beq_iff_eq.1 hid])]
  have hfound : w'.reviews.find? (·.reviewDate == date) = some (completedReview w.db.now review) := by
    rw [hrow, find_update (f := completedReview w.db.now) fun _ => rfl, h.found]
    simp
  refine ⟨"daily review is already completed", ?_⟩
  unfold completeDailyReview
  rw [Tx.write_bind_run, Tx.read_bind_run]
  simp only [hfound]
  rw [if_pos (show (completedReview w.db.now review).status = .completed from rfl)]
  rfl

theorem Completion.builds {version : Int} {review : DailyReview} {previous : NaiveDate}
    (h : Completion date version decisions w w' review previous) (hw : Keyed w)
    (hleading : Leading (chosen date w) (carriedForward decisions)) : BuildsFocus date decisions w w' := by
  have hchosen := hw.chosen_nodup date
  have hcarried := carriedForward_nodup h.single
  have hnodup := nodup_frontInserted hchosen hcarried
  have hlength : (chosen date w').length ≤ 3 := by
    rw [h.chosen_eq hw, ← dedup_of_nodup hnodup]
    exact h.short
  refine ⟨⟨previous, h.lookback, ?_⟩, ?_, ?_, hlength, ?_, ?_, h.dated, ?_, ⟨review, ?_, ?_, ?_, h.reviews⟩,
    completeDailyReview_again h hw⟩
  · refine (List.perm_ext_iff_of_nodup h.single ?_).2 h.decided
    exact (hw.chosen_nodup previous).sublist (unfinished_sublist previous w)
  · rw [h.chosen_eq hw]
    exact (frontInserted_ordered_iff hchosen hcarried).2 hleading
  · rw [h.chosen_eq hw]
    exact hnodup
  · rw [h.chosen_eq hw, h.focus, filter_focusRows, insertionSort_focusRows, dedup_of_nodup hnodup]
    exact List.ext_getElem (by simp [focusRows]) fun i _ _ => by simp [focusRows]
  · rw [h.focus]
    exact delete_focusRows _ _ _
  · rw [h.db]
  · exact List.mem_of_find?_eq_some h.found
  · simpa using List.find?_some h.found
  · cases hs : review.status with
    | open_ => rfl
    | completed => exact absurd hs h.open_

/-- A completion does what it should, in every table and with every request, exactly when the
insertions at the front have nothing to turn around. -/
theorem review_right_iff (hw : Keyed w) (date : NaiveDate) (version : Int) (decisions : List ReviewDecision) :
    Right date version decisions w ↔
      (Accepted date version decisions w → Leading (chosen date w) (carriedForward decisions)) := by
  constructor
  · rintro ⟨hright, -⟩ ⟨r, w', hrun⟩
    obtain ⟨review, previous, h⟩ := completeDailyReview_ok hrun
    rw [← frontInserted_ordered_iff (hw.chosen_nodup date) (carriedForward_nodup h.single), ← h.chosen_eq hw]
    exact (hright r w' hrun).ordered
  · intro hleading
    refine ⟨fun r w' hrun => ?_, fun e he => ?_⟩
    · obtain ⟨review, previous, h⟩ := completeDailyReview_ok hrun
      exact h.builds hw (hleading ⟨r, w', hrun⟩)
    · unfold Tx.commit
      rw [he]

/-! ## A day that was planned before its review -/

/-- Three tasks, one of them in the focus of day 1 and the others in that of day 2, where the review is open. -/
def planned : Workspace :=
  (Tx.commit (startDailyReview 2 true) (Tx.commit (updateDailyFocus 2 [1, 2]) (Tx.commit (updateDailyFocus 1 [0])
    ((Action.createTask chore).perform ⟨id, fun _ => 0⟩ chores)).2).2).2

theorem keyed_planned : Keyed planned :=
  ⟨by decide +kernel, by decide +kernel, by decide +kernel, by decide +kernel, by decide +kernel⟩

/-- The two previous choices change places. -/
theorem previous_choices_turned : ¬ ∀ w date version decisions, Keyed w → Right date version decisions w := by
  intro h
  obtain ⟨r, hrun⟩ := Tx.commit_ok (t := completeDailyReview 2 1 [⟨0, .carryForward, none⟩]) (s := planned)
    (by decide +kernel)
  have hordered := ((h planned 2 1 [⟨0, .carryForward, none⟩] keyed_planned).1 r _ hrun).ordered
  exact absurd hordered (by decide +kernel)

/-- A day with one choice, to which nothing is carried. -/
theorem review_right_iff_planned : Right 2 1 [⟨0, .remove, none⟩] (Tx.commit (updateDailyFocus 2 [1]) planned).2 :=
  (review_right_iff ⟨by decide +kernel, by decide +kernel, by decide +kernel, by decide +kernel, by decide +kernel⟩ 2 1
    [⟨0, .remove, none⟩]).2 fun _ => ⟨[1], [], by decide +kernel, by decide, List.nil_prefix, by simp [carriedForward]⟩

end Store

end Prosepect
