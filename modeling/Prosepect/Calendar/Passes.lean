/-
Synchronizations among other parties: the tables of a user while passes run over them, statement
by statement, with whatever Google answers and whatever an observer notes on the way.

- `Observer.system`: the runs of `sync_calendars` an observer allows;
- the rules of its statements and requests;
- the rule of a delivery: it reads a mapping, perhaps the policy, and takes one exit
  (`holds_applyRemoteEvent`);
- `Kept`: what a family of assertions has to satisfy to hold through a whole pass
  (`Kept.syncCalendars`), and with it in every run (`Kept.reach`).
-/
import Prosepect.Calendar.Delivery
import Prosepect.Resumption.Interleave

namespace Prosepect

open Resumption SyncService

/-- The tables, and what an observer has noted. -/
structure Watched (G : Type) where
  db : Db
  notes : G

/-- An observer of the runs of a synchronization. -/
structure Observer (G : Type) where
  /-- What it notes when a statement has run. -/
  note : (s : Stmt) → Db → s.Val → G → G
  /-- What a request may be answered, and what is noted of it. -/
  answers : (q : Request) → Watched G → Except Unit (Response q.Body) → G → Prop
  /-- The statements it lets run. -/
  allowed : Stmt → Watched G → Prop
  /-- A statement may fail before it does anything, and a run end before an operation. -/
  fault : Op → Watched G → Prop
  /-- What others do, while a synchronization runs and while none does. -/
  others : Bool → Watched G → Watched G → Prop

namespace Observer

variable {G : Type} (O : Observer G)

/-- A statement runs, or fails and changes nothing; a request is answered in some way, some time later. -/
def step : (o : Op) → Watched G → o.Res → Watched G → Prop
  | .sql s, w, r, w' =>
    (O.allowed s w ∧ ∃ v db', s.run w.db = .ok (v, db') ∧ r = .ok v ∧ w' = ⟨db', O.note s w.db v w.notes⟩) ∨
    ((O.fault (.sql s) w ∨ ∃ e, s.run w.db = .error e) ∧ (∃ e, r = .error e) ∧ w' = w)
  | .http q, w, r, w' => ∃ t g, w.db.now ≤ t ∧ O.answers q w r g ∧ w' = ⟨{ w.db with now := t }, g⟩

/-- One synchronization at a time, for all calendars or one. -/
def system : System calendarSig SyncError (Watched G) where
  step := O.step
  env := O.others
  start p _ := ∃ fuel only, p = syncCalendars fuel only
  cut := O.fault

/-! ## Statements and requests -/

section Rules

variable {O} {α : Type} {At : Op → Watched G → Prop} {Q : Except SyncError α → Watched G → Prop}
  {A : Watched G → Prop}

/-- A statement and what follows it. -/
theorem holds_sql (hA : Stable O.system A) {s : Stmt} {f : s.Val → Sync α} (hat : ∀ w, A w → At (.sql s) w)
    (hok : ∀ w v db', A w → O.allowed s w → s.run w.db = .ok (v, db') →
      Holds O.system At Q (f v) ⟨db', O.note s w.db v w.notes⟩)
    (herr : ∀ w e, A w → (O.fault (.sql s) w ∨ ∃ e, s.run w.db = .error e) → Holds O.system At Q (.fail e) w)
    {w : Watched G} (hw : A w) : Holds O.system At Q ((sql s).bind f) w := by
  refine holds_op hA hat ?_ hw
  rintro w r w' hw (⟨hallowed, v, db', hrun, rfl, rfl⟩ | ⟨hfault, ⟨e, rfl⟩, rfl⟩)
  · exact hok w v db' hw hallowed hrun
  · exact herr w' _ hw hfault

/-- A statement that keeps an assertion. -/
theorem keeps_sql (hA : Stable O.system A) {s : Stmt} (hat : ∀ w, A w → At (.sql s) w)
    (hok : ∀ w v db', A w → O.allowed s w → s.run w.db = .ok (v, db') → A ⟨db', O.note s w.db v w.notes⟩) :
    Keeps O.system At A (sql s) := by
  refine Keeps.op hA hat ?_
  rintro w r w' hw (⟨hallowed, v, db', hrun, rfl, rfl⟩ | ⟨-, ⟨e, rfl⟩, rfl⟩)
  · exact ⟨hok w v db' hw hallowed hrun, .ret hA v⟩
  · exact ⟨hw, .fail hA _⟩

/-- An assertion that holds on whatever a request is answered. -/
def Answered (O : Observer G) (A : Watched G → Prop) : Prop :=
  ∀ q w r t g, A w → w.db.now ≤ t → O.answers q w r g → A ⟨{ w.db with now := t }, g⟩

theorem keeps_request (hA : Stable O.system A) (hanswer : Answered O A) {q : Request} (hat : ∀ w, A w → At (.http q) w) :
    Keeps O.system At A (request q) := by
  refine Keeps.op hA hat ?_
  rintro w r w' hw ⟨t, g, ht, hr, rfl⟩
  refine ⟨hanswer q w r t g hw ht hr, ?_⟩
  cases r with
  | ok response => exact .ret hA response
  | error e => exact .fail hA _

/-- What is learnt from an answer holds of the answer a request ends with. -/
theorem holds_request (hA : Stable O.system A) (hanswer : Answered O A) {q : Request} (hat : ∀ w, A w → At (.http q) w)
    {H : Response q.Body → Watched G → Prop} (hH : ∀ r, Stable O.system (H r))
    (hlearn : ∀ w r t g, A w → w.db.now ≤ t → O.answers q w (.ok r) g → H r ⟨{ w.db with now := t }, g⟩)
    {w : Watched G} (hw : A w) :
    Holds O.system At (fun x w => A w ∧ ∀ r, x = .ok r → H r w) (request q) w := by
  refine holds_op hA hat ?_ hw
  rintro w r w' hw ⟨t, g, ht, hr, rfl⟩
  have hw' := hanswer q w r t g hw ht hr
  cases r with
  | ok response =>
    refine holds_ret (A := fun w => A w ∧ H response w) (hA.and (hH response)) ?_ ⟨hw', hlearn w response t g hw ht hr⟩
    rintro w ⟨ha, hl⟩
    refine ⟨ha, ?_⟩
    rintro _ ⟨⟩
    exact hl
  | error e =>
    refine holds_fail hA ?_ hw'
    intro w ha
    refine ⟨ha, ?_⟩
    rintro _ ⟨⟩

theorem holds_send (hA : Stable O.system A) (hanswer : Answered O A) {q : Request} (hat : ∀ w, A w → At (.http q) w)
    {H : Response q.Body → Watched G → Prop} (hH : ∀ r, Stable O.system (H r))
    (hlearn : ∀ w r t g, A w → w.db.now ≤ t → O.answers q w (.ok r) g → H r ⟨{ w.db with now := t }, g⟩) :
    ∀ attempts w, A w → Holds O.system At (fun x w => A w ∧ ∀ r, x = .ok r → H r w) (sendFrom q attempts) w
  | 0, _, hw => holds_request hA hanswer hat hH hlearn hw
  | attempts + 1, _, hw => by
    refine Holds.bind ?_ ?_ (holds_request hA hanswer hat hH hlearn hw)
    · rintro response w ⟨hw, hl⟩
      by_cases hagain : retryable response.status = true
      · rw [if_pos hagain]
        exact holds_send hA hanswer hat hH hlearn attempts w hw
      · rw [if_neg hagain]
        refine holds_ret (A := fun w => A w ∧ H response w) (hA.and (hH response)) ?_ ⟨hw, hl response rfl⟩
        rintro w ⟨ha, hl⟩
        refine ⟨ha, ?_⟩
        rintro _ ⟨⟩
        exact hl
    · rintro e w ⟨hw, -⟩
      refine ⟨hw, ?_⟩
      rintro _ ⟨⟩

theorem keeps_send (hA : Stable O.system A) (hanswer : Answered O A) {q : Request} (hat : ∀ w, A w → At (.http q) w) :
    Keeps O.system At A (send q) := by
  intro w hw
  have h := holds_send hA hanswer hat (H := fun _ _ => True) (fun _ _ _ _ _ => trivial) (fun _ _ _ _ _ _ _ => trivial) 3 w hw
  exact h.mono (fun _ _ h => h) fun _ _ h => h.1

theorem keeps_errorForStatus (hA : Stable O.system A) {β : Type} (context : String) (response : Response β) :
    Keeps O.system At A (errorForStatus context response) :=
  .ite (fun _ => .fail hA _) fun _ => .ret hA response

theorem keeps_json (hA : Stable O.system A) {β : Type} (context : String) (response : Response β) :
    Keeps O.system At A (json context response) := by
  unfold json
  split
  · exact .ret hA _
  · exact .fail hA _

theorem keeps_sendJson (hA : Stable O.system A) (hanswer : Answered O A) {q : Request} (hat : ∀ w, A w → At (.http q) w) :
    Keeps O.system At A (sendJson q) :=
  (keeps_send hA hanswer hat).bind fun response => (keeps_errorForStatus hA _ response).bind fun response =>
    keeps_json hA _ response

/-- Statements of one kind keep an assertion. -/
theorem keeps_only (hA : Stable O.system A) {P : Stmt → Prop} (hat : ∀ s w, P s → A w → At (.sql s) w)
    (hok : ∀ s w v db', P s → A w → O.allowed s w → s.run w.db = .ok (v, db') → A ⟨db', O.note s w.db v w.notes⟩)
    {p : Sync α} (hp : p.Only fun o => ∃ s, o = Op.sql s ∧ P s) : Keeps O.system At A p := by
  refine hp.keeps hA ?_ ?_
  · rintro o w ⟨s, rfl, hs⟩ hw
    exact hat s w hs hw
  · rintro o w r w' ⟨s, rfl, hs⟩ hw (⟨hallowed, v, db', hrun, rfl, rfl⟩ | ⟨-, -, rfl⟩)
    · exact hok s w v db' hs hw hallowed hrun
    · exact hw

end Rules

/-! ## Deliveries -/

section Delivery

variable {O} {At : Op → Watched G → Prop} {Q : Except SyncError Unit → Watched G → Prop}
  {A : Watched G → Prop} {R : Option MappingState → Watched G → Prop} {c : SyncCalendar} {event : GoogleEvent}

/-- What the policy may be when it is read. -/
theorem holds_policyOf (st : MappingState) {f : SyncConflictPolicy → Sync Unit} (hA : Stable O.system A)
    (hat : ∀ w, A w → At (.sql .selectPolicy) w)
    (hpolicy : ∀ w, A w → A ⟨w.db, O.note .selectPolicy w.db w.db.policy w.notes⟩)
    (herr : ∀ w e, A w → (O.fault (.sql .selectPolicy) w ∨ ∃ e, Stmt.selectPolicy.run w.db = .error e) →
      Holds O.system At Q (.fail e) w)
    (hf : ∀ w, A w → Holds O.system At Q (f (policyInForce w.db.policy st)) w) {w : Watched G} (hw : A w) :
    Holds O.system At Q ((policyOf st).bind f) w := by
  unfold policyOf
  cases hp : st.pendingResolution with
  | some r =>
    have h := hf w hw
    rw [policyInForce, hp] at h
    exact h
  | none =>
    simp only [Prog.bind_eq, Prog.bind_assoc]
    refine holds_sql hA hat ?_ herr hw
    intro w v db' hw _ hrun
    cases hrun
    have h := hf _ (hpolicy w hw)
    rw [policyInForce, hp] at h
    exact h

/-- A delivery reads the mapping, the policy if it needs it, and takes the exit of the decision table. -/
theorem holds_applyRemoteEvent (hA : Stable O.system A) (hR : ∀ m, Stable O.system (R m))
    (hquiet : event.id = none → ∀ w, A w → Q (.ok ()) w)
    (hat : ∀ x w, event.id = some x → A w → At (.sql (.selectMapping c.externalId x)) w)
    (hread : ∀ x w, event.id = some x → A w → R ((w.db.mappingAt? c.externalId x).map w.db.mappingState)
      ⟨w.db, O.note (.selectMapping c.externalId x) w.db ((w.db.mappingAt? c.externalId x).map w.db.mappingState) w.notes⟩)
    (herr : ∀ s w e, A w → (O.fault (.sql s) w ∨ ∃ e, s.run w.db = .error e) → Holds O.system At Q (.fail e) w)
    (hback : ∀ m w, R m w → A w)
    (hpolicyAt : ∀ w, A w → At (.sql .selectPolicy) w)
    (hpolicy : ∀ m w, R m w → R m ⟨w.db, O.note .selectPolicy w.db w.db.policy w.notes⟩)
    (hexit : ∀ x m w, event.id = some x → R m w →
      Holds O.system At Q ((exitOf x event w.db.policy m).perform c event) w)
    {w : Watched G} (hw : A w) : Holds O.system At Q (applyRemoteEvent c event) w := by
  unfold applyRemoteEvent
  cases hid : event.id with
  | none => exact holds_ret hA (hquiet hid) hw
  | some x =>
    refine holds_sql hA (fun w => hat x w hid) ?_ (herr _) hw
    intro w v db' hw _ hrun
    cases hrun
    have hr := hread x w hid hw
    generalize (w.db.mappingAt? c.externalId x).map w.db.mappingState = m at hr
    generalize O.note (.selectMapping c.externalId x) w.db m w.notes = g at hr
    have h := hexit x m _ hid hr
    cases m with
    | none =>
      simp only [exitOf] at h
      dsimp only
      by_cases hc : event.cancelled = true
      · rw [if_pos hc] at h ⊢
        exact h
      · rw [if_neg hc] at h ⊢
        cases hn : normalizeEvent event with
        | ok n =>
          rw [hn] at h
          exact h
        | error message =>
          rw [hn] at h
          exact h
    | some st =>
      have hpolicies : ∀ f : SyncConflictPolicy → Sync Unit,
          (∀ w, R (some st) w → Holds O.system At Q (f (policyInForce w.db.policy st)) w) →
          Holds O.system At Q ((policyOf st).bind f) ⟨w.db, g⟩ := fun f hf =>
        holds_policyOf st (hR (some st)) (fun w hr => hpolicyAt w (hback _ w hr)) (hpolicy (some st))
          (fun w e hr => herr _ w e (hback _ w hr)) hf hr
      have hdecide : ∀ w, R (some st) w →
          Holds O.system At Q ((exitOf x event w.db.policy (some st)).perform c event) w := fun w hr => hexit x _ w hid hr
      simp only [exitOf] at h hdecide
      dsimp only
      by_cases ht : st.reversibleTombstone = true
      · rw [if_pos ht] at h ⊢
        unfold applyToTombstone
        unfold exitTombstone at h
        by_cases hc : event.cancelled = true
        · rw [if_pos hc] at h ⊢
          exact h
        · rw [if_neg hc] at h ⊢
          by_cases he : (event.etag.isNone || st.externalEtag != event.etag) = true
          · rw [if_pos he] at h ⊢
            exact h
          · rw [if_neg he] at h ⊢
            exact h
      · simp only [if_neg ht] at h hdecide ⊢
        by_cases hc : event.cancelled = true
        · simp only [if_pos hc] at h hdecide ⊢
          unfold applyCancelled
          unfold exitCancelled at h hdecide
          by_cases hd : st.localDirty = true
          · simp only [if_pos hd] at hdecide ⊢
            refine hpolicies _ fun w hr => ?_
            have h := hdecide w hr
            by_cases ha : policyInForce w.db.policy st = .ask
            · rw [if_pos ha] at h ⊢
              exact h
            · rw [if_neg ha] at h ⊢
              by_cases hk : keepLocal (policyInForce w.db.policy st) event st = true
              · rw [if_pos hk] at h ⊢
                exact h
              · rw [if_neg hk] at h ⊢
                exact h
          · simp only [if_neg hd] at h ⊢
            exact h
        · simp only [if_neg hc] at h hdecide ⊢
          cases hn : normalizeEvent event with
          | error message =>
            rw [hn] at h
            exact h
          | ok n =>
            simp only [hn] at h hdecide
            show Holds O.system At Q (applyChanged c st event n) ⟨w.db, g⟩
            unfold applyChanged
            unfold exitChanged at h hdecide
            by_cases he : st.externalEtag = event.etag
            · rw [if_pos he] at h ⊢
              exact h
            · simp only [if_neg he] at h hdecide ⊢
              by_cases hd : (st.localDirty || st.localDeleted) = true
              · simp only [if_pos hd] at hdecide ⊢
                refine hpolicies _ fun w hr => ?_
                have h := hdecide w hr
                by_cases ha : policyInForce w.db.policy st = .ask
                · rw [if_pos ha] at h ⊢
                  exact h
                · rw [if_neg ha] at h ⊢
                  by_cases hk : keepLocal (policyInForce w.db.policy st) event st = true
                  · rw [if_pos hk] at h ⊢
                    exact h
                  · rw [if_neg hk] at h ⊢
                    exact h
              · simp only [if_neg hd] at h ⊢
                exact h

end Delivery

/-! ## Runs without interruption -/

/-- Statements run as they do, requests are answered at once by a function of the world. -/
def exec (answer : (q : Request) → Watched G → Except Unit (Response q.Body) × G) :
    (o : Op) → Watched G → o.Res × Watched G
  | .sql s, w => match s.run w.db with
    | .ok (v, db') => (.ok v, ⟨db', O.note s w.db v w.notes⟩)
    | .error e => (.error e, w)
  | .http q, w => ((answer q w).1, ⟨w.db, (answer q w).2⟩)

theorem reach_exec (hallowed : ∀ s w, O.allowed s w)
    (answer : (q : Request) → Watched G → Except Unit (Response q.Body) × G)
    (hanswer : ∀ q w, O.answers q w (answer q w).1 (answer q w).2) (p : Sync Unit) (w : Watched G) :
    Reach O.system ⟨w, some p⟩ ⟨(p.run (O.exec answer) w).2, none⟩ := by
  refine reach_run (I := fun _ => True) ?_ p w trivial
  intro o w _
  refine ⟨trivial, w, .refl w, ?_⟩
  cases o with
  | http q => exact ⟨w.db.now, _, le_rfl, hanswer q w, rfl⟩
  | sql s =>
    cases h : s.run w.db with
    | ok x =>
      have hx : O.exec answer (.sql s) w = (.ok x.1, ⟨x.2, O.note s w.db x.1 w.notes⟩) := by simp only [exec, h]
      rw [hx]
      exact .inl ⟨hallowed s w, x.1, x.2, h, rfl, rfl⟩
    | error e =>
      have hx : O.exec answer (.sql s) w = (.error e, w) := by simp only [exec, h]
      rw [hx]
      exact .inr ⟨.inr ⟨e, h⟩, ⟨e, rfl⟩, rfl⟩

end Observer

/-! ## Whole passes -/

/-- The requests that do not write. -/
def Request.reads : Request → Bool
  | .listEvents .. | .getEvent .. | .accessToken => true
  | .postEvent .. | .putEvent .. | .deleteEvent .. => false

/-- The statements that keep track of a pass, and say nothing of events. -/
def Stmt.bookkeeping : Stmt → Bool
  | .setSyncError .. | .setSynced .. | .selectResolutionPending .. | .recordActivity .. => true
  | _ => false

/-- Where an event that is delivered comes from: a page of the list, or the answer about a deletion. -/
inductive Source (c : SyncCalendar) (event : GoogleEvent) : (q : Request) → Response q.Body → Prop
  | listed {syncToken pageToken : Option String} {status : Nat} {page : GoogleEventList} :
    ¬ (400 ≤ status ∧ status < 600) → event ∈ page.items →
    Source c event (.listEvents c.externalId syncToken pageToken) ⟨status, some page⟩
  | got {externalId : String} {status : Nat} :
    ¬ (400 ≤ status ∧ status < 600) → event.id = some externalId →
    Source c event (.getEvent c.externalId externalId) ⟨status, some event⟩

open Observer in
/-- Assertions `J cs`, of the calendars `cs` a pass goes through, that hold through the pass; `H` is
what is learnt from answers. -/
structure Kept {G : Type} (O : Observer G) (At : Op → Watched G → Prop) (J : List SyncCalendar → Watched G → Prop)
    (H : (q : Request) → Response q.Body → Watched G → Prop) : Prop where
  stable : ∀ cs, Stable O.system (J cs)
  answered : ∀ cs, Answered O (J cs)
  lasting : ∀ q r, Lasting O.system (H q r)
  learnt : ∀ cs q w r t g, J cs w → w.db.now ≤ t → O.answers q w (.ok r) g → H q r ⟨{ w.db with now := t }, g⟩
  forget : ∀ cs w, J cs w → J [] w
  reading : ∀ cs q w, q.reads = true → J cs w → At (.http q) w
  selecting : ∀ only w, J [] w → At (.sql (.selectCalendars only)) w
  selected : ∀ only w cs db', J [] w → (Stmt.selectCalendars only).run w.db = .ok (cs, db') →
    J cs ⟨db', O.note (.selectCalendars only) w.db cs w.notes⟩
  keeping : ∀ cs s w, s.bookkeeping = true → J cs w → At (.sql s) w
  kept : ∀ cs s w v db', s.bookkeeping = true → J cs w → s.run w.db = .ok (v, db') → J cs ⟨db', O.note s w.db v w.notes⟩
  applied : ∀ cs, ∀ c ∈ cs, ∀ event q r, Source c event q r → ∀ w, J cs w → H q r w →
    Holds O.system At (fun _ w => J cs w) (applyRemoteEvent c event) w
  dropped : ∀ cs, ∀ c ∈ cs, ∀ id, Keeps O.system At (J cs) (sql (.deletePendingMapping id))
  finished : ∀ cs, ∀ c ∈ cs, ∀ token, Keeps O.system At (J cs) (finishPull c token)
  pushed : ∀ cs, ∀ c ∈ cs, Keeps O.system At (J cs) (pushCalendar c)

namespace Kept

open Observer

variable {G : Type} {O : Observer G} {At : Op → Watched G → Prop} {J : List SyncCalendar → Watched G → Prop}
  {H : (q : Request) → Response q.Body → Watched G → Prop} {cs : List SyncCalendar} {c : SyncCalendar}

theorem bookkeeping (h : Kept O At J H) {s : Stmt} (hs : s.bookkeeping = true) : Keeps O.system At (J cs) (sql s) :=
  keeps_sql (h.stable cs) (h.keeping cs s · hs) fun w v db' hw _ hrun => h.kept cs s w v db' hs hw hrun

/-- A request that only reads, with what is learnt from its answer. -/
theorem send (h : Kept O At J H) {q : Request} (hq : q.reads = true) {w : Watched G} (hw : J cs w) :
    Holds O.system At (fun x w => J cs w ∧ ∀ r, x = .ok r → H q r w) (send q) w :=
  holds_send (h.stable cs) (h.answered cs) (h.reading cs q · hq) (fun r => (h.lasting q r).stable)
    (h.learnt cs q) 3 w hw

/-- The pages of a pull, whatever Google says is on them. -/
theorem pullPages (h : Kept O At J H) (hc : c ∈ cs) :
    ∀ fuel syncToken pageToken retriedFull, Keeps O.system At (J cs) (pullPages c fuel syncToken pageToken retriedFull)
  | 0, _, _, _ => .fail (h.stable cs) _
  | fuel + 1, syncToken, pageToken, retriedFull => by
    intro w hw
    refine Holds.bind ?_ (fun _ _ h => h.1) (h.send rfl hw)
    rintro response w ⟨hw, hlearnt⟩
    have hl := hlearnt response rfl
    by_cases hgone : response.status = 410 ∧ retriedFull = false
    · rw [if_pos hgone]
      exact h.pullPages hc fuel _ _ _ w hw
    · rw [if_neg hgone]
      unfold errorForStatus
      by_cases herror : 400 ≤ response.status ∧ response.status < 600
      · rw [if_pos herror]
        exact holds_fail (h.stable cs) (fun _ h => h) hw
      · rw [if_neg herror]
        obtain ⟨status, body⟩ := response
        cases body with
        | none => exact holds_fail (h.stable cs) (fun _ h => h) hw
        | some page =>
          have hlist : Keeps O.system At (fun w => J cs w ∧ H _ ⟨status, some page⟩ w)
              (Prog.forEach (applyRemoteEvent c) page.items) := by
            refine Keeps.forEach ((h.stable cs).and (h.lasting _ _).stable) fun event hevent => ?_
            refine (h.lasting _ _).keeps fun w hw hl => ?_
            exact h.applied cs c hc event _ _ (.listed herror hevent) w hw hl
          show Holds O.system At (fun _ w => J cs w) ((Prog.forEach (applyRemoteEvent c) page.items).bind _) w
          refine Holds.bind (fun _ w hw => ?_) (fun _ _ h => h.1) (hlist w ⟨hw, hl⟩)
          cases page.nextPageToken with
          | some token => exact h.pullPages hc fuel _ _ _ w hw.1
          | none => exact h.finished cs c hc _ w hw.1

/-- The resolved deletions, with whatever Google answers about one. -/
theorem reconciled (h : Kept O At J H) (hc : c ∈ cs) :
    Keeps O.system At (J cs) (reconcileDeletedTaskResolution c) := by
  refine (h.bookkeeping rfl).bind fun pending => Keeps.forEach (h.stable cs) fun p _ => ?_
  intro w hw
  refine Holds.bind ?_ (fun _ _ h => h.1) (h.send rfl hw)
  rintro response w ⟨hw, hlearnt⟩
  have hl := hlearnt response rfl
  by_cases hgone : response.status = 404 ∨ response.status = 410
  · rw [if_pos hgone]
    exact h.dropped cs c hc p.1 w hw
  · rw [if_neg hgone]
    unfold errorForStatus
    by_cases herror : 400 ≤ response.status ∧ response.status < 600
    · rw [if_pos herror]
      exact holds_fail (h.stable cs) (fun _ h => h) hw
    · rw [if_neg herror]
      obtain ⟨status, body⟩ := response
      cases body with
      | none => exact holds_fail (h.stable cs) (fun _ h => h) hw
      | some event =>
        show Holds O.system At _ (if event.id ≠ some p.2 then _ else _) w
        by_cases hid : event.id ≠ some p.2
        · rw [if_pos hid]
          exact holds_fail (h.stable cs) (fun _ h => h) hw
        · rw [if_neg hid]
          exact h.applied cs c hc event _ _ (.got herror (not_not.1 hid)) w hw hl

theorem syncCalendar (h : Kept O At J H) (hc : c ∈ cs) (fuel : Nat) :
    Keeps O.system At (J cs) (syncCalendar fuel c) := by
  refine (Keeps.attempt (h.pullPages hc fuel _ _ _)).bind fun outcome => ?_
  cases outcome with
  | error e => exact (h.bookkeeping rfl).bind fun _ => .fail (h.stable cs) _
  | ok _ =>
    refine (h.reconciled hc).bind fun _ => ?_
    exact (h.pushed cs c hc).bind fun _ => h.bookkeeping rfl

theorem accessToken (h : Kept O At J H) (cs : List SyncCalendar) : Keeps O.system At (J cs) accessToken :=
  (keeps_request (h.stable cs) (h.answered cs) (h.reading cs _ · rfl)).bind fun response =>
    (keeps_errorForStatus (h.stable cs) _ response).bind fun _ => .ret (h.stable cs) ()

/-- A pass over all calendars. -/
theorem syncCalendars (h : Kept O At J H) (fuel : Nat) (only : Option Uuid) :
    Keeps O.system At (J []) (syncCalendars fuel only) := by
  intro w hw
  refine holds_sql (h.stable []) (h.selecting only) ?_ ?_ hw
  · intro w cs db' hw _ hrun
    have hcs := h.selected only w cs db' hw hrun
    have hpass := (h.accessToken cs).bind fun _ => Keeps.forEach (h.stable cs) fun c hc => h.syncCalendar hc fuel
    exact (hpass _ hcs).mono (fun _ _ ha => ha) fun _ w hq => h.forget cs w hq
  · exact fun w e hw _ => holds_fail (h.stable []) (fun _ h => h) hw

/-- What holds of the tables at the start holds of every run, with `At` before each operation. -/
theorem reach (h : Kept O At J H) (hidle : ∀ w w', J [] w → O.others false w w' → J [] w')
    (hcut : ∀ o w, O.fault o w → At o w → J [] w) {c c' : Config calendarSig SyncError (Watched G)}
    (hr : Reach O.system c c') (hc : Inv O.system At (J []) c) : Inv O.system At (J []) c' := by
  refine reach_inv hidle ?_ hcut hr hc
  rintro p w ⟨fuel, only, rfl⟩ hw
  exact h.syncCalendars fuel only w hw

end Kept

end Prosepect
