/-
The rate limiter of `rate_limit.rs`: a queue of accepted times for each key, its front dropped
when the key calls again, and whole keys dropped when there are many.

It answers as one that keeps every call and counts what it accepted of the key in the window.
-/
import Prosepect.Data.KeyMap
import Prosepect.Data.SlidingWindow
import Prosepect.Store.Schema

namespace Prosepect

open SlidingWindow

/-! ## The limiter -/

structure LoginRateLimiter where
  attempts : KeyMap String (List Int)
  limit : Nat
  /-- Times are in nanoseconds. -/
  window : Nat
  message : String

namespace LoginRateLimiter

def seconds (n : Nat) : Nat := n * 1000000000

/-- `Default::default`. -/
def default : LoginRateLimiter := ⟨∅, 10, seconds 60, "too many authentication attempts; try again shortly"⟩

/-- `with_limit`. -/
def withLimit (limit : Nat) : LoginRateLimiter := ⟨∅, limit, seconds 60, "too many requests; try again shortly"⟩

def tooMany (message : String) : AppError := .invalidRequest 429 message

/-- The times the table has of a key: `entry(key).or_default()`. -/
def entries (l : LoginRateLimiter) (key : String) : List Int := (l.attempts.lookup key).getD []

/-- `attempts.retain(…)`: a key stays if its last time counts. -/
def retained (cutoff : Int) (attempts : KeyMap String (List Int)) : KeyMap String (List Int) :=
  attempts.retain fun _ entries => entries.getLast?.any fun instant => decide (cutoff < instant)

/-- `check_key` at a time, where the number of keys decides whether they are pruned. Nothing panics
under the lock, so that it is never poisoned. -/
def checkKeyPruning (prunes : Nat → Bool) (l : LoginRateLimiter) (key : String) (now : Int) :
    Except AppError Unit × LoginRateLimiter :=
  let cutoff := now - l.window
  let entries := expire cutoff (l.entries key)
  if l.limit ≤ entries.length then
    (.error (tooMany l.message), { l with attempts := l.attempts.insert key entries })
  else
    let attempts := l.attempts.insert key (entries ++ [now])
    (.ok (), { l with attempts := if prunes (KeyMap.len attempts) then retained cutoff attempts else attempts })

section

variable {prunes : Nat → Bool} {l : LoginRateLimiter} {key : String} {now : Int}

theorem checkKeyPruning_refused (h : l.limit ≤ (expire (now - l.window) (l.entries key)).length) :
    l.checkKeyPruning prunes key now =
      (.error (tooMany l.message), { l with attempts := l.attempts.insert key (expire (now - l.window) (l.entries key)) }) :=
  if_pos h

theorem checkKeyPruning_accepted (h : ¬ l.limit ≤ (expire (now - l.window) (l.entries key)).length) :
    l.checkKeyPruning prunes key now =
      (.ok (), { l with
        attempts :=
          if prunes (KeyMap.len (l.attempts.insert key (expire (now - l.window) (l.entries key) ++ [now]))) then
            retained (now - l.window) (l.attempts.insert key (expire (now - l.window) (l.entries key) ++ [now]))
          else l.attempts.insert key (expire (now - l.window) (l.entries key) ++ [now]) }) :=
  if_neg h

end

/-- `attempts.len() > 10_000`. -/
def crowded (keys : Nat) : Bool := decide (10000 < keys)

def checkKey : LoginRateLimiter → String → Int → Except AppError Unit × LoginRateLimiter := checkKeyPruning crowded

end LoginRateLimiter

namespace RateLimit

open LoginRateLimiter

structure Call where
  key : String
  time : Int
deriving DecidableEq, Repr

abbrev Answered : Type := Call × Except AppError Unit

/-- The answers to a sequence of calls. -/
def answersPruning (prunes : Nat → Bool) : LoginRateLimiter → List Call → List Answered
  | _, [] => []
  | l, c :: calls =>
    (c, (l.checkKeyPruning prunes c.key c.time).1) :: answersPruning prunes (l.checkKeyPruning prunes c.key c.time).2 calls

def answers : LoginRateLimiter → List Call → List Answered := answersPruning crowded

@[simp] theorem answersPruning_calls {prunes : Nat → Bool} (l : LoginRateLimiter) (calls : List Call) :
    (answersPruning prunes l calls).map Prod.fst = calls := by
  induction calls generalizing l with
  | nil => rfl
  | cons c calls ih => rw [answersPruning, List.map_cons, ih]

/-- No call is before an earlier one. -/
def InOrder (calls : List Call) : Prop := calls.Pairwise fun c d => c.time ≤ d.time

/-! ## The whole history -/

/-- The times at which calls of the key were accepted. -/
def acceptedTimes (key : String) (past : List Answered) : List Int :=
  (past.filter fun a => a.2.isOk && decide (a.1.key = key)).map fun a => a.1.time

/-- How many calls of the key of `c` were accepted in the window that ends at `c`. -/
def counted (window : Nat) (past : List Answered) (c : Call) : Nat :=
  past.countP fun a => a.2.isOk && decide (a.1.key = c.key) && decide (c.time - window < a.1.time)

/-- The answer of a window over everything answered so far. -/
def exactAnswer (limit window : Nat) (message : String) (past : List Answered) (c : Call) : Except AppError Unit :=
  if limit ≤ counted window past c then .error (tooMany message) else .ok ()

def exactAnswers (limit window : Nat) (message : String) : List Answered → List Call → List Answered
  | _, [] => []
  | past, c :: calls =>
    (c, exactAnswer limit window message past c) ::
      exactAnswers limit window message (past ++ [(c, exactAnswer limit window message past c)]) calls

theorem exactAnswer_ok_iff {limit window : Nat} {message : String} {past : List Answered} {c : Call} :
    exactAnswer limit window message past c = .ok () ↔ counted window past c < limit := by
  unfold exactAnswer
  by_cases h : limit ≤ counted window past c
  · rw [if_pos h]
    exact iff_of_false (by simp) (by omega)
  · rw [if_neg h]
    exact iff_of_true rfl (by omega)

theorem exactAnswer_cases (limit window : Nat) (message : String) (past : List Answered) (c : Call) :
    exactAnswer limit window message past c = .ok () ∨
      exactAnswer limit window message past c = .error (.invalidRequest 429 message) := by
  unfold exactAnswer
  split
  · exact .inr rfl
  · exact .inl rfl

/-- Every answer is the one that the history before it gives. -/
theorem exactAnswers_split {limit window : Nat} {message : String} {calls : List Call} {past before after : List Answered}
    {a : Answered} (h : exactAnswers limit window message past calls = before ++ a :: after) :
    a.2 = exactAnswer limit window message (past ++ before) a.1 := by
  induction calls generalizing past before with
  | nil => exact absurd h (by simp [exactAnswers])
  | cons c calls ih =>
    rw [exactAnswers] at h
    cases before with
    | nil =>
      rw [List.nil_append, List.cons.injEq] at h
      rw [← h.1, List.append_nil]
    | cons b before =>
      rw [List.cons_append, List.cons.injEq] at h
      obtain ⟨rfl, h⟩ := h
      simpa using ih h

/-- What is counted is of one key. -/
theorem counted_filter {window : Nat} {past : List Answered} {c : Call} :
    counted window (past.filter fun a => decide (a.1.key = c.key)) c = counted window past c := by
  unfold counted
  rw [List.countP_filter]
  refine List.countP_congr fun a _ => ?_
  by_cases h : a.1.key = c.key <;> simp [h]

/-- The calls of one key are answered as if there were no others. -/
theorem exactAnswers_filter (limit window : Nat) (message key : String) (past : List Answered) (calls : List Call) :
    (exactAnswers limit window message past calls).filter (fun a => decide (a.1.key = key)) =
      exactAnswers limit window message (past.filter fun a => decide (a.1.key = key))
        (calls.filter fun c => decide (c.key = key)) := by
  induction calls generalizing past with
  | nil => rfl
  | cons c calls ih =>
    rw [exactAnswers]
    by_cases hc : c.key = key
    · subst hc
      have ha : exactAnswer limit window message (past.filter fun a => decide (a.1.key = c.key)) c =
          exactAnswer limit window message past c := by
        unfold exactAnswer
        rw [counted_filter]
      rw [List.filter_cons_of_pos (by simp), List.filter_cons_of_pos (by simp), ih, exactAnswers, ha, List.filter_append]
      simp
    · rw [List.filter_cons_of_neg (by simpa using hc), List.filter_cons_of_neg (by simpa using hc), ih, List.filter_append]
      simp [hc]

/-! ## What the queues hold -/

/-- Every queue holds what counts of the accepted times of its key, from a cutoff on. -/
def Tracks (l : LoginRateLimiter) (cutoff : Int) (past : List Answered) : Prop :=
  ∀ key, Holds cutoff (l.entries key) (acceptedTimes key past)

theorem Tracks.mono {l : LoginRateLimiter} {c d : Int} {past : List Answered} (h : Tracks l c past) (hcd : c ≤ d) :
    Tracks l d past := fun key => (h key).mono hcd

@[simp] theorem acceptedTimes_refused (key : String) (past : List Answered) (c : Call) (e : AppError) :
    acceptedTimes key (past ++ [(c, .error e)]) = acceptedTimes key past := by
  simp [acceptedTimes, Except.isOk, Except.toBool]

@[simp] theorem acceptedTimes_accepted (past : List Answered) (c : Call) :
    acceptedTimes c.key (past ++ [(c, .ok ())]) = acceptedTimes c.key past ++ [c.time] := by
  simp [acceptedTimes, Except.isOk, Except.toBool]

theorem acceptedTimes_other {key : String} {c : Call} (h : c.key ≠ key) (past : List Answered) (r : Except AppError Unit) :
    acceptedTimes key (past ++ [(c, r)]) = acceptedTimes key past := by
  simp [acceptedTimes, h]

theorem acceptedTimes_sorted {key : String} {past : List Answered} (h : InOrder (past.map Prod.fst)) :
    (acceptedTimes key past).Pairwise (· ≤ ·) := by
  unfold acceptedTimes
  rw [List.pairwise_map]
  unfold InOrder at h
  rw [List.pairwise_map] at h
  exact h.sublist List.filter_sublist

/-- The times of the window are those after its cutoff. -/
theorem counted_eq (window : Nat) (past : List Answered) (c : Call) :
    counted window past c = (since (c.time - window) (acceptedTimes c.key past)).length := by
  unfold counted since acceptedTimes
  rw [← List.countP_eq_length_filter, List.countP_map, List.countP_filter]
  refine List.countP_congr fun a _ => ?_
  simp [and_comm, and_assoc]

section Step

variable {prunes : Nat → Bool} {l : LoginRateLimiter} {past : List Answered} {c : Call}

theorem entries_insert (l : LoginRateLimiter) (key other : String) (q : List Int) :
    ({ l with attempts := l.attempts.insert key q } : LoginRateLimiter).entries other =
      if other = key then q else l.entries other := by
  unfold entries
  rw [KeyMap.lookup_insert_eq]
  split <;> rfl

/-- Pruning forgets queues of which nothing counts. -/
theorem Tracks.retained {cutoff : Int} (h : Tracks l cutoff past) (hs : InOrder (past.map Prod.fst)) :
    Tracks { l with attempts := retained cutoff l.attempts } cutoff past := by
  intro key
  have hk := h key
  unfold LoginRateLimiter.entries at hk ⊢
  rcases KeyMap.lookup_retain l.attempts key with heq | ⟨q, hq, hkeep, hnone⟩
  · exact heq ▸ hk
  · rw [hq] at hk
    show Holds cutoff ((AList.lookup key (KeyMap.retain _ l.attempts)).getD []) _
    rw [hnone]
    refine hk.forget (acceptedTimes_sorted hs) fun t ht => ?_
    have hlast : ¬ cutoff < t := by
      rw [show q.getLast? = some t from ht] at hkeep
      simpa using hkeep
    omega

/-- One call: the limiter answers as the history does, and its queues hold the history with it. -/
theorem checkKey_step (prunes : Nat → Bool) (h : Tracks l (c.time - l.window) past) (hs : InOrder ((past.map Prod.fst) ++ [c])) :
    (l.checkKeyPruning prunes c.key c.time).1 = exactAnswer l.limit l.window l.message past c ∧
    Tracks (l.checkKeyPruning prunes c.key c.time).2 (c.time - l.window)
      (past ++ [(c, exactAnswer l.limit l.window l.message past c)]) ∧
    (l.checkKeyPruning prunes c.key c.time).2.limit = l.limit ∧
    (l.checkKeyPruning prunes c.key c.time).2.window = l.window ∧
    (l.checkKeyPruning prunes c.key c.time).2.message = l.message := by
  have hpast : InOrder (past.map Prod.fst) := (List.pairwise_append.1 hs).1
  have hexp := (h c.key).expire_eq (acceptedTimes_sorted hpast)
  have hlen : (expire (c.time - l.window) (l.entries c.key)).length = counted l.window past c := by
    rw [hexp, counted_eq]
  have hall : ∀ r : Except AppError Unit, InOrder ((past ++ [(c, r)]).map Prod.fst) := by
    intro r
    simpa using hs
  unfold exactAnswer
  by_cases hfull : l.limit ≤ counted l.window past c
  · rw [if_pos hfull, checkKeyPruning_refused (hlen ▸ hfull)]
    refine ⟨rfl, fun key => ?_, rfl, rfl, rfl⟩
    rw [entries_insert, acceptedTimes_refused]
    split
    · rename_i hkey
      subst hkey
      exact (h c.key).expire (acceptedTimes_sorted hpast)
    · exact h key
  · rw [if_neg hfull, checkKeyPruning_accepted (hlen ▸ hfull)]
    have hpush : Tracks { l with attempts := l.attempts.insert c.key (expire (c.time - l.window) (l.entries c.key) ++ [c.time]) }
        (c.time - l.window) (past ++ [(c, .ok ())]) := by
      intro key
      rw [entries_insert]
      by_cases hkey : key = c.key
      · subst hkey
        rw [if_pos rfl, acceptedTimes_accepted]
        exact ((h c.key).expire (acceptedTimes_sorted hpast)).push c.time
      · rw [if_neg hkey, acceptedTimes_other (Ne.symm hkey)]
        exact h key
    refine ⟨rfl, ?_, rfl, rfl, rfl⟩
    show Tracks { l with attempts := if _ then _ else _ } _ _
    split
    · exact hpush.retained (hall (.ok ()))
    · exact hpush

end Step

/-- The limiter answers as the whole history does, whenever it prunes. -/
theorem answersPruning_eq {prunes : Nat → Bool} {calls : List Call} {l : LoginRateLimiter} {past : List Answered} {cutoff : Int}
    (h : Tracks l cutoff past) (hc : ∀ c ∈ calls, cutoff ≤ c.time - l.window) (hs : InOrder (past.map Prod.fst ++ calls)) :
    answersPruning prunes l calls = exactAnswers l.limit l.window l.message past calls := by
  induction calls generalizing l past cutoff with
  | nil => rfl
  | cons c calls ih =>
    have hsplit : InOrder ((past.map Prod.fst ++ [c]) ++ calls) := by simpa using hs
    obtain ⟨hans, htracks, hlimit, hwindow, hmessage⟩ :=
      checkKey_step prunes (h.mono (hc c (by simp))) (List.pairwise_append.1 hsplit).1
    rw [answersPruning, exactAnswers, hans, ih htracks, hlimit, hwindow, hmessage]
    · intro d hd
      rw [hwindow]
      have hle := (List.pairwise_append.1 hsplit).2.2 c (by simp) d hd
      omega
    · simpa using hs

theorem tracks_empty (l : LoginRateLimiter) (h : l.attempts = ∅) (cutoff : Int) : Tracks l cutoff [] := by
  intro key
  unfold LoginRateLimiter.entries
  rw [h]
  exact Holds.nil cutoff

/-- From an empty table, for calls in order. -/
theorem answersPruning_exact {prunes : Nat → Bool} {calls : List Call} {l : LoginRateLimiter} (hl : l.attempts = ∅)
    (hs : InOrder calls) : answersPruning prunes l calls = exactAnswers l.limit l.window l.message [] calls := by
  cases calls with
  | nil => rfl
  | cons c calls =>
    refine answersPruning_eq (tracks_empty l hl (c.time - l.window)) (fun d hd => ?_) (by simpa using hs)
    rcases List.mem_cons.1 hd with rfl | hd
    · exact le_rfl
    · have hle := (List.pairwise_cons.1 hs).1 d hd
      omega

/-! ## An exact sliding window -/

/-- A call is accepted if and only if fewer than `limit` calls of its key were accepted in the
window that ends at it; pruning keys never changes an answer, and keys do not influence each other. -/
theorem exact_sliding_window (l : LoginRateLimiter) (hl : l.attempts = ∅) (calls : List Call) (hs : InOrder calls) :
    (∀ before after c r, answers l calls = before ++ (c, r) :: after →
      (r = .ok () ↔
        (before.filter fun a => a.2.isOk && decide (a.1.key = c.key) && decide (c.time - l.window < a.1.time)).length < l.limit) ∧
      (r = .ok () ∨ r = .error (.invalidRequest 429 l.message))) ∧
    (answers l calls).map Prod.fst = calls ∧
    (∀ prunes, answersPruning prunes l calls = answers l calls) ∧
    ∀ key, (answers l calls).filter (fun a => decide (a.1.key = key)) = answers l (calls.filter fun c => decide (c.key = key)) := by
  have hexact : answers l calls = exactAnswers l.limit l.window l.message [] calls := answersPruning_exact hl hs
  refine ⟨fun before after c r h => ?_, ?_, fun prunes => ?_, fun key => ?_⟩
  · rw [hexact] at h
    have hr : r = exactAnswer l.limit l.window l.message before c := exactAnswers_split h
    subst hr
    refine ⟨?_, exactAnswer_cases _ _ _ _ _⟩
    rw [exactAnswer_ok_iff, counted, List.countP_eq_length_filter]
  · exact answersPruning_calls l calls
  · rw [answersPruning_exact hl hs, hexact]
  · have hkey : InOrder (calls.filter fun c => decide (c.key = key)) := hs.sublist List.filter_sublist
    rw [hexact, exactAnswers_filter]
    exact (answersPruning_exact hl hkey).symm

/-- Of three calls with room for one a minute, the one just before the minute is over is refused. -/
theorem exact_sliding_window_minute :
    InOrder [⟨"a", 0⟩, ⟨"a", 59999999999⟩, ⟨"a", 60000000000⟩] ∧
    (answers (withLimit 1) [⟨"a", 0⟩, ⟨"a", 59999999999⟩, ⟨"a", 60000000000⟩]).map (fun a => a.2.isOk) = [true, false, true] ∧
    ∀ prunes, answersPruning prunes (withLimit 1) [⟨"a", 0⟩, ⟨"a", 59999999999⟩, ⟨"a", 60000000000⟩] =
      answers (withLimit 1) [⟨"a", 0⟩, ⟨"a", 59999999999⟩, ⟨"a", 60000000000⟩] := by
  have hs : InOrder [⟨"a", 0⟩, ⟨"a", 59999999999⟩, ⟨"a", 60000000000⟩] := by
    unfold InOrder
    decide
  exact ⟨hs, by decide, (exact_sliding_window (withLimit 1) rfl _ hs).2.2.1⟩

end RateLimit

end Prosepect
