/-
iCalendar texts as a reader takes them: lines that end at CRLF, CR or LF, properties, one calendar
with its events, and the values of RFC 5545: texts with their escapes, dates and UTC times.
-/
import Prosepect.Data.Rfc3339

namespace Ical

open Time Text

/-! ## Lines -/

/-- The lines of a text. -/
def physicalLines : List Char → List (List Char)
  | [] => []
  | '\r' :: '\n' :: rest => [] :: physicalLines rest
  | '\r' :: rest => [] :: physicalLines rest
  | '\n' :: rest => [] :: physicalLines rest
  | c :: rest =>
    match physicalLines rest with
    | [] => [[c]]
    | line :: lines => (c :: line) :: lines

/-- A line with its end. -/
def terminated (line : List Char) : List Char := line ++ ['\r', '\n']

/-- The parts of a line between the carriage returns in it. -/
def pieces : List Char → List (List Char)
  | [] => [[]]
  | c :: rest =>
    if c = '\r' then [] :: pieces rest
    else
      match pieces rest with
      | [] => [[c]]
      | line :: lines => (c :: line) :: lines

theorem length_pieces (l : List Char) : (pieces l).length = l.count '\r' + 1 := by
  induction l with
  | nil => rfl
  | cons c rest ih =>
    unfold pieces
    split
    · rename_i hc
      subst hc
      rw [List.length_cons, ih, List.count_cons_self]
    · rename_i hc
      rw [List.count_cons_of_ne hc]
      cases hp : pieces rest with
      | nil =>
        rw [hp] at ih
        simp at ih
      | cons line lines =>
        rw [hp] at ih
        exact ih

theorem pieces_of_not_mem : ∀ {l : List Char}, '\r' ∉ l → pieces l = [l]
  | [], _ => rfl
  | c :: rest, h => by
    have hc : c ≠ '\r' := fun hc => h (hc ▸ List.mem_cons_self)
    rw [pieces, if_neg hc, pieces_of_not_mem fun hr => h (List.mem_cons_of_mem _ hr)]

/-- A line without a line feed is read in its parts. -/
theorem physicalLines_terminated : ∀ {l : List Char} (rest : List Char), '\n' ∉ l →
    physicalLines (terminated l ++ rest) = pieces l ++ physicalLines rest
  | [], rest, _ => by simp [terminated, physicalLines, pieces]
  | c :: l, rest, h => by
    have hc : c ≠ '\n' := fun hc => h (hc ▸ List.mem_cons_self)
    have ih := physicalLines_terminated rest fun hl => h (List.mem_cons_of_mem _ hl)
    have hcons : terminated (c :: l) ++ rest = c :: (terminated l ++ rest) := rfl
    rw [hcons]
    by_cases hr : c = '\r'
    · subst hr
      -- the next character is no line feed, so the carriage return ends a line by itself
      rw [pieces, if_pos rfl, List.cons_append, ← ih]
      cases l with
      | nil => rfl
      | cons d l =>
        have hd : d ≠ '\n' := fun hd => h (hd ▸ List.mem_cons_of_mem _ List.mem_cons_self)
        unfold terminated
        simp only [List.cons_append]
        rw [physicalLines]
        intro r hr
        exact hd (List.cons.inj hr).1
    · rw [pieces, if_neg hr, physicalLines, ih]
      · cases hp : pieces l with
        | nil =>
          have := length_pieces l
          simp [hp] at this
        | cons line lines => rfl
      · simp [hr]
      · simp [hr]
      · exact hc

/-- A text of lines without line feeds. -/
theorem physicalLines_lines : ∀ {ls : List (List Char)}, (∀ l ∈ ls, '\n' ∉ l) →
    physicalLines (ls.flatMap terminated) = ls.flatMap pieces
  | [], _ => rfl
  | l :: ls, h => by
    rw [List.flatMap_cons, physicalLines_terminated _ (h l List.mem_cons_self),
      physicalLines_lines fun l hl => h l (List.mem_cons_of_mem _ hl), List.flatMap_cons]

/-- As many lines are read as were written exactly if no carriage return is in one. -/
theorem length_lines_eq_iff : ∀ {ls : List (List Char)}, (ls.flatMap pieces).length = ls.length ↔ ∀ l ∈ ls, '\r' ∉ l
  | [] => by simp
  | l :: ls => by
    have hge : ls.length ≤ (ls.flatMap pieces).length := by
      clear l
      induction ls with
      | nil => exact Nat.le_refl _
      | cons l ls ih =>
        rw [List.flatMap_cons, List.length_append, length_pieces, List.length_cons]
        omega
    rw [List.flatMap_cons, List.length_append, length_pieces, List.length_cons]
    constructor
    · intro h
      have hl : l.count '\r' = 0 := by omega
      have hls := length_lines_eq_iff.1 (show (ls.flatMap pieces).length = ls.length by omega)
      rintro l' (_ | ⟨_, hl'⟩)
      · exact List.count_eq_zero.1 hl
      · exact hls l' hl'
    · intro h
      rw [length_lines_eq_iff.2 fun l hl => h l (List.mem_cons_of_mem _ hl), List.count_eq_zero.2 (h l List.mem_cons_self)]
      omega

theorem lines_of_not_mem : ∀ {ls : List (List Char)}, (∀ l ∈ ls, '\r' ∉ l) → ls.flatMap pieces = ls
  | [], _ => rfl
  | l :: ls, h => by
    rw [List.flatMap_cons, pieces_of_not_mem (h l List.mem_cons_self),
      lines_of_not_mem fun l hl => h l (List.mem_cons_of_mem _ hl)]
    rfl

/-! ## Properties and components -/

/-- A property: its name, with parameters, and its value. -/
structure Property where
  name : List Char
  value : List Char
deriving DecidableEq

def property : List Char → Option Property
  | [] => none
  | c :: rest => if c = ':' then some ⟨[], rest⟩ else (property rest).map fun p => { p with name := c :: p.name }

def written (p : Property) : List Char := p.name ++ ':' :: p.value

theorem property_written : ∀ {name value : List Char}, ':' ∉ name → property (written ⟨name, value⟩) = some ⟨name, value⟩
  | [], _, _ => rfl
  | c :: name, value, h => by
    have hc : c ≠ ':' := fun hc => h (hc ▸ List.mem_cons_self)
    have ih : property (written ⟨name, value⟩) = _ := property_written fun hn => h (List.mem_cons_of_mem _ hn)
    unfold written at ih ⊢
    simp only [List.cons_append, property, if_neg hc, ih, Option.map_some]

def begin (component : String) : Property := ⟨"BEGIN".toList, component.toList⟩

def «end» (component : String) : Property := ⟨"END".toList, component.toList⟩

/-- `BEGIN` or `END` of any component. -/
def Property.isBracket (p : Property) : Bool := p.name == "BEGIN".toList || p.name == "END".toList

structure Calendar where
  properties : List Property
  /-- The properties of each event. -/
  events : List (List Property)
deriving DecidableEq

/-- The rest of a calendar; `event` has what was read of an event that is open. -/
def readBody : (event : Option (List Property)) → List Property → Option Calendar
  | _, [] => none
  | none, p :: rest =>
    if p = «end» "VCALENDAR" then (if rest = [] then some ⟨[], []⟩ else none)
    else if p = begin "VEVENT" then readBody (some []) rest
    else if p.isBracket then none
    else (readBody none rest).map fun c => { c with properties := p :: c.properties }
  | some properties, p :: rest =>
    if p = «end» "VEVENT" then (readBody none rest).map fun c => { c with events := properties :: c.events }
    else if p.isBracket then none
    else readBody (some (properties ++ [p])) rest

/-- One calendar and nothing else. -/
def readCalendar (text : List Char) : Option Calendar := do
  match ← (physicalLines text).mapM property with
  | p :: rest => if p = begin "VCALENDAR" then readBody none rest else none
  | [] => none

/-- The number of lines of events, with their brackets. -/
def eventLines (events : List (List Property)) : Nat := (events.map fun e => e.length + 2).sum

/-- Every line is accounted for. -/
theorem length_readBody : ∀ {l : List Property} {event : Option (List Property)} {c : Calendar}, readBody event l = some c →
    l.length + (match event with | none => 0 | some e => e.length + 1) = c.properties.length + eventLines c.events + 1
  | [], event, c, h => by cases event <;> cases h
  | p :: rest, none, c, h => by
    simp only [readBody] at h
    split at h
    · split at h
      · rename_i hrest
        subst hrest
        cases h
        rfl
      · cases h
    · split at h
      · have := length_readBody h
        simp only [List.length_nil, List.length_cons] at this ⊢
        omega
      · split at h
        · cases h
        · obtain ⟨c', hc', rfl⟩ := Option.map_eq_some_iff.1 h
          have := length_readBody hc'
          simp only [List.length_cons] at this ⊢
          omega
  | p :: rest, some e, c, h => by
    simp only [readBody] at h
    split at h
    · obtain ⟨c', hc', rfl⟩ := Option.map_eq_some_iff.1 h
      have := length_readBody hc'
      simp only [List.length_cons, eventLines, List.map_cons, List.sum_cons] at this ⊢
      omega
    · split at h
      · cases h
      · have := length_readBody h
        simp only [List.length_cons, List.length_append, List.length_nil] at this ⊢
        omega

theorem length_properties : ∀ {lines : List (List Char)} {ps : List Property}, lines.mapM property = some ps → ps.length = lines.length
  | [], ps, h => by
    cases h
    rfl
  | line :: lines, ps, h => by
    rw [List.mapM_cons] at h
    obtain ⟨p, -, h⟩ := Option.bind_eq_some_iff.1 h
    obtain ⟨rest, hrest, h⟩ := Option.bind_eq_some_iff.1 h
    cases h
    rw [List.length_cons, List.length_cons, length_properties hrest]

/-- The lines of a calendar are its properties, its events and its brackets. -/
theorem length_readCalendar {text : List Char} {c : Calendar} (h : readCalendar text = some c) :
    (physicalLines text).length = c.properties.length + eventLines c.events + 2 := by
  unfold readCalendar at h
  obtain ⟨ps, hps, h⟩ := Option.bind_eq_some_iff.1 h
  rw [← length_properties hps]
  cases ps with
  | nil => cases h
  | cons p rest =>
    simp only at h
    split at h
    · have := length_readBody h
      simp only [List.length_cons, Nat.add_zero] at this ⊢
      omega
    · cases h

/-- An event without brackets in it is read up to its end. -/
theorem readBody_event : ∀ {ps : List Property} {e : List Property} (rest : List Property), (∀ p ∈ ps, p.isBracket = false) →
    readBody (some e) (ps ++ «end» "VEVENT" :: rest) =
      (readBody none rest).map fun c => { c with events := (e ++ ps) :: c.events }
  | [], e, rest, _ => by simp [readBody]
  | p :: ps, e, rest, h => by
    have hp := h p List.mem_cons_self
    have hend : p ≠ «end» "VEVENT" := by
      rintro rfl
      exact absurd hp (by decide)
    rw [List.cons_append, readBody, if_neg hend, if_neg (by simp [hp]),
      readBody_event rest fun q hq => h q (List.mem_cons_of_mem _ hq), List.append_assoc]
    rfl

theorem readBody_property {p : Property} (rest : List Property) (h : p.isBracket = false) :
    readBody none (p :: rest) = (readBody none rest).map fun c => { c with properties := p :: c.properties } := by
  have hend : p ≠ «end» "VCALENDAR" := by
    rintro rfl
    exact absurd h (by decide)
  have hbegin : p ≠ begin "VEVENT" := by
    rintro rfl
    exact absurd h (by decide)
  rw [readBody, if_neg hend, if_neg hbegin, if_neg (by simp [h])]

/-- Events one after the other, up to the end of the calendar. -/
theorem readBody_events : ∀ {es : List (List Property)}, (∀ e ∈ es, ∀ p ∈ e, p.isBracket = false) →
    readBody none ((es.flatMap fun e => begin "VEVENT" :: (e ++ [«end» "VEVENT"])) ++ [«end» "VCALENDAR"]) = some ⟨[], es⟩
  | [], _ => by simp [readBody]
  | e :: es, h => by
    simp only [List.flatMap_cons, List.cons_append, List.append_assoc, List.nil_append]
    rw [readBody, if_neg (by decide), if_pos rfl,
      readBody_event _ (h e List.mem_cons_self), readBody_events fun e he => h e (List.mem_cons_of_mem _ he)]
    rfl

/-! ## Texts -/

/-- The text a value stands for. -/
def unescape : List Char → Option (List Char)
  | [] => some []
  | '\\' :: c :: rest =>
    if c = 'n' ∨ c = 'N' then (unescape rest).map ('\n' :: ·)
    else if c = '\\' ∨ c = ',' ∨ c = ';' then (unescape rest).map (c :: ·)
    else none
  | '\\' :: [] => none
  | c :: rest => (unescape rest).map (c :: ·)

/-- Each line break as a line feed. -/
def normalized : List Char → List Char
  | [] => []
  | '\r' :: '\n' :: rest => '\n' :: normalized rest
  | '\r' :: rest => '\n' :: normalized rest
  | c :: rest => c :: normalized rest

theorem normalized_of_not_mem : ∀ {l : List Char}, '\r' ∉ l → normalized l = l
  | [], _ => rfl
  | c :: rest, h => by
    have hc : c ≠ '\r' := fun hc => h (hc ▸ List.mem_cons_self)
    rw [normalized, normalized_of_not_mem fun hr => h (List.mem_cons_of_mem _ hr)]
    · simp [hc]
    · simp [hc]

/-- What stands for a character. -/
def escaped (c : Char) : List Char :=
  if c = '\\' then ['\\', '\\']
  else if c = '\n' then ['\\', 'n']
  else if c = ',' then ['\\', ',']
  else if c = ';' then ['\\', ';']
  else [c]

theorem unescape_cons (c : Char) (rest : List Char) : unescape (escaped c ++ rest) = (unescape rest).map (c :: ·) := by
  unfold escaped
  split
  · rename_i hc
    simp [unescape, hc]
  · rename_i hback
    split
    · rename_i hc
      simp [unescape, hc]
    · split
      · rename_i hc
        simp [unescape, hc]
      · split
        · rename_i hc
          simp [unescape, hc]
        · rw [List.singleton_append, unescape]
          · simp [hback]
          · simp [hback]

theorem unescape_escaped (text : List Char) : unescape (text.flatMap escaped) = some text := by
  induction text with
  | nil => rfl
  | cons c rest ih => rw [List.flatMap_cons, unescape_cons, ih, Option.map_some]

theorem lineFeed_not_mem_escaped (text : List Char) : '\n' ∉ text.flatMap escaped := by
  rw [List.mem_flatMap]
  rintro ⟨c, -, hc⟩
  unfold escaped at hc
  split at hc
  · simp at hc
  · split at hc
    · simp at hc
    · rename_i hn
      split at hc
      · simp at hc
      · split at hc
        · simp at hc
        · exact hn (List.mem_singleton.1 hc).symm

theorem return_mem_escaped (text : List Char) : '\r' ∈ text.flatMap escaped ↔ '\r' ∈ text := by
  rw [List.mem_flatMap]
  constructor
  · rintro ⟨c, hmem, hc⟩
    unfold escaped at hc
    split at hc
    · simp at hc
    · split at hc
      · simp at hc
      · split at hc
        · simp at hc
        · split at hc
          · simp at hc
          · rwa [List.mem_singleton.1 hc]
  · intro h
    exact ⟨'\r', h, by decide⟩

/-! ## Dates and times -/

/-- `YYYYMMDD`, a date there is. -/
def readBasicDate (l : List Char) : Option (NaiveDate × List Char) := do
  let (year, l) ← readExactly 4 0 l
  let (month, l) ← readExactly 2 0 l
  let (day, l) ← readExactly 2 0 l
  let c : Civil := ⟨year, month, day⟩
  if c.valid then some (daysOf c, l) else none

/-- The value of a date or of a time in UTC. -/
inductive Stamp
  | date (d : NaiveDate)
  | utc (t : DateTime)
deriving DecidableEq

def readStamp (l : List Char) : Option Stamp := do
  let (d, l) ← readBasicDate l
  match l with
  | [] => some (.date d)
  | 'T' :: l =>
    let (hour, l) ← readExactly 2 0 l
    let (minute, l) ← readExactly 2 0 l
    let (second, l) ← readExactly 2 0 l
    if l = ['Z'] ∧ hour ≤ 23 ∧ minute ≤ 59 ∧ second ≤ 60 then
      some (.utc (midnight d + ((hour * 3600 + minute * 60 + second : Nat) : Int) * usPerSecond))
    else none
  | _ => none

/-- A time in the years 0 to 9999 is read up to its fraction of a second. -/
theorem readStamp_formatUtc {t : Int} (h : FourDigits (dateNaive t)) : readStamp (formatUtc t) = some (.utc (truncSecond t)) := by
  have hvalid := valid_civil h
  have hback := daysOf_civil (dateNaive t)
  obtain ⟨⟨hm0, hm1⟩, hd0, hd1⟩ := civil_bounds (dateNaive t)
  obtain ⟨h0, h1⟩ := h
  obtain ⟨hs0, hs1⟩ := secondOfDay_bounds t
  unfold readStamp readBasicDate formatUtc formatYear
  rw [truncSecond_eq]
  simp only [if_pos (And.intro h0 h1)]
  generalize civil (dateNaive t) = c at *
  generalize secondOfDay t = s at *
  obtain ⟨year, month, day⟩ := c
  simp only at h0 h1 hm0 hm1 hd0 hd1
  obtain ⟨y, rfl⟩ := Int.eq_ofNat_of_zero_le h0
  obtain ⟨m, rfl⟩ := Int.eq_ofNat_of_zero_le (by omega : 0 ≤ month)
  obtain ⟨n, rfl⟩ := Int.eq_ofNat_of_zero_le (by omega : 0 ≤ day)
  obtain ⟨k, rfl⟩ := Int.eq_ofNat_of_zero_le hs0
  have hk : k / 3600 * 3600 + k / 60 % 60 * 60 + k % 60 = k := by omega
  have hbounds : k / 3600 ≤ 23 ∧ k / 60 % 60 ≤ 59 ∧ k % 60 ≤ 60 := by omega
  simp only [Int.toNat_natCast, readExactly_padded _ (by omega : y < 10 ^ 4), Option.bind_eq_bind, Option.bind_some,
    readExactly_padded _ (by omega : m < 10 ^ 2), readExactly_padded _ (by omega : n < 10 ^ 2), hvalid, hback, if_true,
    readExactly_padded _ (by omega : k / 3600 < 10 ^ 2), readExactly_padded _ (by omega : k / 60 % 60 < 10 ^ 2),
    readExactly_padded _ (by omega : k % 60 < 10 ^ 2), hbounds, and_self, hk]

/-- A sign is not read. -/
theorem readStamp_sign {t : Int} (h : ¬ FourDigits (dateNaive t)) : readStamp (formatUtc t) = none := by
  have hyear : ¬ (0 ≤ (civil (dateNaive t)).year ∧ (civil (dateNaive t)).year ≤ 9999) := h
  unfold readStamp readBasicDate formatUtc formatYear
  simp only [if_neg hyear, List.cons_append, readExactly]
  split <;> rfl

end Ical
