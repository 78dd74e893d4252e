/-
The headers of a request as `auth.rs` and `routes.rs` read them, and the cookies that they set: what
the server puts into a cookie is what it reads when the browser sends the cookie back, whatever
other cookies come with it.
-/
import Prosepect.Data.Text

namespace Prosepect

open Text

namespace Access

/-! ## Headers -/

/-- `HeaderMap`: the headers in the order in which they came, with their octets. -/
abbrev HeaderMap : Type := List (String × List UInt8)

/-- `headers.get_all(name)`. -/
def headerValues (headers : HeaderMap) (name : String) : List (List UInt8) :=
  (headers.filter (·.1 == name)).map (·.2)

/-- `headers.get(name)`. -/
def header? (headers : HeaderMap) (name : String) : Option (List UInt8) := (headerValues headers name).head?

/-- `HeaderValue::to_str`: visible ASCII, blanks and tabs. -/
def toStr (value : List UInt8) : Option (List Char) :=
  if value.all fun b => b == 9 || (32 ≤ b && b < 127) then some (value.map fun b => Char.ofNat b.toNat) else none

/-- `http::Method`. -/
inductive Method
  | get | head | options | post | put | patch | delete
  | other (name : String)
deriving DecidableEq, Repr

def requiresCsrf : Method → Bool
  | .get | .head | .options => false
  | _ => true

/-- `s.split_once(c)`. -/
def splitOnce (c : Char) (l : List Char) : Option (List Char × List Char) :=
  match l.dropWhile (· != c) with
  | [] => none
  | _ :: rest => some (l.takeWhile (· != c), rest)

def trimmed (l : List Char) : List Char := trimChars isWhitespace l

/-! ## Cookies -/

def sessionCookieName : String := "prosepect_session"

def oauthCookieName (secure : Bool) : String := if secure then "__Host-prosepect_oauth" else "prosepect_oauth"

def csrfHeader : String := "x-csrf-token"

def developmentUserHeader : String := "x-prosepect-user-id"

/-- `session_token`: of the first header, the first cookie of the name, unless it is empty. -/
def sessionToken (headers : HeaderMap) : Option String := do
  let value ← header? headers "cookie"
  let text ← toStr value
  let token ← ((text.splitOn ';').map trimmed).findSome? (stripPrefix (sessionCookieName ++ "="))
  if token.isEmpty then none else some (String.ofList token)

/-- The characters of a browser secret. -/
def secretChar (c : Char) : Bool := ('a' ≤ c && c ≤ 'z') || ('A' ≤ c && c ≤ 'Z') || ('0' ≤ c && c ≤ '9') || c == '-' || c == '_'

/-- `oauth_browser_secret`: of all headers, the first cookie of the name that has the form of a secret. -/
def oauthBrowserSecret (headers : HeaderMap) (secure : Bool) : Option String :=
  ((((headerValues headers "cookie").filterMap toStr).flatMap (·.splitOn ';')).filterMap fun cookie =>
    splitOnce '=' (trimmed cookie)).findSome? fun (key, value) =>
      if key = (oauthCookieName secure).toList ∧ value.length = 43 ∧ value.all secretChar = true then
        some (String.ofList value)
      else none

/-- The CSRF token a request supplies. -/
def suppliedCsrf (headers : HeaderMap) : Option String := (header? headers csrfHeader).bind fun v => (toStr v).map String.ofList

/-- `session_cookie`. -/
def sessionCookie (token : String) (secure : Bool) : String :=
  sessionCookieName ++ "=" ++ token ++ "; Path=/; HttpOnly; SameSite=Lax; Max-Age=2592000" ++ if secure then "; Secure" else ""

/-- `expired_session_cookie`. -/
def expiredSessionCookie (secure : Bool) : String :=
  sessionCookieName ++ "=; Path=/; HttpOnly; SameSite=Lax; Max-Age=0" ++ if secure then "; Secure" else ""

/-- The cookie of `google_authorization_redirect`. -/
def oauthCookie (secret : String) (secure : Bool) : String :=
  oauthCookieName secure ++ "=" ++ secret ++ "; Path=/; HttpOnly; SameSite=Lax; Max-Age=600" ++ if secure then "; Secure" else ""

/-! ## What a browser sends back -/

/-- The cookies of a browser, and the header with them: `name=value`, one after the other. -/
def jarText : List (List Char × List Char) → List Char
  | [] => []
  | [(name, value)] => name ++ '=' :: value
  | (name, value) :: jar => (name ++ '=' :: value) ++ ';' :: ' ' :: jarText jar

def jarHeader (jar : List (List Char × List Char)) : HeaderMap := [("cookie", (jarText jar).map fun c => UInt8.ofNat c.toNat)]

/-- The name and the value a browser keeps of a cookie that is set. -/
def keptCookie (setCookie : String) : Option (List Char × List Char) := splitOnce '=' (setCookie.toList.takeWhile (· != ';'))

/-- A character that may stand in the value of a cookie: visible ASCII without the separator. -/
def cookieChar (c : Char) : Bool := decide (32 < c.toNat) && decide (c.toNat < 127) && c != ';'

/-- The name is not empty and has no equality sign. -/
def WellFormed (cookie : List Char × List Char) : Prop :=
  cookie.1 ≠ [] ∧ (∀ c ∈ cookie.1, cookieChar c = true ∧ c ≠ '=') ∧ ∀ c ∈ cookie.2, cookieChar c = true

/-- A cookie takes the place of one of the same name. -/
def put (jar : List (List Char × List Char)) (name value : List Char) : List (List Char × List Char) :=
  if jar.any (·.1 == name) then jar.map fun c => if c.1 == name then (name, value) else c else jar ++ [(name, value)]

def keep (jar : List (List Char × List Char)) (setCookie : String) : List (List Char × List Char) :=
  match keptCookie setCookie with
  | none => jar
  | some (name, value) => put jar name value

/-! ## The header is read as it was written -/

def cookieText (cookie : List Char × List Char) : List Char := cookie.1 ++ '=' :: cookie.2

theorem isWhitespace_cookieChar {c : Char} (h : cookieChar c = true) : isWhitespace c = false := by
  simp only [cookieChar, Bool.and_eq_true, decide_eq_true_eq] at h
  obtain ⟨⟨h32, h127⟩, -⟩ := h
  simp [isWhitespace]
  omega

theorem cookieText_cookieChar {cookie : List Char × List Char} (h : WellFormed cookie) : ∀ c ∈ cookieText cookie, cookieChar c = true := by
  intro c hc
  rcases List.mem_append.1 hc with hc | hc
  · exact (h.2.1 c hc).1
  · rcases List.mem_cons.1 hc with rfl | hc
    · decide
    · exact h.2.2 c hc

theorem trimmed_of_cookieChar {l : List Char} (h : ∀ c ∈ l, cookieChar c = true) : trimmed l = l := by
  unfold trimmed
  rw [trimChars_eq_self_iff]
  constructor
  · intro hl
    simp [isWhitespace_cookieChar (h _ (List.head_mem hl))]
  · intro hl
    simp [isWhitespace_cookieChar (h _ (List.getLast_mem hl))]

theorem trimmed_blank (l : List Char) : trimmed (' ' :: l) = trimmed l := by
  unfold trimmed trimChars
  rw [List.dropWhile_cons_of_pos (by decide)]

/-- The cookies of a header, one by one. -/
theorem split_jarText : ∀ {jar : List (List Char × List Char)}, (∀ c ∈ jar, WellFormed c) → jar ≠ [] →
    ((jarText jar).splitOn ';').map trimmed = jar.map cookieText
  | [], _, h => absurd rfl h
  | [c], hw, _ => by
    have hchars := cookieText_cookieChar (hw c List.mem_cons_self)
    have hsemi : ';' ∉ cookieText c := fun hm => absurd (hchars _ hm) (by decide)
    show ((cookieText c).splitOn ';').map trimmed = _
    rw [List.splitOn_eq_singleton hsemi]
    simp [trimmed_of_cookieChar hchars]
  | c :: d :: jar, hw, _ => by
    have hchars := cookieText_cookieChar (hw c List.mem_cons_self)
    have hsemi : ∀ x ∈ cookieText c, (x == ';') = false := by
      intro x hx
      have hx' := hchars x hx
      simp only [cookieChar, Bool.and_eq_true, bne_iff_ne] at hx'
      simpa using hx'.2
    have ih : ((jarText (d :: jar)).splitOn ';').map trimmed = (d :: jar).map cookieText :=
      split_jarText (fun x hx => hw x (List.mem_cons_of_mem _ hx)) (by simp)
    show ((cookieText c ++ ';' :: ' ' :: jarText (d :: jar)).splitOn ';').map trimmed = _
    rw [List.splitOn_append_cons_of_forall_mem_beq_eq_false hsemi _ (by decide), List.splitOn_cons_eq_if_modifyHead,
      if_neg (by decide), List.map_cons, List.map_cons, ← ih, trimmed_of_cookieChar hchars]
    -- the blank after the separator goes with the trimming
    cases (jarText (d :: jar)).splitOn ';' with
    | nil => rfl
    | cons x xs => simp [trimmed_blank]

theorem jarText_ascii : ∀ {jar : List (List Char × List Char)}, (∀ c ∈ jar, WellFormed c) →
    ∀ c ∈ jarText jar, 32 ≤ c.toNat ∧ c.toNat < 127
  | [], _, c, hc => nomatch hc
  | [d], hw, c, hc => by
    have hchar := cookieText_cookieChar (hw d List.mem_cons_self) c hc
    simp only [cookieChar, Bool.and_eq_true, decide_eq_true_eq] at hchar
    omega
  | d :: e :: jar, hw, c, hc => by
    rcases List.mem_append.1 hc with hc | hc
    · have hchar := cookieText_cookieChar (hw d List.mem_cons_self) c hc
      simp only [cookieChar, Bool.and_eq_true, decide_eq_true_eq] at hchar
      omega
    · rcases List.mem_cons.1 hc with rfl | hc
      · decide
      · rcases List.mem_cons.1 hc with rfl | hc
        · decide
        · exact @jarText_ascii (e :: jar) (fun x hx => hw x (List.mem_cons_of_mem _ hx)) c hc

theorem toStr_ascii {l : List Char} (h : ∀ c ∈ l, 32 ≤ c.toNat ∧ c.toNat < 127) :
    toStr (l.map fun c => UInt8.ofNat c.toNat) = some l := by
  have hbyte : ∀ c ∈ l, (UInt8.ofNat c.toNat).toNat = c.toNat := by
    intro c hc
    simp [Nat.mod_eq_of_lt (show c.toNat < 256 by have := h c hc; omega)]
  unfold toStr
  rw [if_pos]
  · rw [List.map_map]
    congr 1
    refine (List.map_congr_left fun c hc => ?_).trans (List.map_id l)
    simp only [Function.comp_apply, hbyte c hc, Char.ofNat_toNat, id_eq]
  · rw [List.all_map, List.all_eq_true]
    intro c hc
    obtain ⟨h32, h127⟩ := h c hc
    simp only [Function.comp_apply, Bool.or_eq_true, Bool.and_eq_true, decide_eq_true_eq, UInt8.le_iff_toNat_le,
      UInt8.lt_iff_toNat_lt, hbyte c hc]
    exact .inr ⟨h32, h127⟩

theorem splitOnce_cookieText {name value : List Char} (h : '=' ∉ name) : splitOnce '=' (cookieText (name, value)) = some (name, value) := by
  have hname : ∀ c ∈ name, (c != '=') = true := by
    intro c hc
    rw [bne_iff_ne]
    rintro rfl
    exact h hc
  unfold splitOnce cookieText
  rw [List.dropWhile_append_of_pos hname, List.takeWhile_append_of_pos hname]
  simp

theorem stripPrefix_cookieText {name value : List Char} {s : String} (h : '=' ∉ name) (hs : '=' ∉ s.toList) :
    stripPrefix (s ++ "=") (cookieText (name, value)) = if name = s.toList then some value else none := by
  unfold stripPrefix cookieText
  have htext : (s ++ "=").toList = s.toList ++ ['='] := by simp
  rw [htext]
  by_cases hn : name = s.toList
  · subst hn
    rw [if_pos rfl, if_pos (List.isPrefixOf_iff_prefix.2 ⟨value, by simp⟩)]
    simp [List.drop_append]
  · rw [if_neg hn, if_neg]
    intro hprefix
    obtain ⟨rest, hrest⟩ := List.isPrefixOf_iff_prefix.1 hprefix
    rw [List.append_assoc] at hrest
    exact hn (split_at_first hs h hrest).1.symm

/-- The first cookie of a name. -/
def cookie? (jar : List (List Char × List Char)) (name : String) : Option (List Char) := (jar.find? (·.1 == name.toList)).map (·.2)

/-- What is looked for in the pieces of a header, and not in an empty one, is looked for in its cookies. -/
theorem findSome_jarText {β : Type} {f : List Char → Option β} (hf : f [] = none) {jar : List (List Char × List Char)}
    (hw : ∀ c ∈ jar, WellFormed c) :
    (((jarText jar).splitOn ';').map trimmed).findSome? f = (jar.map cookieText).findSome? f := by
  cases jar with
  | nil => simp [jarText, trimmed, trimChars, hf]
  | cons c jar => rw [split_jarText hw (by simp)]

theorem findSome_cookies {β : Type} {f : List Char → Option β} {g : List Char × List Char → Option β}
    {jar : List (List Char × List Char)} (h : ∀ c ∈ jar, f (cookieText c) = g c) :
    (jar.map cookieText).findSome? f = jar.findSome? g := by
  induction jar with
  | nil => rfl
  | cons c jar ih =>
    rw [List.map_cons, List.findSome?_cons, List.findSome?_cons, h c List.mem_cons_self,
      ih fun x hx => h x (List.mem_cons_of_mem _ hx)]

theorem header_jarHeader {jar : List (List Char × List Char)} (hw : ∀ c ∈ jar, WellFormed c) :
    (headerValues (jarHeader jar) "cookie").filterMap toStr = [jarText jar] ∧
      (header? (jarHeader jar) "cookie").bind toStr = some (jarText jar) := by
  have htext : toStr ((jarText jar).map fun c => UInt8.ofNat c.toNat) = some (jarText jar) := toStr_ascii (jarText_ascii hw)
  have hvalues : headerValues (jarHeader jar) "cookie" = [(jarText jar).map fun c => UInt8.ofNat c.toNat] := by
    simp [headerValues, jarHeader]
  unfold header?
  rw [hvalues]
  simp [htext]

theorem WellFormed.name {c : List Char × List Char} (h : WellFormed c) : '=' ∉ c.1 := fun hm => (h.2.1 _ hm).2 rfl

/-- The session cookie among those of a browser. -/
def sessionValue (c : List Char × List Char) : Option (List Char) := if c.1 = sessionCookieName.toList then some c.2 else none

/-- The cookie with the secret among them. -/
def secretValue (secure : Bool) (c : List Char × List Char) : Option String :=
  if c.1 = (oauthCookieName secure).toList ∧ c.2.length = 43 ∧ c.2.all secretChar = true then some (String.ofList c.2) else none

theorem sessionToken_jarHeader {jar : List (List Char × List Char)} (hw : ∀ c ∈ jar, WellFormed c) :
    sessionToken (jarHeader jar) = (jar.findSome? sessionValue).bind fun v => if v.isEmpty then none else some (String.ofList v) := by
  obtain ⟨-, hheader⟩ := header_jarHeader hw
  have hfind : (((jarText jar).splitOn ';').map trimmed).findSome? (stripPrefix (sessionCookieName ++ "=")) =
      jar.findSome? sessionValue := by
    rw [findSome_jarText (by decide) hw]
    exact findSome_cookies fun c hc => stripPrefix_cookieText (hw c hc).name (by decide)
  unfold sessionToken
  rw [← hfind]
  cases hvalue : header? (jarHeader jar) "cookie" with
  | none =>
    rw [hvalue] at hheader
    cases hheader
  | some value =>
    rw [hvalue, Option.bind_some] at hheader
    show (toStr value).bind _ = _
    rw [hheader]
    rfl

theorem oauthBrowserSecret_jarHeader {jar : List (List Char × List Char)} (hw : ∀ c ∈ jar, WellFormed c) (secure : Bool) :
    oauthBrowserSecret (jarHeader jar) secure = jar.findSome? (secretValue secure) := by
  obtain ⟨hheader, -⟩ := header_jarHeader hw
  have hpieces : (jar.map cookieText).findSome? (fun piece => (splitOnce '=' piece).bind (secretValue secure)) =
      jar.findSome? (secretValue secure) := by
    refine findSome_cookies fun c hc => ?_
    rw [show cookieText c = cookieText (c.1, c.2) from rfl, splitOnce_cookieText (hw c hc).name]
    rfl
  unfold oauthBrowserSecret
  rw [hheader, List.flatMap_singleton, ← hpieces, ← findSome_jarText (by rfl) hw,
    ← List.head?_filterMap, List.filterMap_filterMap, List.head?_filterMap, List.findSome?_map]
  rfl

/-! ## Cookies that are set -/

section Put

variable {β : Type} {g : List Char × List Char → Option β} {jar : List (List Char × List Char)} {name value : List Char}

theorem wellFormed_put (hw : ∀ c ∈ jar, WellFormed c) (h : WellFormed (name, value)) : ∀ c ∈ put jar name value, WellFormed c := by
  intro c hc
  unfold put at hc
  split at hc
  · obtain ⟨d, hd, rfl⟩ := List.mem_map.1 hc
    split
    · exact h
    · exact hw d hd
  · rcases List.mem_append.1 hc with hc | hc
    · exact hw c hc
    · rw [List.mem_singleton.1 hc]
      exact h

/-- The new value is found under its name. -/
theorem findSome_put_self {b : β} (hother : ∀ c : List Char × List Char, c.1 ≠ name → g c = none) (hg : g (name, value) = some b) :
    (put jar name value).findSome? g = some b := by
  unfold put
  split
  · rename_i hany
    induction jar with
    | nil => cases hany
    | cons c jar ih =>
      rw [List.map_cons, List.findSome?_cons]
      by_cases hc : c.1 = name
      · simp [hc, hg]
      · have hrest : jar.any (·.1 == name) = true := by simpa [hc] using hany
        rw [if_neg (by simpa using hc), hother c hc]
        exact ih hrest
  · rename_i hnone
    have hall : ∀ c ∈ jar, g c = none := by
      intro c hc
      refine hother c fun hname => hnone ?_
      exact List.any_eq_true.2 ⟨c, hc, by simpa using hname⟩
    rw [List.findSome?_append, List.findSome?_eq_none_iff.2 hall]
    simp [hg]

/-- What is looked for under other names is found as before. -/
theorem findSome_put_other (hg : ∀ v, g (name, v) = none) : (put jar name value).findSome? g = jar.findSome? g := by
  unfold put
  split
  · rw [List.findSome?_map]
    congr 1
    funext c
    by_cases hc : c.1 = name
    · have hold := hg c.2
      rw [← hc] at hold
      simp [hc, hg value, hold]
    · simp [hc]
  · rw [List.findSome?_append]
    simp [hg value]

end Put

theorem keptCookie_eq {name value attributes : String} (hname : ∀ c ∈ name.toList, cookieChar c = true ∧ c ≠ '=')
    (hvalue : ∀ c ∈ value.toList, cookieChar c = true) :
    keptCookie (name ++ "=" ++ value ++ ";" ++ attributes) = some (name.toList, value.toList) := by
  have htext : (name ++ "=" ++ value ++ ";" ++ attributes).toList = cookieText (name.toList, value.toList) ++ ';' :: attributes.toList := by
    simp [cookieText]
  have hchars : ∀ c ∈ cookieText (name.toList, value.toList), (c != ';') = true := by
    intro c hc
    rcases List.mem_append.1 hc with hc | hc
    · have h := (hname c hc).1
      simp only [cookieChar, Bool.and_eq_true] at h
      exact h.2
    · rcases List.mem_cons.1 hc with rfl | hc
      · decide
      · have h := hvalue c hc
        simp only [cookieChar, Bool.and_eq_true] at h
        exact h.2
  unfold keptCookie
  rw [htext, List.takeWhile_append_of_pos hchars, List.takeWhile_cons_of_neg (by decide), List.append_nil]
  exact splitOnce_cookieText fun hm => (hname _ hm).2 rfl

theorem cookieChar_of_secretChar {c : Char} (h : secretChar c = true) : cookieChar c = true ∧ c ≠ '=' := by
  have hle : ∀ a b : Char, a ≤ b ↔ a.toNat ≤ b.toNat := fun a b => UInt32.le_iff_toNat_le
  have hne : ∀ a : Char, c ≠ a ↔ c.toNat ≠ a.toNat := fun a => ⟨fun hc hn => hc (Char.toNat_inj.1 hn), fun hn hc => hn (hc ▸ rfl)⟩
  simp only [secretChar, cookieChar, Bool.or_eq_true, Bool.and_eq_true, decide_eq_true_eq, beq_iff_eq, bne_iff_ne, hle, hne] at h ⊢
  rcases h with (((h | h) | h) | rfl) | rfl
  · exact ⟨by simp at h ⊢; omega, by simp at h ⊢; omega⟩
  · exact ⟨by simp at h ⊢; omega, by simp at h ⊢; omega⟩
  · exact ⟨by simp at h ⊢; omega, by simp at h ⊢; omega⟩
  · decide
  · decide

/-- The characters of a name. -/
theorem nameChars {name : List Char} (h : name.all (fun c => cookieChar c && c != '=') = true) : ∀ c ∈ name, cookieChar c = true ∧ c ≠ '=' := by
  intro c hc
  simpa using List.all_eq_true.1 h c hc

theorem sessionCookieName_wellFormed : sessionCookieName.toList ≠ [] ∧ ∀ c ∈ sessionCookieName.toList, cookieChar c = true ∧ c ≠ '=' :=
  ⟨by decide, nameChars (by decide)⟩

theorem oauthCookieName_wellFormed (secure : Bool) :
    (oauthCookieName secure).toList ≠ [] ∧ ∀ c ∈ (oauthCookieName secure).toList, cookieChar c = true ∧ c ≠ '=' := by
  cases secure with
  | false => exact ⟨by decide, nameChars (by decide)⟩
  | true => exact ⟨by decide, nameChars (by decide)⟩

theorem keep_sessionCookie {token : String} (h : ∀ c ∈ token.toList, cookieChar c = true) (secure : Bool)
    (jar : List (List Char × List Char)) : keep jar (sessionCookie token secure) = put jar sessionCookieName.toList token.toList := by
  have hset : sessionCookie token secure = sessionCookieName ++ "=" ++ token ++ ";" ++
      (" Path=/; HttpOnly; SameSite=Lax; Max-Age=2592000" ++ if secure then "; Secure" else "") := by
    unfold sessionCookie
    cases secure <;> simp [← String.toList_inj]
  unfold keep
  rw [hset, keptCookie_eq sessionCookieName_wellFormed.2 h]

theorem keep_expiredSessionCookie (secure : Bool) (jar : List (List Char × List Char)) :
    keep jar (expiredSessionCookie secure) = put jar sessionCookieName.toList [] := by
  cases secure <;> rfl

theorem keep_oauthCookie {secret : String} (h : ∀ c ∈ secret.toList, secretChar c = true) (secure : Bool)
    (jar : List (List Char × List Char)) :
    keep jar (oauthCookie secret secure) = put jar (oauthCookieName secure).toList secret.toList := by
  have hset : oauthCookie secret secure = oauthCookieName secure ++ "=" ++ secret ++ ";" ++
      (" Path=/; HttpOnly; SameSite=Lax; Max-Age=600" ++ if secure then "; Secure" else "") := by
    unfold oauthCookie
    cases secure <;> simp [← String.toList_inj]
  unfold keep
  rw [hset, keptCookie_eq (oauthCookieName_wellFormed secure).2 fun c hc => (cookieChar_of_secretChar (h c hc)).1]

end Access

end Prosepect
