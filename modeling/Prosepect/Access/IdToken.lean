/-
`google_oidc.rs`: which ID token of Google is taken for the identity of somebody who signs in.

What `jsonwebtoken` and `sha2` do is a parameter: the header of a token, its claims under a key once
the signature, the issuer, the audience and the times are valid, and the hash of an access token.
-/
import Prosepect.Data.Text

namespace Prosepect

open Text

namespace Access

/-- The fields of a JOSE header that are looked at. -/
structure JwtHeader where
  rs256 : Bool
  crit : Option (List String)
  /-- The header has a field `b64`, or one that is no JSON. -/
  b64 : Bool
  kid : Option String
deriving DecidableEq

/-- A key of the JWK set of Google. -/
structure Jwk where
  keyId : Option String
  /-- `AlgorithmParameters::RSA`. -/
  rsa : Bool
  /-- `key_algorithm`: whether it is RS256. -/
  rs256 : Option Bool
  /-- `public_key_use`: whether it is for signatures. -/
  signature : Option Bool
  /-- `key_operations`: whether they contain `verify`. -/
  verify : Option Bool
  parameters : List UInt8
deriving DecidableEq

inductive Audience
  | one (audience : String)
  | many (audiences : List String)
deriving DecidableEq

structure GoogleClaims where
  sub : String
  email : String
  name : Option String
  picture : Option String
  emailVerified : Bool
  nonce : String
  aud : Audience
  azp : Option String
  iat : Nat
  exp : Nat
  atHash : Option String
deriving DecidableEq

/-- The libraries. -/
structure Jose where
  decodeHeader : String → Option JwtHeader
  /-- `decode` with the validation of `verify_id_token`: RS256, the issuer of Google, the client as
  audience, and no leeway. -/
  decode : String → Jwk → String → Option GoogleClaims
  /-- `URL_SAFE_NO_PAD.encode(&Sha256::digest(token)[..16])`. -/
  accessTokenHash : String → String

/-- The keys that may have signed a token with this key id. -/
def candidates (jwks : List Jwk) (kid : String) : List Jwk :=
  jwks.filter fun key => key.keyId == some kid && key.rsa && key.rs256.getD true && key.signature.getD true && key.verify.getD true

def wrongAudience (claims : GoogleClaims) (clientId : String) : Bool :=
  match claims.aud with
  | .one aud => aud != clientId
  | .many _ => false

/-- `claims.azp` is missing where it is needed, or not the client. -/
def wrongParty (claims : GoogleClaims) (clientId : String) : Bool :=
  let multipleAudiences := match claims.aud with
    | .one _ => false
    | .many aud => decide (aud.length > 1)
  (multipleAudiences && claims.azp.isNone) || claims.azp.any (· != clientId)

/-- `claims.iat > now.saturating_add(60)` for a clock of 64 bits. -/
def saturatingAdd (a b : Nat) : Nat := min (a + b) 18446744073709551615

/-- The clock is read for `exp`, and again for `iat`. -/
def invalidIdentity (claims : GoogleClaims) (expNow iatNow : Nat) : Bool :=
  claims.sub.isEmpty || decide (claims.sub.utf8ByteSize > 255) || !claims.sub.toList.all (fun c => decide (c.toNat < 128)) ||
    (trim claims.email).isEmpty || !claims.emailVerified || decide (claims.exp ≤ expNow) ||
    decide (claims.iat > saturatingAdd iatNow 60)

/-- `bail!`, where `p` holds. -/
def bailIf (p : Bool) (message : String) : Except String Unit := if p then .error message else .ok ()

/-- `Option::context`. -/
def orBail {α : Type} (o : Option α) (message : String) : Except String α := o.elim (.error message) .ok

/-- The key that the header of a token names. -/
def signingKey (jose : Jose) (token : String) (jwks : List Jwk) : Except String Jwk := do
  let header ← orBail (jose.decodeHeader token) "invalid Google ID token header"
  bailIf (!header.rs256 || header.crit.any (!·.isEmpty) || header.b64) "unsupported Google ID token header"
  let kid ← orBail (header.kid.filter (!·.isEmpty)) "Google ID token has no signing key ID"
  match candidates jwks kid with
  | [] => .error "Google ID token signing key not found"
  | [key] => .ok key
  | _ => .error "ambiguous Google ID token signing key"

def verifyIdToken (jose : Jose) (token : String) (jwks : List Jwk) (clientId nonce accessToken : String) (expNow iatNow : Nat) :
    Except String GoogleClaims := do
  bailIf (decide (token.utf8ByteSize > 64 * 1024) || clientId.isEmpty || nonce.isEmpty) "invalid Google ID token input"
  let key ← signingKey jose token jwks
  let claims ← orBail (jose.decode token key clientId) "Google returned an invalid ID token"
  bailIf (wrongAudience claims clientId) "Google ID token audience mismatch"
  bailIf (wrongParty claims clientId) "Google ID token authorized party mismatch"
  bailIf (invalidIdentity claims expNow iatNow) "Google ID token identity or issued-at is invalid"
  bailIf (claims.nonce != nonce) "Google ID token nonce mismatch"
  bailIf (claims.atHash.any (· != jose.accessTokenHash accessToken)) "Google access token hash did not match the ID token"
  return claims

/-! ## What is accepted -/

section

variable {α β : Type} {jose : Jose} {token clientId nonce accessToken : String} {jwks : List Jwk} {claims : GoogleClaims}

theorem bailIf_bind {p : Bool} {message : String} {k : Unit → Except String β} {b : β} (h : (bailIf p message >>= k) = .ok b) :
    p = false ∧ k () = .ok b := by
  cases p with
  | false => exact ⟨rfl, h⟩
  | true => cases h

theorem orBail_bind {o : Option α} {message : String} {k : α → Except String β} {b : β} (h : (orBail o message >>= k) = .ok b) :
    ∃ a, o = some a ∧ k a = .ok b := by
  cases o with
  | none => cases h
  | some a => exact ⟨a, rfl, h⟩

theorem except_bind {x : Except String α} {k : α → Except String β} {b : β} (h : (x >>= k) = .ok b) : ∃ a, x = .ok a ∧ k a = .ok b := by
  cases x with
  | error e => cases h
  | ok a => exact ⟨a, rfl, h⟩

/-- The key is an RSA key for RS256 signatures, the only one of its id, and no header field had to be
understood that is not. -/
structure Signs (jose : Jose) (token : String) (jwks : List Jwk) (key : Jwk) : Prop where
  header : ∃ header kid, jose.decodeHeader token = some header ∧ header.rs256 = true ∧ header.b64 = false ∧
    (∀ fields, header.crit = some fields → fields = []) ∧ header.kid = some kid ∧ kid ≠ "" ∧ candidates jwks kid = [key]

theorem signingKey_ok {key : Jwk} (h : signingKey jose token jwks = .ok key) : Signs jose token jwks key := by
  obtain ⟨header, hheader, h⟩ := orBail_bind h
  obtain ⟨hfields, h⟩ := bailIf_bind h
  obtain ⟨kid, hkid, h⟩ := orBail_bind h
  simp only [Bool.or_eq_false_iff, Bool.not_eq_false'] at hfields
  obtain ⟨⟨hrs, hcrit⟩, hb⟩ := hfields
  rw [Option.filter_eq_some_iff] at hkid
  refine ⟨header, kid, hheader, hrs, hb, fun fields hf => ?_, hkid.1, ?_, ?_⟩
  · rw [hf] at hcrit
    simpa using hcrit
  · rintro rfl
    exact absurd hkid.2 (by decide)
  · split at h
    · cases h
    · next heq =>
      cases h
      exact heq
    · cases h

/-- An identity that is accepted: signed by the key that its header names, for the client and the
sign-in that asked for it, and in time. -/
structure Verified (jose : Jose) (token : String) (jwks : List Jwk) (clientId nonce accessToken : String) (claims : GoogleClaims) :
    Prop where
  signed : ∃ key, Signs jose token jwks key ∧ jose.decode token key clientId = some claims
  asked : nonce ≠ "" ∧ claims.nonce = nonce
  sub : claims.sub ≠ "" ∧ claims.sub.utf8ByteSize ≤ 255
  email : claims.emailVerified = true
  audience : ∀ aud, claims.aud = .one aud → aud = clientId
  party : ∀ azp, claims.azp = some azp → azp = clientId
  /-- The access token is the one that was issued with it. -/
  accessToken : ∀ h, claims.atHash = some h → h = jose.accessTokenHash accessToken

theorem verifyIdToken_ok {expNow iatNow : Nat} (h : verifyIdToken jose token jwks clientId nonce accessToken expNow iatNow = .ok claims) :
    Verified jose token jwks clientId nonce accessToken claims ∧ expNow < claims.exp ∧ claims.iat ≤ iatNow + 60 := by
  obtain ⟨hinput, h⟩ := bailIf_bind h
  obtain ⟨key, hkey, h⟩ := except_bind h
  obtain ⟨c, hclaims, h⟩ := orBail_bind h
  obtain ⟨haud, h⟩ := bailIf_bind h
  obtain ⟨hparty, h⟩ := bailIf_bind h
  obtain ⟨hidentity, h⟩ := bailIf_bind h
  obtain ⟨hnonce, h⟩ := bailIf_bind h
  obtain ⟨hhash, h⟩ := bailIf_bind h
  cases h
  simp only [Bool.or_eq_false_iff] at hinput
  simp only [invalidIdentity, saturatingAdd, Bool.or_eq_false_iff, decide_eq_false_iff_not, Bool.not_eq_false'] at hidentity
  obtain ⟨⟨⟨⟨⟨⟨hsub, hlen⟩, -⟩, -⟩, hemail⟩, hexp⟩, hiat⟩ := hidentity
  refine ⟨⟨⟨key, signingKey_ok hkey, hclaims⟩, ⟨?_, ?_⟩, ⟨?_, ?_⟩, hemail, fun aud ha => ?_, fun azp ha => ?_, fun d hd => ?_⟩, ?_, ?_⟩
  · rintro rfl
    exact absurd hinput.2 (by decide)
  · simpa using hnonce
  · rintro hs
    rw [hs] at hsub
    exact absurd hsub (by decide)
  · omega
  · rw [wrongAudience, ha] at haud
    simpa using haud
  · rw [wrongParty, ha] at hparty
    simpa using hparty
  · rw [hd] at hhash
    simpa using hhash
  · omega
  · have hle := of_decide_eq_false hiat
    omega

end

end Access

end Prosepect
