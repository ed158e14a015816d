import HulyGitlab.Lib.Json
import HulyGitlab.Lib.UriComponent
import HulyGitlab.Util.SecretRotation

/-!
# The `huly-user` cookie

`signCookie`, `verifyCookie` and the middleware that reads the cookie from the
header of a request. Numbers are finite ones of a type `F`, where the two zeros
are one, or one of the three that JSON writes as `null`.
-/

namespace HulyGitlab.CookieAuth

inductive JsNumber (F : Type)
  | finite (x : F)
  | posInf
  | negInf
  | nan
  deriving DecidableEq

/-- What `JSON.parse` gives for the text of a number: never `NaN`. -/
inductive ParsedNumber (F : Type)
  | finite (x : F)
  | overflow (negative : Bool)

def ParsedNumber.toJsNumber {F : Type} : ParsedNumber F → JsNumber F
  | .finite x => .finite x
  | .overflow true => .negInf
  | .overflow false => .posInf

structure HulyUserIdentity (F : Type) where
  workspaceUuid : String
  hulyPersonUuid : String
  expiresAt : JsNumber F
  deriving DecidableEq

/-- The digest, the `Buffer` conversions between UTF-8 and base64url, and the
texts of numbers. `readNumber` is none for a text beyond the finite numbers. -/
structure CookiePlatform (F : Type) where
  hmacSha256 : String → String → List (Fin 256)
  toBase64url : String → String
  fromBase64url : String → String
  numberText : F → List Char
  readNumber : List Char → Option F

variable {F : Type}

namespace CookiePlatform

variable (platform : CookiePlatform F)

def numberJson : JsNumber F → List Char
  | .finite x => platform.numberText x
  | _ => "null".toList

def parseNumber (t : List Char) : ParsedNumber F :=
  match platform.readNumber t with
  | some x => .finite x
  | none => .overflow (t.head? = some '-')

/-- The fields of the payload. -/
def payload (identity : HulyUserIdentity F) : List (String × List Char) :=
  [("w", Json.quote identity.workspaceUuid), ("p", Json.quote identity.hulyPersonUuid),
    ("e", platform.numberJson identity.expiresAt)]

def payloadJson (identity : HulyUserIdentity F) : String :=
  String.ofList (Json.renderObject (platform.payload identity))

def signCookie (identity : HulyUserIdentity F) (secrets : SecretConfig) : String :=
  let sig := signHmac platform.hmacSha256 (platform.payloadJson identity) secrets
  let envelope := Json.renderObject (platform.payload identity ++ [("sig", Json.quote sig)])
  platform.toBase64url (String.ofList envelope)

/-- The identity a cookie carries and its signature, when all are of their types. -/
def readEnvelope (cookie : String) : Option (HulyUserIdentity F × String) :=
  (Json.parse platform.parseNumber (platform.fromBase64url cookie).toList).bind fun envelope =>
    match envelope.get "w", envelope.get "p", envelope.get "e", envelope.get "sig" with
    | some (.str w), some (.str p), some (.num e), some (.str sig) =>
        some (⟨w, p, e.toJsNumber⟩, sig)
    | _, _, _, _ => none

end CookiePlatform

variable [LT F] [DecidableLT F]

/-- `e < now`. -/
def JsNumber.isBefore (now : F) : JsNumber F → Bool
  | .finite x => x < now
  | .negInf => true
  | .posInf => false
  | .nan => false

def CookiePlatform.verifyCookie (platform : CookiePlatform F) (secrets : SecretConfig) (now : F)
    (cookie : String) : Option (HulyUserIdentity F) :=
  match platform.readEnvelope cookie with
  | none => none
  | some (identity, sig) =>
      match verifyHmac platform.hmacSha256 (platform.payloadJson identity) sig secrets with
      | none => none
      | some _ => if identity.expiresAt.isBefore now then none else some identity

section Header

/-- A pair of a header, cut at its first `=`; none without one. -/
def splitPair (pair : List Char) : Option (List Char × List Char) :=
  let trimmed := trim pair
  if '=' ∈ trimmed then
    some (trimmed.takeWhile (· ≠ '='), (trimmed.dropWhile (· ≠ '=')).drop 1)
  else none

/-- The pairs of a header that have a `=`. -/
def rawPairs (header : List Char) : List (List Char × List Char) :=
  (header.splitOn ';').filterMap splitPair

/-- Both sides of a pair decoded; none when one of them throws. -/
def decodePair (raw : List Char × List Char) : Option (String × String) :=
  (UriComponent.decodeURIComponent raw.1).bind fun k =>
    (UriComponent.decodeURIComponent raw.2).map fun v => (k, v)

/-- `out[k] = v` in an object: the name of its prototype takes no string. -/
def assign (out : List (String × String)) (pair : String × String) : List (String × String) :=
  if pair.1.isEmpty ∨ pair.1 = "__proto__" then out else pair :: out

/-- The assignments, the last one first; none when `decodeURIComponent` throws. -/
def parseCookieHeader (header : List Char) : Option (List (String × String)) :=
  ((rawPairs header).mapM decodePair).map fun pairs => pairs.foldl assign []

def cookieName : String := "huly-user"

/-- What the middleware does with a request. -/
inductive AuthOutcome (F : Type)
  | thrown
  | unauthorized (error : String)
  | next (hulyUser : HulyUserIdentity F)
  deriving DecidableEq

def requireHulyCookie (platform : CookiePlatform F) (secrets : SecretConfig) (now : F)
    (cookie : Option String) : AuthOutcome F :=
  match parseCookieHeader (cookie.getD "").toList with
  | none => .thrown
  | some cookies =>
      match cookies.lookup cookieName with
      | none => .unauthorized "huly-user cookie required"
      | some raw =>
          match platform.verifyCookie secrets now raw with
          | none => .unauthorized "invalid or expired huly-user cookie"
          | some identity => .next identity

end Header

section OwnCookie

/-- The values of the pairs of this name. -/
def ownValues (pairs : List (String × String)) : List String :=
  pairs.filterMap fun pair => if pair.1 = cookieName then some pair.2 else none

/-- The pairs of a header that decode. -/
def decodedPairs (header : List Char) : List (String × String) :=
  (rawPairs header).filterMap decodePair

def EveryPairDecodes (header : List Char) : Prop :=
  ∀ raw ∈ rawPairs header, (decodePair raw).isSome

theorem mapM_decodePair (raws : List (List Char × List Char)) :
    raws.mapM decodePair =
      if ∀ raw ∈ raws, (decodePair raw).isSome then some (raws.filterMap decodePair) else none := by
  induction raws with
  | nil => rfl
  | cons raw raws ih =>
      rw [List.mapM_cons, ih, List.filterMap_cons]
      cases hraw : decodePair raw with
      | none =>
          have hnot : ¬ ∀ r ∈ raw :: raws, (decodePair r).isSome := by
            intro hall
            have hsome := hall raw List.mem_cons_self
            rw [hraw] at hsome
            cases hsome
          rw [if_neg hnot]
          rfl
      | some pair =>
          simp only [List.forall_mem_cons, hraw, Option.isSome_some, true_and]
          split <;> rfl

theorem lookup_assign (out : List (String × String)) (pair : String × String) :
    (assign out pair).lookup cookieName =
      if pair.1 = cookieName then some pair.2 else out.lookup cookieName := by
  obtain ⟨k, v⟩ := pair
  unfold assign
  by_cases hname : k = cookieName
  · subst hname
    rfl
  · rw [if_neg hname]
    split
    · rfl
    · rw [List.lookup_cons, beq_eq_false_iff_ne.mpr (Ne.symm hname)]

/-- The last pair of the name is the one that is found. -/
theorem lookup_foldl_assign (pairs out : List (String × String)) :
    (pairs.foldl assign out).lookup cookieName =
      (ownValues pairs).getLast?.or (out.lookup cookieName) := by
  induction pairs generalizing out with
  | nil => rfl
  | cons pair pairs ih =>
      rw [List.foldl_cons, ih, lookup_assign]
      by_cases hname : pair.1 = cookieName
      · have hcons : ownValues (pair :: pairs) = pair.2 :: ownValues pairs := by
          simp [ownValues, hname]
        rw [if_pos hname, hcons, List.getLast?_cons]
        cases (ownValues pairs).getLast? <;> rfl
      · have hcons : ownValues (pair :: pairs) = ownValues pairs := by
          simp [ownValues, hname]
        rw [if_neg hname, hcons]

theorem mem_ownValues {header : List Char} {v : String} :
    v ∈ ownValues (decodedPairs header) ↔
      ∃ raw ∈ rawPairs header, decodePair raw = some (cookieName, v) := by
  unfold ownValues decodedPairs
  rw [List.mem_filterMap]
  constructor
  · rintro ⟨⟨k, w⟩, hpair, hw⟩
    obtain ⟨raw, hraw, hdecode⟩ := List.mem_filterMap.mp hpair
    obtain ⟨hk, hw⟩ := Option.ite_none_right_eq_some.mp hw
    cases hw
    exact ⟨raw, hraw, hdecode.trans (by rw [← hk])⟩
  · rintro ⟨raw, hraw, hdecode⟩
    exact ⟨(cookieName, v), List.mem_filterMap.mpr ⟨raw, hraw, hdecode⟩, if_pos rfl⟩

theorem parseCookieHeader_of_every {header : List Char} (hall : EveryPairDecodes header) :
    parseCookieHeader header = some ((decodedPairs header).foldl assign []) := by
  rw [parseCookieHeader, mapM_decodePair, if_pos (show ∀ raw ∈ _, _ from hall)]
  rfl

theorem parseCookieHeader_of_not_every {header : List Char} (hall : ¬ EveryPairDecodes header) :
    parseCookieHeader header = none := by
  rw [parseCookieHeader, mapM_decodePair, if_neg (show ¬ ∀ raw ∈ _, _ from hall)]
  rfl

variable (platform : CookiePlatform F) (secrets : SecretConfig) (now : F) (cookie : Option String)

theorem requireHulyCookie_thrown_iff :
    requireHulyCookie platform secrets now cookie = .thrown ↔
      ¬ EveryPairDecodes (cookie.getD "").toList := by
  unfold requireHulyCookie
  by_cases hall : EveryPairDecodes (cookie.getD "").toList
  · rw [parseCookieHeader_of_every hall]
    simp only [hall, not_true_eq_false, iff_false]
    split
    · rintro ⟨⟩
    · split <;> rintro ⟨⟩
  · simp [parseCookieHeader_of_not_every hall, hall]

theorem requireHulyCookie_next_iff (hall : EveryPairDecodes (cookie.getD "").toList)
    (identity : HulyUserIdentity F) :
    requireHulyCookie platform secrets now cookie = .next identity ↔
      ∃ v ∈ (ownValues (decodedPairs (cookie.getD "").toList)).getLast?,
        platform.verifyCookie secrets now v = some identity := by
  unfold requireHulyCookie
  rw [parseCookieHeader_of_every hall]
  simp only [lookup_foldl_assign, List.lookup_nil, Option.or_none]
  cases (ownValues (decodedPairs (cookie.getD "").toList)).getLast? with
  | none => simp
  | some v => cases hv : platform.verifyCookie secrets now v <;> simp [hv]

/-- The middleware answers, and passes the request on exactly when some pair of
this name carries a cookie that is accepted. -/
def DecidesByOwnCookie : Prop :=
  requireHulyCookie platform secrets now cookie ≠ .thrown ∧
    ((∃ identity, requireHulyCookie platform secrets now cookie = .next identity) ↔
      ∃ raw ∈ rawPairs (cookie.getD "").toList, ∃ v, decodePair raw = some (cookieName, v) ∧
        (platform.verifyCookie secrets now v).isSome)

/-- Every pair has to decode, and where a cookie of this name is accepted the
last one of them is. -/
theorem decidesByOwnCookie_iff :
    DecidesByOwnCookie platform secrets now cookie ↔
      EveryPairDecodes (cookie.getD "").toList ∧
        ((∃ v ∈ ownValues (decodedPairs (cookie.getD "").toList),
            (platform.verifyCookie secrets now v).isSome) →
          ∃ v ∈ (ownValues (decodedPairs (cookie.getD "").toList)).getLast?,
            (platform.verifyCookie secrets now v).isSome) := by
  have hown : (∃ raw ∈ rawPairs (cookie.getD "").toList, ∃ v,
      decodePair raw = some (cookieName, v) ∧ (platform.verifyCookie secrets now v).isSome) ↔
      ∃ v ∈ ownValues (decodedPairs (cookie.getD "").toList),
        (platform.verifyCookie secrets now v).isSome := by
    simp only [mem_ownValues]
    constructor
    · rintro ⟨raw, hraw, v, hdecode, hv⟩
      exact ⟨v, ⟨raw, hraw, hdecode⟩, hv⟩
    · rintro ⟨v, ⟨raw, hraw, hdecode⟩, hv⟩
      exact ⟨raw, hraw, v, hdecode, hv⟩
  unfold DecidesByOwnCookie
  rw [hown, ne_eq, requireHulyCookie_thrown_iff, not_not]
  refine and_congr_right fun hall => ?_
  have hnext : (∃ identity, requireHulyCookie platform secrets now cookie = .next identity) ↔
      ∃ v ∈ (ownValues (decodedPairs (cookie.getD "").toList)).getLast?,
        (platform.verifyCookie secrets now v).isSome := by
    simp only [requireHulyCookie_next_iff platform secrets now cookie hall, Option.isSome_iff_exists]
    constructor
    · rintro ⟨identity, v, hv, hverify⟩
      exact ⟨v, hv, identity, hverify⟩
    · rintro ⟨v, hv, identity, hverify⟩
      exact ⟨identity, v, hv, hverify⟩
  rw [hnext]
  refine ⟨Iff.mpr, fun h => ⟨?_, h⟩⟩
  rintro ⟨v, hv, hverify⟩
  exact ⟨v, List.mem_of_getLast? hv, hverify⟩

/-- A percent sign in the cookie of another application is enough to throw. -/
theorem not_decidesByOwnCookie_percent :
    ¬ ∀ (platform : CookiePlatform ℕ) (secrets : SecretConfig) (now : ℕ),
      DecidesByOwnCookie platform secrets now (some "theme=100%; huly-user=x") := by
  intro h
  have hthrown : requireHulyCookie ⟨fun _ _ => [], id, id, fun _ => [], fun _ => none⟩
      ⟨"secret", none⟩ 0 (some "theme=100%; huly-user=x") = .thrown := by
    decide +kernel
  exact (h _ _ _).1 hthrown

end OwnCookie

end HulyGitlab.CookieAuth
