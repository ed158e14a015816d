import HulyGitlab.Http.CookieAuth
import HulyGitlab.Http.OAuthState
import HulyGitlab.Lib.Base64Url

/-!
# What a cookie proves

The secrets that sign cookies also sign the states of OAuth flows. The texts
of the two differ at their last character, and a cookie's text gives back its
identity, except that three numbers have one text.
-/

namespace HulyGitlab.CookieAuth

variable {F : Type}

/-- What is used of the platform: a digest has bytes, base64url is read back, the
text of a number is one of JSON and is read back, and a text that is too large
for a number is infinite. -/
structure CookiePlatform.Laws (platform : CookiePlatform F) : Prop where
  digest_ne_nil : ∀ secret payload, platform.hmacSha256 secret payload ≠ []
  fromBase64url_toBase64url : ∀ s, platform.fromBase64url (platform.toBase64url s) = s
  isNumberText : ∀ x, Json.IsNumberText (platform.numberText x)
  readNumber_numberText : ∀ x, platform.readNumber (platform.numberText x) = some x
  overflow : platform.readNumber "1e999".toList = none

/-- The identity with an expiry that never comes. -/
def HulyUserIdentity.unending (identity : HulyUserIdentity F) : HulyUserIdentity F :=
  { identity with expiresAt := .posInf }

/-- The uses of the secrets: `signCookie`, and the states of the two routes that
begin an OAuth flow. -/
inductive SigningQuery (F : Type)
  | cookie (identity : HulyUserIdentity F)
  | adminState (workspaceUuid hulyProjectRef nonce : String) (epoch : Nat)
  | userState (workspaceUuid hulyPersonUuid nonce : String) (epoch : Nat)

namespace CookiePlatform

variable (platform : CookiePlatform F)

def signedText : SigningQuery F → String
  | .cookie identity => platform.payloadJson identity
  | .adminState workspaceUuid hulyProjectRef nonce epoch =>
      OAuth.adminStatePayload workspaceUuid hulyProjectRef nonce epoch
  | .userState workspaceUuid hulyPersonUuid nonce epoch =>
      OAuth.buildStatePayload workspaceUuid hulyPersonUuid nonce epoch

section Texts

/-- What is read back of a number. -/
def readBack : JsNumber F → Json (ParsedNumber F)
  | .finite x => .num (.finite x)
  | _ => .null

variable {platform}

theorem Laws.parseNumber_numberText (laws : platform.Laws) (x : F) :
    platform.parseNumber (platform.numberText x) = .finite x := by
  rw [parseNumber, laws.readNumber_numberText]

theorem Laws.reads_numberJson (laws : platform.Laws) (e : JsNumber F) :
    Json.Reads platform.parseNumber (platform.numberJson e) (readBack e) := by
  cases e with
  | finite x =>
      have hreads : Json.Reads platform.parseNumber (platform.numberText x)
          (.num (platform.parseNumber (platform.numberText x))) :=
        Json.reads_number (laws.isNumberText x)
      rwa [laws.parseNumber_numberText] at hreads
  | posInf => exact Json.reads_null
  | negInf => exact Json.reads_null
  | nan => exact Json.reads_null

/-- The payload of an identity is read back, up to the numbers without a text. -/
theorem Laws.parse_payloadJson (laws : platform.Laws) (identity : HulyUserIdentity F) :
    Json.parse platform.parseNumber (platform.payloadJson identity).toList =
      some (.obj [("w", .str identity.workspaceUuid), ("p", .str identity.hulyPersonUuid),
        ("e", readBack identity.expiresAt)]) := by
  rw [payloadJson, String.toList_ofList]
  refine Json.parse_renderObject
    [("w", Json.quote identity.workspaceUuid, .str identity.workspaceUuid),
      ("p", Json.quote identity.hulyPersonUuid, .str identity.hulyPersonUuid),
      ("e", platform.numberJson identity.expiresAt, readBack identity.expiresAt)]
    (List.cons_ne_nil _ _) ?_
  simp only [List.forall_mem_cons, List.not_mem_nil, false_imp_iff, implies_true, and_true]
  exact ⟨Json.reads_quote _, Json.reads_quote _, laws.reads_numberJson _⟩

/-- Identities of one text agree, or neither has a finite expiry. -/
theorem Laws.payloadJson_inj (laws : platform.Laws) {a b : HulyUserIdentity F}
    (h : platform.payloadJson a = platform.payloadJson b) :
    a.workspaceUuid = b.workspaceUuid ∧ a.hulyPersonUuid = b.hulyPersonUuid ∧
      readBack a.expiresAt = readBack b.expiresAt := by
  have ha := laws.parse_payloadJson a
  rw [h, laws.parse_payloadJson b] at ha
  simp only [Option.some.injEq, Json.obj.injEq, List.cons.injEq, Prod.mk.injEq, true_and,
    Json.str.injEq, and_true] at ha
  exact ⟨ha.1.symm, ha.2.1.symm, ha.2.2.symm⟩

theorem getLast?_payloadJson (identity : HulyUserIdentity F) :
    (platform.payloadJson identity).toList.getLast? = some '}' := by
  rw [payloadJson, String.toList_ofList, Json.renderObject, ← List.cons_append, List.getLast?_concat]

/-- No state of an OAuth flow is the text of a cookie. -/
theorem payloadJson_ne_of_endsWithTime {payload : String} (h : OAuth.EndsWithTime payload)
    (identity : HulyUserIdentity F) : payload ≠ platform.payloadJson identity := by
  rintro rfl
  obtain ⟨c, hc, hdigit⟩ := h.getLast?_isDigit
  rw [getLast?_payloadJson, Option.mem_def, Option.some.injEq] at hc
  subst hc
  cases hdigit

/-- Only a cookie has the text of a cookie. -/
theorem exists_cookie_of_signedText {q : SigningQuery F} {identity : HulyUserIdentity F}
    (h : platform.signedText q = platform.payloadJson identity) :
    ∃ signed, q = .cookie signed ∧ platform.payloadJson signed = platform.payloadJson identity := by
  cases q with
  | cookie signed => exact ⟨signed, rfl, h⟩
  | adminState workspaceUuid hulyProjectRef nonce epoch =>
      exact absurd h
        (payloadJson_ne_of_endsWithTime (OAuth.endsWithTime_adminStatePayload _ _ _ _) _)
  | userState workspaceUuid hulyPersonUuid nonce epoch =>
      exact absurd h
        (payloadJson_ne_of_endsWithTime (OAuth.endsWithTime_buildStatePayload _ _ _ _) _)

/-- An envelope that was written is read back, with any text for its number. -/
theorem Laws.readEnvelope_render (laws : platform.Laws) (w p sig : String) {t : List Char}
    {e : ParsedNumber F} (ht : Json.Reads platform.parseNumber t (.num e)) :
    platform.readEnvelope (platform.toBase64url (String.ofList (Json.renderObject
        [("w", Json.quote w), ("p", Json.quote p), ("e", t), ("sig", Json.quote sig)]))) =
      some (⟨w, p, e.toJsNumber⟩, sig) := by
  have hparse : Json.parse platform.parseNumber (Json.renderObject
      [("w", Json.quote w), ("p", Json.quote p), ("e", t), ("sig", Json.quote sig)]) =
        some (.obj [("w", .str w), ("p", .str p), ("e", .num e), ("sig", .str sig)]) := by
    refine Json.parse_renderObject [("w", Json.quote w, .str w), ("p", Json.quote p, .str p),
      ("e", t, .num e), ("sig", Json.quote sig, .str sig)] (List.cons_ne_nil _ _) ?_
    simp only [List.forall_mem_cons, List.not_mem_nil, false_imp_iff, implies_true, and_true]
    exact ⟨Json.reads_quote _, Json.reads_quote _, ht, Json.reads_quote _⟩
  rw [readEnvelope, laws.fromBase64url_toBase64url, String.toList_ofList, hparse]
  rfl

theorem toJsNumber_ne_nan (e : ParsedNumber F) : e.toJsNumber ≠ .nan := by
  cases e with
  | finite x => rintro ⟨⟩
  | overflow negative => cases negative <;> rintro ⟨⟩

/-- No envelope carries `NaN`. -/
theorem expiresAt_ne_nan {cookie sig : String} {identity : HulyUserIdentity F}
    (h : platform.readEnvelope cookie = some (identity, sig)) : identity.expiresAt ≠ .nan := by
  obtain ⟨envelope, -, hread⟩ := Option.bind_eq_some_iff.mp h
  split at hread
  · cases hread
    exact toJsNumber_ne_nan _
  · cases hread

end Texts

section Security

variable [LT F] [DecidableLT F] (secrets : SecretConfig) (now : F)
  (run : List (String × SigningQuery F))

/-- A signature the cookie passes with belongs to a text that was signed, under
the secret beside it, in the run. -/
def Unforged (cookie : String) : Prop :=
  ∀ identity sig, platform.readEnvelope cookie = some (identity, sig) →
    (verifyHmac platform.hmacSha256 (platform.payloadJson identity) sig secrets).isSome →
      ∃ use ∈ run, use.1 ∈ secrets.accepted ∧
        platform.signedText use.2 = platform.payloadJson identity

def PassedToSignCookie (identity : HulyUserIdentity F) : Prop :=
  ∃ secret ∈ secrets.accepted, (secret, .cookie identity) ∈ run

/-- Whoever presents a cookie that is accepted has an identity that was signed and
has not expired. -/
def AcceptsOnlySigned : Prop :=
  ∀ cookie, platform.Unforged secrets run cookie →
    ∀ identity, platform.verifyCookie secrets now cookie = some identity →
      PassedToSignCookie secrets run identity ∧ identity.expiresAt.isBefore now = false

/-- A signed identity with a finite expiry is accepted until then, while its
secret is in use. -/
def AcceptsSigned : Prop :=
  ∀ identity x signer, identity.expiresAt = .finite x → ¬ x < now →
    signer.primary ∈ secrets.accepted →
      platform.verifyCookie secrets now (platform.signCookie identity signer) = some identity

variable {platform secrets now run}

theorem verifyCookie_eq_some_iff {cookie : String} {identity : HulyUserIdentity F} :
    platform.verifyCookie secrets now cookie = some identity ↔
      ∃ sig, platform.readEnvelope cookie = some (identity, sig) ∧
        (verifyHmac platform.hmacSha256 (platform.payloadJson identity) sig secrets).isSome ∧
          identity.expiresAt.isBefore now = false := by
  unfold verifyCookie
  cases hread : platform.readEnvelope cookie with
  | none => simp
  | some envelope =>
      obtain ⟨carried, sig⟩ := envelope
      simp only [Option.some.injEq, Prod.mk.injEq]
      cases hverify : verifyHmac platform.hmacSha256 (platform.payloadJson carried) sig secrets with
      | none =>
          simp only [reduceCtorEq, false_iff]
          rintro ⟨_, ⟨rfl, rfl⟩, hsome, -⟩
          rw [hverify] at hsome
          cases hsome
      | some kind =>
          cases hbefore : carried.expiresAt.isBefore now with
          | true =>
              simp only [if_true, reduceCtorEq, false_iff]
              rintro ⟨_, ⟨rfl, rfl⟩, -, hlive⟩
              rw [hbefore] at hlive
              cases hlive
          | false =>
              simp only [Bool.false_eq_true, if_false, Option.some.injEq]
              constructor
              · rintro rfl
                exact ⟨sig, ⟨rfl, rfl⟩, by rw [hverify]; rfl, hbefore⟩
              · rintro ⟨_, ⟨rfl, rfl⟩, -⟩
                rfl

theorem Laws.acceptsSigned (laws : platform.Laws) : platform.AcceptsSigned secrets now := by
  intro identity x signer hx hlive hsigner
  have hread : platform.readEnvelope (platform.signCookie identity signer) =
      some (identity, signHmac platform.hmacSha256 (platform.payloadJson identity) signer) := by
    have hreads := laws.reads_numberJson identity.expiresAt
    rw [hx] at hreads
    have hrender := laws.readEnvelope_render identity.workspaceUuid identity.hulyPersonUuid
      (signHmac platform.hmacSha256 (platform.payloadJson identity) signer) hreads
    obtain ⟨w, p, e⟩ := identity
    cases hx
    exact hrender
  refine verifyCookie_eq_some_iff.mpr ⟨_, hread, ?_, ?_⟩
  · exact verifyHmac_signHmac (laws.digest_ne_nil _ _) hsigner
  · rw [hx]
    exact decide_eq_false hlive

/-- Every accepted identity was signed, or is the unending form of one that was
signed with `NaN` or with the negative infinity. -/
theorem Laws.acceptsOnlySigned_iff (laws : platform.Laws) :
    platform.AcceptsOnlySigned secrets now run ↔
      ∀ identity, identity.expiresAt = .nan ∨ identity.expiresAt = .negInf →
        PassedToSignCookie secrets run identity →
          PassedToSignCookie secrets run identity.unending := by
  constructor
  · intro h identity hexpiry ⟨secret, hsecret, huse⟩
    have htext : platform.payloadJson identity.unending = platform.payloadJson identity := by
      obtain ⟨w, p, e⟩ := identity
      obtain rfl | rfl := hexpiry <;> rfl
    have hoverflow : Json.Reads platform.parseNumber "1e999".toList
        (.num (platform.parseNumber "1e999".toList)) :=
      Json.reads_number (show Json.numberText _ = _ by decide +kernel)
    have hinf : (platform.parseNumber "1e999".toList).toJsNumber = .posInf := by
      rw [parseNumber, laws.overflow]
      rfl
    have hread := laws.readEnvelope_render identity.workspaceUuid identity.hulyPersonUuid
      (signHmac platform.hmacSha256 (platform.payloadJson identity) ⟨secret, none⟩) hoverflow
    rw [hinf] at hread
    refine (h _ ?_ identity.unending (verifyCookie_eq_some_iff.mpr ⟨_, hread, ?_, rfl⟩)).1
    · intro carried sig hcarried _
      rw [hread] at hcarried
      cases hcarried
      exact ⟨(secret, .cookie identity), huse, hsecret, htext.symm⟩
    · rw [htext]
      exact verifyHmac_signHmac (laws.digest_ne_nil _ _) hsecret
  · intro h cookie hunforged identity hverify
    obtain ⟨sig, hread, hmac, hlive⟩ := verifyCookie_eq_some_iff.mp hverify
    refine ⟨?_, hlive⟩
    obtain ⟨⟨secret, q⟩, huse, hsecret, htext⟩ := hunforged identity sig hread hmac
    obtain ⟨⟨w, p, e⟩, rfl, htext⟩ := exists_cookie_of_signedText htext
    have hnan := expiresAt_ne_nan hread
    obtain ⟨w', p', e'⟩ := identity
    obtain ⟨rfl, rfl, he⟩ := laws.payloadJson_inj htext
    have hsigned : PassedToSignCookie secrets run ⟨w, p, e⟩ := ⟨secret, hsecret, huse⟩
    cases e' with
    | finite x =>
        cases e with
        | finite y =>
            cases he
            exact hsigned
        | posInf => cases he
        | negInf => cases he
        | nan => cases he
    | posInf =>
        cases e with
        | finite y => cases he
        | posInf => exact hsigned
        | negInf => exact h _ (.inr rfl) hsigned
        | nan => exact h _ (.inl rfl) hsigned
    | negInf => cases hlive
    | nan => exact absurd rfl hnan

/-- Cookies cannot be forged and signed ones are accepted, as long as whoever was
signed with `NaN` or the negative infinity was signed with the infinity as well. -/
theorem cookieSecurity_iff (laws : platform.Laws) :
    (platform.AcceptsOnlySigned secrets now run ∧ platform.AcceptsSigned secrets now) ↔
      ∀ identity, identity.expiresAt = .nan ∨ identity.expiresAt = .negInf →
        PassedToSignCookie secrets run identity →
          PassedToSignCookie secrets run identity.unending := by
  rw [laws.acceptsOnlySigned_iff]
  exact and_iff_left laws.acceptsSigned

end Security

end CookiePlatform

section Sample

/-- Whole numbers, with a digest that keeps its input. -/
def samplePlatform : CookiePlatform ℕ where
  hmacSha256 secret payload :=
    (secret ++ "|" ++ payload).toByteArray.data.toList.map UInt8.toFin
  toBase64url := Base64Url.encode
  fromBase64url s := (Base64Url.decode s).getD ""
  numberText n := Nat.toDigits 10 n
  readNumber t := if t.all Char.isDigit then some (Nat.ofDigitChars 10 t 0) else none

theorem samplePlatform_laws : samplePlatform.Laws where
  digest_ne_nil secret payload := by
    have hbar : '|' ∈ (secret ++ "|" ++ payload).toList := by simp
    intro hnil
    have hbytes := List.map_eq_nil_iff.mp hnil
    have htext : (secret ++ "|" ++ payload) = "" := by
      rw [← String.toByteArray_eq_empty_iff]
      exact ByteArray.ext (Array.toList_inj.mp hbytes)
    rw [htext] at hbar
    cases hbar
  fromBase64url_toBase64url s := by
    change (Base64Url.decode (Base64Url.encode s)).getD "" = s
    rw [Base64Url.decode_encode]
    rfl
  isNumberText := Json.isNumberText_toDigits
  readNumber_numberText n := by
    have hdigits : (Nat.toDigits 10 n).all Char.isDigit = true :=
      List.all_eq_true.mpr fun c hc => Nat.isDigit_of_mem_toDigits (by decide) (by decide) hc
    exact (if_pos hdigits).trans (congrArg some Nat.ofDigitChars_ten_toDigits)
  overflow := rfl

/-- A cookie and an attacker's state, under the secret that is now the previous one. -/
theorem cookieSecurity_sample :
    let secrets : SecretConfig := ⟨"new", some "old"⟩
    let run : List (String × SigningQuery ℕ) :=
      [("old", .cookie ⟨"ws|1", "person", .finite 1700000000000⟩),
        ("new", .adminState "user|ws" "person" "nonce" 1600000000000)]
    samplePlatform.AcceptsOnlySigned secrets 1650000000000 run ∧
      samplePlatform.AcceptsSigned secrets 1650000000000 := by
  refine (CookiePlatform.cookieSecurity_iff samplePlatform_laws).mpr ?_
  rintro identity hexpiry ⟨secret, -, huse⟩
  simp only [List.mem_cons, Prod.mk.injEq, SigningQuery.cookie.injEq, reduceCtorEq, and_false,
    List.not_mem_nil, or_false] at huse
  obtain ⟨-, rfl⟩ := huse
  obtain h | h := hexpiry <;> cases h

/-- An identity signed with `NaN` is enough to be accepted for ever. -/
theorem not_acceptsOnlySigned_nan :
    ¬ (samplePlatform.AcceptsOnlySigned ⟨"secret", none⟩ 0
        [("secret", .cookie ⟨"ws", "person", .nan⟩)] ∧
      samplePlatform.AcceptsSigned ⟨"secret", none⟩ 0) := by
  rintro ⟨h, -⟩
  have hunending := samplePlatform_laws.acceptsOnlySigned_iff.mp h ⟨"ws", "person", .nan⟩ (.inl rfl)
    ⟨"secret", List.mem_cons_self, List.mem_cons_self⟩
  obtain ⟨secret, -, huse⟩ := hunending
  simp [HulyUserIdentity.unending] at huse

end Sample

end HulyGitlab.CookieAuth
