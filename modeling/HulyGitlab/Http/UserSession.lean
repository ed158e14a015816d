import HulyGitlab.Http.CookieSecurity
import HulyGitlab.Lib.Transition
import Mathlib.Algebra.Order.Floor.Semiring

/-!
# Sessions of users

`POST /user/session` signs cookies for whoever knows the server's secret. The
secret is rotated by redeploying; until the next rotation the old one still
verifies. Whoever is let in at some time was given a cookie for this identity
less than a day before, under a secret that is still in use.
-/

namespace HulyGitlab.CookieAuth

/-- `requireBearer`. -/
def requireBearer (secret : String) (authorization : Option String) : Bool :=
  match authorization with
  | none => false
  | some header =>
      if header = "" then false
      else if "Bearer ".toList.isPrefixOf header.toList then
        String.ofList (header.toList.drop 7) = secret
      else false

def DEFAULT_TTL_SECONDS : ℕ := 3600

def MAX_TTL_SECONDS : ℕ := 24 * 3600

/-- What is read of the body: none where the value is missing or of another type. -/
structure SessionBody (F : Type) where
  workspaceUuid : Option String
  hulyPersonUuid : Option String
  ttlSeconds : Option (JsNumber F)

/-- The answer; one that sets a cookie also tells when its identity expires. -/
inductive SessionAnswer (F : Type)
  | unauthorized
  | invalid (message : String)
  | minted (identity : HulyUserIdentity F) (setCookie : String)
  deriving DecidableEq

section Route

variable {F : Type} [Semiring F] [LinearOrder F] [FloorSemiring F]

/-- A number above zero and not infinite is rounded down and capped. -/
def ttlOf : Option (JsNumber F) → ℕ
  | some (.finite x) => if 0 < x then min ⌊x⌋₊ MAX_TTL_SECONDS else DEFAULT_TTL_SECONDS
  | _ => DEFAULT_TTL_SECONDS

theorem ttlOf_le (ttlSeconds : Option (JsNumber F)) : ttlOf ttlSeconds ≤ MAX_TTL_SECONDS := by
  unfold ttlOf
  split
  · split
    · exact Nat.min_le_right _ _
    · decide
  · decide

/-- The identity that is signed, or the answer to a body that names none. -/
def sessionIdentity (body : SessionBody F) (now : ℕ) :
    Except String (HulyUserIdentity F) :=
  match body.workspaceUuid.filter (· ≠ "") with
  | none => .error "Missing workspaceUuid"
  | some workspaceUuid =>
      match body.hulyPersonUuid.filter (· ≠ "") with
      | none => .error "Missing hulyPersonUuid"
      | some hulyPersonUuid =>
          .ok ⟨workspaceUuid, hulyPersonUuid,
            .finite ((now + ttlOf body.ttlSeconds * 1000 : ℕ) : F)⟩

variable (platform : CookiePlatform F) (isHttps : Bool) (secrets : SecretConfig)

def cookieAttrs (ttl : ℕ) : String :=
  "Path=/user; HttpOnly; SameSite=Strict; " ++ (if isHttps then "Secure; " else "") ++
    "Max-Age=" ++ toString ttl

/-- `POST /user/session`. -/
def postSession (authorization : Option String) (body : SessionBody F) (now : ℕ) :
    SessionAnswer F :=
  if requireBearer secrets.primary authorization then
    match sessionIdentity body now with
    | .error message => .invalid message
    | .ok identity =>
        .minted identity (cookieName ++ "=" ++ platform.signCookie identity secrets ++ "; " ++
          cookieAttrs isHttps (ttlOf body.ttlSeconds))
  else .unauthorized

end Route

section Runs

variable {F : Type} [Semiring F] [LinearOrder F] [FloorSemiring F] (platform : CookiePlatform F)
  (isHttps : Bool)

/-- The secrets of the process, and what was signed under which primary one. -/
structure Sessions (F : Type) where
  secrets : SecretConfig
  signed : List (String × SigningQuery F)

inductive SessionAction (F : Type)
  | session (authorization : Option String) (body : SessionBody F) (now : ℕ)
  | adminStart (workspaceUuid hulyProjectRef nonce : String) (epoch : ℕ)
  | userStart (workspaceUuid hulyPersonUuid nonce : String) (epoch : ℕ)
  | redeploy (secrets : SecretConfig)

namespace Sessions

/-- The primary secret signs. -/
def sign (s : Sessions F) (query : SigningQuery F) : Sessions F :=
  { s with signed := s.signed ++ [(s.secrets.primary, query)] }

def step (s : Sessions F) : SessionAction F → Sessions F
  | .session authorization body now =>
      match postSession platform isHttps s.secrets authorization body now with
      | .minted identity _ => s.sign (.cookie identity)
      | _ => s
  | .adminStart workspaceUuid hulyProjectRef nonce epoch =>
      s.sign (.adminState workspaceUuid hulyProjectRef nonce epoch)
  | .userStart workspaceUuid hulyPersonUuid nonce epoch =>
      s.sign (.userState workspaceUuid hulyPersonUuid nonce epoch)
  | .redeploy secrets => { s with secrets }

/-- The process starts. -/
def start (secrets : SecretConfig) : Sessions F := ⟨secrets, []⟩

end Sessions

/-- The action signs the identity for a caller who knows the secret. -/
def Mints (secret : String) (identity : HulyUserIdentity F) : SessionAction F → Prop
  | .session authorization body now =>
      requireBearer secret authorization = true ∧ sessionIdentity body now = .ok identity
  | _ => False

namespace Sessions

open CookiePlatform

variable {s : Sessions F} {identity : HulyUserIdentity F} {secret : String}

omit [Semiring F] [LinearOrder F] [FloorSemiring F] in
theorem mem_sign_iff (query : SigningQuery F) :
    (secret, .cookie identity) ∈ (s.sign query).signed ↔
      (secret, .cookie identity) ∈ s.signed ∨
        secret = s.secrets.primary ∧ query = .cookie identity := by
  rw [sign, List.mem_append, List.mem_singleton, Prod.mk.injEq, eq_comm (a := query)]

/-- What an action adds to the identities that were signed. -/
theorem mem_signed_step (a : SessionAction F) :
    (secret, .cookie identity) ∈ (s.step platform isHttps a).signed ↔
      (secret, .cookie identity) ∈ s.signed ∨
        secret = s.secrets.primary ∧ Mints secret identity a := by
  cases a with
  | session authorization body now =>
    unfold step postSession Mints
    dsimp only
    cases hbearer : requireBearer s.secrets.primary authorization with
    | false =>
      rw [if_neg Bool.false_ne_true, or_iff_left]
      rintro ⟨rfl, htrue, -⟩
      rw [hbearer] at htrue
      cases htrue
    | true =>
      rw [if_pos rfl]
      cases hbody : sessionIdentity body now with
      | error message =>
        dsimp only
        rw [or_iff_left]
        rintro ⟨-, -, ⟨⟩⟩
      | ok minted =>
        dsimp only
        rw [mem_sign_iff]
        apply or_congr_right
        constructor
        · rintro ⟨rfl, ⟨⟩⟩
          exact ⟨rfl, hbearer, rfl⟩
        · rintro ⟨hsecret, -, ⟨⟩⟩
          exact ⟨hsecret, rfl⟩
  | adminStart workspaceUuid hulyProjectRef nonce epoch =>
    rw [step, mem_sign_iff]
    apply or_congr_right
    exact and_congr_right fun _ => iff_of_false (fun h => by cases h) id
  | userStart workspaceUuid hulyPersonUuid nonce epoch =>
    rw [step, mem_sign_iff]
    apply or_congr_right
    exact and_congr_right fun _ => iff_of_false (fun h => by cases h) id
  | redeploy secrets =>
    rw [or_iff_left]
    · rfl
    · exact fun h => h.2

/-- The identities that were signed in a run. -/
theorem mem_signed_exec (secrets : SecretConfig) (acts : List (SessionAction F)) :
    (secret, .cookie identity) ∈
        (Transition.exec (step platform isHttps) (start secrets) acts).signed ↔
      ∃ before a after, acts = before ++ a :: after ∧
        secret = (Transition.exec (step platform isHttps) (start secrets) before).secrets.primary ∧
          Mints secret identity a := by
  induction acts using List.reverseRecOn with
  | nil =>
    refine iff_of_false List.not_mem_nil ?_
    rintro ⟨before, a, after, hacts, -⟩
    exact List.append_ne_nil_of_right_ne_nil before (List.cons_ne_nil a after) hacts.symm
  | append_singleton acts a ih =>
    rw [Transition.exec_concat, mem_signed_step, ih]
    constructor
    · rintro (⟨before, b, after, rfl, hsecret, hmints⟩ | ⟨hsecret, hmints⟩)
      · refine ⟨before, b, after ++ [a], ?_, hsecret, hmints⟩
        rw [List.append_assoc, List.cons_append]
      · exact ⟨acts, a, [], rfl, hsecret, hmints⟩
    · rintro ⟨before, b, after, hacts, hsecret, hmints⟩
      cases after using List.reverseRecOn with
      | nil =>
        obtain ⟨rfl, hb⟩ := List.append_inj' hacts rfl
        obtain rfl := (List.cons.inj hb).1
        exact .inr ⟨hsecret, hmints⟩
      | append_singleton after c _ =>
        rw [← List.cons_append, ← List.append_assoc] at hacts
        obtain ⟨rfl, -⟩ := List.append_inj' hacts rfl
        exact .inl ⟨before, b, after, rfl, hsecret, hmints⟩

/-- A cookie that nobody forged is accepted, and this is its identity. -/
def Admits (s : Sessions F) (now : F) (identity : HulyUserIdentity F) : Prop :=
  ∃ cookie, platform.Unforged s.secrets s.signed cookie ∧
    platform.verifyCookie s.secrets now cookie = some identity

/-- When the identity expires. -/
theorem expiresAt_of_sessionIdentity {body : SessionBody F} {t : ℕ}
    (h : sessionIdentity body t = .ok identity) :
    identity.expiresAt = .finite ((t + ttlOf body.ttlSeconds * 1000 : ℕ) : F) := by
  unfold sessionIdentity at h
  split at h
  · cases h
  · split at h
    · cases h
    · cases h
      rfl

variable {platform}

omit [Semiring F] [FloorSemiring F] in
/-- In a state where every signed identity has a finite expiry, exactly the signed ones whose
secret is accepted are let in, until they expire. -/
theorem admits_iff_signed (laws : platform.Laws)
    (hfinite : ∀ secret identity, (secret, .cookie identity) ∈ s.signed →
      ∃ x, identity.expiresAt = .finite x) (now : F) :
    s.Admits platform now identity ↔
      PassedToSignCookie s.secrets s.signed identity ∧ identity.expiresAt.isBefore now = false := by
  constructor
  · rintro ⟨cookie, hunforged, hverify⟩
    refine laws.acceptsOnlySigned_iff.mpr ?_ cookie hunforged identity hverify
    rintro odd hodd ⟨secret, -, hsigned⟩
    obtain ⟨x, hx⟩ := hfinite secret odd hsigned
    rw [hx] at hodd
    obtain hodd | hodd := hodd <;> cases hodd
  · rintro ⟨⟨secret, hsecret, hsigned⟩, hlive⟩
    obtain ⟨x, hx⟩ := hfinite secret identity hsigned
    have hnow : ¬ x < now := by
      rw [hx] at hlive
      exact of_decide_eq_false hlive
    have hverify := laws.acceptsSigned identity x ⟨secret, none⟩ hx hnow hsecret
    refine ⟨_, ?_, hverify⟩
    obtain ⟨sig, hread, -, -⟩ := verifyCookie_eq_some_iff.mp hverify
    intro carried sig' hread' _
    obtain ⟨rfl, -⟩ := Prod.mk.inj (Option.some.inj (hread.symm.trans hread'))
    exact ⟨(secret, .cookie identity), hsigned, hsecret, rfl⟩

/-- After every run of sessions, OAuth starts and redeployments, an identity is let in exactly if
a caller with the server's secret had a session made for it, the secret of that time is still in
use, and the session, which lasts a day at most, has not ended. -/
theorem admits_iff_session (laws : platform.Laws) (secrets : SecretConfig)
    (acts : List (SessionAction F)) (identity : HulyUserIdentity F) (now : F) :
    let s := Transition.exec (step platform isHttps) (start secrets) acts
    s.Admits platform now identity ↔
      ∃ before authorization body t after, acts = before ++ .session authorization body t :: after ∧
        let signer :=
          (Transition.exec (step platform isHttps) (start secrets) before).secrets.primary
        requireBearer signer authorization = true ∧ signer ∈ s.secrets.accepted ∧
          sessionIdentity body t = .ok identity ∧
          now ≤ ((t + ttlOf body.ttlSeconds * 1000 : ℕ) : F) ∧
          ttlOf body.ttlSeconds ≤ MAX_TTL_SECONDS := by
  intro s
  have hfinite : ∀ secret identity, (secret, .cookie identity) ∈ s.signed →
      ∃ x, identity.expiresAt = .finite x := by
    intro secret identity hsigned
    obtain ⟨before, a, after, -, -, hmints⟩ :=
      (mem_signed_exec platform isHttps secrets acts).mp hsigned
    cases a with
    | session authorization body t => exact ⟨_, expiresAt_of_sessionIdentity hmints.2⟩
    | adminStart => exact absurd hmints id
    | userStart => exact absurd hmints id
    | redeploy => exact absurd hmints id
  rw [admits_iff_signed laws hfinite]
  constructor
  · rintro ⟨⟨secret, haccepted, hsigned⟩, hlive⟩
    obtain ⟨before, a, after, hacts, rfl, hmints⟩ :=
      (mem_signed_exec platform isHttps secrets acts).mp hsigned
    cases a with
    | session authorization body t =>
      refine ⟨before, authorization, body, t, after, hacts, hmints.1, haccepted, hmints.2, ?_,
        ttlOf_le _⟩
      rw [expiresAt_of_sessionIdentity hmints.2] at hlive
      exact not_lt.mp (of_decide_eq_false hlive)
    | adminStart => exact absurd hmints id
    | userStart => exact absurd hmints id
    | redeploy => exact absurd hmints id
  · rintro ⟨before, authorization, body, t, after, hacts, hbearer, haccepted, hbody, hlive, -⟩
    refine ⟨⟨_, haccepted, (mem_signed_exec platform isHttps secrets acts).mpr
      ⟨before, _, after, hacts, rfl, hbearer, hbody⟩⟩, ?_⟩
    rw [expiresAt_of_sessionIdentity hbody]
    exact decide_eq_false (not_lt.mpr hlive)

/-- A session, and a rotation of the secret. -/
def sampleActs : List (SessionAction ℕ) :=
  [.session (some "Bearer old") ⟨some "ws", some "person", none⟩ 1700000000000,
    .redeploy ⟨"new", some "old"⟩]

/-- The session outlives the rotation, but not the next one. -/
theorem admits_iff_session_rotated :
    let run := Transition.exec (step samplePlatform true) (start ⟨"old", none⟩)
    let identity : HulyUserIdentity ℕ := ⟨"ws", "person", .finite 1700003600000⟩
    (run sampleActs).Admits samplePlatform 1700000001000 identity ∧
      ¬ (run (sampleActs ++ [.redeploy ⟨"newest", some "new"⟩])).Admits samplePlatform
        1700000001000 identity := by
  intro run identity
  constructor
  · refine (admits_iff_session true samplePlatform_laws _ _ _ _).mpr ?_
    exact ⟨[], _, _, _, _, rfl, by decide +kernel, by decide +kernel, rfl, by decide, by decide⟩
  · intro h
    obtain ⟨before, authorization, body, t, after, hacts, -, haccepted, -⟩ :=
      (admits_iff_session true samplePlatform_laws _ _ _ _).mp h
    cases before with
    | nil => exact absurd haccepted (by decide +kernel)
    | cons a before =>
      have hrest : [.redeploy ⟨"new", some "old"⟩, .redeploy ⟨"newest", some "new"⟩] =
          before ++ .session authorization body t :: after := (List.cons.inj hacts).2
      have hsession : .session authorization body t ∈
          before ++ .session authorization body t :: after :=
        List.mem_append_right _ List.mem_cons_self
      rw [← hrest] at hsession
      simp at hsession

end Sessions

end Runs

end HulyGitlab.CookieAuth
