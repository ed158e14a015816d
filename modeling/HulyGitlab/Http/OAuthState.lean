import HulyGitlab.Util.SecretRotation
import HulyGitlab.Util.UrlValidation

/-!
# States of OAuth flows

The rows of the `oauth_state` collection, and the two routes that begin a flow.
Either route stores its row before it sends the browser to GitLab with the
state, which is the signature of the row's payload.
-/

namespace HulyGitlab.OAuth

/-- A row of either kind: those of users have the kind `user` and a person, the
others a project. -/
structure OAuthStateDoc where
  id : String
  kind : Option String
  state : String
  statePayload : String
  nonce : String
  codeVerifier : String
  workspaceUuid : String
  hulyProjectRef : Option String
  hulyPersonUuid : Option String
  gitlabBaseUrl : String
  returnTo : Option String
  expiresAt : Nat
  deriving DecidableEq

structure OAuthConfig where
  gitLabBaseUrl : String
  gitLabClientId : String
  gitLabClientSecret : String
  oAuthRedirectUri : String
  publicBaseUrl : String

/-- What a request draws: its random values, the id of its row, and the time. -/
structure Drawn where
  id : String
  nonce : String
  codeVerifier : String
  epoch : Nat

/-- The parameters of the URL the browser is sent to. -/
structure AuthorizeUrl where
  baseUrl : String
  clientId : String
  redirectUri : String
  responseType : String
  state : String
  scope : String
  codeChallenge : String
  codeChallengeMethod : String
  deriving DecidableEq

/-- The platform, and the base64url text of a SHA-256 digest. -/
structure OAuthPlatform where
  url : UrlPlatform
  hmacSha256 : String → String → List (Fin 256)
  sha256Base64url : String → String

inductive StartError
  | badRequest (error : String) (message : String)
  | invalidBaseUrl
  deriving DecidableEq

/-- The payload of a state of the admin route. -/
def adminStatePayload (workspaceUuid hulyProjectRef nonce : String) (epoch : Nat) : String :=
  workspaceUuid ++ "|" ++ hulyProjectRef ++ "|" ++ nonce ++ "|" ++ toString epoch

def buildStatePayload (workspaceUuid hulyPersonUuid nonce : String) (epoch : Nat) : String :=
  "user|" ++ workspaceUuid ++ "|" ++ hulyPersonUuid ++ "|" ++ nonce ++ "|" ++ toString epoch

/-- The ten minutes of a flow. -/
def stateLifetimeMs : Nat := 10 * 60 * 1000

section Start

variable (platform : OAuthPlatform) (config : OAuthConfig) (allowedHosts : Option String)
  (secrets : SecretConfig) (drawn : Drawn)

def authorizeUrl (baseUrl redirectUri state : String) : AuthorizeUrl :=
  { baseUrl
    clientId := config.gitLabClientId
    redirectUri
    responseType := "code"
    state
    scope := "api"
    codeChallenge := platform.sha256Base64url drawn.codeVerifier
    codeChallengeMethod := "S256" }

/-- A parameter of the query that is a string and not empty. -/
def nonEmpty (parameter : Option String) : Option String := parameter.filter (· ≠ "")

/-- `GET /oauth/start`, which anyone may request: the row, and where the browser
is sent once it is stored. -/
def adminStart (workspaceUuid hulyProjectRef gitlabBaseUrl : Option String) :
    Except StartError (OAuthStateDoc × AuthorizeUrl) :=
  match nonEmpty workspaceUuid with
  | none => .error (.badRequest "invalid_request" "Missing workspaceUuid")
  | some workspaceUuid =>
      match nonEmpty hulyProjectRef with
      | none => .error (.badRequest "invalid_request" "Missing hulyProjectRef")
      | some hulyProjectRef =>
          let rawBaseUrl := (nonEmpty gitlabBaseUrl).getD config.gitLabBaseUrl
          if validateGitLabBaseUrl platform.url allowedHosts rawBaseUrl then
            let statePayload :=
              adminStatePayload workspaceUuid hulyProjectRef drawn.nonce drawn.epoch
            let state := signHmac platform.hmacSha256 statePayload secrets
            .ok ({ id := drawn.id
                   kind := none
                   state
                   statePayload
                   nonce := drawn.nonce
                   codeVerifier := drawn.codeVerifier
                   workspaceUuid
                   hulyProjectRef := some hulyProjectRef
                   hulyPersonUuid := none
                   gitlabBaseUrl := rawBaseUrl
                   returnTo := none
                   expiresAt := drawn.epoch + stateLifetimeMs },
              authorizeUrl platform config drawn rawBaseUrl config.oAuthRedirectUri state)
          else .error .invalidBaseUrl

/-- `GET /user/oauth/start` after the cookie, with what `isSafeReturnTo` lets through. -/
def userStart (workspaceUuid hulyPersonUuid : String) (gitlabBaseUrl safeReturnTo : Option String) :
    Except StartError (OAuthStateDoc × AuthorizeUrl) :=
  match nonEmpty gitlabBaseUrl with
  | none => .error (.badRequest "invalid_request" "Missing gitlabBaseUrl")
  | some gitlabBaseUrl =>
      if validateGitLabBaseUrl platform.url allowedHosts gitlabBaseUrl then
        let statePayload := buildStatePayload workspaceUuid hulyPersonUuid drawn.nonce drawn.epoch
        let state := signHmac platform.hmacSha256 statePayload secrets
        .ok ({ id := drawn.id
               kind := some "user"
               state
               statePayload
               nonce := drawn.nonce
               codeVerifier := drawn.codeVerifier
               workspaceUuid
               hulyProjectRef := none
               hulyPersonUuid := some hulyPersonUuid
               gitlabBaseUrl
               returnTo := safeReturnTo
               expiresAt := drawn.epoch + stateLifetimeMs },
          authorizeUrl platform config drawn gitlabBaseUrl
            (config.publicBaseUrl ++ "/user/oauth/callback") state)
      else .error .invalidBaseUrl

end Start

/-- Either payload ends with the decimal time, whatever its other parts are. -/
def EndsWithTime (payload : String) : Prop :=
  ∃ text epoch, payload = text ++ toString (epoch : Nat)

theorem endsWithTime_adminStatePayload (workspaceUuid hulyProjectRef nonce : String) (epoch : Nat) :
    EndsWithTime (adminStatePayload workspaceUuid hulyProjectRef nonce epoch) := ⟨_, epoch, rfl⟩

theorem endsWithTime_buildStatePayload (workspaceUuid hulyPersonUuid nonce : String) (epoch : Nat) :
    EndsWithTime (buildStatePayload workspaceUuid hulyPersonUuid nonce epoch) := ⟨_, epoch, rfl⟩

/-- The browser carries the state of the row that was stored, the signature of a payload. -/
structure Begins (platform : OAuthPlatform) (secrets : SecretConfig) (kind : Option String)
    (doc : OAuthStateDoc) (url : AuthorizeUrl) : Prop where
  kind : doc.kind = kind
  state : url.state = doc.state
  signed : doc.state = signHmac platform.hmacSha256 doc.statePayload secrets
  payload : EndsWithTime doc.statePayload

variable {platform : OAuthPlatform} {config : OAuthConfig} {allowedHosts : Option String}
  {secrets : SecretConfig} {drawn : Drawn}

theorem begins_of_adminStart {workspaceUuid hulyProjectRef gitlabBaseUrl : Option String}
    {doc : OAuthStateDoc} {url : AuthorizeUrl}
    (h : adminStart platform config allowedHosts secrets drawn workspaceUuid hulyProjectRef
      gitlabBaseUrl = .ok (doc, url)) : Begins platform secrets none doc url := by
  unfold adminStart at h
  split at h
  · cases h
  · split at h
    · cases h
    · dsimp only at h
      split at h
      · cases h
        exact ⟨rfl, rfl, rfl, endsWithTime_adminStatePayload _ _ _ _⟩
      · cases h

theorem begins_of_userStart {workspaceUuid hulyPersonUuid : String}
    {gitlabBaseUrl safeReturnTo : Option String} {doc : OAuthStateDoc} {url : AuthorizeUrl}
    (h : userStart platform config allowedHosts secrets drawn workspaceUuid hulyPersonUuid
      gitlabBaseUrl safeReturnTo = .ok (doc, url)) : Begins platform secrets (some "user") doc url := by
  unfold userStart at h
  split at h
  · cases h
  · split at h
    · cases h
      exact ⟨rfl, rfl, rfl, endsWithTime_buildStatePayload _ _ _ _⟩
    · cases h

theorem EndsWithTime.getLast?_isDigit {payload : String} (h : EndsWithTime payload) :
    ∃ c ∈ payload.toList.getLast?, c.isDigit = true := by
  obtain ⟨text, epoch, rfl⟩ := h
  have hne : (toString epoch).toList ≠ [] := by
    rw [Nat.toString_eq_repr, Nat.toList_repr]
    exact Nat.toDigits_ne_nil
  refine ⟨(toString epoch).toList.getLast hne, ?_, ?_⟩
  · rw [String.toList_append, List.getLast?_append_of_ne_nil _ hne, List.getLast?_eq_some_getLast hne]
    exact rfl
  · refine Nat.isDigit_of_mem_toDigits (b := 10) (by decide) (by decide) (n := epoch) ?_
    rw [← Nat.toList_repr]
    exact List.getLast_mem hne

end HulyGitlab.OAuth
