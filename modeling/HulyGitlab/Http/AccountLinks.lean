import HulyGitlab.Auth.RefreshRaces
import HulyGitlab.Http.CookieAuth
import HulyGitlab.Http.OAuthCallback
import HulyGitlab.Sync.MergeRequests

/-!
# Linked accounts

The routes of a person from `/user/oauth/start` to the suggestions that are
applied with the person's token, and the refresher beside them. Every request
goes on at its own awaits. The tokens that GitLab has given and the requests
that carry one are recorded.
-/

namespace HulyGitlab.AccountLinks

open OAuth CookieAuth

structure LinkDeps (F : Type) where
  oauth : OAuthPlatform
  cookie : CookiePlatform F
  config : OAuthConfig
  secrets : SecretConfig
  refresher : OAuthRefresherDeps

/-- What the answer of `/api/v4/user` is read for. -/
inductive UserReply
  | networkError
  | response (status : Nat) (username : Option String)
  deriving DecidableEq

/-- Where a callback is after its exchange was sent. -/
inductive Flow
  | exchanging
  | lookingUp (accessToken : String) (refreshToken : Option String) (expiresIn : Nat)
  | storing (input : PutUserCredentialInput)
  | answered (answer : Answer)
  | linked
  deriving DecidableEq

/-- What a token is sent for. -/
inductive TokenUse
  | userLookup
  | applySuggestion (suggestionId : Nat)
  | approval (kind : MRApprovals.ApprovalAction) (projectId mrIid : Int)
  | refresh
  deriving DecidableEq

/-- A request with a token, and the account it is made for. -/
structure TokenRequestSent where
  use : TokenUse
  key : UserCredentialKey
  token : String
  deriving DecidableEq

/-- `baseUrl.replace(/\/$/, '')`. -/
def withoutSlash (baseUrl : String) : String :=
  if baseUrl.toList.getLast? = some '/' then String.ofList baseUrl.toList.dropLast else baseUrl

def TokenRequestSent.url (x : TokenRequestSent) : String :=
  match x.use with
  | .userLookup => x.key.gitlabBaseUrl ++ "/api/v4/user"
  | .applySuggestion suggestionId =>
      withoutSlash x.key.gitlabBaseUrl ++ "/api/v4/suggestions/" ++ toString suggestionId ++
        "/apply"
  | .approval kind projectId mrIid =>
      withoutSlash x.key.gitlabBaseUrl ++ "/api/v4/projects/" ++ toString projectId ++
        "/merge_requests/" ++ toString mrIid ++
        match kind with
        | .approve => "/approve"
        | .unapprove => "/unapprove"
  | .refresh => x.key.gitlabBaseUrl ++ "/oauth/token"

/-- A refresh of a row it has read. -/
structure RefreshOf where
  key : UserCredentialKey
  flight : RefreshInFlight
  deriving DecidableEq

/-- The collections and the requests in flight; `issued` are the tokens that the instance of a key
has given for it, `sent` the requests that carried a token. -/
structure Accounts where
  callbacks : CallbackSystem
  flows : Nat → Flow
  credentials : OrderedMap UserCredentialKey CredentialRow
  nextId : Nat
  refreshes : Registry RefreshOf
  issued : List (UserCredentialKey × String)
  sent : List TokenRequestSent

inductive AccountAction (F : Type)
  | start (cookie : Option String) (now : F) (drawn : Drawn)
      (gitlabBaseUrl safeReturnTo : Option String)
  | adminStart (drawn : Drawn) (workspaceUuid hulyProjectRef gitlabBaseUrl : Option String)
  | callback (a : CallbackAction)
  | tokenReply (redemption : Nat) (reply : TokenReply)
  | userReply (redemption now : Nat) (reply : UserReply)
  | store (redemption now : Nat) (iv refreshIv : String)
  | storeFails (redemption : Nat)
  | disconnect (cookie : Option String) (now : F) (gitlabBaseUrl : Option String)
  | applySuggestion (cookie : Option String) (now : F) (gitlabBaseUrl : String) (suggestionId : Nat)
  | approval (key : UserCredentialKey) (now : Nat) (kind : MRApprovals.ApprovalAction)
      (projectId mrIid : Int)
  | readForRefresh (key : UserCredentialKey) (now : Nat)
  | refreshReply (refresh now : Nat) (reply : TokenReply)
  | writeBack (refresh : Nat) (iv refreshIv : String)

/-- `insertOne`, which the unique indexes may turn down. -/
def insertOne (rows : StateRows) (doc : OAuthStateDoc) : Option StateRows :=
  if h : doc.id ∉ rows.docs.map OAuthStateDoc.id ∧
      doc.state ∉ rows.docs.map OAuthStateDoc.state then
    some ⟨rows.docs ++ [doc], by simpa using List.nodup_concat _ _ |>.mpr ⟨h.1, rows.ids⟩,
      by simpa using List.nodup_concat _ _ |>.mpr ⟨h.2, rows.states⟩⟩
  else none

/-- The account that a row of a user is for. -/
def keyOf (doc : OAuthStateDoc) : UserCredentialKey :=
  ⟨doc.workspaceUuid, doc.hulyPersonUuid.getD "", doc.gitlabBaseUrl⟩

def setRow (credentials : OrderedMap UserCredentialKey CredentialRow) (key : UserCredentialKey) :
    Option CredentialRow → OrderedMap UserCredentialKey CredentialRow
  | none => credentials.delete key
  | some row => credentials.set key row

/-- The answer of the token endpoint to a callback. -/
def exchanged : TokenReply → Flow
  | .networkError => .answered ⟨400, "token_exchange_failed", "Failed to contact GitLab"⟩
  | .response status data =>
      if 200 ≤ status ∧ status < 300 then
        match nonEmpty data.accessToken with
        | none => .answered ⟨400, "token_exchange_failed", "No access token in response"⟩
        | some accessToken => .lookingUp accessToken data.refreshToken (data.expiresIn.getD 7200)
      else .answered ⟨400, "token_exchange_failed", "GitLab rejected the authorization code"⟩

/-- The answer of the user endpoint. -/
def lookedUp (accessToken : String) (refreshToken : Option String) (expiresIn now : Nat) :
    UserReply → Flow
  | .networkError => .answered ⟨400, "user_lookup_failed", "Failed to contact GitLab"⟩
  | .response status username =>
      if 200 ≤ status ∧ status < 300 then
        match nonEmpty username with
        | none =>
            .answered ⟨400, "user_lookup_failed", "GitLab user response missing username"⟩
        | some username =>
            .storing ⟨username, accessToken, refreshToken, some (now + expiresIn * 1000)⟩
      else .answered ⟨400, "user_lookup_failed", "Failed to look up GitLab user"⟩

/-- The guard on the token header, which `applySuggestion` and the client have alike. -/
def isSendable (token : String) : Bool :=
  (MRApprovals.validateActorTokenHeader (some token)).isOk

namespace Accounts

section Step

variable {F : Type} [LT F] [DecidableLT F] (deps : LinkDeps F)

/-- The account of a person who presents the cookie. -/
def account (cookie : Option String) (now : F) (gitlabBaseUrl : String) :
    Option UserCredentialKey :=
  match requireHulyCookie deps.cookie deps.secrets now cookie with
  | .next identity => some ⟨identity.workspaceUuid, identity.hulyPersonUuid, gitlabBaseUrl⟩
  | _ => none

def insertState (s : Accounts) (doc : OAuthStateDoc) : Accounts :=
  match insertOne s.callbacks.rows doc with
  | some rows => { s with callbacks := { s.callbacks with rows } }
  | none => s

/-- The redemption of a user's flow. -/
def userRedemption (s : Accounts) (n : Nat) : Option Redemption :=
  s.callbacks.redemptions[n]?.filter fun x => x.request.router = .user

def setFlow (s : Accounts) (n : Nat) (flow : Flow) : Accounts :=
  { s with flows := Function.update s.flows n flow }

/-- A token request was answered for the account. -/
def issue (s : Accounts) (key : UserCredentialKey) (accessToken : String)
    (refreshToken : Option String) : Accounts :=
  { s with issued := s.issued ++ (accessToken :: refreshToken.toList).map fun t => (key, t) }

def send (s : Accounts) (use : TokenUse) (key : UserCredentialKey) (token : String) : Accounts :=
  { s with sent := s.sent ++ [⟨use, key, token⟩] }

/-- A stored token is sent, if it can be read and may stand in a header. -/
def sendStored (s : Accounts) (use : TokenUse) (key : UserCredentialKey)
    (row : CredentialRow) : Accounts :=
  match RefreshRace.textOf deps.refresher row.doc.value with
  | none => s
  | some token => if isSendable token then s.send use key token else s

def readTokens (s : Accounts) (n : Nat) (key : UserCredentialKey) (reply : TokenReply) : Accounts :=
  match exchanged reply with
  | .lookingUp accessToken refreshToken expiresIn =>
      ((s.setFlow n (.lookingUp accessToken refreshToken expiresIn)).issue key accessToken
        refreshToken).send .userLookup key accessToken
  | flow => s.setFlow n flow

/-- `putUserCredential`. -/
def putRow (s : Accounts) (n now : Nat) (key : UserCredentialKey) (iv refreshIv : String)
    (input : PutUserCredentialInput) : Accounts :=
  let old := s.credentials.get? key
  let row := (rowAfter deps.refresher.cipher deps.refresher.encryptionKey (old.map (·.doc))
    (.put iv refreshIv now input)).map fun doc => ⟨(old.map (·.id)).getD s.nextId, doc⟩
  { s.setFlow n .linked with
    credentials := setRow s.credentials key row
    nextId := s.nextId + 1 }

/-- The request of a refresh, if it gets that far. -/
def sendRefresh (s : Accounts) (x : RefreshOf) : Accounts :=
  match RefreshRace.sentToken deps.refresher x.key.gitlabBaseUrl x.flight.snapshot.doc with
  | none => s
  | some token => s.send .refresh x.key token

/-- The tokens that a refresh has got. -/
def issueOutcome (s : Accounts) (key : UserCredentialKey) : RefreshOutcome → Accounts
  | .rotate accessToken refreshToken _ => s.issue key accessToken refreshToken
  | _ => s

/-- What comes of the answer to a refresh. -/
def requestRefresh (s : Accounts) (i now : Nat) (x : RefreshOf) (reply : TokenReply) : Accounts :=
  let outcome := refreshOutcome deps.refresher now (some x.key.gitlabBaseUrl)
    x.flight.snapshot.doc.refreshToken fun _ => reply
  { (s.sendRefresh deps x).issueOutcome x.key outcome with
    refreshes := s.refreshes.update i { x with flight := ⟨x.flight.snapshot, outcome⟩ } }

def step (s : Accounts) : AccountAction F → Accounts
  | .start cookie now drawn gitlabBaseUrl safeReturnTo =>
      match requireHulyCookie deps.cookie deps.secrets now cookie with
      | .next identity =>
          match userStart deps.oauth deps.config deps.refresher.allowedHosts deps.secrets drawn
            identity.workspaceUuid identity.hulyPersonUuid gitlabBaseUrl safeReturnTo with
          | .ok (doc, _) => s.insertState doc
          | .error _ => s
      | _ => s
  | .adminStart drawn workspaceUuid hulyProjectRef gitlabBaseUrl =>
      match adminStart deps.oauth deps.config deps.refresher.allowedHosts deps.secrets drawn
        workspaceUuid hulyProjectRef gitlabBaseUrl with
      | .ok (doc, _) => s.insertState doc
      | .error _ => s
  | .callback a =>
      { s with
        callbacks := s.callbacks.step deps.oauth deps.config deps.refresher.allowedHosts
          deps.secrets a }
  | .tokenReply n reply =>
      match s.userRedemption n, s.flows n with
      | some x, .exchanging => s.readTokens n (keyOf x.doc) reply
      | _, _ => s
  | .userReply n now reply =>
      match s.userRedemption n, s.flows n with
      | some _, .lookingUp accessToken refreshToken expiresIn =>
          s.setFlow n (lookedUp accessToken refreshToken expiresIn now reply)
      | _, _ => s
  | .store n now iv refreshIv =>
      match s.userRedemption n, s.flows n with
      | some x, .storing input => s.putRow deps n now (keyOf x.doc) iv refreshIv input
      | _, _ => s
  | .storeFails n =>
      match s.userRedemption n, s.flows n with
      | some _, .storing _ =>
          s.setFlow n (.answered ⟨500, "server_error", "Failed to persist credential"⟩)
      | _, _ => s
  | .disconnect cookie now gitlabBaseUrl =>
      match nonEmpty gitlabBaseUrl with
      | none => s
      | some baseUrl =>
          match account deps cookie now baseUrl with
          | none => s
          | some key =>
              if validateGitLabBaseUrl deps.oauth.url deps.refresher.allowedHosts baseUrl then
                { s with credentials := s.credentials.delete key }
              else s
  | .applySuggestion cookie now gitlabBaseUrl suggestionId =>
      match account deps cookie now gitlabBaseUrl with
      | none => s
      | some key =>
          match s.credentials.get? key with
          | none => s
          | some row => s.sendStored deps (.applySuggestion suggestionId) key row
  | .approval key now kind projectId mrIid =>
      match s.credentials.get? key with
      | none => s
      | some row =>
          if row.doc.expiresAt.any fun e => e < now then s
          else s.sendStored deps (.approval kind projectId mrIid) key row
  | .readForRefresh key now =>
      match s.credentials.get? key with
      | none => s
      | some row =>
          if RefreshRace.selects now row.doc then
            { s with refreshes := s.refreshes.add ⟨key, row, none⟩ }
          else s
  | .refreshReply i now reply =>
      match s.refreshes.get? i with
      | some ⟨key, snapshot, none⟩ => s.requestRefresh deps i now ⟨key, snapshot, none⟩ reply
      | _ => s
  | .writeBack i iv refreshIv =>
      match s.refreshes.get? i with
      | some ⟨key, snapshot, some outcome⟩ =>
          { s with
            credentials := setRow s.credentials key (RefreshRace.written deps.refresher
              (s.credentials.get? key) snapshot iv refreshIv outcome)
            refreshes := s.refreshes.remove i }
      | _ => s

end Step

/-- No row, no request, no token. -/
def init : Accounts where
  callbacks := .init ⟨[], List.nodup_nil, List.nodup_nil⟩
  flows _ := .exchanging
  credentials := .empty
  nextId := 0
  refreshes := .empty
  issued := []
  sent := []

end Accounts

end HulyGitlab.AccountLinks
