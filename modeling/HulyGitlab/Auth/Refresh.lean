import HulyGitlab.Auth.UserCredentials
import HulyGitlab.Lib.Transition
import HulyGitlab.Sync.StatusMap
import HulyGitlab.Util.UrlValidation

/-!
# Refreshing OAuth tokens

`OAuthRefresher` with the two collections it renews. A sweep selects the
credentials that expire within five minutes and is followed by the next after
the interval of the timer. Its requests take no time here.
-/

namespace HulyGitlab

open Transition

/-- What the answer of the token endpoint is read for; `text` is its body as a text. -/
structure TokenData where
  accessToken : Option String
  refreshToken : Option String
  expiresIn : Option Nat
  text : String
  deriving DecidableEq

inductive TokenReply
  | networkError
  | response (status : Nat) (data : TokenData)
  deriving DecidableEq

structure TokenRequest where
  tokenUrl : String
  refreshToken : String
  clientId : String
  clientSecret : String
  redirectUri : String
  deriving DecidableEq

structure OAuthRefresherDeps where
  cipher : Cipher
  platform : UrlPlatform
  allowedHosts : Option String
  encryptionKey : String
  gitLabClientId : String
  gitLabClientSecret : String
  oauthRedirectUri : String

def fiveMinutesMs : Nat := 5 * 60 * 1000

/-- The default of `start`, which the service uses. -/
def refreshIntervalMs : Nat := 30 * 60 * 1000

def isPermanentRefreshError (status : Nat) (bodyStr : String) : Bool :=
  status = 401 || (status = 400 &&
    (includes bodyStr "\"error\":\"invalid_grant\"" ||
      includes bodyStr "'error':'invalid_grant'"))

/-- What becomes of a selected credential. -/
inductive RefreshOutcome
  | skip
  | markExpired
  | rotate (accessToken : String) (refreshToken : Option String) (expiresAt : Nat)
  deriving DecidableEq

section Outcome

variable (deps : OAuthRefresherDeps) (now : Nat)

/-- The part after the request. -/
def replyOutcome : TokenReply → RefreshOutcome
  | .networkError => .skip
  | .response status data =>
      if 200 ≤ status ∧ status < 300 then
        match data.accessToken with
        | none => .markExpired
        | some newAccessToken =>
            .rotate newAccessToken data.refreshToken (now + data.expiresIn.getD 7200 * 1000)
      else if isPermanentRefreshError status data.text then .markExpired
      else .skip

/-- The body of either loop. -/
def refreshOutcome (gitlabBaseUrl : Option String) (refreshToken : Option Encrypted)
    (reply : TokenRequest → TokenReply) : RefreshOutcome :=
  match gitlabBaseUrl with
  | none | some "" => .skip
  | some baseUrl =>
      if validateGitLabBaseUrl deps.platform deps.allowedHosts baseUrl then
        match refreshToken with
        | none => .skip
        | some enc =>
            match deps.cipher.decryptValue enc deps.encryptionKey with
            | .error _ => .markExpired
            | .ok token =>
                replyOutcome now (reply ⟨baseUrl ++ "/oauth/token", token, deps.gitLabClientId,
                  deps.gitLabClientSecret, deps.oauthRedirectUri⟩)
      else .markExpired

end Outcome

/-- The two collections, the clock and the timer. -/
structure TokenStore where
  now : Nat
  intervalMs : Nat
  nextSweep : Nat
  credentials : Credentials
  /-- The ids of the credentials with `expired: true`. -/
  expired : List String
  userCredentials : UserCredentials

/-- What the outside gives to one sweep: the answers, and the vectors that are drawn. -/
structure SweepReplies where
  reply : String → TokenRequest → TokenReply
  iv : String → String
  refreshIv : String → String
  userReply : UserCredentialKey → TokenRequest → TokenReply
  userIv : UserCredentialKey → String
  userRefreshIv : UserCredentialKey → String

namespace TokenStore

variable (deps : OAuthRefresherDeps)

/-- `expiresAt: { $lt: threshold }`, which no missing and no null date meets. -/
def dueBefore (threshold : Nat) (expiresAt : Option Nat) : Bool :=
  expiresAt.any fun e => e < threshold

/-- The query of `refreshAdminCredentials`. -/
def selects (s : TokenStore) (id : String) (doc : CredentialDoc) : Bool :=
  doc.kind = .oauth && dueBefore (s.now + fiveMinutesMs) doc.expiresAt && id ∉ s.expired

/-- The query of `refreshUserCredentials`. -/
def selectsUser (s : TokenStore) (doc : UserCredentialDoc) : Bool :=
  dueBefore (s.now + fiveMinutesMs) doc.expiresAt && !doc.expired

def refreshCredential (now : Nat) (r : SweepReplies) (s : TokenStore) :
    String × CredentialDoc → TokenStore
  | (id, doc) =>
      match refreshOutcome deps now doc.gitlabBaseUrl doc.refreshToken (r.reply id) with
      | .skip => s
      | .markExpired => { s with expired := id :: s.expired }
      | .rotate accessToken refreshToken expiresAt =>
          { s with
            credentials := rotateCredential deps.cipher deps.encryptionKey s.credentials id (r.iv id)
              (r.refreshIv id) ⟨accessToken, refreshToken, some expiresAt⟩ }

def refreshUserCredential (now : Nat) (r : SweepReplies) (s : TokenStore) :
    UserCredentialKey × UserCredentialDoc → TokenStore
  | (key, doc) =>
      match refreshOutcome deps now (some key.gitlabBaseUrl) doc.refreshToken (r.userReply key) with
      | .skip => s
      | .markExpired =>
          { s with userCredentials := s.userCredentials.set key { doc with expired := true } }
      | .rotate accessToken refreshToken expiresAt =>
          { s with
            userCredentials := rotateUserCredential deps.cipher deps.encryptionKey s.userCredentials
              key (r.userIv key) (r.userRefreshIv key)
              ⟨accessToken, refreshToken, some (some expiresAt)⟩ }

def refreshAdminCredentials (r : SweepReplies) (s : TokenStore) : TokenStore :=
  (s.credentials.entries.filter fun p => s.selects p.1 p.2).foldl
    (refreshCredential deps s.now r) s

def refreshUserCredentials (r : SweepReplies) (s : TokenStore) : TokenStore :=
  (s.userCredentials.entries.filter fun p => s.selectsUser p.2).foldl
    (refreshUserCredential deps s.now r) s

def refresh (r : SweepReplies) (s : TokenStore) : TokenStore :=
  refreshUserCredentials deps r (refreshAdminCredentials deps r s)

/-- The credentials are stored and removed by the routes; no time passes over a sweep that is due. -/
inductive Action
  | wait (ms : Nat)
  | sweep (r : SweepReplies)
  | putCredential (id iv refreshIv : String) (input : PutCredentialInput)
  | putUserCredential (key : UserCredentialKey) (iv refreshIv : String)
      (input : PutUserCredentialInput)
  | deleteCredential (id : String)
  | deleteUserCredential (key : UserCredentialKey)

def step (s : TokenStore) : Action → TokenStore
  | .wait ms => if s.now + ms ≤ s.nextSweep then { s with now := s.now + ms } else s
  | .sweep r =>
      if s.now = s.nextSweep then
        { refresh deps r s with nextSweep := s.nextSweep + s.intervalMs }
      else s
  | .putCredential id iv refreshIv input =>
      match HulyGitlab.putCredential deps.cipher deps.encryptionKey s.credentials id iv refreshIv
        s.now input with
      | .ok credentials => { s with credentials := credentials }
      | .error _ => s
  | .putUserCredential key iv refreshIv input =>
      { s with
        userCredentials := HulyGitlab.putUserCredential deps.cipher deps.encryptionKey
          s.userCredentials key iv refreshIv s.now input }
  | .deleteCredential id =>
      { s with
        credentials := HulyGitlab.deleteCredential s.credentials id
        expired := s.expired.filter (· ≠ id) }
  | .deleteUserCredential key =>
      { s with userCredentials := HulyGitlab.deleteUserCredential s.userCredentials key }

/-- A date that a credential with a refresh token has is not over at a time. -/
def LastsUntil (t : Nat) (refreshToken : Option Encrypted) (expiresAt : Option Nat) : Prop :=
  refreshToken.isSome → ∀ e ∈ expiresAt, t ≤ e

instance (t : Nat) (refreshToken : Option Encrypted) (expiresAt : Option Nat) :
    Decidable (LastsUntil t refreshToken expiresAt) := inferInstanceAs (Decidable (_ → _))

/-- No credential with a refresh token has expired at a time. -/
def ValidAt (s : TokenStore) (t : Nat) : Prop :=
  (∀ doc ∈ s.credentials.values, LastsUntil t doc.refreshToken doc.expiresAt) ∧
    ∀ doc ∈ s.userCredentials.values, LastsUntil t doc.refreshToken doc.expiresAt

instance (s : TokenStore) (t : Nat) : Decidable (s.ValidAt t) :=
  inferInstanceAs (Decidable (_ ∧ _))

/-- No credential with a refresh token lapses from now until the next sweep. -/
def Lasting (s : TokenStore) : Prop := ∀ t, s.now ≤ t → t ≤ s.nextSweep → s.ValidAt t

section Sweeps

variable (r : SweepReplies) (s : TokenStore)

/-- The new values of the fields that a rotation sets, and the old ones without it. -/
def RefreshOutcome.value (encrypt : String → Encrypted) (old : Encrypted) :
    RefreshOutcome → Encrypted
  | .rotate accessToken _ _ => encrypt accessToken
  | _ => old

def RefreshOutcome.expiresAt (old : Option Nat) : RefreshOutcome → Option Nat
  | .rotate _ _ expiresAt => some expiresAt
  | _ => old

def RefreshOutcome.refreshToken (encrypt : String → Encrypted) (old : Option Encrypted) :
    RefreshOutcome → Option Encrypted
  | .rotate _ refreshToken _ => (refreshToken.map encrypt).orElse fun _ => old
  | _ => old

/-- What a sweep leaves of a credential it selects. -/
def renewed (now : Nat) (id : String) (doc : CredentialDoc) : CredentialDoc :=
  let outcome := refreshOutcome deps now doc.gitlabBaseUrl doc.refreshToken (r.reply id)
  { doc with
    value := RefreshOutcome.value
      (fun text => deps.cipher.encryptValue text (r.iv id) deps.encryptionKey) doc.value outcome
    expiresAt := RefreshOutcome.expiresAt doc.expiresAt outcome
    refreshToken := RefreshOutcome.refreshToken
      (fun text => deps.cipher.encryptValue text (r.refreshIv id) deps.encryptionKey)
      doc.refreshToken outcome }

def renewedUser (now : Nat) (key : UserCredentialKey) (doc : UserCredentialDoc) :
    UserCredentialDoc :=
  let outcome := refreshOutcome deps now (some key.gitlabBaseUrl) doc.refreshToken (r.userReply key)
  { doc with
    value := RefreshOutcome.value
      (fun text => deps.cipher.encryptValue text (r.userIv key) deps.encryptionKey) doc.value outcome
    expiresAt := RefreshOutcome.expiresAt doc.expiresAt outcome
    refreshToken := RefreshOutcome.refreshToken
      (fun text => deps.cipher.encryptValue text (r.userRefreshIv key) deps.encryptionKey)
      doc.refreshToken outcome
    expired := if outcome = .markExpired then true else doc.expired }

theorem credentials_refreshCredential (now : Nat) {id : String} {doc : CredentialDoc}
    (h : s.credentials.get? id = some doc) :
    (refreshCredential deps now r s (id, doc)).credentials =
      s.credentials.set id (renewed deps r now id doc) := by
  unfold refreshCredential renewed
  dsimp only
  cases refreshOutcome deps now doc.gitlabBaseUrl doc.refreshToken (r.reply id) with
  | skip => exact (OrderedMap.set_of_get? h).symm
  | markExpired => exact (OrderedMap.set_of_get? h).symm
  | rotate accessToken refreshToken expiresAt =>
    dsimp only [rotateCredential]
    rw [h]
    rfl

theorem userCredentials_refreshUserCredential (now : Nat) {key : UserCredentialKey}
    {doc : UserCredentialDoc} (h : s.userCredentials.get? key = some doc) :
    (refreshUserCredential deps now r s (key, doc)).userCredentials =
      s.userCredentials.set key (renewedUser deps r now key doc) := by
  unfold refreshUserCredential renewedUser
  dsimp only
  cases refreshOutcome deps now (some key.gitlabBaseUrl) doc.refreshToken (r.userReply key) with
  | skip => exact (OrderedMap.set_of_get? h).symm
  | markExpired => rfl
  | rotate accessToken refreshToken expiresAt =>
    dsimp only [rotateUserCredential]
    rw [h]
    rfl

/-- The loop over the admin credentials leaves the others, the clock and the timer alone. -/
theorem refreshAdminCredentials_same :
    let s' := refreshAdminCredentials deps r s
    s'.userCredentials = s.userCredentials ∧ s'.now = s.now ∧ s'.nextSweep = s.nextSweep ∧
      s'.intervalMs = s.intervalMs := by
  refine exec_invariant' (I := fun s' : TokenStore => s'.userCredentials = s.userCredentials ∧
    s'.now = s.now ∧ s'.nextSweep = s.nextSweep ∧ s'.intervalMs = s.intervalMs) ?_ ⟨rfl, rfl, rfl, rfl⟩ _
  rintro s' ⟨id, doc⟩ hsame
  dsimp only [refreshCredential]
  cases refreshOutcome deps s.now doc.gitlabBaseUrl doc.refreshToken (r.reply id) with
  | skip => exact hsame
  | markExpired => exact hsame
  | rotate accessToken refreshToken expiresAt => exact hsame

theorem refreshUserCredentials_same :
    let s' := refreshUserCredentials deps r s
    s'.credentials = s.credentials ∧ s'.now = s.now ∧ s'.nextSweep = s.nextSweep ∧
      s'.intervalMs = s.intervalMs := by
  refine exec_invariant' (I := fun s' : TokenStore => s'.credentials = s.credentials ∧
    s'.now = s.now ∧ s'.nextSweep = s.nextSweep ∧ s'.intervalMs = s.intervalMs) ?_ ⟨rfl, rfl, rfl, rfl⟩ _
  rintro s' ⟨key, doc⟩ hsame
  dsimp only [refreshUserCredential]
  cases refreshOutcome deps s.now (some key.gitlabBaseUrl) doc.refreshToken (r.userReply key) with
  | skip => exact hsame
  | markExpired => exact hsame
  | rotate accessToken refreshToken expiresAt => exact hsame

/-- A loop over the entries of a collection that a query selects. -/
theorem get?_foldl_selected {K V : Type*} [DecidableEq K] (table : TokenStore → OrderedMap K V)
    {f : TokenStore → K × V → TokenStore} {g : K → V → V} {selected : K × V → Bool}
    (hf : ∀ s k v, (table s).get? k = some v → table (f s (k, v)) = (table s).set k (g k v))
    (k : K) :
    (table (((table s).entries.filter selected).foldl f s)).get? k =
      ((table s).get? k).map fun v => if selected (k, v) then g k v else v := by
  have hnodup : (((table s).entries.filter selected).map Prod.fst).Nodup :=
    (table s).nodup.sublist (List.filter_sublist.map Prod.fst)
  rw [OrderedMap.get?_foldl_set hf hnodup
    (fun p hp => OrderedMap.get?_of_mem_entries (List.mem_of_mem_filter hp))]
  cases hk : (table s).get? k with
  | none => rfl
  | some v =>
    have hiff : k ∈ ((table s).entries.filter selected).map Prod.fst ↔ selected (k, v) = true := by
      constructor
      · intro hmem
        obtain ⟨⟨k', v'⟩, hp, rfl⟩ := List.mem_map.mp hmem
        obtain ⟨hentry, hselected⟩ := List.mem_filter.mp hp
        have hsame : v' = v :=
          Option.some.inj ((OrderedMap.get?_of_mem_entries hentry).symm.trans hk)
        exact hsame ▸ hselected
      · intro hselected
        exact List.mem_map_of_mem
          (List.mem_filter.mpr ⟨OrderedMap.mem_entries_of_get? hk, hselected⟩)
    simp only [Option.map_some, hiff]

/-- A sweep replaces each admin credential that its query selects, and no other. -/
theorem get?_credentials_refresh (id : String) :
    (refresh deps r s).credentials.get? id = (s.credentials.get? id).map fun doc =>
      if s.selects id doc then renewed deps r s.now id doc else doc := by
  unfold refresh
  rw [(refreshUserCredentials_same deps r _).1]
  exact get?_foldl_selected s credentials
    (fun s id doc h => credentials_refreshCredential deps r s _ h) id

theorem get?_userCredentials_refresh (key : UserCredentialKey) :
    (refresh deps r s).userCredentials.get? key = (s.userCredentials.get? key).map fun doc =>
      if s.selectsUser doc then renewedUser deps r s.now key doc else doc := by
  obtain ⟨husers, hnow, -, -⟩ := refreshAdminCredentials_same deps r s
  unfold refresh refreshUserCredentials
  refine (get?_foldl_selected _ userCredentials
    (fun s key doc h => userCredentials_refreshUserCredential deps r s _ h) key).trans ?_
  rw [husers, hnow]
  unfold selectsUser
  rw [hnow]

end Sweeps

section Runs

/-- The outcome stores a token that outlives the interval. -/
def Renews (intervalMs now : Nat) : RefreshOutcome → Prop
  | .rotate _ _ expiresAt => now + intervalMs < expiresAt
  | _ => False

instance (intervalMs now : Nat) (o : RefreshOutcome) : Decidable (Renews intervalMs now o) := by
  cases o <;> unfold Renews <;> infer_instance

/-- Each selected credential with a refresh token is renewed by the sweep. -/
def Works (s : TokenStore) : Action → Prop
  | .sweep r =>
      s.now = s.nextSweep →
        (∀ p ∈ s.credentials.entries, p.2.refreshToken.isSome → s.selects p.1 p.2 = true →
          Renews s.intervalMs s.now
            (refreshOutcome deps s.now p.2.gitlabBaseUrl p.2.refreshToken (r.reply p.1))) ∧
        ∀ p ∈ s.userCredentials.entries, p.2.refreshToken.isSome → s.selectsUser p.2 = true →
          Renews s.intervalMs s.now
            (refreshOutcome deps s.now (some p.1.gitlabBaseUrl) p.2.refreshToken (r.userReply p.1))
  | _ => True

instance (s : TokenStore) (a : Action) : Decidable (Works deps s a) := by
  cases a <;> unfold Works <;> infer_instance

/-- A sweep selects every credential with a refresh token that does not last until the next sweep,
and no such credential is stored in between. -/
def Covers (s : TokenStore) : Action → Prop
  | .sweep _ =>
      s.now = s.nextSweep →
        (∀ p ∈ s.credentials.entries, p.2.refreshToken.isSome →
          (∃ e ∈ p.2.expiresAt, e < s.now + s.intervalMs) → s.selects p.1 p.2 = true) ∧
        ∀ p ∈ s.userCredentials.entries, p.2.refreshToken.isSome →
          (∃ e ∈ p.2.expiresAt, e < s.now + s.intervalMs) → s.selectsUser p.2 = true
  | .putCredential id _ _ input =>
      id ∉ s.credentials.keys → input.refreshTokenPlaintext.isSome →
        ∀ e ∈ input.expiresAt, s.nextSweep ≤ e
  | .putUserCredential key _ _ input =>
      (input.refreshToken.isSome ∨
        ((s.userCredentials.get? key).bind UserCredentialDoc.refreshToken).isSome) →
        ∀ e ∈ input.expiresAt, s.nextSweep ≤ e
  | _ => True

theorem not_lastsUntil_iff {t : Nat} {refreshToken : Option Encrypted} {expiresAt : Option Nat} :
    ¬ LastsUntil t refreshToken expiresAt ↔
      refreshToken.isSome ∧ ∃ e ∈ expiresAt, e < t := by
  unfold LastsUntil
  push Not
  rfl

/-- Time matters up to the next sweep only. -/
theorem lasting_iff (s : TokenStore) (h : s.now ≤ s.nextSweep) :
    s.Lasting ↔ s.ValidAt s.nextSweep := by
  constructor
  · exact fun hlasting => hlasting s.nextSweep h (Nat.le_refl _)
  · rintro ⟨hadmin, huser⟩ t - ht
    exact ⟨fun doc hdoc hsome e he => Nat.le_trans ht (hadmin doc hdoc hsome e he),
      fun doc hdoc hsome e he => Nat.le_trans ht (huser doc hdoc hsome e he)⟩

/-- After a loop that leaves what it selects in order, the values are in order just when it selects
all that are not. -/
theorem forall_swept_iff {K V : Type*} [DecidableEq K] {m m' : OrderedMap K V} {L : V → Prop}
    (selected : K → V → Bool) {g : K → V → V}
    (hget : ∀ k, m'.get? k = (m.get? k).map fun v => if selected k v then g k v else v)
    (hrenew : ∀ p ∈ m.entries, selected p.1 p.2 = true → L (g p.1 p.2)) :
    (∀ v ∈ m'.values, L v) ↔ ∀ p ∈ m.entries, ¬ L p.2 → selected p.1 p.2 = true := by
  constructor
  · intro h p hp hnot
    by_contra hselected
    have hkept : m'.get? p.1 = some p.2 := by
      rw [hget, OrderedMap.get?_of_mem_entries hp, Option.map_some, if_neg hselected]
    exact hnot (h p.2 ((OrderedMap.mem_values_iff m' p.2).mpr ⟨p.1, hkept⟩))
  · intro h v' hv'
    obtain ⟨k, hk⟩ := (OrderedMap.mem_values_iff m' v').mp hv'
    rw [hget] at hk
    obtain ⟨v, hv, rfl⟩ := Option.map_eq_some_iff.mp hk
    have hentry := OrderedMap.mem_entries_of_get? hv
    by_cases hselected : selected k v = true
    · rw [if_pos hselected]
      exact hrenew (k, v) hentry hselected
    · rw [if_neg hselected]
      by_contra hnot
      exact hselected (h (k, v) hentry hnot)

/-- Without a refresh token there is nothing to renew. -/
theorem refreshOutcome_none (now : Nat) (gitlabBaseUrl : Option String)
    (reply : TokenRequest → TokenReply) :
    refreshOutcome deps now gitlabBaseUrl none reply = .skip ∨
      refreshOutcome deps now gitlabBaseUrl none reply = .markExpired := by
  unfold refreshOutcome
  split
  · exact .inl rfl
  · exact .inl rfl
  · split
    · exact .inl rfl
    · exact .inr rfl

/-- A renewed credential lasts until the next sweep, and one without a refresh token is not looked
at. -/
theorem lastsUntil_refreshOutcome {intervalMs now : Nat} {gitlabBaseUrl : Option String}
    {refreshToken : Option Encrypted} {reply : TokenRequest → TokenReply}
    (h : refreshToken.isSome →
      Renews intervalMs now (refreshOutcome deps now gitlabBaseUrl refreshToken reply))
    (encrypt : String → Encrypted) (expiresAt : Option Nat) :
    let outcome := refreshOutcome deps now gitlabBaseUrl refreshToken reply
    LastsUntil (now + intervalMs) (RefreshOutcome.refreshToken encrypt refreshToken outcome)
      (RefreshOutcome.expiresAt expiresAt outcome) := by
  cases refreshToken with
  | none =>
    intro outcome hsome
    obtain hskip | hmark := refreshOutcome_none deps now gitlabBaseUrl reply
    · rw [show outcome = .skip from hskip] at hsome
      cases hsome
    · rw [show outcome = .markExpired from hmark] at hsome
      cases hsome
  | some token =>
    have hrenews := h rfl
    revert hrenews
    cases refreshOutcome deps now gitlabBaseUrl (some token) reply with
    | skip => exact fun hrenews => absurd hrenews id
    | markExpired => exact fun hrenews => absurd hrenews id
    | rotate accessToken refreshToken expiresAt =>
      intro hrenews _ _ e he
      cases he
      exact Nat.le_of_lt hrenews

/-- The sweep leaves every credential in order until the next one, just when it covers those that
would not last. -/
theorem validAt_refresh_iff {r : SweepReplies} {s : TokenStore} (hdue : s.now = s.nextSweep)
    (hworks : Works deps s (.sweep r)) :
    (refresh deps r s).ValidAt (s.now + s.intervalMs) ↔ Covers s (.sweep r) := by
  obtain ⟨hadmin, huser⟩ := hworks hdue
  have hcovers : Covers s (.sweep r) ↔
      (∀ p ∈ s.credentials.entries,
        ¬ LastsUntil (s.now + s.intervalMs) p.2.refreshToken p.2.expiresAt →
          s.selects p.1 p.2 = true) ∧
      ∀ p ∈ s.userCredentials.entries,
        ¬ LastsUntil (s.now + s.intervalMs) p.2.refreshToken p.2.expiresAt →
          s.selectsUser p.2 = true := by
    simp only [Covers, not_lastsUntil_iff, and_imp, hdue, forall_const]
  refine Iff.trans (and_congr ?_ ?_) hcovers.symm
  · refine forall_swept_iff (L := fun doc : CredentialDoc =>
      LastsUntil (s.now + s.intervalMs) doc.refreshToken doc.expiresAt) s.selects
      (get?_credentials_refresh deps r s) fun p hp hselected => ?_
    exact lastsUntil_refreshOutcome deps (fun hsome => hadmin p hp hsome hselected) _ _
  · refine forall_swept_iff (L := fun doc : UserCredentialDoc =>
      LastsUntil (s.now + s.intervalMs) doc.refreshToken doc.expiresAt)
      (fun _ doc => s.selectsUser doc) (get?_userCredentials_refresh deps r s) fun p hp hselected => ?_
    exact lastsUntil_refreshOutcome deps (fun hsome => huser p hp hsome hselected) _ _

/-- Storing a document keeps the others in order. -/
theorem forall_values_set_iff {K V : Type*} [DecidableEq K] {m : OrderedMap K V} {L : V → Prop}
    (h : ∀ v ∈ m.values, L v) (k : K) (v : V) : (∀ w ∈ (m.set k v).values, L w) ↔ L v := by
  constructor
  · exact fun hset => hset v ((OrderedMap.mem_values_iff _ v).mpr
      ⟨k, OrderedMap.get?_set_self m k v⟩)
  · intro hv w hw
    obtain ⟨k', hk'⟩ := (OrderedMap.mem_values_iff _ w).mp hw
    rw [OrderedMap.get?_set] at hk'
    split at hk'
    · exact Option.some.inj hk' ▸ hv
    · exact h w ((OrderedMap.mem_values_iff m w).mpr ⟨k', hk'⟩)

theorem forall_values_delete {K V : Type*} [DecidableEq K] {m : OrderedMap K V} {L : V → Prop}
    (h : ∀ v ∈ m.values, L v) (k : K) : ∀ w ∈ (m.delete k).values, L w := by
  intro w hw
  obtain ⟨k', hk'⟩ := (OrderedMap.mem_values_iff _ w).mp hw
  rw [OrderedMap.get?_delete] at hk'
  split at hk'
  · cases hk'
  · exact h w ((OrderedMap.mem_values_iff m w).mpr ⟨k', hk'⟩)

/-- What a step leaves of a store that lasts. -/
theorem lasting_step_iff {s : TokenStore} {a : Action} (hnow : s.now ≤ s.nextSweep)
    (hlasting : s.Lasting) (hworks : Works deps s a) :
    (step deps s a).now ≤ (step deps s a).nextSweep ∧
      ((step deps s a).Lasting ↔ Covers s a) := by
  obtain ⟨hadmin, huser⟩ := (lasting_iff s hnow).mp hlasting
  cases a with
  | wait ms =>
    dsimp only [step]
    split
    · rename_i hearly
      exact ⟨hearly, (lasting_iff _ hearly).trans (iff_of_true ⟨hadmin, huser⟩ trivial)⟩
    · exact ⟨hnow, iff_of_true hlasting trivial⟩
  | sweep r =>
    dsimp only [step]
    by_cases hdue : s.now = s.nextSweep
    · rw [if_pos hdue]
      obtain ⟨-, hsame, -, -⟩ := refreshAdminCredentials_same deps r s
      have hclock : (refresh deps r s).now = s.now :=
        (refreshUserCredentials_same deps r _).2.1.trans hsame
      have hnext : (refresh deps r s).now ≤ s.nextSweep + s.intervalMs := by omega
      refine ⟨hnext, (lasting_iff _ hnext).trans ?_⟩
      rw [← validAt_refresh_iff deps hdue hworks, hdue]
      rfl
    · rw [if_neg hdue]
      exact ⟨hnow, iff_of_true hlasting fun h => absurd h hdue⟩
  | putCredential id iv refreshIv input =>
    dsimp only [step, HulyGitlab.putCredential]
    by_cases hid : id ∈ s.credentials.keys
    · rw [if_pos hid]
      exact ⟨hnow, iff_of_true hlasting fun h => absurd hid h⟩
    · rw [if_neg hid]
      let doc := credentialDoc deps.cipher deps.encryptionKey iv refreshIv s.now input
      have hdoc := forall_values_set_iff hadmin id doc
      refine ⟨hnow, (lasting_iff { s with credentials := s.credentials.set id doc } hnow).trans ?_⟩
      refine (and_iff_left huser).trans (hdoc.trans ?_)
      simp only [LastsUntil, doc, credentialDoc, Option.isSome_map, Covers, hid, not_false_eq_true,
        forall_const]
  | putUserCredential key iv refreshIv input =>
    refine ⟨hnow, (lasting_iff (step deps s (.putUserCredential key iv refreshIv input)) hnow).trans ?_⟩
    refine (and_iff_right hadmin).trans ((forall_values_set_iff huser key _).trans ?_)
    unfold LastsUntil Covers
    dsimp only
    cases input.refreshToken with
    | none => simp
    | some text => simp
  | deleteCredential id =>
    exact ⟨hnow, (lasting_iff (step deps s (.deleteCredential id)) hnow).trans
      (iff_of_true ⟨forall_values_delete hadmin id, huser⟩ trivial)⟩
  | deleteUserCredential key =>
    exact ⟨hnow, (lasting_iff (step deps s (.deleteUserCredential key)) hnow).trans
      (iff_of_true ⟨hadmin, forall_values_delete huser key⟩ trivial)⟩

end Runs

section Examples

/-- A service for one instance, with a cipher that only records its inputs. -/
def exampleDeps : OAuthRefresherDeps where
  cipher := .plain
  platform := ⟨fun _ => some ⟨"https:", "", "", "gitlab.com"⟩, fun _ => 0, String.toLower⟩
  allowedHosts := none
  encryptionKey := "key"
  gitLabClientId := "client"
  gitLabClientSecret := "secret"
  oauthRedirectUri := "callback"

/-- Twenty minutes before the first sweep. -/
def exampleStore : TokenStore where
  now := 0
  intervalMs := refreshIntervalMs
  nextSweep := 20 * 60 * 1000
  credentials := .empty
  expired := []
  userCredentials := .empty

/-- Each request is answered with new tokens for two hours. -/
def exampleReplies : SweepReplies where
  reply _ _ := .response 200 ⟨some "access", some "refresh", some 7200, ""⟩
  iv _ := "iv"
  refreshIv _ := "refreshIv"
  userReply _ _ := .response 200 ⟨some "access", some "refresh", some 7200, ""⟩
  userIv _ := "iv"
  userRefreshIv _ := "refreshIv"

/-- A user links an account, with a token for two hours. -/
def exampleLink : Action :=
  .putUserCredential ⟨"workspace", "person", "https://gitlab.com"⟩ "iv" "refreshIv"
    ⟨"user", "access", some "refresh", some (7200 * 1000)⟩

end Examples

end TokenStore

end HulyGitlab
