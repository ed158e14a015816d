import HulyGitlab.Http.OAuthState
import HulyGitlab.Lib.Registry
import HulyGitlab.Lib.SingleUse
import HulyGitlab.Lib.Transition

/-!
# Callbacks of OAuth flows

The callback routes of the two routers up to the token exchange. Each awaits
the lookup of its row and the delete of it; between the two other requests run.
What follows the exchange does not touch the rows.
-/

namespace HulyGitlab.OAuth

inductive Router
  | admin
  | user
  deriving DecidableEq

/-- The `oauth_state` collection; no two rows have one id or one state. -/
structure StateRows where
  docs : List OAuthStateDoc
  ids : (docs.map OAuthStateDoc.id).Nodup
  states : (docs.map OAuthStateDoc.state).Nodup

namespace StateRows

/-- `deleteOne`. -/
def deleteOne (rows : StateRows) (p : OAuthStateDoc → Bool) : StateRows where
  docs := rows.docs.eraseP p
  ids := rows.ids.sublist (List.eraseP_sublist.map _)
  states := rows.states.sublist (List.eraseP_sublist.map _)

/-- The TTL index removes rows whose time is over. -/
def removeExpired (rows : StateRows) (now : Nat) : StateRows where
  docs := rows.docs.filter fun d => ¬ d.expiresAt < now
  ids := rows.ids.sublist (List.filter_sublist.map _)
  states := rows.states.sublist (List.filter_sublist.map _)

end StateRows

structure Answer where
  status : Nat
  error : String
  message : String
  deriving DecidableEq

/-- The body of the request to the token endpoint. -/
structure TokenExchange where
  tokenUrl : String
  clientId : String
  clientSecret : String
  code : String
  redirectUri : String
  codeVerifier : Option String
  deriving DecidableEq

/-- Where a request is; `checkedAt` is the time of its check of the row. -/
inductive Stage
  | finding
  | rejecting (doc : OAuthStateDoc) (answer : Answer)
  | redeeming (doc : OAuthStateDoc) (checkedAt : Nat)
  | answered (answer : Answer)
  | exchanging
  | failed
  deriving DecidableEq

/-- The checks passed, and the delete is awaited. -/
def Stage.passes : Stage → Bool
  | .redeeming _ _ => true
  | _ => false

/-- A request with a state and a code. -/
structure CallbackRequest where
  router : Router
  state : String
  code : String
  stage : Stage
  deriving DecidableEq

/-- An exchange that was sent, with the row it was sent for. -/
structure Redemption where
  request : CallbackRequest
  doc : OAuthStateDoc
  checkedAt : Nat
  exchange : TokenExchange
  deriving DecidableEq

structure CallbackSystem where
  rows : StateRows
  requests : Registry CallbackRequest
  redemptions : List Redemption

/-- Requests arrive, a request goes on when its lookup or its delete is done or
has failed, and rows run out. -/
inductive CallbackAction
  | arrive (router : Router) (state code : Option String)
  | found (request now : Nat)
  | deleted (request : Nat)
  | fail (request : Nat)
  | expire (now : Nat)

namespace CallbackSystem

/-- The filter of the lookup. -/
def matchesRow (router : Router) (state : String) (doc : OAuthStateDoc) : Bool :=
  doc.state = state &&
    match router with
    | .admin => doc.kind ≠ some "user"
    | .user => doc.kind = some "user"

/-- The filter of the deletes: the admin router deletes by the state, the other by the id. -/
def deletesRow (router : Router) (doc d : OAuthStateDoc) : Bool :=
  match router with
  | .admin => d.state = doc.state
  | .user => d.id = doc.id

section Step

variable (platform : OAuthPlatform) (config : OAuthConfig) (allowedHosts : Option String)
  (secrets : SecretConfig)

/-- The checks of the row that was found, up to the next await. -/
def checkRow (r : CallbackRequest) (now : Nat) (doc : OAuthStateDoc) : Stage :=
  if verifyHmac platform.hmacSha256 doc.statePayload r.state secrets = none then
    .rejecting doc ⟨401, "invalid_state", "State HMAC verification failed"⟩
  else if doc.expiresAt < now then
    match r.router with
    | .admin => .answered ⟨410, "expired", "OAuth state has expired"⟩
    | .user => .rejecting doc ⟨410, "expired", "OAuth state has expired"⟩
  else .redeeming doc now

/-- What a request does when its lookup returns. -/
def stageAfterFind (rows : StateRows) (r : CallbackRequest) (now : Nat) : Stage :=
  match rows.docs.find? (matchesRow r.router r.state) with
  | none => .answered ⟨404, "not_found", "Unknown or already-used state"⟩
  | some doc => checkRow platform secrets r now doc

def tokenExchange (r : CallbackRequest) (doc : OAuthStateDoc) : TokenExchange :=
  { tokenUrl := doc.gitlabBaseUrl ++ "/oauth/token"
    clientId := config.gitLabClientId
    clientSecret := config.gitLabClientSecret
    code := r.code
    redirectUri := match r.router with
      | .admin => config.oAuthRedirectUri
      | .user => config.publicBaseUrl ++ "/user/oauth/callback"
    codeVerifier := match r.router with
      | .admin => nonEmpty doc.codeVerifier
      | .user => some doc.codeVerifier }

def setStage (s : CallbackSystem) (i : Nat) (r : CallbackRequest) (stage : Stage) : CallbackSystem :=
  { s with requests := s.requests.update i { r with stage } }

/-- The base URL is validated once more, and the exchange is sent. -/
def redeem (s : CallbackSystem) (i : Nat) (r : CallbackRequest) (doc : OAuthStateDoc)
    (checkedAt : Nat) : CallbackSystem :=
  let s := { s with rows := s.rows.deleteOne (deletesRow r.router doc) }
  if validateGitLabBaseUrl platform.url allowedHosts doc.gitlabBaseUrl then
    { s.setStage i r .exchanging with
      redemptions := s.redemptions ++ [⟨r, doc, checkedAt, tokenExchange config r doc⟩] }
  else s.setStage i r (.answered ⟨400, "invalid gitlabBaseUrl", ""⟩)

def missingCode : Answer := ⟨400, "invalid_request", "Missing code"⟩

def missingState : Router → Answer
  | .admin => ⟨400, "invalid_request", "Missing state"⟩
  | .user => ⟨401, "invalid_state", "Missing state"⟩

def step (s : CallbackSystem) : CallbackAction → CallbackSystem
  | .arrive router state code =>
      match nonEmpty state, nonEmpty code with
      | some state, some code =>
          { s with requests := s.requests.add ⟨router, state, code, .finding⟩ }
      | none, _ =>
          { s with requests := s.requests.add ⟨router, "", "", .answered (missingState router)⟩ }
      | some state, none =>
          { s with requests := s.requests.add ⟨router, state, "", .answered missingCode⟩ }
  | .found i now =>
      match s.requests.get? i with
      | none => s
      | some r =>
          match r.stage with
          | .finding => s.setStage i r (stageAfterFind platform secrets s.rows r now)
          | _ => s
  | .deleted i =>
      match s.requests.get? i with
      | none => s
      | some r =>
          match r.stage with
          | .rejecting doc answer =>
              { s with rows := s.rows.deleteOne (deletesRow r.router doc) }.setStage i r
                (.answered answer)
          | .redeeming doc checkedAt => s.redeem platform config allowedHosts i r doc checkedAt
          | _ => s
  | .fail i =>
      match s.requests.get? i with
      | none => s
      | some r =>
          match r.stage with
          | .finding => s.setStage i r .failed
          | .rejecting _ _ => s.setStage i r .failed
          | .redeeming _ _ => s.setStage i r .failed
          | _ => s
  | .expire now => { s with rows := s.rows.removeExpired now }

end Step

/-- No request yet. -/
def init (rows : StateRows) : CallbackSystem := ⟨rows, .empty, []⟩

section SingleUse

variable (platform : OAuthPlatform) (config : OAuthConfig) (allowedHosts : Option String)
  (secrets : SecretConfig)

/-- The row was looked up by the router of its kind, its state is the signature of
its payload, and it had not expired when it was checked. -/
structure Checked (rows : StateRows) (r : CallbackRequest) (doc : OAuthStateDoc) (checkedAt : Nat) :
    Prop where
  stored : doc ∈ rows.docs
  matches_ : matchesRow r.router r.state doc = true
  signed : verifyHmac platform.hmacSha256 doc.statePayload r.state secrets ≠ none
  unexpired : ¬ doc.expiresAt < checkedAt

/-- No state was redeemed twice, and none whose row was not stored for the router
that redeemed it, was forged, or had expired. -/
def RedeemsOnce (rows : StateRows) (s : CallbackSystem) : Prop :=
  (s.redemptions.map fun x => x.request.state).Nodup ∧
    ∀ x ∈ s.redemptions, Checked platform secrets rows x.request x.doc x.checkedAt

/-- The state a request has read and will redeem. -/
def heldState (r : CallbackRequest) : Option String :=
  match r.stage with
  | .redeeming _ _ => some r.state
  | _ => none

/-- A request passes the checks of its row only while no other request is
between them and its delete for the same state. -/
def Alone (s : CallbackSystem) : CallbackAction → Prop
  | .found i now => ∀ r ∈ s.requests.get? i, r.stage = .finding →
      (stageAfterFind platform secrets s.rows r now).passes →
        ∀ r' ∈ s.requests.values, heldState r' ≠ some r.state
  | _ => True

instance (s : CallbackSystem) :
    (a : CallbackAction) → Decidable (Alone platform secrets s a)
  | .found _ _ => inferInstanceAs (Decidable (∀ r ∈ _, _))
  | .arrive _ _ _ => inferInstanceAs (Decidable True)
  | .deleted _ => inferInstanceAs (Decidable True)
  | .fail _ => inferInstanceAs (Decidable True)
  | .expire _ => inferInstanceAs (Decidable True)

/-- The states as tokens that the requests read and use. -/
def holdings (s : CallbackSystem) : Holdings Nat String :=
  ⟨{state | ∃ d ∈ s.rows.docs, d.state = state}, fun i => (s.requests.get? i).bind heldState,
    s.redemptions.map fun x => x.request.state⟩

variable {platform config allowedHosts secrets}

theorem eq_of_state_eq (rows : StateRows) {d d' : OAuthStateDoc} (hd : d ∈ rows.docs)
    (hd' : d' ∈ rows.docs) (h : d.state = d'.state) : d = d' :=
  List.inj_on_of_nodup_map rows.states hd hd' h

/-- With keys that differ, erasing the first of a key leaves none of it. -/
theorem key_ne_of_mem_eraseP {A K : Type} [DecidableEq K] {f : A → K} {k : K} {l : List A}
    (hl : (l.map f).Nodup) {a : A} (ha : a ∈ l.eraseP fun b => f b = k) : f a ≠ k := by
  induction l with
  | nil => cases ha
  | cons b l ih =>
      obtain ⟨hb, hl⟩ := List.nodup_cons.mp hl
      by_cases hk : f b = k
      · simp only [List.eraseP_cons, hk, decide_true, cond_true] at ha
        intro hak
        exact hb (hk.trans hak.symm ▸ List.mem_map_of_mem ha)
      · simp only [List.eraseP_cons, hk, decide_false, cond_false, List.mem_cons] at ha
        obtain rfl | ha := ha
        · exact hk
        · exact ih hl ha

/-- After its delete, a row is gone. -/
theorem not_mem_deleteOne (rows : StateRows) (router : Router) (doc : OAuthStateDoc) :
    doc ∉ (rows.deleteOne (deletesRow router doc)).docs := by
  intro h
  cases router with
  | admin => exact key_ne_of_mem_eraseP rows.states h rfl
  | user => exact key_ne_of_mem_eraseP rows.ids h rfl

theorem holds_setStage {s : CallbackSystem} {i : Nat} {r : CallbackRequest}
    (h : s.requests.get? i = some r) (stage : Stage) :
    (s.setStage i r stage).holdings.holds =
      Function.update s.holdings.holds i (heldState { r with stage }) := by
  funext j
  unfold holdings setStage
  dsimp only
  rw [Registry.get?_update h]
  by_cases hj : j = i
  · subst hj
    rw [if_pos rfl, Function.update_self]
    rfl
  · rw [if_neg hj, Function.update_of_ne hj]

theorem holdings_setStage {s : CallbackSystem} {i : Nat} {r : CallbackRequest}
    (h : s.requests.get? i = some r) (stage : Stage) :
    (s.setStage i r stage).holdings =
      { s.holdings with
        holds := Function.update s.holdings.holds i (heldState { r with stage }) } := by
  rw [← holds_setStage h]
  rfl

theorem holds_add (s : CallbackSystem) {r : CallbackRequest} (hr : heldState r = none) :
    ({ s with requests := s.requests.add r } : CallbackSystem).holdings.holds =
      s.holdings.holds := by
  funext j
  unfold holdings
  dsimp only
  rw [Registry.get?_add]
  by_cases hj : j = s.requests.next
  · rw [if_pos hj, hj, Registry.get?_next]
    exact hr
  · rw [if_neg hj]

/-- What is known of the requests and redemptions of a system that began with these rows. -/
structure Known (platform : OAuthPlatform) (secrets : SecretConfig) (rows : StateRows)
    (s : CallbackSystem) : Prop where
  subset : ∀ d ∈ s.rows.docs, d ∈ rows.docs
  redeeming : ∀ i r, s.requests.get? i = some r → ∀ doc t, r.stage = .redeeming doc t →
    Checked platform secrets rows r doc t
  redeemed : ∀ x ∈ s.redemptions, Checked platform secrets rows x.request x.doc x.checkedAt

/-- A request that passes has found its row, which is checked. -/
theorem checked_of_stageAfterFind {rows rows' : StateRows} (hsub : ∀ d ∈ rows'.docs, d ∈ rows.docs)
    {r : CallbackRequest} {now : Nat} {doc : OAuthStateDoc} {t : Nat}
    (h : stageAfterFind platform secrets rows' r now = .redeeming doc t) :
    doc ∈ rows'.docs ∧ doc.state = r.state ∧ Checked platform secrets rows r doc t := by
  unfold stageAfterFind at h
  split at h
  · cases h
  · rename_i found hfind
    have hmem := List.mem_of_find?_eq_some hfind
    have hmatch := List.find?_some hfind
    unfold checkRow at h
    split at h
    · cases h
    · rename_i hsigned
      split at h
      · cases hrouter : r.router <;> rw [hrouter] at h <;> cases h
      · rename_i hlive
        cases h
        refine ⟨hmem, ?_, hsub _ hmem, hmatch, hsigned, hlive⟩
        exact of_decide_eq_true (Bool.and_eq_true_iff.mp hmatch).1

theorem subset_deleteOne {rows rows' : StateRows} (hsub : ∀ d ∈ rows'.docs, d ∈ rows.docs)
    (p : OAuthStateDoc → Bool) : ∀ d ∈ (rows'.deleteOne p).docs, d ∈ rows.docs :=
  fun d hd => hsub d (List.mem_of_mem_eraseP hd)

theorem Known.setStage {rows : StateRows} {s : CallbackSystem} (h : Known platform secrets rows s)
    {i : Nat} {r : CallbackRequest} (hr : s.requests.get? i = some r) {stage : Stage}
    (hstage : ∀ doc t, stage = .redeeming doc t → Checked platform secrets rows { r with stage } doc t) :
    Known platform secrets rows (s.setStage i r stage) where
  subset := h.subset
  redeeming := Registry.forall_update hr hstage fun j u _ hu => h.redeeming j u hu
  redeemed := h.redeemed

theorem Known.withRows {rows rows' : StateRows} {s : CallbackSystem}
    (h : Known platform secrets rows s) (hsub : ∀ d ∈ rows'.docs, d ∈ rows.docs) :
    Known platform secrets rows { s with rows := rows' } :=
  ⟨hsub, h.redeeming, h.redeemed⟩

theorem Known.redeem {rows : StateRows} {s : CallbackSystem} (h : Known platform secrets rows s)
    {i : Nat} {r : CallbackRequest} (hr : s.requests.get? i = some r) {doc : OAuthStateDoc} {t : Nat}
    (hstage : r.stage = .redeeming doc t) :
    Known platform secrets rows (s.redeem platform config allowedHosts i r doc t) := by
  have hrows := h.withRows (subset_deleteOne h.subset (deletesRow r.router doc))
  unfold CallbackSystem.redeem
  dsimp only
  split
  · have hset : Known platform secrets rows (CallbackSystem.setStage _ i r .exchanging) :=
      hrows.setStage hr (by rintro doc t ⟨⟩)
    refine ⟨hset.subset, hset.redeeming, ?_⟩
    intro x hx
    rcases List.mem_append.mp hx with hx | hx
    · exact h.redeemed x hx
    · obtain rfl := List.mem_singleton.mp hx
      exact h.redeeming i r hr doc t hstage
  · exact hrows.setStage hr (by rintro doc t ⟨⟩)

theorem Known.step {rows : StateRows} {s : CallbackSystem} (h : Known platform secrets rows s)
    (a : CallbackAction) :
    Known platform secrets rows (s.step platform config allowedHosts secrets a) := by
  have hadd : ∀ r : CallbackRequest, heldState r = none →
      Known platform secrets rows { s with requests := s.requests.add r } := by
    intro r hr
    refine ⟨h.subset, Registry.forall_add ?_ h.redeeming, h.redeemed⟩
    intro doc t hstage
    rw [heldState, hstage] at hr
    cases hr
  cases a with
  | arrive router state code =>
      unfold CallbackSystem.step
      dsimp only
      split
      · exact hadd _ rfl
      · exact hadd _ rfl
      · exact hadd _ rfl
  | found i now =>
      unfold CallbackSystem.step
      dsimp only
      split
      · exact h
      · rename_i r hr
        split
        · refine h.setStage hr fun doc t hstage => ?_
          obtain ⟨-, -, hchecked⟩ := checked_of_stageAfterFind h.subset hstage
          exact ⟨hchecked.stored, hchecked.matches_, hchecked.signed, hchecked.unexpired⟩
        · exact h
  | deleted i =>
      unfold CallbackSystem.step
      dsimp only
      split
      · exact h
      · rename_i r hr
        split
        · exact (h.withRows (subset_deleteOne h.subset _)).setStage hr (by rintro doc t ⟨⟩)
        · rename_i doc t hstage
          exact h.redeem hr hstage
        · exact h
  | fail i =>
      unfold CallbackSystem.step
      dsimp only
      split
      · exact h
      · rename_i r hr
        split
        · exact h.setStage hr (by rintro doc t ⟨⟩)
        · exact h.setStage hr (by rintro doc t ⟨⟩)
        · exact h.setStage hr (by rintro doc t ⟨⟩)
        · exact h
  | expire now => exact h.withRows fun d hd => h.subset d (List.mem_of_mem_filter hd)

theorem present_subset {rows rows' : StateRows} (hsub : ∀ d ∈ rows'.docs, d ∈ rows.docs) :
    {state | ∃ d ∈ rows'.docs, d.state = state} ⊆ {state | ∃ d ∈ rows.docs, d.state = state} := by
  rintro state ⟨d, hd, hstate⟩
  exact ⟨d, hsub d hd, hstate⟩

/-- A state whose row was deleted is held by the request that deleted it, and is gone. -/
theorem state_gone {rows : StateRows} {s : CallbackSystem} (h : Known platform secrets rows s)
    {r : CallbackRequest} {doc : OAuthStateDoc} {t : Nat}
    (hchecked : Checked platform secrets rows r doc t) :
    r.state ∉ {state | ∃ d ∈ (s.rows.deleteOne (deletesRow r.router doc)).docs, d.state = state} := by
  rintro ⟨d, hd, hstate⟩
  have hdoc : doc.state = r.state :=
    of_decide_eq_true (Bool.and_eq_true_iff.mp hchecked.matches_).1
  have heq : d = doc := eq_of_state_eq rows (subset_deleteOne h.subset _ d hd) hchecked.stored
    (hstate.trans hdoc.symm)
  exact not_mem_deleteOne s.rows r.router doc (heq ▸ hd)

/-- Every step moves the states as tokens, or leaves them. -/
theorem holdings_step {rows : StateRows} {s : CallbackSystem} (h : Known platform secrets rows s)
    (a : CallbackAction) (ha : Alone platform secrets s a) :
    (s.step platform config allowedHosts secrets a).holdings = s.holdings ∨
      Holdings.Step s.holdings (s.step platform config allowedHosts secrets a).holdings := by
  have hadd : ∀ r : CallbackRequest, heldState r = none →
      ({ s with requests := s.requests.add r } : CallbackSystem).holdings = s.holdings := by
    intro r hr
    have hholds := holds_add s hr
    unfold holdings at hholds ⊢
    dsimp only at hholds ⊢
    rw [hholds]
  have hdelete : ∀ r doc, ∀ i stage, s.requests.get? i = some r → heldState { r with stage } = none →
      Holdings.Step s.holdings (setStage { s with rows := s.rows.deleteOne (deletesRow r.router doc) }
        i r stage).holdings := by
    intro r doc i stage hr hstage
    rw [holdings_setStage (s := { s with rows := s.rows.deleteOne (deletesRow r.router doc) }) hr,
      hstage]
    exact .release (present_subset (subset_deleteOne (fun _ hd => hd) _))
  have hleave : ∀ i r stage, s.requests.get? i = some r → heldState { r with stage } = none →
      Holdings.Step s.holdings (s.setStage i r stage).holdings := by
    intro i r stage hr hstage
    rw [holdings_setStage hr, hstage]
    exact .release (Set.Subset.refl _)
  cases a with
  | arrive router state code =>
      unfold CallbackSystem.step
      dsimp only
      split
      · exact .inl (hadd _ rfl)
      · exact .inl (hadd _ rfl)
      · exact .inl (hadd _ rfl)
  | found i now =>
      unfold CallbackSystem.step
      dsimp only
      split
      · exact .inl rfl
      · rename_i r hr
        split
        · rename_i hfinding
          refine .inr ?_
          cases hstage : stageAfterFind platform secrets s.rows r now with
          | redeeming doc t =>
              obtain ⟨hdoc, hstate, -⟩ := checked_of_stageAfterFind h.subset hstage
              rw [holdings_setStage hr]
              refine .read ⟨doc, hdoc, hstate⟩ fun j _ hheld => ?_
              obtain ⟨r', hr', hheld⟩ := Option.bind_eq_some_iff.mp hheld
              exact ha r hr hfinding (hstage ▸ rfl) r' ((Registry.mem_values_iff _ _).mpr ⟨j, hr'⟩)
                hheld
          | finding => exact hleave i r _ hr rfl
          | rejecting doc answer => exact hleave i r _ hr rfl
          | answered answer => exact hleave i r _ hr rfl
          | exchanging => exact hleave i r _ hr rfl
          | failed => exact hleave i r _ hr rfl
        · exact .inl rfl
  | deleted i =>
      unfold CallbackSystem.step
      dsimp only
      split
      · exact .inl rfl
      · rename_i r hr
        split
        · exact .inr (hdelete r _ i _ hr rfl)
        · rename_i doc t hstage
          refine .inr ?_
          have hchecked := h.redeeming i r hr doc t hstage
          have hheld : s.holdings.holds i = some r.state := by
            have hbind : s.holdings.holds i = heldState r := congrArg (Option.bind · heldState) hr
            rw [hbind, heldState, hstage]
          unfold redeem
          dsimp only
          split
          · have hset := holds_setStage
              (s := { s with rows := s.rows.deleteOne (deletesRow r.router doc) }) hr .exchanging
            have hused : (s.redemptions ++ [(⟨r, doc, t, tokenExchange config r doc⟩ : Redemption)]).map
                (fun x => x.request.state) = s.holdings.used ++ [r.state] := List.map_append
            have huse := Holdings.Step.use hheld
              (present_subset (subset_deleteOne (fun _ hd => hd) (deletesRow r.router doc)))
              (state_gone h hchecked)
            rw [← hused] at huse
            unfold holdings at hset huse ⊢
            dsimp only at hset huse ⊢
            rw [hset]
            exact huse
          · exact hdelete r doc i _ hr rfl
        · exact .inl rfl
  | fail i =>
      unfold CallbackSystem.step
      dsimp only
      split
      · exact .inl rfl
      · rename_i r hr
        split
        · exact .inr (hleave i r _ hr rfl)
        · exact .inr (hleave i r _ hr rfl)
        · exact .inr (hleave i r _ hr rfl)
        · exact .inl rfl
  | expire now => exact .inr (.remove (present_subset fun d hd => List.mem_of_mem_filter hd))

theorem known_init (rows : StateRows) : Known platform secrets rows (init rows) :=
  ⟨fun _ hd => hd, fun _ _ hr => (nomatch hr), fun _ hx => (nomatch hx)⟩

theorem single_init (rows : StateRows) : (init rows).holdings.Single :=
  ⟨List.nodup_nil, fun _ hk => (nomatch hk), fun _ hk => (nomatch hk), fun _ _ _ hi => (nomatch hi)⟩

/-- Exchanges are always sent for rows that were checked. -/
theorem known_exec (rows : StateRows) (acts : List CallbackAction) :
    Known platform secrets rows
      (Transition.exec (step platform config allowedHosts secrets) (init rows) acts) :=
  Transition.exec_invariant' (fun _ a h => h.step a) (known_init rows) acts

/-- In a run in which requests for one state pass their checks one after the other's
delete, no state is redeemed twice in any state that is reached. -/
theorem redeemsOnce_of_alone (rows : StateRows) (acts : List CallbackAction)
    (halone : Transition.Along (step platform config allowedHosts secrets) (Alone platform secrets)
      (init rows) acts) :
    Transition.Throughout (step platform config allowedHosts secrets)
      (RedeemsOnce platform secrets rows) (init rows) acts := by
  refine Transition.throughout_of_along halone fun as has => ?_
  have hsingle : (Transition.exec (step platform config allowedHosts secrets) (init rows)
      as).holdings.Single := by
    refine Transition.exec_invariant_of (I := Known platform secrets rows)
      (J := fun s => s.holdings.Single) (fun _ a h => h.step a) ?_ (known_init rows)
      (single_init rows) has
    intro s a hknown hsingle ha
    obtain heq | hstep := holdings_step hknown a ha
    · rw [heq]
      exact hsingle
    · exact hsingle.step hstep
  exact ⟨hsingle.nodup, (known_exec rows as).redeemed⟩

end SingleUse

section Runs

/-- A platform whose digest knows lengths only, and one instance. -/
def samplePlatform : OAuthPlatform where
  url := ⟨fun _ => some ⟨"https:", "", "", "gitlab.com"⟩, fun _ => 0, id⟩
  hmacSha256 secret payload :=
    [secret, payload].map fun s => ⟨s.length % 256, Nat.mod_lt _ (by decide)⟩
  sha256Base64url := id

def sampleConfig : OAuthConfig :=
  ⟨"https://gitlab.com", "client", "secret", "https://pod/oauth/callback", "https://pod"⟩

def sampleRow : OAuthStateDoc :=
  { id := "1"
    kind := some "user"
    state := "0322"
    statePayload := "user|ws|person|nonce|1700000000000"
    nonce := "nonce"
    codeVerifier := "verifier"
    workspaceUuid := "ws"
    hulyProjectRef := none
    hulyPersonUuid := some "person"
    gitlabBaseUrl := "https://gitlab.com"
    returnTo := none
    expiresAt := 1700000600000 }

def sampleRows : StateRows := ⟨[sampleRow], List.nodup_singleton _, List.nodup_singleton _⟩

example : (userStart samplePlatform sampleConfig none ⟨"key", none⟩
    ⟨"1", "nonce", "verifier", 1700000000000⟩ "ws" "person" (some "https://gitlab.com") none).map
      Prod.fst = .ok sampleRow := by decide +kernel

/-- The callback is requested twice, one request after the other, and by the other router. -/
theorem redeemsOnce_sequential :
    Transition.Throughout (step samplePlatform sampleConfig none ⟨"key", none⟩)
      (RedeemsOnce samplePlatform ⟨"key", none⟩ sampleRows) (init sampleRows)
      [.arrive .user (some "0322") (some "code"), .arrive .user (some "0322") (some "code"),
        .arrive .admin (some "0322") (some "code"), .found 0 1700000001000, .found 2 1700000001000,
        .deleted 0, .found 1 1700000002000] :=
  redeemsOnce_of_alone sampleRows _ (by decide +kernel)

/-- Two requests look the state up before either deletes it, and both redeem it. -/
theorem not_redeemsOnce_concurrent :
    ¬ Transition.Throughout (step samplePlatform sampleConfig none ⟨"key", none⟩)
      (RedeemsOnce samplePlatform ⟨"key", none⟩ sampleRows) (init sampleRows)
      [.arrive .user (some "0322") (some "code"), .arrive .user (some "0322") (some "code"),
        .found 0 1700000001000, .found 1 1700000001000, .deleted 0, .deleted 1] := by
  intro h
  exact absurd h.last.1 (by decide +kernel)

end Runs

end CallbackSystem

end HulyGitlab.OAuth
