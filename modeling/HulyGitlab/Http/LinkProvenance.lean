import HulyGitlab.Http.AccountLinks

/-!
# Where the tokens of an account come from and go to

A stored token was given by the instance of its key, for a flow that the person
of the key began, and it travels to no other instance.
-/

namespace HulyGitlab.AccountLinks

open OAuth CookieAuth

section Callbacks

variable {P : OAuthStateDoc → Prop} {k : Nat}

/-- The row that a user's request has found and will redeem. -/
def heldRow (r : CallbackRequest) : Option OAuthStateDoc :=
  match r.router, r.stage with
  | .user, .redeeming doc _ => some doc
  | _, _ => none

/-- The rows of users are of this kind, stored, held by a callback, or redeemed since the number
`k`. -/
structure AllRows (P : OAuthStateDoc → Prop) (k : Nat) (c : CallbackSystem) : Prop where
  stored : ∀ doc ∈ c.rows.docs, doc.kind = some "user" → P doc
  held : ∀ i r, c.requests.get? i = some r → ∀ doc ∈ heldRow r, P doc
  redeemed : ∀ n x, k ≤ n → c.redemptions[n]? = some x → x.request.router = .user → P x.doc

namespace AllRows

variable {c : CallbackSystem} {rows : StateRows}

theorem heldRow_eq_none {r : CallbackRequest} (h : ∀ doc t, r.stage ≠ .redeeming doc t) :
    heldRow r = none := by
  unfold heldRow
  split
  · rename_i doc t _ hstage
    exact absurd hstage (h doc t)
  · rfl

theorem withRows (h : AllRows P k c) (hrows : ∀ doc ∈ rows.docs, doc.kind = some "user" → P doc) :
    AllRows P k { c with rows } :=
  ⟨hrows, h.held, h.redeemed⟩

theorem deleteOne (h : AllRows P k c) (p : OAuthStateDoc → Bool) :
    AllRows P k { c with rows := c.rows.deleteOne p } :=
  h.withRows fun doc hdoc => h.stored doc (List.mem_of_mem_eraseP hdoc)

theorem setStage (h : AllRows P k c) {i : Nat} {r : CallbackRequest}
    (hr : c.requests.get? i = some r) {stage : Stage}
    (hstage : ∀ doc ∈ heldRow { r with stage }, P doc) :
    AllRows P k (c.setStage i r stage) where
  stored := h.stored
  held := Registry.forall_update hr hstage fun j u _ hu => h.held j u hu
  redeemed := h.redeemed

/-- A request that goes on to anything but the delete of its row. -/
theorem leave (h : AllRows P k c) {i : Nat} {r : CallbackRequest}
    (hr : c.requests.get? i = some r) {stage : Stage}
    (hstage : ∀ doc t, stage ≠ .redeeming doc t) : AllRows P k (c.setStage i r stage) := by
  apply h.setStage hr
  rw [heldRow_eq_none hstage]
  exact fun _ hdoc => by cases hdoc

theorem add (h : AllRows P k c) {r : CallbackRequest} (hr : ∀ doc t, r.stage ≠ .redeeming doc t) :
    AllRows P k { c with requests := c.requests.add r } where
  stored := h.stored
  held := by
    refine Registry.forall_add ?_ h.held
    rw [heldRow_eq_none hr]
    exact fun _ hdoc => by cases hdoc
  redeemed := h.redeemed

theorem redeem (h : AllRows P k c) {platform : OAuthPlatform} {config : OAuthConfig}
    {allowedHosts : Option String} {i : Nat} {r : CallbackRequest}
    (hr : c.requests.get? i = some r) {doc : OAuthStateDoc} {t : Nat}
    (hdoc : r.router = .user → P doc) :
    AllRows P k (c.redeem platform config allowedHosts i r doc t) := by
  have hdeleted := h.deleteOne (CallbackSystem.deletesRow r.router doc)
  unfold CallbackSystem.redeem
  dsimp only
  split
  · have hexchanging : ∀ doc t, Stage.exchanging ≠ .redeeming doc t := by rintro doc t ⟨⟩
    have hset := hdeleted.leave hr hexchanging
    refine ⟨hset.stored, hset.held, fun n x hn hx hrouter => ?_⟩
    rw [List.getElem?_append] at hx
    split at hx
    · exact h.redeemed n x hn hx hrouter
    · obtain rfl := List.mem_singleton.mp (List.mem_of_getElem? hx)
      exact hdoc hrouter
  · exact hdeleted.leave hr (by rintro doc t ⟨⟩)

/-- A user's request holds the row that it has found. -/
theorem of_stageAfterFind (h : AllRows P k c) {platform : OAuthPlatform} {secrets : SecretConfig}
    {r : CallbackRequest} {now : Nat} (hrouter : r.router = .user) {doc : OAuthStateDoc} {t : Nat}
    (hstage : CallbackSystem.stageAfterFind platform secrets c.rows r now = .redeeming doc t) :
    P doc := by
  obtain ⟨hmem, -, hchecked⟩ :=
    CallbackSystem.checked_of_stageAfterFind (fun _ hd => hd : ∀ d ∈ c.rows.docs, d ∈ c.rows.docs)
      hstage
  have hmatches := hchecked.matches_
  rw [hrouter] at hmatches
  exact h.stored doc hmem (of_decide_eq_true (Bool.and_eq_true_iff.mp hmatches).2)

theorem step (h : AllRows P k c) (platform : OAuthPlatform) (config : OAuthConfig)
    (allowedHosts : Option String) (secrets : SecretConfig) (a : CallbackAction) :
    AllRows P k (c.step platform config allowedHosts secrets a) := by
  cases a with
  | arrive router state code =>
    unfold CallbackSystem.step
    dsimp only
    split
    · exact h.add (by rintro doc t ⟨⟩)
    · exact h.add (by rintro doc t ⟨⟩)
    · exact h.add (by rintro doc t ⟨⟩)
  | found i now =>
    unfold CallbackSystem.step
    dsimp only
    split
    · exact h
    · rename_i r hr
      split
      · refine h.setStage hr fun doc hdoc => ?_
        unfold heldRow at hdoc
        split at hdoc
        · rename_i found t hrouter hstage
          cases hdoc
          exact h.of_stageAfterFind hrouter hstage
        · cases hdoc
      · exact h
  | deleted i =>
    unfold CallbackSystem.step
    dsimp only
    split
    · exact h
    · rename_i r hr
      split
      · exact (h.deleteOne _).leave hr (by rintro doc t ⟨⟩)
      · rename_i doc t hstage
        refine h.redeem hr fun hrouter => h.held i r hr doc ?_
        rw [heldRow, hrouter, hstage]
        rfl
      · exact h
  | fail i =>
    unfold CallbackSystem.step
    dsimp only
    split
    · exact h
    · rename_i r hr
      split
      · exact h.leave hr (by rintro doc t ⟨⟩)
      · exact h.leave hr (by rintro doc t ⟨⟩)
      · exact h.leave hr (by rintro doc t ⟨⟩)
      · exact h
  | expire now =>
    exact h.withRows fun doc hdoc => h.stored doc (List.mem_of_mem_filter hdoc)

end AllRows

/-- Redemptions are only added. -/
theorem redemptions_step (c : CallbackSystem) (platform : OAuthPlatform) (config : OAuthConfig)
    (allowedHosts : Option String) (secrets : SecretConfig) (a : CallbackAction) :
    ∃ more,
      (c.step platform config allowedHosts secrets a).redemptions = c.redemptions ++ more := by
  have hsame : ∃ more, c.redemptions = c.redemptions ++ more := ⟨[], by simp⟩
  cases a with
  | arrive router state code =>
    unfold CallbackSystem.step
    dsimp only
    split <;> exact hsame
  | found i now =>
    unfold CallbackSystem.step
    dsimp only
    split
    · exact hsame
    · split <;> exact hsame
  | deleted i =>
    unfold CallbackSystem.step
    dsimp only
    split
    · exact hsame
    · split
      · exact hsame
      · unfold CallbackSystem.redeem
        dsimp only
        split
        · exact ⟨_, rfl⟩
        · exact hsame
      · exact hsame
  | fail i =>
    unfold CallbackSystem.step
    dsimp only
    split
    · exact hsame
    · split <;> exact hsame
  | expire now => exact hsame

theorem mem_insertOne {rows rows' : StateRows} {doc : OAuthStateDoc}
    (h : insertOne rows doc = some rows') {d : OAuthStateDoc} (hd : d ∈ rows'.docs) :
    d ∈ rows.docs ∨ d = doc := by
  unfold insertOne at h
  split at h
  · cases h
    simpa using hd
  · cases h

end Callbacks

/-- The tokens that GitLab has given, each for an account. -/
abbrev Issued := List (UserCredentialKey × String)

section Owned

variable (refresher : OAuthRefresherDeps) (issued : Issued) (key : UserCredentialKey)

/-- The text that is stored is a token of the account. -/
def EncryptsOwn (enc : Encrypted) : Prop :=
  ∃ token, RefreshRace.textOf refresher enc = some token ∧ (key, token) ∈ issued

/-- Both tokens of a row are tokens of the account. -/
structure RowOwned (doc : UserCredentialDoc) : Prop where
  access : EncryptsOwn refresher issued key doc.value
  refresh : ∀ enc ∈ doc.refreshToken, EncryptsOwn refresher issued key enc

/-- A pair of tokens of the account. -/
structure PairOwned (accessToken : String) (refreshToken : Option String) : Prop where
  access : (key, accessToken) ∈ issued
  refresh : ∀ t ∈ refreshToken, (key, t) ∈ issued

/-- The tokens that a callback still carries. -/
def FlowOwned : Flow → Prop
  | .lookingUp accessToken refreshToken _ => PairOwned issued key accessToken refreshToken
  | .storing input => PairOwned issued key input.accessToken input.refreshToken
  | _ => True

/-- The tokens that a refresh has got. -/
def OutcomeOwned : RefreshOutcome → Prop
  | .rotate accessToken refreshToken _ => PairOwned issued key accessToken refreshToken
  | _ => True

/-- The tokens that a write brings. -/
def OpOwned : LinkOp → Prop
  | .put _ _ _ input => PairOwned issued key input.accessToken input.refreshToken
  | .rotate _ _ input => PairOwned issued key input.accessToken input.refreshToken
  | .markExpired => True

variable {refresher issued key} {more : Issued}

theorem EncryptsOwn.mono {enc : Encrypted} (h : EncryptsOwn refresher issued key enc)
    (hsub : issued ⊆ more) : EncryptsOwn refresher more key enc := by
  obtain ⟨token, htext, hmem⟩ := h
  exact ⟨token, htext, hsub hmem⟩

theorem RowOwned.mono {doc : UserCredentialDoc} (h : RowOwned refresher issued key doc)
    (hsub : issued ⊆ more) : RowOwned refresher more key doc :=
  ⟨h.access.mono hsub, fun enc henc => (h.refresh enc henc).mono hsub⟩

theorem PairOwned.mono {accessToken : String} {refreshToken : Option String}
    (h : PairOwned issued key accessToken refreshToken) (hsub : issued ⊆ more) :
    PairOwned more key accessToken refreshToken :=
  ⟨hsub h.access, fun t ht => hsub (h.refresh t ht)⟩

theorem FlowOwned.mono {flow : Flow} (h : FlowOwned issued key flow) (hsub : issued ⊆ more) :
    FlowOwned more key flow := by
  cases flow with
  | lookingUp accessToken refreshToken expiresIn => exact PairOwned.mono h hsub
  | storing input => exact PairOwned.mono h hsub
  | exchanging => trivial
  | answered answer => trivial
  | linked => trivial

theorem OutcomeOwned.mono {outcome : RefreshOutcome} (h : OutcomeOwned issued key outcome)
    (hsub : issued ⊆ more) : OutcomeOwned more key outcome := by
  cases outcome with
  | rotate accessToken refreshToken expiresAt => exact PairOwned.mono h hsub
  | skip => trivial
  | markExpired => trivial

theorem encryptsOwn_encryptValue {token : String} (h : (key, token) ∈ issued) (iv : String) :
    EncryptsOwn refresher issued key
      (refresher.cipher.encryptValue token iv refresher.encryptionKey) := by
  refine ⟨token, ?_, h⟩
  rw [RefreshRace.textOf, refresher.cipher.decrypt_encrypt]
  rfl

/-- A refresh token that is left out stays the one that was there. -/
theorem encryptsOwn_orElse {refreshToken : Option String} {old : Option Encrypted}
    (hnew : ∀ t ∈ refreshToken, (key, t) ∈ issued)
    (hold : ∀ enc ∈ old, EncryptsOwn refresher issued key enc) (refreshIv : String) :
    ∀ enc ∈ (refreshToken.map fun text => refresher.cipher.encryptValue text refreshIv
      refresher.encryptionKey).orElse fun _ => old, EncryptsOwn refresher issued key enc := by
  cases refreshToken with
  | none => exact hold
  | some t =>
    rintro _ ⟨⟩
    exact encryptsOwn_encryptValue (hnew t rfl) refreshIv

/-- A write of tokens of the account leaves such tokens. -/
theorem rowOwned_rowAfter {row : Option UserCredentialDoc} {doc : UserCredentialDoc}
    (hrow : ∀ old ∈ row, RowOwned refresher issued key old) {op : LinkOp}
    (hop : OpOwned issued key op)
    (h : rowAfter refresher.cipher refresher.encryptionKey row op = some doc) :
    RowOwned refresher issued key doc := by
  cases op with
  | put iv refreshIv now input =>
    cases h
    refine ⟨encryptsOwn_encryptValue hop.access iv, encryptsOwn_orElse hop.refresh ?_ _⟩
    intro enc henc
    obtain ⟨old, hold, henc⟩ := Option.bind_eq_some_iff.mp henc
    exact (hrow old hold).refresh enc henc
  | rotate iv refreshIv input =>
    obtain ⟨old, hold, rfl⟩ := Option.map_eq_some_iff.mp h
    exact ⟨encryptsOwn_encryptValue hop.access iv,
      encryptsOwn_orElse hop.refresh (hrow old hold).refresh _⟩
  | markExpired =>
    obtain ⟨old, hold, rfl⟩ := Option.map_eq_some_iff.mp h
    exact ⟨(hrow old hold).access, (hrow old hold).refresh⟩

theorem rowOwned_written {row : Option CredentialRow} {snapshot new : CredentialRow}
    (hrow : ∀ old ∈ row, RowOwned refresher issued key old.doc) {outcome : RefreshOutcome}
    (houtcome : OutcomeOwned issued key outcome) {iv refreshIv : String}
    (h : RefreshRace.written refresher row snapshot iv refreshIv outcome = some new) :
    RowOwned refresher issued key new.doc := by
  have hwrite : ∀ op, OpOwned issued key op → RefreshRace.writeRow refresher row op = some new →
      RowOwned refresher issued key new.doc := by
    intro op hop hwritten
    obtain ⟨old, hold, hdoc⟩ := Option.bind_eq_some_iff.mp hwritten
    obtain ⟨doc, hafter, rfl⟩ := Option.map_eq_some_iff.mp hdoc
    refine rowOwned_rowAfter ?_ hop hafter
    rintro _ ⟨⟩
    exact hrow old hold
  cases outcome with
  | skip => exact hrow new h
  | rotate accessToken refreshToken expiresAt =>
    exact hwrite (.rotate iv refreshIv ⟨accessToken, refreshToken, some (some expiresAt)⟩) houtcome
      h
  | markExpired =>
    unfold RefreshRace.written at h
    dsimp only at h
    split at h
    · exact hwrite .markExpired trivial h
    · exact hrow new h

end Owned

section Runs

variable {F : Type} (deps : LinkDeps F)

/-- Every token is where it belongs; `Begun` are the accounts that a flow was begun for. -/
structure Sound (Begun : UserCredentialKey → Prop) (s : Accounts) : Prop where
  rows : AllRows (fun doc => Begun (keyOf doc)) 0 s.callbacks
  unused : ∀ n, s.callbacks.redemptions.length ≤ n → s.flows n = .exchanging
  flows : ∀ n x, s.userRedemption n = some x → FlowOwned s.issued (keyOf x.doc) (s.flows n)
  stored : ∀ key row, s.credentials.get? key = some row →
    RowOwned deps.refresher s.issued key row.doc
  refreshes : ∀ i x, s.refreshes.get? i = some x →
    RowOwned deps.refresher s.issued x.key x.flight.snapshot.doc ∧
      ∀ outcome ∈ x.flight.outcome, OutcomeOwned s.issued x.key outcome
  sent : ∀ x ∈ s.sent, (x.key, x.token) ∈ s.issued
  begun : ∀ p ∈ s.issued, Begun p.1

namespace Sound

variable {deps} {Begun : UserCredentialKey → Prop} {s : Accounts}

theorem init : Sound deps Begun Accounts.init where
  rows := ⟨fun _ h _ => absurd h List.not_mem_nil, fun _ _ h => (by cases h),
    fun _ _ _ h => (by cases h)⟩
  unused _ _ := rfl
  flows _ _ h := by cases h
  stored _ _ h := by cases h
  refreshes _ _ h := by cases h
  sent _ h := absurd h List.not_mem_nil
  begun _ h := absurd h List.not_mem_nil

/-- The account of a redemption was begun. -/
theorem begun_userRedemption (h : Sound deps Begun s) {n : Nat} {x : Redemption}
    (hx : s.userRedemption n = some x) : Begun (keyOf x.doc) := by
  obtain ⟨hget, hrouter⟩ := Option.filter_eq_some_iff.mp hx
  exact h.rows.redeemed n x (Nat.zero_le n) hget (of_decide_eq_true hrouter)

theorem lt_of_userRedemption {n : Nat} {x : Redemption} (hx : s.userRedemption n = some x) :
    n < s.callbacks.redemptions.length := by
  obtain ⟨hget, -⟩ := Option.filter_eq_some_iff.mp hx
  exact (List.getElem?_eq_some_iff.mp hget).1

theorem insertState (h : Sound deps Begun s) {doc : OAuthStateDoc}
    (hdoc : doc.kind = some "user" → Begun (keyOf doc)) : Sound deps Begun (s.insertState doc) := by
  unfold Accounts.insertState
  split
  · rename_i rows hrows
    refine { h with rows := h.rows.withRows fun d hd hkind => ?_ }
    obtain hd | rfl := mem_insertOne hrows hd
    · exact h.rows.stored d hd hkind
    · exact hdoc hkind
  · exact h

theorem setFlow (h : Sound deps Begun s) {n : Nat} {x : Redemption}
    (hx : s.userRedemption n = some x) {flow : Flow}
    (hflow : FlowOwned s.issued (keyOf x.doc) flow) : Sound deps Begun (s.setFlow n flow) where
  rows := h.rows
  unused m hm := by
    have hne : m ≠ n := by
      have hlt := lt_of_userRedemption hx
      rintro rfl
      exact absurd hm (Nat.not_le.mpr hlt)
    exact (Function.update_of_ne hne ..).trans (h.unused m hm)
  flows m y hy := by
    by_cases hm : m = n
    · subst hm
      obtain rfl : x = y := Option.some.inj (hx.symm.trans hy)
      have hset : (s.setFlow m flow).flows m = flow := Function.update_self ..
      rw [hset]
      exact hflow
    · have hset : (s.setFlow n flow).flows m = s.flows m := Function.update_of_ne hm ..
      rw [hset]
      exact h.flows m y hy
  stored := h.stored
  refreshes := h.refreshes
  sent := h.sent
  begun := h.begun

theorem issue (h : Sound deps Begun s) {key : UserCredentialKey} (hkey : Begun key)
    (accessToken : String) (refreshToken : Option String) :
    Sound deps Begun (s.issue key accessToken refreshToken) := by
  have hsub : s.issued ⊆ (s.issue key accessToken refreshToken).issued :=
    List.subset_append_left _ _
  exact {
    rows := h.rows
    unused := h.unused
    flows := fun n x hx => (h.flows n x hx).mono hsub
    stored := fun key row hrow => (h.stored key row hrow).mono hsub
    refreshes := fun i x hx =>
      ⟨(h.refreshes i x hx).1.mono hsub, fun o ho => ((h.refreshes i x hx).2 o ho).mono hsub⟩
    sent := fun x hx => hsub (h.sent x hx)
    begun := fun p hp => by
      obtain hp | hp := List.mem_append.mp hp
      · exact h.begun p hp
      · obtain ⟨t, -, rfl⟩ := List.mem_map.mp hp
        exact hkey }

theorem pairOwned_issue (key : UserCredentialKey) (accessToken : String)
    (refreshToken : Option String) :
    PairOwned (s.issue key accessToken refreshToken).issued key accessToken refreshToken where
  access := List.mem_append_right _ (List.mem_map_of_mem List.mem_cons_self)
  refresh _ ht := List.mem_append_right _ (List.mem_map_of_mem
    (List.mem_cons_of_mem _ (Option.mem_toList.mpr ht)))

theorem send (h : Sound deps Begun s) {key : UserCredentialKey} {token : String}
    (hmem : (key, token) ∈ s.issued) (use : TokenUse) :
    Sound deps Begun (s.send use key token) := by
  refine { h with sent := fun x hx => ?_ }
  obtain hx | hx := List.mem_append.mp hx
  · exact h.sent x hx
  · obtain rfl := List.mem_singleton.mp hx
    exact hmem

theorem sendStored (h : Sound deps Begun s) {key : UserCredentialKey} {row : CredentialRow}
    (hrow : s.credentials.get? key = some row) (use : TokenUse) :
    Sound deps Begun (s.sendStored deps use key row) := by
  obtain ⟨token, htext, hmem⟩ := (h.stored key row hrow).access
  unfold Accounts.sendStored
  rw [htext]
  dsimp only
  split
  · exact h.send hmem use
  · exact h

theorem setRow (h : Sound deps Begun s) (key : UserCredentialKey) {row : Option CredentialRow}
    (hrow : ∀ new ∈ row, RowOwned deps.refresher s.issued key new.doc) :
    ∀ k r, (AccountLinks.setRow s.credentials key row).get? k = some r →
      RowOwned deps.refresher s.issued k r.doc := by
  intro k r hr
  cases row with
  | none =>
    rw [AccountLinks.setRow, OrderedMap.get?_delete] at hr
    split at hr
    · cases hr
    · exact h.stored k r hr
  | some new =>
    rw [AccountLinks.setRow, OrderedMap.get?_set] at hr
    split at hr
    · rename_i hk
      cases hr
      exact hk ▸ hrow r rfl
    · exact h.stored k r hr

/-- One row is written. -/
theorem write (h : Sound deps Begun s) (key : UserCredentialKey) (row : Option CredentialRow)
    (hrow : ∀ new ∈ row, RowOwned deps.refresher s.issued key new.doc) :
    Sound deps Begun { s with credentials := AccountLinks.setRow s.credentials key row } :=
  { h with stored := h.setRow key hrow }

theorem oldRow (h : Sound deps Begun s) (key : UserCredentialKey) :
    ∀ old ∈ (s.credentials.get? key).map (·.doc), RowOwned deps.refresher s.issued key old := by
  intro old hold
  obtain ⟨row, hrow, rfl⟩ := Option.map_eq_some_iff.mp hold
  exact h.stored key row hrow

theorem putRow (h : Sound deps Begun s) {n : Nat} {x : Redemption}
    (hx : s.userRedemption n = some x) {input : PutUserCredentialInput}
    (hflow : s.flows n = .storing input) (now : Nat) (iv refreshIv : String) :
    Sound deps Begun (s.putRow deps n now (keyOf x.doc) iv refreshIv input) := by
  have howned : OpOwned s.issued (keyOf x.doc) (.put iv refreshIv now input) := by
    have hflows := h.flows n x hx
    rwa [hflow] at hflows
  have hlinked : Sound deps Begun (s.setFlow n .linked) := h.setFlow hx trivial
  refine { hlinked with stored := h.setRow (keyOf x.doc) fun new hnew => ?_ }
  obtain ⟨doc, hafter, rfl⟩ := Option.map_eq_some_iff.mp hnew
  exact rowOwned_rowAfter (h.oldRow _) howned hafter

theorem readTokens (h : Sound deps Begun s) {n : Nat} {x : Redemption}
    (hx : s.userRedemption n = some x) (reply : TokenReply) :
    Sound deps Begun (s.readTokens n (keyOf x.doc) reply) := by
  have hother : ∀ flow, exchanged reply = flow →
      (∀ accessToken refreshToken expiresIn,
        flow ≠ .lookingUp accessToken refreshToken expiresIn) →
      FlowOwned s.issued (keyOf x.doc) flow := by
    intro flow hflow hne
    unfold exchanged at hflow
    split at hflow
    · cases hflow
      trivial
    · split at hflow
      · split at hflow
        · cases hflow
          trivial
        · exact absurd hflow.symm (hne _ _ _)
      · cases hflow
        trivial
  unfold Accounts.readTokens
  split
  · rename_i accessToken refreshToken expiresIn hflow
    have hissued := h.issue (h.begun_userRedemption hx) accessToken refreshToken
    have hpair := pairOwned_issue (s := s) (keyOf x.doc) accessToken refreshToken
    have hset : Sound deps Begun ((s.issue (keyOf x.doc) accessToken refreshToken).setFlow n
        (.lookingUp accessToken refreshToken expiresIn)) := hissued.setFlow hx hpair
    exact hset.send hpair.access .userLookup
  · rename_i hne
    exact h.setFlow hx (hother _ rfl fun _ _ _ heq => hne _ _ _ heq)

theorem begun_refresh (h : Sound deps Begun s) {i : Nat} {x : RefreshOf}
    (hx : s.refreshes.get? i = some x) : Begun x.key := by
  obtain ⟨token, -, hmem⟩ := (h.refreshes i x hx).1.access
  exact h.begun _ hmem

theorem sendRefresh (h : Sound deps Begun s) {i : Nat} {x : RefreshOf}
    (hx : s.refreshes.get? i = some x) : Sound deps Begun (s.sendRefresh deps x) := by
  unfold Accounts.sendRefresh
  split
  · exact h
  · rename_i token htoken
    unfold RefreshRace.sentToken at htoken
    split at htoken
    · obtain ⟨enc, henc, htext⟩ := Option.bind_eq_some_iff.mp htoken
      obtain ⟨own, hown, hmem⟩ := (h.refreshes i x hx).1.refresh enc henc
      obtain rfl : own = token := Option.some.inj (hown.symm.trans htext)
      exact h.send hmem .refresh
    · cases htoken

theorem issueOutcome (h : Sound deps Begun s) {key : UserCredentialKey} (hkey : Begun key)
    (outcome : RefreshOutcome) :
    Sound deps Begun (s.issueOutcome key outcome) ∧
      OutcomeOwned (s.issueOutcome key outcome).issued key outcome := by
  cases outcome with
  | rotate accessToken refreshToken expiresAt =>
    exact ⟨h.issue hkey accessToken refreshToken, pairOwned_issue key accessToken refreshToken⟩
  | skip => exact ⟨h, trivial⟩
  | markExpired => exact ⟨h, trivial⟩

theorem refreshes_issueOutcome (key : UserCredentialKey) (outcome : RefreshOutcome) :
    (s.issueOutcome key outcome).refreshes = s.refreshes := by
  cases outcome <;> rfl

theorem refreshes_sendRefresh (x : RefreshOf) :
    (s.sendRefresh deps x).refreshes = s.refreshes := by
  unfold Accounts.sendRefresh
  split <;> rfl

theorem requestRefresh (h : Sound deps Begun s) {i : Nat} {x : RefreshOf}
    (hx : s.refreshes.get? i = some x) (now : Nat) (reply : TokenReply) :
    Sound deps Begun (s.requestRefresh deps i now x reply) := by
  obtain ⟨hsound, howned⟩ := (h.sendRefresh hx).issueOutcome (h.begun_refresh hx)
    (refreshOutcome deps.refresher now (some x.key.gitlabBaseUrl)
      x.flight.snapshot.doc.refreshToken fun _ => reply)
  have hflights := hsound.refreshes
  rw [refreshes_issueOutcome, refreshes_sendRefresh] at hflights
  unfold Accounts.requestRefresh
  dsimp only
  refine { hsound with refreshes := ?_ }
  refine Registry.forall_update hx ⟨(hflights i x hx).1, ?_⟩ fun j y _ hy => hflights j y hy
  rintro _ ⟨⟩
  exact howned

end Sound

section Steps

variable [LT F] [DecidableLT F]

/-- Someone with a cookie of the person begins a flow with the instance of the key. -/
def BeginsFor (key : UserCredentialKey) : AccountAction F → Prop
  | .start cookie now _ gitlabBaseUrl _ =>
      ∃ baseUrl ∈ nonEmpty gitlabBaseUrl, Accounts.account deps cookie now baseUrl = some key
  | _ => False

variable {deps} {Begun : UserCredentialKey → Prop} {s : Accounts}

omit [LT F] [DecidableLT F] in
/-- The row of a flow is for the person and the instance it was begun with. -/
theorem keyOf_userStart {platform : OAuthPlatform} {config : OAuthConfig}
    {allowedHosts : Option String} {secrets : SecretConfig} {drawn : Drawn}
    {workspaceUuid hulyPersonUuid : String} {gitlabBaseUrl safeReturnTo : Option String}
    {doc : OAuthStateDoc} {url : AuthorizeUrl}
    (h : userStart platform config allowedHosts secrets drawn workspaceUuid hulyPersonUuid
      gitlabBaseUrl safeReturnTo = .ok (doc, url)) :
    ∃ baseUrl ∈ nonEmpty gitlabBaseUrl, keyOf doc = ⟨workspaceUuid, hulyPersonUuid, baseUrl⟩ := by
  unfold userStart at h
  split at h
  · cases h
  · rename_i baseUrl hbase
    split at h
    · cases h
      exact ⟨baseUrl, hbase, rfl⟩
    · cases h

variable (deps s) in
/-- A callback's step leaves the redemptions that were made before. -/
theorem userRedemption_callback (a : CallbackAction) :
    s.callbacks.redemptions.length ≤ (s.step deps (.callback a)).callbacks.redemptions.length ∧
      ∀ n < s.callbacks.redemptions.length,
        (s.step deps (.callback a)).userRedemption n = s.userRedemption n := by
  obtain ⟨more, hmore⟩ := redemptions_step s.callbacks deps.oauth deps.config
    deps.refresher.allowedHosts deps.secrets a
  have hstep : (s.step deps (.callback a)).callbacks.redemptions =
      s.callbacks.redemptions ++ more := hmore
  constructor
  · rw [hstep, List.length_append]
    omega
  · intro n hn
    rw [Accounts.userRedemption, hstep, List.getElem?_append_left hn]
    rfl

theorem Sound.step (h : Sound deps Begun s) {a : AccountAction F}
    (hbegun : ∀ key, BeginsFor deps key a → Begun key) : Sound deps Begun (s.step deps a) := by
  cases a with
  | start cookie now drawn gitlabBaseUrl safeReturnTo =>
    unfold Accounts.step
    dsimp only
    split
    · rename_i identity hcookie
      split
      · rename_i doc url hstart
        obtain ⟨baseUrl, hbase, hkey⟩ := keyOf_userStart hstart
        refine h.insertState fun _ => hkey ▸ hbegun _ ⟨baseUrl, hbase, ?_⟩
        rw [Accounts.account, hcookie]
      · exact h
    · exact h
  | adminStart drawn workspaceUuid hulyProjectRef gitlabBaseUrl =>
    unfold Accounts.step
    dsimp only
    split
    · rename_i doc url hstart
      refine h.insertState fun hkind => ?_
      rw [(begins_of_adminStart hstart).kind] at hkind
      cases hkind
    · exact h
  | callback a =>
    obtain ⟨hlength, hold⟩ := userRedemption_callback deps s a
    refine { h with
      rows := h.rows.step _ _ _ _ a
      unused := fun n hn => h.unused n (hlength.trans hn)
      flows := fun n x hx => ?_ }
    by_cases hn : n < s.callbacks.redemptions.length
    · rw [hold n hn] at hx
      exact h.flows n x hx
    · rw [show (s.step deps (.callback a)).flows n = .exchanging from
        h.unused n (Nat.not_lt.mp hn)]
      trivial
  | tokenReply n reply =>
    unfold Accounts.step
    dsimp only
    split
    · rename_i x hx hflow
      exact h.readTokens hx reply
    · exact h
  | userReply n now reply =>
    unfold Accounts.step
    dsimp only
    split
    · rename_i x accessToken refreshToken expiresIn hx hflow
      have howned := h.flows n x hx
      rw [hflow] at howned
      refine h.setFlow hx ?_
      unfold lookedUp
      split
      · trivial
      · split
        · split
          · trivial
          · exact howned
        · trivial
    · exact h
  | store n now iv refreshIv =>
    unfold Accounts.step
    dsimp only
    split
    · rename_i x input hx hflow
      exact h.putRow hx hflow now iv refreshIv
    · exact h
  | storeFails n =>
    unfold Accounts.step
    dsimp only
    split
    · rename_i x input hx hflow
      exact h.setFlow hx trivial
    · exact h
  | disconnect cookie now gitlabBaseUrl =>
    unfold Accounts.step
    dsimp only
    split
    · exact h
    · split
      · exact h
      · rename_i key hkey
        split
        · exact h.write key none fun _ hnew => by cases hnew
        · exact h
  | applySuggestion cookie now gitlabBaseUrl suggestionId =>
    unfold Accounts.step
    dsimp only
    split
    · exact h
    · split
      · exact h
      · rename_i key hkey row hrow
        exact h.sendStored hrow _
  | approval key now kind projectId mrIid =>
    unfold Accounts.step
    dsimp only
    split
    · exact h
    · rename_i row hrow
      split
      · exact h
      · exact h.sendStored hrow _
  | readForRefresh key now =>
    unfold Accounts.step
    dsimp only
    split
    · exact h
    · rename_i row hrow
      split
      · refine { h with refreshes := Registry.forall_add ?_ h.refreshes }
        exact ⟨h.stored key row hrow, fun _ houtcome => by cases houtcome⟩
      · exact h
  | refreshReply i now reply =>
    unfold Accounts.step
    dsimp only
    split
    · rename_i key snapshot hx
      exact h.requestRefresh hx now reply
    · exact h
  | writeBack i iv refreshIv =>
    unfold Accounts.step
    dsimp only
    split
    · rename_i key snapshot outcome hx
      have houtcome := (h.refreshes i _ hx).2 outcome rfl
      have hwritten := h.write key (RefreshRace.written deps.refresher
        (s.credentials.get? key) snapshot iv refreshIv outcome)
        fun new hnew => rowOwned_written (fun old hold => h.stored key old hold) houtcome hnew
      exact { hwritten with
        refreshes := fun j y hy => h.refreshes j y (Registry.get?_of_get?_remove hy).2 }
    · exact h

variable (deps) in
/-- In every run the stored tokens of an account were given by its instance for it, every request
that carries a token is made for the account the token was given for, and so to its instance, and
tokens are only given for accounts that someone with a cookie of the person began a flow for. -/
theorem tokens_stay (acts : List (AccountAction F)) :
    let s := Transition.exec (Accounts.step deps) Accounts.init acts
    (∀ key row, s.credentials.get? key = some row →
        RowOwned deps.refresher s.issued key row.doc) ∧
      (∀ x ∈ s.sent, (x.key, x.token) ∈ s.issued) ∧
      ∀ p ∈ s.issued, ∃ a ∈ acts, BeginsFor deps p.1 a := by
  have hsound : ∀ as, as ⊆ acts → Sound deps (fun key => ∃ a ∈ acts, BeginsFor deps key a)
      (Transition.exec (Accounts.step deps) Accounts.init as) := by
    intro as
    induction as using List.reverseRecOn with
    | nil => exact fun _ => Sound.init
    | append_singleton as a ih =>
      intro hsub
      rw [Transition.exec_concat]
      apply (ih fun b hb => hsub (List.mem_append_left _ hb)).step
      exact fun key hkey => ⟨a, hsub (List.mem_append_right _ (List.mem_singleton_self a)), hkey⟩
  have hall := hsound acts (fun _ h => h)
  exact ⟨hall.stored, hall.sent, hall.begun⟩

/-- Cookies that are not encoded, with a digest that knows lengths only. -/
def sampleCookies : CookiePlatform ℕ where
  hmacSha256 := CallbackSystem.samplePlatform.hmacSha256
  toBase64url := id
  fromBase64url := id
  numberText n := Nat.toDigits 10 n
  readNumber t := if t.all Char.isDigit then some (Nat.ofDigitChars 10 t 0) else none

def sampleDeps : LinkDeps ℕ where
  oauth := CallbackSystem.samplePlatform
  cookie := sampleCookies
  config := CallbackSystem.sampleConfig
  secrets := ⟨"key", none⟩
  refresher := ⟨.plain, CallbackSystem.samplePlatform.url, none, "secret", "client", "secret",
    "https://pod/oauth/callback"⟩

def sampleCookie : String :=
  "huly-user=" ++ sampleCookies.signCookie ⟨"ws", "person", .finite 1800000000000⟩
    sampleDeps.secrets

def sampleKey : UserCredentialKey := ⟨"ws", "person", "https://gitlab.com"⟩

/-- A person links an account. -/
def sampleLinking : List (AccountAction ℕ) :=
  [.start (some sampleCookie) 1700000000000 ⟨"1", "nonce", "verifier", 1700000000000⟩
      (some "https://gitlab.com") none,
    .callback (.arrive .user (some "0322") (some "code")),
    .callback (.found 0 1700000001000),
    .callback (.deleted 0),
    .tokenReply 0 (.response 200 ⟨some "access", some "refresh", some 7200, "tokens"⟩),
    .userReply 0 1700000002000 (.response 200 (some "alice")),
    .store 0 1700000002000 "iv" "refreshIv"]

example :
    let s := Transition.exec (Accounts.step sampleDeps) Accounts.init
      (sampleLinking ++ [.applySuggestion (some sampleCookie) 1700000003000 "https://gitlab.com" 9])
    s.issued = [(sampleKey, "access"), (sampleKey, "refresh")] ∧
      s.sent.map (fun x => (x.url, x.token)) =
        [("https://gitlab.com/api/v4/user", "access"),
          ("https://gitlab.com/api/v4/suggestions/9/apply", "access")] := by
  decide +kernel

end Steps

section Unlinking

/-- The callback will not store anything any more. -/
def Flow.isOver : Flow → Bool
  | .answered _ | .linked => true
  | _ => false

/-- Of the account there is no row, and no flow that could still store one. -/
structure Quiet (key : UserCredentialKey) (s : Accounts) : Prop where
  row : s.credentials.get? key = none
  stored : ∀ doc ∈ s.callbacks.rows.docs, doc.kind = some "user" → keyOf doc ≠ key
  held : ∀ r ∈ s.callbacks.requests.values, ∀ doc ∈ heldRow r, keyOf doc ≠ key
  settled : ∀ n < s.callbacks.redemptions.length, ∀ x ∈ s.userRedemption n,
    keyOf x.doc = key → (s.flows n).isOver = true

/-- The account stays without a row; `k` redemptions were made before. -/
structure StaysUnlinked (key : UserCredentialKey) (k : Nat) (s : Accounts) : Prop where
  row : s.credentials.get? key = none
  rows : AllRows (fun doc => keyOf doc ≠ key) k s.callbacks
  length : k ≤ s.callbacks.redemptions.length
  settled : ∀ n < k, ∀ x, s.userRedemption n = some x → keyOf x.doc = key →
    (s.flows n).isOver = true

theorem Quiet.staysUnlinked {key : UserCredentialKey} {s : Accounts} (h : Quiet key s) :
    StaysUnlinked key s.callbacks.redemptions.length s where
  row := h.row
  rows := {
    stored := h.stored
    held := fun i r hr => h.held r ((Registry.mem_values_iff _ _).mpr ⟨i, hr⟩)
    redeemed := fun n x hn hx => by
      rw [List.getElem?_eq_none hn] at hx
      cases hx }
  length := Nat.le_refl _
  settled := h.settled

namespace StaysUnlinked

variable {deps} {key : UserCredentialKey} {k : Nat} {s : Accounts} (h : StaysUnlinked key k s)
include h

/-- A callback that is not over is one of another account. -/
theorem keyOf_ne {n : Nat} {x : Redemption} (hx : s.userRedemption n = some x)
    (hover : (s.flows n).isOver = false) : keyOf x.doc ≠ key := by
  intro hkey
  obtain ⟨hget, hrouter⟩ := Option.filter_eq_some_iff.mp hx
  by_cases hn : n < k
  · rw [h.settled n hn x hx hkey] at hover
    cases hover
  · exact h.rows.redeemed n x (Nat.not_lt.mp hn) hget (of_decide_eq_true hrouter) hkey

theorem setFlow {n : Nat} {x : Redemption} (hx : s.userRedemption n = some x)
    (hkey : keyOf x.doc ≠ key) (flow : Flow) : StaysUnlinked key k (s.setFlow n flow) := by
  refine { h with settled := fun m hm y hy hy' => ?_ }
  by_cases hmn : m = n
  · subst hmn
    obtain rfl : x = y := Option.some.inj (hx.symm.trans hy)
    exact absurd hy' hkey
  · have hset : (s.setFlow n flow).flows m = s.flows m := Function.update_of_ne hmn ..
    rw [hset]
    exact h.settled m hm y hy hy'

theorem insertState {doc : OAuthStateDoc} (hdoc : doc.kind = some "user" → keyOf doc ≠ key) :
    StaysUnlinked key k (s.insertState doc) := by
  unfold Accounts.insertState
  split
  · rename_i rows hrows
    refine { h with rows := h.rows.withRows fun d hd hkind => ?_ }
    obtain hd | rfl := mem_insertOne hrows hd
    · exact h.rows.stored d hd hkind
    · exact hdoc hkind
  · exact h

theorem setRow {key' : UserCredentialKey} {row : Option CredentialRow}
    (hrow : key = key' → row = none) :
    (AccountLinks.setRow s.credentials key' row).get? key = none := by
  cases row with
  | none =>
    rw [AccountLinks.setRow, OrderedMap.get?_delete]
    split
    · rfl
    · exact h.row
  | some new =>
    rw [AccountLinks.setRow, OrderedMap.get?_set, if_neg fun heq => by cases hrow heq]
    exact h.row

omit h in
/-- A write that does not link an account leaves no row where there was none. -/
theorem written_none (refresher : OAuthRefresherDeps) (snapshot : CredentialRow)
    (iv refreshIv : String) (outcome : RefreshOutcome) :
    RefreshRace.written refresher none snapshot iv refreshIv outcome = none := by
  cases outcome <;> rfl

theorem sendStored (use : TokenUse) (key' : UserCredentialKey) (row : CredentialRow) :
    StaysUnlinked key k (s.sendStored deps use key' row) := by
  unfold Accounts.sendStored
  split
  · exact h
  · split
    · exact ⟨h.row, h.rows, h.length, h.settled⟩
    · exact h

theorem requestRefresh (i now : Nat) (x : RefreshOf) (reply : TokenReply) :
    StaysUnlinked key k (s.requestRefresh deps i now x reply) := by
  have hsend : StaysUnlinked key k (s.sendRefresh deps x) := by
    unfold Accounts.sendRefresh
    split
    · exact h
    · exact ⟨h.row, h.rows, h.length, h.settled⟩
  have hissue : ∀ outcome,
      StaysUnlinked key k ((s.sendRefresh deps x).issueOutcome x.key outcome) := by
    intro outcome
    cases outcome with
    | rotate accessToken refreshToken expiresAt =>
      exact ⟨hsend.row, hsend.rows, hsend.length, hsend.settled⟩
    | skip => exact hsend
    | markExpired => exact hsend
  have hlast := hissue (refreshOutcome deps.refresher now (some x.key.gitlabBaseUrl)
    x.flight.snapshot.doc.refreshToken fun _ => reply)
  exact ⟨hlast.row, hlast.rows, hlast.length, hlast.settled⟩

theorem readTokens {n : Nat} {x : Redemption} (hx : s.userRedemption n = some x)
    (hflow : s.flows n = .exchanging) (reply : TokenReply) :
    StaysUnlinked key k (s.readTokens n (keyOf x.doc) reply) := by
  have hkey := h.keyOf_ne hx (by rw [hflow]; rfl)
  unfold Accounts.readTokens
  split
  · rename_i accessToken refreshToken expiresIn _
    have hset := h.setFlow hx hkey (.lookingUp accessToken refreshToken expiresIn)
    exact ⟨hset.row, hset.rows, hset.length, hset.settled⟩
  · exact h.setFlow hx hkey _

theorem putRow {n : Nat} {x : Redemption} (hx : s.userRedemption n = some x)
    {input : PutUserCredentialInput} (hflow : s.flows n = .storing input) (now : Nat)
    (iv refreshIv : String) :
    StaysUnlinked key k (s.putRow deps n now (keyOf x.doc) iv refreshIv input) := by
  have hkey := h.keyOf_ne hx (by rw [hflow]; rfl)
  have hset := h.setFlow hx hkey .linked
  exact { hset with row := h.setRow fun heq => absurd heq.symm hkey }

variable [LT F] [DecidableLT F]

theorem step {a : AccountAction F} (hbegins : ¬ BeginsFor deps key a) :
    StaysUnlinked key k (s.step deps a) := by
  cases a with
  | start cookie now drawn gitlabBaseUrl safeReturnTo =>
    unfold Accounts.step
    dsimp only
    split
    · rename_i identity hcookie
      split
      · rename_i doc url hstart
        obtain ⟨baseUrl, hbase, hkey⟩ := keyOf_userStart hstart
        refine h.insertState fun _ heq => hbegins ⟨baseUrl, hbase, ?_⟩
        rw [Accounts.account, hcookie, ← heq, hkey]
      · exact h
    · exact h
  | adminStart drawn workspaceUuid hulyProjectRef gitlabBaseUrl =>
    unfold Accounts.step
    dsimp only
    split
    · rename_i doc url hstart
      refine h.insertState fun hkind => ?_
      rw [(begins_of_adminStart hstart).kind] at hkind
      cases hkind
    · exact h
  | callback a =>
    obtain ⟨hlength, hold⟩ := userRedemption_callback deps s a
    refine ⟨h.row, h.rows.step _ _ _ _ a, h.length.trans hlength, fun n hn x hx => ?_⟩
    rw [hold n (Nat.lt_of_lt_of_le hn h.length)] at hx
    exact h.settled n hn x hx
  | tokenReply n reply =>
    unfold Accounts.step
    dsimp only
    split
    · rename_i x hx hflow
      exact h.readTokens hx hflow reply
    · exact h
  | userReply n now reply =>
    unfold Accounts.step
    dsimp only
    split
    · rename_i x accessToken refreshToken expiresIn hx hflow
      exact h.setFlow hx (h.keyOf_ne hx (by rw [hflow]; rfl)) _
    · exact h
  | store n now iv refreshIv =>
    unfold Accounts.step
    dsimp only
    split
    · rename_i x input hx hflow
      exact h.putRow hx hflow now iv refreshIv
    · exact h
  | storeFails n =>
    unfold Accounts.step
    dsimp only
    split
    · rename_i x input hx hflow
      exact h.setFlow hx (h.keyOf_ne hx (by rw [hflow]; rfl)) _
    · exact h
  | disconnect cookie now gitlabBaseUrl =>
    unfold Accounts.step
    dsimp only
    split
    · exact h
    · split
      · exact h
      · rename_i key' _
        split
        · exact { h with row := h.setRow fun _ : key = key' => rfl }
        · exact h
  | applySuggestion cookie now gitlabBaseUrl suggestionId =>
    unfold Accounts.step
    dsimp only
    split
    · exact h
    · split
      · exact h
      · exact h.sendStored _ _ _
  | approval key' now kind projectId mrIid =>
    unfold Accounts.step
    dsimp only
    split
    · exact h
    · split
      · exact h
      · exact h.sendStored _ _ _
  | readForRefresh key' now =>
    unfold Accounts.step
    dsimp only
    split
    · exact h
    · split
      · exact ⟨h.row, h.rows, h.length, h.settled⟩
      · exact h
  | refreshReply i now reply =>
    unfold Accounts.step
    dsimp only
    split
    · exact h.requestRefresh i now _ reply
    · exact h
  | writeBack i iv refreshIv =>
    unfold Accounts.step
    dsimp only
    split
    · rename_i key' snapshot outcome _
      refine { h with row := h.setRow fun heq => ?_ }
      rw [← heq, h.row]
      exact written_none deps.refresher snapshot iv refreshIv outcome
    · exact h

end StaysUnlinked

/-- Once an account is quiet, it has no row again before someone with a cookie of the person begins
a flow; no refresh in flight and no flow of another account brings it back. -/
theorem stays_unlinked [LT F] [DecidableLT F] {key : UserCredentialKey} {s : Accounts}
    (hquiet : Quiet key s) (acts : List (AccountAction F))
    (hbegins : ∀ a ∈ acts, ¬ BeginsFor deps key a) :
    (Transition.exec (Accounts.step deps) s acts).credentials.get? key = none := by
  have hrun : ∀ as, as ⊆ acts → StaysUnlinked key s.callbacks.redemptions.length
      (Transition.exec (Accounts.step deps) s as) := by
    intro as
    induction as using List.reverseRecOn with
    | nil => exact fun _ => hquiet.staysUnlinked
    | append_singleton as a ih =>
      intro hsub
      rw [Transition.exec_concat]
      apply (ih fun b hb => hsub (List.mem_append_left _ hb)).step
      exact hbegins a (hsub (List.mem_append_right _ (List.mem_singleton_self a)))
  exact (hrun acts (fun _ h => h)).row

/-- The account is unlinked while its tokens are refreshed. -/
def sampleUnlinked : Accounts :=
  Transition.exec (Accounts.step sampleDeps) Accounts.init
    (sampleLinking ++ [.readForRefresh sampleKey 1700007000000,
      .disconnect (some sampleCookie) 1700007000001 (some "https://gitlab.com")])

theorem quiet_sampleUnlinked : Quiet sampleKey sampleUnlinked := by
  have hrow : sampleUnlinked.credentials.get? sampleKey = none ∧
      (∀ doc ∈ sampleUnlinked.callbacks.rows.docs, doc.kind = some "user" →
        keyOf doc ≠ sampleKey) ∧
      (∀ r ∈ sampleUnlinked.callbacks.requests.values, ∀ doc ∈ heldRow r, keyOf doc ≠ sampleKey) ∧
      ∀ n < sampleUnlinked.callbacks.redemptions.length, ∀ x ∈ sampleUnlinked.userRedemption n,
        keyOf x.doc = sampleKey → (sampleUnlinked.flows n).isOver = true := by
    decide +kernel
  exact ⟨hrow.1, hrow.2.1, hrow.2.2.1, hrow.2.2.2⟩

theorem stays_unlinked_refresh :
    (Transition.exec (Accounts.step sampleDeps) sampleUnlinked
      [.refreshReply 0 1700007000002
          (.response 200 ⟨some "access2", some "refresh2", some 7200, "tokens"⟩),
        .writeBack 0 "iv" "refreshIv"]).credentials.get? sampleKey = none := by
  apply stays_unlinked sampleDeps quiet_sampleUnlinked
  intro a ha
  simp only [List.mem_cons, List.not_mem_nil, or_false] at ha
  obtain rfl | rfl := ha <;> exact id

end Unlinking

end Runs

end HulyGitlab.AccountLinks
