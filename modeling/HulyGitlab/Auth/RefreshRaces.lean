import HulyGitlab.Auth.UserCredentialHistory
import HulyGitlab.Lib.Registry

/-!
# Refreshes that race with links

The row of one person, workspace and instance, with any number of refreshes in
flight: each has read the row, requests tokens with what it read, and writes
the outcome back. In between the account may be linked again or unlinked.
GitLab takes each refresh token once.
-/

namespace HulyGitlab

open Transition

/-- Which link a token was issued for, and whether a refresh token can still be used. -/
structure TokenIssuer where
  linkOf : String → Option Nat
  usable : String → Bool

/-- What becomes of a token request: it does not arrive, it is turned down with the token
left as it is, its answer is lost, or it is answered. -/
inductive Handling
  | unreachable
  | refused (status : Nat) (text : String)
  | lost (data : TokenData)
  | served (data : TokenData)
  deriving DecidableEq

/-- The tokens a request brings into being. -/
def Handling.newTokens : Handling → List String
  | .lost data | .served data => data.accessToken.toList ++ data.refreshToken.toList
  | _ => []

namespace TokenIssuer

variable (g : TokenIssuer)

/-- Tokens are issued for a link. -/
def issue (link : Option Nat) (accessToken refreshToken : Option String) : TokenIssuer where
  linkOf t := if some t = accessToken ∨ some t = refreshToken then link else g.linkOf t
  usable t := if some t = refreshToken then true else g.usable t

/-- The first use of a refresh token is its last, and new tokens take its place. -/
def redeem (token : String) (data : TokenData) : TokenIssuer :=
  { g with usable := Function.update g.usable token false }.issue (g.linkOf token)
    data.accessToken data.refreshToken

/-- The answer to a refresh token that is not valid. -/
def invalidGrant : TokenReply :=
  .response 400 ⟨none, none, none, "\x7b\"error\":\"invalid_grant\"\x7d"⟩

def serve (token : String) : Handling → TokenIssuer × TokenReply
  | .unreachable => (g, .networkError)
  | .refused status text => (g, .response status ⟨none, none, none, text⟩)
  | .lost data => (if g.usable token then g.redeem token data else g, .networkError)
  | .served data =>
      if g.usable token then (g.redeem token data, .response 200 data) else (g, invalidGrant)

/-- What was issued stays with its link, and what was used stays used. -/
structure Extends (g g' : TokenIssuer) : Prop where
  linkOf : ∀ t, g.linkOf t ≠ none → g'.linkOf t = g.linkOf t
  used : ∀ t, g.linkOf t ≠ none → g.usable t = false → g'.usable t = false

theorem Extends.refl : g.Extends g := ⟨fun _ _ => rfl, fun _ _ h => h⟩

variable {g}

theorem issue_extends {accessToken refreshToken : Option String}
    (h : ∀ t ∈ accessToken.toList ++ refreshToken.toList, g.linkOf t = none)
    (link : Option Nat) : g.Extends (g.issue link accessToken refreshToken) := by
  simp only [List.mem_append, Option.mem_toList] at h
  have hold : ∀ t, g.linkOf t ≠ none → some t ≠ accessToken ∧ some t ≠ refreshToken := fun t ht =>
    ⟨fun heq => ht (h t (.inl heq.symm)), fun heq => ht (h t (.inr heq.symm))⟩
  refine ⟨fun t ht => ?_, fun t ht hused => ?_⟩
  · obtain ⟨hne, hne'⟩ := hold t ht
    simp [issue, hne, hne']
  · simp [issue, (hold t ht).2, hused]

theorem linkOf_issue {accessToken refreshToken : Option String} {t : String}
    (h : t ∈ accessToken ∨ t ∈ refreshToken) (link : Option Nat) :
    (g.issue link accessToken refreshToken).linkOf t = link :=
  if_pos (h.imp Eq.symm Eq.symm)

section Requests

variable {token : String} {data : TokenData}
  (hnew : ∀ t ∈ data.accessToken.toList ++ data.refreshToken.toList, g.linkOf t = none)

include hnew

theorem redeem_extends : g.Extends (g.redeem token data) := by
  obtain ⟨hlink, hused⟩ := issue_extends
    (g := { g with usable := Function.update g.usable token false }) hnew (g.linkOf token)
  refine ⟨hlink, fun t ht h => hused t ht ?_⟩
  by_cases heq : t = token
  · rw [heq]
    exact Function.update_self ..
  · exact (Function.update_of_ne heq ..).trans h

/-- The token of a request is used up. -/
theorem usable_redeem (htoken : g.linkOf token ≠ none) :
    (g.redeem token data).usable token = false :=
  (issue_extends (g := { g with usable := Function.update g.usable token false }) hnew
    (g.linkOf token)).used token htoken (Function.update_self ..)

end Requests

theorem serve_extends {handling : Handling} (hnew : ∀ t ∈ handling.newTokens, g.linkOf t = none)
    (token : String) : g.Extends (g.serve token handling).1 := by
  cases handling with
  | unreachable => exact .refl g
  | refused status text => exact .refl g
  | lost data =>
    dsimp only [serve]
    split
    · exact redeem_extends hnew
    · exact .refl g
  | served data =>
    dsimp only [serve]
    split
    · exact redeem_extends hnew
    · exact .refl g

end TokenIssuer

/-- A row and its `_id`. -/
structure CredentialRow where
  id : Nat
  doc : UserCredentialDoc
  deriving DecidableEq

/-- What a refresh has read, and the outcome of its request. -/
structure RefreshInFlight where
  snapshot : CredentialRow
  outcome : Option RefreshOutcome
  deriving DecidableEq

/-- `links` counts the links made; `linked` tells whether the last of links and
unlinks was a link. -/
structure RefreshRace where
  row : Option CredentialRow
  nextId : Nat
  refreshes : Registry RefreshInFlight
  issuer : TokenIssuer
  links : Nat
  linked : Bool

inductive RaceAction
  | link (iv refreshIv : String) (now : Nat) (input : PutUserCredentialInput)
  | unlink
  | read (now : Nat)
  | request (refresh now : Nat) (handling : Handling)
  | writeBack (refresh : Nat) (iv refreshIv : String)
  | abandon (refresh : Nat)

namespace RefreshRace

variable (deps : OAuthRefresherDeps) (gitlabBaseUrl : String)

/-- The decrypted text of a stored token. -/
def textOf (enc : Encrypted) : Option String :=
  (deps.cipher.decryptValue enc deps.encryptionKey).toOption

/-- The refresh token a refresh sends, where it gets so far. -/
def sentToken (doc : UserCredentialDoc) : Option String :=
  if gitlabBaseUrl ≠ "" ∧ validateGitLabBaseUrl deps.platform deps.allowedHosts gitlabBaseUrl then
    doc.refreshToken.bind (textOf deps)
  else none

/-- GitLab's part in a request. -/
def handled (g : TokenIssuer) (doc : UserCredentialDoc) (handling : Handling) :
    TokenIssuer × TokenReply :=
  match sentToken deps gitlabBaseUrl doc with
  | none => (g, .networkError)
  | some token => g.serve token handling

/-- A write of the row, where there is one; `op` is no link. -/
def writeRow (row : Option CredentialRow) (op : LinkOp) : Option CredentialRow :=
  row.bind fun r =>
    (rowAfter deps.cipher deps.encryptionKey (some r.doc) op).map fun doc => { r with doc }

/-- What is written back: tokens to the row of the key, the mark to the row of the id. -/
def written (row : Option CredentialRow) (snapshot : CredentialRow) (iv refreshIv : String) :
    RefreshOutcome → Option CredentialRow
  | .skip => row
  | .rotate accessToken refreshToken expiresAt =>
      writeRow deps row (.rotate iv refreshIv ⟨accessToken, refreshToken, some (some expiresAt)⟩)
  | .markExpired =>
      if row.any fun r => r.id = snapshot.id then writeRow deps row .markExpired else row

/-- The upsert of a link. -/
def linkedRow (s : RefreshRace) (iv refreshIv : String) (now : Nat)
    (input : PutUserCredentialInput) : Option CredentialRow :=
  (rowAfter deps.cipher deps.encryptionKey (s.row.map (·.doc)) (.put iv refreshIv now input)).map
    fun doc => ⟨(s.row.map (·.id)).getD s.nextId, doc⟩

/-- The query of a sweep. -/
def selects (now : Nat) (doc : UserCredentialDoc) : Bool :=
  TokenStore.dueBefore (now + fiveMinutesMs) doc.expiresAt && !doc.expired

/-- New tokens were never issued before; a step that says otherwise is none. -/
def step (s : RefreshRace) : RaceAction → RefreshRace
  | .link iv refreshIv now input =>
      if ∀ t ∈ input.accessToken :: input.refreshToken.toList, s.issuer.linkOf t = none then
        { s with
          row := linkedRow deps s iv refreshIv now input
          nextId := s.nextId + 1
          issuer := s.issuer.issue (some (s.links + 1)) (some input.accessToken) input.refreshToken
          links := s.links + 1
          linked := true }
      else s
  | .unlink => { s with row := none, linked := false }
  | .read now =>
      match s.row with
      | none => s
      | some row =>
          if selects now row.doc then { s with refreshes := s.refreshes.add ⟨row, none⟩ } else s
  | .request i now handling =>
      match s.refreshes.get? i with
      | some ⟨snapshot, none⟩ =>
          if ∀ t ∈ handling.newTokens, s.issuer.linkOf t = none then
            let h := handled deps gitlabBaseUrl s.issuer snapshot.doc handling
            let outcome := refreshOutcome deps now (some gitlabBaseUrl) snapshot.doc.refreshToken
              fun _ => h.2
            { s with
              issuer := h.1
              refreshes := s.refreshes.update i ⟨snapshot, some outcome⟩ }
          else s
      | _ => s
  | .writeBack i iv refreshIv =>
      match s.refreshes.get? i with
      | some ⟨snapshot, some outcome⟩ =>
          { s with
            row := written deps s.row snapshot iv refreshIv outcome
            refreshes := s.refreshes.remove i }
      | _ => s
  | .abandon i => { s with refreshes := s.refreshes.remove i }

/-- No row, no link, no refresh. -/
def init : RefreshRace := ⟨none, 0, .empty, ⟨fun _ => none, fun _ => false⟩, 0, false⟩

/-- The stored tokens were issued for the last link, only a linked account has a
row, and no row is marked whose refresh token can be used. -/
structure Undamaged (s : RefreshRace) : Prop where
  access : ∀ row ∈ s.row, ∀ t ∈ textOf deps row.doc.value, s.issuer.linkOf t = some s.links
  refresh : ∀ row ∈ s.row, ∀ enc ∈ row.doc.refreshToken, ∀ t ∈ textOf deps enc,
    s.issuer.linkOf t = some s.links
  linked : s.row.isSome → s.linked = true
  valid : ∀ row ∈ s.row, row.doc.expired = true → ∀ enc ∈ row.doc.refreshToken,
    ∀ t ∈ textOf deps enc, s.issuer.usable t = false

/-- What a refresh finds when it writes back: for tokens the row it read, not marked
unless no refresh token came; for the mark the refresh token it read, unless the row is
another one. -/
def FindsItsRow (row : Option CredentialRow) (snapshot : CredentialRow) : RefreshOutcome → Prop
  | .skip => True
  | .rotate _ refreshToken _ => ∀ r ∈ row, r.doc.refreshToken = snapshot.doc.refreshToken ∧
      (r.doc.expired = false ∨ refreshToken = none)
  | .markExpired => ∀ r ∈ row, r.id = snapshot.id →
      r.doc.refreshToken = snapshot.doc.refreshToken ∧ gitlabBaseUrl ≠ "" ∧
        validateGitLabBaseUrl deps.platform deps.allowedHosts gitlabBaseUrl

/-- A request that leaves its token usable is not taken for one that has failed for good. -/
def TurnedDown (g : TokenIssuer) (token : String) (status : Nat) (text : String) : Prop :=
  g.usable token = true →
    ¬ (200 ≤ status ∧ status < 300) ∧ isPermanentRefreshError status text = false

/-- A link brings a refresh token where one is stored, and finds no mark where it brings
one; a refresh finds the row it has read. -/
def Undisturbed (s : RefreshRace) : RaceAction → Prop
  | .link _ _ _ input => ∀ r ∈ s.row,
      (input.refreshToken.isSome ∨ r.doc.refreshToken = none) ∧
        (r.doc.expired = false ∨ input.refreshToken = none)
  | .request i _ (.refused status text) => ∀ f ∈ s.refreshes.get? i,
      ∀ token ∈ sentToken deps gitlabBaseUrl f.snapshot.doc, TurnedDown s.issuer token status text
  | .writeBack i _ _ => ∀ f ∈ s.refreshes.get? i, ∀ outcome ∈ f.outcome,
      FindsItsRow deps gitlabBaseUrl s.row f.snapshot outcome
  | _ => True

/-- What the outcome of a request says of its token. -/
def Justified (g : TokenIssuer) (token : String) : RefreshOutcome → Prop
  | .skip => True
  | .markExpired => g.usable token = false
  | .rotate accessToken refreshToken _ => g.linkOf accessToken = g.linkOf token ∧
      ∀ t ∈ refreshToken, g.linkOf t = g.linkOf token

/-- A refresh has read an issued token, and its outcome is that of a request with it. -/
structure SoundRefresh (g : TokenIssuer) (f : RefreshInFlight) : Prop where
  issued : ∀ enc ∈ f.snapshot.doc.refreshToken, ∀ t ∈ textOf deps enc, g.linkOf t ≠ none
  sent : ∀ token ∈ sentToken deps gitlabBaseUrl f.snapshot.doc, ∀ outcome ∈ f.outcome,
    Justified g token outcome
  unsent : sentToken deps gitlabBaseUrl f.snapshot.doc = none → ∀ outcome ∈ f.outcome,
    outcome = .skip ∨ outcome = .markExpired

section Requests

variable {deps gitlabBaseUrl} {g g' : TokenIssuer} {doc : UserCredentialDoc} {token : String}

theorem exists_of_sentToken (h : sentToken deps gitlabBaseUrl doc = some token) :
    ∃ enc ∈ doc.refreshToken, textOf deps enc = some token := by
  unfold sentToken at h
  split at h
  · exact Option.bind_eq_some_iff.mp h
  · cases h

theorem refreshOutcome_of_sentToken (h : sentToken deps gitlabBaseUrl doc = some token)
    (now : Nat) (reply : TokenReply) :
    refreshOutcome deps now (some gitlabBaseUrl) doc.refreshToken (fun _ => reply) =
      replyOutcome now reply := by
  obtain ⟨enc, henc, htext⟩ := exists_of_sentToken h
  unfold sentToken at h
  split at h
  next hurl =>
    unfold refreshOutcome
    split
    next heq => cases heq
    next heq => exact absurd (Option.some.inj heq) hurl.1
    next heq =>
      cases heq
      rw [if_pos hurl.2, henc]
      unfold textOf at htext
      cases hdecrypt : deps.cipher.decryptValue enc deps.encryptionKey with
      | error e => simp [hdecrypt, Except.toOption] at htext
      | ok text => simp only [hdecrypt]
  next => cases h

theorem refreshOutcome_of_unsent (h : sentToken deps gitlabBaseUrl doc = none) (now : Nat)
    (reply : TokenReply) :
    let outcome := refreshOutcome deps now (some gitlabBaseUrl) doc.refreshToken fun _ => reply
    outcome = .skip ∨ outcome = .markExpired := by
  unfold sentToken at h
  unfold refreshOutcome
  split
  · exact .inl rfl
  · exact .inl rfl
  next heq =>
    obtain rfl := Option.some.inj heq
    split
    next hvalid =>
      split
      · exact .inl rfl
      next enc henc =>
        split
        · exact .inr rfl
        next text hdecrypt =>
          simp_all [textOf, Except.toOption]
    next => exact .inr rfl

theorem Justified.extends {outcome : RefreshOutcome} (hext : g.Extends g')
    (hissued : g.linkOf token ≠ none) (h : Justified g token outcome) :
    Justified g' token outcome := by
  have hlink : ∀ t, g.linkOf t = g.linkOf token → g'.linkOf t = g'.linkOf token := by
    intro t ht
    rw [hext.linkOf t (ht ▸ hissued), hext.linkOf token hissued, ht]
  cases outcome with
  | skip => trivial
  | markExpired => exact hext.used token hissued h
  | rotate accessToken refreshToken expiresAt =>
    exact ⟨hlink accessToken h.1, fun t ht => hlink t (h.2 t ht)⟩

theorem SoundRefresh.extends {f : RefreshInFlight} (hext : g.Extends g')
    (h : SoundRefresh deps gitlabBaseUrl g f) : SoundRefresh deps gitlabBaseUrl g' f where
  issued enc henc t ht := by
    rw [hext.linkOf t (h.issued enc henc t ht)]
    exact h.issued enc henc t ht
  sent token htoken outcome houtcome := by
    obtain ⟨enc, henc, htext⟩ := exists_of_sentToken htoken
    exact (h.sent token htoken outcome houtcome).extends hext (h.issued enc henc token htext)
  unsent := h.unsent

/-- An answer without tokens says no more than that the old one cannot be used. -/
theorem justified_of_no_token (husable : g.usable token = false) (now status : Nat)
    (text : String) :
    Justified g token (replyOutcome now (.response status ⟨none, none, none, text⟩)) := by
  unfold replyOutcome
  dsimp only
  split
  · exact husable
  · split
    · exact husable
    · trivial

theorem justified_redeem {data : TokenData} (hissued : g.linkOf token ≠ none)
    (hnew : ∀ t ∈ data.accessToken.toList ++ data.refreshToken.toList, g.linkOf t = none)
    (now : Nat) :
    Justified (g.redeem token data) token (replyOutcome now (.response 200 data)) := by
  unfold replyOutcome
  dsimp only
  rw [if_pos (by omega)]
  cases haccess : data.accessToken with
  | none => exact TokenIssuer.usable_redeem hnew hissued
  | some accessToken =>
    have hlink : (g.redeem token data).linkOf token = g.linkOf token :=
      (TokenIssuer.redeem_extends hnew).linkOf token hissued
    refine ⟨?_, fun t ht => ?_⟩
    · rw [hlink]
      exact TokenIssuer.linkOf_issue (.inl haccess) _
    · rw [hlink]
      exact TokenIssuer.linkOf_issue (.inr ht) _

/-- The answer to a request is read as what it says. -/
theorem justified_serve {handling : Handling} (hissued : g.linkOf token ≠ none)
    (hnew : ∀ t ∈ handling.newTokens, g.linkOf t = none)
    (hrefused : ∀ status text, handling = .refused status text → TurnedDown g token status text)
    (now : Nat) :
    Justified (g.serve token handling).1 token (replyOutcome now (g.serve token handling).2) := by
  cases handling with
  | unreachable => trivial
  | lost data => trivial
  | refused status text =>
    dsimp only [TokenIssuer.serve]
    by_cases husable : g.usable token = true
    · obtain ⟨hstatus, hpermanent⟩ := hrefused status text rfl husable
      simp [replyOutcome, hstatus, hpermanent, Justified]
    · exact justified_of_no_token (Bool.eq_false_iff.mpr husable) now status text
  | served data =>
    by_cases husable : g.usable token = true
    · have hserve : g.serve token (.served data) = (g.redeem token data, .response 200 data) :=
        if_pos husable
      simp only [hserve]
      exact justified_redeem hissued hnew now
    · have hserve : g.serve token (.served data) = (g, TokenIssuer.invalidGrant) := if_neg husable
      simp only [hserve]
      exact justified_of_no_token (Bool.eq_false_iff.mpr husable) now 400 _

end Requests

section Runs

variable {deps gitlabBaseUrl} {s : RefreshRace}

/-- The state is undamaged, and so is what the refreshes hold. -/
structure Consistent (deps : OAuthRefresherDeps) (gitlabBaseUrl : String) (s : RefreshRace) :
    Prop where
  undamaged : Undamaged deps s
  sound : ∀ i f, s.refreshes.get? i = some f → SoundRefresh deps gitlabBaseUrl s.issuer f

/-- GitLab's part of a request leaves the stored tokens with their link. -/
theorem Undamaged.extends {g : TokenIssuer} (hext : s.issuer.Extends g) (h : Undamaged deps s)
    (refreshes : Registry RefreshInFlight) :
    Undamaged deps { s with issuer := g, refreshes := refreshes } where
  access row hrow t ht := by
    rw [← h.access row hrow t ht]
    exact hext.linkOf t (h.access row hrow t ht ▸ Option.some_ne_none _)
  refresh row hrow enc henc t ht := by
    rw [← h.refresh row hrow enc henc t ht]
    exact hext.linkOf t (h.refresh row hrow enc henc t ht ▸ Option.some_ne_none _)
  linked := h.linked
  valid row hrow hexpired enc henc t ht :=
    hext.used t (h.refresh row hrow enc henc t ht ▸ Option.some_ne_none _)
      (h.valid row hrow hexpired enc henc t ht)

theorem textOf_encryptValue (text iv : String) :
    textOf deps (deps.cipher.encryptValue text iv deps.encryptionKey) = some text := by
  rw [textOf, deps.cipher.decrypt_encrypt]
  rfl

theorem doc_linkedRow {iv refreshIv : String} {now : Nat} {input : PutUserCredentialInput}
    {row : CredentialRow} (h : row ∈ linkedRow deps s iv refreshIv now input) :
    row.doc.value = deps.cipher.encryptValue input.accessToken iv deps.encryptionKey ∧
      row.doc.refreshToken = ((input.refreshToken.map fun text =>
        deps.cipher.encryptValue text refreshIv deps.encryptionKey).orElse fun _ =>
          (s.row.map (·.doc)).bind UserCredentialDoc.refreshToken) ∧
      row.doc.expired = ((s.row.map (·.doc)).map UserCredentialDoc.expired).getD false := by
  obtain ⟨doc, hdoc, rfl⟩ := Option.map_eq_some_iff.mp h
  obtain rfl := Option.some.inj hdoc
  exact ⟨rfl, rfl, rfl⟩

/-- The row after a link holds what it brought, and nothing of an earlier row that a
refresh needs. -/
theorem undamaged_link (iv refreshIv : String) (now : Nat) {input : PutUserCredentialInput}
    (hcond : ∀ r ∈ s.row, (input.refreshToken.isSome ∨ r.doc.refreshToken = none) ∧
      (r.doc.expired = false ∨ input.refreshToken = none)) :
    Undamaged deps
      { s with
        row := linkedRow deps s iv refreshIv now input
        nextId := s.nextId + 1
        issuer := s.issuer.issue (some (s.links + 1)) (some input.accessToken) input.refreshToken
        links := s.links + 1
        linked := true } := by
  -- the stored refresh token is the one of the link, or there is none
  have hbrought : ∀ row ∈ linkedRow deps s iv refreshIv now input, row.doc.refreshToken =
      input.refreshToken.map fun text =>
        deps.cipher.encryptValue text refreshIv deps.encryptionKey := by
    intro row hrow
    rw [(doc_linkedRow hrow).2.1]
    cases htoken : input.refreshToken with
    | some text => rfl
    | none =>
      cases hold : s.row with
      | none => rfl
      | some r =>
        have hnone := (hcond r hold).1.resolve_left (by simp [htoken])
        simp [hnone]
  refine ⟨?_, ?_, fun _ => rfl, ?_⟩
  · intro row hrow t ht
    rw [(doc_linkedRow hrow).1, textOf_encryptValue] at ht
    obtain rfl := Option.some.inj ht
    exact TokenIssuer.linkOf_issue (.inl rfl) _
  · intro row hrow enc henc t ht
    rw [Option.mem_def, hbrought row hrow] at henc
    obtain ⟨text, htext, rfl⟩ := Option.map_eq_some_iff.mp henc
    rw [textOf_encryptValue] at ht
    obtain rfl := Option.some.inj ht
    exact TokenIssuer.linkOf_issue (.inr htext) _
  · intro row hrow hexpired enc henc
    have hnone : input.refreshToken = none := by
      rw [(doc_linkedRow hrow).2.2] at hexpired
      cases hold : s.row with
      | none => simp [hold] at hexpired
      | some r =>
        refine (hcond r hold).2.resolve_left fun hfresh => ?_
        simp [hold, hfresh] at hexpired
    rw [Option.mem_def, hbrought row hrow, hnone] at henc
    cases henc

/-- A request adds its outcome. -/
theorem sound_request {f : RefreshInFlight} (hsound : SoundRefresh deps gitlabBaseUrl s.issuer f)
    {handling : Handling} (hnew : ∀ t ∈ handling.newTokens, s.issuer.linkOf t = none)
    (hrefused : ∀ status text, handling = .refused status text →
      ∀ token ∈ sentToken deps gitlabBaseUrl f.snapshot.doc, TurnedDown s.issuer token status text)
    (now : Nat) :
    let h := handled deps gitlabBaseUrl s.issuer f.snapshot.doc handling
    s.issuer.Extends h.1 ∧ SoundRefresh deps gitlabBaseUrl h.1
      ⟨f.snapshot, some (refreshOutcome deps now (some gitlabBaseUrl) f.snapshot.doc.refreshToken
        fun _ => h.2)⟩ := by
  cases hsent : sentToken deps gitlabBaseUrl f.snapshot.doc with
  | none =>
    have hhandled : handled deps gitlabBaseUrl s.issuer f.snapshot.doc handling =
        (s.issuer, .networkError) := by
      rw [handled, hsent]
    rw [hhandled]
    refine ⟨.refl _, hsound.issued, fun token htoken => ?_, fun _ outcome houtcome => ?_⟩
    · cases hsent.symm.trans htoken
    · obtain rfl := Option.some.inj houtcome
      exact refreshOutcome_of_unsent hsent now _
  | some token =>
    have hhandled : handled deps gitlabBaseUrl s.issuer f.snapshot.doc handling =
        s.issuer.serve token handling := by
      rw [handled, hsent]
    obtain ⟨enc, henc, htext⟩ := exists_of_sentToken hsent
    have hissued := hsound.issued enc henc token htext
    have hext := TokenIssuer.serve_extends hnew token
    rw [hhandled]
    refine ⟨hext, (hsound.extends hext).issued, fun token' htoken outcome houtcome => ?_,
      fun hnone => ?_⟩
    · obtain rfl := Option.some.inj (hsent.symm.trans htoken)
      obtain rfl := Option.some.inj houtcome
      rw [refreshOutcome_of_sentToken hsent]
      exact justified_serve hissued hnew
        (fun status text heq => hrefused status text heq token hsent) now
    · cases hsent.symm.trans hnone

/-- The new tokens of a refresh that finds its row are for the last link. -/
theorem linkOf_rotate {f : RefreshInFlight} {accessToken : String} {refreshToken : Option String}
    {expiresAt : Nat} {r : CredentialRow} (h : Undamaged deps s) (hrow : s.row = some r)
    (hsound : SoundRefresh deps gitlabBaseUrl s.issuer f)
    (houtcome : .rotate accessToken refreshToken expiresAt ∈ f.outcome)
    (hsame : r.doc.refreshToken = f.snapshot.doc.refreshToken) :
    s.issuer.linkOf accessToken = some s.links ∧
      ∀ t ∈ refreshToken, s.issuer.linkOf t = some s.links := by
  cases hsent : sentToken deps gitlabBaseUrl f.snapshot.doc with
  | none => rcases hsound.unsent hsent _ houtcome with h | h <;> cases h
  | some token =>
    obtain ⟨enc, henc, htext⟩ := exists_of_sentToken hsent
    have hlink : s.issuer.linkOf token = some s.links :=
      h.refresh r hrow enc (hsame ▸ henc) token htext
    obtain ⟨haccess, hrefresh⟩ := hsound.sent token hsent _ houtcome
    exact ⟨haccess.trans hlink, fun t ht => (hrefresh t ht).trans hlink⟩

theorem undamaged_rotate {f : RefreshInFlight} {accessToken : String} {refreshToken : Option String}
    {expiresAt : Nat} {r : CredentialRow} (h : Undamaged deps s) (hrow : s.row = some r)
    (hsound : SoundRefresh deps gitlabBaseUrl s.issuer f)
    (houtcome : .rotate accessToken refreshToken expiresAt ∈ f.outcome)
    (hsame : r.doc.refreshToken = f.snapshot.doc.refreshToken)
    (hunmarked : r.doc.expired = false ∨ refreshToken = none) (iv refreshIv : String)
    (refreshes : Registry RefreshInFlight) :
    Undamaged deps
      { s with
        row := writeRow deps s.row
          (.rotate iv refreshIv ⟨accessToken, refreshToken, some (some expiresAt)⟩)
        refreshes := refreshes } := by
  obtain ⟨haccess, hrefresh⟩ := linkOf_rotate h hrow hsound houtcome hsame
  refine ⟨?_, ?_, fun _ => h.linked (hrow ▸ rfl), ?_⟩
  all_goals
    intro row hwritten
    rw [hrow] at hwritten
    obtain rfl := Option.some.inj hwritten
  · intro t ht
    obtain rfl := Option.some.inj ((textOf_encryptValue _ _).symm.trans ht)
    exact haccess
  · intro enc henc t ht
    cases htoken : refreshToken with
    | none =>
      rw [htoken] at henc
      exact h.refresh r hrow enc henc t ht
    | some text =>
      rw [htoken] at henc
      obtain rfl := Option.some.inj henc
      obtain rfl := Option.some.inj ((textOf_encryptValue _ _).symm.trans ht)
      exact hrefresh text htoken
  · intro hexpired enc henc t ht
    rcases hunmarked with hfalse | hnone
    · cases hfalse.symm.trans hexpired
    · rw [hnone] at henc
      exact h.valid r hrow hexpired enc henc t ht

theorem undamaged_mark {f : RefreshInFlight} {r : CredentialRow} (h : Undamaged deps s)
    (hrow : s.row = some r) (hsound : SoundRefresh deps gitlabBaseUrl s.issuer f)
    (houtcome : .markExpired ∈ f.outcome)
    (hsame : r.doc.refreshToken = f.snapshot.doc.refreshToken)
    (hurl : gitlabBaseUrl ≠ "" ∧
      validateGitLabBaseUrl deps.platform deps.allowedHosts gitlabBaseUrl)
    (refreshes : Registry RefreshInFlight) :
    Undamaged deps { s with row := writeRow deps s.row .markExpired, refreshes := refreshes } := by
  have hsent : sentToken deps gitlabBaseUrl f.snapshot.doc = r.doc.refreshToken.bind (textOf deps) := by
    rw [sentToken, if_pos hurl, hsame]
  refine ⟨?_, ?_, fun _ => h.linked (hrow ▸ rfl), ?_⟩
  all_goals
    intro row hwritten
    rw [hrow] at hwritten
    obtain rfl := Option.some.inj hwritten
  · exact h.access r hrow
  · exact h.refresh r hrow
  · intro _ enc henc t ht
    have hbind : r.doc.refreshToken.bind (textOf deps) = some t :=
      Option.bind_eq_some_iff.mpr ⟨enc, henc, ht⟩
    exact hsound.sent t (hsent.trans hbind) _ houtcome

/-- The write of a sound refresh that finds its row. -/
theorem undamaged_writeBack {f : RefreshInFlight} {outcome : RefreshOutcome}
    (h : Undamaged deps s) (hsound : SoundRefresh deps gitlabBaseUrl s.issuer f)
    (houtcome : outcome ∈ f.outcome)
    (hfinds : FindsItsRow deps gitlabBaseUrl s.row f.snapshot outcome) (iv refreshIv : String)
    (refreshes : Registry RefreshInFlight) :
    Undamaged deps
      { s with
        row := written deps s.row f.snapshot iv refreshIv outcome
        refreshes := refreshes } := by
  have hsame : Undamaged deps { s with refreshes := refreshes } := h.extends (.refl _) refreshes
  cases hrow : s.row with
  | none => cases outcome <;> exact ⟨nofun, nofun, nofun, nofun⟩
  | some r =>
    cases outcome with
    | skip => exact hrow ▸ hsame
    | rotate accessToken refreshToken expiresAt =>
      obtain ⟨htoken, hunmarked⟩ := hfinds r hrow
      exact hrow ▸ undamaged_rotate h hrow hsound houtcome htoken hunmarked iv refreshIv refreshes
    | markExpired =>
      by_cases hid : r.id = f.snapshot.id
      · obtain ⟨htoken, hurl⟩ := hfinds r hrow hid
        have hmark : written deps (some r) f.snapshot iv refreshIv .markExpired =
            writeRow deps (some r) .markExpired := if_pos (by simp [hid])
        rw [hmark]
        exact hrow ▸ undamaged_mark h hrow hsound houtcome htoken hurl refreshes
      · have hother : written deps (some r) f.snapshot iv refreshIv .markExpired = some r :=
          if_neg (by simp [hid])
        rw [hother]
        exact hrow ▸ hsame

/-- An undisturbed step. -/
theorem Consistent.step {a : RaceAction} (h : Consistent deps gitlabBaseUrl s)
    (hcond : Undisturbed deps gitlabBaseUrl s a) :
    Consistent deps gitlabBaseUrl (step deps gitlabBaseUrl s a) := by
  obtain ⟨hundamaged, hsound⟩ := h
  cases a with
  | link iv refreshIv now input =>
    dsimp only [RefreshRace.step]
    split
    next hnew =>
      have hfresh : ∀ t ∈ (some input.accessToken).toList ++ input.refreshToken.toList,
          s.issuer.linkOf t = none := hnew
      exact ⟨undamaged_link iv refreshIv now hcond,
        fun i f hf => (hsound i f hf).extends (TokenIssuer.issue_extends hfresh _)⟩
    next => exact ⟨hundamaged, hsound⟩
  | unlink => exact ⟨⟨nofun, nofun, nofun, nofun⟩, hsound⟩
  | read now =>
    dsimp only [RefreshRace.step]
    split
    next => exact ⟨hundamaged, hsound⟩
    next row hrow =>
      split
      next =>
        refine ⟨hundamaged.extends (.refl _) _, Registry.forall_add ⟨?_, nofun, nofun⟩ hsound⟩
        intro enc henc t ht
        exact hundamaged.refresh row hrow enc henc t ht ▸ Option.some_ne_none _
      next => exact ⟨hundamaged, hsound⟩
  | request i now handling =>
    dsimp only [RefreshRace.step]
    split
    next snapshot hi =>
      split
      next hnew =>
        obtain ⟨hext, hrefresh⟩ := sound_request (hsound i _ hi) hnew
          (fun status text heq => by subst heq; exact hcond _ hi) now
        refine ⟨hundamaged.extends hext _, Registry.forall_update hi hrefresh ?_⟩
        exact fun j f _ hf => (hsound j f hf).extends hext
      next => exact ⟨hundamaged, hsound⟩
    next => exact ⟨hundamaged, hsound⟩
  | writeBack i iv refreshIv =>
    dsimp only [RefreshRace.step]
    split
    next snapshot outcome hi =>
      refine ⟨undamaged_writeBack hundamaged (hsound i _ hi) rfl (hcond _ hi outcome rfl) iv
        refreshIv _, fun j f hf => hsound j f (Registry.get?_of_get?_remove hf).2⟩
    next => exact ⟨hundamaged, hsound⟩
  | abandon i =>
    exact ⟨hundamaged.extends (.refl _) _,
      fun j f hf => hsound j f (Registry.get?_of_get?_remove hf).2⟩

/-- Where every link and every write finds what it counts on, no refresh damages a
credential. -/
theorem undamaged_of_undisturbed (deps : OAuthRefresherDeps) (gitlabBaseUrl : String)
    (acts : List RaceAction)
    (h : Along (step deps gitlabBaseUrl) (Undisturbed deps gitlabBaseUrl) init acts) :
    Throughout (step deps gitlabBaseUrl) (Undamaged deps) init acts := by
  have hinit : Consistent deps gitlabBaseUrl init :=
    ⟨⟨nofun, nofun, nofun, nofun⟩, nofun⟩
  refine throughout_of_along h fun as has => ?_
  exact (exec_invariant (fun _ _ hs hcond => hs.step hcond) hinit has).undamaged

end Runs

section Examples

instance (g : TokenIssuer) (token : String) (status : Nat) (text : String) :
    Decidable (TurnedDown g token status text) := inferInstanceAs (Decidable (_ → _))

instance (deps : OAuthRefresherDeps) (gitlabBaseUrl : String) (row : Option CredentialRow)
    (snapshot : CredentialRow) : (outcome : RefreshOutcome) →
    Decidable (FindsItsRow deps gitlabBaseUrl row snapshot outcome)
  | .skip => inferInstanceAs (Decidable True)
  | .rotate _ _ _ => inferInstanceAs (Decidable (∀ r ∈ row, _ ∧ _))
  | .markExpired => inferInstanceAs (Decidable (∀ r ∈ row, _ → _))

instance (deps : OAuthRefresherDeps) (gitlabBaseUrl : String) (s : RefreshRace) :
    (a : RaceAction) → Decidable (Undisturbed deps gitlabBaseUrl s a)
  | .link _ _ _ _ => inferInstanceAs (Decidable (∀ r ∈ s.row, _ ∧ _))
  | .request i _ (.refused _ _) => inferInstanceAs (Decidable (∀ f ∈ s.refreshes.get? i, _))
  | .writeBack i _ _ => inferInstanceAs (Decidable (∀ f ∈ s.refreshes.get? i, _))
  | .unlink | .read _ | .abandon _ | .request _ _ .unreachable | .request _ _ (.lost _)
  | .request _ _ (.served _) => inferInstanceAs (Decidable True)

/-- Alice links her account, and Bob's takes its place. -/
def aliceLinks : RaceAction :=
  .link "iv" "refreshIv" 0 ⟨"alice", "access", some "refresh", some 7200⟩

def bobLinks : RaceAction :=
  .link "iv'" "refreshIv'" 7200 ⟨"bob", "access'", some "refresh'", some 14400⟩

def newTokens : TokenData := ⟨some "access2", some "refresh2", some 7200, ""⟩

theorem undamaged_in_turn :
    Throughout (step TokenStore.exampleDeps "https://gitlab.com") (Undamaged TokenStore.exampleDeps)
      init [aliceLinks, .read 7200, .request 0 7200 (.served newTokens),
        .writeBack 0 "iv2" "refreshIv2", bobLinks, .unlink] :=
  undamaged_of_undisturbed TokenStore.exampleDeps "https://gitlab.com" _ (by decide +kernel)

/-- A refresh that began before another account was linked writes the tokens of the first one over
it; and of two sweeps that overlap, the second marks the row that the first one has renewed. -/
theorem damaged_by_a_late_write :
    (¬ Throughout (step TokenStore.exampleDeps "https://gitlab.com") (Undamaged TokenStore.exampleDeps)
      init [aliceLinks, .read 7200, .request 0 7200 (.served newTokens), bobLinks,
        .writeBack 0 "iv2" "refreshIv2"]) ∧
    ¬ Throughout (step TokenStore.exampleDeps "https://gitlab.com") (Undamaged TokenStore.exampleDeps)
      init [aliceLinks, .read 7200, .read 7200, .request 0 7200 (.served newTokens),
        .writeBack 0 "iv2" "refreshIv2", .request 1 7200 (.served ⟨none, none, none, ""⟩),
        .writeBack 1 "iv3" "refreshIv3"] := by
  constructor
  · intro h
    have haccess := h.last.access
    revert haccess
    decide +kernel
  · intro h
    have hvalid := h.last.valid
    revert hvalid
    decide +kernel

end Examples

end RefreshRace

end HulyGitlab
