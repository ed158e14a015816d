import HulyGitlab.Sync.Mirroring
import HulyGitlab.Sync.MixinReading
import HulyGitlab.Sync.TxSubscription
import Mathlib.Data.List.Dedup

/-!
# The approvals of an edit

A user edits the approvers of a merge request in Huly. The platform applies the
transaction to the document and then notifies the subscriber, so the manager
compares the new list with a document that has the edit already, unless it reads
another mixin than the one that was edited.
-/

namespace HulyGitlab

section Delta

variable {A B : Type} [DecidableEq A]

theorem filter_dedup_perm (p : A → Bool) (xs : List A) :
    (xs.filter p).dedup.Perm (xs.dedup.filter p) := by
  rw [List.perm_ext_iff_of_nodup (List.nodup_dedup _) ((List.nodup_dedup _).filter _)]
  intro x
  simp only [List.mem_dedup, List.mem_filter]

/-- A call for each entry of a list is one call for each element exactly when no element is
repeated. -/
theorem map_perm_map_dedup_iff (f : A → B) (p : A → Bool) (xs : List A) :
    ((xs.filter p).map f).Perm ((xs.dedup.filter p).map f) ↔ (xs.filter p).Nodup := by
  have hperm := filter_dedup_perm p xs
  constructor
  · intro h
    have hlength := h.length_eq
    rw [List.length_map, List.length_map, ← hperm.length_eq] at hlength
    have hsame : (xs.filter p).dedup = xs.filter p :=
      (List.dedup_sublist _).eq_of_length hlength.symm
    exact List.dedup_eq_self.mp hsame
  · intro h
    rw [List.dedup_eq_self.mpr h] at hperm
    exact hperm.map f

/-- No call at all is one for each element exactly when there is none. -/
theorem nil_perm_map_dedup_iff (f : A → B) (xs ys : List A) :
    ([] : List B).Perm ((xs.dedup.filter (· ∉ ys)).map f) ↔ ∀ x ∈ xs, x ∈ ys := by
  rw [List.nil_perm, List.map_eq_nil_iff, List.filter_eq_nil_iff]
  simp only [List.mem_dedup, decide_eq_true_eq, not_not]

end Delta

namespace ApprovalDelta

open MRApprovals

/-- The mixins that can carry the approvers. -/
inductive ApprovalMixin
  | legacy
  | review
  deriving DecidableEq

def ApprovalMixin.id : ApprovalMixin → String
  | .legacy => MR_MIXIN
  | .review => MR_REVIEW_MIXIN_DOC

/-- A user sets the approvers of a document. -/
structure ApprovalEdit where
  author : String
  space : Ref
  ref : Ref
  mixin : ApprovalMixin
  approvers : List String
  deriving DecidableEq

def ApprovalEdit.attributes (e : ApprovalEdit) : Fields :=
  [("approvedBy", .arr (e.approvers.map .str))]

def ApprovalEdit.tx (e : ApprovalEdit) : Tx where
  _class := TX_CLASS_MIXIN
  modifiedBy := e.author
  objectId := e.ref
  objectClass := issueClass
  objectSpace := e.space
  mixin := e.mixin.id
  attributes := some e.attributes
  operations := none

/-- The platform applies the transaction. -/
def applied (w : World) (e : ApprovalEdit) : World :=
  match w.docs.get? e.ref with
  | some doc => { w with docs := w.docs.set e.ref (doc.mergeMixin e.mixin.id e.attributes) }
  | none => w

/-- The transaction is applied, and then its event is handled. -/
def deliver (env : Env) (deps : TxSubscription.TxSubscriberDeps) (w : World) (e : ApprovalEdit) :
    World :=
  ((TxSubscription.handleTx env deps e.tx).run (applied w e)).2

/-- The approvers of a document, as the manager reads them. -/
def Approvers (doc : HulyDoc) (approvers : List String) : Prop :=
  ((readMRMixinAttributes doc).field "approvedBy").orElse (.arr []) = .arr (approvers.map .str)

/-- The document has a split mixin, which hides the legacy one. -/
def HasSplit (doc : HulyDoc) : Prop :=
  doc.mixins.get? MR_CORE_MIXIN ≠ none ∨ doc.mixins.get? MR_REVIEW_MIXIN_DOC ≠ none

instance (doc : HulyDoc) : Decidable (HasSplit doc) := inferInstanceAs (Decidable (_ ∨ _))

/-- The token that a person's call is made with. -/
def actorToken (env : Env) (workspaceUuid person : String) : Option String :=
  match env.resolveActorToken workspaceUuid (.str person) with
  | .ok token => token
  | .error _ => none

/-- The credentials of the users can be read, and a stored token may stand in a header. -/
def TokensResolve (env : Env) (workspaceUuid : String) : Prop :=
  ∀ person, env.resolveActorToken workspaceUuid (.str person) =
      .ok (actorToken env workspaceUuid person) ∧
    validateActorTokenHeader (actorToken env workspaceUuid person) = .ok ()

/-- The call for a person. -/
def call (env : Env) (bctx : BindingContext) (iid : Int) (kind : ApprovalAction) (person : String) :
    GitLabRequest :=
  kind.request bctx.gitlabProjectId iid (actorToken env bctx.workspaceUuid person)

def isApproval : GitLabRequest → Bool
  | .approveMR .. => true
  | _ => false

def isUnapproval : GitLabRequest → Bool
  | .unapproveMR .. => true
  | _ => false

/-- One approval for each person who came, and one revocation for each who left. -/
def ExactDelta (env : Env) (bctx : BindingContext) (iid : Int) (before after : List String)
    (issued : List GitLabRequest) : Prop :=
  (issued.filter isApproval).Perm
      ((after.dedup.filter (· ∉ before)).map (call env bctx iid .approve)) ∧
    (issued.filter isUnapproval).Perm
      ((before.dedup.filter (· ∉ after)).map (call env bctx iid .unapprove))

/-- The requests that come along. -/
def issued (w w' : World) : List GitLabRequest := w'.requests.drop w.requests.length

section Calls

variable {env : Env} {bctx : BindingContext}

/-- A call is issued whether GitLab accepts it or not. -/
theorem invokeApprovalAction_run (htokens : TokensResolve env bctx.workspaceUuid) (issueRef : Ref)
    (iid : Int) (kind : ApprovalAction) (person : String) (w : World) :
    ∃ w', (invokeApprovalAction env bctx issueRef iid kind (.str person)).run w = (.ok (), w') ∧
      w'.requests = w.requests ++ [call env bctx iid kind person] := by
  have hcomment : ∀ body (w : World), ∃ w',
      (postComment env bctx issueRef body).run w = (.ok (), w') ∧ w'.requests = w.requests := by
    intro body w
    unfold postComment
    rw [Effect.attempt_run, Effect.bind_run]
    obtain ⟨e, hrun⟩ | hrun := Sync.createDoc_cases env chatMessageClass bctx.hulyProjectRef
      (withOriginatedMarker
        [("attachedTo", .str issueRef), ("attachedToClass", .str issueClass),
          ("collection", .str "comments"), ("message", .str body)]) w
    · rw [hrun]
      exact ⟨w, rfl, rfl⟩
    · rw [hrun]
      exact ⟨_, rfl, rfl⟩
  obtain ⟨htoken, hvalid⟩ := htokens person
  have htry : ∃ done, (tryAction env bctx.gitlabProjectId iid
      (actorToken env bctx.workspaceUuid person) kind).run w =
        (.ok done, { w with requests := w.requests ++ [call env bctx iid kind person] }) := by
    unfold tryAction
    rw [Effect.attempt_run, Effect.bind_run, Sync.request_run]
    cases env.gitlab w.requests (kind.request bctx.gitlabProjectId iid
        (actorToken env bctx.workspaceUuid person)) with
    | ok answer => exact ⟨true, rfl⟩
    | error e => exact ⟨false, rfl⟩
  obtain ⟨done, htry⟩ := htry
  unfold invokeApprovalAction
  rw [htoken, Effect.ofExcept_ok_bind_run, hvalid, Effect.ofExcept_ok_bind_run,
    Effect.bind_of_ok htry]
  split_ifs
  · exact hcomment _ _
  · exact ⟨_, rfl, rfl⟩
  · exact hcomment _ _

theorem forEach_invoke_run (htokens : TokensResolve env bctx.workspaceUuid) (issueRef : Ref)
    (iid : Int) (kind : ApprovalAction) (people : List String) (w : World) :
    ∃ w', (Effect.forEach (invokeApprovalAction env bctx issueRef iid kind)
        (people.map .str)).run w = (.ok (), w') ∧
      w'.requests = w.requests ++ people.map (call env bctx iid kind) := by
  induction people generalizing w with
  | nil => exact ⟨w, rfl, (List.append_nil _).symm⟩
  | cons person people ih =>
    obtain ⟨w₁, hfirst, hrequests⟩ :=
      invokeApprovalAction_run htokens issueRef iid kind person w
    obtain ⟨w₂, hrest, hrequests'⟩ := ih w₁
    rw [List.map_cons, Effect.forEach_cons, Effect.bind_of_ok hfirst]
    refine ⟨w₂, hrest, ?_⟩
    rw [hrequests', hrequests, List.append_assoc]
    rfl

/-- The calls of the two lists that the manager compares. -/
def compared (env : Env) (bctx : BindingContext) (iid : Int) (current incoming : List String) :
    List GitLabRequest :=
  (incoming.filter (· ∉ current)).map (call env bctx iid .approve) ++
    (current.filter (· ∉ incoming)).map (call env bctx iid .unapprove)

theorem text_map_str (people : List String) : (people.map JsValue.str).map JsValue.text = people := by
  rw [List.map_map]
  exact List.map_id'' (fun _ => rfl) people

/-- Of the values, those whose text is not in the other list. -/
theorem filter_map_str (people others : List String) :
    (people.map JsValue.str).filter (fun u => u.text ∉ others) =
      (people.filter (· ∉ others)).map .str := by
  rw [List.filter_map]
  rfl

theorem applyApprovalActions_run (h : env.Healthy)
    (htokens : TokensResolve env bctx.workspaceUuid) {issueRef : Ref} {doc : HulyDoc}
    {current incoming : List String} (iid : Int) {w : World}
    (hdoc : w.docs.get? issueRef = some doc) (hclass : doc.objectClass = issueClass)
    (hcurrent : Approvers doc current) :
    ∃ w', (applyApprovalActions env bctx issueRef iid (.arr (incoming.map .str))).run w =
        (.ok (), w') ∧
      w'.requests = w.requests ++ compared env bctx iid current incoming := by
  unfold Approvers at hcurrent
  unfold applyApprovalActions
  rw [Effect.bind_of_ok (Sync.findOne_run h _ _ w), hdoc]
  have hfound : (some doc).filter (fun doc : HulyDoc => doc.objectClass = issueClass) = some doc := by
    rw [Option.filter_some, if_pos (decide_eq_true hclass)]
  rw [hfound]
  dsimp only
  rw [hcurrent, JsValue.items_arr, Effect.ofExcept_ok_bind_run, JsValue.items_arr,
    Effect.ofExcept_ok_bind_run, text_map_str, text_map_str, filter_map_str, filter_map_str]
  obtain ⟨w₁, hadded, hrequests⟩ := forEach_invoke_run htokens issueRef iid .approve
    (incoming.filter (· ∉ current)) w
  obtain ⟨w₂, hremoved, hrequests'⟩ := forEach_invoke_run htokens issueRef iid .unapprove
    (current.filter (· ∉ incoming)) w₁
  rw [Effect.bind_of_ok hadded]
  refine ⟨w₂, hremoved, ?_⟩
  rw [hrequests', hrequests, List.append_assoc, compared]

/-- The merge request of a document. -/
structure Mirrored (env : Env) (bctx : BindingContext) (iid : Int) (ref : Ref) (doc : HulyDoc)
    (w : World) : Prop where
  row : ∃ row, w.idmap.findByHuly bctx.workspaceUuid issueClass ref = some row ∧
    row.gitlabId = projectKey env bctx (.num iid)
  found : w.docs.get? ref = some doc
  isIssue : doc.objectClass = issueClass
  /-- The platform gives its documents ids without a colon. -/
  colonless : ':' ∉ ref.toList

/-- What the manager does with the approvers of a change, and nothing else. -/
theorem applyLocal_run (h : env.Healthy) (htokens : TokensResolve env bctx.workspaceUuid)
    {binding : BindingRef} (hload : env.loadBinding binding = .ok bctx) {iid : Int} {ref : Ref}
    {doc : HulyDoc} {w : World} (hm : Mirrored env bctx iid ref doc w) {current : List String}
    (hcurrent : Approvers doc current) (incoming : List String) :
    ((MergeRequests.applyLocal env binding ref
      [("approvedBy", .arr (incoming.map .str))]).run w).2.requests =
        w.requests ++ compared env bctx iid current incoming := by
  obtain ⟨row, hrow, hid⟩ := hm.row
  obtain ⟨w₁, hrun, hrequests⟩ :=
    applyApprovalActions_run h htokens iid hm.found hm.isIssue hcurrent
  have hloaded : (Sync.loadBinding env binding).run w = (.ok bctx, w) :=
    Effect.ofExcept_ok_iff.mpr ⟨hload, rfl⟩
  have hiid : parseIid row.gitlabId = some iid := by rw [hid, parseIid_projectKey]
  have hbody : (MergeRequests.remoteBody env bctx [("approvedBy", .arr (incoming.map .str))]).run w =
      (.ok [], w) := rfl
  have hpush : (MergeRequests.pushChange env bctx ref iid
      [("approvedBy", .arr (incoming.map .str))]).run w = (.ok true, w₁) := by
    unfold MergeRequests.pushChange
    rw [Effect.bind_of_ok hbody]
    have hsent : (MergeRequests.sendUpdate env bctx iid []).run w = (.ok (), w) := rfl
    have happrovals : (MergeRequests.sendApprovals env bctx ref iid
        (Fields.field [("approvedBy", .arr (incoming.map .str))] "approvedBy")).run w =
          (.ok (), w₁) := hrun
    rw [Effect.bind_of_ok hsent, Effect.bind_of_ok happrovals]
    rfl
  unfold MergeRequests.applyLocal
  rw [Effect.bind_of_ok hloaded]
  dsimp only
  rw [stripDocPrefix_of_not_mem hm.colonless, Effect.bind_of_ok (Sync.findByHuly_run h _ _ _ w),
    hrow]
  dsimp only
  rw [hiid]
  dsimp only
  rw [Effect.bind_of_ok hpush, if_pos rfl, Effect.gets_bind_run, Sync.setCursor_run h]
  exact hrequests

end Calls

section Delivery

variable {env : Env} {bctx : BindingContext} {doc : HulyDoc} {before : List String}
  {e : ApprovalEdit}

/-- An edit of the legacy mixin is read back when nothing hides it. -/
theorem approvers_of_legacy (hmixin : e.mixin = .legacy) (hsplit : ¬ HasSplit doc) :
    Approvers (doc.mergeMixin e.mixin.id e.attributes) e.approvers := by
  have hnodup : (e.attributes.map Prod.fst).Nodup := List.nodup_singleton _
  have hfield := doc.field_mergeMixin MR_MIXIN hnodup "approvedBy"
  have hmem : "approvedBy" ∈ e.attributes.map Prod.fst := List.mem_singleton_self _
  rw [if_pos hmem] at hfield
  rw [HasSplit, not_or, not_not, not_not] at hsplit
  have hcore : (doc.mergeMixin MR_MIXIN e.attributes).mixins.get? MR_CORE_MIXIN = none :=
    (OrderedMap.get?_set_of_ne _ (by decide) _).trans hsplit.1
  have hreview : (doc.mergeMixin MR_MIXIN e.attributes).mixins.get? MR_REVIEW_MIXIN_DOC = none :=
    (OrderedMap.get?_set_of_ne _ (by decide) _).trans hsplit.2
  unfold Approvers readMRMixinAttributes
  rw [hmixin, ApprovalMixin.id, hcore, hreview]
  dsimp only
  unfold HulyDoc.mixinAttrs at hfield
  rw [hfield]
  rfl

/-- An edit of the legacy mixin is not seen through a split mixin. -/
theorem approvers_of_split (hmixin : e.mixin = .legacy) (hsplit : HasSplit doc)
    (hbefore : Approvers doc before) :
    Approvers (doc.mergeMixin e.mixin.id e.attributes) before := by
  have hcore : (doc.mergeMixin MR_MIXIN e.attributes).mixins.get? MR_CORE_MIXIN =
      doc.mixins.get? MR_CORE_MIXIN := OrderedMap.get?_set_of_ne _ (by decide) _
  have hreview : (doc.mergeMixin MR_MIXIN e.attributes).mixins.get? MR_REVIEW_MIXIN_DOC =
      doc.mixins.get? MR_REVIEW_MIXIN_DOC := OrderedMap.get?_set_of_ne _ (by decide) _
  have hread : readMRMixinAttributes (doc.mergeMixin MR_MIXIN e.attributes) =
      readMRMixinAttributes doc := by
    unfold readMRMixinAttributes
    rw [hcore, hreview]
    cases hc : doc.mixins.get? MR_CORE_MIXIN with
    | some core => rfl
    | none =>
      cases hr : doc.mixins.get? MR_REVIEW_MIXIN_DOC with
      | some review => rfl
      | none => exact absurd hsplit (by rw [HasSplit, hc, hr]; simp)
  unfold Approvers at hbefore ⊢
  rw [hmixin, ApprovalMixin.id, hread]
  exact hbefore

theorem applied_eq {w : World} (hfound : w.docs.get? e.ref = some doc) :
    applied w e =
      { w with docs := w.docs.set e.ref (doc.mergeMixin e.mixin.id e.attributes) } := by
  rw [applied, hfound]

theorem Mirrored.applied {iid : Int} {w : World} (hm : Mirrored env bctx iid e.ref doc w) :
    Mirrored env bctx iid e.ref (doc.mergeMixin e.mixin.id e.attributes)
      (ApprovalDelta.applied w e) := by
  rw [applied_eq hm.found]
  exact ⟨hm.row, OrderedMap.get?_set_self _ _ _, hm.isIssue, hm.colonless⟩

/-- What the subscriber makes of an edit. -/
theorem entryOf_edit {deps : TxSubscription.TxSubscriberDeps} {binding : BindingRef}
    (hauthor : e.author ≠ deps.serviceAccountPersonId)
    (hbinding : TxSubscription.resolveBinding deps e.ref issueClass = some binding) :
    TxSubscription.entryOf deps e.tx =
      match e.mixin with
      | .legacy => some ⟨binding, .merge_request, e.ref, e.attributes⟩
      | .review => none := by
  have horiginated : ¬ (TxSubscription.isGitlabOriginated e.tx = true) := by
    have hmarker : e.attributes.field "_originated" = .undefined := rfl
    simp [TxSubscription.isGitlabOriginated, ApprovalEdit.tx, hmarker, Fields.field_nil,
      JsValue.get]
  have hclassify : TxSubscription.classify e.tx =
      (TxSubscription.kindOfMixin e.mixin.id).map fun kind => (kind, e.attributes) := rfl
  have htx : e.tx.objectId = e.ref ∧ e.tx.objectClass = issueClass := ⟨rfl, rfl⟩
  have hauthor' : ¬ e.tx.modifiedBy = deps.serviceAccountPersonId := hauthor
  unfold TxSubscription.entryOf
  rw [if_neg hauthor', if_neg horiginated, hclassify, htx.1, htx.2, hbinding]
  cases e.mixin with
  | legacy => rfl
  | review => rfl

/-- The requests of an edit: those of the comparison with what the manager reads afterwards, and
none for an edit of the review mixin, which the subscriber does not track. -/
theorem deliver_issued (h : env.Healthy) (htokens : TokensResolve env bctx.workspaceUuid)
    {deps : TxSubscription.TxSubscriberDeps} {binding : BindingRef}
    (hload : env.loadBinding binding = .ok bctx) (hauthor : e.author ≠ deps.serviceAccountPersonId)
    (hbinding : TxSubscription.resolveBinding deps e.ref issueClass = some binding) {iid : Int}
    {w : World} (hm : Mirrored env bctx iid e.ref doc w) (hbefore : Approvers doc before) :
    issued w (deliver env deps w e) =
      match e.mixin with
      | .review => []
      | .legacy =>
          if HasSplit doc then compared env bctx iid before e.approvers
          else compared env bctx iid e.approvers e.approvers := by
  have hrequests : (applied w e).requests = w.requests := by rw [applied_eq hm.found]
  have hentry := entryOf_edit hauthor hbinding
  unfold issued deliver TxSubscription.handleTx
  cases hmixin : e.mixin with
  | review =>
    rw [hmixin] at hentry
    rw [hentry]
    dsimp only
    rw [Effect.pure_run, hrequests, List.drop_length]
  | legacy =>
    rw [hmixin] at hentry
    rw [hentry]
    have hlocal : ∀ {current}, Approvers (doc.mergeMixin e.mixin.id e.attributes) current →
        ((MergeRequests.applyLocal env binding e.ref e.attributes).run (applied w e)).2.requests =
          w.requests ++ compared env bctx iid current e.approvers := by
      intro current hcurrent
      rw [← hrequests]
      exact applyLocal_run h htokens hload hm.applied hcurrent e.approvers
    dsimp only [TxSubscription.applyLocal]
    split_ifs with hsplit
    · rw [hlocal (approvers_of_split hmixin hsplit hbefore), List.drop_left]
    · rw [hlocal (approvers_of_legacy hmixin hsplit), List.drop_left]

theorem filter_compared (iid : Int) (current incoming : List String) :
    (compared env bctx iid current incoming).filter isApproval =
        (incoming.filter (· ∉ current)).map (call env bctx iid .approve) ∧
      (compared env bctx iid current incoming).filter isUnapproval =
        (current.filter (· ∉ incoming)).map (call env bctx iid .unapprove) := by
  have hall : ∀ (p : GitLabRequest → Bool) (kind : ApprovalAction) (people : List String),
      (∀ person, p (call env bctx iid kind person) = true) →
      (people.map (call env bctx iid kind)).filter p = people.map (call env bctx iid kind) := by
    intro p kind people hp
    refine List.filter_eq_self.mpr fun r hr => ?_
    obtain ⟨person, -, rfl⟩ := List.mem_map.mp hr
    exact hp person
  have hnone : ∀ (p : GitLabRequest → Bool) (kind : ApprovalAction) (people : List String),
      (∀ person, p (call env bctx iid kind person) = false) →
      (people.map (call env bctx iid kind)).filter p = [] := by
    intro p kind people hp
    refine List.filter_eq_nil_iff.mpr fun r hr => ?_
    obtain ⟨person, -, rfl⟩ := List.mem_map.mp hr
    rw [hp person]
    exact Bool.false_ne_true
  unfold compared
  rw [List.filter_append, List.filter_append]
  constructor
  · rw [hall isApproval .approve _ fun _ => rfl, hnone isApproval .unapprove _ fun _ => rfl,
      List.append_nil]
  · rw [hnone isUnapproval .approve _ fun _ => rfl, hall isUnapproval .unapprove _ fun _ => rfl,
      List.nil_append]

/-- The comparison with the old list is exact when nobody is named twice. -/
theorem exactDelta_compared_iff (iid : Int) (after : List String) :
    ExactDelta env bctx iid before after (compared env bctx iid before after) ↔
      (after.filter (· ∉ before)).Nodup ∧ (before.filter (· ∉ after)).Nodup := by
  obtain ⟨happrove, hunapprove⟩ := @filter_compared env bctx iid before after
  unfold ExactDelta
  rw [happrove, hunapprove, map_perm_map_dedup_iff, map_perm_map_dedup_iff]

/-- No request is exact when nobody came and nobody left. -/
theorem exactDelta_nil_iff (iid : Int) (after : List String) :
    ExactDelta env bctx iid before after [] ↔ ∀ person, person ∈ before ↔ person ∈ after := by
  unfold ExactDelta
  rw [List.filter_nil, List.filter_nil, nil_perm_map_dedup_iff, nil_perm_map_dedup_iff]
  constructor
  · exact fun hboth person => ⟨hboth.2 person, hboth.1 person⟩
  · exact fun hsame => ⟨fun person => (hsame person).mpr, fun person => (hsame person).mp⟩

theorem compared_self (iid : Int) (people : List String) :
    compared env bctx iid people people = [] := by
  have hnone : people.filter (· ∉ people) = [] := by
    refine List.filter_eq_nil_iff.mpr fun person hperson => ?_
    simpa using hperson
  rw [compared, hnone]
  rfl

end Delivery

/-- The requests of an edit are the exact delta if and only if the edit goes to a mixin that the
manager does not read, and names nobody of the delta twice, or changes nobody. -/
theorem exactDelta_iff (env : Env) (h : env.Healthy) (bctx : BindingContext)
    (htokens : TokensResolve env bctx.workspaceUuid) (deps : TxSubscription.TxSubscriberDeps)
    (binding : BindingRef) (hload : env.loadBinding binding = .ok bctx) (e : ApprovalEdit)
    (hauthor : e.author ≠ deps.serviceAccountPersonId)
    (hbinding : TxSubscription.resolveBinding deps e.ref issueClass = some binding) (iid : Int)
    (w : World) (doc : HulyDoc) (hm : Mirrored env bctx iid e.ref doc w) (before : List String)
    (hbefore : Approvers doc before) :
    ExactDelta env bctx iid before e.approvers (issued w (deliver env deps w e)) ↔
      (e.mixin = .legacy ∧ HasSplit doc ∧ (e.approvers.filter (· ∉ before)).Nodup ∧
          (before.filter (· ∉ e.approvers)).Nodup) ∨
        ∀ person, person ∈ before ↔ person ∈ e.approvers := by
  have hsilent : (∀ person, person ∈ before ↔ person ∈ e.approvers) →
      e.approvers.filter (· ∉ before) = [] ∧ before.filter (· ∉ e.approvers) = [] := by
    intro hsame
    constructor
    · refine List.filter_eq_nil_iff.mpr fun person hperson => ?_
      simpa using (hsame person).mpr hperson
    · refine List.filter_eq_nil_iff.mpr fun person hperson => ?_
      simpa using (hsame person).mp hperson
  rw [deliver_issued h htokens hload hauthor hbinding hm hbefore]
  cases hmixin : e.mixin with
  | review =>
    dsimp only
    rw [exactDelta_nil_iff]
    simp
  | legacy =>
    dsimp only
    split_ifs with hsplit
    · rw [exactDelta_compared_iff]
      constructor
      · exact fun hnodup => .inl ⟨rfl, hsplit, hnodup⟩
      · rintro (⟨-, -, hnodup⟩ | hsame)
        · exact hnodup
        · rw [(hsilent hsame).1, (hsilent hsame).2]
          exact ⟨List.nodup_nil, List.nodup_nil⟩
    · rw [compared_self, exactDelta_nil_iff]
      constructor
      · exact .inr
      · rintro (⟨-, hyes, -⟩ | hsame)
        · exact absurd hyes hsplit
        · exact hsame

/-- A mirror whose approver is in the review mixin. -/
def reviewedMirror : HulyDoc where
  objectClass := issueClass
  space := "project"
  attrs := []
  mixins := OrderedMap.empty.set MR_REVIEW_MIXIN_DOC [("approvedBy", .arr [.str "ann"])]

def reviewedWorld : World :=
  { World.initial with
    idmap := .single ⟨"ws", .merge_request, "7:5", issueClass, "mirror"⟩
    docs := OrderedMap.empty.set "mirror" reviewedMirror }

theorem mirrored_reviewedWorld :
    Mirrored (Env.quiet quietBinding) quietBinding 5 "mirror" reviewedMirror reviewedWorld where
  row := ⟨⟨"ws", .merge_request, "7:5", issueClass, "mirror"⟩, by decide +kernel, rfl⟩
  found := rfl
  isIssue := rfl
  colonless := by decide

def projectDeps : TxSubscription.TxSubscriberDeps :=
  ⟨"service", OrderedMap.empty.set "project" "b", none⟩

/-- A user puts another approver in the place of the first. -/
def replaceApprover (mixin : ApprovalMixin) : ApprovalEdit :=
  ⟨"user", "project", "mirror", mixin, ["bob"]⟩

theorem tokensResolve_quiet : TokensResolve (Env.quiet quietBinding) "ws" := fun _ => ⟨rfl, rfl⟩

theorem exactDelta_iff_legacy :
    ExactDelta (Env.quiet quietBinding) quietBinding 5 ["ann"] ["bob"] (issued reviewedWorld
        (deliver (Env.quiet quietBinding) projectDeps reviewedWorld (replaceApprover .legacy))) ↔
      ((replaceApprover .legacy).mixin = .legacy ∧ HasSplit reviewedMirror ∧
          (["bob"].filter (· ∉ ["ann"])).Nodup ∧ (["ann"].filter (· ∉ ["bob"])).Nodup) ∨
        ∀ person, person ∈ ["ann"] ↔ person ∈ ["bob"] :=
  exactDelta_iff (Env.quiet quietBinding) (Env.quiet_healthy _) quietBinding tokensResolve_quiet
    projectDeps "b" rfl (replaceApprover .legacy) (by decide) rfl 5 reviewedWorld reviewedMirror
    mirrored_reviewedWorld ["ann"] rfl

/-- The edit goes to the mixin that holds the approvers, and no request is made. -/
theorem not_exactDelta_of_review :
    Mirrored (Env.quiet quietBinding) quietBinding 5 "mirror" reviewedMirror reviewedWorld ∧
      Approvers reviewedMirror ["ann"] ∧
      ¬ ExactDelta (Env.quiet quietBinding) quietBinding 5 ["ann"] ["bob"] (issued reviewedWorld
        (deliver (Env.quiet quietBinding) projectDeps reviewedWorld (replaceApprover .review))) := by
  refine ⟨mirrored_reviewedWorld, rfl, fun h => ?_⟩
  have hsilent : issued reviewedWorld (deliver (Env.quiet quietBinding) projectDeps reviewedWorld
      (replaceApprover .review)) = [] := by decide +kernel
  have hcall : call (Env.quiet quietBinding) quietBinding 5 .approve "bob" ∈
      (["bob"].dedup.filter (· ∉ ["ann"])).map
        (call (Env.quiet quietBinding) quietBinding 5 .approve) := List.mem_map_of_mem (by decide)
  rw [hsilent] at h
  exact absurd (h.1.mem_iff.mpr hcall) List.not_mem_nil

end ApprovalDelta

end HulyGitlab
