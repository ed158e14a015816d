import HulyGitlab.Sync.Issues

/-!
# The merge request manager

`MergeRequestsSyncManager` with its status map, the mixins that hold the
GitLab side of a merge request, and the approval actions.
-/

namespace HulyGitlab

def MR_MIXIN : String := "gitlab-mr"

def MR_CORE_MIXIN : String := "gitlab-mr-core"

def MR_REVIEW_MIXIN_DOC : String := "gitlab-mr-review"

/-- `chunter.class.ChatMessage`. -/
def chatMessageClass : String := "chunter:class:ChatMessage"

namespace MRStatusMap

variable (env : Env)

def ACTIVE_KEYWORDS : List String := ["active", "todo", "inprogress", "unstarted", "backlog"]

def DONE_KEYWORDS : List String := ["done", "won"]

def CANCELLED_KEYWORDS : List String := ["cancelled", "canceled", "lost"]

def priorityLow : JsValue := .num 4

structure MRStateMapping where
  status : JsValue
  priority : Option JsValue

def findFirst (statuses : List Status) (keywords : List String) : Option Ref :=
  (statuses.find? fun s => StatusMap.categoryMatches env s keywords).map (·._id)

/-- The first status of the keywords, or else the first active one, or else the current one. -/
def firstOr (statuses : List Status) (keywords : List String) (currentStatusRef : JsValue) :
    JsValue :=
  match findFirst env statuses keywords with
  | some status => .str status
  | none =>
      match findFirst env statuses ACTIVE_KEYWORDS with
      | some fallback => .str fallback
      | none => currentStatusRef

def mapRemoteMRState (remote draft currentStatusRef : JsValue) (statuses : List Status) :
    MRStateMapping :=
  if remote = .str "locked" then ⟨currentStatusRef, none⟩
  else if remote = .str "merged" then ⟨firstOr env statuses DONE_KEYWORDS currentStatusRef, none⟩
  else if remote = .str "closed" then
    ⟨firstOr env statuses CANCELLED_KEYWORDS currentStatusRef, none⟩
  else
    let status := firstOr env statuses ACTIVE_KEYWORDS currentStatusRef
    if draft.truthy then ⟨status, some priorityLow⟩ else ⟨status, none⟩

/-- The event for a status; nothing when its category is unclear. -/
def mapHulyStatusToMRStateEvent (hulyStatusRef : JsValue) (statuses : List Status) :
    Option String :=
  match statuses.find? fun s => JsValue.str s._id = hulyStatusRef with
  | none => none
  | some status =>
      if StatusMap.categoryMatches env status DONE_KEYWORDS ∨
          StatusMap.categoryMatches env status CANCELLED_KEYWORDS then some "close"
      else if StatusMap.categoryMatches env status ACTIVE_KEYWORDS then some "reopen"
      else none

end MRStatusMap

/-- The attributes of the split mixins, or of the legacy one when both are missing. -/
def readMRMixinAttributes (issue : HulyDoc) : Fields :=
  match issue.mixins.get? MR_CORE_MIXIN, issue.mixins.get? MR_REVIEW_MIXIN_DOC with
  | none, none => (issue.mixins.get? MR_MIXIN).getD []
  | core, review => (core.getD []).assign (review.getD [])

namespace MRApprovals

variable (env : Env)

def APPROVAL_RACE_WINDOW_MS : Nat := 30000

/-- The length of a string in UTF-16 units. -/
def utf16Length (s : String) : Nat := (s.toList.map fun c => if 0xFFFF < c.toNat then 2 else 1).sum

/-- The guard on the token header; a bad token is rejected before any request. -/
def validateActorTokenHeader : Option String → Except Err Unit
  | none => .ok ()
  | some token =>
      if token = "" ∨ 4096 < utf16Length token ∨ '\r' ∈ token.toList ∨ '\n' ∈ token.toList ∨
          '\x00' ∈ token.toList then .error (.service "invalid actor token")
      else .ok ()

inductive ApprovalAction
  | approve
  | unapprove
  deriving DecidableEq

def ApprovalAction.request (kind : ApprovalAction) (projectId iid : Int)
    (actorToken : Option String) : GitLabRequest :=
  match kind with
  | .approve => .approveMR projectId iid actorToken
  | .unapprove => .unapproveMR projectId iid actorToken

/-- A comment on the mirror; its failure is swallowed. -/
def postComment (bctx : BindingContext) (issueRef : Ref) (body : String) : Sync Unit :=
  Effect.attempt
    (do
      let _ ← Sync.createDoc env chatMessageClass bctx.hulyProjectRef
        (withOriginatedMarker
          [("attachedTo", .str issueRef), ("attachedToClass", .str issueClass),
            ("collection", .str "comments"), ("message", .str body)])
      pure ())
    fun _ => pure ()

def postVisibilityComment (bctx : BindingContext) (issueRef : Ref) (kind : ApprovalAction) :
    Sync Unit :=
  let verb := match kind with
    | .approve => "Approved"
    | .unapprove => "Unapproved"
  postComment env bctx issueRef
    (verb ++ " via service account; per-user OAuth UI coming in Phase 4")

def postFailureComment (bctx : BindingContext) (issueRef : Ref) (kind : ApprovalAction) :
    Sync Unit :=
  let verb := match kind with
    | .approve => "Approval"
    | .unapprove => "Unapproval"
  postComment env bctx issueRef (verb ++ " failed — see logs for details")

/-- The adapter turns every error of the request into an `ApprovalActionError`. -/
def tryAction (projectId iid : Int) (actorToken : Option String) (kind : ApprovalAction) :
    Sync Bool :=
  Effect.attempt
    (do
      let _ ← Sync.request env (kind.request projectId iid actorToken)
      pure true)
    fun _ => pure false

def invokeApprovalAction (bctx : BindingContext) (issueRef : Ref) (iid : Int)
    (kind : ApprovalAction) (person : JsValue) : Sync Unit := do
  let actorToken ← Effect.ofExcept (env.resolveActorToken bctx.workspaceUuid person)
  Effect.ofExcept (validateActorTokenHeader actorToken)
  let done ← tryAction env bctx.gitlabProjectId iid actorToken kind
  if done then
    if actorToken = none then postVisibilityComment env bctx issueRef kind else pure ()
  else postFailureComment env bctx issueRef kind

def applyApprovalActions (bctx : BindingContext) (issueRef : Ref) (iid : Int)
    (incoming : JsValue) : Sync Unit := do
  let hulyIssue ← Sync.findOne env issueClass issueRef
  let approvedBy := match hulyIssue with
    | some issue => Fields.field (readMRMixinAttributes issue) "approvedBy"
    | none => .undefined
  let current ← Effect.ofExcept (approvedBy.orElse (.arr [])).items
  let incoming ← Effect.ofExcept incoming.items
  let added := incoming.filter fun u => u.text ∉ current.map JsValue.text
  let removed := current.filter fun u => u.text ∉ incoming.map JsValue.text
  Effect.forEach (invokeApprovalAction env bctx issueRef iid .approve) added
  Effect.forEach (invokeApprovalAction env bctx issueRef iid .unapprove) removed

/-- `a.length < b` for a number `b`. -/
def lengthBelow (len : Option Nat) (bound : JsValue) : Bool :=
  match len, bound with
  | some len, .num bound => (len : Int) < bound
  | _, _ => false

/-- Every rule has its threshold met. -/
def deriveApprovalStatusFromRules : List JsValue → Except Err JsValue
  | [] => .ok (.str "approved")
  | rule :: rules => do
      let approvedBy ← rule.prop "approvedBy"
      let len ← approvedBy.length
      let approvalsRequired ← rule.prop "approvalsRequired"
      if lengthBelow len approvalsRequired then .ok (.str "pending")
      else deriveApprovalStatusFromRules rules

/-- `deriveApprovalStatus` on a list of approvers. -/
def deriveApprovalStatus (approvers : Option Nat) (approvalsRequired : JsValue) : JsValue :=
  match approvers, approvalsRequired with
  | some len, .num required =>
      if 0 < required ∧ required ≤ (len : Int) then .str "approved" else .str "pending"
  | _, _ => .str "pending"

def buildCoreFromSyncMR (syncMR : Fields) : Fields :=
  [("sourceBranch", syncMR.field "sourceBranch"), ("targetBranch", syncMR.field "targetBranch"),
    ("draft", syncMR.field "draft"), ("mergedAt", syncMR.field "mergedAt"),
    ("mergeStatus", syncMR.field "mergeStatus"), ("webUrl", syncMR.field "webUrl"),
    ("gitlabIid", syncMR.field "iid"), ("gitlabProjectId", syncMR.field "projectId")]

/-- The status that goes with the approval fields of a record, `undefined` without them. -/
def approvalStatusOf (syncMR : Fields) (approvedByUuids : JsValue) : Except Err JsValue := do
  let approvalRules := syncMR.field "approvalRules"
  let rules ← if approvalRules = .undefined then pure (some 0) else approvalRules.length
  if (rules.getD 0) ≠ 0 then
    let rules ← approvalRules.elements
    deriveApprovalStatusFromRules rules
  else if syncMR.field "approvedBy" ≠ .undefined ∧ syncMR.field "approvalsRequired" ≠ .undefined then
    let approvers ← (approvedByUuids.orElse (.arr [])).length
    pure (deriveApprovalStatus approvers (syncMR.field "approvalsRequired"))
  else pure .undefined

/-- The review attributes; only those the record carries. -/
def buildReviewFromSyncMR (syncMR : Fields) (reviewerUuids approvedByUuids : JsValue) :
    Except Err Fields := do
  let status ← approvalStatusOf syncMR approvedByUuids
  pure (given "reviewers" reviewerUuids ++ given "approvedBy" approvedByUuids ++
    given "approvalsRequired" (syncMR.field "approvalsRequired") ++
    given "approvalRules" (syncMR.field "approvalRules") ++ given "approvalStatus" status ++
    given "iteration" (syncMR.field "iteration") ++ given "diffWebUrl" (syncMR.field "diffWebUrl") ++
    given "changedFiles" (syncMR.field "changedFiles"))

end MRApprovals

namespace MergeRequests

open MRApprovals

variable (env : Env)

/-- One reference for each user; `undefined` when the users were not fetched. -/
def resolveReviewerUuids (workspaceUuid : String) (users : JsValue) : Sync JsValue :=
  if users = .undefined then pure .undefined
  else do
    let users ← Effect.ofExcept users.elements
    let refs ← Effect.mapEach (UserIdentity.resolveUser env workspaceUuid) users
    pure (.arr (refs.map .str))

/-- `milestoneCache.ensureLocalMilestone` on the title of the milestone of a record. -/
def resolveMilestone (space : Ref) (milestone : JsValue) : Sync JsValue :=
  if milestone = .null then pure .null
  else do
    let title ← Effect.ofExcept (milestone.prop "title")
    let ref ← MilestoneCache.ensureLocalMilestone env space .new title .undefined
    pure (.str ref.1)

def managedFields : List String :=
  ["title", "description", "status", "assignee", "milestone", "labels", "priority"]

/-- What a record is resolved to before the branches of `applyRemote`. -/
structure RemoteMR where
  description : JsValue
  assignee : JsValue
  reviewerUuids : JsValue
  approvedByUuids : JsValue
  labels : JsValue
  milestone : JsValue

def resolveRecord (bctx : BindingContext) (syncMR : Fields) : Sync RemoteMR := do
  let rawDescription ← Effect.ofExcept ((syncMR.field "description").orElse (.str "")).asStr
  let descriptionMarkup :=
    env.gfmMarkdownToMarkup rawDescription (mergeRequestRefUrl bctx) (imageUrl bctx)
  let assignee ← UserIdentity.resolveAssignee env bctx.workspaceUuid (syncMR.field "assignees")
  let reviewerUuids ← resolveReviewerUuids env bctx.workspaceUuid (syncMR.field "reviewers")
  let approvedByUuids ← resolveReviewerUuids env bctx.workspaceUuid (syncMR.field "approvedBy")
  let names ← Effect.ofExcept (syncMR.field "labels").elements
  let labelRefs ← LabelCache.resolveLocal env bctx.hulyProjectRef .new names
  let milestone ← resolveMilestone env bctx.hulyProjectRef (syncMR.field "milestone")
  pure ⟨.str descriptionMarkup, assignee, reviewerUuids, approvedByUuids,
    .arr (labelRefs.1.map .str), milestone⟩

def remoteVersions (syncMR : Fields) (r : RemoteMR) (mapping : MRStatusMap.MRStateMapping)
    (attrs : Fields) (ts : JsDate) : Conflict.FieldMap :=
  let status :=
    if syncMR.field "state" = .str "locked" then attrs.field "status" else mapping.status
  [("title", ⟨syncMR.field "title", some ts⟩), ("description", ⟨r.description, some ts⟩),
    ("status", ⟨status, some ts⟩), ("assignee", ⟨r.assignee, some ts⟩),
    ("milestone", ⟨r.milestone, some ts⟩), ("labels", ⟨r.labels, some ts⟩),
    ("priority", ⟨mapping.priority.getD (attrs.field "priority"), some ts⟩)]

def localVersions (attrs : Fields) : Conflict.FieldMap :=
  Issues.localVersions attrs ++
    [("priority", ⟨attrs.field "priority", localTsOf (attrs.field "modifiedOn")⟩)]

def createAttributes (bctx : BindingContext) (syncMR : Fields) (r : RemoteMR)
    (mapping : MRStatusMap.MRStateMapping) (remoteTs : JsDate) : Fields :=
  withOriginatedMarker
    [("title", syncMR.field "title"), ("description", r.description), ("status", mapping.status),
      ("priority", mapping.priority.getD Issues.noPriority), ("assignee", r.assignee),
      ("labels", r.labels), ("milestone", r.milestone), ("kind", .str bctx.defaultTaskType),
      ("modifiedOn", timeValue remoteTs)]

/-- The second mixin is only written when the record has something for it. -/
def putReviewMixin (ref : Ref) (review : Fields) : Sync Unit :=
  if review = [] then pure ()
  else Sync.putMixin env ref MR_REVIEW_MIXIN_DOC (withOriginatedMarker review)

/-- The branch of `applyRemote` for a merge request without a row. -/
def createFromRemote (binding : BindingRef) (bctx : BindingContext) (gitlabId : String)
    (syncMR : Fields) (r : RemoteMR) (remoteTs : JsDate) : Sync Unit := do
  let mapping := MRStatusMap.mapRemoteMRState env (syncMR.field "state") (syncMR.field "draft")
    (.str "") bctx.statuses
  if mapping.status.text = "" then pure ()
  else do
    let issueRef ← Sync.createDoc env issueClass bctx.hulyProjectRef
      (createAttributes bctx syncMR r mapping remoteTs)
    Sync.putMixin env issueRef MR_CORE_MIXIN (withOriginatedMarker (buildCoreFromSyncMR syncMR))
    let review ← Effect.ofExcept (buildReviewFromSyncMR syncMR r.reviewerUuids r.approvedByUuids)
    putReviewMixin env issueRef review
    Sync.upsertIdMap env ⟨bctx.workspaceUuid, .merge_request, gitlabId, issueClass, issueRef⟩
    Sync.setCursor env binding .merge_requests remoteTs

/-- The race guard: a longer local list is kept when the mirror was touched within the window,
or not before the record. -/
def keepLocalApprovals (modifiedOn : JsValue) (now : Nat) (remoteTs : JsDate)
    (localLength remoteLength : Option Nat) : Bool :=
  match localLength, remoteLength, modifiedOn with
  | some l, some r, .num ts =>
      r < l && decide (0 < ts) &&
        (decide ((now : Int) - ts < APPROVAL_RACE_WINDOW_MS) ||
          match remoteTs with
          | some remoteMs => decide ((remoteMs : Int) ≤ ts)
          | none => false)
  | _, _, _ => false

def resolvedApprovedBy (issue : HulyDoc) (now : Nat) (remoteTs : JsDate)
    (approvedByUuids : JsValue) : Except Err JsValue :=
  if approvedByUuids = .undefined then pure .undefined
  else do
    let localApprovedBy :=
      (Fields.field (readMRMixinAttributes issue) "approvedBy").orElse (.arr [])
    let localLength ← localApprovedBy.length
    let remoteLength ← approvedByUuids.length
    if keepLocalApprovals (issue.attrs.field "modifiedOn") now remoteTs localLength remoteLength then
      pure localApprovedBy
    else pure approvedByUuids

def updateOperations (bctx : BindingContext) (attrs syncMR : Fields) (r : RemoteMR)
    (remoteTs : JsDate) : Fields :=
  let mapping := MRStatusMap.mapRemoteMRState env (syncMR.field "state") (syncMR.field "draft")
    (attrs.field "status") bctx.statuses
  Conflict.takeAll (localVersions attrs) (remoteVersions syncMR r mapping attrs remoteTs)
    managedFields

/-- The mixin writes of an update: remote wins, whatever the clock says. -/
def putMixins (hulyRef : Ref) (issue : HulyDoc) (syncMR : Fields) (r : RemoteMR)
    (remoteTs : JsDate) : Sync Unit := do
  let now ← Effect.gets World.now
  let approvedBy ← Effect.ofExcept (resolvedApprovedBy issue now remoteTs r.approvedByUuids)
  Sync.putMixin env hulyRef MR_CORE_MIXIN (withOriginatedMarker (buildCoreFromSyncMR syncMR))
  let review ← Effect.ofExcept (buildReviewFromSyncMR syncMR r.reviewerUuids approvedBy)
  putReviewMixin env hulyRef review

/-- The branch of `applyRemote` for a mapped merge request. -/
def updateFromRemote (binding : BindingRef) (bctx : BindingContext) (hulyRef : Ref)
    (syncMR : Fields) (r : RemoteMR) (remoteTs : JsDate) : Sync Unit := do
  let hulyIssue ← Sync.findOne env issueClass hulyRef
  match hulyIssue with
  | none => pure ()
  | some issue => do
      let localTs := localTsOf (issue.attrs.field "modifiedOn")
      writeUpdate env hulyRef (updateOperations env bctx issue.attrs syncMR r remoteTs) remoteTs
      putMixins env hulyRef issue syncMR r remoteTs
      advanceCursor env binding .merge_requests localTs remoteTs

def applyRemote (binding : BindingRef) (syncMR : Fields) : Sync Unit := do
  let bctx ← Sync.loadBinding env binding
  let gitlabId := projectKey env bctx (syncMR.field "iid")
  let existing ← Sync.findByGitlab env bctx.workspaceUuid .merge_request gitlabId
  let r ← resolveRecord env bctx syncMR
  let remoteTs := (syncMR.field "updatedAt").getTime
  match existing with
  | none => createFromRemote env binding bctx gitlabId syncMR r remoteTs
  | some row => updateFromRemote env binding bctx row.hulyRef syncMR r remoteTs

/-- The state event for the status of a change; an unclear status has none. -/
def remoteStateEvent (bctx : BindingContext) (statusRef : JsValue) : JsValue :=
  if statusRef = .undefined then .undefined
  else
    match MRStatusMap.mapHulyStatusToMRStateEvent env statusRef bctx.statuses with
    | some event => .str event
    | none => .undefined

/-- The `UpdateMRBody` of a change. -/
def remoteBody (bctx : BindingContext) (change : Fields) : Sync Fields := do
  let labelNames ← remoteLabels env bctx.gitlabProjectId (change.field "labels")
  let milestoneId ← remoteMilestoneId env bctx.gitlabProjectId (change.field "milestone")
  let description ← remoteDescription env (mergeRequestRefUrl bctx) (imageUrl bctx)
    (change.field "description")
  pure (given "title" (change.field "title") ++ given "description" description ++
    given "labels" labelNames ++ given "milestone_id" milestoneId ++
    given "assignee_ids" (change.field "assigneeIds") ++
    given "state_event" (remoteStateEvent env bctx (change.field "status")) ++
    given "target_branch" (change.field "targetBranch"))

def sendUpdate (bctx : BindingContext) (iid : Int) (body : Fields) : Sync Unit :=
  if body = [] then pure ()
  else do
    let _ ← Sync.request env (.updateMergeRequest bctx.gitlabProjectId iid body)
    pure ()

def sendApprovals (bctx : BindingContext) (hulyRef : Ref) (iid : Int) (approvedBy : JsValue) :
    Sync Unit :=
  if approvedBy = .undefined then pure () else applyApprovalActions env bctx hulyRef iid approvedBy

/-- The writes of `applyLocal` to the merge request `iid`; whether there were any. -/
def pushChange (bctx : BindingContext) (hulyRef : Ref) (iid : Int) (change : Fields) :
    Sync Bool := do
  let body ← remoteBody env bctx change
  sendUpdate env bctx iid body
  sendApprovals env bctx hulyRef iid (change.field "approvedBy")
  pure (decide (body ≠ [] ∨ change.field "approvedBy" ≠ .undefined))

/-- The row is looked up by the document alone; a merge request is never created. -/
def applyLocal (binding : BindingRef) (doc : String) (change : Fields) : Sync Unit := do
  let bctx ← Sync.loadBinding env binding
  let hulyRef := stripDocPrefix doc
  let mapping ← Sync.findByHuly env bctx.workspaceUuid issueClass hulyRef
  match mapping with
  | none => pure ()
  | some row =>
      match parseIid row.gitlabId with
      | none => pure ()
      | some iid => do
          let touchedRemote ← pushChange env bctx hulyRef iid change
          if touchedRemote then do
            let now ← Effect.gets World.now
            Sync.setCursor env binding .merge_requests (some now)
          else pure ()

end MergeRequests

end HulyGitlab
