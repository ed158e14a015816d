import HulyGitlab.World

/-!
# Adapter records

The records the GitLab client hands to the managers, and the objects they
are at run time.
-/

namespace HulyGitlab

/-- `value` or `null`. -/
def JsValue.ofOption {A : Type} (f : A → JsValue) : Option A → JsValue
  | some a => f a
  | none => .null

@[simp] theorem JsValue.ofOption_some {A : Type} (f : A → JsValue) (a : A) :
    JsValue.ofOption f (some a) = f a := rfl

@[simp] theorem JsValue.ofOption_none {A : Type} (f : A → JsValue) :
    JsValue.ofOption f none = .null := rfl

structure SyncUser where
  id : Int
  username : String
  name : String
  email : Option String
  avatarUrl : Option String
  webUrl : String
  deriving DecidableEq

def SyncUser.toJs (u : SyncUser) : JsValue :=
  .obj [("id", .num u.id), ("username", .str u.username), ("name", .str u.name),
    ("email", .ofOption .str u.email), ("avatarUrl", .ofOption .str u.avatarUrl),
    ("webUrl", .str u.webUrl)]

def IssueState.toJs : IssueState → JsValue
  | .opened => .str "opened"
  | .closed => .str "closed"

structure SyncMilestone where
  id : Int
  iid : Int
  title : String
  description : Option String
  active : Bool
  dueDate : Option String
  startDate : Option String
  createdAt : Nat
  updatedAt : Nat
  deriving DecidableEq

def SyncMilestone.toJs (m : SyncMilestone) : JsValue :=
  .obj [("id", .num m.id), ("iid", .num m.iid), ("title", .str m.title),
    ("description", .ofOption .str m.description),
    ("state", .str (if m.active then "active" else "closed")),
    ("dueDate", .ofOption .str m.dueDate), ("startDate", .ofOption .str m.startDate),
    ("createdAt", .date m.createdAt), ("updatedAt", .date m.updatedAt)]

structure SyncIssue where
  id : Int
  iid : Int
  projectId : Int
  title : String
  description : Option String
  state : IssueState
  labels : List String
  milestone : Option SyncMilestone
  assignees : List SyncUser
  author : SyncUser
  confidential : Bool
  createdAt : Nat
  updatedAt : Nat
  closedAt : Option Nat
  webUrl : String
  deriving DecidableEq

def SyncIssue.toFields (i : SyncIssue) : Fields :=
  [("id", .num i.id), ("iid", .num i.iid), ("projectId", .num i.projectId),
    ("title", .str i.title), ("description", .ofOption .str i.description),
    ("state", i.state.toJs), ("labels", .arr (i.labels.map .str)),
    ("milestone", .ofOption SyncMilestone.toJs i.milestone),
    ("assignees", .arr (i.assignees.map SyncUser.toJs)), ("author", i.author.toJs),
    ("confidential", .bool i.confidential), ("createdAt", .date i.createdAt),
    ("updatedAt", .date i.updatedAt), ("closedAt", .ofOption .date i.closedAt),
    ("webUrl", .str i.webUrl)]

namespace SyncIssue

variable (i : SyncIssue)

@[simp] theorem field_iid : i.toFields.field "iid" = .num i.iid := by simp [toFields]

@[simp] theorem field_title : i.toFields.field "title" = .str i.title := by simp [toFields]

@[simp] theorem field_description :
    i.toFields.field "description" = .ofOption .str i.description := by simp [toFields]

@[simp] theorem field_state : i.toFields.field "state" = i.state.toJs := by simp [toFields]

@[simp] theorem field_labels : i.toFields.field "labels" = .arr (i.labels.map .str) := by
  simp [toFields]

@[simp] theorem field_milestone :
    i.toFields.field "milestone" = .ofOption SyncMilestone.toJs i.milestone := by simp [toFields]

@[simp] theorem field_assignees :
    i.toFields.field "assignees" = .arr (i.assignees.map SyncUser.toJs) := by simp [toFields]

@[simp] theorem field_updatedAt : i.toFields.field "updatedAt" = .date i.updatedAt := by
  simp [toFields]

end SyncIssue

/-- An optional property of an interface; a missing one is not set. -/
def optional (k : String) : Option JsValue → Fields
  | some v => [(k, v)]
  | none => []

@[simp] theorem field_optional_append (j k : String) (v : Option JsValue) (fs : Fields) :
    Fields.field (optional j v ++ fs) k =
      if j = k then v.getD (Fields.field fs k) else Fields.field fs k := by
  cases v with
  | none =>
    by_cases h : j = k
    · rw [if_pos h]
      rfl
    · rw [if_neg h]
      rfl
  | some v => simp [optional]

@[simp] theorem field_optional (j k : String) (v : Option JsValue) :
    Fields.field (optional j v) k = if j = k then v.getD .undefined else .undefined := by
  have h := field_optional_append j k v []
  rwa [List.append_nil, Fields.field_nil] at h

inductive MRState
  | opened
  | closed
  | merged
  | locked
  deriving DecidableEq

def MRState.toJs : MRState → JsValue
  | .opened => .str "opened"
  | .closed => .str "closed"
  | .merged => .str "merged"
  | .locked => .str "locked"

inductive MergeStatus
  | can_be_merged
  | cannot_be_merged
  | unchecked
  | locked
  deriving DecidableEq

def MergeStatus.toJs : MergeStatus → JsValue
  | .can_be_merged => .str "can_be_merged"
  | .cannot_be_merged => .str "cannot_be_merged"
  | .unchecked => .str "unchecked"
  | .locked => .str "locked"

inductive SyncPipelineStatus
  | pending
  | running
  | success
  | failed
  | canceled
  deriving DecidableEq

def SyncPipelineStatus.toJs : SyncPipelineStatus → JsValue
  | .pending => .str "pending"
  | .running => .str "running"
  | .success => .str "success"
  | .failed => .str "failed"
  | .canceled => .str "canceled"

theorem SyncPipelineStatus.ofOption_toJs_injective :
    Function.Injective (JsValue.ofOption SyncPipelineStatus.toJs) := by
  intro s s'
  cases s with
  | none => cases s' with
    | none => exact fun _ => rfl
    | some s' => cases s' <;> exact fun h => by cases h
  | some s => cases s' with
    | none => cases s <;> exact fun h => by cases h
    | some s' => cases s <;> cases s' <;> simp [JsValue.ofOption, SyncPipelineStatus.toJs]

structure SyncMRApprovalRule where
  id : Int
  name : String
  ruleType : String
  eligibleApprovers : List SyncUser
  approvalsRequired : Int
  approvedBy : List SyncUser
  deriving DecidableEq

def SyncMRApprovalRule.toJs (r : SyncMRApprovalRule) : JsValue :=
  .obj [("id", .num r.id), ("name", .str r.name), ("ruleType", .str r.ruleType),
    ("eligibleApprovers", .arr (r.eligibleApprovers.map SyncUser.toJs)),
    ("approvalsRequired", .num r.approvalsRequired),
    ("approvedBy", .arr (r.approvedBy.map SyncUser.toJs))]

structure SyncChangedFile where
  path : String
  oldPath : Option String
  additions : Int
  deletions : Int
  status : String
  diffBody : Option String
  diffOverflow : Option Bool
  deriving DecidableEq

def SyncChangedFile.toJs (f : SyncChangedFile) : JsValue :=
  .obj ([("path", .str f.path)] ++ optional "oldPath" (f.oldPath.map .str) ++
    [("additions", .num f.additions), ("deletions", .num f.deletions), ("status", .str f.status)] ++
    optional "diffBody" (f.diffBody.map .str) ++ optional "diffOverflow" (f.diffOverflow.map .bool))

structure SyncIteration where
  id : String
  title : String
  startDate : Nat
  dueDate : Nat
  state : String
  webUrl : String
  deriving DecidableEq

def SyncIteration.toJs (i : SyncIteration) : JsValue :=
  .obj [("id", .str i.id), ("title", .str i.title), ("startDate", .date i.startDate),
    ("dueDate", .date i.dueDate), ("state", .str i.state), ("webUrl", .str i.webUrl)]

/-- A merge request; the fields behind `webUrl` are only there after the composite fetch. -/
structure SyncMergeRequest where
  iid : Int
  projectId : Int
  title : String
  description : String
  state : MRState
  draft : Bool
  sourceBranch : String
  targetBranch : String
  mergeStatus : MergeStatus
  mergedAt : Option Nat
  pipelineStatus : Option SyncPipelineStatus
  labels : List String
  /-- The number and the title. -/
  milestone : Option (Int × String)
  assignees : List SyncUser
  author : SyncUser
  createdAt : Nat
  updatedAt : Nat
  webUrl : String
  confidential : Bool
  reviewers : Option (List SyncUser)
  approvedBy : Option (List SyncUser)
  approvalsRequired : Option Int
  approvalStatus : Option String
  diffWebUrl : Option String
  changedFiles : Option (List SyncChangedFile)
  approvalRules : Option (List SyncMRApprovalRule)
  iteration : Option (Option SyncIteration)
  deriving DecidableEq

def usersToJs (users : List SyncUser) : JsValue := .arr (users.map SyncUser.toJs)

def milestoneToJs (m : Int × String) : JsValue := .obj [("iid", .num m.1), ("title", .str m.2)]

def SyncMergeRequest.toFields (m : SyncMergeRequest) : Fields :=
  [("iid", .num m.iid), ("projectId", .num m.projectId), ("title", .str m.title),
    ("description", .str m.description), ("state", m.state.toJs), ("draft", .bool m.draft),
    ("sourceBranch", .str m.sourceBranch), ("targetBranch", .str m.targetBranch),
    ("mergeStatus", m.mergeStatus.toJs), ("mergedAt", .ofOption .date m.mergedAt),
    ("pipelineStatus", .ofOption SyncPipelineStatus.toJs m.pipelineStatus),
    ("labels", .arr (m.labels.map .str)), ("milestone", .ofOption milestoneToJs m.milestone),
    ("assignees", usersToJs m.assignees), ("author", m.author.toJs),
    ("createdAt", .date m.createdAt), ("updatedAt", .date m.updatedAt),
    ("webUrl", .str m.webUrl), ("confidential", .bool m.confidential)] ++
    (optional "reviewers" (m.reviewers.map usersToJs) ++
    (optional "approvedBy" (m.approvedBy.map usersToJs) ++
    (optional "approvalsRequired" (m.approvalsRequired.map .num) ++
    (optional "approvalStatus" (m.approvalStatus.map .str) ++
    (optional "diffWebUrl" (m.diffWebUrl.map .str) ++
    (optional "changedFiles"
      (m.changedFiles.map fun files => .arr (files.map SyncChangedFile.toJs)) ++
    (optional "approvalRules"
      (m.approvalRules.map fun rules => .arr (rules.map SyncMRApprovalRule.toJs)) ++
    optional "iteration" (m.iteration.map (.ofOption SyncIteration.toJs)))))))))

namespace SyncMergeRequest

variable (m : SyncMergeRequest)

@[simp] theorem field_iid : m.toFields.field "iid" = .num m.iid := by simp [toFields]

@[simp] theorem field_title : m.toFields.field "title" = .str m.title := by simp [toFields]

@[simp] theorem field_description : m.toFields.field "description" = .str m.description := by
  simp [toFields]

@[simp] theorem field_state : m.toFields.field "state" = m.state.toJs := by simp [toFields]

@[simp] theorem field_draft : m.toFields.field "draft" = .bool m.draft := by simp [toFields]

@[simp] theorem field_labels : m.toFields.field "labels" = .arr (m.labels.map .str) := by
  simp [toFields]

@[simp] theorem field_milestone :
    m.toFields.field "milestone" = .ofOption milestoneToJs m.milestone := by simp [toFields]

@[simp] theorem field_assignees : m.toFields.field "assignees" = usersToJs m.assignees := by
  simp [toFields]

@[simp] theorem field_updatedAt : m.toFields.field "updatedAt" = .date m.updatedAt := by
  simp [toFields]

@[simp] theorem field_reviewers :
    m.toFields.field "reviewers" = (m.reviewers.map usersToJs).getD .undefined := by
  simp [toFields]

@[simp] theorem field_approvedBy :
    m.toFields.field "approvedBy" = (m.approvedBy.map usersToJs).getD .undefined := by
  simp [toFields]

@[simp] theorem field_approvalsRequired :
    m.toFields.field "approvalsRequired" = (m.approvalsRequired.map JsValue.num).getD .undefined := by
  simp [toFields]

@[simp] theorem field_diffWebUrl :
    m.toFields.field "diffWebUrl" = (m.diffWebUrl.map JsValue.str).getD .undefined := by
  simp [toFields]

@[simp] theorem field_changedFiles :
    m.toFields.field "changedFiles" =
      (m.changedFiles.map fun files => .arr (files.map SyncChangedFile.toJs)).getD .undefined := by
  simp [toFields]

@[simp] theorem field_approvalRules :
    m.toFields.field "approvalRules" =
      (m.approvalRules.map fun rules => .arr (rules.map SyncMRApprovalRule.toJs)).getD
        .undefined := by
  simp [toFields]

@[simp] theorem field_iteration :
    m.toFields.field "iteration" =
      (m.iteration.map (JsValue.ofOption SyncIteration.toJs)).getD .undefined := by
  simp [toFields]

end SyncMergeRequest

inductive SyncReviewPosition
  | text (filePath : String) (oldLine newLine : Option Int) (baseSha headSha startSha : String)
  | image (filePath : String) (x y width height : Int) (baseSha headSha : String)
  | file (filePath baseSha headSha : String)
  deriving DecidableEq

def SyncReviewPosition.toJs : SyncReviewPosition → JsValue
  | .text filePath oldLine newLine baseSha headSha startSha =>
      .obj [("positionType", .str "text"), ("filePath", .str filePath),
        ("oldLine", .ofOption .num oldLine), ("newLine", .ofOption .num newLine),
        ("baseSha", .str baseSha), ("headSha", .str headSha), ("startSha", .str startSha)]
  | .image filePath x y width height baseSha headSha =>
      .obj [("positionType", .str "image"), ("filePath", .str filePath), ("x", .num x),
        ("y", .num y), ("width", .num width), ("height", .num height),
        ("baseSha", .str baseSha), ("headSha", .str headSha)]
  | .file filePath baseSha headSha =>
      .obj [("positionType", .str "file"), ("filePath", .str filePath),
        ("baseSha", .str baseSha), ("headSha", .str headSha)]

structure SyncReviewNote where
  id : Int
  body : String
  author : SyncUser
  createdAt : Nat
  updatedAt : Nat
  system : Bool
  resolvable : Bool
  resolved : Bool
  position : Option SyncReviewPosition
  deriving DecidableEq

def SyncReviewNote.toFields (n : SyncReviewNote) : Fields :=
  [("id", .num n.id), ("body", .str n.body), ("author", n.author.toJs),
    ("createdAt", .date n.createdAt), ("updatedAt", .date n.updatedAt),
    ("system", .bool n.system), ("resolvable", .bool n.resolvable),
    ("resolved", .bool n.resolved)] ++ optional "position" (n.position.map SyncReviewPosition.toJs)

namespace SyncReviewNote

variable (n : SyncReviewNote)

@[simp] theorem field_id : n.toFields.field "id" = .num n.id := by simp [toFields]

@[simp] theorem field_body : n.toFields.field "body" = .str n.body := by simp [toFields]

@[simp] theorem field_author : n.toFields.field "author" = n.author.toJs := by simp [toFields]

@[simp] theorem field_createdAt : n.toFields.field "createdAt" = .date n.createdAt := by
  simp [toFields]

@[simp] theorem field_updatedAt : n.toFields.field "updatedAt" = .date n.updatedAt := by
  simp [toFields]

@[simp] theorem field_system : n.toFields.field "system" = .bool n.system := by simp [toFields]

@[simp] theorem field_position :
    n.toFields.field "position" = (n.position.map SyncReviewPosition.toJs).getD .undefined := by
  simp [toFields]

end SyncReviewNote

structure SyncReviewThread where
  discussionId : String
  mergeRequestIid : Int
  projectId : Int
  resolved : Bool
  resolvedBy : Option SyncUser
  resolvedAt : Option Nat
  notes : List SyncReviewNote
  updatedAt : Nat
  deriving DecidableEq

def SyncReviewThread.toFields (t : SyncReviewThread) : Fields :=
  [("discussionId", .str t.discussionId), ("mergeRequestIid", .num t.mergeRequestIid),
    ("projectId", .num t.projectId), ("resolved", .bool t.resolved),
    ("resolvedBy", .ofOption SyncUser.toJs t.resolvedBy),
    ("resolvedAt", .ofOption .date t.resolvedAt),
    ("notes", .arr (t.notes.map fun n => .obj n.toFields)), ("updatedAt", .date t.updatedAt)]

namespace SyncReviewThread

variable (t : SyncReviewThread)

@[simp] theorem field_discussionId : t.toFields.field "discussionId" = .str t.discussionId := by
  simp [toFields]

@[simp] theorem field_mergeRequestIid :
    t.toFields.field "mergeRequestIid" = .num t.mergeRequestIid := by simp [toFields]

@[simp] theorem field_resolved : t.toFields.field "resolved" = .bool t.resolved := by
  simp [toFields]

@[simp] theorem field_resolvedBy :
    t.toFields.field "resolvedBy" = .ofOption SyncUser.toJs t.resolvedBy := by simp [toFields]

@[simp] theorem field_resolvedAt :
    t.toFields.field "resolvedAt" = .ofOption .date t.resolvedAt := by simp [toFields]

@[simp] theorem field_notes :
    t.toFields.field "notes" = .arr (t.notes.map fun n => .obj n.toFields) := by simp [toFields]

@[simp] theorem field_updatedAt : t.toFields.field "updatedAt" = .date t.updatedAt := by
  simp [toFields]

end SyncReviewThread

structure SyncPipeline where
  id : Int
  projectId : Int
  mergeRequestIid : Option Int
  status : Option SyncPipelineStatus
  rawStatus : String
  updatedAt : Nat
  webUrl : String
  deriving DecidableEq

def SyncPipeline.toFields (p : SyncPipeline) : Fields :=
  [("id", .num p.id), ("projectId", .num p.projectId),
    ("mergeRequestIid", .ofOption .num p.mergeRequestIid),
    ("status", .ofOption SyncPipelineStatus.toJs p.status), ("rawStatus", .str p.rawStatus),
    ("updatedAt", .date p.updatedAt), ("webUrl", .str p.webUrl)]

@[simp] theorem SyncPipeline.field_mergeRequestIid (p : SyncPipeline) :
    p.toFields.field "mergeRequestIid" = .ofOption .num p.mergeRequestIid := by simp [toFields]

@[simp] theorem SyncPipeline.field_status (p : SyncPipeline) :
    p.toFields.field "status" = .ofOption SyncPipelineStatus.toJs p.status := by simp [toFields]

structure SyncEpic where
  iid : Int
  groupId : Int
  title : String
  description : String
  state : IssueState
  webUrl : String
  childIssueIids : List Int
  author : SyncUser
  createdAt : Nat
  updatedAt : Nat
  deriving DecidableEq

def SyncEpic.toFields (e : SyncEpic) : Fields :=
  [("iid", .num e.iid), ("groupId", .num e.groupId), ("title", .str e.title),
    ("description", .str e.description), ("state", e.state.toJs), ("webUrl", .str e.webUrl),
    ("childIssueIids", .arr (e.childIssueIids.map .num)), ("author", e.author.toJs),
    ("createdAt", .date e.createdAt), ("updatedAt", .date e.updatedAt)]

namespace SyncEpic

variable (e : SyncEpic)

@[simp] theorem field_iid : e.toFields.field "iid" = .num e.iid := by simp [toFields]

@[simp] theorem field_groupId : e.toFields.field "groupId" = .num e.groupId := by simp [toFields]

@[simp] theorem field_title : e.toFields.field "title" = .str e.title := by simp [toFields]

@[simp] theorem field_description : e.toFields.field "description" = .str e.description := by
  simp [toFields]

@[simp] theorem field_state : e.toFields.field "state" = e.state.toJs := by simp [toFields]

@[simp] theorem field_webUrl : e.toFields.field "webUrl" = .str e.webUrl := by simp [toFields]

@[simp] theorem field_childIssueIids :
    e.toFields.field "childIssueIids" = .arr (e.childIssueIids.map .num) := by simp [toFields]

@[simp] theorem field_updatedAt : e.toFields.field "updatedAt" = .date e.updatedAt := by
  simp [toFields]

end SyncEpic

inductive NoteableType
  | Issue
  | MergeRequest
  deriving DecidableEq

def NoteableType.toJs : NoteableType → JsValue
  | .Issue => .str "Issue"
  | .MergeRequest => .str "MergeRequest"

structure SyncNote where
  id : Int
  body : String
  author : SyncUser
  createdAt : Nat
  updatedAt : Nat
  system : Bool
  confidential : Bool
  noteableType : Option NoteableType
  deriving DecidableEq

def SyncNote.toFields (n : SyncNote) : Fields :=
  [("id", .num n.id), ("body", .str n.body), ("author", n.author.toJs),
    ("createdAt", .date n.createdAt), ("updatedAt", .date n.updatedAt),
    ("system", .bool n.system), ("confidential", .bool n.confidential)] ++
    match n.noteableType with
    | some noteableType => [("noteableType", noteableType.toJs)]
    | none => []

namespace SyncNote

variable (n : SyncNote)

@[simp] theorem field_id : n.toFields.field "id" = .num n.id := by simp [toFields]

@[simp] theorem field_body : n.toFields.field "body" = .str n.body := by simp [toFields]

@[simp] theorem field_author : n.toFields.field "author" = n.author.toJs := by simp [toFields]

@[simp] theorem field_updatedAt : n.toFields.field "updatedAt" = .date n.updatedAt := by
  simp [toFields]

@[simp] theorem field_system : n.toFields.field "system" = .bool n.system := by simp [toFields]

end SyncNote

end HulyGitlab
