import HulyGitlab.Adapter.Types

/-!
# Mapping GitLab's answers

The shapes in which GitLab's REST interface answers and the functions that
map them to the adapter's records. A field that may be missing or null is an
`Option` where the code treats the two alike. Dates are the instants they name.
-/

namespace HulyGitlab

structure SyncLabel where
  id : Int
  name : String
  color : String
  description : Option String
  deriving DecidableEq

structure RawUser where
  id : Int
  username : String
  name : String
  email : Option String
  avatar_url : Option String
  web_url : String
  deriving DecidableEq

structure RawLabel where
  id : Int
  name : String
  color : String
  description : Option String
  deriving DecidableEq

structure RawMilestone where
  id : Int
  iid : Int
  title : String
  description : Option String
  state : String
  due_date : Option String
  start_date : Option String
  created_at : Nat
  updated_at : Nat
  deriving DecidableEq

structure RawNote where
  id : Int
  body : String
  author : RawUser
  created_at : Nat
  updated_at : Nat
  system : Bool
  confidential : Option Bool
  deriving DecidableEq

structure RawIssue where
  id : Int
  iid : Int
  project_id : Int
  title : String
  description : Option String
  state : String
  labels : List String
  milestone : Option RawMilestone
  assignees : Option (List RawUser)
  author : RawUser
  confidential : Bool
  created_at : Nat
  updated_at : Nat
  closed_at : Option Nat
  web_url : String
  deriving DecidableEq

/-- The milestone of a merge request. -/
structure RawMRMilestone where
  iid : Int
  title : String
  iteration_id : Option Int
  group_id : Option Int
  deriving DecidableEq

structure RawMRIteration where
  id : Int
  group_id : Option Int
  deriving DecidableEq

/-- `head_pipeline` has one field, its status. -/
structure RawMergeRequest where
  iid : Int
  project_id : Int
  title : String
  description : Option String
  state : String
  draft : Bool
  source_branch : String
  target_branch : String
  merge_status : String
  merged_at : Option Nat
  head_pipeline : Option String
  labels : List String
  milestone : Option RawMRMilestone
  iteration : Option RawMRIteration
  assignees : Option (List RawUser)
  reviewers : Option (List RawUser)
  author : RawUser
  created_at : Nat
  updated_at : Nat
  web_url : String
  confidential : Bool
  deriving DecidableEq

structure RawDiscussionPosition where
  base_sha : String
  start_sha : String
  head_sha : String
  position_type : Option String
  new_path : Option String
  old_path : Option String
  new_line : Option Int
  old_line : Option Int
  x : Option Int
  y : Option Int
  width : Option Int
  height : Option Int
  deriving DecidableEq

structure RawDiscussionNote where
  id : Int
  body : String
  author : RawUser
  created_at : Nat
  updated_at : Nat
  system : Bool
  resolvable : Option Bool
  resolved : Option Bool
  resolved_by : Option RawUser
  resolved_at : Option Nat
  position : Option RawDiscussionPosition
  deriving DecidableEq

structure RawDiscussion where
  id : String
  notes : List RawDiscussionNote
  deriving DecidableEq

structure RawApprovalResponse where
  approvals_required : Option Int
  approved_by : Option (List RawUser)
  deriving DecidableEq

structure RawChange where
  old_path : Option String
  new_path : Option String
  new_file : Option Bool
  deleted_file : Option Bool
  renamed_file : Option Bool
  diff : Option String
  deriving DecidableEq

structure RawChangesResponse where
  web_url : Option String
  changes : Option (List RawChange)
  deriving DecidableEq

/-- An entry of `approved_by`: `{ user }`, or a user. -/
inductive RawApprovedBy
  | wrapped (user : RawUser)
  | plain (user : RawUser)
  deriving DecidableEq

structure RawApprovalRule where
  id : Int
  name : String
  rule_type : String
  eligible_approvers : Option (List RawUser)
  approvals_required : Int
  approved_by : Option (List RawApprovedBy)
  deriving DecidableEq

structure RawIteration where
  id : Int
  title : String
  start_date : Option Nat
  due_date : Option Nat
  state : JsValue
  web_url : String
  deriving DecidableEq

structure RawEpic where
  iid : Int
  group_id : Int
  title : String
  description : Option String
  state : String
  web_url : String
  author : RawUser
  created_at : Nat
  updated_at : Nat
  confidential : Option Bool
  deriving DecidableEq

structure RawEpicIssue where
  id : Int
  iid : Int
  project_id : Int
  deriving DecidableEq

def mapUser (raw : RawUser) : SyncUser where
  id := raw.id
  username := raw.username
  name := raw.name
  email := raw.email
  avatarUrl := raw.avatar_url
  webUrl := raw.web_url

def mapLabel (raw : RawLabel) : SyncLabel where
  id := raw.id
  name := raw.name
  color := raw.color
  description := raw.description

def mapMilestone (raw : RawMilestone) : SyncMilestone where
  id := raw.id
  iid := raw.iid
  title := raw.title
  description := raw.description
  active := raw.state ≠ "closed"
  dueDate := raw.due_date
  startDate := raw.start_date
  createdAt := raw.created_at
  updatedAt := raw.updated_at

def mapNote (raw : RawNote) : SyncNote where
  id := raw.id
  body := raw.body
  author := mapUser raw.author
  createdAt := raw.created_at
  updatedAt := raw.updated_at
  system := raw.system
  confidential := raw.confidential = some true
  noteableType := none

def mapIssue (raw : RawIssue) : SyncIssue where
  id := raw.id
  iid := raw.iid
  projectId := raw.project_id
  title := raw.title
  description := raw.description
  state := if raw.state = "closed" then .closed else .opened
  labels := raw.labels
  milestone := raw.milestone.map mapMilestone
  assignees := (raw.assignees.getD []).map mapUser
  author := mapUser raw.author
  confidential := raw.confidential
  createdAt := raw.created_at
  updatedAt := raw.updated_at
  closedAt := raw.closed_at
  webUrl := raw.web_url

def mapMRState : String → MRState
  | "closed" => .closed
  | "merged" => .merged
  | "locked" => .locked
  | _ => .opened

def mapMergeStatus : String → MergeStatus
  | "can_be_merged" => .can_be_merged
  | "cannot_be_merged" => .cannot_be_merged
  | "locked" => .locked
  | _ => .unchecked

def mapPipelineStatus : String → Option SyncPipelineStatus
  | "success" => some .success
  | "failed" => some .failed
  | "canceled" => some .canceled
  | "pending" => some .pending
  | "running" => some .running
  | _ => none

/-- `mapMergeRequest`; of the milestone, the fields that the record declares. -/
def mapMergeRequest (raw : RawMergeRequest) (includeReviewers : Bool) : SyncMergeRequest where
  iid := raw.iid
  projectId := raw.project_id
  title := raw.title
  description := raw.description.getD ""
  state := mapMRState raw.state
  draft := raw.draft
  sourceBranch := raw.source_branch
  targetBranch := raw.target_branch
  mergeStatus := mapMergeStatus raw.merge_status
  mergedAt := raw.merged_at
  pipelineStatus := raw.head_pipeline.bind mapPipelineStatus
  labels := raw.labels
  milestone := raw.milestone.map fun m => (m.iid, m.title)
  assignees := (raw.assignees.getD []).map mapUser
  author := mapUser raw.author
  createdAt := raw.created_at
  updatedAt := raw.updated_at
  webUrl := raw.web_url
  confidential := raw.confidential
  reviewers := if includeReviewers then some ((raw.reviewers.getD []).map mapUser) else none
  approvedBy := none
  approvalsRequired := none
  approvalStatus := none
  diffWebUrl := none
  changedFiles := none
  approvalRules := none
  iteration := none

def mapReviewPosition (raw : RawDiscussionPosition) : SyncReviewPosition :=
  let filePath := (raw.new_path.orElse fun _ => raw.old_path).getD ""
  match raw.position_type.getD "text" with
  | "image" =>
      .image filePath (raw.x.getD 0) (raw.y.getD 0) (raw.width.getD 0) (raw.height.getD 0)
        raw.base_sha raw.head_sha
  | "file" => .file filePath raw.base_sha raw.head_sha
  | _ => .text filePath raw.old_line raw.new_line raw.base_sha raw.head_sha raw.start_sha

def mapReviewNote (raw : RawDiscussionNote) : SyncReviewNote where
  id := raw.id
  body := raw.body
  author := mapUser raw.author
  createdAt := raw.created_at
  updatedAt := raw.updated_at
  system := raw.system
  resolvable := raw.resolvable = some true
  resolved := raw.resolved = some true
  position := raw.position.map mapReviewPosition

/-- A position of a type that `mapReviewPosition` does not know. -/
def unsupportedPosition (n : RawDiscussionNote) : Bool :=
  (n.position.bind RawDiscussionPosition.position_type).any fun pt =>
    pt ≠ "text" && pt ≠ "image" && pt ≠ "file"

/-- The state of the thread is that of its first note. -/
def mapDiscussion (raw : RawDiscussion) (projectId mergeRequestIid : Int) :
    Option SyncReviewThread :=
  match raw.notes with
  | [] => none
  | rootNote :: _ =>
      if raw.notes.any unsupportedPosition then none
      else
        let notes := raw.notes.map mapReviewNote
        some
          { discussionId := raw.id
            mergeRequestIid := mergeRequestIid
            projectId := projectId
            resolved := rootNote.resolved = some true
            resolvedBy := rootNote.resolved_by.map mapUser
            resolvedAt := rootNote.resolved_at
            notes := notes
            updatedAt := notes.foldl (fun acc n => max acc n.updatedAt) 0 }

def mapEpicState (raw : String) : IssueState := if raw = "closed" then .closed else .opened

def mapEpic (raw : RawEpic) (childIssueIids : List Int) : SyncEpic where
  iid := raw.iid
  groupId := raw.group_id
  title := raw.title
  description := raw.description.getD ""
  state := mapEpicState raw.state
  webUrl := raw.web_url
  childIssueIids := childIssueIids
  author := mapUser raw.author
  createdAt := raw.created_at
  updatedAt := raw.updated_at

end HulyGitlab
