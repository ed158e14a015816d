import HulyGitlab.Adapter.Mapping
import HulyGitlab.Sync.Keys

/-!
# The composite of a merge request

A merge request is fetched with its approvals, its changed files, its
approval rules and its iteration: by one GraphQL query, or by up to five REST
requests. Each path has its own mapping to the record.
-/

namespace HulyGitlab.Adapter

inductive CompositeError
  | confidential (iid : Int)
  | notFound (resource : String)
  deriving DecidableEq

/-! ### REST -/

/-- `SyncMRApprovals`. -/
structure SyncMRApprovals where
  approvedBy : List SyncUser
  approvalsRequired : Int
  deriving DecidableEq

/-- `SyncMRChanges`. -/
structure SyncMRChanges where
  diffWebUrl : String
  changedFiles : List SyncChangedFile
  deriving DecidableEq

def mapApproval (raw : RawApprovalResponse) : SyncMRApprovals where
  approvedBy := (raw.approved_by.getD []).map mapUser
  approvalsRequired := raw.approvals_required.getD 0

def mapChangedFileStatus (raw : RawChange) : String :=
  if raw.new_file = some true then "added"
  else if raw.deleted_file = some true then "deleted"
  else if raw.renamed_file = some true then "renamed"
  else "modified"

def diffBodyMaxBytes : Nat := 64 * 1024

/-- The first bytes of a text, decoded; a character that is cut is replaced. -/
def firstBytes (n : Nat) : List Char → List Char
  | [] => []
  | c :: cs =>
      if c.utf8Size ≤ n then c :: firstBytes (n - c.utf8Size) cs
      else if n = 0 then []
      else [Char.ofNat 0xFFFD]

def mapChangedFile (raw : RawChange) : SyncChangedFile :=
  let diff := raw.diff.getD ""
  let fits := diff.utf8ByteSize ≤ diffBodyMaxBytes
  { path := (raw.new_path.orElse fun _ => raw.old_path).getD ""
    oldPath := if raw.renamed_file = some true then raw.old_path else none
    additions := 0
    deletions := 0
    status := mapChangedFileStatus raw
    diffBody :=
      if diff = "" then none
      else if fits then some diff
      else some (String.ofList (firstBytes diffBodyMaxBytes diff.toList))
    diffOverflow := if diff = "" ∨ fits then none else some true }

def mapChanges (raw : RawChangesResponse) (fallbackWebUrl : String) : SyncMRChanges where
  diffWebUrl := raw.web_url.getD fallbackWebUrl ++ "/diffs"
  changedFiles := (raw.changes.getD []).map mapChangedFile

def deriveApprovalStatus (approvals : SyncMRApprovals) : String :=
  if 0 < approvals.approvalsRequired ∧
      approvals.approvalsRequired ≤ approvals.approvedBy.length then "approved"
  else "pending"

def mapApprovalRuleType (raw : String) : String :=
  if raw = "regular" ∨ raw = "code_owner" ∨ raw = "any_approver" ∨ raw = "report_approver" then raw
  else "regular"

def approver : RawApprovedBy → RawUser
  | .wrapped user => user
  | .plain user => user

def mapApprovalRule (raw : RawApprovalRule) : SyncMRApprovalRule where
  id := raw.id
  name := raw.name
  ruleType := mapApprovalRuleType raw.rule_type
  eligibleApprovers := (raw.eligible_approvers.getD []).map mapUser
  approvalsRequired := raw.approvals_required
  approvedBy := (raw.approved_by.getD []).map fun entry => mapUser (approver entry)

def mapIterationState (raw : JsValue) : String :=
  if raw = .num 1 ∨ raw = .str "1" ∨ raw = .str "upcoming" then "upcoming"
  else if raw = .num 2 ∨ raw = .str "2" ∨ raw = .str "started" ∨ raw = .str "current" then "started"
  else if raw = .num 3 ∨ raw = .str "3" ∨ raw = .str "closed" then "closed"
  else "upcoming"

def mapIteration (raw : RawIteration) : SyncIteration where
  id := toString raw.id
  title := raw.title
  startDate := raw.start_date.getD 0
  dueDate := raw.due_date.getD 0
  state := mapIterationState raw.state
  webUrl := raw.web_url

/-- How an auxiliary request ends. -/
inductive Answer (A : Type)
  | ok (a : A)
  | notFound
  | failed
  deriving DecidableEq

/-- The result of a promise that a missing endpoint fulfils with a default; `none` is a rejection. -/
def Answer.settle {A B : Type} (f : A → B) (whenMissing : B) : Answer A → Option B
  | .ok a => some (f a)
  | .notFound => some whenMissing
  | .failed => none

/-- What GitLab answers to the requests of one composite; `cachedRules` is the entry of the cache. -/
structure RestAnswers where
  mr : RawMergeRequest
  approvals : Answer RawApprovalResponse
  changes : Answer RawChangesResponse
  cachedRules : Option (List SyncMRApprovalRule)
  approvalRules : Answer (List RawApprovalRule)
  iteration : Int → Int → Answer RawIteration

def getMRApprovals (answer : Answer RawApprovalResponse) : Option SyncMRApprovals :=
  answer.settle mapApproval ⟨[], 0⟩

def getMRChanges (answer : Answer RawChangesResponse) (fallbackWebUrl : String) :
    Option SyncMRChanges :=
  answer.settle (fun raw => mapChanges raw fallbackWebUrl) ⟨fallbackWebUrl ++ "/diffs", []⟩

def getMRApprovalRules (isEE : Bool) (cached : Option (List SyncMRApprovalRule))
    (answer : Answer (List RawApprovalRule)) : Option (List SyncMRApprovalRule) :=
  if isEE then
    match cached with
    | some rules => some rules
    | none => answer.settle (fun raw => raw.map mapApprovalRule) []
  else some []

def getIteration (isEE : Bool) (answer : Answer RawIteration) : Option (Option SyncIteration) :=
  if isEE then answer.settle (fun raw => some (mapIteration raw)) none else some none

/-- The group and the id of the iteration, from either place that may name it. -/
def iterationCoordinates (raw : RawMergeRequest) : Option (Int × Int) :=
  match raw.iteration with
  | some it => it.group_id.map fun group => (group, it.id)
  | none =>
      match raw.milestone with
      | some m =>
          match m.group_id, m.iteration_id with
          | some group, some id => some (group, id)
          | _, _ => none
      | none => none

def getMergeRequestREST (isEE : Bool) (mrIid : Int) (answers : RestAnswers) :
    Except CompositeError SyncMergeRequest :=
  if answers.mr.confidential then .error (.confidential mrIid)
  else
    let mr := mapMergeRequest answers.mr true
    let approvals := getMRApprovals answers.approvals
    let changes := getMRChanges answers.changes mr.webUrl
    .ok
      { mr with
        approvedBy := approvals.map SyncMRApprovals.approvedBy
        approvalsRequired := approvals.map SyncMRApprovals.approvalsRequired
        approvalStatus := approvals.map deriveApprovalStatus
        diffWebUrl := changes.map SyncMRChanges.diffWebUrl
        changedFiles := changes.map SyncMRChanges.changedFiles
        approvalRules :=
          if isEE then getMRApprovalRules isEE answers.cachedRules answers.approvalRules else none
        iteration :=
          if isEE then
            (iterationCoordinates answers.mr).bind fun place =>
              getIteration isEE (answers.iteration place.1 place.2)
          else none }

/-! ### GraphQL -/

/-- An id is a number or a text that ends with one. -/
inductive GraphQLId
  | num (n : Int)
  | text (s : String)
  deriving DecidableEq

structure GraphQLUser where
  id : GraphQLId
  username : String
  name : String
  publicEmail : Option String
  avatarUrl : Option String
  webUrl : String
  deriving DecidableEq

structure GraphQLMRRule where
  id : GraphQLId
  name : String
  type : Option String
  approvalsRequired : Int
  eligibleApprovers : Option (List GraphQLUser)
  approvedBy : Option (List GraphQLUser)
  deriving DecidableEq

structure GraphQLMRDiffStat where
  path : String
  additions : Int
  deletions : Int
  deriving DecidableEq

/-- The payload; a connection is the list of its nodes, and `headPipeline` its status. -/
structure GraphQLMRPayload where
  iid : GraphQLId
  title : String
  description : Option String
  state : String
  draft : Bool
  sourceBranch : String
  targetBranch : String
  mergeStatus : String
  mergedAt : Option Nat
  createdAt : Nat
  updatedAt : Nat
  webUrl : String
  confidential : Bool
  labels : Option (List String)
  milestone : Option (GraphQLId × String)
  author : GraphQLUser
  assignees : Option (List GraphQLUser)
  reviewers : Option (List GraphQLUser)
  headPipeline : Option String
  approvalsRequired : Option Int
  approvedBy : Option (List GraphQLUser)
  approvalRules : Option (List GraphQLMRRule)
  diffStats : Option (List GraphQLMRDiffStat)
  deriving DecidableEq

/-- `/(\d+)$/`: the digits at the end, or 0. -/
def numericId : GraphQLId → Int
  | .num n => n
  | .text s =>
      let digits := (s.toList.reverse.takeWhile Char.isDigit).reverse
      ((digits.foldl (fun n c => 10 * n + (c.toNat - '0'.toNat)) 0 : Nat) : Int)

def mapGraphQLUser (raw : GraphQLUser) : SyncUser where
  id := numericId raw.id
  username := raw.username
  name := raw.name
  email := raw.publicEmail
  avatarUrl := raw.avatarUrl
  webUrl := raw.webUrl

def mapGraphQLMRState (raw : String) : MRState := mapMRState raw.toLower

def mapGraphQLMergeStatus (raw : String) : MergeStatus := mapMergeStatus raw.toLower

def mapGraphQLRule (raw : GraphQLMRRule) : SyncMRApprovalRule where
  id := numericId raw.id
  name := raw.name
  ruleType := mapApprovalRuleType (raw.type.getD "regular")
  eligibleApprovers := (raw.eligibleApprovers.getD []).map mapGraphQLUser
  approvalsRequired := raw.approvalsRequired
  approvedBy := (raw.approvedBy.getD []).map mapGraphQLUser

def mapGraphQLDiffStat (d : GraphQLMRDiffStat) : SyncChangedFile where
  path := d.path
  oldPath := none
  additions := d.additions
  deletions := d.deletions
  status := "modified"
  diffBody := none
  diffOverflow := none

def mapGraphQLMRResponse (data : Option GraphQLMRPayload) :
    Except CompositeError SyncMergeRequest :=
  match data with
  | none => .error (.notFound "graphql.merge_request.null")
  | some mr =>
      if mr.confidential then .error (.confidential (numericId mr.iid))
      else
        let approvedBy := (mr.approvedBy.getD []).map mapGraphQLUser
        let approvalsRequired := mr.approvalsRequired.getD 0
        .ok
          { iid := numericId mr.iid
            projectId := 0
            title := mr.title
            description := mr.description.getD ""
            state := mapGraphQLMRState mr.state
            draft := mr.draft
            sourceBranch := mr.sourceBranch
            targetBranch := mr.targetBranch
            mergeStatus := mapGraphQLMergeStatus mr.mergeStatus
            mergedAt := mr.mergedAt
            pipelineStatus := mr.headPipeline.bind mapPipelineStatus
            labels := mr.labels.getD []
            milestone := mr.milestone.map fun m => (numericId m.1, m.2)
            assignees := (mr.assignees.getD []).map mapGraphQLUser
            author := mapGraphQLUser mr.author
            createdAt := mr.createdAt
            updatedAt := mr.updatedAt
            webUrl := mr.webUrl
            confidential := mr.confidential
            reviewers := some ((mr.reviewers.getD []).map mapGraphQLUser)
            approvedBy := some approvedBy
            approvalsRequired := some approvalsRequired
            approvalStatus := some
              (if 0 < approvalsRequired ∧ approvalsRequired ≤ approvedBy.length then "approved"
              else "pending")
            diffWebUrl := some (mr.webUrl ++ "/diffs")
            changedFiles := some ((mr.diffStats.getD []).map mapGraphQLDiffStat)
            approvalRules := some ((mr.approvalRules.getD []).map mapGraphQLRule)
            iteration := none }

end HulyGitlab.Adapter
