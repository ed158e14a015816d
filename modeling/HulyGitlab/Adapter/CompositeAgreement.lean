import HulyGitlab.Adapter.Composite

/-!
# Whether the two composites agree

A merge request as such, its REST payloads and its GraphQL payload, and when
the two paths make the same record of it.
-/

namespace HulyGitlab.Adapter

/-! ### Merge requests as such -/

structure AbstractUser where
  id : Nat
  username : String
  name : String
  email : Option String
  avatarUrl : Option String
  webUrl : String
  deriving DecidableEq

inductive PipelineState
  | created
  | waiting_for_resource
  | preparing
  | waiting_for_callback
  | pending
  | running
  | success
  | failed
  | canceling
  | canceled
  | skipped
  | manual
  | scheduled
  deriving DecidableEq

inductive MergeCheck
  | unchecked
  | checking
  | can_be_merged
  | cannot_be_merged
  | cannot_be_merged_recheck
  deriving DecidableEq

inductive RuleType
  | regular
  | code_owner
  | any_approver
  | report_approver
  deriving DecidableEq

structure AbstractRule where
  id : Nat
  name : String
  type : RuleType
  eligibleApprovers : List AbstractUser
  approvalsRequired : Nat
  approvedBy : List AbstractUser
  deriving DecidableEq

inductive FileChange
  | added
  | deleted
  | renamed (oldPath : String)
  | modified
  deriving DecidableEq

structure AbstractFile where
  path : String
  change : FileChange
  additions : Nat
  deletions : Nat
  diff : String
  deriving DecidableEq

inductive IterationState
  | upcoming
  | started
  | closed
  deriving DecidableEq

structure AbstractIteration where
  id : Nat
  groupId : Nat
  title : String
  startDate : Option Nat
  dueDate : Option Nat
  state : IterationState
  webUrl : String
  deriving DecidableEq

/-- A merge request that is not confidential. -/
structure AbstractMR where
  iid : Nat
  projectId : Nat
  title : String
  description : Option String
  state : MRState
  draft : Bool
  sourceBranch : String
  targetBranch : String
  mergeCheck : MergeCheck
  mergedAt : Option Nat
  pipeline : Option PipelineState
  labels : List String
  milestone : Option (Nat × String)
  iteration : Option AbstractIteration
  assignees : List AbstractUser
  reviewers : List AbstractUser
  author : AbstractUser
  approvedBy : List AbstractUser
  approvalsRequired : Nat
  rules : List AbstractRule
  files : List AbstractFile
  createdAt : Nat
  updatedAt : Nat
  webUrl : String
  deriving DecidableEq

def mrStateText : MRState → String
  | .opened => "opened"
  | .closed => "closed"
  | .merged => "merged"
  | .locked => "locked"

def PipelineState.text : PipelineState → String
  | .created => "created"
  | .waiting_for_resource => "waiting_for_resource"
  | .preparing => "preparing"
  | .waiting_for_callback => "waiting_for_callback"
  | .pending => "pending"
  | .running => "running"
  | .success => "success"
  | .failed => "failed"
  | .canceling => "canceling"
  | .canceled => "canceled"
  | .skipped => "skipped"
  | .manual => "manual"
  | .scheduled => "scheduled"

def MergeCheck.text : MergeCheck → String
  | .unchecked => "unchecked"
  | .checking => "checking"
  | .can_be_merged => "can_be_merged"
  | .cannot_be_merged => "cannot_be_merged"
  | .cannot_be_merged_recheck => "cannot_be_merged_recheck"

def RuleType.text : RuleType → String
  | .regular => "regular"
  | .code_owner => "code_owner"
  | .any_approver => "any_approver"
  | .report_approver => "report_approver"

/-- The number that stands for a state. -/
def IterationState.number : IterationState → Int
  | .upcoming => 1
  | .started => 2
  | .closed => 3

/-! ### REST payloads -/

def AbstractUser.raw (u : AbstractUser) : RawUser :=
  ⟨u.id, u.username, u.name, u.email, u.avatarUrl, u.webUrl⟩

def AbstractRule.raw (r : AbstractRule) : RawApprovalRule where
  id := r.id
  name := r.name
  rule_type := r.type.text
  eligible_approvers := some (r.eligibleApprovers.map AbstractUser.raw)
  approvals_required := r.approvalsRequired
  approved_by := some (r.approvedBy.map fun u => .plain u.raw)

def AbstractFile.raw (f : AbstractFile) : RawChange where
  old_path := some (match f.change with
    | .renamed oldPath => oldPath
    | _ => f.path)
  new_path := some f.path
  new_file := some (f.change = .added)
  deleted_file := some (f.change = .deleted)
  renamed_file := some (match f.change with
    | .renamed _ => true
    | _ => false)
  diff := some f.diff

def AbstractIteration.raw (i : AbstractIteration) : RawIteration where
  id := i.id
  title := i.title
  start_date := i.startDate
  due_date := i.dueDate
  state := .num i.state.number
  web_url := i.webUrl

namespace AbstractMR

variable (m : AbstractMR)

def raw : RawMergeRequest where
  iid := m.iid
  project_id := m.projectId
  title := m.title
  description := m.description
  state := mrStateText m.state
  draft := m.draft
  source_branch := m.sourceBranch
  target_branch := m.targetBranch
  merge_status := m.mergeCheck.text
  merged_at := m.mergedAt
  head_pipeline := m.pipeline.map PipelineState.text
  labels := m.labels
  milestone := m.milestone.map fun ms => ⟨ms.1, ms.2, none, none⟩
  iteration := m.iteration.map fun i => ⟨i.id, some i.groupId⟩
  assignees := some (m.assignees.map AbstractUser.raw)
  reviewers := some (m.reviewers.map AbstractUser.raw)
  author := m.author.raw
  created_at := m.createdAt
  updated_at := m.updatedAt
  web_url := m.webUrl
  confidential := false

def restAnswers : RestAnswers where
  mr := m.raw
  approvals := .ok ⟨some m.approvalsRequired, some (m.approvedBy.map AbstractUser.raw)⟩
  changes := .ok ⟨some m.webUrl, some (m.files.map AbstractFile.raw)⟩
  cachedRules := none
  approvalRules := .ok (m.rules.map AbstractRule.raw)
  iteration _ _ :=
    match m.iteration with
    | some i => .ok i.raw
    | none => .notFound

end AbstractMR

/-! ### The GraphQL payload -/

def gid (type : String) (n : Nat) : GraphQLId := .text ("gid://gitlab/" ++ type ++ "/" ++ toString n)

def AbstractUser.graphQL (u : AbstractUser) : GraphQLUser :=
  ⟨gid "User" u.id, u.username, u.name, u.email, u.avatarUrl, u.webUrl⟩

def AbstractRule.graphQL (r : AbstractRule) : GraphQLMRRule where
  id := gid "ApprovalMergeRequestRule" r.id
  name := r.name
  type := some r.type.text.toUpper
  approvalsRequired := r.approvalsRequired
  eligibleApprovers := some (r.eligibleApprovers.map AbstractUser.graphQL)
  approvedBy := some (r.approvedBy.map AbstractUser.graphQL)

def AbstractFile.graphQL (f : AbstractFile) : GraphQLMRDiffStat := ⟨f.path, f.additions, f.deletions⟩

/-- Enumerations are in upper case, and the numbers in a project are texts. -/
def AbstractMR.graphQL (m : AbstractMR) : GraphQLMRPayload where
  iid := .text (toString m.iid)
  title := m.title
  description := m.description
  state := (mrStateText m.state).toUpper
  draft := m.draft
  sourceBranch := m.sourceBranch
  targetBranch := m.targetBranch
  mergeStatus := m.mergeCheck.text.toUpper
  mergedAt := m.mergedAt
  createdAt := m.createdAt
  updatedAt := m.updatedAt
  webUrl := m.webUrl
  confidential := false
  labels := some m.labels
  milestone := m.milestone.map fun ms => (.text (toString ms.1), ms.2)
  author := m.author.graphQL
  assignees := some (m.assignees.map AbstractUser.graphQL)
  reviewers := some (m.reviewers.map AbstractUser.graphQL)
  headPipeline := m.pipeline.map fun p => p.text.toUpper
  approvalsRequired := some m.approvalsRequired
  approvedBy := some (m.approvedBy.map AbstractUser.graphQL)
  approvalRules := some (m.rules.map AbstractRule.graphQL)
  diffStats := some (m.files.map AbstractFile.graphQL)

/-! ### What the two mappings make of them -/

/-- The number at the end of a text is read when what stands before it ends with no digit. -/
theorem numericId_append {s : List Char} (h : ∀ c ∈ s.getLast?, ¬ c.isDigit) (n : Nat) :
    numericId (.text (String.ofList s ++ toString n)) = n := by
  have hdigits : ∀ c ∈ n.repr.toList.reverse, c.isDigit := fun c hc =>
    isDigit_of_mem_repr (List.mem_reverse.mp hc)
  have hstop : (s.reverse.takeWhile Char.isDigit) = [] := by
    cases hlast : s.reverse with
    | nil => rfl
    | cons c cs =>
      have hc : s.getLast? = some c := by
        rw [← List.head?_reverse, hlast]
        rfl
      exact List.takeWhile_cons_of_neg (h c hc)
  have hread : ((String.ofList s ++ n.repr).toList.reverse.takeWhile Char.isDigit).reverse =
      n.repr.toList := by
    rw [String.toList_append, String.toList_ofList, List.reverse_append,
      List.takeWhile_append_of_pos hdigits, hstop, List.append_nil, List.reverse_reverse]
  have hsame : toString n = n.repr := rfl
  simp only [numericId, hsame, hread, foldl_repr]

theorem numericId_toString (n : Nat) : numericId (.text (toString n)) = n := by
  have h := numericId_append (s := []) (fun _ hc => by cases hc) n
  rwa [String.ofList_nil, String.empty_append] at h

theorem numericId_gid (type : String) (n : Nat) : numericId (gid type n) = n := by
  have hlast : ∀ c ∈ ("gid://gitlab/" ++ type ++ "/").toList.getLast?, ¬ c.isDigit := by
    intro c hc
    rw [String.toList_append, List.getLast?_append] at hc
    have hslash : c = '/' := by simpa using hc.symm
    rw [hslash]
    decide
  have h := numericId_append hlast n
  rwa [String.ofList_toList] at h

theorem mapGraphQLUser_graphQL (u : AbstractUser) : mapGraphQLUser u.graphQL = mapUser u.raw := by
  simp only [mapGraphQLUser, AbstractUser.graphQL, numericId_gid, mapUser, AbstractUser.raw]

theorem map_graphQL_users (users : List AbstractUser) :
    (users.map AbstractUser.graphQL).map mapGraphQLUser = (users.map AbstractUser.raw).map mapUser := by
  rw [List.map_map, List.map_map]
  exact List.map_congr_left fun u _ => mapGraphQLUser_graphQL u

theorem mapGraphQLMRState_toUpper (s : MRState) :
    mapGraphQLMRState (mrStateText s).toUpper = mapMRState (mrStateText s) := by
  cases s <;> decide +kernel

theorem mapGraphQLMergeStatus_toUpper (c : MergeCheck) :
    mapGraphQLMergeStatus c.text.toUpper = mapMergeStatus c.text := by
  cases c <;> decide +kernel

/-- No status in upper case is one of those that are mapped. -/
theorem mapPipelineStatus_toUpper (p : PipelineState) : mapPipelineStatus p.text.toUpper = none := by
  cases p <;> decide +kernel

/-- Every type in upper case is taken for `regular`. -/
theorem mapApprovalRuleType_toUpper (type : RuleType) :
    mapApprovalRuleType type.text.toUpper = "regular" := by
  cases type <;> decide +kernel

theorem mapApprovalRuleType_text (type : RuleType) : mapApprovalRuleType type.text = type.text := by
  cases type <;> decide +kernel

/-- The record that the REST path makes. -/
def restRecord (isEE : Bool) (m : AbstractMR) : SyncMergeRequest :=
  let approvals : SyncMRApprovals :=
    ⟨(m.approvedBy.map AbstractUser.raw).map mapUser, m.approvalsRequired⟩
  { mapMergeRequest m.raw true with
    approvedBy := some approvals.approvedBy
    approvalsRequired := some approvals.approvalsRequired
    approvalStatus := some (deriveApprovalStatus approvals)
    diffWebUrl := some (m.webUrl ++ "/diffs")
    changedFiles := some ((m.files.map AbstractFile.raw).map mapChangedFile)
    approvalRules := if isEE then some ((m.rules.map AbstractRule.raw).map mapApprovalRule) else none
    iteration := if isEE then m.iteration.map fun i => some (mapIteration i.raw) else none }

theorem iterationCoordinates_raw (m : AbstractMR) :
    iterationCoordinates m.raw = m.iteration.map fun i => ((i.groupId : Int), (i.id : Int)) := by
  unfold iterationCoordinates AbstractMR.raw
  cases m.iteration with
  | some i => rfl
  | none =>
    cases m.milestone with
    | none => rfl
    | some ms => rfl

theorem getMergeRequestREST_restAnswers (isEE : Bool) (m : AbstractMR) :
    getMergeRequestREST isEE m.iid m.restAnswers = .ok (restRecord isEE m) := by
  have hcoordinates := iterationCoordinates_raw m
  unfold getMergeRequestREST
  rw [show m.restAnswers.mr = m.raw from rfl, hcoordinates]
  cases isEE with
  | false => rfl
  | true =>
    unfold restRecord AbstractMR.restAnswers
    cases m.iteration with
    | none => rfl
    | some i => rfl

/-- The record that the GraphQL path makes, next to that of the other path. -/
def graphQLRecord (m : AbstractMR) : SyncMergeRequest :=
  { restRecord true m with
    projectId := 0
    pipelineStatus := none
    changedFiles := some ((m.files.map AbstractFile.graphQL).map mapGraphQLDiffStat)
    approvalRules := some ((m.rules.map AbstractRule.graphQL).map mapGraphQLRule)
    iteration := none }

theorem mapGraphQLMRResponse_graphQL (m : AbstractMR) :
    mapGraphQLMRResponse (some m.graphQL) = .ok (graphQLRecord m) := by
  have hpipeline : (m.pipeline.map fun p => p.text.toUpper).bind mapPipelineStatus = none := by
    cases m.pipeline with
    | none => rfl
    | some p => exact mapPipelineStatus_toUpper p
  have hmilestone : (m.milestone.map fun ms => (GraphQLId.text (toString ms.1), ms.2)).map
      (fun ms => (numericId ms.1, ms.2)) = m.milestone.map fun ms => ((ms.1 : Int), ms.2) := by
    cases m.milestone with
    | none => rfl
    | some ms => exact congrArg (fun n => some (n, ms.2)) (numericId_toString ms.1)
  have hmilestone' : (m.milestone.map fun ms => (⟨ms.1, ms.2, none, none⟩ : RawMRMilestone)).map
      (fun ms => (ms.iid, ms.title)) = m.milestone.map fun ms => ((ms.1 : Int), ms.2) := by
    cases m.milestone with
    | none => rfl
    | some ms => rfl
  simp only [mapGraphQLMRResponse, AbstractMR.graphQL, graphQLRecord, restRecord, mapMergeRequest,
    AbstractMR.raw, Option.getD_some, map_graphQL_users, mapGraphQLUser_graphQL, numericId_toString,
    mapGraphQLMRState_toUpper, mapGraphQLMergeStatus_toUpper, hpipeline, hmilestone, hmilestone',
    deriveApprovalStatus, Bool.false_eq_true, if_false, if_true]

/-- A rule keeps its type on the way through GraphQL just when the type is `regular`. -/
theorem mapGraphQLRule_eq_iff (r : AbstractRule) :
    mapApprovalRule r.raw = mapGraphQLRule r.graphQL ↔ r.type = .regular := by
  have husers : (r.approvedBy.map fun u => RawApprovedBy.plain u.raw).map
      (fun entry => mapUser (approver entry)) = (r.approvedBy.map AbstractUser.raw).map mapUser := by
    rw [List.map_map, List.map_map]
    rfl
  simp only [mapApprovalRule, AbstractRule.raw, mapGraphQLRule, AbstractRule.graphQL, numericId_gid,
    Option.getD_some, map_graphQL_users, mapApprovalRuleType_text, mapApprovalRuleType_toUpper, husers,
    SyncMRApprovalRule.mk.injEq, true_and, and_true]
  cases r.type <;> decide

theorem mapChangedFileStatus_raw (f : AbstractFile) :
    mapChangedFileStatus f.raw = "modified" ↔ f.change = .modified := by
  unfold mapChangedFileStatus AbstractFile.raw
  cases f.change with
  | added => simp
  | deleted => simp
  | renamed oldPath => simp
  | modified => simp

theorem diffBody_mapChangedFile (raw : RawChange) :
    (mapChangedFile raw).diffBody = none ↔ raw.diff.getD "" = "" := by
  dsimp only [mapChangedFile]
  by_cases hdiff : raw.diff.getD "" = ""
  · exact iff_of_true (if_pos hdiff) hdiff
  · rw [if_neg hdiff]
    refine iff_of_false ?_ hdiff
    split
    · exact Option.some_ne_none _
    · exact Option.some_ne_none _

/-- A file is the same on both paths just when it is as it was: neither path tells all of a change. -/
theorem mapGraphQLDiffStat_eq_iff (f : AbstractFile) :
    mapChangedFile f.raw = mapGraphQLDiffStat f.graphQL ↔
      f.change = .modified ∧ f.additions = 0 ∧ f.deletions = 0 ∧ f.diff = "" := by
  constructor
  · intro h
    have hstatus := (mapChangedFileStatus_raw f).mp (congrArg SyncChangedFile.status h)
    have hadditions : (0 : Int) = f.additions := congrArg SyncChangedFile.additions h
    have hdeletions : (0 : Int) = f.deletions := congrArg SyncChangedFile.deletions h
    have hbody : (mapChangedFile f.raw).diffBody = none := congrArg SyncChangedFile.diffBody h
    refine ⟨hstatus, by omega, by omega, ?_⟩
    exact (diffBody_mapChangedFile f.raw).mp hbody
  · rintro ⟨hchange, hadditions, hdeletions, hdiff⟩
    simp [mapChangedFile, AbstractFile.raw, mapGraphQLDiffStat, AbstractFile.graphQL,
      mapChangedFileStatus, hchange, hadditions, hdeletions, hdiff]

/-- What a merge request has to be for the two paths to agree on it. -/
structure PathsAgree (isEE : Bool) (m : AbstractMR) : Prop where
  project : m.projectId = 0
  pipeline : ∀ p ∈ m.pipeline, p ∉ [.pending, .running, .success, .failed, .canceled]
  edition : isEE = true
  rules : ∀ r ∈ m.rules, r.type = .regular
  files : ∀ f ∈ m.files, f.change = .modified ∧ f.additions = 0 ∧ f.deletions = 0 ∧ f.diff = ""
  iteration : m.iteration = none

theorem mapPipelineStatus_text_iff (p : PipelineState) :
    mapPipelineStatus p.text = none ↔ p ∉ [.pending, .running, .success, .failed, .canceled] := by
  cases p <;> decide +kernel

/-- The REST path and the GraphQL path make the same record of a merge request just when it belongs
to no project, tells nothing of its pipeline, its files and an iteration, and has only regular rules,
on an enterprise instance. -/
theorem composites_agree_iff (isEE : Bool) (m : AbstractMR) :
    getMergeRequestREST isEE m.iid m.restAnswers = mapGraphQLMRResponse (some m.graphQL) ↔
      PathsAgree isEE m := by
  rw [getMergeRequestREST_restAnswers, mapGraphQLMRResponse_graphQL, Except.ok.injEq]
  constructor
  · intro h
    have hproject : (m.projectId : Int) = 0 := congrArg SyncMergeRequest.projectId h
    have hpipeline : (m.pipeline.map PipelineState.text).bind mapPipelineStatus = none :=
      congrArg SyncMergeRequest.pipelineStatus h
    have hfiles : (m.files.map AbstractFile.raw).map mapChangedFile =
        (m.files.map AbstractFile.graphQL).map mapGraphQLDiffStat :=
      Option.some.inj (congrArg SyncMergeRequest.changedFiles h)
    have hrules := congrArg SyncMergeRequest.approvalRules h
    have hiteration := congrArg SyncMergeRequest.iteration h
    have hedition : isEE = true := by
      by_contra hce
      rw [Bool.not_eq_true] at hce
      subst hce
      cases hrules
    subst hedition
    replace hrules : (m.rules.map AbstractRule.raw).map mapApprovalRule =
        (m.rules.map AbstractRule.graphQL).map mapGraphQLRule := Option.some.inj hrules
    rw [List.map_map, List.map_map, List.map_inj_left] at hfiles hrules
    constructor
    · omega
    · intro p hp
      rw [Option.mem_def.mp hp] at hpipeline
      exact (mapPipelineStatus_text_iff p).mp hpipeline
    · rfl
    · exact fun r hr => (mapGraphQLRule_eq_iff r).mp (hrules r hr)
    · exact fun f hf => (mapGraphQLDiffStat_eq_iff f).mp (hfiles f hf)
    · exact Option.map_eq_none_iff.mp hiteration
  · intro h
    have hpipeline : (m.pipeline.map PipelineState.text).bind mapPipelineStatus = none := by
      cases hp : m.pipeline with
      | none => rfl
      | some p => exact (mapPipelineStatus_text_iff p).mpr (h.pipeline p hp)
    have hfiles : (m.files.map AbstractFile.raw).map mapChangedFile =
        (m.files.map AbstractFile.graphQL).map mapGraphQLDiffStat := by
      rw [List.map_map, List.map_map]
      exact List.map_congr_left fun f hf => (mapGraphQLDiffStat_eq_iff f).mpr (h.files f hf)
    have hrules : (m.rules.map AbstractRule.raw).map mapApprovalRule =
        (m.rules.map AbstractRule.graphQL).map mapGraphQLRule := by
      rw [List.map_map, List.map_map]
      exact List.map_congr_left fun r hr => (mapGraphQLRule_eq_iff r).mpr (h.rules r hr)
    have hproject : (mapMergeRequest m.raw true).projectId = 0 :=
      congrArg (fun n : Nat => (n : Int)) h.project
    rw [h.edition]
    unfold graphQLRecord restRecord
    rw [← hfiles, ← hrules, h.iteration, ← hproject]
    rw [show (none : Option SyncPipelineStatus) = (mapMergeRequest m.raw true).pipelineStatus from
      hpipeline.symm]
    rfl

section Examples

def exampleUser : AbstractUser := ⟨5, "ada", "Ada", none, none, "https://gitlab.com/ada"⟩

/-- An open merge request of project 7 with a successful pipeline. -/
def exampleMR : AbstractMR where
  iid := 3
  projectId := 7
  title := "Add a page"
  description := none
  state := .opened
  draft := false
  sourceBranch := "page"
  targetBranch := "main"
  mergeCheck := .can_be_merged
  mergedAt := none
  pipeline := some .success
  labels := []
  milestone := none
  iteration := none
  assignees := []
  reviewers := []
  author := exampleUser
  approvedBy := []
  approvalsRequired := 0
  rules := []
  files := []
  createdAt := 1
  updatedAt := 2
  webUrl := "https://gitlab.com/group/project/-/merge_requests/3"

/-- The pipeline is a success on one path and unknown on the other. -/
theorem composites_disagree : ¬ ∀ (isEE : Bool) (m : AbstractMR),
    getMergeRequestREST isEE m.iid m.restAnswers = mapGraphQLMRResponse (some m.graphQL) := by
  intro h
  have hsame := h true exampleMR
  rw [getMergeRequestREST_restAnswers, mapGraphQLMRResponse_graphQL] at hsame
  have hpipeline := congrArg SyncMergeRequest.pipelineStatus (Except.ok.inj hsame)
  revert hpipeline
  decide +kernel

end Examples

end HulyGitlab.Adapter
