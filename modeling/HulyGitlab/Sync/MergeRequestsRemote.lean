import HulyGitlab.Sync.IssuesRemote
import HulyGitlab.Sync.MergeRequests

/-!
# What a merge request is resolved to

The review fields of a record are optional; the mixin gets those the record
carries, and a status when there is something to derive it from.
-/

namespace HulyGitlab.MergeRequests

open MRApprovals UserIdentity

/-- Users that were fetched are resolved to as many references. -/
def UsersResolved (users : Option (List SyncUser)) (v : JsValue) : Prop :=
  match users with
  | none => v = .undefined
  | some users => ∃ refs : List Ref, v = .arr (refs.map .str) ∧ refs.length = users.length

theorem UsersResolved.defined_iff {users : Option (List SyncUser)} {v : JsValue}
    (h : UsersResolved users v) : v = .undefined ↔ users.isSome = false := by
  cases users with
  | none => exact iff_of_true h rfl
  | some us =>
    obtain ⟨refs, rfl, -⟩ := h
    exact iff_of_false JsValue.noConfusion Bool.noConfusion

/-- The review fields are resolved. -/
structure ReviewResolved (m : SyncMergeRequest) (r : RemoteMR) : Prop where
  reviewers : UsersResolved m.reviewers r.reviewerUuids
  approvedBy : UsersResolved m.approvedBy r.approvedByUuids

theorem resolveReviewerUuids_yields (env : Env) (workspaceUuid : String)
    (users : Option (List SyncUser)) :
    Effect.Yields (UsersResolved users)
      (resolveReviewerUuids env workspaceUuid ((users.map usersToJs).getD .undefined)) := by
  cases users with
  | none => exact Effect.Yields.pure rfl
  | some us =>
    refine Effect.Yields.bind_of (Q := fun items => items.length = us.length) ?_ fun items hitems =>
      Effect.Yields.bind_of (Effect.Yields.mapEach_length _ items) fun refs hrefs =>
        Effect.Yields.pure ⟨refs, rfl, hrefs.trans hitems⟩
    intro s items s' hrun
    obtain ⟨hitems, -⟩ := Effect.ofExcept_ok_iff.mp hrun
    obtain rfl : us.map SyncUser.toJs = items := Except.ok.inj hitems
    exact List.length_map _

theorem resolveRecord_yields (env : Env) (bctx : BindingContext) (m : SyncMergeRequest) :
    Effect.Yields (ReviewResolved m) (resolveRecord env bctx m.toFields) := by
  unfold resolveRecord
  rw [SyncMergeRequest.field_reviewers, SyncMergeRequest.field_approvedBy]
  refine Effect.Yields.bind fun _ => Effect.Yields.bind fun _ =>
    Effect.Yields.bind_of (resolveReviewerUuids_yields env _ m.reviewers) fun _ hreviewers =>
    Effect.Yields.bind_of (resolveReviewerUuids_yields env _ m.approvedBy) fun _ happroved =>
    Effect.Yields.bind fun _ => Effect.Yields.bind fun _ => Effect.Yields.bind fun _ =>
    Effect.Yields.pure ⟨hreviewers, happroved⟩

/-- The approval fields of a record come to a status. -/
def hasApprovalStatus (m : SyncMergeRequest) : Bool :=
  (m.approvalRules.getD []).length ≠ 0 || (m.approvedBy.isSome && m.approvalsRequired.isSome)

/-- The keys of the review mixin of a record. -/
def reviewKeys (m : SyncMergeRequest) : List String :=
  (if m.reviewers.isSome then ["reviewers"] else []) ++
    (if m.approvedBy.isSome then ["approvedBy"] else []) ++
    (if m.approvalsRequired.isSome then ["approvalsRequired"] else []) ++
    (if m.approvalRules.isSome then ["approvalRules"] else []) ++
    (if hasApprovalStatus m then ["approvalStatus"] else []) ++
    (if m.iteration.isSome then ["iteration"] else []) ++
    (if m.diffWebUrl.isSome then ["diffWebUrl"] else []) ++
    if m.changedFiles.isSome then ["changedFiles"] else []

theorem deriveApprovalStatusFromRules_ok (rules : List SyncMRApprovalRule) :
    ∃ status, deriveApprovalStatusFromRules (rules.map SyncMRApprovalRule.toJs) =
      .ok (.str status) := by
  induction rules with
  | nil => exact ⟨"approved", rfl⟩
  | cons rule rules ih =>
    have hstep : deriveApprovalStatusFromRules ((rule :: rules).map SyncMRApprovalRule.toJs) =
        if lengthBelow (some rule.approvedBy.length) (.num rule.approvalsRequired) then
          .ok (.str "pending")
        else deriveApprovalStatusFromRules (rules.map SyncMRApprovalRule.toJs) := by
      simp [deriveApprovalStatusFromRules, SyncMRApprovalRule.toJs, bind, Except.bind]
    rw [hstep]
    by_cases hbelow : lengthBelow (some rule.approvedBy.length) (.num rule.approvalsRequired) = true
    · rw [if_pos hbelow]
      exact ⟨"pending", rfl⟩
    · rw [if_neg hbelow]
      exact ih

theorem deriveApprovalStatus_str (approvers : Option Nat) (approvalsRequired : JsValue) :
    ∃ status, deriveApprovalStatus approvers approvalsRequired = .str status := by
  unfold deriveApprovalStatus
  split
  · split
    · exact ⟨_, rfl⟩
    · exact ⟨_, rfl⟩
  · exact ⟨_, rfl⟩

/-- The rules of a record decide its status; without any, the numbers do, if it has both. -/
theorem approvalStatusOf_eq (m : SyncMergeRequest) (v : JsValue) :
    approvalStatusOf m.toFields v =
      if (m.approvalRules.getD []).length ≠ 0 then
        deriveApprovalStatusFromRules ((m.approvalRules.getD []).map SyncMRApprovalRule.toJs)
      else if m.approvedBy.isSome ∧ m.approvalsRequired.isSome then
        ((v.orElse (.arr [])).length).map fun approvers =>
          deriveApprovalStatus approvers ((m.approvalsRequired.map JsValue.num).getD .undefined)
      else .ok .undefined := by
  have happroved : m.toFields.field "approvedBy" ≠ .undefined ∧
      m.toFields.field "approvalsRequired" ≠ .undefined ↔
      m.approvedBy.isSome ∧ m.approvalsRequired.isSome := by
    rw [SyncMergeRequest.field_approvedBy, SyncMergeRequest.field_approvalsRequired]
    cases m.approvedBy <;> cases m.approvalsRequired <;> simp [usersToJs]
  unfold approvalStatusOf
  rw [if_congr happroved rfl rfl, SyncMergeRequest.field_approvalRules,
    SyncMergeRequest.field_approvalsRequired]
  cases m.approvalRules with
  | none => rfl
  | some rules =>
    cases rules with
    | nil => rfl
    | cons rule rules => rfl

theorem approvalStatusOf_ok (m : SyncMergeRequest) {v : JsValue}
    (h : UsersResolved m.approvedBy v) :
    ∃ status, approvalStatusOf m.toFields v = .ok status ∧
      (status = .undefined ↔ hasApprovalStatus m = false) := by
  rw [approvalStatusOf_eq]
  by_cases hrules : (m.approvalRules.getD []).length ≠ 0
  · rw [if_pos hrules]
    obtain ⟨status, hstatus⟩ := deriveApprovalStatusFromRules_ok (m.approvalRules.getD [])
    exact ⟨_, hstatus, by simp [hasApprovalStatus, List.ne_nil_of_length_pos
      (Nat.pos_of_ne_zero hrules)]⟩
  · rw [if_neg hrules]
    by_cases hboth : m.approvedBy.isSome ∧ m.approvalsRequired.isSome
    · rw [if_pos hboth]
      obtain ⟨us, hus⟩ := Option.isSome_iff_exists.mp hboth.1
      rw [hus] at h
      obtain ⟨refs, rfl, -⟩ := h
      obtain ⟨status, hstatus⟩ := deriveApprovalStatus_str
        (some (refs.map JsValue.str).length) ((m.approvalsRequired.map JsValue.num).getD .undefined)
      refine ⟨.str status, congrArg Except.ok hstatus, ?_⟩
      simp [hasApprovalStatus, hboth]
    · rw [if_neg hboth]
      refine ⟨.undefined, rfl, iff_of_true rfl ?_⟩
      rw [not_not] at hrules
      unfold hasApprovalStatus
      rw [hrules]
      simpa using hboth

/-- The keys of a property that is only set when it is defined. -/
theorem keys_given (k : String) (v : JsValue) {defined : Bool} (h : v = .undefined ↔ defined = false) :
    (given k v).map Prod.fst = if defined then [k] else [] := by
  unfold given
  cases defined with
  | true => rw [if_neg (fun hv => absurd (h.mp hv) Bool.noConfusion)]; rfl
  | false => rw [if_pos (h.mpr rfl)]; rfl

theorem getD_map_eq_undefined {A : Type} (f : A → JsValue) (hf : ∀ a, f a ≠ .undefined)
    (a : Option A) : (a.map f).getD .undefined = .undefined ↔ a.isSome = false := by
  cases a with
  | none => exact iff_of_true rfl rfl
  | some a => exact iff_of_false (hf a) Bool.noConfusion

theorem buildReviewFromSyncMR_ok (m : SyncMergeRequest) {reviewers approvers : JsValue}
    (hreviewers : UsersResolved m.reviewers reviewers)
    (happroved : UsersResolved m.approvedBy approvers) :
    ∃ review, buildReviewFromSyncMR m.toFields reviewers approvers = .ok review ∧
      review.map Prod.fst = reviewKeys m := by
  obtain ⟨status, hstatus, hdefined⟩ := approvalStatusOf_ok m happroved
  refine ⟨_, by rw [buildReviewFromSyncMR, hstatus]; rfl, ?_⟩
  simp only [List.map_append, SyncMergeRequest.field_approvalsRequired,
    SyncMergeRequest.field_approvalRules, SyncMergeRequest.field_iteration,
    SyncMergeRequest.field_diffWebUrl, SyncMergeRequest.field_changedFiles]
  rw [keys_given _ _ hreviewers.defined_iff, keys_given _ _ happroved.defined_iff,
    keys_given _ _ hdefined,
    keys_given _ _ (getD_map_eq_undefined JsValue.num (fun _ => JsValue.noConfusion) _),
    keys_given _ _ (getD_map_eq_undefined _ (fun _ => JsValue.noConfusion) m.approvalRules),
    keys_given _ _ (getD_map_eq_undefined _ (fun i => by cases i <;> exact JsValue.noConfusion)
      m.iteration),
    keys_given _ _ (getD_map_eq_undefined JsValue.str (fun _ => JsValue.noConfusion) _),
    keys_given _ _ (getD_map_eq_undefined _ (fun _ => JsValue.noConfusion) m.changedFiles)]
  rfl

end HulyGitlab.MergeRequests
