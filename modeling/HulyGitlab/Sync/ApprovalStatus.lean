import HulyGitlab.Lib.Transition
import HulyGitlab.Sync.FieldOwnership
import HulyGitlab.Sync.Frames
import HulyGitlab.Sync.MergeRequestsRemote

/-!
# The status and the approvals it stands for

A record writes those approval fields it carries, and a status when it carries
enough to derive one. The fields it leaves alone come from other records, and
the status need not fit them.
-/

namespace HulyGitlab

namespace ApprovalStatus

open MRApprovals MergeRequests

/-- What a review mixin says about approvals. -/
structure Approvals where
  approvedBy : Option (List Ref)
  approvalsRequired : Option Int
  approvalRules : Option (List SyncMRApprovalRule)
  approvalStatus : Option String
  deriving DecidableEq

/-- The threshold of the rule is met by its approvers. -/
def Met (rule : SyncMRApprovalRule) : Prop := rule.approvalsRequired ≤ rule.approvedBy.length

instance (rule : SyncMRApprovalRule) : Decidable (Met rule) := inferInstanceAs (Decidable (_ ≤ _))

/-- So many approvers are enough. -/
def Suffices (approvalsRequired : Option Int) (approvers : Nat) : Prop :=
  0 < approvalsRequired.getD 0 ∧ approvalsRequired.getD 0 ≤ approvers

instance (approvalsRequired : Option Int) (approvers : Nat) :
    Decidable (Suffices approvalsRequired approvers) := inferInstanceAs (Decidable (_ ∧ _))

namespace Approvals

variable (a : Approvals)

def none : Approvals := ⟨.none, .none, .none, .none⟩

def rules : List SyncMRApprovalRule := a.approvalRules.getD []

def approvers : Nat := (a.approvedBy.getD []).length

/-- An approved status is backed by the rules, or by the number of approvers when there are none. -/
def Backed : Prop :=
  a.approvalStatus = some "approved" →
    (∀ rule ∈ a.rules, Met rule) ∧ (a.rules = [] → Suffices a.approvalsRequired a.approvers)

instance : Decidable a.Backed := inferInstanceAs (Decidable (_ → _))

theorem backed_none : none.Backed := fun h => by cases h

end Approvals

/-- The status a record comes to, when its users are these. -/
def derivedStatus (m : SyncMergeRequest) (approvedBy : Option (List Ref)) : Option String :=
  if (m.approvalRules.getD []) ≠ [] then
    some (if ∀ rule ∈ m.approvalRules.getD [], Met rule then "approved" else "pending")
  else
    match approvedBy, m.approvalsRequired with
    | some refs, some required =>
        some (if Suffices (some required) refs.length then "approved" else "pending")
    | _, _ => none

/-- The fields after a record. -/
def absorb (a : Approvals) (m : SyncMergeRequest) (approvedBy : Option (List Ref)) : Approvals where
  approvedBy := approvedBy.or a.approvedBy
  approvalsRequired := m.approvalsRequired.or a.approvalsRequired
  approvalRules := m.approvalRules.or a.approvalRules
  approvalStatus := (derivedStatus m approvedBy).or a.approvalStatus

/-- What keeps the status of `a` honest when a record comes that leaves `approvers` approvers: counts
without rules may not overrule a stored rule that is not met, and an approved status that the record
does not touch may not lose its rules or its counts. -/
structure Sound (a : Approvals) (m : SyncMergeRequest) (approvers : Nat) : Prop where
  counts : m.approvalRules = none → m.approvedBy.isSome → Suffices m.approvalsRequired approvers →
    ∀ rule ∈ a.rules, Met rule
  untouched : a.approvalStatus = some "approved" → (m.approvalRules.or a.approvalRules).getD [] = [] →
    (m.approvedBy = none ∨ m.approvalsRequired = none) →
    Suffices (m.approvalsRequired.or a.approvalsRequired) approvers

section Absorb

variable {a : Approvals} {m : SyncMergeRequest} {approvedBy : Option (List Ref)}

theorem not_suffices_none (approvers : Nat) : ¬ Suffices none approvers :=
  fun h => absurd h.1 (by decide)

/-- The status of a record without rules follows the counts, if it has both. -/
theorem derivedStatus_of_counts {refs : List Ref} {required : Int}
    (hrules : m.approvalRules.getD [] = []) (hrequired : m.approvalsRequired = some required) :
    derivedStatus m (some refs) =
      some (if Suffices (some required) refs.length then "approved" else "pending") := by
  unfold derivedStatus
  rw [if_neg (not_not_intro hrules), hrequired]

theorem derivedStatus_of_missing (hrules : m.approvalRules.getD [] = [])
    (hmissing : approvedBy = none ∨ m.approvalsRequired = none) :
    derivedStatus m approvedBy = none := by
  unfold derivedStatus
  rw [if_neg (not_not_intro hrules)]
  obtain rfl | hnone := hmissing
  · rfl
  · rw [hnone]
    cases approvedBy with
    | none => rfl
    | some refs => rfl

/-- A record with rules brings its own evidence. -/
theorem backed_absorb_of_rules (hrules : m.approvalRules.getD [] ≠ []) :
    (absorb a m approvedBy).Backed := by
  have hstored : (absorb a m approvedBy).rules = m.approvalRules.getD [] := by
    cases hsome : m.approvalRules with
    | none => exact absurd (by rw [hsome]; rfl) hrules
    | some rules => simp [Approvals.rules, absorb, hsome]
  have hderived : (absorb a m approvedBy).approvalStatus =
      some (if ∀ rule ∈ m.approvalRules.getD [], Met rule then "approved" else "pending") := by
    simp only [absorb, derivedStatus, if_pos hrules, Option.some_or]
  intro hstatus
  rw [hstored]
  refine ⟨?_, fun hnil => absurd hnil hrules⟩
  by_contra hunmet
  rw [hderived, if_neg hunmet] at hstatus
  exact absurd (Option.some.inj hstatus) (by decide)

theorem sound_of_rules (hrules : m.approvalRules.getD [] ≠ []) (n : Nat) : Sound a m n := by
  constructor
  · intro hnone
    exact absurd (by rw [hnone]; rfl) hrules
  · intro _ hnil
    cases hsome : m.approvalRules with
    | none => exact absurd (by rw [hsome]; rfl) hrules
    | some rules =>
      rw [hsome, Option.some_or] at hnil
      exact absurd (by rw [hsome]; exact hnil) hrules

/-- With both counts and no rules, a new approval needs the stored rules. -/
theorem backed_absorb_of_counts_iff {refs : List Ref} {required : Int}
    (hrules : m.approvalRules.getD [] = []) (happroved : approvedBy = some refs)
    (hrequired : m.approvalsRequired = some required) :
    (absorb a m approvedBy).Backed ↔
      (m.approvalRules = none → Suffices m.approvalsRequired refs.length →
        ∀ rule ∈ a.rules, Met rule) := by
  have hstatus : (absorb a m approvedBy).approvalStatus = some "approved" ↔
      Suffices m.approvalsRequired refs.length := by
    simp only [absorb, happroved, derivedStatus_of_counts hrules hrequired, Option.some_or,
      hrequired]
    by_cases hsuffices : Suffices (some required) refs.length
    · simp [hsuffices]
    · simp [hsuffices]
  have hcounts : Suffices (absorb a m approvedBy).approvalsRequired
      (absorb a m approvedBy).approvers ↔ Suffices m.approvalsRequired refs.length := by
    simp [absorb, Approvals.approvers, happroved, hrequired]
  unfold Approvals.Backed
  rw [hstatus, hcounts]
  cases hnone : m.approvalRules with
  | none =>
    have hstored : (absorb a m approvedBy).rules = a.rules := by
      simp [Approvals.rules, absorb, hnone]
    rw [hstored]
    constructor
    · exact fun h _ hsuffices => (h hsuffices).1
    · exact fun h hsuffices => ⟨h rfl hsuffices, fun _ => hsuffices⟩
  | some rules =>
    have hstored : (absorb a m approvedBy).rules = [] := by
      rw [hnone] at hrules
      simpa [Approvals.rules, absorb, hnone] using hrules
    rw [hstored]
    constructor
    · exact fun _ hsome => absurd hsome (Option.some_ne_none rules)
    · exact fun _ hsuffices => ⟨fun rule hrule => absurd hrule List.not_mem_nil, fun _ => hsuffices⟩

/-- Without both counts, the old status needs what is stored after the record. -/
theorem backed_absorb_of_missing_iff (ha : a.Backed) (hrules : m.approvalRules.getD [] = [])
    (hmissing : approvedBy = none ∨ m.approvalsRequired = none) :
    (absorb a m approvedBy).Backed ↔
      (a.approvalStatus = some "approved" → (m.approvalRules.or a.approvalRules).getD [] = [] →
        Suffices (m.approvalsRequired.or a.approvalsRequired)
          ((approvedBy.or a.approvedBy).getD []).length) := by
  have hstatus : (absorb a m approvedBy).approvalStatus = a.approvalStatus := by
    simp only [absorb, derivedStatus_of_missing hrules hmissing, Option.none_or]
  have hstored : ∀ rule ∈ (absorb a m approvedBy).rules, rule ∈ a.rules := by
    cases hnone : m.approvalRules with
    | none => simp [Approvals.rules, absorb, hnone]
    | some rules =>
      rw [hnone] at hrules
      have hnil : (absorb a m approvedBy).rules = [] := by
        simpa [Approvals.rules, absorb, hnone] using hrules
      exact fun rule hrule => absurd (hnil ▸ hrule) List.not_mem_nil
  unfold Approvals.Backed
  rw [hstatus]
  constructor
  · exact fun h happroved hnil => (h happroved).2 hnil
  · exact fun h happroved => ⟨fun rule hrule => (ha happroved).1 rule (hstored rule hrule),
      fun hnil => h happroved hnil⟩

/-- A status that was backed stays so just when the record is sound for it. -/
theorem backed_absorb_iff (ha : a.Backed) (hfetched : approvedBy.isSome = m.approvedBy.isSome) :
    (absorb a m approvedBy).Backed ↔
      Sound a m ((approvedBy.or a.approvedBy).getD []).length := by
  by_cases hrules : m.approvalRules.getD [] = []
  · by_cases hmissing : approvedBy = none ∨ m.approvalsRequired = none
    · have hrecord : m.approvedBy = none ∨ m.approvalsRequired = none := by
        refine hmissing.imp (fun hnone => ?_) id
        rw [hnone] at hfetched
        exact Option.isSome_eq_false_iff.mp hfetched.symm |> Option.isNone_iff_eq_none.mp
      rw [backed_absorb_of_missing_iff ha hrules hmissing]
      constructor
      · refine fun h => ⟨fun _ hsome hsuffices => ?_, fun happroved hnil _ => h happroved hnil⟩
        obtain hnone | hnone := hrecord
        · rw [hnone] at hsome
          exact absurd hsome (by decide)
        · rw [hnone] at hsuffices
          exact absurd hsuffices (not_suffices_none _)
      · exact fun h happroved hnil => h.untouched happroved hnil hrecord
    · rw [not_or] at hmissing
      obtain ⟨refs, hrefs⟩ := Option.ne_none_iff_exists'.mp hmissing.1
      obtain ⟨required, hrequired⟩ := Option.ne_none_iff_exists'.mp hmissing.2
      have hsome : m.approvedBy.isSome := by
        rw [← hfetched, hrefs]
        rfl
      have hlength : ((approvedBy.or a.approvedBy).getD []).length = refs.length := by
        rw [hrefs]
        rfl
      rw [backed_absorb_of_counts_iff hrules hrefs hrequired, hlength]
      constructor
      · refine fun h => ⟨fun hnone _ => h hnone, fun _ _ hmissing => ?_⟩
        obtain hnone | hnone := hmissing
        · rw [hnone] at hsome
          exact absurd hsome (by decide)
        · rw [hnone] at hrequired
          exact absurd hrequired (Option.some_ne_none required).symm
      · exact fun h hnone => h.counts hnone hsome
  · exact iff_of_true (backed_absorb_of_rules hrules) (sound_of_rules hrules _)

end Absorb

/-- A list of references as the mixins have it. -/
def refsToJs (refs : Option (List Ref)) : JsValue :=
  (refs.map fun refs => JsValue.arr (refs.map .str)).getD .undefined

/-- The attributes of a review mixin that say `a`. -/
structure Holds (review : Fields) (a : Approvals) : Prop where
  approvedBy : review.field "approvedBy" = refsToJs a.approvedBy
  approvalsRequired :
    review.field "approvalsRequired" = (a.approvalsRequired.map JsValue.num).getD .undefined
  approvalRules : review.field "approvalRules" =
    (a.approvalRules.map fun rules => .arr (rules.map SyncMRApprovalRule.toJs)).getD .undefined
  approvalStatus : review.field "approvalStatus" =
    (a.approvalStatus.map JsValue.str).getD .undefined

theorem holds_nil : Holds [] Approvals.none := ⟨rfl, rfl, rfl, rfl⟩

theorem eq_none_of_undefined {A : Type} {f : A → JsValue} (hf : ∀ x, f x ≠ .undefined)
    {x : Option A} (h : .undefined = (x.map f).getD .undefined) : x = none := by
  cases x with
  | none => rfl
  | some x => exact absurd h.symm (hf x)

/-- A mixin without attributes says nothing. -/
theorem holds_nil_iff {a : Approvals} : Holds [] a ↔ a = Approvals.none := by
  constructor
  · intro h
    obtain ⟨approvedBy, approvalsRequired, approvalRules, approvalStatus⟩ := a
    obtain rfl := eq_none_of_undefined (fun _ => JsValue.noConfusion) h.approvedBy
    obtain rfl := eq_none_of_undefined (fun _ => JsValue.noConfusion) h.approvalsRequired
    obtain rfl := eq_none_of_undefined (fun _ => JsValue.noConfusion) h.approvalRules
    obtain rfl := eq_none_of_undefined (fun _ => JsValue.noConfusion) h.approvalStatus
    rfl
  · rintro rfl
    exact holds_nil

theorem field_assign_given (fs : Fields) (k j : String) (v : JsValue) :
    (fs.assign (given k v)).field j = if j = k ∧ v ≠ .undefined then v else fs.field j := by
  unfold given
  by_cases hv : v = .undefined
  · simp [hv]
  · rw [if_neg hv, Fields.assign_cons, Fields.assign_nil, Fields.field_set]
    simp [hv, eq_comm]

/-- A field that is written when it is there. -/
theorem getD_or {A : Type} (f : A → JsValue) (hf : ∀ x, f x ≠ .undefined) (x y : Option A)
    {v : JsValue} (hv : v = (y.map f).getD .undefined) :
    (if (x.map f).getD .undefined ≠ .undefined then (x.map f).getD .undefined else v) =
      ((x.or y).map f).getD .undefined := by
  cases x with
  | none => simp [hv]
  | some x => simp [hf x]

section Write

variable {m : SyncMergeRequest} {approvedBy : Option (List Ref)}

theorem deriveApprovalStatusFromRules_eq (rules : List SyncMRApprovalRule) :
    deriveApprovalStatusFromRules (rules.map SyncMRApprovalRule.toJs) =
      .ok (.str (if ∀ rule ∈ rules, Met rule then "approved" else "pending")) := by
  induction rules with
  | nil => rfl
  | cons rule rules ih =>
    have hstep : deriveApprovalStatusFromRules ((rule :: rules).map SyncMRApprovalRule.toJs) =
        if lengthBelow (some rule.approvedBy.length) (.num rule.approvalsRequired) then
          .ok (.str "pending")
        else deriveApprovalStatusFromRules (rules.map SyncMRApprovalRule.toJs) := by
      simp [deriveApprovalStatusFromRules, SyncMRApprovalRule.toJs, bind, Except.bind]
    rw [hstep, ih]
    by_cases hmet : Met rule
    · have hbelow : ¬ lengthBelow (some rule.approvedBy.length) (.num rule.approvalsRequired) = true :=
        fun hlt => absurd (of_decide_eq_true hlt) (not_lt.mpr hmet)
      rw [if_neg hbelow]
      simp [hmet]
    · have hbelow : lengthBelow (some rule.approvedBy.length) (.num rule.approvalsRequired) = true :=
        decide_eq_true (not_le.mp hmet)
      rw [if_pos hbelow]
      simp [hmet]

/-- The status that is written is the derived one. -/
theorem approvalStatusOf_derived (hfetched : approvedBy.isSome = m.approvedBy.isSome) :
    approvalStatusOf m.toFields (refsToJs approvedBy) =
      .ok (((derivedStatus m approvedBy).map JsValue.str).getD .undefined) := by
  rw [approvalStatusOf_eq, deriveApprovalStatusFromRules_eq]
  unfold derivedStatus
  by_cases hrules : m.approvalRules.getD [] = []
  · rw [if_neg (by simp [hrules]), if_neg (not_not_intro hrules), ← hfetched]
    cases approvedBy with
    | none => rfl
    | some refs =>
      cases m.approvalsRequired with
      | none => rfl
      | some required =>
        simp only [Option.isSome_some, and_self, if_true, refsToJs, Option.map_some,
          Option.getD_some]
        have hderive : deriveApprovalStatus (some (refs.map JsValue.str).length) (.num required) =
            .str (if Suffices (some required) refs.length then "approved" else "pending") := by
          rw [List.length_map]
          unfold deriveApprovalStatus Suffices
          exact (apply_ite JsValue.str _ _ _).symm
        exact congrArg Except.ok hderive
  · rw [if_pos (by simpa using hrules), if_pos hrules]
    rfl

/-- A write of the review mixin is a step of the approvals. -/
theorem Holds.absorb {review update : Fields} {a : Approvals} {reviewers : JsValue}
    (h : Holds review a) (hfetched : approvedBy.isSome = m.approvedBy.isSome)
    (hupdate : buildReviewFromSyncMR m.toFields reviewers (refsToJs approvedBy) = .ok update) :
    Holds (review.assign (withOriginatedMarker update)) (ApprovalStatus.absorb a m approvedBy) := by
  have hmarker : withOriginatedMarker update = update ++ [("_originated", .str "gitlab")] := by
    refine Fields.set_of_not_mem (fun hmem => ?_) _
    have hkeys := MixinOwner.keys_buildReviewFromSyncMR hupdate hmem
    simp at hkeys
  unfold buildReviewFromSyncMR at hupdate
  rw [approvalStatusOf_derived hfetched] at hupdate
  obtain rfl := Except.ok.inj hupdate
  rw [hmarker]
  simp only [Fields.assign_append, Fields.assign_cons, Fields.assign_nil]
  constructor
  · simp only [Fields.field_set, field_assign_given]
    simp only [String.reduceEq, if_false, false_and, true_and]
    exact getD_or _ (fun _ => JsValue.noConfusion) _ _ h.approvedBy
  · simp only [Fields.field_set, field_assign_given, SyncMergeRequest.field_approvalsRequired]
    simp only [String.reduceEq, if_false, false_and, true_and]
    exact getD_or _ (fun _ => JsValue.noConfusion) _ _ h.approvalsRequired
  · simp only [Fields.field_set, field_assign_given, SyncMergeRequest.field_approvalRules]
    simp only [String.reduceEq, if_false, false_and, true_and]
    exact getD_or _ (fun _ => JsValue.noConfusion) _ _ h.approvalRules
  · simp only [Fields.field_set, field_assign_given]
    simp only [String.reduceEq, if_false, false_and, true_and]
    exact getD_or _ (fun _ => JsValue.noConfusion) _ _ h.approvalStatus

end Write

/-- The mixins of a document say `a`, and only the review mixin or the legacy one has approvers. -/
structure Consistent (doc : HulyDoc) (a : Approvals) : Prop where
  keys : ((doc.mixinAttrs MR_REVIEW_MIXIN_DOC).map Prod.fst).Nodup
  review : Holds (doc.mixinAttrs MR_REVIEW_MIXIN_DOC) a
  core : (doc.mixinAttrs MR_CORE_MIXIN).field "approvedBy" = .undefined
  legacy : ∃ refs, (doc.mixinAttrs MR_MIXIN).field "approvedBy" = refsToJs refs

/-- The stored approvals are typed, and they back the stored status. -/
def Honest (doc : HulyDoc) : Prop := ∃ a, Consistent doc a ∧ a.Backed

def AllHonest (w : World) : Prop := ∀ ref doc, w.docs.get? ref = some doc → Honest doc

/-- How many approvers a mirror has after a record: those of the record, unless the race guard keeps
the local ones. -/
def approversAfter (doc : HulyDoc) (now : Nat) (m : SyncMergeRequest) : Nat :=
  match m.approvedBy with
  | none => ((doc.mixinAttrs MR_REVIEW_MIXIN_DOC).field "approvedBy").listOf.length
  | some users =>
      let known := (Fields.field (readMRMixinAttributes doc) "approvedBy").listOf.length
      if keepLocalApprovals (doc.attrs.field "modifiedOn") now (some m.updatedAt) (some known)
          (some users.length) then known
      else users.length

/-- The record is sound for what the mirror has stored. -/
def SoundFor (doc : HulyDoc) (now : Nat) (m : SyncMergeRequest) : Prop :=
  ∀ a, Holds (doc.mixinAttrs MR_REVIEW_MIXIN_DOC) a → Sound a m (approversAfter doc now m)

theorem sound_none (m : SyncMergeRequest) (n : Nat) : Sound Approvals.none m n :=
  ⟨fun _ _ _ rule hrule => absurd hrule List.not_mem_nil, fun hstatus => by cases hstatus⟩

theorem listOf_refsToJs (refs : Option (List Ref)) :
    (refsToJs refs).listOf.length = (refs.getD []).length := by
  cases refs with
  | none => rfl
  | some refs => exact List.length_map _

theorem Consistent.of_mixins {doc doc' : HulyDoc} {a : Approvals} (h : Consistent doc a)
    (hmixins : doc'.mixins = doc.mixins) : Consistent doc' a := by
  have hattrs : ∀ mixin, doc'.mixinAttrs mixin = doc.mixinAttrs mixin := fun mixin => by
    rw [HulyDoc.mixinAttrs, HulyDoc.mixinAttrs, hmixins]
  constructor
  · rw [hattrs]
    exact h.keys
  · rw [hattrs]
    exact h.review
  · rw [hattrs]
    exact h.core
  · rw [hattrs]
    exact h.legacy

theorem consistent_none {doc : HulyDoc} (h : doc.mixins = .empty) :
    Consistent doc Approvals.none := by
  have hattrs : ∀ mixin, doc.mixinAttrs mixin = [] := fun mixin => by
    rw [HulyDoc.mixinAttrs, h]
    rfl
  refine ⟨?_, ?_, ?_, none, ?_⟩
  · rw [hattrs]
    exact List.nodup_nil
  · rw [hattrs]
    exact holds_nil
  · rw [hattrs]
    rfl
  · rw [hattrs]
    rfl

/-- The core attributes of a record have no approvers among them. -/
theorem Consistent.putCore {doc : HulyDoc} {a : Approvals} (h : Consistent doc a)
    (syncMR : Fields) :
    Consistent (doc.withMixin MR_CORE_MIXIN
      (withOriginatedMarker (buildCoreFromSyncMR syncMR))) a := by
  constructor
  · rw [HulyDoc.mixinAttrs_withMixin, if_neg (by decide)]
    exact h.keys
  · rw [HulyDoc.mixinAttrs_withMixin, if_neg (by decide)]
    exact h.review
  · rw [HulyDoc.mixinAttrs_withMixin, if_pos rfl, Fields.field_assign_of_not_mem]
    · exact h.core
    · simp [withOriginatedMarker, buildCoreFromSyncMR, Fields.set]
  · rw [HulyDoc.mixinAttrs_withMixin, if_neg (by decide)]
    exact h.legacy

theorem Consistent.putReview {doc : HulyDoc} {a : Approvals} {m : SyncMergeRequest}
    {approvedBy : Option (List Ref)} {update : Fields} {reviewers : JsValue}
    (h : Consistent doc a) (hfetched : approvedBy.isSome = m.approvedBy.isSome)
    (hupdate : buildReviewFromSyncMR m.toFields reviewers (refsToJs approvedBy) = .ok update) :
    Consistent (doc.withMixin MR_REVIEW_MIXIN_DOC (withOriginatedMarker update))
      (absorb a m approvedBy) := by
  constructor
  · rw [HulyDoc.mixinAttrs_withMixin, if_pos rfl]
    exact Fields.nodup_keys_assign h.keys _
  · rw [HulyDoc.mixinAttrs_withMixin, if_pos rfl]
    exact h.review.absorb hfetched hupdate
  · rw [HulyDoc.mixinAttrs_withMixin, if_neg (by decide)]
    exact h.core
  · rw [HulyDoc.mixinAttrs_withMixin, if_neg (by decide)]
    exact h.legacy

/-- The approvers the race guard compares with. -/
theorem Consistent.known {doc : HulyDoc} {a : Approvals} (h : Consistent doc a) :
    ∃ refs, Fields.field (readMRMixinAttributes doc) "approvedBy" = refsToJs refs := by
  obtain ⟨refs, hlegacy⟩ := h.legacy
  have hassign : ((doc.mixinAttrs MR_CORE_MIXIN).assign
      (doc.mixinAttrs MR_REVIEW_MIXIN_DOC)).field "approvedBy" = refsToJs a.approvedBy := by
    rw [← h.review.approvedBy]
    by_cases hmem : "approvedBy" ∈ (doc.mixinAttrs MR_REVIEW_MIXIN_DOC).map Prod.fst
    · exact Fields.field_assign_of_mem _ _ hmem h.keys
    · rw [Fields.field_assign_of_not_mem _ _ hmem, Fields.field_of_not_mem hmem, h.core]
  unfold HulyDoc.mixinAttrs at hassign hlegacy
  unfold readMRMixinAttributes
  cases hc : doc.mixins.get? MR_CORE_MIXIN with
  | some core =>
    rw [hc] at hassign
    exact ⟨_, hassign⟩
  | none =>
    cases hr : doc.mixins.get? MR_REVIEW_MIXIN_DOC with
    | some review =>
      rw [hc, hr] at hassign
      exact ⟨_, hassign⟩
    | none => exact ⟨refs, hlegacy⟩

/-- The approvers that are written, and how many there are then. -/
theorem resolvedApprovedBy_ok {doc : HulyDoc} {a : Approvals} {m : SyncMergeRequest} {v : JsValue}
    (h : Consistent doc a) (hv : UsersResolved m.approvedBy v) (now : Nat) :
    ∃ approvedBy, resolvedApprovedBy doc now (some m.updatedAt) v = .ok (refsToJs approvedBy) ∧
      approvedBy.isSome = m.approvedBy.isSome ∧
      ((approvedBy.or a.approvedBy).getD []).length = approversAfter doc now m := by
  obtain ⟨known, hknown⟩ := h.known
  unfold approversAfter resolvedApprovedBy
  cases husers : m.approvedBy with
  | none =>
    rw [husers] at hv
    obtain rfl : v = .undefined := hv
    refine ⟨none, if_pos rfl, rfl, ?_⟩
    dsimp only
    rw [h.review.approvedBy, listOf_refsToJs, Option.none_or]
  | some users =>
    rw [husers] at hv
    obtain ⟨refs, rfl, hlength⟩ := hv
    have hlocal : ((refsToJs known).orElse (.arr [])).length =
        .ok (some (known.getD []).length) := by
      cases known with
      | none => rfl
      | some known => simp [refsToJs, JsValue.orElse]
    dsimp only
    rw [if_neg JsValue.noConfusion, hknown, hlocal, listOf_refsToJs, ← hlength]
    have hremote : (JsValue.arr (refs.map .str)).length = .ok (some refs.length) := by simp
    rw [hremote]
    simp only [bind, Except.bind]
    by_cases hkeep : keepLocalApprovals (doc.attrs.field "modifiedOn") now (some m.updatedAt)
        (some (known.getD []).length) (some refs.length) = true
    · have hsome : ∃ kept, known = some kept := by
        cases known with
        | some kept => exact ⟨kept, rfl⟩
        | none =>
          have hnever : keepLocalApprovals (doc.attrs.field "modifiedOn") now (some m.updatedAt)
              (some 0) (some refs.length) = false := by
            unfold keepLocalApprovals
            cases doc.attrs.field "modifiedOn" with
            | num ts => simp
            | _ => rfl
          exact absurd (hkeep.symm.trans hnever) Bool.noConfusion
      obtain ⟨kept, rfl⟩ := hsome
      rw [if_pos hkeep, if_pos hkeep]
      exact ⟨some kept, rfl, rfl, rfl⟩
    · rw [if_neg hkeep, if_neg hkeep]
      exact ⟨some refs, rfl, rfl, rfl⟩

theorem AllHonest.set {w w' : World} {ref : Ref} {doc : HulyDoc} (h : AllHonest w)
    (hdoc : Honest doc) (hset : w'.docs = w.docs.set ref doc) : AllHonest w' := by
  intro other doc' hdoc'
  rw [hset] at hdoc'
  by_cases hother : other = ref
  · rw [hother, OrderedMap.get?_set_self] at hdoc'
    exact Option.some.inj hdoc' ▸ hdoc
  · rw [OrderedMap.get?_set_of_ne _ hother] at hdoc'
    exact h other doc' hdoc'

theorem AllHonest.of_docs {w w' : World} (h : AllHonest w) (hsame : w'.docs = w.docs) :
    AllHonest w' := by
  intro ref doc hdoc
  rw [hsame] at hdoc
  exact h ref doc hdoc

/-- What resolving a record leaves of the documents: the old ones as they were, and new ones
without mixins. -/
structure Grows (w w' : World) : Prop where
  kept : ∀ ref doc, w.docs.get? ref = some doc → w'.docs.get? ref = some doc
  fresh : ∀ ref doc, w'.docs.get? ref = some doc → w.docs.get? ref = some doc ∨ doc.mixins = .empty

theorem Grows.refl (w : World) : Grows w w := ⟨fun _ _ h => h, fun _ _ h => .inl h⟩

theorem Grows.of_docs {w w' : World} (h : w'.docs = w.docs) : Grows w w' := by
  constructor
  · intro ref doc hdoc
    rwa [h]
  · intro ref doc hdoc
    rw [h] at hdoc
    exact .inl hdoc

theorem Grows.trans (w₁ w₂ w₃ : World) (h : Grows w₁ w₂) (h' : Grows w₂ w₃) : Grows w₁ w₃ :=
  ⟨fun ref doc hdoc => h'.kept ref doc (h.kept ref doc hdoc),
    fun ref doc hdoc => (h'.fresh ref doc hdoc).elim (h.fresh ref doc) .inr⟩

theorem Grows.allHonest {w w' : World} (h : Grows w w') (hw : AllHonest w) : AllHonest w' := by
  intro ref doc hdoc
  obtain hold | hempty := h.fresh ref doc hdoc
  · exact hw ref doc hold
  · exact ⟨_, consistent_none hempty, Approvals.backed_none⟩

/-- A created document is new. -/
theorem Grows.create {env : Env} {w w' : World} {doc : HulyDoc} (hempty : doc.mixins = .empty)
    (hset : w'.docs = w.docs.set (env.generateId w.docs.keys) doc) : Grows w w' := by
  have hfresh : w.docs.get? (env.generateId w.docs.keys) = none :=
    (OrderedMap.get?_eq_none_iff _ _).mpr (env.generateId_fresh w.docs.keys)
  constructor
  · intro ref old hold
    rw [hset, OrderedMap.get?_set_of_ne]
    · exact hold
    · rintro rfl
      exact Option.some_ne_none _ (hold.symm.trans hfresh)
  · intro ref new hnew
    rw [hset] at hnew
    by_cases href : ref = env.generateId w.docs.keys
    · rw [href, OrderedMap.get?_set_self] at hnew
      exact .inr (Option.some.inj hnew ▸ hempty)
    · rw [OrderedMap.get?_set_of_ne _ href] at hnew
      exact .inl hnew

theorem grows_resolveRecord (env : Env) (bctx : BindingContext) (syncMR : Fields) :
    Effect.Within Grows (resolveRecord env bctx syncMR) := by
  have hwriting : Writing env (fun _ => False) noMixins (Awaits.resolveRecord env bctx syncMR) :=
    Awaits.writing_resolveRecord env bctx syncMR
  rw [← Awaits.toEffect_resolveRecord]
  refine Coroutine.Always.within Grows.refl Grows.trans (fun point w w' hpoint => ?_) hwriting
  obtain ⟨hwithin, hdoes⟩ := hpoint
  cases point with
  | createDoc objectClass attributes =>
    obtain hsame | ⟨space, hset⟩ := hdoes
    · exact Grows.of_docs hsame
    · exact Grows.create rfl hset
  | updateDoc objectClass ref operations => exact absurd hwithin id
  | putMixin objectClass ref mixin attributes => exact absurd hwithin.2 id
  | _ => exact Grows.of_docs hdoes

/-- All mirrors are honest, and this one says `a`. -/
structure Holding (now : Nat) (ref : Ref) (a : Approvals) (w : World) : Prop where
  honest : AllHonest w
  clock : w.now = now
  doc : ∃ doc, w.docs.get? ref = some doc ∧ Consistent doc a

section Triples

open Effect (Triple)

variable (env : Env) {now : Nat} {ref : Ref} {a : Approvals}

/-- What does not write documents keeps them honest. -/
theorem triple_of_writes (parts : List Part) {A : Type} {m : Sync A} (h : Writes parts m)
    (hparts : Part.docs ∉ parts) : Triple AllHonest m (fun _ => AllHonest) AllHonest := by
  intro w hw
  exact Triple.of_within h w (fun _ w' _ hframe => hw.of_docs (hframe.same .docs hparts))
    (fun w' hframe => hw.of_docs (hframe.same .docs hparts)) w rfl

theorem triple_putCore (ha : a.Backed) (syncMR : Fields) :
    Triple (Holding now ref a)
      (Sync.putMixin env ref MR_CORE_MIXIN (withOriginatedMarker (buildCoreFromSyncMR syncMR)))
      (fun _ => Holding now ref a) AllHonest := by
  intro w hw
  obtain ⟨doc, hdoc, hc⟩ := hw.doc
  obtain ⟨e, hrun⟩ | hrun := Sync.putMixin_cases env MR_CORE_MIXIN
    (withOriginatedMarker (buildCoreFromSyncMR syncMR)) hdoc
  · exact .inr ⟨e, w, hrun, hw.honest⟩
  · have hput := hc.putCore syncMR
    exact .inl ⟨(), _, hrun, hw.honest.set ⟨a, hput, ha⟩ rfl, hw.clock, _,
      OrderedMap.get?_set_self _ _ _, hput⟩

theorem triple_writeUpdate (ha : a.Backed) (update : Fields) (remoteTs : JsDate) :
    Triple (Holding now ref a) (writeUpdate env ref update remoteTs)
      (fun _ => Holding now ref a) AllHonest := by
  unfold writeUpdate
  by_cases hempty : update = []
  · rw [if_pos hempty]
    exact Triple.pure fun _ hw => hw
  · rw [if_neg hempty]
    intro w hw
    obtain ⟨doc, hdoc, hc⟩ := hw.doc
    generalize withOriginatedMarker (update.set "modifiedOn" (timeValue remoteTs)) = operations
    obtain ⟨e, hrun⟩ | hrun := Sync.updateDoc_cases env operations hdoc
    · exact .inr ⟨e, w, hrun, hw.honest⟩
    · have hkept : Consistent { doc with attrs := doc.attrs.assign operations } a :=
        hc.of_mixins rfl
      exact .inl ⟨(), _, hrun, hw.honest.set ⟨a, hkept, ha⟩ rfl, hw.clock, _,
        OrderedMap.get?_set_self _ _ _, hkept⟩

theorem triple_putReview {m : SyncMergeRequest} {approvedBy : Option (List Ref)}
    {reviewers : JsValue} {review : Fields} (ha : a.Backed)
    (hfetched : approvedBy.isSome = m.approvedBy.isSome)
    (hsound : Sound a m ((approvedBy.or a.approvedBy).getD []).length)
    (hreview : buildReviewFromSyncMR m.toFields reviewers (refsToJs approvedBy) = .ok review) :
    Triple (Holding now ref a) (putReviewMixin env ref review) (fun _ => AllHonest) AllHonest := by
  unfold putReviewMixin
  by_cases hempty : review = []
  · rw [if_pos hempty]
    exact Triple.pure fun _ hw => hw.honest
  · rw [if_neg hempty]
    intro w hw
    obtain ⟨doc, hdoc, hc⟩ := hw.doc
    obtain ⟨e, hrun⟩ | hrun := Sync.putMixin_cases env MR_REVIEW_MIXIN_DOC
      (withOriginatedMarker review) hdoc
    · exact .inr ⟨e, w, hrun, hw.honest⟩
    · exact .inl ⟨(), _, hrun, hw.honest.set ⟨_, hc.putReview hfetched hreview,
        (backed_absorb_iff ha hfetched).mpr hsound⟩ rfl⟩

/-- The core mixin comes before the review attributes are built. -/
theorem triple_review (ha : a.Backed) (syncMR : Fields) (reviewers approvers : JsValue) {A : Type}
    {f : Fields → Sync A}
    (hf : ∀ review, buildReviewFromSyncMR syncMR reviewers approvers = .ok review →
      Triple (Holding now ref a) (f review) (fun _ => AllHonest) AllHonest) :
    Triple (Holding now ref a)
      (do
        Sync.putMixin env ref MR_CORE_MIXIN (withOriginatedMarker (buildCoreFromSyncMR syncMR))
        let review ← Effect.ofExcept (buildReviewFromSyncMR syncMR reviewers approvers)
        f review)
      (fun _ => AllHonest) AllHonest := by
  refine Triple.bind (triple_putCore env ha _) fun _ => ?_
  refine Triple.bind (Q := fun review w => Holding now ref a w ∧
    buildReviewFromSyncMR syncMR reviewers approvers = .ok review)
    (Triple.ofExcept (fun _ _ hok hw => ⟨hw, hok⟩) fun _ hw => hw.honest) fun review => ?_
  rintro w ⟨hw, hreview⟩
  exact hf review hreview w hw

/-- What the guard resolves is written as it stands. -/
theorem triple_putMixins {m : SyncMergeRequest} {r : RemoteMR} {issue : HulyDoc} (ha : a.Backed)
    (hissue : Consistent issue a) (happroved : UsersResolved m.approvedBy r.approvedByUuids)
    (hsound : SoundFor issue now m) :
    Triple (Holding now ref a) (putMixins env ref issue m.toFields r (some m.updatedAt))
      (fun _ => AllHonest) AllHonest := by
  obtain ⟨approvedBy, hresolved, hfetched, hlength⟩ := resolvedApprovedBy_ok hissue happroved now
  have hsound' := hsound a hissue.review
  rw [← hlength] at hsound'
  unfold putMixins
  refine Triple.bind (Q := fun now' w => Holding now ref a w ∧ now' = now)
    (fun w hw => .inl ⟨w.now, w, rfl, hw, hw.clock⟩) fun now' => ?_
  rintro w ⟨hw, rfl⟩
  rw [hresolved, Effect.ofExcept_ok_bind]
  exact triple_review env ha _ _ _
    (fun _ hreview => triple_putReview env ha hfetched hsound' hreview) w hw

variable (binding : BindingRef) (bctx : BindingContext)

/-- The last steps write no document. -/
theorem triple_advanceCursor (kind : CursorKind) (localTs : Option JsDate) (remoteTs : JsDate) :
    Triple AllHonest (advanceCursor env binding kind localTs remoteTs) (fun _ => AllHonest)
      AllHonest :=
  triple_of_writes [.cursors] (Writes.advanceCursor env (by decide) _ _ _ _) (by decide)

/-- A new document has no mixins. -/
theorem triple_createDoc (space : Ref) (attributes : Fields) :
    Triple (fun w => AllHonest w ∧ w.now = now) (Sync.createDoc env issueClass space attributes)
      (fun ref => Holding now ref Approvals.none) AllHonest := by
  rintro w ⟨hw, hnow⟩
  obtain ⟨e, hrun⟩ | hrun := Sync.createDoc_cases env issueClass space attributes w
  · exact .inr ⟨e, w, hrun, hw⟩
  · have hnew : Consistent ⟨issueClass, space,
        Fields.assign [("modifiedOn", .num w.now)] attributes, .empty⟩ Approvals.none :=
      consistent_none rfl
    exact .inl ⟨_, _, hrun, hw.set ⟨_, hnew, Approvals.backed_none⟩ rfl, hnow, _,
      OrderedMap.get?_set_self _ _ _, hnew⟩

theorem triple_createFromRemote {m : SyncMergeRequest} {r : RemoteMR}
    (hr : ReviewResolved m r) (gitlabId : String) :
    Triple AllHonest
      (createFromRemote env binding bctx gitlabId m.toFields r (some m.updatedAt))
      (fun _ => AllHonest) AllHonest := by
  have happroved : ∃ approvedBy, r.approvedByUuids = refsToJs approvedBy ∧
      approvedBy.isSome = m.approvedBy.isSome := by
    have husers := hr.approvedBy
    cases hsome : m.approvedBy with
    | none =>
      rw [hsome] at husers
      exact ⟨none, husers, rfl⟩
    | some users =>
      rw [hsome] at husers
      obtain ⟨refs, hrefs, -⟩ := husers
      exact ⟨some refs, hrefs, rfl⟩
  obtain ⟨approvedBy, happroved, hfetched⟩ := happroved
  unfold createFromRemote
  dsimp only
  intro w hw
  by_cases hstatus : (MRStatusMap.mapRemoteMRState env (m.toFields.field "state")
      (m.toFields.field "draft") (.str "") bctx.statuses).status.text = ""
  · rw [if_pos hstatus]
    exact .inl ⟨(), w, rfl, hw⟩
  · rw [if_neg hstatus, happroved]
    refine Triple.bind (triple_createDoc env bctx.hulyProjectRef _) (fun ref => ?_) w ⟨hw, rfl⟩
    refine triple_review env Approvals.backed_none _ _ _ fun review hreview => ?_
    refine Triple.bind (triple_putReview env Approvals.backed_none hfetched
      (sound_none m _) hreview) fun _ => ?_
    refine triple_of_writes [.idmap, .cursors] ?_ (by decide)
    exact Writes.bind (Writes.upsertIdMap env (by decide) _) fun _ =>
      Writes.setCursor env (by decide) _ _ _

/-- The update reads the mirror before it writes it. -/
theorem triple_updateFromRemote {m : SyncMergeRequest} {r : RemoteMR} {w : World} {hulyRef : Ref}
    (hw : AllHonest w) (hr : ReviewResolved m r)
    (hsound : ∀ issue, w.docs.get? hulyRef = some issue → SoundFor issue w.now m) :
    Triple (fun t => t = w)
      (updateFromRemote env binding bctx hulyRef m.toFields r (some m.updatedAt))
      (fun _ => AllHonest) AllHonest := by
  have hfind : Triple (fun t => t = w) (Sync.findOne env issueClass hulyRef)
      (fun found t => t = w ∧ found =
        (w.docs.get? hulyRef).filter fun doc => doc.objectClass = issueClass) AllHonest := by
    rintro t rfl
    obtain ⟨e, hrun⟩ | hrun := Sync.findOne_cases env issueClass hulyRef t
    · exact .inr ⟨e, t, hrun, hw⟩
    · exact .inl ⟨_, t, hrun, rfl, rfl⟩
  unfold updateFromRemote
  refine Triple.bind hfind fun found => ?_
  cases found with
  | none => exact Triple.pure fun t ht => ht.1 ▸ hw
  | some issue =>
    refine Triple.of_forall fun t ht => ?_
    obtain ⟨rfl, hfound⟩ := ht
    obtain ⟨hdoc, -⟩ := Option.filter_eq_some_iff.mp hfound.symm
    obtain ⟨a, hissue, ha⟩ := hw hulyRef issue hdoc
    have hholding : ∀ s, s = t → Holding t.now hulyRef a s := by
      rintro s rfl
      exact ⟨hw, rfl, issue, hdoc, hissue⟩
    refine Triple.pre hholding (Triple.bind (triple_writeUpdate env ha _ _) fun _ => ?_)
    refine Triple.bind (triple_putMixins env ha hissue hr.approvedBy (hsound issue hdoc))
      fun _ => ?_
    exact triple_advanceCursor env binding _ _ _

end Triples

open Effect (Triple)

/-- The record is sound for its mirror, if it has one. -/
def SoundAt (env : Env) (bctx : BindingContext) (w : World) (m : SyncMergeRequest) : Prop :=
  ∀ row issue, w.idmap.findByGitlab bctx.workspaceUuid .merge_request
      (projectKey env bctx (.num m.iid)) = some row →
    w.docs.get? row.hulyRef = some issue → SoundFor issue w.now m

/-- A sound record leaves all mirrors honest, whether it is applied or its handler throws. -/
theorem applyRemote_honest (env : Env) {binding : BindingRef} {bctx : BindingContext}
    (hload : env.loadBinding binding = .ok bctx) {w : World} {m : SyncMergeRequest}
    (hw : AllHonest w) (hsound : SoundAt env bctx w m) :
    AllHonest ((applyRemote env binding m.toFields).run w).2 := by
  have hbinding : (Sync.loadBinding env binding).run w = (.ok bctx, w) := by
    simp [Sync.loadBinding, hload]
  unfold applyRemote
  rw [Effect.bind_of_ok hbinding]
  dsimp only
  rw [SyncMergeRequest.field_iid, SyncMergeRequest.field_updatedAt, JsValue.getTime_date]
  obtain ⟨r, lookups, hrun, hfound⟩ := Sync.findByGitlab_cases env bctx.workspaceUuid
    .merge_request (projectKey env bctx (.num m.iid)) w
  cases r with
  | error e =>
    rw [Effect.bind_of_error hrun]
    exact hw
  | ok found =>
    rw [Effect.bind_of_ok hrun]
    obtain rfl := hfound found rfl
    let w₁ : World := { w with lookups := lookups }
    have hw₁ : AllHonest w₁ := hw
    have hresolve : Triple (fun t => t = w₁) (resolveRecord env bctx m.toFields)
        (fun r w₂ => Grows w₁ w₂ ∧ w₂.now = w.now ∧ ReviewResolved m r) AllHonest := by
      refine Triple.of_within (grows_resolveRecord env bctx m.toFields) w₁
        (fun r w₂ hrun hgrows => ⟨hgrows, ?_, ?_⟩) fun w₂ hgrows => hgrows.allHonest hw₁
      · exact ((resolveRecord_writes env bctx m.toFields).of_run hrun).now
      · exact resolveRecord_yields env bctx m w₁ r w₂ hrun
    refine Triple.ends (Triple.bind hresolve fun r => ?_) rfl
    rintro w₂ ⟨hgrows, hnow, hr⟩
    have hw₂ : AllHonest w₂ := hgrows.allHonest hw₁
    cases hrow : w.idmap.findByGitlab bctx.workspaceUuid .merge_request
        (projectKey env bctx (.num m.iid)) with
    | none => exact triple_createFromRemote env binding bctx hr _ w₂ hw₂
    | some row =>
      refine triple_updateFromRemote env binding bctx hw₂ hr (fun issue hissue => ?_) w₂ rfl
      obtain hold | hempty := hgrows.fresh row.hulyRef issue hissue
      · rw [hnow]
        exact hsound row issue hrow hold
      · intro a ha
        have hattrs : issue.mixinAttrs MR_REVIEW_MIXIN_DOC = [] := by
          rw [HulyDoc.mixinAttrs, hempty]
          rfl
        rw [hattrs] at ha
        rw [holds_nil_iff.mp ha]
        exact sound_none m _

/-- A record and the time at which it is applied. -/
structure Delivery where
  record : SyncMergeRequest
  now : Nat

/-- The state after a record was applied. -/
def deliver (env : Env) (binding : BindingRef) (w : World) (d : Delivery) : World :=
  ((applyRemote env binding d.record.toFields).run { w with now := d.now }).2

/-- In a run whose records are sound for what is stored, the stored approvals back the stored status
in every state that is reached. -/
theorem approvals_back_status (env : Env) {binding : BindingRef} {bctx : BindingContext}
    (hload : env.loadBinding binding = .ok bctx) {w : World} (hw : AllHonest w)
    (ds : List Delivery)
    (hsound : ∀ before d, before ++ [d] <+: ds →
      SoundAt env bctx { Transition.exec (deliver env binding) w before with now := d.now }
        d.record) :
    ∀ before, before <+: ds → AllHonest (Transition.exec (deliver env binding) w before) := by
  intro before
  induction before using List.reverseRecOn with
  | nil => exact fun _ => hw
  | append_singleton before d ih =>
    intro hpre
    rw [Transition.exec_concat]
    have hbefore := ih ((List.prefix_append before [d]).trans hpre)
    exact applyRemote_honest env hload (hbefore.of_docs rfl) (hsound before d hpre)

/-- A merge request with the approval data of one fetch. -/
def fetchedMR (updatedAt : Nat) (approvedBy : Option (List SyncUser))
    (approvalsRequired : Option Int) (approvalRules : Option (List SyncMRApprovalRule)) :
    SyncMergeRequest where
  iid := 5
  projectId := 7
  title := "t"
  description := ""
  state := .opened
  draft := false
  sourceBranch := "topic"
  targetBranch := "main"
  mergeStatus := .can_be_merged
  mergedAt := none
  pipelineStatus := none
  labels := []
  milestone := none
  assignees := []
  author := ⟨1, "bob", "Bob", none, none, "u"⟩
  createdAt := 0
  updatedAt := updatedAt
  webUrl := "u"
  confidential := false
  reviewers := none
  approvedBy := approvedBy
  approvalsRequired := approvalsRequired
  approvalStatus := none
  diffWebUrl := none
  changedFiles := none
  approvalRules := approvalRules
  iteration := none

/-- Two approvals are required, and there are none. -/
def unmetRule : SyncMRApprovalRule := ⟨3, "rule", "regular", [], 2, []⟩

def alice : SyncUser := ⟨2, "alice", "Alice", none, none, "u"⟩

theorem allHonest_initial : AllHonest World.initial := fun _ _ h => by cases h

/-- Each record brings its rules. -/
def ruled : List Delivery :=
  [⟨fetchedMR 10 none none (some [unmetRule]), 20⟩,
    ⟨fetchedMR 30 (some [alice]) (some 1) (some [unmetRule]), 40⟩]

theorem approvals_back_status_ruled :
    AllHonest (Transition.exec (deliver (Env.quiet quietBinding) "binding") World.initial ruled) := by
  refine approvals_back_status (Env.quiet quietBinding) rfl allHonest_initial ruled ?_ ruled
    List.prefix_rfl
  intro before d hpre row issue _ _ a _
  have hmem := hpre.subset (List.mem_append_right before List.mem_cons_self)
  have hrules : d.record.approvalRules.getD [] ≠ [] := by
    rw [ruled, List.mem_cons, List.mem_singleton] at hmem
    obtain rfl | rfl := hmem
    · decide
    · decide
  exact sound_of_rules hrules _

/-- The rules could not be fetched the second time, and the counts overrule the stored rule. -/
def overruling : List Delivery :=
  [⟨fetchedMR 10 none none (some [unmetRule]), 20⟩, ⟨fetchedMR 30 (some [alice]) (some 1) none, 40⟩]

theorem not_allHonest_overruling :
    ¬ ∀ ds before, before <+: ds →
      AllHonest (Transition.exec (deliver (Env.quiet quietBinding) "binding") World.initial
        before) := by
  intro hall
  obtain ⟨ref, doc, hdoc, hstatus, hrules⟩ : ∃ ref doc,
      (Transition.exec (deliver (Env.quiet quietBinding) "binding") World.initial
        overruling).docs.get? ref = some doc ∧
      (doc.mixinAttrs MR_REVIEW_MIXIN_DOC).field "approvalStatus" = .str "approved" ∧
      (doc.mixinAttrs MR_REVIEW_MIXIN_DOC).field "approvalRules" = .arr [unmetRule.toJs] := by
    refine ⟨"x", (((Transition.exec (deliver (Env.quiet quietBinding) "binding") World.initial
      overruling).docs.get? "x").getD ⟨"", "", [], .empty⟩), ?_, ?_, ?_⟩
    · decide +kernel
    · decide +kernel
    · decide +kernel
  obtain ⟨a, hc, hbacked⟩ := hall overruling overruling List.prefix_rfl ref doc hdoc
  have happroved : a.approvalStatus = some "approved" := by
    have h := hstatus.symm.trans hc.review.approvalStatus
    cases hsome : a.approvalStatus with
    | none =>
      rw [hsome] at h
      cases h
    | some status =>
      rw [hsome] at h
      exact congrArg some (JsValue.str.inj h).symm
  have hstored : ∃ rule ∈ a.rules, rule.toJs = unmetRule.toJs := by
    have h := hrules.symm.trans hc.review.approvalRules
    unfold Approvals.rules
    cases hsome : a.approvalRules with
    | none =>
      rw [hsome] at h
      cases h
    | some rules =>
      rw [hsome] at h
      have hmap : rules.map SyncMRApprovalRule.toJs = [unmetRule.toJs] := (JsValue.arr.inj h).symm
      exact List.mem_map.mp (hmap ▸ List.mem_singleton_self _)
  obtain ⟨rule, hrule, hjs⟩ := hstored
  have hmet := (hbacked happroved).1 rule hrule
  simp only [SyncMRApprovalRule.toJs, unmetRule, JsValue.obj.injEq, List.cons.injEq, Prod.mk.injEq,
    JsValue.num.injEq, JsValue.arr.injEq, true_and, and_true, List.map_nil,
    List.map_eq_nil_iff] at hjs
  obtain ⟨-, -, -, -, hrequired, happrovedBy⟩ := hjs
  rw [Met, hrequired, happrovedBy] at hmet
  exact absurd hmet (by decide)

end ApprovalStatus

end HulyGitlab
