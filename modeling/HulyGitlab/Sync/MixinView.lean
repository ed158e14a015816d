import HulyGitlab.Sync.MixinMigration

/-!
# The unified view of the merge request mixins

`readMRMixinAttributes` with the hierarchy it may be given. The split mixins
are looked at as wholes: when one of them is there, the legacy mixin is not
read.
-/

namespace HulyGitlab

/-- `hierarchy.as`; nothing when it throws for a mixin that is not present. -/
structure MRMixinHierarchy where
  as : HulyDoc → String → Option Fields

/-- `{ ...(core ?? {}), ...(review ?? {}) }`. -/
def mergedMixins (core review : Option Fields) : Fields := (core.getD []).assign (review.getD [])

namespace MRMixin

open MixinMigration

/-- The reader with an optional document and an optional hierarchy; string keys are the fallback. -/
def readMRMixinAttributes (issue : Option HulyDoc) (hierarchy : Option MRMixinHierarchy) :
    Fields :=
  match issue, hierarchy with
  | none, _ => []
  | some issue, none => HulyGitlab.readMRMixinAttributes issue
  | some issue, some hierarchy =>
      let core := hierarchy.as issue MR_CORE_MIXIN
      let review := hierarchy.as issue MR_REVIEW_MIXIN_DOC
      if core ≠ none ∨ review ≠ none then mergedMixins core review
      else match hierarchy.as issue MR_MIXIN with
        | some legacy => legacy
        | none => HulyGitlab.readMRMixinAttributes issue

/-- The mixins a document has. The split mixins hold attributes of their own interfaces, each
once, and no pipeline status. -/
structure Present where
  legacy : Option Fields
  core : Option Fields
  review : Option Fields
  core_own : ∀ k ∈ (core.getD []).map Prod.fst, k ∉ REVIEW_FIELD_KEYS ∧ k ≠ "pipelineStatus"
  review_own : ∀ k ∈ (review.getD []).map Prod.fst, k ∉ CORE_FIELD_KEYS ∧ k ≠ "pipelineStatus"
  review_nodup : ((review.getD []).map Prod.fst).Nodup

namespace Present

variable (m : Present)

def attributesOf (mixin : String) : Option Fields :=
  if mixin = MR_CORE_MIXIN then m.core
  else if mixin = MR_REVIEW_MIXIN_DOC then m.review
  else if mixin = MR_MIXIN then m.legacy
  else none

@[simp] theorem attributesOf_core : m.attributesOf MR_CORE_MIXIN = m.core := by
  rw [attributesOf, if_pos rfl]

@[simp] theorem attributesOf_review : m.attributesOf MR_REVIEW_MIXIN_DOC = m.review := by
  rw [attributesOf, if_neg (by decide), if_pos rfl]

@[simp] theorem attributesOf_legacy : m.attributesOf MR_MIXIN = m.legacy := by
  rw [attributesOf, if_neg (by decide), if_neg (by decide), if_pos rfl]

/-- The document shows these mixins to a reader: under its string keys without a hierarchy, and
through the hierarchy with one, where the string keys may be missing. -/
def Shown (issue : HulyDoc) : Option MRMixinHierarchy → Prop
  | none => ∀ mixin ∈ [MR_CORE_MIXIN, MR_REVIEW_MIXIN_DOC, MR_MIXIN],
      issue.mixins.get? mixin = m.attributesOf mixin
  | some hierarchy => ∀ mixin ∈ [MR_CORE_MIXIN, MR_REVIEW_MIXIN_DOC, MR_MIXIN],
      hierarchy.as issue mixin = m.attributesOf mixin ∧
        (issue.mixins.get? mixin = m.attributesOf mixin ∨ issue.mixins.get? mixin = none)

/-- The fields of the legacy view. -/
def fields : List String := CORE_FIELD_KEYS ++ REVIEW_FIELD_KEYS ++ ["pipelineStatus"]

/-- The value of the field in the split mixin that owns it; the pipeline status has no owner. -/
def owned (k : String) : JsValue :=
  if k ∈ CORE_FIELD_KEYS then Fields.field (m.core.getD []) k
  else if k ∈ REVIEW_FIELD_KEYS then Fields.field (m.review.getD []) k
  else .undefined

/-- The owner's value where it is defined, and else the legacy one. -/
def unified (k : String) : JsValue :=
  if m.owned k ≠ .undefined then m.owned k else Fields.field (m.legacy.getD []) k

/-- What the reader returns of the mixins. -/
def view : Fields :=
  if m.core ≠ none ∨ m.review ≠ none then mergedMixins m.core m.review else m.legacy.getD []

theorem fromKeys_eq (issue : HulyDoc)
    (h : ∀ mixin ∈ [MR_CORE_MIXIN, MR_REVIEW_MIXIN_DOC, MR_MIXIN],
      issue.mixins.get? mixin = m.attributesOf mixin) :
    HulyGitlab.readMRMixinAttributes issue = m.view := by
  have hcore := h MR_CORE_MIXIN (by simp)
  have hreview := h MR_REVIEW_MIXIN_DOC (by simp)
  have hlegacy := h MR_MIXIN (by simp)
  rw [attributesOf_core] at hcore
  rw [attributesOf_review] at hreview
  rw [attributesOf_legacy] at hlegacy
  rw [HulyGitlab.readMRMixinAttributes, hcore, hreview, hlegacy, view]
  cases m.core with
  | some core => rw [if_pos (by simp), mergedMixins]
  | none =>
      cases m.review with
      | some review => rw [if_pos (by simp), mergedMixins]
      | none => rw [if_neg (by simp)]

theorem read_eq_view {issue : HulyDoc} {hierarchy : Option MRMixinHierarchy}
    (h : m.Shown issue hierarchy) : readMRMixinAttributes (some issue) hierarchy = m.view := by
  cases hierarchy with
  | none => exact m.fromKeys_eq issue h
  | some hierarchy =>
      have hcore := (h MR_CORE_MIXIN (by simp)).1
      have hreview := (h MR_REVIEW_MIXIN_DOC (by simp)).1
      have hlegacy := (h MR_MIXIN (by simp)).1
      rw [attributesOf_core] at hcore
      rw [attributesOf_review] at hreview
      rw [attributesOf_legacy] at hlegacy
      simp only [readMRMixinAttributes, hcore, hreview, hlegacy]
      by_cases hsplit : m.core ≠ none ∨ m.review ≠ none
      · rw [if_pos hsplit, view, if_pos hsplit]
      · rw [if_neg hsplit]
        cases hfound : m.legacy with
        | some legacy => rw [view, if_neg hsplit, hfound]; rfl
        | none =>
            -- no mixin is present, so the string keys show none either
            apply m.fromKeys_eq issue
            obtain ⟨hnocore, hnoreview⟩ := not_or.mp hsplit
            have hnone : ∀ mixin, m.attributesOf mixin = none := by
              intro mixin
              rw [attributesOf, hfound, not_not.mp hnocore, not_not.mp hnoreview]
              simp
            intro mixin hmixin
            rw [hnone mixin]
            exact (h mixin hmixin).2.elim (fun hkey => by rw [hkey, hnone]) id

/-- The merged split mixins hold of each field what its owner holds. -/
theorem field_merged {k : String} (hk : k ∈ fields) :
    (mergedMixins m.core m.review).field k = m.owned k := by
  have hapart : ∀ k ∈ REVIEW_FIELD_KEYS, k ∉ CORE_FIELD_KEYS := by decide
  rw [mergedMixins, owned]
  by_cases hcore : k ∈ CORE_FIELD_KEYS
  · rw [if_pos hcore, Fields.field_assign_of_not_mem]
    exact fun hmem => (m.review_own k hmem).1 hcore
  · rw [if_neg hcore]
    -- only the review mixin can have such a key
    have habsent : Fields.field (m.core.getD []) k = .undefined := by
      apply Fields.field_of_not_mem
      intro hmem
      obtain ⟨hreview, hpipeline⟩ := m.core_own k hmem
      simp only [fields, List.mem_append, List.mem_singleton] at hk
      tauto
    by_cases hreview : k ∈ REVIEW_FIELD_KEYS
    · rw [if_pos hreview]
      by_cases hmem : k ∈ (m.review.getD []).map Prod.fst
      · rw [Fields.field_assign_of_mem _ _ hmem m.review_nodup]
      · rw [Fields.field_assign_of_not_mem _ _ hmem, habsent, Fields.field_of_not_mem hmem]
    · rw [if_neg hreview, Fields.field_assign_of_not_mem, habsent]
      intro hmem
      have hpipeline := (m.review_own k hmem).2
      simp only [fields, List.mem_append, List.mem_singleton] at hk
      tauto

/-- The reader merges field by field exactly when no split mixin is there, or every field the
legacy mixin defines is also defined by its owner. -/
theorem read_unified_iff {issue : HulyDoc} {hierarchy : Option MRMixinHierarchy}
    (h : m.Shown issue hierarchy) :
    (∀ k ∈ fields, (readMRMixinAttributes (some issue) hierarchy).field k = m.unified k) ↔
      (m.core = none ∧ m.review = none) ∨
        ∀ k ∈ fields, Fields.field (m.legacy.getD []) k ≠ .undefined → m.owned k ≠ .undefined := by
  rw [m.read_eq_view h, view]
  by_cases hsplit : m.core ≠ none ∨ m.review ≠ none
  · rw [if_pos hsplit]
    have hsome : ¬(m.core = none ∧ m.review = none) := by tauto
    rw [or_iff_right hsome]
    apply forall₂_congr
    intro k hk
    rw [m.field_merged hk, unified]
    by_cases howned : m.owned k = .undefined
    · rw [if_neg (not_not_intro howned), howned]
      exact ⟨fun heq hlegacy => absurd heq.symm hlegacy, fun himp => by
        by_contra hne
        exact himp (Ne.symm hne) rfl⟩
    · rw [if_pos howned]
      exact ⟨fun _ _ => howned, fun _ => rfl⟩
  · rw [if_neg hsplit]
    obtain ⟨hcore, hreview⟩ := not_or.mp hsplit
    refine iff_of_true ?_ (Or.inl ⟨not_not.mp hcore, not_not.mp hreview⟩)
    intro k _
    have howned : m.owned k = .undefined := by
      rw [owned, not_not.mp hcore, not_not.mp hreview]
      split
      · rfl
      · split <;> rfl
    rw [unified, if_neg (not_not_intro howned)]

/-- A mirror whose review mixin repeats the legacy reviewers. -/
def splitMirror : Present where
  legacy := some [("reviewers", .arr [.str "before"])]
  core := some [("sourceBranch", .str "branch")]
  review := some [("reviewers", .arr [.str "person"])]
  core_own := by decide
  review_own := by decide
  review_nodup := by decide

/-- The platform's hierarchy, over a document without string keys. -/
def splitHierarchy : MRMixinHierarchy where
  as _ mixin := splitMirror.attributesOf mixin

theorem shown_splitMirror :
    splitMirror.Shown ⟨issueClass, "project", [], .empty⟩ (some splitHierarchy) :=
  fun _ _ => ⟨rfl, Or.inr rfl⟩

theorem read_unified_splitMirror :
    (readMRMixinAttributes (some ⟨issueClass, "project", [], .empty⟩)
      (some splitHierarchy)).field "reviewers" = splitMirror.unified "reviewers" :=
  (splitMirror.read_unified_iff shown_splitMirror).mpr (Or.inr (by decide)) "reviewers"
    (by decide)

/-- A mirror with only the core mixin written since the upgrade. -/
def upgradedMirror : Present where
  legacy := some [("reviewers", .arr [.str "person"])]
  core := some [("sourceBranch", .str "branch")]
  review := none
  core_own := by decide
  review_own := by decide
  review_nodup := by decide

def upgradedDoc : HulyDoc where
  objectClass := issueClass
  space := "project"
  attrs := []
  mixins := (OrderedMap.empty.set MR_MIXIN [("reviewers", .arr [.str "person"])]).set
    MR_CORE_MIXIN [("sourceBranch", .str "branch")]

/-- Its legacy reviewers are not shown. -/
theorem upgradedMirror_hides_reviewers :
    upgradedMirror.Shown upgradedDoc none ∧
      (readMRMixinAttributes (some upgradedDoc) none).field "reviewers" ≠
        upgradedMirror.unified "reviewers" := by
  constructor
  · show ∀ mixin ∈ [MR_CORE_MIXIN, MR_REVIEW_MIXIN_DOC, MR_MIXIN],
      upgradedDoc.mixins.get? mixin = upgradedMirror.attributesOf mixin
    decide
  · decide

end Present

end MRMixin

end HulyGitlab
