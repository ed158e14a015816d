import HulyGitlab.Sync.MixinMigration

/-!
# Reviewers out of labels

`migrateReviewerLabels` takes the labels `gitlab:reviewer:<username>` off every
mirrored merge request and adds the accounts of these users to its reviewers.
-/

namespace HulyGitlab

namespace ReviewerMigration

def REVIEWER_LABEL_PREFIX : String := "gitlab:reviewer:"

structure ReviewerMigrationResult where
  migratedAt : Nat
  mrsScanned : Nat
  labelsStripped : Nat
  reviewersResolved : Nat
  unresolvedCount : Nat
  deriving DecidableEq

/-- The user a label of this title stands for. -/
def usernameOf (title : String) : Option String :=
  if REVIEWER_LABEL_PREFIX.toList.isPrefixOf title.toList then
    some (String.ofList (title.toList.drop REVIEWER_LABEL_PREFIX.length))
  else none

/-- The labels that stand for a reviewer, with the user; each label must have a title. -/
def reviewerTagDocs : List (Ref × HulyDoc) → Except Err (List (Ref × String))
  | [] => .ok []
  | (ref, tagDoc) :: tagDocs => do
      let title ← (tagDoc.attrs.field "title").asStr
      let rest ← reviewerTagDocs tagDocs
      match usernameOf title with
      | some username => .ok ((ref, username) :: rest)
      | none => .ok rest

variable (env : Env)

/-- `findAll` by the ids of the labels. -/
def findTags (currentLabels : List JsValue) : Async (List (Ref × HulyDoc)) := do
  let found ← Async.findAll env tagElementClass
  pure (found.filter fun entry => JsValue.str entry.1 ∈ currentLabels)

/-- The accounts of the users that have one. -/
def resolveReviewers : List (Ref × String) → Async (List Ref)
  | [] => pure []
  | (_, username) :: tagDocs => do
      let personUuid ← UserIdentity.Awaits.mapByGitlabUser env ⟨username, .undefined⟩
      let rest ← resolveReviewers tagDocs
      pure (personUuid.toList ++ rest)

def readExistingReviewers (issueRef : Ref) : Async (List JsValue) := do
  let issue ← Async.findOne env issueClass issueRef
  let reviewers := match issue with
    | some issue => Fields.field (readMRMixinAttributes issue) "reviewers"
    | none => .undefined
  Coroutine.ofExcept (reviewers.orElse (.arr [])).elements

/-- The labels go, and the reviewers are written after them. -/
def migrateLabels (issueRef : Ref) (currentLabels : List JsValue)
    (reviewerTags : List (Ref × String)) (result : ReviewerMigrationResult) :
    Async ReviewerMigrationResult := do
  let remainingLabels := currentLabels.filter fun label =>
    label ∉ reviewerTags.map fun tag => JsValue.str tag.1
  let resolvedPersonUuids ← resolveReviewers env reviewerTags
  let existingMixinReviewers ← readExistingReviewers env issueRef
  let mergedReviewers := (existingMixinReviewers ++ resolvedPersonUuids.map JsValue.str).eraseDups
  Async.updateDoc env issueClass issueRef
    (withOriginatedMarker [("labels", .arr remainingLabels)])
  Async.putMixin env issueClass issueRef MR_MIXIN
    (withOriginatedMarker [("reviewers", .arr mergedReviewers)])
  pure { result with
    labelsStripped := result.labelsStripped + reviewerTags.length
    reviewersResolved := result.reviewersResolved + resolvedPersonUuids.length
    unresolvedCount :=
      result.unresolvedCount + (reviewerTags.length - resolvedPersonUuids.length) }

def migrateIssue (issueRef : Ref) (hulyIssue : HulyDoc) (result : ReviewerMigrationResult) :
    Async ReviewerMigrationResult := do
  let currentLabels ← Coroutine.ofExcept
    ((hulyIssue.attrs.field "labels").orElse (.arr [])).items
  if currentLabels = [] then pure result
  else do
    let tagDocs ← findTags env currentLabels
    let reviewerTags ← Coroutine.ofExcept (reviewerTagDocs tagDocs)
    if reviewerTags = [] then pure result
    else migrateLabels env issueRef currentLabels reviewerTags result

def migrateEntry (entry : IdMapDoc) (result : ReviewerMigrationResult) :
    Async ReviewerMigrationResult :=
  let result := { result with mrsScanned := result.mrsScanned + 1 }
  if entry.hulyClass ≠ issueClass then pure result
  else do
    let hulyIssue ← Async.findOne env issueClass entry.hulyRef
    match hulyIssue with
    | none => pure result
    | some issue => migrateIssue env entry.hulyRef issue result

def migrateEntries (result : ReviewerMigrationResult) :
    List IdMapDoc → Async ReviewerMigrationResult
  | [] => pure result
  | entry :: entries => do
      let result ← migrateEntry env entry result
      migrateEntries result entries

def migrateReviewerLabels (binding : BindingDoc) : Async ReviewerMigrationResult := do
  let mrEntries ← Coroutine.call .findRows (MixinMigration.findMirrors env binding)
  let result ← migrateEntries env ⟨0, 0, 0, 0, 0⟩ mrEntries
  let now ← Async.now
  pure { result with migratedAt := now }

end ReviewerMigration

end HulyGitlab
