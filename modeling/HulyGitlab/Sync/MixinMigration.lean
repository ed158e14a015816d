import HulyGitlab.Sync.Awaits
import HulyGitlab.Sync.BindingLoader
import HulyGitlab.Sync.MergeRequests

/-!
# The split of the legacy mixin

`migrateMixinSplit` moves the attributes of the legacy mixin of every mirrored
merge request into the two split mixins, and clears the legacy one. It is cut
at its awaits, since a run may stop between any two of its writes.
-/

namespace HulyGitlab

/-- The attributes of a mixin; none when the document does not carry it. -/
def HulyDoc.mixinAttrs (doc : HulyDoc) (mixin : String) : Fields :=
  (doc.mixins.get? mixin).getD []

/-- Attributes are merged into a mixin; one that is set to `undefined` is removed. -/
def HulyDoc.mergeMixin (doc : HulyDoc) (mixin : String) (attributes : Fields) : HulyDoc :=
  { doc with
    mixins := doc.mixins.set mixin <| ((doc.mixinAttrs mixin).assign attributes).filter fun kv =>
      ¬ (kv.1 ∈ attributes.map Prod.fst ∧ attributes.field kv.1 = .undefined) }

/-- `createMixin` and `updateMixin`, for attributes that may be `undefined`. -/
def Sync.mergeMixin (env : Env) (ref : Ref) (mixin : String) (attributes : Fields) :
    Sync Unit := do
  Sync.reach env .platform
  Effect.modify fun w =>
    match w.docs.get? ref with
    | some doc => { w with docs := w.docs.set ref (doc.mergeMixin mixin attributes) }
    | none => w

theorem Sync.mergeMixin_cases (env : Env) {ref : Ref} {doc : HulyDoc} (mixin : String)
    (attributes : Fields) {w : World} (hdoc : w.docs.get? ref = some doc) :
    (∃ e, (Sync.mergeMixin env ref mixin attributes).run w = (.error e, w)) ∨
      (Sync.mergeMixin env ref mixin attributes).run w =
        (.ok (), { w with docs := w.docs.set ref (doc.mergeMixin mixin attributes) }) := by
  refine (Sync.reach_bind_cases env _ _ w).imp id fun hrun => hrun.trans ?_
  rw [Effect.modify_run, hdoc]

theorem Sync.mergeMixin_run {env : Env} (h : env.Healthy) {ref : Ref} {doc : HulyDoc}
    (mixin : String) (attributes : Fields) {w : World} (hdoc : w.docs.get? ref = some doc) :
    (Sync.mergeMixin env ref mixin attributes).run w =
      (.ok (), { w with docs := w.docs.set ref (doc.mergeMixin mixin attributes) }) := by
  simp [Sync.mergeMixin, Effect.bind_run, Sync.reach_run h, hdoc]

namespace MixinMigration

def CORE_FIELD_KEYS : List String :=
  ["sourceBranch", "targetBranch", "draft", "mergedAt", "mergeStatus", "webUrl", "gitlabIid",
    "gitlabProjectId"]

def REVIEW_FIELD_KEYS : List String :=
  ["reviewers", "approvedBy", "approvalsRequired", "approvalStatus", "diffWebUrl", "changedFiles",
    "approvalRules", "iteration", "parentEpicIid"]

structure MixinSplitMigrationResult where
  migratedAt : Nat
  mrsScanned : Nat
  legacyStripped : Nat
  coreWritten : Nat
  reviewWritten : Nat
  unresolvedCount : Nat
  stripFailed : Option Nat
  drainTimedOut : Option Bool
  success : Option Bool
  reason : Option String
  deriving DecidableEq

/-- A look at the binding: the time, and whether its `backfillInFlight` is set. -/
structure Poll where
  now : Nat
  inFlight : Bool
  deriving DecidableEq

/-- What a run of the migration finds out about its binding before it writes. -/
structure Drain where
  timeoutMs : Int
  start : Nat
  polls : List Poll
  /-- The flag when the time is over. -/
  last : Bool
  bindingAfterDrain : Option BindingDoc
  deriving DecidableEq

/-- The polls until the flag is clear or the deadline has passed. -/
def pollUntil (deadline : Int) (last : Bool) : List Poll → Bool
  | [] => !last
  | poll :: polls =>
      if (poll.now : Int) < deadline then
        if poll.inFlight then pollUntil deadline last polls else true
      else !last

def waitForBackfillDrain (drain : Drain) : Bool :=
  if drain.timeoutMs ≤ 0 then true
  else pollUntil (drain.start + drain.timeoutMs) drain.last drain.polls

/-- The backfill is drained and the binding is still paused. -/
def Drain.Ready (drain : Drain) : Prop :=
  waitForBackfillDrain drain = true ∧
    drain.bindingAfterDrain.map BindingDoc.disabled = some true

instance (drain : Drain) : Decidable drain.Ready := inferInstanceAs (Decidable (_ ∧ _))

def pickFields (src : Fields) (keys : List String) : Fields :=
  (keys.filter fun k => src.field k ≠ .undefined).map fun k => (k, src.field k)

/-- `idmapCol.find`, by the project part of the id. -/
def isMirrorOf (binding : BindingDoc) (entry : IdMapDoc) : Bool :=
  entry.workspaceUuid = binding.workspaceUuid ∧ entry.gitlabKind = .merge_request ∧
    (toString binding.gitlabProjectId ++ ":").toList.isPrefixOf entry.gitlabId.toList

variable (env : Env)

def findMirrors (binding : BindingDoc) : Sync (List IdMapDoc) := do
  Sync.reach env .idmap
  Effect.gets fun w => w.idmap.rows.filter (isMirrorOf binding)

/-- Await a call that writes a mixin. -/
def writeMixin (ref : Ref) (mixin : String) (attributes : Fields) : Async Unit :=
  Coroutine.call (.putMixin issueClass ref mixin attributes) (Sync.mergeMixin env ref mixin attributes)

/-- The legacy keys that are still there are counted as a failure. -/
def verifyStrip (verifyDoc : Option HulyDoc) (legacyKeys : List String)
    (result : MixinSplitMigrationResult) : MixinSplitMigrationResult :=
  let failedKeys := match verifyDoc.bind fun doc => doc.mixins.get? MR_MIXIN with
    | none => []
    | some verifyMixin => legacyKeys.filter fun k => verifyMixin.field k ≠ .undefined
  if failedKeys ≠ [] then { result with stripFailed := some (result.stripFailed.getD 0 + 1) }
  else { result with legacyStripped := result.legacyStripped + 1 }

/-- The legacy mixin is cleared, and the document is read again. -/
def stripLegacy (issueRef : Ref) (legacyAttrs : Fields) (result : MixinSplitMigrationResult) :
    Async MixinSplitMigrationResult := do
  let legacyKeys := legacyAttrs.map Prod.fst
  writeMixin env issueRef MR_MIXIN (legacyKeys.map fun k => (k, .undefined))
  let verifyDoc ← Async.findOne env issueClass issueRef
  pure (verifyStrip verifyDoc legacyKeys result)

/-- The review fields go to the review mixin when it is empty. -/
def splitReview (issueRef : Ref) (reviewAttrs legacyAttrs : Fields)
    (result : MixinSplitMigrationResult) : Async MixinSplitMigrationResult := do
  let reviewPayload := pickFields legacyAttrs REVIEW_FIELD_KEYS
  if reviewAttrs ≠ [] ∨ reviewPayload = [] then stripLegacy env issueRef legacyAttrs result
  else do
    writeMixin env issueRef MR_REVIEW_MIXIN_DOC (withOriginatedMarker reviewPayload)
    stripLegacy env issueRef legacyAttrs { result with reviewWritten := result.reviewWritten + 1 }

/-- The core fields go to the core mixin when it is empty; without all of them nothing is done. -/
def migrateIssue (issueRef : Ref) (issue : HulyDoc) (result : MixinSplitMigrationResult) :
    Async MixinSplitMigrationResult := do
  let legacyAttrs := issue.mixinAttrs MR_MIXIN
  let reviewAttrs := issue.mixinAttrs MR_REVIEW_MIXIN_DOC
  if legacyAttrs = [] then pure result
  else if issue.mixinAttrs MR_CORE_MIXIN ≠ [] then
    splitReview env issueRef reviewAttrs legacyAttrs result
  else do
    let corePayload := pickFields legacyAttrs CORE_FIELD_KEYS
    let missingCore := CORE_FIELD_KEYS.filter fun k => corePayload.field k = .undefined
    if missingCore ≠ [] then pure { result with unresolvedCount := result.unresolvedCount + 1 }
    else do
      writeMixin env issueRef MR_CORE_MIXIN (withOriginatedMarker corePayload)
      splitReview env issueRef reviewAttrs legacyAttrs
        { result with coreWritten := result.coreWritten + 1 }

def migrateEntry (entry : IdMapDoc) (result : MixinSplitMigrationResult) :
    Async MixinSplitMigrationResult :=
  let result := { result with mrsScanned := result.mrsScanned + 1 }
  if entry.hulyClass ≠ issueClass then pure result
  else do
    let issueDoc ← Async.findOne env issueClass entry.hulyRef
    match issueDoc with
    | none => pure result
    | some issue => migrateIssue env entry.hulyRef issue result

def migrateEntries (result : MixinSplitMigrationResult) :
    List IdMapDoc → Async MixinSplitMigrationResult
  | [] => pure result
  | entry :: entries => do
      let result ← migrateEntry env entry result
      migrateEntries result entries

def migrateMixinSplit (drain : Drain) (binding : BindingDoc) :
    Async MixinSplitMigrationResult := do
  let now ← Async.now
  let result : MixinSplitMigrationResult := ⟨now, 0, 0, 0, 0, 0, none, none, none, none⟩
  if waitForBackfillDrain drain = false then pure { result with drainTimedOut := some true }
  else if drain.bindingAfterDrain.map BindingDoc.disabled ≠ some true then
    pure { result with success := some false, reason := some "binding_unpaused_during_drain" }
  else do
    let mrEntries ← Coroutine.call .findRows (findMirrors env binding)
    migrateEntries env result mrEntries

end MixinMigration

end HulyGitlab
