import HulyGitlab.Sync.Epics
import HulyGitlab.Sync.NotesAwaits
import HulyGitlab.Sync.Reviews

/-!
# The other managers, await by await

The caches, and the managers of issues, merge requests, threads, epics and
pipelines, cut where they await; without anything in between each is the
function of the same name.
-/

namespace HulyGitlab

namespace UserIdentity.Awaits

variable (env : Env)

def resolveAssignee (workspaceUuid : String) (assignees : JsValue) : Async JsValue := do
  let users ← Coroutine.ofExcept assignees.elements
  match users with
  | [] => pure .null
  | first :: _ => do
      let ref ← resolveUser env workspaceUuid first
      pure (.str ref)

theorem toEffect_resolveAssignee (workspaceUuid : String) (assignees : JsValue) :
    (resolveAssignee env workspaceUuid assignees).toEffect =
      UserIdentity.resolveAssignee env workspaceUuid assignees := by
  simp only [resolveAssignee, UserIdentity.resolveAssignee, Coroutine.toEffect_bind,
    Coroutine.toEffect_ofExcept]
  refine bind_congr fun users => ?_
  cases users with
  | nil => rfl
  | cons first rest =>
    simp only [Coroutine.toEffect_bind, toEffect_resolveUser, Coroutine.toEffect_pure]

end UserIdentity.Awaits

namespace LabelCache.Awaits

variable (env : Env)

def primeLocal (c : LabelCache) : Async LabelCache :=
  if c.localLoaded then pure c
  else do
    let found ← Async.findAll env tagElementClass
    let entries ← Coroutine.ofExcept (localEntries env ofIssues "title" found)
    pure { c with localByName := c.localByName.primeSync entries, localLoaded := true }

def ensureLocalTag (space : Ref) (c : LabelCache) (name : JsValue) : Async (Ref × LabelCache) := do
  let c ← primeLocal env c
  let text ← Coroutine.ofExcept name.asStr
  let key := env.toLowerCase text
  match c.localByName.get key with
  | some existing => pure (existing, c)
  | none => do
      let ref ← Async.createDoc env tagElementClass space (tagAttributes text)
      pure (ref, { c with localByName := c.localByName.put key ref })

def resolveLocal (space : Ref) (c : LabelCache) : List JsValue → Async (List Ref × LabelCache)
  | [] => pure ([], c)
  | name :: names => do
      let first ← ensureLocalTag env space c name
      let rest ← resolveLocal space first.2 names
      pure (first.1 :: rest.1, rest.2)

theorem toEffect_primeLocal (c : LabelCache) :
    (primeLocal env c).toEffect = LabelCache.primeLocal env c := by
  simp only [primeLocal, LabelCache.primeLocal, Coroutine.toEffect_ite, Coroutine.toEffect_bind,
    Coroutine.toEffect_pure, Coroutine.toEffect_ofExcept, Async.toEffect_findAll]

theorem toEffect_ensureLocalTag (space : Ref) (c : LabelCache) (name : JsValue) :
    (ensureLocalTag env space c name).toEffect = LabelCache.ensureLocalTag env space c name := by
  simp only [ensureLocalTag, LabelCache.ensureLocalTag, Coroutine.toEffect_bind,
    Coroutine.toEffect_ofExcept, toEffect_primeLocal]
  refine bind_congr fun c => bind_congr fun text => ?_
  cases c.localByName.get (env.toLowerCase text) with
  | some existing => rfl
  | none =>
    simp only [Coroutine.toEffect_bind, Async.toEffect_createDoc, Coroutine.toEffect_pure]

theorem toEffect_resolveLocal (space : Ref) (c : LabelCache) (names : List JsValue) :
    (resolveLocal env space c names).toEffect = LabelCache.resolveLocal env space c names := by
  induction names generalizing c with
  | nil => rfl
  | cons name names ih =>
    simp only [resolveLocal, LabelCache.resolveLocal, Coroutine.toEffect_bind,
      toEffect_ensureLocalTag, ih, Coroutine.toEffect_pure]

end LabelCache.Awaits

namespace MilestoneCache.Awaits

variable (env : Env)

def primeLocal (space : Ref) (c : MilestoneCache) : Async MilestoneCache :=
  if c.localLoaded then pure c
  else do
    let found ← Async.findAll env milestoneClass
    let entries ← Coroutine.ofExcept (localEntries env (ofProject space) "label" found)
    pure { c with localByLabel := c.localByLabel.primeSync entries, localLoaded := true }

def ensureLocalMilestone (space : Ref) (c : MilestoneCache) (label description : JsValue) :
    Async (Ref × MilestoneCache) := do
  let c ← primeLocal env space c
  let text ← Coroutine.ofExcept label.asStr
  let key := env.toLowerCase text
  match c.localByLabel.get key with
  | some existing => pure (existing, c)
  | none => do
      let ref ← Async.createDoc env milestoneClass space (milestoneAttributes text description)
      pure (ref, { c with localByLabel := c.localByLabel.put key ref })

theorem toEffect_primeLocal (space : Ref) (c : MilestoneCache) :
    (primeLocal env space c).toEffect = MilestoneCache.primeLocal env space c := by
  simp only [primeLocal, MilestoneCache.primeLocal, Coroutine.toEffect_ite,
    Coroutine.toEffect_bind, Coroutine.toEffect_pure, Coroutine.toEffect_ofExcept,
    Async.toEffect_findAll]

theorem toEffect_ensureLocalMilestone (space : Ref) (c : MilestoneCache)
    (label description : JsValue) :
    (ensureLocalMilestone env space c label description).toEffect =
      MilestoneCache.ensureLocalMilestone env space c label description := by
  simp only [ensureLocalMilestone, MilestoneCache.ensureLocalMilestone, Coroutine.toEffect_bind,
    Coroutine.toEffect_ofExcept, toEffect_primeLocal]
  refine bind_congr fun c => bind_congr fun text => ?_
  cases c.localByLabel.get (env.toLowerCase text) with
  | some existing => rfl
  | none =>
    simp only [Coroutine.toEffect_bind, Async.toEffect_createDoc, Coroutine.toEffect_pure]

end MilestoneCache.Awaits

namespace Awaits

variable (env : Env)

def advanceCursor (binding : BindingRef) (kind : CursorKind) (localTs : Option JsDate)
    (remoteTs : JsDate) : Async Unit :=
  if localTs = none ∨ remoteTs.after (localTs.getD none) then
    Async.setCursor env binding kind remoteTs
  else pure ()

def writeUpdate (hulyRef : Ref) (update : Fields) (remoteTs : JsDate) : Async Unit :=
  if update = [] then pure ()
  else
    Async.updateDoc env issueClass hulyRef
      (withOriginatedMarker (update.set "modifiedOn" (timeValue remoteTs)))

/-- The statuses a process remembers, read as if there were an await before. -/
def mapRemoteState (projectKey : String) (remoteState : JsValue) (statuses : List Status) :
    Async (Option Ref) :=
  Coroutine.call .mapRemoteState (StatusMap.mapRemoteState env projectKey remoteState statuses)

theorem toEffect_advanceCursor (binding : BindingRef) (kind : CursorKind)
    (localTs : Option JsDate) (remoteTs : JsDate) :
    (advanceCursor env binding kind localTs remoteTs).toEffect =
      HulyGitlab.advanceCursor env binding kind localTs remoteTs := by
  simp only [advanceCursor, HulyGitlab.advanceCursor, Coroutine.toEffect_ite,
    Async.toEffect_setCursor, Coroutine.toEffect_pure]

theorem toEffect_writeUpdate (hulyRef : Ref) (update : Fields) (remoteTs : JsDate) :
    (writeUpdate env hulyRef update remoteTs).toEffect =
      HulyGitlab.writeUpdate env hulyRef update remoteTs := by
  simp only [writeUpdate, HulyGitlab.writeUpdate, Coroutine.toEffect_ite,
    Async.toEffect_updateDoc, Coroutine.toEffect_pure]

@[simp] theorem toEffect_mapRemoteState (projectKey : String) (remoteState : JsValue)
    (statuses : List Status) : (mapRemoteState env projectKey remoteState statuses).toEffect =
      StatusMap.mapRemoteState env projectKey remoteState statuses := rfl

end Awaits

namespace Issues.Awaits

variable (env : Env)

def createFromRemote (binding : BindingRef) (bctx : BindingContext) (gitlabId : String)
    (r : RemoteIssue) (remoteTs : JsDate) : Async Unit := do
  let issueRef ← Async.createDoc env issueClass bctx.hulyProjectRef
    (createAttributes bctx r remoteTs)
  Async.upsertIdMap env ⟨bctx.workspaceUuid, .issue, gitlabId, issueClass, issueRef⟩
  Async.setCursor env binding .issues remoteTs

def updateFromRemote (binding : BindingRef) (hulyRef : Ref) (r : RemoteIssue)
    (remoteTs : JsDate) : Async Unit := do
  let hulyIssue ← Async.findOne env issueClass hulyRef
  match hulyIssue with
  | none => pure ()
  | some issue => do
      let localTs := localTsOf (issue.attrs.field "modifiedOn")
      HulyGitlab.Awaits.writeUpdate env hulyRef (updateOperations issue.attrs r remoteTs) remoteTs
      HulyGitlab.Awaits.advanceCursor env binding .issues localTs remoteTs

def resolveMilestone (space : Ref) (milestone : JsValue) : Async JsValue :=
  if milestone = .null then pure .null
  else do
    let title ← Coroutine.ofExcept (milestone.prop "title")
    let description ← Coroutine.ofExcept (milestone.prop "description")
    let ref ← MilestoneCache.Awaits.ensureLocalMilestone env space .new title
      (description.orElse .undefined)
    pure (.str ref.1)

def applyRemote (binding : BindingRef) (syncIssue : Fields) : Async Unit := do
  let bctx ← Async.loadBinding env binding
  let gitlabId := projectKey env bctx (syncIssue.field "iid")
  let existing ← Async.findByGitlab env bctx.workspaceUuid .issue gitlabId
  let rawDescription ← Coroutine.ofExcept ((syncIssue.field "description").orElse (.str "")).asStr
  let descriptionMarkup :=
    env.gfmMarkdownToMarkup rawDescription (issueRefUrl bctx) (imageUrl bctx)
  let assignee ← UserIdentity.Awaits.resolveAssignee env bctx.workspaceUuid
    (syncIssue.field "assignees")
  let names ← Coroutine.ofExcept (syncIssue.field "labels").elements
  let labelRefs ← LabelCache.Awaits.resolveLocal env bctx.hulyProjectRef .new names
  let milestone ← resolveMilestone env bctx.hulyProjectRef (syncIssue.field "milestone")
  let statusRef ← HulyGitlab.Awaits.mapRemoteState env (toString bctx.gitlabProjectId)
    (syncIssue.field "state") bctx.statuses
  match statusRef with
  | none => pure ()
  | some status => do
      let remote : RemoteIssue :=
        { title := syncIssue.field "title", description := .str descriptionMarkup,
          status := .str status, assignee := assignee, milestone := milestone,
          labels := .arr (labelRefs.1.map .str) }
      let remoteTs := (syncIssue.field "updatedAt").getTime
      match existing with
      | none => createFromRemote env binding bctx gitlabId remote remoteTs
      | some row => updateFromRemote env binding row.hulyRef remote remoteTs

theorem toEffect_createFromRemote (binding : BindingRef) (bctx : BindingContext)
    (gitlabId : String) (r : RemoteIssue) (remoteTs : JsDate) :
    (createFromRemote env binding bctx gitlabId r remoteTs).toEffect =
      Issues.createFromRemote env binding bctx gitlabId r remoteTs := by
  simp only [createFromRemote, Issues.createFromRemote, Coroutine.toEffect_bind,
    Async.toEffect_createDoc, Async.toEffect_upsertIdMap, Async.toEffect_setCursor]

theorem toEffect_updateFromRemote (binding : BindingRef) (hulyRef : Ref) (r : RemoteIssue)
    (remoteTs : JsDate) :
    (updateFromRemote env binding hulyRef r remoteTs).toEffect =
      Issues.updateFromRemote env binding hulyRef r remoteTs := by
  simp only [updateFromRemote, Issues.updateFromRemote, Coroutine.toEffect_bind,
    Async.toEffect_findOne]
  refine bind_congr fun hulyIssue => ?_
  cases hulyIssue with
  | none => rfl
  | some issue =>
    simp only [Coroutine.toEffect_bind, HulyGitlab.Awaits.toEffect_writeUpdate,
      HulyGitlab.Awaits.toEffect_advanceCursor]

theorem toEffect_resolveMilestone (space : Ref) (milestone : JsValue) :
    (resolveMilestone env space milestone).toEffect =
      Issues.resolveMilestone env space milestone := by
  simp only [resolveMilestone, Issues.resolveMilestone, Coroutine.toEffect_ite,
    Coroutine.toEffect_bind, Coroutine.toEffect_pure, Coroutine.toEffect_ofExcept,
    MilestoneCache.Awaits.toEffect_ensureLocalMilestone]

theorem toEffect_applyRemote (binding : BindingRef) (syncIssue : Fields) :
    (applyRemote env binding syncIssue).toEffect = Issues.applyRemote env binding syncIssue := by
  simp only [applyRemote, Issues.applyRemote, Coroutine.toEffect_bind, Async.toEffect_loadBinding,
    Async.toEffect_findByGitlab, Coroutine.toEffect_ofExcept,
    UserIdentity.Awaits.toEffect_resolveAssignee, LabelCache.Awaits.toEffect_resolveLocal,
    toEffect_resolveMilestone, HulyGitlab.Awaits.toEffect_mapRemoteState]
  refine bind_congr fun bctx => bind_congr fun existing => bind_congr fun rawDescription =>
    bind_congr fun assignee => bind_congr fun names => bind_congr fun labelRefs =>
    bind_congr fun milestone => bind_congr fun statusRef => ?_
  cases statusRef with
  | none => rfl
  | some status =>
    cases existing with
    | none => exact toEffect_createFromRemote env binding bctx _ _ _
    | some row => exact toEffect_updateFromRemote env binding row.hulyRef _ _

end Issues.Awaits

namespace MergeRequests.Awaits

open MRApprovals

variable (env : Env)

def resolveReviewerUuids (workspaceUuid : String) (users : JsValue) : Async JsValue :=
  if users = .undefined then pure .undefined
  else do
    let users ← Coroutine.ofExcept users.elements
    let refs ← Coroutine.mapEach (UserIdentity.Awaits.resolveUser env workspaceUuid) users
    pure (.arr (refs.map .str))

def resolveMilestone (space : Ref) (milestone : JsValue) : Async JsValue :=
  if milestone = .null then pure .null
  else do
    let title ← Coroutine.ofExcept (milestone.prop "title")
    let ref ← MilestoneCache.Awaits.ensureLocalMilestone env space .new title .undefined
    pure (.str ref.1)

def resolveRecord (bctx : BindingContext) (syncMR : Fields) : Async RemoteMR := do
  let rawDescription ← Coroutine.ofExcept ((syncMR.field "description").orElse (.str "")).asStr
  let descriptionMarkup :=
    env.gfmMarkdownToMarkup rawDescription (mergeRequestRefUrl bctx) (imageUrl bctx)
  let assignee ← UserIdentity.Awaits.resolveAssignee env bctx.workspaceUuid
    (syncMR.field "assignees")
  let reviewerUuids ← resolveReviewerUuids env bctx.workspaceUuid (syncMR.field "reviewers")
  let approvedByUuids ← resolveReviewerUuids env bctx.workspaceUuid (syncMR.field "approvedBy")
  let names ← Coroutine.ofExcept (syncMR.field "labels").elements
  let labelRefs ← LabelCache.Awaits.resolveLocal env bctx.hulyProjectRef .new names
  let milestone ← resolveMilestone env bctx.hulyProjectRef (syncMR.field "milestone")
  pure ⟨.str descriptionMarkup, assignee, reviewerUuids, approvedByUuids,
    .arr (labelRefs.1.map .str), milestone⟩

def putReviewMixin (ref : Ref) (review : Fields) : Async Unit :=
  if review = [] then pure ()
  else Async.putMixin env issueClass ref MR_REVIEW_MIXIN_DOC (withOriginatedMarker review)

def createFromRemote (binding : BindingRef) (bctx : BindingContext) (gitlabId : String)
    (syncMR : Fields) (r : RemoteMR) (remoteTs : JsDate) : Async Unit := do
  let mapping := MRStatusMap.mapRemoteMRState env (syncMR.field "state") (syncMR.field "draft")
    (.str "") bctx.statuses
  if mapping.status.text = "" then pure ()
  else do
    let issueRef ← Async.createDoc env issueClass bctx.hulyProjectRef
      (createAttributes bctx syncMR r mapping remoteTs)
    Async.putMixin env issueClass issueRef MR_CORE_MIXIN
      (withOriginatedMarker (buildCoreFromSyncMR syncMR))
    let review ← Coroutine.ofExcept
      (buildReviewFromSyncMR syncMR r.reviewerUuids r.approvedByUuids)
    putReviewMixin env issueRef review
    Async.upsertIdMap env ⟨bctx.workspaceUuid, .merge_request, gitlabId, issueClass, issueRef⟩
    Async.setCursor env binding .merge_requests remoteTs

def putMixins (hulyRef : Ref) (issue : HulyDoc) (syncMR : Fields) (r : RemoteMR)
    (remoteTs : JsDate) : Async Unit := do
  let now ← Async.now
  let approvedBy ← Coroutine.ofExcept (resolvedApprovedBy issue now remoteTs r.approvedByUuids)
  Async.putMixin env issueClass hulyRef MR_CORE_MIXIN
    (withOriginatedMarker (buildCoreFromSyncMR syncMR))
  let review ← Coroutine.ofExcept (buildReviewFromSyncMR syncMR r.reviewerUuids approvedBy)
  putReviewMixin env hulyRef review

def updateFromRemote (binding : BindingRef) (bctx : BindingContext) (hulyRef : Ref)
    (syncMR : Fields) (r : RemoteMR) (remoteTs : JsDate) : Async Unit := do
  let hulyIssue ← Async.findOne env issueClass hulyRef
  match hulyIssue with
  | none => pure ()
  | some issue => do
      let localTs := localTsOf (issue.attrs.field "modifiedOn")
      HulyGitlab.Awaits.writeUpdate env hulyRef
        (updateOperations env bctx issue.attrs syncMR r remoteTs) remoteTs
      putMixins env hulyRef issue syncMR r remoteTs
      HulyGitlab.Awaits.advanceCursor env binding .merge_requests localTs remoteTs

def applyRemote (binding : BindingRef) (syncMR : Fields) : Async Unit := do
  let bctx ← Async.loadBinding env binding
  let gitlabId := projectKey env bctx (syncMR.field "iid")
  let existing ← Async.findByGitlab env bctx.workspaceUuid .merge_request gitlabId
  let r ← resolveRecord env bctx syncMR
  let remoteTs := (syncMR.field "updatedAt").getTime
  match existing with
  | none => createFromRemote env binding bctx gitlabId syncMR r remoteTs
  | some row => updateFromRemote env binding bctx row.hulyRef syncMR r remoteTs

theorem toEffect_resolveReviewerUuids (workspaceUuid : String) (users : JsValue) :
    (resolveReviewerUuids env workspaceUuid users).toEffect =
      MergeRequests.resolveReviewerUuids env workspaceUuid users := by
  simp only [resolveReviewerUuids, MergeRequests.resolveReviewerUuids, Coroutine.toEffect_ite,
    Coroutine.toEffect_bind, Coroutine.toEffect_pure, Coroutine.toEffect_ofExcept,
    Coroutine.toEffect_mapEach (UserIdentity.Awaits.toEffect_resolveUser env workspaceUuid)]

theorem toEffect_resolveMilestone (space : Ref) (milestone : JsValue) :
    (resolveMilestone env space milestone).toEffect =
      MergeRequests.resolveMilestone env space milestone := by
  simp only [resolveMilestone, MergeRequests.resolveMilestone, Coroutine.toEffect_ite,
    Coroutine.toEffect_bind, Coroutine.toEffect_pure, Coroutine.toEffect_ofExcept,
    MilestoneCache.Awaits.toEffect_ensureLocalMilestone]

theorem toEffect_resolveRecord (bctx : BindingContext) (syncMR : Fields) :
    (resolveRecord env bctx syncMR).toEffect = MergeRequests.resolveRecord env bctx syncMR := by
  simp only [resolveRecord, MergeRequests.resolveRecord, Coroutine.toEffect_bind,
    Coroutine.toEffect_ofExcept, Coroutine.toEffect_pure, toEffect_resolveReviewerUuids,
    UserIdentity.Awaits.toEffect_resolveAssignee, LabelCache.Awaits.toEffect_resolveLocal,
    toEffect_resolveMilestone]

theorem toEffect_putReviewMixin (ref : Ref) (review : Fields) :
    (putReviewMixin env ref review).toEffect = MergeRequests.putReviewMixin env ref review := by
  simp only [putReviewMixin, MergeRequests.putReviewMixin, Coroutine.toEffect_ite,
    Coroutine.toEffect_pure, Async.toEffect_putMixin]

theorem toEffect_createFromRemote (binding : BindingRef) (bctx : BindingContext)
    (gitlabId : String) (syncMR : Fields) (r : RemoteMR) (remoteTs : JsDate) :
    (createFromRemote env binding bctx gitlabId syncMR r remoteTs).toEffect =
      MergeRequests.createFromRemote env binding bctx gitlabId syncMR r remoteTs := by
  simp only [createFromRemote, MergeRequests.createFromRemote, Coroutine.toEffect_ite,
    Coroutine.toEffect_bind, Coroutine.toEffect_pure, Coroutine.toEffect_ofExcept,
    Async.toEffect_createDoc, Async.toEffect_putMixin, toEffect_putReviewMixin,
    Async.toEffect_upsertIdMap, Async.toEffect_setCursor]

theorem toEffect_putMixins (hulyRef : Ref) (issue : HulyDoc) (syncMR : Fields) (r : RemoteMR)
    (remoteTs : JsDate) : (putMixins env hulyRef issue syncMR r remoteTs).toEffect =
      MergeRequests.putMixins env hulyRef issue syncMR r remoteTs := by
  simp only [putMixins, MergeRequests.putMixins, Coroutine.toEffect_bind, Async.toEffect_now,
    Coroutine.toEffect_ofExcept, Async.toEffect_putMixin, toEffect_putReviewMixin]

theorem toEffect_updateFromRemote (binding : BindingRef) (bctx : BindingContext) (hulyRef : Ref)
    (syncMR : Fields) (r : RemoteMR) (remoteTs : JsDate) :
    (updateFromRemote env binding bctx hulyRef syncMR r remoteTs).toEffect =
      MergeRequests.updateFromRemote env binding bctx hulyRef syncMR r remoteTs := by
  simp only [updateFromRemote, MergeRequests.updateFromRemote, Coroutine.toEffect_bind,
    Async.toEffect_findOne]
  refine bind_congr fun hulyIssue => ?_
  cases hulyIssue with
  | none => rfl
  | some issue =>
    simp only [Coroutine.toEffect_bind, HulyGitlab.Awaits.toEffect_writeUpdate, toEffect_putMixins,
      HulyGitlab.Awaits.toEffect_advanceCursor]

theorem toEffect_applyRemote (binding : BindingRef) (syncMR : Fields) :
    (applyRemote env binding syncMR).toEffect = MergeRequests.applyRemote env binding syncMR := by
  simp only [applyRemote, MergeRequests.applyRemote, Coroutine.toEffect_bind,
    Async.toEffect_loadBinding, Async.toEffect_findByGitlab, toEffect_resolveRecord]
  refine bind_congr fun bctx => bind_congr fun existing => bind_congr fun r => ?_
  cases existing with
  | none => exact toEffect_createFromRemote env binding bctx _ syncMR r _
  | some row => exact toEffect_updateFromRemote env binding bctx row.hulyRef syncMR r _

end MergeRequests.Awaits

namespace Reviews.Awaits

variable (env : Env)

def resolvePerson (user : JsValue) : Async JsValue := do
  let identity ← Coroutine.ofExcept (UserIdentity.identityOf user)
  let matched ← UserIdentity.Awaits.mapByGitlabUser env identity
  pure (match matched with
    | some ref => .str ref
    | none => .undefined)

def createMessage (bctx : BindingContext) (key : String) (parentRef : Ref)
    (message author : JsValue) (createdAt updatedAt : JsDate) : Async Ref := do
  let messageRef ← Async.createDoc env chatMessageClass bctx.hulyProjectRef
    (Notes.messageAttributes parentRef message author createdAt updatedAt)
  Async.upsertIdMap env
    ⟨bctx.workspaceUuid, .review_thread, key, HULY_CLASS_CHAT_MESSAGE, messageRef⟩
  pure messageRef

def updateMessage (messageRef : Ref) (message author : JsValue) (updatedAt : JsDate) :
    Async Unit := do
  let hulyMessage ← Async.findOne env chatMessageClass messageRef
  if updatedAt.after (messageTs hulyMessage) ∧ messageBody hulyMessage ≠ message then
    Async.updateDoc env chatMessageClass messageRef (Notes.updateAttributes message author updatedAt)
  else pure ()

def putMessage (bctx : BindingContext) (existing : Option IdMapDoc) (key : String)
    (parentRef : Ref) (message author : JsValue) (createdAt updatedAt : JsDate) : Async Ref :=
  match existing with
  | none => createMessage env bctx key parentRef message author createdAt updatedAt
  | some row => do
      updateMessage env row.hulyRef message author updatedAt
      pure row.hulyRef

def resolvedByOf (resolvedBy : JsValue) : Async JsValue :=
  if resolvedBy = .null then pure .undefined else resolvePerson env resolvedBy

def applyThreadNote (bctx : BindingContext) (parentRef : Ref) (thread : ThreadState)
    (rootNoteId note : JsValue) : Async Unit := do
  let system ← Coroutine.ofExcept (note.prop "system")
  if system.truthy then pure ()
  else do
    let key := noteIdmapKey thread.threadId (note.get "id")
    let existing ← Async.findByGitlab env bctx.workspaceUuid .review_thread key
    let body ← Coroutine.ofExcept (note.get "body").asStr
    let message :=
      JsValue.str (env.gfmMarkdownToMarkup body (mergeRequestRefUrl bctx) (imageUrl bctx))
    let author ← UserIdentity.Awaits.resolveUser env bctx.workspaceUuid (note.get "author")
    let _ ← Coroutine.ofExcept (note.get "createdAt").epochMs
    let _ ← Coroutine.ofExcept (note.get "updatedAt").epochMs
    let createdAt := (note.get "createdAt").getTime
    let updatedAt := (note.get "updatedAt").getTime
    let messageRef ← putMessage env bctx existing key parentRef message (.str author) createdAt
      updatedAt
    Async.putMixin env chatMessageClass messageRef MR_REVIEW_THREAD_MIXIN
      (withOriginatedMarker (mixinAttributes thread note rootNoteId))

def deferThread (binding : BindingRef) (bctx : BindingContext) (syncThread : Fields) :
    Async Unit :=
  match markAndRetry syncThread REVIEW_RETRY_FLAG with
  | none => pure ()
  | some marked => do
      let version ← Coroutine.ofExcept (syncThread.field "updatedAt").toISOString
      Async.enqueueRecord
        ⟨binding, "review", marked,
          Notes.eventIdOf "deferred:review" bctx (syncThread.field "mergeRequestIid")
            (syncThread.field "discussionId"), version.text⟩

def applyMapped (binding : BindingRef) (bctx : BindingContext) (parentRef : Ref)
    (syncThread : Fields) : Async Unit := do
  let resolvedBy ← resolvedByOf env (syncThread.field "resolvedBy")
  let resolvedAt ← Coroutine.ofExcept (resolvedAtOf (syncThread.field "resolvedAt"))
  let notes ← Coroutine.ofExcept (syncThread.field "notes").elements
  let rootNoteId := match notes with
    | [] => .undefined
    | root :: _ => root.get "id"
  let thread : ThreadState :=
    ⟨syncThread.field "discussionId", syncThread.field "resolved", resolvedBy, resolvedAt⟩
  Coroutine.forEach (applyThreadNote env bctx parentRef thread rootNoteId) notes
  Async.setCursor env binding .reviews (syncThread.field "updatedAt").getTime

def applyRemote (binding : BindingRef) (syncThread : Fields) : Async Unit := do
  let bctx ← Async.loadBinding env binding
  let parentMapping ← Notes.Awaits.findParent env bctx .merge_request
    (syncThread.field "mergeRequestIid")
  match parentMapping with
  | none => deferThread binding bctx syncThread
  | some row => applyMapped env binding bctx row.hulyRef syncThread

theorem toEffect_resolvePerson (user : JsValue) :
    (resolvePerson env user).toEffect = Reviews.resolvePerson env user := by
  unfold resolvePerson Reviews.resolvePerson
  rw [Coroutine.toEffect_bind, Coroutine.toEffect_ofExcept]
  refine bind_congr fun identity => ?_
  rw [Coroutine.toEffect_bind, UserIdentity.Awaits.toEffect_mapByGitlabUser]
  refine bind_congr fun matched => ?_
  cases matched with
  | none => exact Coroutine.toEffect_pure _
  | some ref => exact Coroutine.toEffect_pure _

theorem toEffect_putMessage (bctx : BindingContext) (existing : Option IdMapDoc) (key : String)
    (parentRef : Ref) (message author : JsValue) (createdAt updatedAt : JsDate) :
    (putMessage env bctx existing key parentRef message author createdAt updatedAt).toEffect =
      Reviews.putMessage env bctx existing key parentRef message author createdAt updatedAt := by
  cases existing with
  | none =>
    simp only [putMessage, Reviews.putMessage, createMessage, Reviews.createMessage,
      Coroutine.toEffect_bind, Async.toEffect_createDoc, Async.toEffect_upsertIdMap,
      Coroutine.toEffect_pure]
  | some row =>
    simp only [putMessage, Reviews.putMessage, updateMessage, Reviews.updateMessage,
      Coroutine.toEffect_bind, Coroutine.toEffect_ite, Async.toEffect_findOne,
      Async.toEffect_updateDoc, Coroutine.toEffect_pure]

theorem toEffect_applyThreadNote (bctx : BindingContext) (parentRef : Ref) (thread : ThreadState)
    (rootNoteId note : JsValue) :
    (applyThreadNote env bctx parentRef thread rootNoteId note).toEffect =
      Reviews.applyThreadNote env bctx parentRef thread rootNoteId note := by
  simp only [applyThreadNote, Reviews.applyThreadNote, Coroutine.toEffect_bind,
    Coroutine.toEffect_ofExcept, Coroutine.toEffect_ite, Coroutine.toEffect_pure,
    Async.toEffect_findByGitlab, UserIdentity.Awaits.toEffect_resolveUser, toEffect_putMessage,
    Async.toEffect_putMixin]

theorem toEffect_deferThread (binding : BindingRef) (bctx : BindingContext)
    (syncThread : Fields) :
    (deferThread binding bctx syncThread).toEffect =
      Reviews.deferThread binding bctx syncThread := by
  unfold deferThread Reviews.deferThread
  cases markAndRetry syncThread REVIEW_RETRY_FLAG with
  | none => rfl
  | some marked =>
    simp only [Coroutine.toEffect_bind, Coroutine.toEffect_ofExcept, Async.toEffect_enqueueRecord]

theorem toEffect_applyMapped (binding : BindingRef) (bctx : BindingContext) (parentRef : Ref)
    (syncThread : Fields) :
    (applyMapped env binding bctx parentRef syncThread).toEffect =
      Reviews.applyMapped env binding bctx parentRef syncThread := by
  have hresolved : ∀ v, (resolvedByOf env v).toEffect = Reviews.resolvedByOf env v := fun v => by
    simp only [resolvedByOf, Reviews.resolvedByOf, Coroutine.toEffect_ite, Coroutine.toEffect_pure,
      toEffect_resolvePerson]
  have hnotes : ∀ thread rootNoteId notes,
      (Coroutine.forEach (applyThreadNote env bctx parentRef thread rootNoteId) notes).toEffect =
        Effect.forEach (Reviews.applyThreadNote env bctx parentRef thread rootNoteId) notes :=
    fun _ _ _ => Coroutine.toEffect_forEach
      (fun note => toEffect_applyThreadNote env bctx parentRef _ _ note) _
  unfold applyMapped Reviews.applyMapped
  rw [Coroutine.toEffect_bind, hresolved]
  refine bind_congr fun resolvedBy => ?_
  rw [Coroutine.toEffect_bind, Coroutine.toEffect_ofExcept]
  refine bind_congr fun resolvedAt => ?_
  rw [Coroutine.toEffect_bind, Coroutine.toEffect_ofExcept]
  refine bind_congr fun notes => ?_
  dsimp only
  rw [Coroutine.toEffect_bind, hnotes]
  cases notes with
  | nil => exact bind_congr fun _ => Async.toEffect_setCursor _ _ _
  | cons root rest => exact bind_congr fun _ => Async.toEffect_setCursor _ _ _

theorem toEffect_applyRemote (binding : BindingRef) (syncThread : Fields) :
    (applyRemote env binding syncThread).toEffect = Reviews.applyRemote env binding syncThread := by
  simp only [applyRemote, Reviews.applyRemote, Notes.Awaits.findParent, findParent,
    Coroutine.toEffect_bind, Async.toEffect_loadBinding, Async.toEffect_findByGitlab]
  refine bind_congr fun bctx => bind_congr fun parentMapping => ?_
  cases parentMapping with
  | none => exact toEffect_deferThread binding bctx syncThread
  | some row => exact toEffect_applyMapped env binding bctx row.hulyRef syncThread

end Reviews.Awaits

namespace Epics.Awaits

variable (env : Env)

def createFromRemote (bctx : BindingContext) (gitlabId : String) (syncEpic : Fields)
    (description : JsValue) (status : Ref) (remoteTs : JsDate) : Async Unit := do
  let issueRef ← Async.createDoc env issueClass bctx.hulyProjectRef
    (createAttributes bctx syncEpic description status remoteTs)
  Async.upsertIdMap env ⟨bctx.workspaceUuid, .epic, gitlabId, issueClass, issueRef⟩
  let data ← Coroutine.ofExcept (buildEpicMixinCreateData syncEpic)
  Async.putMixin env issueClass issueRef MR_EPIC_MIXIN (withOriginatedMarker data)

def writeUpdate (hulyRef : Ref) (update : Fields) (remoteTs : JsDate) : Async Unit :=
  if update = [] then pure ()
  else Async.updateDoc env issueClass hulyRef (update.set "modifiedOn" (timeValue remoteTs))

def updateFromRemote (hulyRef : Ref) (syncEpic : Fields) (description : JsValue)
    (remoteTs : JsDate) : Async Bool := do
  let hulyIssue ← Async.findOne env issueClass hulyRef
  match hulyIssue with
  | none => pure false
  | some issue => do
      writeUpdate env hulyRef (updateOperations issue.attrs syncEpic description remoteTs) remoteTs
      let data ← Coroutine.ofExcept (buildEpicMixinUpdateData syncEpic)
      Async.putMixin env issueClass hulyRef MR_EPIC_MIXIN (withOriginatedMarker data)
      pure true

def linkChild (bctx : BindingContext) (epicIid childIid : JsValue) : Async Unit := do
  let childGitlabId := projectKey env bctx childIid
  let attributes := withOriginatedMarker [("parentEpicIid", epicIid)]
  let mrChild ← Async.findByGitlab env bctx.workspaceUuid .merge_request childGitlabId
  match mrChild with
  | some row => Async.putMixin env issueClass row.hulyRef MR_REVIEW_MIXIN_DOC attributes
  | none => do
      let issueChild ← Async.findByGitlab env bctx.workspaceUuid .issue childGitlabId
      match issueChild with
      | some row => Async.putMixin env issueClass row.hulyRef MR_REVIEW_MIXIN_DOC attributes
      | none => pure ()

def linkChildren (binding : BindingRef) (bctx : BindingContext) (syncEpic : Fields) :
    Async Unit := do
  let children ← Coroutine.ofExcept (syncEpic.field "childIssueIids").elements
  Coroutine.forEach (linkChild env bctx (syncEpic.field "iid")) children
  Async.setCursor env binding .epics (syncEpic.field "updatedAt").getTime

def applyRemote (binding : BindingRef) (syncEpic : Fields) : Async Unit := do
  let bctx ← Async.loadBinding env binding
  if bctx.edition ≠ none ∧ bctx.edition ≠ some "ee" then pure ()
  else do
    let groupId := syncEpic.field "groupId"
    let gitlabId := epicKey env bctx groupId (syncEpic.field "iid")
    let existing ← Async.findByGitlab env bctx.workspaceUuid .epic gitlabId
    let rawDescription ← Coroutine.ofExcept (syncEpic.field "description").asStr
    let description := JsValue.str (env.gfmMarkdownToMarkup rawDescription
      (groupUrl bctx groupId ++ "/-/epics") (groupUrl bctx groupId))
    match pickBacklogStatus bctx.statuses with
    | none => pure ()
    | some status => do
        let _ ← Coroutine.ofExcept (syncEpic.field "updatedAt").epochMs
        let remoteTs := (syncEpic.field "updatedAt").getTime
        match existing with
        | none => do
            createFromRemote env bctx gitlabId syncEpic description status remoteTs
            linkChildren env binding bctx syncEpic
        | some row => do
            let mirrored ← updateFromRemote env row.hulyRef syncEpic description remoteTs
            if mirrored then linkChildren env binding bctx syncEpic else pure ()

theorem toEffect_createFromRemote (bctx : BindingContext) (gitlabId : String) (syncEpic : Fields)
    (description : JsValue) (status : Ref) (remoteTs : JsDate) :
    (createFromRemote env bctx gitlabId syncEpic description status remoteTs).toEffect =
      Epics.createFromRemote env bctx gitlabId syncEpic description status remoteTs := by
  simp only [createFromRemote, Epics.createFromRemote, Coroutine.toEffect_bind,
    Async.toEffect_createDoc, Async.toEffect_upsertIdMap, Coroutine.toEffect_ofExcept,
    Async.toEffect_putMixin]

theorem toEffect_writeUpdate (hulyRef : Ref) (update : Fields) (remoteTs : JsDate) :
    (writeUpdate env hulyRef update remoteTs).toEffect =
      Epics.writeUpdate env hulyRef update remoteTs := by
  simp only [writeUpdate, Epics.writeUpdate, Coroutine.toEffect_ite, Coroutine.toEffect_pure,
    Async.toEffect_updateDoc]

theorem toEffect_updateFromRemote (hulyRef : Ref) (syncEpic : Fields) (description : JsValue)
    (remoteTs : JsDate) :
    (updateFromRemote env hulyRef syncEpic description remoteTs).toEffect =
      Epics.updateFromRemote env hulyRef syncEpic description remoteTs := by
  simp only [updateFromRemote, Epics.updateFromRemote, Coroutine.toEffect_bind,
    Async.toEffect_findOne]
  refine bind_congr fun hulyIssue => ?_
  cases hulyIssue with
  | none => rfl
  | some issue =>
    simp only [Coroutine.toEffect_bind, toEffect_writeUpdate, Coroutine.toEffect_ofExcept,
      Async.toEffect_putMixin, Coroutine.toEffect_pure]

theorem toEffect_linkChild (bctx : BindingContext) (epicIid childIid : JsValue) :
    (linkChild env bctx epicIid childIid).toEffect = Epics.linkChild env bctx epicIid childIid := by
  simp only [linkChild, Epics.linkChild, Coroutine.toEffect_bind, Async.toEffect_findByGitlab]
  refine bind_congr fun mrChild => ?_
  cases mrChild with
  | some row => rfl
  | none =>
    simp only [Coroutine.toEffect_bind, Async.toEffect_findByGitlab]
    refine bind_congr fun issueChild => ?_
    cases issueChild <;> rfl

theorem toEffect_linkChildren (binding : BindingRef) (bctx : BindingContext) (syncEpic : Fields) :
    (linkChildren env binding bctx syncEpic).toEffect =
      Epics.linkChildren env binding bctx syncEpic := by
  simp only [linkChildren, Epics.linkChildren, Coroutine.toEffect_bind, Coroutine.toEffect_ofExcept,
    Coroutine.toEffect_forEach (toEffect_linkChild env bctx (syncEpic.field "iid")),
    Async.toEffect_setCursor]

theorem toEffect_applyRemote (binding : BindingRef) (syncEpic : Fields) :
    (applyRemote env binding syncEpic).toEffect = Epics.applyRemote env binding syncEpic := by
  simp only [applyRemote, Epics.applyRemote, Coroutine.toEffect_bind, Async.toEffect_loadBinding,
    Coroutine.toEffect_ite, Coroutine.toEffect_pure, Async.toEffect_findByGitlab,
    Coroutine.toEffect_ofExcept]
  refine bind_congr fun bctx => ?_
  congr 1
  refine bind_congr fun existing => bind_congr fun rawDescription => ?_
  cases pickBacklogStatus bctx.statuses with
  | none => rfl
  | some status =>
    simp only [Coroutine.toEffect_bind, Coroutine.toEffect_ofExcept]
    refine bind_congr fun _ => ?_
    cases existing with
    | none =>
      simp only [Coroutine.toEffect_bind, toEffect_createFromRemote, toEffect_linkChildren]
    | some row =>
      simp only [Coroutine.toEffect_bind, toEffect_updateFromRemote, Coroutine.toEffect_ite,
        toEffect_linkChildren, Coroutine.toEffect_pure]

end Epics.Awaits

namespace Pipelines.Awaits

variable (env : Env)

def applyRemote (binding : BindingRef) (syncPipeline : Fields) : Async Unit :=
  let mergeRequestIid := syncPipeline.field "mergeRequestIid"
  if mergeRequestIid = .null then pure ()
  else do
    let bctx ← Async.loadBinding env binding
    let mrRef ← Async.findByGitlab env bctx.workspaceUuid .merge_request
      (projectKey env bctx mergeRequestIid)
    match mrRef with
    | none => pure ()
    | some row =>
        Async.putMixin env issueClass row.hulyRef MR_MIXIN
          (withOriginatedMarker [("pipelineStatus", syncPipeline.field "status")])

theorem toEffect_applyRemote (binding : BindingRef) (syncPipeline : Fields) :
    (applyRemote env binding syncPipeline).toEffect =
      Pipelines.applyRemote env binding syncPipeline := by
  simp only [applyRemote, Pipelines.applyRemote, Coroutine.toEffect_ite, Coroutine.toEffect_pure,
    Coroutine.toEffect_bind, Async.toEffect_loadBinding, Async.toEffect_findByGitlab]
  congr 1
  refine bind_congr fun bctx => bind_congr fun mrRef => ?_
  cases mrRef <;> rfl

end Pipelines.Awaits

end HulyGitlab
