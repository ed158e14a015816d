import HulyGitlab.Sync.MergeRequests

/-!
# Epics and pipelines

The two managers that only follow GitLab: `EpicsSyncManager` mirrors an epic
as an issue and links its children, `PipelineSyncManager` writes one field
of the mirror of a merge request.
-/

namespace HulyGitlab

def MR_EPIC_MIXIN : String := "gitlab-epic"

namespace Epics

variable (env : Env)

/-- `prefixGitlabIdForMultiInstance` of `${groupId}:${iid}`. -/
def epicKey (bctx : BindingContext) (groupId iid : JsValue) : String :=
  prefixGitlabIdForMultiInstance env bctx (groupId.text ++ ":" ++ iid.text)

/-- The groups of an instance, `${gitlabBaseUrl}/groups/${groupId}`. -/
def groupUrl (bctx : BindingContext) (groupId : JsValue) : String :=
  stripTrailingSlash bctx.gitlabBaseUrl ++ "/groups/" ++ groupId.text

def isBacklog (s : Status) : Bool :=
  includes (s.category.getD "") "Backlog" || includes (s.category.getD "") "ToDo"

def pickBacklogStatus (statuses : List Status) : Option Ref :=
  match statuses.find? isBacklog with
  | some s => some s._id
  | none => statuses.head?.map (·._id)

def createAttributes (bctx : BindingContext) (syncEpic : Fields) (description : JsValue)
    (status : Ref) (remoteTs : JsDate) : Fields :=
  withOriginatedMarker
    [("title", syncEpic.field "title"), ("description", description), ("status", .str status),
      ("priority", Issues.noPriority), ("assignee", .null), ("labels", .arr []),
      ("milestone", .null), ("kind", .str bctx.defaultTaskType),
      ("modifiedOn", timeValue remoteTs)]

/-- The fields of the mixin that change; `childIssueIids` is copied, so it must be an array. -/
def buildEpicMixinUpdateData (syncEpic : Fields) : Except Err Fields := do
  let children ← (syncEpic.field "childIssueIids").items
  pure [("state", syncEpic.field "state"), ("webUrl", syncEpic.field "webUrl"),
    ("childIssueIids", .arr children)]

def buildEpicMixinCreateData (syncEpic : Fields) : Except Err Fields := do
  let data ← buildEpicMixinUpdateData syncEpic
  pure ([("epicIid", syncEpic.field "iid"), ("groupId", syncEpic.field "groupId")] ++ data)

/-- The row comes before the mixin. -/
def createFromRemote (bctx : BindingContext) (gitlabId : String) (syncEpic : Fields)
    (description : JsValue) (status : Ref) (remoteTs : JsDate) : Sync Unit := do
  let issueRef ← Sync.createDoc env issueClass bctx.hulyProjectRef
    (createAttributes bctx syncEpic description status remoteTs)
  Sync.upsertIdMap env ⟨bctx.workspaceUuid, .epic, gitlabId, issueClass, issueRef⟩
  let data ← Effect.ofExcept (buildEpicMixinCreateData syncEpic)
  Sync.putMixin env issueRef MR_EPIC_MIXIN (withOriginatedMarker data)

/-- The record is newer than the mirror, or the mirror has no clock. -/
def isNewer (modifiedOn : JsValue) (remoteTs : JsDate) : Bool :=
  match modifiedOn with
  | .num ts => decide (ts ≤ 0) || remoteTs.after (some ts.toNat)
  | _ => false

/-- The fields that differ, when the record is newer. -/
def updateOperations (attrs syncEpic : Fields) (description : JsValue) (remoteTs : JsDate) :
    Fields :=
  if isNewer (attrs.field "modifiedOn") remoteTs then
    let title := syncEpic.field "title"
    (if attrs.field "title" = title then [] else [("title", title)]) ++
      if attrs.field "description" = description then [] else [("description", description)]
  else []

/-- An update is written without the marker. -/
def writeUpdate (hulyRef : Ref) (update : Fields) (remoteTs : JsDate) : Sync Unit :=
  if update = [] then pure ()
  else Sync.updateDoc env hulyRef (update.set "modifiedOn" (timeValue remoteTs))

/-- Whether the mirror is there. -/
def updateFromRemote (hulyRef : Ref) (syncEpic : Fields) (description : JsValue)
    (remoteTs : JsDate) : Sync Bool := do
  let hulyIssue ← Sync.findOne env issueClass hulyRef
  match hulyIssue with
  | none => pure false
  | some issue => do
      writeUpdate env hulyRef (updateOperations issue.attrs syncEpic description remoteTs) remoteTs
      let data ← Effect.ofExcept (buildEpicMixinUpdateData syncEpic)
      Sync.putMixin env hulyRef MR_EPIC_MIXIN (withOriginatedMarker data)
      pure true

/-- A child is a merge request, or else an issue, of the project of the binding. -/
def linkChild (bctx : BindingContext) (epicIid childIid : JsValue) : Sync Unit := do
  let childGitlabId := projectKey env bctx childIid
  let attributes := withOriginatedMarker [("parentEpicIid", epicIid)]
  let mrChild ← Sync.findByGitlab env bctx.workspaceUuid .merge_request childGitlabId
  match mrChild with
  | some row => Sync.putMixin env row.hulyRef MR_REVIEW_MIXIN_DOC attributes
  | none => do
      let issueChild ← Sync.findByGitlab env bctx.workspaceUuid .issue childGitlabId
      match issueChild with
      | some row => Sync.putMixin env row.hulyRef MR_REVIEW_MIXIN_DOC attributes
      | none => pure ()

/-- The children and the cursor, after the mirror is written. -/
def linkChildren (binding : BindingRef) (bctx : BindingContext) (syncEpic : Fields) :
    Sync Unit := do
  let children ← Effect.ofExcept (syncEpic.field "childIssueIids").elements
  Effect.forEach (linkChild env bctx (syncEpic.field "iid")) children
  Sync.setCursor env binding .epics (syncEpic.field "updatedAt").getTime

def applyRemote (binding : BindingRef) (syncEpic : Fields) : Sync Unit := do
  let bctx ← Sync.loadBinding env binding
  if bctx.edition ≠ none ∧ bctx.edition ≠ some "ee" then pure ()
  else do
    let groupId := syncEpic.field "groupId"
    let gitlabId := epicKey env bctx groupId (syncEpic.field "iid")
    let existing ← Sync.findByGitlab env bctx.workspaceUuid .epic gitlabId
    let rawDescription ← Effect.ofExcept (syncEpic.field "description").asStr
    let description := JsValue.str (env.gfmMarkdownToMarkup rawDescription
      (groupUrl bctx groupId ++ "/-/epics") (groupUrl bctx groupId))
    match pickBacklogStatus bctx.statuses with
    | none => pure ()
    | some status => do
        let _ ← Effect.ofExcept (syncEpic.field "updatedAt").epochMs
        let remoteTs := (syncEpic.field "updatedAt").getTime
        match existing with
        | none => do
            createFromRemote env bctx gitlabId syncEpic description status remoteTs
            linkChildren env binding bctx syncEpic
        | some row => do
            let mirrored ← updateFromRemote env row.hulyRef syncEpic description remoteTs
            if mirrored then linkChildren env binding bctx syncEpic else pure ()

/-- Edits of an epic are not pushed. -/
def applyLocal (_binding : BindingRef) (_doc : String) (_change : Fields) : Sync Unit := pure ()

end Epics

namespace Pipelines

variable (env : Env)

/-- Only `pipelineStatus` of the legacy mixin is written. -/
def applyRemote (binding : BindingRef) (syncPipeline : Fields) : Sync Unit :=
  let mergeRequestIid := syncPipeline.field "mergeRequestIid"
  if mergeRequestIid = .null then pure ()
  else do
    let bctx ← Sync.loadBinding env binding
    let mrRef ← Sync.findByGitlab env bctx.workspaceUuid .merge_request
      (projectKey env bctx mergeRequestIid)
    match mrRef with
    | none => pure ()
    | some row =>
        Sync.putMixin env row.hulyRef MR_MIXIN
          (withOriginatedMarker [("pipelineStatus", syncPipeline.field "status")])

/-- Pipelines are never pushed. -/
def applyLocal (_binding : BindingRef) (_doc : String) (_change : Fields) : Sync Unit := pure ()

end Pipelines

end HulyGitlab
