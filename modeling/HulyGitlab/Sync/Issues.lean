import HulyGitlab.Adapter.Types
import HulyGitlab.Huly.Users
import HulyGitlab.Sync.Caches
import HulyGitlab.Sync.Conflict
import HulyGitlab.Sync.Keys
import HulyGitlab.Sync.StatusMap

/-!
# The issue manager

`IssuesSyncManager`. The service wires it without attachment mirroring, so
a body is only translated.
-/

namespace HulyGitlab

/-- `withOriginatedMarker`. -/
def withOriginatedMarker (attrs : Fields) : Fields := attrs.set "_originated" (.str "gitlab")

/-- `date.getTime()` as an attribute; the number of an invalid date is stored as `null`. -/
def timeValue : JsDate → JsValue
  | some ms => .num ms
  | none => .null

/-- `modifiedOn > 0 ? new Date(modifiedOn) : undefined`. -/
def localTsOf (modifiedOn : JsValue) : Option JsDate :=
  match modifiedOn with
  | .num n => if 0 < n then some (some n.toNat) else none
  | _ => none

/-- `names.join(',')`. -/
def joinNames (names : List JsValue) : String := ",".intercalate (names.map JsValue.text)

/-- A property of an object literal that is only set when it is defined. -/
def given (k : String) (v : JsValue) : Fields := if v = .undefined then [] else [(k, v)]

@[simp] theorem given_eq_nil (k : String) (v : JsValue) : given k v = [] ↔ v = .undefined := by
  unfold given
  by_cases h : v = .undefined
  · simp [h]
  · simp [h]

/-- The end of an update from a record: the cursor moves if the record was newer. -/
def advanceCursor (env : Env) (binding : BindingRef) (kind : CursorKind)
    (localTs : Option JsDate) (remoteTs : JsDate) : Sync Unit :=
  if localTs = none ∨ remoteTs.after (localTs.getD none) then
    Sync.setCursor env binding kind remoteTs
  else pure ()

/-- The write of a dirty update, which carries the new clock. -/
def writeUpdate (env : Env) (hulyRef : Ref) (update : Fields) (remoteTs : JsDate) : Sync Unit :=
  if update = [] then pure ()
  else
    Sync.updateDoc env hulyRef
      (withOriginatedMarker (update.set "modifiedOn" (timeValue remoteTs)))

/-- The names of the labels of a change, which are created on GitLab if they are missing. -/
def remoteLabels (env : Env) (projectId : Int) (labels : JsValue) : Sync JsValue :=
  if labels = .undefined then pure .undefined
  else do
    let items ← Effect.ofExcept labels.elements
    let names ← LabelCache.ensureRemote env projectId .new items
    pure (.str (joinNames names.1))

/-- The id of the milestone of a change, which is created on GitLab if it is missing. -/
def remoteMilestoneId (env : Env) (projectId : Int) (milestone : JsValue) : Sync JsValue :=
  if milestone = .undefined ∨ milestone = .null then pure .undefined
  else do
    let title ← Effect.ofExcept (milestone.prop "title")
    let description ← Effect.ofExcept (milestone.prop "description")
    let m ← MilestoneCache.ensureRemoteMilestone env projectId .new title description
    Effect.ofExcept (m.1.prop "id")

/-- The description of a change in GitLab's markdown. -/
def remoteDescription (env : Env) (refUrl imageUrl : String) (descriptionMarkup : JsValue) :
    Sync JsValue :=
  if descriptionMarkup = .undefined then pure .undefined
  else do
    let text ← Effect.ofExcept (env.markupToGfmMarkdown descriptionMarkup refUrl imageUrl)
    pure (.str text)

@[simp] theorem remoteLabels_undefined (env : Env) (projectId : Int) :
    remoteLabels env projectId .undefined = pure .undefined := rfl

@[simp] theorem remoteMilestoneId_undefined (env : Env) (projectId : Int) :
    remoteMilestoneId env projectId .undefined = pure .undefined := rfl

@[simp] theorem remoteDescription_undefined (env : Env) (refUrl imageUrl : String) :
    remoteDescription env refUrl imageUrl .undefined = pure .undefined := rfl

namespace Issues

variable (env : Env)

def noPriority : JsValue := .num 0

/-- The fields the LWW round manages, in the order of the `take` calls. -/
def managedFields : List String :=
  ["title", "description", "status", "assignee", "milestone", "labels"]

/-- The values a record carries for the managed fields, resolved to Huly. -/
structure RemoteIssue where
  title : JsValue
  description : JsValue
  status : JsValue
  assignee : JsValue
  milestone : JsValue
  labels : JsValue

def RemoteIssue.versions (r : RemoteIssue) (ts : JsDate) : Conflict.FieldMap :=
  [("title", ⟨r.title, some ts⟩), ("description", ⟨r.description, some ts⟩),
    ("status", ⟨r.status, some ts⟩), ("assignee", ⟨r.assignee, some ts⟩),
    ("milestone", ⟨r.milestone, some ts⟩), ("labels", ⟨r.labels, some ts⟩)]

def localVersions (attrs : Fields) : Conflict.FieldMap :=
  let ts := localTsOf (attrs.field "modifiedOn")
  [("title", ⟨attrs.field "title", ts⟩), ("description", ⟨attrs.field "description", ts⟩),
    ("status", ⟨attrs.field "status", ts⟩), ("assignee", ⟨attrs.field "assignee", ts⟩),
    ("milestone", ⟨(attrs.field "milestone").orElse .null, ts⟩),
    ("labels", ⟨(attrs.field "labels").orElse (.arr []), ts⟩)]

def createAttributes (bctx : BindingContext) (r : RemoteIssue) (remoteTs : JsDate) : Fields :=
  withOriginatedMarker
    [("title", r.title), ("description", r.description), ("status", r.status),
      ("priority", noPriority), ("assignee", r.assignee), ("labels", r.labels),
      ("milestone", r.milestone), ("kind", .str bctx.defaultTaskType),
      ("modifiedOn", timeValue remoteTs)]

/-- The branch of `applyRemote` for an issue without a row. -/
def createFromRemote (binding : BindingRef) (bctx : BindingContext) (gitlabId : String)
    (r : RemoteIssue) (remoteTs : JsDate) : Sync Unit := do
  let issueRef ← Sync.createDoc env issueClass bctx.hulyProjectRef
    (createAttributes bctx r remoteTs)
  Sync.upsertIdMap env ⟨bctx.workspaceUuid, .issue, gitlabId, issueClass, issueRef⟩
  Sync.setCursor env binding .issues remoteTs

/-- The fields that won and differ. -/
def updateOperations (attrs : Fields) (r : RemoteIssue) (remoteTs : JsDate) : Fields :=
  Conflict.takeAll (localVersions attrs) (r.versions remoteTs) managedFields

/-- The branch of `applyRemote` for a mapped issue: LWW field by field. -/
def updateFromRemote (binding : BindingRef) (hulyRef : Ref) (r : RemoteIssue)
    (remoteTs : JsDate) : Sync Unit := do
  let hulyIssue ← Sync.findOne env issueClass hulyRef
  match hulyIssue with
  | none => pure ()
  | some issue => do
      let localTs := localTsOf (issue.attrs.field "modifiedOn")
      writeUpdate env hulyRef (updateOperations issue.attrs r remoteTs) remoteTs
      advanceCursor env binding .issues localTs remoteTs

/-- `milestoneCache.ensureLocalMilestone` on the milestone of a record. -/
def resolveMilestone (space : Ref) (milestone : JsValue) : Sync JsValue :=
  if milestone = .null then pure .null
  else do
    let title ← Effect.ofExcept (milestone.prop "title")
    let description ← Effect.ofExcept (milestone.prop "description")
    let ref ← MilestoneCache.ensureLocalMilestone env space .new title
      (description.orElse .undefined)
    pure (.str ref.1)

def applyRemote (binding : BindingRef) (syncIssue : Fields) : Sync Unit := do
  let bctx ← Sync.loadBinding env binding
  let gitlabId := projectKey env bctx (syncIssue.field "iid")
  let existing ← Sync.findByGitlab env bctx.workspaceUuid .issue gitlabId
  let rawDescription ← Effect.ofExcept ((syncIssue.field "description").orElse (.str "")).asStr
  let descriptionMarkup :=
    env.gfmMarkdownToMarkup rawDescription (issueRefUrl bctx) (imageUrl bctx)
  let assignee ← UserIdentity.resolveAssignee env bctx.workspaceUuid (syncIssue.field "assignees")
  let names ← Effect.ofExcept (syncIssue.field "labels").elements
  let labelRefs ← LabelCache.resolveLocal env bctx.hulyProjectRef .new names
  let milestone ← resolveMilestone env bctx.hulyProjectRef (syncIssue.field "milestone")
  let statusRef ← StatusMap.mapRemoteState env (toString bctx.gitlabProjectId)
    (syncIssue.field "state") bctx.statuses
  match statusRef with
  | none => pure ()
  | some status => do
      let remote : RemoteIssue :=
        { title := syncIssue.field "title", description := .str descriptionMarkup,
          status := .str status, assignee := assignee, milestone := milestone,
          labels := .arr (labelRefs.1.map .str) }
      let remoteTs := (syncIssue.field "updatedAt").getTime
      match existing with
      | none => createFromRemote env binding bctx gitlabId remote remoteTs
      | some row => updateFromRemote env binding row.hulyRef remote remoteTs

/-- The state event for the status of a change. -/
def remoteStateEvent (bctx : BindingContext) (statusRef : JsValue) : Sync JsValue :=
  if statusRef = .undefined then pure .undefined
  else do
    let state ← StatusMap.mapHulyStatus env (toString bctx.gitlabProjectId) statusRef bctx.statuses
    pure (.str (if state = .closed then "close" else "reopen"))

@[simp] theorem remoteStateEvent_undefined (bctx : BindingContext) :
    remoteStateEvent env bctx .undefined = pure .undefined := rfl

/-- The fields of a change that GitLab is sent, translated: `createIssue` and
`updateIssue` take the same body. -/
def remoteBody (bctx : BindingContext) (change : Fields) : Sync Fields := do
  let labelNames ← remoteLabels env bctx.gitlabProjectId (change.field "labels")
  let milestoneId ← remoteMilestoneId env bctx.gitlabProjectId (change.field "milestone")
  let stateEvent ← remoteStateEvent env bctx (change.field "status")
  let description ← remoteDescription env (issueRefUrl bctx) (imageUrl bctx)
    (change.field "description")
  pure (given "title" (change.field "title") ++ given "description" description ++
    given "labels" labelNames ++ given "milestone_id" milestoneId ++
    given "assignee_ids" (change.field "assigneeIds") ++ given "state_event" stateEvent)

def applyLocal (binding : BindingRef) (doc : String) (change : Fields) : Sync Unit := do
  let bctx ← Sync.loadBinding env binding
  let hulyRef := stripDocPrefix doc
  let mapping ← Sync.findByHuly env bctx.workspaceUuid issueClass hulyRef
  let body ← remoteBody env bctx change
  match mapping with
  | none =>
      if change.field "title" = .undefined then pure ()
      else do
        let created ← Sync.request env (.createIssue bctx.gitlabProjectId body)
        let iid ← Effect.ofExcept (created.prop "iid")
        Sync.upsertIdMap env
          ⟨bctx.workspaceUuid, .issue, projectKey env bctx iid, issueClass, hulyRef⟩
        let now ← Effect.gets World.now
        Sync.setCursor env binding .issues (some now)
  | some row =>
      match parseIid row.gitlabId with
      | none => pure ()
      | some iid =>
          if body = [] then pure ()
          else do
            let _ ← Sync.request env (.updateIssue bctx.gitlabProjectId iid body)
            let now ← Effect.gets World.now
            Sync.setCursor env binding .issues (some now)

end Issues

end HulyGitlab
