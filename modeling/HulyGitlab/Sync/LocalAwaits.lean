import HulyGitlab.Sync.ManagerAwaits

/-!
# Pushes of issues and notes, await by await

`applyLocal` of the managers of issues and notes, cut at its awaits, with the
caches of labels and milestones on GitLab's side.
-/

namespace HulyGitlab

namespace LabelCache.Awaits

variable (env : Env)

def primeRemote (projectId : Int) (c : LabelCache) : Async LabelCache :=
  if c.remoteLoaded then pure c
  else do
    let answer ← Async.request env (.listLabels projectId)
    let labels ← Coroutine.ofExcept answer.elements
    let entries ← Coroutine.ofExcept (remoteEntries env "name" labels)
    pure { c with remoteByName := c.remoteByName.primeSync entries, remoteLoaded := true }

def ensureRemoteLabel (projectId : Int) (c : LabelCache) (name color : JsValue) :
    Async (JsValue × LabelCache) := do
  let c ← primeRemote env projectId c
  let text ← Coroutine.ofExcept name.asStr
  let key := env.toLowerCase text
  match c.remoteByName.get key with
  | some existing => pure (existing, c)
  | none => do
      let color := if color = .undefined then .str "#A0A0A0" else color
      let created ← Async.request env (.createLabel projectId [("name", name), ("color", color)])
      pure (created, { c with remoteByName := c.remoteByName.put key created })

def ensureRemote (projectId : Int) (c : LabelCache) :
    List JsValue → Async (List JsValue × LabelCache)
  | [] => pure ([], c)
  | l :: labels => do
      let name ← Coroutine.ofExcept (l.prop "name")
      let color ← Coroutine.ofExcept (l.prop "color")
      let ensured ← ensureRemoteLabel env projectId c name color
      let ensuredName ← Coroutine.ofExcept (ensured.1.prop "name")
      let rest ← ensureRemote projectId ensured.2 labels
      pure (ensuredName :: rest.1, rest.2)

theorem toEffect_primeRemote (projectId : Int) (c : LabelCache) :
    (primeRemote env projectId c).toEffect = LabelCache.primeRemote env projectId c := by
  simp only [primeRemote, LabelCache.primeRemote, Coroutine.toEffect_ite, Coroutine.toEffect_bind,
    Coroutine.toEffect_pure, Coroutine.toEffect_ofExcept, Async.toEffect_request]

theorem toEffect_ensureRemoteLabel (projectId : Int) (c : LabelCache) (name color : JsValue) :
    (ensureRemoteLabel env projectId c name color).toEffect =
      LabelCache.ensureRemoteLabel env projectId c name color := by
  simp only [ensureRemoteLabel, LabelCache.ensureRemoteLabel, Coroutine.toEffect_bind,
    Coroutine.toEffect_ofExcept, toEffect_primeRemote]
  refine bind_congr fun c => bind_congr fun text => ?_
  cases c.remoteByName.get (env.toLowerCase text) with
  | some existing => rfl
  | none =>
    simp only [Coroutine.toEffect_bind, Async.toEffect_request, Coroutine.toEffect_pure]

theorem toEffect_ensureRemote (projectId : Int) (c : LabelCache) (labels : List JsValue) :
    (ensureRemote env projectId c labels).toEffect =
      LabelCache.ensureRemote env projectId c labels := by
  induction labels generalizing c with
  | nil => rfl
  | cons l labels ih =>
    simp only [ensureRemote, LabelCache.ensureRemote, Coroutine.toEffect_bind,
      Coroutine.toEffect_ofExcept, toEffect_ensureRemoteLabel, ih, Coroutine.toEffect_pure]

end LabelCache.Awaits

namespace MilestoneCache.Awaits

variable (env : Env)

def primeRemote (projectId : Int) (c : MilestoneCache) : Async MilestoneCache :=
  if c.remoteLoaded then pure c
  else do
    let answer ← Async.request env (.listMilestones projectId)
    let milestones ← Coroutine.ofExcept answer.elements
    let entries ← Coroutine.ofExcept (remoteEntries env "title" milestones)
    pure { c with remoteByTitle := c.remoteByTitle.primeSync entries, remoteLoaded := true }

def ensureRemoteMilestone (projectId : Int) (c : MilestoneCache) (title description : JsValue) :
    Async (JsValue × MilestoneCache) := do
  let c ← primeRemote env projectId c
  let text ← Coroutine.ofExcept title.asStr
  let key := env.toLowerCase text
  match c.remoteByTitle.get key with
  | some existing => pure (existing, c)
  | none => do
      let body := [("title", title)] ++
        (if description = .undefined then [] else [("description", description)])
      let created ← Async.request env (.createMilestone projectId body)
      pure (created, { c with remoteByTitle := c.remoteByTitle.put key created })

theorem toEffect_primeRemote (projectId : Int) (c : MilestoneCache) :
    (primeRemote env projectId c).toEffect = MilestoneCache.primeRemote env projectId c := by
  simp only [primeRemote, MilestoneCache.primeRemote, Coroutine.toEffect_ite,
    Coroutine.toEffect_bind, Coroutine.toEffect_pure, Coroutine.toEffect_ofExcept,
    Async.toEffect_request]

theorem toEffect_ensureRemoteMilestone (projectId : Int) (c : MilestoneCache)
    (title description : JsValue) :
    (ensureRemoteMilestone env projectId c title description).toEffect =
      MilestoneCache.ensureRemoteMilestone env projectId c title description := by
  simp only [ensureRemoteMilestone, MilestoneCache.ensureRemoteMilestone, Coroutine.toEffect_bind,
    Coroutine.toEffect_ofExcept, toEffect_primeRemote]
  refine bind_congr fun c => bind_congr fun text => ?_
  cases c.remoteByTitle.get (env.toLowerCase text) with
  | some existing => rfl
  | none =>
    simp only [Coroutine.toEffect_bind, Async.toEffect_request, Coroutine.toEffect_pure]

end MilestoneCache.Awaits

namespace Awaits

variable (env : Env)

def remoteLabels (projectId : Int) (labels : JsValue) : Async JsValue :=
  if labels = .undefined then pure .undefined
  else do
    let items ← Coroutine.ofExcept labels.elements
    let names ← LabelCache.Awaits.ensureRemote env projectId .new items
    pure (.str (joinNames names.1))

def remoteMilestoneId (projectId : Int) (milestone : JsValue) : Async JsValue :=
  if milestone = .undefined ∨ milestone = .null then pure .undefined
  else do
    let title ← Coroutine.ofExcept (milestone.prop "title")
    let description ← Coroutine.ofExcept (milestone.prop "description")
    let m ← MilestoneCache.Awaits.ensureRemoteMilestone env projectId .new title description
    Coroutine.ofExcept (m.1.prop "id")

def remoteDescription (refUrl imageUrl : String) (descriptionMarkup : JsValue) : Async JsValue :=
  if descriptionMarkup = .undefined then pure .undefined
  else do
    let text ← Coroutine.ofExcept (env.markupToGfmMarkdown descriptionMarkup refUrl imageUrl)
    pure (.str text)

/-- The statuses a process remembers, read as if there were an await before. -/
def mapHulyStatus (projectKey : String) (statusRef : JsValue) (statuses : List Status) :
    Async IssueState :=
  Coroutine.call .mapRemoteState (StatusMap.mapHulyStatus env projectKey statusRef statuses)

theorem toEffect_remoteLabels (projectId : Int) (labels : JsValue) :
    (remoteLabels env projectId labels).toEffect = HulyGitlab.remoteLabels env projectId labels := by
  simp only [remoteLabels, HulyGitlab.remoteLabels, Coroutine.toEffect_ite,
    Coroutine.toEffect_bind, Coroutine.toEffect_pure, Coroutine.toEffect_ofExcept,
    LabelCache.Awaits.toEffect_ensureRemote]

theorem toEffect_remoteMilestoneId (projectId : Int) (milestone : JsValue) :
    (remoteMilestoneId env projectId milestone).toEffect =
      HulyGitlab.remoteMilestoneId env projectId milestone := by
  simp only [remoteMilestoneId, HulyGitlab.remoteMilestoneId, Coroutine.toEffect_ite,
    Coroutine.toEffect_bind, Coroutine.toEffect_pure, Coroutine.toEffect_ofExcept,
    MilestoneCache.Awaits.toEffect_ensureRemoteMilestone]

theorem toEffect_remoteDescription (refUrl imageUrl : String) (descriptionMarkup : JsValue) :
    (remoteDescription env refUrl imageUrl descriptionMarkup).toEffect =
      HulyGitlab.remoteDescription env refUrl imageUrl descriptionMarkup := by
  simp only [remoteDescription, HulyGitlab.remoteDescription, Coroutine.toEffect_ite,
    Coroutine.toEffect_bind, Coroutine.toEffect_pure, Coroutine.toEffect_ofExcept]

@[simp] theorem toEffect_mapHulyStatus (projectKey : String) (statusRef : JsValue)
    (statuses : List Status) : (mapHulyStatus env projectKey statusRef statuses).toEffect =
      StatusMap.mapHulyStatus env projectKey statusRef statuses := rfl

end Awaits

namespace Issues.Awaits

variable (env : Env)

def remoteStateEvent (bctx : BindingContext) (statusRef : JsValue) : Async JsValue :=
  if statusRef = .undefined then pure .undefined
  else do
    let state ← HulyGitlab.Awaits.mapHulyStatus env (toString bctx.gitlabProjectId) statusRef
      bctx.statuses
    pure (.str (if state = .closed then "close" else "reopen"))

def remoteBody (bctx : BindingContext) (change : Fields) : Async Fields := do
  let labelNames ← HulyGitlab.Awaits.remoteLabels env bctx.gitlabProjectId (change.field "labels")
  let milestoneId ← HulyGitlab.Awaits.remoteMilestoneId env bctx.gitlabProjectId
    (change.field "milestone")
  let stateEvent ← remoteStateEvent env bctx (change.field "status")
  let description ← HulyGitlab.Awaits.remoteDescription env (issueRefUrl bctx) (imageUrl bctx)
    (change.field "description")
  pure (given "title" (change.field "title") ++ given "description" description ++
    given "labels" labelNames ++ given "milestone_id" milestoneId ++
    given "assignee_ids" (change.field "assigneeIds") ++ given "state_event" stateEvent)

def touchCursor (binding : BindingRef) : Async Unit := do
  let now ← Async.now
  Async.setCursor env binding .issues (some now)

/-- The create branch of `applyLocal`. -/
def createRemote (binding : BindingRef) (bctx : BindingContext) (hulyRef : Ref) (body : Fields) :
    Async Unit := do
  let created ← Async.request env (.createIssue bctx.gitlabProjectId body)
  let iid ← Coroutine.ofExcept (created.prop "iid")
  Async.upsertIdMap env ⟨bctx.workspaceUuid, .issue, projectKey env bctx iid, issueClass, hulyRef⟩
  touchCursor env binding

def applyLocal (binding : BindingRef) (doc : String) (change : Fields) : Async Unit := do
  let bctx ← Async.loadBinding env binding
  let hulyRef := stripDocPrefix doc
  let mapping ← Async.findByHuly env bctx.workspaceUuid issueClass hulyRef
  let body ← remoteBody env bctx change
  match mapping with
  | none =>
      if change.field "title" = .undefined then pure ()
      else createRemote env binding bctx hulyRef body
  | some row =>
      match parseIid row.gitlabId with
      | none => pure ()
      | some iid =>
          if body = [] then pure ()
          else do
            let _ ← Async.request env (.updateIssue bctx.gitlabProjectId iid body)
            touchCursor env binding

theorem toEffect_remoteStateEvent (bctx : BindingContext) (statusRef : JsValue) :
    (remoteStateEvent env bctx statusRef).toEffect =
      Issues.remoteStateEvent env bctx statusRef := by
  simp only [remoteStateEvent, Issues.remoteStateEvent, Coroutine.toEffect_ite,
    Coroutine.toEffect_bind, Coroutine.toEffect_pure, HulyGitlab.Awaits.toEffect_mapHulyStatus]

theorem toEffect_remoteBody (bctx : BindingContext) (change : Fields) :
    (remoteBody env bctx change).toEffect = Issues.remoteBody env bctx change := by
  simp only [remoteBody, Issues.remoteBody, Coroutine.toEffect_bind, Coroutine.toEffect_pure,
    HulyGitlab.Awaits.toEffect_remoteLabels, HulyGitlab.Awaits.toEffect_remoteMilestoneId,
    toEffect_remoteStateEvent, HulyGitlab.Awaits.toEffect_remoteDescription]

theorem toEffect_applyLocal (binding : BindingRef) (doc : String) (change : Fields) :
    (applyLocal env binding doc change).toEffect = Issues.applyLocal env binding doc change := by
  simp only [applyLocal, Issues.applyLocal, Coroutine.toEffect_bind, Async.toEffect_loadBinding,
    Async.toEffect_findByHuly, toEffect_remoteBody]
  refine bind_congr fun bctx => bind_congr fun mapping => bind_congr fun body => ?_
  cases mapping with
  | none =>
    simp only [createRemote, touchCursor, Coroutine.toEffect_ite, Coroutine.toEffect_bind,
      Coroutine.toEffect_pure, Coroutine.toEffect_ofExcept, Async.toEffect_request,
      Async.toEffect_upsertIdMap, Async.toEffect_now, Async.toEffect_setCursor]
  | some row =>
    dsimp only
    cases parseIid row.gitlabId with
    | none => rfl
    | some iid =>
      simp only [touchCursor, Coroutine.toEffect_ite, Coroutine.toEffect_bind,
        Coroutine.toEffect_pure, Async.toEffect_request, Async.toEffect_now,
        Async.toEffect_setCursor]

end Issues.Awaits

namespace Notes.Awaits

variable (env : Env)

def resolveParent (bctx : BindingContext) (change : Fields) : Async (Option LocalParent) :=
  let hintIid := change.field "noteableIid"
  let hulyAttachedTo := (change.field "hulyMessage").get "attachedTo"
  if hulyAttachedTo = .undefined then pure (some ⟨hintIid, false⟩)
  else do
    let parentMap ← Async.findByHuly env bctx.workspaceUuid issueClass hulyAttachedTo.text
    match parentMap with
    | none => pure (if hintIid = .undefined then none else some ⟨hintIid, false⟩)
    | some row =>
        match parseProjectIid row.gitlabId with
        | none => pure (some ⟨hintIid, false⟩)
        | some (_, iid) =>
            pure (some ⟨if hintIid = .undefined then .num iid else hintIid,
              row.gitlabKind = .merge_request⟩)

def touchCursor (binding : BindingRef) : Async Unit := do
  let now ← Async.now
  Async.setCursor env binding .notes (some now)

/-- The request for a note of an issue or a merge request. -/
def creation (bctx : BindingContext) (parent : LocalParent) (iid : Int) (body : Fields) :
    GitLabRequest :=
  if parent.isMR then .createMRNote bctx.gitlabProjectId iid body
  else .createNote bctx.gitlabProjectId iid body

def createRemote (binding : BindingRef) (bctx : BindingContext) (hulyRef : Ref)
    (parent : LocalParent) (message : JsValue) : Async Unit :=
  if message = .undefined ∨ parent.iid = .undefined then pure ()
  else do
    let text ← Coroutine.ofExcept
      (env.markupToGfmMarkdown message (issueRefUrl bctx) (imageUrl bctx))
    let iid ← Coroutine.ofExcept parent.iid.asNum
    let created ← Async.request env (creation bctx parent iid [("body", .str text)])
    let id ← Coroutine.ofExcept (created.prop "id")
    Async.upsertIdMap env
      ⟨bctx.workspaceUuid, .note, projectKey env bctx id, HULY_CLASS_CHAT_MESSAGE, hulyRef⟩
    touchCursor env binding

def changeRemote (binding : BindingRef) (bctx : BindingContext) (noteId : Int)
    (parent : LocalParent) (change : Fields) : Async Unit :=
  let issueIid := (change.field "issueIid").orElse (change.field "noteableIid")
  let message := change.field "message"
  if issueIid = .undefined then pure ()
  else if change.field "deleted" = .bool true then do
    let iid ← Coroutine.ofExcept issueIid.asNum
    let _ ← Async.request env
      (if parent.isMR then .deleteMRNote bctx.gitlabProjectId iid noteId
        else .deleteNote bctx.gitlabProjectId iid noteId)
    touchCursor env binding
  else if message ≠ .undefined then do
    let text ← Coroutine.ofExcept
      (env.markupToGfmMarkdown message (issueRefUrl bctx) (imageUrl bctx))
    let iid ← Coroutine.ofExcept issueIid.asNum
    let body : Fields := [("body", .str text)]
    let _ ← Async.request env
      (if parent.isMR then .updateMRNote bctx.gitlabProjectId iid noteId body
        else .updateNote bctx.gitlabProjectId iid noteId body)
    touchCursor env binding
  else pure ()

def applyLocal (binding : BindingRef) (doc : String) (change : Fields) : Async Unit :=
  if change.field "kind" = .str "review" then pure ()
  else do
    let bctx ← Async.loadBinding env binding
    let hulyRef := stripDocPrefix doc
    let mapping ← Async.findByHuly env bctx.workspaceUuid HULY_CLASS_CHAT_MESSAGE hulyRef
    if (mapping.map IdMapDoc.gitlabKind) = some .review_thread then pure ()
    else do
      let parent ← resolveParent env bctx change
      match parent with
      | none => pure ()
      | some parent =>
          match mapping with
          | none => createRemote env binding bctx hulyRef parent (change.field "message")
          | some row =>
              match parseIid row.gitlabId with
              | none => pure ()
              | some noteId => changeRemote env binding bctx noteId parent change

theorem toEffect_resolveParent (bctx : BindingContext) (change : Fields) :
    (resolveParent env bctx change).toEffect = Notes.resolveParent env bctx change := by
  simp only [resolveParent, Notes.resolveParent, Coroutine.toEffect_ite, Coroutine.toEffect_bind,
    Coroutine.toEffect_pure, Async.toEffect_findByHuly]
  congr 1
  refine bind_congr fun parentMap => ?_
  cases parentMap with
  | none => rfl
  | some row =>
    dsimp only
    cases parseProjectIid row.gitlabId with
    | none => rfl
    | some ids => rfl

theorem toEffect_createRemote (binding : BindingRef) (bctx : BindingContext) (hulyRef : Ref)
    (parent : LocalParent) (message : JsValue) :
    (createRemote env binding bctx hulyRef parent message).toEffect =
      Notes.createRemote env binding bctx hulyRef parent message := by
  simp only [createRemote, Notes.createRemote, creation, touchCursor, Notes.touchCursor,
    Coroutine.toEffect_ite, Coroutine.toEffect_bind, Coroutine.toEffect_pure,
    Coroutine.toEffect_ofExcept, Async.toEffect_request, Async.toEffect_upsertIdMap,
    Async.toEffect_now, Async.toEffect_setCursor]

theorem toEffect_changeRemote (binding : BindingRef) (bctx : BindingContext) (noteId : Int)
    (parent : LocalParent) (change : Fields) :
    (changeRemote env binding bctx noteId parent change).toEffect =
      Notes.changeRemote env binding bctx noteId parent change := by
  simp only [changeRemote, Notes.changeRemote, touchCursor, Notes.touchCursor,
    Coroutine.toEffect_ite, Coroutine.toEffect_bind, Coroutine.toEffect_pure,
    Coroutine.toEffect_ofExcept, Async.toEffect_request, Async.toEffect_now,
    Async.toEffect_setCursor]

theorem toEffect_applyLocal (binding : BindingRef) (doc : String) (change : Fields) :
    (applyLocal env binding doc change).toEffect = Notes.applyLocal env binding doc change := by
  simp only [applyLocal, Notes.applyLocal, Coroutine.toEffect_ite, Coroutine.toEffect_bind,
    Coroutine.toEffect_pure, Async.toEffect_loadBinding, Async.toEffect_findByHuly,
    toEffect_resolveParent]
  congr 1
  refine bind_congr fun bctx => bind_congr fun mapping => ?_
  congr 1
  refine bind_congr fun parent => ?_
  cases parent with
  | none => rfl
  | some parent =>
    cases mapping with
    | none => exact toEffect_createRemote env _ _ _ _ _
    | some row =>
      dsimp only
      cases parseIid row.gitlabId with
      | none => rfl
      | some noteId => exact toEffect_changeRemote env _ _ _ _ _

end Notes.Awaits

end HulyGitlab
