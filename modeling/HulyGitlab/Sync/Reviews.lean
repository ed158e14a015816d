import HulyGitlab.Sync.Notes

/-!
# The review manager

`ReviewThreadsSyncManager`: the discussions of a merge request. Each note of
a thread has a message and a row of its own, and every message carries the
state of the thread in its mixin.
-/

namespace HulyGitlab

def MR_REVIEW_THREAD_MIXIN : String := "gitlab-review"

namespace Reviews

variable (env : Env)

/-- `${discussionId}:${noteId}`, which is never prefixed. -/
def noteIdmapKey (discussionId noteId : JsValue) : String := discussionId.text ++ ":" ++ noteId.text

/-- The state of a thread that every message of it carries. -/
structure ThreadState where
  threadId : JsValue
  resolved : JsValue
  resolvedBy : JsValue
  resolvedAt : JsValue

/-- An unresolved thread clears who resolved it. -/
def ThreadState.attributes (t : ThreadState) : Fields :=
  [("threadId", t.threadId), ("resolved", t.resolved)] ++
    if t.resolved.truthy then given "resolvedBy" t.resolvedBy ++ given "resolvedAt" t.resolvedAt
    else [("resolvedBy", .undefined), ("resolvedAt", .undefined)]

/-- The position goes to the root note only. -/
def mixinAttributes (t : ThreadState) (note rootNoteId : JsValue) : Fields :=
  t.attributes ++ if note.get "id" = rootNoteId then given "position" (note.get "position") else []

/-- `resolvePerson`: an account, never a stub guest. -/
def resolvePerson (user : JsValue) : Sync JsValue := do
  let identity ← Effect.ofExcept (UserIdentity.identityOf user)
  let matched ← UserIdentity.mapByGitlabUser env identity
  pure (match matched with
    | some ref => .str ref
    | none => .undefined)

def createMessage (bctx : BindingContext) (key : String) (parentRef : Ref)
    (message author : JsValue) (createdAt updatedAt : JsDate) : Sync Ref := do
  let messageRef ← Sync.createDoc env chatMessageClass bctx.hulyProjectRef
    (Notes.messageAttributes parentRef message author createdAt updatedAt)
  Sync.upsertIdMap env
    ⟨bctx.workspaceUuid, .review_thread, key, HULY_CLASS_CHAT_MESSAGE, messageRef⟩
  pure messageRef

/-- The clock of a message; a missing message has none. -/
def messageTs (message : Option HulyDoc) : JsDate :=
  match message with
  | some doc =>
      match doc.attrs.field "modifiedOn" with
      | .undefined => some 0
      | .null => some 0
      | ts => ts.getTime
  | none => some 0

def messageBody (message : Option HulyDoc) : JsValue :=
  match message with
  | some doc => doc.attrs.field "message"
  | none => .undefined

/-- LWW on the body, by the clock of the message itself. -/
def updateMessage (messageRef : Ref) (message author : JsValue) (updatedAt : JsDate) :
    Sync Unit := do
  let hulyMessage ← Sync.findOne env chatMessageClass messageRef
  if updatedAt.after (messageTs hulyMessage) ∧ messageBody hulyMessage ≠ message then
    Sync.updateDoc env messageRef (Notes.updateAttributes message author updatedAt)
  else pure ()

/-- The message of a note: the mirror it has, or a new one. -/
def putMessage (bctx : BindingContext) (existing : Option IdMapDoc) (key : String)
    (parentRef : Ref) (message author : JsValue) (createdAt updatedAt : JsDate) : Sync Ref :=
  match existing with
  | none => createMessage env bctx key parentRef message author createdAt updatedAt
  | some row => do
      updateMessage env row.hulyRef message author updatedAt
      pure row.hulyRef

/-- Who resolved the thread, if somebody did. -/
def resolvedByOf (resolvedBy : JsValue) : Sync JsValue :=
  if resolvedBy = .null then pure .undefined else resolvePerson env resolvedBy

def resolvedAtOf (resolvedAt : JsValue) : Except Err JsValue :=
  if resolvedAt = .null then .ok .undefined else resolvedAt.epochMs

/-- One round of the loop over the notes of a thread. -/
def applyThreadNote (bctx : BindingContext) (parentRef : Ref) (thread : ThreadState)
    (rootNoteId note : JsValue) : Sync Unit := do
  let system ← Effect.ofExcept (note.prop "system")
  if system.truthy then pure ()
  else do
    let key := noteIdmapKey thread.threadId (note.get "id")
    let existing ← Sync.findByGitlab env bctx.workspaceUuid .review_thread key
    let body ← Effect.ofExcept (note.get "body").asStr
    let message :=
      JsValue.str (env.gfmMarkdownToMarkup body (mergeRequestRefUrl bctx) (imageUrl bctx))
    let author ← UserIdentity.resolveUser env bctx.workspaceUuid (note.get "author")
    let _ ← Effect.ofExcept (note.get "createdAt").epochMs
    let _ ← Effect.ofExcept (note.get "updatedAt").epochMs
    let createdAt := (note.get "createdAt").getTime
    let updatedAt := (note.get "updatedAt").getTime
    let messageRef ← putMessage env bctx existing key parentRef message (.str author) createdAt
      updatedAt
    Sync.putMixin env messageRef MR_REVIEW_THREAD_MIXIN
      (withOriginatedMarker (mixinAttributes thread note rootNoteId))

/-- A thread without its merge request is deferred once. -/
def deferThread (binding : BindingRef) (bctx : BindingContext) (syncThread : Fields) :
    Sync Unit :=
  match markAndRetry syncThread REVIEW_RETRY_FLAG with
  | none => pure ()
  | some marked => do
      let version ← Effect.ofExcept (syncThread.field "updatedAt").toISOString
      Sync.enqueueRecord
        ⟨binding, "review", marked,
          Notes.eventIdOf "deferred:review" bctx (syncThread.field "mergeRequestIid")
            (syncThread.field "discussionId"), version.text⟩

/-- A thread whose merge request is mirrored. -/
def applyMapped (binding : BindingRef) (bctx : BindingContext) (parentRef : Ref)
    (syncThread : Fields) : Sync Unit := do
  let resolvedBy ← resolvedByOf env (syncThread.field "resolvedBy")
  let resolvedAt ← Effect.ofExcept (resolvedAtOf (syncThread.field "resolvedAt"))
  let notes ← Effect.ofExcept (syncThread.field "notes").elements
  let rootNoteId := match notes with
    | [] => .undefined
    | root :: _ => root.get "id"
  let thread : ThreadState :=
    ⟨syncThread.field "discussionId", syncThread.field "resolved", resolvedBy, resolvedAt⟩
  Effect.forEach (applyThreadNote env bctx parentRef thread rootNoteId) notes
  Sync.setCursor env binding .reviews (syncThread.field "updatedAt").getTime

def applyRemote (binding : BindingRef) (syncThread : Fields) : Sync Unit := do
  let bctx ← Sync.loadBinding env binding
  let parentMapping ← findParent env bctx .merge_request (syncThread.field "mergeRequestIid")
  match parentMapping with
  | none => deferThread binding bctx syncThread
  | some row => applyMapped env binding bctx row.hulyRef syncThread

/-- Only resolution flips are pushed. -/
def applyLocal (binding : BindingRef) (doc : String) (change : Fields) : Sync Unit :=
  if change.field "resolved" = .undefined then pure ()
  else do
    let bctx ← Sync.loadBinding env binding
    let hulyRef := stripDocPrefix doc
    let mapping ← Sync.findByHuly env bctx.workspaceUuid HULY_CLASS_CHAT_MESSAGE hulyRef
    match mapping with
    | none => pure ()
    | some row =>
        if row.gitlabKind ≠ .review_thread then pure ()
        else
          match parseDiscussionNoteKey row.gitlabId with
          | none => pure ()
          | some (discussionId, _) =>
              let mrIidHint := change.field "mergeRequestIid"
              if mrIidHint = .undefined then pure ()
              else do
                let iid ← Effect.ofExcept mrIidHint.asNum
                let _ ← Sync.request env (.resolveDiscussion bctx.gitlabProjectId iid discussionId
                  (change.field "resolved" = .bool true))
                let now ← Effect.gets World.now
                Sync.setCursor env binding .reviews (some now)

end Reviews

end HulyGitlab
