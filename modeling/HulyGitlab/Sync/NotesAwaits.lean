import HulyGitlab.Sync.Awaits
import HulyGitlab.Sync.Notes

/-!
# The note manager, await by await
-/

namespace HulyGitlab

namespace Notes.Awaits

variable (env : Env)

def findParent (bctx : BindingContext) (kind : GitlabKind) (iid : JsValue) :
    Async (Option IdMapDoc) :=
  Async.findByGitlab env bctx.workspaceUuid kind (projectKey env bctx iid)

def routeReview (binding : BindingRef) (rawRecord : Fields)
    (noteableIid note position discussionId : JsValue) : Async Unit := do
  let bctx ← Async.loadBinding env binding
  let parentMapping ← findParent env bctx .merge_request noteableIid
  let version := (note.get "updatedAt").text
  match parentMapping with
  | none =>
      if retried rawRecord then pure ()
      else
        Async.enqueueRecord
          ⟨binding, "note", rawRecord.set REVIEW_RETRY_FLAG (.bool true),
            eventIdOf "deferred:review" bctx noteableIid (note.get "id"), version⟩
  | some _ =>
      let envelope := reviewEnvelope bctx noteableIid note position discussionId
      Async.enqueueRecord
        ⟨binding, "review",
          if retried rawRecord then envelope.set REVIEW_RETRY_FLAG (.bool true) else envelope,
          eventIdOf "review" bctx noteableIid (note.get "id"), version⟩

def createFromRemote (binding : BindingRef) (bctx : BindingContext) (gitlabId : String)
    (parentRef : Ref) (message author : JsValue) (createdAt updatedAt : JsDate) :
    Async Unit := do
  let msgRef ← Async.createDoc env chatMessageClass bctx.hulyProjectRef
    (messageAttributes parentRef message author createdAt updatedAt)
  Async.upsertIdMap env
    ⟨bctx.workspaceUuid, .note, gitlabId, HULY_CLASS_CHAT_MESSAGE, msgRef⟩
  Async.setCursor env binding .notes updatedAt

/-- The writes of an update that is newer than the cursor. -/
def writeFromRemote (binding : BindingRef) (hulyRef : Ref) (message author : JsValue)
    (remoteTs : JsDate) : Async Unit := do
  Async.updateDoc env chatMessageClass hulyRef (updateAttributes message author remoteTs)
  Async.setCursor env binding .notes remoteTs

def updateFromRemote (binding : BindingRef) (hulyRef : Ref) (message author : JsValue)
    (remoteTs : JsDate) : Async Unit := do
  let cursor ← Async.getCursor env binding .notes
  if remoteTs.after (some (cursor.getD 0)) then
    writeFromRemote env binding hulyRef message author remoteTs
  else pure ()

def applyMapped (binding : BindingRef) (bctx : BindingContext) (parentRef : Ref)
    (note : JsValue) : Async Unit := do
  let gitlabId := projectKey env bctx (note.get "id")
  let existing ← Async.findByGitlab env bctx.workspaceUuid .note gitlabId
  let body ← Coroutine.ofExcept (note.get "body").asStr
  let message := JsValue.str (env.gfmMarkdownToMarkup body (issueRefUrl bctx) (imageUrl bctx))
  let author ← UserIdentity.Awaits.resolveUser env bctx.workspaceUuid (note.get "author")
  let updatedAt := (note.get "updatedAt").getTime
  match existing with
  | none =>
      createFromRemote env binding bctx gitlabId parentRef message (.str author)
        (note.get "createdAt").getTime updatedAt
  | some row => updateFromRemote env binding row.hulyRef message (.str author) updatedAt

def applyNote (binding : BindingRef) (rawRecord : Fields) (noteableIid note : JsValue) :
    Async Unit := do
  let system ← Coroutine.ofExcept (note.prop "system")
  if system.truthy then pure ()
  else do
    let bctx ← Async.loadBinding env binding
    let parent ← findParent env bctx (parentKind note) noteableIid
    match parent with
    | some row => applyMapped env binding bctx row.hulyRef note
    | none =>
        match markAndRetry rawRecord NOTE_RETRY_FLAG with
        | none => pure ()
        | some marked =>
            Async.enqueueRecord
              ⟨binding, "note", marked, eventIdOf "deferred" bctx noteableIid (note.get "id"),
                (note.get "updatedAt").text⟩

def applyRemote (binding : BindingRef) (rawRecord : Fields) : Async Unit :=
  if (rawRecord.field "noteableIid").isNumber ∧ rawRecord.field "note" ≠ .undefined then
    applyNote env binding rawRecord (rawRecord.field "noteableIid") (rawRecord.field "note")
  else do
    let now ← Async.now
    match parseWebhookPayload rawRecord now with
    | none => pure ()
    | some (.malformedPosition _ _) => pure ()
    | some (.review noteableIid note position discussionId) =>
        routeReview env binding rawRecord noteableIid note position discussionId
    | some (.note noteableIid note) => applyNote env binding rawRecord noteableIid note

theorem toEffect_routeReview (binding : BindingRef) (rawRecord : Fields)
    (noteableIid note position discussionId : JsValue) :
    (routeReview env binding rawRecord noteableIid note position discussionId).toEffect =
      Notes.routeReview env binding rawRecord noteableIid note position discussionId := by
  simp only [routeReview, Notes.routeReview, findParent, Coroutine.toEffect_bind,
    Async.toEffect_loadBinding, Async.toEffect_findByGitlab, HulyGitlab.findParent]
  refine bind_congr fun bctx => bind_congr fun parentMapping => ?_
  cases parentMapping with
  | none =>
    simp only [Coroutine.toEffect_ite, Coroutine.toEffect_pure, Async.toEffect_enqueueRecord]
  | some row => rfl

theorem toEffect_createFromRemote (binding : BindingRef) (bctx : BindingContext)
    (gitlabId : String) (parentRef : Ref) (message author : JsValue)
    (createdAt updatedAt : JsDate) :
    (createFromRemote env binding bctx gitlabId parentRef message author createdAt
      updatedAt).toEffect =
      Notes.createFromRemote env binding bctx gitlabId parentRef message author createdAt
        updatedAt := by
  simp only [createFromRemote, Notes.createFromRemote, Coroutine.toEffect_bind,
    Async.toEffect_createDoc, Async.toEffect_upsertIdMap, Async.toEffect_setCursor]

theorem toEffect_updateFromRemote (binding : BindingRef) (hulyRef : Ref)
    (message author : JsValue) (remoteTs : JsDate) :
    (updateFromRemote env binding hulyRef message author remoteTs).toEffect =
      Notes.updateFromRemote env binding hulyRef message author remoteTs := by
  simp only [updateFromRemote, Notes.updateFromRemote, writeFromRemote,
    Coroutine.toEffect_bind, Coroutine.toEffect_ite, Coroutine.toEffect_pure,
    Async.toEffect_getCursor, Async.toEffect_updateDoc, Async.toEffect_setCursor]

theorem toEffect_applyMapped (binding : BindingRef) (bctx : BindingContext) (parentRef : Ref)
    (note : JsValue) :
    (applyMapped env binding bctx parentRef note).toEffect =
      Notes.applyMapped env binding bctx parentRef note := by
  simp only [applyMapped, Notes.applyMapped, Coroutine.toEffect_bind,
    Async.toEffect_findByGitlab, Coroutine.toEffect_ofExcept, UserIdentity.Awaits.toEffect_resolveUser]
  refine bind_congr fun existing => bind_congr fun body => bind_congr fun author => ?_
  cases existing with
  | none => exact toEffect_createFromRemote env binding bctx _ parentRef _ _ _ _
  | some row => exact toEffect_updateFromRemote env binding row.hulyRef _ _ _

theorem toEffect_applyNote (binding : BindingRef) (rawRecord : Fields)
    (noteableIid note : JsValue) :
    (applyNote env binding rawRecord noteableIid note).toEffect =
      Notes.applyNote env binding rawRecord noteableIid note := by
  simp only [applyNote, Notes.applyNote, findParent, Coroutine.toEffect_bind,
    Coroutine.toEffect_ofExcept, Coroutine.toEffect_ite, Coroutine.toEffect_pure,
    Async.toEffect_loadBinding, Async.toEffect_findByGitlab, HulyGitlab.findParent]
  refine bind_congr fun system => ?_
  congr 1
  refine bind_congr fun bctx => bind_congr fun parent => ?_
  cases parent with
  | some row => exact toEffect_applyMapped env binding bctx row.hulyRef note
  | none =>
    cases markAndRetry rawRecord NOTE_RETRY_FLAG with
    | none => rfl
    | some marked => rfl

/-- Without anything in between, the segments are the handler. -/
theorem toEffect_applyRemote (binding : BindingRef) (rawRecord : Fields) :
    (applyRemote env binding rawRecord).toEffect = Notes.applyRemote env binding rawRecord := by
  simp only [applyRemote, Notes.applyRemote, Coroutine.toEffect_ite, Coroutine.toEffect_bind,
    Async.toEffect_now, toEffect_applyNote]
  congr 1
  refine bind_congr fun now => ?_
  cases parseWebhookPayload rawRecord now with
  | none => rfl
  | some parsed =>
    cases parsed with
    | note noteableIid note => exact toEffect_applyNote env binding rawRecord noteableIid note
    | malformedPosition noteableIid note => rfl
    | review noteableIid note position discussionId =>
      exact toEffect_routeReview env binding rawRecord noteableIid note position discussionId

end Notes.Awaits

end HulyGitlab
