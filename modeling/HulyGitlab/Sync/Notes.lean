import HulyGitlab.Sync.MergeRequests

/-!
# The note manager

`NotesSyncManager`: the comments of issues and merge requests. A record is
an envelope of the backfill or the body of a Note Hook; line comments are
handed on to the review manager. As for issues, attachments are not mirrored.
-/

namespace HulyGitlab

/-- The `HULY_CLASS_CHAT_MESSAGE` of the id map, which is not the id of the class. -/
def HULY_CLASS_CHAT_MESSAGE : String := "chunter.class.ChatMessage"

def NOTE_RETRY_FLAG : String := "_noteRetried"

def REVIEW_RETRY_FLAG : String := "_reviewRetried"

/-- `markAndRetry`: the marked record, or nothing when it was marked before. -/
def markAndRetry (record : Fields) (flagKey : String) : Option Fields :=
  if record.field flagKey = .bool true then none else some (record.set flagKey (.bool true))

/-- The row that mirrors an issue or a merge request of the project. -/
def findParent (env : Env) (bctx : BindingContext) (kind : GitlabKind) (iid : JsValue) :
    Sync (Option IdMapDoc) :=
  Sync.findByGitlab env bctx.workspaceUuid kind (projectKey env bctx iid)

namespace Notes

variable (env : Env)

/-- A typed value, or another one when its type is not the expected one. -/
def stringOr (v alternative : JsValue) : JsValue :=
  match v with
  | .str s => .str s
  | _ => alternative

def numberOr (v alternative : JsValue) : JsValue :=
  match v with
  | .num n => .num n
  | _ => alternative

def instantOr (v alternative : JsValue) : JsValue :=
  match v with
  | .date ms => .date ms
  | .str s => .str s
  | _ => alternative

/-- What `parseWebhookPayload` makes of a Note Hook. -/
inductive ParsedNote
  | note (noteableIid note : JsValue)
  | malformedPosition (noteableIid note : JsValue)
  | review (noteableIid note position discussionId : JsValue)

def parseAuthor (author : JsValue) : JsValue :=
  .obj [("id", numberOr (author.get "id") (.num 0)),
    ("username", stringOr (author.get "username") (.str "")),
    ("name", stringOr (author.get "name") (.str "")),
    ("email", stringOr (author.get "email") .null),
    ("avatarUrl", stringOr (author.get "avatar_url") .null),
    ("webUrl", stringOr (author.get "url") (.str ""))]

/-- The adapter note in a hook; missing times are the current one. -/
def parseNote (attrs noteableType : JsValue) (now : Nat) : Fields :=
  [("id", attrs.get "id"), ("body", stringOr (attrs.get "body") (.str "")),
    ("author", parseAuthor (attrs.get "author")),
    ("createdAt", instantOr (attrs.get "created_at") (.date now)),
    ("updatedAt", instantOr (attrs.get "updated_at") (.date now)),
    ("system", .bool (attrs.get "system" = .bool true)),
    ("confidential", .bool (attrs.get "confidential" = .bool true)),
    ("noteableType", noteableType)]

def parsePosition (pos : JsValue) : JsValue :=
  .obj [("filePath", stringOr (pos.get "new_path") (stringOr (pos.get "old_path") (.str ""))),
    ("oldLine", numberOr (pos.get "old_line") .null),
    ("newLine", numberOr (pos.get "new_line") .null), ("baseSha", pos.get "base_sha"),
    ("headSha", pos.get "head_sha"), ("startSha", pos.get "start_sha"),
    ("positionType", .str "text")]

def isString : JsValue → Bool
  | .str _ => true
  | _ => false

/-- The type of the parent; other noteables are rejected. -/
def parseNoteableType (noteableType : JsValue) : Option JsValue :=
  if noteableType = .undefined ∨ noteableType = .str "Issue" then some (.str "Issue")
  else if noteableType = .str "MergeRequest" then some (.str "MergeRequest")
  else none

def parseWebhookPayload (record : Fields) (now : Nat) : Option ParsedNote :=
  let a := record.field "object_attributes"
  if ¬ a.isObject ∨ ¬ (a.get "id").isNumber then none
  else
    match parseNoteableType (a.get "noteable_type") with
    | none => none
    | some noteableType =>
        let parent :=
          if noteableType = .str "MergeRequest" then record.field "merge_request"
          else record.field "issue"
        let noteableIid := parent.get "iid"
        if ¬ noteableIid.isNumber then none
        else
          let note := parseNote a noteableType now
          let pos := a.get "position"
          if noteableType = .str "MergeRequest" ∧ pos.get "position_type" = .str "text" then
            if ¬ isString (pos.get "head_sha") ∨ ¬ isString (pos.get "base_sha") ∨
                ¬ isString (pos.get "start_sha") then
              some (.malformedPosition noteableIid (.obj note))
            else
              let position := parsePosition pos
              some (.review noteableIid (.obj (note.set "position" position)) position
                (stringOr (a.get "discussion_id") .undefined))
          else some (.note noteableIid (.obj note))

/-- The thread with one note that stands for a line comment. -/
def reviewEnvelope (bctx : BindingContext) (noteableIid note position discussionId : JsValue) :
    Fields :=
  [("discussionId", discussionId.orElse (.str ("note:" ++ (note.get "id").text))),
    ("mergeRequestIid", noteableIid), ("projectId", .num bctx.gitlabProjectId),
    ("resolved", .bool false), ("resolvedBy", .null), ("resolvedAt", .null),
    ("updatedAt", note.get "updatedAt"),
    ("notes", .arr [.obj [("id", note.get "id"), ("body", note.get "body"),
      ("author", note.get "author"), ("createdAt", note.get "createdAt"),
      ("updatedAt", note.get "updatedAt"), ("system", note.get "system"),
      ("resolvable", .bool true), ("resolved", .bool false), ("position", position)]])]

/-- `${prefix}:${projectId}:${noteableIid}:${id}`. -/
def eventIdOf (pref : String) (bctx : BindingContext) (noteableIid id : JsValue) : String :=
  pref ++ ":" ++ toString bctx.gitlabProjectId ++ ":" ++ noteableIid.text ++ ":" ++ id.text

/-- The record was deferred before, under either flag. -/
def retried (rawRecord : Fields) : Prop :=
  rawRecord.field NOTE_RETRY_FLAG = .bool true ∨ rawRecord.field REVIEW_RETRY_FLAG = .bool true

instance (rawRecord : Fields) : Decidable (retried rawRecord) :=
  inferInstanceAs (Decidable (_ ∨ _))

/-- A line comment goes to the review manager, or is deferred once until its merge request is
mirrored. -/
def routeReview (binding : BindingRef) (rawRecord : Fields)
    (noteableIid note position discussionId : JsValue) : Sync Unit := do
  let bctx ← Sync.loadBinding env binding
  let parentMapping ← findParent env bctx .merge_request noteableIid
  let version := (note.get "updatedAt").text
  match parentMapping with
  | none =>
      if retried rawRecord then pure ()
      else
        Sync.enqueueRecord
          ⟨binding, "note", rawRecord.set REVIEW_RETRY_FLAG (.bool true),
            eventIdOf "deferred:review" bctx noteableIid (note.get "id"), version⟩
  | some _ =>
      let envelope := reviewEnvelope bctx noteableIid note position discussionId
      Sync.enqueueRecord
        ⟨binding, "review",
          if retried rawRecord then envelope.set REVIEW_RETRY_FLAG (.bool true) else envelope,
          eventIdOf "review" bctx noteableIid (note.get "id"), version⟩

def messageAttributes (parentRef : Ref) (message author : JsValue) (createdAt updatedAt : JsDate) :
    Fields :=
  withOriginatedMarker
    [("attachedTo", .str parentRef), ("attachedToClass", .str issueClass),
      ("collection", .str "comments"), ("message", message), ("modifiedBy", author),
      ("modifiedOn", timeValue updatedAt), ("createdBy", author),
      ("createdOn", timeValue createdAt)]

def updateAttributes (message author : JsValue) (updatedAt : JsDate) : Fields :=
  withOriginatedMarker
    [("message", message), ("modifiedOn", timeValue updatedAt), ("modifiedBy", author)]

def createFromRemote (binding : BindingRef) (bctx : BindingContext) (gitlabId : String)
    (parentRef : Ref) (message author : JsValue) (createdAt updatedAt : JsDate) : Sync Unit := do
  let msgRef ← Sync.createDoc env chatMessageClass bctx.hulyProjectRef
    (messageAttributes parentRef message author createdAt updatedAt)
  Sync.upsertIdMap env ⟨bctx.workspaceUuid, .note, gitlabId, HULY_CLASS_CHAT_MESSAGE, msgRef⟩
  Sync.setCursor env binding .notes updatedAt

/-- The local side of the comparison is the cursor of the binding. -/
def updateFromRemote (binding : BindingRef) (hulyRef : Ref) (message author : JsValue)
    (remoteTs : JsDate) : Sync Unit := do
  let cursor ← Sync.getCursor env binding .notes
  if remoteTs.after (some (cursor.getD 0)) then do
    Sync.updateDoc env hulyRef (updateAttributes message author remoteTs)
    Sync.setCursor env binding .notes remoteTs
  else pure ()

/-- The kind of the parent's row; notes without a type belong to issues. -/
def parentKind (note : JsValue) : GitlabKind :=
  if (note.get "noteableType").orElse (.str "Issue") = .str "MergeRequest" then .merge_request
  else .issue

/-- A note whose parent is mirrored. -/
def applyMapped (binding : BindingRef) (bctx : BindingContext) (parentRef : Ref) (note : JsValue) :
    Sync Unit := do
  let gitlabId := projectKey env bctx (note.get "id")
  let existing ← Sync.findByGitlab env bctx.workspaceUuid .note gitlabId
  let body ← Effect.ofExcept (note.get "body").asStr
  let message := JsValue.str (env.gfmMarkdownToMarkup body (issueRefUrl bctx) (imageUrl bctx))
  let author ← UserIdentity.resolveUser env bctx.workspaceUuid (note.get "author")
  let updatedAt := (note.get "updatedAt").getTime
  match existing with
  | none =>
      createFromRemote env binding bctx gitlabId parentRef message (.str author)
        (note.get "createdAt").getTime updatedAt
  | some row => updateFromRemote env binding row.hulyRef message (.str author) updatedAt

def applyNote (binding : BindingRef) (rawRecord : Fields) (noteableIid note : JsValue) :
    Sync Unit := do
  let system ← Effect.ofExcept (note.prop "system")
  if system.truthy then pure ()
  else do
    let bctx ← Sync.loadBinding env binding
    let parent ← findParent env bctx (parentKind note) noteableIid
    match parent with
    | some row => applyMapped env binding bctx row.hulyRef note
    | none =>
        match markAndRetry rawRecord NOTE_RETRY_FLAG with
        | none => pure ()
        | some marked =>
            Sync.enqueueRecord
              ⟨binding, "note", marked, eventIdOf "deferred" bctx noteableIid (note.get "id"),
                (note.get "updatedAt").text⟩

def applyRemote (binding : BindingRef) (rawRecord : Fields) : Sync Unit :=
  if (rawRecord.field "noteableIid").isNumber ∧ rawRecord.field "note" ≠ .undefined then
    applyNote env binding rawRecord (rawRecord.field "noteableIid") (rawRecord.field "note")
  else do
    let now ← Effect.gets World.now
    match parseWebhookPayload rawRecord now with
    | none => pure ()
    | some (.malformedPosition _ _) => pure ()
    | some (.review noteableIid note position discussionId) =>
        routeReview env binding rawRecord noteableIid note position discussionId
    | some (.note noteableIid note) => applyNote env binding rawRecord noteableIid note

/-- The issue or merge request a local change belongs to. -/
structure LocalParent where
  iid : JsValue
  isMR : Bool

/-- The parent by the hint of the change and by the document it is attached to; nothing when that
document is not mirrored and there is no hint. -/
def resolveParent (bctx : BindingContext) (change : Fields) : Sync (Option LocalParent) :=
  let hintIid := change.field "noteableIid"
  let hulyAttachedTo := (change.field "hulyMessage").get "attachedTo"
  if hulyAttachedTo = .undefined then pure (some ⟨hintIid, false⟩)
  else do
    let parentMap ← Sync.findByHuly env bctx.workspaceUuid issueClass hulyAttachedTo.text
    match parentMap with
    | none => pure (if hintIid = .undefined then none else some ⟨hintIid, false⟩)
    | some row =>
        match parseProjectIid row.gitlabId with
        | none => pure (some ⟨hintIid, false⟩)
        | some (_, iid) =>
            pure (some ⟨if hintIid = .undefined then .num iid else hintIid,
              row.gitlabKind = .merge_request⟩)

def touchCursor (binding : BindingRef) : Sync Unit := do
  let now ← Effect.gets World.now
  Sync.setCursor env binding .notes (some now)

def createRemote (binding : BindingRef) (bctx : BindingContext) (hulyRef : Ref)
    (parent : LocalParent) (message : JsValue) : Sync Unit :=
  if message = .undefined ∨ parent.iid = .undefined then pure ()
  else do
    let text ← Effect.ofExcept
      (env.markupToGfmMarkdown message (issueRefUrl bctx) (imageUrl bctx))
    let iid ← Effect.ofExcept parent.iid.asNum
    let body : Fields := [("body", .str text)]
    let created ← Sync.request env
      (if parent.isMR then .createMRNote bctx.gitlabProjectId iid body
        else .createNote bctx.gitlabProjectId iid body)
    let id ← Effect.ofExcept (created.prop "id")
    Sync.upsertIdMap env
      ⟨bctx.workspaceUuid, .note, projectKey env bctx id, HULY_CLASS_CHAT_MESSAGE, hulyRef⟩
    touchCursor env binding

/-- An edit or a removal of a mapped note. -/
def changeRemote (binding : BindingRef) (bctx : BindingContext) (noteId : Int)
    (parent : LocalParent) (change : Fields) : Sync Unit :=
  let issueIid := (change.field "issueIid").orElse (change.field "noteableIid")
  let message := change.field "message"
  if issueIid = .undefined then pure ()
  else if change.field "deleted" = .bool true then do
    let iid ← Effect.ofExcept issueIid.asNum
    let _ ← Sync.request env
      (if parent.isMR then .deleteMRNote bctx.gitlabProjectId iid noteId
        else .deleteNote bctx.gitlabProjectId iid noteId)
    touchCursor env binding
  else if message ≠ .undefined then do
    let text ← Effect.ofExcept
      (env.markupToGfmMarkdown message (issueRefUrl bctx) (imageUrl bctx))
    let iid ← Effect.ofExcept issueIid.asNum
    let body : Fields := [("body", .str text)]
    let _ ← Sync.request env
      (if parent.isMR then .updateMRNote bctx.gitlabProjectId iid noteId body
        else .updateNote bctx.gitlabProjectId iid noteId body)
    touchCursor env binding
  else pure ()

def applyLocal (binding : BindingRef) (doc : String) (change : Fields) : Sync Unit :=
  if change.field "kind" = .str "review" then pure ()
  else do
    let bctx ← Sync.loadBinding env binding
    let hulyRef := stripDocPrefix doc
    let mapping ← Sync.findByHuly env bctx.workspaceUuid HULY_CLASS_CHAT_MESSAGE hulyRef
    if (mapping.map IdMapDoc.gitlabKind) = some .review_thread then pure ()
    else do
      let parent ← resolveParent env bctx change
      match parent with
      | none => pure ()
      | some parent =>
          match mapping with
          | none => createRemote env binding bctx hulyRef parent (change.field "message")
          | some row =>
              match parseIid row.gitlabId with
              | none => pure ()
              | some noteId => changeRemote env binding bctx noteId parent change

end Notes

end HulyGitlab
