import HulyGitlab.Lib.Effect
import HulyGitlab.Lib.OrderedMap
import HulyGitlab.State.IdMap
import Mathlib.Algebra.Order.BigOperators.Group.List
import Mathlib.Algebra.Order.Group.Nat
import Mathlib.Algebra.Ring.Nat

/-!
# The state a sync manager works on

The collections of the store, the documents of the Huly platform, the
requests sent to GitLab and the records handed back to the engine. The
services the program calls are parameters, gathered in `Env`; any call to
the store or to the platform may fail.
-/

namespace HulyGitlab

abbrev BindingRef := String

inductive CursorKind
  | issues
  | notes
  | merge_requests
  | pipelines
  | reviews
  | epics
  | iterations
  deriving DecidableEq

/-- A document of the platform. `attrs` holds its attributes, `modifiedOn` among them. -/
structure HulyDoc where
  objectClass : String
  space : Ref
  attrs : Fields
  mixins : OrderedMap String Fields
  deriving DecidableEq

structure Status where
  _id : Ref
  category : Option String
  deriving DecidableEq

inductive IssueState
  | opened
  | closed
  deriving DecidableEq

/-- The entry of `status-map.ts` for a project. -/
structure ProjectCacheEntry where
  opened : Option Ref
  closed : Option Ref
  inverse : OrderedMap Ref IssueState
  deriving DecidableEq

/-- The calls of the GitLab client that the managers make. -/
inductive GitLabRequest
  | listLabels (projectId : Int)
  | createLabel (projectId : Int) (body : Fields)
  | listMilestones (projectId : Int)
  | createMilestone (projectId : Int) (body : Fields)
  | createIssue (projectId : Int) (body : Fields)
  | updateIssue (projectId iid : Int) (body : Fields)
  | updateMergeRequest (projectId iid : Int) (body : Fields)
  | getMRApprovals (projectId iid : Int)
  | approveMR (projectId iid : Int) (actorToken : Option String)
  | unapproveMR (projectId iid : Int) (actorToken : Option String)
  | createNote (projectId iid : Int) (body : Fields)
  | updateNote (projectId iid noteId : Int) (body : Fields)
  | deleteNote (projectId iid noteId : Int)
  | createMRNote (projectId iid : Int) (body : Fields)
  | updateMRNote (projectId iid noteId : Int) (body : Fields)
  | deleteMRNote (projectId iid noteId : Int)
  | resolveDiscussion (projectId iid : Int) (discussionId : String) (resolved : Bool)
  deriving DecidableEq

/-- The arguments of an `enqueueWebhookEvent` call. -/
structure EnqueuedRecord where
  binding : BindingRef
  kind : String
  record : Fields
  eventId : String
  version : String
  deriving DecidableEq

structure World where
  idmap : IdMap
  cursors : OrderedMap (BindingRef × CursorKind) Nat
  docs : OrderedMap Ref HulyDoc
  /-- The module-level cache of `status-map.ts`. -/
  statusCache : OrderedMap String ProjectCacheEntry
  requests : List GitLabRequest
  enqueued : List EnqueuedRecord
  /-- The keys asked of the id map, in order. -/
  lookups : List (GitlabKind × String)
  /-- `Date.now()`. -/
  now : Nat
  deriving DecidableEq

/-- The same documents with their mixins, the same rows and the same cursors. -/
structure SameData (w w' : World) : Prop where
  docs : w'.docs = w.docs
  idmap : w'.idmap = w.idmap
  cursors : w'.cursors = w.cursors

theorem SameData.refl (w : World) : SameData w w := ⟨rfl, rfl, rfl⟩

theorem SameData.trans (w₁ w₂ w₃ : World) (h : SameData w₁ w₂) (h' : SameData w₂ w₃) :
    SameData w₁ w₃ :=
  ⟨h'.docs.trans h.docs, h'.idmap.trans h.idmap, h'.cursors.trans h.cursors⟩

/-- A store and a platform with nothing in them. -/
def World.initial : World := ⟨.empty, .empty, .empty, .empty, [], [], [], 0⟩

/-- What the loader returns for a binding; the forms of the managers are parts of it. -/
structure BindingContext where
  workspaceUuid : String
  gitlabProjectId : Int
  gitlabProjectPath : String
  hulyProjectRef : Ref
  statuses : List Status
  defaultTaskType : Ref
  gitlabBaseUrl : String
  isMultiInstanceWorkspace : Bool
  /-- `capabilities.edition`, when the instance answered the detection. -/
  edition : Option String
  deriving DecidableEq

inductive Service
  | idmap
  | cursors
  | platform
  | account
  deriving DecidableEq

/-- The services and library functions the program calls. -/
structure Env where
  /-- `String.prototype.toLowerCase`. -/
  toLowerCase : String → String
  gfmMarkdownToMarkup : String → String → String → String
  markupToGfmMarkdown : JsValue → String → String → Except Err String
  /-- The first eight hex digits of the SHA-256 of a text. -/
  hash8 : String → String
  /-- The account the account service has for a social key. -/
  findPersonBySocialKey : String → Option Ref
  /-- The id the platform gives to a new document. -/
  generateId : List Ref → Ref
  generateId_fresh : ∀ ids, generateId ids ∉ ids
  loadBinding : BindingRef → Except Err BindingContext
  /-- The GitLab token linked to a person of a workspace, when there is a usable one. -/
  resolveActorToken : String → JsValue → Except Err (Option String)
  /-- The answer of GitLab to a request, after the requests before it. -/
  gitlab : List GitLabRequest → GitLabRequest → Except Err JsValue
  /-- The error a call to a service ends with, if it fails. -/
  fault : World → Service → Option Err

/-- No call to the store, the platform or the account service fails. -/
def Env.Healthy (env : Env) : Prop := ∀ w service, env.fault w service = none

/-- A text longer than each of the given ones. -/
def longerText (texts : List String) : String :=
  String.ofList (List.replicate ((texts.map String.length).sum + 1) 'x')

theorem longerText_fresh (texts : List String) : longerText texts ∉ texts := by
  intro hmem
  have hle : (longerText texts).length ≤ (texts.map String.length).sum :=
    List.le_sum_of_mem (List.mem_map_of_mem hmem)
  have hlen : (longerText texts).length = (texts.map String.length).sum + 1 := by
    simp [longerText]
  omega

/-- Services that answer every call for one binding: bodies are translated as
they are, nobody has an account, and GitLab answers with an empty object. -/
def Env.quiet (bctx : BindingContext) : Env where
  toLowerCase s := String.ofList (s.toList.map Char.toLower)
  gfmMarkdownToMarkup s _ _ := s
  markupToGfmMarkdown v _ _ := v.asStr
  hash8 s := s
  findPersonBySocialKey _ := none
  generateId := longerText
  generateId_fresh := longerText_fresh
  loadBinding _ := .ok bctx
  resolveActorToken _ _ := .ok none
  gitlab _ _ := .ok (.obj [])
  fault _ _ := none

/-- A project with one open and one closed status. -/
def quietBinding : BindingContext where
  workspaceUuid := "ws"
  gitlabProjectId := 7
  gitlabProjectPath := "group/project"
  hulyProjectRef := "project"
  statuses := [⟨"status:open", some "Active"⟩, ⟨"status:done", some "Done"⟩]
  defaultTaskType := "task"
  gitlabBaseUrl := "https://gitlab"
  isMultiInstanceWorkspace := false
  edition := none

theorem Env.quiet_healthy (bctx : BindingContext) : (Env.quiet bctx).Healthy := fun _ _ => rfl

/-- An asynchronous function of a sync manager. -/
abbrev Sync := Effect Err World

namespace Sync

variable (env : Env)

/-- A call to a service, which may fail before it does anything. -/
def reach (service : Service) : Sync Unit := Effect.step fun w =>
  match env.fault w service with
  | some e => (.error e, w)
  | none => (.ok (), w)

def loadBinding (binding : BindingRef) : Sync BindingContext :=
  Effect.ofExcept (env.loadBinding binding)

def findByGitlab (workspaceUuid : String) (gitlabKind : GitlabKind) (gitlabId : String) :
    Sync (Option IdMapDoc) := do
  Effect.modify fun w => { w with lookups := w.lookups ++ [(gitlabKind, gitlabId)] }
  reach env .idmap
  Effect.gets fun w => w.idmap.findByGitlab workspaceUuid gitlabKind gitlabId

def findByHuly (workspaceUuid hulyClass : String) (hulyRef : Ref) : Sync (Option IdMapDoc) := do
  reach env .idmap
  Effect.gets fun w => w.idmap.findByHuly workspaceUuid hulyClass hulyRef

def upsertIdMap (doc : IdMapDoc) : Sync Unit := do
  reach env .idmap
  Effect.step fun w =>
    match w.idmap.upsert doc with
    | .ok idmap => (.ok (), { w with idmap := idmap })
    | .error e => (.error e, w)

def getCursor (bindingId : BindingRef) (kind : CursorKind) : Sync (Option Nat) := do
  reach env .cursors
  Effect.gets fun w => w.cursors.get? (bindingId, kind)

/-- An invalid date is stored as the epoch. -/
def setCursor (bindingId : BindingRef) (kind : CursorKind) (updatedAfter : Option Nat) :
    Sync Unit := do
  reach env .cursors
  Effect.modify fun w =>
    { w with cursors := w.cursors.set (bindingId, kind) (updatedAfter.getD 0) }

/-- `findOne(objectClass, { _id })`. -/
def findOne (objectClass : String) (ref : Ref) : Sync (Option HulyDoc) := do
  reach env .platform
  Effect.gets fun w => (w.docs.get? ref).filter fun doc => doc.objectClass = objectClass

/-- `findAll(objectClass, {})`. -/
def findAll (objectClass : String) : Sync (List (Ref × HulyDoc)) := do
  reach env .platform
  Effect.gets fun w => w.docs.entries.filter fun entry => entry.2.objectClass = objectClass

/-- `createDoc`; the platform stamps `modifiedOn` unless the attributes carry it. -/
def createDoc (objectClass : String) (space : Ref) (attributes : Fields) : Sync Ref := do
  reach env .platform
  Effect.step fun w =>
    let ref := env.generateId w.docs.keys
    let attrs := Fields.assign [("modifiedOn", .num w.now)] attributes
    (.ok ref, { w with docs := w.docs.set ref ⟨objectClass, space, attrs, .empty⟩ })

/-- `updateDoc`; the operations overwrite the attributes they name. -/
def updateDoc (ref : Ref) (operations : Fields) : Sync Unit := do
  reach env .platform
  Effect.modify fun w =>
    match w.docs.get? ref with
    | some doc =>
        { w with docs := w.docs.set ref { doc with attrs := doc.attrs.assign operations } }
    | none => w

/-- `createMixin` and `updateMixin`: the attributes are merged into the mixin. -/
def putMixin (ref : Ref) (mixin : String) (attributes : Fields) : Sync Unit := do
  reach env .platform
  Effect.modify fun w =>
    match w.docs.get? ref with
    | some doc =>
        let mixins := doc.mixins.set mixin (((doc.mixins.get? mixin).getD []).assign attributes)
        { w with docs := w.docs.set ref { doc with mixins := mixins } }
    | none => w

def findPersonBySocialKey (socialKey : String) : Sync (Option Ref) := do
  reach env .account
  pure (env.findPersonBySocialKey socialKey)

def request (r : GitLabRequest) : Sync JsValue := Effect.step fun w =>
  (env.gitlab w.requests r, { w with requests := w.requests ++ [r] })

/-- `backfillEnqueuer`, which is `engine.enqueueWebhookEvent`. -/
def enqueueRecord (e : EnqueuedRecord) : Sync Unit :=
  Effect.modify fun w => { w with enqueued := w.enqueued ++ [e] }

theorem request_run (r : GitLabRequest) (w : World) :
    (request env r).run w = (env.gitlab w.requests r, { w with requests := w.requests ++ [r] }) :=
  rfl

/-- A call fails before anything happens, or it is as if it were not there. -/
theorem reach_bind_cases {A : Type} (service : Service) (f : Unit → Sync A) (w : World) :
    (∃ e, (reach env service >>= f).run w = (.error e, w)) ∨
      (reach env service >>= f).run w = (f ()).run w := by
  unfold reach
  rw [Effect.bind_run, Effect.step_run]
  cases env.fault w service with
  | some e => exact .inl ⟨e, rfl⟩
  | none => exact .inr rfl

theorem findOne_cases (objectClass : String) (ref : Ref) (w : World) :
    (∃ e, (findOne env objectClass ref).run w = (.error e, w)) ∨
      (findOne env objectClass ref).run w =
        (.ok ((w.docs.get? ref).filter fun doc => doc.objectClass = objectClass), w) :=
  reach_bind_cases env .platform _ w

section Healthy

variable {env} (h : env.Healthy)
include h

theorem reach_run (service : Service) (w : World) : (reach env service).run w = (.ok (), w) := by
  simp [reach, h w service]

theorem findByGitlab_run (workspaceUuid : String) (gitlabKind : GitlabKind) (gitlabId : String)
    (w : World) :
    (findByGitlab env workspaceUuid gitlabKind gitlabId).run w =
      (.ok (w.idmap.findByGitlab workspaceUuid gitlabKind gitlabId),
        { w with lookups := w.lookups ++ [(gitlabKind, gitlabId)] }) := by
  simp [findByGitlab, Effect.bind_run, reach_run h]

theorem findByHuly_run (workspaceUuid hulyClass : String) (hulyRef : Ref) (w : World) :
    (findByHuly env workspaceUuid hulyClass hulyRef).run w =
      (.ok (w.idmap.findByHuly workspaceUuid hulyClass hulyRef), w) := by
  simp [findByHuly, Effect.bind_run, reach_run h]

theorem setCursor_run (bindingId : BindingRef) (kind : CursorKind) (updatedAfter : Option Nat)
    (w : World) :
    (setCursor env bindingId kind updatedAfter).run w =
      (.ok (), { w with cursors := w.cursors.set (bindingId, kind) (updatedAfter.getD 0) }) := by
  simp [setCursor, Effect.bind_run, reach_run h]

theorem findOne_run (objectClass : String) (ref : Ref) (w : World) :
    (findOne env objectClass ref).run w =
      (.ok ((w.docs.get? ref).filter fun doc => doc.objectClass = objectClass), w) := by
  simp [findOne, Effect.bind_run, reach_run h]

theorem findAll_run (objectClass : String) (w : World) :
    (findAll env objectClass).run w =
      (.ok (w.docs.entries.filter fun entry => entry.2.objectClass = objectClass), w) := by
  simp [findAll, Effect.bind_run, reach_run h]

theorem createDoc_run (objectClass : String) (space : Ref) (attributes : Fields) (w : World) :
    (createDoc env objectClass space attributes).run w =
      (.ok (env.generateId w.docs.keys),
        { w with
          docs := w.docs.set (env.generateId w.docs.keys) ⟨objectClass, space,
            Fields.assign [("modifiedOn", .num w.now)] attributes, .empty⟩ }) := by
  simp [createDoc, Effect.bind_run, reach_run h]

theorem updateDoc_run {ref : Ref} {doc : HulyDoc} (operations : Fields) (w : World)
    (hdoc : w.docs.get? ref = some doc) :
    (updateDoc env ref operations).run w =
      (.ok (),
        { w with
          docs := w.docs.set ref { doc with attrs := doc.attrs.assign operations } }) := by
  simp [updateDoc, Effect.bind_run, reach_run h, hdoc]

theorem findPersonBySocialKey_run (socialKey : String) (w : World) :
    (findPersonBySocialKey env socialKey).run w = (.ok (env.findPersonBySocialKey socialKey), w) := by
  simp [findPersonBySocialKey, Effect.bind_run, reach_run h]

theorem upsertIdMap_run {doc : IdMapDoc} (w : World) {idmap : IdMap}
    (hup : w.idmap.upsert doc = .ok idmap) :
    (upsertIdMap env doc).run w = (.ok (), { w with idmap := idmap }) := by
  simp [upsertIdMap, Effect.bind_run, reach_run h, hup]

end Healthy

end Sync

end HulyGitlab
