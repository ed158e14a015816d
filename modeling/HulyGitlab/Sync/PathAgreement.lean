import HulyGitlab.Sync.Arrivals

/-!
# The two paths of an object

The body of a webhook and the record of the adapter come to the same handler.
The handler reads the fields of the record at the top of what it is given, where
a body has none of them, so the two lead to different keys.
-/

namespace HulyGitlab.Arrivals

open Adapter

structure RawPipeline where
  id : Int
  project_id : Int
  status : String
  updated_at : Nat
  web_url : String
  merge_request : Option Int
  deriving DecidableEq

def mapPipeline (raw : RawPipeline) : SyncPipeline where
  id := raw.id
  projectId := raw.project_id
  mergeRequestIid := raw.merge_request
  status := mapPipelineStatus raw.status
  rawStatus := raw.status
  updatedAt := raw.updated_at
  webUrl := raw.web_url

inductive ObjectKind
  | issue
  | mergeRequest
  | epic
  | pipeline
  deriving DecidableEq

namespace ObjectKind

/-- The kind both paths enqueue with. -/
def name : ObjectKind → String
  | issue => "issue"
  | mergeRequest => "merge_request"
  | epic => "epic"
  | pipeline => "pipeline"

def eventHeader : ObjectKind → String
  | issue => Webhook.issueEventHeader
  | mergeRequest => Webhook.mrEventHeader
  | epic => Webhook.epicEventHeader
  | pipeline => Webhook.pipelineEventHeader

def applyRemote (env : Env) : ObjectKind → BindingRef → Fields → Sync Unit
  | issue => Issues.applyRemote env
  | mergeRequest => MergeRequests.applyRemote env
  | epic => Epics.applyRemote env
  | pipeline => Pipelines.applyRemote env

end ObjectKind

/-- An object at GitLab; a pipeline is that of a merge request, an epic has no children. -/
inductive RemoteObject
  | issue (raw : RawIssue)
  | mergeRequest (raw : RawMergeRequest)
  | epic (raw : RawEpic)
  | pipeline (raw : RawPipeline) (mergeRequestIid : Int)

/-! ### Its two renderings -/

def userAttributes (u : RawUser) : JsValue :=
  .obj [("id", .num u.id), ("username", .str u.username), ("name", .str u.name),
    ("email", .ofOption .str u.email), ("avatar_url", .ofOption .str u.avatar_url)]

def labelAttributes (labels : List String) : JsValue :=
  .arr (labels.map fun title => .obj [("title", .str title)])

def usersAttributes (users : Option (List RawUser)) : JsValue :=
  .arr ((users.getD []).map userAttributes)

def issueAttributes (raw : RawIssue) : Fields :=
  [("id", .num raw.id), ("iid", .num raw.iid), ("project_id", .num raw.project_id),
    ("title", .str raw.title), ("description", .ofOption .str raw.description),
    ("state", .str raw.state), ("labels", labelAttributes raw.labels),
    ("milestone", .ofOption (fun m => .obj [("title", .str m.title),
      ("description", .ofOption .str m.description)]) raw.milestone),
    ("assignees", usersAttributes raw.assignees), ("author", userAttributes raw.author),
    ("confidential", .bool raw.confidential), ("created_at", .date raw.created_at),
    ("updated_at", .date raw.updated_at), ("closed_at", .ofOption .date raw.closed_at),
    ("url", .str raw.web_url)]

def mergeRequestAttributes (raw : RawMergeRequest) : Fields :=
  [("iid", .num raw.iid), ("target_project_id", .num raw.project_id), ("title", .str raw.title),
    ("description", .ofOption .str raw.description), ("state", .str raw.state),
    ("draft", .bool raw.draft), ("source_branch", .str raw.source_branch),
    ("target_branch", .str raw.target_branch), ("merge_status", .str raw.merge_status),
    ("labels", labelAttributes raw.labels),
    ("milestone", .ofOption (fun m => .obj [("title", .str m.title)]) raw.milestone),
    ("assignees", usersAttributes raw.assignees), ("reviewers", usersAttributes raw.reviewers),
    ("author", userAttributes raw.author), ("confidential", .bool raw.confidential),
    ("created_at", .date raw.created_at), ("updated_at", .date raw.updated_at),
    ("url", .str raw.web_url)]

def epicAttributes (raw : RawEpic) : Fields :=
  [("iid", .num raw.iid), ("group_id", .num raw.group_id), ("title", .str raw.title),
    ("description", .ofOption .str raw.description), ("state", .str raw.state),
    ("author", userAttributes raw.author), ("confidential", .bool (raw.confidential.getD false)),
    ("created_at", .date raw.created_at), ("updated_at", .date raw.updated_at),
    ("url", .str raw.web_url)]

def pipelineAttributes (raw : RawPipeline) : Fields :=
  [("id", .num raw.id), ("status", .str raw.status), ("updated_at", .date raw.updated_at),
    ("url", .str raw.web_url)]

namespace RemoteObject

def kind : RemoteObject → ObjectKind
  | issue _ => .issue
  | mergeRequest _ => .mergeRequest
  | epic _ => .epic
  | pipeline _ _ => .pipeline

/-- The body of its webhook. -/
def hookBody : RemoteObject → Fields
  | issue raw => [("object_kind", .str "issue"), ("object_attributes", .obj (issueAttributes raw))]
  | mergeRequest raw =>
      [("object_kind", .str "merge_request"),
        ("object_attributes", .obj (mergeRequestAttributes raw))]
  | epic raw => [("object_kind", .str "epic"), ("object_attributes", .obj (epicAttributes raw))]
  | pipeline raw mergeRequestIid =>
      [("object_kind", .str "pipeline"), ("object_attributes", .obj (pipelineAttributes raw)),
        ("merge_request", .obj [("iid", .num mergeRequestIid)])]

/-- The record of the adapter. -/
def mapped : RemoteObject → Fields
  | issue raw => (mapIssue raw).toFields
  | mergeRequest raw => (mapMergeRequest raw false).toFields
  | epic raw => (mapEpic raw []).toFields
  | pipeline raw mergeRequestIid =>
      (mapPipeline { raw with merge_request := some mergeRequestIid }).toFields

end RemoteObject

/-! ### The key a handler looks up -/

section Key

variable (env : Env) (bctx : BindingContext)

/-- The `iid` in the key. -/
def keyIid : ObjectKind → Fields → JsValue
  | .pipeline, record => record.field "mergeRequestIid"
  | _, record => record.field "iid"

/-- The `gitlabId` that `applyRemote` of the kind derives from a record. -/
def derivedKey (kind : ObjectKind) (record : Fields) : String :=
  match kind with
  | .epic => Epics.epicKey env bctx (record.field "groupId") (keyIid kind record)
  | _ => projectKey env bctx (keyIid kind record)

end Key

/-! ### Delivery -/

/-- The stores, the breaker and the platform. -/
structure Site where
  dedup : Registry Engine.DedupDoc
  inflight : Registry (Engine.InflightDoc Fields)
  breaker : Breaker.InMemoryBindingBreaker
  now : Nat
  world : World

section Delivery

variable (env : Env)

/-- `enqueueWebhookEvent`; a duplicate has no inflight row. -/
def enqueueWebhookEvent (s : Site) (e : EnqueuedRecord) : Site × Option Nat :=
  if Engine.seen s.dedup e.binding e.eventId e.version then (s, none)
  else
    let call : Engine.Call Fields := ⟨e.binding, e.kind, e.record, e.eventId, e.version, .marked⟩
    ({ s with
      dedup := s.dedup.add ⟨e.binding, e.eventId, e.version, s.now⟩
      inflight := s.inflight.add (Engine.SyncEngine.inflightRow call s.now) },
      some s.inflight.next)

/-- `SyncEngine.dispatch`; every kind has its manager. -/
def dispatchEvent (s : Site) (e : EnqueuedRecord) (inflightId : Nat) : Site :=
  let (isOpen, breaker) := s.breaker.isOpen s.now e.binding
  if isOpen then { s with breaker := breaker, inflight := s.inflight.remove inflightId }
  else
    match (dispatch env e).run s.world with
    | (.ok (), world) =>
        { s with
          world := world
          breaker := breaker.recordSuccess s.now e.binding
          inflight := s.inflight.remove inflightId }
    | (.error _, world) =>
        { s with
          world := world
          breaker := breaker.recordFailure s.now e.binding
          inflight := s.inflight.remove inflightId }

/-- An event is enqueued, and its turn comes. -/
def push (s : Site) (e : EnqueuedRecord) : Site :=
  match enqueueWebhookEvent s e with
  | (s', none) => s'
  | (s', some inflightId) => dispatchEvent env s' e inflightId

/-- A request goes through the route. -/
def deliver (q : Webhook.Lookups) (s : Site) (req : Webhook.WebhookRequest) : Site :=
  match (Webhook.handle q req).2 with
  | none => s
  | some e => push env s e

/-- What becomes of the state is what its handler makes of it, or nothing. -/
theorem push_world (s : Site) (e : EnqueuedRecord) :
    (push env s e).world = s.world ∨ (push env s e).world = ((dispatch env e).run s.world).2 := by
  unfold push enqueueWebhookEvent
  split_ifs with hseen
  · exact .inl rfl
  · dsimp only
    unfold dispatchEvent
    dsimp only
    split_ifs with hopen
    · exact .inl rfl
    · right
      obtain ⟨r, world⟩ := (dispatch env e).run s.world
      cases r with
      | ok u => rfl
      | error err => rfl

end Delivery

/-! ### Agreement -/

/-- A webhook of an object, and an event with its record. -/
structure Paths where
  object : RemoteObject
  bindingId : String
  tokenHeader : Option String
  eventUuid : Option String
  /-- The id and the version of the event with the record. -/
  eventId : String
  version : String

namespace Paths

variable (p : Paths)

def request : Webhook.WebhookRequest where
  bindingId := p.bindingId
  eventHeader := some p.object.kind.eventHeader
  tokenHeader := p.tokenHeader
  eventUuid := p.eventUuid
  payload := p.object.hookBody

def event : EnqueuedRecord :=
  ⟨p.bindingId, p.object.kind.name, p.object.mapped, p.eventId, p.version⟩

/-- Both paths leave the same documents, mixins and rows, and they derive one key, from an `iid`.
A new document gets the id that the documents before it determine. -/
structure Agrees (env : Env) (q : Webhook.Lookups) (s : Site) : Prop where
  docs : (deliver env q s p.request).world.docs = (push env s p.event).world.docs
  rows : (deliver env q s p.request).world.idmap = (push env s p.event).world.idmap
  key : ∀ bctx, env.loadBinding p.bindingId = .ok bctx →
    derivedKey env bctx p.object.kind p.object.hookBody =
      derivedKey env bctx p.object.kind p.object.mapped
  defined : ∀ bctx, env.loadBinding p.bindingId = .ok bctx →
    keyIid p.object.kind p.object.hookBody ≠ .undefined ∧
      keyIid p.object.kind p.object.mapped ≠ .undefined

end Paths

/-- The body of a hook has no `iid` where the handler reads it. -/
theorem keyIid_hookBody (o : RemoteObject) : keyIid o.kind o.hookBody = .undefined := by
  cases o with
  | issue raw => rfl
  | mergeRequest raw => rfl
  | epic raw => rfl
  | pipeline raw mergeRequestIid => rfl

/-- The record of the adapter has one. -/
theorem keyIid_mapped (o : RemoteObject) : ∃ iid, keyIid o.kind o.mapped = .num iid := by
  cases o with
  | issue raw => exact ⟨raw.iid, SyncIssue.field_iid _⟩
  | mergeRequest raw => exact ⟨raw.iid, SyncMergeRequest.field_iid _⟩
  | epic raw => exact ⟨raw.iid, SyncEpic.field_iid _⟩
  | pipeline raw mergeRequestIid =>
    exact ⟨mergeRequestIid, SyncPipeline.field_mergeRequestIid _⟩

theorem parseInt_undefined : parseInt "undefined".toList = none := by decide +kernel

/-- A key made without an `iid` is the key of no object. -/
theorem parseIid_derivedKey (env : Env) (bctx : BindingContext) (kind : ObjectKind)
    (record : Fields) :
    (keyIid kind record = .undefined → parseIid (derivedKey env bctx kind record) = none) ∧
      ∀ iid, keyIid kind record = .num iid →
        parseIid (derivedKey env bctx kind record) = some iid := by
  have hkey : ∃ s, derivedKey env bctx kind record =
      prefixGitlabIdForMultiInstance env bctx (s ++ ":" ++ (keyIid kind record).text) := by
    cases kind with
    | epic => exact ⟨_, rfl⟩
    | issue => exact ⟨_, rfl⟩
    | mergeRequest => exact ⟨_, rfl⟩
    | pipeline => exact ⟨_, rfl⟩
  obtain ⟨s, hkey⟩ := hkey
  rw [hkey]
  constructor
  · intro h
    rw [h]
    exact (parseIid_prefixed_segment env bctx s (by decide)).trans parseInt_undefined
  · intro iid h
    rw [h]
    exact parseIid_prefixed env bctx s iid

/-- The handlers read different keys out of the two renderings. -/
theorem derivedKey_ne (env : Env) (bctx : BindingContext) (o : RemoteObject) :
    derivedKey env bctx o.kind o.hookBody ≠ derivedKey env bctx o.kind o.mapped := by
  intro h
  obtain ⟨iid, hiid⟩ := keyIid_mapped o
  have hnone := (parseIid_derivedKey env bctx o.kind o.hookBody).1 (keyIid_hookBody o)
  rw [h, (parseIid_derivedKey env bctx o.kind o.mapped).2 iid hiid] at hnone
  cases hnone

theorem dispatch_eq (env : Env) (kind : ObjectKind) {e : EnqueuedRecord} (h : e.kind = kind.name) :
    dispatch env e = kind.applyRemote env e.binding e.record := by
  unfold dispatch dispatchRemote
  rw [h]
  cases kind with
  | issue => rfl
  | mergeRequest => rfl
  | epic => rfl
  | pipeline => rfl

/-- A binding that cannot be loaded ends every handler. -/
theorem applyRemote_of_unloaded {env : Env} {binding : BindingRef} {err : Err}
    (hload : env.loadBinding binding = .error err) (kind : ObjectKind) (record : Fields)
    (w : World) : ((kind.applyRemote env binding record).run w).2 = w := by
  have hthrow : ∀ f : BindingContext → Sync Unit,
      ((Sync.loadBinding env binding >>= f).run w).2 = w := by
    intro f
    rw [Sync.loadBinding, hload]
    rfl
  cases kind with
  | issue => exact hthrow _
  | mergeRequest => exact hthrow _
  | epic => exact hthrow _
  | pipeline =>
    rw [ObjectKind.applyRemote, Pipelines.applyRemote]
    split_ifs
    · rfl
    · exact hthrow _

/-- The route hands a body on under the kind of its object. -/
theorem route_hookBody (o : RemoteObject) {kind : String}
    (h : Webhook.route o.hookBody (some o.kind.eventHeader) = .enqueue kind) :
    kind = o.kind.name := by
  cases o with
  | issue raw =>
    have hroute := (Webhook.route_issue _).symm.trans h
    split_ifs at hroute
    exact (Webhook.Routed.enqueue.inj hroute).symm
  | mergeRequest raw =>
    have hroute := (Webhook.route_mergeRequest _).symm.trans h
    split_ifs at hroute
    exact (Webhook.Routed.enqueue.inj hroute).symm
  | epic raw =>
    have hroute := (Webhook.route_epic _).symm.trans h
    unfold Webhook.routeEpic at hroute
    split_ifs at hroute
    exact (Webhook.Routed.enqueue.inj hroute).symm
  | pipeline raw mergeRequestIid =>
    have hroute := (Webhook.route_pipeline _).symm.trans h
    split_ifs at hroute
    exact (Webhook.Routed.enqueue.inj hroute).symm

/-! ### What a webhook does -/

theorem findByGitlab_sameData (env : Env) (workspaceUuid : String) (gitlabKind : GitlabKind)
    (gitlabId : String) :
    Effect.Within SameData (Sync.findByGitlab env workspaceUuid gitlabKind gitlabId) :=
  .bind SameData.trans (.modify fun _ => ⟨rfl, rfl, rfl⟩) fun _ =>
    .bind SameData.trans (Sync.reach_within SameData.refl env .idmap) fun _ =>
      .gets SameData.refl _

/-- The handler of an issue, a merge request or an epic throws at the first field it misses. -/
theorem applyRemote_hookBody (env : Env) (binding : BindingRef) (o : RemoteObject)
    (h : o.kind ≠ .pipeline) :
    Effect.Within SameData (o.kind.applyRemote env binding o.hookBody) := by
  have hload : Effect.Within SameData (Sync.loadBinding env binding) :=
    .ofExcept SameData.refl _
  cases o with
  | issue raw =>
    refine .bind SameData.trans hload fun bctx => ?_
    refine .bind SameData.trans (findByGitlab_sameData env _ _ _) fun existing w => ?_
    exact SameData.refl w
  | mergeRequest raw =>
    refine .bind SameData.trans hload fun bctx => ?_
    refine .bind SameData.trans (findByGitlab_sameData env _ _ _) fun existing w => ?_
    exact SameData.refl w
  | epic raw =>
    refine .bind SameData.trans hload fun bctx => ?_
    split_ifs
    · exact .pure SameData.refl _
    · refine .bind SameData.trans (findByGitlab_sameData env _ _ _) fun existing w => ?_
      exact SameData.refl w
  | pipeline raw mergeRequestIid => exact absurd rfl h

theorem push_of_unloaded {env : Env} {o : RemoteObject} {e : EnqueuedRecord}
    (hkind : e.kind = o.kind.name) {err : Err} (hload : env.loadBinding e.binding = .error err)
    (s : Site) : (push env s e).world = s.world := by
  cases push_world env s e with
  | inl h => exact h
  | inr h =>
    rw [h, dispatch_eq env o.kind hkind]
    exact applyRemote_of_unloaded hload _ _ _

namespace Paths

variable (p : Paths) (env : Env) (q : Webhook.Lookups) (s : Site)

/-- A webhook mirrors no issue, no merge request and no epic. -/
theorem deliver_leaves (h : p.object.kind ≠ .pipeline) :
    SameData s.world (deliver env q s p.request).world := by
  unfold deliver
  cases hhandle : (Webhook.handle q p.request).2 with
  | none => exact SameData.refl _
  | some e =>
    obtain ⟨-, kind, hroute, rfl⟩ := (Webhook.handle_enqueues_iff q).mp hhandle
    have hkind : (Webhook.eventOf q p.request kind).kind = p.object.kind.name :=
      route_hookBody p.object hroute
    dsimp only
    cases push_world env s (Webhook.eventOf q p.request kind) with
    | inl heq =>
      rw [heq]
      exact SameData.refl _
    | inr heq =>
      rw [heq, dispatch_eq env p.object.kind hkind]
      exact applyRemote_hookBody env _ p.object h s.world

/-- The two paths agree only where no handler gets further than to load the binding. -/
theorem pathsAgree_iff :
    p.Agrees env q s ↔ ∀ bctx, env.loadBinding p.bindingId ≠ .ok bctx := by
  constructor
  · intro h bctx hload
    exact derivedKey_ne env bctx p.object (h.key bctx hload)
  · intro h
    cases hload : env.loadBinding p.bindingId with
    | ok bctx => exact absurd hload (h bctx)
    | error err =>
      have hevent : (push env s p.event).world = s.world := push_of_unloaded rfl hload s
      have hhook : (deliver env q s p.request).world = s.world := by
        unfold deliver
        cases hhandle : (Webhook.handle q p.request).2 with
        | none => rfl
        | some e =>
          obtain ⟨-, kind, hroute, rfl⟩ := (Webhook.handle_enqueues_iff q).mp hhandle
          have hkind : (Webhook.eventOf q p.request kind).kind = p.object.kind.name :=
            route_hookBody p.object hroute
          exact push_of_unloaded hkind hload s
      refine ⟨?_, ?_, fun bctx hok => absurd hok (h bctx), fun bctx hok => absurd hok (h bctx)⟩
      · rw [hhook, hevent]
      · rw [hhook, hevent]

/-- The webhook of an open issue. -/
def openIssue : Paths where
  object := .issue
    { id := 1
      iid := 3
      project_id := 7
      title := "Broken build"
      description := none
      state := "opened"
      labels := []
      milestone := none
      assignees := none
      author := ⟨1, "root", "Root", none, none, "https://gitlab/root"⟩
      confidential := false
      created_at := 5
      updated_at := 5
      closed_at := none
      web_url := "https://gitlab/group/project/-/issues/3" }
  bindingId := "65a1b2c3d4e5f60718293a4b"
  tokenHeader := some "secret"
  eventUuid := some "uuid"
  eventId := "backfill:7:3:5"
  version := "5"

theorem not_agrees_openIssue :
    ¬ ∀ (p : Paths) (env : Env) (q : Webhook.Lookups) (s : Site), p.Agrees env q s := by
  intro h
  have hagrees := h openIssue (.quiet quietBinding)
    ⟨fun _ => .ok (some ⟨false, "ref"⟩), fun _ => .ok (some "secret"), 5⟩
    ⟨.empty, .empty, .new, 5, .initial⟩
  exact derivedKey_ne _ quietBinding openIssue.object (hagrees.key quietBinding rfl)

end Paths

end HulyGitlab.Arrivals
