import HulyGitlab.Http.BindingCreation

/-!
# The webhook route

`POST /webhook/:bindingId`: the checks of the caller, then one branch for each
event header. What is enqueued is the body as it came.
-/

namespace HulyGitlab.Webhook

def CONFIDENTIAL_HOOKS : List String :=
  ["Confidential Issue Hook", "Confidential Note Hook", "Confidential Epic Hook"]

def issueEventHeader : String := "Issue Hook"

def mrEventHeader : String := "Merge Request Hook"

def pipelineEventHeader : String := "Pipeline Hook"

def noteEventHeader : String := "Note Hook"

def epicEventHeader : String := "Epic Hook"

structure WebhookRequest where
  bindingId : String
  eventHeader : Option String
  tokenHeader : Option String
  eventUuid : Option String
  payload : Fields

/-- The part of `BindingDoc` that the route reads. -/
structure WebhookBinding where
  disabled : Bool
  webhookSecretRef : String

/-- What the queries of a request come to, and its time. -/
structure Lookups where
  getBinding : String → Except Err (Option WebhookBinding)
  /-- The secret of a binding, decrypted. -/
  getCredential : String → Except Err (Option String)
  now : Nat

inductive Answer
  | accepted
  | paused
  | dropped
  | error (status : Nat) (message : String)
  deriving DecidableEq

/-- What becomes of the body of a caller who was let in. -/
inductive Routed
  | enqueue (kind : String)
  | dropped
  | ignored
  | invalid
  deriving DecidableEq

section Branches

variable (payload : Fields)

def objectAttribute (k : String) : JsValue := (payload.field "object_attributes").get k

def isConfidential : Bool := objectAttribute payload "confidential" = .bool true

/-- `value == null`. -/
def isMissing (v : JsValue) : Bool := v = .undefined || v = .null

def routeNote : Routed :=
  let noteableType := objectAttribute payload "noteable_type"
  if noteableType = .str "Issue" ∨ noteableType = .undefined then
    if (payload.field "issue").get "confidential" = .bool true then .dropped else .enqueue "note"
  else if noteableType = .str "MergeRequest" then .enqueue "note"
  else .ignored

def routeEpic : Routed :=
  if isMissing (objectAttribute payload "iid") ||
      isMissing (objectAttribute payload "group_id") then
    .invalid
  else if isConfidential payload then .dropped
  else .enqueue "epic"

/-- The branches on the event header. -/
def route (eventHeader : Option String) : Routed :=
  if eventHeader = some issueEventHeader then
    if isConfidential payload then .dropped else .enqueue "issue"
  else if eventHeader = some mrEventHeader then
    if isConfidential payload then .dropped else .enqueue "merge_request"
  else if eventHeader = some pipelineEventHeader then
    if isMissing ((payload.field "merge_request").get "iid") then .dropped else .enqueue "pipeline"
  else if eventHeader = some noteEventHeader then routeNote payload
  else if eventHeader = some epicEventHeader then routeEpic payload
  else .ignored

theorem route_issue : route payload (some issueEventHeader) =
    if isConfidential payload then .dropped else .enqueue "issue" := if_pos rfl

theorem route_mergeRequest : route payload (some mrEventHeader) =
    if isConfidential payload then .dropped else .enqueue "merge_request" := by
  unfold route
  rw [if_neg (by decide), if_pos rfl]

theorem route_pipeline : route payload (some pipelineEventHeader) =
    if isMissing ((payload.field "merge_request").get "iid") then .dropped
    else .enqueue "pipeline" := by
  unfold route
  rw [if_neg (by decide), if_neg (by decide), if_pos rfl]

theorem route_epic : route payload (some epicEventHeader) = routeEpic payload := by
  unfold route
  rw [if_neg (by decide), if_neg (by decide), if_neg (by decide), if_neg (by decide), if_pos rfl]

end Branches

section Route

variable (q : Lookups)

/-- The checks of the caller; an answer when one of them fails. -/
def checkCaller (req : WebhookRequest) : Except Answer Unit :=
  if !BindingCreation.isObjectId req.bindingId then throw (.error 400 "invalid id format")
  else if req.eventHeader.any fun header => header ∈ CONFIDENTIAL_HOOKS then throw .dropped
  else
    match q.getBinding req.bindingId with
    | .error _ => throw (.error 404 "Not found")
    | .ok none => throw (.error 404 "Binding not found")
    | .ok (some binding) =>
        if binding.disabled then throw .paused
        else
          match q.getCredential binding.webhookSecretRef with
          | .error _ => throw (.error 500 "Internal error")
          | .ok none => throw (.error 500 "Internal error")
          | .ok (some plaintext) =>
              if req.tokenHeader.getD "" = "" ∨ req.tokenHeader ≠ some plaintext then
                throw (.error 401 "Unauthorized")
              else pure ()

/-- The arguments of `enqueueWebhookEvent`. -/
def eventOf (req : WebhookRequest) (kind : String) : EnqueuedRecord where
  binding := req.bindingId
  kind := kind
  record := req.payload
  eventId := req.eventUuid.getD (req.bindingId ++ "-" ++ toString q.now)
  version := ((objectAttribute req.payload "updated_at").orElse (.str (toString q.now))).text

/-- The answer, and what was enqueued before it. -/
def handle (req : WebhookRequest) : Answer × Option EnqueuedRecord :=
  match checkCaller q req with
  | .error answer => (answer, none)
  | .ok () =>
      match route req.payload req.eventHeader with
      | .enqueue kind => (.accepted, some (eventOf q req kind))
      | .dropped => (.dropped, none)
      | .ignored => (.accepted, none)
      | .invalid =>
          (.error 400 "invalid payload: missing object_attributes.iid or group_id", none)

/-- An event is enqueued when the caller is let in and the body goes to a kind. -/
theorem handle_enqueues_iff {req : WebhookRequest} {e : EnqueuedRecord} :
    (handle q req).2 = some e ↔
      checkCaller q req = .ok () ∧ ∃ kind, route req.payload req.eventHeader = .enqueue kind ∧
        e = eventOf q req kind := by
  unfold handle
  cases hcaller : checkCaller q req with
  | error answer => exact ⟨nofun, fun h => nomatch h.1⟩
  | ok u =>
    cases hroute : route req.payload req.eventHeader with
    | enqueue kind =>
      constructor
      · intro h
        exact ⟨rfl, kind, rfl, (Option.some.inj h).symm⟩
      · rintro ⟨-, other, hother, rfl⟩
        obtain rfl := Routed.enqueue.inj hother
        rfl
    | dropped => exact ⟨nofun, fun ⟨_, _, h, _⟩ => nomatch h⟩
    | ignored => exact ⟨nofun, fun ⟨_, _, h, _⟩ => nomatch h⟩
    | invalid => exact ⟨nofun, fun ⟨_, _, h, _⟩ => nomatch h⟩

/-- A paused binding takes no event, whoever calls. -/
theorem handle_of_disabled {req : WebhookRequest} {binding : WebhookBinding}
    (hbinding : q.getBinding req.bindingId = .ok (some binding)) (h : binding.disabled = true) :
    (handle q req).2 = none := by
  have hcaller : checkCaller q req ≠ .ok () := by
    unfold checkCaller
    rw [hbinding]
    dsimp only
    rw [if_pos h]
    split_ifs <;> exact nofun
  exact Option.eq_none_iff_forall_ne_some.mpr fun e he => hcaller ((handle_enqueues_iff q).mp he).1

end Route

/-- A confidential issue, merge request or epic goes to no kind. -/
theorem route_of_confidential {payload : Fields} (h : isConfidential payload = true)
    {eventHeader : Option String} {kind : String}
    (hroute : route payload eventHeader = .enqueue kind) :
    eventHeader = some pipelineEventHeader ∨
      eventHeader = some noteEventHeader ∧ routeNote payload = .enqueue kind := by
  unfold route at hroute
  rw [if_pos h, if_pos h] at hroute
  split_ifs at hroute with hissue hmr hpipeline hmissing hnote hepic
  · exact .inl hpipeline
  · exact .inr ⟨hnote, hroute⟩
  · unfold routeEpic at hroute
    rw [if_pos h] at hroute
    split_ifs at hroute

end HulyGitlab.Webhook
