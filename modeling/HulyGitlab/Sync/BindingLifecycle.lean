import HulyGitlab.Auth.Credentials
import HulyGitlab.Lib.Effect

/-!
# The webhook of a binding

Three records belong together: the stored secret, the flags of the binding and
the hook at GitLab. `BindingLifecycleService` and the binding routes change
them one after the other; every call to GitLab may fail.
-/

namespace HulyGitlab

/-- How a call to GitLab fails: with a status that makes it a `GitLabApiError`, or with another
error. The statuses 401, 403 and 404 have errors of their own, which are none. -/
inductive ApiFailure
  | status (statusCode : Nat) (message : String)
  | other (e : Err)
  deriving DecidableEq

namespace BindingLifecycle

structure WebhookEventFlags where
  issues_events : Bool
  note_events : Bool
  merge_requests_events : Bool
  pipeline_events : Bool
  epic_events : Bool
  deriving DecidableEq

def PHASE2_EVENT_FLAGS : WebhookEventFlags := ⟨true, true, true, true, false⟩

/-- A hook at GitLab. -/
structure Hook where
  projectId : Int
  url : String
  token : String
  eventFlags : WebhookEventFlags
  deriving DecidableEq

/-- The part of `BindingDoc` that the lifecycle of the webhook reads and writes. -/
structure HookedBinding where
  workspaceUuid : String
  gitlabProjectId : Int
  credentialRef : String
  webhookSecretRef : String
  webhookId : Option Nat
  webhookRegistered : Bool
  deriving DecidableEq

structure Registrations where
  bindings : OrderedMap String HookedBinding
  credentials : Credentials
  /-- The hooks of all projects, by their id. -/
  hooks : OrderedMap Nat Hook
  /-- GitLab gives no id twice. -/
  nextHookId : Nat

/-- What the calls of one request come to; a client is built with the edition it detected. -/
structure Answers where
  client : Except String (Option String)
  createHook : Option ApiFailure
  deleteHook : Option ApiFailure
  updateHook : Option ApiFailure

structure Deps where
  cipher : Cipher
  encryptionKey : String
  /-- The router is given the service. -/
  bindingLifecycle : Bool
  publicBaseUrl : Option String

/-- The result of registering, rotating and re-registering. -/
structure HookResult where
  webhookRegistered : Bool
  webhookId : Option Nat
  reason : Option String
  deriving DecidableEq

abbrev Lifecycle := Effect ApiFailure Registrations

section GitLab

variable (ans : Answers)

/-- `POST /projects/:id/hooks`. -/
def createProjectWebhook (body : Hook) : Lifecycle Nat := Effect.step fun s =>
  match ans.createHook with
  | some e => (.error e, s)
  | none => (.ok s.nextHookId,
      { s with hooks := s.hooks.set s.nextHookId body, nextHookId := s.nextHookId + 1 })

/-- `NotFoundError`, what a request becomes that GitLab answers with 404. -/
def notFoundError : ApiFailure := .other (.service "Not found")

/-- A hook of the project, or the error of the request. -/
def hookOf (s : Registrations) (projectId : Int) (hookId : Nat) : Except ApiFailure Hook :=
  match s.hooks.get? hookId with
  | some hook => if hook.projectId = projectId then .ok hook else .error notFoundError
  | none => .error notFoundError

/-- `DELETE /projects/:id/hooks/:hook_id`. -/
def deleteProjectWebhook (projectId : Int) (hookId : Nat) : Lifecycle Unit := Effect.step fun s =>
  match ans.deleteHook, hookOf s projectId hookId with
  | some e, _ => (.error e, s)
  | none, .error e => (.error e, s)
  | none, .ok _ => (.ok (), { s with hooks := s.hooks.delete hookId })

/-- `PUT /projects/:id/hooks/:hook_id`. -/
def updateProjectWebhook (projectId : Int) (hookId : Nat) (body : Hook) : Lifecycle Nat :=
  Effect.step fun s =>
    match ans.updateHook, hookOf s projectId hookId with
    | some e, _ => (.error e, s)
    | none, .error e => (.error e, s)
    | none, .ok _ => (.ok hookId, { s with hooks := s.hooks.set hookId body })

end GitLab

section Store

variable (deps : Deps)

def getBinding (id : String) : Lifecycle (Option HookedBinding) :=
  Effect.gets fun s => s.bindings.get? id

/-- `updateOne` on the binding; nothing when it is gone. -/
def updateBinding (id : String) (update : HookedBinding → HookedBinding) : Lifecycle Unit :=
  Effect.modify fun s =>
    match s.bindings.get? id with
    | some binding => { s with bindings := s.bindings.set id (update binding) }
    | none => s

/-- The webhook secret of a binding, decrypted. -/
def secretOf (s : Registrations) (ref : String) : Except Err (Option CredentialResult) :=
  getCredential deps.cipher deps.encryptionKey s.credentials ref

def getSecret (ref : String) : Lifecycle (Option CredentialResult) := Effect.step fun s =>
  match secretOf deps s ref with
  | .ok cred => (.ok cred, s)
  | .error e => (.error (.other e), s)

end Store

section Service

variable (deps : Deps) (ans : Answers)

/-- The hook that the service asks for; epics are only there on the enterprise edition. -/
def hookBody (bindingId publicBaseUrl token : String) (projectId : Int) (edition : Option String) :
    Hook where
  projectId := projectId
  url := publicBaseUrl ++ "/webhook/" ++ bindingId
  token := token
  eventFlags := { PHASE2_EVENT_FLAGS with epic_events := edition = some "ee" }

/-- The binding knows its hook. -/
def markRegistered (bindingId : String) (hookId : Nat) : Lifecycle Unit :=
  updateBinding bindingId fun b => { b with webhookId := some hookId, webhookRegistered := true }

/-- A status below 500 is a result; any other failure is thrown again. -/
def refused (onRefused : Lifecycle Unit) (e : ApiFailure) : Lifecycle HookResult :=
  match e with
  | .status statusCode message =>
      if 400 ≤ statusCode ∧ statusCode < 500 then do
        onRefused
        pure ⟨false, none, some ("GitLab " ++ toString statusCode ++ ": " ++ message)⟩
      else Effect.throw e
  | .other _ => Effect.throw e

def markUnregistered (bindingId : String) : Lifecycle Unit :=
  updateBinding bindingId fun b => { b with webhookRegistered := false }

/-- Register a hook and write it to the binding. -/
def register (bindingId : String) (body : Hook) : Lifecycle HookResult := do
  let hookId ← createProjectWebhook ans body
  markRegistered bindingId hookId
  pure ⟨true, some hookId, none⟩

def onBindingCreate (bindingId : String) (binding : HookedBinding) (publicBaseUrl : String) :
    Lifecycle HookResult := do
  let secretCred ← getSecret deps binding.webhookSecretRef
  match secretCred with
  | none => pure ⟨false, none, some "webhook secret credential not found"⟩
  | some cred =>
      match ans.client with
      | .error reason => pure ⟨false, none, some reason⟩
      | .ok edition =>
          Effect.attempt
            (register ans bindingId
              (hookBody bindingId publicBaseUrl cred.plaintext binding.gitlabProjectId edition))
            (refused (markUnregistered bindingId))

/-- The old hook goes first, as far as that works; the binding is only written when GitLab has
answered the registration of the new one. -/
def rotateWebhookSecret (bindingId : String) (binding : HookedBinding)
    (newSecret publicBaseUrl : String) : Lifecycle HookResult :=
  match binding.webhookId with
  | none => pure ⟨false, none, none⟩
  | some webhookId =>
      match ans.client with
      | .error reason => pure ⟨false, none, some reason⟩
      | .ok edition => do
          Effect.attempt (deleteProjectWebhook ans binding.gitlabProjectId webhookId)
            fun _ => pure ()
          Effect.attempt
            (register ans bindingId
              (hookBody bindingId publicBaseUrl newSecret binding.gitlabProjectId edition))
            (refused (updateBinding bindingId fun b =>
              { b with webhookId := none, webhookRegistered := false }))

/-- Put the secret and the event flags to the hook again. -/
def refresh (bindingId : String) (webhookId : Nat) (body : Hook) : Lifecycle HookResult := do
  let hookId ← updateProjectWebhook ans body.projectId webhookId body
  markRegistered bindingId hookId
  pure ⟨true, some hookId, none⟩

def reRegisterWebhook (bindingId : String) (binding : HookedBinding) (publicBaseUrl : String) :
    Lifecycle HookResult :=
  match binding.webhookId with
  | none =>
      if binding.webhookRegistered then pure ⟨true, none, none⟩
      else onBindingCreate deps ans bindingId binding publicBaseUrl
  | some webhookId => do
      let secretCred ← getSecret deps binding.webhookSecretRef
      match secretCred with
      | none => pure ⟨false, none, some "webhook secret credential not found"⟩
      | some cred =>
          match ans.client with
          | .error reason => pure ⟨false, none, some reason⟩
          | .ok edition =>
              Effect.attempt
                (refresh ans bindingId webhookId
                  (hookBody bindingId publicBaseUrl cred.plaintext binding.gitlabProjectId edition))
                (refused (markUnregistered bindingId))

/-- The hook goes if it can; a failure is swallowed. -/
def onBindingDelete (binding : HookedBinding) : Lifecycle Unit :=
  match binding.webhookId, ans.client with
  | some webhookId, .ok _ =>
      Effect.attempt (deleteProjectWebhook ans binding.gitlabProjectId webhookId) fun _ => pure ()
  | _, _ => pure ()

end Service

structure CreateBindingInput where
  workspaceUuid : String
  gitlabProjectId : Int
  credentialRef : String
  deriving DecidableEq

/-- The requests to the binding routes; the ids and the secrets are drawn by the server. -/
inductive Request
  | create (id secretRef iv secret : String) (now : Nat) (input : CreateBindingInput)
  | rotateSecret (id iv newSecret : String)
  | reRegisterWebhook (id : String)
  | delete (id : String)

section Routes

variable (deps : Deps) (ans : Answers)

def putSecret (secretRef iv secret : String) (now : Nat) : Lifecycle Unit := Effect.step fun s =>
  match putCredential deps.cipher deps.encryptionKey s.credentials secretRef iv iv now
      ⟨.webhook_secret, secret, none, none, none, none⟩ with
  | .ok credentials => (.ok (), { s with credentials := credentials })
  | .error e => (.error (.other e), s)

/-- The collection has a unique index on the workspace and the project. -/
def createBinding (id secretRef : String) (input : CreateBindingInput) : Lifecycle Unit :=
  Effect.step fun s =>
    if id ∈ s.bindings.keys ∨ ∃ entry ∈ s.bindings.entries,
        entry.2.workspaceUuid = input.workspaceUuid ∧
        entry.2.gitlabProjectId = input.gitlabProjectId then (.error (.other .duplicateKey), s)
    else (.ok (), { s with
      bindings := s.bindings.set id
        ⟨input.workspaceUuid, input.gitlabProjectId, input.credentialRef, secretRef, none, false⟩ })

/-- The service, when the router has it and a public URL. -/
def withLifecycle (otherwise : HookResult) (service : String → Lifecycle HookResult) :
    Lifecycle HookResult :=
  match deps.bindingLifecycle, deps.publicBaseUrl with
  | true, some publicBaseUrl => service publicBaseUrl
  | _, _ => pure otherwise

def rotateSecretRoute (id iv newSecret : String) (binding : HookedBinding) :
    Lifecycle HookResult := do
  Effect.modify fun s =>
    { s with
      credentials := rotateCredential deps.cipher deps.encryptionKey s.credentials
        binding.webhookSecretRef iv iv ⟨newSecret, none, none⟩ }
  let unchanged : HookResult := ⟨binding.webhookRegistered, none, none⟩
  if binding.webhookRegistered = true ∧ binding.webhookId ≠ none then
    -- without a public URL the answer says that the hook is gone, and the binding does not
    let otherwise := { unchanged with webhookRegistered := !deps.bindingLifecycle }
    withLifecycle deps otherwise fun publicBaseUrl => do
      let result ← rotateWebhookSecret ans id binding newSecret publicBaseUrl
      pure { result with webhookId := none }
  else pure unchanged

/-- The body of an answer; a deletion answers with nothing else. -/
inductive Response
  | notFound
  | webhook (result : HookResult)
  | deleted

/-- A route; whatever it answers, its writes stay. -/
def handle : Request → Lifecycle Response
  | .create id secretRef iv secret now input => do
      putSecret deps secretRef iv secret now
      createBinding id secretRef input
      let result ← withLifecycle deps ⟨false, none, none⟩ fun publicBaseUrl => do
        let bindingDoc ← getBinding id
        match bindingDoc with
        | none => pure ⟨false, none, none⟩
        | some binding => onBindingCreate deps ans id binding publicBaseUrl
      pure (.webhook { result with reason := none })
  | .rotateSecret id iv newSecret => do
      let found ← getBinding id
      match found with
      | none => pure .notFound
      | some binding => do
          let result ← rotateSecretRoute deps ans id iv newSecret binding
          pure (.webhook result)
  | .reRegisterWebhook id => do
      let found ← getBinding id
      match found with
      | none => pure .notFound
      | some binding => do
          let result ← withLifecycle deps ⟨binding.webhookRegistered, binding.webhookId, none⟩
            fun publicBaseUrl => reRegisterWebhook deps ans id binding publicBaseUrl
          pure (.webhook result)
  | .delete id => do
      let found ← getBinding id
      match found with
      | none => pure .notFound
      | some binding => do
          if deps.bindingLifecycle then onBindingDelete ans binding else pure ()
          Effect.modify fun s =>
            { s with
              credentials := deleteCredential s.credentials binding.webhookSecretRef
              bindings := s.bindings.delete id }
          pure .deleted

/-- A request is handled; the answers of GitLab come with it. -/
def step (s : Registrations) (a : Request × Answers) : Registrations :=
  ((handle deps a.2 a.1).run s).2

end Routes

/-- Nothing is stored, and there are no hooks. -/
def Registrations.initial : Registrations := ⟨.empty, .empty, .empty, 1⟩

/-- What a binding says of its hook is true. -/
def Truthful (deps : Deps) (s : Registrations) : Prop :=
  ∀ id binding, s.bindings.get? id = some binding → binding.webhookRegistered = true →
    ∃ webhookId hook secret, binding.webhookId = some webhookId ∧
      s.hooks.get? webhookId = some hook ∧ hook.projectId = binding.gitlabProjectId ∧
      secretOf deps s binding.webhookSecretRef = .ok (some secret) ∧ hook.token = secret.plaintext

end BindingLifecycle

end HulyGitlab
