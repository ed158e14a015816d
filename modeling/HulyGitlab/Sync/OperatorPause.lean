import HulyGitlab.Http.Webhook
import HulyGitlab.Sync.BackfillScheduler

/-!
# The operator pause

The routes that write or read the `disabled` column of a binding, with the
scheduler and the engine they stand beside. A step is what runs between two
awaits. The webhook route and the scheduler ask for `disabled` before they
start anything; the subscriber, the handlers that enqueue again, `start` and
`dispatch` do not.
-/

namespace HulyGitlab.OperatorPause

open Engine Queue Breaker Transition Webhook

/-- The columns of `BindingDoc` that the routes here read. -/
structure StoredBinding extends WebhookBinding where
  /-- No code of the service writes this column. -/
  backfillInFlight : Bool

/-- A webhook request that waits for the secret of its binding. -/
structure Delivery where
  request : WebhookRequest
  binding : WebhookBinding

inductive PollStage
  | listed
  | resolving
  deriving DecidableEq

/-- A binding of one sweep of the scheduler. -/
structure Poll where
  binding : String
  stage : PollStage
  deriving DecidableEq

inductive PatchStage
  | finding
  | updating (disabled : Bool)
  | refreshing
  deriving DecidableEq

/-- A PATCH request; `disabled` is what its body asks for, when it is a boolean. -/
structure Patch where
  id : String
  disabled : Option Bool
  stage : PatchStage
  deriving DecidableEq

inductive MigrationRoutine
  | reviewerLabels
  | mixinSplit
  deriving DecidableEq

/-- Where a migrate route stands: before `getBinding`, before the context, in
`waitForBackfillDrain`, before the second `getBinding`, at the documents. -/
inductive MigrationStage
  | finding
  | loading
  | draining
  | rechecking
  | rewriting
  deriving DecidableEq

structure Migration where
  binding : String
  routine : MigrationRoutine
  stage : MigrationStage
  deriving DecidableEq

/-- The engine, the documents, and what the process has under way. -/
structure Service where
  engine : SyncEngine Fields
  bindings : OrderedMap String StoredBinding
  deliveries : Registry Delivery
  polls : Registry Poll
  patches : Registry Patch
  migrations : Registry Migration
  /-- The bindings for which a PATCH with `disabled: true` has returned and that were not
  enabled since. No function reads it. -/
  paused : List String

/-- No process, over any documents and rows that are in the store. -/
def Service.init (bindings : OrderedMap String StoredBinding)
    (inflight : Registry (InflightDoc Fields)) : Service where
  engine := { SyncEngine.init with inflight := inflight }
  bindings := bindings
  deliveries := .empty
  polls := .empty
  patches := .empty
  migrations := .empty
  paused := []

/-- The steps of the engine that are not taken for another part of the service. -/
def OfEngine : Engine.Action Fields → Prop
  | .enqueueBackfillKind _ _ _ => False
  | .stop => False
  | _ => True

instance : DecidablePred OfEngine := fun a => by
  cases a <;> unfold OfEngine <;> infer_instance

/-- A `call` of the engine is one that a handler makes; those of the webhook route are `forward`. -/
inductive Action
  | engine (a : { a : Engine.Action Fields // OfEngine a })
  | receive (request : WebhookRequest)
  /-- The query for the secret is answered. -/
  | forward (delivery : Nat) (secret : Except Err (Option String))
  | tick
  | processBinding (poll : Nat)
  | resolve (poll : Nat) (cursors : Option (Option Nat × Option Nat))
  | patch (id : String) (disabled : JsValue)
  /-- The operation that a PATCH waits for is done. -/
  | advancePatch (patch : Nat)
  | rejectPatch (patch : Nat)
  | migrate (routine : MigrationRoutine) (id : String)
  /-- The operation that a migrate route waits for is done. -/
  | advanceMigration (migration : Nat)
  /-- `waitForBackfillDrain` has reached its deadline. -/
  | timeOut (migration : Nat)
  | endMigration (migration : Nat)
  | stop

namespace Service

variable (managers : Managers Fields) (s : Service)

def isDisabled (id : String) : Bool :=
  match s.bindings.get? id with
  | some binding => binding.disabled
  | none => false

/-! ### The webhook route -/

/-- The route up to the query for the secret. -/
def receive (request : WebhookRequest) : Service :=
  if !s.engine.up || !BindingCreation.isObjectId request.bindingId ||
      request.eventHeader.any fun header => header ∈ CONFIDENTIAL_HOOKS then s
  else
    match s.bindings.get? request.bindingId with
    | none => s
    | some binding =>
        if binding.disabled then s
        else { s with deliveries := s.deliveries.add ⟨request, binding.toWebhookBinding⟩ }

/-- The queries of a request whose binding was read before. -/
def lookups (binding : WebhookBinding) (secret : Except Err (Option String)) : Lookups where
  getBinding := fun _ => .ok (some binding)
  getCredential := fun _ => secret
  now := s.engine.now

def forward (i : Nat) (secret : Except Err (Option String)) : Service :=
  match s.deliveries.get? i with
  | none => s
  | some d =>
      let s' : Service := { s with deliveries := s.deliveries.remove i }
      match (handle (s.lookups d.binding secret) d.request).2 with
      | none => s'
      | some e =>
          { s' with engine := s.engine.call e.binding e.kind e.record e.eventId e.version }

/-! ### The scheduler -/

/-- `find({ disabled: false })`. -/
def enabled : List String := (s.bindings.entries.filter fun p => !p.2.disabled).map Prod.fst

def tick : Service :=
  if s.engine.up then
    { s with polls := s.enabled.foldl (fun polls id => polls.add ⟨id, .listed⟩) s.polls }
  else s

def withBreaker (breaker : InMemoryBindingBreaker) : Service :=
  { s with engine := { s.engine with breaker := breaker } }

/-- `processBinding` up to the cursors. -/
def processBinding (i : Nat) : Service :=
  match s.polls.get? i with
  | none => s
  | some p =>
      match p.stage with
      | .resolving => s
      | .listed =>
          let (isOpen, breaker) := s.engine.breaker.isOpen s.engine.now p.binding
          if isOpen then { s.withBreaker breaker with polls := s.polls.remove i }
          else
            { s.withBreaker breaker with polls := s.polls.update i { p with stage := .resolving } }

/-- The cursors of the two kinds, or an error. -/
def resolve (i : Nat) (cursors : Option (Option Nat × Option Nat)) : Service :=
  match s.polls.get? i with
  | none => s
  | some p =>
      match p.stage, cursors with
      | .listed, _ => s
      | .resolving, none =>
          { s.withBreaker (s.engine.breaker.recordFailure s.engine.now p.binding) with
            polls := s.polls.remove i }
      | .resolving, some (issues, notes) =>
          let engine := s.engine.enqueueBackfill managers p.binding
            (Backfill.resolveSince s.engine.now issues notes)
          { s with
            engine := { engine with breaker := engine.breaker.recordSuccess engine.now p.binding }
            polls := s.polls.remove i }

/-! ### PATCH -/

def requestedFlag : JsValue → Option Bool
  | .bool disabled => some disabled
  | _ => none

def patch (id : String) (disabled : JsValue) : Service :=
  if s.engine.up && BindingCreation.isObjectId id then
    { s with patches := s.patches.add ⟨id, requestedFlag disabled, .finding⟩ }
  else s

/-- `updateBinding`, which leaves a missing document missing. -/
def updateDisabled (id : String) (disabled : Bool) : Service :=
  { s with
    bindings :=
      match s.bindings.get? id with
      | none => s.bindings
      | some binding => s.bindings.set id { binding with disabled := disabled }
    paused := if disabled then s.paused else s.paused.filter (· ≠ id) }

/-- The answer of a PATCH, after the second `getBinding`. -/
def answerPatch (i : Nat) (p : Patch) : Service :=
  { s with
    patches := s.patches.remove i
    paused := if p.disabled = some true ∧ s.isDisabled p.id then p.id :: s.paused else s.paused }

def advancePatch (i : Nat) : Service :=
  match s.patches.get? i with
  | none => s
  | some p =>
      match p.stage with
      | .finding =>
          match s.bindings.get? p.id, p.disabled with
          | none, _ => { s with patches := s.patches.remove i }
          | some _, some disabled =>
              { s with patches := s.patches.update i { p with stage := .updating disabled } }
          | some _, none => { s with patches := s.patches.update i { p with stage := .refreshing } }
      | .updating disabled =>
          { s.updateDisabled p.id disabled with
            patches := s.patches.update i { p with stage := .refreshing } }
      | .refreshing => s.answerPatch i p

def rejectPatch (i : Nat) : Service := { s with patches := s.patches.remove i }

/-! ### The migrate routes -/

def migrate (routine : MigrationRoutine) (id : String) : Service :=
  if s.engine.up && BindingCreation.isObjectId id then
    { s with migrations := s.migrations.add ⟨id, routine, .finding⟩ }
  else s

def moveMigration (i : Nat) (m : Migration) (stage : MigrationStage) : Service :=
  { s with migrations := s.migrations.update i { m with stage := stage } }

def endMigration (i : Nat) : Service := { s with migrations := s.migrations.remove i }

def backfillInFlight (id : String) : Bool :=
  match s.bindings.get? id with
  | some binding => binding.backfillInFlight
  | none => false

def advanceMigration (i : Nat) : Service :=
  match s.migrations.get? i with
  | none => s
  | some m =>
      match m.stage with
      | .finding =>
          if s.isDisabled m.binding then s.moveMigration i m .loading else s.endMigration i
      | .loading =>
          match m.routine with
          | .reviewerLabels => s.moveMigration i m .rewriting
          | .mixinSplit => s.moveMigration i m .draining
      | .draining =>
          if s.backfillInFlight m.binding then s else s.moveMigration i m .rechecking
      | .rechecking =>
          if s.isDisabled m.binding then s.moveMigration i m .rewriting else s.endMigration i
      | .rewriting => s

def timeOut (i : Nat) : Service :=
  match s.migrations.get? i with
  | none => s
  | some m =>
      if m.stage = .draining then
        if s.backfillInFlight m.binding then s.endMigration i else s.moveMigration i m .rechecking
      else s

/-- The process stops, with every request it was serving. -/
def stop : Service :=
  { s with
    engine := s.engine.stop
    deliveries := .empty
    polls := .empty
    patches := .empty
    migrations := .empty }

end Service

def step (managers : Managers Fields) (s : Service) : Action → Service
  | .engine a => { s with engine := Engine.step managers s.engine a }
  | .receive request => s.receive request
  | .forward i secret => s.forward i secret
  | .tick => s.tick
  | .processBinding i => s.processBinding i
  | .resolve i cursors => s.resolve managers i cursors
  | .patch id disabled => s.patch id disabled
  | .advancePatch i => s.advancePatch i
  | .rejectPatch i => s.rejectPatch i
  | .migrate routine id => s.migrate routine id
  | .advanceMigration i => s.advanceMigration i
  | .timeOut i => s.timeOut i
  | .endMigration i => s.endMigration i
  | .stop => s.stop

end HulyGitlab.OperatorPause
