import HulyGitlab.Sync.Breaker
import HulyGitlab.Sync.Queue

/-!
# The sync engine

`SyncEngine` with the collections it writes. A step is what runs between two
awaits of one of its calls: an enqueue call, a dispatch, or `start`. The
dedup and inflight rows survive a stop of the process, everything else does
not. What a manager does inside its handler is left open: it may call
`enqueueWebhookEvent` at any time, and it ends with or without an error.
-/

namespace HulyGitlab.Engine

open Queue Breaker

variable {R : Type*}

/-- `SyncEvent`; `R` is the type of records and of change payloads, which the
engine passes on without reading them. -/
inductive SyncEvent (R : Type*)
  | remote (binding : String) (record : R) (eventId version : String)
  | localChange (binding doc : String) (change : R)
  | backfill (binding : String) (since : Option Nat)
  deriving DecidableEq

def SyncEvent.binding : SyncEvent R → String
  | .remote binding _ _ _ => binding
  | .localChange binding _ _ => binding
  | .backfill binding _ => binding

structure QueueEntry (R : Type*) where
  event : SyncEvent R
  kind : String
  inflightId : Option Nat
  deriving DecidableEq

/-- What names a remote event for redelivery, with the kind it was sent as. -/
structure RemoteKey where
  binding : String
  kind : String
  eventId : String
  version : String
  deriving DecidableEq

def QueueEntry.remoteKey (entry : QueueEntry R) : Option RemoteKey :=
  match entry.event with
  | .remote binding _ eventId version => some ⟨binding, entry.kind, eventId, version⟩
  | _ => none

structure DedupDoc where
  bindingId : String
  eventId : String
  version : String
  createdAt : Nat
  deriving DecidableEq

/-- The `op` column: the text before the colon and the kind after it. -/
inductive Op
  | remote (kind : String)
  | localChange (kind : String)
  | other (text : String)
  deriving DecidableEq

/-- The `payload` column; a field that was not stored is `none`. -/
structure Payload (R : Type*) where
  eventId : Option String
  version : Option String
  record : Option R
  doc : Option String
  change : Option R
  deriving DecidableEq

structure InflightDoc (R : Type*) where
  bindingId : String
  op : Op
  payload : Payload R
  startedAt : Nat
  deriving DecidableEq

/-- 7 days, the TTL of the dedup index. -/
def dedupTtlMs : Nat := 7 * 24 * 60 * 60 * 1000

/-- `INFLIGHT_MAX_AGE_MS`, one hour; also the TTL of the inflight index. -/
def inflightMaxAgeMs : Nat := 60 * 60 * 1000

/-- Where a call of `enqueueWebhookEvent` stands: before `findOne`, before the
dedup insert, before the inflight insert, before the queue is reached. -/
inductive CallStage
  | finding
  | inserting
  | marked
  | recorded (inflightId : Nat)
  deriving DecidableEq

structure Call (R : Type*) where
  binding : String
  kind : String
  record : R
  eventId : String
  version : String
  stage : CallStage
  deriving DecidableEq

def Call.remoteKey (c : Call R) : RemoteKey := ⟨c.binding, c.kind, c.eventId, c.version⟩

/-- Where a `dispatch` stands: it waits for the deletion of the row of a
dropped event, for `getBinding`, for its handler, or for the deletion of the
row in `finally`. -/
inductive DispatchStage
  | dropping (inflightId : Nat)
  | loading
  | handling
  | deleting (inflightId : Nat)
  deriving DecidableEq

structure Dispatch (R : Type*) where
  entry : QueueEntry R
  stage : DispatchStage
  deriving DecidableEq

/-- What the engine is seen to do, over all processes. -/
inductive Obs (R : Type*)
  | delivered (key : RemoteKey)
  | marked (key : RemoteKey)
  | accepted (entry : QueueEntry R)
  | invoked (entry : QueueEntry R) (workspaceUuid : String)
  | handled (entry : QueueEntry R) (ok : Bool)
  deriving DecidableEq

/-- A registered manager, as far as the engine calls it outside its handlers. -/
structure Manager (R : Type*) where
  resourceKey : R → Option String

/-- The managers by kind, in the order of registration. -/
abbrev Managers (R : Type*) := OrderedMap String (Manager R)

/-- The stores, the state of the process and the clock. -/
structure SyncEngine (R : Type*) where
  now : Nat
  dedup : Registry DedupDoc
  inflight : Registry (InflightDoc R)
  up : Bool
  queue : EventQueue String (QueueEntry R)
  breaker : InMemoryBindingBreaker
  calls : Registry (Call R)
  dispatches : OrderedMap Nat (Dispatch R)
  boot : List (Nat × InflightDoc R)
  cutoff : Nat
  trace : List (Obs R)
  deriving DecidableEq

/-- The default of the queue's constructor, which the engine uses. -/
def defaultMaxKeys : Nat := 1000

/-- Empty collections and no process. -/
def SyncEngine.init : SyncEngine R where
  now := 0
  dedup := .empty
  inflight := .empty
  up := false
  queue := .new defaultMaxKeys
  breaker := .new
  calls := .empty
  dispatches := .empty
  boot := []
  cutoff := 0
  trace := []

def queueKey (binding resourceKey : String) : String := binding ++ "/" ++ resourceKey

def resourceKeyForKind (managers : Managers R) (kind : String) (record : R) : String :=
  match managers.get? kind with
  | none => "*"
  | some manager => (manager.resourceKey record).getD "*"

/-- `findOne` of `checkAndMarkSeen`, and the unique index behind its insert. -/
def seen (rows : Registry DedupDoc) (bindingId eventId version : String) : Bool :=
  rows.values.any fun d =>
    d.bindingId == bindingId && d.eventId == eventId && d.version == version

namespace SyncEngine

variable (managers : Managers R)

/-! ### `enqueueWebhookEvent` -/

def call (s : SyncEngine R) (binding kind : String) (record : R) (eventId version : String) :
    SyncEngine R :=
  if s.up then
    { s with
      calls := s.calls.add ⟨binding, kind, record, eventId, version, .finding⟩
      trace := s.trace ++ [.delivered ⟨binding, kind, eventId, version⟩] }
  else s

/-- The `findOne` of `checkAndMarkSeen`; a duplicate ends the call. -/
def find (s : SyncEngine R) (i : Nat) : SyncEngine R :=
  match s.calls.get? i with
  | none => s
  | some c =>
      match c.stage with
      | .finding =>
          if seen s.dedup c.binding c.eventId c.version then
            { s with calls := s.calls.remove i }
          else { s with calls := s.calls.update i { c with stage := .inserting } }
      | _ => s

/-- The `insertOne` of `checkAndMarkSeen`; the unique index makes a racing
call a duplicate. -/
def insert (s : SyncEngine R) (i : Nat) : SyncEngine R :=
  match s.calls.get? i with
  | none => s
  | some c =>
      match c.stage with
      | .inserting =>
          if seen s.dedup c.binding c.eventId c.version then
            { s with calls := s.calls.remove i }
          else
            { s with
              dedup := s.dedup.add ⟨c.binding, c.eventId, c.version, s.now⟩
              calls := s.calls.update i { c with stage := .marked }
              trace := s.trace ++ [.marked c.remoteKey] }
      | _ => s

/-- The row that `createInflight` writes for a call. -/
def inflightRow (c : Call R) (now : Nat) : InflightDoc R where
  bindingId := c.binding
  op := .remote c.kind
  payload := ⟨some c.eventId, some c.version, some c.record, none, none⟩
  startedAt := now

def record (s : SyncEngine R) (i : Nat) : SyncEngine R :=
  match s.calls.get? i with
  | none => s
  | some c =>
      match c.stage with
      | .marked =>
          { s with
            inflight := s.inflight.add (inflightRow c s.now)
            calls := s.calls.update i { c with stage := .recorded s.inflight.next } }
      | _ => s

/-- The entry that a call, or `enqueueLocalEvent`, or `start` puts in the queue. -/
def accept (s : SyncEngine R) (resourceKey : String) (entry : QueueEntry R) : SyncEngine R :=
  { s with
    queue := s.queue.enqueue (queueKey entry.event.binding resourceKey) entry
    trace := s.trace ++ [.accepted entry] }

/-- The entry of a call whose rows are written. -/
def callEntry (c : Call R) (inflightId : Nat) : QueueEntry R :=
  ⟨.remote c.binding c.record c.eventId c.version, c.kind, some inflightId⟩

def push (s : SyncEngine R) (i : Nat) : SyncEngine R :=
  match s.calls.get? i with
  | none => s
  | some c =>
      match c.stage with
      | .recorded inflightId =>
          ({ s with calls := s.calls.remove i } : SyncEngine R).accept
            (resourceKeyForKind managers c.kind c.record) (callEntry c inflightId)
      | _ => s

/-- The store rejects the operation a call waits for; the call ends. -/
def fail (s : SyncEngine R) (i : Nat) : SyncEngine R := { s with calls := s.calls.remove i }

/-! ### `enqueueLocalEvent` and `enqueueBackfill` -/

def localEntry (binding kind doc : String) (change : R) : QueueEntry R :=
  ⟨.localChange binding doc change, kind, none⟩

def enqueueLocalEvent (s : SyncEngine R) (binding kind doc : String) (change : R) : SyncEngine R :=
  if s.up then s.accept (kind ++ ":" ++ doc) (localEntry binding kind doc change) else s

/-- One round of the loop in `enqueueBackfill`, for a registered kind. -/
def enqueueBackfillKind (s : SyncEngine R) (binding : String) (since : Option Nat)
    (kind : String) : SyncEngine R :=
  if s.up ∧ kind ∈ managers.keys then
    s.accept ("backfill:" ++ kind) ⟨.backfill binding since, kind, none⟩
  else s

def enqueueBackfill (s : SyncEngine R) (binding : String) (since : Option Nat) : SyncEngine R :=
  managers.keys.foldl (fun s kind => s.enqueueBackfillKind managers binding since kind) s

/-! ### `dispatch` -/

/-- The processor call of a worker ends: `dispatch` has returned. -/
def finish (s : SyncEngine R) (worker : Nat) (ok : Bool) : SyncEngine R :=
  { s with
    dispatches := s.dispatches.delete worker
    queue := s.queue.settle worker ok }

/-- The event is not handled: delete its row first when it has one. -/
def drop (s : SyncEngine R) (worker : Nat) (entry : QueueEntry R) : SyncEngine R :=
  match entry.inflightId with
  | none => s.finish worker true
  | some id => { s with dispatches := s.dispatches.set worker ⟨entry, .dropping id⟩ }

/-- `dispatch` up to its first await. It runs in the turn in which the queue
calls its processor; taking it as a step only adds interleavings. -/
def begin (s : SyncEngine R) (worker : Nat) : SyncEngine R :=
  match s.queue.workers.get? worker, s.dispatches.get? worker with
  | some w, none =>
      if w.settled then s
      else
        let (isOpen, breaker) := s.breaker.isOpen s.now w.item.event.binding
        let s' : SyncEngine R := { s with breaker := breaker }
        if isOpen then s'.drop worker w.item
        else
          match managers.get? w.item.kind with
          | none => s'.drop worker w.item
          | some _ => { s' with dispatches := s.dispatches.set worker ⟨w.item, .loading⟩ }
  | _, _ => s

/-- `getBinding` answers, with the workspace of the binding when there is one;
then the handler is called. -/
def load (s : SyncEngine R) (worker : Nat) (workspaceUuid : Option String) : SyncEngine R :=
  match s.dispatches.get? worker with
  | none => s
  | some d =>
      match d.stage with
      | .loading =>
          { s with
            dispatches := s.dispatches.set worker { d with stage := .handling }
            trace := s.trace ++
              [.invoked d.entry (workspaceUuid.getD d.entry.event.binding)] }
      | _ => s

/-- The handler ends; the breaker learns how, and the row is to be deleted. -/
def handle (s : SyncEngine R) (worker : Nat) (ok : Bool) : SyncEngine R :=
  match s.dispatches.get? worker with
  | none => s
  | some d =>
      match d.stage with
      | .handling =>
          let s' : SyncEngine R := { s with
            breaker :=
              if ok then s.breaker.recordSuccess s.now d.entry.event.binding
              else s.breaker.recordFailure s.now d.entry.event.binding
            trace := s.trace ++ [.handled d.entry ok] }
          match d.entry.inflightId with
          | none => s'.finish worker true
          | some id =>
              { s' with dispatches := s.dispatches.set worker { d with stage := .deleting id } }
      | _ => s

/-- `deleteInflight` of a dispatch is done, or the store rejects it. -/
def delete (s : SyncEngine R) (worker : Nat) (ok : Bool) : SyncEngine R :=
  match s.dispatches.get? worker with
  | none => s
  | some d =>
      match d.stage with
      | .dropping id | .deleting id =>
          ({ s with inflight := if ok then s.inflight.remove id else s.inflight }
            : SyncEngine R).finish worker ok
      | _ => s

/-- The queue goes on after a processor call. -/
def resume (s : SyncEngine R) (worker : Nat) : SyncEngine R :=
  { s with queue := s.queue.resume worker }

/-! ### Time, stop and start -/

def tick (s : SyncEngine R) (ms : Nat) : SyncEngine R := { s with now := s.now + ms }

def expireDedup (s : SyncEngine R) (i : Nat) : SyncEngine R :=
  match s.dedup.get? i with
  | none => s
  | some d =>
      if d.createdAt + dedupTtlMs ≤ s.now then { s with dedup := s.dedup.remove i } else s

def expireInflight (s : SyncEngine R) (i : Nat) : SyncEngine R :=
  match s.inflight.get? i with
  | none => s
  | some d =>
      if d.startedAt + inflightMaxAgeMs ≤ s.now then { s with inflight := s.inflight.remove i }
      else s

/-- The process stops, at whatever point. -/
def stop (s : SyncEngine R) : SyncEngine R :=
  { s with
    up := false
    queue := .new defaultMaxKeys
    breaker := .new
    calls := { s.calls with rows := .empty, fresh := fun _ h => absurd h List.not_mem_nil }
    dispatches := .empty
    boot := [] }

/-- A process begins with `listInflight`; `cutoff` is computed from the clock. -/
def start (s : SyncEngine R) : SyncEngine R :=
  if s.up then s
  else
    { s with
      up := true
      boot := s.inflight.rows.entries
      cutoff := s.now - inflightMaxAgeMs }

variable [Inhabited R]

/-- The entry `start` makes of a row, and its resource key; an `op` with
neither prefix has none. -/
def bootEntry (id : Nat) (row : InflightDoc R) : Option (String × QueueEntry R) :=
  match row.op with
  | .remote kind =>
      let record := row.payload.record.getD default
      let eventId := row.payload.eventId.getD (toString id)
      let version := row.payload.version.getD "0"
      some (resourceKeyForKind managers kind record,
        ⟨.remote row.bindingId record eventId version, kind, some id⟩)
  | .localChange kind =>
      let doc := row.payload.doc.getD ""
      let change := row.payload.change.getD default
      some (kind ++ ":" ++ doc, ⟨.localChange row.bindingId doc change, kind, some id⟩)
  | .other _ => none

/-- One round of the loop in `start`: a stale or unknown row is deleted, any
other is queued again. -/
def bootStep (s : SyncEngine R) : SyncEngine R :=
  match s.boot with
  | [] => s
  | (id, row) :: rest =>
      let s' : SyncEngine R := { s with boot := rest }
      if row.startedAt < s.cutoff then { s' with inflight := s.inflight.remove id }
      else
        match bootEntry managers id row with
        | none => { s' with inflight := s.inflight.remove id }
        | some (resourceKey, entry) => s'.accept resourceKey entry

end SyncEngine

/-- The steps of the engine. Taking the rounds of `enqueueBackfill` one by one
only adds interleavings. -/
inductive Action (R : Type*)
  | call (binding kind : String) (record : R) (eventId version : String)
  | find (call : Nat)
  | insert (call : Nat)
  | record (call : Nat)
  | push (call : Nat)
  | fail (call : Nat)
  | enqueueLocalEvent (binding kind doc : String) (change : R)
  | enqueueBackfillKind (binding : String) (since : Option Nat) (kind : String)
  | begin (worker : Nat)
  | load (worker : Nat) (workspaceUuid : Option String)
  | handle (worker : Nat) (ok : Bool)
  | delete (worker : Nat) (ok : Bool)
  | resume (worker : Nat)
  | tick (ms : Nat)
  | expireDedup (row : Nat)
  | expireInflight (row : Nat)
  | stop
  | start
  | bootStep
  deriving DecidableEq

def step [Inhabited R] (managers : Managers R) (s : SyncEngine R) : Action R → SyncEngine R
  | .call binding kind record eventId version => s.call binding kind record eventId version
  | .find i => s.find i
  | .insert i => s.insert i
  | .record i => s.record i
  | .push i => s.push managers i
  | .fail i => s.fail i
  | .enqueueLocalEvent binding kind doc change => s.enqueueLocalEvent binding kind doc change
  | .enqueueBackfillKind binding since kind => s.enqueueBackfillKind managers binding since kind
  | .begin worker => s.begin managers worker
  | .load worker workspaceUuid => s.load worker workspaceUuid
  | .handle worker ok => s.handle worker ok
  | .delete worker ok => s.delete worker ok
  | .resume worker => s.resume worker
  | .tick ms => s.tick ms
  | .expireDedup i => s.expireDedup i
  | .expireInflight i => s.expireInflight i
  | .stop => s.stop
  | .start => s.start
  | .bootStep => s.bootStep managers

end HulyGitlab.Engine
