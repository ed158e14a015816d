import HulyGitlab.Lib.Registry
import HulyGitlab.Lib.Transition

/-!
# The keyed event queue

`EventQueue` with its LRU tracker. JavaScript runs the body of `enqueue` and
the part of `runKey` up to the processor call without interruption; a worker
is a suspended `runKey` call. Its processor call first settles, with or
without an error, and the continuation of the `await` runs later, so other
calls may come between the two. The history records the calls for the
specification only; no operation reads it.
-/

namespace HulyGitlab.Queue

variable {K T : Type*}

/-- What can be observed of the queue, in order. -/
inductive Obs (K T : Type*)
  | enqueued (key : K) (item : T)
  | started (key : K) (item : T)
  | settled (key : K) (item : T) (ok : Bool)
  deriving DecidableEq

/-- The queue of one key. -/
structure Entry (T : Type*) where
  items : List T
  processing : Bool
  deriving DecidableEq

/-- A `runKey` call suspended at its processor call. -/
structure Worker (K T : Type*) where
  key : K
  item : T
  settled : Bool
  deriving DecidableEq

/-- `LruTracker`: the keys, least recently touched first. -/
structure LruTracker (K : Type*) where
  capacity : Nat
  order : OrderedSet K
  deriving DecidableEq

/-- Waiters are the ids of the promises that `waitForIdle` returned. -/
structure EventQueue (K T : Type*) where
  queues : OrderedMap K (Entry T)
  activeKeys : OrderedSet K
  lru : LruTracker K
  idleWaiters : OrderedMap K (List Nat)
  nextWaiter : Nat
  resolved : List Nat
  workers : Registry (Worker K T)
  history : List (Obs K T)
  deriving DecidableEq

/-- A new queue; the source's default for `maxKeys` is 1000. -/
def EventQueue.new (maxKeys : Nat) : EventQueue K T where
  queues := .empty
  activeKeys := .empty
  lru := ⟨maxKeys, .empty⟩
  idleWaiters := .empty
  nextWaiter := 0
  resolved := []
  workers := .empty
  history := []

variable [DecidableEq K]

def LruTracker.touch (lru : LruTracker K) (key : K) : LruTracker K :=
  { lru with order := (lru.order.delete key).add key }

/-- The evicted key when the capacity is exceeded, and the tracker and the
active keys without it. -/
def LruTracker.evictOldest (lru : LruTracker K) (activeKeys : OrderedSet K) :
    Option K × LruTracker K × OrderedSet K :=
  if lru.order.elems.length ≤ lru.capacity then (none, lru, activeKeys)
  else
    match lru.order.elems with
    | [] => (none, lru, activeKeys)
    | oldest :: _ =>
        (some oldest, { lru with order := lru.order.delete oldest }, activeKeys.delete oldest)

/-- The items of a key's entry; none without an entry. -/
def itemsAt (queues : OrderedMap K (Entry T)) (key : K) : List T :=
  ((queues.get? key).map Entry.items).getD []

namespace EventQueue

/-- Items waiting under a key, the one in flight not counted. -/
def pending (q : EventQueue K T) (key : K) : List T := itemsAt q.queues key

def pendingCount (q : EventQueue K T) (key : K) : Nat := (q.pending key).length

def isIdle (q : EventQueue K T) (key : K) : Bool :=
  match q.queues.get? key with
  | none => true
  | some e => !e.processing && e.items.isEmpty

/-- `waitForIdle`: no promise is left open for an idle key. -/
def waitForIdle (q : EventQueue K T) (key : K) : Option Nat × EventQueue K T :=
  if q.isIdle key then (none, q)
  else
    let waiters := (q.idleWaiters.get? key).getD []
    (some q.nextWaiter,
      { q with
        idleWaiters := q.idleWaiters.set key (waiters ++ [q.nextWaiter])
        nextWaiter := q.nextWaiter + 1 })

/-- The promises `drainAll` waits for: one for each key that is not idle.
Its timeout only bounds the wait of the caller. -/
def drainAll (q : EventQueue K T) : List Nat × EventQueue K T :=
  q.queues.keys.foldl (fun acc key =>
    match acc.2.waitForIdle key with
    | (none, q') => (acc.1, q')
    | (some w, q') => (acc.1 ++ [w], q')) ([], q)

def notifyIdleWaiters (q : EventQueue K T) (key : K) : EventQueue K T :=
  match q.idleWaiters.get? key with
  | none => q
  | some waiters =>
      { q with idleWaiters := q.idleWaiters.delete key, resolved := q.resolved ++ waiters }

/-- `runKey` up to its processor call. -/
def runKey (q : EventQueue K T) (key : K) : EventQueue K T :=
  match q.queues.get? key with
  | none => q
  | some e =>
      match e.items with
      | [] => { q with queues := q.queues.set key { e with processing := false } }
      | item :: rest =>
          { q with
            queues := q.queues.set key ⟨rest, true⟩
            workers := q.workers.add ⟨key, item, false⟩
            history := q.history ++ [.started key item] }

/-- The first lines of `enqueue`: touch the key and drop the queue of the key
that falls out. -/
def track (q : EventQueue K T) (key : K) : EventQueue K T :=
  match (q.lru.touch key).evictOldest q.activeKeys with
  | (none, lru, activeKeys) => { q with lru := lru, activeKeys := activeKeys }
  | (some evicted, lru, activeKeys) =>
      { q with lru := lru, activeKeys := activeKeys, queues := q.queues.delete evicted }

/-- Make the entry of a key that has none. -/
def ensureEntry (q : EventQueue K T) (key : K) : EventQueue K T :=
  if key ∈ q.queues.keys then q
  else
    { q with
      queues := q.queues.set key ⟨[], false⟩
      activeKeys := q.activeKeys.add key }

/-- The item at the end of the entry of its key. -/
def append (q : EventQueue K T) (key : K) (e : Entry T) (item : T) : EventQueue K T :=
  { q with
    queues := q.queues.set key { e with items := e.items ++ [item] }
    history := q.history ++ [.enqueued key item] }

/-- Push the item and start a worker when the key has none. -/
def push (q : EventQueue K T) (key : K) (item : T) : EventQueue K T :=
  match q.queues.get? key with
  | none => q
  | some e =>
      if e.processing then q.append key e item else (q.append key e item).runKey key

def enqueue (q : EventQueue K T) (key : K) (item : T) : EventQueue K T :=
  ((q.track key).ensureEntry key).push key item

/-- The processor call of a worker settles; an error is only logged. -/
def settle (q : EventQueue K T) (worker : Nat) (ok : Bool) : EventQueue K T :=
  match q.workers.get? worker with
  | none => q
  | some w =>
      if w.settled then q
      else
        { q with
          workers := q.workers.update worker { w with settled := true }
          history := q.history ++ [.settled w.key w.item ok] }

/-- The rest of `runKey` after the `await`: go on with the next item of the
key, or mark the key idle. The entry is looked up again. -/
def proceed (q : EventQueue K T) (key : K) : EventQueue K T :=
  match q.queues.get? key with
  | none => q
  | some next =>
      match next.items with
      | [] =>
          ({ q with queues := q.queues.set key { next with processing := false } }
            : EventQueue K T).notifyIdleWaiters key
      | _ :: _ => q.runKey key

/-- The continuation of a settled worker. -/
def resume (q : EventQueue K T) (worker : Nat) : EventQueue K T :=
  match q.workers.get? worker with
  | none => q
  | some w =>
      if w.settled then
        ({ q with workers := q.workers.remove worker } : EventQueue K T).proceed w.key
      else q

end EventQueue

/-- What can happen to a queue between two awaits. -/
inductive Action (K T : Type*)
  | enqueue (key : K) (item : T)
  | settle (worker : Nat) (ok : Bool)
  | resume (worker : Nat)
  | waitForIdle (key : K)
  | drainAll
  deriving DecidableEq

def step (q : EventQueue K T) : Action K T → EventQueue K T
  | .enqueue key item => q.enqueue key item
  | .settle worker ok => q.settle worker ok
  | .resume worker => q.resume worker
  | .waitForIdle key => (q.waitForIdle key).2
  | .drainAll => q.drainAll.2

/-- The items enqueued under a key, in order. -/
def enqueuedOf (key : K) (history : List (Obs K T)) : List T :=
  history.filterMap fun
    | .enqueued k x => if k = key then some x else none
    | _ => none

/-- The items handed to the processor for a key, in order of the calls. -/
def startedOf (key : K) (history : List (Obs K T)) : List T :=
  history.filterMap fun
    | .started k x => if k = key then some x else none
    | _ => none

/-- The items of a key whose processor call has ended. -/
def settledOf (key : K) (history : List (Obs K T)) : List T :=
  history.filterMap fun
    | .settled k x _ => if k = key then some x else none
    | _ => none

end HulyGitlab.Queue
