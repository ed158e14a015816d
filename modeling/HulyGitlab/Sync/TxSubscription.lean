import HulyGitlab.Sync.Epics
import HulyGitlab.Sync.Reviews

/-!
# Transactions of the platform

`TxSubscriber` turns the transactions of a workspace into local events, and
the engine hands a local event to `applyLocal` of its kind.
-/

namespace HulyGitlab

/-- The parts of a transaction the subscriber reads. -/
structure Tx where
  _class : String
  modifiedBy : String
  objectId : Ref
  objectClass : String
  objectSpace : Ref
  mixin : String
  attributes : Option Fields
  operations : Option Fields
  deriving DecidableEq

def TX_CLASS_CREATE : String := "core:class:TxCreateDoc"

def TX_CLASS_UPDATE : String := "core:class:TxUpdateDoc"

def TX_CLASS_REMOVE : String := "core:class:TxRemoveDoc"

def TX_CLASS_MIXIN : String := "core:class:TxMixin"

/-- The kinds of manager a transaction can go to. -/
inductive SyncKind
  | merge_request
  | review
  | issue
  | note
  deriving DecidableEq

def SyncKind.text : SyncKind → String
  | .merge_request => "merge_request"
  | .review => "review"
  | .issue => "issue"
  | .note => "note"

/-- The arguments of an `enqueueLocalEvent` call. -/
structure LocalEvent where
  binding : BindingRef
  kind : SyncKind
  doc : String
  change : Fields
  deriving DecidableEq

namespace TxSubscription

/-- The second echo filter: the marker that every write of `applyRemote` carries. -/
def isGitlabOriginated (tx : Tx) : Bool :=
  let attrs := tx.attributes.getD []
  let ops := tx.operations.getD []
  tx._class ≠ TX_CLASS_REMOVE ∧
    (attrs.field "_originated" = .str "gitlab" ∨ ops.field "_originated" = .str "gitlab" ∨
      (ops.field "$set").get "_originated" = .str "gitlab")

/-- The manager for a document of a class. -/
def kindOfClass (objectClass : String) : Option SyncKind :=
  if objectClass = issueClass then some .issue
  else if objectClass = chatMessageClass then some .note
  else none

/-- The manager for a mixin. -/
def kindOfMixin (mixin : String) : Option SyncKind :=
  if mixin = MR_MIXIN then some .merge_request
  else if mixin = MR_REVIEW_THREAD_MIXIN then some .review
  else none

/-- The kind and the change; nothing for a transaction on something that is not tracked. -/
def classify (tx : Tx) : Option (SyncKind × Fields) :=
  if tx._class = TX_CLASS_MIXIN then
    (kindOfMixin tx.mixin).map fun kind => (kind, tx.attributes.getD [])
  else if tx._class = TX_CLASS_UPDATE then
    (kindOfClass tx.objectClass).map fun kind => (kind, tx.operations.getD [])
  else if tx._class = TX_CLASS_CREATE then
    (kindOfClass tx.objectClass).map fun kind => (kind, tx.attributes.getD [])
  else if tx._class = TX_CLASS_REMOVE then
    (kindOfClass tx.objectClass).map fun kind => (kind, [("_removed", .bool true)])
  else none

structure TxSubscriberDeps where
  serviceAccountPersonId : String
  bindingsByProject : OrderedMap String BindingRef
  resolveBindingForDoc : Option (Ref → String → Option BindingRef)

/-- The resolver, or else the binding of a workspace that has one. -/
def resolveBinding (deps : TxSubscriberDeps) (docRef : Ref) (objectClass : String) :
    Option BindingRef :=
  match deps.resolveBindingForDoc with
  | some resolver => resolver docRef objectClass
  | none =>
      match deps.bindingsByProject.entries with
      | [entry] => some entry.2
      | _ => none

/-- The event of a transaction that passes the echo filters and has a binding. -/
def entryOf (deps : TxSubscriberDeps) (tx : Tx) : Option LocalEvent :=
  if tx.modifiedBy = deps.serviceAccountPersonId then none
  else if isGitlabOriginated tx then none
  else
    match classify tx with
    | none => none
    | some (kind, change) =>
        (resolveBinding deps tx.objectId tx.objectClass).map fun binding =>
          ⟨binding, kind, tx.objectId, change⟩

def BUFFER_MAX : Nat := 1024

structure TxSubscriber where
  buffer : List LocalEvent
  engineStarted : Bool
  stopped : Bool
  deriving DecidableEq

/-- One transaction; the second component is what `enqueueLocalEvent` is called with. -/
def onTx (deps : TxSubscriberDeps) (s : TxSubscriber) (tx : Tx) :
    TxSubscriber × List LocalEvent :=
  if s.stopped then (s, [])
  else
    match entryOf deps tx with
    | none => (s, [])
    | some entry =>
        if s.engineStarted then (s, [entry])
        else if BUFFER_MAX ≤ s.buffer.length then (s, [])
        else ({ s with buffer := s.buffer ++ [entry] }, [])

/-- The buffer goes to the engine, in order. -/
def markEngineStarted (s : TxSubscriber) : TxSubscriber × List LocalEvent :=
  ({ s with engineStarted := true, buffer := [] }, s.buffer)

/-- `applyLocal` of the manager that is registered for the kind. -/
def applyLocal (env : Env) (e : LocalEvent) : Sync Unit :=
  match e.kind with
  | .issue => Issues.applyLocal env e.binding e.doc e.change
  | .note => Notes.applyLocal env e.binding e.doc e.change
  | .merge_request => MergeRequests.applyLocal env e.binding e.doc e.change
  | .review => Reviews.applyLocal env e.binding e.doc e.change

/-- What the dispatch of the event of a transaction does. -/
def handleTx (env : Env) (deps : TxSubscriberDeps) (tx : Tx) : Sync Unit :=
  match entryOf deps tx with
  | none => pure ()
  | some e => applyLocal env e

theorem entryOf_eq_some {deps : TxSubscriberDeps} {tx : Tx} {e : LocalEvent}
    (h : entryOf deps tx = some e) :
    classify tx = some (e.kind, e.change) ∧ e.doc = tx.objectId ∧
      resolveBinding deps tx.objectId tx.objectClass = some e.binding := by
  unfold entryOf at h
  split_ifs at h
  cases hc : classify tx with
  | none =>
    rw [hc] at h
    exact absurd h (Option.some_ne_none _).symm
  | some found =>
    rw [hc] at h
    obtain ⟨binding, hb, rfl⟩ := Option.map_eq_some_iff.mp h
    exact ⟨rfl, rfl, hb⟩

/-- A kind that is not one of a mixin is decided by the class of the document. -/
theorem classify_kind {tx : Tx} {kind : SyncKind} {change : Fields}
    (h : classify tx = some (kind, change)) :
    kindOfMixin tx.mixin = some kind ∨ kindOfClass tx.objectClass = some kind := by
  unfold classify at h
  split_ifs at h with hm hu hc hr
  · left
    obtain ⟨k, hk, hkc⟩ := Option.map_eq_some_iff.mp h
    rw [hk, (Prod.mk.inj hkc).1]
  all_goals
    right
    obtain ⟨k, hk, hkc⟩ := Option.map_eq_some_iff.mp h
    rw [hk, (Prod.mk.inj hkc).1]

end TxSubscription

end HulyGitlab
