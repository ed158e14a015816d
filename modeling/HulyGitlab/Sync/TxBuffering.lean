import HulyGitlab.Lib.Transition
import HulyGitlab.Sync.TxSubscription

/-!
# The subscriber over a run

The handler of a client takes batches of transactions. Until the engine has
started the events wait in a buffer of bounded length; a transaction that makes
the handler throw is skipped. The bindings of the workspace are a live map that
loads change between two batches.
-/

namespace HulyGitlab

namespace TxSubscription

/-- The resolver may throw; without one the map decides. -/
structure HandlerDeps where
  serviceAccountPersonId : String
  resolveBindingForDoc : Option (Ref → String → Except Err (Option BindingRef))

/-- `resolveBinding` at the time a transaction is received. -/
def resolveNow (deps : HandlerDeps) (bindingsByProject : OrderedMap String BindingRef)
    (docRef : Ref) (objectClass : String) : Except Err (Option BindingRef) :=
  match deps.resolveBindingForDoc with
  | some resolver => resolver docRef objectClass
  | none =>
      match bindingsByProject.entries with
      | [entry] => .ok (some entry.2)
      | _ => .ok none

/-- The event of a received value; reading a property of a value that is no object throws. -/
def receive (deps : HandlerDeps) (bindingsByProject : OrderedMap String BindingRef)
    (tx : Option Tx) : Except Err (Option LocalEvent) :=
  match tx with
  | none => .error .typeError
  | some tx =>
      if tx.modifiedBy = deps.serviceAccountPersonId then .ok none
      else if isGitlabOriginated tx then .ok none
      else
        match classify tx with
        | none => .ok none
        | some (kind, change) =>
            (resolveNow deps bindingsByProject tx.objectId tx.objectClass).map fun found =>
              found.map fun binding => ⟨binding, kind, tx.objectId, change⟩

/-- As `index.ts` wires it, the event is the one of the map. -/
theorem receive_wired (serviceAccountPersonId : String)
    (bindingsByProject : OrderedMap String BindingRef) (tx : Tx) :
    receive ⟨serviceAccountPersonId, none⟩ bindingsByProject (some tx) =
      .ok (entryOf ⟨serviceAccountPersonId, bindingsByProject, none⟩ tx) := by
  unfold receive entryOf resolveNow resolveBinding
  dsimp only
  split_ifs
  · rfl
  · rfl
  · cases classify tx with
    | none => rfl
    | some found =>
      cases bindingsByProject.entries with
      | nil => rfl
      | cons entry rest => cases rest <;> rfl

/-- The event of a transaction that is accepted. -/
def accepted (deps : HandlerDeps) (bindingsByProject : OrderedMap String BindingRef)
    (tx : Option Tx) : Option LocalEvent :=
  match receive deps bindingsByProject tx with
  | .ok found => found
  | .error _ => none

/-- A subscriber on its client, the live map, and the `enqueueLocalEvent` calls so far. -/
structure Subscription where
  subscriber : TxSubscriber
  attached : Bool
  bindingsByProject : OrderedMap String BindingRef
  calls : List LocalEvent

namespace Subscription

variable (deps : HandlerDeps)

/-- `start` on a new subscriber. -/
def start (bindingsByProject : OrderedMap String BindingRef) : Subscription :=
  ⟨⟨[], false, false⟩, true, bindingsByProject, []⟩

/-- `onTx`. -/
def onTx (s : Subscription) (tx : Option Tx) : Except Err Subscription :=
  if s.subscriber.stopped then .ok s
  else
    (receive deps s.bindingsByProject tx).map fun
      | none => s
      | some entry =>
          if s.subscriber.engineStarted then { s with calls := s.calls ++ [entry] }
          else if BUFFER_MAX ≤ s.subscriber.buffer.length then s
          else
            { s with
              subscriber := { s.subscriber with buffer := s.subscriber.buffer ++ [entry] } }

/-- One round of the loop of the handler; an error is only logged. -/
def round (s : Subscription) (tx : Option Tx) : Subscription :=
  match s.onTx deps tx with
  | .ok s' => s'
  | .error _ => s

/-- The platform calls the handler, if there is one. -/
def notify (s : Subscription) (txes : List (Option Tx)) : Subscription :=
  if s.attached then txes.foldl (round deps) s else s

def markEngineStarted (s : Subscription) : Subscription :=
  let (subscriber, drained) := TxSubscription.markEngineStarted s.subscriber
  { s with subscriber := subscriber, calls := s.calls ++ drained }

def stop (s : Subscription) : Subscription :=
  { s with subscriber := { s.subscriber with buffer := [], stopped := true }, attached := false }

/-- What happens to a subscriber; loads change the map. -/
inductive Action
  | notify (txes : List (Option Tx))
  | markEngineStarted
  | stop
  | setBindings (bindingsByProject : OrderedMap String BindingRef)
  deriving DecidableEq

def step (s : Subscription) : Action → Subscription
  | .notify txes => s.notify deps txes
  | .markEngineStarted => s.markEngineStarted
  | .stop => s.stop
  | .setBindings bindingsByProject => { s with bindingsByProject := bindingsByProject }

/-- The accepted entries of a run, in the order of their arrival. -/
def entries (bindingsByProject : OrderedMap String BindingRef) : List Action → List LocalEvent
  | [] => []
  | .notify txes :: acts =>
      txes.filterMap (accepted deps bindingsByProject) ++ entries bindingsByProject acts
  | .setBindings bindingsByProject' :: acts => entries bindingsByProject' acts
  | .markEngineStarted :: acts => entries bindingsByProject acts
  | .stop :: acts => entries bindingsByProject acts

/-- The map after a run. -/
def bindingsAfter (bindingsByProject : OrderedMap String BindingRef) :
    List Action → OrderedMap String BindingRef
  | [] => bindingsByProject
  | .setBindings bindingsByProject' :: acts => bindingsAfter bindingsByProject' acts
  | .notify _ :: acts => bindingsAfter bindingsByProject acts
  | .markEngineStarted :: acts => bindingsAfter bindingsByProject acts
  | .stop :: acts => bindingsAfter bindingsByProject acts

/-- The actions up to the stop, if there is one. -/
def untilStop : List Action → List Action
  | [] => []
  | .stop :: _ => []
  | .notify txes :: acts => .notify txes :: untilStop acts
  | .markEngineStarted :: acts => .markEngineStarted :: untilStop acts
  | .setBindings bindingsByProject :: acts => .setBindings bindingsByProject :: untilStop acts

section Rounds

variable {deps : HandlerDeps} {m : OrderedMap String BindingRef} {buffer calls : List LocalEvent}

/-- A subscriber whose engine has not started. -/
def waiting (m : OrderedMap String BindingRef) (buffer : List LocalEvent) : Subscription :=
  ⟨⟨buffer, false, false⟩, true, m, []⟩

/-- A subscriber whose engine has started. -/
def running (m : OrderedMap String BindingRef) (calls : List LocalEvent) : Subscription :=
  ⟨⟨[], true, false⟩, true, m, calls⟩

theorem take_append_take (xs ys : List LocalEvent) (n : Nat) :
    (xs.take n ++ ys).take n = (xs ++ ys).take n := by
  rw [List.take_append, List.take_append, List.take_take, Nat.min_self, List.length_take]
  by_cases h : xs.length ≤ n
  · rw [Nat.min_eq_right h]
  · rw [Nat.min_eq_left (by omega), Nat.sub_self, Nat.sub_eq_zero_of_le (by omega)]

theorem round_waiting (hbuffer : buffer.length ≤ BUFFER_MAX) (tx : Option Tx) :
    (waiting m buffer).round deps tx =
      waiting m ((buffer ++ (accepted deps m tx).toList).take BUFFER_MAX) := by
  have hfull : buffer.take BUFFER_MAX = buffer := List.take_of_length_le hbuffer
  unfold round Subscription.onTx accepted
  have hmap : (waiting m buffer).bindingsByProject = m := rfl
  rw [if_neg (show ¬ (waiting m buffer).subscriber.stopped = true from Bool.false_ne_true), hmap]
  cases receive deps m tx with
  | error err =>
    rw [Option.toList_none, List.append_nil, hfull]
    rfl
  | ok found =>
    cases found with
    | none =>
      rw [Option.toList_none, List.append_nil, hfull]
      rfl
    | some entry =>
      rw [Option.toList_some]
      change (if BUFFER_MAX ≤ buffer.length then waiting m buffer
        else waiting m (buffer ++ [entry])) = _
      by_cases hmax : BUFFER_MAX ≤ buffer.length
      · rw [if_pos hmax, List.take_append_of_le_length hmax, hfull]
      · rw [if_neg hmax, List.take_of_length_le]
        rw [List.length_append, List.length_singleton]
        omega

theorem round_running (tx : Option Tx) :
    (running m calls).round deps tx = running m (calls ++ (accepted deps m tx).toList) := by
  unfold round Subscription.onTx accepted
  have hmap : (running m calls).bindingsByProject = m := rfl
  rw [if_neg (show ¬ (running m calls).subscriber.stopped = true from Bool.false_ne_true), hmap]
  cases receive deps m tx with
  | error err =>
    rw [Option.toList_none, List.append_nil]
    rfl
  | ok found =>
    cases found with
    | none =>
      rw [Option.toList_none, List.append_nil]
      rfl
    | some entry => rfl

theorem filterMap_cons_toList (tx : Option Tx) (txes : List (Option Tx)) :
    (tx :: txes).filterMap (accepted deps m) =
      (accepted deps m tx).toList ++ txes.filterMap (accepted deps m) := by
  rw [List.filterMap_cons]
  cases accepted deps m tx <;> rfl

/-- A batch goes to the buffer, as far as there is room. -/
theorem notify_waiting (hbuffer : buffer.length ≤ BUFFER_MAX) (txes : List (Option Tx)) :
    (waiting m buffer).notify deps txes =
      waiting m ((buffer ++ txes.filterMap (accepted deps m)).take BUFFER_MAX) := by
  rw [notify, if_pos (show (waiting m buffer).attached = true from rfl)]
  induction txes generalizing buffer with
  | nil => rw [List.foldl_nil, List.filterMap_nil, List.append_nil, List.take_of_length_le hbuffer]
  | cons tx txes ih =>
    rw [List.foldl_cons, round_waiting hbuffer, ih (List.length_take_le _ _), take_append_take,
      List.append_assoc, filterMap_cons_toList]

/-- A batch goes to the engine. -/
theorem notify_running (txes : List (Option Tx)) :
    (running m calls).notify deps txes =
      running m (calls ++ txes.filterMap (accepted deps m)) := by
  rw [notify, if_pos (show (running m calls).attached = true from rfl)]
  induction txes generalizing calls with
  | nil => rw [List.foldl_nil, List.filterMap_nil, List.append_nil]
  | cons tx txes ih =>
    rw [List.foldl_cons, round_running, ih, List.append_assoc, filterMap_cons_toList]

end Rounds

section Runs

variable (deps : HandlerDeps)

/-- A stopped subscriber is called no more, and has nothing to drain. -/
structure Stopped (s : Subscription) : Prop where
  detached : s.attached = false
  buffer : s.subscriber.buffer = []

theorem stopped_step {s : Subscription} (h : Stopped s) (act : Action) :
    Stopped (s.step deps act) ∧ (s.step deps act).calls = s.calls := by
  cases act with
  | notify txes =>
    have hsame : s.step deps (.notify txes) = s :=
      if_neg (by rw [h.detached]; exact Bool.false_ne_true)
    rw [hsame]
    exact ⟨h, rfl⟩
  | markEngineStarted =>
    refine ⟨⟨h.detached, rfl⟩, ?_⟩
    change s.calls ++ s.subscriber.buffer = s.calls
    rw [h.buffer, List.append_nil]
  | stop => exact ⟨⟨rfl, rfl⟩, rfl⟩
  | setBindings m => exact ⟨⟨h.detached, h.buffer⟩, rfl⟩

theorem stopped_exec {s : Subscription} (h : Stopped s) (acts : List Action) :
    Stopped (Transition.exec (step deps) s acts) ∧
      (Transition.exec (step deps) s acts).calls = s.calls := by
  induction acts generalizing s with
  | nil => exact ⟨h, rfl⟩
  | cons act acts ih =>
    obtain ⟨hstopped, hcalls⟩ := stopped_step deps h act
    obtain ⟨hlast, hsame⟩ := ih hstopped
    exact ⟨hlast, hsame.trans hcalls⟩

/-- Before the engine starts the entries fill the buffer, unless the subscriber is stopped. -/
theorem exec_waiting {acts : List Action} (hacts : .markEngineStarted ∉ acts)
    (m : OrderedMap String BindingRef) {buffer : List LocalEvent}
    (hbuffer : buffer.length ≤ BUFFER_MAX) :
    (.stop ∈ acts → Stopped (Transition.exec (step deps) (waiting m buffer) acts) ∧
      (Transition.exec (step deps) (waiting m buffer) acts).calls = []) ∧
    (.stop ∉ acts → Transition.exec (step deps) (waiting m buffer) acts =
      waiting (bindingsAfter m acts) ((buffer ++ entries deps m acts).take BUFFER_MAX)) := by
  induction acts generalizing m buffer with
  | nil =>
    refine ⟨fun h => absurd h List.not_mem_nil, fun _ => ?_⟩
    rw [Transition.exec_nil, entries, List.append_nil, List.take_of_length_le hbuffer]
    rfl
  | cons act acts ih =>
    have hrest : .markEngineStarted ∉ acts := fun h => hacts (List.mem_cons_of_mem _ h)
    rw [Transition.exec_cons, List.mem_cons]
    cases act with
    | notify txes =>
      have ih := ih hrest m (List.length_take_le BUFFER_MAX
        (buffer ++ txes.filterMap (accepted deps m)))
      rw [step, notify_waiting hbuffer]
      refine ⟨fun h => ih.1 (h.resolve_left (fun h => by cases h)), fun h => ?_⟩
      rw [ih.2 fun hmem => h (.inr hmem), take_append_take, List.append_assoc, entries,
        bindingsAfter]
    | markEngineStarted => exact absurd List.mem_cons_self hacts
    | stop =>
      refine ⟨fun _ => ?_, fun h => absurd (.inl rfl) h⟩
      have hstopped : Stopped (stop (waiting m buffer)) := ⟨rfl, rfl⟩
      exact stopped_exec deps hstopped acts
    | setBindings m' =>
      have ih := ih hrest m' hbuffer
      refine ⟨fun h => ih.1 (h.resolve_left (fun h => by cases h)), fun h => ?_⟩
      exact ih.2 fun hmem => h (.inr hmem)

/-- From then on every entry goes to the engine, until the subscriber is stopped. -/
theorem calls_running (m : OrderedMap String BindingRef) (calls : List LocalEvent)
    (acts : List Action) :
    (Transition.exec (step deps) (running m calls) acts).calls =
      calls ++ entries deps m (untilStop acts) := by
  induction acts generalizing m calls with
  | nil => exact (List.append_nil calls).symm
  | cons act acts ih =>
    rw [Transition.exec_cons]
    cases act with
    | notify txes => rw [step, notify_running, ih, List.append_assoc, untilStop, entries]
    | markEngineStarted =>
      have hsame : (running m calls).step deps .markEngineStarted = running m calls := by
        change (⟨⟨[], true, false⟩, true, m, calls ++ []⟩ : Subscription) = running m calls
        rw [List.append_nil]
        rfl
      rw [hsame, ih, untilStop, entries]
    | stop =>
      have hstopped : Stopped (stop (running m calls)) := ⟨rfl, rfl⟩
      rw [step, (stopped_exec deps hstopped acts).2, untilStop, entries, List.append_nil]
      rfl
    | setBindings m' =>
      have hsame : (running m calls).step deps (.setBindings m') = running m' calls := rfl
      rw [hsame, ih, untilStop, entries]

end Runs

/-- Nothing is called before the engine starts. Then come the entries that found room in the buffer,
in the order of their arrival, and after them every entry that arrives before the stop; a stop
before the start of the engine leaves none. -/
theorem calls_coldStart (deps : HandlerDeps) (m : OrderedMap String BindingRef)
    (before after : List Action) (hbefore : .markEngineStarted ∉ before) :
    (Transition.exec (step deps) (start m) before).calls = [] ∧
      (Transition.exec (step deps) (start m) (before ++ .markEngineStarted :: after)).calls =
        if .stop ∈ before then []
        else (entries deps m before).take BUFFER_MAX ++
          entries deps (bindingsAfter m before) (untilStop after) := by
  have hempty : ([] : List LocalEvent).length ≤ BUFFER_MAX := Nat.zero_le BUFFER_MAX
  obtain ⟨hstopped, hwaiting⟩ := exec_waiting deps hbefore m hempty
  rw [Transition.exec_append, Transition.exec_cons]
  change (Transition.exec (step deps) (waiting m []) before).calls = [] ∧
    (Transition.exec (step deps) (step deps (Transition.exec (step deps) (waiting m []) before)
      .markEngineStarted) after).calls = _
  by_cases hstop : .stop ∈ before
  · obtain ⟨hlast, hcalls⟩ := hstopped hstop
    obtain ⟨hmarked, hsame⟩ := stopped_step deps hlast .markEngineStarted
    rw [if_pos hstop, (stopped_exec deps hmarked after).2, hsame]
    exact ⟨hcalls, hcalls⟩
  · rw [if_neg hstop, hwaiting hstop]
    exact ⟨rfl, calls_running deps _ _ after⟩

/-- A user renames an issue. -/
def titleChange (title : String) : Tx where
  _class := TX_CLASS_UPDATE
  modifiedBy := "user"
  objectId := "issue"
  objectClass := issueClass
  objectSpace := "project"
  mixin := ""
  attributes := none
  operations := some [("title", .str title)]

/-- A value that is no transaction comes in a batch, and the binding of the workspace changes. -/
def firstBatches : List Action :=
  [.notify [some (titleChange "a"), none, some (titleChange "b")],
    .setBindings (OrderedMap.empty.set "7" "other"), .notify [some (titleChange "c")]]

def lastBatches : List Action := [.notify [some (titleChange "d")], .stop]

theorem calls_coldStart_titleChanges :
    (Transition.exec (step ⟨"service", none⟩) (start (OrderedMap.empty.set "7" "binding"))
        firstBatches).calls = [] ∧
      (Transition.exec (step ⟨"service", none⟩) (start (OrderedMap.empty.set "7" "binding"))
        (firstBatches ++ .markEngineStarted :: lastBatches)).calls =
        if .stop ∈ firstBatches then []
        else (entries ⟨"service", none⟩ (OrderedMap.empty.set "7" "binding")
            firstBatches).take BUFFER_MAX ++
          entries ⟨"service", none⟩ (bindingsAfter (OrderedMap.empty.set "7" "binding")
            firstBatches) (untilStop lastBatches) :=
  calls_coldStart ⟨"service", none⟩ (OrderedMap.empty.set "7" "binding") firstBatches lastBatches
    (by decide)

example : (Transition.exec (step ⟨"service", none⟩) (start (OrderedMap.empty.set "7" "binding"))
    (firstBatches ++ .markEngineStarted :: lastBatches)).calls.map LocalEvent.binding =
      ["binding", "binding", "other", "other"] := by
  decide +kernel

end Subscription

end TxSubscription

end HulyGitlab
