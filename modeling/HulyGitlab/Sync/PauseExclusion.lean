import HulyGitlab.Sync.EngineRows
import HulyGitlab.Sync.OperatorPause

/-!
# What a paused binding starts

Once nothing of a binding waits, the checks of the webhook route and of the
scheduler keep it so while the binding is disabled. What has no check of its
own (a local change, a handler that enqueues again, a row that `start` finds)
must not come, and a migration must find the binding at rest.
-/

namespace HulyGitlab.OperatorPause

open Engine Queue Transition

/-! ### What waits in the engine -/

section Waiting

variable {R : Type*}

def unstarted (s : SyncEngine R) : List (Worker String (QueueEntry R)) :=
  (s.queue.workers.rows.entries.filter fun p =>
    !p.2.settled && (s.dispatches.get? p.1).isNone).map Prod.snd

def inStage (s : SyncEngine R) (stage : DispatchStage) : List (Dispatch R) :=
  s.dispatches.values.filter fun d => d.stage = stage

/-- The bindings of everything in the engine that has not reached its handler. -/
def waiting (s : SyncEngine R) : List String :=
  s.calls.values.map Call.binding ++
    ((s.queue.queues.values.flatMap Entry.items).map fun x => x.event.binding) ++
    ((unstarted s).map fun w => w.item.event.binding) ++
    (inStage s .loading).map fun d => d.entry.event.binding

/-- The bindings of the handlers that are active. -/
def handling (s : SyncEngine R) : List String :=
  (inStage s .handling).map fun d => d.entry.event.binding

/-- No item of the binding is in the queue, or at a worker that has not called `dispatch`. -/
def NoItems (b : String) (dispatches : OrderedMap Nat (Dispatch R))
    (q : EventQueue String (QueueEntry R)) : Prop :=
  ItemsHold (fun _ x => x.event.binding ≠ b)
    (fun i w => w.settled = false → dispatches.get? i = none → w.item.event.binding ≠ b) q

/-- Nothing of the binding waits. -/
structure Clear (b : String) (s : SyncEngine R) : Prop where
  calls : ∀ i c, s.calls.get? i = some c → c.binding ≠ b
  items : NoItems b s.dispatches s.queue
  loading : ∀ i d, s.dispatches.get? i = some d → d.stage = .loading → d.entry.event.binding ≠ b

/-- No handler of the binding is active. -/
def Idle (b : String) (s : SyncEngine R) : Prop :=
  ∀ i d, s.dispatches.get? i = some d → d.stage = .handling → d.entry.event.binding ≠ b

variable {s : SyncEngine R} {b : String}

theorem mem_inStage {stage : DispatchStage} {d : Dispatch R} :
    d ∈ inStage s stage ↔ (∃ i, s.dispatches.get? i = some d) ∧ d.stage = stage := by
  rw [inStage, List.mem_filter, OrderedMap.mem_values_iff, decide_eq_true_iff]

theorem mem_unstarted {w : Worker String (QueueEntry R)} :
    w ∈ unstarted s ↔ ∃ i, s.queue.workers.get? i = some w ∧ w.settled = false ∧
      s.dispatches.get? i = none := by
  unfold unstarted
  simp only [List.mem_map, List.mem_filter, Bool.and_eq_true, Bool.not_eq_true',
    Option.isNone_iff_eq_none]
  constructor
  · rintro ⟨⟨i, w⟩, ⟨hmem, hsettled, hnone⟩, rfl⟩
    exact ⟨i, OrderedMap.get?_of_mem_entries hmem, hsettled, hnone⟩
  · rintro ⟨i, hw, hsettled, hnone⟩
    exact ⟨(i, w), ⟨OrderedMap.mem_entries_of_get? hw, hsettled, hnone⟩, rfl⟩

theorem clear_of_not_mem (h : b ∉ waiting s) : Clear b s := by
  simp only [waiting, List.mem_append, List.mem_map, not_or, not_exists, not_and] at h
  obtain ⟨⟨⟨hcalls, hitems⟩, hworkers⟩, hloading⟩ := h
  refine ⟨fun i c hc => ?_, ⟨fun key x hx => ?_, fun i w hw hsettled hnone => ?_⟩,
    fun i d hd hstage => ?_⟩
  · exact hcalls c ((Registry.mem_values_iff _ _).mpr ⟨i, hc⟩)
  · unfold EventQueue.pending itemsAt at hx
    cases hentry : s.queue.queues.get? key with
    | none =>
      rw [hentry] at hx
      cases hx
    | some entry =>
      rw [hentry] at hx
      exact hitems x
        (List.mem_flatMap.mpr ⟨entry, (OrderedMap.mem_values_iff _ _).mpr ⟨key, hentry⟩, hx⟩)
  · exact hworkers w (mem_unstarted.mpr ⟨i, hw, hsettled, hnone⟩)
  · exact hloading d (mem_inStage.mpr ⟨⟨i, hd⟩, hstage⟩)

theorem idle_iff_not_mem : Idle b s ↔ b ∉ handling s := by
  simp only [Idle, handling, List.mem_map, mem_inStage, not_exists, not_and]
  exact ⟨fun h d hd => h hd.1.choose d hd.1.choose_spec hd.2, fun h i d hd hstage =>
    h d ⟨⟨i, hd⟩, hstage⟩⟩

end Waiting

/-! ### A step of the engine -/

section NoItems

variable {R : Type*} {b : String} {dispatches : OrderedMap Nat (Dispatch R)}
  {q : EventQueue String (QueueEntry R)}

theorem noItems_enqueue (h : NoItems b dispatches q) {key : String} {entry : QueueEntry R}
    (hentry : entry.event.binding ≠ b) : NoItems b dispatches (q.enqueue key entry) :=
  itemsHold_enqueue (fun _ _ _ hx _ _ => hx) h hentry

theorem noItems_resume (h : NoItems b dispatches q) (i : Nat) : NoItems b dispatches (q.resume i) :=
  itemsHold_resume (fun _ _ _ hx _ _ => hx) h i

/-- A worker that has called `dispatch` waits no more. -/
theorem noItems_set (h : NoItems b dispatches q) (i : Nat) (d : Dispatch R) :
    NoItems b (dispatches.set i d) q := by
  refine ⟨h.1, fun j w hw hsettled hnone => h.2 j w hw hsettled ?_⟩
  rw [OrderedMap.get?_set] at hnone
  split at hnone
  · cases hnone
  · exact hnone

/-- A worker that is not settled after one has settled is another one. -/
theorem unsettled_settle {i j : Nat} {ok : Bool} {w : Worker String (QueueEntry R)}
    (hw : (q.settle i ok).workers.get? j = some w) (hsettled : w.settled = false) :
    j ≠ i ∧ q.workers.get? j = some w := by
  unfold EventQueue.settle at hw
  cases hv : q.workers.get? i with
  | none =>
    rw [hv] at hw
    refine ⟨?_, hw⟩
    rintro rfl
    cases hv.symm.trans hw
  | some v =>
    rw [hv] at hw
    cases hs : v.settled with
    | true =>
      simp only [hs, if_true] at hw
      refine ⟨?_, hw⟩
      rintro rfl
      cases hv.symm.trans hw
      cases hs.symm.trans hsettled
    | false =>
      simp only [hs, Bool.false_eq_true, if_false] at hw
      rw [Registry.get?_update hv] at hw
      split at hw
      · cases hw
        cases hsettled
      next hj => exact ⟨hj, hw⟩

theorem pending_settle (i : Nat) (ok : Bool) (key : String) :
    (q.settle i ok).pending key = q.pending key := by
  rcases EventQueue.settle_cases q i ok with hq | ⟨w, _, _, hq⟩
  · rw [hq]
  · rw [hq]
    rfl

/-- When `dispatch` returns its worker settles. -/
theorem noItems_finish (h : NoItems b dispatches q) (i : Nat) (ok : Bool) :
    NoItems b (dispatches.delete i) (q.settle i ok) := by
  constructor
  · intro key x hx
    rw [pending_settle] at hx
    exact h.1 key x hx
  · intro j w hw hsettled hnone
    obtain ⟨hj, hold⟩ := unsettled_settle hw hsettled
    rw [OrderedMap.get?_delete_of_ne _ hj] at hnone
    exact h.2 j w hold hsettled hnone

end NoItems

section Step

variable {R : Type*} [Inhabited R] {managers : Managers R}

/-- The binding whose row the next round of `start` queues again. -/
def resumed (managers : Managers R) (s : SyncEngine R) : Option String :=
  match s.boot with
  | [] => none
  | (id, row) :: _ =>
      if row.startedAt < s.cutoff then none
      else (SyncEngine.bootEntry managers id row).map fun e => e.2.event.binding

/-- The binding that a step of the engine brings new work for. -/
def brings (managers : Managers R) (s : SyncEngine R) : Engine.Action R → Option String
  | .call binding _ _ _ _ => some binding
  | .enqueueLocalEvent binding _ _ _ => some binding
  | .enqueueBackfillKind binding _ _ => some binding
  | .bootStep => resumed managers s
  | _ => none

variable {s s' : SyncEngine R} {a : Engine.Action R} {b : String}

omit [Inhabited R] in
/-- A call that moves on keeps its binding. -/
theorem calls_update {calls : Registry (Call R)} (h : ∀ i c, calls.get? i = some c → c.binding ≠ b)
    {i : Nat} {c c' : Call R} (hc : calls.get? i = some c) (hsame : c'.binding = c.binding) :
    ∀ j d, (calls.update i c').get? j = some d → d.binding ≠ b := by
  intro j d hd
  rw [Registry.get?_update hc] at hd
  split at hd
  · cases hd
    rw [hsame]
    exact h i c hc
  · exact h j d hd

omit [Inhabited R] in
theorem calls_remove {calls : Registry (Call R)} (h : ∀ i c, calls.get? i = some c → c.binding ≠ b)
    (i : Nat) : ∀ j d, (calls.remove i).get? j = some d → d.binding ≠ b :=
  fun j d hd => h j d (Registry.get?_of_get?_remove hd).2

theorem effect_calls (h : Engine.Effect managers s a s') (hclear : Clear b s)
    (hbrings : brings managers s a ≠ some b) :
    ∀ i c, s'.calls.get? i = some c → c.binding ≠ b := by
  cases h with
  | call hup =>
    intro i c hc
    rw [Registry.get?_add] at hc
    split at hc
    · cases hc
      exact fun heq => hbrings (congrArg some heq)
    · exact hclear.calls i c hc
  | findDuplicate => exact calls_remove hclear.calls _
  | insertDuplicate => exact calls_remove hclear.calls _
  | push => exact calls_remove hclear.calls _
  | fail => exact calls_remove hclear.calls _
  | findNew hc => exact calls_update hclear.calls hc rfl
  | insertNew hc => exact calls_update hclear.calls hc rfl
  | record hc => exact calls_update hclear.calls hc rfl
  | stop => exact fun _ _ hc => nomatch hc
  | _ => exact hclear.calls

theorem effect_items (h : Engine.Effect managers s a s') (hclear : Clear b s)
    (hbrings : brings managers s a ≠ some b) : NoItems b s'.dispatches s'.queue := by
  cases h with
  | push hc =>
    dsimp only
    exact noItems_enqueue hclear.items (hclear.calls _ _ hc)
  | enqueueLocalEvent =>
    dsimp only
    exact noItems_enqueue hclear.items fun heq => hbrings (congrArg some heq)
  | enqueueBackfillKind =>
    dsimp only
    exact noItems_enqueue hclear.items fun heq => hbrings (congrArg some heq)
  | requeue hboot hage hrow =>
    dsimp only
    refine noItems_enqueue hclear.items fun heq => hbrings ?_
    unfold brings resumed
    rw [hboot]
    dsimp only
    rw [if_neg (Nat.not_lt.mpr hage), hrow]
    exact congrArg some heq
  | beginSkip => exact noItems_finish hclear.items _ _
  | beginDrop => exact noItems_set hclear.items _ _
  | beginLoad => exact noItems_set hclear.items _ _
  | load => exact noItems_set hclear.items _ _
  | handleEnd => exact noItems_finish hclear.items _ _
  | handleRow => exact noItems_set hclear.items _ _
  | delete => exact noItems_finish hclear.items _ _
  | resume => exact noItems_resume hclear.items _
  | stop => exact itemsHold_new _ _ _
  | _ => exact hclear.items

/-- A dispatch was there before, or has begun for the item of a waiting worker, or has come to
its handler, or only has its row to delete. -/
theorem effect_stage (h : Engine.Effect managers s a s') {i : Nat} {d : Dispatch R}
    (hd : s'.dispatches.get? i = some d) :
    s.dispatches.get? i = some d ∨
      (d.stage = .loading ∧ ∃ w, s.queue.workers.get? i = some w ∧ w.settled = false ∧
        s.dispatches.get? i = none ∧ d.entry = w.item) ∨
      (d.stage = .handling ∧ ∃ d₀, s.dispatches.get? i = some d₀ ∧ d₀.stage = .loading ∧
        d.entry = d₀.entry) ∨
      ∃ id, d.stage = .dropping id ∨ d.stage = .deleting id := by
  have hdelete : ∀ worker, (s.dispatches.delete worker).get? i = some d →
      s.dispatches.get? i = some d := by
    intro worker hd
    rw [OrderedMap.get?_delete] at hd
    split at hd
    · cases hd
    · exact hd
  have hset : ∀ {worker : Nat} {d' : Dispatch R}, (s.dispatches.set worker d').get? i = some d →
      s.dispatches.get? i = some d ∨ i = worker ∧ d = d' := by
    intro worker d' hd
    rw [OrderedMap.get?_set] at hd
    split at hd
    next heq => exact .inr ⟨heq, (Option.some.inj hd).symm⟩
    next => exact .inl hd
  cases h with
  | beginSkip => exact .inl (hdelete _ hd)
  | handleEnd => exact .inl (hdelete _ hd)
  | delete => exact .inl (hdelete _ hd)
  | beginDrop =>
    rcases hset hd with hold | ⟨rfl, rfl⟩
    · exact .inl hold
    · exact .inr (.inr (.inr ⟨_, .inl rfl⟩))
  | handleRow =>
    rcases hset hd with hold | ⟨rfl, rfl⟩
    · exact .inl hold
    · exact .inr (.inr (.inr ⟨_, .inr rfl⟩))
  | beginLoad hw hnone hsettled =>
    rcases hset hd with hold | ⟨rfl, rfl⟩
    · exact .inl hold
    · exact .inr (.inl ⟨rfl, _, hw, hsettled, hnone, rfl⟩)
  | load hd₀ hstage =>
    rcases hset hd with hold | ⟨rfl, rfl⟩
    · exact .inl hold
    · exact .inr (.inr (.inl ⟨rfl, _, hd₀, hstage, rfl⟩))
  | stop => cases hd
  | _ => exact .inl hd

/-- Nothing of a binding waits after a step that brings nothing for it. -/
theorem clear_step (hclear : Clear b s) (hbrings : brings managers s a ≠ some b) :
    Clear b (Engine.step managers s a) := by
  rcases step_effect managers s a with heq | h
  · rwa [heq]
  · refine ⟨effect_calls h hclear hbrings, effect_items h hclear hbrings, fun i d hd hstage => ?_⟩
    rcases effect_stage h hd with hold | ⟨_, w, hw, hsettled, hnone, hentry⟩ | ⟨hs, _⟩ |
      ⟨id, hs | hs⟩
    · exact hclear.loading i d hold hstage
    · rw [hentry]
      exact hclear.items.2 i w hw hsettled hnone
    · cases hs.symm.trans hstage
    · cases hs.symm.trans hstage
    · cases hs.symm.trans hstage

/-- A handler starts from a dispatch that waited. -/
theorem idle_step (hclear : Clear b s) (hidle : Idle b s) :
    Idle b (Engine.step managers s a) := by
  rcases step_effect managers s a with heq | h
  · rwa [heq]
  · intro i d hd hstage
    rcases effect_stage h hd with hold | ⟨hs, _⟩ | ⟨_, d₀, hd₀, hloading, hentry⟩ | ⟨id, hs | hs⟩
    · exact hidle i d hold hstage
    · cases hs.symm.trans hstage
    · rw [hentry]
      exact hclear.loading i d₀ hd₀ hloading
    · cases hs.symm.trans hstage
    · cases hs.symm.trans hstage

/-- A sweep for another binding, with all its kinds. -/
theorem enqueueBackfill_eq_exec (managers : Managers R) (s : SyncEngine R) (binding : String)
    (since : Option Nat) :
    s.enqueueBackfill managers binding since =
      exec (Engine.step managers) s
        (managers.keys.map fun kind => .enqueueBackfillKind binding since kind) := by
  unfold SyncEngine.enqueueBackfill exec
  rw [List.foldl_map]
  rfl

end Step

/-! ### The service -/

namespace Service

variable (managers : Managers Fields) (s : Service)

/-- The bindings of the migrations that are at their documents. -/
def migrating : List String :=
  (s.migrations.values.filter fun m => m.stage = .rewriting).map Migration.binding

/-- The bindings whose work must rest. -/
def held : List String := s.paused ++ s.migrating

/-- The bindings of everything that may still start a handler. -/
def waiting : List String :=
  s.deliveries.values.map (fun d => d.request.bindingId) ++ s.polls.values.map Poll.binding ++
    OperatorPause.waiting s.engine

/-- The binding whose handler a step calls. -/
def starts : Action → Option String
  | .engine ⟨.load worker _, _⟩ =>
      match s.engine.dispatches.get? worker with
      | some d => if d.stage = .loading then some d.entry.event.binding else none
      | none => none
  | _ => none

/-- The binding whose migration a step brings to its documents. -/
def migratesNext : Action → Option String
  | .advanceMigration i =>
      match s.migrations.get? i with
      | none => none
      | some m =>
          match m.stage, m.routine with
          | .loading, .reviewerLabels => some m.binding
          | .rechecking, _ => if s.isDisabled m.binding then some m.binding else none
          | _, _ => none
  | _ => none

/-- The binding that a step pauses, by answering the PATCH. -/
def pauses : Action → Option String
  | .advancePatch i =>
      match s.patches.get? i with
      | none => none
      | some p =>
          if p.stage = .refreshing ∧ p.disabled = some true ∧ s.isDisabled p.id then some p.id
          else none
  | _ => none

/-- The binding that a step enables. -/
def enables : Action → Option String
  | .advancePatch i =>
      match s.patches.get? i with
      | none => none
      | some p => if p.stage = .updating false then some p.id else none
  | _ => none

/-- The binding that a step brings work for without a look at `disabled`. -/
def bringsUnchecked : Action → Option String
  | .engine a => brings managers s.engine a.1
  | _ => none

end Service

/-- A binding is paused, and a migration begins, when nothing of the binding waits; no work comes
for it by the ways without a check, and it is not enabled under a migration. -/
structure AtRest (managers : Managers Fields) (s : Service) (a : Action) : Prop where
  pauses : ∀ b ∈ s.pauses a, b ∉ s.waiting
  migrates : ∀ b ∈ s.migratesNext a,
    s.isDisabled b = true ∧ b ∉ s.waiting ∧ b ∉ handling s.engine
  brings : ∀ b ∈ s.bringsUnchecked managers a, b ∉ s.held
  enables : ∀ b ∈ s.enables a, b ∉ s.migrating

instance (managers : Managers Fields) (s : Service) (a : Action) :
    Decidable (AtRest managers s a) :=
  decidable_of_iff ((∀ b ∈ s.pauses a, b ∉ s.waiting) ∧
      (∀ b ∈ s.migratesNext a,
        s.isDisabled b = true ∧ b ∉ s.waiting ∧ b ∉ handling s.engine) ∧
      (∀ b ∈ s.bringsUnchecked managers a, b ∉ s.held) ∧ ∀ b ∈ s.enables a, b ∉ s.migrating)
    ⟨fun h => ⟨h.1, h.2.1, h.2.2.1, h.2.2.2⟩,
      fun h => ⟨h.pauses, h.migrates, h.brings, h.enables⟩⟩

/-- No handler of a paused binding starts, and no migration runs beside a handler of its binding. -/
structure Excludes (managers : Managers Fields) (s : Service) (acts : List Action) : Prop where
  started : Along (step managers) (fun s a => ∀ b ∈ s.starts a, b ∉ s.paused) s acts
  migrations : Throughout (step managers) (fun s => ∀ b ∈ s.migrating, b ∉ handling s.engine) s acts

/-! ### One step of the service -/

/-- The binding is disabled and nothing of it waits anywhere. -/
structure Kept (b : String) (s : Service) : Prop where
  disabled : s.isDisabled b = true
  deliveries : ∀ i d, s.deliveries.get? i = some d → d.request.bindingId ≠ b
  polls : ∀ i p, s.polls.get? i = some p → p.binding ≠ b
  clear : Clear b s.engine

/-- What a request that only moves itself leaves as it was. -/
structure Frame (s s' : Service) : Prop where
  engine : s'.engine = s.engine
  bindings : s'.bindings = s.bindings
  deliveries : s'.deliveries = s.deliveries
  polls : s'.polls = s.polls
  paused : s'.paused = s.paused

section Kept

variable {managers : Managers Fields} {s s' : Service} {b : String}

theorem kept_of_not_mem (hdisabled : s.isDisabled b = true) (h : b ∉ s.waiting) : Kept b s := by
  simp only [Service.waiting, List.mem_append, List.mem_map, not_or, not_exists, not_and] at h
  obtain ⟨⟨hdeliveries, hpolls⟩, hengine⟩ := h
  exact ⟨hdisabled, fun i d hd => hdeliveries d ((Registry.mem_values_iff _ _).mpr ⟨i, hd⟩),
    fun i p hp => hpolls p ((Registry.mem_values_iff _ _).mpr ⟨i, hp⟩), clear_of_not_mem hengine⟩

theorem isDisabled_congr (h : s'.bindings = s.bindings) : s'.isDisabled b = s.isDisabled b := by
  unfold Service.isDisabled
  rw [h]

theorem Frame.kept (hframe : Frame s s') (h : Kept b s) : Kept b s' where
  disabled := (isDisabled_congr hframe.bindings).trans h.disabled
  deliveries := hframe.deliveries ▸ h.deliveries
  polls := hframe.polls ▸ h.polls
  clear := hframe.engine ▸ h.clear

/-- Clearness does not depend on the breaker. -/
theorem clear_withBreaker (h : Clear b s.engine) (breaker : Breaker.InMemoryBindingBreaker) :
    Clear b (s.withBreaker breaker).engine :=
  ⟨h.calls, h.items, h.loading⟩

theorem kept_receive (h : Kept b s) (request : Webhook.WebhookRequest) :
    Kept b (s.receive request) := by
  unfold Service.receive
  split
  · exact h
  · cases hbinding : s.bindings.get? request.bindingId with
    | none => exact h
    | some binding =>
      dsimp only
      split
      · exact h
      next henabled =>
        refine ⟨h.disabled, Registry.forall_add ?_ h.deliveries, h.polls, h.clear⟩
        rintro rfl
        have hdisabled := h.disabled
        unfold Service.isDisabled at hdisabled
        rw [hbinding] at hdisabled
        exact henabled hdisabled

theorem kept_forward (h : Kept b s) (i : Nat) (secret : Except Err (Option String)) :
    Kept b (s.forward i secret) := by
  unfold Service.forward
  cases hd : s.deliveries.get? i with
  | none => exact h
  | some d =>
    have hremoved : ∀ j e, (s.deliveries.remove i).get? j = some e → e.request.bindingId ≠ b :=
      fun j e he => h.deliveries j e (Registry.get?_of_get?_remove he).2
    dsimp only
    cases he : (Webhook.handle (s.lookups d.binding secret) d.request).2 with
    | none => exact ⟨h.disabled, hremoved, h.polls, h.clear⟩
    | some e =>
      obtain ⟨-, kind, -, rfl⟩ := (Webhook.handle_enqueues_iff _).mp he
      refine ⟨h.disabled, hremoved, h.polls, ?_⟩
      have hother : d.request.bindingId ≠ b := h.deliveries i d hd
      -- `call` is the same for all managers
      change Clear b (Engine.step .empty s.engine (.call d.request.bindingId kind _ _ _))
      exact clear_step h.clear fun heq => hother (Option.some.inj heq)

theorem mem_enabled {id : String} (h : id ∈ s.enabled) : s.isDisabled id = false := by
  unfold Service.enabled at h
  simp only [List.mem_map, List.mem_filter, Bool.not_eq_true'] at h
  obtain ⟨⟨id, binding⟩, ⟨hmem, henabled⟩, rfl⟩ := h
  unfold Service.isDisabled
  rw [OrderedMap.get?_of_mem_entries hmem]
  exact henabled

theorem polls_add {polls : Registry Poll} {ids : List String}
    (h : ∀ i p, polls.get? i = some p → p.binding ≠ b) (hids : b ∉ ids) :
    ∀ i p, (ids.foldl (fun polls id => polls.add ⟨id, .listed⟩) polls).get? i = some p →
      p.binding ≠ b := by
  induction ids generalizing polls with
  | nil => exact h
  | cons id ids ih =>
    refine ih ?_ (List.not_mem_of_not_mem_cons hids)
    exact Registry.forall_add (fun heq => hids (heq ▸ List.mem_cons_self)) h

theorem kept_tick (h : Kept b s) : Kept b s.tick := by
  unfold Service.tick
  split
  · refine ⟨h.disabled, h.deliveries, polls_add h.polls fun hmem => ?_, h.clear⟩
    cases (mem_enabled hmem).symm.trans h.disabled
  · exact h

theorem kept_processBinding (h : Kept b s) (i : Nat) : Kept b (s.processBinding i) := by
  unfold Service.processBinding
  cases hp : s.polls.get? i with
  | none => exact h
  | some p =>
    cases hstage : p.stage with
    | resolving => simpa only [hstage] using h
    | listed =>
      simp only [hstage]
      split
      · exact ⟨h.disabled, h.deliveries,
          fun j e he => h.polls j e (Registry.get?_of_get?_remove he).2,
          clear_withBreaker h.clear _⟩
      · refine ⟨h.disabled, h.deliveries, ?_, clear_withBreaker h.clear _⟩
        exact Registry.forall_update hp (h.polls i p hp) fun j e _ he => h.polls j e he

theorem clear_enqueueBackfill {s : SyncEngine Fields} (h : Clear b s) {binding : String}
    (hother : binding ≠ b) (since : Option Nat) :
    Clear b (s.enqueueBackfill managers binding since) := by
  rw [enqueueBackfill_eq_exec]
  generalize managers.keys = kinds
  induction kinds generalizing s with
  | nil => exact h
  | cons kind kinds ih => exact ih (clear_step h fun heq => hother (Option.some.inj heq))

theorem kept_resolve (h : Kept b s) (i : Nat) (cursors : Option (Option Nat × Option Nat)) :
    Kept b (s.resolve managers i cursors) := by
  unfold Service.resolve
  cases hp : s.polls.get? i with
  | none => exact h
  | some p =>
    have hremoved : ∀ j e, (s.polls.remove i).get? j = some e → e.binding ≠ b :=
      fun j e he => h.polls j e (Registry.get?_of_get?_remove he).2
    cases hstage : p.stage with
    | listed => simpa only [hstage] using h
    | resolving =>
      simp only [hstage]
      cases cursors with
      | none => exact ⟨h.disabled, h.deliveries, hremoved, clear_withBreaker h.clear _⟩
      | some cursors =>
        have hclear : Clear b (s.engine.enqueueBackfill managers p.binding
            (Backfill.resolveSince s.engine.now cursors.1 cursors.2)) :=
          clear_enqueueBackfill h.clear (h.polls i p hp) _
        exact ⟨h.disabled, h.deliveries, hremoved, hclear.calls, hclear.items, hclear.loading⟩

theorem isDisabled_updateDisabled {id : String} {disabled : Bool}
    (hdisabled : s.isDisabled b = true) (h : id = b → disabled = true) :
    (s.updateDisabled id disabled).isDisabled b = true := by
  unfold Service.updateDisabled
  unfold Service.isDisabled at hdisabled ⊢
  cases hbinding : s.bindings.get? id with
  | none => exact hdisabled
  | some binding =>
    dsimp only
    by_cases heq : b = id
    · rw [heq, OrderedMap.get?_set_self]
      exact h heq.symm
    · rwa [OrderedMap.get?_set_of_ne _ heq]

theorem kept_advancePatch (h : Kept b s) {i : Nat}
    (henables : s.enables (.advancePatch i) ≠ some b) :
    Kept b (s.advancePatch i) := by
  unfold Service.advancePatch
  dsimp only [Service.enables] at henables
  cases hp : s.patches.get? i with
  | none => exact h
  | some p =>
    rw [hp] at henables
    dsimp only at henables ⊢
    cases hstage : p.stage with
    | finding =>
      dsimp only
      split <;> exact ⟨h.disabled, h.deliveries, h.polls, h.clear⟩
    | refreshing => exact ⟨h.disabled, h.deliveries, h.polls, h.clear⟩
    | updating disabled =>
      have hkept : p.id = b → disabled = true := by
        rintro rfl
        rw [hstage] at henables
        cases disabled with
        | true => rfl
        | false => exact absurd (if_pos rfl) henables
      exact ⟨isDisabled_updateDisabled h.disabled hkept, h.deliveries, h.polls, h.clear⟩

theorem frame_patch (id : String) (disabled : JsValue) : Frame s (s.patch id disabled) := by
  unfold Service.patch
  split
  · exact ⟨rfl, rfl, rfl, rfl, rfl⟩
  · exact ⟨rfl, rfl, rfl, rfl, rfl⟩

theorem frame_migrate (routine : MigrationRoutine) (id : String) :
    Frame s (s.migrate routine id) := by
  unfold Service.migrate
  split
  · exact ⟨rfl, rfl, rfl, rfl, rfl⟩
  · exact ⟨rfl, rfl, rfl, rfl, rfl⟩

theorem frame_advanceMigration (i : Nat) : Frame s (s.advanceMigration i) := by
  unfold Service.advanceMigration
  repeat' split
  all_goals exact ⟨rfl, rfl, rfl, rfl, rfl⟩

theorem frame_timeOut (i : Nat) : Frame s (s.timeOut i) := by
  unfold Service.timeOut
  repeat' split
  all_goals exact ⟨rfl, rfl, rfl, rfl, rfl⟩

/-- Nothing comes to wait for a disabled binding but by the ways without a check. -/
theorem kept_step (h : Kept b s) {a : Action} (hbrings : s.bringsUnchecked managers a ≠ some b)
    (henables : s.enables a ≠ some b) : Kept b (step managers s a) := by
  cases a with
  | engine a => exact ⟨h.disabled, h.deliveries, h.polls, clear_step h.clear hbrings⟩
  | receive request => exact kept_receive h request
  | forward i secret => exact kept_forward h i secret
  | tick => exact kept_tick h
  | processBinding i => exact kept_processBinding h i
  | resolve i cursors => exact kept_resolve h i cursors
  | patch id disabled => exact (frame_patch id disabled).kept h
  | advancePatch i => exact kept_advancePatch h henables
  | rejectPatch i => exact ⟨h.disabled, h.deliveries, h.polls, h.clear⟩
  | migrate routine id => exact (frame_migrate routine id).kept h
  | advanceMigration i => exact (frame_advanceMigration i).kept h
  | timeOut i => exact (frame_timeOut i).kept h
  | endMigration i => exact ⟨h.disabled, h.deliveries, h.polls, h.clear⟩
  | stop =>
    have hclear : Clear b (Engine.step managers s.engine .stop) := clear_step h.clear nofun
    exact ⟨h.disabled, nofun, nofun, hclear⟩

end Kept

/-! ### Which bindings are held -/

section Held

variable {managers : Managers Fields} {s : Service} {b : String}

theorem mem_migrating : b ∈ s.migrating ↔
    ∃ i m, s.migrations.get? i = some m ∧ m.stage = .rewriting ∧ m.binding = b := by
  unfold Service.migrating
  simp only [List.mem_map, List.mem_filter, decide_eq_true_eq, Registry.mem_values_iff]
  constructor
  · rintro ⟨m, ⟨⟨i, hm⟩, hstage⟩, rfl⟩
    exact ⟨i, m, hm, hstage, rfl⟩
  · rintro ⟨i, m, hm, hstage, rfl⟩
    exact ⟨m, ⟨⟨i, hm⟩, hstage⟩, rfl⟩

theorem migrating_of_migrations {s' : Service} (h : s'.migrations = s.migrations) :
    s'.migrating = s.migrating := by
  unfold Service.migrating
  rw [h]

theorem migrating_remove {i : Nat} (h : b ∈ (s.endMigration i).migrating) : b ∈ s.migrating := by
  obtain ⟨j, m, hm, hrest⟩ := mem_migrating.mp h
  exact mem_migrating.mpr ⟨j, m, (Registry.get?_of_get?_remove hm).2, hrest⟩

/-- A migration that moves is the only one whose place changes. -/
theorem migrating_move {i : Nat} {m : Migration} (hm : s.migrations.get? i = some m)
    {stage : MigrationStage} (h : b ∈ (s.moveMigration i m stage).migrating) :
    b ∈ s.migrating ∨ stage = .rewriting ∧ m.binding = b := by
  obtain ⟨j, m', hm', hstage, hbinding⟩ := mem_migrating.mp h
  rw [Service.moveMigration, Registry.get?_update hm] at hm'
  split at hm'
  · cases hm'
    exact .inr ⟨hstage, hbinding⟩
  · exact .inl (mem_migrating.mpr ⟨j, m', hm', hstage, hbinding⟩)

theorem migrating_advance {i : Nat} (h : b ∈ (s.advanceMigration i).migrating) :
    b ∈ s.migrating ∨ s.migratesNext (.advanceMigration i) = some b := by
  unfold Service.advanceMigration at h
  cases hm : s.migrations.get? i with
  | none =>
    rw [hm] at h
    exact .inl h
  | some m =>
    rw [hm] at h
    have hmove : ∀ {stage : MigrationStage}, b ∈ (s.moveMigration i m stage).migrating →
        stage ≠ .rewriting → b ∈ s.migrating :=
      fun h hstage => (migrating_move hm h).resolve_right fun hnew => hstage hnew.1
    simp only [Service.migratesNext, hm]
    cases hstage : m.stage with
    | finding =>
      simp only [hstage] at h
      split at h
      · exact .inl (hmove h nofun)
      · exact .inl (migrating_remove h)
    | loading =>
      cases hroutine : m.routine with
      | reviewerLabels =>
        simp only [hstage, hroutine] at h
        exact (migrating_move hm h).imp id fun hnew => congrArg some hnew.2
      | mixinSplit =>
        simp only [hstage, hroutine] at h
        exact .inl (hmove h nofun)
    | draining =>
      simp only [hstage] at h
      split at h
      · exact .inl h
      · exact .inl (hmove h nofun)
    | rechecking =>
      simp only [hstage] at h
      split at h
      next hdisabled =>
        rw [if_pos hdisabled]
        exact (migrating_move hm h).imp id fun hnew => congrArg some hnew.2
      next => exact .inl (migrating_remove h)
    | rewriting =>
      simp only [hstage] at h
      exact .inl h

theorem migrating_timeOut {i : Nat} (h : b ∈ (s.timeOut i).migrating) : b ∈ s.migrating := by
  unfold Service.timeOut at h
  cases hm : s.migrations.get? i with
  | none =>
    rw [hm] at h
    exact h
  | some m =>
    rw [hm] at h
    dsimp only at h
    split at h
    · split at h
      · exact migrating_remove h
      · exact (migrating_move hm h).resolve_right fun hnew => nomatch hnew.1
    · exact h

/-- What neither pauses, nor enables, nor migrates. -/
structure Aside (s s' : Service) : Prop where
  migrations : s'.migrations = s.migrations
  paused : s'.paused = s.paused

theorem aside_receive (request : Webhook.WebhookRequest) : Aside s (s.receive request) := by
  unfold Service.receive
  repeat' split
  all_goals exact ⟨rfl, rfl⟩

theorem aside_forward (i : Nat) (secret : Except Err (Option String)) :
    Aside s (s.forward i secret) := by
  unfold Service.forward
  repeat' split
  all_goals exact ⟨rfl, rfl⟩

theorem aside_tick : Aside s s.tick := by
  unfold Service.tick
  split
  · exact ⟨rfl, rfl⟩
  · exact ⟨rfl, rfl⟩

theorem aside_processBinding (i : Nat) : Aside s (s.processBinding i) := by
  unfold Service.processBinding
  repeat' split
  all_goals exact ⟨rfl, rfl⟩

theorem aside_resolve (i : Nat) (cursors : Option (Option Nat × Option Nat)) :
    Aside s (s.resolve managers i cursors) := by
  unfold Service.resolve
  repeat' split
  all_goals exact ⟨rfl, rfl⟩

theorem aside_patch (id : String) (disabled : JsValue) : Aside s (s.patch id disabled) := by
  unfold Service.patch
  split
  · exact ⟨rfl, rfl⟩
  · exact ⟨rfl, rfl⟩

theorem migrations_advancePatch (i : Nat) : (s.advancePatch i).migrations = s.migrations := by
  unfold Service.advancePatch
  cases hp : s.patches.get? i with
  | none => rfl
  | some p =>
    cases hstage : p.stage with
    | finding =>
      simp only [hstage]
      split <;> rfl
    | updating disabled =>
      simp only [hstage]
      rfl
    | refreshing => simp only [hstage, Service.answerPatch]

theorem migrating_migrate {routine : MigrationRoutine} {id : String}
    (h : b ∈ (s.migrate routine id).migrating) : b ∈ s.migrating := by
  unfold Service.migrate at h
  split at h
  · obtain ⟨j, m, hm, hstage, hbinding⟩ := mem_migrating.mp h
    rw [Registry.get?_add] at hm
    split at hm
    · cases hm
      cases hstage
    · exact mem_migrating.mpr ⟨j, m, hm, hstage, hbinding⟩
  · exact h

theorem migrating_step {a : Action} (h : b ∈ (step managers s a).migrating) :
    b ∈ s.migrating ∨ s.migratesNext a = some b := by
  have hsame : ∀ {s' : Service}, s'.migrations = s.migrations → b ∈ s'.migrating →
      b ∈ s.migrating ∨ s.migratesNext a = some b :=
    fun heq h => .inl (migrating_of_migrations heq ▸ h)
  cases a with
  | advanceMigration i => exact migrating_advance h
  | timeOut i => exact .inl (migrating_timeOut h)
  | endMigration i => exact .inl (migrating_remove h)
  | migrate routine id => exact .inl (migrating_migrate h)
  | stop => cases h
  | engine a => exact hsame rfl h
  | rejectPatch i => exact hsame rfl h
  | receive request => exact hsame (aside_receive request).migrations h
  | forward i secret => exact hsame (aside_forward i secret).migrations h
  | tick => exact hsame aside_tick.migrations h
  | processBinding i => exact hsame (aside_processBinding i).migrations h
  | resolve i cursors => exact hsame (aside_resolve i cursors).migrations h
  | patch id disabled => exact hsame (aside_patch id disabled).migrations h
  | advancePatch i => exact hsame (migrations_advancePatch i) h

theorem paused_updateDisabled {id : String} {disabled : Bool}
    (h : b ∈ (s.updateDisabled id disabled).paused) :
    b ∈ s.paused ∧ (disabled = false → id ≠ b) := by
  unfold Service.updateDisabled at h
  cases disabled with
  | true => exact ⟨h, nofun⟩
  | false =>
    obtain ⟨hmem, hother⟩ := List.mem_filter.mp h
    exact ⟨hmem, fun _ heq => of_decide_eq_true hother heq.symm⟩

/-- Only the answer of a PATCH pauses a binding, and one that enables it ends the pause. -/
theorem paused_advancePatch {i : Nat} (h : b ∈ (s.advancePatch i).paused) :
    s.enables (.advancePatch i) ≠ some b ∧
      (b ∈ s.paused ∨ s.pauses (.advancePatch i) = some b) := by
  unfold Service.advancePatch at h
  cases hp : s.patches.get? i with
  | none =>
    rw [hp] at h
    exact ⟨by simp only [Service.enables, hp, ne_eq, reduceCtorEq, not_false_eq_true], .inl h⟩
  | some p =>
    simp only [Service.enables, Service.pauses, hp]
    cases hstage : p.stage with
    | finding =>
      simp only [hp, hstage] at h
      refine ⟨(Option.some_ne_none b).symm, .inl ?_⟩
      split at h <;> exact h
    | updating disabled =>
      simp only [hp, hstage] at h
      have hupdated : b ∈ (s.updateDisabled p.id disabled).paused := h
      obtain ⟨hpaused, hother⟩ := paused_updateDisabled hupdated
      refine ⟨?_, .inl hpaused⟩
      split
      next hfalse =>
        exact fun heq => hother (PatchStage.updating.inj hfalse) (Option.some.inj heq)
      next => exact (Option.some_ne_none b).symm
    | refreshing =>
      simp only [hp, hstage, Service.answerPatch] at h
      refine ⟨(Option.some_ne_none b).symm, ?_⟩
      simp only [true_and]
      split at h
      next hdisabled =>
        rw [if_pos hdisabled]
        exact (List.mem_cons.mp h).symm.imp id fun heq => congrArg some heq.symm
      next => exact .inl h

theorem paused_step {a : Action} (h : b ∈ (step managers s a).paused) :
    s.enables a ≠ some b ∧ (b ∈ s.paused ∨ s.pauses a = some b) := by
  have hsame : ∀ {s' : Service}, s'.paused = s.paused → b ∈ s'.paused → b ∈ s.paused :=
    fun heq h => heq ▸ h
  cases a with
  | advancePatch i => exact paused_advancePatch h
  | receive request => exact ⟨nofun, .inl (hsame (aside_receive request).paused h)⟩
  | forward i secret => exact ⟨nofun, .inl (hsame (aside_forward i secret).paused h)⟩
  | tick => exact ⟨nofun, .inl (hsame aside_tick.paused h)⟩
  | processBinding i => exact ⟨nofun, .inl (hsame (aside_processBinding i).paused h)⟩
  | resolve i cursors => exact ⟨nofun, .inl (hsame (aside_resolve i cursors).paused h)⟩
  | patch id disabled => exact ⟨nofun, .inl (hsame (aside_patch id disabled).paused h)⟩
  | migrate routine id => exact ⟨nofun, .inl (hsame (frame_migrate routine id).paused h)⟩
  | advanceMigration i => exact ⟨nofun, .inl (hsame (frame_advanceMigration i).paused h)⟩
  | timeOut i => exact ⟨nofun, .inl (hsame (frame_timeOut i).paused h)⟩
  | _ => exact ⟨nofun, .inl h⟩

end Held

/-! ### Runs -/

section Runs

variable {managers : Managers Fields} {s : Service}

/-- Nothing of a held binding waits, and beside a migration no handler is active. -/
structure Resting (s : Service) : Prop where
  kept : ∀ b ∈ s.held, Kept b s
  idle : ∀ b ∈ s.migrating, Idle b s.engine

theorem resting_init (bindings : OrderedMap String StoredBinding)
    (inflight : Registry (InflightDoc Fields)) : Resting (.init bindings inflight) :=
  ⟨fun _ h => (nomatch h), fun _ h => (nomatch h)⟩

/-- A step that pauses or migrates is not one of the engine. -/
theorem bringsUnchecked_of_pauses {a : Action} {b c : String} (h : s.pauses a = some b) :
    s.bringsUnchecked managers a ≠ some c := by
  cases a with
  | engine a => cases h
  | _ => exact nofun

theorem bringsUnchecked_of_migrates {a : Action} {b c : String} (h : s.migratesNext a = some b) :
    s.bringsUnchecked managers a ≠ some c := by
  cases a with
  | engine a => cases h
  | _ => exact nofun

theorem isDisabled_of_pauses {a : Action} {b : String} (h : s.pauses a = some b) :
    s.isDisabled b = true := by
  cases a with
  | advancePatch i =>
    simp only [Service.pauses] at h
    cases hp : s.patches.get? i with
    | none =>
      rw [hp] at h
      cases h
    | some p =>
      rw [hp] at h
      dsimp only at h
      split at h
      next hpauses =>
        cases h
        exact hpauses.2.2
      next => cases h
  | _ => cases h

/-- A binding that is held after a step was at rest before it. -/
theorem kept_of_held {a : Action} {b : String} (hrest : AtRest managers s a) (hs : Resting s)
    (h : b ∈ (step managers s a).held) :
    Kept b s ∧ s.bringsUnchecked managers a ≠ some b ∧ s.enables a ≠ some b := by
  have hold : b ∈ s.held → Kept b s ∧ s.bringsUnchecked managers a ≠ some b :=
    fun hheld => ⟨hs.kept b hheld, fun heq => hrest.brings b heq hheld⟩
  have hmigrates : s.migratesNext a = some b →
      Kept b s ∧ s.bringsUnchecked managers a ≠ some b := fun heq =>
    ⟨kept_of_not_mem (hrest.migrates b heq).1 (hrest.migrates b heq).2.1,
      bringsUnchecked_of_migrates heq⟩
  rcases List.mem_append.mp h with hpaused | hmigrating
  · obtain ⟨henables, hpaused | hpauses⟩ := paused_step hpaused
    · obtain ⟨hkept, hbrings⟩ := hold (List.mem_append_left _ hpaused)
      exact ⟨hkept, hbrings, henables⟩
    · exact ⟨kept_of_not_mem (isDisabled_of_pauses hpauses) (hrest.pauses b hpauses),
        bringsUnchecked_of_pauses hpauses, henables⟩
  · rcases migrating_step hmigrating with hmigrating | hnext
    · obtain ⟨hkept, hbrings⟩ := hold (List.mem_append_right _ hmigrating)
      exact ⟨hkept, hbrings, fun heq => hrest.enables b heq hmigrating⟩
    · obtain ⟨hkept, hbrings⟩ := hmigrates hnext
      refine ⟨hkept, hbrings, fun heq => ?_⟩
      cases a with
      | advanceMigration i => cases heq
      | _ => cases hnext

theorem idle_congr {e e' : SyncEngine Fields} {b : String} (h : e'.dispatches = e.dispatches)
    (hidle : Idle b e) : Idle b e' := by
  unfold Idle
  rwa [h]

theorem idle_of_engine {s' : Service} {b : String} (h : s'.engine = s.engine)
    (hidle : Idle b s.engine) : Idle b s'.engine :=
  h ▸ hidle

theorem dispatches_enqueueBackfill (e : SyncEngine Fields) (binding : String)
    (since : Option Nat) :
    (e.enqueueBackfill managers binding since).dispatches = e.dispatches := by
  unfold SyncEngine.enqueueBackfill
  induction managers.keys generalizing e with
  | nil => rfl
  | cons kind kinds ih =>
    refine (ih _).trans ?_
    dsimp only [SyncEngine.enqueueBackfillKind]
    split
    · rfl
    · rfl

theorem dispatches_forward (i : Nat) (secret : Except Err (Option String)) :
    (s.forward i secret).engine.dispatches = s.engine.dispatches := by
  unfold Service.forward SyncEngine.call
  repeat' split
  all_goals rfl

theorem dispatches_processBinding (i : Nat) :
    (s.processBinding i).engine.dispatches = s.engine.dispatches := by
  unfold Service.processBinding
  repeat' split
  all_goals rfl

theorem dispatches_resolve (i : Nat) (cursors : Option (Option Nat × Option Nat)) :
    (s.resolve managers i cursors).engine.dispatches = s.engine.dispatches := by
  unfold Service.resolve
  repeat' split
  all_goals first | rfl | exact dispatches_enqueueBackfill _ _ _

theorem engine_receive (request : Webhook.WebhookRequest) :
    (s.receive request).engine = s.engine := by
  unfold Service.receive
  repeat' split
  all_goals rfl

theorem engine_tick : s.tick.engine = s.engine := by
  unfold Service.tick
  split
  · rfl
  · rfl

theorem engine_advancePatch (i : Nat) : (s.advancePatch i).engine = s.engine := by
  unfold Service.advancePatch
  repeat' split
  all_goals rfl

/-- Outside the engine no handler begins. -/
theorem idle_service_step {a : Action} {b : String} (hkept : Kept b s) (hidle : Idle b s.engine) :
    Idle b (step managers s a).engine := by
  cases a with
  | engine a => exact idle_step hkept.clear hidle
  | stop => exact fun _ _ hd => (nomatch hd)
  | forward i secret => exact idle_congr (dispatches_forward i secret) hidle
  | processBinding i => exact idle_congr (dispatches_processBinding i) hidle
  | resolve i cursors => exact idle_congr (dispatches_resolve i cursors) hidle
  | receive request => exact idle_of_engine (engine_receive request) hidle
  | tick => exact idle_of_engine engine_tick hidle
  | patch id disabled => exact idle_of_engine (frame_patch id disabled).engine hidle
  | advancePatch i => exact idle_of_engine (engine_advancePatch i) hidle
  | rejectPatch i => exact hidle
  | migrate routine id => exact idle_of_engine (frame_migrate routine id).engine hidle
  | advanceMigration i => exact idle_of_engine (frame_advanceMigration i).engine hidle
  | timeOut i => exact idle_of_engine (frame_timeOut i).engine hidle
  | endMigration i => exact hidle

theorem resting_step {a : Action} (hs : Resting s) (hrest : AtRest managers s a) :
    Resting (step managers s a) := by
  constructor
  · intro b hheld
    obtain ⟨hkept, hbrings, henables⟩ := kept_of_held hrest hs hheld
    exact kept_step hkept hbrings henables
  · intro b hmigrating
    obtain ⟨hkept, -, -⟩ := kept_of_held hrest hs (List.mem_append_right _ hmigrating)
    apply idle_service_step hkept
    rcases migrating_step hmigrating with hold | hnext
    · exact hs.idle b hold
    · exact idle_iff_not_mem.mpr (hrest.migrates b hnext).2.2

theorem starts_of_kept {a : Action} {b : String} (hkept : Kept b s) : s.starts a ≠ some b := by
  cases a with
  | engine a =>
    obtain ⟨a, ha⟩ := a
    cases a with
    | load worker workspaceUuid =>
      simp only [Service.starts]
      cases hd : s.engine.dispatches.get? worker with
      | none => exact (Option.some_ne_none b).symm
      | some d =>
        dsimp only
        split
        next hstage =>
          exact fun heq => hkept.clear.loading worker d hd hstage (Option.some.inj heq)
        next => exact (Option.some_ne_none b).symm
    | _ => exact (Option.some_ne_none b).symm
  | _ => exact (Option.some_ne_none b).symm

/-- What `starts` names is the binding of an entry that a manager is called with. -/
theorem invoked_of_starts {a : Action} {b : String} (h : s.starts a = some b) :
    ∃ entry workspaceUuid, entry.event.binding = b ∧
      (step managers s a).engine.trace = s.engine.trace ++ [.invoked entry workspaceUuid] := by
  cases a with
  | engine a =>
    obtain ⟨a, ha⟩ := a
    cases a with
    | load worker workspaceUuid =>
      simp only [Service.starts] at h
      simp only [step, Engine.step, SyncEngine.load]
      cases hd : s.engine.dispatches.get? worker with
      | none =>
        rw [hd] at h
        cases h
      | some d =>
        rw [hd] at h
        dsimp only at h ⊢
        split at h
        next hstage =>
          rw [hstage]
          exact ⟨d.entry, _, Option.some.inj h, rfl⟩
        next => cases h
    | _ => cases h
  | _ => cases h

/-- In every run whose steps find the bindings at rest, a pause excludes synchronisation. -/
theorem excludes_of_atRest (managers : Managers Fields) (bindings : OrderedMap String StoredBinding)
    (inflight : Registry (InflightDoc Fields)) (acts : List Action)
    (h : Along (step managers) (AtRest managers) (.init bindings inflight) acts) :
    Excludes managers (.init bindings inflight) acts := by
  have hinit := resting_init bindings inflight
  constructor
  · have hunstarted : ∀ s a, Resting s → ∀ b ∈ s.starts a, b ∉ s.paused :=
      fun s a hs b hstarts hpaused =>
        starts_of_kept (hs.kept b (List.mem_append_left _ hpaused)) hstarts
    have hboth := (along_congr_of (fun s a => resting_step)
      (fun s a hs => (and_iff_left (hunstarted s a hs)).symm) hinit).mp h
    exact hboth.mono fun s a hstep => hstep.2
  · refine throughout_of_along h fun as has b hb => ?_
    have hrest := exec_invariant (fun s a => resting_step) hinit has
    exact idle_iff_not_mem.mp (hrest.idle b hb)

end Runs

/-! ### A queued change and a pause -/

section Examples

def issueManager : Managers Fields := OrderedMap.empty.set "issue" ⟨fun _ => none⟩

def storedBinding : StoredBinding := ⟨⟨false, "secret"⟩, false⟩

def oneBinding : OrderedMap String StoredBinding :=
  OrderedMap.empty.set "64f0c0ffee0123456789abcd" storedBinding

/-- A local change of the one binding. -/
def localChange : Action :=
  .engine ⟨.enqueueLocalEvent "64f0c0ffee0123456789abcd" "issue" "doc" [], trivial⟩

/-- The PATCH that pauses the binding, up to its answer. -/
def pauseRequest : List Action :=
  [.patch "64f0c0ffee0123456789abcd" (.bool true), .advancePatch 0, .advancePatch 0,
    .advancePatch 0]

def handled (worker : Nat) : List Action :=
  [.engine ⟨.begin worker, trivial⟩, .engine ⟨.load worker none, trivial⟩]

/-- Two changes of one document; the PATCH returns while the first is at its handler. -/
def changeBehindPause : List Action :=
  [.engine ⟨.start, trivial⟩, localChange] ++ handled 0 ++ [localChange] ++ pauseRequest ++
    [.engine ⟨.handle 0 true, trivial⟩, .engine ⟨.resume 0, trivial⟩] ++ handled 1

/-- The change that waited is handed to its manager after the PATCH has returned. -/
theorem not_excludes_changeBehindPause :
    ¬Excludes issueManager (.init oneBinding .empty) changeBehindPause := by
  intro h
  exact absurd h.started (by decide)

/-- The same binding, paused when its change is done, with both migrations after it. -/
def migrationsUnderPause : List Action :=
  [.engine ⟨.start, trivial⟩, localChange] ++ handled 0 ++
    [.engine ⟨.handle 0 true, trivial⟩, .engine ⟨.resume 0, trivial⟩] ++ pauseRequest ++
    [.tick, .migrate .reviewerLabels "64f0c0ffee0123456789abcd", .advanceMigration 0,
      .advanceMigration 0, .migrate .mixinSplit "64f0c0ffee0123456789abcd", .endMigration 0,
      .advanceMigration 1, .advanceMigration 1, .advanceMigration 1, .advanceMigration 1]

theorem excludes_migrationsUnderPause :
    Excludes issueManager (.init oneBinding .empty) migrationsUnderPause :=
  excludes_of_atRest issueManager oneBinding .empty migrationsUnderPause (by decide)

end Examples

end HulyGitlab.OperatorPause
