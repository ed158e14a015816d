import HulyGitlab.Sync.EngineDelivery

/-!
# Stops and restarts of the process

A remote event survives a stop through its inflight row; `start` queues it
again when the row is not older than an hour. A local event is in the queue
only, so the queue's conservation law decides what a stop can find undone.
-/

namespace HulyGitlab.Queue

open EventQueue

variable {K T : Type*} [DecidableEq K]

theorem flow_resume (q : EventQueue K T) (i : Nat) (j : K) : (q.resume i).flow j = q.flow j :=
  (step_flow q (.resume i) j (by rintro ⟨_, _, h⟩; cases h)).1

theorem flow_settle (q : EventQueue K T) (i : Nat) (ok : Bool) (j : K) :
    (q.settle i ok).flow j = q.flow j :=
  (step_flow q (.settle i ok) j (by rintro ⟨_, _, h⟩; cases h)).1

theorem pending_nil_of_entries {q : EventQueue K T}
    (h : ∀ p ∈ q.queues.entries, p.2.items = []) (key : K) : q.pending key = [] := by
  cases he : q.queues.get? key with
  | none => rw [pending, itemsAt, he]; rfl
  | some e => rw [pending, itemsAt_eq he, h _ (OrderedMap.mem_entries_of_get? he)]

/-- Without a call under way and with nothing waiting, the items of a key
that went through are those that settled. -/
theorem count_flow_of_done [DecidableEq T] {q : EventQueue K T} (h : Accounted q) (key : K)
    (x : T) (hpending : x ∉ q.pending key)
    (hactive : ∀ i w, q.workers.get? i = some w → w.settled = false → w.item ≠ x) :
    (q.flow key).count x = (settledOf key q.history).count x := by
  have hnone : x ∉ activeOf key q.workers.values := by
    intro hx
    obtain ⟨w, hw, hitem⟩ := List.mem_filterMap.mp hx
    obtain ⟨i, hi⟩ := (Registry.mem_values_iff q.workers w).mp hw
    split at hitem
    next hc => exact hactive i w hi hc.2 (Option.some.inj hitem)
    next => cases hitem
  rw [flow, List.count_append, (h key).count_eq, List.count_append,
    List.count_eq_zero_of_not_mem hpending, List.count_eq_zero_of_not_mem hnone]
  rfl

end HulyGitlab.Queue

namespace HulyGitlab.Engine

open Queue Breaker Transition SyncEngine

variable {R : Type*}

/-! ### Down states -/

/-- Without a process there are no calls, dispatches, boot list, workers or
waiting items. -/
def Down (s : SyncEngine R) : Prop :=
  s.up = false →
    (∀ i, s.calls.get? i = none) ∧ (∀ w, s.dispatches.get? w = none) ∧ s.boot = [] ∧
      (∀ w, s.queue.workers.get? w = none) ∧ ∀ key, s.queue.pending key = []

variable [Inhabited R] {managers : Managers R}

theorem effect_down {s s' : SyncEngine R} {a : Action R} (h : Effect managers s a s')
    (hd : Down s) : Down s' := by
  intro hup
  cases h with
  | call hup' => cases hup.symm.trans hup'
  | enqueueLocalEvent hup' => cases hup.symm.trans hup'
  | enqueueBackfillKind hup' => cases hup.symm.trans hup'
  | start => cases hup
  | stop => exact ⟨fun _ => rfl, fun _ => rfl, rfl, fun _ => rfl, fun _ => rfl⟩
  | fail =>
      obtain ⟨hcalls, hrest⟩ := hd hup
      refine ⟨fun i => ?_, hrest⟩
      rw [Registry.get?_remove, hcalls i, ite_self]
  | resume =>
      obtain ⟨hcalls, hdis, hboot, hworkers, hpending⟩ := hd hup
      have hsame : ∀ w, s.queue.resume w = s.queue := fun w => by
        simp only [EventQueue.resume, hworkers]
      refine ⟨hcalls, hdis, hboot, fun w => ?_, fun key => ?_⟩
      · rw [hsame, hworkers]
      · rw [hsame, hpending]
  | findDuplicate hc => cases ((hd hup).1 _).symm.trans hc
  | findNew hc => cases ((hd hup).1 _).symm.trans hc
  | insertDuplicate hc => cases ((hd hup).1 _).symm.trans hc
  | insertNew hc => cases ((hd hup).1 _).symm.trans hc
  | record hc => cases ((hd hup).1 _).symm.trans hc
  | push hc => cases ((hd hup).1 _).symm.trans hc
  | beginSkip hw => cases ((hd hup).2.2.2.1 _).symm.trans hw
  | beginDrop hw => cases ((hd hup).2.2.2.1 _).symm.trans hw
  | beginLoad hw => cases ((hd hup).2.2.2.1 _).symm.trans hw
  | load hdis => cases ((hd hup).2.1 _).symm.trans hdis
  | handleEnd hdis => cases ((hd hup).2.1 _).symm.trans hdis
  | handleRow hdis => cases ((hd hup).2.1 _).symm.trans hdis
  | delete hdis => cases ((hd hup).2.1 _).symm.trans hdis
  | discard hboot => cases (hd hup).2.2.1.symm.trans hboot
  | requeue hboot => cases (hd hup).2.2.1.symm.trans hboot
  | tick => exact hd hup
  | expireDedup => exact hd hup
  | expireInflight => exact hd hup

/-! ### Rows young enough for `start` -/

/-- At the given time `start` would take no unhandled event's row for stale. -/
def YoungAt (s : SyncEngine R) (now : Nat) : Prop :=
  ∀ id row key, s.inflight.get? id = some row → rowKey id row = some key → ¬Handled s key →
    now - inflightMaxAgeMs ≤ row.startedAt

/-- The process is not down while a row of an unhandled event is over an hour old. -/
def RestartsInTime (s : SyncEngine R) : Action R → Prop
  | .stop => YoungAt s s.now
  | .tick ms => s.up = false → YoungAt s (s.now + ms)
  | _ => True

theorem effect_young {s s' : SyncEngine R} {a : Action R} (h : Effect managers s a s')
    (hdown : Down s) (hk : RestartsInTime s a) (hy : s.up = false → YoungAt s s.now) :
    s'.up = false → YoungAt s' s'.now := by
  intro hup id row key hrow hkey hnh
  have hnh' : ¬Handled s key := fun hh => hnh (hh.mono h)
  have hold : s.up = false → s.inflight.get? id = some row →
      s.now - inflightMaxAgeMs ≤ row.startedAt :=
    fun hup hrow => hy hup id row key hrow hkey hnh'
  cases h with
  | stop => exact hk id row key hrow hkey hnh'
  | tick => exact hk hup id row key hrow hkey hnh'
  | start => cases hup
  | record hc => cases ((hdown hup).1 _).symm.trans hc
  | delete hdis => cases ((hdown hup).2.1 _).symm.trans hdis
  | expireInflight => exact hold hup (Registry.get?_of_get?_remove hrow).2
  | discard => exact hold hup (Registry.get?_of_get?_remove hrow).2
  | _ => exact hold hup hrow

/-! ### What `start` queues again -/

/-- A restart that runs `start` to its end. -/
def restart (managers : Managers R) (s : SyncEngine R) : SyncEngine R :=
  exec (step managers) s (.start :: List.replicate s.inflight.rows.entries.length .bootStep)

/-- `start` queues the event again. -/
def Requeues (managers : Managers R) (s : SyncEngine R) (key : RemoteKey) : Prop :=
  ∃ entry, .accepted entry ∈ (restart managers s).trace.drop s.trace.length ∧
    entry.remoteKey = some key

/-- The loop of `start` queues every row that is not stale. -/
theorem boot_accepts (managers : Managers R) (rows : List (Nat × InflightDoc R)) (s : SyncEngine R)
    (hboot : s.boot = rows) :
    ∃ obs, (exec (step managers) s (List.replicate rows.length .bootStep)).trace =
        s.trace ++ obs ∧
      ∀ id row resourceKey entry, (id, row) ∈ rows → s.cutoff ≤ row.startedAt →
        bootEntry managers id row = some (resourceKey, entry) → .accepted entry ∈ obs := by
  induction rows generalizing s with
  | nil => exact ⟨[], (List.append_nil _).symm, fun _ _ _ _ h => absurd h List.not_mem_nil⟩
  | cons p rest ih =>
      obtain ⟨id, row⟩ := p
      simp only [List.length_cons, List.replicate_succ, exec_cons, step]
      -- The round either deletes the row and observes nothing, or queues its entry.
      have hround : (s.bootStep managers).boot = rest ∧
          (s.bootStep managers).cutoff = s.cutoff ∧
          ∃ obs, (s.bootStep managers).trace = s.trace ++ obs ∧
            ∀ resourceKey entry, s.cutoff ≤ row.startedAt →
              bootEntry managers id row = some (resourceKey, entry) →
              .accepted entry ∈ obs := by
        simp only [SyncEngine.bootStep, hboot]
        split
        next hage =>
          exact ⟨rfl, rfl, [], (List.append_nil _).symm, fun _ _ h =>
            absurd hage (Nat.not_lt_of_le h)⟩
        next =>
          cases hrow : bootEntry managers id row with
          | none => exact ⟨rfl, rfl, [], (List.append_nil _).symm, fun _ _ _ h =>
              absurd h.symm (Option.some_ne_none _)⟩
          | some p =>
              refine ⟨rfl, rfl, [.accepted p.2], rfl, fun resourceKey entry _ h => ?_⟩
              cases h
              exact List.mem_cons_self
      obtain ⟨hrest, hcutoff, obs₁, htrace₁, hobs₁⟩ := hround
      obtain ⟨obs₂, htrace₂, hobs₂⟩ := ih (s.bootStep managers) hrest
      refine ⟨obs₁ ++ obs₂, by rw [htrace₂, htrace₁, List.append_assoc], ?_⟩
      intro id' row' resourceKey entry hmem hage hentry
      rcases List.mem_cons.mp hmem with hmem | hmem
      · cases hmem
        exact List.mem_append_left _ (hobs₁ resourceKey entry hage hentry)
      · exact List.mem_append_right _
          (hobs₂ id' row' resourceKey entry hmem (hcutoff ▸ hage) hentry)

theorem requeues_of_row {s : SyncEngine R} (hup : s.up = false) {id : Nat}
    {row : InflightDoc R} {key : RemoteKey} (hrow : s.inflight.get? id = some row)
    (hkey : rowKey id row = some key) (hage : s.now - inflightMaxAgeMs ≤ row.startedAt) :
    Requeues managers s key := by
  have hstart : step managers s .start =
      { s with
        up := true
        boot := s.inflight.rows.entries
        cutoff := s.now - inflightMaxAgeMs } := by
    simp only [step, SyncEngine.start, hup, Bool.false_eq_true, if_false]
  cases hentry : bootEntry managers id row with
  | none => cases hkey.symm.trans (rowKey_of_bootEntry_none hentry)
  | some p =>
      obtain ⟨resourceKey, entry⟩ := p
      obtain ⟨obs, htrace, hobs⟩ := boot_accepts managers
        s.inflight.rows.entries (step managers s .start) (by rw [hstart])
      refine ⟨entry, ?_, (bootEntry_key hentry).1.trans hkey⟩
      have hmem := hobs id row resourceKey entry (OrderedMap.mem_entries_of_get? hrow)
        (by rw [hstart]; exact hage) hentry
      have heq : (restart managers s).trace = s.trace ++ obs := by
        rw [restart, exec_cons, htrace, hstart]
      rw [heq, List.drop_left]
      exact hmem

/-! ### Local events -/

omit [Inhabited R] in
/-- The entry of an `enqueueLocalEvent` call. -/
def IsLocal (entry : QueueEntry R) : Prop :=
  ∃ binding kind doc change, entry = localEntry binding kind doc change

omit [Inhabited R] in
/-- The key that `enqueueLocalEvent` queues an entry under. -/
def localKey (binding kind doc : String) : String := queueKey binding (kind ++ ":" ++ doc)

/-- The queue key under which a step enqueues. -/
def enqueueKey (managers : Managers R) (s : SyncEngine R) : Action R → Option String
  | .push i =>
      (s.calls.get? i).map fun c =>
        queueKey c.binding (resourceKeyForKind managers c.kind c.record)
  | .enqueueLocalEvent binding kind doc _ => some (localKey binding kind doc)
  | .enqueueBackfillKind binding _ kind => some (queueKey binding ("backfill:" ++ kind))
  | .bootStep =>
      s.boot.head?.bind fun p =>
        (bootEntry managers p.1 p.2).map fun q => queueKey q.2.event.binding q.1
  | _ => none

/-- The step takes no local event away: none is evicted while waiting, none is
dispatched to be dropped, and the process does not stop before all are done. -/
def KeepsLocal (managers : Managers R) (s : SyncEngine R) (a : Action R) : Prop :=
  (∀ key j, enqueueKey managers s a = some key → s.queue.evictedBy key = some j →
      ∀ entry ∈ s.queue.pending j, ¬IsLocal entry) ∧
    match a with
    | .begin worker => ∀ w, s.queue.workers.get? worker = some w → w.settled = false →
        s.dispatches.get? worker = none → IsLocal w.item → ¬Dropped managers s w.item
    | .stop => (∀ key, ∀ entry ∈ s.queue.pending key, ¬IsLocal entry) ∧
        ∀ i w, s.queue.workers.get? i = some w → w.settled = false → ¬IsLocal w.item
    | _ => True

/-- Local entries wait and run under their own key. -/
def LocalKeyed (s : SyncEngine R) : Prop :=
  AllItems (fun key x => ∀ binding kind doc change, x = localEntry binding kind doc change →
    key = localKey binding kind doc) s.queue

omit [Inhabited R] in
theorem not_local_of_inflightId {entry : QueueEntry R} {id : Nat}
    (h : entry.inflightId = some id) (binding kind doc : String) (change : R) :
    entry ≠ localEntry binding kind doc change := by
  rintro rfl
  cases h

theorem effect_localKeyed {s s' : SyncEngine R} {a : Action R} (h : Effect managers s a s')
    (hl : LocalKeyed s) : LocalKeyed s' := by
  cases h with
  | push =>
      unfold LocalKeyed
      dsimp only
      apply allItems_enqueue hl
      intro _ _ _ _ heq
      exact absurd heq (not_local_of_inflightId rfl _ _ _ _)
  | enqueueLocalEvent =>
      unfold LocalKeyed
      dsimp only
      apply allItems_enqueue hl
      intro _ _ _ _ heq
      cases heq
      rfl
  | enqueueBackfillKind =>
      unfold LocalKeyed
      dsimp only
      apply allItems_enqueue hl
      intro _ _ _ _ heq
      cases heq
  | requeue _ _ hrow =>
      unfold LocalKeyed
      dsimp only
      apply allItems_enqueue hl
      intro _ _ _ _ heq
      exact absurd heq (not_local_of_inflightId (bootEntry_key hrow).2 _ _ _ _)
  | beginSkip => exact allItems_settle hl _ _
  | handleEnd => exact allItems_settle hl _ _
  | delete => exact allItems_settle hl _ _
  | resume => exact allItems_resume hl _
  | stop => exact allItems_new _ _
  | _ => exact hl

theorem effect_accounted {s s' : SyncEngine R} {a : Action R} (h : Effect managers s a s')
    (ha : Accounted s.queue) : Accounted s'.queue := by
  cases h with
  | push =>
      dsimp only
      exact ha.moreStarted (moreStarted_enqueue _ _ _)
  | enqueueLocalEvent =>
      dsimp only
      exact ha.moreStarted (moreStarted_enqueue _ _ _)
  | enqueueBackfillKind =>
      dsimp only
      exact ha.moreStarted (moreStarted_enqueue _ _ _)
  | requeue =>
      dsimp only
      exact ha.moreStarted (moreStarted_enqueue _ _ _)
  | beginSkip =>
      dsimp only
      exact accounted_step _ (.settle _ _) ha
  | handleEnd =>
      dsimp only
      exact accounted_step _ (.settle _ _) ha
  | delete =>
      dsimp only
      exact accounted_step _ (.settle _ _) ha
  | resume => exact accounted_step _ (.resume _) ha
  | stop => exact accounted_new _
  | _ => exact ha

variable [DecidableEq R]

omit [Inhabited R] in
/-- How often the entry was accepted by a call that returned. -/
def acceptedCount (entry : QueueEntry R) (s : SyncEngine R) : Nat :=
  s.trace.count (.accepted entry)

omit [Inhabited R] in
/-- How often a handler of the entry has ended. -/
def handledCount (entry : QueueEntry R) (s : SyncEngine R) : Nat :=
  s.trace.count (.handled entry true) + s.trace.count (.handled entry false)

omit [Inhabited R] in
/-- The entry was accepted as often as it was handled or is still on its way
through the queue: in its flow, but not among the settled. -/
def LocalAccount (s : SyncEngine R) : Prop :=
  ∀ binding kind doc change,
    let entry : QueueEntry R := localEntry binding kind doc change
    let key := localKey binding kind doc
    acceptedCount entry s + (settledOf key s.queue.history).count entry =
      handledCount entry s + (s.queue.flow key).count entry

omit [Inhabited R] in
/-- The account over an enqueue that evicts no local entry. -/
theorem count_enqueue {q : EventQueue String (QueueEntry R)} {key : String}
    (hev : ∀ j, q.evictedBy key = some j → ∀ x ∈ q.pending j, ¬IsLocal x)
    (item entry : QueueEntry R) (hentry : IsLocal entry) (j : String) :
    ((q.enqueue key item).flow j).count entry =
      (q.flow j).count entry + if key = j ∧ item = entry then 1 else 0 := by
  have hkept : (if q.evictedBy key = some j then [] else q.pending j).count entry =
      (q.pending j).count entry := by
    split
    next he =>
      have hnot : entry ∉ q.pending j := fun hmem => hev j he entry hmem hentry
      rw [List.count_eq_zero_of_not_mem hnot]
      rfl
    next => rfl
  rw [EventQueue.flow_enqueue, List.count_append, List.count_append, hkept, enqueuedOf_enqueued,
    EventQueue.flow,
    List.count_append]
  congr 1
  by_cases hkey : key = j
  · by_cases hitem : item = entry
    · simp [hkey, hitem]
    · simp [hkey, hitem]
  · simp [hkey]

omit [Inhabited R] in
theorem count_settle {q : EventQueue String (QueueEntry R)} {i : Nat}
    {w : Worker String (QueueEntry R)} (hw : q.workers.get? i = some w)
    (hs : w.settled = false) (ok : Bool) (entry : QueueEntry R) (j : String) :
    (settledOf j (q.settle i ok).history).count entry =
      (settledOf j q.history).count entry + (if w.key = j ∧ w.item = entry then 1 else 0) ∧
    ((q.settle i ok).flow j).count entry = (q.flow j).count entry := by
  constructor
  · rw [settledOf_settle hw hs, List.count_append]
    congr 1
    by_cases hkey : w.key = j
    · by_cases hitem : w.item = entry
      · simp [hkey, hitem]
      · simp [hkey, hitem]
    · simp [hkey]
  · rw [flow_settle]

/-- The account over a step that queues an item and observes it accepted. -/
theorem localAccount_accept {s s' : SyncEngine R} {a : Action R} (key : String)
    (item : QueueEntry R) (hk : KeepsLocal managers s a) (hacc : LocalAccount s)
    (hkey : enqueueKey managers s a = some key)
    (hqueue : s'.queue = s.queue.enqueue key item)
    (htrace : s'.trace = s.trace ++ [.accepted item])
    (hlocal : ∀ binding kind doc change, item = localEntry binding kind doc change →
      key = localKey binding kind doc) :
    LocalAccount s' := by
  intro binding kind doc change
  have hold := hacc binding kind doc change
  have hcount := count_enqueue (hk.1 _ · hkey) item (localEntry binding kind doc change)
    ⟨binding, kind, doc, change, rfl⟩ (localKey binding kind doc)
  have hiff : (key = localKey binding kind doc ∧
      item = localEntry binding kind doc change) ↔ item = localEntry binding kind doc change :=
    ⟨And.right, fun h => ⟨hlocal _ _ _ _ h, h⟩⟩
  simp only [hiff] at hcount
  have hone : ([.accepted item] : List (Obs R)).count
      (.accepted (localEntry binding kind doc change)) =
      if item = localEntry binding kind doc change then 1 else 0 := by
    by_cases h : item = localEntry binding kind doc change
    · simp [h]
    · simp [h]
  simp only [acceptedCount, handledCount] at hold ⊢
  rw [hqueue, htrace, (moreStarted_enqueue _ _ _ _).1, hcount, List.count_append, List.count_append,
    List.count_append, hone]
  simp only [List.count_cons, List.count_nil, beq_iff_eq, reduceCtorEq, if_false, Nat.add_zero]
  omega

omit [Inhabited R] in
/-- The account over the end of a processor call: a local entry settles
exactly when its handler has ended. -/
theorem localAccount_finish {s s' : SyncEngine R} {worker : Nat} {ok : Bool}
    {w : Worker String (QueueEntry R)} (hw : s.queue.workers.get? worker = some w)
    (hs : w.settled = false) (hqueue : s'.queue = s.queue.settle worker ok)
    (hkeyed : LocalKeyed s)
    (htrace : (s'.trace = s.trace ∧ ¬IsLocal w.item) ∨
      ∃ ok, s'.trace = s.trace ++ [.handled w.item ok])
    (hacc : LocalAccount s) : LocalAccount s' := by
  intro binding kind doc change
  have hold := hacc binding kind doc change
  obtain ⟨hsettled, hflow⟩ := count_settle hw hs ok (localEntry binding kind doc change)
    (localKey binding kind doc)
  have hiff : (w.key = localKey binding kind doc ∧
      w.item = localEntry binding kind doc change) ↔
      w.item = localEntry binding kind doc change :=
    ⟨And.right, fun h => ⟨hkeyed.2 worker w hw _ _ _ _ h, h⟩⟩
  simp only [hiff] at hsettled
  simp only [acceptedCount, handledCount] at hold ⊢
  rw [hqueue, hsettled, hflow]
  rcases htrace with ⟨htrace, hnot⟩ | ⟨ok', htrace⟩
  · have hne : w.item ≠ localEntry binding kind doc change :=
      fun h => hnot ⟨_, _, _, _, h⟩
    rw [htrace, if_neg hne]
    omega
  · have hone : ∀ b, ([.handled w.item ok'] : List (Obs R)).count
        (.handled (localEntry binding kind doc change) b) =
        if w.item = localEntry binding kind doc change ∧ ok' = b then 1 else 0 := by
      intro b
      by_cases h : w.item = localEntry binding kind doc change ∧ ok' = b
      · simp [h.1, h.2]
      · rw [if_neg h, List.count_eq_zero]
        intro hmem
        have heq := List.mem_singleton.mp hmem
        simp only [Obs.handled.injEq] at heq
        exact h ⟨heq.1.symm, heq.2.symm⟩
    rw [htrace, List.count_append, List.count_append, List.count_append, hone, hone]
    simp only [List.count_cons, List.count_nil, beq_iff_eq, reduceCtorEq, if_false]
    by_cases h : w.item = localEntry binding kind doc change
    · cases ok' <;> simp [h] <;> omega
    · simp only [h, false_and, if_false]
      omega

omit [Inhabited R] in
/-- The account over a step that does not reach the queue. -/
theorem localAccount_of_same {s s' : SyncEngine R} (hacc : LocalAccount s)
    (hqueue : s'.queue = s.queue)
    (htrace : s'.trace = s.trace ∨ ∃ o, s'.trace = s.trace ++ [o] ∧
      ∀ entry : QueueEntry R, IsLocal entry → o ≠ .accepted entry ∧ ∀ ok, o ≠ .handled entry ok) :
    LocalAccount s' := by
  intro binding kind doc change
  have hold := hacc binding kind doc change
  simp only [acceptedCount, handledCount] at hold ⊢
  rcases htrace with htrace | ⟨o, htrace, hne⟩
  · rw [hqueue, htrace]
    exact hold
  · obtain ⟨ha, hh⟩ := hne (localEntry binding kind doc change) ⟨_, _, _, _, rfl⟩
    rw [hqueue, htrace, List.count_append, List.count_append, List.count_append,
      List.count_singleton, List.count_singleton, List.count_singleton,
      beq_eq_false_iff_ne.mpr ha, beq_eq_false_iff_ne.mpr (hh true),
      beq_eq_false_iff_ne.mpr (hh false)]
    exact hold

theorem effect_localAccount {s s' : SyncEngine R} {a : Action R} (h : Effect managers s a s')
    (hw : Working s) (hl : Linked s) (hkeyed : LocalKeyed s) (haccounted : Accounted s.queue)
    (hk : KeepsLocal managers s a) (hacc : LocalAccount s) : LocalAccount s' := by
  have hnotLocal : ∀ {entry : QueueEntry R} {id : Nat}, entry.inflightId = some id →
      ¬IsLocal entry := by
    rintro entry id hid ⟨_, _, _, _, heq⟩
    exact not_local_of_inflightId hid _ _ _ _ heq
  cases h with
  | push hc hstage =>
      rename_i i c id
      refine localAccount_accept (queueKey c.binding (resourceKeyForKind managers c.kind c.record))
        (callEntry c id) hk hacc ?_ (by dsimp only) rfl ?_
      · simp only [enqueueKey, hc, Option.map_some]
      · intro _ _ _ _ heq
        exact absurd heq (not_local_of_inflightId rfl _ _ _ _)
  | enqueueLocalEvent =>
      rename_i binding kind doc change _
      refine localAccount_accept (queueKey binding (kind ++ ":" ++ doc))
        (localEntry binding kind doc change) hk hacc rfl (by dsimp only) rfl ?_
      intro _ _ _ _ heq
      cases heq
      rfl
  | enqueueBackfillKind =>
      rename_i binding since kind _ _
      refine localAccount_accept (queueKey binding ("backfill:" ++ kind))
        ⟨.backfill binding since, kind, none⟩ hk hacc rfl (by dsimp only) rfl ?_
      intro _ _ _ _ heq
      cases heq
  | requeue hboot hage hrow =>
      rename_i id row rest resourceKey entry
      refine localAccount_accept (queueKey entry.event.binding resourceKey) entry hk hacc
        ?_ (by dsimp only) rfl ?_
      · simp only [enqueueKey, hboot, List.head?_cons, Option.bind_some, hrow, Option.map_some]
      · intro _ _ _ _ heq
        exact absurd heq (not_local_of_inflightId (bootEntry_key hrow).2 _ _ _ _)
  | beginSkip hv hd hs hdrop hid =>
      exact localAccount_finish hv hs rfl hkeyed
        (.inl ⟨rfl, fun hlocal => hk.2 _ hv hs hd hlocal hdrop⟩) hacc
  | handleEnd hd hstage hid =>
      obtain ⟨v, hv, hitem, hs⟩ := hw _ _ hd
      rw [← hitem]
      exact localAccount_finish hv hs rfl hkeyed (.inr ⟨_, rfl⟩) hacc
  | delete hd hstage =>
      obtain ⟨v, hv, hitem, hs⟩ := hw _ _ hd
      have hid : ∃ id, v.item.inflightId = some id := by
        rw [hitem]
        rcases hstage with hstage | hstage
        · exact ⟨_, hl.dropping _ _ _ hd hstage⟩
        · exact ⟨_, (hl.deleting _ _ _ hd hstage).1⟩
      obtain ⟨_, hid⟩ := hid
      exact localAccount_finish hv hs rfl hkeyed (.inl ⟨rfl, hnotLocal hid⟩) hacc
  | resume =>
      intro binding kind doc change
      have hold := hacc binding kind doc change
      simp only [acceptedCount, handledCount] at hold ⊢
      rw [settledOf_resume, flow_resume]
      exact hold
  | stop =>
      intro binding kind doc change
      have hold := hacc binding kind doc change
      have hdone := count_flow_of_done haccounted (localKey binding kind doc)
        (localEntry binding kind doc change)
        (fun hmem => hk.2.1 _ _ hmem ⟨_, _, _, _, rfl⟩)
        (fun i v hv hs heq => hk.2.2 i v hv hs ⟨_, _, _, _, heq⟩)
      simp only [acceptedCount, handledCount] at hold ⊢
      rw [hdone] at hold
      exact congrArg (· + 0) (Nat.add_right_cancel hold)
  | handleRow hd hstage hid =>
      refine localAccount_of_same hacc rfl (.inr ⟨_, rfl, fun entry hlocal => ?_⟩)
      refine ⟨fun heq => (by cases heq), fun ok heq => ?_⟩
      simp only [Obs.handled.injEq] at heq
      exact hnotLocal hid (heq.1 ▸ hlocal)
  | call | insertNew | load =>
      refine localAccount_of_same hacc rfl (.inr ⟨_, rfl, fun _ _ => ⟨?_, fun ok => ?_⟩⟩)
      · exact fun heq => by cases heq
      · exact fun heq => by cases heq
  | _ => exact localAccount_of_same hacc rfl (.inl rfl)

/-! ### What a stop leaves behind -/

/-- When the process is down, each marked event has been handled, or is
accepted when delivered again, or is queued by `start`; and each local event
accepted has been handled. -/
def Survives (managers : Managers R) (s : SyncEngine R) : Prop :=
  s.up = false →
    (∀ key, Marked s key → Handled s key ∨
      seen s.dedup key.binding key.eventId key.version = false ∨ Requeues managers s key) ∧
    ∀ entry, IsLocal entry → acceptedCount entry s ≤ handledCount entry s

/-- The conditions on a step under which a stop loses no accepted event. -/
def KeepsAccepted (managers : Managers R) (s : SyncEngine R) (a : Action R) : Prop :=
  KeepsRemote managers s a ∧ RestartsInTime s a ∧ KeepsLocal managers s a

/-- What holds in every state of a run whose steps keep accepted events. -/
structure Surviving (s : SyncEngine R) : Prop where
  linked : Linked s
  working : Working s
  down : Down s
  accounted : Accounted s.queue
  keyed : LocalKeyed s
  kept : NoRemoteDrop s ∧ NotLost s
  young : s.up = false → YoungAt s s.now
  account : LocalAccount s

omit [Inhabited R] in
theorem surviving_init : Surviving (.init : SyncEngine R) where
  linked := linked_init
  working := fun _ _ h => nomatch h
  down := fun _ => ⟨fun _ => rfl, fun _ => rfl, rfl, fun _ => rfl, fun _ => rfl⟩
  accounted := accounted_new _
  keyed := allItems_new _ _
  kept := ⟨fun _ _ _ h => (nomatch h), fun _ h => absurd h List.not_mem_nil⟩
  young := fun _ _ _ _ h => nomatch h
  account := fun _ _ _ _ => rfl

theorem surviving_step (s : SyncEngine R) (a : Action R) (h : Surviving s)
    (hk : KeepsAccepted managers s a) : Surviving (step managers s a) := by
  have hkept := notLost_step h.linked h.kept hk.1
  have hlinked : Linked (step managers s a) := linked_step s a h.linked
  rcases step_effect managers s a with heq | heff
  · rwa [heq]
  · exact ⟨hlinked, effect_working heff h.working, effect_down heff h.down,
      effect_accounted heff h.accounted, effect_localKeyed heff h.keyed, hkept,
      effect_young heff h.down hk.2.1 h.young,
      effect_localAccount heff h.working h.linked h.keyed h.accounted hk.2.2 h.account⟩

theorem survives_of_surviving {s : SyncEngine R} (h : Surviving s) : Survives managers s := by
  intro hup
  constructor
  · intro key hm
    rcases h.kept.2 key hm with hh | ⟨id, row, hrow, hkey⟩ | ⟨i, c, hc, _⟩
    · exact .inl hh
    · by_cases hh : Handled s key
      · exact .inl hh
      · exact .inr (.inr (requeues_of_row hup hrow hkey (h.young hup id row key hrow hkey hh)))
    · cases ((h.down hup).1 i).symm.trans hc
  · rintro entry ⟨binding, kind, doc, change, rfl⟩
    have hacc := h.account binding kind doc change
    have hdone := count_flow_of_done h.accounted (localKey binding kind doc)
      (localEntry binding kind doc change)
      (by rw [(h.down hup).2.2.2.2]; exact List.not_mem_nil)
      (fun i v hv => by cases ((h.down hup).2.2.2.1 i).symm.trans hv)
    simp only at hacc
    omega

/-- In every run whose steps keep accepted events, a stop at any point loses none. -/
theorem survives_of_keepsAccepted (managers : Managers R) (acts : List (Action R))
    (hacts : Along (step managers) (KeepsAccepted managers) .init acts) :
    Throughout (step managers) (Survives managers) .init acts :=
  throughout_of_along hacts fun _ has =>
    survives_of_surviving (exec_invariant surviving_step surviving_init has)

/-- The process stops while the handler of an issue event has not begun. -/
def stoppedRun : List (Action String) :=
  [.start, .call "b" "issue" "issue:1" "uuid-1" "v1", .find 0, .insert 0, .record 0, .push 0,
    .begin 0, .stop]

theorem survives_stoppedRun :
    Throughout (step issueManagers) (Survives issueManagers) .init stoppedRun :=
  survives_of_keepsAccepted issueManagers _ (by
    have hquiet : ∀ (s : SyncEngine String) a, enqueueKey issueManagers s a = none →
        ∀ key j, enqueueKey issueManagers s a = some key → s.queue.evictedBy key = some j →
          ∀ entry ∈ s.queue.pending j, ¬IsLocal entry := by
      intro s a hnone key j hkey
      cases hnone.symm.trans hkey
    refine ⟨⟨trivial, trivial, hquiet _ _ rfl, trivial⟩, ⟨trivial, trivial, hquiet _ _ rfl, trivial⟩,
      ⟨trivial, trivial, hquiet _ _ rfl, trivial⟩, ⟨trivial, trivial, hquiet _ _ rfl, trivial⟩,
      ⟨trivial, trivial, hquiet _ _ rfl, trivial⟩, ⟨trivial, trivial, ?_, trivial⟩,
      ⟨?_, trivial, hquiet _ _ rfl, ?_⟩, ⟨?_, ?_, hquiet _ _ rfl, ?_, ?_⟩, trivial⟩
    · intro key j hkey hev
      cases hkey
      cases hev
    · intro w hw _ _ _
      cases hw
      decide
    · intro w hw _ _ hlocal
      cases hw
      obtain ⟨_, _, _, _, heq⟩ := hlocal
      cases heq
    · intro i c hc
      cases hc
    · intro id row key hrow _ _
      exact Nat.zero_le _
    · intro key entry hmem
      rw [pending_nil_of_entries (by decide)] at hmem
      cases hmem
    · intro i w hw _ hlocal
      have hmem := (Registry.mem_values_iff _ w).mpr ⟨i, hw⟩
      cases List.mem_singleton.mp hmem
      obtain ⟨_, _, _, _, heq⟩ := hlocal
      cases heq)

/-- A stop between the dedup insert and the inflight insert: the event is
marked seen, nothing queues it again, and its redelivery is a duplicate. -/
theorem not_survives_of_stop :
    ¬Throughout (step issueManagers) (Survives issueManagers) .init
      [.start, .call "b" "issue" "issue:1" "uuid-1" "v1", .find 0, .insert 0, .stop] := by
  intro h
  rcases (h.last rfl).1 ⟨"b", "issue", "uuid-1", "v1"⟩ (List.mem_cons_of_mem _ List.mem_cons_self)
    with ⟨entry, ok, hmem, _⟩ | hseen | ⟨entry, hmem, _⟩
  · rcases List.mem_cons.mp hmem with h | hmem
    · cases h
    · cases List.mem_singleton.mp hmem
  · revert hseen
    decide
  · cases hmem

end HulyGitlab.Engine
