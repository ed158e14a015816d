import HulyGitlab.Sync.Queue

/-!
# Conservation of items in the event queue

What one operation does to the items of a key is stated once per operation.
The items handed to the processor and those still pending are, in this order,
the items enqueued, except for what an eviction drops.
-/

namespace HulyGitlab.Queue

open Transition

variable {K T : Type*}

section History

variable [DecidableEq K]

@[simp] theorem enqueuedOf_append (key : K) (h h' : List (Obs K T)) :
    enqueuedOf key (h ++ h') = enqueuedOf key h ++ enqueuedOf key h' :=
  List.filterMap_append

@[simp] theorem startedOf_append (key : K) (h h' : List (Obs K T)) :
    startedOf key (h ++ h') = startedOf key h ++ startedOf key h' :=
  List.filterMap_append

@[simp] theorem settledOf_append (key : K) (h h' : List (Obs K T)) :
    settledOf key (h ++ h') = settledOf key h ++ settledOf key h' :=
  List.filterMap_append

@[simp] theorem enqueuedOf_enqueued (j k : K) (x : T) :
    enqueuedOf j [.enqueued k x] = if k = j then [x] else [] := by
  by_cases h : k = j <;> simp [enqueuedOf, h]

@[simp] theorem enqueuedOf_started (j k : K) (x : T) : enqueuedOf j [.started k x] = [] := rfl

@[simp] theorem enqueuedOf_settled (j k : K) (x : T) (ok : Bool) :
    enqueuedOf j [.settled k x ok] = [] := rfl

@[simp] theorem startedOf_enqueued (j k : K) (x : T) : startedOf j [.enqueued k x] = [] := rfl

@[simp] theorem startedOf_started (j k : K) (x : T) :
    startedOf j [.started k x] = if k = j then [x] else [] := by
  by_cases h : k = j <;> simp [startedOf, h]

@[simp] theorem startedOf_settled (j k : K) (x : T) (ok : Bool) :
    startedOf j [.settled k x ok] = [] := rfl

@[simp] theorem settledOf_enqueued (j k : K) (x : T) : settledOf j [.enqueued k x] = [] := rfl

@[simp] theorem settledOf_started (j k : K) (x : T) : settledOf j [.started k x] = [] := rfl

@[simp] theorem settledOf_settled (j k : K) (x : T) (ok : Bool) :
    settledOf j [.settled k x ok] = if k = j then [x] else [] := by
  by_cases h : k = j <;> simp [settledOf, h]

end History

variable [DecidableEq K]

namespace EventQueue

/-- The key that `enqueue` evicts, if any. -/
def evictedBy (q : EventQueue K T) (key : K) : Option K :=
  ((q.lru.touch key).evictOldest q.activeKeys).1

/-- Calls of the processor for a key that have not settled. -/
def activeOf (key : K) (workers : List (Worker K T)) : List T :=
  workers.filterMap fun w => if w.key = key ∧ w.settled = false then some w.item else none

/-- The items of a key that were started, then those pending. -/
def flow (q : EventQueue K T) (key : K) : List T := startedOf key q.history ++ q.pending key

/-! ### Waiting does not touch queues or workers -/

/-- Two queues that differ in their waiters only. -/
def SameWork (q r : EventQueue K T) : Prop :=
  r.queues = q.queues ∧ r.activeKeys = q.activeKeys ∧ r.lru = q.lru ∧
    r.workers = q.workers ∧ r.history = q.history

omit [DecidableEq K] in
theorem SameWork.rfl (q : EventQueue K T) : SameWork q q :=
  ⟨.refl _, .refl _, .refl _, .refl _, .refl _⟩

omit [DecidableEq K] in
theorem SameWork.trans {q r s : EventQueue K T} (h : SameWork q r) (h' : SameWork r s) :
    SameWork q s :=
  ⟨h'.1.trans h.1, h'.2.1.trans h.2.1, h'.2.2.1.trans h.2.2.1,
    h'.2.2.2.1.trans h.2.2.2.1, h'.2.2.2.2.trans h.2.2.2.2⟩

theorem sameWork_waitForIdle (q : EventQueue K T) (key : K) :
    SameWork q (q.waitForIdle key).2 := by
  unfold waitForIdle
  split
  · exact SameWork.rfl q
  · exact ⟨.refl _, .refl _, .refl _, .refl _, .refl _⟩

theorem sameWork_drainAll (q : EventQueue K T) : SameWork q q.drainAll.2 := by
  unfold drainAll
  refine List.foldlRecOn (motive := fun acc : List Nat × EventQueue K T => SameWork q acc.2)
    q.queues.keys _ (SameWork.rfl q) fun acc hacc key _ => ?_
  have hw := hacc.trans (sameWork_waitForIdle acc.2 key)
  revert hw
  rcases acc.2.waitForIdle key with ⟨_ | w, q'⟩
  · exact fun hw => hw
  · exact fun hw => hw

theorem sameWork_notifyIdleWaiters (q : EventQueue K T) (key : K) :
    SameWork q (q.notifyIdleWaiters key) := by
  unfold notifyIdleWaiters
  split
  · exact SameWork.rfl q
  · exact ⟨.refl _, .refl _, .refl _, .refl _, .refl _⟩

/-! ### The entries and the workers after each part of an operation -/

theorem track_get? (q : EventQueue K T) (key j : K) :
    (q.track key).queues.get? j =
      if q.evictedBy key = some j then none else q.queues.get? j := by
  unfold track evictedBy
  rcases (q.lru.touch key).evictOldest q.activeKeys with ⟨_ | evicted, lru, activeKeys⟩
  · simp
  · simp only [OrderedMap.get?_delete, Option.some.injEq, eq_comm]

@[simp] theorem track_workers (q : EventQueue K T) (key : K) :
    (q.track key).workers = q.workers := by
  unfold track
  rcases (q.lru.touch key).evictOldest q.activeKeys with ⟨_ | evicted, lru, activeKeys⟩ <;> rfl

@[simp] theorem track_history (q : EventQueue K T) (key : K) :
    (q.track key).history = q.history := by
  unfold track
  rcases (q.lru.touch key).evictOldest q.activeKeys with ⟨_ | evicted, lru, activeKeys⟩ <;> rfl

theorem ensureEntry_get? (q : EventQueue K T) (key j : K) :
    (q.ensureEntry key).queues.get? j =
      if j = key ∧ q.queues.get? key = none then some ⟨[], false⟩ else q.queues.get? j := by
  unfold ensureEntry
  by_cases h : key ∈ q.queues.keys
  · have hsome := (OrderedMap.get?_eq_none_iff q.queues key).not.mpr (not_not_intro h)
    rw [if_pos h, if_neg (fun hc => hsome hc.2)]
  · have hnone := (OrderedMap.get?_eq_none_iff q.queues key).mpr h
    rw [if_neg h, OrderedMap.get?_set]
    simp only [hnone, and_true]

@[simp] theorem ensureEntry_workers (q : EventQueue K T) (key : K) :
    (q.ensureEntry key).workers = q.workers := by
  unfold ensureEntry
  split <;> rfl

@[simp] theorem ensureEntry_history (q : EventQueue K T) (key : K) :
    (q.ensureEntry key).history = q.history := by
  unfold ensureEntry
  split <;> rfl

/-- The key being enqueued has an entry when the item is pushed. -/
theorem ensureEntry_isSome (q : EventQueue K T) (key : K) :
    ∃ e, (q.ensureEntry key).queues.get? key = some e := by
  rw [ensureEntry_get?]
  cases h : q.queues.get? key with
  | none => exact ⟨⟨[], false⟩, if_pos ⟨rfl, rfl⟩⟩
  | some e => exact ⟨e, if_neg (fun hc => nomatch hc.2)⟩

@[simp] theorem itemsAt_set (m : OrderedMap K (Entry T)) (key j : K) (e : Entry T) :
    itemsAt (m.set key e) j = if j = key then e.items else itemsAt m j := by
  simp only [itemsAt, OrderedMap.get?_set]
  split <;> rfl

/-- The entry of the key is the tracked one, or a new one without items. -/
theorem opened_get? {q : EventQueue K T} {key j : K} {e : Entry T}
    (h : ((q.track key).ensureEntry key).queues.get? j = some e) :
    q.queues.get? j = some e ∨
      (j = key ∧ e = ⟨[], false⟩ ∧ (q.track key).queues.get? key = none) := by
  rw [ensureEntry_get?] at h
  split at h
  next hnew =>
    cases h
    exact .inr ⟨hnew.1, rfl, hnew.2⟩
  next =>
    rw [track_get?] at h
    split at h
    · cases h
    · exact .inl h

theorem itemsAt_eq {m : OrderedMap K (Entry T)} {key : K} {e : Entry T}
    (h : m.get? key = some e) : itemsAt m key = e.items := by
  rw [itemsAt, h]
  rfl

theorem runKey_nil {q : EventQueue K T} {key : K} {e : Entry T}
    (he : q.queues.get? key = some e) (hi : e.items = []) :
    q.runKey key = { q with queues := q.queues.set key { e with processing := false } } := by
  simp only [runKey, he, hi]

theorem runKey_cons {q : EventQueue K T} {key : K} {e : Entry T} {item : T} {rest : List T}
    (he : q.queues.get? key = some e) (hi : e.items = item :: rest) :
    q.runKey key = { q with
      queues := q.queues.set key ⟨rest, true⟩
      workers := q.workers.add ⟨key, item, false⟩
      history := q.history ++ [.started key item] } := by
  simp only [runKey, he, hi]

theorem proceed_nil {q : EventQueue K T} {key : K} {e : Entry T}
    (he : q.queues.get? key = some e) (hi : e.items = []) :
    SameWork { q with queues := q.queues.set key { e with processing := false } }
      (q.proceed key) := by
  simp only [proceed, he, hi]
  exact sameWork_notifyIdleWaiters _ key

theorem proceed_cons {q : EventQueue K T} {key : K} {e : Entry T} {item : T} {rest : List T}
    (he : q.queues.get? key = some e) (hi : e.items = item :: rest) :
    q.proceed key = q.runKey key := by
  simp only [proceed, he, hi]

theorem proceed_none {q : EventQueue K T} {key : K} (he : q.queues.get? key = none) :
    q.proceed key = q := by
  simp only [proceed, he]

omit [DecidableEq K] in
/-- A processor call that settles is one of a worker still waiting for it. -/
theorem settle_cases (q : EventQueue K T) (i : Nat) (ok : Bool) :
    q.settle i ok = q ∨
      ∃ w, q.workers.get? i = some w ∧ w.settled = false ∧
        q.settle i ok = { q with
          workers := q.workers.update i { w with settled := true }
          history := q.history ++ [.settled w.key w.item ok] } := by
  unfold settle
  cases hw : q.workers.get? i with
  | none => exact .inl rfl
  | some w =>
      cases hs : w.settled with
      | true => exact .inl (by simp only [hs, if_true])
      | false => exact .inr ⟨w, rfl, hs, by simp only [hs, Bool.false_eq_true, if_false]⟩

/-- Only a settled worker goes on, and it is gone when it does. -/
theorem resume_cases (q : EventQueue K T) (i : Nat) :
    q.resume i = q ∨
      ∃ w, q.workers.get? i = some w ∧ w.settled = true ∧
        q.resume i =
          ({ q with workers := q.workers.remove i } : EventQueue K T).proceed w.key := by
  unfold resume
  cases hw : q.workers.get? i with
  | none => exact .inl rfl
  | some w =>
      cases hs : w.settled with
      | true => exact .inr ⟨w, rfl, hs, by simp only [hs, if_true]⟩
      | false => exact .inl (by simp only [hs, Bool.false_eq_true, if_false])

/-! ### Flow: what each operation does to the items of a key -/

theorem flow_of_sameWork {q r : EventQueue K T} (h : SameWork q r) (j : K) :
    r.flow j = q.flow j := by
  simp only [flow, pending, h.1, h.2.2.2.2]

/-- `runKey` hands the first pending item over and changes nothing else. -/
theorem flow_runKey (q : EventQueue K T) (key j : K) : (q.runKey key).flow j = q.flow j := by
  cases he : q.queues.get? key with
  | none => simp only [runKey, he]
  | some e =>
      cases hi : e.items with
      | nil =>
          rw [runKey_nil he hi]
          simp only [flow, pending, itemsAt_set]
          split
          next hj => rw [hj, itemsAt_eq he]
          next => rfl
      | cons item rest =>
          rw [runKey_cons he hi]
          simp only [flow, pending, itemsAt_set, startedOf_append, startedOf_started]
          by_cases hj : j = key
          · subst hj
            simp [itemsAt_eq he, hi]
          · have hk : ¬key = j := fun h => hj h.symm
            simp [hj, hk]

@[simp] theorem enqueuedOf_runKey (q : EventQueue K T) (key j : K) :
    enqueuedOf j (q.runKey key).history = enqueuedOf j q.history := by
  cases he : q.queues.get? key with
  | none => simp only [runKey, he]
  | some e =>
      cases hi : e.items with
      | nil => rw [runKey_nil he hi]
      | cons item rest =>
          rw [runKey_cons he hi]
          simp

theorem flow_track (q : EventQueue K T) (key j : K) :
    (q.track key).flow j =
      startedOf j q.history ++ if q.evictedBy key = some j then [] else q.pending j := by
  simp only [flow, pending, itemsAt, track_history, track_get?]
  split <;> rfl

theorem flow_ensureEntry (q : EventQueue K T) (key j : K) :
    (q.ensureEntry key).flow j = q.flow j := by
  simp only [flow, pending, itemsAt, ensureEntry_history, ensureEntry_get?]
  by_cases h : j = key ∧ q.queues.get? key = none
  · obtain ⟨rfl, hnone⟩ := h
    simp [hnone]
  · rw [if_neg h]

/-- Pushing appends the item to the flow of its key. -/
theorem flow_push {q : EventQueue K T} {key : K} {e : Entry T}
    (h : q.queues.get? key = some e) (item : T) (j : K) :
    (q.push key item).flow j = q.flow j ++ enqueuedOf j [.enqueued key item] := by
  have happend : (q.append key e item).flow j =
      q.flow j ++ enqueuedOf j [.enqueued key item] := by
    by_cases hj : j = key
    · subst hj
      simp [append, flow, pending, itemsAt_eq h]
    · have hk : ¬key = j := fun h => hj h.symm
      simp [append, flow, pending, hj, hk]
  simp only [push, h]
  split
  · exact happend
  · rw [flow_runKey]
    exact happend

theorem enqueuedOf_push {q : EventQueue K T} {key : K} {e : Entry T}
    (h : q.queues.get? key = some e) (item : T) (j : K) :
    enqueuedOf j (q.push key item).history =
      enqueuedOf j q.history ++ enqueuedOf j [.enqueued key item] := by
  simp only [push, h]
  split
  · exact enqueuedOf_append _ _ _
  · rw [enqueuedOf_runKey]
    exact enqueuedOf_append _ _ _

theorem enqueuedOf_enqueue (q : EventQueue K T) (key : K) (item : T) (j : K) :
    enqueuedOf j (q.enqueue key item).history =
      enqueuedOf j q.history ++ enqueuedOf j [.enqueued key item] := by
  obtain ⟨e, he⟩ := ensureEntry_isSome (q.track key) key
  rw [enqueue, enqueuedOf_push he, ensureEntry_history, track_history]

/-- The flow after `enqueue`: an evicted key keeps its started items only. -/
theorem flow_enqueue (q : EventQueue K T) (key : K) (item : T) (j : K) :
    (q.enqueue key item).flow j =
      startedOf j q.history ++ (if q.evictedBy key = some j then [] else q.pending j) ++
        enqueuedOf j [.enqueued key item] := by
  obtain ⟨e, he⟩ := ensureEntry_isSome (q.track key) key
  rw [enqueue, flow_push he, flow_ensureEntry, flow_track]

theorem flow_proceed (q : EventQueue K T) (key j : K) : (q.proceed key).flow j = q.flow j := by
  cases he : q.queues.get? key with
  | none => rw [proceed_none he]
  | some e =>
      cases hi : e.items with
      | nil => rw [flow_of_sameWork (proceed_nil he hi), ← runKey_nil he hi, flow_runKey]
      | cons item rest => rw [proceed_cons he hi, flow_runKey]

theorem enqueuedOf_proceed (q : EventQueue K T) (key j : K) :
    enqueuedOf j (q.proceed key).history = enqueuedOf j q.history := by
  cases he : q.queues.get? key with
  | none => rw [proceed_none he]
  | some e =>
      cases hi : e.items with
      | nil => rw [(proceed_nil he hi).2.2.2.2]
      | cons item rest => rw [proceed_cons he hi, enqueuedOf_runKey]

end EventQueue

open EventQueue

/-- Every action but `enqueue` leaves the flow and the enqueued items alone. -/
theorem step_flow (q : EventQueue K T) (a : Action K T) (j : K)
    (h : ¬∃ key item, a = .enqueue key item) :
    (step q a).flow j = q.flow j ∧
      enqueuedOf j (step q a).history = enqueuedOf j q.history := by
  cases a with
  | enqueue key item => exact absurd ⟨key, item, rfl⟩ h
  | settle i ok =>
      rcases settle_cases q i ok with hq | ⟨w, _, _, hq⟩
      · rw [step, hq]
        exact ⟨rfl, rfl⟩
      · rw [step, hq]
        simp [flow, pending]
  | resume i =>
      rcases resume_cases q i with hq | ⟨w, _, _, hq⟩
      · rw [step, hq]
        exact ⟨rfl, rfl⟩
      · rw [step, hq, flow_proceed, enqueuedOf_proceed]
        exact ⟨rfl, rfl⟩
  | waitForIdle key =>
      have hw := sameWork_waitForIdle q key
      exact ⟨flow_of_sameWork hw j, by rw [step, hw.2.2.2.2]⟩
  | drainAll =>
      have hw := sameWork_drainAll q
      exact ⟨flow_of_sameWork hw j, by rw [step, hw.2.2.2.2]⟩

/-- No key has lost or reordered an item beyond what an eviction drops. -/
def Ordered (q : EventQueue K T) : Prop :=
  ∀ key, (q.flow key).Sublist (enqueuedOf key q.history)

theorem ordered_step (q : EventQueue K T) (a : Action K T) (h : Ordered q) :
    Ordered (step q a) := by
  intro j
  by_cases ha : ∃ key item, a = .enqueue key item
  · obtain ⟨key, item, rfl⟩ := ha
    simp only [step, flow_enqueue, enqueuedOf_enqueue]
    apply List.Sublist.append _ (List.Sublist.refl _)
    split
    · exact ((List.Sublist.refl _).append (List.nil_sublist _)).trans (h j)
    · exact h j
  · obtain ⟨hf, he⟩ := step_flow q a j ha
    rw [hf, he]
    exact h j

/-- The enqueue does not evict a key that has items waiting. -/
def KeepsPending (q : EventQueue K T) : Action K T → Prop
  | .enqueue key _ => ∀ j, q.evictedBy key = some j → q.pending j = []
  | _ => True

/-- Without such evictions nothing is missing from the flow. -/
theorem complete_step (q : EventQueue K T) (a : Action K T)
    (h : ∀ j, q.flow j = enqueuedOf j q.history) (hk : KeepsPending q a) (j : K) :
    (step q a).flow j = enqueuedOf j (step q a).history := by
  by_cases ha : ∃ key item, a = .enqueue key item
  · obtain ⟨key, item, rfl⟩ := ha
    simp only [step, flow_enqueue, enqueuedOf_enqueue, ← h j]
    congr 2
    split
    next he => exact (hk j he).symm
    next => rfl
  · obtain ⟨hf, he⟩ := step_flow q a j ha
    rw [hf, he, h j]

/-- An eviction of waiting items shortens the flow of their key for good. -/
theorem lossy_step {q : EventQueue K T} {a : Action K T}
    (h : ∀ j, (enqueuedOf j q.history).Perm (q.pending j ++ startedOf j q.history))
    (hk : ¬KeepsPending q a) :
    ¬∀ j, (enqueuedOf j (step q a).history).Perm
      ((step q a).pending j ++ startedOf j (step q a).history) := by
  cases a with
  | enqueue key item =>
      simp only [KeepsPending, not_forall] at hk
      obtain ⟨j, hev, hne⟩ := hk
      intro hp
      have hbefore := (h j).length_eq
      have hafter := (hp j).length_eq
      have hflow := congrArg List.length (flow_enqueue q key item j)
      simp only [flow, if_pos hev, List.length_append, List.length_nil] at hflow
      simp only [step, enqueuedOf_enqueue, List.length_append] at hafter hbefore
      have hpos : 0 < (q.pending j).length := List.length_pos_of_ne_nil hne
      omega
  | _ => exact absurd trivial hk

/-! ### Every started call is under way or has settled -/

theorem activeOf_append (key : K) (ws vs : List (Worker K T)) :
    activeOf key (ws ++ vs) = activeOf key ws ++ activeOf key vs :=
  List.filterMap_append

theorem activeOf_perm (key : K) {ws vs : List (Worker K T)} (h : ws.Perm vs) :
    (activeOf key ws).Perm (activeOf key vs) :=
  h.filterMap _

theorem activeOf_cons (key : K) (w : Worker K T) (ws : List (Worker K T)) :
    activeOf key (w :: ws) =
      (if w.key = key ∧ w.settled = false then [w.item] else []) ++ activeOf key ws := by
  by_cases h : w.key = key ∧ w.settled = false <;> simp [activeOf, h]

/-- The calls made for a key are those that have settled and those under way. -/
def Accounted (q : EventQueue K T) : Prop :=
  ∀ key, (startedOf key q.history).Perm
    (settledOf key q.history ++ activeOf key q.workers.values)

/-- `r` has the calls of `q`, and the new ones are all under way. -/
def MoreStarted (q r : EventQueue K T) : Prop :=
  ∀ key, settledOf key r.history = settledOf key q.history ∧
    ∃ new, startedOf key r.history = startedOf key q.history ++ new ∧
      activeOf key r.workers.values = activeOf key q.workers.values ++ new

theorem MoreStarted.trans {q r s : EventQueue K T} (h : MoreStarted q r) (h' : MoreStarted r s) :
    MoreStarted q s := by
  intro key
  obtain ⟨hsettled, new, hstarted, hactive⟩ := h key
  obtain ⟨hsettled', new', hstarted', hactive'⟩ := h' key
  refine ⟨hsettled'.trans hsettled, new ++ new', ?_, ?_⟩
  · rw [hstarted', hstarted, List.append_assoc]
  · rw [hactive', hactive, List.append_assoc]

theorem moreStarted_of_eq {q r : EventQueue K T} (hw : r.workers = q.workers)
    (hh : r.history = q.history) : MoreStarted q r := by
  intro key
  rw [hw, hh]
  exact ⟨rfl, [], (List.append_nil _).symm, (List.append_nil _).symm⟩

theorem moreStarted_of_sameWork {q r : EventQueue K T} (h : SameWork q r) : MoreStarted q r :=
  moreStarted_of_eq h.2.2.2.1 h.2.2.2.2

theorem moreStarted_runKey (q : EventQueue K T) (key : K) : MoreStarted q (q.runKey key) := by
  cases he : q.queues.get? key with
  | none =>
      simp only [runKey, he]
      exact moreStarted_of_eq rfl rfl
  | some e =>
      cases hi : e.items with
      | nil =>
          rw [runKey_nil he hi]
          exact moreStarted_of_eq rfl rfl
      | cons item rest =>
          intro j
          rw [runKey_cons he hi]
          have hone : activeOf j [(⟨key, item, false⟩ : Worker K T)] =
              startedOf j [.started key item] := by
            by_cases hj : key = j <;> simp [activeOf, hj]
          refine ⟨?_, startedOf j [.started key item], startedOf_append _ _ _, ?_⟩
          · rw [settledOf_append, settledOf_started, List.append_nil]
          · rw [Registry.values_add, activeOf_append, hone]

theorem moreStarted_enqueue (q : EventQueue K T) (key : K) (item : T) :
    MoreStarted q (q.enqueue key item) := by
  obtain ⟨e, he⟩ := ensureEntry_isSome (q.track key) key
  have happend : MoreStarted q (((q.track key).ensureEntry key).append key e item) := by
    intro j
    refine ⟨?_, [], ?_, ?_⟩
    · simp [append]
    · simp [append]
    · simp [append]
  simp only [enqueue, push, he]
  split
  · exact happend
  · exact happend.trans (moreStarted_runKey _ key)

theorem moreStarted_proceed (q : EventQueue K T) (key : K) : MoreStarted q (q.proceed key) := by
  cases he : q.queues.get? key with
  | none =>
      rw [proceed_none he]
      exact moreStarted_of_eq rfl rfl
  | some e =>
      cases hi : e.items with
      | nil => exact moreStarted_of_eq (proceed_nil he hi).2.2.2.1 (proceed_nil he hi).2.2.2.2
      | cons item rest =>
          rw [proceed_cons he hi]
          exact moreStarted_runKey q key

theorem Accounted.moreStarted {q r : EventQueue K T} (h : Accounted q) (hm : MoreStarted q r) :
    Accounted r := by
  intro j
  obtain ⟨hsettled, new, hstarted, hactive⟩ := hm j
  rw [hsettled, hstarted, hactive, ← List.append_assoc]
  exact (h j).append_right _

theorem accounted_step (q : EventQueue K T) (a : Action K T) (h : Accounted q) :
    Accounted (step q a) := by
  cases a with
  | enqueue key item => exact h.moreStarted (moreStarted_enqueue q key item)
  | settle i ok =>
      rcases settle_cases q i ok with hq | ⟨w, hw, hs, hq⟩
      · rwa [step, hq]
      · intro j
        rw [step, hq]
        have hold := (activeOf_perm j (Registry.values_perm_of_get? hw))
        have hnew := (activeOf_perm j
          (Registry.values_update_perm hw { w with settled := true }))
        have hone : settledOf j [.settled w.key w.item ok] =
            if w.key = j then [w.item] else [] := settledOf_settled j w.key w.item ok
        simp only [activeOf_cons, hs, and_true] at hold
        simp only [activeOf_cons, Bool.true_eq_false, and_false, if_false,
          List.nil_append] at hnew
        simp only [startedOf_append, startedOf_settled, List.append_nil, settledOf_append, hone,
          List.append_assoc]
        exact ((h j).trans (hold.append_left _)).trans ((hnew.symm.append_left _).append_left _)
  | resume i =>
      rcases resume_cases q i with hq | ⟨w, hw, hs, hq⟩
      · rwa [step, hq]
      · rw [step, hq]
        refine Accounted.moreStarted ?_ (moreStarted_proceed _ _)
        intro j
        have hold := (activeOf_perm j (Registry.values_perm_of_get? hw))
        simp only [activeOf_cons, hs, Bool.true_eq_false, and_false, if_false,
          List.nil_append] at hold
        exact (h j).trans (hold.append_left _)
  | waitForIdle key => exact h.moreStarted (moreStarted_of_sameWork (sameWork_waitForIdle q key))
  | drainAll => exact h.moreStarted (moreStarted_of_sameWork (sameWork_drainAll q))

theorem settledOf_resume (q : EventQueue K T) (i : Nat) (j : K) :
    settledOf j (q.resume i).history = settledOf j q.history := by
  rcases resume_cases q i with hq | ⟨w, _, _, hq⟩
  · rw [hq]
  · rw [hq]
    exact (moreStarted_proceed _ _ j).1

theorem settledOf_settle {q : EventQueue K T} {i : Nat} {w : Worker K T}
    (hw : q.workers.get? i = some w) (hs : w.settled = false) (ok : Bool) (j : K) :
    settledOf j (q.settle i ok).history =
      settledOf j q.history ++ if w.key = j then [w.item] else [] := by
  rw [settle, hw]
  simp only [hs, Bool.false_eq_true, if_false, settledOf_append, settledOf_settled]

/-! ### Properties of all items -/

/-- A property of key and item holds of everything waiting, another one of every worker. -/
def ItemsHold (P : K → T → Prop) (W : Nat → Worker K T → Prop) (q : EventQueue K T) : Prop :=
  (∀ key x, x ∈ q.pending key → P key x) ∧ ∀ i w, q.workers.get? i = some w → W i w

section ItemsHold

variable {P : K → T → Prop} {W : Nat → Worker K T → Prop} {q : EventQueue K T}

theorem itemsHold_new (P : K → T → Prop) (W : Nat → Worker K T → Prop) (maxKeys : Nat) :
    ItemsHold P W (.new maxKeys : EventQueue K T) :=
  ⟨fun _ _ h => absurd h List.not_mem_nil, fun _ _ h => nomatch h⟩

theorem itemsHold_of_sameWork {r : EventQueue K T} (hs : SameWork q r) (h : ItemsHold P W q) :
    ItemsHold P W r := by
  simpa only [ItemsHold, pending, hs.1, hs.2.2.2.1] using h

variable (hnew : ∀ i key x, P key x → W i ⟨key, x, false⟩)

include hnew

theorem itemsHold_runKey (h : ItemsHold P W q) (key : K) : ItemsHold P W (q.runKey key) := by
  cases he : q.queues.get? key with
  | none => simpa only [runKey, he] using h
  | some e =>
      cases hi : e.items with
      | nil =>
          rw [runKey_nil he hi]
          refine ⟨fun j x hx => ?_, h.2⟩
          simp only [pending, itemsAt_set] at hx
          split at hx
          · rw [hi] at hx
            cases hx
          · exact h.1 j x hx
      | cons item rest =>
          have hold : ∀ x ∈ e.items, P key x := fun x hx => h.1 key x (by
            rwa [pending, itemsAt_eq he])
          rw [hi] at hold
          rw [runKey_cons he hi]
          constructor
          · intro j x hx
            simp only [pending, itemsAt_set] at hx
            split at hx
            next hj => exact hj ▸ hold x (List.mem_cons_of_mem _ hx)
            next => exact h.1 j x hx
          · exact Registry.forall_add (hnew _ _ _ (hold item List.mem_cons_self)) h.2

theorem itemsHold_enqueue (h : ItemsHold P W q) {key : K} {item : T} (hitem : P key item) :
    ItemsHold P W (q.enqueue key item) := by
  obtain ⟨e, he⟩ := ensureEntry_isSome (q.track key) key
  have hopened : ∀ j x, x ∈ ((q.track key).ensureEntry key).pending j → P j x := by
    intro j x hx
    cases hj : ((q.track key).ensureEntry key).queues.get? j with
    | none =>
        rw [pending, itemsAt, hj] at hx
        cases hx
    | some e' =>
        rw [pending, itemsAt_eq hj] at hx
        rcases opened_get? hj with hold | ⟨_, rfl, _⟩
        · exact h.1 j x (by rwa [pending, itemsAt_eq hold])
        · cases hx
  have happend : ItemsHold P W (((q.track key).ensureEntry key).append key e item) := by
    constructor
    · intro j x hx
      simp only [pending, append, itemsAt_set] at hx
      split at hx
      next hj =>
        rcases List.mem_append.mp hx with hx | hx
        · exact hopened j x (by rwa [pending, hj, itemsAt_eq he])
        · rw [List.mem_singleton.mp hx, hj]
          exact hitem
      next => exact hopened j x hx
    · intro i w hw
      simp only [append, ensureEntry_workers, track_workers] at hw
      exact h.2 i w hw
  simp only [enqueue, push, he]
  split
  · exact happend
  · exact itemsHold_runKey hnew happend key

theorem itemsHold_proceed (h : ItemsHold P W q) (key : K) : ItemsHold P W (q.proceed key) := by
  cases he : q.queues.get? key with
  | none => rwa [proceed_none he]
  | some e =>
      cases hi : e.items with
      | nil =>
          apply itemsHold_of_sameWork (proceed_nil he hi)
          rw [← runKey_nil he hi]
          exact itemsHold_runKey hnew h key
      | cons item rest =>
          rw [proceed_cons he hi]
          exact itemsHold_runKey hnew h key

theorem itemsHold_resume (h : ItemsHold P W q) (i : Nat) : ItemsHold P W (q.resume i) := by
  rcases resume_cases q i with hq | ⟨w, _, _, hq⟩
  · rwa [hq]
  · rw [hq]
    apply itemsHold_proceed hnew
    exact ⟨h.1, fun j v hv => h.2 j v (Registry.get?_of_get?_remove hv).2⟩

omit hnew

theorem itemsHold_settle (h : ItemsHold P W q) (i : Nat) (ok : Bool)
    (hsettled : ∀ w, q.workers.get? i = some w → W i { w with settled := true }) :
    ItemsHold P W (q.settle i ok) := by
  rcases settle_cases q i ok with hq | ⟨w, hw, _, hq⟩
  · rwa [hq]
  · rw [hq]
    exact ⟨h.1, Registry.forall_update hw (hsettled w hw) fun j v _ hv => h.2 j v hv⟩

end ItemsHold

/-- A property of key and item holds of everything waiting or at a worker. -/
def AllItems (P : K → T → Prop) (q : EventQueue K T) : Prop :=
  (∀ key x, x ∈ q.pending key → P key x) ∧
    ∀ i w, q.workers.get? i = some w → P w.key w.item

theorem AllItems.mono {P Q : K → T → Prop} {q : EventQueue K T} (h : AllItems P q)
    (hPQ : ∀ key x, P key x → Q key x) : AllItems Q q :=
  ⟨fun key x hx => hPQ key x (h.1 key x hx), fun i w hw => hPQ _ _ (h.2 i w hw)⟩

theorem allItems_new (P : K → T → Prop) (maxKeys : Nat) :
    AllItems P (.new maxKeys : EventQueue K T) :=
  itemsHold_new P _ maxKeys

theorem allItems_enqueue {P : K → T → Prop} {q : EventQueue K T} (h : AllItems P q) {key : K}
    {item : T} (hitem : P key item) : AllItems P (q.enqueue key item) :=
  itemsHold_enqueue (fun _ _ _ hx => hx) h hitem

theorem allItems_settle {P : K → T → Prop} {q : EventQueue K T} (h : AllItems P q) (i : Nat)
    (ok : Bool) : AllItems P (q.settle i ok) :=
  itemsHold_settle h i ok fun w hw => h.2 i w hw

theorem allItems_resume {P : K → T → Prop} {q : EventQueue K T} (h : AllItems P q) (i : Nat) :
    AllItems P (q.resume i) :=
  itemsHold_resume (fun _ _ _ hx => hx) h i

/-! ### Waiting items have a worker -/

/-- A `runKey` call of the key has not ended. -/
def Busy (q : EventQueue K T) (key : K) : Prop :=
  ∃ i w, q.workers.get? i = some w ∧ w.key = key

instance (q : EventQueue K T) (key : K) : Decidable (Busy q key) :=
  decidable_of_iff (∃ w ∈ q.workers.values, w.key = key) (by
    constructor
    · rintro ⟨w, hw, hkey⟩
      obtain ⟨i, hi⟩ := (Registry.mem_values_iff q.workers w).mp hw
      exact ⟨i, w, hi, hkey⟩
    · rintro ⟨i, w, hw, hkey⟩
      exact ⟨w, (Registry.mem_values_iff q.workers w).mpr ⟨i, hw⟩, hkey⟩)

theorem busy_append (q : EventQueue K T) (key : K) (e : Entry T) (item : T) (j : K) :
    Busy (q.append key e item) j ↔ Busy q j :=
  Iff.rfl

/-- An entry with items is being processed, and one being processed has a worker. -/
def LiveAt (q : EventQueue K T) (key : K) : Prop :=
  ∀ e, q.queues.get? key = some e →
    (e.items ≠ [] → e.processing = true) ∧ (e.processing = true → Busy q key)

theorem busy_runKey {q : EventQueue K T} {j : K} (h : Busy q j) (key : K) :
    Busy (q.runKey key) j := by
  obtain ⟨i, w, hw, hkey⟩ := h
  cases he : q.queues.get? key with
  | none =>
      simp only [runKey, he]
      exact ⟨i, w, hw, hkey⟩
  | some e =>
      cases hi : e.items with
      | nil =>
          rw [runKey_nil he hi]
          exact ⟨i, w, hw, hkey⟩
      | cons item rest =>
          rw [runKey_cons he hi]
          exact ⟨i, w, Registry.get?_add_of_some hw _, hkey⟩

theorem liveAt_runKey_self (q : EventQueue K T) (key : K) : LiveAt (q.runKey key) key := by
  intro e' he'
  cases he : q.queues.get? key with
  | none =>
      simp only [runKey, he] at he'
      cases he'
  | some e =>
      cases hi : e.items with
      | nil =>
          rw [runKey_nil he hi] at he'
          simp only [OrderedMap.get?_set_self, Option.some.injEq] at he'
          subst he'
          exact ⟨fun h => absurd hi h, fun h => absurd h Bool.false_ne_true⟩
      | cons item rest =>
          rw [runKey_cons he hi] at he' ⊢
          simp only [OrderedMap.get?_set_self, Option.some.injEq] at he'
          subst he'
          exact ⟨fun _ => rfl, fun _ => ⟨_, _, Registry.get?_add_next _ _, rfl⟩⟩

/-- `runKey` leaves the entries of other keys alone. -/
theorem runKey_get?_of_ne (q : EventQueue K T) {key j : K} (h : j ≠ key) :
    (q.runKey key).queues.get? j = q.queues.get? j := by
  cases he : q.queues.get? key with
  | none => simp only [runKey, he]
  | some e =>
      cases hi : e.items with
      | nil =>
          rw [runKey_nil he hi]
          exact OrderedMap.get?_set_of_ne _ h _
      | cons item rest =>
          rw [runKey_cons he hi]
          exact OrderedMap.get?_set_of_ne _ h _

theorem liveAt_runKey_of_ne {q : EventQueue K T} {key j : K} (h : j ≠ key) (hl : LiveAt q j) :
    LiveAt (q.runKey key) j := by
  intro e he
  rw [runKey_get?_of_ne q h] at he
  exact ⟨(hl e he).1, fun hp => busy_runKey ((hl e he).2 hp) key⟩

theorem liveAt_enqueue {q : EventQueue K T} (h : ∀ j, LiveAt q j) (key : K) (item : T) (j : K) :
    LiveAt (q.enqueue key item) j := by
  obtain ⟨e, he⟩ := ensureEntry_isSome (q.track key) key
  have hbusy : ∀ k, Busy q k → Busy ((q.track key).ensureEntry key) k := by
    intro k hk
    simpa only [Busy, ensureEntry_workers, track_workers] using hk
  have hopened : ∀ k, LiveAt ((q.track key).ensureEntry key) k := by
    intro k e' he'
    rcases opened_get? he' with hold | ⟨_, rfl, _⟩
    · exact ⟨(h k e' hold).1, fun hp => hbusy k ((h k e' hold).2 hp)⟩
    · exact ⟨fun hne => absurd rfl hne, fun hp => nomatch hp⟩
  have happend : j ≠ key →
      LiveAt (((q.track key).ensureEntry key).append key e item) j := by
    intro hj e' he'
    rw [append, OrderedMap.get?_set_of_ne _ hj] at he'
    obtain ⟨hitems, hproc⟩ := hopened j e' he'
    exact ⟨hitems, fun hp => (busy_append _ _ _ _ _).mpr (hproc hp)⟩
  simp only [enqueue, push, he]
  cases hp : e.processing with
  | true =>
      rw [if_pos rfl]
      by_cases hj : j = key
      · subst hj
        have hself : (((q.track j).ensureEntry j).append j e item).queues.get? j =
            some { e with items := e.items ++ [item] } := OrderedMap.get?_set_self _ j _
        intro e' he'
        cases hself.symm.trans he'
        exact ⟨fun _ => hp, fun _ => (busy_append _ _ _ _ _).mpr ((hopened j e he).2 hp)⟩
      · exact happend hj
  | false =>
      rw [if_neg Bool.false_ne_true]
      by_cases hj : j = key
      · subst hj
        exact liveAt_runKey_self _ j
      · exact liveAt_runKey_of_ne hj (happend hj)

theorem liveAt_of_sameWork {q r : EventQueue K T} (hs : SameWork q r) {j : K}
    (h : LiveAt q j) : LiveAt r j := by
  intro e he
  rw [hs.1] at he
  obtain ⟨hp, hb⟩ := h e he
  refine ⟨hp, fun hproc => ?_⟩
  obtain ⟨i, w, hw, hkey⟩ := hb hproc
  exact ⟨i, w, by rw [hs.2.2.2.1]; exact hw, hkey⟩

theorem liveAt_proceed_self (q : EventQueue K T) (key : K) : LiveAt (q.proceed key) key := by
  cases he : q.queues.get? key with
  | none =>
      rw [proceed_none he]
      intro e he'
      rw [he] at he'
      cases he'
  | some e =>
      cases hi : e.items with
      | nil =>
          apply liveAt_of_sameWork (proceed_nil he hi)
          rw [← runKey_nil he hi]
          exact liveAt_runKey_self q key
      | cons item rest =>
          rw [proceed_cons he hi]
          exact liveAt_runKey_self q key

theorem liveAt_proceed_of_ne {q : EventQueue K T} {key j : K} (h : j ≠ key)
    (hl : LiveAt q j) : LiveAt (q.proceed key) j := by
  cases he : q.queues.get? key with
  | none => rwa [proceed_none he]
  | some e =>
      cases hi : e.items with
      | nil =>
          apply liveAt_of_sameWork (proceed_nil he hi)
          rw [← runKey_nil he hi]
          exact liveAt_runKey_of_ne h hl
      | cons item rest =>
          rw [proceed_cons he hi]
          exact liveAt_runKey_of_ne h hl

theorem liveAt_step (q : EventQueue K T) (a : Action K T) (h : ∀ j, LiveAt q j) (j : K) :
    LiveAt (step q a) j := by
  cases a with
  | enqueue key item => exact liveAt_enqueue h key item j
  | settle i ok =>
      rcases settle_cases q i ok with hq | ⟨w, hw, _, hq⟩
      · rw [step, hq]
        exact h j
      · rw [step, hq]
        intro e he
        refine ⟨(h j e he).1, fun hp => ?_⟩
        obtain ⟨i', v, hv, hkey⟩ := (h j e he).2 hp
        by_cases hi : i' = i
        · subst hi
          obtain rfl : w = v := Option.some.inj (hw.symm.trans hv)
          have hset : (q.workers.update i' { w with settled := true }).get? i' =
              some { w with settled := true } := by
            rw [Registry.get?_update hw, if_pos rfl]
          exact ⟨i', _, hset, hkey⟩
        · exact ⟨i', v, by rw [Registry.get?_update hw, if_neg hi]; exact hv, hkey⟩
  | resume i =>
      rcases resume_cases q i with hq | ⟨w, hw, _, hq⟩
      · rw [step, hq]
        exact h j
      · rw [step, hq]
        by_cases hj : j = w.key
        · subst hj
          exact liveAt_proceed_self _ _
        · apply liveAt_proceed_of_ne hj
          intro e he
          refine ⟨(h j e he).1, fun hp => ?_⟩
          obtain ⟨i', v, hv, hkey⟩ := (h j e he).2 hp
          have hne : i' ≠ i := by
            rintro rfl
            obtain rfl : w = v := Option.some.inj (hw.symm.trans hv)
            exact hj hkey.symm
          exact ⟨i', v, by rw [Registry.get?_remove_of_ne _ hne]; exact hv, hkey⟩
  | waitForIdle key => exact liveAt_of_sameWork (sameWork_waitForIdle q key) (h j)
  | drainAll => exact liveAt_of_sameWork (sameWork_drainAll q) (h j)

/-- No `runKey` call is left. -/
def Idle (q : EventQueue K T) : Prop := q.workers.values = []

theorem pending_of_idle {q : EventQueue K T} (h : ∀ j, LiveAt q j) (hidle : Idle q) (key : K) :
    q.pending key = [] := by
  cases he : q.queues.get? key with
  | none => rw [pending, itemsAt, he]; rfl
  | some e =>
      rw [pending, itemsAt_eq he]
      by_contra hne
      obtain ⟨i, w, hw, _⟩ := (h key e he).2 ((h key e he).1 hne)
      have hmem := (Registry.mem_values_iff q.workers w).mpr ⟨i, hw⟩
      rw [hidle] at hmem
      cases hmem

/-! ### The conservation law -/

/-- Every item enqueued is pending or was handed over, each exactly once; and
when no worker is left every one of them has been processed. -/
def Conserved (q : EventQueue K T) : Prop :=
  (∀ key, (enqueuedOf key q.history).Perm (q.pending key ++ startedOf key q.history)) ∧
    (Idle q → ∀ key, (enqueuedOf key q.history).Perm (settledOf key q.history))

theorem conserved_of_complete {q : EventQueue K T}
    (hflow : ∀ key, q.flow key = enqueuedOf key q.history) (hacc : Accounted q)
    (hlive : ∀ key, LiveAt q key) : Conserved q := by
  constructor
  · intro key
    rw [← hflow key]
    exact List.perm_append_comm
  · intro hidle key
    have hstarted : startedOf key q.history = enqueuedOf key q.history := by
      rw [← hflow key, flow, pending_of_idle hlive hidle key, List.append_nil]
    have hactive : activeOf key q.workers.values = [] := by
      rw [show q.workers.values = [] from hidle]
      rfl
    have hperm := hacc key
    rwa [hactive, List.append_nil, hstarted] at hperm

theorem accounted_new (maxKeys : Nat) : Accounted (.new maxKeys : EventQueue K T) :=
  fun _ => List.Perm.refl _

theorem liveAt_new (maxKeys : Nat) (key : K) : LiveAt (.new maxKeys : EventQueue K T) key := by
  intro e he
  cases he

/-- A run conserves its items exactly when no enqueue evicts a key that still
has items waiting. -/
theorem conserved_iff_keepsPending (maxKeys : Nat) (acts : List (Action K T)) :
    Throughout step Conserved (.new maxKeys) acts ↔
      Along step KeepsPending (.new maxKeys) acts := by
  constructor
  · intro h
    refine along_of_throughout (I := fun _ => True) (fun _ _ _ => trivial) ?_ trivial h
    intro q a _ hq hk hnext
    exact lossy_step hq.1 hk hnext.1
  · intro h
    refine throughout_of_along h fun as has => ?_
    apply conserved_of_complete
    · exact exec_invariant (I := fun q => ∀ key, q.flow key = enqueuedOf key q.history)
        (fun q a hq hk => complete_step q a hq hk) (fun _ => rfl) has
    · exact exec_invariant' accounted_step (accounted_new maxKeys) as
    · exact exec_invariant' (I := fun q => ∀ key, LiveAt q key)
        (fun q a hq => liveAt_step q a hq) (liveAt_new maxKeys) as

/-- With room for one key, a second key evicts the items waiting under the first. -/
theorem not_conserved_of_eviction :
    ¬Throughout step Conserved (.new 1)
      [.enqueue "A" 1, .enqueue "A" 2, .enqueue "B" 3] := by
  intro h
  have hperm := h.last.1 "A"
  revert hperm
  decide

end HulyGitlab.Queue
