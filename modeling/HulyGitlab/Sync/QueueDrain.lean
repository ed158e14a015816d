import HulyGitlab.Sync.QueueExclusion

/-!
# Draining the event queue

`drainAll` waits for the keys that are tracked and not idle when it is called.
A key is idle when its items have been processed, as long as no eviction has
made the queue forget a key that is not idle.
-/

namespace HulyGitlab.Queue

open Transition EventQueue

variable {K T : Type*} [DecidableEq K]

/-! ### Calls settle in the order in which they start -/

theorem activeOf_of_not_busy {q : EventQueue K T} {key : K} (h : ¬Busy q key) :
    activeOf key q.workers.values = [] := by
  rw [activeOf, List.filterMap_eq_nil_iff]
  intro w hw
  obtain ⟨i, hi⟩ := (Registry.mem_values_iff q.workers w).mp hw
  rw [if_neg fun hkey => h ⟨i, w, hi, hkey.1⟩]

/-- The only worker of a key is the call under way, unless it has settled. -/
theorem activeOf_of_worker {q : EventQueue K T} {key : K} (h : SingleAt q key) {i : Nat}
    {w : Worker K T} (hw : q.workers.get? i = some w) (hkey : w.key = key) :
    activeOf key q.workers.values = if w.settled then [] else [w.item] := by
  have hrest : activeOf key (q.workers.remove i).values = [] := by
    rw [activeOf, List.filterMap_eq_nil_iff]
    intro v hv
    obtain ⟨j, hj⟩ := (Registry.mem_values_iff _ v).mp hv
    obtain ⟨hne, hj⟩ := Registry.get?_of_get?_remove hj
    rw [if_neg fun hvk => hne (h.1 j i v w hj hw hvk.1 hkey)]
  have hperm := activeOf_perm key (Registry.values_perm_of_get? hw)
  rw [activeOf_cons, hrest, List.append_nil] at hperm
  cases hs : w.settled with
  | true =>
      rw [if_neg (by simp [hs])] at hperm
      exact hperm.eq_nil
  | false =>
      rw [if_pos ⟨hkey, hs⟩] at hperm
      exact List.perm_singleton.mp hperm

/-- The calls of a key started so far are those that have settled, then the one under way. -/
def InOrder (q : EventQueue K T) : Prop :=
  ∀ key, startedOf key q.history =
    settledOf key q.history ++ activeOf key q.workers.values

theorem InOrder.moreStarted {q r : EventQueue K T} (h : InOrder q) (hm : MoreStarted q r) :
    InOrder r := by
  intro j
  obtain ⟨hsettled, new, hstarted, hactive⟩ := hm j
  rw [hsettled, hstarted, hactive, ← List.append_assoc, h j]

/-- The call under way is the same where the workers of the key are. -/
theorem activeOf_congr {q r : EventQueue K T} {key : K} (hq : SingleAt q key)
    (hr : SingleAt r key)
    (h : ∀ i w, w.key = key → (q.workers.get? i = some w ↔ r.workers.get? i = some w)) :
    activeOf key q.workers.values = activeOf key r.workers.values := by
  by_cases hbusy : Busy q key
  · obtain ⟨i, w, hw, hkey⟩ := hbusy
    rw [activeOf_of_worker hq hw hkey, activeOf_of_worker hr ((h i w hkey).mp hw) hkey]
  · rw [activeOf_of_not_busy hbusy, activeOf_of_not_busy]
    rintro ⟨i, w, hw, hkey⟩
    exact hbusy ⟨i, w, (h i w hkey).mpr hw, hkey⟩

theorem inOrder_settle {q : EventQueue K T} (h : InOrder q) (hsingle : ∀ j, SingleAt q j)
    (i : Nat) (ok : Bool) (hnext : ∀ j, SingleAt (q.settle i ok) j) : InOrder (q.settle i ok) := by
  rcases settle_cases q i ok with hq | ⟨w, hw, hs, hq⟩
  · rwa [hq]
  · intro j
    have hself : (q.settle i ok).workers.get? i = some { w with settled := true } := by
      rw [hq]
      exact (Registry.get?_update hw _ i).trans (if_pos rfl)
    rw [settledOf_settle hw hs ok j]
    have hstarted : startedOf j (q.settle i ok).history = startedOf j q.history := by
      rw [hq]
      simp
    rw [hstarted, h j]
    by_cases hj : w.key = j
    · subst hj
      rw [activeOf_of_worker (hsingle w.key) hw rfl, hs,
        activeOf_of_worker (hnext w.key) hself rfl]
      simp
    · rw [if_neg hj, List.append_nil, activeOf_congr (hsingle j) (hnext j)]
      intro k v hv
      rw [hq]
      show _ ↔ (q.workers.update i { w with settled := true }).get? k = some v
      rw [Registry.get?_update hw]
      by_cases hk : k = i
      · rw [if_pos hk, hk, hw]
        constructor
        · rintro ⟨⟩
          exact absurd hv hj
        · rintro ⟨⟩
          exact absurd hv hj
      · rw [if_neg hk]

/-- A worker that has settled leaves no call of its key under way. -/
theorem inOrder_resume {q : EventQueue K T} (h : InOrder q) (hsingle : ∀ j, SingleAt q j)
    (i : Nat) : InOrder (q.resume i) := by
  rcases resume_cases q i with hq | ⟨w, hw, hs, hq⟩
  · rwa [hq]
  · rw [hq]
    refine InOrder.moreStarted ?_ (moreStarted_proceed _ _)
    intro j
    have hremoved : SingleAt { q with workers := q.workers.remove i } j := by
      constructor
      · intro i₁ i₂ w₁ w₂ h₁ h₂
        exact (hsingle j).1 i₁ i₂ w₁ w₂ (Registry.get?_of_get?_remove h₁).2
          (Registry.get?_of_get?_remove h₂).2
      · rintro e he ⟨k, v, hv, hkey⟩
        exact (hsingle j).2 e he ⟨k, v, (Registry.get?_of_get?_remove hv).2, hkey⟩
    show startedOf j q.history =
      settledOf j q.history ++ activeOf j (q.workers.remove i).values
    rw [h j]
    by_cases hj : w.key = j
    · subst hj
      have hgone : ¬Busy { q with workers := q.workers.remove i } w.key := by
        rintro ⟨k, v, hv, hkey⟩
        obtain ⟨hne, hv⟩ := Registry.get?_of_get?_remove hv
        exact hne ((hsingle w.key).1 k i v w hv hw hkey rfl)
      rw [activeOf_of_worker (hsingle w.key) hw rfl, hs, activeOf_of_not_busy hgone, if_pos rfl]
    · rw [activeOf_congr (hsingle j) hremoved]
      intro k v hv
      show _ ↔ (q.workers.remove i).get? k = some v
      by_cases hk : k = i
      · rw [hk, hw, Registry.get?_remove, if_pos rfl]
        constructor
        · rintro ⟨⟩
          exact absurd hv hj
        · exact fun hnone => nomatch hnone
      · rw [Registry.get?_remove_of_ne _ hk]

/-! ### A queue that forgets idle keys only -/

/-- The enqueue evicts no key that is not idle. -/
def EvictsIdle (q : EventQueue K T) : Action K T → Prop
  | .enqueue key _ => ∀ j, q.evictedBy key = some j → q.isIdle j = true
  | _ => True

/-- What such runs keep: every worker's key is tracked, and the items of a key are in one line
from the settled to the pending. -/
structure Sound (q : EventQueue K T) : Prop where
  capacity : 1 ≤ q.lru.capacity
  single : ∀ j, SingleAt q j
  tracked : ∀ j, Busy q j → q.queues.get? j ≠ none
  complete : ∀ j, q.flow j = enqueuedOf j q.history
  inOrder : InOrder q

theorem isIdle_iff (q : EventQueue K T) (key : K) :
    q.isIdle key = true ↔
      ∀ e, q.queues.get? key = some e → e.processing = false ∧ e.items = [] := by
  rw [isIdle]
  cases q.queues.get? key with
  | none => simp
  | some e => simp

theorem Sound.not_busy_of_isIdle {q : EventQueue K T} (h : Sound q) {key : K}
    (hidle : q.isIdle key = true) : ¬Busy q key := by
  intro hbusy
  obtain ⟨e, he⟩ := Option.ne_none_iff_exists'.mp (h.tracked key hbusy)
  have hprocessing := (h.single key).2 e he hbusy
  rw [((isIdle_iff q key).mp hidle e he).1] at hprocessing
  exact Bool.false_ne_true hprocessing

theorem pending_of_isIdle {q : EventQueue K T} {key : K} (hidle : q.isIdle key = true) :
    q.pending key = [] := by
  rw [pending, itemsAt]
  cases he : q.queues.get? key with
  | none => rfl
  | some e => exact ((isIdle_iff q key).mp hidle e he).2

/-- All items of a key without workers and pending items have been processed. -/
theorem Sound.settled_of_not_busy {q : EventQueue K T} (h : Sound q) {key : K}
    (hbusy : ¬Busy q key) (hpending : q.pending key = []) :
    settledOf key q.history = enqueuedOf key q.history := by
  have hflow := h.complete key
  rw [flow, hpending, List.append_nil, h.inOrder key, activeOf_of_not_busy hbusy,
    List.append_nil] at hflow
  exact hflow

theorem Sound.keepsPending {q : EventQueue K T} {a : Action K T} (hk : EvictsIdle q a) :
    KeepsPending q a := by
  cases a with
  | enqueue key item => exact fun j hev => pending_of_isIdle (hk j hev)
  | _ => trivial

theorem Sound.noReentry {q : EventQueue K T} (h : Sound q) (a : Action K T) : NoReentry q a := by
  cases a with
  | enqueue key item => exact fun hnone hbusy => h.tracked key hbusy hnone
  | _ => trivial

theorem runKey_isSome {q : EventQueue K T} (key j : K) (h : q.queues.get? j ≠ none) :
    (q.runKey key).queues.get? j ≠ none := by
  by_cases hj : j = key
  · subst hj
    obtain ⟨e, he⟩ := Option.ne_none_iff_exists'.mp h
    cases hi : e.items with
    | nil => simp [runKey_nil he hi]
    | cons item rest => simp [runKey_cons he hi]
  · rwa [runKey_get?_of_ne q hj]

theorem enqueue_isSome {q : EventQueue K T} {key j : K} (item : T)
    (h : j = key ∨ q.queues.get? j ≠ none ∧ q.evictedBy key ≠ some j) :
    (q.enqueue key item).queues.get? j ≠ none := by
  obtain ⟨e, he⟩ := ensureEntry_isSome (q.track key) key
  have hopened : ((q.track key).ensureEntry key).queues.get? j ≠ none := by
    by_cases hj : j = key
    · simp [hj, he]
    · obtain ⟨hsome, hkept⟩ := h.resolve_left hj
      rw [ensureEntry_get?, if_neg fun hc => hj hc.1, track_get?, if_neg hkept]
      exact hsome
  have happend : (((q.track key).ensureEntry key).append key e item).queues.get? j ≠ none := by
    rw [append, OrderedMap.get?_set]
    split
    · simp
    · exact hopened
  simp only [enqueue, push, he]
  split
  · exact happend
  · exact runKey_isSome key j happend

/-- A worker of the queue after an enqueue is an old one or one of the key. -/
theorem busy_of_enqueue {q : EventQueue K T} {key j : K} {item : T}
    (h : Busy (q.enqueue key item) j) : j = key ∨ Busy q j := by
  by_cases hj : j = key
  · exact .inl hj
  · obtain ⟨i, w, hw, hkey⟩ := h
    obtain ⟨e, he⟩ := ensureEntry_isSome (q.track key) key
    refine .inr ⟨i, w, ?_, hkey⟩
    simp only [enqueue, push, he] at hw
    split at hw
    · simpa [append] using hw
    · simpa [append] using runKey_worker_of_ne hj hw hkey

theorem proceed_isSome {q : EventQueue K T} (key j : K) (h : q.queues.get? j ≠ none) :
    (q.proceed key).queues.get? j ≠ none := by
  cases he : q.queues.get? key with
  | none => rwa [proceed_none he]
  | some e =>
      cases hi : e.items with
      | nil =>
          rw [(proceed_nil he hi).1, ← congrArg EventQueue.queues (runKey_nil he hi)]
          exact runKey_isSome key j h
      | cons item rest =>
          rw [proceed_cons he hi]
          exact runKey_isSome key j h

theorem busy_of_proceed {q : EventQueue K T} {key j : K} (h : Busy (q.proceed key) j) :
    Busy q j ∨ j = key ∧ q.queues.get? key ≠ none := by
  cases he : q.queues.get? key with
  | none =>
      rw [proceed_none he] at h
      exact .inl h
  | some e =>
      by_cases hj : j = key
      · exact .inr ⟨hj, by simp⟩
      · obtain ⟨i, w, hw, hkey⟩ := h
        refine .inl ⟨i, w, ?_, hkey⟩
        cases hi : e.items with
        | nil =>
            rw [(proceed_nil he hi).2.2.2.1] at hw
            exact hw
        | cons item rest =>
            rw [proceed_cons he hi] at hw
            exact runKey_worker_of_ne hj hw hkey

theorem Sound.tracked_step {q : EventQueue K T} (h : Sound q) {a : Action K T}
    (hk : EvictsIdle q a) (j : K) (hbusy : Busy (step q a) j) :
    (step q a).queues.get? j ≠ none := by
  cases a with
  | enqueue key item =>
      apply enqueue_isSome item
      rcases busy_of_enqueue hbusy with hj | hold
      · exact .inl hj
      · exact .inr ⟨h.tracked j hold, fun hev => h.not_busy_of_isIdle (hk j hev) hold⟩
  | settle i ok =>
      rcases settle_cases q i ok with hq | ⟨w, hw, _, hq⟩
      · rw [step, hq] at hbusy ⊢
        exact h.tracked j hbusy
      · rw [step, hq] at hbusy ⊢
        obtain ⟨k, v, hv, hkey⟩ := hbusy
        apply h.tracked j
        rw [Registry.get?_update hw] at hv
        split at hv
        · cases hv
          exact ⟨i, w, hw, hkey⟩
        · exact ⟨k, v, hv, hkey⟩
  | resume i =>
      rcases resume_cases q i with hq | ⟨w, hw, _, hq⟩
      · rw [step, hq] at hbusy ⊢
        exact h.tracked j hbusy
      · rw [step, hq] at hbusy ⊢
        apply proceed_isSome
        rcases busy_of_proceed hbusy with ⟨k, v, hv, hkey⟩ | ⟨rfl, hsome⟩
        · exact h.tracked j ⟨k, v, (Registry.get?_of_get?_remove hv).2, hkey⟩
        · exact hsome
  | waitForIdle key =>
      have hw := sameWork_waitForIdle q key
      rw [step, hw.1]
      apply h.tracked j
      simpa only [step, Busy, hw.2.2.2.1] using hbusy
  | drainAll =>
      have hw := sameWork_drainAll q
      rw [step, hw.1]
      apply h.tracked j
      simpa only [step, Busy, hw.2.2.2.1] using hbusy

theorem Sound.step {q : EventQueue K T} (h : Sound q) {a : Action K T} (hk : EvictsIdle q a) :
    Sound (step q a) where
  capacity := by
    rw [capacity_step]
    exact h.capacity
  single j := singleAt_step h.capacity h.single (h.noReentry a) j
  tracked j hbusy := h.tracked_step hk j hbusy
  complete j := complete_step q a h.complete (Sound.keepsPending hk) j
  inOrder := by
    have hnext : ∀ j, SingleAt (Queue.step q a) j :=
      singleAt_step h.capacity h.single (h.noReentry a)
    cases a with
    | enqueue key item => exact h.inOrder.moreStarted (moreStarted_enqueue q key item)
    | settle i ok => exact inOrder_settle h.inOrder h.single i ok hnext
    | resume i => exact inOrder_resume h.inOrder h.single i
    | waitForIdle key => exact h.inOrder.moreStarted (moreStarted_of_sameWork (sameWork_waitForIdle q key))
    | drainAll => exact h.inOrder.moreStarted (moreStarted_of_sameWork (sameWork_drainAll q))

theorem sound_new {maxKeys : Nat} (hmax : 1 ≤ maxKeys) :
    Sound (.new maxKeys : EventQueue K T) where
  capacity := hmax
  single := singleAt_new maxKeys
  tracked := fun _ ⟨_, _, hw, _⟩ => nomatch hw
  complete _ := rfl
  inOrder _ := rfl

/-! ### Promises of idle keys -/

/-- The open promises of a key. -/
def waitersOf (q : EventQueue K T) (key : K) : List Nat := (q.idleWaiters.get? key).getD []

/-- Promises are numbered in order, and an open one is that of one key. -/
structure Waiting (q : EventQueue K T) : Prop where
  lt_next : ∀ key, ∀ w ∈ waitersOf q key, w < q.nextWaiter
  unresolved : ∀ key, ∀ w ∈ waitersOf q key, w ∉ q.resolved
  resolved_lt : ∀ w ∈ q.resolved, w < q.nextWaiter
  one_key : ∀ j k w, w ∈ waitersOf q j → w ∈ waitersOf q k → j = k

theorem waiting_new (maxKeys : Nat) : Waiting (.new maxKeys : EventQueue K T) where
  lt_next _ _ hw := absurd hw List.not_mem_nil
  unresolved _ _ hw := absurd hw List.not_mem_nil
  resolved_lt _ hw := absurd hw List.not_mem_nil
  one_key _ _ _ hw := absurd hw List.not_mem_nil

/-- Two queues that have the same promises. -/
def SameWaiters (q r : EventQueue K T) : Prop :=
  r.idleWaiters = q.idleWaiters ∧ r.nextWaiter = q.nextWaiter ∧ r.resolved = q.resolved

omit [DecidableEq K] in
theorem SameWaiters.trans {q r t : EventQueue K T} (h : SameWaiters q r) (h' : SameWaiters r t) :
    SameWaiters q t :=
  ⟨h'.1.trans h.1, h'.2.1.trans h.2.1, h'.2.2.trans h.2.2⟩

theorem SameWaiters.waitersOf_eq {q r : EventQueue K T} (h : SameWaiters q r) (key : K) :
    waitersOf r key = waitersOf q key := by
  rw [waitersOf, h.1, waitersOf]

theorem SameWaiters.waiting {q r : EventQueue K T} (h : SameWaiters q r) (hq : Waiting q) :
    Waiting r where
  lt_next key w hw := by
    rw [h.waitersOf_eq] at hw
    rw [h.2.1]
    exact hq.lt_next key w hw
  unresolved key w hw := by
    rw [h.waitersOf_eq] at hw
    rw [h.2.2]
    exact hq.unresolved key w hw
  resolved_lt w hw := by
    rw [h.2.2] at hw
    rw [h.2.1]
    exact hq.resolved_lt w hw
  one_key j k w hj hk := by
    rw [h.waitersOf_eq] at hj hk
    exact hq.one_key j k w hj hk

theorem sameWaiters_runKey (q : EventQueue K T) (key : K) : SameWaiters q (q.runKey key) := by
  cases he : q.queues.get? key with
  | none => simp [runKey, he, SameWaiters]
  | some e =>
      cases hi : e.items with
      | nil => rw [runKey_nil he hi]; exact ⟨rfl, rfl, rfl⟩
      | cons item rest => rw [runKey_cons he hi]; exact ⟨rfl, rfl, rfl⟩

theorem sameWaiters_enqueue (q : EventQueue K T) (key : K) (item : T) :
    SameWaiters q (q.enqueue key item) := by
  obtain ⟨e, he⟩ := ensureEntry_isSome (q.track key) key
  have htrack : SameWaiters q (q.track key) := by
    unfold track
    rcases (q.lru.touch key).evictOldest q.activeKeys with ⟨_ | evicted, lru, activeKeys⟩
    · exact ⟨rfl, rfl, rfl⟩
    · exact ⟨rfl, rfl, rfl⟩
  have hopened : SameWaiters q ((q.track key).ensureEntry key) := by
    unfold ensureEntry
    split
    · exact htrack
    · exact htrack
  have happend : SameWaiters q (((q.track key).ensureEntry key).append key e item) := by
    simpa only [SameWaiters, append] using hopened
  simp only [enqueue, push, he]
  split
  · exact happend
  · exact happend.trans (sameWaiters_runKey _ key)

omit [DecidableEq K] in
theorem sameWaiters_settle (q : EventQueue K T) (i : Nat) (ok : Bool) :
    SameWaiters q (q.settle i ok) := by
  rcases settle_cases q i ok with hq | ⟨w, _, _, hq⟩
  · rw [hq]; exact ⟨rfl, rfl, rfl⟩
  · rw [hq]; exact ⟨rfl, rfl, rfl⟩

theorem notify_waitersOf (q : EventQueue K T) (key j : K) :
    waitersOf (q.notifyIdleWaiters key) j = if j = key then [] else waitersOf q j := by
  rw [notifyIdleWaiters]
  cases hw : q.idleWaiters.get? key with
  | none =>
      by_cases hj : j = key
      · subst hj
        simp [waitersOf, hw]
      · rw [if_neg hj]
  | some waiters =>
      show ((q.idleWaiters.delete key).get? j).getD [] = _
      rw [OrderedMap.get?_delete]
      split
      · rfl
      · rfl

theorem notify_resolved (q : EventQueue K T) (key : K) :
    (q.notifyIdleWaiters key).resolved = q.resolved ++ waitersOf q key ∧
      (q.notifyIdleWaiters key).nextWaiter = q.nextWaiter := by
  rw [notifyIdleWaiters, waitersOf]
  cases q.idleWaiters.get? key with
  | none => exact ⟨(List.append_nil _).symm, rfl⟩
  | some waiters => exact ⟨rfl, rfl⟩

theorem waiting_notify {q : EventQueue K T} (h : Waiting q) (key : K) :
    Waiting (q.notifyIdleWaiters key) := by
  obtain ⟨hresolved, hnext⟩ := notify_resolved q key
  have hold : ∀ {j w}, w ∈ waitersOf (q.notifyIdleWaiters key) j →
      j ≠ key ∧ w ∈ waitersOf q j := by
    intro j w hw
    rw [notify_waitersOf] at hw
    split at hw
    · cases hw
    · exact ⟨‹_›, hw⟩
  constructor
  · intro j w hw
    rw [hnext]
    exact h.lt_next j w (hold hw).2
  · intro j w hw
    obtain ⟨hne, hw⟩ := hold hw
    rw [hresolved, List.mem_append]
    rintro (hdone | hself)
    · exact h.unresolved j w hw hdone
    · exact hne (h.one_key j key w hw hself)
  · intro w hw
    rw [hresolved, List.mem_append] at hw
    rw [hnext]
    exact hw.elim (h.resolved_lt w) (h.lt_next key w)
  · intro j k w hj hk
    exact h.one_key j k w (hold hj).2 (hold hk).2

/-- The continuation of a worker keeps the promises, or it resolves those of its key, which has
no items left. -/
theorem proceed_waiters (q : EventQueue K T) (key : K) :
    SameWaiters q (q.proceed key) ∨
      ∃ e, q.queues.get? key = some e ∧ e.items = [] ∧
        q.proceed key = ({ q with queues := q.queues.set key { e with processing := false } }
          : EventQueue K T).notifyIdleWaiters key := by
  cases he : q.queues.get? key with
  | none =>
      rw [proceed_none he]
      exact .inl ⟨rfl, rfl, rfl⟩
  | some e =>
      cases hi : e.items with
      | nil =>
          refine .inr ⟨e, rfl, hi, ?_⟩
          simp only [proceed, he, hi]
      | cons item rest =>
          rw [proceed_cons he hi]
          exact .inl (sameWaiters_runKey q key)

theorem waiting_proceed {q : EventQueue K T} (h : Waiting q) (key : K) :
    Waiting (q.proceed key) := by
  rcases proceed_waiters q key with hsame | ⟨e, _, _, hq⟩
  · exact hsame.waiting h
  · rw [hq]
    exact waiting_notify (q := { q with queues := q.queues.set key { e with processing := false } })
      ⟨h.lt_next, h.unresolved, h.resolved_lt, h.one_key⟩ key

/-! ### `waitForIdle` and `drainAll` -/

theorem waitForIdle_of_idle {q : EventQueue K T} {key : K} (h : q.isIdle key = true) :
    q.waitForIdle key = (none, q) := by
  rw [waitForIdle, if_pos h]

/-- The queue with a new promise for the key. -/
def promised (q : EventQueue K T) (key : K) : EventQueue K T :=
  { q with
    idleWaiters := q.idleWaiters.set key (waitersOf q key ++ [q.nextWaiter])
    nextWaiter := q.nextWaiter + 1 }

theorem waitForIdle_of_not_idle {q : EventQueue K T} {key : K} (h : q.isIdle key = false) :
    q.waitForIdle key = (some q.nextWaiter, promised q key) := by
  rw [waitForIdle, if_neg (by rw [h]; exact Bool.false_ne_true)]
  rfl

theorem mem_waitersOf_promised {q : EventQueue K T} {key j : K} {w : Nat} :
    w ∈ waitersOf (promised q key) j ↔ w ∈ waitersOf q j ∨ j = key ∧ w = q.nextWaiter := by
  show w ∈ ((q.idleWaiters.set key (waitersOf q key ++ [q.nextWaiter])).get? j).getD [] ↔ _
  rw [OrderedMap.get?_set]
  by_cases hj : j = key
  · rw [if_pos hj, hj]
    simp
  · rw [if_neg hj]
    simp [hj, waitersOf]

theorem waiting_promised {q : EventQueue K T} (h : Waiting q) (key : K) :
    Waiting (promised q key) := by
  constructor
  · intro j w hw
    show w < q.nextWaiter + 1
    rcases mem_waitersOf_promised.mp hw with hold | ⟨_, rfl⟩
    · exact Nat.lt_succ_of_lt (h.lt_next j w hold)
    · exact Nat.lt_succ_self _
  · intro j w hw hdone
    rcases mem_waitersOf_promised.mp hw with hold | ⟨_, rfl⟩
    · exact h.unresolved j w hold hdone
    · exact Nat.lt_irrefl _ (h.resolved_lt _ hdone)
  · exact fun w hw => Nat.lt_succ_of_lt (h.resolved_lt w hw)
  · intro j k w hj hk
    rcases mem_waitersOf_promised.mp hj with hold | ⟨hjkey, hw⟩
    · rcases mem_waitersOf_promised.mp hk with hold' | ⟨_, hw⟩
      · exact h.one_key j k w hold hold'
      · exact absurd (h.lt_next j w hold) (hw ▸ Nat.lt_irrefl _)
    · rcases mem_waitersOf_promised.mp hk with hold' | ⟨hkkey, _⟩
      · exact absurd (h.lt_next k w hold') (hw ▸ Nat.lt_irrefl _)
      · exact hjkey.trans hkkey.symm

/-- One key of `drainAll`. -/
def drainStep (acc : List Nat × EventQueue K T) (key : K) : List Nat × EventQueue K T :=
  match acc.2.waitForIdle key with
  | (none, q') => (acc.1, q')
  | (some w, q') => (acc.1 ++ [w], q')

/-- What the rounds over a list of keys have made of the promises. -/
structure Drains (acc acc' : List Nat × EventQueue K T) (keys : List K) : Prop where
  waiting : Waiting acc'.2
  resolved : acc'.2.resolved = acc.2.resolved
  queues : acc'.2.queues = acc.2.queues
  waited : ∀ w ∈ acc.1, w ∈ acc'.1
  waiters : ∀ key, ∀ w ∈ waitersOf acc.2 key, w ∈ waitersOf acc'.2 key
  covered : ∀ key ∈ keys, acc.2.isIdle key = false → ∃ w ∈ acc'.1, w ∈ waitersOf acc'.2 key

theorem drains_step {acc : List Nat × EventQueue K T} (h : Waiting acc.2) (key : K) :
    Drains acc (drainStep acc key) [key] := by
  cases hidle : acc.2.isIdle key with
  | true =>
      rw [drainStep, waitForIdle_of_idle hidle]
      refine ⟨h, rfl, rfl, fun _ hw => hw, fun _ _ hw => hw, ?_⟩
      intro j hj hbusy
      rw [List.mem_singleton.mp hj, hidle] at hbusy
      cases hbusy
  | false =>
      rw [drainStep, waitForIdle_of_not_idle hidle]
      refine ⟨waiting_promised h key, rfl, rfl, fun _ hw => List.mem_append_left _ hw,
        fun _ _ hw => mem_waitersOf_promised.mpr (.inl hw), ?_⟩
      intro j hj _
      exact ⟨acc.2.nextWaiter, List.mem_append_right _ List.mem_cons_self,
        mem_waitersOf_promised.mpr (.inr ⟨List.mem_singleton.mp hj, rfl⟩)⟩

theorem drains_foldl (acc : List Nat × EventQueue K T) (h : Waiting acc.2) (keys : List K) :
    Drains acc (keys.foldl drainStep acc) keys := by
  induction keys generalizing acc with
  | nil => exact ⟨h, rfl, rfl, fun _ hw => hw, fun _ _ hw => hw, fun _ hk => nomatch hk⟩
  | cons key keys ih =>
      have hstep := drains_step h key
      have hrest := ih _ hstep.waiting
      refine ⟨hrest.waiting, hrest.resolved.trans hstep.resolved,
        hrest.queues.trans hstep.queues, fun w hw => hrest.waited w (hstep.waited w hw),
        fun j w hw => hrest.waiters j w (hstep.waiters j w hw), ?_⟩
      intro j hj hbusy
      rcases List.mem_cons.mp hj with rfl | hj
      · obtain ⟨w, hw, hwaits⟩ := hstep.covered j List.mem_cons_self hbusy
        exact ⟨w, hrest.waited w hw, hrest.waiters j w hwaits⟩
      · apply hrest.covered j hj
        rwa [isIdle, hstep.queues]

/-- `drainAll` waits for a promise of every key that is not idle. -/
theorem drainAll_covers {q : EventQueue K T} (h : Waiting q) {key : K}
    (hbusy : q.isIdle key = false) : ∃ w ∈ q.drainAll.1, w ∈ waitersOf q.drainAll.2 key := by
  have hdrains : Drains ([], q) q.drainAll q.queues.keys := drains_foldl ([], q) h _
  apply hdrains.covered key ?_ hbusy
  by_contra hnone
  rw [isIdle, (OrderedMap.get?_eq_none_iff q.queues key).mpr hnone] at hbusy
  cases hbusy

/-! ### Every step, for the promises and the history -/

theorem waiting_step {q : EventQueue K T} (h : Waiting q) (a : Action K T) :
    Waiting (step q a) := by
  cases a with
  | enqueue key item => exact (sameWaiters_enqueue q key item).waiting h
  | settle i ok => exact (sameWaiters_settle q i ok).waiting h
  | resume i =>
      rcases resume_cases q i with hq | ⟨w, _, _, hq⟩
      · rw [step, hq]
        exact h
      · rw [step, hq]
        exact waiting_proceed (q := { q with workers := q.workers.remove i })
          ⟨h.lt_next, h.unresolved, h.resolved_lt, h.one_key⟩ w.key
  | waitForIdle key =>
      cases hidle : q.isIdle key with
      | true =>
          rw [step, waitForIdle_of_idle hidle]
          exact h
      | false =>
          rw [step, waitForIdle_of_not_idle hidle]
          exact waiting_promised h key
  | drainAll => exact (drains_foldl ([], q) h q.queues.keys).waiting

theorem initial_of_eq {A : Type*} {l l' : List A} (h : l = l') : l <+: l' := h ▸ List.prefix_rfl

theorem history_runKey (q : EventQueue K T) (key : K) :
    q.history <+: (q.runKey key).history := by
  cases he : q.queues.get? key with
  | none => simp [runKey, he]
  | some e =>
      cases hi : e.items with
      | nil => exact initial_of_eq (by rw [runKey_nil he hi])
      | cons item rest =>
          rw [runKey_cons he hi]
          exact List.prefix_append _ _

theorem history_proceed (q : EventQueue K T) (key : K) :
    q.history <+: (q.proceed key).history := by
  cases he : q.queues.get? key with
  | none => exact initial_of_eq (by rw [proceed_none he])
  | some e =>
      cases hi : e.items with
      | nil => exact initial_of_eq (proceed_nil he hi).2.2.2.2.symm
      | cons item rest =>
          rw [proceed_cons he hi]
          exact history_runKey q key

theorem history_step (q : EventQueue K T) (a : Action K T) : q.history <+: (step q a).history := by
  cases a with
  | enqueue key item =>
      obtain ⟨e, he⟩ := ensureEntry_isSome (q.track key) key
      have happend : q.history <+: (((q.track key).ensureEntry key).append key e item).history := by
        simp [append]
      simp only [step, enqueue, push, he]
      split
      · exact happend
      · exact happend.trans (history_runKey _ key)
  | settle i ok =>
      rcases settle_cases q i ok with hq | ⟨w, _, _, hq⟩
      · exact initial_of_eq (by rw [step, hq])
      · rw [step, hq]
        exact List.prefix_append _ _
  | resume i =>
      rcases resume_cases q i with hq | ⟨w, _, _, hq⟩
      · exact initial_of_eq (by rw [step, hq])
      · rw [step, hq]
        exact history_proceed { q with workers := q.workers.remove i } w.key
  | waitForIdle key => exact initial_of_eq (sameWork_waitForIdle q key).2.2.2.2.symm
  | drainAll => exact initial_of_eq (sameWork_drainAll q).2.2.2.2.symm

theorem enqueuedOf_mono {h h' : List (Obs K T)} (hpre : h <+: h') (key : K) :
    enqueuedOf key h <+: enqueuedOf key h' := hpre.filterMap _

theorem settledOf_mono {h h' : List (Obs K T)} (hpre : h <+: h') (key : K) :
    settledOf key h <+: settledOf key h' := hpre.filterMap _

/-- A promise stays open, or all items of its key have been processed. -/
theorem waits_step {q : EventQueue K T} (h : Sound q) (hw : Waiting q) {a : Action K T}
    (hk : EvictsIdle q a) {key : K} {w : Nat} (hwaits : w ∈ waitersOf q key) :
    w ∈ waitersOf (step q a) key ∨
      settledOf key (step q a).history = enqueuedOf key (step q a).history := by
  cases a with
  | enqueue j item =>
      refine .inl ?_
      rwa [step, (sameWaiters_enqueue q j item).waitersOf_eq]
  | settle i ok =>
      refine .inl ?_
      rwa [step, (sameWaiters_settle q i ok).waitersOf_eq]
  | resume i =>
      rcases resume_cases q i with hq | ⟨v, hv, hs, hq⟩
      · refine .inl ?_
        rwa [step, hq]
      · have hnext := h.step hk
        rw [step, hq] at hnext ⊢
        rcases proceed_waiters { q with workers := q.workers.remove i } v.key with
          hsame | ⟨e, he, hi, hproceed⟩
        · refine .inl ?_
          rw [hsame.waitersOf_eq]
          exact hwaits
        · by_cases hkey : key = v.key
          · -- the worker of the key is gone and nothing is pending
            subst hkey
            refine .inr (hnext.settled_of_not_busy ?_ ?_)
            · intro hbusy
              obtain ⟨k, u, hu, hukey⟩ := hbusy
              rw [(proceed_nil (q := { q with workers := _ }) he hi).2.2.2.1] at hu
              obtain ⟨hne, hu⟩ := Registry.get?_of_get?_remove hu
              exact hne ((h.single v.key).1 k i u v hu hv hukey rfl)
            · rw [pending, (proceed_nil (q := { q with workers := _ }) he hi).1, itemsAt_set,
                if_pos rfl]
              exact hi
          · refine .inl ?_
            rw [hproceed, notify_waitersOf, if_neg hkey]
            exact hwaits
  | waitForIdle j =>
      refine .inl ?_
      cases hidle : q.isIdle j with
      | true => rwa [step, waitForIdle_of_idle hidle]
      | false =>
          rw [step, waitForIdle_of_not_idle hidle]
          exact mem_waitersOf_promised.mpr (.inl hwaits)
  | drainAll =>
      exact .inl ((drains_foldl ([], q) hw q.queues.keys).waiters key w hwaits)

/-! ### The shutdown -/

/-- A queue whose process shuts down: the promises `stop` waits for with the history at its call,
and whether the store is disconnected. -/
structure Shutdown (K T : Type*) where
  queue : EventQueue K T
  stopping : Option (List Nat × List (Obs K T))
  disconnected : Bool

/-- A step of the queue, the `drainAll` of `SyncEngine.stop`, or `store.disconnect`, which is
reached only when all its promises are resolved. -/
inductive ShutdownAction (K T : Type*)
  | queue (a : Action K T)
  | stop
  | disconnect

namespace Shutdown

def new (maxKeys : Nat) : Shutdown K T := ⟨.new maxKeys, none, false⟩

/-- `drainAll` has resolved. -/
def Drained (p : Shutdown K T) (waited : List Nat) : Prop := ∀ w ∈ waited, w ∈ p.queue.resolved

instance (p : Shutdown K T) (waited : List Nat) : Decidable (p.Drained waited) :=
  inferInstanceAs (Decidable (∀ _ ∈ _, _))

def step (p : Shutdown K T) : ShutdownAction K T → Shutdown K T
  | .queue a => { p with queue := Queue.step p.queue a }
  | .stop =>
      match p.stopping with
      | some _ => p
      | none =>
          { p with
            queue := p.queue.drainAll.2
            stopping := some (p.queue.drainAll.1, p.queue.history) }
  | .disconnect =>
      match p.stopping with
      | some (waited, _) => if p.Drained waited then { p with disconnected := true } else p
      | none => p

/-- The items enqueued before the call, key by key, are the first whose processor calls have
settled. -/
def Processed (p : Shutdown K T) (history : List (Obs K T)) : Prop :=
  ∀ key, enqueuedOf key history <+: settledOf key p.queue.history

/-- Once `drainAll` has resolved, and wherever the store is disconnected, those items are
processed. -/
def DrainMeansDrained (p : Shutdown K T) : Prop :=
  (∀ waited history, p.stopping = some (waited, history) → p.Drained waited →
    p.Processed history) ∧
  (p.disconnected = true → ∃ waited history, p.stopping = some (waited, history) ∧
    p.Processed history)

/-- No enqueue evicts a key that is not idle. -/
def ForgetsIdle (p : Shutdown K T) : ShutdownAction K T → Prop
  | .queue a => EvictsIdle p.queue a
  | _ => True

/-- Every key is settled up to the call, or one of the promises is still open for it. -/
def Covered (p : Shutdown K T) (waited : List Nat) (history : List (Obs K T)) : Prop :=
  history <+: p.queue.history ∧ ∀ key,
    (∃ w ∈ waited, w ∈ waitersOf p.queue key) ∨
      enqueuedOf key history <+: settledOf key p.queue.history

structure Stopping (p : Shutdown K T) : Prop where
  sound : Sound p.queue
  waiting : Waiting p.queue
  covered : ∀ waited history, p.stopping = some (waited, history) → p.Covered waited history
  drained : p.disconnected = true → ∃ waited history,
    p.stopping = some (waited, history) ∧ p.Processed history

variable {p : Shutdown K T}

/-- A resolved promise is not open, so its key is settled up to the call. -/
theorem Covered.processed {waited : List Nat} {history : List (Obs K T)}
    (h : p.Covered waited history) (hw : Waiting p.queue) (hdrained : p.Drained waited) :
    p.Processed history := by
  intro key
  rcases h.2 key with ⟨w, hwaited, hopen⟩ | hprocessed
  · exact absurd (hdrained w hwaited) (hw.unresolved key w hopen)
  · exact hprocessed

theorem Stopping.drainMeansDrained (h : p.Stopping) : p.DrainMeansDrained :=
  ⟨fun waited history hstop => (h.covered waited history hstop).processed h.waiting, h.drained⟩

theorem Processed.mono {history : List (Obs K T)} (h : p.Processed history) {q : EventQueue K T}
    (hpre : p.queue.history <+: q.history) :
    ({ p with queue := q } : Shutdown K T).Processed history :=
  fun key => (h key).trans (settledOf_mono hpre key)

theorem Covered.step {waited : List Nat} {history : List (Obs K T)}
    (h : p.Covered waited history) (hs : Sound p.queue) (hw : Waiting p.queue)
    {a : Action K T} (hk : EvictsIdle p.queue a) :
    ({ p with queue := Queue.step p.queue a } : Shutdown K T).Covered waited history := by
  have hpre := history_step p.queue a
  refine ⟨h.1.trans hpre, fun key => ?_⟩
  rcases h.2 key with ⟨w, hwaited, hopen⟩ | hprocessed
  · rcases waits_step hs hw hk hopen with hstill | hsettled
    · exact .inl ⟨w, hwaited, hstill⟩
    · refine .inr ?_
      show _ <+: settledOf key (Queue.step p.queue a).history
      rw [hsettled]
      exact enqueuedOf_mono (h.1.trans hpre) key
  · exact .inr (hprocessed.trans (settledOf_mono hpre key))

theorem covered_drainAll (hs : Sound p.queue) (hw : Waiting p.queue) :
    ({ p with queue := p.queue.drainAll.2 } : Shutdown K T).Covered p.queue.drainAll.1
      p.queue.history := by
  have hsame := sameWork_drainAll p.queue
  refine ⟨hsame.2.2.2.2 ▸ List.prefix_rfl, fun key => ?_⟩
  cases hidle : p.queue.isIdle key with
  | false => exact .inl (drainAll_covers hw hidle)
  | true =>
      have hsettled := hs.settled_of_not_busy (hs.not_busy_of_isIdle hidle)
        (pending_of_isIdle hidle)
      refine .inr (initial_of_eq ?_)
      show _ = settledOf key p.queue.drainAll.2.history
      rw [hsame.2.2.2.2, hsettled]

theorem Stopping.step (h : p.Stopping) {a : ShutdownAction K T} (hk : p.ForgetsIdle a) :
    (p.step a).Stopping := by
  cases a with
  | queue a =>
      refine ⟨h.sound.step hk, waiting_step h.waiting a, ?_, ?_⟩
      · intro waited history hstop
        exact (h.covered waited history hstop).step h.sound h.waiting hk
      · intro hdisconnected
        obtain ⟨waited, history, hstop, hprocessed⟩ := h.drained hdisconnected
        exact ⟨waited, history, hstop, hprocessed.mono (history_step p.queue a)⟩
  | stop =>
      cases hstop : p.stopping with
      | some call =>
          have hsame : p.step .stop = p := by simp only [Shutdown.step, hstop]
          rw [hsame]
          exact h
      | none =>
          simp only [Shutdown.step, hstop]
          refine ⟨h.sound.step (a := .drainAll) trivial, waiting_step h.waiting .drainAll, ?_, ?_⟩
          · rintro waited history ⟨⟩
            exact covered_drainAll h.sound h.waiting
          · intro hdisconnected
            obtain ⟨waited, history, hcall, _⟩ := h.drained hdisconnected
            rw [hstop] at hcall
            cases hcall
  | disconnect =>
      cases hstop : p.stopping with
      | none =>
          have hsame : p.step .disconnect = p := by simp only [Shutdown.step, hstop]
          rw [hsame]
          exact h
      | some call =>
          obtain ⟨waited, history⟩ := call
          simp only [Shutdown.step, hstop]
          split
          next hdrained =>
            have hcovered := h.covered waited history hstop
            refine ⟨h.sound, h.waiting, ?_,
              fun _ => ⟨waited, history, rfl, hcovered.processed h.waiting hdrained⟩⟩
            rintro _ _ ⟨⟩
            exact hcovered
          next => exact h

theorem stopping_new {maxKeys : Nat} (hmax : 1 ≤ maxKeys) :
    (new maxKeys : Shutdown K T).Stopping where
  sound := sound_new hmax
  waiting := waiting_new maxKeys
  covered _ _ hstop := nomatch hstop
  drained hdisconnected := nomatch hdisconnected

/-- In every run whose enqueues evict idle keys only, `drainAll` means drained. -/
theorem drainMeansDrained_throughout (maxKeys : Nat) (hmax : 1 ≤ maxKeys)
    (acts : List (ShutdownAction K T)) (hacts : Along step ForgetsIdle (new maxKeys) acts) :
    Throughout step DrainMeansDrained (new maxKeys : Shutdown K T) acts :=
  throughout_of_along hacts fun _ has =>
    (exec_invariant (I := Stopping) (fun _ _ h hk => h.step hk) (stopping_new hmax)
      has).drainMeansDrained

/-- Two keys are stopped while one has a call under way. -/
theorem drainMeansDrained_two_keys : Throughout step DrainMeansDrained
    (new 2 : Shutdown String Nat)
    [.queue (.enqueue "A" 1), .queue (.enqueue "B" 2), .queue (.settle 0 true),
      .queue (.resume 0), .stop, .disconnect, .queue (.settle 1 true), .queue (.resume 1),
      .disconnect] := by
  apply drainMeansDrained_throughout 2 (by decide)
  refine ⟨?_, ?_, trivial, trivial, trivial, trivial, trivial, trivial, trivial, trivial⟩
  · intro j hev
    cases hev
  · intro j hev
    cases hev

/-- With room for one key, the second key evicts the first, whose call is under way: nothing is
waited for, and the store is disconnected under the call. -/
theorem not_drainMeansDrained_of_eviction : ¬Throughout step DrainMeansDrained
    (new 1 : Shutdown String Nat)
    [.queue (.enqueue "A" 1), .queue (.enqueue "B" 2), .queue (.settle 1 true),
      .queue (.resume 1), .stop, .disconnect] := by
  intro h
  obtain ⟨waited, history, hstop, hprocessed⟩ := h.last.2 (by decide)
  cases hstop
  exact absurd (hprocessed "A") (by decide)

end Shutdown

end HulyGitlab.Queue
