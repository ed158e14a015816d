import HulyGitlab.Sync.QueueConservation

/-!
# Exclusion and order in the event queue

The workers of one key are counted. `proceed` looks the entry of its key up
again, so an entry made anew under a running worker is what lets two calls
of one key overlap.
-/

namespace HulyGitlab.Queue

open Transition EventQueue

variable {K T : Type*} [DecidableEq K]

/-! ### One worker per key -/

/-- At most one `runKey` call of the key, and its entry knows of it. -/
def SingleAt (q : EventQueue K T) (key : K) : Prop :=
  (∀ i j w v, q.workers.get? i = some w → q.workers.get? j = some v →
    w.key = key → v.key = key → i = j) ∧
    ∀ e, q.queues.get? key = some e → Busy q key → e.processing = true

theorem singleAt_of_sameWork {q r : EventQueue K T} (hs : SameWork q r) {key : K}
    (h : SingleAt q key) : SingleAt r key := by
  simpa only [SingleAt, Busy, hs.1, hs.2.2.2.1] using h

/-- A key without a worker may start one. -/
theorem singleAt_runKey_self {q : EventQueue K T} {key : K} (h : ¬Busy q key) :
    SingleAt (q.runKey key) key := by
  have hidle : SingleAt q key := by
    constructor
    · intro i j w v hw _ hkey _
      exact absurd ⟨i, w, hw, hkey⟩ h
    · exact fun _ _ hb => absurd hb h
  cases he : q.queues.get? key with
  | none => simpa only [runKey, he] using hidle
  | some e =>
      cases hi : e.items with
      | nil =>
          rw [runKey_nil he hi]
          exact ⟨hidle.1, fun _ _ hb => absurd hb h⟩
      | cons item rest =>
          rw [runKey_cons he hi]
          have hnew : ∀ i w, (q.workers.add ⟨key, item, false⟩).get? i = some w →
              w.key = key → i = q.workers.next := by
            intro i w hw hkey
            by_contra hne
            rw [Registry.get?_add, if_neg hne] at hw
            exact h ⟨i, w, hw, hkey⟩
          constructor
          · intro i j w v hw hv hwk hvk
            exact (hnew i w hw hwk).trans (hnew j v hv hvk).symm
          · intro e' he' _
            simp only [OrderedMap.get?_set_self, Option.some.injEq] at he'
            rw [← he']

/-- Workers of a key other than the one `runKey` is called for are the old ones. -/
theorem runKey_worker_of_ne {q : EventQueue K T} {key j : K} (h : j ≠ key) {i : Nat}
    {w : Worker K T} (hw : (q.runKey key).workers.get? i = some w) (hkey : w.key = j) :
    q.workers.get? i = some w := by
  cases he : q.queues.get? key with
  | none => simpa only [runKey, he] using hw
  | some e =>
      cases hi : e.items with
      | nil =>
          rw [runKey_nil he hi] at hw
          exact hw
      | cons item rest =>
          rw [runKey_cons he hi, Registry.get?_add] at hw
          split at hw
          · cases hw
            exact absurd hkey.symm h
          · exact hw

theorem singleAt_runKey_of_ne {q : EventQueue K T} {key j : K} (h : j ≠ key)
    (hs : SingleAt q j) : SingleAt (q.runKey key) j := by
  constructor
  · intro i i' w v hw hv hwk hvk
    exact hs.1 i i' w v (runKey_worker_of_ne h hw hwk) (runKey_worker_of_ne h hv hvk) hwk hvk
  · intro e he hb
    obtain ⟨i, w, hw, hkey⟩ := hb
    rw [runKey_get?_of_ne q h] at he
    exact hs.2 e he ⟨i, w, runKey_worker_of_ne h hw hkey, hkey⟩

theorem evictedBy_ne {q : EventQueue K T} (h : 1 ≤ q.lru.capacity) (key : K) :
    q.evictedBy key ≠ some key := by
  intro hev
  simp only [evictedBy, LruTracker.evictOldest, LruTracker.touch,
    OrderedSet.elems_add_delete_self] at hev
  split at hev
  · cases hev
  next hlen =>
    cases ho : q.lru.order.elems.erase key with
    | nil =>
        rw [ho] at hlen
        simp only [List.nil_append, List.length_singleton] at hlen
        omega
    | cons oldest rest =>
        simp only [ho, List.cons_append, Option.some.injEq] at hev
        have hmem : key ∈ q.lru.order.elems.erase key := by
          rw [ho, hev]
          exact List.mem_cons_self
        exact OrderedSet.not_mem_delete_self q.lru.order key hmem

/-- The enqueue does not make a new entry for a key whose worker is still there. -/
def NoReentry (q : EventQueue K T) : Action K T → Prop
  | .enqueue key _ => q.queues.get? key = none → ¬Busy q key
  | _ => True

instance (q : EventQueue K T) : (a : Action K T) → Decidable (NoReentry q a)
  | .enqueue key _ => inferInstanceAs (Decidable (q.queues.get? key = none → ¬Busy q key))
  | .settle _ _ => inferInstanceAs (Decidable True)
  | .resume _ => inferInstanceAs (Decidable True)
  | .waitForIdle _ => inferInstanceAs (Decidable True)
  | .drainAll => inferInstanceAs (Decidable True)

theorem singleAt_new (maxKeys : Nat) (key : K) :
    SingleAt (.new maxKeys : EventQueue K T) key := by
  constructor
  · intro i j w v hw
    cases hw
  · intro e he
    cases he

theorem singleAt_enqueue {q : EventQueue K T} (hcap : 1 ≤ q.lru.capacity)
    (h : ∀ j, SingleAt q j) {key : K} (item : T) (hk : NoReentry q (.enqueue key item))
    (j : K) : SingleAt (q.enqueue key item) j := by
  obtain ⟨e, he⟩ := ensureEntry_isSome (q.track key) key
  have hbusy : ∀ k, Busy (((q.track key).ensureEntry key).append key e item) k ↔ Busy q k := by
    intro k
    rw [busy_append]
    simp only [Busy, ensureEntry_workers, track_workers]
  have hproc : e.processing = true ∨ ¬Busy q key := by
    rcases opened_get? he with hold | ⟨_, _, hnone⟩
    · by_cases hb : Busy q key
      · exact .inl ((h key).2 e hold hb)
      · exact .inr hb
    · rw [track_get?, if_neg (evictedBy_ne hcap key)] at hnone
      exact .inr (hk hnone)
  have happend : (j = key → e.processing = true) →
      SingleAt (((q.track key).ensureEntry key).append key e item) j := by
    intro hp
    constructor
    · simpa only [append, ensureEntry_workers, track_workers] using (h j).1
    · intro e' he' hb
      by_cases hj : j = key
      · subst hj
        have hself : (((q.track j).ensureEntry j).append j e item).queues.get? j =
            some { e with items := e.items ++ [item] } := OrderedMap.get?_set_self _ j _
        cases hself.symm.trans he'
        exact hp rfl
      · rw [append, OrderedMap.get?_set_of_ne _ hj] at he'
        rcases opened_get? he' with hold | ⟨hjk, _, _⟩
        · exact (h j).2 e' hold ((hbusy j).mp hb)
        · exact absurd hjk hj
  simp only [enqueue, push, he]
  cases hp : e.processing with
  | true =>
      rw [if_pos rfl]
      exact happend fun _ => hp
  | false =>
      rw [if_neg Bool.false_ne_true]
      have hfree : ¬Busy q key := hproc.resolve_left fun ht => Bool.false_ne_true (hp.symm.trans ht)
      by_cases hj : j = key
      · subst hj
        exact singleAt_runKey_self fun hb => hfree ((hbusy j).mp hb)
      · exact singleAt_runKey_of_ne hj (happend fun hjk => absurd hjk hj)

theorem singleAt_proceed {q : EventQueue K T} {key : K} (hfree : ¬Busy q key)
    (h : ∀ j, SingleAt q j) (j : K) : SingleAt (q.proceed key) j := by
  have hrun : SingleAt (q.runKey key) j := by
    by_cases hj : j = key
    · subst hj
      exact singleAt_runKey_self hfree
    · exact singleAt_runKey_of_ne hj (h j)
  cases he : q.queues.get? key with
  | none =>
      rw [proceed_none he]
      exact h j
  | some e =>
      cases hi : e.items with
      | nil =>
          apply singleAt_of_sameWork (proceed_nil he hi)
          rw [← runKey_nil he hi]
          exact hrun
      | cons item rest =>
          rw [proceed_cons he hi]
          exact hrun

theorem singleAt_step {q : EventQueue K T} {a : Action K T} (hcap : 1 ≤ q.lru.capacity)
    (h : ∀ j, SingleAt q j) (hk : NoReentry q a) (j : K) : SingleAt (step q a) j := by
  cases a with
  | enqueue key item => exact singleAt_enqueue hcap h item hk j
  | settle i ok =>
      rcases settle_cases q i ok with hq | ⟨w, hw, _, hq⟩
      · rw [step, hq]
        exact h j
      · rw [step, hq]
        -- The settled worker keeps its id and its key.
        have hold : ∀ i' v, (q.workers.update i { w with settled := true }).get? i' = some v →
            ∃ u, q.workers.get? i' = some u ∧ u.key = v.key := by
          intro i' v hv
          rw [Registry.get?_update hw] at hv
          split at hv
          next hi =>
            cases hv
            exact ⟨w, hi ▸ hw, rfl⟩
          next => exact ⟨v, hv, rfl⟩
        constructor
        · intro i₁ i₂ w₁ w₂ h₁ h₂ hk₁ hk₂
          obtain ⟨u₁, hu₁, he₁⟩ := hold i₁ w₁ h₁
          obtain ⟨u₂, hu₂, he₂⟩ := hold i₂ w₂ h₂
          exact (h j).1 i₁ i₂ u₁ u₂ hu₁ hu₂ (he₁.trans hk₁) (he₂.trans hk₂)
        · rintro e he ⟨i', v, hv, hkey⟩
          obtain ⟨u, hu, hukey⟩ := hold i' v hv
          exact (h j).2 e he ⟨i', u, hu, hukey.trans hkey⟩
  | resume i =>
      rcases resume_cases q i with hq | ⟨w, hw, _, hq⟩
      · rw [step, hq]
        exact h j
      · rw [step, hq]
        apply singleAt_proceed
        · rintro ⟨i', v, hv, hkey⟩
          obtain ⟨hne, hv⟩ := Registry.get?_of_get?_remove hv
          exact hne ((h w.key).1 i' i v w hv hw hkey rfl)
        · intro k
          constructor
          · intro i₁ i₂ w₁ w₂ h₁ h₂
            exact (h k).1 i₁ i₂ w₁ w₂ (Registry.get?_of_get?_remove h₁).2
              (Registry.get?_of_get?_remove h₂).2
          · rintro e he ⟨i', v, hv, hkey⟩
            exact (h k).2 e he ⟨i', v, (Registry.get?_of_get?_remove hv).2, hkey⟩
  | waitForIdle key => exact singleAt_of_sameWork (sameWork_waitForIdle q key) (h j)
  | drainAll => exact singleAt_of_sameWork (sameWork_drainAll q) (h j)

/-! ### The capacity is fixed -/

theorem capacity_runKey (q : EventQueue K T) (key : K) :
    (q.runKey key).lru.capacity = q.lru.capacity := by
  cases he : q.queues.get? key with
  | none => simp only [runKey, he]
  | some e =>
      cases hi : e.items with
      | nil => rw [runKey_nil he hi]
      | cons item rest => rw [runKey_cons he hi]

theorem capacity_proceed (q : EventQueue K T) (key : K) :
    (q.proceed key).lru.capacity = q.lru.capacity := by
  cases he : q.queues.get? key with
  | none => rw [proceed_none he]
  | some e =>
      cases hi : e.items with
      | nil => rw [(proceed_nil he hi).2.2.1]
      | cons item rest => rw [proceed_cons he hi, capacity_runKey]

theorem capacity_track (q : EventQueue K T) (key : K) :
    (q.track key).lru.capacity = q.lru.capacity := by
  have hev : ((q.lru.touch key).evictOldest q.activeKeys).2.1.capacity = q.lru.capacity := by
    unfold LruTracker.evictOldest
    split
    · rfl
    · split <;> rfl
  unfold track
  revert hev
  rcases (q.lru.touch key).evictOldest q.activeKeys with ⟨_ | evicted, lru, activeKeys⟩ <;>
    exact fun hev => hev

theorem capacity_step (q : EventQueue K T) (a : Action K T) :
    (step q a).lru.capacity = q.lru.capacity := by
  cases a with
  | enqueue key item =>
      obtain ⟨e, he⟩ := ensureEntry_isSome (q.track key) key
      have hopen : ((q.track key).ensureEntry key).lru.capacity = q.lru.capacity := by
        rw [← capacity_track q key, ensureEntry]
        split <;> rfl
      simp only [step, enqueue, push, he]
      split
      · exact hopen
      · rw [capacity_runKey]
        exact hopen
  | settle i ok =>
      rcases settle_cases q i ok with hq | ⟨w, _, _, hq⟩ <;> rw [step, hq]
  | resume i =>
      rcases resume_cases q i with hq | ⟨w, _, _, hq⟩
      · rw [step, hq]
      · rw [step, hq, capacity_proceed]
  | waitForIdle key => rw [step, (sameWork_waitForIdle q key).2.2.1]
  | drainAll => rw [step, (sameWork_drainAll q).2.2.1]

/-! ### What an operation does to a given worker -/

theorem runKey_keeps_worker {q : EventQueue K T} {i : Nat} {w : Worker K T}
    (hw : q.workers.get? i = some w) (key : K) : (q.runKey key).workers.get? i = some w := by
  cases he : q.queues.get? key with
  | none => simpa only [runKey, he] using hw
  | some e =>
      cases hi : e.items with
      | nil =>
          rw [runKey_nil he hi]
          exact hw
      | cons item rest =>
          rw [runKey_cons he hi]
          exact Registry.get?_add_of_some hw _

theorem enqueue_keeps_worker {q : EventQueue K T} {i : Nat} {w : Worker K T}
    (hw : q.workers.get? i = some w) (key : K) (item : T) :
    (q.enqueue key item).workers.get? i = some w := by
  obtain ⟨e, he⟩ := ensureEntry_isSome (q.track key) key
  have happend : (((q.track key).ensureEntry key).append key e item).workers.get? i = some w := by
    simpa only [append, ensureEntry_workers, track_workers] using hw
  simp only [enqueue, push, he]
  split
  · exact happend
  · exact runKey_keeps_worker happend key

omit [DecidableEq K] in
theorem settle_keeps_worker {q : EventQueue K T} {i j : Nat} {w : Worker K T}
    (hw : q.workers.get? i = some w) (hne : i ≠ j) (ok : Bool) :
    (q.settle j ok).workers.get? i = some w := by
  rcases settle_cases q j ok with hq | ⟨v, hv, _, hq⟩
  · rwa [hq]
  · rw [hq, Registry.get?_update hv, if_neg hne]
    exact hw

theorem proceed_keeps_worker {q : EventQueue K T} {i : Nat} {w : Worker K T}
    (hw : q.workers.get? i = some w) (key : K) : (q.proceed key).workers.get? i = some w := by
  cases he : q.queues.get? key with
  | none => rwa [proceed_none he]
  | some e =>
      cases hi : e.items with
      | nil =>
          rw [(proceed_nil he hi).2.2.2.1]
          exact hw
      | cons item rest =>
          rw [proceed_cons he hi]
          exact runKey_keeps_worker hw key

/-- A worker that still waits for its call is there after any continuation. -/
theorem resume_keeps_worker {q : EventQueue K T} {i : Nat} {w : Worker K T}
    (hw : q.workers.get? i = some w) (hsettled : w.settled = false) (j : Nat) :
    (q.resume j).workers.get? i = some w := by
  rcases resume_cases q j with hq | ⟨v, hv, hs, hq⟩
  · rwa [hq]
  · rw [hq]
    have hne : i ≠ j := by
      rintro rfl
      cases hw.symm.trans hv
      exact Bool.false_ne_true (hsettled.symm.trans hs)
    have hkeep : (q.workers.remove j).get? i = some w := by
      rw [Registry.get?_remove_of_ne _ hne, hw]
    exact proceed_keeps_worker hkeep v.key

/-- An item enqueued under an idle key is handed over at once. -/
theorem enqueue_of_isIdle {q : EventQueue K T} {key : K} (hidle : q.isIdle key = true)
    (item : T) :
    (q.enqueue key item).workers.get? q.workers.next = some ⟨key, item, false⟩ := by
  obtain ⟨e, he⟩ := ensureEntry_isSome (q.track key) key
  have hidle' : e.items = [] ∧ e.processing = false := by
    rcases opened_get? he with hold | ⟨_, rfl, _⟩
    · simpa [isIdle, hold, and_comm] using hidle
    · exact ⟨rfl, rfl⟩
  have hget : (((q.track key).ensureEntry key).append key e item).queues.get? key =
      some { e with items := e.items ++ [item] } := OrderedMap.get?_set_self _ key _
  have hitems : e.items ++ [item] = item :: [] := by rw [hidle'.1, List.nil_append]
  simp only [enqueue, push, he, hidle'.2, Bool.false_eq_true, if_false]
  rw [runKey_cons hget hitems]
  simp only [append, ensureEntry_workers, track_workers]
  exact Registry.get?_add_next _ _

/-- No two processor calls of one key are active, and those of a key were
started in the order in which their items were enqueued. -/
def Exclusive (q : EventQueue K T) : Prop :=
  (∀ i j w v, q.workers.get? i = some w → q.workers.get? j = some v →
    w.settled = false → v.settled = false → w.key = v.key → i = j) ∧
    ∀ key, (startedOf key q.history).Sublist (enqueuedOf key q.history)

/-- Processor calls of a key exclude each other and start in order in every
run in which no enqueue re-creates an evicted key under a running worker. -/
theorem exclusive_of_noReentry (maxKeys : Nat) (hmax : 1 ≤ maxKeys) (acts : List (Action K T))
    (hacts : Along step NoReentry (.new maxKeys) acts) :
    Throughout step Exclusive (.new maxKeys) acts := by
  refine throughout_of_along hacts fun as has => ?_
  have hsingle := exec_invariant_of (I := fun q : EventQueue K T => 1 ≤ q.lru.capacity)
    (J := fun q => ∀ j, SingleAt q j)
    (fun q a hcap => (capacity_step q a).symm ▸ hcap)
    (fun q a hcap hq hk => singleAt_step hcap hq hk) hmax (singleAt_new maxKeys) has
  have hordered : Ordered (exec step (.new maxKeys) as) :=
    exec_invariant' ordered_step (fun _ => List.Sublist.refl _) as
  constructor
  · intro i j w v hw hv _ _ hkey
    exact (hsingle w.key).1 i j w v hw hv rfl hkey.symm
  · intro key
    exact (List.sublist_append_left _ _).trans (hordered key)

/-- Two keys, one of them enqueued again while it is running. -/
theorem exclusive_two_keys : Throughout step Exclusive (.new 2)
    [.enqueue "A" 1, .enqueue "B" 2, .enqueue "A" 3, .settle 0 true, .resume 0] :=
  exclusive_of_noReentry 2 (by decide) _ (by decide)

/-- With room for one key, the second key evicts the first while its worker
runs, and the third enqueue starts a second worker beside it. -/
theorem not_exclusive_of_reentry :
    ¬Throughout step Exclusive (.new 1)
      [.enqueue "A" 1, .enqueue "B" 2, .enqueue "A" 3] := by
  intro h
  have hsame := h.last.1 0 2 ⟨"A", 1, false⟩ ⟨"A", 3, false⟩ (by decide) (by decide) rfl rfl rfl
  cases hsame

end HulyGitlab.Queue
