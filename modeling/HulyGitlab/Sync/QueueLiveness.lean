import HulyGitlab.Sync.QueueDrain
import HulyGitlab.Sync.QueueTracking

/-!
# The event queue below its capacity

While no more keys are used than the tracker has room for, nothing is evicted:
waiting items have the one worker of their key, and a promise is open only
while its key has a worker.
-/

namespace HulyGitlab.Queue

open Transition EventQueue RecentUse

variable {K T : Type*} [DecidableEq K]

/-! ### Nothing is evicted -/

theorem evictedBy_of_room {q : EventQueue K T} {key : K}
    (h : (touch q.lru.order.elems key).length ≤ q.lru.capacity) : q.evictedBy key = none := by
  unfold evictedBy LruTracker.evictOldest
  have hcapacity : (q.lru.touch key).capacity = q.lru.capacity := rfl
  rw [touch_elems, hcapacity, if_pos h]

theorem evictsIdle_of_room {keys : List K} {q : EventQueue K T} (h : Tracks keys q)
    {a : Action K T} (hroom : (keys ++ enqueuedKeys [a]).dedup.length ≤ q.lru.capacity) :
    EvictsIdle q a := by
  cases a with
  | enqueue key item =>
    intro j hj
    rw [evictedBy_of_room (h.order ▸ length_touch_recent_le hroom)] at hj
    cases hj
  | _ => trivial

/-- More uses name no fewer keys. -/
theorem dedup_length_mono {xs ys : List K} (h : xs ⊆ ys) : xs.dedup.length ≤ ys.dedup.length :=
  (List.subperm_of_subset xs.nodup_dedup fun _ hk =>
    List.mem_dedup.mpr (h (List.mem_dedup.mp hk))).length_le

theorem evictsIdle_run {keys : List K} {q : EventQueue K T} (h : Tracks keys q)
    {acts : List (Action K T)}
    (hroom : (keys ++ enqueuedKeys acts).dedup.length ≤ q.lru.capacity) :
    Along step EvictsIdle q acts := by
  induction acts generalizing keys q with
  | nil => trivial
  | cons a acts ih =>
    rw [enqueuedKeys_cons] at hroom
    refine ⟨evictsIdle_of_room h ?_, ih (tracks_step h a) ?_⟩
    · exact (dedup_length_mono (List.subset_append_left _ _)).trans hroom
    · rwa [capacity_step]

/-! ### Promises have a worker -/

/-- A key with an open promise has a worker. -/
def Attended (q : EventQueue K T) : Prop := ∀ key, waitersOf q key ≠ [] → Busy q key

theorem busy_of_not_idle {q : EventQueue K T} {key : K} (h : LiveAt q key)
    (hidle : q.isIdle key = false) : Busy q key := by
  rw [isIdle] at hidle
  cases he : q.queues.get? key with
  | none =>
    rw [he] at hidle
    cases hidle
  | some e =>
    obtain ⟨hitems, hprocessing⟩ := h e he
    apply hprocessing
    by_contra hp
    rw [he] at hidle
    by_cases hi : e.items = []
    · simp [hp, hi] at hidle
    · exact hp (hitems hi)

omit [DecidableEq K] in
theorem busy_congr {q r : EventQueue K T} (h : r.workers = q.workers) {key : K}
    (hbusy : Busy q key) : Busy r key := by
  unfold Busy
  rwa [h]

theorem busy_enqueue {q : EventQueue K T} {j : K} (h : Busy q j) (key : K) (item : T) :
    Busy (q.enqueue key item) j := by
  obtain ⟨i, w, hw, hkey⟩ := h
  exact ⟨i, w, enqueue_keeps_worker hw key item, hkey⟩

omit [DecidableEq K] in
theorem busy_settle {q : EventQueue K T} {j : K} (h : Busy q j) (i : Nat) (ok : Bool) :
    Busy (q.settle i ok) j := by
  rcases settle_cases q i ok with hq | ⟨v, hv, _, hq⟩
  · rwa [hq]
  · obtain ⟨k, w, hw, hkey⟩ := h
    rw [hq]
    by_cases hk : k = i
    · subst hk
      cases hw.symm.trans hv
      exact ⟨k, _, (Registry.get?_update hv _ k).trans (if_pos rfl), hkey⟩
    · exact ⟨k, w, (Registry.get?_update hv _ k).trans ((if_neg hk).trans hw), hkey⟩

/-- A worker goes on with the next item of its key, or resolves the promises of the key. -/
theorem attended_resume {q : EventQueue K T} (hsound : Sound q) (h : Attended q) (i : Nat) :
    Attended (q.resume i) := by
  rcases resume_cases q i with hq | ⟨w, hw, _, hq⟩
  · rwa [hq]
  · rw [hq]
    obtain ⟨e, he⟩ := Option.ne_none_iff_exists'.mp (hsound.tracked w.key ⟨i, w, hw, rfl⟩)
    have hother : ∀ key, key ≠ w.key → Busy q key →
        Busy ({ q with workers := q.workers.remove i } : EventQueue K T) key := by
      rintro key hne ⟨k, v, hv, hkey⟩
      refine ⟨k, v, (Registry.get?_remove_of_ne _ ?_).trans hv, hkey⟩
      rintro rfl
      cases hw.symm.trans hv
      exact hne hkey.symm
    intro key hwaiters
    cases hi : e.items with
    | nil =>
      have hproceed := proceed_nil (q := { q with workers := q.workers.remove i }) he hi
      apply busy_congr hproceed.2.2.2.1
      rw [proceed, he] at hwaiters
      simp only [hi, notify_waitersOf] at hwaiters
      split at hwaiters
      · exact absurd rfl hwaiters
      next hne => exact hother key hne (h key hwaiters)
    | cons item rest =>
      rw [proceed_cons (q := { q with workers := q.workers.remove i }) he hi] at hwaiters ⊢
      rw [(sameWaiters_runKey _ w.key).waitersOf_eq] at hwaiters
      by_cases hkey : key = w.key
      · rw [runKey_cons (q := { q with workers := q.workers.remove i }) he hi, hkey]
        exact ⟨_, _, Registry.get?_add_next _ _, rfl⟩
      · exact busy_runKey (hother key hkey (h key hwaiters)) w.key

theorem attended_promised {q : EventQueue K T} (hlive : ∀ j, LiveAt q j) (h : Attended q)
    {key : K} (hidle : q.isIdle key = false) : Attended (promised q key) := by
  intro j hwaiters
  obtain ⟨w, hw⟩ := List.exists_mem_of_ne_nil _ hwaiters
  rcases mem_waitersOf_promised.mp hw with hold | ⟨rfl, _⟩
  · exact h j (List.ne_nil_of_mem hold)
  · exact busy_of_not_idle (hlive j) hidle

theorem attended_waitForIdle {q : EventQueue K T} (hlive : ∀ j, LiveAt q j) (h : Attended q)
    (key : K) : Attended (q.waitForIdle key).2 := by
  cases hidle : q.isIdle key with
  | true => rwa [waitForIdle_of_idle hidle]
  | false =>
    rw [waitForIdle_of_not_idle hidle]
    exact attended_promised hlive h hidle

theorem attended_drainAll {q : EventQueue K T} (hlive : ∀ j, LiveAt q j) (h : Attended q) :
    Attended q.drainAll.2 := by
  have hfold : ∀ (keys : List K) (acc : List Nat × EventQueue K T), (∀ j, LiveAt acc.2 j) →
      Attended acc.2 → Attended (keys.foldl drainStep acc).2 := by
    intro keys
    induction keys with
    | nil => exact fun acc _ hacc => hacc
    | cons key keys ih =>
      intro acc hlive hacc
      have hnext : (drainStep acc key).2 = (acc.2.waitForIdle key).2 := by
        unfold drainStep
        rcases acc.2.waitForIdle key with ⟨_ | w, q'⟩
        · rfl
        · rfl
      apply ih
      · intro j
        rw [hnext]
        exact liveAt_of_sameWork (sameWork_waitForIdle acc.2 key) (hlive j)
      · rw [hnext]
        exact attended_waitForIdle hlive hacc key
  exact hfold q.queues.keys ([], q) hlive h

theorem attended_step {q : EventQueue K T} (hsound : Sound q) (hlive : ∀ j, LiveAt q j)
    (h : Attended q) (a : Action K T) : Attended (step q a) := by
  cases a with
  | enqueue key item =>
    intro j hwaiters
    rw [step, (sameWaiters_enqueue q key item).waitersOf_eq] at hwaiters
    exact busy_enqueue (h j hwaiters) key item
  | settle i ok =>
    intro j hwaiters
    rw [step, (sameWaiters_settle q i ok).waitersOf_eq] at hwaiters
    exact busy_settle (h j hwaiters) i ok
  | resume i => exact attended_resume hsound h i
  | waitForIdle key => exact attended_waitForIdle hlive h key
  | drainAll => exact attended_drainAll hlive h

/-! ### A promise is kept by an idle key -/

/-- A step leaves a promise open, or its key is idle after it. -/
theorem open_or_idle {q : EventQueue K T} (hwaiting : Waiting q) {key : K} {w : Nat}
    (hw : w ∈ waitersOf q key) (a : Action K T) :
    w ∈ waitersOf (step q a) key ∨ (step q a).isIdle key = true := by
  cases a with
  | enqueue j item => exact .inl ((sameWaiters_enqueue q j item).waitersOf_eq key ▸ hw)
  | settle i ok => exact .inl ((sameWaiters_settle q i ok).waitersOf_eq key ▸ hw)
  | resume i =>
    rcases resume_cases q i with hq | ⟨v, hv, _, hq⟩
    · rw [step, hq]
      exact .inl hw
    · rw [step, hq]
      rcases proceed_waiters { q with workers := q.workers.remove i } v.key with
        hsame | ⟨e, he, hi, hproceed⟩
      · exact .inl (hsame.waitersOf_eq key ▸ hw)
      · by_cases hkey : key = v.key
        · refine .inr ((isIdle_iff _ key).mpr fun e' he' => ?_)
          rw [(proceed_nil (q := { q with workers := q.workers.remove i }) he hi).1, hkey,
            OrderedMap.get?_set_self] at he'
          cases he'
          exact ⟨rfl, hi⟩
        · rw [hproceed, notify_waitersOf, if_neg hkey]
          exact .inl hw
  | waitForIdle j =>
    cases hidle : q.isIdle j with
    | true =>
      rw [step, waitForIdle_of_idle hidle]
      exact .inl hw
    | false =>
      rw [step, waitForIdle_of_not_idle hidle]
      exact .inl (mem_waitersOf_promised.mpr (.inl hw))
  | drainAll => exact .inl ((drains_foldl ([], q) hwaiting q.queues.keys).waiters key w hw)

/-- A promise that was open and is resolved has seen its key idle. -/
theorem idle_of_resolved {q : EventQueue K T} (hwaiting : Waiting q) {key : K} {w : Nat}
    (hw : w ∈ waitersOf q key) {acts : List (Action K T)}
    (hresolved : w ∈ (exec step q acts).resolved) :
    ∃ as, as <+: acts ∧ (exec step q as).isIdle key = true := by
  induction acts generalizing q with
  | nil => exact absurd hresolved (hwaiting.unresolved key w hw)
  | cons a acts ih =>
    rcases open_or_idle hwaiting hw a with hopen | hidle
    · obtain ⟨as, hpre, hidle⟩ := ih (waiting_step hwaiting a) hopen hresolved
      exact ⟨a :: as, List.cons_prefix_cons.mpr ⟨rfl, hpre⟩, hidle⟩
    · exact ⟨[a], List.cons_prefix_cons.mpr ⟨rfl, List.nil_prefix⟩, hidle⟩

/-! ### Runs below capacity -/

/-- A key with waiting items is being processed, by one worker, and a key with waiters has a
worker: none is left when the worker of a key stops. -/
structure Served (q : EventQueue K T) : Prop where
  processing : ∀ key e, q.queues.get? key = some e → e.items ≠ [] → e.processing = true
  worker : ∀ key, q.pending key ≠ [] → ∃! i, ∃ w, q.workers.get? i = some w ∧ w.key = key
  waiters : ∀ key, ¬Busy q key → waitersOf q key = []

/-- A call of `waitForIdle` in a run returns at once from an idle key, or its promise is resolved
only when the key has been idle since. -/
def KeepsPromises (q : EventQueue K T) (acts : List (Action K T)) : Prop :=
  ∀ as bs key, acts = as ++ .waitForIdle key :: bs →
    match ((exec step q as).waitForIdle key).1 with
    | none => (exec step q as).isIdle key = true
    | some w => w ∈ (exec step q acts).resolved →
        ∃ cs, cs <+: bs ∧ (exec step q (as ++ .waitForIdle key :: cs)).isIdle key = true

theorem keepsPromises (maxKeys : Nat) (acts : List (Action K T)) :
    KeepsPromises (.new maxKeys) acts := by
  rintro as bs key rfl
  have hwaiting : Waiting (exec step (.new maxKeys : EventQueue K T) as) :=
    exec_invariant' (I := Waiting) (fun q a hq => waiting_step hq a) (waiting_new maxKeys) as
  cases hidle : (exec step (.new maxKeys : EventQueue K T) as).isIdle key with
  | true =>
    rw [waitForIdle_of_idle hidle]
  | false =>
    rw [waitForIdle_of_not_idle hidle]
    intro hresolved
    have hopen : (exec step (.new maxKeys : EventQueue K T) as).nextWaiter ∈
        waitersOf (promised (exec step (.new maxKeys) as) key) key :=
      mem_waitersOf_promised.mpr (.inr ⟨rfl, rfl⟩)
    have hnext : step (exec step (.new maxKeys : EventQueue K T) as) (.waitForIdle key) =
        promised (exec step (.new maxKeys) as) key := by
      rw [step, waitForIdle_of_not_idle hidle]
    rw [exec_append, exec_cons, hnext] at hresolved
    obtain ⟨cs, hpre, hseen⟩ := idle_of_resolved (waiting_promised hwaiting key) hopen hresolved
    refine ⟨cs, hpre, ?_⟩
    rwa [exec_append, exec_cons, hnext]

theorem served_of_sound {q : EventQueue K T} (hsound : Sound q) (hlive : ∀ j, LiveAt q j)
    (h : Attended q) : Served q where
  processing key e he := (hlive key e he).1
  worker key hpending := by
    unfold pending itemsAt at hpending
    cases he : q.queues.get? key with
    | none =>
      rw [he] at hpending
      exact absurd rfl hpending
    | some e =>
      rw [he] at hpending
      obtain ⟨i, w, hw, hkey⟩ := (hlive key e he).2 ((hlive key e he).1 hpending)
      refine ⟨i, ⟨w, hw, hkey⟩, ?_⟩
      rintro j ⟨v, hv, hvkey⟩
      exact (hsound.single key).1 j i v w hv hw hvkey hkey
  waiters key hbusy := by
    by_contra hwaiters
    exact hbusy (h key hwaiters)

/-- Below capacity the queue strands neither work nor waiters. -/
theorem served_below_capacity (maxKeys : Nat) (hmax : 1 ≤ maxKeys) (acts : List (Action K T))
    (hroom : (enqueuedKeys acts).dedup.length ≤ maxKeys) :
    Throughout step Served (.new maxKeys) acts ∧ KeepsPromises (.new maxKeys) acts := by
  refine ⟨?_, keepsPromises maxKeys acts⟩
  have hidle : Along step EvictsIdle (.new maxKeys : EventQueue K T) acts :=
    evictsIdle_run (tracks_new hmax) hroom
  refine throughout_of_along hidle fun as has => ?_
  obtain ⟨hsound, hlive, hattended⟩ := exec_invariant
    (I := fun q : EventQueue K T => Sound q ∧ (∀ j, LiveAt q j) ∧ Attended q)
    (fun q a h hk => ⟨h.1.step hk, liveAt_step q a h.2.1, attended_step h.1 h.2.1 h.2.2 a⟩)
    ⟨sound_new hmax, liveAt_new maxKeys, fun _ hwaiters => absurd rfl hwaiters⟩ has
  exact served_of_sound hsound hlive hattended

/-- Two keys in a queue for two, with a promise for the one whose first item fails. -/
theorem served_twoKeys :
    Throughout step Served (.new 2) [.enqueue "A" 1, .enqueue "A" 2, .waitForIdle "A",
        .enqueue "B" 3, .settle 0 false, .resume 0, .settle 2 true, .resume 2] ∧
      KeepsPromises (.new 2) [.enqueue "A" 1, .enqueue "A" 2, .waitForIdle "A",
        .enqueue "B" 3, .settle 0 false, .resume 0, .settle 2 true, .resume 2] :=
  served_below_capacity 2 (by decide) [.enqueue "A" 1, .enqueue "A" 2, .waitForIdle "A",
    .enqueue "B" 3, .settle 0 false, .resume 0, .settle 2 true, .resume 2] (by decide)

end HulyGitlab.Queue
