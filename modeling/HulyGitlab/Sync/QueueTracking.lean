import HulyGitlab.Lib.RecentUse
import HulyGitlab.Sync.QueueExclusion

/-!
# The keys that the event queue tracks

`queues`, `activeKeys` and the LRU order are written in different places. They
hold the same keys after every step: the last ones that were enqueued.
-/

namespace HulyGitlab.Queue

open Transition EventQueue RecentUse

variable {K T : Type*} [DecidableEq K]

/-! ### Operations that track no key -/

/-- Two queues that track the same keys. -/
structure SameKeys (q r : EventQueue K T) : Prop where
  queues : ∀ k, k ∈ r.queues.keys ↔ k ∈ q.queues.keys
  activeKeys : r.activeKeys = q.activeKeys
  lru : r.lru = q.lru

omit [DecidableEq K] in
theorem SameKeys.trans {q r s : EventQueue K T} (h : SameKeys q r) (h' : SameKeys r s) :
    SameKeys q s where
  queues k := (h'.queues k).trans (h.queues k)
  activeKeys := h'.activeKeys.trans h.activeKeys
  lru := h'.lru.trans h.lru

omit [DecidableEq K] in
theorem sameKeys_of_sameWork {q r : EventQueue K T} (h : SameWork q r) : SameKeys q r where
  queues k := by rw [h.1]
  activeKeys := h.2.1
  lru := h.2.2.1

/-- Writing the entry of a tracked key tracks no other key. -/
theorem mem_keys_set_of_get? {m : OrderedMap K (Entry T)} {key : K} {e : Entry T}
    (he : m.get? key = some e) (e' : Entry T) (k : K) : k ∈ (m.set key e').keys ↔ k ∈ m.keys := by
  rw [OrderedMap.mem_keys_set]
  refine ⟨fun h => h.elim (fun heq => ?_) id, .inr⟩
  rw [heq]
  exact OrderedMap.mem_keys_of_get? he

theorem sameKeys_runKey (q : EventQueue K T) (key : K) : SameKeys q (q.runKey key) := by
  cases he : q.queues.get? key with
  | none =>
    simp only [runKey, he]
    exact ⟨fun _ => Iff.rfl, rfl, rfl⟩
  | some e =>
    cases hi : e.items with
    | nil =>
      rw [runKey_nil he hi]
      exact ⟨mem_keys_set_of_get? he _, rfl, rfl⟩
    | cons item rest =>
      rw [runKey_cons he hi]
      exact ⟨mem_keys_set_of_get? he _, rfl, rfl⟩

theorem sameKeys_proceed (q : EventQueue K T) (key : K) : SameKeys q (q.proceed key) := by
  cases he : q.queues.get? key with
  | none =>
    rw [proceed_none he]
    exact ⟨fun _ => Iff.rfl, rfl, rfl⟩
  | some e =>
    cases hi : e.items with
    | nil =>
      have hset : SameKeys q { q with queues := q.queues.set key { e with processing := false } } :=
        ⟨mem_keys_set_of_get? he _, rfl, rfl⟩
      exact hset.trans (sameKeys_of_sameWork (proceed_nil he hi))
    | cons item rest =>
      rw [proceed_cons he hi]
      exact sameKeys_runKey q key

omit [DecidableEq K] in
theorem sameKeys_settle (q : EventQueue K T) (i : Nat) (ok : Bool) :
    SameKeys q (q.settle i ok) := by
  rcases settle_cases q i ok with hq | ⟨w, _, _, hq⟩
  · rw [hq]
    exact ⟨fun _ => Iff.rfl, rfl, rfl⟩
  · rw [hq]
    exact ⟨fun _ => Iff.rfl, rfl, rfl⟩

theorem sameKeys_resume (q : EventQueue K T) (i : Nat) : SameKeys q (q.resume i) := by
  rcases resume_cases q i with hq | ⟨w, _, _, hq⟩
  · rw [hq]
    exact ⟨fun _ => Iff.rfl, rfl, rfl⟩
  · rw [hq]
    have hremoved : SameKeys q { q with workers := q.workers.remove i } :=
      ⟨fun _ => Iff.rfl, rfl, rfl⟩
    exact hremoved.trans (sameKeys_proceed _ w.key)

/-! ### The tracker -/

/-- What the tracker drops goes from its order and from the active keys. -/
theorem evictOldest_spec (lru : LruTracker K) (activeKeys : OrderedSet K) :
    (lru.evictOldest activeKeys).2.1.order.elems = evict lru.capacity lru.order.elems ∧
      (∀ k, k ∈ (lru.evictOldest activeKeys).2.1.order.elems ↔
        (lru.evictOldest activeKeys).1 ≠ some k ∧ k ∈ lru.order.elems) ∧
      ∀ k, k ∈ (lru.evictOldest activeKeys).2.2.elems ↔
        (lru.evictOldest activeKeys).1 ≠ some k ∧ k ∈ activeKeys.elems := by
  unfold LruTracker.evictOldest evict
  split
  · simp
  · cases helems : lru.order.elems with
    | nil => simp [helems]
    | cons oldest rest =>
      refine ⟨?_, fun k => ?_, fun k => ?_⟩
      · simp [OrderedSet.delete, helems]
      · simp only [OrderedSet.mem_delete, helems, ne_eq, Option.some.injEq, eq_comm]
      · simp only [OrderedSet.mem_delete, ne_eq, Option.some.injEq, eq_comm]

theorem touch_elems (lru : LruTracker K) (key : K) :
    (lru.touch key).order.elems = touch lru.order.elems key :=
  OrderedSet.elems_add_delete_self lru.order key

/-! ### An enqueue -/

theorem track_order (q : EventQueue K T) (key : K) :
    (q.track key).lru.order.elems = evict q.lru.capacity (touch q.lru.order.elems key) := by
  have hspec := (evictOldest_spec (q.lru.touch key) q.activeKeys).1
  rw [touch_elems] at hspec
  unfold track
  revert hspec
  rcases (q.lru.touch key).evictOldest q.activeKeys with ⟨_ | evicted, lru, activeKeys⟩
  · exact id
  · exact id

theorem mem_track_order (q : EventQueue K T) (key k : K) :
    k ∈ (q.track key).lru.order.elems ↔
      q.evictedBy key ≠ some k ∧ (k ∈ q.lru.order.elems ∨ k = key) := by
  have hspec := (evictOldest_spec (q.lru.touch key) q.activeKeys).2.1 k
  have htouch : k ∈ touch q.lru.order.elems key ↔ k ∈ q.lru.order.elems ∨ k = key := by
    rw [touch, List.mem_append, List.mem_singleton]
    by_cases hk : k = key
    · simp [hk]
    · simp [List.mem_erase_of_ne hk, hk]
  rw [touch_elems, htouch] at hspec
  unfold track evictedBy
  revert hspec
  rcases (q.lru.touch key).evictOldest q.activeKeys with ⟨_ | evicted, lru, activeKeys⟩
  · exact id
  · exact id

theorem mem_track_activeKeys (q : EventQueue K T) (key k : K) :
    k ∈ (q.track key).activeKeys.elems ↔
      q.evictedBy key ≠ some k ∧ k ∈ q.activeKeys.elems := by
  have hspec := (evictOldest_spec (q.lru.touch key) q.activeKeys).2.2 k
  unfold track evictedBy
  revert hspec
  rcases (q.lru.touch key).evictOldest q.activeKeys with ⟨_ | evicted, lru, activeKeys⟩
  · exact id
  · exact id

theorem mem_track_queues (q : EventQueue K T) (key k : K) :
    k ∈ (q.track key).queues.keys ↔ q.evictedBy key ≠ some k ∧ k ∈ q.queues.keys := by
  rw [← OrderedMap.get?_isSome_iff, ← OrderedMap.get?_isSome_iff, track_get?]
  split
  next h => simp [h]
  next h => simp [h]

theorem ensureEntry_lru (q : EventQueue K T) (key : K) : (q.ensureEntry key).lru = q.lru := by
  unfold ensureEntry
  split
  · rfl
  · rfl

theorem mem_ensureEntry_queues (q : EventQueue K T) (key k : K) :
    k ∈ (q.ensureEntry key).queues.keys ↔ k ∈ q.queues.keys ∨ k = key := by
  unfold ensureEntry
  split
  next h =>
    refine ⟨.inl, fun hk => hk.elim id ?_⟩
    rintro rfl
    exact h
  next h =>
    rw [OrderedMap.mem_keys_set]
    exact or_comm

theorem mem_ensureEntry_activeKeys (q : EventQueue K T) (key k : K) :
    k ∈ (q.ensureEntry key).activeKeys.elems ↔
      k ∈ q.activeKeys.elems ∨ k = key ∧ key ∉ q.queues.keys := by
  unfold ensureEntry
  split
  next h => simp [h]
  next h =>
    rw [OrderedSet.mem_add]
    simp only [h, not_false_eq_true, and_true]
    exact or_comm

/-- Pushing the item tracks no key beyond the one that has an entry. -/
theorem sameKeys_push (q : EventQueue K T) (key : K) (item : T) : SameKeys q (q.push key item) := by
  unfold push
  cases he : q.queues.get? key with
  | none => exact ⟨fun _ => Iff.rfl, rfl, rfl⟩
  | some e =>
    have happend : SameKeys q (q.append key e item) := ⟨mem_keys_set_of_get? he _, rfl, rfl⟩
    dsimp only
    split
    · exact happend
    · exact happend.trans (sameKeys_runKey _ key)

/-! ### Runs -/

/-- The keys of the enqueues of a run, in order. -/
def enqueuedKeys (acts : List (Action K T)) : List K :=
  acts.filterMap fun
    | .enqueue key _ => some key
    | _ => none

omit [DecidableEq K] in
theorem enqueuedKeys_cons (keys : List K) (a : Action K T) (acts : List (Action K T)) :
    keys ++ enqueuedKeys (a :: acts) = (keys ++ enqueuedKeys [a]) ++ enqueuedKeys acts := by
  rw [List.append_assoc, enqueuedKeys, enqueuedKeys, enqueuedKeys, ← List.filterMap_append,
    List.singleton_append]

/-- The three key sets agree within the bound, with the key enqueued last, and the tracker lists
the last keys of the enqueues, each at its last enqueue. -/
structure Aligned (maxKeys : Nat) (keys : List K) (q : EventQueue K T) : Prop where
  queues : ∀ k, k ∈ q.queues.keys ↔ k ∈ q.lru.order.elems
  activeKeys : ∀ k, k ∈ q.activeKeys.elems ↔ k ∈ q.lru.order.elems
  bounded : q.queues.keys.length ≤ maxKeys ∧ q.activeKeys.elems.length ≤ maxKeys ∧
    q.lru.order.elems.length ≤ maxKeys
  last : ∀ k ∈ keys.getLast?, k ∈ q.lru.order.elems
  order : q.lru.order.elems = recent maxKeys keys

/-- The part of it that the steps carry on. -/
structure Tracks (keys : List K) (q : EventQueue K T) : Prop where
  capacity : 1 ≤ q.lru.capacity
  queues : ∀ k, k ∈ q.queues.keys ↔ k ∈ q.lru.order.elems
  activeKeys : ∀ k, k ∈ q.activeKeys.elems ↔ k ∈ q.lru.order.elems
  order : q.lru.order.elems = recent q.lru.capacity keys

theorem Tracks.of_sameKeys {keys : List K} {q r : EventQueue K T} (h : Tracks keys q)
    (hsame : SameKeys q r) : Tracks keys r where
  capacity := hsame.lru ▸ h.capacity
  queues k := by rw [hsame.queues, h.queues, hsame.lru]
  activeKeys k := by rw [hsame.activeKeys, h.activeKeys, hsame.lru]
  order := by rw [hsame.lru, h.order]

/-- The key itself is never the one that an enqueue evicts, so it is in all three sets after it. -/
theorem tracks_enqueue {keys : List K} {q : EventQueue K T} (h : Tracks keys q) (key : K)
    (item : T) : Tracks (keys ++ [key]) (q.enqueue key item) := by
  have hkey : q.evictedBy key ≠ some key := evictedBy_ne h.capacity key
  have hcapacity : ((q.track key).ensureEntry key).lru.capacity = q.lru.capacity := by
    rw [ensureEntry_lru, capacity_track]
  refine Tracks.of_sameKeys (q := (q.track key).ensureEntry key) ⟨?_, fun k => ?_, fun k => ?_, ?_⟩
    (sameKeys_push _ key item)
  · rw [hcapacity]
    exact h.capacity
  · rw [mem_ensureEntry_queues, mem_track_queues, ensureEntry_lru, mem_track_order, h.queues]
    by_cases hk : k = key
    · simp [hk, hkey]
    · simp [hk]
  · rw [mem_ensureEntry_activeKeys, mem_track_activeKeys, ensureEntry_lru, mem_track_order,
      mem_track_queues, h.activeKeys, h.queues]
    by_cases hk : k = key
    · subst hk
      simp only [ne_eq, hkey, not_false_eq_true, true_and, or_true, iff_true]
      exact Decidable.em _
    · simp [hk]
  · rw [ensureEntry_lru, track_order, h.order, evict_touch_recent h.capacity, capacity_track]

theorem tracks_step {keys : List K} {q : EventQueue K T} (h : Tracks keys q) (a : Action K T) :
    Tracks (keys ++ enqueuedKeys [a]) (step q a) := by
  cases a with
  | enqueue key item => exact tracks_enqueue h key item
  | settle i ok =>
    exact (List.append_nil keys).symm ▸ h.of_sameKeys (sameKeys_settle q i ok)
  | resume i =>
    exact (List.append_nil keys).symm ▸ h.of_sameKeys (sameKeys_resume q i)
  | waitForIdle key =>
    exact (List.append_nil keys).symm ▸
      h.of_sameKeys (sameKeys_of_sameWork (sameWork_waitForIdle q key))
  | drainAll =>
    exact (List.append_nil keys).symm ▸ h.of_sameKeys (sameKeys_of_sameWork (sameWork_drainAll q))

theorem tracks_new {maxKeys : Nat} (hmax : 1 ≤ maxKeys) :
    Tracks [] (.new maxKeys : EventQueue K T) where
  capacity := hmax
  queues _ := Iff.rfl
  activeKeys _ := Iff.rfl
  order := (recent_nil maxKeys).symm

/-- A run tracks the keys of its enqueues. -/
theorem tracks_exec {keys : List K} {q : EventQueue K T} (h : Tracks keys q)
    (acts : List (Action K T)) : Tracks (keys ++ enqueuedKeys acts) (exec step q acts) := by
  induction acts generalizing keys q with
  | nil => simpa [enqueuedKeys] using h
  | cons a acts ih =>
    rw [enqueuedKeys_cons]
    exact ih (tracks_step h a)

theorem capacity_exec (q : EventQueue K T) (acts : List (Action K T)) :
    (exec step q acts).lru.capacity = q.lru.capacity :=
  exec_invariant' (I := fun r : EventQueue K T => r.lru.capacity = q.lru.capacity)
    (fun r a hr => (capacity_step r a).trans hr) rfl acts

/-- After every step the key sets of `queues`, `activeKeys` and the LRU order are equal and
bounded, and the order is that of the last enqueues. -/
theorem aligned_exec (maxKeys : Nat) (hmax : 1 ≤ maxKeys) (acts : List (Action K T)) :
    Aligned maxKeys (enqueuedKeys acts) (exec step (.new maxKeys) acts) := by
  have htracks : Tracks (enqueuedKeys acts) (exec step (.new maxKeys) acts) :=
    tracks_exec (tracks_new hmax) acts
  have hcapacity : (exec step (.new maxKeys : EventQueue K T) acts).lru.capacity = maxKeys :=
    capacity_exec _ acts
  have horder := htracks.order
  rw [hcapacity] at horder
  have hlength : ∀ l : List K, l.Nodup →
      (∀ k, k ∈ l ↔ k ∈ (exec step (.new maxKeys : EventQueue K T) acts).lru.order.elems) →
      l.length ≤ maxKeys := by
    intro l hnodup hmem
    have hsub : l.Subperm (recent maxKeys (enqueuedKeys acts)) :=
      List.subperm_of_subset hnodup fun k hk => horder ▸ (hmem k).mp hk
    exact hsub.length_le.trans (length_recent_le _ _)
  refine ⟨htracks.queues, htracks.activeKeys,
    ⟨hlength _ (OrderedMap.nodup_keys _) htracks.queues,
      hlength _ (OrderedSet.nodup _) htracks.activeKeys,
      horder ▸ length_recent_le _ _⟩, fun k hk => ?_, horder⟩
  obtain ⟨earlier, hearlier⟩ := List.getLast?_eq_some_iff.mp hk
  rw [horder, hearlier]
  exact mem_recent_concat hmax earlier k

/-- Three keys where two fit: the first is evicted while it is busy, and comes back. -/
theorem aligned_evictedBusy : Aligned 2 ["A", "B", "C", "A"]
    (exec step (.new 2) [.enqueue "A" 1, .enqueue "B" 2, .enqueue "C" 3, .settle 0 false,
      .enqueue "A" 4, .resume 0]) :=
  aligned_exec 2 (by decide) [.enqueue "A" 1, .enqueue "B" 2, .enqueue "C" 3, .settle 0 false,
    .enqueue "A" 4, .resume 0]

end HulyGitlab.Queue
