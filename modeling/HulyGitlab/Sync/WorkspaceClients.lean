import HulyGitlab.Lib.Registry
import HulyGitlab.Lib.Transition

/-!
# Platform clients of a workspace

`getOrCreateWorkspaceEntry` and `close` of the binding loader for one
workspace, with the subscriber that `index.ts` starts and stops in its hooks.
A step is what runs between two awaits. The result of a connection, of a
later call of a load, and the clock are left open.
-/

namespace HulyGitlab.WorkspaceClients

open Transition

/-- Clients are numbered in the order of their creation. `slot` is the place of the entry in the
iteration order of the map. -/
structure WorkspaceCacheEntry where
  client : Nat
  expiresAt : Nat
  slot : Nat
  deriving DecidableEq

/-- Where a `loadFor*` call stands after it looked at the cache: it waits for the eviction hook,
for the new connection (or for the old client to close first), or it has a client and goes on. -/
inductive LoadStage
  | evicting (client : Nat)
  | connecting
  | holding (client : Nat)
  deriving DecidableEq

/-- `now` of a call is the time at which it looked at the cache. -/
structure Load where
  now : Nat
  stage : LoadStage
  deriving DecidableEq

/-- Where a `close` call stands: it waits for the eviction hook of an entry, or for its client to
close. -/
inductive CloseStage
  | evicting (client slot : Nat)
  | closing (slot : Nat)
  deriving DecidableEq

/-- `BindingLoader` as far as the clients of the workspace go. `subscriber` is the client of the
running `TxSubscriber`; `returned` lists the clients that calls have returned, with whether they
were closed by then. -/
structure BindingLoader where
  cacheTtlMs : Nat
  now : Nat
  workspaceCache : Option WorkspaceCacheEntry
  nextSlot : Nat
  nextClient : Nat
  closed : List Nat
  subscriber : Option Nat
  loads : Registry Load
  closes : Registry CloseStage
  returned : List (Nat × Bool)
  deriving DecidableEq

namespace BindingLoader

def new (cacheTtlMs : Nat) : BindingLoader where
  cacheTtlMs := cacheTtlMs
  now := 0
  workspaceCache := none
  nextSlot := 0
  nextClient := 0
  closed := []
  subscriber := none
  loads := .empty
  closes := .empty
  returned := []

/-- The loaded hook: a running subscriber is kept. -/
def startTxSubscriber (s : BindingLoader) (client : Nat) : BindingLoader :=
  match s.subscriber with
  | some _ => s
  | none => { s with subscriber := some client }

/-- The eviction hook. -/
def stopTxSubscriber (s : BindingLoader) : BindingLoader := { s with subscriber := none }

/-- `client.close()` is called. -/
def closePlatformClient (s : BindingLoader) (client : Nat) : BindingLoader :=
  { s with closed := s.closed ++ [client] }

/-- `getOrCreateWorkspaceEntry` up to its first await. -/
def load (s : BindingLoader) : BindingLoader :=
  match s.workspaceCache with
  | some cached =>
      if s.now < cached.expiresAt then
        { s with loads := s.loads.add ⟨s.now, .holding cached.client⟩ }
      else { s.stopTxSubscriber with loads := s.loads.add ⟨s.now, .evicting cached.client⟩ }
  | none => { s with loads := s.loads.add ⟨s.now, .connecting⟩ }

/-- After the eviction hook: the entry is deleted and the expired client closed. -/
def evict (s : BindingLoader) (i : Nat) : BindingLoader :=
  match s.loads.get? i with
  | some ⟨now, .evicting client⟩ =>
      { ({ s with workspaceCache := none } : BindingLoader).closePlatformClient client with
        loads := s.loads.update i ⟨now, .connecting⟩ }
  | _ => s

/-- The entry made of a new client; an entry that is there keeps its place in the map. -/
def newEntry (s : BindingLoader) (now : Nat) : WorkspaceCacheEntry where
  client := s.nextClient
  expiresAt := now + s.cacheTtlMs
  slot := match s.workspaceCache with
    | some old => old.slot
    | none => s.nextSlot

/-- `createPlatformClient` answers: the new client is cached and the loaded hook is called. A
rejected connection ends the call. -/
def connect (s : BindingLoader) (i : Nat) (ok : Bool) : BindingLoader :=
  match s.loads.get? i with
  | some ⟨now, .connecting⟩ =>
      if ok then
        let s' : BindingLoader := { s with
          workspaceCache := some (s.newEntry now)
          nextSlot := s.nextSlot + 1
          nextClient := s.nextClient + 1
          loads := s.loads.update i ⟨now, .holding s.nextClient⟩ }
        s'.startTxSubscriber s.nextClient
      else { s with loads := s.loads.remove i }
  | _ => s

/-- The call returns its client, or a later await of it rejects. -/
def finish (s : BindingLoader) (i : Nat) (ok : Bool) : BindingLoader :=
  match s.loads.get? i with
  | some ⟨_, .holding client⟩ =>
      { s with
        loads := s.loads.remove i
        returned :=
          if ok then s.returned ++ [(client, decide (client ∈ s.closed))] else s.returned }
  | _ => s

/-- One round of the loop in `close`, up to its await, for an entry at its place or after it; at
the end the cache is cleared. -/
def closeFrom (s : BindingLoader) (place : Nat) (round : CloseStage → Registry CloseStage)
    (last : Registry CloseStage) : BindingLoader :=
  match s.workspaceCache with
  | some entry =>
      if place ≤ entry.slot then
        { s.stopTxSubscriber with closes := round (.evicting entry.client entry.slot) }
      else { s with workspaceCache := none, closes := last }
  | none => { s with workspaceCache := none, closes := last }

def close (s : BindingLoader) : BindingLoader := s.closeFrom 0 s.closes.add s.closes

/-- After the eviction hook of `close`. -/
def closeClient (s : BindingLoader) (k : Nat) : BindingLoader :=
  match s.closes.get? k with
  | some (.evicting client slot) =>
      { s.closePlatformClient client with closes := s.closes.update k (.closing slot) }
  | _ => s

/-- The next round of the loop in `close`. -/
def closeNext (s : BindingLoader) (k : Nat) : BindingLoader :=
  match s.closes.get? k with
  | some (.closing slot) => s.closeFrom (slot + 1) (s.closes.update k) (s.closes.remove k)
  | _ => s

end BindingLoader

inductive Action
  | load
  | evict (load : Nat)
  | connect (load : Nat) (ok : Bool)
  | finish (load : Nat) (ok : Bool)
  | close
  | closeClient (close : Nat)
  | closeNext (close : Nat)
  | tick (ms : Nat)
  deriving DecidableEq

def step (s : BindingLoader) : Action → BindingLoader
  | .load => s.load
  | .evict i => s.evict i
  | .connect i ok => s.connect i ok
  | .finish i ok => s.finish i ok
  | .close => s.close
  | .closeClient k => s.closeClient k
  | .closeNext k => s.closeNext k
  | .tick ms => { s with now := s.now + ms }

/-- A load or a `close` call has called the eviction hook of a client that is still cached. -/
def EvictionUnderWay (s : BindingLoader) (client : Nat) : Prop :=
  (∃ i l, s.loads.get? i = some l ∧ l.stage = .evicting client) ∨
    ∃ k stage, s.closes.get? k = some stage

/-- No client is leaked and no closed one is returned; the subscriber is attached to the cached
client, unless the client is being evicted and the subscriber is stopped. -/
structure NeitherLeakedNorOrphaned (s : BindingLoader) : Prop where
  owned : ∀ client, client < s.nextClient →
    s.workspaceCache.map (·.client) = some client ∨ client ∈ s.closed
  returned : ∀ r ∈ s.returned, r.2 = false
  attached : ∀ entry, s.workspaceCache = some entry →
    s.subscriber = some entry.client ∨ s.subscriber = none ∧ EvictionUnderWay s entry.client

/-- A call looks at the cache only when no other call is replacing its entry and no `close` is
running, and finds the entry expired only when no other call holds the client; `close` starts on
an entry that no call holds or evicts. -/
def Serial (s : BindingLoader) : Action → Prop
  | .load =>
      (∀ i l, s.loads.get? i = some l → ∃ client, l.stage = .holding client) ∧
      (∀ k stage, s.closes.get? k = some stage → False) ∧
      ∀ entry ∈ s.workspaceCache, entry.expiresAt ≤ s.now →
        ∀ i l, s.loads.get? i = some l → l.stage ≠ .holding entry.client
  | .close => ∀ entry ∈ s.workspaceCache, ∀ i l, s.loads.get? i = some l →
      l.stage ≠ .holding entry.client ∧ l.stage ≠ .evicting entry.client
  | _ => True

instance (stage : LoadStage) : Decidable (∃ client, stage = .holding client) :=
  match stage with
  | .evicting _ => isFalse fun ⟨_, h⟩ => nomatch h
  | .connecting => isFalse fun ⟨_, h⟩ => nomatch h
  | .holding client => isTrue ⟨client, rfl⟩

instance (s : BindingLoader) : (a : Action) → Decidable (Serial s a)
  | .load => inferInstanceAs (Decidable ((∀ _ _, _ → _) ∧ (∀ _ _, _ → _) ∧
      ∀ entry ∈ s.workspaceCache, _ → ∀ _ _, _ → _))
  | .close => inferInstanceAs (Decidable (∀ entry ∈ s.workspaceCache, ∀ _ _, _ → _ ∧ _))
  | .evict _ => inferInstanceAs (Decidable True)
  | .connect _ _ => inferInstanceAs (Decidable True)
  | .finish _ _ => inferInstanceAs (Decidable True)
  | .closeClient _ => inferInstanceAs (Decidable True)
  | .closeNext _ => inferInstanceAs (Decidable True)
  | .tick _ => inferInstanceAs (Decidable True)

/-- What a serial loader is doing. -/
inductive Phase (s : BindingLoader) : Prop
  /-- Calls hold the cached client, which the subscriber is attached to. -/
  | serving (entry : WorkspaceCacheEntry) (hcache : s.workspaceCache = some entry)
      (hsub : s.subscriber = some entry.client) (hlive : entry.client ∉ s.closed)
      (hloads : ∀ i l, s.loads.get? i = some l → l.stage = .holding entry.client)
      (hcloses : ∀ k, s.closes.get? k = none)
  /-- One call evicts the cached client. -/
  | evicting (entry : WorkspaceCacheEntry) (i : Nat) (hcache : s.workspaceCache = some entry)
      (hsub : s.subscriber = none) (hevicts : ∃ l, s.loads.get? i = some l)
      (hloads : ∀ j l, s.loads.get? j = some l → j = i ∧ l.stage = .evicting entry.client)
      (hcloses : ∀ k, s.closes.get? k = none)
  /-- Nothing is cached, and at most one call connects. -/
  | away (i : Nat) (hcache : s.workspaceCache = none) (hsub : s.subscriber = none)
      (hloads : ∀ j l, s.loads.get? j = some l → j = i ∧ l.stage = .connecting)
      (hcloses : ∀ k, s.closes.get? k = none)
  /-- `close` calls are running and nothing else. -/
  | closing (k : Nat) (hsub : s.subscriber = none) (hloads : ∀ i, s.loads.get? i = none)
      (hruns : ∃ stage, s.closes.get? k = some stage)
      (hcloses : ∀ entry, s.workspaceCache = some entry → ∀ k stage,
        s.closes.get? k = some stage → stage = .evicting entry.client entry.slot ∨
          stage = .closing entry.slot ∧ entry.client ∈ s.closed)

/-- Clients are numbered below the next one, wherever they are kept. -/
structure Numbered (s : BindingLoader) : Prop where
  closed : ∀ client ∈ s.closed, client < s.nextClient
  cached : ∀ entry, s.workspaceCache = some entry → entry.client < s.nextClient
  evicted : ∀ i l client, s.loads.get? i = some l → l.stage = .evicting client →
    client < s.nextClient
  closing : ∀ k client slot, s.closes.get? k = some (.evicting client slot) →
    client < s.nextClient

structure Orderly (s : BindingLoader) : Prop where
  phase : Phase s
  numbered : Numbered s
  owned : ∀ client, client < s.nextClient →
    s.workspaceCache.map (·.client) = some client ∨ client ∈ s.closed
  returned : ∀ r ∈ s.returned, r.2 = false

theorem Orderly.neither {s : BindingLoader} (h : Orderly s) : NeitherLeakedNorOrphaned s where
  owned := h.owned
  returned := h.returned
  attached entry hentry := by
    cases h.phase with
    | serving e hcache hsub _ _ _ =>
        cases hentry.symm.trans hcache
        exact .inl hsub
    | evicting e i hcache hsub hevicts hloads _ =>
        cases hentry.symm.trans hcache
        obtain ⟨l, hl⟩ := hevicts
        exact .inr ⟨hsub, .inl ⟨i, l, hl, (hloads i l hl).2⟩⟩
    | away i hcache _ _ _ => cases hentry.symm.trans hcache
    | closing k hsub _ hruns _ =>
        obtain ⟨stage, hstage⟩ := hruns
        exact .inr ⟨hsub, .inr ⟨k, stage, hstage⟩⟩

theorem orderly_new (cacheTtlMs : Nat) : Orderly (.new cacheTtlMs) where
  phase := .away 0 rfl rfl (fun _ _ h => nomatch h) fun _ => rfl
  numbered := ⟨fun _ h => (nomatch h), fun _ h => (nomatch h), fun _ _ _ h => (nomatch h),
    fun _ _ _ h => (nomatch h)⟩
  owned _ h := absurd h (Nat.not_lt_zero _)
  returned _ h := nomatch h

section Steps

variable {s : BindingLoader}

theorem Numbered.addLoad (h : Numbered s) (now : Nat) {stage : LoadStage}
    (hstage : ∀ client, stage = .evicting client → client < s.nextClient) :
    Numbered { s with loads := s.loads.add ⟨now, stage⟩ } :=
  ⟨h.closed, h.cached, fun i l client hl => Registry.forall_add
      (P := fun _ l => l.stage = .evicting client → client < s.nextClient) (hstage client)
      (fun j l hl => h.evicted j l client hl) i l hl,
    h.closing⟩

/-- A serial call hits the cached client, or it is the only one. -/
theorem orderly_load (h : Orderly s) (hs : Serial s .load) : Orderly s.load := by
  obtain ⟨hholding, hnocloses, hexpired⟩ := hs
  cases h.phase with
  | serving e hcache hsub hlive hloads hcloses =>
      by_cases hnow : s.now < e.expiresAt
      · have hload : s.load = { s with loads := s.loads.add ⟨s.now, .holding e.client⟩ } := by
          simp only [BindingLoader.load, hcache, if_pos hnow]
        rw [hload]
        exact ⟨.serving e hcache hsub hlive (Registry.forall_add rfl hloads) hcloses,
          h.numbered.addLoad s.now fun _ => LoadStage.noConfusion, h.owned, h.returned⟩
      · have hload : s.load =
            { s.stopTxSubscriber with loads := s.loads.add ⟨s.now, .evicting e.client⟩ } := by
          simp only [BindingLoader.load, hcache, if_neg hnow]
        have hnone : ∀ i l, s.loads.get? i = some l → False := fun i l hl =>
          hexpired e hcache (Nat.not_lt.mp hnow) i l hl (hloads i l hl)
        rw [hload]
        refine ⟨.evicting e s.loads.next hcache rfl ⟨_, Registry.get?_add_next _ _⟩ ?_ hcloses, ?_,
          h.owned, h.returned⟩
        · exact Registry.forall_add ⟨rfl, rfl⟩ fun j l hl => (hnone j l hl).elim
        · refine Numbered.addLoad (s := s.stopTxSubscriber) ?_ s.now fun client hclient => ?_
          · exact ⟨h.numbered.closed, h.numbered.cached, h.numbered.evicted, h.numbered.closing⟩
          · cases hclient
            exact h.numbered.cached e hcache
  | evicting e i hcache hsub hevicts hloads hcloses =>
      obtain ⟨l, hl⟩ := hevicts
      obtain ⟨client, hclient⟩ := hholding i l hl
      rw [(hloads i l hl).2] at hclient
      cases hclient
  | away i hcache hsub hloads hcloses =>
      have hnone : ∀ j l, s.loads.get? j = some l → False := by
        intro j l hl
        obtain ⟨client, hclient⟩ := hholding j l hl
        rw [(hloads j l hl).2] at hclient
        cases hclient
      have hload : s.load = { s with loads := s.loads.add ⟨s.now, .connecting⟩ } := by
        simp only [BindingLoader.load, hcache]
      rw [hload]
      exact ⟨.away s.loads.next hcache hsub
          (Registry.forall_add ⟨rfl, rfl⟩ fun j l hl => (hnone j l hl).elim) hcloses,
        h.numbered.addLoad s.now fun _ => LoadStage.noConfusion, h.owned, h.returned⟩
  | closing k hsub hloads hruns hcloses =>
      obtain ⟨stage, hstage⟩ := hruns
      exact (hnocloses k stage hstage).elim

theorem evict_cases (s : BindingLoader) (i : Nat) :
    s.evict i = s ∨ ∃ now client, s.loads.get? i = some ⟨now, .evicting client⟩ ∧
      s.evict i = { s with
        workspaceCache := none
        closed := s.closed ++ [client]
        loads := s.loads.update i ⟨now, .connecting⟩ } := by
  unfold BindingLoader.evict
  split
  next now client hl => exact .inr ⟨now, client, hl, rfl⟩
  next => exact .inl rfl

theorem orderly_evict (h : Orderly s) (i : Nat) : Orderly (s.evict i) := by
  rcases evict_cases s i with hsame | ⟨now, client, hl, hevict⟩
  · rwa [hsame]
  · rw [hevict]
    cases h.phase with
    | serving e _ _ _ hloads _ => cases hloads i _ hl
    | away j _ _ hloads _ => cases (hloads i _ hl).2
    | closing k _ hloads _ _ => cases (hloads i).symm.trans hl
    | evicting e j hcache hsub hevicts hloads hcloses =>
        obtain ⟨rfl, hstage⟩ := hloads i _ hl
        cases hstage
        refine ⟨.away i rfl hsub ?_ hcloses, ?_, ?_, h.returned⟩
        · exact Registry.forall_update hl ⟨rfl, rfl⟩ fun j l hne hj => absurd (hloads j l hj).1 hne
        · refine ⟨?_, fun _ hnone => (nomatch hnone), ?_, h.numbered.closing⟩
          · intro client hclient
            rcases List.mem_append.mp hclient with hold | hnew
            · exact h.numbered.closed client hold
            · rw [List.mem_singleton.mp hnew]
              exact h.numbered.cached e hcache
          · intro j l client hj
            revert j l
            exact Registry.forall_update hl LoadStage.noConfusion fun j l _ hj =>
              h.numbered.evicted j l client hj
        · intro client hclient
          refine .inr (List.mem_append.mpr ?_)
          rcases h.owned client hclient with hcached | hclosed
          · rw [hcache] at hcached
            exact .inr (List.mem_singleton.mpr (Option.some.inj hcached).symm)
          · exact .inl hclosed

theorem connect_cases (s : BindingLoader) (i : Nat) (ok : Bool) :
    s.connect i ok = s ∨ ∃ now, s.loads.get? i = some ⟨now, .connecting⟩ ∧
      (s.connect i ok = { s with loads := s.loads.remove i } ∨
        s.connect i ok = ({ s with
          workspaceCache := some (s.newEntry now)
          nextSlot := s.nextSlot + 1
          nextClient := s.nextClient + 1
          loads := s.loads.update i ⟨now, .holding s.nextClient⟩ }
          : BindingLoader).startTxSubscriber s.nextClient) := by
  unfold BindingLoader.connect
  split
  next now hl =>
    refine .inr ⟨now, hl, ?_⟩
    cases ok with
    | false => exact .inl rfl
    | true => exact .inr rfl
  next => exact .inl rfl

/-- The client of the only connecting call goes to the empty cache, and the subscriber with it. -/
theorem orderly_connect (h : Orderly s) (i : Nat) (ok : Bool) : Orderly (s.connect i ok) := by
  rcases connect_cases s i ok with hsame | ⟨now, hl, hconnect⟩
  · rwa [hsame]
  · cases h.phase with
    | serving e _ _ _ hloads _ => cases hloads i _ hl
    | evicting e j _ _ _ hloads _ => cases (hloads i _ hl).2
    | closing k _ hloads _ _ => cases (hloads i).symm.trans hl
    | away j hcache hsub hloads hcloses =>
        obtain ⟨rfl, -⟩ := hloads i _ hl
        rcases hconnect with hfailed | hconnected
        · rw [hfailed]
          refine ⟨.away i hcache hsub ?_ hcloses, ?_, h.owned, h.returned⟩
          · exact fun j l hj => hloads j l (Registry.get?_of_get?_remove hj).2
          · exact ⟨h.numbered.closed, h.numbered.cached, fun j l client hj =>
              h.numbered.evicted j l client (Registry.get?_of_get?_remove hj).2,
              h.numbered.closing⟩
        · rw [hconnected, BindingLoader.startTxSubscriber, hsub]
          refine ⟨.serving (s.newEntry now) rfl rfl ?_ ?_ hcloses, ?_, ?_, h.returned⟩
          · exact fun hclosed => Nat.lt_irrefl _ (h.numbered.closed _ hclosed)
          · exact Registry.forall_update hl rfl fun j l hne hj => absurd (hloads j l hj).1 hne
          · refine ⟨fun c hc => Nat.lt_succ_of_lt (h.numbered.closed c hc), ?_, ?_,
              fun k c slot hk => Nat.lt_succ_of_lt (h.numbered.closing k c slot hk)⟩
            · rintro e ⟨⟩
              exact Nat.lt_succ_self _
            · intro j l client hj
              revert j l
              exact Registry.forall_update hl LoadStage.noConfusion fun j l _ hj hstage =>
                Nat.lt_succ_of_lt (h.numbered.evicted j l client hj hstage)
          · intro client hclient
            rcases Nat.lt_succ_iff_lt_or_eq.mp hclient with hold | rfl
            · have howned := h.owned client hold
              rw [hcache] at howned
              exact .inr (howned.resolve_left (by simp))
            · exact .inl rfl

theorem finish_cases (s : BindingLoader) (i : Nat) (ok : Bool) :
    s.finish i ok = s ∨ ∃ now client, s.loads.get? i = some ⟨now, .holding client⟩ ∧
      s.finish i ok = { s with
        loads := s.loads.remove i
        returned :=
          if ok then s.returned ++ [(client, decide (client ∈ s.closed))] else s.returned } := by
  unfold BindingLoader.finish
  split
  next now client hl => exact .inr ⟨now, client, hl, rfl⟩
  next => exact .inl rfl

theorem orderly_finish (h : Orderly s) (i : Nat) (ok : Bool) : Orderly (s.finish i ok) := by
  rcases finish_cases s i ok with hsame | ⟨now, client, hl, hfinish⟩
  · rwa [hsame]
  · rw [hfinish]
    cases h.phase with
    | evicting e j _ _ _ hloads _ => cases (hloads i _ hl).2
    | away j _ _ hloads _ => cases (hloads i _ hl).2
    | closing k _ hloads _ _ => cases (hloads i).symm.trans hl
    | serving e hcache hsub hlive hloads hcloses =>
        have hclient : client = e.client := LoadStage.holding.inj (hloads i _ hl)
        refine ⟨.serving e hcache hsub hlive ?_ hcloses, ?_, h.owned, ?_⟩
        · exact fun j l hj => hloads j l (Registry.get?_of_get?_remove hj).2
        · exact ⟨h.numbered.closed, h.numbered.cached, fun j l c hj =>
            h.numbered.evicted j l c (Registry.get?_of_get?_remove hj).2, h.numbered.closing⟩
        · intro r hr
          cases ok with
          | false => exact h.returned r hr
          | true =>
              rcases List.mem_append.mp hr with hold | hnew
              · exact h.returned r hold
              · rw [List.mem_singleton.mp hnew, hclient]
                exact decide_eq_false hlive

/-- With nothing cached and no load, what is left are `close` calls, or nothing. -/
theorem phase_cleared (hcache : s.workspaceCache = none) (hsub : s.subscriber = none)
    (hloads : ∀ i, s.loads.get? i = none) : Phase s := by
  by_cases hcloses : ∃ k stage, s.closes.get? k = some stage
  · obtain ⟨k, hk⟩ := hcloses
    refine .closing k hsub hloads hk ?_
    intro entry hentry
    cases hcache.symm.trans hentry
  · refine .away 0 hcache hsub (fun j l hl => ?_) fun k => ?_
    · cases (hloads j).symm.trans hl
    · cases hk : s.closes.get? k with
      | none => rfl
      | some stage => exact absurd ⟨k, stage, hk⟩ hcloses

theorem closeFrom_none {place : Nat} {round : CloseStage → Registry CloseStage}
    {last : Registry CloseStage} (hcache : s.workspaceCache = none) :
    s.closeFrom place round last = { s with closes := last } := by
  rw [BindingLoader.closeFrom]
  split
  next entry hentry => cases hcache.symm.trans hentry
  next => rw [← hcache]

theorem closeFrom_visit {place : Nat} {round : CloseStage → Registry CloseStage}
    {last : Registry CloseStage} {entry : WorkspaceCacheEntry}
    (hcache : s.workspaceCache = some entry) (hplace : place ≤ entry.slot) :
    s.closeFrom place round last =
      { s with subscriber := none, closes := round (.evicting entry.client entry.slot) } := by
  simp only [BindingLoader.closeFrom, hcache, if_pos hplace, BindingLoader.stopTxSubscriber]

theorem closeFrom_clear {place : Nat} {round : CloseStage → Registry CloseStage}
    {last : Registry CloseStage} {entry : WorkspaceCacheEntry}
    (hcache : s.workspaceCache = some entry) (hplace : ¬place ≤ entry.slot) :
    s.closeFrom place round last = { s with workspaceCache := none, closes := last } := by
  simp only [BindingLoader.closeFrom, hcache, if_neg hplace]

/-- Another `close` call on the cached entry. -/
theorem orderly_visit (h : Orderly s) {entry : WorkspaceCacheEntry}
    (hcache : s.workspaceCache = some entry) (hloads : ∀ i, s.loads.get? i = none)
    (hcloses : ∀ k stage, s.closes.get? k = some stage →
      stage = .evicting entry.client entry.slot ∨
        stage = .closing entry.slot ∧ entry.client ∈ s.closed) :
    Orderly { s with
      subscriber := none
      closes := s.closes.add (.evicting entry.client entry.slot) } := by
  refine ⟨.closing s.closes.next rfl hloads ⟨_, Registry.get?_add_next _ _⟩ ?_, ?_, h.owned,
    h.returned⟩
  · intro e he k stage hk
    cases hcache.symm.trans he
    exact Registry.forall_add (Or.inl rfl) hcloses k stage hk
  · refine ⟨h.numbered.closed, h.numbered.cached, h.numbered.evicted, ?_⟩
    intro k client slot hk
    have hall : ∀ k stage, (s.closes.add (.evicting entry.client entry.slot)).get? k = some stage →
        stage = .evicting client slot → client < s.nextClient := by
      refine Registry.forall_add (fun hnew => ?_) fun k stage hk hstage => ?_
      · cases hnew
        exact h.numbered.cached entry hcache
      · subst hstage
        exact h.numbered.closing k client slot hk
    exact hall k _ hk rfl

theorem orderly_close (h : Orderly s) (hs : Serial s .close) : Orderly s.close := by
  cases h.phase with
  | serving e hcache hsub hlive hloads hcloses =>
      rw [BindingLoader.close, closeFrom_visit hcache (Nat.zero_le _)]
      apply orderly_visit h hcache
      · intro i
        cases hl : s.loads.get? i with
        | none => rfl
        | some l => exact absurd (hloads i l hl) (hs e hcache i l hl).1
      · intro k stage hk
        cases (hcloses k).symm.trans hk
  | evicting e i hcache hsub hevicts hloads hcloses =>
      obtain ⟨l, hl⟩ := hevicts
      exact absurd (hloads i l hl).2 (hs e hcache i l hl).2
  | away i hcache hsub hloads hcloses =>
      rw [BindingLoader.close, closeFrom_none hcache]
      exact h
  | closing k hsub hloads hruns hcloses =>
      cases hcache : s.workspaceCache with
      | none =>
          rw [BindingLoader.close, closeFrom_none hcache]
          exact h
      | some e =>
          rw [BindingLoader.close, closeFrom_visit hcache (Nat.zero_le _)]
          exact orderly_visit h hcache hloads (hcloses e hcache)

theorem closeClient_cases (s : BindingLoader) (k : Nat) :
    s.closeClient k = s ∨ ∃ client slot, s.closes.get? k = some (.evicting client slot) ∧
      s.closeClient k = { s with
        closed := s.closed ++ [client]
        closes := s.closes.update k (.closing slot) } := by
  unfold BindingLoader.closeClient
  split
  next client slot hk => exact .inr ⟨client, slot, hk, rfl⟩
  next => exact .inl rfl

theorem orderly_closeClient (h : Orderly s) (k : Nat) : Orderly (s.closeClient k) := by
  rcases closeClient_cases s k with hsame | ⟨client, slot, hk, hclose⟩
  · rwa [hsame]
  · rw [hclose]
    cases h.phase with
    | serving e _ _ _ _ hcloses => cases (hcloses k).symm.trans hk
    | evicting e i _ _ _ _ hcloses => cases (hcloses k).symm.trans hk
    | away i _ _ _ hcloses => cases (hcloses k).symm.trans hk
    | closing k' hsub hloads hruns hcloses =>
        have hself : (s.closes.update k (.closing slot)).get? k = some (.closing slot) :=
          (Registry.get?_update hk _ k).trans (if_pos rfl)
        refine ⟨.closing k hsub hloads ⟨_, hself⟩ ?_, ?_, ?_, h.returned⟩
        · intro e he j stage hj
          have hold := hcloses e he
          rw [Registry.get?_update hk] at hj
          split at hj
          · cases hj
            rcases hold k _ hk with hevicting | ⟨hclosing, -⟩
            · cases hevicting
              exact .inr ⟨rfl, List.mem_append_right _ List.mem_cons_self⟩
            · cases hclosing
          · exact (hold j stage hj).imp_right fun hclosing =>
              ⟨hclosing.1, List.mem_append_left _ hclosing.2⟩
        · refine ⟨?_, h.numbered.cached, h.numbered.evicted, ?_⟩
          · intro c hc
            rcases List.mem_append.mp hc with hold | hnew
            · exact h.numbered.closed c hold
            · rw [List.mem_singleton.mp hnew]
              exact h.numbered.closing k client slot hk
          · intro j c slot' hj
            rw [Registry.get?_update hk] at hj
            split at hj
            · cases hj
            · exact h.numbered.closing j c slot' hj
        · exact fun c hc => (h.owned c hc).imp_right fun hclosed =>
            List.mem_append_left _ hclosed

theorem closeNext_cases (s : BindingLoader) (k : Nat) :
    s.closeNext k = s ∨ ∃ slot, s.closes.get? k = some (.closing slot) ∧
      s.closeNext k = s.closeFrom (slot + 1) (s.closes.update k) (s.closes.remove k) := by
  unfold BindingLoader.closeNext
  split
  next slot hk => exact .inr ⟨slot, hk, rfl⟩
  next => exact .inl rfl

/-- The cache is cleared after its client was closed. -/
theorem orderly_closeNext (h : Orderly s) (k : Nat) : Orderly (s.closeNext k) := by
  rcases closeNext_cases s k with hsame | ⟨slot, hk, hnext⟩
  · rwa [hsame]
  · rw [hnext]
    have hremoved : ∀ j c slot', (s.closes.remove k).get? j = some (.evicting c slot') →
        c < s.nextClient := fun j c slot' hj =>
      h.numbered.closing j c slot' (Registry.get?_of_get?_remove hj).2
    cases h.phase with
    | serving e _ _ _ _ hcloses => cases (hcloses k).symm.trans hk
    | evicting e i _ _ _ _ hcloses => cases (hcloses k).symm.trans hk
    | away i _ _ _ hcloses => cases (hcloses k).symm.trans hk
    | closing k' hsub hloads hruns hcloses =>
        cases hcache : s.workspaceCache with
        | none =>
            rw [closeFrom_none hcache]
            exact ⟨phase_cleared hcache hsub hloads,
              ⟨h.numbered.closed, h.numbered.cached, h.numbered.evicted, hremoved⟩, h.owned,
              h.returned⟩
        | some e =>
            rcases hcloses e hcache k _ hk with hevicting | ⟨hclosing, hclosed⟩
            · cases hevicting
            · cases hclosing
              rw [closeFrom_clear hcache (Nat.not_succ_le_self _)]
              refine ⟨phase_cleared rfl hsub hloads,
                ⟨h.numbered.closed, fun _ hnone => (nomatch hnone), h.numbered.evicted,
                  hremoved⟩, ?_, h.returned⟩
              intro client hclient
              rcases h.owned client hclient with hcached | hclosed'
              · rw [hcache] at hcached
                cases hcached
                exact .inr hclosed
              · exact .inr hclosed'

theorem orderly_tick (h : Orderly s) (ms : Nat) : Orderly { s with now := s.now + ms } := by
  refine ⟨?_, ⟨h.numbered.closed, h.numbered.cached, h.numbered.evicted, h.numbered.closing⟩,
    h.owned, h.returned⟩
  cases h.phase with
  | serving e hcache hsub hlive hloads hcloses =>
      exact .serving e hcache hsub hlive hloads hcloses
  | evicting e i hcache hsub hevicts hloads hcloses =>
      exact .evicting e i hcache hsub hevicts hloads hcloses
  | away i hcache hsub hloads hcloses => exact .away i hcache hsub hloads hcloses
  | closing k hsub hloads hruns hcloses => exact .closing k hsub hloads hruns hcloses

theorem orderly_step (h : Orderly s) {a : Action} (hs : Serial s a) : Orderly (step s a) := by
  cases a with
  | load => exact orderly_load h hs
  | evict i => exact orderly_evict h i
  | connect i ok => exact orderly_connect h i ok
  | finish i ok => exact orderly_finish h i ok
  | close => exact orderly_close h hs
  | closeClient k => exact orderly_closeClient h k
  | closeNext k => exact orderly_closeNext h k
  | tick ms => exact orderly_tick h ms

end Steps

/-- In every serial run the clients of the workspace are neither leaked nor orphaned. -/
theorem neither_of_serial (cacheTtlMs : Nat) (acts : List Action)
    (hacts : Along step Serial (.new cacheTtlMs) acts) :
    Throughout step NeitherLeakedNorOrphaned (.new cacheTtlMs) acts :=
  throughout_of_along hacts fun _ has =>
    (exec_invariant (I := Orderly) (fun _ _ h hs => orderly_step h hs) (orderly_new cacheTtlMs)
      has).neither

/-- A first load, a hit, a load after the time to live, and `close`. -/
theorem neither_serial_run : Throughout step NeitherLeakedNorOrphaned (.new 10)
    [.load, .connect 0 true, .finish 0 true, .load, .finish 1 true, .tick 10, .load, .evict 2,
      .connect 2 true, .finish 2 true, .close, .closeClient 0, .closeNext 0] := by
  apply neither_of_serial
  decide

/-- Two loads find the cache empty and both connect. The first client is overwritten without being
closed, and the subscriber stays on it. -/
theorem not_neither_of_two_misses : ¬Throughout step NeitherLeakedNorOrphaned (.new 10)
    [.load, .load, .connect 0 true, .connect 1 true] := by
  intro h
  have howned := h.last.owned 0 (by decide)
  revert howned
  decide

end HulyGitlab.WorkspaceClients
