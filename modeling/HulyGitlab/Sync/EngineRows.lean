import HulyGitlab.Sync.EngineSteps

/-!
# Inflight rows and the events they stand for

Row ids are never used twice and rows are never rewritten, so an entry that
carries the id of a row keeps naming the same event. A row is deleted by the
dispatch of its own entry, after the handler has ended or when the event is
dropped, or by the age limits.
-/

namespace HulyGitlab.Engine

open Queue Breaker Transition SyncEngine

variable {R : Type*}

/-- The event a row was written for. -/
def rowKey (id : Nat) (row : InflightDoc R) : Option RemoteKey :=
  match row.op with
  | .remote kind =>
      some ⟨row.bindingId, kind, row.payload.eventId.getD (toString id),
        row.payload.version.getD "0"⟩
  | _ => none

theorem rowKey_inflightRow (id : Nat) (c : Call R) (now : Nat) :
    rowKey id (inflightRow c now) = some c.remoteKey := rfl

/-- Ids only grow, and a row that is there was there before. -/
def Evolves (rows rows' : Registry (InflightDoc R)) : Prop :=
  rows.next ≤ rows'.next ∧
    ∀ id < rows.next, ∀ row, rows'.get? id = some row → rows.get? id = some row

theorem Evolves.refl (rows : Registry (InflightDoc R)) : Evolves rows rows :=
  ⟨Nat.le_refl _, fun _ _ _ h => h⟩

theorem evolves_add (rows : Registry (InflightDoc R)) (row : InflightDoc R) :
    Evolves rows (rows.add row) := by
  refine ⟨Nat.le_succ _, fun id hid row' h => ?_⟩
  rwa [Registry.get?_add, if_neg (Nat.ne_of_lt hid)] at h

theorem evolves_remove (rows : Registry (InflightDoc R)) (id : Nat) :
    Evolves rows (rows.remove id) :=
  ⟨Nat.le_refl _, fun _ _ _ h => (Registry.get?_of_get?_remove h).2⟩

/-- The row an entry points to, if still there, was written for its event. -/
def Tagged (rows : Registry (InflightDoc R)) (entry : QueueEntry R) : Prop :=
  ∀ id, entry.inflightId = some id →
    id < rows.next ∧ ∀ row, rows.get? id = some row → rowKey id row = entry.remoteKey

theorem Tagged.mono {rows rows' : Registry (InflightDoc R)} (h : Evolves rows rows')
    {entry : QueueEntry R} (ht : Tagged rows entry) : Tagged rows' entry := by
  intro id hid
  obtain ⟨hlt, hkey⟩ := ht id hid
  exact ⟨Nat.lt_of_lt_of_le hlt h.1, fun row hrow => hkey row (h.2 id hlt row hrow)⟩

theorem tagged_of_none {rows : Registry (InflightDoc R)} {entry : QueueEntry R}
    (h : entry.inflightId = none) : Tagged rows entry := by
  intro id hid
  cases h.symm.trans hid

variable [Inhabited R] {managers : Managers R}

/-- `start` makes of a row an entry for the event the row was written for. -/
theorem bootEntry_key {id : Nat} {row : InflightDoc R} {resourceKey : String}
    {entry : QueueEntry R} (h : bootEntry managers id row = some (resourceKey, entry)) :
    entry.remoteKey = rowKey id row ∧ entry.inflightId = some id := by
  unfold bootEntry at h
  cases hop : row.op with
  | remote kind =>
      simp only [hop, Option.some.injEq, Prod.mk.injEq] at h
      rw [← h.2]
      simp only [QueueEntry.remoteKey, rowKey, hop, and_self]
  | localChange kind =>
      simp only [hop, Option.some.injEq, Prod.mk.injEq] at h
      rw [← h.2]
      simp only [QueueEntry.remoteKey, rowKey, hop, and_self]
  | other text =>
      simp only [hop] at h
      cases h

/-- A row that `start` makes nothing of was not written for a remote event. -/
theorem rowKey_of_bootEntry_none {id : Nat} {row : InflightDoc R}
    (h : bootEntry managers id row = none) : rowKey id row = none := by
  unfold bootEntry at h
  cases hop : row.op with
  | remote kind =>
      rw [hop] at h
      cases h
  | localChange kind =>
      rw [hop] at h
      cases h
  | other text => simp only [rowKey, hop]

theorem effect_evolves {s s' : SyncEngine R} {a : Action R} (h : Effect managers s a s') :
    Evolves s.inflight s'.inflight := by
  cases h with
  | record => exact evolves_add _ _
  | delete =>
      rename_i d id ok _ _
      cases ok with
      | true => exact evolves_remove _ _
      | false => exact Evolves.refl _
  | expireInflight => exact evolves_remove _ _
  | discard => exact evolves_remove _ _
  | _ => exact Evolves.refl _

/-- The trace is only added to. -/
theorem effect_trace {s s' : SyncEngine R} {a : Action R} (h : Effect managers s a s') :
    s.trace <+: s'.trace := by
  cases h with
  | call | insertNew | push | enqueueLocalEvent | enqueueBackfillKind | load | handleEnd
  | handleRow | requeue => exact List.prefix_append _ _
  | _ => exact List.prefix_rfl

theorem effect_mem_trace {s s' : SyncEngine R} {a : Action R} (h : Effect managers s a s')
    {o : Obs R} (ho : o ∈ s.trace) : o ∈ s'.trace :=
  (effect_trace h).subset ho

/-- Entries, calls and the list of `start` agree with the rows they point to,
and a row is on the way to deletion only for a reason. -/
structure Linked (s : SyncEngine R) : Prop where
  queued : AllItems (fun _ x => Tagged s.inflight x) s.queue
  dispatched : ∀ w d, s.dispatches.get? w = some d → Tagged s.inflight d.entry
  recorded : ∀ i c id, s.calls.get? i = some c → c.stage = .recorded id →
    id < s.inflight.next ∧
      ∀ row, s.inflight.get? id = some row → rowKey id row = some c.remoteKey
  boot : ∀ p ∈ s.boot, p.1 < s.inflight.next ∧
    ∀ row, s.inflight.get? p.1 = some row → row = p.2
  deleting : ∀ w d id, s.dispatches.get? w = some d → d.stage = .deleting id →
    d.entry.inflightId = some id ∧ ∃ ok, .handled d.entry ok ∈ s.trace
  dropping : ∀ w d id, s.dispatches.get? w = some d → d.stage = .dropping id →
    d.entry.inflightId = some id

omit [Inhabited R] in
theorem linked_init : Linked (.init : SyncEngine R) where
  queued := allItems_new _ _
  dispatched := fun _ _ h => nomatch h
  recorded := fun _ _ _ h => nomatch h
  boot := fun _ h => absurd h List.not_mem_nil
  deleting := fun _ _ _ h => nomatch h
  dropping := fun _ _ _ h => nomatch h

theorem effect_queued {s s' : SyncEngine R} {a : Action R} (h : Effect managers s a s')
    (hl : Linked s) : AllItems (fun _ x => Tagged s'.inflight x) s'.queue := by
  have hold : AllItems (fun _ x => Tagged s'.inflight x) s.queue :=
    hl.queued.mono fun _ _ ht => ht.mono (effect_evolves h)
  cases h with
  | push hc hstage =>
      dsimp only
      apply allItems_enqueue hold
      intro id hid
      cases hid
      exact hl.recorded _ _ _ hc hstage
  | enqueueLocalEvent =>
      dsimp only
      exact allItems_enqueue hold (tagged_of_none rfl)
  | enqueueBackfillKind =>
      dsimp only
      exact allItems_enqueue hold (tagged_of_none rfl)
  | beginSkip => exact allItems_settle hold _ _
  | handleEnd => exact allItems_settle hold _ _
  | delete => exact allItems_settle hold _ _
  | resume => exact allItems_resume hold _
  | stop => exact allItems_new _ _
  | requeue hboot hage hrow =>
      obtain ⟨hkey, hid⟩ := bootEntry_key hrow
      dsimp only
      apply allItems_enqueue hold
      intro id' hid'
      cases hid.symm.trans hid'
      obtain ⟨hlt, hsame⟩ := hl.boot _ (hboot ▸ List.mem_cons_self)
      refine ⟨hlt, fun row hrow' => ?_⟩
      rw [hkey, hsame row hrow']
  | _ => exact hold

/-- Where a dispatch of the next state comes from: it was there, it has just
begun, or it has moved on with the same entry. -/
theorem effect_dispatch {s s' : SyncEngine R} {a : Action R} (h : Effect managers s a s')
    {w : Nat} {d : Dispatch R} (hd : s'.dispatches.get? w = some d) :
    s.dispatches.get? w = some d ∨
      (∃ v, s.queue.workers.get? w = some v ∧ v.settled = false ∧ d.entry = v.item ∧
        s'.queue = s.queue ∧
        (d.stage = .loading ∨
          ∃ id, d.stage = .dropping id ∧ d.entry.inflightId = some id ∧
            a = .begin w ∧ Dropped managers s d.entry)) ∨
      ∃ d₀, s.dispatches.get? w = some d₀ ∧ d.entry = d₀.entry ∧ s'.queue = s.queue ∧
        (d.stage = .handling ∨
          ∃ id ok, d.stage = .deleting id ∧ d.entry.inflightId = some id ∧
            .handled d.entry ok ∈ s'.trace) := by
  have hdelete : ∀ worker, (s.dispatches.delete worker).get? w = some d →
      s.dispatches.get? w = some d := by
    intro worker hd
    rw [OrderedMap.get?_delete] at hd
    split at hd
    · cases hd
    · exact hd
  cases h with
  | beginSkip => exact .inl (hdelete _ hd)
  | beginDrop hw _ hs hdrop hid =>
      simp only [OrderedMap.get?_set] at hd
      split at hd
      next heq =>
        cases hd
        subst heq
        exact .inr (.inl ⟨_, hw, hs, rfl, rfl, .inr ⟨_, rfl, hid, rfl, hdrop⟩⟩)
      next => exact .inl hd
  | beginLoad hw _ hs =>
      simp only [OrderedMap.get?_set] at hd
      split at hd
      next heq =>
        cases hd
        subst heq
        exact .inr (.inl ⟨_, hw, hs, rfl, rfl, .inl rfl⟩)
      next => exact .inl hd
  | load hd' =>
      simp only [OrderedMap.get?_set] at hd
      split at hd
      next heq =>
        cases hd
        subst heq
        exact .inr (.inr ⟨_, hd', rfl, rfl, .inl rfl⟩)
      next => exact .inl hd
  | handleEnd => exact .inl (hdelete _ hd)
  | handleRow hd' _ hid =>
      simp only [OrderedMap.get?_set] at hd
      split at hd
      next heq =>
        cases hd
        subst heq
        exact .inr (.inr ⟨_, hd', rfl, rfl, .inr ⟨_, _, rfl, hid,
          List.mem_append_right _ List.mem_cons_self⟩⟩)
      next => exact .inl hd
  | delete => exact .inl (hdelete _ hd)
  | stop => cases hd
  | _ => exact .inl hd

theorem effect_dispatched {s s' : SyncEngine R} {a : Action R} (h : Effect managers s a s')
    (hl : Linked s) (w : Nat) (d : Dispatch R) (hd : s'.dispatches.get? w = some d) :
    Tagged s'.inflight d.entry := by
  apply Tagged.mono (effect_evolves h)
  rcases effect_dispatch h hd with hold | ⟨v, hv, _, hentry, _⟩ | ⟨d₀, hd₀, hentry, _⟩
  · exact hl.dispatched w d hold
  · rw [hentry]
    exact hl.queued.2 w v hv
  · rw [hentry]
    exact hl.dispatched w d₀ hd₀

theorem effect_recorded {s s' : SyncEngine R} {a : Action R} (h : Effect managers s a s')
    (hl : Linked s) (i : Nat) (c : Call R) (id : Nat) (hc : s'.calls.get? i = some c)
    (hstage : c.stage = .recorded id) :
    id < s'.inflight.next ∧
      ∀ row, s'.inflight.get? id = some row → rowKey id row = some c.remoteKey := by
  have hev := effect_evolves h
  have hold : s.calls.get? i = some c → id < s'.inflight.next ∧
      ∀ row, s'.inflight.get? id = some row → rowKey id row = some c.remoteKey := by
    intro hc
    obtain ⟨hlt, hkey⟩ := hl.recorded i c id hc hstage
    exact ⟨Nat.lt_of_lt_of_le hlt hev.1, fun row hrow => hkey row (hev.2 id hlt row hrow)⟩
  cases h with
  | call =>
      rw [Registry.get?_add] at hc
      split at hc
      · cases hc
        cases hstage
      · exact hold hc
  | findDuplicate => exact hold (Registry.get?_of_get?_remove hc).2
  | insertDuplicate => exact hold (Registry.get?_of_get?_remove hc).2
  | push => exact hold (Registry.get?_of_get?_remove hc).2
  | fail => exact hold (Registry.get?_of_get?_remove hc).2
  | findNew hc' =>
      rw [Registry.get?_update hc'] at hc
      split at hc
      · cases hc
        cases hstage
      · exact hold hc
  | insertNew hc' =>
      rw [Registry.get?_update hc'] at hc
      split at hc
      · cases hc
        cases hstage
      · exact hold hc
  | record hc' hs' =>
      rw [Registry.get?_update hc'] at hc
      split at hc
      · cases hc
        cases hstage
        refine ⟨Nat.lt_succ_self _, fun row hrow => ?_⟩
        rw [Registry.get?_add_next] at hrow
        cases hrow
        exact rowKey_inflightRow _ _ _
      · exact hold hc
  | stop => cases hc
  | _ => exact hold hc

theorem effect_boot {s s' : SyncEngine R} {a : Action R} (h : Effect managers s a s')
    (hl : Linked s) : ∀ p ∈ s'.boot, p.1 < s'.inflight.next ∧
      ∀ row, s'.inflight.get? p.1 = some row → row = p.2 := by
  have hev := effect_evolves h
  have hold : ∀ p ∈ s.boot, p.1 < s'.inflight.next ∧
      ∀ row, s'.inflight.get? p.1 = some row → row = p.2 := by
    intro p hp
    obtain ⟨hlt, hsame⟩ := hl.boot p hp
    exact ⟨Nat.lt_of_lt_of_le hlt hev.1, fun row hrow => hsame row (hev.2 _ hlt row hrow)⟩
  intro p hp
  cases h with
  | start =>
      have hget : s.inflight.get? p.1 = some p.2 := OrderedMap.get?_of_mem_entries hp
      refine ⟨Registry.lt_next_of_get? hget, fun row hrow => ?_⟩
      exact Option.some.inj (hrow.symm.trans hget)
  | discard hboot => exact hold p (hboot ▸ List.mem_cons_of_mem _ hp)
  | requeue hboot => exact hold p (hboot ▸ List.mem_cons_of_mem _ hp)
  | stop => cases hp
  | _ => exact hold p hp

theorem effect_deleting {s s' : SyncEngine R} {a : Action R} (h : Effect managers s a s')
    (hl : Linked s) (w : Nat) (d : Dispatch R) (id : Nat)
    (hd : s'.dispatches.get? w = some d) (hstage : d.stage = .deleting id) :
    d.entry.inflightId = some id ∧ ∃ ok, .handled d.entry ok ∈ s'.trace := by
  rcases effect_dispatch h hd with hold | ⟨v, _, _, _, _, hs⟩ | ⟨d₀, _, _, _, hs⟩
  · obtain ⟨hid, ok, hok⟩ := hl.deleting w d id hold hstage
    exact ⟨hid, ok, effect_mem_trace h hok⟩
  · rcases hs with hs | ⟨_, hs, _⟩ <;> cases hstage.symm.trans hs
  · rcases hs with hs | ⟨id', ok, hs, hid, hok⟩
    · cases hstage.symm.trans hs
    · cases hstage.symm.trans hs
      exact ⟨hid, ok, hok⟩

theorem effect_dropping {s s' : SyncEngine R} {a : Action R} (h : Effect managers s a s')
    (hl : Linked s) (w : Nat) (d : Dispatch R) (id : Nat)
    (hd : s'.dispatches.get? w = some d) (hstage : d.stage = .dropping id) :
    d.entry.inflightId = some id := by
  rcases effect_dispatch h hd with hold | ⟨v, _, _, _, _, hs⟩ | ⟨d₀, _, _, _, hs⟩
  · exact hl.dropping w d id hold hstage
  · rcases hs with hs | ⟨id', hs, hid, _⟩
    · cases hstage.symm.trans hs
    · cases hstage.symm.trans hs
      exact hid
  · rcases hs with hs | ⟨id', ok, hs, _⟩ <;> cases hstage.symm.trans hs

theorem linked_step (s : SyncEngine R) (a : Action R) (hl : Linked s) :
    Linked (step managers s a) := by
  rcases step_effect managers s a with h | h
  · rwa [h]
  · exact ⟨effect_queued h hl, effect_dispatched h hl, effect_recorded h hl, effect_boot h hl,
      effect_deleting h hl, effect_dropping h hl⟩

end HulyGitlab.Engine
