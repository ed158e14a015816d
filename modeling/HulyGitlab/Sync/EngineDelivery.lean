import HulyGitlab.Sync.EngineRows

/-!
# Marked events and their redelivery

An event that was marked seen has ended its handler, or its inflight row is
there, or its call is about to write the row, as long as no step drops it.
When in addition every handler succeeds, an event that was never handled is
not marked, and delivering it again calls its handler.
-/

namespace HulyGitlab.Engine

open Queue Breaker Transition SyncEngine

variable {R : Type*}

def Delivered (s : SyncEngine R) (key : RemoteKey) : Prop := .delivered key ∈ s.trace

def Marked (s : SyncEngine R) (key : RemoteKey) : Prop := .marked key ∈ s.trace

/-- A handler of the event has ended, with or without an error. -/
def Handled (s : SyncEngine R) (key : RemoteKey) : Prop :=
  ∃ entry ok, .handled entry ok ∈ s.trace ∧ entry.remoteKey = some key

/-- A handler of the event has ended without an error. -/
def Succeeded (s : SyncEngine R) (key : RemoteKey) : Prop :=
  ∃ entry, .handled entry true ∈ s.trace ∧ entry.remoteKey = some key

def HasRow (s : SyncEngine R) (key : RemoteKey) : Prop :=
  ∃ id row, s.inflight.get? id = some row ∧ rowKey id row = some key

/-- A call has marked the event and has not yet written its inflight row. -/
def Marking (s : SyncEngine R) (key : RemoteKey) : Prop :=
  ∃ i c, s.calls.get? i = some c ∧ c.stage = .marked ∧ c.remoteKey = key

variable [Inhabited R]

/-- The step takes no remote event away: a call that has marked its event is
not cut off, no remote event is dispatched to be dropped, and the age limits
take rows of handled events only. -/
def KeepsRemote (managers : Managers R) (s : SyncEngine R) : Action R → Prop
  | .fail i => ∀ c, s.calls.get? i = some c → c.stage ≠ .marked
  | .stop => ∀ i c, s.calls.get? i = some c → c.stage ≠ .marked
  | .begin worker => ∀ w, s.queue.workers.get? worker = some w → w.settled = false →
      s.dispatches.get? worker = none → w.item.remoteKey ≠ none → ¬Dropped managers s w.item
  | .expireInflight i => ∀ row key, s.inflight.get? i = some row →
      row.startedAt + inflightMaxAgeMs ≤ s.now → rowKey i row = some key → Handled s key
  | .bootStep => ∀ id row rest key, s.boot = (id, row) :: rest → row.startedAt < s.cutoff →
      rowKey id row = some key → Handled s key
  | _ => True

variable {managers : Managers R}

theorem Handled.mono {s s' : SyncEngine R} {a : Action R} (h : Effect managers s a s')
    {key : RemoteKey} (hh : Handled s key) : Handled s' key := by
  obtain ⟨entry, ok, hmem, hkey⟩ := hh
  exact ⟨entry, ok, effect_mem_trace h hmem, hkey⟩

theorem effect_marked {s s' : SyncEngine R} {a : Action R} (h : Effect managers s a s')
    {key : RemoteKey} (hm : Marked s' key) : Marked s key ∨ Marking s' key := by
  have happend : ∀ o : Obs R, o ≠ .marked key → .marked key ∈ s.trace ++ [o] → Marked s key := by
    intro o hne hmem
    rcases List.mem_append.mp hmem with hmem | hmem
    · exact hmem
    · exact absurd (List.mem_singleton.mp hmem).symm hne
  cases h with
  | insertNew hc =>
      rename_i i c _ _
      rcases List.mem_append.mp hm with hm | hm
      · exact .inl hm
      · cases List.mem_singleton.mp hm
        exact .inr ⟨i, { c with stage := .marked }, by rw [Registry.get?_update hc, if_pos rfl],
          rfl, rfl⟩
  | call => exact .inl (happend _ (by intro h; cases h) hm)
  | push => exact .inl (happend _ (by intro h; cases h) hm)
  | enqueueLocalEvent => exact .inl (happend _ (by intro h; cases h) hm)
  | enqueueBackfillKind => exact .inl (happend _ (by intro h; cases h) hm)
  | load => exact .inl (happend _ (by intro h; cases h) hm)
  | handleEnd => exact .inl (happend _ (by intro h; cases h) hm)
  | handleRow => exact .inl (happend _ (by intro h; cases h) hm)
  | requeue => exact .inl (happend _ (by intro h; cases h) hm)
  | _ => exact .inl hm

/-- No remote event is on the way to being dropped. -/
def NoRemoteDrop (s : SyncEngine R) : Prop :=
  ∀ w d id, s.dispatches.get? w = some d → d.stage = .dropping id → d.entry.remoteKey = none

theorem effect_noRemoteDrop {s s' : SyncEngine R} {a : Action R} (h : Effect managers s a s')
    (hd : NoRemoteDrop s) (hk : KeepsRemote managers s a) : NoRemoteDrop s' := by
  intro w d id hget hstage
  rcases effect_dispatch h hget with hold | ⟨v, hv, hs, hentry, _, hst⟩ | ⟨d₀, _, _, _, hst⟩
  · exact hd w d id hold hstage
  · rcases hst with hst | ⟨id', _, _, rfl, hdrop⟩
    · cases hstage.symm.trans hst
    · by_contra hne
      cases hnone : s.dispatches.get? w with
      | none => exact hk v hv hs hnone (hentry ▸ hne) (hentry ▸ hdrop)
      | some d₀ =>
          cases h with
          | beginSkip _ hnone' => cases hnone.symm.trans hnone'
          | beginDrop _ hnone' => cases hnone.symm.trans hnone'
          | beginLoad _ hnone' => cases hnone.symm.trans hnone'
  · rcases hst with hst | ⟨_, _, hst, _⟩ <;> cases hstage.symm.trans hst

/-- A row is there after the step, or its event has been handled. -/
theorem effect_hasRow {s s' : SyncEngine R} {a : Action R} (h : Effect managers s a s')
    (hl : Linked s) (hd : NoRemoteDrop s) (hk : KeepsRemote managers s a) {key : RemoteKey}
    (hrow : HasRow s key) : HasRow s' key ∨ Handled s' key := by
  obtain ⟨id, row, hget, hkey⟩ := hrow
  have hother : ∀ id', id ≠ id' → (s.inflight.remove id').get? id = some row := by
    intro id' hne
    rw [Registry.get?_remove_of_ne _ hne, hget]
  cases h with
  | record => exact .inl ⟨id, row, Registry.get?_add_of_some hget _, hkey⟩
  | delete hdis hstage =>
      rename_i w d id' ok
      by_cases hid : id = id'
      · subst hid
        right
        -- The row belongs to the entry of the dispatch that deletes it.
        have hentry : ∀ hid : d.entry.inflightId = some id, d.entry.remoteKey = some key :=
          fun hid => ((hl.dispatched w d hdis id hid).2 row hget).symm.trans hkey
        rcases hstage with hstage | hstage
        · have hnone := hd w d id hdis hstage
          have hsome := hentry (hl.dropping w d id hdis hstage)
          cases hnone.symm.trans hsome
        · obtain ⟨hid, ok, hok⟩ := hl.deleting w d id hdis hstage
          exact ⟨d.entry, ok, hok, hentry hid⟩
      · refine .inl ⟨id, row, ?_, hkey⟩
        cases ok with
        | true => exact hother id' hid
        | false => exact hget
  | expireInflight hexp hage =>
      rename_i i row'
      by_cases hid : id = i
      · subst hid
        cases hget.symm.trans hexp
        exact .inr (hk row key hget hage hkey)
      · exact .inl ⟨id, row, hother i hid, hkey⟩
  | discard hboot hrow =>
      rename_i id' row' rest
      by_cases hid : id = id'
      · subst hid
        have hsame := (hl.boot _ (hboot ▸ List.mem_cons_self)).2 row hget
        simp only at hsame
        subst hsame
        rcases hrow with hage | hnone
        · exact .inr (hk id row rest key hboot hage hkey)
        · cases hkey.symm.trans (rowKey_of_bootEntry_none hnone)
      · exact .inl ⟨id, row, hother id' hid, hkey⟩
  | _ => exact .inl ⟨id, row, hget, hkey⟩

/-- A call about to write its row is still about to, or has written it. -/
theorem effect_marking {s s' : SyncEngine R} {a : Action R} (h : Effect managers s a s')
    (hk : KeepsRemote managers s a) {key : RemoteKey} (hm : Marking s key) :
    Marking s' key ∨ HasRow s' key := by
  obtain ⟨i, c, hc, hstage, hkey⟩ := hm
  have hremove : ∀ {j c'}, s.calls.get? j = some c' → c'.stage ≠ .marked →
      (s.calls.remove j).get? i = some c := by
    intro j c' hc' hne
    have hij : i ≠ j := by
      rintro rfl
      cases hc.symm.trans hc'
      exact hne hstage
    rw [Registry.get?_remove_of_ne _ hij, hc]
  have hupdate : ∀ {j c'} v, s.calls.get? j = some c' → c'.stage ≠ .marked →
      (s.calls.update j v).get? i = some c := by
    intro j c' v hc' hne
    have hij : i ≠ j := by
      rintro rfl
      cases hc.symm.trans hc'
      exact hne hstage
    rw [Registry.get?_update hc', if_neg hij, hc]
  cases h with
  | call => exact .inl ⟨i, c, Registry.get?_add_of_some hc _, hstage, hkey⟩
  | findDuplicate hc' hs' =>
      exact .inl ⟨i, c, hremove hc' (hs'.symm ▸ nofun), hstage, hkey⟩
  | findNew hc' hs' => exact .inl ⟨i, c, hupdate _ hc' (hs'.symm ▸ nofun), hstage, hkey⟩
  | insertDuplicate hc' hs' =>
      exact .inl ⟨i, c, hremove hc' (hs'.symm ▸ nofun), hstage, hkey⟩
  | insertNew hc' hs' => exact .inl ⟨i, c, hupdate _ hc' (hs'.symm ▸ nofun), hstage, hkey⟩
  | push hc' hs' => exact .inl ⟨i, c, hremove hc' (hs'.symm ▸ nofun), hstage, hkey⟩
  | record hc' hs' =>
      rename_i j c'
      by_cases hij : i = j
      · subst hij
        cases hc.symm.trans hc'
        refine .inr ⟨s.inflight.next, _, Registry.get?_add_next _ _, ?_⟩
        rw [rowKey_inflightRow, hkey]
      · refine .inl ⟨i, c, ?_, hstage, hkey⟩
        rw [Registry.get?_update hc', if_neg hij, hc]
  | fail =>
      rename_i j
      by_cases hij : i = j
      · subst hij
        exact absurd hstage (hk c hc)
      · exact .inl ⟨i, c, by rw [Registry.get?_remove_of_ne _ hij, hc], hstage, hkey⟩
  | stop => exact absurd hstage (hk i c hc)
  | _ => exact .inl ⟨i, c, hc, hstage, hkey⟩

/-- No marked event has been lost. -/
def NotLost (s : SyncEngine R) : Prop :=
  ∀ key, Marked s key → Handled s key ∨ HasRow s key ∨ Marking s key

theorem notLost_step {s : SyncEngine R} {a : Action R} (hl : Linked s)
    (h : NoRemoteDrop s ∧ NotLost s) (hk : KeepsRemote managers s a) :
    NoRemoteDrop (step managers s a) ∧ NotLost (step managers s a) := by
  rcases step_effect managers s a with heq | heff
  · rwa [heq]
  · refine ⟨effect_noRemoteDrop heff h.1 hk, fun key hm => ?_⟩
    rcases effect_marked heff hm with hold | hnew
    · rcases h.2 key hold with hh | hrow | hmk
      · exact .inl (hh.mono heff)
      · rcases effect_hasRow heff hl h.1 hk hrow with hrow | hh
        · exact .inr (.inl hrow)
        · exact .inl hh
      · rcases effect_marking heff hk hmk with hmk | hrow
        · exact .inr (.inr hmk)
        · exact .inr (.inl hrow)
    · exact .inr (.inr hnew)

/-! ### Redelivery -/

/-- Every dispatch under way belongs to a worker that still waits for it. -/
def Working (s : SyncEngine R) : Prop :=
  ∀ w d, s.dispatches.get? w = some d →
    ∃ v, s.queue.workers.get? w = some v ∧ v.item = d.entry ∧ v.settled = false

theorem effect_working {s s' : SyncEngine R} {a : Action R} (h : Effect managers s a s')
    (hw : Working s) : Working s' := by
  intro w d hd
  have hfinish : ∀ worker ok, (s.dispatches.delete worker).get? w = some d →
      ∃ v, (s.queue.settle worker ok).workers.get? w = some v ∧ v.item = d.entry ∧
        v.settled = false := by
    intro worker ok hd
    rw [OrderedMap.get?_delete] at hd
    split at hd
    · cases hd
    next hne =>
      obtain ⟨v, hv, hitem, hs⟩ := hw w d hd
      exact ⟨v, settle_keeps_worker hv hne ok, hitem, hs⟩
  have haccept : ∀ key item, s.dispatches.get? w = some d →
      ∃ v, (s.queue.enqueue key item).workers.get? w = some v ∧ v.item = d.entry ∧
        v.settled = false := by
    intro key item hd
    obtain ⟨v, hv, hitem, hs⟩ := hw w d hd
    exact ⟨v, enqueue_keeps_worker hv key item, hitem, hs⟩
  rcases effect_dispatch h hd with hold | ⟨v, hv, hs, hentry, hq, _⟩ | ⟨d₀, hd₀, hentry, hq, _⟩
  · cases h with
    | beginSkip => exact hfinish _ _ hd
    | handleEnd => exact hfinish _ _ hd
    | delete => exact hfinish _ _ hd
    | push => exact haccept _ _ hold
    | enqueueLocalEvent => exact haccept _ _ hold
    | enqueueBackfillKind => exact haccept _ _ hold
    | requeue => exact haccept _ _ hold
    | resume =>
        obtain ⟨v, hv, hitem, hs⟩ := hw w d hold
        exact ⟨v, resume_keeps_worker hv hs _, hitem, hs⟩
    | stop => cases hd
    | _ => exact hw w d hold
  · exact ⟨v, by rw [hq]; exact hv, hentry.symm, hs⟩
  · obtain ⟨v, hv, hitem, hs⟩ := hw w d₀ hd₀
    exact ⟨v, by rw [hq]; exact hv, hitem.trans hentry.symm, hs⟩

/-- What the dedup rows and the calls know was delivered, and under one kind. -/
structure Known (s : SyncEngine R) : Prop where
  called : ∀ i c, s.calls.get? i = some c → Delivered s c.remoteKey
  marked : ∀ key, Marked s key → Delivered s key
  seen : ∀ i d, s.dedup.get? i = some d →
    ∃ kind, Marked s ⟨d.bindingId, kind, d.eventId, d.version⟩

theorem effect_known {s s' : SyncEngine R} {a : Action R} (h : Effect managers s a s')
    (hn : Known s) : Known s' := by
  have hdel : ∀ key, Delivered s key → Delivered s' key := fun _ hd => effect_mem_trace h hd
  have hcalled : ∀ i c, s'.calls.get? i = some c → Delivered s' c.remoteKey := by
    intro i c hc
    have hold := fun hc => hdel _ (hn.called i c hc)
    have hupdate : ∀ {j c'} stage, s.calls.get? j = some c' →
        (s.calls.update j { c' with stage := stage }).get? i = some c →
        Delivered s' c.remoteKey := by
      intro j c' stage hc' hc
      rw [Registry.get?_update hc'] at hc
      split at hc
      · cases hc
        exact hdel _ (hn.called j c' hc')
      · exact hold hc
    cases h with
    | call =>
        rw [Registry.get?_add] at hc
        split at hc
        · cases hc
          exact List.mem_append_right _ List.mem_cons_self
        · exact hold hc
    | findDuplicate => exact hold (Registry.get?_of_get?_remove hc).2
    | insertDuplicate => exact hold (Registry.get?_of_get?_remove hc).2
    | push => exact hold (Registry.get?_of_get?_remove hc).2
    | fail => exact hold (Registry.get?_of_get?_remove hc).2
    | findNew hc' => exact hupdate _ hc' hc
    | insertNew hc' => exact hupdate _ hc' hc
    | record hc' => exact hupdate _ hc' hc
    | stop => cases hc
    | _ => exact hold hc
  refine ⟨hcalled, fun key hm => ?_, fun i d hd => ?_⟩
  · rcases effect_marked h hm with hold | ⟨i, c, hc, _, hkey⟩
    · exact hdel key (hn.marked key hold)
    · exact hkey ▸ hcalled i c hc
  · have hold : s.dedup.get? i = some d →
        ∃ kind, Marked s' ⟨d.bindingId, kind, d.eventId, d.version⟩ := by
      intro hd
      obtain ⟨kind, hm⟩ := hn.seen i d hd
      exact ⟨kind, effect_mem_trace h hm⟩
    cases h with
    | insertNew =>
        rename_i c _ _ _
        rw [Registry.get?_add] at hd
        split at hd
        · cases hd
          exact ⟨c.kind, List.mem_append_right _ List.mem_cons_self⟩
        · exact hold hd
    | expireDedup => exact hold (Registry.get?_of_get?_remove hd).2
    | _ => exact hold hd

/-- Handlers of remote events end without an error. -/
def HandlerSucceeds (s : SyncEngine R) : Action R → Prop
  | .handle worker false => ∀ d, s.dispatches.get? worker = some d → d.stage = .handling →
      d.entry.remoteKey = none
  | _ => True

/-- An event id and version are not delivered under two kinds. -/
def OneKind (s : SyncEngine R) : Action R → Prop
  | .call binding kind _ eventId version =>
      ∀ kind', Delivered s ⟨binding, kind', eventId, version⟩ → kind' = kind
  | _ => True

/-- The kind of a delivered event is a function of its binding, id and version. -/
def KindsAgree (s : SyncEngine R) : Prop :=
  ∀ key key', Delivered s key → Delivered s key' → key.binding = key'.binding →
    key.eventId = key'.eventId → key.version = key'.version → key.kind = key'.kind

theorem effect_delivered {s s' : SyncEngine R} {a : Action R} (h : Effect managers s a s')
    {key : RemoteKey} (hd : Delivered s' key) :
    Delivered s key ∨
      ∃ record, a = .call key.binding key.kind record key.eventId key.version := by
  have happend : ∀ o : Obs R, o ≠ .delivered key → .delivered key ∈ s.trace ++ [o] →
      Delivered s key := by
    intro o hne hmem
    rcases List.mem_append.mp hmem with hmem | hmem
    · exact hmem
    · exact absurd (List.mem_singleton.mp hmem).symm hne
  cases h with
  | call =>
      rename_i record _ _ _
      rcases List.mem_append.mp hd with hd | hd
      · exact .inl hd
      · cases List.mem_singleton.mp hd
        exact .inr ⟨record, rfl⟩
  | insertNew => exact .inl (happend _ (by intro h; cases h) hd)
  | push => exact .inl (happend _ (by intro h; cases h) hd)
  | enqueueLocalEvent => exact .inl (happend _ (by intro h; cases h) hd)
  | enqueueBackfillKind => exact .inl (happend _ (by intro h; cases h) hd)
  | load => exact .inl (happend _ (by intro h; cases h) hd)
  | handleEnd => exact .inl (happend _ (by intro h; cases h) hd)
  | handleRow => exact .inl (happend _ (by intro h; cases h) hd)
  | requeue => exact .inl (happend _ (by intro h; cases h) hd)
  | _ => exact .inl hd

theorem effect_kindsAgree {s s' : SyncEngine R} {a : Action R} (h : Effect managers s a s')
    (hk : OneKind s a) (hag : KindsAgree s) : KindsAgree s' := by
  intro key key' hd hd' hb he hv
  rcases effect_delivered h hd with hold | ⟨record, rfl⟩
  · rcases effect_delivered h hd' with hold' | ⟨record, rfl⟩
    · exact hag key key' hold hold' hb he hv
    · exact hk key.kind (by rw [← hb, ← he, ← hv]; exact hold)
  · rcases effect_delivered h hd' with hold' | ⟨record', ha⟩
    · exact (hk key'.kind (by rw [hb, he, hv]; exact hold')).symm
    · simp only [Action.call.injEq] at ha
      exact ha.2.1

/-- Every handler of a remote event that has ended did so without an error. -/
def AllSucceed (s : SyncEngine R) : Prop :=
  ∀ entry ok, .handled entry ok ∈ s.trace → entry.remoteKey ≠ none → ok = true

theorem effect_allSucceed {s s' : SyncEngine R} {a : Action R} (h : Effect managers s a s')
    (hk : HandlerSucceeds s a) (hs : AllSucceed s) : AllSucceed s' := by
  intro entry ok hmem hkey
  have happend : ∀ o : Obs R, o ≠ .handled entry ok → .handled entry ok ∈ s.trace ++ [o] →
      ok = true := by
    intro o hne hmem
    rcases List.mem_append.mp hmem with hmem | hmem
    · exact hs entry ok hmem hkey
    · exact absurd (List.mem_singleton.mp hmem).symm hne
  have hended : ∀ {worker ok' d}, HandlerSucceeds s (.handle worker ok') →
      s.dispatches.get? worker = some d → d.stage = .handling →
      .handled entry ok ∈ s.trace ++ [.handled d.entry ok'] → ok = true := by
    intro worker ok' d hk hd hstage hmem
    rcases List.mem_append.mp hmem with hmem | hmem
    · exact hs entry ok hmem hkey
    · cases List.mem_singleton.mp hmem
      cases ok with
      | true => rfl
      | false => exact absurd (hk d hd hstage) hkey
  cases h with
  | handleEnd hd hstage => exact hended hk hd hstage hmem
  | handleRow hd hstage => exact hended hk hd hstage hmem
  | call => exact happend _ (by intro h; cases h) hmem
  | insertNew => exact happend _ (by intro h; cases h) hmem
  | push => exact happend _ (by intro h; cases h) hmem
  | enqueueLocalEvent => exact happend _ (by intro h; cases h) hmem
  | enqueueBackfillKind => exact happend _ (by intro h; cases h) hmem
  | load => exact happend _ (by intro h; cases h) hmem
  | requeue => exact happend _ (by intro h; cases h) hmem
  | _ => exact hs entry ok hmem hkey

/-- A second delivery of the event, run to its end without interruption. -/
def redeliver (managers : Managers R) (s : SyncEngine R) (key : RemoteKey) (record : R) :
    SyncEngine R :=
  exec (step managers) s
    [.call key.binding key.kind record key.eventId key.version, .find s.calls.next,
      .insert s.calls.next, .record s.calls.next, .push s.calls.next]

/-- The entry that an accepted delivery queues. -/
def redeliveredEntry (s : SyncEngine R) (key : RemoteKey) (record : R) : QueueEntry R :=
  ⟨.remote key.binding record key.eventId key.version, key.kind, some s.inflight.next⟩

/-- An event that is not marked is marked and queued when it is delivered. -/
theorem redeliver_eq (managers : Managers R) {s : SyncEngine R} {key : RemoteKey} (hup : s.up = true)
    (hnew : seen s.dedup key.binding key.eventId key.version = false) (record : R) :
    ∃ calls dedup inflight, redeliver managers s key record =
      ({ s with
          calls := calls
          dedup := dedup
          inflight := inflight
          trace := s.trace ++ [.delivered key] ++ [.marked key] } : SyncEngine R).accept
        (resourceKeyForKind managers key.kind record) (redeliveredEntry s key record) := by
  have hcall := Registry.get?_add_next s.calls
    (⟨key.binding, key.kind, record, key.eventId, key.version, .finding⟩ : Call R)
  have hfind := Registry.get?_update hcall
    (⟨key.binding, key.kind, record, key.eventId, key.version, .inserting⟩ : Call R) s.calls.next
  rw [if_pos rfl] at hfind
  have hinsert := Registry.get?_update hfind
    (⟨key.binding, key.kind, record, key.eventId, key.version, .marked⟩ : Call R) s.calls.next
  rw [if_pos rfl] at hinsert
  have hrecord := Registry.get?_update hinsert
    (⟨key.binding, key.kind, record, key.eventId, key.version, .recorded s.inflight.next⟩
      : Call R) s.calls.next
  rw [if_pos rfl] at hrecord
  simp only [redeliver, exec_cons, exec_nil, step, SyncEngine.call, hup, if_true,
    SyncEngine.find, hcall, hnew, Bool.false_eq_true, if_false, SyncEngine.insert, hfind,
    SyncEngine.record, hinsert, SyncEngine.push, hrecord]
  exact ⟨_, _, _, rfl⟩

/-- Delivering the event queues it, and where its key is idle, the breaker
not open and its kind registered, its handler is called. -/
def Redelivered (managers : Managers R) (s : SyncEngine R) (key : RemoteKey) (record : R) :
    Prop :=
  let entry := redeliveredEntry s key record
  let s' := redeliver managers s key record
  .accepted entry ∈ s'.trace.drop s.trace.length ∧
    (s.queue.isIdle (queueKey key.binding (resourceKeyForKind managers key.kind record)) = true →
      ¬Dropped managers s entry → ∀ workspaceUuid,
        .invoked entry (workspaceUuid.getD key.binding) ∈
          (exec (step managers) s'
            [.begin s.queue.workers.next, .load s.queue.workers.next workspaceUuid]).trace.drop
              s.trace.length)

omit [Inhabited R] in
theorem begin_load {s : SyncEngine R} {worker : Nat} {w : Worker String (QueueEntry R)}
    (hw : s.queue.workers.get? worker = some w) (hd : s.dispatches.get? worker = none)
    (hs : w.settled = false) (hdrop : ¬Dropped managers s w.item) :
    s.begin managers worker =
      { asked s w.item with dispatches := s.dispatches.set worker ⟨w.item, .loading⟩ } := by
  have hopen : (s.breaker.isOpen s.now w.item.event.binding).1 = false :=
    Bool.eq_false_iff.mpr fun h => hdrop (.inl h)
  cases hm : managers.get? w.item.kind with
  | none => exact absurd (.inr hm) hdrop
  | some m =>
      simp only [SyncEngine.begin, hw, hd, hs, Bool.false_eq_true, if_false, hopen, hm, asked]

theorem redelivered_of_not_seen {s : SyncEngine R} {key : RemoteKey} (hw : Working s)
    (hup : s.up = true) (hnew : seen s.dedup key.binding key.eventId key.version = false)
    (record : R) : Redelivered managers s key record := by
  obtain ⟨calls, dedup, inflight, heq⟩ := redeliver_eq managers hup hnew record
  have htrace : (redeliver managers s key record).trace =
      s.trace ++ [.delivered key, .marked key, .accepted (redeliveredEntry s key record)] := by
    rw [heq]
    simp [SyncEngine.accept]
  constructor
  · rw [htrace, List.drop_left]
    simp
  · intro hidle hdrop workspaceUuid
    have hworker : (redeliver managers s key record).queue.workers.get? s.queue.workers.next =
        some ⟨queueKey key.binding (resourceKeyForKind managers key.kind record),
          redeliveredEntry s key record, false⟩ := by
      rw [heq]
      exact enqueue_of_isIdle hidle _
    have hfree : (redeliver managers s key record).dispatches.get? s.queue.workers.next = none := by
      rw [heq]
      cases hd : s.dispatches.get? s.queue.workers.next with
      | none => exact hd
      | some d =>
          obtain ⟨v, hv, _⟩ := hw _ d hd
          cases (Registry.get?_next _).symm.trans hv
    have hdrop' : ¬Dropped managers (redeliver managers s key record)
        (redeliveredEntry s key record) := by
      rw [heq]
      exact hdrop
    have hbegin := begin_load hworker hfree rfl hdrop'
    simp only [exec_cons, exec_nil, step, hbegin, SyncEngine.load, OrderedMap.get?_set_self,
      asked, htrace]
    simp [redeliveredEntry, SyncEvent.binding]

/-- No remote event is marked seen for good before its handler has succeeded:
when the event is not succeeded, its row is gone and no call is about to write
one, delivering it again is not a duplicate and calls the handler. -/
def Redeliverable (managers : Managers R) (s : SyncEngine R) : Prop :=
  ∀ key, Delivered s key → ¬Succeeded s key → ¬HasRow s key → ¬Marking s key → s.up = true →
    ∀ record, Redelivered managers s key record

/-- The conditions on a step under which no remote update is lost. -/
def KeepsUpdates (managers : Managers R) (s : SyncEngine R) (a : Action R) : Prop :=
  KeepsRemote managers s a ∧ HandlerSucceeds s a ∧ OneKind s a

/-- What holds in every state of a run whose steps keep updates. -/
structure Delivering (s : SyncEngine R) : Prop where
  linked : Linked s
  working : Working s
  known : Known s
  agree : KindsAgree s
  succeed : AllSucceed s
  kept : NoRemoteDrop s ∧ NotLost s

omit [Inhabited R] in
theorem delivering_init : Delivering (.init : SyncEngine R) where
  linked := linked_init
  working := fun _ _ h => nomatch h
  known := ⟨fun _ _ h => (nomatch h), fun _ h => absurd h List.not_mem_nil,
    fun _ _ h => (nomatch h)⟩
  agree := fun _ _ h => absurd h List.not_mem_nil
  succeed := fun _ _ h => absurd h List.not_mem_nil
  kept := ⟨fun _ _ _ h => (nomatch h), fun _ h => absurd h List.not_mem_nil⟩

theorem delivering_step (s : SyncEngine R) (a : Action R) (h : Delivering s)
    (hk : KeepsUpdates managers s a) : Delivering (step managers s a) := by
  have hkept := notLost_step h.linked h.kept hk.1
  have hlinked : Linked (step managers s a) := linked_step s a h.linked
  rcases step_effect managers s a with heq | heff
  · rwa [heq]
  · exact ⟨hlinked, effect_working heff h.working, effect_known heff h.known,
      effect_kindsAgree heff hk.2.2 h.agree, effect_allSucceed heff hk.2.1 h.succeed, hkept⟩

omit [Inhabited R] in
theorem seen_iff {rows : Registry DedupDoc} {bindingId eventId version : String} :
    seen rows bindingId eventId version = true ↔
      ∃ i d, rows.get? i = some d ∧ d.bindingId = bindingId ∧ d.eventId = eventId ∧
        d.version = version := by
  simp only [seen, List.any_eq_true, Registry.mem_values_iff, Bool.and_eq_true, beq_iff_eq]
  constructor
  · rintro ⟨d, ⟨i, hd⟩, ⟨hb, he⟩, hv⟩
    exact ⟨i, d, hd, hb, he, hv⟩
  · rintro ⟨i, d, hd, hb, he, hv⟩
    exact ⟨d, ⟨i, hd⟩, ⟨hb, he⟩, hv⟩

theorem redeliverable_of_delivering {s : SyncEngine R} (h : Delivering s) :
    Redeliverable managers s := by
  intro key hdel hsucc hrow hmarking hup record
  apply redelivered_of_not_seen h.working hup
  rw [← Bool.not_eq_true, seen_iff]
  rintro ⟨i, d, hd, hb, he, hv⟩
  obtain ⟨kind, hm⟩ := h.known.seen i d hd
  have hkind : kind = key.kind := h.agree _ key (h.known.marked _ hm) hdel hb he hv
  have hkey : (⟨d.bindingId, kind, d.eventId, d.version⟩ : RemoteKey) = key := by
    rw [hb, hkind, he, hv]
  rcases h.kept.2 key (hkey ▸ hm) with ⟨entry, ok, hmem, hentry⟩ | hh | hh
  · have hok := h.succeed entry ok hmem (by rw [hentry]; exact nofun)
    exact hsucc ⟨entry, hok ▸ hmem, hentry⟩
  · exact hrow hh
  · exact hmarking hh

/-- In every run whose steps keep updates, no event is discarded as a duplicate
of a delivery that was not handled. -/
theorem redeliverable_of_keepsUpdates (managers : Managers R) (acts : List (Action R))
    (hacts : Along (step managers) (KeepsUpdates managers) .init acts) :
    Throughout (step managers) (Redeliverable managers) .init acts :=
  throughout_of_along hacts fun _ has =>
    redeliverable_of_delivering (exec_invariant delivering_step delivering_init has)

/-- One registered kind, serialised under one key. -/
def issueManagers : Managers String := OrderedMap.empty.set "issue" ⟨fun iid => some iid⟩

/-- An issue event delivered, handled with the given outcome, and its row deleted. -/
def handledRun (ok : Bool) : List (Action String) :=
  [.start, .call "b" "issue" "issue:1" "uuid-1" "v1", .find 0, .insert 0, .record 0, .push 0,
    .begin 0, .load 0 none, .handle 0 ok, .delete 0 true]

theorem redeliverable_handledRun :
    Throughout (step issueManagers) (Redeliverable issueManagers) .init (handledRun true) :=
  redeliverable_of_keepsUpdates issueManagers _ (by
    refine ⟨⟨trivial, trivial, trivial⟩, ⟨trivial, trivial, ?_⟩, ⟨trivial, trivial, trivial⟩,
      ⟨trivial, trivial, trivial⟩, ⟨trivial, trivial, trivial⟩, ⟨trivial, trivial, trivial⟩,
      ⟨?_, trivial, trivial⟩, ⟨trivial, trivial, trivial⟩, ⟨trivial, trivial, trivial⟩,
      ⟨trivial, trivial, trivial⟩, trivial⟩
    · exact fun _ h => absurd h List.not_mem_nil
    · intro w hw _ _ _
      cases hw
      decide)

/-- What is observed of the run whose handler fails. -/
theorem trace_failedRun :
    let key : RemoteKey := ⟨"b", "issue", "uuid-1", "v1"⟩
    let entry : QueueEntry String := ⟨.remote "b" "issue:1" "uuid-1" "v1", "issue", some 0⟩
    (exec (step issueManagers) .init (handledRun false)).trace =
      [.delivered key, .marked key, .accepted entry, .invoked entry "b",
        .handled entry false] := by
  decide

/-- A handler that fails leaves its event marked seen: the row is gone, and
the redelivery is discarded. -/
theorem not_redeliverable_of_failure :
    ¬Throughout (step issueManagers) (Redeliverable issueManagers) .init (handledRun false) := by
  intro h
  have hlast := h.last ⟨"b", "issue", "uuid-1", "v1"⟩
  have hacc := (hlast ?_ ?_ ?_ ?_ rfl "issue:1").1
  · revert hacc
    decide
  · rw [Delivered, trace_failedRun]
    exact List.mem_cons_self
  · rintro ⟨entry, hmem, _⟩
    rw [trace_failedRun] at hmem
    simp at hmem
  · rintro ⟨id, row, hrow, _⟩
    cases hrow
  · rintro ⟨i, c, hc, _⟩
    cases hc

end HulyGitlab.Engine
