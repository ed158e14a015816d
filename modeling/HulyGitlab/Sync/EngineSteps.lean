import HulyGitlab.Lib.Transition
import HulyGitlab.Sync.Engine
import HulyGitlab.Sync.QueueExclusion

/-!
# What a step of the engine can do

Every enabled step is one of the effects listed here, with the facts that
enabled it. Invariants are proved by cases on the effect.
-/

namespace HulyGitlab.Engine

open Queue Breaker Transition SyncEngine

variable {R : Type*} [Inhabited R]

/-- A dispatch drops its event: the breaker is open or no manager is registered. -/
def Dropped (managers : Managers R) (s : SyncEngine R) (entry : QueueEntry R) : Prop :=
  (s.breaker.isOpen s.now entry.event.binding).1 = true ∨ managers.get? entry.kind = none

instance (managers : Managers R) (s : SyncEngine R) (entry : QueueEntry R) :
    Decidable (Dropped managers s entry) := by
  unfold Dropped
  infer_instance

/-- The engine after `isOpen` was asked about the binding of an entry. -/
def asked (s : SyncEngine R) (entry : QueueEntry R) : SyncEngine R :=
  { s with breaker := (s.breaker.isOpen s.now entry.event.binding).2 }

/-- The engine after the handler of an entry has ended. -/
def ended (s : SyncEngine R) (entry : QueueEntry R) (ok : Bool) : SyncEngine R :=
  { s with
    breaker :=
      if ok then s.breaker.recordSuccess s.now entry.event.binding
      else s.breaker.recordFailure s.now entry.event.binding
    trace := s.trace ++ [.handled entry ok] }

inductive Effect (managers : Managers R) (s : SyncEngine R) : Action R → SyncEngine R → Prop
  | call {binding kind record eventId version} (hup : s.up = true) :
      Effect managers s (.call binding kind record eventId version)
        { s with
          calls := s.calls.add ⟨binding, kind, record, eventId, version, .finding⟩
          trace := s.trace ++ [.delivered ⟨binding, kind, eventId, version⟩] }
  | findDuplicate {i c} (hc : s.calls.get? i = some c) (hstage : c.stage = .finding)
      (hseen : seen s.dedup c.binding c.eventId c.version = true) :
      Effect managers s (.find i) { s with calls := s.calls.remove i }
  | findNew {i c} (hc : s.calls.get? i = some c) (hstage : c.stage = .finding)
      (hseen : seen s.dedup c.binding c.eventId c.version = false) :
      Effect managers s (.find i) { s with calls := s.calls.update i { c with stage := .inserting } }
  | insertDuplicate {i c} (hc : s.calls.get? i = some c) (hstage : c.stage = .inserting)
      (hseen : seen s.dedup c.binding c.eventId c.version = true) :
      Effect managers s (.insert i) { s with calls := s.calls.remove i }
  | insertNew {i c} (hc : s.calls.get? i = some c) (hstage : c.stage = .inserting)
      (hseen : seen s.dedup c.binding c.eventId c.version = false) :
      Effect managers s (.insert i)
        { s with
          dedup := s.dedup.add ⟨c.binding, c.eventId, c.version, s.now⟩
          calls := s.calls.update i { c with stage := .marked }
          trace := s.trace ++ [.marked c.remoteKey] }
  | record {i c} (hc : s.calls.get? i = some c) (hstage : c.stage = .marked) :
      Effect managers s (.record i)
        { s with
          inflight := s.inflight.add (inflightRow c s.now)
          calls := s.calls.update i { c with stage := .recorded s.inflight.next } }
  | push {i c id} (hc : s.calls.get? i = some c) (hstage : c.stage = .recorded id) :
      Effect managers s (.push i)
        { s with
          calls := s.calls.remove i
          queue := s.queue.enqueue
            (queueKey c.binding (resourceKeyForKind managers c.kind c.record)) (callEntry c id)
          trace := s.trace ++ [.accepted (callEntry c id)] }
  | fail {i} : Effect managers s (.fail i) { s with calls := s.calls.remove i }
  | enqueueLocalEvent {binding kind doc change} (hup : s.up = true) :
      Effect managers s (.enqueueLocalEvent binding kind doc change)
        { s with
          queue := s.queue.enqueue (queueKey binding (kind ++ ":" ++ doc))
            (localEntry binding kind doc change)
          trace := s.trace ++ [.accepted (localEntry binding kind doc change)] }
  | enqueueBackfillKind {binding since kind} (hup : s.up = true) (hkind : kind ∈ managers.keys) :
      Effect managers s (.enqueueBackfillKind binding since kind)
        { s with
          queue := s.queue.enqueue (queueKey binding ("backfill:" ++ kind))
            ⟨.backfill binding since, kind, none⟩
          trace := s.trace ++ [.accepted ⟨.backfill binding since, kind, none⟩] }
  | beginSkip {worker w} (hw : s.queue.workers.get? worker = some w)
      (hd : s.dispatches.get? worker = none) (hsettled : w.settled = false)
      (hdrop : Dropped managers s w.item) (hid : w.item.inflightId = none) :
      Effect managers s (.begin worker)
        { asked s w.item with
          dispatches := s.dispatches.delete worker
          queue := s.queue.settle worker true }
  | beginDrop {worker w id} (hw : s.queue.workers.get? worker = some w)
      (hd : s.dispatches.get? worker = none) (hsettled : w.settled = false)
      (hdrop : Dropped managers s w.item) (hid : w.item.inflightId = some id) :
      Effect managers s (.begin worker)
        { asked s w.item with dispatches := s.dispatches.set worker ⟨w.item, .dropping id⟩ }
  | beginLoad {worker w} (hw : s.queue.workers.get? worker = some w)
      (hd : s.dispatches.get? worker = none) (hsettled : w.settled = false)
      (hdrop : ¬Dropped managers s w.item) :
      Effect managers s (.begin worker)
        { asked s w.item with dispatches := s.dispatches.set worker ⟨w.item, .loading⟩ }
  | load {worker d workspaceUuid} (hd : s.dispatches.get? worker = some d)
      (hstage : d.stage = .loading) :
      Effect managers s (.load worker workspaceUuid)
        { s with
          dispatches := s.dispatches.set worker { d with stage := .handling }
          trace := s.trace ++ [.invoked d.entry (workspaceUuid.getD d.entry.event.binding)] }
  | handleEnd {worker d ok} (hd : s.dispatches.get? worker = some d)
      (hstage : d.stage = .handling) (hid : d.entry.inflightId = none) :
      Effect managers s (.handle worker ok)
        { ended s d.entry ok with
          dispatches := s.dispatches.delete worker
          queue := s.queue.settle worker true }
  | handleRow {worker d ok id} (hd : s.dispatches.get? worker = some d)
      (hstage : d.stage = .handling) (hid : d.entry.inflightId = some id) :
      Effect managers s (.handle worker ok)
        { ended s d.entry ok with
          dispatches := s.dispatches.set worker { d with stage := .deleting id } }
  | delete {worker d id ok} (hd : s.dispatches.get? worker = some d)
      (hstage : d.stage = .dropping id ∨ d.stage = .deleting id) :
      Effect managers s (.delete worker ok)
        { s with
          inflight := if ok then s.inflight.remove id else s.inflight
          dispatches := s.dispatches.delete worker
          queue := s.queue.settle worker ok }
  | resume {worker} :
      Effect managers s (.resume worker) { s with queue := s.queue.resume worker }
  | tick {ms} : Effect managers s (.tick ms) { s with now := s.now + ms }
  | expireDedup {i d} (hd : s.dedup.get? i = some d) (hage : d.createdAt + dedupTtlMs ≤ s.now) :
      Effect managers s (.expireDedup i) { s with dedup := s.dedup.remove i }
  | expireInflight {i d} (hd : s.inflight.get? i = some d)
      (hage : d.startedAt + inflightMaxAgeMs ≤ s.now) :
      Effect managers s (.expireInflight i) { s with inflight := s.inflight.remove i }
  | stop : Effect managers s .stop s.stop
  | start (hup : s.up = false) :
      Effect managers s .start
        { s with
          up := true
          boot := s.inflight.rows.entries
          cutoff := s.now - inflightMaxAgeMs }
  | discard {id row rest} (hboot : s.boot = (id, row) :: rest)
      (hrow : row.startedAt < s.cutoff ∨ bootEntry managers id row = none) :
      Effect managers s .bootStep { s with boot := rest, inflight := s.inflight.remove id }
  | requeue {id row rest resourceKey entry} (hboot : s.boot = (id, row) :: rest)
      (hage : s.cutoff ≤ row.startedAt)
      (hrow : bootEntry managers id row = some (resourceKey, entry)) :
      Effect managers s .bootStep
        { s with
          boot := rest
          queue := s.queue.enqueue (queueKey entry.event.binding resourceKey) entry
          trace := s.trace ++ [.accepted entry] }

omit [Inhabited R] in
theorem drop_none {s : SyncEngine R} {worker : Nat} {entry : QueueEntry R}
    (h : entry.inflightId = none) : s.drop worker entry = s.finish worker true := by
  rw [SyncEngine.drop, h]

omit [Inhabited R] in
theorem drop_some {s : SyncEngine R} {worker : Nat} {entry : QueueEntry R} {id : Nat}
    (h : entry.inflightId = some id) :
    s.drop worker entry =
      { s with dispatches := s.dispatches.set worker ⟨entry, .dropping id⟩ } := by
  rw [SyncEngine.drop, h]

theorem begin_effect (managers : Managers R) (s : SyncEngine R) (worker : Nat) :
    s.begin managers worker = s ∨
      Effect managers s (.begin worker) (s.begin managers worker) := by
  unfold SyncEngine.begin
  cases hw : s.queue.workers.get? worker with
  | none => exact .inl rfl
  | some w =>
      cases hd : s.dispatches.get? worker with
      | some d => exact .inl rfl
      | none =>
          cases hs : w.settled with
          | true => exact .inl (by simp only [hs, if_true])
          | false =>
              right
              have hdrop : Dropped managers s w.item →
                  Effect managers s (.begin worker) ((asked s w.item).drop worker w.item) := by
                intro h
                cases hid : w.item.inflightId with
                | none =>
                    rw [drop_none hid]
                    exact .beginSkip hw hd hs h hid
                | some id =>
                    rw [drop_some hid]
                    exact .beginDrop hw hd hs h hid
              simp only [hs, Bool.false_eq_true, if_false]
              cases ho : (s.breaker.isOpen s.now w.item.event.binding).1 with
              | true =>
                  simp only [if_true]
                  exact hdrop (.inl ho)
              | false =>
                  simp only [Bool.false_eq_true, if_false]
                  cases hm : managers.get? w.item.kind with
                  | none => exact hdrop (.inr hm)
                  | some m =>
                      refine .beginLoad hw hd hs ?_
                      rintro (h | h)
                      · exact Bool.false_ne_true (ho.symm.trans h)
                      · cases hm.symm.trans h

theorem bootStep_effect (managers : Managers R) (s : SyncEngine R) :
    s.bootStep managers = s ∨ Effect managers s .bootStep (s.bootStep managers) := by
  unfold SyncEngine.bootStep
  cases hboot : s.boot with
  | nil => exact .inl rfl
  | cons p rest =>
      obtain ⟨id, row⟩ := p
      right
      by_cases hage : row.startedAt < s.cutoff
      · simp only [hage, if_true]
        exact .discard hboot (.inl hage)
      · simp only [hage, if_false]
        cases hrow : bootEntry managers id row with
        | none => exact .discard hboot (.inr hrow)
        | some p =>
            obtain ⟨resourceKey, entry⟩ := p
            exact .requeue hboot (Nat.le_of_not_lt hage) hrow

/-- A step changes nothing, or it has one of the effects above. -/
theorem step_effect (managers : Managers R) (s : SyncEngine R) (a : Action R) :
    step managers s a = s ∨ Effect managers s a (step managers s a) := by
  cases a with
  | call binding kind record eventId version =>
      simp only [step, SyncEngine.call]
      split
      next hup => exact .inr (.call hup)
      next => exact .inl rfl
  | find i =>
      simp only [step, SyncEngine.find]
      cases hc : s.calls.get? i with
      | none => exact .inl rfl
      | some c =>
          cases hs : c.stage with
          | finding =>
              simp only [hs]
              split
              next hseen => exact .inr (.findDuplicate hc hs hseen)
              next hseen => exact .inr (.findNew hc hs (Bool.eq_false_iff.mpr hseen))
          | _ => exact .inl (by simp only [hs])
  | insert i =>
      simp only [step, SyncEngine.insert]
      cases hc : s.calls.get? i with
      | none => exact .inl rfl
      | some c =>
          cases hs : c.stage with
          | inserting =>
              simp only [hs]
              split
              next hseen => exact .inr (.insertDuplicate hc hs hseen)
              next hseen => exact .inr (.insertNew hc hs (Bool.eq_false_iff.mpr hseen))
          | _ => exact .inl (by simp only [hs])
  | record i =>
      simp only [step, SyncEngine.record]
      cases hc : s.calls.get? i with
      | none => exact .inl rfl
      | some c =>
          cases hs : c.stage with
          | marked =>
              simp only [hs]
              exact .inr (.record hc hs)
          | _ => exact .inl (by simp only [hs])
  | push i =>
      simp only [step, SyncEngine.push]
      cases hc : s.calls.get? i with
      | none => exact .inl rfl
      | some c =>
          cases hs : c.stage with
          | recorded id =>
              simp only [hs]
              exact .inr (.push hc hs)
          | _ => exact .inl (by simp only [hs])
  | fail i => exact .inr .fail
  | enqueueLocalEvent binding kind doc change =>
      simp only [step, SyncEngine.enqueueLocalEvent]
      split
      next hup => exact .inr (.enqueueLocalEvent hup)
      next => exact .inl rfl
  | enqueueBackfillKind binding since kind =>
      simp only [step, SyncEngine.enqueueBackfillKind]
      split
      next h => exact .inr (.enqueueBackfillKind h.1 h.2)
      next => exact .inl rfl
  | begin worker => exact begin_effect managers s worker
  | load worker workspaceUuid =>
      simp only [step, SyncEngine.load]
      cases hd : s.dispatches.get? worker with
      | none => exact .inl rfl
      | some d =>
          cases hs : d.stage with
          | loading =>
              simp only [hs]
              exact .inr (.load hd hs)
          | _ => exact .inl (by simp only [hs])
  | handle worker ok =>
      simp only [step, SyncEngine.handle]
      cases hd : s.dispatches.get? worker with
      | none => exact .inl rfl
      | some d =>
          cases hs : d.stage with
          | handling =>
              simp only [hs]
              cases hid : d.entry.inflightId with
              | none => exact .inr (.handleEnd hd hs hid)
              | some id => exact .inr (.handleRow hd hs hid)
          | _ => exact .inl (by simp only [hs])
  | delete worker ok =>
      simp only [step, SyncEngine.delete]
      cases hd : s.dispatches.get? worker with
      | none => exact .inl rfl
      | some d =>
          cases hs : d.stage with
          | dropping id =>
              simp only [hs]
              exact .inr (.delete hd (.inl hs))
          | deleting id =>
              simp only [hs]
              exact .inr (.delete hd (.inr hs))
          | _ => exact .inl (by simp only [hs])
  | resume worker => exact .inr .resume
  | tick ms => exact .inr .tick
  | expireDedup i =>
      simp only [step, SyncEngine.expireDedup]
      cases hd : s.dedup.get? i with
      | none => exact .inl rfl
      | some d =>
          simp only
          split
          next hage => exact .inr (.expireDedup hd hage)
          next => exact .inl rfl
  | expireInflight i =>
      simp only [step, SyncEngine.expireInflight]
      cases hd : s.inflight.get? i with
      | none => exact .inl rfl
      | some d =>
          simp only
          split
          next hage => exact .inr (.expireInflight hd hage)
          next => exact .inl rfl
  | stop => exact .inr .stop
  | start =>
      simp only [step, SyncEngine.start]
      cases hup : s.up with
      | true => exact .inl (by simp only [if_true])
      | false =>
          simp only [Bool.false_eq_true, if_false]
          exact .inr (.start hup)
  | bootStep => exact bootStep_effect managers s

end HulyGitlab.Engine
