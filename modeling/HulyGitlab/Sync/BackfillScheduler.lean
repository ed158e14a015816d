import HulyGitlab.Sync.EngineSteps

/-!
# The scheduler and the engine on one breaker

`BackfillScheduler` polls every binding and shares its breaker with the
engine. A poll that could put its sweeps in the queue counts as a success, and
so does a handler that returns without having asked GitLab for anything.
-/

namespace HulyGitlab.Backfill

open Breaker Engine Transition

variable {R : Type*} [Inhabited R]

/-- The scheduler with the engine it polls for. -/
structure BackfillScheduler (R : Type*) where
  engine : SyncEngine R
  /-- The calls of `processBinding` that wait for `resolveSince`. -/
  polls : Registry String
  /-- The bindings of the handlers that failed after a request to GitLab, in order. -/
  requestFailures : List String
  /-- The bindings that any failure was recorded for, in order. -/
  reported : List String

/-- The cursors of the two kinds, as `getCursor` answers; the oldest counts, none later than now. -/
def resolveSince (now : Nat) (issues notes : Option Nat) : Option Nat :=
  ([issues, notes].filterMap fun cursor => cursor.map (min now)).min?

/-- What the engine does in one process apart from the end of a handler. -/
def InProcess : Engine.Action R → Prop
  | .handle _ _ => False
  | .stop => False
  | .start => False
  | _ => True

instance : DecidablePred (InProcess (R := R)) := fun a => by
  cases a <;> unfold InProcess <;> infer_instance

/-- The steps of a process whose requests to GitLab all fail: those of the engine, the two ways a
handler ends, and the two parts of `processBinding` around its await. -/
inductive Action (R : Type*)
  | engine (a : { a : Engine.Action R // InProcess a })
  | requestFailed (worker : Nat)
  | withoutRequest (worker : Nat) (ok : Bool)
  | processBinding (bindingId : String)
  /-- `resolveSince` has read the cursors, or has failed. -/
  | resolve (poll : Nat) (cursors : Option (Option Nat × Option Nat))

namespace BackfillScheduler

variable (managers : Managers R) (s : BackfillScheduler R)

/-- The binding whose handler a worker waits for. -/
def handling (worker : Nat) : Option String :=
  match s.engine.dispatches.get? worker with
  | some d => if d.stage = .handling then some d.entry.event.binding else none
  | none => none

def withBreaker (breaker : InMemoryBindingBreaker) : BackfillScheduler R :=
  { s with engine := { s.engine with breaker := breaker } }

def processBinding (bindingId : String) : BackfillScheduler R :=
  let (isOpen, breaker) := s.engine.breaker.isOpen s.engine.now bindingId
  if isOpen then s.withBreaker breaker
  else { s.withBreaker breaker with polls := s.polls.add bindingId }

def resolve (poll : Nat) (cursors : Option (Option Nat × Option Nat)) : BackfillScheduler R :=
  match s.polls.get? poll with
  | none => s
  | some bindingId =>
      let s' : BackfillScheduler R := { s with polls := s.polls.remove poll }
      match cursors with
      | some (issues, notes) =>
          let since := resolveSince s.engine.now issues notes
          let engine := s.engine.enqueueBackfill managers bindingId since
          { s' with
            engine :=
              { engine with breaker := engine.breaker.recordSuccess engine.now bindingId } }
      | none =>
          { s' with
            engine :=
              { s.engine with
                breaker := s.engine.breaker.recordFailure s.engine.now bindingId }
            reported := s.reported ++ [bindingId] }

def step : Action R → BackfillScheduler R
  | .engine a => { s with engine := Engine.step managers s.engine a }
  | .requestFailed worker =>
      { s with
        engine := Engine.step managers s.engine (.handle worker false)
        requestFailures := s.requestFailures ++ (s.handling worker).toList
        reported := s.reported ++ (s.handling worker).toList }
  | .withoutRequest worker ok =>
      { s with
        engine := Engine.step managers s.engine (.handle worker ok)
        reported := if ok then s.reported else s.reported ++ (s.handling worker).toList }
  | .processBinding bindingId => s.processBinding bindingId
  | .resolve poll cursors => s.resolve managers poll cursors

end BackfillScheduler

/-- A closed entry has counted `n` failures, and fewer than open it. -/
def Counts (n : Nat) (e : BreakerEntry) : Prop :=
  e.state = .closed → n ≤ e.failures ∧ e.failures < failureThreshold

instance (n : Nat) (e : BreakerEntry) : Decidable (Counts n e) :=
  inferInstanceAs (Decidable (_ → _))

open InMemoryBindingBreaker (afterFailure)

section Entries

variable {n now : Nat} {e : BreakerEntry}

theorem refresh_of_closed (h : e.state = .closed) : InMemoryBindingBreaker.refresh now e = e := by
  simp [InMemoryBindingBreaker.refresh, h]

theorem refresh_refresh : InMemoryBindingBreaker.refresh now
    (InMemoryBindingBreaker.refresh now e) = InMemoryBindingBreaker.refresh now e := by
  obtain ⟨state, failures, openedAt⟩ := e
  cases state with
  | closed => rfl
  | halfOpen => rfl
  | «open» =>
    cases openedAt with
    | none => rfl
    | some openedAt =>
      dsimp only [InMemoryBindingBreaker.refresh]
      by_cases hlate : openDurationMs ≤ now - openedAt
      · rw [if_pos hlate]
      · rw [if_neg hlate]
        dsimp only
        rw [if_neg hlate]

/-- Time opens no closed entry and closes no open one. -/
theorem state_refresh_closed_iff :
    (InMemoryBindingBreaker.refresh now e).state = .closed ↔ e.state = .closed := by
  constructor
  · intro h
    unfold InMemoryBindingBreaker.refresh at h
    split at h
    · split at h
      · cases h
      · exact h
    · exact h
  · exact fun h => (congrArg BreakerEntry.state (refresh_of_closed h)).trans h

theorem Counts.refresh (h : Counts n e) : Counts n (InMemoryBindingBreaker.refresh now e) := by
  intro hclosed
  have hbefore := state_refresh_closed_iff.mp hclosed
  rw [refresh_of_closed hbefore]
  exact h hbefore

theorem Counts.mono {m : Nat} (h : Counts n e) (hm : m ≤ n) : Counts m e :=
  fun hclosed => ⟨Nat.le_trans hm (h hclosed).1, (h hclosed).2⟩

theorem Counts.afterFailure (h : Counts n e) :
    Counts (n + 1) (InMemoryBindingBreaker.afterFailure now e) := by
  unfold InMemoryBindingBreaker.afterFailure
  cases hstate : (InMemoryBindingBreaker.refresh now e).state with
  | halfOpen => exact fun hclosed => by cases hclosed
  | «open» => exact fun hclosed => by cases hstate.symm.trans hclosed
  | closed =>
    obtain ⟨hcount, hbelow⟩ := h.refresh hstate
    dsimp only
    by_cases hfull : failureThreshold ≤ (InMemoryBindingBreaker.refresh now e).failures + 1
    · rw [if_pos hfull]
      exact fun hclosed => by cases hclosed
    · rw [if_neg hfull]
      exact fun _ => ⟨Nat.succ_le_succ hcount, Nat.lt_of_not_le hfull⟩

variable (now) in
/-- The failure that reaches the threshold opens the entry. -/
theorem open_afterFailure (h : Counts n e) (hn : failureThreshold ≤ n + 1) :
    (InMemoryBindingBreaker.refresh now
      (InMemoryBindingBreaker.afterFailure now e)).state = .open := by
  have hlate : ¬ openDurationMs ≤ now - now := by
    rw [Nat.sub_self]
    decide
  unfold InMemoryBindingBreaker.afterFailure
  cases hstate : (InMemoryBindingBreaker.refresh now e).state with
  | halfOpen =>
    dsimp only [InMemoryBindingBreaker.refresh]
    rw [if_neg hlate]
  | «open» =>
    dsimp only
    rw [refresh_refresh, hstate]
  | closed =>
    obtain ⟨hcount, -⟩ := h.refresh hstate
    dsimp only
    rw [if_pos (Nat.le_trans hn (Nat.succ_le_succ hcount))]
    dsimp only [InMemoryBindingBreaker.refresh]
    rw [if_neg hlate]

theorem failures_refresh : (InMemoryBindingBreaker.refresh now e).failures = e.failures := by
  unfold InMemoryBindingBreaker.refresh
  split
  · split
    · rfl
    · rfl
  · rfl

/-- A failure takes nothing from a count, and leaves it at most full. -/
theorem failures_afterFailure (h : Counts n e) (hfull : e.failures ≤ failureThreshold) :
    e.failures ≤ (InMemoryBindingBreaker.afterFailure now e).failures ∧
      (InMemoryBindingBreaker.afterFailure now e).failures ≤ failureThreshold := by
  have hsame : (InMemoryBindingBreaker.refresh now e).failures = e.failures := failures_refresh
  unfold InMemoryBindingBreaker.afterFailure
  cases hstate : (InMemoryBindingBreaker.refresh now e).state with
  | halfOpen => exact ⟨hfull, Nat.le_refl _⟩
  | «open» => exact ⟨Nat.le_of_eq hsame.symm, hsame ▸ hfull⟩
  | closed =>
    obtain ⟨-, hbelow⟩ := h.refresh hstate
    dsimp only
    split
    · dsimp only
      omega
    · dsimp only
      omega

/-- No failure closes an entry. -/
theorem closed_of_afterFailure (h : (InMemoryBindingBreaker.afterFailure now e).state = .closed) :
    e.state = .closed := by
  unfold InMemoryBindingBreaker.afterFailure at h
  cases hstate : (InMemoryBindingBreaker.refresh now e).state with
  | closed => exact state_refresh_closed_iff.mp hstate
  | halfOpen =>
    rw [hstate] at h
    cases h
  | «open» =>
    rw [hstate] at h
    exact state_refresh_closed_iff.mp h

theorem counts_closed_iff : Counts n ⟨.closed, 0, none⟩ ↔ n = 0 := by
  constructor
  · exact fun h => Nat.le_zero.mp (h rfl).1
  · rintro rfl
    exact fun _ => ⟨Nat.le_refl 0, by decide⟩

end Entries

section Breaker

variable (b : InMemoryBindingBreaker) (now : Nat) (bindingId other : String)

theorem entry_isOpen : (b.isOpen now bindingId).2.entry other =
    if other = bindingId then InMemoryBindingBreaker.refresh now (b.entry bindingId)
    else b.entry other := by
  simp [InMemoryBindingBreaker.isOpen, InMemoryBindingBreaker.getState]

theorem entry_recordFailure : (b.recordFailure now bindingId).entry other =
    if other = bindingId then afterFailure now (b.entry bindingId) else b.entry other := by
  rw [InMemoryBindingBreaker.recordFailure_eq, InMemoryBindingBreaker.entry_setEntry]

/-- What a binding reports changes its own entry. -/
theorem entry_report (ok : Bool) :
    (if ok then b.recordSuccess now bindingId else b.recordFailure now bindingId).entry other =
      if bindingId = other then if ok then ⟨.closed, 0, none⟩ else afterFailure now (b.entry other)
      else b.entry other := by
  by_cases h : bindingId = other
  · subst h
    rw [if_pos rfl]
    cases ok with
    | true => exact (InMemoryBindingBreaker.entry_setEntry _ _ _ _).trans (if_pos rfl)
    | false => exact (entry_recordFailure b now bindingId bindingId).trans (if_pos rfl)
  · rw [if_neg h]
    cases ok with
    | true => exact (InMemoryBindingBreaker.entry_setEntry _ _ _ _).trans (if_neg (Ne.symm h))
    | false => exact (entry_recordFailure b now bindingId other).trans (if_neg (Ne.symm h))

end Breaker

section Steps

variable (managers : Managers R) (s : SyncEngine R)

/-- Apart from the ends of handlers, a process only lets time act on an entry. -/
theorem entry_inProcess {a : Engine.Action R} (ha : InProcess a) (bindingId : String) :
    (Engine.step managers s a).breaker.entry bindingId = s.breaker.entry bindingId ∨
      (Engine.step managers s a).breaker.entry bindingId =
        InMemoryBindingBreaker.refresh s.now (s.breaker.entry bindingId) := by
  have hasked : ∀ entry : QueueEntry R,
      (asked s entry).breaker.entry bindingId = s.breaker.entry bindingId ∨
        (asked s entry).breaker.entry bindingId =
          InMemoryBindingBreaker.refresh s.now (s.breaker.entry bindingId) := by
    intro entry
    have hentry := entry_isOpen s.breaker s.now entry.event.binding bindingId
    by_cases hbinding : bindingId = entry.event.binding
    · rw [if_pos hbinding, ← hbinding] at hentry
      exact .inr (hbinding ▸ hentry)
    · rw [if_neg hbinding] at hentry
      exact .inl hentry
  obtain hsame | heffect := step_effect managers s a
  · exact .inl (congrArg (fun s => s.breaker.entry bindingId) hsame)
  · revert heffect
    generalize Engine.step managers s a = s'
    intro heffect
    cases heffect with
    | beginSkip => exact hasked _
    | beginDrop => exact hasked _
    | beginLoad => exact hasked _
    | handleEnd => exact absurd ha id
    | handleRow => exact absurd ha id
    | stop => exact absurd ha id
    | start => exact absurd ha id
    | _ => exact .inl rfl

omit [Inhabited R] in
theorem enqueueBackfill_same (bindingId : String) (since : Option Nat) :
    (s.enqueueBackfill managers bindingId since).breaker = s.breaker ∧
      (s.enqueueBackfill managers bindingId since).now = s.now := by
  unfold SyncEngine.enqueueBackfill
  induction managers.keys generalizing s with
  | nil => exact ⟨rfl, rfl⟩
  | cons kind kinds ih =>
    obtain ⟨hbreaker, hnow⟩ := ih (s.enqueueBackfillKind managers bindingId since kind)
    have hkind : (s.enqueueBackfillKind managers bindingId since kind).breaker = s.breaker ∧
        (s.enqueueBackfillKind managers bindingId since kind).now = s.now := by
      unfold SyncEngine.enqueueBackfillKind
      split
      · exact ⟨rfl, rfl⟩
      · exact ⟨rfl, rfl⟩
    exact ⟨hbreaker.trans hkind.1, hnow.trans hkind.2⟩

end Steps

namespace BackfillScheduler

variable (managers : Managers R) (s : BackfillScheduler R) (bindingId : String)

def entry : BreakerEntry := s.engine.breaker.entry bindingId

theorem breaker_handle (worker : Nat) (ok : Bool) :
    (∃ handled, s.handling worker = some handled ∧
        (Engine.step managers s.engine (.handle worker ok)).breaker =
          if ok then s.engine.breaker.recordSuccess s.engine.now handled
          else s.engine.breaker.recordFailure s.engine.now handled) ∨
      s.handling worker = none ∧
        (Engine.step managers s.engine (.handle worker ok)).breaker = s.engine.breaker := by
  simp only [Engine.step]
  unfold SyncEngine.handle handling
  cases s.engine.dispatches.get? worker with
  | none => exact .inr ⟨rfl, rfl⟩
  | some d =>
    dsimp only
    cases hstage : d.stage with
    | handling =>
      refine .inl ⟨d.entry.event.binding, if_pos rfl, ?_⟩
      dsimp only
      cases d.entry.inflightId with
      | none => rfl
      | some id => rfl
    | _ => exact .inr ⟨if_neg DispatchStage.noConfusion, rfl⟩

/-- The end of a handler is all that a `handle` tells the breaker. -/
theorem entry_handle (worker : Nat) (ok : Bool) :
    (Engine.step managers s.engine (.handle worker ok)).breaker.entry bindingId =
      if s.handling worker = some bindingId then
        if ok then ⟨.closed, 0, none⟩ else afterFailure s.engine.now (s.entry bindingId)
      else s.entry bindingId := by
  obtain ⟨handled, hhandling, hbreaker⟩ | ⟨hhandling, hbreaker⟩ :=
    s.breaker_handle managers worker ok
  · rw [hbreaker, hhandling, entry_report]
    simp only [Option.some.injEq]
    rfl
  · rw [hbreaker, hhandling, if_neg (Option.some_ne_none _).symm]
    rfl

omit [Inhabited R] in
theorem entry_processBinding (other : String) :
    (s.processBinding other).entry bindingId = s.entry bindingId ∨
      (s.processBinding other).entry bindingId =
        InMemoryBindingBreaker.refresh s.engine.now (s.entry bindingId) := by
  have hentry := entry_isOpen s.engine.breaker s.engine.now other bindingId
  have hsame : (s.processBinding other).entry bindingId =
      (s.engine.breaker.isOpen s.engine.now other).2.entry bindingId := by
    unfold processBinding
    dsimp only
    split
    · rfl
    · rfl
  rw [hsame, hentry]
  by_cases hother : bindingId = other
  · subst hother
    exact .inr (if_pos rfl)
  · exact .inl (if_neg hother)

omit [Inhabited R] in
/-- A poll that ends reports to the breaker what became of its cursors. -/
theorem entry_resolve (poll : Nat) (cursors : Option (Option Nat × Option Nat)) :
    (s.resolve managers poll cursors).entry bindingId =
      if s.polls.get? poll = some bindingId then
        if cursors.isSome then ⟨.closed, 0, none⟩
        else afterFailure s.engine.now (s.entry bindingId)
      else s.entry bindingId := by
  unfold resolve
  cases hpoll : s.polls.get? poll with
  | none => rfl
  | some other =>
    simp only [Option.some.injEq]
    cases cursors with
    | none => exact entry_report s.engine.breaker s.engine.now other bindingId false
    | some cursors =>
      obtain ⟨issues, notes⟩ := cursors
      obtain ⟨hbreaker, -⟩ := enqueueBackfill_same managers s.engine other
        (resolveSince s.engine.now issues notes)
      have hreport := entry_report (s.engine.enqueueBackfill managers other
        (resolveSince s.engine.now issues notes)).breaker s.engine.now other bindingId true
      rw [hbreaker] at hreport
      unfold entry
      dsimp only
      rw [hbreaker]
      exact hreport

/-- The step reports a success of the binding, which without a request is none of GitLab's. -/
def Succeeds : Action R → Prop
  | .withoutRequest worker ok => ok = true ∧ s.handling worker = some bindingId
  | .resolve poll cursors => cursors.isSome ∧ s.polls.get? poll = some bindingId
  | _ => False

instance (a : Action R) : Decidable (s.Succeeds bindingId a) := by
  cases a <;> unfold Succeeds <;> infer_instance

/-- A success of the binding is only reported before any failure of it was. -/
def NoReset (a : Action R) : Prop := s.Succeeds bindingId a → s.reported.count bindingId = 0

instance (a : Action R) : Decidable (s.NoReset bindingId a) := inferInstanceAs (Decidable (_ → _))

/-- The step lowers no count of the binding and closes no breaker that is not closed. -/
def Keeps (s' : BackfillScheduler R) : Prop :=
  (s.entry bindingId).failures ≤ (s'.entry bindingId).failures ∧
    ((s'.entry bindingId).state = .closed → (s.entry bindingId).state = .closed)

instance (s' : BackfillScheduler R) : Decidable (s.Keeps bindingId s') :=
  inferInstanceAs (Decidable (_ ∧ _))

/-- What a step can do to the entry of the binding and to the failures recorded for it. -/
inductive Report (s' : BackfillScheduler R) (a : Action R) : Prop
  | quiet (hquiet : ¬ s.Succeeds bindingId a)
      (hrequests : s'.requestFailures.count bindingId = s.requestFailures.count bindingId)
      (hreported : s'.reported.count bindingId = s.reported.count bindingId)
      (hentry : s'.entry bindingId = s.entry bindingId ∨
        s'.entry bindingId =
          InMemoryBindingBreaker.refresh s.engine.now (s.entry bindingId))
  | failure (hquiet : ¬ s.Succeeds bindingId a)
      (hrequests : s'.requestFailures.count bindingId ≤ s.requestFailures.count bindingId + 1)
      (hreported : s'.reported.count bindingId = s.reported.count bindingId + 1)
      (hentry : s'.entry bindingId = afterFailure s.engine.now (s.entry bindingId))
  | success (hsucceeds : s.Succeeds bindingId a)
      (hrequests : s'.requestFailures.count bindingId = s.requestFailures.count bindingId)
      (hreported : s'.reported.count bindingId = s.reported.count bindingId)
      (hentry : s'.entry bindingId = ⟨.closed, 0, none⟩)

theorem count_handled (handled : Option String) (bindings : List String) :
    (bindings ++ handled.toList).count bindingId =
      bindings.count bindingId + if handled = some bindingId then 1 else 0 := by
  rw [List.count_append]
  cases handled with
  | none => rfl
  | some handled =>
    by_cases hhandled : handled = bindingId
    · simp [hhandled]
    · simp [hhandled]

theorem step_report (a : Action R) : s.Report bindingId (s.step managers a) a := by
  cases a with
  | engine a => exact .quiet id rfl rfl (entry_inProcess managers s.engine a.2 bindingId)
  | processBinding other =>
    have hsame : (s.processBinding other).requestFailures = s.requestFailures ∧
        (s.processBinding other).reported = s.reported := by
      unfold processBinding
      dsimp only
      split
      · exact ⟨rfl, rfl⟩
      · exact ⟨rfl, rfl⟩
    exact .quiet id (congrArg (List.count bindingId) hsame.1)
      (congrArg (List.count bindingId) hsame.2) (s.entry_processBinding bindingId other)
  | requestFailed worker =>
    have hentry := s.entry_handle managers bindingId worker false
    have hrequests := count_handled bindingId (s.handling worker) s.requestFailures
    have hreported := count_handled bindingId (s.handling worker) s.reported
    by_cases hhandling : s.handling worker = some bindingId
    · rw [if_pos hhandling, if_neg Bool.false_ne_true] at hentry
      rw [if_pos hhandling] at hrequests hreported
      exact .failure id (Nat.le_of_eq hrequests) hreported hentry
    · rw [if_neg hhandling] at hentry hrequests hreported
      exact .quiet id hrequests hreported (.inl hentry)
  | withoutRequest worker ok =>
    have hentry := s.entry_handle managers bindingId worker ok
    have hreported := count_handled bindingId (s.handling worker) s.reported
    by_cases hhandling : s.handling worker = some bindingId
    · rw [if_pos hhandling] at hentry hreported
      cases ok with
      | true => exact .success ⟨rfl, hhandling⟩ rfl rfl hentry
      | false => exact .failure (fun h => Bool.false_ne_true h.1) (Nat.le_succ _) hreported hentry
    · rw [if_neg hhandling] at hentry hreported
      refine .quiet (fun h => hhandling h.2) rfl ?_ (.inl hentry)
      cases ok with
      | true => rfl
      | false => exact hreported
  | resolve poll cursors =>
    have hentry := s.entry_resolve managers bindingId poll cursors
    have hrequests : (s.resolve managers poll cursors).requestFailures = s.requestFailures := by
      unfold resolve
      cases s.polls.get? poll with
      | none => rfl
      | some other =>
        cases cursors with
        | none => rfl
        | some cursors => rfl
    have hreported : (s.resolve managers poll cursors).reported =
        if cursors.isSome then s.reported else s.reported ++ (s.polls.get? poll).toList := by
      unfold resolve
      cases s.polls.get? poll with
      | none => simp
      | some other =>
        cases cursors with
        | none => rfl
        | some cursors => rfl
    have hcount := count_handled bindingId (s.polls.get? poll) s.reported
    replace hrequests := congrArg (List.count bindingId) hrequests
    replace hreported := congrArg (List.count bindingId) hreported
    by_cases hpoll : s.polls.get? poll = some bindingId
    · rw [if_pos hpoll] at hentry hcount
      by_cases hcursors : cursors.isSome = true
      · rw [if_pos hcursors] at hentry hreported
        exact .success ⟨hcursors, hpoll⟩ hrequests hreported hentry
      · rw [if_neg hcursors] at hentry hreported
        exact .failure (fun h => hcursors h.1) (hrequests ▸ Nat.le_succ _)
          (hreported.trans hcount) hentry
    · rw [if_neg hpoll] at hentry hcount
      refine .quiet (fun h => hpoll h.2) hrequests (hreported.trans ?_) (.inl hentry)
      by_cases hcursors : cursors.isSome = true
      · rw [if_pos hcursors]
      · rw [if_neg hcursors]
        exact hcount

/-- The entry of the binding tells every failure that was recorded for it. -/
structure Tallied : Prop where
  unused : s.reported.count bindingId = 0 → s.entry bindingId = ⟨.closed, 0, none⟩
  counts : Counts (s.reported.count bindingId) (s.entry bindingId)
  atMost : (s.entry bindingId).failures ≤ failureThreshold
  requests : s.requestFailures.count bindingId ≤ s.reported.count bindingId

variable {bindingId}

omit [Inhabited R] in
theorem tallied_of_new (hnew : s.engine.breaker = .new) (hrequests : s.requestFailures = [])
    (hreported : s.reported = []) : s.Tallied bindingId := by
  have hentry : s.entry bindingId = ⟨.closed, 0, none⟩ := by
    unfold entry
    rw [hnew]
    rfl
  constructor
  · exact fun _ => hentry
  · rw [hentry, hreported]
    exact counts_closed_iff.mpr rfl
  · rw [hentry]
    exact Nat.zero_le _
  · exact Nat.le_of_eq (by rw [hrequests, hreported])

/-- A step that reports no success after a failure leaves the tally complete, and takes nothing from
it. -/
theorem tallied_step {a : Action R} (h : s.Tallied bindingId) (hreset : s.NoReset bindingId a) :
    (s.step managers a).Tallied bindingId ∧ s.Keeps bindingId (s.step managers a) := by
  cases s.step_report managers bindingId a with
  | quiet _ hrequests hreported hentry =>
    rw [Keeps]
    obtain hentry | hentry := hentry
    · refine ⟨⟨?_, ?_, ?_, ?_⟩, ?_⟩
      · rw [hreported, hentry]
        exact h.unused
      · rw [hreported, hentry]
        exact h.counts
      · rw [hentry]
        exact h.atMost
      · rw [hrequests, hreported]
        exact h.requests
      · rw [hentry]
        exact ⟨Nat.le_refl _, id⟩
    · refine ⟨⟨?_, ?_, ?_, ?_⟩, ?_⟩
      · rw [hreported, hentry]
        intro hnone
        rw [h.unused hnone]
        exact refresh_of_closed rfl
      · rw [hreported, hentry]
        exact h.counts.refresh
      · rw [hentry, failures_refresh]
        exact h.atMost
      · rw [hrequests, hreported]
        exact h.requests
      · rw [hentry, failures_refresh]
        exact ⟨Nat.le_refl _, state_refresh_closed_iff.mp⟩
  | failure _ hrequests hreported hentry =>
    rw [Keeps]
    refine ⟨⟨?_, ?_, ?_, ?_⟩, ?_⟩
    · rw [hreported]
      exact fun hnone => absurd hnone (Nat.succ_ne_zero _)
    · rw [hreported, hentry]
      exact h.counts.afterFailure
    · rw [hentry]
      exact (failures_afterFailure h.counts h.atMost).2
    · rw [hreported]
      exact Nat.le_trans hrequests (Nat.succ_le_succ h.requests)
    · rw [hentry]
      exact ⟨(failures_afterFailure h.counts h.atMost).1, closed_of_afterFailure⟩
  | success hsucceeds hrequests hreported hentry =>
    have hnone := hreset hsucceeds
    have hbefore := h.unused hnone
    rw [Keeps]
    refine ⟨⟨?_, ?_, ?_, ?_⟩, ?_⟩
    · exact fun _ => hentry
    · rw [hreported, hnone, hentry]
      exact counts_closed_iff.mpr rfl
    · rw [hentry]
      exact Nat.zero_le _
    · rw [hrequests, hreported]
      exact h.requests
    · rw [hentry, hbefore]
      exact ⟨Nat.le_refl _, id⟩

/-- A success after a failure loses the count, or closes the breaker. -/
theorem not_keeps_of_reset {a : Action R} (h : s.Tallied bindingId)
    (hreset : ¬ s.NoReset bindingId a) : ¬ s.Keeps bindingId (s.step managers a) := by
  obtain ⟨hsucceeds, hsome⟩ := Classical.not_imp.mp hreset
  cases s.step_report managers bindingId a with
  | quiet hquiet => exact absurd hsucceeds hquiet
  | failure hquiet => exact absurd hsucceeds hquiet
  | success _ _ _ hentry =>
    rw [Keeps, hentry]
    rintro ⟨hcount, hclosed⟩
    obtain ⟨hcounted, -⟩ := h.counts (hclosed rfl)
    dsimp only at hcount
    omega

/-- When the failure that is at least the fifth is recorded, the breaker is open. -/
theorem isOpen_requestFailed {worker : Nat} (h : s.Tallied bindingId)
    (hhandling : s.handling worker = some bindingId)
    (hfifth : failureThreshold ≤ s.requestFailures.count bindingId + 1) :
    let s' := s.step managers (.requestFailed worker)
    (s'.engine.breaker.isOpen s.engine.now bindingId).1 = true := by
  have hentry := s.entry_handle managers bindingId worker false
  rw [if_pos hhandling, if_neg Bool.false_ne_true] at hentry
  have hopen := open_afterFailure s.engine.now h.counts
    (Nat.le_trans hfifth (Nat.succ_le_succ h.requests))
  rw [← hentry] at hopen
  exact decide_eq_true hopen

end BackfillScheduler

/-- Every handler of the binding that is at least the fifth to fail after a request finds the breaker
open when it has failed. -/
def OpensAtFifth (managers : Managers R) (bindingId : String) (s : BackfillScheduler R)
    (acts : List (Action R)) : Prop :=
  ∀ before worker, before ++ [.requestFailed worker] <+: acts →
    let s₁ := exec (BackfillScheduler.step managers) s before
    s₁.handling worker = some bindingId →
    failureThreshold ≤ s₁.requestFailures.count bindingId + 1 →
      ((s₁.step managers (.requestFailed worker)).engine.breaker.isOpen s₁.engine.now bindingId).1 =
        true

/-- No step lowers the count of a binding's failures or closes its breaker. -/
def NeverResets (managers : Managers R) (bindingId : String) (s : BackfillScheduler R)
    (acts : List (Action R)) : Prop :=
  Along (BackfillScheduler.step managers)
    (fun s a => s.Keeps bindingId (s.step managers a)) s acts

/-- The fifth failed request opens the breaker and no step resets it, just when every success is
reported before the first failure. -/
theorem breaker_trips_iff (managers : Managers R) (bindingId : String) {s : BackfillScheduler R}
    (hnew : s.engine.breaker = .new) (hrequests : s.requestFailures = []) (hreported : s.reported = [])
    (acts : List (Action R)) :
    (OpensAtFifth managers bindingId s acts ∧ NeverResets managers bindingId s acts) ↔
      Along (BackfillScheduler.step managers) (fun s a => s.NoReset bindingId a) s acts := by
  have hstart : s.Tallied bindingId := s.tallied_of_new hnew hrequests hreported
  constructor
  · rintro ⟨-, hkeeps⟩
    clear hnew hrequests hreported
    induction acts generalizing s with
    | nil => trivial
    | cons a acts ih =>
      have hreset : s.NoReset bindingId a := by
        by_contra hreset
        exact s.not_keeps_of_reset managers hstart hreset hkeeps.1
      exact ⟨hreset, ih (s.tallied_step managers hstart hreset).1 hkeeps.2⟩
  · intro hreset
    have htallied : ∀ as, as <+: acts →
        (exec (BackfillScheduler.step managers) s as).Tallied bindingId := by
      intro as hpre
      have halong := along_of_initial hpre hreset
      exact exec_invariant (I := fun s : BackfillScheduler R => s.Tallied bindingId)
        (fun s a h hreset => (s.tallied_step managers h hreset).1) hstart halong
    constructor
    · intro before worker hpre s₁ hhandling hfifth
      exact s₁.isOpen_requestFailed managers (htallied before ((List.prefix_append _ _).trans hpre))
        hhandling hfifth
    · clear htallied hnew hrequests hreported
      unfold NeverResets
      induction acts generalizing s with
      | nil => trivial
      | cons a acts ih =>
        obtain ⟨hnext, hkeeps⟩ := s.tallied_step managers hstart hreset.1
        exact ⟨hkeeps, ih hnext hreset.2⟩

/-- A process that has just started, with nothing in its queue. -/
def BackfillScheduler.init : BackfillScheduler R where
  engine := { SyncEngine.init with up := true }
  polls := .empty
  requestFailures := []
  reported := []

/-- Two of the registered managers; the second makes no request in a backfill. -/
def sweeping : Managers Unit :=
  (OrderedMap.empty.set "issues" ⟨fun _ => none⟩).set "pipeline" ⟨fun _ => none⟩

/-- One tick and its two sweeps: the issues fail at GitLab, the pipelines have nothing to do. -/
def failingTick (k : Nat) : List (Action Unit) :=
  [.processBinding "b", .resolve k (some (none, none)),
    .engine ⟨.begin (2 * k), trivial⟩, .engine ⟨.load (2 * k) none, trivial⟩,
    .requestFailed (2 * k), .engine ⟨.resume (2 * k), trivial⟩,
    .engine ⟨.begin (2 * k + 1), trivial⟩, .engine ⟨.load (2 * k + 1) none, trivial⟩,
    .withoutRequest (2 * k + 1) true, .engine ⟨.resume (2 * k + 1), trivial⟩]

theorem breaker_trips_after_cursors : (OpensAtFifth sweeping "b" .init
    [.processBinding "b", .resolve 0 (some (none, none))] ∧ NeverResets sweeping "b" .init
      [.processBinding "b", .resolve 0 (some (none, none))]) ↔
    Along (BackfillScheduler.step sweeping) (fun s a => s.NoReset "b" a) .init
      [.processBinding "b", .resolve 0 (some (none, none))] :=
  breaker_trips_iff sweeping "b" rfl rfl rfl _

/-- Five sweeps of the issues fail in a row, each in a tick of its own, and the breaker stays
closed. -/
theorem failing_ticks_stay_closed : ¬ ∀ acts, OpensAtFifth sweeping "b" .init acts ∧
    NeverResets sweeping "b" .init acts := by
  intro h
  have hopens := (h ((List.range 5).flatMap failingTick)).1
  have hfifth := hopens ((List.range 4).flatMap failingTick ++ (failingTick 4).take 4) 8
    ⟨(failingTick 4).drop 5, rfl⟩ (by decide +kernel) (by decide +kernel)
  revert hfifth
  decide +kernel

end HulyGitlab.Backfill
