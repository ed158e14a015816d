import HulyGitlab.Sync.EngineDelivery

/-!
# Probes of a half-open breaker

The engine beside a record of the workers whose events were passed to a
manager since the breaker of their binding became half-open. The record ends
when the outcome of an event of the binding is recorded. The scheduler shares
the breaker and may record outcomes of its own at any time.
-/

namespace HulyGitlab.Engine

open Queue Breaker Transition

variable {R : Type*} [Inhabited R] (managers : Managers R)

/-- Whoever asks finds the breaker of the binding half-open. -/
def HalfOpen (s : SyncEngine R) (binding : String) : Prop :=
  (s.breaker.getState s.now binding).1 = .halfOpen

instance (s : SyncEngine R) (binding : String) : Decidable (HalfOpen s binding) :=
  inferInstanceAs (Decidable (_ = _))

/-- A step of the engine, or an outcome the scheduler records. -/
inductive Move (R : Type*)
  | engine (a : Action R)
  | scheduled (binding : String) (ok : Bool)

def applyMove (s : SyncEngine R) : Move R → SyncEngine R
  | .engine a => step managers s a
  | .scheduled binding ok =>
      { s with
        breaker :=
          if ok then s.breaker.recordSuccess s.now binding
          else s.breaker.recordFailure s.now binding }

/-- The worker and the binding of the event that a step passes to a manager. -/
def passedBy (s : SyncEngine R) : Move R → Option (Nat × String)
  | .engine (.load worker _) =>
      match s.dispatches.get? worker with
      | some d => if d.stage = .loading then some (worker, d.entry.event.binding) else none
      | none => none
  | _ => none

/-- The binding of the dispatched event whose outcome a step records. -/
def recordedBy (s : SyncEngine R) : Move R → Option String
  | .engine (.handle worker _) =>
      match s.dispatches.get? worker with
      | some d => if d.stage = .handling then some d.entry.event.binding else none
      | none => none
  | _ => none

/-- The process ends, and its breaker with it. -/
def Move.stops : Move R → Bool
  | .engine .stop => true
  | _ => false

/-- The engine with the workers that were passed to a manager since the breaker of the binding
became half-open; none outside such a time. -/
structure Probing (R : Type*) where
  engine : SyncEngine R
  passed : String → Option (List Nat)

namespace Probing

def initial : Probing R := ⟨.init, fun _ => none⟩

def record (s s' : SyncEngine R) (m : Move R) (binding : String) :
    Option (List Nat) → Option (List Nat)
  | none => if HalfOpen s' binding ∧ recordedBy s m ≠ some binding then some [] else none
  | some workers =>
      if m.stops ∨ recordedBy s m = some binding then none
      else
        match passedBy s m with
        | some (worker, other) => some (if other = binding then workers ++ [worker] else workers)
        | none => some workers

def step (p : Probing R) (m : Move R) : Probing R where
  engine := applyMove managers p.engine m
  passed binding := record p.engine (applyMove managers p.engine m) m binding (p.passed binding)

/-- At most one event of a binding is passed between its breaker becoming half-open and an
outcome. -/
def SingleProbe (p : Probing R) : Prop :=
  ∀ binding workers, p.passed binding = some workers → workers.length ≤ 1

/-- No event is passed to a manager while a handler called since the breaker of its binding became
half-open still runs. -/
def ProbeEnded (p : Probing R) (m : Move R) : Prop :=
  ∀ worker binding workers, passedBy p.engine m = some (worker, binding) →
    p.passed binding = some workers → ∀ other ∈ workers, ∀ d,
      p.engine.dispatches.get? other = some d → d.stage ≠ .handling

/-- The handlers called since then still run. -/
def Running (p : Probing R) : Prop :=
  ∀ binding workers, p.passed binding = some workers → ∀ worker ∈ workers, ∃ d,
    p.engine.dispatches.get? worker = some d ∧ d.stage = .handling ∧
      d.entry.event.binding = binding

variable {managers}

/-- A handler runs until it ends or the process stops. -/
theorem effect_handling {s s' : SyncEngine R} {a : Action R} (h : Effect managers s a s')
    {worker : Nat} {d : Dispatch R} (hd : s.dispatches.get? worker = some d)
    (hstage : d.stage = .handling) :
    s'.dispatches.get? worker = some d ∨ a = .stop ∨ ∃ ok, a = .handle worker ok := by
  have hset : ∀ {other d' e}, s.dispatches.get? other = d' → d' ≠ some d →
      (s.dispatches.set other e).get? worker = some d := by
    intro other d' e hother hne
    rw [OrderedMap.get?_set_of_ne _ ?_, hd]
    rintro rfl
    exact hne (hother.symm.trans hd)
  have hdelete : ∀ {other d'}, s.dispatches.get? other = d' → d' ≠ some d →
      (s.dispatches.delete other).get? worker = some d := by
    intro other d' hother hne
    rw [OrderedMap.get?_delete_of_ne _ ?_, hd]
    rintro rfl
    exact hne (hother.symm.trans hd)
  have hother : ∀ {d' : Dispatch R}, d'.stage ≠ .handling → some d' ≠ some d := by
    rintro d' hne heq
    cases heq
    exact hne hstage
  cases h with
  | beginSkip _ hnone => exact .inl (hdelete hnone (by simp))
  | beginDrop _ hnone => exact .inl (hset hnone (by simp))
  | beginLoad _ hnone => exact .inl (hset hnone (by simp))
  | load hd' hloading => exact .inl (hset hd' (hother (by simp [hloading])))
  | @handleEnd other d' ok hd' =>
      by_cases hsame : other = worker
      · exact .inr (.inr ⟨ok, by rw [hsame]⟩)
      · exact .inl ((OrderedMap.get?_delete_of_ne _ (Ne.symm hsame)).trans hd)
  | @handleRow other d' ok id hd' =>
      by_cases hsame : other = worker
      · exact .inr (.inr ⟨ok, by rw [hsame]⟩)
      · exact .inl ((OrderedMap.get?_set_of_ne _ (Ne.symm hsame) _).trans hd)
  | delete hd' hdeleting =>
      refine .inl (hdelete hd' (hother ?_))
      rcases hdeleting with h | h <;> simp [h]
  | stop => exact .inr (.inl rfl)
  | _ => exact .inl hd

/-- A running handler of another outcome goes on. -/
theorem applyMove_handling {s : SyncEngine R} {m : Move R} {worker : Nat} {d : Dispatch R}
    (hd : s.dispatches.get? worker = some d) (hstage : d.stage = .handling)
    (hstops : m.stops = false) (hrecorded : recordedBy s m ≠ some d.entry.event.binding) :
    (applyMove managers s m).dispatches.get? worker = some d := by
  cases m with
  | scheduled binding ok => exact hd
  | engine a =>
      rcases step_effect managers s a with hsame | heffect
      · rw [applyMove, hsame]
        exact hd
      · rcases effect_handling heffect hd hstage with hkept | rfl | ⟨ok, rfl⟩
        · exact hkept
        · cases hstops
        · exact absurd (by simp [recordedBy, hd, hstage]) hrecorded

omit [Inhabited R] in
theorem passedBy_load {s : SyncEngine R} {m : Move R} {worker : Nat} {binding : String}
    (h : passedBy s m = some (worker, binding)) : ∃ workspaceUuid d,
      m = .engine (.load worker workspaceUuid) ∧ s.dispatches.get? worker = some d ∧
        d.stage = .loading ∧ d.entry.event.binding = binding := by
  cases m with
  | scheduled _ _ => cases h
  | engine a =>
      cases a with
      | load i workspaceUuid =>
          rw [passedBy] at h
          cases hd : s.dispatches.get? i with
          | none => simp [hd] at h
          | some d =>
              simp only [hd, Option.ite_none_right_eq_some, Option.some.injEq, Prod.mk.injEq] at h
              obtain ⟨hstage, rfl, hbinding⟩ := h
              exact ⟨workspaceUuid, d, rfl, hd, hstage, hbinding⟩
      | _ => cases h

/-- The event passed to a manager is handled after the step. -/
theorem passedBy_handling {s : SyncEngine R} {m : Move R} {worker : Nat} {binding : String}
    (h : passedBy s m = some (worker, binding)) : ∃ d,
      (applyMove managers s m).dispatches.get? worker = some d ∧ d.stage = .handling ∧
        d.entry.event.binding = binding := by
  obtain ⟨workspaceUuid, d, rfl, hd, hstage, hbinding⟩ := passedBy_load h
  refine ⟨{ d with stage := .handling }, ?_, rfl, hbinding⟩
  simp [applyMove, Engine.step, SyncEngine.load, hd, hstage]

omit [Inhabited R] in
/-- What a step can do to the record of a binding. -/
theorem record_cases {s s' : SyncEngine R} {m : Move R} {binding : String}
    {passed : Option (List Nat)} {workers : List Nat}
    (h : record s s' m binding passed = some workers) :
    workers = [] ∨ (m.stops = false ∧ recordedBy s m ≠ some binding ∧
      ∃ before, passed = some before ∧ (workers = before ∨
        ∃ worker, passedBy s m = some (worker, binding) ∧ workers = before ++ [worker])) := by
  cases passed with
  | none =>
      rw [record] at h
      split at h
      · exact .inl (Option.some.inj h).symm
      · cases h
  | some before =>
      rw [record] at h
      split at h
      · cases h
      next hgoes =>
        obtain ⟨hstops, hrecorded⟩ := not_or.mp hgoes
        refine .inr ⟨Bool.eq_false_iff.mpr hstops, hrecorded, before, rfl, ?_⟩
        split at h
        next worker other hpassed =>
          have hworkers := Option.some.inj h
          by_cases hother : other = binding
          · rw [if_pos hother] at hworkers
            exact .inr ⟨worker, by rw [hpassed, hother], hworkers.symm⟩
          · rw [if_neg hother] at hworkers
            exact .inl hworkers.symm
        next => exact .inl (Option.some.inj h).symm

/-- Ending a handler ends the record it is in, so the recorded ones run on. -/
theorem running_step {p : Probing R} (h : p.Running) (m : Move R) :
    (step managers p m).Running := by
  intro binding workers hworkers worker hmem
  rcases record_cases hworkers with rfl | ⟨hstops, hrecorded, before, hbefore, hnew⟩
  · exact absurd hmem List.not_mem_nil
  · have hkept : worker ∈ before → ∃ d, (step managers p m).engine.dispatches.get? worker = some d ∧
        d.stage = .handling ∧ d.entry.event.binding = binding := by
      intro hmem
      obtain ⟨d, hd, hstage, hbinding⟩ := h binding before hbefore worker hmem
      exact ⟨d, applyMove_handling hd hstage hstops (hbinding ▸ hrecorded), hstage, hbinding⟩
    rcases hnew with rfl | ⟨new, hpassed, rfl⟩
    · exact hkept hmem
    · rcases List.mem_append.mp hmem with hold | hself
      · exact hkept hold
      · obtain rfl := List.mem_singleton.mp hself
        exact passedBy_handling hpassed

theorem singleProbe_step {p : Probing R} (hrunning : p.Running) (h : p.SingleProbe) {m : Move R}
    (hended : p.ProbeEnded m) : (step managers p m).SingleProbe := by
  intro binding workers hworkers
  rcases record_cases hworkers with rfl | ⟨-, -, before, hbefore, rfl | ⟨new, hpassed, rfl⟩⟩
  · exact Nat.zero_le 1
  · exact h binding workers hbefore
  · have hnone : before = [] := by
      apply List.eq_nil_iff_forall_not_mem.mpr
      intro other hother
      obtain ⟨d, hd, hstage, -⟩ := hrunning binding before hbefore other hother
      exact hended new binding before hpassed hbefore other hother d hd hstage
    rw [hnone]
    exact Nat.le_refl 1

theorem not_singleProbe_step {p : Probing R} {m : Move R} (hended : ¬p.ProbeEnded m) :
    ¬(step managers p m).SingleProbe := by
  intro h
  apply hended
  intro worker binding workers hpassed hworkers other hother
  obtain ⟨workspaceUuid, d, hload, -⟩ := passedBy_load hpassed
  have hnext : (step managers p m).passed binding = some (workers ++ [worker]) := by
    show record _ _ _ binding (p.passed binding) = _
    rw [hworkers, record, if_neg (by simp [hload, Move.stops, recordedBy]), hpassed]
    simp
  have hlength := h binding _ hnext
  have hpos := List.length_pos_of_mem hother
  rw [List.length_append, List.length_singleton] at hlength
  omega

omit [Inhabited R] in
theorem running_initial : (initial : Probing R).Running := fun _ _ h => nomatch h

omit [Inhabited R] in
theorem singleProbe_initial : (initial : Probing R).SingleProbe := fun _ _ h => nomatch h

/-- A half-open breaker admits one probe throughout a run exactly when no event is passed to a
manager while a handler called since then still runs. -/
theorem singleProbe_throughout_iff (managers : Managers R) (moves : List (Move R)) :
    Throughout (step managers) SingleProbe initial moves ↔
      Along (step managers) ProbeEnded initial moves :=
  throughout_iff_along
    (fun _ m hrunning h hended => ⟨running_step hrunning m, singleProbe_step hrunning h hended⟩)
    (fun _ _ _ _ hended => not_singleProbe_step hended) running_initial singleProbe_initial

/-- A Huly edit of an issue whose handler fails. -/
def failedEdit (worker : Nat) : List (Action String) :=
  [.enqueueLocalEvent "b" "issue" "doc" "edit", .begin worker, .load worker none,
    .handle worker false, .resume worker]

/-- Five failures and fifteen minutes later, edits of two other issues. -/
def secondChance : List (Action String) :=
  [.start] ++ (List.range 5).flatMap failedEdit ++ [.tick openDurationMs,
    .enqueueLocalEvent "b" "issue" "first" "edit", .enqueueLocalEvent "b" "issue" "second" "edit",
    .begin 5, .begin 6, .load 5 none, .load 6 none]

def twoProbes : List (Move String) := secondChance.map .engine

/-- Both are passed to the manager before either has an outcome. -/
theorem twoProbes_passed : ¬Throughout (step issueManagers) SingleProbe initial twoProbes := by
  intro h
  have hpassed : (exec (step issueManagers) initial twoProbes).passed "b" = some [5, 6] := by
    decide +kernel
  exact absurd (h.last "b" _ hpassed) (by decide)

end Probing

end HulyGitlab.Engine
