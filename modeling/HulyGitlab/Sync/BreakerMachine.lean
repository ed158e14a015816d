import HulyGitlab.Lib.Transition
import HulyGitlab.Sync.Breaker
import Mathlib.Logic.Function.Basic

/-!
# The documented machine of the breaker

The machine of the class comment moves with the clock; the breaker moves an
open entry only when it is asked about. Both are driven by the same calls.
-/

namespace HulyGitlab.Breaker

/-- The machine of one binding: closed with the failures in a row, open since a time, half-open. -/
inductive Machine
  | closed (failures : Nat)
  | «open» (since : Nat)
  | halfOpen
  deriving DecidableEq

namespace Machine

def state : Machine → BreakerState
  | closed _ => .closed
  | «open» _ => .open
  | halfOpen => .halfOpen

/-- Fifteen minutes after the opening the machine is half-open. -/
def elapse (now : Nat) : Machine → Machine
  | «open» since => if openDurationMs ≤ now - since then halfOpen else «open» since
  | m => m

/-- A success closes a half-open machine and ends a row of failures. -/
def success : Machine → Machine
  | «open» since => «open» since
  | _ => closed 0

/-- The fifth failure in a row opens a closed machine, the first one a half-open machine. -/
def failure (now : Nat) : Machine → Machine
  | closed failures =>
      if failures + 1 = failureThreshold then «open» now else closed (failures + 1)
  | «open» since => «open» since
  | halfOpen => «open» now

end Machine

/-- A call on the breaker, or time passing. -/
inductive Call
  | isOpen (bindingId : String)
  | getState (bindingId : String)
  | recordSuccess (bindingId : String)
  | recordFailure (bindingId : String)
  | tick (ms : Nat)

/-- The breaker and the machines of all bindings, under one clock. -/
structure Pair where
  breaker : InMemoryBindingBreaker
  machines : String → Machine
  now : Nat

namespace Pair

def initial (now : Nat) : Pair := ⟨.new, fun _ => .closed 0, now⟩

def step (p : Pair) : Call → Pair
  | .isOpen bindingId => { p with breaker := (p.breaker.isOpen p.now bindingId).2 }
  | .getState bindingId => { p with breaker := (p.breaker.getState p.now bindingId).2 }
  | .recordSuccess bindingId =>
      { p with
        breaker := p.breaker.recordSuccess p.now bindingId
        machines := Function.update p.machines bindingId (p.machines bindingId).success }
  | .recordFailure bindingId =>
      { p with
        breaker := p.breaker.recordFailure p.now bindingId
        machines :=
          Function.update p.machines bindingId ((p.machines bindingId).failure p.now) }
  | .tick ms =>
      { p with
        now := p.now + ms
        machines := fun bindingId => (p.machines bindingId).elapse (p.now + ms) }

/-- Whoever asks the breaker sees the state of the machine. -/
def Agrees (p : Pair) : Prop :=
  ∀ bindingId, (p.breaker.getState p.now bindingId).1 = (p.machines bindingId).state

/-- The call is no success recorded while the machine of its binding is open. -/
def NoLateSuccess (p : Pair) : Call → Prop
  | .recordSuccess bindingId => (p.machines bindingId).state ≠ .open
  | _ => True

end Pair

/-- An entry that a read shows as the machine. -/
def Matches (now : Nat) (e : BreakerEntry) : Machine → Prop
  | .closed failures => e.state = .closed ∧ e.failures = failures ∧ failures < failureThreshold
  | .open since => e.state = .open ∧ e.openedAt = some since ∧ now - since < openDurationMs
  | .halfOpen => e.state = .halfOpen ∨
      e.state = .open ∧ ∃ since, e.openedAt = some since ∧ openDurationMs ≤ now - since

open InMemoryBindingBreaker (refresh afterFailure)

section Matches

variable {now : Nat} {e : BreakerEntry} {m : Machine}

theorem Matches.refresh_state (h : Matches now e m) : (refresh now e).state = m.state := by
  obtain ⟨state, failures, openedAt⟩ := e
  cases m with
  | closed n =>
      obtain ⟨rfl, -, -⟩ := h
      rfl
  | «open» since =>
      obtain ⟨rfl, rfl, hlt⟩ := h
      simp [refresh, Machine.state, Nat.not_le.mpr hlt]
  | halfOpen =>
      obtain rfl | ⟨rfl, since, rfl, hle⟩ := h
      · rfl
      · simp [refresh, Machine.state, hle]

/-- A read does not change what an entry matches. -/
theorem Matches.refreshed (h : Matches now e m) : Matches now (refresh now e) m := by
  obtain ⟨state, failures, openedAt⟩ := e
  cases m with
  | closed n =>
      obtain ⟨rfl, hfailures, hlt⟩ := h
      exact ⟨rfl, hfailures, hlt⟩
  | «open» since =>
      obtain ⟨rfl, rfl, hlt⟩ := h
      rw [refresh]
      simp only [Nat.not_le.mpr hlt, if_false]
      exact ⟨rfl, rfl, hlt⟩
  | halfOpen => exact Or.inl (h.refresh_state)

theorem Matches.elapse (h : Matches now e m) (ms : Nat) :
    Matches (now + ms) e (m.elapse (now + ms)) := by
  cases m with
  | closed n => exact h
  | «open» since =>
      obtain ⟨hstate, hopened, hlt⟩ := h
      rw [Machine.elapse]
      by_cases hover : openDurationMs ≤ now + ms - since
      · rw [if_pos hover]
        exact Or.inr ⟨hstate, since, hopened, hover⟩
      · rw [if_neg hover]
        exact ⟨hstate, hopened, Nat.not_le.mp hover⟩
  | halfOpen =>
      obtain hstate | ⟨hstate, since, hopened, hle⟩ := h
      · exact Or.inl hstate
      · exact Or.inr ⟨hstate, since, hopened, by omega⟩

theorem Matches.success (h : m.state ≠ .open) : Matches now ⟨.closed, 0, none⟩ m.success := by
  cases m with
  | «open» since => exact absurd rfl h
  | closed n => exact ⟨rfl, rfl, by decide⟩
  | halfOpen => exact ⟨rfl, rfl, by decide⟩

theorem Matches.failure (h : Matches now e m) : Matches now (afterFailure now e) (m.failure now) := by
  have hstate := h.refresh_state
  have hkept := h.refreshed
  have hduration : 0 < openDurationMs := by decide
  rw [afterFailure, hstate]
  cases m with
  | closed n =>
      obtain ⟨hclosed, hfailures, hlt⟩ := hkept
      simp only [Machine.state, Machine.failure]
      rw [hfailures]
      by_cases hfifth : n + 1 = failureThreshold
      · rw [if_pos (Nat.le_of_eq hfifth.symm), if_pos hfifth]
        exact ⟨rfl, rfl, by omega⟩
      · rw [if_neg (by omega), if_neg hfifth]
        exact ⟨hclosed, rfl, by omega⟩
  | «open» since => exact hkept
  | halfOpen => exact ⟨rfl, rfl, by omega⟩

end Matches

namespace Pair

/-- Every entry is what its machine says. -/
def Tracks (p : Pair) : Prop :=
  ∀ bindingId, Matches p.now (p.breaker.entry bindingId) (p.machines bindingId)

variable {p : Pair}

theorem Tracks.agrees (h : p.Tracks) : p.Agrees := fun bindingId => (h bindingId).refresh_state

/-- An entry and its machine are replaced together. -/
theorem Tracks.set (h : p.Tracks) (bindingId : String) {e : BreakerEntry} {m : Machine}
    (hmatch : Matches p.now e m) :
    ({ p with
        breaker := p.breaker.setEntry bindingId e
        machines := Function.update p.machines bindingId m } : Pair).Tracks := by
  intro other
  show Matches p.now ((p.breaker.setEntry bindingId e).entry other)
    (Function.update p.machines bindingId m other)
  rw [InMemoryBindingBreaker.entry_setEntry]
  by_cases hother : other = bindingId
  · subst hother
    rwa [if_pos rfl, Function.update_self]
  · rw [if_neg hother, Function.update_of_ne hother]
    exact h other

/-- A read keeps every machine. -/
theorem Tracks.read (h : p.Tracks) (bindingId : String) :
    ({ p with breaker := (p.breaker.getState p.now bindingId).2 } : Pair).Tracks := by
  have hset := h.set bindingId (h bindingId).refreshed
  rwa [Function.update_eq_self] at hset

/-- Each call is a move of the machine of its binding, unless it is a success while the machine
is open. -/
theorem Tracks.step (h : p.Tracks) (c : Call) (hc : p.NoLateSuccess c) : (p.step c).Tracks := by
  cases c with
  | isOpen bindingId => exact h.read bindingId
  | getState bindingId => exact h.read bindingId
  | recordSuccess bindingId => exact h.set bindingId (Matches.success hc)
  | recordFailure bindingId =>
      rw [Pair.step, InMemoryBindingBreaker.recordFailure_eq]
      exact h.set bindingId (h bindingId).failure
  | tick ms => exact fun bindingId => (h bindingId).elapse ms

/-- Such a success closes the breaker. -/
theorem not_agrees_of_late_success {c : Call} (hc : ¬p.NoLateSuccess c) : ¬(p.step c).Agrees := by
  cases c with
  | recordSuccess bindingId =>
      intro hagrees
      have hopen : (p.machines bindingId).state = .open := not_not.mp hc
      have hseen := hagrees bindingId
      cases hm : p.machines bindingId with
      | closed n => rw [hm] at hopen; cases hopen
      | halfOpen => rw [hm] at hopen; cases hopen
      | «open» since =>
          simp [Pair.step, InMemoryBindingBreaker.recordSuccess, InMemoryBindingBreaker.getState,
            refresh, hm, Machine.success, Machine.state] at hseen
  | _ => exact absurd trivial hc

theorem tracks_initial (now : Nat) : (initial now).Tracks :=
  fun _ => ⟨rfl, rfl, by decide⟩

/-- The breaker shows the documented machine throughout a run exactly when no success is recorded
for a binding whose machine is open. -/
theorem agrees_throughout_iff (now : Nat) (calls : List Call) :
    Transition.Throughout step Agrees (initial now) calls ↔
      Transition.Along step NoLateSuccess (initial now) calls :=
  Transition.throughout_iff_along
    (fun _ c htracks _ hc => ⟨htracks.step c hc, (htracks.step c hc).agrees⟩)
    (fun _ _ _ _ hc => not_agrees_of_late_success hc)
    (tracks_initial now) (tracks_initial now).agrees

/-- Five failures, then the answer of a call admitted before the fifth. -/
def lateSuccess : List Call :=
  List.replicate 5 (.recordFailure "b") ++ [.recordSuccess "b"]

theorem lateSuccess_closes : ¬Transition.Throughout step Agrees (initial 0) lateSuccess := by
  intro hagrees
  have hlast := hagrees.last "b"
  revert hlast
  decide

end Pair

end HulyGitlab.Breaker
