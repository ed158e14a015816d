import HulyGitlab.Lib.OrderedMap

/-!
# The circuit breaker of a binding

`InMemoryBindingBreaker`. Reading the state may itself move an entry from
open to half-open, so every read returns the breaker it leaves behind. Times
are milliseconds of the clock that `Date.now()` reads.
-/

namespace HulyGitlab.Breaker

inductive BreakerState
  | closed
  | «open»
  | halfOpen
  deriving DecidableEq, Inhabited

structure BreakerEntry where
  state : BreakerState
  failures : Nat
  openedAt : Option Nat
  deriving DecidableEq

def failureThreshold : Nat := 5

/-- 15 minutes. -/
def openDurationMs : Nat := 15 * 60 * 1000

/-- `InMemoryBindingBreaker`: an entry for each binding that was ever asked about. -/
structure InMemoryBindingBreaker where
  entries : OrderedMap String BreakerEntry
  deriving DecidableEq

def InMemoryBindingBreaker.new : InMemoryBindingBreaker := ⟨.empty⟩

namespace InMemoryBindingBreaker

/-- The entry of a binding; a binding never asked about is closed. -/
def entry (b : InMemoryBindingBreaker) (bindingId : String) : BreakerEntry :=
  (b.entries.get? bindingId).getD ⟨.closed, 0, none⟩

def setEntry (b : InMemoryBindingBreaker) (bindingId : String) (e : BreakerEntry) : InMemoryBindingBreaker :=
  ⟨b.entries.set bindingId e⟩

/-- An open entry becomes half-open once its time is over. -/
def refresh (now : Nat) (e : BreakerEntry) : BreakerEntry :=
  match e.state, e.openedAt with
  | .open, some openedAt =>
      if openDurationMs ≤ now - openedAt then { e with state := .halfOpen } else e
  | _, _ => e

def getState (b : InMemoryBindingBreaker) (now : Nat) (bindingId : String) : BreakerState × InMemoryBindingBreaker :=
  let e := refresh now (b.entry bindingId)
  (e.state, b.setEntry bindingId e)

def isOpen (b : InMemoryBindingBreaker) (now : Nat) (bindingId : String) : Bool × InMemoryBindingBreaker :=
  let (state, b') := b.getState now bindingId
  (decide (state = .open), b')

def recordSuccess (b : InMemoryBindingBreaker) (_now : Nat) (bindingId : String) : InMemoryBindingBreaker :=
  b.setEntry bindingId ⟨.closed, 0, none⟩

def recordFailure (b : InMemoryBindingBreaker) (now : Nat) (bindingId : String) : InMemoryBindingBreaker :=
  let e := refresh now (b.entry bindingId)
  match e.state with
  | .halfOpen => b.setEntry bindingId ⟨.open, failureThreshold, some now⟩
  | .open => b.setEntry bindingId e
  | .closed =>
      let failures := e.failures + 1
      if failureThreshold ≤ failures then
        b.setEntry bindingId ⟨.open, failures, some now⟩
      else
        b.setEntry bindingId { e with failures := failures }

/-- The entry that `recordFailure` leaves for its binding. -/
def afterFailure (now : Nat) (e : BreakerEntry) : BreakerEntry :=
  match (refresh now e).state with
  | .halfOpen => ⟨.open, failureThreshold, some now⟩
  | .open => refresh now e
  | .closed =>
      let e := refresh now e
      if failureThreshold ≤ e.failures + 1 then ⟨.open, e.failures + 1, some now⟩
      else { e with failures := e.failures + 1 }

/-- A failure writes nothing but the entry of its binding. -/
theorem recordFailure_eq (b : InMemoryBindingBreaker) (now : Nat) (bindingId : String) :
    b.recordFailure now bindingId = b.setEntry bindingId (afterFailure now (b.entry bindingId)) := by
  unfold recordFailure afterFailure
  dsimp only
  cases (refresh now (b.entry bindingId)).state with
  | halfOpen => rfl
  | «open» => rfl
  | closed =>
    dsimp only
    split
    · rfl
    · rfl

@[simp] theorem entry_setEntry (b : InMemoryBindingBreaker) (bindingId other : String) (e : BreakerEntry) :
    (b.setEntry bindingId e).entry other = if other = bindingId then e else b.entry other := by
  simp only [entry, setEntry, OrderedMap.get?_set]
  split <;> rfl

theorem recordSuccess_closed (b : InMemoryBindingBreaker) (now later : Nat) (bindingId : String) :
    ((b.recordSuccess now bindingId).isOpen later bindingId).1 = false := by
  simp [recordSuccess, isOpen, getState, refresh]

end InMemoryBindingBreaker

end HulyGitlab.Breaker
