import HulyGitlab.Lib.Transition
import Mathlib.Algebra.BigOperators.Group.List.Basic
import Mathlib.Algebra.Ring.Nat
import Mathlib.Data.List.Perm.Basic

/-!
# Work that makes work

A pool of tasks. A step takes any task out and puts in the tasks that follow
from it, under a choice of the environment that may be another one each time.
Where every task has a budget that pays for what follows from it, the budget of
the first task bounds the tasks that are ever put in and ever taken out.
-/

namespace HulyGitlab

/-- The tasks that wait, and how many were put in and taken out so far. -/
structure WorkPool (T : Type*) where
  waiting : List T
  added : Nat
  taken : Nat

namespace WorkPool

variable {T C : Type*}

def start (t : T) : WorkPool T := ⟨[t], 0, 0⟩

/-- Take out the task at an index, under a choice. -/
def take (follow : C → T → List T) (s : WorkPool T) (a : Nat × C) : WorkPool T :=
  match s.waiting[a.1]? with
  | none => s
  | some t =>
      ⟨s.waiting.eraseIdx a.1 ++ follow a.2 t, s.added + (follow a.2 t).length, s.taken + 1⟩

/-- The budget of a task pays for each task that follows from it, and for its budget. -/
structure Pays (follow : C → T → List T) (Ok : T → Prop) (budget : T → Nat) : Prop where
  ok : ∀ c t, Ok t → ∀ t' ∈ follow c t, Ok t'
  pays : ∀ c t, Ok t → ((follow c t).map fun t' => budget t' + 1).sum ≤ budget t

/-- What was spent and what may still be spent stay within the budget. -/
structure Within (Ok : T → Prop) (budget : T → Nat) (limit : Nat) (s : WorkPool T) : Prop where
  ok : ∀ t ∈ s.waiting, Ok t
  spent : s.added + (s.waiting.map budget).sum ≤ limit
  counted : s.taken + s.waiting.length = s.added + 1

variable {follow : C → T → List T} {Ok : T → Prop} {budget : T → Nat} {limit : Nat}

theorem sum_map_succ (ts : List T) :
    (ts.map fun t => budget t + 1).sum = (ts.map budget).sum + ts.length := by
  induction ts with
  | nil => rfl
  | cons t ts ih =>
    simp only [List.map_cons, List.sum_cons, List.length_cons, ih]
    omega

theorem Within.take (hpays : Pays follow Ok budget) {s : WorkPool T}
    (h : Within Ok budget limit s) (a : Nat × C) : Within Ok budget limit (s.take follow a) := by
  unfold WorkPool.take
  cases hget : s.waiting[a.1]? with
  | none => exact h
  | some t =>
    obtain ⟨hlt, rfl⟩ := List.getElem?_eq_some_iff.mp hget
    have hperm : (s.waiting[a.1] :: s.waiting.eraseIdx a.1).Perm s.waiting :=
      List.getElem_cons_eraseIdx_perm hlt
    have hok := h.ok _ (List.getElem_mem hlt)
    have hpaid := hpays.pays a.2 _ hok
    have hsum := (hperm.map budget).sum_eq
    have hlen := hperm.length_eq
    rw [sum_map_succ] at hpaid
    rw [List.map_cons, List.sum_cons] at hsum
    rw [List.length_cons] at hlen
    have hspent := h.spent
    have hcounted := h.counted
    refine ⟨fun t' ht' => ?_, ?_, ?_⟩
    · obtain hold | hnew := List.mem_append.mp ht'
      · exact h.ok t' ((List.eraseIdx_subset) hold)
      · exact hpays.ok a.2 _ hok t' hnew
    · dsimp only
      rw [List.map_append, List.sum_append]
      omega
    · dsimp only
      rw [List.length_append]
      omega

/-- However the tasks are taken, no more are put in than the first one has budget for. -/
theorem bounded (hpays : Pays follow Ok budget) {t : T} (ht : Ok t) (as : List (Nat × C)) :
    (Transition.exec (take follow) (start t) as).added ≤ budget t ∧
      (Transition.exec (take follow) (start t) as).taken ≤ budget t + 1 := by
  have hwithin : Within Ok budget (budget t) (Transition.exec (take follow) (start t) as) := by
    refine Transition.exec_invariant' (fun s a hs => hs.take hpays a) ⟨?_, ?_, rfl⟩ as
    · intro t' ht'
      rw [List.mem_singleton.mp ht']
      exact ht
    · simp [start]
  have hspent := hwithin.spent
  have hcounted := hwithin.counted
  constructor
  · omega
  · omega

end WorkPool

end HulyGitlab
