import HulyGitlab.Lib.Transition
import Mathlib.Order.Defs.LinearOrder
import Mathlib.Data.List.MinMax

/-!
# Last-writer-wins replicas

A replica receives versions of one object, each with a stamp, in any order
and with repetitions. It takes a version unless its own clock is ahead of the
stamp. The clock may lag behind what was taken, so an older version may still
get in later; the run theorem says exactly when that matters.
-/

namespace HulyGitlab

/-- A replica with its laws. `Shows s v` says that the state shows the content
of the version, `Alike s u v` that two versions have the same content. -/
structure Replica (S V T : Type*) [LinearOrder T] where
  deliver : S → V → S
  stamp : V → T
  clock : S → Option T
  Shows : S → V → Prop
  /-- The version has a form the replica can take. -/
  Usable : S → V → Prop
  Alike : S → V → V → Prop
  Inv : S → Prop
  inv_deliver : ∀ {s} v, Inv s → Inv (deliver s v)
  shows_of_accepted : ∀ {s v}, Inv s → Usable s v → (∀ c, clock s = some c → c ≤ stamp v) →
    Shows (deliver s v) v
  shows_of_rejected : ∀ {s u v}, Inv s → Shows s u →
    (¬ Usable s v ∨ ∃ c, clock s = some c ∧ stamp v < c) → Shows (deliver s v) u
  clock_deliver : ∀ {s v c}, Inv s → clock (deliver s v) = some c →
    clock s = some c ∨ c = stamp v
  usable_of_shows : ∀ {s v}, Shows s v → Usable s v
  usable_deliver : ∀ {s} u v, Inv s → (Usable (deliver s v) u ↔ Usable s u)
  alike_of_shows : ∀ {s u v}, Shows s u → Shows s v → Alike s u v
  shows_of_alike : ∀ {s u v}, Alike s u v → Shows s u → Shows s v
  alike_deliver : ∀ {s} w u v, Inv s → (Alike (deliver s w) u v ↔ Alike s u v)

namespace Replica

variable {S V T : Type*} [LinearOrder T] (R : Replica S V T)

/-- A delivery, together with the versions delivered so far. -/
def step (s : S × List V) (v : V) : S × List V := (R.deliver s.1 v, v :: s.2)

/-- No delivered version is newer. -/
def Newest (delivered : List V) (v : V) : Prop := ∀ u ∈ delivered, R.stamp u ≤ R.stamp v

/-- The state shows the newest version delivered so far. -/
def ShowsNewest (s : S × List V) : Prop := ∀ v ∈ s.2, R.Newest s.2 v → R.Shows s.1 v

/-- A version that is not outdated can be taken; an outdated one is turned
away, by its form or by the clock, or brings nothing the state does not show. -/
def Timely (s : S × List V) (v : V) : Prop :=
  (R.Newest s.2 v → R.Usable s.1 v) ∧
    (¬ R.Newest s.2 v →
      ¬ R.Usable s.1 v ∨ R.Shows s.1 v ∨ ∃ c, R.clock s.1 = some c ∧ R.stamp v < c)

variable {R}

theorem exists_newest {delivered : List V} (h : delivered ≠ []) :
    ∃ v ∈ delivered, R.Newest delivered v := by
  induction delivered with
  | nil => exact absurd rfl h
  | cons v rest ih =>
    by_cases hrest : rest = []
    · subst hrest
      exact ⟨v, List.mem_cons_self, fun u hu => by
        rw [List.mem_singleton.mp hu]⟩
    · obtain ⟨m, hm, hnew⟩ := ih hrest
      by_cases hle : R.stamp v ≤ R.stamp m
      · refine ⟨m, List.mem_cons_of_mem v hm, fun u hu => ?_⟩
        obtain rfl | hu := List.mem_cons.mp hu
        · exact hle
        · exact hnew u hu
      · refine ⟨v, List.mem_cons_self, fun u hu => ?_⟩
        obtain rfl | hu := List.mem_cons.mp hu
        · exact le_refl _
        · exact le_trans (hnew u hu) (le_of_lt (not_le.mp hle))

/-- A version that nothing delivered is newer than stays ahead of the clock. -/
def ClockBelow (R : Replica S V T) (s : S × List V) (pending : List V) : Prop :=
  ∀ c, R.clock s.1 = some c → ∀ v ∈ pending, R.Newest s.2 v → c ≤ R.stamp v

theorem clockBelow_step {s : S × List V} {v : V} {pending : List V} (hI : R.Inv s.1)
    (h : R.ClockBelow s (v :: pending)) : R.ClockBelow (R.step s v) pending := by
  intro c hc u hu hnew
  obtain hold | rfl := R.clock_deliver hI hc
  · exact h c hold u (List.mem_cons_of_mem v hu) fun x hx =>
      hnew x (List.mem_cons_of_mem v hx)
  · exact hnew v List.mem_cons_self

/-- After a delivery the newest version is shown exactly when the delivery was timely. -/
theorem showsNewest_step {s : S × List V} {v : V} {pending : List V} (hI : R.Inv s.1)
    (hshow : R.ShowsNewest s) (hclock : R.ClockBelow s (v :: pending))
    (hdist : ∀ u ∈ v :: s.2, ∀ w ∈ v :: s.2, R.stamp u = R.stamp w → u = w) :
    R.ShowsNewest (R.step s v) ↔ R.Timely s v := by
  by_cases hnew : R.Newest s.2 v
  · have honly : ∀ u ∈ v :: s.2, R.Newest (v :: s.2) u → u = v := by
      intro u hu hunew
      apply hdist u hu v List.mem_cons_self
      apply le_antisymm _ (hunew v List.mem_cons_self)
      obtain rfl | hu := List.mem_cons.mp hu
      · exact le_refl _
      · exact hnew u hu
    have hself : R.Newest (v :: s.2) v := by
      intro u hu
      obtain rfl | hu := List.mem_cons.mp hu
      · exact le_refl _
      · exact hnew u hu
    constructor
    · intro h
      have hv : R.Shows (R.deliver s.1 v) v := h v List.mem_cons_self hself
      exact ⟨fun _ => (R.usable_deliver v v hI).mp (R.usable_of_shows hv),
        fun hnot => absurd hnew hnot⟩
    · intro h u hu hunew
      rw [honly u hu hunew]
      exact R.shows_of_accepted hI (h.1 hnew) fun c hc => hclock c hc v List.mem_cons_self hnew
  · have hne : s.2 ≠ [] := by
      rintro hnil
      exact hnew (by simp [Newest, hnil])
    -- the newest version stays the newest one, and the state shows it
    obtain ⟨m, hm, hmnew⟩ := exists_newest (R := R) hne
    have hvm : R.stamp v < R.stamp m := by
      by_contra hlt
      exact hnew fun u hu => le_trans (hmnew u hu) (not_lt.mp hlt)
    have hmself : R.Newest (v :: s.2) m := by
      intro u hu
      obtain rfl | hu := List.mem_cons.mp hu
      · exact le_of_lt hvm
      · exact hmnew u hu
    have hshown : R.Shows s.1 m := hshow m hm hmnew
    have honly : ∀ u ∈ v :: s.2, R.Newest (v :: s.2) u → u = m := by
      intro u hu hunew
      apply hdist u hu m (List.mem_cons_of_mem v hm)
      exact le_antisymm (hmself u hu) (hunew m (List.mem_cons_of_mem v hm))
    constructor
    · intro h
      have hkeep : R.Shows (R.deliver s.1 v) m := h m (List.mem_cons_of_mem v hm) hmself
      refine ⟨fun h => absurd h hnew, fun _ => ?_⟩
      by_cases hu : R.Usable s.1 v
      · by_cases hc : ∃ c, R.clock s.1 = some c ∧ R.stamp v < c
        · exact .inr (.inr hc)
        · have hacc : R.Shows (R.deliver s.1 v) v := R.shows_of_accepted hI hu fun c hc' =>
            not_lt.mp fun hlt => hc ⟨c, hc', hlt⟩
          have hsame := (R.alike_deliver v m v hI).mp (R.alike_of_shows hkeep hacc)
          exact .inr (.inl (R.shows_of_alike hsame hshown))
      · exact .inl hu
    · intro h u hu hunew
      rw [honly u hu hunew]
      change R.Shows (R.deliver s.1 v) m
      by_cases hc : ¬ R.Usable s.1 v ∨ ∃ c, R.clock s.1 = some c ∧ R.stamp v < c
      · exact R.shows_of_rejected hI hshown hc
      · obtain hu | hv | hc' := h.2 hnew
        · exact absurd (.inl hu) hc
        · have hacc : R.Shows (R.deliver s.1 v) v :=
            R.shows_of_accepted hI (R.usable_of_shows hv) fun c hc' =>
              not_lt.mp fun hlt => hc (.inr ⟨c, hc', hlt⟩)
          have hsame := (R.alike_deliver v v m hI).mpr (R.alike_of_shows hv hshown)
          exact R.shows_of_alike hsame hacc
        · exact absurd (.inr hc') hc

theorem throughout_iff_timely_of {s : S × List V} {vs : List V} (hI : R.Inv s.1)
    (hshow : R.ShowsNewest s) (hclock : R.ClockBelow s vs)
    (hdist : ∀ u ∈ vs ++ s.2, ∀ w ∈ vs ++ s.2, R.stamp u = R.stamp w → u = w) :
    Transition.Throughout R.step R.ShowsNewest s vs ↔ Transition.Along R.step R.Timely s vs := by
  induction vs generalizing s with
  | nil => exact ⟨fun _ => trivial, fun _ => hshow⟩
  | cons v vs ih =>
    have hstep : R.ShowsNewest (R.step s v) ↔ R.Timely s v := by
      apply showsNewest_step hI hshow hclock
      intro u hu w hw
      apply hdist u _ w _
      · obtain rfl | hu := List.mem_cons.mp hu
        · exact List.mem_append_left _ List.mem_cons_self
        · exact List.mem_append_right _ hu
      · obtain rfl | hw := List.mem_cons.mp hw
        · exact List.mem_append_left _ List.mem_cons_self
        · exact List.mem_append_right _ hw
    have hrest : R.ShowsNewest (R.step s v) →
        (Transition.Throughout R.step R.ShowsNewest (R.step s v) vs ↔
          Transition.Along R.step R.Timely (R.step s v) vs) := by
      intro h
      apply ih (R.inv_deliver v hI) h (clockBelow_step hI hclock)
      intro u hu w hw
      apply hdist u _ w _
      · simp only [step, List.mem_append, List.mem_cons] at hu ⊢
        tauto
      · simp only [step, List.mem_append, List.mem_cons] at hw ⊢
        tauto
    simp only [Transition.Throughout, Transition.Along]
    constructor
    · rintro ⟨-, h⟩
      have hnow : R.ShowsNewest (R.step s v) := by
        cases vs with
        | nil => exact h
        | cons _ _ => exact h.1
      exact ⟨hstep.mp hnow, (hrest hnow).mp h⟩
    · rintro ⟨ht, h⟩
      exact ⟨hshow, (hrest (hstep.mpr ht)).mpr h⟩

/-- The newest delivered version is shown at every point of a run exactly when
every delivery is timely. -/
theorem throughout_iff_timely {s : S} {vs : List V} (hI : R.Inv s)
    (hclock : ∀ c, R.clock s = some c → ∀ v ∈ vs, c ≤ R.stamp v)
    (hdist : ∀ u ∈ vs, ∀ w ∈ vs, R.stamp u = R.stamp w → u = w) :
    Transition.Throughout R.step R.ShowsNewest (s, []) vs ↔
      Transition.Along R.step R.Timely (s, []) vs := by
  apply throughout_iff_timely_of hI
  · intro v hv
    simp at hv
  · intro c hc v hv _
    exact hclock c hc v hv
  · simpa using hdist

end Replica

end HulyGitlab
