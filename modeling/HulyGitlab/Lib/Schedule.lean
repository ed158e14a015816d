import HulyGitlab.Lib.Transition

/-!
# Schedules

A schedule is a list of steps without repetition in which each step comes
after the steps it requires. An invariant of the runs along schedules may
speak of the steps already done.
-/

namespace HulyGitlab.Schedule

variable {A S : Type} (requires : A → A → Prop)

/-- No step is repeated, and what a step requires was done before it. -/
inductive Ordered : List A → Prop
  | nil : Ordered []
  | concat {done : List A} {a : A} (h : Ordered done) (hnew : a ∉ done)
      (hreq : ∀ b, requires a b → b ∈ done) : Ordered (done ++ [a])

/-- `a` is done before `b`. -/
def Before (l : List A) (a b : A) : Prop := List.Sublist [a, b] l

instance [DecidableEq A] (l : List A) (a b : A) : Decidable (Before l a b) :=
  inferInstanceAs (Decidable (List.Sublist [a, b] l))

variable {requires}

@[simp] theorem before_nil (a b : A) : ¬ Before [] a b := by simp [Before]

theorem before_concat (l : List A) (a b c : A) :
    Before (l ++ [c]) a b ↔ Before l a b ∨ a ∈ l ∧ b = c := by
  unfold Before
  rw [List.sublist_append_iff]
  constructor
  · rintro ⟨l₁, l₂, heq, h₁, h₂⟩
    obtain rfl | rfl := List.sublist_singleton.mp h₂
    · rw [List.append_nil] at heq
      exact .inl (heq ▸ h₁)
    · have happ : [a] ++ [b] = l₁ ++ [c] := heq
      obtain ⟨rfl, hbc⟩ := List.append_inj' happ rfl
      exact .inr ⟨List.singleton_sublist.mp h₁, List.singleton_inj.mp hbc⟩
  · rintro (h | ⟨ha, rfl⟩)
    · exact ⟨[a, b], [], rfl, h, List.nil_sublist _⟩
    · exact ⟨[a], [b], rfl, List.singleton_sublist.mpr ha, List.Sublist.refl _⟩

theorem Before.left_mem {l : List A} {a b : A} (h : Before l a b) : a ∈ l :=
  h.subset List.mem_cons_self

theorem Before.right_mem {l : List A} {a b : A} (h : Before l a b) : b ∈ l :=
  h.subset (List.mem_cons_of_mem a List.mem_cons_self)

theorem Ordered.mem_of_requires {done : List A} (h : Ordered requires done) {a b : A}
    (ha : a ∈ done) (hab : requires a b) : b ∈ done := by
  induction h with
  | nil => exact absurd ha List.not_mem_nil
  | @concat done c _ _ hreq ih =>
    rw [List.mem_append, List.mem_singleton] at ha ⊢
    obtain ha | rfl := ha
    · exact .inl (ih ha)
    · exact .inl (hreq b hab)

/-- A predicate on the steps done and the state, kept by every step a schedule
can take next, holds at the end of each schedule. -/
theorem Ordered.exec_invariant {step : S → A → S} {I : List A → S → Prop} {s : S}
    (hstep : ∀ done a s, Ordered requires done → a ∉ done → (∀ b, requires a b → b ∈ done) →
      I done s → I (done ++ [a]) (step s a))
    (h0 : I [] s) {sched : List A} (h : Ordered requires sched) :
    I sched (Transition.exec step s sched) := by
  induction h with
  | nil => exact h0
  | concat h hnew hreq ih =>
    rw [Transition.exec_concat]
    exact hstep _ _ _ h hnew hreq ih

end HulyGitlab.Schedule
