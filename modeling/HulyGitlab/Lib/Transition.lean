import Mathlib.Data.List.Basic

/-!
# Deterministic labelled transition systems

A system is a total step function `S → A → S`; the action carries every
choice of the environment, and an action that is not enabled leaves the
state unchanged. A run is a list of actions. The induction over runs is
done here once: an inductive invariant is given by its step lemma.
-/

namespace HulyGitlab.Transition

variable {S A : Type*} (step : S → A → S)

/-- The state after a finite list of actions. -/
def exec (s : S) (acts : List A) : S := acts.foldl step s

@[simp] theorem exec_nil (s : S) : exec step s [] = s := rfl

@[simp] theorem exec_cons (s : S) (a : A) (acts : List A) :
    exec step s (a :: acts) = exec step (step s a) acts := rfl

theorem exec_append (s : S) (as bs : List A) :
    exec step s (as ++ bs) = exec step (exec step s as) bs := by
  simp only [exec, List.foldl_append]

@[simp] theorem exec_concat (s : S) (as : List A) (a : A) :
    exec step s (as ++ [a]) = step (exec step s as) a := by
  simp only [exec, List.foldl_append, List.foldl_cons, List.foldl_nil]

/-- Every step of the run meets the condition in the state it is taken in. -/
def Along (C : S → A → Prop) : S → List A → Prop
  | _, [] => True
  | s, a :: acts => C s a ∧ Along C (step s a) acts

/-- The predicate holds in the first state and in every state the run reaches. -/
def Throughout (P : S → Prop) : S → List A → Prop
  | s, [] => P s
  | s, a :: acts => P s ∧ Throughout P (step s a) acts

instance Along.decidable (C : S → A → Prop) [∀ s a, Decidable (C s a)] :
    (s : S) → (acts : List A) → Decidable (Along step C s acts)
  | _, [] => inferInstanceAs (Decidable True)
  | s, a :: acts =>
      have := Along.decidable C (step s a) acts
      inferInstanceAs (Decidable (C s a ∧ Along step C (step s a) acts))

section Along

variable {step} {C D : S → A → Prop} {s : S} {acts : List A}

theorem along_append (s : S) (as bs : List A) :
    Along step C s (as ++ bs) ↔
      Along step C s as ∧ Along step C (exec step s as) bs := by
  induction as generalizing s with
  | nil => simp [Along]
  | cons a as ih => simp only [List.cons_append, Along, exec_cons, ih, and_assoc]

theorem Along.mono (h : ∀ s a, C s a → D s a) (hC : Along step C s acts) :
    Along step D s acts := by
  induction acts generalizing s with
  | nil => trivial
  | cons a acts ih => exact ⟨h s a hC.1, ih hC.2⟩

theorem along_of_forall (h : ∀ s a, C s a) (s : S) (acts : List A) :
    Along step C s acts := by
  induction acts generalizing s with
  | nil => trivial
  | cons a acts ih => exact ⟨h s a, ih _⟩

/-- Conditions that agree wherever an invariant holds are met by the same runs. -/
theorem along_congr {I : S → Prop} (hI : ∀ s a, I s → I (step s a))
    (h : ∀ s a, I s → (C s a ↔ D s a)) (hs : I s) : Along step C s acts ↔ Along step D s acts := by
  induction acts generalizing s with
  | nil => exact Iff.rfl
  | cons a acts ih => exact and_congr (h s a hs) (ih (hI s a hs))

/-- The same where the steps keep the invariant only as long as they meet the condition. -/
theorem along_congr_of {I : S → Prop} (hI : ∀ s a, I s → C s a → I (step s a))
    (h : ∀ s a, I s → (C s a ↔ D s a)) (hs : I s) : Along step C s acts ↔ Along step D s acts := by
  induction acts generalizing s with
  | nil => exact Iff.rfl
  | cons a acts ih =>
    constructor
    · intro hrun
      exact ⟨(h s a hs).mp hrun.1, (ih (hI s a hs hrun.1)).mp hrun.2⟩
    · intro hrun
      have hC := (h s a hs).mpr hrun.1
      exact ⟨hC, (ih (hI s a hs hC)).mpr hrun.2⟩

/-- An inductive invariant relative to the step condition reaches the last state. -/
theorem exec_invariant {I : S → Prop} (hstep : ∀ s a, I s → C s a → I (step s a))
    (h : I s) (hC : Along step C s acts) : I (exec step s acts) := by
  induction acts generalizing s with
  | nil => exact h
  | cons a acts ih => exact ih (hstep s a h hC.1) hC.2

/-- An invariant that needs no condition on the steps. -/
theorem exec_invariant' {I : S → Prop} (hstep : ∀ s a, I s → I (step s a))
    (h : I s) (acts : List A) : I (exec step s acts) :=
  exec_invariant (C := fun _ _ => True) (fun s a hs _ => hstep s a hs) h
    (along_of_forall (fun _ _ => trivial) s acts)

/-- Two systems whose steps keep them related are related after the same run. -/
theorem exec_simulates {T : Type*} {step' : T → A → T} {R : S → T → Prop} {t : T}
    (hstep : ∀ s t a, R s t → C s a → R (step s a) (step' t a)) (h : R s t)
    (hC : Along step C s acts) : R (exec step s acts) (exec step' t acts) := by
  induction acts generalizing s t with
  | nil => exact h
  | cons a acts ih => exact ih (hstep s t a h hC.1) hC.2

/-- The condition may be used together with an unconditional invariant. -/
theorem exec_invariant_of {I J : S → Prop} (hI : ∀ s a, I s → I (step s a))
    (hJ : ∀ s a, I s → J s → C s a → J (step s a)) (h : I s) (hj : J s)
    (hC : Along step C s acts) : J (exec step s acts) :=
  (exec_invariant (I := fun s => I s ∧ J s)
    (fun s a hs hc => ⟨hI s a hs.1, hJ s a hs.1 hs.2 hc⟩) ⟨h, hj⟩ hC).2

end Along

section Throughout

variable {step} {P : S → Prop} {C : S → A → Prop} {s : S} {acts : List A}

/-- A predicate holds throughout a run exactly when it holds after every prefix. -/
theorem throughout_iff :
    Throughout step P s acts ↔ ∀ as, as <+: acts → P (exec step s as) := by
  induction acts generalizing s with
  | nil => simp [Throughout]
  | cons a acts ih =>
      simp only [Throughout, ih]
      constructor
      · rintro ⟨h0, h⟩ as hpre
        rcases List.prefix_cons_iff.mp hpre with rfl | ⟨t, rfl, ht⟩
        · exact h0
        · exact h t ht
      · intro h
        refine ⟨h [] (List.nil_prefix), fun as has => ?_⟩
        exact h (a :: as) (List.prefix_cons_inj a |>.mpr has)

theorem along_of_initial {as : List A} (hpre : as <+: acts)
    (h : Along step C s acts) : Along step C s as := by
  obtain ⟨bs, rfl⟩ := hpre
  exact ((along_append s as bs).mp h).1

/-- The first state of a run satisfies what holds throughout it. -/
theorem Throughout.first (h : Throughout step P s acts) : P s :=
  throughout_iff.mp h [] List.nil_prefix

/-- The last state of a run satisfies what holds throughout it. -/
theorem Throughout.last (h : Throughout step P s acts) : P (exec step s acts) :=
  throughout_iff.mp h acts List.prefix_rfl

/-- A run whose every prefix end satisfies the predicate satisfies it throughout. -/
theorem throughout_of_along (hC : Along step C s acts)
    (h : ∀ as, Along step C s as → P (exec step s as)) : Throughout step P s acts :=
  throughout_iff.mpr fun as hpre => h as (along_of_initial hpre hC)

/-- If the predicate fails right after every step that breaks the condition,
then holding throughout a run forces the condition on all its steps. -/
theorem along_of_throughout {I : S → Prop} (hI : ∀ s a, I s → I (step s a))
    (hbreak : ∀ s a, I s → P s → ¬ C s a → ¬ P (step s a))
    (hs : I s) (h : Throughout step P s acts) : Along step C s acts := by
  induction acts generalizing s with
  | nil => trivial
  | cons a acts ih =>
      have hnext : P (step s a) := by
        cases acts with
        | nil => exact h.2
        | cons b bs => exact h.2.1
      refine ⟨?_, ih (hI s a hs) h.2⟩
      by_contra hc
      exact hbreak s a hs h.1 hc hnext

/-- Where the condition decides whether the next state is good, in runs whose steps meet an
assumption, such a run is good throughout exactly when all its steps meet the condition. -/
theorem throughout_iff_along_of {I : S → Prop} {D : S → A → Prop}
    (hkeep : ∀ s a, I s → P s → D s a → C s a → I (step s a) ∧ P (step s a))
    (hbreak : ∀ s a, I s → P s → D s a → ¬ C s a → ¬ P (step s a)) (hs : I s) (hp : P s)
    (hassumed : Along step D s acts) : Throughout step P s acts ↔ Along step C s acts := by
  induction acts generalizing s with
  | nil => exact ⟨fun _ => trivial, fun _ => hp⟩
  | cons a acts ih =>
    constructor
    · intro h
      have hC : C s a := by
        by_contra hc
        exact hbreak s a hs hp hassumed.1 hc h.2.first
      have hnext := hkeep s a hs hp hassumed.1 hC
      exact ⟨hC, (ih hnext.1 hnext.2 hassumed.2).mp h.2⟩
    · intro h
      have hnext := hkeep s a hs hp hassumed.1 h.1
      exact ⟨hp, (ih hnext.1 hnext.2 hassumed.2).mpr h.2⟩

/-- Where the condition decides whether the next state is good, a run is good throughout
exactly when all its steps meet it. -/
theorem throughout_iff_along {I : S → Prop}
    (hkeep : ∀ s a, I s → P s → C s a → I (step s a) ∧ P (step s a))
    (hbreak : ∀ s a, I s → P s → ¬ C s a → ¬ P (step s a)) (hs : I s) (hp : P s) :
    Throughout step P s acts ↔ Along step C s acts :=
  throughout_iff_along_of (D := fun _ _ => True) (fun s a hi hp _ => hkeep s a hi hp)
    (fun s a hi hp _ => hbreak s a hi hp) hs hp (along_of_forall (fun _ _ => trivial) s acts)

end Throughout

end HulyGitlab.Transition
