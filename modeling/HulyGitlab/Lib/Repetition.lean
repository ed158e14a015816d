import HulyGitlab.Lib.Effect
import Mathlib.Data.List.Basic

/-!
# Computations that are run again

A computation that is run once more answers what it answered and leaves the
state as it is, up to a relation `R` that ignores logs and caches. A loop comes
to such a state when each round establishes the fact of its own element and
keeps those of the others.
-/

namespace HulyGitlab

namespace Effect

variable {E S A B : Type}

/-- The computation returns `a` and leaves the state as it is, up to `R`. -/
def Answers (R : S → S → Prop) (m : Effect E S A) (a : A) (s : S) : Prop :=
  ∃ s', m.run s = (.ok a, s') ∧ R s s'

namespace Answers

variable {R : S → S → Prop}

theorem of_run {m : Effect E S A} {a : A} {s s' : S} (h : m.run s = (.ok a, s')) (hR : R s s') :
    Answers R m a s := ⟨s', h, hR⟩

theorem state {m : Effect E S A} {a : A} {s : S} (h : Answers R m a s) : R s (m.run s).2 := by
  obtain ⟨s', hrun, hR⟩ := h
  rw [hrun]
  exact hR

theorem bind (ht : ∀ a b c, R a b → R b c → R a c) {m : Effect E S A} {f : A → Effect E S B}
    {a : A} {b : B} {s : S} (hm : Answers R m a s) (hf : ∀ s', R s s' → Answers R (f a) b s') :
    Answers R (m >>= f) b s := by
  obtain ⟨s₁, hrun, hR⟩ := hm
  obtain ⟨s₂, hrest, hR'⟩ := hf s₁ hR
  exact ⟨s₂, (bind_of_ok hrun).trans hrest, ht _ _ _ hR hR'⟩

theorem forEach (hr : ∀ s, R s s) (ht : ∀ a b c, R a b → R b c → R a c)
    {body : A → Effect E S Unit} {xs : List A} {s : S}
    (h : ∀ a ∈ xs, ∀ s', R s s' → Answers R (body a) () s') :
    Answers R (Effect.forEach body xs) () s := by
  induction xs generalizing s with
  | nil => exact of_run rfl (hr s)
  | cons a rest ih =>
    rw [forEach_cons]
    refine bind ht (h a List.mem_cons_self s (hr s)) fun s₁ hs₁ => ih fun b hb s₂ hs₂ => ?_
    exact h b (List.mem_cons_of_mem a hb) s₂ (ht _ _ _ hs₁ hs₂)

end Answers

/-- The change of the state and the computation do not touch each other. -/
def Commutes (f : S → S) (m : Effect E S A) : Prop :=
  ∀ s, m.run (f s) = ((m.run s).1, f (m.run s).2)

namespace Commutes

variable {f : S → S}

theorem pure (a : A) : Commutes f (pure a : Effect E S A) := fun _ => rfl

theorem ofExcept (r : Except E A) : Commutes f (ofExcept r : Effect E S A) := fun _ => rfl

theorem bind {m : Effect E S A} {g : A → Effect E S B} (hm : Commutes f m)
    (hg : ∀ a, Commutes f (g a)) : Commutes f (m >>= g) := by
  intro s
  rw [bind_run, bind_run, hm s]
  obtain ⟨r, s'⟩ := m.run s
  cases r with
  | ok a => exact hg a s'
  | error e => rfl

theorem ite {c : Prop} [Decidable c] {m n : Effect E S A} (hm : Commutes f m)
    (hn : Commutes f n) : Commutes f (if c then m else n) := by
  by_cases hc : c
  · rwa [if_pos hc]
  · rwa [if_neg hc]

end Commutes

/-- After a loop the fact of each element holds, and so does what held of any other. -/
theorem forEach_establishes {body : A → Effect E S Unit} {I : S → Prop} {P : A → S → Prop}
    {Apart : A → A → Prop} {xs : List A} (hxs : xs.Pairwise Apart)
    (hstep : ∀ b ∈ xs, ∀ s, I s → ∃ s', (body b).run s = (.ok (), s') ∧ I s' ∧ P b s' ∧
      ∀ a, Apart a b → P a s → P a s') {s : S} (hs : I s) :
    ∃ s', (forEach body xs).run s = (.ok (), s') ∧ I s' ∧ (∀ a ∈ xs, P a s') ∧
      ∀ a, (∀ b ∈ xs, Apart a b) → P a s → P a s' := by
  induction hxs generalizing s with
  | nil => exact ⟨s, rfl, hs, fun _ ha => absurd ha List.not_mem_nil, fun _ _ ha => ha⟩
  | @cons b rest hb _ ih =>
    obtain ⟨s₁, hrun, hI, hP, hkeep⟩ := hstep b List.mem_cons_self s hs
    obtain ⟨s₂, hrest, hI', hall, hkeep'⟩ :=
      ih (fun a ha => hstep a (List.mem_cons_of_mem b ha)) hI
    refine ⟨s₂, (bind_of_ok hrun).trans hrest, hI', fun a ha => ?_, fun a hapart ha => ?_⟩
    · obtain rfl | ha := List.mem_cons.mp ha
      · exact hkeep' _ hb hP
      · exact hall a ha
    · apply hkeep' a fun c hc => hapart c (List.mem_cons_of_mem b hc)
      exact hkeep a (hapart b List.mem_cons_self) ha

end Effect

end HulyGitlab
