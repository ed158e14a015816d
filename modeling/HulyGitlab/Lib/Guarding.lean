import HulyGitlab.Lib.Coroutine

/-!
# Jobs that leave a part of the state alone

Under an invariant that all jobs keep, each call leaves a view of the state as
it was. However the jobs interleave, and wherever they fail, the view is what
the disturbances alone make of it.
-/

namespace HulyGitlab

namespace Coroutine

variable {P E S A B V : Type} {J : S → Prop} {view : S → V}

/-- As `Safe`, for a computation that may fail: resumed in states that satisfy `J`, every call
keeps `J` and the view, and a result satisfies `Q`. -/
inductive Guards (J : S → Prop) (view : S → V) (Q : A → Prop) : Coroutine P E S A → Prop
  | done {r : Except E A} (h : ∀ a, r = .ok a → Q a) : Guards J view Q (.done r)
  | await {point : P} {act : S → S} {rest : S → Coroutine P E S A}
      (h : ∀ s, J s → J (act s) ∧ view (act s) = view s)
      (hrest : ∀ s, J s → Guards J view Q (rest s)) : Guards J view Q (.await point act rest)

namespace Guards

variable {Q : A → Prop} {R : B → Prop}

theorem pure {a : A} (h : Q a) : Guards J view Q (pure a : Coroutine P E S A) := by
  apply done
  rintro _ ⟨⟩
  exact h

theorem ofExcept {r : Except E A} (h : ∀ a, r = .ok a → Q a) :
    Guards J view Q (Coroutine.ofExcept r : Coroutine P E S A) := done h

theorem call {point : P} {m : Effect E S A}
    (h : ∀ s, J s → J (m.run s).2 ∧ view (m.run s).2 = view s ∧ ∀ a, (m.run s).1 = .ok a → Q a) :
    Guards J view Q (Coroutine.call point m) :=
  await (fun s hs => ⟨(h s hs).1, (h s hs).2.1⟩) fun s hs => done (h s hs).2.2

theorem bind {p : Coroutine P E S A} {f : A → Coroutine P E S B} (hp : Guards J view Q p)
    (hf : ∀ a, Q a → Guards J view R (f a)) : Guards J view R (p >>= f) := by
  induction hp with
  | @done r h =>
    cases r with
    | ok a => exact hf a (h a rfl)
    | error e =>
      apply done
      rintro _ ⟨⟩
  | await h hrest ih => exact await h ih

theorem ite {c : Prop} [Decidable c] {p q : Coroutine P E S A} (hp : Guards J view Q p)
    (hq : Guards J view Q q) : Guards J view Q (if c then p else q) := by
  by_cases h : c
  · rwa [if_pos h]
  · rwa [if_neg h]

theorem forEach {body : A → Coroutine P E S Unit} (h : ∀ a, Guards J view (fun _ => True) (body a))
    (xs : List A) : Guards J view (fun _ => True) (Coroutine.forEach body xs) := by
  induction xs with
  | nil => exact pure trivial
  | cons a rest ih => exact bind (h a) fun _ _ => ih

theorem mapEach {body : A → Coroutine P E S B} (h : ∀ a, Guards J view (fun _ => True) (body a))
    (xs : List A) : Guards J view (fun _ => True) (Coroutine.mapEach body xs) := by
  induction xs with
  | nil => exact pure trivial
  | cons a rest ih => exact bind (h a) fun _ _ => bind ih fun _ _ => pure trivial

end Guards

end Coroutine

namespace Pool

variable {K L D P E S V : Type} [DecidableEq K] (key : L → K) (code : L → Coroutine P E S Unit)
  (disturbance : D → S → S) {J : S → Prop} {view : S → V}

/-- The jobs keep the invariant and the view, and so does what is left of those that run. -/
structure Guarded (J : S → Prop) (view : S → V) (p : Pool K L P E S) : Prop where
  holds : J p.state
  running : ∀ k job c, p.running k = some (job, c) → c.Guards J view fun _ => True

/-- What a step makes of the view: only disturbances change it. -/
def viewStep (effect : D → V → V) (v : V) : Action K L D → V
  | .disturb d => effect d v
  | _ => v

variable {key code disturbance}

/-- A job that guards the view may be started, and a disturbance that keeps the invariant. -/
def Fitting (code : L → Coroutine P E S Unit) (disturbance : D → S → S) (J : S → Prop)
    (view : S → V) (effect : D → V → V) : Action K L D → Prop
  | .start job => (code job).Guards J view fun _ => True
  | .advance _ => True
  | .disturb d => ∀ s, J s → J (disturbance d s) ∧ view (disturbance d s) = effect d (view s)

/-- One job goes on, the others stay as they are. -/
theorem Guarded.update {p : Pool K L P E S} (h : Guarded J view p) (j : K)
    {r : Option (L × Coroutine P E S Unit)}
    (hr : ∀ job c, r = some (job, c) → c.Guards J view fun _ => True) {s : S} (hs : J s)
    (completed : List L) :
    Guarded J view ⟨s, Function.update p.running j r, completed⟩ := by
  refine ⟨hs, fun k job c hrun => ?_⟩
  dsimp only at hrun
  by_cases hk : k = j
  · subst hk
    rw [Function.update_self] at hrun
    exact hr job c hrun
  · rw [Function.update_of_ne hk] at hrun
    exact h.running k job c hrun

theorem guarded_step {effect : D → V → V} {p : Pool K L P E S} {a : Action K L D}
    (h : Guarded J view p) (ha : Fitting code disturbance J view effect a) :
    Guarded J view (step key code disturbance p a) ∧
      view (step key code disturbance p a).state = viewStep effect (view p.state) a := by
  cases a with
  | start job =>
    cases hbusy : p.running (key job) with
    | some r =>
      rw [step_start_of_some hbusy]
      exact ⟨h, rfl⟩
    | none =>
      rw [step_start_of_none hbusy]
      refine ⟨h.update (key job) ?_ h.holds p.completed, rfl⟩
      rintro _ _ ⟨⟩
      exact ha
  | advance j =>
    cases hj : p.running j with
    | none =>
      rw [step_advance_of_none hj]
      exact ⟨h, rfl⟩
    | some r =>
      obtain ⟨job, c⟩ := r
      cases c with
      | done r =>
        rw [step_advance_done hj]
        refine ⟨h.update j ?_ h.holds (job :: p.completed), rfl⟩
        rintro _ _ ⟨⟩
      | await point act rest =>
        rw [step_advance_await hj]
        cases h.running j job _ hj with
        | await hkeep hrest =>
          obtain ⟨hJ, hview⟩ := hkeep p.state h.holds
          refine ⟨h.update j ?_ hJ p.completed, hview⟩
          rintro _ _ ⟨⟩
          exact hrest p.state h.holds
  | disturb d =>
    obtain ⟨hJ, hview⟩ := ha p.state h.holds
    exact ⟨⟨hJ, h.running⟩, hview⟩

/-- Whatever the order of the steps, the view is what the disturbances make of it. -/
theorem view_exec {effect : D → V → V} {p : Pool K L P E S} {acts : List (Action K L D)}
    (h : Guarded J view p) (hacts : ∀ a ∈ acts, Fitting code disturbance J view effect a) :
    Guarded J view (Transition.exec (step key code disturbance) p acts) ∧
      view (Transition.exec (step key code disturbance) p acts).state =
        acts.foldl (viewStep effect) (view p.state) := by
  induction acts generalizing p with
  | nil => exact ⟨h, rfl⟩
  | cons a acts ih =>
    obtain ⟨hnext, hview⟩ := guarded_step h (hacts a List.mem_cons_self)
    rw [List.foldl_cons, ← hview]
    exact ih hnext fun b hb => hacts b (List.mem_cons_of_mem a hb)

end Pool

end HulyGitlab
