import HulyGitlab.Lib.Coroutine

/-!
# Jobs that keep to a part of the state

The state has a part for each key. A job that finds the same in its own part
does the same there, and it leaves the other parts alone. Jobs of different
keys may then interleave at their awaits: every part without a running job is
as if the jobs that ended had run one after another.
-/

namespace HulyGitlab

namespace Coroutine

variable {P E S A B Y : Type} {J : S → Prop} {own : S → Y} {aside : S → S → Prop}

/-- Under `J`, two states with the same own part lead to the same result and own part. -/
def Alike (J : S → Prop) (own : S → Y) (p : Coroutine P E S A) : Prop :=
  ∀ s s', J s → J s' → own s = own s' →
    (p.toEffect.run s).1 = (p.toEffect.run s').1 ∧
      own (p.toEffect.run s).2 = own (p.toEffect.run s').2

/-- Wherever it is resumed under `J`, what is left of the computation is alike, each call keeps
`J` and moves the state along `aside`, and a result satisfies `Q`. -/
def Confined (J : S → Prop) (own : S → Y) (aside : S → S → Prop) (Q : A → Prop) :
    Coroutine P E S A → Prop
  | .done r => ∀ a, r = .ok a → Q a
  | .await point act rest =>
      Alike J own (.await point act rest) ∧
        ∀ s, J s → J (act s) ∧ aside s (act s) ∧ Confined J own aside Q (rest s)

theorem await_run (point : P) (act : S → S) (rest : S → Coroutine P E S A) (s : S) :
    (await point act rest).toEffect.run s = (rest s).toEffect.run (act s) := rfl

namespace Confined

variable {Q : A → Prop} {R : B → Prop}

theorem alike {p : Coroutine P E S A} (h : Confined J own aside Q p) : Alike J own p := by
  cases p with
  | done r =>
    intro s s' _ _ hown
    exact ⟨rfl, hown⟩
  | await point act rest => exact h.1

/-- Run without interruption, the computation keeps `J`. -/
theorem preserves {p : Coroutine P E S A} (h : Confined J own aside Q p) {s : S} (hs : J s) :
    J (p.toEffect.run s).2 := by
  induction p generalizing s with
  | done r => exact hs
  | await point act rest ih =>
    obtain ⟨hJ, -, hrest⟩ := h.2 s hs
    exact ih s hrest hJ

/-- Run without interruption, the computation leaves the other parts alone. -/
theorem leaves (hrefl : ∀ s, aside s s) (htrans : ∀ a b c, aside a b → aside b c → aside a c)
    {p : Coroutine P E S A} (h : Confined J own aside Q p) {s : S} (hs : J s) :
    aside s (p.toEffect.run s).2 := by
  induction p generalizing s with
  | done r => exact hrefl s
  | await point act rest ih =>
    obtain ⟨hJ, haside, hrest⟩ := h.2 s hs
    exact htrans _ _ _ haside (ih s hrest hJ)

theorem returns {p : Coroutine P E S A} (h : Confined J own aside Q p) {s : S} (hs : J s) {a : A}
    (ha : (p.toEffect.run s).1 = .ok a) : Q a := by
  induction p generalizing s with
  | done r => exact h a ha
  | await point act rest ih =>
    obtain ⟨hJ, -, hrest⟩ := h.2 s hs
    exact ih s hrest hJ ha

theorem pure {a : A} (h : Q a) : Confined J own aside Q (pure a : Coroutine P E S A) := by
  rintro _ ⟨⟩
  exact h

theorem ofExcept {r : Except E A} (h : ∀ a, r = .ok a → Q a) :
    Confined J own aside Q (Coroutine.ofExcept r : Coroutine P E S A) := h

theorem call {point : P} {m : Effect E S A}
    (hkeep : ∀ s, J s → J (m.run s).2 ∧ aside s (m.run s).2 ∧ ∀ a, (m.run s).1 = .ok a → Q a)
    (halike : ∀ s s', J s → J s' → own s = own s' →
      (m.run s).1 = (m.run s').1 ∧ own (m.run s).2 = own (m.run s').2) :
    Confined J own aside Q (Coroutine.call point m) :=
  ⟨halike, hkeep⟩

/-- Two runs of a first part that end alike go on alike. -/
theorem alike_bind {p : Coroutine P E S A} {f : A → Coroutine P E S B}
    (hp : Confined J own aside Q p) (hf : ∀ a, Q a → Alike J own (f a)) :
    Alike J own (p >>= f) := by
  intro s s' hs hs' hown
  have hrun : ∀ t, (p >>= f).toEffect.run t = (p.toEffect >>= fun a => (f a).toEffect).run t :=
    fun t => by rw [toEffect_bind]
  obtain ⟨hresult, hpart⟩ := hp.alike s s' hs hs' hown
  have hJ := hp.preserves hs
  have hJ' := hp.preserves hs'
  have hQ : ∀ a, (p.toEffect.run s).1 = .ok a → Q a := fun a => hp.returns hs
  rw [hrun, hrun, Effect.bind_run, Effect.bind_run]
  generalize p.toEffect.run s = o at hresult hpart hJ hQ ⊢
  generalize p.toEffect.run s' = o' at hresult hpart hJ' ⊢
  obtain ⟨r, t⟩ := o
  obtain ⟨r', t'⟩ := o'
  dsimp only at hresult hpart
  subst hresult
  cases r with
  | ok a => exact hf a (hQ a rfl) t t' hJ hJ' hpart
  | error e => exact ⟨rfl, hpart⟩

theorem bind {p : Coroutine P E S A} {f : A → Coroutine P E S B} (hp : Confined J own aside Q p)
    (hf : ∀ a, Q a → Confined J own aside R (f a)) : Confined J own aside R (p >>= f) := by
  induction p with
  | done r =>
    cases r with
    | ok a => exact hf a (hp a rfl)
    | error e =>
      intro b hb
      cases hb
  | await point act rest ih =>
    refine ⟨alike_bind hp fun a ha => (hf a ha).alike, fun s hs => ?_⟩
    obtain ⟨hJ, haside, hrest⟩ := hp.2 s hs
    exact ⟨hJ, haside, ih s hrest⟩

theorem ofExcept_bind {r : Except E A} {f : A → Coroutine P E S B}
    (hf : ∀ a, r = .ok a → Confined J own aside R (f a)) :
    Confined J own aside R (Coroutine.ofExcept r >>= f) :=
  bind (ofExcept fun _ h => h) hf

/-- What follows a call, when the results differ but the computation comes to the same. -/
theorem call_bind {point : P} {m : Effect E S A} {f : A → Coroutine P E S B}
    (halike : Alike J own (Coroutine.call point m >>= f))
    (hkeep : ∀ s, J s → J (m.run s).2 ∧ aside s (m.run s).2)
    (hf : ∀ s a, J s → (m.run s).1 = .ok a → Confined J own aside R (f a)) :
    Confined J own aside R (Coroutine.call point m >>= f) := by
  refine ⟨halike, fun s hs => ?_⟩
  obtain ⟨hJ, hleft⟩ := hkeep s hs
  refine ⟨hJ, hleft, ?_⟩
  change Confined J own aside R ((Coroutine.done (m.run s).1).bind f)
  cases hrun : (m.run s).1 with
  | ok a => exact hf s a hs hrun
  | error e =>
    intro b hb
    cases hb

/-- What follows a reading call whose result is not used. -/
theorem call_skip {point : P} {m : Effect E S A} {q : Coroutine P E S B}
    (hread : ∀ s, ∃ a, m.run s = (.ok a, s)) (hrefl : ∀ s, aside s s)
    (hq : Confined J own aside R q) :
    Confined J own aside R (Coroutine.call point m >>= fun _ => q) := by
  have hrun : ∀ t, (Coroutine.call point m >>= fun _ => q).toEffect.run t = q.toEffect.run t := by
    intro t
    obtain ⟨a, ha⟩ := hread t
    rw [toEffect_bind, toEffect_call]
    exact Effect.bind_of_ok ha
  constructor
  · intro s s' hs hs' hown
    have h := hq.alike s s' hs hs' hown
    rw [← hrun, ← hrun] at h
    exact h
  · intro s hs
    obtain ⟨a, ha⟩ := hread s
    dsimp only
    rw [ha]
    exact ⟨hs, hrefl s, hq⟩

theorem ite {c : Prop} [Decidable c] {p q : Coroutine P E S A}
    (hp : c → Confined J own aside Q p) (hq : ¬ c → Confined J own aside Q q) :
    Confined J own aside Q (if c then p else q) := by
  by_cases h : c
  · rw [if_pos h]
    exact hp h
  · rw [if_neg h]
    exact hq h

theorem mapEach {body : A → Coroutine P E S B}
    (h : ∀ a, Confined J own aside (fun _ => True) (body a)) (xs : List A) :
    Confined J own aside (fun _ => True) (Coroutine.mapEach body xs) := by
  induction xs with
  | nil => exact pure trivial
  | cons a rest ih => exact bind (h a) fun b _ => bind ih fun bs _ => pure trivial

/-- What keeps to a part keeps to any larger one. -/
theorem widen {Z : Type} {own' : S → Z} {aside' : S → S → Prop}
    (hrefl : ∀ s, aside s s) (htrans : ∀ a b c, aside a b → aside b c → aside a c)
    (hown : ∀ s s', own' s = own' s' → own s = own s')
    (hjoin : ∀ s t s' t', own' s = own' s' → own t = own t' → aside s t → aside s' t' →
      own' t = own' t')
    (haside : ∀ s s', aside s s' → aside' s s') {p : Coroutine P E S A}
    (h : Confined J own aside Q p) : Confined J own' aside' Q p := by
  induction p with
  | done r => exact h
  | await point act rest ih =>
    constructor
    · intro s s' hs hs' heq
      obtain ⟨hresult, hpart⟩ := h.alike s s' hs hs' (hown s s' heq)
      exact ⟨hresult, hjoin s _ s' _ heq hpart (leaves hrefl htrans h hs)
        (leaves hrefl htrans h hs')⟩
    · intro s hs
      obtain ⟨hJ, hleft, hrest⟩ := h.2 s hs
      exact ⟨hJ, haside s _ hleft, ih s hrest⟩

end Confined

end Coroutine

namespace Pool

open Coroutine

variable {K L D P E S : Type} [DecidableEq K] {X : K → Type}

/-- The state after the jobs, the latest first, each without interruption. -/
def serially (code : L → Coroutine P E S Unit) (s : S) (jobs : List L) : S :=
  jobs.foldr (fun job s => ((code job).toEffect.run s).2) s

/-- The parts of the other keys stay. -/
def Apart (part : ∀ k, S → X k) (k : K) (s s' : S) : Prop := ∀ j, j ≠ k → part j s' = part j s

/-- The job reads and writes the part of its key alone. -/
def Keeping (J : S → Prop) (part : ∀ k, S → X k) (key : L → K) (code : L → Coroutine P E S Unit)
    (job : L) : Prop :=
  Confined J (part (key job)) (Apart part (key job)) (fun _ => True) (code job)

section Serial

variable {J : S → Prop} {part : ∀ k, S → X k} {key : L → K} {code : L → Coroutine P E S Unit}
  {disturbance : D → S → S} {s₀ : S} {p : Pool K L P E S}

omit [DecidableEq K] in
theorem Keeping.preserves {job : L} (h : Keeping J part key code job) {s : S} (hs : J s) :
    J ((code job).toEffect.run s).2 :=
  Confined.preserves h hs

omit [DecidableEq K] in
theorem Keeping.leaves {job : L} (h : Keeping J part key code job) {s : S} (hs : J s) :
    Apart part (key job) s ((code job).toEffect.run s).2 :=
  Confined.leaves (fun _ _ _ => rfl) (fun _ _ _ h₁ h₂ j hj => (h₂ j hj).trans (h₁ j hj)) h hs

/-- What is left of a running job leads its part to where the whole job leads the part that the
jobs before it left. -/
structure Serial (J : S → Prop) (part : ∀ k, S → X k) (key : L → K)
    (code : L → Coroutine P E S Unit) (s₀ : S) (p : Pool K L P E S) : Prop where
  inv : J p.state
  serial : J (serially code s₀ p.completed)
  idle : ∀ k, p.running k = none → part k p.state = part k (serially code s₀ p.completed)
  busy : ∀ k job c, p.running k = some (job, c) →
    key job = k ∧ Keeping J part key code job ∧
      Confined J (part k) (Apart part k) (fun _ => True) c ∧
      part k (c.toEffect.run p.state).2 =
        part k ((code job).toEffect.run (serially code s₀ p.completed)).2

omit [DecidableEq K] in
/-- A change of the state that a key does not see. -/
theorem Serial.unseen (h : Serial J part key code s₀ p) {s : S} (hs : J s) {k : K} {job : L}
    {c : Coroutine P E S Unit} (hrun : p.running k = some (job, c))
    (hsame : part k s = part k p.state) :
    part k (c.toEffect.run s).2 =
      part k ((code job).toEffect.run (serially code s₀ p.completed)).2 := by
  obtain ⟨-, -, hc, hleft⟩ := h.busy k job c hrun
  exact (hc.alike s p.state hs h.inv hsame).2.trans hleft

omit [DecidableEq K] in
theorem serial_idle {s : S} (hs : J s) :
    Serial J part key code s (idle s : Pool K L P E S) where
  inv := hs
  serial := hs
  idle _ _ := rfl
  busy k job c h := by cases h

theorem Serial.start (h : Serial J part key code s₀ p) {job : L}
    (hjob : Keeping J part key code job) :
    Serial J part key code s₀ (step key code disturbance p (.start job)) := by
  cases hrun : p.running (key job) with
  | some r => rwa [step_start_of_some hrun]
  | none =>
    rw [step_start_of_none hrun]
    refine ⟨h.inv, h.serial, fun k hk => ?_, fun k job' c hk => ?_⟩
    · dsimp only at hk
      by_cases hkey : k = key job
      · rw [hkey, Function.update_self] at hk
        cases hk
      · rw [Function.update_of_ne hkey] at hk
        exact h.idle k hk
    · dsimp only at hk
      by_cases hkey : k = key job
      · subst hkey
        rw [Function.update_self] at hk
        obtain ⟨rfl, rfl⟩ := Prod.mk.inj (Option.some.inj hk)
        exact ⟨rfl, hjob, hjob, (hjob.alike _ _ h.inv h.serial (h.idle _ hrun)).2⟩
      · rw [Function.update_of_ne hkey] at hk
        exact h.busy k job' c hk

/-- The job that ends was the next one of the serial run. -/
theorem Serial.complete (h : Serial J part key code s₀ p) {k : K} {job : L} {r : Except E Unit}
    (hrun : p.running k = some (job, .done r)) :
    Serial J part key code s₀ (step key code disturbance p (.advance k)) := by
  obtain ⟨hkey, hjob, -, hleft⟩ := h.busy k job _ hrun
  subst hkey
  have hothers := hjob.leaves h.serial
  rw [step_advance_done hrun]
  refine ⟨h.inv, hjob.preserves h.serial, fun j hj => ?_, fun j job' c hj => ?_⟩
  · dsimp only at hj
    by_cases hjk : j = key job
    · rw [hjk]
      exact hleft
    · rw [Function.update_of_ne hjk] at hj
      exact (h.idle j hj).trans (hothers j hjk).symm
  · dsimp only at hj
    by_cases hjk : j = key job
    · rw [hjk, Function.update_self] at hj
      cases hj
    · rw [Function.update_of_ne hjk] at hj
      obtain ⟨hkey', hjob', hc, hleft'⟩ := h.busy j job' c hj
      subst hkey'
      refine ⟨rfl, hjob', hc, hleft'.trans ?_⟩
      exact (hjob'.alike _ _ h.serial (hjob.preserves h.serial) (hothers _ hjk).symm).2

theorem Serial.await (h : Serial J part key code s₀ p) {k : K} {job : L} {point : P}
    {act : S → S} {rest : S → Coroutine P E S Unit}
    (hrun : p.running k = some (job, .await point act rest)) :
    Serial J part key code s₀ (step key code disturbance p (.advance k)) := by
  obtain ⟨hkey, hjob, hc, hleft⟩ := h.busy k job _ hrun
  obtain ⟨hJ, hothers, hrest⟩ := hc.2 p.state h.inv
  rw [step_advance_await hrun]
  refine ⟨hJ, h.serial, fun j hj => ?_, fun j job' c hj => ?_⟩
  · dsimp only at hj
    by_cases hjk : j = k
    · rw [hjk, Function.update_self] at hj
      cases hj
    · rw [Function.update_of_ne hjk] at hj
      exact (hothers j hjk).trans (h.idle j hj)
  · dsimp only at hj
    by_cases hjk : j = k
    · subst hjk
      rw [Function.update_self] at hj
      obtain ⟨rfl, rfl⟩ := Prod.mk.inj (Option.some.inj hj)
      exact ⟨hkey, hjob, hrest, hleft⟩
    · rw [Function.update_of_ne hjk] at hj
      obtain ⟨hkey', hjob', hc', -⟩ := h.busy j job' c hj
      exact ⟨hkey', hjob', hc', h.unseen hJ hj (hothers j hjk)⟩

theorem Serial.disturb (h : Serial J part key code s₀ p) {d : D}
    (hd : ∀ s, J s → J (disturbance d s) ∧ ∀ k, part k (disturbance d s) = part k s) :
    Serial J part key code s₀ (step key code disturbance p (.disturb d)) := by
  obtain ⟨hJ, hsame⟩ := hd p.state h.inv
  refine ⟨hJ, h.serial, fun k hk => (hsame k).trans (h.idle k hk), fun k job c hk => ?_⟩
  obtain ⟨hkey, hjob, hc, -⟩ := h.busy k job c hk
  exact ⟨hkey, hjob, hc, h.unseen hJ hk (hsame k)⟩

theorem Serial.advance (h : Serial J part key code s₀ p) (k : K) :
    Serial J part key code s₀ (step key code disturbance p (.advance k)) := by
  cases hrun : p.running k with
  | none => rwa [step_advance_of_none hrun]
  | some r =>
    obtain ⟨job, c⟩ := r
    cases c with
    | done r => exact h.complete hrun
    | await point act rest => exact h.await hrun

/-- At every point of a run of jobs that keep to their parts, the part of a key without a running
job is as if the jobs that ended had run one after another. -/
theorem part_eq_serially (hs : J s₀) (acts : List (Action K L D))
    (hjobs : ∀ job, .start job ∈ acts → Keeping J part key code job)
    (hd : ∀ d s, J s → J (disturbance d s) ∧ ∀ k, part k (disturbance d s) = part k s) (k : K) :
    let p := Transition.exec (step key code disturbance) (idle s₀) acts
    p.running k = none → part k p.state = part k (serially code s₀ p.completed) := by
  have hrun : Serial J part key code s₀
      (Transition.exec (step key code disturbance) (idle s₀) acts) := by
    induction acts using List.reverseRecOn with
    | nil => exact serial_idle hs
    | append_singleton acts a ih =>
      have h := ih fun job hjob => hjobs job (List.mem_append_left _ hjob)
      rw [Transition.exec_concat]
      cases a with
      | start job =>
        exact h.start (hjobs job (List.mem_append_right _ (List.mem_singleton.mpr rfl)))
      | advance k => exact h.advance k
      | disturb d => exact h.disturb (hd d)
  exact hrun.idle k

end Serial

end Pool

-- what a computation does is not looked into to see that it is confined
attribute [irreducible] Coroutine.Confined

end HulyGitlab
