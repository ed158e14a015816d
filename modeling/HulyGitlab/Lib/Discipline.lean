import HulyGitlab.Lib.Coroutine

/-!
# Disciplines of calls

A discipline gives a caller a phase, which its calls change and which says what
it may call. Of the others a caller knows nothing. Where every job follows its
discipline, so does a pool of them under every interleaving.
-/

namespace HulyGitlab

/-- The phases of a caller. -/
structure Discipline (Q P S : Type) where
  /-- The phase after a call that is made in a state. -/
  after : Q → P → S → Q
  /-- A call that may be made in a phase, with what it does. -/
  Allowed : Q → P → S → S → Prop
  /-- The phases in which it may give up. -/
  MayFail : Q → Prop

namespace Coroutine

variable {Q P E S A B : Type} (d : Discipline Q P S)

/-- From a phase on every call is allowed; a result comes in a phase that satisfies `post`. -/
def Follows (post : Q → A → Prop) : Q → Coroutine P E S A → Prop
  | q, .done (.ok a) => post q a
  | q, .done (.error _) => d.MayFail q
  | q, .await point act rest => ∀ s,
      d.Allowed q point s (act s) ∧ Follows post (d.after q point s) (rest s)

/-- A call that is allowed and does not end the phase. -/
def Neutral (q : Q) (point : P) (s s' : S) : Prop :=
  d.after q point s = q ∧ d.Allowed q point s s'

namespace Follows

variable {d} {post : Q → A → Prop} {post' : Q → B → Prop} {q : Q}

theorem pure {a : A} (h : post q a) : Follows d post q (pure a : Coroutine P E S A) := h

theorem ofExcept_bind {r : Except E A} {f : A → Coroutine P E S B} (hfail : d.MayFail q)
    (h : ∀ a, r = .ok a → Follows d post' q (f a)) :
    Follows d post' q (Coroutine.ofExcept r >>= f) := by
  cases r with
  | ok a => exact h a rfl
  | error e => exact hfail

theorem bind {p : Coroutine P E S A} {f : A → Coroutine P E S B} (hp : Follows d post q p)
    (hf : ∀ q' a, post q' a → Follows d post' q' (f a)) : Follows d post' q (p >>= f) := by
  induction p generalizing q with
  | done r =>
    cases r with
    | ok a => exact hf q a hp
    | error e => exact hp
  | await point act rest ih =>
    intro s
    obtain ⟨hallowed, hrest⟩ := hp s
    exact ⟨hallowed, ih s hrest⟩

/-- What follows a call depends on what it returned, and where. -/
theorem call_bind {point : P} {m : Effect E S A} {f : A → Coroutine P E S B}
    (hallowed : ∀ s, d.Allowed q point s (m.run s).2)
    (hok : ∀ s a, (m.run s).1 = .ok a → Follows d post' (d.after q point s) (f a))
    (herror : ∀ s e, (m.run s).1 = .error e → d.MayFail (d.after q point s)) :
    Follows d post' q (Coroutine.call point m >>= f) := by
  intro s
  refine ⟨hallowed s, ?_⟩
  change Follows d post' _ ((Coroutine.done (m.run s).1).bind f)
  cases hrun : (m.run s).1 with
  | ok a => exact hok s a hrun
  | error e => exact herror s e hrun

/-- Calls that do not end the phase. -/
theorem of_always {p : Coroutine P E S A} (hfail : d.MayFail q) (hpost : ∀ a, post q a)
    (h : Always (Neutral d q) p) : Follows d post q p := by
  induction h with
  | done r =>
    cases r with
    | ok a => exact hpost a
    | error e => exact hfail
  | await h hrest ih =>
    intro s
    rw [(h s).1]
    exact ⟨(h s).2, ih s⟩

/-- What follows calls that do not end the phase. -/
theorem after {p : Coroutine P E S A} {f : A → Coroutine P E S B} (hfail : d.MayFail q)
    (h : Always (Neutral d q) p) (hf : ∀ a, Follows d post' q (f a)) :
    Follows d post' q (p >>= f) := by
  have hp : Follows d (fun q' (_ : A) => q' = q) q p := of_always hfail (fun _ => rfl) h
  refine hp.bind ?_
  rintro _ a rfl
  exact hf a

theorem mono {post₁ : Q → A → Prop} (hpost : ∀ q a, post q a → post₁ q a)
    {p : Coroutine P E S A} (h : Follows d post q p) : Follows d post₁ q p := by
  induction p generalizing q with
  | done r =>
    cases r with
    | ok a => exact hpost q a h
    | error e => exact h
  | await point act rest ih =>
    intro s
    obtain ⟨hallowed, hrest⟩ := h s
    exact ⟨hallowed, ih s hrest⟩

theorem ite {c : Prop} [Decidable c] {p p' : Coroutine P E S A} (hp : Follows d post q p)
    (hp' : Follows d post q p') : Follows d post q (if c then p else p') := by
  by_cases h : c
  · rwa [if_pos h]
  · rwa [if_neg h]

/-- A body that comes back to the phase it started in. -/
theorem forEach {body : A → Coroutine P E S Unit}
    (h : ∀ a, Follows d (fun q' _ => q' = q) q (body a)) (xs : List A) :
    Follows d (fun q' _ => q' = q) q (Coroutine.forEach body xs) := by
  induction xs with
  | nil => exact pure rfl
  | cons a rest ih =>
    refine bind (h a) ?_
    rintro _ _ rfl
    exact ih

end Follows

end Coroutine

/-- A pool with the phases of its callers. -/
structure Tracked (K L Q P E S : Type) where
  pool : Pool K L P E S
  phase : K → Q

namespace Tracked

variable {K L D Q P E S : Type} [DecidableEq K]

section Steps

variable (d : L → Discipline Q P S) (key : L → K) (code : L → Coroutine P E S Unit)
  (disturbance : D → S → S) (rest : Q)

/-- No job runs. -/
def idle (s : S) : Tracked K L Q P E S := ⟨Pool.idle s, fun _ => rest⟩

/-- The phase of the caller that makes a step; one that ends is at rest again. -/
def nextPhase (t : Tracked K L Q P E S) (k : K) : Q :=
  match t.pool.running k with
  | some (job, .await point _ _) => (d job).after (t.phase k) point t.pool.state
  | _ => rest

def step (t : Tracked K L Q P E S) (a : Pool.Action K L D) : Tracked K L Q P E S where
  pool := Pool.step key code disturbance t.pool a
  phase :=
    match a with
    | .advance k => Function.update t.phase k (t.nextPhase d rest k)
    | _ => t.phase

end Steps

variable {d : L → Discipline Q P S} {key : L → K} {code : L → Coroutine P E S Unit}
  {disturbance : D → S → S} {rest : Q} {t : Tracked K L Q P E S}

/-- A job that runs follows its discipline from its phase on; a caller without one is at rest. -/
def Fits (d : L → Discipline Q P S) (rest q : Q) : Option (L × Coroutine P E S Unit) → Prop
  | none => q = rest
  | some (job, c) => Coroutine.Follows (d job) (fun q _ => (d job).MayFail q) q c

def Disciplined (d : L → Discipline Q P S) (rest : Q) (t : Tracked K L Q P E S) : Prop :=
  ∀ k, Fits d rest (t.phase k) (t.pool.running k)

omit [DecidableEq K] in
theorem disciplined_idle (s : S) :
    Disciplined d rest (idle rest s : Tracked K L Q P E S) := fun _ => rfl

omit [DecidableEq K] in
/-- A call that is made is allowed. -/
theorem Disciplined.allowed (h : Disciplined d rest t) {k : K} {job : L} {point : P} {act : S → S}
    {next : S → Coroutine P E S Unit}
    (hrun : t.pool.running k = some (job, .await point act next)) :
    (d job).Allowed (t.phase k) point t.pool.state (act t.pool.state) := by
  have hfits := h k
  rw [hrun] at hfits
  exact (hfits _).1

omit [DecidableEq K] in
/-- A caller that ends may do so. -/
theorem Disciplined.mayFail (h : Disciplined d rest t) {k : K} {job : L} {r : Except E Unit}
    (hrun : t.pool.running k = some (job, .done r)) : (d job).MayFail (t.phase k) := by
  have hfits := h k
  rw [hrun] at hfits
  cases r with
  | ok _ => exact hfits
  | error e => exact hfits

/-- One caller goes on, the others stay as they are. -/
theorem fits_update {phase : K → Q} {running : K → Option (L × Coroutine P E S Unit)}
    (h : ∀ k, Fits d rest (phase k) (running k)) (j : K) {q : Q}
    {r : Option (L × Coroutine P E S Unit)} (hj : Fits d rest q r) (k : K) :
    Fits d rest (Function.update phase j q k) (Function.update running j r k) := by
  by_cases hk : k = j
  · subst hk
    rw [Function.update_self, Function.update_self]
    exact hj
  · rw [Function.update_of_ne hk, Function.update_of_ne hk]
    exact h k

/-- Every step keeps the disciplines. -/
theorem Disciplined.step (hcode : ∀ job,
      Coroutine.Follows (d job) (fun q (_ : Unit) => (d job).MayFail q) rest (code job))
    (h : Disciplined d rest t) (a : Pool.Action K L D) :
    Disciplined d rest (t.step d key code disturbance rest a) := by
  unfold Disciplined Tracked.step
  cases a with
  | disturb x => exact h
  | start job =>
    cases hbusy : t.pool.running (key job) with
    | some r =>
      rw [Pool.step_start_of_some hbusy]
      exact h
    | none =>
      rw [Pool.step_start_of_none hbusy]
      have hrest : t.phase (key job) = rest := by
        have hfits := h (key job)
        rwa [hbusy] at hfits
      have hsame : Function.update t.phase (key job) rest = t.phase := by
        rw [← hrest, Function.update_eq_self]
      have hstarted := fits_update h (key job) (q := rest) (r := some (job, code job)) (hcode job)
      rwa [hsame] at hstarted
  | advance j =>
    cases hj : t.pool.running j with
    | none =>
      rw [Pool.step_advance_of_none hj]
      have hidle := fits_update h j (q := rest) (r := none) rfl
      rw [← hj, Function.update_eq_self] at hidle
      dsimp only
      rwa [nextPhase, hj]
    | some r =>
      obtain ⟨job, c⟩ := r
      cases c with
      | done result =>
        rw [Pool.step_advance_done hj]
        dsimp only
        rw [nextPhase, hj]
        exact fits_update h j rfl
      | await point act next =>
        rw [Pool.step_advance_await hj]
        dsimp only
        rw [nextPhase, hj]
        have hfits := h j
        rw [hj] at hfits
        exact fits_update h j (hfits _).2

end Tracked

end HulyGitlab
