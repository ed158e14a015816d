import Mathlib.Order.Defs.Unbundled

/-!
# Computations over a state that may throw

An asynchronous function is a function from the state to a result and the
state it leaves. A throw ends the computation and keeps what was done
before it. `Within R` says that a computation only moves the state along a
preorder `R`, whether it returns or throws.
-/

namespace HulyGitlab

/-- A computation with errors `E` over a state `S`. -/
structure Effect (E S A : Type) where
  run : S → Except E A × S

namespace Effect

variable {E S A B : Type}

/-- Run the continuation on the result; a throw skips it. -/
def bind (m : Effect E S A) (f : A → Effect E S B) : Effect E S B where
  run s :=
    match m.run s with
    | (.ok a, s') => (f a).run s'
    | (.error e, s') => (.error e, s')

instance : Monad (Effect E S) where
  pure a := ⟨fun s => (.ok a, s)⟩
  bind := bind

/-- Reject with the error. -/
def throw (e : E) : Effect E S A := ⟨fun s => (.error e, s)⟩

/-- A value computed from the current state. -/
def gets (f : S → A) : Effect E S A := ⟨fun s => (.ok (f s), s)⟩

/-- An update of the state. -/
def modify (f : S → S) : Effect E S Unit := ⟨fun s => (.ok (), f s)⟩

/-- A step that reads and updates the state and may throw. -/
def step (f : S → Except E A × S) : Effect E S A := ⟨f⟩

/-- A result that may already be an error. -/
def ofExcept (r : Except E A) : Effect E S A := ⟨fun s => (r, s)⟩

/-- `try m catch handler`. -/
def attempt (m : Effect E S A) (handler : E → Effect E S A) : Effect E S A where
  run s :=
    match m.run s with
    | (.ok a, s') => (.ok a, s')
    | (.error e, s') => (handler e).run s'

/-- A `for … of` loop with an awaited body. -/
def forEach (body : A → Effect E S Unit) : List A → Effect E S Unit
  | [] => pure ()
  | a :: rest => do
      body a
      forEach body rest

/-- A `for … of` loop that pushes one result for each element. -/
def mapEach (body : A → Effect E S B) : List A → Effect E S (List B)
  | [] => pure []
  | a :: rest => do
      let b ← body a
      let bs ← mapEach body rest
      pure (b :: bs)

@[simp] theorem pure_run (a : A) (s : S) : (pure a : Effect E S A).run s = (.ok a, s) := rfl

@[simp] theorem throw_run (e : E) (s : S) : (throw e : Effect E S A).run s = (.error e, s) := rfl

@[simp] theorem gets_run (f : S → A) (s : S) : (gets f : Effect E S A).run s = (.ok (f s), s) := rfl

@[simp] theorem modify_run (f : S → S) (s : S) :
    (modify f : Effect E S Unit).run s = (.ok (), f s) := rfl

@[simp] theorem step_run (f : S → Except E A × S) (s : S) : (step f : Effect E S A).run s = f s := rfl

@[simp] theorem ofExcept_run (r : Except E A) (s : S) : (ofExcept r : Effect E S A).run s = (r, s) := rfl

@[simp] theorem forEach_nil (body : A → Effect E S Unit) : forEach body [] = pure () := rfl

theorem forEach_cons (body : A → Effect E S Unit) (a : A) (rest : List A) :
    forEach body (a :: rest) = (body a >>= fun _ => forEach body rest) := rfl

@[simp] theorem mapEach_nil (body : A → Effect E S B) : mapEach body [] = pure [] := rfl

theorem mapEach_cons (body : A → Effect E S B) (a : A) (rest : List A) :
    mapEach body (a :: rest) =
      (body a >>= fun b => mapEach body rest >>= fun bs => pure (b :: bs)) := rfl

theorem bind_run (m : Effect E S A) (f : A → Effect E S B) (s : S) :
    (m >>= f).run s = match m.run s with
      | (.ok a, s') => (f a).run s'
      | (.error e, s') => (.error e, s') := rfl

theorem attempt_run (m : Effect E S A) (handler : E → Effect E S A) (s : S) :
    (attempt m handler).run s = match m.run s with
      | (.ok a, s') => (.ok a, s')
      | (.error e, s') => (handler e).run s' := rfl

theorem bind_of_ok {m : Effect E S A} {f : A → Effect E S B} {s s' : S} {a : A}
    (h : m.run s = (.ok a, s')) : (m >>= f).run s = (f a).run s' := by
  rw [bind_run, h]

theorem bind_of_error {m : Effect E S A} {f : A → Effect E S B} {s s' : S} {e : E}
    (h : m.run s = (.error e, s')) : (m >>= f).run s = (.error e, s') := by
  rw [bind_run, h]

theorem bind_bind {C : Type} (m : Effect E S A) (f : A → Effect E S B) (g : B → Effect E S C) :
    (m >>= f) >>= g = m >>= fun a => f a >>= g := by
  have hrun : ∀ s, ((m >>= f) >>= g).run s = (m >>= fun a => f a >>= g).run s := by
    intro s
    rw [bind_run, bind_run, bind_run]
    obtain ⟨r, s'⟩ := m.run s
    cases r with
    | ok a => rfl
    | error e => rfl
  exact congrArg Effect.mk (funext hrun)

/-- Naming the result leaves the state that the computation left. -/
theorem bind_pure_snd (m : Effect E S A) (f : A → B) (s : S) :
    ((m >>= fun a => (pure (f a) : Effect E S B)).run s).2 = (m.run s).2 := by
  rw [bind_run]
  obtain ⟨r, s'⟩ := m.run s
  cases r with
  | ok a => rfl
  | error e => rfl

/-- What follows matters only for the state it leaves. -/
theorem bind_snd_congr {C : Type} {m : Effect E S A} {f : A → Effect E S B} {g : A → Effect E S C}
    (h : ∀ a s, ((f a).run s).2 = ((g a).run s).2) (s : S) :
    ((m >>= f).run s).2 = ((m >>= g).run s).2 := by
  rw [bind_run, bind_run]
  obtain ⟨r, s'⟩ := m.run s
  cases r with
  | ok a => exact h a s'
  | error e => rfl

/-- A bind that returns passed through both parts. -/
theorem bind_ok_iff {m : Effect E S A} {f : A → Effect E S B} {s s' : S} {b : B} :
    (m >>= f).run s = (.ok b, s') ↔
      ∃ a s₁, m.run s = (.ok a, s₁) ∧ (f a).run s₁ = (.ok b, s') := by
  rw [bind_run]
  cases h : m.run s with
  | mk r s₁ =>
    cases r with
    | ok a =>
      constructor
      · exact fun hb => ⟨a, s₁, rfl, hb⟩
      · rintro ⟨a', s₂, heq, hb⟩
        cases heq
        exact hb
    | error e =>
      constructor
      · intro hb
        cases hb
      · rintro ⟨a', s₂, heq, -⟩
        cases heq

theorem ofExcept_ok_iff {r : Except E A} {s s' : S} {a : A} :
    (ofExcept r).run s = (.ok a, s') ↔ r = .ok a ∧ s' = s := by
  rw [ofExcept_run, Prod.mk.injEq]
  exact and_congr Iff.rfl eq_comm

@[simp] theorem pure_bind_run (a : A) (f : A → Effect E S B) (s : S) :
    ((pure a : Effect E S A) >>= f).run s = (f a).run s := rfl

@[simp] theorem gets_bind_run (g : S → A) (f : A → Effect E S B) (s : S) :
    ((gets g : Effect E S A) >>= f).run s = (f (g s)).run s := rfl

@[simp] theorem modify_bind_run (g : S → S) (f : Unit → Effect E S B) (s : S) :
    ((modify g : Effect E S Unit) >>= f).run s = (f ()).run (g s) := rfl

@[simp] theorem throw_bind_run (e : E) (f : A → Effect E S B) (s : S) :
    ((throw e : Effect E S A) >>= f).run s = (.error e, s) := rfl

theorem ofExcept_ok_bind (a : A) (f : A → Effect E S B) :
    ((ofExcept (.ok a) : Effect E S A) >>= f) = f a := rfl

@[simp] theorem ofExcept_ok_bind_run (a : A) (f : A → Effect E S B) (s : S) :
    ((ofExcept (.ok a) : Effect E S A) >>= f).run s = (f a).run s := rfl

@[simp] theorem ofExcept_error_bind_run (e : E) (f : A → Effect E S B) (s : S) :
    ((ofExcept (.error e) : Effect E S A) >>= f).run s = (.error e, s) := rfl

@[simp] theorem ite_run {c : Prop} [Decidable c] (m n : Effect E S A) (s : S) :
    (if c then m else n).run s = if c then m.run s else n.run s := by
  by_cases h : c
  · rw [if_pos h, if_pos h]
  · rw [if_neg h, if_neg h]

/-- A loop of bodies that never fail returns what each of them returns in its turn. -/
theorem mapEach_run_of_ok {body : A → Effect E S B} {next : S → A → S} {value : S → A → B}
    (h : ∀ s a, (body a).run s = (.ok (value s a), next s a)) (xs : List A) (s : S) :
    ∃ bs, (mapEach body xs).run s = (.ok bs, xs.foldl next s) ∧
      ∀ b, b ∈ bs ↔ ∃ before a rest, xs = before ++ a :: rest ∧
        b = value (before.foldl next s) a := by
  induction xs generalizing s with
  | nil =>
    refine ⟨[], rfl, fun b => ⟨fun hb => absurd hb List.not_mem_nil, ?_⟩⟩
    rintro ⟨before, a, rest, hxs, -⟩
    exact absurd hxs (by simp)
  | cons x xs ih =>
    obtain ⟨bs, hrun, hmem⟩ := ih (next s x)
    refine ⟨value s x :: bs, ?_, fun b => ?_⟩
    · rw [mapEach_cons, bind_of_ok (h s x), bind_of_ok hrun]
      rfl
    · rw [List.mem_cons, hmem]
      constructor
      · rintro (rfl | ⟨before, a, rest, rfl, rfl⟩)
        · exact ⟨[], x, xs, rfl, rfl⟩
        · exact ⟨x :: before, a, rest, rfl, rfl⟩
      · rintro ⟨before, a, rest, hxs, rfl⟩
        cases before with
        | nil =>
          obtain ⟨rfl, -⟩ := List.cons.inj hxs
          exact .inl rfl
        | cons y before =>
          obtain ⟨rfl, rfl⟩ := List.cons.inj hxs
          exact .inr ⟨before, a, rest, rfl, rfl⟩

/-- Every run of the computation moves the state along `R`. -/
def Within (R : S → S → Prop) (m : Effect E S A) : Prop := ∀ s, R s (m.run s).2

namespace Within

variable {R : S → S → Prop}

theorem pure (hr : ∀ s, R s s) (a : A) : Within R (pure a : Effect E S A) := hr

theorem throw (hr : ∀ s, R s s) (e : E) : Within R (Effect.throw e : Effect E S A) := hr

theorem gets (hr : ∀ s, R s s) (f : S → A) : Within R (Effect.gets f : Effect E S A) := hr

theorem step {f : S → Except E A × S} (h : ∀ s, R s (f s).2) :
    Within R (Effect.step f : Effect E S A) := h

theorem ofExcept (hr : ∀ s, R s s) (r : Except E A) :
    Within R (Effect.ofExcept r : Effect E S A) := hr

theorem modify {f : S → S} (h : ∀ s, R s (f s)) :
    Within R (Effect.modify f : Effect E S Unit) := h

theorem mono {R' : S → S → Prop} (h : ∀ s s', R s s' → R' s s') {m : Effect E S A}
    (hm : Within R m) : Within R' m := fun s => h _ _ (hm s)

theorem of_run {m : Effect E S A} (hm : Within R m) {s s' : S} {r : Except E A}
    (h : m.run s = (r, s')) : R s s' := by
  have hs := hm s
  rw [h] at hs
  exact hs

/-- The continuation is only asked for the results the first part can return. -/
theorem bind_of (ht : ∀ a b c, R a b → R b c → R a c) {m : Effect E S A}
    {f : A → Effect E S B} (hm : Within R m)
    (hf : ∀ s a s', m.run s = (.ok a, s') → R s' ((f a).run s').2) : Within R (m >>= f) := by
  intro s
  have h1 := hm s
  rw [bind_run]
  cases h : m.run s with
  | mk r s' =>
    rw [h] at h1
    cases r with
    | ok a => exact ht _ _ _ h1 (hf s a s' h)
    | error e => exact h1

theorem bind (ht : ∀ a b c, R a b → R b c → R a c) {m : Effect E S A}
    {f : A → Effect E S B} (hm : Within R m) (hf : ∀ a, Within R (f a)) :
    Within R (m >>= f) :=
  bind_of ht hm fun _ a s' _ => hf a s'

/-- What follows a computation moves on from where it ended. -/
theorem after {m : Effect E S A} {f : A → Effect E S B} (hr : ∀ s, R s s)
    (hf : ∀ a, Within R (f a)) (s : S) : R (m.run s).2 ((m >>= f).run s).2 := by
  rw [bind_run]
  obtain ⟨r, s'⟩ := m.run s
  cases r with
  | ok a => exact hf a s'
  | error e => exact hr s'

theorem ite {c : Prop} [Decidable c] {m n : Effect E S A} (hm : c → Within R m)
    (hn : ¬ c → Within R n) : Within R (if c then m else n) := by
  by_cases h : c
  · rw [if_pos h]; exact hm h
  · rw [if_neg h]; exact hn h

theorem attempt (ht : ∀ a b c, R a b → R b c → R a c) {m : Effect E S A}
    {handler : E → Effect E S A} (hm : Within R m) (hh : ∀ e, Within R (handler e)) :
    Within R (Effect.attempt m handler) := by
  intro s
  have h1 := hm s
  rw [attempt_run]
  cases h : m.run s with
  | mk r s' =>
    rw [h] at h1
    cases r with
    | ok a => exact h1
    | error e => exact ht _ _ _ h1 (hh e s')

theorem forEach (hr : ∀ s, R s s) (ht : ∀ a b c, R a b → R b c → R a c)
    {body : A → Effect E S Unit} {xs : List A} (h : ∀ a ∈ xs, Within R (body a)) :
    Within R (Effect.forEach body xs) := by
  induction xs with
  | nil => exact pure hr ()
  | cons a rest ih =>
    rw [forEach_cons]
    apply bind ht (h a List.mem_cons_self)
    intro _
    exact ih fun b hb => h b (List.mem_cons_of_mem a hb)

theorem mapEach (hr : ∀ s, R s s) (ht : ∀ a b c, R a b → R b c → R a c)
    {body : A → Effect E S B} {xs : List A} (h : ∀ a ∈ xs, Within R (body a)) :
    Within R (Effect.mapEach body xs) := by
  induction xs with
  | nil => exact pure hr []
  | cons a rest ih =>
    rw [mapEach_cons]
    apply bind ht (h a List.mem_cons_self)
    intro b
    apply bind ht (ih fun c hc => h c (List.mem_cons_of_mem a hc))
    intro bs
    exact pure hr _

end Within

/-- Whenever the computation returns, its result satisfies `Q`. -/
def Yields (Q : A → Prop) (m : Effect E S A) : Prop := ∀ s a s', m.run s = (.ok a, s') → Q a

namespace Yields

variable {Q : A → Prop} {Q' : B → Prop}

theorem any (m : Effect E S A) : Yields (fun _ => True) m := fun _ _ _ _ => trivial

theorem pure {a : A} (h : Q a) : Yields Q (pure a : Effect E S A) := by
  intro s b s' hrun
  cases hrun
  exact h

theorem bind_of {m : Effect E S A} {f : A → Effect E S B} (hm : Yields Q m)
    (hf : ∀ a, Q a → Yields Q' (f a)) : Yields Q' (m >>= f) := by
  intro s b s' hrun
  obtain ⟨a, s₁, hfirst, hrest⟩ := bind_ok_iff.mp hrun
  exact hf a (hm s a s₁ hfirst) s₁ b s' hrest

theorem bind {m : Effect E S A} {f : A → Effect E S B} (hf : ∀ a, Yields Q' (f a)) :
    Yields Q' (m >>= f) :=
  bind_of (any m) fun a _ => hf a

theorem mapEach_length (body : A → Effect E S B) (xs : List A) :
    Yields (fun bs => bs.length = xs.length) (Effect.mapEach body xs) := by
  induction xs with
  | nil => exact pure rfl
  | cons a rest ih =>
    rw [mapEach_cons]
    refine bind fun b => bind_of ih fun bs hbs => pure ?_
    rw [List.length_cons, List.length_cons, hbs]

end Yields

/-- From every state that satisfies `J` the computation returns a result that satisfies `Q`, in a
state that satisfies `J` again. -/
def Returns (J : S → Prop) (Q : A → Prop) (m : Effect E S A) : Prop :=
  ∀ s, J s → ∃ a s', m.run s = (.ok a, s') ∧ J s' ∧ Q a

namespace Returns

variable {J : S → Prop} {Q : A → Prop} {Q' : B → Prop}

theorem pure {a : A} (h : Q a) : Returns J Q (pure a : Effect E S A) :=
  fun s hs => ⟨a, s, rfl, hs, h⟩

theorem ofExcept {r : Except E A} {a : A} (hr : r = .ok a) (h : Q a) :
    Returns J Q (Effect.ofExcept r : Effect E S A) := by
  subst hr
  exact fun s hs => ⟨a, s, rfl, hs, h⟩

theorem bind {m : Effect E S A} {f : A → Effect E S B} (hm : Returns J Q m)
    (hf : ∀ a, Q a → Returns J Q' (f a)) : Returns J Q' (m >>= f) := by
  intro s hs
  obtain ⟨a, s₁, hrun, hJ, hQ⟩ := hm s hs
  rw [bind_of_ok hrun]
  exact hf a hQ s₁ hJ

theorem mapEach {body : A → Effect E S B} {xs : List A} (h : ∀ a ∈ xs, Returns J Q' (body a)) :
    Returns J (fun bs => ∀ b ∈ bs, Q' b) (Effect.mapEach body xs) := by
  induction xs with
  | nil => exact pure fun b hb => absurd hb List.not_mem_nil
  | cons a rest ih =>
    rw [mapEach_cons]
    refine bind (h a List.mem_cons_self) fun b hb => ?_
    refine bind (ih fun c hc => h c (List.mem_cons_of_mem a hc)) fun bs hbs => ?_
    refine pure fun c hc => ?_
    obtain rfl | hc := List.mem_cons.mp hc
    · exact hb
    · exact hbs c hc

theorem forEach {body : A → Effect E S Unit} {xs : List A}
    (h : ∀ a ∈ xs, Returns J (fun _ => True) (body a)) :
    Returns J (fun _ => True) (Effect.forEach body xs) := by
  induction xs with
  | nil => exact pure trivial
  | cons a rest ih =>
    rw [forEach_cons]
    exact bind (h a List.mem_cons_self) fun _ _ => ih fun c hc => h c (List.mem_cons_of_mem a hc)

end Returns

/-- From a state that satisfies `P`, a run that returns ends in `Q` and one that throws in `R`. -/
def Triple (P : S → Prop) (m : Effect E S A) (Q : A → S → Prop) (R : S → Prop) : Prop :=
  ∀ s, P s → (∃ a s', m.run s = (.ok a, s') ∧ Q a s') ∨ ∃ e s', m.run s = (.error e, s') ∧ R s'

namespace Triple

variable {P : S → Prop} {Q : A → S → Prop} {Q' : B → S → Prop} {R : S → Prop}

theorem pure {a : A} (h : ∀ s, P s → Q a s) : Triple P (pure a : Effect E S A) Q R :=
  fun s hs => .inl ⟨a, s, rfl, h s hs⟩

theorem ofExcept {r : Except E A} (hok : ∀ a s, r = .ok a → P s → Q a s)
    (herr : ∀ s, P s → R s) : Triple P (Effect.ofExcept r : Effect E S A) Q R := by
  intro s hs
  cases r with
  | ok a => exact .inl ⟨a, s, rfl, hok a s rfl hs⟩
  | error e => exact .inr ⟨e, s, rfl, herr s hs⟩

theorem gets {f : S → A} (h : ∀ s, P s → Q (f s) s) : Triple P (Effect.gets f : Effect E S A) Q R :=
  fun s hs => .inl ⟨f s, s, rfl, h s hs⟩

theorem modify {f : S → S} {Q : Unit → S → Prop} (h : ∀ s, P s → Q () (f s)) :
    Triple P (Effect.modify f : Effect E S Unit) Q R :=
  fun s hs => .inl ⟨(), f s, rfl, h s hs⟩

theorem bind {m : Effect E S A} {f : A → Effect E S B} (hm : Triple P m Q R)
    (hf : ∀ a, Triple (Q a) (f a) Q' R) : Triple P (m >>= f) Q' R := by
  intro s hs
  obtain ⟨a, s', hrun, hQ⟩ | ⟨e, s', hrun, hR⟩ := hm s hs
  · rw [bind_of_ok hrun]
    exact hf a s' hQ
  · exact .inr ⟨e, s', bind_of_error hrun, hR⟩

/-- A stronger precondition. -/
theorem pre {P' : S → Prop} {m : Effect E S A} (hP : ∀ s, P' s → P s) (h : Triple P m Q R) :
    Triple P' m Q R := fun s hs => h s (hP s hs)

/-- Each state may be looked at on its own. -/
theorem of_forall {m : Effect E S A} (h : ∀ s, P s → Triple (fun t => t = s) m Q R) :
    Triple P m Q R := fun s hs => h s hs s rfl

/-- However the run ends, where both ends agree. -/
theorem ends {m : Effect E S A} (h : Triple P m (fun _ => R) R) {s : S} (hs : P s) :
    R (m.run s).2 := by
  obtain ⟨a, s', hrun, hR⟩ | ⟨e, s', hrun, hR⟩ := h s hs
  · rwa [hrun]
  · rwa [hrun]

/-- A pure fact in the precondition. -/
theorem of_and {p : Prop} {m : Effect E S A} (h : p → Triple P m Q R) :
    Triple (fun s => P s ∧ p) m Q R := fun s hs => h hs.2 s hs.1

/-- The loop keeps what every round keeps. -/
theorem forEach {body : A → Effect E S Unit} {xs : List A}
    (h : ∀ a ∈ xs, Triple R (body a) (fun _ => R) R) :
    Triple R (Effect.forEach body xs) (fun _ => R) R := by
  induction xs with
  | nil => exact pure fun _ hs => hs
  | cons a rest ih =>
    rw [forEach_cons]
    exact bind (h a List.mem_cons_self) fun _ => ih fun c hc => h c (List.mem_cons_of_mem a hc)

/-- A computation that moves along a relation, from a known state. -/
theorem of_within {W : S → S → Prop} {m : Effect E S A} (h : Within W m) (s : S)
    (hQ : ∀ a s', m.run s = (.ok a, s') → W s s' → Q a s') (hR : ∀ s', W s s' → R s') :
    Triple (fun t => t = s) m Q R := by
  rintro t rfl
  have hw := h t
  cases hrun : m.run t with
  | mk r s' =>
    rw [hrun] at hw
    cases r with
    | ok a => exact .inl ⟨a, s', rfl, hQ a s' hrun hw⟩
    | error e => exact .inr ⟨e, s', rfl, hR s' hw⟩

end Triple

/-- A log of the state only grows, and only by entries that satisfy `P`. -/
def Appends {L : Type} (log : S → List L) (P : L → Prop) (s s' : S) : Prop :=
  ∃ entries, log s' = log s ++ entries ∧ ∀ e ∈ entries, P e

namespace Appends

variable {L : Type} {log : S → List L} {P : L → Prop}

theorem of_eq {s s' : S} (h : log s' = log s) : Appends log P s s' :=
  ⟨[], by rw [h, List.append_nil], fun _ he => absurd he List.not_mem_nil⟩

theorem refl (s : S) : Appends log P s s := of_eq rfl

theorem trans (s₁ s₂ s₃ : S) (h : Appends log P s₁ s₂) (h' : Appends log P s₂ s₃) :
    Appends log P s₁ s₃ := by
  obtain ⟨xs, hxs, hPx⟩ := h
  obtain ⟨ys, hys, hPy⟩ := h'
  refine ⟨xs ++ ys, by rw [hys, hxs, List.append_assoc], fun e he => ?_⟩
  obtain he | he := List.mem_append.mp he
  · exact hPx e he
  · exact hPy e he

theorem one {s s' : S} {e : L} (h : log s' = log s ++ [e]) (hP : P e) : Appends log P s s' :=
  ⟨[e], h, fun _ hx => List.mem_singleton.mp hx ▸ hP⟩

theorem imp {Q : L → Prop} (h : ∀ e, P e → Q e) {s s' : S} (hs : Appends log P s s') :
    Appends log Q s s' := by
  obtain ⟨xs, hxs, hP⟩ := hs
  exact ⟨xs, hxs, fun e he => h e (hP e he)⟩

end Appends

end Effect

end HulyGitlab
