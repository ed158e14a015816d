import HulyGitlab.Lib.Effect
import HulyGitlab.Lib.Transition
import Mathlib.Data.List.Induction
import Mathlib.Logic.Function.Basic

/-!
# Computations that interleave at their awaits

A coroutine is an asynchronous function cut at its awaits: each await names
the call it waits for, the call acts on the state at once, and between two
awaits other computations may run. Run without interruption it is an `Effect`.
`Safe` is the rely-guarantee rule: under an invariant every call returns and
keeps the invariant.
-/

namespace HulyGitlab

/-- A computation over a state `S` with errors `E`; `P` names the calls it awaits. -/
inductive Coroutine (P E S A : Type) : Type
  | done (result : Except E A)
  | await (point : P) (act : S → S) (rest : S → Coroutine P E S A)

namespace Coroutine

variable {P E S A B : Type}

def bind : Coroutine P E S A → (A → Coroutine P E S B) → Coroutine P E S B
  | .done (.ok a), f => f a
  | .done (.error e), _ => .done (.error e)
  | .await point act rest, f => .await point act fun s => (rest s).bind f

instance : Monad (Coroutine P E S) where
  pure a := .done (.ok a)
  bind := bind

/-- One awaited call. -/
def call (point : P) (m : Effect E S A) : Coroutine P E S A :=
  .await point (fun s => (m.run s).2) fun s => .done (m.run s).1

/-- A result that needs no await. -/
def ofExcept (r : Except E A) : Coroutine P E S A := .done r

/-- The call the computation waits for. -/
def next : Coroutine P E S A → Option P
  | .done _ => none
  | .await point _ _ => some point

/-- The computation without anything in between. -/
def toEffect : Coroutine P E S A → Effect E S A
  | .done r => Effect.ofExcept r
  | .await _ act rest => Effect.step fun s => (rest s).toEffect.run (act s)

@[simp] theorem pure_bind (a : A) (f : A → Coroutine P E S B) : (pure a >>= f) = f a := rfl

@[simp] theorem ofExcept_ok_bind (a : A) (f : A → Coroutine P E S B) :
    ((ofExcept (.ok a) : Coroutine P E S A) >>= f) = f a := rfl

@[simp] theorem next_call_bind (point : P) (m : Effect E S A) (f : A → Coroutine P E S B) :
    (call point m >>= f).next = some point := rfl

@[simp] theorem toEffect_pure (a : A) : (pure a : Coroutine P E S A).toEffect = pure a := rfl

@[simp] theorem toEffect_ofExcept (r : Except E A) :
    (ofExcept r : Coroutine P E S A).toEffect = Effect.ofExcept r := rfl

@[simp] theorem toEffect_call (point : P) (m : Effect E S A) : (call point m).toEffect = m := rfl

/-- What a call does, and how the computation goes on when it returns. -/
theorem call_bind_await (point : P) (m : Effect E S A) (f : A → Coroutine P E S B) :
    ∃ act rest, (call point m >>= f) = .await point act rest ∧
      ∀ s a s', m.run s = (.ok a, s') → act s = s' ∧ rest s = f a := by
  refine ⟨_, _, rfl, fun s a s' hrun => ⟨?_, ?_⟩⟩
  · rw [hrun]
  · dsimp only
    rw [hrun]
    rfl

/-- Running alone, a coroutine is the composition of its parts. -/
@[simp] theorem toEffect_bind (p : Coroutine P E S A) (f : A → Coroutine P E S B) :
    (p >>= f).toEffect = p.toEffect >>= fun a => (f a).toEffect := by
  induction p with
  | done r =>
    cases r with
    | ok a => rfl
    | error e => rfl
  | await point act rest ih =>
    have hrest : ∀ s, ((rest s >>= f).toEffect).run (act s) =
        ((rest s).toEffect >>= fun a => (f a).toEffect).run (act s) := fun s => by rw [ih s]
    calc (await point act rest >>= f).toEffect
        = Effect.step fun s => ((rest s >>= f).toEffect).run (act s) := rfl
      _ = Effect.step fun s => ((rest s).toEffect >>= fun a => (f a).toEffect).run (act s) :=
          congrArg Effect.step (funext hrest)
      _ = (await point act rest).toEffect >>= fun a => (f a).toEffect := rfl

@[simp] theorem toEffect_ite {c : Prop} [Decidable c] (p q : Coroutine P E S A) :
    (if c then p else q).toEffect = if c then p.toEffect else q.toEffect := by
  by_cases h : c
  · rw [if_pos h, if_pos h]
  · rw [if_neg h, if_neg h]

/-- A `for … of` loop whose body awaits. -/
def forEach (body : A → Coroutine P E S Unit) : List A → Coroutine P E S Unit
  | [] => pure ()
  | a :: rest => body a >>= fun _ => forEach body rest

/-- A `for … of` loop that awaits one result for each element. -/
def mapEach (body : A → Coroutine P E S B) : List A → Coroutine P E S (List B)
  | [] => pure []
  | a :: rest => body a >>= fun b => mapEach body rest >>= fun bs => pure (b :: bs)

theorem toEffect_forEach {body : A → Coroutine P E S Unit} {body' : A → Effect E S Unit}
    (h : ∀ a, (body a).toEffect = body' a) (xs : List A) :
    (forEach body xs).toEffect = Effect.forEach body' xs := by
  induction xs with
  | nil => rfl
  | cons a rest ih => rw [forEach, toEffect_bind, h, ih, Effect.forEach_cons]

theorem toEffect_mapEach {body : A → Coroutine P E S B} {body' : A → Effect E S B}
    (h : ∀ a, (body a).toEffect = body' a) (xs : List A) :
    (mapEach body xs).toEffect = Effect.mapEach body' xs := by
  induction xs with
  | nil => rfl
  | cons a rest ih =>
    simp only [mapEach, toEffect_bind, h, ih, Effect.mapEach_cons, toEffect_pure]

/-- Whatever happens in between, a result satisfies `Q`. -/
inductive Yields (Q : A → Prop) : Coroutine P E S A → Prop
  | ok {a : A} (h : Q a) : Yields Q (.done (.ok a))
  | error (e : E) : Yields Q (.done (.error e))
  | await {point : P} {act : S → S} {rest : S → Coroutine P E S A}
      (hrest : ∀ s, Yields Q (rest s)) : Yields Q (.await point act rest)

namespace Yields

variable {Q : A → Prop}

theorem pure {a : A} (h : Q a) : Yields Q (pure a : Coroutine P E S A) := ok h

theorem any (p : Coroutine P E S A) : Yields (fun _ => True) p := by
  induction p with
  | done r =>
    cases r with
    | ok a => exact ok trivial
    | error e => exact error e
  | await point act rest ih => exact await ih

theorem bind {Q' : B → Prop} {p : Coroutine P E S A} {f : A → Coroutine P E S B}
    (hp : Yields Q p) (hf : ∀ a, Q a → Yields Q' (f a)) : Yields Q' (p >>= f) := by
  induction hp with
  | ok h => exact hf _ h
  | error e => exact error e
  | await hrest ih => exact await ih

/-- The last part gives the result. -/
theorem last {Q' : B → Prop} (p : Coroutine P E S A) {f : A → Coroutine P E S B}
    (hf : ∀ a, Yields Q' (f a)) : Yields Q' (p >>= f) := bind (any p) fun a _ => hf a

end Yields

/-- Whatever happens in between, every call moves the state along `R`. -/
inductive Always (R : P → S → S → Prop) : Coroutine P E S A → Prop
  | done (r : Except E A) : Always R (.done r)
  | await {point : P} {act : S → S} {rest : S → Coroutine P E S A}
      (h : ∀ s, R point s (act s)) (hrest : ∀ s, Always R (rest s)) :
      Always R (.await point act rest)

namespace Always

variable {R : P → S → S → Prop}

theorem pure (a : A) : Always R (pure a : Coroutine P E S A) := done _

theorem ofExcept (r : Except E A) : Always R (Coroutine.ofExcept r : Coroutine P E S A) := done r

theorem call {point : P} {m : Effect E S A} (h : ∀ s, R point s (m.run s).2) :
    Always R (Coroutine.call point m) := await h fun _ => done _

theorem bind {p : Coroutine P E S A} {f : A → Coroutine P E S B} (hp : Always R p)
    (hf : ∀ a, Always R (f a)) : Always R (p >>= f) := by
  induction hp with
  | done r =>
    cases r with
    | ok a => exact hf a
    | error e => exact done _
  | await h hrest ih => exact await h ih

theorem ofExcept_bind {r : Except E A} {f : A → Coroutine P E S B}
    (hf : ∀ a, r = .ok a → Always R (f a)) : Always R (Coroutine.ofExcept r >>= f) := by
  cases r with
  | ok a => exact hf a rfl
  | error e => exact done _

theorem bind_yields {Q : A → Prop} {p : Coroutine P E S A} {f : A → Coroutine P E S B}
    (hp : Always R p) (hy : Yields Q p) (hf : ∀ a, Q a → Always R (f a)) :
    Always R (p >>= f) := by
  induction hp with
  | done r =>
    cases hy with
    | ok h => exact hf _ h
    | error e => exact done _
  | await h hrest ih =>
    cases hy with
    | await hy => exact await h fun s => ih s (hy s)

theorem ite {c : Prop} [Decidable c] {p q : Coroutine P E S A} (hp : Always R p)
    (hq : Always R q) : Always R (if c then p else q) := by
  by_cases h : c
  · rwa [if_pos h]
  · rwa [if_neg h]

theorem forEach {body : A → Coroutine P E S Unit} (h : ∀ a, Always R (body a)) (xs : List A) :
    Always R (Coroutine.forEach body xs) := by
  induction xs with
  | nil => exact pure ()
  | cons a rest ih => exact bind (h a) fun _ => ih

theorem mapEach {body : A → Coroutine P E S B} (h : ∀ a, Always R (body a)) (xs : List A) :
    Always R (Coroutine.mapEach body xs) := by
  induction xs with
  | nil => exact pure []
  | cons a rest ih => exact bind (h a) fun _ => bind ih fun _ => pure _

theorem mono {R' : P → S → S → Prop} (hR : ∀ point s s', R point s s' → R' point s s')
    {p : Coroutine P E S A} (h : Always R p) : Always R' p := by
  induction h with
  | done r => exact done r
  | await h hrest ih => exact await (fun s => hR _ _ _ (h s)) ih

end Always

/-- As `Always`, for a relation that also takes the states in which the calls so far were made. -/
inductive Recalls (R : List S → P → S → S → Prop) : List S → Coroutine P E S A → Prop
  | done (seen : List S) (r : Except E A) : Recalls R seen (.done r)
  | await {seen : List S} {point : P} {act : S → S} {rest : S → Coroutine P E S A}
      (h : ∀ s, R (s :: seen) point s (act s)) (hrest : ∀ s, Recalls R (s :: seen) (rest s)) :
      Recalls R seen (.await point act rest)

namespace Recalls

variable {R : List S → P → S → S → Prop} {seen : List S}

theorem pure (a : A) : Recalls R seen (pure a : Coroutine P E S A) := done _ _

theorem ofExcept_bind {r : Except E A} {f : A → Coroutine P E S B}
    (h : ∀ a, Recalls R seen (f a)) : Recalls R seen (Coroutine.ofExcept r >>= f) := by
  cases r with
  | ok a => exact h a
  | error e => exact done _ _

/-- What follows a call may use what the call returned, and where. -/
theorem call_bind {point : P} {m : Effect E S A} {f : A → Coroutine P E S B}
    (h : ∀ s, R (s :: seen) point s (m.run s).2)
    (hf : ∀ s a, (m.run s).1 = .ok a → Recalls R (s :: seen) (f a)) :
    Recalls R seen (Coroutine.call point m >>= f) := by
  refine await h fun s => ?_
  change Recalls R (s :: seen) ((Coroutine.done (m.run s).1).bind f)
  cases hrun : (m.run s).1 with
  | ok a => exact hf s a hrun
  | error e => exact done _ _

theorem call {point : P} {m : Effect E S A} (h : ∀ s, R (s :: seen) point s (m.run s).2) :
    Recalls R seen (Coroutine.call point m) := await h fun _ => done _ _

theorem bind {p : Coroutine P E S A} {f : A → Coroutine P E S B} (hp : Recalls R seen p)
    (hf : ∀ a earlier, seen ⊆ earlier → Recalls R earlier (f a)) :
    Recalls R seen (p >>= f) := by
  induction hp with
  | done seen r =>
    cases r with
    | ok a => exact hf a seen (List.Subset.refl seen)
    | error e => exact done _ _
  | await h hrest ih =>
    refine await h fun s => ih s fun a earlier hsub => hf a earlier ?_
    exact fun t ht => hsub (List.mem_cons_of_mem s ht)

theorem of_always {Q : P → S → S → Prop} {p : Coroutine P E S A}
    (hQ : ∀ seen point s s', Q point s s' → R seen point s s') (hp : Always Q p) :
    Recalls R seen p := by
  induction hp generalizing seen with
  | done r => exact done _ _
  | await h hrest ih => exact await (fun s => hQ _ _ _ _ (h s)) fun s => ih s

theorem ite {c : Prop} [Decidable c] {p q : Coroutine P E S A} (hp : Recalls R seen p)
    (hq : Recalls R seen q) : Recalls R seen (if c then p else q) := by
  by_cases h : c
  · rwa [if_pos h]
  · rwa [if_neg h]

/-- The next call of the rest of a computation. -/
theorem next_call {point : P} {act : S → S} {rest : S → Coroutine P E S A}
    (h : Recalls R seen (.await point act rest)) (s : S) :
    R (s :: seen) point s (act s) ∧ Recalls R (s :: seen) (rest s) := by
  cases h with
  | await h hrest => exact ⟨h s, hrest s⟩

end Recalls

/-- Run alone, calls that move the state along a preorder add up to a move along it. -/
theorem Always.within {G : P → S → S → Prop} {R : S → S → Prop} (hr : ∀ s, R s s)
    (ht : ∀ a b c, R a b → R b c → R a c) (hG : ∀ point s s', G point s s' → R s s')
    {p : Coroutine P E S A} (h : Always G p) : Effect.Within R p.toEffect := by
  induction h with
  | done r => exact hr
  | await h hrest ih => exact fun s => ht _ _ _ (hG _ _ _ (h s)) (ih s _)

/-- The calls the computation makes when it runs alone. -/
def calls : Coroutine P E S A → S → List P
  | .done _, _ => []
  | .await point act rest, s => point :: (rest s).calls (act s)

@[simp] theorem calls_pure (a : A) (s : S) : (pure a : Coroutine P E S A).calls s = [] := rfl

@[simp] theorem calls_ofExcept (r : Except E A) (s : S) :
    (ofExcept r : Coroutine P E S A).calls s = [] := rfl

@[simp] theorem calls_call (point : P) (m : Effect E S A) (s : S) :
    (call point m).calls s = [point] := rfl

theorem calls_bind (p : Coroutine P E S A) (f : A → Coroutine P E S B) (s : S) :
    (p >>= f).calls s = p.calls s ++
      match p.toEffect.run s with
      | (.ok a, s') => (f a).calls s'
      | (.error _, _) => [] := by
  induction p generalizing s with
  | done r =>
    cases r with
    | ok a => rfl
    | error e => rfl
  | await point act rest ih =>
    calc (await point act rest >>= f).calls s
        = point :: (rest s >>= f).calls (act s) := rfl
      _ = point :: ((rest s).calls (act s) ++
            match (rest s).toEffect.run (act s) with
            | (.ok a, s') => (f a).calls s'
            | (.error _, _) => []) := by rw [ih s (act s)]
      _ = _ := rfl

/-- What the computation does after a part that returns. -/
theorem calls_bind_of_ok {p : Coroutine P E S A} {f : A → Coroutine P E S B} {s s' : S} {a : A}
    (h : p.toEffect.run s = (.ok a, s')) :
    (p >>= f).calls s = p.calls s ++ (f a).calls s' := by
  rw [calls_bind, h]

/-- The calls come from the first part, or from the rest after it returned. -/
theorem mem_calls_bind {p : Coroutine P E S A} {f : A → Coroutine P E S B} {s : S} {point : P}
    (h : point ∈ (p >>= f).calls s) :
    point ∈ p.calls s ∨
      ∃ a s', p.toEffect.run s = (.ok a, s') ∧ point ∈ (f a).calls s' := by
  rw [calls_bind] at h
  refine (List.mem_append.mp h).imp id fun hrest => ?_
  cases hrun : p.toEffect.run s with
  | mk r s' =>
    rw [hrun] at hrest
    cases r with
    | ok a => exact ⟨a, s', rfl, hrest⟩
    | error e => exact absurd hrest List.not_mem_nil

/-- What holds of every call whatever happens in between holds of those made alone. -/
theorem Always.of_mem_calls {Q : P → Prop} {p : Coroutine P E S A}
    (h : Always (fun point _ _ => Q point) p) {s : S} {point : P} (hmem : point ∈ p.calls s) :
    Q point := by
  induction h generalizing s with
  | done r => exact absurd hmem List.not_mem_nil
  | await h hrest ih =>
    obtain rfl | hlater := List.mem_cons.mp hmem
    · exact h s
    · exact ih s hlater

/-- The calls of the first part are calls of the whole. -/
theorem mem_calls_left {p : Coroutine P E S A} {f : A → Coroutine P E S B} {s : S} {point : P}
    (h : point ∈ p.calls s) : point ∈ (p >>= f).calls s := by
  rw [calls_bind]
  exact List.mem_append_left _ h

/-- So are those of the rest, after a first part that returns. -/
theorem mem_calls_right {p : Coroutine P E S A} {f : A → Coroutine P E S B} {s s' : S} {a : A}
    {point : P} (h : p.toEffect.run s = (.ok a, s')) (hmem : point ∈ (f a).calls s') :
    point ∈ (p >>= f).calls s := by
  rw [calls_bind_of_ok h]
  exact List.mem_append_right _ hmem

/-- Alone, from this state, the computation makes only calls that satisfy `Q`. -/
def MakesOnly (Q : P → Prop) (p : Coroutine P E S A) (s : S) : Prop := ∀ point ∈ p.calls s, Q point

namespace MakesOnly

variable {Q : P → Prop} {s : S}

theorem pure (a : A) : MakesOnly Q (pure a : Coroutine P E S A) s :=
  fun _ h => absurd h List.not_mem_nil

theorem bind {p : Coroutine P E S A} {f : A → Coroutine P E S B} (hp : MakesOnly Q p s)
    (hf : ∀ a s', p.toEffect.run s = (.ok a, s') → MakesOnly Q (f a) s') :
    MakesOnly Q (p >>= f) s := by
  intro point hmem
  obtain hfirst | ⟨a, s', hrun, hrest⟩ := mem_calls_bind hmem
  · exact hp point hfirst
  · exact hf a s' hrun point hrest

/-- What holds of all calls holds of those after a part that returns. -/
theorem rest {p : Coroutine P E S A} {f : A → Coroutine P E S B} {s' : S} {a : A}
    (h : MakesOnly Q (p >>= f) s) (hrun : p.toEffect.run s = (.ok a, s')) :
    MakesOnly Q (f a) s' := fun point hmem => h point (mem_calls_right hrun hmem)

theorem of_always {p : Coroutine P E S A} (h : Always (fun point _ _ => Q point) p) (s : S) :
    MakesOnly Q p s := fun _ hmem => h.of_mem_calls hmem

theorem ofExcept_bind {r : Except E A} {f : A → Coroutine P E S B}
    (hf : ∀ a, r = .ok a → MakesOnly Q (f a) s) :
    MakesOnly Q (Coroutine.ofExcept r >>= f) s := by
  cases r with
  | ok a => exact hf a rfl
  | error e => exact fun _ h => absurd h List.not_mem_nil

end MakesOnly

/-- Started and resumed in states that satisfy `J`, every call keeps `J` and moves the state along
`G`, and the computation returns a result that satisfies `Q`. -/
def Safe (J : S → Prop) (G : P → S → S → Prop) (Q : A → Prop) : Coroutine P E S A → Prop
  | .done r => ∃ a, r = .ok a ∧ Q a
  | .await point act rest =>
      ∀ s, J s → J (act s) ∧ G point s (act s) ∧ Safe J G Q (rest s)

namespace Safe

variable {J : S → Prop} {G : P → S → S → Prop} {Q : A → Prop} {R : B → Prop}

theorem pure {a : A} (h : Q a) : Safe J G Q (pure a : Coroutine P E S A) := ⟨a, rfl, h⟩

theorem ofExcept {r : Except E A} {a : A} (hr : r = .ok a) (h : Q a) :
    Safe J G Q (Coroutine.ofExcept r : Coroutine P E S A) := ⟨a, hr, h⟩

theorem call {point : P} {m : Effect E S A}
    (h : ∀ s, J s → ∃ a s', m.run s = (.ok a, s') ∧ J s' ∧ G point s s' ∧ Q a) :
    Safe J G Q (Coroutine.call point m) := by
  intro s hs
  obtain ⟨a, s', hrun, hJ, hG, hQ⟩ := h s hs
  dsimp only
  rw [hrun]
  exact ⟨hJ, hG, a, rfl, hQ⟩

theorem bind {p : Coroutine P E S A} {f : A → Coroutine P E S B} (hp : Safe J G Q p)
    (hf : ∀ a, Q a → Safe J G R (f a)) : Safe J G R (p >>= f) := by
  induction p with
  | done r =>
    obtain ⟨a, rfl, ha⟩ := hp
    exact hf a ha
  | await point act rest ih =>
    intro s hs
    obtain ⟨hJ, hG, hrest⟩ := hp s hs
    exact ⟨hJ, hG, ih s hrest⟩

end Safe

/-- Calls that keep `J` and move the state along `G` lead to a point where the rest of the
computation satisfies `At`. -/
def Leads (J : S → Prop) (G : P → S → S → Prop) (At : Coroutine P E S B → Prop) :
    Coroutine P E S B → Prop
  | .done r => At (.done r)
  | .await point act rest =>
      At (.await point act rest) ∨
        ∀ s, J s → J (act s) ∧ G point s (act s) ∧ Leads J G At (rest s)

namespace Leads

variable {J : S → Prop} {G : P → S → S → Prop} {At : Coroutine P E S B → Prop}

theorem here {p : Coroutine P E S B} (h : At p) : Leads J G At p := by
  cases p with
  | done r => exact h
  | await point act rest => exact .inl h

theorem bind {Q : A → Prop} {p : Coroutine P E S A} {f : A → Coroutine P E S B}
    (hp : Safe J G Q p) (hf : ∀ a, Q a → Leads J G At (f a)) : Leads J G At (p >>= f) := by
  induction p with
  | done r =>
    obtain ⟨a, rfl, ha⟩ := hp
    exact hf a ha
  | await point act rest ih =>
    refine .inr fun s hs => ?_
    obtain ⟨hJ, hG, hrest⟩ := hp s hs
    exact ⟨hJ, hG, ih s hrest⟩

end Leads

/-- The state left behind when the computation runs alone and stops after at most `n` calls. -/
def stopped : Nat → Coroutine P E S A → S → S
  | 0, _, s => s
  | _ + 1, .done _, s => s
  | n + 1, .await _ act rest, s => stopped n (rest s) (act s)

@[simp] theorem stopped_zero (p : Coroutine P E S A) (s : S) : p.stopped 0 s = s := rfl

@[simp] theorem stopped_done (n : Nat) (r : Except E A) (s : S) :
    (done r : Coroutine P E S A).stopped n s = s := by
  cases n <;> rfl

/-- Wherever the computation stops when it runs alone, the state satisfies `Q`. -/
def Leaves (Q : S → Prop) (p : Coroutine P E S A) (s : S) : Prop := ∀ n, Q (p.stopped n s)

namespace Leaves

variable {Q : S → Prop} {s : S}

theorem first {p : Coroutine P E S A} (h : Leaves Q p s) : Q s := h 0

/-- What holds wherever it stops holds when it has run to the end. -/
theorem last {p : Coroutine P E S A} (h : Leaves Q p s) : Q (p.toEffect.run s).2 := by
  induction p generalizing s with
  | done r => exact h.first
  | await point act rest ih => exact ih s fun n => h (n + 1)

theorem mono {Q' : S → Prop} (hQ : ∀ s, Q s → Q' s) {p : Coroutine P E S A}
    (h : Leaves Q p s) : Leaves Q' p s := fun n => hQ _ (h n)

theorem done {r : Except E A} (h : Q s) : Leaves Q (Coroutine.done r : Coroutine P E S A) s :=
  fun n => (stopped_done n r s).symm ▸ h

theorem pure {a : A} (h : Q s) : Leaves Q (pure a : Coroutine P E S A) s := done h

theorem await {point : P} {act : S → S} {rest : S → Coroutine P E S A} (h : Q s)
    (hrest : Leaves Q (rest s) (act s)) : Leaves Q (.await point act rest) s := by
  intro n
  cases n with
  | zero => exact h
  | succ n => exact hrest n

theorem call {point : P} {m : Effect E S A} (h : Q s) (hrun : Q (m.run s).2) :
    Leaves Q (Coroutine.call point m) s := await h (done hrun)

/-- The part that stops, or else the one that follows it. -/
theorem bind {p : Coroutine P E S A} {f : A → Coroutine P E S B} (hp : Leaves Q p s)
    (hf : ∀ a s', p.toEffect.run s = (.ok a, s') → Leaves Q (f a) s') :
    Leaves Q (p >>= f) s := by
  induction p generalizing s with
  | done r =>
    cases r with
    | ok a => exact hf a s rfl
    | error e => exact done hp.first
  | await point act rest ih =>
    exact await hp.first (ih s (fun n => hp (n + 1)) fun a s' hrun => hf a s' hrun)

theorem ite {c : Prop} [Decidable c] {p q : Coroutine P E S A} (hp : c → Leaves Q p s)
    (hq : ¬ c → Leaves Q q s) : Leaves Q (if c then p else q) s := by
  by_cases h : c
  · rw [if_pos h]
    exact hp h
  · rw [if_neg h]
    exact hq h

end Leaves

/-- The computation running alone returns, and the states it may stop in are the first one and
these. -/
structure Passes (p : Coroutine P E S A) (s : S) (stops : List S) (a : A) (s' : S) : Prop where
  run : p.toEffect.run s = (.ok a, s')
  stops : ∀ t, (∃ n, p.stopped n s = t) ↔ t ∈ s :: stops

namespace Passes

variable {s s₁ s' : S} {a : A} {b : B}

theorem pure (a : A) (s : S) : Passes (pure a : Coroutine P E S A) s [] a s := by
  refine ⟨rfl, fun t => ?_⟩
  rw [List.mem_singleton]
  constructor
  · rintro ⟨n, rfl⟩
    exact stopped_done n _ s
  · rintro rfl
    exact ⟨0, rfl⟩

theorem ofExcept {r : Except E A} (hr : r = .ok a) (s : S) :
    Passes (Coroutine.ofExcept r : Coroutine P E S A) s [] a s := by
  subst hr
  exact pure a s

/-- A call is made or it is not. -/
theorem call {point : P} {m : Effect E S A} (hm : m.run s = (.ok a, s')) :
    Passes (Coroutine.call point m) s [s'] a s' := by
  have hafter : ∀ n, (Coroutine.call point m).stopped (n + 1) s = s' := fun n => by
    rw [Coroutine.call, stopped, hm, stopped_done]
  refine ⟨?_, fun t => ?_⟩
  · rw [toEffect_call, hm]
  · rw [List.mem_cons, List.mem_singleton]
    constructor
    · rintro ⟨n, rfl⟩
      cases n with
      | zero => exact .inl rfl
      | succ n => exact .inr (hafter n)
    · rintro (rfl | rfl)
      · exact ⟨0, rfl⟩
      · exact ⟨1, hafter 0⟩

/-- A call that only reads. -/
theorem read {point : P} {m : Effect E S A} (hm : m.run s = (.ok a, s)) :
    Passes (Coroutine.call point m) s [] a s := by
  refine ⟨(call hm).run, fun t => ((call hm).stops t).trans ?_⟩
  rw [List.mem_cons, List.mem_singleton, or_self]

theorem stopped_bind {p : Coroutine P E S A} {f : A → Coroutine P E S B}
    (hp : p.toEffect.run s = (.ok a, s₁)) (t : S) :
    (∃ n, (p >>= f).stopped n s = t) ↔
      (∃ n, p.stopped n s = t) ∨ ∃ n, (f a).stopped n s₁ = t := by
  induction p generalizing s with
  | done r =>
    cases hp
    constructor
    · exact .inr
    · rintro (⟨n, rfl⟩ | hlater)
      · exact ⟨0, (stopped_done n _ _).symm⟩
      · exact hlater
  | await point act rest ih =>
    have hrest := ih s hp
    constructor
    · rintro ⟨n, hn⟩
      cases n with
      | zero => exact .inl ⟨0, hn⟩
      | succ n =>
        refine (hrest.mp ⟨n, hn⟩).imp ?_ id
        rintro ⟨m, hm⟩
        exact ⟨m + 1, hm⟩
    · rintro (⟨n, hn⟩ | hlater)
      · cases n with
        | zero => exact ⟨0, hn⟩
        | succ n =>
          obtain ⟨m, hm⟩ := hrest.mpr (.inl ⟨n, hn⟩)
          exact ⟨m + 1, hm⟩
      · obtain ⟨m, hm⟩ := hrest.mpr (.inr hlater)
        exact ⟨m + 1, hm⟩

/-- The computation may stop where it ends. -/
theorem stopped_last {p : Coroutine P E S A} (hp : p.toEffect.run s = (.ok a, s')) :
    ∃ n, p.stopped n s = s' := by
  induction p generalizing s with
  | done r =>
    cases hp
    exact ⟨0, rfl⟩
  | await point act rest ih =>
    obtain ⟨n, hn⟩ := ih s hp
    exact ⟨n + 1, hn⟩

theorem bind {p : Coroutine P E S A} {f : A → Coroutine P E S B} {stops more : List S}
    (hp : Passes p s stops a s₁) (hf : Passes (f a) s₁ more b s') :
    Passes (p >>= f) s (stops ++ more) b s' := by
  have hlast : s₁ ∈ s :: stops := (hp.stops s₁).mp (stopped_last hp.run)
  refine ⟨?_, fun t => ?_⟩
  · rw [toEffect_bind, Effect.bind_of_ok hp.run, hf.run]
  · rw [stopped_bind hp.run, hp.stops, hf.stops, ← List.cons_append, List.mem_append,
      List.mem_cons (a := t) (b := s₁)]
    constructor
    · rintro (hfirst | rfl | hlater)
      · exact .inl hfirst
      · exact .inl hlast
      · exact .inr hlater
    · exact Or.imp id .inr

/-- After a part that only reads. -/
theorem after {p : Coroutine P E S A} {f : A → Coroutine P E S B} {more : List S}
    (hp : Passes p s [] a s) (hf : Passes (f a) s more b s') :
    Passes (p >>= f) s more b s' := bind hp hf

end Passes

end Coroutine

/-- Computations that run concurrently, at most one for each key. -/
structure Pool (K L P E S : Type) where
  state : S
  running : K → Option (L × Coroutine P E S Unit)
  /-- The jobs that ended, the latest first. -/
  completed : List L

namespace Pool

variable {K L D P E S : Type} [DecidableEq K]

/-- What happens next: a job starts unless one of its key runs, the job of a key runs to its next
await, or something else changes the state. -/
inductive Action (K L D : Type)
  | start (job : L)
  | advance (k : K)
  | disturb (d : D)

variable (key : L → K) (code : L → Coroutine P E S Unit) (disturbance : D → S → S)

/-- No job runs. -/
def idle (s : S) : Pool K L P E S := ⟨s, fun _ => none, []⟩

def step (p : Pool K L P E S) : Action K L D → Pool K L P E S
  | .start job =>
      match p.running (key job) with
      | some _ => p
      | none => { p with running := Function.update p.running (key job) (some (job, code job)) }
  | .advance k =>
      match p.running k with
      | none => p
      | some (job, .done _) =>
          { p with running := Function.update p.running k none, completed := job :: p.completed }
      | some (job, .await _ act rest) =>
          { p with
            state := act p.state
            running := Function.update p.running k (some (job, rest p.state)) }
  | .disturb d => { p with state := disturbance d p.state }

variable {key code disturbance} {p : Pool K L P E S}

theorem step_start_of_none {job : L} (h : p.running (key job) = none) :
    step key code disturbance p (.start job) =
      { p with running := Function.update p.running (key job) (some (job, code job)) } := by
  simp only [step, h]

theorem step_start_of_some {job : L} {r : L × Coroutine P E S Unit}
    (h : p.running (key job) = some r) : step key code disturbance p (.start job) = p := by
  simp only [step, h]

theorem step_advance_of_none {k : K} (h : p.running k = none) :
    step key code disturbance p (.advance k) = p := by
  simp only [step, h]

theorem step_advance_done {k : K} {job : L} {r : Except E Unit}
    (h : p.running k = some (job, .done r)) :
    step key code disturbance p (.advance k) =
      { p with running := Function.update p.running k none, completed := job :: p.completed } := by
  simp only [step, h]

theorem step_advance_await {k : K} {job : L} {point : P} {act : S → S}
    {rest : S → Coroutine P E S Unit} (h : p.running k = some (job, .await point act rest)) :
    step key code disturbance p (.advance k) =
      { p with
        state := act p.state
        running := Function.update p.running k (some (job, rest p.state)) } := by
  simp only [step, h]

/-- A job that runs after a step ran before it, or was started by it, or has just made a call. -/
theorem running_of_step {a : Action K L D} {k : K} {job : L} {c : Coroutine P E S Unit}
    (h : (step key code disturbance p a).running k = some (job, c)) :
    p.running k = some (job, c) ∨ (key job = k ∧ c = code job) ∨
      ∃ point act rest, p.running k = some (job, .await point act rest) ∧ c = rest p.state := by
  cases a with
  | disturb d => exact .inl h
  | start started =>
    cases hstarted : p.running (key started) with
    | some r =>
      rw [step_start_of_some hstarted] at h
      exact .inl h
    | none =>
      rw [step_start_of_none hstarted] at h
      dsimp only at h
      by_cases hk : k = key started
      · rw [hk, Function.update_self] at h
        obtain ⟨rfl, rfl⟩ := Prod.mk.inj (Option.some.inj h)
        exact .inr (.inl ⟨hk.symm, rfl⟩)
      · rw [Function.update_of_ne hk] at h
        exact .inl h
  | advance j =>
    cases hj : p.running j with
    | none =>
      rw [step_advance_of_none hj] at h
      exact .inl h
    | some r =>
      obtain ⟨job', c'⟩ := r
      by_cases hk : k = j
      · subst hk
        cases c' with
        | done r =>
          rw [step_advance_done hj] at h
          dsimp only at h
          rw [Function.update_self] at h
          exact absurd h (Option.some_ne_none _).symm
        | await point act rest =>
          rw [step_advance_await hj] at h
          dsimp only at h
          rw [Function.update_self] at h
          obtain ⟨rfl, rfl⟩ := Prod.mk.inj (Option.some.inj h)
          exact .inr (.inr ⟨point, act, rest, hj, rfl⟩)
      · have hsame : (step key code disturbance p (.advance j)).running k = p.running k := by
          cases c' with
          | done r =>
            rw [step_advance_done hj]
            exact Function.update_of_ne hk _ _
          | await point act rest =>
            rw [step_advance_await hj]
            exact Function.update_of_ne hk _ _
        exact .inl (hsame ▸ h)

/-- A state the pool was in before one of the actions, or after the last one. -/
def Visited (key : L → K) (code : L → Coroutine P E S Unit) (disturbance : D → S → S)
    (p : Pool K L P E S) (acts : List (Action K L D)) (s : S) : Prop :=
  ∃ as, as <+: acts ∧ s = (Transition.exec (step key code disturbance) p as).state

theorem Visited.mono {s : S} {acts more : List (Action K L D)}
    (h : Visited key code disturbance p acts s) :
    Visited key code disturbance p (acts ++ more) s := by
  obtain ⟨as, hpre, rfl⟩ := h
  exact ⟨as, hpre.trans (List.prefix_append acts more), rfl⟩

theorem visited_last (acts : List (Action K L D)) :
    Visited key code disturbance p acts
      (Transition.exec (step key code disturbance) p acts).state :=
  ⟨acts, List.prefix_rfl, rfl⟩

/-- Whatever the order of the steps, the rest of a running job recalls states the pool was in. -/
theorem recalls_running {R : L → List S → P → S → S → Prop}
    (hcode : ∀ job, Coroutine.Recalls (R job) [] (code job)) (s : S)
    (acts : List (Action K L D)) {k : K} {job : L} {c : Coroutine P E S Unit}
    (hrun : (Transition.exec (step key code disturbance) (idle s) acts).running k =
      some (job, c)) :
    ∃ seen, (∀ t ∈ seen, Visited key code disturbance (idle s) acts t) ∧
      Coroutine.Recalls (R job) seen c := by
  induction acts using List.reverseRecOn generalizing k job c with
  | nil => exact absurd hrun (Option.some_ne_none _).symm
  | append_singleton acts a ih =>
    rw [Transition.exec_concat] at hrun
    obtain hold | ⟨hkey, rfl⟩ | ⟨point, act, rest, hold, rfl⟩ := running_of_step hrun
    · obtain ⟨seen, hseen, hc⟩ := ih hold
      exact ⟨seen, fun t ht => (hseen t ht).mono, hc⟩
    · exact ⟨[], fun t ht => absurd ht List.not_mem_nil, hcode job⟩
    · obtain ⟨seen, hseen, hc⟩ := ih hold
      refine ⟨_ :: seen, fun t ht => ?_, (hc.next_call _).2⟩
      obtain rfl | ht := List.mem_cons.mp ht
      · exact (visited_last acts).mono
      · exact (hseen t ht).mono

/-- What a step of a running job does to the state. -/
theorem advance_recalls {R : L → List S → P → S → S → Prop}
    (hcode : ∀ job, Coroutine.Recalls (R job) [] (code job)) (s : S)
    (acts : List (Action K L D)) {k : K} {job : L} {c : Coroutine P E S Unit}
    (hrun : (Transition.exec (step key code disturbance) (idle s) acts).running k =
      some (job, c)) :
    (Transition.exec (step key code disturbance) (idle s) (acts ++ [.advance k])).state =
        (Transition.exec (step key code disturbance) (idle s) acts).state ∨
      ∃ seen point, (∀ t ∈ seen, Visited key code disturbance (idle s) acts t) ∧
        R job seen point (Transition.exec (step key code disturbance) (idle s) acts).state
          (Transition.exec (step key code disturbance) (idle s) (acts ++ [.advance k])).state := by
  obtain ⟨seen, hseen, hc⟩ := recalls_running hcode s acts hrun
  rw [Transition.exec_concat]
  cases c with
  | done r => exact .inl (by rw [step_advance_done hrun])
  | await point act rest =>
    rw [step_advance_await hrun]
    refine .inr ⟨_ :: seen, point, fun t ht => ?_, (hc.next_call _).1⟩
    obtain rfl | ht := List.mem_cons.mp ht
    · exact visited_last acts
    · exact hseen t ht

end Pool

end HulyGitlab
