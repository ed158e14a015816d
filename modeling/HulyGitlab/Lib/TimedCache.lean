import HulyGitlab.Lib.OrderedMap
import HulyGitlab.Lib.Transition
import Mathlib.Data.List.Induction

/-!
# Caches whose entries expire

A cache keeps for each key one value, the instant it was put in at and the
time for which it may be served. A system that holds such a cache says for
each of its steps what it does to the cache. What the cache serves is then
read off the history of the run: the last step that touched the key put the
value in, and the time of the entry has not run out since.
-/

namespace HulyGitlab

structure TimedEntry (V : Type*) where
  value : V
  cachedAt : Nat
  ttlMs : Nat
  deriving DecidableEq

structure TimedCache (K V : Type*) where
  now : Nat
  entries : OrderedMap K (TimedEntry V)

namespace TimedCache

/-- What one step of a system does to the cache it holds. -/
inductive Change (K V : Type*)
  | none
  | wait (ms : Nat)
  | put (key : K) (value : V) (ttlMs : Nat)
  | delete (key : K)
  | clear

variable {K V : Type*}

/-- The change replaces or removes the entry of the key. -/
def Change.Touches (key : K) : Change K V → Prop
  | .put key' _ _ => key' = key
  | .delete key' => key' = key
  | .clear => True
  | _ => False

section History

variable {S A : Type*} {step : S → A → S} {change : S → A → Change K V}

/-- The last step of the run that touched the key put the value in. -/
structure LastPut (step : S → A → S) (change : S → A → Change K V) (s : S) (acts : List A)
    (key : K) (value : V) (ttlMs : Nat) (before : List A) (a : A) (after : List A) : Prop where
  split : acts = before ++ a :: after
  put : change (Transition.exec step s before) a = .put key value ttlMs
  untouched : Transition.Along step (fun s a => ¬ (change s a).Touches key)
    (Transition.exec step s (before ++ [a])) after

theorem concat_eq_append_cons {acts before after : List A} {x a : A} :
    acts ++ [x] = before ++ a :: after ↔
      (before = acts ∧ a = x ∧ after = []) ∨
        ∃ rest, after = rest ++ [x] ∧ acts = before ++ a :: rest := by
  constructor
  · intro h
    obtain rfl | ⟨rest, y, rfl⟩ := List.eq_nil_or_concat' after
    · obtain ⟨hacts, hx⟩ := List.append_inj' h rfl
      exact .inl ⟨hacts.symm, (List.singleton_inj.mp hx).symm, rfl⟩
    · rw [← List.cons_append, ← List.append_assoc] at h
      obtain ⟨hacts, hx⟩ := List.append_inj' h rfl
      exact .inr ⟨rest, by rw [List.singleton_inj.mp hx], hacts⟩
  · rintro (⟨rfl, rfl, rfl⟩ | ⟨rest, rfl, rfl⟩)
    · rfl
    · rw [List.append_assoc, List.cons_append]

/-- The last put of a run with one more step is that step, or an older one that it leaves. -/
theorem lastPut_concat_iff {s : S} {acts before after : List A} {x a : A} {key : K} {v : V}
    {ttlMs : Nat} :
    LastPut step change s (acts ++ [x]) key v ttlMs before a after ↔
      (before = acts ∧ a = x ∧ after = [] ∧
          change (Transition.exec step s acts) x = .put key v ttlMs) ∨
        ∃ rest, after = rest ++ [x] ∧ LastPut step change s acts key v ttlMs before a rest ∧
          ¬ (change (Transition.exec step s acts) x).Touches key := by
  constructor
  · rintro ⟨hsplit, hput, huntouched⟩
    obtain ⟨rfl, rfl, rfl⟩ | ⟨rest, rfl, rfl⟩ := concat_eq_append_cons.mp hsplit
    · exact .inl ⟨rfl, rfl, rfl, hput⟩
    · rw [Transition.along_append, ← Transition.exec_append, List.append_assoc] at huntouched
      exact .inr ⟨rest, rfl, ⟨rfl, hput, huntouched.1⟩, huntouched.2.1⟩
  · rintro (⟨rfl, rfl, rfl, hput⟩ | ⟨rest, rfl, ⟨rfl, hput, huntouched⟩, hlast⟩)
    · exact ⟨rfl, hput, trivial⟩
    · refine ⟨concat_eq_append_cons.mpr (.inr ⟨rest, rfl, rfl⟩), hput, ?_⟩
      rw [Transition.along_append, ← Transition.exec_append, List.append_assoc]
      exact ⟨huntouched, hlast, trivial⟩

end History

variable [DecidableEq K]

def start (now : Nat) : TimedCache K V := ⟨now, .empty⟩

def put (c : TimedCache K V) (key : K) (value : V) (ttlMs : Nat) : TimedCache K V :=
  { c with entries := c.entries.set key ⟨value, c.now, ttlMs⟩ }

def delete (c : TimedCache K V) (key : K) : TimedCache K V :=
  { c with entries := c.entries.delete key }

def clear (c : TimedCache K V) : TimedCache K V := { c with entries := .empty }

/-- The value of an entry that is young enough. -/
def serve (c : TimedCache K V) (key : K) : Option V :=
  match c.entries.get? key with
  | some e => if c.now - e.cachedAt < e.ttlMs then some e.value else none
  | none => none

def apply (c : TimedCache K V) : Change K V → TimedCache K V
  | .none => c
  | .wait ms => { c with now := c.now + ms }
  | .put key value ttlMs => c.put key value ttlMs
  | .delete key => c.delete key
  | .clear => c.clear

theorem serve_eq_some_iff {c : TimedCache K V} {key : K} {v : V} :
    c.serve key = some v ↔
      ∃ e, c.entries.get? key = some e ∧ e.value = v ∧ c.now - e.cachedAt < e.ttlMs := by
  unfold serve
  cases c.entries.get? key with
  | none => simp
  | some e =>
    simp only [Option.ite_none_right_eq_some, Option.some.injEq, exists_eq_left']
    exact and_comm

/-- A change that does not touch the key leaves its entry alone. -/
theorem get?_apply_of_not_touches {c : TimedCache K V} {key : K} {change : Change K V}
    (h : ¬ change.Touches key) : (c.apply change).entries.get? key = c.entries.get? key := by
  cases change with
  | none => rfl
  | wait ms => rfl
  | put key' value ttlMs => exact OrderedMap.get?_set_of_ne _ (fun heq => h heq.symm) _
  | delete key' => exact OrderedMap.get?_delete_of_ne _ fun heq => h heq.symm
  | clear => exact absurd trivial h

/-- After a change that touches the key there is an entry only if the change put it in. -/
theorem get?_apply_of_touches {c : TimedCache K V} {key : K} {change : Change K V}
    (h : change.Touches key) {e : TimedEntry V} :
    (c.apply change).entries.get? key = some e ↔
      change = .put key e.value e.ttlMs ∧ e.cachedAt = c.now := by
  cases change with
  | none => exact h.elim
  | wait ms => exact h.elim
  | put key' value ttlMs =>
    obtain rfl : key' = key := h
    have hget : (c.apply (.put key' value ttlMs)).entries.get? key' =
        some ⟨value, c.now, ttlMs⟩ := OrderedMap.get?_set_self ..
    rw [hget]
    constructor
    · rintro ⟨⟩
      exact ⟨rfl, rfl⟩
    · rintro ⟨hchange, hat⟩
      cases hchange
      cases e
      cases hat
      rfl
  | delete key' =>
    obtain rfl : key' = key := h
    have hget : (c.apply (.delete key')).entries.get? key' = none := by
      change (c.entries.delete key').get? key' = none
      rw [OrderedMap.get?_delete, if_pos rfl]
    simp [hget]
  | clear =>
    have hget : (c.apply .clear).entries.get? key = none := rfl
    simp [hget]

section Runs

variable {S A : Type*} {step : S → A → S} {cache : S → TimedCache K V} {change : S → A → Change K V}

variable (hcache : ∀ s a, cache (step s a) = (cache s).apply (change s a))

include hcache

/-- The entries of a reached cache, from the history of the run. -/
theorem get?_exec_iff {s : S} {key : K} (hs : (cache s).entries.get? key = none) (acts : List A)
    (e : TimedEntry V) :
    (cache (Transition.exec step s acts)).entries.get? key = some e ↔
      ∃ before a after, LastPut step change s acts key e.value e.ttlMs before a after ∧
        e.cachedAt = (cache (Transition.exec step s before)).now := by
  induction acts using List.reverseRecOn with
  | nil =>
    rw [Transition.exec_nil, hs]
    constructor
    · intro h
      cases h
    · rintro ⟨before, a, after, hlast, -⟩
      exact absurd hlast.split (by simp)
  | append_singleton acts x ih =>
    rw [Transition.exec_concat, hcache]
    by_cases htouches : (change (Transition.exec step s acts) x).Touches key
    · rw [get?_apply_of_touches htouches]
      constructor
      · rintro ⟨hput, hat⟩
        exact ⟨acts, x, [], lastPut_concat_iff.mpr (.inl ⟨rfl, rfl, rfl, hput⟩), hat⟩
      · rintro ⟨before, a, after, hlast, hat⟩
        obtain ⟨rfl, rfl, -, hput⟩ | ⟨rest, -, -, hnot⟩ := lastPut_concat_iff.mp hlast
        · exact ⟨hput, hat⟩
        · exact absurd htouches hnot
    · rw [get?_apply_of_not_touches htouches, ih]
      constructor
      · rintro ⟨before, a, after, hlast, hat⟩
        exact ⟨before, a, after ++ [x],
          lastPut_concat_iff.mpr (.inr ⟨after, rfl, hlast, htouches⟩), hat⟩
      · rintro ⟨before, a, after, hlast, hat⟩
        obtain ⟨-, -, -, hput⟩ | ⟨rest, -, hlast, -⟩ := lastPut_concat_iff.mp hlast
        · rw [hput] at htouches
          exact absurd rfl htouches
        · exact ⟨before, a, rest, hlast, hat⟩

/-- What a reached cache serves, from the history of the run. -/
theorem serve_exec_iff {s : S} {key : K} (hs : (cache s).entries.get? key = none) (acts : List A)
    (v : V) :
    (cache (Transition.exec step s acts)).serve key = some v ↔
      ∃ ttlMs before a after, LastPut step change s acts key v ttlMs before a after ∧
        (cache (Transition.exec step s acts)).now -
          (cache (Transition.exec step s before)).now < ttlMs := by
  rw [serve_eq_some_iff]
  constructor
  · rintro ⟨e, hget, rfl, hyoung⟩
    obtain ⟨before, a, after, hlast, hat⟩ := (get?_exec_iff hcache hs acts e).mp hget
    rw [hat] at hyoung
    exact ⟨e.ttlMs, before, a, after, hlast, hyoung⟩
  · rintro ⟨ttlMs, before, a, after, hlast, hyoung⟩
    refine ⟨⟨v, (cache (Transition.exec step s before)).now, ttlMs⟩, ?_, rfl, hyoung⟩
    exact (get?_exec_iff hcache hs acts _).mpr ⟨before, a, after, hlast, rfl⟩

end Runs

end TimedCache

end HulyGitlab
