import Mathlib.Data.Set.Basic
import Mathlib.Logic.Function.Basic

/-!
# Tokens that are used once

Holders read a token while it is present, and later remove it and use it. A
token is used at most once as long as no two holders have read it at a time.
-/

namespace HulyGitlab

/-- The tokens that are present, what each holder has read, and the tokens used. -/
structure Holdings (I K : Type*) where
  present : Set K
  holds : I → Option K
  used : List K

namespace Holdings

variable {I K : Type*} [DecidableEq I]

/-- What may happen to tokens. Reading takes one that no other holder has. -/
inductive Step : Holdings I K → Holdings I K → Prop
  | read {s : Holdings I K} {i : I} {k : K} (hpresent : k ∈ s.present)
      (halone : ∀ j, j ≠ i → s.holds j ≠ some k) :
      Step s { s with holds := Function.update s.holds i (some k) }
  | use {s : Holdings I K} {i : I} {k : K} {present : Set K} (hholds : s.holds i = some k)
      (hsub : present ⊆ s.present) (hgone : k ∉ present) :
      Step s ⟨present, Function.update s.holds i none, s.used ++ [k]⟩
  | release {s : Holdings I K} {i : I} {present : Set K} (hsub : present ⊆ s.present) :
      Step s ⟨present, Function.update s.holds i none, s.used⟩
  | remove {s : Holdings I K} {present : Set K} (hsub : present ⊆ s.present) :
      Step s { s with present }

/-- No token was used twice, none that was used is present or held, and none is
held twice. -/
structure Single (s : Holdings I K) : Prop where
  nodup : s.used.Nodup
  absent : ∀ k ∈ s.used, k ∉ s.present
  unheld : ∀ k ∈ s.used, ∀ i, s.holds i ≠ some k
  alone : ∀ i j k, s.holds i = some k → s.holds j = some k → i = j

theorem update_eq_some {holds : I → Option K} {i j : I} {v : Option K} {k : K}
    (h : Function.update holds i v j = some k) : j = i ∧ v = some k ∨ j ≠ i ∧ holds j = some k := by
  by_cases hj : j = i
  · subst hj
    exact .inl ⟨rfl, by rwa [Function.update_self] at h⟩
  · exact .inr ⟨hj, by rwa [Function.update_of_ne hj] at h⟩

theorem update_none_eq_some {holds : I → Option K} {i j : I} {k : K}
    (h : Function.update holds i none j = some k) : j ≠ i ∧ holds j = some k := by
  obtain ⟨-, h⟩ | h := update_eq_some h
  · cases h
  · exact h

theorem Single.step {s s' : Holdings I K} (h : s.Single) (hstep : Step s s') : s'.Single := by
  cases hstep with
  | @read i k hpresent halone =>
      refine ⟨h.nodup, h.absent, ?_, ?_⟩
      · intro m hm j hj
        obtain ⟨-, hkm⟩ | ⟨-, hj⟩ := update_eq_some hj
        · cases hkm
          exact h.absent k hm hpresent
        · exact h.unheld m hm j hj
      · intro a b m ha hb
        obtain ⟨rfl, hkm⟩ | ⟨hai, hold⟩ := update_eq_some ha <;>
          obtain ⟨rfl, hkm'⟩ | ⟨hbi, hold'⟩ := update_eq_some hb
        · rfl
        · exact absurd (hold'.trans hkm.symm) (halone b hbi)
        · exact absurd (hold.trans hkm'.symm) (halone a hai)
        · exact h.alone a b m hold hold'
  | @use i k present hholds hsub hgone =>
      have hnew : k ∉ s.used := fun hk => h.unheld k hk i hholds
      refine ⟨?_, ?_, ?_, ?_⟩
      · exact List.nodup_append.mpr ⟨h.nodup, by simp, by
          rintro m hm n hn rfl
          exact hnew (List.mem_singleton.mp hn ▸ hm)⟩
      · intro m hm
        rcases List.mem_append.mp hm with hm | hm
        · exact fun hp => h.absent m hm (hsub hp)
        · exact List.mem_singleton.mp hm ▸ hgone
      · intro m hm j hj
        obtain ⟨hji, hold⟩ := update_none_eq_some hj
        rcases List.mem_append.mp hm with hm | hm
        · exact h.unheld m hm j hold
        · obtain rfl := List.mem_singleton.mp hm
          exact hji (h.alone j i m hold hholds)
      · intro a b m ha hb
        exact h.alone a b m (update_none_eq_some ha).2 (update_none_eq_some hb).2
  | @release i present hsub =>
      refine ⟨h.nodup, fun m hm hp => h.absent m hm (hsub hp), ?_, ?_⟩
      · exact fun m hm j hj => h.unheld m hm j (update_none_eq_some hj).2
      · exact fun a b m ha hb => h.alone a b m (update_none_eq_some ha).2 (update_none_eq_some hb).2
  | @remove present hsub =>
      exact ⟨h.nodup, fun m hm hp => h.absent m hm (hsub hp), h.unheld, h.alone⟩

end Holdings

end HulyGitlab
