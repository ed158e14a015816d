import Mathlib.Algebra.Order.Field.Basic
import Mathlib.Tactic.Linarith
import Mathlib.Tactic.Ring

/-!
# Token buckets

A bucket holds at most `capacity` tokens and gains `rate` of them in each unit
of time; a request takes one token or is refused. A bucket that does not exist
stands for a full one. The number of requests granted in a window of time is
bounded by the capacity and what flows in during the window.
-/

namespace HulyGitlab.TokenBucket

/-- The tokens at the time of the last request. -/
structure Bucket (F : Type*) where
  tokens : F
  lastRefill : F
deriving DecidableEq

/-- A capacity of at least one token, and an inflow that is not negative. -/
structure Budget (F : Type*) [Zero F] [One F] [LE F] where
  capacity : F
  rate : F
  one_le_capacity : 1 ≤ capacity
  rate_nonneg : 0 ≤ rate

variable {F : Type*} [Field F] [LinearOrder F] [IsStrictOrderedRing F]

/-- The tokens there are at the time `now`. -/
def level (p : Budget F) (o : Option (Bucket F)) (now : F) : F :=
  match o with
  | none => p.capacity
  | some b => min p.capacity (b.tokens + (now - b.lastRefill) * p.rate)

/-- The bucket after a request: one token less unless the request is refused. -/
def take (p : Budget F) (o : Option (Bucket F)) (now : F) : Bucket F :=
  if level p o now < 1 then ⟨level p o now, now⟩ else ⟨level p o now - 1, now⟩

/-- The times of the requests that are granted. -/
def grants (p : Budget F) (o : Option (Bucket F)) : List F → List F
  | [] => []
  | now :: times =>
      if level p o now < 1 then grants p (some (take p o now)) times
      else now :: grants p (some (take p o now)) times

/-- A bucket that can exist at the time `now`. -/
def Sound (now : F) (o : Option (Bucket F)) : Prop :=
  ∀ b ∈ o, 0 ≤ b.tokens ∧ b.lastRefill ≤ now

variable (p : Budget F) {o : Option (Bucket F)} {b : Bucket F} {s t now later : F} {times : List F}

omit [IsStrictOrderedRing F] in
theorem level_le (o : Option (Bucket F)) (now : F) : level p o now ≤ p.capacity := by
  cases o with
  | none => exact le_refl p.capacity
  | some b => exact min_le_left _ _

theorem inflow_nonneg (h : now ≤ later) : 0 ≤ (later - now) * p.rate :=
  mul_nonneg (sub_nonneg.mpr h) p.rate_nonneg

omit [IsStrictOrderedRing F] in
theorem Sound.mono (h : Sound now o) (hle : now ≤ later) : Sound later o :=
  fun b hb => ⟨(h b hb).1, (h b hb).2.trans hle⟩

omit [IsStrictOrderedRing F] in
theorem Sound.none (now : F) : Sound now none := fun _ hb => nomatch hb

theorem Sound.level_nonneg (h : Sound now o) : 0 ≤ level p o now := by
  have hcap : 0 ≤ p.capacity := zero_le_one.trans p.one_le_capacity
  cases o with
  | none => exact hcap
  | some b =>
      obtain ⟨htokens, hlast⟩ := h b rfl
      exact le_min hcap (add_nonneg htokens (inflow_nonneg p hlast))

/-- Waiting gains no more than the inflow of the time waited. -/
theorem level_later_le (o : Option (Bucket F)) (h : now ≤ later) :
    level p o later ≤ level p o now + (later - now) * p.rate := by
  have hin := inflow_nonneg p h
  cases o with
  | none => exact le_add_of_nonneg_right hin
  | some b =>
      simp only [level]
      rcases min_choice p.capacity (b.tokens + (now - b.lastRefill) * p.rate) with hmin | hmin
      · rw [hmin]
        exact (min_le_left _ _).trans (le_add_of_nonneg_right hin)
      · rw [hmin]
        refine (min_le_right _ _).trans (le_of_eq ?_)
        ring

omit [IsStrictOrderedRing F] in
theorem take_lastRefill (o : Option (Bucket F)) (now : F) : (take p o now).lastRefill = now := by
  unfold take
  split <;> rfl

theorem take_sound (h : Sound now o) : Sound now (some (take p o now)) := by
  rintro _ ⟨⟩
  refine ⟨?_, (take_lastRefill p o now).le⟩
  unfold take
  split
  · exact h.level_nonneg p
  · rename_i hone
    exact sub_nonneg.mpr (not_lt.mp hone)

/-- At the time of a request the level is what the request left. -/
theorem level_take (o : Option (Bucket F)) (now : F) :
    level p (some (take p o now)) now =
      if level p o now < 1 then level p o now else level p o now - 1 := by
  have hle := level_le p o now
  unfold take
  split
  · simp only [level] at hle ⊢
    rw [sub_self, zero_mul, add_zero]
    exact min_eq_right hle
  · rw [level, sub_self, zero_mul, add_zero]
    exact min_eq_right ((sub_le_self _ zero_le_one).trans hle)

omit [IsStrictOrderedRing F] in
theorem grants_subset (o : Option (Bucket F)) (times : List F) : grants p o times ⊆ times := by
  induction times generalizing o with
  | nil => exact List.Subset.refl _
  | cons now times ih =>
      unfold grants
      split
      · exact List.subset_cons_of_subset now (ih _)
      · exact List.cons_subset_cons now (ih _)

omit [IsStrictOrderedRing F] in
/-- No request is granted in a window that ended before all of them. -/
theorem grants_before (o : Option (Bucket F)) (h : ∀ u ∈ times, t < u) :
    (grants p o times).filter (· ≤ t) = [] := by
  refine List.filter_eq_nil_iff.mpr fun u hu => ?_
  rw [decide_eq_true_eq, not_le]
  exact h u (grants_subset p o times hu)

/-- From now on no more is granted than the level and the inflow allow: the
level falls by one with each grant. -/
theorem grants_until (h : Sound now o) (hlater : ∀ u ∈ times, now ≤ u)
    (hsorted : times.Pairwise (· ≤ ·)) (hnow : now ≤ t) :
    (((grants p o times).filter (· ≤ t)).length : F) ≤ level p o now + (t - now) * p.rate := by
  induction times generalizing o now with
  | nil =>
      simpa [grants] using add_nonneg (h.level_nonneg p) (inflow_nonneg p hnow)
  | cons u times ih =>
      obtain ⟨hu, hrest⟩ := List.pairwise_cons.mp hsorted
      have hle : now ≤ u := hlater u List.mem_cons_self
      by_cases htu : u ≤ t
      · have hsound := take_sound p (h.mono hle)
        have hcount := ih hsound hu hrest htu
        have hflow := level_later_le p o hle
        rw [level_take] at hcount
        unfold grants
        split at hcount
        · rename_i hlt
          rw [if_pos hlt]
          linarith
        · rename_i hone
          rw [if_neg hone, List.filter_cons_of_pos (by simpa using htu), List.length_cons,
            Nat.cast_add, Nat.cast_one]
          linarith
      · have hnone : (grants p o (u :: times)).filter (· ≤ t) = [] := by
          refine grants_before p o fun v hv => ?_
          rcases List.mem_cons.mp hv with rfl | hv
          · exact not_le.mp htu
          · exact (not_le.mp htu).trans_le (hu v hv)
        rw [hnone]
        simpa using add_nonneg (h.level_nonneg p) (inflow_nonneg p hnow)

/-- The requests granted in any window are at most the capacity and the inflow
of the window. -/
theorem grants_window (h : Sound now o) (hlater : ∀ u ∈ times, now ≤ u)
    (hsorted : times.Pairwise (· ≤ ·)) (hst : s ≤ t) :
    (((grants p o times).filter fun u => s ≤ u ∧ u ≤ t).length : F) ≤
      p.capacity + (t - s) * p.rate := by
  have hcap : 0 ≤ p.capacity := zero_le_one.trans p.one_le_capacity
  induction times generalizing o now with
  | nil => simpa [grants] using add_nonneg hcap (inflow_nonneg p hst)
  | cons u times ih =>
      obtain ⟨hu, hrest⟩ := List.pairwise_cons.mp hsorted
      have hle : now ≤ u := hlater u List.mem_cons_self
      have hsound := take_sound p (h.mono hle)
      by_cases hsu : s ≤ u
      · -- every later request is in the window from `s` on
        have hwindow : (grants p o (u :: times)).filter (fun v => s ≤ v ∧ v ≤ t) =
            (grants p o (u :: times)).filter (· ≤ t) := by
          refine List.filter_congr fun v hv => ?_
          have hsv : s ≤ v := by
            rcases List.mem_cons.mp (grants_subset p o _ hv) with rfl | hv
            · exact hsu
            · exact hsu.trans (hu v hv)
          simp [hsv]
        rw [hwindow]
        by_cases hut : u ≤ t
        · have hfrom : ∀ v ∈ u :: times, u ≤ v := List.forall_mem_cons.mpr ⟨le_refl u, hu⟩
          have hcount := grants_until p (h.mono hle) hfrom hsorted hut
          have hlevel := level_le p o u
          have hflow := mul_le_mul_of_nonneg_right (sub_le_sub_left hsu t) p.rate_nonneg
          linarith
        · rw [grants_before p o (List.forall_mem_cons.mpr
            ⟨not_le.mp hut, fun v hv => (not_le.mp hut).trans_le (hu v hv)⟩)]
          simpa using add_nonneg hcap (inflow_nonneg p hst)
      · have hcount := ih hsound hu hrest
        unfold grants
        split
        · exact hcount
        · rwa [List.filter_cons_of_neg (by simp [hsu])]

end HulyGitlab.TokenBucket
