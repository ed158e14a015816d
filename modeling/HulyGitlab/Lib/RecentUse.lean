import Mathlib.Data.List.Dedup
import Mathlib.Data.List.DropRight
import Mathlib.Data.List.Perm.Subperm

/-!
# Orders of recent use

A bounded list of keys in which a used key goes to the end and an overflow
drops the first one. It holds the last different keys that were used, each at
its last use.
-/

namespace HulyGitlab.RecentUse

variable {K : Type*} [DecidableEq K]

/-- A key is used. -/
def touch (order : List K) (key : K) : List K := order.erase key ++ [key]

/-- The least recently used key goes when there are too many. -/
def evict (capacity : Nat) (order : List K) : List K :=
  if order.length ≤ capacity then order else order.tail

/-- The last `n` different entries of a list, each at its last place in it. -/
def recent (n : Nat) (uses : List K) : List K := uses.dedup.rtake n

@[simp] theorem recent_nil (n : Nat) : recent n ([] : List K) = [] := List.rtake_nil n

/-- `dedup` keeps the last one of equal entries. -/
theorem dedup_concat (uses : List K) (key : K) :
    (uses ++ [key]).dedup = touch uses.dedup key := by
  induction uses with
  | nil => rfl
  | cons use uses ih =>
    unfold touch at ih ⊢
    rw [List.cons_append, List.dedup_cons, List.dedup_cons, ih]
    by_cases hkey : use = key
    · subst hkey
      by_cases hmem : use ∈ uses
      · rw [if_pos (List.mem_append_left _ hmem), if_pos hmem]
      · rw [if_pos (List.mem_append_right _ List.mem_cons_self), if_neg hmem,
          List.erase_cons_head, List.erase_of_not_mem fun h => hmem (List.mem_dedup.mp h)]
    · by_cases hmem : use ∈ uses
      · rw [if_pos (List.mem_append_left _ hmem), if_pos hmem]
      · have hnew : use ∉ uses ++ [key] := by simp [hmem, hkey]
        rw [if_neg hnew, if_neg hmem, List.erase_cons_tail (by simpa using hkey),
          List.cons_append]

theorem recent_suffix (n : Nat) (uses : List K) : recent n uses <:+ uses.dedup :=
  List.drop_suffix _ _

theorem nodup_recent (n : Nat) (uses : List K) : (recent n uses).Nodup :=
  (recent_suffix n uses).sublist.nodup uses.nodup_dedup

theorem length_recent (n : Nat) (uses : List K) :
    (recent n uses).length = min n uses.dedup.length := by
  unfold recent List.rtake
  rw [List.length_drop]
  omega

theorem length_recent_le (n : Nat) (uses : List K) : (recent n uses).length ≤ n :=
  (length_recent n uses).trans_le (Nat.min_le_left _ _)

theorem mem_of_mem_recent {n : Nat} {uses : List K} {key : K} (h : key ∈ recent n uses) :
    key ∈ uses :=
  List.mem_dedup.mp ((recent_suffix n uses).subset h)

omit [DecidableEq K] in
/-- The last entries of a list that ends in a list at least as long are those of the end. -/
theorem rtake_append {xs ys : List K} {n : Nat} (h : n ≤ ys.length) :
    (xs ++ ys).rtake n = ys.rtake n := by
  unfold List.rtake
  rw [List.drop_append, List.drop_eq_nil_of_le (by simp only [List.length_append]; omega),
    List.nil_append, List.length_append]
  congr 1
  omega

omit [DecidableEq K] in
theorem rtake_of_length_le {xs : List K} {n : Nat} (h : xs.length ≤ n) : xs.rtake n = xs := by
  unfold List.rtake
  rw [Nat.sub_eq_zero_of_le h, List.drop_zero]

/-- Using a key and dropping the overflow keeps to the recent ones. -/
theorem evict_touch_recent {n : Nat} (hn : 1 ≤ n) (uses : List K) (key : K) :
    evict n (touch (recent n uses) key) = recent n (uses ++ [key]) := by
  obtain ⟨m, rfl⟩ := Nat.exists_eq_add_of_le' hn
  have hright : recent (m + 1) (uses ++ [key]) = (uses.dedup.erase key).rtake m ++ [key] := by
    rw [recent, dedup_concat, touch, List.rtake_concat_succ]
  obtain ⟨older, hsplit⟩ := recent_suffix (m + 1) uses
  have hlen := length_recent (m + 1) uses
  have hnodup : (older ++ recent (m + 1) uses).Nodup := hsplit ▸ uses.nodup_dedup
  have hall : uses.dedup.length = older.length + (recent (m + 1) uses).length := by
    rw [← hsplit, List.length_append]
  rw [hright, ← hsplit]
  generalize recent (m + 1) uses = r at hlen hnodup hall
  rw [hall] at hlen
  -- as long as the list is not full nothing older was dropped
  have holder : r.length ≤ m → older = [] := fun hle => List.eq_nil_of_length_eq_zero (by omega)
  have hle : r.length ≤ m + 1 := by omega
  unfold touch evict
  by_cases hmem : key ∈ r
  · have hfresh : key ∉ older := fun h => (List.nodup_append.mp hnodup).2.2 key h key hmem rfl
    have herase : (r.erase key).length = r.length - 1 := List.length_erase_of_mem hmem
    have hpos := List.length_pos_of_mem hmem
    rw [if_pos (by simp only [List.length_append, List.length_singleton]; omega),
      List.erase_append_right _ hfresh]
    by_cases hfull : r.length ≤ m
    · rw [holder hfull, List.nil_append, rtake_of_length_le (by omega)]
    · rw [rtake_append (by omega), rtake_of_length_le (by omega)]
  · rw [List.erase_of_not_mem hmem]
    by_cases hfull : r.length ≤ m
    · rw [if_pos (by simp only [List.length_append, List.length_singleton]; omega), holder hfull,
        List.nil_append, List.erase_of_not_mem hmem, rtake_of_length_le hfull]
    · have hkeep : (older ++ r).erase key = older.erase key ++ r := by
        by_cases hold : key ∈ older
        · rw [List.erase_append_left _ hold]
        · rw [List.erase_append_right _ hold, List.erase_of_not_mem hmem,
            List.erase_of_not_mem hold]
      have htail : r.rtake m = r.tail := by
        rw [List.rtake, show r.length - m = 1 by omega, List.drop_one]
      have hne : r ≠ [] := by
        rintro rfl
        exact hfull (Nat.zero_le m)
      rw [if_neg (by simp only [List.length_append, List.length_singleton]; omega), hkeep,
        rtake_append (by omega), htail, List.tail_append_of_ne_nil hne]

/-- A key that was just used is there, if there is room for one. -/
theorem mem_recent_concat {n : Nat} (hn : 1 ≤ n) (uses : List K) (key : K) :
    key ∈ recent n (uses ++ [key]) := by
  obtain ⟨m, rfl⟩ := Nat.exists_eq_add_of_le' hn
  rw [recent, dedup_concat, touch, List.rtake_concat_succ]
  exact List.mem_append_right _ List.mem_cons_self

/-- While no more keys than there is room for were used, a use makes no overflow. -/
theorem length_touch_recent_le {n : Nat} {uses : List K} {key : K}
    (h : (uses ++ [key]).dedup.length ≤ n) : (touch (recent n uses) key).length ≤ n := by
  refine le_trans ?_ h
  refine (List.subperm_of_subset ?_ fun k hk => ?_).length_le
  · rw [touch, List.nodup_append]
    refine ⟨(nodup_recent n uses).erase key, List.nodup_singleton key, ?_⟩
    intro k hk j hj
    rw [List.mem_singleton.mp hj]
    exact ((nodup_recent n uses).mem_erase_iff.mp hk).1
  · rw [List.mem_dedup, List.mem_append]
    exact (List.mem_append.mp hk).imp (fun h => mem_of_mem_recent (List.mem_of_mem_erase h)) id

end HulyGitlab.RecentUse
