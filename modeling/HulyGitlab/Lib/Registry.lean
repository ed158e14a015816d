import HulyGitlab.Lib.OrderedMap

/-!
# Rows under generated ids

A registry gives each added value the next unused number. Every id it holds
is below the next one, so an added value never replaces another.
-/

namespace HulyGitlab

variable {V : Type*}

/-- Values under numeric ids; ids are never used twice. -/
structure Registry (V : Type*) where
  rows : OrderedMap Nat V
  next : Nat
  fresh : ∀ i ∈ rows.keys, i < next

namespace Registry

@[ext] theorem ext {r s : Registry V} (hrows : r.rows = s.rows) (hnext : r.next = s.next) :
    r = s := by
  cases r
  cases s
  cases hrows
  cases hnext
  rfl

instance [DecidableEq V] : DecidableEq (Registry V) := fun r s =>
  decidable_of_iff (r.rows = s.rows ∧ r.next = s.next)
    ⟨fun h => ext h.1 h.2, fun h => h ▸ ⟨rfl, rfl⟩⟩

def empty : Registry V := ⟨.empty, 0, fun _ h => absurd h List.not_mem_nil⟩

instance : Inhabited (Registry V) := ⟨empty⟩

def get? (r : Registry V) (i : Nat) : Option V := r.rows.get? i

def values (r : Registry V) : List V := r.rows.values

/-- Store a value under the next id. -/
def add (r : Registry V) (v : V) : Registry V where
  rows := r.rows.set r.next v
  next := r.next + 1
  fresh := by
    intro i hi
    rcases (OrderedMap.mem_keys_set r.rows r.next i v).mp hi with rfl | hi
    · exact Nat.lt_succ_self _
    · exact Nat.lt_succ_of_lt (r.fresh i hi)

/-- Replace the value of an id in use. -/
def update (r : Registry V) (i : Nat) (v : V) : Registry V :=
  if h : i ∈ r.rows.keys then
    { rows := r.rows.set i v
      next := r.next
      fresh := by
        intro j hj
        rcases (OrderedMap.mem_keys_set r.rows i j v).mp hj with rfl | hj
        · exact r.fresh j h
        · exact r.fresh j hj }
  else r

def remove (r : Registry V) (i : Nat) : Registry V where
  rows := r.rows.delete i
  next := r.next
  fresh := fun j hj => r.fresh j ((OrderedMap.mem_keys_delete r.rows i j).mp hj).2

@[simp] theorem get?_empty (i : Nat) : (empty : Registry V).get? i = none := rfl

@[simp] theorem values_empty : (empty : Registry V).values = [] := rfl

theorem lt_next_of_get? {r : Registry V} {i : Nat} {v : V} (h : r.get? i = some v) :
    i < r.next :=
  r.fresh i (OrderedMap.mem_keys_of_get? h)

theorem get?_next (r : Registry V) : r.get? r.next = none := by
  rw [get?, OrderedMap.get?_eq_none_iff]
  intro h
  exact absurd (r.fresh _ h) (Nat.lt_irrefl _)

theorem get?_add (r : Registry V) (v : V) (i : Nat) :
    (r.add v).get? i = if i = r.next then some v else r.get? i :=
  OrderedMap.get?_set r.rows r.next i v

@[simp] theorem get?_add_next (r : Registry V) (v : V) : (r.add v).get? r.next = some v := by
  rw [get?_add, if_pos rfl]

/-- Adding keeps every row. -/
theorem get?_add_of_some {r : Registry V} {i : Nat} {w : V} (h : r.get? i = some w) (v : V) :
    (r.add v).get? i = some w := by
  rw [get?_add, if_neg (Nat.ne_of_lt (lt_next_of_get? h)), h]

/-- What holds of the new row and of all the old ones holds of every row. -/
theorem forall_add {P : Nat → V → Prop} {r : Registry V} {v : V} (hnew : P r.next v)
    (hold : ∀ i w, r.get? i = some w → P i w) : ∀ i w, (r.add v).get? i = some w → P i w := by
  intro i w hw
  rw [get?_add] at hw
  split at hw
  next hi =>
    cases hw
    exact hi ▸ hnew
  next => exact hold i w hw

theorem get?_update {r : Registry V} {i : Nat} {w : V} (h : r.get? i = some w) (v : V)
    (j : Nat) : (r.update i v).get? j = if j = i then some v else r.get? j := by
  simp only [update, dif_pos (OrderedMap.mem_keys_of_get? h), get?]
  exact OrderedMap.get?_set r.rows i j v

theorem forall_update {P : Nat → V → Prop} {r : Registry V} {i : Nat} {w v : V}
    (h : r.get? i = some w) (hnew : P i v) (hold : ∀ j u, j ≠ i → r.get? j = some u → P j u) :
    ∀ j u, (r.update i v).get? j = some u → P j u := by
  intro j u hu
  rw [get?_update h] at hu
  split at hu
  next hj =>
    cases hu
    exact hj ▸ hnew
  next hj => exact hold j u hj hu

theorem get?_remove (r : Registry V) (i j : Nat) :
    (r.remove i).get? j = if j = i then none else r.get? j :=
  OrderedMap.get?_delete r.rows i j

theorem get?_remove_of_ne (r : Registry V) {i j : Nat} (h : j ≠ i) :
    (r.remove i).get? j = r.get? j := by
  rw [get?_remove, if_neg h]

theorem get?_of_get?_remove {r : Registry V} {i j : Nat} {v : V}
    (h : (r.remove i).get? j = some v) : j ≠ i ∧ r.get? j = some v := by
  rw [get?_remove] at h
  by_cases hj : j = i
  · rw [if_pos hj] at h
    cases h
  · rw [if_neg hj] at h
    exact ⟨hj, h⟩

theorem values_add (r : Registry V) (v : V) : (r.add v).values = r.values ++ [v] := by
  have h : r.next ∉ r.rows.keys := fun h => absurd (r.fresh _ h) (Nat.lt_irrefl _)
  exact OrderedMap.values_set_of_not_mem h v

theorem values_perm_of_get? {r : Registry V} {i : Nat} {w : V} (h : r.get? i = some w) :
    r.values.Perm (w :: (r.remove i).values) :=
  OrderedMap.values_perm_of_get? h

theorem values_update_perm {r : Registry V} {i : Nat} {w : V} (h : r.get? i = some w) (v : V) :
    (r.update i v).values.Perm (v :: (r.remove i).values) := by
  have h' : (r.update i v).get? i = some v := by rw [get?_update h, if_pos rfl]
  have hr : (r.update i v).remove i = r.remove i := by
    apply ext
    · simp only [update, dif_pos (OrderedMap.mem_keys_of_get? h), remove]
      exact OrderedMap.delete_set_self r.rows i v
    · simp only [update, dif_pos (OrderedMap.mem_keys_of_get? h), remove]
  rw [← hr]
  exact values_perm_of_get? h'

theorem mem_values_iff (r : Registry V) (v : V) :
    v ∈ r.values ↔ ∃ i, r.get? i = some v :=
  OrderedMap.mem_values_iff r.rows v

instance (r : Registry V) (P : V → Prop) [DecidablePred P] :
    Decidable (∀ i v, r.get? i = some v → P v) :=
  decidable_of_iff (∀ v ∈ r.values, P v)
    ⟨fun h i v hv => h v ((mem_values_iff r v).mpr ⟨i, hv⟩), fun h v hv =>
      let ⟨i, hi⟩ := (mem_values_iff r v).mp hv
      h i v hi⟩

end Registry

end HulyGitlab
