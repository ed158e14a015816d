import Mathlib.Data.List.Nodup

/-!
# Maps and sets that keep the order of first insertion

Setting a key that is present keeps its place; a new key goes to the end;
deleting and setting again moves a key to the end. No key occurs twice: the
structure carries that fact.
-/

namespace HulyGitlab

variable {K V W : Type*}

/-- An association list without repeated keys, oldest key first. -/
structure OrderedMap (K V : Type*) where
  entries : List (K × V)
  nodup : (entries.map Prod.fst).Nodup

namespace OrderedMap

@[ext] theorem ext {m n : OrderedMap K V} (h : m.entries = n.entries) : m = n := by
  cases m
  cases n
  cases h
  rfl

instance [DecidableEq K] [DecidableEq V] : DecidableEq (OrderedMap K V) := fun m n =>
  decidable_of_iff (m.entries = n.entries) ⟨ext, fun h => h ▸ rfl⟩

def empty : OrderedMap K V := ⟨[], List.nodup_nil⟩

instance : Inhabited (OrderedMap K V) := ⟨empty⟩

def keys (m : OrderedMap K V) : List K := m.entries.map Prod.fst

def values (m : OrderedMap K V) : List V := m.entries.map Prod.snd

theorem nodup_keys (m : OrderedMap K V) : m.keys.Nodup := m.nodup

variable [DecidableEq K]

def get? (m : OrderedMap K V) (k : K) : Option V := m.entries.lookup k

/-- Replace the value of one key in an association list. -/
def replace (k : K) (v : V) (xs : List (K × V)) : List (K × V) :=
  xs.map fun p => if p.1 = k then (k, v) else p

theorem replace_keys (k : K) (v : V) (xs : List (K × V)) :
    (replace k v xs).map Prod.fst = xs.map Prod.fst := by
  simp only [replace, List.map_map]
  apply List.map_congr_left
  intro p _
  by_cases h : p.1 = k <;> simp [h]

/-- Set a key: a present key keeps its place, a new one goes to the end. -/
def set (m : OrderedMap K V) (k : K) (v : V) : OrderedMap K V :=
  if h : k ∈ m.keys then
    ⟨replace k v m.entries, (replace_keys k v m.entries).symm ▸ m.nodup⟩
  else
    ⟨m.entries ++ [(k, v)], by
      rw [List.map_append, List.nodup_append]
      refine ⟨m.nodup, List.nodup_singleton k, ?_⟩
      intro a ha b hb hab
      obtain rfl : b = k := by simpa using hb
      exact h (hab ▸ ha)⟩

def delete (m : OrderedMap K V) (k : K) : OrderedMap K V :=
  ⟨m.entries.filter fun p => decide (p.1 ≠ k),
    m.nodup.sublist (List.filter_sublist.map Prod.fst)⟩

@[simp] theorem get?_empty (k : K) : (empty : OrderedMap K V).get? k = none := rfl

omit [DecidableEq K] in
@[simp] theorem keys_empty : (empty : OrderedMap K V).keys = [] := rfl

omit [DecidableEq K] in
@[simp] theorem entries_empty : (empty : OrderedMap K V).entries = [] := rfl

theorem lookup_cons_ite (a j : K) (v : V) (xs : List (K × V)) :
    ((a, v) :: xs).lookup j = if j = a then some v else xs.lookup j := by
  by_cases h : j = a
  · simp [h]
  · rw [List.lookup_cons, beq_eq_false_iff_ne.mpr h, if_neg h]

theorem lookup_isSome_iff (xs : List (K × V)) (k : K) :
    (xs.lookup k).isSome ↔ k ∈ xs.map Prod.fst := by
  induction xs with
  | nil => simp
  | cons p xs ih =>
      obtain ⟨a, v⟩ := p
      by_cases h : k = a
      · simp [h]
      · simp [lookup_cons_ite, h, ih]

theorem get?_isSome_iff (m : OrderedMap K V) (k : K) :
    (m.get? k).isSome ↔ k ∈ m.keys :=
  lookup_isSome_iff m.entries k

theorem get?_eq_none_iff (m : OrderedMap K V) (k : K) :
    m.get? k = none ↔ k ∉ m.keys := by
  rw [← get?_isSome_iff, Option.not_isSome_iff_eq_none]

theorem mem_keys_of_get? {m : OrderedMap K V} {k : K} {v : V} (h : m.get? k = some v) :
    k ∈ m.keys :=
  (get?_isSome_iff m k).mp (by rw [h]; rfl)

theorem lookup_replace (k : K) (v : V) (xs : List (K × V)) (j : K) :
    (replace k v xs).lookup j =
      if j = k then (if k ∈ xs.map Prod.fst then some v else none) else xs.lookup j := by
  induction xs with
  | nil => simp [replace]
  | cons p xs ih =>
      obtain ⟨a, w⟩ := p
      simp only [replace, List.map_cons] at ih ⊢
      by_cases ha : a = k
      · subst ha
        by_cases hj : j = a <;> simp [lookup_cons_ite, hj, ih]
      · by_cases hj : j = k
        · subst hj
          have haj : ¬j = a := fun h => ha h.symm
          have hmem : j ∈ ((a, w) :: xs).map Prod.fst ↔ j ∈ xs.map Prod.fst :=
            List.mem_cons.trans (or_iff_right haj)
          rw [if_neg ha, lookup_cons_ite, if_neg haj, ih, if_pos rfl, if_pos rfl]
          exact if_congr hmem.symm rfl rfl
        · by_cases hja : j = a <;> simp [lookup_cons_ite, ha, hj, hja, ih]

theorem lookup_append_of_not_mem {xs : List (K × V)} {k : K} (h : k ∉ xs.map Prod.fst)
    (v : V) (j : K) :
    (xs ++ [(k, v)]).lookup j = if j = k then some v else xs.lookup j := by
  induction xs with
  | nil => by_cases hj : j = k <;> simp [lookup_cons_ite, hj]
  | cons p xs ih =>
      obtain ⟨a, w⟩ := p
      simp only [List.map_cons, List.mem_cons, not_or] at h
      by_cases hja : j = a
      · subst hja
        simp [Ne.symm h.1]
      · simp [lookup_cons_ite, hja, ih h.2]

theorem filter_replace (k : K) (v : V) (xs : List (K × V)) :
    (replace k v xs).filter (fun p => decide (p.1 ≠ k)) =
      xs.filter fun p => decide (p.1 ≠ k) := by
  induction xs with
  | nil => rfl
  | cons p xs ih =>
      simp only [replace, List.map_cons] at ih ⊢
      by_cases h : p.1 = k
      · rw [if_pos h, List.filter_cons_of_neg (by simp), List.filter_cons_of_neg (by simpa using h)]
        exact ih
      · rw [if_neg h, List.filter_cons_of_pos (by simpa using h),
          List.filter_cons_of_pos (by simpa using h), ih]

theorem mem_of_lookup {xs : List (K × V)} {k : K} {v : V} (h : xs.lookup k = some v) :
    (k, v) ∈ xs := by
  induction xs with
  | nil => cases h
  | cons p xs ih =>
      obtain ⟨a, w⟩ := p
      rw [lookup_cons_ite] at h
      by_cases hk : k = a
      · rw [if_pos hk] at h
        cases h
        exact hk ▸ List.mem_cons_self
      · rw [if_neg hk] at h
        exact List.mem_cons_of_mem _ (ih h)

theorem lookup_of_mem {xs : List (K × V)} (hn : (xs.map Prod.fst).Nodup) {k : K} {v : V}
    (h : (k, v) ∈ xs) : xs.lookup k = some v := by
  induction xs with
  | nil => cases h
  | cons p xs ih =>
      obtain ⟨a, w⟩ := p
      obtain ⟨ha, hn⟩ := List.nodup_cons.mp hn
      rw [lookup_cons_ite]
      rcases List.mem_cons.mp h with h | h
      · cases h
        rw [if_pos rfl]
      · have hk : k ≠ a := fun hk => ha (List.mem_map.mpr ⟨(k, v), h, hk⟩)
        rw [if_neg hk, ih hn h]

theorem entries_perm_of_lookup {xs : List (K × V)} (hn : (xs.map Prod.fst).Nodup) {k : K}
    {v : V} (h : xs.lookup k = some v) :
    xs.Perm ((k, v) :: xs.filter fun p => decide (p.1 ≠ k)) := by
  induction xs with
  | nil => cases h
  | cons p xs ih =>
      obtain ⟨a, w⟩ := p
      obtain ⟨ha, hn⟩ := List.nodup_cons.mp hn
      rw [lookup_cons_ite] at h
      by_cases hk : k = a
      · rw [if_pos hk] at h
        cases h
        subst hk
        have hrest : xs.filter (fun p => decide (p.1 ≠ k)) = xs := by
          apply List.filter_eq_self.mpr
          intro p hp
          have : p.1 ≠ k := fun he => ha (List.mem_map.mpr ⟨p, hp, he⟩)
          simpa using this
        rw [List.filter_cons_of_neg (by simp), hrest]
      · rw [if_neg hk] at h
        have hak : a ≠ k := fun he => hk he.symm
        rw [List.filter_cons_of_pos (by simpa using hak)]
        exact ((ih hn h).cons (a, w)).trans (List.Perm.swap _ _ _)

theorem get?_set (m : OrderedMap K V) (k j : K) (v : V) :
    (m.set k v).get? j = if j = k then some v else m.get? j := by
  by_cases h : k ∈ m.keys
  · simp only [set, dif_pos h, get?]
    rw [lookup_replace, if_pos (show k ∈ m.entries.map Prod.fst from h)]
  · simp only [set, dif_neg h, get?]
    exact lookup_append_of_not_mem h v j

@[simp] theorem get?_set_self (m : OrderedMap K V) (k : K) (v : V) :
    (m.set k v).get? k = some v := by
  simp [get?_set]

theorem get?_set_of_ne (m : OrderedMap K V) {k j : K} (h : j ≠ k) (v : V) :
    (m.set k v).get? j = m.get? j := by
  simp [get?_set, h]

theorem lookup_filter_ne (k j : K) (xs : List (K × V)) :
    (xs.filter fun p => decide (p.1 ≠ k)).lookup j =
      if j = k then none else xs.lookup j := by
  induction xs with
  | nil => simp
  | cons p xs ih =>
      obtain ⟨a, v⟩ := p
      by_cases ha : a = k
      · subst ha
        rw [List.filter_cons_of_neg (by simp), ih, lookup_cons_ite]
        by_cases hj : j = a <;> simp [hj]
      · rw [List.filter_cons_of_pos (by simpa using ha), lookup_cons_ite, lookup_cons_ite, ih]
        by_cases hj : j = a
        · have hjk : ¬j = k := fun h => ha (hj ▸ h)
          simp only [if_pos hj, if_neg hjk]
        · simp only [if_neg hj]

theorem get?_delete (m : OrderedMap K V) (k j : K) :
    (m.delete k).get? j = if j = k then none else m.get? j :=
  lookup_filter_ne k j m.entries

@[simp] theorem get?_delete_self (m : OrderedMap K V) (k : K) :
    (m.delete k).get? k = none := by
  simp [get?_delete]

theorem get?_delete_of_ne (m : OrderedMap K V) {k j : K} (h : j ≠ k) :
    (m.delete k).get? j = m.get? j := by
  simp [get?_delete, h]

/-- Deleting the keys of a list of entries, each under a condition of its own. -/
theorem get?_foldl_delete (p : K × V → Prop) [DecidablePred p] (xs : List (K × V))
    (m : OrderedMap K V) (k : K) :
    (xs.foldl (fun m e => if p e then m.delete e.1 else m) m).get? k =
      if ∃ e ∈ xs, p e ∧ e.1 = k then none else m.get? k := by
  induction xs generalizing m with
  | nil => simp
  | cons e xs ih =>
      rw [List.foldl_cons, ih]
      by_cases hrest : ∃ e ∈ xs, p e ∧ e.1 = k
      · have hsome : ∃ a ∈ e :: xs, p a ∧ a.1 = k := by
          obtain ⟨a, ha, hp⟩ := hrest
          exact ⟨a, List.mem_cons_of_mem e ha, hp⟩
        rw [if_pos hrest, if_pos hsome]
      · rw [if_neg hrest]
        by_cases he : p e
        · by_cases hk : e.1 = k
          · rw [if_pos he, ← hk, get?_delete_self, if_pos ⟨e, List.mem_cons_self, he, rfl⟩]
          · rw [if_pos he, get?_delete_of_ne m (Ne.symm hk), if_neg]
            rintro ⟨a, ha, hp, hak⟩
            rcases List.mem_cons.mp ha with rfl | ha
            · exact hk hak
            · exact hrest ⟨a, ha, hp, hak⟩
        · rw [if_neg he, if_neg]
          rintro ⟨a, ha, hp, hak⟩
          rcases List.mem_cons.mp ha with rfl | ha
          · exact he hp
          · exact hrest ⟨a, ha, hp, hak⟩

theorem keys_set (m : OrderedMap K V) (k : K) (v : V) :
    (m.set k v).keys = if k ∈ m.keys then m.keys else m.keys ++ [k] := by
  by_cases h : k ∈ m.keys
  · rw [if_pos h]
    simp only [set, dif_pos h]
    exact replace_keys k v m.entries
  · rw [if_neg h]
    simp only [set, dif_neg h]
    exact List.map_append

theorem mem_keys_set (m : OrderedMap K V) (k j : K) (v : V) :
    j ∈ (m.set k v).keys ↔ j = k ∨ j ∈ m.keys := by
  rw [keys_set]
  by_cases h : k ∈ m.keys
  · rw [if_pos h]
    constructor
    · exact Or.inr
    · rintro (rfl | hj)
      · exact h
      · exact hj
  · rw [if_neg h]
    simp [or_comm]

theorem keys_delete (m : OrderedMap K V) (k : K) :
    (m.delete k).keys = m.keys.filter fun j => decide (j ≠ k) := by
  simp only [delete, keys, List.filter_map]
  rfl

theorem mem_keys_delete (m : OrderedMap K V) (k j : K) :
    j ∈ (m.delete k).keys ↔ j ≠ k ∧ j ∈ m.keys := by
  rw [keys_delete]
  simp [and_comm]

theorem delete_set_self (m : OrderedMap K V) (k : K) (v : V) :
    (m.set k v).delete k = m.delete k := by
  apply ext
  by_cases h : k ∈ m.keys
  · simp only [set, dif_pos h, delete]
    exact filter_replace k v m.entries
  · simp only [set, dif_neg h, delete, List.filter_append]
    simp

theorem values_set_of_not_mem {m : OrderedMap K V} {k : K} (h : k ∉ m.keys) (v : V) :
    (m.set k v).values = m.values ++ [v] := by
  simp only [set, dif_neg h, values]
  exact List.map_append

theorem mem_entries_of_get? {m : OrderedMap K V} {k : K} {v : V} (h : m.get? k = some v) :
    (k, v) ∈ m.entries :=
  mem_of_lookup h

theorem get?_of_mem_entries {m : OrderedMap K V} {k : K} {v : V} (h : (k, v) ∈ m.entries) :
    m.get? k = some v :=
  lookup_of_mem m.nodup h

theorem mem_values_iff (m : OrderedMap K V) (v : V) :
    v ∈ m.values ↔ ∃ k, m.get? k = some v := by
  constructor
  · intro h
    obtain ⟨⟨k, w⟩, hp, rfl⟩ := List.mem_map.mp h
    exact ⟨k, get?_of_mem_entries hp⟩
  · rintro ⟨k, h⟩
    exact List.mem_map.mpr ⟨(k, v), mem_entries_of_get? h, rfl⟩

/-- The values are the value of one key and those of the other keys. -/
theorem values_perm_of_get? {m : OrderedMap K V} {k : K} {v : V} (h : m.get? k = some v) :
    m.values.Perm (v :: (m.delete k).values) := by
  have hp := entries_perm_of_lookup m.nodup h
  exact hp.map Prod.snd

/-- Change the value of every key. -/
def mapEntries (f : K → V → V) (m : OrderedMap K V) : OrderedMap K V where
  entries := m.entries.map fun p => (p.1, f p.1 p.2)
  nodup := by
    rw [List.map_map]
    exact m.nodup

omit [DecidableEq K] in
theorem keys_mapEntries (f : K → V → V) (m : OrderedMap K V) : (m.mapEntries f).keys = m.keys :=
  List.map_map

omit [DecidableEq K] in
theorem mapEntries_mapEntries (f g : K → V → V) (m : OrderedMap K V) :
    (m.mapEntries f).mapEntries g = m.mapEntries fun k v => g k (f k v) := by
  apply ext
  exact List.map_map

theorem mapEntries_congr {f g : K → V → V} {m : OrderedMap K V}
    (h : ∀ k v, m.get? k = some v → f k v = g k v) : m.mapEntries f = m.mapEntries g := by
  apply ext
  refine List.map_congr_left fun p hp => ?_
  exact Prod.ext rfl (h p.1 p.2 (get?_of_mem_entries hp))

theorem mapEntries_of_forall {f : K → V → V} {m : OrderedMap K V}
    (h : ∀ k v, m.get? k = some v → f k v = v) : m.mapEntries f = m := by
  calc m.mapEntries f = m.mapEntries fun _ v => v := mapEntries_congr h
    _ = m := ext (List.map_id' m.entries)

theorem get?_mapEntries (f : K → V → V) (m : OrderedMap K V) (k : K) :
    (m.mapEntries f).get? k = (m.get? k).map (f k) := by
  cases hk : m.get? k with
  | some v => exact get?_of_mem_entries (List.mem_map.mpr ⟨(k, v), mem_entries_of_get? hk, rfl⟩)
  | none =>
    refine (get?_eq_none_iff _ k).mpr ?_
    rw [keys_mapEntries]
    exact (get?_eq_none_iff m k).mp hk

/-- Setting a present key changes its value alone. -/
theorem set_eq_mapEntries {m : OrderedMap K V} {k : K} {u : V} (h : m.get? k = some u) (v : V) :
    m.set k v = m.mapEntries fun j x => if j = k then v else x := by
  apply ext
  rw [set, dif_pos (mem_keys_of_get? h)]
  refine List.map_congr_left fun p _ => ?_
  by_cases hp : p.1 = k
  · subst hp
    simp only [if_true]
  · simp only [if_neg hp]

theorem set_of_get? {m : OrderedMap K V} {k : K} {v : V} (h : m.get? k = some v) :
    m.set k v = m := by
  rw [set_eq_mapEntries h]
  refine mapEntries_of_forall fun j x hj => ?_
  by_cases hjk : j = k
  · rw [if_pos hjk]
    rw [hjk] at hj
    exact Option.some.inj (h.symm.trans hj)
  · rw [if_neg hjk]

theorem set_set {m : OrderedMap K V} {k : K} {u : V} (h : m.get? k = some u) (v v' : V) :
    (m.set k v).set k v' = m.set k v' := by
  rw [set_eq_mapEntries (get?_set_self m k v), set_eq_mapEntries h, set_eq_mapEntries h,
    mapEntries_mapEntries]
  refine mapEntries_congr fun j x _ => ?_
  by_cases hjk : j = k
  · simp only [if_pos hjk]
  · simp only [if_neg hjk]

/-- A function that takes the old and the new value of a present key to one value. -/
theorem mapEntries_set {f : K → V → V} {m : OrderedMap K V} {k : K} {u v : V}
    (h : m.get? k = some u) (hf : f k v = f k u) : (m.set k v).mapEntries f = m.mapEntries f := by
  rw [set_eq_mapEntries h, mapEntries_mapEntries]
  refine mapEntries_congr fun j x hj => ?_
  by_cases hjk : j = k
  · subst hjk
    rw [if_pos rfl, hf, Option.some.inj (h.symm.trans hj)]
  · rw [if_neg hjk]

/-- A loop over some of the entries, each round of which changes the value of its own key. -/
theorem get?_foldl_set {S : Type*} {table : S → OrderedMap K V} {f : S → K × V → S}
    {g : K → V → V}
    (hf : ∀ s k v, (table s).get? k = some v → table (f s (k, v)) = (table s).set k (g k v))
    {l : List (K × V)} (hl : (l.map Prod.fst).Nodup) {s : S}
    (h : ∀ p ∈ l, (table s).get? p.1 = some p.2) (k : K) :
    (table (l.foldl f s)).get? k =
      ((table s).get? k).map fun v => if k ∈ l.map Prod.fst then g k v else v := by
  induction l generalizing s with
  | nil => simp
  | cons p l ih =>
    obtain ⟨hnot, hrest⟩ := List.nodup_cons.mp hl
    have hround := hf s p.1 p.2 (h p List.mem_cons_self)
    have hkept : ∀ q ∈ l, (table (f s p)).get? q.1 = some q.2 := by
      intro q hq
      have hne : q.1 ≠ p.1 := fun heq => hnot (heq ▸ List.mem_map_of_mem hq)
      rw [hround, get?_set_of_ne _ hne]
      exact h q (List.mem_cons_of_mem p hq)
    rw [List.foldl_cons, ih hrest hkept, hround]
    by_cases hk : k = p.1
    · subst hk
      rw [get?_set_self, h p List.mem_cons_self]
      simp [hnot]
    · rw [get?_set_of_ne _ hk]
      simp only [List.map_cons, List.mem_cons, hk, false_or]

/-- A loop that sets keys no two of which are the same. -/
theorem get?_foldl_insert {S E : Type*} {table : S → OrderedMap K V} {f : S → E → S} {key : E → K}
    {val : E → V} {l : List E}
    (hf : ∀ s, ∀ e ∈ l, table (f s e) = (table s).set (key e) (val e)) (hl : (l.map key).Nodup)
    (s : S) (k : K) (v : V) :
    (table (l.foldl f s)).get? k = some v ↔
      (∃ e ∈ l, key e = k ∧ val e = v) ∨ (k ∉ l.map key ∧ (table s).get? k = some v) := by
  induction l generalizing s with
  | nil => simp
  | cons e l ih =>
    obtain ⟨hnot, hrest⟩ := List.nodup_cons.mp hl
    rw [List.foldl_cons, ih (fun s e he => hf s e (List.mem_cons_of_mem _ he)) hrest,
      hf s e List.mem_cons_self]
    simp only [List.map_cons, List.mem_cons, not_or, exists_eq_or_imp]
    by_cases hk : k = key e
    · subst hk
      rw [get?_set_self, Option.some.injEq]
      simp only [hnot, not_false_eq_true, true_and, not_true_eq_false, false_and, or_false]
      exact or_comm
    · rw [get?_set_of_ne _ hk]
      simp only [hk, Ne.symm hk, not_false_eq_true, true_and, false_and, false_or]

end OrderedMap

/-- A set in insertion order. -/
structure OrderedSet (K : Type*) where
  elems : List K
  nodup : elems.Nodup

namespace OrderedSet

@[ext] theorem ext {s t : OrderedSet K} (h : s.elems = t.elems) : s = t := by
  cases s
  cases t
  cases h
  rfl

instance [DecidableEq K] : DecidableEq (OrderedSet K) := fun s t =>
  decidable_of_iff (s.elems = t.elems) ⟨ext, fun h => h ▸ rfl⟩

def empty : OrderedSet K := ⟨[], List.nodup_nil⟩

instance : Inhabited (OrderedSet K) := ⟨empty⟩

variable [DecidableEq K]

def delete (s : OrderedSet K) (k : K) : OrderedSet K :=
  ⟨s.elems.erase k, s.nodup.erase k⟩

/-- Add an element; one that is present keeps its place. -/
def add (s : OrderedSet K) (k : K) : OrderedSet K :=
  if h : k ∈ s.elems then s
  else ⟨s.elems ++ [k], by
    rw [List.nodup_append]
    refine ⟨s.nodup, List.nodup_singleton k, ?_⟩
    intro a ha b hb hab
    obtain rfl : b = k := by simpa using hb
    exact h (hab ▸ ha)⟩

omit [DecidableEq K] in
@[simp] theorem elems_empty : (empty : OrderedSet K).elems = [] := rfl

theorem mem_delete (s : OrderedSet K) (k j : K) :
    j ∈ (s.delete k).elems ↔ j ≠ k ∧ j ∈ s.elems :=
  s.nodup.mem_erase_iff

theorem not_mem_delete_self (s : OrderedSet K) (k : K) : k ∉ (s.delete k).elems := by
  simp [mem_delete]

theorem elems_add_of_not_mem (s : OrderedSet K) {k : K} (h : k ∉ s.elems) :
    (s.add k).elems = s.elems ++ [k] := by
  simp [add, h]

theorem mem_add (s : OrderedSet K) (k j : K) :
    j ∈ (s.add k).elems ↔ j = k ∨ j ∈ s.elems := by
  by_cases h : k ∈ s.elems
  · simp only [add, dif_pos h]
    constructor
    · exact Or.inr
    · rintro (rfl | hj)
      · exact h
      · exact hj
  · rw [elems_add_of_not_mem s h]
    simp [or_comm]

/-- Deleting an element and adding it again moves it to the end. -/
theorem elems_add_delete_self (s : OrderedSet K) (k : K) :
    ((s.delete k).add k).elems = s.elems.erase k ++ [k] :=
  elems_add_of_not_mem _ (not_mem_delete_self s k)

end OrderedSet

end HulyGitlab
