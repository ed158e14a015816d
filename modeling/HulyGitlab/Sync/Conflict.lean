import HulyGitlab.Js
import Mathlib.Data.List.Dedup
import Mathlib.Data.List.Perm.Subperm

/-!
# Last-write-wins resolution

`conflict.ts` and the `take` closure that both issue managers build their
update with.
-/

namespace HulyGitlab

/-- A `Date`, by its instant; `none` is an invalid date. -/
abbrev JsDate := Option Nat

namespace JsDate

/-- `a > b` on dates; false when one of them is invalid. -/
def after (a b : JsDate) : Bool :=
  match a, b with
  | some x, some y => y < x
  | _, _ => false

@[simp] theorem after_some (x y : Nat) : after (some x) (some y) = decide (y < x) := rfl

end JsDate

namespace Conflict

inductive LwwWinner
  | localSide
  | remote
  | tie
  | noop
  deriving DecidableEq

structure LwwResult where
  winner : LwwWinner
  value : JsValue

def resolveLww (localValue : JsValue) (localTs : Option JsDate) (remoteValue : JsValue)
    (remoteTs : Option JsDate) : LwwResult :=
  let localMissing := localValue = .undefined ∨ localTs = none
  let remoteMissing := remoteValue = .undefined ∨ remoteTs = none
  if localMissing ∧ remoteMissing then ⟨.noop, .undefined⟩
  else if localMissing then ⟨.remote, remoteValue⟩
  else if remoteMissing then ⟨.localSide, localValue⟩
  else
    let lt := localTs.getD none
    let rt := remoteTs.getD none
    if rt.after lt then ⟨.remote, remoteValue⟩
    else if lt.after rt then ⟨.localSide, localValue⟩
    -- equal timestamps prefer remote
    else ⟨.remote, remoteValue⟩

structure FieldVersion where
  value : JsValue
  ts : Option JsDate

inductive FieldDecision
  | localSide
  | remote
  | noop
  deriving DecidableEq

/-- `Record<string, FieldVersion<unknown>>`. -/
abbrev FieldMap := List (String × FieldVersion)

/-- The version a map has for a field; a missing one is undefined on both sides. -/
def FieldMap.version (m : FieldMap) (field : String) : FieldVersion :=
  (m.lookup field).getD ⟨.undefined, none⟩

def fieldDecision (l r : FieldVersion) : FieldDecision :=
  match (resolveLww l.value l.ts r.value r.ts).winner with
  | .noop => .noop
  | .tie => .remote
  | .remote => .remote
  | .localSide => .localSide

def applyLwwFieldByField (loc rem : FieldMap) : List (String × FieldDecision) :=
  let allKeys := (loc.map Prod.fst ++ rem.map Prod.fst).dedup
  allKeys.map fun field => (field, fieldDecision (loc.version field) (rem.version field))

/-- `areEqual`: arrays of primitives are compared as sets of the same length. -/
def areEqual (a b : JsValue) : Bool :=
  if a = b then true
  else
    match a, b with
    | .arr xs, .arr ys =>
        xs.length = ys.length && xs.dedup.length = ys.dedup.length &&
          xs.dedup.all fun x => x ∈ ys
    | _, _ => a.deepEqual b

/-- The closure `take`: the remote value enters the update when it won and differs. -/
def take (loc rem : FieldMap) (k : String) (update : Fields) : Fields :=
  if (applyLwwFieldByField loc rem).lookup k ≠ some .remote then update
  else if areEqual (rem.version k).value (loc.version k).value then update
  else update ++ [(k, (rem.version k).value)]

/-- The calls of `take`, in order. -/
def takeAll (loc rem : FieldMap) (keys : List String) : Fields :=
  keys.foldl (fun update k => take loc rem k update) []

theorem lookup_applyLwwFieldByField {loc rem : FieldMap} {k : String}
    (h : k ∈ loc.map Prod.fst) :
    (applyLwwFieldByField loc rem).lookup k =
      some (fieldDecision (loc.version k) (rem.version k)) := by
  have hmem : k ∈ (loc.map Prod.fst ++ rem.map Prod.fst).dedup := by
    rw [List.mem_dedup, List.mem_append]
    exact .inl h
  unfold applyLwwFieldByField
  generalize (loc.map Prod.fst ++ rem.map Prod.fst).dedup = keys at hmem
  induction keys with
  | nil => simp at hmem
  | cons j keys ih =>
    by_cases hj : k = j
    · subst hj
      simp
    · have hbeq : (k == j) = false := by simp [hj]
      simp only [List.map_cons, List.lookup_cons, hbeq]
      exact ih (by simpa [hj] using hmem)

/-- A field both sides have is decided by the timestamps, and a tie goes to the remote. -/
theorem decide_of_present {lv rv : JsValue} (hl : lv ≠ .undefined) (hr : rv ≠ .undefined)
    (lt rt : Nat) :
    fieldDecision ⟨lv, some (some lt)⟩ ⟨rv, some (some rt)⟩ =
      if rt < lt then .localSide else .remote := by
  unfold fieldDecision resolveLww
  simp only [hl, hr, false_or, reduceCtorEq, and_false, if_false, Option.getD_some,
    JsDate.after_some, decide_eq_true_eq]
  by_cases h : lt < rt
  · have h' : ¬ rt < lt := by omega
    simp [h, h']
  · by_cases h' : rt < lt
    · simp [h, h']
    · simp [h, h']

/-- Without a local value or a local timestamp the remote side wins. -/
theorem decide_of_local_missing {l : FieldVersion} (hl : l.value = .undefined ∨ l.ts = none)
    {rv : JsValue} (hr : rv ≠ .undefined) (rt : JsDate) :
    fieldDecision l ⟨rv, some rt⟩ = .remote := by
  unfold fieldDecision resolveLww
  have hrem : ¬ (rv = .undefined ∨ some rt = none) := by simp [hr]
  simp only [hl, hrem, and_false, if_true, if_false]

/-- A value that is no array is compared structurally. -/
theorem eq_of_areEqual {a b : JsValue} (h : areEqual a b = true)
    (ha : ∀ xs, a ≠ .arr xs) : a = b := by
  unfold areEqual at h
  by_cases hab : a = b
  · exact hab
  · rw [if_neg hab] at h
    cases a with
    | arr xs => exact absurd rfl (ha xs)
    | _ => exact (JsValue.deepEqual_iff _ _).mp h

/-- Only an array compares equal to an array. -/
theorem exists_arr_of_areEqual {xs : List JsValue} {b : JsValue}
    (h : areEqual (.arr xs) b = true) : ∃ ys, b = .arr ys := by
  unfold areEqual at h
  by_cases hab : JsValue.arr xs = b
  · exact ⟨xs, hab.symm⟩
  · rw [if_neg hab] at h
    cases b with
    | arr ys => exact ⟨ys, rfl⟩
    | _ => exact absurd ((JsValue.deepEqual_iff _ _).mp h) hab

/-- Arrays that compare equal have the same elements. -/
theorem mem_iff_of_areEqual {xs ys : List JsValue}
    (h : areEqual (.arr xs) (.arr ys) = true) (x : JsValue) : x ∈ xs ↔ x ∈ ys := by
  unfold areEqual at h
  by_cases hab : JsValue.arr xs = .arr ys
  · cases hab
    exact Iff.rfl
  · rw [if_neg hab] at h
    simp only [Bool.and_eq_true, decide_eq_true_eq, List.all_eq_true, List.mem_dedup] at h
    obtain ⟨⟨-, hsize⟩, hsub⟩ := h
    have hsubset : xs.dedup ⊆ ys.dedup := fun z hz =>
      List.mem_dedup.mpr (hsub z (List.mem_dedup.mp hz))
    have hperm : xs.dedup.Perm ys.dedup :=
      (List.subperm_of_subset (List.nodup_dedup xs) hsubset).perm_of_length_le (Nat.le_of_eq hsize.symm)
    rw [← List.mem_dedup, hperm.mem_iff, List.mem_dedup]

/-- The field enters the update. -/
def Taken (loc rem : FieldMap) (k : String) : Prop :=
  (applyLwwFieldByField loc rem).lookup k = some .remote ∧
    areEqual (rem.version k).value (loc.version k).value = false

instance (loc rem : FieldMap) (k : String) : Decidable (Taken loc rem k) :=
  inferInstanceAs (Decidable (_ ∧ _))

theorem take_eq (loc rem : FieldMap) (k : String) (update : Fields) :
    take loc rem k update =
      if Taken loc rem k then update ++ [(k, (rem.version k).value)] else update := by
  unfold take Taken
  by_cases hd : (applyLwwFieldByField loc rem).lookup k = some .remote
  · by_cases he : areEqual (rem.version k).value (loc.version k).value = true
    · simp [hd, he]
    · simp [hd, he]
  · simp [hd]

theorem takeAll_eq (loc rem : FieldMap) (keys : List String) :
    takeAll loc rem keys =
      (keys.filter fun k => Taken loc rem k).map fun k => (k, (rem.version k).value) := by
  unfold takeAll
  suffices h : ∀ update, keys.foldl (fun update k => take loc rem k update) update =
      update ++ (keys.filter fun k => Taken loc rem k).map fun k => (k, (rem.version k).value) by
    simpa using h []
  induction keys with
  | nil => simp
  | cons k keys ih =>
    intro update
    rw [List.foldl_cons, ih, take_eq]
    by_cases hk : Taken loc rem k <;> simp [hk]

/-- The value a field has after the update is written. -/
theorem field_assign_takeAll {loc rem : FieldMap} {keys : List String} (hn : keys.Nodup)
    (attrs : Fields) {k : String} (hk : k ∈ keys) :
    (attrs.assign (takeAll loc rem keys)).field k =
      if Taken loc rem k then (rem.version k).value else attrs.field k := by
  have hkeys : (takeAll loc rem keys).map Prod.fst = keys.filter fun k => Taken loc rem k := by
    rw [takeAll_eq, List.map_map]
    exact List.map_id _
  have hnodup : ((takeAll loc rem keys).map Prod.fst).Nodup := by
    rw [hkeys]
    exact hn.filter _
  by_cases ht : Taken loc rem k
  · have hmem : k ∈ (takeAll loc rem keys).map Prod.fst := by
      rw [hkeys, List.mem_filter]
      exact ⟨hk, by simpa using ht⟩
    rw [if_pos ht, Fields.field_assign_of_mem _ _ hmem hnodup]
    obtain ⟨kv, hkv, rfl⟩ := List.mem_map.mp hmem
    rw [Fields.field_of_mem hnodup hkv]
    rw [takeAll_eq] at hkv
    obtain ⟨j, -, rfl⟩ := List.mem_map.mp hkv
    rfl
  · have hmem : k ∉ (takeAll loc rem keys).map Prod.fst := by
      rw [hkeys, List.mem_filter]
      simp [ht]
    rw [if_neg ht, Fields.field_assign_of_not_mem _ _ hmem]

end Conflict

end HulyGitlab
