import Mathlib.Data.List.Basic
import Mathlib.Data.List.Induction

/-!
# JavaScript values

The values that cross the boundaries of the program: webhook bodies, adapter
records, document attributes and change payloads. Numbers are integers, and
a timestamp is its instant whether it is a `Date` or an ISO string.
-/

namespace HulyGitlab

inductive JsValue where
  | undefined
  | null
  | bool (b : Bool)
  | num (n : Int)
  | str (s : String)
  | date (ms : Nat)
  | arr (items : List JsValue)
  | obj (fields : List (String × JsValue))

/-- The own properties of an object, in the order they were set. -/
abbrev Fields := List (String × JsValue)

mutual

/-- Structural equality, `deepEqual` of fast-equals. -/
def JsValue.deepEqual : JsValue → JsValue → Bool
  | .undefined, b => match b with
    | .undefined => true
    | _ => false
  | .null, b => match b with
    | .null => true
    | _ => false
  | .bool a, b => match b with
    | .bool b => a == b
    | _ => false
  | .num a, b => match b with
    | .num b => a == b
    | _ => false
  | .str a, b => match b with
    | .str b => a == b
    | _ => false
  | .date a, b => match b with
    | .date b => a == b
    | _ => false
  | .arr as, b => match b with
    | .arr bs => deepEqualItems as bs
    | _ => false
  | .obj as, b => match b with
    | .obj bs => deepEqualFields as bs
    | _ => false
termination_by structural a => a

def deepEqualItems : List JsValue → List JsValue → Bool
  | [], bs => bs.isEmpty
  | a :: as, bs => match bs with
    | [] => false
    | b :: bs => a.deepEqual b && deepEqualItems as bs
termination_by structural as => as

def deepEqualField : String × JsValue → String × JsValue → Bool
  | (k, a), b => k == b.1 && a.deepEqual b.2
termination_by structural a => a

def deepEqualFields : List (String × JsValue) → List (String × JsValue) → Bool
  | [], bs => bs.isEmpty
  | a :: as, bs => match bs with
    | [] => false
    | b :: bs => deepEqualField a b && deepEqualFields as bs
termination_by structural as => as

end

mutual

theorem JsValue.deepEqual_iff : (a b : JsValue) → (a.deepEqual b = true ↔ a = b)
  | .undefined, b => by cases b <;> simp [JsValue.deepEqual]
  | .null, b => by cases b <;> simp [JsValue.deepEqual]
  | .bool a, b => by cases b <;> simp [JsValue.deepEqual]
  | .num a, b => by cases b <;> simp [JsValue.deepEqual]
  | .str a, b => by cases b <;> simp [JsValue.deepEqual]
  | .date a, b => by cases b <;> simp [JsValue.deepEqual]
  | .arr as, b => by
      cases b with
      | arr bs => simp [JsValue.deepEqual, deepEqualItems_iff as bs]
      | _ => simp [JsValue.deepEqual]
  | .obj as, b => by
      cases b with
      | obj bs => simp [JsValue.deepEqual, deepEqualFields_iff as bs]
      | _ => simp [JsValue.deepEqual]

theorem deepEqualItems_iff :
    (as bs : List JsValue) → (deepEqualItems as bs = true ↔ as = bs)
  | [], bs => by cases bs <;> simp [deepEqualItems]
  | a :: as, bs => by
      cases bs with
      | nil => simp [deepEqualItems]
      | cons b bs => simp [deepEqualItems, JsValue.deepEqual_iff a b, deepEqualItems_iff as bs]

theorem deepEqualField_iff :
    (a b : String × JsValue) → (deepEqualField a b = true ↔ a = b)
  | (k, a), (j, b) => by simp [deepEqualField, JsValue.deepEqual_iff a b]

theorem deepEqualFields_iff :
    (as bs : List (String × JsValue)) → (deepEqualFields as bs = true ↔ as = bs)
  | [], bs => by cases bs <;> simp [deepEqualFields]
  | a :: as, bs => by
      cases bs with
      | nil => simp [deepEqualFields]
      | cons b bs => simp [deepEqualFields, deepEqualField_iff a b, deepEqualFields_iff as bs]

end

instance : DecidableEq JsValue := fun a b => decidable_of_iff _ (JsValue.deepEqual_iff a b)

instance : Inhabited JsValue := ⟨.undefined⟩

namespace Fields

/-- Read a property; a missing one is `undefined`. -/
def field (fs : Fields) (k : String) : JsValue := (fs.lookup k).getD .undefined

/-- Assign a property, in its old place if it exists. -/
def set (fs : Fields) (k : String) (v : JsValue) : Fields :=
  match fs with
  | [] => [(k, v)]
  | (j, u) :: rest => if j = k then (k, v) :: rest else (j, u) :: set rest k v

/-- `{ ...fs, ...more }`. -/
def assign (fs more : Fields) : Fields := more.foldl (fun acc kv => acc.set kv.1 kv.2) fs

@[simp] theorem field_nil (k : String) : field [] k = .undefined := rfl

@[simp] theorem field_cons (j k : String) (v : JsValue) (fs : Fields) :
    field ((j, v) :: fs) k = if j = k then v else field fs k := by
  by_cases h : j = k
  · simp [field, h]
  · have h' : (k == j) = false := by simp [Ne.symm h]
    simp [field, List.lookup_cons, h, h']

@[simp] theorem field_set (fs : Fields) (k j : String) (v : JsValue) :
    (fs.set k v).field j = if k = j then v else fs.field j := by
  induction fs with
  | nil => simp [set]
  | cons kv rest ih =>
    obtain ⟨i, u⟩ := kv
    by_cases h : i = k
    · subst h
      by_cases hj : i = j <;> simp [set, hj]
    · by_cases hij : i = j
      · subst hij
        simp [set, h, Ne.symm h]
      · simp [set, h, hij, ih]

theorem set_of_not_mem {fs : Fields} {k : String} (h : k ∉ fs.map Prod.fst) (v : JsValue) :
    fs.set k v = fs ++ [(k, v)] := by
  induction fs with
  | nil => rfl
  | cons entry fs ih =>
    simp only [List.map_cons, List.mem_cons, not_or] at h
    rw [set, if_neg (Ne.symm h.1), ih h.2]
    rfl

@[simp] theorem assign_nil (fs : Fields) : fs.assign [] = fs := rfl

theorem assign_cons (fs : Fields) (k : String) (v : JsValue) (more : Fields) :
    fs.assign ((k, v) :: more) = (fs.set k v).assign more := rfl

theorem assign_append (fs xs ys : Fields) : fs.assign (xs ++ ys) = (fs.assign xs).assign ys := by
  simp [assign]

theorem field_of_mem {fs : Fields} (hn : (fs.map Prod.fst).Nodup) {kv : String × JsValue}
    (h : kv ∈ fs) : fs.field kv.1 = kv.2 := by
  induction fs with
  | nil => simp at h
  | cons entry fs ih =>
    simp only [List.map_cons, List.nodup_cons] at hn
    obtain rfl | h := List.mem_cons.mp h
    · exact (field_cons _ _ _ _).trans (if_pos rfl)
    · have hne : entry.1 ≠ kv.1 := fun e => hn.1 (e ▸ List.mem_map_of_mem h)
      exact (field_cons _ _ _ _).trans ((if_neg hne).trans (ih hn.2 h))

theorem mem_keys_set (fs : Fields) (k j : String) (v : JsValue) :
    j ∈ (fs.set k v).map Prod.fst ↔ j = k ∨ j ∈ fs.map Prod.fst := by
  induction fs with
  | nil => simp [set]
  | cons kv rest ih =>
    obtain ⟨i, u⟩ := kv
    by_cases h : i = k
    · subst h
      simp [set]
    · rw [set, if_neg h, List.map_cons, List.mem_cons, ih, List.map_cons, List.mem_cons]
      exact or_left_comm

theorem mem_keys_assign (fs more : Fields) (j : String) :
    j ∈ (fs.assign more).map Prod.fst ↔ j ∈ fs.map Prod.fst ∨ j ∈ more.map Prod.fst := by
  induction more generalizing fs with
  | nil => simp
  | cons kv more ih =>
    rw [assign_cons, ih, mem_keys_set, List.map_cons, List.mem_cons, or_assoc]
    exact or_left_comm

theorem nodup_keys_set {fs : Fields} (h : (fs.map Prod.fst).Nodup) (k : String) (v : JsValue) :
    ((fs.set k v).map Prod.fst).Nodup := by
  induction fs with
  | nil => simp [set]
  | cons kv rest ih =>
    obtain ⟨j, u⟩ := kv
    obtain ⟨hj, hrest⟩ := List.nodup_cons.mp h
    by_cases hk : j = k
    · rw [set, if_pos hk]
      exact List.nodup_cons.mpr ⟨hk ▸ hj, hrest⟩
    · rw [set, if_neg hk]
      refine List.nodup_cons.mpr ⟨fun hmem => ?_, ih hrest⟩
      obtain rfl | hmem := (mem_keys_set _ _ _ _).mp hmem
      · exact hk rfl
      · exact hj hmem

theorem nodup_keys_assign {fs : Fields} (h : (fs.map Prod.fst).Nodup) (more : Fields) :
    ((fs.assign more).map Prod.fst).Nodup := by
  induction more generalizing fs with
  | nil => exact h
  | cons kv more ih => exact ih (nodup_keys_set h kv.1 kv.2)

theorem field_of_not_mem {fs : Fields} {k : String} (h : k ∉ fs.map Prod.fst) :
    fs.field k = .undefined := by
  induction fs with
  | nil => rfl
  | cons kv rest ih =>
    rw [List.map_cons, List.mem_cons, not_or] at h
    exact (field_cons _ _ _ _).trans ((if_neg (Ne.symm h.1)).trans (ih h.2))

/-- Properties dropped by their keys read as `undefined`. -/
theorem field_filter_keys (fs : Fields) (p : String → Prop) [DecidablePred p] (k : String) :
    field (fs.filter fun kv => p kv.1) k = if p k then fs.field k else .undefined := by
  induction fs with
  | nil => simp
  | cons kv rest ih =>
    obtain ⟨j, v⟩ := kv
    by_cases hj : p j
    · rw [List.filter_cons_of_pos (by simpa using hj), field_cons, field_cons, ih]
      by_cases hk : j = k
      · rw [if_pos hk, if_pos hk, if_pos (hk ▸ hj)]
      · rw [if_neg hk, if_neg hk]
    · rw [List.filter_cons_of_neg (by simpa using hj), ih, field_cons]
      by_cases hk : j = k
      · rw [if_neg (hk ▸ hj), if_neg (hk ▸ hj)]
      · rw [if_neg hk]

/-- A property that the second object does not set keeps its value. -/
theorem field_assign_of_not_mem (fs more : Fields) {k : String} (h : k ∉ more.map Prod.fst) :
    (fs.assign more).field k = fs.field k := by
  induction more generalizing fs with
  | nil => rfl
  | cons kv more ih =>
    obtain ⟨j, v⟩ := kv
    have hj : j ≠ k := fun e => h (by simp [e])
    rw [assign_cons, ih _ fun hk => h (by simp [hk]), field_set, if_neg hj]

/-- A property that the second object sets once has that value. -/
theorem field_assign_of_mem (fs more : Fields) {k : String} (h : k ∈ more.map Prod.fst)
    (hn : (more.map Prod.fst).Nodup) : (fs.assign more).field k = more.field k := by
  induction more generalizing fs with
  | nil => simp at h
  | cons kv more ih =>
    obtain ⟨j, v⟩ := kv
    simp only [List.map_cons, List.nodup_cons] at hn
    rw [assign_cons, field_cons]
    by_cases hj : j = k
    · subst hj
      rw [field_assign_of_not_mem _ _ hn.1, field_set, if_pos rfl, if_pos rfl]
    · have hk : k ∈ more.map Prod.fst := by simpa [Ne.symm hj] using h
      rw [if_neg hj]
      exact ih _ hk hn.2

theorem set_set (fs : Fields) (k : String) (u v : JsValue) : (fs.set k u).set k v = fs.set k v := by
  induction fs with
  | nil => simp [set]
  | cons kv rest ih =>
    obtain ⟨j, x⟩ := kv
    by_cases hj : j = k
    · simp [set, hj]
    · simp [set, hj, ih]

/-- The order of two assignments does not matter if the second property exists. -/
theorem set_comm {fs : Fields} {k j : String} (hne : j ≠ k) (hj : j ∈ fs.map Prod.fst)
    (u v : JsValue) : (fs.set k u).set j v = (fs.set j v).set k u := by
  induction fs with
  | nil => cases hj
  | cons kv rest ih =>
    obtain ⟨i, x⟩ := kv
    by_cases hi : i = j
    · subst hi
      simp [set, hne]
    · have hrest : j ∈ rest.map Prod.fst := by simpa [Ne.symm hi] using hj
      by_cases hk : i = k
      · simp [set, hk, Ne.symm hne]
      · simp [set, hk, hi, ih hrest]

/-- A property that is assigned at the end may also be assigned at the start. -/
theorem set_assign_set {more : Fields} (k : String) (v : JsValue) {fs : Fields}
    (h : ∀ j ∈ more.map Prod.fst, j ∈ fs.map Prod.fst) :
    ((fs.set k v).assign more).set k v = (fs.assign more).set k v := by
  induction more generalizing fs with
  | nil => exact set_set fs k v v
  | cons kv more ih =>
    obtain ⟨j, u⟩ := kv
    rw [assign_cons, assign_cons]
    by_cases hj : j = k
    · rw [hj, set_set]
    · have hmore : ∀ i ∈ more.map Prod.fst, i ∈ (fs.set j u).map Prod.fst := fun i hi =>
        (mem_keys_set _ _ _ _).mpr (.inr (h i (List.mem_cons_of_mem j hi)))
      rw [set_comm hj (h j List.mem_cons_self), ih hmore]

/-- Assigning the same properties once more changes nothing. -/
theorem assign_assign (fs more : Fields) : (fs.assign more).assign more = fs.assign more := by
  induction more using List.reverseRecOn with
  | nil => rfl
  | append_singleton more kv ih =>
    obtain ⟨k, v⟩ := kv
    have hkeys : ∀ j ∈ more.map Prod.fst, j ∈ (fs.assign more).map Prod.fst := fun j hj =>
      (mem_keys_assign _ _ _).mpr (.inr hj)
    calc (fs.assign (more ++ [(k, v)])).assign (more ++ [(k, v)])
        = (((fs.assign more).set k v).assign more).set k v := by
          rw [assign_append, assign_append]
          rfl
      _ = (fs.assign more).set k v := by rw [set_assign_set k v hkeys, ih]
      _ = fs.assign (more ++ [(k, v)]) := by
          rw [assign_append]
          rfl

end Fields

/-- What an asynchronous function rejects with. -/
inductive Err
  /-- A property of `undefined` or `null`, or a call of something else than a function. -/
  | typeError
  /-- The store has another row under a unique index. -/
  | duplicateKey
  /-- A service the program calls answered with an error. -/
  | service (message : String)
  deriving DecidableEq

namespace JsValue

/-- `v.k`, on a value that may be `undefined` or `null`. -/
def prop (v : JsValue) (k : String) : Except Err JsValue :=
  match v with
  | .undefined => .error .typeError
  | .null => .error .typeError
  | .obj fields => .ok (Fields.field fields k)
  | _ => .ok .undefined

/-- `v.k`, on a value that is known not to be `undefined` or `null`. -/
def get (v : JsValue) (k : String) : JsValue :=
  match v with
  | .obj fields => Fields.field fields k
  | _ => .undefined

/-- `typeof v === 'object'` and `v !== null`. -/
def isObject : JsValue → Bool
  | .date _ => true
  | .arr _ => true
  | .obj _ => true
  | _ => false

/-- The number a typed property holds. -/
def asNum : JsValue → Except Err Int
  | .num n => .ok n
  | _ => .error .typeError

/-- `v.getTime()`, on a `Date`. -/
def epochMs : JsValue → Except Err JsValue
  | .date ms => .ok (.num ms)
  | _ => .error .typeError

/-- `v.toISOString()`. -/
def toISOString : JsValue → Except Err JsValue
  | .date ms => .ok (.date ms)
  | _ => .error .typeError

/-- The elements a `for … of` loop visits. -/
def elements (v : JsValue) : Except Err (List JsValue) :=
  match v with
  | .arr items => .ok items
  | .str s => .ok (s.toList.map fun c => .str (String.singleton c))
  | _ => .error .typeError

/-- The text of a value in a template literal. -/
def text : JsValue → String
  | .undefined => "undefined"
  | .null => "null"
  | .bool b => if b then "true" else "false"
  | .num n => toString n
  | .str s => s
  | .date ms => toString ms
  | .arr _ => "[object Array]"
  | .obj _ => "[object Object]"

/-- `v ?? alternative`. -/
def orElse (v alternative : JsValue) : JsValue :=
  match v with
  | .undefined => alternative
  | .null => alternative
  | other => other

/-- Whether `if (v)` takes the branch. -/
def truthy : JsValue → Bool
  | .undefined => false
  | .null => false
  | .bool b => b
  | .num n => n ≠ 0
  | .str s => s ≠ ""
  | _ => true

/-- The items of an array; anything else has no `map`. -/
def items : JsValue → Except Err (List JsValue)
  | .arr items => .ok items
  | _ => .error .typeError

/-- `v.length`; nothing for a value without one. -/
def length : JsValue → Except Err (Option Nat)
  | .undefined => .error .typeError
  | .null => .error .typeError
  | .arr items => .ok (some items.length)
  | .str s => .ok (some s.length)
  | _ => .ok none

/-- `typeof v === 'number'`. -/
def isNumber : JsValue → Bool
  | .num _ => true
  | _ => false

/-- `new Date(v).getTime()`; nothing for an invalid date. -/
def getTime : JsValue → Option Nat
  | .date ms => some ms
  | .num n => some n.toNat
  | _ => none

/-- The string a typed property holds. -/
def asStr : JsValue → Except Err String
  | .str s => .ok s
  | _ => .error .typeError

/-- The elements of an array; nothing else has any. -/
def listOf : JsValue → List JsValue
  | .arr items => items
  | _ => []

@[simp] theorem prop_obj (fields : Fields) (k : String) :
    (JsValue.obj fields).prop k = .ok (fields.field k) := rfl

@[simp] theorem prop_str (s k : String) : (JsValue.str s).prop k = .ok .undefined := rfl

@[simp] theorem prop_undefined (k : String) : JsValue.undefined.prop k = .error .typeError := rfl

@[simp] theorem elements_arr (items : List JsValue) : (JsValue.arr items).elements = .ok items :=
  rfl

@[simp] theorem elements_undefined : JsValue.undefined.elements = .error .typeError := rfl

@[simp] theorem get_obj (fields : Fields) (k : String) :
    (JsValue.obj fields).get k = fields.field k := rfl

@[simp] theorem asNum_num (n : Int) : (JsValue.num n).asNum = .ok n := rfl

@[simp] theorem epochMs_date (ms : Nat) : (JsValue.date ms).epochMs = .ok (.num ms) := rfl

@[simp] theorem toISOString_date (ms : Nat) : (JsValue.date ms).toISOString = .ok (.date ms) := rfl

@[simp] theorem items_arr (items : List JsValue) : (JsValue.arr items).items = .ok items := rfl

@[simp] theorem length_arr (items : List JsValue) :
    (JsValue.arr items).length = .ok (some items.length) := rfl

@[simp] theorem asStr_str (s : String) : (JsValue.str s).asStr = .ok s := rfl

theorem asStr_ok {v : JsValue} {s : String} (h : v.asStr = .ok s) : v = .str s := by
  cases v <;> cases h
  rfl

theorem asNum_ok {v : JsValue} {n : Int} (h : v.asNum = .ok n) : v = .num n := by
  cases v <;> cases h
  rfl

/-- A value with one property has every property, `undefined` if need be. -/
theorem prop_ok {v u : JsValue} {j : String} (h : v.prop j = .ok u) (k : String) :
    ∃ x, v.prop k = .ok x := by
  cases v <;> first | cases h; done | exact ⟨_, rfl⟩

@[simp] theorem getTime_date (ms : Nat) : (JsValue.date ms).getTime = some ms := rfl

@[simp] theorem orElse_str (s : String) (v : JsValue) : (JsValue.str s).orElse v = .str s := rfl

@[simp] theorem orElse_undefined (v : JsValue) : JsValue.undefined.orElse v = v := rfl

@[simp] theorem orElse_null (v : JsValue) : JsValue.null.orElse v = v := rfl

end JsValue

end HulyGitlab
