import HulyGitlab.Lib.Transition
import HulyGitlab.Sync.Caches

/-!
# Get-or-create through the label and milestone caches

The four `ensure…` functions are one function of a direction of a cache: its
keys, its `…Loaded` flag, the listing of what exists and the answer to the
create call. The listing is stored whole, whatever its size. The first `put`
after it cuts the cache down to its bound, oldest first, and a name that was
cut looks as if nobody had it.
-/

namespace HulyGitlab

open Transition

/-- The names without the repetitions, each at its first place. -/
def distinct (names : List String) : List String :=
  names.foldl (fun seen name => if name ∈ seen then seen else seen ++ [name]) []

theorem distinct_concat (names : List String) (name : String) :
    distinct (names ++ [name]) =
      if name ∈ distinct names then distinct names else distinct names ++ [name] := by
  unfold distinct
  rw [List.foldl_append, List.foldl_cons, List.foldl_nil]

@[simp] theorem mem_distinct {names : List String} {name : String} :
    name ∈ distinct names ↔ name ∈ names := by
  induction names using List.reverseRecOn with
  | nil => rfl
  | append_singleton names last ih =>
    rw [distinct_concat, List.mem_append, List.mem_singleton]
    by_cases h : last ∈ distinct names
    · rw [if_pos h, ih]
      constructor
      · exact Or.inl
      · rintro (hname | rfl)
        · exact hname
        · exact ih.mp h
    · rw [if_neg h, List.mem_append, List.mem_singleton, ih]

theorem distinct_of_nodup {names : List String} (h : names.Nodup) : distinct names = names := by
  induction names using List.reverseRecOn with
  | nil => rfl
  | append_singleton names last ih =>
    obtain ⟨hnames, -, hdisjoint⟩ := List.nodup_append.mp h
    have hlast : last ∉ names := fun hmem => hdisjoint last hmem last (by simp) rfl
    rw [distinct_concat, ih hnames, if_neg hlast]

namespace BiDirectionalCache

variable {V : Type}

theorem keys_primeSync_new (entries : List (String × V)) :
    ((new : BiDirectionalCache V).primeSync entries).cache.keys =
      distinct (entries.map Prod.fst) := by
  induction entries using List.reverseRecOn with
  | nil => rfl
  | append_singleton entries last ih =>
    simp only [primeSync, List.foldl_append, List.foldl_cons, List.foldl_nil] at ih ⊢
    rw [OrderedMap.keys_set, ih, List.map_append, List.map_singleton, distinct_concat]

/-- A put of a new key leaves the newest keys. -/
theorem keys_put_of_not_mem {c : BiDirectionalCache V} {key : String} (h : key ∉ c.cache.keys)
    (value : V) :
    (c.put key value).cache.keys =
      (c.cache.keys ++ [key]).drop (c.cache.keys.length + 1 - c.maxEntries) := by
  have hset : (c.cache.set key value).keys = c.cache.keys ++ [key] := by
    rw [OrderedMap.keys_set, if_neg h]
  have hlength : (c.cache.set key value).entries.length = c.cache.keys.length + 1 := by
    rw [← List.length_map (f := Prod.fst)]
    exact (congrArg List.length hset).trans (List.length_append ..)
  calc (c.put key value).cache.keys
      = (c.cache.set key value).keys.drop
          ((c.cache.set key value).entries.length - c.maxEntries) := List.map_drop ..
    _ = _ := by rw [hset, hlength]

end BiDirectionalCache

/-- One direction of a cache: the entries by lower-cased name, and its `…Loaded` flag. -/
structure NameCache (V : Type) where
  byName : BiDirectionalCache V
  loaded : Bool

/-- The end of an `ensure…` call. -/
structure Ensured (V : Type) where
  cache : NameCache V
  /-- A create call was issued. -/
  asked : Bool
  result : Except Err V

namespace NameCache

variable {V : Type}

def new : NameCache V := ⟨.new, false⟩

/-- `primeRemote` and `primeLocal`, given what the listing answers. -/
def prime (c : NameCache V) (listed : Except Err (List (String × V))) :
    Except Err (NameCache V) :=
  if c.loaded then .ok c
  else listed.map fun entries => ⟨c.byName.primeSync entries, true⟩

/-- The body the four `ensure…` functions share. -/
def ensure (c : NameCache V) (key : String) (listed : Except Err (List (String × V)))
    (created : Except Err V) : Ensured V :=
  match c.prime listed with
  | .error e => ⟨c, false, .error e⟩
  | .ok primed =>
    match primed.byName.get key with
    | some existing => ⟨primed, false, .ok existing⟩
    | none =>
      match created with
      | .error e => ⟨primed, true, .error e⟩
      | .ok value => ⟨{ primed with byName := primed.byName.put key value }, true, .ok value⟩

theorem prime_of_loaded {c : NameCache V} (h : c.loaded = true)
    (listed : Except Err (List (String × V))) : c.prime listed = .ok c :=
  if_pos h

theorem ensure_of_error {c : NameCache V} {listed : Except Err (List (String × V))} {e : Err}
    (h : c.prime listed = .error e) (key : String) (created : Except Err V) :
    c.ensure key listed created = ⟨c, false, .error e⟩ := by
  simp only [ensure, h]

theorem ensure_of_hit {c primed : NameCache V} {listed : Except Err (List (String × V))}
    (h : c.prime listed = .ok primed) {key : String} {value : V}
    (hget : primed.byName.get key = some value) (created : Except Err V) :
    c.ensure key listed created = ⟨primed, false, .ok value⟩ := by
  simp only [ensure, h, hget]

theorem ensure_of_miss {c primed : NameCache V} {listed : Except Err (List (String × V))}
    (h : c.prime listed = .ok primed) {key : String} (hget : primed.byName.get key = none)
    (created : Except Err V) :
    c.ensure key listed created =
      match created with
      | .error e => ⟨primed, true, .error e⟩
      | .ok value =>
          ⟨{ primed with byName := primed.byName.put key value }, true, .ok value⟩ := by
  simp only [ensure, h, hget]

/-- The asynchronous function is `ensure` on one direction of a cache object, with the listing
and the creation it makes: the listing comes first unless the direction is loaded, and the
creation is made exactly when it is asked for. -/
def GetsOrCreates {C : Type} (f : Sync (V × C)) (c : NameCache V) (put : NameCache V → C)
    (key : String) (list : Sync (List (String × V))) (create : Sync V) : Prop :=
  ∀ w, f.run w =
    let listed := if c.loaded then w else (list.run w).2
    let ensured := c.ensure key (list.run w).1 (create.run listed).1
    (ensured.result.map fun value => (value, put ensured.cache),
      if ensured.asked then (create.run listed).2 else listed)

theorem prime_run {C : Type} (c : NameCache V) (put : NameCache V → C)
    (list : Sync (List (String × V))) (w : World) :
    (if c.loaded then pure (put c)
      else list >>= fun entries => pure (put ⟨c.byName.primeSync entries, true⟩) : Sync C).run w =
      ((c.prime (list.run w).1).map put, if c.loaded then w else (list.run w).2) := by
  unfold prime
  by_cases h : c.loaded = true
  · rw [if_pos h, if_pos h, if_pos h]
    rfl
  · rw [if_neg h, if_neg h, if_neg h, Effect.bind_run]
    obtain ⟨r, w'⟩ := list.run w
    cases r with
    | error e => rfl
    | ok entries => rfl

/-- A listing that fills the direction, followed by a lookup that creates what it misses. -/
theorem getsOrCreates_of_prime {C : Type} {first : Sync C} {body : C → Sync (V × C)}
    {c : NameCache V} {put : NameCache V → C} {key : String} {list : Sync (List (String × V))}
    {create : Sync V}
    (hfirst : first = if c.loaded then pure (put c)
      else list >>= fun entries => pure (put ⟨c.byName.primeSync entries, true⟩))
    (hhit : ∀ n value w, n.byName.get key = some value →
      (body (put n)).run w = (.ok (value, put n), w))
    (hmiss : ∀ n, n.byName.get key = none → body (put n) = create >>= fun value =>
      pure (value, put { n with byName := n.byName.put key value })) :
    GetsOrCreates (first >>= body) c put key list create := by
  intro w
  have hprime := prime_run c put list w
  rw [← hfirst] at hprime
  dsimp only
  generalize (if c.loaded then w else (list.run w).2) = listed at hprime ⊢
  rw [Effect.bind_run, hprime]
  cases hp : c.prime (list.run w).1 with
  | error e =>
    rw [ensure_of_error hp]
    rfl
  | ok primed =>
    cases hget : primed.byName.get key with
    | some value =>
      rw [ensure_of_hit hp hget]
      exact hhit primed value listed hget
    | none =>
      rw [ensure_of_miss hp hget]
      dsimp only [Except.map]
      rw [hmiss primed hget, Effect.bind_run]
      obtain ⟨r, w'⟩ := create.run listed
      cases r with
      | error e => rfl
      | ok value => rfl

end NameCache

/-! ## The four functions -/

namespace LabelCache

variable (env : Env)

/-- `remoteByName` with `remoteLoaded`. -/
def remote (c : LabelCache) : NameCache JsValue := ⟨c.remoteByName, c.remoteLoaded⟩

def setRemote (c : LabelCache) (n : NameCache JsValue) : LabelCache :=
  { c with remoteByName := n.byName, remoteLoaded := n.loaded }

/-- `localByName` with `localLoaded`. -/
def ofTags (c : LabelCache) : NameCache Ref := ⟨c.localByName, c.localLoaded⟩

def setTags (c : LabelCache) (n : NameCache Ref) : LabelCache :=
  { c with localByName := n.byName, localLoaded := n.loaded }

def listLabels (projectId : Int) : Sync (List (String × JsValue)) := do
  let answer ← Sync.request env (.listLabels projectId)
  let labels ← Effect.ofExcept answer.elements
  Effect.ofExcept (remoteEntries env "name" labels)

def createLabel (projectId : Int) (name : String) (color : JsValue) : Sync JsValue :=
  Sync.request env (.createLabel projectId [("name", .str name),
    ("color", if color = .undefined then .str "#A0A0A0" else color)])

theorem ensureRemoteLabel_getsOrCreates (projectId : Int) (c : LabelCache) (name : String)
    (color : JsValue) :
    NameCache.GetsOrCreates (ensureRemoteLabel env projectId c (.str name) color) c.remote
      c.setRemote (env.toLowerCase name) (listLabels env projectId)
      (createLabel env projectId name color) := by
  refine NameCache.getsOrCreates_of_prime ?_ ?_ ?_
  · simp only [primeRemote, listLabels, Effect.bind_bind]
    rfl
  · intro n value w h
    have h' : (c.setRemote n).remoteByName.get (env.toLowerCase name) = some value := h
    simp only [JsValue.asStr, Effect.ofExcept_ok_bind_run, h', Effect.pure_run]
  · intro n h
    have h' : (c.setRemote n).remoteByName.get (env.toLowerCase name) = none := h
    simp only [JsValue.asStr, Effect.ofExcept_ok_bind, h']
    rfl

def listTags : Sync (List (String × Ref)) := do
  let found ← Sync.findAll env tagElementClass
  Effect.ofExcept (localEntries env ofIssues "title" found)

def createTag (space : Ref) (name : String) : Sync Ref :=
  Sync.createDoc env tagElementClass space (tagAttributes name)

theorem ensureLocalTag_getsOrCreates (space : Ref) (c : LabelCache) (name : String) :
    NameCache.GetsOrCreates (ensureLocalTag env space c (.str name)) c.ofTags c.setTags
      (env.toLowerCase name) (listTags env) (createTag env space name) := by
  refine NameCache.getsOrCreates_of_prime ?_ ?_ ?_
  · simp only [primeLocal, listTags, Effect.bind_bind]
    rfl
  · intro n value w h
    have h' : (c.setTags n).localByName.get (env.toLowerCase name) = some value := h
    simp only [JsValue.asStr, Effect.ofExcept_ok_bind_run, h', Effect.pure_run]
  · intro n h
    have h' : (c.setTags n).localByName.get (env.toLowerCase name) = none := h
    simp only [JsValue.asStr, Effect.ofExcept_ok_bind, h']
    rfl

end LabelCache

namespace MilestoneCache

variable (env : Env)

/-- `remoteByTitle` with `remoteLoaded`. -/
def remote (c : MilestoneCache) : NameCache JsValue := ⟨c.remoteByTitle, c.remoteLoaded⟩

def setRemote (c : MilestoneCache) (n : NameCache JsValue) : MilestoneCache :=
  { c with remoteByTitle := n.byName, remoteLoaded := n.loaded }

/-- `localByLabel` with `localLoaded`. -/
def ofMilestones (c : MilestoneCache) : NameCache Ref := ⟨c.localByLabel, c.localLoaded⟩

def setMilestones (c : MilestoneCache) (n : NameCache Ref) : MilestoneCache :=
  { c with localByLabel := n.byName, localLoaded := n.loaded }

def listRemote (projectId : Int) : Sync (List (String × JsValue)) := do
  let answer ← Sync.request env (.listMilestones projectId)
  let milestones ← Effect.ofExcept answer.elements
  Effect.ofExcept (remoteEntries env "title" milestones)

def createRemote (projectId : Int) (title : String) (description : JsValue) : Sync JsValue :=
  Sync.request env (.createMilestone projectId ([("title", .str title)] ++
    (if description = .undefined then [] else [("description", description)])))

theorem ensureRemoteMilestone_getsOrCreates (projectId : Int) (c : MilestoneCache)
    (title : String) (description : JsValue) :
    NameCache.GetsOrCreates (ensureRemoteMilestone env projectId c (.str title) description)
      c.remote c.setRemote (env.toLowerCase title) (listRemote env projectId)
      (createRemote env projectId title description) := by
  refine NameCache.getsOrCreates_of_prime ?_ ?_ ?_
  · simp only [primeRemote, listRemote, Effect.bind_bind]
    rfl
  · intro n value w h
    have h' : (c.setRemote n).remoteByTitle.get (env.toLowerCase title) = some value := h
    simp only [JsValue.asStr, Effect.ofExcept_ok_bind_run, h', Effect.pure_run]
  · intro n h
    have h' : (c.setRemote n).remoteByTitle.get (env.toLowerCase title) = none := h
    simp only [JsValue.asStr, Effect.ofExcept_ok_bind, h']
    rfl

def listLocal (space : Ref) : Sync (List (String × Ref)) := do
  let found ← Sync.findAll env milestoneClass
  Effect.ofExcept (localEntries env (ofProject space) "label" found)

def createLocal (space : Ref) (label : String) (description : JsValue) : Sync Ref :=
  Sync.createDoc env milestoneClass space (milestoneAttributes label description)

theorem ensureLocalMilestone_getsOrCreates (space : Ref) (c : MilestoneCache) (label : String)
    (description : JsValue) :
    NameCache.GetsOrCreates (ensureLocalMilestone env space c (.str label) description)
      c.ofMilestones c.setMilestones (env.toLowerCase label) (listLocal env space)
      (createLocal env space label description) := by
  refine NameCache.getsOrCreates_of_prime ?_ ?_ ?_
  · simp only [primeLocal, listLocal, Effect.bind_bind]
    rfl
  · intro n value w h
    have h' : (c.setMilestones n).localByLabel.get (env.toLowerCase label) = some value := h
    simp only [JsValue.asStr, Effect.ofExcept_ok_bind_run, h', Effect.pure_run]
  · intro n h
    have h' : (c.setMilestones n).localByLabel.get (env.toLowerCase label) = none := h
    simp only [JsValue.asStr, Effect.ofExcept_ok_bind, h']
    rfl

end MilestoneCache

/-! ## Runs of calls -/

/-- One call: the name, and how the listing and the creation end if they are made. -/
structure EnsureCall (V : Type) where
  name : String
  listFails : Option Err
  created : Except Err V

/-- A direction of a cache object and the names it has created so far, oldest first. -/
structure NameRun (V : Type) where
  cache : NameCache V
  created : List String

namespace NameRun

variable {V : Type}

def start : NameRun V := ⟨.new, []⟩

variable (lower : String → String) (existing : List (String × V))

/-- A listing has all the elements there were before the calls, each under its name: it is made
once, before the first creation. -/
def listed (call : EnsureCall V) : Except Err (List (String × V)) :=
  match call.listFails with
  | some e => .error e
  | none => .ok (existing.map fun element => (lower element.1, element.2))

def ensured (s : NameRun V) (call : EnsureCall V) : Ensured V :=
  s.cache.ensure (lower call.name) (listed lower existing call) call.created

def step (s : NameRun V) (call : EnsureCall V) : NameRun V where
  cache := (s.ensured lower existing call).cache
  created :=
    match (s.ensured lower existing call).asked, call.created with
    | true, .ok _ => s.created ++ [call.name]
    | _, _ => s.created

/-- If the call asks for a creation, no element had the name before and no earlier call has
created it. -/
def Frugal (s : NameRun V) (call : EnsureCall V) : Prop :=
  (s.ensured lower existing call).asked = true →
    (∀ element ∈ existing, lower element.1 ≠ lower call.name) ∧
      ∀ name ∈ s.created, lower name ≠ lower call.name

/-- The folded names of the elements there are: those from before in the order of the listing,
then the created ones. -/
def known (s : NameRun V) : List String :=
  distinct (existing.map (fun element => lower element.1) ++ s.created.map lower)

/-- A name that is there is among the thousand newest, once something has been created. -/
def Kept (s : NameRun V) (call : EnsureCall V) : Prop :=
  lower call.name ∈ s.known lower existing →
    s.created = [] ∨
      lower call.name ∈ (s.known lower existing).drop ((s.known lower existing).length - 1000)

/-- The keys of a loaded direction: all the names until the first creation, then the thousand
newest ones. -/
structure Inv (s : NameRun V) : Prop where
  bound : s.cache.byName.maxEntries = 1000
  unloaded : s.cache.loaded = false → s.cache = .new ∧ s.created = []
  keys : s.cache.loaded = true →
    s.cache.byName.cache.keys = if s.created = [] then s.known lower existing
      else (s.known lower existing).drop ((s.known lower existing).length - 1000)

theorem inv_start : (start : NameRun V).Inv lower existing where
  bound := rfl
  unloaded _ := ⟨rfl, rfl⟩
  keys h := by cases h

variable {lower existing} {s : NameRun V}

theorem mem_known {name : String} :
    name ∈ s.known lower existing ↔
      (∃ element ∈ existing, lower element.1 = name) ∨ ∃ created ∈ s.created, lower created = name := by
  rw [known, mem_distinct, List.mem_append, List.mem_map, List.mem_map]

theorem frugal_iff (call : EnsureCall V) :
    s.Frugal lower existing call ↔
      ((s.ensured lower existing call).asked = true → lower call.name ∉ s.known lower existing) := by
  refine imp_congr Iff.rfl ?_
  rw [mem_known]
  push Not
  exact Iff.rfl

/-- The cache once it is loaded, if this call gets that far. -/
theorem Inv.prime (hs : s.Inv lower existing) (call : EnsureCall V) :
    (s.created = [] ∧ ∃ e, s.cache.prime (listed lower existing call) = .error e) ∨
      ∃ primed, s.cache.prime (listed lower existing call) = .ok primed ∧
        NameRun.Inv lower existing ⟨primed, s.created⟩ ∧ primed.loaded = true := by
  cases hloaded : s.cache.loaded with
  | true =>
    refine .inr ⟨s.cache, NameCache.prime_of_loaded hloaded _, hs, hloaded⟩
  | false =>
    obtain ⟨hcache, hcreated⟩ := hs.unloaded hloaded
    unfold listed
    cases call.listFails with
    | some e => exact .inl ⟨hcreated, e, by rw [hcache]; rfl⟩
    | none =>
      have hprimed : s.cache.prime (.ok (existing.map fun element =>
          (lower element.1, element.2))) = .ok ⟨BiDirectionalCache.new.primeSync
            (existing.map fun element => (lower element.1, element.2)), true⟩ := by
        rw [hcache]
        rfl
      refine .inr ⟨_, hprimed, ⟨rfl, fun h => Bool.noConfusion h, fun _ => ?_⟩,
        rfl⟩
      rw [if_pos hcreated, known, hcreated]
      dsimp only
      rw [BiDirectionalCache.keys_primeSync_new, List.map_map, List.map_nil, List.append_nil]
      rfl

theorem get_eq_none_iff (c : BiDirectionalCache V) (key : String) :
    c.get key = none ↔ key ∉ c.cache.keys :=
  OrderedMap.get?_eq_none_iff c.cache key

/-- A call asks for a creation exactly when the direction can be loaded and misses the name. -/
theorem asked_iff {call : EnsureCall V} {primed : NameCache V}
    (h : s.cache.prime (listed lower existing call) = .ok primed) :
    (s.ensured lower existing call).asked = true ↔ lower call.name ∉ primed.byName.cache.keys := by
  rw [← get_eq_none_iff]
  cases hget : primed.byName.get (lower call.name) with
  | some value =>
    rw [ensured, NameCache.ensure_of_hit h hget]
    simp
  | none =>
    rw [ensured, NameCache.ensure_of_miss h hget]
    cases call.created <;> simp

/-- Where the invariant holds, a call is frugal exactly when its name is kept. -/
theorem Inv.frugal_iff_kept (hs : s.Inv lower existing) (call : EnsureCall V) :
    s.Frugal lower existing call ↔ s.Kept lower existing call := by
  rw [frugal_iff]
  obtain ⟨hcreated, e, he⟩ | ⟨primed, hprimed, hinv, hloaded⟩ := hs.prime call
  · have hasked : (s.ensured lower existing call).asked = false := by
      rw [ensured, NameCache.ensure_of_error he]
    rw [hasked]
    exact ⟨fun _ _ => .inl hcreated, fun _ h => nomatch h⟩
  · rw [asked_iff hprimed]
    have hkeys := hinv.keys hloaded
    dsimp only at hkeys
    rw [hkeys]
    by_cases hcreated : s.created = []
    · rw [if_pos hcreated]
      exact ⟨fun _ _ => .inl hcreated, fun _ h => h⟩
    · rw [if_neg hcreated]
      unfold Kept
      constructor
      · intro h hmem
        by_contra hnot
        exact h (fun hdrop => hnot (.inr hdrop)) hmem
      · intro h hnot hmem
        exact (h hmem).elim hcreated hnot

theorem Inv.not_mem_keys (hs : s.Inv lower existing) (hloaded : s.cache.loaded = true)
    {key : String} (h : key ∉ s.known lower existing) : key ∉ s.cache.byName.cache.keys := by
  rw [hs.keys hloaded]
  by_cases hcreated : s.created = []
  · rw [if_pos hcreated]
    exact h
  · rw [if_neg hcreated]
    exact fun hmem => h (List.mem_of_mem_drop hmem)

/-- A new name is created when no call fails. -/
theorem Inv.created_step (hs : s.Inv lower existing) {name : String} {value : V}
    (hnew : lower name ∉ s.known lower existing) :
    (s.step lower existing ⟨name, none, .ok value⟩).created = s.created ++ [name] := by
  obtain ⟨-, e, he⟩ | ⟨primed, hprimed, hinv, hloaded⟩ := hs.prime ⟨name, none, .ok value⟩
  · unfold listed NameCache.prime at he
    by_cases h : s.cache.loaded = true
    · rw [if_pos h] at he
      cases he
    · rw [if_neg h] at he
      cases he
  · have hasked := (asked_iff hprimed).mpr (hinv.not_mem_keys hloaded hnew)
    unfold NameRun.step
    rw [hasked]

/-- Dropping after an append, where what was dropped before is dropped again. -/
theorem drop_concat_drop {names : List String} {d n : Nat} (h : d ≤ names.length - n)
    (last : String) :
    (names.drop d ++ [last]).drop ((names.drop d).length + 1 - n) =
      (names ++ [last]).drop ((names ++ [last]).length - n) := by
  have hd : d ≤ names.length := by omega
  rw [← List.drop_append_of_le_length hd, List.drop_drop, List.length_drop, List.length_append,
    List.length_singleton]
  congr 1
  omega

/-- A frugal call keeps the invariant. -/
theorem Inv.step (hs : s.Inv lower existing) {call : EnsureCall V}
    (h : s.Frugal lower existing call) : (s.step lower existing call).Inv lower existing := by
  rw [frugal_iff] at h
  obtain ⟨hcreated, e, he⟩ | ⟨primed, hprimed, hinv, hloaded⟩ := hs.prime call
  · have hstep : s.step lower existing call = s := by
      simp only [NameRun.step, ensured, NameCache.ensure_of_error he]
    rw [hstep]
    exact hs
  · cases hget : primed.byName.get (lower call.name) with
    | some value =>
      have hstep : s.step lower existing call = ⟨primed, s.created⟩ := by
        simp only [NameRun.step, ensured, NameCache.ensure_of_hit hprimed hget]
      rw [hstep]
      exact hinv
    | none =>
      cases hcall : call.created with
      | error e =>
        have hstep : s.step lower existing call = ⟨primed, s.created⟩ := by
          simp only [NameRun.step, ensured, NameCache.ensure_of_miss hprimed hget, hcall]
        rw [hstep]
        exact hinv
      | ok value =>
        have hmiss := (get_eq_none_iff _ _).mp hget
        have hnew := h ((asked_iff hprimed).mpr hmiss)
        have hstep : s.step lower existing call =
            ⟨⟨primed.byName.put (lower call.name) value, primed.loaded⟩,
              s.created ++ [call.name]⟩ := by
          simp only [NameRun.step, ensured, NameCache.ensure_of_miss hprimed hget, hcall]
        rw [hstep]
        have hknown : NameRun.known lower existing
            ⟨⟨primed.byName.put (lower call.name) value, primed.loaded⟩,
              s.created ++ [call.name]⟩ = s.known lower existing ++ [lower call.name] := by
          unfold known at hnew ⊢
          rw [List.map_append, List.map_singleton, ← List.append_assoc, distinct_concat,
            if_neg hnew]
        refine ⟨hinv.bound, fun hfalse => ?_, fun _ => ?_⟩
        · rw [hloaded] at hfalse
          cases hfalse
        · have hput := BiDirectionalCache.keys_put_of_not_mem hmiss value
          rw [hinv.bound] at hput
          dsimp only
          rw [hknown, if_neg (List.append_ne_nil_of_right_ne_nil _ (List.cons_ne_nil _ _)), hput]
          by_cases hcreated : s.created = []
          · have hkeys := hinv.keys hloaded
            rw [if_pos hcreated] at hkeys
            dsimp only at hkeys
            rw [hkeys]
            exact drop_concat_drop (Nat.zero_le _) _
          · have hkeys := hinv.keys hloaded
            rw [if_neg hcreated] at hkeys
            dsimp only at hkeys
            rw [hkeys]
            exact drop_concat_drop le_rfl _

end NameRun

/-- What there is on both sides when a label cache and a milestone cache are made: the labels of
the GitLab project, the tags of issues, the milestones of the GitLab project and those of the
Huly project. -/
structure Existing where
  labels : List (String × JsValue)
  tags : List (String × Ref)
  remoteMilestones : List (String × JsValue)
  localMilestones : List (String × Ref)

/-- A `LabelCache` and a `MilestoneCache`, direction by direction. -/
structure CacheRun where
  labels : NameRun JsValue
  tags : NameRun Ref
  remoteMilestones : NameRun JsValue
  localMilestones : NameRun Ref

inductive CacheCall
  | ensureRemoteLabel (call : EnsureCall JsValue)
  | ensureLocalTag (call : EnsureCall Ref)
  | ensureRemoteMilestone (call : EnsureCall JsValue)
  | ensureLocalMilestone (call : EnsureCall Ref)

namespace CacheRun

def start : CacheRun := ⟨.start, .start, .start, .start⟩

variable (lower : String → String) (existing : Existing)

def step (s : CacheRun) : CacheCall → CacheRun
  | .ensureRemoteLabel call => { s with labels := s.labels.step lower existing.labels call }
  | .ensureLocalTag call => { s with tags := s.tags.step lower existing.tags call }
  | .ensureRemoteMilestone call =>
      { s with
        remoteMilestones := s.remoteMilestones.step lower existing.remoteMilestones call }
  | .ensureLocalMilestone call =>
      { s with localMilestones := s.localMilestones.step lower existing.localMilestones call }

/-- The call does not ask for what is already there. -/
def Frugal (s : CacheRun) : CacheCall → Prop
  | .ensureRemoteLabel call => s.labels.Frugal lower existing.labels call
  | .ensureLocalTag call => s.tags.Frugal lower existing.tags call
  | .ensureRemoteMilestone call => s.remoteMilestones.Frugal lower existing.remoteMilestones call
  | .ensureLocalMilestone call => s.localMilestones.Frugal lower existing.localMilestones call

/-- The name of the call is still in its direction, if it is there at all. -/
def Kept (s : CacheRun) : CacheCall → Prop
  | .ensureRemoteLabel call => s.labels.Kept lower existing.labels call
  | .ensureLocalTag call => s.tags.Kept lower existing.tags call
  | .ensureRemoteMilestone call => s.remoteMilestones.Kept lower existing.remoteMilestones call
  | .ensureLocalMilestone call => s.localMilestones.Kept lower existing.localMilestones call

structure Inv (s : CacheRun) : Prop where
  labels : s.labels.Inv lower existing.labels
  tags : s.tags.Inv lower existing.tags
  remoteMilestones : s.remoteMilestones.Inv lower existing.remoteMilestones
  localMilestones : s.localMilestones.Inv lower existing.localMilestones

theorem inv_start : start.Inv lower existing :=
  ⟨NameRun.inv_start _ _, NameRun.inv_start _ _, NameRun.inv_start _ _, NameRun.inv_start _ _⟩

variable {lower existing} {s : CacheRun}

theorem Inv.step (hs : s.Inv lower existing) {call : CacheCall}
    (h : s.Frugal lower existing call) : (s.step lower existing call).Inv lower existing := by
  cases call with
  | ensureRemoteLabel call => exact { hs with labels := hs.labels.step h }
  | ensureLocalTag call => exact { hs with tags := hs.tags.step h }
  | ensureRemoteMilestone call =>
    exact { hs with remoteMilestones := hs.remoteMilestones.step h }
  | ensureLocalMilestone call => exact { hs with localMilestones := hs.localMilestones.step h }

theorem Inv.frugal_iff_kept (hs : s.Inv lower existing) (call : CacheCall) :
    s.Frugal lower existing call ↔ s.Kept lower existing call := by
  cases call with
  | ensureRemoteLabel call => exact hs.labels.frugal_iff_kept call
  | ensureLocalTag call => exact hs.tags.frugal_iff_kept call
  | ensureRemoteMilestone call => exact hs.remoteMilestones.frugal_iff_kept call
  | ensureLocalMilestone call => exact hs.localMilestones.frugal_iff_kept call

/-- A cache instance never asks for what is there exactly when every name it is asked for is kept:
nothing has been created in that direction yet, or the name is among its thousand newest. -/
theorem along_frugal_iff (lower : String → String) (existing : Existing)
    (calls : List CacheCall) :
    Along (step lower existing) (Frugal lower existing) start calls ↔
      Along (step lower existing) (Kept lower existing) start calls :=
  along_congr_of (fun _ _ hs h => hs.step h) (fun _ call hs => hs.frugal_iff_kept call)
    (inv_start lower existing)

/-- A GitLab project with the labels, and nothing else. -/
def ofLabels (names : List String) : Existing := ⟨names.map fun name => (name, .str name), [], [], []⟩

/-- Names of different lengths. -/
def manyNames (count : Nat) : List String :=
  (List.range count).map fun n => String.ofList (List.replicate (n + 1) 'a')

theorem nodup_manyNames (count : Nat) : (manyNames count).Nodup := by
  refine List.Nodup.map (fun m n h => ?_) List.nodup_range
  have hlength := congrArg String.length h
  simpa using hlength

theorem new_not_mem_manyNames (count : Nat) : "new" ∉ manyNames count := by
  intro h
  obtain ⟨n, -, hn⟩ := List.mem_map.mp h
  have hmem : 'n' ∈ (String.ofList (List.replicate (n + 1) 'a')).toList := by
    rw [hn]
    decide
  rw [String.toList_ofList] at hmem
  exact absurd (List.eq_of_mem_replicate hmem) (by decide)

theorem manyNames_succ (count : Nat) :
    ∃ rest, manyNames (count + 1) = "a" :: rest ∧ rest.length = count := by
  refine ⟨_, by rw [manyNames, List.range_succ_eq_map, List.map_cons]; rfl, ?_⟩
  rw [List.length_map, List.length_map, List.length_range]

theorem known_ofLabels {names created : List String} (h : (names ++ created).Nodup)
    (cache : NameCache JsValue) :
    NameRun.known id (ofLabels names).labels ⟨cache, created⟩ = names ++ created := by
  have hnames : (ofLabels names).labels.map (fun element => id element.1) = names :=
    (List.map_map ..).trans (List.map_id names)
  rw [NameRun.known, hnames, List.map_id, distinct_of_nodup h]

/-- With a thousand labels there, the first label is asked for again once a new one is created. -/
theorem not_frugal_of_thousand {first new : String} {rest : List String}
    (hlength : rest.length = 999) (hnodup : (first :: rest ++ [new]).Nodup) :
    ¬ Along (step id (ofLabels (first :: rest))) (Frugal id (ofLabels (first :: rest))) start
      [.ensureRemoteLabel ⟨new, none, .ok (.str new)⟩,
        .ensureRemoteLabel ⟨first, none, .ok (.str first)⟩] := by
  rintro ⟨hfirst, hsecond, -⟩
  have hstart := inv_start id (ofLabels (first :: rest))
  obtain ⟨hold, -, hdisjoint⟩ := List.nodup_append.mp hnodup
  have hcreated : (step id (ofLabels (first :: rest)) start
      (.ensureRemoteLabel ⟨new, none, .ok (.str new)⟩)).labels.created = [new] := by
    refine hstart.labels.created_step ?_
    have hknown : NameRun.known id (ofLabels (first :: rest)).labels ⟨.new, []⟩ =
        first :: rest ++ [] :=
      known_ofLabels (by rw [List.append_nil]; exact hold) .new
    rw [List.append_nil] at hknown
    rw [show start.labels = ⟨.new, []⟩ from rfl, hknown]
    exact fun hmem => hdisjoint new hmem new (List.mem_singleton_self new) rfl
  have hkept := ((hstart.step hfirst).frugal_iff_kept _).mp hsecond
  revert hcreated hkept
  generalize step id (ofLabels (first :: rest)) start
    (.ensureRemoteLabel ⟨new, none, .ok (.str new)⟩) = s
  intro hcreated hkept
  have hknown : s.labels.known id (ofLabels (first :: rest)).labels = first :: rest ++ [new] := by
    have heta : s.labels = ⟨s.labels.cache, [new]⟩ := by rw [← hcreated]
    rw [heta, known_ofLabels hnodup]
  unfold Kept NameRun.Kept at hkept
  rw [hknown, hcreated] at hkept
  obtain hnil | hdrop := hkept (by simp)
  · cases hnil
  · have hlen : (first :: rest ++ [new]).length - 1000 = 1 := by simp [hlength]
    rw [hlen] at hdrop
    exact (List.nodup_cons.mp hnodup).1 hdrop

/-- A project with a thousand labels: once the cache has created one more, it asks for the oldest
one again. -/
theorem not_frugal_after_new :
    ¬ ∀ (lower : String → String) (existing : Existing) (calls : List CacheCall),
      Along (step lower existing) (Frugal lower existing) start calls := by
  intro hall
  obtain ⟨rest, hnames, hlength⟩ := manyNames_succ 999
  have hnodup : ("a" :: rest ++ ["new"]).Nodup := by
    rw [← hnames]
    refine List.nodup_append.mpr ⟨nodup_manyNames 1000, List.nodup_singleton _, ?_⟩
    intro name hname last hlast heq
    rw [heq, List.mem_singleton.mp hlast] at hname
    exact new_not_mem_manyNames 1000 hname
  exact not_frugal_of_thousand hlength hnodup (hall id _ _)

end CacheRun

end HulyGitlab
