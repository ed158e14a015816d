import HulyGitlab.World

/-!
# Label and milestone caches

Each load of a binding starts with empty caches. A cache reads the whole
collection once, keyed by the lower-cased name, and creates what is missing.
-/

namespace HulyGitlab

def tagElementClass : String := "tags:class:TagElement"

def milestoneClass : String := "tracker:class:Milestone"

/-- `tracker.class.Issue`, the `HULY_CLASS_ISSUE` of the managers. -/
def issueClass : String := "tracker:class:Issue"

/-- `bi-directional-cache.ts`; `get` never has anything to prime here, as the
caches are given loaders without entries. -/
structure BiDirectionalCache (V : Type) where
  cache : OrderedMap String V
  maxEntries : Nat

namespace BiDirectionalCache

variable {V : Type}

def new : BiDirectionalCache V := ⟨.empty, 1000⟩

def get (c : BiDirectionalCache V) (key : String) : Option V := c.cache.get? key

/-- The loop of `evictIfOverflowing`: the oldest entry goes until the rest fits. -/
def evictIfOverflowing (maxEntries : Nat) (m : OrderedMap String V) : OrderedMap String V where
  entries := m.entries.drop (m.entries.length - maxEntries)
  nodup := by
    rw [List.map_drop]
    exact m.nodup.sublist (List.drop_sublist _ _)

def put (c : BiDirectionalCache V) (key : String) (value : V) : BiDirectionalCache V :=
  { c with cache := evictIfOverflowing c.maxEntries (c.cache.set key value) }

def primeSync (c : BiDirectionalCache V) (entries : List (String × V)) : BiDirectionalCache V :=
  { c with cache := entries.foldl (fun m kv => m.set kv.1 kv.2) c.cache }

theorem get_of_evict {maxEntries : Nat} {m : OrderedMap String V} {key : String} {value : V}
    (h : (evictIfOverflowing maxEntries m).get? key = some value) : m.get? key = some value :=
  OrderedMap.get?_of_mem_entries
    (List.mem_of_mem_drop (OrderedMap.mem_entries_of_get? h))

/-- An entry of the cache is the one just put or was there before. -/
theorem get_put {c : BiDirectionalCache V} {key j : String} {value v : V}
    (h : (c.put key value).get j = some v) : j = key ∧ v = value ∨ c.get j = some v := by
  have hset := get_of_evict h
  rw [OrderedMap.get?_set] at hset
  by_cases hj : j = key
  · rw [if_pos hj] at hset
    exact .inl ⟨hj, (Option.some.inj hset).symm⟩
  · rw [if_neg hj] at hset
    exact .inr hset

theorem get_primeSync {c : BiDirectionalCache V} {entries : List (String × V)} {key : String}
    {value : V} (h : (c.primeSync entries).get key = some value) :
    (key, value) ∈ entries ∨ c.get key = some value := by
  unfold primeSync get at h
  unfold get
  dsimp only at h
  generalize c.cache = m at h
  induction entries generalizing m with
  | nil => exact .inr h
  | cons kv entries ih =>
    obtain hmem | hget := ih (m.set kv.1 kv.2) h
    · exact .inl (List.mem_cons_of_mem kv hmem)
    · rw [OrderedMap.get?_set] at hget
      by_cases hk : key = kv.1
      · rw [if_pos hk] at hget
        exact .inl (by rw [hk, ← Option.some.inj hget]; exact List.mem_cons_self)
      · rw [if_neg hk] at hget
        exact .inr hget

@[simp] theorem get_new (key : String) : (new : BiDirectionalCache V).get key = none := rfl

end BiDirectionalCache

structure LabelCache where
  remoteByName : BiDirectionalCache JsValue
  localByName : BiDirectionalCache Ref
  remoteLoaded : Bool
  localLoaded : Bool

structure MilestoneCache where
  remoteByTitle : BiDirectionalCache JsValue
  localByLabel : BiDirectionalCache Ref
  remoteLoaded : Bool
  localLoaded : Bool

/-- The entries of `primeRemote`, keyed by a lower-cased string property. -/
def remoteEntries (env : Env) (k : String) (values : List JsValue) :
    Except Err (List (String × JsValue)) :=
  values.mapM fun value => do
    let name ← (← value.prop k).asStr
    pure (env.toLowerCase name, value)

/-- The entries of `primeLocal`: the documents to keep, keyed by a lower-cased attribute. -/
def localEntries (env : Env) (keep : HulyDoc → Bool) (k : String) (found : List (Ref × HulyDoc)) :
    Except Err (List (String × Ref)) :=
  (found.filter fun entry => keep entry.2).mapM fun entry => do
    let name ← (entry.2.attrs.field k).asStr
    pure (env.toLowerCase name, entry.1)

namespace LabelCache

variable (env : Env)

def new : LabelCache := ⟨.new, .new, false, false⟩

def primeRemote (projectId : Int) (c : LabelCache) : Sync LabelCache :=
  if c.remoteLoaded then pure c
  else do
    let answer ← Sync.request env (.listLabels projectId)
    let labels ← Effect.ofExcept answer.elements
    let entries ← Effect.ofExcept (remoteEntries env "name" labels)
    pure { c with remoteByName := c.remoteByName.primeSync entries, remoteLoaded := true }

def ensureRemoteLabel (projectId : Int) (c : LabelCache) (name color : JsValue) :
    Sync (JsValue × LabelCache) := do
  let c ← primeRemote env projectId c
  let text ← Effect.ofExcept name.asStr
  let key := env.toLowerCase text
  match c.remoteByName.get key with
  | some existing => pure (existing, c)
  | none => do
      let color := if color = .undefined then .str "#A0A0A0" else color
      let created ← Sync.request env (.createLabel projectId [("name", name), ("color", color)])
      pure (created, { c with remoteByName := c.remoteByName.put key created })

/-- The tag is one of issues. -/
def ofIssues (tag : HulyDoc) : Bool := (tag.attrs.field "targetClass").text = issueClass

def primeLocal (c : LabelCache) : Sync LabelCache :=
  if c.localLoaded then pure c
  else do
    let found ← Sync.findAll env tagElementClass
    let entries ← Effect.ofExcept (localEntries env ofIssues "title" found)
    pure { c with localByName := c.localByName.primeSync entries, localLoaded := true }

/-- The attributes of a new tag. -/
def tagAttributes (name : String) : Fields :=
  [("title", .str name), ("targetClass", .str issueClass), ("color", .num 0)]

def ensureLocalTag (space : Ref) (c : LabelCache) (name : JsValue) : Sync (Ref × LabelCache) := do
  let c ← primeLocal env c
  let text ← Effect.ofExcept name.asStr
  let key := env.toLowerCase text
  match c.localByName.get key with
  | some existing => pure (existing, c)
  | none => do
      let ref ← Sync.createDoc env tagElementClass space (tagAttributes text)
      pure (ref, { c with localByName := c.localByName.put key ref })

/-- `resolveLocalLabels`. -/
def resolveLocal (space : Ref) (c : LabelCache) : List JsValue → Sync (List Ref × LabelCache)
  | [] => pure ([], c)
  | name :: names => do
      let first ← ensureLocalTag env space c name
      let rest ← resolveLocal space first.2 names
      pure (first.1 :: rest.1, rest.2)

/-- `ensureRemoteLabels`. -/
def ensureRemote (projectId : Int) (c : LabelCache) : List JsValue → Sync (List JsValue × LabelCache)
  | [] => pure ([], c)
  | l :: labels => do
      let name ← Effect.ofExcept (l.prop "name")
      let color ← Effect.ofExcept (l.prop "color")
      let ensured ← ensureRemoteLabel env projectId c name color
      let ensuredName ← Effect.ofExcept (ensured.1.prop "name")
      let rest ← ensureRemote projectId ensured.2 labels
      pure (ensuredName :: rest.1, rest.2)

end LabelCache

namespace MilestoneCache

variable (env : Env)

def new : MilestoneCache := ⟨.new, .new, false, false⟩

def primeRemote (projectId : Int) (c : MilestoneCache) : Sync MilestoneCache :=
  if c.remoteLoaded then pure c
  else do
    let answer ← Sync.request env (.listMilestones projectId)
    let milestones ← Effect.ofExcept answer.elements
    let entries ← Effect.ofExcept (remoteEntries env "title" milestones)
    pure { c with remoteByTitle := c.remoteByTitle.primeSync entries, remoteLoaded := true }

def ensureRemoteMilestone (projectId : Int) (c : MilestoneCache) (title description : JsValue) :
    Sync (JsValue × MilestoneCache) := do
  let c ← primeRemote env projectId c
  let text ← Effect.ofExcept title.asStr
  let key := env.toLowerCase text
  match c.remoteByTitle.get key with
  | some existing => pure (existing, c)
  | none => do
      let body := [("title", title)] ++
        (if description = .undefined then [] else [("description", description)])
      let created ← Sync.request env (.createMilestone projectId body)
      pure (created, { c with remoteByTitle := c.remoteByTitle.put key created })

/-- The milestone belongs to the project. -/
def ofProject (space : Ref) (milestone : HulyDoc) : Bool := milestone.space = space

def primeLocal (space : Ref) (c : MilestoneCache) : Sync MilestoneCache :=
  if c.localLoaded then pure c
  else do
    let found ← Sync.findAll env milestoneClass
    let entries ← Effect.ofExcept (localEntries env (ofProject space) "label" found)
    pure { c with localByLabel := c.localByLabel.primeSync entries, localLoaded := true }

/-- The attributes of a new milestone. -/
def milestoneAttributes (label : String) (description : JsValue) : Fields :=
  [("label", .str label)] ++
    (if description = .undefined then [] else [("description", description)])

def ensureLocalMilestone (space : Ref) (c : MilestoneCache) (label description : JsValue) :
    Sync (Ref × MilestoneCache) := do
  let c ← primeLocal env space c
  let text ← Effect.ofExcept label.asStr
  let key := env.toLowerCase text
  match c.localByLabel.get key with
  | some existing => pure (existing, c)
  | none => do
      let ref ← Sync.createDoc env milestoneClass space (milestoneAttributes text description)
      pure (ref, { c with localByLabel := c.localByLabel.put key ref })

end MilestoneCache

end HulyGitlab
