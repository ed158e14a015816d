import HulyGitlab.Huly.Users
import HulyGitlab.Lib.Coroutine

/-!
# Handlers, await by await

Handlers under different keys of the queue interleave at their awaits. A
definition in a namespace `Awaits` is the function of the same name, cut
there; run alone it is that function.
-/

namespace HulyGitlab

/-- The calls a handler awaits; those that write to the platform, with what they send. -/
inductive Await
  | loadBinding
  | findPersonBySocialKey
  | findByGitlab (gitlabKind : GitlabKind) (gitlabId : String)
  | findByHuly
  | findRows
  | upsertIdMap (doc : IdMapDoc)
  | getCursor
  | setCursor
  | findOne
  | findAll
  | createDoc (objectClass : String) (attributes : Fields)
  | updateDoc (objectClass : String) (ref : Ref) (operations : Fields)
  | putMixin (objectClass : String) (ref : Ref) (mixin : String) (attributes : Fields)
  | mapRemoteState
  | request (r : GitLabRequest)
  | enqueueRecord
  | now
  deriving DecidableEq

/-- A function of a sync manager, cut at its awaits. -/
abbrev Async := Coroutine Await Err World

namespace Async

variable (env : Env)

def loadBinding (binding : BindingRef) : Async BindingContext :=
  Coroutine.call .loadBinding (Sync.loadBinding env binding)

def findPersonBySocialKey (socialKey : String) : Async (Option Ref) :=
  Coroutine.call .findPersonBySocialKey (Sync.findPersonBySocialKey env socialKey)

def findByGitlab (workspaceUuid : String) (gitlabKind : GitlabKind) (gitlabId : String) :
    Async (Option IdMapDoc) :=
  Coroutine.call (.findByGitlab gitlabKind gitlabId)
    (Sync.findByGitlab env workspaceUuid gitlabKind gitlabId)

def findByHuly (workspaceUuid hulyClass : String) (hulyRef : Ref) : Async (Option IdMapDoc) :=
  Coroutine.call .findByHuly (Sync.findByHuly env workspaceUuid hulyClass hulyRef)

def upsertIdMap (doc : IdMapDoc) : Async Unit :=
  Coroutine.call (.upsertIdMap doc) (Sync.upsertIdMap env doc)

def getCursor (bindingId : BindingRef) (kind : CursorKind) : Async (Option Nat) :=
  Coroutine.call .getCursor (Sync.getCursor env bindingId kind)

def setCursor (bindingId : BindingRef) (kind : CursorKind) (updatedAfter : Option Nat) :
    Async Unit :=
  Coroutine.call .setCursor (Sync.setCursor env bindingId kind updatedAfter)

def createDoc (objectClass : String) (space : Ref) (attributes : Fields) : Async Ref :=
  Coroutine.call (.createDoc objectClass attributes)
    (Sync.createDoc env objectClass space attributes)

def updateDoc (objectClass : String) (ref : Ref) (operations : Fields) : Async Unit :=
  Coroutine.call (.updateDoc objectClass ref operations) (Sync.updateDoc env ref operations)

def findOne (objectClass : String) (ref : Ref) : Async (Option HulyDoc) :=
  Coroutine.call .findOne (Sync.findOne env objectClass ref)

def findAll (objectClass : String) : Async (List (Ref × HulyDoc)) :=
  Coroutine.call .findAll (Sync.findAll env objectClass)

def putMixin (objectClass : String) (ref : Ref) (mixin : String) (attributes : Fields) :
    Async Unit :=
  Coroutine.call (.putMixin objectClass ref mixin attributes)
    (Sync.putMixin env ref mixin attributes)

def request (r : GitLabRequest) : Async JsValue :=
  Coroutine.call (.request r) (Sync.request env r)

def enqueueRecord (e : EnqueuedRecord) : Async Unit :=
  Coroutine.call .enqueueRecord (Sync.enqueueRecord e)

/-- `Date.now()`, read as if there were an await before it. -/
def now : Async Nat := Coroutine.call .now (Effect.gets World.now)

section ToEffect

variable {env}

@[simp] theorem toEffect_loadBinding (binding : BindingRef) :
    (loadBinding env binding).toEffect = Sync.loadBinding env binding := rfl

@[simp] theorem toEffect_findPersonBySocialKey (socialKey : String) :
    (findPersonBySocialKey env socialKey).toEffect = Sync.findPersonBySocialKey env socialKey := rfl

@[simp] theorem toEffect_findByGitlab (workspaceUuid : String) (kind : GitlabKind)
    (gitlabId : String) : (findByGitlab env workspaceUuid kind gitlabId).toEffect =
      Sync.findByGitlab env workspaceUuid kind gitlabId := rfl

@[simp] theorem toEffect_findByHuly (workspaceUuid hulyClass : String) (hulyRef : Ref) :
    (findByHuly env workspaceUuid hulyClass hulyRef).toEffect =
      Sync.findByHuly env workspaceUuid hulyClass hulyRef := rfl

@[simp] theorem toEffect_upsertIdMap (doc : IdMapDoc) :
    (upsertIdMap env doc).toEffect = Sync.upsertIdMap env doc := rfl

@[simp] theorem toEffect_getCursor (bindingId : BindingRef) (kind : CursorKind) :
    (getCursor env bindingId kind).toEffect = Sync.getCursor env bindingId kind := rfl

@[simp] theorem toEffect_setCursor (bindingId : BindingRef) (kind : CursorKind)
    (updatedAfter : Option Nat) : (setCursor env bindingId kind updatedAfter).toEffect =
      Sync.setCursor env bindingId kind updatedAfter := rfl

@[simp] theorem toEffect_createDoc (objectClass : String) (space : Ref) (attributes : Fields) :
    (createDoc env objectClass space attributes).toEffect =
      Sync.createDoc env objectClass space attributes := rfl

@[simp] theorem toEffect_updateDoc (objectClass : String) (ref : Ref) (operations : Fields) :
    (updateDoc env objectClass ref operations).toEffect = Sync.updateDoc env ref operations := rfl

@[simp] theorem toEffect_findOne (objectClass : String) (ref : Ref) :
    (findOne env objectClass ref).toEffect = Sync.findOne env objectClass ref := rfl

@[simp] theorem toEffect_findAll (objectClass : String) :
    (findAll env objectClass).toEffect = Sync.findAll env objectClass := rfl

@[simp] theorem toEffect_putMixin (objectClass : String) (ref : Ref) (mixin : String)
    (attributes : Fields) : (putMixin env objectClass ref mixin attributes).toEffect =
      Sync.putMixin env ref mixin attributes := rfl

@[simp] theorem toEffect_request (r : GitLabRequest) :
    (request env r).toEffect = Sync.request env r := rfl

@[simp] theorem toEffect_enqueueRecord (e : EnqueuedRecord) :
    (enqueueRecord e).toEffect = Sync.enqueueRecord e := rfl

@[simp] theorem toEffect_now : now.toEffect = Effect.gets World.now := rfl

end ToEffect

end Async

namespace UserIdentity.Awaits

variable (env : Env)

def mapByEmail (email : JsValue) : Async (Option Ref) := do
  let address ← Coroutine.ofExcept email.asStr
  Async.findPersonBySocialKey env ("email:" ++ env.toLowerCase address)

def mapByGitlabUser (user : IdentityUser) : Async (Option Ref) := do
  let byGitlab ← Async.findPersonBySocialKey env ("gitlab:" ++ user.gitlabId)
  match byGitlab with
  | some ref => pure (some ref)
  | none => if user.email ≠ .undefined then mapByEmail env user.email else pure none

def ensureStubGuest (workspaceUuid : String) (user : IdentityUser) : Async Ref := do
  let existing ← Async.findByGitlab env workspaceUuid .user user.gitlabId
  match existing with
  | some row => pure row.hulyRef
  | none => do
      Async.upsertIdMap env (stubRow workspaceUuid user.gitlabId)
      pure (stubRef user.gitlabId)

def resolveUser (workspaceUuid : String) (user : JsValue) : Async Ref := do
  let identity ← Coroutine.ofExcept (identityOf user)
  let matched ← mapByGitlabUser env identity
  match matched with
  | some ref => pure ref
  | none => ensureStubGuest env workspaceUuid identity

theorem toEffect_mapByEmail (email : JsValue) :
    (mapByEmail env email).toEffect = UserIdentity.mapByEmail env email := by
  simp only [mapByEmail, UserIdentity.mapByEmail, Coroutine.toEffect_bind,
    Coroutine.toEffect_ofExcept, Async.toEffect_findPersonBySocialKey]

theorem toEffect_mapByGitlabUser (user : IdentityUser) :
    (mapByGitlabUser env user).toEffect = UserIdentity.mapByGitlabUser env user := by
  simp only [mapByGitlabUser, UserIdentity.mapByGitlabUser, Coroutine.toEffect_bind,
    Async.toEffect_findPersonBySocialKey]
  refine bind_congr fun byGitlab => ?_
  cases byGitlab with
  | some ref => rfl
  | none => simp only [Coroutine.toEffect_ite, Coroutine.toEffect_pure, toEffect_mapByEmail]

theorem toEffect_ensureStubGuest (workspaceUuid : String) (user : IdentityUser) :
    (ensureStubGuest env workspaceUuid user).toEffect =
      UserIdentity.ensureStubGuest env workspaceUuid user := by
  simp only [ensureStubGuest, UserIdentity.ensureStubGuest, Coroutine.toEffect_bind,
    Async.toEffect_findByGitlab]
  refine bind_congr fun existing => ?_
  cases existing with
  | some row => rfl
  | none =>
    simp only [Coroutine.toEffect_bind, Async.toEffect_upsertIdMap, Coroutine.toEffect_pure]

theorem toEffect_resolveUser (workspaceUuid : String) (user : JsValue) :
    (resolveUser env workspaceUuid user).toEffect =
      UserIdentity.resolveUser env workspaceUuid user := by
  simp only [resolveUser, UserIdentity.resolveUser, Coroutine.toEffect_bind,
    Coroutine.toEffect_ofExcept, toEffect_mapByGitlabUser]
  refine bind_congr fun identity => bind_congr fun matched => ?_
  cases matched with
  | some ref => rfl
  | none => exact toEffect_ensureStubGuest env workspaceUuid identity

/-- An invariant and a guarantee that the calls which resolve a user keep. -/
structure Stable (workspaceUuid : String) (J : World → Prop)
    (G : Await → World → World → Prop) : Prop where
  owned : ∀ w, J w → StubsOwned w.idmap
  person : ∀ w, J w → G .findPersonBySocialKey w w
  asked : ∀ w gitlabId, J w →
    J { w with lookups := w.lookups ++ [(.user, gitlabId)] } ∧
      G (.findByGitlab .user gitlabId) w { w with lookups := w.lookups ++ [(.user, gitlabId)] }
  stubbed : ∀ w gitlabId idmap, J w → w.idmap.upsert (stubRow workspaceUuid gitlabId) = .ok idmap →
    J { w with idmap := idmap } ∧
      G (.upsertIdMap (stubRow workspaceUuid gitlabId)) w { w with idmap := idmap }

section Safe

variable {env} (h : env.Healthy) {workspaceUuid : String} {J : World → Prop}
  {G : Await → World → World → Prop} (hs : Stable workspaceUuid J G)
include h hs

theorem safe_findPersonBySocialKey (socialKey : String) :
    Coroutine.Safe J G (fun _ => True) (Async.findPersonBySocialKey env socialKey) := by
  refine Coroutine.Safe.call fun w hw => ?_
  exact ⟨_, w, Sync.findPersonBySocialKey_run h socialKey w, hw, hs.person w hw, trivial⟩

theorem safe_mapByGitlabUser {user : IdentityUser}
    (hmail : user.email = .undefined ∨ ∃ address, user.email = .str address) :
    Coroutine.Safe J G (fun _ => True) (mapByGitlabUser env user) := by
  refine Coroutine.Safe.bind (safe_findPersonBySocialKey h hs _) fun byGitlab _ => ?_
  cases byGitlab with
  | some ref => exact Coroutine.Safe.pure trivial
  | none =>
    obtain hmail | ⟨address, hmail⟩ := hmail
    · simp only [hmail, ne_eq, not_true_eq_false, if_false]
      exact Coroutine.Safe.pure trivial
    · simp only [hmail, ne_eq, reduceCtorEq, not_false_eq_true, if_true]
      exact safe_findPersonBySocialKey h hs _

theorem safe_ensureStubGuest (user : IdentityUser) :
    Coroutine.Safe J G (fun _ => True) (ensureStubGuest env workspaceUuid user) := by
  have hlook : Coroutine.Safe J G (fun _ => True)
      (Async.findByGitlab env workspaceUuid .user user.gitlabId) := by
    refine Coroutine.Safe.call fun w hw => ?_
    obtain ⟨hJ, hG⟩ := hs.asked w user.gitlabId hw
    exact ⟨_, _, Sync.findByGitlab_run h _ _ _ w, hJ, hG, trivial⟩
  refine Coroutine.Safe.bind hlook fun existing _ => ?_
  cases existing with
  | some row => exact Coroutine.Safe.pure trivial
  | none =>
    have hwrite : Coroutine.Safe J G (fun _ => True)
        (Async.upsertIdMap env (stubRow workspaceUuid user.gitlabId)) := by
      refine Coroutine.Safe.call fun w hw => ?_
      obtain ⟨idmap, hup, -⟩ := IdMap.upsert_of_not_conflicts
        (not_conflicts_stubRow (hs.owned w hw) workspaceUuid user.gitlabId)
      obtain ⟨hJ, hG⟩ := hs.stubbed w user.gitlabId idmap hw hup
      exact ⟨(), _, Sync.upsertIdMap_run h w hup, hJ, hG, trivial⟩
    exact Coroutine.Safe.bind hwrite fun _ _ => Coroutine.Safe.pure trivial

/-- Whatever runs in between, a well-formed user is resolved. -/
theorem safe_resolveUser {user : JsValue} {identity : IdentityUser}
    (hid : identityOf user = .ok identity)
    (hmail : identity.email = .undefined ∨ ∃ address, identity.email = .str address) :
    Coroutine.Safe J G (fun _ => True) (resolveUser env workspaceUuid user) := by
  unfold resolveUser
  rw [hid, Coroutine.ofExcept_ok_bind]
  refine Coroutine.Safe.bind (safe_mapByGitlabUser h hs hmail) fun matched _ => ?_
  cases matched with
  | some ref => exact Coroutine.Safe.pure trivial
  | none => exact safe_ensureStubGuest h hs identity

end Safe

end UserIdentity.Awaits

end HulyGitlab
