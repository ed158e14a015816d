import HulyGitlab.World

/-!
# Users

`UserIdentity` maps a GitLab user to an account, by social key and by mail
address, and to a stub guest in the id map when there is none. Its cache of
account answers is left out: within a load the account service is a function.
-/

namespace HulyGitlab

/-- The `SyncUser` of `users.ts`; `email` is `undefined` when it is not known. -/
structure IdentityUser where
  gitlabId : String
  email : JsValue

namespace UserIdentity

variable (env : Env)

def mapByEmail (email : JsValue) : Sync (Option Ref) := do
  let address ← Effect.ofExcept email.asStr
  Sync.findPersonBySocialKey env ("email:" ++ env.toLowerCase address)

def mapByGitlabUser (user : IdentityUser) : Sync (Option Ref) := do
  let byGitlab ← Sync.findPersonBySocialKey env ("gitlab:" ++ user.gitlabId)
  match byGitlab with
  | some ref => pure (some ref)
  | none => if user.email ≠ .undefined then mapByEmail env user.email else pure none

def stubRef (gitlabId : String) : Ref := "stub:gitlab:" ++ gitlabId

/-- The row `putIdMap` writes. -/
def stubRow (workspaceUuid gitlabId : String) : IdMapDoc where
  workspaceUuid := workspaceUuid
  gitlabKind := .user
  gitlabId := gitlabId
  hulyClass := "huly:class:Person"
  hulyRef := stubRef gitlabId

def ensureStubGuest (workspaceUuid : String) (user : IdentityUser) : Sync Ref := do
  let existing ← Sync.findByGitlab env workspaceUuid .user user.gitlabId
  match existing with
  | some row => pure row.hulyRef
  | none => do
      Sync.upsertIdMap env (stubRow workspaceUuid user.gitlabId)
      pure (stubRef user.gitlabId)

/-- The identity built from an adapter user in every manager. -/
def identityOf (user : JsValue) : Except Err IdentityUser := do
  let id ← user.prop "id"
  let email ← user.prop "email"
  pure ⟨id.text, if email = .null then .undefined else email⟩

/-- The account of a user, or its stub guest. -/
def resolveUser (workspaceUuid : String) (user : JsValue) : Sync Ref := do
  let identity ← Effect.ofExcept (identityOf user)
  let matched ← mapByGitlabUser env identity
  match matched with
  | some ref => pure ref
  | none => ensureStubGuest env workspaceUuid identity

/-- `resolveAssignee`: the first assignee, or `null`. -/
def resolveAssignee (workspaceUuid : String) (assignees : JsValue) : Sync JsValue := do
  let users ← Effect.ofExcept assignees.elements
  match users with
  | [] => pure .null
  | first :: _ => do
      let ref ← resolveUser env workspaceUuid first
      pure (.str ref)

/-- The account the social keys of a user lead to. -/
def accountOf (user : IdentityUser) : Option Ref :=
  match env.findPersonBySocialKey ("gitlab:" ++ user.gitlabId) with
  | some ref => some ref
  | none =>
      match user.email with
      | .str address => env.findPersonBySocialKey ("email:" ++ env.toLowerCase address)
      | _ => none

/-- The guest of a user: its row, or the stub that would be written. -/
def guestOf (idmap : IdMap) (workspaceUuid gitlabId : String) : Ref :=
  match idmap.findByGitlab workspaceUuid .user gitlabId with
  | some row => row.hulyRef
  | none => stubRef gitlabId

/-- The reference `resolveUser` comes to. -/
def personOf (idmap : IdMap) (workspaceUuid : String) (user : IdentityUser) : Ref :=
  (accountOf env user).getD (guestOf idmap workspaceUuid user.gitlabId)

/-- Stub references belong to the user they are made of; `putIdMap` is the
only writer of rows of this class. -/
def StubsOwned (idmap : IdMap) : Prop :=
  ∀ row ∈ idmap.rows, row.hulyClass = "huly:class:Person" →
    ∀ gitlabId, row.hulyRef = stubRef gitlabId →
      row.gitlabKind = .user ∧ row.gitlabId = gitlabId

theorem stubRef_inj {a b : String} (h : stubRef a = stubRef b) : a = b := by
  have hlist := congrArg String.toList h
  simp only [stubRef, String.toList_append] at hlist
  exact String.toList_inj.mp (List.append_cancel_left hlist)

theorem not_conflicts_stubRow {idmap : IdMap} (h : StubsOwned idmap)
    (workspaceUuid gitlabId : String) : ¬ idmap.Conflicts (stubRow workspaceUuid gitlabId) := by
  rintro ⟨row, hrow, hhuly, hgitlab⟩
  simp only [IdMapDoc.hulyKey, stubRow, Prod.mk.injEq] at hhuly
  obtain ⟨hkind, hid⟩ := h row hrow hhuly.2.1 gitlabId hhuly.2.2
  apply hgitlab
  simp [IdMapDoc.gitlabKey, stubRow, hhuly.1, hkind, hid]

theorem stubsOwned_of_upsert {idmap idmap' : IdMap} {workspaceUuid gitlabId : String}
    (h : StubsOwned idmap) (hup : idmap.upsert (stubRow workspaceUuid gitlabId) = .ok idmap') :
    StubsOwned idmap' := by
  intro row hrow hclass id hid
  rw [IdMap.mem_of_upsert hup] at hrow
  obtain rfl | ⟨hrow, -⟩ := hrow
  · exact ⟨rfl, stubRef_inj hid⟩
  · exact h row hrow hclass id hid

theorem mapByGitlabUser_run {env : Env} (h : env.Healthy) {user : IdentityUser}
    (hmail : user.email = .undefined ∨ ∃ address, user.email = .str address) (w : World) :
    (mapByGitlabUser env user).run w = (.ok (accountOf env user), w) := by
  unfold mapByGitlabUser accountOf
  rw [Effect.bind_of_ok (Sync.findPersonBySocialKey_run h _ w)]
  cases env.findPersonBySocialKey ("gitlab:" ++ user.gitlabId) with
  | some ref => rfl
  | none =>
    obtain hmail | ⟨address, hmail⟩ := hmail
    · simp [hmail]
    · simp [hmail, mapByEmail, Sync.findPersonBySocialKey_run h]

/-- What resolving users leaves unchanged: every other row, and what each user resolves to. -/
structure Settles (workspaceUuid : String) (idmap idmap' : IdMap) : Prop where
  others : ∀ kind gitlabId, kind ≠ .user →
    idmap'.findByGitlab workspaceUuid kind gitlabId =
      idmap.findByGitlab workspaceUuid kind gitlabId
  guests : ∀ gitlabId, guestOf idmap' workspaceUuid gitlabId = guestOf idmap workspaceUuid gitlabId
  owned : StubsOwned idmap → StubsOwned idmap'

theorem Settles.refl (workspaceUuid : String) (idmap : IdMap) :
    Settles workspaceUuid idmap idmap :=
  ⟨fun _ _ _ => rfl, fun _ => rfl, id⟩

theorem settles_stub {idmap idmap' : IdMap} {workspaceUuid gitlabId : String}
    (hnone : idmap.findByGitlab workspaceUuid .user gitlabId = none)
    (hup : idmap.upsert (stubRow workspaceUuid gitlabId) = .ok idmap') :
    Settles workspaceUuid idmap idmap' := by
  refine ⟨?_, ?_, fun h => stubsOwned_of_upsert h hup⟩
  · intro kind id hkind
    exact IdMap.findByGitlab_of_upsert hup fun hkey => hkind (by
      simp only [IdMapDoc.gitlabKey, stubRow, Prod.mk.injEq] at hkey
      exact hkey.2.1.symm)
  · intro id
    by_cases hid : id = gitlabId
    · subst hid
      have hself : idmap'.findByGitlab workspaceUuid .user id = some (stubRow workspaceUuid id) :=
        IdMap.findByGitlab_of_upsert_self hup
      simp [guestOf, hnone, hself, stubRow]
    · have hother : idmap'.findByGitlab workspaceUuid .user id =
          idmap.findByGitlab workspaceUuid .user id :=
        IdMap.findByGitlab_of_upsert hup fun hkey => hid (by
          simp only [IdMapDoc.gitlabKey, stubRow, Prod.mk.injEq] at hkey
          exact hkey.2.2.symm)
      simp [guestOf, hother]

/-- `ensureStubGuest` answers the guest and settles the map. -/
theorem ensureStubGuest_run {env : Env} (h : env.Healthy) {workspaceUuid : String}
    {user : IdentityUser} {w : World} (howned : StubsOwned w.idmap) :
    ∃ idmap lookups, Settles workspaceUuid w.idmap idmap ∧
      (ensureStubGuest env workspaceUuid user).run w =
        (.ok (guestOf w.idmap workspaceUuid user.gitlabId),
          { w with idmap := idmap, lookups := lookups }) := by
  unfold ensureStubGuest guestOf
  rw [Effect.bind_of_ok (Sync.findByGitlab_run h _ _ _ w)]
  cases hrow : w.idmap.findByGitlab workspaceUuid .user user.gitlabId with
  | some row => exact ⟨w.idmap, _, Settles.refl _ _, rfl⟩
  | none =>
    obtain ⟨idmap, hup, -⟩ :=
      IdMap.upsert_of_not_conflicts (not_conflicts_stubRow howned workspaceUuid user.gitlabId)
    refine ⟨idmap, w.lookups ++ [(.user, user.gitlabId)], settles_stub hrow hup, ?_⟩
    let asked : World := { w with lookups := w.lookups ++ [(.user, user.gitlabId)] }
    have hwrite : (Sync.upsertIdMap env (stubRow workspaceUuid user.gitlabId)).run asked =
        (.ok (), { asked with idmap := idmap }) := Sync.upsertIdMap_run h asked hup
    dsimp only
    rw [Effect.bind_of_ok hwrite]
    rfl

/-- `resolveUser` answers `personOf` and settles the map. -/
theorem resolveUser_run {env : Env} (h : env.Healthy) (workspaceUuid : String) {user : JsValue}
    {identity : IdentityUser} (hid : identityOf user = .ok identity)
    (hmail : identity.email = .undefined ∨ ∃ address, identity.email = .str address)
    {w : World} (howned : StubsOwned w.idmap) :
    ∃ idmap lookups, Settles workspaceUuid w.idmap idmap ∧
      (resolveUser env workspaceUuid user).run w =
        (.ok (personOf env w.idmap workspaceUuid identity),
          { w with idmap := idmap, lookups := lookups }) := by
  unfold resolveUser personOf
  rw [hid, Effect.ofExcept_ok_bind_run, Effect.bind_of_ok (mapByGitlabUser_run h hmail w)]
  cases accountOf env identity with
  | some ref => exact ⟨w.idmap, w.lookups, Settles.refl _ _, rfl⟩
  | none => exact ensureStubGuest_run h howned

/-- The user has an account, or a row that was written before. -/
def Known (env : Env) (idmap : IdMap) (workspaceUuid : String) (user : IdentityUser) : Prop :=
  accountOf env user ≠ none ∨ idmap.findByGitlab workspaceUuid .user user.gitlabId ≠ none

/-- The rows of users stay as they are. -/
def Remembers (workspaceUuid : String) (idmap idmap' : IdMap) : Prop :=
  ∀ gitlabId row, idmap.findByGitlab workspaceUuid .user gitlabId = some row →
    idmap'.findByGitlab workspaceUuid .user gitlabId = some row

theorem Remembers.refl (workspaceUuid : String) (idmap : IdMap) :
    Remembers workspaceUuid idmap idmap := fun _ _ h => h

theorem Remembers.trans {workspaceUuid : String} {a b c : IdMap} (h : Remembers workspaceUuid a b)
    (h' : Remembers workspaceUuid b c) : Remembers workspaceUuid a c :=
  fun gitlabId row hrow => h' gitlabId row (h gitlabId row hrow)

theorem Known.remembered {env : Env} {idmap idmap' : IdMap} {workspaceUuid : String}
    {user : IdentityUser} (h : Known env idmap workspaceUuid user)
    (hr : Remembers workspaceUuid idmap idmap') : Known env idmap' workspaceUuid user := by
  refine h.imp_right fun hrow => ?_
  obtain ⟨row, hrow⟩ := Option.ne_none_iff_exists'.mp hrow
  rw [hr user.gitlabId row hrow]
  exact Option.some_ne_none row

/-- A known user is the same person later. -/
theorem Known.personOf_eq {env : Env} {idmap idmap' : IdMap} {workspaceUuid : String}
    {user : IdentityUser} (h : Known env idmap workspaceUuid user)
    (hr : Remembers workspaceUuid idmap idmap') :
    personOf env idmap' workspaceUuid user = personOf env idmap workspaceUuid user := by
  unfold personOf
  cases haccount : accountOf env user with
  | some ref => rfl
  | none =>
    have hrow := h.resolve_left fun hne => hne haccount
    obtain ⟨row, hrow⟩ := Option.ne_none_iff_exists'.mp hrow
    simp [guestOf, hrow, hr user.gitlabId row hrow]

/-- The upsert of another row, or of a new guest. -/
theorem remembers_of_upsert {idmap idmap' : IdMap} {workspaceUuid : String} {doc : IdMapDoc}
    (hup : idmap.upsert doc = .ok idmap')
    (hnew : doc.gitlabKind = .user →
      idmap.findByGitlab workspaceUuid .user doc.gitlabId = none) :
    Remembers workspaceUuid idmap idmap' := by
  intro gitlabId row hrow
  by_cases hkey : doc.gitlabKey = (workspaceUuid, .user, gitlabId)
  · have hnone := hnew (congrArg (fun key => key.2.1) hkey)
    rw [show doc.gitlabId = gitlabId from congrArg (fun key => key.2.2) hkey, hrow] at hnone
    cases hnone
  · rwa [IdMap.findByGitlab_of_upsert hup hkey]

/-- A user that cannot be read is an error in every state; any other is its account, or its guest. -/
theorem resolveUser_cases {env : Env} (h : env.Healthy) (workspaceUuid : String) (user : JsValue) :
    (∃ e, ∀ w, (resolveUser env workspaceUuid user).run w = (.error e, w)) ∨
      ∃ identity, ∀ w, (resolveUser env workspaceUuid user).run w =
        (match accountOf env identity with
          | some ref => (pure ref : Sync Ref)
          | none => ensureStubGuest env workspaceUuid identity).run w := by
  unfold resolveUser
  cases hid : identityOf user with
  | error e => exact .inl ⟨e, fun w => rfl⟩
  | ok identity =>
    by_cases hmail : identity.email = .undefined ∨ ∃ address, identity.email = .str address
    · refine .inr ⟨identity, fun w => ?_⟩
      rw [Effect.ofExcept_ok_bind_run, Effect.bind_of_ok (mapByGitlabUser_run h hmail w)]
    · -- the address is looked at only if the GitLab key leads to no account
      rw [not_or] at hmail
      cases hkey : env.findPersonBySocialKey ("gitlab:" ++ identity.gitlabId) with
      | some ref =>
        refine .inr ⟨identity, fun w => ?_⟩
        have haccount : accountOf env identity = some ref := by simp [accountOf, hkey]
        have hmatched : (mapByGitlabUser env identity).run w = (.ok (some ref), w) := by
          unfold mapByGitlabUser
          rw [Effect.bind_of_ok (Sync.findPersonBySocialKey_run h _ w), hkey]
          rfl
        rw [Effect.ofExcept_ok_bind_run, Effect.bind_of_ok hmatched, haccount]
      | none =>
        refine .inl ⟨.typeError, fun w => ?_⟩
        have htext : identity.email.asStr = .error .typeError := by
          cases haddress : identity.email with
          | str address => exact absurd ⟨address, haddress⟩ hmail.2
          | _ => rfl
        have hfailed : (mapByGitlabUser env identity).run w = (.error .typeError, w) := by
          unfold mapByGitlabUser
          rw [Effect.bind_of_ok (Sync.findPersonBySocialKey_run h _ w), hkey]
          dsimp only
          rw [if_pos hmail.1, mapByEmail, htext]
          rfl
        rw [Effect.ofExcept_ok_bind_run]
        exact Effect.bind_of_error hfailed

/-- A known user is answered without a write. -/
theorem knownUser_run {env : Env} (h : env.Healthy) {workspaceUuid : String}
    {identity : IdentityUser} {w : World} (hknown : Known env w.idmap workspaceUuid identity) :
    ∃ lookups, (match accountOf env identity with
        | some ref => (pure ref : Sync Ref)
        | none => ensureStubGuest env workspaceUuid identity).run w =
      (.ok (personOf env w.idmap workspaceUuid identity), { w with lookups := lookups }) := by
  unfold personOf
  cases haccount : accountOf env identity with
  | some ref => exact ⟨w.lookups, rfl⟩
  | none =>
    have hrow := hknown.resolve_left fun hne => hne haccount
    obtain ⟨row, hrow⟩ := Option.ne_none_iff_exists'.mp hrow
    refine ⟨w.lookups ++ [(.user, identity.gitlabId)], ?_⟩
    unfold ensureStubGuest
    rw [Effect.bind_of_ok (Sync.findByGitlab_run h _ _ _ w), hrow]
    simp [guestOf, hrow]

/-- Resolving a user makes it known. -/
theorem knowUser_run {env : Env} (h : env.Healthy) {workspaceUuid : String}
    (identity : IdentityUser) {w : World} (howned : StubsOwned w.idmap) :
    ∃ idmap lookups, (match accountOf env identity with
        | some ref => (pure ref : Sync Ref)
        | none => ensureStubGuest env workspaceUuid identity).run w =
      (.ok (personOf env idmap workspaceUuid identity),
        { w with idmap := idmap, lookups := lookups }) ∧
      Known env idmap workspaceUuid identity ∧ Remembers workspaceUuid w.idmap idmap := by
  by_cases hknown : Known env w.idmap workspaceUuid identity
  · obtain ⟨lookups, hrun⟩ := knownUser_run h hknown
    exact ⟨w.idmap, lookups, hrun, hknown, Remembers.refl _ _⟩
  · rw [Known, not_or, not_not, not_not] at hknown
    obtain ⟨haccount, hrow⟩ := hknown
    obtain ⟨idmap, hup, -⟩ := IdMap.upsert_of_not_conflicts
      (not_conflicts_stubRow howned workspaceUuid identity.gitlabId)
    have hself : idmap.findByGitlab workspaceUuid .user identity.gitlabId =
        some (stubRow workspaceUuid identity.gitlabId) := IdMap.findByGitlab_of_upsert_self hup
    let asked : World := { w with lookups := w.lookups ++ [(.user, identity.gitlabId)] }
    refine ⟨idmap, asked.lookups, ?_, .inr ?_, remembers_of_upsert hup fun _ => hrow⟩
    · rw [haccount]
      dsimp only
      unfold ensureStubGuest
      rw [Effect.bind_of_ok (Sync.findByGitlab_run h _ _ _ w), hrow]
      dsimp only
      rw [Effect.bind_of_ok (Sync.upsertIdMap_run h asked hup)]
      simp [personOf, guestOf, haccount, hself, stubRow, asked]
    · rw [hself]
      exact Option.some_ne_none _

/-- Resolving a user makes it known and answers the person from then on, or fails in every state. -/
theorem resolveUser_known {env : Env} (h : env.Healthy) (workspaceUuid : String) (user : JsValue) :
    (∃ e, ∀ w, (resolveUser env workspaceUuid user).run w = (.error e, w)) ∨
      ∃ identity,
        (∀ w, StubsOwned w.idmap → ∃ idmap lookups,
          (resolveUser env workspaceUuid user).run w =
            (.ok (personOf env idmap workspaceUuid identity),
              { w with idmap := idmap, lookups := lookups }) ∧
          Known env idmap workspaceUuid identity ∧ Remembers workspaceUuid w.idmap idmap) ∧
        ∀ w, Known env w.idmap workspaceUuid identity → ∃ lookups,
          (resolveUser env workspaceUuid user).run w =
            (.ok (personOf env w.idmap workspaceUuid identity), { w with lookups := lookups }) := by
  obtain herror | ⟨identity, hrun⟩ := resolveUser_cases h workspaceUuid user
  · exact .inl herror
  refine .inr ⟨identity, fun w howned => ?_, fun w hknown => ?_⟩
  · rw [hrun w]
    exact knowUser_run h identity howned
  · rw [hrun w]
    exact knownUser_run h hknown

end UserIdentity

end HulyGitlab
