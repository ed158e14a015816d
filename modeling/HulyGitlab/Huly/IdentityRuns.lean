import HulyGitlab.Huly.Users
import HulyGitlab.Lib.Transition

/-!
# Calls of the identity of a workspace

`UserIdentity` with its cache of account answers, and whole sequences of its
calls. Neither the social key nor the row of a guest names the instance of the
user, so users of two instances with one id share them.
-/

namespace HulyGitlab

open Effect

namespace UserIdentity

structure CacheEntry where
  value : Option Ref
  expiresAt : Nat
  deriving DecidableEq

/-- The object of a workspace, and what it works on. -/
structure Cached where
  cache : OrderedMap String CacheEntry
  world : World
  deriving DecidableEq

abbrev CachedSync := Effect Err Cached

namespace Cached

/-- A call that leaves the cache alone. -/
def onWorld {A : Type} (c : Sync A) : CachedSync A := Effect.step fun s =>
  let out := c.run s.world
  (out.1, { s with world := out.2 })

variable (env : Env) (ttlMs : Nat)

/-- The account service is asked, and its answer kept for a while. -/
def fetch (socialKey : String) (now : Nat) : CachedSync (Option Ref) := do
  let value ← onWorld (Sync.findPersonBySocialKey env socialKey)
  Effect.modify fun s => { s with cache := s.cache.set socialKey ⟨value, now + ttlMs⟩ }
  pure value

def lookupCached (socialKey : String) : CachedSync (Option Ref) := do
  let now ← Effect.gets fun s => s.world.now
  let cached ← Effect.gets fun s => s.cache.get? socialKey
  match cached with
  | some entry => if now < entry.expiresAt then pure entry.value else fetch env ttlMs socialKey now
  | none => fetch env ttlMs socialKey now

def mapByEmail (email : JsValue) : CachedSync (Option Ref) := do
  let address ← Effect.ofExcept email.asStr
  lookupCached env ttlMs ("email:" ++ env.toLowerCase address)

def mapByGitlabUser (user : IdentityUser) : CachedSync (Option Ref) := do
  let byGitlab ← lookupCached env ttlMs ("gitlab:" ++ user.gitlabId)
  match byGitlab with
  | some ref => pure (some ref)
  | none => if user.email ≠ .undefined then mapByEmail env ttlMs user.email else pure none

def ensureStubGuest (workspaceUuid : String) (user : IdentityUser) : CachedSync Ref :=
  onWorld (UserIdentity.ensureStubGuest env workspaceUuid user)

/-- `invalidate`, of one key or of all. -/
def invalidate (key : Option String) (s : Cached) : Cached :=
  { s with
    cache := match key with
      | some key => s.cache.delete key
      | none => .empty }

/-- The cache holds what the account service answers. -/
def Answered (s : Cached) : Prop :=
  ∀ key entry, s.cache.get? key = some entry → entry.value = env.findPersonBySocialKey key

end Cached

/-- Guests are stubs: a row of a user is one that `putIdMap` writes. -/
def OnlyStubs (idmap : IdMap) : Prop :=
  ∀ row ∈ idmap.rows, row.gitlabKind = .user → row.hulyRef = stubRef row.gitlabId

section Calls

variable (env : Env)

theorem reach_triple (P : World → Prop) (service : Service) :
    Triple P (Sync.reach env service) (fun _ => P) P := by
  intro w hw
  unfold Sync.reach
  rw [step_run]
  cases env.fault w service with
  | none => exact .inl ⟨(), w, rfl, hw⟩
  | some e => exact .inr ⟨e, w, rfl, hw⟩

theorem onlyStubs_upsert {idmap idmap' : IdMap} {doc : IdMapDoc} (h : OnlyStubs idmap)
    (hdoc : doc.gitlabKind = .user → doc.hulyRef = stubRef doc.gitlabId)
    (hup : idmap.upsert doc = .ok idmap') : OnlyStubs idmap' := by
  intro row hrow hkind
  obtain rfl | ⟨hold, -⟩ := (IdMap.mem_of_upsert hup).mp hrow
  · exact hdoc hkind
  · exact h row hold hkind

theorem upsertIdMap_triple (doc : IdMapDoc)
    (hdoc : doc.gitlabKind = .user → doc.hulyRef = stubRef doc.gitlabId) :
    Triple (fun w => OnlyStubs w.idmap) (Sync.upsertIdMap env doc)
      (fun _ w => OnlyStubs w.idmap) (fun w => OnlyStubs w.idmap) := by
  apply Triple.bind (reach_triple env _ .idmap)
  intro _ w hw
  rw [step_run]
  cases hup : w.idmap.upsert doc with
  | error e => exact .inr ⟨e, w, rfl, hw⟩
  | ok idmap => exact .inl ⟨(), _, rfl, onlyStubs_upsert hw hdoc hup⟩

/-- Whoever asks first, the guest of an id is the stub of the id. -/
theorem ensureStubGuest_triple (workspaceUuid : String) (user : IdentityUser) :
    Triple (fun w => OnlyStubs w.idmap) (ensureStubGuest env workspaceUuid user)
      (fun ref w => OnlyStubs w.idmap ∧ ref = stubRef user.gitlabId)
      (fun w => OnlyStubs w.idmap) := by
  have hfind : Triple (fun w => OnlyStubs w.idmap)
      (Sync.findByGitlab env workspaceUuid .user user.gitlabId)
      (fun found w => OnlyStubs w.idmap ∧
        ∀ row, found = some row → row.hulyRef = stubRef user.gitlabId)
      (fun w => OnlyStubs w.idmap) := by
    refine Triple.bind (Q := fun _ w => OnlyStubs w.idmap) ?_ fun _ => ?_
    · exact Triple.modify fun w hw => hw
    apply Triple.bind (reach_triple env _ .idmap)
    intro _
    apply Triple.gets
    intro w hw
    refine ⟨hw, fun row hrow => ?_⟩
    obtain ⟨hmem, hkey⟩ := IdMap.findByGitlab_eq_some_iff.mp hrow
    have hkind : row.gitlabKind = .user := congrArg (fun key => key.2.1) hkey
    have hid : row.gitlabId = user.gitlabId := congrArg (fun key => key.2.2) hkey
    rw [hw row hmem hkind, hid]
  apply Triple.bind hfind
  intro found
  cases found with
  | some row => exact Triple.pure fun w hw => ⟨hw.1, hw.2 row rfl⟩
  | none =>
    apply Triple.bind (Triple.pre (fun w hw => hw.1)
      (upsertIdMap_triple env (stubRow workspaceUuid user.gitlabId) fun _ => rfl))
    intro _
    exact Triple.pure fun w hw => ⟨hw, rfl⟩

end Calls

namespace Cached

variable (env : Env) (ttlMs : Nat)

/-- What the calls keep. -/
structure Sound (s : Cached) : Prop where
  answered : Answered env s
  onlyStubs : OnlyStubs s.world.idmap

theorem onWorld_triple {A : Type} {c : Sync A} {Q : A → World → Prop}
    (h : Triple (fun w => OnlyStubs w.idmap) c (fun a w => OnlyStubs w.idmap ∧ Q a w)
      (fun w => OnlyStubs w.idmap)) :
    Triple (Sound env) (onWorld c) (fun a s => Sound env s ∧ Q a s.world) (Sound env) := by
  intro s hs
  obtain ⟨a, w, hrun, hstubs, hQ⟩ | ⟨e, w, hrun, hstubs⟩ := h s.world hs.onlyStubs
  · refine .inl ⟨a, { s with world := w }, ?_, ⟨hs.answered, hstubs⟩, hQ⟩
    rw [onWorld, step_run, hrun]
  · refine .inr ⟨e, { s with world := w }, ?_, ⟨hs.answered, hstubs⟩⟩
    rw [onWorld, step_run, hrun]

/-- Remembered or asked anew, the answer is that of the account service. -/
theorem lookupCached_triple (socialKey : String) :
    Triple (Sound env) (lookupCached env ttlMs socialKey)
      (fun value s => Sound env s ∧ value = env.findPersonBySocialKey socialKey) (Sound env) := by
  have hfetch : ∀ now, Triple (Sound env) (fetch env ttlMs socialKey now)
      (fun value s => Sound env s ∧ value = env.findPersonBySocialKey socialKey) (Sound env) := by
    intro now
    have hask : Triple (fun w => OnlyStubs w.idmap) (Sync.findPersonBySocialKey env socialKey)
        (fun value w => OnlyStubs w.idmap ∧ value = env.findPersonBySocialKey socialKey)
        (fun w => OnlyStubs w.idmap) := by
      apply Triple.bind (reach_triple env _ .account)
      intro _
      exact Triple.pure fun w hw => ⟨hw, rfl⟩
    apply Triple.bind (onWorld_triple env hask)
    intro value
    apply Triple.bind (Triple.modify
      (Q := fun _ s => Sound env s ∧ value = env.findPersonBySocialKey socialKey) ?_)
    · intro _
      exact Triple.pure fun s hs => hs
    · rintro s ⟨hs, hvalue⟩
      refine ⟨⟨fun key entry hentry => ?_, hs.onlyStubs⟩, hvalue⟩
      by_cases hkey : key = socialKey
      · subst hkey
        rw [OrderedMap.get?_set_self] at hentry
        cases hentry
        exact hvalue
      · rw [OrderedMap.get?_set_of_ne _ hkey] at hentry
        exact hs.answered key entry hentry
  apply Triple.bind (Triple.gets (Q := fun _ s => Sound env s) fun s hs => hs)
  intro now
  apply Triple.bind (Triple.gets (Q := fun cached s => Sound env s ∧
    ∀ entry, cached = some entry → entry.value = env.findPersonBySocialKey socialKey)
    fun s hs => ⟨hs, fun entry hentry => hs.answered socialKey entry hentry⟩)
  intro cached
  cases cached with
  | none => exact Triple.pre (fun s hs => hs.1) (hfetch now)
  | some entry =>
    dsimp only
    split_ifs
    · exact Triple.pure fun s hs => ⟨hs.1, hs.2 entry rfl⟩
    · exact Triple.pre (fun s hs => hs.1) (hfetch now)

/-- The user is an account by the key of its mail address. -/
def EmailMatched (user : IdentityUser) : Prop :=
  ∃ address, user.email = .str address ∧
    (env.findPersonBySocialKey ("email:" ++ env.toLowerCase address)).isSome

/-- Who is not matched by mail is matched by the GitLab key. -/
theorem mapByGitlabUser_triple (user : IdentityUser) :
    Triple (Sound env) (mapByGitlabUser env ttlMs user)
      (fun found s => Sound env s ∧ ∀ ref, found = some ref → ¬ EmailMatched env user →
        env.findPersonBySocialKey ("gitlab:" ++ user.gitlabId) = some ref) (Sound env) := by
  apply Triple.bind (lookupCached_triple env ttlMs _)
  intro byGitlab
  cases byGitlab with
  | some ref =>
    refine Triple.pure fun s hs => ⟨hs.1, fun found hfound _ => ?_⟩
    rw [← hs.2, hfound]
  | none =>
    dsimp only
    split_ifs
    · apply Triple.pre (fun s hs => hs.1)
      unfold mapByEmail
      cases hmail : user.email with
      | str address =>
        apply Triple.bind (Triple.ofExcept (Q := fun text s => Sound env s ∧ text = address)
          (fun text s hok hs => ⟨hs, (Except.ok.inj hok).symm⟩) fun s hs => hs)
        intro text
        apply Triple.of_forall
        rintro s ⟨hs, rfl⟩
        refine Triple.pre (fun t ht => ht ▸ hs) ?_
        intro t ht
        obtain ⟨found, t', hrun, hsound, hfound⟩ | herr :=
          lookupCached_triple env ttlMs ("email:" ++ env.toLowerCase text) t ht
        · refine .inl ⟨found, t', hrun, hsound, fun ref href hmatched => ?_⟩
          refine absurd ⟨text, hmail, ?_⟩ hmatched
          rw [← hfound, href]
          rfl
        · exact .inr herr
      | _ => exact fun s hs => .inr ⟨_, s, rfl, hs⟩
    · refine Triple.pure fun s hs => ⟨hs.1, fun ref href => ?_⟩
      cases href

theorem ensureStubGuest_triple (workspaceUuid : String) (user : IdentityUser) :
    Triple (Sound env) (ensureStubGuest env workspaceUuid user)
      (fun ref s => Sound env s ∧ ref = stubRef user.gitlabId) (Sound env) :=
  onWorld_triple env (UserIdentity.ensureStubGuest_triple env workspaceUuid user)

theorem invalidate_sound {s : Cached} (h : Sound env s) (key : Option String) :
    Sound env (invalidate key s) := by
  refine ⟨fun k entry hentry => ?_, h.onlyStubs⟩
  cases key with
  | none => cases hentry
  | some key =>
    have hold : s.cache.get? k = some entry := by
      by_cases hk : k = key
      · subst hk
        simp [invalidate] at hentry
      · simpa [invalidate, OrderedMap.get?_delete_of_ne _ hk] using hentry
    exact h.answered k entry hold

end Cached

/-! ### Sequences of calls -/

/-- A GitLab user: ids are counted by each instance for itself. -/
structure GitLabUser where
  instanceUrl : String
  id : Int
  deriving DecidableEq

inductive CallKind
  | mapByGitlabUser
  | ensureStubGuest
  deriving DecidableEq

/-- A call: whom it concerns, and what it is given. -/
structure IdentityCall where
  gitlabUser : GitLabUser
  user : IdentityUser
  kind : CallKind

/-- The identity of a workspace, with the calls that returned a person so far. -/
structure History where
  cached : Cached
  returned : List (IdentityCall × Ref)

namespace History

variable (env : Env) (ttlMs : Nat) (workspaceUuid : String)

inductive Action
  | call (c : IdentityCall)
  /-- A key or all; also a new identity after the eviction of the workspace. -/
  | invalidate (key : Option String)
  | elapse (now : Nat)
  /-- A row of another kind, by any manager. -/
  | upsert (doc : IdMapDoc)

/-- The call itself. -/
def answer (c : IdentityCall) : CachedSync (Option Ref) :=
  match c.kind with
  | .mapByGitlabUser => Cached.mapByGitlabUser env ttlMs c.user
  | .ensureStubGuest => do
      let ref ← Cached.ensureStubGuest env workspaceUuid c.user
      pure (some ref)

def step (s : History) : Action → History
  | .call c =>
      let out := (answer env ttlMs workspaceUuid c).run s.cached
      match out.1 with
      | .ok (some ref) => ⟨out.2, s.returned ++ [(c, ref)]⟩
      | _ => ⟨out.2, s.returned⟩
  | .invalidate key => { s with cached := s.cached.invalidate key }
  | .elapse now => { s with cached.world.now := now }
  | .upsert doc =>
      if doc.gitlabKind = .user then s
      else { s with cached := ((Cached.onWorld (Sync.upsertIdMap env doc)).run s.cached).2 }

/-- A first process on an empty store. -/
def start : History := ⟨⟨.empty, .initial⟩, []⟩

/-- Calls for different users return different persons, accounts that are found by mail apart. -/
def Separated (s : History) : Prop :=
  ∀ e ∈ s.returned, ∀ e' ∈ s.returned, e.1.gitlabUser ≠ e'.1.gitlabUser →
    ¬ Cached.EmailMatched env e.1.user → ¬ Cached.EmailMatched env e'.1.user → e.2 ≠ e'.2

/-- Two calls are given the same id where guests are concerned, the same account where accounts
are, or an account that is named like a guest. -/
def Collide (c c' : IdentityCall) : Prop :=
  match c.kind, c'.kind with
  | .mapByGitlabUser, .mapByGitlabUser =>
      env.findPersonBySocialKey ("gitlab:" ++ c.user.gitlabId) =
        env.findPersonBySocialKey ("gitlab:" ++ c'.user.gitlabId)
  | .ensureStubGuest, .ensureStubGuest => c.user.gitlabId = c'.user.gitlabId
  | .mapByGitlabUser, .ensureStubGuest =>
      env.findPersonBySocialKey ("gitlab:" ++ c.user.gitlabId) = some (stubRef c'.user.gitlabId)
  | .ensureStubGuest, .mapByGitlabUser =>
      env.findPersonBySocialKey ("gitlab:" ++ c'.user.gitlabId) = some (stubRef c.user.gitlabId)

/-- What a call returned, unless it was by mail. -/
def Answers (e : IdentityCall × Ref) : Prop :=
  match e.1.kind with
  | .mapByGitlabUser => ¬ Cached.EmailMatched env e.1.user →
      env.findPersonBySocialKey ("gitlab:" ++ e.1.user.gitlabId) = some e.2
  | .ensureStubGuest => e.2 = stubRef e.1.user.gitlabId

structure Sound (s : History) : Prop where
  cached : s.cached.Sound env
  answers : ∀ e ∈ s.returned, Answers env e

theorem answer_triple (c : IdentityCall) :
    Triple (Cached.Sound env) (answer env ttlMs workspaceUuid c)
      (fun found s => s.Sound env ∧ ∀ ref, found = some ref → Answers env (c, ref))
      (Cached.Sound env) := by
  obtain ⟨gitlabUser, user, kind⟩ := c
  cases kind with
  | mapByGitlabUser => exact Cached.mapByGitlabUser_triple env ttlMs user
  | ensureStubGuest =>
    apply Triple.bind (Cached.ensureStubGuest_triple env workspaceUuid user)
    intro ref
    refine Triple.pure fun s hs => ⟨hs.1, fun found hfound => ?_⟩
    obtain rfl := Option.some.inj hfound
    exact hs.2

theorem step_sound (s : History) (act : Action) (h : Sound env s) :
    Sound env (step env ttlMs workspaceUuid s act) := by
  cases act with
  | call c =>
    obtain ⟨found, s', hrun, hsound, hfound⟩ | ⟨e, s', hrun, hsound⟩ :=
      answer_triple env ttlMs workspaceUuid c s.cached h.cached
    · simp only [step, hrun]
      cases found with
      | none => exact ⟨hsound, h.answers⟩
      | some ref =>
        refine ⟨hsound, fun e he => ?_⟩
        obtain hold | hnew := List.mem_append.mp he
        · exact h.answers e hold
        · obtain rfl := List.mem_singleton.mp hnew
          exact hfound ref rfl
    · simp only [step, hrun]
      exact ⟨hsound, h.answers⟩
  | invalidate key => exact ⟨Cached.invalidate_sound env h.cached key, h.answers⟩
  | elapse now => exact ⟨⟨h.cached.answered, h.cached.onlyStubs⟩, h.answers⟩
  | upsert doc =>
    show Sound env (if doc.gitlabKind = .user then s else _)
    split_ifs with hkind
    · exact h
    · have hrow : Triple (fun w => OnlyStubs w.idmap) (Sync.upsertIdMap env doc)
          (fun _ w => OnlyStubs w.idmap ∧ True) (fun w => OnlyStubs w.idmap) := by
        intro w hw
        exact (upsertIdMap_triple env doc (fun huser => absurd huser hkind) w hw).imp
          (fun ⟨a, w', hrun, hstubs⟩ => ⟨a, w', hrun, hstubs, trivial⟩) id
      obtain ⟨_, s', hrun, hsound, -⟩ | ⟨e, s', hrun, hsound⟩ :=
        Cached.onWorld_triple env hrow s.cached h.cached
      · rw [hrun]
        exact ⟨hsound, h.answers⟩
      · rw [hrun]
        exact ⟨hsound, h.answers⟩

theorem exec_sound (acts : List Action) :
    Sound env (Transition.exec (step env ttlMs workspaceUuid) start acts) := by
  apply Transition.exec_invariant' (I := Sound env)
  · exact step_sound env ttlMs workspaceUuid
  · have hcached : Cached.Sound env ⟨.empty, .initial⟩ :=
      ⟨fun _ _ h => absurd h (Option.some_ne_none _).symm, fun _ h => absurd h List.not_mem_nil⟩
    exact ⟨hcached, fun _ h => absurd h List.not_mem_nil⟩

theorem eq_iff_collide {e e' : IdentityCall × Ref} (h : Answers env e) (h' : Answers env e')
    (hmail : ¬ Cached.EmailMatched env e.1.user) (hmail' : ¬ Cached.EmailMatched env e'.1.user) :
    e.2 = e'.2 ↔ Collide env e.1 e'.1 := by
  unfold Answers at h h'
  unfold Collide
  cases hkind : e.1.kind with
  | mapByGitlabUser =>
    rw [hkind] at h
    have hlinked := h hmail
    cases hkind' : e'.1.kind with
    | mapByGitlabUser =>
      rw [hkind'] at h'
      have hlinked' := h' hmail'
      dsimp only
      rw [hlinked, hlinked', Option.some.injEq]
    | ensureStubGuest =>
      rw [hkind'] at h'
      dsimp only at h' ⊢
      rw [hlinked, h', Option.some.injEq]
  | ensureStubGuest =>
    rw [hkind] at h
    dsimp only at h
    cases hkind' : e'.1.kind with
    | mapByGitlabUser =>
      rw [hkind'] at h'
      have hlinked' := h' hmail'
      dsimp only
      rw [hlinked', h, Option.some.injEq]
      exact eq_comm
    | ensureStubGuest =>
      rw [hkind'] at h'
      dsimp only at h' ⊢
      rw [h, h']
      exact ⟨stubRef_inj, congrArg stubRef⟩

/-- Users are told apart exactly when no two calls for different users collide. -/
theorem separated_iff (acts : List Action) :
    let s := Transition.exec (step env ttlMs workspaceUuid) start acts
    Separated env s ↔ ∀ e ∈ s.returned, ∀ e' ∈ s.returned, e.1.gitlabUser ≠ e'.1.gitlabUser →
      ¬ Cached.EmailMatched env e.1.user → ¬ Cached.EmailMatched env e'.1.user →
      ¬ Collide env e.1 e'.1 := by
  intro s
  have hsound : Sound env s := exec_sound env ttlMs workspaceUuid acts
  constructor
  · intro h e he e' he' hne hmail hmail' hcollide
    apply h e he e' he' hne hmail hmail'
    exact (eq_iff_collide env (hsound.answers e he) (hsound.answers e' he') hmail hmail').mpr hcollide
  · intro h e he e' he' hne hmail hmail' heq
    apply h e he e' he' hne hmail hmail'
    exact (eq_iff_collide env (hsound.answers e he) (hsound.answers e' he') hmail hmail').mp heq

/-- The users with id 5 of two instances are one guest. -/
theorem not_separated_of_same_id :
    let env := Env.quiet quietBinding
    let call (instanceUrl : String) : IdentityCall :=
      ⟨⟨instanceUrl, 5⟩, ⟨"5", .undefined⟩, .ensureStubGuest⟩
    let s := Transition.exec (step env 300000 "ws") start
      [.call (call "https://gitlab"), .call (call "https://gitlab.example")]
    s.returned.map (fun e => (e.1.gitlabUser, e.2)) =
        [(⟨"https://gitlab", 5⟩, "stub:gitlab:5"), (⟨"https://gitlab.example", 5⟩, "stub:gitlab:5")] ∧
      ¬ Separated env s := by
  intro env call s
  have hreturned : s.returned = [(call "https://gitlab", "stub:gitlab:5"),
      (call "https://gitlab.example", "stub:gitlab:5")] := rfl
  have hmail : ∀ url, ¬ Cached.EmailMatched env (call url).user := by
    rintro url ⟨address, haddress, -⟩
    cases haddress
  refine ⟨by rw [hreturned]; rfl, fun hseparated => ?_⟩
  exact hseparated (call "https://gitlab", "stub:gitlab:5") (by simp [hreturned])
    (call "https://gitlab.example", "stub:gitlab:5") (by simp [hreturned]) (by decide)
    (hmail _) (hmail _) rfl

end History

end UserIdentity

end HulyGitlab
