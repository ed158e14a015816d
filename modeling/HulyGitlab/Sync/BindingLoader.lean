import HulyGitlab.Auth.Credentials
import HulyGitlab.Lib.Transition
import Mathlib.Data.List.Dedup

/-!
# The binding loader

What `BindingLoader` and the client factory of the lifecycle service build
from a stored credential, and the registries of base URLs and bindings that
the loads of a workspace fill. `Deployment` also records every client that
was built and every credential a base URL was registered for.
-/

namespace HulyGitlab

structure BindingDoc where
  workspaceUuid : String
  hulyProjectRef : Ref
  gitlabProjectId : Int
  gitlabProjectPath : String
  credentialRef : String
  disabled : Bool
  deriving DecidableEq

structure GitLabClient where
  baseUrl : String
  token : String
  deriving DecidableEq

/-- The key of a binding in the map of its workspace. -/
def bindingsByProjectKey (hash8 : String → String) (isMultiInstance : Bool)
    (gitlabBaseUrl : String) (gitlabProjectId : Int) : String :=
  if isMultiInstance then hash8 gitlabBaseUrl ++ ":" ++ toString gitlabProjectId
  else toString gitlabProjectId

/-- The registries of the loader, by workspace. -/
structure BindingLoader where
  workspaceBaseUrls : OrderedMap String (OrderedSet String)
  bindingsByWorkspace : OrderedMap String (OrderedMap String BindingRef)
  /-- The project id and the base URL of each key of `bindingsByWorkspace`. -/
  bindingMetaByWorkspace : OrderedMap String (OrderedMap String (Int × String))
  deriving DecidableEq

namespace BindingLoader

def empty : BindingLoader := ⟨.empty, .empty, .empty⟩

/-- The base URLs that are registered for a workspace. -/
def baseUrls (l : BindingLoader) (workspaceUuid : String) : OrderedSet String :=
  (l.workspaceBaseUrls.get? workspaceUuid).getD .empty

def getBindingsByProject (l : BindingLoader) (workspaceUuid : String) :
    OrderedMap String BindingRef :=
  (l.bindingsByWorkspace.get? workspaceUuid).getD .empty

def registerBaseUrl (l : BindingLoader) (workspaceUuid gitlabBaseUrl : String) : BindingLoader :=
  { l with
    workspaceBaseUrls :=
      l.workspaceBaseUrls.set workspaceUuid ((l.baseUrls workspaceUuid).add gitlabBaseUrl) }

def isMultiInstance (l : BindingLoader) (workspaceUuid : String) : Bool :=
  2 ≤ (l.baseUrls workspaceUuid).elems.length

/-- The maps under their new keys, and whether a key changed. -/
structure Rekeyed where
  map : OrderedMap String BindingRef
  known : OrderedMap String (Int × String)
  needsRekey : Bool

/-- One pass of the loop that moves the entries to composite keys. -/
def rekeyEntry (hash8 : String → String) (known : OrderedMap String (Int × String))
    (acc : Rekeyed) (entry : String × BindingRef) : Rekeyed :=
  match known.get? entry.1 with
  | none => { acc with map := acc.map.set entry.1 entry.2 }
  | some m =>
      let newKey := bindingsByProjectKey hash8 true m.2 m.1
      ⟨acc.map.set newKey entry.2, acc.known.set newKey m, acc.needsRekey || newKey ≠ entry.1⟩

def rekey (hash8 : String → String) (map : OrderedMap String BindingRef)
    (known : OrderedMap String (Int × String)) :
    OrderedMap String BindingRef × OrderedMap String (Int × String) :=
  let rekeyed := map.entries.foldl (rekeyEntry hash8 known) ⟨.empty, .empty, false⟩
  if rekeyed.needsRekey then (rekeyed.map, rekeyed.known) else (map, known)

def registerBinding (hash8 : String → String) (l : BindingLoader) (workspaceUuid : String)
    (gitlabProjectId : Int) (bindingId : BindingRef) (gitlabBaseUrl : String) : BindingLoader :=
  let map := l.getBindingsByProject workspaceUuid
  let known := (l.bindingMetaByWorkspace.get? workspaceUuid).getD .empty
  let multi := l.isMultiInstance workspaceUuid
  let maps := if multi then rekey hash8 map known else (map, known)
  let key := bindingsByProjectKey hash8 multi gitlabBaseUrl gitlabProjectId
  { l with
    bindingsByWorkspace := l.bindingsByWorkspace.set workspaceUuid (maps.1.set key bindingId)
    bindingMetaByWorkspace := l.bindingMetaByWorkspace.set workspaceUuid
      (maps.2.set key (gitlabProjectId, gitlabBaseUrl)) }

@[simp] theorem baseUrls_empty (workspaceUuid : String) : empty.baseUrls workspaceUuid = .empty := rfl

@[simp] theorem baseUrls_registerBinding (hash8 : String → String) (l : BindingLoader)
    (workspaceUuid : String) (gitlabProjectId : Int) (bindingId : BindingRef)
    (gitlabBaseUrl ws : String) :
    (l.registerBinding hash8 workspaceUuid gitlabProjectId bindingId gitlabBaseUrl).baseUrls ws =
      l.baseUrls ws := rfl

theorem baseUrls_registerBaseUrl (l : BindingLoader) (workspaceUuid gitlabBaseUrl ws : String) :
    (l.registerBaseUrl workspaceUuid gitlabBaseUrl).baseUrls ws =
      if ws = workspaceUuid then (l.baseUrls ws).add gitlabBaseUrl else l.baseUrls ws := by
  unfold registerBaseUrl baseUrls
  rw [OrderedMap.get?_set]
  by_cases h : ws = workspaceUuid
  · rw [if_pos h, if_pos h, h]
    rfl
  · rw [if_neg h, if_neg h]

end BindingLoader

/-- What the loader is constructed with, and the services it calls. -/
structure LoaderDeps where
  cipher : Cipher
  encryptionKey : String
  defaultGitlabBaseUrl : String
  hash8 : String → String
  /-- The edition, when the instance answers the detection. -/
  detectCapabilities : GitLabClient → Option String
  /-- Get or create the platform client of a workspace. -/
  getOrCreateWorkspaceEntry : String → Except Err Unit
  /-- The statuses and the task types of a tracker project. -/
  getTrackerProject : Ref → Except Err (List Status × List Ref)

structure Deployment where
  bindings : OrderedMap BindingRef BindingDoc
  credentials : Credentials
  loader : BindingLoader
  /-- The clients built so far, each with the credential it was built from. -/
  clients : List (CredentialDoc × GitLabClient)
  /-- The workspaces of the loads so far, each with the credential of its binding. -/
  loads : List (String × Option CredentialDoc)
  deriving DecidableEq

structure PipelineBindingContext where
  workspaceUuid : String
  gitlabProjectId : Int
  hulyProjectRef : Ref
  gitlabBaseUrl : String
  isMultiInstanceWorkspace : Bool
  deriving DecidableEq

/-- The loader forms; all but the pipelines go through `loadInternal`. -/
inductive LoaderForm
  | issues
  | notes
  | mergeRequests
  | reviews
  | epics
  | pipelines
  deriving DecidableEq

namespace Deployment

open Effect

abbrev Load := Effect Err Deployment

variable (deps : LoaderDeps)

def resolveBinding (bindingId : BindingRef) : Load BindingDoc := Effect.step fun d =>
  match d.bindings.get? bindingId with
  | some binding => (.ok binding, d)
  | none => (.error (.service ("BindingLoader: binding not found: " ++ bindingId)), d)

def resolve (credentialRef : String) : Load (Option ResolvedCredential) := Effect.step fun d =>
  (CredentialResolver.resolve deps.cipher deps.encryptionKey d.credentials credentialRef, d)

/-- `new GitLabClient({ baseUrl, token })` with the token of a credential. -/
def newClient (credentialRef baseUrl token : String) : Load GitLabClient := Effect.step fun d =>
  let client : GitLabClient := ⟨baseUrl, token⟩
  let built := (d.credentials.get? credentialRef).toList.map fun doc => (doc, client)
  (.ok client, { d with clients := d.clients ++ built })

/-- `registerBaseUrl`, `registerBinding`, and then `isMultiInstance`. -/
def register (bindingId : BindingRef) (binding : BindingDoc) (gitlabBaseUrl : String) :
    Load Bool := Effect.step fun d =>
  let loader := (d.loader.registerBaseUrl binding.workspaceUuid gitlabBaseUrl).registerBinding
    deps.hash8 binding.workspaceUuid binding.gitlabProjectId bindingId gitlabBaseUrl
  (.ok (loader.isMultiInstance binding.workspaceUuid),
    { d with
      loader := loader
      loads := d.loads ++ [(binding.workspaceUuid, d.credentials.get? binding.credentialRef)] })

/-- The context for a binding whose client is built. -/
def contextOf (binding : BindingDoc) (gitlabClient : GitLabClient) (isMulti : Bool) :
    Load BindingContext := do
  Effect.ofExcept (deps.getOrCreateWorkspaceEntry binding.workspaceUuid)
  let project ← Effect.ofExcept (deps.getTrackerProject binding.hulyProjectRef)
  match project.2 with
  | [] => Effect.throw (.service ("BindingLoader: project " ++ binding.hulyProjectRef ++
      " has no TaskType; cannot mirror issues/MRs"))
  | defaultTaskType :: _ =>
      pure ⟨binding.workspaceUuid, binding.gitlabProjectId, binding.gitlabProjectPath,
        binding.hulyProjectRef, project.1, defaultTaskType, gitlabClient.baseUrl, isMulti,
        deps.detectCapabilities gitlabClient⟩

def loadInternal (bindingId : BindingRef) : Load (BindingContext × GitLabClient) := do
  let binding ← resolveBinding bindingId
  let credential ← resolve deps binding.credentialRef
  match credential with
  | none => Effect.throw (.service
      ("BindingLoader: credential not found for binding " ++ bindingId))
  | some credential =>
      let gitlabBaseUrl := credential.gitlabBaseUrl.getD deps.defaultGitlabBaseUrl
      let gitlabClient ← newClient binding.credentialRef gitlabBaseUrl credential.token
      let isMulti ← register deps bindingId binding gitlabBaseUrl
      let bctx ← contextOf deps binding gitlabClient isMulti
      pure (bctx, gitlabClient)

def loadForIssues : BindingRef → Load (BindingContext × GitLabClient) := loadInternal deps

def loadForNotes : BindingRef → Load (BindingContext × GitLabClient) := loadInternal deps

def loadForMergeRequests : BindingRef → Load (BindingContext × GitLabClient) := loadInternal deps

def loadForReviews : BindingRef → Load (BindingContext × GitLabClient) := loadInternal deps

def loadForEpics : BindingRef → Load (BindingContext × GitLabClient) := loadInternal deps

/-- The pipelines need no client, only the base URL. -/
def loadForPipelines (bindingId : BindingRef) : Load PipelineBindingContext := do
  let binding ← resolveBinding bindingId
  let credential ← resolve deps binding.credentialRef
  let gitlabBaseUrl :=
    (credential.bind ResolvedCredential.gitlabBaseUrl).getD deps.defaultGitlabBaseUrl
  let isMulti ← register deps bindingId binding gitlabBaseUrl
  Effect.ofExcept (deps.getOrCreateWorkspaceEntry binding.workspaceUuid)
  pure ⟨binding.workspaceUuid, binding.gitlabProjectId, binding.hulyProjectRef, gitlabBaseUrl,
    isMulti⟩

/-- The factory that `index.ts` hands to the lifecycle service. -/
def gitlabClientFactory (credentialRef : String) : Load GitLabClient := do
  let cred ← resolve deps credentialRef
  match cred with
  | none => Effect.throw (.service ("Credential not found: " ++ credentialRef))
  | some cred =>
      newClient credentialRef (cred.gitlabBaseUrl.getD deps.defaultGitlabBaseUrl) cred.token

/-- What changes the stored credentials and bindings, and what builds clients from them. -/
inductive Action
  | createBinding (id : BindingRef) (doc : BindingDoc)
  | putCredential (id iv refreshIv : String) (now : Nat) (input : PutCredentialInput)
  | rotateCredential (id iv refreshIv : String) (input : RotateCredentialInput)
  | deleteCredential (id : String)
  | load (form : LoaderForm) (bindingId : BindingRef)
  | gitlabClientFactory (credentialRef : String)

/-- Another binding of the workspace has the GitLab project: the collection has a unique index. -/
def Taken (d : Deployment) (doc : BindingDoc) : Prop :=
  ∃ entry ∈ d.bindings.entries, entry.2.workspaceUuid = doc.workspaceUuid ∧
    entry.2.gitlabProjectId = doc.gitlabProjectId

instance (d : Deployment) (doc : BindingDoc) : Decidable (Taken d doc) :=
  inferInstanceAs (Decidable (∃ entry ∈ d.bindings.entries, _))

/-- The state a load leaves. -/
def runLoad (form : LoaderForm) (bindingId : BindingRef) (d : Deployment) : Deployment :=
  match form with
  | .issues => ((loadForIssues deps bindingId).run d).2
  | .notes => ((loadForNotes deps bindingId).run d).2
  | .mergeRequests => ((loadForMergeRequests deps bindingId).run d).2
  | .reviews => ((loadForReviews deps bindingId).run d).2
  | .epics => ((loadForEpics deps bindingId).run d).2
  | .pipelines => ((loadForPipelines deps bindingId).run d).2

def step (d : Deployment) : Action → Deployment
  | .createBinding id doc =>
      if id ∈ d.bindings.keys ∨ Taken d doc then d
      else { d with bindings := d.bindings.set id doc }
  | .putCredential id iv refreshIv now input =>
      match HulyGitlab.putCredential deps.cipher deps.encryptionKey d.credentials id iv refreshIv
        now input with
      | .ok credentials => { d with credentials := credentials }
      | .error _ => d
  | .rotateCredential id iv refreshIv input =>
      { d with
        credentials := HulyGitlab.rotateCredential deps.cipher deps.encryptionKey d.credentials
          id iv refreshIv input }
  | .deleteCredential id =>
      { d with credentials := HulyGitlab.deleteCredential d.credentials id }
  | .load form bindingId => runLoad deps form bindingId d
  | .gitlabClientFactory credentialRef =>
      ((Deployment.gitlabClientFactory deps credentialRef).run d).2

/-- A process that has just started on some stored bindings and credentials. -/
def start (bindings : OrderedMap BindingRef BindingDoc) (credentials : Credentials) : Deployment :=
  ⟨bindings, credentials, .empty, [], []⟩

/-- Every client built from a credential targets the instance recorded with it. -/
def TargetsIssuer (d : Deployment) : Prop :=
  ∀ entry ∈ d.clients, ∀ url, entry.1.gitlabBaseUrl = some url → entry.2.baseUrl = url

/-- The instance a workspace uses through a credential: the recorded one, or the default. -/
def issuerOf (credential : Option CredentialDoc) : String :=
  (credential.bind CredentialDoc.gitlabBaseUrl).getD deps.defaultGitlabBaseUrl

/-- The instances the loads of a workspace really use. -/
def issuers (d : Deployment) (workspaceUuid : String) : List String :=
  (d.loads.filter fun entry => entry.1 = workspaceUuid).map fun entry => issuerOf deps entry.2

/-- The registry records as many base URLs as the workspace really uses. -/
def RegistryCounts (d : Deployment) : Prop :=
  ∀ workspaceUuid, (d.loader.baseUrls workspaceUuid).elems.length =
    (issuers deps d workspaceUuid).dedup.length

/-- Every client was built from a credential without a recorded instance, or of the default one. -/
def DefaultIssued (d : Deployment) : Prop :=
  ∀ entry ∈ d.clients, ∀ url, entry.1.gitlabBaseUrl = some url → url = deps.defaultGitlabBaseUrl

/-- No workspace uses credentials of two instances. -/
def OneIssuer (d : Deployment) : Prop :=
  ∀ a ∈ d.loads, ∀ b ∈ d.loads, a.1 = b.1 → issuerOf deps a.2 = issuerOf deps b.2

/-- The loader knows no base URL but the default one. -/
structure DefaultOnly (d : Deployment) : Prop where
  clients : ∀ entry ∈ d.clients, entry.2.baseUrl = deps.defaultGitlabBaseUrl
  baseUrls : ∀ workspaceUuid, (d.loader.baseUrls workspaceUuid).elems =
    if workspaceUuid ∈ d.loads.map Prod.fst then [deps.defaultGitlabBaseUrl] else []

/-- What a computation of the loader keeps. -/
def Keeps (d d' : Deployment) : Prop := DefaultOnly deps d → DefaultOnly deps d'

namespace Keeps

theorem refl (d : Deployment) : Keeps deps d d := fun h => h

theorem trans (a b c : Deployment) (h : Keeps deps a b) (h' : Keeps deps b c) :
    Keeps deps a c := fun ha => h' (h ha)

end Keeps

/-- The resolver never returns the recorded base URL. -/
theorem resolve_run {credentialRef : String} {d d' : Deployment} {cred : ResolvedCredential}
    (h : (resolve deps credentialRef).run d = (.ok (some cred), d')) :
    cred.gitlabBaseUrl = none := by
  have hres : CredentialResolver.resolve deps.cipher deps.encryptionKey d.credentials
      credentialRef = .ok (some cred) := (Prod.mk.inj h).1
  exact (CredentialResolver.resolve_eq_some hres).1

theorem resolve_keeps (credentialRef : String) : Within (Keeps deps) (resolve deps credentialRef) :=
  fun d => Keeps.refl deps d

theorem resolveBinding_keeps (bindingId : BindingRef) :
    Within (Keeps deps) (resolveBinding bindingId) := by
  intro d
  unfold resolveBinding
  rw [step_run]
  cases d.bindings.get? bindingId with
  | none => exact Keeps.refl deps d
  | some binding => exact Keeps.refl deps d

theorem newClient_keeps (credentialRef token : String) :
    Within (Keeps deps) (newClient credentialRef deps.defaultGitlabBaseUrl token) := by
  intro d h
  refine ⟨fun entry hentry => ?_, h.baseUrls⟩
  obtain hold | hnew := List.mem_append.mp hentry
  · exact h.clients entry hold
  · obtain ⟨doc, -, rfl⟩ := List.mem_map.mp hnew
    rfl

theorem register_keeps (bindingId : BindingRef) (binding : BindingDoc) :
    Within (Keeps deps) (register deps bindingId binding deps.defaultGitlabBaseUrl) := by
  intro d h
  refine ⟨h.clients, fun ws => ?_⟩
  have hurls := h.baseUrls ws
  simp only [register, step_run, BindingLoader.baseUrls_registerBinding,
    BindingLoader.baseUrls_registerBaseUrl, List.map_append, List.map_cons, List.map_nil,
    List.mem_append, List.mem_singleton]
  by_cases hws : ws = binding.workspaceUuid
  · rw [if_pos hws, if_pos (Or.inr hws)]
    by_cases hmem : ws ∈ d.loads.map Prod.fst
    · rw [if_pos hmem] at hurls
      have hin : deps.defaultGitlabBaseUrl ∈ (d.loader.baseUrls ws).elems := by simp [hurls]
      unfold OrderedSet.add
      rw [dif_pos hin, hurls]
    · rw [if_neg hmem] at hurls
      have hout : deps.defaultGitlabBaseUrl ∉ (d.loader.baseUrls ws).elems := by simp [hurls]
      rw [OrderedSet.elems_add_of_not_mem _ hout, hurls]
      rfl
  · rw [if_neg hws, hurls]
    simp only [hws, or_false]

theorem contextOf_keeps (binding : BindingDoc) (gitlabClient : GitLabClient) (isMulti : Bool) :
    Within (Keeps deps) (contextOf deps binding gitlabClient isMulti) := by
  apply Within.bind (Keeps.trans deps) (Within.ofExcept (Keeps.refl deps) _)
  intro _
  apply Within.bind (Keeps.trans deps) (Within.ofExcept (Keeps.refl deps) _)
  intro project
  cases project.2 with
  | nil => exact Within.throw (Keeps.refl deps) _
  | cons task rest => exact Within.pure (Keeps.refl deps) _

theorem loadInternal_keeps (bindingId : BindingRef) :
    Within (Keeps deps) (loadInternal deps bindingId) := by
  apply Within.bind (Keeps.trans deps) (resolveBinding_keeps deps bindingId)
  intro binding
  apply Within.bind_of (Keeps.trans deps) (resolve_keeps deps _)
  intro d credential d' hrun
  cases credential with
  | none => exact Keeps.refl deps d'
  | some credential =>
    have hbind : Within (Keeps deps) (do
        let gitlabClient ← newClient binding.credentialRef deps.defaultGitlabBaseUrl
          credential.token
        let isMulti ← register deps bindingId binding deps.defaultGitlabBaseUrl
        let bctx ← contextOf deps binding gitlabClient isMulti
        pure (bctx, gitlabClient)) := by
      apply Within.bind (Keeps.trans deps) (newClient_keeps deps _ _)
      intro gitlabClient
      apply Within.bind (Keeps.trans deps) (register_keeps deps _ _)
      intro isMulti
      apply Within.bind (Keeps.trans deps) (contextOf_keeps deps _ _ _)
      intro bctx
      exact Within.pure (Keeps.refl deps) _
    have hurl : credential.gitlabBaseUrl.getD deps.defaultGitlabBaseUrl =
        deps.defaultGitlabBaseUrl := by rw [resolve_run deps hrun, Option.getD_none]
    dsimp only
    rw [hurl]
    exact hbind d'

theorem loadForPipelines_keeps (bindingId : BindingRef) :
    Within (Keeps deps) (loadForPipelines deps bindingId) := by
  apply Within.bind (Keeps.trans deps) (resolveBinding_keeps deps bindingId)
  intro binding
  apply Within.bind_of (Keeps.trans deps) (resolve_keeps deps _)
  intro d credential d' hrun
  have hurl : (credential.bind ResolvedCredential.gitlabBaseUrl).getD deps.defaultGitlabBaseUrl =
      deps.defaultGitlabBaseUrl := by
    cases credential with
    | none => rfl
    | some cred =>
      rw [Option.bind_some, resolve_run deps hrun, Option.getD_none]
  rw [hurl]
  have hrest : Within (Keeps deps) (do
      let isMulti ← register deps bindingId binding deps.defaultGitlabBaseUrl
      Effect.ofExcept (deps.getOrCreateWorkspaceEntry binding.workspaceUuid)
      pure (⟨binding.workspaceUuid, binding.gitlabProjectId, binding.hulyProjectRef,
        deps.defaultGitlabBaseUrl, isMulti⟩ : PipelineBindingContext)) := by
    apply Within.bind (Keeps.trans deps) (register_keeps deps _ _)
    intro isMulti
    apply Within.bind (Keeps.trans deps) (Within.ofExcept (Keeps.refl deps) _)
    intro _
    exact Within.pure (Keeps.refl deps) _
  exact hrest d'

theorem gitlabClientFactory_keeps (credentialRef : String) :
    Within (Keeps deps) (gitlabClientFactory deps credentialRef) := by
  apply Within.bind_of (Keeps.trans deps) (resolve_keeps deps _)
  intro d cred d' hrun
  cases cred with
  | none => exact Keeps.refl deps d'
  | some cred =>
    have hurl : cred.gitlabBaseUrl.getD deps.defaultGitlabBaseUrl = deps.defaultGitlabBaseUrl := by
      rw [resolve_run deps hrun, Option.getD_none]
    dsimp only
    rw [hurl]
    exact newClient_keeps deps credentialRef cred.token d'

theorem step_defaultOnly (d : Deployment) (act : Action) (h : DefaultOnly deps d) :
    DefaultOnly deps (step deps d act) := by
  cases act with
  | createBinding id doc =>
    simp only [step]
    split_ifs
    · exact h
    · exact ⟨h.clients, h.baseUrls⟩
  | putCredential id iv refreshIv now input =>
    simp only [step]
    cases HulyGitlab.putCredential deps.cipher deps.encryptionKey d.credentials id iv refreshIv
        now input with
    | ok credentials => exact ⟨h.clients, h.baseUrls⟩
    | error e => exact h
  | rotateCredential id iv refreshIv input => exact ⟨h.clients, h.baseUrls⟩
  | deleteCredential id => exact ⟨h.clients, h.baseUrls⟩
  | load form bindingId =>
    cases form with
    | pipelines => exact loadForPipelines_keeps deps bindingId d h
    | _ => exact loadInternal_keeps deps bindingId d h
  | gitlabClientFactory credentialRef => exact gitlabClientFactory_keeps deps credentialRef d h

/-- In every run the loader and the factory use the default instance only. -/
theorem exec_defaultOnly (bindings : OrderedMap BindingRef BindingDoc) (credentials : Credentials)
    (acts : List Action) :
    DefaultOnly deps (Transition.exec (step deps) (start bindings credentials) acts) := by
  apply Transition.exec_invariant' (fun d act h => step_defaultOnly deps d act h)
  exact ⟨fun entry h => absurd h List.not_mem_nil, fun ws => rfl⟩

theorem mem_issuers {d : Deployment} {workspaceUuid url : String} :
    url ∈ issuers deps d workspaceUuid ↔
      ∃ entry ∈ d.loads, entry.1 = workspaceUuid ∧ issuerOf deps entry.2 = url := by
  simp [issuers, and_assoc]

/-- A nonempty list has one distinct element exactly when all its elements are the same. -/
theorem length_dedup_eq_one_iff {xs : List String} (hne : xs ≠ []) :
    xs.dedup.length = 1 ↔ ∀ a ∈ xs, ∀ b ∈ xs, a = b := by
  constructor
  · intro h a ha b hb
    obtain ⟨c, hc⟩ := List.length_eq_one_iff.mp h
    have ha' : a ∈ xs.dedup := List.mem_dedup.mpr ha
    have hb' : b ∈ xs.dedup := List.mem_dedup.mpr hb
    rw [hc, List.mem_singleton] at ha' hb'
    rw [ha', hb']
  · intro h
    obtain ⟨c, rest, rfl⟩ := List.exists_cons_of_ne_nil hne
    have hall : ∀ b ∈ (c :: rest).dedup, b = c := fun b hb =>
      h b (List.mem_dedup.mp hb) c List.mem_cons_self
    have hrep : (c :: rest).dedup = List.replicate (c :: rest).dedup.length c :=
      List.eq_replicate_of_mem hall
    have hle : (c :: rest).dedup.length ≤ 1 := by
      apply List.nodup_replicate.mp
      rw [← hrep]
      exact List.nodup_dedup _
    have hpos : 0 < (c :: rest).dedup.length :=
      List.length_pos_of_mem (List.mem_dedup.mpr List.mem_cons_self)
    omega

theorem targetsIssuer_iff {d : Deployment} (h : DefaultOnly deps d) :
    TargetsIssuer d ↔ DefaultIssued deps d := by
  constructor
  · intro ht entry hentry url hurl
    exact (ht entry hentry url hurl).symm.trans (h.clients entry hentry)
  · intro hd entry hentry url hurl
    exact (h.clients entry hentry).trans (hd entry hentry url hurl).symm

theorem registryCounts_iff {d : Deployment} (h : DefaultOnly deps d) :
    RegistryCounts deps d ↔ OneIssuer deps d := by
  have hnil : ∀ ws, issuers deps d ws = [] ↔ ws ∉ d.loads.map Prod.fst := by
    intro ws
    rw [issuers, List.map_eq_nil_iff, List.filter_eq_nil_iff]
    constructor
    · intro h hmem
      obtain ⟨entry, hentry, rfl⟩ := List.mem_map.mp hmem
      simpa using h entry hentry
    · intro h entry hentry
      have hne : entry.1 ≠ ws := fun e => h (e ▸ List.mem_map_of_mem hentry)
      simpa using hne
  constructor
  · intro hc a ha b hb hab
    have hmem : a.1 ∈ d.loads.map Prod.fst := List.mem_map_of_mem ha
    have hlen := hc a.1
    rw [h.baseUrls, if_pos hmem, List.length_singleton] at hlen
    have hne : issuers deps d a.1 ≠ [] := fun he => (hnil a.1).mp he hmem
    apply (length_dedup_eq_one_iff hne).mp hlen.symm
    · exact (mem_issuers deps).mpr ⟨a, ha, rfl, rfl⟩
    · exact (mem_issuers deps).mpr ⟨b, hb, hab.symm, rfl⟩
  · intro ho ws
    rw [h.baseUrls]
    by_cases hmem : ws ∈ d.loads.map Prod.fst
    · have hne : issuers deps d ws ≠ [] := fun he => (hnil ws).mp he hmem
      rw [if_pos hmem, List.length_singleton]
      refine ((length_dedup_eq_one_iff hne).mpr fun a ha b hb => ?_).symm
      obtain ⟨x, hx, hxw, rfl⟩ := (mem_issuers deps).mp ha
      obtain ⟨y, hy, hyw, rfl⟩ := (mem_issuers deps).mp hb
      exact ho x hx y hy (hxw.trans hyw.symm)
    · rw [if_neg hmem, (hnil ws).mpr hmem]
      rfl

/-- When the clients of a run go to the instances that issued their credentials. -/
theorem issued_iff (bindings : OrderedMap BindingRef BindingDoc) (credentials : Credentials)
    (acts : List Action) :
    let d := Transition.exec (step deps) (start bindings credentials) acts
    TargetsIssuer d ∧ RegistryCounts deps d ↔ DefaultIssued deps d ∧ OneIssuer deps d := by
  intro d
  have h : DefaultOnly deps d := exec_defaultOnly deps bindings credentials acts
  exact and_congr (targetsIssuer_iff deps h) (registryCounts_iff deps h)

/-- The token of another instance is sent to the default one. -/
theorem not_targetsIssuer_of_other_instance :
    let cipher : Cipher := ⟨fun plaintext iv _ => ⟨plaintext, iv, ""⟩, fun enc _ => .ok enc.ciphertext,
      fun _ _ _ => rfl⟩
    let deps : LoaderDeps := ⟨cipher, "key", "https://gitlab.com", id, fun _ => none,
      fun _ => .ok (), fun _ => .ok ([], ["task"])⟩
    let binding : BindingDoc := ⟨"ws", "project", 7, "group/project", "cred", false⟩
    let input : PutCredentialInput := ⟨.oauth, "token", none, none, some "https://gitlab.example",
      some "ws"⟩
    let d := Transition.exec (step deps) (start .empty .empty)
      [.putCredential "cred" "iv" "iv'" 0 input, .createBinding "b" binding, .load .issues "b"]
    d.clients.map (fun entry => (entry.1.gitlabBaseUrl, entry.2)) =
        [(some "https://gitlab.example", ⟨"https://gitlab.com", "token"⟩)] ∧
      ¬ (TargetsIssuer d ∧ RegistryCounts deps d) := by
  intro cipher deps binding input d
  have hclients : d.clients.map (fun entry => (entry.1.gitlabBaseUrl, entry.2)) =
      [(some "https://gitlab.example", ⟨"https://gitlab.com", "token"⟩)] := by decide +kernel
  refine ⟨hclients, fun h => ?_⟩
  have hmem : (some "https://gitlab.example", (⟨"https://gitlab.com", "token"⟩ : GitLabClient)) ∈
      d.clients.map fun entry => (entry.1.gitlabBaseUrl, entry.2) := by
    rw [hclients]
    exact List.mem_singleton_self _
  obtain ⟨entry, hentry, heq⟩ := List.mem_map.mp hmem
  have htarget := h.1 entry hentry "https://gitlab.example" (Prod.mk.inj heq).1
  rw [(Prod.mk.inj heq).2] at htarget
  exact absurd htarget (by decide)

end Deployment

end HulyGitlab
