import HulyGitlab.Sync.BindingLoader
import HulyGitlab.Sync.Frames
import HulyGitlab.Sync.MirrorCounts
import HulyGitlab.Sync.TxSubscription

/-!
# Keys of the id map over loads and restarts

The registries of the loader live in the process, the id map outlives it. A key
depends on what the registry of base URLs holds at the load; it holds no more
than the default instance, so every load spells the key of an object alike.
-/

namespace HulyGitlab

open Effect

/-! ### Loads -/

namespace Deployment

variable (deps : LoaderDeps)

/-- A process that starts anew on what is stored. -/
def restart (d : Deployment) : Deployment := start d.bindings d.credentials

/-- A load of the binding returns the context. -/
def Loads (d : Deployment) (bindingId : BindingRef) (bctx : BindingContext) : Prop :=
  ∃ gitlabClient d', (loadInternal deps bindingId).run d = (.ok (bctx, gitlabClient), d')

/-- A load that can be evaluated. -/
theorem loads_of_run {d : Deployment} {bindingId : BindingRef} {bctx : BindingContext}
    (h : ((loadInternal deps bindingId).run d).1.toOption.map Prod.fst = some bctx) :
    Loads deps d bindingId bctx := by
  obtain ⟨loaded, hloaded, rfl⟩ := Option.map_eq_some_iff.mp h
  cases hrun : (loadInternal deps bindingId).run d with
  | mk r d' =>
    rw [hrun] at hloaded
    cases r with
    | error e => cases hloaded
    | ok found =>
      obtain rfl := Option.some.inj hloaded
      exact ⟨found.2, d', hrun⟩

theorem defaultOnly_restart (d : Deployment) : DefaultOnly deps d.restart :=
  ⟨fun _ h => absurd h List.not_mem_nil, fun _ => rfl⟩

/-- A registry with the default instance only is that of a single instance. -/
theorem not_isMultiInstance {d : Deployment} (h : DefaultOnly deps d) (workspaceUuid : String) :
    d.loader.isMultiInstance workspaceUuid = false := by
  have hlen : (d.loader.baseUrls workspaceUuid).elems.length ≤ 1 := by
    rw [h.baseUrls workspaceUuid]
    split_ifs
    · exact Nat.le_refl 1
    · exact Nat.zero_le 1
  apply decide_eq_false
  omega

theorem register_single {d d' : Deployment} {bindingId : BindingRef} {binding : BindingDoc}
    {isMulti : Bool} (h : DefaultOnly deps d)
    (hrun : (register deps bindingId binding deps.defaultGitlabBaseUrl).run d = (.ok isMulti, d')) :
    isMulti = false := by
  have hkept := register_keeps deps bindingId binding d h
  have hmulti := not_isMultiInstance deps hkept binding.workspaceUuid
  exact (Except.ok.inj (Prod.mk.inj hrun).1).symm.trans hmulti

theorem resolveBinding_ok {d d' : Deployment} {bindingId : BindingRef} {binding : BindingDoc}
    (hrun : (resolveBinding bindingId).run d = (.ok binding, d')) :
    d.bindings.get? bindingId = some binding := by
  unfold resolveBinding at hrun
  rw [step_run] at hrun
  cases hget : d.bindings.get? bindingId with
  | none =>
    rw [hget] at hrun
    cases hrun
  | some found =>
    rw [hget] at hrun
    cases hrun
    rfl

/-- A context is that of the binding, and of a single instance. -/
theorem loads_single {d : Deployment} {bindingId : BindingRef} {bctx : BindingContext}
    (h : DefaultOnly deps d) (hload : Loads deps d bindingId bctx) :
    bctx.isMultiInstanceWorkspace = false ∧ ∃ binding, d.bindings.get? bindingId = some binding ∧
      bctx.workspaceUuid = binding.workspaceUuid ∧
      bctx.gitlabProjectId = binding.gitlabProjectId := by
  obtain ⟨gitlabClient, d', hrun⟩ := hload
  unfold loadInternal at hrun
  obtain ⟨binding, d₁, hbinding, hrun⟩ := bind_ok_iff.mp hrun
  have hfound := resolveBinding_ok hbinding
  have h₁ : DefaultOnly deps d₁ := Within.of_run (resolveBinding_keeps deps _) hbinding h
  obtain ⟨credential, d₂, hresolve, hrun⟩ := bind_ok_iff.mp hrun
  have h₂ : DefaultOnly deps d₂ := Within.of_run (resolve_keeps deps _) hresolve h₁
  cases credential with
  | none => cases hrun
  | some credential =>
    have hurl := resolve_run deps hresolve
    dsimp only at hrun
    rw [hurl, Option.getD_none] at hrun
    obtain ⟨client, d₃, hclient, hrun⟩ := bind_ok_iff.mp hrun
    have h₃ : DefaultOnly deps d₃ := Within.of_run (newClient_keeps deps _ _) hclient h₂
    obtain ⟨isMulti, d₄, hregister, hrun⟩ := bind_ok_iff.mp hrun
    have hsingle : isMulti = false := register_single deps h₃ hregister
    obtain ⟨found, d₅, hcontext, hrun⟩ := bind_ok_iff.mp hrun
    obtain ⟨_, d₆, -, hcontext⟩ := bind_ok_iff.mp hcontext
    obtain ⟨project, d₇, -, hcontext⟩ := bind_ok_iff.mp hcontext
    cases htasks : project.2 with
    | nil =>
      rw [htasks] at hcontext
      cases hcontext
    | cons task rest =>
      rw [htasks] at hcontext
      cases hcontext
      cases hrun
      exact ⟨hsingle, binding, hfound, rfl, rfl⟩

/-- The context of the pipelines is no other. -/
theorem loadForPipelines_single {d d' : Deployment} {bindingId : BindingRef}
    {pctx : PipelineBindingContext} (h : DefaultOnly deps d)
    (hrun : (loadForPipelines deps bindingId).run d = (.ok pctx, d')) :
    pctx.isMultiInstanceWorkspace = false := by
  unfold loadForPipelines at hrun
  obtain ⟨binding, d₁, hbinding, hrun⟩ := bind_ok_iff.mp hrun
  have h₁ : DefaultOnly deps d₁ := Within.of_run (resolveBinding_keeps deps _) hbinding h
  obtain ⟨credential, d₂, hresolve, hrun⟩ := bind_ok_iff.mp hrun
  have h₂ : DefaultOnly deps d₂ := Within.of_run (resolve_keeps deps _) hresolve h₁
  have hurl : (credential.bind ResolvedCredential.gitlabBaseUrl).getD deps.defaultGitlabBaseUrl =
      deps.defaultGitlabBaseUrl := by
    cases credential with
    | none => rfl
    | some cred => rw [Option.bind_some, resolve_run deps hresolve, Option.getD_none]
  rw [hurl] at hrun
  obtain ⟨isMulti, d₃, hregister, hrun⟩ := bind_ok_iff.mp hrun
  obtain ⟨_, d₄, -, hrun⟩ := bind_ok_iff.mp hrun
  cases hrun
  exact register_single deps h₂ hregister

end Deployment

/-! ### Local changes -/

section Local

variable (env : Env) {A B : Type}

/-- Every run keeps the keys. -/
abbrev Pushing {A : Type} (c : Sync A) : Prop := Within KeepsKeys c

theorem Pushing.of_writes {parts : List Part} {c : Sync A} (h : Writes parts c)
    (hidmap : .idmap ∉ parts) : Pushing c :=
  fun w => KeepsKeys.of_same (h.same hidmap w)

theorem Pushing.bind {c : Sync A} {f : A → Sync B} (hc : Pushing c) (hf : ∀ a, Pushing (f a)) :
    Pushing (c >>= f) :=
  Within.bind KeepsKeys.trans hc hf

/-- An upsert leaves a row under every key. -/
theorem Pushing.upsertIdMap (doc : IdMapDoc) : Pushing (Sync.upsertIdMap env doc) := by
  intro w
  obtain ⟨e, hrun⟩ | ⟨idmap, hup, hrun⟩ := Sync.upsertIdMap_cases env doc w
  · rw [hrun]
    exact KeepsKeys.refl w
  · rw [hrun]
    intro row hrow _
    by_cases hkey : row.gitlabKey = doc.gitlabKey
    · exact ⟨doc, (IdMap.mem_of_upsert hup).mpr (by simp), hkey.symm⟩
    · exact ⟨row, (IdMap.mem_of_upsert hup).mpr (by simp [hrow, hkey]), rfl⟩

/-- What a local change may write besides the rows. -/
abbrev pushParts : List Part := [.cursors, .docs, .statusCache, .requests]

/-- What it may write before it comes to its cursor. -/
abbrev sendParts : List Part := [.docs, .statusCache, .requests]

theorem Pushing.of_push {c : Sync A} (h : Writes pushParts c) : Pushing c :=
  Pushing.of_writes h (by decide)

theorem Pushing.request (r : GitLabRequest) : Pushing (Sync.request env r) :=
  Pushing.of_push (Writes.request env (by decide) r)

theorem Issues.remoteBody_writes (bctx : BindingContext) (change : Fields) :
    Writes sendParts (Issues.remoteBody env bctx change) := by
  apply Writes.bind (Writes.remoteLabels env (by decide) _ _)
  intro labelNames
  apply Writes.bind (Writes.remoteMilestoneId env (by decide) _ _)
  intro milestoneId
  apply Writes.bind
  · exact Writes.ite (Writes.pure _) (Writes.bind (Writes.mapHulyStatus env (by decide) _ _ _)
      fun _ => Writes.pure _)
  · intro stateEvent
    exact Writes.bind (Writes.remoteDescription env _ _ _) fun _ => Writes.pure _

theorem Issues.applyLocal_keeps (binding : BindingRef) (doc : String) (change : Fields) :
    Pushing (Issues.applyLocal env binding doc change) := by
  unfold Issues.applyLocal
  apply Pushing.bind (Pushing.of_writes (Writes.loadBinding env _) List.not_mem_nil)
  intro bctx
  apply Pushing.bind (Pushing.of_writes (Writes.findByHuly env _ _ _) List.not_mem_nil)
  intro mapping
  apply Pushing.bind (Pushing.of_writes (Issues.remoteBody_writes env _ _) (by decide))
  intro body
  cases mapping with
  | none =>
    apply Within.ite
    · intro _
      exact Within.pure KeepsKeys.refl _
    · intro _
      apply Pushing.bind (Pushing.request env _)
      intro created
      apply Pushing.bind (Within.ofExcept KeepsKeys.refl _)
      intro iid
      apply Pushing.bind (Pushing.upsertIdMap env _)
      intro _
      exact Pushing.of_push (Writes.bind (Writes.gets _) fun _ =>
        Writes.setCursor env (by decide) _ _ _)
  | some row =>
    dsimp only
    apply Pushing.of_push
    cases parseIid row.gitlabId with
    | none => exact Writes.pure _
    | some iid =>
      exact Writes.ite (Writes.pure _) (Writes.bind (Writes.request env (by decide) _) fun _ =>
        Writes.bind (Writes.gets _) fun _ => Writes.setCursor env (by decide) _ _ _)

theorem MRApprovals.invokeApprovalAction_writes (bctx : BindingContext) (issueRef : Ref) (iid : Int)
    (kind : MRApprovals.ApprovalAction) (person : JsValue) :
    Writes sendParts (MRApprovals.invokeApprovalAction env bctx issueRef iid kind person) := by
  have hpost : ∀ body, Writes sendParts (MRApprovals.postComment env bctx issueRef body) :=
    fun body => Writes.attempt (Writes.bind (Writes.createDoc env (by decide) _ _ _)
      fun _ => Writes.pure _) fun _ => Writes.pure _
  apply Writes.bind (Writes.ofExcept _)
  intro token
  apply Writes.bind (Writes.ofExcept _)
  intro _
  apply Writes.bind
  · exact Writes.attempt (Writes.bind (Writes.request env (by decide) _) fun _ => Writes.pure _)
      fun _ => Writes.pure _
  · intro done
    exact Writes.ite (Writes.ite (hpost _) (Writes.pure _)) (hpost _)

theorem MergeRequests.pushChange_writes (bctx : BindingContext) (hulyRef : Ref) (iid : Int)
    (change : Fields) :
    Writes sendParts (MergeRequests.pushChange env bctx hulyRef iid change) := by
  apply Writes.bind
  · apply Writes.bind (Writes.remoteLabels env (by decide) _ _)
    intro labelNames
    apply Writes.bind (Writes.remoteMilestoneId env (by decide) _ _)
    intro milestoneId
    exact Writes.bind (Writes.remoteDescription env _ _ _) fun _ => Writes.pure _
  · intro body
    apply Writes.bind (Writes.ite (Writes.pure _) (Writes.bind (Writes.request env (by decide) _)
      fun _ => Writes.pure _))
    intro _
    apply Writes.bind ?_ fun _ => Writes.pure _
    apply Writes.ite (Writes.pure _)
    apply Writes.bind (Writes.findOne env _ _)
    intro hulyIssue
    apply Writes.bind (Writes.ofExcept _)
    intro current
    apply Writes.bind (Writes.ofExcept _)
    intro incoming
    exact Writes.bind
      (Writes.forEach fun _ => MRApprovals.invokeApprovalAction_writes env _ _ _ _ _)
      fun _ => Writes.forEach fun _ => MRApprovals.invokeApprovalAction_writes env _ _ _ _ _

theorem MergeRequests.applyLocal_writes (binding : BindingRef) (doc : String) (change : Fields) :
    Writes pushParts (MergeRequests.applyLocal env binding doc change) := by
  unfold MergeRequests.applyLocal
  apply Writes.bind (Writes.loadBinding env _)
  intro bctx
  apply Writes.bind (Writes.findByHuly env _ _ _)
  intro mapping
  cases mapping with
  | none => exact Writes.pure _
  | some row =>
    dsimp only
    cases parseIid row.gitlabId with
    | none => exact Writes.pure _
    | some iid =>
      apply Writes.bind ((MergeRequests.pushChange_writes env _ _ _ _).mono (by decide))
      intro touchedRemote
      exact Writes.ite (Writes.bind (Writes.gets _) fun _ => Writes.setCursor env (by decide) _ _ _)
        (Writes.pure _)

theorem Notes.touchCursor_writes (binding : BindingRef) :
    Writes pushParts (Notes.touchCursor env binding) :=
  Writes.bind (Writes.gets _) fun _ => Writes.setCursor env (by decide) _ _ _

theorem Notes.resolveParent_writes (bctx : BindingContext) (change : Fields) :
    Writes sendParts (Notes.resolveParent env bctx change) := by
  apply Writes.ite (Writes.pure _)
  apply Writes.bind (Writes.findByHuly env _ _ _)
  intro parentMap
  cases parentMap with
  | none => exact Writes.pure _
  | some row =>
    dsimp only
    cases parseProjectIid row.gitlabId with
    | none => exact Writes.pure _
    | some found => exact Writes.pure _

theorem Notes.changeRemote_writes (binding : BindingRef) (bctx : BindingContext) (noteId : Int)
    (parent : LocalParent) (change : Fields) :
    Writes pushParts (Notes.changeRemote env binding bctx noteId parent change) := by
  unfold Notes.changeRemote
  apply Writes.ite (Writes.pure _)
  apply Writes.ite
  · exact Writes.bind (Writes.ofExcept _) fun _ => Writes.bind (Writes.request env (by decide) _)
      fun _ => Notes.touchCursor_writes env _
  · apply Writes.ite ?_ (Writes.pure _)
    exact Writes.bind (Writes.ofExcept _) fun _ => Writes.bind (Writes.ofExcept _) fun _ =>
      Writes.bind (Writes.request env (by decide) _) fun _ => Notes.touchCursor_writes env _

theorem Notes.createRemote_keeps (binding : BindingRef) (bctx : BindingContext) (hulyRef : Ref)
    (parent : LocalParent) (message : JsValue) :
    Pushing (Notes.createRemote env binding bctx hulyRef parent message) := by
  apply Within.ite
  · intro _
    exact Within.pure KeepsKeys.refl _
  · intro _
    apply Pushing.bind (Within.ofExcept KeepsKeys.refl _)
    intro text
    apply Pushing.bind (Within.ofExcept KeepsKeys.refl _)
    intro iid
    apply Pushing.bind (Pushing.request env _)
    intro created
    apply Pushing.bind (Within.ofExcept KeepsKeys.refl _)
    intro id
    apply Pushing.bind (Pushing.upsertIdMap env _)
    intro _
    exact Pushing.of_push (Notes.touchCursor_writes env _)

theorem Notes.applyLocal_keeps (binding : BindingRef) (doc : String) (change : Fields) :
    Pushing (Notes.applyLocal env binding doc change) := by
  apply Within.ite
  · intro _
    exact Within.pure KeepsKeys.refl _
  · intro _
    apply Pushing.bind (Pushing.of_writes (Writes.loadBinding env _) List.not_mem_nil)
    intro bctx
    apply Pushing.bind (Pushing.of_writes (Writes.findByHuly env _ _ _) List.not_mem_nil)
    intro mapping
    apply Within.ite
    · intro _
      exact Within.pure KeepsKeys.refl _
    · intro _
      apply Pushing.bind (Pushing.of_writes (Notes.resolveParent_writes env _ _) (by decide))
      intro parent
      cases parent with
      | none => exact Within.pure KeepsKeys.refl _
      | some parent =>
        cases mapping with
        | none => exact Notes.createRemote_keeps env _ _ _ _ _
        | some row =>
          dsimp only
          cases parseIid row.gitlabId with
          | none => exact Within.pure KeepsKeys.refl _
          | some noteId =>
            exact Pushing.of_push (Notes.changeRemote_writes env _ _ _ _ _)

theorem Reviews.applyLocal_writes (binding : BindingRef) (doc : String) (change : Fields) :
    Writes pushParts (Reviews.applyLocal env binding doc change) := by
  apply Writes.ite (Writes.pure _)
  apply Writes.bind (Writes.loadBinding env _)
  intro bctx
  apply Writes.bind (Writes.findByHuly env _ _ _)
  intro mapping
  cases mapping with
  | none => exact Writes.pure _
  | some row =>
    apply Writes.ite (Writes.pure _)
    cases parseDiscussionNoteKey row.gitlabId with
    | none => exact Writes.pure _
    | some found =>
      apply Writes.ite (Writes.pure _)
      exact Writes.bind (Writes.ofExcept _) fun _ => Writes.bind (Writes.request env (by decide) _)
        fun _ => Writes.bind (Writes.gets _) fun _ => Writes.setCursor env (by decide) _ _ _

/-- No local change takes a key its row. -/
theorem TxSubscription.applyLocal_keeps (e : LocalEvent) :
    Pushing (TxSubscription.applyLocal env e) := by
  unfold TxSubscription.applyLocal
  cases e.kind with
  | issue => exact Issues.applyLocal_keeps env _ _ _
  | note => exact Notes.applyLocal_keeps env _ _ _
  | merge_request => exact Pushing.of_push (MergeRequests.applyLocal_writes env _ _ _)
  | review => exact Pushing.of_push (Reviews.applyLocal_writes env _ _ _)

end Local

/-! ### Runs with restarts -/

/-- The record belongs to the same project in both contexts, if it belongs to a project. -/
def RemoteRecord.SameProject (bctx bctx' : BindingContext) : RemoteRecord → Prop
  | .thread _ => True
  | .epic _ => True
  | _ => bctx'.gitlabProjectId = bctx.gitlabProjectId

/-- The process on its stores, and the platform. -/
structure Site where
  deployment : Deployment
  world : World

namespace Site

variable (deps : LoaderDeps) (env : Env)

inductive Action
  | deploy (act : Deployment.Action)
  | deleteBinding (id : BindingRef)
  /-- The registries and caches are lost, the stores are kept. -/
  | restart
  /-- Time passes, and users change documents. -/
  | elapse (now : Nat) (docs : OrderedMap Ref HulyDoc)
  /-- A record is dispatched, and calls may fail. -/
  | remote (binding : BindingRef) (r : RemoteRecord) (fault : World → Service → Option Err)
  | push (e : LocalEvent) (fault : World → Service → Option Err)

/-- The services of a handler whose binding is loaded. -/
def envFor (bctx : BindingContext) (fault : World → Service → Option Err) : Env :=
  { env with
    loadBinding := fun _ => .ok bctx
    fault := fault }

/-- A handler loads its binding first. -/
def handle (binding : BindingRef) (s : Site) (run : BindingContext → World → World) : Site :=
  let loaded := (Deployment.loadInternal deps binding).run s.deployment
  match loaded.1 with
  | .ok (bctx, _) => ⟨loaded.2, run bctx s.world⟩
  | .error _ => ⟨loaded.2, s.world⟩

def step (s : Site) : Action → Site
  | .deploy act => { s with deployment := Deployment.step deps s.deployment act }
  | .deleteBinding id =>
      ⟨{ s.deployment with bindings := s.deployment.bindings.delete id }, s.world⟩
  | .restart => ⟨s.deployment.restart, { s.world with statusCache := .empty }⟩
  | .elapse now docs => ⟨s.deployment, { s.world with now := now, docs := docs }⟩
  | .remote binding r fault =>
      handle deps binding s fun bctx w => ((r.applyRemote (envFor env bctx fault) binding).run w).2
  | .push e fault =>
      handle deps e.binding s fun bctx w =>
        ((TxSubscription.applyLocal (envFor env bctx fault) e).run w).2

/-- A first process on some stores. -/
def start (bindings : OrderedMap BindingRef BindingDoc) (credentials : Credentials) (w : World) :
    Site :=
  ⟨Deployment.start bindings credentials, w⟩

theorem handle_deployment (binding : BindingRef) (s : Site) (run : BindingContext → World → World) :
    (handle deps binding s run).deployment =
      ((Deployment.loadInternal deps binding).run s.deployment).2 := by
  unfold handle
  dsimp only
  split <;> rfl

theorem handle_world {R : World → World → Prop} (hr : ∀ w, R w w) (binding : BindingRef) (s : Site)
    {run : BindingContext → World → World} (hrun : ∀ bctx w, R w (run bctx w)) :
    R s.world (handle deps binding s run).world := by
  unfold handle
  dsimp only
  split
  · exact hrun _ _
  · exact hr _

theorem handle_of_loads {binding : BindingRef} {s : Site} {bctx : BindingContext}
    (hload : s.deployment.Loads deps binding bctx) (run : BindingContext → World → World) :
    (handle deps binding s run).world = run bctx s.world := by
  obtain ⟨gitlabClient, d', hrun⟩ := hload
  unfold handle
  rw [hrun]

theorem step_defaultOnly (s : Site) (act : Action) (h : s.deployment.DefaultOnly deps) :
    (step deps env s act).deployment.DefaultOnly deps := by
  cases act with
  | deploy act => exact Deployment.step_defaultOnly deps s.deployment act h
  | deleteBinding id => exact ⟨h.clients, h.baseUrls⟩
  | restart => exact Deployment.defaultOnly_restart deps s.deployment
  | elapse now docs => exact h
  | remote binding r fault =>
    rw [step, handle_deployment]
    exact Deployment.loadInternal_keeps deps binding s.deployment h
  | push e fault =>
    rw [step, handle_deployment]
    exact Deployment.loadInternal_keeps deps e.binding s.deployment h

theorem step_keepsKeys (s : Site) (act : Action) :
    KeepsKeys s.world (step deps env s act).world := by
  cases act with
  | deploy act => exact KeepsKeys.refl _
  | deleteBinding id => exact KeepsKeys.refl _
  | restart => exact KeepsKeys.of_same rfl
  | elapse now docs => exact KeepsKeys.of_same rfl
  | remote binding r fault =>
    apply handle_world deps KeepsKeys.refl
    intro bctx w
    have hgrowing : Within (Grows (r.mirror (envFor env bctx fault) bctx) bctx)
        (r.applyRemote (envFor env bctx fault) binding) := RemoteRecord.growing rfl r
    exact KeepsKeys.of_grows (hgrowing w)
  | push e fault =>
    apply handle_world deps KeepsKeys.refl
    intro bctx w
    exact TxSubscription.applyLocal_keeps (envFor env bctx fault) e w

theorem exec_defaultOnly (bindings : OrderedMap BindingRef BindingDoc) (credentials : Credentials)
    (w : World) (acts : List Action) :
    (Transition.exec (step deps env) (start bindings credentials w) acts).deployment.DefaultOnly
      deps := by
  apply Transition.exec_invariant' (I := fun s : Site => s.deployment.DefaultOnly deps)
  · exact step_defaultOnly deps env
  · exact ⟨fun _ h => absurd h List.not_mem_nil, fun _ => rfl⟩

theorem exec_keepsKeys (s : Site) (acts : List Action) :
    KeepsKeys s.world (Transition.exec (step deps env) s acts).world := by
  induction acts generalizing s with
  | nil => exact KeepsKeys.refl _
  | cons act rest ih => exact KeepsKeys.trans _ _ _ (step_keepsKeys deps env s act) (ih _)

end Site

/-- Without a prefix the objects of a record have the same keys in every context. -/
theorem RemoteRecord.mirror_congr (env : Env) {bctx bctx' : BindingContext}
    (h : bctx.isMultiInstanceWorkspace = false) (h' : bctx'.isMultiInstanceWorkspace = false)
    {r : RemoteRecord} (hproject : r.SameProject bctx bctx') :
    r.mirror env bctx' = r.mirror env bctx := by
  have hprefix : ∀ rawId, prefixGitlabIdForMultiInstance env bctx' rawId =
      prefixGitlabIdForMultiInstance env bctx rawId := by
    intro rawId
    rw [prefixGitlabIdForMultiInstance, prefixGitlabIdForMultiInstance, h, h']
    rfl
  have hkey : bctx'.gitlabProjectId = bctx.gitlabProjectId →
      projectKey env bctx' = projectKey env bctx := by
    intro hid
    ext id
    rw [projectKey, projectKey, hprefix, hid]
  cases r with
  | issue i =>
    show Issues.mirror env bctx' i = Issues.mirror env bctx i
    rw [Issues.mirror, Issues.mirror, Issues.mirrorObject, Issues.mirrorObject, hkey hproject]
  | mergeRequest m =>
    show MergeRequests.mirror env bctx' m = MergeRequests.mirror env bctx m
    rw [MergeRequests.mirror, MergeRequests.mirror, MergeRequests.mirrorObject,
      MergeRequests.mirrorObject, hkey hproject]
  | note rawRecord =>
    show Notes.mirror env bctx' rawRecord = Notes.mirror env bctx rawRecord
    rw [Notes.mirror, Notes.mirror, Notes.mirrorObject, Notes.mirrorObject, hkey hproject]
  | thread t => rfl
  | epic e =>
    show Epics.mirror env bctx' e = Epics.mirror env bctx e
    rw [Epics.mirror, Epics.mirror, Epics.mirrorObject, Epics.mirrorObject, Epics.epicKey,
      Epics.epicKey, hprefix]

namespace Site

variable (deps : LoaderDeps) (env : Env)

theorem mirror_envFor (bctx bctx' : BindingContext) (fault : World → Service → Option Err)
    (r : RemoteRecord) : r.mirror (envFor env bctx fault) bctx' = r.mirror env bctx' := by
  cases r <;> rfl

/-- At every two loads of a run the key of an object is the same, whatever was loaded and
restarted before and in between; what has a row at the first is found at the second, and gets no
second document. -/
theorem keys_stable (bindings : OrderedMap BindingRef BindingDoc) (credentials : Credentials)
    (w₀ : World) (earlier later : List Action) (binding binding' : BindingRef)
    (bctx bctx' : BindingContext) :
    let s := Transition.exec (step deps env) (start bindings credentials w₀) earlier
    let s' := Transition.exec (step deps env) s later
    s.deployment.Loads deps binding bctx → s'.deployment.Loads deps binding' bctx' →
    (∀ rawId, prefixGitlabIdForMultiInstance env bctx' rawId =
      prefixGitlabIdForMultiInstance env bctx rawId) ∧
    (∀ pctx d, (Deployment.loadForPipelines deps binding').run s'.deployment = (.ok pctx, d) →
      pctx.isMultiInstanceWorkspace = bctx.isMultiInstanceWorkspace) ∧
    ∀ r : RemoteRecord, r.SameProject bctx bctx' →
      r.mirror env bctx' = r.mirror env bctx ∧
      (bctx'.workspaceUuid = bctx.workspaceUuid →
        (∀ o ∈ (r.mirror env bctx).objects, ¬ (r.mirror env bctx).Lacks bctx o s.world →
          ¬ (r.mirror env bctx').Lacks bctx' o s'.world) ∧
        ∀ fault, Adds (r.mirror env bctx).objectClass
          ((r.mirror env bctx).lacking bctx s.world (r.mirror env bctx).objects)
          s'.world (step deps env s' (.remote binding' r fault)).world) := by
  intro s s' hload hload'
  have hs : s.deployment.DefaultOnly deps :=
    exec_defaultOnly deps env bindings credentials w₀ earlier
  have hs' : s'.deployment.DefaultOnly deps := by
    have h := exec_defaultOnly deps env bindings credentials w₀ (earlier ++ later)
    rwa [Transition.exec_append] at h
  obtain ⟨hsingle, -⟩ := Deployment.loads_single deps hs hload
  obtain ⟨hsingle', -⟩ := Deployment.loads_single deps hs' hload'
  have hkeeps : KeepsKeys s.world s'.world := exec_keepsKeys deps env s later
  refine ⟨fun rawId => ?_, fun pctx d hrun => ?_, fun r hproject => ?_⟩
  · rw [prefixGitlabIdForMultiInstance, prefixGitlabIdForMultiInstance, hsingle, hsingle']
    rfl
  · rw [hsingle]
    exact Deployment.loadForPipelines_single deps hs' hrun
  · have hmirror := RemoteRecord.mirror_congr env hsingle hsingle' hproject
    refine ⟨hmirror, fun hworkspace => ⟨fun o _ hmapped => ?_, fun fault => ?_⟩⟩
    · rw [hmirror]
      exact hkeeps.not_lacks hworkspace hmapped
    · rw [step, handle_of_loads deps hload']
      have hsparing : Sparing (r.mirror (envFor env bctx' fault) bctx') bctx'
          (r.mirror (envFor env bctx' fault) bctx').objects
          (r.applyRemote (envFor env bctx' fault) binding') := RemoteRecord.sparing rfl r
      rw [mirror_envFor, hmirror] at hsparing
      exact (hsparing s'.world).mono (hkeeps.lacking_le hworkspace _)

/-- The credentials of two instances, a binding for each, and the mirror of an issue. -/
def twoInstances : LoaderDeps × List Action × List Action :=
  let deps : LoaderDeps := ⟨.plain, "key", "https://gitlab", id, fun _ => none, fun _ => .ok (),
    fun _ => .ok (quietBinding.statuses, ["task"])⟩
  let credential (url : String) : PutCredentialInput :=
    ⟨.oauth, "token", none, none, some url, some "ws"⟩
  let earlier : List Action :=
    [.deploy (.putCredential "cred" "iv" "iv'" 0 (credential "https://gitlab")),
      .deploy (.putCredential "cred'" "iv" "iv'" 0 (credential "https://gitlab.example")),
      .deploy (.createBinding "b" ⟨"ws", "project", 7, "group/project", "cred", false⟩),
      .deploy (.createBinding "b'" ⟨"ws", "project'", 9, "group/project'", "cred'", false⟩),
      .remote "b" (.issue openedIssue) fun _ _ => none]
  let later : List Action := [.restart, .deploy (.load .issues "b'"), .deploy (.load .notes "b")]
  (deps, earlier, later)

/-- An issue mirrored before a restart and the load of a binding on another instance gets no second
document. -/
theorem keys_stable_twoInstances :
    let env := Env.quiet quietBinding
    let s := Transition.exec (step twoInstances.1 env) (start .empty .empty World.initial)
      twoInstances.2.1
    let s' := Transition.exec (step twoInstances.1 env) s twoInstances.2.2
    (refsOf issueClass s.world).length = 1 ∧
      Adds issueClass 0 s'.world
        (step twoInstances.1 env s' (.remote "b" (.issue openedIssue) fun _ _ => none)).world := by
  intro env s s'
  have hload : s.deployment.Loads twoInstances.1 "b" quietBinding :=
    Deployment.loads_of_run twoInstances.1 (by decide +kernel)
  have hload' : s'.deployment.Loads twoInstances.1 "b" quietBinding :=
    Deployment.loads_of_run twoInstances.1 (by decide +kernel)
  have hstable := (keys_stable twoInstances.1 env .empty .empty World.initial twoInstances.2.1
    twoInstances.2.2 "b" "b" quietBinding quietBinding hload hload').2.2 (.issue openedIssue) rfl
  have hlacking : ((RemoteRecord.issue openedIssue).mirror env quietBinding).lacking quietBinding
      s.world ((RemoteRecord.issue openedIssue).mirror env quietBinding).objects = 0 := by
    decide +kernel
  have hadds := (hstable.2 rfl).2 fun _ _ => none
  rw [hlacking] at hadds
  exact ⟨by decide +kernel, hadds⟩

end Site

end HulyGitlab
