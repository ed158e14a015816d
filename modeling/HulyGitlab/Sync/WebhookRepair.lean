import HulyGitlab.Sync.WebhookRegistration

/-!
# What registering a webhook again repairs

The hooks of a project also change without the program: somebody deletes one
on GitLab, or an answer is lost after GitLab has done what it was asked. The
binding and its secret stay fit for another registration through all of that.
-/

namespace HulyGitlab.BindingLifecycle

open Effect

/-- Every binding has a secret of its own, and is registered only with a hook. -/
structure Fit (deps : Deps) (s : Registrations) : Prop where
  secrets : ∀ id b, s.bindings.get? id = some b →
    ∃ secret, secretOf deps s b.webhookSecretRef = .ok (some secret)
  ownSecret : ∀ id id' b b', s.bindings.get? id = some b → s.bindings.get? id' = some b' →
    b.webhookSecretRef = b'.webhookSecretRef → id = id'
  registered : ∀ id b, s.bindings.get? id = some b → b.webhookRegistered = true →
    b.webhookId ≠ none

theorem fit_initial (deps : Deps) : Fit deps .initial where
  secrets := fun _ _ h => by cases h
  ownSecret := fun _ _ _ _ h => by cases h
  registered := fun _ _ h => by cases h

/-- A step that leaves a fit state fit. -/
def Fits (deps : Deps) (s s' : Registrations) : Prop := Fit deps s → Fit deps s'

section Fits

variable {deps : Deps} {s : Registrations}

theorem Fits.refl (s : Registrations) : Fits deps s s := fun h => h

theorem Fits.trans (s s' s'' : Registrations) (h : Fits deps s s') (h' : Fits deps s' s'') :
    Fits deps s s'' := fun hs => h' (h hs)

/-- The hooks do not matter. -/
theorem Fits.ofHooks (s : Registrations) (hooks : OrderedMap Nat Hook) (next : Nat) :
    Fits deps s { s with hooks := hooks, nextHookId := next } := fun hs =>
  ⟨hs.secrets, hs.ownSecret, hs.registered⟩

theorem createProjectWebhook_fits (ans : Answers) (body : Hook) :
    Within (Fits deps) (createProjectWebhook ans body) := by
  refine Within.step fun s => ?_
  cases ans.createHook with
  | some e => exact Fits.refl s
  | none => exact Fits.ofHooks s _ _

theorem deleteProjectWebhook_fits (ans : Answers) (projectId : Int) (hookId : Nat) :
    Within (Fits deps) (deleteProjectWebhook ans projectId hookId) := by
  refine Within.step fun s => ?_
  cases ans.deleteHook with
  | some e => exact Fits.refl s
  | none =>
    cases hookOf s projectId hookId with
    | error e => exact Fits.refl s
    | ok hook => exact Fits.ofHooks s _ _

theorem updateProjectWebhook_fits (ans : Answers) (projectId : Int) (hookId : Nat) (body : Hook) :
    Within (Fits deps) (updateProjectWebhook ans projectId hookId body) := by
  refine Within.step fun s => ?_
  cases ans.updateHook with
  | some e => exact Fits.refl s
  | none =>
    cases hookOf s projectId hookId with
    | error e => exact Fits.refl s
    | ok hook => exact Fits.ofHooks s _ _

/-- A binding may change its flags together. -/
theorem updateBinding_fits (id : String) {update : HookedBinding → HookedBinding}
    (hsecret : ∀ b, (update b).webhookSecretRef = b.webhookSecretRef)
    (hregistered : ∀ b, (update b).webhookRegistered = true → (update b).webhookId ≠ none) :
    Within (Fits deps) (updateBinding id update) := by
  refine Within.modify fun s => ?_
  cases hb : s.bindings.get? id with
  | none => exact Fits.refl s
  | some b =>
    intro hs
    have hget : ∀ {j bj}, (s.bindings.set id (update b)).get? j = some bj →
        ∃ old, s.bindings.get? j = some old ∧ bj.webhookSecretRef = old.webhookSecretRef ∧
          (bj.webhookRegistered = true → bj.webhookId ≠ none) := by
      intro j bj hj
      rw [OrderedMap.get?_set] at hj
      by_cases hid : j = id
      · rw [if_pos hid] at hj
        cases hj
        exact ⟨b, by rw [hid, hb], hsecret b, hregistered b⟩
      · rw [if_neg hid] at hj
        exact ⟨bj, hj, rfl, hs.registered j bj hj⟩
    refine ⟨fun j bj hj => ?_, fun j j' bj bj' hj hj' hsame => ?_, fun j bj hj => ?_⟩
    · obtain ⟨old, hold, href, -⟩ := hget hj
      rw [href]
      exact hs.secrets j old hold
    · obtain ⟨old, hold, href, -⟩ := hget hj
      obtain ⟨old', hold', href', -⟩ := hget hj'
      exact hs.ownSecret j j' old old' hold hold' (href.symm.trans (hsame.trans href'))
    · obtain ⟨-, -, -, hreg⟩ := hget hj
      exact hreg

theorem markUnregistered_fits (id : String) : Within (Fits deps) (markUnregistered id) :=
  updateBinding_fits id (fun _ => rfl) fun _ h => by cases h

theorem markRegistered_fits (id : String) (hookId : Nat) :
    Within (Fits deps) (markRegistered id hookId) := by
  refine updateBinding_fits id (fun _ => rfl) fun b _ => ?_
  exact Option.some_ne_none hookId

theorem getSecret_fits (ref : String) : Within (Fits deps) (getSecret deps ref) := by
  refine Within.step fun s => ?_
  cases secretOf deps s ref with
  | ok cred => exact Fits.refl s
  | error e => exact Fits.refl s

theorem refused_fits {onRefused : Lifecycle Unit} (h : Within (Fits deps) onRefused)
    (e : ApiFailure) : Within (Fits deps) (refused onRefused e) := by
  unfold refused
  cases e with
  | status statusCode message =>
    exact Within.ite (fun _ => h.bind Fits.trans fun _ => Within.pure Fits.refl _)
      fun _ => Within.throw Fits.refl _
  | other e => exact Within.throw Fits.refl _

theorem register_fits (ans : Answers) (id : String) (body : Hook) :
    Within (Fits deps) (register ans id body) :=
  (createProjectWebhook_fits ans body).bind Fits.trans fun _ =>
    (markRegistered_fits id _).bind Fits.trans fun _ => Within.pure Fits.refl _

theorem refresh_fits (ans : Answers) (id : String) (webhookId : Nat) (body : Hook) :
    Within (Fits deps) (refresh ans id webhookId body) :=
  (updateProjectWebhook_fits ans _ _ _).bind Fits.trans fun _ =>
    (markRegistered_fits id _).bind Fits.trans fun _ => Within.pure Fits.refl _

theorem onBindingCreate_fits (ans : Answers) (id : String) (b : HookedBinding) (url : String) :
    Within (Fits deps) (onBindingCreate deps ans id b url) := by
  unfold onBindingCreate
  refine (getSecret_fits _).bind Fits.trans fun secretCred => ?_
  cases secretCred with
  | none => exact Within.pure Fits.refl _
  | some cred =>
    cases ans.client with
    | error reason => exact Within.pure Fits.refl _
    | ok edition =>
      exact (register_fits ans id _).attempt Fits.trans (refused_fits (markUnregistered_fits id))

theorem rotateWebhookSecret_fits (ans : Answers) (id : String) (b : HookedBinding)
    (newSecret url : String) :
    Within (Fits deps) (rotateWebhookSecret ans id b newSecret url) := by
  unfold rotateWebhookSecret
  cases b.webhookId with
  | none => exact Within.pure Fits.refl _
  | some webhookId =>
    cases ans.client with
    | error reason => exact Within.pure Fits.refl _
    | ok edition =>
      refine ((deleteProjectWebhook_fits ans _ _).attempt Fits.trans
        fun _ => Within.pure Fits.refl _).bind Fits.trans fun _ => ?_
      refine (register_fits ans id _).attempt Fits.trans (refused_fits ?_)
      exact updateBinding_fits id (fun _ => rfl) fun _ h => by cases h

theorem reRegisterWebhook_fits (ans : Answers) (id : String) (b : HookedBinding) (url : String) :
    Within (Fits deps) (reRegisterWebhook deps ans id b url) := by
  unfold reRegisterWebhook
  cases b.webhookId with
  | none =>
    exact Within.ite (fun _ => Within.pure Fits.refl _) fun _ => onBindingCreate_fits ans id b url
  | some webhookId =>
    refine (getSecret_fits _).bind Fits.trans fun secretCred => ?_
    cases secretCred with
    | none => exact Within.pure Fits.refl _
    | some cred =>
      cases ans.client with
      | error reason => exact Within.pure Fits.refl _
      | ok edition =>
        exact (refresh_fits ans id _ _).attempt Fits.trans (refused_fits (markUnregistered_fits id))

theorem onBindingDelete_fits (ans : Answers) (b : HookedBinding) :
    Within (Fits deps) (onBindingDelete ans b) := by
  unfold onBindingDelete
  cases b.webhookId with
  | none => exact Within.pure Fits.refl _
  | some webhookId =>
    cases ans.client with
    | error reason => exact Within.pure Fits.refl _
    | ok edition =>
      exact (deleteProjectWebhook_fits ans _ _).attempt Fits.trans fun _ => Within.pure Fits.refl _

theorem withLifecycle_fits {otherwise : HookResult} {service : String → Lifecycle HookResult}
    (h : ∀ url, Within (Fits deps) (service url)) :
    Within (Fits deps) (withLifecycle deps otherwise service) := by
  unfold withLifecycle
  split
  · exact h _
  · exact Within.pure Fits.refl _

theorem getBinding_fits (id : String) : Within (Fits deps) (getBinding id) :=
  Within.gets Fits.refl _

/-- A rotated secret is still there. -/
theorem rotateCredential_fits (ref iv newSecret : String) (s : Registrations) :
    Fits deps s
      { s with
        credentials := rotateCredential deps.cipher deps.encryptionKey s.credentials ref iv iv
          ⟨newSecret, none, none⟩ } := by
  intro hs
  refine ⟨fun id b hb => ?_, hs.ownSecret, hs.registered⟩
  obtain ⟨secret, hsecret⟩ := hs.secrets id b hb
  by_cases href : b.webhookSecretRef = ref
  · rw [href] at hsecret ⊢
    exact ⟨_, getCredential_rotateCredential _ _ _ hsecret _ _ _⟩
  · exact ⟨secret, (secretOf_congr (get?_rotateCredential_of_ne _ _ _ href _ _ _)).trans hsecret⟩

theorem rotateSecretRoute_fits (ans : Answers) (id iv newSecret : String) (b : HookedBinding) :
    Within (Fits deps) (rotateSecretRoute deps ans id iv newSecret b) := by
  unfold rotateSecretRoute
  refine (Within.modify fun s => rotateCredential_fits _ iv newSecret s).bind Fits.trans
    fun _ => ?_
  refine Within.ite (fun _ => withLifecycle_fits fun url => ?_) fun _ => Within.pure Fits.refl _
  exact (rotateWebhookSecret_fits ans id b newSecret url).bind Fits.trans
    fun _ => Within.pure Fits.refl _

/-- A new secret leaves those of the bindings as they are. -/
theorem putSecret_fits (secretRef iv secret : String) (now : Nat) :
    Within (Fits deps) (putSecret deps secretRef iv secret now) := by
  refine Within.step fun s => ?_
  unfold putCredential
  by_cases hfresh : secretRef ∈ s.credentials.keys
  · rw [if_pos hfresh]
    exact Fits.refl s
  · rw [if_neg hfresh]
    refine fun hs => ⟨fun id b hb => ?_, hs.ownSecret, hs.registered⟩
    obtain ⟨old, hold⟩ := hs.secrets id b hb
    have hne := stored_ne hfresh (hs.secrets id b hb)
    exact ⟨old, (secretOf_congr (OrderedMap.get?_set_of_ne _ hne _)).trans hold⟩

/-- A new binding with a stored secret that is no other binding's. -/
theorem fit_addBinding (hs : Fit deps s) {id : String} {b : HookedBinding}
    (hsecret : ∃ secret, secretOf deps s b.webhookSecretRef = .ok (some secret))
    (hown : ∀ j bj, s.bindings.get? j = some bj → bj.webhookSecretRef ≠ b.webhookSecretRef)
    (hregistered : b.webhookRegistered = false) :
    Fit deps { s with bindings := s.bindings.set id b } := by
  have hget : ∀ {j bj}, (s.bindings.set id b).get? j = some bj →
      (j = id ∧ bj = b) ∨ s.bindings.get? j = some bj := by
    intro j bj hj
    rw [OrderedMap.get?_set] at hj
    by_cases hid : j = id
    · rw [if_pos hid] at hj
      exact .inl ⟨hid, (Option.some.inj hj).symm⟩
    · rw [if_neg hid] at hj
      exact .inr hj
  refine ⟨fun j bj hj => ?_, fun j j' bj bj' hj hj' hsame => ?_, fun j bj hj hreg => ?_⟩
  · obtain ⟨-, rfl⟩ | hold := hget hj
    · exact hsecret
    · exact hs.secrets j bj hold
  · obtain ⟨rfl, rfl⟩ | hold := hget hj
    · obtain ⟨rfl, -⟩ | hold' := hget hj'
      · rfl
      · exact absurd hsame.symm (hown j' bj' hold')
    · obtain ⟨rfl, rfl⟩ | hold' := hget hj'
      · exact absurd hsame (hown j bj hold)
      · exact hs.ownSecret j j' bj bj' hold hold' hsame
  · obtain ⟨-, rfl⟩ | hold := hget hj
    · rw [hregistered] at hreg
      cases hreg
    · exact hs.registered j bj hold hreg

theorem create_fits (ans : Answers) (id secretRef iv secret : String) (now : Nat)
    (input : CreateBindingInput) :
    Within (Fits deps) (handle deps ans (.create id secretRef iv secret now input)) := by
  intro s hs
  unfold handle
  by_cases hfresh : secretRef ∈ s.credentials.keys
  · have hput : (putSecret deps secretRef iv secret now).run s =
        (.error (.other .duplicateKey), s) := by
      rw [putSecret, Effect.step_run, putCredential, if_pos hfresh]
    rw [Effect.bind_of_error hput]
    exact hs
  have hstored := @getCredential_of_putCredential deps.cipher deps.encryptionKey s.credentials _
    secretRef iv iv now ⟨.webhook_secret, secret, none, none, none, none⟩ (if_neg hfresh)
  set s₁ : Registrations := { s with
    credentials := s.credentials.set secretRef (credentialDoc deps.cipher deps.encryptionKey iv iv
      now ⟨.webhook_secret, secret, none, none, none, none⟩) } with hs₁def
  have hput : (putSecret deps secretRef iv secret now).run s = (.ok (), s₁) := by
    rw [putSecret, Effect.step_run, putCredential, if_neg hfresh]
  have hs₁ : Fit deps s₁ := (putSecret_fits secretRef iv secret now).of_run hput hs
  rw [Effect.bind_of_ok hput]
  by_cases htaken : id ∈ s₁.bindings.keys ∨ ∃ entry ∈ s₁.bindings.entries,
      entry.2.workspaceUuid = input.workspaceUuid ∧
      entry.2.gitlabProjectId = input.gitlabProjectId
  · have hcreate : (createBinding id secretRef input).run s₁ =
        (.error (.other .duplicateKey), s₁) := by
      rw [createBinding, Effect.step_run, if_pos htaken]
    rw [Effect.bind_of_error hcreate]
    exact hs₁
  have hcreate : (createBinding id secretRef input).run s₁ = (.ok (), { s₁ with
      bindings := s₁.bindings.set id
        ⟨input.workspaceUuid, input.gitlabProjectId, input.credentialRef, secretRef, none,
          false⟩ }) := by
    rw [createBinding, Effect.step_run, if_neg htaken]
  rw [Effect.bind_of_ok hcreate]
  refine ((withLifecycle_fits fun url => (getBinding_fits id).bind Fits.trans fun found => ?_).bind
    Fits.trans fun _ => Within.pure Fits.refl _) _ (fit_addBinding hs₁ ⟨_, hstored⟩ ?_ rfl)
  · cases found with
    | none => exact Within.pure Fits.refl _
    | some b => exact onBindingCreate_fits ans id b url
  · exact fun j bj hbj => stored_ne hfresh (hs.secrets j bj hbj)

/-- Without the binding and its secret the others are as fit as before. -/
theorem fit_removeBinding (hs : Fit deps s) {id : String} {b : HookedBinding}
    (hb : s.bindings.get? id = some b) :
    Fit deps { s with
      credentials := deleteCredential s.credentials b.webhookSecretRef
      bindings := s.bindings.delete id } := by
  have hold : ∀ {j bj}, (s.bindings.delete id).get? j = some bj →
      j ≠ id ∧ s.bindings.get? j = some bj := by
    intro j bj hj
    rw [OrderedMap.get?_delete] at hj
    by_cases hid : j = id
    · rw [if_pos hid] at hj
      cases hj
    · rw [if_neg hid] at hj
      exact ⟨hid, hj⟩
  refine ⟨fun j bj hj => ?_, fun j j' bj bj' hj hj' hsame => ?_, fun j bj hj => ?_⟩
  · obtain ⟨hne, hbj⟩ := hold hj
    obtain ⟨secret, hsecret⟩ := hs.secrets j bj hbj
    have href : bj.webhookSecretRef ≠ b.webhookSecretRef :=
      fun hsame => hne (hs.ownSecret j id bj b hbj hb hsame)
    exact ⟨secret, (secretOf_congr (OrderedMap.get?_delete_of_ne _ href)).trans hsecret⟩
  · exact hs.ownSecret j j' bj bj' (hold hj).2 (hold hj').2 hsame
  · exact hs.registered j bj (hold hj).2

/-- Deleting the hook leaves the binding in the store. -/
theorem onBindingDelete_bindings (ans : Answers) (b : HookedBinding) (s : Registrations) :
    ∃ s₁, (onBindingDelete ans b).run s = (.ok (), s₁) ∧ s₁.bindings = s.bindings := by
  unfold onBindingDelete
  cases b.webhookId with
  | none => exact ⟨s, rfl, rfl⟩
  | some webhookId =>
    cases ans.client with
    | error reason => exact ⟨s, rfl, rfl⟩
    | ok edition =>
      obtain ⟨hooks, heq, -⟩ := unhooked_eq ans s b.gitlabProjectId webhookId
      exact ⟨_, attempt_deleteProjectWebhook_run ans _ _, by rw [heq]⟩

theorem delete_fits (ans : Answers) (id : String) :
    Within (Fits deps) (handle deps ans (.delete id)) := by
  intro s hs
  unfold handle
  dsimp only
  rw [getBinding, Effect.gets_bind_run]
  cases hb : s.bindings.get? id with
  | none => exact hs
  | some b =>
    dsimp only
    split_ifs with hlife
    · obtain ⟨s₁, hrun, hsame⟩ := onBindingDelete_bindings ans b s
      have hs₁ : Fit deps s₁ := (onBindingDelete_fits ans b).of_run hrun hs
      rw [Effect.bind_of_ok hrun, Effect.modify_bind_run]
      exact fit_removeBinding hs₁ (by rw [hsame, hb])
    · rw [Effect.modify_bind_run]
      exact fit_removeBinding hs hb

theorem handle_fits (ans : Answers) (request : Request) :
    Within (Fits deps) (handle deps ans request) := by
  cases request with
  | create id secretRef iv secret now input =>
      exact create_fits ans id secretRef iv secret now input
  | delete id => exact delete_fits ans id
  | rotateSecret id iv newSecret =>
    refine (getBinding_fits id).bind Fits.trans fun found => ?_
    cases found with
    | none => exact Within.pure Fits.refl _
    | some b =>
      exact (rotateSecretRoute_fits ans id iv newSecret b).bind Fits.trans
        fun _ => Within.pure Fits.refl _
  | reRegisterWebhook id =>
    refine (getBinding_fits id).bind Fits.trans fun found => ?_
    cases found with
    | none => exact Within.pure Fits.refl _
    | some b =>
      exact (withLifecycle_fits fun url => reRegisterWebhook_fits ans id b url).bind Fits.trans
        fun _ => Within.pure Fits.refl _

end Fits

/-- A request, or a change of the hooks that the program does not make: somebody works on GitLab,
or GitLab did what it was asked and its answer was lost. -/
inductive Event
  | request (request : Request) (ans : Answers)
  | hookDeleted (hookId : Nat)
  | hookCreated (body : Hook)
  | hookChanged (hookId : Nat) (body : Hook)

def stepEvent (deps : Deps) (s : Registrations) : Event → Registrations
  | .request request ans => step deps s (request, ans)
  | .hookDeleted hookId => { s with hooks := s.hooks.delete hookId }
  | .hookCreated body =>
      { s with hooks := s.hooks.set s.nextHookId body, nextHookId := s.nextHookId + 1 }
  | .hookChanged hookId body =>
      match s.hooks.get? hookId with
      | some _ => { s with hooks := s.hooks.set hookId body }
      | none => s

theorem stepEvent_fit (deps : Deps) (s : Registrations) (event : Event) (hs : Fit deps s) :
    Fit deps (stepEvent deps s event) := by
  cases event with
  | request request ans => exact handle_fits ans request s hs
  | hookDeleted hookId => exact Fits.ofHooks s _ _ hs
  | hookCreated body => exact Fits.ofHooks s _ _ hs
  | hookChanged hookId body =>
    unfold stepEvent
    cases hhook : s.hooks.get? hookId with
    | none =>
      simp only [hhook]
      exact hs
    | some hook =>
      simp only [hhook]
      exact Fits.ofHooks s _ _ hs

/-- The binding is registered with a live hook that has the stored secret. -/
def Repaired (deps : Deps) (s : Registrations) (id : String) : Prop :=
  ∃ b webhookId hook secret, s.bindings.get? id = some b ∧ b.webhookRegistered = true ∧
    b.webhookId = some webhookId ∧ s.hooks.get? webhookId = some hook ∧
    hook.projectId = b.gitlabProjectId ∧
    secretOf deps s b.webhookSecretRef = .ok (some secret) ∧ hook.token = secret.plaintext

/-- GitLab answers requests on hooks that exist, and creations. -/
def Healthy (ans : Answers) : Prop := ans.createHook = none ∧ ans.updateHook = none

/-- The binding names no hook, or one that is still at the project. -/
def HookLives (s : Registrations) (b : HookedBinding) : Prop :=
  ∀ webhookId, b.webhookId = some webhookId →
    ∃ hook, s.hooks.get? webhookId = some hook ∧ hook.projectId = b.gitlabProjectId

section Repair

variable {deps : Deps} {ans : Answers} {s : Registrations} {id url : String} {b : HookedBinding}

theorem hookOf_ok_iff {projectId : Int} {hookId : Nat} {hook : Hook} :
    hookOf s projectId hookId = .ok hook ↔
      s.hooks.get? hookId = some hook ∧ hook.projectId = projectId := by
  unfold hookOf
  cases s.hooks.get? hookId with
  | none => simp
  | some h =>
    by_cases hproject : h.projectId = projectId
    · simp only [if_pos hproject, Except.ok.injEq, Option.some.injEq]
      constructor
      · rintro rfl
        exact ⟨rfl, hproject⟩
      · exact fun h => h.1
    · simp only [if_neg hproject, Option.some.injEq]
      constructor
      · intro h
        cases h
      · rintro ⟨rfl, h⟩
        exact absurd h hproject

/-- A binding without a hook gets one. -/
theorem reRegister_of_none (hs : Fit deps s) (hb : s.bindings.get? id = some b)
    (hid : b.webhookId = none) (hans : Healthy ans) {edition : Option String}
    (hclient : ans.client = .ok edition) :
    Repaired deps ((reRegisterWebhook deps ans id b url).run s).2 id := by
  have hunregistered : ¬ b.webhookRegistered = true := fun h => hs.registered id b hb h hid
  obtain ⟨secret, hsecret⟩ := hs.secrets id b hb
  unfold reRegisterWebhook
  rw [hid]
  dsimp only
  rw [if_neg hunregistered, onBindingCreate, Effect.bind_of_ok (getSecret_run hsecret), hclient]
  dsimp only
  let body := hookBody id url secret.plaintext b.gitlabProjectId edition
  let s₁ : Registrations :=
    { s with hooks := s.hooks.set s.nextHookId body, nextHookId := s.nextHookId + 1 }
  have hpost : (createProjectWebhook ans body).run s = (.ok s.nextHookId, s₁) := by
    rw [createProjectWebhook, Effect.step_run, hans.1]
  have hb₁ : s₁.bindings.get? id = some b := hb
  have hrun : (register ans id body).run s = (.ok ⟨true, some s.nextHookId, none⟩,
      { s₁ with
        bindings := s₁.bindings.set id
          { b with webhookId := some s.nextHookId, webhookRegistered := true } }) := by
    rw [register, Effect.bind_of_ok hpost, markRegistered,
      Effect.bind_of_ok (updateBinding_run hb₁ _)]
    rfl
  rw [Effect.attempt_run, hrun]
  exact ⟨_, s.nextHookId, body, secret, OrderedMap.get?_set_self _ _ _, rfl, rfl,
    OrderedMap.get?_set_self _ _ _, rfl, hsecret, rfl⟩

/-- A hook that is still there gets the stored secret. -/
theorem reRegister_of_live (hs : Fit deps s) (hb : s.bindings.get? id = some b) {webhookId : Nat}
    {hook : Hook} (hid : b.webhookId = some webhookId)
    (hlive : hookOf s b.gitlabProjectId webhookId = .ok hook) (hans : Healthy ans)
    {edition : Option String} (hclient : ans.client = .ok edition) :
    Repaired deps ((reRegisterWebhook deps ans id b url).run s).2 id := by
  obtain ⟨secret, hsecret⟩ := hs.secrets id b hb
  unfold reRegisterWebhook
  rw [hid]
  dsimp only
  rw [Effect.bind_of_ok (getSecret_run hsecret), hclient]
  dsimp only
  let body := hookBody id url secret.plaintext b.gitlabProjectId edition
  let s₁ : Registrations := { s with hooks := s.hooks.set webhookId body }
  have hput : (updateProjectWebhook ans body.projectId webhookId body).run s =
      (.ok webhookId, s₁) := by
    have hfound : hookOf s body.projectId webhookId = .ok hook := hlive
    rw [updateProjectWebhook, Effect.step_run, hans.2, hfound]
  have hb₁ : s₁.bindings.get? id = some b := hb
  have hrun : (refresh ans id webhookId body).run s = (.ok ⟨true, some webhookId, none⟩,
      { s₁ with
        bindings := s₁.bindings.set id
          { b with webhookId := some webhookId, webhookRegistered := true } }) := by
    rw [refresh, Effect.bind_of_ok hput, markRegistered,
      Effect.bind_of_ok (updateBinding_run hb₁ _)]
    rfl
  rw [Effect.attempt_run, hrun]
  exact ⟨_, webhookId, body, secret, OrderedMap.get?_set_self _ _ _, rfl, rfl,
    OrderedMap.get?_set_self _ _ _, rfl, hsecret, rfl⟩

/-- Where the hook is gone the request fails, and nothing is changed. -/
theorem reRegister_of_gone (hs : Fit deps s) (hb : s.bindings.get? id = some b) {webhookId : Nat}
    {e : ApiFailure} (hid : b.webhookId = some webhookId)
    (hgone : hookOf s b.gitlabProjectId webhookId = .error e) (hans : Healthy ans)
    {edition : Option String} (hclient : ans.client = .ok edition) :
    ((reRegisterWebhook deps ans id b url).run s).2 = s := by
  obtain ⟨secret, hsecret⟩ := hs.secrets id b hb
  have hother : e = notFoundError := by
    unfold hookOf at hgone
    cases hhook : s.hooks.get? webhookId with
    | none =>
      rw [hhook] at hgone
      exact (Except.error.inj hgone).symm
    | some hook =>
      rw [hhook] at hgone
      dsimp only at hgone
      split_ifs at hgone
      exact (Except.error.inj hgone).symm
  unfold reRegisterWebhook
  rw [hid]
  dsimp only
  rw [Effect.bind_of_ok (getSecret_run hsecret), hclient]
  dsimp only
  let body := hookBody id url secret.plaintext b.gitlabProjectId edition
  have hput : (updateProjectWebhook ans body.projectId webhookId body).run s = (.error e, s) := by
    have hfound : hookOf s body.projectId webhookId = .error e := hgone
    rw [updateProjectWebhook, Effect.step_run, hans.2, hfound]
  have hrun : (refresh ans id webhookId body).run s = (.error e, s) := Effect.bind_of_error hput
  rw [Effect.attempt_run, hrun, hother]
  rfl

/-- Without a client nothing is changed. -/
theorem reRegister_of_error (hs : Fit deps s) (hb : s.bindings.get? id = some b) {reason : String}
    (hclient : ans.client = .error reason) :
    ((reRegisterWebhook deps ans id b url).run s).2 = s := by
  obtain ⟨secret, hsecret⟩ := hs.secrets id b hb
  unfold reRegisterWebhook onBindingCreate
  cases b.webhookId with
  | none =>
    dsimp only
    split_ifs
    · rfl
    · rw [Effect.bind_of_ok (getSecret_run hsecret), hclient]
      rfl
  | some webhookId =>
    dsimp only
    rw [Effect.bind_of_ok (getSecret_run hsecret), hclient]
    rfl

end Repair

/-- After any run, registering a binding again while GitLab is healthy leaves it registered with a
live hook that has the stored secret exactly when a client can be built and the hook that the
binding names, if it names one, is still there; or when it was so before and no client can be
built. -/
theorem repaired_iff (deps : Deps) (events : List Event) {id url : String} {b : HookedBinding}
    {ans : Answers}
    (hb : (Transition.exec (stepEvent deps) .initial events).bindings.get? id = some b)
    (hans : Healthy ans) :
    Repaired deps ((reRegisterWebhook deps ans id b url).run
        (Transition.exec (stepEvent deps) .initial events)).2 id ↔
      match ans.client with
      | .ok _ => HookLives (Transition.exec (stepEvent deps) .initial events) b
      | .error _ => Repaired deps (Transition.exec (stepEvent deps) .initial events) id := by
  have hs : Fit deps (Transition.exec (stepEvent deps) .initial events) :=
    Transition.exec_invariant' (stepEvent_fit deps) (fit_initial deps) events
  revert hs hb
  generalize Transition.exec (stepEvent deps) .initial events = s
  intro hb hs
  cases hclient : ans.client with
  | error reason => rw [reRegister_of_error hs hb hclient]
  | ok edition =>
    dsimp only
    cases hid : b.webhookId with
    | none =>
      refine iff_of_true (reRegister_of_none hs hb hid hans hclient) fun webhookId h => ?_
      rw [hid] at h
      cases h
    | some webhookId =>
      cases hfound : hookOf s b.gitlabProjectId webhookId with
      | ok hook =>
        refine iff_of_true (reRegister_of_live hs hb hid hfound hans hclient) fun other h => ?_
        obtain rfl := Option.some.inj (hid.symm.trans h)
        exact ⟨hook, hookOf_ok_iff.mp hfound⟩
      | error e =>
        rw [reRegister_of_gone hs hb hid hfound hans hclient]
        have hgone : ∀ hook, s.hooks.get? webhookId = some hook →
            hook.projectId ≠ b.gitlabProjectId := by
          intro hook hhook hproject
          cases hfound.symm.trans (hookOf_ok_iff.mpr ⟨hhook, hproject⟩)
        refine iff_of_false ?_ fun h => ?_
        · rintro ⟨b', webhookId', hook, secret, hb', -, hid', hhook, hproject, -⟩
          obtain rfl := Option.some.inj (hb.symm.trans hb')
          obtain rfl := Option.some.inj (hid.symm.trans hid')
          exact hgone hook hhook hproject
        · obtain ⟨hook, hhook, hproject⟩ := h webhookId hid
          exact hgone hook hhook hproject

def plainDeps : Deps :=
  ⟨.plain, "key", true, some "https://bridge.example"⟩

/-- Every call succeeds. -/
def succeeding : Answers := ⟨.ok (some "ce"), none, none, none⟩

/-- A binding whose hook is still there. -/
theorem repaired_iff_created :
    Repaired plainDeps ((reRegisterWebhook plainDeps succeeding "b1" ⟨"ws1", 7, "c0", "c1", some 1,
        true⟩ "https://bridge.example").run (Transition.exec (stepEvent plainDeps) .initial
          [.request (.create "b1" "c1" "iv1" "first" 0 ⟨"ws1", 7, "c0"⟩) succeeding])).2 "b1" ↔
      HookLives (Transition.exec (stepEvent plainDeps) .initial
        [.request (.create "b1" "c1" "iv1" "first" 0 ⟨"ws1", 7, "c0"⟩) succeeding])
        ⟨"ws1", 7, "c0", "c1", some 1, true⟩ :=
  repaired_iff plainDeps _ (by decide +kernel) ⟨rfl, rfl⟩

/-- Somebody has deleted the hook: registering again asks for that hook, and fails. -/
theorem not_repaired_after_deletion :
    ¬ ∀ (deps : Deps) (events : List Event) (id url : String) (b : HookedBinding) (ans : Answers),
      (Transition.exec (stepEvent deps) .initial events).bindings.get? id = some b →
        Healthy ans → (∃ edition, ans.client = .ok edition) →
          Repaired deps ((reRegisterWebhook deps ans id b url).run
            (Transition.exec (stepEvent deps) .initial events)).2 id := by
  intro hall
  obtain ⟨b, webhookId, hook, -, hb, -, hid, hhook, -⟩ := hall plainDeps
    [.request (.create "b1" "c1" "iv1" "first" 0 ⟨"ws1", 7, "c0"⟩) succeeding, .hookDeleted 1]
    "b1" "https://bridge.example" ⟨"ws1", 7, "c0", "c1", some 1, true⟩ succeeding
    (by decide +kernel) ⟨rfl, rfl⟩ ⟨_, rfl⟩
  cases hhook

end HulyGitlab.BindingLifecycle
