import HulyGitlab.Sync.WebhookRegistration
import HulyGitlab.Util.SecretRotation

/-!
# What a failed creation of a binding leaves behind

`POST /api/v1/bindings` with every way in which its steps end. Besides the
answers of GitLab these are the calls to the store: each may fail, before or
after the store has done what it was asked.
-/

namespace HulyGitlab.BindingCreation

open Effect BindingLifecycle

/-- A call that fails, and whether it was carried out. -/
structure Fault where
  error : ApiFailure
  applied : Bool
  deriving DecidableEq

/-- What the calls of the route come to. -/
structure Outcomes where
  putCredential : Option Fault
  createBinding : Option Fault
  getBinding : Option Err
  getCredential : Option Err
  client : Except String (Option String)
  createHook : Option Fault
  updateBinding : Option Fault

/-- The body that the route accepts, and the ids and the secret that are drawn for it. -/
structure CreateRequest where
  body : JsValue
  id : String
  secretRef : String
  iv : String
  secret : String
  now : Nat

inductive Response
  | badRequest (error : String)
  | created (bindingId : String) (webhookRegistered : Bool) (webhookId : Option Nat)
  deriving DecidableEq

/-- A call with its fault. -/
def faulty {A : Type} (fault : Option Fault) (call : Lifecycle A) : Lifecycle A :=
  match fault with
  | none => call
  | some ⟨error, true⟩ => call >>= fun _ => Effect.throw error
  | some ⟨error, false⟩ => Effect.throw error

/-- A query with its fault. -/
def reading {A : Type} (fault : Option Err) (query : Lifecycle A) : Lifecycle A :=
  match fault with
  | none => query
  | some error => Effect.throw (.other error)

/-- `parseObjectId` accepts the text. -/
def isObjectId (raw : String) : Bool :=
  raw.toList.length = 24 ∧ raw.toList.all fun c => (hexValue c).isSome

/-- The checks of the body. -/
def parseBody (body : JsValue) : Except String CreateBindingInput :=
  match body.get "workspaceUuid", body.get "hulyProjectRef", body.get "gitlabProjectId",
      body.get "gitlabProjectPath", body.get "credentialRef" with
  | .str workspaceUuid, .str _, .num gitlabProjectId, .str _, .str credentialRef =>
      if isObjectId credentialRef then .ok ⟨workspaceUuid, gitlabProjectId, credentialRef⟩
      else .error "invalid id format"
  | _, _, _, _, _ => .error "Invalid request body"

section Route

variable (deps : Deps) (o : Outcomes)

/-- The hook is registered and written to the binding. -/
def registerHook (bindingId : String) (body : Hook) : Lifecycle HookResult := do
  let hookId ← faulty o.createHook (createProjectWebhook ⟨o.client, none, none, none⟩ body)
  faulty o.updateBinding (markRegistered bindingId hookId)
  pure ⟨true, some hookId, none⟩

/-- `onBindingCreate`, with the faults of the store. -/
def onBindingCreate (bindingId : String) (binding : HookedBinding) (publicBaseUrl : String) :
    Lifecycle HookResult := do
  let secretCred ← reading o.getCredential (getSecret deps binding.webhookSecretRef)
  match secretCred with
  | none => pure ⟨false, none, some "webhook secret credential not found"⟩
  | some cred =>
      match o.client with
      | .error reason => pure ⟨false, none, some reason⟩
      | .ok edition =>
          Effect.attempt
            (registerHook o bindingId
              (hookBody bindingId publicBaseUrl cred.plaintext binding.gitlabProjectId edition))
            (refused (faulty o.updateBinding (markUnregistered bindingId)))

/-- The registration of the hook, for a binding that has just been inserted. -/
def registration (id publicBaseUrl : String) : Lifecycle HookResult := do
  let bindingDoc ← reading o.getBinding (getBinding id)
  match bindingDoc with
  | none => pure ⟨false, none, none⟩
  | some binding => onBindingCreate deps o id binding publicBaseUrl

/-- The route once the secret is stored. -/
def insert (r : CreateRequest) (input : CreateBindingInput) : Lifecycle Response := do
  faulty o.createBinding (createBinding r.id r.secretRef input)
  let result ← withLifecycle deps ⟨false, none, none⟩ (registration deps o r.id)
  pure (.created r.id result.webhookRegistered result.webhookId)

/-- `POST /api/v1/bindings`; what is thrown becomes a 500. -/
def post (r : CreateRequest) : Lifecycle Response :=
  match parseBody r.body with
  | .error error => pure (.badRequest error)
  | .ok input => do
      faulty o.putCredential (putSecret deps r.secretRef r.iv r.secret r.now)
      insert deps o r input

end Route

/-- The request is answered with 201. -/
def IsCreated (result : Except ApiFailure Response) : Prop :=
  ∃ bindingId webhookRegistered webhookId,
    result = .ok (.created bindingId webhookRegistered webhookId)

/-- The collections and the hooks are as before. -/
structure Untouched (s s' : Registrations) : Prop where
  credentials : s'.credentials = s.credentials
  bindings : s'.bindings = s.bindings
  hooks : s'.hooks = s.hooks

/-- A request that is not answered with 201 leaves nothing. -/
def Atomic (deps : Deps) (o : Outcomes) (r : CreateRequest) (s : Registrations) : Prop :=
  ¬ IsCreated ((post deps o r).run s).1 → Untouched s ((post deps o r).run s).2

/-- The status makes a result of the failure. -/
def IsRefusal : ApiFailure → Prop
  | .status statusCode _ => 400 ≤ statusCode ∧ statusCode < 500
  | .other _ => False

/-- The registration ends in a result: no query fails, and there is no client, or GitLab accepts
or refuses the hook and the binding can be written. -/
def RegistrationEnds (o : Outcomes) : Prop :=
  o.getBinding = none ∧ o.getCredential = none ∧
    ((∃ reason, o.client = .error reason) ∨
      (o.updateBinding = none ∧ ∀ fault ∈ o.createHook, IsRefusal fault.error))

/-- The binding can be inserted. -/
def Insertable (s : Registrations) (id : String) (input : CreateBindingInput) : Prop :=
  id ∉ s.bindings.keys ∧ ¬ ∃ entry ∈ s.bindings.entries,
    entry.2.workspaceUuid = input.workspaceUuid ∧ entry.2.gitlabProjectId = input.gitlabProjectId

/-- The body is refused, or the credential is not stored, or nothing fails from there on. -/
def StopsEarlyOrEnds (deps : Deps) (o : Outcomes) (r : CreateRequest) (s : Registrations) : Prop :=
  match parseBody r.body with
  | .error _ => True
  | .ok input =>
      r.secretRef ∈ s.credentials.keys ∨ (∃ error, o.putCredential = some ⟨error, false⟩) ∨
        (o.putCredential = none ∧ o.createBinding = none ∧ Insertable s r.id input ∧
          (deps.bindingLifecycle = true → deps.publicBaseUrl ≠ none → RegistrationEnds o))

/-- The computation returns. -/
def Succeeds {A : Type} (m : Lifecycle A) (s : Registrations) : Prop :=
  ∃ a s', m.run s = (.ok a, s')

section Succeeds

variable {A B : Type} {m : Lifecycle A} {f : A → Lifecycle B} {s s₁ : Registrations}

theorem succeeds_pure (a : A) (s : Registrations) : Succeeds (pure a : Lifecycle A) s :=
  ⟨a, s, rfl⟩

theorem not_succeeds_throw (e : ApiFailure) (s : Registrations) :
    ¬ Succeeds (Effect.throw e : Lifecycle A) s := by
  rintro ⟨a, s', h⟩
  cases h

theorem succeeds_bind_of_ok {a : A} (h : m.run s = (.ok a, s₁)) :
    Succeeds (m >>= f) s ↔ Succeeds (f a) s₁ := by
  unfold Succeeds
  rw [Effect.bind_of_ok h]

theorem not_succeeds_bind (h : ¬ Succeeds m s) : ¬ Succeeds (m >>= f) s := by
  rintro ⟨b, s', hb⟩
  obtain ⟨a, s₁, ha, -⟩ := Effect.bind_ok_iff.mp hb
  exact h ⟨a, s₁, ha⟩

theorem not_succeeds_faulty (fault : Fault) (m : Lifecycle A) (s : Registrations) :
    ¬ Succeeds (faulty (some fault) m) s := by
  obtain ⟨error, applied⟩ := fault
  cases applied with
  | false => exact not_succeeds_throw error s
  | true =>
    rintro ⟨a, s', h⟩
    obtain ⟨a', s₁, -, hthrow⟩ := Effect.bind_ok_iff.mp h
    cases hthrow

end Succeeds

/-- The credentials are as they were. -/
def SameCredentials (s s' : Registrations) : Prop := s'.credentials = s.credentials

namespace SameCredentials

theorem refl (s : Registrations) : SameCredentials s s := rfl

theorem trans (s s₁ s₂ : Registrations) (h : SameCredentials s s₁) (h' : SameCredentials s₁ s₂) :
    SameCredentials s s₂ := Eq.trans h' h

variable {A : Type}

theorem faulty {m : Lifecycle A} (h : Within SameCredentials m) (fault : Option Fault) :
    Within SameCredentials (faulty fault m) := by
  match fault with
  | none => exact h
  | some ⟨error, true⟩ => exact h.bind trans fun _ => Within.throw refl error
  | some ⟨error, false⟩ => exact Within.throw refl error

theorem reading {m : Lifecycle A} (h : Within SameCredentials m) (fault : Option Err) :
    Within SameCredentials (reading fault m) := by
  match fault with
  | none => exact h
  | some error => exact Within.throw refl (ApiFailure.other error)

theorem updateBinding (id : String) (update : HookedBinding → HookedBinding) :
    Within SameCredentials (updateBinding id update) := by
  refine Within.modify fun s => ?_
  cases hb : s.bindings.get? id with
  | none => exact refl s
  | some b => exact refl s

theorem createBinding (id secretRef : String) (input : CreateBindingInput) :
    Within SameCredentials (createBinding id secretRef input) := by
  refine Within.step fun s => ?_
  split_ifs
  · exact refl s
  · exact refl s

theorem createProjectWebhook (ans : Answers) (body : Hook) :
    Within SameCredentials (createProjectWebhook ans body) := by
  refine Within.step fun s => ?_
  cases ans.createHook with
  | some e => exact refl s
  | none => exact refl s

theorem getSecret (deps : Deps) (ref : String) : Within SameCredentials (getSecret deps ref) := by
  refine Within.step fun s => ?_
  cases secretOf deps s ref with
  | ok cred => exact refl s
  | error e => exact refl s

theorem refused {onRefused : Lifecycle Unit} (h : Within SameCredentials onRefused)
    (e : ApiFailure) : Within SameCredentials (refused onRefused e) := by
  cases e with
  | status statusCode message =>
    exact Within.ite (fun _ => h.bind trans fun _ => Within.pure refl _)
      fun _ => Within.throw refl _
  | other e => exact Within.throw refl _

theorem onBindingCreate (deps : Deps) (o : Outcomes) (id url : String) (b : HookedBinding) :
    Within SameCredentials (onBindingCreate deps o id b url) := by
  unfold BindingCreation.onBindingCreate
  refine (reading (getSecret deps _) _).bind trans fun secretCred => ?_
  cases secretCred with
  | none => exact Within.pure refl _
  | some cred =>
    cases o.client with
    | error reason => exact Within.pure refl _
    | ok edition =>
      refine Within.attempt trans ?_ (refused (faulty (updateBinding _ _) _))
      unfold registerHook
      refine (faulty (createProjectWebhook _ _) _).bind trans fun hookId => ?_
      exact (faulty (updateBinding _ _) _).bind trans fun _ => Within.pure refl _

theorem insert (deps : Deps) (o : Outcomes) (r : CreateRequest) (input : CreateBindingInput) :
    Within SameCredentials (insert deps o r input) := by
  refine (faulty (createBinding _ _ _) _).bind trans fun _ => ?_
  refine Within.bind trans ?_ fun _ => Within.pure refl _
  unfold withLifecycle
  split
  · refine (reading (Within.gets refl _) _).bind trans fun found => ?_
    cases found with
    | none => exact Within.pure refl _
    | some b => exact onBindingCreate deps o r.id _ b
  · exact Within.pure refl _

end SameCredentials

section Run

variable {deps : Deps} {o : Outcomes} {s : Registrations} {id url : String} {b : HookedBinding}

theorem refused_succeeds_iff {onRefused : Lifecycle Unit} {e : ApiFailure} :
    Succeeds (refused onRefused e) s ↔ IsRefusal e ∧ Succeeds onRefused s := by
  cases e with
  | other e => exact iff_of_false (not_succeeds_throw _ s) fun h => h.1
  | status statusCode message =>
    unfold refused
    by_cases hstatus : 400 ≤ statusCode ∧ statusCode < 500
    · dsimp only
      rw [if_pos hstatus]
      constructor
      · rintro ⟨result, s', hrun⟩
        obtain ⟨u, s₁, hfirst, -⟩ := Effect.bind_ok_iff.mp hrun
        exact ⟨hstatus, u, s₁, hfirst⟩
      · rintro ⟨-, u, s₁, hfirst⟩
        exact (succeeds_bind_of_ok hfirst).mpr (succeeds_pure _ _)
    · dsimp only
      rw [if_neg hstatus]
      exact iff_of_false (not_succeeds_throw _ s) fun h => hstatus h.1

theorem attempt_of_ok {A : Type} {m : Lifecycle A} (h : Succeeds m s)
    (handler : ApiFailure → Lifecycle A) : Succeeds (Effect.attempt m handler) s := by
  obtain ⟨a, s', hrun⟩ := h
  exact ⟨a, s', by rw [Effect.attempt_run, hrun]⟩

theorem updateBinding_succeeds (id : String) (update : HookedBinding → HookedBinding)
    (s : Registrations) : Succeeds (updateBinding id update) s := ⟨(), _, rfl⟩

theorem succeeds_attempt_of_error {A : Type} {m : Lifecycle A} {e : ApiFailure}
    {s₁ : Registrations} (h : m.run s = (.error e, s₁)) {handler : ApiFailure → Lifecycle A} :
    Succeeds (Effect.attempt m handler) s ↔ Succeeds (handler e) s₁ := by
  unfold Succeeds
  rw [Effect.attempt_run, h]

/-- A call that would succeed fails with the error of its fault. -/
theorem faulty_run {A : Type} {call : Lifecycle A} (h : Succeeds call s) (fault : Fault) :
    ∃ s₁, (faulty (some fault) call).run s = (.error fault.error, s₁) := by
  obtain ⟨error, applied⟩ := fault
  cases applied with
  | false => exact ⟨s, rfl⟩
  | true =>
    obtain ⟨a, s₁, hrun⟩ := h
    exact ⟨s₁, Effect.bind_of_ok hrun⟩

theorem succeeds_faulty_iff {A : Type} {call : Lifecycle A} (h : Succeeds call s)
    {fault : Option Fault} : Succeeds (faulty fault call) s ↔ fault = none := by
  cases fault with
  | none => exact iff_of_true h rfl
  | some fault => exact iff_of_false (not_succeeds_faulty fault call s) (by simp)

theorem createProjectWebhook_succeeds (client : Except String (Option String)) (body : Hook)
    (s : Registrations) : Succeeds (createProjectWebhook ⟨client, none, none, none⟩ body) s :=
  ⟨s.nextHookId, _, rfl⟩

/-- The registration with its handler returns when the binding can be written, and GitLab does not
fail otherwise than by refusing. -/
theorem attempt_registerHook_succeeds_iff {body : Hook} :
    Succeeds (Effect.attempt (registerHook o id body)
      (refused (faulty o.updateBinding (markUnregistered id)))) s ↔
      o.updateBinding = none ∧ ∀ fault ∈ o.createHook, IsRefusal fault.error := by
  have hpost := createProjectWebhook_succeeds o.client body s
  have hunmark : ∀ s₁, Succeeds (markUnregistered id) s₁ := fun s₁ => updateBinding_succeeds id _ s₁
  cases hhook : o.createHook with
  | some fault =>
    obtain ⟨s₁, hfailed⟩ := faulty_run hpost fault
    have hrun : (registerHook o id body).run s = (.error fault.error, s₁) := by
      unfold registerHook
      rw [hhook]
      exact Effect.bind_of_error hfailed
    rw [succeeds_attempt_of_error hrun, refused_succeeds_iff, succeeds_faulty_iff (hunmark s₁)]
    simp only [Option.mem_def, Option.some.injEq, forall_eq']
    exact and_comm
  | none =>
    simp only [Option.mem_def, reduceCtorEq, false_implies, implies_true, and_true]
    obtain ⟨hookId, s₁, hcreated⟩ := hpost
    have hmark : Succeeds (markRegistered id hookId) s₁ := updateBinding_succeeds id _ s₁
    cases hupdate : o.updateBinding with
    | none =>
      refine iff_of_true (attempt_of_ok ?_ _) rfl
      obtain ⟨u, s₂, hmarked⟩ := hmark
      unfold registerHook
      rw [hhook, hupdate]
      exact (succeeds_bind_of_ok hcreated).mpr
        ((succeeds_bind_of_ok hmarked).mpr (succeeds_pure _ _))
    | some fault =>
      refine iff_of_false ?_ (by simp)
      obtain ⟨s₂, hfailed⟩ := faulty_run hmark fault
      have hrun : (registerHook o id body).run s = (.error fault.error, s₂) := by
        unfold registerHook
        rw [hhook, hupdate, faulty, Effect.bind_of_ok hcreated]
        exact Effect.bind_of_error hfailed
      rw [succeeds_attempt_of_error hrun, refused_succeeds_iff]
      exact fun h => not_succeeds_faulty fault _ s₂ h.2

/-- A registration that meets no failure of a query returns when there is no client, or when the
binding can be written and GitLab does not fail otherwise than by refusing. -/
theorem onBindingCreate_succeeds_iff {cred : CredentialResult}
    (hsecret : secretOf deps s b.webhookSecretRef = .ok (some cred)) :
    Succeeds (onBindingCreate deps o id b url) s ↔
      o.getCredential = none ∧ ((∃ reason, o.client = .error reason) ∨
        (o.updateBinding = none ∧ ∀ fault ∈ o.createHook, IsRefusal fault.error)) := by
  unfold onBindingCreate
  cases hquery : o.getCredential with
  | some error =>
    exact iff_of_false (not_succeeds_bind (not_succeeds_throw _ s)) fun h => nomatch h.1
  | none =>
    rw [reading, succeeds_bind_of_ok (getSecret_run hsecret)]
    dsimp only
    cases hclient : o.client with
    | error reason => exact iff_of_true (succeeds_pure _ _) ⟨rfl, .inl ⟨reason, rfl⟩⟩
    | ok edition =>
      have hclient' : ¬ ∃ reason, (Except.ok edition : Except String (Option String)) =
          .error reason := fun h => nomatch h
      simp only [true_and, hclient', false_or]
      exact attempt_registerHook_succeeds_iff

/-- Once the secret is stored the route returns exactly when the binding can be inserted and the
registration, if there is one, ends. -/
theorem insert_succeeds_iff {r : CreateRequest} {input : CreateBindingInput}
    {cred : CredentialResult} (hsecret : secretOf deps s r.secretRef = .ok (some cred)) :
    Succeeds (insert deps o r input) s ↔
      o.createBinding = none ∧ Insertable s r.id input ∧
        (deps.bindingLifecycle = true → deps.publicBaseUrl ≠ none → RegistrationEnds o) := by
  unfold insert
  cases hfault : o.createBinding with
  | some fault =>
    exact iff_of_false (not_succeeds_bind (not_succeeds_faulty fault _ s)) fun h =>
      absurd h.1 (Option.some_ne_none _)
  | none =>
    simp only [faulty, true_and]
    by_cases hinsert : Insertable s r.id input
    · have hfree : ¬ (r.id ∈ s.bindings.keys ∨ ∃ entry ∈ s.bindings.entries,
          entry.2.workspaceUuid = input.workspaceUuid ∧
          entry.2.gitlabProjectId = input.gitlabProjectId) := fun h =>
        h.elim hinsert.1 hinsert.2
      set b₀ : HookedBinding := ⟨input.workspaceUuid, input.gitlabProjectId, input.credentialRef,
        r.secretRef, none, false⟩ with hb₀
      have hcreate : (createBinding r.id r.secretRef input).run s =
          (.ok (), { s with bindings := s.bindings.set r.id b₀ }) := by
        rw [createBinding, Effect.step_run, if_neg hfree]
      have hget : (getBinding r.id).run { s with bindings := s.bindings.set r.id b₀ } =
          (.ok (some b₀), { s with bindings := s.bindings.set r.id b₀ }) := by
        rw [getBinding, Effect.gets_run, OrderedMap.get?_set_self]
      rw [succeeds_bind_of_ok hcreate]
      simp only [hinsert, true_and]
      have hlast : ∀ m : Lifecycle HookResult, Succeeds (m >>= fun result =>
          (pure (.created r.id result.webhookRegistered result.webhookId) : Lifecycle Response))
            { s with bindings := s.bindings.set r.id b₀ } ↔
          Succeeds m { s with bindings := s.bindings.set r.id b₀ } := by
        intro m
        constructor
        · rintro ⟨a, s', hrun⟩
          obtain ⟨result, s₁, hfirst, -⟩ := Effect.bind_ok_iff.mp hrun
          exact ⟨result, s₁, hfirst⟩
        · rintro ⟨result, s₁, hfirst⟩
          exact (succeeds_bind_of_ok hfirst).mpr (succeeds_pure _ _)
      rw [hlast]
      unfold withLifecycle
      cases hlife : deps.bindingLifecycle with
      | false => exact iff_of_true (succeeds_pure _ _) fun h => absurd h Bool.false_ne_true
      | true =>
        cases hurl : deps.publicBaseUrl with
        | none => exact iff_of_true (succeeds_pure _ _) fun _ h => absurd rfl h
        | some url =>
          simp only [ne_eq, reduceCtorEq, not_false_eq_true, true_implies, RegistrationEnds]
          unfold registration
          cases hread : o.getBinding with
          | some error =>
            exact iff_of_false (not_succeeds_bind (not_succeeds_throw _ _)) fun h =>
              absurd h.1 (Option.some_ne_none _)
          | none =>
            rw [reading, succeeds_bind_of_ok hget]
            dsimp only
            rw [onBindingCreate_succeeds_iff hsecret]
            simp only [true_and]
    · refine iff_of_false (not_succeeds_bind ?_) fun h => hinsert h.1
      have hcreate : (createBinding r.id r.secretRef input).run s =
          (.error (.other .duplicateKey), s) := by
        rw [createBinding, Effect.step_run, if_pos]
        by_contra hfree
        exact hinsert ⟨fun h => hfree (.inl h), fun h => hfree (.inr h)⟩
      rintro ⟨u, s', hrun⟩
      rw [hcreate] at hrun
      cases hrun

end Run

/-- The outcomes where only GitLab fails, before it has done anything. -/
def ofAnswers (ans : Answers) : Outcomes :=
  ⟨none, none, none, none, ans.client, ans.createHook.map fun error => ⟨error, false⟩, none⟩

theorem createProjectWebhook_ofAnswers (ans : Answers) (body : Hook) :
    faulty (ofAnswers ans).createHook (createProjectWebhook ⟨ans.client, none, none, none⟩ body) =
      createProjectWebhook ans body := by
  unfold ofAnswers createProjectWebhook
  cases ans.createHook with
  | none => rfl
  | some e => rfl

/-- The route as it is among the other requests, where the store does not fail. -/
theorem post_ofAnswers (deps : Deps) (ans : Answers) (r : CreateRequest)
    {input : CreateBindingInput} (h : parseBody r.body = .ok input) (s : Registrations) :
    ((post deps (ofAnswers ans) r).run s).2 =
      step deps s (.create r.id r.secretRef r.iv r.secret r.now input, ans) := by
  have hregister : ∀ id body, registerHook (ofAnswers ans) id body = register ans id body := by
    intro id body
    have hcreate := createProjectWebhook_ofAnswers ans body
    unfold registerHook register
    exact congrArg (· >>= fun hookId => markRegistered id hookId >>= fun _ =>
      (pure ⟨true, some hookId, none⟩ : Lifecycle HookResult)) hcreate
  have hservice : ∀ id b url, onBindingCreate deps (ofAnswers ans) id b url =
      BindingLifecycle.onBindingCreate deps ans id b url := by
    intro id b url
    unfold onBindingCreate BindingLifecycle.onBindingCreate
    simp only [hregister]
    rfl
  have hpost : (registration deps (ofAnswers ans) r.id) = fun url => getBinding r.id >>=
      fun bindingDoc => match bindingDoc with
        | none => pure ⟨false, none, none⟩
        | some binding => BindingLifecycle.onBindingCreate deps ans r.id binding url := by
    funext url
    unfold registration
    simp only [hservice]
    rfl
  unfold post BindingLifecycle.step handle insert
  rw [h]
  dsimp only
  rw [hpost]
  refine Effect.bind_snd_congr (fun _ s₁ => Effect.bind_snd_congr (fun _ s₂ => ?_) s₁) s
  exact (bind_pure_snd _ _ _).trans (bind_pure_snd _ _ _).symm

section Post

variable {deps : Deps} {o : Outcomes} {r : CreateRequest} {s : Registrations}

/-- The state with the stored secret. -/
def withSecret (deps : Deps) (r : CreateRequest) (s : Registrations) : Registrations :=
  { s with
    credentials := s.credentials.set r.secretRef (credentialDoc deps.cipher deps.encryptionKey r.iv
      r.iv r.now ⟨.webhook_secret, r.secret, none, none, none, none⟩) }

theorem putSecret_run_of_taken (h : r.secretRef ∈ s.credentials.keys) :
    (putSecret deps r.secretRef r.iv r.secret r.now).run s =
      (.error (.other .duplicateKey), s) := by
  rw [putSecret, Effect.step_run, putCredential, if_pos h]

theorem putSecret_run_of_free (h : r.secretRef ∉ s.credentials.keys) :
    (putSecret deps r.secretRef r.iv r.secret r.now).run s = (.ok (), withSecret deps r s) := by
  rw [putSecret, Effect.step_run, putCredential, if_neg h]
  rfl

/-- A call that fails by itself fails with any fault, without a trace. -/
theorem faulty_run_of_error {A : Type} {call : Lifecycle A} {e : ApiFailure}
    (h : call.run s = (.error e, s)) (fault : Option Fault) :
    ∃ e', (faulty fault call).run s = (.error e', s) := by
  match fault with
  | none => exact ⟨e, h⟩
  | some ⟨error, true⟩ => exact ⟨e, Effect.bind_of_error h⟩
  | some ⟨error, false⟩ => exact ⟨error, rfl⟩

theorem not_isCreated_error (e : ApiFailure) : ¬ IsCreated (.error e) := by
  rintro ⟨_, _, _, h⟩
  cases h

/-- A new secret is a change. -/
theorem not_untouched_of_secret (hfree : r.secretRef ∉ s.credentials.keys) {s' : Registrations}
    (h : SameCredentials (withSecret deps r s) s') : ¬ Untouched s s' := by
  intro huntouched
  have hsame : (withSecret deps r s).credentials = s.credentials :=
    h.symm.trans huntouched.credentials
  refine hfree ?_
  rw [← hsame]
  exact (OrderedMap.mem_keys_set ..).mpr (.inl rfl)

/-- The route answers with 201 where it returns. -/
theorem isCreated_insert_iff {input : CreateBindingInput} :
    IsCreated ((insert deps o r input).run s).1 ↔ Succeeds (insert deps o r input) s := by
  constructor
  · rintro ⟨bindingId, webhookRegistered, webhookId, h⟩
    exact ⟨_, _, Prod.ext h rfl⟩
  · rintro ⟨response, s', h⟩
    have hrun := h
    unfold insert at hrun
    obtain ⟨u, s₁, -, hrest⟩ := Effect.bind_ok_iff.mp hrun
    obtain ⟨result, s₂, -, hlast⟩ := Effect.bind_ok_iff.mp hrest
    rw [h]
    cases hlast
    exact ⟨_, _, _, rfl⟩

end Post

/-- A request is atomic exactly when it stops before the secret is stored, or nothing fails from
there on. -/
theorem atomic_iff (deps : Deps) (o : Outcomes) (r : CreateRequest) (s : Registrations) :
    Atomic deps o r s ↔ StopsEarlyOrEnds deps o r s := by
  unfold Atomic StopsEarlyOrEnds post
  cases hparse : parseBody r.body with
  | error error => exact iff_of_true (fun _ => ⟨rfl, rfl, rfl⟩) trivial
  | ok input =>
    dsimp only
    by_cases htaken : r.secretRef ∈ s.credentials.keys
    · obtain ⟨e, hrun⟩ := faulty_run_of_error (@putSecret_run_of_taken deps r s htaken)
        o.putCredential
      refine iff_of_true (fun _ => ?_) (.inl htaken)
      rw [Effect.bind_of_error hrun]
      exact ⟨rfl, rfl, rfl⟩
    have hput := @putSecret_run_of_free deps r s htaken
    match hfault : o.putCredential with
    | some ⟨error, false⟩ =>
      exact iff_of_true (fun _ => ⟨rfl, rfl, rfl⟩) (.inr (.inl ⟨error, rfl⟩))
    | some ⟨error, true⟩ =>
      have hrun : (faulty (some ⟨error, true⟩)
          (putSecret deps r.secretRef r.iv r.secret r.now)).run s =
          (.error error, withSecret deps r s) := Effect.bind_of_ok hput
      rw [Effect.bind_of_error hrun]
      refine iff_of_false (fun h => ?_) ?_
      · have huntouched := h (not_isCreated_error error)
        exact not_untouched_of_secret htaken (SameCredentials.refl _) huntouched
      · rintro (h | ⟨e, h⟩ | ⟨h, -⟩)
        · exact htaken h
        · cases h
        · cases h
    | none =>
      have hsecret : secretOf deps (withSecret deps r s) r.secretRef =
          .ok (some ⟨r.secret, .webhook_secret, none, none⟩) :=
        @getCredential_of_putCredential deps.cipher deps.encryptionKey s.credentials _ r.secretRef
          r.iv r.iv r.now ⟨.webhook_secret, r.secret, none, none, none, none⟩ (if_neg htaken)
      have hkeep : SameCredentials (withSecret deps r s)
          ((insert deps o r input).run (withSecret deps r s)).2 :=
        SameCredentials.insert deps o r input _
      rw [faulty, Effect.bind_of_ok hput, isCreated_insert_iff, insert_succeeds_iff hsecret]
      constructor
      · intro h
        by_contra hnot
        refine not_untouched_of_secret htaken hkeep (h fun hends => hnot (.inr (.inr ?_)))
        exact ⟨rfl, hends⟩
      · rintro (h | ⟨e, h⟩ | ⟨-, hends⟩) hfailed
        · exact absurd h htaken
        · cases h
        · exact absurd hends hfailed

/-- No call fails. -/
def succeeding : Outcomes := ⟨none, none, none, none, .ok (some "ce"), none, none⟩

def sampleRequest : CreateRequest where
  body := .obj [("workspaceUuid", .str "ws1"), ("hulyProjectRef", .str "project"),
    ("gitlabProjectId", .num 7), ("gitlabProjectPath", .str "group/project"),
    ("credentialRef", .str "0123456789abcdef01234567")]
  id := "b1"
  secretRef := "c1"
  iv := "iv1"
  secret := "first"
  now := 0

/-- GitLab is down when the hook is to be registered: the secret and the binding stay. -/
theorem not_atomic_of_unavailable :
    ¬ ∀ (deps : Deps) (o : Outcomes) (r : CreateRequest) (s : Registrations),
      Atomic deps o r s := by
  intro hall
  let deps : Deps := ⟨⟨fun plaintext iv _ => ⟨plaintext, iv, ""⟩, fun enc _ => .ok enc.ciphertext,
    fun _ _ _ => rfl⟩, "key", true, some "https://bridge.example"⟩
  have huntouched := hall deps
    { succeeding with createHook := some ⟨.status 503 "Service Unavailable", false⟩ }
    sampleRequest .initial (by rintro ⟨_, _, _, h⟩; cases h)
  have hbindings := congrArg OrderedMap.keys huntouched.bindings
  exact absurd hbindings (by decide +kernel)

end HulyGitlab.BindingCreation
