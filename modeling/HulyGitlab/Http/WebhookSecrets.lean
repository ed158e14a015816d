import HulyGitlab.Http.Webhook
import HulyGitlab.Sync.WebhookRegistration

/-!
# Who may call the webhook route

A ring of keys says what the stored secrets are for: each binding has one, the
one that was drawn for it last. The binding routes keep the collections in step
with the ring, whatever GitLab answers, and the webhook route opens to its keys
alone.
-/

namespace HulyGitlab.BindingLifecycle

open Effect

/-- The place of a binding, and the secret that its callers show. -/
structure Key where
  workspaceUuid : String
  gitlabProjectId : Int
  secret : String
  deriving DecidableEq

abbrev Keyring := OrderedMap String Key

/-- Another binding has the place, or the id is given. -/
def Keyring.Taken (k : Keyring) (id : String) (input : CreateBindingInput) : Prop :=
  id ∈ k.keys ∨ ∃ entry ∈ k.entries, entry.2.workspaceUuid = input.workspaceUuid ∧
    entry.2.gitlabProjectId = input.gitlabProjectId

instance (k : Keyring) (id : String) (input : CreateBindingInput) : Decidable (k.Taken id input) :=
  inferInstanceAs (Decidable (_ ∨ _))

def Keyring.step (k : Keyring) : Request × Answers → Keyring
  | (.create id _ _ secret _ input, _) =>
      if k.Taken id input then k
      else k.set id ⟨input.workspaceUuid, input.gitlabProjectId, secret⟩
  | (.rotateSecret id _ newSecret, _) =>
      match k.get? id with
      | none => k
      | some key => k.set id { key with secret := newSecret }
  | (.reRegisterWebhook _, _) => k
  | (.delete id, _) => k.delete id

/-- The id of a new secret is new. -/
def DrawsNew (s : Registrations) : Request × Answers → Prop
  | (.create _ secretRef _ _ _ _, _) => secretRef ∉ s.credentials.keys
  | _ => True

instance (s : Registrations) : (a : Request × Answers) → Decidable (DrawsNew s a)
  | (.create _ secretRef _ _ _ _, _) => inferInstanceAs (Decidable (secretRef ∉ s.credentials.keys))
  | (.rotateSecret _ _ _, _) => inferInstanceAs (Decidable True)
  | (.reRegisterWebhook _, _) => inferInstanceAs (Decidable True)
  | (.delete _, _) => inferInstanceAs (Decidable True)

/-- A binding without its flags. -/
def core (b : HookedBinding) : HookedBinding :=
  { b with webhookId := none, webhookRegistered := false }

section Flags

/-- Nothing but hooks and flags has changed. -/
structure SameKeys (s s' : Registrations) : Prop where
  credentials : s'.credentials = s.credentials
  bindings : ∀ id, (s'.bindings.get? id).map core = (s.bindings.get? id).map core

theorem SameKeys.refl (s : Registrations) : SameKeys s s := ⟨rfl, fun _ => rfl⟩

theorem SameKeys.trans (a b c : Registrations) (h : SameKeys a b) (h' : SameKeys b c) :
    SameKeys a c :=
  ⟨h'.credentials.trans h.credentials, fun id => (h'.bindings id).trans (h.bindings id)⟩

/-- What changes nothing but hooks and flags. -/
abbrev Flagging {A : Type} (m : Lifecycle A) : Prop := Within SameKeys m

theorem Flagging.pure {A : Type} (a : A) : Flagging (pure a) := Within.pure SameKeys.refl a

theorem Flagging.bind {A B : Type} {m : Lifecycle A} {f : A → Lifecycle B} (hm : Flagging m)
    (hf : ∀ a, Flagging (f a)) : Flagging (m >>= f) := Within.bind SameKeys.trans hm hf

theorem Flagging.attempt {A : Type} {m : Lifecycle A} {handler : ApiFailure → Lifecycle A}
    (hm : Flagging m) (hh : ∀ e, Flagging (handler e)) : Flagging (Effect.attempt m handler) :=
  Within.attempt SameKeys.trans hm hh

theorem createProjectWebhook_flagging (ans : Answers) (body : Hook) :
    Flagging (createProjectWebhook ans body) := by
  intro s
  rw [createProjectWebhook, step_run]
  cases ans.createHook with
  | none => exact ⟨rfl, fun _ => rfl⟩
  | some e => exact SameKeys.refl s

theorem deleteProjectWebhook_flagging (ans : Answers) (projectId : Int) (hookId : Nat) :
    Flagging (deleteProjectWebhook ans projectId hookId) := by
  intro s
  rw [deleteProjectWebhook, step_run]
  split
  · exact SameKeys.refl s
  · exact SameKeys.refl s
  · exact ⟨rfl, fun _ => rfl⟩

theorem updateProjectWebhook_flagging (ans : Answers) (projectId : Int) (hookId : Nat)
    (body : Hook) : Flagging (updateProjectWebhook ans projectId hookId body) := by
  intro s
  rw [updateProjectWebhook, step_run]
  split
  · exact SameKeys.refl s
  · exact SameKeys.refl s
  · exact ⟨rfl, fun _ => rfl⟩

theorem updateBinding_flagging (id : String) {update : HookedBinding → HookedBinding}
    (hcore : ∀ b, core (update b) = core b) : Flagging (updateBinding id update) := by
  intro s
  rw [updateBinding, modify_run]
  dsimp only
  cases hb : s.bindings.get? id with
  | none => exact SameKeys.refl s
  | some b =>
    refine ⟨rfl, fun j => ?_⟩
    dsimp only
    rw [OrderedMap.get?_set]
    split
    · rename_i hj
      rw [hj, hb, Option.map_some, Option.map_some, hcore]
    · rfl

theorem getSecret_flagging (deps : Deps) (ref : String) : Flagging (getSecret deps ref) := by
  intro s
  rw [getSecret, step_run]
  cases secretOf deps s ref <;> exact SameKeys.refl s

theorem markRegistered_flagging (id : String) (hookId : Nat) :
    Flagging (markRegistered id hookId) :=
  updateBinding_flagging id fun _ => rfl

theorem register_flagging (ans : Answers) (id : String) (body : Hook) :
    Flagging (register ans id body) := by
  apply Flagging.bind (createProjectWebhook_flagging ans body)
  intro hookId
  exact Flagging.bind (markRegistered_flagging id hookId) fun _ => Flagging.pure _

theorem refresh_flagging (ans : Answers) (id : String) (webhookId : Nat) (body : Hook) :
    Flagging (refresh ans id webhookId body) := by
  apply Flagging.bind (updateProjectWebhook_flagging ans body.projectId webhookId body)
  intro hookId
  exact Flagging.bind (markRegistered_flagging id hookId) fun _ => Flagging.pure _

theorem refused_flagging {onRefused : Lifecycle Unit} (h : Flagging onRefused) (e : ApiFailure) :
    Flagging (refused onRefused e) := by
  cases e with
  | other e => exact Within.throw SameKeys.refl _
  | status statusCode message =>
    apply Within.ite
    · intro _
      exact Flagging.bind h fun _ => Flagging.pure _
    · intro _
      exact Within.throw SameKeys.refl _

variable (deps : Deps) (ans : Answers) (id : String) (b : HookedBinding) (publicBaseUrl : String)

theorem onBindingCreate_flagging : Flagging (onBindingCreate deps ans id b publicBaseUrl) := by
  apply Flagging.bind (getSecret_flagging deps b.webhookSecretRef)
  intro secretCred
  cases secretCred with
  | none => exact Flagging.pure _
  | some cred =>
    cases ans.client with
    | error reason => exact Flagging.pure _
    | ok edition =>
      apply Flagging.attempt (register_flagging ans id _)
      exact refused_flagging (updateBinding_flagging id fun _ => rfl)

theorem rotateWebhookSecret_flagging (newSecret : String) :
    Flagging (rotateWebhookSecret ans id b newSecret publicBaseUrl) := by
  unfold rotateWebhookSecret
  cases b.webhookId with
  | none => exact Flagging.pure _
  | some webhookId =>
    cases ans.client with
    | error reason => exact Flagging.pure _
    | ok edition =>
      apply Flagging.bind
      · apply Flagging.attempt (deleteProjectWebhook_flagging ans b.gitlabProjectId webhookId)
        exact fun _ => Flagging.pure _
      · intro _
        apply Flagging.attempt (register_flagging ans id _)
        exact refused_flagging (updateBinding_flagging id fun _ => rfl)

theorem reRegisterWebhook_flagging :
    Flagging (reRegisterWebhook deps ans id b publicBaseUrl) := by
  unfold reRegisterWebhook
  cases b.webhookId with
  | none =>
    apply Within.ite
    · exact fun _ => Flagging.pure _
    · exact fun _ => onBindingCreate_flagging deps ans id b publicBaseUrl
  | some webhookId =>
    apply Flagging.bind (getSecret_flagging deps b.webhookSecretRef)
    intro secretCred
    cases secretCred with
    | none => exact Flagging.pure _
    | some cred =>
      cases ans.client with
      | error reason => exact Flagging.pure _
      | ok edition =>
        apply Flagging.attempt (refresh_flagging ans id webhookId _)
        exact refused_flagging (updateBinding_flagging id fun _ => rfl)

theorem onBindingDelete_flagging : Flagging (onBindingDelete ans b) := by
  unfold onBindingDelete
  split
  · apply Flagging.attempt (deleteProjectWebhook_flagging ans b.gitlabProjectId _)
    exact fun _ => Flagging.pure _
  · exact Flagging.pure _

theorem withLifecycle_flagging (otherwise : HookResult) {service : String → Lifecycle HookResult}
    (h : ∀ url, Flagging (service url)) : Flagging (withLifecycle deps otherwise service) := by
  unfold withLifecycle
  split
  · exact h _
  · exact Flagging.pure _

end Flags

section Ring

variable {deps : Deps} {s s' : Registrations} {k : Keyring} {id : String} {b : HookedBinding}

/-- The key that the collections hold for a binding. -/
def keyAt (deps : Deps) (s : Registrations) (b : HookedBinding) : Option Key :=
  match secretOf deps s b.webhookSecretRef with
  | .ok (some cred) => some ⟨b.workspaceUuid, b.gitlabProjectId, cred.plaintext⟩
  | _ => none

/-- The bindings have the keys of the ring, each stored on its own. -/
structure Held (deps : Deps) (s : Registrations) (k : Keyring) : Prop where
  keys : ∀ id, (s.bindings.get? id).map (keyAt deps s) = (k.get? id).map some
  ownSecret : ∀ id id' b b', s.bindings.get? id = some b → s.bindings.get? id' = some b' →
    b.webhookSecretRef = b'.webhookSecretRef → id = id'

theorem keyAt_eq_some_iff {key : Key} :
    keyAt deps s b = some key ↔ ∃ cred, secretOf deps s b.webhookSecretRef = .ok (some cred) ∧
      key = ⟨b.workspaceUuid, b.gitlabProjectId, cred.plaintext⟩ := by
  unfold keyAt
  constructor
  · intro h
    split at h
    · rename_i cred hcred
      exact ⟨cred, hcred, (Option.some.inj h).symm⟩
    · cases h
  · rintro ⟨cred, hcred, rfl⟩
    rw [hcred]

theorem keyAt_congr (h : s'.credentials.get? b.webhookSecretRef =
    s.credentials.get? b.webhookSecretRef) : keyAt deps s' b = keyAt deps s b := by
  rw [keyAt, secretOf_congr h]
  rfl

theorem held_initial : Held deps .initial .empty := ⟨fun _ => rfl, fun _ _ _ _ h => by cases h⟩

namespace Held

variable (h : Held deps s k)
include h

theorem get?_eq_none_iff (id : String) : k.get? id = none ↔ s.bindings.get? id = none := by
  have hkeys := h.keys id
  rw [← Option.map_eq_none_iff (f := some), ← hkeys, Option.map_eq_none_iff]

theorem of_binding (hb : s.bindings.get? id = some b) :
    ∃ key, k.get? id = some key ∧ keyAt deps s b = some key := by
  have hkeys := h.keys id
  rw [hb] at hkeys
  obtain ⟨key, hkey, heq⟩ := Option.map_eq_some_iff.mp hkeys.symm
  exact ⟨key, hkey, heq.symm⟩

theorem of_key {key : Key} (hkey : k.get? id = some key) :
    ∃ b, s.bindings.get? id = some b ∧ keyAt deps s b = some key := by
  have hkeys := h.keys id
  rw [hkey] at hkeys
  exact Option.map_eq_some_iff.mp hkeys

/-- The secret of a binding is stored. -/
theorem stored (hb : s.bindings.get? id = some b) :
    ∃ cred, secretOf deps s b.webhookSecretRef = .ok (some cred) := by
  obtain ⟨key, -, hkey⟩ := h.of_binding hb
  obtain ⟨cred, hcred, -⟩ := keyAt_eq_some_iff.mp hkey
  exact ⟨cred, hcred⟩

theorem sameKeys (hsame : SameKeys s s') : Held deps s' k := by
  have hcredentials := hsame.credentials
  refine ⟨fun id => ?_, fun id id' b b' hb hb' href => ?_⟩
  · rw [← h.keys id]
    have hkeyAt : ∀ o : Option HookedBinding,
        o.map (keyAt deps s') = (o.map core).map (keyAt deps s) := by
      intro o
      rw [Option.map_map]
      cases o with
      | none => rfl
      | some b =>
        have hb : keyAt deps s' b = keyAt deps s b := keyAt_congr (by rw [hcredentials])
        exact congrArg some hb
    have hself : (s.bindings.get? id).map (keyAt deps s) =
        ((s.bindings.get? id).map core).map (keyAt deps s) := by
      rw [Option.map_map]
      rfl
    rw [hkeyAt, hsame.bindings id, hself]
  · have hcore : ∀ {j bj}, s'.bindings.get? j = some bj →
        ∃ old, s.bindings.get? j = some old ∧ core old = core bj := by
      intro j bj hbj
      have hj := hsame.bindings j
      rw [hbj] at hj
      exact Option.map_eq_some_iff.mp hj.symm
    obtain ⟨old, hold, heq⟩ := hcore hb
    obtain ⟨old', hold', heq'⟩ := hcore hb'
    apply h.ownSecret id id' old old' hold hold'
    calc (core old).webhookSecretRef = (core b).webhookSecretRef := by rw [heq]
      _ = (core b').webhookSecretRef := href
      _ = (core old').webhookSecretRef := by rw [heq']

theorem flagging {A : Type} {m : Lifecycle A} (hm : Flagging m) : Held deps (m.run s).2 k :=
  h.sameKeys (hm s)

/-- The index turns a binding down when its place is taken on the ring. -/
theorem taken_iff (input : CreateBindingInput) :
    (id ∈ s.bindings.keys ∨ ∃ entry ∈ s.bindings.entries,
      entry.2.workspaceUuid = input.workspaceUuid ∧
        entry.2.gitlabProjectId = input.gitlabProjectId) ↔ k.Taken id input := by
  have hid : id ∈ s.bindings.keys ↔ id ∈ k.keys := by
    rw [← not_iff_not, ← OrderedMap.get?_eq_none_iff, ← OrderedMap.get?_eq_none_iff,
      h.get?_eq_none_iff]
  apply or_congr hid
  constructor
  · rintro ⟨⟨j, b⟩, hentry, hplace⟩
    obtain ⟨key, hkey, hat⟩ := h.of_binding (OrderedMap.get?_of_mem_entries hentry)
    obtain ⟨cred, -, rfl⟩ := keyAt_eq_some_iff.mp hat
    exact ⟨(j, _), OrderedMap.mem_entries_of_get? hkey, hplace⟩
  · rintro ⟨⟨j, key⟩, hentry, hplace⟩
    obtain ⟨b, hb, hat⟩ := h.of_key (OrderedMap.get?_of_mem_entries hentry)
    obtain ⟨cred, -, rfl⟩ := keyAt_eq_some_iff.mp hat
    exact ⟨(j, b), OrderedMap.mem_entries_of_get? hb, hplace⟩

/-- A secret that is new stands beside the ones of the bindings. -/
theorem addSecret {secretRef : String} (hnew : secretRef ∉ s.credentials.keys)
    (doc : CredentialDoc) :
    Held deps { s with credentials := s.credentials.set secretRef doc } k := by
  refine ⟨fun id => ?_, h.ownSecret⟩
  rw [← h.keys id]
  apply Option.map_congr
  intro b hb
  have hne : b.webhookSecretRef ≠ secretRef := stored_ne hnew (h.stored hb)
  exact keyAt_congr (OrderedMap.get?_set_of_ne _ hne _)

/-- A binding with a new secret is a new key. -/
theorem addBinding
    (hown : ∀ j bj, s.bindings.get? j = some bj → bj.webhookSecretRef ≠ b.webhookSecretRef)
    {key : Key} (hkey : keyAt deps s b = some key) :
    Held deps { s with bindings := s.bindings.set id b } (k.set id key) := by
  refine ⟨fun j => ?_, fun j j' bj bj' hj hj' href => ?_⟩
  · dsimp only
    rw [OrderedMap.get?_set, OrderedMap.get?_set]
    split
    · exact congrArg some hkey
    · exact h.keys j
  · dsimp only at hj hj'
    rw [OrderedMap.get?_set] at hj hj'
    split at hj
    · rename_i hjid
      cases hj
      split at hj'
      · rename_i hjid'
        rw [hjid, hjid']
      · exact absurd href.symm (hown j' bj' hj')
    · split at hj'
      · cases hj'
        exact absurd href (hown j bj hj)
      · exact h.ownSecret j j' bj bj' hj hj' href

/-- The stored secret of a binding is replaced. -/
theorem rotate (hb : s.bindings.get? id = some b) {key : Key} (hkey : k.get? id = some key)
    (iv newSecret : String) :
    Held deps (rotated deps s b iv newSecret) (k.set id { key with secret := newSecret }) := by
  refine ⟨fun j => ?_, h.ownSecret⟩
  rw [OrderedMap.get?_set]
  split
  · rename_i hj
    obtain ⟨old, hold, hat⟩ := h.of_binding hb
    obtain rfl : key = old := Option.some.inj (hkey.symm.trans hold)
    obtain ⟨cred, hcred, rfl⟩ := keyAt_eq_some_iff.mp hat
    have hbinding : (rotated deps s b iv newSecret).bindings.get? j = some b := hj ▸ hb
    rw [hbinding]
    exact congrArg some (keyAt_eq_some_iff.mpr ⟨_, rotated_secret iv newSecret hcred, rfl⟩)
  · rename_i hj
    rw [← h.keys j]
    apply Option.map_congr
    intro bj hbj
    apply keyAt_congr
    apply get?_rotateCredential_of_ne
    exact fun href => hj (h.ownSecret j id bj b hbj hb href)

theorem removeBinding (hb : s.bindings.get? id = some b) :
    Held deps
      { s with
        credentials := deleteCredential s.credentials b.webhookSecretRef
        bindings := s.bindings.delete id } (k.delete id) := by
  refine ⟨fun j => ?_, fun j j' bj bj' hj hj' href => ?_⟩
  · dsimp only
    rw [OrderedMap.get?_delete, OrderedMap.get?_delete]
    split
    · rfl
    · rename_i hj
      rw [← h.keys j]
      apply Option.map_congr
      intro bj hbj
      apply keyAt_congr
      apply OrderedMap.get?_delete_of_ne
      exact fun href => hj (h.ownSecret j id bj b hbj hb href)
  · dsimp only at hj hj'
    rw [OrderedMap.get?_delete] at hj hj'
    split at hj
    · cases hj
    · split at hj'
      · cases hj'
      · exact h.ownSecret j j' bj bj' hj hj' href

theorem create (secretRef iv secret : String) (now : Nat) (input : CreateBindingInput)
    (ans : Answers) (hnew : secretRef ∉ s.credentials.keys) :
    Held deps (step deps s (.create id secretRef iv secret now input, ans))
      (k.step (.create id secretRef iv secret now input, ans)) := by
  let doc := credentialDoc deps.cipher deps.encryptionKey iv iv now
    ⟨.webhook_secret, secret, none, none, none, none⟩
  have hput : putCredential deps.cipher deps.encryptionKey s.credentials secretRef iv iv now
      ⟨.webhook_secret, secret, none, none, none, none⟩ =
        .ok (s.credentials.set secretRef doc) := if_neg hnew
  let s₁ : Registrations := { s with credentials := s.credentials.set secretRef doc }
  have hrun : (putSecret deps secretRef iv secret now).run s = (.ok (), s₁) := by
    rw [putSecret, step_run, hput]
  have h₁ : Held deps s₁ k := h.addSecret hnew doc
  unfold step handle
  rw [bind_of_ok hrun, Keyring.step]
  by_cases htaken : k.Taken id input
  · have hcreate : (createBinding id secretRef input).run s₁ =
        (.error (.other .duplicateKey), s₁) := by
      rw [createBinding, step_run, if_pos (h₁.taken_iff input |>.mpr htaken)]
    rw [bind_of_error hcreate, if_pos htaken]
    exact h₁
  · let b : HookedBinding :=
      ⟨input.workspaceUuid, input.gitlabProjectId, input.credentialRef, secretRef, none, false⟩
    have hcreate : (createBinding id secretRef input).run s₁ =
        (.ok (), { s₁ with bindings := s₁.bindings.set id b }) := by
      rw [createBinding, step_run, if_neg (mt (h₁.taken_iff input).mp htaken)]
    have hkey : keyAt deps s₁ b = some ⟨input.workspaceUuid, input.gitlabProjectId, secret⟩ :=
      keyAt_eq_some_iff.mpr ⟨_, getCredential_of_putCredential _ _ hput, rfl⟩
    have hown : ∀ j bj, s₁.bindings.get? j = some bj →
        bj.webhookSecretRef ≠ b.webhookSecretRef := fun j bj hbj => stored_ne hnew (h.stored hbj)
    rw [bind_of_ok hcreate, bind_pure_snd, if_neg htaken]
    apply (h₁.addBinding hown hkey).flagging
    apply withLifecycle_flagging
    intro url
    apply Flagging.bind (Within.gets SameKeys.refl _)
    intro found
    cases found with
    | none => exact Flagging.pure _
    | some binding => exact onBindingCreate_flagging deps ans id binding url

theorem rotateSecret (iv newSecret : String) (ans : Answers) :
    Held deps (step deps s (.rotateSecret id iv newSecret, ans))
      (k.step (.rotateSecret id iv newSecret, ans)) := by
  rw [Keyring.step]
  cases hb : s.bindings.get? id with
  | none =>
    rw [step_rotateSecret_of_none hb, (h.get?_eq_none_iff id).mpr hb]
    exact h
  | some b =>
    obtain ⟨key, hkey, -⟩ := h.of_binding hb
    rw [step_rotateSecret_of_some hb, rotateSecretRoute, modify_bind_run, hkey]
    apply (h.rotate hb hkey iv newSecret).flagging
    apply Within.ite
    · intro _
      apply withLifecycle_flagging
      intro url
      apply Flagging.bind (rotateWebhookSecret_flagging ans id b url newSecret)
      exact fun _ => Flagging.pure _
    · exact fun _ => Flagging.pure _

theorem reRegister (ans : Answers) : Held deps (step deps s (.reRegisterWebhook id, ans)) k := by
  unfold step handle
  dsimp only
  rw [getBinding, gets_bind_run]
  cases s.bindings.get? id with
  | none => exact h
  | some b =>
    dsimp only
    rw [bind_pure_snd]
    apply h.flagging
    apply withLifecycle_flagging
    exact fun url => reRegisterWebhook_flagging deps ans id b url

omit h in
/-- A deletion removes hooks at most, and goes on. -/
theorem onBindingDelete_ends (ans : Answers) (b : HookedBinding) :
    ∃ hooks, (onBindingDelete ans b).run s = (.ok (), { s with hooks := hooks }) := by
  unfold onBindingDelete
  split
  · rename_i webhookId _ _ _
    obtain ⟨hooks, heq, -⟩ := unhooked_eq ans s b.gitlabProjectId webhookId
    exact ⟨hooks, by rw [attempt_deleteProjectWebhook_run, heq]⟩
  · exact ⟨s.hooks, rfl⟩

theorem withHooks (hooks : OrderedMap Nat Hook) : Held deps { s with hooks := hooks } k :=
  h.sameKeys ⟨rfl, fun _ => rfl⟩

theorem delete (ans : Answers) : Held deps (step deps s (.delete id, ans)) (k.delete id) := by
  unfold step handle
  dsimp only
  rw [getBinding, gets_bind_run]
  cases hb : s.bindings.get? id with
  | none =>
    refine ⟨fun j => ?_, h.ownSecret⟩
    have hkeep : (k.delete id).get? j = k.get? j := by
      rw [OrderedMap.get?_delete]
      split
      · rename_i hj
        rw [hj, (h.get?_eq_none_iff id).mpr hb]
      · rfl
    rw [hkeep]
    exact h.keys j
  | some b =>
    dsimp only
    split
    · obtain ⟨hooks, hrun⟩ := onBindingDelete_ends (s := s) ans b
      rw [bind_of_ok hrun, modify_bind_run]
      exact (h.withHooks hooks).removeBinding hb
    · rw [modify_bind_run]
      exact h.removeBinding hb

/-- The routes move the collections as the ring moves. -/
theorem step {a : Request × Answers} (hnew : DrawsNew s a) :
    Held deps (BindingLifecycle.step deps s a) (k.step a) := by
  obtain ⟨request, ans⟩ := a
  cases request with
  | create id secretRef iv secret now input => exact h.create secretRef iv secret now input ans hnew
  | rotateSecret id iv newSecret => exact h.rotateSecret iv newSecret ans
  | reRegisterWebhook id => exact h.reRegister ans
  | delete id => exact h.delete ans

end Held

end Ring

section Callers

open Webhook

variable (deps : Deps) (disabled : String → Bool) (now : Nat)

/-- What a request to the webhook route finds in the collections. -/
def lookups (s : Registrations) : Lookups where
  getBinding id := .ok ((s.bindings.get? id).map fun b => ⟨disabled id, b.webhookSecretRef⟩)
  getCredential ref := (secretOf deps s ref).map fun cred => cred.map (·.plaintext)
  now := now

/-- The route would look at the token. -/
def Asks (req : WebhookRequest) : Prop :=
  BindingCreation.isObjectId req.bindingId = true ∧
    (∀ header ∈ req.eventHeader, header ∉ CONFIDENTIAL_HOOKS) ∧ disabled req.bindingId = false

variable {deps disabled now} {s : Registrations} {k : Keyring}

/-- Who is let in, when the secret of the binding is stored. -/
theorem checkCaller_of_stored {q : Lookups} {req : WebhookRequest} {b : WebhookBinding}
    {text : String} (hb : q.getBinding req.bindingId = .ok (some b))
    (hc : q.getCredential b.webhookSecretRef = .ok (some text)) :
    checkCaller q req = .ok () ↔
      (BindingCreation.isObjectId req.bindingId = true ∧
          (∀ header ∈ req.eventHeader, header ∉ CONFIDENTIAL_HOOKS) ∧ b.disabled = false) ∧
        req.tokenHeader = some text ∧ text ≠ "" := by
  have hheaders : ¬ (req.eventHeader.any fun header => header ∈ CONFIDENTIAL_HOOKS) = true ↔
      ∀ header ∈ req.eventHeader, header ∉ CONFIDENTIAL_HOOKS := by
    cases req.eventHeader <;> simp
  have htoken : ¬ (req.tokenHeader.getD "" = "" ∨ req.tokenHeader ≠ some text) ↔
      req.tokenHeader = some text ∧ text ≠ "" := by
    rw [not_or, not_not]
    constructor
    · rintro ⟨hne, htext⟩
      rw [htext] at hne
      exact ⟨htext, hne⟩
    · rintro ⟨htext, hne⟩
      rw [htext]
      exact ⟨hne, rfl⟩
  unfold checkCaller
  rw [hb]
  dsimp only
  rw [hc, ← htoken, ← hheaders]
  split_ifs with hid hconf hdis
  · exact iff_of_false id fun h => by simp [h.1.1] at hid
  · exact iff_of_false id fun h => h.1.2.1 hconf
  · exact iff_of_false id fun h => by simp [h.1.2.2] at hdis
  · have hasks : BindingCreation.isObjectId req.bindingId = true ∧
        ¬ (req.eventHeader.any fun header => header ∈ CONFIDENTIAL_HOOKS) = true ∧
          b.disabled = false :=
      ⟨by simpa using hid, hconf, eq_false_of_ne_true hdis⟩
    dsimp only
    split_ifs with hbad
    · exact iff_of_false id fun h => h.2 hbad
    · exact iff_of_true rfl ⟨hasks, hbad⟩

/-- Nobody is let in where there is no binding. -/
theorem checkCaller_of_none {q : Lookups} {req : WebhookRequest}
    (hb : q.getBinding req.bindingId = .ok none) : checkCaller q req ≠ .ok () := by
  unfold checkCaller
  rw [hb]
  split_ifs <;> rintro ⟨⟩

/-- The caller is let in by the key of the ring. -/
theorem Held.checkCaller_iff (h : Held deps s k) (req : WebhookRequest) :
    checkCaller (lookups deps disabled now s) req = .ok () ↔
      Asks disabled req ∧ ∃ key, k.get? req.bindingId = some key ∧
        req.tokenHeader = some key.secret ∧ key.secret ≠ "" := by
  cases hb : s.bindings.get? req.bindingId with
  | none =>
    have hnone : (lookups deps disabled now s).getBinding req.bindingId = .ok none := by
      dsimp only [lookups]
      rw [hb]
      rfl
    refine iff_of_false (checkCaller_of_none hnone) ?_
    rintro ⟨-, key, hkey, -⟩
    rw [(h.get?_eq_none_iff req.bindingId).mpr hb] at hkey
    cases hkey
  | some b =>
    obtain ⟨key, hkey, hat⟩ := h.of_binding hb
    obtain ⟨cred, hcred, rfl⟩ := keyAt_eq_some_iff.mp hat
    have hbinding : (lookups deps disabled now s).getBinding req.bindingId =
        .ok (some ⟨disabled req.bindingId, b.webhookSecretRef⟩) := by
      dsimp only [lookups]
      rw [hb]
      rfl
    have hsecret : (lookups deps disabled now s).getCredential b.webhookSecretRef =
        .ok (some cred.plaintext) := by
      dsimp only [lookups]
      rw [hcred]
      rfl
    rw [checkCaller_of_stored hbinding hsecret, hkey]
    constructor
    · rintro ⟨hasks, htoken⟩
      exact ⟨hasks, _, rfl, htoken⟩
    · rintro ⟨hasks, _, ⟨⟩, htoken⟩
      exact ⟨hasks, htoken⟩

theorem held_exec {requests : List (Request × Answers)}
    (hnew : Transition.Along (step deps) DrawsNew .initial requests) :
    Held deps (Transition.exec (step deps) .initial requests)
      (Transition.exec Keyring.step .empty requests) :=
  Transition.exec_simulates (fun _ _ _ h hnew => h.step hnew) held_initial hnew

/-- After every run of the binding routes, whatever GitLab answered, a caller is let in exactly if
it asks for a binding that takes calls and shows the secret drawn for this binding last. -/
theorem letIn_iff_holdsKey {requests : List (Request × Answers)}
    (hnew : Transition.Along (step deps) DrawsNew .initial requests) (req : WebhookRequest) :
    checkCaller (lookups deps disabled now (Transition.exec (step deps) .initial requests)) req =
        .ok () ↔
      Asks disabled req ∧
        ∃ key, (Transition.exec Keyring.step .empty requests).get? req.bindingId = some key ∧
          req.tokenHeader = some key.secret ∧ key.secret ≠ "" :=
  (held_exec hnew).checkCaller_iff req

def sampleDeps : Deps := ⟨.plain, "key", true, some "https://bridge.example"⟩

/-- A binding is created; its secret is rotated while GitLab is down. -/
def sampleRequests : List (Request × Answers) :=
  [(.create "0123456789abcdef01234567" "c1" "iv1" "first" 0 ⟨"ws1", 7, "c0"⟩,
      ⟨.ok (some "ce"), none, none, none⟩),
    (.rotateSecret "0123456789abcdef01234567" "iv2" "second",
      ⟨.ok (some "ce"), some (.status 503 "down"), some (.status 503 "down"), none⟩)]

def sampleDelivery (token : String) : WebhookRequest :=
  ⟨"0123456789abcdef01234567", some "Issue Hook", some token, none, []⟩

/-- The new secret opens the route already, the old one does not. -/
theorem letIn_iff_holdsKey_rotated :
    let q := lookups sampleDeps (fun _ => false) 0
      (Transition.exec (step sampleDeps) .initial sampleRequests)
    checkCaller q (sampleDelivery "second") = .ok () ∧
      checkCaller q (sampleDelivery "first") ≠ .ok () := by
  have hnew : Transition.Along (step sampleDeps) DrawsNew .initial sampleRequests := by
    decide +kernel
  constructor
  · rw [letIn_iff_holdsKey hnew]
    exact ⟨⟨by decide +kernel, by decide +kernel, rfl⟩, ⟨"ws1", 7, "second"⟩, by decide +kernel,
      rfl, by decide⟩
  · rw [Ne, letIn_iff_holdsKey hnew]
    rintro ⟨-, key, hkey, htoken, -⟩
    have hring : (Transition.exec Keyring.step .empty sampleRequests).get?
        "0123456789abcdef01234567" = some ⟨"ws1", 7, "second"⟩ := by
      decide +kernel
    obtain rfl := Option.some.inj (hkey.symm.trans hring)
    exact absurd htoken (by decide)

/-- The secret that a request draws. -/
def drawnSecret : Request → Option String
  | .create _ _ _ secret _ _ => some secret
  | .rotateSecret _ _ newSecret => some newSecret
  | _ => none

/-- No binding has the secret. -/
def Keyring.Lacks (k : Keyring) (secret : String) : Prop :=
  ∀ id key, k.get? id = some key → key.secret ≠ secret

theorem Keyring.Lacks.step {secret : String} (h : k.Lacks secret) {a : Request × Answers}
    (hdrawn : drawnSecret a.1 ≠ some secret) : (k.step a).Lacks secret := by
  have hset : ∀ id key, key.secret ≠ secret → Keyring.Lacks (k.set id key) secret := by
    intro id key hkey j key' hget
    rw [OrderedMap.get?_set] at hget
    split at hget
    · cases hget
      exact hkey
    · exact h j key' hget
  obtain ⟨request, ans⟩ := a
  cases request with
  | create id secretRef iv drawn now input =>
    rw [Keyring.step]
    split
    · exact h
    · exact hset id _ fun heq => hdrawn (congrArg some heq)
  | rotateSecret id iv newSecret =>
    rw [Keyring.step]
    split
    · exact h
    · exact hset id _ fun heq => hdrawn (congrArg some heq)
  | reRegisterWebhook id => exact h
  | delete id =>
    intro j key hget
    rw [Keyring.step, OrderedMap.get?_delete] at hget
    split at hget
    · cases hget
    · exact h j key hget

/-- A secret that no binding has any more, because it was replaced or its binding deleted, opens
the route to nobody until it is drawn again. -/
theorem revoked_forGood {requests more : List (Request × Answers)}
    (hnew : Transition.Along (step deps) DrawsNew .initial (requests ++ more)) {secret : String}
    (hgone : ∀ id b cred,
      (Transition.exec (step deps) .initial requests).bindings.get? id = some b →
        secretOf deps (Transition.exec (step deps) .initial requests) b.webhookSecretRef =
          .ok (some cred) → cred.plaintext ≠ secret)
    (hdrawn : ∀ a ∈ more, drawnSecret a.1 ≠ some secret) {req : WebhookRequest}
    (htoken : req.tokenHeader = some secret) :
    checkCaller (lookups deps disabled now
      (Transition.exec (step deps) .initial (requests ++ more))) req ≠ .ok () := by
  have hheld := held_exec ((Transition.along_append _ _ _).mp hnew).1
  have hlacks : (Transition.exec Keyring.step .empty requests).Lacks secret := by
    intro id key hkey
    obtain ⟨b, hb, hat⟩ := hheld.of_key hkey
    obtain ⟨cred, hcred, rfl⟩ := keyAt_eq_some_iff.mp hat
    exact hgone id b cred hb hcred
  have hstays : (Transition.exec Keyring.step .empty (requests ++ more)).Lacks secret := by
    rw [Transition.exec_append]
    generalize Transition.exec Keyring.step .empty requests = ring at hlacks
    clear hnew
    induction more generalizing ring with
    | nil => exact hlacks
    | cons a more ih =>
      apply ih (fun b hb => hdrawn b (List.mem_cons_of_mem a hb))
      exact hlacks.step (hdrawn a List.mem_cons_self)
  rw [Ne, (held_exec hnew).checkCaller_iff req]
  rintro ⟨-, key, hkey, heq, -⟩
  exact hstays _ key hkey (Option.some.inj (heq.symm.trans htoken))

/-- The first secret of the binding stays out when another binding is created. -/
theorem revoked_forGood_rotated :
    checkCaller (lookups sampleDeps (fun _ => false) 0
      (Transition.exec (step sampleDeps) .initial (sampleRequests ++
        [(.create "89abcdef0123456789abcdef" "c2" "iv3" "third" 0 ⟨"ws1", 8, "c0"⟩,
          ⟨.ok none, none, none, none⟩)]))) (sampleDelivery "first") ≠ .ok () := by
  refine revoked_forGood (by decide +kernel) ?_ (by decide) rfl
  have hstored : ∀ b ∈ (Transition.exec (step sampleDeps) .initial sampleRequests).bindings.values,
      secretOf sampleDeps (Transition.exec (step sampleDeps) .initial sampleRequests)
        b.webhookSecretRef = .ok (some ⟨"second", .webhook_secret, none, none⟩) := by
    decide +kernel
  intro id b cred hb hcred
  have hsecond := hstored b ((OrderedMap.mem_values_iff _ _).mpr ⟨id, hb⟩)
  obtain rfl := Option.some.inj (Except.ok.inj (hsecond.symm.trans hcred))
  decide

end Callers

end HulyGitlab.BindingLifecycle
