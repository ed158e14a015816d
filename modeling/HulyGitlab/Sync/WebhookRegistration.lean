import HulyGitlab.Lib.Transition
import HulyGitlab.Sync.BindingLifecycle

/-!
# When a registered webhook works

A rotation replaces the stored secret first. The flags of the binding follow
only when GitLab has answered the registration of a new hook.
-/

namespace HulyGitlab

section Rotation

variable (cipher : Cipher) (key : String) (col : Credentials)

/-- A rotated credential is read back with its new text. -/
theorem getCredential_rotateCredential {id : String} {cred : CredentialResult}
    (h : getCredential cipher key col id = .ok (some cred)) (iv refreshIv text : String) :
    getCredential cipher key (rotateCredential cipher key col id iv refreshIv ⟨text, none, none⟩)
      id = .ok (some { cred with plaintext := text }) := by
  unfold getCredential at h ⊢
  unfold rotateCredential
  cases hdoc : col.get? id with
  | none =>
    rw [hdoc] at h
    cases h
  | some doc =>
    rw [hdoc] at h
    dsimp only at h ⊢
    rw [OrderedMap.get?_set_self]
    dsimp only
    rw [cipher.decrypt_encrypt]
    cases hv : cipher.decryptValue doc.value key with
    | error e =>
      rw [hv] at h
      cases h
    | ok plaintext =>
      rw [hv] at h
      cases ht : refreshTokenOf cipher key doc with
      | error e =>
        rw [ht] at h
        cases h
      | ok refresh =>
        rw [ht] at h
        cases h
        have hsame : refreshTokenOf cipher key
            { doc with value := cipher.encryptValue text iv key } = .ok refresh := ht
        dsimp only [Option.map, Option.orElse]
        rw [hsame]
        rfl

theorem get?_rotateCredential_of_ne {id other : String} (h : other ≠ id)
    (iv refreshIv : String) (input : RotateCredentialInput) :
    (rotateCredential cipher key col id iv refreshIv input).get? other = col.get? other := by
  unfold rotateCredential
  cases col.get? id with
  | none => rfl
  | some doc => exact OrderedMap.get?_set_of_ne _ h _

theorem getCredential_congr {col col' : Credentials} {id : String}
    (h : col'.get? id = col.get? id) :
    getCredential cipher key col' id = getCredential cipher key col id := by
  unfold getCredential
  rw [h]

end Rotation

namespace BindingLifecycle

/-- Every binding has a hook and a secret of its own. -/
structure Sound (deps : Deps) (s : Registrations) : Prop where
  hooks : ∀ webhookId hook, s.hooks.get? webhookId = some hook → webhookId < s.nextHookId
  webhookIds : ∀ id b webhookId, s.bindings.get? id = some b → b.webhookId = some webhookId →
    webhookId < s.nextHookId
  ownHook : ∀ id id' b b' webhookId, s.bindings.get? id = some b → s.bindings.get? id' = some b' →
    b.webhookId = some webhookId → b'.webhookId = some webhookId → id = id'
  secrets : ∀ id b, s.bindings.get? id = some b →
    ∃ secret, secretOf deps s b.webhookSecretRef = .ok (some secret)
  ownSecret : ∀ id id' b b', s.bindings.get? id = some b → s.bindings.get? id' = some b' →
    b.webhookSecretRef = b'.webhookSecretRef → id = id'

theorem sound_initial (deps : Deps) : Sound deps .initial where
  hooks := fun _ _ h => by cases h
  webhookIds := fun _ _ _ h => by cases h
  ownHook := fun _ _ _ _ _ h => by cases h
  secrets := fun _ _ h => by cases h
  ownSecret := fun _ _ _ _ h => by cases h

/-- What the binding says of its hook is true. -/
def TrueOf (deps : Deps) (s : Registrations) (b : HookedBinding) : Prop :=
  b.webhookRegistered = true →
    ∃ webhookId hook secret, b.webhookId = some webhookId ∧
      s.hooks.get? webhookId = some hook ∧ hook.projectId = b.gitlabProjectId ∧
      secretOf deps s b.webhookSecretRef = .ok (some secret) ∧ hook.token = secret.plaintext

/-- The bindings, hooks and secrets of the others stay as they are. -/
structure Elsewhere (deps : Deps) (id : String) (s s' : Registrations) : Prop where
  bindings : ∀ j, j ≠ id → s'.bindings.get? j = s.bindings.get? j
  hooks : ∀ j b webhookId, j ≠ id → s.bindings.get? j = some b → b.webhookId = some webhookId →
    s'.hooks.get? webhookId = s.hooks.get? webhookId
  secrets : ∀ j b, j ≠ id → s.bindings.get? j = some b →
    secretOf deps s' b.webhookSecretRef = secretOf deps s b.webhookSecretRef

section Steps

variable {deps : Deps} {id : String} {s s₁ s₂ : Registrations} {b : HookedBinding}

namespace Elsewhere

theorem refl (deps : Deps) (id : String) (s : Registrations) : Elsewhere deps id s s :=
  ⟨fun _ _ => rfl, fun _ _ _ _ _ _ => rfl, fun _ _ _ _ => rfl⟩

theorem trans (h : Elsewhere deps id s s₁) (h' : Elsewhere deps id s₁ s₂) :
    Elsewhere deps id s s₂ where
  bindings j hj := (h'.bindings j hj).trans (h.bindings j hj)
  hooks j b webhookId hj hb hid :=
    (h'.hooks j b webhookId hj ((h.bindings j hj).trans hb) hid).trans (h.hooks j b webhookId hj hb hid)
  secrets j b hj hb :=
    (h'.secrets j b hj ((h.bindings j hj).trans hb)).trans (h.secrets j b hj hb)

/-- Only what the binding itself says is left to be shown. -/
theorem truthful (h : Elsewhere deps id s s₁) (ht : Truthful deps s)
    (hown : ∀ b, s₁.bindings.get? id = some b → TrueOf deps s₁ b) : Truthful deps s₁ := by
  intro j b hb
  by_cases hj : j = id
  · subst hj
    exact hown b hb
  · intro hreg
    have hb' : s.bindings.get? j = some b := (h.bindings j hj).symm.trans hb
    obtain ⟨webhookId, hook, secret, hid, hhook, hproject, hsecret, htoken⟩ := ht j b hb' hreg
    exact ⟨webhookId, hook, secret, hid, (h.hooks j b webhookId hj hb' hid).trans hhook, hproject,
      (h.secrets j b hj hb').trans hsecret, htoken⟩

end Elsewhere

/-- The binding is written; its hook is the old one or one that no other binding has. -/
theorem sound_setBinding (hs : Sound deps s) (hb : s.bindings.get? id = some b)
    {b' : HookedBinding} (hsecret : b'.webhookSecretRef = b.webhookSecretRef)
    (hhook : ∀ webhookId, b'.webhookId = some webhookId → webhookId < s.nextHookId ∧
      ∀ j bj, j ≠ id → s.bindings.get? j = some bj → bj.webhookId ≠ some webhookId) :
    Sound deps { s with bindings := s.bindings.set id b' } := by
  have hget : ∀ {j bj}, (s.bindings.set id b').get? j = some bj →
      (j = id ∧ bj = b') ∨ (j ≠ id ∧ s.bindings.get? j = some bj) := by
    intro j bj hj
    rw [OrderedMap.get?_set] at hj
    split_ifs at hj with hid
    · exact .inl ⟨hid, (Option.some.inj hj).symm⟩
    · exact .inr ⟨hid, hj⟩
  refine ⟨hs.hooks, fun j bj webhookId hj hid => ?_, fun j j' bj bj' webhookId hj hj' hid hid' => ?_,
    fun j bj hj => ?_, fun j j' bj bj' hj hj' hsame => ?_⟩
  · obtain ⟨rfl, rfl⟩ | ⟨hne, hold⟩ := hget hj
    · exact (hhook webhookId hid).1
    · exact hs.webhookIds j bj webhookId hold hid
  · obtain ⟨rfl, rfl⟩ | ⟨hne, hold⟩ := hget hj
    · obtain ⟨rfl, rfl⟩ | ⟨hne', hold'⟩ := hget hj'
      · rfl
      · exact absurd hid' ((hhook webhookId hid).2 j' bj' hne' hold')
    · obtain ⟨rfl, rfl⟩ | ⟨hne', hold'⟩ := hget hj'
      · exact absurd hid ((hhook webhookId hid').2 j bj hne hold)
      · exact hs.ownHook j j' bj bj' webhookId hold hold' hid hid'
  · obtain ⟨rfl, rfl⟩ | ⟨hne, hold⟩ := hget hj
    · rw [hsecret]
      exact hs.secrets j b hb
    · exact hs.secrets j bj hold
  · obtain ⟨rfl, rfl⟩ | ⟨hne, hold⟩ := hget hj
    · obtain ⟨rfl, rfl⟩ | ⟨hne', hold'⟩ := hget hj'
      · rfl
      · exact hs.ownSecret j j' b bj' hb hold' (hsecret.symm.trans hsame)
    · obtain ⟨rfl, rfl⟩ | ⟨hne', hold'⟩ := hget hj'
      · exact hs.ownSecret j j' bj b hold hb (hsame.trans hsecret)
      · exact hs.ownSecret j j' bj bj' hold hold' hsame

theorem elsewhere_setBinding (deps : Deps) (id : String) (s : Registrations) (b' : HookedBinding) :
    Elsewhere deps id s { s with bindings := s.bindings.set id b' } :=
  ⟨fun _ hj => OrderedMap.get?_set_of_ne _ hj _, fun _ _ _ _ _ _ => rfl, fun _ _ _ _ => rfl⟩

/-- A new hook has an id that no binding has. -/
theorem sound_addHook (hs : Sound deps s) (body : Hook) :
    Sound deps
      { s with hooks := s.hooks.set s.nextHookId body, nextHookId := s.nextHookId + 1 } where
  hooks webhookId hook hhook := by
    rw [OrderedMap.get?_set] at hhook
    split_ifs at hhook with hid
    · exact hid ▸ Nat.lt_succ_self _
    · exact Nat.lt_succ_of_lt (hs.hooks webhookId hook hhook)
  webhookIds j bj webhookId hj hid := Nat.lt_succ_of_lt (hs.webhookIds j bj webhookId hj hid)
  ownHook := hs.ownHook
  secrets := hs.secrets
  ownSecret := hs.ownSecret

theorem elsewhere_addHook (hs : Sound deps s) (id : String) (body : Hook) :
    Elsewhere deps id s
      { s with hooks := s.hooks.set s.nextHookId body, nextHookId := s.nextHookId + 1 } := by
  refine ⟨fun _ _ => rfl, fun j bj webhookId _ hj hid => ?_, fun _ _ _ _ => rfl⟩
  have hlt := hs.webhookIds j bj webhookId hj hid
  exact OrderedMap.get?_set_of_ne _ (by omega) _

/-- The hook of the binding is changed or goes. -/
theorem sound_ownHooks (hs : Sound deps s) {hooks : OrderedMap Nat Hook} {webhookId : Nat}
    (hlt : webhookId < s.nextHookId)
    (hother : ∀ other, other ≠ webhookId → hooks.get? other = s.hooks.get? other) :
    Sound deps { s with hooks := hooks } where
  hooks other hook hhook := by
    by_cases hid : other = webhookId
    · exact hid ▸ hlt
    · exact hs.hooks other hook ((hother other hid).symm.trans hhook)
  webhookIds := hs.webhookIds
  ownHook := hs.ownHook
  secrets := hs.secrets
  ownSecret := hs.ownSecret

theorem elsewhere_ownHooks (hs : Sound deps s) (hb : s.bindings.get? id = some b)
    {webhookId : Nat} (hid : b.webhookId = some webhookId) {hooks : OrderedMap Nat Hook}
    (hother : ∀ other, other ≠ webhookId → hooks.get? other = s.hooks.get? other) :
    Elsewhere deps id s { s with hooks := hooks } := by
  refine ⟨fun _ _ => rfl, fun j bj other hj hbj hbid => hother other fun hsame => ?_,
    fun _ _ _ _ => rfl⟩
  exact hj (hs.ownHook j id bj b webhookId hbj hb (hsame ▸ hbid) hid)

/-- The others are as they were, and what the binding says is true. -/
structure Settles (deps : Deps) (id : String) (s s' : Registrations) : Prop where
  sound : Sound deps s'
  elsewhere : Elsewhere deps id s s'
  own : ∀ b, s'.bindings.get? id = some b → TrueOf deps s' b

theorem Settles.after (h : Settles deps id s₁ s₂) (he : Elsewhere deps id s s₁) :
    Settles deps id s s₂ := ⟨h.sound, he.trans h.elsewhere, h.own⟩

theorem Settles.same (hs : Sound deps s) (hb : s.bindings.get? id = some b)
    (htrue : TrueOf deps s b) : Settles deps id s s :=
  ⟨hs, Elsewhere.refl deps id s, fun _ hb' => Option.some.inj (hb.symm.trans hb') ▸ htrue⟩

/-- A binding that claims nothing. -/
theorem Settles.unregistered (hs : Sound deps s) (hb : s.bindings.get? id = some b)
    {b' : HookedBinding} (hsecret : b'.webhookSecretRef = b.webhookSecretRef)
    (hhook : b'.webhookId = none ∨ b'.webhookId = b.webhookId)
    (hreg : b'.webhookRegistered = false) :
    Settles deps id s { s with bindings := s.bindings.set id b' } := by
  refine ⟨sound_setBinding hs hb hsecret fun webhookId hid => ?_, elsewhere_setBinding _ _ _ _,
    fun b'' hb'' htrue => ?_⟩
  · obtain hnone | hsame := hhook
    · exact absurd (hid.symm.trans hnone) (Option.some_ne_none _)
    · have hold : b.webhookId = some webhookId := hsame.symm.trans hid
      refine ⟨hs.webhookIds id b webhookId hb hold, fun j bj hj hbj hbid => hj ?_⟩
      exact hs.ownHook j id bj b webhookId hbj hb hbid hold
  · obtain rfl := Option.some.inj ((OrderedMap.get?_set_self _ _ _).symm.trans hb'')
    rw [hreg] at htrue
    cases htrue

/-- A binding that has just been given its hook. -/
theorem Settles.registered (hs : Sound deps s) (hb : s.bindings.get? id = some b)
    {webhookId : Nat} {hook : Hook} {secret : CredentialResult}
    (hhook : s.hooks.get? webhookId = some hook) (hproject : hook.projectId = b.gitlabProjectId)
    (hsecret : secretOf deps s b.webhookSecretRef = .ok (some secret))
    (htoken : hook.token = secret.plaintext)
    (hother : ∀ j bj, j ≠ id → s.bindings.get? j = some bj → bj.webhookId ≠ some webhookId) :
    Settles deps id s
      { s with
        bindings := s.bindings.set id
          { b with webhookId := some webhookId, webhookRegistered := true } } := by
  refine ⟨sound_setBinding hs hb rfl fun other hid => ?_, elsewhere_setBinding _ _ _ _,
    fun b' hb' _ => ?_⟩
  · obtain rfl := Option.some.inj hid
    exact ⟨hs.hooks webhookId hook hhook, hother⟩
  · obtain rfl := Option.some.inj ((OrderedMap.get?_set_self _ _ _).symm.trans hb')
    exact ⟨webhookId, hook, secret, rfl, hhook, hproject, hsecret, htoken⟩

theorem updateBinding_run (hb : s.bindings.get? id = some b)
    (update : HookedBinding → HookedBinding) :
    (updateBinding id update).run s =
      (.ok (), { s with bindings := s.bindings.set id (update b) }) := by
  rw [updateBinding, Effect.modify_run, hb]

/-- GitLab has answered the call: with a result, or with a status from 400 to 499. -/
def Answered : Option ApiFailure → Prop
  | none => True
  | some (.status statusCode _) => 400 ≤ statusCode ∧ statusCode < 500
  | some (.other _) => False

theorem refused_run_of_answered {e : ApiFailure} (h : Answered (some e))
    {onRefused : Lifecycle Unit} (hrun : onRefused.run s = (.ok (), s₁)) :
    ((refused onRefused e).run s).2 = s₁ := by
  cases e with
  | status statusCode message =>
    have hstatus : 400 ≤ statusCode ∧ statusCode < 500 := h
    rw [refused]
    rw [if_pos hstatus, Effect.bind_of_ok hrun]
    rfl
  | other e => exact absurd h id

theorem refused_run_of_not_answered {e : ApiFailure} (h : ¬ Answered (some e))
    (onRefused : Lifecycle Unit) : ((refused onRefused e).run s).2 = s := by
  cases e with
  | status statusCode message =>
    have hstatus : ¬ (400 ≤ statusCode ∧ statusCode < 500) := h
    rw [refused]
    rw [if_neg hstatus]
    rfl
  | other e => rfl

section Register

variable {ans : Answers} {body : Hook} {update : HookedBinding → HookedBinding}

/-- A registration that GitLab answers settles the binding. -/
theorem attempt_register_of_answered (hs : Sound deps s) (hb : s.bindings.get? id = some b)
    (hans : Answered ans.createHook) (hproject : body.projectId = b.gitlabProjectId)
    {secret : CredentialResult} (hsecret : secretOf deps s b.webhookSecretRef = .ok (some secret))
    (htoken : body.token = secret.plaintext)
    (hupdate : (update b).webhookSecretRef = b.webhookSecretRef ∧
      ((update b).webhookId = none ∨ (update b).webhookId = b.webhookId) ∧
      (update b).webhookRegistered = false) :
    Settles deps id s ((Effect.attempt (register ans id body)
      (refused (updateBinding id update))).run s).2 := by
  rw [Effect.attempt_run]
  cases hcreate : ans.createHook with
  | some e =>
    have hrun : (register ans id body).run s = (.error e, s) := by
      refine Effect.bind_of_error ?_
      rw [createProjectWebhook, Effect.step_run, hcreate]
    rw [hrun]
    rw [hcreate] at hans
    dsimp only
    rw [refused_run_of_answered hans (updateBinding_run hb update)]
    exact Settles.unregistered hs hb hupdate.1 hupdate.2.1 hupdate.2.2
  | none =>
    let s₁ : Registrations :=
      { s with hooks := s.hooks.set s.nextHookId body, nextHookId := s.nextHookId + 1 }
    have hpost : (createProjectWebhook ans body).run s = (.ok s.nextHookId, s₁) := by
      rw [createProjectWebhook, Effect.step_run, hcreate]
    have hb₁ : s₁.bindings.get? id = some b := hb
    have hrun : (register ans id body).run s = (.ok ⟨true, some s.nextHookId, none⟩,
        { s₁ with
          bindings := s₁.bindings.set id
            { b with webhookId := some s.nextHookId, webhookRegistered := true } }) := by
      rw [register, Effect.bind_of_ok hpost, markRegistered,
        Effect.bind_of_ok (updateBinding_run hb₁ _)]
      rfl
    rw [hrun]
    refine (Settles.registered (sound_addHook hs body) hb₁ (OrderedMap.get?_set_self _ _ _)
      hproject hsecret htoken fun j bj _ hbj hid => ?_).after (elsewhere_addHook hs id body)
    exact absurd (hs.webhookIds j bj s.nextHookId hbj hid) (lt_irrefl _)

/-- Any other failure leaves everything as it is. -/
theorem attempt_register_of_not_answered (hans : ¬ Answered ans.createHook) :
    ((Effect.attempt (register ans id body) (refused (updateBinding id update))).run s).2 = s := by
  rw [Effect.attempt_run]
  cases hcreate : ans.createHook with
  | none =>
    rw [hcreate] at hans
    exact absurd trivial hans
  | some e =>
    have hrun : (register ans id body).run s = (.error e, s) := by
      refine Effect.bind_of_error ?_
      rw [createProjectWebhook, Effect.step_run, hcreate]
    rw [hcreate] at hans
    rw [hrun]
    exact refused_run_of_not_answered hans _

end Register

section Service

variable (ans : Answers) (publicBaseUrl : String)

theorem getSecret_run {ref : String} {cred : Option CredentialResult}
    (h : secretOf deps s ref = .ok cred) : (getSecret deps ref).run s = (.ok cred, s) := by
  rw [getSecret, Effect.step_run, h]

theorem onBindingCreate_settles (hs : Sound deps s) (hb : s.bindings.get? id = some b)
    (htrue : TrueOf deps s b) :
    Settles deps id s ((onBindingCreate deps ans id b publicBaseUrl).run s).2 := by
  obtain ⟨secret, hsecret⟩ := hs.secrets id b hb
  rw [onBindingCreate, Effect.bind_of_ok (getSecret_run hsecret)]
  cases ans.client with
  | error reason => exact Settles.same hs hb htrue
  | ok edition =>
    by_cases hans : Answered ans.createHook
    · exact attempt_register_of_answered hs hb hans rfl hsecret rfl ⟨rfl, .inr rfl, rfl⟩
    · dsimp only
      rw [markUnregistered, attempt_register_of_not_answered hans]
      exact Settles.same hs hb htrue

/-- Whatever a call fails with, the binding says what was true before, or nothing. -/
theorem refused_settles (hs : Sound deps s) (hb : s.bindings.get? id = some b)
    (htrue : TrueOf deps s b) (e : ApiFailure) :
    Settles deps id s ((refused (markUnregistered id) e).run s).2 := by
  by_cases hans : Answered (some e)
  · rw [markUnregistered, refused_run_of_answered hans (updateBinding_run hb _)]
    exact Settles.unregistered hs hb rfl (.inr rfl) rfl
  · rw [refused_run_of_not_answered hans]
    exact Settles.same hs hb htrue

/-- The hook of the binding gets the stored secret. -/
theorem refresh_settles (hs : Sound deps s) (hb : s.bindings.get? id = some b)
    (htrue : TrueOf deps s b) {webhookId : Nat} (hid : b.webhookId = some webhookId) {body : Hook}
    (hproject : body.projectId = b.gitlabProjectId) {secret : CredentialResult}
    (hsecret : secretOf deps s b.webhookSecretRef = .ok (some secret))
    (htoken : body.token = secret.plaintext) :
    Settles deps id s ((Effect.attempt (refresh ans id webhookId body)
      (refused (markUnregistered id))).run s).2 := by
  have hfailed : ∀ e, (updateProjectWebhook ans body.projectId webhookId body).run s =
      (.error e, s) → Settles deps id s ((Effect.attempt (refresh ans id webhookId body)
        (refused (markUnregistered id))).run s).2 := by
    intro e hput
    have hrun : (refresh ans id webhookId body).run s = (.error e, s) := Effect.bind_of_error hput
    rw [Effect.attempt_run, hrun]
    exact refused_settles hs hb htrue e
  cases hput : ans.updateHook with
  | some e =>
    refine hfailed e ?_
    rw [updateProjectWebhook, Effect.step_run, hput]
  | none =>
    cases hfound : hookOf s body.projectId webhookId with
    | error e =>
      refine hfailed e ?_
      rw [updateProjectWebhook, Effect.step_run, hput, hfound]
    | ok hook =>
      let s₁ : Registrations := { s with hooks := s.hooks.set webhookId body }
      have hlt := hs.webhookIds id b webhookId hb hid
      have hother : ∀ other, other ≠ webhookId →
          s₁.hooks.get? other = s.hooks.get? other :=
        fun _ hne => OrderedMap.get?_set_of_ne _ hne _
      have hput' : (updateProjectWebhook ans body.projectId webhookId body).run s =
          (.ok webhookId, s₁) := by
        rw [updateProjectWebhook, Effect.step_run, hput, hfound]
      have hb₁ : s₁.bindings.get? id = some b := hb
      have hrun : (refresh ans id webhookId body).run s = (.ok ⟨true, some webhookId, none⟩,
          { s₁ with
            bindings := s₁.bindings.set id
              { b with webhookId := some webhookId, webhookRegistered := true } }) := by
        rw [refresh, Effect.bind_of_ok hput', markRegistered,
          Effect.bind_of_ok (updateBinding_run hb₁ _)]
        rfl
      rw [Effect.attempt_run, hrun]
      refine (Settles.registered (sound_ownHooks hs hlt hother) hb₁
        (OrderedMap.get?_set_self _ _ _) hproject hsecret htoken fun j bj hj hbj hsame => ?_).after
        (elsewhere_ownHooks hs hb hid hother)
      exact hj (hs.ownHook j id bj b webhookId hbj hb hsame hid)

theorem reRegisterWebhook_settles (hs : Sound deps s) (hb : s.bindings.get? id = some b)
    (htrue : TrueOf deps s b) :
    Settles deps id s ((reRegisterWebhook deps ans id b publicBaseUrl).run s).2 := by
  unfold reRegisterWebhook
  cases hid : b.webhookId with
  | none =>
    dsimp only
    split_ifs
    · exact Settles.same hs hb htrue
    · exact onBindingCreate_settles ans publicBaseUrl hs hb htrue
  | some webhookId =>
    obtain ⟨secret, hsecret⟩ := hs.secrets id b hb
    dsimp only
    rw [Effect.bind_of_ok (getSecret_run hsecret)]
    cases ans.client with
    | error reason => exact Settles.same hs hb htrue
    | ok edition => exact refresh_settles ans hs hb htrue hid rfl hsecret rfl

/-- The hook is gone when GitLab did what it was asked. -/
def unhooked (s : Registrations) (projectId : Int) (webhookId : Nat) : Registrations :=
  match ans.deleteHook, hookOf s projectId webhookId with
  | none, .ok _ => { s with hooks := s.hooks.delete webhookId }
  | _, _ => s

theorem attempt_deleteProjectWebhook_run (projectId : Int) (webhookId : Nat) :
    (Effect.attempt (deleteProjectWebhook ans projectId webhookId) fun _ => pure ()).run s =
      (.ok (), unhooked ans s projectId webhookId) := by
  rw [Effect.attempt_run, deleteProjectWebhook, Effect.step_run, unhooked]
  cases ans.deleteHook with
  | some e => rfl
  | none =>
    cases hookOf s projectId webhookId with
    | error e => rfl
    | ok hook => rfl

/-- Removing a hook leaves every other hook. -/
theorem unhooked_eq (s : Registrations) (projectId : Int) (webhookId : Nat) :
    ∃ hooks, unhooked ans s projectId webhookId = { s with hooks := hooks } ∧
      ∀ other, other ≠ webhookId → hooks.get? other = s.hooks.get? other := by
  unfold unhooked
  split
  · exact ⟨s.hooks.delete webhookId, rfl, fun _ hne => OrderedMap.get?_delete_of_ne _ hne⟩
  · exact ⟨s.hooks, rfl, fun _ _ => rfl⟩

end Service

section Credentials

/-- A credential that no binding has changes nothing for the bindings. -/
theorem secretOf_congr {s s' : Registrations} {ref : String}
    (h : s'.credentials.get? ref = s.credentials.get? ref) :
    secretOf deps s' ref = secretOf deps s ref := getCredential_congr _ _ h

/-- The collection changes at the secret of one binding. -/
theorem elsewhere_ownSecret (hs : Sound deps s) (hb : s.bindings.get? id = some b)
    {credentials : Credentials}
    (hother : ∀ ref, ref ≠ b.webhookSecretRef → credentials.get? ref = s.credentials.get? ref) :
    Elsewhere deps id s { s with credentials := credentials } := by
  refine ⟨fun _ _ => rfl, fun _ _ _ _ _ _ => rfl, fun j bj hj hbj => ?_⟩
  refine secretOf_congr (hother _ fun hsame => ?_)
  exact hj (hs.ownSecret j id bj b hbj hb hsame)

theorem sound_ownSecret (hs : Sound deps s) {credentials : Credentials}
    (hother : ∀ ref, ref ≠ b.webhookSecretRef → credentials.get? ref = s.credentials.get? ref)
    {secret : CredentialResult}
    (hsecret : secretOf deps { s with credentials := credentials } b.webhookSecretRef =
      .ok (some secret)) :
    Sound deps { s with credentials := credentials } where
  hooks := hs.hooks
  webhookIds := hs.webhookIds
  ownHook := hs.ownHook
  ownSecret := hs.ownSecret
  secrets j bj hbj := by
    by_cases hsame : bj.webhookSecretRef = b.webhookSecretRef
    · exact ⟨secret, hsame ▸ hsecret⟩
    · obtain ⟨old, hold⟩ := hs.secrets j bj hbj
      exact ⟨old, (secretOf_congr (hother _ hsame)).trans hold⟩

end Credentials

section Create

variable (ans : Answers) {secretRef iv secret : String} {now : Nat} {input : CreateBindingInput}

/-- A stored secret has another id than a new one. -/
theorem stored_ne (hfresh : secretRef ∉ s.credentials.keys) {ref : String}
    (hstored : ∃ old, secretOf deps s ref = .ok (some old)) : ref ≠ secretRef := by
  rintro rfl
  obtain ⟨old, hold⟩ := hstored
  have hnone := (OrderedMap.get?_eq_none_iff s.credentials _).mpr hfresh
  rw [secretOf, getCredential, hnone] at hold
  cases hold

/-- The new secret has an id that no binding refers to. -/
theorem secretRef_ne (hs : Sound deps s) (hfresh : secretRef ∉ s.credentials.keys) {j : String}
    {bj : HookedBinding} (hbj : s.bindings.get? j = some bj) : bj.webhookSecretRef ≠ secretRef :=
  stored_ne hfresh (hs.secrets j bj hbj)

theorem sound_addSecret (hs : Sound deps s) (hfresh : secretRef ∉ s.credentials.keys)
    (doc : CredentialDoc) :
    Sound deps { s with credentials := s.credentials.set secretRef doc } where
  hooks := hs.hooks
  webhookIds := hs.webhookIds
  ownHook := hs.ownHook
  ownSecret := hs.ownSecret
  secrets j bj hbj := by
    obtain ⟨old, hold⟩ := hs.secrets j bj hbj
    have hne := secretRef_ne hs hfresh hbj
    exact ⟨old, (secretOf_congr (OrderedMap.get?_set_of_ne _ hne _)).trans hold⟩

/-- A new secret changes nothing for any binding. -/
theorem elsewhere_addSecret (hs : Sound deps s) (hfresh : secretRef ∉ s.credentials.keys)
    (id : String) (doc : CredentialDoc) :
    Elsewhere deps id s { s with credentials := s.credentials.set secretRef doc } :=
  ⟨fun _ _ => rfl, fun _ _ _ _ _ _ => rfl, fun _ _ _ hbj =>
    secretOf_congr (OrderedMap.get?_set_of_ne _ (secretRef_ne hs hfresh hbj) _)⟩

/-- The new binding has its own secret and no hook. -/
theorem sound_addBinding (hs : Sound deps s) (hid : s.bindings.get? id = none)
    (hown : ∀ j bj, s.bindings.get? j = some bj → bj.webhookSecretRef ≠ b.webhookSecretRef)
    {cred : CredentialResult} (hsecret : secretOf deps s b.webhookSecretRef = .ok (some cred))
    (hhook : b.webhookId = none) : Sound deps { s with bindings := s.bindings.set id b } := by
  have hget : ∀ {j bj}, (s.bindings.set id b).get? j = some bj →
      (j = id ∧ bj = b) ∨ s.bindings.get? j = some bj := by
    intro j bj hj
    rw [OrderedMap.get?_set] at hj
    split_ifs at hj with hsame
    · exact .inl ⟨hsame, (Option.some.inj hj).symm⟩
    · exact .inr hj
  have hnohook : ∀ {webhookId}, b.webhookId ≠ some webhookId := by
    intro webhookId h
    rw [hhook] at h
    cases h
  refine ⟨hs.hooks, fun j bj webhookId hj hjid => ?_, fun j j' bj bj' webhookId hj hj' h h' => ?_,
    fun j bj hj => ?_, fun j j' bj bj' hj hj' hsame => ?_⟩
  · obtain ⟨-, rfl⟩ | hold := hget hj
    · exact absurd hjid hnohook
    · exact hs.webhookIds j bj webhookId hold hjid
  · obtain ⟨-, rfl⟩ | hold := hget hj
    · exact absurd h hnohook
    · obtain ⟨-, rfl⟩ | hold' := hget hj'
      · exact absurd h' hnohook
      · exact hs.ownHook j j' bj bj' webhookId hold hold' h h'
  · obtain ⟨-, rfl⟩ | hold := hget hj
    · exact ⟨cred, hsecret⟩
    · exact hs.secrets j bj hold
  · obtain ⟨rfl, rfl⟩ | hold := hget hj
    · obtain ⟨rfl, -⟩ | hold' := hget hj'
      · rfl
      · exact absurd hsame.symm (hown j' bj' hold')
    · obtain ⟨rfl, rfl⟩ | hold' := hget hj'
      · exact absurd hsame (hown j bj hold)
      · exact hs.ownSecret j j' bj bj' hold hold' hsame

theorem TrueOf.congr {s s' : Registrations} (h : TrueOf deps s b) (hhooks : s'.hooks = s.hooks)
    (hsecret : secretOf deps s' b.webhookSecretRef = secretOf deps s b.webhookSecretRef) :
    TrueOf deps s' b := by
  intro hreg
  rw [hhooks, hsecret]
  exact h hreg

theorem withLifecycle_settles {otherwise : HookResult} {service : String → Lifecycle HookResult}
    (hotherwise : Settles deps id s s) (hservice : ∀ url, Settles deps id s ((service url).run s).2) :
    Settles deps id s ((withLifecycle deps otherwise service).run s).2 := by
  unfold withLifecycle
  split
  · exact hservice _
  · exact hotherwise

theorem create_settles (hs : Sound deps s) (ht : Truthful deps s) :
    Settles deps id s (step deps s (.create id secretRef iv secret now input, ans)) := by
  unfold step handle
  by_cases hfresh : secretRef ∈ s.credentials.keys
  · have hput : (putSecret deps secretRef iv secret now).run s = (.error (.other .duplicateKey), s) := by
      rw [putSecret, Effect.step_run, putCredential, if_pos hfresh]
    rw [Effect.bind_of_error hput]
    exact ⟨hs, Elsewhere.refl deps id s, fun b hb => ht id b hb⟩
  have hput := @getCredential_of_putCredential deps.cipher deps.encryptionKey s.credentials _
    secretRef iv iv now ⟨.webhook_secret, secret, none, none, none, none⟩ (if_neg hfresh)
  set credentials := s.credentials.set secretRef (credentialDoc deps.cipher deps.encryptionKey iv iv
    now ⟨.webhook_secret, secret, none, none, none, none⟩) with hcredentials
  let s₁ : Registrations := { s with credentials := credentials }
  have hrun : (putSecret deps secretRef iv secret now).run s = (.ok (), s₁) := by
    rw [putSecret, Effect.step_run, putCredential, if_neg hfresh]
  have hs₁ : Sound deps s₁ := sound_addSecret hs hfresh _
  have he₁ : Elsewhere deps id s s₁ := elsewhere_addSecret hs hfresh id _
  have hsame : ∀ j bj, s.bindings.get? j = some bj →
      secretOf deps s₁ bj.webhookSecretRef = secretOf deps s bj.webhookSecretRef :=
    fun j bj hbj => secretOf_congr (OrderedMap.get?_set_of_ne _ (secretRef_ne hs hfresh hbj) _)
  rw [Effect.bind_of_ok hrun]
  by_cases htaken : id ∈ s₁.bindings.keys ∨ ∃ entry ∈ s₁.bindings.entries,
      entry.2.workspaceUuid = input.workspaceUuid ∧
      entry.2.gitlabProjectId = input.gitlabProjectId
  · have hcreate : (createBinding id secretRef input).run s₁ =
        (.error (.other .duplicateKey), s₁) := by
      rw [createBinding, Effect.step_run, if_pos htaken]
    rw [Effect.bind_of_error hcreate]
    exact ⟨hs₁, he₁, fun b hb => TrueOf.congr (ht id b hb) rfl (hsame id b hb)⟩
  have hnew : s₁.bindings.get? id = none :=
    (OrderedMap.get?_eq_none_iff _ _).mpr fun hid => htaken (.inl hid)
  let b₀ : HookedBinding :=
    ⟨input.workspaceUuid, input.gitlabProjectId, input.credentialRef, secretRef, none, false⟩
  let s₂ : Registrations := { s₁ with bindings := s₁.bindings.set id b₀ }
  have hcreate : (createBinding id secretRef input).run s₁ = (.ok (), s₂) := by
    rw [createBinding, Effect.step_run, if_neg htaken]
  have hs₂ : Sound deps s₂ :=
    sound_addBinding hs₁ hnew (fun j bj hbj => secretRef_ne hs hfresh hbj) hput rfl
  have hb₂ : s₂.bindings.get? id = some b₀ := OrderedMap.get?_set_self _ _ _
  have htrue : TrueOf deps s₂ b₀ := fun hreg => by cases hreg
  rw [Effect.bind_of_ok hcreate, Effect.bind_pure_snd]
  refine (withLifecycle_settles (Settles.same hs₂ hb₂ htrue) fun url => ?_).after
    (he₁.trans (elsewhere_setBinding deps id s₁ b₀))
  rw [getBinding, Effect.gets_bind_run, hb₂]
  exact onBindingCreate_settles ans url hs₂ hb₂ htrue

end Create

section Requests

variable (ans : Answers)

theorem elsewhere_removeBinding (hs : Sound deps s) (hb : s.bindings.get? id = some b) :
    Elsewhere deps id s
      { s with
        credentials := deleteCredential s.credentials b.webhookSecretRef
        bindings := s.bindings.delete id } := by
  refine ⟨fun j hj => OrderedMap.get?_delete_of_ne _ hj, fun _ _ _ _ _ _ => rfl,
    fun j bj hj hbj => secretOf_congr (OrderedMap.get?_delete_of_ne _ fun hsame => hj ?_)⟩
  exact hs.ownSecret j id bj b hbj hb hsame

theorem sound_removeBinding (hs : Sound deps s) (hb : s.bindings.get? id = some b) :
    Sound deps
      { s with
        credentials := deleteCredential s.credentials b.webhookSecretRef
        bindings := s.bindings.delete id } := by
  have hold : ∀ {j bj}, (s.bindings.delete id).get? j = some bj →
      j ≠ id ∧ s.bindings.get? j = some bj := by
    intro j bj hj
    rw [OrderedMap.get?_delete] at hj
    split_ifs at hj with hid
    exact ⟨hid, hj⟩
  refine ⟨hs.hooks, fun j bj webhookId hj hjid => ?_, fun j j' bj bj' webhookId hj hj' h h' => ?_,
    fun j bj hj => ?_, fun j j' bj bj' hj hj' hsame => ?_⟩
  · exact hs.webhookIds j bj webhookId (hold hj).2 hjid
  · exact hs.ownHook j j' bj bj' webhookId (hold hj).2 (hold hj').2 h h'
  · obtain ⟨secret, hsecret⟩ := hs.secrets j bj (hold hj).2
    exact ⟨secret, ((elsewhere_removeBinding hs hb).secrets j bj (hold hj).1 (hold hj).2).trans
      hsecret⟩
  · exact hs.ownSecret j j' bj bj' (hold hj).2 (hold hj').2 hsame

/-- The hook of the binding goes or stays. -/
theorem onBindingDelete_run (hs : Sound deps s) (hb : s.bindings.get? id = some b) :
    ∃ hooks, (onBindingDelete ans b).run s = (.ok (), { s with hooks := hooks }) ∧
      Sound deps { s with hooks := hooks } ∧ Elsewhere deps id s { s with hooks := hooks } := by
  have hstay : ∃ hooks, (pure () : Lifecycle Unit).run s = (.ok (), { s with hooks := hooks }) ∧
      Sound deps { s with hooks := hooks } ∧ Elsewhere deps id s { s with hooks := hooks } :=
    ⟨s.hooks, rfl, hs, Elsewhere.refl deps id s⟩
  unfold onBindingDelete
  cases hid : b.webhookId with
  | none => exact hstay
  | some webhookId =>
    cases ans.client with
    | error reason => exact hstay
    | ok edition =>
      obtain ⟨hooks, heq, hother⟩ := unhooked_eq ans s b.gitlabProjectId webhookId
      refine ⟨hooks, ?_, sound_ownHooks hs (hs.webhookIds id b webhookId hb hid) hother,
        elsewhere_ownHooks hs hb hid hother⟩
      dsimp only
      rw [attempt_deleteProjectWebhook_run, heq]

/-- Nothing is left of the binding, and the others keep what they have. -/
theorem delete_settles (hs : Sound deps s) (ht : Truthful deps s) :
    Settles deps id s (step deps s (.delete id, ans)) := by
  have hremoved : ∀ {s₁ : Registrations} {b}, Sound deps s₁ → s₁.bindings.get? id = some b →
      Settles deps id s₁
        { s₁ with
          credentials := deleteCredential s₁.credentials b.webhookSecretRef
          bindings := s₁.bindings.delete id } := by
    intro s₁ b hs₁ hb₁
    refine ⟨sound_removeBinding hs₁ hb₁, elsewhere_removeBinding hs₁ hb₁, fun b' hb' => ?_⟩
    exact absurd (hb'.symm.trans (OrderedMap.get?_delete_self s₁.bindings id))
      (Option.some_ne_none _)
  unfold step handle
  dsimp only
  rw [getBinding, Effect.gets_bind_run]
  cases hb : s.bindings.get? id with
  | none => exact ⟨hs, Elsewhere.refl deps id s, fun b hb => ht id b hb⟩
  | some b =>
    dsimp only
    split_ifs
    · obtain ⟨hooks, hrun, hs₁, he₁⟩ := onBindingDelete_run ans hs hb
      rw [Effect.bind_of_ok hrun, Effect.modify_bind_run]
      exact (hremoved hs₁ hb).after he₁
    · rw [Effect.modify_bind_run]
      exact hremoved hs hb

theorem reRegisterWebhook_route_settles (hs : Sound deps s) (ht : Truthful deps s) :
    Settles deps id s (step deps s (.reRegisterWebhook id, ans)) := by
  unfold step handle
  dsimp only
  rw [getBinding, Effect.gets_bind_run]
  cases hb : s.bindings.get? id with
  | none => exact ⟨hs, Elsewhere.refl deps id s, fun b hb => ht id b hb⟩
  | some b =>
    dsimp only
    rw [Effect.bind_pure_snd]
    have htrue : TrueOf deps s b := ht id b hb
    exact withLifecycle_settles (Settles.same hs hb htrue) fun url =>
      reRegisterWebhook_settles ans url hs hb htrue

end Requests

section Rotate

variable (ans : Answers) (iv newSecret : String)

/-- The service is called, and it can build a client. -/
def Asked (deps : Deps) (ans : Answers) : Prop :=
  deps.bindingLifecycle = true ∧ deps.publicBaseUrl ≠ none ∧ ∃ edition, ans.client = .ok edition

/-- The stored secret is replaced before anything else. -/
def rotated (deps : Deps) (s : Registrations) (b : HookedBinding) (iv newSecret : String) :
    Registrations :=
  { s with
    credentials := rotateCredential deps.cipher deps.encryptionKey s.credentials
      b.webhookSecretRef iv iv ⟨newSecret, none, none⟩ }

theorem rotated_secret {secret : CredentialResult}
    (hsecret : secretOf deps s b.webhookSecretRef = .ok (some secret)) :
    secretOf deps (rotated deps s b iv newSecret) b.webhookSecretRef =
      .ok (some { secret with plaintext := newSecret }) :=
  getCredential_rotateCredential _ _ _ hsecret _ _ _

theorem rotated_sound (hs : Sound deps s) (hb : s.bindings.get? id = some b) :
    Sound deps (rotated deps s b iv newSecret) := by
  obtain ⟨secret, hsecret⟩ := hs.secrets id b hb
  exact sound_ownSecret hs (fun _ hne => get?_rotateCredential_of_ne _ _ _ hne _ _ _)
    (rotated_secret iv newSecret hsecret)

theorem rotated_elsewhere (hs : Sound deps s) (hb : s.bindings.get? id = some b) :
    Elsewhere deps id s (rotated deps s b iv newSecret) :=
  elsewhere_ownSecret hs hb fun _ hne => get?_rotateCredential_of_ne _ _ _ hne _ _ _

/-- What the route does when the service is not asked. -/
theorem rotateSecretRoute_run_of_not_asked
    (h : ¬ (b.webhookRegistered = true ∧ Asked deps ans)) :
    ((rotateSecretRoute deps ans id iv newSecret b).run s).2 = rotated deps s b iv newSecret := by
  unfold rotateSecretRoute
  rw [Effect.modify_bind_run]
  dsimp only
  split_ifs with hreg
  · unfold withLifecycle
    split
    · next hlife hurl =>
      rw [Effect.bind_pure_snd, rotateWebhookSecret]
      cases hid : b.webhookId with
      | none => rfl
      | some webhookId =>
        cases hclient : ans.client with
        | error reason => rfl
        | ok edition =>
          refine absurd ⟨hreg.1, hlife, ?_, edition, hclient⟩ h
          rw [hurl]
          exact Option.some_ne_none _
    · rfl
  · rfl

/-- What it does when the service is asked. -/
theorem rotateSecretRoute_run_of_asked (hreg : b.webhookRegistered = true) {webhookId : Nat}
    (hid : b.webhookId = some webhookId) (hasked : Asked deps ans) :
    ∃ url edition, ((rotateSecretRoute deps ans id iv newSecret b).run s).2 =
      ((Effect.attempt (register ans id (hookBody id url newSecret b.gitlabProjectId edition))
        (refused (updateBinding id fun b =>
          { b with webhookId := none, webhookRegistered := false }))).run
        (unhooked ans (rotated deps s b iv newSecret) b.gitlabProjectId webhookId)).2 := by
  obtain ⟨hlife, hurl, edition, hclient⟩ := hasked
  obtain ⟨url, hurl⟩ := Option.ne_none_iff_exists'.mp hurl
  refine ⟨url, edition, ?_⟩
  have hcalled : b.webhookRegistered = true ∧ b.webhookId ≠ none := by
    rw [hid]
    exact ⟨hreg, Option.some_ne_none _⟩
  unfold rotateSecretRoute
  rw [Effect.modify_bind_run]
  dsimp only
  rw [if_pos hcalled, withLifecycle, hlife, hurl]
  dsimp only
  rw [Effect.bind_pure_snd, rotateWebhookSecret, hid, hclient]
  dsimp only
  rw [Effect.bind_of_ok (attempt_deleteProjectWebhook_run ans _ _)]
  rfl

/-- The hook of a truthful binding has the secret that was drawn exactly when that is the old
one. -/
theorem trueOf_rotated_iff (hreg : b.webhookRegistered = true) {webhookId : Nat} {hook : Hook}
    {secret : CredentialResult} (hid : b.webhookId = some webhookId)
    (hhook : s.hooks.get? webhookId = some hook) (hproject : hook.projectId = b.gitlabProjectId)
    (hsecret : secretOf deps s b.webhookSecretRef = .ok (some secret))
    (htoken : hook.token = secret.plaintext) :
    TrueOf deps (rotated deps s b iv newSecret) b ↔ secret.plaintext = newSecret := by
  have hnew := rotated_secret iv newSecret hsecret
  constructor
  · intro htrue
    obtain ⟨webhookId', hook', secret', hid', hhook', -, hsecret', htoken'⟩ := htrue hreg
    obtain rfl := Option.some.inj (hid.symm.trans hid')
    obtain rfl := Option.some.inj (hhook.symm.trans hhook')
    obtain rfl := Option.some.inj (Except.ok.inj (hnew.symm.trans hsecret'))
    exact htoken.symm.trans htoken'
  · intro hsame _
    exact ⟨webhookId, hook, _, hid, hhook, hproject, hnew, htoken.trans hsame⟩

/-- When a rotation keeps what its binding says true: GitLab answers the registration of the new
hook, or the secret drawn is the stored one and the old hook stays. -/
def KeepsHook (deps : Deps) (s : Registrations) (ans : Answers) (b : HookedBinding)
    (newSecret : String) : Prop :=
  (Asked deps ans ∧ Answered ans.createHook) ∨
    ((∃ secret, secretOf deps s b.webhookSecretRef = .ok (some secret) ∧
        secret.plaintext = newSecret) ∧
      ¬ (Asked deps ans ∧ ans.deleteHook = none))

/-- The old hook is still there, or the answer to the registration has been written. -/
theorem rotateSecretRoute_settles (hs : Sound deps s) (hb : s.bindings.get? id = some b)
    (htrue : TrueOf deps s b)
    (hkeeps : b.webhookRegistered = true → KeepsHook deps s ans b newSecret) :
    Settles deps id s ((rotateSecretRoute deps ans id iv newSecret b).run s).2 := by
  have hb₁ : (rotated deps s b iv newSecret).bindings.get? id = some b := hb
  have hs₁ := rotated_sound iv newSecret hs hb
  have he₁ := rotated_elsewhere iv newSecret hs hb
  by_cases hreg : b.webhookRegistered = true
  · obtain ⟨webhookId, hook, secret, hid, hhook, hproject, hsecret, htoken⟩ := htrue hreg
    have hiff := trueOf_rotated_iff iv newSecret hreg hid hhook hproject hsecret htoken
    have hnew := rotated_secret iv newSecret hsecret
    by_cases hasked : Asked deps ans
    · obtain ⟨url, edition, hrun⟩ :=
        @rotateSecretRoute_run_of_asked deps id s b ans iv newSecret hreg webhookId hid hasked
      rw [hrun]
      obtain ⟨hooks, heq, hother⟩ :=
        unhooked_eq ans (rotated deps s b iv newSecret) b.gitlabProjectId webhookId
      by_cases hans : Answered ans.createHook
      · rw [heq]
        refine (attempt_register_of_answered
          (sound_ownHooks hs₁ (hs₁.webhookIds id b webhookId hb₁ hid) hother) hb hans rfl hnew rfl
          ⟨rfl, .inl rfl, rfl⟩).after (he₁.trans (elsewhere_ownHooks hs₁ hb₁ hid hother))
      · rw [attempt_register_of_not_answered hans]
        obtain ⟨-, hyes⟩ | ⟨⟨old, hold, hsame⟩, hno⟩ := hkeeps hreg
        · exact absurd hyes hans
        · obtain rfl := Option.some.inj (Except.ok.inj (hsecret.symm.trans hold))
          have hdelete : ans.deleteHook ≠ none := fun h => hno ⟨hasked, h⟩
          obtain ⟨e, hdelete⟩ := Option.ne_none_iff_exists'.mp hdelete
          have hstays : unhooked ans (rotated deps s b iv newSecret) b.gitlabProjectId webhookId =
              rotated deps s b iv newSecret := by
            rw [unhooked, hdelete]
          rw [hstays]
          exact (Settles.same hs₁ hb₁ (hiff.mpr hsame)).after he₁
    · rw [rotateSecretRoute_run_of_not_asked ans iv newSecret fun h => hasked h.2]
      obtain ⟨hyes, -⟩ | ⟨⟨old, hold, hsame⟩, -⟩ := hkeeps hreg
      · exact absurd hyes hasked
      · obtain rfl := Option.some.inj (Except.ok.inj (hsecret.symm.trans hold))
        exact (Settles.same hs₁ hb₁ (hiff.mpr hsame)).after he₁
  · rw [rotateSecretRoute_run_of_not_asked ans iv newSecret fun h => hreg h.1]
    exact (Settles.same hs₁ hb₁ fun h => absurd h hreg).after he₁

/-- Otherwise the binding names a hook that is gone or has the old secret. -/
theorem rotateSecretRoute_lies (hb : s.bindings.get? id = some b) (htrue : TrueOf deps s b)
    (hreg : b.webhookRegistered = true) (hlost : ¬ KeepsHook deps s ans b newSecret) :
    ∃ s', ((rotateSecretRoute deps ans id iv newSecret b).run s).2 = s' ∧
      s'.bindings.get? id = some b ∧ ¬ TrueOf deps s' b := by
  obtain ⟨webhookId, hook, secret, hid, hhook, hproject, hsecret, htoken⟩ := htrue hreg
  have hiff := trueOf_rotated_iff iv newSecret hreg hid hhook hproject hsecret htoken
  have hother : ¬ (Asked deps ans ∧ ans.deleteHook = none) →
      ¬ TrueOf deps (rotated deps s b iv newSecret) b := by
    intro hno h
    exact hlost (.inr ⟨⟨secret, hsecret, hiff.mp h⟩, hno⟩)
  by_cases hasked : Asked deps ans
  · have hans : ¬ Answered ans.createHook := fun h => hlost (.inl ⟨hasked, h⟩)
    obtain ⟨url, edition, hrun⟩ :=
      @rotateSecretRoute_run_of_asked deps id s b ans iv newSecret hreg webhookId hid hasked
    rw [attempt_register_of_not_answered hans] at hrun
    refine ⟨_, hrun, ?_⟩
    cases hdelete : ans.deleteHook with
    | some e =>
      rw [unhooked, hdelete]
      refine ⟨hb, hother fun h => ?_⟩
      rw [hdelete] at h
      cases h.2
    | none =>
      have hfound : hookOf (rotated deps s b iv newSecret) b.gitlabProjectId webhookId = .ok hook := by
        have hhook' : (rotated deps s b iv newSecret).hooks.get? webhookId = some hook := hhook
        rw [hookOf, hhook']
        dsimp only
        rw [if_pos hproject]
      rw [unhooked, hdelete, hfound]
      refine ⟨hb, fun h => ?_⟩
      -- the hook that the binding names has just been removed
      obtain ⟨webhookId', hook', -, hid', hhook', -⟩ := h hreg
      obtain rfl := Option.some.inj (hid.symm.trans hid')
      exact Option.some_ne_none _
        (hhook'.symm.trans (OrderedMap.get?_delete_self _ _))
  · refine ⟨_, rotateSecretRoute_run_of_not_asked ans iv newSecret fun h => hasked h.2, hb,
      hother fun h => hasked h.1⟩

end Rotate

end Steps

/-- A rotation needs an answer of GitLab; every other request settles its binding. -/
def Keeps (deps : Deps) (s : Registrations) : Request × Answers → Prop
  | (.rotateSecret id _ newSecret, ans) => ∀ b, s.bindings.get? id = some b →
      b.webhookRegistered = true → KeepsHook deps s ans b newSecret
  | _ => True

theorem step_rotateSecret_of_some {deps : Deps} {s : Registrations} {id : String}
    {b : HookedBinding} (hb : s.bindings.get? id = some b) (iv newSecret : String) (ans : Answers) :
    step deps s (.rotateSecret id iv newSecret, ans) =
      ((rotateSecretRoute deps ans id iv newSecret b).run s).2 := by
  unfold step handle
  dsimp only
  rw [getBinding, Effect.gets_bind_run, hb]
  dsimp only
  rw [Effect.bind_pure_snd]

theorem step_rotateSecret_of_none {deps : Deps} {s : Registrations} {id : String}
    (hb : s.bindings.get? id = none) (iv newSecret : String) (ans : Answers) :
    step deps s (.rotateSecret id iv newSecret, ans) = s := by
  unfold step handle
  dsimp only
  rw [getBinding, Effect.gets_bind_run, hb]
  rfl

theorem Settles.truthful {deps : Deps} {id : String} {s s' : Registrations}
    (h : Settles deps id s s') (ht : Truthful deps s) : Sound deps s' ∧ Truthful deps s' :=
  ⟨h.sound, h.elsewhere.truthful ht h.own⟩

theorem step_truthful (deps : Deps) (s : Registrations) (a : Request × Answers)
    (hs : Sound deps s) (ht : Truthful deps s) (hkeeps : Keeps deps s a) :
    Sound deps (step deps s a) ∧ Truthful deps (step deps s a) := by
  obtain ⟨request, ans⟩ := a
  cases request with
  | create id secretRef iv secret now input => exact (create_settles ans hs ht).truthful ht
  | reRegisterWebhook id => exact (reRegisterWebhook_route_settles ans hs ht).truthful ht
  | delete id => exact (delete_settles ans hs ht).truthful ht
  | rotateSecret id iv newSecret =>
    cases hb : s.bindings.get? id with
    | none =>
      rw [step_rotateSecret_of_none hb]
      exact ⟨hs, ht⟩
    | some b =>
      rw [step_rotateSecret_of_some hb]
      have hsettles :=
        rotateSecretRoute_settles ans iv newSecret hs hb (ht id b hb) (hkeeps b hb)
      exact hsettles.truthful ht

theorem step_not_truthful (deps : Deps) (s : Registrations) (a : Request × Answers)
    (ht : Truthful deps s) (hlost : ¬ Keeps deps s a) : ¬ Truthful deps (step deps s a) := by
  obtain ⟨request, ans⟩ := a
  cases request with
  | create id secretRef iv secret now input => exact absurd trivial hlost
  | reRegisterWebhook id => exact absurd trivial hlost
  | delete id => exact absurd trivial hlost
  | rotateSecret id iv newSecret =>
    have hlost' : ¬ ∀ b, s.bindings.get? id = some b → b.webhookRegistered = true →
        KeepsHook deps s ans b newSecret := hlost
    push Not at hlost'
    obtain ⟨b, hb, hreg, hgone⟩ := hlost'
    obtain ⟨s', hrun, hb', hfalse⟩ := @rotateSecretRoute_lies deps id s b ans iv newSecret hb
      (ht id b hb) hreg hgone
    rw [step_rotateSecret_of_some hb, hrun]
    exact fun h => hfalse (h id b hb')

/-- The bindings tell the truth about their hooks throughout a run exactly when every rotation
of a registered binding is answered. -/
theorem truthful_iff_keeps (deps : Deps) (requests : List (Request × Answers)) :
    Transition.Throughout (step deps) (Truthful deps) .initial requests ↔
      Transition.Along (step deps) (Keeps deps) .initial requests := by
  apply Transition.throughout_iff_along (I := Sound deps)
  · exact fun s a hs ht hkeeps => step_truthful deps s a hs ht hkeeps
  · exact fun s a _ ht hlost => step_not_truthful deps s a ht hlost
  · exact sound_initial deps
  · exact fun id b hb => by cases hb

/-- The old hook is removed, the new one is not registered, and the binding still has both. -/
theorem not_truthful_of_unavailable :
    let cipher : Cipher :=
      ⟨fun plaintext iv _ => ⟨plaintext, iv, ""⟩, fun enc _ => .ok enc.ciphertext, fun _ _ _ => rfl⟩
    let deps : Deps := ⟨cipher, "key", true, some "https://bridge.example"⟩
    let created : Answers := ⟨.ok (some "ce"), none, none, none⟩
    let unavailable : Answers :=
      { created with createHook := some (.status 503 "Service Unavailable") }
    ¬ Transition.Throughout (step deps) (Truthful deps) .initial
      [(.create "b1" "c1" "iv1" "first" 0 ⟨"ws1", 7, "c0"⟩, created),
        (.rotateSecret "b1" "iv2" "second", unavailable)] := by
  intro cipher deps created unavailable h
  have hlast := Transition.Throughout.last h
  obtain ⟨webhookId, hook, secret, hid, hhook, -⟩ :=
    hlast "b1" ⟨"ws1", 7, "c0", "c1", some 1, true⟩ (by decide +kernel) rfl
  obtain rfl := Option.some.inj hid
  cases hhook

end BindingLifecycle

end HulyGitlab
