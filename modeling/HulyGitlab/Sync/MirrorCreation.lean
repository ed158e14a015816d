import HulyGitlab.Sync.MirrorRuns

/-!
# Complete creations

When no call fails, what a record is resolved to is found, and the create
branch leaves the document, its mixins and its row.
-/

namespace HulyGitlab

open UserIdentity NamedDocs

/-- What resolving relies on: references in order, and the statuses of the project. -/
structure Resolvable (env : Env) (bctx : BindingContext) (entry : ProjectCacheEntry) (w : World) :
    Prop where
  inOrder : InOrder bctx.hulyProjectRef w
  entry : StatusMap.entryOf env w.statusCache (toString bctx.gitlabProjectId) bctx.statuses = entry

section Resolving

variable {env : Env} (h : env.Healthy) {bctx : BindingContext} {entry : ProjectCacheEntry}
include h

theorem returns_resolveIdentity {user : JsValue} {identity : IdentityUser}
    (hid : identityOf user = .ok identity)
    (hmail : identity.email = .undefined ∨ ∃ address, identity.email = .str address) :
    Effect.Returns (Resolvable env bctx entry) (fun _ => True)
      (resolveUser env bctx.workspaceUuid user) := by
  intro w hw
  obtain ⟨idmap, lookups, hsettles, hrun⟩ :=
    resolveUser_run h bctx.workspaceUuid hid hmail hw.inOrder.owned
  exact ⟨_, _, hrun, ⟨⟨hsettles.owned hw.inOrder.owned, hw.inOrder.typed⟩, hw.entry⟩, trivial⟩

theorem returns_resolveUser (u : SyncUser) :
    Effect.Returns (Resolvable env bctx entry) (fun _ => True)
      (resolveUser env bctx.workspaceUuid u.toJs) :=
  returns_resolveIdentity h (Issues.identityOf_toJs u) (Issues.identity_email u)

theorem returns_resolveAssignee (users : List SyncUser) :
    Effect.Returns (Resolvable env bctx entry) (fun _ => True)
      (resolveAssignee env bctx.workspaceUuid (usersToJs users)) := by
  intro w hw
  have hassignee : ∃ idmap lookups, Settles bctx.workspaceUuid w.idmap idmap ∧ _ :=
    Issues.resolveAssignee_run h users hw.inOrder.owned
  obtain ⟨idmap, lookups, hsettles, hrun⟩ := hassignee
  exact ⟨_, _, hrun, ⟨⟨hsettles.owned hw.inOrder.owned, hw.inOrder.typed⟩, hw.entry⟩, trivial⟩

theorem returns_resolveLocal (names : List String) :
    Effect.Returns (Resolvable env bctx entry) (fun _ => True)
      (LabelCache.resolveLocal env bctx.hulyProjectRef .new (names.map .str)) := by
  intro w hw
  obtain ⟨refs, c, docs, hrun, -, htyped, -⟩ :=
    LabelCache.resolveLocal_run h names (c := .new) hw.inOrder.typed (sound_new _ env _)
  exact ⟨_, _, hrun, ⟨⟨hw.inOrder.owned, htyped⟩, hw.entry⟩, trivial⟩

theorem returns_issueMilestone (m : Option SyncMilestone) :
    Effect.Returns (Resolvable env bctx entry) (fun _ => True)
      (Issues.resolveMilestone env bctx.hulyProjectRef (.ofOption SyncMilestone.toJs m)) := by
  intro w hw
  obtain ⟨v, docs, hrun, -, htyped, -⟩ := Issues.resolveMilestone_run h m hw.inOrder.typed
  exact ⟨_, _, hrun, ⟨⟨hw.inOrder.owned, htyped⟩, hw.entry⟩, trivial⟩

theorem returns_mergeRequestMilestone (m : Option (Int × String)) :
    Effect.Returns (Resolvable env bctx entry) (fun _ => True)
      (MergeRequests.resolveMilestone env bctx.hulyProjectRef (.ofOption milestoneToJs m)) := by
  intro w hw
  cases m with
  | none => exact ⟨.null, w, rfl, hw, trivial⟩
  | some m =>
    obtain ⟨ref, c, docs, hrun, -, htyped, -⟩ :=
      MilestoneCache.ensureLocalMilestone_run h m.2 .undefined hw.inOrder.typed
        (c := .new) (sound_new _ env _)
    refine ⟨.str ref, { w with docs := docs }, ?_, ⟨⟨hw.inOrder.owned, htyped⟩, hw.entry⟩, trivial⟩
    have htitle : (milestoneToJs m).prop "title" = .ok (.str m.2) := by simp [milestoneToJs]
    have hnull : milestoneToJs m ≠ .null := by simp [milestoneToJs]
    simp only [MergeRequests.resolveMilestone, JsValue.ofOption_some, if_neg hnull, htitle,
      Effect.ofExcept_ok_bind_run]
    rw [Effect.bind_of_ok hrun]
    rfl

omit h in
/-- The status is that of the entry. -/
theorem returns_mapRemoteState (remoteState : JsValue) :
    Effect.Returns (Resolvable env bctx entry)
      (fun status => status = StatusMap.statusOf entry remoteState)
      (StatusMap.mapRemoteState env (toString bctx.gitlabProjectId) remoteState bctx.statuses) := by
  intro w hw
  refine ⟨_, _, StatusMap.mapRemoteState_run env _ remoteState _ w, ⟨?_, ?_⟩, ?_⟩
  · exact ⟨hw.inOrder.owned, hw.inOrder.typed⟩
  · exact (StatusMap.entryOf_remembered env _ _ _).trans hw.entry
  · rw [hw.entry]

theorem returns_resolveReviewerUuids (users : Option (List SyncUser)) :
    Effect.Returns (Resolvable env bctx entry) (fun _ => True)
      (MergeRequests.resolveReviewerUuids env bctx.workspaceUuid
        ((users.map usersToJs).getD .undefined)) := by
  cases users with
  | none => exact Effect.Returns.pure trivial
  | some us =>
    have hdefined : usersToJs us ≠ .undefined := JsValue.noConfusion
    rw [Option.map_some, Option.getD_some, MergeRequests.resolveReviewerUuids, if_neg hdefined]
    refine Effect.Returns.bind (Effect.Returns.ofExcept rfl rfl) fun items hitems => ?_
    subst hitems
    have hrefs : Effect.Returns (Resolvable env bctx entry) (fun refs => ∀ ref ∈ refs, True)
        (Effect.mapEach (resolveUser env bctx.workspaceUuid) (us.map SyncUser.toJs)) := by
      refine Effect.Returns.mapEach fun item hitem => ?_
      obtain ⟨u, -, rfl⟩ := List.mem_map.mp hitem
      exact returns_resolveUser h u
    exact Effect.Returns.bind hrefs fun refs _ => Effect.Returns.pure trivial

theorem returns_resolveRecord (m : SyncMergeRequest) :
    Effect.Returns (Resolvable env bctx entry) (fun _ => True)
      (MergeRequests.resolveRecord env bctx m.toFields) := by
  unfold MergeRequests.resolveRecord
  rw [SyncMergeRequest.field_description, SyncMergeRequest.field_assignees,
    SyncMergeRequest.field_reviewers, SyncMergeRequest.field_approvedBy,
    SyncMergeRequest.field_labels, SyncMergeRequest.field_milestone]
  refine Effect.Returns.bind (Q := fun _ => True) (Effect.Returns.ofExcept rfl trivial)
    fun _ _ => ?_
  refine Effect.Returns.bind (returns_resolveAssignee h m.assignees) fun _ _ => ?_
  refine Effect.Returns.bind (returns_resolveReviewerUuids h m.reviewers) fun _ _ => ?_
  refine Effect.Returns.bind (returns_resolveReviewerUuids h m.approvedBy) fun _ _ => ?_
  refine Effect.Returns.bind (Q := fun items => items = m.labels.map .str)
    (Effect.Returns.ofExcept rfl rfl) fun items hitems => ?_
  subst hitems
  refine Effect.Returns.bind (returns_resolveLocal h m.labels) fun _ _ => ?_
  refine Effect.Returns.bind (returns_mergeRequestMilestone h m.milestone) fun _ _ => ?_
  exact Effect.Returns.pure trivial

end Resolving

/-- The record may be created: no call will fail, and the object has no row. -/
structure Ready (env : Env) (m : Mirror) (bctx : BindingContext) (o : MirrorObject)
    (entry : ProjectCacheEntry) (w : World) : Prop where
  resolvable : Resolvable env bctx entry w
  unclaimed : Unclaimed env w
  lacks : m.Lacks bctx o w

/-- The object has got its document, its row and its mixins. -/
def Created (m : Mirror) (bctx : BindingContext) (o : MirrorObject) (w w' : World) : Prop :=
  ∃ mixins ref, Claimed m bctx o mixins w ref w' ∧ Covers mixins o.again ∧ Covers mixins o.once

/-- Every run that starts ready creates the object. -/
def Claiming (env : Env) (m : Mirror) (bctx : BindingContext) (o : MirrorObject)
    (entry : ProjectCacheEntry) {A : Type} (c : Sync A) : Prop :=
  ∀ w, Ready env m bctx o entry w → Created m bctx o w (c.run w).2

section Claiming

variable {env : Env} {m : Mirror} {bctx : BindingContext} {o : MirrorObject}
  {entry : ProjectCacheEntry} {mixins : List MixinKeys} {w w₁ w₂ : World} {ref : Ref} {A B : Type}

theorem Created.completes (h : Created m bctx o w w₁) : Completes m [o] bctx w w₁ := by
  obtain ⟨mixins, ref, hclaimed, hagain, honce⟩ := h
  exact hclaimed.completes hagain honce

theorem Created.edits (h : Created m bctx o w w₁) (he : Edits bctx w₁ w₂) :
    Created m bctx o w w₂ := by
  obtain ⟨mixins, ref, hclaimed, hcovers⟩ := h
  exact ⟨mixins, ref, hclaimed.edits he, hcovers⟩

/-- What was resolved before the creation belongs to it. -/
theorem Created.resolved (he : Edits bctx w w₁) (h : Created m bctx o w₁ w₂) :
    Created m bctx o w w₂ := by
  obtain ⟨mixins, ref, hclaimed, hcovers⟩ := h
  refine ⟨mixins, ref, ⟨Grows.trans _ _ _ he.grows hclaimed.grows, hclaimed.row,
    he.docs.absent hclaimed.absent, hclaimed.doc, fun r doc hdoc hnone => ?_⟩, hcovers⟩
  cases hmid : w₁.docs.get? r with
  | none => exact hclaimed.added r doc hdoc hmid
  | some mid =>
    obtain ⟨doc', hdoc', hext⟩ := hclaimed.grows.docs r mid hmid
    rw [hdoc] at hdoc'
    cases hdoc'
    have hadded := he.added r mid hmid hnone
    rw [Ordinary, ← hext.objectClass] at hadded
    exact .inr hadded

theorem Claiming.resolve {Q : A → Prop} {c : Sync A} {f : A → Sync B} (hc : Editing bctx c)
    (hr : Effect.Returns (Resolvable env bctx entry) Q c)
    (hf : ∀ a, Q a → Claiming env m bctx o entry (f a)) :
    Claiming env m bctx o entry (c >>= f) := by
  intro w hw
  obtain ⟨a, w₁, hrun, hresolvable, ha⟩ := hr w hw.resolvable
  have hedits : Edits bctx w w₁ := by
    have hall := hc w
    rwa [hrun] at hall
  rw [Effect.bind_of_ok hrun]
  refine Created.resolved hedits (hf a ha w₁ ⟨hresolvable, ?_, hedits.lacks_iff.mpr hw.lacks⟩)
  exact Grows.unclaimed (m := m) hedits.grows hw.unclaimed

theorem Claiming.load {binding : BindingRef} {f : BindingContext → Sync A}
    (hload : env.loadBinding binding = .ok bctx) (hf : Claiming env m bctx o entry (f bctx)) :
    Claiming env m bctx o entry (Sync.loadBinding env binding >>= f) := by
  unfold Sync.loadBinding
  rw [hload]
  exact hf

theorem Claiming.bind {c : Sync A} {f : A → Sync B} (hc : Claiming env m bctx o entry c)
    (hf : ∀ a, Editing bctx (f a)) : Claiming env m bctx o entry (c >>= f) := by
  intro w hw
  have hcreated := hc w hw
  rw [Effect.bind_run]
  cases hrun : c.run w with
  | mk r w₁ =>
    rw [hrun] at hcreated
    cases r with
    | error e => exact hcreated
    | ok a => exact hcreated.edits (hf a w₁)

/-- The mixins written so far are all there are, and what is left only edits. -/
theorem Claimed.created (hc : Claimed m bctx o mixins w ref w₁) (hagain : Covers mixins o.again)
    (honce : Covers mixins o.once) {c : Sync A} (he : Editing bctx c) :
    Created m bctx o w (c.run w₁).2 :=
  ⟨mixins, ref, hc.edits (he w₁), hagain, honce⟩

section Healthy

variable (h : env.Healthy)
include h

/-- The lookup finds no row. -/
theorem Claiming.find {f : Option IdMapDoc → Sync A} (hf : Claiming env m bctx o entry (f none)) :
    Claiming env m bctx o entry
      (Sync.findByGitlab env bctx.workspaceUuid m.gitlabKind o.gitlabId >>= f) := by
  intro w hw
  have hnone : w.idmap.findByGitlab bctx.workspaceUuid m.gitlabKind o.gitlabId = none := hw.lacks
  rw [Effect.bind_of_ok (Sync.findByGitlab_run h _ _ _ w), hnone]
  let asked : World := { w with lookups := w.lookups ++ [(m.gitlabKind, o.gitlabId)] }
  have hasked : Ready env m bctx o entry asked := ⟨⟨⟨hw.resolvable.inOrder.owned,
    hw.resolvable.inOrder.typed⟩, hw.resolvable.entry⟩, hw.unclaimed, hw.lacks⟩
  have hedits : Edits bctx w asked := Edits.of_same rfl rfl
  exact Created.resolved hedits (hf asked hasked)

theorem Claiming.createDoc (attributes : Fields) {f : Ref → Sync A}
    (hf : ∀ w, Ready env m bctx o entry w → ∀ w₁,
      Drafted m bctx [] w (env.generateId w.docs.keys) w₁ →
      Created m bctx o w ((f (env.generateId w.docs.keys)).run w₁).2) :
    Claiming env m bctx o entry
      (Sync.createDoc env m.objectClass bctx.hulyProjectRef attributes >>= f) := by
  intro w hw
  rw [Effect.bind_of_ok (Sync.createDoc_run h _ _ _ w)]
  exact hf w hw _ (drafted_createDoc env _ _ w)

theorem Drafted.created_putMixin (hd : Drafted m bctx mixins w ref w₁) {mixin : String}
    {attributes : Fields} {f : Unit → Sync A}
    (hf : ∀ w₂, Drafted m bctx ((mixin, attributes.map Prod.fst) :: mixins) w ref w₂ →
      Created m bctx o w ((f ()).run w₂).2) :
    Created m bctx o w ((Sync.putMixin env ref mixin attributes >>= f).run w₁).2 := by
  obtain ⟨w₂, hrun, hd₂⟩ := hd.putMixin_run h mixin attributes
  rw [Effect.bind_of_ok hrun]
  exact hf w₂ hd₂

theorem Drafted.created_upsert (hd : Drafted m bctx mixins w (env.generateId w.docs.keys) w₁)
    (hw : Ready env m bctx o entry w) (ho : o ∈ m.objects) (hbefore : Covers mixins o.before)
    {f : Unit → Sync A}
    (hf : ∀ w₂, Claimed m bctx o mixins w (env.generateId w.docs.keys) w₂ →
      Created m bctx o w ((f ()).run w₂).2) :
    Created m bctx o w ((Sync.upsertIdMap env (m.row bctx o (env.generateId w.docs.keys)) >>=
      f).run w₁).2 := by
  obtain ⟨w₂, hrun, hc₂⟩ := hd.upsert_run h hw.unclaimed ho hbefore hw.lacks
  rw [Effect.bind_of_ok hrun]
  exact hf w₂ hc₂

theorem Claimed.created_putMixin (hc : Claimed m bctx o mixins w ref w₁) (mixin : String)
    (attributes : Fields)
    (hagain : Covers ((mixin, attributes.map Prod.fst) :: mixins) o.again)
    (honce : Covers ((mixin, attributes.map Prod.fst) :: mixins) o.once) :
    Created m bctx o w ((Sync.putMixin env ref mixin attributes).run w₁).2 := by
  obtain ⟨w₂, hrun, hc₂⟩ := hc.putMixin_run h mixin attributes
  rw [hrun]
  exact ⟨_, ref, hc₂, hagain, honce⟩

end Healthy

end Claiming

/-- What the manager reads of a record: the note of an envelope, or of the body of a hook. -/
def Notes.Reads (rawRecord : Fields) (now : Nat) (noteableIid note : JsValue) : Prop :=
  if (rawRecord.field "noteableIid").isNumber ∧ rawRecord.field "note" ≠ .undefined then
    noteableIid = rawRecord.field "noteableIid" ∧ note = rawRecord.field "note"
  else parseWebhookPayload rawRecord now = some (.note noteableIid note)

/-- A note of a user, with a body and an author. -/
structure Notes.WellFormed (note : JsValue) : Prop where
  user : ∃ system, note.prop "system" = .ok system ∧ system.truthy = false
  body : ∃ text, (note.get "body").asStr = .ok text
  author : ∃ identity, identityOf (note.get "author") = .ok identity ∧
    (identity.email = .undefined ∨ ∃ address, identity.email = .str address)

/-- The notes of the adapter are well formed. -/
theorem Notes.wellFormed_toFields {n : SyncNote} (huser : n.system = false) :
    WellFormed (.obj n.toFields) where
  user := ⟨.bool n.system, by simp, by simp [JsValue.truthy, huser]⟩
  body := ⟨n.body, by simp⟩
  author := ⟨Issues.identity n.author, by simp [Issues.identityOf_toJs],
    Issues.identity_email n.author⟩

theorem Notes.stringOr_str (v : JsValue) (alternative : String) :
    ∃ text, stringOr v (.str alternative) = .str text := by
  cases v with
  | str text => exact ⟨text, rfl⟩
  | _ => exact ⟨alternative, rfl⟩

/-- The note of a hook is well formed, whatever the hook leaves out. -/
theorem Notes.wellFormed_parseNote {attrs : JsValue} (noteableType : JsValue) (now : Nat)
    (huser : attrs.get "system" ≠ .bool true) :
    WellFormed (.obj (parseNote attrs noteableType now)) where
  user := ⟨_, rfl, by simp [parseNote, JsValue.truthy, huser]⟩
  body := by
    obtain ⟨text, htext⟩ := stringOr_str (attrs.get "body") ""
    exact ⟨text, by simp [parseNote, htext]⟩
  author := by
    have hmail : stringOr ((attrs.get "author").get "email") .null = .null ∨
        ∃ address, stringOr ((attrs.get "author").get "email") .null = .str address := by
      cases (attrs.get "author").get "email" with
      | str address => exact .inr ⟨address, rfl⟩
      | _ => exact .inl rfl
    refine ⟨_, by simp [parseNote, parseAuthor, identityOf, bind, Except.bind]; rfl, ?_⟩
    obtain hnull | ⟨address, haddress⟩ := hmail
    · exact .inl (if_pos hnull)
    · have hne : JsValue.str address ≠ .null := JsValue.noConfusion
      rw [haddress]
      refine .inr ⟨address, ?_⟩
      dsimp only
      rw [if_neg hne]

theorem Notes.run_of_reads (env : Env) (binding : BindingRef) {rawRecord : Fields} {w : World}
    {noteableIid note : JsValue} (h : Reads rawRecord w.now noteableIid note) :
    (applyRemote env binding rawRecord).run w =
      (applyNote env binding rawRecord noteableIid note).run w := by
  unfold Reads at h
  unfold applyRemote
  by_cases henvelope : (rawRecord.field "noteableIid").isNumber ∧
      rawRecord.field "note" ≠ .undefined
  · rw [if_pos henvelope] at h ⊢
    rw [h.1, h.2]
  · rw [if_neg henvelope] at h ⊢
    rw [Effect.gets_bind_run, h]

theorem Notes.id_of_reads {rawRecord : Fields} {now : Nat} {noteableIid note : JsValue}
    (h : Reads rawRecord now noteableIid note) : note.get "id" = noteId rawRecord := by
  unfold Reads at h
  unfold noteId
  by_cases henvelope : (rawRecord.field "noteableIid").isNumber ∧
      rawRecord.field "note" ≠ .undefined
  · rw [if_pos henvelope] at h ⊢
    rw [h.2]
  · rw [if_neg henvelope] at h ⊢
    exact parseWebhookPayload_id h

section Managers

variable {env : Env} (h : env.Healthy) {binding : BindingRef} {bctx : BindingContext}
  (hload : env.loadBinding binding = .ok bctx) {entry : ProjectCacheEntry}
include h hload

theorem Issues.claiming (i : SyncIssue) (hstatus : StatusMap.statusOf entry i.state.toJs ≠ none) :
    Claiming env (mirror env bctx i) bctx (mirrorObject env bctx i) entry
      (applyRemote env binding i.toFields) := by
  unfold applyRemote
  apply Claiming.load hload
  dsimp only
  rw [SyncIssue.field_iid, SyncIssue.field_assignees, SyncIssue.field_labels,
    SyncIssue.field_milestone, SyncIssue.field_state, SyncIssue.field_description]
  refine Claiming.find (m := mirror env bctx i) (o := mirrorObject env bctx i) h ?_
  have hdescription : ∃ text, ((JsValue.ofOption JsValue.str i.description).orElse (.str "")).asStr =
      .ok text := by
    cases i.description <;> exact ⟨_, rfl⟩
  obtain ⟨text, htext⟩ := hdescription
  refine Claiming.resolve (Q := fun _ => True) (Editing.ofExcept _)
    (Effect.Returns.ofExcept htext trivial) fun _ _ => ?_
  refine Claiming.resolve (Editing.resolveAssignee env _) (returns_resolveAssignee h i.assignees)
    fun _ _ => ?_
  refine Claiming.resolve (Q := fun names => names = i.labels.map .str) (Editing.ofExcept _)
    (Effect.Returns.ofExcept rfl rfl) fun names hnames => ?_
  subst hnames
  refine Claiming.resolve (Editing.resolveLocal env _ _) (returns_resolveLocal h i.labels)
    fun _ _ => ?_
  refine Claiming.resolve (Editing.issueMilestone env _) (returns_issueMilestone h i.milestone)
    fun _ _ => ?_
  refine Claiming.resolve (Editing.mapRemoteState env _ _ _) (returns_mapRemoteState _)
    fun status hvalue => ?_
  cases status with
  | none => exact absurd hvalue.symm hstatus
  | some status =>
    refine Claiming.createDoc (m := mirror env bctx i) h _ fun w hw w₁ hd => ?_
    refine hd.created_upsert h hw (List.mem_singleton_self _) (covers_nil _) fun w₂ hc => ?_
    exact hc.created (covers_nil _) (covers_nil _) (Editing.setCursor env _ _ _)

theorem MergeRequests.claiming (r : SyncMergeRequest)
    (hstatus : (MRStatusMap.mapRemoteMRState env r.state.toJs (.bool r.draft) (.str "")
      bctx.statuses).status.text ≠ "") :
    Claiming env (mirror env bctx r) bctx (mirrorObject env bctx r) entry
      (applyRemote env binding r.toFields) := by
  unfold applyRemote
  apply Claiming.load hload
  dsimp only
  rw [SyncMergeRequest.field_iid]
  refine Claiming.find (m := mirror env bctx r) (o := mirrorObject env bctx r) h ?_
  have hresolved : Effect.Returns (Resolvable env bctx entry) (ReviewResolved r)
      (resolveRecord env bctx r.toFields) := by
    intro w hw
    obtain ⟨resolved, w₁, hrun, hw₁, -⟩ := returns_resolveRecord h r w hw
    exact ⟨resolved, w₁, hrun, hw₁, resolveRecord_yields env bctx r w resolved w₁ hrun⟩
  refine Claiming.resolve (Editing.resolveRecord env _) hresolved fun resolved hr => ?_
  obtain ⟨review, hreview, hkeys⟩ := buildReviewFromSyncMR_ok r hr.reviewers hr.approvedBy
  dsimp only
  unfold createFromRemote
  rw [hreview, SyncMergeRequest.field_state, SyncMergeRequest.field_draft]
  dsimp only
  rw [if_neg hstatus]
  refine Claiming.createDoc (m := mirror env bctx r) h _ fun w hw w₁ hd => ?_
  refine hd.created_putMixin h fun w₂ hd₂ => ?_
  rw [Effect.ofExcept_ok_bind]
  by_cases hempty : review = []
  · rw [putReviewMixin, if_pos hempty]
    refine hd₂.created_upsert h hw (List.mem_singleton_self _)
      (createMixins_covered r (by rw [← hkeys, hempty]; rfl)) fun w₃ hc => ?_
    exact hc.created (covers_nil _) (covers_nil _) (Editing.setCursor env _ _ _)
  · rw [putReviewMixin, if_neg hempty]
    refine hd₂.created_putMixin h fun w₃ hd₃ => ?_
    refine hd₃.created_upsert h hw (List.mem_singleton_self _)
      (createMixins_covered_review r hkeys) fun w₄ hc => ?_
    exact hc.created (covers_nil _) (covers_nil _) (Editing.setCursor env _ _ _)

omit hload in
theorem Notes.claiming_applyMapped {rawRecord : Fields} {note : JsValue}
    (hid : note.get "id" = noteId rawRecord) (hnote : WellFormed note) (parentRef : Ref) :
    Claiming env (mirror env bctx rawRecord) bctx (mirrorObject env bctx rawRecord) entry
      (applyMapped env binding bctx parentRef note) := by
  obtain ⟨text, htext⟩ := hnote.body
  obtain ⟨identity, hidentity, hmail⟩ := hnote.author
  unfold applyMapped
  dsimp only
  rw [hid]
  refine Claiming.find (m := mirror env bctx rawRecord) (o := mirrorObject env bctx rawRecord) h ?_
  refine Claiming.resolve (Q := fun _ => True) (Editing.ofExcept _)
    (Effect.Returns.ofExcept htext trivial) fun _ _ => ?_
  refine Claiming.resolve (Editing.resolveUser env _) (returns_resolveIdentity h hidentity hmail)
    fun _ _ => ?_
  refine Claiming.createDoc (m := mirror env bctx rawRecord) h _ fun w hw w₁ hd => ?_
  refine hd.created_upsert h hw (List.mem_singleton_self _) (covers_nil _) fun w₂ hc => ?_
  exact hc.created (covers_nil _) (covers_nil _) (Editing.setCursor env _ _ _)

/-- A note whose parent is mirrored is created. -/
theorem Notes.created {rawRecord : Fields} {noteableIid note : JsValue} {w : World}
    (hreads : Reads rawRecord w.now noteableIid note) (hnote : WellFormed note)
    (hparent : ∃ row, w.idmap.findByGitlab bctx.workspaceUuid (parentKind note)
      (projectKey env bctx noteableIid) = some row)
    (hw : Ready env (mirror env bctx rawRecord) bctx (mirrorObject env bctx rawRecord) entry w) :
    Created (mirror env bctx rawRecord) bctx (mirrorObject env bctx rawRecord) w
      ((applyRemote env binding rawRecord).run w).2 := by
  obtain ⟨system, hsystem, huser⟩ := hnote.user
  obtain ⟨row, hrow⟩ := hparent
  rw [run_of_reads env binding hreads]
  unfold applyNote Sync.loadBinding findParent
  rw [hsystem, Effect.ofExcept_ok_bind_run, huser, if_neg Bool.noConfusion, hload,
    Effect.ofExcept_ok_bind_run, Effect.bind_of_ok (Sync.findByGitlab_run h _ _ _ w), hrow]
  let asked : World :=
    { w with lookups := w.lookups ++ [(parentKind note, projectKey env bctx noteableIid)] }
  have hasked : Ready env (mirror env bctx rawRecord) bctx (mirrorObject env bctx rawRecord) entry
      asked := ⟨⟨⟨hw.resolvable.inOrder.owned, hw.resolvable.inOrder.typed⟩,
    hw.resolvable.entry⟩, hw.unclaimed, hw.lacks⟩
  have hedits : Edits bctx w asked := Edits.of_same rfl rfl
  exact Created.resolved hedits
    (claiming_applyMapped h (id_of_reads hreads) hnote row.hulyRef asked hasked)

theorem Epics.claiming (e : SyncEpic)
    (hedition : ¬ (bctx.edition ≠ none ∧ bctx.edition ≠ some "ee"))
    (hstatus : pickBacklogStatus bctx.statuses ≠ none) :
    Claiming env (mirror env bctx e) bctx (mirrorObject env bctx e) entry
      (applyRemote env binding e.toFields) := by
  obtain ⟨status, hstatus⟩ := Option.ne_none_iff_exists'.mp hstatus
  unfold applyRemote
  apply Claiming.load hload
  dsimp only
  rw [if_neg hedition, SyncEpic.field_groupId, SyncEpic.field_iid, SyncEpic.field_description,
    SyncEpic.field_updatedAt, hstatus]
  refine Claiming.find (m := mirror env bctx e) (o := mirrorObject env bctx e) h ?_
  refine Claiming.resolve (Q := fun _ => True) (Editing.ofExcept _)
    (Effect.Returns.ofExcept rfl trivial) fun _ _ => ?_
  refine Claiming.resolve (Q := fun _ => True) (Editing.ofExcept _)
    (Effect.Returns.ofExcept rfl trivial) fun _ _ => ?_
  refine Claiming.bind ?_ fun _ => Editing.linkChildren env _ _
  have hdata : buildEpicMixinCreateData e.toFields = .ok [("epicIid", .num e.iid),
      ("groupId", .num e.groupId), ("state", e.state.toJs), ("webUrl", .str e.webUrl),
      ("childIssueIids", .arr (e.childIssueIids.map .num))] := by
    simp [buildEpicMixinCreateData, buildEpicMixinUpdateData, bind, Except.bind, pure, Except.pure]
  have hkeys : (withOriginatedMarker [("epicIid", .num e.iid), ("groupId", .num e.groupId),
      ("state", e.state.toJs), ("webUrl", .str e.webUrl),
      ("childIssueIids", .arr (e.childIssueIids.map .num))]).map Prod.fst =
      ["epicIid", "groupId", "state", "webUrl", "childIssueIids", "_originated"] := rfl
  refine Claiming.createDoc (m := mirror env bctx e) h _ fun w hw w₁ hd => ?_
  refine hd.created_upsert h hw (List.mem_singleton_self _) (covers_nil _) fun w₂ hc => ?_
  rw [hdata, Effect.ofExcept_ok_bind]
  refine hc.created_putMixin h _ _ ?_ ?_
  · intro doc hdoc mixin hmixin
    rw [List.mem_singleton.mp hmixin]
    exact (hdoc _ List.mem_cons_self).mono (by rw [hkeys]; decide)
  · intro doc hdoc mixin hmixin
    rw [List.mem_singleton.mp hmixin]
    exact (hdoc _ List.mem_cons_self).mono (by rw [hkeys]; decide)

end Managers

end HulyGitlab
