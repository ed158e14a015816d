import HulyGitlab.Sync.Reviews
import HulyGitlab.Sync.Epics

/-!
# What a call may write

The parts of the state, and for each function of the managers the parts it
may write, whether it returns or throws. Everything else is unchanged.
-/

namespace HulyGitlab

/-- The parts of the state; the clock is none of them, as no call moves it. -/
inductive Part
  | idmap
  | cursors
  | docs
  | statusCache
  | requests
  | enqueued
  | lookups
  deriving DecidableEq

/-- The part is the same in both states. -/
def Part.Same : Part → World → World → Prop
  | .idmap, w, w' => w'.idmap = w.idmap
  | .cursors, w, w' => w'.cursors = w.cursors
  | .docs, w, w' => w'.docs = w.docs
  | .statusCache, w, w' => w'.statusCache = w.statusCache
  | .requests, w, w' => w'.requests = w.requests
  | .enqueued, w, w' => w'.enqueued = w.enqueued
  | .lookups, w, w' => w'.lookups = w.lookups

theorem Part.Same.refl (p : Part) (w : World) : p.Same w w := by cases p <;> rfl

theorem Part.Same.trans {p : Part} {w w' w'' : World} (h : p.Same w w') (h' : p.Same w' w'') :
    p.Same w w'' := by
  cases p <;> exact Eq.trans h' h

/-- Outside of the given parts nothing changes. -/
structure Frame (parts : List Part) (w w' : World) : Prop where
  now : w'.now = w.now
  same : ∀ p, p ∉ parts → p.Same w w'

theorem Frame.refl (parts : List Part) (w : World) : Frame parts w w :=
  ⟨rfl, fun p _ => Part.Same.refl p w⟩

theorem Frame.trans {parts : List Part} (w w' w'' : World) (h : Frame parts w w')
    (h' : Frame parts w' w'') : Frame parts w w'' :=
  ⟨h'.now.trans h.now, fun p hp => (h.same p hp).trans (h'.same p hp)⟩

theorem Frame.mono {parts parts' : List Part} (hsub : parts ⊆ parts') {w w' : World}
    (h : Frame parts w w') : Frame parts' w w' :=
  ⟨h.now, fun p hp => h.same p fun hmem => hp (hsub hmem)⟩

/-- Every run of the computation writes at most the given parts. -/
def Writes {A : Type} (parts : List Part) (m : Sync A) : Prop := Effect.Within (Frame parts) m

namespace Writes

variable {A B : Type} {parts : List Part}

theorem mono {parts' : List Part} (hsub : parts ⊆ parts') {m : Sync A} (h : Writes parts m) :
    Writes parts' m :=
  Effect.Within.mono (fun _ _ hf => hf.mono hsub) h

theorem pure (a : A) : Writes parts (pure a) := Effect.Within.pure (Frame.refl parts) a

theorem gets (f : World → A) : Writes parts (Effect.gets f) :=
  Effect.Within.gets (Frame.refl parts) f

theorem ofExcept (r : Except Err A) : Writes parts (Effect.ofExcept r) :=
  Effect.Within.ofExcept (Frame.refl parts) r

theorem bind {m : Sync A} {f : A → Sync B} (hm : Writes parts m) (hf : ∀ a, Writes parts (f a)) :
    Writes parts (m >>= f) :=
  Effect.Within.bind Frame.trans hm hf

theorem ite {c : Prop} [Decidable c] {m n : Sync A} (hm : Writes parts m) (hn : Writes parts n) :
    Writes parts (if c then m else n) :=
  Effect.Within.ite (fun _ => hm) fun _ => hn

theorem attempt {m : Sync A} {handler : Err → Sync A} (hm : Writes parts m)
    (hh : ∀ e, Writes parts (handler e)) : Writes parts (Effect.attempt m handler) :=
  Effect.Within.attempt Frame.trans hm hh

theorem forEach {body : A → Sync Unit} {xs : List A} (h : ∀ a, Writes parts (body a)) :
    Writes parts (Effect.forEach body xs) :=
  Effect.Within.forEach (Frame.refl parts) Frame.trans fun a _ => h a

theorem mapEach {body : A → Sync B} {xs : List A} (h : ∀ a, Writes parts (body a)) :
    Writes parts (Effect.mapEach body xs) :=
  Effect.Within.mapEach (Frame.refl parts) Frame.trans fun a _ => h a

/-- A part that is not written is the same after a run. -/
theorem same {m : Sync A} (h : Writes parts m) {p : Part} (hp : p ∉ parts) (w : World) :
    p.Same w (m.run w).2 :=
  (h w).same p hp

/-! ### The calls to the services -/

variable (env : Env)

theorem reach (service : Service) : Writes parts (Sync.reach env service) := by
  intro w
  unfold Sync.reach
  rw [Effect.step_run]
  cases env.fault w service with
  | none => exact Frame.refl parts w
  | some e => exact Frame.refl parts w

theorem loadBinding (binding : BindingRef) : Writes parts (Sync.loadBinding env binding) :=
  ofExcept _

theorem findByHuly (workspaceUuid hulyClass : String) (hulyRef : Ref) :
    Writes parts (Sync.findByHuly env workspaceUuid hulyClass hulyRef) :=
  bind (reach env .idmap) fun _ => gets _

theorem getCursor (binding : BindingRef) (kind : CursorKind) :
    Writes parts (Sync.getCursor env binding kind) :=
  bind (reach env .cursors) fun _ => gets _

theorem findOne (objectClass : String) (ref : Ref) :
    Writes parts (Sync.findOne env objectClass ref) :=
  bind (reach env .platform) fun _ => gets _

theorem findAll (objectClass : String) : Writes parts (Sync.findAll env objectClass) :=
  bind (reach env .platform) fun _ => gets _

theorem findPersonBySocialKey (socialKey : String) :
    Writes parts (Sync.findPersonBySocialKey env socialKey) :=
  bind (reach env .account) fun _ => pure _

/-- A step that changes one part only. -/
theorem of_part {m : Sync A} (p : Part) (hp : p ∈ parts)
    (h : ∀ w, (m.run w).2.now = w.now ∧ ∀ q, q ≠ p → q.Same w (m.run w).2) : Writes parts m := by
  intro w
  obtain ⟨hnow, hsame⟩ := h w
  exact ⟨hnow, fun q hq => hsame q fun heq => hq (heq ▸ hp)⟩

theorem findByGitlab (hp : .lookups ∈ parts) (workspaceUuid : String) (gitlabKind : GitlabKind)
    (gitlabId : String) :
    Writes parts (Sync.findByGitlab env workspaceUuid gitlabKind gitlabId) := by
  unfold Sync.findByGitlab
  apply bind
  · apply of_part .lookups hp
    intro w
    refine ⟨rfl, fun q hq => ?_⟩
    cases q <;> first | rfl | exact absurd rfl hq
  · exact fun _ => bind (reach env .idmap) fun _ => gets _

theorem upsertIdMap (hp : .idmap ∈ parts) (doc : IdMapDoc) :
    Writes parts (Sync.upsertIdMap env doc) := by
  unfold Sync.upsertIdMap
  apply bind (reach env .idmap)
  intro _
  apply of_part .idmap hp
  intro w
  rw [Effect.step_run]
  cases w.idmap.upsert doc with
  | error e => exact ⟨rfl, fun q _ => Part.Same.refl q w⟩
  | ok idmap =>
    refine ⟨rfl, fun q hq => ?_⟩
    cases q <;> first | rfl | exact absurd rfl hq

theorem setCursor (hp : .cursors ∈ parts) (binding : BindingRef) (kind : CursorKind)
    (updatedAfter : Option Nat) : Writes parts (Sync.setCursor env binding kind updatedAfter) := by
  unfold Sync.setCursor
  apply bind (reach env .cursors)
  intro _
  apply of_part .cursors hp
  intro w
  refine ⟨rfl, fun q hq => ?_⟩
  cases q <;> first | rfl | exact absurd rfl hq

theorem createDoc (hp : .docs ∈ parts) (objectClass : String) (space : Ref) (attributes : Fields) :
    Writes parts (Sync.createDoc env objectClass space attributes) := by
  unfold Sync.createDoc
  apply bind (reach env .platform)
  intro _
  apply of_part .docs hp
  intro w
  refine ⟨rfl, fun q hq => ?_⟩
  cases q <;> first | rfl | exact absurd rfl hq

/-- The two updates of a document that may be missing. -/
theorem modifyDoc (hp : .docs ∈ parts) (ref : Ref) (f : HulyDoc → HulyDoc) :
    Writes parts (Effect.modify fun w : World =>
      match w.docs.get? ref with
      | some doc => { w with docs := w.docs.set ref (f doc) }
      | none => w) := by
  apply of_part .docs hp
  intro w
  rw [Effect.modify_run]
  cases w.docs.get? ref with
  | none => exact ⟨rfl, fun q _ => Part.Same.refl q w⟩
  | some doc =>
    refine ⟨rfl, fun q hq => ?_⟩
    cases q <;> first | rfl | exact absurd rfl hq

theorem updateDoc (hp : .docs ∈ parts) (ref : Ref) (operations : Fields) :
    Writes parts (Sync.updateDoc env ref operations) :=
  bind (reach env .platform) fun _ =>
    modifyDoc hp ref fun doc => { doc with attrs := doc.attrs.assign operations }

theorem putMixin (hp : .docs ∈ parts) (ref : Ref) (mixin : String) (attributes : Fields) :
    Writes parts (Sync.putMixin env ref mixin attributes) :=
  bind (reach env .platform) fun _ =>
    modifyDoc hp ref fun doc =>
      { doc with mixins := doc.mixins.set mixin (((doc.mixins.get? mixin).getD []).assign attributes) }

theorem request (hp : .requests ∈ parts) (r : GitLabRequest) : Writes parts (Sync.request env r) := by
  apply of_part .requests hp
  intro w
  refine ⟨rfl, fun q hq => ?_⟩
  cases q <;> first | rfl | exact absurd rfl hq

theorem enqueueRecord (hp : .enqueued ∈ parts) (e : EnqueuedRecord) :
    Writes parts (Sync.enqueueRecord e) := by
  apply of_part .enqueued hp
  intro w
  refine ⟨rfl, fun q hq => ?_⟩
  cases q <;> first | rfl | exact absurd rfl hq

/-! ### Users, labels, milestones and statuses -/

theorem mapByEmail (email : JsValue) : Writes parts (UserIdentity.mapByEmail env email) :=
  bind (ofExcept _) fun _ => findPersonBySocialKey env _

theorem mapByGitlabUser (user : IdentityUser) :
    Writes parts (UserIdentity.mapByGitlabUser env user) := by
  apply bind (findPersonBySocialKey env _)
  intro byGitlab
  cases byGitlab with
  | some ref => exact pure _
  | none => exact ite (mapByEmail env _) (pure _)

theorem ensureStubGuest (hi : .idmap ∈ parts) (hl : .lookups ∈ parts) (workspaceUuid : String)
    (user : IdentityUser) : Writes parts (UserIdentity.ensureStubGuest env workspaceUuid user) := by
  apply bind (findByGitlab env hl _ _ _)
  intro existing
  cases existing with
  | some row => exact pure _
  | none => exact bind (upsertIdMap env hi _) fun _ => pure _

theorem resolveUser (hi : .idmap ∈ parts) (hl : .lookups ∈ parts) (workspaceUuid : String)
    (user : JsValue) : Writes parts (UserIdentity.resolveUser env workspaceUuid user) := by
  apply bind (ofExcept _)
  intro identity
  apply bind (mapByGitlabUser env identity)
  intro matched
  cases matched with
  | some ref => exact pure _
  | none => exact ensureStubGuest env hi hl _ _

theorem resolveAssignee (hi : .idmap ∈ parts) (hl : .lookups ∈ parts) (workspaceUuid : String)
    (assignees : JsValue) :
    Writes parts (UserIdentity.resolveAssignee env workspaceUuid assignees) := by
  apply bind (ofExcept _)
  intro users
  cases users with
  | nil => exact pure _
  | cons first rest => exact bind (resolveUser env hi hl _ _) fun _ => pure _

theorem labels_primeLocal (c : LabelCache) : Writes parts (LabelCache.primeLocal env c) :=
  ite (pure _) (bind (findAll env _) fun _ => bind (ofExcept _) fun _ => pure _)

theorem ensureLocalTag (hd : .docs ∈ parts) (space : Ref) (c : LabelCache) (name : JsValue) :
    Writes parts (LabelCache.ensureLocalTag env space c name) := by
  apply bind (labels_primeLocal env c)
  intro c
  apply bind (ofExcept _)
  intro text
  dsimp only
  cases c.localByName.get (env.toLowerCase text) with
  | some existing => exact pure _
  | none => exact bind (createDoc env hd _ _ _) fun _ => pure _

theorem resolveLocal (hd : .docs ∈ parts) (space : Ref) (c : LabelCache) (names : List JsValue) :
    Writes parts (LabelCache.resolveLocal env space c names) := by
  induction names generalizing c with
  | nil => exact pure _
  | cons name names ih =>
    exact bind (ensureLocalTag env hd _ _ _) fun first => bind (ih first.2) fun _ => pure _

theorem milestones_primeLocal (space : Ref) (c : MilestoneCache) :
    Writes parts (MilestoneCache.primeLocal env space c) :=
  ite (pure _) (bind (findAll env _) fun _ => bind (ofExcept _) fun _ => pure _)

theorem ensureLocalMilestone (hd : .docs ∈ parts) (space : Ref) (c : MilestoneCache)
    (label description : JsValue) :
    Writes parts (MilestoneCache.ensureLocalMilestone env space c label description) := by
  apply bind (milestones_primeLocal env space c)
  intro c
  apply bind (ofExcept _)
  intro text
  dsimp only
  cases c.localByLabel.get (env.toLowerCase text) with
  | some existing => exact pure _
  | none => exact bind (createDoc env hd _ _ _) fun _ => pure _

theorem labels_primeRemote (hr : .requests ∈ parts) (projectId : Int) (c : LabelCache) :
    Writes parts (LabelCache.primeRemote env projectId c) :=
  ite (pure _) (bind (request env hr _) fun _ => bind (ofExcept _) fun _ =>
    bind (ofExcept _) fun _ => pure _)

theorem ensureRemoteLabel (hr : .requests ∈ parts) (projectId : Int) (c : LabelCache)
    (name color : JsValue) :
    Writes parts (LabelCache.ensureRemoteLabel env projectId c name color) := by
  apply bind (labels_primeRemote env hr _ c)
  intro c
  apply bind (ofExcept _)
  intro text
  dsimp only
  cases c.remoteByName.get (env.toLowerCase text) with
  | some existing => exact pure _
  | none => exact bind (request env hr _) fun _ => pure _

theorem ensureRemote (hr : .requests ∈ parts) (projectId : Int) (c : LabelCache)
    (labels : List JsValue) : Writes parts (LabelCache.ensureRemote env projectId c labels) := by
  induction labels generalizing c with
  | nil => exact pure _
  | cons l labels ih =>
    exact bind (ofExcept _) fun _ => bind (ofExcept _) fun _ =>
      bind (ensureRemoteLabel env hr _ _ _ _) fun ensured => bind (ofExcept _) fun _ =>
        bind (ih ensured.2) fun _ => pure _

theorem milestones_primeRemote (hr : .requests ∈ parts) (projectId : Int) (c : MilestoneCache) :
    Writes parts (MilestoneCache.primeRemote env projectId c) :=
  ite (pure _) (bind (request env hr _) fun _ => bind (ofExcept _) fun _ =>
    bind (ofExcept _) fun _ => pure _)

theorem ensureRemoteMilestone (hr : .requests ∈ parts) (projectId : Int) (c : MilestoneCache)
    (title description : JsValue) :
    Writes parts (MilestoneCache.ensureRemoteMilestone env projectId c title description) := by
  apply bind (milestones_primeRemote env hr _ c)
  intro c
  apply bind (ofExcept _)
  intro text
  dsimp only
  cases c.remoteByTitle.get (env.toLowerCase text) with
  | some existing => exact pure _
  | none => exact bind (request env hr _) fun _ => pure _

theorem getEntry (hs : .statusCache ∈ parts) (projectKey : String) (statuses : List Status) :
    Writes parts (StatusMap.getEntry env projectKey statuses) := by
  apply of_part .statusCache hs
  intro w
  rw [StatusMap.getEntry_run]
  refine ⟨rfl, fun q hq => ?_⟩
  cases q <;> first | rfl | exact absurd rfl hq

theorem mapRemoteState (hs : .statusCache ∈ parts) (projectKey : String) (remoteState : JsValue)
    (statuses : List Status) :
    Writes parts (StatusMap.mapRemoteState env projectKey remoteState statuses) :=
  bind (getEntry env hs _ _) fun _ => pure _

theorem mapHulyStatus (hs : .statusCache ∈ parts) (projectKey : String) (statusRef : JsValue)
    (statuses : List Status) :
    Writes parts (StatusMap.mapHulyStatus env projectKey statusRef statuses) := by
  apply bind (getEntry env hs _ _)
  intro entry
  cases statusRef <;> exact pure _

/-! ### The pieces of the managers -/

theorem writeUpdate (hd : .docs ∈ parts) (hulyRef : Ref) (update : Fields) (remoteTs : JsDate) :
    Writes parts (HulyGitlab.writeUpdate env hulyRef update remoteTs) :=
  ite (pure _) (updateDoc env hd _ _)

theorem advanceCursor (hc : .cursors ∈ parts) (binding : BindingRef) (kind : CursorKind)
    (localTs : Option JsDate) (remoteTs : JsDate) :
    Writes parts (HulyGitlab.advanceCursor env binding kind localTs remoteTs) :=
  ite (setCursor env hc _ _ _) (pure _)

theorem remoteLabels (hr : .requests ∈ parts) (projectId : Int) (labels : JsValue) :
    Writes parts (HulyGitlab.remoteLabels env projectId labels) :=
  ite (pure _) (bind (ofExcept _) fun _ => bind (ensureRemote env hr _ _ _) fun _ => pure _)

theorem remoteMilestoneId (hr : .requests ∈ parts) (projectId : Int) (milestone : JsValue) :
    Writes parts (HulyGitlab.remoteMilestoneId env projectId milestone) :=
  ite (pure _) (bind (ofExcept _) fun _ => bind (ofExcept _) fun _ =>
    bind (ensureRemoteMilestone env hr _ _ _ _) fun _ => ofExcept _)

theorem remoteDescription (refUrl imageUrl : String) (markup : JsValue) :
    Writes parts (HulyGitlab.remoteDescription env refUrl imageUrl markup) :=
  ite (pure _) (bind (ofExcept _) fun _ => pure _)

theorem findParent (hl : .lookups ∈ parts) (bctx : BindingContext) (kind : GitlabKind)
    (iid : JsValue) : Writes parts (HulyGitlab.findParent env bctx kind iid) :=
  findByGitlab env hl _ _ _

end Writes

/-! ### `applyRemote` of the managers -/

section Remote

variable (env : Env)

open Writes

/-- What applying a record may write: everything but requests to GitLab. -/
def remoteParts : List Part := [.idmap, .cursors, .docs, .statusCache, .enqueued, .lookups]

/-- What writing a mirror may touch; nothing is handed back to the engine. -/
def mirrorParts : List Part := [.idmap, .cursors, .docs, .lookups]

theorem Issues.resolveMilestone_writes {parts : List Part} (hd : .docs ∈ parts) (space : Ref)
    (milestone : JsValue) : Writes parts (Issues.resolveMilestone env space milestone) :=
  Writes.ite (Writes.pure _) (Writes.bind (ofExcept _) fun _ => Writes.bind (ofExcept _) fun _ =>
    Writes.bind (ensureLocalMilestone env hd _ _ _ _) fun _ => Writes.pure _)

theorem Issues.createFromRemote_writes (binding : BindingRef) (bctx : BindingContext)
    (gitlabId : String) (r : Issues.RemoteIssue) (remoteTs : JsDate) :
    Writes remoteParts (Issues.createFromRemote env binding bctx gitlabId r remoteTs) :=
  Writes.bind (createDoc env (by decide) _ _ _) fun _ =>
    Writes.bind (upsertIdMap env (by decide) _) fun _ => setCursor env (by decide) _ _ _

theorem Issues.updateFromRemote_writes (binding : BindingRef) (hulyRef : Ref)
    (r : Issues.RemoteIssue) (remoteTs : JsDate) :
    Writes remoteParts (Issues.updateFromRemote env binding hulyRef r remoteTs) := by
  apply Writes.bind (findOne env _ _)
  intro hulyIssue
  cases hulyIssue with
  | none => exact Writes.pure _
  | some issue =>
    exact Writes.bind (Writes.writeUpdate env (by decide) _ _ _) fun _ =>
      Writes.advanceCursor env (by decide) _ _ _ _

theorem Issues.applyRemote_writes (binding : BindingRef) (syncIssue : Fields) :
    Writes remoteParts (Issues.applyRemote env binding syncIssue) := by
  unfold Issues.applyRemote
  apply Writes.bind (loadBinding env binding)
  intro bctx
  apply Writes.bind (findByGitlab env (by decide) _ _ _)
  intro existing
  apply Writes.bind (ofExcept _)
  intro rawDescription
  apply Writes.bind (resolveAssignee env (by decide) (by decide) _ _)
  intro assignee
  apply Writes.bind (ofExcept _)
  intro names
  apply Writes.bind (resolveLocal env (by decide) _ _ _)
  intro labelRefs
  apply Writes.bind (Issues.resolveMilestone_writes env (by decide) _ _)
  intro milestone
  apply Writes.bind (mapRemoteState env (by decide) _ _ _)
  intro statusRef
  cases statusRef with
  | none => exact Writes.pure _
  | some status =>
    cases existing with
    | none => exact Issues.createFromRemote_writes env _ _ _ _ _
    | some row => exact Issues.updateFromRemote_writes env _ _ _ _

theorem MergeRequests.resolveReviewerUuids_writes {parts : List Part} (hi : .idmap ∈ parts)
    (hl : .lookups ∈ parts) (workspaceUuid : String) (users : JsValue) :
    Writes parts (MergeRequests.resolveReviewerUuids env workspaceUuid users) :=
  Writes.ite (Writes.pure _) (Writes.bind (ofExcept _) fun _ =>
    Writes.bind (mapEach fun _ => resolveUser env hi hl _ _) fun _ => Writes.pure _)

theorem MergeRequests.resolveMilestone_writes {parts : List Part} (hd : .docs ∈ parts) (space : Ref)
    (milestone : JsValue) : Writes parts (MergeRequests.resolveMilestone env space milestone) :=
  Writes.ite (Writes.pure _) (Writes.bind (ofExcept _) fun _ =>
    Writes.bind (ensureLocalMilestone env hd _ _ _ _) fun _ => Writes.pure _)

/-- Resolving a record only adds guests, tags and milestones. -/
def resolveParts : List Part := [.idmap, .docs, .lookups]

theorem MergeRequests.resolveRecord_writes (bctx : BindingContext) (syncMR : Fields) :
    Writes resolveParts (MergeRequests.resolveRecord env bctx syncMR) :=
  Writes.bind (ofExcept _) fun _ =>
    Writes.bind (resolveAssignee env (by decide) (by decide) _ _) fun _ =>
    Writes.bind (resolveReviewerUuids_writes env (by decide) (by decide) _ _) fun _ =>
    Writes.bind (resolveReviewerUuids_writes env (by decide) (by decide) _ _) fun _ =>
    Writes.bind (ofExcept _) fun _ =>
    Writes.bind (resolveLocal env (by decide) _ _ _) fun _ =>
    Writes.bind (resolveMilestone_writes env (by decide) _ _) fun _ => Writes.pure _

theorem MergeRequests.putReviewMixin_writes {parts : List Part} (hd : .docs ∈ parts) (ref : Ref)
    (review : Fields) : Writes parts (MergeRequests.putReviewMixin env ref review) :=
  Writes.ite (Writes.pure _) (putMixin env hd _ _ _)

theorem MergeRequests.createFromRemote_writes (binding : BindingRef) (bctx : BindingContext)
    (gitlabId : String) (syncMR : Fields) (r : MergeRequests.RemoteMR) (remoteTs : JsDate) :
    Writes remoteParts
      (MergeRequests.createFromRemote env binding bctx gitlabId syncMR r remoteTs) :=
  Writes.ite (Writes.pure _) (
    Writes.bind (createDoc env (by decide) _ _ _) fun _ =>
    Writes.bind (putMixin env (by decide) _ _ _) fun _ =>
    Writes.bind (ofExcept _) fun _ =>
    Writes.bind (putReviewMixin_writes env (by decide) _ _) fun _ =>
    Writes.bind (upsertIdMap env (by decide) _) fun _ => setCursor env (by decide) _ _ _)

theorem MergeRequests.putMixins_writes {parts : List Part} (hd : .docs ∈ parts) (hulyRef : Ref)
    (issue : HulyDoc) (syncMR : Fields) (r : MergeRequests.RemoteMR) (remoteTs : JsDate) :
    Writes parts (MergeRequests.putMixins env hulyRef issue syncMR r remoteTs) :=
  Writes.bind (gets _) fun _ =>
    Writes.bind (ofExcept _) fun _ =>
    Writes.bind (putMixin env hd _ _ _) fun _ =>
    Writes.bind (ofExcept _) fun _ => putReviewMixin_writes env hd _ _

theorem MergeRequests.updateFromRemote_writes {parts : List Part} (hd : .docs ∈ parts)
    (hc : .cursors ∈ parts) (binding : BindingRef) (bctx : BindingContext) (hulyRef : Ref)
    (syncMR : Fields) (r : MergeRequests.RemoteMR) (remoteTs : JsDate) :
    Writes parts (MergeRequests.updateFromRemote env binding bctx hulyRef syncMR r remoteTs) := by
  apply Writes.bind (findOne env _ _)
  intro hulyIssue
  cases hulyIssue with
  | none => exact Writes.pure _
  | some issue =>
    exact Writes.bind (Writes.writeUpdate env hd _ _ _) fun _ =>
      Writes.bind (putMixins_writes env hd _ _ _ _ _) fun _ =>
      Writes.advanceCursor env hc _ _ _ _

theorem MergeRequests.applyRemote_writes (binding : BindingRef) (syncMR : Fields) :
    Writes remoteParts (MergeRequests.applyRemote env binding syncMR) := by
  unfold MergeRequests.applyRemote
  apply Writes.bind (loadBinding env binding)
  intro bctx
  apply Writes.bind (findByGitlab env (by decide) _ _ _)
  intro existing
  apply Writes.bind ((resolveRecord_writes env bctx syncMR).mono (by decide))
  intro r
  cases existing with
  | none => exact createFromRemote_writes env _ _ _ _ _ _
  | some row => exact updateFromRemote_writes env (by decide) (by decide) _ _ _ _ _ _

theorem Notes.routeReview_writes (binding : BindingRef) (rawRecord : Fields)
    (noteableIid note position discussionId : JsValue) :
    Writes remoteParts
      (Notes.routeReview env binding rawRecord noteableIid note position discussionId) := by
  unfold Notes.routeReview
  apply Writes.bind (loadBinding env binding)
  intro bctx
  apply Writes.bind (Writes.findParent env (by decide) _ _ _)
  intro parentMapping
  cases parentMapping with
  | none => exact Writes.ite (Writes.pure _) (enqueueRecord (by decide) _)
  | some row => exact enqueueRecord (by decide) _

theorem Notes.createFromRemote_writes (binding : BindingRef) (bctx : BindingContext)
    (gitlabId : String) (parentRef : Ref) (message author : JsValue)
    (createdAt updatedAt : JsDate) :
    Writes mirrorParts (Notes.createFromRemote env binding bctx gitlabId parentRef message author
      createdAt updatedAt) :=
  Writes.bind (createDoc env (by decide) _ _ _) fun _ =>
    Writes.bind (upsertIdMap env (by decide) _) fun _ => setCursor env (by decide) _ _ _

theorem Notes.updateFromRemote_writes (binding : BindingRef) (hulyRef : Ref)
    (message author : JsValue) (remoteTs : JsDate) :
    Writes mirrorParts (Notes.updateFromRemote env binding hulyRef message author remoteTs) :=
  Writes.bind (getCursor env _ _) fun _ =>
    Writes.ite (Writes.bind (updateDoc env (by decide) _ _) fun _ =>
      setCursor env (by decide) _ _ _) (Writes.pure _)

theorem Notes.applyMapped_writes (binding : BindingRef) (bctx : BindingContext) (parentRef : Ref)
    (note : JsValue) : Writes mirrorParts (Notes.applyMapped env binding bctx parentRef note) := by
  unfold Notes.applyMapped
  apply Writes.bind (findByGitlab env (by decide) _ _ _)
  intro existing
  apply Writes.bind (ofExcept _)
  intro body
  apply Writes.bind (resolveUser env (by decide) (by decide) _ _)
  intro author
  cases existing with
  | none => exact createFromRemote_writes env _ _ _ _ _ _ _ _
  | some row => exact updateFromRemote_writes env _ _ _ _ _

theorem Notes.applyNote_writes (binding : BindingRef) (rawRecord : Fields)
    (noteableIid note : JsValue) :
    Writes remoteParts (Notes.applyNote env binding rawRecord noteableIid note) := by
  unfold Notes.applyNote
  apply Writes.bind (ofExcept _)
  intro system
  apply Writes.ite (Writes.pure _)
  apply Writes.bind (loadBinding env binding)
  intro bctx
  apply Writes.bind (Writes.findParent env (by decide) _ _ _)
  intro parent
  cases parent with
  | some row => exact (applyMapped_writes env _ _ _ _).mono (by decide)
  | none =>
    dsimp only
    cases markAndRetry rawRecord NOTE_RETRY_FLAG with
    | none => exact Writes.pure _
    | some marked => exact enqueueRecord (by decide) _

theorem Notes.applyRemote_writes (binding : BindingRef) (rawRecord : Fields) :
    Writes remoteParts (Notes.applyRemote env binding rawRecord) := by
  apply Writes.ite (applyNote_writes env _ _ _ _)
  apply Writes.bind (gets _)
  intro now
  cases parseWebhookPayload rawRecord now with
  | none => exact Writes.pure _
  | some parsed =>
    cases parsed with
    | note iid note => exact applyNote_writes env _ _ _ _
    | malformedPosition iid note => exact Writes.pure _
    | review iid note position discussionId => exact routeReview_writes env _ _ _ _ _ _

theorem Reviews.createMessage_writes (bctx : BindingContext) (key : String) (parentRef : Ref)
    (message author : JsValue) (createdAt updatedAt : JsDate) :
    Writes resolveParts
      (Reviews.createMessage env bctx key parentRef message author createdAt updatedAt) :=
  Writes.bind (createDoc env (by decide) _ _ _) fun _ =>
    Writes.bind (upsertIdMap env (by decide) _) fun _ => Writes.pure _

theorem Reviews.updateMessage_writes (messageRef : Ref) (message author : JsValue)
    (updatedAt : JsDate) :
    Writes resolveParts (Reviews.updateMessage env messageRef message author updatedAt) :=
  Writes.bind (findOne env _ _) fun _ => Writes.ite (updateDoc env (by decide) _ _) (Writes.pure _)

theorem Reviews.putMessage_writes (bctx : BindingContext) (existing : Option IdMapDoc)
    (key : String) (parentRef : Ref) (message author : JsValue) (createdAt updatedAt : JsDate) :
    Writes resolveParts
      (Reviews.putMessage env bctx existing key parentRef message author createdAt updatedAt) := by
  cases existing with
  | none => exact createMessage_writes env _ _ _ _ _ _ _
  | some row => exact Writes.bind (updateMessage_writes env _ _ _ _) fun _ => Writes.pure _

theorem Reviews.applyThreadNote_writes (bctx : BindingContext) (parentRef : Ref)
    (thread : Reviews.ThreadState) (rootNoteId note : JsValue) :
    Writes resolveParts (Reviews.applyThreadNote env bctx parentRef thread rootNoteId note) := by
  unfold Reviews.applyThreadNote
  apply Writes.bind (ofExcept _)
  intro system
  apply Writes.ite (Writes.pure _)
  apply Writes.bind (findByGitlab env (by decide) _ _ _)
  intro existing
  apply Writes.bind (ofExcept _)
  intro body
  apply Writes.bind (resolveUser env (by decide) (by decide) _ _)
  intro author
  apply Writes.bind (ofExcept _)
  intro _
  apply Writes.bind (ofExcept _)
  intro _
  exact Writes.bind (putMessage_writes env _ _ _ _ _ _ _ _) fun _ => putMixin env (by decide) _ _ _

theorem Reviews.resolvePerson_writes {parts : List Part} (user : JsValue) :
    Writes parts (Reviews.resolvePerson env user) :=
  Writes.bind (ofExcept _) fun _ => Writes.bind (mapByGitlabUser env _) fun _ => Writes.pure _

theorem Reviews.applyMapped_writes (binding : BindingRef) (bctx : BindingContext) (parentRef : Ref)
    (syncThread : Fields) :
    Writes mirrorParts (Reviews.applyMapped env binding bctx parentRef syncThread) :=
  Writes.bind (Writes.ite (Writes.pure _) (resolvePerson_writes env _)) fun _ =>
    Writes.bind (ofExcept _) fun _ =>
    Writes.bind (ofExcept _) fun _ =>
    Writes.bind (forEach fun _ => (applyThreadNote_writes env _ _ _ _ _).mono (by decide))
      fun _ => setCursor env (by decide) _ _ _

theorem Reviews.deferThread_writes (binding : BindingRef) (bctx : BindingContext)
    (syncThread : Fields) : Writes remoteParts (Reviews.deferThread binding bctx syncThread) := by
  unfold Reviews.deferThread
  cases markAndRetry syncThread REVIEW_RETRY_FLAG with
  | none => exact Writes.pure _
  | some marked => exact Writes.bind (ofExcept _) fun _ => enqueueRecord (by decide) _

theorem Reviews.applyRemote_writes (binding : BindingRef) (syncThread : Fields) :
    Writes remoteParts (Reviews.applyRemote env binding syncThread) := by
  unfold Reviews.applyRemote
  apply Writes.bind (loadBinding env binding)
  intro bctx
  apply Writes.bind (Writes.findParent env (by decide) _ _ _)
  intro parentMapping
  cases parentMapping with
  | none => exact deferThread_writes _ _ _
  | some row => exact (applyMapped_writes env _ _ _ _).mono (by decide)

theorem Epics.createFromRemote_writes (bctx : BindingContext) (gitlabId : String)
    (syncEpic : Fields) (description : JsValue) (status : Ref) (remoteTs : JsDate) :
    Writes resolveParts
      (Epics.createFromRemote env bctx gitlabId syncEpic description status remoteTs) :=
  Writes.bind (createDoc env (by decide) _ _ _) fun _ =>
    Writes.bind (upsertIdMap env (by decide) _) fun _ =>
    Writes.bind (ofExcept _) fun _ => putMixin env (by decide) _ _ _

theorem Epics.updateFromRemote_writes (hulyRef : Ref) (syncEpic : Fields) (description : JsValue)
    (remoteTs : JsDate) :
    Writes resolveParts (Epics.updateFromRemote env hulyRef syncEpic description remoteTs) := by
  apply Writes.bind (findOne env _ _)
  intro hulyIssue
  cases hulyIssue with
  | none => exact Writes.pure _
  | some issue =>
    exact Writes.bind (Writes.ite (Writes.pure _) (updateDoc env (by decide) _ _)) fun _ =>
      Writes.bind (ofExcept _) fun _ => Writes.bind (putMixin env (by decide) _ _ _) fun _ =>
      Writes.pure _

theorem Epics.linkChild_writes (bctx : BindingContext) (epicIid childIid : JsValue) :
    Writes resolveParts (Epics.linkChild env bctx epicIid childIid) := by
  apply Writes.bind (findByGitlab env (by decide) _ _ _)
  intro mrChild
  cases mrChild with
  | some row => exact putMixin env (by decide) _ _ _
  | none =>
    apply Writes.bind (findByGitlab env (by decide) _ _ _)
    intro issueChild
    cases issueChild with
    | some row => exact putMixin env (by decide) _ _ _
    | none => exact Writes.pure _

theorem Epics.linkChildren_writes (binding : BindingRef) (bctx : BindingContext)
    (syncEpic : Fields) : Writes mirrorParts (Epics.linkChildren env binding bctx syncEpic) :=
  Writes.bind (ofExcept _) fun _ =>
    Writes.bind (forEach fun _ => (linkChild_writes env _ _ _).mono (by decide)) fun _ =>
    setCursor env (by decide) _ _ _

theorem Epics.applyRemote_writes (binding : BindingRef) (syncEpic : Fields) :
    Writes mirrorParts (Epics.applyRemote env binding syncEpic) := by
  unfold Epics.applyRemote
  apply Writes.bind (loadBinding env binding)
  intro bctx
  apply Writes.ite (Writes.pure _)
  apply Writes.bind (findByGitlab env (by decide) _ _ _)
  intro existing
  apply Writes.bind (ofExcept _)
  intro rawDescription
  dsimp only
  cases pickBacklogStatus bctx.statuses with
  | none => exact Writes.pure _
  | some status =>
    apply Writes.bind (ofExcept _)
    intro _
    cases existing with
    | none =>
      exact Writes.bind ((createFromRemote_writes env _ _ _ _ _ _).mono (by decide)) fun _ =>
        linkChildren_writes env _ _ _
    | some row =>
      exact Writes.bind ((updateFromRemote_writes env _ _ _ _).mono (by decide)) fun _ =>
        Writes.ite (linkChildren_writes env _ _ _) (Writes.pure _)

theorem Pipelines.applyRemote_writes (binding : BindingRef) (syncPipeline : Fields) :
    Writes remoteParts (Pipelines.applyRemote env binding syncPipeline) := by
  apply Writes.ite (Writes.pure _)
  apply Writes.bind (loadBinding env binding)
  intro bctx
  apply Writes.bind (findByGitlab env (by decide) _ _ _)
  intro mrRef
  cases mrRef with
  | none => exact Writes.pure _
  | some row => exact putMixin env (by decide) _ _ _

end Remote

end HulyGitlab
