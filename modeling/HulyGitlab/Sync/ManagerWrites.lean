import HulyGitlab.Sync.ManagerAwaits
import HulyGitlab.Sync.Mirroring
import HulyGitlab.Sync.TxSubscription

/-!
# What the managers send

Every call of `applyRemote`, whatever happens between two of them: which
writes it may be, and what it does to the documents. Both are said once for
each function; the echo filter and the ownership of fields follow.
-/

namespace HulyGitlab

/-- The operations carry the marker. -/
def Marks (fs : Fields) : Prop := fs.field "_originated" = .str "gitlab"

theorem marks_withOriginatedMarker (attrs : Fields) : Marks (withOriginatedMarker attrs) := by
  rw [Marks, withOriginatedMarker, Fields.field_set, if_pos rfl]

/-- The documents after a call; one that fails leaves them alone. -/
def Await.Does (env : Env) : Await → World → World → Prop
  | .createDoc objectClass attributes, w, w' =>
      w'.docs = w.docs ∨ ∃ space, w'.docs = w.docs.set (env.generateId w.docs.keys)
        ⟨objectClass, space, Fields.assign [("modifiedOn", .num w.now)] attributes, .empty⟩
  | .updateDoc _ ref operations, w, w' =>
      w'.docs = w.docs ∨ ∃ doc, w.docs.get? ref = some doc ∧
        w'.docs = w.docs.set ref { doc with attrs := doc.attrs.assign operations }
  | .putMixin _ ref mixin attributes, w, w' =>
      w'.docs = w.docs ∨ ∃ doc, w.docs.get? ref = some doc ∧
        w'.docs = w.docs.set ref (doc.withMixin mixin attributes)
  | _, w, w' => w'.docs = w.docs

/-- Documents of a tracked class are created with the marker and updated as `update` says; mixins
are written with the marker and as `mixins` says. -/
def Await.Within (update : Fields → Prop) (mixins : String → Fields → Prop) : Await → Prop
  | .createDoc objectClass attributes =>
      TxSubscription.kindOfClass objectClass = none ∨ Marks attributes
  | .updateDoc _ _ operations => update operations
  | .putMixin _ _ mixin attributes => Marks attributes ∧ mixins mixin attributes
  | _ => True

/-- Every call is one of these writes, and does what it says. -/
abbrev Writing (env : Env) (update : Fields → Prop) (mixins : String → Fields → Prop) {A : Type}
    (p : Async A) : Prop :=
  Coroutine.Always (fun point w w' => point.Within update mixins ∧ point.Does env w w') p

namespace Writing

variable {env : Env} {update update' : Fields → Prop} {mixins mixins' : String → Fields → Prop}

theorem mono (hu : ∀ ops, update ops → update' ops)
    (hm : ∀ mixin attributes, mixins mixin attributes → mixins' mixin attributes) {A : Type}
    {p : Async A} (h : Writing env update mixins p) : Writing env update' mixins' p := by
  refine Coroutine.Always.mono (fun point w w' hboth => ⟨?_, hboth.2⟩) h
  cases point with
  | updateDoc objectClass ref operations => exact hu _ hboth.1
  | putMixin objectClass ref mixin attributes => exact ⟨hboth.1.1, hm _ _ hboth.1.2⟩
  | _ => exact hboth.1

section Calls

variable (env)

theorem reach_docs {A : Type} (service : Service) (f : Unit → Sync A) (w : World) :
    ((Sync.reach env service >>= f).run w).2 = w ∨
      ((Sync.reach env service >>= f).run w).2 = ((f ()).run w).2 := by
  obtain ⟨e, hrun⟩ | hrun := Sync.reach_bind_cases env service f w
  · exact .inl (congrArg Prod.snd hrun)
  · exact .inr (congrArg Prod.snd hrun)

theorem docs_of_reach {A : Type} {service : Service} {f : Unit → Sync A} {w : World}
    (h : ((f ()).run w).2.docs = w.docs) :
    ((Sync.reach env service >>= f).run w).2.docs = w.docs := by
  obtain hrun | hrun := reach_docs env service f w
  · exact congrArg World.docs hrun
  · exact (congrArg World.docs hrun).trans h

theorem loadBinding (binding : BindingRef) :
    Writing env update mixins (Async.loadBinding env binding) :=
  Coroutine.Always.call fun _ => ⟨trivial, rfl⟩

theorem findPersonBySocialKey (socialKey : String) :
    Writing env update mixins (Async.findPersonBySocialKey env socialKey) :=
  Coroutine.Always.call fun _ => ⟨trivial, docs_of_reach env rfl⟩

theorem findByGitlab_docs (workspaceUuid : String) (kind : GitlabKind) (gitlabId : String)
    (w : World) : ((Sync.findByGitlab env workspaceUuid kind gitlabId).run w).2.docs = w.docs := by
  unfold Sync.findByGitlab
  rw [Effect.bind_of_ok (Effect.modify_run _ w)]
  exact docs_of_reach env rfl

theorem findByGitlab (workspaceUuid : String) (kind : GitlabKind) (gitlabId : String) :
    Writing env update mixins (Async.findByGitlab env workspaceUuid kind gitlabId) :=
  Coroutine.Always.call fun w => ⟨trivial, findByGitlab_docs env workspaceUuid kind gitlabId w⟩

theorem upsertIdMap (doc : IdMapDoc) : Writing env update mixins (Async.upsertIdMap env doc) := by
  refine Coroutine.Always.call fun w => ⟨trivial, docs_of_reach env ?_⟩
  rw [Effect.step_run]
  cases w.idmap.upsert doc with
  | ok idmap => rfl
  | error e => rfl

theorem getCursor (binding : BindingRef) (kind : CursorKind) :
    Writing env update mixins (Async.getCursor env binding kind) :=
  Coroutine.Always.call fun _ => ⟨trivial, docs_of_reach env rfl⟩

theorem setCursor (binding : BindingRef) (kind : CursorKind) (t : Option Nat) :
    Writing env update mixins (Async.setCursor env binding kind t) :=
  Coroutine.Always.call fun _ => ⟨trivial, docs_of_reach env rfl⟩

theorem findOne (objectClass : String) (ref : Ref) :
    Writing env update mixins (Async.findOne env objectClass ref) :=
  Coroutine.Always.call fun _ => ⟨trivial, docs_of_reach env rfl⟩

theorem findAll (objectClass : String) :
    Writing env update mixins (Async.findAll env objectClass) :=
  Coroutine.Always.call fun _ => ⟨trivial, docs_of_reach env rfl⟩

theorem enqueueRecord (e : EnqueuedRecord) : Writing env update mixins (Async.enqueueRecord e) :=
  Coroutine.Always.call fun _ => ⟨trivial, rfl⟩

theorem now : Writing env update mixins Async.now :=
  Coroutine.Always.call fun _ => ⟨trivial, rfl⟩

theorem createDoc_does (objectClass : String) (space : Ref) (attributes : Fields) (w : World) :
    (Await.createDoc objectClass attributes).Does env w
      ((Sync.createDoc env objectClass space attributes).run w).2 := by
  unfold Sync.createDoc
  obtain hrun | hrun := reach_docs env .platform _ w
  · exact .inl (congrArg World.docs hrun)
  · exact .inr ⟨space, congrArg World.docs hrun⟩

theorem createDoc {objectClass : String} {attributes : Fields} (space : Ref)
    (h : TxSubscription.kindOfClass objectClass = none ∨ Marks attributes) :
    Writing env update mixins (Async.createDoc env objectClass space attributes) :=
  Coroutine.Always.call fun w => ⟨h, createDoc_does env objectClass space attributes w⟩

theorem updateDoc (objectClass : String) (ref : Ref) {operations : Fields}
    (h : update operations) :
    Writing env update mixins (Async.updateDoc env objectClass ref operations) := by
  refine Coroutine.Always.call fun w => ⟨h, ?_⟩
  unfold Sync.updateDoc
  obtain hrun | hrun := reach_docs env .platform _ w
  · exact .inl (congrArg World.docs hrun)
  · rw [hrun, Effect.modify_run]
    cases hdoc : w.docs.get? ref with
    | none => exact .inl rfl
    | some doc => exact .inr ⟨doc, hdoc, rfl⟩

theorem putMixin_does (objectClass : String) (ref : Ref) (mixin : String) (attributes : Fields)
    (w : World) : (Await.putMixin objectClass ref mixin attributes).Does env w
      ((Sync.putMixin env ref mixin attributes).run w).2 := by
  unfold Sync.putMixin
  obtain hrun | hrun := reach_docs env .platform _ w
  · exact .inl (congrArg World.docs hrun)
  · rw [hrun, Effect.modify_run]
    cases hdoc : w.docs.get? ref with
    | none => exact .inl rfl
    | some doc => exact .inr ⟨doc, hdoc, rfl⟩

theorem putMixin (objectClass : String) (ref : Ref) {mixin : String} {attributes : Fields}
    (hmarks : Marks attributes) (h : mixins mixin attributes) :
    Writing env update mixins (Async.putMixin env objectClass ref mixin attributes) :=
  Coroutine.Always.call fun w =>
    ⟨⟨hmarks, h⟩, putMixin_does env objectClass ref mixin attributes w⟩

end Calls

end Writing

open Coroutine (Always)

section Lookups

variable (env : Env) {update : Fields → Prop} {mixins : String → Fields → Prop}

namespace UserIdentity.Awaits

theorem writing_mapByGitlabUser (user : IdentityUser) :
    Writing env update mixins (mapByGitlabUser env user) := by
  refine Always.bind (Writing.findPersonBySocialKey env _) fun byGitlab => ?_
  cases byGitlab with
  | some ref => exact Always.pure _
  | none =>
    refine Always.ite ?_ (Always.pure _)
    exact Always.bind (Always.ofExcept _) fun _ => Writing.findPersonBySocialKey env _

theorem writing_resolveUser (workspaceUuid : String) (user : JsValue) :
    Writing env update mixins (resolveUser env workspaceUuid user) := by
  refine Always.bind (Always.ofExcept _) fun identity => ?_
  refine Always.bind (writing_mapByGitlabUser env identity) fun matched => ?_
  cases matched with
  | some ref => exact Always.pure _
  | none =>
    refine Always.bind (Writing.findByGitlab env _ _ _) fun existing => ?_
    cases existing with
    | some row => exact Always.pure _
    | none => exact Always.bind (Writing.upsertIdMap env _) fun _ => Always.pure _

theorem writing_resolveAssignee (workspaceUuid : String) (assignees : JsValue) :
    Writing env update mixins (resolveAssignee env workspaceUuid assignees) := by
  refine Always.bind (Always.ofExcept _) fun users => ?_
  cases users with
  | nil => exact Always.pure _
  | cons first rest =>
    exact Always.bind (writing_resolveUser env workspaceUuid first) fun _ => Always.pure _

end UserIdentity.Awaits

namespace LabelCache.Awaits

theorem writing_ensureLocalTag (space : Ref) (c : LabelCache) (name : JsValue) :
    Writing env update mixins (ensureLocalTag env space c name) := by
  have hprime : Writing env update mixins (primeLocal env c) :=
    Always.ite (Always.pure _) (Always.bind (Writing.findAll env _) fun _ =>
      Always.bind (Always.ofExcept _) fun _ => Always.pure _)
  refine Always.bind hprime fun c => Always.bind (Always.ofExcept _) fun text => ?_
  dsimp only
  cases c.localByName.get (env.toLowerCase text) with
  | some existing => exact Always.pure _
  | none =>
    exact Always.bind (Writing.createDoc env space (.inl (by decide))) fun _ => Always.pure _

theorem writing_resolveLocal (space : Ref) (c : LabelCache) (names : List JsValue) :
    Writing env update mixins (resolveLocal env space c names) := by
  induction names generalizing c with
  | nil => exact Always.pure _
  | cons name names ih =>
    exact Always.bind (writing_ensureLocalTag env space c name) fun first =>
      Always.bind (ih first.2) fun _ => Always.pure _

end LabelCache.Awaits

theorem MilestoneCache.Awaits.writing_ensureLocalMilestone (space : Ref) (c : MilestoneCache)
    (label description : JsValue) :
    Writing env update mixins (ensureLocalMilestone env space c label description) := by
  have hprime : Writing env update mixins (primeLocal env space c) :=
    Always.ite (Always.pure _) (Always.bind (Writing.findAll env _) fun _ =>
      Always.bind (Always.ofExcept _) fun _ => Always.pure _)
  refine Always.bind hprime fun c => Always.bind (Always.ofExcept _) fun text => ?_
  dsimp only
  cases c.localByLabel.get (env.toLowerCase text) with
  | some existing => exact Always.pure _
  | none =>
    exact Always.bind (Writing.createDoc env space (.inl (by decide))) fun _ => Always.pure _

end Lookups

namespace Awaits

variable (env : Env) {update : Fields → Prop} {mixins : String → Fields → Prop}

theorem writing_advanceCursor (binding : BindingRef) (kind : CursorKind)
    (localTs : Option JsDate) (remoteTs : JsDate) :
    Writing env update mixins (advanceCursor env binding kind localTs remoteTs) :=
  Always.ite (Writing.setCursor env _ _ _) (Always.pure _)

theorem writing_writeUpdate (hulyRef : Ref) (operations : Fields) (remoteTs : JsDate) :
    Writing env Marks mixins (writeUpdate env hulyRef operations remoteTs) :=
  Always.ite (Always.pure _)
    (Writing.updateDoc env _ _ (marks_withOriginatedMarker _))

theorem writing_mapRemoteState (projectKey : String) (remoteState : JsValue)
    (statuses : List Status) :
    Writing env update mixins (mapRemoteState env projectKey remoteState statuses) := by
  refine Coroutine.Always.call fun w => ⟨trivial, ?_⟩
  rw [StatusMap.mapRemoteState_run]
  rfl

end Awaits

/-- No mixin is written. -/
def noMixins (_mixin : String) (_attributes : Fields) : Prop := False

namespace Issues.Awaits

variable (env : Env) (binding : BindingRef)

theorem writing_createFromRemote (bctx : BindingContext) (gitlabId : String) (r : RemoteIssue)
    (remoteTs : JsDate) :
    Writing env Marks noMixins (createFromRemote env binding bctx gitlabId r remoteTs) :=
  Always.bind (Writing.createDoc env _ (.inr (marks_withOriginatedMarker _))) fun _ =>
    Always.bind (Writing.upsertIdMap env _) fun _ => Writing.setCursor env _ _ _

theorem writing_updateFromRemote (hulyRef : Ref) (r : RemoteIssue) (remoteTs : JsDate) :
    Writing env Marks noMixins (updateFromRemote env binding hulyRef r remoteTs) := by
  refine Always.bind (Writing.findOne env _ _) fun hulyIssue => ?_
  cases hulyIssue with
  | none => exact Always.pure _
  | some issue =>
    exact Always.bind (HulyGitlab.Awaits.writing_writeUpdate env _ _ _) fun _ =>
      HulyGitlab.Awaits.writing_advanceCursor env _ _ _ _

theorem writing_resolveMilestone (space : Ref) (milestone : JsValue) :
    Writing env Marks noMixins (resolveMilestone env space milestone) := by
  unfold resolveMilestone
  refine Always.ite (Always.pure _) ?_
  refine Always.bind (Always.ofExcept _) fun title => ?_
  refine Always.bind (Always.ofExcept _) fun description => ?_
  refine Always.bind ?_ fun _ => Always.pure _
  exact MilestoneCache.Awaits.writing_ensureLocalMilestone env _ _ _ _

theorem writing_applyRemote (syncIssue : Fields) :
    Writing env Marks noMixins (applyRemote env binding syncIssue) := by
  refine Always.bind (Writing.loadBinding env _) fun bctx => ?_
  refine Always.bind (Writing.findByGitlab env _ _ _) fun existing => ?_
  refine Always.bind (Always.ofExcept _) fun _ => ?_
  refine Always.bind (UserIdentity.Awaits.writing_resolveAssignee env _ _) fun _ => ?_
  refine Always.bind (Always.ofExcept _) fun _ => ?_
  refine Always.bind (LabelCache.Awaits.writing_resolveLocal env _ _ _) fun _ => ?_
  refine Always.bind (writing_resolveMilestone env _ _) fun _ => ?_
  refine Always.bind (HulyGitlab.Awaits.writing_mapRemoteState env _ _ _) fun statusRef => ?_
  cases statusRef with
  | none => exact Always.pure _
  | some status =>
    cases existing with
    | none => exact writing_createFromRemote env binding bctx _ _ _
    | some row => exact writing_updateFromRemote env binding _ _ _

end Issues.Awaits

namespace Notes.Awaits

variable (env : Env) (binding : BindingRef)

theorem writing_routeReview (rawRecord : Fields)
    (noteableIid note position discussionId : JsValue) :
    HulyGitlab.Writing env Marks noMixins
      (routeReview env binding rawRecord noteableIid note position discussionId) := by
  refine Always.bind (HulyGitlab.Writing.loadBinding env _) fun bctx => ?_
  refine Always.bind (HulyGitlab.Writing.findByGitlab env _ _ _) fun parentMapping => ?_
  cases parentMapping with
  | none => exact Always.ite (Always.pure _) (HulyGitlab.Writing.enqueueRecord env _)
  | some row => exact HulyGitlab.Writing.enqueueRecord env _

theorem writing_applyMapped (bctx : BindingContext) (parentRef : Ref) (note : JsValue) :
    HulyGitlab.Writing env Marks noMixins (applyMapped env binding bctx parentRef note) := by
  refine Always.bind (HulyGitlab.Writing.findByGitlab env _ _ _) fun existing => ?_
  refine Always.bind (Always.ofExcept _) fun _ => ?_
  refine Always.bind (UserIdentity.Awaits.writing_resolveUser env _ _) fun author => ?_
  cases existing with
  | none =>
    have hmarks := marks_withOriginatedMarker
    exact Always.bind (HulyGitlab.Writing.createDoc env _ (.inr (hmarks _))) fun _ =>
      Always.bind (HulyGitlab.Writing.upsertIdMap env _) fun _ =>
        HulyGitlab.Writing.setCursor env _ _ _
  | some row =>
    refine Always.bind (HulyGitlab.Writing.getCursor env _ _) fun _ => Always.ite ?_ (Always.pure _)
    exact Always.bind (HulyGitlab.Writing.updateDoc env _ _ (marks_withOriginatedMarker _)) fun _ =>
      HulyGitlab.Writing.setCursor env _ _ _

theorem writing_applyNote (rawRecord : Fields) (noteableIid note : JsValue) :
    HulyGitlab.Writing env Marks noMixins (applyNote env binding rawRecord noteableIid note) := by
  refine Always.bind (Always.ofExcept _) fun _ => Always.ite (Always.pure _) ?_
  refine Always.bind (HulyGitlab.Writing.loadBinding env _) fun bctx => ?_
  refine Always.bind (HulyGitlab.Writing.findByGitlab env _ _ _) fun parent => ?_
  cases parent with
  | some row => exact writing_applyMapped env binding bctx row.hulyRef note
  | none =>
    dsimp only
    cases markAndRetry rawRecord NOTE_RETRY_FLAG with
    | none => exact Always.pure _
    | some marked => exact HulyGitlab.Writing.enqueueRecord env _

theorem writing_applyRemote (rawRecord : Fields) :
    HulyGitlab.Writing env Marks noMixins (applyRemote env binding rawRecord) := by
  refine Always.ite (writing_applyNote env binding _ _ _) ?_
  refine Always.bind (HulyGitlab.Writing.now env) fun now => ?_
  cases parseWebhookPayload rawRecord now with
  | none => exact Always.pure _
  | some parsed =>
    cases parsed with
    | note noteableIid note => exact writing_applyNote env binding _ _ _
    | malformedPosition noteableIid note => exact Always.pure _
    | review noteableIid note position discussionId =>
      exact writing_routeReview env binding _ _ _ _ _

end Notes.Awaits

namespace MergeRequests

open MRApprovals

/-- The two mixins of a merge request, as its record has them. -/
def mixinsOf (syncMR : Fields) (mixin : String) (attributes : Fields) : Prop :=
  (mixin = MR_CORE_MIXIN ∧ attributes = withOriginatedMarker (buildCoreFromSyncMR syncMR)) ∨
    mixin = MR_REVIEW_MIXIN_DOC ∧ ∃ reviewerUuids approvedByUuids review,
      (syncMR.field "reviewers" = .undefined → reviewerUuids = .undefined) ∧
      (syncMR.field "approvedBy" = .undefined → approvedByUuids = .undefined) ∧
      buildReviewFromSyncMR syncMR reviewerUuids approvedByUuids = .ok review ∧ review ≠ [] ∧
      attributes = withOriginatedMarker review

namespace Awaits

variable (env : Env) (binding : BindingRef)

section Resolve

variable {update : Fields → Prop} {mixins : String → Fields → Prop}

theorem writing_resolveMilestone (space : Ref) (milestone : JsValue) :
    Writing env update mixins (resolveMilestone env space milestone) := by
  unfold resolveMilestone
  refine Always.ite (Always.pure _) ?_
  refine Always.bind (Always.ofExcept _) fun title => ?_
  refine Always.bind ?_ fun _ => Always.pure _
  exact MilestoneCache.Awaits.writing_ensureLocalMilestone env _ _ _ _

theorem writing_resolveReviewerUuids (workspaceUuid : String) (users : JsValue) :
    Writing env update mixins (resolveReviewerUuids env workspaceUuid users) := by
  unfold resolveReviewerUuids
  refine Always.ite (Always.pure _) ?_
  refine Always.bind (Always.ofExcept _) fun users => ?_
  refine Always.bind ?_ fun _ => Always.pure _
  exact Always.mapEach (UserIdentity.Awaits.writing_resolveUser env workspaceUuid) users

/-- Users that were not fetched resolve to nothing. -/
theorem yields_resolveReviewerUuids (workspaceUuid : String) (users : JsValue) :
    Coroutine.Yields (fun refs => users = .undefined → refs = .undefined)
      (resolveReviewerUuids env workspaceUuid users) := by
  unfold resolveReviewerUuids
  by_cases h : users = .undefined
  · rw [if_pos h]
    exact Coroutine.Yields.pure fun _ => rfl
  · rw [if_neg h]
    refine Coroutine.Yields.last _ fun _ => Coroutine.Yields.last _ fun _ => ?_
    exact Coroutine.Yields.pure fun hnone => absurd hnone h

theorem writing_resolveRecord (bctx : BindingContext) (syncMR : Fields) :
    Writing env update mixins (resolveRecord env bctx syncMR) := by
  unfold resolveRecord
  refine Always.bind (Always.ofExcept _) fun _ => ?_
  refine Always.bind (UserIdentity.Awaits.writing_resolveAssignee env _ _) fun _ => ?_
  refine Always.bind (writing_resolveReviewerUuids env _ _) fun _ => ?_
  refine Always.bind (writing_resolveReviewerUuids env _ _) fun _ => ?_
  refine Always.bind (Always.ofExcept _) fun _ => ?_
  refine Always.bind (LabelCache.Awaits.writing_resolveLocal env _ _ _) fun _ => ?_
  exact Always.bind (writing_resolveMilestone env _ _) fun _ => Always.pure _

end Resolve

section Record

variable (bctx : BindingContext) (syncMR : Fields)

/-- The users are `undefined` where those of the record are. -/
def Fetched (r : RemoteMR) : Prop :=
  (syncMR.field "reviewers" = .undefined → r.reviewerUuids = .undefined) ∧
    (syncMR.field "approvedBy" = .undefined → r.approvedByUuids = .undefined)

theorem yields_resolveRecord :
    Coroutine.Yields (Fetched syncMR) (resolveRecord env bctx syncMR) := by
  unfold resolveRecord
  refine Coroutine.Yields.last _ fun _ => Coroutine.Yields.last _ fun _ => ?_
  refine Coroutine.Yields.bind (yields_resolveReviewerUuids env _ _) fun _ hreviewers => ?_
  refine Coroutine.Yields.bind (yields_resolveReviewerUuids env _ _) fun _ happroved => ?_
  refine Coroutine.Yields.last _ fun _ => Coroutine.Yields.last _ fun _ => ?_
  exact Coroutine.Yields.last _ fun _ => Coroutine.Yields.pure ⟨hreviewers, happroved⟩

theorem writing_putReviewMixin (ref : Ref) {reviewerUuids approvedByUuids : JsValue}
    {review : Fields}
    (hreviewers : syncMR.field "reviewers" = .undefined → reviewerUuids = .undefined)
    (happroved : syncMR.field "approvedBy" = .undefined → approvedByUuids = .undefined)
    (hreview : buildReviewFromSyncMR syncMR reviewerUuids approvedByUuids = .ok review) :
    Writing env Marks (mixinsOf syncMR) (putReviewMixin env ref review) := by
  unfold putReviewMixin
  by_cases hempty : review = []
  · rw [if_pos hempty]
    exact Always.pure _
  · rw [if_neg hempty]
    refine Writing.putMixin env _ _ (marks_withOriginatedMarker _) (.inr ⟨rfl, ?_⟩)
    exact ⟨_, _, review, hreviewers, happroved, hreview, hempty, rfl⟩

theorem writing_createFromRemote (gitlabId : String) {r : RemoteMR} (hr : Fetched syncMR r)
    (remoteTs : JsDate) :
    Writing env Marks (mixinsOf syncMR)
      (createFromRemote env binding bctx gitlabId syncMR r remoteTs) := by
  unfold createFromRemote
  refine Always.ite (Always.pure _) ?_
  refine Always.bind (Writing.createDoc env _ (.inr (marks_withOriginatedMarker _))) fun ref => ?_
  refine Always.bind
    (Writing.putMixin env _ _ (marks_withOriginatedMarker _) (.inl ⟨rfl, rfl⟩)) fun _ => ?_
  refine Always.ofExcept_bind fun review hreview => ?_
  refine Always.bind (writing_putReviewMixin env syncMR ref hr.1 hr.2 hreview) fun _ => ?_
  exact Always.bind (Writing.upsertIdMap env _) fun _ => Writing.setCursor env _ _ _

/-- The guard keeps local approvals only where the record has some. -/
theorem resolvedApprovedBy_undefined {issue : HulyDoc} {now : Nat} {remoteTs : JsDate}
    {v : JsValue} (h : resolvedApprovedBy issue now remoteTs .undefined = .ok v) :
    v = .undefined := by
  rw [resolvedApprovedBy, if_pos rfl] at h
  exact (Except.ok.inj h).symm

theorem writing_putMixins (hulyRef : Ref) (issue : HulyDoc) {r : RemoteMR}
    (hr : Fetched syncMR r) (remoteTs : JsDate) :
    Writing env Marks (mixinsOf syncMR) (putMixins env hulyRef issue syncMR r remoteTs) := by
  unfold putMixins
  refine Always.bind (Writing.now env) fun now => ?_
  refine Always.ofExcept_bind fun approvedBy happroved => ?_
  refine Always.bind
    (Writing.putMixin env _ _ (marks_withOriginatedMarker _) (.inl ⟨rfl, rfl⟩)) fun _ => ?_
  refine Always.ofExcept_bind fun review hreview => ?_
  refine writing_putReviewMixin env syncMR hulyRef hr.1 (fun hnone => ?_) hreview
  rw [hr.2 hnone] at happroved
  exact resolvedApprovedBy_undefined happroved

theorem writing_updateFromRemote (hulyRef : Ref) {r : RemoteMR} (hr : Fetched syncMR r)
    (remoteTs : JsDate) :
    Writing env Marks (mixinsOf syncMR)
      (updateFromRemote env binding bctx hulyRef syncMR r remoteTs) := by
  unfold updateFromRemote
  refine Always.bind (Writing.findOne env _ _) fun hulyIssue => ?_
  cases hulyIssue with
  | none => exact Always.pure _
  | some issue =>
    refine Always.bind (HulyGitlab.Awaits.writing_writeUpdate env _ _ _) fun _ => ?_
    refine Always.bind (writing_putMixins env syncMR hulyRef issue hr remoteTs) fun _ => ?_
    exact HulyGitlab.Awaits.writing_advanceCursor env _ _ _ _

theorem writing_applyRemote :
    Writing env Marks (mixinsOf syncMR) (applyRemote env binding syncMR) := by
  refine Always.bind (Writing.loadBinding env _) fun bctx => ?_
  refine Always.bind (Writing.findByGitlab env _ _ _) fun existing => ?_
  refine Always.bind_yields (writing_resolveRecord env bctx syncMR)
    (yields_resolveRecord env bctx syncMR) fun r hr => ?_
  cases existing with
  | none => exact writing_createFromRemote env binding bctx syncMR _ hr _
  | some row => exact writing_updateFromRemote env binding bctx syncMR row.hulyRef hr _

end Record

end Awaits

end MergeRequests

namespace Reviews

/-- The mixin of the messages of a thread. -/
def threadMixin (mixin : String) (_attributes : Fields) : Prop := mixin = MR_REVIEW_THREAD_MIXIN

namespace Awaits

variable (env : Env) (binding : BindingRef)

section Messages

variable {mixins : String → Fields → Prop}

theorem writing_createMessage (bctx : BindingContext) (key : String) (parentRef : Ref)
    (message author : JsValue) (createdAt updatedAt : JsDate) :
    Writing env Marks mixins
      (createMessage env bctx key parentRef message author createdAt updatedAt) :=
  Always.bind (Writing.createDoc env _ (.inr (marks_withOriginatedMarker _))) fun _ =>
    Always.bind (Writing.upsertIdMap env _) fun _ => Always.pure _

theorem writing_updateMessage (messageRef : Ref) (message author : JsValue) (updatedAt : JsDate) :
    Writing env Marks mixins (updateMessage env messageRef message author updatedAt) :=
  Always.bind (Writing.findOne env _ _) fun _ =>
    Always.ite (Writing.updateDoc env _ _ (marks_withOriginatedMarker _)) (Always.pure _)

theorem writing_resolvedByOf (resolvedBy : JsValue) :
    Writing env Marks mixins (resolvedByOf env resolvedBy) :=
  Always.ite (Always.pure _) <| Always.bind (Always.ofExcept _) fun _ =>
    Always.bind (UserIdentity.Awaits.writing_mapByGitlabUser env _) fun _ => Always.pure _

end Messages

theorem writing_applyThreadNote (bctx : BindingContext) (parentRef : Ref) (thread : ThreadState)
    (rootNoteId note : JsValue) :
    Writing env Marks threadMixin
      (applyThreadNote env bctx parentRef thread rootNoteId note) := by
  refine Always.bind (Always.ofExcept _) fun _ => Always.ite (Always.pure _) ?_
  refine Always.bind (Writing.findByGitlab env _ _ _) fun existing => ?_
  refine Always.bind (Always.ofExcept _) fun _ => ?_
  refine Always.bind (UserIdentity.Awaits.writing_resolveUser env _ _) fun _ => ?_
  refine Always.bind (Always.ofExcept _) fun _ => Always.bind (Always.ofExcept _) fun _ => ?_
  refine Always.bind ?_ fun _ => Writing.putMixin env _ _ (marks_withOriginatedMarker _) rfl
  cases existing with
  | none => exact writing_createMessage env bctx _ _ _ _ _ _
  | some row => exact Always.bind (writing_updateMessage env _ _ _ _) fun _ => Always.pure _

theorem writing_applyRemote (syncThread : Fields) :
    Writing env Marks threadMixin (applyRemote env binding syncThread) := by
  refine Always.bind (Writing.loadBinding env _) fun bctx => ?_
  refine Always.bind (Writing.findByGitlab env _ _ _) fun parentMapping => ?_
  cases parentMapping with
  | none =>
    dsimp only [deferThread]
    cases markAndRetry syncThread REVIEW_RETRY_FLAG with
    | none => exact Always.pure _
    | some marked => exact Always.bind (Always.ofExcept _) fun _ => Writing.enqueueRecord env _
  | some row =>
    refine Always.bind (writing_resolvedByOf env _) fun _ => ?_
    refine Always.bind (Always.ofExcept _) fun _ => Always.bind (Always.ofExcept _) fun _ => ?_
    refine Always.bind ?_ fun _ => Writing.setCursor env _ _ _
    exact Always.forEach (writing_applyThreadNote env bctx _ _ _) _

end Awaits

end Reviews

namespace Epics

/-- The mixin of the mirror of an epic. -/
def ownMixin (mixin : String) (_attributes : Fields) : Prop := mixin = MR_EPIC_MIXIN

/-- The one field an epic has in the mixin of a child. -/
def childMixin (syncEpic : Fields) (mixin : String) (attributes : Fields) : Prop :=
  mixin = MR_REVIEW_MIXIN_DOC ∧
    attributes = withOriginatedMarker [("parentEpicIid", syncEpic.field "iid")]

namespace Awaits

variable (env : Env) {update : Fields → Prop}

theorem writing_createFromRemote (bctx : BindingContext) (gitlabId : String) (syncEpic : Fields)
    (description : JsValue) (status : Ref) (remoteTs : JsDate) :
    Writing env update ownMixin
      (createFromRemote env bctx gitlabId syncEpic description status remoteTs) :=
  Always.bind (Writing.createDoc env _ (.inr (marks_withOriginatedMarker _))) fun _ =>
    Always.bind (Writing.upsertIdMap env _) fun _ => Always.bind (Always.ofExcept _) fun _ =>
      Writing.putMixin env _ _ (marks_withOriginatedMarker _) rfl

/-- An update has no marker. -/
theorem writing_writeUpdate {mixins : String → Fields → Prop} (hulyRef : Ref)
    (operations : Fields) (remoteTs : JsDate) :
    Writing env (fun _ => True) mixins (writeUpdate env hulyRef operations remoteTs) :=
  Always.ite (Always.pure _) (Writing.updateDoc env _ _ trivial)

theorem writing_linkChild (bctx : BindingContext) (syncEpic : Fields) (childIid : JsValue) :
    Writing env update (childMixin syncEpic)
      (linkChild env bctx (syncEpic.field "iid") childIid) := by
  have hlink : ∀ ref, Writing env update (childMixin syncEpic)
      (Async.putMixin env issueClass ref MR_REVIEW_MIXIN_DOC
        (withOriginatedMarker [("parentEpicIid", syncEpic.field "iid")])) := fun ref =>
    Writing.putMixin env _ _ (marks_withOriginatedMarker _) ⟨rfl, rfl⟩
  refine Always.bind (Writing.findByGitlab env _ _ _) fun mrChild => ?_
  cases mrChild with
  | some row => exact hlink row.hulyRef
  | none =>
    refine Always.bind (Writing.findByGitlab env _ _ _) fun issueChild => ?_
    cases issueChild with
    | some row => exact hlink row.hulyRef
    | none => exact Always.pure _

theorem writing_linkChildren (binding : BindingRef) (bctx : BindingContext) (syncEpic : Fields) :
    Writing env update (childMixin syncEpic) (linkChildren env binding bctx syncEpic) := by
  refine Always.bind (Always.ofExcept _) fun children => ?_
  refine Always.bind ?_ fun _ => Writing.setCursor env _ _ _
  exact Always.forEach (writing_linkChild env bctx syncEpic) children

end Awaits

end Epics

namespace Pipelines

/-- The field of a pipeline in the mixin of its merge request. -/
def statusMixin (syncPipeline : Fields) (mixin : String) (attributes : Fields) : Prop :=
  mixin = MR_MIXIN ∧
    attributes = withOriginatedMarker [("pipelineStatus", syncPipeline.field "status")]

theorem Awaits.writing_applyRemote (env : Env) (binding : BindingRef) (syncPipeline : Fields) :
    Writing env Marks (statusMixin syncPipeline) (applyRemote env binding syncPipeline) := by
  unfold applyRemote
  refine Always.ite (Always.pure _) ?_
  refine Always.bind (Writing.loadBinding env _) fun bctx => ?_
  refine Always.bind (Writing.findByGitlab env _ _ _) fun mrRef => ?_
  cases mrRef with
  | none => exact Always.pure _
  | some row => exact Writing.putMixin env _ _ (marks_withOriginatedMarker _) ⟨rfl, rfl⟩

end Pipelines

end HulyGitlab
