import HulyGitlab.Sync.ManagerWrites
import HulyGitlab.Sync.MixinMigration

/-!
# Who writes which field

The managers of merge requests, pipelines and epics write into the mixins of
the same documents. Run at the same time, interleaved at their awaits, each
leaves the fields of the others alone.
-/

namespace HulyGitlab

open Coroutine (Always Recalls)

/-- A field of a mixin of a document. -/
def World.mixinField (w : World) (ref : Ref) (mixin k : String) : JsValue :=
  match w.docs.get? ref with
  | some doc => (doc.mixinAttrs mixin).field k
  | none => .undefined

/-- What a document is apart from its mixins. -/
def World.base (w : World) (ref : Ref) : Option (String × Ref × Fields) :=
  (w.docs.get? ref).map fun doc => (doc.objectClass, doc.space, doc.attrs)

theorem World.mixinField_congr {w w' : World} (h : w'.docs = w.docs) (ref : Ref)
    (mixin k : String) : w'.mixinField ref mixin k = w.mixinField ref mixin k := by
  rw [World.mixinField, World.mixinField, h]

theorem World.mixinField_set {w w' : World} {ref : Ref} {doc : HulyDoc}
    (h : w'.docs = w.docs.set ref doc) (other : Ref) (mixin k : String) :
    w'.mixinField other mixin k =
      if other = ref then (doc.mixinAttrs mixin).field k else w.mixinField other mixin k := by
  rw [World.mixinField, h]
  by_cases hother : other = ref
  · rw [if_pos hother, hother, OrderedMap.get?_set_self]
  · rw [if_neg hother, OrderedMap.get?_set_of_ne _ hother, World.mixinField]

theorem HulyDoc.mixinAttrs_withMixin (doc : HulyDoc) (mixin : String) (attributes : Fields)
    (other : String) :
    (doc.withMixin mixin attributes).mixinAttrs other =
      if other = mixin then (doc.mixinAttrs mixin).assign attributes else doc.mixinAttrs other := by
  unfold HulyDoc.mixinAttrs HulyDoc.withMixin
  by_cases hother : other = mixin
  · rw [if_pos hother, hother, OrderedMap.get?_set_self]
    rfl
  · rw [if_neg hother, OrderedMap.get?_set_of_ne _ hother]

/-- A field is left alone by every call but a write of its mixin that names it. -/
theorem Await.Does.mixinField {env : Env} {point : Await} {w w' : World}
    (h : point.Does env w w') {ref : Ref} {mixin k : String}
    (hkeep : ∀ objectClass attributes, point = .putMixin objectClass ref mixin attributes →
      k ∉ attributes.map Prod.fst) :
    w'.mixinField ref mixin k = w.mixinField ref mixin k := by
  cases point with
  | createDoc objectClass attributes =>
    obtain hsame | ⟨space, hset⟩ := h
    · exact World.mixinField_congr hsame ref mixin k
    · rw [World.mixinField_set hset]
      by_cases href : ref = env.generateId w.docs.keys
      · have hnone : w.docs.get? ref = none := by
          rw [OrderedMap.get?_eq_none_iff, href]
          exact env.generateId_fresh w.docs.keys
        rw [if_pos href, World.mixinField, hnone]
        rfl
      · rw [if_neg href]
  | updateDoc objectClass other operations =>
    obtain hsame | ⟨doc, hdoc, hset⟩ := h
    · exact World.mixinField_congr hsame ref mixin k
    · rw [World.mixinField_set hset]
      by_cases href : ref = other
      · rw [if_pos href, World.mixinField, href, hdoc]
        rfl
      · rw [if_neg href]
  | putMixin objectClass other written attributes =>
    obtain hsame | ⟨doc, hdoc, hset⟩ := h
    · exact World.mixinField_congr hsame ref mixin k
    · rw [World.mixinField_set hset]
      by_cases href : ref = other
      · subst href
        rw [if_pos rfl, World.mixinField, hdoc, HulyDoc.mixinAttrs_withMixin]
        by_cases hmixin : mixin = written
        · subst hmixin
          rw [if_pos rfl, Fields.field_assign_of_not_mem _ _ (hkeep _ _ rfl)]
        · rw [if_neg hmixin]
      · rw [if_neg href]
  | _ => exact World.mixinField_congr h ref mixin k

/-- A call of one of the three managers. -/
inductive MixinOwner
  | mergeRequest (binding : BindingRef) (record : Fields)
  | pipeline (binding : BindingRef) (record : Fields)
  | epic (binding : BindingRef) (record : Fields)

namespace MixinOwner

def run (env : Env) : MixinOwner → Async Unit
  | .mergeRequest binding record => MergeRequests.Awaits.applyRemote env binding record
  | .pipeline binding record => Pipelines.Awaits.applyRemote env binding record
  | .epic binding record => Epics.Awaits.applyRemote env binding record

/-- Nothing of the record goes to the review mixin. -/
def Unfetched (record : Fields) : Prop :=
  ∀ k ∈ ["reviewers", "approvedBy", "approvalsRequired", "approvalRules", "iteration",
    "diffWebUrl", "changedFiles"], record.field k = .undefined

/-- The document the id map has for the merge request of a pipeline. -/
def PipelineMirror (env : Env) (binding : BindingRef) (record : Fields) (w : World) (ref : Ref) :
    Prop :=
  ∃ bctx row, env.loadBinding binding = .ok bctx ∧
    w.idmap.findByGitlab bctx.workspaceUuid .merge_request
      (projectKey env bctx (record.field "mergeRequestIid")) = some row ∧ row.hulyRef = ref

/-- The document the id map has for an epic, or the one that is created for it. -/
def EpicMirror (env : Env) (binding : BindingRef) (record : Fields) (w : World) (ref : Ref) :
    Prop :=
  (∃ bctx row, env.loadBinding binding = .ok bctx ∧
    w.idmap.findByGitlab bctx.workspaceUuid .epic
      (Epics.epicKey env bctx (record.field "groupId") (record.field "iid")) = some row ∧
    row.hulyRef = ref) ∨ ref = env.generateId w.docs.keys

/-- What a step of a call that was in the states `seen` may change. -/
def Owns (env : Env) (seen : List World) (w w' : World) : MixinOwner → Prop
  | .mergeRequest _ record =>
      (∀ ref mixin, ∀ k ∈ ["pipelineStatus", "parentEpicIid"],
        w'.mixinField ref mixin k = w.mixinField ref mixin k) ∧
      (Unfetched record → ∀ ref k,
        w'.mixinField ref MR_REVIEW_MIXIN_DOC k = w.mixinField ref MR_REVIEW_MIXIN_DOC k)
  | .pipeline binding record =>
      (∀ ref, w'.base ref = w.base ref) ∧
      ∀ ref mixin k, w'.mixinField ref mixin k = w.mixinField ref mixin k ∨
        mixin = MR_MIXIN ∧ k ∈ ["pipelineStatus", "_originated"] ∧
          ∃ t ∈ seen, PipelineMirror env binding record t ref
  | .epic binding record =>
      ∀ ref mixin k, w'.mixinField ref mixin k = w.mixinField ref mixin k ∨
        (mixin = MR_REVIEW_MIXIN_DOC ∧ k ∈ ["parentEpicIid", "_originated"]) ∨
          mixin = MR_EPIC_MIXIN ∧ ∃ t ∈ seen, EpicMirror env binding record t ref

theorem Owns.refl (env : Env) (seen : List World) (w : World) (job : MixinOwner) :
    Owns env seen w w job := by
  cases job with
  | mergeRequest binding record => exact ⟨fun _ _ _ _ => rfl, fun _ _ _ => rfl⟩
  | pipeline binding record => exact ⟨fun _ => rfl, fun _ _ _ => .inl rfl⟩
  | epic binding record => exact fun _ _ _ => .inl rfl

section MergeRequests

open MRApprovals

theorem keys_given_subset (k : String) (v : JsValue) : (given k v).map Prod.fst ⊆ [k] := by
  unfold given
  split_ifs
  · exact List.nil_subset _
  · exact List.Subset.refl _

/-- The fields a record may have for the review mixin. -/
theorem keys_buildReviewFromSyncMR {syncMR review : Fields} {reviewerUuids approvedByUuids : JsValue}
    (h : buildReviewFromSyncMR syncMR reviewerUuids approvedByUuids = .ok review) :
    review.map Prod.fst ⊆ ["reviewers", "approvedBy", "approvalsRequired", "approvalRules",
      "approvalStatus", "iteration", "diffWebUrl", "changedFiles"] := by
  unfold buildReviewFromSyncMR at h
  cases hstatus : approvalStatusOf syncMR approvedByUuids with
  | error e =>
    rw [hstatus] at h
    cases h
  | ok status =>
    rw [hstatus] at h
    obtain rfl := Except.ok.inj h
    intro k hk
    simp only [List.map_append, List.mem_append] at hk
    have hgiven : ∀ j v, k ∈ (given j v).map Prod.fst → k = j := fun j v hkj =>
      List.mem_singleton.mp (keys_given_subset j v hkj)
    obtain (((((((hk | hk) | hk) | hk) | hk) | hk) | hk) | hk) := hk
    all_goals
      rw [hgiven _ _ hk]
      simp

/-- A record without review data gives none. -/
theorem buildReviewFromSyncMR_unfetched {syncMR review : Fields}
    {reviewerUuids approvedByUuids : JsValue} (h : Unfetched syncMR)
    (hreviewers : reviewerUuids = .undefined) (happroved : approvedByUuids = .undefined)
    (hreview : buildReviewFromSyncMR syncMR reviewerUuids approvedByUuids = .ok review) :
    review = [] := by
  have hfield : ∀ k ∈ ["reviewers", "approvedBy", "approvalsRequired", "approvalRules",
      "iteration", "diffWebUrl", "changedFiles"], given k (syncMR.field k) = [] := fun k hk =>
    (given_eq_nil k _).mpr (h k hk)
  have hstatus : approvalStatusOf syncMR approvedByUuids = .ok .undefined := by
    unfold approvalStatusOf
    rw [h "approvalRules" (by simp), h "approvedBy" (by simp)]
    rfl
  unfold buildReviewFromSyncMR at hreview
  rw [hstatus] at hreview
  obtain rfl := Except.ok.inj hreview
  rw [hreviewers, happroved, hfield _ (by simp), hfield _ (by simp), hfield _ (by simp),
    hfield _ (by simp), hfield _ (by simp)]
  rfl

/-- What a write of the manager of merge requests leaves alone. -/
theorem owns_mergeRequest {env : Env} {binding : BindingRef} {record : Fields} {point : Await}
    {w w' : World} (h : point.Within Marks (MergeRequests.mixinsOf record))
    (hdoes : point.Does env w w') (seen : List World) :
    Owns env seen w w' (.mergeRequest binding record) := by
  constructor
  · refine fun ref mixin k hk => hdoes.mixinField fun objectClass attributes hpoint => ?_
    subst hpoint
    obtain ⟨-, rfl⟩ | ⟨-, reviewers, approved, review, -, -, hreview, -, rfl⟩ := h.2
    · obtain rfl | rfl : k = "pipelineStatus" ∨ k = "parentEpicIid" := by simpa using hk
      · simp [withOriginatedMarker, buildCoreFromSyncMR, Fields.set]
      · simp [withOriginatedMarker, buildCoreFromSyncMR, Fields.set]
    · intro hmem
      obtain rfl | hmem := (Fields.mem_keys_set _ _ _ _).mp hmem
      · simp at hk
      · have hkeys := keys_buildReviewFromSyncMR hreview hmem
        obtain rfl | rfl : k = "pipelineStatus" ∨ k = "parentEpicIid" := by simpa using hk
        · simp at hkeys
        · simp at hkeys
  · refine fun hnone ref k => hdoes.mixinField fun objectClass attributes hpoint => ?_
    subst hpoint
    obtain ⟨hmixin, -⟩ | ⟨-, reviewers, approved, review, hr, ha, hreview, hne, -⟩ := h.2
    · exact absurd hmixin (by decide)
    · exact absurd (buildReviewFromSyncMR_unfetched hnone (hr (hnone _ (by simp)))
        (ha (hnone _ (by simp))) hreview) hne

end MergeRequests

section Runs

variable (env : Env) (binding : BindingRef) (record : Fields)

theorem recalls_mergeRequest :
    Recalls (fun seen _ w w' => Owns env seen w w' (.mergeRequest binding record)) []
      (MergeRequests.Awaits.applyRemote env binding record) :=
  Recalls.of_always (fun seen _ _ _ h => owns_mergeRequest h.1 h.2 seen)
    (MergeRequests.Awaits.writing_applyRemote env binding record)

/-- Without a write of a document nothing changes hands. -/
theorem Owns.of_docs {seen : List World} {w w' : World} (h : w'.docs = w.docs) (job : MixinOwner) :
    Owns env seen w w' job := by
  have hfield : ∀ ref mixin k, w'.mixinField ref mixin k = w.mixinField ref mixin k :=
    World.mixinField_congr h
  have hbase : ∀ ref, w'.base ref = w.base ref := fun ref => by
    rw [World.base, World.base, h]
  cases job with
  | mergeRequest binding record => exact ⟨fun ref mixin k _ => hfield ref mixin k, fun _ ref k =>
      hfield ref _ k⟩
  | pipeline binding record => exact ⟨hbase, fun ref mixin k => .inl (hfield ref mixin k)⟩
  | epic binding record => exact fun ref mixin k => .inl (hfield ref mixin k)

theorem keys_marked_singleton (k j : String) (v : JsValue)
    (h : j ∈ (withOriginatedMarker [(k, v)]).map Prod.fst) : j ∈ [k, "_originated"] := by
  obtain rfl | hmem := (Fields.mem_keys_set _ _ _ _).mp h
  · simp
  · exact List.mem_cons.mpr (.inl (List.mem_singleton.mp hmem))

/-- A write of one mixin of one document. -/
theorem Await.Does.putMixin_only {objectClass : String} {ref : Ref} {mixin : String}
    {attributes : Fields} {w w' : World}
    (h : (Await.putMixin objectClass ref mixin attributes).Does env w w') :
    (∀ other, w'.base other = w.base other) ∧
      ∀ other m k, w'.mixinField other m k = w.mixinField other m k ∨
        other = ref ∧ m = mixin ∧ k ∈ attributes.map Prod.fst := by
  constructor
  · intro other
    unfold World.base
    obtain hsame | ⟨doc, hdoc, hset⟩ := h
    · rw [hsame]
    · rw [hset]
      by_cases hother : other = ref
      · rw [hother, OrderedMap.get?_set_self, hdoc]
        rfl
      · rw [OrderedMap.get?_set_of_ne _ hother]
  · intro other m k
    by_cases hat : other = ref ∧ m = mixin ∧ k ∈ attributes.map Prod.fst
    · exact .inr hat
    · refine .inl (Await.Does.mixinField h fun _ attributes' hpoint hk => hat ?_)
      obtain ⟨-, rfl, rfl, rfl⟩ := Await.putMixin.inj hpoint
      exact ⟨rfl, rfl, hk⟩

/-- The pipeline writes to the document it looked up. -/
theorem recalls_pipeline :
    Recalls (fun seen _ w w' => Owns env seen w w' (.pipeline binding record)) []
      (Pipelines.Awaits.applyRemote env binding record) := by
  unfold Pipelines.Awaits.applyRemote
  refine Recalls.ite (Recalls.pure _) ?_
  refine Recalls.call_bind (fun w => Owns.of_docs env rfl _) fun w₀ bctx hload => ?_
  refine Recalls.call_bind (fun w => Owns.of_docs env (Writing.findByGitlab_docs env _ _ _ w) _)
    fun t mrRef hfind => ?_
  obtain ⟨hfound, -⟩ := Sync.findByGitlab_ok env (Prod.ext hfind rfl)
  cases mrRef with
  | none => exact Recalls.pure _
  | some row =>
    refine Recalls.call fun w => ?_
    obtain ⟨hbase, hfields⟩ :=
      Await.Does.putMixin_only env (Writing.putMixin_does env issueClass _ _ _ w)
    refine ⟨hbase, fun ref mixin k => (hfields ref mixin k).imp id ?_⟩
    rintro ⟨rfl, hmixin, hk⟩
    have hseen : t ∈ [w, t, w₀] := by simp
    exact ⟨hmixin, keys_marked_singleton _ _ _ hk, t, hseen, bctx, row, hload, hfound.symm, rfl⟩

section Epic

variable {seen : List World}

/-- A call that writes no mixin, or the link of a child. -/
theorem owns_epic {update : Fields → Prop} {point : Await} {w w' : World}
    (h : point.Within update (Epics.childMixin record)) (hdoes : point.Does env w w') :
    Owns env seen w w' (.epic binding record) := by
  intro ref mixin k
  by_cases hlink : mixin = MR_REVIEW_MIXIN_DOC ∧ k ∈ ["parentEpicIid", "_originated"]
  · exact .inr (.inl hlink)
  · refine .inl (hdoes.mixinField fun objectClass attributes hpoint hk => hlink ?_)
    subst hpoint
    obtain ⟨hmixin, rfl⟩ := h.2
    exact ⟨hmixin, keys_marked_singleton _ _ _ hk⟩

theorem recalls_epic_of_writing {A : Type} {update : Fields → Prop} {p : Async A}
    (h : Writing env update (Epics.childMixin record) p) :
    Recalls (fun seen _ w w' => Owns env seen w w' (.epic binding record)) seen p :=
  Recalls.of_always (fun _ _ _ _ hboth => owns_epic env binding record hboth.1 hboth.2) h

/-- The mixin of the epic itself. -/
theorem recalls_ownMixin {t : World} {ref : Ref} (ht : t ∈ seen)
    (hmirror : EpicMirror env binding record t ref) (attributes : Fields) :
    Recalls (fun seen _ w w' => Owns env seen w w' (.epic binding record)) seen
      (Async.putMixin env issueClass ref MR_EPIC_MIXIN attributes) := by
  refine Recalls.call fun w other mixin k => ?_
  have hfields := (Await.Does.putMixin_only env (Writing.putMixin_does env issueClass ref
    MR_EPIC_MIXIN attributes w)).2
  refine (hfields other mixin k).imp id ?_
  rintro ⟨rfl, hmixin, -⟩
  exact .inr ⟨hmixin, t, List.mem_cons_of_mem w ht, hmirror⟩

theorem createDoc_ref {objectClass : String} {space ref : Ref} {attributes : Fields} {w : World}
    (h : ((Sync.createDoc env objectClass space attributes).run w).1 = .ok ref) :
    ref = env.generateId w.docs.keys := by
  unfold Sync.createDoc at h
  obtain ⟨e, hrun⟩ | hrun := Sync.reach_bind_cases env .platform
    (fun _ => Effect.step fun w =>
      (.ok (env.generateId w.docs.keys),
        { w with docs := w.docs.set (env.generateId w.docs.keys) ⟨objectClass, space,
          Fields.assign [("modifiedOn", .num w.now)] attributes, .empty⟩ })) w
  · exact absurd ((congrArg Prod.fst hrun).symm.trans h) (by simp)
  · exact (Except.ok.inj ((congrArg Prod.fst hrun).symm.trans h)).symm

theorem recalls_createFromRemote (bctx : BindingContext) (gitlabId : String)
    (description : JsValue) (status : Ref) (remoteTs : JsDate) :
    Recalls (fun seen _ w w' => Owns env seen w w' (.epic binding record)) seen
      (Epics.Awaits.createFromRemote env bctx gitlabId record description status remoteTs) := by
  refine Recalls.call_bind (fun w ref mixin k => .inl ?_) fun t ref hcreated => ?_
  · exact (Writing.createDoc_does env issueClass _ _ w).mixinField
      fun _ _ hpoint => Await.noConfusion hpoint
  have hmirror : EpicMirror env binding record t ref := .inr (createDoc_ref env hcreated)
  have hrow : Writing env Marks (Epics.childMixin record)
      (Async.upsertIdMap env ⟨bctx.workspaceUuid, .epic, gitlabId, issueClass, ref⟩) :=
    Writing.upsertIdMap env _
  refine Recalls.bind (recalls_epic_of_writing env binding record hrow) fun _ earlier hsub => ?_
  refine Recalls.ofExcept_bind fun data => ?_
  exact recalls_ownMixin env binding record (hsub (by simp)) hmirror _

theorem recalls_updateFromRemote {t : World} {hulyRef : Ref} (ht : t ∈ seen)
    (hmirror : EpicMirror env binding record t hulyRef) (description : JsValue)
    (remoteTs : JsDate) :
    Recalls (fun seen _ w w' => Owns env seen w w' (.epic binding record)) seen
      (Epics.Awaits.updateFromRemote env hulyRef record description remoteTs) := by
  have hread : Writing env Marks (Epics.childMixin record)
      (Async.findOne env issueClass hulyRef) := Writing.findOne env _ _
  refine Recalls.bind (recalls_epic_of_writing env binding record hread)
    fun hulyIssue earlier hsub => ?_
  cases hulyIssue with
  | none => exact Recalls.pure _
  | some issue =>
    refine Recalls.bind (recalls_epic_of_writing env binding record
      (Epics.Awaits.writing_writeUpdate env _ _ _)) fun _ later hlater => ?_
    refine Recalls.ofExcept_bind fun data => ?_
    refine Recalls.bind ?_ fun _ _ _ => Recalls.pure _
    exact recalls_ownMixin env binding record (hlater (hsub ht)) hmirror _

/-- The epic writes to its mirror, and links its children. -/
theorem recalls_epic :
    Recalls (fun seen _ w w' => Owns env seen w w' (.epic binding record)) []
      (Epics.Awaits.applyRemote env binding record) := by
  have hlinks : ∀ bctx seen, Recalls
      (fun seen _ w w' => Owns env seen w w' (.epic binding record)) seen
      (Epics.Awaits.linkChildren env binding bctx record) := fun bctx seen =>
    recalls_epic_of_writing env binding record
      (show Writing env Marks _ _ from Epics.Awaits.writing_linkChildren env binding bctx record)
  unfold Epics.Awaits.applyRemote
  refine Recalls.call_bind (fun w => Owns.of_docs env rfl _) fun w₀ bctx hload => ?_
  refine Recalls.ite (Recalls.pure _) ?_
  refine Recalls.call_bind (fun w => Owns.of_docs env (Writing.findByGitlab_docs env _ _ _ w) _)
    fun t existing hfind => ?_
  obtain ⟨hfound, -⟩ := Sync.findByGitlab_ok env (Prod.ext hfind rfl)
  refine Recalls.ofExcept_bind fun rawDescription => ?_
  cases Epics.pickBacklogStatus bctx.statuses with
  | none => exact Recalls.pure _
  | some status =>
    refine Recalls.ofExcept_bind fun _ => ?_
    cases existing with
    | none =>
      exact Recalls.bind (recalls_createFromRemote env binding record bctx _ _ _ _)
        fun _ earlier _ => hlinks bctx earlier
    | some row =>
      have hmirror : EpicMirror env binding record t row.hulyRef :=
        .inl ⟨bctx, row, hload, hfound.symm, rfl⟩
      refine Recalls.bind (recalls_updateFromRemote env binding record (by simp) hmirror _ _)
        fun mirrored earlier _ => ?_
      exact Recalls.ite (hlinks bctx earlier) (Recalls.pure _)

end Epic

end Runs

theorem recalls_run (env : Env) (job : MixinOwner) :
    Recalls (fun seen _ w w' => Owns env seen w w' job) [] (job.run env) := by
  cases job with
  | mergeRequest binding record => exact recalls_mergeRequest env binding record
  | pipeline binding record => exact recalls_pipeline env binding record
  | epic binding record => exact recalls_epic env binding record

/-- Any number of calls, each with a number of its own. -/
abbrev Calls := Pool Nat (Nat × MixinOwner) Await Err World

/-- A call starts, one runs to its next await, or anything else changes the world. -/
def interleave (env : Env) : Calls → Pool.Action Nat (Nat × MixinOwner) (World → World) → Calls :=
  Pool.step Prod.fst (fun call => call.2.run env) fun change w => change w

/-- The world before one of the actions, or after the last one. -/
def Passed (env : Env) (w : World) (acts : List (Pool.Action Nat (Nat × MixinOwner)
    (World → World))) (t : World) : Prop :=
  ∃ as, as <+: acts ∧ t = (Transition.exec (interleave env) (Pool.idle w) as).state

/-- However the calls interleave, a step of one changes only what its manager owns. -/
theorem owns_advance (env : Env) (w : World)
    (acts : List (Pool.Action Nat (Nat × MixinOwner) (World → World))) (n : Nat)
    (call : Nat × MixinOwner) (rest : Async Unit)
    (hrun : (Transition.exec (interleave env) (Pool.idle w) acts).running n = some (call, rest)) :
    ∃ seen, (∀ t ∈ seen, Passed env w acts t) ∧
      Owns env seen (Transition.exec (interleave env) (Pool.idle w) acts).state
        (Transition.exec (interleave env) (Pool.idle w) (acts ++ [.advance n])).state call.2 := by
  obtain hsame | ⟨seen, point, hseen, howns⟩ :=
    Pool.advance_recalls (fun call : Nat × MixinOwner => recalls_run env call.2) w acts hrun
  · refine ⟨[], fun t ht => absurd ht List.not_mem_nil, ?_⟩
    exact Owns.of_docs env (congrArg World.docs hsame) call.2
  · exact ⟨seen, hseen, howns⟩

/-- The pipeline of a mirrored merge request. -/
def runningPipeline : MixinOwner :=
  .pipeline "b" [("mergeRequestIid", .num 5), ("status", .str "running")]

def pipelineWorld : World :=
  { World.initial with
    idmap := .single ⟨"ws", .merge_request, "7:5", issueClass, "mirror"⟩
    docs := OrderedMap.empty.set "mirror" ⟨issueClass, "project", [], .empty⟩ }

/-- The call up to its write. -/
def beforeWrite : List (Pool.Action Nat (Nat × MixinOwner) (World → World)) :=
  [.start (0, runningPipeline), .advance 0, .advance 0]

theorem owns_advance_pipeline :
    ∃ rest, (Transition.exec (interleave (Env.quiet quietBinding)) (Pool.idle pipelineWorld)
        beforeWrite).running 0 = some ((0, runningPipeline), rest) ∧
      ∃ seen, (∀ t ∈ seen, Passed (Env.quiet quietBinding) pipelineWorld beforeWrite t) ∧
        Owns (Env.quiet quietBinding) seen
          (Transition.exec (interleave (Env.quiet quietBinding)) (Pool.idle pipelineWorld)
            beforeWrite).state
          (Transition.exec (interleave (Env.quiet quietBinding)) (Pool.idle pipelineWorld)
            (beforeWrite ++ [.advance 0])).state runningPipeline :=
  ⟨_, rfl, owns_advance (Env.quiet quietBinding) pipelineWorld beforeWrite 0
    (0, runningPipeline) _ rfl⟩

/-- The write of the pipeline also sets the marker of the mixin. -/
theorem not_only_pipelineStatus :
    ¬ ∀ ref mixin k, ¬ (ref = "mirror" ∧ mixin = MR_MIXIN ∧ k = "pipelineStatus") →
      (Transition.exec (interleave (Env.quiet quietBinding)) (Pool.idle pipelineWorld)
          (beforeWrite ++ [.advance 0])).state.mixinField ref mixin k =
        (Transition.exec (interleave (Env.quiet quietBinding)) (Pool.idle pipelineWorld)
          beforeWrite).state.mixinField ref mixin k := by
  intro hall
  have hmarker := hall "mirror" MR_MIXIN "_originated" (by decide)
  revert hmarker
  decide +kernel

end MixinOwner

end HulyGitlab
