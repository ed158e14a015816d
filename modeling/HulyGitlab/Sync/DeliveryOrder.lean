import HulyGitlab.Sync.ApprovalStatus
import HulyGitlab.Sync.ThreadMixins

/-!
# The order of deliveries

The records of a merge request and of its threads come again and again, in any
order. No write of their mixins looks at the age of the record, so in the end
the mixins say what the record delivered last says.
-/

namespace HulyGitlab

open Effect UserIdentity

/-! ### Mixins and users that a call leaves alone -/

/-- The fields of the mixin are the same on every document. -/
def KeepsMixin (mixin : String) (w w' : World) : Prop :=
  ∀ ref k, w'.mixinField ref mixin k = w.mixinField ref mixin k

theorem KeepsMixin.refl (mixin : String) (w : World) : KeepsMixin mixin w w := fun _ _ => rfl

theorem KeepsMixin.trans (mixin : String) (w₁ w₂ w₃ : World) (h : KeepsMixin mixin w₁ w₂)
    (h' : KeepsMixin mixin w₂ w₃) : KeepsMixin mixin w₁ w₃ :=
  fun ref k => (h' ref k).trans (h ref k)

/-- Calls that write other mixins only keep this one. -/
theorem keepsMixin_of_writing {env : Env} {update : Fields → Prop} {mixins : String → Fields → Prop}
    {mixin : String} (hmixin : ∀ attributes, ¬ mixins mixin attributes) {A : Type} {p : Async A}
    (h : Writing env update mixins p) : Effect.Within (KeepsMixin mixin) p.toEffect := by
  refine Coroutine.Always.within (KeepsMixin.refl mixin) (KeepsMixin.trans mixin)
    (fun point w w' hpoint ref k => ?_) h
  refine hpoint.2.mixinField fun objectClass attributes hput => ?_
  subst hput
  exact absurd hpoint.1.2 (hmixin _)

namespace UserIdentity

variable {env : Env} {workspaceUuid : String} {w w' : World}

theorem findPersonBySocialKey_ok {socialKey : String} {found : Option Ref}
    (h : (Sync.findPersonBySocialKey env socialKey).run w = (.ok found, w')) :
    found = env.findPersonBySocialKey socialKey ∧ w' = w := by
  obtain ⟨e, hrun⟩ | hrun := Sync.reach_bind_cases env .account
    (fun _ => pure (env.findPersonBySocialKey socialKey)) w
  · rw [Sync.findPersonBySocialKey, hrun] at h
    cases h
  · rw [Sync.findPersonBySocialKey, hrun] at h
    cases h
    exact ⟨rfl, rfl⟩

theorem mapByGitlabUser_ok {user : IdentityUser} {found : Option Ref}
    (hmail : user.email = .undefined ∨ ∃ address, user.email = .str address)
    (h : (mapByGitlabUser env user).run w = (.ok found, w')) :
    found = accountOf env user ∧ w' = w := by
  unfold mapByGitlabUser at h
  obtain ⟨byGitlab, w₁, hfirst, hrest⟩ := bind_ok_iff.mp h
  obtain ⟨rfl, rfl⟩ := findPersonBySocialKey_ok hfirst
  unfold accountOf
  cases hkey : env.findPersonBySocialKey ("gitlab:" ++ user.gitlabId) with
  | some ref =>
    rw [hkey] at hrest
    cases hrest
    exact ⟨rfl, rfl⟩
  | none =>
    rw [hkey] at hrest
    dsimp only at hrest
    obtain hmail | ⟨address, hmail⟩ := hmail
    · rw [if_neg (not_not.mpr hmail)] at hrest
      cases hrest
      exact ⟨by rw [hmail], rfl⟩
    · rw [if_pos (by rw [hmail]; exact JsValue.noConfusion), hmail] at hrest
      obtain ⟨rfl, rfl⟩ := findPersonBySocialKey_ok hrest
      exact ⟨by rw [hmail], rfl⟩

/-- A user that was resolved is known from then on. -/
theorem resolveUser_ok {u : SyncUser} {ref : Ref}
    (h : (resolveUser env workspaceUuid u.toJs).run w = (.ok ref, w')) :
    Known env w'.idmap workspaceUuid (Issues.identity u) ∧
      ref = personOf env w'.idmap workspaceUuid (Issues.identity u) ∧
      Remembers workspaceUuid w.idmap w'.idmap := by
  unfold resolveUser at h
  rw [Issues.identityOf_toJs, ofExcept_ok_bind] at h
  obtain ⟨matched, w₁, hmatched, hrest⟩ := bind_ok_iff.mp h
  obtain ⟨rfl, rfl⟩ := mapByGitlabUser_ok (Issues.identity_email u) hmatched
  unfold personOf Known
  cases haccount : accountOf env (Issues.identity u) with
  | some account =>
    rw [haccount] at hrest
    cases hrest
    exact ⟨.inl (Option.some_ne_none _), rfl, Remembers.refl _ _⟩
  | none =>
    rw [haccount] at hrest
    dsimp only [ensureStubGuest] at hrest
    obtain ⟨existing, w₂, hfind, hrest⟩ := bind_ok_iff.mp hrest
    obtain ⟨rfl, lookups, rfl⟩ := Sync.findByGitlab_ok env hfind
    cases hrow : w₁.idmap.findByGitlab workspaceUuid .user (Issues.identity u).gitlabId with
    | some row =>
      rw [hrow] at hrest
      cases hrest
      refine ⟨.inr ?_, ?_, Remembers.refl _ _⟩
      · exact hrow ▸ Option.some_ne_none row
      · simp [guestOf, hrow]
    | none =>
      rw [hrow] at hrest
      obtain ⟨_, w₃, hput, hrest⟩ := bind_ok_iff.mp hrest
      cases hrest
      obtain ⟨e, hrun⟩ | ⟨idmap, hup, hrun⟩ := Sync.upsertIdMap_cases env
        (stubRow workspaceUuid (Issues.identity u).gitlabId) { w₁ with lookups := lookups }
      · rw [hrun] at hput
        cases hput
      · rw [hrun] at hput
        cases hput
        have hself : idmap.findByGitlab workspaceUuid .user (Issues.identity u).gitlabId =
            some (stubRow workspaceUuid (Issues.identity u).gitlabId) :=
          IdMap.findByGitlab_of_upsert_self hup
        refine ⟨.inr ?_, ?_, remembers_of_upsert hup fun _ => hrow⟩
        · exact hself ▸ Option.some_ne_none _
        · simp [guestOf, hself, stubRow]

/-- The rows of users are still there. -/
def KeepsUsers (workspaceUuid : String) (w w' : World) : Prop :=
  Remembers workspaceUuid w.idmap w'.idmap

theorem KeepsUsers.refl (workspaceUuid : String) (w : World) : KeepsUsers workspaceUuid w w :=
  Remembers.refl _ _

theorem KeepsUsers.trans (workspaceUuid : String) (w₁ w₂ w₃ : World)
    (h : KeepsUsers workspaceUuid w₁ w₂) (h' : KeepsUsers workspaceUuid w₂ w₃) :
    KeepsUsers workspaceUuid w₁ w₃ :=
  Remembers.trans h h'

/-- Every run of the computation keeps the rows of users. -/
abbrev Remembering (workspaceUuid : String) {A : Type} (m : Sync A) : Prop :=
  Effect.Within (KeepsUsers workspaceUuid) m

namespace Remembering

variable {A B : Type}

theorem bind {m : Sync A} {f : A → Sync B} (hm : Remembering workspaceUuid m)
    (hf : ∀ a, Remembering workspaceUuid (f a)) : Remembering workspaceUuid (m >>= f) :=
  Effect.Within.bind (KeepsUsers.trans workspaceUuid) hm hf

theorem of_writes {parts : List Part} {m : Sync A} (h : Writes parts m) (hidmap : .idmap ∉ parts) :
    Remembering workspaceUuid m := by
  intro w
  have hsame : (m.run w).2.idmap = w.idmap := h.same hidmap w
  rw [KeepsUsers, hsame]
  exact Remembers.refl _ _

theorem pure (a : A) : Remembering workspaceUuid (pure a : Sync A) :=
  Effect.Within.pure (KeepsUsers.refl workspaceUuid) a

theorem ofExcept (r : Except Err A) : Remembering workspaceUuid (Effect.ofExcept r) :=
  Effect.Within.ofExcept (KeepsUsers.refl workspaceUuid) r

/-- The row of something else than a user, or of a user without one. -/
theorem upsertIdMap {doc : IdMapDoc} (hnew : doc.gitlabKind = .user →
      w.idmap.findByGitlab workspaceUuid .user doc.gitlabId = none) :
    KeepsUsers workspaceUuid w ((Sync.upsertIdMap env doc).run w).2 := by
  obtain ⟨e, hrun⟩ | ⟨idmap, hup, hrun⟩ := Sync.upsertIdMap_cases env doc w
  · rw [hrun]
    exact KeepsUsers.refl _ _
  · rw [hrun]
    exact remembers_of_upsert hup hnew

theorem findByGitlab (kind : GitlabKind) (gitlabId : String) :
    Remembering workspaceUuid (Sync.findByGitlab env workspaceUuid kind gitlabId) :=
  of_writes (Writes.findByGitlab env (List.mem_singleton_self _) _ _ _) (by decide)

theorem resolveUser (user : JsValue) :
    Remembering workspaceUuid (UserIdentity.resolveUser env workspaceUuid user) := by
  refine bind (ofExcept _) fun identity => bind (of_writes (Writes.mapByGitlabUser env identity)
    List.not_mem_nil) fun matched => ?_
  cases matched with
  | some ref => exact pure ref
  | none =>
    refine Effect.Within.bind_of (KeepsUsers.trans workspaceUuid) (findByGitlab _ _)
      fun w existing w' hfind => ?_
    obtain ⟨rfl, lookups, rfl⟩ := Sync.findByGitlab_ok env hfind
    cases hrow : w.idmap.findByGitlab workspaceUuid .user identity.gitlabId with
    | some row => exact KeepsUsers.refl _ _
    | none =>
      let asked : World := { w with lookups := lookups }
      have hstub : KeepsUsers workspaceUuid asked
          ((Sync.upsertIdMap env (stubRow workspaceUuid identity.gitlabId)).run asked).2 :=
        upsertIdMap fun _ => hrow
      refine KeepsUsers.trans _ _ _ _ hstub ?_
      exact Effect.Within.after (KeepsUsers.refl workspaceUuid) (fun _ => pure _) _

theorem resolveAssignee (assignees : JsValue) :
    Remembering workspaceUuid (UserIdentity.resolveAssignee env workspaceUuid assignees) := by
  refine bind (ofExcept _) fun users => ?_
  cases users with
  | nil => exact pure _
  | cons first rest => exact bind (resolveUser _) fun _ => pure _

end Remembering

/-- The references of the users, if there is a list of them. -/
def personsOf (env : Env) (idmap : IdMap) (workspaceUuid : String)
    (users : Option (List SyncUser)) : JsValue :=
  match users with
  | none => .undefined
  | some users =>
      .arr (users.map fun u => .str (personOf env idmap workspaceUuid (Issues.identity u)))

/-- All of the users are known. -/
def AllKnown (env : Env) (idmap : IdMap) (workspaceUuid : String)
    (users : Option (List SyncUser)) : Prop :=
  ∀ u ∈ users.getD [], Known env idmap workspaceUuid (Issues.identity u)

theorem AllKnown.remembered {idmap idmap' : IdMap} {users : Option (List SyncUser)}
    (h : AllKnown env idmap workspaceUuid users) (hr : Remembers workspaceUuid idmap idmap') :
    AllKnown env idmap' workspaceUuid users := fun u hu => (h u hu).remembered hr

/-- Known users are the same persons later. -/
theorem AllKnown.personsOf_eq {idmap idmap' : IdMap} {users : Option (List SyncUser)}
    (h : AllKnown env idmap workspaceUuid users) (hr : Remembers workspaceUuid idmap idmap') :
    personsOf env idmap' workspaceUuid users = personsOf env idmap workspaceUuid users := by
  cases users with
  | none => rfl
  | some users =>
    refine congrArg JsValue.arr (List.map_congr_left fun u hu => ?_)
    rw [(h u hu).personOf_eq hr]

theorem mapEach_resolveUser_ok {users : List SyncUser} {refs : List Ref}
    (h : (Effect.mapEach (resolveUser env workspaceUuid) (users.map SyncUser.toJs)).run w =
      (.ok refs, w')) :
    (∀ u ∈ users, Known env w'.idmap workspaceUuid (Issues.identity u)) ∧
      refs = users.map (fun u => personOf env w'.idmap workspaceUuid (Issues.identity u)) ∧
      Remembers workspaceUuid w.idmap w'.idmap := by
  induction users generalizing w refs with
  | nil =>
    cases h
    exact ⟨fun u hu => absurd hu List.not_mem_nil, rfl, Remembers.refl _ _⟩
  | cons u users ih =>
    rw [List.map_cons, mapEach_cons] at h
    obtain ⟨ref, w₁, hfirst, hrest⟩ := bind_ok_iff.mp h
    obtain ⟨refs', w₂, hothers, hpure⟩ := bind_ok_iff.mp hrest
    cases hpure
    obtain ⟨hknown, rfl, hr⟩ := resolveUser_ok hfirst
    obtain ⟨hall, rfl, hr'⟩ := ih hothers
    refine ⟨fun v hv => ?_, ?_, hr.trans hr'⟩
    · obtain rfl | hv := List.mem_cons.mp hv
      · exact hknown.remembered hr'
      · exact hall v hv
    · rw [List.map_cons, hknown.personOf_eq hr']

theorem resolveReviewerUuids_ok {users : Option (List SyncUser)} {v : JsValue}
    (h : (MergeRequests.resolveReviewerUuids env workspaceUuid
      ((users.map usersToJs).getD .undefined)).run w = (.ok v, w')) :
    AllKnown env w'.idmap workspaceUuid users ∧
      v = personsOf env w'.idmap workspaceUuid users ∧
      Remembers workspaceUuid w.idmap w'.idmap := by
  cases users with
  | none =>
    cases h
    exact ⟨fun u hu => absurd hu List.not_mem_nil, rfl, Remembers.refl _ _⟩
  | some users =>
    have hdefined : usersToJs users ≠ .undefined := JsValue.noConfusion
    rw [Option.map_some, Option.getD_some, MergeRequests.resolveReviewerUuids, if_neg hdefined,
      usersToJs, JsValue.elements_arr, ofExcept_ok_bind] at h
    obtain ⟨refs, w₁, hrefs, hpure⟩ := bind_ok_iff.mp h
    cases hpure
    obtain ⟨hall, rfl, hr⟩ := mapEach_resolveUser_ok hrefs
    exact ⟨hall, by rw [personsOf, List.map_map]; rfl, hr⟩

end UserIdentity

/-! ### What a merge request shows -/

section Puts

variable {env : Env} {w w' : World} {ref : Ref} {mixin : String} {attributes : Fields}

theorem keepsMixin_of_docs (h : w'.docs = w.docs) : KeepsMixin mixin w w' :=
  fun ref k => World.mixinField_congr h ref mixin k

/-- A write of a mixin shows what it was given. -/
theorem putMixin_shows {doc : HulyDoc} (hn : (attributes.map Prod.fst).Nodup)
    (hk : "_originated" ∉ attributes.map Prod.fst) (hdoc : w.docs.get? ref = some doc)
    (h : (Sync.putMixin env ref mixin (withOriginatedMarker attributes)).run w = (.ok (), w')) :
    (∃ doc', w'.docs.get? ref = some doc') ∧ ∀ k ∈ attributes.map Prod.fst,
      w'.mixinField ref mixin k = attributes.field k := by
  obtain ⟨e, hrun⟩ | hrun := Sync.putMixin_cases env mixin (withOriginatedMarker attributes) hdoc
  · rw [hrun] at h
    cases h
  · rw [hrun] at h
    cases h
    refine ⟨⟨_, OrderedMap.get?_set_self _ _ _⟩, fun k hmem => ?_⟩
    rw [World.mixinField_set rfl, if_pos rfl, HulyDoc.mixinAttrs_withMixin, if_pos rfl,
      Reviews.field_assign_marked hn _ fun heq => hk (heq ▸ hmem), if_pos hmem]

theorem keepsMixin_putMixin {other : String} (hne : mixin ≠ other) :
    Effect.Within (KeepsMixin mixin) (Sync.putMixin env ref other attributes) := by
  intro w other' k
  refine (Writing.putMixin_does env issueClass ref other attributes w).mixinField
    fun _ _ hput => ?_
  exact absurd (Await.putMixin.inj hput).2.2.1.symm hne

end Puts

namespace MergeRequests

open MRApprovals

/-- The fields of the review mixin that a record can carry. -/
def reviewFields : List String :=
  ["reviewers", "approvedBy", "approvalsRequired", "approvalRules", "approvalStatus", "iteration",
    "diffWebUrl", "changedFiles"]

/-- The record carries every optional field of the review mixin. -/
structure Complete (m : SyncMergeRequest) : Prop where
  reviewers : m.reviewers.isSome
  approvedBy : m.approvedBy.isSome
  approvalsRequired : m.approvalsRequired.isSome
  approvalRules : m.approvalRules.isSome
  iteration : m.iteration.isSome
  diffWebUrl : m.diffWebUrl.isSome
  changedFiles : m.changedFiles.isSome

theorem buildReview_eq {syncMR review : Fields} {reviewers approvers : JsValue}
    (h : buildReviewFromSyncMR syncMR reviewers approvers = .ok review) :
    ∃ status, approvalStatusOf syncMR approvers = .ok status ∧
      review = given "reviewers" reviewers ++ given "approvedBy" approvers ++
        given "approvalsRequired" (syncMR.field "approvalsRequired") ++
        given "approvalRules" (syncMR.field "approvalRules") ++ given "approvalStatus" status ++
        given "iteration" (syncMR.field "iteration") ++
        given "diffWebUrl" (syncMR.field "diffWebUrl") ++
        given "changedFiles" (syncMR.field "changedFiles") := by
  unfold buildReviewFromSyncMR at h
  cases hstatus : approvalStatusOf syncMR approvers with
  | error e =>
    rw [hstatus] at h
    cases h
  | ok status =>
    rw [hstatus] at h
    exact ⟨status, rfl, (Except.ok.inj h).symm⟩

theorem sublist_given (k : String) (v : JsValue) : ((given k v).map Prod.fst).Sublist [k] := by
  unfold given
  split_ifs
  · exact List.nil_sublist _
  · exact List.Sublist.refl _

/-- The attributes of the review mixin, in their order. -/
theorem buildReview_sublist {syncMR review : Fields} {reviewers approvers : JsValue}
    (h : buildReviewFromSyncMR syncMR reviewers approvers = .ok review) :
    (review.map Prod.fst).Sublist reviewFields := by
  obtain ⟨status, -, rfl⟩ := buildReview_eq h
  simp only [List.map_append]
  have hpair : ∀ k v, ((given k v).map Prod.fst).Sublist [k] := sublist_given
  exact ((((((((hpair _ _).append (hpair _ _)).append (hpair _ _)).append (hpair _ _)).append
    (hpair _ _)).append (hpair _ _)).append (hpair _ _)).append (hpair _ _))

theorem given_of_ne {k : String} {v : JsValue} (h : v ≠ .undefined) : given k v = [(k, v)] :=
  if_neg h

/-- A complete record names every field of the review mixin. -/
theorem buildReview_complete {m : SyncMergeRequest} {review : Fields}
    {reviewers approvers : JsValue}
    (hm : Complete m) (hreviewers : reviewers ≠ .undefined) (happroved : approvers ≠ .undefined)
    (h : buildReviewFromSyncMR m.toFields reviewers approvers = .ok review) :
    review.map Prod.fst = reviewFields := by
  obtain ⟨status, hstatus, rfl⟩ := buildReview_eq h
  obtain ⟨required, hrequired⟩ := Option.isSome_iff_exists.mp hm.approvalsRequired
  obtain ⟨rules, hrules⟩ := Option.isSome_iff_exists.mp hm.approvalRules
  obtain ⟨iteration, hiteration⟩ := Option.isSome_iff_exists.mp hm.iteration
  obtain ⟨url, hurl⟩ := Option.isSome_iff_exists.mp hm.diffWebUrl
  obtain ⟨files, hfiles⟩ := Option.isSome_iff_exists.mp hm.changedFiles
  have hdefined : status ≠ .undefined := by
    rw [approvalStatusOf_eq, hrules] at hstatus
    by_cases hnone : rules.length = 0
    · rw [Option.getD_some, if_neg (not_not.mpr hnone),
        if_pos ⟨hm.approvedBy, hm.approvalsRequired⟩] at hstatus
      cases hlength : (approvers.orElse (.arr [])).length with
      | error e =>
        rw [hlength] at hstatus
        cases hstatus
      | ok len =>
        rw [hlength] at hstatus
        obtain ⟨text, htext⟩ := deriveApprovalStatus_str len
          ((m.approvalsRequired.map JsValue.num).getD .undefined)
        have heq : deriveApprovalStatus len
            ((m.approvalsRequired.map JsValue.num).getD .undefined) = status :=
          Except.ok.inj hstatus
        rw [← heq, htext]
        exact JsValue.noConfusion
    · obtain ⟨text, htext⟩ := deriveApprovalStatusFromRules_ok rules
      rw [Option.getD_some, if_pos hnone, htext] at hstatus
      cases hstatus
      exact JsValue.noConfusion
  have hiteration' : JsValue.ofOption SyncIteration.toJs iteration ≠ .undefined := by
    cases iteration <;> exact JsValue.noConfusion
  rw [SyncMergeRequest.field_approvalsRequired, SyncMergeRequest.field_approvalRules,
    SyncMergeRequest.field_iteration, SyncMergeRequest.field_diffWebUrl,
    SyncMergeRequest.field_changedFiles, hrequired, hrules, hiteration, hurl, hfiles,
    given_of_ne hreviewers, given_of_ne happroved, given_of_ne hdefined]
  simp only [Option.map_some, Option.getD_some]
  rw [given_of_ne hiteration', given_of_ne JsValue.noConfusion, given_of_ne JsValue.noConfusion,
    given_of_ne JsValue.noConfusion, given_of_ne JsValue.noConfusion]
  rfl

/-- The mirror `ref` says what the record says. The list of approvers is the one the race guard
settles on in the state `before` that the record came to. -/
structure Says (env : Env) (bctx : BindingContext) (m : SyncMergeRequest) (ref : Ref)
    (before after : World) : Prop where
  core : ∀ k ∈ (buildCoreFromSyncMR m.toFields).map Prod.fst,
    after.mixinField ref MR_CORE_MIXIN k = (buildCoreFromSyncMR m.toFields).field k
  review : ∃ issue approvers review, before.docs.get? ref = some issue ∧
    resolvedApprovedBy issue before.now (some m.updatedAt)
      (personsOf env after.idmap bctx.workspaceUuid m.approvedBy) = .ok approvers ∧
    buildReviewFromSyncMR m.toFields
      (personsOf env after.idmap bctx.workspaceUuid m.reviewers) approvers = .ok review ∧
    (Complete m → review.map Prod.fst = reviewFields) ∧
    ∀ k ∈ review.map Prod.fst, after.mixinField ref MR_REVIEW_MIXIN_DOC k = review.field k
  reviewersKnown : AllKnown env after.idmap bctx.workspaceUuid m.reviewers
  approvedByKnown : AllKnown env after.idmap bctx.workspaceUuid m.approvedBy

section Says

variable {env : Env} {binding : BindingRef} {bctx : BindingContext} {m : SyncMergeRequest}
  {ref : Ref} {w w' : World}

/-- What leaves the two mixins and the users leaves what the mirror says. -/
theorem Says.kept {before : World} (h : Says env bctx m ref before w)
    (hcore : KeepsMixin MR_CORE_MIXIN w w') (hreview : KeepsMixin MR_REVIEW_MIXIN_DOC w w')
    (husers : KeepsUsers bctx.workspaceUuid w w') : Says env bctx m ref before w' := by
  obtain ⟨issue, approvers, review, hissue, hresolved, hbuilt, hkeys, hfields⟩ := h.review
  refine ⟨fun k hk => (hcore ref k).trans (h.core k hk), ⟨issue, approvers, review, hissue, ?_, ?_,
    hkeys, fun k hk => (hreview ref k).trans (hfields k hk)⟩, h.reviewersKnown.remembered husers,
    h.approvedByKnown.remembered husers⟩
  · rwa [h.approvedByKnown.personsOf_eq husers]
  · rwa [h.reviewersKnown.personsOf_eq husers]

theorem core_nodup (syncMR : Fields) : ((buildCoreFromSyncMR syncMR).map Prod.fst).Nodup := by
  simp [buildCoreFromSyncMR]

theorem core_unmarked (syncMR : Fields) :
    "_originated" ∉ (buildCoreFromSyncMR syncMR).map Prod.fst := by
  simp [buildCoreFromSyncMR]

/-- The list the race guard settles on is there when the record has one. -/
theorem resolvedApprovedBy_defined {issue : HulyDoc} {now : Nat} {remoteTs : JsDate}
    {approved approvers : JsValue} (hdefined : approved ≠ .undefined)
    (h : resolvedApprovedBy issue now remoteTs approved = .ok approvers) :
    approvers ≠ .undefined := by
  unfold resolvedApprovedBy at h
  rw [if_neg hdefined] at h
  generalize hlocal : (Fields.field (readMRMixinAttributes issue) "approvedBy").orElse (.arr []) =
    localApprovedBy at h
  dsimp only at h
  have hlocalDefined : localApprovedBy ≠ .undefined := by
    rw [← hlocal]
    cases Fields.field (readMRMixinAttributes issue) "approvedBy" <;> exact JsValue.noConfusion
  cases hl : localApprovedBy.length with
  | error e =>
    rw [hl] at h
    cases h
  | ok localLength =>
    rw [hl] at h
    cases hr : approved.length with
    | error e =>
      rw [hr] at h
      cases h
    | ok remoteLength =>
      rw [hr] at h
      change (if keepLocalApprovals (issue.attrs.field "modifiedOn") now remoteTs localLength
        remoteLength then Except.ok localApprovedBy else Except.ok approved) = .ok approvers at h
      split_ifs at h
      · cases h
        exact hlocalDefined
      · cases h
        exact hdefined

/-- The writes of an update leave the two mixins as the record has them. -/
theorem putMixins_shows {issue doc : HulyDoc} {r : RemoteMR} {remoteTs : JsDate}
    (hdoc : w.docs.get? ref = some doc)
    (h : (putMixins env ref issue m.toFields r remoteTs).run w = (.ok (), w')) :
    (∀ k ∈ (buildCoreFromSyncMR m.toFields).map Prod.fst,
      w'.mixinField ref MR_CORE_MIXIN k = (buildCoreFromSyncMR m.toFields).field k) ∧
    ∃ approvers review, resolvedApprovedBy issue w.now remoteTs r.approvedByUuids = .ok approvers ∧
      buildReviewFromSyncMR m.toFields r.reviewerUuids approvers = .ok review ∧
      ∀ k ∈ review.map Prod.fst, w'.mixinField ref MR_REVIEW_MIXIN_DOC k = review.field k := by
  unfold putMixins at h
  rw [gets_bind_run] at h
  obtain ⟨approvers, w₁, happrovers, hputs⟩ := bind_ok_iff.mp h
  obtain ⟨hresolved, rfl⟩ := ofExcept_ok_iff.mp happrovers
  obtain ⟨_, w₂, hcore, hrest⟩ := bind_ok_iff.mp hputs
  obtain ⟨review, w₃, hreview, hput⟩ := bind_ok_iff.mp hrest
  obtain ⟨hbuilt, rfl⟩ := ofExcept_ok_iff.mp hreview
  obtain ⟨⟨doc', hdoc'⟩, hshown⟩ :=
    putMixin_shows (core_nodup m.toFields) (core_unmarked m.toFields) hdoc hcore
  have hsublist := buildReview_sublist hbuilt
  have hnodup : (review.map Prod.fst).Nodup := hsublist.nodup (by decide)
  have hunmarked : "_originated" ∉ review.map Prod.fst := fun hmem =>
    absurd (hsublist.subset hmem) (by decide)
  unfold putReviewMixin at hput
  by_cases hempty : review = []
  · rw [if_pos hempty] at hput
    cases hput
    refine ⟨hshown, approvers, review, hresolved, hbuilt, fun k hk => ?_⟩
    rw [hempty] at hk
    exact absurd hk List.not_mem_nil
  · rw [if_neg hempty] at hput
    obtain ⟨-, hfields⟩ := putMixin_shows hnodup hunmarked hdoc' hput
    have hkeeps : KeepsMixin MR_CORE_MIXIN w₃ w' :=
      (keepsMixin_putMixin (by decide)).of_run hput
    exact ⟨fun k hk => (hkeeps ref k).trans (hshown k hk), approvers, review, hresolved, hbuilt,
      hfields⟩

theorem writeUpdate_ok {doc : HulyDoc} {update : Fields} {remoteTs : JsDate}
    (hdoc : w.docs.get? ref = some doc)
    (h : (writeUpdate env ref update remoteTs).run w = (.ok (), w')) :
    w'.now = w.now ∧ ∃ doc', w'.docs.get? ref = some doc' := by
  unfold writeUpdate at h
  by_cases hempty : update = []
  · rw [if_pos hempty] at h
    cases h
    exact ⟨rfl, doc, hdoc⟩
  · rw [if_neg hempty] at h
    obtain ⟨e, hrun⟩ | hrun := Sync.updateDoc_cases env
      (withOriginatedMarker (update.set "modifiedOn" (timeValue remoteTs))) hdoc
    · rw [hrun] at h
      cases h
    · rw [hrun] at h
      cases h
      exact ⟨rfl, _, OrderedMap.get?_set_self _ _ _⟩

theorem updateFromRemote_shows {issue : HulyDoc} {r : RemoteMR} {remoteTs : JsDate}
    (hdoc : w.docs.get? ref = some issue) (hclass : issue.objectClass = issueClass)
    (h : (updateFromRemote env binding bctx ref m.toFields r remoteTs).run w = (.ok (), w')) :
    (∀ k ∈ (buildCoreFromSyncMR m.toFields).map Prod.fst,
      w'.mixinField ref MR_CORE_MIXIN k = (buildCoreFromSyncMR m.toFields).field k) ∧
    ∃ approvers review, resolvedApprovedBy issue w.now remoteTs r.approvedByUuids = .ok approvers ∧
      buildReviewFromSyncMR m.toFields r.reviewerUuids approvers = .ok review ∧
      ∀ k ∈ review.map Prod.fst, w'.mixinField ref MR_REVIEW_MIXIN_DOC k = review.field k := by
  unfold updateFromRemote at h
  obtain ⟨found, w₁, hfind, hupdate⟩ := bind_ok_iff.mp h
  obtain ⟨hfound, rfl⟩ := Sync.findOne_ok env hfind
  rw [hdoc, Option.filter_some, if_pos (decide_eq_true hclass)] at hfound
  subst hfound
  dsimp only at hupdate
  -- which of the attributes are taken does not matter here
  generalize updateOperations env bctx issue.attrs m.toFields r remoteTs = update at hupdate
  obtain ⟨_, w₂, hwrite, hmixins⟩ := bind_ok_iff.mp hupdate
  obtain ⟨_, w₃, hputs, hcursor⟩ := bind_ok_iff.mp hmixins
  obtain ⟨hnow, doc, hdoc'⟩ := writeUpdate_ok hdoc hwrite
  obtain ⟨hcore, approvers, review, hresolved, hbuilt, hfields⟩ := putMixins_shows hdoc' hputs
  have hdocs : w'.docs = w₃.docs := by
    have hwrites : Writes [.cursors] (advanceCursor env binding .merge_requests
        (localTsOf (issue.attrs.field "modifiedOn")) remoteTs) :=
      Writes.advanceCursor env (by decide) _ _ _ _
    exact (hwrites.of_run hcursor).same .docs (by decide)
  rw [hnow] at hresolved
  exact ⟨fun k hk => (keepsMixin_of_docs hdocs ref k).trans (hcore k hk), approvers, review,
    hresolved, hbuilt, fun k hk => (keepsMixin_of_docs hdocs ref k).trans (hfields k hk)⟩

theorem resolveRecord_ok {r : RemoteMR}
    (h : (resolveRecord env bctx m.toFields).run w = (.ok r, w')) :
    AllKnown env w'.idmap bctx.workspaceUuid m.reviewers ∧
      AllKnown env w'.idmap bctx.workspaceUuid m.approvedBy ∧
      r.reviewerUuids = personsOf env w'.idmap bctx.workspaceUuid m.reviewers ∧
      r.approvedByUuids = personsOf env w'.idmap bctx.workspaceUuid m.approvedBy := by
  unfold resolveRecord at h
  rw [SyncMergeRequest.field_reviewers, SyncMergeRequest.field_approvedBy] at h
  obtain ⟨_, w₁, -, h₁⟩ := bind_ok_iff.mp h
  obtain ⟨_, w₂, -, h₂⟩ := bind_ok_iff.mp h₁
  obtain ⟨reviewers, w₃, hreviewers, h₃⟩ := bind_ok_iff.mp h₂
  obtain ⟨approvers, w₄, happroved, h₄⟩ := bind_ok_iff.mp h₃
  obtain ⟨hknown, rfl, -⟩ := resolveReviewerUuids_ok hreviewers
  obtain ⟨hknown', rfl, hr⟩ := resolveReviewerUuids_ok happroved
  obtain ⟨names, w₅, hnames, h₅⟩ := bind_ok_iff.mp h₄
  obtain ⟨-, hw₅⟩ := ofExcept_ok_iff.mp hnames
  rw [hw₅] at h₅
  obtain ⟨_, w₆, hlabels, h₆⟩ := bind_ok_iff.mp h₅
  obtain ⟨_, w₇, hmilestone, h₇⟩ := bind_ok_iff.mp h₆
  cases h₇
  have hsame : w'.idmap = w₄.idmap := by
    have hl : Writes [.docs] (LabelCache.resolveLocal env bctx.hulyProjectRef .new names) :=
      Writes.resolveLocal env (by decide) _ _ _
    have hm : Writes [.docs] (resolveMilestone env bctx.hulyProjectRef
        (m.toFields.field "milestone")) := resolveMilestone_writes env (by decide) _ _
    have hlabelled : w₆.idmap = w₄.idmap := (hl.of_run hlabels).same .idmap (by decide)
    have hplanned : w'.idmap = w₆.idmap := (hm.of_run hmilestone).same .idmap (by decide)
    exact hplanned.trans hlabelled
  rw [hsame]
  exact ⟨hknown.remembered hr, hknown', (hknown.personsOf_eq hr).symm, rfl⟩

/-- A mapped mirror says what the record says that was applied to it, whatever it said before. -/
theorem applyRemote_says (hload : env.loadBinding binding = .ok bctx) {row : IdMapDoc}
    {issue : HulyDoc}
    (hrow : w.idmap.findByGitlab bctx.workspaceUuid .merge_request
      (projectKey env bctx (.num m.iid)) = some row)
    (hdoc : w.docs.get? row.hulyRef = some issue) (hclass : issue.objectClass = issueClass)
    (h : (applyRemote env binding m.toFields).run w = (.ok (), w')) :
    Says env bctx m row.hulyRef w w' := by
  unfold applyRemote Sync.loadBinding at h
  rw [hload, ofExcept_ok_bind] at h
  dsimp only at h
  rw [SyncMergeRequest.field_iid, SyncMergeRequest.field_updatedAt, JsValue.getTime_date] at h
  obtain ⟨existing, w₁, hfind, hresolve⟩ := bind_ok_iff.mp h
  obtain ⟨rfl, lookups, rfl⟩ := Sync.findByGitlab_ok env hfind
  obtain ⟨r, w₂, hrun, hupdate⟩ := bind_ok_iff.mp hresolve
  rw [hrow] at hupdate
  obtain ⟨hreviewers, happroved, hreviewersEq, happrovedEq⟩ := resolveRecord_ok hrun
  have hdoc' : w₂.docs.get? row.hulyRef = some issue :=
    ((ApprovalStatus.grows_resolveRecord env bctx m.toFields).of_run hrun).kept _ _ hdoc
  have hnow : w₂.now = w.now := ((resolveRecord_writes env bctx m.toFields).of_run hrun).now
  obtain ⟨hcore, approvers, review, hresolved, hbuilt, hfields⟩ :=
    updateFromRemote_shows hdoc' hclass hupdate
  have hwrites : Writes [.docs, .cursors] (updateFromRemote env binding bctx row.hulyRef
      m.toFields r (some m.updatedAt)) :=
    updateFromRemote_writes env (by decide) (by decide) _ _ _ _ _ _
  have hidmap : w'.idmap = w₂.idmap := (hwrites.of_run hupdate).same .idmap (by decide)
  rw [hreviewersEq, ← hidmap] at hbuilt
  rw [happrovedEq, ← hidmap, hnow] at hresolved
  rw [← hidmap] at hreviewers happroved
  refine ⟨hcore, ⟨issue, approvers, review, hdoc, hresolved, hbuilt, fun hm => ?_, hfields⟩,
    hreviewers, happroved⟩
  obtain ⟨reviewerUsers, hreviewerUsers⟩ := Option.isSome_iff_exists.mp hm.reviewers
  obtain ⟨approverUsers, happroverUsers⟩ := Option.isSome_iff_exists.mp hm.approvedBy
  rw [hreviewerUsers] at hbuilt
  rw [happroverUsers] at hresolved
  exact buildReview_complete hm JsValue.noConfusion
    (resolvedApprovedBy_defined JsValue.noConfusion hresolved) hbuilt

end Says

end MergeRequests

/-! ### What the messages of a thread show -/

namespace Reviews

section Thread

variable {env : Env} {binding : BindingRef} {bctx : BindingContext} {t : SyncReviewThread}
  {n : SyncReviewNote} {ref : Ref} {w w' : World}

/-- The message shows the state the record has of its thread. -/
def ShowsState (env : Env) (t : SyncReviewThread) (ref : Ref) (w : World) : Prop :=
  ∀ k ∈ (stateOf env t).attributes.map Prod.fst,
    w.mixinField ref MR_REVIEW_THREAD_MIXIN k = (stateOf env t).attributes.field k

/-- The note has no row yet, or a message behind it. -/
def Attached (bctx : BindingContext) (t : SyncReviewThread) (n : SyncReviewNote) (w : World) :
    Prop :=
  ∀ row, w.idmap.findByGitlab bctx.workspaceUuid .review_thread (keyOf t n) = some row →
    ∃ doc, w.docs.get? row.hulyRef = some doc

/-- The note has a message, which shows the state of the thread. -/
def Told (env : Env) (bctx : BindingContext) (t : SyncReviewThread) (n : SyncReviewNote)
    (w : World) : Prop :=
  ∃ row doc, w.idmap.findByGitlab bctx.workspaceUuid .review_thread (keyOf t n) = some row ∧
    w.docs.get? row.hulyRef = some doc ∧ ShowsState env t row.hulyRef w

theorem unmarked_mixinAttributes (thread : ThreadState) (note rootNoteId : JsValue) :
    "_originated" ∉ (mixinAttributes thread note rootNoteId).map Prod.fst := by
  unfold mixinAttributes ThreadState.attributes given
  split_ifs <;> simp

/-- The attributes of a message begin with the state of the thread. -/
theorem state_attributesOf (n : SyncReviewNote) {k : String}
    (hk : k ∈ (stateOf env t).attributes.map Prod.fst) :
    k ∈ (attributesOf env t n).map Prod.fst ∧
      (attributesOf env t n).field k = (stateOf env t).attributes.field k := by
  obtain ⟨kv, hmem, rfl⟩ := List.mem_map.mp hk
  have hmem' : kv ∈ attributesOf env t n := List.mem_append_left _ hmem
  have hnodup : ((attributesOf env t n).map Prod.fst).Nodup := nodup_mixinAttributes _ _ _
  have hnodup' : ((stateOf env t).attributes.map Prod.fst).Nodup := by
    rw [attributesOf, mixinAttributes, List.map_append] at hnodup
    exact (List.nodup_append.mp hnodup).1
  refine ⟨List.mem_map_of_mem hmem', ?_⟩
  rw [Fields.field_of_mem hnodup hmem', Fields.field_of_mem hnodup' hmem]

/-- A write of the attributes shows the state of the thread, on any message that is there. -/
theorem putMixin_tells {doc : HulyDoc} (hdoc : w.docs.get? ref = some doc)
    (h : (Sync.putMixin env ref MR_REVIEW_THREAD_MIXIN
      (withOriginatedMarker (attributesOf env t n))).run w = (.ok (), w')) :
    (∃ doc', w'.docs.get? ref = some doc') ∧ ShowsState env t ref w' := by
  obtain ⟨hdoc', hshown⟩ := putMixin_shows (nodup_mixinAttributes _ _ _)
    (unmarked_mixinAttributes _ _ _) hdoc h
  refine ⟨hdoc', fun k hk => ?_⟩
  obtain ⟨hmem, hfield⟩ := state_attributesOf n hk
  rw [hshown k hmem, ← hfield]
  rfl

/-- A message that shows the state still does when it is written to another one, or to it again. -/
theorem putMixin_keeps {other : Ref} (hshows : ShowsState env t ref w)
    (h : (Sync.putMixin env other MR_REVIEW_THREAD_MIXIN
      (withOriginatedMarker (attributesOf env t n))).run w = (.ok (), w')) :
    ShowsState env t ref w' := by
  cases hdoc : w.docs.get? other with
  | none =>
    obtain ⟨e, hrun⟩ | hrun := Sync.putMixin_cases_of_none env MR_REVIEW_THREAD_MIXIN
      (withOriginatedMarker (attributesOf env t n)) hdoc
    · rw [hrun] at h
      cases h
    · rw [hrun] at h
      cases h
      exact hshows
  | some doc =>
    by_cases href : ref = other
    · rw [href]
      exact (putMixin_tells hdoc h).2
    · obtain ⟨e, hrun⟩ | hrun := Sync.putMixin_cases env MR_REVIEW_THREAD_MIXIN
        (withOriginatedMarker (attributesOf env t n)) hdoc
      · rw [hrun] at h
        cases h
      · rw [hrun] at h
        cases h
        intro k hk
        rw [World.mixinField_set rfl, if_neg href]
        exact hshows k hk

theorem keepsMixin_putMessage (mixin : String) (existing : Option IdMapDoc) (key : String)
    (parentRef : Ref) (message author : JsValue) (createdAt updatedAt : JsDate) :
    Effect.Within (KeepsMixin mixin)
      (putMessage env bctx existing key parentRef message author createdAt updatedAt) := by
  have hwriting : Writing env Marks noMixins
      (Awaits.putMessage env bctx existing key parentRef message author createdAt updatedAt) := by
    cases existing with
    | none => exact Awaits.writing_createMessage env bctx _ _ _ _ _ _
    | some row =>
      exact Coroutine.Always.bind (Awaits.writing_updateMessage env _ _ _ _) fun _ =>
        Coroutine.Always.pure _
  rw [← Awaits.toEffect_putMessage]
  exact keepsMixin_of_writing (fun _ h => h) hwriting

/-- A message that was put is there, under the row of its note. -/
theorem putMessage_ok {existing : Option IdMapDoc} {key : String} {parentRef : Ref}
    {message author : JsValue} {createdAt updatedAt : JsDate}
    (hexisting : existing = w.idmap.findByGitlab bctx.workspaceUuid .review_thread key)
    (hattached : ∀ row, existing = some row → ∃ doc, w.docs.get? row.hulyRef = some doc)
    (h : (putMessage env bctx existing key parentRef message author createdAt updatedAt).run w =
      (.ok ref, w')) :
    ∃ row doc, w'.idmap.findByGitlab bctx.workspaceUuid .review_thread key = some row ∧
      row.hulyRef = ref ∧ w'.docs.get? ref = some doc := by
  unfold putMessage at h
  cases existing with
  | none =>
    dsimp only [createMessage] at h
    obtain ⟨created, w₁, hcreate, hmap⟩ := bind_ok_iff.mp h
    obtain ⟨_, w₂, hupsert, hpure⟩ := bind_ok_iff.mp hmap
    cases hpure
    obtain ⟨e, hrun⟩ | hrun := Sync.createDoc_cases env chatMessageClass bctx.hulyProjectRef
      (Notes.messageAttributes parentRef message author createdAt updatedAt) w
    · rw [hrun] at hcreate
      cases hcreate
    · rw [hrun] at hcreate
      cases hcreate
      obtain ⟨e, hrun'⟩ | ⟨idmap, hup, hrun'⟩ := Sync.upsertIdMap_cases env
        ⟨bctx.workspaceUuid, .review_thread, key, HULY_CLASS_CHAT_MESSAGE,
          env.generateId w.docs.keys⟩ _
      · rw [hrun'] at hupsert
        cases hupsert
      · rw [hrun'] at hupsert
        cases hupsert
        exact ⟨_, _, IdMap.findByGitlab_of_upsert_self hup, rfl, OrderedMap.get?_set_self _ _ _⟩
  | some row =>
    dsimp only at h
    obtain ⟨_, w₁, hupdate, hpure⟩ := bind_ok_iff.mp h
    cases hpure
    obtain ⟨doc, hdoc⟩ := hattached row rfl
    have hedits : Edits bctx w w' :=
      (Editing.updateMessage_thread env row.hulyRef message author updatedAt).of_run hupdate
    obtain ⟨doc', hdoc', -⟩ := hedits.docs _ doc hdoc
    exact ⟨row, doc', by rw [hedits.findByGitlab (by decide), ← hexisting], rfl, hdoc'⟩

/-- A round of the loop over the notes ends in the write of the mixin. -/
theorem applyThreadNote_ok {parentRef : Ref} (huser : n.system = false)
    (h : (applyThreadNote env bctx parentRef (stateOf env t) (rootOf t) (.obj n.toFields)).run w =
      (.ok (), w')) :
    (Attached bctx t n w → Told env bctx t n w') ∧
      ∀ other, ShowsState env t other w → ShowsState env t other w' := by
  have htruthy : (JsValue.bool n.system).truthy = n.system := rfl
  have hkey : noteIdmapKey (stateOf env t).threadId ((JsValue.obj n.toFields).get "id") =
      keyOf t n := by
    rw [JsValue.get_obj, SyncReviewNote.field_id]
    rfl
  unfold applyThreadNote at h
  rw [JsValue.prop_obj, SyncReviewNote.field_system, ofExcept_ok_bind, htruthy, huser,
    if_neg Bool.false_ne_true] at h
  dsimp only at h
  rw [hkey] at h
  obtain ⟨existing, w₁, hfind, h₁⟩ := bind_ok_iff.mp h
  obtain ⟨hexisting, lookups, rfl⟩ := Sync.findByGitlab_ok env hfind
  obtain ⟨body, w₂, hbody, h₂⟩ := bind_ok_iff.mp h₁
  obtain ⟨-, rfl⟩ := ofExcept_ok_iff.mp hbody
  obtain ⟨author, w₃, hauthor, h₃⟩ := bind_ok_iff.mp h₂
  obtain ⟨created, w₄, hcreated, h₄⟩ := bind_ok_iff.mp h₃
  obtain ⟨-, rfl⟩ := ofExcept_ok_iff.mp hcreated
  obtain ⟨updated, w₅, hupdated, h₅⟩ := bind_ok_iff.mp h₄
  obtain ⟨-, rfl⟩ := ofExcept_ok_iff.mp hupdated
  obtain ⟨ref, w₆, hmessage, hput⟩ := bind_ok_iff.mp h₅
  let asked : World := { w with lookups := lookups }
  have hedits : Edits bctx asked w₅ := (Editing.resolveUser env _).of_run hauthor
  have hdocs : w₅.docs = w.docs := by
    have hwrites : Writes [.idmap, .lookups] (UserIdentity.resolveUser env bctx.workspaceUuid
        ((JsValue.obj n.toFields).get "author")) :=
      Writes.resolveUser env (by decide) (by decide) _ _
    exact (hwrites.of_run hauthor).same .docs (by decide)
  have hfound : existing = w₅.idmap.findByGitlab bctx.workspaceUuid .review_thread (keyOf t n) := by
    rw [hedits.findByGitlab (by decide), hexisting]
  constructor
  · intro hattached
    obtain ⟨row, doc, hrow, hrowRef, hdoc⟩ := putMessage_ok hfound (fun row heq => by
      rw [hdocs]
      exact hattached row (hexisting ▸ heq)) hmessage
    obtain ⟨⟨doc', hdoc'⟩, hshows⟩ := putMixin_tells (t := t) (n := n) hdoc hput
    have hwrites : Writes [.docs] (Sync.putMixin env ref MR_REVIEW_THREAD_MIXIN
        (withOriginatedMarker (attributesOf env t n))) := Writes.putMixin env (by decide) _ _ _
    have hidmap : w'.idmap = w₆.idmap := (hwrites.of_run hput).same .idmap (by decide)
    refine ⟨row, doc', ?_, ?_, ?_⟩
    · rw [hidmap, hrow]
    · rw [hrowRef, hdoc']
    · rw [hrowRef]
      exact hshows
  · intro other hother
    have hresolved : KeepsMixin MR_REVIEW_THREAD_MIXIN w w₅ := keepsMixin_of_docs hdocs
    have hmessages : KeepsMixin MR_REVIEW_THREAD_MIXIN w₅ w₆ :=
      (keepsMixin_putMessage _ _ _ _ _ _ _ _).of_run hmessage
    refine putMixin_keeps (n := n) (fun k hk => ?_) hput
    exact ((hmessages other k).trans (hresolved other k)).trans (hother k hk)

/-- New rows of notes point at new messages, and no message goes away. -/
theorem Attached.grows {m : Mirror} (h : Attached bctx t n w) (hgrows : Grows m bctx w w') :
    Attached bctx t n w' := by
  intro row hrow
  obtain ⟨hmem, hkey⟩ := IdMap.findByGitlab_eq_some_iff.mp hrow
  obtain hold | hguest | ⟨o, -, ref, doc, rfl, -, hdoc, -⟩ := hgrows.fresh row hmem
  · obtain ⟨doc, hdoc⟩ := h row (IdMap.findByGitlab_eq_some_iff.mpr ⟨hold, hkey⟩)
    obtain ⟨doc', hdoc', -⟩ := hgrows.docs _ doc hdoc
    exact ⟨doc', hdoc'⟩
  · have hkind : row.gitlabKind = .review_thread := congrArg (fun key => key.2.1) hkey
    rw [hguest.1] at hkind
    cases hkind
  · exact ⟨doc, hdoc⟩

theorem Told.grows {m : Mirror} (h : Told env bctx t n w) (hgrows : Grows m bctx w w')
    (hkeeps : ∀ ref, ShowsState env t ref w → ShowsState env t ref w') :
    Told env bctx t n w' := by
  obtain ⟨row, doc, hrow, hdoc, hshows⟩ := h
  obtain ⟨hmem, hkey⟩ := IdMap.findByGitlab_eq_some_iff.mp hrow
  have hkind : row.gitlabKind = .review_thread := congrArg (fun key => key.2.1) hkey
  have hrow' : row ∈ w'.idmap.rows := hgrows.rows row hmem (by rw [hkind]; decide)
  obtain ⟨doc', hdoc', -⟩ := hgrows.docs _ doc hdoc
  exact ⟨row, doc', IdMap.findByGitlab_eq_some_iff.mpr ⟨hrow', hkey⟩, hdoc', hkeeps _ hshows⟩

/-- After the loop every note has a message that shows the state of the thread. -/
theorem forEach_applyThreadNote_ok {parentRef : Ref} {notes : List SyncReviewNote}
    (hnotes : ∀ n ∈ notes, n ∈ t.notes)
    (h : (Effect.forEach (applyThreadNote env bctx parentRef (stateOf env t) (rootOf t))
      (notes.map fun n => .obj n.toFields)).run w = (.ok (), w')) :
    (∀ n ∈ notes, n.system = false → Attached bctx t n w → Told env bctx t n w') ∧
      ∀ n, Told env bctx t n w → Told env bctx t n w' := by
  induction notes generalizing w with
  | nil =>
    cases h
    exact ⟨fun n hn => absurd hn List.not_mem_nil, fun _ htold => htold⟩
  | cons n notes ih =>
    rw [List.map_cons, forEach_cons] at h
    obtain ⟨_, w₁, hround, hrest⟩ := bind_ok_iff.mp h
    have hgrows : Grows (mirror env t) bctx w w₁ := by
      have hrun : Grows (mirror env t) bctx w ((applyThreadNote env bctx parentRef (stateOf env t)
          (rootOf t) (.obj n.toFields)).run w).2 :=
        (mirroring_applyThreadNote env t (hnotes n List.mem_cons_self) parentRef (stateOf env t)
          (rootOf t) rfl w).1
      rwa [hround] at hrun
    have hround' : (n.system = false → Attached bctx t n w → Told env bctx t n w₁) ∧
        ∀ other, ShowsState env t other w → ShowsState env t other w₁ := by
      by_cases huser : n.system = false
      · have hok := applyThreadNote_ok huser hround
        exact ⟨fun _ => hok.1, hok.2⟩
      · have hsystem : n.system = true := by simpa using huser
        have hskip : (applyThreadNote env bctx parentRef (stateOf env t) (rootOf t)
            (.obj n.toFields)).run w = (.ok (), w) := by
          unfold applyThreadNote
          rw [JsValue.prop_obj, SyncReviewNote.field_system, ofExcept_ok_bind, hsystem]
          rfl
        rw [hskip] at hround
        cases hround
        exact ⟨fun hn => absurd hn huser, fun _ hother => hother⟩
    obtain ⟨hall, hkeep⟩ := ih (fun a ha => hnotes a (List.mem_cons_of_mem n ha)) hrest
    refine ⟨fun a ha huser hattached => ?_, fun a htold => hkeep a (htold.grows hgrows hround'.2)⟩
    obtain rfl | ha := List.mem_cons.mp ha
    · exact hkeep a (hround'.1 huser hattached)
    · exact hall a ha huser (hattached.grows hgrows)

theorem resolvedByOf_ok {v : JsValue}
    (h : (resolvedByOf env (.ofOption SyncUser.toJs t.resolvedBy)).run w = (.ok v, w')) :
    v = resolverOf env t.resolvedBy ∧ w' = w := by
  unfold resolvedByOf at h
  cases hresolver : t.resolvedBy with
  | none =>
    rw [hresolver] at h
    cases h
    exact ⟨rfl, rfl⟩
  | some u =>
    have hdefined : u.toJs ≠ .null := JsValue.noConfusion
    rw [hresolver, JsValue.ofOption_some, if_neg hdefined, resolvePerson,
      Issues.identityOf_toJs, ofExcept_ok_bind] at h
    obtain ⟨matched, w₁, hmatched, hpure⟩ := bind_ok_iff.mp h
    obtain ⟨rfl, rfl⟩ := mapByGitlabUser_ok (Issues.identity_email u) hmatched
    cases hpure
    exact ⟨rfl, rfl⟩

/-- The messages of a thread show the state the record has that was applied, whatever they showed
before. -/
theorem applyRemote_told (hload : env.loadBinding binding = .ok bctx) {parent : IdMapDoc}
    (hparent : w.idmap.findByGitlab bctx.workspaceUuid .merge_request
      (projectKey env bctx (.num t.mergeRequestIid)) = some parent)
    (hn : n ∈ t.notes) (huser : n.system = false) (hattached : Attached bctx t n w)
    (h : (applyRemote env binding t.toFields).run w = (.ok (), w')) : Told env bctx t n w' := by
  unfold applyRemote Sync.loadBinding findParent at h
  rw [hload, ofExcept_ok_bind, SyncReviewThread.field_mergeRequestIid] at h
  obtain ⟨found, w₁, hfind, hmapped⟩ := bind_ok_iff.mp h
  obtain ⟨rfl, lookups, rfl⟩ := Sync.findByGitlab_ok env hfind
  rw [hparent] at hmapped
  dsimp only [applyMapped] at hmapped
  rw [SyncReviewThread.field_resolvedBy, SyncReviewThread.field_resolvedAt,
    SyncReviewThread.field_notes, SyncReviewThread.field_discussionId,
    SyncReviewThread.field_resolved] at hmapped
  obtain ⟨resolvedBy, w₂, hby, h₂⟩ := bind_ok_iff.mp hmapped
  obtain ⟨rfl, rfl⟩ := resolvedByOf_ok hby
  obtain ⟨resolvedAt, w₃, hat, h₃⟩ := bind_ok_iff.mp h₂
  obtain ⟨hat, rfl⟩ := ofExcept_ok_iff.mp hat
  have hat' : resolvedAt = (stateOf env t).resolvedAt := by
    unfold resolvedAtOf at hat
    unfold stateOf
    cases hdate : t.resolvedAt with
    | none =>
      rw [hdate] at hat
      cases hat
      rfl
    | some ms =>
      rw [hdate] at hat
      cases hat
      rfl
  rw [JsValue.elements_arr, ofExcept_ok_bind] at h₃
  obtain ⟨_, w₄, hloop, hcursor⟩ := bind_ok_iff.mp h₃
  have hloop' : (Effect.forEach (applyThreadNote env bctx parent.hulyRef (stateOf env t) (rootOf t))
      (t.notes.map fun n => .obj n.toFields)).run { w with lookups := lookups } =
        (.ok (), w₄) := by
    rw [← rootOf_elements, ← hloop, hat']
    rfl
  have htold : Told env bctx t n w₄ :=
    (forEach_applyThreadNote_ok (fun _ hn => hn) hloop').1 n hn huser hattached
  have hwrites : Writes [.cursors] (Sync.setCursor env binding .reviews
      (t.toFields.field "updatedAt").getTime) := Writes.setCursor env (by decide) _ _ _
  have hframe := hwrites.of_run hcursor
  obtain ⟨row, doc, hrow, hdoc, hshows⟩ := htold
  have hidmap : w'.idmap = w₄.idmap := hframe.same .idmap (by decide)
  have hdocs : w'.docs = w₄.docs := hframe.same .docs (by decide)
  exact ⟨row, doc, by rw [hidmap, hrow], by rw [hdocs, hdoc], fun k hk =>
    (keepsMixin_of_docs hdocs _ k).trans (hshows k hk)⟩

theorem remembering_applyThreadNote (parentRef : Ref) (thread : ThreadState)
    (rootNoteId note : JsValue) :
    Remembering bctx.workspaceUuid
      (applyThreadNote env bctx parentRef thread rootNoteId note) := by
  refine Remembering.bind (Remembering.ofExcept _) fun system => ?_
  refine Effect.Within.ite (fun _ => Remembering.pure _) fun _ => ?_
  refine Remembering.bind (Remembering.findByGitlab _ _) fun existing => ?_
  refine Remembering.bind (Remembering.ofExcept _) fun body => ?_
  refine Remembering.bind (Remembering.resolveUser _) fun author => ?_
  refine Remembering.bind (Remembering.ofExcept _) fun _ => ?_
  refine Remembering.bind (Remembering.ofExcept _) fun _ => ?_
  refine Remembering.bind ?_ fun ref => Remembering.of_writes
    (Writes.putMixin env (List.mem_singleton_self _) _ _ _) (by decide)
  cases existing with
  | none =>
    refine Remembering.bind (Remembering.of_writes
      (Writes.createDoc env (List.mem_singleton_self _) _ _ _) (by decide)) fun ref => ?_
    refine Remembering.bind (fun w => Remembering.upsertIdMap fun hkind => ?_) fun _ =>
      Remembering.pure _
    cases hkind
  | some row =>
    refine Remembering.bind (Remembering.bind (Remembering.of_writes
      (Writes.findOne env _ _) List.not_mem_nil) fun message => ?_) fun _ => Remembering.pure _
    exact Effect.Within.ite (fun _ => Remembering.of_writes
      (Writes.updateDoc env (List.mem_singleton_self _) _ _) (by decide)) fun _ =>
        Remembering.pure _

theorem remembering_applyRemote (hload : env.loadBinding binding = .ok bctx)
    (syncThread : Fields) :
    Remembering bctx.workspaceUuid (applyRemote env binding syncThread) := by
  unfold applyRemote Sync.loadBinding findParent
  rw [hload, ofExcept_ok_bind]
  refine Remembering.bind (Remembering.findByGitlab _ _) fun parent => ?_
  cases parent with
  | none =>
    dsimp only [deferThread]
    cases markAndRetry syncThread REVIEW_RETRY_FLAG with
    | none => exact Remembering.pure _
    | some marked =>
      exact Remembering.bind (Remembering.ofExcept _) fun _ => Remembering.of_writes
        (Writes.enqueueRecord (List.mem_singleton_self _) _) (by decide)
  | some row =>
    have hby : Writes [] (resolvedByOf env (syncThread.field "resolvedBy")) :=
      Writes.ite (Writes.pure _) (Writes.bind (Writes.ofExcept _) fun _ =>
        Writes.bind (Writes.mapByGitlabUser env _) fun _ => Writes.pure _)
    refine Remembering.bind (Remembering.of_writes hby List.not_mem_nil) fun _ => ?_
    refine Remembering.bind (Remembering.ofExcept _) fun _ => ?_
    refine Remembering.bind (Remembering.ofExcept _) fun notes => ?_
    refine Remembering.bind ?_ fun _ => Remembering.of_writes
      (Writes.setCursor env (List.mem_singleton_self _) _ _ _) (by decide)
    exact Effect.Within.forEach (KeepsUsers.refl _) (KeepsUsers.trans _) fun note _ =>
      remembering_applyThreadNote _ _ _ note

end Thread

end Reviews

/-! ### Runs of deliveries -/

/-- A record of a merge request or of a thread, as it is delivered. -/
inductive Delivery
  | mergeRequest (m : SyncMergeRequest)
  | thread (t : SyncReviewThread)
  deriving DecidableEq

namespace Delivery

def apply (env : Env) (binding : BindingRef) : Delivery → Sync Unit
  | mergeRequest m => MergeRequests.applyRemote env binding m.toFields
  | thread t => Reviews.applyRemote env binding t.toFields

/-- The record is one of the merge request, or of the thread of it. -/
def Concerns (iid : Int) (discussionId : String) : Delivery → Prop
  | mergeRequest m => m.iid = iid
  | thread t => t.mergeRequestIid = iid ∧ t.discussionId = discussionId

def IsThread : Delivery → Prop
  | mergeRequest _ => False
  | thread _ => True

end Delivery

/-- Deliveries one after the other, each of which returns; time passes in between. -/
inductive Delivered (env : Env) (binding : BindingRef) : List Delivery → World → World → Prop
  | nil (w : World) : Delivered env binding [] w w
  | cons {d : Delivery} {ds : List Delivery} {w w₁ w₂ : World} (now : Nat)
      (first : (d.apply env binding).run { w with now := now } = (.ok (), w₁))
      (rest : Delivered env binding ds w₁ w₂) : Delivered env binding (d :: ds) w w₂

/-- The merge request is mirrored by the document. -/
structure MappedTo (env : Env) (bctx : BindingContext) (iid : Int) (ref : Ref) (w : World) :
    Prop where
  row : ∃ row, w.idmap.findByGitlab bctx.workspaceUuid .merge_request
    (projectKey env bctx (.num iid)) = some row ∧ row.hulyRef = ref
  doc : ∃ issue, w.docs.get? ref = some issue ∧ issue.objectClass = issueClass

section Runs

variable {env : Env} {binding : BindingRef} {bctx : BindingContext} {iid : Int}
  {discussionId : String} {ref : Ref} {w w' : World}

theorem MappedTo.grows {m : Mirror} (h : MappedTo env bctx iid ref w)
    (hgrows : Grows m bctx w w') : MappedTo env bctx iid ref w' := by
  obtain ⟨row, hrow, href⟩ := h.row
  obtain ⟨hmem, hkey⟩ := IdMap.findByGitlab_eq_some_iff.mp hrow
  have hkind : row.gitlabKind = .merge_request := congrArg (fun key => key.2.1) hkey
  have hrow' : row ∈ w'.idmap.rows := hgrows.rows row hmem (by rw [hkind]; decide)
  obtain ⟨issue, hissue, hclass⟩ := h.doc
  obtain ⟨issue', hissue', hext⟩ := hgrows.docs _ issue hissue
  exact ⟨⟨row, IdMap.findByGitlab_eq_some_iff.mpr ⟨hrow', hkey⟩, href⟩, issue', hissue',
    hext.objectClass.trans hclass⟩

/-- A delivery, complete or not, only lets the mirrors grow. -/
theorem Delivery.growing (hload : env.loadBinding binding = .ok bctx) (d : Delivery) (w : World) :
    ∃ m : Mirror, Grows m bctx w ((d.apply env binding).run w).2 := by
  cases d with
  | mergeRequest m => exact ⟨_, (MergeRequests.mirroring env hload m w).1⟩
  | thread t => exact ⟨_, Reviews.growing env hload t w⟩

/-- Whatever survives growth survives deliveries. -/
theorem Delivered.induct_grows (hload : env.loadBinding binding = .ok bctx) {P : World → Prop}
    (hgrows : ∀ (m : Mirror) w w', Grows m bctx w w' → P w → P w')
    (htime : ∀ w now, P w → P { w with now := now }) {ds : List Delivery}
    (h : Delivered env binding ds w w') (hP : P w) : P w' := by
  induction h with
  | nil w => exact hP
  | @cons d ds w w₁ w₂ now first rest ih =>
    obtain ⟨m, hm⟩ := d.growing hload { w with now := now }
    rw [first] at hm
    exact ih (hgrows m _ _ hm (htime w now hP))

theorem Delivered.append {before after : List Delivery} {d : Delivery}
    (h : Delivered env binding (before ++ d :: after) w w') :
    ∃ w₁ w₂ now, Delivered env binding before w w₁ ∧
      (d.apply env binding).run { w₁ with now := now } = (.ok (), w₂) ∧
      Delivered env binding after w₂ w' := by
  induction before generalizing w with
  | nil =>
    cases h with
    | cons now first rest => exact ⟨w, _, now, .nil w, first, rest⟩
  | cons b before ih =>
    cases h with
    | cons now first rest =>
      obtain ⟨w₁, w₂, now', hbefore, hd, hafter⟩ := ih rest
      exact ⟨w₁, w₂, now', .cons now first hbefore, hd, hafter⟩

/-- Deliveries of threads leave what the mirror of the merge request says. -/
theorem MergeRequests.Says.after_threads (hload : env.loadBinding binding = .ok bctx)
    {m : SyncMergeRequest} {before : World} {ds : List Delivery} (hds : ∀ d ∈ ds, d.IsThread)
    (h : Delivered env binding ds w w') (hshown : Says env bctx m ref before w) :
    Says env bctx m ref before w' := by
  induction h with
  | nil w => exact hshown
  | @cons d ds w w₁ w₂ now first rest ih =>
    refine ih (fun a ha => hds a (List.mem_cons_of_mem d ha)) ?_
    cases d with
    | mergeRequest m => exact absurd (hds _ List.mem_cons_self) id
    | thread t =>
      have hwithin : ∀ mixin, mixin ≠ MR_REVIEW_THREAD_MIXIN →
          KeepsMixin mixin { w with now := now } w₁ := fun mixin hne => by
        have hkeeps : Effect.Within (KeepsMixin mixin)
            (Reviews.applyRemote env binding t.toFields) := by
          rw [← Reviews.Awaits.toEffect_applyRemote]
          exact keepsMixin_of_writing (fun _ h => hne h)
            (Reviews.Awaits.writing_applyRemote env binding t.toFields)
        exact hkeeps.of_run first
      exact (Says.kept (w := { w with now := now })
        ⟨hshown.core, hshown.review, hshown.reviewersKnown, hshown.approvedByKnown⟩
        (hwithin _ (by decide)) (hwithin _ (by decide))
        ((Reviews.remembering_applyRemote hload t.toFields).of_run first))

/-- Deliveries of merge requests leave what the messages of the thread show. -/
theorem Reviews.Told.after_mergeRequests (hload : env.loadBinding binding = .ok bctx)
    {t : SyncReviewThread} {n : SyncReviewNote} {ds : List Delivery}
    (hds : ∀ d ∈ ds, ¬ d.IsThread) (h : Delivered env binding ds w w')
    (htold : Told env bctx t n w) : Told env bctx t n w' := by
  induction h with
  | nil w => exact htold
  | @cons d ds w w₁ w₂ now first rest ih =>
    refine ih (fun a ha => hds a (List.mem_cons_of_mem d ha)) ?_
    cases d with
    | thread t => exact absurd trivial (hds _ List.mem_cons_self)
    | mergeRequest m =>
      have hkeeps : Effect.Within (KeepsMixin MR_REVIEW_THREAD_MIXIN)
          (MergeRequests.applyRemote env binding m.toFields) := by
        rw [← MergeRequests.Awaits.toEffect_applyRemote]
        refine keepsMixin_of_writing (fun attributes hmixin => ?_)
          (MergeRequests.Awaits.writing_applyRemote env binding m.toFields)
        obtain ⟨hname, -⟩ | ⟨hname, -⟩ := hmixin
        · exact absurd hname (by decide)
        · exact absurd hname (by decide)
      have hgrows := (MergeRequests.mirroring env hload m { w with now := now }).1
      rw [show (MergeRequests.applyRemote env binding m.toFields).run { w with now := now } =
        (.ok (), w₁) from first] at hgrows
      exact Told.grows (w := { w with now := now }) htold hgrows fun ref hshows k hk =>
        (hkeeps.of_run first ref k).trans (hshows k hk)

end Runs

section Examples

/-- A complete record of a merge request with nobody on it. -/
def reviewedRecord (updatedAt : Nat) (draft : Bool) : SyncMergeRequest where
  iid := 5
  projectId := 7
  title := "t"
  description := ""
  state := .opened
  draft := draft
  sourceBranch := "s"
  targetBranch := "main"
  mergeStatus := .can_be_merged
  mergedAt := none
  pipelineStatus := none
  labels := []
  milestone := none
  assignees := []
  author := ⟨1, "ann", "Ann", none, none, ""⟩
  createdAt := 1
  updatedAt := updatedAt
  webUrl := ""
  confidential := false
  reviewers := some []
  approvedBy := some []
  approvalsRequired := some 1
  approvalStatus := none
  diffWebUrl := some ""
  changedFiles := some []
  approvalRules := some []
  iteration := some none

theorem complete_reviewedRecord (updatedAt : Nat) (draft : Bool) :
    MergeRequests.Complete (reviewedRecord updatedAt draft) :=
  ⟨rfl, rfl, rfl, rfl, rfl, rfl, rfl⟩

def draftWorld : World :=
  { World.initial with
    idmap := .single ⟨"ws", .merge_request, "7:5", issueClass, "mirror"⟩
    docs := OrderedMap.empty.set "mirror" ⟨issueClass, "project", [], .empty⟩ }

theorem mappedTo_draftWorld :
    MappedTo (Env.quiet quietBinding) quietBinding 5 "mirror" draftWorld where
  row := ⟨⟨"ws", .merge_request, "7:5", issueClass, "mirror"⟩, by decide +kernel, rfl⟩
  doc := ⟨_, rfl, rfl⟩

/-- The record in which the draft is ready, and then the older one in which it was a draft. -/
def outOfOrder : List Delivery :=
  [.mergeRequest (reviewedRecord 20 false), .mergeRequest (reviewedRecord 10 true)]

def afterOutOfOrder : World :=
  outOfOrder.foldl (fun w d => ((d.apply (Env.quiet quietBinding) "binding").run w).2) draftWorld

theorem delivered_outOfOrder :
    Delivered (Env.quiet quietBinding) "binding" outOfOrder draftWorld afterOutOfOrder := by
  have hfirst : ((Delivery.mergeRequest (reviewedRecord 20 false)).apply (Env.quiet quietBinding)
      "binding").run { draftWorld with now := 0 } =
        (.ok (), (((Delivery.mergeRequest (reviewedRecord 20 false)).apply (Env.quiet quietBinding)
          "binding").run draftWorld).2) := by
    decide +kernel
  have hsecond : ((Delivery.mergeRequest (reviewedRecord 10 true)).apply (Env.quiet quietBinding)
      "binding").run (((Delivery.mergeRequest (reviewedRecord 20 false)).apply
        (Env.quiet quietBinding) "binding").run draftWorld).2 = (.ok (), afterOutOfOrder) := by
    decide +kernel
  exact .cons 0 hfirst (.cons 0 hsecond (.nil _))

end Examples

end HulyGitlab
