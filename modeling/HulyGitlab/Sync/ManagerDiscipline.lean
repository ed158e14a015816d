import HulyGitlab.Sync.LocalAwaits
import HulyGitlab.Sync.MirrorDiscipline

/-!
# The managers mirror one object at a time

The managers of notes, of threads and of issues, await by await: each lookup of
an object comes before its document and the document before its row. A thread
goes through its notes one after the other.
-/

namespace HulyGitlab

open Coroutine (Always Follows)

variable (env : Env) {c : MirrorClass}

/-- The rows and messages of notes. -/
def noteMirrors (bctx : BindingContext) : MirrorClass where
  workspaceUuid := bctx.workspaceUuid
  kinds := [.note, .review_thread]
  objectClass := chatMessageClass
  created r answer :=
    match r with
    | .createNote _ _ _ | .createMRNote _ _ _ =>
        (answer.prop "id").toOption.map fun id => (.note, projectKey env bctx id)
    | _ => none

/-- The rows and documents of issues. -/
def issueMirrors (bctx : BindingContext) : MirrorClass where
  workspaceUuid := bctx.workspaceUuid
  kinds := [.issue]
  objectClass := issueClass
  created r answer :=
    match r with
    | .createIssue _ _ =>
        (answer.prop "iid").toOption.map fun iid => (.issue, projectKey env bctx iid)
    | _ => none

namespace UserIdentity.Awaits

theorem aloof_mapByGitlabUser (user : IdentityUser) : Aloof env c (mapByGitlabUser env user) := by
  refine Always.bind (Aloof.findPersonBySocialKey env _) fun byGitlab => ?_
  cases byGitlab with
  | some ref => exact Always.pure _
  | none =>
    refine Always.ite ?_ (Always.pure _)
    exact Always.bind (Always.ofExcept _) fun _ => Aloof.findPersonBySocialKey env _

theorem aloof_resolveUser (huser : GitlabKind.user ∉ c.kinds) (workspaceUuid : String)
    (user : JsValue) : Aloof env c (resolveUser env workspaceUuid user) := by
  refine Always.bind (Always.ofExcept _) fun identity => ?_
  refine Always.bind (aloof_mapByGitlabUser env identity) fun matched => ?_
  cases matched with
  | some ref => exact Always.pure _
  | none =>
    refine Always.bind (Aloof.findByGitlab env huser _ _) fun existing => ?_
    cases existing with
    | some row => exact Always.pure _
    | none => exact Always.bind (Aloof.upsertIdMap env huser) fun _ => Always.pure _

theorem aloof_resolveAssignee (huser : GitlabKind.user ∉ c.kinds) (workspaceUuid : String)
    (assignees : JsValue) : Aloof env c (resolveAssignee env workspaceUuid assignees) := by
  refine Always.bind (Always.ofExcept _) fun users => ?_
  cases users with
  | nil => exact Always.pure _
  | cons first rest =>
    exact Always.bind (aloof_resolveUser env huser workspaceUuid first) fun _ => Always.pure _

end UserIdentity.Awaits

namespace LabelCache.Awaits

theorem aloof_ensureLocalTag (hclass : tagElementClass ≠ c.objectClass) (space : Ref)
    (cache : LabelCache) (name : JsValue) : Aloof env c (ensureLocalTag env space cache name) := by
  have hprime : Aloof env c (primeLocal env cache) :=
    Always.ite (Always.pure _) (Always.bind (Aloof.findAll env _) fun _ =>
      Always.bind (Always.ofExcept _) fun _ => Always.pure _)
  refine Always.bind hprime fun cache => Always.bind (Always.ofExcept _) fun text => ?_
  dsimp only
  cases cache.localByName.get (env.toLowerCase text) with
  | some existing => exact Always.pure _
  | none => exact Always.bind (Aloof.createDoc env hclass _ _) fun _ => Always.pure _

theorem aloof_resolveLocal (hclass : tagElementClass ≠ c.objectClass) (space : Ref)
    (cache : LabelCache) (names : List JsValue) :
    Aloof env c (resolveLocal env space cache names) := by
  induction names generalizing cache with
  | nil => exact Always.pure _
  | cons name names ih =>
    exact Always.bind (aloof_ensureLocalTag env hclass space cache name) fun first =>
      Always.bind (ih first.2) fun _ => Always.pure _

/-- Labels on GitLab are not what is mirrored. -/
theorem aloof_ensureRemote
    (hlist : ∀ projectId answer, c.created (.listLabels projectId) answer = none)
    (hcreate : ∀ projectId body answer, c.created (.createLabel projectId body) answer = none)
    (projectId : Int) (cache : LabelCache) (labels : List JsValue) :
    Aloof env c (ensureRemote env projectId cache labels) := by
  have hlabel : ∀ cache name color, Aloof env c
      (ensureRemoteLabel env projectId cache name color) := by
    intro cache name color
    have hprime : Aloof env c (primeRemote env projectId cache) :=
      Always.ite (Always.pure _) (Always.bind (Aloof.request env (hlist _)) fun _ =>
        Always.bind (Always.ofExcept _) fun _ => Always.bind (Always.ofExcept _) fun _ =>
          Always.pure _)
    refine Always.bind hprime fun cache => Always.bind (Always.ofExcept _) fun text => ?_
    dsimp only
    cases cache.remoteByName.get (env.toLowerCase text) with
    | some existing => exact Always.pure _
    | none => exact Always.bind (Aloof.request env (hcreate _ _)) fun _ => Always.pure _
  induction labels generalizing cache with
  | nil => exact Always.pure _
  | cons l labels ih =>
    refine Always.bind (Always.ofExcept _) fun name => ?_
    refine Always.bind (Always.ofExcept _) fun color => ?_
    refine Always.bind (hlabel _ _ _) fun ensured => ?_
    refine Always.bind (Always.ofExcept _) fun ensuredName => ?_
    exact Always.bind (ih _) fun _ => Always.pure _

end LabelCache.Awaits

namespace MilestoneCache.Awaits

theorem aloof_ensureLocalMilestone (hclass : milestoneClass ≠ c.objectClass) (space : Ref)
    (cache : MilestoneCache) (label description : JsValue) :
    Aloof env c (ensureLocalMilestone env space cache label description) := by
  have hprime : Aloof env c (primeLocal env space cache) :=
    Always.ite (Always.pure _) (Always.bind (Aloof.findAll env _) fun _ =>
      Always.bind (Always.ofExcept _) fun _ => Always.pure _)
  refine Always.bind hprime fun cache => Always.bind (Always.ofExcept _) fun text => ?_
  dsimp only
  cases cache.localByLabel.get (env.toLowerCase text) with
  | some existing => exact Always.pure _
  | none => exact Always.bind (Aloof.createDoc env hclass _ _) fun _ => Always.pure _

/-- Nor are milestones on GitLab. -/
theorem aloof_ensureRemoteMilestone
    (hlist : ∀ projectId answer, c.created (.listMilestones projectId) answer = none)
    (hcreate : ∀ projectId body answer, c.created (.createMilestone projectId body) answer = none)
    (projectId : Int) (cache : MilestoneCache) (title description : JsValue) :
    Aloof env c (ensureRemoteMilestone env projectId cache title description) := by
  have hprime : Aloof env c (primeRemote env projectId cache) :=
    Always.ite (Always.pure _) (Always.bind (Aloof.request env (hlist _)) fun _ =>
      Always.bind (Always.ofExcept _) fun _ => Always.bind (Always.ofExcept _) fun _ =>
        Always.pure _)
  refine Always.bind hprime fun cache => Always.bind (Always.ofExcept _) fun text => ?_
  dsimp only
  cases cache.remoteByTitle.get (env.toLowerCase text) with
  | some existing => exact Always.pure _
  | none => exact Always.bind (Aloof.request env (hcreate _ _)) fun _ => Always.pure _

end MilestoneCache.Awaits

namespace Issues.Awaits

variable {binding : BindingRef} {bctx : BindingContext}

theorem aloof_resolveMilestone (hclass : milestoneClass ≠ c.objectClass) (space : Ref)
    (milestone : JsValue) : Aloof env c (resolveMilestone env space milestone) := by
  unfold resolveMilestone
  refine Always.ite (Always.pure _) ?_
  refine Always.bind (Always.ofExcept _) fun title => ?_
  refine Always.bind (Always.ofExcept _) fun description => ?_
  refine Always.bind ?_ fun _ => Always.pure _
  exact MilestoneCache.Awaits.aloof_ensureLocalMilestone env hclass _ _ _ _

theorem aloof_updateFromRemote (hulyRef : Ref) (r : RemoteIssue) (remoteTs : JsDate) :
    Aloof env c (updateFromRemote env binding hulyRef r remoteTs) := by
  refine Always.bind (Aloof.findOne env _ _) fun hulyIssue => ?_
  cases hulyIssue with
  | none => exact Always.pure _
  | some issue =>
    exact Always.bind (Always.ite (Always.pure _) (Aloof.updateDoc env _ _ _)) fun _ =>
      Always.ite (Aloof.setCursor env _ _ _) (Always.pure _)

theorem aloof_mapRemoteState (projectKey : String) (remoteState : JsValue)
    (statuses : List Status) :
    Aloof env c (HulyGitlab.Awaits.mapRemoteState env projectKey remoteState statuses) := by
  refine Always.call fun w => ⟨trivial, ?_⟩
  rw [StatusMap.mapRemoteState_run]
  rfl

/-- A document, and then its row. -/
theorem follows_createFromRemote (gitlabId : String) (r : RemoteIssue) (remoteTs : JsDate) :
    Follows (mirrorDiscipline env (issueMirrors env bctx) none) (fun q _ => q = none)
      (some ⟨.issue, gitlabId, none⟩)
      (createFromRemote env binding bctx gitlabId r remoteTs) := by
  refine follows_create (c := issueMirrors env bctx) fun ref => ?_
  exact follows_row List.mem_cons_self (follows_last (Aloof.setCursor env _ _ _))

theorem mirrors_applyRemote (hload : env.loadBinding binding = .ok bctx) (syncIssue : Fields) :
    Mirrors env (issueMirrors env bctx) none (applyRemote env binding syncIssue) := by
  have hassignee := UserIdentity.Awaits.aloof_resolveAssignee env (c := issueMirrors env bctx)
    (by simp [issueMirrors]) bctx.workspaceUuid (syncIssue.field "assignees")
  have hlabels := fun names => LabelCache.Awaits.aloof_resolveLocal env
    (c := issueMirrors env bctx) (by simp [issueMirrors, tagElementClass, issueClass])
    bctx.hulyProjectRef .new names
  have hmilestone := aloof_resolveMilestone env (c := issueMirrors env bctx)
    (by simp [issueMirrors, milestoneClass, issueClass]) bctx.hulyProjectRef
    (syncIssue.field "milestone")
  refine follows_load hload ?_
  refine follows_lookup (c := issueMirrors env bctx) List.mem_cons_self (fun row => ?_) ?_
  · refine Follows.ofExcept_bind mayFail_none fun rawDescription _ => ?_
    refine follows_after mayFail_none (.inl rfl) hassignee fun assignee => ?_
    refine Follows.ofExcept_bind mayFail_none fun names _ => ?_
    refine follows_after mayFail_none (.inl rfl) (hlabels names) fun labelRefs => ?_
    refine follows_after mayFail_none (.inl rfl) hmilestone fun milestone => ?_
    refine follows_after mayFail_none (.inl rfl) (aloof_mapRemoteState env _ _ _)
      fun statusRef => ?_
    cases statusRef with
    | none => exact Follows.pure mayFail_none
    | some status => exact mirrors_of_follows (follows_last (aloof_updateFromRemote env _ _ _))
  · refine Follows.ofExcept_bind (mayFail_new _ _) fun rawDescription _ => ?_
    refine follows_after (mayFail_new _ _) (.inl rfl) hassignee fun assignee => ?_
    refine Follows.ofExcept_bind (mayFail_new _ _) fun names _ => ?_
    refine follows_after (mayFail_new _ _) (.inl rfl) (hlabels names) fun labelRefs => ?_
    refine follows_after (mayFail_new _ _) (.inl rfl) hmilestone fun milestone => ?_
    refine follows_after (mayFail_new _ _) (.inl rfl) (aloof_mapRemoteState env _ _ _)
      fun statusRef => ?_
    cases statusRef with
    | none => exact Follows.pure (mayFail_new _ _)
    | some status =>
      refine (follows_createFromRemote env _ _ _).mono ?_
      rintro _ _ rfl
      exact mayFail_none

theorem aloof_touchCursor : Aloof env c (touchCursor env binding) :=
  Always.bind (Aloof.now env) fun _ => Aloof.setCursor env _ _ _

theorem aloof_mapHulyStatus (projectKey : String) (statusRef : JsValue)
    (statuses : List Status) :
    Aloof env c (HulyGitlab.Awaits.mapHulyStatus env projectKey statusRef statuses) := by
  refine Always.call fun w => ⟨trivial, ?_⟩
  unfold StatusMap.mapHulyStatus
  rw [Effect.bind_of_ok (StatusMap.getEntry_run env projectKey statuses w)]
  cases statusRef <;> rfl

theorem aloof_remoteBody (change : Fields) :
    Aloof env (issueMirrors env bctx) (remoteBody env bctx change) := by
  have hlabels : Aloof env (issueMirrors env bctx)
      (HulyGitlab.Awaits.remoteLabels env bctx.gitlabProjectId (change.field "labels")) := by
    refine Always.ite (Always.pure _) (Always.bind (Always.ofExcept _) fun items => ?_)
    exact Always.bind (LabelCache.Awaits.aloof_ensureRemote env (fun _ _ => rfl)
      (fun _ _ _ => rfl) _ _ _) fun _ => Always.pure _
  have hmilestone : Aloof env (issueMirrors env bctx)
      (HulyGitlab.Awaits.remoteMilestoneId env bctx.gitlabProjectId
        (change.field "milestone")) := by
    refine Always.ite (Always.pure _) (Always.bind (Always.ofExcept _) fun title => ?_)
    refine Always.bind (Always.ofExcept _) fun description => ?_
    exact Always.bind (MilestoneCache.Awaits.aloof_ensureRemoteMilestone env (fun _ _ => rfl)
      (fun _ _ _ => rfl) _ _ _ _) fun _ => Always.ofExcept _
  have hstate : Aloof env (issueMirrors env bctx)
      (remoteStateEvent env bctx (change.field "status")) := by
    exact Always.ite (Always.pure _) (Always.bind (aloof_mapHulyStatus env _ _ _) fun _ =>
      Always.pure _)
  have hdescription : Aloof env (issueMirrors env bctx)
      (HulyGitlab.Awaits.remoteDescription env (issueRefUrl bctx) (imageUrl bctx)
        (change.field "description")) :=
    Always.ite (Always.pure _) (Always.bind (Always.ofExcept _) fun _ => Always.pure _)
  exact Always.bind hlabels fun _ => Always.bind hmilestone fun _ => Always.bind hstate fun _ =>
    Always.bind hdescription fun _ => Always.pure _

/-- The object on GitLab, and then its row. -/
theorem mirrors_createRemote (hulyRef : Ref) (body : Fields) :
    Mirrors env (issueMirrors env bctx) (some hulyRef)
      (createRemote env binding bctx hulyRef body) := by
  refine follows_request fun answer => ?_
  dsimp only [issueMirrors]
  cases answer.prop "iid" with
  | error e => exact mayFail_none
  | ok iid =>
    refine follows_row (c := issueMirrors env bctx) List.mem_cons_self ?_
    exact mirrors_of_follows (follows_last (aloof_touchCursor env))

theorem mirrors_applyLocal (hload : env.loadBinding binding = .ok bctx) (doc : String)
    (change : Fields) :
    Mirrors env (issueMirrors env bctx) (some (stripDocPrefix doc))
      (applyLocal env binding doc change) := by
  refine follows_load hload ?_
  refine follows_after mayFail_none (.inr rfl) (Aloof.findByHuly env _ _ _) fun mapping => ?_
  refine follows_after mayFail_none (.inr rfl) (aloof_remoteBody env _) fun body => ?_
  cases mapping with
  | none => exact Follows.ite (Follows.pure mayFail_none) (mirrors_createRemote env _ _)
  | some row =>
    dsimp only
    cases parseIid row.gitlabId with
    | none => exact Follows.pure mayFail_none
    | some iid =>
      refine Follows.ite (Follows.pure mayFail_none) (mirrors_of_follows (follows_last ?_))
      exact Always.bind (Aloof.request env fun _ => rfl) fun _ => aloof_touchCursor env

end Issues.Awaits

namespace noteMirrors

variable (bctx : BindingContext)

theorem note_mem : GitlabKind.note ∈ (noteMirrors env bctx).kinds := List.mem_cons_self

theorem thread_mem : GitlabKind.review_thread ∈ (noteMirrors env bctx).kinds :=
  List.mem_cons_of_mem _ List.mem_cons_self

theorem others_not_mem {gitlabKind : GitlabKind} (hnote : gitlabKind ≠ .note)
    (hthread : gitlabKind ≠ .review_thread) : gitlabKind ∉ (noteMirrors env bctx).kinds := by
  simp [noteMirrors, hnote, hthread]

theorem aloof_resolveUser (workspaceUuid : String) (user : JsValue) :
    Aloof env (noteMirrors env bctx)
      (UserIdentity.Awaits.resolveUser env workspaceUuid user) :=
  UserIdentity.Awaits.aloof_resolveUser env
    (others_not_mem env bctx (by decide) (by decide)) workspaceUuid user

end noteMirrors

namespace Notes.Awaits

variable {binding : BindingRef} {bctx : BindingContext}

theorem aloof_updateFromRemote (hulyRef : Ref) (message author : JsValue) (remoteTs : JsDate) :
    Aloof env c (updateFromRemote env binding hulyRef message author remoteTs) := by
  refine Always.bind (Aloof.getCursor env _ _) fun cursor => Always.ite ?_ (Always.pure _)
  exact Always.bind (Aloof.updateDoc env _ _ _) fun _ => Aloof.setCursor env _ _ _

/-- A message, and then its row. -/
theorem follows_createFromRemote (gitlabId : String) (parentRef : Ref) (message author : JsValue)
    (createdAt updatedAt : JsDate) :
    Follows (mirrorDiscipline env (noteMirrors env bctx) none) (fun q _ => q = none)
      (some ⟨.note, gitlabId, none⟩)
      (createFromRemote env binding bctx gitlabId parentRef message author createdAt updatedAt) := by
  refine follows_create (c := noteMirrors env bctx) fun ref => ?_
  refine follows_row (noteMirrors.note_mem env bctx) ?_
  exact follows_last (Aloof.setCursor env _ _ _)

theorem follows_applyMapped (parentRef : Ref) (note : JsValue) :
    Follows (mirrorDiscipline env (noteMirrors env bctx) none) (fun q _ => q = none) none
      (applyMapped env binding bctx parentRef note) := by
  have hauthor := noteMirrors.aloof_resolveUser env bctx bctx.workspaceUuid
    (note.get "author")
  refine follows_lookup (noteMirrors.note_mem env bctx) (fun row => ?_) ?_
  · refine Follows.ofExcept_bind mayFail_none fun body _ => ?_
    refine follows_after mayFail_none (.inl rfl) hauthor fun author => ?_
    exact follows_last (aloof_updateFromRemote env _ _ _ _)
  · refine Follows.ofExcept_bind (mayFail_new _ _) fun body _ => ?_
    refine follows_after (mayFail_new _ _) (.inl rfl) hauthor fun author => ?_
    exact follows_createFromRemote env _ _ _ _ _ _

theorem aloof_routeReview (rawRecord : Fields)
    (noteableIid note position discussionId : JsValue) (other : BindingContext) :
    Aloof env (noteMirrors env other)
      (routeReview env binding rawRecord noteableIid note position discussionId) := by
  refine Always.bind (Aloof.loadBinding env _) fun bctx => ?_
  refine Always.bind (Aloof.findByGitlab env
    (noteMirrors.others_not_mem env _ (by decide) (by decide)) _ _) fun parentMapping => ?_
  dsimp only
  cases parentMapping with
  | none => exact Always.ite (Always.pure _) (Aloof.enqueueRecord env _)
  | some row => exact Aloof.enqueueRecord env _

theorem parentKind_ne (note : JsValue) :
    parentKind note ≠ .note ∧ parentKind note ≠ .review_thread := by
  unfold parentKind
  split_ifs
  · exact ⟨by decide, by decide⟩
  · exact ⟨by decide, by decide⟩

theorem follows_applyNote (hload : env.loadBinding binding = .ok bctx) (rawRecord : Fields)
    (noteableIid note : JsValue) :
    Follows (mirrorDiscipline env (noteMirrors env bctx) none) (fun q _ => q = none) none
      (applyNote env binding rawRecord noteableIid note) := by
  refine Follows.ofExcept_bind mayFail_none fun system _ => Follows.ite (Follows.pure rfl) ?_
  refine follows_load hload ?_
  have hparent := noteMirrors.others_not_mem env bctx (parentKind_ne note).1 (parentKind_ne note).2
  refine follows_after mayFail_none (.inl rfl) (Aloof.findByGitlab env hparent _ _) fun parent => ?_
  cases parent with
  | some row => exact follows_applyMapped env _ _
  | none =>
    dsimp only
    cases markAndRetry rawRecord NOTE_RETRY_FLAG with
    | none => exact Follows.pure rfl
    | some marked =>
      exact follows_last (Aloof.enqueueRecord env _)

theorem follows_applyRemote (hload : env.loadBinding binding = .ok bctx) (rawRecord : Fields) :
    Follows (mirrorDiscipline env (noteMirrors env bctx) none) (fun q _ => q = none) none
      (applyRemote env binding rawRecord) := by
  refine Follows.ite (follows_applyNote env hload _ _ _) ?_
  refine follows_after mayFail_none (.inl rfl) (Aloof.now env) fun now => ?_
  cases parseWebhookPayload rawRecord now with
  | none => exact Follows.pure rfl
  | some parsed =>
    cases parsed with
    | malformedPosition noteableIid note => exact Follows.pure rfl
    | review noteableIid note position discussionId =>
      exact follows_last (aloof_routeReview env _ _ _ _ _ _)
    | note noteableIid note => exact follows_applyNote env hload _ _ _

theorem aloof_touchCursor : Aloof env c (touchCursor env binding) :=
  Always.bind (Aloof.now env) fun _ => Aloof.setCursor env _ _ _

theorem aloof_resolveParent (change : Fields) : Aloof env c (resolveParent env bctx change) := by
  refine Always.ite (Always.pure _) (Always.bind (Aloof.findByHuly env _ _ _) fun parentMap => ?_)
  cases parentMap with
  | none => exact Always.pure _
  | some row =>
    dsimp only
    cases parseProjectIid row.gitlabId with
    | none => exact Always.pure _
    | some ids => exact Always.pure _

/-- The note on GitLab, and then its row. -/
theorem mirrors_createRemote (hulyRef : Ref) (parent : LocalParent) (message : JsValue) :
    Mirrors env (noteMirrors env bctx) (some hulyRef)
      (createRemote env binding bctx hulyRef parent message) := by
  refine Follows.ite (Follows.pure mayFail_none) ?_
  refine Follows.ofExcept_bind mayFail_none fun text _ => ?_
  refine Follows.ofExcept_bind mayFail_none fun iid _ => ?_
  refine follows_request fun answer => ?_
  have hcreated : (noteMirrors env bctx).created
      (creation bctx parent iid [("body", .str text)]) answer =
        (answer.prop "id").toOption.map fun id => (.note, projectKey env bctx id) := by
    unfold creation
    split_ifs <;> rfl
  rw [hcreated]
  cases answer.prop "id" with
  | error e => exact mayFail_none
  | ok id =>
    refine follows_row (c := noteMirrors env bctx) (noteMirrors.note_mem env bctx) ?_
    exact mirrors_of_follows (follows_last (aloof_touchCursor env))

/-- Edits and removals create nothing. -/
theorem aloof_changeRemote (noteId : Int) (parent : LocalParent) (change : Fields) :
    Aloof env (noteMirrors env bctx) (changeRemote env binding bctx noteId parent change) := by
  refine Always.ite (Always.pure _) (Always.ite ?_ (Always.ite ?_ (Always.pure _)))
  · refine Always.bind (Always.ofExcept _) fun iid => Always.bind ?_ fun _ =>
      aloof_touchCursor env
    exact Aloof.request env fun _ => by split_ifs <;> rfl
  · refine Always.bind (Always.ofExcept _) fun text => Always.bind (Always.ofExcept _) fun iid =>
      Always.bind ?_ fun _ => aloof_touchCursor env
    exact Aloof.request env fun _ => by split_ifs <;> rfl

theorem mirrors_applyLocal (hload : env.loadBinding binding = .ok bctx) (doc : String)
    (change : Fields) :
    Mirrors env (noteMirrors env bctx) (some (stripDocPrefix doc))
      (applyLocal env binding doc change) := by
  refine Follows.ite (Follows.pure mayFail_none) ?_
  refine follows_load hload ?_
  refine follows_after mayFail_none (.inr rfl) (Aloof.findByHuly env _ _ _) fun mapping => ?_
  refine Follows.ite (Follows.pure mayFail_none) ?_
  refine follows_after mayFail_none (.inr rfl) (aloof_resolveParent env _) fun parent => ?_
  cases parent with
  | none => exact Follows.pure mayFail_none
  | some parent =>
    cases mapping with
    | none => exact mirrors_createRemote env _ _ _
    | some row =>
      dsimp only
      cases parseIid row.gitlabId with
      | none => exact Follows.pure mayFail_none
      | some noteId => exact mirrors_of_follows (follows_last (aloof_changeRemote env _ _ _))

end Notes.Awaits

namespace Reviews.Awaits

variable {binding : BindingRef} {bctx : BindingContext}

theorem aloof_updateMessage (messageRef : Ref) (message author : JsValue) (updatedAt : JsDate) :
    Aloof env c (updateMessage env messageRef message author updatedAt) :=
  Always.bind (Aloof.findOne env _ _) fun _ =>
    Always.ite (Aloof.updateDoc env _ _ _) (Always.pure _)

theorem aloof_resolvedByOf (resolvedBy : JsValue) :
    Aloof env c (resolvedByOf env resolvedBy) := by
  refine Always.ite (Always.pure _) (Always.bind (Always.ofExcept _) fun identity => ?_)
  exact Always.bind (UserIdentity.Awaits.aloof_mapByGitlabUser env identity) fun _ =>
    Always.pure _

/-- A message of a thread, its row, and its mixin. -/
theorem follows_applyThreadNote (parentRef : Ref) (thread : ThreadState)
    (rootNoteId note : JsValue) :
    Follows (mirrorDiscipline env (noteMirrors env bctx) none) (fun q _ => q = none) none
      (applyThreadNote env bctx parentRef thread rootNoteId note) := by
  have hauthor := noteMirrors.aloof_resolveUser env bctx bctx.workspaceUuid
    (note.get "author")
  refine Follows.ofExcept_bind mayFail_none fun system _ => Follows.ite (Follows.pure rfl) ?_
  refine follows_lookup (noteMirrors.thread_mem env bctx) (fun row => ?_) ?_
  · refine Follows.ofExcept_bind mayFail_none fun body _ => ?_
    refine follows_after mayFail_none (.inl rfl) hauthor fun author => ?_
    refine Follows.ofExcept_bind mayFail_none fun _ _ => ?_
    refine Follows.ofExcept_bind mayFail_none fun _ _ => ?_
    refine follows_after mayFail_none (.inl rfl) ?_ fun messageRef => ?_
    · exact Always.bind (aloof_updateMessage env _ _ _ _) fun _ => Always.pure _
    · exact follows_last (Aloof.putMixin env _ _ _ _)
  · refine Follows.ofExcept_bind (mayFail_new _ _) fun body _ => ?_
    refine follows_after (mayFail_new _ _) (.inl rfl) hauthor fun author => ?_
    refine Follows.ofExcept_bind (mayFail_new _ _) fun _ _ => ?_
    refine Follows.ofExcept_bind (mayFail_new _ _) fun _ _ => ?_
    refine Follows.bind (?_ : Follows _ (fun q _ => q = none) _ _) ?_
    · refine follows_create (c := noteMirrors env bctx) fun ref => ?_
      exact follows_row (noteMirrors.thread_mem env bctx) (Follows.pure rfl)
    · rintro _ messageRef rfl
      exact follows_last (Aloof.putMixin env _ _ _ _)

theorem follows_applyMapped (parentRef : Ref) (syncThread : Fields) :
    Follows (mirrorDiscipline env (noteMirrors env bctx) none) (fun q _ => q = none) none
      (applyMapped env binding bctx parentRef syncThread) := by
  refine follows_after mayFail_none (.inl rfl) (aloof_resolvedByOf env _) fun resolvedBy => ?_
  refine Follows.ofExcept_bind mayFail_none fun resolvedAt _ => ?_
  refine Follows.ofExcept_bind mayFail_none fun notes _ => ?_
  refine Follows.bind (Follows.forEach (fun note => follows_applyThreadNote env _ _ _ note) _) ?_
  rintro _ _ rfl
  exact follows_last (Aloof.setCursor env _ _ _)

theorem follows_applyRemote (hload : env.loadBinding binding = .ok bctx) (syncThread : Fields) :
    Follows (mirrorDiscipline env (noteMirrors env bctx) none) (fun q _ => q = none) none
      (applyRemote env binding syncThread) := by
  refine follows_load hload ?_
  have hparent : GitlabKind.merge_request ∉ (noteMirrors env bctx).kinds :=
    noteMirrors.others_not_mem env bctx (by decide) (by decide)
  refine follows_after mayFail_none (.inl rfl) (Aloof.findByGitlab env hparent _ _)
    fun parentMapping => ?_
  cases parentMapping with
  | some row => exact follows_applyMapped env _ _
  | none =>
    dsimp only [deferThread]
    cases markAndRetry syncThread REVIEW_RETRY_FLAG with
    | none => exact Follows.pure rfl
    | some marked =>
      refine Follows.ofExcept_bind mayFail_none fun version _ => ?_
      exact follows_last (Aloof.enqueueRecord env _)

end Reviews.Awaits

end HulyGitlab
