import HulyGitlab.Sync.MergeRequestsRemote
import HulyGitlab.Sync.Mirroring

/-!
# The mirrors of the managers

What each manager mirrors of a record, and that no run of it, complete or cut
off, does more than let that mirror grow.
-/

namespace HulyGitlab

open UserIdentity

/-- The only object of the record of an issue. -/
def Issues.mirrorObject (env : Env) (bctx : BindingContext) (i : SyncIssue) : MirrorObject :=
  ⟨projectKey env bctx (.num i.iid), [], [], []⟩

def Issues.mirror (env : Env) (bctx : BindingContext) (i : SyncIssue) : Mirror where
  gitlabKind := .issue
  rowClass := issueClass
  objectClass := issueClass
  objects := [mirrorObject env bctx i]
  notUser := by decide
  notPerson := by decide
  ordinary := by decide

/-- The mixins of a merge request; both come before the row. -/
def MergeRequests.createMixins (m : SyncMergeRequest) : List MixinKeys :=
  (MR_CORE_MIXIN, "_originated" :: (MRApprovals.buildCoreFromSyncMR m.toFields).map Prod.fst) ::
    if reviewKeys m = [] then [] else [(MR_REVIEW_MIXIN_DOC, "_originated" :: reviewKeys m)]

def MergeRequests.mirrorObject (env : Env) (bctx : BindingContext) (m : SyncMergeRequest) :
    MirrorObject :=
  ⟨projectKey env bctx (.num m.iid), createMixins m, [], []⟩

def MergeRequests.mirror (env : Env) (bctx : BindingContext) (m : SyncMergeRequest) : Mirror where
  gitlabKind := .merge_request
  rowClass := issueClass
  objectClass := issueClass
  objects := [mirrorObject env bctx m]
  notUser := by decide
  notPerson := by decide
  ordinary := by decide

/-- The id of the note of a record, which is an envelope or the body of a hook. -/
def Notes.noteId (rawRecord : Fields) : JsValue :=
  if (rawRecord.field "noteableIid").isNumber ∧ rawRecord.field "note" ≠ .undefined then
    (rawRecord.field "note").get "id"
  else (rawRecord.field "object_attributes").get "id"

def Notes.mirrorObject (env : Env) (bctx : BindingContext) (rawRecord : Fields) : MirrorObject :=
  ⟨projectKey env bctx (noteId rawRecord), [], [], []⟩

def Notes.mirror (env : Env) (bctx : BindingContext) (rawRecord : Fields) : Mirror where
  gitlabKind := .note
  rowClass := HULY_CLASS_CHAT_MESSAGE
  objectClass := chatMessageClass
  objects := [mirrorObject env bctx rawRecord]
  notUser := by decide
  notPerson := by decide
  ordinary := by decide

/-- The account of the user who resolved a thread. -/
def Reviews.resolverOf (env : Env) (resolvedBy : Option SyncUser) : JsValue :=
  match resolvedBy.bind fun u => accountOf env (Issues.identity u) with
  | some ref => .str ref
  | none => .undefined

/-- The state of the thread of a record. -/
def Reviews.stateOf (env : Env) (t : SyncReviewThread) : ThreadState where
  threadId := .str t.discussionId
  resolved := .bool t.resolved
  resolvedBy := resolverOf env t.resolvedBy
  resolvedAt := match t.resolvedAt with
    | some ms => .num ms
    | none => .undefined

/-- The id of the first note of a thread. -/
def Reviews.rootOf (t : SyncReviewThread) : JsValue :=
  match t.notes with
  | [] => .undefined
  | root :: _ => .num root.id

theorem Reviews.rootOf_elements (t : SyncReviewThread) :
    (match t.notes.map fun n => JsValue.obj n.toFields with
      | [] => JsValue.undefined
      | root :: _ => root.get "id") = rootOf t := by
  unfold rootOf
  cases t.notes with
  | nil => rfl
  | cons root rest => exact SyncReviewNote.field_id root

/-- A note of a thread, whose mixin every update writes again. -/
def Reviews.noteObject (env : Env) (t : SyncReviewThread) (n : SyncReviewNote) : MirrorObject where
  gitlabId := noteIdmapKey (.str t.discussionId) (.num n.id)
  before := []
  again := [(MR_REVIEW_THREAD_MIXIN,
    (withOriginatedMarker (mixinAttributes (stateOf env t) (.obj n.toFields) (rootOf t))).map
      Prod.fst)]
  once := []

/-- The notes of the system have no mirror. -/
def Reviews.mirror (env : Env) (t : SyncReviewThread) : Mirror where
  gitlabKind := .review_thread
  rowClass := HULY_CLASS_CHAT_MESSAGE
  objectClass := chatMessageClass
  objects := (t.notes.filter fun n => !n.system).map (noteObject env t)
  notUser := by decide
  notPerson := by decide
  ordinary := by decide

/-- The row of an epic comes before its mixin, and an update only writes a part of it. -/
def Epics.mirrorObject (env : Env) (bctx : BindingContext) (e : SyncEpic) : MirrorObject where
  gitlabId := epicKey env bctx (.num e.groupId) (.num e.iid)
  before := []
  again := [(MR_EPIC_MIXIN, ["state", "webUrl", "childIssueIids", "_originated"])]
  once := [(MR_EPIC_MIXIN, ["epicIid", "groupId"])]

def Epics.mirror (env : Env) (bctx : BindingContext) (e : SyncEpic) : Mirror where
  gitlabKind := .epic
  rowClass := issueClass
  objectClass := issueClass
  objects := [mirrorObject env bctx e]
  notUser := by decide
  notPerson := by decide
  ordinary := by decide

section Mirroring

variable (env : Env) {binding : BindingRef} {bctx : BindingContext}

/-- The binding is the one that is loaded. -/
theorem Mirroring.load {m : Mirror} {o : MirrorObject} {A : Type} {f : BindingContext → Sync A}
    (hload : env.loadBinding binding = .ok bctx) (hf : Mirroring m bctx o (f bctx)) :
    Mirroring m bctx o (Sync.loadBinding env binding >>= f) := by
  unfold Sync.loadBinding
  rw [hload]
  exact hf

theorem Issues.mirroring (hload : env.loadBinding binding = .ok bctx) (i : SyncIssue) :
    Mirroring (mirror env bctx i) bctx (mirrorObject env bctx i)
      (applyRemote env binding i.toFields) := by
  unfold applyRemote
  apply Mirroring.load env hload
  dsimp only
  rw [SyncIssue.field_iid]
  refine Mirroring.find (m := mirror env bctx i) (o := mirrorObject env bctx i) (fun row => ?_) ?_
  · apply Editing.bind (Editing.ofExcept _)
    intro _
    apply Editing.bind (Editing.resolveAssignee env _)
    intro _
    apply Editing.bind (Editing.ofExcept _)
    intro _
    apply Editing.bind (Editing.resolveLocal env _ _)
    intro _
    apply Editing.bind (Editing.issueMilestone env _)
    intro _
    apply Editing.bind (Editing.mapRemoteState env _ _ _)
    intro status
    cases status with
    | none => exact Editing.pure _
    | some status => exact Editing.updateFromRemote_issue env _ _ _ _
  · apply Creating.resolve (Editing.ofExcept _)
    intro _
    apply Creating.resolve (Editing.resolveAssignee env _)
    intro _
    apply Creating.resolve (Editing.ofExcept _)
    intro _
    apply Creating.resolve (Editing.resolveLocal env _ _)
    intro _
    apply Creating.resolve (Editing.issueMilestone env _)
    intro _
    apply Creating.resolve (Editing.mapRemoteState env _ _ _)
    intro status
    cases status with
    | none => exact Creating.of_editing (Editing.pure _)
    | some status =>
      refine Creating.createDoc (m := mirror env bctx i) _ _ fun w ref hlacks => ?_
      exact Drafting.upsert (List.mem_singleton_self _) (covers_nil _) hlacks
        (Editing.setCursor env _ _ _)

omit env in
/-- A marked mixin has the marker and the keys of its attributes. -/
theorem carries_marked {doc : HulyDoc} {mixin : String} {attributes : Fields} {keys : List String}
    (h : Carries doc (mixin, (withOriginatedMarker attributes).map Prod.fst))
    (hkeys : keys ⊆ attributes.map Prod.fst) : Carries doc (mixin, "_originated" :: keys) := by
  refine h.mono fun k hk => (Fields.mem_keys_set _ _ _ _).mpr ?_
  obtain rfl | hk := List.mem_cons.mp hk
  · exact .inl rfl
  · exact .inr (hkeys hk)

omit env in
theorem MergeRequests.createMixins_covered (r : SyncMergeRequest) (hempty : reviewKeys r = []) :
    Covers [(MR_CORE_MIXIN, (withOriginatedMarker
      (MRApprovals.buildCoreFromSyncMR r.toFields)).map Prod.fst)] (createMixins r) := by
  intro doc hdoc mixin hmixin
  rw [createMixins, if_pos hempty, List.mem_singleton] at hmixin
  subst hmixin
  exact carries_marked (hdoc _ (List.mem_singleton_self _)) fun _ hk => hk

omit env in
theorem MergeRequests.createMixins_covered_review (r : SyncMergeRequest) {review : Fields}
    (hkeys : review.map Prod.fst = reviewKeys r) :
    Covers [(MR_REVIEW_MIXIN_DOC, (withOriginatedMarker review).map Prod.fst),
      (MR_CORE_MIXIN, (withOriginatedMarker (MRApprovals.buildCoreFromSyncMR r.toFields)).map
        Prod.fst)] (createMixins r) := by
  intro doc hdoc mixin hmixin
  obtain rfl | hmixin := List.mem_cons.mp hmixin
  · exact carries_marked (hdoc _ (List.mem_cons_of_mem _ (List.mem_singleton_self _)))
      fun _ hk => hk
  · by_cases hempty : reviewKeys r = []
    · rw [if_pos hempty] at hmixin
      exact absurd hmixin List.not_mem_nil
    · rw [if_neg hempty, List.mem_singleton] at hmixin
      subst hmixin
      exact carries_marked (hdoc _ List.mem_cons_self) (by rw [hkeys]; exact fun _ hk => hk)

theorem MergeRequests.mirroring (hload : env.loadBinding binding = .ok bctx)
    (r : SyncMergeRequest) :
    Mirroring (mirror env bctx r) bctx (mirrorObject env bctx r)
      (applyRemote env binding r.toFields) := by
  unfold applyRemote
  apply Mirroring.load env hload
  dsimp only
  rw [SyncMergeRequest.field_iid]
  refine Mirroring.find (m := mirror env bctx r) (o := mirrorObject env bctx r) (fun row => ?_) ?_
  · apply Editing.bind (Editing.resolveRecord env _)
    intro resolved
    exact Editing.updateFromRemote_mergeRequest env _ _ _ _ _
  · apply Creating.resolve_of (Editing.resolveRecord env _) (resolveRecord_yields env bctx r)
    intro resolved hresolved
    obtain ⟨review, hreview, hkeys⟩ :=
      buildReviewFromSyncMR_ok r hresolved.reviewers hresolved.approvedBy
    dsimp only
    unfold createFromRemote
    rw [hreview]
    dsimp only
    by_cases hstatus : (MRStatusMap.mapRemoteMRState env (r.toFields.field "state")
        (r.toFields.field "draft") (.str "") bctx.statuses).status.text = ""
    · rw [if_pos hstatus]
      exact Creating.of_editing (Editing.pure _)
    · rw [if_neg hstatus]
      refine Creating.createDoc (m := mirror env bctx r) _ _ fun w ref hlacks => Drafting.putMixin ?_
      rw [Effect.ofExcept_ok_bind]
      by_cases hempty : review = []
      · have hcovers : Covers [(MR_CORE_MIXIN,
            (withOriginatedMarker (MRApprovals.buildCoreFromSyncMR r.toFields)).map Prod.fst)]
            (createMixins r) := createMixins_covered r (by rw [← hkeys, hempty]; rfl)
        rw [putReviewMixin, if_pos hempty]
        exact Drafting.upsert (List.mem_singleton_self _) hcovers hlacks
          (Editing.setCursor env _ _ _)
      · rw [putReviewMixin, if_neg hempty]
        refine Drafting.putMixin ?_
        exact Drafting.upsert (List.mem_singleton_self _) (createMixins_covered_review r hkeys)
          hlacks (Editing.setCursor env _ _ _)

theorem Notes.mirroring_applyNote (hload : env.loadBinding binding = .ok bctx) (rawRecord : Fields)
    {noteableIid note : JsValue} (hid : note.get "id" = noteId rawRecord) :
    Mirroring (mirror env bctx rawRecord) bctx (mirrorObject env bctx rawRecord)
      (applyNote env binding rawRecord noteableIid note) := by
  unfold applyNote
  refine Mirroring.bind (Editing.ofExcept _) fun system => ?_
  by_cases hsystem : system.truthy = true
  · rw [if_pos hsystem]
    exact Mirroring.of_editing (Editing.pure _)
  · rw [if_neg hsystem]
    apply Mirroring.load env hload
    refine Mirroring.bind (Editing.findByGitlab env _ _ _) fun parent => ?_
    cases parent with
    | none =>
      dsimp only
      cases markAndRetry rawRecord NOTE_RETRY_FLAG with
      | none => exact Mirroring.of_editing (Editing.pure _)
      | some marked => exact Mirroring.of_editing (Editing.enqueueRecord _)
    | some row =>
      unfold applyMapped
      dsimp only
      rw [hid]
      refine Mirroring.find (m := mirror env bctx rawRecord) (o := mirrorObject env bctx rawRecord)
        (fun existing => ?_) ?_
      · exact Editing.bind (Editing.ofExcept _) fun _ =>
          Editing.bind (Editing.resolveUser env _) fun _ =>
            Editing.updateFromRemote_note env _ _ _ _ _
      · apply Creating.resolve (Editing.ofExcept _)
        intro _
        apply Creating.resolve (Editing.resolveUser env _)
        intro _
        refine Creating.createDoc (m := mirror env bctx rawRecord) _ _ fun w ref hlacks => ?_
        exact Drafting.upsert (List.mem_singleton_self _) (covers_nil _) hlacks
          (Editing.setCursor env _ _ _)

omit env in
/-- The id of a hook's note is the one it was sent with. -/
theorem Notes.parseWebhookPayload_id {rawRecord : Fields} {now : Nat} {noteableIid note : JsValue}
    (h : parseWebhookPayload rawRecord now = some (.note noteableIid note)) :
    note.get "id" = (rawRecord.field "object_attributes").get "id" := by
  unfold parseWebhookPayload at h
  cases htype : parseNoteableType ((rawRecord.field "object_attributes").get "noteable_type") with
  | none =>
    simp only [htype, ite_self] at h
    cases h
  | some noteableType =>
    simp only [htype] at h
    split_ifs at h <;> cases h
    -- what is left are hooks that are neither malformed nor line comments
    · rfl
    · rfl

theorem Notes.mirroring (hload : env.loadBinding binding = .ok bctx) (rawRecord : Fields) :
    Mirroring (mirror env bctx rawRecord) bctx (mirrorObject env bctx rawRecord)
      (applyRemote env binding rawRecord) := by
  unfold applyRemote
  by_cases henvelope : (rawRecord.field "noteableIid").isNumber ∧
      rawRecord.field "note" ≠ .undefined
  · rw [if_pos henvelope]
    exact mirroring_applyNote env hload rawRecord (by rw [noteId, if_pos henvelope])
  · rw [if_neg henvelope]
    refine Mirroring.bind (Editing.gets _) fun now => ?_
    cases hparsed : parseWebhookPayload rawRecord now with
    | none => exact Mirroring.of_editing (Editing.pure _)
    | some parsed =>
      cases parsed with
      | malformedPosition iid note => exact Mirroring.of_editing (Editing.pure _)
      | note iid note =>
        refine mirroring_applyNote env hload rawRecord ?_
        rw [noteId, if_neg henvelope, parseWebhookPayload_id hparsed]
      | review iid note position discussionId =>
        refine Mirroring.load env hload (Mirroring.of_editing ?_)
        apply Editing.bind (Editing.findByGitlab env _ _ _)
        intro parentMapping
        cases parentMapping with
        | none =>
          exact Effect.Within.ite (fun _ => Editing.pure _) fun _ => Editing.enqueueRecord _
        | some row => exact Editing.enqueueRecord _

/-- One round of the loop: the note is one of the mirror, or it is not mirrored at all. -/
theorem Reviews.mirroring_applyThreadNote (t : SyncReviewThread) {n : SyncReviewNote}
    (hn : n ∈ t.notes) (parentRef : Ref) (thread : ThreadState) (rootNoteId : JsValue)
    (hthread : thread.threadId = .str t.discussionId) :
    Mirroring (mirror env t) bctx (noteObject env t n)
      (applyThreadNote env bctx parentRef thread rootNoteId (.obj n.toFields)) := by
  unfold applyThreadNote
  rw [JsValue.prop_obj, SyncReviewNote.field_system]
  show Mirroring (mirror env t) bctx _ (if n.system = true then _ else _)
  by_cases hsystem : n.system = true
  · rw [if_pos hsystem]
    exact Mirroring.of_editing (Editing.pure _)
  · have hmem : noteObject env t n ∈ (mirror env t).objects :=
      List.mem_map_of_mem (List.mem_filter.mpr ⟨hn, by simpa using hsystem⟩)
    have hkey : noteIdmapKey thread.threadId ((JsValue.obj n.toFields).get "id") =
        (noteObject env t n).gitlabId := by
      rw [hthread, JsValue.get_obj, SyncReviewNote.field_id]
      rfl
    rw [if_neg hsystem]
    dsimp only
    rw [hkey]
    refine Mirroring.find (m := mirror env t) (o := noteObject env t n) (fun row => ?_) ?_
    · exact Editing.bind (Editing.ofExcept _) fun _ => Editing.bind (Editing.resolveUser env _)
        fun _ => Editing.bind (Editing.ofExcept _) fun _ => Editing.bind (Editing.ofExcept _)
        fun _ => Editing.bind (Editing.bind (Editing.updateMessage_thread env _ _ _ _) fun _ =>
          Editing.pure _) fun _ => Editing.putMixin env _ _ _
    · apply Creating.resolve (Editing.ofExcept _)
      intro _
      apply Creating.resolve (Editing.resolveUser env _)
      intro _
      apply Creating.resolve (Editing.ofExcept _)
      intro _
      apply Creating.resolve (Editing.ofExcept _)
      intro _
      refine Creating.bind ?_ fun ref => Editing.putMixin env _ _ _
      refine Creating.createDoc (m := mirror env t) _ _ fun w ref hlacks => ?_
      exact Drafting.upsert hmem (covers_nil _) hlacks (Editing.pure _)

theorem Reviews.growing (hload : env.loadBinding binding = .ok bctx) (t : SyncReviewThread) :
    Effect.Within (Grows (mirror env t) bctx) (applyRemote env binding t.toFields) := by
  unfold applyRemote Sync.loadBinding
  rw [hload, Effect.ofExcept_ok_bind]
  apply Effect.Within.bind Grows.trans fun w => (Editing.findByGitlab env _ _ _ w).grows
  intro parent
  cases parent with
  | none =>
    refine fun w => Edits.grows ?_
    unfold deferThread
    cases markAndRetry t.toFields REVIEW_RETRY_FLAG with
    | none => exact Edits.refl w
    | some marked =>
      exact Editing.bind (Editing.ofExcept _) (fun _ => Editing.enqueueRecord _) w
  | some row =>
    unfold applyMapped
    refine Effect.Within.bind Grows.trans (fun w => Edits.grows ?_) fun resolvedBy => ?_
    · exact Effect.Within.ite (fun _ => Editing.pure _) (fun _ => Editing.resolvePerson env _) w
    · refine Effect.Within.bind Grows.trans (Effect.Within.ofExcept Grows.refl _) fun _ => ?_
      rw [SyncReviewThread.field_notes, JsValue.elements_arr, SyncReviewThread.field_discussionId,
        Effect.ofExcept_ok_bind]
      refine Effect.Within.bind Grows.trans ?_ fun _ w => (Editing.setCursor env _ _ _ w).grows
      refine Effect.Within.forEach Grows.refl Grows.trans fun note hnote => ?_
      obtain ⟨n, hn, rfl⟩ := List.mem_map.mp hnote
      exact fun w => (mirroring_applyThreadNote env t hn _ _ _ rfl w).1

theorem Epics.mirroring (hload : env.loadBinding binding = .ok bctx) (e : SyncEpic) :
    Mirroring (mirror env bctx e) bctx (mirrorObject env bctx e)
      (applyRemote env binding e.toFields) := by
  unfold applyRemote
  apply Mirroring.load env hload
  by_cases hedition : bctx.edition ≠ none ∧ bctx.edition ≠ some "ee"
  · rw [if_pos hedition]
    exact Mirroring.of_editing (Editing.pure _)
  · rw [if_neg hedition, SyncEpic.field_groupId, SyncEpic.field_iid]
    dsimp only
    refine Mirroring.find (m := mirror env bctx e) (o := mirrorObject env bctx e) (fun row => ?_) ?_
    · apply Editing.bind (Editing.ofExcept _)
      intro _
      dsimp only
      cases pickBacklogStatus bctx.statuses with
      | none => exact Editing.pure _
      | some status =>
        exact Editing.bind (Editing.ofExcept _) fun _ =>
          Editing.bind (Editing.updateFromRemote_epic env _ _ _ _) fun _ =>
            Effect.Within.ite (fun _ => Editing.linkChildren env _ _) fun _ => Editing.pure _
    · apply Creating.resolve (Editing.ofExcept _)
      intro _
      dsimp only
      cases pickBacklogStatus bctx.statuses with
      | none => exact Creating.of_editing (Editing.pure _)
      | some status =>
        apply Creating.resolve (Editing.ofExcept _)
        intro _
        refine Creating.bind ?_ fun _ => Editing.linkChildren env _ _
        refine Creating.createDoc (m := mirror env bctx e) _ _ fun w ref hlacks => ?_
        exact Drafting.upsert (List.mem_singleton_self _) (covers_nil _) hlacks
          (Editing.bind (Editing.ofExcept _) fun _ => Editing.putMixin env _ _ _)

end Mirroring

end HulyGitlab
