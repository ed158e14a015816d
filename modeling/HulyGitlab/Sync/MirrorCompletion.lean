import HulyGitlab.Sync.MirrorCreation

/-!
# Complete runs on a mirror that is there in part

What a run does to an object that has a row already: the update of an epic
writes a part of its mixin, that of a thread the whole of it.
-/

namespace HulyGitlab

open UserIdentity

section Epics

variable {env : Env} {bctx : BindingContext}

/-- The mixin is the same on every document. -/
def SameMixin (mixin : String) (w w' : World) : Prop :=
  ∀ ref, (w'.docs.get? ref).map (fun doc => doc.mixins.get? mixin) =
    (w.docs.get? ref).map fun doc => doc.mixins.get? mixin

theorem SameMixin.refl (mixin : String) (w : World) : SameMixin mixin w w := fun _ => rfl

theorem SameMixin.trans (mixin : String) (w₁ w₂ w₃ : World) (h : SameMixin mixin w₁ w₂)
    (h' : SameMixin mixin w₂ w₃) : SameMixin mixin w₁ w₃ :=
  fun ref => (h' ref).trans (h ref)

theorem SameMixin.carries_iff {k : MixinKeys} {w w' : World} (h : SameMixin k.1 w w') {ref : Ref}
    {doc doc' : HulyDoc} (hdoc : w.docs.get? ref = some doc) (hdoc' : w'.docs.get? ref = some doc') :
    Carries doc' k ↔ Carries doc k := by
  have hsame : doc'.mixins.get? k.1 = doc.mixins.get? k.1 := by
    have hmap := h ref
    rw [hdoc, hdoc'] at hmap
    exact Option.some.inj hmap
  unfold Carries
  rw [hsame]

theorem sameMixin_putMixin (ref : Ref) {mixin other : String} (hne : mixin ≠ other)
    (attributes : Fields) :
    Effect.Within (SameMixin mixin) (Sync.putMixin env ref other attributes) := by
  apply Effect.Within.bind (SameMixin.trans mixin)
    (Sync.reach_within (SameMixin.refl mixin) env .platform)
  intro _
  refine Effect.Within.modify fun w => ?_
  cases hdoc : w.docs.get? ref with
  | none => exact SameMixin.refl mixin w
  | some doc =>
    intro r
    dsimp only
    by_cases hr : r = ref
    · subst hr
      rw [OrderedMap.get?_set_self, hdoc]
      exact congrArg some (OrderedMap.get?_set_of_ne _ hne _)
    · rw [OrderedMap.get?_set_of_ne _ hr]

theorem sameMixin_findByGitlab (mixin workspaceUuid : String) (kind : GitlabKind)
    (gitlabId : String) :
    Effect.Within (SameMixin mixin) (Sync.findByGitlab env workspaceUuid kind gitlabId) := by
  intro w
  obtain ⟨r, lookups, hrun, -⟩ := Sync.findByGitlab_cases env workspaceUuid kind gitlabId w
  rw [hrun]
  exact SameMixin.refl mixin w

/-- The children are linked by another mixin. -/
theorem Epics.sameMixin_linkChildren (binding : BindingRef) (syncEpic : Fields) :
    Effect.Within (SameMixin MR_EPIC_MIXIN) (linkChildren env binding bctx syncEpic) := by
  have htrans := SameMixin.trans MR_EPIC_MIXIN
  have hput : ∀ ref attributes, Effect.Within (SameMixin MR_EPIC_MIXIN)
      (Sync.putMixin env ref MR_REVIEW_MIXIN_DOC attributes) :=
    fun ref attributes => sameMixin_putMixin ref (by decide) attributes
  refine Effect.Within.bind htrans (Effect.Within.ofExcept (SameMixin.refl _) _) fun children => ?_
  refine Effect.Within.bind htrans ?_ fun _ => ?_
  · refine Effect.Within.forEach (SameMixin.refl _) htrans fun child _ => ?_
    refine Effect.Within.bind htrans (sameMixin_findByGitlab _ _ _ _) fun mrChild => ?_
    cases mrChild with
    | some row => exact hput _ _
    | none =>
      refine Effect.Within.bind htrans (sameMixin_findByGitlab _ _ _ _) fun issueChild => ?_
      cases issueChild with
      | some row => exact hput _ _
      | none => exact Effect.Within.pure (SameMixin.refl _) _
  · exact Effect.Within.bind htrans (Sync.reach_within (SameMixin.refl _) env _) fun _ =>
      Effect.Within.modify fun w => SameMixin.refl _ w

/-- The document of the row of an object is there. -/
def Mirror.Placed (m : Mirror) (bctx : BindingContext) (o : MirrorObject) (w : World) : Prop :=
  ∀ row ∈ w.idmap.rows, row.gitlabKey = (bctx.workspaceUuid, m.gitlabKind, o.gitlabId) →
    row = m.row bctx o row.hulyRef ∧
      ∃ doc, w.docs.get? row.hulyRef = some doc ∧ doc.objectClass = m.objectClass

theorem Mirror.Placed.found {m : Mirror} {o : MirrorObject} {w : World} (h : m.Placed bctx o w)
    (hmapped : ¬ m.Lacks bctx o w) :
    ∃ ref doc, w.idmap.findByGitlab bctx.workspaceUuid m.gitlabKind o.gitlabId =
      some (m.row bctx o ref) ∧ m.row bctx o ref ∈ w.idmap.rows ∧
      w.docs.get? ref = some doc ∧ doc.objectClass = m.objectClass := by
  obtain ⟨row, hrow⟩ := Option.ne_none_iff_exists'.mp hmapped
  obtain ⟨hmem, hkey⟩ := IdMap.findByGitlab_eq_some_iff.mp hrow
  obtain ⟨heq, doc, hdoc, hclass⟩ := h row hmem hkey
  exact ⟨row.hulyRef, doc, heq ▸ hrow, heq ▸ hmem, hdoc, hclass⟩

theorem Epics.writeUpdate_run (h : env.Healthy) {ref : Ref} {doc : HulyDoc} {w : World}
    (hdoc : w.docs.get? ref = some doc) (update : Fields) (remoteTs : JsDate) :
    ∃ w₁ doc₁, (writeUpdate env ref update remoteTs).run w = (.ok (), w₁) ∧
      w₁.docs.get? ref = some doc₁ ∧ doc₁.mixins = doc.mixins := by
  unfold writeUpdate
  by_cases hempty : update = []
  · rw [if_pos hempty]
    exact ⟨w, doc, rfl, hdoc, rfl⟩
  · rw [if_neg hempty]
    exact ⟨_, _, Sync.updateDoc_run h _ w hdoc, OrderedMap.get?_set_self _ _ _, rfl⟩

/-- The update branch writes the fields of the mixin that change, and no other. -/
theorem Epics.updateFromRemote_run (bctx : BindingContext) (h : env.Healthy) {ref : Ref} {doc : HulyDoc} {w : World}
    (hdoc : w.docs.get? ref = some doc) (hclass : doc.objectClass = issueClass) (e : SyncEpic)
    (description : JsValue) (remoteTs : JsDate) :
    ∃ w₁ doc₁, (updateFromRemote env ref e.toFields description remoteTs).run w = (.ok true, w₁) ∧
      w₁.docs.get? ref = some doc₁ ∧
      (∀ mixin ∈ (mirrorObject env bctx e).again, Carries doc₁ mixin) ∧
      ∀ mixin ∈ (mirrorObject env bctx e).once, Carries doc₁ mixin → Carries doc mixin := by
  have hread := Sync.findOne_run h issueClass ref w
  rw [show (w.docs.get? ref).filter (fun doc => doc.objectClass = issueClass) = some doc by
    simp [hdoc, hclass]] at hread
  obtain ⟨w₁, doc₁, hwrite, hdoc₁, hmixins⟩ := writeUpdate_run h hdoc
    (updateOperations doc.attrs e.toFields description remoteTs) remoteTs
  have hdata : buildEpicMixinUpdateData e.toFields = .ok [("state", e.state.toJs),
      ("webUrl", .str e.webUrl), ("childIssueIids", .arr (e.childIssueIids.map .num))] := by
    simp [buildEpicMixinUpdateData, bind, Except.bind, pure, Except.pure]
  let attributes := withOriginatedMarker [("state", e.state.toJs), ("webUrl", .str e.webUrl),
    ("childIssueIids", .arr (e.childIssueIids.map .num))]
  have hkeys : attributes.map Prod.fst = ["state", "webUrl", "childIssueIids", "_originated"] := rfl
  let w₂ : World := { w₁ with docs := w₁.docs.set ref (doc₁.withMixin MR_EPIC_MIXIN attributes) }
  refine ⟨w₂, doc₁.withMixin MR_EPIC_MIXIN attributes, ?_, OrderedMap.get?_set_self _ _ _, ?_, ?_⟩
  · unfold updateFromRemote
    rw [Effect.bind_of_ok hread]
    dsimp only
    rw [Effect.bind_of_ok hwrite, hdata, Effect.ofExcept_ok_bind_run,
      Effect.bind_of_ok (Sync.putMixin_run h _ _ hdoc₁)]
    rfl
  · intro mixin hmixin
    rw [List.mem_singleton.mp hmixin]
    have hcarries := carries_withMixin doc₁ MR_EPIC_MIXIN attributes
    rwa [hkeys] at hcarries
  · intro mixin hmixin hcarries
    rw [List.mem_singleton.mp hmixin] at hcarries ⊢
    have hold := carries_of_withMixin hcarries (by decide) (by rw [hkeys]; decide)
    rwa [Carries, hmixins] at hold

theorem Epics.completes_mapped (h : env.Healthy) {binding : BindingRef}
    (hload : env.loadBinding binding = .ok bctx) (e : SyncEpic)
    (hedition : ¬ (bctx.edition ≠ none ∧ bctx.edition ≠ some "ee"))
    (hstatus : pickBacklogStatus bctx.statuses ≠ none) {w : World}
    (hplaced : (mirror env bctx e).Placed bctx (mirrorObject env bctx e) w)
    (hmapped : ¬ (mirror env bctx e).Lacks bctx (mirrorObject env bctx e) w) :
    HulyGitlab.Completes (mirror env bctx e) [mirrorObject env bctx e] bctx w
      ((applyRemote env binding e.toFields).run w).2 := by
  obtain ⟨ref, doc, hrow, hmem, hdoc, hclass⟩ := hplaced.found hmapped
  obtain ⟨status, hstatus⟩ := Option.ne_none_iff_exists'.mp hstatus
  have hedits := (mirroring env hload e w).2 hmapped
  let asked : World :=
    { w with lookups := w.lookups ++ [(.epic, epicKey env bctx (.num e.groupId) (.num e.iid))] }
  let description := JsValue.str (env.gfmMarkdownToMarkup e.description
    (groupUrl bctx (.num e.groupId) ++ "/-/epics") (groupUrl bctx (.num e.groupId)))
  have hasked : asked.docs.get? ref = some doc := hdoc
  have hfound : w.idmap.findByGitlab bctx.workspaceUuid .epic
      (epicKey env bctx (.num e.groupId) (.num e.iid)) =
      some ((mirror env bctx e).row bctx (mirrorObject env bctx e) ref) := hrow
  obtain ⟨w₁, doc₁, hupdate, hdoc₁, hagain, honce⟩ :=
    updateFromRemote_run bctx h hasked hclass e description (some e.updatedAt)
  have hrun : (applyRemote env binding e.toFields).run w =
      (linkChildren env binding bctx e.toFields).run w₁ := by
    unfold applyRemote Sync.loadBinding
    rw [hload, Effect.ofExcept_ok_bind_run, if_neg hedition, SyncEpic.field_groupId,
      SyncEpic.field_iid, SyncEpic.field_description, SyncEpic.field_updatedAt, hstatus]
    dsimp only
    rw [Effect.bind_of_ok (Sync.findByGitlab_run h _ _ _ w), hfound]
    exact Effect.bind_of_ok hupdate
  rw [hrun] at hedits ⊢
  obtain ⟨doc₂, hdoc₂, -⟩ := hedits.docs ref doc hdoc
  have hsame : SameMixin MR_EPIC_MIXIN w₁ ((linkChildren env binding bctx e.toFields).run w₁).2 :=
    sameMixin_linkChildren binding e.toFields w₁
  refine hedits.completes hmem hdoc hdoc₂ (fun mixin hmixin => ?_) fun mixin hmixin hcarries => ?_
  · have hname : mixin.1 = MR_EPIC_MIXIN := by rw [List.mem_singleton.mp hmixin]
    rw [← hname] at hsame
    exact (hsame.carries_iff hdoc₁ hdoc₂).mpr (hagain mixin hmixin)
  · have hname : mixin.1 = MR_EPIC_MIXIN := by rw [List.mem_singleton.mp hmixin]
    rw [← hname] at hsame
    exact honce mixin hmixin ((hsame.carries_iff hdoc₁ hdoc₂).mp hcarries)

/-- Rows and documents stay where they are, and new rows have new documents. -/
theorem Grows.stillPlaced {m : Mirror} {o : MirrorObject} {w w' : World}
    (h : Grows m bctx w w') (hw : m.Placed bctx o w) : m.Placed bctx o w' := by
  intro row hrow hkey
  obtain hold | hguest | ⟨o', -, ref, doc, rfl, -, hdoc, hclass, -⟩ := h.fresh row hrow
  · obtain ⟨heq, doc, hdoc, hclass⟩ := hw row hold hkey
    obtain ⟨doc', hdoc', hext⟩ := h.docs _ doc hdoc
    exact ⟨heq, doc', hdoc', hext.objectClass.trans hclass⟩
  · exact absurd ((congrArg (fun key => key.2.1) hkey).symm.trans hguest.1) m.notUser
  · have hid : o'.gitlabId = o.gitlabId := congrArg (fun key => key.2.2) hkey
    exact ⟨by simp [Mirror.row, hid], doc, hdoc, hclass⟩

theorem Mirror.Lacks.placed {m : Mirror} {o : MirrorObject} {w : World} (h : m.Lacks bctx o w) :
    m.Placed bctx o w := fun _ hrow hkey => absurd hkey (h.gitlabKey_ne hrow)

end Epics

section Threads

variable {env : Env} (h : env.Healthy) {bctx : BindingContext} (t : SyncReviewThread)
include h

theorem Reviews.resolvePerson_run (u : SyncUser) (w : World) :
    (resolvePerson env u.toJs).run w = (.ok (resolverOf env (some u)), w) := by
  unfold resolvePerson
  rw [Issues.identityOf_toJs, Effect.ofExcept_ok_bind_run,
    Effect.bind_of_ok (mapByGitlabUser_run h (Issues.identity_email u) w)]
  rw [resolverOf, Option.bind_some]
  rfl

theorem Reviews.resolvedByOf_run (w : World) :
    (resolvedByOf env (.ofOption SyncUser.toJs t.resolvedBy)).run w =
      (.ok (resolverOf env t.resolvedBy), w) := by
  unfold resolvedByOf
  cases t.resolvedBy with
  | none => rfl
  | some u =>
    have hdefined : u.toJs ≠ .null := JsValue.noConfusion
    rw [JsValue.ofOption_some, if_neg hdefined]
    exact resolvePerson_run h u w

/-- The update of a message returns, and leaves the mixins. -/
theorem Reviews.updateMessage_run {ref : Ref} {doc : HulyDoc} {w : World}
    (hdoc : w.docs.get? ref = some doc) (message author : JsValue) (updatedAt : JsDate) :
    ∃ w₁ doc₁, (updateMessage env ref message author updatedAt).run w = (.ok (), w₁) ∧
      w₁.docs.get? ref = some doc₁ ∧ doc₁.mixins = doc.mixins := by
  unfold updateMessage
  rw [Effect.bind_of_ok (Sync.findOne_run h chatMessageClass ref w), Effect.ite_run]
  split_ifs
  · exact ⟨_, _, Sync.updateDoc_run h _ w hdoc, OrderedMap.get?_set_self _ _ _, rfl⟩
  · exact ⟨w, doc, rfl, hdoc, rfl⟩

/-- The state between two rounds of the loop over the notes. -/
structure Reviews.Between (env : Env) (bctx : BindingContext) (t : SyncReviewThread) (w : World) :
    Prop where
  inOrder : InOrder bctx.hulyProjectRef w
  unclaimed : Unclaimed env w
  placed : ∀ o ∈ (mirror env t).objects, (mirror env t).Placed bctx o w

/-- What is left of a round after the note was looked up and its author resolved. -/
theorem Reviews.applyThreadNote_asks {n : SyncReviewNote} (huser : n.system = false)
    (parentRef : Ref) {w : World} (howned : StubsOwned w.idmap) :
    ∃ message author settled, Edits bctx w settled ∧ settled.docs = w.docs ∧
      (applyThreadNote env bctx parentRef (stateOf env t) (rootOf t) (.obj n.toFields)).run w =
        (putMessage env bctx
            (w.idmap.findByGitlab bctx.workspaceUuid .review_thread
              (noteIdmapKey (.str t.discussionId) (.num n.id)))
            (noteIdmapKey (.str t.discussionId) (.num n.id)) parentRef message author
            (some n.createdAt) (some n.updatedAt) >>= fun ref =>
          Sync.putMixin env ref MR_REVIEW_THREAD_MIXIN (withOriginatedMarker
            (mixinAttributes (stateOf env t) (.obj n.toFields) (rootOf t)))).run settled := by
  have htruthy : (JsValue.bool n.system).truthy = n.system := rfl
  let key := noteIdmapKey (.str t.discussionId) (.num n.id)
  let asked : World := { w with lookups := w.lookups ++ [(.review_thread, key)] }
  obtain ⟨idmap, lookups, -, hauthor⟩ := resolveUser_run h bctx.workspaceUuid
    (Issues.identityOf_toJs n.author) (Issues.identity_email n.author) (w := asked) howned
  have hedits : Edits bctx w { asked with idmap := idmap, lookups := lookups } := by
    have hresolve : Edits bctx asked _ := Editing.resolveUser env (SyncUser.toJs n.author) asked
    rw [hauthor] at hresolve
    have hasked : Edits bctx w asked := Edits.of_same rfl rfl
    exact Edits.trans _ _ _ hasked hresolve
  refine ⟨.str (env.gfmMarkdownToMarkup n.body (mergeRequestRefUrl bctx) (imageUrl bctx)),
    .str (personOf env asked.idmap bctx.workspaceUuid (Issues.identity n.author)), _, hedits, rfl,
    ?_⟩
  unfold applyThreadNote
  rw [JsValue.prop_obj, SyncReviewNote.field_system, Effect.ofExcept_ok_bind_run, htruthy, huser,
    if_neg Bool.false_ne_true]
  dsimp only
  rw [JsValue.get_obj, JsValue.get_obj, JsValue.get_obj, JsValue.get_obj, JsValue.get_obj,
    SyncReviewNote.field_id, SyncReviewNote.field_body, SyncReviewNote.field_author,
    SyncReviewNote.field_createdAt, SyncReviewNote.field_updatedAt,
    Effect.bind_of_ok (Sync.findByGitlab_run h _ _ _ w), JsValue.asStr_str,
    Effect.ofExcept_ok_bind_run]
  exact Effect.bind_of_ok hauthor

/-- A note without a row: its message is created, mapped and given the mixin. -/
theorem Reviews.putMessage_created {n : SyncReviewNote}
    (hmem : noteObject env t n ∈ (mirror env t).objects) {w settled : World}
    (hedits : Edits bctx w settled) (hw : Between env bctx t w)
    (hlacks : (mirror env t).Lacks bctx (noteObject env t n) w) (parentRef : Ref)
    (message author : JsValue) (createdAt updatedAt : JsDate) :
    ∃ w', (putMessage env bctx none (noteIdmapKey (.str t.discussionId) (.num n.id)) parentRef
          message author createdAt updatedAt >>= fun ref =>
        Sync.putMixin env ref MR_REVIEW_THREAD_MIXIN (withOriginatedMarker
          (mixinAttributes (stateOf env t) (.obj n.toFields) (rootOf t)))).run settled =
        (.ok (), w') ∧ Completes (mirror env t) [noteObject env t n] bctx w w' := by
  have hready : Ready env (mirror env t) bctx (noteObject env t n)
      (StatusMap.entryOf env settled.statusCache (toString bctx.gitlabProjectId) bctx.statuses)
      settled :=
    ⟨⟨hedits.inOrder hw.inOrder, rfl⟩,
      Grows.unclaimed (m := mirror env t) hedits.grows hw.unclaimed, hedits.lacks_iff.mpr hlacks⟩
  have hdrafted : Drafted (mirror env t) bctx [] settled _ _ :=
    drafted_createDoc env bctx.hulyProjectRef (Fields.assign [("modifiedOn", .num settled.now)]
      (Notes.messageAttributes parentRef message author createdAt updatedAt)) settled
  obtain ⟨w₂, hupsert, hclaimed⟩ := hdrafted.upsert_run h hready.unclaimed hmem (covers_nil _)
    hready.lacks
  obtain ⟨w₃, hput, hdone⟩ := hclaimed.putMixin_run h MR_REVIEW_THREAD_MIXIN
    (withOriginatedMarker (mixinAttributes (stateOf env t) (.obj n.toFields) (rootOf t)))
  have hmessage : (createMessage env bctx (noteIdmapKey (.str t.discussionId) (.num n.id))
      parentRef message author createdAt updatedAt).run settled =
      (.ok (env.generateId settled.docs.keys), w₂) := by
    unfold createMessage
    rw [Effect.bind_of_ok (Sync.createDoc_run h _ _ _ settled)]
    exact Effect.bind_of_ok hupsert
  refine ⟨w₃, (Effect.bind_of_ok hmessage).trans hput, ?_⟩
  refine Created.completes (Created.resolved hedits ⟨_, _, hdone, ?_, covers_nil _⟩)
  intro doc hdoc mixin hmixin
  rw [List.mem_singleton.mp hmixin]
  exact hdoc _ List.mem_cons_self

/-- A note with a row: its message is updated, if it is to be, and given the mixin. -/
theorem Reviews.putMessage_found {settled : World} {row : IdMapDoc} {doc : HulyDoc}
    (hdoc : settled.docs.get? row.hulyRef = some doc) (key : String) (parentRef : Ref)
    (message author : JsValue) (createdAt updatedAt : JsDate) (attributes : Fields) :
    ∃ w', ∃ doc' : HulyDoc, (putMessage env bctx (some row) key parentRef message author createdAt
          updatedAt >>= fun ref =>
        Sync.putMixin env ref MR_REVIEW_THREAD_MIXIN attributes).run settled = (.ok (), w') ∧
      w'.docs.get? row.hulyRef = some (doc'.withMixin MR_REVIEW_THREAD_MIXIN attributes) := by
  obtain ⟨w₁, doc₁, hupdate, hdoc₁, -⟩ := updateMessage_run h hdoc message author updatedAt
  have hmessage : (putMessage env bctx (some row) key parentRef message author createdAt
      updatedAt).run settled = (.ok row.hulyRef, w₁) := Effect.bind_of_ok hupdate
  exact ⟨_, doc₁, (Effect.bind_of_ok hmessage).trans
    (Sync.putMixin_run h MR_REVIEW_THREAD_MIXIN attributes hdoc₁), OrderedMap.get?_set_self _ _ _⟩

/-- A round of the loop returns, and completes its note. -/
theorem Reviews.applyThreadNote_run {n : SyncReviewNote} (hn : n ∈ t.notes) (parentRef : Ref)
    {w : World} (hw : Between env bctx t w) :
    ∃ w', (applyThreadNote env bctx parentRef (stateOf env t) (rootOf t) (.obj n.toFields)).run w =
        (.ok (), w') ∧
      (n.system = false → Completes (mirror env t) [noteObject env t n] bctx w w') := by
  by_cases hsystem : n.system = true
  · refine ⟨w, ?_, fun huser => absurd huser (by rw [hsystem]; decide)⟩
    have htruthy : (JsValue.bool n.system).truthy = n.system := rfl
    unfold applyThreadNote
    rw [JsValue.prop_obj, SyncReviewNote.field_system, Effect.ofExcept_ok_bind_run, htruthy,
      if_pos hsystem]
    rfl
  · have huser : n.system = false := by simpa using hsystem
    have hmem : noteObject env t n ∈ (mirror env t).objects :=
      List.mem_map_of_mem (List.mem_filter.mpr ⟨hn, by simpa using hsystem⟩)
    have hmirroring : Grows (mirror env t) bctx w _ ∧ (_ → Edits bctx w _) :=
      mirroring_applyThreadNote env t hn parentRef (stateOf env t) (rootOf t) rfl w
    obtain ⟨message, author, settled, hedits, hdocs, hrun⟩ :=
      applyThreadNote_asks h t huser parentRef hw.inOrder.owned
    rw [hrun] at hmirroring ⊢
    by_cases hlacks : (mirror env t).Lacks bctx (noteObject env t n) w
    · have hnone : w.idmap.findByGitlab bctx.workspaceUuid .review_thread
          (noteIdmapKey (.str t.discussionId) (.num n.id)) = none := hlacks
      rw [hnone]
      obtain ⟨w', hput, hdone⟩ := putMessage_created h t hmem hedits hw hlacks parentRef message
        author (some n.createdAt) (some n.updatedAt)
      exact ⟨w', hput, fun _ => hdone⟩
    · obtain ⟨ref, doc, hrow, hin, hdoc, -⟩ := (hw.placed _ hmem).found hlacks
      have hfound : w.idmap.findByGitlab bctx.workspaceUuid .review_thread
          (noteIdmapKey (.str t.discussionId) (.num n.id)) =
          some ((mirror env t).row bctx (noteObject env t n) ref) := hrow
      have hall := hmirroring.2 hlacks
      rw [hfound] at hall ⊢
      have hsettled : settled.docs.get? ref = some doc := hdocs ▸ hdoc
      obtain ⟨w', doc', hput, hdoc'⟩ := putMessage_found h
        (show settled.docs.get? ((mirror env t).row bctx (noteObject env t n) ref).hulyRef = some doc
          from hsettled)
        (noteIdmapKey (.str t.discussionId) (.num n.id)) parentRef message author
        (some n.createdAt) (some n.updatedAt) (withOriginatedMarker
          (mixinAttributes (stateOf env t) (.obj n.toFields) (rootOf t)))
      rw [hput] at hall ⊢
      refine ⟨w', rfl, fun _ => hall.completes hin hdoc hdoc' (fun mixin hmixin => ?_)
        fun mixin hmixin => absurd hmixin List.not_mem_nil⟩
      rw [List.mem_singleton.mp hmixin]
      exact carries_withMixin doc' MR_REVIEW_THREAD_MIXIN _

omit h in
theorem Grows.between {w w' : World} (hgrows : Grows (Reviews.mirror env t) bctx w w')
    (hw : Reviews.Between env bctx t w) : Reviews.Between env bctx t w' :=
  ⟨hgrows.inOrder hw.inOrder, hgrows.unclaimed hw.unclaimed,
    fun o ho => hgrows.stillPlaced (hw.placed o ho)⟩

/-- The loop over the notes returns, and completes those of users. -/
theorem Reviews.forEach_run (parentRef : Ref) {notes : List SyncReviewNote}
    (hnotes : ∀ n ∈ notes, n ∈ t.notes) {w : World} (hw : Between env bctx t w) :
    ∃ w', (Effect.forEach (applyThreadNote env bctx parentRef (stateOf env t) (rootOf t))
        (notes.map fun n => .obj n.toFields)).run w = (.ok (), w') ∧
      Grows (mirror env t) bctx w w' ∧
      Completes (mirror env t) ((notes.filter fun n => !n.system).map (noteObject env t)) bctx
        w w' := by
  induction notes generalizing w with
  | nil =>
    refine ⟨w, rfl, Grows.refl w, fun o ho => absurd ho List.not_mem_nil,
      fun ref doc hdoc _ hnone => ?_⟩
    rw [hdoc] at hnone
    cases hnone
  | cons n notes ih =>
    have hn := hnotes n List.mem_cons_self
    obtain ⟨w₁, hrun, hround⟩ := applyThreadNote_run h t hn parentRef hw
    have hgrows : Grows (mirror env t) bctx w w₁ := by
      have hall : Grows (mirror env t) bctx w _ :=
        (mirroring_applyThreadNote env t hn parentRef (stateOf env t) (rootOf t) rfl w).1
      rwa [hrun] at hall
    obtain ⟨w₂, hrest, hgrows', hcompletes⟩ :=
      ih (fun n' hn' => hnotes n' (List.mem_cons_of_mem n hn')) (hgrows.between t hw)
    refine ⟨w₂, (Effect.bind_of_ok hrun).trans hrest, Grows.trans _ _ _ hgrows hgrows', ?_⟩
    cases hsystem : n.system with
    | false =>
      rw [List.filter_cons_of_pos (by simp [hsystem]), List.map_cons]
      refine (hround hsystem).append hgrows' hcompletes fun o ho => ?_
      obtain rfl | ho := List.mem_cons.mp ho
      · rfl
      · obtain ⟨n', -, rfl⟩ := List.mem_map.mp ho
        rfl
    | true =>
      rw [List.filter_cons_of_neg (by simp [hsystem])]
      have hskip : w₁ = w := by
        have hsame : (applyThreadNote env bctx parentRef (stateOf env t) (rootOf t)
            (.obj n.toFields)).run w = (.ok (), w) := by
          unfold applyThreadNote
          rw [JsValue.prop_obj, SyncReviewNote.field_system, Effect.ofExcept_ok_bind_run, hsystem]
          rfl
        rw [hsame] at hrun
        exact (congrArg Prod.snd hrun).symm
      rwa [hskip] at hcompletes

/-- A thread whose merge request is mirrored. -/
theorem Reviews.completes {binding : BindingRef} (hload : env.loadBinding binding = .ok bctx)
    {w : World} (hw : Between env bctx t w)
    (hparent : ∃ row, w.idmap.findByGitlab bctx.workspaceUuid .merge_request
      (projectKey env bctx (.num t.mergeRequestIid)) = some row) :
    Completes (mirror env t) (mirror env t).objects bctx w
      ((applyRemote env binding t.toFields).run w).2 := by
  obtain ⟨row, hrow⟩ := hparent
  let asked : World := { w with
    lookups := w.lookups ++ [(.merge_request, projectKey env bctx (.num t.mergeRequestIid))] }
  have hasked : Between env bctx t asked :=
    ⟨⟨hw.inOrder.owned, hw.inOrder.typed⟩, hw.unclaimed, hw.placed⟩
  have hnotes : ∀ n ∈ t.notes, n ∈ t.notes := fun _ hn => hn
  obtain ⟨w', hloop, -, hdone⟩ := forEach_run h t row.hulyRef hnotes hasked
  have hresolvedAt : resolvedAtOf (.ofOption .date t.resolvedAt) =
      .ok (stateOf env t).resolvedAt := by
    unfold resolvedAtOf stateOf
    cases t.resolvedAt <;> rfl
  have hrun : (applyRemote env binding t.toFields).run w =
      (Sync.setCursor env binding .reviews (some t.updatedAt)).run w' := by
    unfold applyRemote Sync.loadBinding findParent
    rw [hload, Effect.ofExcept_ok_bind_run, SyncReviewThread.field_mergeRequestIid,
      Effect.bind_of_ok (Sync.findByGitlab_run h _ _ _ w), hrow]
    dsimp only
    unfold applyMapped
    rw [SyncReviewThread.field_resolvedBy, SyncReviewThread.field_resolvedAt,
      SyncReviewThread.field_notes, SyncReviewThread.field_discussionId,
      SyncReviewThread.field_resolved, SyncReviewThread.field_updatedAt,
      Effect.bind_of_ok (resolvedByOf_run h t _), hresolvedAt, Effect.ofExcept_ok_bind_run,
      JsValue.elements_arr, Effect.ofExcept_ok_bind_run]
    cases hlist : t.notes with
    | nil =>
      rw [hlist, show rootOf t = .undefined by simp [rootOf, hlist]] at hloop
      exact Effect.bind_of_ok hloop
    | cons root rest =>
      rw [hlist, show rootOf t = .num root.id by simp [rootOf, hlist]] at hloop
      exact Effect.bind_of_ok hloop
  rw [hrun, Sync.setCursor_run h]
  exact ⟨hdone.mirrored, hdone.sourced⟩

end Threads

end HulyGitlab
