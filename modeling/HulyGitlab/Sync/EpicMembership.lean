import HulyGitlab.Lib.Transition
import HulyGitlab.Sync.MirrorRuns
import HulyGitlab.Sync.MixinMigration
import Mathlib.Data.Set.Insert

/-!
# The members of an epic

A backfill asks for the children of an epic and keeps their `iid`s only. What
carries the epic afterwards is what carried it before together with the
documents that these numbers lead to.
-/

namespace HulyGitlab.Epics

/-- A child of an epic, as GitLab lists it. -/
structure EpicChild where
  projectId : Int
  iid : Int
  deriving DecidableEq

/-- The pages are put together. -/
def listEpicIssues (children : List EpicChild) : List Int × List Int :=
  (children.map EpicChild.iid, children.map EpicChild.projectId)

/-- An epic and the children GitLab lists for it. -/
structure Listing where
  epic : SyncEpic
  children : List EpicChild
  deriving DecidableEq

/-- The record that the backfill enqueues. -/
def Listing.enriched (l : Listing) : SyncEpic :=
  { l.epic with childIssueIids := (listEpicIssues l.children).1 }

/-- The record is applied. -/
def apply (env : Env) (binding : BindingRef) (w : World) (l : Listing) : World :=
  ((applyRemote env binding l.enriched.toFields).run w).2

/-- Nothing throws. -/
def Completes (env : Env) (binding : BindingRef) (w : World) (l : Listing) : Prop :=
  ((applyRemote env binding l.enriched.toFields).run w).1 = .ok ()

instance (env : Env) (binding : BindingRef) (w : World) (l : Listing) :
    Decidable (Completes env binding w l) := inferInstanceAs (Decidable (_ = _))

def parentEpicIid (doc : HulyDoc) : JsValue :=
  (doc.mixinAttrs MR_REVIEW_MIXIN_DOC).field "parentEpicIid"

/-- The documents that carry the epic. -/
def carriers (iid : Int) (w : World) : Set Ref :=
  {ref | ∃ doc, w.docs.get? ref = some doc ∧ parentEpicIid doc = .num iid}

theorem mem_carriers_iff {iid : Int} {w : World} {ref : Ref} : ref ∈ carriers iid w ↔
    (w.docs.get? ref).any (fun doc => decide (parentEpicIid doc = .num iid)) = true := by
  rw [Option.any_eq_true]
  exact exists_congr fun doc => and_congr_right fun _ => decide_eq_true_iff.symm

/-- The mirrors of the children that are issues of the project of the binding. -/
def members (env : Env) (bctx : BindingContext) (children : List EpicChild) (w : World) : Set Ref :=
  {ref | (∃ doc, w.docs.get? ref = some doc) ∧
    ∃ child ∈ children, child.projectId = bctx.gitlabProjectId ∧
      ∃ row, w.idmap.findByGitlab bctx.workspaceUuid .issue
        (projectKey env bctx (.num child.iid)) = some row ∧ row.hulyRef = ref}

/-- The membership is mirrored exactly. -/
def Exact (env : Env) (bctx : BindingContext) (l : Listing) (w : World) : Prop :=
  carriers l.epic.iid w = members env bctx l.children w

section Links

variable (env : Env) (bctx : BindingContext)

/-- The document that a number leads to. -/
def linkTarget (idmap : IdMap) (iid : Int) : Option Ref :=
  match idmap.findByGitlab bctx.workspaceUuid .merge_request (projectKey env bctx (.num iid)) with
  | some row => some row.hulyRef
  | none =>
      (idmap.findByGitlab bctx.workspaceUuid .issue (projectKey env bctx (.num iid))).map
        (·.hulyRef)

/-- The documents that the numbers lead to. -/
def linked (iids : List Int) (w : World) : Set Ref :=
  {ref | (∃ doc, w.docs.get? ref = some doc) ∧
    ∃ iid ∈ iids, linkTarget env bctx w.idmap iid = some ref}

/-- The documents of a set come to carry the epic, and nothing else changes for it. -/
structure Links (epicIid : Int) (added : Set Ref) (w w' : World) : Prop where
  idmap : w'.idmap = w.idmap
  docs : ∀ ref, (∃ doc, w'.docs.get? ref = some doc) ↔ ∃ doc, w.docs.get? ref = some doc
  carriers : carriers epicIid w' = carriers epicIid w ∪ added

variable {env bctx} {epicIid : Int} {w w₁ w' : World}

theorem Links.of_same (hidmap : w'.idmap = w.idmap) (hdocs : w'.docs = w.docs) :
    Links epicIid ∅ w w' := by
  refine ⟨hidmap, fun ref => by rw [hdocs], ?_⟩
  rw [Set.union_empty, Epics.carriers, Epics.carriers, hdocs]

/-- The parent is written to a document. -/
theorem links_putMixin {ref : Ref} {doc : HulyDoc} (hdoc : w.docs.get? ref = some doc) :
    Links epicIid {ref} w
      { w with
        docs := w.docs.set ref (doc.withMixin MR_REVIEW_MIXIN_DOC
          (withOriginatedMarker [("parentEpicIid", .num epicIid)])) } := by
  have hparent : parentEpicIid (doc.withMixin MR_REVIEW_MIXIN_DOC
      (withOriginatedMarker [("parentEpicIid", .num epicIid)])) = .num epicIid := by
    rw [parentEpicIid, HulyDoc.mixinAttrs, HulyDoc.withMixin, OrderedMap.get?_set_self,
      Option.getD_some]
    have hkeys : (withOriginatedMarker [("parentEpicIid", .num epicIid)]).map Prod.fst =
        ["parentEpicIid", "_originated"] := rfl
    have hnodup : ((withOriginatedMarker [("parentEpicIid", .num epicIid)]).map Prod.fst).Nodup := by
      rw [hkeys]
      decide
    rw [Fields.field_assign_of_mem _ _ (by rw [hkeys]; exact List.mem_cons_self) hnodup]
    rfl
  refine ⟨rfl, fun other => ?_, Set.ext fun other => ?_⟩
  · dsimp only
    rw [OrderedMap.get?_set]
    split_ifs with hother
    · rw [hother, hdoc]
      exact ⟨fun _ => ⟨_, rfl⟩, fun _ => ⟨_, rfl⟩⟩
    · exact Iff.rfl
  · simp only [Epics.carriers, Set.mem_union, Set.mem_ofPred_eq, Set.mem_singleton_iff,
      OrderedMap.get?_set]
    split_ifs with hother
    · exact ⟨fun _ => .inr hother, fun _ => ⟨_, rfl, hparent⟩⟩
    · exact ⟨.inl, fun h => h.resolve_right hother⟩

theorem putMixin_ok {ref : Ref} (h : (Sync.putMixin env ref MR_REVIEW_MIXIN_DOC
    (withOriginatedMarker [("parentEpicIid", .num epicIid)])).run w = (.ok (), w')) :
    Links epicIid {r | r = ref ∧ ∃ doc, w.docs.get? r = some doc} w w' := by
  cases hdoc : w.docs.get? ref with
  | some doc =>
    obtain ⟨e, hrun⟩ | hrun := Sync.putMixin_cases env MR_REVIEW_MIXIN_DOC
      (withOriginatedMarker [("parentEpicIid", .num epicIid)]) hdoc
    · rw [hrun] at h
      cases h
    · rw [hrun] at h
      cases h
      have hset : {r | r = ref ∧ ∃ doc, w.docs.get? r = some doc} = {ref} := by
        ext r
        constructor
        · exact fun hr => hr.1
        · rintro rfl
          exact ⟨rfl, doc, hdoc⟩
      rw [hset]
      exact links_putMixin hdoc
  | none =>
    have hset : {r | r = ref ∧ ∃ doc, w.docs.get? r = some doc} = ∅ := by
      ext r
      constructor
      · rintro ⟨rfl, doc, hfound⟩
        rw [hdoc] at hfound
        cases hfound
      · exact fun hr => absurd hr (Set.notMem_empty r)
    rw [hset]
    obtain ⟨e, hrun⟩ | hrun := Sync.putMixin_cases_of_none env MR_REVIEW_MIXIN_DOC
      (withOriginatedMarker [("parentEpicIid", .num epicIid)]) hdoc
    · rw [hrun] at h
      cases h
    · rw [hrun] at h
      cases h
      exact Links.of_same rfl rfl

theorem Links.trans {added added' : Set Ref} (h : Links epicIid added w w₁)
    (h' : Links epicIid added' w₁ w') : Links epicIid (added ∪ added') w w' where
  idmap := h'.idmap.trans h.idmap
  docs ref := (h'.docs ref).trans (h.docs ref)
  carriers := by rw [h'.carriers, h.carriers, Set.union_assoc]

/-- A lookup before the write does not matter. -/
theorem Links.of_lookups {added : Set Ref} {lookups : List (GitlabKind × String)}
    (h : Links epicIid added { w with lookups := lookups } w') : Links epicIid added w w' :=
  ⟨h.idmap, h.docs, h.carriers⟩

/-- The document a child leads to is linked. -/
theorem linkChild_ok {iid : Int}
    (h : (linkChild env bctx (.num epicIid) (.num iid)).run w = (.ok (), w')) :
    Links epicIid (linked env bctx [iid] w) w w' := by
  unfold linkChild at h
  dsimp only at h
  obtain ⟨mrChild, w₁, hmr, h⟩ := Effect.bind_ok_iff.mp h
  obtain ⟨rfl, lookups, rfl⟩ := Sync.findByGitlab_ok env hmr
  have hlinked : ∀ target, linkTarget env bctx w.idmap iid = target →
      linked env bctx [iid] w = {r | some r = target ∧ ∃ doc, w.docs.get? r = some doc} := by
    rintro target rfl
    ext r
    simp only [linked, Set.mem_ofPred_eq, List.mem_singleton, exists_eq_left]
    exact ⟨fun hr => ⟨hr.2.symm, hr.1⟩, fun hr => ⟨hr.2, hr.1.symm⟩⟩
  have hset : ∀ ref, {r | some r = some ref ∧ ∃ doc, w.docs.get? r = some doc} =
      {r | r = ref ∧ ∃ doc, w.docs.get? r = some doc} := by
    intro ref
    simp only [Option.some.injEq]
  cases hrow : w.idmap.findByGitlab bctx.workspaceUuid .merge_request
      (projectKey env bctx (.num iid)) with
  | some row =>
    rw [hrow] at h
    have htarget : linkTarget env bctx w.idmap iid = some row.hulyRef := by
      rw [linkTarget, hrow]
    rw [hlinked _ htarget, hset]
    exact (putMixin_ok h).of_lookups
  | none =>
    rw [hrow] at h
    dsimp only at h
    obtain ⟨issueChild, w₂, hissue, h⟩ := Effect.bind_ok_iff.mp h
    obtain ⟨rfl, lookups', rfl⟩ := Sync.findByGitlab_ok env hissue
    dsimp only at h
    have htarget : linkTarget env bctx w.idmap iid =
        (w.idmap.findByGitlab bctx.workspaceUuid .issue (projectKey env bctx (.num iid))).map
          (·.hulyRef) := by
      rw [linkTarget, hrow]
    rw [hlinked _ htarget]
    cases hchild : w.idmap.findByGitlab bctx.workspaceUuid .issue
        (projectKey env bctx (.num iid)) with
    | some row =>
      rw [hchild] at h
      rw [Option.map_some, hset]
      exact (putMixin_ok h).of_lookups
    | none =>
      rw [hchild] at h
      cases h
      have hempty : {r | some r = (none : Option IdMapDoc).map (·.hulyRef) ∧
          ∃ doc, w.docs.get? r = some doc} = ∅ := by
        ext r
        simp
      rw [hempty]
      exact Links.of_same rfl rfl

theorem linked_cons (iid : Int) (iids : List Int) :
    linked env bctx (iid :: iids) w = linked env bctx [iid] w ∪ linked env bctx iids w := by
  ext ref
  simp only [linked, Set.mem_union, Set.mem_ofPred_eq, List.mem_cons, List.not_mem_nil, or_false,
    exists_eq_or_imp, exists_eq_left]
  tauto

/-- Linking one document does not change where the other numbers lead. -/
theorem Links.linked_eq {added : Set Ref} (h : Links epicIid added w w') (iids : List Int) :
    linked env bctx iids w' = linked env bctx iids w := by
  ext ref
  simp only [linked, Set.mem_ofPred_eq, h.idmap, h.docs ref]

theorem forEach_linkChild_ok {iids : List Int}
    (h : (Effect.forEach (linkChild env bctx (.num epicIid)) (iids.map JsValue.num)).run w =
      (.ok (), w')) : Links epicIid (linked env bctx iids w) w w' := by
  induction iids generalizing w with
  | nil =>
    have hempty : linked env bctx [] w = ∅ := by
      ext ref
      simp [linked]
    rw [hempty]
    cases h
    exact Links.of_same rfl rfl
  | cons iid iids ih =>
    rw [List.map_cons, Effect.forEach_cons] at h
    obtain ⟨_, w₁, hfirst, hrest⟩ := Effect.bind_ok_iff.mp h
    have hlink := linkChild_ok hfirst
    rw [linked_cons, ← hlink.linked_eq iids]
    exact hlink.trans (ih hrest)

end Links

section Beside

variable {env : Env} {bctx : BindingContext} {w w₁ w' : World}

/-- The children of the project are found as before, and the same documents carry each epic. -/
structure Beside (bctx : BindingContext) (w w' : World) : Prop where
  rows : ∀ kind key, kind = .issue ∨ kind = .merge_request →
    w'.idmap.findByGitlab bctx.workspaceUuid kind key =
      w.idmap.findByGitlab bctx.workspaceUuid kind key
  docs : ∀ kind key row, kind = .issue ∨ kind = .merge_request →
    w.idmap.findByGitlab bctx.workspaceUuid kind key = some row →
      ((∃ doc, w'.docs.get? row.hulyRef = some doc) ↔ ∃ doc, w.docs.get? row.hulyRef = some doc)
  carriers : ∀ iid, carriers iid w' = carriers iid w

namespace Beside

theorem of_same (hidmap : w'.idmap = w.idmap) (hdocs : w'.docs = w.docs) : Beside bctx w w' :=
  ⟨fun _ _ _ => by rw [hidmap], fun _ _ _ _ _ => by rw [hdocs],
    fun _ => by rw [Epics.carriers, Epics.carriers, hdocs]⟩

theorem refl (w : World) : Beside bctx w w := of_same rfl rfl

theorem trans (w w₁ w' : World) (h : Beside bctx w w₁) (h' : Beside bctx w₁ w') :
    Beside bctx w w' where
  rows kind key hkind := (h'.rows kind key hkind).trans (h.rows kind key hkind)
  docs kind key row hkind hrow :=
    (h'.docs kind key row hkind ((h.rows kind key hkind).trans hrow)).trans
      (h.docs kind key row hkind hrow)
  carriers iid := (h'.carriers iid).trans (h.carriers iid)

/-- A write that keeps the parent of a document. -/
theorem setDoc {ref : Ref} {doc doc' : HulyDoc} (hdoc : w.docs.get? ref = some doc)
    (hparent : parentEpicIid doc' = parentEpicIid doc) :
    Beside bctx w { w with docs := w.docs.set ref doc' } := by
  refine ⟨fun _ _ _ => rfl, fun _ _ row _ _ => ?_, fun iid => Set.ext fun other => ?_⟩
  · dsimp only
    rw [OrderedMap.get?_set]
    split_ifs with hother
    · rw [hother, hdoc]
      exact ⟨fun _ => ⟨_, rfl⟩, fun _ => ⟨_, rfl⟩⟩
    · exact Iff.rfl
  · simp only [Epics.carriers, Set.mem_ofPred_eq, OrderedMap.get?_set]
    split_ifs with hother
    · rw [hother, hdoc]
      simp only [Option.some.injEq, exists_eq_left', hparent]
    · exact Iff.rfl

/-- A new document is no mirror of a child: its row would have been refused. -/
theorem create {key ref : String} {doc : HulyDoc} {idmap : IdMap}
    (hrows : ∀ row ∈ w.idmap.rows, row.gitlabKind = .issue ∨ row.gitlabKind = .merge_request →
      row.hulyClass = issueClass)
    (hfresh : w.docs.get? ref = none) (hparent : parentEpicIid doc = .undefined)
    (hup : w.idmap.upsert ⟨bctx.workspaceUuid, .epic, key, issueClass, ref⟩ = .ok idmap) :
    Beside bctx w { w with docs := w.docs.set ref doc, idmap := idmap } := by
  have hkey : ∀ {kind : GitlabKind} (other : String), kind = .issue ∨ kind = .merge_request →
      (bctx.workspaceUuid, GitlabKind.epic, key) ≠ (bctx.workspaceUuid, kind, other) := by
    rintro kind other (rfl | rfl) hsame <;> cases hsame
  refine ⟨fun kind other hkind => IdMap.findByGitlab_of_upsert hup (hkey other hkind),
    fun kind other row hkind hrow => ?_, fun iid => Set.ext fun other => ?_⟩
  · obtain ⟨hmem, hgitlab⟩ := IdMap.findByGitlab_eq_some_iff.mp hrow
    have hne : row.hulyRef ≠ ref := by
      intro href
      have hkinds : row.gitlabKind = kind := congrArg (fun k => k.2.1) hgitlab
      have hworkspace : row.workspaceUuid = bctx.workspaceUuid := congrArg Prod.fst hgitlab
      have hclass := hrows row hmem (hkinds ▸ hkind)
      have hconflict :
          w.idmap.Conflicts ⟨bctx.workspaceUuid, .epic, key, issueClass, ref⟩ := by
        refine ⟨row, hmem, ?_, fun hsame => hkey other hkind (hsame.symm.trans hgitlab)⟩
        simp only [IdMapDoc.hulyKey, hworkspace, hclass, href]
      rw [IdMap.upsert, dif_pos hconflict] at hup
      cases hup
    dsimp only
    rw [OrderedMap.get?_set_of_ne _ hne]
  · simp only [Epics.carriers, Set.mem_ofPred_eq, OrderedMap.get?_set]
    split_ifs with hother
    · rw [hother, hfresh]
      simp [hparent]
    · exact Iff.rfl

/-- What leads to a child, and what is to carry the epic, is the same. -/
theorem linked_eq (h : Beside bctx w w') (iids : List Int) :
    linked env bctx iids w' = linked env bctx iids w := by
  have htarget : ∀ iid, linkTarget env bctx w'.idmap iid = linkTarget env bctx w.idmap iid := by
    intro iid
    rw [linkTarget, linkTarget, h.rows _ _ (.inl rfl), h.rows _ _ (.inr rfl)]
  have hdocs : ∀ iid ref, linkTarget env bctx w.idmap iid = some ref →
      ((∃ doc, w'.docs.get? ref = some doc) ↔ ∃ doc, w.docs.get? ref = some doc) := by
    intro iid ref hlink
    rw [linkTarget] at hlink
    cases hmr : w.idmap.findByGitlab bctx.workspaceUuid .merge_request
        (projectKey env bctx (.num iid)) with
    | some row =>
      rw [hmr] at hlink
      obtain rfl := Option.some.inj hlink
      exact h.docs _ _ row (.inr rfl) hmr
    | none =>
      rw [hmr] at hlink
      obtain ⟨row, hrow, rfl⟩ := Option.map_eq_some_iff.mp hlink
      exact h.docs _ _ row (.inl rfl) hrow
  ext ref
  simp only [linked, Set.mem_ofPred_eq, htarget]
  constructor
  · rintro ⟨hdoc, iid, hiid, hlink⟩
    exact ⟨(hdocs iid ref hlink).mp hdoc, iid, hiid, hlink⟩
  · rintro ⟨hdoc, iid, hiid, hlink⟩
    exact ⟨(hdocs iid ref hlink).mpr hdoc, iid, hiid, hlink⟩

theorem members_eq (h : Beside bctx w w') (children : List EpicChild) :
    members env bctx children w' = members env bctx children w := by
  ext ref
  simp only [members, Set.mem_ofPred_eq, h.rows _ _ (.inl rfl)]
  constructor
  · rintro ⟨hdoc, child, hchild, hown, row, hrow, rfl⟩
    exact ⟨(h.docs _ _ row (.inl rfl) hrow).mp hdoc, child, hchild, hown, row, hrow, rfl⟩
  · rintro ⟨hdoc, child, hchild, hown, row, hrow, rfl⟩
    exact ⟨(h.docs _ _ row (.inl rfl) hrow).mpr hdoc, child, hchild, hown, row, hrow, rfl⟩

end Beside

end Beside

section Besides

variable (env : Env) {bctx : BindingContext}

/-- A computation after which the children are found as before. -/
abbrev Besides (bctx : BindingContext) {A : Type} (m : Sync A) : Prop :=
  Effect.Within (Beside bctx) m

namespace Besides

theorem findByGitlab (kind : GitlabKind) (key : String) :
    Besides bctx (Sync.findByGitlab env bctx.workspaceUuid kind key) := by
  intro w
  obtain ⟨r, lookups, hrun, -⟩ := Sync.findByGitlab_cases env bctx.workspaceUuid kind key w
  rw [hrun]
  exact Beside.of_same rfl rfl

theorem findOne (objectClass : String) (ref : Ref) :
    Besides bctx (Sync.findOne env objectClass ref) :=
  Effect.Within.bind Beside.trans (Sync.reach_within Beside.refl env _) fun _ =>
    Effect.Within.gets Beside.refl _

theorem setCursor (binding : BindingRef) (kind : CursorKind) (t : Option Nat) :
    Besides bctx (Sync.setCursor env binding kind t) :=
  Effect.Within.bind Beside.trans (Sync.reach_within Beside.refl env _) fun _ =>
    Effect.Within.modify fun _ => Beside.of_same rfl rfl

theorem updateDoc (ref : Ref) (operations : Fields) :
    Besides bctx (Sync.updateDoc env ref operations) := by
  apply Effect.Within.bind Beside.trans (Sync.reach_within Beside.refl env _)
  intro _
  refine Effect.Within.modify fun w => ?_
  cases hdoc : w.docs.get? ref with
  | none => exact Beside.refl w
  | some doc => exact Beside.setDoc hdoc rfl

/-- The mixin of the epic holds no parent. -/
theorem putMixin (ref : Ref) (attributes : Fields) :
    Besides bctx (Sync.putMixin env ref MR_EPIC_MIXIN attributes) := by
  apply Effect.Within.bind Beside.trans (Sync.reach_within Beside.refl env _)
  intro _
  refine Effect.Within.modify fun w => ?_
  cases hdoc : w.docs.get? ref with
  | none => exact Beside.refl w
  | some doc =>
    refine Beside.setDoc hdoc ?_
    dsimp only [parentEpicIid, HulyDoc.mixinAttrs]
    rw [OrderedMap.get?_set_of_ne _ (by decide : MR_REVIEW_MIXIN_DOC ≠ MR_EPIC_MIXIN)]

theorem updateFromRemote (hulyRef : Ref) (syncEpic : Fields) (description : JsValue)
    (remoteTs : JsDate) :
    Besides bctx (Epics.updateFromRemote env hulyRef syncEpic description remoteTs) := by
  apply Effect.Within.bind Beside.trans (findOne env _ _)
  intro hulyIssue
  cases hulyIssue with
  | none => exact Effect.Within.pure Beside.refl _
  | some issue =>
    refine Effect.Within.bind Beside.trans ?_ fun _ => ?_
    · exact Effect.Within.ite (fun _ => Effect.Within.pure Beside.refl _)
        fun _ => updateDoc env _ _
    · apply Effect.Within.bind Beside.trans (Effect.Within.ofExcept Beside.refl _)
      intro data
      exact Effect.Within.bind Beside.trans (putMixin env _ _) fun _ =>
        Effect.Within.pure Beside.refl _

end Besides

/-- Issues and merge requests are mirrored as tracker issues. -/
def MirrorRows (w : World) : Prop :=
  ∀ row ∈ w.idmap.rows, row.gitlabKind = .issue ∨ row.gitlabKind = .merge_request →
    row.hulyClass = issueClass

/-- The epic is mirrored for the first time. -/
theorem createFromRemote_ok {w w' : World} {gitlabId : String} {syncEpic : Fields}
    {description : JsValue} {status : Ref} {remoteTs : JsDate} (hrows : MirrorRows w)
    (h : (createFromRemote env bctx gitlabId syncEpic description status remoteTs).run w =
      (.ok (), w')) : Beside bctx w w' := by
  unfold createFromRemote at h
  obtain ⟨ref, w₁, hcreate, h⟩ := Effect.bind_ok_iff.mp h
  obtain ⟨_, w₂, hupsert, h⟩ := Effect.bind_ok_iff.mp h
  obtain ⟨e, hrun⟩ | hrun := Sync.createDoc_cases env issueClass bctx.hulyProjectRef
    (createAttributes bctx syncEpic description status remoteTs) w
  · rw [hrun] at hcreate
    cases hcreate
  rw [hrun] at hcreate
  cases hcreate
  obtain ⟨e, hrun⟩ | ⟨idmap, hup, hrun⟩ := Sync.upsertIdMap_cases env _ _
  · rw [hrun] at hupsert
    cases hupsert
  rw [hrun] at hupsert
  cases hupsert
  have hfresh : w.docs.get? (env.generateId w.docs.keys) = none :=
    (OrderedMap.get?_eq_none_iff _ _).mpr (env.generateId_fresh _)
  have hcreated := @Beside.create bctx w gitlabId (env.generateId w.docs.keys) ⟨issueClass, bctx.hulyProjectRef,
    Fields.assign [("modifiedOn", .num w.now)]
      (createAttributes bctx syncEpic description status remoteTs), .empty⟩ idmap hrows hfresh rfl hup
  refine Beside.trans _ _ _ hcreated ?_
  have hmixin : Besides bctx (Effect.ofExcept (buildEpicMixinCreateData syncEpic) >>= fun data =>
      Sync.putMixin env (env.generateId w.docs.keys) MR_EPIC_MIXIN (withOriginatedMarker data)) :=
    Effect.Within.bind Beside.trans (Effect.Within.ofExcept Beside.refl _) fun _ =>
      Besides.putMixin env _ _
  exact hmixin.of_run h

/-- An update tells whether the mirror is there. -/
theorem updateFromRemote_ok {w w' : World} {hulyRef : Ref} {syncEpic : Fields}
    {description : JsValue} {remoteTs : JsDate} {mirrored : Bool}
    (h : (updateFromRemote env hulyRef syncEpic description remoteTs).run w = (.ok mirrored, w')) :
    mirrored = ((w.docs.get? hulyRef).filter fun doc => doc.objectClass = issueClass).isSome := by
  unfold updateFromRemote at h
  obtain ⟨hulyIssue, w₁, hfind, h⟩ := Effect.bind_ok_iff.mp h
  obtain ⟨e, hrun⟩ | hrun := Sync.findOne_cases env issueClass hulyRef w
  · rw [hrun] at hfind
    cases hfind
  rw [hrun] at hfind
  obtain ⟨hfound, rfl⟩ := Prod.mk.inj hfind
  obtain rfl := Except.ok.inj hfound
  cases hdoc : (w.docs.get? hulyRef).filter fun doc => doc.objectClass = issueClass with
  | none =>
    rw [hdoc] at h
    cases h
    rfl
  | some issue =>
    rw [hdoc] at h
    obtain ⟨_, w₂, -, h⟩ := Effect.bind_ok_iff.mp h
    obtain ⟨_, w₃, -, h⟩ := Effect.bind_ok_iff.mp h
    obtain ⟨_, w₄, -, h⟩ := Effect.bind_ok_iff.mp h
    cases h
    rfl

/-- The children are linked, and then the cursor is set. -/
theorem linkChildren_ok {w w' : World} {binding : BindingRef} {e : SyncEpic}
    (h : (linkChildren env binding bctx e.toFields).run w = (.ok (), w')) :
    carriers e.iid w' = carriers e.iid w ∪ linked env bctx e.childIssueIids w ∧
      ∀ children, members env bctx children w' = members env bctx children w := by
  unfold linkChildren at h
  rw [SyncEpic.field_childIssueIids, SyncEpic.field_iid, JsValue.elements_arr,
    Effect.ofExcept_ok_bind_run] at h
  obtain ⟨_, w₁, hlinks, hcursor⟩ := Effect.bind_ok_iff.mp h
  have hlink := forEach_linkChild_ok hlinks
  have hbeside : Beside bctx w₁ w' := (Besides.setCursor env binding .epics _).of_run hcursor
  refine ⟨(hbeside.carriers e.iid).trans hlink.carriers, fun children => ?_⟩
  rw [hbeside.members_eq children]
  ext ref
  simp only [members, Set.mem_ofPred_eq, hlink.idmap, hlink.docs ref]

/-- The application ends before the children: not an enterprise instance, no status to create the
mirror with, or a mirror that is gone. -/
def Skips (bctx : BindingContext) (l : Listing) (w : World) : Prop :=
  (bctx.edition ≠ none ∧ bctx.edition ≠ some "ee") ∨ pickBacklogStatus bctx.statuses = none ∨
    ∃ row, w.idmap.findByGitlab bctx.workspaceUuid .epic
        (epicKey env bctx (.num l.epic.groupId) (.num l.epic.iid)) = some row ∧
      (w.docs.get? row.hulyRef).filter (fun doc => doc.objectClass = issueClass) = none

/-- What an application that completes leaves. -/
theorem apply_spec {binding : BindingRef} (hload : env.loadBinding binding = .ok bctx) {l : Listing}
    {w : World} (hrows : MirrorRows w) (h : Completes env binding w l) :
    members env bctx l.children (apply env binding w l) = members env bctx l.children w ∧
      carriers l.epic.iid (apply env binding w l) =
        carriers l.epic.iid w ∪ {ref | ¬ Skips env bctx l w ∧
          ref ∈ linked env bctx (l.children.map EpicChild.iid) w} := by
  have hrun : (applyRemote env binding l.enriched.toFields).run w =
      (.ok (), apply env binding w l) := Prod.ext h rfl
  generalize apply env binding w l = w' at hrun ⊢
  -- a skipped application leaves everything as it is
  have hskipped : ∀ {w₁ : World}, Beside bctx w w₁ → Skips env bctx l w →
      members env bctx l.children w₁ = members env bctx l.children w ∧
        carriers l.epic.iid w₁ = carriers l.epic.iid w ∪ {ref | ¬ Skips env bctx l w ∧
          ref ∈ linked env bctx (l.children.map EpicChild.iid) w} := by
    intro w₁ hbeside hskips
    have hempty : {ref | ¬ Skips env bctx l w ∧
        ref ∈ linked env bctx (l.children.map EpicChild.iid) w} = ∅ := by
      ext ref
      simp [hskips]
    rw [hempty, Set.union_empty]
    exact ⟨hbeside.members_eq _, hbeside.carriers _⟩
  have happlied : ∀ {w₁ w₂ : World}, Beside bctx w w₁ → ¬ Skips env bctx l w →
      (linkChildren env binding bctx l.enriched.toFields).run w₁ = (.ok (), w₂) →
      members env bctx l.children w₂ = members env bctx l.children w ∧
        carriers l.epic.iid w₂ = carriers l.epic.iid w ∪ {ref | ¬ Skips env bctx l w ∧
          ref ∈ linked env bctx (l.children.map EpicChild.iid) w} := by
    intro w₁ w₂ hbeside hskips hlinks
    have hset : {ref | ¬ Skips env bctx l w ∧
        ref ∈ linked env bctx (l.children.map EpicChild.iid) w} =
        linked env bctx (l.children.map EpicChild.iid) w := by
      ext ref
      simp [hskips]
    obtain ⟨hcarriers, hmembers⟩ := linkChildren_ok env hlinks
    rw [hset]
    refine ⟨(hmembers _).trans (hbeside.members_eq _), hcarriers.trans ?_⟩
    exact congrArg₂ _ (hbeside.carriers _) (hbeside.linked_eq _)
  unfold applyRemote at hrun
  obtain ⟨bctx', w₁, hloaded, hrun⟩ := Effect.bind_ok_iff.mp hrun
  obtain ⟨hbctx, hsame⟩ := Effect.ofExcept_ok_iff.mp hloaded
  obtain rfl := Except.ok.inj (hload.symm.trans hbctx)
  rw [hsame] at hrun
  split_ifs at hrun with hedition
  · cases hrun
    exact hskipped (Beside.refl _) (.inl hedition)
  dsimp only at hrun
  rw [SyncEpic.field_groupId, SyncEpic.field_iid, SyncEpic.field_description,
    SyncEpic.field_updatedAt] at hrun
  obtain ⟨existing, w₂, hfind, hrun⟩ := Effect.bind_ok_iff.mp hrun
  obtain ⟨rfl, lookups, rfl⟩ := Sync.findByGitlab_ok env hfind
  have hlooked : Beside bctx w { w with lookups := lookups } := Beside.of_same rfl rfl
  obtain ⟨rawDescription, w₃, htext, hrun⟩ := Effect.bind_ok_iff.mp hrun
  obtain ⟨-, rfl⟩ := Effect.ofExcept_ok_iff.mp htext
  cases hstatus : pickBacklogStatus bctx.statuses with
  | none =>
    rw [hstatus] at hrun
    cases hrun
    exact hskipped hlooked (.inr (.inl hstatus))
  | some status =>
    rw [hstatus] at hrun
    dsimp only at hrun
    obtain ⟨_, w₄, htime, hrun⟩ := Effect.bind_ok_iff.mp hrun
    obtain ⟨-, rfl⟩ := Effect.ofExcept_ok_iff.mp htime
    have hkey : epicKey env bctx (.num l.enriched.groupId) (.num l.enriched.iid) =
        epicKey env bctx (.num l.epic.groupId) (.num l.epic.iid) := rfl
    rw [hkey] at hrun
    cases hexisting : w.idmap.findByGitlab bctx.workspaceUuid .epic
        (epicKey env bctx (.num l.epic.groupId) (.num l.epic.iid)) with
    | none =>
      rw [hexisting] at hrun
      obtain ⟨_, w₅, hcreate, hlinks⟩ := Effect.bind_ok_iff.mp hrun
      have hcreated := @createFromRemote_ok env bctx { w with lookups := lookups } w₅ _ _ _ _ _ hrows hcreate
      refine happlied (Beside.trans _ _ _ hlooked hcreated) ?_ hlinks
      rintro (hskip | hskip | ⟨row, hrow, -⟩)
      · exact hedition hskip
      · exact Option.some_ne_none _ (hstatus.symm.trans hskip)
      · exact Option.some_ne_none _ (hrow.symm.trans hexisting)
    | some row =>
      rw [hexisting] at hrun
      obtain ⟨mirrored, w₅, hupdate, hlinks⟩ := Effect.bind_ok_iff.mp hrun
      have hupdated : Beside bctx _ w₅ :=
        (Besides.updateFromRemote env _ _ _ _).of_run hupdate
      have hmirrored := updateFromRemote_ok env hupdate
      cases hdoc : (w.docs.get? row.hulyRef).filter fun doc => doc.objectClass = issueClass with
      | none =>
        rw [hdoc] at hmirrored
        rw [hmirrored] at hlinks
        cases hlinks
        exact hskipped (Beside.trans _ _ _ hlooked hupdated) (.inr (.inr ⟨row, hexisting, hdoc⟩))
      | some doc =>
        rw [hdoc] at hmirrored
        rw [hmirrored] at hlinks
        refine happlied (Beside.trans _ _ _ hlooked hupdated) ?_ hlinks
        rintro (hskip | hskip | ⟨row', hrow', hgone⟩)
        · exact hedition hskip
        · exact Option.some_ne_none _ (hstatus.symm.trans hskip)
        · obtain rfl := Option.some.inj (hexisting.symm.trans hrow')
          exact Option.some_ne_none _ (hdoc.symm.trans hgone)

end Besides

section Members

variable {env : Env} {bctx : BindingContext} {w : World}

/-- Two rows of issues or merge requests with one document are one row. -/
theorem eq_of_hulyRef (hrows : MirrorRows w) {kind kind' : GitlabKind} {key key' : String}
    {row row' : IdMapDoc} (hkind : kind = .issue ∨ kind = .merge_request)
    (hkind' : kind' = .issue ∨ kind' = .merge_request)
    (h : w.idmap.findByGitlab bctx.workspaceUuid kind key = some row)
    (h' : w.idmap.findByGitlab bctx.workspaceUuid kind' key' = some row')
    (href : row.hulyRef = row'.hulyRef) : kind = kind' ∧ key = key' := by
  obtain ⟨hmem, hgitlab⟩ := IdMap.findByGitlab_eq_some_iff.mp h
  obtain ⟨hmem', hgitlab'⟩ := IdMap.findByGitlab_eq_some_iff.mp h'
  have hclass : row.hulyClass = issueClass :=
    hrows row hmem ((congrArg (fun k => k.2.1) hgitlab : row.gitlabKind = kind) ▸ hkind)
  have hclass' : row'.hulyClass = issueClass :=
    hrows row' hmem' ((congrArg (fun k => k.2.1) hgitlab' : row'.gitlabKind = kind') ▸ hkind')
  have hworkspace : row.workspaceUuid = row'.workspaceUuid :=
    (congrArg Prod.fst hgitlab : row.workspaceUuid = _).trans
      (congrArg Prod.fst hgitlab' : row'.workspaceUuid = _).symm
  have hsame : row = row' := by
    apply IdMap.eq_of_hulyKey hmem hmem'
    simp only [IdMapDoc.hulyKey, hworkspace, hclass, hclass', href]
  have hkeys : (bctx.workspaceUuid, kind, key) = (bctx.workspaceUuid, kind', key') :=
    hgitlab.symm.trans ((congrArg IdMapDoc.gitlabKey hsame).trans hgitlab')
  exact ⟨congrArg (fun k => k.2.1) hkeys, congrArg (fun k => k.2.2) hkeys⟩

theorem iid_eq_of_projectKey {iid iid' : Int}
    (h : projectKey env bctx (.num iid) = projectKey env bctx (.num iid')) : iid = iid' := by
  have hparse := congrArg parseIid h
  rw [parseIid_projectKey, parseIid_projectKey] at hparse
  exact Option.some.inj hparse

/-- When an application leaves exactly the members. -/
structure Followed (env : Env) (bctx : BindingContext) (l : Listing) (w : World) : Prop where
  /-- No document carries the epic but the mirrors of its children: none was removed. -/
  kept : carriers l.epic.iid w ⊆ members env bctx l.children w
  /-- No child has the number of a mirrored merge request. -/
  merge_requests : ¬ Skips env bctx l w → ∀ child ∈ l.children, ∀ row,
    w.idmap.findByGitlab bctx.workspaceUuid .merge_request
      (projectKey env bctx (.num child.iid)) = some row → w.docs.get? row.hulyRef = none
  /-- No child of another project has the number of a mirrored issue, unless a child of the
  project has it too. -/
  foreign : ¬ Skips env bctx l w → ∀ child ∈ l.children, child.projectId ≠ bctx.gitlabProjectId →
    w.idmap.findByGitlab bctx.workspaceUuid .merge_request
      (projectKey env bctx (.num child.iid)) = none →
    ∀ row doc, w.idmap.findByGitlab bctx.workspaceUuid .issue
      (projectKey env bctx (.num child.iid)) = some row → w.docs.get? row.hulyRef = some doc →
        ∃ own ∈ l.children, own.projectId = bctx.gitlabProjectId ∧ own.iid = child.iid
  /-- A mirror that the application does not reach carries the epic already. -/
  reached : ∀ child ∈ l.children, child.projectId = bctx.gitlabProjectId →
    (Skips env bctx l w ∨ ∃ row, w.idmap.findByGitlab bctx.workspaceUuid .merge_request
      (projectKey env bctx (.num child.iid)) = some row) →
    ∀ row doc, w.idmap.findByGitlab bctx.workspaceUuid .issue
      (projectKey env bctx (.num child.iid)) = some row → w.docs.get? row.hulyRef = some doc →
        parentEpicIid doc = .num l.epic.iid

/-- The numbers lead to members only. -/
theorem linked_subset_iff (hrows : MirrorRows w) (children : List EpicChild) :
    linked env bctx (children.map EpicChild.iid) w ⊆ members env bctx children w ↔
      (∀ child ∈ children, ∀ row, w.idmap.findByGitlab bctx.workspaceUuid .merge_request
        (projectKey env bctx (.num child.iid)) = some row → w.docs.get? row.hulyRef = none) ∧
      ∀ child ∈ children, child.projectId ≠ bctx.gitlabProjectId →
        w.idmap.findByGitlab bctx.workspaceUuid .merge_request
          (projectKey env bctx (.num child.iid)) = none →
        ∀ row doc, w.idmap.findByGitlab bctx.workspaceUuid .issue
          (projectKey env bctx (.num child.iid)) = some row → w.docs.get? row.hulyRef = some doc →
            ∃ own ∈ children, own.projectId = bctx.gitlabProjectId ∧ own.iid = child.iid := by
  constructor
  · intro hsub
    refine ⟨fun child hchild row hrow => ?_, fun child hchild _ hnone row doc hrow hdoc => ?_⟩
    · by_contra hsome
      have htarget : linkTarget env bctx w.idmap child.iid = some row.hulyRef := by
        rw [linkTarget, hrow]
      obtain ⟨-, own, hown, -, row', hrow', href⟩ := hsub ⟨Option.ne_none_iff_exists'.mp hsome,
        child.iid, List.mem_map_of_mem hchild, htarget⟩
      cases (eq_of_hulyRef hrows (.inl rfl) (.inr rfl) hrow' hrow href).1
    · have htarget : linkTarget env bctx w.idmap child.iid = some row.hulyRef := by
        rw [linkTarget, hnone, hrow]
        rfl
      obtain ⟨-, own, hown, hproject, row', hrow', href⟩ :=
        hsub ⟨⟨doc, hdoc⟩, child.iid, List.mem_map_of_mem hchild, htarget⟩
      have hkey := (eq_of_hulyRef hrows (.inl rfl) (.inl rfl) hrow' hrow href).2
      exact ⟨own, hown, hproject, iid_eq_of_projectKey hkey⟩
  · rintro ⟨hmr, hforeign⟩ ref ⟨⟨doc, hdoc⟩, iid, hiid, htarget⟩
    obtain ⟨child, hchild, rfl⟩ := List.mem_map.mp hiid
    rw [linkTarget] at htarget
    cases hrow : w.idmap.findByGitlab bctx.workspaceUuid .merge_request
        (projectKey env bctx (.num child.iid)) with
    | some row =>
      rw [hrow] at htarget
      obtain rfl := Option.some.inj htarget
      exact absurd (hdoc.symm.trans (hmr child hchild row hrow)) (Option.some_ne_none _)
    | none =>
      rw [hrow] at htarget
      obtain ⟨row, hissue, rfl⟩ := Option.map_eq_some_iff.mp htarget
      by_cases hproject : child.projectId = bctx.gitlabProjectId
      · exact ⟨⟨doc, hdoc⟩, child, hchild, hproject, row, hissue, rfl⟩
      · obtain ⟨own, hown, hours, hsame⟩ := hforeign child hchild hproject hrow row doc hissue hdoc
        exact ⟨⟨doc, hdoc⟩, own, hown, hours, row, hsame ▸ hissue, rfl⟩

/-- A member that carries the epic or is linked. -/
theorem members_subset_iff (hrows : MirrorRows w) (l : Listing) :
    members env bctx l.children w ⊆ carriers l.epic.iid w ∪ {ref | ¬ Skips env bctx l w ∧
        ref ∈ linked env bctx (l.children.map EpicChild.iid) w} ↔
      ∀ child ∈ l.children, child.projectId = bctx.gitlabProjectId →
        (Skips env bctx l w ∨ ∃ row, w.idmap.findByGitlab bctx.workspaceUuid .merge_request
          (projectKey env bctx (.num child.iid)) = some row) →
        ∀ row doc, w.idmap.findByGitlab bctx.workspaceUuid .issue
          (projectKey env bctx (.num child.iid)) = some row → w.docs.get? row.hulyRef = some doc →
            parentEpicIid doc = .num l.epic.iid := by
  constructor
  · intro hsub child hchild hproject hmissed row doc hrow hdoc
    obtain ⟨doc', hdoc', hparent⟩ | ⟨hskips, -, iid, hiid, htarget⟩ :=
      hsub ⟨⟨doc, hdoc⟩, child, hchild, hproject, row, hrow, rfl⟩
    · obtain rfl := Option.some.inj (hdoc.symm.trans hdoc')
      exact hparent
    · obtain ⟨mrRow, hmr⟩ := hmissed.resolve_left hskips
      rw [linkTarget] at htarget
      cases hother : w.idmap.findByGitlab bctx.workspaceUuid .merge_request
          (projectKey env bctx (.num iid)) with
      | some row' =>
        rw [hother] at htarget
        have href := Option.some.inj htarget
        cases (eq_of_hulyRef hrows (.inr rfl) (.inl rfl) hother hrow href).1
      | none =>
        rw [hother] at htarget
        obtain ⟨row', hissue, href⟩ := Option.map_eq_some_iff.mp htarget
        have hkey := (eq_of_hulyRef hrows (.inl rfl) (.inl rfl) hissue hrow href).2
        rw [hkey, hmr] at hother
        cases hother
  · rintro hreached ref ⟨⟨doc, hdoc⟩, child, hchild, hproject, row, hrow, rfl⟩
    by_cases hmissed : Skips env bctx l w ∨ ∃ row, w.idmap.findByGitlab bctx.workspaceUuid
        .merge_request (projectKey env bctx (.num child.iid)) = some row
    · exact .inl ⟨doc, hdoc, hreached child hchild hproject hmissed row doc hrow hdoc⟩
    · push Not at hmissed
      have hnone : w.idmap.findByGitlab bctx.workspaceUuid .merge_request
          (projectKey env bctx (.num child.iid)) = none :=
        Option.eq_none_iff_forall_ne_some.mpr hmissed.2
      refine .inr ⟨hmissed.1, ⟨doc, hdoc⟩, child.iid, List.mem_map_of_mem hchild, ?_⟩
      rw [linkTarget, hnone, hrow]
      rfl

/-- After an application that completes the membership is exact if and only if it was followed. -/
theorem exact_apply_iff {binding : BindingRef} (hload : env.loadBinding binding = .ok bctx)
    {l : Listing} (hrows : MirrorRows w) (h : Completes env binding w l) :
    Exact env bctx l (apply env binding w l) ↔ Followed env bctx l w := by
  obtain ⟨hmembers, hcarriers⟩ := apply_spec env hload hrows h
  rw [Exact, hmembers, hcarriers]
  set added : Set Ref := {ref | ¬ Skips env bctx l w ∧
    ref ∈ linked env bctx (l.children.map EpicChild.iid) w} with hadded
  have hlinked : added ⊆ members env bctx l.children w ↔ (¬ Skips env bctx l w →
      linked env bctx (l.children.map EpicChild.iid) w ⊆ members env bctx l.children w) :=
    ⟨fun hsub hskips ref href => hsub ⟨hskips, href⟩, fun hsub ref href => hsub href.1 href.2⟩
  calc carriers l.epic.iid w ∪ added = members env bctx l.children w
      ↔ (carriers l.epic.iid w ⊆ members env bctx l.children w ∧
          added ⊆ members env bctx l.children w) ∧
          members env bctx l.children w ⊆ carriers l.epic.iid w ∪ added := by
        rw [Set.Subset.antisymm_iff, Set.union_subset_iff]
    _ ↔ Followed env bctx l w := by
        rw [hlinked, linked_subset_iff hrows, hadded, members_subset_iff hrows]
        constructor
        · rintro ⟨⟨hkept, hlinks⟩, hreached⟩
          exact ⟨hkept, fun hskips => (hlinks hskips).1, fun hskips => (hlinks hskips).2, hreached⟩
        · rintro ⟨hkept, hmr, hforeign, hreached⟩
          exact ⟨⟨hkept, fun hskips => ⟨hmr hskips, hforeign hskips⟩⟩, hreached⟩

/-- Only the rows of epics come along. -/
theorem mirrorRows_apply {binding : BindingRef} (hload : env.loadBinding binding = .ok bctx)
    (l : Listing) (h : MirrorRows w) : MirrorRows (apply env binding w l) := by
  intro row hrow hkind
  have hgrows := (Epics.mirroring env hload l.enriched w).1
  obtain hold | ⟨huser, -⟩ | ⟨o, -, ref, doc, rfl, -⟩ := hgrows.fresh row hrow
  · exact h row hold hkind
  · rw [huser] at hkind
    obtain hkind | hkind := hkind <;> cases hkind
  · obtain hkind | hkind := hkind <;> cases hkind

/-- The membership is exact after each application of a run if and only if each application was
followed. -/
theorem exact_iff_followed (env : Env) (binding : BindingRef) (bctx : BindingContext)
    (hload : env.loadBinding binding = .ok bctx) (w : World) (hrows : MirrorRows w)
    (listings : List Listing) :
    Transition.Along (apply env binding) (fun w l => Completes env binding w l →
        Exact env bctx l (apply env binding w l)) w listings ↔
      Transition.Along (apply env binding) (fun w l => Completes env binding w l →
        Followed env bctx l w) w listings := by
  apply Transition.along_congr (I := MirrorRows)
  · exact fun w l h => mirrorRows_apply hload l h
  · exact fun w l h => forall_congr' fun hcompletes => exact_apply_iff hload h hcompletes
  · exact hrows

end Members

/-- Issue 5 of the project with its mirror. -/
def mirroredIssue : World :=
  { World.initial with
    idmap := ⟨[⟨"ws", .issue, "7:5", issueClass, "mirror"⟩], by decide, by decide⟩
    docs := OrderedMap.empty.set "mirror" ⟨issueClass, "project", [], .empty⟩ }

theorem mirrorRows_mirroredIssue : MirrorRows mirroredIssue := by
  intro row hrow _
  obtain rfl := List.mem_singleton.mp hrow
  rfl

/-- Epic 3 with the given children. -/
def listingOf (children : List EpicChild) : Listing :=
  ⟨⟨3, 9, "epic", "", .opened, "", [], ⟨1, "ann", "Ann", none, none, ""⟩, 10, 20⟩, children⟩

theorem exact_iff_followed_mirroredIssue :
    Transition.Along (apply (Env.quiet quietBinding) "b") (fun w l =>
        Completes (Env.quiet quietBinding) "b" w l →
          Exact (Env.quiet quietBinding) quietBinding l (apply (Env.quiet quietBinding) "b" w l))
        mirroredIssue [listingOf [⟨7, 5⟩]] ↔
      Transition.Along (apply (Env.quiet quietBinding) "b") (fun w l =>
        Completes (Env.quiet quietBinding) "b" w l →
          Followed (Env.quiet quietBinding) quietBinding l w)
        mirroredIssue [listingOf [⟨7, 5⟩]] :=
  exact_iff_followed (Env.quiet quietBinding) "b" quietBinding rfl mirroredIssue
    mirrorRows_mirroredIssue _

/-- The issue is taken out of the epic, and its mirror still carries it. -/
theorem not_exact_of_removal :
    MirrorRows mirroredIssue ∧ ¬ Transition.Along (apply (Env.quiet quietBinding) "b") (fun w l =>
        Completes (Env.quiet quietBinding) "b" w l →
          Exact (Env.quiet quietBinding) quietBinding l (apply (Env.quiet quietBinding) "b" w l))
        mirroredIssue [listingOf [⟨7, 5⟩], listingOf []] := by
  refine ⟨mirrorRows_mirroredIssue, fun h => ?_⟩
  have hlast := h.2.1 (by decide +kernel)
  have hcarries : "mirror" ∈ carriers 3 (apply (Env.quiet quietBinding) "b"
      (apply (Env.quiet quietBinding) "b" mirroredIssue (listingOf [⟨7, 5⟩])) (listingOf [])) :=
    mem_carriers_iff.mpr (by decide +kernel)
  obtain ⟨-, child, hchild, -⟩ := hlast.subset hcarries
  cases hchild

end HulyGitlab.Epics
