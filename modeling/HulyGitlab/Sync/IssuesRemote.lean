import HulyGitlab.Sync.Issues
import HulyGitlab.Sync.LocalRefs

/-!
# What `applyRemote` does to a mapped issue

A record is first resolved to Huly references, which only adds tags,
milestones and guests; then each managed field is taken or left. The
document then shows the record, or it is as before.
-/

namespace HulyGitlab.Issues

open NamedDocs UserIdentity

/-- The identity of an adapter user. -/
def identity (u : SyncUser) : IdentityUser where
  gitlabId := toString u.id
  email := match u.email with
    | some address => .str address
    | none => .undefined

theorem identityOf_toJs (u : SyncUser) : identityOf u.toJs = .ok (identity u) := by
  cases h : u.email with
  | none => simp [identityOf, SyncUser.toJs, identity, h, JsValue.ofOption, JsValue.text]; rfl
  | some address =>
    simp [identityOf, SyncUser.toJs, identity, h, JsValue.ofOption, JsValue.text]; rfl

theorem identity_email (u : SyncUser) :
    (identity u).email = .undefined ∨ ∃ address, (identity u).email = .str address := by
  cases h : u.email with
  | none => exact .inl (by simp [identity, h])
  | some address => exact .inr ⟨address, by simp [identity, h]⟩

/-- The assignee attribute for the assignees of a record. -/
def assigneeOf (env : Env) (idmap : IdMap) (workspaceUuid : String) :
    List SyncUser → JsValue
  | [] => .null
  | u :: _ => .str (personOf env idmap workspaceUuid (identity u))

/-- The status of the project for the state of a record. -/
def statusFor (env : Env) (bctx : BindingContext) (w : World) (i : SyncIssue) : Option Ref :=
  StatusMap.statusOf
    (StatusMap.entryOf env w.statusCache (toString bctx.gitlabProjectId) bctx.statuses)
    i.state.toJs

/-- The value names the milestone of a record. -/
def MilestoneIs (env : Env) (space : Ref) (docs : OrderedMap Ref HulyDoc) (v : JsValue) :
    Option SyncMilestone → Prop
  | none => v = .null
  | some m => ∃ ref, v = .str ref ∧
      (projectMilestones space).Names env docs ref (env.toLowerCase m.title)

/-- The value is a list of tags whose names, up to case, are those of the list. -/
def LabelsAre (env : Env) (docs : OrderedMap Ref HulyDoc) (v : JsValue) (names : List String) :
    Prop :=
  ∃ refs : List Ref, v = .arr (refs.map .str) ∧
    (∀ ref ∈ refs, ∃ key, issueTags.Names env docs ref key) ∧
    ∀ key, (∃ ref ∈ refs, issueTags.Names env docs ref key) ↔ key ∈ names.map env.toLowerCase

/-- The values of the managed fields are those of the record. -/
structure Agrees (env : Env) (bctx : BindingContext) (w : World) (i : SyncIssue)
    (value : String → JsValue) : Prop where
  title : value "title" = .str i.title
  description : value "description" = .str (env.gfmMarkdownToMarkup (i.description.getD "")
    (issueRefUrl bctx) (imageUrl bctx))
  status : ∃ ref, statusFor env bctx w i = some ref ∧ value "status" = .str ref
  assignee : value "assignee" = assigneeOf env w.idmap bctx.workspaceUuid i.assignees
  milestone : MilestoneIs env bctx.hulyProjectRef w.docs (value "milestone") i.milestone
  labels : LabelsAre env w.docs (value "labels") i.labels

/-- The value of a managed field that the LWW round compares. -/
def localValue (attrs : Fields) (k : String) : JsValue :=
  if k = "milestone" then (attrs.field k).orElse .null
  else if k = "labels" then (attrs.field k).orElse (.arr [])
  else attrs.field k

def RemoteIssue.value (r : RemoteIssue) (k : String) : JsValue :=
  if k = "title" then r.title
  else if k = "description" then r.description
  else if k = "status" then r.status
  else if k = "assignee" then r.assignee
  else if k = "milestone" then r.milestone
  else r.labels

/-- The document shows the record in the managed fields. -/
def Shows (env : Env) (bctx : BindingContext) (ref : Ref) (w : World) (i : SyncIssue) : Prop :=
  ∃ doc, w.docs.get? ref = some doc ∧ Agrees env bctx w i (localValue doc.attrs)

/-- The record is resolved to the values of `r`. -/
def Resolves (env : Env) (bctx : BindingContext) (w : World) (i : SyncIssue) (r : RemoteIssue) :
    Prop := Agrees env bctx w i r.value

/-- What the values refer to means the same in both states. -/
structure Carries (env : Env) (bctx : BindingContext) (w w' : World) : Prop where
  entry : StatusMap.entryOf env w'.statusCache (toString bctx.gitlabProjectId) bctx.statuses =
    StatusMap.entryOf env w.statusCache (toString bctx.gitlabProjectId) bctx.statuses
  guests : ∀ gitlabId, guestOf w'.idmap bctx.workspaceUuid gitlabId =
    guestOf w.idmap bctx.workspaceUuid gitlabId
  tags : ∀ ref key, issueTags.Names env w.docs ref key → issueTags.Names env w'.docs ref key
  milestones : ∀ ref key, (projectMilestones bctx.hulyProjectRef).Names env w.docs ref key →
    (projectMilestones bctx.hulyProjectRef).Names env w'.docs ref key

theorem Carries.refl {env : Env} {bctx : BindingContext} (w : World) : Carries env bctx w w :=
  ⟨rfl, fun _ => rfl, fun _ _ hn => hn, fun _ _ hn => hn⟩

theorem Carries.trans {env : Env} {bctx : BindingContext} {w w' w'' : World}
    (h : Carries env bctx w w') (h' : Carries env bctx w' w'') : Carries env bctx w w'' where
  entry := h'.entry.trans h.entry
  guests gitlabId := (h'.guests gitlabId).trans (h.guests gitlabId)
  tags ref key hn := h'.tags ref key (h.tags ref key hn)
  milestones ref key hn := h'.milestones ref key (h.milestones ref key hn)

theorem Carries.statusFor {env : Env} {bctx : BindingContext} {w w' : World}
    (h : Carries env bctx w w') (i : SyncIssue) :
    Issues.statusFor env bctx w' i = Issues.statusFor env bctx w i := by
  unfold Issues.statusFor
  rw [h.entry]

theorem Carries.assigneeOf {env : Env} {bctx : BindingContext} {w w' : World}
    (h : Carries env bctx w w') (users : List SyncUser) :
    Issues.assigneeOf env w'.idmap bctx.workspaceUuid users =
      Issues.assigneeOf env w.idmap bctx.workspaceUuid users := by
  cases users with
  | nil => rfl
  | cons u users => simp [Issues.assigneeOf, personOf, h.guests]

theorem LabelsAre.carry {env : Env} {docs docs' : OrderedMap Ref HulyDoc} {v : JsValue}
    {names : List String} (h : LabelsAre env docs v names)
    (hk : ∀ ref key, issueTags.Names env docs ref key → issueTags.Names env docs' ref key) :
    LabelsAre env docs' v names := by
  obtain ⟨refs, hv, hnamed, hkeys⟩ := h
  refine ⟨refs, hv, fun ref hr => ?_, fun key => ?_⟩
  · obtain ⟨key, hkey⟩ := hnamed ref hr
    exact ⟨key, hk ref key hkey⟩
  · rw [← hkeys key]
    constructor
    · rintro ⟨ref, hr, hkey⟩
      obtain ⟨old, hold⟩ := hnamed ref hr
      exact ⟨ref, hr, (hk ref old hold).unique hkey ▸ hold⟩
    · rintro ⟨ref, hr, hkey⟩
      exact ⟨ref, hr, hk ref key hkey⟩

theorem MilestoneIs.carry {env : Env} {space : Ref} {docs docs' : OrderedMap Ref HulyDoc}
    {v : JsValue} {m : Option SyncMilestone} (h : MilestoneIs env space docs v m)
    (hk : ∀ ref key, (projectMilestones space).Names env docs ref key →
      (projectMilestones space).Names env docs' ref key) : MilestoneIs env space docs' v m := by
  cases m with
  | none => exact h
  | some m =>
    obtain ⟨ref, hv, hname⟩ := h
    exact ⟨ref, hv, hk ref _ hname⟩

theorem Agrees.carry {env : Env} {bctx : BindingContext} {w w' : World} {i : SyncIssue}
    {value : String → JsValue} (h : Agrees env bctx w i value) (hc : Carries env bctx w w') :
    Agrees env bctx w' i value where
  title := h.title
  description := h.description
  status := by rw [hc.statusFor]; exact h.status
  assignee := by rw [hc.assigneeOf]; exact h.assignee
  milestone := h.milestone.carry hc.milestones
  labels := h.labels.carry hc.tags

/-- What resolving a record leaves unchanged. -/
structure Prepared (env : Env) (bctx : BindingContext) (w w' : World) : Prop where
  entry : StatusMap.entryOf env w'.statusCache (toString bctx.gitlabProjectId) bctx.statuses =
    StatusMap.entryOf env w.statusCache (toString bctx.gitlabProjectId) bctx.statuses
  settles : Settles bctx.workspaceUuid w.idmap w'.idmap
  kept : Kept w.docs w'.docs
  typed : WellTyped bctx.hulyProjectRef w.docs → WellTyped bctx.hulyProjectRef w'.docs
  cursors : w'.cursors = w.cursors
  requests : w'.requests = w.requests

theorem Prepared.carries {env : Env} {bctx : BindingContext} {w w' : World}
    (h : Prepared env bctx w w') : Carries env bctx w w' :=
  ⟨h.entry, h.settles.guests, fun _ _ hn => hn.kept h.kept, fun _ _ hn => hn.kept h.kept⟩

/-- The issue is mapped to the document, and the references of the store are in order. -/
structure Mapped (env : Env) (bctx : BindingContext) (iid : Int) (ref : Ref) (w : World) :
    Prop where
  row : ∃ row, w.idmap.findByGitlab bctx.workspaceUuid .issue (projectKey env bctx (.num iid)) =
    some row ∧ row.hulyRef = ref
  doc : ∃ doc, w.docs.get? ref = some doc ∧ doc.objectClass = issueClass
  owned : StubsOwned w.idmap
  typed : WellTyped bctx.hulyProjectRef w.docs

theorem Mapped.prepared {env : Env} {bctx : BindingContext} {iid : Int} {ref : Ref} {w w' : World}
    (h : Mapped env bctx iid ref w) (hp : Prepared env bctx w w') :
    Mapped env bctx iid ref w' where
  row := by
    rw [hp.settles.others .issue _ (by decide)]
    exact h.row
  doc := by
    obtain ⟨doc, hdoc, hclass⟩ := h.doc
    exact ⟨doc, hp.kept ref doc hdoc, hclass⟩
  owned := hp.settles.owned h.owned
  typed := hp.typed h.typed

section Healthy

variable {env : Env} (h : env.Healthy)
include h

theorem resolveAssignee_run {workspaceUuid : String} (users : List SyncUser) {w : World}
    (howned : StubsOwned w.idmap) :
    ∃ idmap lookups, Settles workspaceUuid w.idmap idmap ∧
      (resolveAssignee env workspaceUuid (.arr (users.map SyncUser.toJs))).run w =
        (.ok (assigneeOf env w.idmap workspaceUuid users),
          { w with idmap := idmap, lookups := lookups }) := by
  unfold resolveAssignee
  rw [JsValue.elements_arr, Effect.ofExcept_ok_bind_run]
  cases users with
  | nil => exact ⟨w.idmap, w.lookups, Settles.refl _ _, rfl⟩
  | cons u users =>
    obtain ⟨idmap, lookups, hs, hrun⟩ :=
      resolveUser_run h workspaceUuid (identityOf_toJs u) (identity_email u) howned
    refine ⟨idmap, lookups, hs, ?_⟩
    simp only [List.map_cons]
    rw [Effect.bind_of_ok hrun]
    rfl

theorem resolveMilestone_run {space : Ref} (m : Option SyncMilestone) {w : World}
    (ht : WellTyped space w.docs) :
    ∃ v docs, (resolveMilestone env space (.ofOption SyncMilestone.toJs m)).run w =
        (.ok v, { w with docs := docs }) ∧
      Kept w.docs docs ∧ WellTyped space docs ∧ MilestoneIs env space docs v m := by
  cases m with
  | none => exact ⟨.null, w.docs, rfl, Kept.refl _, ht, rfl⟩
  | some m =>
    obtain ⟨ref, c', docs, hrun, hkept, htyped, hname⟩ :=
      MilestoneCache.ensureLocalMilestone_run h m.title
        ((JsValue.ofOption JsValue.str m.description).orElse .undefined) ht
        (c := MilestoneCache.new) (sound_new _ env _)
    refine ⟨.str ref, docs, ?_, hkept, htyped, ref, rfl, hname⟩
    have hnull : SyncMilestone.toJs m ≠ .null := by simp [SyncMilestone.toJs]
    have htitle : (SyncMilestone.toJs m).prop "title" = .ok (.str m.title) := by
      simp [SyncMilestone.toJs]
    have hdesc : (SyncMilestone.toJs m).prop "description" =
        .ok (JsValue.ofOption JsValue.str m.description) := by simp [SyncMilestone.toJs]
    simp only [resolveMilestone, JsValue.ofOption_some, if_neg hnull, htitle, hdesc,
      Effect.ofExcept_ok_bind_run]
    rw [Effect.bind_of_ok hrun]
    rfl

omit h in
theorem labelsAre_of_names {docs : OrderedMap Ref HulyDoc} {refs : List Ref}
    {names : List String}
    (hrefs : ∀ ref ∈ refs, ∃ name ∈ names,
      issueTags.Names env docs ref (env.toLowerCase name))
    (hnames : ∀ name ∈ names, ∃ ref ∈ refs,
      issueTags.Names env docs ref (env.toLowerCase name)) :
    LabelsAre env docs (.arr (refs.map .str)) names := by
  refine ⟨refs, rfl, fun ref hr => ?_, fun key => ?_⟩
  · obtain ⟨name, -, hname⟩ := hrefs ref hr
    exact ⟨_, hname⟩
  · rw [List.mem_map]
    constructor
    · rintro ⟨ref, hr, hkey⟩
      obtain ⟨name, hmem, hname⟩ := hrefs ref hr
      exact ⟨name, hmem, hname.unique hkey⟩
    · rintro ⟨name, hmem, rfl⟩
      exact hnames name hmem

/-- The branch on the row of the issue, once the record is resolved. -/
def applyResolved (env : Env) (binding : BindingRef) (bctx : BindingContext) (gitlabId : String)
    (r : RemoteIssue) (remoteTs : JsDate) : Option IdMapDoc → Sync Unit
  | none => createFromRemote env binding bctx gitlabId r remoteTs
  | some row => updateFromRemote env binding row.hulyRef r remoteTs

/-- `applyRemote` resolves the record and then creates or updates the document,
unless the project has no status for its state. -/
theorem applyRemote_resolved {binding : BindingRef} {bctx : BindingContext}
    (hload : env.loadBinding binding = .ok bctx) (i : SyncIssue) {w : World}
    (howned : StubsOwned w.idmap) (htypedDocs : WellTyped bctx.hulyProjectRef w.docs) :
    ∃ w', Prepared env bctx w w' ∧
      ((statusFor env bctx w i = none ∧
          (applyRemote env binding i.toFields).run w = (.ok (), w')) ∨
        ∃ r, Resolves env bctx w' i r ∧
          (applyRemote env binding i.toFields).run w =
            (applyResolved env binding bctx (projectKey env bctx (.num i.iid)) r
              (some i.updatedAt) (w.idmap.findByGitlab bctx.workspaceUuid .issue
                (projectKey env bctx (.num i.iid)))).run w') := by
  let asked : World :=
    { w with lookups := w.lookups ++ [(.issue, projectKey env bctx (.num i.iid))] }
  obtain ⟨idmap, lookups, hsettles, hassignee⟩ :=
    resolveAssignee_run h i.assignees (w := asked) howned
  let settled : World := { asked with idmap := idmap, lookups := lookups }
  obtain ⟨refs, c, docs, hlabels, hkept, htyped, hrefs, hnames⟩ :=
    LabelCache.resolveLocal_run h i.labels (c := LabelCache.new) (w := settled) htypedDocs
      (sound_new _ env _)
  let tagged : World := { settled with docs := docs }
  obtain ⟨milestone, docs', hmilestone, hkept', htyped', hmile⟩ :=
    resolveMilestone_run h i.milestone (w := tagged) htyped
  let resolved : World := { tagged with docs := docs' }
  let cache := StatusMap.remembered env w.statusCache (toString bctx.gitlabProjectId) bctx.statuses
  let w' : World := { resolved with statusCache := cache }
  have hdesc : ((i.toFields.field "description").orElse (.str "")).asStr =
      .ok (i.description.getD "") := by
    cases hd : i.description <;> simp [hd]
  have hlabelItems : (i.toFields.field "labels").elements = .ok (i.labels.map .str) := by simp
  have hstatus := StatusMap.mapRemoteState_run env (toString bctx.gitlabProjectId)
    (i.toFields.field "state") bctx.statuses resolved
  refine ⟨w', ⟨StatusMap.entryOf_remembered env _ _ _, hsettles, hkept.trans hkept',
    fun _ => htyped', rfl, rfl⟩, ?_⟩
  have hrun : (applyRemote env binding i.toFields).run w =
      ((statusFor env bctx w i).elim (pure ()) fun status =>
        applyResolved env binding bctx (projectKey env bctx (.num i.iid))
          { title := .str i.title,
            description := .str (env.gfmMarkdownToMarkup (i.description.getD "")
              (issueRefUrl bctx) (imageUrl bctx)),
            status := .str status,
            assignee := assigneeOf env w.idmap bctx.workspaceUuid i.assignees,
            milestone := milestone, labels := .arr (refs.map .str) }
          (some i.updatedAt) (w.idmap.findByGitlab bctx.workspaceUuid .issue
            (projectKey env bctx (.num i.iid)))).run w' := by
    unfold applyRemote Sync.loadBinding
    rw [hload, Effect.ofExcept_ok_bind_run]
    dsimp only
    rw [SyncIssue.field_iid, Effect.bind_of_ok (Sync.findByGitlab_run h _ _ _ w), hdesc,
      Effect.ofExcept_ok_bind_run, SyncIssue.field_assignees, Effect.bind_of_ok hassignee,
      hlabelItems, Effect.ofExcept_ok_bind_run, Effect.bind_of_ok hlabels,
      SyncIssue.field_milestone, Effect.bind_of_ok hmilestone, Effect.bind_of_ok hstatus]
    have hs : StatusMap.statusOf (StatusMap.entryOf env resolved.statusCache
        (toString bctx.gitlabProjectId) bctx.statuses) (i.toFields.field "state") =
        statusFor env bctx w i := by
      rw [SyncIssue.field_state]
      rfl
    rw [hs]
    cases statusFor env bctx w i with
    | none => rfl
    | some status =>
      simp only [SyncIssue.field_title, SyncIssue.field_updatedAt, JsValue.getTime_date]
      cases w.idmap.findByGitlab bctx.workspaceUuid .issue (projectKey env bctx (.num i.iid)) <;> rfl
  rw [hrun]
  cases hstatusFor : statusFor env bctx w i with
  | none => exact .inl ⟨rfl, rfl⟩
  | some status =>
    refine .inr ⟨_, ?_, rfl⟩
    exact {
      title := rfl
      description := rfl
      status := ⟨status, by
        rw [← hstatusFor]
        exact congrArg (StatusMap.statusOf · i.state.toJs) (StatusMap.entryOf_remembered env _ _ _),
        rfl⟩
      assignee := by
        have hcarry : Prepared env bctx w w' := ⟨StatusMap.entryOf_remembered env _ _ _,
          hsettles, hkept.trans hkept', fun _ => htyped', rfl, rfl⟩
        rw [hcarry.carries.assigneeOf]
        rfl
      milestone := hmile
      labels := labelsAre_of_names (fun r hr => by
          obtain ⟨name, hmem, hname⟩ := hrefs r hr
          exact ⟨name, hmem, hname.kept hkept'⟩) (fun name hmem => by
          obtain ⟨r, hr, hname⟩ := hnames name hmem
          exact ⟨r, hr, hname.kept hkept'⟩) }

/-- `applyRemote` on a mapped issue resolves the record and then updates the
document, unless the project has no status for its state. -/
theorem applyRemote_run {binding : BindingRef} {bctx : BindingContext}
    (hload : env.loadBinding binding = .ok bctx) (i : SyncIssue) {ref : Ref} {w : World}
    (hm : Mapped env bctx i.iid ref w) :
    ∃ w', Prepared env bctx w w' ∧
      ((statusFor env bctx w i = none ∧
          (applyRemote env binding i.toFields).run w = (.ok (), w')) ∨
        ∃ r, Resolves env bctx w' i r ∧
          (applyRemote env binding i.toFields).run w =
            (updateFromRemote env binding ref r (some i.updatedAt)).run w') := by
  obtain ⟨row, hrow, rfl⟩ := hm.row
  have hresolved := applyRemote_resolved h hload i hm.owned hm.typed
  rwa [hrow] at hresolved

end Healthy

section Update

/-- The clock of the LWW round: a positive `modifiedOn`. -/
def clockOf (attrs : Fields) : Option Nat :=
  match attrs.field "modifiedOn" with
  | .num n => if 0 < n then some n.toNat else none
  | _ => none

theorem localTsOf_eq (attrs : Fields) :
    localTsOf (attrs.field "modifiedOn") = (clockOf attrs).map some := by
  unfold localTsOf clockOf
  cases attrs.field "modifiedOn" with
  | num n => by_cases hn : 0 < n <;> simp [hn]
  | _ => rfl

/-- The attributes after the update branch. -/
def updatedAttrs (attrs : Fields) (r : RemoteIssue) (remoteTs : JsDate) : Fields :=
  if updateOperations attrs r remoteTs = [] then attrs
  else attrs.assign (withOriginatedMarker
    ((updateOperations attrs r remoteTs).set "modifiedOn" (timeValue remoteTs)))

theorem advanceCursor_run {env : Env} (h : env.Healthy) (binding : BindingRef)
    (kind : CursorKind) (localTs : Option JsDate) (remoteTs : JsDate) (w : World) :
    ∃ cursors, (advanceCursor env binding kind localTs remoteTs).run w =
      (.ok (), { w with cursors := cursors }) := by
  unfold advanceCursor
  by_cases hc : localTs = none ∨ remoteTs.after (localTs.getD none) = true
  · rw [if_pos hc]
    exact ⟨_, Sync.setCursor_run h _ _ _ w⟩
  · rw [if_neg hc]
    exact ⟨w.cursors, rfl⟩

theorem updateFromRemote_run {env : Env} (h : env.Healthy) (binding : BindingRef) {ref : Ref}
    (r : RemoteIssue) (remoteTs : JsDate) {w : World} {doc : HulyDoc}
    (hdoc : w.docs.get? ref = some doc) (hclass : doc.objectClass = issueClass) :
    ∃ docs cursors, (updateFromRemote env binding ref r remoteTs).run w =
        (.ok (), { w with docs := docs, cursors := cursors }) ∧
      docs.get? ref = some { doc with attrs := updatedAttrs doc.attrs r remoteTs } ∧
      ∀ other, other ≠ ref → docs.get? other = w.docs.get? other := by
  have hread := Sync.findOne_run h issueClass ref w
  rw [show (w.docs.get? ref).filter (fun doc => doc.objectClass = issueClass) = some doc by
    simp [hdoc, hclass]] at hread
  unfold updateFromRemote updatedAttrs
  rw [Effect.bind_of_ok hread]
  dsimp only
  by_cases hempty : updateOperations doc.attrs r remoteTs = []
  · obtain ⟨cursors, hrun⟩ := advanceCursor_run h binding .issues
      (localTsOf (doc.attrs.field "modifiedOn")) remoteTs w
    refine ⟨w.docs, cursors, ?_, by simpa [hempty] using hdoc, fun _ _ => rfl⟩
    rw [writeUpdate, if_pos hempty, Effect.pure_bind_run, hrun]
  · let operations := withOriginatedMarker
      ((updateOperations doc.attrs r remoteTs).set "modifiedOn" (timeValue remoteTs))
    let docs := w.docs.set ref { doc with attrs := doc.attrs.assign operations }
    have hwrite := Sync.updateDoc_run h operations w hdoc
    obtain ⟨cursors, hrun⟩ := advanceCursor_run h binding .issues
      (localTsOf (doc.attrs.field "modifiedOn")) remoteTs { w with docs := docs }
    refine ⟨docs, cursors, ?_, ?_, fun other hne => OrderedMap.get?_set_of_ne _ hne _⟩
    · rw [writeUpdate, if_neg hempty, Effect.bind_of_ok hwrite, hrun]
    · rw [if_neg hempty]
      exact OrderedMap.get?_set_self _ _ _

theorem localVersions_version (attrs : Fields) {k : String} (hk : k ∈ managedFields) :
    (localVersions attrs).version k =
      ⟨localValue attrs k, localTsOf (attrs.field "modifiedOn")⟩ := by
  simp only [managedFields, List.mem_cons, List.not_mem_nil, or_false] at hk
  obtain rfl | rfl | rfl | rfl | rfl | rfl := hk <;> rfl

theorem versions_version (r : RemoteIssue) (ts : JsDate) {k : String} (hk : k ∈ managedFields) :
    (r.versions ts).version k = ⟨r.value k, some ts⟩ := by
  simp only [managedFields, List.mem_cons, List.not_mem_nil, or_false] at hk
  obtain rfl | rfl | rfl | rfl | rfl | rfl := hk <;> rfl

theorem taken_iff (attrs : Fields) (r : RemoteIssue) (ts : JsDate) {k : String}
    (hk : k ∈ managedFields) :
    Conflict.Taken (localVersions attrs) (r.versions ts) k ↔
      Conflict.fieldDecision ⟨localValue attrs k, localTsOf (attrs.field "modifiedOn")⟩
          ⟨r.value k, some ts⟩ = .remote ∧
        Conflict.areEqual (r.value k) (localValue attrs k) = false := by
  have hkey : k ∈ (localVersions attrs).map Prod.fst := hk
  unfold Conflict.Taken
  rw [Conflict.lookup_applyLwwFieldByField hkey, localVersions_version attrs hk,
    versions_version r ts hk, Option.some_inj]

/-- The record is not older than the clock of the document. -/
def Accepted (attrs : Fields) (ts : Nat) : Prop := ∀ c, clockOf attrs = some c → c ≤ ts

theorem taken_of_accepted {attrs : Fields} {ts : Nat} (ha : Accepted attrs ts) {r : RemoteIssue}
    {k : String} (hk : k ∈ managedFields) (hr : r.value k ≠ .undefined) :
    Conflict.Taken (localVersions attrs) (r.versions (some ts)) k ↔
      Conflict.areEqual (r.value k) (localValue attrs k) = false := by
  rw [taken_iff attrs r _ hk]
  constructor
  · exact And.right
  · intro heq
    refine ⟨?_, heq⟩
    rw [localTsOf_eq]
    cases hc : clockOf attrs with
    | none => exact Conflict.decide_of_local_missing (.inr rfl) hr _
    | some c =>
      by_cases hl : localValue attrs k = .undefined
      · exact Conflict.decide_of_local_missing (.inl hl) hr _
      · have hle : ¬ ts < c := Nat.not_lt.mpr (ha c hc)
        exact (Conflict.decide_of_present hl hr c ts).trans (if_neg hle)

/-- An outdated record takes no field that the document has. -/
theorem updateOperations_of_rejected {attrs : Fields} {ts c : Nat} (hc : clockOf attrs = some c)
    (hlt : ts < c) {r : RemoteIssue} (hr : ∀ k ∈ managedFields, r.value k ≠ .undefined)
    (hl : ∀ k ∈ managedFields, localValue attrs k ≠ .undefined) :
    updateOperations attrs r (some ts) = [] := by
  unfold updateOperations
  rw [Conflict.takeAll_eq, List.map_eq_nil_iff, List.filter_eq_nil_iff]
  intro k hk htaken
  have hdec := ((taken_iff attrs r _ hk).mp (by simpa using htaken)).1
  rw [localTsOf_eq, hc, Option.map_some, Conflict.decide_of_present (hl k hk) (hr k hk) c ts,
    if_pos hlt] at hdec
  cases hdec

theorem updateOperations_keys (attrs : Fields) (r : RemoteIssue) (ts : JsDate) :
    (updateOperations attrs r ts).map Prod.fst =
      managedFields.filter fun k => Conflict.Taken (localVersions attrs) (r.versions ts) k := by
  unfold updateOperations
  rw [Conflict.takeAll_eq, List.map_map]
  exact List.map_id _

theorem not_mem_updateOperations {attrs : Fields} {r : RemoteIssue} {ts : JsDate} {k : String}
    (hk : k ∉ managedFields) : k ∉ (updateOperations attrs r ts).map Prod.fst := by
  rw [updateOperations_keys, List.mem_filter]
  exact fun h => hk h.1

/-- The write of a dirty update sets the fields taken, then the clock and the marker. -/
theorem assign_update (attrs : Fields) (r : RemoteIssue) (ts : JsDate) :
    attrs.assign (withOriginatedMarker ((updateOperations attrs r ts).set "modifiedOn"
        (timeValue ts))) =
      ((attrs.assign (updateOperations attrs r ts)).set "modifiedOn" (timeValue ts)).set
        "_originated" (.str "gitlab") := by
  have hclock : "modifiedOn" ∉ (updateOperations attrs r ts).map Prod.fst :=
    not_mem_updateOperations (by decide)
  have hmarker : "_originated" ∉
      ((updateOperations attrs r ts) ++ [("modifiedOn", timeValue ts)]).map Prod.fst := by
    rw [List.map_append, List.mem_append, not_or]
    exact ⟨not_mem_updateOperations (by decide), by simp⟩
  unfold withOriginatedMarker
  generalize updateOperations attrs r ts = update at hclock hmarker ⊢
  rw [Fields.set_of_not_mem hclock, Fields.set_of_not_mem hmarker, Fields.assign_append,
    Fields.assign_append, Fields.assign_cons, Fields.assign_nil, Fields.assign_cons,
    Fields.assign_nil]

theorem field_updatedAttrs (attrs : Fields) (r : RemoteIssue) (ts : JsDate) {k : String}
    (hk : k ∈ managedFields) :
    (updatedAttrs attrs r ts).field k =
      if Conflict.Taken (localVersions attrs) (r.versions ts) k then r.value k
      else attrs.field k := by
  have hassign : (attrs.assign (updateOperations attrs r ts)).field k =
      if Conflict.Taken (localVersions attrs) (r.versions ts) k then r.value k
      else attrs.field k := by
    unfold updateOperations
    rw [Conflict.field_assign_takeAll (by decide) attrs hk, versions_version r ts hk]
  unfold updatedAttrs
  by_cases hempty : updateOperations attrs r ts = []
  · rw [if_pos hempty]
    rw [hempty] at hassign
    exact hassign
  · have hclock : "modifiedOn" ≠ k := fun e => absurd (e ▸ hk) (by decide)
    have hmarker : "_originated" ≠ k := fun e => absurd (e ▸ hk) (by decide)
    rw [if_neg hempty, assign_update, Fields.field_set, if_neg hmarker, Fields.field_set,
      if_neg hclock, hassign]

/-- The clock stays or becomes the time of the record. -/
theorem clockOf_updatedAttrs {attrs : Fields} {r : RemoteIssue} {ts c : Nat}
    (hc : clockOf (updatedAttrs attrs r (some ts)) = some c) : clockOf attrs = some c ∨ c = ts := by
  unfold updatedAttrs at hc
  by_cases hempty : updateOperations attrs r (some ts) = []
  · rw [if_pos hempty] at hc
    exact .inl hc
  · rw [if_neg hempty, assign_update] at hc
    unfold clockOf at hc
    rw [Fields.field_set, if_neg (by decide), Fields.field_set, if_pos rfl] at hc
    dsimp only [timeValue] at hc
    by_cases hpos : (0 : Int) < ts
    · rw [if_pos hpos] at hc
      exact .inr (Option.some.inj hc).symm
    · rw [if_neg hpos] at hc
      cases hc

theorem milestoneIs_ne_undefined {env : Env} {space : Ref} {docs : OrderedMap Ref HulyDoc}
    {v : JsValue} {m : Option SyncMilestone} (h : MilestoneIs env space docs v m) :
    v ≠ .undefined := by
  cases m with
  | none =>
    rw [show v = .null from h]
    exact JsValue.noConfusion
  | some m =>
    obtain ⟨ref, rfl, -⟩ := h
    exact JsValue.noConfusion

/-- Values that agree with a record are all defined, and only the labels are an array. -/
theorem Agrees.defined {env : Env} {bctx : BindingContext} {w : World} {i : SyncIssue}
    {value : String → JsValue} (h : Agrees env bctx w i value) {k : String}
    (hk : k ∈ managedFields) : value k ≠ .undefined := by
  simp only [managedFields, List.mem_cons, List.not_mem_nil, or_false] at hk
  obtain rfl | rfl | rfl | rfl | rfl | rfl := hk
  · rw [h.title]; exact JsValue.noConfusion
  · rw [h.description]; exact JsValue.noConfusion
  · obtain ⟨ref, -, hv⟩ := h.status
    rw [hv]; exact JsValue.noConfusion
  · rw [h.assignee]
    cases i.assignees <;> exact JsValue.noConfusion
  · exact milestoneIs_ne_undefined h.milestone
  · obtain ⟨refs, hv, -⟩ := h.labels
    rw [hv]; exact JsValue.noConfusion

theorem not_arr_of_agrees {env : Env} {bctx : BindingContext} {w : World} {i : SyncIssue}
    {value : String → JsValue} (h : Agrees env bctx w i value) {k : String}
    (hk : k ∈ managedFields) (hlabels : k ≠ "labels") (xs : List JsValue) : value k ≠ .arr xs := by
  simp only [managedFields, List.mem_cons, List.not_mem_nil, or_false] at hk
  obtain rfl | rfl | rfl | rfl | rfl | rfl := hk
  · rw [h.title]; exact JsValue.noConfusion
  · rw [h.description]; exact JsValue.noConfusion
  · obtain ⟨ref, -, hv⟩ := h.status
    rw [hv]; exact JsValue.noConfusion
  · rw [h.assignee]
    cases i.assignees <;> exact JsValue.noConfusion
  · have hm := h.milestone
    cases hi : i.milestone with
    | none =>
      rw [hi] at hm
      rw [show value "milestone" = .null from hm]
      exact JsValue.noConfusion
    | some m =>
      rw [hi] at hm
      obtain ⟨ref, hv, -⟩ := hm
      rw [hv]; exact JsValue.noConfusion
  · exact absurd rfl hlabels

/-- The compared value of a field that was written. -/
theorem localValue_of_field {attrs : Fields} {k : String} {v : JsValue}
    (hfield : attrs.field k = v) (hv : v ≠ .undefined) (hlabels : k = "labels" → v ≠ .null) :
    localValue attrs k = v := by
  unfold localValue
  by_cases hm : k = "milestone"
  · rw [if_pos hm, hfield]
    cases v with
    | undefined => exact absurd rfl hv
    | _ => rfl
  · rw [if_neg hm]
    by_cases hl : k = "labels"
    · rw [if_pos hl, hfield]
      cases v with
      | undefined => exact absurd rfl hv
      | null => exact absurd rfl (hlabels hl)
      | _ => rfl
    · rw [if_neg hl, hfield]

/-- After an accepted record a field has its value, or one that compares equal. -/
theorem localValue_updatedAttrs {env : Env} {bctx : BindingContext} {w : World} {i : SyncIssue}
    {attrs : Fields} {ts : Nat} (ha : Accepted attrs ts) {r : RemoteIssue}
    (hr : Resolves env bctx w i r) {k : String} (hk : k ∈ managedFields) :
    localValue (updatedAttrs attrs r (some ts)) k = r.value k ∨
      Conflict.areEqual (r.value k) (localValue (updatedAttrs attrs r (some ts)) k) = true := by
  have hdef := hr.defined hk
  have hfield := field_updatedAttrs attrs r (some ts) hk
  by_cases heq : Conflict.areEqual (r.value k) (localValue attrs k) = true
  · have hnot : ¬ Conflict.Taken (localVersions attrs) (r.versions (some ts)) k := by
      rw [taken_of_accepted ha hk hdef, heq]
      exact Bool.noConfusion
    rw [if_neg hnot] at hfield
    have hsame : localValue (updatedAttrs attrs r (some ts)) k = localValue attrs k := by
      unfold localValue
      rw [hfield]
    rw [hsame]
    exact .inr heq
  · have htaken : Conflict.Taken (localVersions attrs) (r.versions (some ts)) k := by
      rw [taken_of_accepted ha hk hdef]
      exact Bool.eq_false_iff.mpr heq
    rw [if_pos htaken] at hfield
    refine .inl (localValue_of_field hfield hdef ?_)
    rintro rfl
    obtain ⟨refs, hv, -⟩ := hr.labels
    rw [hv]
    exact JsValue.noConfusion

theorem LabelsAre.of_areEqual {env : Env} {docs : OrderedMap Ref HulyDoc} {a b : JsValue}
    {names : List String} (h : LabelsAre env docs a names)
    (heq : Conflict.areEqual a b = true) : LabelsAre env docs b names := by
  obtain ⟨refs, rfl, hnamed, hkeys⟩ := h
  obtain ⟨ys, rfl⟩ := Conflict.exists_arr_of_areEqual heq
  have hmem := Conflict.mem_iff_of_areEqual heq
  have hstr : ∀ y ∈ ys, ∃ ref ∈ refs, y = .str ref := by
    intro y hy
    obtain ⟨ref, hr, rfl⟩ := List.mem_map.mp ((hmem y).mpr hy)
    exact ⟨ref, hr, rfl⟩
  obtain ⟨refs', rfl⟩ : ∃ refs' : List Ref, ys = refs'.map .str := by
    clear heq hmem
    induction ys with
    | nil => exact ⟨[], rfl⟩
    | cons y ys ih =>
      obtain ⟨ref, -, rfl⟩ := hstr y List.mem_cons_self
      obtain ⟨refs', rfl⟩ := ih fun z hz => hstr z (List.mem_cons_of_mem _ hz)
      exact ⟨ref :: refs', rfl⟩
  have hrefs : ∀ ref, ref ∈ refs ↔ ref ∈ refs' := by
    intro ref
    have := hmem (.str ref)
    simpa using this
  refine ⟨refs', rfl, fun ref hr => hnamed ref ((hrefs ref).mpr hr), fun key => ?_⟩
  rw [← hkeys key]
  constructor
  · rintro ⟨ref, hr, hkey⟩
    exact ⟨ref, (hrefs ref).mpr hr, hkey⟩
  · rintro ⟨ref, hr, hkey⟩
    exact ⟨ref, (hrefs ref).mp hr, hkey⟩

/-- An accepted record is what the document shows. -/
theorem agrees_of_accepted {env : Env} {bctx : BindingContext} {w : World} {i : SyncIssue}
    {attrs : Fields} {ts : Nat} (ha : Accepted attrs ts) {r : RemoteIssue}
    (hr : Resolves env bctx w i r) :
    Agrees env bctx w i (localValue (updatedAttrs attrs r (some ts))) := by
  have hvalue : ∀ k ∈ managedFields, k ≠ "labels" →
      localValue (updatedAttrs attrs r (some ts)) k = r.value k := by
    intro k hk hlabels
    obtain h | h := localValue_updatedAttrs ha hr hk
    · exact h
    · exact (Conflict.eq_of_areEqual h (not_arr_of_agrees hr hk hlabels)).symm
  exact {
    title := (hvalue _ (by decide) (by decide)).trans hr.title
    description := (hvalue _ (by decide) (by decide)).trans hr.description
    status := by
      obtain ⟨ref, hs, hv⟩ := hr.status
      exact ⟨ref, hs, (hvalue _ (by decide) (by decide)).trans hv⟩
    assignee := (hvalue _ (by decide) (by decide)).trans hr.assignee
    milestone := by
      rw [hvalue _ (by decide) (by decide)]
      exact hr.milestone
    labels := by
      obtain h | h := localValue_updatedAttrs ha hr (k := "labels") (by decide)
      · rw [h]
        exact hr.labels
      · exact LabelsAre.of_areEqual hr.labels h }

end Update

end HulyGitlab.Issues
