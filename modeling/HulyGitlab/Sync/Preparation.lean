import HulyGitlab.Sync.Epics
import HulyGitlab.Sync.IssuesRemote
import HulyGitlab.Sync.Reviews

/-!
# Resolving a record

Before a manager looks at the mirror it resolves the users, labels, milestone
and status of a record. Whether or not a call fails on the way, this adds at
most guests, tags and milestones; if no call fails, it returns. An update of a
mirror adds nothing at all.
-/

namespace HulyGitlab

open NamedDocs UserIdentity

/-- The references of the store that resolving relies on are in order. -/
structure InOrder (space : Ref) (w : World) : Prop where
  owned : StubsOwned w.idmap
  typed : WellTyped space w.docs

/-- The document keeps its class and the keys of its mixins. -/
structure Extends (doc doc' : HulyDoc) : Prop where
  objectClass : doc'.objectClass = doc.objectClass
  mixins : ∀ mixin attrs, doc.mixins.get? mixin = some attrs →
    ∃ attrs', doc'.mixins.get? mixin = some attrs' ∧ attrs.map Prod.fst ⊆ attrs'.map Prod.fst

theorem Extends.refl (doc : HulyDoc) : Extends doc doc :=
  ⟨rfl, fun _ attrs h => ⟨attrs, h, fun _ hk => hk⟩⟩

theorem Extends.trans {a b c : HulyDoc} (h : Extends a b) (h' : Extends b c) : Extends a c where
  objectClass := h'.objectClass.trans h.objectClass
  mixins mixin attrs hattrs := by
    obtain ⟨attrs', hattrs', hsub⟩ := h.mixins mixin attrs hattrs
    obtain ⟨attrs'', hattrs'', hsub'⟩ := h'.mixins mixin attrs' hattrs'
    exact ⟨attrs'', hattrs'', fun k hk => hsub' (hsub hk)⟩

/-- Every document is still there, with its class and its mixins. -/
def Extended (docs docs' : OrderedMap Ref HulyDoc) : Prop :=
  ∀ ref doc, docs.get? ref = some doc → ∃ doc', docs'.get? ref = some doc' ∧ Extends doc doc'

theorem Extended.refl (docs : OrderedMap Ref HulyDoc) : Extended docs docs :=
  fun _ doc h => ⟨doc, h, Extends.refl doc⟩

theorem Extended.trans {a b c : OrderedMap Ref HulyDoc} (h : Extended a b) (h' : Extended b c) :
    Extended a c := by
  intro ref doc hdoc
  obtain ⟨doc', hdoc', hext⟩ := h ref doc hdoc
  obtain ⟨doc'', hdoc'', hext'⟩ := h' ref doc' hdoc'
  exact ⟨doc'', hdoc'', hext.trans hext'⟩

/-- A document that was not there before stays absent in no later state, so it is new there too. -/
theorem Extended.absent {docs docs' : OrderedMap Ref HulyDoc} (h : Extended docs docs') {ref : Ref}
    (hnone : docs'.get? ref = none) : docs.get? ref = none := by
  cases hdoc : docs.get? ref with
  | none => rfl
  | some doc =>
    obtain ⟨doc', hdoc', -⟩ := h ref doc hdoc
    rw [hnone] at hdoc'
    cases hdoc'

/-- Neither kind of named documents. -/
def Ordinary (doc : HulyDoc) : Prop :=
  doc.objectClass ≠ tagElementClass ∧ doc.objectClass ≠ milestoneClass

theorem ordinary_of_issue {doc : HulyDoc} (h : doc.objectClass = issueClass) : Ordinary doc := by
  rw [Ordinary, h]
  decide

/-- A row that `putIdMap` writes. -/
def IsGuest (row : IdMapDoc) : Prop :=
  row.gitlabKind = .user ∧ row.hulyClass = "huly:class:Person"

/-- What resolving a record and updating a mirror leave: the rows of everything but users, and
every document; what they add are guests, tags and milestones. -/
structure Edits (bctx : BindingContext) (w w' : World) : Prop where
  rows : ∀ row : IdMapDoc, row.gitlabKind ≠ .user → (row ∈ w'.idmap.rows ↔ row ∈ w.idmap.rows)
  guests : ∀ row ∈ w'.idmap.rows, row ∈ w.idmap.rows ∨ IsGuest row
  docs : Extended w.docs w'.docs
  added : ∀ ref doc, w'.docs.get? ref = some doc → w.docs.get? ref = none → ¬ Ordinary doc
  inOrder : InOrder bctx.hulyProjectRef w → InOrder bctx.hulyProjectRef w'

namespace Edits

variable {bctx : BindingContext} {w w' : World}

theorem refl (w : World) : Edits bctx w w :=
  ⟨fun _ _ => Iff.rfl, fun _ h => .inl h, Extended.refl _,
    fun _ _ h h' => absurd (h.symm.trans h') (Option.some_ne_none _), id⟩

theorem trans (w₁ w₂ w₃ : World) (h : Edits bctx w₁ w₂) (h' : Edits bctx w₂ w₃) :
    Edits bctx w₁ w₃ where
  rows row hkind := (h'.rows row hkind).trans (h.rows row hkind)
  guests row hrow := by
    obtain hold | hnew := h'.guests row hrow
    · exact h.guests row hold
    · exact .inr hnew
  docs := h.docs.trans h'.docs
  added ref doc hdoc hnone := by
    cases hmid : w₂.docs.get? ref with
    | none => exact h'.added ref doc hdoc hmid
    | some mid =>
      obtain ⟨doc', hdoc', hext⟩ := h'.docs ref mid hmid
      rw [hdoc] at hdoc'
      cases hdoc'
      have hmidAdded := h.added ref mid hmid hnone
      rwa [Ordinary, ← hext.objectClass] at hmidAdded
  inOrder := h'.inOrder ∘ h.inOrder

/-- Rows and documents are as before. -/
theorem of_same (hidmap : w'.idmap = w.idmap) (hdocs : w'.docs = w.docs) : Edits bctx w w' where
  rows row _ := by rw [hidmap]
  guests row hrow := .inl (by rwa [hidmap] at hrow)
  docs := by rw [hdocs]; exact Extended.refl _
  added ref doc hdoc hnone := by
    rw [hdocs, hnone] at hdoc
    cases hdoc
  inOrder h := ⟨by rw [hidmap]; exact h.owned, by rw [hdocs]; exact h.typed⟩

theorem findByGitlab (h : Edits bctx w w') {kind : GitlabKind} (hkind : kind ≠ .user)
    (gitlabId : String) :
    w'.idmap.findByGitlab bctx.workspaceUuid kind gitlabId =
      w.idmap.findByGitlab bctx.workspaceUuid kind gitlabId := by
  apply Option.ext
  intro row
  rw [IdMap.findByGitlab_eq_some_iff, IdMap.findByGitlab_eq_some_iff]
  have hrow : row.gitlabKey = (bctx.workspaceUuid, kind, gitlabId) →
      (row ∈ w'.idmap.rows ↔ row ∈ w.idmap.rows) := by
    intro hkey
    have hsame : row.gitlabKind = kind := congrArg (fun key => key.2.1) hkey
    exact h.rows row (hsame ▸ hkind)
  exact and_congr_left hrow

theorem stubbed {idmap : IdMap} {gitlabId : String}
    (hup : w.idmap.upsert (stubRow bctx.workspaceUuid gitlabId) = .ok idmap) :
    Edits bctx w { w with idmap := idmap } where
  rows row hkind := by
    rw [IdMap.mem_of_upsert hup]
    constructor
    · rintro (rfl | ⟨hmem, -⟩)
      · exact absurd rfl hkind
      · exact hmem
    · intro hmem
      refine .inr ⟨hmem, fun hkey => hkind ?_⟩
      exact congrArg (fun key => key.2.1) hkey
  guests row hrow := by
    obtain rfl | ⟨hmem, -⟩ := (IdMap.mem_of_upsert hup).mp hrow
    · exact .inr ⟨rfl, rfl⟩
    · exact .inl hmem
  docs := Extended.refl _
  added _ _ h h' := absurd (h.symm.trans h') (Option.some_ne_none _)
  inOrder h := ⟨stubsOwned_of_upsert h.owned hup, h.typed⟩

/-- A document that was not there. -/
theorem create {ref : Ref} {doc : HulyDoc} (hfresh : w.docs.get? ref = none)
    (hclass : ¬ Ordinary doc)
    (hnames : ∀ n ∈ [issueTags, projectMilestones bctx.hulyProjectRef],
      n.Has doc → ∃ name, doc.attrs.field n.name = .str name) :
    Edits bctx w { w with docs := w.docs.set ref doc } where
  rows _ _ := Iff.rfl
  guests _ h := .inl h
  docs r d hd := by
    have hne : r ≠ ref := by
      rintro rfl
      rw [hfresh] at hd
      cases hd
    exact ⟨d, (OrderedMap.get?_set_of_ne _ hne _).trans hd, Extends.refl d⟩
  added r d hd hnone := by
    dsimp only at hd
    rw [OrderedMap.get?_set] at hd
    by_cases hr : r = ref
    · rw [if_pos hr] at hd
      cases hd
      exact hclass
    · rw [if_neg hr, hnone] at hd
      cases hd
  inOrder h := ⟨h.owned, h.typed.1.set (hnames _ (by simp)), h.typed.2.set (hnames _ (by simp))⟩

/-- A document that was there, with the names it had. -/
theorem put {ref : Ref} {doc doc' : HulyDoc} (hdoc : w.docs.get? ref = some doc)
    (hext : Extends doc doc')
    (hnames : ∀ n ∈ [issueTags, projectMilestones bctx.hulyProjectRef], n.Has doc' →
      n.Has doc ∧ doc'.attrs.field n.name = doc.attrs.field n.name) :
    Edits bctx w { w with docs := w.docs.set ref doc' } where
  rows _ _ := Iff.rfl
  guests _ h := .inl h
  docs r d hd := by
    by_cases hr : r = ref
    · subst hr
      rw [hdoc] at hd
      cases hd
      exact ⟨doc', OrderedMap.get?_set_self _ _ _, hext⟩
    · exact ⟨d, (OrderedMap.get?_set_of_ne _ hr _).trans hd, Extends.refl d⟩
  added r d hd hnone := by
    have hne : r ≠ ref := by
      rintro rfl
      rw [hdoc] at hnone
      cases hnone
    dsimp only at hd
    rw [OrderedMap.get?_set_of_ne _ hne, hnone] at hd
    cases hd
  inOrder h := by
    have htyped : ∀ n ∈ [issueTags, projectMilestones bctx.hulyProjectRef], n.Typed w.docs →
        n.Has doc' → ∃ name, doc'.attrs.field n.name = .str name := by
      intro n hn ht hhas
      obtain ⟨hold, hname⟩ := hnames n hn hhas
      rw [hname]
      exact ht ref doc hdoc hold
    exact ⟨h.owned, h.typed.1.set (htyped _ (by simp) h.typed.1),
      h.typed.2.set (htyped _ (by simp) h.typed.2)⟩

end Edits

/-- Reaching a service changes nothing. -/
theorem Sync.reach_within {R : World → World → Prop} (hr : ∀ w, R w w) (env : Env)
    (service : Service) : Effect.Within R (Sync.reach env service) := by
  intro w
  unfold Sync.reach
  rw [Effect.step_run]
  cases env.fault w service with
  | none => exact hr w
  | some e => exact hr w

/-- Every run of the computation only edits, whether it returns or throws. -/
abbrev Editing (bctx : BindingContext) {A : Type} (m : Sync A) : Prop :=
  Effect.Within (Edits bctx) m

namespace Editing

variable (env : Env) {bctx : BindingContext}

theorem pure {A : Type} (a : A) : Editing bctx (pure a : Sync A) :=
  Effect.Within.pure Edits.refl a

theorem gets {A : Type} (f : World → A) : Editing bctx (Effect.gets f) :=
  Effect.Within.gets Edits.refl f

theorem ofExcept {A : Type} (r : Except Err A) : Editing bctx (Effect.ofExcept r) :=
  Effect.Within.ofExcept Edits.refl r

theorem bind {A B : Type} {m : Sync A} {f : A → Sync B} (hm : Editing bctx m)
    (hf : ∀ a, Editing bctx (f a)) : Editing bctx (m >>= f) :=
  Effect.Within.bind Edits.trans hm hf

theorem reach (service : Service) : Editing bctx (Sync.reach env service) :=
  Sync.reach_within Edits.refl env service

theorem loadBinding (binding : BindingRef) : Editing bctx (Sync.loadBinding env binding) :=
  ofExcept _

theorem findByGitlab (workspaceUuid : String) (kind : GitlabKind) (gitlabId : String) :
    Editing bctx (Sync.findByGitlab env workspaceUuid kind gitlabId) := by
  unfold Sync.findByGitlab
  refine bind (Effect.Within.modify fun w => ?_) fun _ => bind (reach env _) fun _ => gets _
  exact Edits.of_same rfl rfl

theorem findOne (objectClass : String) (ref : Ref) :
    Editing bctx (Sync.findOne env objectClass ref) :=
  bind (reach env _) fun _ => gets _

theorem findAll (objectClass : String) : Editing bctx (Sync.findAll env objectClass) :=
  bind (reach env _) fun _ => gets _

theorem findPersonBySocialKey (socialKey : String) :
    Editing bctx (Sync.findPersonBySocialKey env socialKey) :=
  bind (reach env _) fun _ => pure _

theorem getCursor (binding : BindingRef) (kind : CursorKind) :
    Editing bctx (Sync.getCursor env binding kind) :=
  bind (reach env _) fun _ => gets _

theorem setCursor (binding : BindingRef) (kind : CursorKind) (t : Option Nat) :
    Editing bctx (Sync.setCursor env binding kind t) :=
  bind (reach env _) fun _ => Effect.Within.modify fun _ => Edits.of_same rfl rfl

theorem enqueueRecord (e : EnqueuedRecord) : Editing bctx (Sync.enqueueRecord e) :=
  Effect.Within.modify fun _ => Edits.of_same rfl rfl

theorem putMixin (ref : Ref) (mixin : String) (attributes : Fields) :
    Editing bctx (Sync.putMixin env ref mixin attributes) := by
  apply bind (reach env _)
  intro _
  refine Effect.Within.modify fun w => ?_
  cases hdoc : w.docs.get? ref with
  | none => exact Edits.refl w
  | some doc =>
    refine Edits.put hdoc ⟨rfl, fun other attrs hattrs => ?_⟩ ?_
    · dsimp only
      by_cases ho : other = mixin
      · subst ho
        refine ⟨_, OrderedMap.get?_set_self _ _ _, ?_⟩
        rw [hattrs]
        exact fun k hk => (Fields.mem_keys_assign attrs attributes k).mpr (.inl hk)
      · exact ⟨attrs, (OrderedMap.get?_set_of_ne _ ho _).trans hattrs, fun _ hk => hk⟩
    · intro n hn hhas
      simp only [List.mem_cons, List.not_mem_nil, or_false] at hn
      obtain rfl | rfl := hn
      · exact ⟨hhas, rfl⟩
      · exact ⟨hhas, rfl⟩

/-- An update of anything but a tag or a milestone, or one that leaves their names alone. -/
theorem updateDoc {ref : Ref} {operations : Fields} {w : World}
    (h : (∀ k ∈ ["title", "targetClass", "label"], k ∉ operations.map Prod.fst) ∨
      ∀ doc, w.docs.get? ref = some doc → Ordinary doc) :
    Edits bctx w ((Sync.updateDoc env ref operations).run w).2 := by
  unfold Sync.updateDoc Sync.reach
  rw [Effect.bind_run, Effect.step_run]
  cases env.fault w .platform with
  | some e => exact Edits.refl w
  | none =>
    dsimp only
    rw [Effect.modify_run]
    cases hdoc : w.docs.get? ref with
    | none => exact Edits.refl w
    | some doc =>
      refine Edits.put hdoc ⟨rfl, fun _ attrs hattrs => ⟨attrs, hattrs, fun _ hk => hk⟩⟩ ?_
      intro n hn hhas
      simp only [List.mem_cons, List.not_mem_nil, or_false] at hn
      obtain hkeys | hordinary := h
      · have hsame : ∀ k ∈ ["title", "targetClass", "label"],
            (doc.attrs.assign operations).field k = doc.attrs.field k :=
          fun k hk => Fields.field_assign_of_not_mem _ _ (hkeys k hk)
        obtain rfl | rfl := hn
        · refine ⟨⟨hhas.1, ?_⟩, hsame "title" (by simp)⟩
          have hkeep := hhas.2
          dsimp only [issueTags, LabelCache.ofIssues] at hkeep ⊢
          rwa [hsame "targetClass" (by simp)] at hkeep
        · exact ⟨hhas, hsame "label" (by simp)⟩
      · obtain ⟨htag, hmile⟩ := hordinary doc hdoc
        obtain rfl | rfl := hn
        · exact absurd hhas.1 htag
        · exact absurd hhas.1 hmile

/-- The first part edits in this world, the rest in every one. -/
theorem bind_at {A B : Type} {c : Sync A} {f : A → Sync B} {w : World}
    (hc : Edits bctx w (c.run w).2) (hf : ∀ a, Editing bctx (f a)) :
    Edits bctx w ((c >>= f).run w).2 := by
  rw [Effect.bind_run]
  cases hrun : c.run w with
  | mk r w₁ =>
    rw [hrun] at hc
    cases r with
    | error e => exact hc
    | ok a => exact Edits.trans _ _ _ hc (hf a w₁)

/-- The mirror is read, and updated if it is there. -/
theorem readIssue {A : Type} {ref : Ref} {f : Option HulyDoc → Sync A}
    (hnone : Editing bctx (f none))
    (hsome : ∀ doc w, w.docs.get? ref = some doc → doc.objectClass = issueClass →
      Edits bctx w ((f (some doc)).run w).2) :
    Editing bctx (Sync.findOne env issueClass ref >>= f) := by
  apply Effect.Within.bind_of Edits.trans (findOne env issueClass ref)
  intro w found w' hrun
  unfold Sync.findOne Sync.reach at hrun
  rw [Effect.bind_run, Effect.step_run] at hrun
  cases hfault : env.fault w .platform with
  | some e =>
    rw [hfault] at hrun
    cases hrun
  | none =>
    rw [hfault] at hrun
    cases hrun
    dsimp only
    cases hfound : (w.docs.get? ref).filter fun doc => doc.objectClass = issueClass with
    | none => exact hnone w
    | some doc =>
      obtain ⟨hdoc, hclass⟩ := Option.filter_eq_some_iff.mp hfound
      exact hsome doc w hdoc (by simpa using hclass)

theorem mapByGitlabUser (user : IdentityUser) :
    Editing bctx (UserIdentity.mapByGitlabUser env user) := by
  apply bind (findPersonBySocialKey env _)
  intro byGitlab
  cases byGitlab with
  | some ref => exact pure _
  | none =>
    exact Effect.Within.ite (fun _ => bind (ofExcept _) fun _ => findPersonBySocialKey env _)
      fun _ => pure _

theorem stub (gitlabId : String) :
    Editing bctx (Sync.upsertIdMap env (stubRow bctx.workspaceUuid gitlabId)) := by
  apply bind (reach env _)
  intro _
  refine Effect.Within.step fun w => ?_
  cases hup : w.idmap.upsert (stubRow bctx.workspaceUuid gitlabId) with
  | ok idmap => exact Edits.stubbed hup
  | error e => exact Edits.refl w

theorem resolveUser (user : JsValue) :
    Editing bctx (UserIdentity.resolveUser env bctx.workspaceUuid user) := by
  apply bind (ofExcept _)
  intro identity
  apply bind (mapByGitlabUser env identity)
  intro matched
  cases matched with
  | some ref => exact pure _
  | none =>
    apply bind (findByGitlab env _ _ _)
    intro existing
    cases existing with
    | some row => exact pure _
    | none => exact bind (stub env _) fun _ => pure _

theorem resolveAssignee (assignees : JsValue) :
    Editing bctx (UserIdentity.resolveAssignee env bctx.workspaceUuid assignees) := by
  apply bind (ofExcept _)
  intro users
  cases users with
  | nil => exact pure _
  | cons first rest => exact bind (resolveUser env first) fun _ => pure _

theorem resolveReviewerUuids (users : JsValue) :
    Editing bctx (MergeRequests.resolveReviewerUuids env bctx.workspaceUuid users) :=
  Effect.Within.ite (fun _ => pure _) fun _ => bind (ofExcept _) fun _ =>
    bind (Effect.Within.mapEach Edits.refl Edits.trans fun user _ => resolveUser env user)
      fun _ => pure _

theorem createTag (text : String) :
    Editing bctx (Sync.createDoc env tagElementClass bctx.hulyProjectRef
      (LabelCache.tagAttributes text)) := by
  apply bind (reach env _)
  intro _
  refine Effect.Within.step fun w => ?_
  refine Edits.create ((OrderedMap.get?_eq_none_iff _ _).mpr (env.generateId_fresh _))
    (fun h => h.1 rfl) fun n hn hhas => ?_
  simp only [List.mem_cons, List.not_mem_nil, or_false] at hn
  obtain rfl | rfl := hn
  · exact ⟨text, by simp [issueTags, LabelCache.tagAttributes, Fields.assign_cons]⟩
  · exact absurd hhas.1 tagElementClass_ne_milestoneClass

theorem createMilestone (text : String) (description : JsValue) :
    Editing bctx (Sync.createDoc env milestoneClass bctx.hulyProjectRef
      (MilestoneCache.milestoneAttributes text description)) := by
  apply bind (reach env _)
  intro _
  refine Effect.Within.step fun w => ?_
  refine Edits.create ((OrderedMap.get?_eq_none_iff _ _).mpr (env.generateId_fresh _))
    (fun h => h.2 rfl) fun n hn hhas => ?_
  simp only [List.mem_cons, List.not_mem_nil, or_false] at hn
  obtain rfl | rfl := hn
  · exact absurd hhas.1.symm tagElementClass_ne_milestoneClass
  · refine ⟨text, ?_⟩
    by_cases hd : description = .undefined <;>
      simp [projectMilestones, MilestoneCache.milestoneAttributes, Fields.assign_cons, hd]

theorem resolveLocal (c : LabelCache) (names : List JsValue) :
    Editing bctx (LabelCache.resolveLocal env bctx.hulyProjectRef c names) := by
  induction names generalizing c with
  | nil => exact pure _
  | cons name names ih =>
    have hfirst : Editing bctx (LabelCache.ensureLocalTag env bctx.hulyProjectRef c name) := by
      apply bind (Effect.Within.ite (fun _ => pure _) fun _ => bind (findAll env _) fun _ =>
        bind (ofExcept _) fun _ => pure _)
      intro c
      apply bind (ofExcept _)
      intro text
      dsimp only
      cases c.localByName.get (env.toLowerCase text) with
      | some existing => exact pure _
      | none => exact bind (createTag env text) fun _ => pure _
    exact bind hfirst fun first => bind (ih first.2) fun _ => pure _

theorem ensureLocalMilestone (c : MilestoneCache) (label description : JsValue) :
    Editing bctx (MilestoneCache.ensureLocalMilestone env bctx.hulyProjectRef c label
      description) := by
  apply bind (Effect.Within.ite (fun _ => pure _) fun _ => bind (findAll env _) fun _ =>
    bind (ofExcept _) fun _ => pure _)
  intro c
  apply bind (ofExcept _)
  intro text
  dsimp only
  cases c.localByLabel.get (env.toLowerCase text) with
  | some existing => exact pure _
  | none => exact bind (createMilestone env text description) fun _ => pure _

theorem issueMilestone (milestone : JsValue) :
    Editing bctx (Issues.resolveMilestone env bctx.hulyProjectRef milestone) :=
  Effect.Within.ite (fun _ => pure _) fun _ => bind (ofExcept _) fun _ =>
    bind (ofExcept _) fun _ => bind (ensureLocalMilestone env _ _ _) fun _ => pure _

theorem mergeRequestMilestone (milestone : JsValue) :
    Editing bctx (MergeRequests.resolveMilestone env bctx.hulyProjectRef milestone) :=
  Effect.Within.ite (fun _ => pure _) fun _ => bind (ofExcept _) fun _ =>
    bind (ensureLocalMilestone env _ _ _) fun _ => pure _

theorem mapRemoteState (projectKey : String) (remoteState : JsValue) (statuses : List Status) :
    Editing bctx (StatusMap.mapRemoteState env projectKey remoteState statuses) := by
  intro w
  rw [StatusMap.mapRemoteState_run]
  exact Edits.of_same rfl rfl

theorem writeIssue {ref : Ref} {doc : HulyDoc} (update : Fields) (remoteTs : JsDate) {w : World}
    (hdoc : w.docs.get? ref = some doc) (hclass : doc.objectClass = issueClass) :
    Edits bctx w ((HulyGitlab.writeUpdate env ref update remoteTs).run w).2 := by
  unfold HulyGitlab.writeUpdate
  rw [Effect.ite_run]
  by_cases hempty : update = []
  · rw [if_pos hempty]
    exact Edits.refl w
  · rw [if_neg hempty]
    refine updateDoc env (.inr fun doc' hdoc' => ?_)
    rw [hdoc] at hdoc'
    cases hdoc'
    exact ordinary_of_issue hclass

theorem advanceCursor (binding : BindingRef) (kind : CursorKind) (localTs : Option JsDate)
    (remoteTs : JsDate) : Editing bctx (HulyGitlab.advanceCursor env binding kind localTs remoteTs) :=
  Effect.Within.ite (fun _ => setCursor env _ _ _) fun _ => pure _

theorem updateFromRemote_issue (binding : BindingRef) (hulyRef : Ref) (r : Issues.RemoteIssue)
    (remoteTs : JsDate) :
    Editing bctx (Issues.updateFromRemote env binding hulyRef r remoteTs) := by
  unfold Issues.updateFromRemote
  refine readIssue env ?_ fun doc w hdoc hclass => ?_
  · exact pure _
  · dsimp only
    exact bind_at (writeIssue env _ _ hdoc hclass) fun _ => advanceCursor env _ _ _ _

theorem putReviewMixin (ref : Ref) (review : Fields) :
    Editing bctx (MergeRequests.putReviewMixin env ref review) :=
  Effect.Within.ite (fun _ => pure _) fun _ => putMixin env _ _ _

theorem putMixins (hulyRef : Ref) (issue : HulyDoc) (syncMR : Fields) (r : MergeRequests.RemoteMR)
    (remoteTs : JsDate) :
    Editing bctx (MergeRequests.putMixins env hulyRef issue syncMR r remoteTs) :=
  bind (gets _) fun _ => bind (ofExcept _) fun _ => bind (putMixin env _ _ _) fun _ =>
    bind (ofExcept _) fun _ => putReviewMixin env _ _

theorem updateFromRemote_mergeRequest (binding : BindingRef) (hulyRef : Ref) (syncMR : Fields)
    (r : MergeRequests.RemoteMR) (remoteTs : JsDate) :
    Editing bctx (MergeRequests.updateFromRemote env binding bctx hulyRef syncMR r remoteTs) := by
  unfold MergeRequests.updateFromRemote
  refine readIssue env ?_ fun doc w hdoc hclass => ?_
  · exact pure _
  · dsimp only
    exact bind_at (writeIssue env _ _ hdoc hclass) fun _ =>
      bind (putMixins env _ _ _ _ _) fun _ => advanceCursor env _ _ _ _

/-- The update of a message leaves the names of tags and milestones alone. -/
theorem updateMessage (ref : Ref) (message author : JsValue) (updatedAt : JsDate) :
    Editing bctx (Sync.updateDoc env ref (Notes.updateAttributes message author updatedAt)) :=
  fun _ => updateDoc env (.inl (by simp [Notes.updateAttributes, withOriginatedMarker, Fields.set]))

theorem updateFromRemote_note (binding : BindingRef) (hulyRef : Ref) (message author : JsValue)
    (remoteTs : JsDate) :
    Editing bctx (Notes.updateFromRemote env binding hulyRef message author remoteTs) :=
  bind (getCursor env _ _) fun _ => Effect.Within.ite
    (fun _ => bind (updateMessage env _ _ _ _) fun _ => setCursor env _ _ _) fun _ => pure _

theorem updateMessage_thread (messageRef : Ref) (message author : JsValue) (updatedAt : JsDate) :
    Editing bctx (Reviews.updateMessage env messageRef message author updatedAt) :=
  bind (findOne env _ _) fun _ => Effect.Within.ite (fun _ => updateMessage env _ _ _ _) fun _ =>
    pure _

theorem resolvePerson (user : JsValue) : Editing bctx (Reviews.resolvePerson env user) :=
  bind (ofExcept _) fun _ => bind (mapByGitlabUser env _) fun _ => pure _

theorem writeEpic {ref : Ref} {doc : HulyDoc} (update : Fields) (remoteTs : JsDate) {w : World}
    (hdoc : w.docs.get? ref = some doc) (hclass : doc.objectClass = issueClass) :
    Edits bctx w ((Epics.writeUpdate env ref update remoteTs).run w).2 := by
  unfold Epics.writeUpdate
  rw [Effect.ite_run]
  by_cases hempty : update = []
  · rw [if_pos hempty]
    exact Edits.refl w
  · rw [if_neg hempty]
    refine updateDoc env (.inr fun doc' hdoc' => ?_)
    rw [hdoc] at hdoc'
    cases hdoc'
    exact ordinary_of_issue hclass

theorem updateFromRemote_epic (hulyRef : Ref) (syncEpic : Fields) (description : JsValue)
    (remoteTs : JsDate) :
    Editing bctx (Epics.updateFromRemote env hulyRef syncEpic description remoteTs) := by
  unfold Epics.updateFromRemote
  refine readIssue env ?_ fun doc w hdoc hclass => ?_
  · exact pure _
  · exact bind_at (writeEpic env _ _ hdoc hclass) fun _ => bind (ofExcept _) fun _ =>
      bind (putMixin env _ _ _) fun _ => pure _

theorem linkChild (epicIid childIid : JsValue) :
    Editing bctx (Epics.linkChild env bctx epicIid childIid) := by
  apply bind (findByGitlab env _ _ _)
  intro mrChild
  cases mrChild with
  | some row => exact putMixin env _ _ _
  | none =>
    apply bind (findByGitlab env _ _ _)
    intro issueChild
    cases issueChild with
    | some row => exact putMixin env _ _ _
    | none => exact pure _

theorem linkChildren (binding : BindingRef) (syncEpic : Fields) :
    Editing bctx (Epics.linkChildren env binding bctx syncEpic) :=
  bind (ofExcept _) fun _ =>
    bind (Effect.Within.forEach Edits.refl Edits.trans fun _ _ => linkChild env _ _) fun _ =>
      setCursor env _ _ _

theorem resolveRecord (syncMR : Fields) :
    Editing bctx (MergeRequests.resolveRecord env bctx syncMR) :=
  bind (ofExcept _) fun _ => bind (resolveAssignee env _) fun _ =>
    bind (resolveReviewerUuids env _) fun _ => bind (resolveReviewerUuids env _) fun _ =>
    bind (ofExcept _) fun _ => bind (resolveLocal env _ _) fun _ =>
    bind (mergeRequestMilestone env _) fun _ => pure _

end Editing

end HulyGitlab
