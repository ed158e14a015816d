import HulyGitlab.Sync.Preparation

/-!
# Mirrors of a record

A record stands for one or more GitLab objects. Each gets a document, a row of
the id map and possibly mixins, in an order of its own for each manager. What
holds of every run, wherever it stops, is that rows and documents only come
along, and a new row points at a new document.
-/

namespace HulyGitlab

open UserIdentity

/-- A mixin with the keys that are written to it. -/
abbrev MixinKeys := String × List String

/-- A GitLab object of a record, with the mixins the create branch writes for it. -/
structure MirrorObject where
  gitlabId : String
  /-- Written before the row. -/
  before : List MixinKeys
  /-- Written after the row, and once more by every update. -/
  again : List MixinKeys
  /-- Written after the row, and by no update. -/
  once : List MixinKeys

/-- What the mirror of a record consists of. -/
structure Mirror where
  gitlabKind : GitlabKind
  rowClass : String
  objectClass : String
  objects : List MirrorObject
  notUser : gitlabKind ≠ .user
  notPerson : rowClass ≠ "huly:class:Person"
  ordinary : objectClass ≠ tagElementClass ∧ objectClass ≠ milestoneClass

namespace Mirror

/-- The row of an object. -/
def row (m : Mirror) (bctx : BindingContext) (o : MirrorObject) (ref : Ref) : IdMapDoc :=
  ⟨bctx.workspaceUuid, m.gitlabKind, o.gitlabId, m.rowClass, ref⟩

/-- The object has no row. -/
def Lacks (m : Mirror) (bctx : BindingContext) (o : MirrorObject) (w : World) : Prop :=
  w.idmap.findByGitlab bctx.workspaceUuid m.gitlabKind o.gitlabId = none

theorem Lacks.gitlabKey_ne {m : Mirror} {bctx : BindingContext} {o : MirrorObject} {w : World}
    (h : m.Lacks bctx o w) {row : IdMapDoc} (hrow : row ∈ w.idmap.rows) :
    row.gitlabKey ≠ (bctx.workspaceUuid, m.gitlabKind, o.gitlabId) := by
  intro hkey
  rw [Lacks, IdMap.findByGitlab_eq_some_iff.mpr ⟨hrow, hkey⟩] at h
  cases h

end Mirror

/-- The document has the mixin with these keys. -/
def Carries (doc : HulyDoc) (mixin : MixinKeys) : Prop :=
  ∃ attrs, doc.mixins.get? mixin.1 = some attrs ∧ mixin.2 ⊆ attrs.map Prod.fst

theorem Carries.extends {doc doc' : HulyDoc} {mixin : MixinKeys} (h : Carries doc mixin)
    (hext : Extends doc doc') : Carries doc' mixin := by
  obtain ⟨attrs, hattrs, hsub⟩ := h
  obtain ⟨attrs', hattrs', hsub'⟩ := hext.mixins mixin.1 attrs hattrs
  exact ⟨attrs', hattrs', fun k hk => hsub' (hsub hk)⟩

/-- A document with the first mixins has the second. -/
def Covers (mixins needed : List MixinKeys) : Prop :=
  ∀ doc, (∀ mixin ∈ mixins, Carries doc mixin) → ∀ mixin ∈ needed, Carries doc mixin

theorem covers_nil (mixins : List MixinKeys) : Covers mixins [] :=
  fun _ _ _ hmixin => absurd hmixin List.not_mem_nil

theorem Carries.mono {doc : HulyDoc} {mixin : String} {keys more : List String}
    (h : Carries doc (mixin, more)) (hkeys : keys ⊆ more) : Carries doc (mixin, keys) := by
  obtain ⟨attrs, hattrs, hsub⟩ := h
  exact ⟨attrs, hattrs, fun k hk => hsub (hkeys hk)⟩

/-- The platform gives no new document the id that a row has. -/
def Unclaimed (env : Env) (w : World) : Prop :=
  ∀ ids, w.docs.keys ⊆ ids → ∀ row ∈ w.idmap.rows, row.hulyClass ≠ "huly:class:Person" →
    row.hulyRef ≠ env.generateId ids

/-- Rows and documents only come along; a new row is that of an object of the record, and points
at a new document that has the mixins that come before the row. -/
structure Grows (m : Mirror) (bctx : BindingContext) (w w' : World) : Prop where
  rows : ∀ row ∈ w.idmap.rows, row.gitlabKind ≠ .user → row ∈ w'.idmap.rows
  fresh : ∀ row ∈ w'.idmap.rows, row ∈ w.idmap.rows ∨ IsGuest row ∨
    ∃ o ∈ m.objects, ∃ ref doc, row = m.row bctx o ref ∧ w.docs.get? ref = none ∧
      w'.docs.get? ref = some doc ∧ doc.objectClass = m.objectClass ∧
      ∀ mixin ∈ o.before, Carries doc mixin
  docs : Extended w.docs w'.docs
  inOrder : InOrder bctx.hulyProjectRef w → InOrder bctx.hulyProjectRef w'

section Grows

variable {m : Mirror} {bctx : BindingContext} {w w' : World}

theorem Edits.grows (h : Edits bctx w w') : Grows m bctx w w' where
  rows row hrow hkind := (h.rows row hkind).mpr hrow
  fresh row hrow := by
    obtain hold | hguest := h.guests row hrow
    · exact .inl hold
    · exact .inr (.inl hguest)
  docs := h.docs
  inOrder := h.inOrder

theorem Grows.refl (w : World) : Grows m bctx w w := (Edits.refl w).grows

theorem Grows.trans (w₁ w₂ w₃ : World) (h : Grows m bctx w₁ w₂) (h' : Grows m bctx w₂ w₃) :
    Grows m bctx w₁ w₃ where
  rows row hrow hkind := h'.rows row (h.rows row hrow hkind) hkind
  fresh row hrow := by
    obtain hmid | hguest | ⟨o, ho, ref, doc, hrow, hnone, hdoc⟩ := h'.fresh row hrow
    · obtain hold | hguest | ⟨o, ho, ref, doc, hrow, hnone, hdoc, hclass, hbefore⟩ :=
        h.fresh row hmid
      · exact .inl hold
      · exact .inr (.inl hguest)
      · obtain ⟨doc', hdoc', hext⟩ := h'.docs ref doc hdoc
        exact .inr (.inr ⟨o, ho, ref, doc', hrow, hnone, hdoc', hext.objectClass.trans hclass,
          fun mixin hmixin => (hbefore mixin hmixin).extends hext⟩)
    · exact .inr (.inl hguest)
    · exact .inr (.inr ⟨o, ho, ref, doc, hrow, h.docs.absent hnone, hdoc⟩)
  docs := h.docs.trans h'.docs
  inOrder := h'.inOrder ∘ h.inOrder

theorem Grows.unclaimed {env : Env} (h : Grows m bctx w w') (hw : Unclaimed env w) :
    Unclaimed env w' := by
  intro ids hids row hrow hperson
  obtain hold | hguest | ⟨o, -, ref, doc, rfl, -, hdoc, -⟩ := h.fresh row hrow
  · refine hw ids (fun ref href => hids ?_) row hold hperson
    obtain ⟨doc, hdoc⟩ := Option.isSome_iff_exists.mp ((w.docs.get?_isSome_iff ref).mpr href)
    obtain ⟨doc', hdoc', -⟩ := h.docs ref doc hdoc
    exact OrderedMap.mem_keys_of_get? hdoc'
  · exact absurd hguest.2 hperson
  · intro heq
    exact env.generateId_fresh ids (heq ▸ hids (OrderedMap.mem_keys_of_get? hdoc))

end Grows

/-- A document of the mirror that has been created, but has no row yet. -/
structure Drafted (m : Mirror) (bctx : BindingContext) (mixins : List MixinKeys) (w : World)
    (ref : Ref) (w' : World) : Prop where
  rows : ∀ row : IdMapDoc, row.gitlabKind ≠ .user → (row ∈ w'.idmap.rows ↔ row ∈ w.idmap.rows)
  guests : ∀ row ∈ w'.idmap.rows, row ∈ w.idmap.rows ∨ IsGuest row
  docs : Extended w.docs w'.docs
  inOrder : InOrder bctx.hulyProjectRef w → InOrder bctx.hulyProjectRef w'
  absent : w.docs.get? ref = none
  doc : ∃ doc, w'.docs.get? ref = some doc ∧ doc.objectClass = m.objectClass ∧
    ∀ mixin ∈ mixins, Carries doc mixin
  added : ∀ r doc, w'.docs.get? r = some doc → w.docs.get? r = none → r = ref ∨ ¬ Ordinary doc

/-- The document of the object has its row. -/
structure Claimed (m : Mirror) (bctx : BindingContext) (o : MirrorObject)
    (mixins : List MixinKeys) (w : World) (ref : Ref) (w' : World) : Prop where
  grows : Grows m bctx w w'
  row : m.row bctx o ref ∈ w'.idmap.rows
  absent : w.docs.get? ref = none
  doc : ∃ doc, w'.docs.get? ref = some doc ∧ doc.objectClass = m.objectClass ∧
    ∀ mixin ∈ mixins, Carries doc mixin
  added : ∀ r doc, w'.docs.get? r = some doc → w.docs.get? r = none → r = ref ∨ ¬ Ordinary doc

section Drafted

variable {m : Mirror} {bctx : BindingContext} {o : MirrorObject} {mixins : List MixinKeys}
  {w w₁ w₂ : World} {ref : Ref}

theorem Drafted.grows (h : Drafted m bctx mixins w ref w₁) : Grows m bctx w w₁ where
  rows row hrow hkind := (h.rows row hkind).mpr hrow
  fresh row hrow := by
    obtain hold | hguest := h.guests row hrow
    · exact .inl hold
    · exact .inr (.inl hguest)
  docs := h.docs
  inOrder := h.inOrder

/-- What is added beside the document of the mirror are tags and milestones. -/
theorem added_trans (h : ∀ r doc, w₁.docs.get? r = some doc → w.docs.get? r = none →
      r = ref ∨ ¬ Ordinary doc) (he : Edits bctx w₁ w₂) (r : Ref) (doc : HulyDoc)
    (hdoc : w₂.docs.get? r = some doc) (hnone : w.docs.get? r = none) :
    r = ref ∨ ¬ Ordinary doc := by
  cases hmid : w₁.docs.get? r with
  | none => exact .inr (he.added r doc hdoc hmid)
  | some mid =>
    obtain ⟨doc', hdoc', hext⟩ := he.docs r mid hmid
    rw [hdoc] at hdoc'
    cases hdoc'
    have hmidAdded := h r mid hmid hnone
    rwa [Ordinary, ← hext.objectClass] at hmidAdded

theorem Drafted.edits (h : Drafted m bctx mixins w ref w₁) (he : Edits bctx w₁ w₂) :
    Drafted m bctx mixins w ref w₂ where
  rows row hkind := (he.rows row hkind).trans (h.rows row hkind)
  guests row hrow := by
    obtain hold | hnew := he.guests row hrow
    · exact h.guests row hold
    · exact .inr hnew
  docs := h.docs.trans he.docs
  inOrder := he.inOrder ∘ h.inOrder
  absent := h.absent
  doc := by
    obtain ⟨doc, hdoc, hclass, hmixins⟩ := h.doc
    obtain ⟨doc', hdoc', hext⟩ := he.docs ref doc hdoc
    exact ⟨doc', hdoc', hext.objectClass.trans hclass,
      fun mixin hmixin => (hmixins mixin hmixin).extends hext⟩
  added := added_trans h.added he

theorem Claimed.edits (h : Claimed m bctx o mixins w ref w₁) (he : Edits bctx w₁ w₂) :
    Claimed m bctx o mixins w ref w₂ where
  grows := Grows.trans _ _ _ h.grows he.grows
  row := (he.rows _ m.notUser).mpr h.row
  absent := h.absent
  doc := by
    obtain ⟨doc, hdoc, hclass, hmixins⟩ := h.doc
    obtain ⟨doc', hdoc', hext⟩ := he.docs ref doc hdoc
    exact ⟨doc', hdoc', hext.objectClass.trans hclass,
      fun mixin hmixin => (hmixins mixin hmixin).extends hext⟩
  added := added_trans h.added he

/-- The row of an unmapped object is added. -/
theorem Drafted.claim (h : Drafted m bctx mixins w ref w₁) (ho : o ∈ m.objects)
    (hbefore : Covers mixins o.before) (hlacks : m.Lacks bctx o w)
    {idmap : IdMap} (hup : w₁.idmap.upsert (m.row bctx o ref) = .ok idmap) :
    Claimed m bctx o mixins w ref { w₁ with idmap := idmap } where
  grows := {
    rows := by
      intro row hrow hkind
      rw [IdMap.mem_of_upsert hup]
      exact .inr ⟨(h.rows row hkind).mpr hrow, hlacks.gitlabKey_ne hrow⟩
    fresh := by
      intro row hrow
      obtain rfl | ⟨hmem, -⟩ := (IdMap.mem_of_upsert hup).mp hrow
      · obtain ⟨doc, hdoc, hclass, hmixins⟩ := h.doc
        exact .inr (.inr ⟨o, ho, ref, doc, rfl, h.absent, hdoc, hclass,
          hbefore doc hmixins⟩)
      · exact h.grows.fresh row hmem |>.imp id fun hfresh => hfresh
    docs := h.docs
    inOrder := fun hw =>
      have hw₁ := h.inOrder hw
      ⟨fun row hrow hclass => by
        obtain rfl | ⟨hmem, -⟩ := (IdMap.mem_of_upsert hup).mp hrow
        · exact absurd hclass m.notPerson
        · exact hw₁.owned row hmem hclass, hw₁.typed⟩ }
  row := (IdMap.mem_of_upsert hup).mpr (.inl rfl)
  absent := h.absent
  doc := h.doc
  added := h.added

/-- No row stands in the way of the row of a new document. -/
theorem Drafted.not_conflicts {env : Env} (h : Drafted m bctx mixins w (env.generateId w.docs.keys) w₁)
    (hw : Unclaimed env w) (o : MirrorObject) :
    ¬ w₁.idmap.Conflicts (m.row bctx o (env.generateId w.docs.keys)) := by
  rintro ⟨row, hrow, hhuly, -⟩
  simp only [IdMapDoc.hulyKey, Mirror.row, Prod.mk.injEq] at hhuly
  have hperson : row.hulyClass ≠ "huly:class:Person" := by
    rw [hhuly.2.1]
    exact m.notPerson
  obtain hold | hguest := h.guests row hrow
  · exact hw _ (fun _ hk => hk) row hold hperson hhuly.2.2
  · exact hperson hguest.2

end Drafted

/-- The document with attributes merged into a mixin. -/
def HulyDoc.withMixin (doc : HulyDoc) (mixin : String) (attributes : Fields) : HulyDoc :=
  { doc with
    mixins := doc.mixins.set mixin (((doc.mixins.get? mixin).getD []).assign attributes) }

theorem extends_withMixin (doc : HulyDoc) (mixin : String) (attributes : Fields) :
    Extends doc (doc.withMixin mixin attributes) where
  objectClass := rfl
  mixins other attrs hattrs := by
    by_cases ho : other = mixin
    · subst ho
      refine ⟨_, OrderedMap.get?_set_self _ _ _, fun k hk => ?_⟩
      rw [hattrs, Fields.mem_keys_assign]
      exact .inl hk
    · exact ⟨attrs, (OrderedMap.get?_set_of_ne _ ho _).trans hattrs, fun _ hk => hk⟩

theorem carries_withMixin (doc : HulyDoc) (mixin : String) (attributes : Fields) :
    Carries (doc.withMixin mixin attributes) (mixin, attributes.map Prod.fst) :=
  ⟨_, OrderedMap.get?_set_self _ _ _, fun k hk => (Fields.mem_keys_assign _ _ k).mpr (.inr hk)⟩

/-- Keys that a write leaves out were there before. -/
theorem carries_of_withMixin {doc : HulyDoc} {mixin : String} {attributes : Fields} {k : MixinKeys}
    (h : Carries (doc.withMixin mixin attributes) k) (hne : k.2 ≠ [])
    (hk : ∀ key ∈ k.2, key ∉ attributes.map Prod.fst) : Carries doc k := by
  obtain ⟨attrs, hattrs, hsub⟩ := h
  dsimp only [HulyDoc.withMixin] at hattrs
  by_cases hmixin : k.1 = mixin
  · rw [hmixin, OrderedMap.get?_set_self] at hattrs
    cases hattrs
    have hold : k.2 ⊆ ((doc.mixins.get? mixin).getD []).map Prod.fst := by
      intro key hkey
      obtain hin | hin := (Fields.mem_keys_assign _ _ key).mp (hsub hkey)
      · exact hin
      · exact absurd hin (hk key hkey)
    cases hget : doc.mixins.get? mixin with
    | some old =>
      rw [hget] at hold
      exact ⟨old, by rw [hmixin]; exact hget, hold⟩
    | none =>
      rw [hget] at hold
      exact absurd (List.subset_nil.mp hold) hne
  · rw [OrderedMap.get?_set_of_ne _ hmixin] at hattrs
    exact ⟨attrs, hattrs, hsub⟩

section Calls

variable (env : Env)

/-- A call fails before it does anything, or is made. -/
theorem Sync.putMixin_cases {ref : Ref} {doc : HulyDoc} {w : World} (mixin : String)
    (attributes : Fields) (hdoc : w.docs.get? ref = some doc) :
    (∃ e, (Sync.putMixin env ref mixin attributes).run w = (.error e, w)) ∨
      (Sync.putMixin env ref mixin attributes).run w =
        (.ok (), { w with docs := w.docs.set ref (doc.withMixin mixin attributes) }) := by
  refine (Sync.reach_bind_cases env _ _ w).imp id fun hrun => hrun.trans ?_
  rw [Effect.modify_run, hdoc]
  rfl

theorem Sync.updateDoc_cases {ref : Ref} {doc : HulyDoc} {w : World} (operations : Fields)
    (hdoc : w.docs.get? ref = some doc) :
    (∃ e, (Sync.updateDoc env ref operations).run w = (.error e, w)) ∨
      (Sync.updateDoc env ref operations).run w =
        (.ok (), { w with
          docs := w.docs.set ref { doc with attrs := doc.attrs.assign operations } }) := by
  refine (Sync.reach_bind_cases env _ _ w).imp id fun hrun => hrun.trans ?_
  rw [Effect.modify_run, hdoc]

/-- A document that is not there is not written. -/
theorem Sync.putMixin_cases_of_none {ref : Ref} {w : World} (mixin : String) (attributes : Fields)
    (hdoc : w.docs.get? ref = none) :
    (∃ e, (Sync.putMixin env ref mixin attributes).run w = (.error e, w)) ∨
      (Sync.putMixin env ref mixin attributes).run w = (.ok (), w) := by
  refine (Sync.reach_bind_cases env _ _ w).imp id fun hrun => hrun.trans ?_
  rw [Effect.modify_run, hdoc]

theorem Sync.putMixin_run {env : Env} (h : env.Healthy) {ref : Ref} {doc : HulyDoc} {w : World}
    (mixin : String) (attributes : Fields) (hdoc : w.docs.get? ref = some doc) :
    (Sync.putMixin env ref mixin attributes).run w =
      (.ok (), { w with docs := w.docs.set ref (doc.withMixin mixin attributes) }) := by
  rw [Sync.putMixin, Effect.bind_of_ok (Sync.reach_run h _ w), Effect.modify_run, hdoc]
  rfl

theorem Sync.createDoc_cases (objectClass : String) (space : Ref) (attributes : Fields)
    (w : World) :
    (∃ e, (Sync.createDoc env objectClass space attributes).run w = (.error e, w)) ∨
      (Sync.createDoc env objectClass space attributes).run w =
        (.ok (env.generateId w.docs.keys), { w with
          docs := w.docs.set (env.generateId w.docs.keys) ⟨objectClass, space,
            Fields.assign [("modifiedOn", .num w.now)] attributes, .empty⟩ }) :=
  (Sync.reach_bind_cases env _ _ w).imp id fun hrun => hrun.trans rfl

theorem Sync.upsertIdMap_cases (row : IdMapDoc) (w : World) :
    (∃ e, (Sync.upsertIdMap env row).run w = (.error e, w)) ∨
      ∃ idmap, w.idmap.upsert row = .ok idmap ∧
        (Sync.upsertIdMap env row).run w = (.ok (), { w with idmap := idmap }) := by
  obtain hfail | hrun : (∃ e, (Sync.upsertIdMap env row).run w = (.error e, w)) ∨
      (Sync.upsertIdMap env row).run w = _ := Sync.reach_bind_cases env .idmap _ w
  · exact .inl hfail
  · cases hup : w.idmap.upsert row with
    | ok idmap => exact .inr ⟨idmap, rfl, hrun.trans (by rw [Effect.step_run, hup])⟩
    | error e => exact .inl ⟨e, hrun.trans (by rw [Effect.step_run, hup])⟩

theorem Sync.findByGitlab_cases (workspaceUuid : String) (kind : GitlabKind) (gitlabId : String)
    (w : World) :
    ∃ r lookups, (Sync.findByGitlab env workspaceUuid kind gitlabId).run w =
        (r, { w with lookups := lookups }) ∧
      ∀ found, r = .ok found → found = w.idmap.findByGitlab workspaceUuid kind gitlabId := by
  unfold Sync.findByGitlab
  rw [Effect.modify_bind_run]
  obtain ⟨e, hrun⟩ | hrun := Sync.reach_bind_cases env .idmap
    (fun _ => Effect.gets fun w => w.idmap.findByGitlab workspaceUuid kind gitlabId)
    { w with lookups := w.lookups ++ [(kind, gitlabId)] }
  · exact ⟨_, _, hrun, fun _ h => (by cases h)⟩
  · exact ⟨_, _, hrun, fun _ h => (Except.ok.inj h).symm⟩

theorem Sync.findByGitlab_ok {workspaceUuid : String} {kind : GitlabKind} {gitlabId : String}
    {found : Option IdMapDoc} {w w' : World}
    (h : (Sync.findByGitlab env workspaceUuid kind gitlabId).run w = (.ok found, w')) :
    found = w.idmap.findByGitlab workspaceUuid kind gitlabId ∧ ∃ lookups,
      w' = { w with lookups := lookups } := by
  obtain ⟨r, lookups, hrun, hfound⟩ := Sync.findByGitlab_cases env workspaceUuid kind gitlabId w
  rw [hrun] at h
  cases h
  exact ⟨hfound found rfl, lookups, rfl⟩

theorem Sync.findOne_ok {objectClass : String} {ref : Ref} {found : Option HulyDoc} {w w' : World}
    (h : (Sync.findOne env objectClass ref).run w = (.ok found, w')) :
    found = (w.docs.get? ref).filter (fun doc => doc.objectClass = objectClass) ∧ w' = w := by
  obtain ⟨e, hrun⟩ | hrun := Sync.findOne_cases env objectClass ref w
  · rw [hrun] at h
    cases h
  · rw [hrun] at h
    cases h
    exact ⟨rfl, rfl⟩

end Calls

section Drafted

variable (env : Env) {m : Mirror} {bctx : BindingContext} {o : MirrorObject}
  {mixins : List MixinKeys} {w w₁ : World} {ref : Ref}

theorem drafted_createDoc (space : Ref) (attrs : Fields) (w : World) :
    Drafted m bctx [] w (env.generateId w.docs.keys) { w with
      docs := w.docs.set (env.generateId w.docs.keys) ⟨m.objectClass, space, attrs, .empty⟩ } := by
  have hfresh := env.generateId_fresh w.docs.keys
  have habsent := (OrderedMap.get?_eq_none_iff _ _).mpr hfresh
  exact {
    rows := fun _ _ => Iff.rfl
    guests := fun _ h => .inl h
    docs := fun r d hd => ⟨d, NamedDocs.kept_set hfresh _ r d hd, Extends.refl d⟩
    inOrder := fun h => ⟨h.owned, h.typed.1.set fun hhas => absurd hhas.1 m.ordinary.1,
      h.typed.2.set fun hhas => absurd hhas.1 m.ordinary.2⟩
    absent := habsent
    doc := ⟨_, OrderedMap.get?_set_self _ _ _, rfl, fun _ h => absurd h List.not_mem_nil⟩
    added := fun r doc hdoc hnone => by
      by_cases hr : r = env.generateId w.docs.keys
      · exact .inl hr
      · dsimp only at hdoc
        rw [OrderedMap.get?_set_of_ne _ hr, hnone] at hdoc
        cases hdoc }

/-- A mixin of the new document. -/
theorem Drafted.withMixin (h : Drafted m bctx mixins w ref w₁) {doc : HulyDoc}
    (hdoc : w₁.docs.get? ref = some doc) (mixin : String) (attributes : Fields)
    (he : Edits bctx w₁ { w₁ with docs := w₁.docs.set ref (doc.withMixin mixin attributes) }) :
    Drafted m bctx ((mixin, attributes.map Prod.fst) :: mixins) w ref
      { w₁ with docs := w₁.docs.set ref (doc.withMixin mixin attributes) } :=
  { h.edits he with
    doc := by
      obtain ⟨doc', hdoc', hclass, hmixins⟩ := h.doc
      rw [hdoc] at hdoc'
      cases hdoc'
      refine ⟨_, OrderedMap.get?_set_self _ _ _, hclass, fun k hk => ?_⟩
      obtain rfl | hk := List.mem_cons.mp hk
      · exact carries_withMixin doc mixin attributes
      · exact (hmixins k hk).extends (extends_withMixin doc mixin attributes) }

end Drafted

/-- Every run makes the mirror grow, if the object has no row before. -/
def Creating (m : Mirror) (bctx : BindingContext) (o : MirrorObject) {A : Type} (c : Sync A) :
    Prop :=
  ∀ w, m.Lacks bctx o w → Grows m bctx w (c.run w).2

/-- Every run makes the mirror grow, and only edits if the object has a row before. -/
def Mirroring (m : Mirror) (bctx : BindingContext) (o : MirrorObject) {A : Type} (c : Sync A) :
    Prop :=
  ∀ w, Grows m bctx w (c.run w).2 ∧ (¬ m.Lacks bctx o w → Edits bctx w (c.run w).2)

/-- Every run makes the mirror grow, with a document drafted before it. -/
def Drafting (m : Mirror) (bctx : BindingContext) (mixins : List MixinKeys) (w : World) (ref : Ref)
    {A : Type} (c : Sync A) : Prop :=
  ∀ w₁, Drafted m bctx mixins w ref w₁ → Grows m bctx w (c.run w₁).2

section Growing

variable {env : Env} {m : Mirror} {bctx : BindingContext} {o : MirrorObject}
  {mixins : List MixinKeys} {w w₁ : World} {ref : Ref} {A B : Type}

/-- What is edited does not give an object a row, or take it away. -/
theorem Edits.lacks_iff (h : Edits bctx w w₁) : m.Lacks bctx o w₁ ↔ m.Lacks bctx o w := by
  rw [Mirror.Lacks, h.findByGitlab m.notUser]
  exact Iff.rfl

theorem Creating.of_editing {c : Sync A} (h : Editing bctx c) : Creating m bctx o c :=
  fun w _ => (h w).grows

theorem Creating.resolve_of {Q : A → Prop} {c : Sync A} {f : A → Sync B} (hc : Editing bctx c)
    (hq : Effect.Yields Q c) (hf : ∀ a, Q a → Creating m bctx o (f a)) :
    Creating m bctx o (c >>= f) := by
  intro w hw
  have hedits := hc w
  rw [Effect.bind_run]
  cases hrun : c.run w with
  | mk r w₁ =>
    rw [hrun] at hedits
    cases r with
    | error e => exact hedits.grows
    | ok a =>
      have hlacks : m.Lacks bctx o w₁ := hedits.lacks_iff.mpr hw
      exact Grows.trans _ _ _ hedits.grows (hf a (hq w a w₁ hrun) w₁ hlacks)

theorem Creating.resolve {c : Sync A} {f : A → Sync B} (hc : Editing bctx c)
    (hf : ∀ a, Creating m bctx o (f a)) : Creating m bctx o (c >>= f) :=
  Creating.resolve_of hc (Effect.Yields.any c) fun a _ => hf a

theorem Creating.bind {c : Sync A} {f : A → Sync B} (hc : Creating m bctx o c)
    (hf : ∀ a, Editing bctx (f a)) : Creating m bctx o (c >>= f) := by
  intro w hw
  have hgrows := hc w hw
  rw [Effect.bind_run]
  cases hrun : c.run w with
  | mk r w₁ =>
    rw [hrun] at hgrows
    cases r with
    | error e => exact hgrows
    | ok a => exact Grows.trans _ _ _ hgrows (hf a w₁).grows

theorem Mirroring.of_editing {c : Sync A} (h : Editing bctx c) : Mirroring m bctx o c :=
  fun w => ⟨(h w).grows, fun _ => h w⟩

theorem Mirroring.bind {c : Sync A} {f : A → Sync B} (hc : Editing bctx c)
    (hf : ∀ a, Mirroring m bctx o (f a)) : Mirroring m bctx o (c >>= f) := by
  intro w
  have hedits := hc w
  rw [Effect.bind_run]
  cases hrun : c.run w with
  | mk r w₁ =>
    rw [hrun] at hedits
    cases r with
    | error e => exact ⟨hedits.grows, fun _ => hedits⟩
    | ok a =>
      refine ⟨Grows.trans _ _ _ hedits.grows (hf a w₁).1, fun hmapped => ?_⟩
      exact Edits.trans _ _ _ hedits ((hf a w₁).2 (mt hedits.lacks_iff.mp hmapped))

/-- The lookup of an object decides between its branches. -/
theorem Mirroring.find {f : Option IdMapDoc → Sync A}
    (hsome : ∀ row, Editing bctx (f (some row))) (hnone : Creating m bctx o (f none)) :
    Mirroring m bctx o
      (Sync.findByGitlab env bctx.workspaceUuid m.gitlabKind o.gitlabId >>= f) := by
  intro w
  obtain ⟨r, lookups, hrun, hr⟩ :=
    Sync.findByGitlab_cases env bctx.workspaceUuid m.gitlabKind o.gitlabId w
  have hedits : Edits bctx w { w with lookups := lookups } := Edits.of_same rfl rfl
  cases r with
  | error e =>
    rw [Effect.bind_of_error hrun]
    exact ⟨hedits.grows, fun _ => hedits⟩
  | ok found =>
    rw [Effect.bind_of_ok hrun]
    cases found with
    | some row =>
      have hall := Edits.trans _ _ _ hedits (hsome row _)
      exact ⟨hall.grows, fun _ => hall⟩
    | none =>
      have hlacks : m.Lacks bctx o w := (hr none rfl).symm
      exact ⟨Grows.trans _ _ _ hedits.grows (hnone _ hlacks), fun hmapped => absurd hlacks hmapped⟩

theorem Drafting.of_editing {c : Sync A} (h : Editing bctx c) : Drafting m bctx mixins w ref c :=
  fun w₁ hw₁ => (hw₁.edits (h w₁)).grows

theorem Drafting.bind {c : Sync A} {f : A → Sync B} (hc : Editing bctx c)
    (hf : ∀ a, Drafting m bctx mixins w ref (f a)) : Drafting m bctx mixins w ref (c >>= f) := by
  intro w₁ hw₁
  have hdrafted := hw₁.edits (hc w₁)
  rw [Effect.bind_run]
  cases hrun : c.run w₁ with
  | mk r w₂ =>
    rw [hrun] at hdrafted
    cases r with
    | error e => exact hdrafted.grows
    | ok a => exact hf a w₂ hdrafted

theorem Creating.createDoc (space : Ref) (attributes : Fields) {f : Ref → Sync A}
    (hf : ∀ w ref, m.Lacks bctx o w → Drafting m bctx [] w ref (f ref)) :
    Creating m bctx o (Sync.createDoc env m.objectClass space attributes >>= f) := by
  intro w hw
  obtain ⟨e, hrun⟩ | hrun := Sync.createDoc_cases env m.objectClass space attributes w
  · rw [Effect.bind_of_error hrun]
    exact Grows.refl w
  · rw [Effect.bind_of_ok hrun]
    exact hf w _ hw _ (drafted_createDoc env space _ w)

theorem Drafting.putMixin {mixin : String} {attributes : Fields} {f : Unit → Sync A}
    (hf : Drafting m bctx ((mixin, attributes.map Prod.fst) :: mixins) w ref (f ())) :
    Drafting m bctx mixins w ref (Sync.putMixin env ref mixin attributes >>= f) := by
  intro w₁ hw₁
  obtain ⟨doc, hdoc, -⟩ := hw₁.doc
  have hedits : Edits bctx w₁ _ := Editing.putMixin env ref mixin attributes w₁
  obtain ⟨e, hrun⟩ | hrun := Sync.putMixin_cases env mixin attributes hdoc
  · rw [Effect.bind_of_error hrun]
    exact hw₁.grows
  · rw [hrun] at hedits
    rw [Effect.bind_of_ok hrun]
    exact hf _ (hw₁.withMixin hdoc mixin attributes hedits)

theorem Drafting.upsert (ho : o ∈ m.objects) (hbefore : Covers mixins o.before)
    (hlacks : m.Lacks bctx o w) {f : Unit → Sync A} (hf : Editing bctx (f ())) :
    Drafting m bctx mixins w ref (Sync.upsertIdMap env (m.row bctx o ref) >>= f) := by
  intro w₁ hw₁
  obtain ⟨e, hrun⟩ | ⟨idmap, hup, hrun⟩ := Sync.upsertIdMap_cases env (m.row bctx o ref) w₁
  · rw [Effect.bind_of_error hrun]
    exact hw₁.grows
  · rw [Effect.bind_of_ok hrun]
    exact Grows.trans _ _ _ (hw₁.claim ho hbefore hlacks hup).grows (hf _).grows

end Growing

section Healthy

variable {env : Env} {m : Mirror} {bctx : BindingContext} {o : MirrorObject}
  {mixins : List MixinKeys} {w w₁ : World} {ref : Ref}

/-- A mixin of a document with its row. -/
theorem Claimed.withMixin (h : Claimed m bctx o mixins w ref w₁) {doc : HulyDoc}
    (hdoc : w₁.docs.get? ref = some doc) (mixin : String) (attributes : Fields)
    (he : Edits bctx w₁ { w₁ with docs := w₁.docs.set ref (doc.withMixin mixin attributes) }) :
    Claimed m bctx o ((mixin, attributes.map Prod.fst) :: mixins) w ref
      { w₁ with docs := w₁.docs.set ref (doc.withMixin mixin attributes) } :=
  { h.edits he with
    doc := by
      obtain ⟨doc', hdoc', hclass, hmixins⟩ := h.doc
      rw [hdoc] at hdoc'
      cases hdoc'
      refine ⟨_, OrderedMap.get?_set_self _ _ _, hclass, fun k hk => ?_⟩
      obtain rfl | hk := List.mem_cons.mp hk
      · exact carries_withMixin doc mixin attributes
      · exact (hmixins k hk).extends (extends_withMixin doc mixin attributes) }

/-- The write of a mixin is an edit. -/
theorem edits_withMixin (h : env.Healthy) {doc : HulyDoc} (hdoc : w₁.docs.get? ref = some doc)
    (mixin : String) (attributes : Fields) :
    Edits bctx w₁ { w₁ with docs := w₁.docs.set ref (doc.withMixin mixin attributes) } := by
  have hedits : Edits bctx w₁ _ := Editing.putMixin env ref mixin attributes w₁
  rwa [Sync.putMixin_run h mixin attributes hdoc] at hedits

theorem Drafted.putMixin_run (h : env.Healthy) (hd : Drafted m bctx mixins w ref w₁)
    (mixin : String) (attributes : Fields) :
    ∃ w₂, (Sync.putMixin env ref mixin attributes).run w₁ = (.ok (), w₂) ∧
      Drafted m bctx ((mixin, attributes.map Prod.fst) :: mixins) w ref w₂ := by
  obtain ⟨doc, hdoc, -⟩ := hd.doc
  exact ⟨_, Sync.putMixin_run h mixin attributes hdoc,
    hd.withMixin hdoc mixin attributes (edits_withMixin h hdoc mixin attributes)⟩

theorem Claimed.putMixin_run (h : env.Healthy) (hc : Claimed m bctx o mixins w ref w₁)
    (mixin : String) (attributes : Fields) :
    ∃ w₂, (Sync.putMixin env ref mixin attributes).run w₁ = (.ok (), w₂) ∧
      Claimed m bctx o ((mixin, attributes.map Prod.fst) :: mixins) w ref w₂ := by
  obtain ⟨doc, hdoc, -⟩ := hc.doc
  exact ⟨_, Sync.putMixin_run h mixin attributes hdoc,
    hc.withMixin hdoc mixin attributes (edits_withMixin h hdoc mixin attributes)⟩

/-- The row of the new document is written. -/
theorem Drafted.upsert_run (h : env.Healthy)
    (hd : Drafted m bctx mixins w (env.generateId w.docs.keys) w₁) (hw : Unclaimed env w)
    (ho : o ∈ m.objects) (hbefore : Covers mixins o.before) (hlacks : m.Lacks bctx o w) :
    ∃ w₂, (Sync.upsertIdMap env (m.row bctx o (env.generateId w.docs.keys))).run w₁ = (.ok (), w₂) ∧
      Claimed m bctx o mixins w (env.generateId w.docs.keys) w₂ := by
  obtain ⟨idmap, hup, -⟩ := IdMap.upsert_of_not_conflicts (hd.not_conflicts hw o)
  exact ⟨_, Sync.upsertIdMap_run h w₁ hup, hd.claim ho hbefore hlacks hup⟩

end Healthy

/-- What a complete run leaves of the objects: each has a row and a document with the mixins that
are written every time; the mixins written once came with the document. -/
structure Completes (m : Mirror) (objects : List MirrorObject) (bctx : BindingContext)
    (w w' : World) : Prop where
  mirrored : ∀ o ∈ objects, ∃ ref doc, m.row bctx o ref ∈ w'.idmap.rows ∧
    w'.docs.get? ref = some doc ∧ (∀ mixin ∈ o.again, Carries doc mixin) ∧
    (w.docs.get? ref = none → ∀ mixin ∈ o.once, Carries doc mixin) ∧
    ∀ old, w.docs.get? ref = some old → ∀ mixin ∈ o.once, Carries doc mixin → Carries old mixin
  sourced : ∀ ref doc, w'.docs.get? ref = some doc → doc.objectClass = m.objectClass →
    w.docs.get? ref = none → ∃ o ∈ objects, m.row bctx o ref ∈ w'.idmap.rows

/-- Each object of the record has one new document, with every mixin of the create branch and a
row, and there is no other new document of the class. -/
structure ExactlyOnce (m : Mirror) (bctx : BindingContext) (w₀ w : World) : Prop where
  mirrored : ∀ o ∈ m.objects, ∃ ref doc, m.row bctx o ref ∈ w.idmap.rows ∧
    w.docs.get? ref = some doc ∧ doc.objectClass = m.objectClass ∧ w₀.docs.get? ref = none ∧
    ∀ mixin ∈ o.before ++ o.again ++ o.once, Carries doc mixin
  sourced : ∀ ref doc, w.docs.get? ref = some doc → doc.objectClass = m.objectClass →
    w₀.docs.get? ref = none → ∃ o ∈ m.objects, m.row bctx o ref ∈ w.idmap.rows

/-- No document is left without its row, and none with its row but without a mixin that is
written once. -/
structure Whole (m : Mirror) (bctx : BindingContext) (w₀ w : World) : Prop where
  rows : ∀ ref doc, w.docs.get? ref = some doc → doc.objectClass = m.objectClass →
    w₀.docs.get? ref = none → ∃ o ∈ m.objects, m.row bctx o ref ∈ w.idmap.rows
  once : ∀ o ∈ m.objects, ∀ ref doc, m.row bctx o ref ∈ w.idmap.rows →
    w.docs.get? ref = some doc → ∀ mixin ∈ o.once, Carries doc mixin

section Completes

variable {env : Env} {m : Mirror} {bctx : BindingContext} {o : MirrorObject}
  {mixins : List MixinKeys} {w₀ w w' : World} {ref : Ref}

/-- The create branch completes the object. -/
theorem Claimed.completes (h : Claimed m bctx o mixins w ref w') (hagain : Covers mixins o.again)
    (honce : Covers mixins o.once) : Completes m [o] bctx w w' := by
  obtain ⟨doc, hdoc, -, hmixins⟩ := h.doc
  refine ⟨fun o' ho' => ?_, fun r doc' hdoc' hclass hnone => ?_⟩
  · obtain rfl := List.mem_singleton.mp ho'
    refine ⟨ref, doc, h.row, hdoc, hagain doc hmixins, fun _ => honce doc hmixins, ?_⟩
    intro old hold
    rw [h.absent] at hold
    cases hold
  · obtain rfl | hnamed := h.added r doc' hdoc' hnone
    · exact ⟨o, List.mem_singleton_self o, h.row⟩
    · refine absurd ?_ hnamed
      rw [Ordinary, hclass]
      exact m.ordinary

/-- The update branch completes the object if it writes what it has to. -/
theorem Edits.completes (h : Edits bctx w w') (hrow : m.row bctx o ref ∈ w.idmap.rows)
    {old doc : HulyDoc} (hold : w.docs.get? ref = some old) (hdoc : w'.docs.get? ref = some doc)
    (hagain : ∀ mixin ∈ o.again, Carries doc mixin)
    (honce : ∀ mixin ∈ o.once, Carries doc mixin → Carries old mixin) :
    Completes m [o] bctx w w' := by
  refine ⟨fun o' ho' => ?_, fun r doc' hdoc' hclass hnone => ?_⟩
  · obtain rfl := List.mem_singleton.mp ho'
    refine ⟨ref, doc, (h.rows _ m.notUser).mpr hrow, hdoc, hagain, fun hnone => ?_,
      fun old' hold' => ?_⟩
    · rw [hold] at hnone
      cases hnone
    · rw [hold] at hold'
      cases hold'
      exact honce
  · refine absurd ?_ (h.added r doc' hdoc' hnone)
    rw [Ordinary, hclass]
    exact m.ordinary

/-- Objects without mixins after the row are complete as soon as they have a row. -/
theorem Edits.completes_of_row (h : Edits bctx w w') (hrow : m.row bctx o ref ∈ w.idmap.rows)
    (hdoc : ∃ doc, w.docs.get? ref = some doc) (hagain : o.again = []) (honce : o.once = []) :
    Completes m [o] bctx w w' := by
  obtain ⟨doc, hdoc⟩ := hdoc
  obtain ⟨doc', hdoc', -⟩ := h.docs ref doc hdoc
  refine h.completes hrow hdoc hdoc' ?_ ?_
  · rw [hagain]
    exact fun _ hmixin => absurd hmixin List.not_mem_nil
  · rw [honce]
    exact fun _ hmixin => absurd hmixin List.not_mem_nil

/-- Objects are completed one after the other. -/
theorem Completes.append {xs ys : List MirrorObject} {w₁ w₂ : World}
    (h : Completes m xs bctx w w₁) (hgrows : Grows m bctx w₁ w₂)
    (h' : Completes m ys bctx w₁ w₂) (honce : ∀ o ∈ xs ++ ys, o.once = []) :
    Completes m (xs ++ ys) bctx w w₂ where
  mirrored o ho := by
    have hfound : ∃ ref doc, m.row bctx o ref ∈ w₂.idmap.rows ∧ w₂.docs.get? ref = some doc ∧
        ∀ mixin ∈ o.again, Carries doc mixin := by
      obtain ho | ho := List.mem_append.mp ho
      · obtain ⟨ref, doc, hrow, hdoc, hagain, -⟩ := h.mirrored o ho
        obtain ⟨doc', hdoc', hext⟩ := hgrows.docs ref doc hdoc
        exact ⟨ref, doc', hgrows.rows _ hrow m.notUser, hdoc',
          fun mixin hmixin => (hagain mixin hmixin).extends hext⟩
      · obtain ⟨ref, doc, hrow, hdoc, hagain, -⟩ := h'.mirrored o ho
        exact ⟨ref, doc, hrow, hdoc, hagain⟩
    obtain ⟨ref, doc, hrow, hdoc, hagain⟩ := hfound
    refine ⟨ref, doc, hrow, hdoc, hagain, ?_, ?_⟩ <;> rw [honce o ho] <;> simp
  sourced r doc hdoc hclass hnone := by
    cases hmid : w₁.docs.get? r with
    | none =>
      obtain ⟨o, ho, hrow⟩ := h'.sourced r doc hdoc hclass hmid
      exact ⟨o, List.mem_append_right xs ho, hrow⟩
    | some mid =>
      obtain ⟨doc', hdoc', hext⟩ := hgrows.docs r mid hmid
      rw [hdoc] at hdoc'
      cases hdoc'
      obtain ⟨o, ho, hrow⟩ := h.sourced r mid hmid (hext.objectClass.symm.trans hclass) hnone
      exact ⟨o, List.mem_append_left ys ho, hgrows.rows _ hrow m.notUser⟩

/-- A row of the mirror that came with a run points at a document that came with it. -/
theorem Grows.placed (h : Grows m bctx w₀ w) (hlacks : m.Lacks bctx o w₀) {row : IdMapDoc}
    (hrow : row ∈ w.idmap.rows)
    (hkey : row.gitlabKey = (bctx.workspaceUuid, m.gitlabKind, o.gitlabId)) :
    row = m.row bctx o row.hulyRef ∧ w₀.docs.get? row.hulyRef = none ∧
      ∃ doc, w.docs.get? row.hulyRef = some doc ∧ doc.objectClass = m.objectClass := by
  obtain hold | hguest | ⟨o', -, ref, doc, rfl, hnone, hdoc, hclass, -⟩ := h.fresh row hrow
  · exact absurd hkey (hlacks.gitlabKey_ne hold)
  · exact absurd ((congrArg (fun key => key.2.1) hkey).symm.trans hguest.1) m.notUser
  · have hid : o'.gitlabId = o.gitlabId := congrArg (fun key => key.2.2) hkey
    exact ⟨by simp [Mirror.row, hid], hnone, doc, hdoc, hclass⟩

/-- The document of a row that came with a run has the mixins that come before the row. -/
theorem Grows.before (h : Grows m bctx w₀ w) (hlacks : m.Lacks bctx o w₀)
    (hunique : ∀ o' ∈ m.objects, o'.gitlabId = o.gitlabId → o'.before = o.before)
    (hrow : m.row bctx o ref ∈ w.idmap.rows) :
    ∃ doc, w.docs.get? ref = some doc ∧ doc.objectClass = m.objectClass ∧
      ∀ mixin ∈ o.before, Carries doc mixin := by
  obtain hold | hguest | ⟨o', ho', ref', doc, heq, -, hdoc, hclass, hbefore⟩ := h.fresh _ hrow
  · exact absurd rfl (hlacks.gitlabKey_ne hold)
  · exact absurd hguest.1 m.notUser
  · simp only [Mirror.row, IdMapDoc.mk.injEq] at heq
    obtain ⟨-, -, hid, -, rfl⟩ := heq
    exact ⟨doc, hdoc, hclass, hunique o' ho' hid.symm ▸ hbefore⟩

/-- The redispatch of a record makes up for everything but a document without a row, or a row
whose document lacks a mixin that is written once. -/
theorem exactlyOnce_iff_whole (hlacks : ∀ o ∈ m.objects, m.Lacks bctx o w₀)
    (hunique : ∀ o ∈ m.objects, ∀ o' ∈ m.objects, o'.gitlabId = o.gitlabId →
      o'.before = o.before)
    (hstart : Grows m bctx w₀ w) (hgrows : Grows m bctx w w')
    (hdone : Completes m m.objects bctx w w') :
    ExactlyOnce m bctx w₀ w' ↔ Whole m bctx w₀ w := by
  have hall : Grows m bctx w₀ w' := Grows.trans _ _ _ hstart hgrows
  constructor
  · intro honce
    refine ⟨fun ref doc hdoc hclass hnone => ?_, fun o ho ref doc hrow hdoc mixin hmixin => ?_⟩
    · obtain ⟨doc', hdoc', hext⟩ := hgrows.docs ref doc hdoc
      obtain ⟨o, ho, hrow⟩ := honce.sourced ref doc' hdoc' (hext.objectClass.trans hclass) hnone
      obtain hold | hguest | ⟨o', -, ref', -, heq, hnew, -⟩ := hgrows.fresh _ hrow
      · exact ⟨o, ho, hold⟩
      · exact absurd hguest.1 m.notUser
      · simp only [Mirror.row, IdMapDoc.mk.injEq] at heq
        rw [← heq.2.2.2.2, hdoc] at hnew
        cases hnew
    · have hrow' := hgrows.rows _ hrow m.notUser
      obtain ⟨ref', doc', hrowDone, hdoc', -, -, hback⟩ := hdone.mirrored o ho
      obtain rfl : ref' = ref :=
        congrArg IdMapDoc.hulyRef (IdMap.eq_of_gitlabKey hrowDone hrow' rfl)
      obtain ⟨ref'', doc'', hrowOnce, hdoc'', -, -, hmixins⟩ := honce.mirrored o ho
      obtain rfl : ref'' = ref' :=
        congrArg IdMapDoc.hulyRef (IdMap.eq_of_gitlabKey hrowOnce hrow' rfl)
      rw [hdoc'] at hdoc''
      cases hdoc''
      exact hback doc hdoc mixin hmixin (hmixins mixin (List.mem_append_right _ hmixin))
  · intro hwhole
    refine ⟨fun o ho => ?_, fun ref doc hdoc hclass hnone => ?_⟩
    · obtain ⟨ref, doc, hrow, hdoc, hagain, hcreated, -⟩ := hdone.mirrored o ho
      obtain ⟨-, habsent, -⟩ := hall.placed (hlacks o ho) hrow rfl
      obtain ⟨doc', hdoc', hclass, hbefore⟩ := hall.before (hlacks o ho) (hunique o ho) hrow
      rw [hdoc] at hdoc'
      cases hdoc'
      refine ⟨ref, doc, hrow, hdoc, hclass, habsent, fun mixin hmixin => ?_⟩
      obtain hmixin | hmixin := List.mem_append.mp hmixin
      · obtain hmixin | hmixin := List.mem_append.mp hmixin
        · exact hbefore mixin hmixin
        · exact hagain mixin hmixin
      · cases hold : w.docs.get? ref with
        | none => exact hcreated hold mixin hmixin
        | some old =>
          -- the row was there as well, since new rows point at new documents
          have hrowOld : m.row bctx o ref ∈ w.idmap.rows := by
            obtain hrowOld | hguest | ⟨o', -, ref', -, heq, hnew, -⟩ := hgrows.fresh _ hrow
            · exact hrowOld
            · exact absurd hguest.1 m.notUser
            · simp only [Mirror.row, IdMapDoc.mk.injEq] at heq
              rw [← heq.2.2.2.2, hold] at hnew
              cases hnew
          obtain ⟨doc', hdoc', hext⟩ := hgrows.docs ref old hold
          rw [hdoc] at hdoc'
          cases hdoc'
          exact (hwhole.once o ho ref old hrowOld hold mixin hmixin).extends hext
    · cases hold : w.docs.get? ref with
      | none => exact hdone.sourced ref doc hdoc hclass hold
      | some old =>
        obtain ⟨doc', hdoc', hext⟩ := hgrows.docs ref old hold
        rw [hdoc] at hdoc'
        cases hdoc'
        obtain ⟨o, ho, hrow⟩ :=
          hwhole.rows ref old hold (hext.objectClass.symm.trans hclass) hnone
        exact ⟨o, ho, hgrows.rows _ hrow m.notUser⟩

end Completes

end HulyGitlab
