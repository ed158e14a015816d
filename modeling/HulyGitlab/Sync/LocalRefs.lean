import HulyGitlab.Sync.Caches

/-!
# What the local caches answer

`ensureLocalTag` and `ensureLocalMilestone` answer a document whose name is
the one asked for, up to case, and change nothing but to add that document.
-/

namespace HulyGitlab

/-- A kind of named documents: the class, the ones a cache keeps, and the name attribute. -/
structure NamedDocs where
  objectClass : String
  keep : HulyDoc → Bool
  name : String

/-- The tags of issues. -/
def issueTags : NamedDocs := ⟨tagElementClass, LabelCache.ofIssues, "title"⟩

/-- The milestones of a project. -/
def projectMilestones (space : Ref) : NamedDocs :=
  ⟨milestoneClass, MilestoneCache.ofProject space, "label"⟩

namespace NamedDocs

/-- The document is one of the kind. -/
def Has (n : NamedDocs) (doc : HulyDoc) : Prop :=
  doc.objectClass = n.objectClass ∧ n.keep doc = true

/-- The document is one of the kind, and `key` is its lower-cased name. -/
def Names (n : NamedDocs) (env : Env) (docs : OrderedMap Ref HulyDoc) (ref : Ref)
    (key : String) : Prop :=
  ∃ doc name, docs.get? ref = some doc ∧ n.Has doc ∧ doc.attrs.field n.name = .str name ∧
    env.toLowerCase name = key

/-- Every document of the kind has a name. -/
def Typed (n : NamedDocs) (docs : OrderedMap Ref HulyDoc) : Prop :=
  ∀ ref doc, docs.get? ref = some doc → n.Has doc → ∃ name, doc.attrs.field n.name = .str name

theorem tagElementClass_ne_milestoneClass : tagElementClass ≠ milestoneClass := by decide

theorem Names.unique {n : NamedDocs} {env : Env} {docs : OrderedMap Ref HulyDoc} {ref : Ref}
    {k j : String} (hk : n.Names env docs ref k) (hj : n.Names env docs ref j) : k = j := by
  obtain ⟨doc, name, hdoc, -, hname, rfl⟩ := hk
  obtain ⟨doc', name', hdoc', -, hname', rfl⟩ := hj
  rw [hdoc] at hdoc'
  cases hdoc'
  rw [hname] at hname'
  cases hname'
  rfl

/-- The documents of `docs` are still there, as they were. -/
def Kept (docs docs' : OrderedMap Ref HulyDoc) : Prop :=
  ∀ ref doc, docs.get? ref = some doc → docs'.get? ref = some doc

theorem Kept.refl (docs : OrderedMap Ref HulyDoc) : Kept docs docs := fun _ _ h => h

theorem Kept.trans {a b c : OrderedMap Ref HulyDoc} (h : Kept a b) (h' : Kept b c) : Kept a c :=
  fun ref doc hdoc => h' ref doc (h ref doc hdoc)

theorem Names.kept {n : NamedDocs} {env : Env} {docs docs' : OrderedMap Ref HulyDoc} {ref : Ref}
    {key : String} (h : n.Names env docs ref key) (hk : Kept docs docs') :
    n.Names env docs' ref key := by
  obtain ⟨doc, name, hdoc, hrest⟩ := h
  exact ⟨doc, name, hk ref doc hdoc, hrest⟩

/-- Every entry of the cache leads to a document of that name. -/
def Sound (n : NamedDocs) (env : Env) (docs : OrderedMap Ref HulyDoc)
    (c : BiDirectionalCache Ref) : Prop :=
  ∀ key ref, c.get key = some ref → n.Names env docs ref key

theorem Sound.kept {n : NamedDocs} {env : Env} {docs docs' : OrderedMap Ref HulyDoc}
    {c : BiDirectionalCache Ref} (h : n.Sound env docs c) (hk : Kept docs docs') :
    n.Sound env docs' c := fun key ref hget => (h key ref hget).kept hk

theorem sound_new (n : NamedDocs) (env : Env) (docs : OrderedMap Ref HulyDoc) :
    n.Sound env docs .new := fun key ref hget => by simp at hget

theorem kept_set {docs : OrderedMap Ref HulyDoc} {ref : Ref} (hfresh : ref ∉ docs.keys)
    (doc : HulyDoc) : Kept docs (docs.set ref doc) := by
  intro r d hd
  have hne : r ≠ ref := fun e => hfresh (e ▸ OrderedMap.mem_keys_of_get? hd)
  rw [OrderedMap.get?_set_of_ne docs hne]
  exact hd

/-- A new document keeps a kind typed if it has a name itself. -/
theorem Typed.set {n : NamedDocs} {docs : OrderedMap Ref HulyDoc} (h : n.Typed docs) {ref : Ref}
    {doc : HulyDoc} (hdoc : n.Has doc → ∃ name, doc.attrs.field n.name = .str name) :
    n.Typed (docs.set ref doc) := by
  intro r d hd hhas
  rw [OrderedMap.get?_set] at hd
  by_cases hr : r = ref
  · rw [if_pos hr] at hd
    cases hd
    exact hdoc hhas
  · rw [if_neg hr] at hd
    exact h r d hd hhas

/-- `primeLocal` reads every document of the kind. -/
theorem localEntries_of_typed {n : NamedDocs} (env : Env) {docs : OrderedMap Ref HulyDoc}
    (h : n.Typed docs) :
    ∃ entries, localEntries env n.keep n.name
        (docs.entries.filter fun entry => entry.2.objectClass = n.objectClass) = .ok entries ∧
      ∀ key ref, (key, ref) ∈ entries → n.Names env docs ref key := by
  unfold localEntries
  have hall : ∀ entry ∈ (docs.entries.filter fun entry => entry.2.objectClass = n.objectClass).filter
      fun entry => n.keep entry.2, docs.get? entry.1 = some entry.2 ∧ n.Has entry.2 := by
    intro entry hmem
    simp only [List.mem_filter, decide_eq_true_eq] at hmem
    exact ⟨OrderedMap.get?_of_mem_entries hmem.1.1, hmem.1.2, hmem.2⟩
  generalize (docs.entries.filter fun entry => entry.2.objectClass = n.objectClass).filter
    (fun entry => n.keep entry.2) = found at hall
  induction found with
  | nil => exact ⟨[], rfl, by simp⟩
  | cons entry found ih =>
    obtain ⟨hget, hhas⟩ := hall entry List.mem_cons_self
    obtain ⟨name, hname⟩ := h entry.1 entry.2 hget hhas
    obtain ⟨entries, hentries, hnames⟩ :=
      ih fun e he => hall e (List.mem_cons_of_mem entry he)
    refine ⟨(env.toLowerCase name, entry.1) :: entries, ?_, ?_⟩
    · rw [List.mapM_cons, hentries, hname]
      rfl
    · intro key ref hmem
      obtain heq | hmem := List.mem_cons.mp hmem
      · cases heq
        exact ⟨entry.2, name, hget, hhas, hname, rfl⟩
      · exact hnames key ref hmem

theorem sound_primeSync {n : NamedDocs} {env : Env} {docs : OrderedMap Ref HulyDoc}
    {c : BiDirectionalCache Ref} (h : n.Sound env docs c) {entries : List (String × Ref)}
    (hentries : ∀ key ref, (key, ref) ∈ entries → n.Names env docs ref key) :
    n.Sound env docs (c.primeSync entries) := by
  intro key ref hget
  obtain hmem | hget := BiDirectionalCache.get_primeSync hget
  · exact hentries key ref hmem
  · exact h key ref hget

theorem sound_put {n : NamedDocs} {env : Env} {docs : OrderedMap Ref HulyDoc}
    {c : BiDirectionalCache Ref} (h : n.Sound env docs c) {key : String} {ref : Ref}
    (hnames : n.Names env docs ref key) : n.Sound env docs (c.put key ref) := by
  intro j r hget
  obtain ⟨rfl, rfl⟩ | hget := BiDirectionalCache.get_put hget
  · exact hnames
  · exact h j r hget

end NamedDocs

/-- Both kinds the caches look up have names. -/
def WellTyped (space : Ref) (docs : OrderedMap Ref HulyDoc) : Prop :=
  issueTags.Typed docs ∧ (projectMilestones space).Typed docs

open NamedDocs

section Healthy

variable {env : Env} (h : env.Healthy)
include h

theorem LabelCache.primeLocal_run {c : LabelCache} {w : World}
    (ht : issueTags.Typed w.docs) (hc : issueTags.Sound env w.docs c.localByName) :
    ∃ c', (LabelCache.primeLocal env c).run w = (.ok c', w) ∧
      issueTags.Sound env w.docs c'.localByName := by
  unfold LabelCache.primeLocal
  by_cases hl : c.localLoaded = true
  · exact ⟨c, by simp [hl], hc⟩
  · obtain ⟨entries, hentries, hnames⟩ := localEntries_of_typed env ht
    refine ⟨{ c with localByName := c.localByName.primeSync entries, localLoaded := true }, ?_,
      sound_primeSync hc hnames⟩
    rw [if_neg hl, Effect.bind_of_ok (Sync.findAll_run h tagElementClass w)]
    change localEntries env LabelCache.ofIssues "title" (w.docs.entries.filter
      fun entry => entry.2.objectClass = tagElementClass) = .ok entries at hentries
    rw [hentries]
    rfl

theorem MilestoneCache.primeLocal_run {space : Ref} {c : MilestoneCache} {w : World}
    (ht : (projectMilestones space).Typed w.docs)
    (hc : (projectMilestones space).Sound env w.docs c.localByLabel) :
    ∃ c', (MilestoneCache.primeLocal env space c).run w = (.ok c', w) ∧
      (projectMilestones space).Sound env w.docs c'.localByLabel := by
  unfold MilestoneCache.primeLocal
  by_cases hl : c.localLoaded = true
  · exact ⟨c, by simp [hl], hc⟩
  · obtain ⟨entries, hentries, hnames⟩ := localEntries_of_typed env ht
    refine ⟨{ c with localByLabel := c.localByLabel.primeSync entries, localLoaded := true }, ?_,
      sound_primeSync hc hnames⟩
    rw [if_neg hl, Effect.bind_of_ok (Sync.findAll_run h milestoneClass w)]
    change localEntries env (MilestoneCache.ofProject space) "label" (w.docs.entries.filter
      fun entry => entry.2.objectClass = milestoneClass) = .ok entries at hentries
    rw [hentries]
    rfl

/-- `ensureLocalTag` answers a tag of the given title. -/
theorem LabelCache.ensureLocalTag_run {space : Ref} {c : LabelCache} {w : World} (name : String)
    (ht : WellTyped space w.docs) (hc : issueTags.Sound env w.docs c.localByName) :
    ∃ ref c' docs, (LabelCache.ensureLocalTag env space c (.str name)).run w =
        (.ok (ref, c'), { w with docs := docs }) ∧
      Kept w.docs docs ∧ WellTyped space docs ∧ issueTags.Sound env docs c'.localByName ∧
      issueTags.Names env docs ref (env.toLowerCase name) := by
  obtain ⟨c₁, hprime, hc₁⟩ := LabelCache.primeLocal_run h ht.1 hc
  unfold LabelCache.ensureLocalTag
  rw [Effect.bind_of_ok hprime]
  simp only [JsValue.asStr_str, Effect.ofExcept_ok_bind_run]
  cases hget : c₁.localByName.get (env.toLowerCase name) with
  | some existing =>
    exact ⟨existing, c₁, w.docs, rfl, Kept.refl _, ht, hc₁, hc₁ _ _ hget⟩
  | none =>
    let ref := env.generateId w.docs.keys
    let doc : HulyDoc := ⟨tagElementClass, space,
      Fields.assign [("modifiedOn", .num w.now)] (LabelCache.tagAttributes name), .empty⟩
    have hkept : Kept w.docs (w.docs.set ref doc) := kept_set (env.generateId_fresh _) doc
    have hname : doc.attrs.field "title" = .str name := by
      simp [doc, LabelCache.tagAttributes, Fields.assign_cons]
    have hhas : issueTags.Has doc := by
      refine ⟨rfl, ?_⟩
      simp [issueTags, LabelCache.ofIssues, doc, LabelCache.tagAttributes, Fields.assign_cons,
        JsValue.text]
    have hnames : issueTags.Names env (w.docs.set ref doc) ref (env.toLowerCase name) :=
      ⟨doc, name, OrderedMap.get?_set_self _ _ _, hhas, hname, rfl⟩
    refine ⟨ref, { c₁ with localByName := c₁.localByName.put (env.toLowerCase name) ref },
      w.docs.set ref doc, ?_, hkept, ⟨ht.1.set fun _ => ⟨name, hname⟩, ht.2.set fun hm => ?_⟩,
      sound_put (hc₁.kept hkept) hnames, hnames⟩
    · rw [Effect.bind_of_ok (Sync.createDoc_run h _ _ _ w)]
      rfl
    · exact absurd hm.1 tagElementClass_ne_milestoneClass

/-- `ensureLocalMilestone` answers a milestone of the given label. -/
theorem MilestoneCache.ensureLocalMilestone_run {space : Ref} {c : MilestoneCache} {w : World}
    (label : String) (description : JsValue) (ht : WellTyped space w.docs)
    (hc : (projectMilestones space).Sound env w.docs c.localByLabel) :
    ∃ ref c' docs, (MilestoneCache.ensureLocalMilestone env space c (.str label) description).run w =
        (.ok (ref, c'), { w with docs := docs }) ∧
      Kept w.docs docs ∧ WellTyped space docs ∧
      (projectMilestones space).Names env docs ref (env.toLowerCase label) := by
  obtain ⟨c₁, hprime, hc₁⟩ := MilestoneCache.primeLocal_run h ht.2 hc
  unfold MilestoneCache.ensureLocalMilestone
  rw [Effect.bind_of_ok hprime]
  simp only [JsValue.asStr_str, Effect.ofExcept_ok_bind_run]
  cases hget : c₁.localByLabel.get (env.toLowerCase label) with
  | some existing =>
    exact ⟨existing, c₁, w.docs, rfl, Kept.refl w.docs, ht, hc₁ _ _ hget⟩
  | none =>
    let ref := env.generateId w.docs.keys
    let doc : HulyDoc := ⟨milestoneClass, space, Fields.assign [("modifiedOn", .num w.now)]
      (MilestoneCache.milestoneAttributes label description), .empty⟩
    have hkept : Kept w.docs (w.docs.set ref doc) := kept_set (env.generateId_fresh _) doc
    have hname : doc.attrs.field "label" = .str label := by
      by_cases hd : description = .undefined <;>
        simp [doc, MilestoneCache.milestoneAttributes, Fields.assign_cons, hd]
    have hhas : (projectMilestones space).Has doc :=
      ⟨rfl, by simp [projectMilestones, MilestoneCache.ofProject, doc]⟩
    have hnames : (projectMilestones space).Names env (w.docs.set ref doc) ref
        (env.toLowerCase label) :=
      ⟨doc, label, OrderedMap.get?_set_self _ _ _, hhas, hname, rfl⟩
    refine ⟨ref, { c₁ with localByLabel := c₁.localByLabel.put (env.toLowerCase label) ref },
      w.docs.set ref doc, ?_, hkept, ⟨ht.1.set fun hm => ?_, ht.2.set fun _ => ⟨label, hname⟩⟩,
      hnames⟩
    · rw [Effect.bind_of_ok (Sync.createDoc_run h _ _ _ w)]
      rfl
    · exact absurd hm.1.symm tagElementClass_ne_milestoneClass

/-- `resolveLocalLabels` answers tags of the names, and one for each name. -/
theorem LabelCache.resolveLocal_run {space : Ref} {c : LabelCache} {w : World}
    (names : List String) (ht : WellTyped space w.docs)
    (hc : issueTags.Sound env w.docs c.localByName) :
    ∃ refs c' docs, (LabelCache.resolveLocal env space c (names.map .str)).run w =
        (.ok (refs, c'), { w with docs := docs }) ∧
      Kept w.docs docs ∧ WellTyped space docs ∧
      (∀ ref ∈ refs, ∃ name ∈ names, issueTags.Names env docs ref (env.toLowerCase name)) ∧
      ∀ name ∈ names, ∃ ref ∈ refs, issueTags.Names env docs ref (env.toLowerCase name) := by
  induction names generalizing c w with
  | nil => exact ⟨[], c, w.docs, rfl, Kept.refl _, ht, by simp, by simp⟩
  | cons name names ih =>
    obtain ⟨ref, c₁, docs₁, hfirst, hkept₁, ht₁, hc₁, hname⟩ :=
      LabelCache.ensureLocalTag_run h name ht hc
    obtain ⟨refs, c₂, docs₂, hrest, hkept₂, ht₂, hrefs, hnames⟩ :=
      ih (c := c₁) (w := { w with docs := docs₁ }) ht₁ hc₁
    have hkept : Kept docs₁ docs₂ := hkept₂
    refine ⟨ref :: refs, c₂, docs₂, ?_, hkept₁.trans hkept, ht₂, ?_, ?_⟩
    · rw [List.map_cons, LabelCache.resolveLocal, Effect.bind_of_ok hfirst,
        Effect.bind_of_ok hrest]
      rfl
    · intro r hr
      obtain rfl | hr := List.mem_cons.mp hr
      · exact ⟨name, List.mem_cons_self, hname.kept hkept⟩
      · obtain ⟨n, hn, hrn⟩ := hrefs r hr
        exact ⟨n, List.mem_cons_of_mem name hn, hrn⟩
    · intro n hn
      obtain rfl | hn := List.mem_cons.mp hn
      · exact ⟨ref, List.mem_cons_self, hname.kept hkept⟩
      · obtain ⟨r, hr, hrn⟩ := hnames n hn
        exact ⟨r, List.mem_cons_of_mem ref hr, hrn⟩

end Healthy

end HulyGitlab
