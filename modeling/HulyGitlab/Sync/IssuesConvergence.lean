import HulyGitlab.Lib.LastWriter
import HulyGitlab.Sync.IssuesRemote

/-!
# Deliveries of one issue

A mapped issue under `applyRemote` is a last-writer-wins replica whose clock
is the document's `modifiedOn`. The clock only moves with a write, so a newer
version that brings nothing new leaves the door open for an older one.
-/

namespace HulyGitlab.Issues

open NamedDocs UserIdentity

/-- Only the document of the issue changed, and it is still an issue. -/
structure IssueWritten (ref : Ref) (docs docs' : OrderedMap Ref HulyDoc) : Prop where
  before : ∃ doc, docs.get? ref = some doc ∧ doc.objectClass = issueClass
  after : ∃ doc, docs'.get? ref = some doc ∧ doc.objectClass = issueClass
  others : ∀ other, other ≠ ref → docs'.get? other = docs.get? other

theorem IssueWritten.names {ref : Ref} {docs docs' : OrderedMap Ref HulyDoc}
    (h : IssueWritten ref docs docs') {n : NamedDocs} (hn : n.objectClass ≠ issueClass)
    {env : Env} {r : Ref} {key : String} (hname : n.Names env docs r key) :
    n.Names env docs' r key := by
  obtain ⟨doc, name, hdoc, hhas, hrest⟩ := hname
  have hne : r ≠ ref := by
    rintro rfl
    obtain ⟨doc', hdoc', hclass⟩ := h.before
    rw [hdoc] at hdoc'
    cases hdoc'
    exact hn (hhas.1.symm.trans hclass)
  exact ⟨doc, name, (h.others r hne).trans hdoc, hhas, hrest⟩

theorem IssueWritten.typed {ref : Ref} {docs docs' : OrderedMap Ref HulyDoc}
    (h : IssueWritten ref docs docs') {n : NamedDocs} (hn : n.objectClass ≠ issueClass)
    (ht : n.Typed docs) : n.Typed docs' := by
  intro r doc hdoc hhas
  by_cases hr : r = ref
  · subst hr
    obtain ⟨doc', hdoc', hclass⟩ := h.after
    rw [hdoc] at hdoc'
    cases hdoc'
    exact absurd (hhas.1.symm.trans hclass) hn
  · exact ht r doc ((h.others r hr).symm.trans hdoc) hhas

theorem tagElementClass_ne_issueClass : tagElementClass ≠ issueClass := by decide

theorem milestoneClass_ne_issueClass : milestoneClass ≠ issueClass := by decide

theorem IssueWritten.carries {ref : Ref} {w w' : World} (h : IssueWritten ref w.docs w'.docs)
    {env : Env} {bctx : BindingContext} (hidmap : w'.idmap = w.idmap)
    (hcache : w'.statusCache = w.statusCache) : Carries env bctx w w' where
  entry := by rw [hcache]
  guests := by rw [hidmap]; exact fun _ => rfl
  tags := fun _ _ hn => h.names tagElementClass_ne_issueClass hn
  milestones := fun _ _ hn => h.names milestoneClass_ne_issueClass hn

theorem IssueWritten.mapped {ref : Ref} {w w' : World} (h : IssueWritten ref w.docs w'.docs)
    {env : Env} {bctx : BindingContext} {iid : Int} (hidmap : w'.idmap = w.idmap)
    (hm : Mapped env bctx iid ref w) : Mapped env bctx iid ref w' where
  row := by rw [hidmap]; exact hm.row
  doc := h.after
  owned := by rw [hidmap]; exact hm.owned
  typed := ⟨h.typed tagElementClass_ne_issueClass hm.typed.1,
    h.typed milestoneClass_ne_issueClass hm.typed.2⟩

/-- The state after a record was delivered. -/
def deliver (env : Env) (binding : BindingRef) (w : World) (i : SyncIssue) : World :=
  ((applyRemote env binding i.toFields).run w).2

/-- What a delivery leaves: the document as the update branch writes it, or as it was. -/
inductive Delivered (env : Env) (bctx : BindingContext) (ref : Ref) (w : World) (i : SyncIssue)
    (w' : World) : Prop
  | skipped (hstatus : statusFor env bctx w i = none) (hw : Prepared env bctx w w')
  | updated (w₁ : World) (r : RemoteIssue) (doc : HulyDoc)
      (hw : Prepared env bctx w w₁) (hr : Resolves env bctx w₁ i r)
      (hdoc : w.docs.get? ref = some doc) (hclass : doc.objectClass = issueClass)
      (hwritten : w'.docs.get? ref =
        some { doc with attrs := updatedAttrs doc.attrs r (some i.updatedAt) })
      (hothers : ∀ other, other ≠ ref → w'.docs.get? other = w₁.docs.get? other)
      (hidmap : w'.idmap = w₁.idmap) (hcache : w'.statusCache = w₁.statusCache)

section Healthy

variable {env : Env} (h : env.Healthy) {binding : BindingRef} {bctx : BindingContext}
  (hload : env.loadBinding binding = .ok bctx)
include h hload

theorem delivered {ref : Ref} {w : World} (i : SyncIssue)
    (hm : Mapped env bctx i.iid ref w) :
    Delivered env bctx ref w i (deliver env binding w i) := by
  unfold deliver
  obtain ⟨w₁, hw, ⟨hstatus, hrun⟩ | ⟨r, hr, hrun⟩⟩ := applyRemote_run h hload i hm
  · rw [hrun]
    exact .skipped hstatus hw
  · obtain ⟨doc, hdoc, hclass⟩ := hm.doc
    obtain ⟨docs, cursors, hupdate, hwritten, hothers⟩ :=
      updateFromRemote_run h binding r (some i.updatedAt) (hw.kept ref doc hdoc) hclass
    rw [hrun, hupdate]
    exact .updated w₁ r doc hw hr hdoc hclass hwritten hothers rfl rfl

end Healthy

section Delivered

variable {env : Env} {bctx : BindingContext} {ref : Ref} {w w' : World} {i : SyncIssue}

theorem Delivered.carries (hd : Delivered env bctx ref w i w') : Carries env bctx w w' := by
  cases hd with
  | skipped _ hw => exact hw.carries
  | updated w₁ r doc hw hr hdoc hclass hwritten hothers hidmap hcache =>
    have hissue : IssueWritten ref w₁.docs w'.docs :=
      ⟨⟨doc, hw.kept ref doc hdoc, hclass⟩, ⟨_, hwritten, hclass⟩, hothers⟩
    exact hw.carries.trans (hissue.carries hidmap hcache)

theorem Delivered.mapped {iid : Int} (hm : Mapped env bctx iid ref w)
    (hd : Delivered env bctx ref w i w') : Mapped env bctx iid ref w' := by
  cases hd with
  | skipped _ hw => exact hm.prepared hw
  | updated w₁ r doc hw hr hdoc hclass hwritten hothers hidmap hcache =>
    have hissue : IssueWritten ref w₁.docs w'.docs :=
      ⟨⟨doc, hw.kept ref doc hdoc, hclass⟩, ⟨_, hwritten, hclass⟩, hothers⟩
    exact hissue.mapped hidmap (hm.prepared hw)

/-- Deliveries leave the rows of issues alone. -/
theorem Delivered.row (hd : Delivered env bctx ref w i w') (gitlabId : String) :
    w'.idmap.findByGitlab bctx.workspaceUuid .issue gitlabId =
      w.idmap.findByGitlab bctx.workspaceUuid .issue gitlabId := by
  cases hd with
  | skipped _ hw => exact hw.settles.others .issue _ (by decide)
  | updated w₁ r doc hw hr hdoc hclass hwritten hothers hidmap hcache =>
    rw [hidmap]
    exact hw.settles.others .issue _ (by decide)

/-- The clock of the document of an issue. -/
def clockAt (ref : Ref) (w : World) : Option Nat :=
  (w.docs.get? ref).bind fun doc => clockOf doc.attrs

theorem Delivered.shows (hd : Delivered env bctx ref w i w')
    (hstatus : statusFor env bctx w i ≠ none)
    (hclock : ∀ c, clockAt ref w = some c → c ≤ i.updatedAt) : Shows env bctx ref w' i := by
  have hcarries := hd.carries
  cases hd with
  | skipped hs _ => exact absurd hs hstatus
  | updated w₁ r doc hw hr hdoc hclass hwritten hothers hidmap hcache =>
    have hissue : IssueWritten ref w₁.docs w'.docs :=
      ⟨⟨doc, hw.kept ref doc hdoc, hclass⟩, ⟨_, hwritten, hclass⟩, hothers⟩
    have hacc : Accepted doc.attrs i.updatedAt := by
      intro c hc
      exact hclock c (by simp [clockAt, hdoc, hc])
    refine ⟨_, hwritten, ?_⟩
    dsimp only
    exact (agrees_of_accepted hacc hr).carry (hissue.carries hidmap hcache)

/-- A record that is skipped or outdated leaves the document as it was. -/
theorem Delivered.untouched {doc : HulyDoc} (hd : Delivered env bctx ref w i w')
    (hdoc : w.docs.get? ref = some doc)
    (hdef : ∀ k ∈ managedFields, localValue doc.attrs k ≠ .undefined)
    (hrej : ¬ statusFor env bctx w i ≠ none ∨ ∃ c, clockAt ref w = some c ∧ i.updatedAt < c) :
    w'.docs.get? ref = some doc := by
  cases hd with
  | skipped hs hw => exact hw.kept ref doc hdoc
  | updated w₁ r doc' hw hr hdoc' hclass hwritten hothers hidmap hcache =>
    rw [hdoc] at hdoc'
    cases hdoc'
    obtain hnone | ⟨c, hc, hlt⟩ := hrej
    · obtain ⟨status, hs, -⟩ := hr.status
      rw [hw.carries.statusFor] at hs
      exact absurd (by rw [hs]; exact Option.some_ne_none status) hnone
    · have hempty : updateOperations doc.attrs r (some i.updatedAt) = [] := by
        apply updateOperations_of_rejected _ hlt
        · exact fun k hk => Agrees.defined hr hk
        · exact hdef
        · simpa [clockAt, hdoc] using hc
      have hsame : updatedAttrs doc.attrs r (some i.updatedAt) = doc.attrs := if_pos hempty
      rw [hsame] at hwritten
      exact hwritten

theorem Delivered.keeps {u : SyncIssue} (hd : Delivered env bctx ref w i w')
    (hu : Shows env bctx ref w u)
    (hrej : ¬ statusFor env bctx w i ≠ none ∨ ∃ c, clockAt ref w = some c ∧ i.updatedAt < c) :
    Shows env bctx ref w' u := by
  obtain ⟨doc, hdoc, hagrees⟩ := hu
  have hkept := hd.untouched hdoc (fun k hk => hagrees.defined hk) hrej
  exact ⟨doc, hkept, hagrees.carry hd.carries⟩

theorem Delivered.clock {c : Nat} (hd : Delivered env bctx ref w i w')
    (hdocs : ∃ doc, w.docs.get? ref = some doc) (hc : clockAt ref w' = some c) :
    clockAt ref w = some c ∨ c = i.updatedAt := by
  cases hd with
  | skipped _ hw =>
    obtain ⟨doc, hdoc⟩ := hdocs
    unfold clockAt at hc ⊢
    rw [hw.kept ref doc hdoc] at hc
    rw [hdoc]
    exact .inl hc
  | updated w₁ r doc hw hr hdoc hclass hwritten hothers hidmap hcache =>
    unfold clockAt at hc ⊢
    rw [hwritten, Option.bind_some] at hc
    dsimp only at hc
    rw [hdoc, Option.bind_some]
    exact clockOf_updatedAttrs hc

end Delivered

/-- Two records carry the same values for the managed fields. -/
structure SameContent (env : Env) (bctx : BindingContext) (w : World) (u v : SyncIssue) :
    Prop where
  title : u.title = v.title
  description : env.gfmMarkdownToMarkup (u.description.getD "") (issueRefUrl bctx) (imageUrl bctx) =
    env.gfmMarkdownToMarkup (v.description.getD "") (issueRefUrl bctx) (imageUrl bctx)
  status : statusFor env bctx w u = statusFor env bctx w v
  assignee : assigneeOf env w.idmap bctx.workspaceUuid u.assignees =
    assigneeOf env w.idmap bctx.workspaceUuid v.assignees
  milestone : (u.milestone.map fun m => env.toLowerCase m.title) =
    v.milestone.map fun m => env.toLowerCase m.title
  labels : ∀ key, key ∈ u.labels.map env.toLowerCase ↔ key ∈ v.labels.map env.toLowerCase

theorem milestoneIs_iff {env : Env} {space : Ref} {docs : OrderedMap Ref HulyDoc} {v : JsValue}
    {a b : Option SyncMilestone}
    (h : (a.map fun m => env.toLowerCase m.title) = b.map fun m => env.toLowerCase m.title)
    (ha : MilestoneIs env space docs v a) : MilestoneIs env space docs v b := by
  cases a with
  | none =>
    cases b with
    | none => exact ha
    | some m => cases h
  | some m =>
    cases b with
    | none => cases h
    | some m' =>
      obtain ⟨ref, hv, hname⟩ := ha
      have htitle : env.toLowerCase m.title = env.toLowerCase m'.title := Option.some.inj h
      exact ⟨ref, hv, htitle ▸ hname⟩

theorem milestone_eq_of_milestoneIs {env : Env} {space : Ref} {docs : OrderedMap Ref HulyDoc}
    {v : JsValue} {a b : Option SyncMilestone} (ha : MilestoneIs env space docs v a)
    (hb : MilestoneIs env space docs v b) :
    (a.map fun m => env.toLowerCase m.title) = b.map fun m => env.toLowerCase m.title := by
  cases a with
  | none =>
    cases b with
    | none => rfl
    | some m =>
      obtain ⟨ref, hv, -⟩ := hb
      rw [show v = .null from ha] at hv
      cases hv
  | some m =>
    obtain ⟨ref, rfl, hname⟩ := ha
    cases b with
    | none => cases (show JsValue.str ref = .null from hb)
    | some m' =>
      obtain ⟨ref', hv, hname'⟩ := hb
      cases hv
      exact congrArg some (hname.unique hname')

theorem sameContent_of_shows {env : Env} {bctx : BindingContext} {ref : Ref} {w : World}
    {u v : SyncIssue} (hu : Shows env bctx ref w u) (hv : Shows env bctx ref w v) :
    SameContent env bctx w u v := by
  obtain ⟨doc, hdoc, hau⟩ := hu
  obtain ⟨doc', hdoc', hav⟩ := hv
  rw [hdoc] at hdoc'
  cases hdoc'
  exact {
    title := JsValue.str.inj (hau.title.symm.trans hav.title)
    description := JsValue.str.inj (hau.description.symm.trans hav.description)
    status := by
      obtain ⟨a, ha, hva⟩ := hau.status
      obtain ⟨b, hb, hvb⟩ := hav.status
      rw [ha, hb, JsValue.str.inj (hva.symm.trans hvb)]
    assignee := hau.assignee.symm.trans hav.assignee
    milestone := milestone_eq_of_milestoneIs hau.milestone hav.milestone
    labels := by
      obtain ⟨refs, hrefs, -, hkeys⟩ := hau.labels
      obtain ⟨refs', hrefs', -, hkeys'⟩ := hav.labels
      rw [hrefs] at hrefs'
      have hmap : refs.map JsValue.str = refs'.map JsValue.str := JsValue.arr.inj hrefs'
      have heq : refs = refs' := List.map_injective_iff.mpr (fun _ _ => JsValue.str.inj) hmap
      subst heq
      exact fun key => (hkeys key).symm.trans (hkeys' key) }

theorem SameContent.shows {env : Env} {bctx : BindingContext} {ref : Ref} {w : World}
    {u v : SyncIssue} (h : SameContent env bctx w u v) (hu : Shows env bctx ref w u) :
    Shows env bctx ref w v := by
  obtain ⟨doc, hdoc, hau⟩ := hu
  refine ⟨doc, hdoc, ?_⟩
  exact {
    title := by rw [← h.title]; exact hau.title
    description := by rw [← h.description]; exact hau.description
    status := by rw [← h.status]; exact hau.status
    assignee := by rw [← h.assignee]; exact hau.assignee
    milestone := milestoneIs_iff h.milestone hau.milestone
    labels := by
      obtain ⟨refs, hrefs, hnamed, hkeys⟩ := hau.labels
      exact ⟨refs, hrefs, hnamed, fun key => (hkeys key).trans (h.labels key)⟩ }

theorem Carries.sameContent_iff {env : Env} {bctx : BindingContext} {w w' : World}
    (h : Carries env bctx w w') (u v : SyncIssue) :
    SameContent env bctx w' u v ↔ SameContent env bctx w u v := by
  constructor
  · rintro ⟨ht, hd, hs, ha, hm, hl⟩
    rw [h.statusFor, h.statusFor] at hs
    rw [h.assigneeOf, h.assigneeOf] at ha
    exact ⟨ht, hd, hs, ha, hm, hl⟩
  · rintro ⟨ht, hd, hs, ha, hm, hl⟩
    rw [← h.statusFor, ← h.statusFor] at hs
    rw [← h.assigneeOf, ← h.assigneeOf] at ha
    exact ⟨ht, hd, hs, ha, hm, hl⟩

/-- A version of the GitLab issue `iid`. -/
abbrev Version (iid : Int) := { i : SyncIssue // i.iid = iid }

/-- The mirror of an issue as a replica: the clock is `modifiedOn`, and a
version is usable if the project has a status for its state. -/
def replica (env : Env) (h : env.Healthy) (binding : BindingRef) (bctx : BindingContext)
    (hload : env.loadBinding binding = .ok bctx) (iid : Int) (ref : Ref) :
    Replica World (Version iid) Nat :=
  have hdelivered : ∀ {w : World} (v : Version iid), Mapped env bctx iid ref w →
      Delivered env bctx ref w v.1 (deliver env binding w v.1) := fun v hm =>
    delivered h hload v.1 (by rw [v.2]; exact hm)
  { deliver := fun w v => deliver env binding w v.1
    stamp := fun v => v.1.updatedAt
    clock := clockAt ref
    Shows := fun w v => Shows env bctx ref w v.1
    Usable := fun w v => statusFor env bctx w v.1 ≠ none
    Alike := fun w u v => SameContent env bctx w u.1 v.1
    Inv := Mapped env bctx iid ref
    inv_deliver := fun v hm => (hdelivered v hm).mapped hm
    shows_of_accepted := fun hm hs hc => (hdelivered _ hm).shows hs hc
    shows_of_rejected := fun hm hu hrej => (hdelivered _ hm).keeps hu hrej
    clock_deliver := fun hm hc => (hdelivered _ hm).clock
      (hm.doc.imp fun _ hdoc => hdoc.1) hc
    usable_of_shows := by
      rintro w v ⟨doc, -, hagrees⟩
      obtain ⟨status, hs, -⟩ := hagrees.status
      rw [hs]
      exact Option.some_ne_none status
    usable_deliver := fun u v hm => by rw [(hdelivered v hm).carries.statusFor]
    alike_of_shows := sameContent_of_shows
    shows_of_alike := SameContent.shows
    alike_deliver := fun x u v hm => (hdelivered x hm).carries.sameContent_iff u.1 v.1 }

/-- The mirror of a project with the one issue `7:1`, titled "a" since time 1. -/
def mirroredIssue : HulyDoc where
  objectClass := issueClass
  space := "project"
  attrs := [("title", .str "a"), ("description", .str ""), ("status", .str "status:open"),
    ("assignee", .null), ("milestone", .null), ("labels", .arr []), ("modifiedOn", .num 1)]
  mixins := .empty

def mirroredWorld : World where
  idmap := ⟨[⟨"ws", .issue, "7:1", issueClass, "doc"⟩], by decide, by decide⟩
  cursors := .empty
  docs := OrderedMap.empty.set "doc" mirroredIssue
  statusCache := .empty
  requests := []
  enqueued := []
  lookups := []
  now := 5

theorem mirroredWorld_mapped : Mapped (Env.quiet quietBinding) quietBinding 1 "doc" mirroredWorld where
  row := ⟨⟨"ws", .issue, "7:1", issueClass, "doc"⟩, by decide +kernel, rfl⟩
  doc := ⟨mirroredIssue, rfl, rfl⟩
  owned := by
    intro row hrow hclass
    rw [List.mem_singleton.mp hrow] at hclass
    exact absurd hclass (by decide)
  typed := by
    have honly : ∀ ref doc, mirroredWorld.docs.get? ref = some doc →
        doc.objectClass = issueClass := by
      intro ref doc hdoc
      have hmem := OrderedMap.mem_entries_of_get? hdoc
      rw [show mirroredWorld.docs.entries = [("doc", mirroredIssue)] from rfl] at hmem
      cases List.mem_singleton.mp hmem
      rfl
    constructor
    · intro ref doc hdoc hhas
      exact absurd (hhas.1.symm.trans (honly ref doc hdoc)) tagElementClass_ne_issueClass
    · intro ref doc hdoc hhas
      exact absurd (hhas.1.symm.trans (honly ref doc hdoc)) milestoneClass_ne_issueClass

/-- A version of issue 1 with this title and time, and nothing else set. -/
def titledVersion (title : String) (updatedAt : Nat) : Version 1 :=
  ⟨⟨10, 1, 7, title, none, .opened, [], none, [], ⟨3, "u", "U", none, none, ""⟩, false, 0,
    updatedAt, none, ""⟩, rfl⟩

end HulyGitlab.Issues
