import HulyGitlab.Lib.Schedule
import HulyGitlab.Sync.IssuesFields

/-!
# An edit on each side

A mirrored issue is edited in Huly in one field and on GitLab in another.
`applyLocal` pushes the edit of Huly. A record of the issue is taken from
GitLab after the edit there, and `applyRemote` applies it. The steps come in
any order that respects this.
-/

namespace HulyGitlab.Issues

open NamedDocs UserIdentity Schedule

/-- The two edits, each with the time its system stamps it with. -/
structure Edits where
  huly : HulyEdit
  hulyAt : Nat
  gitlab : GitLabEdit
  gitlabAt : Nat
  distinct : gitlab.field ≠ huly.field

inductive Step
  | edit
  | push
  | gitlabEdit
  | snapshot
  | apply
  deriving DecidableEq

/-- A change is pushed after it was made; the record carries the edit of
GitLab and is applied after it was taken. -/
inductive Step.Requires : Step → Step → Prop
  | push : Requires .push .edit
  | snapshot : Requires .snapshot .gitlabEdit
  | apply : Requires .apply .snapshot

/-- Both systems, and the record on its way. -/
structure Sides where
  world : World
  issue : SyncIssue
  record : Option SyncIssue

/-- The platform writes the attribute and its clock. -/
def editDoc (ref : Ref) (x : HulyEdit) (modifiedOn : Nat) (w : World) : World :=
  match w.docs.get? ref with
  | some doc =>
      { w with
        docs := w.docs.set ref { doc with
          attrs := (doc.attrs.set x.field.name x.value).set "modifiedOn" (.num modifiedOn) } }
  | none => w

/-- The bodies of the updates of an issue that were sent between two states. -/
def updatesSince (projectId iid : Int) (w w' : World) : List Fields :=
  (w'.requests.drop w.requests.length).filterMap (updateOf projectId iid)

section Step

variable (env : Env) (server : IssueServer) (binding : BindingRef) (bctx : BindingContext)
  (doc : String) (e : Edits)

def Sides.step (s : Sides) : Step → Sides
  | .edit => { s with world := editDoc (stripDocPrefix doc) e.huly e.hulyAt s.world }
  | .push =>
      let w := ((applyLocal env binding doc e.huly.change).run s.world).2
      { s with
        world := w
        issue := (updatesSince bctx.gitlabProjectId s.issue.iid s.world w).foldl server.update
          s.issue }
  | .gitlabEdit => { s with issue := e.gitlab.apply e.gitlabAt s.issue }
  | .snapshot => { s with record := some s.issue }
  | .apply =>
      match s.record with
      | some i => { s with world := deliver env binding s.world i }
      | none => s

/-- The side of GitLab alone, where a push is what reaches it. -/
def gitlabStep (entry : ProjectCacheEntry) (s : SyncIssue × Option SyncIssue) :
    Step → SyncIssue × Option SyncIssue
  | .push => (e.huly.send env bctx entry server s.1, s.2)
  | .gitlabEdit => (e.gitlab.apply e.gitlabAt s.1, s.2)
  | .snapshot => (s.1, some s.1)
  | _ => s

end Step

section GitLab

variable {env : Env} {server : IssueServer} {bctx : BindingContext} {e : Edits}
  {entry : ProjectCacheEntry}

/-- What the steps done make of the issue and of the record in the two fields. -/
structure GitLabSide (env : Env) (bctx : BindingContext) (entry : ProjectCacheEntry) (e : Edits)
    (i : SyncIssue) (done : List Step) (s : SyncIssue × Option SyncIssue) : Prop where
  iid : s.1.iid = i.iid
  edited : SameAt (contentOf s.1)
    (if .push ∈ done then e.huly.put env bctx entry (contentOf i) else contentOf i) e.huly.field
  changed : .gitlabEdit ∈ done →
    SameAt (contentOf s.1) (e.gitlab.put (contentOf i)) e.gitlab.field
  record : .snapshot ∈ done → ∃ r, s.2 = some r ∧ r.iid = i.iid ∧
    SameAt (contentOf r) (if Before done .push .snapshot
      then e.huly.put env bctx entry (contentOf i) else contentOf i) e.huly.field ∧
    SameAt (contentOf r) (e.gitlab.put (contentOf i)) e.gitlab.field

theorem gitlabSide_step {i : SyncIssue} {done : List Step} {a : Step}
    {s : SyncIssue × Option SyncIssue} (hord : Ordered Step.Requires done) (hnew : a ∉ done)
    (hreq : ∀ b, a.Requires b → b ∈ done) (hs : GitLabSide env bctx entry e i done s) :
    GitLabSide env bctx entry e i (done ++ [a]) (gitlabStep env server bctx e entry s a) := by
  have hmem : ∀ b, b ∈ done ++ [a] ↔ b ∈ done ∨ b = a := by
    intro b
    rw [List.mem_append, List.mem_singleton]
  cases a with
  | edit =>
    refine ⟨hs.iid, ?_, ?_, ?_⟩
    · simpa [gitlabStep] using hs.edited
    · simpa [gitlabStep] using hs.changed
    · simpa [gitlabStep, before_concat] using hs.record
  | push =>
    have hf := hs.edited
    rw [if_neg hnew] at hf
    refine ⟨(HulyEdit.iid_send server e.huly s.1).trans hs.iid, ?_, ?_, ?_⟩
    · rw [if_pos (by simp)]
      simp only [gitlabStep, HulyEdit.contentOf_send]
      exact HulyEdit.sameAt_put hf
    · intro hg
      simp only [gitlabStep, HulyEdit.contentOf_send]
      have hne : e.huly.field ≠ e.gitlab.field := fun h => e.distinct h.symm
      exact (HulyEdit.sameAt_put_of_ne hne _).trans (hs.changed (by simpa using hg))
    · simpa [gitlabStep, before_concat] using hs.record
  | gitlabEdit =>
    have hsnap : .snapshot ∉ done := fun h => hnew (hord.mem_of_requires h .snapshot)
    refine ⟨(GitLabEdit.iid_apply _ _ _).trans hs.iid, ?_, ?_, ?_⟩
    · simp only [gitlabStep, GitLabEdit.contentOf_apply]
      refine (GitLabEdit.sameAt_put_of_ne e.distinct _).trans ?_
      simpa using hs.edited
    · intro _
      simp only [gitlabStep, GitLabEdit.contentOf_apply]
      exact GitLabEdit.sameAt_put _ _ _
    · intro h
      simp [hsnap] at h
  | snapshot =>
    have hg := hs.changed (hreq _ .snapshot)
    have hnone : ¬ Before done .push .snapshot := fun h => hnew h.right_mem
    refine ⟨hs.iid, ?_, ?_, fun _ => ⟨s.1, rfl, hs.iid, ?_, hg⟩⟩
    · simpa [gitlabStep] using hs.edited
    · intro _
      exact hg
    · simpa [before_concat, hnone] using hs.edited
  | apply =>
    refine ⟨hs.iid, ?_, ?_, ?_⟩
    · simpa [gitlabStep] using hs.edited
    · simpa [gitlabStep] using hs.changed
    · simpa [gitlabStep, before_concat] using hs.record

theorem gitlabSide (i : SyncIssue) {sched : List Step} (h : Ordered Step.Requires sched) :
    GitLabSide env bctx entry e i sched
      (Transition.exec (gitlabStep env server bctx e entry) (i, none) sched) := by
  apply h.exec_invariant (fun done a s hord hnew hreq hs => gitlabSide_step hord hnew hreq hs)
  exact {
    iid := rfl
    edited := SameAt.refl _ _
    changed := fun h => absurd h List.not_mem_nil
    record := fun h => absurd h List.not_mem_nil }

end GitLab

/-- The attributes of the document of an issue. -/
def attrsAt (ref : Ref) (w : World) : Fields := ((w.docs.get? ref).map HulyDoc.attrs).getD []

theorem attrsAt_of_get {ref : Ref} {w : World} {doc : HulyDoc} (h : w.docs.get? ref = some doc) :
    attrsAt ref w = doc.attrs := by
  simp [attrsAt, h]

theorem clockAt_eq (ref : Ref) (w : World) : clockAt ref w = clockOf (attrsAt ref w) := by
  unfold clockAt attrsAt
  cases w.docs.get? ref <;> rfl

/-- The clock of a document written at a time. -/
def clockAfter (modifiedOn : Nat) : Option Nat := if 0 < modifiedOn then some modifiedOn else none

/-- The issue is mapped to the document in both directions. -/
structure Linked (env : Env) (bctx : BindingContext) (iid : Int) (ref : Ref) (w : World) : Prop
    extends Mapped env bctx iid ref w where
  link : w.idmap.findByGitlab bctx.workspaceUuid .issue (projectKey env bctx (.num iid)) =
    some ⟨bctx.workspaceUuid, .issue, projectKey env bctx (.num iid), issueClass, ref⟩

theorem Linked.of_row {env : Env} {bctx : BindingContext} {iid : Int} {ref : Ref} {w w' : World}
    (h : Linked env bctx iid ref w) (hm : Mapped env bctx iid ref w')
    (hrow : w'.idmap.findByGitlab bctx.workspaceUuid .issue (projectKey env bctx (.num iid)) =
      w.idmap.findByGitlab bctx.workspaceUuid .issue (projectKey env bctx (.num iid))) :
    Linked env bctx iid ref w' :=
  ⟨hm, hrow.trans h.link⟩

theorem Linked.findByHuly {env : Env} {bctx : BindingContext} {iid : Int} {ref : Ref} {w : World}
    (h : Linked env bctx iid ref w) :
    w.idmap.findByHuly bctx.workspaceUuid issueClass ref =
      some ⟨bctx.workspaceUuid, .issue, projectKey env bctx (.num iid), issueClass, ref⟩ := by
  obtain ⟨hmem, -⟩ := IdMap.findByGitlab_eq_some_iff.mp h.link
  exact IdMap.findByHuly_eq_some_iff.mpr ⟨hmem, rfl⟩

section Edit

variable {env : Env} {bctx : BindingContext} {ref : Ref} {w : World} {doc : HulyDoc}
  (hdoc : w.docs.get? ref = some doc)
include hdoc

theorem editDoc_eq (x : HulyEdit) (t : Nat) :
    editDoc ref x t w = { w with
      docs := w.docs.set ref { doc with
        attrs := (doc.attrs.set x.field.name x.value).set "modifiedOn" (.num t) } } := by
  unfold editDoc
  rw [hdoc]

theorem attrsAt_editDoc (x : HulyEdit) (t : Nat) :
    attrsAt ref (editDoc ref x t w) =
      ((attrsAt ref w).set x.field.name x.value).set "modifiedOn" (.num t) := by
  rw [editDoc_eq hdoc, attrsAt_of_get hdoc]
  simp only [attrsAt, OrderedMap.get?_set_self, Option.map_some, Option.getD_some]

theorem editDoc_written (hclass : doc.objectClass = issueClass) (x : HulyEdit) (t : Nat) :
    IssueWritten ref w.docs (editDoc ref x t w).docs := by
  rw [editDoc_eq hdoc]
  exact {
    before := ⟨doc, hdoc, hclass⟩
    after := ⟨_, OrderedMap.get?_set_self _ _ _, hclass⟩
    others := fun other hne => OrderedMap.get?_set_of_ne _ hne _ }

theorem localValue_editDoc (x : HulyEdit) (t : Nat) (k : ManagedField) :
    localValue (attrsAt ref (editDoc ref x t w)) k.name =
      if k = x.field then x.value else localValue (attrsAt ref w) k.name := by
  rw [attrsAt_editDoc hdoc]
  have hclock : "modifiedOn" ≠ k.name := by cases k <;> decide
  have hfield : (((attrsAt ref w).set x.field.name x.value).set "modifiedOn" (.num t)).field
      k.name = if k = x.field then x.value else (attrsAt ref w).field k.name := by
    rw [Fields.field_set, if_neg hclock, Fields.field_set]
    by_cases hk : k = x.field
    · rw [if_pos hk, if_pos (congrArg ManagedField.name hk.symm)]
    · rw [if_neg hk, if_neg fun hn => hk (ManagedField.name_injective hn).symm]
  by_cases hk : k = x.field
  · subst hk
    rw [if_pos rfl] at hfield ⊢
    exact localValue_of_field hfield x.value_ne_undefined x.value_ne_null
  · rw [if_neg hk] at hfield ⊢
    unfold localValue
    rw [hfield]

theorem clockOf_editDoc (x : HulyEdit) (t : Nat) :
    clockOf (attrsAt ref (editDoc ref x t w)) = clockAfter t := by
  rw [attrsAt_editDoc hdoc]
  unfold clockOf clockAfter
  rw [Fields.field_set, if_pos rfl]
  by_cases ht : 0 < t
  · simp [ht]
  · simp [ht]

end Edit

/-- The record is taken in by a document with this clock. -/
def TakenIn (env : Env) (bctx : BindingContext) (w : World) (clock : Option Nat)
    (i : SyncIssue) : Prop :=
  statusFor env bctx w i ≠ none ∧ ∀ c, clock = some c → c ≤ i.updatedAt

/-- The record the steps done have taken. -/
def recordOf (env : Env) (server : IssueServer) (bctx : BindingContext) (e : Edits) (w : World)
    (i : SyncIssue) (done : List Step) : SyncIssue :=
  (Transition.exec (gitlabStep env server bctx e (StatusMap.entryOf env w.statusCache
    (toString bctx.gitlabProjectId) bctx.statuses)) (i, none) done).2.getD i

/-- The clock the record meets: that of the edit, unless the record was applied before it. -/
def clockMet (ref : Ref) (w : World) (e : Edits) (done : List Step) : Option Nat :=
  if .edit ∈ done ∧ ¬ Before done .apply .edit then clockAfter e.hulyAt else clockAt ref w

/-- What the steps done have made of both systems, from the state `w` and the issue `i`. -/
structure Progress (env : Env) (server : IssueServer) (bctx : BindingContext) (ref : Ref)
    (e : Edits) (w : World) (i : SyncIssue) (done : List Step) (s : Sides) : Prop where
  gitlab : (s.issue, s.record) = Transition.exec (gitlabStep env server bctx e
    (StatusMap.entryOf env w.statusCache (toString bctx.gitlabProjectId) bctx.statuses))
    (i, none) done
  linked : Linked env bctx i.iid ref s.world
  carries : Carries env bctx w s.world
  pending : ¬ (.apply ∈ done ∧ TakenIn env bctx w (clockMet ref w e done)
      (recordOf env server bctx e w i done)) →
    ∀ k : ManagedField, localValue (attrsAt ref s.world) k.name =
      if k = e.huly.field ∧ .edit ∈ done then e.huly.value
      else localValue (attrsAt ref w) k.name
  taken : .apply ∈ done → TakenIn env bctx w (clockMet ref w e done)
      (recordOf env server bctx e w i done) →
    ∀ k : ManagedField, if k = e.huly.field ∧ Before done .apply .edit
      then localValue (attrsAt ref s.world) k.name = e.huly.value
      else FieldAgrees env bctx s.world (contentOf (recordOf env server bctx e w i done)) k
        (localValue (attrsAt ref s.world) k.name)
  clock : .apply ∉ done →
    clockOf (attrsAt ref s.world) =
      if .edit ∈ done then clockAfter e.hulyAt else clockAt ref w

section Run

variable {env : Env} (h : env.Healthy) {server : IssueServer} {binding : BindingRef}
  {bctx : BindingContext} (hload : env.loadBinding binding = .ok bctx) {doc : String} {e : Edits}
  {w : World} {i : SyncIssue} {done : List Step} {s : Sides}

theorem Progress.side {ref : Ref} (hs : Progress env server bctx ref e w i done s)
    (hord : Ordered Step.Requires done) :
    GitLabSide env bctx (StatusMap.entryOf env w.statusCache (toString bctx.gitlabProjectId)
      bctx.statuses) e i done (s.issue, s.record) := by
  rw [hs.gitlab]
  exact gitlabSide i hord

theorem recordOf_concat {a : Step} (ha : a ≠ .snapshot) :
    recordOf env server bctx e w i (done ++ [a]) = recordOf env server bctx e w i done := by
  unfold recordOf
  rw [Transition.exec_concat]
  cases a with
  | snapshot => exact absurd rfl ha
  | _ => rfl

theorem progress_edit
    (hs : Progress env server bctx (stripDocPrefix doc) e w i done s)
    (hnew : .edit ∉ done) :
    Progress env server bctx (stripDocPrefix doc) e w i (done ++ [.edit])
      (s.step env server binding bctx doc e .edit) := by
  obtain ⟨d, hdoc, hclass⟩ := hs.linked.doc
  have hwritten := editDoc_written hdoc hclass e.huly e.hulyAt
  have hshow := editDoc_eq hdoc e.huly e.hulyAt
  have hidmap : (editDoc (stripDocPrefix doc) e.huly e.hulyAt s.world).idmap = s.world.idmap := by
    rw [hshow]
  have hcache : (editDoc (stripDocPrefix doc) e.huly e.hulyAt s.world).statusCache =
      s.world.statusCache := by rw [hshow]
  have hmem : .edit ∈ done ++ [Step.edit] := by simp
  have hbefore : Before (done ++ [Step.edit]) .apply .edit ↔ .apply ∈ done := by
    rw [before_concat]
    constructor
    · rintro (hb | ⟨ha, -⟩)
      · exact absurd hb.right_mem hnew
      · exact ha
    · exact fun ha => .inr ⟨ha, rfl⟩
  have hclock : .apply ∈ done →
      clockMet (stripDocPrefix doc) w e (done ++ [.edit]) = clockMet (stripDocPrefix doc) w e done := by
    intro ha
    unfold clockMet
    rw [if_neg fun hn => hn.2 (hbefore.mpr ha), if_neg fun hn => hnew hn.1]
  have happly : .apply ∈ done ++ [Step.edit] ↔ .apply ∈ done := by simp
  exact {
    gitlab := by
      rw [Transition.exec_concat, ← hs.gitlab]
      rfl
    linked := hs.linked.of_row (hwritten.mapped hidmap hs.linked.toMapped) (by
      rw [show (s.step env server binding bctx doc e .edit).world.idmap = _ from hidmap])
    carries := hs.carries.trans (hwritten.carries hidmap hcache)
    pending := by
      intro hpend k
      have hold := hs.pending (by
        rintro ⟨ha, ht⟩
        exact hpend ⟨happly.mpr ha, by rwa [hclock ha, recordOf_concat (by decide)]⟩) k
      rw [show (s.step env server binding bctx doc e .edit).world =
        editDoc (stripDocPrefix doc) e.huly e.hulyAt s.world from rfl, localValue_editDoc hdoc]
      by_cases hk : k = e.huly.field
      · rw [if_pos hk, if_pos ⟨hk, hmem⟩]
      · rw [if_neg hk, if_neg fun hn => hk hn.1, hold, if_neg fun hn => hk hn.1]
    taken := by
      intro ha ht k
      have ha' := happly.mp ha
      rw [hclock ha', recordOf_concat (by decide)] at ht
      have hold := hs.taken ha' ht k
      rw [if_neg fun hn => hnew hn.2.right_mem] at hold
      rw [show (s.step env server binding bctx doc e .edit).world =
        editDoc (stripDocPrefix doc) e.huly e.hulyAt s.world from rfl, localValue_editDoc hdoc,
        recordOf_concat (by decide)]
      by_cases hk : k = e.huly.field
      · rw [if_pos ⟨hk, hbefore.mpr ha'⟩, if_pos hk]
      · rw [if_neg fun hn => hk hn.1, if_neg hk]
        exact hold.carry (hwritten.carries hidmap hcache)
    clock := by
      intro _
      rw [if_pos hmem]
      exact clockOf_editDoc hdoc e.huly e.hulyAt }

/-- A step that leaves the document alone. -/
theorem progress_quiet {a : Step} {s' : Sides}
    (hs : Progress env server bctx (stripDocPrefix doc) e w i done s)
    (hedit : a ≠ .edit) (happly : a ≠ .apply)
    (hrecord : .apply ∈ done →
      recordOf env server bctx e w i (done ++ [a]) = recordOf env server bctx e w i done)
    (hgitlab : (s'.issue, s'.record) = gitlabStep env server bctx e (StatusMap.entryOf env
      w.statusCache (toString bctx.gitlabProjectId) bctx.statuses) (s.issue, s.record) a)
    (hdocs : s'.world.docs = s.world.docs) (hlinked : Linked env bctx i.iid (stripDocPrefix doc) s'.world)
    (hcarries : Carries env bctx s.world s'.world) :
    Progress env server bctx (stripDocPrefix doc) e w i (done ++ [a]) s' := by
  have hattrs : attrsAt (stripDocPrefix doc) s'.world = attrsAt (stripDocPrefix doc) s.world := by
    unfold attrsAt
    rw [hdocs]
  have hmemEdit : .edit ∈ done ++ [a] ↔ .edit ∈ done := by
    rw [List.mem_append, List.mem_singleton]
    exact or_iff_left fun h => hedit h.symm
  have hmemApply : .apply ∈ done ++ [a] ↔ .apply ∈ done := by
    rw [List.mem_append, List.mem_singleton]
    exact or_iff_left fun h => happly h.symm
  have hbefore : Before (done ++ [a]) .apply .edit ↔ Before done .apply .edit := by
    rw [before_concat]
    exact or_iff_left fun h => hedit h.2.symm
  have hclock : clockMet (stripDocPrefix doc) w e (done ++ [a]) =
      clockMet (stripDocPrefix doc) w e done := by
    unfold clockMet
    simp only [hmemEdit, hbefore]
  exact {
    gitlab := by
      rw [Transition.exec_concat, ← hs.gitlab]
      exact hgitlab
    linked := hlinked
    carries := hs.carries.trans hcarries
    pending := by
      intro hpend k
      simp only [hattrs, hmemEdit]
      apply hs.pending
      rintro ⟨ha, ht⟩
      exact hpend ⟨hmemApply.mpr ha, by rwa [hclock, hrecord ha]⟩
    taken := by
      intro ha ht k
      have ha' := hmemApply.mp ha
      rw [hclock, hrecord ha'] at ht
      have hold := hs.taken ha' ht k
      simp only [hattrs, hbefore, hrecord ha']
      by_cases hk : k = e.huly.field ∧ Before done .apply .edit
      · rw [if_pos hk] at hold ⊢
        exact hold
      · rw [if_neg hk] at hold ⊢
        exact hold.carry hcarries
    clock := by
      intro ha
      simp only [hattrs, hmemEdit]
      exact hs.clock fun hn => ha (hmemApply.mpr hn) }

theorem updatesSince_of_pushed {iid : Int} {sent : Option Fields} {w w' : World}
    (hp : Pushed env bctx iid sent w w') :
    updatesSince bctx.gitlabProjectId iid w w' = sent.toList := by
  obtain ⟨rs, hrs, hsent⟩ := hp.requests
  unfold updatesSince
  rw [hrs, List.drop_left, hsent]

include h hload

theorem progress_push
    (hs : Progress env server bctx (stripDocPrefix doc) e w i done s)
    (hiid : s.issue.iid = i.iid) :
    Progress env server bctx (stripDocPrefix doc) e w i (done ++ [.push])
      (s.step env server binding bctx doc e .push) := by
  obtain ⟨r, w', hrun, hp⟩ := applyLocal_run h hload hs.linked.findByHuly
    (parseIid_projectKey env bctx i.iid) e.huly
  rw [hs.carries.entry] at hp
  have hworld : (s.step env server binding bctx doc e .push).world = w' := by
    show ((applyLocal env binding doc e.huly.change).run s.world).2 = w'
    rw [hrun]
  have hissue : (s.step env server binding bctx doc e .push).issue =
      e.huly.send env bctx (StatusMap.entryOf env w.statusCache (toString bctx.gitlabProjectId)
        bctx.statuses) server s.issue := by
    show (updatesSince bctx.gitlabProjectId s.issue.iid s.world
      ((applyLocal env binding doc e.huly.change).run s.world).2).foldl server.update s.issue = _
    rw [hrun, hiid, updatesSince_of_pushed hp]
    unfold HulyEdit.send
    cases e.huly.body env bctx _ <;> rfl
  have hcarries : Carries env bctx s.world w' := by
    refine ⟨hp.entry, ?_, ?_, ?_⟩
    · rw [hp.idmap]
      exact fun _ => rfl
    · rw [hp.docs]
      exact fun _ _ hn => hn
    · rw [hp.docs]
      exact fun _ _ hn => hn
  have hmapped : Mapped env bctx i.iid (stripDocPrefix doc) w' := by
    obtain ⟨hrow, hdoc, howned, htyped⟩ := hs.linked.toMapped
    refine ⟨?_, ?_, ?_, ?_⟩
    · rwa [hp.idmap]
    · rwa [hp.docs]
    · rwa [hp.idmap]
    · rwa [hp.docs]
  apply progress_quiet hs (by decide) (by decide) (fun _ => recordOf_concat (by decide))
  · rw [hissue]
    rfl
  · rw [hworld, hp.docs]
  · rw [hworld]
    exact hs.linked.of_row hmapped (by rw [hp.idmap])
  · rw [hworld]
    exact hcarries

theorem progress_apply
    (hs : Progress env server bctx (stripDocPrefix doc) e w i done s) (hnew : .apply ∉ done)
    {r : SyncIssue} (hrecord : s.record = some r) (hiid : r.iid = i.iid)
    (hdefined : ∀ k : ManagedField, localValue (attrsAt (stripDocPrefix doc) w) k.name ≠ .undefined) :
    Progress env server bctx (stripDocPrefix doc) e w i (done ++ [.apply])
      (s.step env server binding bctx doc e .apply) := by
  let ref := stripDocPrefix doc
  let w' := deliver env binding s.world r
  have hstep : s.step env server binding bctx doc e .apply = { s with world := w' } := by
    unfold Sides.step
    rw [hrecord]
  have hrec : recordOf env server bctx e w i (done ++ [.apply]) = r := by
    rw [recordOf_concat (by decide)]
    unfold recordOf
    rw [← hs.gitlab, hrecord]
    rfl
  have hd : Delivered env bctx ref s.world r w' :=
    delivered h hload r (by rw [hiid]; exact hs.linked.toMapped)
  obtain ⟨d, hdoc, -⟩ := hs.linked.doc
  have hafter : ¬ Before (done ++ [.apply]) .apply .edit := by
    rw [before_concat]
    rintro (hb | ⟨-, hn⟩)
    · exact hnew hb.left_mem
    · exact Step.noConfusion hn
  have hedit : .edit ∈ done ++ [Step.apply] ↔ .edit ∈ done := by simp
  have hmem : .apply ∈ done ++ [Step.apply] := by simp
  have hclock : clockMet ref w e (done ++ [.apply]) = clockAt ref s.world := by
    rw [clockAt_eq, hs.clock hnew]
    unfold clockMet
    simp only [hedit, hafter, not_false_eq_true, and_true, ref]
  have hvalue := hs.pending fun hn => hnew hn.1
  have hstatus : statusFor env bctx s.world r = statusFor env bctx w r := hs.carries.statusFor r
  exact {
    gitlab := by
      rw [Transition.exec_concat, ← hs.gitlab, hstep]
      rfl
    linked := by
      rw [hstep]
      exact hs.linked.of_row (hd.mapped hs.linked.toMapped) (hd.row _)
    carries := by
      rw [hstep]
      exact hs.carries.trans hd.carries
    pending := by
      intro hpend k
      rw [hrec, hclock] at hpend
      have hrej : ¬ statusFor env bctx s.world r ≠ none ∨
          ∃ c, clockAt ref s.world = some c ∧ r.updatedAt < c := by
        by_contra hcon
        rw [not_or] at hcon
        refine hpend ⟨hmem, ?_, fun c hc => ?_⟩
        · rw [← hstatus]
          exact Decidable.not_not.mp hcon.1
        · exact Nat.le_of_not_lt fun hlt => hcon.2 ⟨c, hc, hlt⟩
      have hkept : w'.docs.get? ref = some d := by
        apply hd.untouched hdoc _ hrej
        intro j hj
        obtain ⟨k, rfl⟩ := ManagedField.exists_name hj
        rw [← attrsAt_of_get hdoc, hvalue k]
        by_cases hk : k = e.huly.field ∧ .edit ∈ done
        · rw [if_pos hk]
          exact e.huly.value_ne_undefined
        · rw [if_neg hk]
          exact hdefined k
      rw [hstep]
      simp only [hedit]
      rw [← hvalue k, attrsAt_of_get hkept, attrsAt_of_get hdoc]
    taken := by
      intro _ ht k
      rw [hrec, hclock] at ht
      rw [hrec, hstep, if_neg fun hn => hafter hn.2]
      obtain ⟨d', hdoc', hagrees⟩ := hd.shows (by rw [hstatus]; exact ht.1) ht.2
      rw [attrsAt_of_get hdoc']
      exact agrees_iff.mp hagrees k
    clock := fun hn => absurd hmem hn }

/-- Every step of a schedule keeps the account of both systems. -/
theorem progress (hlinked : Linked env bctx i.iid (stripDocPrefix doc) w)
    (hshows : Shows env bctx (stripDocPrefix doc) w i) {sched : List Step}
    (hsched : Ordered Step.Requires sched) :
    Progress env server bctx (stripDocPrefix doc) e w i sched
      (Transition.exec (Sides.step env server binding bctx doc e) ⟨w, i, none⟩ sched) := by
  have hdefined : ∀ k : ManagedField,
      localValue (attrsAt (stripDocPrefix doc) w) k.name ≠ .undefined := by
    obtain ⟨d, hdoc, hagrees⟩ := hshows
    intro k
    rw [attrsAt_of_get hdoc]
    exact hagrees.defined k.name_mem
  apply hsched.exec_invariant
  · intro done a s hord hnew hreq hs
    have hside := hs.side hord
    cases a with
    | edit => exact progress_edit hs hnew
    | push => exact progress_push h hload hs hside.iid
    | gitlabEdit =>
      exact progress_quiet hs (by decide) (by decide) (fun _ => recordOf_concat (by decide)) rfl rfl
        hs.linked (Carries.refl _)
    | snapshot =>
      exact progress_quiet hs (by decide) (by decide)
        (fun ha => absurd (hord.mem_of_requires ha .apply) hnew) rfl rfl hs.linked (Carries.refl _)
    | apply =>
      obtain ⟨r, hr, hiid, -⟩ := hside.record (hreq _ .apply)
      exact progress_apply h hload hs hnew hr hiid hdefined
  · exact {
      gitlab := rfl
      linked := hlinked
      carries := Carries.refl _
      pending := fun _ k => by simp
      taken := fun ha => absurd ha List.not_mem_nil
      clock := fun _ => by simp [clockAt_eq] }

end Run

/-- Both systems have both edits. What the value of the edit of Huly refers to is read in the
state `w` before the edits. -/
structure BothKept (env : Env) (bctx : BindingContext) (ref : Ref) (e : Edits) (w : World)
    (s : Sides) : Prop where
  hulyHuly : localValue (attrsAt ref s.world) e.huly.field.name = e.huly.value
  hulyGitlab : FieldAgrees env bctx s.world (contentOf s.issue) e.gitlab.field
    (localValue (attrsAt ref s.world) e.gitlab.field.name)
  gitlabHuly : e.huly.HeldBy env bctx (StatusMap.entryOf env w.statusCache
    (toString bctx.gitlabProjectId) bctx.statuses) w (contentOf s.issue)
  gitlabGitlab : e.gitlab.put (contentOf s.issue) = contentOf s.issue

/-- Huly shows the edit of GitLab without having received it. -/
def Invisible (env : Env) (bctx : BindingContext) (ref : Ref) (e : Edits) (w : World)
    (i : SyncIssue) : Prop :=
  FieldAgrees env bctx w (e.gitlab.put (contentOf i)) e.gitlab.field
    (localValue (attrsAt ref w) e.gitlab.field.name)

/-- The change can be sent. A record applied before it is made has to be taken in; one applied
later that is taken in has to come from after the push and to read back as the edit. -/
structure Apart (env : Env) (server : IssueServer) (bctx : BindingContext) (ref : Ref) (e : Edits)
    (w : World) (i : SyncIssue) (sched : List Step) : Prop where
  reaches : e.huly.Reaches env bctx
  received : ¬ TakenIn env bctx w (clockMet ref w e sched)
    (recordOf env server bctx e w i sched) → Invisible env bctx ref e w i
  survives : TakenIn env bctx w (clockMet ref w e sched)
      (recordOf env server bctx e w i sched) →
    ¬ Before sched .apply .edit → Before sched .push .snapshot ∧
      e.huly.ReadsBack env bctx (StatusMap.entryOf env w.statusCache
        (toString bctx.gitlabProjectId) bctx.statuses)

section Handled

variable {env : Env} {server : IssueServer} {bctx : BindingContext} {ref : Ref} {e : Edits}
  {w : World} {i : SyncIssue} {sched : List Step} {s : Sides}
  (hs : Progress env server bctx ref e w i sched s) (hsched : Ordered Step.Requires sched)
  (hall : ∀ a, a ∈ sched)
include hs hsched hall

theorem record_handled :
    SameAt (contentOf (recordOf env server bctx e w i sched)) (if Before sched .push .snapshot
      then e.huly.put env bctx (StatusMap.entryOf env w.statusCache
        (toString bctx.gitlabProjectId) bctx.statuses) (contentOf i)
      else contentOf i) e.huly.field ∧
    SameAt (contentOf (recordOf env server bctx e w i sched)) (e.gitlab.put (contentOf i))
      e.gitlab.field := by
  obtain ⟨r, hr, -, hrest⟩ := (hs.side hsched).record (hall .snapshot)
  have hrec : recordOf env server bctx e w i sched = r := by
    unfold recordOf
    rw [← hs.gitlab, hr]
    rfl
  rw [hrec]
  exact hrest

/-- GitLab always has its own edit. -/
theorem gitlabGitlab_handled : e.gitlab.put (contentOf s.issue) = contentOf s.issue :=
  GitLabEdit.put_eq_of_sameAt ((hs.side hsched).changed (hall .gitlabEdit))

theorem gitlabHuly_iff
    (hchange : ¬ FieldAgrees env bctx w (contentOf i) e.huly.field e.huly.value) :
    e.huly.HeldBy env bctx (StatusMap.entryOf env w.statusCache (toString bctx.gitlabProjectId)
      bctx.statuses) w (contentOf s.issue) ↔ e.huly.Reaches env bctx := by
  have hedited := (hs.side hsched).edited
  rw [if_pos (hall .push)] at hedited
  exact (HulyEdit.heldBy_iff_of_sameAt hedited).trans (HulyEdit.heldBy_put_iff hchange)

theorem hulyGitlab_iff (hshows : Shows env bctx ref w i) :
    FieldAgrees env bctx s.world (contentOf s.issue) e.gitlab.field
        (localValue (attrsAt ref s.world) e.gitlab.field.name) ↔
      (¬ TakenIn env bctx w (clockMet ref w e sched) (recordOf env server bctx e w i sched) →
        Invisible env bctx ref e w i) := by
  have hchanged := (hs.side hsched).changed (hall .gitlabEdit)
  rw [hchanged.fieldAgrees_iff]
  by_cases ht : TakenIn env bctx w (clockMet ref w e sched) (recordOf env server bctx e w i sched)
  · have hvalue := hs.taken (hall .apply) ht e.gitlab.field
    rw [if_neg fun hn => e.distinct hn.1,
      (record_handled hs hsched hall).2.fieldAgrees_iff] at hvalue
    exact ⟨fun _ hn => absurd ht hn, fun _ => hvalue⟩
  · have hvalue := hs.pending (fun hn => ht hn.2) e.gitlab.field
    rw [if_neg fun hn => e.distinct hn.1] at hvalue
    obtain ⟨d, hdoc, hagrees⟩ := hshows
    have hshown := agrees_iff.mp hagrees e.gitlab.field
    rw [← attrsAt_of_get hdoc] at hshown
    rw [hvalue, hshown.carry_iff hs.carries]
    exact ⟨fun hv _ => hv, fun hv => hv ht⟩

theorem hulyHuly_iff (hreaches : e.huly.Reaches env bctx)
    (hchange : ¬ FieldAgrees env bctx w (contentOf i) e.huly.field e.huly.value) :
    localValue (attrsAt ref s.world) e.huly.field.name = e.huly.value ↔
      (TakenIn env bctx w (clockMet ref w e sched) (recordOf env server bctx e w i sched) →
        ¬ Before sched .apply .edit → Before sched .push .snapshot ∧
          e.huly.ReadsBack env bctx (StatusMap.entryOf env w.statusCache
            (toString bctx.gitlabProjectId) bctx.statuses)) := by
  by_cases ht : TakenIn env bctx w (clockMet ref w e sched) (recordOf env server bctx e w i sched)
  · have hvalue := hs.taken (hall .apply) ht e.huly.field
    by_cases hearly : Before sched .apply .edit
    · rw [if_pos ⟨rfl, hearly⟩] at hvalue
      exact ⟨fun _ _ hn => absurd hearly hn, fun _ => hvalue⟩
    · rw [if_neg fun hn => hearly hn.2] at hvalue
      have hsame := (record_handled hs hsched hall).1
      have hkept : localValue (attrsAt ref s.world) e.huly.field.name = e.huly.value ↔
          FieldAgrees env bctx w (contentOf (recordOf env server bctx e w i sched))
            e.huly.field e.huly.value := by
        rw [← hreaches.carry_iff hs.carries]
        exact ⟨fun hv => hv ▸ hvalue, fun hv => HulyEdit.eq_value hreaches hvalue hv⟩
      rw [hkept, hsame.fieldAgrees_iff]
      by_cases hseen : Before sched .push .snapshot
      · rw [if_pos hseen, HulyEdit.fieldAgrees_put_iff hreaches rfl]
        exact ⟨fun hv _ _ => ⟨hseen, hv⟩, fun hv => (hv ht hearly).2⟩
      · rw [if_neg hseen]
        exact ⟨fun hv => absurd hv hchange, fun hv => absurd (hv ht hearly).1 hseen⟩
  · have hvalue := hs.pending (fun hn => ht hn.2) e.huly.field
    rw [if_pos ⟨rfl, hall .edit⟩] at hvalue
    exact ⟨fun _ hn => absurd hn ht, fun _ => hvalue⟩

end Handled

/-- For a local change of one field and a GitLab change of another, in every order of the steps:
both systems have both in the end exactly when the edits are kept apart. -/
theorem bothKept_iff_apart (env : Env) (h : env.Healthy) (server : IssueServer)
    (binding : BindingRef) (bctx : BindingContext) (hload : env.loadBinding binding = .ok bctx)
    (doc : String) (w : World) (i : SyncIssue)
    (hlinked : Linked env bctx i.iid (stripDocPrefix doc) w)
    (hshows : Shows env bctx (stripDocPrefix doc) w i) (e : Edits)
    (hchange : ¬ FieldAgrees env bctx w (contentOf i) e.huly.field e.huly.value)
    (sched : List Step) (hsched : Ordered Step.Requires sched) (hall : ∀ a, a ∈ sched) :
    BothKept env bctx (stripDocPrefix doc) e w
        (Transition.exec (Sides.step env server binding bctx doc e) ⟨w, i, none⟩ sched) ↔
      Apart env server bctx (stripDocPrefix doc) e w i sched := by
  have hs : Progress env server bctx (stripDocPrefix doc) e w i sched
      (Transition.exec (Sides.step env server binding bctx doc e) ⟨w, i, none⟩ sched) :=
    progress h hload hlinked hshows hsched
  constructor
  · intro hk
    have hreaches := (gitlabHuly_iff hs hsched hall hchange).mp hk.gitlabHuly
    exact {
      reaches := hreaches
      received := (hulyGitlab_iff hs hsched hall hshows).mp hk.hulyGitlab
      survives := (hulyHuly_iff hs hsched hall hreaches hchange).mp hk.hulyHuly }
  · intro ha
    exact {
      hulyHuly := (hulyHuly_iff hs hsched hall ha.reaches hchange).mpr ha.survives
      hulyGitlab := (hulyGitlab_iff hs hsched hall hshows).mpr ha.received
      gitlabHuly := (gitlabHuly_iff hs hsched hall hchange).mpr ha.reaches
      gitlabGitlab := gitlabGitlab_handled hs hsched hall }

/-- An issue server for the bodies sent here; labels are separated by commas. -/
def plainServer : IssueServer where
  update i body :=
    { i with
      title := match body.field "title" with
        | .str text => text
        | _ => i.title
      description := match body.field "description" with
        | .str text => some text
        | _ => i.description
      state := if body.field "state_event" = .str "close" then .closed
        else if body.field "state_event" = .str "reopen" then .opened
        else i.state
      labels := match body.field "labels" with
        | .str names => if names = "" then [] else names.splitOn ","
        | _ => i.labels
      updatedAt := i.updatedAt + 1 }
  iid _ _ := rfl
  title _ _ := rfl
  description _ _ := rfl
  state_event _ state := by cases state <;> rfl
  no_labels _ := rfl

theorem mirroredWorld_linked :
    Linked (Env.quiet quietBinding) quietBinding 1 "doc" mirroredWorld :=
  ⟨mirroredWorld_mapped, by decide +kernel⟩

theorem mirroredWorld_shows :
    Shows (Env.quiet quietBinding) quietBinding "doc" mirroredWorld (titledVersion "a" 1).1 := by
  refine ⟨mirroredIssue, rfl, ?_⟩
  exact {
    title := rfl
    description := rfl
    status := ⟨"status:open", by decide +kernel, rfl⟩
    assignee := rfl
    milestone := rfl
    labels := ⟨[], rfl, fun ref hr => absurd hr List.not_mem_nil, by simp [titledVersion]⟩ }

/-- The title edited in Huly at 3, the description on GitLab at 4. -/
def titleAndDescription : Edits where
  huly := .title "b"
  hulyAt := 3
  gitlab := .description (some "d")
  gitlabAt := 4
  distinct := by decide

theorem ordered_pushFirst :
    Ordered Step.Requires [.edit, .push, .gitlabEdit, .snapshot, .apply] := by
  have h1 : Ordered Step.Requires [.edit] := .concat .nil (by decide) (fun _ h => nomatch h)
  have h2 : Ordered Step.Requires [.edit, .push] :=
    .concat h1 (by decide) (by rintro b ⟨⟩; decide)
  have h3 : Ordered Step.Requires [.edit, .push, .gitlabEdit] :=
    .concat h2 (by decide) (fun _ h => nomatch h)
  have h4 : Ordered Step.Requires [.edit, .push, .gitlabEdit, .snapshot] :=
    .concat h3 (by decide) (by rintro b ⟨⟩; decide)
  exact .concat h4 (by decide) (by rintro b ⟨⟩; decide)

theorem ordered_pushLast :
    Ordered Step.Requires [.edit, .gitlabEdit, .snapshot, .apply, .push] := by
  have h1 : Ordered Step.Requires [.edit] := .concat .nil (by decide) (fun _ h => nomatch h)
  have h2 : Ordered Step.Requires [.edit, .gitlabEdit] :=
    .concat h1 (by decide) (fun _ h => nomatch h)
  have h3 : Ordered Step.Requires [.edit, .gitlabEdit, .snapshot] :=
    .concat h2 (by decide) (by rintro b ⟨⟩; decide)
  have h4 : Ordered Step.Requires [.edit, .gitlabEdit, .snapshot, .apply] :=
    .concat h3 (by decide) (by rintro b ⟨⟩; decide)
  exact .concat h4 (by decide) (by rintro b ⟨⟩; decide)

/-- Pushed before the record is taken, both edits survive. -/
theorem bothKept_pushFirst :
    BothKept (Env.quiet quietBinding) quietBinding "doc" titleAndDescription mirroredWorld
      (Transition.exec (Sides.step (Env.quiet quietBinding) plainServer "b" quietBinding "doc"
        titleAndDescription) ⟨mirroredWorld, (titledVersion "a" 1).1, none⟩
        [.edit, .push, .gitlabEdit, .snapshot, .apply]) := by
  apply (bothKept_iff_apart (Env.quiet quietBinding) (Env.quiet_healthy _) plainServer "b"
    quietBinding rfl "doc" mirroredWorld (titledVersion "a" 1).1 mirroredWorld_linked
    mirroredWorld_shows titleAndDescription (fun h => absurd (JsValue.str.inj h) (by decide)) _
    ordered_pushFirst (fun a => by cases a <;> decide)).mpr
  exact {
    reaches := trivial
    received := fun hn => absurd ⟨by decide +kernel, fun c hc => by
      have h3 : some c = some 3 := hc.symm.trans (by decide +kernel)
      rw [Option.some.inj h3]
      decide +kernel⟩ hn
    survives := fun _ _ => ⟨by decide, trivial⟩ }

/-- The record is taken before the push and is newer: the title of Huly is lost there. -/
theorem not_bothKept_pushLast :
    Linked (Env.quiet quietBinding) quietBinding 1 "doc" mirroredWorld ∧
    Shows (Env.quiet quietBinding) quietBinding "doc" mirroredWorld (titledVersion "a" 1).1 ∧
    Ordered Step.Requires [.edit, .gitlabEdit, .snapshot, .apply, .push] ∧
    titleAndDescription.hulyAt ≠ titleAndDescription.gitlabAt ∧
    ¬ BothKept (Env.quiet quietBinding) quietBinding "doc" titleAndDescription mirroredWorld
      (Transition.exec (Sides.step (Env.quiet quietBinding) plainServer "b" quietBinding "doc"
        titleAndDescription) ⟨mirroredWorld, (titledVersion "a" 1).1, none⟩
        [.edit, .gitlabEdit, .snapshot, .apply, .push]) := by
  refine ⟨mirroredWorld_linked, mirroredWorld_shows, ordered_pushLast, by decide, fun hk => ?_⟩
  have hlost : localValue (attrsAt "doc" (Transition.exec (Sides.step (Env.quiet quietBinding)
      plainServer "b" quietBinding "doc" titleAndDescription)
      ⟨mirroredWorld, (titledVersion "a" 1).1, none⟩
      [.edit, .gitlabEdit, .snapshot, .apply, .push]).world) "title" = .str "a" := by
    decide +kernel
  exact absurd (JsValue.str.inj (hlost.symm.trans hk.hulyHuly)) (by decide)

end HulyGitlab.Issues
