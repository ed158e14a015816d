import HulyGitlab.Sync.IssuesEdits
import HulyGitlab.Sync.LocalPush

/-!
# Issues that are edited in turn

The mirrored issues of a binding, edited in Huly and on GitLab one after the
other. An edit of Huly is pushed before the next event; one of GitLab is
delivered. A record of an issue may be delivered again at any time.
-/

namespace HulyGitlab.Issues

open NamedDocs UserIdentity

/-- An event, and the mirrored issue it is about. -/
inductive Round (D : Type)
  | edit (d : D) (x : HulyEdit) (modifiedOn : Nat)
  | gitlabEdit (d : D) (x : GitLabEdit) (updatedAt : Nat)
  | delivery (d : D)

/-- The documents with everything around them, and the issues of GitLab. -/
structure Copies (D : Type) where
  world : World
  issue : D → SyncIssue

namespace Copies

section Step

variable {D : Type} [DecidableEq D] (env : Env) (server : IssueServer) (binding : BindingRef)
  (bctx : BindingContext) (doc : D → String)

/-- `applyLocal` on the change; GitLab takes in what it is sent. -/
def push (d : D) (change : Fields) (s : Copies D) : Copies D :=
  let w := ((applyLocal env binding (doc d) change).run s.world).2
  { world := w
    issue := fun d' =>
      (updatesSince bctx.gitlabProjectId (s.issue d').iid s.world w).foldl server.update
        (s.issue d') }

def step (s : Copies D) : Round D → Copies D
  | .edit d x modifiedOn =>
      push env server binding bctx doc d x.change
        { s with world := editDoc (stripDocPrefix (doc d)) x modifiedOn s.world }
  | .gitlabEdit d x updatedAt =>
      let i := x.apply updatedAt (s.issue d)
      ⟨deliver env binding s.world i, Function.update s.issue d i⟩
  | .delivery d => { s with world := deliver env binding s.world (s.issue d) }

/-- Each document is mapped to its issue and shows it. -/
def InAgreement (s : Copies D) : Prop :=
  ∀ d, Linked env bctx (s.issue d).iid (stripDocPrefix (doc d)) s.world ∧
    Shows env bctx (stripDocPrefix (doc d)) s.world (s.issue d)

def entry (s : Copies D) : ProjectCacheEntry :=
  StatusMap.entryOf env s.world.statusCache (toString bctx.gitlabProjectId) bctx.statuses

/-- An edit of Huly can be sent and is read back as it is, or changes nothing; an edit of GitLab is
taken in, or is shown already. -/
def Carried (s : Copies D) : Round D → Prop
  | .edit d x _ =>
      (x.Reaches env bctx → x.ReadsBack env bctx (s.entry env bctx)) ∧
        (¬ x.Reaches env bctx →
          FieldAgrees env bctx s.world (contentOf (s.issue d)) x.field x.value)
  | .gitlabEdit d x updatedAt =>
      TakenIn env bctx s.world (clockAt (stripDocPrefix (doc d)) s.world)
          (x.apply updatedAt (s.issue d)) ∨
        FieldAgrees env bctx s.world (x.put (contentOf (s.issue d))) x.field
          (localValue (attrsAt (stripDocPrefix (doc d)) s.world) x.field.name)
  | .delivery _ => True

end Step

end Copies

section Frame

variable {env : Env} {bctx : BindingContext} {ref other : Ref} {w w' : World} {i : SyncIssue}

theorem IssueWritten.symm {docs docs' : OrderedMap Ref HulyDoc} (h : IssueWritten ref docs docs') :
    IssueWritten ref docs' docs :=
  ⟨h.after, h.before, fun r hr => (h.others r hr).symm⟩

/-- A delivery leaves the documents of other issues alone. -/
theorem Delivered.kept {doc : HulyDoc} (hd : Delivered env bctx ref w i w') (hne : other ≠ ref)
    (hdoc : w.docs.get? other = some doc) : w'.docs.get? other = some doc := by
  cases hd with
  | skipped _ hw => exact hw.kept other doc hdoc
  | updated w₁ r doc' hw _ _ _ _ hothers => exact (hothers other hne).trans (hw.kept other doc hdoc)

/-- Whoever shows an issue goes on to show it where its document and the meaning of its references
are kept. -/
theorem Shows.carry (h : Shows env bctx ref w i)
    (hkept : ∀ doc, w.docs.get? ref = some doc → w'.docs.get? ref = some doc)
    (hc : Carries env bctx w w') : Shows env bctx ref w' i := by
  obtain ⟨doc, hdoc, hagrees⟩ := h
  exact ⟨doc, hkept doc hdoc, hagrees.carry hc⟩

theorem shows_iff {doc : HulyDoc} (hdoc : w.docs.get? ref = some doc) :
    Shows env bctx ref w i ↔ ∀ k : ManagedField,
      FieldAgrees env bctx w (contentOf i) k (localValue (attrsAt ref w) k.name) := by
  rw [attrsAt_of_get hdoc, ← agrees_iff]
  constructor
  · rintro ⟨doc', hdoc', hagrees⟩
    rw [hdoc] at hdoc'
    cases hdoc'
    exact hagrees
  · exact fun hagrees => ⟨doc, hdoc, hagrees⟩

theorem rejected_of_not_takenIn (h : ¬ TakenIn env bctx w (clockAt ref w) i) :
    ¬ statusFor env bctx w i ≠ none ∨ ∃ c, clockAt ref w = some c ∧ i.updatedAt < c := by
  by_contra hcon
  rw [not_or] at hcon
  refine h ⟨Decidable.not_not.mp hcon.1, fun c hc => ?_⟩
  exact Nat.le_of_not_lt fun hlt => hcon.2 ⟨c, hc, hlt⟩

end Frame

namespace HulyEdit

variable {env : Env} {bctx : BindingContext} {entry : ProjectCacheEntry}

/-- What cannot be sent does not change the issue. -/
theorem put_of_not_reaches {x : HulyEdit} (hx : ¬ x.Reaches env bctx) (c : Content) :
    x.put env bctx entry c = c := by
  cases x with
  | title text => exact absurd trivial hx
  | description markup =>
    cases ht : env.markupToGfmMarkdown (.str markup) (issueRefUrl bctx) (imageUrl bctx) with
    | ok text => exact absurd ⟨text, ht⟩ hx
    | error e => exact put_description_error ht c
  | status ref => exact absurd trivial hx
  | assignee person => rfl
  | milestone ref => rfl
  | labels refs =>
    cases refs with
    | nil => exact absurd trivial hx
    | cons ref refs => rfl

end HulyEdit

theorem Linked.elsewhere {env : Env} {bctx : BindingContext} {iid iid' : Int} {ref other : Ref}
    {w w' : World} (h : Linked env bctx iid other w) (hm : Mapped env bctx iid' ref w')
    (hrow : ∀ gitlabId, w'.idmap.findByGitlab bctx.workspaceUuid .issue gitlabId =
      w.idmap.findByGitlab bctx.workspaceUuid .issue gitlabId)
    (hkept : ∀ doc, w.docs.get? other = some doc → w'.docs.get? other = some doc) :
    Linked env bctx iid other w' := by
  obtain ⟨doc, hdoc, hclass⟩ := h.doc
  refine h.of_row ⟨?_, ⟨doc, hkept doc hdoc, hclass⟩, hm.owned, hm.typed⟩ (hrow _)
  rw [hrow]
  exact h.row

namespace Copies

section Rounds

variable {D : Type} [DecidableEq D] {env : Env} {server : IssueServer} {binding : BindingRef}
  {bctx : BindingContext} {doc : D → String} {s : Copies D} {d : D}

/-- After a delivery everything agrees if the document of the issue does. -/
theorem inAgreement_deliver (h : env.Healthy) (hload : env.loadBinding binding = .ok bctx)
    (hdoc : Function.Injective fun d => stripDocPrefix (doc d))
    (hs : s.InAgreement env bctx doc) {i : SyncIssue} (hiid : i.iid = (s.issue d).iid) :
    InAgreement env bctx doc ⟨deliver env binding s.world i, Function.update s.issue d i⟩ ↔
      Shows env bctx (stripDocPrefix (doc d)) (deliver env binding s.world i) i := by
  obtain ⟨hlinked, -⟩ := hs d
  have hd : Delivered env bctx (stripDocPrefix (doc d)) s.world i (deliver env binding s.world i) :=
    delivered h hload i (by rw [hiid]; exact hlinked.toMapped)
  have hmapped := hd.mapped hlinked.toMapped
  constructor
  · intro hagree
    obtain ⟨-, hshows⟩ := hagree d
    dsimp only at hshows
    rwa [Function.update_self] at hshows
  · intro hshows d'
    dsimp only
    by_cases hd' : d' = d
    · subst hd'
      rw [Function.update_self, hiid]
      exact ⟨hlinked.of_row hmapped (hd.row _), hshows⟩
    · rw [Function.update_of_ne hd']
      have hne : stripDocPrefix (doc d') ≠ stripDocPrefix (doc d) := fun heq => hd' (hdoc heq)
      obtain ⟨hlinked', hshows'⟩ := hs d'
      exact ⟨hlinked'.elsewhere hmapped hd.row fun _ hold => hd.kept hne hold,
        hshows'.carry (fun _ hold => hd.kept hne hold) hd.carries⟩

omit [DecidableEq D] in
/-- The document shows a record that was delivered exactly if it took the record in or showed it
already. -/
theorem shows_deliver_iff (h : env.Healthy) (hload : env.loadBinding binding = .ok bctx)
    (hs : s.InAgreement env bctx doc) (x : GitLabEdit) (updatedAt : Nat) :
    Shows env bctx (stripDocPrefix (doc d))
        (deliver env binding s.world (x.apply updatedAt (s.issue d)))
        (x.apply updatedAt (s.issue d)) ↔
      s.Carried env bctx doc (.gitlabEdit d x updatedAt) := by
  obtain ⟨hlinked, hshows⟩ := hs d
  have hiid := GitLabEdit.iid_apply x updatedAt (s.issue d)
  have hd := delivered h hload (x.apply updatedAt (s.issue d))
    (by rw [hiid]; exact hlinked.toMapped)
  by_cases htaken : TakenIn env bctx s.world (clockAt (stripDocPrefix (doc d)) s.world)
      (x.apply updatedAt (s.issue d))
  · exact ⟨fun _ => .inl htaken, fun _ => hd.shows htaken.1 htaken.2⟩
  · have hrejected : ¬ statusFor env bctx s.world (x.apply updatedAt (s.issue d)) ≠ none ∨
        ∃ c, clockAt (stripDocPrefix (doc d)) s.world = some c ∧
          (x.apply updatedAt (s.issue d)).updatedAt < c := by
      by_contra hcon
      rw [not_or] at hcon
      refine htaken ⟨Decidable.not_not.mp hcon.1, fun c hc => ?_⟩
      exact Nat.le_of_not_lt fun hlt => hcon.2 ⟨c, hc, hlt⟩
    obtain ⟨old, hold, hagrees⟩ := hshows
    have hkept := hd.untouched hold (fun k hk => hagrees.defined hk) hrejected
    have hvalue := agrees_iff.mp hagrees
    rw [← attrsAt_of_get hold] at hvalue
    have hattrs : attrsAt (stripDocPrefix (doc d))
        (deliver env binding s.world (x.apply updatedAt (s.issue d))) =
          attrsAt (stripDocPrefix (doc d)) s.world :=
      (attrsAt_of_get hkept).trans (attrsAt_of_get hold).symm
    rw [shows_iff hkept, hattrs, GitLabEdit.contentOf_apply]
    constructor
    · intro hnew
      exact .inr (((hvalue x.field).carry_iff hd.carries _).mp (hnew x.field))
    · rintro (hcarried | hcarried) k
      · exact absurd hcarried htaken
      · by_cases hk : x.field = k
        · subst hk
          exact hcarried.carry hd.carries
        · rw [(GitLabEdit.sameAt_put_of_ne hk _).fieldAgrees_iff]
          exact (hvalue k).carry hd.carries

omit [DecidableEq D] in
/-- A record of the issue as it is changes nothing that does not agree with it. -/
theorem shows_redelivered (h : env.Healthy) (hload : env.loadBinding binding = .ok bctx)
    (hs : s.InAgreement env bctx doc) :
    Shows env bctx (stripDocPrefix (doc d)) (deliver env binding s.world (s.issue d))
      (s.issue d) := by
  obtain ⟨hlinked, hshows⟩ := hs d
  have hd := delivered h hload (s.issue d) hlinked.toMapped
  by_cases htaken : TakenIn env bctx s.world (clockAt (stripDocPrefix (doc d)) s.world) (s.issue d)
  · exact hd.shows htaken.1 htaken.2
  · exact hd.keeps hshows (rejected_of_not_takenIn htaken)

omit [DecidableEq D] in
theorem updatesSince_elsewhere {iid : Int} {w w' : World}
    (hsends : Effect.Appends World.requests
      (fun r => updateOf bctx.gitlabProjectId iid r = none) w w') :
    updatesSince bctx.gitlabProjectId iid w w' = [] := by
  obtain ⟨rs, hrs, hnone⟩ := hsends
  unfold updatesSince
  rw [hrs, List.drop_left]
  exact List.filterMap_eq_nil_iff.mpr hnone

omit [DecidableEq D] in
theorem InAgreement.iid_ne (hs : s.InAgreement env bctx doc)
    (hdoc : Function.Injective fun d => stripDocPrefix (doc d)) {d' : D} (hne : d' ≠ d) :
    (s.issue d').iid ≠ (s.issue d).iid := by
  intro heq
  have hlink := (hs d').1.link
  rw [heq, (hs d).1.link] at hlink
  exact hne (hdoc (congrArg IdMapDoc.hulyRef (Option.some.inj hlink)).symm)

/-- What an edit of Huly and its push make of both sides. -/
structure Edited (env : Env) (server : IssueServer) (bctx : BindingContext) (doc : D → String)
    (d : D) (x : HulyEdit) (modifiedOn : Nat) (s s' : Copies D) : Prop where
  docs : s'.world.docs = (editDoc (stripDocPrefix (doc d)) x modifiedOn s.world).docs
  idmap : s'.world.idmap = s.world.idmap
  entry : s'.entry env bctx = s.entry env bctx
  issue : s'.issue =
    Function.update s.issue d (x.send env bctx (s.entry env bctx) server (s.issue d))

theorem edited (h : env.Healthy) (hload : env.loadBinding binding = .ok bctx)
    (hdoc : Function.Injective fun d => stripDocPrefix (doc d))
    (hs : s.InAgreement env bctx doc) (x : HulyEdit) (modifiedOn : Nat) :
    Edited env server bctx doc d x modifiedOn s
      (s.step env server binding bctx doc (.edit d x modifiedOn)) := by
  obtain ⟨hlinked, -⟩ := hs d
  obtain ⟨old, hold, hclass⟩ := hlinked.doc
  let w₁ := editDoc (stripDocPrefix (doc d)) x modifiedOn s.world
  have hw₁ : w₁ = _ := editDoc_eq hold x modifiedOn
  have hidmap : w₁.idmap = s.world.idmap := by rw [hw₁]
  have hcache : w₁.statusCache = s.world.statusCache := by rw [hw₁]
  have hrow : w₁.idmap.findByHuly bctx.workspaceUuid issueClass (stripDocPrefix (doc d)) =
      some ⟨bctx.workspaceUuid, .issue, projectKey env bctx (.num (s.issue d).iid), issueClass,
        stripDocPrefix (doc d)⟩ := by
    rw [hidmap]
    exact hlinked.findByHuly
  have hiid := parseIid_projectKey env bctx (s.issue d).iid
  obtain ⟨r, w', hrun, hp⟩ := applyLocal_run h hload hrow hiid x
  have hworld : ((applyLocal env binding (doc d) x.change).run w₁).2 = w' := by rw [hrun]
  rw [hcache] at hp
  refine ⟨?_, ?_, ?_, ?_⟩
  · exact (congrArg World.docs hworld).trans hp.docs
  · exact (congrArg World.idmap hworld).trans (hp.idmap.trans hidmap)
  · unfold entry
    rw [show (s.step env server binding bctx doc (.edit d x modifiedOn)).world = w' from hworld,
      hp.entry, hcache]
  · funext d'
    change (updatesSince bctx.gitlabProjectId (s.issue d').iid w₁
      ((applyLocal env binding (doc d) x.change).run w₁).2).foldl server.update (s.issue d') = _
    by_cases hd' : d' = d
    · subst hd'
      rw [hworld, updatesSince_of_pushed hp, Function.update_self]
      unfold HulyEdit.send entry
      cases x.body env bctx _ <;> rfl
    · have hother : (s.issue d').iid ≠ (s.issue d).iid := hs.iid_ne hdoc hd'
      rw [Function.update_of_ne hd', updatesSince_elsewhere]
      · rfl
      · refine applyLocal_sends hload hrow (fun r hr => ?_) fun _ iid hparse body => ?_
        · cases r <;> first | rfl | exact hr.elim
        · obtain rfl := Option.some.inj (hiid.symm.trans hparse)
          exact if_neg fun hboth => hother hboth.2.symm

section Edited

variable {x : HulyEdit} {modifiedOn : Nat} {s' : Copies D}
  (he : Edited env server bctx doc d x modifiedOn s s')
include he

theorem Edited.written (hs : s.InAgreement env bctx doc) :
    IssueWritten (stripDocPrefix (doc d)) s.world.docs s'.world.docs := by
  obtain ⟨old, hold, hclass⟩ := (hs d).1.doc
  rw [he.docs]
  exact editDoc_written hold hclass x modifiedOn

theorem Edited.carries (hs : s.InAgreement env bctx doc) : Carries env bctx s.world s'.world where
  entry := he.entry
  guests := by rw [he.idmap]; exact fun _ => rfl
  tags := fun _ _ hn => (he.written hs).names tagElementClass_ne_issueClass hn
  milestones := fun _ _ hn => (he.written hs).names milestoneClass_ne_issueClass hn

/-- An edit changes no meaning, so it can be read off in the state before as well. -/
theorem Edited.carried (hs : s.InAgreement env bctx doc) : Carries env bctx s'.world s.world where
  entry := he.entry.symm
  guests := by rw [he.idmap]; exact fun _ => rfl
  tags := fun _ _ hn => (he.written hs).symm.names tagElementClass_ne_issueClass hn
  milestones := fun _ _ hn => (he.written hs).symm.names milestoneClass_ne_issueClass hn

theorem Edited.mapped (hs : s.InAgreement env bctx doc) :
    Mapped env bctx (s.issue d).iid (stripDocPrefix (doc d)) s'.world := by
  obtain ⟨hrow, -, howned, htyped⟩ := (hs d).1.toMapped
  have hwritten := he.written hs
  refine ⟨?_, hwritten.after, ?_, hwritten.typed tagElementClass_ne_issueClass htyped.1,
    hwritten.typed milestoneClass_ne_issueClass htyped.2⟩
  · rwa [he.idmap]
  · rwa [he.idmap]

/-- After an edit everything agrees if GitLab has the value of the edit. -/
theorem Edited.inAgreement_iff (hdoc : Function.Injective fun d => stripDocPrefix (doc d))
    (hs : s.InAgreement env bctx doc) :
    s'.InAgreement env bctx doc ↔
      FieldAgrees env bctx s.world (x.put env bctx (s.entry env bctx) (contentOf (s.issue d)))
        x.field x.value := by
  have hwritten := he.written hs
  have hself : s'.issue d = x.send env bctx (s.entry env bctx) server (s.issue d) := by
    rw [he.issue, Function.update_self]
  have hcontent : contentOf (s'.issue d) =
      x.put env bctx (s.entry env bctx) (contentOf (s.issue d)) := by
    rw [hself, HulyEdit.contentOf_send]
  have hiid : (s'.issue d).iid = (s.issue d).iid := by rw [hself, HulyEdit.iid_send]
  obtain ⟨hlinked, old, hold, hagrees⟩ := hs d
  obtain ⟨new, hnew, -⟩ := hwritten.after
  have hvalue : ∀ k : ManagedField,
      localValue (attrsAt (stripDocPrefix (doc d)) s'.world) k.name =
        if k = x.field then x.value
        else localValue (attrsAt (stripDocPrefix (doc d)) s.world) k.name := by
    intro k
    rw [← localValue_editDoc hold x modifiedOn k]
    unfold attrsAt
    rw [he.docs]
  constructor
  · intro hagree
    have hfield := (shows_iff hnew).mp (hagree d).2 x.field
    rw [hvalue, if_pos rfl, hcontent] at hfield
    exact hfield.carry (he.carried hs)
  · intro hfield d'
    by_cases hd' : d' = d
    · subst hd'
      refine ⟨?_, (shows_iff hnew).mpr fun k => ?_⟩
      · rw [hiid]
        exact hlinked.of_row (he.mapped hs) (by rw [he.idmap])
      · rw [hvalue, hcontent]
        by_cases hk : k = x.field
        · subst hk
          rw [if_pos rfl]
          exact hfield.carry (he.carries hs)
        · rw [if_neg hk, (HulyEdit.sameAt_put_of_ne (fun heq => hk heq.symm) _).fieldAgrees_iff,
            attrsAt_of_get hold]
          exact (agrees_iff.mp hagrees k).carry (he.carries hs)
    · have hne : stripDocPrefix (doc d') ≠ stripDocPrefix (doc d) := fun heq => hd' (hdoc heq)
      have hkept : ∀ other, s.world.docs.get? (stripDocPrefix (doc d')) = some other →
          s'.world.docs.get? (stripDocPrefix (doc d')) = some other :=
        fun _ hother => (hwritten.others _ hne).trans hother
      rw [he.issue, Function.update_of_ne hd']
      exact ⟨(hs d').1.elsewhere (he.mapped hs) (by rw [he.idmap]; exact fun _ => rfl) hkept,
        (hs d').2.carry hkept (he.carries hs)⟩

end Edited

/-- An event keeps the copies in agreement exactly when it is carried over. -/
theorem inAgreement_step_iff (h : env.Healthy) (hload : env.loadBinding binding = .ok bctx)
    (hdoc : Function.Injective fun d => stripDocPrefix (doc d)) (hs : s.InAgreement env bctx doc)
    (r : Round D) :
    (s.step env server binding bctx doc r).InAgreement env bctx doc ↔
      s.Carried env bctx doc r := by
  cases r with
  | edit d x modifiedOn =>
    rw [(edited h hload hdoc hs x modifiedOn).inAgreement_iff hdoc hs]
    by_cases hx : x.Reaches env bctx
    · have hentry : s.entry env bctx = s.entry env bctx := rfl
      refine (HulyEdit.fieldAgrees_put_iff hx hentry _).trans ?_
      exact ⟨fun hreads => ⟨fun _ => hreads, fun hn => absurd hx hn⟩, fun hc => hc.1 hx⟩
    · rw [HulyEdit.put_of_not_reaches hx]
      exact ⟨fun hsame => ⟨fun hn => absurd hn hx, fun _ => hsame⟩, fun hc => hc.2 hx⟩
  | gitlabEdit d x updatedAt =>
    exact (inAgreement_deliver h hload hdoc hs (GitLabEdit.iid_apply x updatedAt _)).trans
      (shows_deliver_iff h hload hs x updatedAt)
  | delivery d =>
    have hdelivered := (inAgreement_deliver h hload hdoc hs rfl).mpr
      (shows_redelivered (d := d) h hload hs)
    rw [Function.update_eq_self] at hdelivered
    exact ⟨fun _ => trivial, fun _ => hdelivered⟩

end Rounds

end Copies

/-- The copies agree after every event exactly when every event is carried over. -/
theorem inAgreement_iff_carried {D : Type} [DecidableEq D] (env : Env) (h : env.Healthy)
    (server : IssueServer) (binding : BindingRef) (bctx : BindingContext)
    (hload : env.loadBinding binding = .ok bctx) (doc : D → String)
    (hdoc : Function.Injective fun d => stripDocPrefix (doc d)) (s : Copies D)
    (hs : s.InAgreement env bctx doc) (rounds : List (Round D)) :
    Transition.Throughout (Copies.step env server binding bctx doc)
        (Copies.InAgreement env bctx doc) s rounds ↔
      Transition.Along (Copies.step env server binding bctx doc) (Copies.Carried env bctx doc) s
        rounds := by
  refine Transition.throughout_iff_along (I := fun _ => True) ?_ ?_ trivial hs
  · exact fun s r _ hs hr => ⟨trivial, (Copies.inAgreement_step_iff h hload hdoc hs r).mpr hr⟩
  · exact fun s r _ hs hr hnext => hr ((Copies.inAgreement_step_iff h hload hdoc hs r).mp hnext)

/-- The title is edited in Huly, then the description on GitLab, and the record comes once more. -/
def inTurn : List (Round Unit) :=
  [.edit () (.title "b") 3, .gitlabEdit () (.description (some "d")) 5, .delivery ()]

theorem inAgreement_inTurn :
    Transition.Throughout
      (Copies.step (Env.quiet quietBinding) plainServer "b" quietBinding fun _ => "doc")
      (Copies.InAgreement (Env.quiet quietBinding) quietBinding fun _ => "doc")
      ⟨mirroredWorld, fun _ => (titledVersion "a" 1).1⟩ inTurn := by
  have hdoc : stripDocPrefix "doc" = "doc" := by decide +kernel
  have hs : Copies.InAgreement (Env.quiet quietBinding) quietBinding (fun _ => "doc")
      (⟨mirroredWorld, fun _ => (titledVersion "a" 1).1⟩ : Copies Unit) := by
    intro d
    rw [hdoc]
    exact ⟨mirroredWorld_linked, mirroredWorld_shows⟩
  refine (inAgreement_iff_carried (Env.quiet quietBinding) (Env.quiet_healthy _) plainServer "b"
    quietBinding rfl (fun _ => "doc") (Function.injective_of_subsingleton _) _ hs inTurn).mpr ?_
  refine ⟨⟨fun _ => trivial, fun hn => absurd trivial hn⟩, .inl ⟨by decide +kernel, ?_⟩, trivial,
    trivial⟩
  intro c hc
  have h3 : some c = some 3 := hc.symm.trans (by decide +kernel)
  rw [Option.some.inj h3]
  decide +kernel

end HulyGitlab.Issues
