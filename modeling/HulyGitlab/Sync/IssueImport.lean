import HulyGitlab.Sync.IssueRounds
import HulyGitlab.Sync.KeyDecoding
import HulyGitlab.Sync.MirrorCreation

/-!
# The first import of the issues

The records of a backfill, applied one after the other to a store that knows
none of the issues, in any order and any of them again. Each issue gets one
document, which shows it, and nothing that was there before changes.
-/

namespace HulyGitlab.Issues

open NamedDocs UserIdentity

theorem projectKey_num_injective (env : Env) (bctx : BindingContext) {m n : Int}
    (h : projectKey env bctx (.num m) = projectKey env bctx (.num n)) : m = n := by
  have hread := congrArg parseProjectIid h
  rw [parseProjectIid_projectKey, parseProjectIid_projectKey] at hread
  exact (Prod.mk.inj (Option.some.inj hread)).2

/-- The attributes of a new document, over the time the platform sets. -/
def createdAttrs (bctx : BindingContext) (r : RemoteIssue) (remoteTs : JsDate) (now : Nat) :
    Fields :=
  Fields.assign [("modifiedOn", .num now)] (createAttributes bctx r remoteTs)

theorem createAttributes_keys (bctx : BindingContext) (r : RemoteIssue) (remoteTs : JsDate) :
    (createAttributes bctx r remoteTs).map Prod.fst =
      ["title", "description", "status", "priority", "assignee", "labels", "milestone", "kind",
        "modifiedOn", "_originated"] := rfl

/-- The attributes of the new document win over the time the platform sets. -/
theorem field_createdAttrs_of_mem (bctx : BindingContext) (r : RemoteIssue) (remoteTs : JsDate)
    (now : Nat) {k : String} (hk : k ∈ (createAttributes bctx r remoteTs).map Prod.fst) :
    (createdAttrs bctx r remoteTs now).field k = (createAttributes bctx r remoteTs).field k := by
  apply Fields.field_assign_of_mem _ _ hk
  rw [createAttributes_keys]
  decide

theorem field_createdAttrs (bctx : BindingContext) (r : RemoteIssue) (remoteTs : JsDate)
    (now : Nat) {k : String} (hk : k ∈ managedFields) :
    (createdAttrs bctx r remoteTs now).field k = r.value k := by
  have hmem : k ∈ (createAttributes bctx r remoteTs).map Prod.fst := by
    rw [createAttributes_keys]
    revert k
    decide
  rw [field_createdAttrs_of_mem bctx r remoteTs now hmem]
  simp only [managedFields, List.mem_cons, List.not_mem_nil, or_false] at hk
  obtain rfl | rfl | rfl | rfl | rfl | rfl := hk <;> rfl

theorem clockOf_createdAttrs (bctx : BindingContext) (r : RemoteIssue) (ts now : Nat) :
    clockOf (createdAttrs bctx r (some ts) now) = clockAfter ts := by
  have hfield : (createdAttrs bctx r (some ts) now).field "modifiedOn" = .num ts := by
    rw [field_createdAttrs_of_mem bctx r _ now (by rw [createAttributes_keys]; decide)]
    rfl
  unfold clockOf clockAfter
  rw [hfield]
  by_cases hts : 0 < ts
  · simp [hts]
  · simp [hts]

/-- A new document shows the record it was made from. -/
theorem agrees_createdAttrs {env : Env} {bctx : BindingContext} {w : World} {i : SyncIssue}
    {r : RemoteIssue} (hr : Resolves env bctx w i r) (remoteTs : JsDate) (now : Nat) :
    Agrees env bctx w i (localValue (createdAttrs bctx r remoteTs now)) := by
  have hvalue : ∀ k ∈ managedFields,
      localValue (createdAttrs bctx r remoteTs now) k = r.value k := by
    intro k hk
    apply localValue_of_field (field_createdAttrs bctx r remoteTs now hk) (hr.defined hk)
    rintro rfl
    obtain ⟨refs, hv, -⟩ := hr.labels
    rw [hv]
    exact JsValue.noConfusion
  exact {
    title := (hvalue _ (by decide)).trans hr.title
    description := (hvalue _ (by decide)).trans hr.description
    status := by
      obtain ⟨ref, hs, hv⟩ := hr.status
      exact ⟨ref, hs, (hvalue _ (by decide)).trans hv⟩
    assignee := (hvalue _ (by decide)).trans hr.assignee
    milestone := by
      rw [hvalue _ (by decide)]
      exact hr.milestone
    labels := by
      rw [hvalue _ (by decide)]
      exact hr.labels }

/-- What a record without a row leaves: a new document, which shows it. -/
structure Imported (env : Env) (bctx : BindingContext) (w : World) (i : SyncIssue) (ref : Ref)
    (w' : World) : Prop where
  linked : Linked env bctx i.iid ref w'
  agrees : Shows env bctx ref w' i
  clock : clockAt ref w' = clockAfter i.updatedAt
  absent : w.docs.get? ref = none
  kept : Kept w.docs w'.docs
  carries : Carries env bctx w w'
  rows : ∀ gitlabId, gitlabId ≠ projectKey env bctx (.num i.iid) →
    w'.idmap.findByGitlab bctx.workspaceUuid .issue gitlabId =
      w.idmap.findByGitlab bctx.workspaceUuid .issue gitlabId

section Healthy

variable {env : Env} (h : env.Healthy) {binding : BindingRef} {bctx : BindingContext}
  (hload : env.loadBinding binding = .ok bctx)
include h hload

/-- A record of an issue without a row creates its document and its row. -/
theorem claimed_deliver (i : SyncIssue) {w : World} (hw : InOrder bctx.hulyProjectRef w)
    (hclaim : Unclaimed env w) (hstatus : statusFor env bctx w i ≠ none)
    (hnone : w.idmap.findByGitlab bctx.workspaceUuid .issue (projectKey env bctx (.num i.iid)) =
      none) :
    ∃ ref, Claimed (mirror env bctx i) bctx (mirrorObject env bctx i) [] w ref
      (deliver env binding w i) := by
  obtain ⟨mixins, ref, hclaimed, -⟩ := claiming h hload i hstatus w ⟨⟨hw, rfl⟩, hclaim, hnone⟩
  obtain ⟨doc, hdoc, hclass, -⟩ := hclaimed.doc
  exact ⟨ref, { hclaimed with doc := ⟨doc, hdoc, hclass, fun _ hm => absurd hm List.not_mem_nil⟩ }⟩

omit hload in
/-- The create branch, as long as the row it writes is there in the end. -/
theorem createFromRemote_run (gitlabId : String) (r : RemoteIssue) (remoteTs : JsDate) {w : World}
    {ref : Ref} (hnone : w.idmap.findByGitlab bctx.workspaceUuid .issue gitlabId = none)
    (hrow : ⟨bctx.workspaceUuid, .issue, gitlabId, issueClass, ref⟩ ∈
      ((createFromRemote env binding bctx gitlabId r remoteTs).run w).2.idmap.rows) :
    ∃ idmap cursors,
      w.idmap.upsert ⟨bctx.workspaceUuid, .issue, gitlabId, issueClass,
        env.generateId w.docs.keys⟩ = .ok idmap ∧
      ((createFromRemote env binding bctx gitlabId r remoteTs).run w).2 =
        { w with
          docs := w.docs.set (env.generateId w.docs.keys)
            ⟨issueClass, bctx.hulyProjectRef, createdAttrs bctx r remoteTs w.now, .empty⟩
          idmap := idmap
          cursors := cursors } := by
  let row : IdMapDoc :=
    ⟨bctx.workspaceUuid, .issue, gitlabId, issueClass, env.generateId w.docs.keys⟩
  let drafted : World :=
    { w with
      docs := w.docs.set (env.generateId w.docs.keys)
        ⟨issueClass, bctx.hulyProjectRef, createdAttrs bctx r remoteTs w.now, .empty⟩ }
  have hdrafted : (createFromRemote env binding bctx gitlabId r remoteTs).run w =
      (Sync.upsertIdMap env row >>= fun _ =>
        Sync.setCursor env binding .issues remoteTs).run drafted := by
    unfold createFromRemote
    rw [Effect.bind_of_ok (Sync.createDoc_run h _ _ _ w)]
    rfl
  rw [hdrafted] at hrow ⊢
  cases hup : w.idmap.upsert row with
  | error e =>
    have hfails : (Sync.upsertIdMap env row).run drafted = (.error e, drafted) := by
      simp [Sync.upsertIdMap, Effect.bind_run, Sync.reach_run h, drafted, hup]
    rw [Effect.bind_of_error hfails] at hrow
    have hfound := IdMap.findByGitlab_eq_some_iff.mpr ⟨hrow, rfl⟩
    exact absurd (hnone.symm.trans hfound) (Option.some_ne_none _).symm
  | ok idmap =>
    have hwrites : (Sync.upsertIdMap env row).run drafted = (.ok (), { drafted with idmap }) :=
      Sync.upsertIdMap_run h drafted hup
    rw [Effect.bind_of_ok hwrites, Sync.setCursor_run h]
    exact ⟨idmap, _, rfl, rfl⟩

theorem imported (i : SyncIssue) {w : World} (hw : InOrder bctx.hulyProjectRef w)
    (hclaim : Unclaimed env w) (hstatus : statusFor env bctx w i ≠ none)
    (hnone : w.idmap.findByGitlab bctx.workspaceUuid .issue (projectKey env bctx (.num i.iid)) =
      none) :
    ∃ ref, Imported env bctx w i ref (deliver env binding w i) := by
  obtain ⟨claimedRef, hclaimed⟩ := claimed_deliver h hload i hw hclaim hstatus hnone
  obtain ⟨w₁, hw₁, ⟨hskip, -⟩ | ⟨r, hr, hrun⟩⟩ := applyRemote_resolved h hload i hw.owned hw.typed
  · exact absurd hskip hstatus
  have hnone₁ := (hw₁.settles.others .issue (projectKey env bctx (.num i.iid)) (by decide)).trans
    hnone
  have hdeliver : deliver env binding w i = ((createFromRemote env binding bctx
      (projectKey env bctx (.num i.iid)) r (some i.updatedAt)).run w₁).2 := by
    rw [deliver, hrun, hnone]
    rfl
  have hrow := hclaimed.row
  rw [hdeliver] at hrow
  obtain ⟨idmap, cursors, hup, hcreated⟩ := createFromRemote_run h _ r _ hnone₁ hrow
  rw [← hdeliver] at hcreated
  have hfresh := env.generateId_fresh w₁.docs.keys
  have hkept : Kept w₁.docs (deliver env binding w i).docs := by
    rw [hcreated]
    exact kept_set hfresh _
  have hlink : (deliver env binding w i).idmap.findByGitlab bctx.workspaceUuid .issue
      (projectKey env bctx (.num i.iid)) = some ⟨bctx.workspaceUuid, .issue,
        projectKey env bctx (.num i.iid), issueClass, env.generateId w₁.docs.keys⟩ := by
    rw [hcreated]
    exact IdMap.findByGitlab_of_upsert_self hup
  have hdoc : (deliver env binding w i).docs.get? (env.generateId w₁.docs.keys) =
      some ⟨issueClass, bctx.hulyProjectRef, createdAttrs bctx r (some i.updatedAt) w₁.now,
        .empty⟩ := by
    rw [hcreated]
    exact OrderedMap.get?_set_self _ _ _
  have hrows : ∀ kind gitlabId, (kind, gitlabId) ≠ (.issue, projectKey env bctx (.num i.iid)) →
      (deliver env binding w i).idmap.findByGitlab bctx.workspaceUuid kind gitlabId =
        w₁.idmap.findByGitlab bctx.workspaceUuid kind gitlabId := by
    intro kind gitlabId hne
    rw [hcreated]
    apply IdMap.findByGitlab_of_upsert hup
    intro heq
    exact hne (Prod.mk.inj heq).2.symm
  have hcarries : Carries env bctx w₁ (deliver env binding w i) := by
    refine ⟨by rw [hcreated], fun gitlabId => ?_, fun _ _ hn => hn.kept hkept,
      fun _ _ hn => hn.kept hkept⟩
    unfold guestOf
    rw [hrows .user gitlabId (by simp)]
  have horder := hclaimed.grows.inOrder hw
  exact ⟨env.generateId w₁.docs.keys, {
    linked := ⟨⟨⟨_, hlink, rfl⟩, ⟨_, hdoc, rfl⟩, horder.owned, horder.typed⟩, hlink⟩
    agrees := ⟨_, hdoc, (agrees_createdAttrs hr _ w₁.now).carry hcarries⟩
    clock := by
      rw [clockAt, hdoc]
      exact clockOf_createdAttrs bctx r i.updatedAt w₁.now
    absent := by
      cases hold : w.docs.get? (env.generateId w₁.docs.keys) with
      | none => rfl
      | some doc => exact absurd (OrderedMap.mem_keys_of_get? (hw₁.kept _ doc hold)) hfresh
    kept := hw₁.kept.trans hkept
    carries := hw₁.carries.trans hcarries
    rows := fun gitlabId hne => (hrows .issue gitlabId (by simpa using hne)).trans
      (hw₁.settles.others .issue gitlabId (by decide)) }⟩

end Healthy

/-- Nothing stands in the way of the records: each state has its status, and no row and no document
is one that an issue will get. -/
structure Importable (env : Env) (bctx : BindingContext) {D : Type} (issue : D → SyncIssue)
    (w : World) : Prop where
  inOrder : InOrder bctx.hulyProjectRef w
  unclaimed : Unclaimed env w
  statuses : ∀ d, statusFor env bctx w (issue d) ≠ none
  unmapped : ∀ d, w.idmap.findByGitlab bctx.workspaceUuid .issue
    (projectKey env bctx (.num (issue d).iid)) = none

/-- The document is that of the issue, shows it, and is not newer. -/
structure Mirrors (env : Env) (bctx : BindingContext) (i : SyncIssue) (ref : Ref) (w : World) :
    Prop where
  linked : Linked env bctx i.iid ref w
  agrees : Shows env bctx ref w i
  clock : ∀ c, clockAt ref w = some c → c ≤ i.updatedAt

/-- The records that came have their documents, the others have no row. -/
structure Importing (env : Env) (bctx : BindingContext) {D : Type} (issue : D → SyncIssue)
    (w₀ : World) (ds : List D) (w : World) : Prop where
  inOrder : InOrder bctx.hulyProjectRef w
  unclaimed : Unclaimed env w
  carries : Carries env bctx w₀ w
  kept : Kept w₀.docs w.docs
  mirrored : ∀ d ∈ ds, ∃ ref, w₀.docs.get? ref = none ∧ Mirrors env bctx (issue d) ref w
  unmapped : ∀ d, d ∉ ds → w.idmap.findByGitlab bctx.workspaceUuid .issue
    (projectKey env bctx (.num (issue d).iid)) = none
  sourced : ∀ ref doc, w.docs.get? ref = some doc → w₀.docs.get? ref = none →
    doc.objectClass = issueClass → ∃ d ∈ ds, Linked env bctx (issue d).iid ref w

section Import

variable {env : Env} {binding : BindingRef} {bctx : BindingContext} {D : Type}
  {issue : D → SyncIssue} {w₀ w : World} {ds : List D}

theorem Importable.start (h : Importable env bctx issue w₀) :
    Importing env bctx issue w₀ [] w₀ where
  inOrder := h.inOrder
  unclaimed := h.unclaimed
  carries := Carries.refl _
  kept := Kept.refl _
  mirrored _ hd := absurd hd List.not_mem_nil
  unmapped d _ := h.unmapped d
  sourced _ _ hdoc hnone _ := absurd (hdoc.symm.trans hnone) (Option.some_ne_none _)

/-- Two issues have two documents. -/
theorem Linked.iid_eq {iid iid' : Int} {ref : Ref} (h : Linked env bctx iid ref w)
    (h' : Linked env bctx iid' ref w) : iid = iid' := by
  have hrows := h.findByHuly.symm.trans h'.findByHuly
  injection hrows with hrow
  exact projectKey_num_injective env bctx (IdMapDoc.mk.inj hrow).2.2.1

/-- A link stays where its row and its document do. -/
theorem Linked.stays {iid : Int} {ref : Ref} {w' : World} (h : Linked env bctx iid ref w)
    (horder : InOrder bctx.hulyProjectRef w')
    (hrow : w'.idmap.findByGitlab bctx.workspaceUuid .issue (projectKey env bctx (.num iid)) =
      w.idmap.findByGitlab bctx.workspaceUuid .issue (projectKey env bctx (.num iid)))
    (hkept : ∀ doc, w.docs.get? ref = some doc → w'.docs.get? ref = some doc) :
    Linked env bctx iid ref w' := by
  obtain ⟨doc, hdoc, hclass⟩ := h.doc
  refine h.of_row ⟨?_, ⟨doc, hkept doc hdoc, hclass⟩, horder.owned, horder.typed⟩ hrow
  rw [hrow]
  exact h.row

theorem Mirrors.stays {i : SyncIssue} {ref : Ref} {w' : World} (h : Mirrors env bctx i ref w)
    (horder : InOrder bctx.hulyProjectRef w') (hcarries : Carries env bctx w w')
    (hrow : w'.idmap.findByGitlab bctx.workspaceUuid .issue (projectKey env bctx (.num i.iid)) =
      w.idmap.findByGitlab bctx.workspaceUuid .issue (projectKey env bctx (.num i.iid)))
    (hkept : ∀ doc, w.docs.get? ref = some doc → w'.docs.get? ref = some doc) :
    Mirrors env bctx i ref w' where
  linked := h.linked.stays horder hrow hkept
  agrees := h.agrees.carry hkept hcarries
  clock := by
    obtain ⟨doc, hdoc, -⟩ := h.linked.doc
    have hclock : clockAt ref w' = clockAt ref w := by
      rw [clockAt, clockAt, hdoc, hkept doc hdoc]
    rw [hclock]
    exact h.clock

theorem le_of_clockAfter {t c : Nat} (h : clockAfter t = some c) : c ≤ t := by
  unfold clockAfter at h
  split at h
  · cases h
    exact Nat.le_refl _
  · cases h

theorem Imported.mirrors {i : SyncIssue} {ref : Ref} {w' : World}
    (h : Imported env bctx w i ref w') : Mirrors env bctx i ref w' where
  linked := h.linked
  agrees := h.agrees
  clock _ hc := le_of_clockAfter (h.clock.symm.trans hc)

section Step

variable (h : env.Healthy) (hload : env.loadBinding binding = .ok bctx)
  (hiid : Function.Injective fun d => (issue d).iid) (himportable : Importable env bctx issue w₀)
include h hload hiid himportable

/-- The first record of an issue. -/
theorem Importing.first (hw : Importing env bctx issue w₀ ds w) {d : D} (hd : d ∉ ds) :
    Importing env bctx issue w₀ (ds ++ [d]) (deliver env binding w (issue d)) := by
  have hstatus : statusFor env bctx w (issue d) ≠ none := by
    rw [hw.carries.statusFor]
    exact himportable.statuses d
  obtain ⟨claimedRef, hclaimed⟩ :=
    claimed_deliver h hload (issue d) hw.inOrder hw.unclaimed hstatus (hw.unmapped d hd)
  obtain ⟨ref, hnew⟩ :=
    imported h hload (issue d) hw.inOrder hw.unclaimed hstatus (hw.unmapped d hd)
  have hsame : claimedRef = ref := by
    have hfound := IdMap.findByGitlab_eq_some_iff.mpr ⟨hclaimed.row, rfl⟩
    have hrows := hfound.symm.trans hnew.linked.link
    injection hrows with hrow
    exact (IdMapDoc.mk.inj hrow).2.2.2.2
  subst hsame
  have hother : ∀ d', d' ≠ d → projectKey env bctx (.num (issue d').iid) ≠
      projectKey env bctx (.num (issue d).iid) := fun d' hne heq =>
    hne (hiid (projectKey_num_injective env bctx heq))
  have horder := hclaimed.grows.inOrder hw.inOrder
  have hmem : ∀ d', d' ∈ ds → d' ≠ d := fun d' hd' heq => hd (heq ▸ hd')
  exact {
    inOrder := horder
    unclaimed := hclaimed.grows.unclaimed hw.unclaimed
    carries := hw.carries.trans hnew.carries
    kept := hw.kept.trans hnew.kept
    mirrored := by
      intro d' hd'
      obtain hold | hlast := List.mem_append.mp hd'
      · obtain ⟨ref', habsent, hmirrors⟩ := hw.mirrored d' hold
        exact ⟨ref', habsent, hmirrors.stays horder hnew.carries
          (hnew.rows _ (hother d' (hmem d' hold))) (hnew.kept ref')⟩
      · obtain rfl := List.mem_singleton.mp hlast
        refine ⟨claimedRef, ?_, hnew.mirrors⟩
        cases hbefore : w₀.docs.get? claimedRef with
        | none => rfl
        | some doc =>
          exact absurd ((hw.kept _ doc hbefore).symm.trans hnew.absent) (Option.some_ne_none _)
    unmapped := by
      intro d' hd'
      rw [List.mem_append, List.mem_singleton, not_or] at hd'
      rw [hnew.rows _ (hother d' hd'.2)]
      exact hw.unmapped d' hd'.1
    sourced := by
      intro r doc hdoc hnone hclass
      cases hbefore : w.docs.get? r with
      | none =>
        obtain rfl | hnamed := hclaimed.added r doc hdoc hbefore
        · exact ⟨d, List.mem_append_right _ (List.mem_singleton_self d), hnew.linked⟩
        · exact absurd (ordinary_of_issue hclass) hnamed
      | some old =>
        have hold := hnew.kept r old hbefore
        rw [hdoc] at hold
        cases hold
        obtain ⟨d', hd', hlinked⟩ := hw.sourced r doc hbefore hnone hclass
        exact ⟨d', List.mem_append_left _ hd', hlinked.stays horder
          (hnew.rows _ (hother d' (hmem d' hd'))) (hnew.kept r)⟩ }

/-- One more record of an issue that has its document. -/
theorem Importing.again (hw : Importing env bctx issue w₀ ds w) {d : D} (hd : d ∈ ds) :
    Importing env bctx issue w₀ (ds ++ [d]) (deliver env binding w (issue d)) := by
  obtain ⟨ref, habsent, hmirrors⟩ := hw.mirrored d hd
  have hstatus : statusFor env bctx w (issue d) ≠ none := by
    rw [hw.carries.statusFor]
    exact himportable.statuses d
  have hdelivered := delivered h hload (issue d) hmirrors.linked.toMapped
  obtain ⟨hgrows, hediting⟩ := mirroring env hload (issue d) w
  have hedits := hediting fun hlacks =>
    absurd (hlacks.symm.trans hmirrors.linked.link) (Option.some_ne_none _).symm
  have horder := hgrows.inOrder hw.inOrder
  have hmem : ∀ d', d' ∈ ds ++ [d] ↔ d' ∈ ds := by
    intro d'
    rw [List.mem_append, List.mem_singleton, or_iff_left_iff_imp]
    rintro rfl
    exact hd
  have hmapped := hdelivered.mapped hmirrors.linked.toMapped
  have hafter : Mirrors env bctx (issue d) ref (deliver env binding w (issue d)) := by
    refine ⟨hmirrors.linked.of_row hmapped (hdelivered.row _),
      hdelivered.shows hstatus hmirrors.clock, fun c hc => ?_⟩
    obtain ⟨doc, hdoc, -⟩ := hmirrors.linked.doc
    obtain hbefore | rfl := hdelivered.clock ⟨doc, hdoc⟩ hc
    · exact hmirrors.clock c hbefore
    · exact Nat.le_refl _
  exact {
    inOrder := horder
    unclaimed := hgrows.unclaimed hw.unclaimed
    carries := hw.carries.trans hdelivered.carries
    kept := by
      intro r doc hdoc
      have hne : r ≠ ref := by
        rintro rfl
        exact absurd (hdoc.symm.trans habsent) (Option.some_ne_none _)
      exact hdelivered.kept hne (hw.kept r doc hdoc)
    mirrored := by
      intro d' hd'
      by_cases heq : d' = d
      · subst heq
        exact ⟨ref, habsent, hafter⟩
      · obtain ⟨ref', habsent', hmirrors'⟩ := hw.mirrored d' ((hmem d').mp hd')
        have hne : ref' ≠ ref := by
          rintro rfl
          exact heq (hiid (hmirrors'.linked.iid_eq hmirrors.linked))
        exact ⟨ref', habsent', hmirrors'.stays horder hdelivered.carries (hdelivered.row _)
          fun _ hdoc => hdelivered.kept hne hdoc⟩
    unmapped := by
      intro d' hd'
      rw [hdelivered.row]
      exact hw.unmapped d' fun hold => hd' ((hmem d').mpr hold)
    sourced := by
      intro r doc hdoc hnone hclass
      cases hbefore : w.docs.get? r with
      | none => exact absurd (ordinary_of_issue hclass) (hedits.added r doc hdoc hbefore)
      | some old =>
        by_cases hr : r = ref
        · subst hr
          exact ⟨d, (hmem d).mpr hd, hafter.linked⟩
        · have hold := hdelivered.kept hr hbefore
          rw [hdoc] at hold
          cases hold
          obtain ⟨d', hd', hlinked⟩ := hw.sourced r doc hbefore hnone hclass
          exact ⟨d', (hmem d').mpr hd', hlinked.stays horder (hdelivered.row _)
            fun _ hkept => hdelivered.kept hr hkept⟩ }

theorem importing (ds : List D) :
    Importing env bctx issue w₀ ds
      (Transition.exec (fun w d => deliver env binding w (issue d)) w₀ ds) := by
  induction ds using List.reverseRecOn with
  | nil => exact himportable.start
  | append_singleton ds d ih =>
    rw [Transition.exec_concat]
    by_cases hd : d ∈ ds
    · exact ih.again h hload hiid himportable hd
    · exact ih.first h hload hiid himportable hd

end Step

/-- Records of every issue, in any order and any of them again, leave each issue linked to a
document of its own that shows it; these are the only new ones of issues, and the old documents are
as they were. -/
theorem shown_of_imported (h : env.Healthy) (hload : env.loadBinding binding = .ok bctx)
    (issue : D → SyncIssue) (hiid : Function.Injective fun d => (issue d).iid) {w₀ : World}
    (himportable : Importable env bctx issue w₀) (ds : List D) (hall : ∀ d, d ∈ ds) :
    let w := Transition.exec (fun w d => deliver env binding w (issue d)) w₀ ds
    ∃ ref : D → Ref, Function.Injective ref ∧
      (∀ d, Linked env bctx (issue d).iid (ref d) w ∧ Shows env bctx (ref d) w (issue d)) ∧
      Kept w₀.docs w.docs ∧
      ∀ r doc, w.docs.get? r = some doc → doc.objectClass = issueClass →
        (w₀.docs.get? r = none ↔ ∃ d, ref d = r) := by
  intro w
  have hw : Importing env bctx issue w₀ ds w := importing h hload hiid himportable ds
  choose ref habsent hmirrors using fun d => hw.mirrored d (hall d)
  refine ⟨ref, ?_, ?_, hw.kept, ?_⟩
  · intro d d' heq
    have hlinked := (hmirrors d').linked
    rw [← heq] at hlinked
    exact hiid ((hmirrors d).linked.iid_eq hlinked)
  · exact fun d => ⟨(hmirrors d).linked, (hmirrors d).agrees⟩
  · intro r doc hdoc hclass
    constructor
    · intro hnone
      obtain ⟨d, -, hlinked⟩ := hw.sourced r doc hdoc hnone hclass
      have hrows := (hmirrors d).linked.link.symm.trans hlinked.link
      injection hrows with hrow
      exact ⟨d, (IdMapDoc.mk.inj hrow).2.2.2.2⟩
    · rintro ⟨d, rfl⟩
      exact habsent d

end Import

/-- Two issues and the first one once more, for an empty project. -/
theorem shown_of_imported_twice :
    let issue : Bool → SyncIssue := fun second =>
      if second then { (titledVersion "b" 2).1 with iid := 2 } else (titledVersion "a" 1).1
    let w := Transition.exec (fun w d => deliver (Env.quiet quietBinding) "b" w (issue d))
      World.initial [false, true, false]
    ∃ ref : Bool → Ref, Function.Injective ref ∧
      (∀ d, Linked (Env.quiet quietBinding) quietBinding (issue d).iid (ref d) w ∧
        Shows (Env.quiet quietBinding) quietBinding (ref d) w (issue d)) ∧
      Kept World.initial.docs w.docs ∧
      ∀ r doc, w.docs.get? r = some doc → doc.objectClass = issueClass →
        (World.initial.docs.get? r = none ↔ ∃ d, ref d = r) := by
  intro issue w
  refine shown_of_imported (Env.quiet_healthy quietBinding) rfl issue ?_ ?_
    [false, true, false] ?_
  · intro d d' heq
    cases d <;> cases d' <;> first | rfl | exact absurd heq (by decide)
  · have htyped : ∀ n : NamedDocs, n.Typed World.initial.docs := by
      intro n r doc hdoc
      cases hdoc
    exact {
      inOrder := ⟨fun _ hrow => absurd hrow List.not_mem_nil, htyped _, htyped _⟩
      unclaimed := fun _ _ _ hrow => absurd hrow List.not_mem_nil
      statuses := fun d => by cases d <;> decide +kernel
      unmapped := fun _ => rfl }
  · intro d
    cases d <;> decide

end HulyGitlab.Issues
