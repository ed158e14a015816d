import HulyGitlab.Sync.ManagerWrites
import HulyGitlab.Sync.MixinSplit
import HulyGitlab.Sync.ReviewerMigration

/-!
# Writes that come back

The platform announces every write of the pod to the pod. The second echo
filter drops what carries the marker, whoever the author of the transaction
is; a write without it is read as an edit somebody made on the platform.
-/

namespace HulyGitlab

open Coroutine (Always MakesOnly)

/-- The transaction the platform makes of a call that writes. -/
def Await.tx (modifiedBy : String) (space objectId : Ref) : Await → Option Tx
  | .createDoc objectClass attributes =>
      some ⟨TX_CLASS_CREATE, modifiedBy, objectId, objectClass, space, "", some attributes, none⟩
  | .updateDoc objectClass ref operations =>
      some ⟨TX_CLASS_UPDATE, modifiedBy, ref, objectClass, space, "", none, some operations⟩
  | .putMixin objectClass ref mixin attributes =>
      some ⟨TX_CLASS_MIXIN, modifiedBy, ref, objectClass, space, mixin, some attributes, none⟩
  | _ => none

namespace TxSubscription

/-- A transaction that would be translated is dropped by the marker alone, and nothing is queued
whoever the service account is. -/
def Suppressed (tx : Tx) : Prop :=
  (classify tx ≠ none → isGitlabOriginated tx = true) ∧ ∀ deps s, onTx deps s tx = (s, [])

theorem entryOf_eq_none {deps : TxSubscriberDeps} {tx : Tx}
    (h : classify tx ≠ none → isGitlabOriginated tx = true) : entryOf deps tx = none := by
  unfold entryOf
  split_ifs with hauthor horiginated
  · rfl
  · rfl
  · have hnone : classify tx = none := by
      by_contra hsome
      exact horiginated (h hsome)
    rw [hnone]

theorem suppressed_iff (tx : Tx) :
    Suppressed tx ↔ (classify tx ≠ none → isGitlabOriginated tx = true) := by
  refine ⟨fun h => h.1, fun h => ⟨h, fun deps s => ?_⟩⟩
  rw [onTx, entryOf_eq_none h]
  exact ite_self _

end TxSubscription

open TxSubscription

/-- Whatever the platform adds, the transaction of the call is suppressed. -/
def Await.Quiet (point : Await) : Prop :=
  ∀ modifiedBy space objectId tx, point.tx modifiedBy space objectId = some tx → Suppressed tx

theorem Await.quiet_createDoc {objectClass : String} {attributes : Fields}
    (h : kindOfClass objectClass = none ∨ Marks attributes) :
    (Await.createDoc objectClass attributes).Quiet := by
  rintro modifiedBy space objectId tx htx
  obtain rfl := Option.some.inj htx
  rw [suppressed_iff]
  intro hclass
  obtain hnone | hmarks := h
  · refine absurd ?_ hclass
    simp [classify, TX_CLASS_CREATE, TX_CLASS_MIXIN, TX_CLASS_UPDATE, hnone]
  · simpa [isGitlabOriginated, TX_CLASS_CREATE, TX_CLASS_REMOVE] using .inl hmarks

theorem Await.quiet_updateDoc (objectClass : String) (ref : Ref) {operations : Fields}
    (h : Marks operations) : (Await.updateDoc objectClass ref operations).Quiet := by
  rintro modifiedBy space objectId tx htx
  obtain rfl := Option.some.inj htx
  rw [suppressed_iff]
  intro _
  simpa [isGitlabOriginated, TX_CLASS_UPDATE, TX_CLASS_REMOVE] using .inl h

theorem Await.quiet_putMixin (objectClass : String) (ref : Ref) (mixin : String)
    {attributes : Fields} (h : Marks attributes) :
    (Await.putMixin objectClass ref mixin attributes).Quiet := by
  rintro modifiedBy space objectId tx htx
  obtain rfl := Option.some.inj htx
  rw [suppressed_iff]
  intro _
  simpa [isGitlabOriginated, TX_CLASS_MIXIN, TX_CLASS_REMOVE] using .inl h

/-- A marked write is quiet, and so is a call that writes nothing. -/
theorem Await.Within.quiet {mixins : String → Fields → Prop} {point : Await}
    (h : point.Within Marks mixins) : point.Quiet := by
  cases point with
  | createDoc objectClass attributes => exact quiet_createDoc h
  | updateDoc objectClass ref operations => exact quiet_updateDoc objectClass ref h
  | putMixin objectClass ref mixin attributes => exact quiet_putMixin objectClass ref mixin h.1
  | _ => exact fun _ _ _ tx htx => absurd htx (Option.some_ne_none tx).symm

theorem Writing.quiet {env : Env} {mixins : String → Fields → Prop} {A : Type} {p : Async A}
    (h : Writing env Marks mixins p) : Always (fun point _ _ => point.Quiet) p :=
  Always.mono (fun _ _ _ hboth => hboth.1.quiet) h

theorem Writing.quiet_alone {env : Env} {A : Type} {p : Async A}
    (h : Writing env Marks noMixins p) (w : World) : MakesOnly Await.Quiet p w :=
  MakesOnly.of_always h.quiet w

/-- An update of an issue, or a write of the legacy mixin, that nothing marks. -/
theorem Await.not_quiet_updateDoc (ref : Ref) {operations : Fields}
    (hmark : operations.field "_originated" = .undefined)
    (hset : operations.field "$set" = .undefined) :
    ¬ (Await.updateDoc issueClass ref operations).Quiet := by
  intro hquiet
  have hsup := (hquiet "" "" "" _ rfl).1 (by
    simp [classify, TX_CLASS_UPDATE, TX_CLASS_MIXIN, kindOfClass])
  simp [isGitlabOriginated, hmark, hset, JsValue.get] at hsup

theorem Await.not_quiet_putMixin (ref : Ref) {attributes : Fields}
    (hmark : attributes.field "_originated" = .undefined) :
    ¬ (Await.putMixin issueClass ref MR_MIXIN attributes).Quiet := by
  intro hquiet
  have hsup := (hquiet "" "" "" _ rfl).1 (by
    simp [classify, TX_CLASS_MIXIN, kindOfMixin])
  simp [isGitlabOriginated, hmark, JsValue.get] at hsup

/-- A record on its way to a manager, or a migration. -/
inductive RemoteJob
  | issue (binding : BindingRef) (record : Fields)
  | note (binding : BindingRef) (record : Fields)
  | mergeRequest (binding : BindingRef) (record : Fields)
  | review (binding : BindingRef) (record : Fields)
  | epic (binding : BindingRef) (record : Fields)
  | pipeline (binding : BindingRef) (record : Fields)
  | mixinSplit (drain : MixinMigration.Drain) (binding : BindingDoc)
  | reviewerLabels (binding : BindingDoc)

/-- The calls of the job, when it runs from a state. -/
def RemoteJob.calls (env : Env) : RemoteJob → World → List Await
  | .issue binding record => (Issues.Awaits.applyRemote env binding record).calls
  | .note binding record => (Notes.Awaits.applyRemote env binding record).calls
  | .mergeRequest binding record => (MergeRequests.Awaits.applyRemote env binding record).calls
  | .review binding record => (Reviews.Awaits.applyRemote env binding record).calls
  | .epic binding record => (Epics.Awaits.applyRemote env binding record).calls
  | .pipeline binding record => (Pipelines.Awaits.applyRemote env binding record).calls
  | .mixinSplit drain binding => (MixinMigration.migrateMixinSplit env drain binding).calls
  | .reviewerLabels binding => (ReviewerMigration.migrateReviewerLabels env binding).calls

/-- No transaction of the job becomes a local event. -/
def RemoteJob.Echoless (env : Env) (job : RemoteJob) (w : World) : Prop :=
  ∀ point ∈ job.calls env w, ∀ modifiedBy space objectId tx,
    point.tx modifiedBy space objectId = some tx → Suppressed tx

namespace Epics

/-- The markup an epic is mirrored with. -/
def descriptionOf (env : Env) (bctx : BindingContext) (syncEpic : Fields) (rawDescription : String) :
    JsValue :=
  .str (env.gfmMarkdownToMarkup rawDescription
    (groupUrl bctx (syncEpic.field "groupId") ++ "/-/epics")
    (groupUrl bctx (syncEpic.field "groupId")))

/-- The record is newer than the mirror of the epic, and has another title or description. -/
def Rewrites (env : Env) (binding : BindingRef) (syncEpic : Fields) (w : World) : Prop :=
  ∃ bctx row issue rawDescription status updatedAt,
    env.loadBinding binding = .ok bctx ∧ (bctx.edition = none ∨ bctx.edition = some "ee") ∧
    w.idmap.findByGitlab bctx.workspaceUuid .epic
      (epicKey env bctx (syncEpic.field "groupId") (syncEpic.field "iid")) = some row ∧
    (syncEpic.field "description").asStr = .ok rawDescription ∧
    pickBacklogStatus bctx.statuses = some status ∧
    (syncEpic.field "updatedAt").epochMs = .ok updatedAt ∧
    w.docs.get? row.hulyRef = some issue ∧ issue.objectClass = issueClass ∧
    updateOperations issue.attrs syncEpic (descriptionOf env bctx syncEpic rawDescription)
      (syncEpic.field "updatedAt").getTime ≠ []

end Epics

namespace MixinMigration

/-- The migration may write, and there is a mirror whose legacy mixin it splits. -/
def Strips (drain : Drain) (binding : BindingDoc) (w : World) : Prop :=
  drain.Ready ∧ ∃ entry ∈ mirrorsOf binding w.idmap, entry.hulyClass = issueClass ∧
    ∃ doc, w.docs.get? entry.hulyRef = some doc ∧ doc.objectClass = issueClass ∧ Splits doc

end MixinMigration

/-- The two branches that write without the marker. -/
def RemoteJob.Unmarked (env : Env) (w : World) : RemoteJob → Prop
  | .epic binding record => Epics.Rewrites env binding record w
  | .mixinSplit drain binding => MixinMigration.Strips drain binding w
  | _ => False

namespace Epics

variable {env : Env} {binding : BindingRef} {syncEpic : Fields} {w : World}

/-- The update of a mirror that needs none, and the mixin after it. -/
theorem quiet_updateFromRemote {hulyRef : Ref} {description : JsValue} {remoteTs : JsDate}
    (h : ∀ issue, w.docs.get? hulyRef = some issue → issue.objectClass = issueClass →
      updateOperations issue.attrs syncEpic description remoteTs = []) :
    MakesOnly Await.Quiet (Awaits.updateFromRemote env hulyRef syncEpic description remoteTs)
      w := by
  unfold Awaits.updateFromRemote
  refine MakesOnly.bind ((Writing.findOne env _ _).quiet_alone w) fun hulyIssue w' hfound => ?_
  obtain ⟨rfl, rfl⟩ := Sync.findOne_ok env hfound
  cases hissue : (w'.docs.get? hulyRef).filter fun doc => doc.objectClass = issueClass with
  | none => exact MakesOnly.pure _
  | some issue =>
    obtain ⟨hdoc, hclass⟩ := Option.filter_eq_some_iff.mp hissue
    have hnil := h issue hdoc (of_decide_eq_true hclass)
    refine MakesOnly.of_always (Always.bind ?_ fun _ => Always.bind (Always.ofExcept _) fun _ =>
      Always.bind ?_ fun _ => Always.pure _) w'
    · rw [Awaits.writeUpdate, if_pos hnil]
      exact Always.pure _
    · exact (Writing.putMixin env _ _ (marks_withOriginatedMarker _)
        (show ownMixin MR_EPIC_MIXIN _ from rfl)).quiet

theorem quiet_linkChildren (bctx : BindingContext) (w : World) :
    MakesOnly Await.Quiet (Awaits.linkChildren env binding bctx syncEpic) w :=
  MakesOnly.of_always (Awaits.writing_linkChildren env binding bctx syncEpic).quiet w

theorem quiet_of_not_rewrites (h : ¬ Rewrites env binding syncEpic w) :
    MakesOnly Await.Quiet (Awaits.applyRemote env binding syncEpic) w := by
  unfold Awaits.applyRemote
  refine MakesOnly.bind ((Writing.loadBinding env binding).quiet_alone w) fun bctx w₁ hload => ?_
  obtain ⟨hbctx, rfl⟩ := Effect.ofExcept_ok_iff.mp hload
  by_cases hedition : bctx.edition ≠ none ∧ bctx.edition ≠ some "ee"
  · rw [if_pos hedition]
    exact MakesOnly.pure _
  rw [if_neg hedition]
  refine MakesOnly.bind ((Writing.findByGitlab env _ _ _).quiet_alone w₁)
    fun existing w₂ hfind => ?_
  obtain ⟨hexisting, lookups, rfl⟩ := Sync.findByGitlab_ok env hfind
  refine MakesOnly.ofExcept_bind fun rawDescription hraw => ?_
  cases hstatus : pickBacklogStatus bctx.statuses with
  | none => exact MakesOnly.pure _
  | some status =>
    refine MakesOnly.ofExcept_bind fun updatedAt hms => ?_
    cases existing with
    | none =>
      refine MakesOnly.bind ?_ fun _ w₃ _ => quiet_linkChildren bctx w₃
      exact MakesOnly.of_always (Awaits.writing_createFromRemote env _ _ _ _ _ _).quiet _
    | some row =>
      refine MakesOnly.bind (quiet_updateFromRemote fun issue hdoc hclass => ?_)
        fun mirrored w₃ _ => ?_
      · by_contra hne
        refine h ⟨bctx, row, issue, rawDescription, status, updatedAt, hbctx, ?_, hexisting.symm,
          hraw, hstatus, hms, hdoc, hclass, hne⟩
        exact Classical.or_iff_not_imp_left.mpr fun hsome =>
          Classical.not_not.mp fun hee => hedition ⟨hsome, hee⟩
      · cases mirrored with
        | true => exact quiet_linkChildren bctx w₃
        | false => exact MakesOnly.pure _

/-- An update names no field but these. -/
theorem field_updateOperations {attrs : Fields} {description : JsValue} {remoteTs : JsDate}
    {k : String} (htitle : k ≠ "title") (hdescription : k ≠ "description") :
    (updateOperations attrs syncEpic description remoteTs).field k = .undefined := by
  unfold updateOperations
  dsimp only
  split_ifs
  all_goals simp [Ne.symm htitle, Ne.symm hdescription]

theorem not_quiet_of_rewrites (hhealthy : env.Healthy) (h : Rewrites env binding syncEpic w) :
    ¬ MakesOnly Await.Quiet (Awaits.applyRemote env binding syncEpic) w := by
  obtain ⟨bctx, row, issue, rawDescription, status, updatedAt, hload, hedition, hrow, hraw, hstatus,
    hms, hdoc, hclass, hne⟩ := h
  have hrun : (env.loadBinding binding, w) = (.ok bctx, w) := by rw [hload]
  have hfound : (w.docs.get? row.hulyRef).filter (fun doc => doc.objectClass = issueClass) =
      some issue := Option.filter_eq_some_iff.mpr ⟨hdoc, decide_eq_true hclass⟩
  intro hquiet
  refine Await.not_quiet_updateDoc row.hulyRef ?_ ?_ (hquiet (.updateDoc issueClass row.hulyRef
    ((updateOperations issue.attrs syncEpic (descriptionOf env bctx syncEpic rawDescription)
      (syncEpic.field "updatedAt").getTime).set "modifiedOn"
        (timeValue (syncEpic.field "updatedAt").getTime))) ?_)
  · rw [Fields.field_set, if_neg (by decide), field_updateOperations (by decide) (by decide)]
  · rw [Fields.field_set, if_neg (by decide), field_updateOperations (by decide) (by decide)]
  · unfold descriptionOf at hne ⊢
    refine Coroutine.mem_calls_right hrun ?_
    rw [if_neg fun hboth => hedition.elim hboth.1 hboth.2]
    refine Coroutine.mem_calls_right (Sync.findByGitlab_run hhealthy _ _ _ w) ?_
    rw [hraw, hrow, Coroutine.ofExcept_ok_bind, hstatus]
    dsimp only
    rw [hms, Coroutine.ofExcept_ok_bind]
    refine Coroutine.mem_calls_left ?_
    unfold Awaits.updateFromRemote
    refine Coroutine.mem_calls_right (Sync.findOne_run hhealthy issueClass row.hulyRef _) ?_
    dsimp only
    rw [hfound]
    refine Coroutine.mem_calls_left ?_
    rw [Awaits.writeUpdate, if_neg hne]
    exact List.mem_singleton.mpr rfl

end Epics

namespace MixinMigration

variable {env : Env} {drain : Drain} {binding : BindingDoc} {w : World}

/-- A document that is not split is left alone. -/
theorem migrateIssue_of_not_splits (env : Env) {doc : HulyDoc} (h : ¬ Splits doc) (issueRef : Ref)
    (result : MixinSplitMigrationResult) :
    ∃ result', migrateIssue env issueRef doc result = pure result' := by
  unfold migrateIssue
  by_cases hlegacy : doc.mixinAttrs MR_MIXIN = []
  · exact ⟨_, if_pos hlegacy⟩
  · have hcore : ¬ doc.mixinAttrs MR_CORE_MIXIN ≠ [] := fun hcore => h ⟨hlegacy, .inl hcore⟩
    have hmissing := (missingCore_iff (doc.mixinAttrs MR_MIXIN)).mpr
      fun hall => h ⟨hlegacy, .inr hall⟩
    dsimp only
    rw [if_neg hlegacy, if_neg hcore]
    exact ⟨_, if_pos hmissing⟩

/-- The row leads to no document that is split. -/
def Idle (w : World) (entry : IdMapDoc) : Prop :=
  entry.hulyClass = issueClass → ∀ doc, w.docs.get? entry.hulyRef = some doc →
    doc.objectClass = issueClass → ¬ Splits doc

theorem quiet_migrateEntry (env : Env) {entry : IdMapDoc} (h : Idle w entry)
    (result : MixinSplitMigrationResult) :
    MakesOnly Await.Quiet (migrateEntry env entry result) w ∧
      ∀ r w', (migrateEntry env entry result).toEffect.run w = (.ok r, w') → w' = w := by
  unfold migrateEntry
  by_cases hclass : entry.hulyClass ≠ issueClass
  · rw [if_pos hclass]
    exact ⟨MakesOnly.pure _, fun r w' hrun => (Prod.mk.inj hrun).2.symm⟩
  rw [if_neg hclass]
  have hlook : MakesOnly Await.Quiet (Async.findOne env issueClass entry.hulyRef) w :=
    (Writing.findOne env _ _).quiet_alone w
  have hfind : ∀ found w', (Sync.findOne env issueClass entry.hulyRef).run w = (.ok found, w') →
      w' = w ∧ ∀ doc, found = some doc → ¬ Splits doc := by
    intro found w' hrun
    obtain ⟨rfl, rfl⟩ := Sync.findOne_ok env hrun
    refine ⟨rfl, fun doc hdoc => ?_⟩
    obtain ⟨hget, hdocClass⟩ := Option.filter_eq_some_iff.mp hdoc
    exact h (not_not.mp hclass) doc hget (of_decide_eq_true hdocClass)
  constructor
  · refine MakesOnly.bind hlook fun found w' hrun => ?_
    cases found with
    | none => exact MakesOnly.pure _
    | some doc =>
      obtain ⟨result', hpure⟩ := migrateIssue_of_not_splits env
        ((hfind _ w' hrun).2 doc rfl) entry.hulyRef
        { result with mrsScanned := result.mrsScanned + 1 }
      dsimp only
      rw [hpure]
      exact MakesOnly.pure _
  · intro r w' hrun
    rw [Coroutine.toEffect_bind] at hrun
    obtain ⟨found, w₁, hfound, hrun⟩ := Effect.bind_ok_iff.mp hrun
    obtain ⟨rfl, hnot⟩ := hfind found w₁ hfound
    cases found with
    | none => exact (Prod.mk.inj hrun).2.symm
    | some doc =>
      obtain ⟨result', hpure⟩ := migrateIssue_of_not_splits env (hnot doc rfl)
        entry.hulyRef { result with mrsScanned := result.mrsScanned + 1 }
      dsimp only at hrun
      rw [hpure] at hrun
      exact (Prod.mk.inj hrun).2.symm

theorem quiet_migrateEntries {entries : List IdMapDoc} (h : ∀ entry ∈ entries, Idle w entry)
    (result : MixinSplitMigrationResult) :
    MakesOnly Await.Quiet (migrateEntries env result entries) w := by
  induction entries generalizing result with
  | nil => exact MakesOnly.pure _
  | cons entry entries ih =>
    have hentry := quiet_migrateEntry env (h entry (by simp)) result
    refine MakesOnly.bind hentry.1 fun result' w' hrun => ?_
    rw [hentry.2 _ _ hrun]
    exact ih (fun e he => h e (List.mem_cons_of_mem _ he)) result'

theorem quiet_of_not_strips (h : ¬ Strips drain binding w) :
    MakesOnly Await.Quiet (migrateMixinSplit env drain binding) w := by
  unfold migrateMixinSplit
  refine MakesOnly.bind ((Writing.now env).quiet_alone w) fun now w₁ hnow => ?_
  obtain rfl : w = w₁ := (Prod.mk.inj hnow).2
  by_cases hdrained : waitForBackfillDrain drain = false
  · rw [if_pos hdrained]
    exact MakesOnly.pure _
  rw [if_neg hdrained]
  by_cases hpaused : drain.bindingAfterDrain.map BindingDoc.disabled ≠ some true
  · rw [if_pos hpaused]
    exact MakesOnly.pure _
  rw [if_neg hpaused]
  have hready : drain.Ready := ⟨Bool.of_not_eq_false hdrained, not_not.mp hpaused⟩
  refine MakesOnly.bind (fun point hmem => ?_) fun mrEntries w₁ hfind => ?_
  · obtain rfl := List.mem_singleton.mp hmem
    exact fun _ _ _ tx htx => absurd htx (Option.some_ne_none tx).symm
  · obtain ⟨e, hfail⟩ | hrun := Sync.reach_bind_cases env .idmap
      (fun _ => Effect.gets fun w => w.idmap.rows.filter (isMirrorOf binding)) w
    · cases hfail.symm.trans hfind
    · cases hrun.symm.trans hfind
      refine quiet_migrateEntries (fun entry hentry hclass doc hdoc hdocClass hsplits => ?_) _
      exact h ⟨hready, entry, hentry, hclass, doc, hdoc, hdocClass, hsplits⟩

section Strip

variable (h : env.Healthy)
include h

/-- The write that clears the legacy mixin of a document. -/
def strip (ref : Ref) (legacyAttrs : Fields) : Await :=
  .putMixin issueClass ref MR_MIXIN ((legacyAttrs.map Prod.fst).map fun k => (k, .undefined))

omit h in
theorem not_quiet_strip (ref : Ref) (legacyAttrs : Fields) : ¬ (strip ref legacyAttrs).Quiet :=
  Await.not_quiet_putMixin ref (HulyDoc.field_undefined _ _)

theorem strip_mem_splitReview {issueRef : Ref} {doc : HulyDoc}
    (hdoc : w.docs.get? issueRef = some doc) (reviewAttrs legacyAttrs : Fields)
    (result : MixinSplitMigrationResult) :
    strip issueRef legacyAttrs ∈ (splitReview env issueRef reviewAttrs legacyAttrs result).calls w := by
  have hstrip : ∀ result w', strip issueRef legacyAttrs ∈
      (stripLegacy env issueRef legacyAttrs result).calls w' := fun result w' =>
    Coroutine.mem_calls_left (List.mem_singleton.mpr rfl)
  unfold splitReview
  dsimp only
  split_ifs
  · exact hstrip _ _
  · exact Coroutine.mem_calls_right (writeMixin_run h _ _ hdoc) (hstrip _ _)

theorem strip_mem_migrateIssue {issueRef : Ref} {doc : HulyDoc}
    (hdoc : w.docs.get? issueRef = some doc) (hsplits : Splits doc)
    (result : MixinSplitMigrationResult) :
    strip issueRef (doc.mixinAttrs MR_MIXIN) ∈ (migrateIssue env issueRef doc result).calls w := by
  unfold migrateIssue
  dsimp only
  rw [if_neg hsplits.1]
  by_cases hcore : doc.mixinAttrs MR_CORE_MIXIN ≠ []
  · rw [if_pos hcore]
    exact strip_mem_splitReview h hdoc _ _ _
  · rw [if_neg hcore, if_neg fun hmissing =>
      (missingCore_iff _).mp hmissing (hsplits.2.resolve_left hcore)]
    refine Coroutine.mem_calls_right (writeMixin_run h _ _ hdoc) ?_
    exact strip_mem_splitReview h (OrderedMap.get?_set_self _ _ _) _ _ _

theorem not_quiet_migrateEntries {entries : List IdMapDoc}
    (hsome : ∃ entry ∈ entries, ¬ Idle w entry) (result : MixinSplitMigrationResult) :
    ¬ MakesOnly Await.Quiet (migrateEntries env result entries) w := by
  induction entries generalizing result with
  | nil =>
    obtain ⟨entry, hentry, -⟩ := hsome
    exact absurd hentry List.not_mem_nil
  | cons entry entries ih =>
    by_cases hidle : Idle w entry
    · obtain ⟨other, hother, hbusy⟩ := hsome
      have hlater : other ∈ entries :=
        (List.mem_cons.mp hother).resolve_left fun he => hbusy (he ▸ hidle)
      obtain ⟨result', hrun⟩ := migrateEntry_run h entry result w
      have hsame := (quiet_migrateEntry env hidle result).2 _ _ hrun
      rw [hsame] at hrun
      exact fun hquiet => ih ⟨other, hlater, hbusy⟩ result' (hquiet.rest hrun)
    · unfold Idle at hidle
      push Not at hidle
      obtain ⟨hclass, doc, hdoc, hdocClass, hsplits⟩ := hidle
      have hfound : (w.docs.get? entry.hulyRef).filter (fun d => d.objectClass = issueClass) =
          some doc := Option.filter_eq_some_iff.mpr ⟨hdoc, decide_eq_true hdocClass⟩
      intro hquiet
      refine not_quiet_strip entry.hulyRef (doc.mixinAttrs MR_MIXIN)
        (hquiet _ (Coroutine.mem_calls_left ?_))
      unfold migrateEntry
      rw [if_neg (not_not_intro hclass)]
      refine Coroutine.mem_calls_right (Sync.findOne_run h issueClass entry.hulyRef w) ?_
      rw [hfound]
      exact strip_mem_migrateIssue h hdoc hsplits _

theorem not_quiet_of_strips (hstrips : Strips drain binding w) :
    ¬ MakesOnly Await.Quiet (migrateMixinSplit env drain binding) w := by
  obtain ⟨hready, entry, hentry, hclass, doc, hdoc, hdocClass, hsplits⟩ := hstrips
  have hfind : (findMirrors env binding).run w = (.ok (mirrorsOf binding w.idmap), w) := by
    simp [findMirrors, Effect.bind_run, Sync.reach_run h, mirrorsOf]
  have hbusy : ∃ entry ∈ mirrorsOf binding w.idmap, ¬ Idle w entry :=
    ⟨entry, hentry, fun hidle => hidle hclass doc hdoc hdocClass hsplits⟩
  have hdrained : ¬ waitForBackfillDrain drain = false := by
    rw [hready.1]
    exact Bool.noConfusion
  intro hquiet
  unfold migrateMixinSplit at hquiet
  have hafter := hquiet.rest (show Async.now.toEffect.run w = (.ok w.now, w) from rfl)
  dsimp only at hafter
  rw [if_neg hdrained, if_neg (not_not_intro hready.2)] at hafter
  exact not_quiet_migrateEntries h hbusy _ (hafter.rest hfind)

end Strip

end MixinMigration

namespace ReviewerMigration

variable (env : Env)

/-- The mixin the reviewers go to. -/
def legacyMixin (mixin : String) (_attributes : Fields) : Prop := mixin = MR_MIXIN

theorem writing_resolveReviewers (tagDocs : List (Ref × String)) :
    Writing env Marks legacyMixin (resolveReviewers env tagDocs) := by
  induction tagDocs with
  | nil => exact Always.pure _
  | cons tag tagDocs ih =>
    exact Always.bind (UserIdentity.Awaits.writing_mapByGitlabUser env _) fun _ =>
      Always.bind ih fun _ => Always.pure _

theorem writing_migrateLabels (issueRef : Ref) (currentLabels : List JsValue)
    (reviewerTags : List (Ref × String)) (result : ReviewerMigrationResult) :
    Writing env Marks legacyMixin
      (migrateLabels env issueRef currentLabels reviewerTags result) := by
  have hread : Writing env Marks legacyMixin (readExistingReviewers env issueRef) :=
    Always.bind (Writing.findOne env _ _) fun _ => Always.ofExcept _
  refine Always.bind (writing_resolveReviewers env _) fun _ => Always.bind hread fun _ => ?_
  refine Always.bind (Writing.updateDoc env _ _ (marks_withOriginatedMarker _)) fun _ => ?_
  refine Always.bind ?_ fun _ => Always.pure _
  exact Writing.putMixin env _ _ (marks_withOriginatedMarker _) rfl

theorem writing_migrateEntry (entry : IdMapDoc) (result : ReviewerMigrationResult) :
    Writing env Marks legacyMixin (migrateEntry env entry result) := by
  unfold migrateEntry
  refine Always.ite (Always.pure _) (Always.bind (Writing.findOne env _ _) fun hulyIssue => ?_)
  cases hulyIssue with
  | none => exact Always.pure _
  | some issue =>
    refine Always.bind (Always.ofExcept _) fun labels => Always.ite (Always.pure _) ?_
    refine Always.bind ?_ fun tagDocs => Always.bind (Always.ofExcept _) fun tags => ?_
    · exact Always.bind (Writing.findAll env _) fun _ => Always.pure _
    · exact Always.ite (Always.pure _) (writing_migrateLabels env _ _ _ _)

theorem writing_migrateReviewerLabels (binding : BindingDoc) :
    Writing env Marks legacyMixin (migrateReviewerLabels env binding) := by
  have hentries : ∀ entries result,
      Writing env Marks legacyMixin (migrateEntries env result entries) := by
    intro entries
    induction entries with
    | nil => exact fun _ => Always.pure _
    | cons entry entries ih =>
      exact fun result => Always.bind (writing_migrateEntry env entry result) fun _ => ih _
  have hfind : Writing env Marks legacyMixin
      (Coroutine.call .findRows (MixinMigration.findMirrors env binding)) :=
    Always.call fun _ => ⟨trivial, Writing.docs_of_reach env rfl⟩
  exact Always.bind hfind fun _ => Always.bind (hentries _ _) fun _ =>
    Always.bind (Writing.now env) fun _ => Always.pure _

end ReviewerMigration

namespace RemoteJob

variable {env : Env} {w : World}

/-- A job that leaves no write unmarked. -/
theorem echoless_of_not_unmarked {job : RemoteJob} (h : ¬ job.Unmarked env w) :
    job.Echoless env w := by
  cases job with
  | issue binding record =>
    exact MakesOnly.of_always (Issues.Awaits.writing_applyRemote env binding record).quiet w
  | note binding record =>
    exact MakesOnly.of_always (Notes.Awaits.writing_applyRemote env binding record).quiet w
  | mergeRequest binding record =>
    exact MakesOnly.of_always (MergeRequests.Awaits.writing_applyRemote env binding record).quiet w
  | review binding record =>
    exact MakesOnly.of_always (Reviews.Awaits.writing_applyRemote env binding record).quiet w
  | pipeline binding record =>
    exact MakesOnly.of_always (Pipelines.Awaits.writing_applyRemote env binding record).quiet w
  | epic binding record => exact Epics.quiet_of_not_rewrites h
  | mixinSplit drain binding => exact MixinMigration.quiet_of_not_strips h
  | reviewerLabels binding =>
    exact MakesOnly.of_always
      (ReviewerMigration.writing_migrateReviewerLabels env binding).quiet w

theorem not_echoless_of_unmarked (hhealthy : env.Healthy) {job : RemoteJob}
    (h : job.Unmarked env w) : ¬ job.Echoless env w := by
  cases job with
  | epic binding record => exact Epics.not_quiet_of_rewrites hhealthy h
  | mixinSplit drain binding => exact MixinMigration.not_quiet_of_strips hhealthy h
  | issue binding record => exact absurd h id
  | note binding record => exact absurd h id
  | mergeRequest binding record => exact absurd h id
  | review binding record => exact absurd h id
  | pipeline binding record => exact absurd h id
  | reviewerLabels binding => exact absurd h id

/-- The marker alone suppresses every echo, unless an epic is rewritten or a legacy mixin is
cleared; and where the services answer, these two do echo. -/
theorem echoless_iff (env : Env) (job : RemoteJob) (w : World) :
    (¬ job.Unmarked env w → job.Echoless env w) ∧
      (env.Healthy → (job.Echoless env w ↔ ¬ job.Unmarked env w)) :=
  ⟨echoless_of_not_unmarked, fun hhealthy =>
    ⟨fun hecholess hunmarked => not_echoless_of_unmarked hhealthy hunmarked hecholess,
      echoless_of_not_unmarked⟩⟩

/-- An epic that got a new title on GitLab. -/
def renamedEpic : Fields :=
  [("iid", .num 4), ("groupId", .num 9), ("title", .str "new"), ("description", .str ""),
    ("state", .str "opened"), ("webUrl", .str "https://gitlab/groups/9/-/epics/4"),
    ("childIssueIids", .arr []), ("updatedAt", .date 2000)]

def renamedMirror : HulyDoc where
  objectClass := issueClass
  space := "project"
  attrs := [("title", .str "old"), ("description", .str ""), ("modifiedOn", .num 1000)]
  mixins := .empty

def renamedWorld : World :=
  { World.initial with
    idmap := ⟨[⟨"ws", .epic, "9:4", issueClass, "mirror"⟩], by decide, by decide⟩
    docs := OrderedMap.empty.set "mirror" renamedMirror }

/-- The subscriber of a pod whose service account is not the author it sees. -/
def misresolved : TxSubscriberDeps where
  serviceAccountPersonId := "service"
  bindingsByProject := OrderedMap.empty.set "7" "b"
  resolveBindingForDoc := none

/-- The new title comes back as a local event of an issue. -/
theorem not_echoless_renamedEpic :
    ¬ (RemoteJob.epic "b" renamedEpic).Echoless (Env.quiet quietBinding) renamedWorld := by
  intro hall
  have hsent : Await.updateDoc issueClass "mirror"
      [("title", .str "new"), ("modifiedOn", .num 2000)] ∈
      (RemoteJob.epic "b" renamedEpic).calls (Env.quiet quietBinding) renamedWorld := by
    decide +kernel
  have hquiet := (hall _ hsent "author" "project" "" _ rfl).2 misresolved ⟨[], true, false⟩
  revert hquiet
  decide

theorem echoless_iff_renamedEpic :
    ¬ (RemoteJob.epic "b" renamedEpic).Unmarked (Env.quiet quietBinding) World.initial ∧
      ((RemoteJob.epic "b" renamedEpic).Echoless (Env.quiet quietBinding) World.initial) := by
  have hunmarked :
      ¬ (RemoteJob.epic "b" renamedEpic).Unmarked (Env.quiet quietBinding) World.initial := by
    rintro ⟨bctx, row, issue, raw, status, ms, -, -, hrow, -⟩
    exact absurd hrow (Option.some_ne_none row).symm
  exact ⟨hunmarked,
    ((echoless_iff (Env.quiet quietBinding) (.epic "b" renamedEpic) World.initial).2
      (Env.quiet_healthy _)).mpr hunmarked⟩

end RemoteJob

end HulyGitlab
