import HulyGitlab.Sync.UnmirroredDocs

/-!
# The documents of the users

All handlers together: of records, of both migrations and of local events of
issues and comments, of any bindings, interleaved with the transactions of
users. What nobody mirrors is in the hands of the users alone.
-/

namespace HulyGitlab

open Coroutine (Guards)

variable (env : Env) {ref : Ref}

namespace MixinMigration

/-- The rows of the mirrors lead to other documents. -/
theorem avoids_findMirrors (binding : BindingDoc) :
    Avoids ref (fun entries => ∀ entry ∈ entries, entry.hulyRef ≠ ref)
      (Coroutine.call .findRows (findMirrors env binding)) := by
  refine Avoids.of_reach fun w hw => ⟨hw, rfl, ?_⟩
  rintro _ ⟨⟩ entry hentry
  obtain ⟨hmem, hmirror⟩ := List.mem_filter.mp hentry
  refine hw.rows entry hmem ?_
  have hkind : entry.gitlabKind = .merge_request := (of_decide_eq_true hmirror).2.1
  rw [hkind]
  decide

variable {issueRef : Ref} (h : issueRef ≠ ref)
include h

theorem avoids_stripLegacy (legacyAttrs : Fields) (result : MixinSplitMigrationResult) :
    Avoids ref (fun _ => True) (stripLegacy env issueRef legacyAttrs result) :=
  Avoids.after (Avoids.writeMixin env h _ _) fun _ =>
    Avoids.after (Avoids.findOne env _ _) fun _ => Guards.pure trivial

theorem avoids_splitReview (reviewAttrs legacyAttrs : Fields)
    (result : MixinSplitMigrationResult) :
    Avoids ref (fun _ => True) (splitReview env issueRef reviewAttrs legacyAttrs result) :=
  Guards.ite (avoids_stripLegacy env h _ _) <|
    Avoids.after (Avoids.writeMixin env h _ _) fun _ => avoids_stripLegacy env h _ _

theorem avoids_migrateIssue (issue : HulyDoc) (result : MixinSplitMigrationResult) :
    Avoids ref (fun _ => True) (migrateIssue env issueRef issue result) := by
  refine Guards.ite (Guards.pure trivial) (Guards.ite (avoids_splitReview env h _ _ _) ?_)
  refine Guards.ite (Guards.pure trivial) (Avoids.after (Avoids.writeMixin env h _ _) fun _ => ?_)
  exact avoids_splitReview env h _ _ _

omit h

theorem avoids_migrateEntries {entries : List IdMapDoc}
    (hentries : ∀ entry ∈ entries, entry.hulyRef ≠ ref) (result : MixinSplitMigrationResult) :
    Avoids ref (fun _ => True) (migrateEntries env result entries) := by
  induction entries generalizing result with
  | nil => exact Guards.pure trivial
  | cons entry entries ih =>
    refine Avoids.after ?_ fun result => ih (fun e he => hentries e (List.mem_cons_of_mem _ he)) _
    refine Guards.ite (Guards.pure trivial) ?_
    refine Avoids.after (Avoids.findOne env _ _) fun issueDoc => ?_
    cases issueDoc with
    | none => exact Guards.pure trivial
    | some issue => exact avoids_migrateIssue env (hentries entry List.mem_cons_self) _ _

theorem avoids_migrateMixinSplit (drain : Drain) (binding : BindingDoc) :
    Avoids ref (fun _ => True) (migrateMixinSplit env drain binding) := by
  refine Avoids.after Avoids.now fun now => ?_
  refine Guards.ite (Guards.pure trivial) (Guards.ite (Guards.pure trivial) ?_)
  exact Guards.bind (avoids_findMirrors env binding) fun entries hentries =>
    avoids_migrateEntries env hentries _

end MixinMigration

namespace ReviewerMigration

theorem avoids_resolveReviewers (tags : List (Ref × String)) :
    Avoids ref (fun _ => True) (resolveReviewers env tags) := by
  induction tags with
  | nil => exact Guards.pure trivial
  | cons tag tags ih =>
    refine Avoids.after (UserIdentity.Awaits.avoids_mapByGitlabUser env _) fun personUuid => ?_
    exact Avoids.after ih fun _ => Guards.pure trivial

theorem avoids_migrateIssue {issueRef : Ref} (h : issueRef ≠ ref) (hulyIssue : HulyDoc)
    (result : ReviewerMigrationResult) :
    Avoids ref (fun _ => True) (migrateIssue env issueRef hulyIssue result) := by
  refine Avoids.ofExcept_bind fun currentLabels => Guards.ite (Guards.pure trivial) ?_
  refine Avoids.after ?_ fun tagDocs => Avoids.ofExcept_bind fun reviewerTags => ?_
  · exact Avoids.after (Avoids.findAll env _) fun _ => Guards.pure trivial
  · refine Guards.ite (Guards.pure trivial) ?_
    refine Avoids.after (avoids_resolveReviewers env _) fun resolved => ?_
    refine Avoids.after ?_ fun existing => ?_
    · exact Avoids.after (Avoids.findOne env _ _) fun _ => Guards.ofExcept fun _ _ => trivial
    · refine Avoids.after (Avoids.updateDoc env _ h _) fun _ => ?_
      exact Avoids.after (Avoids.putMixin env _ h _ _) fun _ => Guards.pure trivial

theorem avoids_migrateEntries {entries : List IdMapDoc}
    (hentries : ∀ entry ∈ entries, entry.hulyRef ≠ ref) (result : ReviewerMigrationResult) :
    Avoids ref (fun _ => True) (migrateEntries env result entries) := by
  induction entries generalizing result with
  | nil => exact Guards.pure trivial
  | cons entry entries ih =>
    refine Avoids.after ?_ fun result => ih (fun e he => hentries e (List.mem_cons_of_mem _ he)) _
    refine Guards.ite (Guards.pure trivial) ?_
    refine Avoids.after (Avoids.findOne env _ _) fun issueDoc => ?_
    cases issueDoc with
    | none => exact Guards.pure trivial
    | some issue => exact avoids_migrateIssue env (hentries entry List.mem_cons_self) _ _

theorem avoids_migrateReviewerLabels (binding : BindingDoc) :
    Avoids ref (fun _ => True) (migrateReviewerLabels env binding) := by
  refine Guards.bind (MixinMigration.avoids_findMirrors env binding) fun entries hentries => ?_
  refine Avoids.after (avoids_migrateEntries env hentries _) fun result => ?_
  exact Avoids.after Avoids.now fun _ => Guards.pure trivial

end ReviewerMigration

/-- What the job runs. -/
def RemoteJob.code : RemoteJob → Async Unit
  | .issue binding record => Issues.Awaits.applyRemote env binding record
  | .note binding record => Notes.Awaits.applyRemote env binding record
  | .mergeRequest binding record => MergeRequests.Awaits.applyRemote env binding record
  | .review binding record => Reviews.Awaits.applyRemote env binding record
  | .epic binding record => Epics.Awaits.applyRemote env binding record
  | .pipeline binding record => Pipelines.Awaits.applyRemote env binding record
  | .mixinSplit drain binding => do
      let _ ← MixinMigration.migrateMixinSplit env drain binding
      pure ()
  | .reviewerLabels binding => do
      let _ ← ReviewerMigration.migrateReviewerLabels env binding
      pure ()

theorem RemoteJob.avoids_code (job : RemoteJob) : Avoids ref (fun _ => True) (job.code env) := by
  cases job with
  | issue binding record => exact Issues.Awaits.avoids_applyRemote env record
  | note binding record => exact Notes.Awaits.avoids_applyRemote env record
  | mergeRequest binding record => exact MergeRequests.Awaits.avoids_applyRemote env record
  | review binding record => exact Reviews.Awaits.avoids_applyRemote env record
  | epic binding record => exact Epics.Awaits.avoids_applyRemote env record
  | pipeline binding record => exact Pipelines.Awaits.avoids_applyRemote env record
  | mixinSplit drain binding =>
    exact Avoids.after (MixinMigration.avoids_migrateMixinSplit env drain binding) fun _ =>
      Guards.pure trivial
  | reviewerLabels binding =>
    exact Avoids.after (ReviewerMigration.avoids_migrateReviewerLabels env binding) fun _ =>
      Guards.pure trivial

/-- A job of the pod: a record or a migration, or a local event. -/
inductive HandlerJob
  | remote (job : RemoteJob)
  | localIssue (binding : BindingRef) (doc : String) (change : Fields)
  | localNote (binding : BindingRef) (doc : String) (change : Fields)

namespace HandlerJob

def code : HandlerJob → Async Unit
  | .remote job => job.code env
  | .localIssue binding doc change => Issues.Awaits.applyLocal env binding doc change
  | .localNote binding doc change => Notes.Awaits.applyLocal env binding doc change

/-- The document of a local event. -/
def subject : HandlerJob → Option Ref
  | .remote _ => none
  | .localIssue _ doc _ => some (stripDocPrefix doc)
  | .localNote _ doc _ => some (stripDocPrefix doc)

variable {env}

theorem avoids_code {job : HandlerJob} (h : job.subject ≠ some ref) :
    Avoids ref (fun _ => True) (job.code env) := by
  cases job with
  | remote job => exact job.avoids_code env
  | localIssue binding doc change =>
    exact Issues.Awaits.avoids_applyLocal env (fun heq => h (congrArg some heq)) change
  | localNote binding doc change =>
    exact Notes.Awaits.avoids_applyLocal env (fun heq => h (congrArg some heq)) change

end HandlerJob

/-- What happens on the platform besides: users create, edit and remove documents. -/
inductive UserTx
  | create (doc : HulyDoc)
  | edit (ref : Ref) (change : HulyDoc → HulyDoc)
  | remove (ref : Ref)
  | elapse (ms : Nat)

namespace UserTx

def apply : UserTx → World → World
  | .create doc, w => { w with docs := w.docs.set (env.generateId w.docs.keys) doc }
  | .edit ref change, w =>
      match w.docs.get? ref with
      | some doc => { w with docs := w.docs.set ref (change doc) }
      | none => w
  | .remove ref, w => { w with docs := w.docs.delete ref }
  | .elapse ms, w => { w with now := w.now + ms }

/-- What a transaction makes of a document that is there. -/
def onDoc (ref : Ref) : UserTx → Option HulyDoc → Option HulyDoc
  | .edit other change, doc => if other = ref then doc.map change else doc
  | _, doc => doc

variable {env}

theorem apply_unmirrored {tx : UserTx} (htx : ∀ other, tx = .remove other → other ≠ ref)
    {w : World} (hw : Unmirrored ref w) :
    Unmirrored ref (tx.apply env w) ∧
      (tx.apply env w).docs.get? ref = tx.onDoc ref (w.docs.get? ref) := by
  have hset : ∀ other doc, Unmirrored ref { w with docs := w.docs.set other doc } := by
    intro other doc
    refine ⟨?_, hw.rows⟩
    dsimp only
    rw [OrderedMap.mem_keys_set]
    exact .inr hw.there
  cases tx with
  | create doc =>
    have hne : ref ≠ env.generateId w.docs.keys := by
      rintro rfl
      exact env.generateId_fresh w.docs.keys hw.there
    exact ⟨hset _ doc, OrderedMap.get?_set_of_ne _ hne doc⟩
  | edit other change =>
    dsimp only [apply, onDoc]
    cases hdoc : w.docs.get? other with
    | none =>
      refine ⟨hw, ?_⟩
      dsimp only
      split_ifs with heq
      · rw [← heq, hdoc]
        rfl
      · rfl
    | some doc =>
      refine ⟨hset other _, ?_⟩
      dsimp only
      split_ifs with heq
      · subst heq
        rw [OrderedMap.get?_set_self, hdoc]
        rfl
      · exact OrderedMap.get?_set_of_ne _ (Ne.symm heq) _
  | remove other =>
    have hne : ref ≠ other := (htx other rfl).symm
    refine ⟨⟨?_, hw.rows⟩, OrderedMap.get?_delete_of_ne _ hne⟩
    dsimp only [apply]
    rw [OrderedMap.mem_keys_delete]
    exact ⟨hne, hw.there⟩
  | elapse ms => exact ⟨⟨hw.there, hw.rows⟩, rfl⟩

end UserTx

/-- No local event of the document is handled, and nobody removes it. -/
def LeftToUsers {K : Type} (ref : Ref) : Pool.Action K HandlerJob UserTx → Prop
  | .start job => job.subject ≠ some ref
  | .advance _ => True
  | .disturb tx => ∀ other, tx = .remove other → other ≠ ref

section Runs

variable {env} {K : Type} [DecidableEq K] {key : HandlerJob → K}

/-- However the handlers interleave with each other and with the users, and whichever of their
calls fail, a document without a row stays without one and is what its users make of it. -/
theorem unmirrored_doc_exec {w : World} (h : Unmirrored ref w)
    {acts : List (Pool.Action K HandlerJob UserTx)} (hacts : ∀ a ∈ acts, LeftToUsers ref a) :
    let s := (Transition.exec (Pool.step key (HandlerJob.code env) (UserTx.apply env))
      (Pool.idle w) acts).state
    Unmirrored ref s ∧
      s.docs.get? ref = acts.foldl (Pool.viewStep (UserTx.onDoc ref)) (w.docs.get? ref) := by
  have hidle : Pool.Guarded (Unmirrored ref) (fun w => w.docs.get? ref)
      (Pool.idle w : Pool K HandlerJob Await Err World) := by
    refine ⟨h, fun k job c hrun => ?_⟩
    cases hrun
  have hfitting : ∀ a ∈ acts, Pool.Fitting (HandlerJob.code env) (UserTx.apply env)
      (Unmirrored ref) (fun w => w.docs.get? ref) (UserTx.onDoc ref) a := by
    intro a ha
    have hleft := hacts a ha
    cases a with
    | start job => exact HandlerJob.avoids_code hleft
    | advance k => trivial
    | disturb tx => exact fun s hs => UserTx.apply_unmirrored hleft hs
  obtain ⟨hguarded, hview⟩ := Pool.view_exec hidle hfitting
  exact ⟨hguarded.holds, hview⟩

end Runs

/-- A mirrored issue, and a document of a user. -/
def sharedProject : World :=
  { World.initial with
    idmap := .single ⟨"ws", .issue, "7:1", issueClass, "mirror"⟩
    docs := (OrderedMap.empty.set "mirror" ⟨issueClass, "project", [], .empty⟩).set "mine"
      ⟨issueClass, "project", [("title", .str "mine")], .empty⟩ }

/-- A record of the issue is handled while the user edits. -/
def editedMeanwhile : List (Pool.Action String HandlerJob UserTx) :=
  .start (.remote (.issue "binding" [("iid", .num 1), ("title", .str "new"),
      ("state", .str "opened"), ("assignees", .arr []), ("labels", .arr []), ("milestone", .null),
      ("updatedAt", .date 5)])) ::
    (List.replicate 6 (.advance "") ++
      .disturb (.edit "mine" fun doc =>
        { doc with attrs := doc.attrs.set "title" (.str "later") }) ::
      List.replicate 6 (.advance ""))

theorem unmirrored_doc_exec_edited :
    let s := (Transition.exec (Pool.step (fun _ => "") (HandlerJob.code (Env.quiet quietBinding))
      (UserTx.apply (Env.quiet quietBinding))) (Pool.idle sharedProject) editedMeanwhile).state
    ((s.docs.get? "mirror").map fun doc => doc.attrs.field "title") = some (.str "new") ∧
      s.docs.get? "mine" = some ⟨issueClass, "project", [("title", .str "later")], .empty⟩ := by
  intro s
  refine ⟨by decide +kernel, ?_⟩
  have hmine : Unmirrored "mine" sharedProject := by
    refine ⟨by decide +kernel, fun row hrow _ => ?_⟩
    obtain rfl := List.mem_singleton.mp hrow
    decide
  have hleft : ∀ a ∈ editedMeanwhile, LeftToUsers "mine" a := by
    intro a ha
    simp only [editedMeanwhile, List.mem_cons, List.mem_append, List.mem_replicate] at ha
    obtain rfl | ⟨-, rfl⟩ | rfl | ⟨-, rfl⟩ := ha
    · exact (Option.some_ne_none _).symm
    · trivial
    · rintro other ⟨⟩
    · trivial
  obtain ⟨-, hdoc⟩ := @unmirrored_doc_exec (Env.quiet quietBinding) "mine" String _ (fun _ => "")
    sharedProject hmine editedMeanwhile hleft
  refine hdoc.trans ?_
  decide +kernel

end HulyGitlab
