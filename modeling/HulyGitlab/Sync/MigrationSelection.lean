import HulyGitlab.Sync.Keys
import HulyGitlab.Sync.ManagerWrites
import HulyGitlab.Sync.MixinSplit
import HulyGitlab.Sync.ReviewerMigration

/-!
# The rows a migration goes over

Both migrations select the rows of a binding by what their keys begin with, the
manager of the merge requests by whole keys. The two agree as long as the keys
of the workspace carry no prefix and belong to one instance.
-/

namespace HulyGitlab

open Coroutine (Always)

/-! ### Documents that are left alone -/

/-- A call leaves the document as it is. -/
def Spares (ref : Ref) (_point : Await) (w w' : World) : Prop :=
  w'.docs.get? ref = w.docs.get? ref

namespace Spares

variable {ref : Ref}

theorem of_docs {A : Type} {point : Await} {m : Sync A} (h : ∀ w, (m.run w).2.docs = w.docs) :
    Always (Spares ref) (Coroutine.call point m) :=
  Always.call fun w => congrArg (OrderedMap.get? · ref) (h w)

theorem findOne (env : Env) (objectClass : String) (other : Ref) :
    Always (Spares ref) (Async.findOne env objectClass other) :=
  of_docs fun _ => Writing.docs_of_reach env rfl

theorem findAll (env : Env) (objectClass : String) :
    Always (Spares ref) (Async.findAll env objectClass) :=
  of_docs fun _ => Writing.docs_of_reach env rfl

theorem now : Always (Spares ref) Async.now := of_docs fun _ => rfl

theorem findPersonBySocialKey (env : Env) (socialKey : String) :
    Always (Spares ref) (Async.findPersonBySocialKey env socialKey) :=
  of_docs fun _ => Writing.docs_of_reach env rfl

/-- A write to another document. -/
theorem set {w : World} {other : Ref} (h : other ≠ ref) (doc : HulyDoc) (point : Await) :
    Spares ref point w { w with docs := w.docs.set other doc } :=
  OrderedMap.get?_set_of_ne _ h.symm doc

theorem of_write {env : Env} {other : Ref} (h : other ≠ ref) (point : Await)
    (write : HulyDoc → HulyDoc) (w : World) :
    Spares ref point w ((Sync.reach env .platform >>= fun _ => Effect.modify fun w =>
      match w.docs.get? other with
      | some doc => { w with docs := w.docs.set other (write doc) }
      | none => w).run w).2 := by
  obtain hrun | hrun := Writing.reach_docs env .platform (fun _ => Effect.modify fun w =>
    match w.docs.get? other with
    | some doc => { w with docs := w.docs.set other (write doc) }
    | none => w) w
  · rw [hrun]
    rfl
  · rw [hrun, Effect.modify_run]
    cases hdoc : w.docs.get? other with
    | none => rfl
    | some doc => exact set h (write doc) point

theorem writeMixin (env : Env) {other : Ref} (h : other ≠ ref) (mixin : String)
    (attributes : Fields) :
    Always (Spares ref) (MixinMigration.writeMixin env other mixin attributes) :=
  Always.call (of_write h _ fun doc => doc.mergeMixin mixin attributes)

theorem updateDoc (env : Env) (objectClass : String) {other : Ref} (h : other ≠ ref)
    (operations : Fields) :
    Always (Spares ref) (Async.updateDoc env objectClass other operations) :=
  Always.call (of_write h _ fun doc => { doc with attrs := doc.attrs.assign operations })

theorem putMixin (env : Env) (objectClass : String) {other : Ref} (h : other ≠ ref)
    (mixin : String) (attributes : Fields) :
    Always (Spares ref) (Async.putMixin env objectClass other mixin attributes) :=
  Always.call (of_write h _ fun doc => doc.withMixin mixin attributes)

/-- What the run of such calls leaves. -/
theorem run {A : Type} {p : Async A} (h : Always (Spares ref) p) (w : World) :
    (p.toEffect.run w).2.docs.get? ref = w.docs.get? ref :=
  @Always.within Await Err World A (Spares ref) (Spares ref .now) (fun _ => rfl)
    (fun _ _ _ h h' => Eq.trans h' h) (fun _ _ _ h => h) p h w

end Spares

namespace MixinMigration

theorem visits_cons {entry : IdMapDoc} {entries : List IdMapDoc} {ref : Ref} :
    Visits (entry :: entries) ref ↔ Visits [entry] ref ∨ Visits entries ref := by
  rw [visits_singleton, Visits, List.exists_mem_cons_iff, Visits]

variable (env : Env) {ref : Ref}

theorem spares_stripLegacy {issueRef : Ref} (h : issueRef ≠ ref) (legacyAttrs : Fields)
    (result : MixinSplitMigrationResult) :
    Always (Spares ref) (stripLegacy env issueRef legacyAttrs result) :=
  Always.bind (Spares.writeMixin env h _ _) fun _ =>
    Always.bind (Spares.findOne env _ _) fun _ => Always.pure _

theorem spares_splitReview {issueRef : Ref} (h : issueRef ≠ ref) (reviewAttrs legacyAttrs : Fields)
    (result : MixinSplitMigrationResult) :
    Always (Spares ref) (splitReview env issueRef reviewAttrs legacyAttrs result) :=
  Always.ite (spares_stripLegacy env h _ _) <|
    Always.bind (Spares.writeMixin env h _ _) fun _ => spares_stripLegacy env h _ _

theorem spares_migrateIssue {issueRef : Ref} (h : issueRef ≠ ref) (issue : HulyDoc)
    (result : MixinSplitMigrationResult) :
    Always (Spares ref) (migrateIssue env issueRef issue result) := by
  refine Always.ite (Always.pure _) (Always.ite (spares_splitReview env h _ _ _) ?_)
  refine Always.ite (Always.pure _) (Always.bind (Spares.writeMixin env h _ _) fun _ => ?_)
  exact spares_splitReview env h _ _ _

/-- A row is read for the document of its mirror only. -/
theorem spares_migrateEntry {entry : IdMapDoc} (h : ¬ Visits [entry] ref)
    (result : MixinSplitMigrationResult) :
    Always (Spares ref) (migrateEntry env entry result) := by
  unfold migrateEntry
  by_cases hclass : entry.hulyClass = issueClass
  · rw [if_neg (not_not_intro hclass)]
    have hne : entry.hulyRef ≠ ref := fun href =>
      h ((visits_singleton entry ref).mpr ⟨hclass, href⟩)
    refine Always.bind (Spares.findOne env _ _) fun issueDoc => ?_
    cases issueDoc with
    | none => exact Always.pure _
    | some issue => exact spares_migrateIssue env hne issue _
  · rw [if_pos hclass]
    exact Always.pure _

theorem spares_migrateEntries {entries : List IdMapDoc} (h : ¬ Visits entries ref)
    (result : MixinSplitMigrationResult) :
    Always (Spares ref) (migrateEntries env result entries) := by
  induction entries generalizing result with
  | nil => exact Always.pure _
  | cons entry entries ih =>
    obtain ⟨hfirst, hrest⟩ := not_or.mp (mt visits_cons.mpr h)
    exact Always.bind (spares_migrateEntry env hfirst result) fun _ => ih hrest _

theorem findMirrors_cases (binding : BindingDoc) (w : World) :
    (∃ e, (findMirrors env binding).run w = (.error e, w)) ∨
      (findMirrors env binding).run w = (.ok (mirrorsOf binding w.idmap), w) :=
  Sync.reach_bind_cases env .idmap _ w

variable {env} in
theorem findMirrors_run (h : env.Healthy) (binding : BindingDoc) (w : World) :
    (findMirrors env binding).run w = (.ok (mirrorsOf binding w.idmap), w) := by
  rw [findMirrors, Effect.bind_of_ok (Sync.reach_run h _ _)]
  rfl

/-- The rows of the query are the ones the migration goes over. -/
theorem migrateMixinSplit_rows (h : env.Healthy) {drain : Drain} (hready : drain.Ready)
    (binding : BindingDoc) (w : World) :
    (migrateMixinSplit env drain binding).toEffect.run w =
      (migrateEntries env ⟨w.now, 0, 0, 0, 0, 0, none, none, none, none⟩
        (mirrorsOf binding w.idmap)).toEffect.run w := by
  have hdrained : ¬ waitForBackfillDrain drain = false := by
    rw [hready.1]
    exact Bool.noConfusion
  rw [migrateMixinSplit, Coroutine.toEffect_bind, Async.toEffect_now, Effect.gets_bind_run]
  dsimp only
  rw [if_neg hdrained, if_neg (not_not_intro hready.2), Coroutine.toEffect_bind,
    Coroutine.toEffect_call, Effect.bind_of_ok (findMirrors_run h binding w)]

/-- The migration changes no document that its rows do not lead to. -/
theorem migrateMixinSplit_spares (drain : Drain) {binding : BindingDoc} {w : World}
    (h : ¬ Visits (mirrorsOf binding w.idmap) ref) :
    ((migrateMixinSplit env drain binding).toEffect.run w).2.docs.get? ref =
      w.docs.get? ref := by
  rw [migrateMixinSplit, Coroutine.toEffect_bind, Async.toEffect_now, Effect.gets_bind_run]
  dsimp only
  split_ifs
  · rfl
  · rfl
  · rw [Coroutine.toEffect_bind, Coroutine.toEffect_call]
    obtain ⟨e, hfind⟩ | hfind := findMirrors_cases env binding w
    · rw [Effect.bind_of_error hfind]
    · rw [Effect.bind_of_ok hfind]
      exact Spares.run (spares_migrateEntries env h _) w

end MixinMigration

namespace ReviewerMigration

open MixinMigration (Visits mirrorsOf findMirrors_cases findMirrors_run visits_singleton
  visits_cons)

variable (env : Env) {ref : Ref}

theorem spares_resolveReviewers (tagDocs : List (Ref × String)) :
    Always (Spares ref) (resolveReviewers env tagDocs) := by
  induction tagDocs with
  | nil => exact Always.pure _
  | cons tag tagDocs ih =>
    refine Always.bind (Always.bind (Spares.findPersonBySocialKey env _) fun byGitlab => ?_)
      fun _ => Always.bind ih fun _ => Always.pure _
    cases byGitlab with
    | some ref => exact Always.pure _
    | none =>
      refine Always.ite ?_ (Always.pure _)
      exact Always.bind (Always.ofExcept _) fun _ => Spares.findPersonBySocialKey env _

theorem spares_migrateIssue {issueRef : Ref} (h : issueRef ≠ ref) (hulyIssue : HulyDoc)
    (result : ReviewerMigrationResult) :
    Always (Spares ref) (migrateIssue env issueRef hulyIssue result) := by
  refine Always.bind (Always.ofExcept _) fun labels => Always.ite (Always.pure _) ?_
  refine Always.bind ?_ fun tagDocs => Always.bind (Always.ofExcept _) fun tags =>
    Always.ite (Always.pure _) ?_
  · exact Always.bind (Spares.findAll env _) fun _ => Always.pure _
  · refine Always.bind (spares_resolveReviewers env _) fun _ => Always.bind ?_ fun _ => ?_
    · exact Always.bind (Spares.findOne env _ _) fun _ => Always.ofExcept _
    · exact Always.bind (Spares.updateDoc env _ h _) fun _ =>
        Always.bind (Spares.putMixin env _ h _ _) fun _ => Always.pure _

theorem spares_migrateEntry {entry : IdMapDoc} (h : ¬ Visits [entry] ref)
    (result : ReviewerMigrationResult) :
    Always (Spares ref) (migrateEntry env entry result) := by
  unfold migrateEntry
  by_cases hclass : entry.hulyClass = issueClass
  · rw [if_neg (not_not_intro hclass)]
    have hne : entry.hulyRef ≠ ref := fun href =>
      h ((visits_singleton entry ref).mpr ⟨hclass, href⟩)
    refine Always.bind (Spares.findOne env _ _) fun hulyIssue => ?_
    cases hulyIssue with
    | none => exact Always.pure _
    | some issue => exact spares_migrateIssue env hne issue _
  · rw [if_pos hclass]
    exact Always.pure _

theorem spares_migrateEntries {entries : List IdMapDoc} (h : ¬ Visits entries ref)
    (result : ReviewerMigrationResult) :
    Always (Spares ref) (migrateEntries env result entries) := by
  induction entries generalizing result with
  | nil => exact Always.pure _
  | cons entry entries ih =>
    obtain ⟨hfirst, hrest⟩ := not_or.mp (mt visits_cons.mpr h)
    exact Always.bind (spares_migrateEntry env hfirst result) fun _ => ih hrest _

/-- The rows of the query are the ones the migration goes over. -/
theorem migrateReviewerLabels_rows (h : env.Healthy) (binding : BindingDoc) (w : World) :
    (migrateReviewerLabels env binding).toEffect.run w =
      (migrateEntries env ⟨0, 0, 0, 0, 0⟩ (mirrorsOf binding w.idmap) >>= fun result =>
        Async.now >>= fun now => pure { result with migratedAt := now }).toEffect.run w := by
  rw [migrateReviewerLabels, Coroutine.toEffect_bind, Coroutine.toEffect_call,
    Effect.bind_of_ok (findMirrors_run h binding w)]

/-- The migration changes no document that its rows do not lead to. -/
theorem migrateReviewerLabels_spares {binding : BindingDoc} {w : World}
    (h : ¬ Visits (mirrorsOf binding w.idmap) ref) :
    ((migrateReviewerLabels env binding).toEffect.run w).2.docs.get? ref = w.docs.get? ref := by
  rw [migrateReviewerLabels, Coroutine.toEffect_bind, Coroutine.toEffect_call]
  obtain ⟨e, hfind⟩ | hfind := findMirrors_cases env binding w
  · rw [Effect.bind_of_error hfind]
  · rw [Effect.bind_of_ok hfind]
    exact Spares.run (Always.bind (spares_migrateEntries env h _) fun _ =>
      Always.bind Spares.now fun _ => Always.pure _) w

end ReviewerMigration

/-! ### The selected rows -/

namespace MigrationSelection

open MixinMigration (isMirrorOf mirrorsOf Visits migrateMixinSplit migrateMixinSplit_spares Drain)
open ReviewerMigration (migrateReviewerLabels migrateReviewerLabels_spares)

/-- The context in which the managers of the binding work. -/
structure Serves (bctx : BindingContext) (binding : BindingDoc) : Prop where
  workspace : bctx.workspaceUuid = binding.workspaceUuid
  project : bctx.gitlabProjectId = binding.gitlabProjectId

/-- The manager finds the row for a merge request of the binding. -/
def LooksUp (env : Env) (bctx : BindingContext) (idmap : IdMap) (row : IdMapDoc) : Prop :=
  ∃ iid : Int, idmap.findByGitlab bctx.workspaceUuid .merge_request
    (projectKey env bctx (.num iid)) = some row

/-- Every row of a merge request was written by the manager of some binding, in its context. -/
def Written (env : Env) (writer : IdMapDoc → BindingContext) (idmap : IdMap) : Prop :=
  ∀ row ∈ idmap.rows, row.gitlabKind = .merge_request → row.hulyClass = issueClass ∧
    ∃ iid : Int, row.gitlabKey =
      ((writer row).workspaceUuid, .merge_request, projectKey env (writer row) (.num iid))

/-- The row mirrors a merge request of a project with the same id on another instance. -/
structure Foreign (bctx origin : BindingContext) (row : IdMapDoc) : Prop where
  kind : row.gitlabKind = .merge_request
  workspace : row.workspaceUuid = bctx.workspaceUuid
  project : origin.gitlabProjectId = bctx.gitlabProjectId
  instance_ne : origin.gitlabBaseUrl ≠ bctx.gitlabBaseUrl

/-- The migrations go over the rows that the manager of the binding finds, and neither read nor
write the document of a foreign one. -/
structure Exact (env : Env) (binding : BindingDoc) (bctx : BindingContext)
    (writer : IdMapDoc → BindingContext) (w : World) : Prop where
  visits : ∀ row ∈ w.idmap.rows,
    row ∈ mirrorsOf binding w.idmap ↔ LooksUp env bctx w.idmap row
  unread : ∀ row ∈ w.idmap.rows, Foreign bctx (writer row) row →
    ¬ Visits (mirrorsOf binding w.idmap) row.hulyRef
  unwritten : ∀ row ∈ w.idmap.rows, Foreign bctx (writer row) row →
    (∀ drain, ((migrateMixinSplit env drain binding).toEffect.run w).2.docs.get? row.hulyRef =
      w.docs.get? row.hulyRef) ∧
    ((migrateReviewerLabels env binding).toEffect.run w).2.docs.get? row.hulyRef =
      w.docs.get? row.hulyRef

/-- A context of the binding and one in which a row was written do not get in each other's way:
without prefixes the same project is on the same instance; a prefix does not read as the project
id; and with prefixes nothing of the binding is there. The last case has a prefix that reads as the
project id of its own binding. -/
def Apart (env : Env) (bctx origin : BindingContext) : Prop :=
  match origin.isMultiInstanceWorkspace, bctx.isMultiInstanceWorkspace with
  | false, false => origin.gitlabProjectId = bctx.gitlabProjectId →
      origin.gitlabBaseUrl = bctx.gitlabBaseUrl
  | true, false => env.hash8 origin.gitlabBaseUrl ≠ toString bctx.gitlabProjectId
  | false, true => origin.gitlabProjectId ≠ bctx.gitlabProjectId
  | true, true =>
      if env.hash8 origin.gitlabBaseUrl = toString bctx.gitlabProjectId then
        origin.gitlabBaseUrl = bctx.gitlabBaseUrl ∧ origin.gitlabProjectId = bctx.gitlabProjectId
      else
        ¬ (env.hash8 origin.gitlabBaseUrl = env.hash8 bctx.gitlabBaseUrl ∧
          origin.gitlabProjectId = bctx.gitlabProjectId)

section Keys

theorem takeWhile_of_not_mem {s rest : List Char} (h : ':' ∉ s) :
    (s ++ ':' :: rest).takeWhile (fun c => decide (c ≠ ':')) = s := by
  have hall : ∀ c ∈ s, (fun c => decide (c ≠ ':')) c = true := fun c hc =>
    decide_eq_true fun he => h (he ▸ hc)
  rw [List.takeWhile_append_of_pos hall, List.takeWhile_cons_of_neg (by decide), List.append_nil]

/-- What begins with a text and a colon has that text before its first colon. -/
theorem isPrefixOf_colon_iff {s t rest : List Char} (hs : ':' ∉ s) (ht : ':' ∉ t) :
    (s ++ [':']).isPrefixOf (t ++ ':' :: rest) = true ↔ s = t := by
  rw [List.isPrefixOf_iff_prefix]
  constructor
  · rintro ⟨r, hr⟩
    have hsame := congrArg (List.takeWhile fun c => decide (c ≠ ':')) hr
    rwa [List.append_assoc, List.singleton_append, takeWhile_of_not_mem hs,
      takeWhile_of_not_mem ht] at hsame
  · rintro rfl
    exact ⟨rest, by rw [List.append_assoc, List.singleton_append]⟩

variable {env : Env} {bctx origin : BindingContext}

/-- A key without its number. -/
def stemOf (env : Env) (origin : BindingContext) : List Char :=
  if origin.isMultiInstanceWorkspace then
    (env.hash8 origin.gitlabBaseUrl).toList ++ ':' :: (toString origin.gitlabProjectId).toList
  else (toString origin.gitlabProjectId).toList

theorem toList_projectKey (env : Env) (origin : BindingContext) (iid : Int) :
    (projectKey env origin (.num iid)).toList =
      stemOf env origin ++ ':' :: (toString iid).toList := by
  have hraw : (toString origin.gitlabProjectId ++ ":" ++ (JsValue.num iid).text).toList =
      (toString origin.gitlabProjectId).toList ++ ':' :: (toString iid).toList := toList_key _ iid
  unfold projectKey prefixGitlabIdForMultiInstance stemOf
  split_ifs
  · rw [String.toList_append, String.toList_append, hraw]
    simp
  · exact hraw

/-- The text before the first colon of a key. -/
def headOf (env : Env) (origin : BindingContext) : String :=
  if origin.isMultiInstanceWorkspace then env.hash8 origin.gitlabBaseUrl
  else toString origin.gitlabProjectId

theorem exists_toList_projectKey (env : Env) (origin : BindingContext) (iid : Int) :
    ∃ rest, (projectKey env origin (.num iid)).toList =
      (headOf env origin).toList ++ ':' :: rest := by
  rw [toList_projectKey, stemOf, headOf]
  split_ifs
  · exact ⟨_, by rw [List.append_assoc, List.cons_append]⟩
  · exact ⟨_, rfl⟩

theorem not_mem_headOf (hhash : ∀ url, ':' ∉ (env.hash8 url).toList) :
    ':' ∉ (headOf env origin).toList := by
  unfold headOf
  split_ifs
  · exact hhash _
  · exact colon_not_mem_toString _

/-- The query sees a key by its beginning. -/
theorem isMirrorOf_iff (hhash : ∀ url, ':' ∉ (env.hash8 url).toList) {binding : BindingDoc}
    {row : IdMapDoc} {iid : Int} (hkind : row.gitlabKind = .merge_request)
    (hkey : row.gitlabId = projectKey env origin (.num iid)) :
    isMirrorOf binding row = true ↔
      row.workspaceUuid = binding.workspaceUuid ∧
        toString binding.gitlabProjectId = headOf env origin := by
  obtain ⟨rest, hrest⟩ := exists_toList_projectKey env origin iid
  have hcolon : (toString binding.gitlabProjectId ++ ":").toList =
      (toString binding.gitlabProjectId).toList ++ [':'] := String.toList_append
  unfold isMirrorOf
  rw [decide_eq_true_iff, hkey, hrest, hcolon,
    isPrefixOf_colon_iff (colon_not_mem_toString _) (not_mem_headOf hhash), String.toList_inj]
  simp only [hkind, true_and]

/-- Two contexts write the same key for a merge request exactly when they write keys alike. -/
theorem projectKey_inj {iid iid' : Int}
    (h : projectKey env origin (.num iid) = projectKey env bctx (.num iid')) :
    origin.isMultiInstanceWorkspace = bctx.isMultiInstanceWorkspace ∧
      origin.gitlabProjectId = bctx.gitlabProjectId ∧
      (bctx.isMultiInstanceWorkspace = true →
        env.hash8 origin.gitlabBaseUrl = env.hash8 bctx.gitlabBaseUrl) := by
  -- the number goes first, then the project id, and what is left is the prefix
  have hkey := congrArg String.toList h
  rw [toList_projectKey, toList_projectKey] at hkey
  have hstem := congrArg beforeLast hkey
  rw [beforeLast_of_not_mem (colon_not_mem_toString _),
    beforeLast_of_not_mem (colon_not_mem_toString _)] at hstem
  have hmixed : ∀ (n m : Int) (t : List Char),
      (toString n).toList ≠ t ++ ':' :: (toString m).toList := fun n m t h =>
    colon_not_mem_toString n (h ▸ List.mem_append_right t List.mem_cons_self)
  unfold stemOf at hstem
  cases ho : origin.isMultiInstanceWorkspace with
  | false =>
    cases hb : bctx.isMultiInstanceWorkspace with
    | false =>
      rw [ho, hb] at hstem
      exact ⟨rfl, toString_int_injective (String.toList_inj.mp hstem), fun h => nomatch h⟩
    | true =>
      rw [ho, hb] at hstem
      exact absurd hstem (hmixed _ _ _)
  | true =>
    cases hb : bctx.isMultiInstanceWorkspace with
    | false =>
      rw [ho, hb] at hstem
      exact absurd hstem.symm (hmixed _ _ _)
    | true =>
      rw [ho, hb, if_pos rfl, if_pos rfl] at hstem
      have hlast := congrArg lastSegment hstem
      have hbefore := congrArg beforeLast hstem
      rw [lastSegment_of_not_mem (colon_not_mem_toString _),
        lastSegment_of_not_mem (colon_not_mem_toString _)] at hlast
      rw [beforeLast_of_not_mem (colon_not_mem_toString _),
        beforeLast_of_not_mem (colon_not_mem_toString _)] at hbefore
      exact ⟨rfl, toString_int_injective (String.toList_inj.mp hlast),
        fun _ => String.toList_inj.mp hbefore⟩

end Keys

section Rows

variable {env : Env} {binding : BindingDoc} {bctx : BindingContext}
  {writer : IdMapDoc → BindingContext} {idmap : IdMap} {row : IdMapDoc}

/-- The manager finds the rows that are written as it writes them. -/
theorem lookUp_iff (hwritten : Written env writer idmap) (hrow : row ∈ idmap.rows)
    (hkind : row.gitlabKind = .merge_request) :
    LooksUp env bctx idmap row ↔
      row.workspaceUuid = bctx.workspaceUuid ∧
        (writer row).isMultiInstanceWorkspace = bctx.isMultiInstanceWorkspace ∧
        (writer row).gitlabProjectId = bctx.gitlabProjectId ∧
        (bctx.isMultiInstanceWorkspace = true →
          env.hash8 (writer row).gitlabBaseUrl = env.hash8 bctx.gitlabBaseUrl) := by
  obtain ⟨-, iid, hkey⟩ := hwritten row hrow hkind
  have hworkspace : row.workspaceUuid = (writer row).workspaceUuid := congrArg Prod.fst hkey
  have hid : row.gitlabId = projectKey env (writer row) (.num iid) :=
    congrArg (fun key => key.2.2) hkey
  constructor
  · rintro ⟨iid', hfound⟩
    obtain ⟨-, hkey'⟩ := IdMap.findByGitlab_eq_some_iff.mp hfound
    have hid' : row.gitlabId = projectKey env bctx (.num iid') :=
      congrArg (fun key => key.2.2) hkey'
    exact ⟨congrArg Prod.fst hkey', projectKey_inj (hid.symm.trans hid')⟩
  · rintro ⟨hworkspace', hmulti, hproject, hhash⟩
    refine ⟨iid, IdMap.findByGitlab_eq_some_iff.mpr ⟨hrow, ?_⟩⟩
    have hsame : projectKey env (writer row) (.num iid) = projectKey env bctx (.num iid) := by
      unfold projectKey prefixGitlabIdForMultiInstance
      rw [hmulti, hproject]
      split_ifs with hb
      · rw [hhash hb]
      · rfl
    rw [hkey, hsame, ← hworkspace, hworkspace']

/-- The query returns the rows whose key begins with the project id. -/
theorem mem_mirrorsOf_iff (hhash : ∀ url, ':' ∉ (env.hash8 url).toList)
    (hserves : Serves bctx binding) (hwritten : Written env writer idmap) (hrow : row ∈ idmap.rows)
    (hkind : row.gitlabKind = .merge_request) :
    row ∈ mirrorsOf binding idmap ↔
      row.workspaceUuid = bctx.workspaceUuid ∧
        toString bctx.gitlabProjectId = headOf env (writer row) := by
  obtain ⟨-, iid, hkey⟩ := hwritten row hrow hkind
  have hid : row.gitlabId = projectKey env (writer row) (.num iid) :=
    congrArg (fun key => key.2.2) hkey
  rw [mirrorsOf, List.mem_filter, isMirrorOf_iff hhash hkind hid, hserves.workspace,
    hserves.project]
  exact and_iff_right hrow

/-- A row of another kind is none of the merge requests. -/
theorem not_selected_of_kind (hkind : row.gitlabKind ≠ .merge_request) :
    row ∉ mirrorsOf binding idmap ∧ ¬ LooksUp env bctx idmap row := by
  constructor
  · intro hmem
    have hmirror := (List.mem_filter.mp hmem).2
    rw [isMirrorOf, decide_eq_true_iff] at hmirror
    exact hkind hmirror.2.1
  · rintro ⟨iid, hfound⟩
    have hkey := (IdMap.findByGitlab_eq_some_iff.mp hfound).2
    exact hkind (congrArg (fun key => key.2.1) hkey)

/-- The document of a mirror has one row. -/
theorem visits_iff_mem (hserves : Serves bctx binding) (hwritten : Written env writer idmap)
    (hrow : row ∈ idmap.rows) (hkind : row.gitlabKind = .merge_request)
    (hworkspace : row.workspaceUuid = bctx.workspaceUuid) :
    Visits (mirrorsOf binding idmap) row.hulyRef ↔ row ∈ mirrorsOf binding idmap := by
  have hclass := (hwritten row hrow hkind).1
  constructor
  · rintro ⟨entry, hentry, hentryClass, href⟩
    obtain ⟨hmem, hmirror⟩ := List.mem_filter.mp hentry
    rw [isMirrorOf, decide_eq_true_iff] at hmirror
    have hkey : entry.hulyKey = row.hulyKey := by
      rw [IdMapDoc.hulyKey, IdMapDoc.hulyKey, href, hentryClass, hclass, hmirror.1, hworkspace,
        hserves.workspace]
    exact List.inj_on_of_nodup_map idmap.huly_direction hmem hrow hkey ▸ hentry
  · exact fun hmem => ⟨row, hmem, hclass, rfl⟩

end Rows

/-- What the two contexts make of a key. -/
theorem apart_iff (env : Env) (bctx origin : BindingContext) :
    Apart env bctx origin ↔
      (toString bctx.gitlabProjectId = headOf env origin ↔
        origin.isMultiInstanceWorkspace = bctx.isMultiInstanceWorkspace ∧
          origin.gitlabProjectId = bctx.gitlabProjectId ∧
          (bctx.isMultiInstanceWorkspace = true →
            env.hash8 origin.gitlabBaseUrl = env.hash8 bctx.gitlabBaseUrl)) ∧
      (origin.gitlabProjectId = bctx.gitlabProjectId →
        toString bctx.gitlabProjectId = headOf env origin →
        origin.gitlabBaseUrl = bctx.gitlabBaseUrl) := by
  have hproject : toString bctx.gitlabProjectId = toString origin.gitlabProjectId ↔
      origin.gitlabProjectId = bctx.gitlabProjectId :=
    ⟨fun h => (toString_int_injective h).symm, fun h => by rw [h]⟩
  unfold Apart headOf
  cases origin.isMultiInstanceWorkspace with
  | false =>
    cases bctx.isMultiInstanceWorkspace with
    | false =>
      simp only [Bool.false_eq_true, if_false, hproject, true_and, false_implies, and_true]
      exact ⟨fun hurl hid _ => hurl hid, fun hurl hid => hurl hid hid⟩
    | true =>
      simp only [Bool.false_eq_true, if_false, hproject, false_and, iff_false]
      exact ⟨fun hid => ⟨hid, fun h => absurd h hid⟩, And.left⟩
  | true =>
    cases bctx.isMultiInstanceWorkspace with
    | false =>
      simp only [if_true, Bool.true_eq_false, false_and, iff_false]
      exact ⟨fun hread => ⟨Ne.symm hread, fun _ h => absurd h.symm hread⟩, fun h => Ne.symm h.1⟩
    | true =>
      simp only [if_true, true_and, true_implies]
      by_cases hread : env.hash8 origin.gitlabBaseUrl = toString bctx.gitlabProjectId
      · rw [if_pos hread]
        constructor
        · rintro ⟨hurl, hid⟩
          exact ⟨iff_of_true hread.symm ⟨hid, by rw [hurl]⟩, fun _ _ => hurl⟩
        · rintro ⟨hsame, hurl⟩
          obtain ⟨hid, -⟩ := hsame.mp hread.symm
          exact ⟨hurl hid hread.symm, hid⟩
      · rw [if_neg hread]
        have hhead : toString bctx.gitlabProjectId ≠ env.hash8 origin.gitlabBaseUrl := Ne.symm hread
        constructor
        · intro hsame
          exact ⟨iff_of_false hhead fun h => hsame h.symm, fun _ h => absurd h hhead⟩
        · rintro ⟨hsame, -⟩ h
          exact hhead (hsame.mpr h.symm)

/-- The migrations are exact as long as the binding and the bindings that wrote the rows of its
workspace do not get in each other's way. -/
theorem exact_iff {env : Env} (hhash : ∀ url, ':' ∉ (env.hash8 url).toList)
    {binding : BindingDoc} {bctx : BindingContext} (hserves : Serves bctx binding)
    {writer : IdMapDoc → BindingContext} {w : World} (hwritten : Written env writer w.idmap) :
    Exact env binding bctx writer w ↔
      ∀ row ∈ w.idmap.rows, row.gitlabKind = .merge_request →
        row.workspaceUuid = bctx.workspaceUuid → Apart env bctx (writer row) := by
  constructor
  · intro hexact row hrow hkind hworkspace
    have hmem := mem_mirrorsOf_iff hhash hserves hwritten hrow hkind
    have hvisits := hexact.visits row hrow
    rw [hmem, lookUp_iff hwritten hrow hkind, and_iff_right hworkspace,
      and_iff_right hworkspace] at hvisits
    refine (apart_iff env bctx (writer row)).mpr ⟨hvisits, fun hproject hhead => ?_⟩
    by_contra hinstance
    refine hexact.unread row hrow ⟨hkind, hworkspace, hproject, hinstance⟩ ?_
    exact (visits_iff_mem hserves hwritten hrow hkind hworkspace).mpr
      (hmem.mpr ⟨hworkspace, hhead⟩)
  · intro hapart
    have hunread : ∀ row ∈ w.idmap.rows, Foreign bctx (writer row) row →
        ¬ Visits (mirrorsOf binding w.idmap) row.hulyRef := by
      intro row hrow hforeign hvisits
      have hmem :=
        (visits_iff_mem hserves hwritten hrow hforeign.kind hforeign.workspace).mp hvisits
      obtain ⟨-, hhead⟩ := (mem_mirrorsOf_iff hhash hserves hwritten hrow hforeign.kind).mp hmem
      have hboth := (apart_iff env bctx (writer row)).mp
        (hapart row hrow hforeign.kind hforeign.workspace)
      exact hforeign.instance_ne (hboth.2 hforeign.project hhead)
    refine ⟨fun row hrow => ?_, hunread, fun row hrow hforeign => ?_⟩
    · by_cases hkind : row.gitlabKind = .merge_request
      · rw [mem_mirrorsOf_iff hhash hserves hwritten hrow hkind, lookUp_iff hwritten hrow hkind]
        refine and_congr_right fun hworkspace => ?_
        exact ((apart_iff env bctx (writer row)).mp (hapart row hrow hkind hworkspace)).1
      · obtain ⟨hmirror, hlook⟩ := not_selected_of_kind hkind
        exact iff_of_false hmirror hlook
    · have hspared := hunread row hrow hforeign
      exact ⟨fun drain => migrateMixinSplit_spares env drain hspared,
        migrateReviewerLabels_spares env hspared⟩

/-- The services, with hashes as they are written. -/
def hashing : Env := { Env.quiet quietBinding with hash8 := fun _ => "9f86d081" }

/-- The project of `quietBinding`, in a workspace with a second instance. -/
def prefixed : BindingContext := { quietBinding with isMultiInstanceWorkspace := true }

def storeWith (row : IdMapDoc) : World :=
  { World.initial with idmap := .single row }

def ownRow (bctx : BindingContext) : IdMapDoc :=
  ⟨"ws", .merge_request, projectKey hashing bctx (.num 3), issueClass, "mirror"⟩

theorem written_ownRow (bctx : BindingContext) (h : bctx.workspaceUuid = "ws") :
    Written hashing (fun _ => bctx) (storeWith (ownRow bctx)).idmap := by
  intro row hrow _
  obtain rfl := List.mem_singleton.mp hrow
  exact ⟨rfl, 3, by rw [h]; rfl⟩

theorem hashing_colon (url : String) : ':' ∉ (hashing.hash8 url).toList := by
  have hhash : hashing.hash8 url = "9f86d081" := rfl
  rw [hhash]
  decide

/-- In a workspace with one instance the binding's own row is the one that is migrated. -/
theorem exact_iff_ownRow :
    Exact hashing MixinMigration.pausedBinding quietBinding (fun _ => quietBinding)
      (storeWith (ownRow quietBinding)) :=
  (exact_iff hashing_colon ⟨rfl, rfl⟩ (written_ownRow quietBinding rfl)).mpr
    fun _ _ _ _ _ => rfl

/-- In a workspace with two instances the binding's own row is passed over. -/
theorem not_exact_prefixed :
    ¬ ∀ (env : Env) (binding : BindingDoc) (bctx : BindingContext)
      (writer : IdMapDoc → BindingContext) (w : World),
      (∀ url, ':' ∉ (env.hash8 url).toList) → Serves bctx binding → Written env writer w.idmap →
        Exact env binding bctx writer w := by
  intro hall
  have hexact := hall hashing MixinMigration.pausedBinding prefixed (fun _ => prefixed)
    (storeWith (ownRow prefixed)) hashing_colon ⟨rfl, rfl⟩ (written_ownRow prefixed rfl)
  have hfound : LooksUp hashing prefixed (storeWith (ownRow prefixed)).idmap (ownRow prefixed) :=
    ⟨3, IdMap.findByGitlab_eq_some_iff.mpr ⟨List.mem_singleton_self _, rfl⟩⟩
  have hmirror := (List.mem_filter.mp ((hexact.visits _ (List.mem_singleton_self _)).mpr hfound)).2
  exact absurd hmirror (by decide +kernel)

end MigrationSelection

end HulyGitlab
