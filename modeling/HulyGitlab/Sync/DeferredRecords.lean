import HulyGitlab.Lib.Redelivery
import HulyGitlab.Sync.CrashResume
import HulyGitlab.Sync.EpicMembership
import HulyGitlab.Sync.Frames
import HulyGitlab.Sync.NotesConvergence

/-!
# Records that come before what they depend on

A note and a thread need the mirror of their parent, an epic links the mirrors
of its children. A record that comes too early is handed back once or applied in
part; the backfill lists it again, under the same event id and version.
-/

namespace HulyGitlab

open UserIdentity

/-- A note, a thread, or a child of an epic. -/
inductive Dependent
  | note (r : Notes.NoteRecord)
  | thread (t : SyncReviewThread)
  | epicChild (e : SyncEpic) (childIid : Int)

/-- The handler of the kind a record is enqueued with. -/
def dispatchRemote (env : Env) (e : EnqueuedRecord) : Sync Unit :=
  if e.kind = "note" then Notes.applyRemote env e.binding e.record
  else if e.kind = "review" then Reviews.applyRemote env e.binding e.record
  else if e.kind = "epic" then Epics.applyRemote env e.binding e.record
  else pure ()

namespace Dependent

def kind : Dependent → String
  | .note _ => "note"
  | .thread _ => "review"
  | .epicChild _ _ => "epic"

def fields : Dependent → Fields
  | .note r => r.toFields
  | .thread t => t.toFields
  | .epicChild e _ => e.toFields

def remote : Dependent → RemoteRecord
  | .note r => .note r.toFields
  | .thread t => .thread t
  | .epicChild e _ => .epic e

/-- What the record is marked with when it is handed back; epics never are. -/
def retryFlag : Dependent → Option String
  | .note _ => some NOTE_RETRY_FLAG
  | .thread _ => some REVIEW_RETRY_FLAG
  | .epicChild _ _ => none

section Events

variable (binding : BindingRef) (bctx : BindingContext)

def versionOf (updatedAt : Nat) : String := (JsValue.date updatedAt).text

/-- `backfill:${projectId}:…` of a note, after the type of its parent. -/
def notePrefix (r : Notes.NoteRecord) : String :=
  if Notes.parentKind (.obj r.note.toFields) = .merge_request then "backfill:mr" else "backfill"

/-- What the backfill enqueues for the record, at every tick that lists it. -/
def listed : Dependent → EnqueuedRecord
  | .note r =>
      ⟨binding, "note", r.toFields,
        Notes.eventIdOf (notePrefix r) bctx (.num r.noteableIid) (.num r.note.id) ++ ":" ++
          versionOf r.note.updatedAt, versionOf r.note.updatedAt⟩
  | .thread t =>
      ⟨binding, "review", t.toFields,
        Notes.eventIdOf "backfill:review" bctx (.num t.mergeRequestIid) (.str t.discussionId) ++
          ":" ++ versionOf t.updatedAt, versionOf t.updatedAt⟩
  | .epicChild e _ =>
      ⟨binding, "epic", e.toFields,
        "backfill:epic:" ++ toString e.groupId ++ ":" ++ toString e.iid ++ ":" ++
          versionOf e.updatedAt, versionOf e.updatedAt⟩

/-- An event of the record, as it was listed or handed back. -/
structure Event (d : Dependent) (e : EnqueuedRecord) : Prop where
  binding : e.binding = binding
  kind : e.kind = d.kind
  record : e.record = d.fields ∨
    ∃ flag ∈ d.retryFlag, e.record = d.fields.set flag (.bool true)

/-- The engine takes the events of the record in and dispatches them. -/
def handling (env : Env) (d : Dependent) :
    Intake.Handling World EnqueuedRecord (String × String × String) where
  listed := d.listed binding bctx
  key e := (e.binding, e.eventId, e.version)
  handle e w :=
    let w' := ((dispatchRemote env e).run w).2
    (w', w'.enqueued.drop w.enqueued.length)

end Events

section States

variable (env : Env) (bctx : BindingContext)

/-- The managers take the record: a note of a user, or a child of an epic where epics are
mirrored. -/
def Taken : Dependent → Prop
  | .note r => r.note.system = false
  | .thread _ => True
  | .epicChild e childIid => childIid ∈ e.childIssueIids ∧
      ¬ (bctx.edition ≠ none ∧ bctx.edition ≠ some "ee") ∧
      Epics.pickBacklogStatus bctx.statuses ≠ none

/-- The store is in order, and mirrors of the record that have a row have a document. -/
structure Orderly (d : Dependent) (w : World) : Prop where
  inOrder : InOrder bctx.hulyProjectRef w
  unclaimed : Unclaimed env w
  placed : ∀ o ∈ (d.remote.mirror env bctx).objects, (d.remote.mirror env bctx).Placed bctx o w
  mirrorRows : Epics.MirrorRows w

/-- What the record depends on is mirrored. -/
def Ready (w : World) : Dependent → Prop
  | .note r => ∃ row, w.idmap.findByGitlab bctx.workspaceUuid
      (Notes.parentKind (.obj r.note.toFields)) (projectKey env bctx (.num r.noteableIid)) =
        some row
  | .thread t => ∃ row, w.idmap.findByGitlab bctx.workspaceUuid .merge_request
      (projectKey env bctx (.num t.mergeRequestIid)) = some row
  | .epicChild _ childIid => ∃ ref, ref ∈ Epics.linked env bctx [childIid] w

/-- Every message of the record is there. -/
def Messages (r : RemoteRecord) (w : World) : Prop :=
  ∀ o ∈ (r.mirror env bctx).objects, ∃ ref doc, (r.mirror env bctx).row bctx o ref ∈ w.idmap.rows ∧
    w.docs.get? ref = some doc ∧ doc.objectClass = (r.mirror env bctx).objectClass

/-- The messages are there, or the child carries its epic. -/
def Applied (w : World) : Dependent → Prop
  | .note r => Messages env bctx (.note r.toFields) w
  | .thread t => Messages env bctx (.thread t) w
  | .epicChild e childIid => ∃ ref, ref ∈ Epics.linked env bctx [childIid] w ∧
      ref ∈ Epics.carriers e.iid w

end States

end Dependent

section Growth

variable {m : Mirror} {bctx : BindingContext} {w w' : World}

/-- A row is found where it was found before. -/
theorem Grows.findByGitlab (h : Grows m bctx w w') {workspaceUuid gitlabId : String}
    {kind : GitlabKind} (hkind : kind ≠ .user) {row : IdMapDoc}
    (hrow : w.idmap.findByGitlab workspaceUuid kind gitlabId = some row) :
    w'.idmap.findByGitlab workspaceUuid kind gitlabId = some row := by
  obtain ⟨hmem, hkey⟩ := IdMap.findByGitlab_eq_some_iff.mp hrow
  have hkinds : row.gitlabKind = kind := congrArg (fun key => key.2.1) hkey
  exact IdMap.findByGitlab_eq_some_iff.mpr ⟨h.rows row hmem (hkinds ▸ hkind), hkey⟩

/-- Rows of other kinds do not come along. -/
theorem Grows.findByGitlab_of_ne (h : Grows m bctx w w') {workspaceUuid gitlabId : String}
    {kind : GitlabKind} (hkind : kind ≠ .user) (hne : kind ≠ m.gitlabKind) :
    w'.idmap.findByGitlab workspaceUuid kind gitlabId =
      w.idmap.findByGitlab workspaceUuid kind gitlabId := by
  apply Option.ext
  intro row
  refine ⟨fun hrow => ?_, h.findByGitlab hkind⟩
  obtain ⟨hmem, hkey⟩ := IdMap.findByGitlab_eq_some_iff.mp hrow
  have hkinds : row.gitlabKind = kind := congrArg (fun key => key.2.1) hkey
  obtain hold | hguest | ⟨o, -, ref, doc, rfl, -⟩ := h.fresh row hmem
  · exact IdMap.findByGitlab_eq_some_iff.mpr ⟨hold, hkey⟩
  · exact absurd (hkinds.symm.trans hguest.1) hkind
  · exact absurd hkinds.symm hne

theorem Grows.mirrorRows (h : Grows m bctx w w') (hw : Epics.MirrorRows w)
    (hm : m.gitlabKind ≠ .issue ∧ m.gitlabKind ≠ .merge_request) : Epics.MirrorRows w' := by
  intro row hrow hkind
  obtain hold | hguest | ⟨o, -, ref, doc, rfl, -⟩ := h.fresh row hrow
  · exact hw row hold hkind
  · rw [hguest.1] at hkind
    obtain hkind | hkind := hkind <;> cases hkind
  · exact absurd hkind (not_or.mpr hm)

/-- The mirror of an epic changes nothing about where its children are found. -/
theorem Grows.linked_subset {env : Env} (h : Grows m bctx w w')
    (hm : m.gitlabKind ≠ .issue ∧ m.gitlabKind ≠ .merge_request) (iids : List Int) :
    Epics.linked env bctx iids w ⊆ Epics.linked env bctx iids w' := by
  rintro ref ⟨⟨doc, hdoc⟩, iid, hiid, htarget⟩
  obtain ⟨doc', hdoc', -⟩ := h.docs ref doc hdoc
  refine ⟨⟨doc', hdoc'⟩, iid, hiid, ?_⟩
  rw [← htarget, Epics.linkTarget, Epics.linkTarget,
    h.findByGitlab_of_ne (by decide) hm.2.symm, h.findByGitlab_of_ne (by decide) hm.1.symm]

end Growth

/-- None of the records is an issue or a merge request. -/
theorem Dependent.kind_ne (env : Env) (bctx : BindingContext) (d : Dependent) :
    (d.remote.mirror env bctx).gitlabKind ≠ .issue ∧
      (d.remote.mirror env bctx).gitlabKind ≠ .merge_request := by
  cases d <;> exact ⟨GitlabKind.noConfusion, GitlabKind.noConfusion⟩

/-- What a dispatch of an event of the record does. -/
structure Dependent.Handled (env : Env) (binding : BindingRef) (bctx : BindingContext)
    (d : Dependent) (w w' : World) : Prop where
  grows : Grows (d.remote.mirror env bctx) bctx w w'
  handed : ∃ es, w'.enqueued = w.enqueued ++ es ∧ ∀ e ∈ es, d.Event binding e
  applied : d.Orderly env bctx w → Ready env bctx w d → Applied env bctx w' d

theorem enqueued_of_writes {A : Type} {m : Sync A} (hm : Writes mirrorParts m) (w : World) :
    (m.run w).2.enqueued = w.enqueued ++ [] := by
  rw [List.append_nil]
  exact (hm w).same .enqueued (by decide)

/-- The messages of a record that is complete are there. -/
theorem messages_of_completes {env : Env} {bctx : BindingContext} {r : RemoteRecord} {w w' : World}
    (hgrows : Grows (r.mirror env bctx) bctx w w')
    (hplaced : ∀ o ∈ (r.mirror env bctx).objects, (r.mirror env bctx).Placed bctx o w)
    (hdone : Completes (r.mirror env bctx) (r.mirror env bctx).objects bctx w w') :
    Dependent.Messages env bctx r w' := by
  intro o ho
  obtain ⟨ref, doc, hrow, hdoc, -⟩ := hdone.mirrored o ho
  obtain ⟨-, doc', hdoc', hclass⟩ := hgrows.stillPlaced (hplaced o ho) _ hrow rfl
  obtain rfl := Option.some.inj (hdoc.symm.trans hdoc')
  exact ⟨ref, doc, hrow, hdoc, hclass⟩

/-- A marked record is handed back at most once. -/
theorem markAndRetry_of_event {fields record marked : Fields} {flag : String}
    (hrecord : record = fields ∨ record = fields.set flag (.bool true))
    (hmarked : markAndRetry record flag = some marked) :
    marked = fields.set flag (.bool true) := by
  unfold markAndRetry at hmarked
  obtain rfl | rfl := hrecord
  · split_ifs at hmarked
    exact (Option.some.inj hmarked).symm
  · rw [if_pos (by rw [Fields.field_set, if_pos rfl])] at hmarked
    cases hmarked

section Handled

variable {env : Env} (h : env.Healthy) {binding : BindingRef} {bctx : BindingContext}
  (hload : env.loadBinding binding = .ok bctx) {w : World}
include h hload

namespace Notes

/-- What is read of the record of a note. -/
structure Carries (r : NoteRecord) (rawRecord : Fields) : Prop where
  noteableIid : rawRecord.field "noteableIid" = .num r.noteableIid
  note : rawRecord.field "note" = .obj r.note.toFields

omit h hload in
theorem Carries.reads {r : NoteRecord} {rawRecord : Fields} (hr : Carries r rawRecord) (now : Nat) :
    Reads rawRecord now (.num r.noteableIid) (.obj r.note.toFields) := by
  unfold Reads
  rw [hr.noteableIid, hr.note, if_pos ⟨rfl, JsValue.noConfusion⟩]
  exact ⟨rfl, rfl⟩

omit h hload in
theorem Carries.mirror_eq {r : NoteRecord} {rawRecord : Fields} (hr : Carries r rawRecord) :
    mirror env bctx rawRecord = mirror env bctx r.toFields := by
  have hid : noteId rawRecord = noteId r.toFields := by
    have hsame := id_of_reads (hr.reads 0)
    have hown := id_of_reads ((⟨rfl, rfl⟩ : Carries r r.toFields).reads 0)
    exact hsame.symm.trans hown
  simp only [mirror, mirrorObject, hid]

omit h hload in
theorem carries_of_event {r : NoteRecord} {e : EnqueuedRecord}
    (he : (Dependent.note r).Event binding e) : Carries r e.record := by
  obtain hrecord | ⟨flag, hflag, hrecord⟩ := he.record
  · rw [hrecord]
    exact ⟨rfl, rfl⟩
  · cases hflag
    rw [hrecord]
    exact ⟨by rw [Fields.field_set, if_neg (by decide)]; rfl,
      by rw [Fields.field_set, if_neg (by decide)]; rfl⟩

/-- A note without its parent is handed back, if it was not before. -/
theorem handed_of_event {r : NoteRecord} (huser : r.note.system = false) {e : EnqueuedRecord}
    (he : (Dependent.note r).Event binding e) :
    ∃ es, ((applyRemote env binding e.record).run w).2.enqueued = w.enqueued ++ es ∧
      ∀ e' ∈ es, (Dependent.note r).Event binding e' := by
  rw [run_of_reads env binding ((carries_of_event he).reads w.now)]
  unfold applyNote Sync.loadBinding findParent
  rw [JsValue.prop_obj, SyncNote.field_system, Effect.ofExcept_ok_bind_run, huser,
    if_neg Bool.noConfusion, hload, Effect.ofExcept_ok_bind_run,
    Effect.bind_of_ok (Sync.findByGitlab_run h _ _ _ w)]
  cases w.idmap.findByGitlab bctx.workspaceUuid (parentKind (.obj r.note.toFields))
      (projectKey env bctx (.num r.noteableIid)) with
  | some row =>
    exact ⟨[], enqueued_of_writes (applyMapped_writes env binding bctx row.hulyRef _) _,
      fun _ hmem => absurd hmem List.not_mem_nil⟩
  | none =>
    dsimp only
    cases hmarked : markAndRetry e.record NOTE_RETRY_FLAG with
    | none => exact ⟨[], (List.append_nil _).symm, fun _ hmem => absurd hmem List.not_mem_nil⟩
    | some marked =>
      have hrecord : e.record = r.toFields ∨
          e.record = Fields.set r.toFields NOTE_RETRY_FLAG (.bool true) := by
        obtain hsame | ⟨flag, hflag, hset⟩ := he.record
        · exact .inl hsame
        · cases hflag
          exact .inr hset
      refine ⟨[_], rfl, fun e' hmem => ?_⟩
      rw [List.mem_singleton.mp hmem]
      exact ⟨rfl, rfl, .inr ⟨_, rfl, markAndRetry_of_event hrecord hmarked⟩⟩

theorem handled_of_event {r : NoteRecord} (huser : r.note.system = false) {e : EnqueuedRecord}
    (he : (Dependent.note r).Event binding e) :
    (Dependent.note r).Handled env binding bctx w ((applyRemote env binding e.record).run w).2 where
  grows := by
    have hgrows := RemoteRecord.growing hload (.note e.record) w
    rwa [RemoteRecord.mirror, (carries_of_event he).mirror_eq] at hgrows
  handed := handed_of_event h hload huser he
  applied := by
    intro hw hready
    have hcarries := carries_of_event he
    have hmirror : (RemoteRecord.note e.record).mirror env bctx = mirror env bctx r.toFields :=
      hcarries.mirror_eq
    have hplaced : ∀ o ∈ ((RemoteRecord.note e.record).mirror env bctx).objects,
        ((RemoteRecord.note e.record).mirror env bctx).Placed bctx o w := by
      rw [hmirror]
      exact hw.placed
    have hdone := RemoteRecord.completes h hload (.note e.record) hw.inOrder hw.unclaimed hplaced
      ⟨_, _, hcarries.reads w.now, wellFormed_toFields huser, hready⟩
    have hgrows := RemoteRecord.growing hload (.note e.record) w
    rw [hmirror] at hdone hgrows
    exact messages_of_completes (r := .note r.toFields) hgrows hw.placed hdone

end Notes

namespace Reviews

/-- What is read of the record of a thread. -/
def Carries (t : SyncReviewThread) (record : Fields) : Prop :=
  ∀ key, key ≠ REVIEW_RETRY_FLAG → record.field key = t.toFields.field key

omit h hload in
theorem carries_of_event {t : SyncReviewThread} {e : EnqueuedRecord}
    (he : (Dependent.thread t).Event binding e) : Carries t e.record := by
  intro key hkey
  obtain hrecord | ⟨flag, hflag, hrecord⟩ := he.record
  · rw [hrecord]
    rfl
  · cases hflag
    rw [hrecord, Fields.field_set, if_neg hkey.symm]
    rfl

/-- With its merge request mirrored, a thread is applied as if it had never been handed back. -/
theorem run_of_parent {t : SyncReviewThread} {record : Fields} (hr : Carries t record)
    {row : IdMapDoc} (hrow : w.idmap.findByGitlab bctx.workspaceUuid .merge_request
      (projectKey env bctx (.num t.mergeRequestIid)) = some row) :
    (applyRemote env binding record).run w =
      (applyMapped env binding bctx row.hulyRef t.toFields).run { w with
        lookups := w.lookups ++
          [(.merge_request, projectKey env bctx (.num t.mergeRequestIid))] } := by
  have hmapped : applyMapped env binding bctx row.hulyRef record =
      applyMapped env binding bctx row.hulyRef t.toFields := by
    unfold applyMapped
    rw [hr "resolvedBy" (by decide), hr "resolvedAt" (by decide), hr "notes" (by decide),
      hr "discussionId" (by decide), hr "resolved" (by decide), hr "updatedAt" (by decide)]
  unfold applyRemote Sync.loadBinding findParent
  rw [hload, Effect.ofExcept_ok_bind_run, hr "mergeRequestIid" (by decide),
    SyncReviewThread.field_mergeRequestIid, Effect.bind_of_ok (Sync.findByGitlab_run h _ _ _ w),
    hrow]
  dsimp only
  rw [hmapped]

/-- A thread without its merge request is handed back, if it was not before, and nothing else is
done. -/
theorem run_of_orphan {t : SyncReviewThread} {e : EnqueuedRecord}
    (he : (Dependent.thread t).Event binding e)
    (hnone : w.idmap.findByGitlab bctx.workspaceUuid .merge_request
      (projectKey env bctx (.num t.mergeRequestIid)) = none) :
    ∃ lookups es, ((applyRemote env binding e.record).run w).2 =
        { w with lookups := lookups, enqueued := w.enqueued ++ es } ∧
      ∀ e' ∈ es, (Dependent.thread t).Event binding e' := by
  have hr := carries_of_event he
  unfold applyRemote Sync.loadBinding findParent
  rw [hload, Effect.ofExcept_ok_bind_run, hr "mergeRequestIid" (by decide),
    SyncReviewThread.field_mergeRequestIid, Effect.bind_of_ok (Sync.findByGitlab_run h _ _ _ w),
    hnone]
  dsimp only
  unfold deferThread
  rw [hr "updatedAt" (by decide), SyncReviewThread.field_updatedAt, JsValue.toISOString_date]
  cases hmarked : markAndRetry e.record REVIEW_RETRY_FLAG with
  | none =>
    refine ⟨w.lookups ++ [(.merge_request, projectKey env bctx (.num t.mergeRequestIid))], [], ?_,
      fun _ hmem => absurd hmem List.not_mem_nil⟩
    rw [List.append_nil]
    rfl
  | some marked =>
    have hrecord : e.record = t.toFields ∨
        e.record = Fields.set t.toFields REVIEW_RETRY_FLAG (.bool true) := by
      obtain hsame | ⟨flag, hflag, hset⟩ := he.record
      · exact .inl hsame
      · cases hflag
        exact .inr hset
    refine ⟨_, [_], rfl, fun e' hmem => ?_⟩
    rw [List.mem_singleton.mp hmem]
    exact ⟨rfl, rfl, .inr ⟨_, rfl, markAndRetry_of_event hrecord hmarked⟩⟩

theorem handled_of_event {t : SyncReviewThread} {e : EnqueuedRecord}
    (he : (Dependent.thread t).Event binding e) :
    (Dependent.thread t).Handled env binding bctx w
      ((applyRemote env binding e.record).run w).2 := by
  cases hparent : w.idmap.findByGitlab bctx.workspaceUuid .merge_request
      (projectKey env bctx (.num t.mergeRequestIid)) with
  | none =>
    obtain ⟨lookups, es, hrun, hes⟩ := run_of_orphan h hload he hparent
    rw [hrun]
    have hedits : Edits bctx w { w with lookups := lookups, enqueued := w.enqueued ++ es } :=
      Edits.of_same rfl rfl
    refine ⟨hedits.grows, ⟨es, rfl, hes⟩, fun _ hready => ?_⟩
    obtain ⟨row, hrow⟩ := hready
    rw [hparent] at hrow
    cases hrow
  | some row =>
    have hown : Carries t t.toFields := fun _ _ => rfl
    have hsame : (applyRemote env binding e.record).run w =
        (applyRemote env binding t.toFields).run w :=
      (run_of_parent h hload (carries_of_event he) hparent).trans
        (run_of_parent h hload hown hparent).symm
    have hgrows := RemoteRecord.growing hload (.thread t) w
    rw [hsame]
    refine ⟨hgrows, ⟨[], ?_, fun _ hmem => absurd hmem List.not_mem_nil⟩, fun hw hready => ?_⟩
    · rw [run_of_parent h hload hown hparent]
      exact enqueued_of_writes (applyMapped_writes env binding bctx row.hulyRef _) _
    · exact messages_of_completes hgrows hw.placed
        (RemoteRecord.completes h hload (.thread t) hw.inOrder hw.unclaimed hw.placed hready)

end Reviews

namespace Epics

omit hload in
theorem putMixin_returns (ref : Ref) (mixin : String) (attributes : Fields) :
    Effect.Returns (fun _ => True) (fun _ => True) (Sync.putMixin env ref mixin attributes) := by
  intro w _
  rw [Sync.putMixin, Effect.bind_of_ok (Sync.reach_run h _ w)]
  exact ⟨_, _, rfl, trivial, trivial⟩

omit hload in
theorem linkChild_returns (epicIid childIid : JsValue) :
    Effect.Returns (fun _ => True) (fun _ => True) (linkChild env bctx epicIid childIid) := by
  intro w _
  unfold linkChild
  dsimp only
  rw [Effect.bind_of_ok (Sync.findByGitlab_run h _ _ _ w)]
  cases w.idmap.findByGitlab bctx.workspaceUuid .merge_request (projectKey env bctx childIid) with
  | some row => exact putMixin_returns h _ _ _ _ trivial
  | none =>
    dsimp only
    rw [Effect.bind_of_ok (Sync.findByGitlab_run h _ _ _ _)]
    dsimp only
    cases w.idmap.findByGitlab bctx.workspaceUuid .issue (projectKey env bctx childIid) with
    | some row => exact putMixin_returns h _ _ _ _ trivial
    | none => exact ⟨_, _, rfl, trivial, trivial⟩

omit hload in
theorem linkChildren_returns (e : SyncEpic) (w : World) :
    ((linkChildren env binding bctx e.toFields).run w).1 = .ok () := by
  have hlinks : Effect.Returns (fun _ => True) (fun _ => True)
      (Effect.forEach (linkChild env bctx (.num e.iid)) (e.childIssueIids.map .num)) :=
    Effect.Returns.forEach fun _ _ => linkChild_returns h _ _
  obtain ⟨_, w₁, hrun, -⟩ := hlinks w trivial
  unfold linkChildren
  rw [SyncEpic.field_childIssueIids, SyncEpic.field_iid, JsValue.elements_arr,
    Effect.ofExcept_ok_bind_run, Effect.bind_of_ok hrun, Sync.setCursor_run h]

omit hload in
theorem createFromRemote_returns (e : SyncEpic) (hun : Unclaimed env w)
    (hlacks : (mirror env bctx e).Lacks bctx (mirrorObject env bctx e) w) (description : JsValue)
    (status : Ref) (remoteTs : JsDate) :
    ∃ w₁, (createFromRemote env bctx (epicKey env bctx (.num e.groupId) (.num e.iid)) e.toFields
      description status remoteTs).run w = (.ok (), w₁) := by
  have hdata : buildEpicMixinCreateData e.toFields = .ok [("epicIid", .num e.iid),
      ("groupId", .num e.groupId), ("state", e.state.toJs), ("webUrl", .str e.webUrl),
      ("childIssueIids", .arr (e.childIssueIids.map .num))] := by
    simp [buildEpicMixinCreateData, buildEpicMixinUpdateData, bind, Except.bind, pure, Except.pure]
  have hd := @drafted_createDoc env (mirror env bctx e) bctx bctx.hulyProjectRef
    (Fields.assign [("modifiedOn", .num w.now)]
      (createAttributes bctx e.toFields description status remoteTs)) w
  obtain ⟨w₂, hupsert, -⟩ := hd.upsert_run h hun (List.mem_singleton_self _) (covers_nil _) hlacks
  obtain ⟨_, w₃, hput, -⟩ := putMixin_returns h (env.generateId w.docs.keys) MR_EPIC_MIXIN
    (withOriginatedMarker [("epicIid", .num e.iid), ("groupId", .num e.groupId),
      ("state", e.state.toJs), ("webUrl", .str e.webUrl),
      ("childIssueIids", .arr (e.childIssueIids.map .num))]) w₂ trivial
  unfold createFromRemote
  rw [Effect.bind_of_ok (Sync.createDoc_run h _ _ _ w)]
  exact ⟨w₃, (Effect.bind_of_ok hupsert).trans (by rw [hdata, Effect.ofExcept_ok_bind_run, hput])⟩

/-- An epic that is mirrored, or can be, is applied to its end. -/
theorem applyRemote_returns {e : SyncEpic} {childIid : Int}
    (hedition : ¬ (bctx.edition ≠ none ∧ bctx.edition ≠ some "ee"))
    (hstatus : pickBacklogStatus bctx.statuses ≠ none)
    (hw : (Dependent.epicChild e childIid).Orderly env bctx w) :
    ((applyRemote env binding e.toFields).run w).1 = .ok () := by
  obtain ⟨status, hstatus⟩ := Option.ne_none_iff_exists'.mp hstatus
  have hplaced : (mirror env bctx e).Placed bctx (mirrorObject env bctx e) w :=
    hw.placed _ (List.mem_singleton_self _)
  unfold applyRemote Sync.loadBinding
  rw [hload, Effect.ofExcept_ok_bind_run, if_neg hedition, SyncEpic.field_groupId,
    SyncEpic.field_iid, SyncEpic.field_description, SyncEpic.field_updatedAt, hstatus]
  dsimp only
  rw [Effect.bind_of_ok (Sync.findByGitlab_run h _ _ _ w), JsValue.asStr_str,
    Effect.ofExcept_ok_bind_run]
  let asked : World :=
    { w with lookups := w.lookups ++ [(.epic, epicKey env bctx (.num e.groupId) (.num e.iid))] }
  by_cases hlacks : (mirror env bctx e).Lacks bctx (mirrorObject env bctx e) w
  · have hrow : w.idmap.findByGitlab bctx.workspaceUuid .epic
        (epicKey env bctx (.num e.groupId) (.num e.iid)) = none := hlacks
    rw [hrow, JsValue.epochMs_date, Effect.ofExcept_ok_bind_run]
    dsimp only
    have hun : Unclaimed env asked := hw.unclaimed
    have hasked : (mirror env bctx e).Lacks bctx (mirrorObject env bctx e) asked := hlacks
    obtain ⟨w₁, hcreate⟩ := createFromRemote_returns h e hun hasked
      (.str (env.gfmMarkdownToMarkup e.description (groupUrl bctx (.num e.groupId) ++ "/-/epics")
        (groupUrl bctx (.num e.groupId)))) status (JsValue.date e.updatedAt).getTime
    rw [Effect.bind_of_ok hcreate]
    exact linkChildren_returns h e w₁
  · obtain ⟨ref, doc, hrow, -, hdoc, hclass⟩ := hplaced.found hlacks
    have hfound : w.idmap.findByGitlab bctx.workspaceUuid .epic
        (epicKey env bctx (.num e.groupId) (.num e.iid)) =
        some ((mirror env bctx e).row bctx (mirrorObject env bctx e) ref) := hrow
    rw [hfound, JsValue.epochMs_date, Effect.ofExcept_ok_bind_run]
    dsimp only
    have hasked : asked.docs.get? ref = some doc := hdoc
    obtain ⟨w₁, doc₁, hupdate, -⟩ := updateFromRemote_run bctx h hasked hclass e
      (.str (env.gfmMarkdownToMarkup e.description (groupUrl bctx (.num e.groupId) ++ "/-/epics")
        (groupUrl bctx (.num e.groupId)))) (JsValue.date e.updatedAt).getTime
    have hrun : (updateFromRemote env ((mirror env bctx e).row bctx (mirrorObject env bctx e)
        ref).hulyRef e.toFields _ _).run asked = _ := hupdate
    rw [Effect.bind_of_ok hrun]
    exact linkChildren_returns h e w₁

/-- The children that are mirrored carry the epic when it is applied. -/
theorem handled_of_event {e : SyncEpic} {childIid : Int}
    (htaken : (Dependent.epicChild e childIid).Taken bctx) {event : EnqueuedRecord}
    (he : (Dependent.epicChild e childIid).Event binding event) :
    (Dependent.epicChild e childIid).Handled env binding bctx w
      ((applyRemote env binding event.record).run w).2 := by
  obtain ⟨hchild, hedition, hstatus⟩ := htaken
  have hrecord : event.record = e.toFields := by
    obtain hsame | ⟨flag, hflag, -⟩ := he.record
    · exact hsame
    · cases hflag
  rw [hrecord]
  have hgrows := RemoteRecord.growing hload (.epic e) w
  refine ⟨hgrows, ⟨[], enqueued_of_writes (applyRemote_writes env binding e.toFields) w,
    fun _ hmem => absurd hmem List.not_mem_nil⟩, fun hw hready => ?_⟩
  obtain ⟨ref, href⟩ := hready
  let l : Listing := ⟨e, e.childIssueIids.map fun iid => ⟨bctx.gitlabProjectId, iid⟩⟩
  have hiids : l.children.map EpicChild.iid = e.childIssueIids := by
    rw [List.map_map]
    exact List.map_id'' (fun _ => rfl) _
  have henriched : l.enriched = e := by
    unfold Listing.enriched listEpicIssues
    rw [hiids]
  have hcompletes : Completes env binding w l := by
    unfold Completes
    rw [henriched]
    exact applyRemote_returns h hload hedition hstatus hw
  have hcarriers := (apply_spec env hload hw.mirrorRows hcompletes).2
  unfold apply at hcarriers
  rw [henriched, hiids] at hcarriers
  refine ⟨ref, hgrows.linked_subset ((Dependent.epicChild e childIid).kind_ne env bctx) _ href, ?_⟩
  have hskips : ¬ Skips env bctx l w := by
    rintro (hskip | hskip | ⟨row, hrow, hgone⟩)
    · exact hedition hskip
    · exact hstatus hskip
    · obtain ⟨hmem, hkey⟩ := IdMap.findByGitlab_eq_some_iff.mp hrow
      obtain ⟨-, doc, hdoc, hclass⟩ := hw.placed _ (List.mem_singleton_self _) row hmem hkey
      have hissue : doc.objectClass = issueClass := hclass
      rw [hdoc, Option.filter_some, if_pos (decide_eq_true hissue)] at hgone
      cases hgone
  have hlinked : ref ∈ linked env bctx e.childIssueIids w := by
    obtain ⟨hdoc, iid, hiid, htarget⟩ := href
    rw [List.mem_singleton.mp hiid] at htarget
    exact ⟨hdoc, childIid, hchild, htarget⟩
  exact hcarriers ▸ Or.inr ⟨hskips, hlinked⟩

end Epics

/-- An event of a record is handled as the record is. -/
theorem Dependent.handled {d : Dependent} (htaken : d.Taken bctx) {e : EnqueuedRecord}
    (he : d.Event binding e) :
    d.Handled env binding bctx w ((dispatchRemote env e).run w).2 := by
  unfold dispatchRemote
  rw [he.binding, he.kind]
  cases d with
  | note r => exact Notes.handled_of_event h hload htaken he
  | thread t => exact Reviews.handled_of_event h hload he
  | epicChild e' childIid => exact Epics.handled_of_event h hload htaken he

/-- Whatever becomes of an event, what the record depends on stays, and so does the order. -/
theorem Dependent.applies {d : Dependent} (htaken : d.Taken bctx) :
    Intake.Applies (d.handling binding bctx env) (d.Event binding) (d.Orderly env bctx)
      (fun w => Ready env bctx w d) (fun w => Applied env bctx w d) where
  listed := by cases d <;> exact ⟨rfl, rfl, .inl rfl⟩
  handed := by
    intro e w he e' hmem
    obtain ⟨es, henqueued, hes⟩ := (handled h hload htaken he (w := w)).handed
    dsimp only [handling] at hmem
    rw [henqueued, List.drop_left] at hmem
    exact hes e' hmem
  good := by
    intro e w he hw
    have hgrows := (handled h hload htaken he (w := w)).grows
    exact ⟨hgrows.inOrder hw.inOrder, hgrows.unclaimed hw.unclaimed,
      fun o ho => hgrows.stillPlaced (hw.placed o ho),
      hgrows.mirrorRows hw.mirrorRows (d.kind_ne env bctx)⟩
  ready := by
    intro e w he _ hready
    have hgrows := (handled h hload htaken he (w := w)).grows
    cases d with
    | note r =>
      obtain ⟨row, hrow⟩ := hready
      refine ⟨row, hgrows.findByGitlab ?_ hrow⟩
      unfold Notes.parentKind
      split_ifs <;> decide
    | thread t =>
      obtain ⟨row, hrow⟩ := hready
      exact ⟨row, hgrows.findByGitlab (by decide) hrow⟩
    | epicChild e' childIid =>
      obtain ⟨ref, href⟩ := hready
      exact ⟨ref, hgrows.linked_subset ((epicChild e' childIid).kind_ne env bctx) _ href⟩
  applied := by
    intro e w he hw hready
    exact (handled h hload htaken he).applied hw hready

end Handled

/-- In every run, each tick that lists the record after what it depends on is mirrored leads to the
record being applied, if and only if at each such tick the record is applied already, or its
backfill event was not seen before, or an event of it waits in the queue. -/
theorem Dependent.linked_iff_open (env : Env) (h : env.Healthy) (binding : BindingRef)
    (bctx : BindingContext) (hload : env.loadBinding binding = .ok bctx) (d : Dependent)
    (htaken : d.Taken bctx) (s : Intake World EnqueuedRecord (String × String × String))
    (hs : s.Sound (d.Event binding) (d.Orderly env bctx))
    (acts : List (Intake.Action (String × String × String) (d.Orderly env bctx))) :
    Transition.Along (Intake.step (d.handling binding bctx env))
        (Intake.ListingLeads (d.handling binding bctx env) (fun w => Ready env bctx w d)
          fun w => Applied env bctx w d) s acts ↔
      Transition.Along (Intake.step (d.handling binding bctx env))
        (Intake.ListingOpen (d.handling binding bctx env) (fun w => Ready env bctx w d)
          fun w => Applied env bctx w d) s acts :=
  Intake.along_listingLeads_iff (d.applies h hload htaken) hs acts

/-- A comment of the issue. -/
def earlyNote : Notes.NoteRecord where
  noteableIid := 3
  note := ⟨11, "body", ⟨4, "u", "U", none, none, ""⟩, 20, 20, false, false, none⟩

/-- Nothing was listed yet. -/
def emptyIntake : Intake World EnqueuedRecord (String × String × String) :=
  ⟨World.initial, [], []⟩

/-- The issue is mirrored, and nothing else. -/
def issueMirrored : World :=
  (((RemoteRecord.issue openedIssue).applyRemote (Env.quiet quietBinding) "b").run World.initial).2

theorem sound_emptyIntake : emptyIntake.Sound ((Dependent.note earlyNote).Event "b")
    ((Dependent.note earlyNote).Orderly (Env.quiet quietBinding) quietBinding) where
  mine := fun _ hmem => absurd hmem List.not_mem_nil
  good :=
    { inOrder := inOrder_initial _
      unclaimed := unclaimed_initial _
      placed := fun _ _ _ hrow => absurd hrow List.not_mem_nil
      mirrorRows := fun _ hrow => absurd hrow List.not_mem_nil }

theorem orderly_issueMirrored :
    (Dependent.note earlyNote).Orderly (Env.quiet quietBinding) quietBinding issueMirrored := by
  have hload : (Env.quiet quietBinding).loadBinding "b" = .ok quietBinding := rfl
  have hgrows := RemoteRecord.growing hload (.issue openedIssue) World.initial
  have hrows : ∀ row ∈ issueMirrored.idmap.rows,
      row.hulyClass = issueClass ∧ row.gitlabKind = .issue := by
    decide +kernel
  refine ⟨hgrows.inOrder (inOrder_initial _), hgrows.unclaimed (unclaimed_initial _),
    fun o ho row hrow hkey => ?_, fun row hrow _ => (hrows row hrow).1⟩
  have hkind : row.gitlabKind = .note := congrArg (fun key => key.2.1) hkey
  exact absurd ((hrows row hrow).2.symm.trans hkind) (by decide)

/-- The note is listed for the first time when its issue is mirrored. -/
theorem linked_iff_open_earlyNote :
    Transition.Along
        (Intake.step ((Dependent.note earlyNote).handling "b" quietBinding (Env.quiet quietBinding)))
        (Intake.ListingLeads
          ((Dependent.note earlyNote).handling "b" quietBinding (Env.quiet quietBinding))
          (fun w => Dependent.Ready (Env.quiet quietBinding) quietBinding w (.note earlyNote))
          fun w => Dependent.Applied (Env.quiet quietBinding) quietBinding w (.note earlyNote))
        emptyIntake [.meanwhile ⟨issueMirrored, orderly_issueMirrored⟩, .list] ↔
      Transition.Along
        (Intake.step ((Dependent.note earlyNote).handling "b" quietBinding (Env.quiet quietBinding)))
        (Intake.ListingOpen
          ((Dependent.note earlyNote).handling "b" quietBinding (Env.quiet quietBinding))
          (fun w => Dependent.Ready (Env.quiet quietBinding) quietBinding w (.note earlyNote))
          fun w => Dependent.Applied (Env.quiet quietBinding) quietBinding w (.note earlyNote))
        emptyIntake [.meanwhile ⟨issueMirrored, orderly_issueMirrored⟩, .list] :=
  Dependent.linked_iff_open (Env.quiet quietBinding) (Env.quiet_healthy _) "b" quietBinding rfl
    (.note earlyNote) rfl emptyIntake sound_emptyIntake _

/-- A note that the backfill lists before its issue is mirrored: it is handed back, dropped, and
listed again in vain. -/
theorem not_linked_of_early :
    ¬ Transition.Along
        (Intake.step ((Dependent.note earlyNote).handling "b" quietBinding (Env.quiet quietBinding)))
        (Intake.ListingLeads
          ((Dependent.note earlyNote).handling "b" quietBinding (Env.quiet quietBinding))
          (fun w => Dependent.Ready (Env.quiet quietBinding) quietBinding w (.note earlyNote))
          fun w => Dependent.Applied (Env.quiet quietBinding) quietBinding w (.note earlyNote))
        emptyIntake
        ([.list, .dispatch, .dispatch, .meanwhile ⟨issueMirrored, orderly_issueMirrored⟩] ++
          [.list]) := by
  intro hall
  have hlast := ((Transition.along_append _ _ _).mp hall).2.1
  have hready : Dependent.Ready (Env.quiet quietBinding) quietBinding issueMirrored
      (.note earlyNote) := Option.isSome_iff_exists.mp (by decide +kernel)
  have happlied : ¬ Dependent.Applied (Env.quiet quietBinding) quietBinding issueMirrored
      (.note earlyNote) := by
    intro happlied
    obtain ⟨ref, doc, hrow, -⟩ := happlied _ (List.mem_singleton_self _)
    have hrows : ∀ row ∈ issueMirrored.idmap.rows, row.gitlabKind ≠ .note := by decide +kernel
    exact hrows _ hrow rfl
  refine Intake.not_listingLeads_of_listed [.dispatch, .dispatch,
    .meanwhile ⟨issueMirrored, orderly_issueMirrored⟩] ?_ rfl hready happlied ?_ hlast
  · intro hmem
    simp at hmem
  · decide +kernel

end HulyGitlab
