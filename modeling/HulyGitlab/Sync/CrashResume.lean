import HulyGitlab.Lib.Transition
import HulyGitlab.Sync.MirrorCompletion

/-!
# Records that are dispatched again

An attempt to apply a record may stop at any call, by a rejected await or with
the process; the record is dispatched again later. What an attempt created is
found by the next through the row alone.
-/

namespace HulyGitlab

open UserIdentity

/-- The records whose objects the managers create. -/
inductive RemoteRecord
  | issue (i : SyncIssue)
  | mergeRequest (m : SyncMergeRequest)
  /-- An envelope of the backfill, or the body of a Note Hook. -/
  | note (rawRecord : Fields)
  | thread (t : SyncReviewThread)
  | epic (e : SyncEpic)

namespace RemoteRecord

/-- The handler the engine dispatches the record to. -/
def applyRemote (env : Env) (binding : BindingRef) : RemoteRecord → Sync Unit
  | .issue i => Issues.applyRemote env binding i.toFields
  | .mergeRequest m => MergeRequests.applyRemote env binding m.toFields
  | .note rawRecord => Notes.applyRemote env binding rawRecord
  | .thread t => Reviews.applyRemote env binding t.toFields
  | .epic e => Epics.applyRemote env binding e.toFields

/-- What mirrors the record. -/
def mirror (env : Env) (bctx : BindingContext) : RemoteRecord → Mirror
  | .issue i => Issues.mirror env bctx i
  | .mergeRequest m => MergeRequests.mirror env bctx m
  | .note rawRecord => Notes.mirror env bctx rawRecord
  | .thread t => Reviews.mirror env t
  | .epic e => Epics.mirror env bctx e

/-- The handler comes to its create branch: there is a status for the record, and its parent is
mirrored. -/
def Creatable (env : Env) (bctx : BindingContext) (w : World) : RemoteRecord → Prop
  | .issue i => Issues.statusFor env bctx w i ≠ none
  | .mergeRequest m => (MRStatusMap.mapRemoteMRState env m.state.toJs (.bool m.draft) (.str "")
      bctx.statuses).status.text ≠ ""
  | .note rawRecord => ∃ noteableIid note, Notes.Reads rawRecord w.now noteableIid note ∧
      Notes.WellFormed note ∧ ∃ row, w.idmap.findByGitlab bctx.workspaceUuid
        (Notes.parentKind note) (projectKey env bctx noteableIid) = some row
  | .thread t => ∃ row, w.idmap.findByGitlab bctx.workspaceUuid .merge_request
      (projectKey env bctx (.num t.mergeRequestIid)) = some row
  | .epic _ => ¬ (bctx.edition ≠ none ∧ bctx.edition ≠ some "ee") ∧
      Epics.pickBacklogStatus bctx.statuses ≠ none

end RemoteRecord

/-- An attempt: where calls fail, whether the process starts anew, and when it is dispatched
again. -/
structure Attempt where
  fault : World → Service → Option Err
  restart : Bool
  now : Nat

/-- The state after an attempt; the statuses are only remembered by the process. -/
def attempt (env : Env) (binding : BindingRef) (r : RemoteRecord) (w : World) (a : Attempt) :
    World :=
  let stopped := ((r.applyRemote { env with fault := a.fault } binding).run w).2
  { stopped with
    statusCache := if a.restart then .empty else stopped.statusCache, now := a.now }

section Attempts

variable {env : Env} {binding : BindingRef} {bctx : BindingContext}

theorem RemoteRecord.growing (hload : env.loadBinding binding = .ok bctx) (r : RemoteRecord) :
    Effect.Within (Grows (r.mirror env bctx) bctx) (r.applyRemote env binding) := by
  intro w
  cases r with
  | issue i => exact (Issues.mirroring env hload i w).1
  | mergeRequest m => exact (MergeRequests.mirroring env hload m w).1
  | note rawRecord => exact (Notes.mirroring env hload rawRecord w).1
  | thread t => exact Reviews.growing env hload t w
  | epic e => exact (Epics.mirroring env hload e w).1

theorem RemoteRecord.mirror_fault (env : Env) (bctx : BindingContext) (r : RemoteRecord)
    (fault : World → Service → Option Err) :
    r.mirror { env with fault := fault } bctx = r.mirror env bctx := by
  cases r <;> rfl

/-- However an attempt stops, rows and documents only came along. -/
theorem grows_attempt (hload : env.loadBinding binding = .ok bctx) (r : RemoteRecord) (w : World)
    (a : Attempt) : Grows (r.mirror env bctx) bctx w (attempt env binding r w a) := by
  have hgrows : Grows (r.mirror { env with fault := a.fault } bctx) bctx w
      ((r.applyRemote { env with fault := a.fault } binding).run w).2 := by
    have hload' : ({ env with fault := a.fault } : Env).loadBinding binding = .ok bctx := hload
    exact RemoteRecord.growing hload' r w
  rw [RemoteRecord.mirror_fault] at hgrows
  exact ⟨hgrows.rows, hgrows.fresh, hgrows.docs, fun hw =>
    ⟨(hgrows.inOrder hw).owned, (hgrows.inOrder hw).typed⟩⟩

theorem grows_attempts (hload : env.loadBinding binding = .ok bctx) (r : RemoteRecord) (w : World)
    (attempts : List Attempt) :
    Grows (r.mirror env bctx) bctx w (Transition.exec (attempt env binding r) w attempts) := by
  refine Transition.exec_invariant' (I := Grows (r.mirror env bctx) bctx w) (fun w₁ a h => ?_)
    (Grows.refl w) attempts
  exact Grows.trans _ _ _ h (grows_attempt hload r w₁ a)

end Attempts

section Redispatch

variable {env : Env} {binding : BindingRef} {bctx : BindingContext}

/-- A single object without mixins after its row is created, or it was. -/
theorem Mirroring.completes {m : Mirror} {o : MirrorObject} {A : Type} {c : Sync A}
    (hc : Mirroring m bctx o c) {w : World} (hplaced : m.Placed bctx o w) (hagain : o.again = [])
    (honce : o.once = []) (hcreate : m.Lacks bctx o w → Created m bctx o w (c.run w).2) :
    Completes m [o] bctx w (c.run w).2 := by
  by_cases hlacks : m.Lacks bctx o w
  · exact (hcreate hlacks).completes
  · obtain ⟨ref, doc, -, hrow, hdoc, -⟩ := hplaced.found hlacks
    exact ((hc w).2 hlacks).completes_of_row hrow ⟨doc, hdoc⟩ hagain honce

/-- The redispatch of a record completes its objects. -/
theorem RemoteRecord.completes (h : env.Healthy) (hload : env.loadBinding binding = .ok bctx)
    (r : RemoteRecord) {w : World} (hin : InOrder bctx.hulyProjectRef w) (hun : Unclaimed env w)
    (hplaced : ∀ o ∈ (r.mirror env bctx).objects, (r.mirror env bctx).Placed bctx o w)
    (hcreatable : r.Creatable env bctx w) :
    Completes (r.mirror env bctx) (r.mirror env bctx).objects bctx w
      ((r.applyRemote env binding).run w).2 := by
  have hready : ∀ o, (r.mirror env bctx).Lacks bctx o w → Ready env (r.mirror env bctx) bctx o
      (StatusMap.entryOf env w.statusCache (toString bctx.gitlabProjectId) bctx.statuses) w :=
    fun o hlacks => ⟨⟨hin, rfl⟩, hun, hlacks⟩
  cases r with
  | issue i =>
    exact (Issues.mirroring env hload i).completes (hplaced _ (List.mem_singleton_self _)) rfl rfl
      fun hlacks => Issues.claiming h hload i hcreatable w (hready _ hlacks)
  | mergeRequest m =>
    exact (MergeRequests.mirroring env hload m).completes (hplaced _ (List.mem_singleton_self _))
      rfl rfl fun hlacks => MergeRequests.claiming h hload m hcreatable w (hready _ hlacks)
  | note rawRecord =>
    obtain ⟨noteableIid, note, hreads, hnote, hparent⟩ := hcreatable
    exact (Notes.mirroring env hload rawRecord).completes (hplaced _ (List.mem_singleton_self _))
      rfl rfl fun hlacks => Notes.created h hload hreads hnote hparent (hready _ hlacks)
  | thread t => exact Reviews.completes h t hload ⟨hin, hun, hplaced⟩ hcreatable
  | epic e =>
    by_cases hlacks : (Epics.mirror env bctx e).Lacks bctx (Epics.mirrorObject env bctx e) w
    · exact (Epics.claiming h hload e hcreatable.1 hcreatable.2 w (hready _ hlacks)).completes
    · exact Epics.completes_mapped h hload e hcreatable.1 hcreatable.2
        (hplaced _ (List.mem_singleton_self _)) hlacks

/-- Objects of one id have the same mixins before the row. -/
theorem RemoteRecord.before_unique (r : RemoteRecord) :
    ∀ o ∈ (r.mirror env bctx).objects, ∀ o' ∈ (r.mirror env bctx).objects,
      o'.gitlabId = o.gitlabId → o'.before = o.before := by
  intro o ho o' ho' _
  cases r with
  | thread t =>
    obtain ⟨n, -, rfl⟩ := List.mem_map.mp ho
    obtain ⟨n', -, rfl⟩ := List.mem_map.mp ho'
    rfl
  | issue i => rw [List.mem_singleton.mp ho, List.mem_singleton.mp ho']
  | mergeRequest m => rw [List.mem_singleton.mp ho, List.mem_singleton.mp ho']
  | note rawRecord => rw [List.mem_singleton.mp ho, List.mem_singleton.mp ho']
  | epic e => rw [List.mem_singleton.mp ho, List.mem_singleton.mp ho']

/-- A record that is dispatched again after any attempts is mirrored exactly once if and only if
no attempt stopped between the document and its row, nor an epic's between row and mixin. -/
theorem exactlyOnce_iff (env : Env) (h : env.Healthy) (binding : BindingRef) (bctx : BindingContext)
    (hload : env.loadBinding binding = .ok bctx) (r : RemoteRecord) (w₀ : World)
    (hin : InOrder bctx.hulyProjectRef w₀) (hun : Unclaimed env w₀)
    (hlacks : ∀ o ∈ (r.mirror env bctx).objects, (r.mirror env bctx).Lacks bctx o w₀)
    (attempts : List Attempt)
    (hcreatable : r.Creatable env bctx (Transition.exec (attempt env binding r) w₀ attempts)) :
    ExactlyOnce (r.mirror env bctx) bctx w₀ ((r.applyRemote env binding).run
        (Transition.exec (attempt env binding r) w₀ attempts)).2 ↔
      Whole (r.mirror env bctx) bctx w₀
        (Transition.exec (attempt env binding r) w₀ attempts) := by
  have hstart := grows_attempts hload r w₀ attempts
  refine exactlyOnce_iff_whole hlacks r.before_unique hstart
    (RemoteRecord.growing hload r _) ?_
  exact r.completes h hload (hstart.inOrder hin) (hstart.unclaimed hun)
    (fun o ho => hstart.stillPlaced (hlacks o ho).placed) hcreatable

end Redispatch

/-- An open issue without labels, milestone and assignees. -/
def openedIssue : SyncIssue where
  id := 1
  iid := 3
  projectId := 7
  title := "title"
  description := none
  state := .opened
  labels := []
  milestone := none
  assignees := []
  author := ⟨4, "u", "U", none, none, ""⟩
  confidential := false
  createdAt := 0
  updatedAt := 10
  closedAt := none
  webUrl := ""

/-- The store of the rows fails as soon as there is a document. -/
def unwrittenRow : Attempt where
  fault w service :=
    if service = .idmap ∧ w.docs.entries ≠ [] then some (.service "timeout") else none
  restart := true
  now := 5

theorem inOrder_initial (space : Ref) : InOrder space World.initial where
  owned := fun row hrow => absurd hrow List.not_mem_nil
  typed := by
    constructor <;> intro ref doc hdoc <;> cases hdoc

theorem unclaimed_initial (env : Env) : Unclaimed env World.initial :=
  fun _ _ _ hrow => absurd hrow List.not_mem_nil

theorem lacks_openedIssue :
    ∀ o ∈ ((RemoteRecord.issue openedIssue).mirror (Env.quiet quietBinding) quietBinding).objects,
      ((RemoteRecord.issue openedIssue).mirror (Env.quiet quietBinding) quietBinding).Lacks
        quietBinding o World.initial := by
  intro o _
  rfl

/-- An issue whose first attempt fails before the document is mirrored by the second. -/
theorem exactlyOnce_iff_openedIssue :
    ExactlyOnce ((RemoteRecord.issue openedIssue).mirror (Env.quiet quietBinding) quietBinding)
        quietBinding World.initial
        (((RemoteRecord.issue openedIssue).applyRemote (Env.quiet quietBinding) "b").run
          (Transition.exec (attempt (Env.quiet quietBinding) "b" (.issue openedIssue))
            World.initial [unwrittenRow])).2 ↔
      Whole ((RemoteRecord.issue openedIssue).mirror (Env.quiet quietBinding) quietBinding)
        quietBinding World.initial
        (Transition.exec (attempt (Env.quiet quietBinding) "b" (.issue openedIssue))
          World.initial [unwrittenRow]) :=
  exactlyOnce_iff (Env.quiet quietBinding) (Env.quiet_healthy _) "b" quietBinding rfl
    (.issue openedIssue) World.initial (inOrder_initial _) (unclaimed_initial _)
    lacks_openedIssue [unwrittenRow] (by
      have hstatus : (Issues.statusFor (Env.quiet quietBinding) quietBinding
          (Transition.exec (attempt (Env.quiet quietBinding) "b" (.issue openedIssue))
            World.initial [unwrittenRow]) openedIssue).isSome = true := by decide +kernel
      exact Option.isSome_iff_ne_none.mp hstatus)

/-- The second attempt creates a second document: the first one has no row. -/
theorem not_exactlyOnce_of_unwrittenRow :
    ¬ ExactlyOnce ((RemoteRecord.issue openedIssue).mirror (Env.quiet quietBinding) quietBinding)
        quietBinding World.initial
        (((RemoteRecord.issue openedIssue).applyRemote (Env.quiet quietBinding) "b").run
          (Transition.exec (attempt (Env.quiet quietBinding) "b" (.issue openedIssue))
            World.initial [unwrittenRow])).2 := by
  intro honce
  have hkeys : ((((RemoteRecord.issue openedIssue).applyRemote (Env.quiet quietBinding) "b").run
      (Transition.exec (attempt (Env.quiet quietBinding) "b" (.issue openedIssue))
        World.initial [unwrittenRow])).2.docs.get? "x").map (·.objectClass) = some issueClass := by
    decide +kernel
  have hrows : ∀ row ∈ (((RemoteRecord.issue openedIssue).applyRemote
      (Env.quiet quietBinding) "b").run (Transition.exec (attempt (Env.quiet quietBinding) "b"
        (.issue openedIssue)) World.initial [unwrittenRow])).2.idmap.rows,
      row.hulyRef ≠ "x" := by
    decide +kernel
  obtain ⟨doc, hdoc, hclass⟩ := Option.map_eq_some_iff.mp hkeys
  obtain ⟨o, -, hrow⟩ := honce.sourced "x" doc hdoc hclass rfl
  exact hrows _ hrow rfl

end HulyGitlab
