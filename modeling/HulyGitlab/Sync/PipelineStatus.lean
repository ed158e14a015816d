import HulyGitlab.Lib.Transition
import HulyGitlab.Sync.Epics
import HulyGitlab.Sync.Mirroring
import HulyGitlab.Sync.MixinMigration

/-!
# The pipeline status of a merge request

The only effect of a pipeline event is one write, so an order in which the
handlers of several pipelines run is an order of these writes.
-/

namespace HulyGitlab.Pipelines

/-- The handler of an event runs. -/
def deliver (env : Env) (binding : BindingRef) (w : World) (e : SyncPipeline) : World :=
  ((applyRemote env binding e.toFields).run w).2

/-- The status stored with the mirror. -/
def pipelineStatus (ref : Ref) (w : World) : Option JsValue :=
  (w.docs.get? ref).map fun doc => (doc.mixinAttrs MR_MIXIN).field "pipelineStatus"

/-- The merge request is mapped, and its mirror is there. -/
structure Mapped (env : Env) (bctx : BindingContext) (iid : Int) (ref : Ref) (w : World) :
    Prop where
  row : ∃ row, w.idmap.findByGitlab bctx.workspaceUuid .merge_request
    (projectKey env bctx (.num iid)) = some row ∧ row.hulyRef = ref
  doc : ∃ doc, w.docs.get? ref = some doc

section Deliveries

variable {env : Env} (h : env.Healthy) {binding : BindingRef} {bctx : BindingContext}
  (hload : env.loadBinding binding = .ok bctx) {iid : Int} {ref : Ref}
include h hload

/-- An event of the merge request overwrites the status. -/
theorem deliver_spec {w : World} (hm : Mapped env bctx iid ref w) {e : SyncPipeline}
    (he : e.mergeRequestIid = some iid) :
    Mapped env bctx iid ref (deliver env binding w e) ∧
      pipelineStatus ref (deliver env binding w e) =
        some (.ofOption SyncPipelineStatus.toJs e.status) := by
  obtain ⟨row, hrow, rfl⟩ := hm.row
  obtain ⟨doc, hdoc⟩ := hm.doc
  let attributes := withOriginatedMarker [("pipelineStatus", e.toFields.field "status")]
  let w₁ : World :=
    { w with
      lookups := w.lookups ++ [(.merge_request, projectKey env bctx (.num iid))] }
  have hrun : deliver env binding w e =
      { w₁ with docs := w₁.docs.set row.hulyRef (doc.withMixin MR_MIXIN attributes) } := by
    have hiid : e.toFields.field "mergeRequestIid" = .num iid := by
      rw [SyncPipeline.field_mergeRequestIid, he]
      rfl
    have hbound : ¬ (JsValue.num iid = .null) := fun hnull => by cases hnull
    have hloaded : (Sync.loadBinding env binding).run w = (.ok bctx, w) :=
      Effect.ofExcept_ok_iff.mpr ⟨hload, rfl⟩
    rw [deliver, applyRemote, hiid]
    rw [if_neg hbound, Effect.bind_of_ok hloaded,
      Effect.bind_of_ok (Sync.findByGitlab_run h _ _ _ w), hrow]
    have hput := Sync.putMixin_run h MR_MIXIN attributes
      (show w₁.docs.get? row.hulyRef = some doc from hdoc)
    exact congrArg Prod.snd hput
  rw [hrun]
  refine ⟨⟨⟨row, hrow, rfl⟩, _, OrderedMap.get?_set_self _ _ _⟩, ?_⟩
  have hkeys : attributes.map Prod.fst = ["pipelineStatus", "_originated"] := rfl
  have hnodup : (attributes.map Prod.fst).Nodup := by
    rw [hkeys]
    decide
  rw [pipelineStatus, OrderedMap.get?_set_self, Option.map_some, HulyDoc.mixinAttrs,
    HulyDoc.withMixin, OrderedMap.get?_set_self, Option.getD_some,
    Fields.field_assign_of_mem _ _ (by rw [hkeys]; exact List.mem_cons_self) hnodup,
    ← SyncPipeline.field_status]
  rfl

/-- After any events of the merge request the status is that of the last one. -/
theorem deliver_all {w : World} (hm : Mapped env bctx iid ref w) {events : List SyncPipeline}
    {last : SyncPipeline} (hevents : ∀ e ∈ events, e.mergeRequestIid = some iid)
    (hlast : last.mergeRequestIid = some iid) :
    pipelineStatus ref (Transition.exec (deliver env binding) w (events ++ [last])) =
      some (.ofOption SyncPipelineStatus.toJs last.status) := by
  rw [Transition.exec_concat]
  have hmapped : Mapped env bctx iid ref (Transition.exec (deliver env binding) w events) := by
    induction events generalizing w with
    | nil => exact hm
    | cons e events ih =>
      have hfirst := deliver_spec h hload hm (hevents e List.mem_cons_self)
      exact ih hfirst.1 fun e' he' => hevents e' (List.mem_cons_of_mem e he')
  exact (deliver_spec h hload hmapped hlast).2

end Deliveries

/-- No event is newer. -/
def Newest (events : List SyncPipeline) (e : SyncPipeline) : Prop :=
  e ∈ events ∧ ∀ e' ∈ events, e'.updatedAt ≤ e.updatedAt

/-- The stored status is that of the newest event if and only if the event that is handled last has
the same status. -/
theorem pipelineStatus_iff (env : Env) (h : env.Healthy) (binding : BindingRef)
    (bctx : BindingContext) (hload : env.loadBinding binding = .ok bctx) (iid : Int) (ref : Ref)
    (w : World) (hm : Mapped env bctx iid ref w) (events : List SyncPipeline)
    (hevents : ∀ e ∈ events, e.mergeRequestIid = some iid) :
    (∀ newest, Newest events newest →
      pipelineStatus ref (Transition.exec (deliver env binding) w events) =
        some (.ofOption SyncPipelineStatus.toJs newest.status)) ↔
      ∀ newest last, Newest events newest → events.getLast? = some last →
        last.status = newest.status := by
  rcases List.eq_nil_or_concat events with rfl | ⟨before, last, rfl⟩
  · constructor
    · exact fun _ newest last hnewest => absurd hnewest.1 List.not_mem_nil
    · exact fun _ newest hnewest => absurd hnewest.1 List.not_mem_nil
  · rw [List.concat_eq_append] at hevents ⊢
    have hstatus := deliver_all h hload hm (fun e he => hevents e (List.mem_append_left _ he))
      (hevents last (List.mem_append_right _ (List.mem_singleton_self last)))
    rw [hstatus, List.getLast?_concat]
    constructor
    · intro hshown newest last' hnewest hlast
      obtain rfl := Option.some.inj hlast
      exact SyncPipelineStatus.ofOption_toJs_injective (Option.some.inj (hshown newest hnewest))
    · intro hsame newest hnewest
      rw [hsame newest last hnewest rfl]

/-- Merge request 5 with an empty mirror. -/
def mirroredWorld : World :=
  { World.initial with
    idmap := .single ⟨"ws", .merge_request, "7:5", issueClass, "mirror"⟩
    docs := OrderedMap.empty.set "mirror" ⟨issueClass, "project", [], .empty⟩ }

theorem mapped_mirroredWorld :
    Mapped (Env.quiet quietBinding) quietBinding 5 "mirror" mirroredWorld where
  row := ⟨⟨"ws", .merge_request, "7:5", issueClass, "mirror"⟩, by decide +kernel, rfl⟩
  doc := ⟨_, rfl⟩

/-- The pipeline that ran first fails; a later one succeeds. -/
def failedFirst : SyncPipeline := ⟨1, 7, some 5, some .failed, "failed", 10, ""⟩

def succeededLater : SyncPipeline := ⟨2, 7, some 5, some .success, "success", 20, ""⟩

theorem pipelineStatus_iff_inOrder :
    (∀ newest, Newest [failedFirst, succeededLater] newest →
      pipelineStatus "mirror" (Transition.exec (deliver (Env.quiet quietBinding) "b") mirroredWorld
        [failedFirst, succeededLater]) =
        some (.ofOption SyncPipelineStatus.toJs newest.status)) ↔
      ∀ newest last, Newest [failedFirst, succeededLater] newest →
        [failedFirst, succeededLater].getLast? = some last → last.status = newest.status :=
  pipelineStatus_iff (Env.quiet quietBinding) (Env.quiet_healthy _) "b" quietBinding rfl 5 "mirror"
    mirroredWorld mapped_mirroredWorld [failedFirst, succeededLater] (by decide)

/-- Handled in the other order, the outdated failure stays. -/
theorem outdated_pipelineStatus :
    Mapped (Env.quiet quietBinding) quietBinding 5 "mirror" mirroredWorld ∧
      Newest [succeededLater, failedFirst] succeededLater ∧
      pipelineStatus "mirror" (Transition.exec (deliver (Env.quiet quietBinding) "b") mirroredWorld
        [succeededLater, failedFirst]) ≠
        some (.ofOption SyncPipelineStatus.toJs succeededLater.status) :=
  ⟨mapped_mirroredWorld, ⟨by decide, by decide⟩, by decide +kernel⟩

end HulyGitlab.Pipelines
