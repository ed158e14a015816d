import HulyGitlab.Sync.FieldOwnership
import HulyGitlab.Sync.Frames
import HulyGitlab.Sync.MirrorCompletion

/-!
# The mixins of the messages of threads

Which writes of the note and the review manager reach the `gitlab-review`
mixin of a message: only `putMixin` at the end of a round of the review
manager. What applying a record of the backfill again does to mixins that
carry its state already.
-/

namespace HulyGitlab

open Effect UserIdentity

/-- The fields that a message shows of its thread. -/
def THREAD_FIELDS : List String := ["threadId", "resolved", "resolvedBy", "resolvedAt", "position"]

/-- What resolving users and updating messages leaves: the rows, the documents and the mixins of
threads. -/
structure Still (bctx : BindingContext) (w w' : World) : Prop where
  edits : Edits bctx w w'
  mixins : SameMixin MR_REVIEW_THREAD_MIXIN w w'

namespace Still

variable {bctx : BindingContext} {w w' : World}

theorem refl (w : World) : Still bctx w w := ⟨Edits.refl w, SameMixin.refl _ w⟩

theorem trans (w₁ w₂ w₃ : World) (h : Still bctx w₁ w₂) (h' : Still bctx w₂ w₃) :
    Still bctx w₁ w₃ :=
  ⟨Edits.trans _ _ _ h.edits h'.edits, SameMixin.trans _ _ _ _ h.mixins h'.mixins⟩

theorem mixinField (h : Still bctx w w') (ref : Ref) (k : String) :
    w'.mixinField ref MR_REVIEW_THREAD_MIXIN k = w.mixinField ref MR_REVIEW_THREAD_MIXIN k := by
  have hsame := h.mixins ref
  unfold World.mixinField HulyDoc.mixinAttrs
  cases hdoc : w.docs.get? ref with
  | none =>
    rw [hdoc, Option.map_none, Option.map_eq_none_iff] at hsame
    rw [hsame]
  | some doc =>
    rw [hdoc] at hsame
    obtain ⟨doc', hdoc', hmixin⟩ := Option.map_eq_some_iff.mp hsame
    rw [hdoc']
    exact congrArg (fun attrs => (attrs.getD []).field k) hmixin

/-- No document is added. -/
theorem absent (h : Still bctx w w') {ref : Ref} (hnone : w.docs.get? ref = none) :
    w'.docs.get? ref = none := by
  have hsame := h.mixins ref
  rw [hnone, Option.map_none, Option.map_eq_none_iff] at hsame
  exact hsame

theorem present (h : Still bctx w w') {ref : Ref} {doc : HulyDoc}
    (hdoc : w.docs.get? ref = some doc) : ∃ doc', w'.docs.get? ref = some doc' := by
  obtain ⟨doc', hdoc', -⟩ := h.edits.docs ref doc hdoc
  exact ⟨doc', hdoc'⟩

end Still

/-- Every run of the computation leaves the threads still. -/
abbrev Stilling (bctx : BindingContext) {A : Type} (m : Sync A) : Prop :=
  Effect.Within (Still bctx) m

namespace Stilling

variable (env : Env) {bctx : BindingContext} {A B : Type}

theorem pure (a : A) : Stilling bctx (pure a : Sync A) := Effect.Within.pure Still.refl a

theorem ofExcept (r : Except Err A) : Stilling bctx (Effect.ofExcept r) :=
  Effect.Within.ofExcept Still.refl r

theorem bind {m : Sync A} {f : A → Sync B} (hm : Stilling bctx m) (hf : ∀ a, Stilling bctx (f a)) :
    Stilling bctx (m >>= f) :=
  Effect.Within.bind Still.trans hm hf

/-- A computation that edits and leaves the documents alone. -/
theorem of_writes {m : Sync A} {parts : List Part} (hm : Editing bctx m) (hw : Writes parts m)
    (hdocs : .docs ∉ parts) : Stilling bctx m := by
  intro w
  have hsame : (m.run w).2.docs = w.docs := hw.same hdocs w
  exact ⟨hm w, fun ref => by rw [hsame]⟩

theorem findByGitlab (workspaceUuid : String) (kind : GitlabKind) (gitlabId : String) :
    Stilling bctx (Sync.findByGitlab env workspaceUuid kind gitlabId) :=
  fun w => ⟨Editing.findByGitlab env _ _ _ w, sameMixin_findByGitlab _ _ _ _ w⟩

theorem getCursor (binding : BindingRef) (kind : CursorKind) :
    Stilling bctx (Sync.getCursor env binding kind) :=
  of_writes (Editing.getCursor env _ _) (Writes.getCursor env _ _) List.not_mem_nil

theorem setCursor (binding : BindingRef) (kind : CursorKind) (t : Option Nat) :
    Stilling bctx (Sync.setCursor env binding kind t) :=
  of_writes (Editing.setCursor env _ _ _)
    (Writes.setCursor env (List.mem_singleton.mpr rfl) _ _ _) (by decide)

theorem enqueueRecord (e : EnqueuedRecord) : Stilling bctx (Sync.enqueueRecord e) :=
  of_writes (Editing.enqueueRecord e) (Writes.enqueueRecord (List.mem_singleton.mpr rfl) _)
    (by decide)

theorem resolveUser (user : JsValue) :
    Stilling bctx (UserIdentity.resolveUser env bctx.workspaceUuid user) := by
  have hwrites : Writes [.idmap, .lookups] (UserIdentity.resolveUser env bctx.workspaceUuid user) :=
    Writes.resolveUser env (by decide) (by decide) _ _
  exact of_writes (Editing.resolveUser env user) hwrites (by decide)

theorem resolvePerson (user : JsValue) : Stilling bctx (Reviews.resolvePerson env user) :=
  of_writes (Editing.resolvePerson env user)
    (Writes.bind (Writes.ofExcept _) fun _ => Writes.bind (Writes.mapByGitlabUser env _) fun _ =>
      Writes.pure _) List.not_mem_nil

/-- The attributes of a document are not its mixins. -/
theorem sameMixin_updateDoc (mixin : String) (ref : Ref) (operations : Fields) :
    Effect.Within (SameMixin mixin) (Sync.updateDoc env ref operations) := by
  apply Effect.Within.bind (SameMixin.trans mixin)
    (Sync.reach_within (SameMixin.refl mixin) env .platform)
  intro _
  refine Effect.Within.modify fun w => ?_
  cases hdoc : w.docs.get? ref with
  | none => exact SameMixin.refl mixin w
  | some doc =>
    intro r
    dsimp only
    by_cases hr : r = ref
    · rw [hr, OrderedMap.get?_set_self, hdoc]
      rfl
    · rw [OrderedMap.get?_set_of_ne _ hr]

theorem updateMessage (ref : Ref) (message author : JsValue) (updatedAt : JsDate) :
    Stilling bctx (Sync.updateDoc env ref (Notes.updateAttributes message author updatedAt)) :=
  fun w => ⟨Editing.updateMessage env _ _ _ _ w, sameMixin_updateDoc env _ _ _ w⟩

theorem updateMessage_thread (ref : Ref) (message author : JsValue) (updatedAt : JsDate) :
    Stilling bctx (Reviews.updateMessage env ref message author updatedAt) := by
  refine bind ?_ fun _ => Effect.Within.ite (fun _ => updateMessage env _ _ _ _) fun _ => pure _
  exact of_writes (Editing.findOne env _ _) (Writes.findOne env _ _) List.not_mem_nil

theorem updateFromRemote_note (binding : BindingRef) (hulyRef : Ref) (message author : JsValue)
    (remoteTs : JsDate) :
    Stilling bctx (Notes.updateFromRemote env binding hulyRef message author remoteTs) :=
  bind (getCursor env _ _) fun _ => Effect.Within.ite
    (fun _ => bind (updateMessage env _ _ _ _) fun _ => setCursor env _ _ _) fun _ => pure _

end Stilling

/-- The note, with another body if it is the one with the id. -/
def SyncReviewNote.reword (n : SyncReviewNote) (noteId : Int) (body : String) (updatedAt : Nat) :
    SyncReviewNote :=
  if n.id = noteId then { n with body := body, updatedAt := updatedAt } else n

section Reword

variable (n : SyncReviewNote) (noteId : Int) (body : String) (updatedAt : Nat)

@[simp] theorem SyncReviewNote.reword_id : (n.reword noteId body updatedAt).id = n.id := by
  unfold reword
  split_ifs <;> rfl

@[simp] theorem SyncReviewNote.reword_system :
    (n.reword noteId body updatedAt).system = n.system := by
  unfold reword
  split_ifs <;> rfl

@[simp] theorem SyncReviewNote.reword_position :
    (n.reword noteId body updatedAt).position = n.position := by
  unfold reword
  split_ifs <;> rfl

end Reword

/-- The record of a thread after the body of a note was changed. -/
def SyncReviewThread.reword (t : SyncReviewThread) (noteId : Int) (body : String)
    (updatedAt : Nat) : SyncReviewThread :=
  { t with
    notes := t.notes.map fun n => n.reword noteId body updatedAt
    updatedAt := max t.updatedAt updatedAt }

/-! ### The attributes of a message -/

namespace Reviews

theorem nodup_mixinAttributes (thread : ThreadState) (note rootNoteId : JsValue) :
    ((mixinAttributes thread note rootNoteId).map Prod.fst).Nodup := by
  unfold mixinAttributes ThreadState.attributes given
  split_ifs <;> simp

/-- What `putMixin` leaves of a field: the attributes it names win. -/
theorem field_assign_marked {attributes : Fields} (hn : (attributes.map Prod.fst).Nodup)
    (fs : Fields) {k : String} (hk : k ≠ "_originated") :
    (fs.assign (withOriginatedMarker attributes)).field k =
      if k ∈ attributes.map Prod.fst then attributes.field k else fs.field k := by
  have hkeys : k ∈ (withOriginatedMarker attributes).map Prod.fst ↔
      k ∈ attributes.map Prod.fst := by
    unfold withOriginatedMarker
    rw [Fields.mem_keys_set]
    exact or_iff_right hk
  by_cases hmem : k ∈ attributes.map Prod.fst
  · rw [if_pos hmem, Fields.field_assign_of_mem _ _ (hkeys.mpr hmem) (Fields.nodup_keys_set hn _ _)]
    unfold withOriginatedMarker
    rw [Fields.field_set, if_neg (Ne.symm hk)]
  · rw [if_neg hmem, Fields.field_assign_of_not_mem _ _ fun h => hmem (hkeys.mp h)]

theorem ne_originated_of_mem {k : String} (hk : k ∈ THREAD_FIELDS) : k ≠ "_originated" := by
  rintro rfl
  exact absurd hk (by decide)

/-- What the record of a thread puts on the message of a note. -/
def attributesOf (env : Env) (t : SyncReviewThread) (n : SyncReviewNote) : Fields :=
  mixinAttributes (stateOf env t) (.obj n.toFields) (rootOf t)

/-- The message shows what the record says of its note. -/
def Shows (env : Env) (t : SyncReviewThread) (n : SyncReviewNote) (w : World) (ref : Ref) : Prop :=
  ∀ k ∈ THREAD_FIELDS, k ∈ (attributesOf env t n).map Prod.fst →
    w.mixinField ref MR_REVIEW_THREAD_MIXIN k = (attributesOf env t n).field k

def keyOf (t : SyncReviewThread) (n : SyncReviewNote) : String :=
  noteIdmapKey (.str t.discussionId) (.num n.id)

/-- A thread that is mirrored from its record. -/
structure Mirrored (env : Env) (bctx : BindingContext) (t : SyncReviewThread) (w : World) :
    Prop where
  inOrder : InOrder bctx.hulyProjectRef w
  parent : ∃ row, w.idmap.findByGitlab bctx.workspaceUuid .merge_request
    (projectKey env bctx (.num t.mergeRequestIid)) = some row
  /-- Only messages mirror notes of threads. -/
  messages : ∀ row ∈ w.idmap.rows, row.gitlabKind = .review_thread →
    row.hulyClass = HULY_CLASS_CHAT_MESSAGE
  notes : ∀ n ∈ t.notes, n.system = false → ∃ row doc,
    w.idmap.findByGitlab bctx.workspaceUuid .review_thread (keyOf t n) = some row ∧
      w.docs.get? row.hulyRef = some doc ∧ Shows env t n w row.hulyRef

/-- The rows of threads and what messages show of their threads are as before. -/
structure Kept (bctx : BindingContext) (w w' : World) : Prop where
  rows : ∀ gitlabId, w'.idmap.findByGitlab bctx.workspaceUuid .review_thread gitlabId =
    w.idmap.findByGitlab bctx.workspaceUuid .review_thread gitlabId
  fields : ∀ ref, ∀ k ∈ THREAD_FIELDS,
    w'.mixinField ref MR_REVIEW_THREAD_MIXIN k = w.mixinField ref MR_REVIEW_THREAD_MIXIN k

section Backfill

variable {env : Env} {bctx : BindingContext} {t : SyncReviewThread} {w : World}

theorem Kept.refl (w : World) : Kept bctx w w := ⟨fun _ => rfl, fun _ _ _ => rfl⟩

theorem Kept.trans {w₁ w₂ : World} (h : Kept bctx w w₁) (h' : Kept bctx w₁ w₂) :
    Kept bctx w w₂ :=
  ⟨fun gitlabId => (h'.rows gitlabId).trans (h.rows gitlabId),
    fun ref k hk => (h'.fields ref k hk).trans (h.fields ref k hk)⟩

theorem kept_of_still {w' : World} (h : Still bctx w w') : Kept bctx w w' :=
  ⟨fun gitlabId => h.edits.findByGitlab (by decide) gitlabId, fun ref k _ => h.mixinField ref k⟩

theorem triple_still {A : Type} {m : Sync A} (h : Stilling bctx m) :
    Triple (Kept bctx w) m (fun _ => Kept bctx w) (Kept bctx w) := by
  intro s hs
  have hkept : Kept bctx w (m.run s).2 := hs.trans (kept_of_still (h s))
  cases hrun : m.run s with
  | mk r s' =>
    rw [hrun] at hkept
    cases r with
    | ok a => exact .inl ⟨a, s', rfl, hkept⟩
    | error e => exact .inr ⟨e, s', rfl, hkept⟩

theorem triple_findByGitlab (h : env.Healthy) (gitlabId : String) :
    Triple (Kept bctx w) (Sync.findByGitlab env bctx.workspaceUuid .review_thread gitlabId)
      (fun row s => Kept bctx w s ∧
        row = w.idmap.findByGitlab bctx.workspaceUuid .review_thread gitlabId)
      (Kept bctx w) := by
  intro s hs
  exact .inl ⟨_, _, Sync.findByGitlab_run h _ _ _ s, ⟨hs.rows, hs.fields⟩, hs.rows gitlabId⟩

/-- Attributes that the message shows already. -/
theorem triple_putMixin {ref : Ref} {attributes : Fields}
    (hn : (attributes.map Prod.fst).Nodup)
    (hshows : ∀ k ∈ THREAD_FIELDS, k ∈ attributes.map Prod.fst →
      w.mixinField ref MR_REVIEW_THREAD_MIXIN k = attributes.field k) :
    Triple (Kept bctx w)
      (Sync.putMixin env ref MR_REVIEW_THREAD_MIXIN (withOriginatedMarker attributes))
      (fun _ => Kept bctx w) (Kept bctx w) := by
  refine Triple.bind (triple_still (Sync.reach_within Still.refl env _)) fun _ => ?_
  refine Triple.modify fun s hs => ?_
  cases hdoc : s.docs.get? ref with
  | none => exact hs
  | some doc =>
    refine ⟨hs.rows, fun r k hk => ?_⟩
    rw [World.mixinField_set rfl]
    by_cases hr : r = ref
    · have hold : (doc.mixinAttrs MR_REVIEW_THREAD_MIXIN).field k =
          w.mixinField ref MR_REVIEW_THREAD_MIXIN k := by
        rw [← hs.fields ref k hk, World.mixinField, hdoc]
      have hput : (doc.withMixin MR_REVIEW_THREAD_MIXIN
          (withOriginatedMarker attributes)).mixinAttrs MR_REVIEW_THREAD_MIXIN =
            (doc.mixinAttrs MR_REVIEW_THREAD_MIXIN).assign (withOriginatedMarker attributes) := by
        rw [HulyDoc.mixinAttrs_withMixin, if_pos rfl]
      rw [if_pos hr]
      refine (congrArg (fun fs : Fields => fs.field k) hput).trans ?_
      rw [field_assign_marked hn _ (ne_originated_of_mem hk), hold, hr]
      by_cases hmem : k ∈ attributes.map Prod.fst
      · rw [if_pos hmem, hshows k hk hmem]
      · rw [if_neg hmem]
    · rw [if_neg hr]
      exact hs.fields r k hk

theorem attributesOf_reword (env : Env) (t : SyncReviewThread) (noteId : Int) (body : String)
    (updatedAt : Nat) (n : SyncReviewNote) :
    attributesOf env (t.reword noteId body updatedAt) (n.reword noteId body updatedAt) =
      attributesOf env t n := by
  have hid : (n.reword noteId body updatedAt).toFields.field "id" = n.toFields.field "id" := by
    simp
  have hposition : (n.reword noteId body updatedAt).toFields.field "position" =
      n.toFields.field "position" := by
    simp
  have hroot : rootOf (t.reword noteId body updatedAt) = rootOf t := by
    unfold rootOf SyncReviewThread.reword
    cases t.notes with
    | nil => rfl
    | cons root rest => exact congrArg JsValue.num (root.reword_id noteId body updatedAt)
  unfold attributesOf mixinAttributes
  rw [JsValue.get_obj, JsValue.get_obj, JsValue.get_obj, JsValue.get_obj, hid, hposition, hroot]
  rfl

/-- A round of the loop over the notes of a record whose messages show what it says. -/
theorem triple_applyThreadNote (h : env.Healthy) (ht : Mirrored env bctx t w)
    {n : SyncReviewNote} (hn : n ∈ t.notes) (noteId : Int) (body : String) (updatedAt : Nat)
    (parentRef : Ref) :
    Triple (Kept bctx w)
      (applyThreadNote env bctx parentRef (stateOf env t) (rootOf (t.reword noteId body updatedAt))
        (.obj (n.reword noteId body updatedAt).toFields))
      (fun _ => Kept bctx w) (Kept bctx w) := by
  have hattributes := attributesOf_reword env t noteId body updatedAt n
  unfold applyThreadNote
  rw [JsValue.prop_obj, SyncReviewNote.field_system, ofExcept_ok_bind, SyncReviewNote.reword_system]
  show Triple _ (if n.system = true then _ else _) _ _
  by_cases huser : n.system = true
  · rw [if_pos huser]
    exact Triple.pure fun _ hs => hs
  · obtain ⟨row, doc, hrow, -, hshows⟩ := ht.notes n hn (Bool.eq_false_iff.mpr huser)
    have hkey : noteIdmapKey (stateOf env t).threadId
        ((JsValue.obj (n.reword noteId body updatedAt).toFields).get "id") = keyOf t n := by
      rw [JsValue.get_obj, SyncReviewNote.field_id, SyncReviewNote.reword_id]
      rfl
    rw [if_neg huser]
    dsimp only
    rw [hkey]
    refine Triple.bind (triple_findByGitlab h _) fun existing => Triple.of_and fun hexisting => ?_
    rw [hexisting, hrow]
    refine Triple.bind (triple_still (Stilling.ofExcept _)) fun _ => ?_
    refine Triple.bind (triple_still (Stilling.resolveUser env _)) fun _ => ?_
    refine Triple.bind (triple_still (Stilling.ofExcept _)) fun _ => ?_
    refine Triple.bind (triple_still (Stilling.ofExcept _)) fun _ => ?_
    refine Triple.bind (Q := fun ref s => Kept bctx w s ∧ ref = row.hulyRef) ?_ fun ref =>
      Triple.of_and fun href => ?_
    · refine Triple.bind (triple_still (Stilling.updateMessage_thread env _ _ _ _)) fun _ => ?_
      exact Triple.pure fun s hs => ⟨hs, rfl⟩
    · rw [href]
      have hput : Triple (Kept bctx w) (Sync.putMixin env row.hulyRef MR_REVIEW_THREAD_MIXIN
          (withOriginatedMarker (attributesOf env (t.reword noteId body updatedAt)
            (n.reword noteId body updatedAt)))) (fun _ => Kept bctx w) (Kept bctx w) := by
        rw [hattributes]
        exact triple_putMixin (nodup_mixinAttributes _ _ _) hshows
      exact hput

/-- Applying the record of a mirrored thread again leaves what its messages show of it. -/
theorem kept_applyRemote (h : env.Healthy) {binding : BindingRef}
    (hload : env.loadBinding binding = .ok bctx) (ht : Mirrored env bctx t w) (noteId : Int)
    (body : String) (updatedAt : Nat) :
    Kept bctx w ((applyRemote env binding (t.reword noteId body updatedAt).toFields).run w).2 := by
  suffices htriple : Triple (Kept bctx w)
      (applyRemote env binding (t.reword noteId body updatedAt).toFields)
      (fun _ => Kept bctx w) (Kept bctx w) from htriple.ends (Kept.refl w)
  unfold applyRemote Sync.loadBinding
  rw [hload, ofExcept_ok_bind]
  refine Triple.bind (triple_still (Stilling.findByGitlab env _ _ _)) fun parent => ?_
  cases parent with
  | none =>
    dsimp only
    unfold deferThread
    cases markAndRetry (t.reword noteId body updatedAt).toFields REVIEW_RETRY_FLAG with
    | none => exact Triple.pure fun _ hs => hs
    | some marked =>
      exact triple_still (Stilling.bind (Stilling.ofExcept _) fun _ => Stilling.enqueueRecord _)
  | some row =>
    dsimp only
    unfold applyMapped
    rw [SyncReviewThread.field_resolvedBy, SyncReviewThread.field_resolvedAt,
      SyncReviewThread.field_notes, SyncReviewThread.field_discussionId,
      SyncReviewThread.field_resolved]
    refine Triple.bind (Q := fun v s => Kept bctx w s ∧ v = resolverOf env t.resolvedBy) ?_
      fun resolvedBy => Triple.of_and fun hby => ?_
    · exact fun s hs => .inl ⟨_, s, resolvedByOf_run h t s, hs, rfl⟩
    · have hat : resolvedAtOf (.ofOption .date t.resolvedAt) = .ok (stateOf env t).resolvedAt := by
        unfold resolvedAtOf stateOf
        cases t.resolvedAt <;> rfl
      have hat' : (t.reword noteId body updatedAt).resolvedAt = t.resolvedAt := rfl
      rw [hby, hat', hat, ofExcept_ok_bind, JsValue.elements_arr, ofExcept_ok_bind]
      dsimp only
      refine Triple.bind ?_ fun _ => triple_still (Stilling.setCursor env _ _ _)
      refine Triple.forEach fun note hnote => ?_
      obtain ⟨n', hn', rfl⟩ := List.mem_map.mp hnote
      obtain ⟨n, hn, rfl⟩ := List.mem_map.mp hn'
      have hround := triple_applyThreadNote h ht hn noteId body updatedAt row.hulyRef
      rw [← rootOf_elements] at hround
      exact hround

end Backfill

end Reviews

end HulyGitlab
