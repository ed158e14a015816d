import HulyGitlab.Sync.ThreadMixins

/-!
# Note Hooks for the notes of threads

A hook for a note of a merge request goes through the note manager. A line
comment ends in a round of the review manager, on a thread that is made up of
the one note; any other note is one of the plain notes.
-/

namespace HulyGitlab

open Effect UserIdentity

namespace Notes

/-- The Note Hook of a note of a merge request. Its position and its discussion are open. -/
structure IsNoteHook (record : Fields) (t : SyncReviewThread) (n : SyncReviewNote)
    (body : String) : Prop where
  bare : record.field "noteableIid" = .undefined
  object : (record.field "object_attributes").isObject = true
  id : (record.field "object_attributes").get "id" = .num n.id
  noteableType : (record.field "object_attributes").get "noteable_type" = .str "MergeRequest"
  body : (record.field "object_attributes").get "body" = .str body
  system : (record.field "object_attributes").get "system" = .bool true ↔ n.system = true
  createdAt : (record.field "object_attributes").get "created_at" = .undefined ∨
    ∃ ms, (record.field "object_attributes").get "created_at" = .date ms
  updatedAt : (record.field "object_attributes").get "updated_at" = .undefined ∨
    ∃ ms, (record.field "object_attributes").get "updated_at" = .date ms
  iid : (record.field "merge_request").get "iid" = .num t.mergeRequestIid

/-- The position in a hook. -/
def hookPosition (record : Fields) : JsValue := (record.field "object_attributes").get "position"

/-- A comment on a line of a diff. -/
def LineComment (record : Fields) : Prop :=
  (hookPosition record).get "position_type" = .str "text"

/-- The position lacks one of its commits. -/
def Malformed (record : Fields) : Prop :=
  ¬ isString ((hookPosition record).get "head_sha") ∨
    ¬ isString ((hookPosition record).get "base_sha") ∨
    ¬ isString ((hookPosition record).get "start_sha")

instance (record : Fields) : Decidable (LineComment record) := inferInstanceAs (Decidable (_ = _))

instance (record : Fields) : Decidable (Malformed record) := inferInstanceAs (Decidable (_ ∨ _))

/-- The thread a line comment is filed under. -/
def hookThread (record : Fields) (n : SyncReviewNote) : String :=
  match (record.field "object_attributes").get "discussion_id" with
  | .str discussionId => discussionId
  | _ => "note:" ++ toString n.id

/-- The note in a hook. -/
def hookNote (record : Fields) (now : Nat) : Fields :=
  parseNote (record.field "object_attributes") (.str "MergeRequest") now

section Parsing

variable {record : Fields} {t : SyncReviewThread} {n : SyncReviewNote} {body : String}

theorem parseWebhookPayload_hook (h : IsNoteHook record t n body) (now : Nat) :
    parseWebhookPayload record now = some
      (if LineComment record then
        if Malformed record then
          .malformedPosition (.num t.mergeRequestIid) (.obj (hookNote record now))
        else
          .review (.num t.mergeRequestIid)
            (.obj ((hookNote record now).set "position" (parsePosition (hookPosition record))))
            (parsePosition (hookPosition record))
            (stringOr ((record.field "object_attributes").get "discussion_id") .undefined)
      else .note (.num t.mergeRequestIid) (.obj (hookNote record now))) := by
  have htype : parseNoteableType ((record.field "object_attributes").get "noteable_type") =
      some (.str "MergeRequest") := by
    rw [h.noteableType]
    rfl
  unfold parseWebhookPayload
  dsimp only
  rw [if_neg (by simp [h.object, h.id, JsValue.isNumber]), htype]
  dsimp only
  rw [if_pos rfl, h.iid, if_neg (by simp [JsValue.isNumber])]
  by_cases hline : LineComment record
  · rw [if_pos hline, if_pos ⟨rfl, hline⟩]
    by_cases hbad : Malformed record
    · rw [if_pos hbad]
      exact if_pos hbad
    · rw [if_neg hbad]
      exact if_neg hbad
  · rw [if_neg hline, if_neg fun hcond => hline hcond.2]
    rfl

/-- What the managers read of the note in a hook. -/
structure NoteShape (note : JsValue) (n : SyncReviewNote) (body : String) : Prop where
  id : note.get "id" = .num n.id
  system : note.prop "system" = .ok (.bool n.system)
  body : note.get "body" = .str body
  author : ∃ identity, identityOf (note.get "author") = .ok identity ∧
    (identity.email = .undefined ∨ ∃ address, identity.email = .str address)
  createdAt : ∃ ms, note.get "createdAt" = .date ms
  updatedAt : ∃ ms, note.get "updatedAt" = .date ms

theorem identityOf_parseAuthor (author : JsValue) :
    ∃ identity, identityOf (parseAuthor author) = .ok identity ∧
      (identity.email = .undefined ∨ ∃ address, identity.email = .str address) := by
  have hemail : (parseAuthor author).prop "email" = .ok (stringOr (author.get "email") .null) := by
    simp [parseAuthor]
  obtain ⟨id, hid⟩ := JsValue.prop_ok hemail "id"
  refine ⟨⟨id.text, if stringOr (author.get "email") .null = .null then .undefined
    else stringOr (author.get "email") .null⟩, ?_, ?_⟩
  · unfold identityOf
    rw [hid, hemail]
    rfl
  · dsimp only
    cases author.get "email" with
    | str address => exact .inr ⟨address, rfl⟩
    | _ => exact .inl rfl

theorem instantOr_date {v : JsValue} (h : v = .undefined ∨ ∃ ms, v = .date ms) (now : Nat) :
    ∃ ms, instantOr v (.date now) = .date ms := by
  obtain rfl | ⟨ms, rfl⟩ := h
  · exact ⟨now, rfl⟩
  · exact ⟨ms, rfl⟩

theorem hookNote_shape (h : IsNoteHook record t n body) (now : Nat) :
    NoteShape (.obj (hookNote record now)) n body := by
  have hbody : (JsValue.obj (hookNote record now)).get "body" = .str body := by
    simp [hookNote, parseNote, h.body, stringOr]
  have hauthor : (JsValue.obj (hookNote record now)).get "author" =
      parseAuthor ((record.field "object_attributes").get "author") := by
    simp [hookNote, parseNote]
  have hcreated : (JsValue.obj (hookNote record now)).get "createdAt" =
      instantOr ((record.field "object_attributes").get "created_at") (.date now) := by
    simp [hookNote, parseNote]
  have hupdated : (JsValue.obj (hookNote record now)).get "updatedAt" =
      instantOr ((record.field "object_attributes").get "updated_at") (.date now) := by
    simp [hookNote, parseNote]
  refine ⟨by simp [hookNote, parseNote, h.id], ?_, hbody, ?_, ?_, ?_⟩
  · simp [hookNote, parseNote, h.system]
  · rw [hauthor]
    exact identityOf_parseAuthor _
  · rw [hcreated]
    exact instantOr_date h.createdAt now
  · rw [hupdated]
    exact instantOr_date h.updatedAt now

end Parsing

end Notes

/-! ### A round of the review manager -/

namespace Reviews

/-- The attributes are written to the mixin of one message, and no document is added. -/
structure Puts (ref : Ref) (attributes : Fields) (w w' : World) : Prop where
  absent : ∀ r, w.docs.get? r = none → w'.docs.get? r = none
  fields : ∀ r, ∀ k ∈ THREAD_FIELDS, w'.mixinField r MR_REVIEW_THREAD_MIXIN k =
    if r = ref ∧ k ∈ attributes.map Prod.fst then attributes.field k
    else w.mixinField r MR_REVIEW_THREAD_MIXIN k

/-- At most the mixin of one message changes, and no document is added. -/
structure Elsewhere (ref : Ref) (w w' : World) : Prop where
  absent : ∀ r, w.docs.get? r = none → w'.docs.get? r = none
  fields : ∀ r, r ≠ ref → ∀ k, w'.mixinField r MR_REVIEW_THREAD_MIXIN k =
    w.mixinField r MR_REVIEW_THREAD_MIXIN k

/-- A message that was not there. -/
def NewMessage (w w' : World) : Prop :=
  ∃ ref doc, w'.docs.get? ref = some doc ∧ doc.objectClass = chatMessageClass ∧
    w.docs.get? ref = none

section Rounds

variable {env : Env} {bctx : BindingContext} {w : World} {n : SyncReviewNote} {body : String}
  {note : JsValue}

theorem Elsewhere.refl (ref : Ref) (w : World) : Elsewhere ref w w :=
  ⟨fun _ h => h, fun _ _ _ => rfl⟩

theorem Elsewhere.trans (ref : Ref) (w₁ w₂ w₃ : World) (h : Elsewhere ref w₁ w₂)
    (h' : Elsewhere ref w₂ w₃) : Elsewhere ref w₁ w₃ :=
  ⟨fun r hr => h'.absent r (h.absent r hr),
    fun r hr k => (h'.fields r hr k).trans (h.fields r hr k)⟩

theorem elsewhere_of_still {w' : World} (ref : Ref) (h : Still bctx w w') : Elsewhere ref w w' :=
  ⟨fun _ hr => h.absent hr, fun r _ k => h.mixinField r k⟩

theorem elsewhere_putMixin (ref : Ref) (attributes : Fields) :
    Effect.Within (Elsewhere ref) (Sync.putMixin env ref MR_REVIEW_THREAD_MIXIN attributes) := by
  apply Effect.Within.bind (Elsewhere.trans ref)
    (Sync.reach_within (Elsewhere.refl ref) env .platform)
  intro _
  refine Effect.Within.modify fun s => ?_
  cases hdoc : s.docs.get? ref with
  | none => exact Elsewhere.refl ref s
  | some doc =>
    refine ⟨fun r hr => ?_, fun r hr k => ?_⟩
    · have hne : r ≠ ref := by
        rintro rfl
        rw [hdoc] at hr
        cases hr
      exact (OrderedMap.get?_set_of_ne _ hne _).trans hr
    · rw [World.mixinField_set rfl, if_neg hr]

/-- A write to a document that is there. -/
theorem puts_putMixin (h : env.Healthy) {ref : Ref} {doc : HulyDoc}
    (hdoc : w.docs.get? ref = some doc) {attributes : Fields}
    (hn : (attributes.map Prod.fst).Nodup) :
    ∃ w', (Sync.putMixin env ref MR_REVIEW_THREAD_MIXIN (withOriginatedMarker attributes)).run w =
        (.ok (), w') ∧ Puts ref attributes w w' := by
  refine ⟨_, Sync.putMixin_run h _ _ hdoc, fun r hr => ?_, fun r k hk => ?_⟩
  · have hne : r ≠ ref := by
      rintro rfl
      rw [hdoc] at hr
      cases hr
    exact (OrderedMap.get?_set_of_ne _ hne _).trans hr
  · rw [World.mixinField_set rfl, HulyDoc.mixinAttrs_withMixin, if_pos rfl,
      field_assign_marked hn _ (ne_originated_of_mem hk)]
    by_cases hr : r = ref
    · rw [if_pos hr, hr, World.mixinField, hdoc]
      by_cases hmem : k ∈ attributes.map Prod.fst
      · rw [if_pos hmem, if_pos ⟨rfl, hmem⟩]
      · rw [if_neg hmem, if_neg fun hcond => hmem hcond.2]
    · rw [if_neg hr, if_neg fun hcond => hr hcond.1]

theorem puts_of_still {ref : Ref} {attributes : Fields} {w₁ w₂ : World} (h : Still bctx w w₁)
    (h' : Puts ref attributes w₁ w₂) : Puts ref attributes w w₂ := by
  refine ⟨fun r hr => h'.absent r (h.absent hr), fun r k hk => ?_⟩
  rw [h'.fields r k hk, h.mixinField r k]

theorem Puts.still {ref : Ref} {attributes : Fields} {w₁ w₂ : World} (h : Puts ref attributes w w₁)
    (h' : Still bctx w₁ w₂) : Puts ref attributes w w₂ := by
  refine ⟨fun r hr => h'.absent (h.absent r hr), fun r k hk => ?_⟩
  rw [h'.mixinField r k, h.fields r k hk]

/-- Notes of the system are skipped. -/
theorem applyThreadNote_system (hs : Notes.NoteShape note n body) (hsystem : n.system = true)
    (parentRef : Ref) (thread : ThreadState) (rootNoteId : JsValue) (w : World) :
    (applyThreadNote env bctx parentRef thread rootNoteId note).run w = (.ok (), w) := by
  unfold applyThreadNote
  rw [hs.system, ofExcept_ok_bind, hsystem]
  rfl

/-- What is left of a round after the note was looked up and its author resolved. -/
theorem applyThreadNote_eq (bctx : BindingContext) (h : env.Healthy)
    (hs : Notes.NoteShape note n body) (huser : n.system = false) (howned : StubsOwned w.idmap) (parentRef : Ref)
    (thread : ThreadState) (rootNoteId : JsValue) :
    ∃ w₁ message author createdAt updatedAt, Still bctx w w₁ ∧
      (applyThreadNote env bctx parentRef thread rootNoteId note).run w =
        (putMessage env bctx
            (w.idmap.findByGitlab bctx.workspaceUuid .review_thread
              (noteIdmapKey thread.threadId (.num n.id)))
            (noteIdmapKey thread.threadId (.num n.id)) parentRef message author createdAt
            updatedAt >>= fun ref =>
          Sync.putMixin env ref MR_REVIEW_THREAD_MIXIN
            (withOriginatedMarker (mixinAttributes thread note rootNoteId))).run w₁ := by
  obtain ⟨identity, hidentity, hmail⟩ := hs.author
  obtain ⟨created, hcreated⟩ := hs.createdAt
  obtain ⟨updated, hupdated⟩ := hs.updatedAt
  let key := noteIdmapKey thread.threadId (.num n.id)
  let asked : World := { w with lookups := w.lookups ++ [(.review_thread, key)] }
  obtain ⟨idmap, lookups, -, hauthor⟩ :=
    resolveUser_run h bctx.workspaceUuid hidentity hmail (w := asked) howned
  have hasked : Still bctx w asked := by
    have hfind : Still bctx w _ :=
      Stilling.findByGitlab env bctx.workspaceUuid .review_thread key w
    rwa [Sync.findByGitlab_run h] at hfind
  have hresolved : Still bctx asked { asked with idmap := idmap, lookups := lookups } := by
    have hresolve : Still bctx asked _ := Stilling.resolveUser env (note.get "author") asked
    rwa [hauthor] at hresolve
  refine ⟨_, JsValue.str (env.gfmMarkdownToMarkup body (mergeRequestRefUrl bctx) (imageUrl bctx)),
    .str (personOf env asked.idmap bctx.workspaceUuid identity), some created, some updated,
    Still.trans _ _ _ hasked hresolved, ?_⟩
  unfold applyThreadNote
  rw [hs.system, ofExcept_ok_bind, huser]
  dsimp only
  rw [hs.id, hs.body, hcreated, hupdated]
  refine (bind_of_ok (Sync.findByGitlab_run h _ _ _ w)).trans ?_
  rw [JsValue.asStr_str, ofExcept_ok_bind]
  exact bind_of_ok hauthor

/-- A note whose message is there. -/
theorem applyThreadNote_mapped (h : env.Healthy) (hs : Notes.NoteShape note n body)
    (huser : n.system = false) (howned : StubsOwned w.idmap) (parentRef : Ref)
    (thread : ThreadState) (rootNoteId : JsValue) {row : IdMapDoc} {doc : HulyDoc}
    (hrow : w.idmap.findByGitlab bctx.workspaceUuid .review_thread
      (noteIdmapKey thread.threadId (.num n.id)) = some row)
    (hdoc : w.docs.get? row.hulyRef = some doc) :
    ∃ w', (applyThreadNote env bctx parentRef thread rootNoteId note).run w = (.ok (), w') ∧
      Puts row.hulyRef (mixinAttributes thread note rootNoteId) w w' := by
  obtain ⟨w₁, message, author, createdAt, updatedAt, hstill, hrun⟩ :=
    applyThreadNote_eq bctx h hs huser howned parentRef thread rootNoteId
  obtain ⟨doc₁, hdoc₁⟩ := hstill.present hdoc
  obtain ⟨w₂, doc₂, hupdate, hdoc₂, -⟩ := updateMessage_run h hdoc₁ message author updatedAt
  have hupdated : Still bctx w₁ w₂ := by
    have hall : Still bctx w₁ _ :=
      Stilling.updateMessage_thread env row.hulyRef message author updatedAt w₁
    rwa [hupdate] at hall
  obtain ⟨w₃, hput, hputs⟩ :=
    puts_putMixin h hdoc₂ (nodup_mixinAttributes thread note rootNoteId)
  refine ⟨w₃, ?_, puts_of_still (Still.trans _ _ _ hstill hupdated) hputs⟩
  have hmessage : (putMessage env bctx (some row) (noteIdmapKey thread.threadId (.num n.id))
      parentRef message author createdAt updatedAt).run w₁ = (.ok row.hulyRef, w₂) := by
    unfold putMessage
    exact bind_of_ok hupdate
  rw [hrun, hrow]
  exact (bind_of_ok hmessage).trans hput

/-- A note that has a row: no document is added, and no other message gets another mixin. -/
theorem applyThreadNote_elsewhere (h : env.Healthy) (hs : Notes.NoteShape note n body)
    (huser : n.system = false) (howned : StubsOwned w.idmap) (parentRef : Ref)
    (thread : ThreadState) (rootNoteId : JsValue) {row : IdMapDoc}
    (hrow : w.idmap.findByGitlab bctx.workspaceUuid .review_thread
      (noteIdmapKey thread.threadId (.num n.id)) = some row) :
    Elsewhere row.hulyRef w
      ((applyThreadNote env bctx parentRef thread rootNoteId note).run w).2 := by
  obtain ⟨w₁, message, author, createdAt, updatedAt, hstill, hrun⟩ :=
    applyThreadNote_eq bctx h hs huser howned parentRef thread rootNoteId
  rw [hrun, hrow]
  refine Elsewhere.trans _ _ _ _ (elsewhere_of_still _ hstill) ?_
  unfold putMessage
  rw [bind_run]
  have hupdate : Still bctx w₁ _ :=
    Stilling.updateMessage_thread env row.hulyRef message author updatedAt w₁
  cases hmessage : (updateMessage env row.hulyRef message author updatedAt).run w₁ with
  | mk r w₂ =>
    rw [hmessage] at hupdate
    cases r with
    | error e =>
      rw [bind_of_error hmessage]
      exact elsewhere_of_still _ hupdate
    | ok a =>
      rw [bind_of_ok hmessage]
      exact Elsewhere.trans _ _ _ _ (elsewhere_of_still _ hupdate) (elsewhere_putMixin _ _ w₂)

theorem NewMessage.still_left {w₁ w₂ : World} (h : NewMessage w₁ w₂) (hstill : Still bctx w w₁) :
    NewMessage w w₂ := by
  obtain ⟨ref, doc, hdoc, hclass, hnone⟩ := h
  refine ⟨ref, doc, hdoc, hclass, ?_⟩
  cases hold : w.docs.get? ref with
  | none => rfl
  | some old =>
    obtain ⟨doc₁, hdoc₁⟩ := hstill.present hold
    rw [hnone] at hdoc₁
    cases hdoc₁

theorem NewMessage.still_right {w₁ w₂ : World} (h : NewMessage w w₁) (hstill : Still bctx w₁ w₂) :
    NewMessage w w₂ := by
  obtain ⟨ref, doc, hdoc, hclass, hnone⟩ := h
  obtain ⟨doc₂, hdoc₂, hext⟩ := hstill.edits.docs ref doc hdoc
  exact ⟨ref, doc₂, hdoc₂, hext.objectClass.trans hclass, hnone⟩

/-- Documents stay, with their classes. -/
theorem extended_upsertIdMap (row : IdMapDoc) :
    Effect.Within (fun w w' => Extended w.docs w'.docs) (Sync.upsertIdMap env row) := by
  have hwrites : Writes [.idmap] (Sync.upsertIdMap env row) :=
    Writes.upsertIdMap env (List.mem_singleton.mpr rfl) row
  intro w
  have hsame : ((Sync.upsertIdMap env row).run w).2.docs = w.docs :=
    hwrites.same (p := .docs) (by decide) w
  rw [hsame]
  exact Extended.refl _

/-- A message that is created is there however the run goes on. -/
theorem newMessage_createDoc (h : env.Healthy) (space : Ref) (attributes : Fields) {A : Type}
    {f : Ref → Sync A}
    (hf : ∀ ref, Effect.Within (fun w w' => Extended w.docs w'.docs) (f ref)) :
    NewMessage w ((Sync.createDoc env chatMessageClass space attributes >>= f).run w).2 := by
  let created : HulyDoc :=
    ⟨chatMessageClass, space, Fields.assign [("modifiedOn", .num w.now)] attributes, .empty⟩
  let ref := env.generateId w.docs.keys
  have hfresh : w.docs.get? ref = none :=
    (OrderedMap.get?_eq_none_iff _ _).mpr (env.generateId_fresh _)
  obtain ⟨doc, hdoc, hext⟩ := hf ref { w with docs := w.docs.set ref created } ref created
    (OrderedMap.get?_set_self _ _ _)
  refine ⟨ref, doc, ?_, hext.objectClass, hfresh⟩
  rw [bind_of_ok (Sync.createDoc_run h _ _ _ w)]
  exact hdoc

/-- A note without a row gets a new message. -/
theorem applyThreadNote_unmapped (h : env.Healthy) (hs : Notes.NoteShape note n body)
    (huser : n.system = false) (howned : StubsOwned w.idmap) (parentRef : Ref)
    (thread : ThreadState) (rootNoteId : JsValue)
    (hrow : w.idmap.findByGitlab bctx.workspaceUuid .review_thread
      (noteIdmapKey thread.threadId (.num n.id)) = none) :
    NewMessage w ((applyThreadNote env bctx parentRef thread rootNoteId note).run w).2 := by
  obtain ⟨w₁, message, author, createdAt, updatedAt, hstill, hrun⟩ :=
    applyThreadNote_eq bctx h hs huser howned parentRef thread rootNoteId
  have hnew : NewMessage w₁ ((applyThreadNote env bctx parentRef thread rootNoteId note).run
      w).2 := by
    rw [hrun, hrow]
    unfold putMessage createMessage
    rw [bind_bind]
    refine newMessage_createDoc h _ _ fun ref => ?_
    rw [bind_bind]
    have htrans : ∀ w₁ w₂ w₃ : World, Extended w₁.docs w₂.docs → Extended w₂.docs w₃.docs →
        Extended w₁.docs w₃.docs := fun _ _ _ => Extended.trans
    refine Effect.Within.bind htrans (extended_upsertIdMap _) fun _ => ?_
    intro s
    have hput : Edits bctx s ((Sync.putMixin env ref MR_REVIEW_THREAD_MIXIN
        (withOriginatedMarker (mixinAttributes thread note rootNoteId))).run s).2 :=
      Editing.putMixin env _ _ _ s
    exact hput.docs
  exact hnew.still_left hstill

end Rounds

end Reviews

/-! ### A hook, and the record it puts in the queue -/

/-- The note manager on a hook, and the review manager on the thread it may queue. -/
def processNoteHook (env : Env) (binding : BindingRef) (record : Fields) : Sync Unit := do
  let queued ← Effect.gets fun w : World => w.enqueued.length
  Notes.applyRemote env binding record
  let events ← Effect.gets fun w : World => w.enqueued.drop queued
  Effect.forEach
    (fun e : EnqueuedRecord =>
      if e.kind = "review" then Reviews.applyRemote env e.binding e.record else pure ())
    events

section Hooks

variable {env : Env} {binding : BindingRef} {bctx : BindingContext} {w : World} {record : Fields}
  {t : SyncReviewThread} {n : SyncReviewNote} {body : String}

/-- A hook that queues nothing. -/
theorem processNoteHook_of_still {w₁ : World}
    (hrun : ((Notes.applyRemote env binding record).run w).2 = w₁)
    (hqueue : w₁.enqueued = w.enqueued) :
    ((processNoteHook env binding record).run w).2 = w₁ := by
  unfold processNoteHook
  rw [gets_bind_run, bind_run]
  cases happly : (Notes.applyRemote env binding record).run w with
  | mk r w₂ =>
    rw [happly] at hrun
    obtain rfl : w₂ = w₁ := hrun
    cases r with
    | error e => rfl
    | ok a =>
      dsimp only
      rw [gets_bind_run, hqueue, List.drop_length]
      rfl

/-- A hook that queues one thread. -/
theorem processNoteHook_of_queued {w₁ : World} {e : EnqueuedRecord}
    (hrun : (Notes.applyRemote env binding record).run w = (.ok (), w₁))
    (hqueue : w₁.enqueued = w.enqueued ++ [e]) (hkind : e.kind = "review") :
    ((processNoteHook env binding record).run w).2 =
      ((Reviews.applyRemote env e.binding e.record).run w₁).2 := by
  unfold processNoteHook
  rw [gets_bind_run, bind_of_ok hrun, gets_bind_run, hqueue, List.drop_left, forEach_cons,
    if_pos hkind]
  exact bind_pure_snd _ (fun _ => ()) w₁

/-- What the note manager does with a hook. -/
theorem Notes.applyRemote_hook (h : Notes.IsNoteHook record t n body) (w : World) :
    (Notes.applyRemote env binding record).run w =
      (if Notes.LineComment record then
        if Notes.Malformed record then pure ()
        else
          Notes.routeReview env binding record (.num t.mergeRequestIid)
            (.obj ((Notes.hookNote record w.now).set "position"
              (Notes.parsePosition (Notes.hookPosition record))))
            (Notes.parsePosition (Notes.hookPosition record))
            (Notes.stringOr ((record.field "object_attributes").get "discussion_id") .undefined)
      else
        Notes.applyNote env binding record (.num t.mergeRequestIid)
          (.obj (Notes.hookNote record w.now))).run w := by
  unfold Notes.applyRemote
  rw [if_neg (by simp [h.bare, JsValue.isNumber]), gets_bind_run,
    Notes.parseWebhookPayload_hook h]
  by_cases hline : Notes.LineComment record
  · rw [if_pos hline, if_pos hline]
    by_cases hbad : Notes.Malformed record
    · rw [if_pos hbad, if_pos hbad]
    · rw [if_neg hbad, if_neg hbad]
  · rw [if_neg hline, if_neg hline]

/-- A thread as the note manager makes it up of one note. -/
structure IsEnvelope (envelope : Fields) (t : SyncReviewThread) (threadId : String)
    (note : JsValue) : Prop where
  discussionId : envelope.field "discussionId" = .str threadId
  iid : envelope.field "mergeRequestIid" = .num t.mergeRequestIid
  resolved : envelope.field "resolved" = .bool false
  resolvedBy : envelope.field "resolvedBy" = .null
  resolvedAt : envelope.field "resolvedAt" = .null
  notes : envelope.field "notes" = .arr [note]

/-- The note of the made up thread. -/
def Notes.envelopeNote (record : Fields) (now : Nat) : JsValue :=
  let note := Notes.hookNote record now
  .obj [("id", note.field "id"), ("body", note.field "body"), ("author", note.field "author"),
    ("createdAt", note.field "createdAt"), ("updatedAt", note.field "updatedAt"),
    ("system", note.field "system"), ("resolvable", .bool true), ("resolved", .bool false),
    ("position", Notes.parsePosition (Notes.hookPosition record))]

theorem Notes.envelopeNote_shape (h : Notes.IsNoteHook record t n body) (now : Nat) :
    Notes.NoteShape (Notes.envelopeNote record now) n body := by
  have hs := Notes.hookNote_shape h now
  refine ⟨?_, ?_, ?_, ?_, ?_, ?_⟩
  · simpa [envelopeNote] using hs.id
  · simpa [envelopeNote] using hs.system
  · simpa [envelopeNote] using hs.body
  · simpa [envelopeNote] using hs.author
  · simpa [envelopeNote] using hs.createdAt
  · simpa [envelopeNote] using hs.updatedAt

theorem Notes.reviewEnvelope_hook (bctx : BindingContext) (h : Notes.IsNoteHook record t n body)
    (now : Nat) :
    IsEnvelope
      (Notes.reviewEnvelope bctx (.num t.mergeRequestIid)
        (.obj ((Notes.hookNote record now).set "position"
          (Notes.parsePosition (Notes.hookPosition record))))
        (Notes.parsePosition (Notes.hookPosition record))
        (Notes.stringOr ((record.field "object_attributes").get "discussion_id") .undefined))
      t (Notes.hookThread record n) (Notes.envelopeNote record now) := by
  have hid : (Notes.hookNote record now).field "id" = .num n.id := (Notes.hookNote_shape h now).id
  refine ⟨?_, rfl, rfl, rfl, rfl, ?_⟩
  · unfold Notes.reviewEnvelope Notes.hookThread Notes.stringOr
    cases (record.field "object_attributes").get "discussion_id" with
    | str s => simp
    | _ => simp [hid, JsValue.text]
  · simp [Notes.reviewEnvelope, Notes.envelopeNote]

theorem IsEnvelope.marked {envelope : Fields} {threadId : String} {note : JsValue}
    (h : IsEnvelope envelope t threadId note) :
    IsEnvelope (envelope.set REVIEW_RETRY_FLAG (.bool true)) t threadId note := by
  have hset : ∀ k, k ≠ REVIEW_RETRY_FLAG →
      (envelope.set REVIEW_RETRY_FLAG (.bool true)).field k = envelope.field k := by
    intro k hk
    rw [Fields.field_set, if_neg (Ne.symm hk)]
  refine ⟨?_, ?_, ?_, ?_, ?_, ?_⟩
  · rw [hset _ (by decide), h.discussionId]
  · rw [hset _ (by decide), h.iid]
  · rw [hset _ (by decide), h.resolved]
  · rw [hset _ (by decide), h.resolvedBy]
  · rw [hset _ (by decide), h.resolvedAt]
  · rw [hset _ (by decide), h.notes]

/-- The review manager on a thread of one note: it is unresolved, and the note is its root. -/
theorem Reviews.applyRemote_envelope (h : env.Healthy) (hload : env.loadBinding binding = .ok bctx)
    {envelope : Fields} {threadId : String} {note : JsValue}
    (he : IsEnvelope envelope t threadId note) (hs : Notes.NoteShape note n body)
    {row : IdMapDoc} (hrow : w.idmap.findByGitlab bctx.workspaceUuid .merge_request
      (projectKey env bctx (.num t.mergeRequestIid)) = some row) :
    ∃ w₁, Still bctx w w₁ ∧
      ((Reviews.applyRemote env binding envelope).run w).2 =
        ((Reviews.applyThreadNote env bctx row.hulyRef
            ⟨.str threadId, .bool false, .undefined, .undefined⟩ (.num n.id) note >>= fun _ =>
          Sync.setCursor env binding .reviews (envelope.field "updatedAt").getTime).run w₁).2 := by
  let asked : World := { w with
    lookups := w.lookups ++ [(.merge_request, projectKey env bctx (.num t.mergeRequestIid))] }
  have hasked : Still bctx w asked := by
    have hfind : Still bctx w _ := Stilling.findByGitlab env bctx.workspaceUuid .merge_request
      (projectKey env bctx (.num t.mergeRequestIid)) w
    rwa [Sync.findByGitlab_run h] at hfind
  refine ⟨asked, hasked, ?_⟩
  have hby : (Reviews.resolvedByOf env .null).run asked = (.ok .undefined, asked) := rfl
  have hat : Reviews.resolvedAtOf .null = .ok .undefined := rfl
  unfold Reviews.applyRemote Sync.loadBinding findParent
  rw [hload, ofExcept_ok_bind, he.iid, bind_of_ok (Sync.findByGitlab_run h _ _ _ w), hrow]
  dsimp only
  unfold Reviews.applyMapped
  rw [he.resolvedBy, he.resolvedAt, he.notes, he.discussionId, he.resolved, bind_of_ok hby, hat,
    ofExcept_ok_bind, JsValue.elements_arr, ofExcept_ok_bind]
  dsimp only
  rw [hs.id, forEach_cons, bind_bind]
  rfl

/-- A line comment ends in a round of the review manager on a thread of one note. -/
theorem processNoteHook_line (h : env.Healthy) (hload : env.loadBinding binding = .ok bctx)
    (hhook : Notes.IsNoteHook record t n body) (hline : Notes.LineComment record)
    (hgood : ¬ Notes.Malformed record) {row : IdMapDoc}
    (hrow : w.idmap.findByGitlab bctx.workspaceUuid .merge_request
      (projectKey env bctx (.num t.mergeRequestIid)) = some row) :
    ∃ w₁ ts, Still bctx w w₁ ∧
      ((processNoteHook env binding record).run w).2 =
        ((Reviews.applyThreadNote env bctx row.hulyRef
            ⟨.str (Notes.hookThread record n), .bool false, .undefined, .undefined⟩ (.num n.id)
            (Notes.envelopeNote record w.now) >>= fun _ =>
          Sync.setCursor env binding .reviews ts).run w₁).2 := by
  obtain ⟨e, hrun, hbinding, hkind, he⟩ : ∃ e : EnqueuedRecord,
      (Notes.applyRemote env binding record).run w = (.ok (), { w with
        lookups := w.lookups ++ [(.merge_request, projectKey env bctx (.num t.mergeRequestIid))]
        enqueued := w.enqueued ++ [e] }) ∧ e.binding = binding ∧ e.kind = "review" ∧
      IsEnvelope e.record t (Notes.hookThread record n) (Notes.envelopeNote record w.now) := by
    have henvelope := Notes.reviewEnvelope_hook bctx hhook w.now
    rw [Notes.applyRemote_hook hhook, if_pos hline, if_neg hgood]
    unfold Notes.routeReview Sync.loadBinding findParent
    rw [hload, ofExcept_ok_bind, bind_of_ok (Sync.findByGitlab_run h _ _ _ w), hrow]
    dsimp only
    refine ⟨_, rfl, rfl, rfl, ?_⟩
    by_cases hretried : Notes.retried record
    · rw [if_pos hretried]
      exact henvelope.marked
    · rw [if_neg hretried]
      exact henvelope
  let queued : World := { w with
    lookups := w.lookups ++ [(.merge_request, projectKey env bctx (.num t.mergeRequestIid))]
    enqueued := w.enqueued ++ [e] }
  have hqueued : Still bctx w queued := ⟨Edits.of_same rfl rfl, fun _ => rfl⟩
  obtain ⟨w₁, hstill, happly⟩ := Reviews.applyRemote_envelope (w := queued) h hload he
    (Notes.envelopeNote_shape hhook w.now) hrow
  refine ⟨w₁, (e.record.field "updatedAt").getTime, Still.trans _ _ _ hqueued hstill, ?_⟩
  rw [processNoteHook_of_queued hrun rfl hkind, hbinding, happly]

/-- What a round on the made up thread writes. -/
theorem Reviews.field_hookAttributes (threadId : String) (now : Nat)
    (hhook : Notes.IsNoteHook record t n body) {k : String} (hk : k ∈ THREAD_FIELDS) :
    k ∈ (mixinAttributes ⟨.str threadId, .bool false, .undefined, .undefined⟩
        (Notes.envelopeNote record now) (.num n.id)).map Prod.fst ∧
      (mixinAttributes ⟨.str threadId, .bool false, .undefined, .undefined⟩
        (Notes.envelopeNote record now) (.num n.id)).field k =
      Fields.field [("threadId", .str threadId), ("resolved", .bool false),
        ("resolvedBy", .undefined), ("resolvedAt", .undefined),
        ("position", Notes.parsePosition (Notes.hookPosition record))] k := by
  have hid := (Notes.envelopeNote_shape hhook now).id
  have hposition : (Notes.envelopeNote record now).get "position" =
      Notes.parsePosition (Notes.hookPosition record) := by
    simp [Notes.envelopeNote]
  have hattributes : mixinAttributes ⟨.str threadId, .bool false, .undefined, .undefined⟩
      (Notes.envelopeNote record now) (.num n.id) =
        [("threadId", .str threadId), ("resolved", .bool false), ("resolvedBy", .undefined),
          ("resolvedAt", .undefined),
          ("position", Notes.parsePosition (Notes.hookPosition record))] := by
    unfold mixinAttributes
    rw [hid, hposition, if_pos rfl]
    rfl
  rw [hattributes]
  exact ⟨hk, rfl⟩

end Hooks

end HulyGitlab
