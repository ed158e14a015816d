import HulyGitlab.Sync.Arrivals
import HulyGitlab.Sync.KeyStability

/-!
# Where cursors go

A handler moves at most the cursor of its binding and its kind. One that
applies a record moves it to the time of the record, one that pushes a local
change to the present.
-/

namespace HulyGitlab

open Effect (Within)

/-- Only this cursor may have moved, and to a time that is allowed at the present one. -/
structure OnlyMoved (key : BindingRef × CursorKind) (allowed : Nat → Nat → Prop) (w w' : World) :
    Prop where
  now : w'.now = w.now
  others : ∀ k, k ≠ key → w'.cursors.get? k = w.cursors.get? k
  moved : w'.cursors.get? key = w.cursors.get? key ∨
    ∃ t, w'.cursors.get? key = some t ∧ allowed w.now t

/-- All parts but the cursors. -/
def cursorless : List Part := [.idmap, .docs, .statusCache, .requests, .enqueued, .lookups]

/-- The computation moves only this cursor. -/
abbrev MovesOnly {A : Type} (key : BindingRef × CursorKind) (allowed : Nat → Nat → Prop)
    (m : Sync A) : Prop := Within (OnlyMoved key allowed) m

variable {key : BindingRef × CursorKind} {allowed : Nat → Nat → Prop}

theorem OnlyMoved.of_same {w w' : World} (hnow : w'.now = w.now) (h : w'.cursors = w.cursors) :
    OnlyMoved key allowed w w' :=
  ⟨hnow, fun _ _ => by rw [h], .inl (by rw [h])⟩

theorem OnlyMoved.refl (w : World) : OnlyMoved key allowed w w := of_same rfl rfl

theorem OnlyMoved.trans (w w' w'' : World) (h : OnlyMoved key allowed w w')
    (h' : OnlyMoved key allowed w' w'') : OnlyMoved key allowed w w'' := by
  refine ⟨h'.now.trans h.now, fun k hk => (h'.others k hk).trans (h.others k hk), ?_⟩
  obtain hsame | ⟨t, ht, hallowed⟩ := h'.moved
  · exact h.moved.imp hsame.trans fun ⟨t, ht, hallowed⟩ => ⟨t, hsame.trans ht, hallowed⟩
  · exact .inr ⟨t, ht, h.now ▸ hallowed⟩

theorem OnlyMoved.mono {allowed' : Nat → Nat → Prop} {w w' : World}
    (h : ∀ t, allowed w.now t → allowed' w.now t) (hm : OnlyMoved key allowed w w') :
    OnlyMoved key allowed' w w' :=
  ⟨hm.now, hm.others, hm.moved.imp id fun ⟨t, ht, hallowed⟩ => ⟨t, ht, h t hallowed⟩⟩

namespace MovesOnly

variable {A B : Type}

theorem of_writes {m : Sync A} (h : Writes cursorless m) : MovesOnly key allowed m := fun w =>
  OnlyMoved.of_same (h w).now ((h w).same .cursors (by decide))

theorem pure (a : A) : MovesOnly key allowed (pure a) := Within.pure OnlyMoved.refl a

theorem bind {m : Sync A} {f : A → Sync B} (hm : MovesOnly key allowed m)
    (hf : ∀ a, MovesOnly key allowed (f a)) : MovesOnly key allowed (m >>= f) :=
  Within.bind OnlyMoved.trans hm hf

/-- What follows a part that leaves the cursors alone. -/
theorem after {m : Sync A} {f : A → Sync B} (hm : Writes cursorless m)
    (hf : ∀ a, MovesOnly key allowed (f a)) : MovesOnly key allowed (m >>= f) :=
  bind (of_writes hm) hf

theorem ite {c : Prop} [Decidable c] {m n : Sync A} (hm : MovesOnly key allowed m)
    (hn : MovesOnly key allowed n) : MovesOnly key allowed (if c then m else n) :=
  Within.ite (fun _ => hm) fun _ => hn

variable (env : Env)

theorem moved_setCursor {binding : BindingRef} {kind : CursorKind} {t : JsDate} {w : World}
    (h : allowed w.now (t.getD 0)) :
    OnlyMoved (binding, kind) allowed w ((Sync.setCursor env binding kind t).run w).2 := by
  obtain ⟨e, hrun⟩ | hrun : (∃ e, (Sync.setCursor env binding kind t).run w = (.error e, w)) ∨
      (Sync.setCursor env binding kind t).run w = _ := Sync.reach_bind_cases env .cursors _ w
  · rw [hrun]
    exact OnlyMoved.refl w
  · rw [hrun]
    refine ⟨rfl, fun k hk => OrderedMap.get?_set_of_ne _ hk _, .inr ⟨t.getD 0, ?_, h⟩⟩
    exact OrderedMap.get?_set_self _ _ _

theorem setCursor {binding : BindingRef} {kind : CursorKind} {t : JsDate}
    (h : ∀ now, allowed now (t.getD 0)) :
    MovesOnly (binding, kind) allowed (Sync.setCursor env binding kind t) := fun w =>
  moved_setCursor env (h w.now)

/-- `setCursor(…, new Date())`. -/
theorem setCursor_now {binding : BindingRef} {kind : CursorKind} (h : ∀ now, allowed now now) :
    MovesOnly (binding, kind) allowed
      (Effect.gets World.now >>= fun now => Sync.setCursor env binding kind (some now)) := by
  intro w
  rw [Effect.gets_bind_run]
  exact moved_setCursor env (h w.now)

/-- The last step of an update. -/
theorem advanceCursor {binding : BindingRef} {kind : CursorKind} {localTs : Option JsDate}
    {remoteTs : JsDate} (h : ∀ now, allowed now (remoteTs.getD 0)) :
    MovesOnly (binding, kind) allowed
      (HulyGitlab.advanceCursor env binding kind localTs remoteTs) :=
  ite (setCursor env h) (pure _)

end MovesOnly

section Remote

variable (env : Env)

/-- The time of a record. -/
def timeOf (updatedAt : JsValue) : Nat := updatedAt.getTime.getD 0

theorem Issues.movesOnly_applyRemote (binding : BindingRef) (syncIssue : Fields) :
    MovesOnly (binding, .issues) (fun _ t => t = timeOf (syncIssue.field "updatedAt"))
      (Issues.applyRemote env binding syncIssue) := by
  unfold Issues.applyRemote
  apply MovesOnly.after (Writes.loadBinding env binding)
  intro bctx
  apply MovesOnly.after (Writes.findByGitlab env (by decide) _ _ _)
  intro existing
  apply MovesOnly.after (Writes.ofExcept _)
  intro rawDescription
  apply MovesOnly.after (Writes.resolveAssignee env (by decide) (by decide) _ _)
  intro assignee
  apply MovesOnly.after (Writes.ofExcept _)
  intro names
  apply MovesOnly.after (Writes.resolveLocal env (by decide) _ _ _)
  intro labelRefs
  apply MovesOnly.after (Issues.resolveMilestone_writes env (by decide) _ _)
  intro milestone
  apply MovesOnly.after (Writes.mapRemoteState env (by decide) _ _ _)
  intro statusRef
  cases statusRef with
  | none => exact MovesOnly.pure _
  | some status =>
    cases existing with
    | none =>
      apply MovesOnly.after (Writes.createDoc env (by decide) _ _ _)
      intro issueRef
      apply MovesOnly.after (Writes.upsertIdMap env (by decide) _)
      intro _
      exact MovesOnly.setCursor env fun _ => rfl
    | some row =>
      apply MovesOnly.after (Writes.findOne env _ _)
      intro hulyIssue
      cases hulyIssue with
      | none => exact MovesOnly.pure _
      | some issue =>
        apply MovesOnly.after (Writes.writeUpdate env (by decide) _ _ _)
        intro _
        exact MovesOnly.advanceCursor env fun _ => rfl

theorem Notes.movesOnly_applyNote (binding : BindingRef) (rawRecord : Fields)
    (noteableIid note : JsValue) :
    MovesOnly (binding, .notes) (fun _ t => t = timeOf (note.get "updatedAt"))
      (Notes.applyNote env binding rawRecord noteableIid note) := by
  unfold Notes.applyNote
  apply MovesOnly.after (Writes.ofExcept _)
  intro system
  apply MovesOnly.ite (MovesOnly.pure _)
  apply MovesOnly.after (Writes.loadBinding env binding)
  intro bctx
  apply MovesOnly.after (Writes.findParent env (by decide) _ _ _)
  intro parent
  cases parent with
  | none =>
    dsimp only
    cases markAndRetry rawRecord NOTE_RETRY_FLAG with
    | none => exact MovesOnly.pure _
    | some marked =>
      exact MovesOnly.of_writes (Writes.enqueueRecord (by decide) _)
  | some row =>
    unfold Notes.applyMapped
    apply MovesOnly.after (Writes.findByGitlab env (by decide) _ _ _)
    intro existing
    apply MovesOnly.after (Writes.ofExcept _)
    intro body
    apply MovesOnly.after (Writes.resolveUser env (by decide) (by decide) _ _)
    intro author
    cases existing with
    | none =>
      apply MovesOnly.after (Writes.createDoc env (by decide) _ _ _)
      intro msgRef
      apply MovesOnly.after (Writes.upsertIdMap env (by decide) _)
      intro _
      exact MovesOnly.setCursor env fun _ => rfl
    | some mapped =>
      apply MovesOnly.after (Writes.getCursor env _ _)
      intro cursor
      apply MovesOnly.ite ?_ (MovesOnly.pure _)
      apply MovesOnly.after (Writes.updateDoc env (by decide) _ _)
      intro _
      exact MovesOnly.setCursor env fun _ => rfl

/-- The note that the manager of notes applies; line comments go on to the review manager. -/
def Notes.appliedNote (rawRecord : Fields) (now : Nat) : JsValue :=
  if (rawRecord.field "noteableIid").isNumber ∧ rawRecord.field "note" ≠ .undefined then
    rawRecord.field "note"
  else
    match parseWebhookPayload rawRecord now with
    | some (.note _ note) => note
    | _ => .undefined

theorem Notes.movesOnly_applyRemote (binding : BindingRef) (rawRecord : Fields) :
    MovesOnly (binding, .notes)
      (fun now t => t = timeOf ((appliedNote rawRecord now).get "updatedAt"))
      (Notes.applyRemote env binding rawRecord) := by
  intro w
  unfold Notes.applyRemote
  by_cases henvelope : (rawRecord.field "noteableIid").isNumber ∧
      rawRecord.field "note" ≠ .undefined
  · rw [if_pos henvelope]
    refine (Notes.movesOnly_applyNote env binding rawRecord _ _ w).mono fun t ht => ?_
    rw [appliedNote, if_pos henvelope]
    exact ht
  · rw [if_neg henvelope, Effect.gets_bind_run]
    cases hparsed : parseWebhookPayload rawRecord w.now with
    | none => exact OnlyMoved.refl w
    | some parsed =>
      cases parsed with
      | malformedPosition iid note => exact OnlyMoved.refl w
      | note iid note =>
        refine (Notes.movesOnly_applyNote env binding rawRecord iid note w).mono fun t ht => ?_
        rw [appliedNote, if_neg henvelope, hparsed]
        exact ht
      | review iid note position discussionId =>
        have hroute : Writes cursorless
            (routeReview env binding rawRecord iid note position discussionId) := by
          apply Writes.bind (Writes.loadBinding env binding)
          intro bctx
          apply Writes.bind (Writes.findParent env (by decide) _ _ _)
          intro parentMapping
          cases parentMapping with
          | none => exact Writes.ite (Writes.pure _) (Writes.enqueueRecord (by decide) _)
          | some row => exact Writes.enqueueRecord (by decide) _
        exact MovesOnly.of_writes hroute w

theorem MergeRequests.movesOnly_applyRemote (binding : BindingRef) (syncMR : Fields) :
    MovesOnly (binding, .merge_requests) (fun _ _ => True)
      (MergeRequests.applyRemote env binding syncMR) := by
  unfold MergeRequests.applyRemote
  apply MovesOnly.after (Writes.loadBinding env binding)
  intro bctx
  apply MovesOnly.after (Writes.findByGitlab env (by decide) _ _ _)
  intro existing
  apply MovesOnly.after ((resolveRecord_writes env bctx syncMR).mono (by decide))
  intro r
  cases existing with
  | none =>
    apply MovesOnly.ite (MovesOnly.pure _)
    apply MovesOnly.after (Writes.createDoc env (by decide) _ _ _)
    intro issueRef
    apply MovesOnly.after (Writes.putMixin env (by decide) _ _ _)
    intro _
    apply MovesOnly.after (Writes.ofExcept _)
    intro review
    apply MovesOnly.after (putReviewMixin_writes env (by decide) _ _)
    intro _
    apply MovesOnly.after (Writes.upsertIdMap env (by decide) _)
    intro _
    exact MovesOnly.setCursor env fun _ => trivial
  | some row =>
    apply MovesOnly.after (Writes.findOne env _ _)
    intro hulyIssue
    cases hulyIssue with
    | none => exact MovesOnly.pure _
    | some issue =>
      apply MovesOnly.after (Writes.writeUpdate env (by decide) _ _ _)
      intro _
      apply MovesOnly.after (putMixins_writes env (by decide) _ _ _ _ _)
      intro _
      exact MovesOnly.advanceCursor env fun _ => trivial

theorem Reviews.movesOnly_applyRemote (binding : BindingRef) (syncThread : Fields) :
    MovesOnly (binding, .reviews) (fun _ _ => True)
      (Reviews.applyRemote env binding syncThread) := by
  unfold Reviews.applyRemote
  apply MovesOnly.after (Writes.loadBinding env binding)
  intro bctx
  apply MovesOnly.after (Writes.findParent env (by decide) _ _ _)
  intro parentMapping
  cases parentMapping with
  | none =>
    dsimp only
    unfold Reviews.deferThread
    cases markAndRetry syncThread REVIEW_RETRY_FLAG with
    | none => exact MovesOnly.pure _
    | some marked =>
      exact MovesOnly.after (Writes.ofExcept _) fun _ =>
        MovesOnly.of_writes (Writes.enqueueRecord (by decide) _)
  | some row =>
    apply MovesOnly.after (Writes.ite (Writes.pure _) (resolvePerson_writes env _))
    intro resolvedBy
    apply MovesOnly.after (Writes.ofExcept _)
    intro resolvedAt
    apply MovesOnly.after (Writes.ofExcept _)
    intro notes
    apply MovesOnly.after (Writes.forEach fun _ =>
      (applyThreadNote_writes env _ _ _ _ _).mono (by decide))
    intro _
    exact MovesOnly.setCursor env fun _ => trivial

theorem Epics.movesOnly_linkChildren (binding : BindingRef) (bctx : BindingContext)
    (syncEpic : Fields) :
    MovesOnly (binding, .epics) (fun _ _ => True)
      (Epics.linkChildren env binding bctx syncEpic) := by
  apply MovesOnly.after (Writes.ofExcept _)
  intro children
  apply MovesOnly.after (Writes.forEach fun _ => (linkChild_writes env _ _ _).mono (by decide))
  intro _
  exact MovesOnly.setCursor env fun _ => trivial

theorem Epics.movesOnly_applyRemote (binding : BindingRef) (syncEpic : Fields) :
    MovesOnly (binding, .epics) (fun _ _ => True) (Epics.applyRemote env binding syncEpic) := by
  unfold Epics.applyRemote
  apply MovesOnly.after (Writes.loadBinding env binding)
  intro bctx
  apply MovesOnly.ite (MovesOnly.pure _)
  apply MovesOnly.after (Writes.findByGitlab env (by decide) _ _ _)
  intro existing
  apply MovesOnly.after (Writes.ofExcept _)
  intro rawDescription
  dsimp only
  cases pickBacklogStatus bctx.statuses with
  | none => exact MovesOnly.pure _
  | some status =>
    apply MovesOnly.after (Writes.ofExcept _)
    intro _
    cases existing with
    | none =>
      apply MovesOnly.after ((createFromRemote_writes env _ _ _ _ _ _).mono (by decide))
      intro _
      exact movesOnly_linkChildren env binding bctx syncEpic
    | some row =>
      apply MovesOnly.after ((updateFromRemote_writes env _ _ _ _).mono (by decide))
      intro mirrored
      exact MovesOnly.ite (movesOnly_linkChildren env binding bctx syncEpic) (MovesOnly.pure _)

theorem Pipelines.movesOnly_applyRemote (binding : BindingRef) (syncPipeline : Fields) :
    MovesOnly (binding, .pipelines) (fun _ _ => True)
      (Pipelines.applyRemote env binding syncPipeline) := by
  apply MovesOnly.ite (MovesOnly.pure _)
  apply MovesOnly.after (Writes.loadBinding env binding)
  intro bctx
  apply MovesOnly.after (Writes.findByGitlab env (by decide) _ _ _)
  intro mrRef
  cases mrRef with
  | none => exact MovesOnly.pure _
  | some row => exact MovesOnly.of_writes (Writes.putMixin env (by decide) _ _ _)

end Remote

section Local

variable (env : Env)

theorem Issues.movesOnly_applyLocal (binding : BindingRef) (doc : String) (change : Fields) :
    MovesOnly (binding, .issues) (fun now t => t = now)
      (Issues.applyLocal env binding doc change) := by
  unfold Issues.applyLocal
  apply MovesOnly.after (Writes.loadBinding env binding)
  intro bctx
  apply MovesOnly.after (Writes.findByHuly env _ _ _)
  intro mapping
  apply MovesOnly.after ((remoteBody_writes env bctx change).mono (by decide))
  intro body
  cases mapping with
  | none =>
    apply MovesOnly.ite (MovesOnly.pure _)
    apply MovesOnly.after (Writes.request env (by decide) _)
    intro created
    apply MovesOnly.after (Writes.ofExcept _)
    intro iid
    apply MovesOnly.after (Writes.upsertIdMap env (by decide) _)
    intro _
    exact MovesOnly.setCursor_now env fun _ => rfl
  | some row =>
    dsimp only
    cases parseIid row.gitlabId with
    | none => exact MovesOnly.pure _
    | some iid =>
      apply MovesOnly.ite (MovesOnly.pure _)
      apply MovesOnly.after (Writes.request env (by decide) _)
      intro _
      exact MovesOnly.setCursor_now env fun _ => rfl

theorem Notes.movesOnly_createRemote (binding : BindingRef) (bctx : BindingContext) (hulyRef : Ref)
    (parent : LocalParent) (message : JsValue) :
    MovesOnly (binding, .notes) (fun now t => t = now)
      (Notes.createRemote env binding bctx hulyRef parent message) := by
  apply MovesOnly.ite (MovesOnly.pure _)
  apply MovesOnly.after (Writes.ofExcept _)
  intro text
  apply MovesOnly.after (Writes.ofExcept _)
  intro iid
  apply MovesOnly.after (Writes.request env (by decide) _)
  intro created
  apply MovesOnly.after (Writes.ofExcept _)
  intro id
  apply MovesOnly.after (Writes.upsertIdMap env (by decide) _)
  intro _
  exact MovesOnly.setCursor_now env fun _ => rfl

theorem Notes.movesOnly_sent (binding : BindingRef) (request : GitLabRequest) :
    MovesOnly (binding, .notes) (fun now t => t = now) (do
      let _ ← Sync.request env request
      touchCursor env binding) := by
  apply MovesOnly.after (Writes.request env (by decide) _)
  intro _
  exact MovesOnly.setCursor_now env fun _ => rfl

theorem Notes.movesOnly_changeRemote (binding : BindingRef) (bctx : BindingContext) (noteId : Int)
    (parent : LocalParent) (change : Fields) :
    MovesOnly (binding, .notes) (fun now t => t = now)
      (Notes.changeRemote env binding bctx noteId parent change) := by
  apply MovesOnly.ite (MovesOnly.pure _)
  apply MovesOnly.ite
  · apply MovesOnly.after (Writes.ofExcept _)
    intro iid
    exact movesOnly_sent env binding _
  · apply MovesOnly.ite ?_ (MovesOnly.pure _)
    apply MovesOnly.after (Writes.ofExcept _)
    intro text
    apply MovesOnly.after (Writes.ofExcept _)
    intro iid
    exact movesOnly_sent env binding _

theorem Notes.movesOnly_applyLocal (binding : BindingRef) (doc : String) (change : Fields) :
    MovesOnly (binding, .notes) (fun now t => t = now)
      (Notes.applyLocal env binding doc change) := by
  apply MovesOnly.ite (MovesOnly.pure _)
  apply MovesOnly.after (Writes.loadBinding env binding)
  intro bctx
  apply MovesOnly.after (Writes.findByHuly env _ _ _)
  intro mapping
  apply MovesOnly.ite (MovesOnly.pure _)
  apply MovesOnly.after ((resolveParent_writes env bctx change).mono (by decide))
  intro parent
  cases parent with
  | none => exact MovesOnly.pure _
  | some parent =>
    cases mapping with
    | none => exact movesOnly_createRemote env binding bctx _ parent _
    | some row =>
      dsimp only
      cases parseIid row.gitlabId with
      | none => exact MovesOnly.pure _
      | some noteId => exact movesOnly_changeRemote env binding bctx noteId parent change

theorem MergeRequests.movesOnly_applyLocal (binding : BindingRef) (doc : String) (change : Fields) :
    MovesOnly (binding, .merge_requests) (fun now t => t = now)
      (MergeRequests.applyLocal env binding doc change) := by
  unfold MergeRequests.applyLocal
  apply MovesOnly.after (Writes.loadBinding env binding)
  intro bctx
  apply MovesOnly.after (Writes.findByHuly env _ _ _)
  intro mapping
  cases mapping with
  | none => exact MovesOnly.pure _
  | some row =>
    dsimp only
    cases parseIid row.gitlabId with
    | none => exact MovesOnly.pure _
    | some iid =>
      apply MovesOnly.after ((pushChange_writes env bctx _ iid change).mono (by decide))
      intro touchedRemote
      exact MovesOnly.ite (MovesOnly.setCursor_now env fun _ => rfl) (MovesOnly.pure _)

theorem Reviews.movesOnly_applyLocal (binding : BindingRef) (doc : String) (change : Fields) :
    MovesOnly (binding, .reviews) (fun now t => t = now)
      (Reviews.applyLocal env binding doc change) := by
  apply MovesOnly.ite (MovesOnly.pure _)
  apply MovesOnly.after (Writes.loadBinding env binding)
  intro bctx
  apply MovesOnly.after (Writes.findByHuly env _ _ _)
  intro mapping
  cases mapping with
  | none => exact MovesOnly.pure _
  | some row =>
    apply MovesOnly.ite (MovesOnly.pure _)
    cases parseDiscussionNoteKey row.gitlabId with
    | none => exact MovesOnly.pure _
    | some found =>
      apply MovesOnly.ite (MovesOnly.pure _)
      apply MovesOnly.after (Writes.ofExcept _)
      intro iid
      apply MovesOnly.after (Writes.request env (by decide) _)
      intro _
      exact MovesOnly.setCursor_now env fun _ => rfl

end Local

end HulyGitlab
