import HulyGitlab.Sync.BindingRouting

/-!
# The requests for a changed message

What `applyLocal` of the note and the review manager sends, as a function of
the rows and of the change. Each sends at most one request.
-/

namespace HulyGitlab

open Effect

section Requests

variable (env : Env) {A : Type}

/-- After a request only rows and cursors are written. -/
theorem requests_of_request {r : GitLabRequest} {f : JsValue → Sync A}
    (hf : ∀ a, Writes [.idmap, .cursors] (f a)) (w : World) :
    ((Sync.request env r >>= f).run w).2.requests = w.requests ++ [r] := by
  rw [bind_run, Sync.request_run]
  cases env.gitlab w.requests r with
  | error e => rfl
  | ok answer => exact (hf answer).same (p := .requests) (by decide) _

end Requests

namespace Notes

variable (env : Env) (bctx : BindingContext)

/-- `resolveParent` on rows that can be read. -/
def parentOf (idmap : IdMap) (change : Fields) : Option LocalParent :=
  let hintIid := change.field "noteableIid"
  let hulyAttachedTo := (change.field "hulyMessage").get "attachedTo"
  if hulyAttachedTo = .undefined then some ⟨hintIid, false⟩
  else
    match idmap.findByHuly bctx.workspaceUuid issueClass hulyAttachedTo.text with
    | none => if hintIid = .undefined then none else some ⟨hintIid, false⟩
    | some row =>
        match parseProjectIid row.gitlabId with
        | none => some ⟨hintIid, false⟩
        | some (_, iid) =>
            some ⟨if hintIid = .undefined then .num iid else hintIid,
              row.gitlabKind = .merge_request⟩

/-- The parent iid of an edit or a removal. -/
def issueIidOf (change : Fields) : JsValue :=
  (change.field "issueIid").orElse (change.field "noteableIid")

/-- The request of `createRemote`, if there is one. -/
def createSends (parent : LocalParent) (message : JsValue) : List GitLabRequest :=
  if message = .undefined ∨ parent.iid = .undefined then []
  else
    match env.markupToGfmMarkdown message (issueRefUrl bctx) (imageUrl bctx), parent.iid.asNum with
    | .ok text, .ok iid =>
        [if parent.isMR then .createMRNote bctx.gitlabProjectId iid [("body", .str text)]
          else .createNote bctx.gitlabProjectId iid [("body", .str text)]]
    | _, _ => []

/-- The request of `changeRemote`, if there is one. -/
def changeSends (noteId : Int) (parent : LocalParent) (change : Fields) : List GitLabRequest :=
  if issueIidOf change = .undefined then []
  else if change.field "deleted" = .bool true then
    match (issueIidOf change).asNum with
    | .ok iid =>
        [if parent.isMR then .deleteMRNote bctx.gitlabProjectId iid noteId
          else .deleteNote bctx.gitlabProjectId iid noteId]
    | .error _ => []
  else if change.field "message" ≠ .undefined then
    match env.markupToGfmMarkdown (change.field "message") (issueRefUrl bctx) (imageUrl bctx),
      (issueIidOf change).asNum with
    | .ok text, .ok iid =>
        [if parent.isMR then .updateMRNote bctx.gitlabProjectId iid noteId [("body", .str text)]
          else .updateNote bctx.gitlabProjectId iid noteId [("body", .str text)]]
    | _, _ => []
  else []

/-- The requests of `applyLocal`. -/
def sends (idmap : IdMap) (hulyRef : Ref) (change : Fields) : List GitLabRequest :=
  if change.field "kind" = .str "review" then []
  else
    let mapping := idmap.findByHuly bctx.workspaceUuid HULY_CLASS_CHAT_MESSAGE hulyRef
    if mapping.map IdMapDoc.gitlabKind = some .review_thread then []
    else
      match parentOf bctx idmap change with
      | none => []
      | some parent =>
          match mapping with
          | none => createSends env bctx parent (change.field "message")
          | some row =>
              match parseIid row.gitlabId with
              | none => []
              | some noteId => changeSends env bctx noteId parent change

variable {env bctx}

theorem resolveParent_run (h : env.Healthy) (change : Fields) (w : World) :
    (resolveParent env bctx change).run w = (.ok (parentOf bctx w.idmap change), w) := by
  unfold resolveParent parentOf
  dsimp only
  by_cases hattached : (change.field "hulyMessage").get "attachedTo" = .undefined
  · rw [if_pos hattached, if_pos hattached]
    rfl
  · rw [if_neg hattached, if_neg hattached, bind_of_ok (Sync.findByHuly_run h _ _ _ w)]
    cases w.idmap.findByHuly bctx.workspaceUuid issueClass
        ((change.field "hulyMessage").get "attachedTo").text with
    | none => rfl
    | some row =>
      dsimp only
      cases parseProjectIid row.gitlabId with
      | none => rfl
      | some found => rfl

theorem touchCursor_rows (binding : BindingRef) :
    Writes [.idmap, .cursors] (touchCursor env binding) :=
  Writes.bind (Writes.gets _) fun _ => Writes.setCursor env (by decide) _ _ _

theorem createRemote_requests (binding : BindingRef) (hulyRef : Ref) (parent : LocalParent)
    (message : JsValue) (w : World) :
    ((createRemote env binding bctx hulyRef parent message).run w).2.requests =
      w.requests ++ createSends env bctx parent message := by
  unfold createRemote createSends
  by_cases hnone : message = .undefined ∨ parent.iid = .undefined
  · rw [if_pos hnone, if_pos hnone]
    exact (List.append_nil _).symm
  · rw [if_neg hnone, if_neg hnone]
    cases env.markupToGfmMarkdown message (issueRefUrl bctx) (imageUrl bctx) with
    | error e => exact (List.append_nil _).symm
    | ok text =>
      rw [ofExcept_ok_bind]
      cases parent.iid.asNum with
      | error e => exact (List.append_nil _).symm
      | ok iid =>
        rw [ofExcept_ok_bind]
        apply requests_of_request
        intro created
        exact Writes.bind (Writes.ofExcept _) fun _ => Writes.bind
          (Writes.upsertIdMap env (by decide) _) fun _ => touchCursor_rows _

theorem changeRemote_requests (binding : BindingRef) (noteId : Int) (parent : LocalParent)
    (change : Fields) (w : World) :
    ((changeRemote env binding bctx noteId parent change).run w).2.requests =
      w.requests ++ changeSends env bctx noteId parent change := by
  unfold changeRemote changeSends issueIidOf
  dsimp only
  by_cases hnone : (change.field "issueIid").orElse (change.field "noteableIid") = .undefined
  · rw [if_pos hnone, if_pos hnone]
    exact (List.append_nil _).symm
  · rw [if_neg hnone, if_neg hnone]
    by_cases hdeleted : change.field "deleted" = .bool true
    · rw [if_pos hdeleted, if_pos hdeleted]
      cases ((change.field "issueIid").orElse (change.field "noteableIid")).asNum with
      | error e => exact (List.append_nil _).symm
      | ok iid =>
        rw [ofExcept_ok_bind]
        exact requests_of_request env (fun _ => touchCursor_rows _) w
    · rw [if_neg hdeleted, if_neg hdeleted]
      by_cases hmessage : change.field "message" ≠ .undefined
      · rw [if_pos hmessage, if_pos hmessage]
        cases env.markupToGfmMarkdown (change.field "message") (issueRefUrl bctx)
            (imageUrl bctx) with
        | error e => exact (List.append_nil _).symm
        | ok text =>
          rw [ofExcept_ok_bind]
          cases ((change.field "issueIid").orElse (change.field "noteableIid")).asNum with
          | error e => exact (List.append_nil _).symm
          | ok iid =>
            rw [ofExcept_ok_bind]
            exact requests_of_request env (fun _ => touchCursor_rows _) w
      · rw [if_neg hmessage, if_neg hmessage]
        exact (List.append_nil _).symm

theorem applyLocal_requests (h : env.Healthy) {binding : BindingRef}
    (hload : env.loadBinding binding = .ok bctx) (doc : String) (change : Fields) (w : World) :
    ((applyLocal env binding doc change).run w).2.requests =
      w.requests ++ sends env bctx w.idmap (stripDocPrefix doc) change := by
  unfold applyLocal sends Sync.loadBinding
  rw [hload]
  by_cases hreview : change.field "kind" = .str "review"
  · rw [if_pos hreview, if_pos hreview]
    exact (List.append_nil _).symm
  · rw [if_neg hreview, if_neg hreview, ofExcept_ok_bind,
      bind_of_ok (Sync.findByHuly_run h _ _ _ w)]
    dsimp only
    by_cases hthread : (w.idmap.findByHuly bctx.workspaceUuid HULY_CLASS_CHAT_MESSAGE
        (stripDocPrefix doc)).map IdMapDoc.gitlabKind = some .review_thread
    · rw [if_pos hthread, if_pos hthread]
      exact (List.append_nil _).symm
    · rw [if_neg hthread, if_neg hthread, bind_of_ok (resolveParent_run h change w)]
      cases parentOf bctx w.idmap change with
      | none => exact (List.append_nil _).symm
      | some parent =>
        cases w.idmap.findByHuly bctx.workspaceUuid HULY_CLASS_CHAT_MESSAGE
            (stripDocPrefix doc) with
        | none => exact createRemote_requests _ _ _ _ _
        | some row =>
          dsimp only
          cases parseIid row.gitlabId with
          | none => exact (List.append_nil _).symm
          | some noteId => exact changeRemote_requests _ _ _ _ _

end Notes

namespace Reviews

variable {env : Env} {bctx : BindingContext}

/-- The request of `applyLocal`, if there is one. -/
def sends (bctx : BindingContext) (idmap : IdMap) (hulyRef : Ref) (change : Fields) :
    List GitLabRequest :=
  if change.field "resolved" = .undefined then []
  else
    match idmap.findByHuly bctx.workspaceUuid HULY_CLASS_CHAT_MESSAGE hulyRef with
    | none => []
    | some row =>
        if row.gitlabKind ≠ .review_thread then []
        else
          match parseDiscussionNoteKey row.gitlabId, (change.field "mergeRequestIid").asNum with
          | some (discussionId, _), .ok iid =>
              [.resolveDiscussion bctx.gitlabProjectId iid discussionId
                (change.field "resolved" = .bool true)]
          | _, _ => []

theorem applyLocal_requests (h : env.Healthy) {binding : BindingRef}
    (hload : env.loadBinding binding = .ok bctx) (doc : String) (change : Fields) (w : World) :
    ((applyLocal env binding doc change).run w).2.requests =
      w.requests ++ sends bctx w.idmap (stripDocPrefix doc) change := by
  unfold applyLocal sends Sync.loadBinding
  rw [hload]
  by_cases hresolved : change.field "resolved" = .undefined
  · rw [if_pos hresolved, if_pos hresolved]
    exact (List.append_nil _).symm
  · rw [if_neg hresolved, if_neg hresolved, ofExcept_ok_bind,
      bind_of_ok (Sync.findByHuly_run h _ _ _ w)]
    cases w.idmap.findByHuly bctx.workspaceUuid HULY_CLASS_CHAT_MESSAGE (stripDocPrefix doc) with
    | none => exact (List.append_nil _).symm
    | some row =>
      dsimp only
      by_cases hkind : row.gitlabKind ≠ .review_thread
      · rw [if_pos hkind, if_pos hkind]
        exact (List.append_nil _).symm
      · rw [if_neg hkind, if_neg hkind]
        cases parseDiscussionNoteKey row.gitlabId with
        | none => exact (List.append_nil _).symm
        | some found =>
          dsimp only
          by_cases hhint : change.field "mergeRequestIid" = .undefined
          · rw [if_pos hhint, hhint]
            exact (List.append_nil _).symm
          · rw [if_neg hhint]
            cases (change.field "mergeRequestIid").asNum with
            | error e => exact (List.append_nil _).symm
            | ok iid =>
              rw [ofExcept_ok_bind]
              exact requests_of_request env (fun _ => Writes.bind (Writes.gets _) fun _ =>
                Writes.setCursor env (by decide) _ _ _) w

end Reviews

end HulyGitlab
