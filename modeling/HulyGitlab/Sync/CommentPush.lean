import HulyGitlab.Sync.CommentRequests

/-!
# Comments on their way to GitLab

What a user does to a message, from the transaction to the request. The
envelope is what the transaction carries; the managers ask it for the numbers
of the parent, which are no properties of a message.
-/

namespace HulyGitlab

open Effect

/-! ### Comments -/

/-- What a message mirrors. -/
inductive MessageMirror
  | unmapped
  | note (noteId : Int)
  | threadNote (discussionId : String) (noteId : Int)
  deriving DecidableEq

/-- A message, and the row of the document it is attached to. -/
structure Comment where
  ref : Ref
  parent : IdMapDoc
  iid : Int
  mirror : MessageMirror

/-- What a user does to a message. -/
inductive CommentOp
  | create (message : String)
  | edit (message : String)
  | remove
  | resolve (resolved : Bool)

namespace Comment

/-- The message is attached to a merge request. -/
def OnMR (c : Comment) : Prop := c.parent.gitlabKind = .merge_request

instance (c : Comment) : Decidable c.OnMR := inferInstanceAs (Decidable (_ = _))

/-- The note of a mirrored message. -/
def noteId (c : Comment) : Option Int :=
  match c.mirror with
  | .unmapped => none
  | .note noteId => some noteId
  | .threadNote _ noteId => some noteId

/-- The row of the message says what it mirrors. -/
def Mapped (bctx : BindingContext) (idmap : IdMap) (c : Comment) : Prop :=
  match c.mirror with
  | .unmapped => idmap.findByHuly bctx.workspaceUuid HULY_CLASS_CHAT_MESSAGE c.ref = none
  | .note noteId => ∃ row,
      idmap.findByHuly bctx.workspaceUuid HULY_CLASS_CHAT_MESSAGE c.ref = some row ∧
        row.gitlabKind = .note ∧ parseIid row.gitlabId = some noteId
  | .threadNote discussionId noteId => ∃ row,
      idmap.findByHuly bctx.workspaceUuid HULY_CLASS_CHAT_MESSAGE c.ref = some row ∧
        row.gitlabKind = .review_thread ∧
        parseDiscussionNoteKey row.gitlabId = some (discussionId, noteId) ∧ c.OnMR

/-- A message that is attached to a mirrored issue or merge request of the binding. -/
structure Known (bctx : BindingContext) (idmap : IdMap) (c : Comment) : Prop where
  /-- The references of the platform have no prefix. -/
  plain : stripDocPrefix c.ref = c.ref
  parent : idmap.findByHuly bctx.workspaceUuid issueClass c.parent.hulyRef = some c.parent
  parentKind : c.parent.gitlabKind = .issue ∨ c.OnMR
  key : parseProjectIid c.parent.gitlabId = some (bctx.gitlabProjectId, c.iid)
  mapped : c.Mapped bctx idmap

end Comment

namespace CommentOp

/-- The transaction of the operation. -/
def IsTx (tx : Tx) : CommentOp → Prop
  | .create message =>
      tx._class = TX_CLASS_CREATE ∧ Fields.field (tx.attributes.getD []) "message" = .str message
  | .edit message =>
      tx._class = TX_CLASS_UPDATE ∧ Fields.field (tx.operations.getD []) "message" = .str message
  | .remove => tx._class = TX_CLASS_REMOVE
  | .resolve resolved =>
      tx._class = TX_CLASS_MIXIN ∧ tx.mixin = MR_REVIEW_THREAD_MIXIN ∧
        Fields.field (tx.attributes.getD []) "resolved" = .bool resolved

/-- What the subscriber makes of the transaction. -/
def change (tx : Tx) : CommentOp → Fields
  | .create _ => tx.attributes.getD []
  | .edit _ => tx.operations.getD []
  | .remove => [("_removed", .bool true)]
  | .resolve _ => tx.attributes.getD []

def kind : CommentOp → SyncKind
  | .resolve _ => .review
  | _ => .note

/-- The call the operation stands for, on the objects the rows name. -/
def Calls (env : Env) (bctx : BindingContext) (c : Comment) (r : GitLabRequest) :
    CommentOp → Prop
  | .create message => c.mirror = .unmapped ∧ ∃ text,
      env.markupToGfmMarkdown (.str message) (issueRefUrl bctx) (imageUrl bctx) = .ok text ∧
        r = if c.OnMR then .createMRNote bctx.gitlabProjectId c.iid [("body", .str text)]
          else .createNote bctx.gitlabProjectId c.iid [("body", .str text)]
  | .edit message => ∃ text noteId,
      env.markupToGfmMarkdown (.str message) (issueRefUrl bctx) (imageUrl bctx) = .ok text ∧
        c.noteId = some noteId ∧
        r = if c.OnMR then .updateMRNote bctx.gitlabProjectId c.iid noteId [("body", .str text)]
          else .updateNote bctx.gitlabProjectId c.iid noteId [("body", .str text)]
  | .remove => ∃ noteId, c.noteId = some noteId ∧
        r = if c.OnMR then .deleteMRNote bctx.gitlabProjectId c.iid noteId
          else .deleteNote bctx.gitlabProjectId c.iid noteId
  | .resolve resolved => ∃ discussionId noteId, c.mirror = .threadNote discussionId noteId ∧
        r = .resolveDiscussion bctx.gitlabProjectId c.iid discussionId resolved

theorem classify_isTx {tx : Tx} {op : CommentOp} (h : op.IsTx tx)
    (hclass : tx.objectClass = chatMessageClass) :
    TxSubscription.classify tx = some (op.kind, op.change tx) := by
  have hkind : TxSubscription.kindOfClass tx.objectClass = some .note := by
    rw [hclass]
    decide
  unfold TxSubscription.classify
  cases op with
  | create message =>
    rw [if_neg (by rw [h.1]; decide), if_neg (by rw [h.1]; decide), if_pos h.1, hkind]
    rfl
  | edit message =>
    rw [if_neg (by rw [h.1]; decide), if_pos h.1, hkind]
    rfl
  | remove =>
    have hremove : tx._class = TX_CLASS_REMOVE := h
    rw [if_neg (by rw [hremove]; decide), if_neg (by rw [hremove]; decide),
      if_neg (by rw [hremove]; decide), if_pos hremove, hkind]
    rfl
  | resolve resolved =>
    rw [if_pos h.1, h.2.1]
    rfl

/-! ### What an envelope says of the parent -/

section Envelope

variable (bctx : BindingContext) (idmap : IdMap) (change : Fields)

/-- The row of the document that the envelope names, with its iid. -/
def namedParent : Option (IdMapDoc × Int) :=
  let hulyAttachedTo := (change.field "hulyMessage").get "attachedTo"
  if hulyAttachedTo = .undefined then none
  else
    (idmap.findByHuly bctx.workspaceUuid issueClass hulyAttachedTo.text).bind fun row =>
      (parseProjectIid row.gitlabId).map fun key => (row, key.2)

def NamesMR : Prop :=
  ∃ row iid, namedParent bctx idmap change = some (row, iid) ∧ row.gitlabKind = .merge_request

/-- The envelope names a document that has no row, and no iid. -/
def Orphan : Prop :=
  (change.field "hulyMessage").get "attachedTo" ≠ .undefined ∧
    idmap.findByHuly bctx.workspaceUuid issueClass
      ((change.field "hulyMessage").get "attachedTo").text = none ∧
    change.field "noteableIid" = .undefined

variable {bctx idmap change}

theorem parentOf_of_named {row : IdMapDoc} {iid : Int}
    (h : namedParent bctx idmap change = some (row, iid)) :
    Notes.parentOf bctx idmap change =
      some ⟨if change.field "noteableIid" = .undefined then .num iid
        else change.field "noteableIid", row.gitlabKind = .merge_request⟩ := by
  unfold namedParent at h
  unfold Notes.parentOf
  dsimp only at h ⊢
  by_cases hattached : (change.field "hulyMessage").get "attachedTo" = .undefined
  · rw [if_pos hattached] at h
    cases h
  · rw [if_neg hattached] at h ⊢
    obtain ⟨row', hrow, hkey⟩ := Option.bind_eq_some_iff.mp h
    obtain ⟨key, hparse, heq⟩ := Option.map_eq_some_iff.mp hkey
    cases heq
    rw [hrow]
    dsimp only
    rw [hparse]

theorem parentOf_of_unnamed [Decidable (Orphan bctx idmap change)]
    (h : namedParent bctx idmap change = none) :
    Notes.parentOf bctx idmap change =
      if Orphan bctx idmap change then none else some ⟨change.field "noteableIid", false⟩ := by
  unfold namedParent at h
  unfold Notes.parentOf
  dsimp only at h ⊢
  by_cases hattached : (change.field "hulyMessage").get "attachedTo" = .undefined
  · rw [if_pos hattached, if_neg fun horphan => horphan.1 hattached]
  · rw [if_neg hattached] at h ⊢
    cases hrow : idmap.findByHuly bctx.workspaceUuid issueClass
        ((change.field "hulyMessage").get "attachedTo").text with
    | none =>
      dsimp only
      by_cases hhint : change.field "noteableIid" = .undefined
      · rw [if_pos hhint, if_pos ⟨hattached, hrow, hhint⟩]
      · rw [if_neg hhint, if_neg fun horphan => hhint horphan.2.2]
    | some row =>
      rw [hrow] at h
      have hparse : parseProjectIid row.gitlabId = none := Option.map_eq_none_iff.mp h
      have hfound : ¬ Orphan bctx idmap change := by
        intro horphan
        rw [horphan.2.1] at hrow
        cases hrow
      dsimp only
      rw [hparse, if_neg hfound]

theorem not_orphan_of_named {found : IdMapDoc × Int}
    (h : namedParent bctx idmap change = some found) : ¬ Orphan bctx idmap change := by
  rintro ⟨hattached, hrow, -⟩
  unfold namedParent at h
  dsimp only at h
  rw [if_neg hattached, hrow] at h
  cases h

/-- The kind of parent the manager takes. -/
theorem parentOf_isMR_iff {onMR : Prop} [Decidable onMR] :
    (∃ v, Notes.parentOf bctx idmap change = some ⟨v, decide onMR⟩) ↔
      ¬ Orphan bctx idmap change ∧ (NamesMR bctx idmap change ↔ onMR) := by
  classical
  cases hnamed : namedParent bctx idmap change with
  | none =>
    have hnot : ¬ NamesMR bctx idmap change := by
      rintro ⟨row, iid, h, -⟩
      rw [hnamed] at h
      cases h
    rw [parentOf_of_unnamed hnamed]
    by_cases horphan : Orphan bctx idmap change
    · simp [horphan]
    · simp [horphan, hnot]
  | some found =>
    have hnames : NamesMR bctx idmap change ↔ found.1.gitlabKind = .merge_request := by
      unfold NamesMR
      rw [hnamed]
      constructor
      · rintro ⟨row, iid, h, hkind⟩
        cases h
        exact hkind
      · intro h
        exact ⟨found.1, found.2, rfl, h⟩
    rw [parentOf_of_named hnamed, hnames]
    simp [not_orphan_of_named hnamed]

/-- The parent the manager takes. -/
theorem parentOf_eq_iff {iid : Int} {onMR : Prop} [Decidable onMR] :
    Notes.parentOf bctx idmap change = some ⟨.num iid, decide onMR⟩ ↔
      (NamesMR bctx idmap change ↔ onMR) ∧
      (change.field "noteableIid" = .num iid ∨ change.field "noteableIid" = .undefined ∧
        ∃ row, namedParent bctx idmap change = some (row, iid)) := by
  classical
  constructor
  · intro h
    refine ⟨(parentOf_isMR_iff.mp ⟨_, h⟩).2, ?_⟩
    cases hnamed : namedParent bctx idmap change with
    | none =>
      rw [parentOf_of_unnamed hnamed] at h
      left
      by_cases horphan : Orphan bctx idmap change
      · rw [if_pos horphan] at h
        cases h
      · rw [if_neg horphan] at h
        exact congrArg Notes.LocalParent.iid (Option.some.inj h)
    | some found =>
      rw [parentOf_of_named hnamed] at h
      have hiid := congrArg Notes.LocalParent.iid (Option.some.inj h)
      dsimp only at hiid
      by_cases hhint : change.field "noteableIid" = .undefined
      · rw [if_pos hhint] at hiid
        cases hiid
        exact .inr ⟨hhint, found.1, rfl⟩
      · rw [if_neg hhint] at hiid
        exact .inl hiid
  · rintro ⟨hkind, hiid⟩
    have hfound : ¬ Orphan bctx idmap change := by
      rintro ⟨hattached, hrow, hhint⟩
      obtain hiid | ⟨-, row, hnamed⟩ := hiid
      · rw [hhint] at hiid
        cases hiid
      · exact not_orphan_of_named hnamed ⟨hattached, hrow, hhint⟩
    obtain ⟨v, hv⟩ := parentOf_isMR_iff.mpr ⟨hfound, hkind⟩
    suffices hvalue : v = .num iid by rw [hv, hvalue]
    obtain hhint | ⟨hhint, row, hnamed⟩ := hiid
    · cases hnamed : namedParent bctx idmap change with
      | none =>
        rw [parentOf_of_unnamed hnamed, if_neg hfound] at hv
        exact (congrArg Notes.LocalParent.iid (Option.some.inj hv)).symm.trans hhint
      | some found =>
        rw [parentOf_of_named hnamed] at hv
        have hiid := congrArg Notes.LocalParent.iid (Option.some.inj hv)
        rw [hhint] at hiid
        exact hiid.symm
    · rw [parentOf_of_named hnamed, if_pos hhint] at hv
      exact (congrArg Notes.LocalParent.iid (Option.some.inj hv)).symm

end Envelope

/-- The transaction carries what the manager asks it for: the kind and the iid of the parent. A
removal never does, and no manager sends the body of a note of a thread. -/
def Carried (env : Env) (bctx : BindingContext) (idmap : IdMap) (c : Comment) (change : Fields) :
    CommentOp → Prop
  | .create message =>
      c.mirror = .unmapped ∧ change.field "kind" ≠ .str "review" ∧
        (∃ text, env.markupToGfmMarkdown (.str message) (issueRefUrl bctx) (imageUrl bctx) =
          .ok text) ∧
        (NamesMR bctx idmap change ↔ c.OnMR) ∧
        (change.field "noteableIid" = .num c.iid ∨ change.field "noteableIid" = .undefined ∧
          ∃ row, namedParent bctx idmap change = some (row, c.iid))
  | .edit message =>
      (∃ noteId, c.mirror = .note noteId) ∧ change.field "kind" ≠ .str "review" ∧
        change.field "deleted" ≠ .bool true ∧
        (∃ text, env.markupToGfmMarkdown (.str message) (issueRefUrl bctx) (imageUrl bctx) =
          .ok text) ∧
        ¬ Orphan bctx idmap change ∧ (NamesMR bctx idmap change ↔ c.OnMR) ∧
        (change.field "issueIid").orElse (change.field "noteableIid") = .num c.iid
  | .remove => False
  | .resolve _ =>
      (∃ discussionId noteId, c.mirror = .threadNote discussionId noteId) ∧
        change.field "mergeRequestIid" = .num c.iid

/-- The requests of the manager the operation goes to. -/
def sends (env : Env) (bctx : BindingContext) (idmap : IdMap) (hulyRef : Ref) (change : Fields) :
    CommentOp → List GitLabRequest
  | .resolve _ => Reviews.sends bctx idmap hulyRef change
  | _ => Notes.sends env bctx idmap hulyRef change

/-! ### Which requests are the right ones -/

section Sends

variable {env : Env} {bctx : BindingContext} {idmap : IdMap} {c : Comment}

theorem createSends_calls_iff {parent : Notes.LocalParent} {message : String}
    (hunmapped : c.mirror = .unmapped) :
    (∃ r, (create message).Calls env bctx c r ∧
        Notes.createSends env bctx parent (.str message) = [r]) ↔
      (∃ text, env.markupToGfmMarkdown (.str message) (issueRefUrl bctx) (imageUrl bctx) =
        .ok text) ∧ parent = ⟨.num c.iid, decide c.OnMR⟩ := by
  obtain ⟨v, isMR⟩ := parent
  unfold Notes.createSends
  constructor
  · rintro ⟨r, ⟨-, text, htext, rfl⟩, hsends⟩
    by_cases hiid : v = .undefined
    · rw [if_pos (.inr hiid)] at hsends
      cases hsends
    · rw [if_neg (by simp [hiid]), htext] at hsends
      cases hnum : v.asNum with
      | error e =>
        simp only [hnum] at hsends
        cases hsends
      | ok iid =>
        obtain rfl := JsValue.asNum_ok hnum
        simp only [hnum] at hsends
        refine ⟨⟨text, htext⟩, ?_⟩
        by_cases hmr : c.OnMR <;> cases isMR <;> simp_all
  · rintro ⟨⟨text, htext⟩, hparent⟩
    cases hparent
    refine ⟨_, ⟨hunmapped, text, htext, rfl⟩, ?_⟩
    rw [if_neg (by simp), htext]
    simp

theorem changeSends_calls_iff {parent : Notes.LocalParent} {noteId : Int} {change : Fields}
    {message : String} (hnote : c.mirror = .note noteId)
    (hmessage : change.field "message" = .str message) :
    (∃ r, (edit message).Calls env bctx c r ∧
        Notes.changeSends env bctx noteId parent change = [r]) ↔
      change.field "deleted" ≠ .bool true ∧
      (∃ text, env.markupToGfmMarkdown (.str message) (issueRefUrl bctx) (imageUrl bctx) =
        .ok text) ∧ parent.isMR = decide c.OnMR ∧ Notes.issueIidOf change = .num c.iid := by
  have hid : c.noteId = some noteId := by
    unfold Comment.noteId
    rw [hnote]
  unfold Notes.changeSends
  rw [hmessage]
  constructor
  · rintro ⟨r, ⟨text, noteId', htext, hid', rfl⟩, hsends⟩
    by_cases hiid : Notes.issueIidOf change = .undefined
    · rw [if_pos hiid] at hsends
      cases hsends
    · rw [if_neg hiid] at hsends
      by_cases hdeleted : change.field "deleted" = .bool true
      · rw [if_pos hdeleted] at hsends
        cases hnum : (Notes.issueIidOf change).asNum with
        | error e =>
          simp only [hnum] at hsends
          cases hsends
        | ok iid =>
          simp only [hnum] at hsends
          by_cases hmr : c.OnMR <;> cases hparent : parent.isMR <;> simp_all
      · rw [if_neg hdeleted, if_pos (by simp), htext] at hsends
        refine ⟨hdeleted, ⟨text, htext⟩, ?_⟩
        cases hnum : (Notes.issueIidOf change).asNum with
        | error e =>
          simp only [hnum] at hsends
          cases hsends
        | ok iid =>
          simp only [hnum] at hsends
          rw [JsValue.asNum_ok hnum]
          by_cases hmr : c.OnMR <;> cases hparent : parent.isMR <;> simp_all
  · rintro ⟨hdeleted, ⟨text, htext⟩, hparent, hiid⟩
    refine ⟨_, ⟨text, noteId, htext, hid, rfl⟩, ?_⟩
    rw [hiid, if_neg (by simp), if_neg hdeleted, if_pos (by simp), htext, hparent]
    simp

/-- A change that says what the operation does. -/
def Says (change : Fields) : CommentOp → Prop
  | .create message => change.field "message" = .str message
  | .edit message => change.field "message" = .str message
  | .remove => change = [("_removed", .bool true)]
  | .resolve resolved => change.field "resolved" = .bool resolved

theorem says_change {tx : Tx} {op : CommentOp} (h : op.IsTx tx) : op.Says (op.change tx) := by
  cases op with
  | create message => exact h.2
  | edit message => exact h.2
  | remove => rfl
  | resolve resolved => exact h.2.2

/-- The note manager leaves the messages of threads alone. -/
theorem notes_sends_threadNote (hk : c.Known bctx idmap) {discussionId : String} {noteId : Int}
    (hthread : c.mirror = .threadNote discussionId noteId) (change : Fields) :
    Notes.sends env bctx idmap c.ref change = [] := by
  have hmapped := hk.mapped
  unfold Comment.Mapped at hmapped
  rw [hthread] at hmapped
  obtain ⟨row, hrow, hkind, -⟩ := hmapped
  unfold Notes.sends
  rw [hrow]
  by_cases hreview : change.field "kind" = .str "review"
  · rw [if_pos hreview]
  · rw [if_neg hreview, if_pos (by rw [Option.map_some, hkind])]

theorem notes_sends_unmapped (hk : c.Known bctx idmap) (hunmapped : c.mirror = .unmapped)
    {change : Fields} (hreview : change.field "kind" ≠ .str "review") :
    Notes.sends env bctx idmap c.ref change =
      match Notes.parentOf bctx idmap change with
      | none => []
      | some parent => Notes.createSends env bctx parent (change.field "message") := by
  have hmapped := hk.mapped
  unfold Comment.Mapped at hmapped
  rw [hunmapped] at hmapped
  have hrow : idmap.findByHuly bctx.workspaceUuid HULY_CLASS_CHAT_MESSAGE c.ref = none := hmapped
  unfold Notes.sends
  rw [hrow]
  exact (if_neg hreview).trans (if_neg (by simp))

theorem notes_sends_note (hk : c.Known bctx idmap) {noteId : Int} (hnote : c.mirror = .note noteId)
    {change : Fields} (hreview : change.field "kind" ≠ .str "review") :
    Notes.sends env bctx idmap c.ref change =
      match Notes.parentOf bctx idmap change with
      | none => []
      | some parent => Notes.changeSends env bctx noteId parent change := by
  have hmapped := hk.mapped
  unfold Comment.Mapped at hmapped
  rw [hnote] at hmapped
  obtain ⟨row, hrow, hkind, hparse⟩ := hmapped
  unfold Notes.sends
  have hother : ¬ (Option.map IdMapDoc.gitlabKind (some row)) = some .review_thread := by
    rw [Option.map_some, hkind]
    decide
  rw [hrow]
  refine ((if_neg hreview).trans (if_neg hother)).trans ?_
  cases Notes.parentOf bctx idmap change with
  | none => rfl
  | some parent =>
    dsimp only
    rw [hparse]

theorem notes_sends_review {change : Fields} (hreview : change.field "kind" = .str "review") :
    Notes.sends env bctx idmap c.ref change = [] := by
  unfold Notes.sends
  rw [if_pos hreview]

theorem create_calls_iff (hk : c.Known bctx idmap) {message : String} {change : Fields}
    (hmessage : change.field "message" = .str message) :
    (∃ r, (create message).Calls env bctx c r ∧ Notes.sends env bctx idmap c.ref change = [r]) ↔
      (create message).Carried env bctx idmap c change := by
  by_cases hunmapped : c.mirror = .unmapped
  · by_cases hreview : change.field "kind" = .str "review"
    · constructor
      · rintro ⟨r, -, h⟩
        rw [notes_sends_review hreview] at h
        cases h
      · intro h
        exact absurd hreview h.2.1
    · rw [notes_sends_unmapped hk hunmapped hreview, hmessage]
      have hcalls : (create message).Carried env bctx idmap c change ↔
          (∃ text, env.markupToGfmMarkdown (.str message) (issueRefUrl bctx) (imageUrl bctx) =
            .ok text) ∧
          Notes.parentOf bctx idmap change = some ⟨.num c.iid, decide c.OnMR⟩ := by
        rw [parentOf_eq_iff]
        exact ⟨fun h => ⟨h.2.2.1, h.2.2.2⟩, fun h => ⟨hunmapped, hreview, h.1, h.2⟩⟩
      rw [hcalls]
      cases Notes.parentOf bctx idmap change with
      | none => simp
      | some parent =>
        dsimp only
        rw [createSends_calls_iff hunmapped, Option.some_inj]
  · constructor
    · rintro ⟨r, h, -⟩
      exact absurd h.1 hunmapped
    · intro h
      exact absurd h.1 hunmapped

theorem edit_calls_iff (hk : c.Known bctx idmap) {message : String} {change : Fields}
    (hmessage : change.field "message" = .str message) :
    (∃ r, (edit message).Calls env bctx c r ∧ Notes.sends env bctx idmap c.ref change = [r]) ↔
      (edit message).Carried env bctx idmap c change := by
  cases hmirror : c.mirror with
  | unmapped =>
    constructor
    · rintro ⟨r, ⟨text, noteId, -, hid, -⟩, -⟩
      unfold Comment.noteId at hid
      rw [hmirror] at hid
      cases hid
    · rintro ⟨⟨noteId, hnote⟩, -⟩
      rw [hmirror] at hnote
      cases hnote
  | threadNote discussionId noteId =>
    rw [notes_sends_threadNote hk hmirror]
    constructor
    · rintro ⟨r, -, h⟩
      cases h
    · rintro ⟨⟨noteId, hnote⟩, -⟩
      rw [hmirror] at hnote
      cases hnote
  | note noteId =>
    by_cases hreview : change.field "kind" = .str "review"
    · constructor
      · rintro ⟨r, -, h⟩
        rw [notes_sends_review hreview] at h
        cases h
      · intro h
        exact absurd hreview h.2.1
    · rw [notes_sends_note hk hmirror hreview]
      have hcarried : (edit message).Carried env bctx idmap c change ↔
          ∃ parent, Notes.parentOf bctx idmap change = some parent ∧
            change.field "deleted" ≠ .bool true ∧
            (∃ text, env.markupToGfmMarkdown (.str message) (issueRefUrl bctx) (imageUrl bctx) =
              .ok text) ∧
            parent.isMR = decide c.OnMR ∧ Notes.issueIidOf change = .num c.iid := by
        constructor
        · rintro ⟨-, -, hdeleted, htext, horphan, hkind, hiid⟩
          obtain ⟨v, hv⟩ := parentOf_isMR_iff.mpr ⟨horphan, hkind⟩
          exact ⟨_, hv, hdeleted, htext, rfl, hiid⟩
        · rintro ⟨⟨v, isMR⟩, hparent, hdeleted, htext, hmr, hiid⟩
          obtain rfl : isMR = decide c.OnMR := hmr
          obtain ⟨horphan, hkind⟩ := parentOf_isMR_iff.mp ⟨v, hparent⟩
          exact ⟨⟨noteId, hmirror⟩, hreview, hdeleted, htext, horphan, hkind, hiid⟩
      rw [hcarried]
      cases Notes.parentOf bctx idmap change with
      | none => simp
      | some parent =>
        dsimp only
        rw [changeSends_calls_iff hmirror hmessage]
        simp

/-- A removal says nothing of the parent, so nothing is sent. -/
theorem notes_sends_removed (hk : c.Known bctx idmap) :
    Notes.sends env bctx idmap c.ref [("_removed", .bool true)] = [] := by
  have hreview : Fields.field [("_removed", .bool true)] "kind" ≠ .str "review" := by decide
  have hparent : Notes.parentOf bctx idmap [("_removed", .bool true)] =
      some ⟨.undefined, false⟩ := rfl
  cases hmirror : c.mirror with
  | unmapped =>
    rw [notes_sends_unmapped hk hmirror hreview, hparent]
    rfl
  | note noteId =>
    rw [notes_sends_note hk hmirror hreview, hparent]
    rfl
  | threadNote discussionId noteId => exact notes_sends_threadNote hk hmirror _

theorem resolve_calls_iff (hk : c.Known bctx idmap) {resolved : Bool} {change : Fields}
    (hresolved : change.field "resolved" = .bool resolved) :
    (∃ r, (resolve resolved).Calls env bctx c r ∧ Reviews.sends bctx idmap c.ref change = [r]) ↔
      (resolve resolved).Carried env bctx idmap c change := by
  cases hmirror : c.mirror with
  | unmapped => simp [Calls, Carried, hmirror]
  | note noteId => simp [Calls, Carried, hmirror]
  | threadNote discussionId noteId =>
    have hmapped := hk.mapped
    unfold Comment.Mapped at hmapped
    rw [hmirror] at hmapped
    obtain ⟨row, hrow, hkind, hparse, -⟩ := hmapped
    unfold Reviews.sends
    rw [hresolved, if_neg (by simp), hrow]
    dsimp only
    rw [if_neg (by simp [hkind]), hparse]
    constructor
    · rintro ⟨r, ⟨discussionId', noteId', -, rfl⟩, hsends⟩
      refine ⟨⟨discussionId, noteId, hmirror⟩, ?_⟩
      cases hnum : (change.field "mergeRequestIid").asNum with
      | error e =>
        simp only [hnum] at hsends
        cases hsends
      | ok iid =>
        simp only [hnum] at hsends
        have hiid : iid = c.iid := by
          have hrequest := (List.cons.inj hsends).1
          injection hrequest
        rw [JsValue.asNum_ok hnum, hiid]
    · rintro ⟨-, hiid⟩
      refine ⟨_, ⟨discussionId, noteId, hmirror, rfl⟩, ?_⟩
      rw [hiid]
      simp

/-- The managers send the right request when the change carries what they ask it for. -/
theorem sends_calls_iff (hk : c.Known bctx idmap) {op : CommentOp} {change : Fields}
    (h : op.Says change) :
    (∃ r, op.Calls env bctx c r ∧ op.sends env bctx idmap c.ref change = [r]) ↔
      op.Carried env bctx idmap c change := by
  cases op with
  | create message => exact create_calls_iff hk h
  | edit message => exact edit_calls_iff hk h
  | remove =>
    obtain rfl : change = [("_removed", .bool true)] := h
    constructor
    · rintro ⟨r, -, hsends⟩
      have hnone : (remove).sends env bctx idmap c.ref [("_removed", .bool true)] = [] :=
        notes_sends_removed hk
      rw [hnone] at hsends
      cases hsends
    · exact False.elim
  | resolve resolved => exact resolve_calls_iff hk h

/-- The properties of a message on the platform. -/
def messageKeys : List String :=
  ["_id", "_class", "space", "modifiedOn", "modifiedBy", "createdOn", "createdBy", "attachedTo",
    "attachedToClass", "collection", "message"]

/-- The properties of the mixin of review threads. -/
def threadKeys : List String :=
  ["threadId", "resolved", "resolvedBy", "resolvedAt", "position"]

/-- What the managers ask for is no property of what a transaction writes. -/
theorem not_carried_of_keys {op : CommentOp} {change : Fields}
    (h : ∀ k ∈ change.map Prod.fst, k ∈ messageKeys ++ threadKeys) :
    ¬ op.Carried env bctx idmap c change := by
  have habsent : ∀ k, k ∉ messageKeys ++ threadKeys → change.field k = .undefined :=
    fun k hk => Fields.field_of_not_mem fun hmem => hk (h k hmem)
  have hnoteable := habsent "noteableIid" (by decide)
  have hissue := habsent "issueIid" (by decide)
  have hmerge := habsent "mergeRequestIid" (by decide)
  have hnamed : namedParent bctx idmap change = none := by
    unfold namedParent
    rw [habsent "hulyMessage" (by decide)]
    rfl
  intro hcarried
  cases op with
  | create message =>
    obtain ⟨-, -, -, -, hiid | ⟨-, row, hrow⟩⟩ := hcarried
    · rw [hnoteable] at hiid
      cases hiid
    · rw [hnamed] at hrow
      cases hrow
  | edit message =>
    have hiid := hcarried.2.2.2.2.2.2
    rw [hissue, hnoteable] at hiid
    cases hiid
  | remove => exact hcarried
  | resolve resolved =>
    have hiid := hcarried.2
    rw [hmerge] at hiid
    cases hiid

end Sends

/-! ### The whole way -/

section Reaches

open TxSubscription

/-- A user's transaction that does the operation to the message. -/
structure IsUserOp (deps : TxSubscriberDeps) (c : Comment) (op : CommentOp) (tx : Tx) : Prop where
  objectId : tx.objectId = c.ref
  objectClass : tx.objectClass = chatMessageClass
  user : tx.modifiedBy ≠ deps.serviceAccountPersonId
  isTx : op.IsTx tx

/-- One event is delivered, for the binding of the parent, and its dispatch sends the call of the
operation and no other. -/
def Reaches (env : Env) (deps : TxSubscriberDeps) (s : TxSubscriber) (w : World)
    (binding : BindingRef) (bctx : BindingContext) (c : Comment) (op : CommentOp) (tx : Tx) :
    Prop :=
  ∃ e r, delivered deps s tx = [e] ∧ e.binding = binding ∧ op.Calls env bctx c r ∧
    ((applyLocal env e).run w).2.requests = w.requests ++ [r]

variable {env : Env} {deps : TxSubscriberDeps} {s : TxSubscriber} {w : World}
  {binding : BindingRef} {bctx : BindingContext} {c : Comment} {op : CommentOp} {tx : Tx}

theorem delivered_of_isUserOp (h : IsUserOp deps c op tx) [Decidable (Alive s)] :
    delivered deps s tx =
      if Alive s ∧ isGitlabOriginated tx = false then
        ((resolveBinding deps c.ref chatMessageClass).map fun binding =>
          (⟨binding, op.kind, c.ref, op.change tx⟩ : LocalEvent)).toList
      else [] := by
  rw [delivered_eq]
  by_cases halive : Alive s
  · rw [if_pos halive]
    unfold entryOf
    rw [if_neg h.user]
    by_cases hmarked : isGitlabOriginated tx = true
    · rw [if_pos hmarked, if_neg (by simp [hmarked])]
      rfl
    · have hunmarked : isGitlabOriginated tx = false := Bool.eq_false_iff.mpr hmarked
      rw [if_neg hmarked, if_pos ⟨halive, hunmarked⟩, classify_isTx h.isTx h.objectClass,
        h.objectId, h.objectClass]
  · rw [if_neg halive, if_neg fun hcond => halive hcond.1]

theorem applyLocal_requests (op : CommentOp) (h : env.Healthy)
    (hload : env.loadBinding binding = .ok bctx) (hplain : stripDocPrefix c.ref = c.ref)
    (change : Fields) (w : World) :
    ((applyLocal env ⟨binding, op.kind, c.ref, change⟩).run w).2.requests =
      w.requests ++ op.sends env bctx w.idmap c.ref change := by
  cases op with
  | resolve resolved =>
    have hrequests := Reviews.applyLocal_requests h hload c.ref change w
    rw [hplain] at hrequests
    exact hrequests
  | _ =>
    have hrequests := Notes.applyLocal_requests h hload c.ref change w
    rw [hplain] at hrequests
    exact hrequests

/-- When an operation on a comment reaches GitLab. -/
theorem reaches_iff (h : env.Healthy) (hload : env.loadBinding binding = .ok bctx)
    (hk : c.Known bctx w.idmap) (hop : IsUserOp deps c op tx) :
    Reaches env deps s w binding bctx c op tx ↔
      Alive s ∧ isGitlabOriginated tx = false ∧
        resolveBinding deps c.ref chatMessageClass = some binding ∧
        op.Carried env bctx w.idmap c (op.change tx) := by
  classical
  rw [← sends_calls_iff hk (says_change hop.isTx)]
  have hrun := applyLocal_requests op h hload hk.plain (op.change tx) w
  unfold Reaches
  rw [delivered_of_isUserOp hop]
  constructor
  · rintro ⟨e, r, hdelivered, hbinding, hcalls, hrequests⟩
    by_cases hpass : Alive s ∧ isGitlabOriginated tx = false
    · rw [if_pos hpass] at hdelivered
      cases hresolve : resolveBinding deps c.ref chatMessageClass with
      | none =>
        rw [hresolve] at hdelivered
        cases hdelivered
      | some binding' =>
        rw [hresolve] at hdelivered
        cases hdelivered
        obtain rfl : binding' = binding := hbinding
        rw [hrun] at hrequests
        exact ⟨hpass.1, hpass.2, rfl, r, hcalls, List.append_cancel_left hrequests⟩
    · rw [if_neg hpass] at hdelivered
      cases hdelivered
  · rintro ⟨halive, hunmarked, hresolve, r, hcalls, hsends⟩
    refine ⟨⟨binding, op.kind, c.ref, op.change tx⟩, r, ?_, rfl, hcalls, ?_⟩
    · rw [if_pos ⟨halive, hunmarked⟩, hresolve]
      rfl
    · rw [hrun, hsends]

end Reaches

section Example

open TxSubscription

/-- An issue with a mirrored note. -/
def noted : World :=
  { World.initial with
    idmap :=
      ⟨[⟨"ws", .issue, "7:3", issueClass, "issue"⟩,
        ⟨"ws", .note, "7:12", HULY_CLASS_CHAT_MESSAGE, "message"⟩], by decide, by decide⟩ }

/-- The message of that note, or a new one. -/
def notedComment (mirror : MessageMirror) (ref : Ref) : Comment :=
  ⟨ref, ⟨"ws", .issue, "7:3", issueClass, "issue"⟩, 3, mirror⟩

def oneBinding : TxSubscriberDeps := ⟨"service", OrderedMap.empty.set "7" "b", none⟩

def running : TxSubscriber := ⟨[], true, false⟩

theorem known_notedComment_new : (notedComment .unmapped "new").Known quietBinding noted.idmap :=
  ⟨by decide +kernel, by decide +kernel, .inl rfl, by decide +kernel,
    show noted.idmap.findByHuly _ _ _ = none by decide +kernel⟩

theorem known_notedComment : (notedComment (.note 12) "message").Known quietBinding noted.idmap :=
  ⟨by decide +kernel, by decide +kernel, .inl rfl, by decide +kernel,
    ⟨⟨"ws", .note, "7:12", HULY_CLASS_CHAT_MESSAGE, "message"⟩, by decide +kernel, rfl,
      by decide +kernel⟩⟩

/-- A creation that names the iid of the issue. -/
def creation : Tx :=
  ⟨TX_CLASS_CREATE, "user", "new", chatMessageClass, "project", "",
    some [("message", .str "text"), ("noteableIid", .num 3)], none⟩

theorem isUserOp_creation :
    IsUserOp oneBinding (notedComment .unmapped "new") (create "text") creation :=
  ⟨rfl, rfl, by decide, ⟨rfl, by decide⟩⟩

theorem carried_creation :
    (create "text").Carried (Env.quiet quietBinding) quietBinding noted.idmap
      (notedComment .unmapped "new") ((create "text").change creation) := by
  have hnamed : namedParent quietBinding noted.idmap ((create "text").change creation) = none :=
    rfl
  refine ⟨rfl, by decide, ⟨"text", rfl⟩, ?_, .inl (by decide)⟩
  constructor
  · rintro ⟨row, iid, h, -⟩
    rw [hnamed] at h
    cases h
  · intro h
    cases h

theorem reaches_creation :
    Reaches (Env.quiet quietBinding) oneBinding running noted "b" quietBinding
      (notedComment .unmapped "new") (create "text") creation :=
  (reaches_iff (Env.quiet_healthy _) rfl known_notedComment_new isUserOp_creation).mpr
    ⟨⟨rfl, .inl rfl⟩, by decide, by decide, carried_creation⟩

/-- The new text of a mirrored note. -/
def rewording : Tx :=
  ⟨TX_CLASS_UPDATE, "user", "message", chatMessageClass, "project", "", none,
    some [("message", .str "new text")]⟩

/-- An edit of a mirrored comment sends nothing. -/
theorem not_reaches_rewording :
    (notedComment (.note 12) "message").Known quietBinding noted.idmap ∧
      IsUserOp oneBinding (notedComment (.note 12) "message") (edit "new text") rewording ∧
      Alive running ∧ resolveBinding oneBinding "message" chatMessageClass = some "b" ∧
      ¬ Reaches (Env.quiet quietBinding) oneBinding running noted "b" quietBinding
        (notedComment (.note 12) "message") (edit "new text") rewording := by
  refine ⟨known_notedComment, ⟨rfl, rfl, by decide, ⟨rfl, by decide⟩⟩, ⟨rfl, .inl rfl⟩,
    by decide, ?_⟩
  rintro ⟨e, r, hdelivered, -, -, hrequests⟩
  have he : delivered oneBinding running rewording =
      [⟨"b", .note, "message", [("message", .str "new text")]⟩] := by decide
  rw [he] at hdelivered
  cases hdelivered
  have hrun := Notes.applyLocal_requests (Env.quiet_healthy quietBinding)
    (show (Env.quiet quietBinding).loadBinding "b" = .ok quietBinding from rfl) "message"
    [("message", .str "new text")] noted
  have hnone : Notes.sends (Env.quiet quietBinding) quietBinding noted.idmap
      (stripDocPrefix "message") [("message", .str "new text")] = [] := by
    decide +kernel
  rw [hnone] at hrun
  have hsent := hrun.symm.trans hrequests
  cases hsent

end Example

end CommentOp

end HulyGitlab
