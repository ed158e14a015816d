import HulyGitlab.Sync.LocalPush
import HulyGitlab.Sync.TxSubscription

/-!
# The kind of the object an edit is for

Issues, merge requests and epics are mirrored as documents of one class and
numbered apart from each other. The subscriber chooses the manager by the class
of the document or the mixin that is edited; the managers of issues and of merge
requests then take any row of the document for one of theirs.
-/

namespace HulyGitlab

open Effect TxSubscription

/-- The class of the documents that mirror objects of a kind, and the class their rows name. -/
def GitlabKind.mirrorClasses : GitlabKind → Option (String × String)
  | .issue => some (issueClass, issueClass)
  | .merge_request => some (issueClass, issueClass)
  | .epic => some (issueClass, issueClass)
  | .note => some (chatMessageClass, HULY_CLASS_CHAT_MESSAGE)
  | .review_thread => some (chatMessageClass, HULY_CLASS_CHAT_MESSAGE)
  | _ => none

/-- Documents of the tracker, or messages. -/
theorem GitlabKind.mirrorClasses_cases {kind : GitlabKind} {docClass rowClass : String}
    (h : kind.mirrorClasses = some (docClass, rowClass)) :
    (docClass = issueClass ∧ rowClass = issueClass ∧
        (kind = .issue ∨ kind = .merge_request ∨ kind = .epic)) ∨
      (docClass = chatMessageClass ∧ rowClass = HULY_CLASS_CHAT_MESSAGE ∧
        (kind = .note ∨ kind = .review_thread)) := by
  cases kind with
  | issue =>
    obtain ⟨rfl, rfl⟩ := Prod.mk.inj (Option.some.inj h)
    exact .inl ⟨rfl, rfl, .inl rfl⟩
  | merge_request =>
    obtain ⟨rfl, rfl⟩ := Prod.mk.inj (Option.some.inj h)
    exact .inl ⟨rfl, rfl, .inr (.inl rfl)⟩
  | epic =>
    obtain ⟨rfl, rfl⟩ := Prod.mk.inj (Option.some.inj h)
    exact .inl ⟨rfl, rfl, .inr (.inr rfl)⟩
  | note =>
    obtain ⟨rfl, rfl⟩ := Prod.mk.inj (Option.some.inj h)
    exact .inr ⟨rfl, rfl, .inl rfl⟩
  | review_thread =>
    obtain ⟨rfl, rfl⟩ := Prod.mk.inj (Option.some.inj h)
    exact .inr ⟨rfl, rfl, .inr rfl⟩
  | _ => cases h

namespace KindSafety

/-- A write to no other object than the one that the kind and the key of the row denote. What only
reads, or creates a label or a milestone that the body of a write names, is not counted. -/
def Against (projectId : Int) (row : IdMapDoc) : GitLabRequest → Prop
  | .listLabels _ => True
  | .createLabel _ _ => True
  | .listMilestones _ => True
  | .createMilestone _ _ => True
  | .getMRApprovals _ _ => True
  | .createIssue _ _ => False
  | .updateIssue p iid _ =>
      p = projectId ∧ row.gitlabKind = .issue ∧ parseIid row.gitlabId = some iid
  | .updateMergeRequest p iid _ =>
      p = projectId ∧ row.gitlabKind = .merge_request ∧ parseIid row.gitlabId = some iid
  | .approveMR p iid _ =>
      p = projectId ∧ row.gitlabKind = .merge_request ∧ parseIid row.gitlabId = some iid
  | .unapproveMR p iid _ =>
      p = projectId ∧ row.gitlabKind = .merge_request ∧ parseIid row.gitlabId = some iid
  | .createNote _ _ _ => False
  | .createMRNote _ _ _ => False
  | .updateNote p _ noteId _ =>
      p = projectId ∧ row.gitlabKind = .note ∧ parseIid row.gitlabId = some noteId
  | .updateMRNote p _ noteId _ =>
      p = projectId ∧ row.gitlabKind = .note ∧ parseIid row.gitlabId = some noteId
  | .deleteNote p _ noteId =>
      p = projectId ∧ row.gitlabKind = .note ∧ parseIid row.gitlabId = some noteId
  | .deleteMRNote p _ noteId =>
      p = projectId ∧ row.gitlabKind = .note ∧ parseIid row.gitlabId = some noteId
  | .resolveDiscussion p _ discussionId _ =>
      p = projectId ∧ row.gitlabKind = .review_thread ∧
        (parseDiscussionNoteKey row.gitlabId).map Prod.fst = some discussionId

/-- The row is the one of the document that the transaction is on. -/
structure RowOf (idmap : IdMap) (workspaceUuid : String) (tx : Tx) (row : IdMapDoc) : Prop where
  mem : row ∈ idmap.rows
  workspace : row.workspaceUuid = workspaceUuid
  doc : row.hulyRef = tx.objectId
  classes : row.gitlabKind.mirrorClasses = some (tx.objectClass, row.hulyClass)
  only : ∀ r ∈ idmap.rows, r.workspaceUuid = workspaceUuid → r.hulyRef = tx.objectId → r = row
  /-- The references of the platform have no prefix. -/
  plain : stripDocPrefix tx.objectId = tx.objectId

/-- Whatever else is stored and whatever the services answer, the dispatch of the transaction
writes to the object of the row or not at all. -/
def KindSafe (env : Env) (deps : TxSubscriberDeps) (idmap : IdMap) (projectId : Int) (tx : Tx)
    (row : IdMapDoc) : Prop :=
  ∀ services w, w.idmap = idmap →
    Appends World.requests (Against projectId row) w
      ((handleTx (env.served services) deps tx).run w).2

/-- The transaction goes to the manager of issues or of merge requests, which takes the row for
one of its kind and has something to send. -/
def Strays (env : Env) (deps : TxSubscriberDeps) (bctx : BindingContext) (tx : Tx)
    (row : IdMapDoc) : Prop :=
  ∃ e, entryOf deps tx = some e ∧ (parseIid row.gitlabId).isSome ∧
    (e.kind = .issue ∧ row.gitlabKind ≠ .issue ∧ Issues.Pushable env bctx e.change ∨
      e.kind = .merge_request ∧ row.hulyClass = issueClass ∧ row.gitlabKind ≠ .merge_request ∧
        MergeRequests.Pushable env bctx e.change)

/-! ### What the subscriber and the id map say -/

theorem kindOfMixin_cases {mixin : String} {kind : SyncKind} (h : kindOfMixin mixin = some kind) :
    kind = .merge_request ∨ kind = .review := by
  unfold kindOfMixin at h
  split_ifs at h
  · exact .inl (Option.some.inj h).symm
  · exact .inr (Option.some.inj h).symm

theorem kindOfClass_cases {objectClass : String} {kind : SyncKind}
    (h : kindOfClass objectClass = some kind) :
    (kind = .issue ∧ objectClass = issueClass) ∨
      (kind = .note ∧ objectClass = chatMessageClass) := by
  unfold kindOfClass at h
  split_ifs at h with hissue hmessage
  · exact .inl ⟨(Option.some.inj h).symm, hissue⟩
  · exact .inr ⟨(Option.some.inj h).symm, hmessage⟩

/-- The managers of issues and of notes get what is on a document of their class. -/
theorem classify_cases {tx : Tx} {kind : SyncKind} {change : Fields}
    (h : classify tx = some (kind, change)) :
    (kind = .merge_request ∨ kind = .review) ∨ (kind = .issue ∧ tx.objectClass = issueClass) ∨
      (kind = .note ∧ tx.objectClass = chatMessageClass) := by
  unfold classify at h
  split_ifs at h
  · obtain ⟨k, hk, hkc⟩ := Option.map_eq_some_iff.mp h
    obtain ⟨rfl, -⟩ := Prod.mk.inj hkc
    exact .inl (kindOfMixin_cases hk)
  all_goals
    obtain ⟨k, hk, hkc⟩ := Option.map_eq_some_iff.mp h
    obtain ⟨rfl, -⟩ := Prod.mk.inj hkc
    exact .inr (kindOfClass_cases hk)

section Rows

variable {idmap : IdMap} {workspaceUuid : String} {tx : Tx} {row : IdMapDoc}

theorem RowOf.found (h : RowOf idmap workspaceUuid tx row) :
    idmap.findByHuly workspaceUuid row.hulyClass tx.objectId = some row := by
  rw [IdMap.findByHuly_eq_some_iff, ← h.workspace, ← h.doc]
  exact ⟨h.mem, rfl⟩

theorem RowOf.eq_of_found (h : RowOf idmap workspaceUuid tx row) {hulyClass : String}
    {r : IdMapDoc} (hr : idmap.findByHuly workspaceUuid hulyClass tx.objectId = some r) :
    r = row ∧ row.hulyClass = hulyClass := by
  obtain ⟨hmem, hkey⟩ := IdMap.findByHuly_eq_some_iff.mp hr
  obtain ⟨hws, hrest⟩ := Prod.mk.inj hkey
  obtain ⟨hclass, href⟩ := Prod.mk.inj hrest
  obtain rfl := h.only r hmem hws href
  exact ⟨rfl, hclass⟩

/-- A row of a document of the tracker. -/
theorem RowOf.issue (h : RowOf idmap workspaceUuid tx row) (hclass : tx.objectClass = issueClass) :
    idmap.findByHuly workspaceUuid issueClass tx.objectId = some row ∧
      row.hulyClass = issueClass := by
  obtain ⟨-, hrow, -⟩ | ⟨hmessage, -⟩ := row.gitlabKind.mirrorClasses_cases h.classes
  · exact ⟨hrow ▸ h.found, hrow⟩
  · exact absurd (hclass.symm.trans hmessage) (by decide)

/-- A row of a message. -/
theorem RowOf.message (h : RowOf idmap workspaceUuid tx row)
    (hclass : tx.objectClass = chatMessageClass) :
    idmap.findByHuly workspaceUuid HULY_CLASS_CHAT_MESSAGE tx.objectId = some row ∧
      (row.gitlabKind = .note ∨ row.gitlabKind = .review_thread) := by
  obtain ⟨hissue, -⟩ | ⟨-, hrow, hkind⟩ := row.gitlabKind.mirrorClasses_cases h.classes
  · exact absurd (hclass.symm.trans hissue) (by decide)
  · exact ⟨hrow ▸ h.found, hkind⟩

end Rows

/-! ### Each manager on the row of the document -/

section Managers

variable {env : Env} {binding : BindingRef} {bctx : BindingContext} {tx : Tx} {row : IdMapDoc}
  {change : Fields} {w : World}

theorem against_of_preparing {projectId : Int} {r : GitLabRequest} (h : r.Preparing) :
    Against projectId row r := by
  cases r with
  | listLabels => trivial
  | createLabel => trivial
  | listMilestones => trivial
  | createMilestone => trivial
  | _ => exact h.elim

variable (hload : env.loadBinding binding = .ok bctx)
  (h : RowOf w.idmap bctx.workspaceUuid tx row)
include hload h

theorem issue_against (hclass : tx.objectClass = issueClass)
    (hkind : (parseIid row.gitlabId).isSome → Issues.Pushable env bctx change →
      row.gitlabKind = .issue) :
    Appends World.requests (Against bctx.gitlabProjectId row) w
      ((Issues.applyLocal env binding tx.objectId change).run w).2 := by
  refine Issues.applyLocal_sends hload (h.plain.symm ▸ (h.issue hclass).1)
    (fun _ => against_of_preparing) fun hpush iid hiid body => ?_
  exact ⟨rfl, hkind (Option.isSome_of_eq_some hiid) hpush, hiid⟩

/-- Of messages the note manager takes those of notes. -/
theorem note_against (hclass : tx.objectClass = chatMessageClass) :
    Appends World.requests (Against bctx.gitlabProjectId row) w
      ((Notes.applyLocal env binding tx.objectId change).run w).2 := by
  obtain ⟨hrow, hkind⟩ := h.message hclass
  refine Notes.applyLocal_sends hload (h.plain.symm ▸ hrow) fun hthread noteId hid iid body => ?_
  have hnote : row.gitlabKind = .note := hkind.resolve_right hthread
  exact ⟨⟨rfl, hnote, hid⟩, ⟨rfl, hnote, hid⟩, ⟨rfl, hnote, hid⟩, rfl, hnote, hid⟩

theorem merge_request_against
    (hkind : row.hulyClass = issueClass → (parseIid row.gitlabId).isSome →
      MergeRequests.Pushable env bctx change → row.gitlabKind = .merge_request) :
    Appends World.requests (Against bctx.gitlabProjectId row) w
      ((MergeRequests.applyLocal env binding tx.objectId change).run w).2 := by
  by_cases hclass : row.hulyClass = issueClass
  · have hagainst : MergeRequests.Pushable env bctx change → ∀ iid,
        parseIid row.gitlabId = some iid → row.gitlabKind = .merge_request :=
      fun hpush iid hiid => hkind hclass (Option.isSome_of_eq_some hiid) hpush
    refine MergeRequests.applyLocal_sends hload (fun r hr => ?_) (fun _ => against_of_preparing)
      (fun hpush iid hiid body => ⟨rfl, hagainst hpush iid hiid, hiid⟩)
      fun hpush iid hiid kind token => ?_
    · rw [h.plain] at hr
      exact (h.eq_of_found hr).1
    · cases kind with
      | approve => exact ⟨rfl, hagainst hpush iid hiid, hiid⟩
      | unapprove => exact ⟨rfl, hagainst hpush iid hiid, hiid⟩
  · -- a mixin of a message: there is no row of its class
    have hnone : w.idmap.findByHuly bctx.workspaceUuid issueClass (stripDocPrefix tx.objectId) =
        none := by
      rw [h.plain]
      cases hr : w.idmap.findByHuly bctx.workspaceUuid issueClass tx.objectId with
      | none => rfl
      | some r => exact absurd (h.eq_of_found hr).2 hclass
    unfold MergeRequests.applyLocal Sync.loadBinding
    rw [hload, ofExcept_ok_bind_run]
    dsimp only
    rw [findByHuly_bind, hnone]
    cases env.fault w .idmap with
    | some e => exact Appends.refl w
    | none => exact Appends.refl w

/-- The review manager looks at the kind of the row. -/
theorem review_against :
    Appends World.requests (Against bctx.gitlabProjectId row) w
      ((Reviews.applyLocal env binding tx.objectId change).run w).2 := by
  refine Reviews.applyLocal_sends hload fun r hr hthread discussionId noteId hkey iid resolved => ?_
  rw [h.plain] at hr
  obtain ⟨rfl, -⟩ := h.eq_of_found hr
  exact ⟨rfl, hthread, by rw [hkey, Option.map_some]⟩

end Managers

/-! ### The transactions that stray -/

section Strays

variable {env : Env} {deps : TxSubscriberDeps} {idmap : IdMap} {binding : BindingRef}
  {bctx : BindingContext} {tx : Tx} {row : IdMapDoc}

theorem pushable_of_served {services : Services} {change : Fields}
    (h : Issues.Pushable (env.served services) bctx change) : Issues.Pushable env bctx change :=
  ⟨⟨h.translatable.labels, h.translatable.milestone, h.translatable.description⟩, h.carried⟩

theorem pushable_of_served_mr {services : Services} {change : Fields}
    (h : MergeRequests.Pushable (env.served services) bctx change) :
    MergeRequests.Pushable env bctx change :=
  ⟨⟨h.translatable.labels, h.translatable.milestone, h.translatable.description⟩, h.carried⟩

theorem kindSafe_of_not_strays (hload : env.loadBinding binding = .ok bctx)
    (hrow : RowOf idmap bctx.workspaceUuid tx row)
    (hbinding : ∀ e, entryOf deps tx = some e → e.binding = binding)
    (h : ¬ Strays env deps bctx tx row) :
    KindSafe env deps idmap bctx.gitlabProjectId tx row := by
  rintro services w rfl
  unfold handleTx
  cases hentry : entryOf deps tx with
  | none => exact Appends.refl w
  | some e =>
    obtain ⟨hclassify, hdoc, -⟩ := entryOf_eq_some hentry
    have hserved : (env.served services).loadBinding e.binding = .ok bctx :=
      hbinding e hentry ▸ hload
    dsimp only
    unfold applyLocal
    rw [hdoc]
    have hclass := classify_cases hclassify
    cases hkind : e.kind with
    | issue =>
      rw [hkind] at hclass
      refine issue_against hserved hrow (by simpa using hclass) fun hiid hpush => ?_
      by_contra hother
      exact h ⟨e, hentry, hiid, .inl ⟨hkind, hother, pushable_of_served hpush⟩⟩
    | note =>
      rw [hkind] at hclass
      exact note_against hserved hrow (by simpa using hclass)
    | merge_request =>
      refine merge_request_against hserved hrow fun hissue hiid hpush => ?_
      by_contra hother
      exact h ⟨e, hentry, hiid, .inr ⟨hkind, hissue, hother, pushable_of_served_mr hpush⟩⟩
    | review => exact review_against hserved hrow

theorem remoteBody_writes (env : Env) (bctx : BindingContext) (change : Fields) :
    Writes [.requests] (MergeRequests.remoteBody env bctx change) :=
  Writes.bind (Writes.remoteLabels env (by decide) _ _) fun _ =>
    Writes.bind (Writes.remoteMilestoneId env (by decide) _ _) fun _ =>
    Writes.bind (Writes.remoteDescription env _ _ _) fun _ => Writes.pure _

/-- The approvers a mirror may have before an edit that leaves `items`: others, in any case. -/
def otherApprovers (items : List JsValue) : List JsValue :=
  if items = [] then [.str "somebody"] else []

/-- A mirror with these approvers. -/
def approvedMirror (approvers : List JsValue) : HulyDoc :=
  ⟨issueClass, "project", [],
    OrderedMap.empty.set MR_REVIEW_MIXIN_DOC [("approvedBy", .arr approvers)]⟩

/-- Other approvers make for a request. -/
theorem applyApprovalActions_obliging (env : Env) (bctx : BindingContext) {ref : Ref} (iid : Int)
    (items : List JsValue) {w : World}
    (hdoc : w.docs.get? ref = some (approvedMirror (otherApprovers items))) :
    ∃ kind : MRApprovals.ApprovalAction, kind.request bctx.gitlabProjectId iid none ∈
      ((MRApprovals.applyApprovalActions (env.served .obliging) bctx ref iid (.arr items)).run
        w).2.requests := by
  have hsends : ∀ kind people, Sends (fun _ => True) (Effect.forEach
      (MRApprovals.invokeApprovalAction (env.served .obliging) bctx ref iid kind) people) :=
    fun kind people => Within.forEach Appends.refl Appends.trans fun person _ =>
      MRApprovals.invokeApprovalAction_sends ref iid kind person fun _ => trivial
  have hfound : (some (approvedMirror (otherApprovers items))).filter
      (fun doc : HulyDoc => doc.objectClass = issueClass) =
        some (approvedMirror (otherApprovers items)) := rfl
  have happrovers : (Fields.field (readMRMixinAttributes (approvedMirror (otherApprovers items)))
      "approvedBy").orElse (.arr []) = .arr (otherApprovers items) := rfl
  unfold MRApprovals.applyApprovalActions
  rw [bind_of_ok (Sync.findOne_run (Services.obliging_healthy env) _ _ w), hdoc, hfound]
  dsimp only
  rw [happrovers, JsValue.items_arr, ofExcept_ok_bind_run, JsValue.items_arr, ofExcept_ok_bind_run]
  by_cases hitems : items = []
  · subst hitems
    refine ⟨.unapprove, ?_⟩
    exact MRApprovals.forEach_obliging ref iid .unapprove (List.cons_ne_nil (.str "somebody") []) w
  · have hcurrent : otherApprovers items = [] := if_neg hitems
    have hadded : items.filter (fun u => u.text ∉ ([] : List JsValue).map JsValue.text) = items :=
      List.filter_eq_self.mpr fun _ _ => rfl
    refine ⟨.approve, ?_⟩
    rw [hcurrent, hadded, bind_run]
    have happrove : MRApprovals.ApprovalAction.request .approve bctx.gitlabProjectId iid none ∈
        ((Effect.forEach (MRApprovals.invokeApprovalAction (env.served .obliging) bctx ref iid
          .approve) items).run w).2.requests :=
      MRApprovals.forEach_obliging ref iid .approve hitems w
    cases hrun : (Effect.forEach (MRApprovals.invokeApprovalAction (env.served .obliging) bctx ref
        iid .approve) items).run w with
    | mk r w₁ =>
      rw [hrun] at happrove
      cases r with
      | error e => exact happrove
      | ok _ => exact mem_requests_of_sends (hsends _ _) happrove

/-- Obliging services bring a pushable change to the merge request with the number of the row. -/
theorem pushChange_obliging {change : Fields} (h : MergeRequests.Pushable env bctx change)
    (ref : Ref) (iid : Int) :
    ∃ approvers, ∀ w : World, w.docs.get? ref = some (approvedMirror approvers) →
      ∃ r ∈ ((MergeRequests.pushChange (env.served .obliging) bctx ref iid change).run
          w).2.requests,
        (∃ body, r = .updateMergeRequest bctx.gitlabProjectId iid body) ∨
          ∃ kind : MRApprovals.ApprovalAction, r = kind.request bctx.gitlabProjectId iid none := by
  obtain ⟨htranslatable, hbody | ⟨items, hitems⟩⟩ := h
  · refine ⟨[], fun w _ => ?_⟩
    obtain ⟨body, w₁, hrun, hne⟩ := MergeRequests.remoteBody_obliging htranslatable w
    refine ⟨.updateMergeRequest bctx.gitlabProjectId iid body, ?_, .inl ⟨body, rfl⟩⟩
    unfold MergeRequests.pushChange MergeRequests.sendUpdate
    rw [bind_of_ok hrun, if_neg (hne hbody), bind_bind]
    refine mem_requests_of_request (P := fun _ => True) (fun _ => ?_) _ _ w₁
    refine Sends.bind (Sends.pure _) fun _ => Sends.bind ?_ fun _ => Sends.pure _
    exact Sends.ite (Sends.pure _)
      (MRApprovals.applyApprovalActions_sends ref iid _ fun _ _ _ => trivial)
  · refine ⟨otherApprovers items, fun w hdoc => ?_⟩
    obtain ⟨body, w₁, hrun, -⟩ := MergeRequests.remoteBody_obliging htranslatable w
    have hdocs₁ : w₁.docs = w.docs := by
      have hwrites := (remoteBody_writes (env.served .obliging) bctx change).same
        (p := .docs) (by decide) w
      rwa [hrun] at hwrites
    obtain ⟨w₂, hsent, hdocs₂⟩ : ∃ w₂, (MergeRequests.sendUpdate (env.served .obliging) bctx iid
        body).run w₁ = (.ok (), w₂) ∧ w₂.docs = w₁.docs := by
      unfold MergeRequests.sendUpdate
      by_cases hempty : body = []
      · rw [if_pos hempty]
        exact ⟨w₁, rfl, rfl⟩
      · rw [if_neg hempty]
        exact ⟨_, rfl, rfl⟩
    have hkept : w₂.docs.get? ref = some (approvedMirror (otherApprovers items)) := by
      rw [hdocs₂, hdocs₁, hdoc]
    obtain ⟨kind, hkind⟩ := applyApprovalActions_obliging env bctx iid items hkept
    refine ⟨_, ?_, .inr ⟨kind, rfl⟩⟩
    have hdefined : change.field "approvedBy" ≠ .undefined := by
      rw [hitems]
      exact JsValue.noConfusion
    unfold MergeRequests.pushChange MergeRequests.sendApprovals
    rw [bind_of_ok hrun, bind_of_ok hsent, if_neg hdefined, hitems, bind_run]
    cases hactions : (MRApprovals.applyApprovalActions (env.served .obliging) bctx ref iid
        (.arr items)).run w₂ with
    | mk r w₃ =>
      rw [hactions] at hkind
      cases r with
      | error e => exact hkind
      | ok _ => exact hkind

theorem against_of_mem {projectId : Int} {w w' : World} (hempty : w.requests = [])
    (h : Appends World.requests (Against projectId row) w w') {r : GitLabRequest}
    (hr : r ∈ w'.requests) : Against projectId row r := by
  obtain ⟨rs, hrs, hall⟩ := h
  rw [hempty, List.nil_append] at hrs
  exact hall r (hrs ▸ hr)

theorem not_kindSafe_of_strays (hload : env.loadBinding binding = .ok bctx)
    (hrow : RowOf idmap bctx.workspaceUuid tx row)
    (hbinding : ∀ e, entryOf deps tx = some e → e.binding = binding)
    (h : Strays env deps bctx tx row) : ¬ KindSafe env deps idmap bctx.gitlabProjectId tx row := by
  obtain ⟨e, hentry, hnumber, hstrays⟩ := h
  obtain ⟨iid, hiid⟩ := Option.isSome_iff_exists.mp hnumber
  obtain ⟨hclassify, hdoc, -⟩ := entryOf_eq_some hentry
  have hserved : (env.served .obliging).loadBinding e.binding = .ok bctx :=
    hbinding e hentry ▸ hload
  have hhandle : handleTx (env.served .obliging) deps tx = applyLocal (env.served .obliging) e := by
    unfold handleTx
    rw [hentry]
  have hrefound : ∀ {r}, idmap.findByHuly bctx.workspaceUuid issueClass tx.objectId = some r →
      idmap.findByHuly bctx.workspaceUuid issueClass (stripDocPrefix tx.objectId) = some r :=
    fun hr => hrow.plain.symm ▸ hr
  intro hsafe
  obtain ⟨hkind, hother, hpush⟩ | ⟨hkind, hissue, hother, hpush⟩ := hstrays
  · have hclass : tx.objectClass = issueClass := by
      have hcases := classify_cases hclassify
      rw [hkind] at hcases
      simpa using hcases
    let w : World := { World.initial with idmap := idmap }
    have hagainst := hsafe .obliging w rfl
    rw [hhandle] at hagainst
    unfold applyLocal at hagainst
    rw [hkind, hdoc] at hagainst
    have hloaded : env.loadBinding e.binding = .ok bctx := hbinding e hentry ▸ hload
    obtain ⟨body, hsent⟩ := Issues.applyLocal_obliging hloaded (w := w) hpush
      (hrefound (hrow.issue hclass).1) hiid
    exact hother (against_of_mem rfl hagainst hsent).2.1
  · obtain ⟨approvers, hpushed⟩ := pushChange_obliging hpush tx.objectId iid
    let w : World := { World.initial with
      idmap := idmap
      docs := OrderedMap.empty.set tx.objectId (approvedMirror approvers) }
    have hagainst := hsafe .obliging w rfl
    rw [hhandle] at hagainst
    unfold applyLocal at hagainst
    rw [hkind, hdoc] at hagainst
    obtain ⟨r, hr, hwhich⟩ := hpushed w (OrderedMap.get?_set_self _ _ _)
    have hsent : r ∈ ((MergeRequests.applyLocal (env.served .obliging) e.binding tx.objectId
        e.change).run w).2.requests := by
      have hfound := hrow.found
      rw [hissue] at hfound
      unfold MergeRequests.applyLocal Sync.loadBinding
      rw [hserved, ofExcept_ok_bind_run]
      dsimp only
      rw [hrow.plain, bind_of_ok (Sync.findByHuly_run (Services.obliging_healthy env) _ _ _ w),
        hfound]
      dsimp only
      rw [hiid]
      dsimp only
      rw [bind_run]
      cases hrun : (MergeRequests.pushChange (env.served .obliging) bctx tx.objectId iid
          e.change).run w with
      | mk result w₁ =>
        rw [hrun] at hr
        cases result with
        | error err => exact hr
        | ok touched =>
          refine mem_requests_of_sends (P := fun _ => True) ?_ hr
          exact Sends.ite (Sends.bind (Sends.of_writes (Writes.gets _) List.not_mem_nil) fun _ =>
            Sends.of_writes (Writes.setCursor _ (List.mem_singleton.mpr rfl) _ _ _) (by decide))
            (Sends.pure _)
    have hdone := against_of_mem rfl hagainst hsent
    obtain ⟨body, rfl⟩ | ⟨kind, rfl⟩ := hwhich
    · exact hother hdone.2.1
    · cases kind with
      | approve => exact hother hdone.2.1
      | unapprove => exact hother hdone.2.1

/-- A transaction on a mirrored document leads to writes to its own object only, just when it does
not stray: it reaches a manager that looks at the kind of the row, or the manager of that kind, or
one that has nothing to send. -/
theorem kindSafe_iff (hload : env.loadBinding binding = .ok bctx)
    (hrow : RowOf idmap bctx.workspaceUuid tx row)
    (hbinding : ∀ e, entryOf deps tx = some e → e.binding = binding) :
    KindSafe env deps idmap bctx.gitlabProjectId tx row ↔ ¬ Strays env deps bctx tx row := by
  constructor
  · intro hsafe hstrays
    exact not_kindSafe_of_strays hload hrow hbinding hstrays hsafe
  · exact kindSafe_of_not_strays hload hrow hbinding

end Strays

/-! ### An issue and a merge request with one number -/

def mirrorRow (kind : GitlabKind) : IdMapDoc := ⟨"ws", kind, "7:5", issueClass, "mirror"⟩

def mirrorMap (kind : GitlabKind) : IdMap :=
  ⟨[mirrorRow kind], List.nodup_singleton _, List.nodup_singleton _⟩

def titleEdit : Tx :=
  ⟨TX_CLASS_UPDATE, "user", "mirror", issueClass, "project", "", none,
    some [("title", .str "New title")]⟩

def soleBinding : TxSubscriberDeps := ⟨"service", OrderedMap.empty.set "7" "binding", none⟩

theorem rowOf_mirrorRow {kind : GitlabKind}
    (h : kind.mirrorClasses = some (issueClass, issueClass)) :
    RowOf (mirrorMap kind) quietBinding.workspaceUuid titleEdit (mirrorRow kind) where
  mem := List.mem_singleton_self _
  workspace := rfl
  doc := rfl
  classes := h
  only _ hr _ _ := List.mem_singleton.mp hr
  plain := by decide

theorem kindSafe_titleEdit :
    KindSafe (Env.quiet quietBinding) soleBinding (mirrorMap .issue) 7 titleEdit
      (mirrorRow .issue) := by
  have hentry : ∀ e, entryOf soleBinding titleEdit = some e → e = ⟨"binding", .issue, "mirror",
      [("title", .str "New title")]⟩ := fun e he => (Option.some.inj he).symm
  have hload : (Env.quiet quietBinding).loadBinding "binding" = .ok quietBinding := rfl
  refine (kindSafe_iff hload (rowOf_mirrorRow rfl) fun e he => by rw [hentry e he]).mpr ?_
  rintro ⟨e, he, -, ⟨-, hother, -⟩ | ⟨hkind, -⟩⟩
  · exact hother rfl
  · rw [hentry e he] at hkind
    cases hkind

/-- The new title of the mirror of merge request 5 goes to issue 5. -/
theorem not_kindSafe_titleEdit :
    RowOf (mirrorMap .merge_request) quietBinding.workspaceUuid titleEdit
        (mirrorRow .merge_request) ∧
      ¬ KindSafe (Env.quiet quietBinding) soleBinding (mirrorMap .merge_request) 7 titleEdit
        (mirrorRow .merge_request) := by
  refine ⟨rowOf_mirrorRow rfl, fun hsafe => ?_⟩
  have hagainst := hsafe (Env.quiet quietBinding).services
    { World.initial with idmap := mirrorMap .merge_request } rfl
  have hsent : GitLabRequest.updateIssue 7 5 [("title", .str "New title")] ∈
      ((handleTx (Env.quiet quietBinding) soleBinding titleEdit).run
        { World.initial with idmap := mirrorMap .merge_request }).2.requests := by
    decide +kernel
  have hkind := (against_of_mem rfl hagainst hsent).2.1
  cases hkind

end KindSafety

end HulyGitlab
