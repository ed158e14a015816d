import HulyGitlab.Sync.Issues

/-!
# What `applyLocal` sends for one changed field

A transaction on a mirrored issue carries the changed attribute as the
platform stores it. The fields whose stored form `applyLocal` can read reach
GitLab; the others are left out, or the run ends in a throw before the update.
-/

namespace HulyGitlab.Issues

/-- The fields both systems have. -/
inductive ManagedField
  | title
  | description
  | status
  | assignee
  | milestone
  | labels
  deriving DecidableEq

def ManagedField.name : ManagedField → String
  | title => "title"
  | description => "description"
  | status => "status"
  | assignee => "assignee"
  | milestone => "milestone"
  | labels => "labels"

theorem ManagedField.name_mem (k : ManagedField) : k.name ∈ managedFields := by
  cases k <;> decide

theorem ManagedField.exists_name {j : String} (h : j ∈ managedFields) :
    ∃ k : ManagedField, j = k.name := by
  simp only [managedFields, List.mem_cons, List.not_mem_nil, or_false] at h
  obtain rfl | rfl | rfl | rfl | rfl | rfl := h
  · exact ⟨.title, rfl⟩
  · exact ⟨.description, rfl⟩
  · exact ⟨.status, rfl⟩
  · exact ⟨.assignee, rfl⟩
  · exact ⟨.milestone, rfl⟩
  · exact ⟨.labels, rfl⟩

theorem ManagedField.name_injective {j k : ManagedField} (h : j.name = k.name) : j = k := by
  cases j <;> cases k <;> first | rfl | exact absurd h (by decide)

/-- A change of one of them in Huly, by the value the platform stores. -/
inductive HulyEdit
  | title (text : String)
  | description (markup : String)
  | status (ref : Ref)
  | assignee (person : Option Ref)
  | milestone (ref : Option Ref)
  | labels (refs : List Ref)
  deriving DecidableEq

namespace HulyEdit

def field : HulyEdit → ManagedField
  | title _ => .title
  | description _ => .description
  | status _ => .status
  | assignee _ => .assignee
  | milestone _ => .milestone
  | labels _ => .labels

def value : HulyEdit → JsValue
  | title text => .str text
  | description markup => .str markup
  | status ref => .str ref
  | assignee person => .ofOption .str person
  | milestone ref => .ofOption .str ref
  | labels refs => .arr (refs.map .str)

/-- The operations of the transaction. -/
def change (x : HulyEdit) : Fields := [(x.field.name, x.value)]

theorem value_ne_undefined (x : HulyEdit) : x.value ≠ .undefined := by
  cases x with
  | assignee person => cases person <;> exact JsValue.noConfusion
  | milestone ref => cases ref <;> exact JsValue.noConfusion
  | _ => exact JsValue.noConfusion

theorem value_ne_null (x : HulyEdit) : x.field.name = "labels" → x.value ≠ .null := by
  intro h
  cases x with
  | labels refs => exact JsValue.noConfusion
  | _ => exact absurd h (by simp [field, ManagedField.name])

end HulyEdit

def stateEvent : IssueState → String
  | .closed => "close"
  | .opened => "reopen"

/-- The body GitLab is sent for the change, when it is sent one. -/
def HulyEdit.body (env : Env) (bctx : BindingContext) (entry : ProjectCacheEntry) :
    HulyEdit → Option Fields
  | title text => some [("title", .str text)]
  | description markup =>
      match env.markupToGfmMarkdown (.str markup) (issueRefUrl bctx) (imageUrl bctx) with
      | .ok text => some [("description", .str text)]
      | .error _ => none
  | status ref => some [("state_event", .str (stateEvent (StatusMap.stateOf entry ref)))]
  | labels [] => some [("labels", .str "")]
  | _ => none

/-- The body of an update of the issue. -/
def updateOf (projectId iid : Int) : GitLabRequest → Option Fields
  | .updateIssue p i body => if p = projectId ∧ i = iid then some body else none
  | _ => none

/-- The first read of the labels asks GitLab once, whatever it answers. -/
theorem primeRemoteLabels_run (env : Env) (projectId : Int) (w : World) :
    ∃ r, (LabelCache.primeRemote env projectId .new).run w =
      (r, { w with requests := w.requests ++ [.listLabels projectId] }) := by
  unfold LabelCache.primeRemote
  rw [if_neg (by decide)]
  have hask := Sync.request_run env (.listLabels projectId) w
  cases ha : env.gitlab w.requests (.listLabels projectId) with
  | error e =>
    rw [ha] at hask
    exact ⟨.error e, Effect.bind_of_error hask⟩
  | ok answer =>
    rw [ha] at hask
    rw [Effect.bind_of_ok hask]
    cases hl : answer.elements with
    | error e => exact ⟨.error e, rfl⟩
    | ok labels =>
      rw [Effect.ofExcept_ok_bind_run]
      cases he : remoteEntries env "name" labels with
      | error e => exact ⟨.error e, rfl⟩
      | ok entries => exact ⟨.ok _, rfl⟩

theorem primeRemoteMilestones_run (env : Env) (projectId : Int) (w : World) :
    ∃ r, (MilestoneCache.primeRemote env projectId .new).run w =
      (r, { w with requests := w.requests ++ [.listMilestones projectId] }) := by
  unfold MilestoneCache.primeRemote
  rw [if_neg (by decide)]
  have hask := Sync.request_run env (.listMilestones projectId) w
  cases ha : env.gitlab w.requests (.listMilestones projectId) with
  | error e =>
    rw [ha] at hask
    exact ⟨.error e, Effect.bind_of_error hask⟩
  | ok answer =>
    rw [ha] at hask
    rw [Effect.bind_of_ok hask]
    cases hl : answer.elements with
    | error e => exact ⟨.error e, rfl⟩
    | ok milestones =>
      rw [Effect.ofExcept_ok_bind_run]
      cases he : remoteEntries env "title" milestones with
      | error e => exact ⟨.error e, rfl⟩
      | ok entries => exact ⟨.ok _, rfl⟩

/-- A label given by its reference has no name: the run throws after the labels were read. -/
theorem ensureRemote_ref_run (env : Env) (projectId : Int) (ref : Ref) (rest : List JsValue)
    (w : World) :
    ∃ e, (LabelCache.ensureRemote env projectId .new (.str ref :: rest)).run w =
      (.error e, { w with requests := w.requests ++ [.listLabels projectId] }) := by
  obtain ⟨r, hprime⟩ := primeRemoteLabels_run env projectId w
  have hlabel : ∃ e, (LabelCache.ensureRemoteLabel env projectId .new .undefined .undefined).run w =
      (.error e, { w with requests := w.requests ++ [.listLabels projectId] }) := by
    unfold LabelCache.ensureRemoteLabel
    cases r with
    | error e => exact ⟨e, Effect.bind_of_error hprime⟩
    | ok c =>
      rw [Effect.bind_of_ok hprime]
      exact ⟨.typeError, rfl⟩
  obtain ⟨e, hrun⟩ := hlabel
  refine ⟨e, ?_⟩
  unfold LabelCache.ensureRemote
  rw [JsValue.prop_str, Effect.ofExcept_ok_bind_run, JsValue.prop_str, Effect.ofExcept_ok_bind_run]
  exact Effect.bind_of_error hrun

/-- A milestone given by its reference has no title. -/
theorem ensureRemoteMilestone_ref_run (env : Env) (projectId : Int) (description : JsValue)
    (w : World) :
    ∃ e, (MilestoneCache.ensureRemoteMilestone env projectId .new .undefined description).run w =
      (.error e, { w with requests := w.requests ++ [.listMilestones projectId] }) := by
  obtain ⟨r, hprime⟩ := primeRemoteMilestones_run env projectId w
  unfold MilestoneCache.ensureRemoteMilestone
  cases r with
  | error e => exact ⟨e, Effect.bind_of_error hprime⟩
  | ok c =>
    rw [Effect.bind_of_ok hprime]
    exact ⟨.typeError, rfl⟩

/-- What a push leaves: the store of the id map and of the documents as they
were, and the bodies sent as issue updates. -/
structure Pushed (env : Env) (bctx : BindingContext) (iid : Int) (sent : Option Fields)
    (w w' : World) : Prop where
  docs : w'.docs = w.docs
  idmap : w'.idmap = w.idmap
  entry : StatusMap.entryOf env w'.statusCache (toString bctx.gitlabProjectId) bctx.statuses =
    StatusMap.entryOf env w.statusCache (toString bctx.gitlabProjectId) bctx.statuses
  requests : ∃ rs, w'.requests = w.requests ++ rs ∧
    rs.filterMap (updateOf bctx.gitlabProjectId iid) = sent.toList

theorem Pushed.refl {env : Env} {bctx : BindingContext} {iid : Int} (w : World) :
    Pushed env bctx iid none w w :=
  ⟨rfl, rfl, rfl, [], (List.append_nil _).symm, rfl⟩

/-- The translation of a change either gives the body or throws, having asked at most for the
labels or the milestones. -/
theorem remoteBody_run (env : Env) (bctx : BindingContext) (iid : Int) (x : HulyEdit) (w : World) :
    ∃ r w', (remoteBody env bctx x.change).run w = (r, w') ∧
      Pushed env bctx iid none w w' ∧
      ((∃ e, r = .error e ∧ x.body env bctx (StatusMap.entryOf env w.statusCache
          (toString bctx.gitlabProjectId) bctx.statuses) = none) ∨
        ∃ body, r = .ok body ∧ (if body = [] then none else some body) =
          x.body env bctx (StatusMap.entryOf env w.statusCache
          (toString bctx.gitlabProjectId) bctx.statuses)) := by
  cases x with
  | title text =>
    refine ⟨.ok [("title", .str text)], w, rfl, Pushed.refl w, .inr ⟨_, rfl, rfl⟩⟩
  | description markup =>
    cases ht : env.markupToGfmMarkdown (.str markup) (issueRefUrl bctx) (imageUrl bctx) with
    | error e =>
      have hdesc : (remoteDescription env (issueRefUrl bctx) (imageUrl bctx) (.str markup)).run w =
          (.error e, w) := by
        simp [remoteDescription, ht]
      refine ⟨.error e, w, ?_, Pushed.refl w, .inl ⟨e, rfl, by simp [HulyEdit.body, ht]⟩⟩
      unfold remoteBody
      simp only [HulyEdit.change, HulyEdit.field, ManagedField.name, HulyEdit.value,
        Fields.field_cons, Fields.field_nil, if_true, if_false, String.reduceEq,
        remoteLabels_undefined, remoteMilestoneId_undefined, remoteStateEvent_undefined,
        Effect.pure_bind_run]
      exact Effect.bind_of_error hdesc
    | ok text =>
      have hdesc : (remoteDescription env (issueRefUrl bctx) (imageUrl bctx) (.str markup)).run w =
          (.ok (.str text), w) := by
        simp [remoteDescription, ht]
      refine ⟨.ok [("description", .str text)], w, ?_, Pushed.refl w,
        .inr ⟨_, rfl, by simp [HulyEdit.body, ht]⟩⟩
      unfold remoteBody
      simp only [HulyEdit.change, HulyEdit.field, ManagedField.name, HulyEdit.value,
        Fields.field_cons, Fields.field_nil, if_true, if_false, String.reduceEq,
        remoteLabels_undefined, remoteMilestoneId_undefined, remoteStateEvent_undefined,
        Effect.pure_bind_run]
      rw [Effect.bind_of_ok hdesc]
      rfl
  | status ref =>
    have hstate := StatusMap.mapHulyStatus_run env (toString bctx.gitlabProjectId) ref
      bctx.statuses w
    let entry := StatusMap.entryOf env w.statusCache (toString bctx.gitlabProjectId) bctx.statuses
    let cache := StatusMap.remembered env w.statusCache (toString bctx.gitlabProjectId) bctx.statuses
    let w' : World := { w with statusCache := cache }
    have hentry := StatusMap.entryOf_remembered env w.statusCache (toString bctx.gitlabProjectId)
      bctx.statuses
    refine ⟨.ok [("state_event", .str (stateEvent (StatusMap.stateOf entry ref)))], w', ?_,
      ⟨rfl, rfl, hentry, [], (List.append_nil _).symm, rfl⟩, .inr ⟨_, rfl, rfl⟩⟩
    have hevent : (if StatusMap.stateOf entry ref = .closed then "close" else "reopen") =
        stateEvent (StatusMap.stateOf entry ref) := by
      cases StatusMap.stateOf entry ref <;> rfl
    rw [← hevent]
    have hstatus : (remoteStateEvent env bctx (.str ref)).run w =
        (.ok (.str (if StatusMap.stateOf entry ref = .closed then "close" else "reopen")), w') := by
      unfold remoteStateEvent
      rw [if_neg JsValue.noConfusion, Effect.bind_of_ok hstate]
      rfl
    unfold remoteBody
    simp only [HulyEdit.change, HulyEdit.field, ManagedField.name, HulyEdit.value, Fields.field_cons,
      Fields.field_nil, if_true, if_false, remoteLabels_undefined, remoteMilestoneId_undefined,
      Effect.pure_bind_run, String.reduceEq]
    rw [Effect.bind_of_ok hstatus]
    rfl
  | assignee person => 
    refine ⟨.ok [], w, ?_, Pushed.refl w, .inr ⟨_, rfl, rfl⟩⟩
    rfl
  | milestone ref =>
    cases ref with
    | none => exact ⟨.ok [], w, rfl, Pushed.refl w, .inr ⟨_, rfl, rfl⟩⟩
    | some ref =>
      obtain ⟨e, hrun⟩ := ensureRemoteMilestone_ref_run env bctx.gitlabProjectId .undefined w
      refine ⟨.error e, { w with requests := w.requests ++ [.listMilestones bctx.gitlabProjectId] },
        ?_, ⟨rfl, rfl, rfl, [.listMilestones bctx.gitlabProjectId], rfl, rfl⟩, .inl ⟨e, rfl, rfl⟩⟩
      have hmilestone : (remoteMilestoneId env bctx.gitlabProjectId (.str ref)).run w =
          (.error e, { w with requests := w.requests ++ [.listMilestones bctx.gitlabProjectId] }) := by
        unfold remoteMilestoneId
        simp only [reduceCtorEq, or_self, if_false, JsValue.prop_str, Effect.ofExcept_ok_bind_run]
        exact Effect.bind_of_error hrun
      unfold remoteBody
      simp only [HulyEdit.change, HulyEdit.field, ManagedField.name, HulyEdit.value,
        Fields.field_cons, Fields.field_nil, if_true, if_false, String.reduceEq,
        JsValue.ofOption_some, remoteLabels_undefined, Effect.pure_bind_run]
      exact Effect.bind_of_error hmilestone
  | labels refs =>
    cases refs with
    | nil => exact ⟨.ok [("labels", .str "")], w, rfl, Pushed.refl w, .inr ⟨_, rfl, rfl⟩⟩
    | cons ref refs =>
      obtain ⟨e, hrun⟩ := ensureRemote_ref_run env bctx.gitlabProjectId ref (refs.map .str) w
      refine ⟨.error e, { w with requests := w.requests ++ [.listLabels bctx.gitlabProjectId] }, ?_,
        ⟨rfl, rfl, rfl, [.listLabels bctx.gitlabProjectId], rfl, rfl⟩, .inl ⟨e, rfl, rfl⟩⟩
      have hlabels : (remoteLabels env bctx.gitlabProjectId (.arr ((ref :: refs).map .str))).run w =
          (.error e, { w with requests := w.requests ++ [.listLabels bctx.gitlabProjectId] }) := by
        unfold remoteLabels
        simp only [reduceCtorEq, if_false, List.map_cons, JsValue.elements_arr,
          Effect.ofExcept_ok_bind_run]
        exact Effect.bind_of_error hrun
      exact Effect.bind_of_error hlabels

/-- A push of a mapped issue sends the body of the change to the issue of the row. -/
theorem applyLocal_run {env : Env} (h : env.Healthy) {binding : BindingRef} {bctx : BindingContext}
    (hload : env.loadBinding binding = .ok bctx) {doc : String} {row : IdMapDoc} {w : World}
    (hrow : w.idmap.findByHuly bctx.workspaceUuid issueClass (stripDocPrefix doc) = some row)
    {iid : Int} (hiid : parseIid row.gitlabId = some iid) (x : HulyEdit) :
    ∃ r w', (applyLocal env binding doc x.change).run w = (r, w') ∧
      Pushed env bctx iid (x.body env bctx (StatusMap.entryOf env w.statusCache
        (toString bctx.gitlabProjectId) bctx.statuses)) w w' := by
  obtain ⟨r, w₁, hbody, hp, ⟨e, rfl, hnone⟩ | ⟨body, rfl, hsome⟩⟩ := remoteBody_run env bctx iid x w
  · refine ⟨.error e, w₁, ?_, by rw [hnone]; exact hp⟩
    unfold applyLocal Sync.loadBinding
    rw [hload, Effect.ofExcept_ok_bind_run]
    dsimp only
    rw [Effect.bind_of_ok (Sync.findByHuly_run h _ _ _ w)]
    exact Effect.bind_of_error hbody
  · have hrun : (applyLocal env binding doc x.change).run w =
        (if body = [] then (pure () : Sync Unit)
          else do
            let _ ← Sync.request env (.updateIssue bctx.gitlabProjectId iid body)
            let now ← Effect.gets World.now
            Sync.setCursor env binding .issues (some now)).run w₁ := by
      unfold applyLocal Sync.loadBinding
      rw [hload, Effect.ofExcept_ok_bind_run]
      dsimp only
      rw [Effect.bind_of_ok (Sync.findByHuly_run h _ _ _ w), Effect.bind_of_ok hbody, hrow]
      dsimp only
      rw [hiid]
    rw [hrun]
    by_cases hempty : body = []
    · rw [if_pos hempty] at hsome ⊢
      exact ⟨.ok (), w₁, rfl, by rw [← hsome]; exact hp⟩
    · rw [if_neg hempty] at hsome ⊢
      rw [← hsome]
      obtain ⟨rs, hrs, hnone⟩ := hp.requests
      have hrequests : ∀ w₂ : World, w₂.requests =
          w₁.requests ++ [.updateIssue bctx.gitlabProjectId iid body] →
          ∃ rs, w₂.requests = w.requests ++ rs ∧
            rs.filterMap (updateOf bctx.gitlabProjectId iid) = (some body).toList := by
        intro w₂ hw₂
        refine ⟨rs ++ [.updateIssue bctx.gitlabProjectId iid body], ?_, ?_⟩
        · rw [hw₂, hrs, List.append_assoc]
        · rw [List.filterMap_append, hnone]
          simp [updateOf]
      have hask := Sync.request_run env (.updateIssue bctx.gitlabProjectId iid body) w₁
      cases ha : env.gitlab w₁.requests (.updateIssue bctx.gitlabProjectId iid body) with
      | error e =>
        rw [ha] at hask
        exact ⟨.error e, _, Effect.bind_of_error hask, hp.docs, hp.idmap, hp.entry,
          hrequests _ rfl⟩
      | ok answer =>
        rw [ha] at hask
        rw [Effect.bind_of_ok hask, Effect.gets_bind_run]
        exact ⟨.ok (), _, Sync.setCursor_run h _ _ _ _, hp.docs, hp.idmap, hp.entry,
          hrequests _ rfl⟩

end HulyGitlab.Issues
