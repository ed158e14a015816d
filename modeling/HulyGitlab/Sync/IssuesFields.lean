import HulyGitlab.Sync.IssuesConvergence
import HulyGitlab.Sync.IssuesLocal

/-!
# The fields of a mirrored issue

Field by field, what a value in Huly and a value on GitLab have to do with
each other, and what a change of one field on either side does to the issue.
-/

namespace HulyGitlab.Issues

open NamedDocs UserIdentity

/-- What a GitLab issue has in the fields both systems have. -/
structure Content where
  title : String
  description : String
  state : IssueState
  assignees : List SyncUser
  milestone : Option SyncMilestone
  labels : List String

def contentOf (i : SyncIssue) : Content :=
  ⟨i.title, i.description.getD "", i.state, i.assignees, i.milestone, i.labels⟩

/-- The value means in Huly what the content has in the field. -/
def FieldAgrees (env : Env) (bctx : BindingContext) (w : World) (c : Content) :
    ManagedField → JsValue → Prop
  | .title, v => v = .str c.title
  | .description, v =>
      v = .str (env.gfmMarkdownToMarkup c.description (issueRefUrl bctx) (imageUrl bctx))
  | .status, v => ∃ ref, StatusMap.statusOf (StatusMap.entryOf env w.statusCache
      (toString bctx.gitlabProjectId) bctx.statuses) c.state.toJs = some ref ∧ v = .str ref
  | .assignee, v => v = assigneeOf env w.idmap bctx.workspaceUuid c.assignees
  | .milestone, v => MilestoneIs env bctx.hulyProjectRef w.docs v c.milestone
  | .labels, v => LabelsAre env w.docs v c.labels

theorem agrees_iff {env : Env} {bctx : BindingContext} {w : World} {i : SyncIssue}
    {value : String → JsValue} :
    Agrees env bctx w i value ↔ ∀ k, FieldAgrees env bctx w (contentOf i) k (value k.name) := by
  constructor
  · intro h k
    cases k with
    | title => exact h.title
    | description => exact h.description
    | status => exact h.status
    | assignee => exact h.assignee
    | milestone => exact h.milestone
    | labels => exact h.labels
  · intro h
    exact ⟨h .title, h .description, h .status, h .assignee, h .milestone, h .labels⟩

/-- A change of one field on GitLab. -/
inductive GitLabEdit
  | title (text : String)
  | description (text : Option String)
  | state (s : IssueState)
  | assignees (users : List SyncUser)
  | milestone (m : Option SyncMilestone)
  | labels (names : List String)
  deriving DecidableEq

namespace GitLabEdit

def field : GitLabEdit → ManagedField
  | title _ => .title
  | description _ => .description
  | state _ => .status
  | assignees _ => .assignee
  | milestone _ => .milestone
  | labels _ => .labels

/-- The issue after the edit at the given time. -/
def apply (updatedAt : Nat) (i : SyncIssue) : GitLabEdit → SyncIssue
  | title text => { i with title := text, updatedAt := updatedAt }
  | description text => { i with description := text, updatedAt := updatedAt }
  | state s => { i with state := s, updatedAt := updatedAt }
  | assignees users => { i with assignees := users, updatedAt := updatedAt }
  | milestone m => { i with milestone := m, updatedAt := updatedAt }
  | labels names => { i with labels := names, updatedAt := updatedAt }

def put (c : Content) : GitLabEdit → Content
  | title text => { c with title := text }
  | description text => { c with description := text.getD "" }
  | state s => { c with state := s }
  | assignees users => { c with assignees := users }
  | milestone m => { c with milestone := m }
  | labels names => { c with labels := names }

theorem contentOf_apply (e : GitLabEdit) (updatedAt : Nat) (i : SyncIssue) :
    contentOf (e.apply updatedAt i) = e.put (contentOf i) := by
  cases e <;> rfl

theorem iid_apply (e : GitLabEdit) (updatedAt : Nat) (i : SyncIssue) :
    (e.apply updatedAt i).iid = i.iid := by
  cases e <;> rfl

end GitLabEdit

/-- Two contents have the same in the field. -/
def SameAt (c d : Content) : ManagedField → Prop
  | .title => c.title = d.title
  | .description => c.description = d.description
  | .status => c.state = d.state
  | .assignee => c.assignees = d.assignees
  | .milestone => c.milestone = d.milestone
  | .labels => c.labels = d.labels

theorem SameAt.refl (c : Content) (k : ManagedField) : SameAt c c k := by
  cases k <;> rfl

theorem SameAt.symm {c d : Content} {k : ManagedField} (h : SameAt c d k) : SameAt d c k := by
  cases k <;> exact Eq.symm h

theorem SameAt.trans {c d e : Content} {k : ManagedField} (h : SameAt c d k)
    (h' : SameAt d e k) : SameAt c e k := by
  cases k <;> exact Eq.trans h h'

theorem SameAt.fieldAgrees_iff {env : Env} {bctx : BindingContext} {w : World} {c d : Content}
    {k : ManagedField} (h : SameAt c d k) (v : JsValue) :
    FieldAgrees env bctx w c k v ↔ FieldAgrees env bctx w d k v := by
  cases k <;> simp only [SameAt] at h <;> simp only [FieldAgrees, h]

theorem GitLabEdit.sameAt_put_of_ne {e : GitLabEdit} {k : ManagedField} (h : e.field ≠ k)
    (c : Content) : SameAt (e.put c) c k := by
  cases e <;> cases k <;> first | rfl | exact absurd rfl h

theorem GitLabEdit.sameAt_put (e : GitLabEdit) (c d : Content) :
    SameAt (e.put c) (e.put d) e.field := by
  cases e <;> rfl

theorem GitLabEdit.put_eq_of_sameAt {e : GitLabEdit} {c d : Content}
    (h : SameAt c (e.put d) e.field) : e.put c = c := by
  cases e <;> simp only [GitLabEdit.field, SameAt, GitLabEdit.put] at h ⊢ <;> rw [← h]

/-- What GitLab does with the body of an issue update, on the bodies sent here. -/
structure IssueServer where
  update : SyncIssue → Fields → SyncIssue
  iid : ∀ i body, (update i body).iid = i.iid
  title : ∀ i text, contentOf (update i [("title", .str text)]) =
    { contentOf i with title := text }
  description : ∀ i text, contentOf (update i [("description", .str text)]) =
    { contentOf i with description := text }
  state_event : ∀ i state, contentOf (update i [("state_event", .str (stateEvent state))]) =
    { contentOf i with state := state }
  no_labels : ∀ i, contentOf (update i [("labels", .str "")]) = { contentOf i with labels := [] }

namespace HulyEdit

variable (env : Env) (bctx : BindingContext) (entry : ProjectCacheEntry)

/-- The issue after the push. -/
def send (server : IssueServer) (x : HulyEdit) (i : SyncIssue) : SyncIssue :=
  match x.body env bctx entry with
  | some body => server.update i body
  | none => i

def put (c : Content) : HulyEdit → Content
  | title text => { c with title := text }
  | description markup =>
      match env.markupToGfmMarkdown (.str markup) (issueRefUrl bctx) (imageUrl bctx) with
      | .ok text => { c with description := text }
      | .error _ => c
  | status ref => { c with state := StatusMap.stateOf entry ref }
  | labels [] => { c with labels := [] }
  | _ => c

/-- `applyLocal` can send the change. -/
def Reaches : HulyEdit → Prop
  | title _ => True
  | description markup => ∃ text,
      env.markupToGfmMarkdown (.str markup) (issueRefUrl bctx) (imageUrl bctx) = .ok text
  | status _ => True
  | labels [] => True
  | _ => False

/-- What GitLab is sent is translated back to the value of the edit. -/
def ReadsBack : HulyEdit → Prop
  | description markup => ∀ text,
      env.markupToGfmMarkdown (.str markup) (issueRefUrl bctx) (imageUrl bctx) = .ok text →
      env.gfmMarkdownToMarkup text (issueRefUrl bctx) (imageUrl bctx) = markup
  | status ref =>
      StatusMap.statusOf entry (StatusMap.stateOf entry ref).toJs = some ref
  | _ => True

/-- GitLab has the edited value: the translation of the text or of the status, or what the
references of the edit mean. -/
def HeldBy (w : World) (c : Content) : HulyEdit → Prop
  | title text => c.title = text
  | description markup =>
      env.markupToGfmMarkdown (.str markup) (issueRefUrl bctx) (imageUrl bctx) = .ok c.description
  | status ref => c.state = StatusMap.stateOf entry ref
  | assignee person => FieldAgrees env bctx w c .assignee (assignee person).value
  | milestone ref => FieldAgrees env bctx w c .milestone (milestone ref).value
  | labels refs => FieldAgrees env bctx w c .labels (labels refs).value

variable {env bctx entry}

theorem contentOf_send (server : IssueServer) (x : HulyEdit) (i : SyncIssue) :
    contentOf (x.send env bctx entry server i) = x.put env bctx entry (contentOf i) := by
  unfold send put body
  cases x with
  | title text => exact server.title i text
  | description markup =>
    cases ht : env.markupToGfmMarkdown (.str markup) (issueRefUrl bctx) (imageUrl bctx) with
    | ok text => simpa [ht] using server.description i text
    | error e => simp [ht]
  | status ref => exact server.state_event i _
  | assignee person => rfl
  | milestone ref => rfl
  | labels refs =>
    cases refs with
    | nil => exact server.no_labels i
    | cons ref refs => rfl

theorem iid_send (server : IssueServer) (x : HulyEdit) (i : SyncIssue) :
    (x.send env bctx entry server i).iid = i.iid := by
  unfold send
  cases x.body env bctx entry with
  | none => rfl
  | some body => exact server.iid i body

theorem put_description_ok {markup text : String}
    (h : env.markupToGfmMarkdown (.str markup) (issueRefUrl bctx) (imageUrl bctx) = .ok text)
    (c : Content) : (description markup).put env bctx entry c = { c with description := text } := by
  simp only [put, h]

theorem put_description_error {markup : String} {e : Err}
    (h : env.markupToGfmMarkdown (.str markup) (issueRefUrl bctx) (imageUrl bctx) = .error e)
    (c : Content) : (description markup).put env bctx entry c = c := by
  simp only [put, h]

theorem sameAt_put_of_ne {x : HulyEdit} {k : ManagedField} (h : x.field ≠ k) (c : Content) :
    SameAt (x.put env bctx entry c) c k := by
  cases x with
  | description markup =>
    cases ht : env.markupToGfmMarkdown (.str markup) (issueRefUrl bctx) (imageUrl bctx) with
    | error e =>
      rw [put_description_error ht]
      exact SameAt.refl c k
    | ok text =>
      rw [put_description_ok ht]
      cases k <;> first | rfl | exact absurd rfl h
  | labels refs => cases refs <;> cases k <;> first | rfl | exact absurd rfl h
  | _ => cases k <;> first | rfl | exact absurd rfl h

theorem sameAt_put {x : HulyEdit} {c d : Content} (h : SameAt c d x.field) :
    SameAt (x.put env bctx entry c) (x.put env bctx entry d) x.field := by
  cases x with
  | description markup =>
    cases ht : env.markupToGfmMarkdown (.str markup) (issueRefUrl bctx) (imageUrl bctx) with
    | error e => rwa [put_description_error ht, put_description_error ht]
    | ok text => rw [put_description_ok ht, put_description_ok ht]; rfl
  | labels refs =>
    cases refs with
    | nil => rfl
    | cons ref refs => exact h
  | assignee person => exact h
  | milestone ref => exact h
  | _ => rfl

theorem heldBy_iff_of_sameAt {x : HulyEdit} {w : World} {c d : Content} (h : SameAt c d x.field) :
    x.HeldBy env bctx entry w c ↔ x.HeldBy env bctx entry w d := by
  cases x <;> simp only [SameAt, field] at h <;> simp only [HeldBy, FieldAgrees, h]

/-- A change that is not shown yet is on GitLab after the push exactly when it can be sent. -/
theorem heldBy_put_iff {x : HulyEdit} {w : World} {c : Content}
    (h : ¬ FieldAgrees env bctx w c x.field x.value) :
    x.HeldBy env bctx entry w (x.put env bctx entry c) ↔ x.Reaches env bctx := by
  cases x with
  | title text => exact ⟨fun _ => trivial, fun _ => rfl⟩
  | description markup =>
    unfold HeldBy Reaches
    cases ht : env.markupToGfmMarkdown (.str markup) (issueRefUrl bctx) (imageUrl bctx) with
    | error e => simp [ht]
    | ok text => simp [put_description_ok ht, ht]
  | status ref => exact ⟨fun _ => trivial, fun _ => rfl⟩
  | assignee person => exact ⟨h, False.elim⟩
  | milestone ref => exact ⟨h, False.elim⟩
  | labels refs =>
    cases refs with
    | nil =>
      refine ⟨fun _ => trivial, fun _ => ⟨[], rfl, ?_, ?_⟩⟩
      · exact fun ref hr => absurd hr List.not_mem_nil
      · simp [put]
    | cons ref refs => exact ⟨h, False.elim⟩

theorem labelsAre_nil_iff {w : World} {names : List String} :
    LabelsAre env w.docs (.arr []) names ↔ names = [] := by
  constructor
  · rintro ⟨refs, hv, -, hkeys⟩
    have hnil : refs = [] := List.map_eq_nil_iff.mp (JsValue.arr.inj hv).symm
    cases names with
    | nil => rfl
    | cons name names =>
      obtain ⟨ref, hr, -⟩ := (hkeys (env.toLowerCase name)).mpr List.mem_cons_self
      exact absurd (hnil ▸ hr) List.not_mem_nil
  · rintro rfl
    exact ⟨[], rfl, fun ref hr => absurd hr List.not_mem_nil, by simp⟩

/-- What was sent reads as the edited value exactly when the translation goes back. -/
theorem fieldAgrees_put_iff {x : HulyEdit} (hx : x.Reaches env bctx) {w : World}
    (hentry : StatusMap.entryOf env w.statusCache (toString bctx.gitlabProjectId) bctx.statuses =
      entry) (c : Content) :
    FieldAgrees env bctx w (x.put env bctx entry c) x.field x.value ↔
      x.ReadsBack env bctx entry := by
  cases x with
  | title text => exact ⟨fun _ => trivial, fun _ => rfl⟩
  | description markup =>
    obtain ⟨text, ht⟩ := hx
    simp only [put_description_ok ht, ht, field, value, FieldAgrees, ReadsBack, JsValue.str.injEq,
      Except.ok.injEq]
    constructor
    · rintro h _ rfl
      exact h.symm
    · intro h
      exact (h text rfl).symm
  | status ref =>
    simp only [put, field, value, FieldAgrees, ReadsBack, hentry, JsValue.str.injEq]
    constructor
    · rintro ⟨_, h, rfl⟩
      exact h
    · intro h
      exact ⟨ref, h, rfl⟩
  | assignee person => exact hx.elim
  | milestone ref => exact hx.elim
  | labels refs =>
    cases refs with
    | nil => exact ⟨fun _ => trivial, fun _ => labelsAre_nil_iff.mpr rfl⟩
    | cons ref refs => exact hx.elim

/-- The value of a field that can be sent is determined by what it agrees with. -/
theorem eq_value {x : HulyEdit} (hx : x.Reaches env bctx) {w : World} {c : Content} {v : JsValue}
    (hv : FieldAgrees env bctx w c x.field v) (hxv : FieldAgrees env bctx w c x.field x.value) :
    v = x.value := by
  cases x with
  | title text => exact Eq.trans hv (Eq.symm hxv)
  | description markup => exact Eq.trans hv (Eq.symm hxv)
  | status ref =>
    obtain ⟨a, ha, rfl⟩ := hv
    obtain ⟨b, hb, hxb⟩ := hxv
    rw [ha] at hb
    rw [hxb, Option.some.inj hb]
  | assignee person => exact hx.elim
  | milestone ref => exact hx.elim
  | labels refs =>
    cases refs with
    | cons ref refs => exact hx.elim
    | nil =>
      have hnone : c.labels = [] := labelsAre_nil_iff.mp hxv
      obtain ⟨refs, rfl, hnamed, hkeys⟩ := hv
      cases refs with
      | nil => rfl
      | cons ref refs =>
        obtain ⟨key, hkey⟩ := hnamed ref List.mem_cons_self
        have hmem := (hkeys key).mp ⟨ref, List.mem_cons_self, hkey⟩
        rw [hnone] at hmem
        exact absurd hmem List.not_mem_nil

end HulyEdit

theorem FieldAgrees.carry {env : Env} {bctx : BindingContext} {w w' : World} {c : Content}
    {k : ManagedField} {v : JsValue} (h : FieldAgrees env bctx w c k v)
    (hc : Carries env bctx w w') : FieldAgrees env bctx w' c k v := by
  cases k with
  | title => exact h
  | description => exact h
  | status => simpa only [FieldAgrees, hc.entry] using h
  | assignee => exact Eq.trans h (hc.assigneeOf _).symm
  | milestone => exact MilestoneIs.carry h hc.milestones
  | labels => exact LabelsAre.carry h hc.tags

/-- The references of a shown value mean later what they meant. -/
theorem FieldAgrees.carry_iff {env : Env} {bctx : BindingContext} {w w' : World} {c : Content}
    {k : ManagedField} {v : JsValue} (hshown : FieldAgrees env bctx w c k v)
    (hc : Carries env bctx w w') (d : Content) :
    FieldAgrees env bctx w' d k v ↔ FieldAgrees env bctx w d k v := by
  refine ⟨fun h => ?_, fun h => h.carry hc⟩
  cases k with
  | title => exact h
  | description => exact h
  | status => simpa only [FieldAgrees, hc.entry] using h
  | assignee => exact Eq.trans h (hc.assigneeOf _)
  | milestone =>
    unfold FieldAgrees at hshown h ⊢
    cases hd : d.milestone with
    | none =>
      rw [hd] at h
      exact h
    | some m =>
      rw [hd] at h
      obtain ⟨ref, rfl, hname⟩ := h
      cases hcm : c.milestone with
      | none =>
        rw [hcm] at hshown
        exact absurd hshown JsValue.noConfusion
      | some m₀ =>
        rw [hcm] at hshown
        obtain ⟨ref₀, hv, hname₀⟩ := hshown
        cases hv
        have hkey := (hc.milestones ref _ hname₀).unique hname
        exact ⟨ref, rfl, hkey ▸ hname₀⟩
  | labels =>
    obtain ⟨refs, rfl, -, hkeys⟩ := h
    obtain ⟨refs₀, hv, hnamed₀, -⟩ := hshown
    have hrefs : refs = refs₀ :=
      List.map_injective_iff.mpr (fun _ _ => JsValue.str.inj) (JsValue.arr.inj hv)
    subst hrefs
    refine ⟨refs, rfl, hnamed₀, fun key => ?_⟩
    rw [← hkeys key]
    constructor
    · rintro ⟨ref, hr, hkey⟩
      exact ⟨ref, hr, hc.tags ref key hkey⟩
    · rintro ⟨ref, hr, hkey⟩
      obtain ⟨old, hold⟩ := hnamed₀ ref hr
      exact ⟨ref, hr, (hc.tags ref old hold).unique hkey ▸ hold⟩

/-- The value of an edit that can be sent refers to nothing but a status. -/
theorem HulyEdit.Reaches.carry_iff {env : Env} {bctx : BindingContext} {w w' : World}
    {x : HulyEdit} (hx : x.Reaches env bctx) (hc : Carries env bctx w w') (c : Content) :
    FieldAgrees env bctx w' c x.field x.value ↔ FieldAgrees env bctx w c x.field x.value := by
  cases x with
  | title text => exact Iff.rfl
  | description markup => exact Iff.rfl
  | status ref => simp only [FieldAgrees, field, value, hc.entry]
  | assignee person => exact hx.elim
  | milestone ref => exact hx.elim
  | labels refs =>
    cases refs with
    | nil => exact labelsAre_nil_iff.trans labelsAre_nil_iff.symm
    | cons ref refs => exact hx.elim

end HulyGitlab.Issues
