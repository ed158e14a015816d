import HulyGitlab.Sync.Frames

/-!
# When a local change reaches GitLab

Both managers of the tracker translate a change before they send it: labels
and milestones are ensured on GitLab and markup becomes markdown. A change
that cannot be translated is never sent; one that can be is sent if the
services answer.
-/

namespace HulyGitlab

open Effect

/-- The answers the services give, apart from what is a function of its arguments. -/
structure Services where
  gitlab : List GitLabRequest → GitLabRequest → Except Err JsValue
  fault : World → Service → Option Err
  resolveActorToken : String → JsValue → Except Err (Option String)

/-- The same program with other services. -/
def Env.served (env : Env) (services : Services) : Env :=
  { env with
    gitlab := services.gitlab
    fault := services.fault
    resolveActorToken := services.resolveActorToken }

/-- The services an environment has. -/
def Env.services (env : Env) : Services := ⟨env.gitlab, env.fault, env.resolveActorToken⟩

@[simp] theorem Env.served_services (env : Env) : env.served env.services = env := rfl

/-- Nothing fails, nothing exists yet, and everything is created on demand. -/
def Services.obliging : Services where
  gitlab _ r := match r with
    | .listLabels _ => .ok (.arr [])
    | .listMilestones _ => .ok (.arr [])
    | _ => .ok (.obj [("id", .num 1), ("iid", .num 1)])
  fault _ _ := none
  resolveActorToken _ _ := .ok none

theorem Services.obliging_healthy (env : Env) : (env.served .obliging).Healthy := fun _ _ => rfl

/-- A request that only prepares the body of another: it reads the labels or milestones of the
project, or creates one that the body names. -/
def GitLabRequest.Preparing : GitLabRequest → Prop
  | .listLabels _ => True
  | .createLabel _ _ => True
  | .listMilestones _ => True
  | .createMilestone _ _ => True
  | _ => False

/-- The requests of a run all satisfy `P`. -/
def Sends {A : Type} (P : GitLabRequest → Prop) (m : Sync A) : Prop :=
  Within (Appends World.requests P) m

namespace Sends

variable {A B : Type} {P : GitLabRequest → Prop}

theorem of_writes {parts : List Part} {m : Sync A} (h : Writes parts m)
    (hr : .requests ∉ parts) : Sends P m :=
  fun w => Appends.of_eq (h.same hr w)

theorem bind {m : Sync A} {f : A → Sync B} (hm : Sends P m) (hf : ∀ a, Sends P (f a)) :
    Sends P (m >>= f) :=
  Within.bind Appends.trans hm hf

theorem ite {c : Prop} [Decidable c] {m n : Sync A} (hm : Sends P m) (hn : Sends P n) :
    Sends P (if c then m else n) :=
  Within.ite (fun _ => hm) fun _ => hn

theorem imp {Q : GitLabRequest → Prop} (h : ∀ r, P r → Q r) {m : Sync A} (hm : Sends P m) :
    Sends Q m :=
  Within.mono (fun _ _ => Appends.imp h) hm

theorem pure (a : A) : Sends P (pure a) := Within.pure Appends.refl a

theorem ofExcept (r : Except Err A) : Sends P (ofExcept r) := Within.ofExcept Appends.refl r

theorem request (env : Env) {r : GitLabRequest} (h : P r) : Sends P (Sync.request env r) :=
  fun _ => Appends.one rfl h

end Sends

section Preparing

variable (env : Env) (projectId : Int)

theorem ensureRemoteLabel_sends (c : LabelCache) (name color : JsValue) :
    Sends GitLabRequest.Preparing (LabelCache.ensureRemoteLabel env projectId c name color) := by
  apply Sends.bind
  · exact Sends.ite (Sends.pure _) (Sends.bind (Sends.request env trivial) fun _ =>
      Sends.bind (Sends.ofExcept _) fun _ => Sends.bind (Sends.ofExcept _) fun _ => Sends.pure _)
  · intro c
    apply Sends.bind (Sends.ofExcept _)
    intro text
    dsimp only
    cases c.remoteByName.get (env.toLowerCase text) with
    | some existing => exact Sends.pure _
    | none => exact Sends.bind (Sends.request env trivial) fun _ => Sends.pure _

theorem ensureRemote_sends (c : LabelCache) (labels : List JsValue) :
    Sends GitLabRequest.Preparing (LabelCache.ensureRemote env projectId c labels) := by
  induction labels generalizing c with
  | nil => exact Sends.pure _
  | cons l labels ih =>
    exact Sends.bind (Sends.ofExcept _) fun _ => Sends.bind (Sends.ofExcept _) fun _ =>
      Sends.bind (ensureRemoteLabel_sends env projectId _ _ _) fun ensured =>
      Sends.bind (Sends.ofExcept _) fun _ => Sends.bind (ih ensured.2) fun _ => Sends.pure _

theorem ensureRemoteMilestone_sends (c : MilestoneCache) (title description : JsValue) :
    Sends GitLabRequest.Preparing
      (MilestoneCache.ensureRemoteMilestone env projectId c title description) := by
  apply Sends.bind
  · exact Sends.ite (Sends.pure _) (Sends.bind (Sends.request env trivial) fun _ =>
      Sends.bind (Sends.ofExcept _) fun _ => Sends.bind (Sends.ofExcept _) fun _ => Sends.pure _)
  · intro c
    apply Sends.bind (Sends.ofExcept _)
    intro text
    dsimp only
    cases c.remoteByTitle.get (env.toLowerCase text) with
    | some existing => exact Sends.pure _
    | none => exact Sends.bind (Sends.request env trivial) fun _ => Sends.pure _

theorem remoteLabels_sends (labels : JsValue) :
    Sends GitLabRequest.Preparing (remoteLabels env projectId labels) :=
  Sends.ite (Sends.pure _) (Sends.bind (Sends.ofExcept _) fun _ =>
    Sends.bind (ensureRemote_sends env projectId _ _) fun _ => Sends.pure _)

theorem remoteMilestoneId_sends (milestone : JsValue) :
    Sends GitLabRequest.Preparing (remoteMilestoneId env projectId milestone) :=
  Sends.ite (Sends.pure _) (Sends.bind (Sends.ofExcept _) fun _ =>
    Sends.bind (Sends.ofExcept _) fun _ =>
    Sends.bind (ensureRemoteMilestone_sends env projectId _ _ _) fun _ => Sends.ofExcept _)

theorem Issues.remoteBody_sends (bctx : BindingContext) (change : Fields) :
    Sends GitLabRequest.Preparing (Issues.remoteBody env bctx change) :=
  Sends.bind (remoteLabels_sends env _ _) fun _ =>
    Sends.bind (remoteMilestoneId_sends env _ _) fun _ =>
    Sends.bind (Sends.ite (Sends.pure _) (Sends.bind (Sends.of_writes
      (Writes.mapHulyStatus env (List.mem_singleton.mpr rfl) _ _ _) (by decide)) fun _ =>
      Sends.pure _)) fun _ =>
    Sends.bind (Sends.of_writes (Writes.remoteDescription env _ _ _) List.not_mem_nil) fun _ =>
    Sends.pure _

theorem MergeRequests.remoteBody_sends (bctx : BindingContext) (change : Fields) :
    Sends GitLabRequest.Preparing (MergeRequests.remoteBody env bctx change) :=
  Sends.bind (remoteLabels_sends env _ _) fun _ =>
    Sends.bind (remoteMilestoneId_sends env _ _) fun _ =>
    Sends.bind (Sends.of_writes (Writes.remoteDescription env _ _ _) List.not_mem_nil) fun _ =>
    Sends.pure _

end Preparing

/-- The labels of a change can be ensured: each is an object with a name. -/
def LabelsNamed (labels : JsValue) : Prop :=
  labels = .undefined ∨ ∃ items, labels.elements = .ok items ∧
    ∀ l ∈ items, ∃ name, l.prop "name" = .ok (.str name)

def MilestoneTitled (milestone : JsValue) : Prop :=
  (milestone = .undefined ∨ milestone = .null) ∨
    ∃ title, milestone.prop "title" = .ok (.str title)

def DescriptionRendered (env : Env) (refUrl imageUrl : String) (description : JsValue) : Prop :=
  description = .undefined ∨
    ∃ text, env.markupToGfmMarkdown description refUrl imageUrl = .ok text

/-- The change can be translated to a body. -/
structure Translatable (env : Env) (refUrl imageUrl : String) (change : Fields) : Prop where
  labels : LabelsNamed (change.field "labels")
  milestone : MilestoneTitled (change.field "milestone")
  description : DescriptionRendered env refUrl imageUrl (change.field "description")

/-- The change sets one of the fields, or a milestone. -/
def Carried (keys : List String) (change : Fields) : Prop :=
  (∃ k ∈ keys, change.field k ≠ .undefined) ∨
    change.field "milestone" ≠ .undefined ∧ change.field "milestone" ≠ .null

section Inversion

variable {env : Env} {projectId : Int} {w w' : World}

theorem ensureRemoteLabel_ok {c : LabelCache} {name color : JsValue} {r : JsValue × LabelCache}
    (h : (LabelCache.ensureRemoteLabel env projectId c name color).run w = (.ok r, w')) :
    ∃ text, name = .str text := by
  obtain ⟨c', w₁, -, h⟩ := bind_ok_iff.mp h
  obtain ⟨text, w₂, htext, -⟩ := bind_ok_iff.mp h
  exact ⟨text, JsValue.asStr_ok (ofExcept_ok_iff.mp htext).1⟩

theorem ensureRemote_ok {c : LabelCache} {labels : List JsValue} {r : List JsValue × LabelCache}
    (h : (LabelCache.ensureRemote env projectId c labels).run w = (.ok r, w')) :
    ∀ l ∈ labels, ∃ name, l.prop "name" = .ok (.str name) := by
  induction labels generalizing c r w w' with
  | nil => exact fun l hl => absurd hl List.not_mem_nil
  | cons l labels ih =>
    obtain ⟨name, w₁, hname, h⟩ := bind_ok_iff.mp h
    obtain ⟨color, w₂, -, h⟩ := bind_ok_iff.mp h
    obtain ⟨ensured, w₃, hensured, h⟩ := bind_ok_iff.mp h
    obtain ⟨ensuredName, w₄, -, h⟩ := bind_ok_iff.mp h
    obtain ⟨rest, w₅, hrest, -⟩ := bind_ok_iff.mp h
    intro x hx
    obtain rfl | hx := List.mem_cons.mp hx
    · obtain ⟨text, rfl⟩ := ensureRemoteLabel_ok hensured
      exact ⟨text, (ofExcept_ok_iff.mp hname).1⟩
    · exact ih hrest x hx

theorem remoteLabels_ok {labels v : JsValue}
    (h : (remoteLabels env projectId labels).run w = (.ok v, w')) :
    LabelsNamed labels ∧ (labels = .undefined → v = .undefined) := by
  by_cases hu : labels = .undefined
  · subst hu
    cases h
    exact ⟨.inl rfl, fun _ => rfl⟩
  · unfold remoteLabels at h
    rw [if_neg hu] at h
    obtain ⟨items, w₁, hitems, h⟩ := bind_ok_iff.mp h
    obtain ⟨names, w₂, hnames, -⟩ := bind_ok_iff.mp h
    exact ⟨.inr ⟨items, (ofExcept_ok_iff.mp hitems).1, ensureRemote_ok hnames⟩,
      fun heq => absurd heq hu⟩

theorem remoteMilestoneId_ok {milestone v : JsValue}
    (h : (remoteMilestoneId env projectId milestone).run w = (.ok v, w')) :
    MilestoneTitled milestone ∧
      (milestone = .undefined ∨ milestone = .null → v = .undefined) := by
  by_cases hu : milestone = .undefined ∨ milestone = .null
  · unfold remoteMilestoneId at h
    rw [if_pos hu] at h
    cases h
    exact ⟨.inl hu, fun _ => rfl⟩
  · unfold remoteMilestoneId at h
    rw [if_neg hu] at h
    obtain ⟨title, w₁, htitle, h⟩ := bind_ok_iff.mp h
    obtain ⟨description, w₂, -, h⟩ := bind_ok_iff.mp h
    obtain ⟨m, w₃, hm, -⟩ := bind_ok_iff.mp h
    obtain ⟨c', w₄, -, hm⟩ := bind_ok_iff.mp hm
    obtain ⟨text, w₅, htext, -⟩ := bind_ok_iff.mp hm
    have hstr : title = .str text := JsValue.asStr_ok (ofExcept_ok_iff.mp htext).1
    exact ⟨.inr ⟨text, hstr ▸ (ofExcept_ok_iff.mp htitle).1⟩, fun heq => absurd heq hu⟩

theorem remoteDescription_ok {refUrl imageUrl : String} {markup v : JsValue}
    (h : (remoteDescription env refUrl imageUrl markup).run w = (.ok v, w')) :
    DescriptionRendered env refUrl imageUrl markup ∧
      (markup = .undefined → v = .undefined) := by
  by_cases hu : markup = .undefined
  · subst hu
    cases h
    exact ⟨.inl rfl, fun _ => rfl⟩
  · unfold remoteDescription at h
    rw [if_neg hu] at h
    obtain ⟨text, w₁, htext, -⟩ := bind_ok_iff.mp h
    exact ⟨.inr ⟨text, (ofExcept_ok_iff.mp htext).1⟩, fun heq => absurd heq hu⟩

end Inversion

/-! ### Obliging services -/

section Obliging

variable (env : Env) (projectId : Int)

/-- The labels a cache knows are objects. -/
def KnowsObjects (c : LabelCache) : Prop :=
  ∀ key v, c.remoteByName.get key = some v → ∃ fields, v = .obj fields

theorem primeRemote_obliging {c : LabelCache} (hc : KnowsObjects c) (w : World) :
    ∃ c' w', (LabelCache.primeRemote (env.served .obliging) projectId c).run w = (.ok c', w') ∧
      KnowsObjects c' := by
  unfold LabelCache.primeRemote
  by_cases hl : c.remoteLoaded = true
  · rw [if_pos hl]
    exact ⟨c, w, rfl, hc⟩
  · rw [if_neg hl]
    exact ⟨{ c with remoteByName := c.remoteByName.primeSync [], remoteLoaded := true },
      { w with requests := w.requests ++ [.listLabels projectId] }, rfl, hc⟩

theorem ensureRemoteLabel_obliging {c : LabelCache} (hc : KnowsObjects c) (name : String)
    (color : JsValue) (w : World) :
    ∃ fields c' w', (LabelCache.ensureRemoteLabel (env.served .obliging) projectId c (.str name)
        color).run w = (.ok (.obj fields, c'), w') ∧ KnowsObjects c' := by
  obtain ⟨c₁, w₁, hprime, hc₁⟩ := primeRemote_obliging env projectId hc w
  unfold LabelCache.ensureRemoteLabel
  rw [bind_of_ok hprime]
  simp only [JsValue.asStr_str, ofExcept_ok_bind_run]
  cases hget : c₁.remoteByName.get ((env.served .obliging).toLowerCase name) with
  | some existing =>
    obtain ⟨fields, rfl⟩ := hc₁ _ _ hget
    exact ⟨fields, c₁, w₁, rfl, hc₁⟩
  | none =>
    refine ⟨_, _, _, rfl, fun key v hv => ?_⟩
    obtain ⟨-, rfl⟩ | hold := BiDirectionalCache.get_put hv
    · exact ⟨_, rfl⟩
    · exact hc₁ key v hold

theorem ensureRemote_obliging {c : LabelCache} (hc : KnowsObjects c) {labels : List JsValue}
    (hlabels : ∀ l ∈ labels, ∃ name, l.prop "name" = .ok (.str name)) (w : World) :
    ∃ r w', (LabelCache.ensureRemote (env.served .obliging) projectId c labels).run w =
      (.ok r, w') := by
  induction labels generalizing c w with
  | nil => exact ⟨_, _, rfl⟩
  | cons l labels ih =>
    obtain ⟨name, hname⟩ := hlabels l List.mem_cons_self
    obtain ⟨color, hcolor⟩ := JsValue.prop_ok hname "color"
    obtain ⟨fields, c₁, w₁, hensured, hc₁⟩ :=
      ensureRemoteLabel_obliging env projectId hc name color w
    obtain ⟨rest, w₂, hrest⟩ := ih hc₁ (fun x hx => hlabels x (List.mem_cons_of_mem l hx)) w₁
    refine ⟨(Fields.field fields "name" :: rest.1, rest.2), w₂, ?_⟩
    rw [LabelCache.ensureRemote, hname, ofExcept_ok_bind_run, hcolor, ofExcept_ok_bind_run,
      bind_of_ok hensured]
    simp only [JsValue.prop_obj, ofExcept_ok_bind_run]
    rw [bind_of_ok hrest]
    rfl

theorem remoteLabels_obliging {labels : JsValue} (h : LabelsNamed labels) (w : World) :
    ∃ v w', (remoteLabels (env.served .obliging) projectId labels).run w = (.ok v, w') ∧
      (labels ≠ .undefined → v ≠ .undefined) := by
  by_cases hu : labels = .undefined
  · subst hu
    exact ⟨_, _, rfl, fun hne => absurd rfl hne⟩
  · obtain heq | ⟨items, hitems, hnamed⟩ := h
    · exact absurd heq hu
    · obtain ⟨r, w', hrun⟩ := ensureRemote_obliging env projectId (c := .new)
        (fun key v hv => by simp [LabelCache.new] at hv) hnamed w
      refine ⟨.str (joinNames r.1), w', ?_, fun _ => JsValue.noConfusion⟩
      unfold remoteLabels
      rw [if_neg hu, hitems, ofExcept_ok_bind_run, bind_of_ok hrun]
      rfl

theorem remoteMilestoneId_obliging {milestone : JsValue} (h : MilestoneTitled milestone)
    (w : World) :
    ∃ v w', (remoteMilestoneId (env.served .obliging) projectId milestone).run w = (.ok v, w') ∧
      (milestone ≠ .undefined ∧ milestone ≠ .null → v ≠ .undefined) := by
  unfold remoteMilestoneId
  obtain hu | ⟨title, htitle⟩ := h
  · rw [if_pos hu]
    exact ⟨_, _, rfl, fun hne => absurd hu (not_or.mpr hne)⟩
  · have hu : ¬ (milestone = .undefined ∨ milestone = .null) := by
      rintro (rfl | rfl) <;> cases htitle
    obtain ⟨description, hdescription⟩ := JsValue.prop_ok htitle "description"
    rw [if_neg hu, htitle, ofExcept_ok_bind_run, hdescription, ofExcept_ok_bind_run]
    exact ⟨.num 1, _, rfl, fun _ => JsValue.noConfusion⟩

theorem remoteDescription_obliging {refUrl imageUrl : String} {markup : JsValue}
    (h : DescriptionRendered env refUrl imageUrl markup) (w : World) :
    ∃ v, (remoteDescription (env.served .obliging) refUrl imageUrl markup).run w = (.ok v, w) ∧
      (markup ≠ .undefined → v ≠ .undefined) := by
  by_cases hu : markup = .undefined
  · subst hu
    exact ⟨_, rfl, fun hne => absurd rfl hne⟩
  · obtain heq | ⟨text, htext⟩ := h
    · exact absurd heq hu
    · have hserved : (env.served .obliging).markupToGfmMarkdown markup refUrl imageUrl = .ok text :=
        htext
      refine ⟨.str text, ?_, fun _ => JsValue.noConfusion⟩
      unfold remoteDescription
      rw [if_neg hu, hserved]
      rfl

end Obliging

/-! ### The bodies -/

/-- The fields of a change that `updateIssue` can carry. -/
def Issues.pushedFields : List String := ["title", "description", "labels", "assigneeIds", "status"]

/-- The change has a body for `updateIssue`. -/
structure Issues.Pushable (env : Env) (bctx : BindingContext) (change : Fields) : Prop where
  translatable : Translatable env (issueRefUrl bctx) (imageUrl bctx) change
  carried : Carried Issues.pushedFields change

theorem Issues.pushable_of_body {env : Env} {bctx : BindingContext} {change body : Fields}
    {w w' : World} (h : (Issues.remoteBody env bctx change).run w = (.ok body, w'))
    (hne : body ≠ []) : Issues.Pushable env bctx change := by
  obtain ⟨labels, w₁, hlabels, h⟩ := bind_ok_iff.mp h
  obtain ⟨milestone, w₂, hmilestone, h⟩ := bind_ok_iff.mp h
  obtain ⟨stateEvent, w₃, hstate, h⟩ := bind_ok_iff.mp h
  obtain ⟨description, w₄, hdescription, h⟩ := bind_ok_iff.mp h
  cases h
  obtain ⟨hl, hlu⟩ := remoteLabels_ok hlabels
  obtain ⟨hm, hmu⟩ := remoteMilestoneId_ok hmilestone
  obtain ⟨hd, hdu⟩ := remoteDescription_ok hdescription
  refine ⟨⟨hl, hm, hd⟩, ?_⟩
  by_contra hno
  -- without any of the fields every part of the body is empty
  simp only [Carried, Issues.pushedFields, List.mem_cons, List.not_mem_nil, or_false, not_or,
    not_exists, not_and, forall_eq_or_imp, forall_eq, not_not] at hno
  obtain ⟨⟨htitle, hdescription', hlabels', hassignees, hstatus⟩, hmilestone'⟩ := hno
  have hstateEvent : stateEvent = .undefined := by
    rw [hstatus] at hstate
    cases hstate
    rfl
  have hmilestone'' : milestone = .undefined :=
    hmu (by by_cases hu : change.field "milestone" = .undefined
            · exact .inl hu
            · exact .inr (hmilestone' hu))
  apply hne
  simp [htitle, hdu hdescription', hlu hlabels', hassignees, hstateEvent, hmilestone'']

theorem Issues.remoteStateEvent_run (env : Env) (bctx : BindingContext) (statusRef : JsValue)
    (w : World) :
    ∃ v w', (Issues.remoteStateEvent env bctx statusRef).run w = (.ok v, w') ∧
      (statusRef ≠ .undefined → v ≠ .undefined) := by
  unfold Issues.remoteStateEvent
  by_cases hu : statusRef = .undefined
  · rw [if_pos hu]
    exact ⟨_, _, rfl, fun hne => absurd hu hne⟩
  · rw [if_neg hu]
    have hmap : ∃ state w', (StatusMap.mapHulyStatus env (toString bctx.gitlabProjectId) statusRef
        bctx.statuses).run w = (.ok state, w') := by
      unfold StatusMap.mapHulyStatus
      rw [bind_of_ok (StatusMap.getEntry_run env _ _ w)]
      cases statusRef <;> exact ⟨_, _, rfl⟩
    obtain ⟨state, w', hrun⟩ := hmap
    rw [bind_of_ok hrun]
    exact ⟨_, _, rfl, fun _ => JsValue.noConfusion⟩

/-- With obliging services a pushable change gets its body. -/
theorem Issues.remoteBody_obliging {env : Env} {bctx : BindingContext} {change : Fields}
    (h : Issues.Pushable env bctx change) (w : World) :
    ∃ body w', (Issues.remoteBody (env.served .obliging) bctx change).run w = (.ok body, w') ∧
      body ≠ [] := by
  obtain ⟨⟨hl, hm, hd⟩, hcarried⟩ := h
  obtain ⟨labels, w₁, hlabels, hlu⟩ := remoteLabels_obliging env bctx.gitlabProjectId hl w
  obtain ⟨milestone, w₂, hmilestone, hmu⟩ :=
    remoteMilestoneId_obliging env bctx.gitlabProjectId hm w₁
  obtain ⟨stateEvent, w₃, hstate, hsu⟩ :=
    Issues.remoteStateEvent_run (env.served .obliging) bctx (change.field "status") w₂
  obtain ⟨description, hdescription, hdu⟩ := remoteDescription_obliging env hd w₃
  refine ⟨given "title" (change.field "title") ++ given "description" description ++
    given "labels" labels ++ given "milestone_id" milestone ++
    given "assignee_ids" (change.field "assigneeIds") ++ given "state_event" stateEvent,
    w₃, ?_, ?_⟩
  · unfold Issues.remoteBody
    rw [bind_of_ok hlabels, bind_of_ok hmilestone, bind_of_ok hstate, bind_of_ok hdescription]
    rfl
  · intro hempty
    simp only [List.append_eq_nil_iff, given_eq_nil, and_assoc] at hempty
    obtain ⟨htitle, hdescription', hlabels', hmilestone', hassignees, hstatus⟩ := hempty
    obtain ⟨k, hk, hne⟩ | hne := hcarried
    · simp only [Issues.pushedFields, List.mem_cons, List.not_mem_nil, or_false] at hk
      obtain rfl | rfl | rfl | rfl | rfl := hk
      · exact hne htitle
      · exact hdu hne hdescription'
      · exact hlu hne hlabels'
      · exact hne hassignees
      · exact hsu hne hstatus
    · exact hmu hne hmilestone'

/-- The fields of a change that `updateMergeRequest` can carry, the status apart. -/
def MergeRequests.pushedFields : List String :=
  ["title", "description", "labels", "assigneeIds", "targetBranch"]

/-- The change has a body for `updateMergeRequest`. -/
def MergeRequests.HasBody (env : Env) (bctx : BindingContext) (change : Fields) : Prop :=
  Carried MergeRequests.pushedFields change ∨
    MergeRequests.remoteStateEvent env bctx (change.field "status") ≠ .undefined

theorem MergeRequests.translatable_of_body {env : Env} {bctx : BindingContext}
    {change body : Fields} {w w' : World}
    (h : (MergeRequests.remoteBody env bctx change).run w = (.ok body, w')) :
    Translatable env (mergeRequestRefUrl bctx) (imageUrl bctx) change ∧
      (body ≠ [] → MergeRequests.HasBody env bctx change) := by
  obtain ⟨labels, w₁, hlabels, h⟩ := bind_ok_iff.mp h
  obtain ⟨milestone, w₂, hmilestone, h⟩ := bind_ok_iff.mp h
  obtain ⟨description, w₃, hdescription, h⟩ := bind_ok_iff.mp h
  cases h
  obtain ⟨hl, hlu⟩ := remoteLabels_ok hlabels
  obtain ⟨hm, hmu⟩ := remoteMilestoneId_ok hmilestone
  obtain ⟨hd, hdu⟩ := remoteDescription_ok hdescription
  refine ⟨⟨hl, hm, hd⟩, fun hne => ?_⟩
  by_contra hno
  simp only [MergeRequests.HasBody, Carried, MergeRequests.pushedFields, List.mem_cons,
    List.not_mem_nil, or_false, not_or, not_exists, not_and, forall_eq_or_imp, forall_eq,
    not_not] at hno
  obtain ⟨⟨⟨htitle, hdescription', hlabels', hassignees, htarget⟩, hmilestone'⟩, hstate⟩ := hno
  have hmilestone'' : milestone = .undefined :=
    hmu (by by_cases hu : change.field "milestone" = .undefined
            · exact .inl hu
            · exact .inr (hmilestone' hu))
  apply hne
  simp [htitle, hdu hdescription', hlu hlabels', hassignees, htarget, hstate, hmilestone'']

theorem MergeRequests.remoteBody_obliging {env : Env} {bctx : BindingContext} {change : Fields}
    (h : Translatable env (mergeRequestRefUrl bctx) (imageUrl bctx) change) (w : World) :
    ∃ body w', (MergeRequests.remoteBody (env.served .obliging) bctx change).run w =
        (.ok body, w') ∧ (MergeRequests.HasBody env bctx change → body ≠ []) := by
  obtain ⟨hl, hm, hd⟩ := h
  obtain ⟨labels, w₁, hlabels, hlu⟩ := remoteLabels_obliging env bctx.gitlabProjectId hl w
  obtain ⟨milestone, w₂, hmilestone, hmu⟩ :=
    remoteMilestoneId_obliging env bctx.gitlabProjectId hm w₁
  obtain ⟨description, hdescription, hdu⟩ := remoteDescription_obliging env hd w₂
  refine ⟨given "title" (change.field "title") ++ given "description" description ++
    given "labels" labels ++ given "milestone_id" milestone ++
    given "assignee_ids" (change.field "assigneeIds") ++
    given "state_event" (MergeRequests.remoteStateEvent env bctx (change.field "status")) ++
    given "target_branch" (change.field "targetBranch"), w₂, ?_, fun hbody => ?_⟩
  · unfold MergeRequests.remoteBody
    rw [bind_of_ok hlabels, bind_of_ok hmilestone, bind_of_ok hdescription]
    rfl
  · intro hempty
    simp only [List.append_eq_nil_iff, given_eq_nil, and_assoc] at hempty
    obtain ⟨htitle, hdescription', hlabels', hmilestone', hassignees, hstate, htarget⟩ := hempty
    obtain (⟨k, hk, hne⟩ | hne) | hne := hbody
    · simp only [MergeRequests.pushedFields, List.mem_cons, List.not_mem_nil, or_false] at hk
      obtain rfl | rfl | rfl | rfl | rfl := hk
      · exact hne htitle
      · exact hdu hne hdescription'
      · exact hlu hne hlabels'
      · exact hne hassignees
      · exact hne htarget
    · exact hmu hne hmilestone'
    · exact hne hstate

/-! ### What is sent for a mapped document -/

/-- The lookup by document fails, or answers from the id map. -/
theorem findByHuly_bind (env : Env) {A : Type} (workspaceUuid hulyClass : String) (hulyRef : Ref)
    (f : Option IdMapDoc → Sync A) (w : World) :
    (Sync.findByHuly env workspaceUuid hulyClass hulyRef >>= f).run w =
      match env.fault w .idmap with
      | some e => (.error e, w)
      | none => (f (w.idmap.findByHuly workspaceUuid hulyClass hulyRef)).run w := by
  rw [bind_run]
  unfold Sync.findByHuly Sync.reach
  rw [bind_run, step_run]
  cases env.fault w .idmap with
  | some e => rfl
  | none => rfl

section Mapped

variable {env : Env} {binding : BindingRef} {bctx : BindingContext} {doc : String} {change : Fields}
  {row : IdMapDoc} {w : World} {P : GitLabRequest → Prop}
  (hload : env.loadBinding binding = .ok bctx)
include hload

/-- The issue manager sends the body of the change to the issue of the row, of whatever kind
the row is. -/
theorem Issues.applyLocal_sends
    (hrow : w.idmap.findByHuly bctx.workspaceUuid issueClass (stripDocPrefix doc) = some row)
    (hprep : ∀ r, r.Preparing → P r)
    (hupdate : Issues.Pushable env bctx change → ∀ iid, parseIid row.gitlabId = some iid →
      ∀ body, P (.updateIssue bctx.gitlabProjectId iid body)) :
    Appends World.requests P w ((Issues.applyLocal env binding doc change).run w).2 := by
  unfold Issues.applyLocal Sync.loadBinding
  rw [hload, ofExcept_ok_bind_run]
  dsimp only
  rw [findByHuly_bind]
  cases env.fault w .idmap with
  | some e => exact Appends.refl w
  | none =>
    rw [hrow]
    refine Within.bind_of Appends.trans ((Issues.remoteBody_sends env bctx change).imp hprep)
      (fun w₁ body w₂ hbody => ?_) w
    dsimp only
    cases hiid : parseIid row.gitlabId with
    | none => exact Appends.refl w₂
    | some iid =>
      dsimp only
      by_cases hne : body = []
      · rw [if_pos hne]
        exact Appends.refl w₂
      · rw [if_neg hne]
        have hP := hupdate (Issues.pushable_of_body hbody hne) iid hiid body
        exact Sends.bind (Sends.request env hP) (fun _ => Sends.bind (Sends.of_writes
          (Writes.gets _) List.not_mem_nil) fun _ => Sends.of_writes
            (Writes.setCursor env (List.mem_singleton.mpr rfl) _ _ _) (by decide)) w₂

omit hload in
theorem MRApprovals.postComment_sends (issueRef : Ref) (body : String) :
    Sends P (MRApprovals.postComment env bctx issueRef body) := by
  have hwrites : Writes [.docs] (MRApprovals.postComment env bctx issueRef body) :=
    Writes.attempt (Writes.bind (Writes.createDoc env (List.mem_singleton.mpr rfl) _ _ _)
      fun _ => Writes.pure _) fun _ => Writes.pure _
  exact Sends.of_writes hwrites (by decide)

omit hload in
theorem MRApprovals.invokeApprovalAction_sends (issueRef : Ref) (iid : Int)
    (kind : MRApprovals.ApprovalAction) (person : JsValue)
    (hP : ∀ token, P (kind.request bctx.gitlabProjectId iid token)) :
    Sends P (MRApprovals.invokeApprovalAction env bctx issueRef iid kind person) := by
  unfold MRApprovals.invokeApprovalAction
  apply Sends.bind (Sends.ofExcept _)
  intro token
  apply Sends.bind (Sends.ofExcept _)
  intro _
  apply Sends.bind
  · exact Within.attempt Appends.trans
      (Sends.bind (Sends.request env (hP token)) fun _ => Sends.pure _) fun _ => Sends.pure _
  · intro done
    exact Sends.ite (Sends.ite (MRApprovals.postComment_sends _ _) (Sends.pure _))
      (MRApprovals.postComment_sends _ _)

omit hload in
theorem MRApprovals.applyApprovalActions_sends (issueRef : Ref) (iid : Int) (incoming : JsValue)
    (hP : (∃ items, incoming = .arr items) → ∀ (kind : MRApprovals.ApprovalAction) token,
      P (kind.request bctx.gitlabProjectId iid token)) :
    Sends P (MRApprovals.applyApprovalActions env bctx issueRef iid incoming) := by
  unfold MRApprovals.applyApprovalActions
  apply Sends.bind (Sends.of_writes (Writes.findOne env _ _) List.not_mem_nil)
  intro hulyIssue
  apply Sends.bind (Sends.ofExcept _)
  intro current
  cases incoming with
  | arr items =>
    apply Sends.bind (Sends.ofExcept _)
    intro incoming
    apply Sends.bind
    · exact Within.forEach Appends.refl Appends.trans fun person _ =>
        MRApprovals.invokeApprovalAction_sends issueRef iid _ person fun token =>
          hP ⟨items, rfl⟩ _ token
    · intro _
      exact Within.forEach Appends.refl Appends.trans fun person _ =>
        MRApprovals.invokeApprovalAction_sends issueRef iid _ person fun token =>
          hP ⟨items, rfl⟩ _ token
  | _ => exact Within.bind_of Appends.trans (Sends.ofExcept _) fun _ _ _ h => by cases h

/-- The change makes the merge request manager write. -/
structure MergeRequests.Pushable (env : Env) (bctx : BindingContext) (change : Fields) : Prop where
  translatable : Translatable env (mergeRequestRefUrl bctx) (imageUrl bctx) change
  carried : MergeRequests.HasBody env bctx change ∨
    ∃ items, change.field "approvedBy" = .arr items

omit hload in
theorem MergeRequests.pushChange_sends (hulyRef : Ref) (iid : Int)
    (hprep : ∀ r, r.Preparing → P r)
    (hupdate : MergeRequests.Pushable env bctx change →
      ∀ body, P (.updateMergeRequest bctx.gitlabProjectId iid body))
    (happrove : MergeRequests.Pushable env bctx change →
      ∀ (kind : MRApprovals.ApprovalAction) token,
        P (kind.request bctx.gitlabProjectId iid token)) :
    Sends P (MergeRequests.pushChange env bctx hulyRef iid change) := by
  apply Within.bind_of Appends.trans ((MergeRequests.remoteBody_sends env bctx change).imp hprep)
  intro w₁ body w₂ hbody
  obtain ⟨htranslatable, hcarried⟩ := MergeRequests.translatable_of_body hbody
  have hsend : Sends P (MergeRequests.sendUpdate env bctx iid body) := by
    unfold MergeRequests.sendUpdate
    by_cases hne : body = []
    · rw [if_pos hne]
      exact Sends.pure _
    · rw [if_neg hne]
      exact Sends.bind (Sends.request env (hupdate ⟨htranslatable, .inl (hcarried hne)⟩ body))
        fun _ => Sends.pure _
  exact Sends.bind hsend (fun _ => Sends.bind (Sends.ite (Sends.pure _)
    (MRApprovals.applyApprovalActions_sends hulyRef iid _ fun harr =>
      happrove ⟨htranslatable, .inr harr⟩)) fun _ => Sends.pure _) w₂

/-- So does the merge request manager. -/
theorem MergeRequests.applyLocal_sends
    (hrow : ∀ r, w.idmap.findByHuly bctx.workspaceUuid issueClass (stripDocPrefix doc) = some r →
      r = row)
    (hprep : ∀ r, r.Preparing → P r)
    (hupdate : MergeRequests.Pushable env bctx change → ∀ iid, parseIid row.gitlabId = some iid →
      ∀ body, P (.updateMergeRequest bctx.gitlabProjectId iid body))
    (happrove : MergeRequests.Pushable env bctx change → ∀ iid, parseIid row.gitlabId = some iid →
      ∀ (kind : MRApprovals.ApprovalAction) token,
        P (kind.request bctx.gitlabProjectId iid token)) :
    Appends World.requests P w ((MergeRequests.applyLocal env binding doc change).run w).2 := by
  unfold MergeRequests.applyLocal Sync.loadBinding
  rw [hload, ofExcept_ok_bind_run]
  dsimp only
  rw [findByHuly_bind]
  cases env.fault w .idmap with
  | some e => exact Appends.refl w
  | none =>
    cases hfound : w.idmap.findByHuly bctx.workspaceUuid issueClass (stripDocPrefix doc) with
    | none => exact Appends.refl w
    | some found =>
      obtain rfl := hrow found hfound
      dsimp only
      cases hiid : parseIid found.gitlabId with
      | none => exact Appends.refl w
      | some iid =>
        exact Sends.bind (MergeRequests.pushChange_sends _ iid hprep
          (fun h => hupdate h iid hiid) fun h => happrove h iid hiid) (fun _ =>
            Sends.ite (Sends.bind (Sends.of_writes (Writes.gets _) List.not_mem_nil) fun _ =>
              Sends.of_writes (Writes.setCursor env (List.mem_singleton.mpr rfl) _ _ _)
                (by decide)) (Sends.pure _)) w

omit hload in
theorem Notes.changeRemote_sends (noteId : Int) (parent : Notes.LocalParent)
    (hP : ∀ iid body, P (.updateNote bctx.gitlabProjectId iid noteId body) ∧
      P (.updateMRNote bctx.gitlabProjectId iid noteId body) ∧
      P (.deleteNote bctx.gitlabProjectId iid noteId) ∧
      P (.deleteMRNote bctx.gitlabProjectId iid noteId)) :
    Sends P (Notes.changeRemote env binding bctx noteId parent change) := by
  have htouch : Sends P (Notes.touchCursor env binding) :=
    Sends.of_writes (Writes.bind (Writes.gets _) fun _ =>
      Writes.setCursor env (List.mem_singleton.mpr rfl) _ _ _) (by decide)
  have hdelete : ∀ iid : Int, P (if parent.isMR then
      .deleteMRNote bctx.gitlabProjectId iid noteId
        else .deleteNote bctx.gitlabProjectId iid noteId) := by
    intro iid
    by_cases h : parent.isMR = true
    · rw [if_pos h]
      exact (hP iid []).2.2.2
    · rw [if_neg h]
      exact (hP iid []).2.2.1
  have hupdate : ∀ (iid : Int) (body : Fields), P (if parent.isMR then
      .updateMRNote bctx.gitlabProjectId iid noteId body
        else .updateNote bctx.gitlabProjectId iid noteId body) := by
    intro iid body
    by_cases h : parent.isMR = true
    · rw [if_pos h]
      exact (hP iid body).2.1
    · rw [if_neg h]
      exact (hP iid body).1
  exact Sends.ite (Sends.pure _) (Sends.ite
    (Sends.bind (Sends.ofExcept _) fun iid =>
      Sends.bind (Sends.request env (hdelete iid)) fun _ => htouch)
    (Sends.ite (Sends.bind (Sends.ofExcept _) fun text => Sends.bind (Sends.ofExcept _) fun iid =>
      Sends.bind (Sends.request env (hupdate iid _)) fun _ => htouch) (Sends.pure _)))

omit hload in
theorem Notes.resolveParent_sends : Sends P (Notes.resolveParent env bctx change) := by
  have hwrites : Writes [] (Notes.resolveParent env bctx change) := by
    apply Writes.ite (Writes.pure _)
    apply Writes.bind (Writes.findByHuly env _ _ _)
    intro parentMap
    cases parentMap with
    | none => exact Writes.pure _
    | some row =>
      dsimp only
      cases parseProjectIid row.gitlabId with
      | none => exact Writes.pure _
      | some parsed => exact Writes.pure _
  exact Sends.of_writes hwrites List.not_mem_nil

/-- The note manager writes to the note of the row only. -/
theorem Notes.applyLocal_sends
    (hrow : w.idmap.findByHuly bctx.workspaceUuid HULY_CLASS_CHAT_MESSAGE (stripDocPrefix doc) =
      some row)
    (hP : row.gitlabKind ≠ .review_thread → ∀ noteId, parseIid row.gitlabId = some noteId →
      ∀ iid body, P (.updateNote bctx.gitlabProjectId iid noteId body) ∧
        P (.updateMRNote bctx.gitlabProjectId iid noteId body) ∧
        P (.deleteNote bctx.gitlabProjectId iid noteId) ∧
        P (.deleteMRNote bctx.gitlabProjectId iid noteId)) :
    Appends World.requests P w ((Notes.applyLocal env binding doc change).run w).2 := by
  unfold Notes.applyLocal Sync.loadBinding
  by_cases hreview : change.field "kind" = .str "review"
  · rw [if_pos hreview]
    exact Appends.refl w
  · rw [if_neg hreview, hload, ofExcept_ok_bind_run]
    dsimp only
    rw [findByHuly_bind]
    cases env.fault w .idmap with
    | some e => exact Appends.refl w
    | none =>
      rw [hrow]
      dsimp only
      by_cases hthread : row.gitlabKind = .review_thread
      · rw [if_pos (by simp [hthread])]
        exact Appends.refl w
      · rw [if_neg (by simp [hthread])]
        refine Sends.bind Notes.resolveParent_sends (fun parent => ?_) w
        cases parent with
        | none => exact Sends.pure _
        | some parent =>
          dsimp only
          cases hid : parseIid row.gitlabId with
          | none => exact Sends.pure _
          | some noteId => exact Notes.changeRemote_sends noteId parent (hP hthread noteId hid)

/-- The review manager resolves the discussion of the row only. -/
theorem Reviews.applyLocal_sends
    (hP : ∀ r, w.idmap.findByHuly bctx.workspaceUuid HULY_CLASS_CHAT_MESSAGE (stripDocPrefix doc) =
      some r → r.gitlabKind = .review_thread → ∀ discussionId noteId,
        parseDiscussionNoteKey r.gitlabId = some (discussionId, noteId) →
        ∀ iid resolved, P (.resolveDiscussion bctx.gitlabProjectId iid discussionId resolved)) :
    Appends World.requests P w ((Reviews.applyLocal env binding doc change).run w).2 := by
  unfold Reviews.applyLocal Sync.loadBinding
  by_cases hresolved : change.field "resolved" = .undefined
  · rw [if_pos hresolved]
    exact Appends.refl w
  · rw [if_neg hresolved, hload, ofExcept_ok_bind_run]
    dsimp only
    rw [findByHuly_bind]
    cases env.fault w .idmap with
    | some e => exact Appends.refl w
    | none =>
      cases hfound : w.idmap.findByHuly bctx.workspaceUuid HULY_CLASS_CHAT_MESSAGE
          (stripDocPrefix doc) with
      | none => exact Appends.refl w
      | some row =>
        dsimp only
        by_cases hkind : row.gitlabKind = .review_thread
        · rw [if_neg (not_not.mpr hkind)]
          cases hkey : parseDiscussionNoteKey row.gitlabId with
          | none => exact Appends.refl w
          | some parsed =>
            dsimp only
            by_cases hhint : change.field "mergeRequestIid" = .undefined
            · rw [if_pos hhint]
              exact Appends.refl w
            · rw [if_neg hhint]
              exact Sends.bind (Sends.ofExcept _) (fun iid => Sends.bind (Sends.request env
                (hP row hfound hkind parsed.1 parsed.2 hkey iid _)) fun _ =>
                Sends.bind (Sends.of_writes (Writes.gets _) List.not_mem_nil) fun _ =>
                Sends.of_writes (Writes.setCursor env (List.mem_singleton.mpr rfl) _ _ _)
                  (by decide)) w
        · rw [if_pos hkind]
          exact Appends.refl w

/-- Obliging services bring a pushable change to the issue of the row. -/
theorem Issues.applyLocal_obliging (h : Issues.Pushable env bctx change)
    (hrow : w.idmap.findByHuly bctx.workspaceUuid issueClass (stripDocPrefix doc) = some row)
    {iid : Int} (hiid : parseIid row.gitlabId = some iid) :
    ∃ body, GitLabRequest.updateIssue bctx.gitlabProjectId iid body ∈
      ((Issues.applyLocal (env.served .obliging) binding doc change).run w).2.requests := by
  obtain ⟨body, w₁, hbody, hne⟩ := Issues.remoteBody_obliging h w
  have hserved : (env.served .obliging).loadBinding binding = .ok bctx := hload
  refine ⟨body, ?_⟩
  unfold Issues.applyLocal Sync.loadBinding
  rw [hserved, ofExcept_ok_bind_run]
  dsimp only
  rw [bind_of_ok (Sync.findByHuly_run (Services.obliging_healthy env) _ _ _ w), bind_of_ok hbody,
    hrow]
  dsimp only
  rw [hiid]
  dsimp only
  rw [if_neg hne]
  have hask : (Sync.request (env.served .obliging) (.updateIssue bctx.gitlabProjectId iid body)).run
      w₁ = (.ok (.obj [("id", .num 1), ("iid", .num 1)]),
        { w₁ with requests := w₁.requests ++ [.updateIssue bctx.gitlabProjectId iid body] }) := rfl
  rw [bind_of_ok hask, gets_bind_run,
    Sync.setCursor_run (Services.obliging_healthy env) binding .issues]
  exact List.mem_append_right _ List.mem_cons_self

omit hload in
/-- A request that was sent stays in the log. -/
theorem mem_requests_of_sends {A : Type} {m : Sync A} {P : GitLabRequest → Prop} (h : Sends P m)
    {r : GitLabRequest} {w : World} (hr : r ∈ w.requests) : r ∈ (m.run w).2.requests := by
  obtain ⟨rs, hrs, -⟩ := h w
  rw [hrs]
  exact List.mem_append_left rs hr

omit hload in
/-- A request stays in the log whatever is done with the answer. -/
theorem mem_requests_of_request {A : Type} {f : JsValue → Sync A} {P : GitLabRequest → Prop}
    (hf : ∀ v, Sends P (f v)) (env : Env) (r : GitLabRequest) (w : World) :
    r ∈ ((Sync.request env r >>= f).run w).2.requests := by
  rw [bind_run, Sync.request_run]
  cases env.gitlab w.requests r with
  | error e => exact List.mem_append_right _ List.mem_cons_self
  | ok v => exact mem_requests_of_sends (hf v) (List.mem_append_right _ List.mem_cons_self)

omit hload in
theorem MRApprovals.invoke_obliging (issueRef : Ref) (iid : Int)
    (kind : MRApprovals.ApprovalAction) (person : JsValue) (w : World) :
    kind.request bctx.gitlabProjectId iid none ∈
      ((MRApprovals.invokeApprovalAction (env.served .obliging) bctx issueRef iid kind
        person).run w).2.requests := by
  have hask : (MRApprovals.tryAction (env.served .obliging) bctx.gitlabProjectId iid none
      kind).run w = (.ok true,
        { w with requests := w.requests ++ [kind.request bctx.gitlabProjectId iid none] }) := by
    cases kind <;> rfl
  have htoken : (env.served .obliging).resolveActorToken bctx.workspaceUuid person = .ok none :=
    rfl
  unfold MRApprovals.invokeApprovalAction
  rw [htoken, ofExcept_ok_bind_run]
  unfold MRApprovals.validateActorTokenHeader
  rw [ofExcept_ok_bind_run, bind_of_ok hask]
  apply mem_requests_of_sends (P := fun _ => True)
  · exact Sends.ite (Sends.ite (MRApprovals.postComment_sends _ _) (Sends.pure _))
      (MRApprovals.postComment_sends _ _)
  · exact List.mem_append_right _ List.mem_cons_self

omit hload in
theorem MRApprovals.forEach_obliging (issueRef : Ref) (iid : Int)
    (kind : MRApprovals.ApprovalAction) {people : List JsValue} (hne : people ≠ []) (w : World) :
    kind.request bctx.gitlabProjectId iid none ∈
      ((Effect.forEach (MRApprovals.invokeApprovalAction (env.served .obliging) bctx issueRef iid
        kind) people).run w).2.requests := by
  obtain ⟨first, rest, rfl⟩ := List.exists_cons_of_ne_nil hne
  rw [forEach_cons, bind_run]
  have hfirst : kind.request bctx.gitlabProjectId iid none ∈
      ((MRApprovals.invokeApprovalAction (env.served .obliging) bctx issueRef iid kind
        first).run w).2.requests := MRApprovals.invoke_obliging issueRef iid kind first w
  cases h : (MRApprovals.invokeApprovalAction (env.served .obliging) bctx issueRef iid kind
      first).run w with
  | mk r w₁ =>
    rw [h] at hfirst
    cases r with
    | error e => exact hfirst
    | ok _ =>
      apply mem_requests_of_sends (P := fun _ => True) _ hfirst
      exact Within.forEach Appends.refl Appends.trans fun person _ =>
        MRApprovals.invokeApprovalAction_sends issueRef iid _ person fun _ => trivial

end Mapped

end HulyGitlab
