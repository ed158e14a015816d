import HulyGitlab.Sync.Arrivals

/-!
# Confidential objects

Nothing of a confidential object is enqueued, and the mirrors come out as if it
were not there: so it is where the lists and the route filter, which is not
everywhere.
-/

namespace HulyGitlab.Arrivals

open Adapter

/-! ### Runs without their confidential objects -/

def ListAnswer.strip : ListAnswer → List ListAnswer
  | .issues items => [.issues (items.filter fun raw => !raw.confidential)]
  | .issueNotes issueIid items =>
      [.issueNotes issueIid (items.filter fun raw => !raw.confidential.getD false)]
  | .mergeRequests items => [.mergeRequests (items.filter fun raw => !raw.confidential)]
  | .mrNotes mrIid items =>
      [.mrNotes mrIid (items.filter fun raw => !raw.confidential.getD false)]
  | .discussions mrIid items => [.discussions mrIid (items.filter fun d => !d.confidential)]
  | .epic raw children =>
      if raw.confidential.getD false then []
      else [.epic raw (children.filter fun child => !child.confidential)]

def Arrival.strip : Arrival → List Arrival
  | .answer binding gitlabProjectId listed =>
      listed.strip.map (.answer binding gitlabProjectId)
  | .hook q req => if hookConfidential req then [] else [.hook q req]

/-- No confidential object is enqueued, and none changes what is mirrored. -/
structure Sealed (env : Env) (run : List Arrival) : Prop where
  withheld : ∀ r ∈ enqueued run, r.confidential = false
  unseen : ∀ w, mirrored env w run = mirrored env w (run.flatMap Arrival.strip)

/-! ### Where nothing filters -/

/-- The answer has no confidential object where the list call keeps all: merge requests, the notes
of merge requests that users wrote, discussions that can be mapped, epics and their children. -/
def ListAnswer.Shielded : ListAnswer → Prop
  | .issues _ => True
  | .issueNotes _ _ => True
  | .mergeRequests items => ∀ raw ∈ items, raw.confidential = false
  | .mrNotes _ items => ∀ raw ∈ items, raw.confidential = some true → raw.system = true
  | .discussions _ items => ∀ d ∈ items, d.confidential = true →
      d.raw.notes = [] ∨ d.raw.notes.any unsupportedPosition = true
  | .epic raw children =>
      raw.confidential ≠ some true ∧ ∀ child ∈ children, child.confidential = false

/-- A delivery is no confidential note that the route lets through. -/
def Arrival.Shielded : Arrival → Prop
  | .answer _ _ listed => listed.Shielded
  | .hook q req => ¬ (Webhook.checkCaller q req = .ok () ∧
      req.eventHeader = some Webhook.noteEventHeader ∧
        Webhook.routeNote req.payload = .enqueue "note" ∧ Webhook.isConfidential req.payload = true)

theorem getD_eq_false_iff (confidential : Option Bool) :
    confidential.getD false = false ↔ confidential ≠ some true := by
  cases confidential with
  | none => simp
  | some b => cases b <;> simp

theorem mapDiscussion_eq_none_iff (raw : RawDiscussion) (projectId mrIid : Int) :
    mapDiscussion raw projectId mrIid = none ↔
      raw.notes = [] ∨ raw.notes.any unsupportedPosition = true := by
  unfold mapDiscussion
  cases hnotes : raw.notes with
  | nil => exact ⟨fun _ => .inl rfl, fun _ => rfl⟩
  | cons rootNote notes =>
    dsimp only
    split_ifs with hunsupported
    · exact ⟨fun _ => .inr hunsupported, fun _ => rfl⟩
    · exact ⟨nofun, fun h => h.elim nofun fun h => absurd h hunsupported⟩

theorem routeNote_enqueue {payload : Fields} {kind : String}
    (h : Webhook.routeNote payload = .enqueue kind) : kind = "note" := by
  unfold Webhook.routeNote at h
  dsimp only at h
  split_ifs at h
  · exact (Webhook.Routed.enqueue.inj h).symm
  · exact (Webhook.Routed.enqueue.inj h).symm

/-- A confidential object is let through by a delivery only if this is a note. -/
theorem hook_enqueues_confidential_iff (q : Webhook.Lookups) (req : Webhook.WebhookRequest) :
    (∃ e, (Webhook.handle q req).2 = some e ∧ hookConfidential req = true) ↔
      ¬ (Arrival.hook q req).Shielded := by
  have hheader : hookConfidential req = true ↔
      req.eventHeader ≠ some Webhook.pipelineEventHeader ∧
        Webhook.isConfidential req.payload = true := by
    rw [hookConfidential, Bool.and_eq_true, decide_eq_true_eq]
  rw [Arrival.Shielded, not_not, hheader]
  constructor
  · rintro ⟨e, he, hne, hconf⟩
    obtain ⟨hcaller, kind, hroute, -⟩ := (Webhook.handle_enqueues_iff q).mp he
    obtain hpipeline | ⟨hnote, hkind⟩ := Webhook.route_of_confidential hconf hroute
    · exact absurd hpipeline hne
    · obtain rfl := routeNote_enqueue hkind
      exact ⟨hcaller, hnote, hkind, hconf⟩
  · rintro ⟨hcaller, hnote, hkind, hconf⟩
    have hroute : Webhook.route req.payload req.eventHeader = .enqueue "note" := by
      rw [hnote]
      exact hkind
    refine ⟨_, (Webhook.handle_enqueues_iff q).mpr ⟨hcaller, "note", hroute, rfl⟩, ?_, hconf⟩
    rw [hnote]
    decide

section Answers

variable (binding : BindingRef) (gitlabProjectId : Int)

theorem keepNote_of_confidential {raw : RawNote} (h : raw.confidential = some true) :
    keepNote raw = none := if_pos h

/-- The events of an answer have nothing confidential exactly when it is shielded. -/
theorem ListAnswer.withheld_iff (listed : ListAnswer) :
    (∀ r ∈ listed.enqueues binding gitlabProjectId, r.confidential = false) ↔ listed.Shielded := by
  cases listed with
  | issues items =>
    refine iff_of_true (fun r hr => ?_) trivial
    obtain ⟨raw, -, hraw⟩ := List.mem_filterMap.mp hr
    obtain ⟨i, hkeep, rfl⟩ := Option.map_eq_some_iff.mp hraw
    unfold keepIssue at hkeep
    split_ifs at hkeep with hconf
    exact Bool.eq_false_iff.mpr hconf
  | issueNotes issueIid items =>
    refine iff_of_true (fun r hr => ?_) trivial
    obtain ⟨raw, -, hraw⟩ := List.mem_filterMap.mp hr
    obtain ⟨item, hitem, rfl⟩ := Option.map_eq_some_iff.mp hraw
    obtain ⟨n, hkeep, -⟩ := Option.bind_eq_some_iff.mp hitem
    unfold keepNote at hkeep
    split_ifs at hkeep with hconf
    exact (getD_eq_false_iff _).mpr hconf
  | mergeRequests items =>
    constructor
    · intro h raw hraw
      exact h _ (List.mem_map.mpr ⟨raw, hraw, rfl⟩)
    · intro h r hr
      obtain ⟨raw, hraw, rfl⟩ := List.mem_map.mp hr
      exact h raw hraw
  | mrNotes mrIid items =>
    constructor
    · intro h raw hraw hconf
      by_contra hsystem
      have hitem : unlessSystem (mapMRNote raw) (.mrNote mrIid (listedNote (mapMRNote raw))) =
          some (.mrNote mrIid (listedNote (mapMRNote raw))) := if_neg hsystem
      have hflag := h _ (List.mem_filterMap.mpr
        ⟨raw, hraw, Option.map_eq_some_iff.mpr ⟨_, hitem, rfl⟩⟩)
      exact (getD_eq_false_iff _).mp hflag hconf
    · intro h r hr
      obtain ⟨raw, hraw, hmap⟩ := List.mem_filterMap.mp hr
      obtain ⟨item, hitem, rfl⟩ := Option.map_eq_some_iff.mp hmap
      refine (getD_eq_false_iff _).mpr fun hconf => ?_
      have hsystem : (mapMRNote raw).system = true := h raw hraw hconf
      rw [unlessSystem, if_pos hsystem] at hitem
      cases hitem
  | discussions mrIid items =>
    constructor
    · intro h d hd hconf
      refine (mapDiscussion_eq_none_iff d.raw gitlabProjectId mrIid).mp ?_
      refine Option.eq_none_iff_forall_ne_some.mpr fun t ht => ?_
      have hflag := h _ (List.mem_filterMap.mpr
        ⟨d, hd, Option.map_eq_some_iff.mpr ⟨t, ht, rfl⟩⟩)
      exact absurd hconf (Bool.eq_false_iff.mp hflag)
    · intro h r hr
      obtain ⟨d, hd, hmap⟩ := List.mem_filterMap.mp hr
      obtain ⟨t, ht, rfl⟩ := Option.map_eq_some_iff.mp hmap
      refine Bool.eq_false_iff.mpr fun hconf => ?_
      rw [(mapDiscussion_eq_none_iff d.raw gitlabProjectId mrIid).mpr (h d hd hconf)] at ht
      cases ht
  | epic raw children =>
    have hflag : ((raw.confidential.getD false || children.any ListedChild.confidential) = false) ↔
        raw.confidential ≠ some true ∧ ∀ child ∈ children, child.confidential = false := by
      rw [Bool.or_eq_false_iff, getD_eq_false_iff, List.any_eq_false]
      exact and_congr_right fun _ => forall₂_congr fun _ _ => Bool.not_eq_true _ ▸ Iff.rfl
    constructor
    · intro h
      exact hflag.mp (h _ List.mem_cons_self)
    · intro h r hr
      obtain rfl := List.mem_singleton.mp hr
      exact hflag.mpr h

theorem filterMap_filter_of_none {A B : Type} {f : A → Option B} {p : A → Bool} {items : List A}
    (h : ∀ a ∈ items, p a = false → f a = none) :
    (items.filter p).filterMap f = items.filterMap f := by
  rw [List.filterMap_filter]
  refine List.filterMap_congr fun a ha => ?_
  split_ifs with hp
  · rfl
  · exact (h a ha (Bool.eq_false_iff.mpr hp)).symm

/-- What is left of a shielded answer is enqueued as before. -/
theorem ListAnswer.enqueues_strip {listed : ListAnswer} (h : listed.Shielded) :
    listed.strip.flatMap (ListAnswer.enqueues binding gitlabProjectId) =
      listed.enqueues binding gitlabProjectId := by
  cases listed with
  | issues items =>
    refine (List.flatMap_singleton _ _).trans (filterMap_filter_of_none fun raw _ hp => ?_)
    have hkeep : keepIssue raw = none := if_pos (by simpa using hp)
    rw [hkeep]
    rfl
  | issueNotes issueIid items =>
    refine (List.flatMap_singleton _ _).trans (filterMap_filter_of_none fun raw _ hp => ?_)
    have hconf : raw.confidential = some true := by
      by_contra hne
      rw [(getD_eq_false_iff _).mpr hne] at hp
      cases hp
    rw [keepNote_of_confidential hconf]
    rfl
  | mergeRequests items =>
    refine (List.flatMap_singleton _ _).trans ?_
    have hall : items.filter (fun raw => !raw.confidential) = items :=
      List.filter_eq_self.mpr fun raw hraw => by rw [h raw hraw]; rfl
    rw [hall]
  | mrNotes mrIid items =>
    refine (List.flatMap_singleton _ _).trans (filterMap_filter_of_none fun raw hraw hp => ?_)
    have hconf : raw.confidential = some true := by
      by_contra hne
      rw [(getD_eq_false_iff _).mpr hne] at hp
      cases hp
    have hsystem : (mapMRNote raw).system = true := h raw hraw hconf
    rw [unlessSystem, if_pos hsystem]
    rfl
  | discussions mrIid items =>
    refine (List.flatMap_singleton _ _).trans (filterMap_filter_of_none fun d hd hp => ?_)
    have hnone := (mapDiscussion_eq_none_iff d.raw gitlabProjectId mrIid).mpr
      (h d hd (by simpa using hp))
    rw [hnone]
    rfl
  | epic raw children =>
    have hraw : raw.confidential.getD false = false := (getD_eq_false_iff _).mpr h.1
    have hall : children.filter (fun child => !child.confidential) = children :=
      List.filter_eq_self.mpr fun child hchild => by rw [h.2 child hchild]; rfl
    rw [ListAnswer.strip, hraw, hall]
    exact List.flatMap_singleton _ _

end Answers

/-! ### Runs -/

theorem Arrival.withheld_iff (a : Arrival) :
    (∀ r ∈ a.enqueues, r.confidential = false) ↔ a.Shielded := by
  cases a with
  | answer binding gitlabProjectId listed => exact listed.withheld_iff binding gitlabProjectId
  | hook q req =>
    rw [← not_iff_not, ← hook_enqueues_confidential_iff]
    push Not
    constructor
    · rintro ⟨r, hr, hconf⟩
      obtain ⟨e, he, rfl⟩ := List.mem_map.mp hr
      exact ⟨e, Option.mem_toList.mp he, (Bool.not_eq_false _).mp hconf⟩
    · rintro ⟨e, he, hconf⟩
      refine ⟨⟨e, hookConfidential req⟩, List.mem_map.mpr ⟨e, Option.mem_toList.mpr he, rfl⟩, ?_⟩
      exact (Bool.not_eq_false _).mpr hconf

theorem Arrival.enqueues_strip {a : Arrival} (h : a.Shielded) :
    a.strip.flatMap Arrival.enqueues = a.enqueues := by
  cases a with
  | answer binding gitlabProjectId listed =>
    rw [Arrival.strip, List.flatMap_map]
    exact ListAnswer.enqueues_strip binding gitlabProjectId h
  | hook q req =>
    rw [Arrival.strip]
    split_ifs with hconf
    · -- a confidential delivery that is shielded enqueues nothing
      have hnone : (Webhook.handle q req).2 = none := by
        refine Option.eq_none_iff_forall_ne_some.mpr fun e he => ?_
        exact (hook_enqueues_confidential_iff q req).mp ⟨e, he, hconf⟩ h
      rw [Arrival.enqueues, hnone]
      rfl
    · exact List.flatMap_singleton _ _

theorem enqueued_strip {run : List Arrival} (h : ∀ a ∈ run, a.Shielded) :
    enqueued (run.flatMap Arrival.strip) = enqueued run := by
  rw [enqueued, enqueued, List.flatMap_assoc]
  exact List.flatMap_congr fun a ha => Arrival.enqueues_strip (h a ha)

/-- A run keeps what is confidential exactly when it brings none where nothing filters. -/
theorem sealed_iff (env : Env) (run : List Arrival) :
    Sealed env run ↔ ∀ a ∈ run, a.Shielded := by
  constructor
  · intro h a ha
    refine a.withheld_iff.mp fun r hr => h.withheld r ?_
    exact List.mem_flatMap.mpr ⟨a, ha, hr⟩
  · intro h
    refine ⟨fun r hr => ?_, fun w => ?_⟩
    · obtain ⟨a, ha, hra⟩ := List.mem_flatMap.mp hr
      exact a.withheld_iff.mpr (h a ha) r hra
    · rw [mirrored, mirrored, enqueued_strip h]

/-- Two such runs that differ in confidential objects only mirror the same. -/
theorem mirrored_eq_of_strip_eq {env : Env} {run other : List Arrival} (hrun : Sealed env run)
    (hother : Sealed env other)
    (h : run.flatMap Arrival.strip = other.flatMap Arrival.strip) (w : World) :
    mirrored env w run = mirrored env w other := by
  rw [hrun.unseen, hother.unseen, h]

/-- An internal note of a merge request. -/
def internalNote : RawNote where
  id := 9
  body := "not for everyone"
  author := ⟨1, "root", "Root", none, none, "https://gitlab/root"⟩
  created_at := 5
  updated_at := 5
  system := false
  confidential := some true

theorem not_sealed_internalNote : ¬ ∀ (env : Env) (run : List Arrival), Sealed env run := by
  intro h
  have hflag := (h (.quiet quietBinding)
    [.answer "b" 7 (.mrNotes 4 [internalNote])]).withheld _ List.mem_cons_self
  cases hflag

end HulyGitlab.Arrivals
