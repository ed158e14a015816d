import HulyGitlab.Sync.MirrorDiscipline

/-!
# Runs of handlers that create documents

Handlers of one class under every interleaving, with a record of the documents
they create for objects of GitLab and of the objects they create for documents.
A step either leaves all that alone or moves one handler by one call.
-/

namespace HulyGitlab

/-- What others do meanwhile; they have their own rows. -/
structure Elsewhere (c : MirrorClass) where
  change : World → World
  rows : ∀ w, c.SameRows w (change w)

/-- The handlers that run, with their phases, and what is there. -/
structure Creations (K L : Type) where
  tracked : Tracked K L (Option Unmapped) Await Err World
  /-- The documents that were created for objects. -/
  made : List Made
  /-- The objects that were created for documents. -/
  born : List Made

namespace Creations

section Steps

variable {K L : Type} [DecidableEq K] (env : Env) (c : MirrorClass) (key : L → K)
  (own : L → Option Ref) (code : L → Async Unit)

/-- No handler runs; what is mapped was created before. -/
def start (w : World) : Creations K L :=
  ⟨Tracked.idle none w,
    (w.idmap.rows.filter fun row =>
      row.workspaceUuid = c.workspaceUuid ∧ row.gitlabKind ∈ c.kinds).map
        fun row => ⟨row.gitlabKind, row.gitlabId, row.hulyRef⟩, []⟩

def world (s : Creations K L) : World := s.tracked.pool.state

/-- The job of a handler and the call that its next step makes. -/
def point (s : Creations K L) (k : K) : Option (L × Await) :=
  (s.tracked.pool.running k).bind fun job => job.2.next.map fun point => (job.1, point)

/-- What a step adds to the documents, and to the objects. -/
def makes (s : Creations K L) : Pool.Action K L (Elsewhere c) → List Made
  | .advance k => (s.point k).elim [] fun p =>
      Unmapped.makes env c (s.tracked.phase k) p.2 s.world
  | _ => []

def births (s : Creations K L) : Pool.Action K L (Elsewhere c) → List Made
  | .advance k => (s.point k).elim [] fun p =>
      Unmapped.births env c (own p.1) (s.tracked.phase k) p.2 s.world
  | _ => []

def step (s : Creations K L) (a : Pool.Action K L (Elsewhere c)) : Creations K L where
  tracked := s.tracked.step (fun job => mirrorDiscipline env c (own job)) key code
    Elsewhere.change none a
  made := s.made ++ s.makes env c a
  born := s.born ++ s.births env c own a

end Steps

end Creations

/-- What a call of a disciplined handler does to its phase, the rows and what is there. -/
inductive Unmapped.Moves (env : Env) (c : MirrorClass) (own : Option Ref) (w w' : World) :
    Option Unmapped → Await → Option Unmapped → List Made → List Made → Prop
  | aside {q : Option Unmapped} {point : Await} (hrows : c.SameRows w w') :
      Moves env c own w w' q point q [] []
  | opened {gitlabKind : GitlabKind} {gitlabId : String} (hmiss : c.Misses gitlabKind gitlabId w)
      (hrows : c.SameRows w w') :
      Moves env c own w w' none (.findByGitlab gitlabKind gitlabId)
        (some ⟨gitlabKind, gitlabId, none⟩) [] []
  | created {gitlabKind : GitlabKind} {gitlabId : String} {attributes : Fields}
      (hrows : c.SameRows w w') :
      Moves env c own w w' (some ⟨gitlabKind, gitlabId, none⟩)
        (.createDoc c.objectClass attributes)
        (some ⟨gitlabKind, gitlabId, some (env.generateId w.docs.keys)⟩)
        [⟨gitlabKind, gitlabId, env.generateId w.docs.keys⟩] []
  | born {r : GitLabRequest} {m : Made} (hborn : c.born env own r w = some m)
      (hrows : c.SameRows w w') :
      Moves env c own w w' none (.request r) (some m.unmapped) [] [m]
  | closed {doc : IdMapDoc} (hkind : doc.gitlabKind ∈ c.kinds)
      (hworkspace : doc.workspaceUuid = c.workspaceUuid)
      (hrow : w.idmap.upsert doc = .ok w'.idmap) :
      Moves env c own w w' (some ⟨doc.gitlabKind, doc.gitlabId, some doc.hulyRef⟩)
        (.upsertIdMap doc) none [] []
  | refused {doc : IdMapDoc} (hrefused : env.fault w .idmap ≠ none ∨ w.idmap.Conflicts doc)
      (hrows : c.SameRows w w') :
      Moves env c own w w' (some ⟨doc.gitlabKind, doc.gitlabId, some doc.hulyRef⟩)
        (.upsertIdMap doc) none [] []

variable {env : Env} {c : MirrorClass}

theorem MirrorClass.SameRows.of_idmap {w w' : World} (h : w'.idmap = w.idmap) : c.SameRows w w' :=
  fun _ _ _ => by rw [h]

/-- Rows of other kinds are not rows of the class. -/
theorem MirrorClass.SameRows.of_maps {doc : IdMapDoc} {w w' : World}
    (hkind : doc.gitlabKind ∉ c.kinds) (h : (Await.upsertIdMap doc).Maps env w w') :
    c.SameRows w w' := by
  obtain ⟨hsame, -⟩ | hrow := h
  · exact .of_idmap hsame
  · intro gitlabKind hmem gitlabId
    refine IdMap.findByGitlab_of_upsert hrow fun hkey => hkind ?_
    have hkinds : doc.gitlabKind = gitlabKind := congrArg (fun key => key.2.1) hkey
    rwa [hkinds]

theorem Unmapped.moves_of_allowed {own : Option Ref} {q : Option Unmapped} {point : Await}
    {w w' : World} (hkeeps : Unmapped.Keeps c own q point) (hmaps : point.Maps env w w') :
    Unmapped.Moves env c own w w' q point (Unmapped.after env c own q point w)
      (Unmapped.makes env c q point w) (Unmapped.births env c own q point w) := by
  cases point with
  | findByGitlab gitlabKind gitlabId =>
    have hrows : c.SameRows w w' := .of_idmap hmaps
    cases q with
    | some u => exact .aside hrows
    | none =>
      by_cases hmiss : c.Misses gitlabKind gitlabId w
      · rw [Unmapped.after, if_pos hmiss]
        exact .opened hmiss hrows
      · rw [Unmapped.after, if_neg hmiss]
        exact .aside hrows
  | request r =>
    have hrows : c.SameRows w w' := .of_idmap hmaps
    cases q with
    | some u => exact .aside hrows
    | none =>
      rw [Unmapped.after, Unmapped.births]
      cases hborn : c.born env own r w with
      | none => exact .aside hrows
      | some m => exact .born hborn hrows
  | createDoc objectClass attributes =>
    have hrows : c.SameRows w w' := .of_idmap hmaps
    cases q with
    | none => exact .aside hrows
    | some u =>
      by_cases hnew : objectClass = c.objectClass ∧ env.fault w .platform = none
      · rw [Unmapped.after, Unmapped.makes, if_pos hnew, if_pos hnew]
        obtain ⟨u', hu, hcreated⟩ := hkeeps hnew.1
        obtain rfl := Option.some.inj hu
        obtain ⟨gitlabKind, gitlabId, created⟩ := u
        obtain rfl : created = none := hcreated
        obtain ⟨rfl, -⟩ := hnew
        exact .created hrows
      · rw [Unmapped.after, Unmapped.makes, if_neg hnew, if_neg hnew]
        exact .aside hrows
  | upsertIdMap doc =>
    by_cases hkind : doc.gitlabKind ∈ c.kinds
    · obtain ⟨rfl, hworkspace⟩ := hkeeps hkind
      rw [Unmapped.after, if_pos hkind]
      obtain ⟨hsame, hrefused⟩ | hrow := hmaps
      · exact .refused hrefused (.of_idmap hsame)
      · exact .closed hkind hworkspace hrow
    · have hrows : c.SameRows w w' := .of_maps hkind hmaps
      cases q with
      | none => exact .aside hrows
      | some u =>
        rw [Unmapped.after, if_neg hkind]
        exact .aside hrows
  | _ => cases q <;> exact .aside (.of_idmap hmaps)

namespace Creations

variable {K L : Type} [DecidableEq K] {own : L → Option Ref} {s : Creations K L}

omit [DecidableEq K] in
theorem point_of_running {k : K} {job : L} {r : Async Unit}
    (h : s.tracked.pool.running k = some (job, r)) :
    s.point k = r.next.map fun point => (job, point) := by
  rw [point, h]
  rfl

theorem update_eq_some {phase : K → Option Unmapped} {k k' : K} {q : Option Unmapped}
    {u : Unmapped} (h : Function.update phase k q k' = some u) :
    (k' = k ∧ q = some u) ∨ (k' ≠ k ∧ phase k' = some u) := by
  by_cases hk : k' = k
  · subst hk
    rw [Function.update_self] at h
    exact .inl ⟨rfl, h⟩
  · rw [Function.update_of_ne hk] at h
    exact .inr ⟨hk, h⟩

/-- Handlers that follow the discipline of their job. -/
abbrev Disciplined (env : Env) (c : MirrorClass) (own : L → Option Ref) (s : Creations K L) : Prop :=
  s.tracked.Disciplined (fun job => mirrorDiscipline env c (own job)) none

/-- A step moves one handler by one call, ends one, or leaves phases and rows alone. -/
inductive Stepped (env : Env) (c : MirrorClass) (own : L → Option Ref) (s s' : Creations K L)
    (a : Pool.Action K L (Elsewhere c)) : Prop
  | still (hphase : s'.tracked.phase = s.tracked.phase) (hrows : c.SameRows s.world s'.world)
      (hmade : s'.made = s.made) (hborn : s'.born = s.born)
  | ended (k : K) (hfree : ∀ u ∈ s.tracked.phase k, u.created = none)
      (hphase : s'.tracked.phase = Function.update s.tracked.phase k none)
      (hworld : s'.world = s.world) (hmade : s'.made = s.made) (hborn : s'.born = s.born)
  | moved (k : K) (job : L) (point : Await) (q : Option Unmapped) (made born : List Made)
      (haction : a = .advance k) (hpoint : s.point k = some (job, point))
      (hmoves : Unmapped.Moves env c (own job) s.world s'.world (s.tracked.phase k) point q made
        born)
      (hphase : s'.tracked.phase = Function.update s.tracked.phase k q)
      (hmade : s'.made = s.made ++ made) (hborn : s'.born = s.born ++ born)

theorem stepped (key : L → K) (code : L → Async Unit) (h : s.Disciplined env c own)
    (a : Pool.Action K L (Elsewhere c)) :
    Stepped env c own s (s.step env c key own code a) a := by
  cases a with
  | start job =>
    have hworld : (s.step env c key own code (.start job)).world = s.world := by
      unfold Creations.step Tracked.step world
      cases hbusy : s.tracked.pool.running (key job) with
      | some r => rw [Pool.step_start_of_some hbusy]
      | none => rw [Pool.step_start_of_none hbusy]
    exact .still rfl (.of_idmap (congrArg World.idmap hworld)) (List.append_nil _)
      (List.append_nil _)
  | disturb x => exact .still rfl (x.rows _) (List.append_nil _) (List.append_nil _)
  | advance k =>
    have hfits := h k
    cases hrun : s.tracked.pool.running k with
    | none =>
      rw [hrun] at hfits
      have hpoint : s.point k = none := by rw [point, hrun]; rfl
      refine .ended k (fun u hu => ?_) ?_ ?_ ?_ ?_
      · rw [show s.tracked.phase k = none from hfits] at hu
        exact absurd hu (Option.some_ne_none u).symm
      · dsimp only [Creations.step, Tracked.step, Tracked.nextPhase]
        rw [hrun]
      · unfold Creations.step Tracked.step world
        rw [Pool.step_advance_of_none hrun]
      · exact (congrArg (s.made ++ ·) (by rw [makes, hpoint]; rfl)).trans (List.append_nil _)
      · exact (congrArg (s.born ++ ·) (by rw [births, hpoint]; rfl)).trans (List.append_nil _)
    | some running =>
      obtain ⟨job, r⟩ := running
      cases r with
      | done result =>
        have hpoint : s.point k = none := point_of_running hrun
        refine .ended k (h.mayFail hrun) ?_ ?_ ?_ ?_
        · dsimp only [Creations.step, Tracked.step, Tracked.nextPhase]
          rw [hrun]
        · unfold Creations.step Tracked.step world
          rw [Pool.step_advance_done hrun]
        · exact (congrArg (s.made ++ ·) (by rw [makes, hpoint]; rfl)).trans (List.append_nil _)
        · exact (congrArg (s.born ++ ·) (by rw [births, hpoint]; rfl)).trans (List.append_nil _)
      | await point act next =>
        have hpoint : s.point k = some (job, point) := point_of_running hrun
        obtain ⟨hkeeps, hmaps⟩ := h.allowed hrun
        have hworld : (s.step env c key own code (.advance k)).world = act s.world := by
          unfold Creations.step Tracked.step world
          rw [Pool.step_advance_await hrun]
        refine .moved k job point _ _ _ rfl hpoint
          (hworld.symm ▸ Unmapped.moves_of_allowed hkeeps hmaps) ?_ ?_ ?_
        · dsimp only [Creations.step, Tracked.step, Tracked.nextPhase]
          rw [hrun]
          rfl
        · exact congrArg (s.made ++ ·) (by rw [makes, hpoint]; rfl)
        · exact congrArg (s.born ++ ·) (by rw [births, hpoint]; rfl)

end Creations

end HulyGitlab
