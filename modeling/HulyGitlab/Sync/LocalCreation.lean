import HulyGitlab.Sync.NoteUniqueness

/-!
# Created from Huly, heard of from GitLab

`applyLocal` creates an object on GitLab and maps it a few awaits later. The
object is not forked as long as nobody looks it up in between.
-/

namespace HulyGitlab.Creations

section Conditions

variable {K L O : Type} (env : Env) (c : MirrorClass) (own : L → Option Ref) (object : String → O)

/-- An object that was created for a document has no other one, and its row is the document's. -/
def NotForked (s : Creations K L) : Prop :=
  ∀ b ∈ s.born, (∀ m ∈ s.made, object m.gitlabId ≠ object b.gitlabId) ∧
    (∀ b' ∈ s.born, object b'.gitlabId = object b.gitlabId → b'.ref = b.ref) ∧
    ∀ row ∈ s.world.idmap.findByGitlab c.workspaceUuid b.gitlabKind b.gitlabId,
      row.hulyRef = b.ref

/-- The number of an object is a new one. -/
def New (s : Creations K L) (m : Made) : Prop :=
  (∀ m' ∈ s.made ++ s.born, object m'.gitlabId ≠ object m.gitlabId) ∧
    (∀ k, ∀ u ∈ s.tracked.phase k, object u.gitlabId ≠ object m.gitlabId) ∧
    s.world.idmap.findByGitlab c.workspaceUuid m.gitlabKind m.gitlabId = none

/-- What GitLab creates has a new number, and what was created for a document is not looked up
before it has its row. -/
def Awaited (s : Creations K L) (job : L) : Await → Prop
  | .request r => ∀ m ∈ c.born env (own job) r s.world, s.New c object m
  | .findByGitlab gitlabKind gitlabId => c.Misses gitlabKind gitlabId s.world →
      ∀ b ∈ s.born, object gitlabId ≠ object b.gitlabId
  | _ => True

def InTurn (s : Creations K L) : Pool.Action K L (Elsewhere c) → Prop
  | .advance k => ∀ p ∈ s.point k, s.Awaited env c own object p.1 p.2
  | _ => True

section Decidability

variable [Fintype K] [DecidableEq O]

instance (s : Creations K L) (m : Made) : Decidable (s.New c object m) :=
  inferInstanceAs (Decidable (_ ∧ _ ∧ _))

instance (s : Creations K L) (job : L) : (point : Await) →
    Decidable (s.Awaited env c own object job point)
  | .findByGitlab _ _ => inferInstanceAs (Decidable (_ → _))
  | .request r =>
      inferInstanceAs (Decidable (∀ m ∈ c.born env (own job) r s.world, s.New c object m))
  | .loadBinding | .findPersonBySocialKey | .findByHuly | .findRows | .upsertIdMap _ | .getCursor
  | .setCursor | .findOne | .findAll | .createDoc _ _ | .updateDoc _ _ _ | .putMixin _ _ _ _
  | .mapRemoteState | .enqueueRecord | .now => inferInstanceAs (Decidable True)

instance (s : Creations K L) :
    (a : Pool.Action K L (Elsewhere c)) → Decidable (s.InTurn env c own object a)
  | .advance k =>
      inferInstanceAs (Decidable (∀ p ∈ s.point k, s.Awaited env c own object p.1 p.2))
  | .start _ => inferInstanceAs (Decidable True)
  | .disturb _ => inferInstanceAs (Decidable True)

end Decidability

end Conditions

variable {env : Env} {c : MirrorClass} {K L O : Type} [DecidableEq K] {object : String → O}
  {key : L → K} {own : L → Option Ref} {code : L → Async Unit}

/-- What holds of the objects that were created for documents, in every state of a run in turn. -/
structure Owned (c : MirrorClass) (object : String → O) (phase : K → Option Unmapped) (w : World)
    (made born : List Made) : Prop where
  kinds : ∀ b ∈ born, b.gitlabKind ∈ c.kinds
  single : ∀ b ∈ born, ∀ m ∈ made, object m.gitlabId ≠ object b.gitlabId
  agree : ∀ b ∈ born, ∀ b' ∈ born, object b'.gitlabId = object b.gitlabId → b'.ref = b.ref
  rows : ∀ b ∈ born, ∀ row ∈ w.idmap.findByGitlab c.workspaceUuid b.gitlabKind b.gitlabId,
    row.hulyRef = b.ref
  /-- Whoever is at the object pushes the document. -/
  pushed : ∀ b ∈ born, ∀ k u, phase k = some u → object u.gitlabId = object b.gitlabId →
    u.created = some b.ref

section Owned

variable {phase : K → Option Unmapped} {w w' : World} {made born : List Made} {k : K}

omit [DecidableEq K] in
theorem Owned.sameRows (h : Owned c object phase w made born) (hrows : c.SameRows w w') :
    Owned c object phase w' made born :=
  { h with rows := fun b hb => by rw [hrows _ (h.kinds b hb)]; exact h.rows b hb }

/-- A handler gets to a phase in which it pushes whatever was created for a document. -/
theorem Owned.turn (h : Owned c object phase w made born) {q : Option Unmapped}
    (hq : ∀ u ∈ q, ∀ b ∈ born, object u.gitlabId = object b.gitlabId → u.created = some b.ref) :
    Owned c object (Function.update phase k q) w made born :=
  { h with
    pushed := fun b hb k' u hu hobject => by
      obtain ⟨-, hu⟩ | ⟨-, hu⟩ := update_eq_some hu
      · exact hq u hu b hb hobject
      · exact h.pushed b hb k' u hu hobject }

theorem Owned.release (h : Owned c object phase w made born) :
    Owned c object (Function.update phase k none) w made born :=
  h.turn fun u hu => absurd hu (Option.some_ne_none u).symm

/-- A document for an object that a handler was at in vain. -/
theorem Owned.create (h : Owned c object phase w made born) {gitlabKind : GitlabKind}
    {gitlabId : String} (hk : phase k = some ⟨gitlabKind, gitlabId, none⟩) (ref : Ref) :
    Owned c object (Function.update phase k (some ⟨gitlabKind, gitlabId, some ref⟩)) w
      (made ++ [⟨gitlabKind, gitlabId, ref⟩]) born := by
  have hother : ∀ b ∈ born, object gitlabId ≠ object b.gitlabId := fun b hb hobject =>
    (Option.some_ne_none b.ref) (h.pushed b hb k _ hk hobject).symm
  have hturned := h.turn (k := k) (q := some ⟨gitlabKind, gitlabId, some ref⟩) fun u hu b hb => by
    obtain rfl := Option.some.inj hu
    exact fun hobject => absurd hobject (hother b hb)
  refine { hturned with single := fun b hb m hm => ?_ }
  obtain hm | hm := List.mem_append.mp hm
  · exact h.single b hb m hm
  · rw [List.mem_singleton.mp hm]
    exact hother b hb

/-- GitLab creates an object with a new number for the document that a handler pushes. -/
theorem Owned.newborn (h : Owned c object phase w made born) {m : Made} (hkind : m.gitlabKind ∈ c.kinds)
    (hnumbers : ∀ m' ∈ made ++ born, object m'.gitlabId ≠ object m.gitlabId)
    (hphases : ∀ k', ∀ u ∈ phase k', object u.gitlabId ≠ object m.gitlabId)
    (hrow : w.idmap.findByGitlab c.workspaceUuid m.gitlabKind m.gitlabId = none) :
    Owned c object (Function.update phase k (some m.unmapped)) w made (born ++ [m]) := by
  have hold : ∀ b ∈ born, object b.gitlabId ≠ object m.gitlabId :=
    fun b hb => hnumbers b (List.mem_append_right made hb)
  have hsplit : ∀ b ∈ born ++ [m], b ∈ born ∨ b = m := by
    intro b hb
    exact (List.mem_append.mp hb).imp id List.mem_singleton.mp
  refine ⟨fun b hb => ?_, fun b hb m' hm' => ?_, fun b hb b' hb' hobject => ?_,
    fun b hb row hfound => ?_, fun b hb k' u hu hobject => ?_⟩
  · obtain hb₀ | rfl := hsplit b hb
    · exact h.kinds b hb₀
    · exact hkind
  · obtain hb₀ | rfl := hsplit b hb
    · exact h.single b hb₀ m' hm'
    · exact hnumbers m' (List.mem_append_left born hm')
  · obtain hb₀ | rfl := hsplit b hb
    · obtain hb₁ | rfl := hsplit b' hb'
      · exact h.agree b hb₀ b' hb₁ hobject
      · exact absurd hobject.symm (hold b hb₀)
    · obtain hb₁ | rfl := hsplit b' hb'
      · exact absurd hobject (hold b' hb₁)
      · rfl
  · obtain hb₀ | rfl := hsplit b hb
    · exact h.rows b hb₀ row hfound
    · rw [hrow] at hfound
      exact absurd hfound (Option.some_ne_none row).symm
  · obtain ⟨-, hv⟩ | ⟨-, hv⟩ := update_eq_some hu
    · obtain rfl := Option.some.inj hv
      obtain hb₀ | rfl := hsplit b hb
      · exact absurd hobject.symm (hold b hb₀)
      · rfl
    · obtain hb₀ | rfl := hsplit b hb
      · exact h.pushed b hb₀ k' u hv hobject
      · exact absurd hobject (hphases k' u hv)

/-- A row is written for the document of the object by whoever is at it. -/
theorem Owned.closed (h : Owned c object phase w made born) {doc : IdMapDoc}
    (hk : phase k = some ⟨doc.gitlabKind, doc.gitlabId, some doc.hulyRef⟩)
    (hworkspace : doc.workspaceUuid = c.workspaceUuid)
    (hrow : w.idmap.upsert doc = .ok w'.idmap) :
    Owned c object (Function.update phase k none) w' made born := by
  refine { h.release with rows := fun b hb row hfound => ?_ }
  by_cases hkey : doc.gitlabKey = (c.workspaceUuid, b.gitlabKind, b.gitlabId)
  · obtain ⟨-, hkind, hid⟩ := Prod.mk.inj hkey |>.imp id Prod.mk.inj
    rw [← hworkspace, ← hkind, ← hid, IdMap.findByGitlab_of_upsert_self hrow] at hfound
    obtain rfl := Option.some.inj hfound
    exact Option.some.inj (h.pushed b hb k _ hk (congrArg object hid))
  · rw [IdMap.findByGitlab_of_upsert hrow hkey] at hfound
    exact h.rows b hb row hfound

end Owned

section Runs

variable {s s' : Creations K L} {w : World}

omit [DecidableEq K] in
theorem kind_of_born (hc : ∀ r answer, ∀ id ∈ c.created r answer, id.1 ∈ c.kinds)
    {own : Option Ref} {r : GitLabRequest} {m : Made} (h : c.born env own r w = some m) :
    m.gitlabKind ∈ c.kinds := by
  obtain ⟨ref, -, h⟩ := Option.bind_eq_some_iff.mp h
  obtain ⟨answer, -, h⟩ := Option.bind_eq_some_iff.mp h
  obtain ⟨id, hid, rfl⟩ := Option.map_eq_some_iff.mp h
  exact hc r answer id hid

/-- A call of a handler in its turn. -/
theorem Owned.moves (hc : ∀ r answer, ∀ id ∈ c.created r answer, id.1 ∈ c.kinds)
    {k : K} {job : L} {point : Await} {q : Option Unmapped} {made born : List Made}
    (h : Owned c object s.tracked.phase s.world s.made s.born)
    (hmoves : Unmapped.Moves env c (own job) s.world s'.world (s.tracked.phase k) point q made born)
    (hawaited : s.Awaited env c own object job point) :
    Owned c object (Function.update s.tracked.phase k q) s'.world (s.made ++ made)
      (s.born ++ born) := by
  generalize hphase : s.tracked.phase k = q' at hmoves
  cases hmoves with
  | aside hrows =>
    rw [← hphase, Function.update_eq_self, List.append_nil, List.append_nil]
    exact h.sameRows hrows
  | opened hmiss hrows =>
    rw [List.append_nil, List.append_nil]
    refine (h.turn fun u hu b hb hobject => ?_).sameRows hrows
    obtain rfl := Option.some.inj hu
    exact absurd hobject (hawaited hmiss b hb)
  | created hrows =>
    rw [List.append_nil]
    exact (h.create hphase _).sameRows hrows
  | @born r m hborn hrows =>
    obtain ⟨hnumbers, hphases, hrow⟩ := hawaited m hborn
    rw [List.append_nil]
    exact (h.newborn (kind_of_born hc hborn) hnumbers hphases hrow).sameRows hrows
  | closed hkind hworkspace hrow =>
    rw [List.append_nil, List.append_nil]
    exact h.closed hphase hworkspace hrow
  | refused hrefused hrows =>
    rw [List.append_nil, List.append_nil]
    exact h.release.sameRows hrows

/-- What holds in every state of a run in turn. -/
structure Attended (env : Env) (c : MirrorClass) (own : L → Option Ref) (object : String → O)
    (s : Creations K L) : Prop where
  disciplined : s.Disciplined env c own
  owned : Owned c object s.tracked.phase s.world s.made s.born

theorem Attended.step (hc : ∀ r answer, ∀ id ∈ c.created r answer, id.1 ∈ c.kinds)
    (hcode : ∀ job, Mirrors env c (own job) (code job)) (h : s.Attended env c own object)
    {a : Pool.Action K L (Elsewhere c)} (ha : s.InTurn env c own object a) :
    (s.step env c key own code a).Attended env c own object := by
  refine ⟨h.disciplined.step hcode a, ?_⟩
  obtain ⟨hphase, hrows, hmade, hborn⟩ | ⟨k, -, hphase, hworld, hmade, hborn⟩ |
    ⟨k, job, point, q, made, born, rfl, hpoint, hmoves, hphase, hmade, hborn⟩ :=
      stepped key code h.disciplined a
  · rw [hphase, hmade, hborn]
    exact h.owned.sameRows hrows
  · rw [hphase, hworld, hmade, hborn]
    exact h.owned.release
  · rw [hphase, hmade, hborn]
    exact h.owned.moves hc hmoves (ha _ hpoint)

omit [DecidableEq K] in
theorem attended_start (w : World) :
    (start c w : Creations K L).Attended env c own object := by
  refine ⟨Tracked.disciplined_idle w, ⟨?_, ?_, ?_, ?_, ?_⟩⟩
  all_goals intro b hb
  all_goals exact absurd hb List.not_mem_nil

/-- Where all steps are in turn, no object that was created for a document is forked. -/
theorem notForked_of_inTurn (hc : ∀ r answer, ∀ id ∈ c.created r answer, id.1 ∈ c.kinds)
    (hcode : ∀ job, Mirrors env c (own job) (code job))
    {acts : List (Pool.Action K L (Elsewhere c))} {w : World}
    (h : Transition.Along (step env c key own code) (InTurn env c own object) (start c w) acts) :
    Transition.Throughout (step env c key own code) (NotForked c object) (start c w) acts := by
  refine Transition.throughout_of_along h fun as has => ?_
  have hattended : Attended env c own object
      (Transition.exec (step env c key own code) (start c w) as) :=
    Transition.exec_invariant (fun _ _ hs ha => hs.step hc hcode ha) (attended_start w) has
  obtain ⟨-, -, hsingle, hagree, hrows, -⟩ := hattended
  exact fun b hb => ⟨hsingle b hb, hagree b hb, hrows b hb⟩

end Runs

end HulyGitlab.Creations

namespace HulyGitlab

/-- What both sides create. -/
inductive Shared
  | issue
  | note

/-- A change that comes from Huly, or an event that comes from GitLab. -/
inductive Crossing : Shared → Type
  | pushIssue (doc : String) (change : Fields) : Crossing .issue
  | issue (record : Fields) : Crossing .issue
  | pushNote (doc : String) (change : Fields) : Crossing .note
  | note (e : NoteEvent) : Crossing .note

def Shared.mirrors (env : Env) (bctx : BindingContext) : Shared → MirrorClass
  | .issue => issueMirrors env bctx
  | .note => noteMirrors env bctx

namespace Crossing

variable {x : Shared}

/-- The document that is pushed. -/
def own : Crossing x → Option Ref
  | .pushIssue doc _ => some (stripDocPrefix doc)
  | .issue _ => none
  | .pushNote doc _ => some (stripDocPrefix doc)
  | .note _ => none

def handle (env : Env) (binding : BindingRef) : Crossing x → Async Unit
  | .pushIssue doc change => Issues.Awaits.applyLocal env binding doc change
  | .issue record => Issues.Awaits.applyRemote env binding record
  | .pushNote doc change => Notes.Awaits.applyLocal env binding doc change
  | .note e => e.handle env binding

theorem mirrors (env : Env) {binding : BindingRef} {bctx : BindingContext}
    (hload : env.loadBinding binding = .ok bctx) (e : Crossing x) :
    Mirrors env (x.mirrors env bctx) e.own (e.handle env binding) := by
  cases e with
  | pushIssue doc change => exact Issues.Awaits.mirrors_applyLocal env hload doc change
  | issue record => exact Issues.Awaits.mirrors_applyRemote env hload record
  | pushNote doc change => exact Notes.Awaits.mirrors_applyLocal env hload doc change
  | note e => exact e.mirrors env hload

end Crossing

/-- What a request creates is of the class. -/
theorem Shared.mem_kinds (env : Env) (bctx : BindingContext) (x : Shared) (r : GitLabRequest)
    (answer : JsValue) :
    ∀ id ∈ (x.mirrors env bctx).created r answer, id.1 ∈ (x.mirrors env bctx).kinds := by
  intro id hid
  cases x with
  | issue =>
    cases r
    case createIssue =>
      obtain ⟨iid, -, rfl⟩ := Option.map_eq_some_iff.mp hid
      exact List.mem_cons_self
    all_goals exact absurd hid (Option.some_ne_none id).symm
  | note =>
    cases r
    case createNote | createMRNote =>
      obtain ⟨noteId, -, rfl⟩ := Option.map_eq_some_iff.mp hid
      exact List.mem_cons_self
    all_goals exact absurd hid (Option.some_ne_none id).symm

namespace CrossingRuns

variable {K : Type} [DecidableEq K] (env : Env) (binding : BindingRef) (bctx : BindingContext)
  (x : Shared)

/-- The handlers of workers, and what else goes on. -/
def step : Creations K (K × Crossing x) →
    Pool.Action K (K × Crossing x) (Elsewhere (x.mirrors env bctx)) →
      Creations K (K × Crossing x) :=
  Creations.step env (x.mirrors env bctx) Prod.fst (fun job => job.2.own) fun job =>
    job.2.handle env binding

def start (w : World) : Creations K (K × Crossing x) := Creations.start (x.mirrors env bctx) w

/-- No object, told by the number its keys end in, has another document than the one it was created
for. -/
abbrev NotForked (s : Creations K (K × Crossing x)) : Prop :=
  s.NotForked (x.mirrors env bctx) parseIid

abbrev InTurn (s : Creations K (K × Crossing x))
    (a : Pool.Action K (K × Crossing x) (Elsewhere (x.mirrors env bctx))) : Prop :=
  s.InTurn env (x.mirrors env bctx) (fun job => job.2.own) parseIid a

end CrossingRuns

/-- Under any interleaving whose steps are in turn, no object created from Huly is forked. -/
theorem notForked_of_awaited {K : Type} [DecidableEq K] (x : Shared) (env : Env)
    (binding : BindingRef) (bctx : BindingContext) (hload : env.loadBinding binding = .ok bctx)
    (w : World) (acts : List (Pool.Action K (K × Crossing x) (Elsewhere (x.mirrors env bctx))))
    (h : Transition.Along (CrossingRuns.step env binding bctx x) (CrossingRuns.InTurn env bctx x)
      (CrossingRuns.start env bctx x w) acts) :
    Transition.Throughout (CrossingRuns.step env binding bctx x) (CrossingRuns.NotForked env bctx x)
      (CrossingRuns.start env bctx x w) acts :=
  Creations.notForked_of_inTurn (x.mem_kinds env bctx) (fun job => job.2.mirrors env hload) h

section Examples

/-- GitLab gives the first issue of the project the number 5. -/
def numbering : Env :=
  { Env.quiet quietBinding with gitlab := fun _ _ => .ok (.obj [("iid", .num 5)]) }

/-- An issue that a user writes. -/
def written : Crossing .issue :=
  .pushIssue "doc" [("title", .str "t")]

/-- The issue as GitLab tells of it. -/
def heard : Crossing .issue :=
  .issue [("iid", .num 5), ("title", .str "t"), ("state", .str "opened"), ("labels", .arr []),
    ("assignees", .arr []), ("milestone", .null), ("updatedAt", .num 9)]

/-- A worker handles an event, by so many steps. -/
def handled {x : Shared} (k : Bool) (e : Crossing x) (n : Nat) :
    List (Pool.Action Bool (Bool × Crossing x) (Elsewhere (x.mirrors numbering quietBinding))) :=
  .start (k, e) :: List.replicate n (.advance k)

theorem notForked_of_laterDelivery :
    Transition.Throughout (CrossingRuns.step numbering "b" quietBinding .issue)
      (CrossingRuns.NotForked numbering quietBinding .issue)
      (CrossingRuns.start numbering quietBinding .issue World.initial)
      (handled true written 7 ++ handled false heard 7) :=
  notForked_of_awaited .issue numbering "b" quietBinding rfl World.initial _ (by decide +kernel)

/-- The delivery comes between the creation of the issue and its row. -/
theorem forked_by_earlyDelivery :
    ¬ ∀ acts, Transition.Throughout (CrossingRuns.step numbering "b" quietBinding .issue)
      (CrossingRuns.NotForked numbering quietBinding .issue)
      (CrossingRuns.start numbering quietBinding .issue World.initial :
        Creations Bool (Bool × Crossing .issue)) acts := by
  intro h
  have hstate : (fun s : Creations Bool (Bool × Crossing .issue) => (s.made, s.born))
      (Transition.exec (CrossingRuns.step numbering "b" quietBinding .issue)
        (CrossingRuns.start numbering quietBinding .issue World.initial)
        (handled true written 3 ++ handled false heard 7)) =
      ([⟨.issue, "7:5", "x"⟩], [⟨.issue, "7:5", "doc"⟩]) := by
    decide +kernel
  obtain ⟨hmade, hborn⟩ := Prod.mk.inj hstate
  have hforked := (h (handled true written 3 ++ handled false heard 7)).last
  unfold CrossingRuns.NotForked Creations.NotForked at hforked
  rw [hborn, hmade] at hforked
  exact (hforked _ List.mem_cons_self).1 _ List.mem_cons_self rfl

end Examples

end HulyGitlab
