import HulyGitlab.Sync.CreationRuns
import Mathlib.Data.Fintype.Basic

/-!
# One document for an object

An object of GitLab gets one document as long as no handler looks it up in vain
under a second key, nor while another handler is at it, and the id map takes
the row of each document.
-/

namespace HulyGitlab.Creations

section Conditions

variable {K L O : Type} (env : Env) (c : MirrorClass) (object : String → O)

/-- No object has two documents. -/
def Once (s : Creations K L) : Prop :=
  ∀ m ∈ s.made, ∀ m' ∈ s.made, object m.gitlabId = object m'.gitlabId → m.ref = m'.ref

/-- The documents of the object were created under this key, and no other handler is between its
lookup of the object and the row. -/
def Alone (s : Creations K L) (k : K) (gitlabKind : GitlabKind) (gitlabId : String) : Prop :=
  (∀ m ∈ s.made, object m.gitlabId = object gitlabId →
      m.gitlabKind = gitlabKind ∧ m.gitlabId = gitlabId) ∧
    ∀ k' ≠ k, ∀ u ∈ s.tracked.phase k', object u.gitlabId ≠ object gitlabId

/-- The id map takes the row of an object that has its document. -/
def Taken (s : Creations K L) (k : K) (doc : IdMapDoc) : Prop :=
  s.tracked.phase k = some ⟨doc.gitlabKind, doc.gitlabId, some doc.hulyRef⟩ →
    env.fault s.world .idmap = none ∧ ¬ s.world.idmap.Conflicts doc

/-- A lookup that finds nothing is alone with its object, and the id map takes the row of a document
that was created. -/
def Serial (s : Creations K L) (k : K) : Await → Prop
  | .findByGitlab gitlabKind gitlabId =>
      c.Misses gitlabKind gitlabId s.world → s.Alone object k gitlabKind gitlabId
  | .upsertIdMap doc => s.Taken env k doc
  | _ => True

def Orderly (s : Creations K L) : Pool.Action K L (Elsewhere c) → Prop
  | .advance k => ∀ p ∈ s.point k, s.Serial env c object k p.2
  | _ => True

section Decidability

variable [Fintype K] [DecidableEq K] [DecidableEq O]

instance (s : Creations K L) : Decidable (s.Once object) :=
  inferInstanceAs (Decidable (∀ m ∈ s.made, ∀ m' ∈ s.made, _ → _))

instance (s : Creations K L) (k : K) (gitlabKind : GitlabKind) (gitlabId : String) :
    Decidable (s.Alone object k gitlabKind gitlabId) := inferInstanceAs (Decidable (_ ∧ _))

instance (s : Creations K L) (k : K) (doc : IdMapDoc) : Decidable (s.Taken env k doc) :=
  inferInstanceAs (Decidable (_ → _ ∧ _))

instance (s : Creations K L) (k : K) : (point : Await) → Decidable (s.Serial env c object k point)
  | .findByGitlab _ _ => inferInstanceAs (Decidable (_ → _))
  | .upsertIdMap doc => inferInstanceAs (Decidable (s.Taken env k doc))
  | .loadBinding | .findPersonBySocialKey | .findByHuly | .findRows | .getCursor | .setCursor
  | .findOne | .findAll | .createDoc _ _ | .updateDoc _ _ _ | .putMixin _ _ _ _
  | .mapRemoteState | .request _ | .enqueueRecord | .now => inferInstanceAs (Decidable True)

instance (s : Creations K L) :
    (a : Pool.Action K L (Elsewhere c)) → Decidable (s.Orderly env c object a)
  | .advance k => inferInstanceAs (Decidable (∀ p ∈ s.point k, s.Serial env c object k p.2))
  | .start _ => inferInstanceAs (Decidable True)
  | .disturb _ => inferInstanceAs (Decidable True)

end Decidability

end Conditions

variable {env : Env} {c : MirrorClass} {K O : Type} {object : String → O}
  {phase : K → Option Unmapped} {w w' : World} {made : List Made}

/-- An object that was created is mapped, or a handler is about to map it. -/
def Settled (c : MirrorClass) (phase : K → Option Unmapped) (w : World) (m : Made) : Prop :=
  (w.idmap.findByGitlab c.workspaceUuid m.gitlabKind m.gitlabId).isSome ∨
    ∃ k, phase k = some m.unmapped

/-- What holds of the phases, the rows and the documents in every state of a run in order. -/
structure Sound (c : MirrorClass) (object : String → O) (phase : K → Option Unmapped) (w : World)
    (made : List Made) : Prop where
  /-- No two handlers are at one object. -/
  apart : ∀ k k' u u', phase k = some u → phase k' = some u' →
    object u.gitlabId = object u'.gitlabId → k = k'
  kinds : ∀ m ∈ made, m.gitlabKind ∈ c.kinds
  pending : ∀ k u, phase k = some u → u.gitlabKind ∈ c.kinds
  /-- What is to be created has not been created. -/
  fresh : ∀ k u, phase k = some u → u.created = none →
    ∀ m ∈ made, object m.gitlabId ≠ object u.gitlabId
  settled : ∀ m ∈ made, Settled c phase w m
  once : ∀ m ∈ made, ∀ m' ∈ made, object m.gitlabId = object m'.gitlabId → m.ref = m'.ref

theorem Settled.sameRows {m : Made} (hkind : m.gitlabKind ∈ c.kinds) (hrows : c.SameRows w w')
    (h : Settled c phase w m) : Settled c phase w' m := by
  refine h.imp (fun hrow => ?_) id
  rwa [hrows _ hkind]

theorem Sound.sameRows (h : Sound c object phase w made) (hrows : c.SameRows w w') :
    Sound c object phase w' made :=
  { h with settled := fun m hm => (h.settled m hm).sameRows (h.kinds m hm) hrows }

section Update

variable [DecidableEq K] {k : K}

/-- A handler is done with its object, which it did not create or which is mapped. -/
theorem Sound.release (h : Sound c object phase w made)
    (hdone : ∀ m ∈ made, phase k = some m.unmapped →
      (w.idmap.findByGitlab c.workspaceUuid m.gitlabKind m.gitlabId).isSome) :
    Sound c object (Function.update phase k none) w made := by
  have hold : ∀ k' u, Function.update phase k none k' = some u → phase k' = some u := by
    intro k' u hu
    obtain ⟨-, hnone⟩ | ⟨-, hu⟩ := update_eq_some hu
    · exact absurd hnone (Option.some_ne_none u).symm
    · exact hu
  refine ⟨fun k₁ k₂ u u' hu hu' => h.apart k₁ k₂ u u' (hold _ _ hu) (hold _ _ hu'), h.kinds,
    fun k' u hu => h.pending k' u (hold _ _ hu), fun k' u hu => h.fresh k' u (hold _ _ hu),
    fun m hm => ?_, h.once⟩
  obtain hrow | ⟨k', hk'⟩ := h.settled m hm
  · exact .inl hrow
  · by_cases hkk : k' = k
    · subst hkk
      exact .inl (hdone m hm hk')
    · exact .inr ⟨k', by rwa [Function.update_of_ne hkk]⟩

/-- A lookup that is alone with its object. -/
theorem Sound.opened {gitlabKind : GitlabKind} {gitlabId : String}
    (h : Sound c object phase w made) (hk : phase k = none)
    (hmiss : c.Misses gitlabKind gitlabId w)
    (hsame : ∀ m ∈ made, object m.gitlabId = object gitlabId →
      m.gitlabKind = gitlabKind ∧ m.gitlabId = gitlabId)
    (halone : ∀ k' ≠ k, ∀ u ∈ phase k', object u.gitlabId ≠ object gitlabId) :
    Sound c object (Function.update phase k (some ⟨gitlabKind, gitlabId, none⟩)) w made := by
  have hnew : ∀ m ∈ made, object m.gitlabId ≠ object gitlabId := by
    intro m hm hobject
    obtain ⟨hkind, hid⟩ := hsame m hm hobject
    obtain hrow | ⟨k', hk'⟩ := h.settled m hm
    · rw [hkind, hid, hmiss.2] at hrow
      exact Bool.false_ne_true hrow
    · have hne : k' ≠ k := by
        rintro rfl
        exact Option.some_ne_none _ (hk'.symm.trans hk)
      exact halone k' hne _ hk' hobject
  refine ⟨fun k₁ k₂ u u' hu hu' hobject => ?_, h.kinds, fun k' u hu => ?_,
    fun k' u hu hcreated m hm => ?_, fun m hm => ?_, h.once⟩
  · obtain ⟨rfl, hv⟩ | ⟨hne, hv⟩ := update_eq_some hu
    · obtain ⟨rfl, -⟩ | ⟨hne', hv'⟩ := update_eq_some hu'
      · rfl
      · obtain rfl := Option.some.inj hv
        exact absurd hobject.symm (halone k₂ hne' u' hv')
    · obtain ⟨rfl, hv'⟩ | ⟨-, hv'⟩ := update_eq_some hu'
      · obtain rfl := Option.some.inj hv'
        exact absurd hobject (halone k₁ hne u hv)
      · exact h.apart k₁ k₂ u u' hv hv' hobject
  · obtain ⟨-, hu⟩ | ⟨-, hu⟩ := update_eq_some hu
    · obtain rfl := Option.some.inj hu
      exact hmiss.1
    · exact h.pending k' u hu
  · obtain ⟨-, hu⟩ | ⟨-, hu⟩ := update_eq_some hu
    · obtain rfl := Option.some.inj hu
      exact hnew m hm
    · exact h.fresh k' u hu hcreated m hm
  · refine (h.settled m hm).imp id ?_
    rintro ⟨k', hk'⟩
    have hne : k' ≠ k := by
      rintro rfl
      exact Option.some_ne_none _ (hk'.symm.trans hk)
    exact ⟨k', by rwa [Function.update_of_ne hne]⟩

/-- The document of an object that is not there yet. -/
theorem Sound.created {gitlabKind : GitlabKind} {gitlabId : String} {ref : Ref}
    (h : Sound c object phase w made) (hk : phase k = some ⟨gitlabKind, gitlabId, none⟩) :
    Sound c object (Function.update phase k (some ⟨gitlabKind, gitlabId, some ref⟩)) w
      (made ++ [⟨gitlabKind, gitlabId, ref⟩]) := by
  have hnew := h.fresh k _ hk rfl
  -- The handler was at the object before.
  have hold : ∀ k' u, Function.update phase k (some ⟨gitlabKind, gitlabId, some ref⟩) k' = some u →
      ∃ u', phase k' = some u' ∧ u'.gitlabKind = u.gitlabKind ∧ u'.gitlabId = u.gitlabId := by
    intro k' u hu
    obtain ⟨rfl, hv⟩ | ⟨-, hv⟩ := update_eq_some hu
    · obtain rfl := Option.some.inj hv
      exact ⟨_, hk, rfl, rfl⟩
    · exact ⟨u, hv, rfl, rfl⟩
  refine ⟨fun k₁ k₂ u u' hu hu' hobject => ?_, fun m hm => ?_, fun k' u hu => ?_,
    fun k' u hu hcreated m hm => ?_, fun m hm => ?_, fun m hm m' hm' hobject => ?_⟩
  · obtain ⟨v, hv, -, hid⟩ := hold k₁ u hu
    obtain ⟨v', hv', -, hid'⟩ := hold k₂ u' hu'
    exact h.apart k₁ k₂ v v' hv hv' (by rw [hid, hid', hobject])
  · obtain hm | hm := List.mem_append.mp hm
    · exact h.kinds m hm
    · rw [List.mem_singleton.mp hm]
      exact h.pending k _ hk
  · obtain ⟨v, hv, hkind, -⟩ := hold k' u hu
    exact hkind ▸ h.pending k' v hv
  · obtain ⟨-, hu⟩ | ⟨hne, hu⟩ := update_eq_some hu
    · obtain rfl := Option.some.inj hu
      exact absurd hcreated (Option.some_ne_none ref)
    · obtain hm | hm := List.mem_append.mp hm
      · exact h.fresh k' u hu hcreated m hm
      · rw [List.mem_singleton.mp hm]
        intro hobject
        exact hne (h.apart k' k u _ hu hk hobject.symm)
  · obtain hm | hm := List.mem_append.mp hm
    · refine (h.settled m hm).imp id ?_
      rintro ⟨k', hk'⟩
      have hne : k' ≠ k := by
        rintro rfl
        exact absurd (congrArg Unmapped.created (Option.some.inj (hk'.symm.trans hk)))
          (Option.some_ne_none m.ref)
      exact ⟨k', by rwa [Function.update_of_ne hne]⟩
    · rw [List.mem_singleton.mp hm]
      exact .inr ⟨k, Function.update_self _ _ _⟩
  · obtain hm | hm := List.mem_append.mp hm
    · obtain hm' | hm' := List.mem_append.mp hm'
      · exact h.once m hm m' hm' hobject
      · rw [List.mem_singleton.mp hm'] at hobject
        exact absurd hobject (hnew m hm)
    · obtain hm' | hm' := List.mem_append.mp hm'
      · rw [List.mem_singleton.mp hm] at hobject
        exact absurd hobject.symm (hnew m' hm')
      · rw [List.mem_singleton.mp hm, List.mem_singleton.mp hm']

/-- The row of an object that was created. -/
theorem Sound.closed {doc : IdMapDoc} (h : Sound c object phase w made)
    (hk : phase k = some ⟨doc.gitlabKind, doc.gitlabId, some doc.hulyRef⟩)
    (hworkspace : doc.workspaceUuid = c.workspaceUuid)
    (hrow : w.idmap.upsert doc = .ok w'.idmap) :
    Sound c object (Function.update phase k none) w' made := by
  have hself : w'.idmap.findByGitlab c.workspaceUuid doc.gitlabKind doc.gitlabId = some doc := by
    rw [← hworkspace]
    exact IdMap.findByGitlab_of_upsert_self hrow
  have hkept : ∀ m ∈ made, Settled c phase w m → Settled c phase w' m := by
    intro m hm hsettled
    refine hsettled.imp (fun hmapped => ?_) id
    by_cases hkey : doc.gitlabKey = (c.workspaceUuid, m.gitlabKind, m.gitlabId)
    · obtain ⟨-, hkind, hid⟩ := Prod.mk.inj hkey |>.imp id Prod.mk.inj
      rw [← hkind, ← hid, hself]
      rfl
    · rwa [IdMap.findByGitlab_of_upsert hrow hkey]
  refine Sound.release { h with settled := fun m hm => hkept m hm (h.settled m hm) } ?_
  intro m _ hm
  obtain ⟨hkind, hid, -⟩ := Unmapped.mk.inj (Option.some.inj (hk.symm.trans hm))
  rw [← hkind, ← hid, hself]
  rfl

end Update

section Runs

variable {L : Type} [DecidableEq K] {key : L → K} {code : L → Async Unit} {s s' : Creations K L}

/-- What holds in every state of a run in order. -/
structure Valid (env : Env) (c : MirrorClass) (object : String → O) (s : Creations K L) : Prop where
  disciplined : s.Disciplined env c fun _ => none
  sound : Sound c object s.tracked.phase s.world s.made

/-- A call of a handler that pushes no document. -/
theorem Sound.moves {k : K} {point : Await} {q : Option Unmapped} {new born : List Made}
    (h : Sound c object s.tracked.phase s.world s.made)
    (hmoves : Unmapped.Moves env c none s.world s'.world (s.tracked.phase k) point q new born)
    (hserial : s.Serial env c object k point) :
    Sound c object (Function.update s.tracked.phase k q) s'.world (s.made ++ new) := by
  generalize hphase : s.tracked.phase k = q' at hmoves
  cases hmoves with
  | aside hrows =>
    rw [← hphase, Function.update_eq_self, List.append_nil]
    exact h.sameRows hrows
  | opened hmiss hrows =>
    obtain ⟨hsame, hothers⟩ := hserial hmiss
    rw [List.append_nil]
    exact (h.opened hphase hmiss hsame hothers).sameRows hrows
  | created hrows => exact (h.created hphase).sameRows hrows
  | born hborn hrows => exact absurd hborn (Option.some_ne_none _).symm
  | closed hkind hworkspace hrow =>
    rw [List.append_nil]
    exact h.closed hphase hworkspace hrow
  | refused hrefused hrows =>
    obtain ⟨hfault, hconflict⟩ := hserial hphase
    exact absurd hrefused (not_or.mpr ⟨not_not.mpr hfault, hconflict⟩)

theorem Valid.step (hcode : ∀ job, Mirrors env c none (code job))
    (h : s.Valid env c object) {a : Pool.Action K L (Elsewhere c)}
    (ha : s.Orderly env c object a) :
    (s.step env c key (fun _ => none) code a).Valid env c object := by
  refine ⟨h.disciplined.step hcode a, ?_⟩
  obtain ⟨hphase, hrows, hmade, -⟩ | ⟨k, hfree, hphase, hworld, hmade, -⟩ |
    ⟨k, job, point, q, new, born, rfl, hpoint, hmoves, hphase, hmade, -⟩ :=
      stepped key code h.disciplined a
  · rw [hphase, hmade]
    exact h.sound.sameRows hrows
  · rw [hphase, hworld, hmade]
    refine h.sound.release fun m _ hm => ?_
    exact absurd (hfree _ hm) (Option.some_ne_none m.ref)
  · rw [hphase, hmade]
    exact h.sound.moves hmoves (ha _ hpoint)

omit [DecidableEq K] in
theorem valid_start {w : World} (h : (start c w : Creations K L).Once object) :
    (start c w : Creations K L).Valid env c object := by
  have hrow : ∀ m ∈ (start c w : Creations K L).made, ∃ row ∈ w.idmap.rows,
      (row.workspaceUuid = c.workspaceUuid ∧ row.gitlabKind ∈ c.kinds) ∧
        ⟨row.gitlabKind, row.gitlabId, row.hulyRef⟩ = m := by
    intro m hm
    obtain ⟨row, hrow, hmade⟩ := List.mem_map.mp hm
    obtain ⟨hmem, hclass⟩ := List.mem_filter.mp hrow
    exact ⟨row, hmem, of_decide_eq_true hclass, hmade⟩
  have hidle : ∀ k u, (start c w : Creations K L).tracked.phase k ≠ some u :=
    fun _ u => (Option.some_ne_none u).symm
  refine ⟨Tracked.disciplined_idle w, ⟨fun k _ u _ hu => absurd hu (hidle k u), fun m hm => ?_,
    fun k u hu => absurd hu (hidle k u), fun k u hu => absurd hu (hidle k u), fun m hm => ?_, h⟩⟩
  · obtain ⟨row, -, ⟨-, hkind⟩, rfl⟩ := hrow m hm
    exact hkind
  · obtain ⟨row, hmem, ⟨hworkspace, -⟩, rfl⟩ := hrow m hm
    refine .inl ?_
    have hfind : w.idmap.findByGitlab c.workspaceUuid row.gitlabKind row.gitlabId = some row :=
      IdMap.findByGitlab_eq_some_iff.mpr ⟨hmem, by rw [← hworkspace]; rfl⟩
    exact Option.isSome_iff_exists.mpr ⟨row, hfind⟩

/-- Where all steps are in order, an object that has at most one document keeps it so. -/
theorem once_of_orderly (hcode : ∀ job, Mirrors env c none (code job))
    {acts : List (Pool.Action K L (Elsewhere c))} {w : World}
    (hs : (start c w : Creations K L).Once object)
    (h : Transition.Along (step env c key (fun _ => none) code) (Orderly env c object)
      (start c w) acts) :
    Transition.Throughout (step env c key (fun _ => none) code) (Once object) (start c w) acts := by
  refine Transition.throughout_of_along h fun as has => ?_
  have hvalid : Valid env c object
      (Transition.exec (step env c key (fun _ => none) code) (start c w) as) :=
    Transition.exec_invariant (fun _ _ hs ha => hs.step hcode ha) (valid_start hs) has
  exact hvalid.sound.once

end Runs

end HulyGitlab.Creations
