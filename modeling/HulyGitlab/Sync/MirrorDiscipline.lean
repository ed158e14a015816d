import HulyGitlab.Lib.Discipline
import HulyGitlab.Sync.ManagerAwaits
import HulyGitlab.Sync.Mirroring

/-!
# How handlers mirror an object

A handler looks an object up, creates its document when there is no row, and
then writes the row. Between the lookup and the row it knows of nothing that
others do; what it may do there is the discipline of this module.
-/

namespace HulyGitlab

open Coroutine (Always Follows)

/-- The rows and the documents that some handlers write. -/
structure MirrorClass where
  workspaceUuid : String
  kinds : List GitlabKind
  objectClass : String
  /-- The kind and the key of the object that a request has created, by its answer. -/
  created : GitLabRequest → JsValue → Option (GitlabKind × String)

/-- An object that has no row yet: a handler did not find it in the id map, or has just created it
on GitLab. -/
structure Unmapped where
  gitlabKind : GitlabKind
  gitlabId : String
  /-- Its document, when there is one. -/
  created : Option Ref
  deriving DecidableEq

/-- A document that is there for an object. -/
structure Made where
  gitlabKind : GitlabKind
  gitlabId : String
  ref : Ref
  deriving DecidableEq

def Made.unmapped (m : Made) : Unmapped := ⟨m.gitlabKind, m.gitlabId, some m.ref⟩

namespace MirrorClass

variable (c : MirrorClass)

/-- The row that is looked for is not there. -/
def Misses (gitlabKind : GitlabKind) (gitlabId : String) (w : World) : Prop :=
  gitlabKind ∈ c.kinds ∧ w.idmap.findByGitlab c.workspaceUuid gitlabKind gitlabId = none

instance (gitlabKind : GitlabKind) (gitlabId : String) (w : World) :
    Decidable (c.Misses gitlabKind gitlabId w) := inferInstanceAs (Decidable (_ ∧ _))

/-- The object that a request for a document creates on GitLab. -/
def born (env : Env) (own : Option Ref) (r : GitLabRequest) (w : World) : Option Made :=
  own.bind fun ref =>
    (env.gitlab w.requests r).toOption.bind fun answer =>
      (c.created r answer).map fun key => ⟨key.1, key.2, ref⟩

/-- The rows of the class are the same. -/
def SameRows (w w' : World) : Prop :=
  ∀ gitlabKind ∈ c.kinds, ∀ gitlabId,
    w'.idmap.findByGitlab c.workspaceUuid gitlabKind gitlabId =
      w.idmap.findByGitlab c.workspaceUuid gitlabKind gitlabId

end MirrorClass

/-- What a call does to the rows. -/
def Await.Maps (env : Env) : Await → World → World → Prop
  | .upsertIdMap doc, w, w' =>
      (w'.idmap = w.idmap ∧ (env.fault w .idmap ≠ none ∨ w.idmap.Conflicts doc)) ∨
        w.idmap.upsert doc = .ok w'.idmap
  | _, w, w' => w'.idmap = w.idmap

/-- The call has nothing to do with the objects of the class. -/
def Await.Aside (c : MirrorClass) : Await → Prop
  | .findByGitlab gitlabKind _ => gitlabKind ∉ c.kinds
  | .createDoc objectClass _ => objectClass ≠ c.objectClass
  | .upsertIdMap doc => doc.gitlabKind ∉ c.kinds
  | .request r => ∀ answer, c.created r answer = none
  | _ => True

namespace Unmapped

variable (env : Env) (c : MirrorClass) (own : Option Ref)

/-- A lookup opens an object, its document is created, its row closes it; a handler that pushes a
document of its own opens the object it has created on GitLab. -/
def after : Option Unmapped → Await → World → Option Unmapped
  | none, .findByGitlab gitlabKind gitlabId, w =>
      if c.Misses gitlabKind gitlabId w then some ⟨gitlabKind, gitlabId, none⟩ else none
  | none, .request r, w => (c.born env own r w).map Made.unmapped
  | some u, .createDoc objectClass _, w =>
      if objectClass = c.objectClass ∧ env.fault w .platform = none then
        some { u with created := some (env.generateId w.docs.keys) }
      else some u
  | some u, .upsertIdMap doc, _ => if doc.gitlabKind ∈ c.kinds then none else some u
  | q, _, _ => q

/-- What a call creates on the platform. -/
def makes : Option Unmapped → Await → World → List Made
  | some u, .createDoc objectClass _, w =>
      if objectClass = c.objectClass ∧ env.fault w .platform = none then
        [⟨u.gitlabKind, u.gitlabId, env.generateId w.docs.keys⟩]
      else []
  | _, _, _ => []

/-- What a call creates on GitLab. -/
def births : Option Unmapped → Await → World → List Made
  | none, .request r, w => (c.born env own r w).toList
  | _, _, _ => []

/-- One object at a time is open; it gets one document, and then its row. -/
def Keeps (q : Option Unmapped) : Await → Prop
  | .findByGitlab gitlabKind _ => gitlabKind ∈ c.kinds → q = none
  | .request _ => own ≠ none → q = none
  | .createDoc objectClass _ => objectClass = c.objectClass → ∃ u, q = some u ∧ u.created = none
  | .upsertIdMap doc => doc.gitlabKind ∈ c.kinds →
      q = some ⟨doc.gitlabKind, doc.gitlabId, some doc.hulyRef⟩ ∧
        doc.workspaceUuid = c.workspaceUuid
  | _ => True

end Unmapped

/-- How a handler mirrors the objects of a class, and a document of its own. -/
def mirrorDiscipline (env : Env) (c : MirrorClass) (own : Option Ref) :
    Discipline (Option Unmapped) Await World where
  after := Unmapped.after env c own
  Allowed q point w w' := Unmapped.Keeps c own q point ∧ point.Maps env w w'
  MayFail q := ∀ u ∈ q, u.created = none

/-- A handler keeps the discipline from its start, and may end where it does. -/
abbrev Mirrors (env : Env) (c : MirrorClass) (own : Option Ref) (p : Async Unit) : Prop :=
  Follows (mirrorDiscipline env c own) (fun q _ => (mirrorDiscipline env c own).MayFail q) none p

variable {env : Env} {c : MirrorClass} {own : Option Ref}

/-- Calls that have nothing to do with the class. -/
abbrev Aloof (env : Env) (c : MirrorClass) {A : Type} (p : Async A) : Prop :=
  Always (fun point w w' => point.Aside c ∧ point.Maps env w w') p

theorem MirrorClass.born_eq_none {r : GitLabRequest} (h : ∀ answer, c.created r answer = none)
    (w : World) : c.born env own r w = none := by
  simp [MirrorClass.born, h]

theorem after_of_aside {q : Option Unmapped} {point : Await} (h : point.Aside c) (w : World) :
    Unmapped.after env c own q point w = q := by
  cases q with
  | none =>
    cases point with
    | findByGitlab gitlabKind gitlabId => exact if_neg fun hmiss => h hmiss.1
    | request r =>
      rw [Unmapped.after, MirrorClass.born_eq_none h]
      rfl
    | _ => rfl
  | some u =>
    cases point with
    | createDoc objectClass attributes => exact if_neg fun hclass => h hclass.1
    | upsertIdMap doc => exact if_neg h
    | _ => rfl

/-- Such calls do not end a phase, and are made by whoever has no object open. -/
theorem keeps_of_aside {q : Option Unmapped} {point : Await} (h : point.Aside c)
    (hown : own = none ∨ q = none) : Unmapped.Keeps c own q point := by
  cases point with
  | findByGitlab gitlabKind gitlabId => exact fun hkind => absurd hkind h
  | createDoc objectClass attributes => exact fun hclass => absurd hclass h
  | upsertIdMap doc => exact fun hkind => absurd hkind h
  | request r => exact fun hpushes => hown.resolve_left hpushes
  | _ => trivial

theorem Aloof.neutral {A : Type} {p : Async A} (h : Aloof env c p) {q : Option Unmapped}
    (hown : own = none ∨ q = none) : Always (Coroutine.Neutral (mirrorDiscipline env c own) q) p :=
  h.mono fun _ w _ hboth =>
    ⟨after_of_aside hboth.1 w, keeps_of_aside hboth.1 hown, hboth.2⟩

theorem mayFail_none : (mirrorDiscipline env c own).MayFail none :=
  fun _ hu => absurd hu (Option.some_ne_none _).symm

theorem mayFail_new (gitlabKind : GitlabKind) (gitlabId : String) :
    (mirrorDiscipline env c own).MayFail (some ⟨gitlabKind, gitlabId, none⟩) := by
  intro u hu
  obtain rfl := Option.some.inj hu
  rfl

/-- A handler that has no object open at its end. -/
theorem mirrors_of_follows {p : Async Unit}
    (h : Follows (mirrorDiscipline env c own) (fun q _ => q = none) none p) :
    Mirrors env c own p := by
  refine h.mono ?_
  rintro _ _ rfl
  exact mayFail_none

namespace Aloof

section Calls

variable (env)

theorem idmap_of_reach {A : Type} {service : Service} {f : Unit → Sync A} {w : World}
    (h : ((f ()).run w).2.idmap = w.idmap) :
    ((Sync.reach env service >>= f).run w).2.idmap = w.idmap := by
  obtain ⟨e, hrun⟩ | hrun := Sync.reach_bind_cases env service f w
  · rw [hrun]
  · rw [hrun]
    exact h

theorem loadBinding (binding : BindingRef) : Aloof env c (Async.loadBinding env binding) :=
  Always.call fun _ => ⟨trivial, rfl⟩

theorem findPersonBySocialKey (socialKey : String) :
    Aloof env c (Async.findPersonBySocialKey env socialKey) :=
  Always.call fun _ => ⟨trivial, idmap_of_reach env rfl⟩

theorem findByGitlab_idmap (workspaceUuid : String) (gitlabKind : GitlabKind) (gitlabId : String)
    (w : World) :
    ((Sync.findByGitlab env workspaceUuid gitlabKind gitlabId).run w).2.idmap = w.idmap := by
  unfold Sync.findByGitlab
  rw [Effect.bind_of_ok (Effect.modify_run _ w)]
  exact idmap_of_reach env rfl

theorem findByGitlab {gitlabKind : GitlabKind} (h : gitlabKind ∉ c.kinds) (workspaceUuid : String)
    (gitlabId : String) : Aloof env c (Async.findByGitlab env workspaceUuid gitlabKind gitlabId) :=
  Always.call fun w => ⟨h, findByGitlab_idmap env workspaceUuid gitlabKind gitlabId w⟩

theorem upsertIdMap_maps (doc : IdMapDoc) (w : World) :
    (Await.upsertIdMap doc).Maps env w ((Sync.upsertIdMap env doc).run w).2 := by
  unfold Sync.upsertIdMap Sync.reach
  rw [Effect.bind_run, Effect.step_run]
  cases hfault : env.fault w .idmap with
  | some e => exact .inl ⟨rfl, .inl (by rw [hfault]; exact Option.some_ne_none e)⟩
  | none =>
    dsimp only
    rw [Effect.step_run]
    cases hupsert : w.idmap.upsert doc with
    | ok idmap => exact .inr hupsert
    | error e =>
      refine .inl ⟨rfl, .inr ?_⟩
      by_contra hconflict
      obtain ⟨idmap, hok, -⟩ := IdMap.upsert_of_not_conflicts hconflict
      rw [hok] at hupsert
      cases hupsert

theorem upsertIdMap {doc : IdMapDoc} (h : doc.gitlabKind ∉ c.kinds) :
    Aloof env c (Async.upsertIdMap env doc) :=
  Always.call fun w => ⟨h, upsertIdMap_maps env doc w⟩

theorem findByHuly (workspaceUuid hulyClass : String) (hulyRef : Ref) :
    Aloof env c (Async.findByHuly env workspaceUuid hulyClass hulyRef) :=
  Always.call fun _ => ⟨trivial, idmap_of_reach env rfl⟩

theorem getCursor (binding : BindingRef) (kind : CursorKind) :
    Aloof env c (Async.getCursor env binding kind) :=
  Always.call fun _ => ⟨trivial, idmap_of_reach env rfl⟩

theorem setCursor (binding : BindingRef) (kind : CursorKind) (t : Option Nat) :
    Aloof env c (Async.setCursor env binding kind t) :=
  Always.call fun _ => ⟨trivial, idmap_of_reach env rfl⟩

theorem findOne (objectClass : String) (ref : Ref) :
    Aloof env c (Async.findOne env objectClass ref) :=
  Always.call fun _ => ⟨trivial, idmap_of_reach env rfl⟩

theorem findAll (objectClass : String) : Aloof env c (Async.findAll env objectClass) :=
  Always.call fun _ => ⟨trivial, idmap_of_reach env rfl⟩

theorem request {r : GitLabRequest} (h : ∀ answer, c.created r answer = none) :
    Aloof env c (Async.request env r) := Always.call fun _ => ⟨h, rfl⟩

theorem enqueueRecord (e : EnqueuedRecord) : Aloof env c (Async.enqueueRecord e) :=
  Always.call fun _ => ⟨trivial, rfl⟩

theorem now : Aloof env c Async.now := Always.call fun _ => ⟨trivial, rfl⟩

theorem createDoc_idmap (objectClass : String) (space : Ref) (attributes : Fields) (w : World) :
    ((Sync.createDoc env objectClass space attributes).run w).2.idmap = w.idmap :=
  idmap_of_reach env rfl

theorem createDoc {objectClass : String} (h : objectClass ≠ c.objectClass) (space : Ref)
    (attributes : Fields) : Aloof env c (Async.createDoc env objectClass space attributes) :=
  Always.call fun w => ⟨h, createDoc_idmap env objectClass space attributes w⟩

theorem updateDoc (objectClass : String) (ref : Ref) (operations : Fields) :
    Aloof env c (Async.updateDoc env objectClass ref operations) := by
  refine Always.call fun w => ⟨trivial, idmap_of_reach env ?_⟩
  rw [Effect.modify_run]
  cases w.docs.get? ref with
  | none => rfl
  | some doc => rfl

theorem putMixin (objectClass : String) (ref : Ref) (mixin : String) (attributes : Fields) :
    Aloof env c (Async.putMixin env objectClass ref mixin attributes) := by
  refine Always.call fun w => ⟨trivial, idmap_of_reach env ?_⟩
  rw [Effect.modify_run]
  cases w.docs.get? ref with
  | none => rfl
  | some doc => rfl

end Calls

end Aloof

section Phases

variable {A : Type} {post : Option Unmapped → A → Prop} {gitlabKind : GitlabKind}
  {gitlabId : String}

/-- What follows calls that have nothing to do with the class. -/
theorem follows_after {B : Type} {p : Async B} {f : B → Async A} {q : Option Unmapped}
    (hfail : (mirrorDiscipline env c own).MayFail q) (hown : own = none ∨ q = none)
    (h : Aloof env c p) (hf : ∀ b, Follows (mirrorDiscipline env c own) post q (f b)) :
    Follows (mirrorDiscipline env c own) post q (p >>= f) :=
  Follows.after hfail (h.neutral hown) hf

/-- The last such calls. -/
theorem follows_last {p : Async A} (h : Aloof env c p) :
    Follows (mirrorDiscipline env c own) (fun q _ => q = none) none p :=
  Follows.of_always mayFail_none (fun _ => rfl) (h.neutral (.inr rfl))

/-- A lookup leaves the object unmapped just when it finds nothing. -/
theorem follows_lookup {f : Option IdMapDoc → Async A} (hkind : gitlabKind ∈ c.kinds)
    (hfound : ∀ row, Follows (mirrorDiscipline env c own) post none (f (some row)))
    (hnone : Follows (mirrorDiscipline env c own) post (some ⟨gitlabKind, gitlabId, none⟩)
      (f none)) :
    Follows (mirrorDiscipline env c own) post none
      (Async.findByGitlab env c.workspaceUuid gitlabKind gitlabId >>= f) := by
  refine Follows.call_bind (fun w => ⟨fun _ => rfl, ?_⟩) (fun w found hrun => ?_) (fun w e _ => ?_)
  · exact Aloof.findByGitlab_idmap env _ _ _ w
  · obtain ⟨rfl, -⟩ := Sync.findByGitlab_ok env (Prod.ext hrun rfl)
    change Follows (mirrorDiscipline env c own) post
      (if c.Misses gitlabKind gitlabId w then _ else none) _
    cases hrow : w.idmap.findByGitlab c.workspaceUuid gitlabKind gitlabId with
    | none =>
      rw [if_pos ⟨hkind, hrow⟩]
      exact hnone
    | some row =>
      rw [if_neg fun hmiss => Option.some_ne_none row (hrow.symm.trans hmiss.2)]
      exact hfound row
  · change (mirrorDiscipline env c own).MayFail
      (if c.Misses gitlabKind gitlabId w then _ else none)
    split_ifs
    · exact mayFail_new gitlabKind gitlabId
    · exact mayFail_none

/-- What follows the load of the binding has its context. -/
theorem follows_load {binding : BindingRef} {bctx : BindingContext} {q : Option Unmapped}
    {f : BindingContext → Async A} (hload : env.loadBinding binding = .ok bctx)
    (hf : Follows (mirrorDiscipline env c own) post q (f bctx)) :
    Follows (mirrorDiscipline env c own) post q (Async.loadBinding env binding >>= f) := by
  have hrun : ∀ w, ((Sync.loadBinding env binding).run w).1 = .ok bctx := fun _ => hload
  refine Follows.call_bind (fun w => ⟨trivial, rfl⟩) (fun w found hfound => ?_)
    (fun w e herror => ?_)
  · obtain rfl := Except.ok.inj ((hrun w).symm.trans hfound)
    have haside : Await.Aside c .loadBinding := trivial
    rwa [show (mirrorDiscipline env c own).after q .loadBinding w = q from
      after_of_aside haside w]
  · rw [hrun w] at herror
    cases herror

theorem createDoc_fault (env : Env) (objectClass : String) (space : Ref) (attributes : Fields)
    (w : World) :
    (∃ e, env.fault w .platform = some e ∧
        ((Sync.createDoc env objectClass space attributes).run w).1 = .error e) ∨
      (env.fault w .platform = none ∧
        ((Sync.createDoc env objectClass space attributes).run w).1 =
          .ok (env.generateId w.docs.keys)) := by
  unfold Sync.createDoc Sync.reach
  rw [Effect.bind_run, Effect.step_run]
  cases hfault : env.fault w .platform with
  | some e => exact .inl ⟨e, rfl, rfl⟩
  | none => exact .inr ⟨rfl, rfl⟩

/-- The document of an object that was looked up in vain. -/
theorem follows_create {space : Ref} {attributes : Fields} {f : Ref → Async A}
    (hf : ∀ ref, Follows (mirrorDiscipline env c own) post
      (some ⟨gitlabKind, gitlabId, some ref⟩) (f ref)) :
    Follows (mirrorDiscipline env c own) post (some ⟨gitlabKind, gitlabId, none⟩)
      (Async.createDoc env c.objectClass space attributes >>= f) := by
  refine Follows.call_bind (fun w => ⟨fun _ => ⟨_, rfl, rfl⟩, ?_⟩) (fun w ref hrun => ?_)
    (fun w e hrun => ?_)
  · exact Aloof.createDoc_idmap env _ _ _ w
  · change Follows (mirrorDiscipline env c own) post
      (if c.objectClass = c.objectClass ∧ env.fault w .platform = none then _ else _) _
    obtain ⟨e, -, herror⟩ | ⟨hnone, hok⟩ := createDoc_fault env c.objectClass space attributes w
    · rw [herror] at hrun
      cases hrun
    · obtain rfl := Except.ok.inj (hok.symm.trans hrun)
      rw [if_pos ⟨rfl, hnone⟩]
      exact hf _
  · change (mirrorDiscipline env c own).MayFail
      (if c.objectClass = c.objectClass ∧ env.fault w .platform = none then _ else _)
    obtain ⟨e, hfault, -⟩ | ⟨-, hok⟩ := createDoc_fault env c.objectClass space attributes w
    · rw [if_neg fun hnone => Option.some_ne_none e (hfault.symm.trans hnone.2)]
      exact mayFail_new gitlabKind gitlabId
    · rw [hok] at hrun
      cases hrun

/-- A request for a document of the handler's own opens what it creates. -/
theorem follows_request {ref : Ref} {r : GitLabRequest} {f : JsValue → Async A}
    (hf : ∀ answer, Follows (mirrorDiscipline env c (some ref)) post
      ((c.created r answer).map fun key => ⟨key.1, key.2, some ref⟩) (f answer)) :
    Follows (mirrorDiscipline env c (some ref)) post none (Async.request env r >>= f) := by
  have hborn : ∀ w, (mirrorDiscipline env c (some ref)).after none (.request r) w =
      (env.gitlab w.requests r).toOption.bind fun answer =>
        (c.created r answer).map fun key => ⟨key.1, key.2, some ref⟩ := by
    intro w
    change (c.born env (some ref) r w).map Made.unmapped = _
    rw [MirrorClass.born, Option.bind_some, Option.map_bind]
    refine congrArg _ (funext fun answer => ?_)
    rw [Function.comp, Option.map_map]
    rfl
  refine Follows.call_bind (fun w => ⟨fun _ => rfl, rfl⟩) (fun w answer hrun => ?_)
    (fun w e hrun => ?_)
  · rw [hborn, show env.gitlab w.requests r = .ok answer from hrun]
    exact hf answer
  · rw [hborn, show env.gitlab w.requests r = .error e from hrun]
    exact mayFail_none

/-- The row of an object that has its document. -/
theorem follows_row {hulyClass : String} {ref : Ref} {f : Unit → Async A}
    (hkind : gitlabKind ∈ c.kinds)
    (hf : Follows (mirrorDiscipline env c own) post none (f ())) :
    Follows (mirrorDiscipline env c own) post (some ⟨gitlabKind, gitlabId, some ref⟩)
      (Async.upsertIdMap env ⟨c.workspaceUuid, gitlabKind, gitlabId, hulyClass, ref⟩ >>= f) := by
  refine Follows.call_bind (fun w => ⟨fun _ => ⟨rfl, rfl⟩, ?_⟩) (fun w _ _ => ?_)
    (fun w e _ => ?_)
  · exact Aloof.upsertIdMap_maps env _ w
  · change Follows (mirrorDiscipline env c own) post (if gitlabKind ∈ c.kinds then none else _) _
    rw [if_pos hkind]
    exact hf
  · change (mirrorDiscipline env c own).MayFail (if gitlabKind ∈ c.kinds then none else _)
    rw [if_pos hkind]
    exact mayFail_none

end Phases

end HulyGitlab
