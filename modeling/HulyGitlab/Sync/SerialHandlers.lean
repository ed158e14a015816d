import HulyGitlab.Lib.Confinement
import HulyGitlab.Sync.Engine
import HulyGitlab.Sync.IssuesConvergence
import HulyGitlab.Sync.ManagerAwaits

/-!
# Handlers of issues and merge requests, one after another

The handlers of one binding for records of mirrored issues and merge requests,
interleaved at their awaits. Each compares with its own document and writes
that one, so that every document is as if the handlers had run one after
another. What they share (the people, the tags, the milestones, the statuses)
is there before.
-/

namespace HulyGitlab.SerialHandlers

open UserIdentity

/-- The documents of a class, as `findAll` lists them. -/
def ofClass (objectClass : String) (w : World) : List (Ref × HulyDoc) :=
  w.docs.entries.filter fun entry => entry.2.objectClass = objectClass

/-- What the handlers of a binding share is as it was. -/
structure Steady (env : Env) (bctx : BindingContext) (w₀ w : World) : Prop where
  rows : ∀ kind gitlabId, kind ≠ .user →
    w.idmap.findByGitlab bctx.workspaceUuid kind gitlabId =
      w₀.idmap.findByGitlab bctx.workspaceUuid kind gitlabId
  guests : ∀ gitlabId,
    guestOf w.idmap bctx.workspaceUuid gitlabId = guestOf w₀.idmap bctx.workspaceUuid gitlabId
  owned : StubsOwned w.idmap
  tags : ofClass tagElementClass w = ofClass tagElementClass w₀
  milestones : ofClass milestoneClass w = ofClass milestoneClass w₀
  issues : ∀ ref doc, w₀.docs.get? ref = some doc → doc.objectClass = issueClass →
    ∃ doc', w.docs.get? ref = some doc' ∧ doc'.objectClass = issueClass
  entry : StatusMap.entryOf env w.statusCache (toString bctx.gitlabProjectId) bctx.statuses =
    StatusMap.entryOf env w₀.statusCache (toString bctx.gitlabProjectId) bctx.statuses

/-- The documents other than one. -/
def Besides (ref : Ref) (w w' : World) : Prop :=
  ∀ other, other ≠ ref → w'.docs.get? other = w.docs.get? other

/-- The handler keeps to the document, as long as what is shared stays. -/
abbrev KeepsTo (env : Env) (bctx : BindingContext) (w₀ : World) (ref : Ref) {A : Type}
    (Q : A → Prop) (p : Async A) : Prop :=
  Coroutine.Confined (Steady env bctx w₀) (fun w => w.docs.get? ref) (Besides ref) Q p

/-- A document of another class than the one written is listed as before. -/
theorem filter_replace_of_not {p : Ref × HulyDoc → Bool} {ref : Ref} {doc : HulyDoc}
    {xs : List (Ref × HulyDoc)} (hnew : p (ref, doc) = false)
    (hold : ∀ d, (ref, d) ∈ xs → p (ref, d) = false) :
    (OrderedMap.replace ref doc xs).filter p = xs.filter p := by
  induction xs with
  | nil => rfl
  | cons entry xs ih =>
    have hrest := ih fun d hd => hold d (List.mem_cons_of_mem entry hd)
    unfold OrderedMap.replace at hrest ⊢
    rw [List.map_cons]
    by_cases hkey : entry.1 = ref
    · have hentry : p entry = false := by
        obtain ⟨r, d⟩ := entry
        subst hkey
        exact hold d List.mem_cons_self
      rw [if_pos hkey, List.filter_cons_of_neg (by rw [hnew]; exact Bool.false_ne_true),
        List.filter_cons_of_neg (by rw [hentry]; exact Bool.false_ne_true), hrest]
    · rw [if_neg hkey, List.filter_cons, List.filter_cons, hrest]

theorem ofClass_set {objectClass : String} {w : World} {ref : Ref} {doc doc' : HulyDoc}
    (hdoc : w.docs.get? ref = some doc) (hclass : doc.objectClass ≠ objectClass)
    (hclass' : doc'.objectClass ≠ objectClass) :
    ofClass objectClass { w with docs := w.docs.set ref doc' } = ofClass objectClass w := by
  have hentries : (w.docs.set ref doc').entries = OrderedMap.replace ref doc' w.docs.entries := by
    rw [OrderedMap.set, dif_pos (OrderedMap.mem_keys_of_get? hdoc)]
  dsimp only [ofClass]
  rw [hentries]
  apply filter_replace_of_not
  · exact decide_eq_false hclass'
  · intro d hd
    obtain rfl : doc = d :=
      Option.some.inj (hdoc.symm.trans (OrderedMap.get?_of_mem_entries hd))
    exact decide_eq_false hclass

namespace Steady

variable {env : Env} {bctx : BindingContext} {w₀ w : World}

theorem refl (howned : StubsOwned w₀.idmap) : Steady env bctx w₀ w₀ where
  rows _ _ _ := rfl
  guests _ := rfl
  owned := howned
  tags := rfl
  milestones := rfl
  issues _ doc hdoc hclass := ⟨doc, hdoc, hclass⟩
  entry := rfl

/-- Users are resolved, cursors are written, and calls are recorded. -/
theorem settled (h : Steady env bctx w₀ w) {w' : World}
    (hs : Settles bctx.workspaceUuid w.idmap w'.idmap) (hdocs : w'.docs = w.docs)
    (hcache : w'.statusCache = w.statusCache) : Steady env bctx w₀ w' where
  rows kind id hkind := (hs.others kind id hkind).trans (h.rows kind id hkind)
  guests id := (hs.guests id).trans (h.guests id)
  owned := hs.owned h.owned
  tags := by rw [ofClass, hdocs]; exact h.tags
  milestones := by rw [ofClass, hdocs]; exact h.milestones
  issues := by rw [hdocs]; exact h.issues
  entry := by rw [hcache]; exact h.entry

theorem same (h : Steady env bctx w₀ w) {w' : World} (hidmap : w'.idmap = w.idmap)
    (hdocs : w'.docs = w.docs) (hcache : w'.statusCache = w.statusCache) :
    Steady env bctx w₀ w' :=
  h.settled (by rw [hidmap]; exact Settles.refl _ _) hdocs hcache

theorem remembered (h : Steady env bctx w₀ w) :
    Steady env bctx w₀ { w with
      statusCache := StatusMap.remembered env w.statusCache (toString bctx.gitlabProjectId)
        bctx.statuses } where
  rows := h.rows
  guests := h.guests
  owned := h.owned
  tags := h.tags
  milestones := h.milestones
  issues := h.issues
  entry := (StatusMap.entryOf_remembered env _ _ _).trans h.entry

/-- A write of an issue. -/
theorem written (h : Steady env bctx w₀ w) {ref : Ref} {doc doc' : HulyDoc}
    (hdoc : w.docs.get? ref = some doc) (hclass : doc.objectClass = issueClass)
    (hclass' : doc'.objectClass = issueClass) :
    Steady env bctx w₀ { w with docs := w.docs.set ref doc' } where
  rows := h.rows
  guests := h.guests
  owned := h.owned
  tags := by
    refine (ofClass_set hdoc ?_ ?_).trans h.tags
    · rw [hclass]; exact Issues.tagElementClass_ne_issueClass.symm
    · rw [hclass']; exact Issues.tagElementClass_ne_issueClass.symm
  milestones := by
    refine (ofClass_set hdoc ?_ ?_).trans h.milestones
    · rw [hclass]; exact Issues.milestoneClass_ne_issueClass.symm
    · rw [hclass']; exact Issues.milestoneClass_ne_issueClass.symm
  issues r d hd hdclass := by
    by_cases hr : r = ref
    · rw [hr]
      exact ⟨doc', OrderedMap.get?_set_self .., hclass'⟩
    · obtain ⟨d', hd', hd'class⟩ := h.issues r d hd hdclass
      exact ⟨d', (OrderedMap.get?_set_of_ne _ hr _).trans hd', hd'class⟩
  entry := h.entry

end Steady

theorem besides_refl (ref : Ref) (w : World) : Besides ref w w := fun _ _ => rfl

theorem besides_trans {ref : Ref} (a b c : World) (h : Besides ref a b) (h' : Besides ref b c) :
    Besides ref a c := fun other hne => (h' other hne).trans (h other hne)

theorem besides_of_docs {ref : Ref} {w w' : World} (h : w'.docs = w.docs) : Besides ref w w' := by
  intro other _
  rw [h]

/-- Writing the row of a guest again. -/
theorem settles_of_guest {idmap idmap' : IdMap} {workspaceUuid gitlabId : String}
    (hguest : guestOf idmap workspaceUuid gitlabId = stubRef gitlabId)
    (hup : idmap.upsert (stubRow workspaceUuid gitlabId) = .ok idmap') :
    Settles workspaceUuid idmap idmap' := by
  refine ⟨fun kind id hkind => ?_, fun id => ?_, fun howned => stubsOwned_of_upsert howned hup⟩
  · apply IdMap.findByGitlab_of_upsert hup
    intro hkey
    exact hkind (congrArg (fun key => key.2.1) hkey).symm
  · by_cases hid : id = gitlabId
    · have hself : idmap'.findByGitlab workspaceUuid .user gitlabId =
          some (stubRow workspaceUuid gitlabId) := IdMap.findByGitlab_of_upsert_self hup
      rw [hid, hguest]
      simp [guestOf, hself, stubRow]
    · have hother : idmap'.findByGitlab workspaceUuid .user id =
          idmap.findByGitlab workspaceUuid .user id := by
        apply IdMap.findByGitlab_of_upsert hup
        intro hkey
        exact hid (congrArg (fun key => key.2.2) hkey).symm
      simp [guestOf, hother]

/-- A name the cache has once it is primed with a listing. -/
def Listed (env : Env) (keep : HulyDoc → Bool) (k : String) (found : List (Ref × HulyDoc))
    (name : JsValue) : Prop :=
  ∀ entries text, localEntries env keep k found = .ok entries → name.asStr = .ok text →
    env.toLowerCase text ∈ entries.map Prod.fst

theorem get_primeSync_of_mem {V : Type} {entries : List (String × V)} {key : String}
    (h : key ∈ entries.map Prod.fst) :
    ∃ v, ((BiDirectionalCache.new : BiDirectionalCache V).primeSync entries).get key = some v := by
  induction entries using List.reverseRecOn with
  | nil => exact absurd h List.not_mem_nil
  | append_singleton entries last ih =>
    dsimp only [BiDirectionalCache.primeSync, BiDirectionalCache.get] at ih ⊢
    rw [List.foldl_append, List.foldl_cons, List.foldl_nil, OrderedMap.get?_set]
    by_cases hkey : key = last.1
    · exact ⟨last.2, if_pos hkey⟩
    · rw [if_neg hkey]
      apply ih
      rw [List.map_append, List.mem_append] at h
      exact h.resolve_right fun hlast => hkey (List.mem_singleton.mp hlast)

/-- The cache is new, or primed with a listing and nothing else. -/
def Primed (env : Env) (keep : HulyDoc → Bool) (k : String) (found : List (Ref × HulyDoc))
    (loaded : Bool) (cache : BiDirectionalCache Ref) : Prop :=
  loaded = true ∧ ∃ entries, localEntries env keep k found = .ok entries ∧
    cache = BiDirectionalCache.new.primeSync entries

theorem Primed.get {env : Env} {keep : HulyDoc → Bool} {k : String}
    {found : List (Ref × HulyDoc)} {loaded : Bool} {cache : BiDirectionalCache Ref}
    (h : Primed env keep k found loaded cache) {name : JsValue} {text : String}
    (hname : Listed env keep k found name) (htext : name.asStr = .ok text) :
    ∃ ref, cache.get (env.toLowerCase text) = some ref := by
  obtain ⟨-, entries, hentries, rfl⟩ := h
  exact get_primeSync_of_mem (hname entries text hentries htext)

namespace KeepsTo

variable {env : Env} {bctx : BindingContext} {w₀ : World} {ref : Ref} {A B : Type}

/-- A call that writes no document and whose answer depends on the own document alone. -/
theorem read {point : Await} {m : Sync A} (F : Option HulyDoc → A) {Q : A → Prop}
    (hrun : ∀ w, Steady env bctx w₀ w → ∃ w', m.run w = (.ok (F (w.docs.get? ref)), w') ∧
      Steady env bctx w₀ w' ∧ w'.docs = w.docs ∧ Q (F (w.docs.get? ref))) :
    KeepsTo env bctx w₀ ref Q (Coroutine.call point m) := by
  apply Coroutine.Confined.call
  · intro w hw
    obtain ⟨w', hm, hsteady, hdocs, hQ⟩ := hrun w hw
    rw [hm]
    refine ⟨hsteady, besides_of_docs hdocs, fun a ha => ?_⟩
    rw [← Except.ok.inj ha]
    exact hQ
  · intro w v hw hv hown
    obtain ⟨w', hm, -, hdocs, -⟩ := hrun w hw
    obtain ⟨v', hm', -, hdocs', -⟩ := hrun v hv
    rw [hm, hm', hdocs, hdocs', hown]
    exact ⟨rfl, rfl⟩

/-- A write of the own document. -/
theorem write {point : Await} {m : Sync Unit} (g : HulyDoc → HulyDoc)
    (hclass : ∀ doc, (g doc).objectClass = doc.objectClass)
    (hissue : ∃ doc, w₀.docs.get? ref = some doc ∧ doc.objectClass = issueClass)
    (hrun : ∀ w doc, w.docs.get? ref = some doc →
      m.run w = (.ok (), { w with docs := w.docs.set ref (g doc) })) :
    KeepsTo env bctx w₀ ref (fun _ => True) (Coroutine.call point m) := by
  obtain ⟨doc₀, hdoc₀, hclass₀⟩ := hissue
  apply Coroutine.Confined.call
  · intro w hw
    obtain ⟨doc, hdoc, hdocClass⟩ := hw.issues ref doc₀ hdoc₀ hclass₀
    rw [hrun w doc hdoc]
    exact ⟨hw.written hdoc hdocClass ((hclass doc).trans hdocClass),
      fun other hne => OrderedMap.get?_set_of_ne _ hne _, fun _ _ => trivial⟩
  · intro w v hw hv hown
    obtain ⟨doc, hdoc, -⟩ := hw.issues ref doc₀ hdoc₀ hclass₀
    have hdoc' : v.docs.get? ref = some doc := hown.symm.trans hdoc
    rw [hrun w doc hdoc, hrun v doc hdoc']
    exact ⟨rfl, (OrderedMap.get?_set_self ..).trans (OrderedMap.get?_set_self ..).symm⟩

section Healthy

variable (h : env.Healthy)
include h

theorem findPersonBySocialKey (socialKey : String) :
    KeepsTo env bctx w₀ ref (fun _ => True) (Async.findPersonBySocialKey env socialKey) :=
  read (fun _ => env.findPersonBySocialKey socialKey) fun w hw =>
    ⟨w, Sync.findPersonBySocialKey_run h socialKey w, hw, rfl, trivial⟩

theorem mapByGitlabUser (user : IdentityUser) :
    KeepsTo env bctx w₀ ref (fun _ => True) (Awaits.mapByGitlabUser env user) := by
  refine Coroutine.Confined.bind (findPersonBySocialKey h _) fun byGitlab _ => ?_
  cases byGitlab with
  | some person => exact Coroutine.Confined.pure trivial
  | none =>
    apply Coroutine.Confined.ite
    · intro _
      exact Coroutine.Confined.ofExcept_bind fun address _ => findPersonBySocialKey h _
    · intro _
      exact Coroutine.Confined.pure trivial

/-- Whoever writes the row of a guest, the guest is the same. -/
theorem ensureStubGuest (user : IdentityUser) :
    KeepsTo env bctx w₀ ref (fun _ => True)
      (Awaits.ensureStubGuest env bctx.workspaceUuid user) := by
  have hwhole : ∀ w, Steady env bctx w₀ w →
      ∃ w', (Awaits.ensureStubGuest env bctx.workspaceUuid user).toEffect.run w =
        (.ok (guestOf w₀.idmap bctx.workspaceUuid user.gitlabId), w') ∧ w'.docs = w.docs := by
    intro w hw
    obtain ⟨idmap, lookups, -, hrun⟩ : ∃ idmap lookups, Settles bctx.workspaceUuid w.idmap idmap ∧
        (UserIdentity.ensureStubGuest env bctx.workspaceUuid user).run w =
          (.ok (guestOf w.idmap bctx.workspaceUuid user.gitlabId),
            { w with idmap := idmap, lookups := lookups }) :=
      ensureStubGuest_run h hw.owned
    rw [Awaits.toEffect_ensureStubGuest, hrun, hw.guests]
    exact ⟨_, rfl, rfl⟩
  have hlook : ∀ w, (Sync.findByGitlab env bctx.workspaceUuid .user user.gitlabId).run w =
      (.ok (w.idmap.findByGitlab bctx.workspaceUuid .user user.gitlabId),
        { w with lookups := w.lookups ++ [(.user, user.gitlabId)] }) :=
    Sync.findByGitlab_run h _ _ _
  apply Coroutine.Confined.call_bind
  · intro w v hw hv hown
    obtain ⟨w', hrun, hdocs⟩ := hwhole w hw
    obtain ⟨v', hrun', hdocs'⟩ := hwhole v hv
    change ((Awaits.ensureStubGuest env bctx.workspaceUuid user).toEffect.run w).1 =
        ((Awaits.ensureStubGuest env bctx.workspaceUuid user).toEffect.run v).1 ∧
      ((Awaits.ensureStubGuest env bctx.workspaceUuid user).toEffect.run w).2.docs.get? ref =
        ((Awaits.ensureStubGuest env bctx.workspaceUuid user).toEffect.run v).2.docs.get? ref
    rw [hrun, hrun', hdocs, hdocs']
    exact ⟨rfl, hown⟩
  · intro w hw
    rw [hlook w]
    exact ⟨hw.same rfl rfl rfl, besides_refl ref w⟩
  · intro w existing hw hexisting
    cases existing with
    | some row => exact Coroutine.Confined.pure trivial
    | none =>
      have hguest : guestOf w₀.idmap bctx.workspaceUuid user.gitlabId = stubRef user.gitlabId := by
        rw [hlook w] at hexisting
        rw [← hw.guests]
        unfold guestOf
        rw [Except.ok.inj hexisting]
      refine Coroutine.Confined.bind (Q := fun _ => True) ?_ fun _ _ =>
        Coroutine.Confined.pure trivial
      apply read fun _ => ()
      intro v hv
      obtain ⟨idmap, hup, -⟩ := IdMap.upsert_of_not_conflicts
        (not_conflicts_stubRow hv.owned bctx.workspaceUuid user.gitlabId)
      refine ⟨_, Sync.upsertIdMap_run h v hup, ?_, rfl, trivial⟩
      exact hv.settled (settles_of_guest ((hv.guests _).trans hguest) hup) rfl rfl

theorem resolveUser (user : JsValue) :
    KeepsTo env bctx w₀ ref (fun _ => True)
      (Awaits.resolveUser env bctx.workspaceUuid user) := by
  apply Coroutine.Confined.ofExcept_bind
  intro identity _
  refine Coroutine.Confined.bind (mapByGitlabUser h identity) fun matched _ => ?_
  cases matched with
  | some person => exact Coroutine.Confined.pure trivial
  | none => exact ensureStubGuest h identity

theorem resolveAssignee (assignees : JsValue) :
    KeepsTo env bctx w₀ ref (fun _ => True)
      (Awaits.resolveAssignee env bctx.workspaceUuid assignees) := by
  apply Coroutine.Confined.ofExcept_bind
  intro users _
  cases users with
  | nil => exact Coroutine.Confined.pure trivial
  | cons first rest =>
    exact Coroutine.Confined.bind (resolveUser h first) fun _ _ => Coroutine.Confined.pure trivial

theorem findAll (objectClass : String)
    (hlist : ∀ w, Steady env bctx w₀ w → ofClass objectClass w = ofClass objectClass w₀) :
    KeepsTo env bctx w₀ ref (fun found => found = ofClass objectClass w₀)
      (Async.findAll env objectClass) :=
  read (fun _ => ofClass objectClass w₀) fun w hw =>
    ⟨w, (Sync.findAll_run h objectClass w).trans (by rw [← hlist w hw]; rfl), hw, rfl, rfl⟩


/-- The tags of the labels are there, so that none is created. -/
theorem ensureLocalTag (space : Ref) {c : LabelCache} {name : JsValue}
    (hname : Listed env LabelCache.ofIssues "title" (ofClass tagElementClass w₀) name)
    (hc : c = .new ∨ Primed env LabelCache.ofIssues "title" (ofClass tagElementClass w₀)
      c.localLoaded c.localByName) :
    KeepsTo env bctx w₀ ref (fun r => Primed env LabelCache.ofIssues "title"
        (ofClass tagElementClass w₀) r.2.localLoaded r.2.localByName)
      (LabelCache.Awaits.ensureLocalTag env space c name) := by
  have hprime : KeepsTo env bctx w₀ ref (fun c' => Primed env LabelCache.ofIssues "title"
      (ofClass tagElementClass w₀) c'.localLoaded c'.localByName)
      (LabelCache.Awaits.primeLocal env c) := by
    apply Coroutine.Confined.ite
    · intro hloaded
      refine Coroutine.Confined.pure (hc.resolve_left ?_)
      rintro rfl
      cases hloaded
    · intro hloaded
      obtain rfl := hc.resolve_right fun hprimed => hloaded hprimed.1
      refine Coroutine.Confined.bind (findAll h _ fun w hw => hw.tags) ?_
      rintro _ rfl
      exact Coroutine.Confined.ofExcept_bind fun entries hentries =>
        Coroutine.Confined.pure ⟨rfl, entries, hentries, rfl⟩
  refine Coroutine.Confined.bind hprime fun c' hc' => ?_
  apply Coroutine.Confined.ofExcept_bind
  intro text htext
  obtain ⟨existing, hget⟩ := hc'.get hname htext
  dsimp only
  rw [hget]
  exact Coroutine.Confined.pure hc'

theorem resolveLocal (space : Ref) {names : List JsValue}
    (hnames : ∀ name ∈ names,
      Listed env LabelCache.ofIssues "title" (ofClass tagElementClass w₀) name)
    {c : LabelCache} (hc : c = .new ∨ Primed env LabelCache.ofIssues "title"
      (ofClass tagElementClass w₀) c.localLoaded c.localByName) :
    KeepsTo env bctx w₀ ref (fun _ => True)
      (LabelCache.Awaits.resolveLocal env space c names) := by
  induction names generalizing c with
  | nil => exact Coroutine.Confined.pure trivial
  | cons name names ih =>
    have hname := hnames name List.mem_cons_self
    refine Coroutine.Confined.bind (ensureLocalTag h space hname hc) fun first hprimed => ?_
    have hrest := ih (fun other hother => hnames other (List.mem_cons_of_mem name hother))
      (.inr hprimed)
    exact Coroutine.Confined.bind hrest fun _ _ => Coroutine.Confined.pure trivial

/-- The milestone is there, so that none is created. -/
theorem ensureLocalMilestone (space : Ref) {label : JsValue} (description : JsValue)
    (hlabel : Listed env (MilestoneCache.ofProject space) "label" (ofClass milestoneClass w₀)
      label) :
    KeepsTo env bctx w₀ ref (fun _ => True)
      (MilestoneCache.Awaits.ensureLocalMilestone env space .new label description) := by
  have hprime : KeepsTo env bctx w₀ ref (fun c' => Primed env (MilestoneCache.ofProject space)
      "label" (ofClass milestoneClass w₀) c'.localLoaded c'.localByLabel)
      (MilestoneCache.Awaits.primeLocal env space .new) := by
    refine Coroutine.Confined.bind (findAll h _ fun w hw => hw.milestones) ?_
    rintro _ rfl
    exact Coroutine.Confined.ofExcept_bind fun entries hentries =>
      Coroutine.Confined.pure ⟨rfl, entries, hentries, rfl⟩
  refine Coroutine.Confined.bind hprime fun c' hc' => ?_
  apply Coroutine.Confined.ofExcept_bind
  intro text htext
  obtain ⟨existing, hget⟩ := hc'.get hlabel htext
  dsimp only
  rw [hget]
  exact Coroutine.Confined.pure trivial

theorem findByGitlab {kind : GitlabKind} (hkind : kind ≠ .user) (gitlabId : String) :
    KeepsTo env bctx w₀ ref
      (fun row => row = w₀.idmap.findByGitlab bctx.workspaceUuid kind gitlabId)
      (Async.findByGitlab env bctx.workspaceUuid kind gitlabId) :=
  read (fun _ => w₀.idmap.findByGitlab bctx.workspaceUuid kind gitlabId) fun w hw =>
    ⟨{ w with lookups := w.lookups ++ [(kind, gitlabId)] },
      (Sync.findByGitlab_run h _ _ _ w).trans (by rw [hw.rows kind gitlabId hkind]),
      hw.same rfl rfl rfl, rfl, rfl⟩

omit h in
theorem loadBinding {binding : BindingRef} (hload : env.loadBinding binding = .ok bctx) :
    KeepsTo env bctx w₀ ref (fun found => found = bctx) (Async.loadBinding env binding) := by
  apply read fun _ => bctx
  intro w hw
  refine ⟨w, ?_, hw, rfl, rfl⟩
  rw [Sync.loadBinding, hload, Effect.ofExcept_run]

omit h in
theorem mapRemoteState (remoteState : JsValue) :
    KeepsTo env bctx w₀ ref (fun _ => True)
      (HulyGitlab.Awaits.mapRemoteState env (toString bctx.gitlabProjectId) remoteState
        bctx.statuses) :=
  read (fun _ => StatusMap.statusOf (StatusMap.entryOf env w₀.statusCache
      (toString bctx.gitlabProjectId) bctx.statuses) remoteState) fun w hw =>
    ⟨_, (StatusMap.mapRemoteState_run env _ _ _ w).trans (by rw [hw.entry]), hw.remembered, rfl,
      trivial⟩

theorem setCursor (binding : BindingRef) (kind : CursorKind) (t : Option Nat) :
    KeepsTo env bctx w₀ ref (fun _ => True) (Async.setCursor env binding kind t) :=
  read (fun _ => ()) fun w hw =>
    ⟨_, Sync.setCursor_run h binding kind t w, hw.same rfl rfl rfl, rfl, trivial⟩

theorem advanceCursor (binding : BindingRef) (kind : CursorKind) (localTs : Option JsDate)
    (remoteTs : JsDate) : KeepsTo env bctx w₀ ref (fun _ => True)
      (HulyGitlab.Awaits.advanceCursor env binding kind localTs remoteTs) :=
  Coroutine.Confined.ite (fun _ => setCursor h binding kind remoteTs) fun _ =>
    Coroutine.Confined.pure trivial

theorem findOne :
    KeepsTo env bctx w₀ ref (fun _ => True) (Async.findOne env issueClass ref) :=
  read (fun doc => doc.filter fun doc => doc.objectClass = issueClass) fun w hw =>
    ⟨w, Sync.findOne_run h issueClass ref w, hw, rfl, trivial⟩

section Mirrored

variable (hissue : ∃ doc, w₀.docs.get? ref = some doc ∧ doc.objectClass = issueClass)
include hissue

theorem updateDoc (operations : Fields) :
    KeepsTo env bctx w₀ ref (fun _ => True) (Async.updateDoc env issueClass ref operations) :=
  write (fun doc => { doc with attrs := doc.attrs.assign operations }) (fun _ => rfl) hissue
    fun w _ hdoc => Sync.updateDoc_run h operations w hdoc

theorem putMixin (mixin : String) (attributes : Fields) :
    KeepsTo env bctx w₀ ref (fun _ => True)
      (Async.putMixin env issueClass ref mixin attributes) := by
  refine write (fun doc => { doc with
    mixins := doc.mixins.set mixin (((doc.mixins.get? mixin).getD []).assign attributes) })
    (fun _ => rfl) hissue fun w doc hdoc => ?_
  simp [Sync.putMixin, Effect.bind_run, Sync.reach_run h, hdoc]

theorem writeUpdate (update : Fields) (remoteTs : JsDate) :
    KeepsTo env bctx w₀ ref (fun _ => True)
      (HulyGitlab.Awaits.writeUpdate env ref update remoteTs) :=
  Coroutine.Confined.ite (fun _ => Coroutine.Confined.pure trivial) fun _ =>
    updateDoc h hissue _

end Mirrored

end Healthy

end KeepsTo

end HulyGitlab.SerialHandlers

namespace HulyGitlab

/-- `resourceKey` of the managers whose records have an `iid`, at the top or below
`object_attributes`. -/
def iidKey (name : String) (record : Fields) : Option String :=
  if (record.field "iid").isNumber then some (name ++ ":" ++ (record.field "iid").text)
  else
    match record.field "object_attributes" with
    | .obj attributes =>
        if (Fields.field attributes "iid").isNumber then
          some (name ++ ":" ++ (Fields.field attributes "iid").text)
        else none
    | _ => none

def Issues.resourceKey (record : Fields) : Option String := iidKey "issue" record

def MergeRequests.resourceKey (record : Fields) : Option String := iidKey "mr" record

namespace SerialHandlers

open UserIdentity

/-- A record and the manager it is for. -/
inductive Handler
  | issue (syncIssue : Fields)
  | mergeRequest (syncMR : Fields)

namespace Handler

def gitlabKind : Handler → GitlabKind
  | issue _ => .issue
  | mergeRequest _ => .merge_request

def record : Handler → Fields
  | issue syncIssue => syncIssue
  | mergeRequest syncMR => syncMR

def resourceKey : Handler → Option String
  | issue syncIssue => Issues.resourceKey syncIssue
  | mergeRequest syncMR => MergeRequests.resourceKey syncMR

/-- The key of the queue; a record without a resource key shares one with others. -/
def queueKey (binding : BindingRef) (x : Handler) : String :=
  Engine.queueKey binding (x.resourceKey.getD "*")

/-- `applyRemote`, await by await. -/
def code (env : Env) (binding : BindingRef) : Handler → Async Unit
  | issue syncIssue => Issues.Awaits.applyRemote env binding syncIssue
  | mergeRequest syncMR => MergeRequests.Awaits.applyRemote env binding syncMR

/-- `applyRemote` without anything in between. -/
def apply (env : Env) (binding : BindingRef) : Handler → Sync Unit
  | issue syncIssue => Issues.applyRemote env binding syncIssue
  | mergeRequest syncMR => MergeRequests.applyRemote env binding syncMR

theorem toEffect_code (env : Env) (binding : BindingRef) (x : Handler) :
    (x.code env binding).toEffect = x.apply env binding := by
  cases x with
  | issue syncIssue => exact Issues.Awaits.toEffect_applyRemote env binding syncIssue
  | mergeRequest syncMR => exact MergeRequests.Awaits.toEffect_applyRemote env binding syncMR

def row (env : Env) (bctx : BindingContext) (w : World) (x : Handler) : Option IdMapDoc :=
  w.idmap.findByGitlab bctx.workspaceUuid x.gitlabKind
    (projectKey env bctx (x.record.field "iid"))

/-- The record is of a mirrored object, and its tags and its milestone are there. A record of a
merge request is one that does not carry the approvals, as those of the webhooks. -/
structure Ready (env : Env) (bctx : BindingContext) (w₀ : World) (x : Handler) : Prop where
  iid : (x.record.field "iid").isNumber
  mirrored : ∃ row doc, x.row env bctx w₀ = some row ∧ row.hulyClass = issueClass ∧
    w₀.docs.get? row.hulyRef = some doc ∧ doc.objectClass = issueClass
  labels : ∀ names, (x.record.field "labels").elements = .ok names → ∀ name ∈ names,
    Listed env LabelCache.ofIssues "title" (ofClass tagElementClass w₀) name
  milestone : ∀ title, (x.record.field "milestone").prop "title" = .ok title →
    Listed env (MilestoneCache.ofProject bctx.hulyProjectRef) "label"
      (ofClass milestoneClass w₀) title
  approvals : x.gitlabKind = .merge_request → x.record.field "approvedBy" = .undefined

end Handler

section Keeping

variable {env : Env} (h : env.Healthy) {bctx : BindingContext} {w₀ : World} {ref : Ref}
include h

theorem keepsTo_resolveMilestone (space : Ref) {milestone : JsValue}
    (hlisted : ∀ title, milestone.prop "title" = .ok title →
      Listed env (MilestoneCache.ofProject space) "label" (ofClass milestoneClass w₀) title) :
    KeepsTo env bctx w₀ ref (fun _ => True)
      (Issues.Awaits.resolveMilestone env space milestone) := by
  apply Coroutine.Confined.ite
  · intro _
    exact Coroutine.Confined.pure trivial
  · intro _
    apply Coroutine.Confined.ofExcept_bind
    intro title htitle
    apply Coroutine.Confined.ofExcept_bind
    intro description _
    exact Coroutine.Confined.bind (KeepsTo.ensureLocalMilestone h space _ (hlisted title htitle))
      fun _ _ => Coroutine.Confined.pure trivial

theorem keepsTo_updateFromRemote (binding : BindingRef) (r : Issues.RemoteIssue)
    (remoteTs : JsDate)
    (hissue : ∃ doc, w₀.docs.get? ref = some doc ∧ doc.objectClass = issueClass) :
    KeepsTo env bctx w₀ ref (fun _ => True)
      (Issues.Awaits.updateFromRemote env binding ref r remoteTs) := by
  refine Coroutine.Confined.bind (KeepsTo.findOne h) fun hulyIssue _ => ?_
  cases hulyIssue with
  | none => exact Coroutine.Confined.pure trivial
  | some issue =>
    dsimp only
    exact Coroutine.Confined.bind (KeepsTo.writeUpdate h hissue _ _) fun _ _ =>
      KeepsTo.advanceCursor h binding _ _ _

theorem keepsTo_resolveReviewerUuids (users : JsValue) :
    KeepsTo env bctx w₀ ref (fun _ => True)
      (MergeRequests.Awaits.resolveReviewerUuids env bctx.workspaceUuid users) := by
  apply Coroutine.Confined.ite
  · intro _
    exact Coroutine.Confined.pure trivial
  · intro _
    apply Coroutine.Confined.ofExcept_bind
    intro users _
    exact Coroutine.Confined.bind (Coroutine.Confined.mapEach (KeepsTo.resolveUser h) users)
      fun _ _ => Coroutine.Confined.pure trivial

theorem keepsTo_resolveMilestone_mr (space : Ref) {milestone : JsValue}
    (hlisted : ∀ title, milestone.prop "title" = .ok title →
      Listed env (MilestoneCache.ofProject space) "label" (ofClass milestoneClass w₀) title) :
    KeepsTo env bctx w₀ ref (fun _ => True)
      (MergeRequests.Awaits.resolveMilestone env space milestone) := by
  apply Coroutine.Confined.ite
  · intro _
    exact Coroutine.Confined.pure trivial
  · intro _
    apply Coroutine.Confined.ofExcept_bind
    intro title htitle
    exact Coroutine.Confined.bind (KeepsTo.ensureLocalMilestone h space _ (hlisted title htitle))
      fun _ _ => Coroutine.Confined.pure trivial

/-- Without approvals in the record none are read of the document. -/
theorem keepsTo_resolveRecord {syncMR : Fields}
    (hx : (Handler.mergeRequest syncMR).Ready env bctx w₀) :
    KeepsTo env bctx w₀ ref (fun r => r.approvedByUuids = .undefined)
      (MergeRequests.Awaits.resolveRecord env bctx syncMR) := by
  apply Coroutine.Confined.ofExcept_bind
  intro description _
  refine Coroutine.Confined.bind (KeepsTo.resolveAssignee h _) fun assignee _ => ?_
  refine Coroutine.Confined.bind (keepsTo_resolveReviewerUuids h _) fun reviewers _ => ?_
  have happrovals : syncMR.field "approvedBy" = .undefined := hx.approvals rfl
  rw [happrovals]
  refine Coroutine.Confined.bind (Q := fun v => v = .undefined) (Coroutine.Confined.pure rfl) ?_
  rintro _ rfl
  apply Coroutine.Confined.ofExcept_bind
  intro names hnames
  refine Coroutine.Confined.bind
    (KeepsTo.resolveLocal h _ (hx.labels names hnames) (.inl rfl)) fun labelRefs _ => ?_
  refine Coroutine.Confined.bind (keepsTo_resolveMilestone_mr h _ hx.milestone)
    fun milestone _ => ?_
  exact Coroutine.Confined.pure rfl

section Mirrored

variable (hissue : ∃ doc, w₀.docs.get? ref = some doc ∧ doc.objectClass = issueClass)
include hissue

theorem keepsTo_putMixins (issue : HulyDoc) (syncMR : Fields) {r : MergeRequests.RemoteMR}
    (hr : r.approvedByUuids = .undefined) (remoteTs : JsDate) :
    KeepsTo env bctx w₀ ref (fun _ => True)
      (MergeRequests.Awaits.putMixins env ref issue syncMR r remoteTs) := by
  unfold MergeRequests.Awaits.putMixins
  have hkept : ∀ now, MergeRequests.resolvedApprovedBy issue now remoteTs r.approvedByUuids =
      .ok .undefined := by
    intro now
    rw [hr]
    rfl
  simp only [hkept, Coroutine.ofExcept_ok_bind]
  apply Coroutine.Confined.call_skip (fun w => ⟨w.now, rfl⟩) (besides_refl ref)
  refine Coroutine.Confined.bind (KeepsTo.putMixin h hissue _ _) fun _ _ => ?_
  apply Coroutine.Confined.ofExcept_bind
  intro review _
  exact Coroutine.Confined.ite (fun _ => Coroutine.Confined.pure trivial) fun _ =>
    KeepsTo.putMixin h hissue _ _

theorem keepsTo_updateFromRemote_mr (binding : BindingRef) (syncMR : Fields)
    {r : MergeRequests.RemoteMR} (hr : r.approvedByUuids = .undefined) (remoteTs : JsDate) :
    KeepsTo env bctx w₀ ref (fun _ => True)
      (MergeRequests.Awaits.updateFromRemote env binding bctx ref syncMR r remoteTs) := by
  refine Coroutine.Confined.bind (KeepsTo.findOne h) fun hulyIssue _ => ?_
  cases hulyIssue with
  | none => exact Coroutine.Confined.pure trivial
  | some issue =>
    dsimp only
    refine Coroutine.Confined.bind (KeepsTo.writeUpdate h hissue _ _) fun _ _ => ?_
    exact Coroutine.Confined.bind (keepsTo_putMixins h hissue issue syncMR hr remoteTs) fun _ _ =>
      KeepsTo.advanceCursor h binding _ _ _

end Mirrored

/-- The handler of a mirrored object keeps to the document of the object. -/
theorem keepsTo_code {binding : BindingRef} (hload : env.loadBinding binding = .ok bctx)
    {x : Handler} (hx : x.Ready env bctx w₀) {row : IdMapDoc}
    (hrow : x.row env bctx w₀ = some row) :
    KeepsTo env bctx w₀ row.hulyRef (fun _ => True) (x.code env binding) := by
  obtain ⟨row', doc, hrow', -, hdoc, hclass⟩ := hx.mirrored
  obtain rfl : row' = row := Option.some.inj (hrow'.symm.trans hrow)
  have hissue : ∃ doc, w₀.docs.get? row'.hulyRef = some doc ∧ doc.objectClass = issueClass :=
    ⟨doc, hdoc, hclass⟩
  cases x with
  | issue syncIssue =>
    refine Coroutine.Confined.bind (KeepsTo.loadBinding hload) ?_
    rintro _ rfl
    refine Coroutine.Confined.bind (KeepsTo.findByGitlab h (by decide) _) ?_
    intro existing hexisting
    obtain rfl : existing = some row' := hexisting.trans hrow
    apply Coroutine.Confined.ofExcept_bind
    intro description _
    refine Coroutine.Confined.bind (KeepsTo.resolveAssignee h _) fun assignee _ => ?_
    apply Coroutine.Confined.ofExcept_bind
    intro names hnames
    refine Coroutine.Confined.bind
      (KeepsTo.resolveLocal h _ (hx.labels names hnames) (.inl rfl)) fun labelRefs _ => ?_
    refine Coroutine.Confined.bind (keepsTo_resolveMilestone h _ hx.milestone)
      fun milestone _ => ?_
    refine Coroutine.Confined.bind (KeepsTo.mapRemoteState _) fun statusRef _ => ?_
    cases statusRef with
    | none => exact Coroutine.Confined.pure trivial
    | some status => exact keepsTo_updateFromRemote h binding _ _ hissue
  | mergeRequest syncMR =>
    refine Coroutine.Confined.bind (KeepsTo.loadBinding hload) ?_
    rintro _ rfl
    refine Coroutine.Confined.bind (KeepsTo.findByGitlab h (by decide) _) ?_
    intro existing hexisting
    obtain rfl : existing = some row' := hexisting.trans hrow
    refine Coroutine.Confined.bind (keepsTo_resolveRecord h hx) fun r hr => ?_
    exact keepsTo_updateFromRemote_mr h hissue binding syncMR hr _

end Keeping

/-- What others do meanwhile; they leave the shared things and the documents of issues. -/
structure Meanwhile (env : Env) (bctx : BindingContext) (w₀ : World) where
  change : World → World
  steady : ∀ w, Steady env bctx w₀ w → Steady env bctx w₀ (change w)
  issues : ∀ w ref doc, w₀.docs.get? ref = some doc → doc.objectClass = issueClass →
    (change w).docs.get? ref = w.docs.get? ref

/-- The handlers of a binding under the keys of the queue. -/
def run (env : Env) (binding : BindingRef) {bctx : BindingContext} {w₀ : World} :
    Pool String Handler Await Err World →
      List (Pool.Action String Handler (Meanwhile env bctx w₀)) →
      Pool String Handler Await Err World :=
  Transition.exec (Pool.step (Handler.queueKey binding) (Handler.code env binding)
    Meanwhile.change)

/-- The handlers without anything in between, the latest first. -/
def inOrder (env : Env) (binding : BindingRef) (w : World) (handlers : List Handler) : World :=
  handlers.foldr (fun x w => ((x.apply env binding).run w).2) w

section Keys

variable {env : Env} {binding : BindingRef} {bctx : BindingContext} {w₀ : World}

theorem projectKey_text {id id' : JsValue}
    (h : projectKey env bctx id = projectKey env bctx id') : id.text = id'.text := by
  have happend : ∀ {s t u : String}, s ++ t = s ++ u → t = u := fun h =>
    String.toList_inj.mp (List.append_cancel_left (by
      simpa only [String.toList_append] using congrArg String.toList h))
  unfold projectKey prefixGitlabIdForMultiInstance at h
  by_cases hmulti : bctx.isMultiInstanceWorkspace
  · rw [if_pos hmulti, if_pos hmulti] at h
    exact happend (happend h)
  · rw [if_neg hmulti, if_neg hmulti] at h
    exact happend h

/-- The name of the manager in the keys of the queue. -/
def Handler.keyName : Handler → String
  | issue _ => "issue"
  | mergeRequest _ => "mr"

theorem Handler.queueKey_of_ready {x : Handler} (hx : x.Ready env bctx w₀) :
    x.queueKey binding =
      Engine.queueKey binding (x.keyName ++ ":" ++ (x.record.field "iid").text) := by
  unfold queueKey
  cases x with
  | issue syncIssue =>
    have hkey : Issues.resourceKey syncIssue = some ("issue:" ++ (syncIssue.field "iid").text) :=
      if_pos hx.iid
    rw [resourceKey, hkey]
    rfl
  | mergeRequest syncMR =>
    have hkey : MergeRequests.resourceKey syncMR = some ("mr:" ++ (syncMR.field "iid").text) :=
      if_pos hx.iid
    rw [resourceKey, hkey]
    rfl

/-- Records of one document are under one key. -/
theorem Handler.queueKey_eq {x y : Handler} (hx : x.Ready env bctx w₀) (hy : y.Ready env bctx w₀)
    {r s : IdMapDoc} (hr : x.row env bctx w₀ = some r) (hs : y.row env bctx w₀ = some s)
    (href : r.hulyRef = s.hulyRef) : x.queueKey binding = y.queueKey binding := by
  obtain ⟨r', -, hr', hrclass, -⟩ := hx.mirrored
  obtain ⟨s', -, hs', hsclass, -⟩ := hy.mirrored
  obtain rfl : r' = r := Option.some.inj (hr'.symm.trans hr)
  obtain rfl : s' = s := Option.some.inj (hs'.symm.trans hs)
  obtain ⟨hrmem, hrkey⟩ := IdMap.findByGitlab_eq_some_iff.mp hr
  obtain ⟨hsmem, hskey⟩ := IdMap.findByGitlab_eq_some_iff.mp hs
  have hworkspace : r'.workspaceUuid = s'.workspaceUuid :=
    (congrArg Prod.fst hrkey).trans (congrArg Prod.fst hskey).symm
  have hrow : r' = s' := by
    apply IdMap.eq_of_hulyKey hrmem hsmem
    simp only [IdMapDoc.hulyKey, hworkspace, hrclass, hsclass, href]
  have hkeys := hrkey.symm.trans ((congrArg IdMapDoc.gitlabKey hrow).trans hskey)
  have hkind : x.gitlabKind = y.gitlabKind := congrArg (fun key => key.2.1) hkeys
  have htext := projectKey_text (congrArg (fun key => key.2.2) hkeys)
  have hname : x.keyName = y.keyName := by
    cases x <;> cases y <;> first | rfl | cases hkind
  rw [queueKey_of_ready hx, queueKey_of_ready hy, hname, htext]

end Keys

section Documents

variable {env : Env} {binding : BindingRef} {bctx : BindingContext} {w₀ : World}

/-- The refs of the documents that the handlers under a key are for. -/
def Target (env : Env) (binding : BindingRef) (bctx : BindingContext) (w₀ : World) (k : String)
    (ref : Ref) : Prop :=
  ∃ x : Handler, ∃ row, x.Ready env bctx w₀ ∧ x.queueKey binding = k ∧
    x.row env bctx w₀ = some row ∧ row.hulyRef = ref

/-- The documents of a key. -/
def documents (env : Env) (binding : BindingRef) (bctx : BindingContext) (w₀ : World) (k : String)
    (w : World) : {ref // Target env binding bctx w₀ k ref} → Option HulyDoc :=
  fun ref => w.docs.get? ref.1

theorem keeping_of_ready (h : env.Healthy) (hload : env.loadBinding binding = .ok bctx)
    {x : Handler} (hx : x.Ready env bctx w₀) :
    Pool.Keeping (Steady env bctx w₀) (documents env binding bctx w₀) (Handler.queueKey binding)
      (Handler.code env binding) x := by
  obtain ⟨row, -, hrow, -⟩ := hx.mirrored
  apply Coroutine.Confined.widen (besides_refl row.hulyRef) besides_trans ?_ ?_ ?_
    (keepsTo_code h hload hx hrow)
  · intro w w' hown
    exact congrFun hown ⟨row.hulyRef, x, row, hx, rfl, hrow, rfl⟩
  · intro s t s' t' hown hpart hst hst'
    funext ref
    by_cases href : ref.1 = row.hulyRef
    · dsimp only [documents]
      rw [href]
      exact hpart
    · exact (hst ref.1 href).trans ((congrFun hown ref).trans (hst' ref.1 href).symm)
  · intro w w' hbesides k hk
    funext ref
    apply hbesides
    obtain ⟨y, row', hy, hkey, hrow', href⟩ := ref.2
    intro hsame
    exact hk (hkey.symm.trans (Handler.queueKey_eq hy hx hrow' hrow (href.trans hsame)))

end Documents

/-- Two mirrored objects, an issue and a merge request. -/
def mirroredWorld : World :=
  { World.initial with
    idmap := ⟨[⟨"ws", .issue, "7:1", issueClass, "a"⟩,
      ⟨"ws", .merge_request, "7:2", issueClass, "b"⟩], by decide, by decide⟩
    docs := (OrderedMap.empty.set "a" ⟨issueClass, "project", [], .empty⟩).set "b"
      ⟨issueClass, "project", [], .empty⟩ }

def newTitle (iid : Int) : Fields :=
  [("iid", .num iid), ("title", .str "new"), ("state", .str "opened"), ("assignees", .arr []),
    ("labels", .arr []), ("milestone", .null), ("updatedAt", .date 5)]

theorem ready_newTitle (x : Handler)
    (h : x = .issue (newTitle 1) ∨ x = .mergeRequest (newTitle 2)) :
    x.Ready (Env.quiet quietBinding) quietBinding mirroredWorld := by
  have hrecord : ∀ iid, (newTitle iid).field "labels" = .arr [] ∧
      (newTitle iid).field "milestone" = .null := fun iid => ⟨rfl, rfl⟩
  obtain rfl | rfl := h
  · refine ⟨rfl, ⟨⟨"ws", .issue, "7:1", issueClass, "a"⟩, ⟨issueClass, "project", [], .empty⟩,
      by decide +kernel, rfl, rfl, rfl⟩, ?_, ?_, fun hkind => by cases hkind⟩
    · rintro _ ⟨⟩ name hname
      exact absurd hname List.not_mem_nil
    · intro title htitle
      cases htitle
  · refine ⟨rfl, ⟨⟨"ws", .merge_request, "7:2", issueClass, "b"⟩,
      ⟨issueClass, "project", [], .empty⟩, by decide +kernel, rfl, rfl, rfl⟩, ?_, ?_, fun _ => rfl⟩
    · rintro _ ⟨⟩ name hname
      exact absurd hname List.not_mem_nil
    · intro title htitle
      cases htitle

/-- The two handlers start, and take turns. -/
def takingTurns : List (Pool.Action String Handler
    (Meanwhile (Env.quiet quietBinding) quietBinding mirroredWorld)) :=
  [.start (.issue (newTitle 1)), .start (.mergeRequest (newTitle 2))] ++
    (List.replicate 12 [.advance "binding/issue:1", .advance "binding/mr:2"]).flatten

end SerialHandlers

end HulyGitlab
