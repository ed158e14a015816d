import HulyGitlab.Lib.Guarding
import HulyGitlab.Sync.EchoMarkers
import HulyGitlab.Sync.LocalAwaits
import HulyGitlab.Sync.MirrorDiscipline

/-!
# Documents that are not mirrored

A handler writes the documents that rows of the id map lead to, and those it
creates. A document without a row belongs to its users: however the handlers
interleave, with each other and with users, it is what the users make of it.
-/

namespace HulyGitlab

open Coroutine (Guards)

/-- The document is there, and no row leads to it. -/
structure Unmirrored (ref : Ref) (w : World) : Prop where
  there : ref ∈ w.docs.keys
  rows : ∀ row ∈ w.idmap.rows, row.gitlabKind ≠ .user → row.hulyRef ≠ ref

/-- The calls leave the document alone and map nothing to it. -/
abbrev Avoids (ref : Ref) {A : Type} (Q : A → Prop) (p : Async A) : Prop :=
  Guards (Unmirrored ref) (fun w => w.docs.get? ref) Q p

namespace Avoids

variable {env : Env} {ref : Ref} {A B : Type}

/-- Calls whose result does not matter. -/
theorem after {p : Async A} {f : A → Async B} {Q : B → Prop} (hp : Avoids ref (fun _ => True) p)
    (hf : ∀ a, Avoids ref Q (f a)) : Avoids ref Q (p >>= f) :=
  Guards.bind hp fun a _ => hf a

theorem ofExcept_bind {r : Except Err A} {f : A → Async B} {Q : B → Prop}
    (hf : ∀ a, Avoids ref Q (f a)) : Avoids ref Q (Coroutine.ofExcept r >>= f) :=
  Guards.bind (Q := fun _ => True) (Guards.ofExcept fun _ _ => trivial) fun a _ => hf a

theorem same {w w' : World} (h : Unmirrored ref w) (hdocs : w'.docs = w.docs)
    (hidmap : w'.idmap = w.idmap) : Unmirrored ref w' ∧ w'.docs.get? ref = w.docs.get? ref := by
  refine ⟨⟨?_, ?_⟩, ?_⟩
  · rw [hdocs]
    exact h.there
  · rw [hidmap]
    exact h.rows
  · rw [hdocs]

/-- A call that writes neither a document nor a row. -/
theorem read {point : Await} {m : Sync A} (hdocs : ∀ w, (m.run w).2.docs = w.docs)
    (hidmap : ∀ w, (m.run w).2.idmap = w.idmap) {Q : A → Prop}
    (hresult : ∀ w, Unmirrored ref w → ∀ a, (m.run w).1 = .ok a → Q a) :
    Avoids ref Q (Coroutine.call point m) := by
  refine Guards.call fun w hw => ?_
  obtain ⟨hnext, hview⟩ := same hw (hdocs w) (hidmap w)
  exact ⟨hnext, hview, hresult w hw⟩

/-- A call to a service that changes nothing when it fails. -/
theorem of_reach {point : Await} {service : Service} {f : Unit → Sync A} {Q : A → Prop}
    (h : ∀ w, Unmirrored ref w → Unmirrored ref ((f ()).run w).2 ∧
      ((f ()).run w).2.docs.get? ref = w.docs.get? ref ∧
      ∀ a, ((f ()).run w).1 = .ok a → Q a) :
    Avoids ref Q (Coroutine.call point (Sync.reach env service >>= f)) := by
  refine Guards.call fun w hw => ?_
  obtain ⟨e, hrun⟩ | hrun := Sync.reach_bind_cases env service f w
  · rw [hrun]
    refine ⟨hw, rfl, ?_⟩
    rintro _ ⟨⟩
  · rw [hrun]
    exact h w hw

/-- A call to a service that only reads. -/
theorem reads {point : Await} {service : Service} {f : Unit → Sync A}
    (h : ∀ w, ((f ()).run w).2.docs = w.docs ∧ ((f ()).run w).2.idmap = w.idmap) :
    Avoids ref (fun _ => True) (Coroutine.call point (Sync.reach env service >>= f)) := by
  refine of_reach fun w hw => ?_
  obtain ⟨hnext, hview⟩ := same hw (h w).1 (h w).2
  exact ⟨hnext, hview, fun _ _ => trivial⟩

variable (env)

theorem loadBinding (binding : BindingRef) :
    Avoids ref (fun _ => True) (Async.loadBinding env binding) :=
  read (fun _ => rfl) (fun _ => rfl) fun _ _ _ _ => trivial

theorem findPersonBySocialKey (socialKey : String) :
    Avoids ref (fun _ => True) (Async.findPersonBySocialKey env socialKey) :=
  reads fun _ => ⟨rfl, rfl⟩

theorem findByHuly (workspaceUuid hulyClass : String) (hulyRef : Ref) :
    Avoids ref (fun _ => True) (Async.findByHuly env workspaceUuid hulyClass hulyRef) :=
  reads fun _ => ⟨rfl, rfl⟩

theorem getCursor (binding : BindingRef) (kind : CursorKind) :
    Avoids ref (fun _ => True) (Async.getCursor env binding kind) :=
  reads fun _ => ⟨rfl, rfl⟩

theorem setCursor (binding : BindingRef) (kind : CursorKind) (t : Option Nat) :
    Avoids ref (fun _ => True) (Async.setCursor env binding kind t) :=
  reads fun _ => ⟨rfl, rfl⟩

theorem findOne (objectClass : String) (other : Ref) :
    Avoids ref (fun _ => True) (Async.findOne env objectClass other) :=
  reads fun _ => ⟨rfl, rfl⟩

theorem findAll (objectClass : String) :
    Avoids ref (fun _ => True) (Async.findAll env objectClass) :=
  reads fun _ => ⟨rfl, rfl⟩

theorem request (r : GitLabRequest) : Avoids ref (fun _ => True) (Async.request env r) :=
  read (fun _ => rfl) (fun _ => rfl) fun _ _ _ _ => trivial

theorem enqueueRecord (e : EnqueuedRecord) :
    Avoids ref (fun _ => True) (Async.enqueueRecord e) :=
  read (fun _ => rfl) (fun _ => rfl) fun _ _ _ _ => trivial

theorem now : Avoids ref (fun _ => True) Async.now :=
  read (fun _ => rfl) (fun _ => rfl) fun _ _ _ _ => trivial

/-- A row that is found leads to another document. -/
theorem findByGitlab (workspaceUuid : String) {gitlabKind : GitlabKind} (gitlabId : String) :
    Avoids ref (fun found => ∀ row ∈ found, gitlabKind ≠ .user → row.hulyRef ≠ ref)
      (Async.findByGitlab env workspaceUuid gitlabKind gitlabId) := by
  refine read (fun w => Writing.findByGitlab_docs env _ _ _ w)
    (fun w => Aloof.findByGitlab_idmap env _ _ _ w) fun w hw found hrun row hrow hkind => ?_
  obtain ⟨rfl, -⟩ := Sync.findByGitlab_ok env (Prod.ext hrun rfl)
  obtain ⟨hmem, hkey⟩ := IdMap.findByGitlab_eq_some_iff.mp hrow
  obtain rfl : row.gitlabKind = gitlabKind := (Prod.mk.inj (Prod.mk.inj hkey).2).1
  exact hw.rows row hmem hkind

theorem upsertIdMap {doc : IdMapDoc} (h : doc.gitlabKind ≠ .user → doc.hulyRef ≠ ref) :
    Avoids ref (fun _ => True) (Async.upsertIdMap env doc) := by
  refine of_reach fun w hw => ?_
  rw [Effect.step_run]
  cases hupsert : w.idmap.upsert doc with
  | error e => exact ⟨hw, rfl, fun _ _ => trivial⟩
  | ok idmap =>
    refine ⟨⟨hw.there, fun row hrow => ?_⟩, rfl, fun _ _ => trivial⟩
    obtain rfl | ⟨hold, -⟩ := (IdMap.mem_of_upsert hupsert).mp hrow
    · exact h
    · exact hw.rows row hold

/-- A new document is another one. -/
theorem createDoc (objectClass : String) (space : Ref) (attributes : Fields) :
    Avoids ref (fun other => other ≠ ref) (Async.createDoc env objectClass space attributes) := by
  refine of_reach fun w hw => ?_
  have hne : env.generateId w.docs.keys ≠ ref := by
    intro heq
    exact env.generateId_fresh w.docs.keys (heq ▸ hw.there)
  rw [Effect.step_run]
  refine ⟨⟨?_, hw.rows⟩, OrderedMap.get?_set_of_ne _ hne.symm _, ?_⟩
  · dsimp only
    rw [OrderedMap.mem_keys_set]
    exact .inr hw.there
  · rintro _ ⟨⟩
    exact hne

/-- A write to another document. -/
theorem write {point : Await} {other : Ref} (h : other ≠ ref) (change : HulyDoc → HulyDoc) :
    Avoids ref (fun _ => True) (Coroutine.call point (Sync.reach env .platform >>= fun _ =>
      Effect.modify fun w =>
        match w.docs.get? other with
        | some doc => { w with docs := w.docs.set other (change doc) }
        | none => w)) := by
  refine of_reach fun w hw => ?_
  rw [Effect.modify_run]
  cases w.docs.get? other with
  | none => exact ⟨hw, rfl, fun _ _ => trivial⟩
  | some doc =>
    refine ⟨⟨?_, hw.rows⟩, OrderedMap.get?_set_of_ne _ h.symm _, fun _ _ => trivial⟩
    dsimp only
    rw [OrderedMap.mem_keys_set]
    exact .inr hw.there

theorem updateDoc (objectClass : String) {other : Ref} (h : other ≠ ref) (operations : Fields) :
    Avoids ref (fun _ => True) (Async.updateDoc env objectClass other operations) :=
  write env h fun doc => { doc with attrs := doc.attrs.assign operations }

theorem putMixin (objectClass : String) {other : Ref} (h : other ≠ ref) (mixin : String)
    (attributes : Fields) :
    Avoids ref (fun _ => True) (Async.putMixin env objectClass other mixin attributes) :=
  write env h fun doc => doc.withMixin mixin attributes

theorem writeMixin {other : Ref} (h : other ≠ ref) (mixin : String) (attributes : Fields) :
    Avoids ref (fun _ => True) (MixinMigration.writeMixin env other mixin attributes) :=
  write env h fun doc => doc.mergeMixin mixin attributes

end Avoids

variable (env : Env) {ref : Ref}

namespace UserIdentity.Awaits

theorem avoids_mapByGitlabUser (user : IdentityUser) :
    Avoids ref (fun _ => True) (mapByGitlabUser env user) := by
  refine Avoids.after (Avoids.findPersonBySocialKey env _) fun byGitlab => ?_
  cases byGitlab with
  | some ref => exact Guards.pure trivial
  | none =>
    refine Guards.ite ?_ (Guards.pure trivial)
    exact Avoids.ofExcept_bind fun _ => Avoids.findPersonBySocialKey env _

theorem avoids_resolveUser (workspaceUuid : String) (user : JsValue) :
    Avoids ref (fun _ => True) (resolveUser env workspaceUuid user) := by
  refine Avoids.ofExcept_bind fun identity => ?_
  refine Avoids.after (avoids_mapByGitlabUser env identity) fun matched => ?_
  cases matched with
  | some ref => exact Guards.pure trivial
  | none =>
    refine Guards.bind (Avoids.findByGitlab env _ _) fun existing _ => ?_
    cases existing with
    | some row => exact Guards.pure trivial
    | none =>
      refine Avoids.after (Avoids.upsertIdMap env fun hkind => absurd rfl hkind) fun _ => ?_
      exact Guards.pure trivial

theorem avoids_resolveAssignee (workspaceUuid : String) (assignees : JsValue) :
    Avoids ref (fun _ => True) (resolveAssignee env workspaceUuid assignees) := by
  refine Avoids.ofExcept_bind fun users => ?_
  cases users with
  | nil => exact Guards.pure trivial
  | cons first rest =>
    exact Avoids.after (avoids_resolveUser env workspaceUuid first) fun _ => Guards.pure trivial

end UserIdentity.Awaits

namespace LabelCache.Awaits

theorem avoids_ensureLocalTag (space : Ref) (c : LabelCache) (name : JsValue) :
    Avoids ref (fun _ => True) (ensureLocalTag env space c name) := by
  have hprime : Avoids ref (fun _ => True) (primeLocal env c) := by
    refine Guards.ite (Guards.pure trivial) (Avoids.after (Avoids.findAll env _) fun _ => ?_)
    exact Avoids.ofExcept_bind fun _ => Guards.pure trivial
  refine Avoids.after hprime fun c => Avoids.ofExcept_bind fun text => ?_
  dsimp only
  cases c.localByName.get (env.toLowerCase text) with
  | some existing => exact Guards.pure trivial
  | none => exact Guards.bind (Avoids.createDoc env _ _ _) fun _ _ => Guards.pure trivial

theorem avoids_resolveLocal (space : Ref) (c : LabelCache) (names : List JsValue) :
    Avoids ref (fun _ => True) (resolveLocal env space c names) := by
  induction names generalizing c with
  | nil => exact Guards.pure trivial
  | cons name names ih =>
    refine Avoids.after (avoids_ensureLocalTag env space c name) fun first => ?_
    exact Avoids.after (ih first.2) fun _ => Guards.pure trivial

theorem avoids_ensureRemoteLabel (projectId : Int) (c : LabelCache) (name color : JsValue) :
    Avoids ref (fun _ => True) (ensureRemoteLabel env projectId c name color) := by
  have hprime : Avoids ref (fun _ => True) (primeRemote env projectId c) := by
    refine Guards.ite (Guards.pure trivial) (Avoids.after (Avoids.request env _) fun _ => ?_)
    exact Avoids.ofExcept_bind fun _ => Avoids.ofExcept_bind fun _ => Guards.pure trivial
  refine Avoids.after hprime fun c => Avoids.ofExcept_bind fun text => ?_
  dsimp only
  cases c.remoteByName.get (env.toLowerCase text) with
  | some existing => exact Guards.pure trivial
  | none => exact Avoids.after (Avoids.request env _) fun _ => Guards.pure trivial

theorem avoids_ensureRemote (projectId : Int) (c : LabelCache) (labels : List JsValue) :
    Avoids ref (fun _ => True) (ensureRemote env projectId c labels) := by
  induction labels generalizing c with
  | nil => exact Guards.pure trivial
  | cons l labels ih =>
    refine Avoids.ofExcept_bind fun name => Avoids.ofExcept_bind fun color => ?_
    refine Avoids.after (avoids_ensureRemoteLabel env projectId c name color) fun ensured => ?_
    refine Avoids.ofExcept_bind fun ensuredName => ?_
    exact Avoids.after (ih ensured.2) fun _ => Guards.pure trivial

end LabelCache.Awaits

namespace MilestoneCache.Awaits

theorem avoids_ensureLocalMilestone (space : Ref) (c : MilestoneCache)
    (label description : JsValue) :
    Avoids ref (fun _ => True) (ensureLocalMilestone env space c label description) := by
  have hprime : Avoids ref (fun _ => True) (primeLocal env space c) := by
    refine Guards.ite (Guards.pure trivial) (Avoids.after (Avoids.findAll env _) fun _ => ?_)
    exact Avoids.ofExcept_bind fun _ => Guards.pure trivial
  refine Avoids.after hprime fun c => Avoids.ofExcept_bind fun text => ?_
  dsimp only
  cases c.localByLabel.get (env.toLowerCase text) with
  | some existing => exact Guards.pure trivial
  | none => exact Guards.bind (Avoids.createDoc env _ _ _) fun _ _ => Guards.pure trivial

theorem avoids_ensureRemoteMilestone (projectId : Int) (c : MilestoneCache)
    (title description : JsValue) :
    Avoids ref (fun _ => True) (ensureRemoteMilestone env projectId c title description) := by
  have hprime : Avoids ref (fun _ => True) (primeRemote env projectId c) := by
    refine Guards.ite (Guards.pure trivial) (Avoids.after (Avoids.request env _) fun _ => ?_)
    exact Avoids.ofExcept_bind fun _ => Avoids.ofExcept_bind fun _ => Guards.pure trivial
  refine Avoids.after hprime fun c => Avoids.ofExcept_bind fun text => ?_
  dsimp only
  cases c.remoteByTitle.get (env.toLowerCase text) with
  | some existing => exact Guards.pure trivial
  | none => exact Avoids.after (Avoids.request env _) fun _ => Guards.pure trivial

end MilestoneCache.Awaits

namespace Awaits

theorem avoids_advanceCursor (binding : BindingRef) (kind : CursorKind)
    (localTs : Option JsDate) (remoteTs : JsDate) :
    Avoids ref (fun _ => True) (advanceCursor env binding kind localTs remoteTs) :=
  Guards.ite (Avoids.setCursor env _ _ _) (Guards.pure trivial)

theorem avoids_writeUpdate {hulyRef : Ref} (h : hulyRef ≠ ref) (operations : Fields)
    (remoteTs : JsDate) :
    Avoids ref (fun _ => True) (writeUpdate env hulyRef operations remoteTs) :=
  Guards.ite (Guards.pure trivial) (Avoids.updateDoc env _ h _)

theorem avoids_mapRemoteState (projectKey : String) (remoteState : JsValue)
    (statuses : List Status) :
    Avoids ref (fun _ => True) (mapRemoteState env projectKey remoteState statuses) := by
  refine Avoids.read (fun w => ?_) (fun w => ?_) fun _ _ _ _ => trivial
  · rw [StatusMap.mapRemoteState_run]
  · rw [StatusMap.mapRemoteState_run]

theorem avoids_mapHulyStatus (projectKey : String) (statusRef : JsValue)
    (statuses : List Status) :
    Avoids ref (fun _ => True) (mapHulyStatus env projectKey statusRef statuses) := by
  have hrun : ∀ w, ((StatusMap.mapHulyStatus env projectKey statusRef statuses).run w).2.docs =
      w.docs ∧ ((StatusMap.mapHulyStatus env projectKey statusRef statuses).run w).2.idmap =
        w.idmap := by
    intro w
    unfold StatusMap.mapHulyStatus
    rw [Effect.bind_of_ok (StatusMap.getEntry_run env projectKey statuses w)]
    cases statusRef <;> exact ⟨rfl, rfl⟩
  exact Avoids.read (fun w => (hrun w).1) (fun w => (hrun w).2) fun _ _ _ _ => trivial

end Awaits

namespace Issues.Awaits

variable {binding : BindingRef} {bctx : BindingContext}

theorem avoids_createFromRemote (gitlabId : String) (r : RemoteIssue) (remoteTs : JsDate) :
    Avoids ref (fun _ => True) (createFromRemote env binding bctx gitlabId r remoteTs) := by
  refine Guards.bind (Avoids.createDoc env _ _ _) fun issueRef hnew => ?_
  exact Avoids.after (Avoids.upsertIdMap env fun _ => hnew) fun _ => Avoids.setCursor env _ _ _

theorem avoids_updateFromRemote {hulyRef : Ref} (h : hulyRef ≠ ref) (r : RemoteIssue)
    (remoteTs : JsDate) :
    Avoids ref (fun _ => True) (updateFromRemote env binding hulyRef r remoteTs) := by
  refine Avoids.after (Avoids.findOne env _ _) fun hulyIssue => ?_
  cases hulyIssue with
  | none => exact Guards.pure trivial
  | some issue =>
    dsimp only
    refine Avoids.after (HulyGitlab.Awaits.avoids_writeUpdate env h _ _) fun _ => ?_
    exact HulyGitlab.Awaits.avoids_advanceCursor env _ _ _ _

theorem avoids_resolveMilestone (space : Ref) (milestone : JsValue) :
    Avoids ref (fun _ => True) (resolveMilestone env space milestone) := by
  unfold resolveMilestone
  refine Guards.ite (Guards.pure trivial) ?_
  refine Avoids.ofExcept_bind fun title => Avoids.ofExcept_bind fun description => ?_
  refine Avoids.after ?_ fun _ => Guards.pure trivial
  exact MilestoneCache.Awaits.avoids_ensureLocalMilestone env _ _ _ _

theorem avoids_applyRemote (syncIssue : Fields) :
    Avoids ref (fun _ => True) (applyRemote env binding syncIssue) := by
  refine Avoids.after (Avoids.loadBinding env _) fun bctx => ?_
  refine Guards.bind (Avoids.findByGitlab env _ _) fun existing hexisting => ?_
  refine Avoids.ofExcept_bind fun rawDescription => ?_
  refine Avoids.after (UserIdentity.Awaits.avoids_resolveAssignee env _ _) fun assignee => ?_
  refine Avoids.ofExcept_bind fun names => ?_
  refine Avoids.after (LabelCache.Awaits.avoids_resolveLocal env _ _ _) fun labelRefs => ?_
  refine Avoids.after (avoids_resolveMilestone env _ _) fun milestone => ?_
  refine Avoids.after (HulyGitlab.Awaits.avoids_mapRemoteState env _ _ _) fun statusRef => ?_
  cases statusRef with
  | none => exact Guards.pure trivial
  | some status =>
    cases existing with
    | none => exact avoids_createFromRemote env _ _ _
    | some row => exact avoids_updateFromRemote env (hexisting row rfl (by decide)) _ _

theorem avoids_touchCursor : Avoids ref (fun _ => True) (touchCursor env binding) :=
  Avoids.after Avoids.now fun _ => Avoids.setCursor env _ _ _

theorem avoids_remoteBody (change : Fields) :
    Avoids ref (fun _ => True) (remoteBody env bctx change) := by
  refine Avoids.after ?_ fun _ => Avoids.after ?_ fun _ => Avoids.after ?_ fun _ =>
    Avoids.after ?_ fun _ => Guards.pure trivial
  · refine Guards.ite (Guards.pure trivial) (Avoids.ofExcept_bind fun items => ?_)
    exact Avoids.after (LabelCache.Awaits.avoids_ensureRemote env _ _ _) fun _ =>
      Guards.pure trivial
  · refine Guards.ite (Guards.pure trivial) (Avoids.ofExcept_bind fun title => ?_)
    refine Avoids.ofExcept_bind fun description => ?_
    refine Avoids.after ?_ fun _ => Guards.ofExcept fun _ _ => trivial
    exact MilestoneCache.Awaits.avoids_ensureRemoteMilestone env _ _ _ _
  · refine Guards.ite (Guards.pure trivial) (Avoids.after ?_ fun _ => Guards.pure trivial)
    exact HulyGitlab.Awaits.avoids_mapHulyStatus env _ _ _
  · exact Guards.ite (Guards.pure trivial) (Avoids.ofExcept_bind fun _ => Guards.pure trivial)

theorem avoids_applyLocal {doc : String} (h : stripDocPrefix doc ≠ ref) (change : Fields) :
    Avoids ref (fun _ => True) (applyLocal env binding doc change) := by
  refine Avoids.after (Avoids.loadBinding env _) fun bctx => ?_
  refine Avoids.after (Avoids.findByHuly env _ _ _) fun mapping => ?_
  refine Avoids.after (avoids_remoteBody env _) fun body => ?_
  cases mapping with
  | none =>
    refine Guards.ite (Guards.pure trivial) ?_
    refine Avoids.after (Avoids.request env _) fun created => Avoids.ofExcept_bind fun iid => ?_
    exact Avoids.after (Avoids.upsertIdMap env fun _ => h) fun _ => avoids_touchCursor env
  | some row =>
    dsimp only
    cases parseIid row.gitlabId with
    | none => exact Guards.pure trivial
    | some iid =>
      refine Guards.ite (Guards.pure trivial) ?_
      exact Avoids.after (Avoids.request env _) fun _ => avoids_touchCursor env

end Issues.Awaits

namespace Notes.Awaits

variable {binding : BindingRef} {bctx : BindingContext}

theorem avoids_routeReview (rawRecord : Fields) (noteableIid note position discussionId : JsValue) :
    Avoids ref (fun _ => True)
      (routeReview env binding rawRecord noteableIid note position discussionId) := by
  refine Avoids.after (Avoids.loadBinding env _) fun bctx => ?_
  refine Guards.bind (Avoids.findByGitlab env _ _) fun parentMapping _ => ?_
  cases parentMapping with
  | none => exact Guards.ite (Guards.pure trivial) (Avoids.enqueueRecord _)
  | some row => exact Avoids.enqueueRecord _

theorem avoids_applyMapped (parentRef : Ref) (note : JsValue) :
    Avoids ref (fun _ => True) (applyMapped env binding bctx parentRef note) := by
  refine Guards.bind (Avoids.findByGitlab env _ _) fun existing hexisting => ?_
  refine Avoids.ofExcept_bind fun body => ?_
  refine Avoids.after (UserIdentity.Awaits.avoids_resolveUser env _ _) fun author => ?_
  cases existing with
  | none =>
    refine Guards.bind (Avoids.createDoc env _ _ _) fun msgRef hnew => ?_
    exact Avoids.after (Avoids.upsertIdMap env fun _ => hnew) fun _ => Avoids.setCursor env _ _ _
  | some row =>
    refine Avoids.after (Avoids.getCursor env _ _) fun cursor => Guards.ite ?_ (Guards.pure trivial)
    refine Avoids.after (Avoids.updateDoc env _ (hexisting row rfl (by decide)) _) fun _ => ?_
    exact Avoids.setCursor env _ _ _

theorem avoids_applyNote (rawRecord : Fields) (noteableIid note : JsValue) :
    Avoids ref (fun _ => True) (applyNote env binding rawRecord noteableIid note) := by
  refine Avoids.ofExcept_bind fun system => Guards.ite (Guards.pure trivial) ?_
  refine Avoids.after (Avoids.loadBinding env _) fun bctx => ?_
  refine Guards.bind (Avoids.findByGitlab env _ _) fun parent _ => ?_
  cases parent with
  | some row => exact avoids_applyMapped env _ _
  | none =>
    dsimp only
    cases markAndRetry rawRecord NOTE_RETRY_FLAG with
    | none => exact Guards.pure trivial
    | some marked => exact Avoids.enqueueRecord _

theorem avoids_applyRemote (rawRecord : Fields) :
    Avoids ref (fun _ => True) (applyRemote env binding rawRecord) := by
  refine Guards.ite (avoids_applyNote env _ _ _) (Avoids.after Avoids.now fun now => ?_)
  cases parseWebhookPayload rawRecord now with
  | none => exact Guards.pure trivial
  | some parsed =>
    cases parsed with
    | malformedPosition noteableIid note => exact Guards.pure trivial
    | review noteableIid note position discussionId =>
      exact avoids_routeReview env _ _ _ _ _
    | note noteableIid note => exact avoids_applyNote env _ _ _

theorem avoids_touchCursor : Avoids ref (fun _ => True) (touchCursor env binding) :=
  Avoids.after Avoids.now fun _ => Avoids.setCursor env _ _ _

theorem avoids_resolveParent (change : Fields) :
    Avoids ref (fun _ => True) (resolveParent env bctx change) := by
  refine Guards.ite (Guards.pure trivial) ?_
  refine Avoids.after (Avoids.findByHuly env _ _ _) fun parentMap => ?_
  cases parentMap with
  | none => exact Guards.pure trivial
  | some row =>
    dsimp only
    cases parseProjectIid row.gitlabId with
    | none => exact Guards.pure trivial
    | some ids => exact Guards.pure trivial

theorem avoids_createRemote {hulyRef : Ref} (h : hulyRef ≠ ref) (parent : LocalParent)
    (message : JsValue) :
    Avoids ref (fun _ => True) (createRemote env binding bctx hulyRef parent message) := by
  refine Guards.ite (Guards.pure trivial) ?_
  refine Avoids.ofExcept_bind fun text => Avoids.ofExcept_bind fun iid => ?_
  refine Avoids.after (Avoids.request env _) fun created => Avoids.ofExcept_bind fun id => ?_
  exact Avoids.after (Avoids.upsertIdMap env fun _ => h) fun _ => avoids_touchCursor env

theorem avoids_changeRemote (noteId : Int) (parent : LocalParent) (change : Fields) :
    Avoids ref (fun _ => True) (changeRemote env binding bctx noteId parent change) := by
  refine Guards.ite (Guards.pure trivial) (Guards.ite ?_ (Guards.ite ?_ (Guards.pure trivial)))
  · refine Avoids.ofExcept_bind fun iid => ?_
    exact Avoids.after (Avoids.request env _) fun _ => avoids_touchCursor env
  · refine Avoids.ofExcept_bind fun text => Avoids.ofExcept_bind fun iid => ?_
    exact Avoids.after (Avoids.request env _) fun _ => avoids_touchCursor env

theorem avoids_applyLocal {doc : String} (h : stripDocPrefix doc ≠ ref) (change : Fields) :
    Avoids ref (fun _ => True) (applyLocal env binding doc change) := by
  refine Guards.ite (Guards.pure trivial) ?_
  refine Avoids.after (Avoids.loadBinding env _) fun bctx => ?_
  refine Avoids.after (Avoids.findByHuly env _ _ _) fun mapping => ?_
  refine Guards.ite (Guards.pure trivial) ?_
  refine Avoids.after (avoids_resolveParent env _) fun parent => ?_
  cases parent with
  | none => exact Guards.pure trivial
  | some parent =>
    cases mapping with
    | none => exact avoids_createRemote env h _ _
    | some row =>
      dsimp only
      cases parseIid row.gitlabId with
      | none => exact Guards.pure trivial
      | some noteId => exact avoids_changeRemote env _ _ _

end Notes.Awaits

namespace MergeRequests.Awaits

open MRApprovals

variable {binding : BindingRef} {bctx : BindingContext}

theorem avoids_resolveReviewerUuids (workspaceUuid : String) (users : JsValue) :
    Avoids ref (fun _ => True) (resolveReviewerUuids env workspaceUuid users) := by
  refine Guards.ite (Guards.pure trivial) (Avoids.ofExcept_bind fun users => ?_)
  refine Avoids.after ?_ fun _ => Guards.pure trivial
  exact Guards.mapEach (UserIdentity.Awaits.avoids_resolveUser env workspaceUuid) users

theorem avoids_resolveMilestone (space : Ref) (milestone : JsValue) :
    Avoids ref (fun _ => True) (resolveMilestone env space milestone) := by
  unfold resolveMilestone
  refine Guards.ite (Guards.pure trivial) (Avoids.ofExcept_bind fun title => ?_)
  refine Avoids.after ?_ fun _ => Guards.pure trivial
  exact MilestoneCache.Awaits.avoids_ensureLocalMilestone env _ _ _ _

theorem avoids_resolveRecord (syncMR : Fields) :
    Avoids ref (fun _ => True) (resolveRecord env bctx syncMR) := by
  refine Avoids.ofExcept_bind fun rawDescription => ?_
  refine Avoids.after (UserIdentity.Awaits.avoids_resolveAssignee env _ _) fun assignee => ?_
  refine Avoids.after (avoids_resolveReviewerUuids env _ _) fun reviewerUuids => ?_
  refine Avoids.after (avoids_resolveReviewerUuids env _ _) fun approvedByUuids => ?_
  refine Avoids.ofExcept_bind fun names => ?_
  refine Avoids.after (LabelCache.Awaits.avoids_resolveLocal env _ _ _) fun labelRefs => ?_
  exact Avoids.after (avoids_resolveMilestone env _ _) fun _ => Guards.pure trivial

theorem avoids_putReviewMixin {other : Ref} (h : other ≠ ref) (review : Fields) :
    Avoids ref (fun _ => True) (putReviewMixin env other review) :=
  Guards.ite (Guards.pure trivial) (Avoids.putMixin env _ h _ _)

theorem avoids_createFromRemote (gitlabId : String) (syncMR : Fields) (r : RemoteMR)
    (remoteTs : JsDate) :
    Avoids ref (fun _ => True)
      (createFromRemote env binding bctx gitlabId syncMR r remoteTs) := by
  refine Guards.ite (Guards.pure trivial) ?_
  refine Guards.bind (Avoids.createDoc env _ _ _) fun issueRef hnew => ?_
  refine Avoids.after (Avoids.putMixin env _ hnew _ _) fun _ => ?_
  refine Avoids.ofExcept_bind fun review => ?_
  refine Avoids.after (avoids_putReviewMixin env hnew _) fun _ => ?_
  exact Avoids.after (Avoids.upsertIdMap env fun _ => hnew) fun _ => Avoids.setCursor env _ _ _

theorem avoids_updateFromRemote {hulyRef : Ref} (h : hulyRef ≠ ref) (syncMR : Fields)
    (r : RemoteMR) (remoteTs : JsDate) :
    Avoids ref (fun _ => True)
      (updateFromRemote env binding bctx hulyRef syncMR r remoteTs) := by
  refine Avoids.after (Avoids.findOne env _ _) fun hulyIssue => ?_
  cases hulyIssue with
  | none => exact Guards.pure trivial
  | some issue =>
    dsimp only
    refine Avoids.after (HulyGitlab.Awaits.avoids_writeUpdate env h _ _) fun _ => ?_
    refine Avoids.after ?_ fun _ => HulyGitlab.Awaits.avoids_advanceCursor env _ _ _ _
    refine Avoids.after Avoids.now fun now => Avoids.ofExcept_bind fun approvedBy => ?_
    refine Avoids.after (Avoids.putMixin env _ h _ _) fun _ => ?_
    exact Avoids.ofExcept_bind fun review => avoids_putReviewMixin env h _

theorem avoids_applyRemote (syncMR : Fields) :
    Avoids ref (fun _ => True) (applyRemote env binding syncMR) := by
  refine Avoids.after (Avoids.loadBinding env _) fun bctx => ?_
  refine Guards.bind (Avoids.findByGitlab env _ _) fun existing hexisting => ?_
  refine Avoids.after (avoids_resolveRecord env _) fun r => ?_
  cases existing with
  | none => exact avoids_createFromRemote env _ _ _ _
  | some row => exact avoids_updateFromRemote env (hexisting row rfl (by decide)) _ _ _

end MergeRequests.Awaits

namespace Reviews.Awaits

variable {binding : BindingRef} {bctx : BindingContext}

theorem avoids_applyThreadNote (parentRef : Ref) (thread : ThreadState)
    (rootNoteId note : JsValue) :
    Avoids ref (fun _ => True)
      (applyThreadNote env bctx parentRef thread rootNoteId note) := by
  refine Avoids.ofExcept_bind fun system => Guards.ite (Guards.pure trivial) ?_
  refine Guards.bind (Avoids.findByGitlab env _ _) fun existing hexisting => ?_
  refine Avoids.ofExcept_bind fun body => ?_
  refine Avoids.after (UserIdentity.Awaits.avoids_resolveUser env _ _) fun author => ?_
  refine Avoids.ofExcept_bind fun _ => Avoids.ofExcept_bind fun _ => ?_
  refine Guards.bind (Q := fun messageRef => messageRef ≠ ref) ?_ fun messageRef hother =>
    Avoids.putMixin env _ hother _ _
  cases existing with
  | none =>
    refine Guards.bind (Avoids.createDoc env _ _ _) fun messageRef hnew => ?_
    exact Avoids.after (Avoids.upsertIdMap env fun _ => hnew) fun _ => Guards.pure hnew
  | some row =>
    have hother : row.hulyRef ≠ ref := hexisting row rfl (by decide)
    refine Avoids.after (Avoids.after (Avoids.findOne env _ _) fun _ => ?_) fun _ =>
      Guards.pure hother
    exact Guards.ite (Avoids.updateDoc env _ hother _) (Guards.pure trivial)

theorem avoids_applyMapped (parentRef : Ref) (syncThread : Fields) :
    Avoids ref (fun _ => True) (applyMapped env binding bctx parentRef syncThread) := by
  refine Avoids.after ?_ fun resolvedBy => Avoids.ofExcept_bind fun resolvedAt => ?_
  · refine Guards.ite (Guards.pure trivial) (Avoids.ofExcept_bind fun identity => ?_)
    exact Avoids.after (UserIdentity.Awaits.avoids_mapByGitlabUser env identity) fun _ =>
      Guards.pure trivial
  · refine Avoids.ofExcept_bind fun notes => ?_
    refine Avoids.after ?_ fun _ => Avoids.setCursor env _ _ _
    exact Guards.forEach (fun note => avoids_applyThreadNote env _ _ _ note) notes

theorem avoids_applyRemote (syncThread : Fields) :
    Avoids ref (fun _ => True) (applyRemote env binding syncThread) := by
  refine Avoids.after (Avoids.loadBinding env _) fun bctx => ?_
  refine Guards.bind (Avoids.findByGitlab env _ _) fun parentMapping _ => ?_
  cases parentMapping with
  | some row => exact avoids_applyMapped env _ _
  | none =>
    dsimp only [deferThread]
    cases markAndRetry syncThread REVIEW_RETRY_FLAG with
    | none => exact Guards.pure trivial
    | some marked => exact Avoids.ofExcept_bind fun version => Avoids.enqueueRecord _

end Reviews.Awaits

namespace Epics.Awaits

variable {binding : BindingRef} {bctx : BindingContext}

theorem avoids_linkChild (epicIid childIid : JsValue) :
    Avoids ref (fun _ => True) (linkChild env bctx epicIid childIid) := by
  refine Guards.bind (Avoids.findByGitlab env _ _) fun mrChild hmr => ?_
  cases mrChild with
  | some row => exact Avoids.putMixin env _ (hmr row rfl (by decide)) _ _
  | none =>
    refine Guards.bind (Avoids.findByGitlab env _ _) fun issueChild hissue => ?_
    cases issueChild with
    | some row => exact Avoids.putMixin env _ (hissue row rfl (by decide)) _ _
    | none => exact Guards.pure trivial

theorem avoids_linkChildren (syncEpic : Fields) :
    Avoids ref (fun _ => True) (linkChildren env binding bctx syncEpic) := by
  refine Avoids.ofExcept_bind fun children => ?_
  refine Avoids.after ?_ fun _ => Avoids.setCursor env _ _ _
  exact Guards.forEach (fun child => avoids_linkChild env _ child) children

theorem avoids_createFromRemote (gitlabId : String) (syncEpic : Fields) (description : JsValue)
    (status : Ref) (remoteTs : JsDate) :
    Avoids ref (fun _ => True)
      (createFromRemote env bctx gitlabId syncEpic description status remoteTs) := by
  refine Guards.bind (Avoids.createDoc env _ _ _) fun issueRef hnew => ?_
  refine Avoids.after (Avoids.upsertIdMap env fun _ => hnew) fun _ => ?_
  exact Avoids.ofExcept_bind fun data => Avoids.putMixin env _ hnew _ _

theorem avoids_updateFromRemote {hulyRef : Ref} (h : hulyRef ≠ ref) (syncEpic : Fields)
    (description : JsValue) (remoteTs : JsDate) :
    Avoids ref (fun _ => True)
      (updateFromRemote env hulyRef syncEpic description remoteTs) := by
  refine Avoids.after (Avoids.findOne env _ _) fun hulyIssue => ?_
  cases hulyIssue with
  | none => exact Guards.pure trivial
  | some issue =>
    refine Avoids.after ?_ fun _ => Avoids.ofExcept_bind fun data => ?_
    · exact Guards.ite (Guards.pure trivial) (Avoids.updateDoc env _ h _)
    · exact Avoids.after (Avoids.putMixin env _ h _ _) fun _ => Guards.pure trivial

theorem avoids_applyRemote (syncEpic : Fields) :
    Avoids ref (fun _ => True) (applyRemote env binding syncEpic) := by
  refine Avoids.after (Avoids.loadBinding env _) fun bctx => ?_
  refine Guards.ite (Guards.pure trivial) ?_
  refine Guards.bind (Avoids.findByGitlab env _ _) fun existing hexisting => ?_
  refine Avoids.ofExcept_bind fun rawDescription => ?_
  cases pickBacklogStatus bctx.statuses with
  | none => exact Guards.pure trivial
  | some status =>
    refine Avoids.ofExcept_bind fun _ => ?_
    cases existing with
    | none =>
      exact Avoids.after (avoids_createFromRemote env _ _ _ _ _) fun _ =>
        avoids_linkChildren env _
    | some row =>
      refine Avoids.after ?_ fun mirrored => ?_
      · exact avoids_updateFromRemote env (hexisting row rfl (by decide)) _ _ _
      · exact Guards.ite (avoids_linkChildren env _) (Guards.pure trivial)

end Epics.Awaits

namespace Pipelines.Awaits

theorem avoids_applyRemote {binding : BindingRef} (syncPipeline : Fields) :
    Avoids ref (fun _ => True) (applyRemote env binding syncPipeline) := by
  refine Guards.ite (Guards.pure trivial) ?_
  refine Avoids.after (Avoids.loadBinding env _) fun bctx => ?_
  refine Guards.bind (Avoids.findByGitlab env _ _) fun mrRef hmr => ?_
  cases mrRef with
  | none => exact Guards.pure trivial
  | some row => exact Avoids.putMixin env _ (hmr row rfl (by decide)) _ _

end Pipelines.Awaits

end HulyGitlab
