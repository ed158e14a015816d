import HulyGitlab.Sync.BindingLoader
import HulyGitlab.Sync.LocalPush
import HulyGitlab.Sync.TxSubscription

/-!
# Which binding a transaction goes to

`index.ts` gives the subscriber of a workspace the map of its loaded bindings
and no resolver. The map decides where a transaction goes; the space of the
document is not looked at.
-/

namespace HulyGitlab

/-- The classes of the documents a subscriber tracks. -/
inductive TrackedClass
  | issue
  | chatMessage
  deriving DecidableEq

def TrackedClass.ref : TrackedClass → String
  | .issue => issueClass
  | .chatMessage => chatMessageClass

def TrackedClass.kind : TrackedClass → SyncKind
  | .issue => .issue
  | .chatMessage => .note

structure TrackedDoc where
  docClass : TrackedClass
  ref : Ref
  space : Ref
  deriving DecidableEq

/-- A request that changes nothing on GitLab. -/
def GitLabRequest.Reading : GitLabRequest → Prop
  | .listLabels _ => True
  | .listMilestones _ => True
  | .getMRApprovals _ _ => True
  | _ => False

namespace TxSubscription

open Effect

/-- `startTxSubscriberForWorkspace`. -/
def wiring (d : Deployment) (workspaceUuid serviceAccountPersonId : String) : TxSubscriberDeps where
  serviceAccountPersonId := serviceAccountPersonId
  bindingsByProject := d.loader.getBindingsByProject workspaceUuid
  resolveBindingForDoc := none

/-- A binding of the workspace that is registered, with its document. -/
def Registered (d : Deployment) (workspaceUuid : String) (b : BindingRef) (doc : BindingDoc) :
    Prop :=
  b ∈ (d.loader.getBindingsByProject workspaceUuid).values ∧ d.bindings.get? b = some doc

/-- A user's transaction on the document, of a kind that is synchronised. -/
structure IsUserTx (deps : TxSubscriberDeps) (doc : TrackedDoc) (tx : Tx) : Prop where
  objectId : tx.objectId = doc.ref
  objectClass : tx.objectClass = doc.docClass.ref
  objectSpace : tx.objectSpace = doc.space
  user : tx.modifiedBy ≠ deps.serviceAccountPersonId
  unmarked : isGitlabOriginated tx = false
  tracked : (classify tx).isSome

/-- What a transaction adds to the engine's queue, or to the buffer that is flushed into it. -/
def delivered (deps : TxSubscriberDeps) (s : TxSubscriber) (tx : Tx) : List LocalEvent :=
  (onTx deps s tx).2 ++ (onTx deps s tx).1.buffer.drop s.buffer.length

/-- The subscriber takes transactions: it runs, and the engine has started or there is room. -/
def Alive (s : TxSubscriber) : Prop :=
  s.stopped = false ∧ (s.engineStarted = true ∨ s.buffer.length < BUFFER_MAX)

/-- The event goes to the binding of the document's space; without one no write results. -/
structure Confined (d : Deployment) (workspaceUuid serviceAccountPersonId : String)
    (s : TxSubscriber) (doc : TrackedDoc) (tx : Tx) : Prop where
  bound : ∀ b bindingDoc, Registered d workspaceUuid b bindingDoc →
    bindingDoc.hulyProjectRef = doc.space →
    ∃ kind change, classify tx = some (kind, change) ∧
      delivered (wiring d workspaceUuid serviceAccountPersonId) s tx =
        [⟨b, kind, doc.ref, change⟩]
  unbound : (∀ b bindingDoc, Registered d workspaceUuid b bindingDoc →
      bindingDoc.hulyProjectRef ≠ doc.space) →
    ∀ e ∈ delivered (wiring d workspaceUuid serviceAccountPersonId) s tx, ∀ env w,
      Appends World.requests GitLabRequest.Reading w ((applyLocal env e).run w).2

/-- The only binding that is registered, when there is just one. -/
theorem resolveBinding_wiring (d : Deployment) (workspaceUuid serviceAccountPersonId : String)
    (docRef : Ref) (objectClass : String) (b : BindingRef) :
    resolveBinding (wiring d workspaceUuid serviceAccountPersonId) docRef objectClass = some b ↔
      (d.loader.getBindingsByProject workspaceUuid).values = [b] := by
  unfold resolveBinding wiring OrderedMap.values
  dsimp only
  cases (d.loader.getBindingsByProject workspaceUuid).entries with
  | nil => simp
  | cons entry rest =>
    cases rest with
    | nil => simp
    | cons entry' rest => simp

theorem entryOf_of_isUserTx {deps : TxSubscriberDeps} {doc : TrackedDoc} {tx : Tx}
    (h : IsUserTx deps doc tx) {kind : SyncKind} {change : Fields}
    (hc : classify tx = some (kind, change)) :
    entryOf deps tx = (resolveBinding deps doc.ref doc.docClass.ref).map fun b =>
      ⟨b, kind, doc.ref, change⟩ := by
  unfold entryOf
  rw [if_neg h.user, if_neg (by simp [h.unmarked]), hc, h.objectId, h.objectClass]

/-- An event is delivered when the subscriber takes transactions. -/
theorem delivered_eq (deps : TxSubscriberDeps) (s : TxSubscriber) (tx : Tx) [Decidable (Alive s)] :
    delivered deps s tx = if Alive s then (entryOf deps tx).toList else [] := by
  unfold delivered onTx
  by_cases hstop : s.stopped = true
  · have hdead : ¬ Alive s := fun h => by simp [h.1] at hstop
    rw [if_pos hstop, if_neg hdead]
    simp
  · have hrun : s.stopped = false := by simpa using hstop
    rw [if_neg hstop]
    cases entryOf deps tx with
    | none => simp
    | some e =>
      dsimp only
      by_cases hstart : s.engineStarted = true
      · rw [if_pos hstart, if_pos (show Alive s from ⟨hrun, .inl hstart⟩)]
        simp
      · rw [if_neg hstart]
        by_cases hfull : BUFFER_MAX ≤ s.buffer.length
        · have hdead : ¬ Alive s := by
            rintro ⟨-, h | h⟩
            · exact hstart h
            · omega
          rw [if_pos hfull, if_neg hdead]
          simp
        · rw [if_neg hfull, if_pos (show Alive s from ⟨hrun, .inr (by omega)⟩)]
          simp

theorem kindOfClass_ref (c : TrackedClass) : kindOfClass c.ref = some c.kind := by
  cases c <;> decide

def creationAttributes : Fields :=
  [("title", .str "title"), ("message", .str "text"), ("noteableIid", .num 1)]

/-- A creation that a manager turns into a new object on GitLab. -/
def creation (doc : TrackedDoc) (modifiedBy : String) : Tx where
  _class := TX_CLASS_CREATE
  modifiedBy := modifiedBy
  objectId := doc.ref
  objectClass := doc.docClass.ref
  objectSpace := doc.space
  mixin := ""
  attributes := some creationAttributes
  operations := none

theorem classify_creation (doc : TrackedDoc) (modifiedBy : String) :
    classify (creation doc modifiedBy) = some (doc.docClass.kind, creationAttributes) := by
  have hmixin : TX_CLASS_CREATE ≠ TX_CLASS_MIXIN := by decide
  have hupdate : TX_CLASS_CREATE ≠ TX_CLASS_UPDATE := by decide
  unfold classify creation
  rw [if_neg hmixin, if_neg hupdate, if_pos rfl, kindOfClass_ref]
  rfl

theorem creation_isUserTx (deps : TxSubscriberDeps) (doc : TrackedDoc) {modifiedBy : String}
    (h : modifiedBy ≠ deps.serviceAccountPersonId) :
    IsUserTx deps doc (creation doc modifiedBy) := by
  refine ⟨rfl, rfl, rfl, h, ?_, ?_⟩
  · unfold isGitlabOriginated creation
    simp [creationAttributes, JsValue.get]
  · rw [classify_creation]
    rfl

/-- Whatever document it is, its creation ends in one on GitLab. -/
theorem applyLocal_creation_writes (b : BindingRef) (doc : TrackedDoc) :
    ∃ r, ¬ r.Reading ∧ r ∈ ((applyLocal ((Env.quiet quietBinding).served .obliging)
      ⟨b, doc.docClass.kind, doc.ref, creationAttributes⟩).run World.initial).2.requests := by
  have hfind : ∀ hulyClass, (Sync.findByHuly ((Env.quiet quietBinding).served .obliging)
      quietBinding.workspaceUuid hulyClass (stripDocPrefix doc.ref)).run World.initial =
        (.ok none, World.initial) := fun hulyClass => rfl
  have hload : ∀ binding, (Sync.loadBinding ((Env.quiet quietBinding).served .obliging)
      binding).run World.initial = (.ok quietBinding, World.initial) := fun binding => rfl
  cases doc.docClass with
  | issue =>
    have hbody : (Issues.remoteBody ((Env.quiet quietBinding).served .obliging) quietBinding
        creationAttributes).run World.initial = (.ok [("title", .str "title")], World.initial) :=
      rfl
    refine ⟨.createIssue 7 [("title", .str "title")], id, ?_⟩
    change _ ∈ ((Issues.applyLocal _ b doc.ref creationAttributes).run World.initial).2.requests
    unfold Issues.applyLocal
    rw [bind_of_ok (hload b), bind_of_ok (hfind _), bind_of_ok hbody]
    exact mem_requests_of_request (P := fun _ => True) (fun _ => Sends.bind (Sends.ofExcept _)
      fun _ => Sends.bind (Sends.of_writes
        (Writes.upsertIdMap _ (List.mem_singleton.mpr rfl) _) (by decide)) fun _ =>
      Sends.bind (Sends.of_writes (Writes.gets _) List.not_mem_nil) fun _ => Sends.of_writes
        (Writes.setCursor _ (List.mem_singleton.mpr rfl) _ _ _) (by decide)) _ _ _
  | chatMessage =>
    refine ⟨.createNote 7 1 [("body", .str "text")], id, ?_⟩
    change _ ∈ ((Notes.applyLocal _ b doc.ref creationAttributes).run World.initial).2.requests
    unfold Notes.applyLocal
    rw [if_neg (by decide), bind_of_ok (hload b), bind_of_ok (hfind _), if_neg (by decide)]
    have hparent : (Notes.resolveParent ((Env.quiet quietBinding).served .obliging) quietBinding
        creationAttributes).run World.initial = (.ok (some ⟨.num 1, false⟩), World.initial) := rfl
    rw [bind_of_ok hparent]
    change _ ∈ ((Notes.createRemote _ b quietBinding (stripDocPrefix doc.ref) ⟨.num 1, false⟩
      (.str "text")).run World.initial).2.requests
    unfold Notes.createRemote
    have htext : (Effect.ofExcept (((Env.quiet quietBinding).served .obliging).markupToGfmMarkdown
        (.str "text") (issueRefUrl quietBinding) (imageUrl quietBinding)) : Sync String).run
        World.initial = (.ok "text", World.initial) := rfl
    have hiid : (Effect.ofExcept (JsValue.num 1).asNum : Sync Int).run World.initial =
        (.ok 1, World.initial) := rfl
    rw [if_neg (by decide), bind_of_ok htext]
    dsimp only
    rw [bind_of_ok hiid]
    exact mem_requests_of_request (P := fun _ => True) (fun _ => Sends.bind (Sends.ofExcept _)
      fun _ => Sends.bind (Sends.of_writes
        (Writes.upsertIdMap _ (List.mem_singleton.mpr rfl) _) (by decide)) fun _ =>
      Sends.bind (Sends.of_writes (Writes.gets _) List.not_mem_nil) fun _ => Sends.of_writes
        (Writes.setCursor _ (List.mem_singleton.mpr rfl) _ _ _) (by decide)) _ _ _

section Routing

variable (d : Deployment) (workspaceUuid serviceAccountPersonId : String)

theorem delivered_of_isUserTx {s : TxSubscriber} {doc : TrackedDoc} {tx : Tx}
    (h : IsUserTx (wiring d workspaceUuid serviceAccountPersonId) doc tx) (halive : Alive s)
    {kind : SyncKind} {change : Fields} (hc : classify tx = some (kind, change)) {b : BindingRef}
    (hb : (d.loader.getBindingsByProject workspaceUuid).values = [b]) :
    delivered (wiring d workspaceUuid serviceAccountPersonId) s tx =
      [⟨b, kind, doc.ref, change⟩] := by
  classical
  rw [delivered_eq, if_pos halive, entryOf_of_isUserTx h hc,
    (resolveBinding_wiring d workspaceUuid serviceAccountPersonId _ _ b).mpr hb]
  rfl

/-- Without exactly one registered binding nothing is delivered. -/
theorem delivered_eq_nil {s : TxSubscriber} {tx : Tx}
    (h : ¬ Alive s ∨ (d.loader.getBindingsByProject workspaceUuid).values.length ≠ 1) :
    delivered (wiring d workspaceUuid serviceAccountPersonId) s tx = [] := by
  classical
  rw [delivered_eq]
  by_cases halive : Alive s
  · have hlen := h.resolve_left fun hdead => hdead halive
    rw [if_pos halive]
    cases he : entryOf (wiring d workspaceUuid serviceAccountPersonId) tx with
    | none => rfl
    | some e =>
      obtain ⟨-, -, hres⟩ := entryOf_eq_some he
      rw [(resolveBinding_wiring d workspaceUuid serviceAccountPersonId _ _ _).mp hres] at hlen
      exact absurd rfl hlen
  · rw [if_neg halive]

/-- The space of the document belongs to a registered binding. -/
def Bound (doc : TrackedDoc) : Prop :=
  ∃ b bindingDoc, Registered d workspaceUuid b bindingDoc ∧
    bindingDoc.hulyProjectRef = doc.space

theorem creation_isUser (doc : TrackedDoc) :
    IsUserTx (wiring d workspaceUuid serviceAccountPersonId) doc
      (creation doc (serviceAccountPersonId ++ "x")) := by
  apply creation_isUserTx
  intro heq
  have hlen := congrArg String.length heq
  simp [wiring] at hlen

/-- A document without a binding is only safe when nothing is delivered. -/
theorem quiet_of_confined {s : TxSubscriber} {doc : TrackedDoc}
    (h : ∀ tx, IsUserTx (wiring d workspaceUuid serviceAccountPersonId) doc tx →
      Confined d workspaceUuid serviceAccountPersonId s doc tx)
    (hunbound : ¬ Bound d workspaceUuid doc) :
    ¬ Alive s ∨ (d.loader.getBindingsByProject workspaceUuid).values.length ≠ 1 := by
  have htx := creation_isUser d workspaceUuid serviceAccountPersonId doc
  by_contra hcond
  obtain ⟨halive, hlen⟩ := not_or.mp hcond
  obtain ⟨b, hb⟩ := List.length_eq_one_iff.mp (not_not.mp hlen)
  have hdelivered := delivered_of_isUserTx d workspaceUuid serviceAccountPersonId htx
    (not_not.mp halive) (classify_creation doc _) hb
  obtain ⟨r, hwrite, hmem⟩ := applyLocal_creation_writes b doc
  obtain ⟨rs, hrs, hread⟩ := (h _ htx).unbound
    (fun b bindingDoc hreg hspace => hunbound ⟨b, bindingDoc, hreg, hspace⟩) _
    (by rw [hdelivered]; exact List.mem_singleton_self _)
    ((Env.quiet quietBinding).served .obliging) World.initial
  rw [hrs] at hmem
  exact hwrite (hread r hmem)

/-- When the transactions on a document stay inside its own binding. -/
theorem confined_iff (s : TxSubscriber) (doc : TrackedDoc) :
    (∀ tx, IsUserTx (wiring d workspaceUuid serviceAccountPersonId) doc tx →
        Confined d workspaceUuid serviceAccountPersonId s doc tx) ↔
      (Bound d workspaceUuid doc →
        Alive s ∧ (d.loader.getBindingsByProject workspaceUuid).values.length = 1) ∧
      (¬ Bound d workspaceUuid doc →
        ¬ Alive s ∨ (d.loader.getBindingsByProject workspaceUuid).values.length ≠ 1) := by
  constructor
  · intro h
    refine ⟨?_, quiet_of_confined d workspaceUuid serviceAccountPersonId h⟩
    rintro ⟨b, bindingDoc, hreg, hspace⟩
    obtain ⟨kind, change, -, hdelivered⟩ :=
      (h _ (creation_isUser d workspaceUuid serviceAccountPersonId doc)).bound b bindingDoc hreg
        hspace
    by_contra hcond
    rw [delivered_eq_nil d workspaceUuid serviceAccountPersonId (not_and_or.mp hcond)]
      at hdelivered
    cases hdelivered
  · rintro ⟨hbound, hunbound⟩ tx huser
    obtain ⟨⟨kind, change⟩, hc⟩ := Option.isSome_iff_exists.mp huser.tracked
    refine ⟨fun b bindingDoc hreg hspace => ?_, fun hnone e he => ?_⟩
    · obtain ⟨halive, hlen⟩ := hbound ⟨b, bindingDoc, hreg, hspace⟩
      obtain ⟨b', hb'⟩ := List.length_eq_one_iff.mp hlen
      obtain rfl : b = b' := by
        have hmem := hreg.1
        rw [hb'] at hmem
        exact List.mem_singleton.mp hmem
      exact ⟨kind, change, hc, delivered_of_isUserTx d workspaceUuid serviceAccountPersonId huser
        halive hc hb'⟩
    · have hnot : ¬ Bound d workspaceUuid doc := by
        rintro ⟨b, bindingDoc, hreg, hspace⟩
        exact hnone b bindingDoc hreg hspace
      rw [delivered_eq_nil d workspaceUuid serviceAccountPersonId (hunbound hnot)] at he
      exact absurd he List.not_mem_nil

end Routing

/-- With one binding, an issue of any other space becomes an issue of its project. -/
theorem not_confined_of_other_space :
    let binding : BindingDoc := ⟨"ws", "project", 7, "group/project", "cred", false⟩
    let loader := BindingLoader.empty.registerBinding id "ws" 7 "b" "https://gitlab.com"
    let d : Deployment := ⟨OrderedMap.empty.set "b" binding, .empty, loader, [], []⟩
    let doc : TrackedDoc := ⟨.issue, "doc", "another project"⟩
    ¬ ∀ tx, IsUserTx (wiring d "ws" "service") doc tx →
      Confined d "ws" "service" ⟨[], true, false⟩ doc tx := by
  intro binding loader d doc h
  have hunbound : ¬ Bound d "ws" doc := by
    rintro ⟨b, bindingDoc, hreg, hspace⟩
    have hb : b = "b" := by
      have hvalues : (d.loader.getBindingsByProject "ws").values = ["b"] := by decide +kernel
      have hmem := hreg.1
      rw [hvalues] at hmem
      exact List.mem_singleton.mp hmem
    have hget : d.bindings.get? "b" = some binding := by decide +kernel
    have hdoc : binding = bindingDoc := by
      have hreg' := hreg.2
      rw [hb, hget] at hreg'
      exact Option.some.inj hreg'
    rw [← hdoc] at hspace
    exact absurd hspace (by decide)
  have hlen : (d.loader.getBindingsByProject "ws").values.length = 1 := by decide +kernel
  obtain hdead | hne := quiet_of_confined d "ws" "service" h hunbound
  · exact hdead ⟨rfl, .inl rfl⟩
  · exact hne hlen

end TxSubscription

end HulyGitlab
