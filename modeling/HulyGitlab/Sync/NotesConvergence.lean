import HulyGitlab.Lib.Transition
import HulyGitlab.Sync.IssuesRemote
import HulyGitlab.Sync.NotesAwaits
import Mathlib.Data.Finset.Max

/-!
# Deliveries of mapped notes

Records of mapped notes run through `applyRemote`, one at a time for each note
and interleaved at their awaits over the notes. The local side of the comparison
is one cursor for the whole binding, so whether a record is taken depends on
what was last taken of any other note.
-/

namespace HulyGitlab.Notes

open UserIdentity

/-- A note with the number of its parent, as the backfill enqueues it. -/
structure NoteRecord where
  noteableIid : Int
  note : SyncNote
  deriving DecidableEq

def NoteRecord.toFields (r : NoteRecord) : Fields :=
  [("noteableIid", .num r.noteableIid), ("note", .obj r.note.toFields)]

/-- The body of a version in Huly's markup. -/
def textOf (env : Env) (bctx : BindingContext) (n : SyncNote) : JsValue :=
  .str (env.gfmMarkdownToMarkup n.body (issueRefUrl bctx) (imageUrl bctx))

/-- The row of a note. -/
def rowOf (env : Env) (bctx : BindingContext) (w : World) (id : Int) : Option IdMapDoc :=
  w.idmap.findByGitlab bctx.workspaceUuid .note (projectKey env bctx (.num id))

/-- The message of the document a note is mapped to. -/
def messageOf (env : Env) (bctx : BindingContext) (w : World) (id : Int) : Option JsValue :=
  ((rowOf env bctx w id).bind fun row => w.docs.get? row.hulyRef).map fun doc =>
    doc.attrs.field "message"

/-- The document of the note has the body of this version. -/
def Shows (env : Env) (bctx : BindingContext) (w : World) (n : SyncNote) : Prop :=
  messageOf env bctx w n.id = some (textOf env bctx n)

/-- The note of a record is mapped, and so is its parent; notes of the system never are. -/
structure Mapped (env : Env) (bctx : BindingContext) (w : World) (r : NoteRecord) : Prop where
  user : r.note.system = false
  parent : ∃ row, w.idmap.findByGitlab bctx.workspaceUuid
    (parentKind (.obj r.note.toFields)) (projectKey env bctx (.num r.noteableIid)) = some row
  row : ∃ row doc, rowOf env bctx w r.note.id = some row ∧
    row.hulyClass = HULY_CLASS_CHAT_MESSAGE ∧ w.docs.get? row.hulyRef = some doc

/-- The handlers of the notes of a binding. -/
abbrev Deliveries := Pool Int NoteRecord Await Err World

/-- Any other write of the cursor of the notes. -/
def moveCursor (binding : BindingRef) (t : Nat) (w : World) : World :=
  { w with cursors := w.cursors.set (binding, .notes) t }

/-- A record arrives, the handler of a note runs to its next await, or the cursor is moved by
something else. -/
def deliver (env : Env) (binding : BindingRef) :
    Deliveries → Pool.Action Int NoteRecord Nat → Deliveries :=
  Pool.step (fun r => r.note.id) (fun r => Awaits.applyRemote env binding r.toFields)
    (moveCursor binding)

def cursorOf (binding : BindingRef) (w : World) : Nat := (w.cursors.get? (binding, .notes)).getD 0

/-- None of the records of the note is newer. -/
def Newest (records : List NoteRecord) (r : NoteRecord) : Prop :=
  ∀ q ∈ records, q.note.id = r.note.id → q.note.updatedAt ≤ r.note.updatedAt

/-- The note shows the newest of its records. -/
def ShowsNewest (env : Env) (bctx : BindingContext) (w : World) (records : List NoteRecord)
    (id : Int) : Prop :=
  ∀ r ∈ records, r.note.id = id → Newest records r → Shows env bctx w r.note

/-- Each note without a running handler shows the newest record delivered so far. -/
def Converged (env : Env) (bctx : BindingContext) (p : Deliveries) : Prop :=
  ∀ id, p.running id = none → ShowsNewest env bctx p.state p.completed id

/-- The cursor lets a record pass exactly if the record is newer than those delivered before, or
the record brings nothing that the note does not show. -/
def Timely (env : Env) (binding : BindingRef) (bctx : BindingContext) (p : Deliveries) :
    Pool.Action Int NoteRecord Nat → Prop
  | .advance id => ∀ r c, p.running id = some (r, c) → c.next = some .getCursor →
      (cursorOf binding p.state < r.note.updatedAt ↔ Newest p.completed r) ∨
        Shows env bctx p.state r.note
  | _ => True

/-- What handlers of notes leave: the rows of everything but users, and every document. -/
structure Intact (bctx : BindingContext) (w₀ w : World) : Prop where
  rows : ∀ kind gitlabId, kind ≠ .user →
    w.idmap.findByGitlab bctx.workspaceUuid kind gitlabId =
      w₀.idmap.findByGitlab bctx.workspaceUuid kind gitlabId
  owned : StubsOwned w.idmap
  docs : ∀ ref doc, w₀.docs.get? ref = some doc → ∃ doc', w.docs.get? ref = some doc'

/-- The calls around the comparison leave the documents alone. -/
def Quiet (point : Await) (w w' : World) : Prop :=
  point ≠ .getCursor ∧ w'.docs = w.docs

section Intact

variable {env : Env} {bctx : BindingContext} {w₀ w : World}

theorem Intact.refl (howned : StubsOwned w₀.idmap) : Intact bctx w₀ w₀ :=
  ⟨fun _ _ _ => rfl, howned, fun _ doc hdoc => ⟨doc, hdoc⟩⟩

theorem Intact.rowOf (h : Intact bctx w₀ w) (id : Int) :
    rowOf env bctx w id = Notes.rowOf env bctx w₀ id :=
  h.rows .note _ (by decide)

theorem Intact.messageOf (h : Intact bctx w₀ w) (id : Int) :
    messageOf env bctx w id =
      ((Notes.rowOf env bctx w₀ id).bind fun row => w.docs.get? row.hulyRef).map fun doc =>
        doc.attrs.field "message" := by
  rw [Notes.messageOf, h.rowOf]

/-- Without a change of documents every note shows what it showed. -/
theorem Intact.messageOf_eq {w' : World} (h : Intact bctx w₀ w) (h' : Intact bctx w₀ w')
    (hdocs : w'.docs = w.docs) (id : Int) :
    Notes.messageOf env bctx w' id = Notes.messageOf env bctx w id := by
  rw [h.messageOf, h'.messageOf, hdocs]

theorem Intact.update (h : Intact bctx w₀ w) {docs : OrderedMap Ref HulyDoc}
    (hdocs : ∀ ref, w.docs.get? ref ≠ none → docs.get? ref ≠ none) :
    Intact bctx w₀ { w with docs := docs } where
  rows := h.rows
  owned := h.owned
  docs ref doc hdoc := by
    obtain ⟨doc', hdoc'⟩ := h.docs ref doc hdoc
    exact Option.ne_none_iff_exists'.mp (hdocs ref (by rw [hdoc']; exact Option.some_ne_none _))

theorem stable (w₀ : World) :
    UserIdentity.Awaits.Stable bctx.workspaceUuid (Intact bctx w₀) Quiet where
  owned _ h := h.owned
  person _ _ := ⟨by simp, rfl⟩
  asked w _ h := ⟨⟨h.rows, h.owned, h.docs⟩, by simp, rfl⟩
  stubbed w gitlabId idmap h hup := by
    refine ⟨⟨fun kind id hkind => ?_, stubsOwned_of_upsert h.owned hup, h.docs⟩, by simp, rfl⟩
    rw [← h.rows kind id hkind]
    exact IdMap.findByGitlab_of_upsert hup fun hkey => hkind (by
      simp only [IdMapDoc.gitlabKey, stubRow, Prod.mk.injEq] at hkey
      exact hkey.2.1.symm)

end Intact

/-- The handler is about to read the cursor. -/
def Comparing (env : Env) (binding : BindingRef) (bctx : BindingContext) (w₀ : World)
    (r : NoteRecord) (c : Async Unit) : Prop :=
  ∃ row author, rowOf env bctx w₀ r.note.id = some row ∧
    c = Awaits.updateFromRemote env binding row.hulyRef (textOf env bctx r.note) (.str author)
      (some r.note.updatedAt)

/-- The handler found its record newer than the cursor. -/
def Writing (env : Env) (binding : BindingRef) (bctx : BindingContext) (w₀ : World)
    (r : NoteRecord) (c : Async Unit) : Prop :=
  ∃ row author, rowOf env bctx w₀ r.note.id = some row ∧
    c = Awaits.writeFromRemote env binding row.hulyRef (textOf env bctx r.note) (.str author)
      (some r.note.updatedAt)

/-- What is left does not touch the documents. -/
def Leaving (bctx : BindingContext) (w₀ : World) (c : Async Unit) : Prop :=
  Coroutine.Safe (Intact bctx w₀) Quiet (fun _ => True) c

/-- The handler has not compared yet. -/
def Arriving (env : Env) (binding : BindingRef) (bctx : BindingContext) (w₀ : World)
    (r : NoteRecord) (c : Async Unit) : Prop :=
  Coroutine.Leads (Intact bctx w₀) Quiet (Comparing env binding bctx w₀ r) c

section Handler

variable {env : Env} (h : env.Healthy) {binding : BindingRef} {bctx : BindingContext}
  (hload : env.loadBinding binding = .ok bctx) {w₀ : World} {r : NoteRecord}
include h

/-- A lookup of a row that is no user's answers as it did at the start. -/
theorem safe_findByGitlab {kind : GitlabKind} {gitlabId : String} {row : Option IdMapDoc}
    (hkind : kind ≠ .user) (hrow : w₀.idmap.findByGitlab bctx.workspaceUuid kind gitlabId = row) :
    Coroutine.Safe (Intact bctx w₀) Quiet (fun found => found = row)
      (Async.findByGitlab env bctx.workspaceUuid kind gitlabId) := by
  refine Coroutine.Safe.call fun w hw => ?_
  refine ⟨_, _, Sync.findByGitlab_run h _ _ _ w, ⟨hw.rows, hw.owned, hw.docs⟩, ⟨by simp, rfl⟩, ?_⟩
  rw [hw.rows kind gitlabId hkind, hrow]

omit h in
theorem safe_loadBinding (hload : env.loadBinding binding = .ok bctx) :
    Coroutine.Safe (Intact bctx w₀) Quiet (fun found => found = bctx)
      (Async.loadBinding env binding) := by
  refine Coroutine.Safe.call fun w hw => ⟨bctx, w, ?_, hw, ⟨by simp, rfl⟩, rfl⟩
  rw [Sync.loadBinding, hload, Effect.ofExcept_run]

theorem safe_setCursor (t : Option Nat) :
    Coroutine.Safe (Intact bctx w₀) Quiet (fun _ => True)
      (Async.setCursor env binding .notes t) := by
  refine Coroutine.Safe.call fun w hw => ?_
  exact ⟨(), _, Sync.setCursor_run h _ _ _ w, ⟨hw.rows, hw.owned, hw.docs⟩, ⟨by simp, rfl⟩, trivial⟩

include hload

/-- The handler of a mapped note comes to the comparison. -/
theorem arriving (hm : Mapped env bctx w₀ r) :
    Arriving env binding bctx w₀ r (Awaits.applyRemote env binding r.toFields) := by
  obtain ⟨parent, hparent⟩ := hm.parent
  obtain ⟨row, doc, hrow, -, -⟩ := hm.row
  have hiid : r.toFields.field "noteableIid" = .num r.noteableIid := by simp [NoteRecord.toFields]
  have hnote : r.toFields.field "note" = .obj r.note.toFields := by simp [NoteRecord.toFields]
  have henvelope : (r.toFields.field "noteableIid").isNumber = true ∧
      r.toFields.field "note" ≠ .undefined := by
    rw [hiid, hnote]
    exact ⟨rfl, JsValue.noConfusion⟩
  unfold Arriving Awaits.applyRemote
  rw [if_pos henvelope, hiid, hnote]
  unfold Awaits.applyNote
  rw [JsValue.prop_obj, SyncNote.field_system, hm.user, Coroutine.ofExcept_ok_bind]
  rw [if_neg (by decide)]
  refine Coroutine.Leads.bind (safe_loadBinding hload) ?_
  rintro _ rfl
  refine Coroutine.Leads.bind (safe_findByGitlab h ?_ hparent) ?_
  · unfold parentKind
    split <;> decide
  rintro _ rfl
  dsimp only
  unfold Awaits.applyMapped
  have hid : (JsValue.obj r.note.toFields).get "id" = .num r.note.id := by simp [JsValue.get]
  have hbody : (JsValue.obj r.note.toFields).get "body" = .str r.note.body := by simp [JsValue.get]
  have hauthor : (JsValue.obj r.note.toFields).get "author" = r.note.author.toJs := by
    simp [JsValue.get]
  have hts : (JsValue.obj r.note.toFields).get "updatedAt" = .date r.note.updatedAt := by
    simp [JsValue.get]
  rw [hid, hbody, hauthor, hts]
  refine Coroutine.Leads.bind (safe_findByGitlab h (by decide) hrow) ?_
  rintro _ rfl
  refine Coroutine.Leads.bind (Coroutine.Safe.ofExcept rfl rfl) ?_
  rintro _ rfl
  refine Coroutine.Leads.bind (UserIdentity.Awaits.safe_resolveUser h (stable w₀)
    (Issues.identityOf_toJs r.note.author) (Issues.identity_email r.note.author)) ?_
  intro author _
  exact Coroutine.Leads.here ⟨row, author, hrow, rfl⟩

omit hload

theorem comparing_await {r : NoteRecord} {c : Async Unit} (hc : Comparing env binding bctx w₀ r c) :
    ∃ act rest, c = .await .getCursor act rest ∧ ∀ w, act w = w ∧
      (cursorOf binding w < r.note.updatedAt → Writing env binding bctx w₀ r (rest w)) ∧
      (¬ cursorOf binding w < r.note.updatedAt → Leaving bctx w₀ (rest w)) := by
  obtain ⟨row, author, hrow, rfl⟩ := hc
  have hread : ∀ w, (Sync.getCursor env binding .notes).run w =
      (.ok (w.cursors.get? (binding, .notes)), w) := fun w => by
    simp [Sync.getCursor, Effect.bind_run, Sync.reach_run h]
  obtain ⟨act, rest, hawait, hspec⟩ := Coroutine.call_bind_await Await.getCursor
    (Sync.getCursor env binding .notes) (fun cursor : Option Nat =>
      if JsDate.after (some r.note.updatedAt) (some (cursor.getD 0)) then
        Awaits.writeFromRemote env binding row.hulyRef (textOf env bctx r.note) (.str author)
          (some r.note.updatedAt)
      else pure ())
  refine ⟨act, rest, hawait, fun w => ?_⟩
  obtain ⟨hact, hrest⟩ := hspec w _ _ (hread w)
  refine ⟨hact, fun hlt => ?_, fun hlt => ?_⟩
  · rw [hrest, if_pos (by rw [JsDate.after_some, decide_eq_true_eq]; exact hlt)]
    exact ⟨row, author, hrow, rfl⟩
  · rw [hrest, if_neg (by rw [JsDate.after_some, decide_eq_true_eq]; exact hlt)]
    exact Coroutine.Safe.pure trivial

/-- Before the comparison nothing is written; it sends the handler on or lets it leave. -/
theorem advance_arriving {r : NoteRecord} {c : Async Unit} {w : World} (hI : Intact bctx w₀ w)
    (hc : Arriving env binding bctx w₀ r c) :
    ∃ point act rest, c = .await point act rest ∧ Intact bctx w₀ (act w) ∧
      (act w).docs = w.docs ∧
      (point ≠ .getCursor ∧ Arriving env binding bctx w₀ r (rest w) ∨
        point = .getCursor ∧
          (cursorOf binding w < r.note.updatedAt → Writing env binding bctx w₀ r (rest w)) ∧
          (¬ cursorOf binding w < r.note.updatedAt → Leaving bctx w₀ (rest w))) := by
  cases c with
  | done result =>
    obtain ⟨act, rest, hawait, -⟩ := comparing_await h hc
    cases hawait
  | await point act rest =>
    obtain hhere | hquiet := hc
    · obtain ⟨act', rest', hawait, hspec⟩ := comparing_await h hhere
      cases hawait
      obtain ⟨hact, hwrite, hleave⟩ := hspec w
      exact ⟨_, _, _, rfl, by rw [hact]; exact hI, by rw [hact], .inr ⟨rfl, hwrite, hleave⟩⟩
    · obtain ⟨hJ, ⟨hpoint, hdocs⟩, hrest⟩ := hquiet w hI
      exact ⟨_, _, _, rfl, hJ, hdocs, .inl ⟨hpoint, hrest⟩⟩

omit h in
theorem advance_leaving {c : Async Unit} {w : World} (hI : Intact bctx w₀ w)
    (hc : Leaving bctx w₀ c) :
    (∃ result, c = .done result) ∨ ∃ point act rest, c = .await point act rest ∧
      point ≠ .getCursor ∧ Intact bctx w₀ (act w) ∧ (act w).docs = w.docs ∧
      Leaving bctx w₀ (rest w) := by
  cases c with
  | done result => exact .inl ⟨result, rfl⟩
  | await point act rest =>
    obtain ⟨hJ, ⟨hpoint, hdocs⟩, hrest⟩ := hc w hI
    exact .inr ⟨_, _, _, rfl, hpoint, hJ, hdocs, hrest⟩

omit h in
/-- Different notes are mapped to different documents. -/
theorem ref_ne_of_mapped {q r : NoteRecord} (hq : Mapped env bctx w₀ q) (hr : Mapped env bctx w₀ r)
    (hne : q.note.id ≠ r.note.id) {a b : IdMapDoc} (ha : rowOf env bctx w₀ q.note.id = some a)
    (hb : rowOf env bctx w₀ r.note.id = some b) : a.hulyRef ≠ b.hulyRef := by
  intro href
  obtain ⟨a', -, ha', hclassA, -⟩ := hq.row
  obtain ⟨b', -, hb', hclassB, -⟩ := hr.row
  cases ha.symm.trans ha'
  cases hb.symm.trans hb'
  obtain ⟨hmemA, hkeyA⟩ := IdMap.findByGitlab_eq_some_iff.mp ha
  obtain ⟨hmemB, hkeyB⟩ := IdMap.findByGitlab_eq_some_iff.mp hb
  simp only [IdMapDoc.gitlabKey, Prod.mk.injEq] at hkeyA hkeyB
  have hhuly : a.hulyKey = b.hulyKey := by
    simp only [IdMapDoc.hulyKey, hkeyA.1, hkeyB.1, hclassA, hclassB, href]
  have hsame := IdMap.eq_of_hulyKey hmemA hmemB hhuly
  have hids : projectKey env bctx (.num q.note.id) = projectKey env bctx (.num r.note.id) :=
    hkeyA.2.2.symm.trans ((congrArg IdMapDoc.gitlabId hsame).trans hkeyB.2.2)
  have hparsed := congrArg parseIid hids
  rw [parseIid_projectKey, parseIid_projectKey] at hparsed
  exact hne (Option.some.inj hparsed)

/-- The write shows the record and leaves the other notes alone. -/
theorem advance_writing {r : NoteRecord} {c : Async Unit} {w : World} (hI : Intact bctx w₀ w)
    (hm : Mapped env bctx w₀ r) (hc : Writing env binding bctx w₀ r c) :
    ∃ point act rest, c = .await point act rest ∧ Intact bctx w₀ (act w) ∧
      messageOf env bctx (act w) r.note.id = some (textOf env bctx r.note) ∧
      (∀ q, Mapped env bctx w₀ q → q.note.id ≠ r.note.id →
        messageOf env bctx (act w) q.note.id = messageOf env bctx w q.note.id) ∧
      Leaving bctx w₀ (rest w) := by
  obtain ⟨row, author, hrow, rfl⟩ := hc
  obtain ⟨row', doc₀, hrow', -, hdoc₀⟩ := hm.row
  cases hrow.symm.trans hrow'
  obtain ⟨doc, hdoc⟩ := hI.docs row.hulyRef doc₀ hdoc₀
  let operations := updateAttributes (textOf env bctx r.note) (.str author) (some r.note.updatedAt)
  let docs := w.docs.set row.hulyRef { doc with attrs := doc.attrs.assign operations }
  have hwrite : (Sync.updateDoc env row.hulyRef operations).run w =
      (.ok (), { w with docs := docs }) := Sync.updateDoc_run h operations w hdoc
  have hkept : Intact bctx w₀ { w with docs := docs } := by
    apply hI.update
    intro ref href
    simp only [docs, OrderedMap.get?_set]
    split
    · exact Option.some_ne_none _
    · exact href
  have hmessage : (doc.attrs.assign operations).field "message" = textOf env bctx r.note := by
    have hkeys : (operations.map Prod.fst).Nodup := by
      simp [operations, updateAttributes, withOriginatedMarker, Fields.set]
    have hmem : ("message", textOf env bctx r.note) ∈ operations := by
      simp [operations, updateAttributes, withOriginatedMarker, Fields.set]
    rw [Fields.field_assign_of_mem _ _ (List.mem_map.mpr ⟨_, hmem, rfl⟩) hkeys]
    exact Fields.field_of_mem hkeys hmem
  obtain ⟨act, rest, hawait, hspec⟩ := Coroutine.call_bind_await
    (Await.updateDoc chatMessageClass row.hulyRef operations)
    (Sync.updateDoc env row.hulyRef operations) (fun _ =>
      Async.setCursor env binding .notes (some r.note.updatedAt))
  obtain ⟨hact, hrest⟩ := hspec w _ _ hwrite
  refine ⟨_, act, rest, hawait, by rw [hact]; exact hkept, ?_, fun q hq hne => ?_, ?_⟩
  · rw [hact, hkept.messageOf, hrow]
    simp only [Option.bind_some, docs, OrderedMap.get?_set_self, Option.map_some, hmessage]
  · rw [hact, hkept.messageOf, hI.messageOf]
    cases hq' : rowOf env bctx w₀ q.note.id with
    | none => rfl
    | some other =>
      have href := ref_ne_of_mapped hq hm hne hq' hrow
      simp only [Option.bind_some, docs, OrderedMap.get?_set_of_ne _ href]
  · rw [hrest]
    exact safe_setCursor h _

end Handler

section Records

variable {env : Env} {bctx : BindingContext} {w w' : World} {records records' : List NoteRecord}
  {id : Int}

theorem Newest.congr {r : NoteRecord}
    (hmem : ∀ q : NoteRecord, q.note.id = r.note.id → (q ∈ records' ↔ q ∈ records))
    (h : Newest records r) : Newest records' r :=
  fun q hq hid => h q ((hmem q hid).mp hq) hid

/-- Only the message and the records of the note matter. -/
theorem ShowsNewest.congr
    (hmem : ∀ q : NoteRecord, q.note.id = id → (q ∈ records' ↔ q ∈ records))
    (hmessage : ∀ q ∈ records, q.note.id = id →
      messageOf env bctx w' id = messageOf env bctx w id)
    (h : ShowsNewest env bctx w records id) : ShowsNewest env bctx w' records' id := by
  rintro r hr rfl hnew
  have hold : Shows env bctx w r.note :=
    h r ((hmem r rfl).mp hr) rfl (hnew.congr fun q hq => (hmem q hq).symm)
  unfold Shows
  rw [hmessage r ((hmem r rfl).mp hr) rfl]
  exact hold

/-- Among the records of a note there is a newest one. -/
theorem exists_newest {r : NoteRecord} (hr : r ∈ records) :
    ∃ q ∈ records, q.note.id = r.note.id ∧ Newest records q := by
  let mine := (records.filter fun q => q.note.id = r.note.id).toFinset
  have hmine : ∀ q, q ∈ mine ↔ q ∈ records ∧ q.note.id = r.note.id := fun q => by simp [mine]
  obtain ⟨q, hq, hmax⟩ :=
    mine.exists_max_image (fun q => q.note.updatedAt) ⟨r, (hmine r).mpr ⟨hr, rfl⟩⟩
  obtain ⟨hmem, hid⟩ := (hmine q).mp hq
  exact ⟨q, hmem, hid, fun x hx hxq => hmax x ((hmine x).mpr ⟨hx, hxq.trans hid⟩)⟩

theorem newest_cons {q r : NoteRecord} :
    Newest (q :: records) r ↔
      (q.note.id = r.note.id → q.note.updatedAt ≤ r.note.updatedAt) ∧ Newest records r := by
  simp only [Newest, List.mem_cons, forall_eq_or_imp]

theorem textOf_congr {m n : SyncNote} (h : m.body = n.body) :
    textOf env bctx m = textOf env bctx n := by
  unfold textOf
  rw [h]

/-- Taking a record is right if it is the newest one or changes nothing. -/
theorem brings_iff {r : NoteRecord} (hshow : ShowsNewest env bctx w records r.note.id)
    (hdist : ∀ q ∈ records, q.note.id = r.note.id → q.note.updatedAt = r.note.updatedAt →
      q.note.body = r.note.body) :
    (∀ q ∈ r :: records, q.note.id = r.note.id → Newest (r :: records) q →
      textOf env bctx q.note = textOf env bctx r.note) ↔
      Newest records r ∨ Shows env bctx w r.note := by
  constructor
  · intro hbrings
    by_contra hneither
    obtain ⟨hold, hhidden⟩ := not_or.mp hneither
    simp only [Newest, not_forall, not_le] at hold
    obtain ⟨x, hx, hid, hlt⟩ := hold
    obtain ⟨q, hq, hqid, hnew⟩ := exists_newest hx
    have hle : r.note.updatedAt ≤ q.note.updatedAt :=
      le_trans (le_of_lt hlt) (hnew x hx hqid.symm)
    have htext := hbrings q (List.mem_cons_of_mem r hq) (hqid.trans hid)
      (newest_cons.mpr ⟨fun _ => hle, hnew⟩)
    have hshown : Shows env bctx w q.note := hshow q hq (hqid.trans hid) hnew
    apply hhidden
    unfold Shows at hshown ⊢
    rw [← hqid.trans hid, hshown, htext]
  · intro hright q hq hid hnew
    obtain rfl | hq := List.mem_cons.mp hq
    · rfl
    obtain ⟨hle, hnewq⟩ := newest_cons.mp hnew
    obtain hnewr | hshown := hright
    · apply textOf_congr
      exact hdist q hq hid (le_antisymm (hnewr q hq hid) (hle hid.symm))
    · have hq' : Shows env bctx w q.note := hshow q hq hid hnewq
      unfold Shows at hshown hq'
      rw [hid, hshown] at hq'
      exact (Option.some.inj hq').symm

/-- Passing a record over is right if it is outdated or changes nothing. -/
theorem passes_iff {r : NoteRecord} (hshow : ShowsNewest env bctx w records r.note.id) :
    ShowsNewest env bctx w (r :: records) r.note.id ↔
      ¬ Newest records r ∨ Shows env bctx w r.note := by
  constructor
  · intro hall
    by_cases hnew : Newest records r
    · exact .inr (hall r List.mem_cons_self rfl (newest_cons.mpr ⟨fun _ => le_refl _, hnew⟩))
    · exact .inl hnew
  · intro hright q hq hid hnew
    obtain ⟨-, hnewq⟩ := newest_cons.mp hnew
    obtain rfl | hq := List.mem_cons.mp hq
    · obtain hold | hshown := hright
      · exact absurd hnewq hold
      · exact hshown
    · exact hshow q hq hid hnewq

end Records

/-- The runs of mapped records: the store is intact, and each handler is in one of its phases. -/
structure Running (env : Env) (binding : BindingRef) (bctx : BindingContext) (w₀ : World)
    (D : NoteRecord → Prop) (p : Deliveries) : Prop where
  intact : Intact bctx w₀ p.state
  handlers : ∀ id r c, p.running id = some (r, c) → r.note.id = id ∧ D r ∧
    (Arriving env binding bctx w₀ r c ∨ Writing env binding bctx w₀ r c ∨ Leaving bctx w₀ c)
  completed : ∀ r ∈ p.completed, D r

/-- The note shows its newest record, or will when its handler is done. -/
inductive Good (env : Env) (binding : BindingRef) (bctx : BindingContext) (w₀ : World)
    (p : Deliveries) (id : Int) : Prop
  | idle (hrun : p.running id = none) (hshow : ShowsNewest env bctx p.state p.completed id)
  | arriving (r : NoteRecord) (c : Async Unit) (hrun : p.running id = some (r, c))
      (hphase : Arriving env binding bctx w₀ r c)
      (hshow : ShowsNewest env bctx p.state p.completed id)
  | writing (r : NoteRecord) (c : Async Unit) (hrun : p.running id = some (r, c))
      (hphase : Writing env binding bctx w₀ r c)
      (hbrings : ∀ q ∈ r :: p.completed, q.note.id = id → Newest (r :: p.completed) q →
        textOf env bctx q.note = textOf env bctx r.note)
  | leaving (r : NoteRecord) (c : Async Unit) (hrun : p.running id = some (r, c))
      (hphase : Leaving bctx w₀ c)
      (hshow : ShowsNewest env bctx p.state (r :: p.completed) id)

/-- The handler of the note has compared and will leave it without its newest record. -/
inductive Bad (env : Env) (binding : BindingRef) (bctx : BindingContext) (w₀ : World)
    (p : Deliveries) (id : Int) : Prop
  | writing (r : NoteRecord) (c : Async Unit) (hrun : p.running id = some (r, c))
      (hphase : Writing env binding bctx w₀ r c)
      (hloses : ∃ q ∈ r :: p.completed, q.note.id = id ∧ Newest (r :: p.completed) q ∧
        textOf env bctx q.note ≠ textOf env bctx r.note)
  | leaving (r : NoteRecord) (c : Async Unit) (hrun : p.running id = some (r, c))
      (hphase : Leaving bctx w₀ c)
      (hmissing : ¬ ShowsNewest env bctx p.state (r :: p.completed) id)

/-- What a step does to a note it is not about. -/
structure Beside (env : Env) (bctx : BindingContext) (D : NoteRecord → Prop) (id : Int)
    (p p' : Deliveries) : Prop where
  running : p'.running id = p.running id
  completed : ∀ q : NoteRecord, q.note.id = id → (q ∈ p'.completed ↔ q ∈ p.completed)
  message : (∃ r, D r ∧ r.note.id = id) →
    messageOf env bctx p'.state id = messageOf env bctx p.state id

section Beside

variable {env : Env} {binding : BindingRef} {bctx : BindingContext} {w₀ : World}
  {D : NoteRecord → Prop} {p p' : Deliveries} {id : Int}

theorem Beside.showsNewest (hb : Beside env bctx D id p p') {rs rs' : List NoteRecord}
    (hD : ∀ r ∈ rs, D r)
    (hmem : ∀ q : NoteRecord, q.note.id = id → (q ∈ rs' ↔ q ∈ rs)) :
    ShowsNewest env bctx p'.state rs' id ↔ ShowsNewest env bctx p.state rs id := by
  constructor
  · intro h
    refine h.congr (fun q hq => (hmem q hq).symm) fun q hq hid => ?_
    exact (hb.message ⟨q, hD q ((hmem q hid).mp hq), hid⟩).symm
  · intro h
    exact h.congr hmem fun q hq hid => hb.message ⟨q, hD q hq, hid⟩

theorem Beside.cons (hb : Beside env bctx D id p p') (r q : NoteRecord) (hq : q.note.id = id) :
    q ∈ r :: p'.completed ↔ q ∈ r :: p.completed := by
  simp only [List.mem_cons, hb.completed q hq]

theorem Beside.newest (hb : Beside env bctx D id p p') {r q : NoteRecord}
    (hq : q.note.id = id) : Newest (r :: p'.completed) q ↔ Newest (r :: p.completed) q := by
  have hmem : ∀ x : NoteRecord, x.note.id = q.note.id →
      (x ∈ r :: p'.completed ↔ x ∈ r :: p.completed) := fun x hx => hb.cons r x (hx.trans hq)
  exact ⟨Newest.congr fun x hx => (hmem x hx).symm, Newest.congr hmem⟩

variable (hI : Running env binding bctx w₀ D p)
include hI

theorem Running.cons {r : NoteRecord} {c : Async Unit} (hrun : p.running id = some (r, c)) :
    ∀ q ∈ r :: p.completed, D q := by
  intro q hq
  obtain rfl | hq := List.mem_cons.mp hq
  · exact (hI.handlers id q c hrun).2.1
  · exact hI.completed q hq

theorem Beside.good (hb : Beside env bctx D id p p') (hg : Good env binding bctx w₀ p id) :
    Good env binding bctx w₀ p' id := by
  cases hg with
  | idle hrun hshow =>
    exact .idle (hb.running.trans hrun)
      ((hb.showsNewest hI.completed hb.completed).mpr hshow)
  | arriving r c hrun hphase hshow =>
    exact .arriving r c (hb.running.trans hrun) hphase
      ((hb.showsNewest hI.completed hb.completed).mpr hshow)
  | writing r c hrun hphase hbrings =>
    refine .writing r c (hb.running.trans hrun) hphase fun q hq hid hnew => ?_
    exact hbrings q ((hb.cons r q hid).mp hq) hid ((hb.newest hid).mp hnew)
  | leaving r c hrun hphase hshow =>
    exact .leaving r c (hb.running.trans hrun) hphase
      ((hb.showsNewest (hI.cons hrun) (hb.cons r)).mpr hshow)

theorem Beside.bad (hb : Beside env bctx D id p p') (hg : Bad env binding bctx w₀ p id) :
    Bad env binding bctx w₀ p' id := by
  cases hg with
  | writing r c hrun hphase hloses =>
    obtain ⟨q, hq, hid, hnew, hne⟩ := hloses
    exact .writing r c (hb.running.trans hrun) hphase
      ⟨q, (hb.cons r q hid).mpr hq, hid, (hb.newest hid).mpr hnew, hne⟩
  | leaving r c hrun hphase hmissing =>
    refine .leaving r c (hb.running.trans hrun) hphase fun hshow => hmissing ?_
    exact (hb.showsNewest (hI.cons hrun) (hb.cons r)).mp hshow

end Beside

/-- The step starts or advances a handler of the note. -/
def Concerns (id : Int) : Pool.Action Int NoteRecord Nat → Prop
  | .start r => r.note.id = id
  | .advance j => j = id
  | .disturb _ => False

section Step

variable {env : Env} (h : env.Healthy) {binding : BindingRef} {bctx : BindingContext}
  (hload : env.loadBinding binding = .ok bctx) {w₀ : World} {D : NoteRecord → Prop}
  (hD : ∀ r, D r → Mapped env bctx w₀ r) {p : Deliveries}
include h hD

omit hD in
/-- In every phase a call keeps the store and the other notes, and leads to a phase. -/
theorem acted {r : NoteRecord} (hm : Mapped env bctx w₀ r) {w : World} (hI : Intact bctx w₀ w)
    {point : Await} {act : World → World} {rest : World → Async Unit}
    (hphase : Arriving env binding bctx w₀ r (.await point act rest) ∨
      Writing env binding bctx w₀ r (.await point act rest) ∨
      Leaving bctx w₀ (.await point act rest)) :
    Intact bctx w₀ (act w) ∧
      (∀ q, Mapped env bctx w₀ q → q.note.id ≠ r.note.id →
        messageOf env bctx (act w) q.note.id = messageOf env bctx w q.note.id) ∧
      (Arriving env binding bctx w₀ r (rest w) ∨ Writing env binding bctx w₀ r (rest w) ∨
        Leaving bctx w₀ (rest w)) := by
  obtain harriving | hwriting | hleaving := hphase
  · obtain ⟨_, _, _, hawait, hJ, hdocs, hnext⟩ := advance_arriving h hI harriving
    cases hawait
    refine ⟨hJ, fun q _ _ => hI.messageOf_eq hJ hdocs _, ?_⟩
    obtain ⟨-, hrest⟩ | ⟨-, hwrite, hleave⟩ := hnext
    · exact .inl hrest
    · by_cases hlt : cursorOf binding w < r.note.updatedAt
      · exact .inr (.inl (hwrite hlt))
      · exact .inr (.inr (hleave hlt))
  · obtain ⟨_, _, _, hawait, hJ, -, hothers, hrest⟩ := advance_writing h hI hm hwriting
    cases hawait
    exact ⟨hJ, hothers, .inr (.inr hrest)⟩
  · obtain ⟨_, hdone⟩ | ⟨_, _, _, hawait, -, hJ, hdocs, hrest⟩ := advance_leaving hI hleaving
    · cases hdone
    · cases hawait
      exact ⟨hJ, fun q _ _ => hI.messageOf_eq hJ hdocs _, .inr (.inr hrest)⟩

theorem beside_step (hI : Running env binding bctx w₀ D p) {id : Int}
    {a : Pool.Action Int NoteRecord Nat} (ha : ¬ Concerns id a) :
    Beside env bctx D id p (deliver env binding p a) := by
  have hsame : Beside env bctx D id p p := ⟨rfl, fun _ _ => Iff.rfl, fun _ => rfl⟩
  cases a with
  | start r =>
    have hne : id ≠ r.note.id := fun hid => ha hid.symm
    cases hrun : p.running r.note.id with
    | some handler => rwa [deliver, Pool.step_start_of_some hrun]
    | none =>
      rw [deliver, Pool.step_start_of_none hrun]
      exact ⟨Function.update_of_ne hne _ _, fun _ _ => Iff.rfl, fun _ => rfl⟩
  | advance j =>
    have hne : id ≠ j := fun hid => ha hid.symm
    cases hrun : p.running j with
    | none => rwa [deliver, Pool.step_advance_of_none hrun]
    | some handler =>
      obtain ⟨r, c⟩ := handler
      obtain ⟨rfl, hr, hphase⟩ := hI.handlers j r c hrun
      cases c with
      | done result =>
        rw [deliver, Pool.step_advance_done hrun]
        refine ⟨Function.update_of_ne hne _ _, fun q hq => ?_, fun _ => rfl⟩
        have hqr : q ≠ r := fun heq => hne (hq.symm.trans (congrArg (fun x => x.note.id) heq))
        simp only [List.mem_cons, hqr, false_or]
      | await point act rest =>
        rw [deliver, Pool.step_advance_await hrun]
        obtain ⟨-, hothers, -⟩ := acted h (hD r hr) hI.intact hphase
        refine ⟨Function.update_of_ne hne _ _, fun _ _ => Iff.rfl, ?_⟩
        rintro ⟨q, hq, rfl⟩
        exact hothers q (hD q hq) hne
  | disturb t => exact ⟨rfl, fun _ _ => Iff.rfl, fun _ => rfl⟩

include hload

theorem running_step (hI : Running env binding bctx w₀ D p) {a : Pool.Action Int NoteRecord Nat}
    (ha : ∀ r, a = .start r → D r) : Running env binding bctx w₀ D (deliver env binding p a) := by
  cases a with
  | start r =>
    cases hrun : p.running r.note.id with
    | some handler => rwa [deliver, Pool.step_start_of_some hrun]
    | none =>
      rw [deliver, Pool.step_start_of_none hrun]
      refine ⟨hI.intact, fun id q c hq => ?_, hI.completed⟩
      dsimp only at hq
      by_cases hid : id = r.note.id
      · subst hid
        rw [Function.update_self] at hq
        cases hq
        exact ⟨rfl, ha r rfl, .inl (arriving h hload (hD r (ha r rfl)))⟩
      · rw [Function.update_of_ne hid] at hq
        exact hI.handlers id q c hq
  | advance j =>
    cases hrun : p.running j with
    | none => rwa [deliver, Pool.step_advance_of_none hrun]
    | some handler =>
      obtain ⟨r, c⟩ := handler
      obtain ⟨rfl, hr, hphase⟩ := hI.handlers j r c hrun
      cases c with
      | done result =>
        rw [deliver, Pool.step_advance_done hrun]
        refine ⟨hI.intact, fun id q c hq => ?_, hI.cons hrun⟩
        dsimp only at hq
        by_cases hid : id = r.note.id
        · rw [hid, Function.update_self] at hq
          cases hq
        · rw [Function.update_of_ne hid] at hq
          exact hI.handlers id q c hq
      | await point act rest =>
        rw [deliver, Pool.step_advance_await hrun]
        obtain ⟨hJ, -, hnext⟩ := acted h (hD r hr) hI.intact hphase
        refine ⟨hJ, fun id q c hq => ?_, hI.completed⟩
        dsimp only at hq
        by_cases hid : id = r.note.id
        · rw [hid, Function.update_self] at hq
          cases hq
          exact ⟨hid.symm, hr, hnext⟩
        · rw [Function.update_of_ne hid] at hq
          exact hI.handlers id q c hq
  | disturb t => exact ⟨⟨hI.intact.rows, hI.intact.owned, hI.intact.docs⟩, hI.handlers, hI.completed⟩

variable (hdist : ∀ q r, D q → D r → q.note.id = r.note.id →
  q.note.updatedAt = r.note.updatedAt → q.note.body = r.note.body)
include hdist

omit hD hload in
/-- The comparison settles whether the note will show its newest record. -/
theorem compared (hI : Running env binding bctx w₀ D p) {r : NoteRecord} {point : Await}
    {act : World → World} {rest : World → Async Unit}
    (hrun : p.running r.note.id = some (r, .await point act rest))
    (hphase : Arriving env binding bctx w₀ r (.await point act rest))
    (hshow : ShowsNewest env bctx p.state p.completed r.note.id) :
    (Timely env binding bctx p (.advance r.note.id) →
        Good env binding bctx w₀ (deliver env binding p (.advance r.note.id)) r.note.id) ∧
      (¬ Timely env binding bctx p (.advance r.note.id) →
        Bad env binding bctx w₀ (deliver env binding p (.advance r.note.id)) r.note.id) := by
  obtain ⟨_, hr, -⟩ := hI.handlers _ _ _ hrun
  have hdist' : ∀ q ∈ p.completed, q.note.id = r.note.id →
      q.note.updatedAt = r.note.updatedAt → q.note.body = r.note.body :=
    fun q hq => hdist q r (hI.completed q hq) hr
  obtain ⟨_, _, _, hawait, hJ, hdocs, hnext⟩ := advance_arriving h hI.intact hphase
  cases hawait
  have hmessage : messageOf env bctx (act p.state) r.note.id =
      messageOf env bctx p.state r.note.id := hI.intact.messageOf_eq hJ hdocs r.note.id
  have hself : (deliver env binding p (.advance r.note.id)).running r.note.id =
      some (r, rest p.state) := by
    rw [deliver, Pool.step_advance_await hrun]
    exact Function.update_self _ _ _
  have hstate : (deliver env binding p (.advance r.note.id)).state = act p.state := by
    rw [deliver, Pool.step_advance_await hrun]
  have hdone : (deliver env binding p (.advance r.note.id)).completed = p.completed := by
    rw [deliver, Pool.step_advance_await hrun]
  obtain ⟨hpoint, hrest⟩ | ⟨rfl, hwrite, hleave⟩ := hnext
  · have htimely : Timely env binding bctx p (.advance r.note.id) := by
      intro q c hq hread
      cases hrun.symm.trans hq
      exact absurd (Option.some.inj hread) hpoint
    refine ⟨fun _ => .arriving r _ hself hrest ?_, fun hnot => absurd htimely hnot⟩
    rw [hstate, hdone]
    exact hshow.congr (fun _ _ => Iff.rfl) fun _ _ _ => hmessage
  · have htimely : Timely env binding bctx p (.advance r.note.id) ↔
        (cursorOf binding p.state < r.note.updatedAt ↔ Newest p.completed r) ∨
          Shows env bctx p.state r.note := by
      constructor
      · exact fun ht => ht r _ hrun rfl
      · rintro ht q c hq -
        cases hrun.symm.trans hq
        exact ht
    have hpass : ShowsNewest env bctx (act p.state) (r :: p.completed) r.note.id ↔
        ¬ Newest p.completed r ∨ Shows env bctx p.state r.note := by
      rw [← passes_iff hshow]
      exact ⟨fun hs => hs.congr (fun _ _ => Iff.rfl) fun _ _ _ => hmessage.symm,
        fun hs => hs.congr (fun _ _ => Iff.rfl) fun _ _ _ => hmessage⟩
    by_cases hlt : cursorOf binding p.state < r.note.updatedAt
    · have hbring := brings_iff hshow hdist'
      simp only [hlt, true_iff] at htimely
      rw [htimely, ← hbring]
      constructor
      · intro hb
        exact .writing r _ hself (hwrite hlt) (by rw [hdone]; exact hb)
      · intro hb
        refine .writing r _ hself (hwrite hlt) ?_
        rw [hdone]
        simpa only [not_forall, exists_prop] using hb
    · simp only [hlt, false_iff] at htimely
      rw [htimely, ← hpass]
      constructor
      · intro hs
        exact .leaving r _ hself (hleave hlt) (by rw [hstate, hdone]; exact hs)
      · intro hs
        exact .leaving r _ hself (hleave hlt) (by rw [hstate, hdone]; exact hs)

omit hdist hload in
/-- The write and what follows it go as foreseen. -/
theorem wrote (hI : Running env binding bctx w₀ D p) {r : NoteRecord} {c : Async Unit}
    (hrun : p.running r.note.id = some (r, c)) (hphase : Writing env binding bctx w₀ r c) :
    ∃ c' w, Leaving bctx w₀ c' ∧
      messageOf env bctx w r.note.id = some (textOf env bctx r.note) ∧
      (deliver env binding p (.advance r.note.id)).running r.note.id = some (r, c') ∧
      (deliver env binding p (.advance r.note.id)).state = w ∧
      (deliver env binding p (.advance r.note.id)).completed = p.completed := by
  obtain ⟨_, hr, -⟩ := hI.handlers _ _ _ hrun
  obtain ⟨_, act, rest, rfl, -, hmessage, -, hrest⟩ := advance_writing h hI.intact (hD r hr) hphase
  refine ⟨rest p.state, act p.state, hrest, hmessage, ?_⟩
  rw [deliver, Pool.step_advance_await hrun]
  exact ⟨Function.update_self _ _ _, rfl, rfl⟩

omit hdist hload hD h in
/-- A handler that leaves ends, or goes on without touching a document. -/
theorem left (hI : Running env binding bctx w₀ D p) {r : NoteRecord} {c : Async Unit}
    (hrun : p.running r.note.id = some (r, c)) (hphase : Leaving bctx w₀ c) :
    ((deliver env binding p (.advance r.note.id)).running r.note.id = none ∧
        (deliver env binding p (.advance r.note.id)).state = p.state ∧
        (deliver env binding p (.advance r.note.id)).completed = r :: p.completed) ∨
      ∃ c' w, Leaving bctx w₀ c' ∧
        messageOf env bctx w r.note.id = messageOf env bctx p.state r.note.id ∧
        (deliver env binding p (.advance r.note.id)).running r.note.id = some (r, c') ∧
        (deliver env binding p (.advance r.note.id)).state = w ∧
        (deliver env binding p (.advance r.note.id)).completed = p.completed := by
  obtain ⟨result, rfl⟩ | ⟨point, act, rest, rfl, -, hJ, hdocs, hrest⟩ :=
    advance_leaving hI.intact hphase
  · left
    rw [deliver, Pool.step_advance_done hrun]
    exact ⟨Function.update_self _ _ _, rfl, rfl⟩
  · right
    refine ⟨rest p.state, act p.state, hrest, hI.intact.messageOf_eq hJ hdocs _, ?_⟩
    rw [deliver, Pool.step_advance_await hrun]
    exact ⟨Function.update_self _ _ _, rfl, rfl⟩

theorem good_step (hI : Running env binding bctx w₀ D p) {id : Int}
    {a : Pool.Action Int NoteRecord Nat} (ha : ∀ r, a = .start r → D r)
    (hg : Good env binding bctx w₀ p id) (ht : Timely env binding bctx p a) :
    Good env binding bctx w₀ (deliver env binding p a) id := by
  by_cases hid : Concerns id a
  · cases a with
    | start r =>
      subst hid
      cases hrun : p.running r.note.id with
      | some handler => rwa [deliver, Pool.step_start_of_some hrun]
      | none =>
        have hshow : ShowsNewest env bctx p.state p.completed r.note.id := by
          cases hg with
          | idle _ hshow => exact hshow
          | arriving _ _ hsome _ _ => exact absurd (hrun.symm.trans hsome) (by simp)
          | writing _ _ hsome _ _ => exact absurd (hrun.symm.trans hsome) (by simp)
          | leaving _ _ hsome _ _ => exact absurd (hrun.symm.trans hsome) (by simp)
        rw [deliver, Pool.step_start_of_none hrun]
        exact .arriving r _ (Function.update_self _ _ _)
          (arriving h hload (hD r (ha r rfl))) hshow
    | advance j =>
      subst hid
      cases hg with
      | idle hrun hshow =>
        rw [deliver, Pool.step_advance_of_none hrun]
        exact .idle hrun hshow
      | arriving r c hrun hphase hshow =>
        obtain ⟨rfl, -, -⟩ := hI.handlers _ _ _ hrun
        obtain ⟨_, _, _, rfl, -⟩ := advance_arriving h hI.intact hphase
        exact (compared h hdist hI hrun hphase hshow).1 ht
      | writing r c hrun hphase hbrings =>
        obtain ⟨rfl, -, -⟩ := hI.handlers _ _ _ hrun
        obtain ⟨c', w, hleave, hmessage, hrun', hstate, hdone⟩ := wrote h hD hI hrun hphase
        refine .leaving r c' hrun' hleave ?_
        rw [hstate, hdone]
        intro q hq hid hnew
        unfold Shows
        rw [hid, hmessage, hbrings q hq hid hnew]
      | leaving r c hrun hphase hshow =>
        obtain ⟨rfl, -, -⟩ := hI.handlers _ _ _ hrun
        obtain ⟨hrun', hstate, hdone⟩ | ⟨c', w, hleave, hmessage, hrun', hstate, hdone⟩ :=
          left hI hrun hphase
        · exact .idle hrun' (by rw [hstate, hdone]; exact hshow)
        · refine .leaving r c' hrun' hleave ?_
          rw [hstate, hdone]
          exact hshow.congr (fun _ _ => Iff.rfl) fun _ _ _ => hmessage
    | disturb t => exact hid.elim
  · exact (beside_step h hD hI hid).good hI hg

omit hdist hload in
/-- A note that misses its newest record still does when its handler is done. -/
theorem bad_step (hI : Running env binding bctx w₀ D p) {id : Int}
    (a : Pool.Action Int NoteRecord Nat) (hb : Bad env binding bctx w₀ p id) :
    Bad env binding bctx w₀ (deliver env binding p a) id ∨
      ¬ Converged env bctx (deliver env binding p a) := by
  by_cases hid : Concerns id a
  · cases a with
    | start r =>
      left
      subst hid
      have hsome : ∃ handler, p.running r.note.id = some handler := by
        cases hb with
        | writing q c hrun _ _ => exact ⟨_, hrun⟩
        | leaving q c hrun _ _ => exact ⟨_, hrun⟩
      obtain ⟨handler, hrun⟩ := hsome
      rwa [deliver, Pool.step_start_of_some hrun]
    | advance j =>
      subst hid
      cases hb with
      | writing r c hrun hphase hloses =>
        left
        obtain ⟨rfl, -, -⟩ := hI.handlers _ _ _ hrun
        obtain ⟨c', w, hleave, hmessage, hrun', hstate, hdone⟩ := wrote h hD hI hrun hphase
        refine .leaving r c' hrun' hleave fun hshow => ?_
        rw [hstate, hdone] at hshow
        obtain ⟨q, hq, hid, hnew, hne⟩ := hloses
        have hshown : Shows env bctx w q.note := hshow q hq hid hnew
        unfold Shows at hshown
        rw [hid, hmessage] at hshown
        exact hne (Option.some.inj hshown).symm
      | leaving r c hrun hphase hmissing =>
        obtain ⟨rfl, -, -⟩ := hI.handlers _ _ _ hrun
        obtain ⟨hrun', hstate, hdone⟩ | ⟨c', w, hleave, hmessage, hrun', hstate, hdone⟩ :=
          left hI hrun hphase
        · right
          intro hconv
          have hshow := hconv r.note.id hrun'
          rw [hstate, hdone] at hshow
          exact hmissing hshow
        · left
          refine .leaving r c' hrun' hleave fun hshow => hmissing ?_
          rw [hstate, hdone] at hshow
          exact hshow.congr (fun _ _ => Iff.rfl) fun _ _ _ => hmessage.symm
    | disturb t => exact hid.elim
  · exact .inl ((beside_step h hD hI hid).bad hI hb)

omit hload hD in
theorem bad_of_untimely (hI : Running env binding bctx w₀ D p)
    (hg : ∀ id, Good env binding bctx w₀ p id) {a : Pool.Action Int NoteRecord Nat}
    (hnot : ¬ Timely env binding bctx p a) :
    ∃ id, Bad env binding bctx w₀ (deliver env binding p a) id := by
  cases a with
  | start r => exact absurd trivial hnot
  | disturb t => exact absurd trivial hnot
  | advance id =>
    simp only [Timely, not_forall] at hnot
    obtain ⟨r, c, hrun, hread, hunright⟩ := hnot
    obtain ⟨rfl, -, -⟩ := hI.handlers _ _ _ hrun
    have hnot : ¬ Timely env binding bctx p (.advance r.note.id) :=
      fun ht => hunright (ht r c hrun hread)
    refine ⟨r.note.id, ?_⟩
    -- only a handler that has not compared waits for the cursor
    cases hg r.note.id with
    | idle hidle _ => exact absurd (hidle.symm.trans hrun) (by simp)
    | arriving q c' hrun' hphase hshow =>
      cases hrun.symm.trans hrun'
      obtain ⟨_, _, _, rfl, -⟩ := advance_arriving h hI.intact hphase
      exact (compared h hdist hI hrun hphase hshow).2 hnot
    | writing q c' hrun' hphase _ =>
      cases hrun.symm.trans hrun'
      obtain ⟨row, author, -, rfl⟩ := hphase
      cases hread
    | leaving q c' hrun' hphase _ =>
      cases hrun.symm.trans hrun'
      obtain ⟨result, rfl⟩ | ⟨point, act, rest, rfl, hpoint, -⟩ := advance_leaving hI.intact hphase
      · cases hread
      · exact absurd (Option.some.inj hread) hpoint

omit hdist in
theorem not_converged_of_bad {acts : List (Pool.Action Int NoteRecord Nat)}
    (hacts : ∀ r, .start r ∈ acts → D r) (hI : Running env binding bctx w₀ D p) {id : Int}
    (hb : Bad env binding bctx w₀ p id)
    (hend : (Transition.exec (deliver env binding) p acts).running id = none) :
    ¬ Transition.Throughout (deliver env binding) (Converged env bctx) p acts := by
  induction acts generalizing p with
  | nil =>
    cases hb with
    | writing r c hrun _ _ => exact absurd (hend.symm.trans hrun) (by simp)
    | leaving r c hrun _ _ => exact absurd (hend.symm.trans hrun) (by simp)
  | cons a acts ih =>
    intro hall
    have hacts' : ∀ r, .start r ∈ acts → D r := fun r hr => hacts r (List.mem_cons_of_mem a hr)
    have hI' := running_step h hload hD hI fun r hr => hacts r (hr ▸ List.mem_cons_self)
    obtain hb' | hnot := bad_step h hD hI a hb
    · exact ih hacts' hI' hb' hend hall.2
    · exact hnot (hall.2.first)

theorem converged_iff_of_good {acts : List (Pool.Action Int NoteRecord Nat)}
    (hacts : ∀ r, .start r ∈ acts → D r) (hI : Running env binding bctx w₀ D p)
    (hg : ∀ id, Good env binding bctx w₀ p id)
    (hend : ∀ id, (Transition.exec (deliver env binding) p acts).running id = none) :
    Transition.Throughout (deliver env binding) (Converged env bctx) p acts ↔
      Transition.Along (deliver env binding) (Timely env binding bctx) p acts := by
  have hconv : Converged env bctx p := by
    intro id hidle
    cases hg id with
    | idle _ hshow => exact hshow
    | arriving r c hrun _ _ => exact absurd (hidle.symm.trans hrun) (by simp)
    | writing r c hrun _ _ => exact absurd (hidle.symm.trans hrun) (by simp)
    | leaving r c hrun _ _ => exact absurd (hidle.symm.trans hrun) (by simp)
  induction acts generalizing p with
  | nil => exact ⟨fun _ => trivial, fun _ => hconv⟩
  | cons a acts ih =>
    have hacts' : ∀ r, .start r ∈ acts → D r := fun r hr => hacts r (List.mem_cons_of_mem a hr)
    have ha : ∀ r, a = .start r → D r := fun r hr => hacts r (hr ▸ List.mem_cons_self)
    have hI' := running_step h hload hD hI ha
    have hrest : Timely env binding bctx p a →
        (Transition.Throughout (deliver env binding) (Converged env bctx)
            (deliver env binding p a) acts ↔
          Transition.Along (deliver env binding) (Timely env binding bctx)
            (deliver env binding p a) acts) := by
      intro ht
      have hg' : ∀ id, Good env binding bctx w₀ (deliver env binding p a) id :=
        fun id => good_step h hload hD hdist hI ha (hg id) ht
      refine ih hacts' hI' hg' hend fun id hidle => ?_
      cases hg' id with
      | idle _ hshow => exact hshow
      | arriving r c hrun _ _ => exact absurd (hidle.symm.trans hrun) (by simp)
      | writing r c hrun _ _ => exact absurd (hidle.symm.trans hrun) (by simp)
      | leaving r c hrun _ _ => exact absurd (hidle.symm.trans hrun) (by simp)
    constructor
    · rintro ⟨-, hall⟩
      -- an untimely comparison leaves its note bad until the handler is done
      have ht : Timely env binding bctx p a := by
        by_contra hnot
        obtain ⟨id, hb⟩ := bad_of_untimely h hdist hI hg hnot
        exact not_converged_of_bad h hload hD hacts' hI' hb (hend id) hall
      exact ⟨ht, (hrest ht).mp hall⟩
    · rintro ⟨ht, hall⟩
      exact ⟨hconv, (hrest ht).mpr hall⟩

end Step

/-- Whatever the deliveries, their order and their interleaving: at every point of a run each idle
note shows the newest of its records exactly when, at each comparison, the cursor of the binding
lets pass what is newer than the earlier records of the same note, and nothing else, or the
record brings nothing new. -/
theorem converged_iff_timely (env : Env) (h : env.Healthy) (binding : BindingRef)
    (bctx : BindingContext) (hload : env.loadBinding binding = .ok bctx) (w : World)
    (howned : StubsOwned w.idmap) (acts : List (Pool.Action Int NoteRecord Nat))
    (hm : ∀ r, .start r ∈ acts → Mapped env bctx w r)
    (hdist : ∀ q r, .start q ∈ acts → .start r ∈ acts → q.note.id = r.note.id →
      q.note.updatedAt = r.note.updatedAt → q.note.body = r.note.body)
    (hend : ∀ id, (Transition.exec (deliver env binding) (Pool.idle w) acts).running id = none) :
    Transition.Throughout (deliver env binding) (Converged env bctx) (Pool.idle w) acts ↔
      Transition.Along (deliver env binding) (Timely env binding bctx) (Pool.idle w) acts := by
  have hstart : Running env binding bctx w (fun r => .start r ∈ acts) (Pool.idle w) :=
    ⟨Intact.refl howned, fun id r c hrun => absurd hrun (by simp [Pool.idle]),
      fun r hr => absurd hr List.not_mem_nil⟩
  refine converged_iff_of_good h hload hm hdist (fun _ hr => hr) hstart (fun id => ?_) hend
  exact .idle rfl fun r hr => absurd hr List.not_mem_nil

/-- Issue 3 of project 7 with the notes 1 and 2. -/
def commentedWorld : World :=
  { World.initial with
    idmap := ⟨[⟨"ws", .issue, "7:3", issueClass, "issue"⟩,
      ⟨"ws", .note, "7:1", HULY_CLASS_CHAT_MESSAGE, "one"⟩,
      ⟨"ws", .note, "7:2", HULY_CLASS_CHAT_MESSAGE, "two"⟩], by decide, by decide⟩
    docs := (OrderedMap.empty.set "one" ⟨chatMessageClass, "project", [("message", .str "a")],
      .empty⟩).set "two" ⟨chatMessageClass, "project", [("message", .str "b")], .empty⟩ }

/-- A version of a note of issue 3. -/
def commentVersion (id : Int) (body : String) (updatedAt : Nat) : NoteRecord :=
  ⟨3, ⟨id, body, ⟨4, "u", "U", none, none, ""⟩, 0, updatedAt, false, false, none⟩⟩

def newBody : NoteRecord := commentVersion 1 "c" 10

/-- The other note was edited earlier. -/
def earlierBody : NoteRecord := commentVersion 2 "d" 5

/-- The record arrives and its handler runs to the end. -/
def handled (r : NoteRecord) : List (Pool.Action Int NoteRecord Nat) :=
  .start r :: List.replicate 10 (.advance r.note.id)

theorem start_mem_handled {q r : NoteRecord} (hq : Pool.Action.start q ∈ handled r) : q = r := by
  obtain hq | hq := List.mem_cons.mp hq
  · exact Pool.Action.start.inj hq
  · cases List.eq_of_mem_replicate hq

theorem stubsOwned_commentedWorld : StubsOwned commentedWorld.idmap := by
  intro row hrow hclass
  have hclasses : ∀ row ∈ commentedWorld.idmap.rows, row.hulyClass ≠ "huly:class:Person" := by
    decide
  exact absurd hclass (hclasses row hrow)

theorem mapped_newBody :
    Mapped (Env.quiet quietBinding) quietBinding commentedWorld newBody where
  user := rfl
  parent := ⟨⟨"ws", .issue, "7:3", issueClass, "issue"⟩, by decide +kernel⟩
  row := ⟨⟨"ws", .note, "7:1", HULY_CLASS_CHAT_MESSAGE, "one"⟩, _, by decide +kernel, rfl, rfl⟩

theorem mapped_earlierBody :
    Mapped (Env.quiet quietBinding) quietBinding commentedWorld earlierBody where
  user := rfl
  parent := ⟨⟨"ws", .issue, "7:3", issueClass, "issue"⟩, by decide +kernel⟩
  row := ⟨⟨"ws", .note, "7:2", HULY_CLASS_CHAT_MESSAGE, "two"⟩, _, by decide +kernel, rfl, rfl⟩

theorem deliver_idle {env : Env} {binding : BindingRef} {id : Int}
    (acts : List (Pool.Action Int NoteRecord Nat)) (hacts : ∀ a ∈ acts, ¬ Concerns id a)
    {p : Deliveries} (hidle : p.running id = none) :
    (Transition.exec (deliver env binding) p acts).running id = none := by
  induction acts generalizing p with
  | nil => exact hidle
  | cons a acts ih =>
    apply ih fun b hb => hacts b (List.mem_cons_of_mem a hb)
    have hother : ¬ Concerns id a := hacts a List.mem_cons_self
    cases a with
    | start r =>
      have hne : id ≠ r.note.id := fun hid => hother hid.symm
      cases hrun : p.running r.note.id with
      | some handler => rwa [deliver, Pool.step_start_of_some hrun]
      | none =>
        rw [deliver, Pool.step_start_of_none hrun]
        exact (Function.update_of_ne hne _ _).trans hidle
    | advance j =>
      have hne : id ≠ j := fun hid => hother hid.symm
      cases hrun : p.running j with
      | none => rwa [deliver, Pool.step_advance_of_none hrun]
      | some handler =>
        obtain ⟨r, c⟩ := handler
        cases c with
        | done result =>
          rw [deliver, Pool.step_advance_done hrun]
          exact (Function.update_of_ne hne _ _).trans hidle
        | await point act rest =>
          rw [deliver, Pool.step_advance_await hrun]
          exact (Function.update_of_ne hne _ _).trans hidle
    | disturb t => exact hidle

theorem concerns_handled {id : Int} {r : NoteRecord} (hid : id ≠ r.note.id) :
    ∀ a ∈ handled r, ¬ Concerns id a := by
  intro a ha
  obtain rfl | ha := List.mem_cons.mp ha
  · exact fun h => hid h.symm
  · rw [List.eq_of_mem_replicate ha]
    exact fun h => hid h.symm

/-- A single delivery converges if and only if it is timely. -/
theorem converged_iff_timely_newBody :
    Transition.Throughout (deliver (Env.quiet quietBinding) "b")
        (Converged (Env.quiet quietBinding) quietBinding) (Pool.idle commentedWorld)
        (handled newBody) ↔
      Transition.Along (deliver (Env.quiet quietBinding) "b")
        (Timely (Env.quiet quietBinding) "b" quietBinding) (Pool.idle commentedWorld)
        (handled newBody) := by
  refine converged_iff_timely (Env.quiet quietBinding) (Env.quiet_healthy _) "b" quietBinding rfl
    commentedWorld stubsOwned_commentedWorld (handled newBody) (fun r hr => ?_)
    (fun q r hq hr _ _ => ?_) fun id => ?_
  · rw [start_mem_handled hr]
    exact mapped_newBody
  · rw [start_mem_handled hq, start_mem_handled hr]
  · by_cases hid : id = 1
    · subst hid
      exact Option.isNone_iff_eq_none.mp (by decide +kernel)
    · exact deliver_idle _ (concerns_handled hid) rfl

/-- The newer body of the one note moves the cursor past the body of the other, which is then
ignored. -/
theorem not_converged_of_other_note :
    Mapped (Env.quiet quietBinding) quietBinding commentedWorld newBody ∧
      Mapped (Env.quiet quietBinding) quietBinding commentedWorld earlierBody ∧
      ¬ Converged (Env.quiet quietBinding) quietBinding
        (Transition.exec (deliver (Env.quiet quietBinding) "b") (Pool.idle commentedWorld)
          (handled newBody ++ handled earlierBody)) := by
  refine ⟨mapped_newBody, mapped_earlierBody, fun hconv => ?_⟩
  have hidle : (Transition.exec (deliver (Env.quiet quietBinding) "b") (Pool.idle commentedWorld)
      (handled newBody ++ handled earlierBody)).running 2 = none :=
    Option.isNone_iff_eq_none.mp (by decide +kernel)
  have hdone : (Transition.exec (deliver (Env.quiet quietBinding) "b")
      (Pool.idle commentedWorld) (handled newBody ++ handled earlierBody)).completed =
      [earlierBody, newBody] := by decide +kernel
  have hshown := hconv 2 hidle earlierBody (by rw [hdone]; exact List.mem_cons_self) rfl (by
    rw [hdone]
    intro q hq hid
    obtain rfl | hq := List.mem_cons.mp hq
    · exact le_refl _
    · rw [List.mem_singleton.mp hq] at hid
      cases hid)
  have hold : messageOf (Env.quiet quietBinding) quietBinding
      (Transition.exec (deliver (Env.quiet quietBinding) "b") (Pool.idle commentedWorld)
        (handled newBody ++ handled earlierBody)).state 2 = some (.str "b") := by decide +kernel
  rw [Shows, show earlierBody.note.id = 2 from rfl, hold] at hshown
  exact absurd hshown (by decide +kernel)

end HulyGitlab.Notes
