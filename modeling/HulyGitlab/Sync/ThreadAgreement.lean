import HulyGitlab.Sync.CrashResume
import HulyGitlab.Sync.NoteHooks

/-!
# Threads by hook and by backfill

A hook for a note of a mirrored thread, next to the record that the backfill
has of the thread. The hook knows one note and nothing of the state of the
thread, and the review manager takes what it is given for the state.
-/

namespace HulyGitlab

open Effect UserIdentity

/-- The same value, or objects with the same properties in another order. -/
def JsValue.Alike (u v : JsValue) : Prop :=
  u = v ∨ ∃ fs gs, u = .obj fs ∧ v = .obj gs ∧ ∀ k, Fields.field fs k = Fields.field gs k

namespace JsValue.Alike

theorem refl (v : JsValue) : v.Alike v := .inl rfl

theorem symm {u v : JsValue} (h : u.Alike v) : v.Alike u := by
  obtain rfl | ⟨fs, gs, hu, hv, hfields⟩ := h
  · exact refl u
  · exact .inr ⟨gs, fs, hv, hu, fun k => (hfields k).symm⟩

/-- Values without properties are alike only if they are the same. -/
theorem bool_inj {a b : Bool} (h : (JsValue.bool a).Alike (.bool b)) : a = b := by
  obtain heq | ⟨fs, gs, hu, -⟩ := h
  · exact JsValue.bool.inj heq
  · cases hu

/-- The order of the properties does not matter. -/
theorem of_perm {fs gs : Fields} (hn : (fs.map Prod.fst).Nodup) (h : fs.Perm gs) :
    (JsValue.obj fs).Alike (.obj gs) := by
  have hn' : (gs.map Prod.fst).Nodup := (h.map Prod.fst).nodup_iff.mp hn
  refine .inr ⟨fs, gs, rfl, rfl, fun k => ?_⟩
  by_cases hk : k ∈ fs.map Prod.fst
  · obtain ⟨kv, hmem, rfl⟩ := List.mem_map.mp hk
    rw [Fields.field_of_mem hn hmem, Fields.field_of_mem hn' (h.mem_iff.mp hmem)]
  · rw [Fields.field_of_not_mem hk,
      Fields.field_of_not_mem fun hmem => hk ((h.map Prod.fst).mem_iff.mpr hmem)]

end JsValue.Alike

section Agreement

variable {env : Env} {binding : BindingRef} {bctx : BindingContext} {w : World} {record : Fields}
  {t : SyncReviewThread} {n : SyncReviewNote} {body : String}

/-- The messages of the thread show the same after the hook as after the record with the new body
is applied again, and the note has no second message. -/
structure HookAgrees (env : Env) (binding : BindingRef) (bctx : BindingContext) (w : World)
    (record : Fields) (t : SyncReviewThread) (n : SyncReviewNote) (body : String)
    (updatedAt : Nat) : Prop where
  fields : ∀ m ∈ t.notes, m.system = false → ∀ row,
    w.idmap.findByGitlab bctx.workspaceUuid .review_thread (Reviews.keyOf t m) = some row →
    ∀ k ∈ THREAD_FIELDS,
      (((processNoteHook env binding record).run w).2.mixinField row.hulyRef
          MR_REVIEW_THREAD_MIXIN k).Alike
        (((Reviews.applyRemote env binding (t.reword n.id body updatedAt).toFields).run
          w).2.mixinField row.hulyRef MR_REVIEW_THREAD_MIXIN k)
  single : ¬ Reviews.NewMessage w ((processNoteHook env binding record).run w).2

/-- The hooks that do no harm. Only those of the fourth kind update the message of the note. -/
inductive HookHarmless (env : Env) (bctx : BindingContext) (w : World) (record : Fields)
    (t : SyncReviewThread) (n : SyncReviewNote) : Prop
  | system (h : n.system = true)
  | dropped (hline : Notes.LineComment record) (hbad : Notes.Malformed record)
  | stray (hline : ¬ Notes.LineComment record)
      (hrow : w.idmap.findByGitlab bctx.workspaceUuid .note (projectKey env bctx (.num n.id)) ≠
        none)
  | same (hthread : Notes.hookThread record n = t.discussionId) (hopen : t.resolved = false)
      (hposition : ∀ row,
        w.idmap.findByGitlab bctx.workspaceUuid .review_thread (Reviews.keyOf t n) = some row →
          (w.mixinField row.hulyRef MR_REVIEW_THREAD_MIXIN "position").Alike
            (Notes.parsePosition (Notes.hookPosition record)))
      (hline : Notes.LineComment record)
  | other (hthread : Notes.hookThread record n ≠ t.discussionId)
      (hrow : w.idmap.findByGitlab bctx.workspaceUuid .review_thread
        (Reviews.noteIdmapKey (.str (Notes.hookThread record n)) (.num n.id)) ≠ none)
      (hline : Notes.LineComment record)

theorem not_newMessage_of_absent {w' : World}
    (h : ∀ ref, w.docs.get? ref = none → w'.docs.get? ref = none) : ¬ Reviews.NewMessage w w' := by
  rintro ⟨ref, doc, hdoc, -, hnone⟩
  rw [h ref hnone] at hdoc
  cases hdoc

/-- A hook agrees when it leaves what the messages of the thread show. -/
theorem hookAgrees_iff_kept (h : env.Healthy) (hload : env.loadBinding binding = .ok bctx)
    (ht : Reviews.Mirrored env bctx t w) (updatedAt : Nat) :
    HookAgrees env binding bctx w record t n body updatedAt ↔
      (∀ m ∈ t.notes, m.system = false → ∀ row,
        w.idmap.findByGitlab bctx.workspaceUuid .review_thread (Reviews.keyOf t m) = some row →
        ∀ k ∈ THREAD_FIELDS,
          (((processNoteHook env binding record).run w).2.mixinField row.hulyRef
            MR_REVIEW_THREAD_MIXIN k).Alike
              (w.mixinField row.hulyRef MR_REVIEW_THREAD_MIXIN k)) ∧
      ¬ Reviews.NewMessage w ((processNoteHook env binding record).run w).2 := by
  have hkept := Reviews.kept_applyRemote h hload ht n.id body updatedAt
  constructor
  · intro hagrees
    refine ⟨fun m hm huser row hrow k hk => ?_, hagrees.single⟩
    rw [← hkept.fields row.hulyRef k hk]
    exact hagrees.fields m hm huser row hrow k hk
  · rintro ⟨hfields, hsingle⟩
    refine ⟨fun m hm huser row hrow k hk => ?_, hsingle⟩
    rw [hkept.fields row.hulyRef k hk]
    exact hfields m hm huser row hrow k hk

theorem hookAgrees_of_still (h : env.Healthy) (hload : env.loadBinding binding = .ok bctx)
    (ht : Reviews.Mirrored env bctx t w) (updatedAt : Nat)
    (hstill : Still bctx w ((processNoteHook env binding record).run w).2) :
    HookAgrees env binding bctx w record t n body updatedAt :=
  (hookAgrees_iff_kept h hload ht updatedAt).mpr
    ⟨fun _ _ _ row _ k _ => .inl (hstill.mixinField row.hulyRef k),
      not_newMessage_of_absent fun _ hnone => hstill.absent hnone⟩

/-- A hook for a note of the system changes nothing that shows. -/
theorem hookAgrees_of_system (h : env.Healthy) (hload : env.loadBinding binding = .ok bctx)
    (ht : Reviews.Mirrored env bctx t w) (hhook : Notes.IsNoteHook record t n body)
    (hsystem : n.system = true) (updatedAt : Nat) :
    HookAgrees env binding bctx w record t n body updatedAt := by
  apply hookAgrees_of_still h hload ht
  obtain ⟨row, hrow⟩ := ht.parent
  by_cases hline : Notes.LineComment record
  · by_cases hbad : Notes.Malformed record
    · have hrun : ((Notes.applyRemote env binding record).run w).2 = w := by
        rw [Notes.applyRemote_hook hhook, if_pos hline, if_pos hbad]
        rfl
      rw [processNoteHook_of_still hrun rfl]
      exact Still.refl w
    · obtain ⟨w₁, ts, hstill, hrun⟩ := processNoteHook_line h hload hhook hline hbad hrow
      have hskip : (Reviews.applyThreadNote env bctx row.hulyRef
          ⟨.str (Notes.hookThread record n), .bool false, .undefined, .undefined⟩ (.num n.id)
          (Notes.envelopeNote record w.now)).run w₁ = (.ok (), w₁) :=
        Reviews.applyThreadNote_system (Notes.envelopeNote_shape hhook w.now) hsystem _ _ _ _
      rw [hrun, bind_of_ok hskip]
      exact Still.trans _ _ _ hstill (Stilling.setCursor env _ _ _ w₁)
  · have hrun : ((Notes.applyRemote env binding record).run w).2 = w := by
      rw [Notes.applyRemote_hook hhook, if_neg hline]
      unfold Notes.applyNote
      rw [(Notes.hookNote_shape hhook w.now).system, ofExcept_ok_bind, hsystem]
      rfl
    rw [processNoteHook_of_still hrun rfl]
    exact Still.refl w

/-- A note that is no line comment goes to the rows of notes. -/
theorem processNoteHook_plain (h : env.Healthy) (hload : env.loadBinding binding = .ok bctx)
    (hhook : Notes.IsNoteHook record t n body) (hline : ¬ Notes.LineComment record)
    (huser : n.system = false) {row : IdMapDoc}
    (hrow : w.idmap.findByGitlab bctx.workspaceUuid .merge_request
      (projectKey env bctx (.num t.mergeRequestIid)) = some row) :
    ∃ w₁, Still bctx w w₁ ∧
      ((processNoteHook env binding record).run w).2 =
        ((Notes.applyMapped env binding bctx row.hulyRef (.obj (Notes.hookNote record w.now))).run
          w₁).2 := by
  let asked : World := { w with
    lookups := w.lookups ++ [(.merge_request, projectKey env bctx (.num t.mergeRequestIid))] }
  have hkind : Notes.parentKind (.obj (Notes.hookNote record w.now)) = .merge_request := by
    simp [Notes.parentKind, Notes.hookNote, Notes.parseNote]
  have hrun : ((Notes.applyRemote env binding record).run w).2 =
      ((Notes.applyMapped env binding bctx row.hulyRef (.obj (Notes.hookNote record w.now))).run
        asked).2 := by
    rw [Notes.applyRemote_hook hhook, if_neg hline]
    unfold Notes.applyNote Sync.loadBinding findParent
    rw [(Notes.hookNote_shape hhook w.now).system, ofExcept_ok_bind, huser, hkind]
    show ((Effect.ofExcept (env.loadBinding binding) >>= _ : Sync Unit).run w).2 = _
    rw [hload, ofExcept_ok_bind, bind_of_ok (Sync.findByGitlab_run h _ _ _ w), hrow]
  refine ⟨asked, ⟨Edits.of_same rfl rfl, fun _ => rfl⟩, processNoteHook_of_still hrun ?_⟩
  exact (Notes.applyMapped_writes env binding bctx row.hulyRef _ asked).same .enqueued (by decide)

/-- What is left of the note manager after it looked the note up and resolved its author. -/
theorem Notes.applyMapped_eq (binding : BindingRef) (bctx : BindingContext) (h : env.Healthy)
    {note : JsValue} (hs : Notes.NoteShape note n body) (howned : StubsOwned w.idmap) (parentRef : Ref) :
    ∃ w₁ message author createdAt updatedAt, Still bctx w w₁ ∧
      (Notes.applyMapped env binding bctx parentRef note).run w =
        (match w.idmap.findByGitlab bctx.workspaceUuid .note (projectKey env bctx (.num n.id)) with
          | none => Notes.createFromRemote env binding bctx (projectKey env bctx (.num n.id))
              parentRef message author createdAt updatedAt
          | some row => Notes.updateFromRemote env binding row.hulyRef message author
              updatedAt).run w₁ := by
  obtain ⟨identity, hidentity, hmail⟩ := hs.author
  let key := projectKey env bctx (.num n.id)
  let asked : World := { w with lookups := w.lookups ++ [(.note, key)] }
  obtain ⟨idmap, lookups, -, hauthor⟩ :=
    resolveUser_run h bctx.workspaceUuid hidentity hmail (w := asked) howned
  have hasked : Still bctx w asked := ⟨Edits.of_same rfl rfl, fun _ => rfl⟩
  have hresolved : Still bctx asked { asked with idmap := idmap, lookups := lookups } := by
    have hresolve : Still bctx asked _ := Stilling.resolveUser env (note.get "author") asked
    rwa [hauthor] at hresolve
  refine ⟨_, JsValue.str (env.gfmMarkdownToMarkup body (issueRefUrl bctx) (imageUrl bctx)),
    .str (personOf env asked.idmap bctx.workspaceUuid identity), (note.get "createdAt").getTime,
    (note.get "updatedAt").getTime, Still.trans _ _ _ hasked hresolved, ?_⟩
  unfold Notes.applyMapped
  dsimp only
  rw [hs.id, hs.body]
  refine (bind_of_ok (Sync.findByGitlab_run h _ _ _ w)).trans ?_
  rw [JsValue.asStr_str, ofExcept_ok_bind]
  refine (bind_of_ok hauthor).trans ?_
  rfl

/-- The cursor is the last that the review manager writes. -/
theorem still_setCursor_after (bctx : BindingContext) (m : Sync Unit) (ts : Option Nat)
    (w : World) :
    Still bctx (m.run w).2 ((m >>= fun _ => Sync.setCursor env binding .reviews ts).run w).2 :=
  Effect.Within.after Still.refl (fun _ => Stilling.setCursor env _ _ _) w

/-- The key of a note of a thread names the thread. -/
theorem Reviews.noteIdmapKey_inj {a b : String} {i j : Int}
    (h : noteIdmapKey (.str a) (.num i) = noteIdmapKey (.str b) (.num j)) : a = b := by
  have htext : a ++ ":" ++ toString i = b ++ ":" ++ toString j := h
  have hid : i = j := by
    have hparse := congrArg parseIid htext
    rw [parseIid_append, parseIid_append] at hparse
    exact Option.some.inj hparse
  have hlist := congrArg String.toList htext
  simp only [hid, String.toList_append, List.append_cancel_right_eq] at hlist
  exact String.toList_inj.mp hlist

/-- A line comment filed under the thread itself: its message shows an unresolved thread and the
position of the hook. -/
theorem processNoteHook_same (h : env.Healthy) (hload : env.loadBinding binding = .ok bctx)
    (ht : Reviews.Mirrored env bctx t w) (hn : n ∈ t.notes)
    (hhook : Notes.IsNoteHook record t n body) (huser : n.system = false)
    (hline : Notes.LineComment record) (hgood : ¬ Notes.Malformed record)
    (hthread : Notes.hookThread record n = t.discussionId) :
    ∃ row, w.idmap.findByGitlab bctx.workspaceUuid .review_thread (Reviews.keyOf t n) = some row ∧
      (∀ ref, w.docs.get? ref = none →
        ((processNoteHook env binding record).run w).2.docs.get? ref = none) ∧
      ∀ ref, ∀ k ∈ THREAD_FIELDS,
        ((processNoteHook env binding record).run w).2.mixinField ref MR_REVIEW_THREAD_MIXIN k =
          if ref = row.hulyRef then
            Fields.field [("threadId", .str t.discussionId), ("resolved", .bool false),
              ("resolvedBy", .undefined), ("resolvedAt", .undefined),
              ("position", Notes.parsePosition (Notes.hookPosition record))] k
          else w.mixinField ref MR_REVIEW_THREAD_MIXIN k := by
  obtain ⟨parent, hparent⟩ := ht.parent
  obtain ⟨row, doc, hrow, hdoc, -⟩ := ht.notes n hn huser
  obtain ⟨w₁, ts, hstill, hrun⟩ := processNoteHook_line h hload hhook hline hgood hparent
  obtain ⟨doc₁, hdoc₁⟩ := hstill.present hdoc
  have hrow₁ : w₁.idmap.findByGitlab bctx.workspaceUuid .review_thread
      (Reviews.keyOf t n) = some row := by
    rw [hstill.edits.findByGitlab (by decide), hrow]
  rw [hthread] at hrun
  obtain ⟨w₂, happly, hputs⟩ := Reviews.applyThreadNote_mapped h
    (Notes.envelopeNote_shape hhook w.now) huser (hstill.edits.inOrder ht.inOrder).owned
    parent.hulyRef ⟨.str t.discussionId, .bool false, .undefined, .undefined⟩ (.num n.id) hrow₁
    hdoc₁
  have hafter : Still bctx w₂ ((Sync.setCursor env binding .reviews ts).run w₂).2 :=
    Stilling.setCursor env _ _ _ w₂
  have hall := (Reviews.puts_of_still hstill hputs).still hafter
  rw [hrun, bind_of_ok happly]
  refine ⟨row, hrow, hall.absent, fun ref k hk => ?_⟩
  obtain ⟨hmem, hfield⟩ := Reviews.field_hookAttributes t.discussionId w.now hhook hk
  rw [hall.fields ref k hk, hfield]
  by_cases href : ref = row.hulyRef
  · rw [if_pos ⟨href, hmem⟩, if_pos href]
  · rw [if_neg fun hcond => href hcond.1, if_neg href]

/-- A line comment filed under another thread is a new message unless it is mirrored there. -/
theorem newMessage_of_other (h : env.Healthy) (hload : env.loadBinding binding = .ok bctx)
    (ht : Reviews.Mirrored env bctx t w) (hhook : Notes.IsNoteHook record t n body)
    (huser : n.system = false) (hline : Notes.LineComment record)
    (hgood : ¬ Notes.Malformed record)
    (hrow : w.idmap.findByGitlab bctx.workspaceUuid .review_thread
      (Reviews.noteIdmapKey (.str (Notes.hookThread record n)) (.num n.id)) = none) :
    Reviews.NewMessage w ((processNoteHook env binding record).run w).2 := by
  obtain ⟨parent, hparent⟩ := ht.parent
  obtain ⟨w₁, ts, hstill, hrun⟩ := processNoteHook_line h hload hhook hline hgood hparent
  have hnew := Reviews.applyThreadNote_unmapped h (Notes.envelopeNote_shape hhook w.now) huser
    (hstill.edits.inOrder ht.inOrder).owned parent.hulyRef
    ⟨.str (Notes.hookThread record n), .bool false, .undefined, .undefined⟩ (.num n.id)
    ((hstill.edits.findByGitlab (by decide) _).trans hrow)
  rw [hrun]
  exact (hnew.still_left hstill).still_right (still_setCursor_after bctx _ ts w₁)

/-- A line comment that is mirrored under another thread leaves the messages of this one. -/
theorem hookAgrees_of_other (h : env.Healthy) (hload : env.loadBinding binding = .ok bctx)
    (ht : Reviews.Mirrored env bctx t w) (hhook : Notes.IsNoteHook record t n body)
    (huser : n.system = false) (hline : Notes.LineComment record)
    (hgood : ¬ Notes.Malformed record) (hthread : Notes.hookThread record n ≠ t.discussionId)
    {row : IdMapDoc} (hrow : w.idmap.findByGitlab bctx.workspaceUuid .review_thread
      (Reviews.noteIdmapKey (.str (Notes.hookThread record n)) (.num n.id)) = some row)
    (updatedAt : Nat) :
    HookAgrees env binding bctx w record t n body updatedAt := by
  obtain ⟨parent, hparent⟩ := ht.parent
  obtain ⟨w₁, ts, hstill, hrun⟩ := processNoteHook_line h hload hhook hline hgood hparent
  have helse := Reviews.applyThreadNote_elsewhere h (Notes.envelopeNote_shape hhook w.now) huser
    (hstill.edits.inOrder ht.inOrder).owned parent.hulyRef
    ⟨.str (Notes.hookThread record n), .bool false, .undefined, .undefined⟩ (.num n.id)
    ((hstill.edits.findByGitlab (by decide) _).trans hrow)
  have hall : Reviews.Elsewhere row.hulyRef w ((processNoteHook env binding record).run w).2 := by
    rw [hrun]
    exact Reviews.Elsewhere.trans _ _ _ _ (Reviews.elsewhere_of_still _ hstill)
      (Reviews.Elsewhere.trans _ _ _ _ helse
        (Reviews.elsewhere_of_still _ (still_setCursor_after bctx _ ts w₁)))
  refine (hookAgrees_iff_kept h hload ht updatedAt).mpr
    ⟨fun m _ _ row' hrow' k _ => ?_, not_newMessage_of_absent hall.absent⟩
  refine .inl (hall.fields _ ?_ k)
  intro href
  obtain ⟨hmem, hkey⟩ := IdMap.findByGitlab_eq_some_iff.mp hrow
  obtain ⟨hmem', hkey'⟩ := IdMap.findByGitlab_eq_some_iff.mp hrow'
  simp only [IdMapDoc.gitlabKey, Prod.mk.injEq] at hkey hkey'
  have heq : row' = row := by
    refine IdMap.eq_of_hulyKey hmem' hmem ?_
    simp only [IdMapDoc.hulyKey, Prod.mk.injEq]
    exact ⟨hkey'.1.trans hkey.1.symm,
      (ht.messages row' hmem' hkey'.2.1).trans (ht.messages row hmem hkey.2.1).symm, href⟩
  have hids : Reviews.noteIdmapKey (.str t.discussionId) (.num m.id) =
      Reviews.noteIdmapKey (.str (Notes.hookThread record n)) (.num n.id) := by
    rw [← hkey.2.2, ← heq]
    exact hkey'.2.2.symm
  exact hthread (Reviews.noteIdmapKey_inj hids).symm

/-- A note that is no line comment is a new message unless it is mirrored as a plain note. -/
theorem newMessage_of_stray (h : env.Healthy) (hload : env.loadBinding binding = .ok bctx)
    (ht : Reviews.Mirrored env bctx t w) (hhook : Notes.IsNoteHook record t n body)
    (huser : n.system = false) (hline : ¬ Notes.LineComment record)
    (hrow : w.idmap.findByGitlab bctx.workspaceUuid .note (projectKey env bctx (.num n.id)) =
      none) :
    Reviews.NewMessage w ((processNoteHook env binding record).run w).2 := by
  obtain ⟨parent, hparent⟩ := ht.parent
  obtain ⟨w₁, hstill, hrun⟩ := processNoteHook_plain h hload hhook hline huser hparent
  obtain ⟨w₂, message, author, createdAt, updatedAt, hstill', happly⟩ :=
    Notes.applyMapped_eq binding bctx h (Notes.hookNote_shape hhook w.now)
      (hstill.edits.inOrder ht.inOrder).owned parent.hulyRef
  have hnone : w₁.idmap.findByGitlab bctx.workspaceUuid .note (projectKey env bctx (.num n.id)) =
      none := (hstill.edits.findByGitlab (by decide) _).trans hrow
  rw [hrun, happly, hnone]
  have hnew : Reviews.NewMessage w₂ ((Notes.createFromRemote env binding bctx
      (projectKey env bctx (.num n.id)) parent.hulyRef message author createdAt updatedAt).run
        w₂).2 := by
    refine Reviews.newMessage_createDoc h _ _ fun ref => ?_
    have htrans : ∀ w₁ w₂ w₃ : World, Extended w₁.docs w₂.docs → Extended w₂.docs w₃.docs →
        Extended w₁.docs w₃.docs := fun _ _ _ => Extended.trans
    refine Effect.Within.bind htrans (Reviews.extended_upsertIdMap _) fun _ => ?_
    intro s
    have hcursor : Still bctx s ((Sync.setCursor env binding .notes updatedAt).run s).2 :=
      Stilling.setCursor env _ _ _ s
    exact hcursor.edits.docs
  exact (hnew.still_left hstill').still_left hstill

/-- The update of a plain note leaves the messages of threads. -/
theorem hookAgrees_of_stray (h : env.Healthy) (hload : env.loadBinding binding = .ok bctx)
    (ht : Reviews.Mirrored env bctx t w) (hhook : Notes.IsNoteHook record t n body)
    (huser : n.system = false) (hline : ¬ Notes.LineComment record) {row : IdMapDoc}
    (hrow : w.idmap.findByGitlab bctx.workspaceUuid .note (projectKey env bctx (.num n.id)) =
      some row) (updatedAt : Nat) :
    HookAgrees env binding bctx w record t n body updatedAt := by
  obtain ⟨parent, hparent⟩ := ht.parent
  obtain ⟨w₁, hstill, hrun⟩ := processNoteHook_plain h hload hhook hline huser hparent
  obtain ⟨w₂, message, author, createdAt, updatedAt', hstill', happly⟩ :=
    Notes.applyMapped_eq binding bctx h (Notes.hookNote_shape hhook w.now)
      (hstill.edits.inOrder ht.inOrder).owned parent.hulyRef
  have hsome : w₁.idmap.findByGitlab bctx.workspaceUuid .note (projectKey env bctx (.num n.id)) =
      some row := (hstill.edits.findByGitlab (by decide) _).trans hrow
  apply hookAgrees_of_still h hload ht
  rw [hrun, happly, hsome]
  exact Still.trans _ _ _ (Still.trans _ _ _ hstill hstill')
    (Stilling.updateFromRemote_note env _ _ _ _ _ w₂)

/-- A line comment whose position lacks a commit is dropped. -/
theorem hookAgrees_of_dropped (h : env.Healthy) (hload : env.loadBinding binding = .ok bctx)
    (ht : Reviews.Mirrored env bctx t w) (hhook : Notes.IsNoteHook record t n body)
    (hline : Notes.LineComment record) (hbad : Notes.Malformed record) (updatedAt : Nat) :
    HookAgrees env binding bctx w record t n body updatedAt := by
  apply hookAgrees_of_still h hload ht
  have hrun : ((Notes.applyRemote env binding record).run w).2 = w := by
    rw [Notes.applyRemote_hook hhook, if_pos hline, if_pos hbad]
    rfl
  rw [processNoteHook_of_still hrun rfl]
  exact Still.refl w

/-- The state of the thread is among what its record puts on a message. -/
theorem Reviews.field_attributesOf (env : Env) (t : SyncReviewThread) (n : SyncReviewNote) :
    ("threadId" ∈ (attributesOf env t n).map Prod.fst ∧
      (attributesOf env t n).field "threadId" = .str t.discussionId) ∧
    ("resolved" ∈ (attributesOf env t n).map Prod.fst ∧
      (attributesOf env t n).field "resolved" = .bool t.resolved) :=
  ⟨⟨List.mem_cons_self, rfl⟩, List.mem_cons_of_mem _ List.mem_cons_self, rfl⟩

/-- An unresolved thread has no resolver. -/
theorem Reviews.field_attributesOf_open (env : Env) {t : SyncReviewThread}
    (hopen : t.resolved = false) (n : SyncReviewNote) :
    ∀ k ∈ ["resolvedBy", "resolvedAt"], k ∈ (attributesOf env t n).map Prod.fst ∧
      (attributesOf env t n).field k = .undefined := by
  have hattributes : (stateOf env t).attributes = [("threadId", .str t.discussionId),
      ("resolved", .bool t.resolved), ("resolvedBy", .undefined), ("resolvedAt", .undefined)] := by
    unfold ThreadState.attributes stateOf
    rw [hopen]
    rfl
  unfold attributesOf mixinAttributes
  rw [hattributes]
  intro k hk
  simp only [List.mem_cons, List.not_mem_nil, or_false] at hk
  obtain rfl | rfl := hk
  · exact ⟨by simp, rfl⟩
  · exact ⟨by simp, rfl⟩

/-- A line comment on an unresolved thread whose message has the position of the hook. -/
theorem hookAgrees_of_same (h : env.Healthy) (hload : env.loadBinding binding = .ok bctx)
    (ht : Reviews.Mirrored env bctx t w) (hn : n ∈ t.notes)
    (hhook : Notes.IsNoteHook record t n body) (huser : n.system = false)
    (hline : Notes.LineComment record) (hgood : ¬ Notes.Malformed record)
    (hthread : Notes.hookThread record n = t.discussionId) (hopen : t.resolved = false)
    (hposition : ∀ row,
      w.idmap.findByGitlab bctx.workspaceUuid .review_thread (Reviews.keyOf t n) = some row →
        (w.mixinField row.hulyRef MR_REVIEW_THREAD_MIXIN "position").Alike
          (Notes.parsePosition (Notes.hookPosition record))) (updatedAt : Nat) :
    HookAgrees env binding bctx w record t n body updatedAt := by
  obtain ⟨row, hrow, habsent, hshown⟩ :=
    processNoteHook_same h hload ht hn hhook huser hline hgood hthread
  obtain ⟨row', doc, hrow', -, hshows⟩ := ht.notes n hn huser
  obtain rfl : row' = row := Option.some.inj (hrow'.symm.trans hrow)
  refine (hookAgrees_iff_kept h hload ht updatedAt).mpr
    ⟨fun m _ _ other _ k hk => ?_, not_newMessage_of_absent habsent⟩
  rw [hshown other.hulyRef k hk]
  by_cases href : other.hulyRef = row'.hulyRef
  · rw [if_pos href, href]
    obtain ⟨hid, hresolved⟩ := Reviews.field_attributesOf env t n
    have hclear := Reviews.field_attributesOf_open env hopen n
    simp only [THREAD_FIELDS, List.mem_cons, List.not_mem_nil, or_false] at hk
    obtain rfl | rfl | rfl | rfl | rfl := hk
    · rw [hshows _ (by decide) hid.1, hid.2]
      exact JsValue.Alike.refl _
    · rw [hshows _ (by decide) hresolved.1, hresolved.2, hopen]
      exact JsValue.Alike.refl _
    · obtain ⟨hmem, hfield⟩ := hclear "resolvedBy" (by decide)
      rw [hshows _ (by decide) hmem, hfield]
      exact JsValue.Alike.refl _
    · obtain ⟨hmem, hfield⟩ := hclear "resolvedAt" (by decide)
      rw [hshows _ (by decide) hmem, hfield]
      exact JsValue.Alike.refl _
    · exact (hposition row' hrow).symm
  · rw [if_neg href]
    exact JsValue.Alike.refl _

/-- What the message of a line comment showed before a hook that agrees. -/
theorem same_of_hookAgrees (h : env.Healthy) (hload : env.loadBinding binding = .ok bctx)
    (ht : Reviews.Mirrored env bctx t w) (hn : n ∈ t.notes)
    (hhook : Notes.IsNoteHook record t n body) (huser : n.system = false)
    (hline : Notes.LineComment record) (hgood : ¬ Notes.Malformed record)
    (hthread : Notes.hookThread record n = t.discussionId) {updatedAt : Nat}
    (hagrees : HookAgrees env binding bctx w record t n body updatedAt) :
    t.resolved = false ∧ ∀ row,
      w.idmap.findByGitlab bctx.workspaceUuid .review_thread (Reviews.keyOf t n) = some row →
        (w.mixinField row.hulyRef MR_REVIEW_THREAD_MIXIN "position").Alike
          (Notes.parsePosition (Notes.hookPosition record)) := by
  obtain ⟨row, hrow, -, hshown⟩ :=
    processNoteHook_same h hload ht hn hhook huser hline hgood hthread
  obtain ⟨row', doc, hrow', -, hshows⟩ := ht.notes n hn huser
  obtain rfl : row' = row := Option.some.inj (hrow'.symm.trans hrow)
  obtain ⟨hfields, -⟩ := (hookAgrees_iff_kept h hload ht updatedAt).mp hagrees
  have hleft : ∀ k ∈ THREAD_FIELDS, (Fields.field [("threadId", .str t.discussionId),
      ("resolved", .bool false), ("resolvedBy", .undefined), ("resolvedAt", .undefined),
      ("position", Notes.parsePosition (Notes.hookPosition record))] k).Alike
        (w.mixinField row'.hulyRef MR_REVIEW_THREAD_MIXIN k) := by
    intro k hk
    have hkept := hfields n hn huser row' hrow k hk
    rwa [hshown row'.hulyRef k hk, if_pos rfl] at hkept
  constructor
  · obtain ⟨-, hmem, hresolved⟩ := Reviews.field_attributesOf env t n
    have hopen := hleft "resolved" (by decide)
    rw [hshows _ (by decide) hmem, hresolved] at hopen
    exact hopen.bool_inj.symm
  · intro other hother
    obtain rfl : row' = other := Option.some.inj (hrow.symm.trans hother)
    exact (hleft "position" (by decide)).symm

/-- When the hook of a note and the record of its thread agree. -/
theorem hookAgrees_iff (h : env.Healthy) (hload : env.loadBinding binding = .ok bctx)
    (ht : Reviews.Mirrored env bctx t w) (hn : n ∈ t.notes)
    (hhook : Notes.IsNoteHook record t n body) (updatedAt : Nat) :
    HookAgrees env binding bctx w record t n body updatedAt ↔
      HookHarmless env bctx w record t n := by
  by_cases hsystem : n.system = true
  · exact iff_of_true (hookAgrees_of_system h hload ht hhook hsystem updatedAt) (.system hsystem)
  · have huser : n.system = false := Bool.eq_false_iff.mpr hsystem
    constructor
    · intro hagrees
      by_cases hline : Notes.LineComment record
      · by_cases hbad : Notes.Malformed record
        · exact .dropped hline hbad
        · by_cases hthread : Notes.hookThread record n = t.discussionId
          · obtain ⟨hopen, hposition⟩ :=
              same_of_hookAgrees h hload ht hn hhook huser hline hbad hthread hagrees
            exact .same hthread hopen hposition hline
          · refine .other hthread (fun hrow => ?_) hline
            exact hagrees.single (newMessage_of_other h hload ht hhook huser hline hbad hrow)
      · refine .stray hline fun hrow => ?_
        exact hagrees.single (newMessage_of_stray h hload ht hhook huser hline hrow)
    · rintro (hsystem' | ⟨hline, hbad⟩ | ⟨hline, hrow⟩ | ⟨hthread, hopen, hposition, hline⟩ |
        ⟨hthread, hrow, hline⟩)
      · exact absurd hsystem' hsystem
      · exact hookAgrees_of_dropped h hload ht hhook hline hbad updatedAt
      · obtain ⟨row, hrow⟩ := Option.ne_none_iff_exists'.mp hrow
        exact hookAgrees_of_stray h hload ht hhook huser hline hrow updatedAt
      · by_cases hbad : Notes.Malformed record
        · exact hookAgrees_of_dropped h hload ht hhook hline hbad updatedAt
        · exact hookAgrees_of_same h hload ht hn hhook huser hline hbad hthread hopen hposition
            updatedAt
      · obtain ⟨row, hrow⟩ := Option.ne_none_iff_exists'.mp hrow
        by_cases hbad : Notes.Malformed record
        · exact hookAgrees_of_dropped h hload ht hhook hline hbad updatedAt
        · exact hookAgrees_of_other h hload ht hhook huser hline hbad hthread hrow updatedAt

end Agreement

section Example

/-- Everybody has an account. -/
def accounts : Env :=
  { Env.quiet quietBinding with findPersonBySocialKey := fun _ => some "person" }

theorem accounts_healthy : accounts.Healthy := fun _ _ => rfl

/-- A merge request that is mirrored. -/
def mirroredMR : World :=
  { World.initial with
    idmap := ⟨[⟨"ws", .merge_request, "7:4", issueClass, "mr"⟩], by decide, by decide⟩ }

def lineNote : SyncReviewNote where
  id := 12
  body := "text"
  author := ⟨5, "user", "User", none, none, ""⟩
  createdAt := 1
  updatedAt := 2
  system := false
  resolvable := true
  resolved := false
  position := some (.text "file" none (some 3) "base" "head" "start")

/-- A thread of one line comment. -/
def lineThread (resolved : Bool) : SyncReviewThread where
  discussionId := "discussion"
  mergeRequestIid := 4
  projectId := 7
  resolved := resolved
  resolvedBy := none
  resolvedAt := none
  notes := [lineNote]
  updatedAt := 2

/-- What the backfill leaves. -/
def backfilled (resolved : Bool) : World :=
  ((Reviews.applyRemote accounts "b" (lineThread resolved).toFields).run mirroredMR).2

/-- The hook for a new text of the comment. -/
def lineHook : Fields :=
  [("object_attributes", .obj [("id", .num 12), ("noteable_type", .str "MergeRequest"),
      ("body", .str "new text"), ("system", .bool false), ("created_at", .date 1),
      ("updated_at", .date 3), ("discussion_id", .str "discussion"),
      ("position", .obj [("position_type", .str "text"), ("new_path", .str "file"),
        ("new_line", .num 3), ("base_sha", .str "base"), ("head_sha", .str "head"),
        ("start_sha", .str "start")])]),
    ("merge_request", .obj [("iid", .num 4)])]

theorem isNoteHook_lineHook (resolved : Bool) :
    Notes.IsNoteHook lineHook (lineThread resolved) lineNote "new text" where
  bare := by decide
  object := by decide
  id := by decide
  noteableType := by decide
  body := by decide
  system := by decide
  createdAt := .inr ⟨1, by decide⟩
  updatedAt := .inr ⟨3, by decide⟩
  iid := by cases resolved <;> decide

theorem inOrder_backfilled (resolved : Bool) :
    InOrder quietBinding.hulyProjectRef (backfilled resolved) := by
  have hgrows : Grows (Reviews.mirror accounts (lineThread resolved)) quietBinding mirroredMR
      (backfilled resolved) :=
    Reviews.growing accounts (show accounts.loadBinding "b" = .ok quietBinding from rfl)
      (lineThread resolved) mirroredMR
  apply hgrows.inOrder
  constructor
  · intro row hrow hclass
    obtain rfl := List.mem_singleton.mp hrow
    exact absurd hclass (by decide)
  · exact (inOrder_initial _).typed

theorem rows_backfilled (resolved : Bool) : (backfilled resolved).idmap.rows =
    [⟨"ws", .merge_request, "7:4", issueClass, "mr"⟩,
      ⟨"ws", .review_thread, "discussion:12", HULY_CLASS_CHAT_MESSAGE, "x"⟩] := by
  cases resolved <;> decide +kernel

theorem mirrored_backfilled (resolved : Bool) :
    Reviews.Mirrored accounts quietBinding (lineThread resolved) (backfilled resolved) where
  inOrder := inOrder_backfilled resolved
  parent := by
    refine ⟨⟨"ws", .merge_request, "7:4", issueClass, "mr"⟩, ?_⟩
    rw [IdMap.findByGitlab_eq_some_iff, rows_backfilled]
    exact ⟨List.mem_cons_self, by cases resolved <;> decide +kernel⟩
  messages row hrow hkind := by
    rw [rows_backfilled] at hrow
    simp only [List.mem_cons, List.not_mem_nil, or_false] at hrow
    obtain rfl | rfl := hrow
    · cases hkind
    · rfl
  notes n hn _ := by
    obtain rfl := List.mem_singleton.mp hn
    refine ⟨⟨"ws", .review_thread, "discussion:12", HULY_CLASS_CHAT_MESSAGE, "x"⟩, ?_⟩
    cases resolved
    · exact ⟨((backfilled false).docs.get? "x").get (by decide +kernel), by decide +kernel,
        (Option.some_get _).symm, by unfold Reviews.Shows; decide +kernel⟩
    · exact ⟨((backfilled true).docs.get? "x").get (by decide +kernel), by decide +kernel,
        (Option.some_get _).symm, by unfold Reviews.Shows; decide +kernel⟩

/-- On an unresolved thread the hook of the root note agrees. -/
theorem hookAgrees_lineHook :
    HookAgrees accounts "b" quietBinding (backfilled false) lineHook (lineThread false) lineNote
      "new text" 3 := by
  refine (hookAgrees_iff accounts_healthy rfl (mirrored_backfilled false) List.mem_cons_self
    (isNoteHook_lineHook false) 3).mpr (.same (by decide) rfl ?_ (by decide))
  intro row hrow
  have hfound : row = ⟨"ws", .review_thread, "discussion:12", HULY_CLASS_CHAT_MESSAGE, "x"⟩ := by
    have hknown : (backfilled false).idmap.findByGitlab quietBinding.workspaceUuid .review_thread
        (Reviews.keyOf (lineThread false) lineNote) =
          some ⟨"ws", .review_thread, "discussion:12", HULY_CLASS_CHAT_MESSAGE, "x"⟩ := by
      decide +kernel
    exact Option.some.inj (hrow.symm.trans hknown)
  have hshown : (backfilled false).mixinField "x" MR_REVIEW_THREAD_MIXIN "position" =
      (SyncReviewPosition.text "file" none (some 3) "base" "head" "start").toJs := by
    decide +kernel
  rw [hfound, hshown]
  exact JsValue.Alike.of_perm (by decide) (by decide)

/-- A hook unresolves a thread that the backfill found resolved. -/
theorem not_hookAgrees_of_resolved :
    Reviews.Mirrored accounts quietBinding (lineThread true) (backfilled true) ∧
      Notes.IsNoteHook lineHook (lineThread true) lineNote "new text" ∧
      ¬ HookAgrees accounts "b" quietBinding (backfilled true) lineHook (lineThread true) lineNote
        "new text" 3 := by
  refine ⟨mirrored_backfilled true, isNoteHook_lineHook true, fun hagrees => ?_⟩
  have hopen := hagrees.fields lineNote List.mem_cons_self rfl
    ⟨"ws", .review_thread, "discussion:12", HULY_CLASS_CHAT_MESSAGE, "x"⟩ (by decide +kernel)
    "resolved" (by decide)
  have hhook : ((processNoteHook accounts "b" lineHook).run (backfilled true)).2.mixinField "x"
      MR_REVIEW_THREAD_MIXIN "resolved" = .bool false := by decide +kernel
  have hrecord : ((Reviews.applyRemote accounts "b" ((lineThread true).reword 12 "new text"
      3).toFields).run (backfilled true)).2.mixinField "x" MR_REVIEW_THREAD_MIXIN "resolved" =
        .bool true := by decide +kernel
  have halike : (JsValue.bool false).Alike (.bool true) := by
    rw [← hhook, ← hrecord]
    exact hopen
  exact absurd halike.bool_inj (by decide)

end Example

end HulyGitlab
