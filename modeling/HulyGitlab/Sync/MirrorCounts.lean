import HulyGitlab.Sync.CrashResume

/-!
# How many documents a record adds

A handler creates at most one document for each object of its record, and none
for an object that has a row.
-/

namespace HulyGitlab

/-- The documents of a class. -/
def refsOf (objectClass : String) (w : World) : List Ref :=
  (w.docs.entries.filter fun entry => entry.2.objectClass = objectClass).map Prod.fst

theorem nodup_refsOf (objectClass : String) (w : World) : (refsOf objectClass w).Nodup :=
  (List.Sublist.map Prod.fst List.filter_sublist).nodup w.docs.nodup

theorem mem_refsOf {objectClass : String} {w : World} {ref : Ref} :
    ref ∈ refsOf objectClass w ↔ ∃ doc, w.docs.get? ref = some doc ∧
      doc.objectClass = objectClass := by
  constructor
  · intro h
    obtain ⟨⟨r, doc⟩, hmem, rfl⟩ := List.mem_map.mp h
    obtain ⟨hentry, hclass⟩ := List.mem_filter.mp hmem
    exact ⟨doc, OrderedMap.get?_of_mem_entries hentry, of_decide_eq_true hclass⟩
  · rintro ⟨doc, hdoc, hclass⟩
    exact List.mem_map.mpr ⟨(ref, doc), List.mem_filter.mpr
      ⟨OrderedMap.mem_entries_of_get? hdoc, decide_eq_true hclass⟩, rfl⟩

/-- At most `k` documents of the class come along. -/
def Adds (objectClass : String) (k : Nat) (w w' : World) : Prop :=
  (refsOf objectClass w').length ≤ (refsOf objectClass w).length + k

/-- Every run adds at most `k` documents of the class. -/
abbrev Adding (objectClass : String) (k : Nat) {A : Type} (c : Sync A) : Prop :=
  Effect.Within (Adds objectClass k) c

instance (m : Mirror) (bctx : BindingContext) (o : MirrorObject) (w : World) :
    Decidable (m.Lacks bctx o w) :=
  inferInstanceAs (Decidable (_ = none))

namespace Mirror

/-- How many objects of a list have no row. -/
def lacking (m : Mirror) (bctx : BindingContext) (w : World) (objects : List MirrorObject) : Nat :=
  objects.countP fun o => m.Lacks bctx o w

end Mirror

/-- A key that has a row keeps one. -/
def KeepsKeys (w w' : World) : Prop :=
  ∀ row ∈ w.idmap.rows, row.gitlabKind ≠ .user →
    ∃ row' ∈ w'.idmap.rows, row'.gitlabKey = row.gitlabKey

namespace KeepsKeys

theorem of_same {w w' : World} (h : w'.idmap = w.idmap) : KeepsKeys w w' :=
  fun row hrow _ => ⟨row, by rwa [h], rfl⟩

theorem refl (w : World) : KeepsKeys w w := of_same rfl

theorem trans (w₁ w₂ w₃ : World) (h : KeepsKeys w₁ w₂) (h' : KeepsKeys w₂ w₃) :
    KeepsKeys w₁ w₃ := by
  intro row hrow hkind
  obtain ⟨mid, hmid, hkey⟩ := h row hrow hkind
  have hmidKind : mid.gitlabKind ≠ .user := by
    rwa [show mid.gitlabKind = row.gitlabKind from congrArg (fun key => key.2.1) hkey]
  obtain ⟨last, hlast, hkey'⟩ := h' mid hmid hmidKind
  exact ⟨last, hlast, hkey'.trans hkey⟩

theorem of_grows {m : Mirror} {bctx : BindingContext} {w w' : World} (h : Grows m bctx w w') :
    KeepsKeys w w' :=
  fun row hrow hkind => ⟨row, h.rows row hrow hkind, rfl⟩

/-- An object with a row is found again. -/
theorem not_lacks {w w' : World} (h : KeepsKeys w w') {m : Mirror} {o : MirrorObject}
    {bctx bctx' : BindingContext} (hworkspace : bctx'.workspaceUuid = bctx.workspaceUuid)
    (hmapped : ¬ m.Lacks bctx o w) : ¬ m.Lacks bctx' o w' := by
  obtain ⟨row, hrow⟩ := Option.ne_none_iff_exists'.mp hmapped
  obtain ⟨hmem, hkey⟩ := IdMap.findByGitlab_eq_some_iff.mp hrow
  have hkind : row.gitlabKind ≠ .user := by
    rw [show row.gitlabKind = m.gitlabKind from congrArg (fun key => key.2.1) hkey]
    exact m.notUser
  obtain ⟨row', hmem', hkey'⟩ := h row hmem hkind
  apply Option.ne_none_iff_exists'.mpr
  exact ⟨row', IdMap.findByGitlab_eq_some_iff.mpr ⟨hmem', by rw [hkey', hkey, hworkspace]⟩⟩

theorem lacking_le {w w' : World} (h : KeepsKeys w w') {m : Mirror} {bctx bctx' : BindingContext}
    (hworkspace : bctx'.workspaceUuid = bctx.workspaceUuid) (objects : List MirrorObject) :
    m.lacking bctx' w' objects ≤ m.lacking bctx w objects := by
  apply List.countP_mono_left
  intro o _ hlacks
  by_contra hmapped
  exact h.not_lacks hworkspace (fun hw => hmapped (decide_eq_true hw)) (of_decide_eq_true hlacks)

end KeepsKeys

section Adding

variable (env : Env) {objectClass : String} {bctx : BindingContext} {w w' : World} {j k : Nat}
  {A B : Type}

theorem adds_of_subset {news : List Ref}
    (h : ∀ ref ∈ refsOf objectClass w', ref ∈ refsOf objectClass w ∨ ref ∈ news) :
    Adds objectClass news.length w w' := by
  have hsub : refsOf objectClass w' ⊆ refsOf objectClass w ++ news :=
    fun ref href => List.mem_append.mpr (h ref href)
  have hlen := (List.subperm_of_subset (nodup_refsOf objectClass w') hsub).length_le
  rwa [List.length_append] at hlen

theorem Adds.mono (h : Adds objectClass j w w') (hle : j ≤ k) : Adds objectClass k w w' := by
  unfold Adds at h ⊢
  omega

theorem Adds.trans {w'' : World} (h : Adds objectClass j w w') (h' : Adds objectClass k w' w'') :
    Adds objectClass (j + k) w w'' := by
  unfold Adds at h h' ⊢
  omega

/-- What is edited adds tags and milestones only. -/
theorem Edits.adds (h : Edits bctx w w')
    (hordinary : objectClass ≠ tagElementClass ∧ objectClass ≠ milestoneClass) :
    Adds objectClass k w w' := by
  have hnone : Adds objectClass ([] : List Ref).length w w' := by
    apply adds_of_subset
    intro ref href
    obtain ⟨doc, hdoc, hclass⟩ := mem_refsOf.mp href
    cases hold : w.docs.get? ref with
    | none =>
      have hnot := h.added ref doc hdoc hold
      rw [Ordinary, hclass] at hnot
      exact absurd hordinary hnot
    | some old =>
      obtain ⟨doc', hdoc', hext⟩ := h.docs ref old hold
      rw [hdoc] at hdoc'
      cases hdoc'
      exact .inl (mem_refsOf.mpr ⟨old, hold, hext.objectClass.symm.trans hclass⟩)
  exact hnone.mono (Nat.zero_le k)

theorem Adding.of_editing (bctx : BindingContext) {c : Sync A} (h : Editing bctx c)
    (hordinary : objectClass ≠ tagElementClass ∧ objectClass ≠ milestoneClass) :
    Adding objectClass k c :=
  fun w => (h w).adds hordinary

theorem Adding.bind {c : Sync A} {f : A → Sync B} (hc : Adding objectClass j c)
    (hf : ∀ a, Adding objectClass k (f a)) : Adding objectClass (j + k) (c >>= f) := by
  intro w
  have hadds := hc w
  rw [Effect.bind_run]
  cases hrun : c.run w with
  | mk r w₁ =>
    rw [hrun] at hadds
    cases r with
    | error e => exact hadds.mono (Nat.le_add_right j k)
    | ok a => exact hadds.trans (hf a w₁)

/-- What is resolved before a creation adds nothing to it. -/
theorem Adding.after (bctx : BindingContext) {c : Sync A} {f : A → Sync B} (hc : Editing bctx c)
    (hordinary : objectClass ≠ tagElementClass ∧ objectClass ≠ milestoneClass)
    (hf : ∀ a, Adding objectClass k (f a)) : Adding objectClass k (c >>= f) := by
  have hbind : Adding objectClass (0 + k) (c >>= f) :=
    Adding.bind (Adding.of_editing bctx hc hordinary) hf
  rwa [Nat.zero_add] at hbind

/-- What follows a creation adds nothing to it. -/
theorem Adding.before (bctx : BindingContext) {c : Sync A} {f : A → Sync B}
    (hordinary : objectClass ≠ tagElementClass ∧ objectClass ≠ milestoneClass)
    (hc : Adding objectClass k c) (hf : ∀ a, Editing bctx (f a)) :
    Adding objectClass k (c >>= f) :=
  Adding.bind (k := 0) hc fun a => Adding.of_editing bctx (hf a) hordinary

theorem Adding.createDoc (space : Ref) (attributes : Fields) :
    Adding objectClass 1 (Sync.createDoc env objectClass space attributes) := by
  intro w
  obtain ⟨e, hrun⟩ | hrun := Sync.createDoc_cases env objectClass space attributes w
  · rw [hrun]
    exact Nat.le_succ _
  · rw [hrun]
    show Adds objectClass [env.generateId w.docs.keys].length w _
    apply adds_of_subset
    intro ref href
    obtain ⟨doc, hdoc, hclass⟩ := mem_refsOf.mp href
    by_cases hnew : ref = env.generateId w.docs.keys
    · exact .inr (List.mem_singleton.mpr hnew)
    · rw [OrderedMap.get?_set_of_ne _ hnew] at hdoc
      exact .inl (mem_refsOf.mpr ⟨doc, hdoc, hclass⟩)

theorem Adding.upsertIdMap (row : IdMapDoc) : Adding objectClass 0 (Sync.upsertIdMap env row) := by
  intro w
  obtain ⟨e, hrun⟩ | ⟨idmap, -, hrun⟩ := Sync.upsertIdMap_cases env row w
  · rw [hrun]
    exact Nat.le_refl _
  · rw [hrun]
    exact Nat.le_refl _

/-- The create branch of the managers that write the row next. -/
theorem Adding.create (bctx : BindingContext) (space : Ref) (attributes : Fields)
    (row : Ref → IdMapDoc) {f : Ref → Unit → Sync A}
    (hordinary : objectClass ≠ tagElementClass ∧ objectClass ≠ milestoneClass)
    (hf : ∀ ref u, Editing bctx (f ref u)) :
    Adding objectClass 1 (do
      let ref ← Sync.createDoc env objectClass space attributes
      Sync.upsertIdMap env (row ref) >>= f ref) := by
  apply Adding.bind (j := 1) (k := 0) (Adding.createDoc env space attributes)
  intro ref
  exact Adding.before bctx hordinary (Adding.upsertIdMap env _) (hf ref)

end Adding

section Managers

variable (env : Env) {binding : BindingRef} {bctx : BindingContext}

theorem issueClass_ordinary : issueClass ≠ tagElementClass ∧ issueClass ≠ milestoneClass := by
  decide

theorem chatMessageClass_ordinary :
    chatMessageClass ≠ tagElementClass ∧ chatMessageClass ≠ milestoneClass := by
  decide

theorem Adding.load {objectClass : String} {k : Nat} {A : Type} {f : BindingContext → Sync A}
    (hload : env.loadBinding binding = .ok bctx) (hf : Adding objectClass k (f bctx)) :
    Adding objectClass k (Sync.loadBinding env binding >>= f) := by
  unfold Sync.loadBinding
  rw [hload]
  exact hf

theorem Issues.adding (hload : env.loadBinding binding = .ok bctx) (i : SyncIssue) :
    Adding issueClass 1 (applyRemote env binding i.toFields) := by
  unfold applyRemote
  apply Adding.load env hload
  apply Adding.after bctx (Editing.findByGitlab env _ _ _) issueClass_ordinary
  intro existing
  apply Adding.after bctx (Editing.ofExcept _) issueClass_ordinary
  intro _
  apply Adding.after bctx (Editing.resolveAssignee env _) issueClass_ordinary
  intro _
  apply Adding.after bctx (Editing.ofExcept _) issueClass_ordinary
  intro _
  apply Adding.after bctx (Editing.resolveLocal env _ _) issueClass_ordinary
  intro _
  apply Adding.after bctx (Editing.issueMilestone env _) issueClass_ordinary
  intro _
  apply Adding.after bctx (Editing.mapRemoteState env _ _ _) issueClass_ordinary
  intro status
  cases status with
  | none => exact Adding.of_editing bctx (Editing.pure _) issueClass_ordinary
  | some status =>
    cases existing with
    | none =>
      exact Adding.create env bctx _ _ _ issueClass_ordinary fun _ _ => Editing.setCursor env _ _ _
    | some row =>
      exact Adding.of_editing bctx (Editing.updateFromRemote_issue env _ _ _ _) issueClass_ordinary

theorem MergeRequests.adding (hload : env.loadBinding binding = .ok bctx) (r : SyncMergeRequest) :
    Adding issueClass 1 (applyRemote env binding r.toFields) := by
  unfold applyRemote
  apply Adding.load env hload
  apply Adding.after bctx (Editing.findByGitlab env _ _ _) issueClass_ordinary
  intro existing
  apply Adding.after bctx (Editing.resolveRecord env _) issueClass_ordinary
  intro resolved
  cases existing with
  | some row =>
    exact Adding.of_editing bctx (Editing.updateFromRemote_mergeRequest env _ _ _ _ _)
      issueClass_ordinary
  | none =>
    dsimp only
    unfold createFromRemote
    apply Effect.Within.ite
    · intro _
      exact Adding.of_editing bctx (Editing.pure _) issueClass_ordinary
    · intro _
      apply Adding.bind (j := 1) (k := 0) (Adding.createDoc env _ _)
      intro ref
      apply Adding.after bctx (Editing.putMixin env _ _ _) issueClass_ordinary
      intro _
      apply Adding.after bctx (Editing.ofExcept _) issueClass_ordinary
      intro review
      apply Adding.after bctx (Editing.putReviewMixin env _ _) issueClass_ordinary
      intro _
      exact Adding.before bctx issueClass_ordinary (Adding.upsertIdMap env _)
        fun _ => Editing.setCursor env _ _ _

theorem Notes.adding_applyNote (hload : env.loadBinding binding = .ok bctx) (rawRecord : Fields)
    (noteableIid note : JsValue) :
    Adding chatMessageClass 1 (applyNote env binding rawRecord noteableIid note) := by
  unfold applyNote
  apply Adding.after bctx (Editing.ofExcept _) chatMessageClass_ordinary
  intro system
  apply Effect.Within.ite
  · intro _
    exact Adding.of_editing bctx (Editing.pure _) chatMessageClass_ordinary
  · intro _
    apply Adding.load env hload
    apply Adding.after bctx (Editing.findByGitlab env _ _ _) chatMessageClass_ordinary
    intro parent
    cases parent with
    | none =>
      dsimp only
      cases markAndRetry rawRecord NOTE_RETRY_FLAG with
      | none => exact Adding.of_editing bctx (Editing.pure _) chatMessageClass_ordinary
      | some marked =>
        exact Adding.of_editing bctx (Editing.enqueueRecord _) chatMessageClass_ordinary
    | some row =>
      unfold applyMapped
      apply Adding.after bctx (Editing.findByGitlab env _ _ _) chatMessageClass_ordinary
      intro existing
      apply Adding.after bctx (Editing.ofExcept _) chatMessageClass_ordinary
      intro _
      apply Adding.after bctx (Editing.resolveUser env _) chatMessageClass_ordinary
      intro _
      cases existing with
      | none =>
        exact Adding.create env bctx _ _ _ chatMessageClass_ordinary
          fun _ _ => Editing.setCursor env _ _ _
      | some row =>
        exact Adding.of_editing bctx (Editing.updateFromRemote_note env _ _ _ _ _)
          chatMessageClass_ordinary

theorem Notes.adding (hload : env.loadBinding binding = .ok bctx) (rawRecord : Fields) :
    Adding chatMessageClass 1 (applyRemote env binding rawRecord) := by
  unfold applyRemote
  apply Effect.Within.ite
  · intro _
    exact adding_applyNote env hload _ _ _
  · intro _
    apply Adding.after bctx (Editing.gets _) chatMessageClass_ordinary
    intro now
    cases parseWebhookPayload rawRecord now with
    | none => exact Adding.of_editing bctx (Editing.pure _) chatMessageClass_ordinary
    | some parsed =>
      cases parsed with
      | malformedPosition iid note =>
        exact Adding.of_editing bctx (Editing.pure _) chatMessageClass_ordinary
      | note iid note => exact adding_applyNote env hload _ _ _
      | review iid note position discussionId =>
        apply Adding.load env hload
        apply Adding.after bctx (Editing.findByGitlab env _ _ _) chatMessageClass_ordinary
        intro parentMapping
        cases parentMapping with
        | none =>
          exact Adding.of_editing bctx (Effect.Within.ite (fun _ => Editing.pure _)
            fun _ => Editing.enqueueRecord _) chatMessageClass_ordinary
        | some row => exact Adding.of_editing bctx (Editing.enqueueRecord _) chatMessageClass_ordinary

theorem Epics.adding (hload : env.loadBinding binding = .ok bctx) (e : SyncEpic) :
    Adding issueClass 1 (applyRemote env binding e.toFields) := by
  unfold applyRemote
  apply Adding.load env hload
  apply Effect.Within.ite
  · intro _
    exact Adding.of_editing bctx (Editing.pure _) issueClass_ordinary
  · intro _
    apply Adding.after bctx (Editing.findByGitlab env _ _ _) issueClass_ordinary
    intro existing
    apply Adding.after bctx (Editing.ofExcept _) issueClass_ordinary
    intro _
    dsimp only
    cases pickBacklogStatus bctx.statuses with
    | none => exact Adding.of_editing bctx (Editing.pure _) issueClass_ordinary
    | some status =>
      apply Adding.after bctx (Editing.ofExcept _) issueClass_ordinary
      intro _
      cases existing with
      | none =>
        apply Adding.before bctx issueClass_ordinary ?_ fun _ => Editing.linkChildren env _ _
        exact Adding.create env bctx _ _ _ issueClass_ordinary fun _ _ =>
          Editing.bind (Editing.ofExcept _) fun _ => Editing.putMixin env _ _ _
      | some row =>
        apply Adding.after bctx (Editing.updateFromRemote_epic env _ _ _ _) issueClass_ordinary
        intro mirrored
        exact Adding.of_editing bctx (Effect.Within.ite (fun _ => Editing.linkChildren env _ _)
          fun _ => Editing.pure _) issueClass_ordinary

theorem Reviews.adding_applyThreadNote (parentRef : Ref) (thread : ThreadState)
    (rootNoteId note : JsValue) :
    Adding chatMessageClass 1 (applyThreadNote env bctx parentRef thread rootNoteId note) := by
  unfold applyThreadNote
  apply Adding.after bctx (Editing.ofExcept _) chatMessageClass_ordinary
  intro system
  apply Effect.Within.ite
  · intro _
    exact Adding.of_editing bctx (Editing.pure _) chatMessageClass_ordinary
  · intro _
    apply Adding.after bctx (Editing.findByGitlab env _ _ _) chatMessageClass_ordinary
    intro existing
    apply Adding.after bctx (Editing.ofExcept _) chatMessageClass_ordinary
    intro _
    apply Adding.after bctx (Editing.resolveUser env _) chatMessageClass_ordinary
    intro _
    apply Adding.after bctx (Editing.ofExcept _) chatMessageClass_ordinary
    intro _
    apply Adding.after bctx (Editing.ofExcept _) chatMessageClass_ordinary
    intro _
    apply Adding.before bctx chatMessageClass_ordinary ?_ fun _ => Editing.putMixin env _ _ _
    cases existing with
    | none =>
      exact Adding.create env bctx _ _ _ chatMessageClass_ordinary fun _ _ => Editing.pure _
    | some row =>
      exact Adding.of_editing bctx (Editing.bind (Editing.updateMessage_thread env _ _ _ _)
        fun _ => Editing.pure _) chatMessageClass_ordinary

end Managers

section Records

variable {env : Env} {binding : BindingRef} {bctx : BindingContext}

/-- The objects of notes of a thread. -/
def Reviews.noteObjects (env : Env) (t : SyncReviewThread) (notes : List SyncReviewNote) :
    List MirrorObject :=
  (notes.filter fun n => !n.system).map (noteObject env t)

/-- Every run adds at most as many documents as there are objects without a row. -/
def Sparing (m : Mirror) (bctx : BindingContext) (objects : List MirrorObject) {A : Type}
    (c : Sync A) : Prop :=
  ∀ w, Adds m.objectClass (m.lacking bctx w objects) w (c.run w).2

theorem Sparing.of_editing {m : Mirror} {objects : List MirrorObject} {A : Type} {c : Sync A}
    (hc : Editing bctx c) : Sparing m bctx objects c :=
  fun w => (hc w).adds m.ordinary

theorem Sparing.after {m : Mirror} {objects : List MirrorObject} {A B : Type} {c : Sync A}
    {f : A → Sync B} (hc : Editing bctx c) (hf : ∀ a, Sparing m bctx objects (f a)) :
    Sparing m bctx objects (c >>= f) := by
  intro w
  have hedits := hc w
  rw [Effect.bind_run]
  cases hrun : c.run w with
  | mk r w₁ =>
    rw [hrun] at hedits
    cases r with
    | error e => exact hedits.adds m.ordinary
    | ok a =>
      have hbefore : Adds m.objectClass 0 w w₁ := hedits.adds m.ordinary
      have hboth := hbefore.trans ((hf a w₁).mono ((KeepsKeys.of_grows (m := m) hedits.grows).lacking_le rfl objects))
      rwa [Nat.zero_add] at hboth

theorem Sparing.before {m : Mirror} {objects : List MirrorObject} {A B : Type} {c : Sync A}
    {f : A → Sync B} (hc : Sparing m bctx objects c) (hf : ∀ a, Editing bctx (f a)) :
    Sparing m bctx objects (c >>= f) := by
  intro w
  have hadds := hc w
  rw [Effect.bind_run]
  cases hrun : c.run w with
  | mk r w₁ =>
    rw [hrun] at hadds
    cases r with
    | error e => exact hadds
    | ok a => exact hadds.trans (k := 0) ((hf a w₁).adds m.ordinary)

/-- A handler of one object, which it edits when there is a row. -/
theorem Mirroring.sparing {m : Mirror} {o : MirrorObject} {A : Type} {c : Sync A}
    (hc : Mirroring m bctx o c) (hadding : Adding m.objectClass 1 c) : Sparing m bctx [o] c := by
  intro w
  by_cases hlacks : m.Lacks bctx o w
  · have hone : m.lacking bctx w [o] = 1 := by simp [Mirror.lacking, hlacks]
    rw [hone]
    exact hadding w
  · exact ((hc w).2 hlacks).adds m.ordinary

theorem Reviews.sparing_applyThreadNote (t : SyncReviewThread) {n : SyncReviewNote}
    (hn : n ∈ t.notes) (parentRef : Ref) (thread : ThreadState) (rootNoteId : JsValue)
    (hthread : thread.threadId = .str t.discussionId) :
    Sparing (mirror env t) bctx (noteObjects env t [n])
      (applyThreadNote env bctx parentRef thread rootNoteId (.obj n.toFields)) := by
  by_cases hsystem : n.system = true
  · unfold applyThreadNote
    rw [JsValue.prop_obj, SyncReviewNote.field_system]
    show Sparing _ bctx _ (if n.system = true then _ else _)
    rw [if_pos hsystem]
    exact Sparing.of_editing (Editing.pure _)
  · have hobjects : noteObjects env t [n] = [noteObject env t n] := by
      simp [noteObjects, hsystem]
    rw [hobjects]
    exact Mirroring.sparing (mirroring_applyThreadNote env t hn _ _ _ hthread)
      (adding_applyThreadNote env _ _ _ _)

/-- By induction on the notes: a row that a round leaves lets the later rounds add no more. -/
theorem Reviews.sparing_forEach (t : SyncReviewThread) {notes : List SyncReviewNote}
    (hnotes : ∀ n ∈ notes, n ∈ t.notes) (parentRef : Ref) (thread : ThreadState)
    (rootNoteId : JsValue) (hthread : thread.threadId = .str t.discussionId) :
    Sparing (mirror env t) bctx (noteObjects env t notes)
      (Effect.forEach (applyThreadNote env bctx parentRef thread rootNoteId)
        (notes.map fun n => .obj n.toFields)) := by
  induction notes with
  | nil => exact Sparing.of_editing (Editing.pure _)
  | cons n rest ih =>
    intro w
    have hn := hnotes n List.mem_cons_self
    have hsparing : Sparing (mirror env t) bctx (noteObjects env t [n])
        (applyThreadNote env bctx parentRef thread rootNoteId (.obj n.toFields)) :=
      sparing_applyThreadNote t hn parentRef thread rootNoteId hthread
    have hmirroring : Mirroring (mirror env t) bctx (noteObject env t n)
        (applyThreadNote env bctx parentRef thread rootNoteId (.obj n.toFields)) :=
      mirroring_applyThreadNote env t hn parentRef thread rootNoteId hthread
    have hround := hsparing w
    have hgrows := (hmirroring w).1
    have hsplit : (mirror env t).lacking bctx w (noteObjects env t (n :: rest)) =
        (mirror env t).lacking bctx w (noteObjects env t [n]) +
          (mirror env t).lacking bctx w (noteObjects env t rest) := by
      rw [Mirror.lacking, Mirror.lacking, Mirror.lacking, ← List.countP_append, noteObjects,
        noteObjects, noteObjects, ← List.map_append, ← List.filter_append, List.singleton_append]
    rw [hsplit, List.map_cons, Effect.forEach_cons, Effect.bind_run]
    cases hrun : (applyThreadNote env bctx parentRef thread rootNoteId (.obj n.toFields)).run w with
    | mk r w₁ =>
      rw [hrun] at hround hgrows
      cases r with
      | error e => exact hround.mono (Nat.le_add_right _ _)
      | ok _ =>
        have htail := ih (fun b hb => hnotes b (List.mem_cons_of_mem n hb)) w₁
        exact hround.trans (htail.mono ((KeepsKeys.of_grows hgrows).lacking_le rfl _))

theorem Reviews.sparing (hload : env.loadBinding binding = .ok bctx) (t : SyncReviewThread) :
    Sparing (mirror env t) bctx (mirror env t).objects (applyRemote env binding t.toFields) := by
  unfold applyRemote Sync.loadBinding
  rw [hload, Effect.ofExcept_ok_bind]
  apply Sparing.after (Editing.findByGitlab env _ _ _)
  intro parent
  cases parent with
  | none =>
    apply Sparing.of_editing
    unfold deferThread
    cases markAndRetry t.toFields REVIEW_RETRY_FLAG with
    | none => exact Editing.pure _
    | some marked => exact Editing.bind (Editing.ofExcept _) fun _ => Editing.enqueueRecord _
  | some row =>
    unfold applyMapped
    apply Sparing.after (Effect.Within.ite (fun _ => Editing.pure _)
      fun _ => Editing.resolvePerson env _)
    intro resolvedBy
    apply Sparing.after (Editing.ofExcept _)
    intro resolvedAt
    rw [SyncReviewThread.field_notes, JsValue.elements_arr, SyncReviewThread.field_discussionId,
      Effect.ofExcept_ok_bind]
    apply Sparing.before ?_ fun _ => Editing.setCursor env _ _ _
    exact sparing_forEach t (fun _ hn => hn) _ _ _ rfl

/-- No handler creates a document for an object that has a row. -/
theorem RemoteRecord.sparing (hload : env.loadBinding binding = .ok bctx) (r : RemoteRecord) :
    Sparing (r.mirror env bctx) bctx (r.mirror env bctx).objects (r.applyRemote env binding) := by
  cases r with
  | issue i => exact (Issues.mirroring env hload i).sparing (Issues.adding env hload i)
  | mergeRequest m =>
    exact (MergeRequests.mirroring env hload m).sparing (MergeRequests.adding env hload m)
  | note rawRecord =>
    exact (Notes.mirroring env hload rawRecord).sparing (Notes.adding env hload rawRecord)
  | thread t => exact Reviews.sparing hload t
  | epic e => exact (Epics.mirroring env hload e).sparing (Epics.adding env hload e)

end Records

end HulyGitlab
