import HulyGitlab.Sync.MixinSplit
import HulyGitlab.Sync.Mirroring
import HulyGitlab.Sync.ReviewerMigration

/-!
# Reviewers the label migration loses

The labels of a document are taken off before its reviewers are written, and
the reviewers go to the legacy mixin, which is not read once there is a split
one. A label whose user has no account is taken off as well.
-/

namespace HulyGitlab

namespace ReviewerMigration

open JsValue (listOf)
open MixinMigration (Visits mirrorsOf mapMirrors)

/-- The attribute is an array, or there is none. -/
def Listed (v : JsValue) : Prop := v = .undefined ∨ v = .null ∨ ∃ items, v = .arr items

theorem Listed.items {v : JsValue} (h : Listed v) :
    (v.orElse (.arr [])).items = .ok (listOf v) := by
  obtain rfl | rfl | ⟨items, rfl⟩ := h <;> rfl

theorem Listed.elements {v : JsValue} (h : Listed v) :
    (v.orElse (.arr [])).elements = .ok (listOf v) := by
  obtain rfl | rfl | ⟨items, rfl⟩ := h <;> rfl

def labelsOf (doc : HulyDoc) : List JsValue := listOf (doc.attrs.field "labels")

/-- The reviewers a reader sees. -/
def visible (doc : HulyDoc) : List JsValue :=
  listOf (Fields.field (readMRMixinAttributes doc) "reviewers")

/-- What `findAll` answers for tags. -/
def tagsOf (docs : OrderedMap Ref HulyDoc) : List (Ref × HulyDoc) :=
  docs.entries.filter fun entry => entry.2.objectClass = tagElementClass

/-- The user a tag stands for. -/
def reviewerOf (tag : Ref × HulyDoc) : Option (Ref × String) :=
  match tag.2.attrs.field "title" with
  | .str title => (usernameOf title).map fun username => (tag.1, username)
  | _ => none

/-- The reviewer labels on a document, with their users. -/
def reviewersOn (tags : List (Ref × HulyDoc)) (doc : HulyDoc) : List (Ref × String) :=
  (tags.filter fun tag => JsValue.str tag.1 ∈ labelsOf doc).filterMap reviewerOf

/-- The account of a user that is known by name only. -/
def accountOf (env : Env) (username : String) : Option Ref :=
  UserIdentity.accountOf env ⟨username, .undefined⟩

/-- The document without its reviewer labels. -/
def stripped (tags : List (Ref × HulyDoc)) (doc : HulyDoc) : HulyDoc :=
  { doc with
    attrs := doc.attrs.assign (withOriginatedMarker [("labels", .arr
      ((labelsOf doc).filter fun label =>
        label ∉ (reviewersOn tags doc).map fun tag => JsValue.str tag.1))]) }

/-- The reviewers the migration writes. -/
def merged (env : Env) (tags : List (Ref × HulyDoc)) (doc : HulyDoc) : List JsValue :=
  (visible doc ++ ((reviewersOn tags doc).filterMap fun tag => accountOf env tag.2).map
    JsValue.str).eraseDups

/-- The document when its labels are migrated. -/
def migrated (env : Env) (tags : List (Ref × HulyDoc)) (doc : HulyDoc) : HulyDoc :=
  if reviewersOn tags doc = [] then doc
  else (stripped tags doc).withMixin MR_MIXIN
    (withOriginatedMarker [("reviewers", .arr (merged env tags doc))])

/-- There is a core or a review mixin, and the legacy one is not read. -/
def IsSplit (doc : HulyDoc) : Prop :=
  doc.mixins.get? MR_CORE_MIXIN ≠ none ∨ doc.mixins.get? MR_REVIEW_MIXIN_DOC ≠ none

/-- The attributes the migration reads have their types. -/
structure Typed (docs : OrderedMap Ref HulyDoc) : Prop where
  titles : ∀ tag ∈ tagsOf docs, ∃ title, tag.2.attrs.field "title" = .str title
  labels : ∀ ref doc, docs.get? ref = some doc → doc.objectClass = issueClass →
    Listed (doc.attrs.field "labels")
  reviewers : ∀ ref doc, docs.get? ref = some doc → doc.objectClass = issueClass →
    Listed (Fields.field (readMRMixinAttributes doc) "reviewers")

section Stages

variable (env : Env) (tags : List (Ref × HulyDoc)) (doc : HulyDoc)

theorem labelsOf_stripped :
    labelsOf (stripped tags doc) = (labelsOf doc).filter fun label =>
      label ∉ (reviewersOn tags doc).map fun tag => JsValue.str tag.1 := by
  simp [labelsOf, stripped, withOriginatedMarker, Fields.set, Fields.assign_cons, listOf]

theorem mem_reviewersOn {tag : Ref × String} (h : tag ∈ reviewersOn tags doc) :
    JsValue.str tag.1 ∈ labelsOf doc := by
  obtain ⟨entry, hentry, htag⟩ := List.mem_filterMap.mp h
  have hlabel := of_decide_eq_true (List.mem_filter.mp hentry).2
  unfold reviewerOf at htag
  cases htitle : entry.2.attrs.field "title" with
  | str title =>
    rw [htitle] at htag
    obtain ⟨username, -, rfl⟩ := Option.map_eq_some_iff.mp htag
    exact hlabel
  | _ =>
    rw [htitle] at htag
    cases htag

/-- A label that is on the document before is no reviewer label of the stripped one. -/
theorem reviewersOn_stripped : reviewersOn tags (stripped tags doc) = [] := by
  rw [List.eq_nil_iff_forall_not_mem]
  intro tag htag
  have hlabel := mem_reviewersOn tags _ htag
  rw [labelsOf_stripped, List.mem_filter] at hlabel
  have hkept := of_decide_eq_true hlabel.2
  refine hkept (List.mem_map.mpr ⟨tag, ?_, rfl⟩)
  obtain ⟨entry, hentry, hreviewer⟩ := List.mem_filterMap.mp htag
  obtain ⟨hmem, hon⟩ := List.mem_filter.mp hentry
  refine List.mem_filterMap.mpr ⟨entry, List.mem_filter.mpr ⟨hmem, ?_⟩, hreviewer⟩
  have hstill := of_decide_eq_true hon
  rw [labelsOf_stripped] at hstill
  exact decide_eq_true (List.mem_filter.mp hstill).1

theorem labelsOf_withMixin (mixin : String) (attributes : Fields) :
    labelsOf (doc.withMixin mixin attributes) = labelsOf doc := rfl

theorem reviewersOn_withMixin (mixin : String) (attributes : Fields) :
    reviewersOn tags (doc.withMixin mixin attributes) = reviewersOn tags doc := rfl

theorem reviewersOn_migrated : reviewersOn tags (migrated env tags doc) = [] := by
  unfold migrated
  by_cases h : reviewersOn tags doc = []
  · rwa [if_pos h]
  · rw [if_neg h, reviewersOn_withMixin, reviewersOn_stripped]

theorem migrated_of_nil (h : reviewersOn tags doc = []) : migrated env tags doc = doc := if_pos h

/-- The reviewers that are written show unless there is a split mixin. -/
theorem visible_migrated (h : reviewersOn tags doc ≠ []) :
    (IsSplit doc → visible (migrated env tags doc) = visible doc) ∧
      (¬ IsSplit doc → visible (migrated env tags doc) = merged env tags doc) := by
  have hcore : (migrated env tags doc).mixins.get? MR_CORE_MIXIN =
      doc.mixins.get? MR_CORE_MIXIN := by
    rw [migrated, if_neg h]
    exact OrderedMap.get?_set_of_ne _ (by decide) _
  have hreview : (migrated env tags doc).mixins.get? MR_REVIEW_MIXIN_DOC =
      doc.mixins.get? MR_REVIEW_MIXIN_DOC := by
    rw [migrated, if_neg h]
    exact OrderedMap.get?_set_of_ne _ (by decide) _
  have hlegacy : (migrated env tags doc).mixins.get? MR_MIXIN =
      some (((doc.mixins.get? MR_MIXIN).getD []).assign
        (withOriginatedMarker [("reviewers", .arr (merged env tags doc))])) := by
    rw [migrated, if_neg h]
    exact OrderedMap.get?_set_self _ _ _
  unfold visible readMRMixinAttributes
  rw [hcore, hreview, hlegacy]
  constructor
  · rintro hsplit
    cases hc : doc.mixins.get? MR_CORE_MIXIN with
    | some core => rfl
    | none =>
      cases hr : doc.mixins.get? MR_REVIEW_MIXIN_DOC with
      | some review => rfl
      | none => exact absurd hsplit (not_or_intro (not_not_intro hc) (not_not_intro hr))
  · intro hsplit
    rw [IsSplit, not_or, not_not, not_not] at hsplit
    rw [hsplit.1, hsplit.2]
    simp [withOriginatedMarker, Fields.set, Fields.assign_cons, listOf]

theorem mem_merged {v : JsValue} : v ∈ merged env tags doc ↔ v ∈ visible doc ∨
    ∃ tag ∈ reviewersOn tags doc, ∃ person, accountOf env tag.2 = some person ∧
      v = .str person := by
  rw [merged, List.mem_eraseDups, List.mem_append, List.mem_map]
  refine or_congr Iff.rfl ?_
  constructor
  · rintro ⟨person, hperson, rfl⟩
    obtain ⟨tag, htag, haccount⟩ := List.mem_filterMap.mp hperson
    exact ⟨tag, htag, person, haccount, rfl⟩
  · rintro ⟨tag, htag, person, haccount, rfl⟩
    exact ⟨person, List.mem_filterMap.mpr ⟨tag, htag, haccount⟩, rfl⟩

end Stages

/-- Every reviewer label of the document is still on it or its person can be read from its mixins,
and so can the reviewers that could be read before. -/
structure Keeps (env : Env) (tags : List (Ref × HulyDoc)) (doc doc' : HulyDoc) : Prop where
  labels : ∀ tag ∈ reviewersOn tags doc, JsValue.str tag.1 ∈ labelsOf doc' ∨
    ∃ person, accountOf env tag.2 = some person ∧ JsValue.str person ∈ visible doc'
  reviewers : ∀ v ∈ visible doc, v ∈ visible doc'

section Keeps

variable {env : Env} {tags : List (Ref × HulyDoc)} {doc : HulyDoc}

theorem Keeps.refl : Keeps env tags doc doc :=
  ⟨fun _ htag => .inl (mem_reviewersOn tags doc htag), fun _ hv => hv⟩

theorem not_mem_labelsOf_stripped {tag : Ref × String} (h : tag ∈ reviewersOn tags doc) :
    JsValue.str tag.1 ∉ labelsOf (stripped tags doc) := by
  rw [labelsOf_stripped, List.mem_filter]
  intro hlabel
  exact of_decide_eq_true hlabel.2 (List.mem_map.mpr ⟨tag, h, rfl⟩)

/-- A document that lost its labels and nothing else. -/
theorem keeps_stripped_iff : Keeps env tags doc (stripped tags doc) ↔
    ∀ tag ∈ reviewersOn tags doc, ∃ person, accountOf env tag.2 = some person ∧
      JsValue.str person ∈ visible doc := by
  constructor
  · intro h tag htag
    exact (h.labels tag htag).resolve_left (not_mem_labelsOf_stripped htag)
  · exact fun h => ⟨fun tag htag => .inr (h tag htag), fun _ hv => hv⟩

/-- A document that was migrated. -/
theorem keeps_migrated_iff : Keeps env tags doc (migrated env tags doc) ↔
    ∀ tag ∈ reviewersOn tags doc, ∃ person, accountOf env tag.2 = some person ∧
      (JsValue.str person ∈ visible doc ∨ ¬ IsSplit doc) := by
  by_cases hnil : reviewersOn tags doc = []
  · rw [migrated_of_nil env tags doc hnil, hnil]
    exact iff_of_true Keeps.refl fun _ htag => absurd htag List.not_mem_nil
  obtain ⟨hsame, hwritten⟩ := visible_migrated env tags doc hnil
  have hgone : ∀ tag ∈ reviewersOn tags doc,
      JsValue.str tag.1 ∉ labelsOf (migrated env tags doc) := by
    intro tag htag
    rw [migrated, if_neg hnil, labelsOf_withMixin]
    exact not_mem_labelsOf_stripped htag
  constructor
  · intro h tag htag
    obtain ⟨person, haccount, hvisible⟩ := (h.labels tag htag).resolve_left (hgone tag htag)
    refine ⟨person, haccount, ?_⟩
    by_cases hsplit : IsSplit doc
    · rw [hsame hsplit] at hvisible
      exact .inl hvisible
    · exact .inr hsplit
  · intro h
    refine ⟨fun tag htag => .inr ?_, fun v hv => ?_⟩
    · obtain ⟨person, haccount, hperson⟩ := h tag htag
      refine ⟨person, haccount, ?_⟩
      by_cases hsplit : IsSplit doc
      · rw [hsame hsplit]
        exact hperson.resolve_right (not_not_intro hsplit)
      · rw [hwritten hsplit, mem_merged env]
        exact .inr ⟨tag, htag, person, haccount, rfl⟩
    · by_cases hsplit : IsSplit doc
      · rwa [hsame hsplit]
      · rw [hwritten hsplit, mem_merged env]
        exact .inl hv

end Keeps

/-- The documents when those of the rows are migrated. -/
def migrateDocs (env : Env) (tags : List (Ref × HulyDoc)) (entries : List IdMapDoc)
    (docs : OrderedMap Ref HulyDoc) : OrderedMap Ref HulyDoc :=
  mapMirrors (migrated env tags) entries docs

/-- The document is as before, has lost its labels, or is migrated. -/
def Stage (env : Env) (tags : List (Ref × HulyDoc)) (doc doc' : HulyDoc) : Prop :=
  doc' = doc ∨ doc' = stripped tags doc ∨ doc' = migrated env tags doc

/-- The documents of mirrors are at some stage, the others as before. -/
structure Staged (env : Env) (binding : BindingDoc) (w w' : World) : Prop where
  idmap : w'.idmap = w.idmap
  docs : ∃ f : Ref → HulyDoc → HulyDoc, w'.docs = w.docs.mapEntries f ∧
    ∀ ref doc, w.docs.get? ref = some doc → f ref doc = doc ∨
      Visits (mirrorsOf binding w.idmap) ref ∧ doc.objectClass = issueClass ∧
        Stage env (tagsOf w.docs) doc (f ref doc)

section Staged

variable {env : Env} {binding : BindingDoc} {w w' : World}

theorem Staged.refl (env : Env) (binding : BindingDoc) (w : World) : Staged env binding w w :=
  ⟨rfl, fun _ doc => doc, (OrderedMap.mapEntries_of_forall fun _ _ _ => rfl).symm,
    fun _ _ _ => .inl rfl⟩

theorem objectClass_migrated (env : Env) (tags : List (Ref × HulyDoc)) (doc : HulyDoc) :
    (migrated env tags doc).objectClass = doc.objectClass := by
  unfold migrated
  by_cases h : reviewersOn tags doc = []
  · rw [if_pos h]
  · rw [if_neg h]
    rfl

theorem Stage.objectClass {tags : List (Ref × HulyDoc)} {doc doc' : HulyDoc}
    (h : Stage env tags doc doc') : doc'.objectClass = doc.objectClass := by
  obtain rfl | rfl | rfl := h
  · rfl
  · rfl
  · exact objectClass_migrated env tags doc

theorem tagElementClass_ne_issueClass : tagElementClass ≠ issueClass := by decide

/-- A change of issues is none of tags. -/
theorem tagsOf_mapEntries {docs : OrderedMap Ref HulyDoc} {f : Ref → HulyDoc → HulyDoc}
    (hf : ∀ ref doc, docs.get? ref = some doc → f ref doc = doc ∨
      doc.objectClass = issueClass ∧ (f ref doc).objectClass = issueClass) :
    tagsOf (docs.mapEntries f) = tagsOf docs := by
  have hall : ∀ entry ∈ docs.entries, f entry.1 entry.2 = entry.2 ∨
      entry.2.objectClass = issueClass ∧ (f entry.1 entry.2).objectClass = issueClass :=
    fun entry hentry => hf entry.1 entry.2 (OrderedMap.get?_of_mem_entries hentry)
  unfold tagsOf OrderedMap.mapEntries
  dsimp only
  generalize docs.entries = entries at hall
  induction entries with
  | nil => rfl
  | cons entry entries ih =>
    have hrest := ih fun e he => hall e (List.mem_cons_of_mem entry he)
    rw [List.map_cons]
    obtain hsame | ⟨hclass, hclass'⟩ := hall entry List.mem_cons_self
    · rw [hsame, List.filter_cons, List.filter_cons, hrest]
    · have hissue : ¬ issueClass = tagElementClass := Ne.symm tagElementClass_ne_issueClass
      rw [List.filter_cons_of_neg (by simpa [hclass'] using hissue),
        List.filter_cons_of_neg (by simpa [hclass] using hissue), hrest]

theorem Staged.tagsOf_eq (h : Staged env binding w w') : tagsOf w'.docs = tagsOf w.docs := by
  obtain ⟨f, hdocs, hf⟩ := h.docs
  rw [hdocs]
  refine tagsOf_mapEntries fun ref doc hdoc => (hf ref doc hdoc).imp id fun hstage => ?_
  exact ⟨hstage.2.1, hstage.2.2.objectClass.trans hstage.2.1⟩

theorem Staged.get? (h : Staged env binding w w') {ref : Ref} {doc' : HulyDoc}
    (hdoc' : w'.docs.get? ref = some doc') : ∃ doc, w.docs.get? ref = some doc ∧
      (doc' = doc ∨ Visits (mirrorsOf binding w.idmap) ref ∧ doc.objectClass = issueClass ∧
        Stage env (tagsOf w.docs) doc doc') := by
  obtain ⟨f, hdocs, hf⟩ := h.docs
  rw [hdocs, OrderedMap.get?_mapEntries] at hdoc'
  obtain ⟨doc, hdoc, rfl⟩ := Option.map_eq_some_iff.mp hdoc'
  exact ⟨doc, hdoc, hf ref doc hdoc⟩

/-- A document that still has reviewer labels is taken to a later stage. -/
theorem Staged.set (h : Staged env binding w w') {ref : Ref} {doc doc' : HulyDoc}
    (hdoc : w'.docs.get? ref = some doc) (hvisits : Visits (mirrorsOf binding w.idmap) ref)
    (hissue : doc.objectClass = issueClass) (hlabels : reviewersOn (tagsOf w.docs) doc ≠ [])
    (hstage : Stage env (tagsOf w.docs) doc doc') :
    Staged env binding w { w' with docs := w'.docs.set ref doc' } := by
  obtain ⟨f, hdocs, hf⟩ := h.docs
  refine ⟨h.idmap, fun r d => if r = ref then doc' else f r d, ?_, fun r d hd => ?_⟩
  · rw [OrderedMap.set_eq_mapEntries hdoc, hdocs, OrderedMap.mapEntries_mapEntries]
  · by_cases hr : r = ref
    · subst hr
      simp only [if_pos]
      rw [hdocs, OrderedMap.get?_mapEntries, hd, Option.map_some] at hdoc
      have hstart : doc = d := by
        rw [← Option.some.inj hdoc]
        obtain hsame | ⟨-, -, hsame | hlater | hlater⟩ := hf r d hd
        · exact hsame
        · exact hsame
        · rw [← Option.some.inj hdoc, hlater, reviewersOn_stripped] at hlabels
          exact absurd rfl hlabels
        · rw [← Option.some.inj hdoc, hlater, reviewersOn_migrated] at hlabels
          exact absurd rfl hlabels
      exact .inr ⟨hvisits, hstart ▸ hissue, hstart ▸ hstage⟩
    · simp only [if_neg hr]
      exact hf r d hd

theorem listed_labels_stripped (tags : List (Ref × HulyDoc)) (doc : HulyDoc) :
    Listed ((stripped tags doc).attrs.field "labels") := by
  refine .inr (.inr ⟨(labelsOf doc).filter fun label =>
    label ∉ (reviewersOn tags doc).map fun tag => JsValue.str tag.1, ?_⟩)
  simp [stripped, withOriginatedMarker, Fields.set, Fields.assign_cons]

/-- The field that is read is the one from before, or the one that is written. -/
theorem listed_reviewers_withMixin (doc : HulyDoc) (reviewers : List JsValue)
    (h : Listed (Fields.field (readMRMixinAttributes doc) "reviewers")) :
    Listed (Fields.field (readMRMixinAttributes (doc.withMixin MR_MIXIN
      (withOriginatedMarker [("reviewers", .arr reviewers)]))) "reviewers") := by
  have hcore : (doc.withMixin MR_MIXIN (withOriginatedMarker [("reviewers",
      .arr reviewers)])).mixins.get? MR_CORE_MIXIN = doc.mixins.get? MR_CORE_MIXIN :=
    OrderedMap.get?_set_of_ne _ (by decide) _
  have hreview : (doc.withMixin MR_MIXIN (withOriginatedMarker [("reviewers",
      .arr reviewers)])).mixins.get? MR_REVIEW_MIXIN_DOC = doc.mixins.get? MR_REVIEW_MIXIN_DOC :=
    OrderedMap.get?_set_of_ne _ (by decide) _
  unfold readMRMixinAttributes at h ⊢
  rw [hcore, hreview]
  cases hc : doc.mixins.get? MR_CORE_MIXIN with
  | some core =>
    rw [hc] at h
    exact h
  | none =>
    cases hr : doc.mixins.get? MR_REVIEW_MIXIN_DOC with
    | some review =>
      rw [hc, hr] at h
      exact h
    | none =>
      refine .inr (.inr ⟨reviewers, ?_⟩)
      rw [HulyDoc.withMixin, OrderedMap.get?_set_self]
      simp [withOriginatedMarker, Fields.set, Fields.assign_cons]

theorem Stage.listed {tags : List (Ref × HulyDoc)} {doc doc' : HulyDoc}
    (h : Stage env tags doc doc') (hlabels : Listed (doc.attrs.field "labels"))
    (hreviewers : Listed (Fields.field (readMRMixinAttributes doc) "reviewers")) :
    Listed (doc'.attrs.field "labels") ∧
      Listed (Fields.field (readMRMixinAttributes doc') "reviewers") := by
  obtain rfl | rfl | rfl := h
  · exact ⟨hlabels, hreviewers⟩
  · exact ⟨listed_labels_stripped tags doc, hreviewers⟩
  · by_cases hnil : reviewersOn tags doc = []
    · rw [migrated_of_nil env tags doc hnil]
      exact ⟨hlabels, hreviewers⟩
    · rw [migrated, if_neg hnil]
      exact ⟨listed_labels_stripped tags doc,
        listed_reviewers_withMixin (stripped tags doc) _ hreviewers⟩

theorem Staged.typed (h : Staged env binding w w') (htyped : Typed w.docs) : Typed w'.docs := by
  have hstages : ∀ ref doc', w'.docs.get? ref = some doc' → doc'.objectClass = issueClass →
      Listed (doc'.attrs.field "labels") ∧
        Listed (Fields.field (readMRMixinAttributes doc') "reviewers") := by
    intro ref doc' hdoc' hissue
    obtain ⟨doc, hdoc, rfl | ⟨-, hclass, hstage⟩⟩ := h.get? hdoc'
    · exact ⟨htyped.labels ref doc' hdoc hissue, htyped.reviewers ref doc' hdoc hissue⟩
    · exact hstage.listed (htyped.labels ref doc hdoc hclass) (htyped.reviewers ref doc hdoc hclass)
  refine ⟨?_, fun ref doc' hdoc' hissue => (hstages ref doc' hdoc' hissue).1,
    fun ref doc' hdoc' hissue => (hstages ref doc' hdoc' hissue).2⟩
  rw [h.tagsOf_eq]
  exact htyped.titles

end Staged

section Writes

variable (env : Env) (tags : List (Ref × HulyDoc))

/-- The two writes on a document that has reviewer labels. -/
def issueStages (ref : Ref) (doc : HulyDoc) (w : World) : List World :=
  if reviewersOn tags doc = [] then []
  else [{ w with docs := w.docs.set ref (stripped tags doc) },
    { w with docs := w.docs.set ref (migrated env tags doc) }]

def entryStages (entry : IdMapDoc) (w : World) : List World :=
  match (w.docs.get? entry.hulyRef).filter fun doc => doc.objectClass = issueClass with
  | some doc => if entry.hulyClass = issueClass then issueStages env tags entry.hulyRef doc w else []
  | none => []

/-- The states after the writes of a run, one row after the other. -/
def stages : List IdMapDoc → World → List World
  | [], _ => []
  | entry :: entries, w =>
      entryStages env tags entry w ++
        stages entries { w with docs := migrateDocs env tags [entry] w.docs }

theorem migrated_migrated (doc : HulyDoc) :
    migrated env tags (migrated env tags doc) = migrated env tags doc :=
  migrated_of_nil _ _ _ (reviewersOn_migrated env tags doc)

theorem migrateDocs_append (entries more : List IdMapDoc) (docs : OrderedMap Ref HulyDoc) :
    migrateDocs env tags more (migrateDocs env tags entries docs) =
      migrateDocs env tags (entries ++ more) docs :=
  MixinMigration.mapMirrors_append (objectClass_migrated env tags) (migrated_migrated env tags)
    entries more docs

/-- The tags that are found all have titles. -/
theorem reviewerTagDocs_ok {tagDocs : List (Ref × HulyDoc)}
    (h : ∀ tag ∈ tagDocs, ∃ title, tag.2.attrs.field "title" = .str title) :
    reviewerTagDocs tagDocs = .ok (tagDocs.filterMap reviewerOf) := by
  induction tagDocs with
  | nil => rfl
  | cons tag tagDocs ih =>
    obtain ⟨title, htitle⟩ := h tag List.mem_cons_self
    have hrest := ih fun t ht => h t (List.mem_cons_of_mem tag ht)
    obtain ⟨ref, tagDoc⟩ := tag
    have hone : reviewerOf (ref, tagDoc) = (usernameOf title).map fun username => (ref, username) := by
      rw [reviewerOf, htitle]
    rw [reviewerTagDocs, htitle, hrest, List.filterMap_cons, hone]
    cases husername : usernameOf title with
    | some username => simp [JsValue.asStr, husername, bind, Except.bind]
    | none => simp [JsValue.asStr, husername, bind, Except.bind]

end Writes

section Runs

variable {env : Env} (h : env.Healthy)
include h

open Coroutine (Passes)

theorem passes_resolveReviewers (reviewerTags : List (Ref × String)) (w : World) :
    Passes (resolveReviewers env reviewerTags) w []
      (reviewerTags.filterMap fun tag => accountOf env tag.2) w := by
  induction reviewerTags with
  | nil => exact Passes.pure _ w
  | cons tag reviewerTags ih =>
    obtain ⟨ref, username⟩ := tag
    have hfirst : Passes (UserIdentity.Awaits.mapByGitlabUser env ⟨username, .undefined⟩) w []
        (accountOf env username) w := by
      refine Passes.after (Passes.read (Sync.findPersonBySocialKey_run h _ w)) ?_
      unfold accountOf UserIdentity.accountOf
      dsimp only
      cases env.findPersonBySocialKey ("gitlab:" ++ username) with
      | some person => exact Passes.pure _ w
      | none => exact Passes.pure _ w
    refine Passes.after hfirst (Passes.after ih ?_)
    have hcons : ((ref, username) :: reviewerTags).filterMap (fun tag => accountOf env tag.2) =
        (accountOf env username).toList ++
          reviewerTags.filterMap fun tag => accountOf env tag.2 := by
      rw [List.filterMap_cons]
      cases accountOf env username with
      | some person => rfl
      | none => rfl
    rw [hcons]
    exact Passes.pure _ w

variable {ref : Ref} {doc : HulyDoc} {w : World}

theorem passes_findOne (hdoc : w.docs.get? ref = some doc) (hissue : doc.objectClass = issueClass) :
    Passes (Async.findOne env issueClass ref) w [] (some doc) w := by
  have hrun := Sync.findOne_run h issueClass ref w
  rw [hdoc, Option.filter_some, if_pos (decide_eq_true hissue)] at hrun
  exact Passes.read hrun

theorem passes_readExistingReviewers (hdoc : w.docs.get? ref = some doc)
    (hissue : doc.objectClass = issueClass) (htyped : Typed w.docs) :
    Passes (readExistingReviewers env ref) w [] (visible doc) w :=
  Passes.after (passes_findOne h hdoc hissue)
    (Passes.ofExcept (htyped.reviewers ref doc hdoc hissue).elements w)

theorem passes_migrateLabels {tags : List (Ref × HulyDoc)} (hdoc : w.docs.get? ref = some doc)
    (hissue : doc.objectClass = issueClass) (htyped : Typed w.docs)
    (hlabels : reviewersOn tags doc ≠ []) (result : ReviewerMigrationResult) :
    ∃ result', Passes (migrateLabels env ref (labelsOf doc) (reviewersOn tags doc) result) w
      (issueStages env tags ref doc w) result'
      { w with docs := w.docs.set ref (migrated env tags doc) } := by
  have hstrip := Sync.updateDoc_run h (withOriginatedMarker [("labels", .arr
    ((labelsOf doc).filter fun label =>
      label ∉ (reviewersOn tags doc).map fun tag => JsValue.str tag.1))]) w hdoc
  let w₁ : World := { w with docs := w.docs.set ref (stripped tags doc) }
  have hput := Sync.putMixin_run h MR_MIXIN (withOriginatedMarker [("reviewers",
    .arr (merged env tags doc))]) (w := w₁) (OrderedMap.get?_set_self _ _ _)
  have hmigrated : migrated env tags doc = (stripped tags doc).withMixin MR_MIXIN
      (withOriginatedMarker [("reviewers", .arr (merged env tags doc))]) := if_neg hlabels
  have hdocs : w₁.docs.set ref (migrated env tags doc) =
      w.docs.set ref (migrated env tags doc) := OrderedMap.set_set hdoc _ _
  rw [← hmigrated, hdocs] at hput
  rw [issueStages, if_neg hlabels]
  refine ⟨_, Passes.after (passes_resolveReviewers h _ w)
    (Passes.after (passes_readExistingReviewers h hdoc hissue htyped)
      (Passes.bind (Passes.call hstrip) (Passes.bind (Passes.call hput) (Passes.pure _ _))))⟩

/-- The tags on a document are the tags among its labels. -/
theorem passes_findTags (htyped : Typed w.docs) (doc : HulyDoc) :
    ∃ found, Passes (findTags env (labelsOf doc)) w [] found w ∧
      reviewerTagDocs found = .ok (reviewersOn (tagsOf w.docs) doc) := by
  refine ⟨(tagsOf w.docs).filter fun tag => JsValue.str tag.1 ∈ labelsOf doc,
    Passes.after (Passes.read (Sync.findAll_run h tagElementClass w)) (Passes.pure _ w), ?_⟩
  exact reviewerTagDocs_ok fun tag htag => htyped.titles tag (List.mem_filter.mp htag).1

theorem passes_migrateIssue (hdoc : w.docs.get? ref = some doc)
    (hissue : doc.objectClass = issueClass) (htyped : Typed w.docs)
    (result : ReviewerMigrationResult) :
    ∃ result', Passes (migrateIssue env ref doc result) w
      (issueStages env (tagsOf w.docs) ref doc w) result'
      { w with docs := w.docs.set ref (migrated env (tagsOf w.docs) doc) } := by
  have hkept : reviewersOn (tagsOf w.docs) doc = [] →
      issueStages env (tagsOf w.docs) ref doc w = [] ∧
        ({ w with docs := w.docs.set ref (migrated env (tagsOf w.docs) doc) } : World) = w := by
    intro hnil
    rw [migrated_of_nil env _ _ hnil, OrderedMap.set_of_get? hdoc]
    exact ⟨if_pos hnil, rfl⟩
  have hitems : Passes (Coroutine.ofExcept ((doc.attrs.field "labels").orElse (.arr [])).items :
      Async (List JsValue)) w [] (labelsOf doc) w :=
    Passes.ofExcept (htyped.labels ref doc hdoc hissue).items w
  by_cases hempty : labelsOf doc = []
  · have hnil : reviewersOn (tagsOf w.docs) doc = [] := by
      rw [List.eq_nil_iff_forall_not_mem]
      intro tag htag
      exact List.not_mem_nil (hempty ▸ mem_reviewersOn _ _ htag)
    obtain ⟨hstages, hworld⟩ := hkept hnil
    rw [hstages, hworld]
    refine ⟨result, Passes.after hitems ?_⟩
    rw [if_pos hempty]
    exact Passes.pure _ w
  · obtain ⟨found, hfound, htags⟩ := passes_findTags h htyped doc
    have hofExcept : Passes (Coroutine.ofExcept (reviewerTagDocs found) :
        Async (List (Ref × String))) w [] (reviewersOn (tagsOf w.docs) doc) w :=
      Passes.ofExcept htags w
    by_cases hnil : reviewersOn (tagsOf w.docs) doc = []
    · obtain ⟨hstages, hworld⟩ := hkept hnil
      rw [hstages, hworld]
      refine ⟨result, Passes.after hitems ?_⟩
      rw [if_neg hempty]
      refine Passes.after hfound (Passes.after hofExcept ?_)
      rw [if_pos hnil]
      exact Passes.pure _ w
    · obtain ⟨result', hlabels⟩ := passes_migrateLabels h hdoc hissue htyped hnil result
      refine ⟨result', Passes.after hitems ?_⟩
      rw [if_neg hempty]
      refine Passes.after hfound (Passes.after hofExcept ?_)
      rw [if_neg hnil]
      exact hlabels

theorem passes_migrateEntry (htyped : Typed w.docs) (entry : IdMapDoc)
    (result : ReviewerMigrationResult) :
    ∃ result', Passes (migrateEntry env entry result) w (entryStages env (tagsOf w.docs) entry w)
      result' { w with docs := migrateDocs env (tagsOf w.docs) [entry] w.docs } := by
  have hkept : (∀ doc, w.docs.get? entry.hulyRef = some doc →
        ¬ (entry.hulyClass = issueClass ∧ doc.objectClass = issueClass)) →
      migrateDocs env (tagsOf w.docs) [entry] w.docs = w.docs :=
    MixinMigration.mapMirrors_singleton_of_not _
  rw [migrateEntry, entryStages]
  by_cases hclass : entry.hulyClass = issueClass
  · rw [if_neg (not_not_intro hclass)]
    have hfind : Passes (Async.findOne env issueClass entry.hulyRef) w [] _ w :=
      Passes.read (Sync.findOne_run h issueClass entry.hulyRef w)
    cases hfound : (w.docs.get? entry.hulyRef).filter fun doc => doc.objectClass = issueClass with
    | none =>
      rw [hfound] at hfind
      rw [hkept]
      · exact ⟨_, Passes.after hfind (Passes.pure _ w)⟩
      · intro doc hdoc hboth
        have hsome : (w.docs.get? entry.hulyRef).filter (fun d => d.objectClass = issueClass) =
            some doc := Option.filter_eq_some_iff.mpr ⟨hdoc, decide_eq_true hboth.2⟩
        exact absurd (hfound.symm.trans hsome) (Option.some_ne_none _).symm
    | some doc =>
      rw [hfound] at hfind
      obtain ⟨hdoc, hissue⟩ := Option.filter_eq_some_iff.mp hfound
      have hdocs : migrateDocs env (tagsOf w.docs) [entry] w.docs =
          w.docs.set entry.hulyRef (migrated env (tagsOf w.docs) doc) :=
        MixinMigration.mapMirrors_singleton _ hclass hdoc (of_decide_eq_true hissue)
      obtain ⟨result', hissueRun⟩ := passes_migrateIssue h hdoc (of_decide_eq_true hissue) htyped
        { result with mrsScanned := result.mrsScanned + 1 }
      rw [hdocs]
      dsimp only
      rw [if_pos hclass]
      exact ⟨result', Passes.after hfind hissueRun⟩
  · have hnone : (match (w.docs.get? entry.hulyRef).filter fun doc =>
          doc.objectClass = issueClass with
        | some doc => if entry.hulyClass = issueClass then
            issueStages env (tagsOf w.docs) entry.hulyRef doc w else []
        | none => []) = [] := by
      cases (w.docs.get? entry.hulyRef).filter fun doc => doc.objectClass = issueClass with
      | some doc => exact if_neg hclass
      | none => rfl
    rw [if_pos hclass, hnone, hkept fun _ _ hboth => hclass hboth.1]
    exact ⟨_, Passes.pure _ w⟩

end Runs

section Mirrors

variable {env : Env} {binding : BindingDoc} {w₀ w : World}

/-- A row leaves every document at some stage. -/
theorem Staged.entry (hw : Staged env binding w₀ w) {entry : IdMapDoc}
    (hentry : entry ∈ mirrorsOf binding w₀.idmap) :
    Staged env binding w₀
      { w with docs := migrateDocs env (tagsOf w₀.docs) [entry] w.docs } ∧
      ∀ t ∈ entryStages env (tagsOf w₀.docs) entry w, Staged env binding w₀ t := by
  have hkept : (∀ doc, w.docs.get? entry.hulyRef = some doc →
        ¬ (entry.hulyClass = issueClass ∧ doc.objectClass = issueClass)) →
      migrateDocs env (tagsOf w₀.docs) [entry] w.docs = w.docs :=
    MixinMigration.mapMirrors_singleton_of_not _
  rw [entryStages]
  cases hfound : (w.docs.get? entry.hulyRef).filter fun doc => doc.objectClass = issueClass with
  | none =>
    rw [hkept]
    · exact ⟨hw, fun t ht => absurd ht List.not_mem_nil⟩
    · intro doc hdoc hboth
      have hsome : (w.docs.get? entry.hulyRef).filter (fun d => d.objectClass = issueClass) =
          some doc := Option.filter_eq_some_iff.mpr ⟨hdoc, decide_eq_true hboth.2⟩
      exact absurd (hfound.symm.trans hsome) (Option.some_ne_none _).symm
  | some doc =>
    dsimp only
    obtain ⟨hdoc, hdecided⟩ := Option.filter_eq_some_iff.mp hfound
    have hissue := of_decide_eq_true hdecided
    by_cases hclass : entry.hulyClass = issueClass
    · have hdocs : migrateDocs env (tagsOf w₀.docs) [entry] w.docs =
          w.docs.set entry.hulyRef (migrated env (tagsOf w₀.docs) doc) :=
        MixinMigration.mapMirrors_singleton _ hclass hdoc hissue
      have hvisits : Visits (mirrorsOf binding w₀.idmap) entry.hulyRef :=
        ⟨entry, hentry, hclass, rfl⟩
      rw [hdocs, if_pos hclass, issueStages]
      by_cases hnil : reviewersOn (tagsOf w₀.docs) doc = []
      · rw [if_pos hnil, migrated_of_nil env _ _ hnil, OrderedMap.set_of_get? hdoc]
        exact ⟨hw, fun t ht => absurd ht List.not_mem_nil⟩
      · rw [if_neg hnil]
        have hlast := hw.set hdoc hvisits hissue hnil (.inr (.inr rfl))
        refine ⟨hlast, fun t ht => ?_⟩
        obtain rfl | ht := List.mem_cons.mp ht
        · exact hw.set hdoc hvisits hissue hnil (.inr (.inl rfl))
        · obtain rfl := List.mem_singleton.mp ht
          exact hlast
    · rw [if_neg hclass, hkept fun _ _ hboth => hclass hboth.1]
      exact ⟨hw, fun t ht => absurd ht List.not_mem_nil⟩

/-- A run from a state that earlier runs have left. -/
theorem passes_migrateEntries (h : env.Healthy) (htyped : Typed w₀.docs) {entries : List IdMapDoc}
    (hentries : entries ⊆ mirrorsOf binding w₀.idmap) (hw : Staged env binding w₀ w)
    (result : ReviewerMigrationResult) :
    (∃ result', Coroutine.Passes (migrateEntries env result entries) w
      (stages env (tagsOf w₀.docs) entries w) result'
      { w with docs := migrateDocs env (tagsOf w₀.docs) entries w.docs }) ∧
    ∀ t ∈ stages env (tagsOf w₀.docs) entries w, Staged env binding w₀ t := by
  induction entries generalizing result w with
  | nil =>
    rw [migrateDocs, MixinMigration.mapMirrors_nil]
    exact ⟨⟨result, Coroutine.Passes.pure _ w⟩, fun t ht => absurd ht List.not_mem_nil⟩
  | cons entry entries ih =>
    have hfirst := passes_migrateEntry h (hw.typed htyped) entry result
    rw [hw.tagsOf_eq] at hfirst
    obtain ⟨result₁, hpass₁⟩ := hfirst
    obtain ⟨hnext, hstaged⟩ := hw.entry (hentries List.mem_cons_self)
    obtain ⟨⟨result₂, hpass₂⟩, hlater⟩ := ih (List.subset_of_cons_subset hentries) hnext result₁
    have happend := migrateDocs_append env (tagsOf w₀.docs) [entry] entries w.docs
    dsimp only at hpass₂
    rw [happend] at hpass₂
    refine ⟨⟨result₂, Coroutine.Passes.bind hpass₁ hpass₂⟩, fun t ht => ?_⟩
    exact (List.mem_append.mp ht).elim (hstaged t) (hlater t)

theorem passes_migrateReviewerLabels (h : env.Healthy) (htyped : Typed w₀.docs)
    (hw : Staged env binding w₀ w) :
    (∃ result, Coroutine.Passes (migrateReviewerLabels env binding) w
      (stages env (tagsOf w₀.docs) (mirrorsOf binding w₀.idmap) w) result
      { w with
        docs := migrateDocs env (tagsOf w₀.docs) (mirrorsOf binding w₀.idmap) w.docs }) ∧
    ∀ t ∈ stages env (tagsOf w₀.docs) (mirrorsOf binding w₀.idmap) w,
      Staged env binding w₀ t := by
  have hfind : (MixinMigration.findMirrors env binding).run w =
      (.ok (mirrorsOf binding w₀.idmap), w) := by
    rw [← hw.idmap]
    simp [MixinMigration.findMirrors, Effect.bind_run, Sync.reach_run h, mirrorsOf]
  obtain ⟨⟨result, hpass⟩, hstaged⟩ := passes_migrateEntries h htyped (List.Subset.refl _) hw
    ⟨0, 0, 0, 0, 0⟩
  have hread : Coroutine.Passes (Async.now >>= fun now =>
      (pure { result with migratedAt := now } : Async ReviewerMigrationResult))
      { w with docs := migrateDocs env (tagsOf w₀.docs) (mirrorsOf binding w₀.idmap) w.docs } []
      { result with migratedAt := w.now } _ :=
    Coroutine.Passes.after (Coroutine.Passes.read rfl) (Coroutine.Passes.pure _ _)
  have hboth := Coroutine.Passes.bind (f := fun result : ReviewerMigrationResult =>
    Async.now >>= fun now =>
      (pure { result with migratedAt := now } : Async ReviewerMigrationResult)) hpass hread
  rw [List.append_nil] at hboth
  exact ⟨⟨_, Coroutine.Passes.after (Coroutine.Passes.read hfind) hboth⟩, hstaged⟩

/-- Some run stops when a document has lost its labels. -/
theorem exists_stripped (env : Env) {tags : List (Ref × HulyDoc)} {ref : Ref} {doc : HulyDoc}
    {entries : List IdMapDoc} (hvisits : Visits entries ref) (hdoc : w.docs.get? ref = some doc)
    (hissue : doc.objectClass = issueClass) (hlabels : reviewersOn tags doc ≠ []) :
    ∃ t ∈ stages env tags entries w, t.docs.get? ref = some (stripped tags doc) := by
  induction entries generalizing w with
  | nil =>
    obtain ⟨entry, hentry, -⟩ := hvisits
    exact absurd hentry List.not_mem_nil
  | cons entry entries ih =>
    by_cases hfirst : entry.hulyClass = issueClass ∧ entry.hulyRef = ref
    · obtain ⟨hclass, rfl⟩ := hfirst
      refine ⟨{ w with docs := w.docs.set entry.hulyRef (stripped tags doc) },
        List.mem_append_left _ ?_, OrderedMap.get?_set_self _ _ _⟩
      rw [entryStages, hdoc, Option.filter_some, if_pos (decide_eq_true hissue)]
      dsimp only
      rw [if_pos hclass, issueStages, if_neg hlabels]
      exact List.mem_cons_self
    · have hlater : Visits entries ref := by
        obtain ⟨e, he, hboth⟩ := hvisits
        obtain rfl | he := List.mem_cons.mp he
        · exact absurd hboth hfirst
        · exact ⟨e, he, hboth⟩
      have hkept : (migrateDocs env tags [entry] w.docs).get? ref = some doc := by
        rw [migrateDocs, MixinMigration.get?_mapMirrors, hdoc, Option.map_some, if_neg]
        rw [MixinMigration.visits_singleton]
        exact fun hv => hfirst hv.1
      obtain ⟨t, ht, htorn⟩ := ih (w := { w with docs := migrateDocs env tags [entry] w.docs })
        hlater hkept
      exact ⟨t, List.mem_append_right _ ht, htorn⟩

end Mirrors

/-- The state after a run that is broken off after `calls` calls. -/
def interrupted (env : Env) (binding : BindingDoc) (w : World) (calls : Nat) : World :=
  (migrateReviewerLabels env binding).stopped calls w

/-- The document after runs that were broken off and a complete one. -/
def finalDoc (env : Env) (binding : BindingDoc) (w : World) (broken : List Nat) (ref : Ref) :
    Option HulyDoc :=
  ((migrateReviewerLabels env binding).toEffect.run
    (Transition.exec (interrupted env binding) w broken)).2.docs.get? ref

section Keeping

variable {env : Env} (h : env.Healthy) {w : World} (htyped : Typed w.docs) (binding : BindingDoc)
include h htyped

theorem staged_exec (broken : List Nat) :
    Staged env binding w (Transition.exec (interrupted env binding) w broken) := by
  refine Transition.exec_invariant' (fun w₁ calls hw₁ => ?_) (Staged.refl env binding w) broken
  obtain ⟨⟨result, hpass⟩, hstaged⟩ := passes_migrateReviewerLabels h htyped hw₁
  obtain hsame | hlater := List.mem_cons.mp ((hpass.stops _).mp ⟨calls, rfl⟩)
  · rw [interrupted, hsame]
    exact hw₁
  · exact hstaged _ hlater

/-- A complete run migrates what the others have left. -/
theorem finalDoc_eq (broken : List Nat) (ref : Ref) :
    finalDoc env binding w broken ref =
      ((Transition.exec (interrupted env binding) w broken).docs.get? ref).map fun doc =>
        if Visits (mirrorsOf binding w.idmap) ref ∧ doc.objectClass = issueClass then
          migrated env (tagsOf w.docs) doc else doc := by
  obtain ⟨⟨result, hpass⟩, -⟩ :=
    passes_migrateReviewerLabels h htyped (staged_exec h htyped binding broken)
  rw [finalDoc, hpass.run]
  exact MixinMigration.get?_mapMirrors _ _ _ _

variable {ref : Ref} {doc : HulyDoc} (hdoc : w.docs.get? ref = some doc)
include hdoc

/-- The document ends where it was, without its labels, or migrated. -/
theorem finalDoc_cases (broken : List Nat) :
    ∃ doc', finalDoc env binding w broken ref = some doc' ∧
      (doc' = doc ∨ Visits (mirrorsOf binding w.idmap) ref ∧ doc.objectClass = issueClass ∧
        Stage env (tagsOf w.docs) doc doc') := by
  obtain ⟨f, hdocs, hf⟩ := (staged_exec h htyped binding broken).docs
  have hfinal : finalDoc env binding w broken ref =
      some (if Visits (mirrorsOf binding w.idmap) ref ∧ (f ref doc).objectClass = issueClass then
        migrated env (tagsOf w.docs) (f ref doc) else f ref doc) := by
    rw [finalDoc_eq h htyped binding broken, hdocs, OrderedMap.get?_mapEntries, hdoc,
      Option.map_some, Option.map_some]
  refine ⟨_, hfinal, ?_⟩
  by_cases hvisits : Visits (mirrorsOf binding w.idmap) ref ∧ doc.objectClass = issueClass
  · refine .inr ⟨hvisits.1, hvisits.2, ?_⟩
    obtain hsame | ⟨-, -, hstage⟩ := hf ref doc hdoc
    · rw [hsame, if_pos hvisits]
      exact .inr (.inr rfl)
    · rw [if_pos ⟨hvisits.1, hstage.objectClass.trans hvisits.2⟩]
      obtain hsame | hsame | hsame := hstage
      · rw [hsame]
        exact .inr (.inr rfl)
      · rw [hsame, migrated_of_nil env _ _ (reviewersOn_stripped _ _)]
        exact .inr (.inl rfl)
      · rw [hsame, migrated_migrated]
        exact .inr (.inr rfl)
  · obtain hsame | ⟨hv, hissue, -⟩ := hf ref doc hdoc
    · rw [hsame, if_neg hvisits]
      exact .inl rfl
    · exact absurd ⟨hv, hissue⟩ hvisits

theorem finalDoc_uninterrupted (hvisits : Visits (mirrorsOf binding w.idmap) ref)
    (hissue : doc.objectClass = issueClass) :
    finalDoc env binding w [] ref = some (migrated env (tagsOf w.docs) doc) := by
  rw [finalDoc_eq h htyped binding]
  calc (w.docs.get? ref).map _
      = some (if Visits (mirrorsOf binding w.idmap) ref ∧ doc.objectClass = issueClass then
          migrated env (tagsOf w.docs) doc else doc) := by rw [hdoc, Option.map_some]
    _ = some (migrated env (tagsOf w.docs) doc) := by rw [if_pos ⟨hvisits, hissue⟩]

/-- Broken off between its two writes, the migration does not come back to a document. -/
theorem exists_finalDoc_stripped (hvisits : Visits (mirrorsOf binding w.idmap) ref)
    (hissue : doc.objectClass = issueClass) (hlabels : reviewersOn (tagsOf w.docs) doc ≠ []) :
    ∃ calls, finalDoc env binding w [calls] ref = some (stripped (tagsOf w.docs) doc) := by
  obtain ⟨⟨result, hpass⟩, -⟩ :=
    passes_migrateReviewerLabels h htyped (Staged.refl env binding w)
  obtain ⟨t, ht, htorn⟩ := exists_stripped env hvisits hdoc hissue hlabels
  obtain ⟨calls, rfl⟩ := (hpass.stops t).mpr (List.mem_cons_of_mem _ ht)
  refine ⟨calls, ?_⟩
  rw [finalDoc_eq h htyped binding, Transition.exec_cons, Transition.exec_nil, interrupted, htorn,
    Option.map_some, migrated_of_nil env _ _ (reviewersOn_stripped _ _), ite_self]

/-- The migration keeps every reviewer of a mirror, wherever runs are broken off, just when each
label stands for a user with an account that could be read as a reviewer before. Uninterrupted, it
also keeps those with an account on a mirror without split mixins. -/
theorem migrateReviewerLabels_keeps_iff (hvisits : Visits (mirrorsOf binding w.idmap) ref)
    (hissue : doc.objectClass = issueClass) :
    ((∀ broken, ∃ doc', finalDoc env binding w broken ref = some doc' ∧
        Keeps env (tagsOf w.docs) doc doc') ↔
      ∀ tag ∈ reviewersOn (tagsOf w.docs) doc, ∃ person, accountOf env tag.2 = some person ∧
        JsValue.str person ∈ visible doc) ∧
    ((∃ doc', finalDoc env binding w [] ref = some doc' ∧ Keeps env (tagsOf w.docs) doc doc') ↔
      ∀ tag ∈ reviewersOn (tagsOf w.docs) doc, ∃ person, accountOf env tag.2 = some person ∧
        (JsValue.str person ∈ visible doc ∨ ¬ IsSplit doc)) := by
  constructor
  · constructor
    · intro hkeeps tag htag
      obtain ⟨calls, htorn⟩ := exists_finalDoc_stripped h htyped binding hdoc hvisits hissue
        (List.ne_nil_of_mem htag)
      obtain ⟨doc', hfinal, hdoc'⟩ := hkeeps [calls]
      obtain rfl := Option.some.inj (hfinal.symm.trans htorn)
      exact keeps_stripped_iff.mp hdoc' tag htag
    · intro hvisible broken
      obtain ⟨doc', hfinal, rfl | ⟨-, -, rfl | rfl | rfl⟩⟩ :=
        finalDoc_cases h htyped binding hdoc broken
      · exact ⟨doc', hfinal, Keeps.refl⟩
      · exact ⟨doc', hfinal, Keeps.refl⟩
      · exact ⟨_, hfinal, keeps_stripped_iff.mpr hvisible⟩
      · refine ⟨_, hfinal, keeps_migrated_iff.mpr fun tag htag => ?_⟩
        obtain ⟨person, haccount, hperson⟩ := hvisible tag htag
        exact ⟨person, haccount, .inl hperson⟩
  · rw [← keeps_migrated_iff]
    have hfinal := finalDoc_uninterrupted h htyped binding hdoc hvisits hissue
    constructor
    · rintro ⟨doc', hsome, hkeeps⟩
      rwa [Option.some.inj (hsome.symm.trans hfinal)] at hkeeps
    · exact fun hkeeps => ⟨_, hfinal, hkeeps⟩

end Keeping

/-- A mirror with the label of a reviewer, and its branches in the core mixin. -/
def labelledMirror : HulyDoc where
  objectClass := issueClass
  space := "project"
  attrs := [("labels", .arr [.str "tag"])]
  mixins := OrderedMap.empty.set MR_CORE_MIXIN [("sourceBranch", .str "topic")]

def reviewerTag : HulyDoc where
  objectClass := tagElementClass
  space := "project"
  attrs := [("title", .str "gitlab:reviewer:alice")]
  mixins := .empty

def labelledWorld : World :=
  { World.initial with
    idmap := .single ⟨"ws", .merge_request, "7:5", issueClass, "mirror"⟩
    docs := (OrderedMap.empty.set "mirror" labelledMirror).set "tag" reviewerTag }

/-- The reviewer has an account. -/
def aliceEnv : Env :=
  { Env.quiet quietBinding with
    findPersonBySocialKey := fun socialKey =>
      if socialKey = "gitlab:alice" then some "person:alice" else none }

theorem typed_labelled : Typed labelledWorld.docs := by
  have hdocs : ∀ ref doc, labelledWorld.docs.get? ref = some doc →
      doc.objectClass = issueClass → doc = labelledMirror := by
    intro ref doc hdoc hissue
    have hmem := OrderedMap.mem_entries_of_get? hdoc
    have hentries : labelledWorld.docs.entries =
        [("mirror", labelledMirror), ("tag", reviewerTag)] := by decide +kernel
    rw [hentries, List.mem_cons, List.mem_singleton] at hmem
    obtain hmirror | htag := hmem
    · exact congrArg Prod.snd hmirror
    · rw [show doc = reviewerTag from congrArg Prod.snd htag] at hissue
      exact absurd hissue tagElementClass_ne_issueClass
  refine ⟨?_, fun ref doc hdoc hissue => ?_, fun ref doc hdoc hissue => ?_⟩
  · have htags : tagsOf labelledWorld.docs = [("tag", reviewerTag)] := by decide +kernel
    rw [htags]
    intro tag htag
    rw [List.mem_singleton.mp htag]
    exact ⟨_, rfl⟩
  · rw [hdocs ref doc hdoc hissue]
    exact .inr (.inr ⟨_, rfl⟩)
  · rw [hdocs ref doc hdoc hissue]
    exact .inl (by decide)

theorem migrateReviewerLabels_keeps_iff_labelled :
    ((∀ broken, ∃ doc', finalDoc aliceEnv MixinMigration.pausedBinding labelledWorld broken
          "mirror" = some doc' ∧ Keeps aliceEnv (tagsOf labelledWorld.docs) labelledMirror doc') ↔
      ∀ tag ∈ reviewersOn (tagsOf labelledWorld.docs) labelledMirror,
        ∃ person, accountOf aliceEnv tag.2 = some person ∧
          JsValue.str person ∈ visible labelledMirror) ∧
    ((∃ doc', finalDoc aliceEnv MixinMigration.pausedBinding labelledWorld []
          "mirror" = some doc' ∧ Keeps aliceEnv (tagsOf labelledWorld.docs) labelledMirror doc') ↔
      ∀ tag ∈ reviewersOn (tagsOf labelledWorld.docs) labelledMirror,
        ∃ person, accountOf aliceEnv tag.2 = some person ∧
          (JsValue.str person ∈ visible labelledMirror ∨ ¬ IsSplit labelledMirror)) :=
  migrateReviewerLabels_keeps_iff (fun _ _ => rfl) typed_labelled MixinMigration.pausedBinding
    (by decide +kernel) (by decide +kernel) rfl

/-- The label is gone, and its person is in a mixin that is not read. -/
theorem migrateReviewerLabels_loses_alice :
    ¬ ∀ broken, ∃ doc', finalDoc aliceEnv MixinMigration.pausedBinding labelledWorld broken
      "mirror" = some doc' ∧ Keeps aliceEnv (tagsOf labelledWorld.docs) labelledMirror doc' := by
  intro hkeeps
  obtain ⟨doc', hfinal, hdoc'⟩ := hkeeps []
  have hmigrated : finalDoc aliceEnv MixinMigration.pausedBinding labelledWorld [] "mirror" =
      some (migrated aliceEnv (tagsOf labelledWorld.docs) labelledMirror) := by decide +kernel
  obtain rfl := Option.some.inj (hfinal.symm.trans hmigrated)
  obtain ⟨person, -, hperson⟩ := keeps_migrated_iff.mp hdoc' ("tag", "alice") (by decide +kernel)
  have hnone : visible labelledMirror = [] := by decide
  rw [hnone] at hperson
  exact hperson.elim List.not_mem_nil fun hsplit => hsplit (.inl (by decide))

end ReviewerMigration

end HulyGitlab
