import HulyGitlab.Lib.Transition
import HulyGitlab.Sync.MixinMigration

/-!
# What the split of the legacy mixin leaves behind

A complete run replaces each mirror by its split, whatever earlier runs did
before they stopped; the split takes away only what has a place in the split
mixins, or else loses it.
-/

namespace HulyGitlab

namespace HulyDoc

variable (doc : HulyDoc)

theorem mixinAttrs_mergeMixin (mixin : String) (attributes : Fields) :
    (doc.mergeMixin mixin attributes).mixinAttrs mixin =
      ((doc.mixinAttrs mixin).assign attributes).filter fun kv =>
        ¬ (kv.1 ∈ attributes.map Prod.fst ∧ attributes.field kv.1 = .undefined) := by
  rw [mixinAttrs, mergeMixin, OrderedMap.get?_set_self]
  rfl

theorem mixinAttrs_mergeMixin_of_ne {mixin other : String} (h : other ≠ mixin)
    (attributes : Fields) :
    (doc.mergeMixin mixin attributes).mixinAttrs other = doc.mixinAttrs other := by
  rw [mixinAttrs, mergeMixin, OrderedMap.get?_set_of_ne _ h]
  rfl

@[simp] theorem objectClass_mergeMixin (mixin : String) (attributes : Fields) :
    (doc.mergeMixin mixin attributes).objectClass = doc.objectClass := rfl

/-- A mixin with a written attribute is not empty. -/
theorem mergeMixin_ne_nil (mixin : String) {attributes : Fields} {k : String}
    (hk : k ∈ attributes.map Prod.fst) (hdef : attributes.field k ≠ .undefined) :
    (doc.mergeMixin mixin attributes).mixinAttrs mixin ≠ [] := by
  rw [mixinAttrs_mergeMixin]
  have hmem : k ∈ ((doc.mixinAttrs mixin).assign attributes).map Prod.fst :=
    (Fields.mem_keys_assign _ _ _).mpr (.inr hk)
  obtain ⟨kv, hkv, rfl⟩ := List.mem_map.mp hmem
  refine List.ne_nil_of_mem (List.mem_filter.mpr ⟨hkv, ?_⟩)
  exact decide_eq_true fun h => hdef h.2

theorem field_undefined (keys : List String) (k : String) :
    Fields.field (keys.map fun k => (k, JsValue.undefined)) k = .undefined := by
  induction keys with
  | nil => rfl
  | cons j keys ih =>
    rw [List.map_cons, Fields.field_cons, ih, ite_self]

/-- Setting every attribute of a mixin to `undefined` leaves none. -/
theorem mergeMixin_undefined (mixin : String) :
    (doc.mergeMixin mixin (((doc.mixinAttrs mixin).map Prod.fst).map fun k =>
      (k, .undefined))).mixinAttrs mixin = [] := by
  rw [mixinAttrs_mergeMixin]
  have hkeys : (((doc.mixinAttrs mixin).map Prod.fst).map fun k =>
      (k, JsValue.undefined)).map Prod.fst = (doc.mixinAttrs mixin).map Prod.fst := by
    rw [List.map_map]
    exact List.map_id' _
  refine List.filter_eq_nil_iff.mpr fun kv hkv => ?_
  rw [hkeys, field_undefined]
  have hmem : kv.1 ∈ (doc.mixinAttrs mixin).map Prod.fst := by
    have hboth := (Fields.mem_keys_assign _ _ _).mp (List.mem_map_of_mem hkv)
    rwa [hkeys, or_self] at hboth
  simp [hmem]

end HulyDoc

namespace MixinMigration

theorem field_pickFields (src : Fields) (keys : List String) (k : String) :
    (pickFields src keys).field k = if k ∈ keys then src.field k else .undefined := by
  induction keys with
  | nil => rfl
  | cons j keys ih =>
    by_cases hj : src.field j = .undefined
    · have hdrop : pickFields src (j :: keys) = pickFields src keys := by
        simp [pickFields, hj]
      rw [hdrop, ih]
      by_cases hk : k = j
      · rw [hk, hj, ite_self, ite_self]
      · simp [hk]
    · have hkeep : pickFields src (j :: keys) = (j, src.field j) :: pickFields src keys := by
        simp [pickFields, hj]
      rw [hkeep, Fields.field_cons, ih]
      by_cases hk : j = k
      · simp [hk]
      · simp [hk, Ne.symm hk]

/-- What the core mixin needs is missing. -/
theorem missingCore_iff (legacyAttrs : Fields) :
    (CORE_FIELD_KEYS.filter fun k =>
        (pickFields legacyAttrs CORE_FIELD_KEYS).field k = .undefined) ≠ [] ↔
      ¬ ∀ k ∈ CORE_FIELD_KEYS, legacyAttrs.field k ≠ .undefined := by
  rw [ne_eq, not_iff_not, List.filter_eq_nil_iff]
  refine forall₂_congr fun k hk => ?_
  rw [field_pickFields, if_pos hk, decide_eq_true_eq]

theorem mem_keys_marked (attrs : Fields) :
    "_originated" ∈ (withOriginatedMarker attrs).map Prod.fst :=
  (Fields.mem_keys_set _ _ _ _).mpr (.inl rfl)

theorem field_marked (attrs : Fields) :
    (withOriginatedMarker attrs).field "_originated" ≠ .undefined := by
  rw [withOriginatedMarker, Fields.field_set, if_pos rfl]
  exact fun h => by cases h

/-- The legacy mixin has something, and what the core mixin needs is there. -/
def Splits (issue : HulyDoc) : Prop :=
  issue.mixinAttrs MR_MIXIN ≠ [] ∧
    (issue.mixinAttrs MR_CORE_MIXIN ≠ [] ∨
      ∀ k ∈ CORE_FIELD_KEYS, (issue.mixinAttrs MR_MIXIN).field k ≠ .undefined)

instance (issue : HulyDoc) : Decidable (Splits issue) := inferInstanceAs (Decidable (_ ∧ _))

/-- The document after the write of the core mixin. -/
def withCore (issue : HulyDoc) : HulyDoc :=
  if issue.mixinAttrs MR_CORE_MIXIN ≠ [] then issue
  else issue.mergeMixin MR_CORE_MIXIN
    (withOriginatedMarker (pickFields (issue.mixinAttrs MR_MIXIN) CORE_FIELD_KEYS))

/-- The document after the write of the review mixin. -/
def withReview (issue : HulyDoc) : HulyDoc :=
  if issue.mixinAttrs MR_REVIEW_MIXIN_DOC ≠ [] ∨
      pickFields (issue.mixinAttrs MR_MIXIN) REVIEW_FIELD_KEYS = [] then issue
  else issue.mergeMixin MR_REVIEW_MIXIN_DOC
    (withOriginatedMarker (pickFields (issue.mixinAttrs MR_MIXIN) REVIEW_FIELD_KEYS))

/-- The document without its legacy attributes. -/
def withoutLegacy (issue : HulyDoc) : HulyDoc :=
  issue.mergeMixin MR_MIXIN (((issue.mixinAttrs MR_MIXIN).map Prod.fst).map fun k =>
    (k, .undefined))

def split (issue : HulyDoc) : HulyDoc :=
  if Splits issue then withoutLegacy (withReview (withCore issue)) else issue

section Stages

variable (issue : HulyDoc)

theorem mixinAttrs_withCore_of_ne {mixin : String} (h : mixin ≠ MR_CORE_MIXIN) :
    (withCore issue).mixinAttrs mixin = issue.mixinAttrs mixin := by
  rw [withCore]
  split_ifs
  · rfl
  · exact HulyDoc.mixinAttrs_mergeMixin_of_ne _ h _

theorem mixinAttrs_withReview_of_ne {mixin : String} (h : mixin ≠ MR_REVIEW_MIXIN_DOC) :
    (withReview issue).mixinAttrs mixin = issue.mixinAttrs mixin := by
  rw [withReview]
  split_ifs
  · rfl
  · exact HulyDoc.mixinAttrs_mergeMixin_of_ne _ h _

theorem mixinAttrs_withoutLegacy_of_ne {mixin : String} (h : mixin ≠ MR_MIXIN) :
    (withoutLegacy issue).mixinAttrs mixin = issue.mixinAttrs mixin :=
  HulyDoc.mixinAttrs_mergeMixin_of_ne _ h _

theorem mixinAttrs_withoutLegacy : (withoutLegacy issue).mixinAttrs MR_MIXIN = [] :=
  HulyDoc.mergeMixin_undefined issue MR_MIXIN

theorem withCore_ne_nil : (withCore issue).mixinAttrs MR_CORE_MIXIN ≠ [] := by
  by_cases h : issue.mixinAttrs MR_CORE_MIXIN ≠ []
  · rwa [withCore, if_pos h]
  · rw [withCore, if_neg h]
    exact HulyDoc.mergeMixin_ne_nil _ _ (mem_keys_marked _) (field_marked _)

/-- The review mixin is there, or there is nothing for it. -/
theorem withReview_settled :
    (withReview issue).mixinAttrs MR_REVIEW_MIXIN_DOC ≠ [] ∨
      pickFields ((withReview issue).mixinAttrs MR_MIXIN) REVIEW_FIELD_KEYS = [] := by
  rw [mixinAttrs_withReview_of_ne issue (show MR_MIXIN ≠ MR_REVIEW_MIXIN_DOC by decide)]
  by_cases h : issue.mixinAttrs MR_REVIEW_MIXIN_DOC ≠ [] ∨
      pickFields (issue.mixinAttrs MR_MIXIN) REVIEW_FIELD_KEYS = []
  · rwa [withReview, if_pos h]
  · left
    rw [withReview, if_neg h]
    exact HulyDoc.mergeMixin_ne_nil _ _ (mem_keys_marked _) (field_marked _)

theorem withCore_of_ne_nil (h : issue.mixinAttrs MR_CORE_MIXIN ≠ []) : withCore issue = issue :=
  if_pos h

theorem withReview_of_settled (h : issue.mixinAttrs MR_REVIEW_MIXIN_DOC ≠ [] ∨
    pickFields (issue.mixinAttrs MR_MIXIN) REVIEW_FIELD_KEYS = []) : withReview issue = issue :=
  if_pos h

theorem objectClass_withCore : (withCore issue).objectClass = issue.objectClass := by
  rw [withCore]
  split_ifs <;> rfl

theorem objectClass_withReview : (withReview issue).objectClass = issue.objectClass := by
  rw [withReview]
  split_ifs <;> rfl

theorem objectClass_split : (split issue).objectClass = issue.objectClass := by
  rw [split]
  split_ifs
  · exact (objectClass_withReview _).trans (objectClass_withCore _)
  · rfl

variable {issue}

/-- A run that stopped after the core mixin goes on where it was. -/
theorem split_withCore (h : Splits issue) : split (withCore issue) = split issue := by
  have hcore : Splits (withCore issue) := by
    refine ⟨?_, .inl (withCore_ne_nil issue)⟩
    rw [mixinAttrs_withCore_of_ne issue (by decide)]
    exact h.1
  rw [split, if_pos hcore, split, if_pos h, withCore_of_ne_nil _ (withCore_ne_nil issue)]

/-- A run that stopped after the review mixin goes on where it was. -/
theorem split_withReview (h : Splits issue) :
    split (withReview (withCore issue)) = split issue := by
  have hcore : (withReview (withCore issue)).mixinAttrs MR_CORE_MIXIN ≠ [] := by
    rw [mixinAttrs_withReview_of_ne _ (by decide)]
    exact withCore_ne_nil issue
  have hboth : Splits (withReview (withCore issue)) := by
    refine ⟨?_, .inl hcore⟩
    rw [mixinAttrs_withReview_of_ne _ (by decide), mixinAttrs_withCore_of_ne issue (by decide)]
    exact h.1
  rw [split, if_pos hboth, split, if_pos h, withCore_of_ne_nil _ hcore,
    withReview_of_settled _ (withReview_settled _)]

variable (issue)

theorem split_split : split (split issue) = split issue := by
  by_cases h : Splits issue
  · have hdone : ¬ Splits (split issue) := by
      rw [split, if_pos h]
      exact fun hsplits => hsplits.1 (mixinAttrs_withoutLegacy _)
    rw [split, if_neg hdone]
  · have hsame : split issue = issue := if_neg h
    rw [hsame, hsame]

end Stages

/-- A row whose document the migration looks at. -/
def Visits (entries : List IdMapDoc) (ref : Ref) : Prop :=
  ∃ entry ∈ entries, entry.hulyClass = issueClass ∧ entry.hulyRef = ref

instance (entries : List IdMapDoc) (ref : Ref) : Decidable (Visits entries ref) :=
  inferInstanceAs (Decidable (∃ entry ∈ entries, _))

def mirrorsOf (binding : BindingDoc) (idmap : IdMap) : List IdMapDoc :=
  idmap.rows.filter (isMirrorOf binding)

/-- The documents when `f` is applied to those of the rows. -/
def mapMirrors (f : HulyDoc → HulyDoc) (entries : List IdMapDoc) (docs : OrderedMap Ref HulyDoc) :
    OrderedMap Ref HulyDoc :=
  docs.mapEntries fun ref doc =>
    if Visits entries ref ∧ doc.objectClass = issueClass then f doc else doc

section MapMirrors

variable (f : HulyDoc → HulyDoc)

theorem get?_mapMirrors (entries : List IdMapDoc) (docs : OrderedMap Ref HulyDoc) (ref : Ref) :
    (mapMirrors f entries docs).get? ref = (docs.get? ref).map fun doc =>
      if Visits entries ref ∧ doc.objectClass = issueClass then f doc else doc :=
  OrderedMap.get?_mapEntries _ _ _

theorem mapMirrors_nil (docs : OrderedMap Ref HulyDoc) : mapMirrors f [] docs = docs := by
  refine OrderedMap.mapEntries_of_forall fun ref doc _ => if_neg fun h => ?_
  obtain ⟨⟨entry, hentry, -⟩, -⟩ := h
  exact List.not_mem_nil hentry

theorem visits_singleton (entry : IdMapDoc) (ref : Ref) :
    Visits [entry] ref ↔ entry.hulyClass = issueClass ∧ entry.hulyRef = ref := by
  simp only [Visits, List.mem_singleton, exists_eq_left]

/-- A row without an issue changes nothing. -/
theorem mapMirrors_singleton_of_not {entry : IdMapDoc} {docs : OrderedMap Ref HulyDoc}
    (hnone : ∀ doc, docs.get? entry.hulyRef = some doc →
      ¬ (entry.hulyClass = issueClass ∧ doc.objectClass = issueClass)) :
    mapMirrors f [entry] docs = docs := by
  refine OrderedMap.mapEntries_of_forall fun ref doc hdoc => if_neg fun hv => ?_
  obtain ⟨hclass, rfl⟩ := (visits_singleton entry ref).mp hv.1
  exact hnone doc hdoc ⟨hclass, hv.2⟩

/-- A row with an issue changes that one. -/
theorem mapMirrors_singleton {entry : IdMapDoc} {docs : OrderedMap Ref HulyDoc} {doc : HulyDoc}
    (hclass : entry.hulyClass = issueClass) (hdoc : docs.get? entry.hulyRef = some doc)
    (hissue : doc.objectClass = issueClass) :
    mapMirrors f [entry] docs = docs.set entry.hulyRef (f doc) := by
  rw [OrderedMap.set_eq_mapEntries hdoc]
  refine OrderedMap.mapEntries_congr fun ref d hd => ?_
  by_cases href : ref = entry.hulyRef
  · subst href
    obtain rfl : d = doc := Option.some.inj (hd.symm.trans hdoc)
    rw [if_pos rfl, if_pos ⟨(visits_singleton _ _).mpr ⟨hclass, rfl⟩, hissue⟩]
  · rw [if_neg href, if_neg fun hv => href ((visits_singleton _ _).mp hv.1).2.symm]

variable {f}

/-- Rows may be visited one after the other, and more than once. -/
theorem mapMirrors_append (hclass : ∀ doc, (f doc).objectClass = doc.objectClass)
    (htwice : ∀ doc, f (f doc) = f doc) (entries more : List IdMapDoc)
    (docs : OrderedMap Ref HulyDoc) :
    mapMirrors f more (mapMirrors f entries docs) = mapMirrors f (entries ++ more) docs := by
  rw [mapMirrors, mapMirrors, OrderedMap.mapEntries_mapEntries]
  refine OrderedMap.mapEntries_congr fun ref doc _ => ?_
  have hvisits : Visits (entries ++ more) ref ↔ Visits entries ref ∨ Visits more ref := by
    simp only [Visits, List.mem_append, or_and_right, exists_or]
  by_cases hissue : doc.objectClass = issueClass
  · by_cases hfirst : Visits entries ref
    · have hboth : Visits (entries ++ more) ref := hvisits.mpr (.inl hfirst)
      simp only [hfirst, hboth, hissue, and_true, if_true, hclass, htwice, ite_self]
    · have hsame : Visits (entries ++ more) ref ↔ Visits more ref :=
        hvisits.trans (or_iff_right hfirst)
      simp only [hfirst, hsame, false_and, if_false]
  · simp only [hissue, and_false, if_false]

end MapMirrors

/-- The documents when those of the rows are split. -/
def splitDocs (entries : List IdMapDoc) (docs : OrderedMap Ref HulyDoc) : OrderedMap Ref HulyDoc :=
  docs.mapEntries fun ref doc =>
    if Visits entries ref ∧ doc.objectClass = issueClass then split doc else doc

def splitWorld (binding : BindingDoc) (w : World) : World :=
  { w with docs := splitDocs (mirrorsOf binding w.idmap) w.docs }

theorem get?_splitDocs (entries : List IdMapDoc) (docs : OrderedMap Ref HulyDoc) (ref : Ref) :
    (splitDocs entries docs).get? ref = (docs.get? ref).map fun doc =>
      if Visits entries ref ∧ doc.objectClass = issueClass then split doc else doc :=
  get?_mapMirrors split entries docs ref

theorem splitDocs_nil (docs : OrderedMap Ref HulyDoc) : splitDocs [] docs = docs :=
  mapMirrors_nil split docs

theorem splitDocs_append (entries more : List IdMapDoc) (docs : OrderedMap Ref HulyDoc) :
    splitDocs more (splitDocs entries docs) = splitDocs (entries ++ more) docs :=
  mapMirrors_append objectClass_split split_split entries more docs

theorem splitWorld_splitWorld (binding : BindingDoc) (w : World) :
    splitWorld binding (splitWorld binding w) = splitWorld binding w := by
  have hdocs : splitDocs (mirrorsOf binding w.idmap) (splitDocs (mirrorsOf binding w.idmap) w.docs)
      = splitDocs (mirrorsOf binding w.idmap) w.docs := by
    rw [splitDocs_append]
    refine OrderedMap.mapEntries_congr fun ref doc _ => ?_
    have hvisits : Visits (mirrorsOf binding w.idmap ++ mirrorsOf binding w.idmap) ref ↔
        Visits (mirrorsOf binding w.idmap) ref := by
      simp only [Visits, List.mem_append, or_self]
    simp only [hvisits]
  exact congrArg (fun docs => { w with docs := docs }) hdocs

section Complete

variable {env : Env} (h : env.Healthy)
include h

theorem writeMixin_run {ref : Ref} {doc : HulyDoc} (mixin : String) (attributes : Fields)
    {w : World} (hdoc : w.docs.get? ref = some doc) :
    (writeMixin env ref mixin attributes).toEffect.run w =
      (.ok (), { w with docs := w.docs.set ref (doc.mergeMixin mixin attributes) }) :=
  Sync.mergeMixin_run h mixin attributes hdoc

theorem stripLegacy_run {issueRef : Ref} {doc : HulyDoc} (result : MixinSplitMigrationResult)
    {w : World} (hdoc : w.docs.get? issueRef = some doc) :
    ∃ result', (stripLegacy env issueRef (doc.mixinAttrs MR_MIXIN) result).toEffect.run w =
      (.ok result', { w with docs := w.docs.set issueRef (withoutLegacy doc) }) := by
  rw [stripLegacy, Coroutine.toEffect_bind, Effect.bind_of_ok (writeMixin_run h _ _ hdoc),
    Coroutine.toEffect_bind, Async.toEffect_findOne, Effect.bind_of_ok (Sync.findOne_run h _ _ _)]
  exact ⟨_, rfl⟩

theorem splitReview_run {issueRef : Ref} {doc : HulyDoc} (result : MixinSplitMigrationResult)
    {w : World} (hdoc : w.docs.get? issueRef = some doc) :
    ∃ result', (splitReview env issueRef (doc.mixinAttrs MR_REVIEW_MIXIN_DOC)
        (doc.mixinAttrs MR_MIXIN) result).toEffect.run w =
      (.ok result', { w with docs := w.docs.set issueRef (withoutLegacy (withReview doc)) }) := by
  rw [splitReview]
  by_cases hsettled : doc.mixinAttrs MR_REVIEW_MIXIN_DOC ≠ [] ∨
      pickFields (doc.mixinAttrs MR_MIXIN) REVIEW_FIELD_KEYS = []
  · rw [if_pos hsettled, withReview_of_settled doc hsettled]
    exact stripLegacy_run h result hdoc
  · have hreview : withReview doc = doc.mergeMixin MR_REVIEW_MIXIN_DOC
        (withOriginatedMarker (pickFields (doc.mixinAttrs MR_MIXIN) REVIEW_FIELD_KEYS)) :=
      if_neg hsettled
    have hlegacy := mixinAttrs_withReview_of_ne doc (show MR_MIXIN ≠ MR_REVIEW_MIXIN_DOC by decide)
    let w₁ : World := { w with docs := w.docs.set issueRef (withReview doc) }
    have hdoc₁ : w₁.docs.get? issueRef = some (withReview doc) := OrderedMap.get?_set_self _ _ _
    rw [if_neg hsettled, Coroutine.toEffect_bind,
      Effect.bind_of_ok (writeMixin_run h _ _ hdoc), ← hreview, ← hlegacy]
    obtain ⟨result', hrun⟩ := stripLegacy_run h
      { result with reviewWritten := result.reviewWritten + 1 } hdoc₁
    refine ⟨result', hrun.trans ?_⟩
    rw [OrderedMap.set_set hdoc]

theorem migrateIssue_run {issueRef : Ref} {doc : HulyDoc} (result : MixinSplitMigrationResult)
    {w : World} (hdoc : w.docs.get? issueRef = some doc) :
    ∃ result', (migrateIssue env issueRef doc result).toEffect.run w =
      (.ok result', { w with docs := w.docs.set issueRef (split doc) }) := by
  have hkept : split doc = doc →
      (⟨w.idmap, w.cursors, w.docs.set issueRef (split doc), w.statusCache, w.requests, w.enqueued,
        w.lookups, w.now⟩ : World) = w := fun hsame => by
    rw [hsame, OrderedMap.set_of_get? hdoc]
  rw [migrateIssue]
  by_cases hlegacy : doc.mixinAttrs MR_MIXIN = []
  · rw [if_pos hlegacy, hkept (if_neg fun hs => hs.1 hlegacy)]
    exact ⟨_, rfl⟩
  · rw [if_neg hlegacy]
    by_cases hcore : doc.mixinAttrs MR_CORE_MIXIN ≠ []
    · have hsplit : split doc = withoutLegacy (withReview doc) := by
        rw [split, if_pos ⟨hlegacy, .inl hcore⟩, withCore_of_ne_nil doc hcore]
      rw [if_pos hcore, hsplit]
      exact splitReview_run h result hdoc
    · rw [if_neg hcore]
      by_cases hall : ∀ k ∈ CORE_FIELD_KEYS, (doc.mixinAttrs MR_MIXIN).field k ≠ .undefined
      · have hwith : withCore doc = doc.mergeMixin MR_CORE_MIXIN
            (withOriginatedMarker (pickFields (doc.mixinAttrs MR_MIXIN) CORE_FIELD_KEYS)) :=
          if_neg hcore
        have hsplit : split doc = withoutLegacy (withReview (withCore doc)) := by
          rw [split, if_pos ⟨hlegacy, .inr hall⟩]
        let w₁ : World := { w with docs := w.docs.set issueRef (withCore doc) }
        have hdoc₁ : w₁.docs.get? issueRef = some (withCore doc) :=
          OrderedMap.get?_set_self _ _ _
        dsimp only
        rw [if_neg fun hmissing => (missingCore_iff _).mp hmissing hall, Coroutine.toEffect_bind,
          Effect.bind_of_ok (writeMixin_run h _ _ hdoc), ← hwith,
          ← mixinAttrs_withCore_of_ne doc (show MR_MIXIN ≠ MR_CORE_MIXIN by decide),
          ← mixinAttrs_withCore_of_ne doc (show MR_REVIEW_MIXIN_DOC ≠ MR_CORE_MIXIN by decide)]
        obtain ⟨result', hrun⟩ := splitReview_run h
          { result with coreWritten := result.coreWritten + 1 } hdoc₁
        refine ⟨result', hrun.trans ?_⟩
        rw [hsplit, OrderedMap.set_set hdoc]
      · have hnot : ¬ Splits doc := fun hs => hs.2.elim hcore hall
        dsimp only
        rw [if_pos ((missingCore_iff _).mpr hall), hkept (if_neg hnot)]
        exact ⟨_, rfl⟩

/-- A row is visited: its document is split. -/
theorem migrateEntry_run (entry : IdMapDoc) (result : MixinSplitMigrationResult) (w : World) :
    ∃ result', (migrateEntry env entry result).toEffect.run w =
      (.ok result', { w with docs := splitDocs [entry] w.docs }) := by
  have hkept : (∀ doc, w.docs.get? entry.hulyRef = some doc →
        ¬ (entry.hulyClass = issueClass ∧ doc.objectClass = issueClass)) →
      splitDocs [entry] w.docs = w.docs := mapMirrors_singleton_of_not split
  rw [migrateEntry]
  by_cases hclass : entry.hulyClass = issueClass
  · rw [if_neg (not_not_intro hclass), Coroutine.toEffect_bind, Async.toEffect_findOne,
      Effect.bind_of_ok (Sync.findOne_run h _ _ _)]
    cases hfound : (w.docs.get? entry.hulyRef).filter fun doc => doc.objectClass = issueClass with
    | none =>
      rw [hkept]
      · exact ⟨_, rfl⟩
      · intro doc hdoc hboth
        have hsome : (w.docs.get? entry.hulyRef).filter (fun d => d.objectClass = issueClass) =
            some doc := Option.filter_eq_some_iff.mpr ⟨hdoc, decide_eq_true hboth.2⟩
        exact absurd (hfound.symm.trans hsome) (Option.some_ne_none _).symm
    | some doc =>
      obtain ⟨hdoc, hdocClass⟩ := Option.filter_eq_some_iff.mp hfound
      obtain ⟨result', hrun⟩ := migrateIssue_run h
        { result with mrsScanned := result.mrsScanned + 1 } hdoc
      have hdocs : splitDocs [entry] w.docs = w.docs.set entry.hulyRef (split doc) :=
        mapMirrors_singleton split hclass hdoc (of_decide_eq_true hdocClass)
      rw [hdocs]
      exact ⟨result', hrun⟩
  · rw [if_pos hclass, hkept fun _ _ hboth => hclass hboth.1]
    exact ⟨_, rfl⟩

theorem migrateEntries_run (entries : List IdMapDoc) (result : MixinSplitMigrationResult)
    (w : World) :
    ∃ result', (migrateEntries env result entries).toEffect.run w =
      (.ok result', { w with docs := splitDocs entries w.docs }) := by
  induction entries generalizing result w with
  | nil =>
    rw [splitDocs_nil]
    exact ⟨_, rfl⟩
  | cons entry entries ih =>
    obtain ⟨result₁, hrun₁⟩ := migrateEntry_run h entry result w
    obtain ⟨result₂, hrun₂⟩ := ih result₁ { w with docs := splitDocs [entry] w.docs }
    rw [migrateEntries, Coroutine.toEffect_bind, Effect.bind_of_ok hrun₁, hrun₂]
    dsimp only
    rw [splitDocs_append]
    exact ⟨result₂, rfl⟩

/-- A complete run. -/
theorem migrateMixinSplit_run {drain : Drain} (hready : drain.Ready) (binding : BindingDoc)
    (w : World) :
    ∃ result', (migrateMixinSplit env drain binding).toEffect.run w =
      (.ok result', splitWorld binding w) := by
  have hfind : (findMirrors env binding).run w = (.ok (mirrorsOf binding w.idmap), w) := by
    simp [findMirrors, Effect.bind_run, Sync.reach_run h, mirrorsOf]
  have hdrained : ¬ waitForBackfillDrain drain = false := by
    rw [hready.1]
    exact Bool.noConfusion
  rw [migrateMixinSplit, Coroutine.toEffect_bind, Async.toEffect_now, Effect.gets_bind_run]
  dsimp only
  rw [if_neg hdrained, if_neg (not_not_intro hready.2), Coroutine.toEffect_bind,
    Coroutine.toEffect_call, Effect.bind_of_ok hfind]
  exact migrateEntries_run h _ _ w

end Complete

/-- What a run that stops has done so far leads to the same end. -/
structure Toward (binding : BindingDoc) (w w' : World) : Prop where
  finish : splitWorld binding w' = splitWorld binding w
  idmap : w'.idmap = w.idmap

namespace Toward

variable {binding : BindingDoc} {w w₁ w₂ : World}

theorem refl (binding : BindingDoc) (w : World) : Toward binding w w := ⟨rfl, rfl⟩

theorem trans (h : Toward binding w w₁) (h' : Toward binding w₁ w₂) : Toward binding w w₂ :=
  ⟨h'.finish.trans h.finish, h'.idmap.trans h.idmap⟩

/-- A write that does not change the split of its document. -/
theorem set {ref : Ref} {doc doc' : HulyDoc} (hdoc : w.docs.get? ref = some doc)
    (hclass : doc'.objectClass = doc.objectClass) (hsplit : split doc' = split doc)
    (hvisits : Visits (mirrorsOf binding w.idmap) ref) (hissue : doc.objectClass = issueClass) :
    Toward binding w { w with docs := w.docs.set ref doc' } := by
  refine ⟨?_, rfl⟩
  have hdocs : splitDocs (mirrorsOf binding w.idmap) (w.docs.set ref doc') =
      splitDocs (mirrorsOf binding w.idmap) w.docs := by
    refine OrderedMap.mapEntries_set hdoc ?_
    rw [if_pos ⟨hvisits, hclass.trans hissue⟩, if_pos ⟨hvisits, hissue⟩, hsplit]
  exact congrArg (fun docs => { w with docs := docs }) hdocs

end Toward

/-- How a run is broken off: what it found out, which calls fail, and the call it stops before. -/
structure Interruption where
  drain : Drain
  fault : World → Service → Option Err
  calls : Nat

/-- The state after a run that is broken off. -/
def interrupted (env : Env) (binding : BindingDoc) (w : World) (i : Interruption) : World :=
  (migrateMixinSplit { env with fault := i.fault } i.drain binding).stopped i.calls w

section Stopped

variable (env : Env) {binding : BindingDoc} {w : World}

open Coroutine

/-- A write happens or does not, and the rest goes on after it. -/
theorem leaves_writeMixin_bind {A : Type} {Q : World → Prop} {ref : Ref} {doc : HulyDoc}
    {mixin : String} {attributes : Fields} {f : Unit → Async A} (hw : Q w)
    (hdoc : w.docs.get? ref = some doc)
    (hf : Leaves Q (f ()) { w with docs := w.docs.set ref (doc.mergeMixin mixin attributes) }) :
    Leaves Q (writeMixin env ref mixin attributes >>= f) w := by
  obtain ⟨e, hrun⟩ | hrun := Sync.mergeMixin_cases env mixin attributes hdoc
  · refine Leaves.bind (Leaves.call hw (by rw [hrun]; exact hw)) fun a w' hok => ?_
    rw [writeMixin, toEffect_call, hrun] at hok
    cases hok
  · refine Leaves.bind (Leaves.call hw (by rw [hrun]; exact hf.first)) fun a w' hok => ?_
    rw [writeMixin, toEffect_call, hrun] at hok
    cases hok
    exact hf

theorem leaves_findOne_bind {A : Type} {Q : World → Prop} {ref : Ref}
    {f : Option HulyDoc → Async A} (hw : Q w)
    (hf : Leaves Q (f ((w.docs.get? ref).filter fun doc => doc.objectClass = issueClass)) w) :
    Leaves Q (Async.findOne env issueClass ref >>= f) w := by
  obtain ⟨e, hrun⟩ | hrun := Sync.findOne_cases env issueClass ref w
  · refine Leaves.bind (Leaves.call hw (by rw [hrun]; exact hw)) fun a w' hok => ?_
    rw [Async.toEffect_findOne, hrun] at hok
    cases hok
  · refine Leaves.bind (Leaves.call hw (by rw [hrun]; exact hw)) fun a w' hok => ?_
    rw [Async.toEffect_findOne, hrun] at hok
    cases hok
    exact hf

variable {issueRef : Ref} {doc : HulyDoc}

theorem leaves_stripLegacy (result : MixinSplitMigrationResult)
    (hdoc : w.docs.get? issueRef = some doc) {Q : World → Prop} (hw : Q w)
    (hstrip : Q { w with docs := w.docs.set issueRef (withoutLegacy doc) }) :
    Leaves Q (stripLegacy env issueRef (doc.mixinAttrs MR_MIXIN) result) w :=
  leaves_writeMixin_bind env hw hdoc
    (leaves_findOne_bind env hstrip (Leaves.pure hstrip))

theorem leaves_splitReview (result : MixinSplitMigrationResult)
    (hdoc : w.docs.get? issueRef = some doc) {Q : World → Prop} (hw : Q w)
    (hreview : Q { w with docs := w.docs.set issueRef (withReview doc) })
    (hstrip : Q { w with docs := w.docs.set issueRef (withoutLegacy (withReview doc)) }) :
    Leaves Q (splitReview env issueRef (doc.mixinAttrs MR_REVIEW_MIXIN_DOC)
      (doc.mixinAttrs MR_MIXIN) result) w := by
  rw [splitReview]
  refine Leaves.ite (fun hsettled => ?_) fun hsettled => ?_
  · rw [withReview_of_settled doc hsettled] at hstrip
    exact leaves_stripLegacy env result hdoc hw hstrip
  · have hwith : withReview doc = doc.mergeMixin MR_REVIEW_MIXIN_DOC
        (withOriginatedMarker (pickFields (doc.mixinAttrs MR_MIXIN) REVIEW_FIELD_KEYS)) :=
      if_neg hsettled
    let w₁ : World := { w with docs := w.docs.set issueRef (withReview doc) }
    have hdoc₁ : w₁.docs.get? issueRef = some (withReview doc) := OrderedMap.get?_set_self _ _ _
    have hlast : Q { w₁ with docs := w₁.docs.set issueRef (withoutLegacy (withReview doc)) } := by
      rw [show w₁.docs = w.docs.set issueRef (withReview doc) from rfl, OrderedMap.set_set hdoc]
      exact hstrip
    refine leaves_writeMixin_bind env hw hdoc ?_
    rw [← hwith, ← mixinAttrs_withReview_of_ne doc (show MR_MIXIN ≠ MR_REVIEW_MIXIN_DOC by decide)]
    exact leaves_stripLegacy env _ hdoc₁ hreview hlast

theorem leaves_migrateIssue (result : MixinSplitMigrationResult)
    (hdoc : w.docs.get? issueRef = some doc) {Q : World → Prop} (hw : Q w)
    (hstages : Splits doc → Q { w with docs := w.docs.set issueRef (withCore doc) } ∧
      Q { w with docs := w.docs.set issueRef (withReview (withCore doc)) } ∧
      Q { w with docs := w.docs.set issueRef (split doc) }) :
    Leaves Q (migrateIssue env issueRef doc result) w := by
  rw [migrateIssue]
  refine Leaves.ite (fun _ => Leaves.pure hw) fun hlegacy => ?_
  refine Leaves.ite (fun hcore => ?_) fun hcore => ?_
  · have hsplits : Splits doc := ⟨hlegacy, .inl hcore⟩
    obtain ⟨-, hreview, hstrip⟩ := hstages hsplits
    rw [withCore_of_ne_nil doc hcore] at hreview
    rw [split, if_pos hsplits, withCore_of_ne_nil doc hcore] at hstrip
    exact leaves_splitReview env result hdoc hw hreview hstrip
  · refine Leaves.ite (fun _ => Leaves.pure hw) fun hall => ?_
    have hsplits : Splits doc := ⟨hlegacy, .inr (not_not.mp fun hmissing =>
      hall ((missingCore_iff _).mpr hmissing))⟩
    obtain ⟨hfirst, hreview, hstrip⟩ := hstages hsplits
    rw [split, if_pos hsplits] at hstrip
    have hwith : withCore doc = doc.mergeMixin MR_CORE_MIXIN
        (withOriginatedMarker (pickFields (doc.mixinAttrs MR_MIXIN) CORE_FIELD_KEYS)) :=
      if_neg hcore
    let w₁ : World := { w with docs := w.docs.set issueRef (withCore doc) }
    have hdoc₁ : w₁.docs.get? issueRef = some (withCore doc) := OrderedMap.get?_set_self _ _ _
    have hset : ∀ d, w₁.docs.set issueRef d = w.docs.set issueRef d :=
      fun d => OrderedMap.set_set hdoc _ d
    refine leaves_writeMixin_bind env hw hdoc ?_
    rw [← hwith, ← mixinAttrs_withCore_of_ne doc (show MR_MIXIN ≠ MR_CORE_MIXIN by decide),
      ← mixinAttrs_withCore_of_ne doc (show MR_REVIEW_MIXIN_DOC ≠ MR_CORE_MIXIN by decide)]
    refine leaves_splitReview env _ hdoc₁ hfirst ?_ ?_
    · rw [hset]
      exact hreview
    · rw [hset]
      exact hstrip

theorem leaves_migrateEntry {entry : IdMapDoc} (hentry : entry ∈ mirrorsOf binding w.idmap)
    (result : MixinSplitMigrationResult) :
    Leaves (Toward binding w) (migrateEntry env entry result) w := by
  rw [migrateEntry]
  refine Leaves.ite (fun _ => Leaves.pure (Toward.refl binding w)) fun hclass => ?_
  refine leaves_findOne_bind env (Toward.refl binding w) ?_
  cases hfound : (w.docs.get? entry.hulyRef).filter fun doc => doc.objectClass = issueClass with
  | none => exact Leaves.pure (Toward.refl binding w)
  | some doc =>
    obtain ⟨hdoc, hissue⟩ := Option.filter_eq_some_iff.mp hfound
    have hvisits : Visits (mirrorsOf binding w.idmap) entry.hulyRef :=
      ⟨entry, hentry, not_not.mp hclass, rfl⟩
    refine leaves_migrateIssue env _ hdoc (Toward.refl binding w) fun hsplits => ⟨?_, ?_, ?_⟩
    · exact Toward.set hdoc (objectClass_withCore doc) (split_withCore hsplits) hvisits
        (of_decide_eq_true hissue)
    · exact Toward.set hdoc ((objectClass_withReview _).trans (objectClass_withCore doc))
        (split_withReview hsplits) hvisits (of_decide_eq_true hissue)
    · exact Toward.set hdoc (objectClass_split doc) (split_split doc) hvisits
        (of_decide_eq_true hissue)

theorem leaves_migrateEntries {w₀ : World} {entries : List IdMapDoc} (hw : Toward binding w₀ w)
    (hentries : entries ⊆ mirrorsOf binding w₀.idmap) (result : MixinSplitMigrationResult) :
    Leaves (Toward binding w₀) (migrateEntries env result entries) w := by
  induction entries generalizing w result with
  | nil => exact Leaves.pure hw
  | cons entry entries ih =>
    have hentry : entry ∈ mirrorsOf binding w.idmap := by
      rw [hw.idmap]
      exact hentries List.mem_cons_self
    have hfirst : Leaves (Toward binding w₀) (migrateEntry env entry result) w :=
      (leaves_migrateEntry env hentry result).mono fun w' hw' => hw.trans hw'
    refine Leaves.bind hfirst fun result' w' hrun => ?_
    have hw' : Toward binding w₀ w' := by
      have hlast := hfirst.last
      rwa [hrun] at hlast
    exact ih hw' (List.subset_of_cons_subset hentries) result'

/-- Wherever a run stops, another one can finish what it began. -/
theorem leaves_migrateMixinSplit (drain : Drain) (binding : BindingDoc) (w : World) :
    Leaves (Toward binding w) (migrateMixinSplit env drain binding) w := by
  have hw := Toward.refl binding w
  refine Leaves.bind (Leaves.call hw hw) fun now w' hread => ?_
  obtain rfl : w = w' := congrArg Prod.snd hread
  refine Leaves.ite (fun _ => Leaves.pure hw) fun _ => ?_
  refine Leaves.ite (fun _ => Leaves.pure hw) fun _ => ?_
  have hfind : (∃ e, (findMirrors env binding).run w = (.error e, w)) ∨
      (findMirrors env binding).run w = (.ok (mirrorsOf binding w.idmap), w) :=
    Sync.reach_bind_cases env .idmap _ w
  obtain ⟨e, hrun⟩ | hrun := hfind
  · refine Leaves.bind (Leaves.call hw (by rw [hrun]; exact hw)) fun mrEntries w' hok => ?_
    rw [toEffect_call, hrun] at hok
    cases hok
  · refine Leaves.bind (Leaves.call hw (by rw [hrun]; exact hw)) fun mrEntries w' hok => ?_
    rw [toEffect_call, hrun] at hok
    cases hok
    exact leaves_migrateEntries env hw (List.Subset.refl _) _

/-- However often runs are broken off, a complete one ends where a single complete one does, and
one more changes nothing. -/
theorem migrateMixinSplit_restartable (h : env.Healthy) {drain : Drain} (hready : drain.Ready)
    (binding : BindingDoc) (w : World) (broken : List Interruption) :
    ((migrateMixinSplit env drain binding).toEffect.run
        (Transition.exec (interrupted env binding) w broken)).2 =
      ((migrateMixinSplit env drain binding).toEffect.run w).2 ∧
    ((migrateMixinSplit env drain binding).toEffect.run
        ((migrateMixinSplit env drain binding).toEffect.run w).2).2 =
      ((migrateMixinSplit env drain binding).toEffect.run w).2 := by
  have hcomplete : ∀ w, ((migrateMixinSplit env drain binding).toEffect.run w).2 =
      splitWorld binding w := fun w => by
    obtain ⟨result, hrun⟩ := migrateMixinSplit_run h hready binding w
    rw [hrun]
  have hbroken : Toward binding w (Transition.exec (interrupted env binding) w broken) := by
    refine Transition.exec_invariant' (fun w₁ i hw₁ => ?_) (Toward.refl binding w) broken
    exact hw₁.trans (leaves_migrateMixinSplit { env with fault := i.fault } i.drain binding w₁
      i.calls)
  rw [hcomplete, hcomplete, hcomplete]
  exact ⟨hbroken.finish, splitWorld_splitWorld binding w⟩

end Stopped

/-- A paused binding without a backfill. -/
def pausedBinding : BindingDoc := ⟨"ws", "project", 7, "group/project", "cred", true⟩

def drained : Drain := ⟨1000, 0, [⟨0, false⟩], false, some pausedBinding⟩

/-- A merge request that has been split, with a pipeline status that came later. -/
def pipelinedMirror : HulyDoc where
  objectClass := issueClass
  space := "project"
  attrs := []
  mixins := (OrderedMap.empty.set MR_CORE_MIXIN [("sourceBranch", .str "topic")]).set MR_MIXIN
    [("pipelineStatus", .str "success")]

def pipelinedWorld : World :=
  { World.initial with
    idmap := .single ⟨"ws", .merge_request, "7:5", issueClass, "mirror"⟩
    docs := OrderedMap.empty.set "mirror" pipelinedMirror }

/-- Broken off before and after the clearing write. -/
def brokenOff : List Interruption := [⟨drained, fun _ _ => none, 3⟩, ⟨drained, fun _ _ => none, 4⟩]

theorem migrateMixinSplit_restartable_pipelined :
    ((migrateMixinSplit (Env.quiet quietBinding) drained pausedBinding).toEffect.run
        (Transition.exec (interrupted (Env.quiet quietBinding) pausedBinding) pipelinedWorld
          brokenOff)).2 =
      ((migrateMixinSplit (Env.quiet quietBinding) drained pausedBinding).toEffect.run
        pipelinedWorld).2 ∧
    ((migrateMixinSplit (Env.quiet quietBinding) drained pausedBinding).toEffect.run
        ((migrateMixinSplit (Env.quiet quietBinding) drained pausedBinding).toEffect.run
          pipelinedWorld).2).2 =
      ((migrateMixinSplit (Env.quiet quietBinding) drained pausedBinding).toEffect.run
        pipelinedWorld).2 :=
  migrateMixinSplit_restartable (Env.quiet quietBinding) (Env.quiet_healthy _) (by decide)
    pausedBinding pipelinedWorld brokenOff

end MixinMigration

end HulyGitlab
