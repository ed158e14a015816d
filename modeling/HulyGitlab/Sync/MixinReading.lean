import HulyGitlab.Sync.MixinSplit

/-!
# What can still be read after the split

The split decides once a mixin whether it copies, and clears the whole legacy
mixin afterwards. A field is read from the split mixins only.
-/

namespace HulyGitlab

/-- What the platform stores of an object: no key twice, and nothing that is `undefined`. -/
structure Stored (attrs : Fields) : Prop where
  nodup : (attrs.map Prod.fst).Nodup
  defined : ∀ kv ∈ attrs, kv.2 ≠ .undefined

theorem stored_nil : Stored [] := ⟨List.nodup_nil, fun _ h => absurd h List.not_mem_nil⟩

theorem Stored.mem_keys_iff {attrs : Fields} (h : Stored attrs) (k : String) :
    k ∈ attrs.map Prod.fst ↔ attrs.field k ≠ .undefined := by
  constructor
  · intro hk
    obtain ⟨kv, hkv, rfl⟩ := List.mem_map.mp hk
    rw [Fields.field_of_mem h.nodup hkv]
    exact h.defined kv hkv
  · intro hdef
    by_contra hk
    exact hdef (Fields.field_of_not_mem hk)

/-- A stored object hides exactly the properties it has. -/
theorem Stored.field_assign {attrs : Fields} (h : Stored attrs) (fs : Fields) (k : String) :
    (fs.assign attrs).field k =
      if attrs.field k = .undefined then fs.field k else attrs.field k := by
  by_cases hk : k ∈ attrs.map Prod.fst
  · rw [Fields.field_assign_of_mem _ _ hk h.nodup, if_neg ((h.mem_keys_iff k).mp hk)]
  · rw [Fields.field_assign_of_not_mem _ _ hk, if_pos (Fields.field_of_not_mem hk)]

namespace HulyDoc

variable (doc : HulyDoc)

theorem field_mergeMixin (mixin : String) {attributes : Fields}
    (h : (attributes.map Prod.fst).Nodup) (k : String) :
    ((doc.mergeMixin mixin attributes).mixinAttrs mixin).field k =
      if k ∈ attributes.map Prod.fst then attributes.field k
      else (doc.mixinAttrs mixin).field k := by
  rw [mixinAttrs_mergeMixin, Fields.field_filter_keys _ fun k =>
    ¬ (k ∈ attributes.map Prod.fst ∧ attributes.field k = .undefined)]
  by_cases hk : k ∈ attributes.map Prod.fst
  · rw [Fields.field_assign_of_mem _ _ hk h, if_pos hk]
    by_cases hdef : attributes.field k = .undefined
    · rw [if_neg (not_not_intro ⟨hk, hdef⟩), hdef]
    · rw [if_pos fun hboth => hdef hboth.2]
  · rw [Fields.field_assign_of_not_mem _ _ hk, if_pos fun hboth => hk hboth.1, if_neg hk]

theorem stored_mergeMixin {mixin : String} {attributes : Fields}
    (h : Stored (doc.mixinAttrs mixin)) (hkeys : (attributes.map Prod.fst).Nodup) :
    Stored ((doc.mergeMixin mixin attributes).mixinAttrs mixin) := by
  have hnodup := Fields.nodup_keys_assign h.nodup attributes
  rw [mixinAttrs_mergeMixin]
  refine ⟨hnodup.sublist (List.filter_sublist.map Prod.fst), fun kv hkv => ?_⟩
  obtain ⟨hmem, hkept⟩ := List.mem_filter.mp hkv
  have hkept := of_decide_eq_true hkept
  rw [← Fields.field_of_mem hnodup hmem]
  by_cases hk : kv.1 ∈ attributes.map Prod.fst
  · rw [Fields.field_assign_of_mem _ _ hk hkeys]
    exact fun hdef => hkept ⟨hk, hdef⟩
  · rw [Fields.field_assign_of_not_mem _ _ hk]
    have hold := (Fields.mem_keys_assign _ _ kv.1).mp (List.mem_map_of_mem hmem)
    exact (h.mem_keys_iff kv.1).mp (hold.resolve_right hk)

end HulyDoc

namespace MixinMigration

section Payload

variable (src : Fields) {keys : List String}

theorem keys_pickFields : (pickFields src keys).map Prod.fst =
    keys.filter fun k => src.field k ≠ .undefined := by
  rw [pickFields, List.map_map]
  exact List.map_id' _

theorem nodup_payload (h : keys.Nodup) :
    ((withOriginatedMarker (pickFields src keys)).map Prod.fst).Nodup := by
  refine Fields.nodup_keys_set ?_ _ _
  rw [keys_pickFields]
  exact h.filter _

/-- What a written payload adds to an empty mixin. -/
theorem field_payload {doc : HulyDoc} {mixin : String} (h : keys.Nodup)
    (hempty : doc.mixinAttrs mixin = []) {k : String} (hk : k ≠ "_originated") :
    ((doc.mergeMixin mixin (withOriginatedMarker (pickFields src keys))).mixinAttrs mixin).field k =
      if k ∈ keys then src.field k else .undefined := by
  have hpayload : (withOriginatedMarker (pickFields src keys)).field k =
      if k ∈ keys then src.field k else .undefined := by
    rw [withOriginatedMarker, Fields.field_set, if_neg (Ne.symm hk), field_pickFields]
  rw [HulyDoc.field_mergeMixin _ _ (nodup_payload src h), hempty, Fields.field_nil]
  by_cases hmem : k ∈ (withOriginatedMarker (pickFields src keys)).map Prod.fst
  · rw [if_pos hmem, hpayload]
  · rw [if_neg hmem, ← hpayload, Fields.field_of_not_mem hmem]

end Payload

/-- The field is copied, or a split mixin has one of its name. -/
def HasPlace (doc : HulyDoc) (k : String) : Prop :=
  (doc.mixinAttrs MR_CORE_MIXIN = [] ∧ k ∈ CORE_FIELD_KEYS) ∨
    (doc.mixinAttrs MR_REVIEW_MIXIN_DOC = [] ∧ k ∈ REVIEW_FIELD_KEYS) ∨
    (doc.mixinAttrs MR_CORE_MIXIN).field k ≠ .undefined ∨
    (doc.mixinAttrs MR_REVIEW_MIXIN_DOC).field k ≠ .undefined

/-- Every field that is gone from the legacy mixin can be read, with its value or with one that a
split mixin had for it. The marker is no field. -/
def Keeps (doc doc' : HulyDoc) : Prop :=
  ∀ k, k ≠ "_originated" → (doc.mixinAttrs MR_MIXIN).field k ≠ .undefined →
    (doc'.mixinAttrs MR_MIXIN).field k = .undefined →
    (readMRMixinAttributes doc').field k = (doc.mixinAttrs MR_MIXIN).field k ∨
      ∃ mixin ∈ [MR_CORE_MIXIN, MR_REVIEW_MIXIN_DOC],
        (doc.mixinAttrs mixin).field k ≠ .undefined ∧
        (readMRMixinAttributes doc').field k = (doc.mixinAttrs mixin).field k

section Reading

variable {doc : HulyDoc}

theorem readMRMixinAttributes_of_core (h : doc.mixinAttrs MR_CORE_MIXIN ≠ []) :
    readMRMixinAttributes doc =
      (doc.mixinAttrs MR_CORE_MIXIN).assign (doc.mixinAttrs MR_REVIEW_MIXIN_DOC) := by
  unfold readMRMixinAttributes HulyDoc.mixinAttrs
  unfold HulyDoc.mixinAttrs at h
  cases hcore : doc.mixins.get? MR_CORE_MIXIN with
  | none =>
    rw [hcore] at h
    exact absurd rfl h
  | some core => rfl

theorem field_withCore {k : String} (hk : k ≠ "_originated") :
    ((withCore doc).mixinAttrs MR_CORE_MIXIN).field k =
      if doc.mixinAttrs MR_CORE_MIXIN = [] ∧ k ∈ CORE_FIELD_KEYS then
        (doc.mixinAttrs MR_MIXIN).field k
      else (doc.mixinAttrs MR_CORE_MIXIN).field k := by
  by_cases hcore : doc.mixinAttrs MR_CORE_MIXIN = []
  · rw [withCore, if_neg (not_not_intro hcore), field_payload _ (by decide) hcore hk]
    simp only [hcore, true_and, Fields.field_nil]
  · rw [withCore, if_pos hcore, if_neg fun h => hcore h.1]

theorem field_withReview {k : String} (hk : k ≠ "_originated") :
    ((withReview doc).mixinAttrs MR_REVIEW_MIXIN_DOC).field k =
      if doc.mixinAttrs MR_REVIEW_MIXIN_DOC = [] ∧ k ∈ REVIEW_FIELD_KEYS then
        (doc.mixinAttrs MR_MIXIN).field k
      else (doc.mixinAttrs MR_REVIEW_MIXIN_DOC).field k := by
  by_cases hreview : doc.mixinAttrs MR_REVIEW_MIXIN_DOC = []
  · by_cases hnone : pickFields (doc.mixinAttrs MR_MIXIN) REVIEW_FIELD_KEYS = []
    · have hfield := field_pickFields (doc.mixinAttrs MR_MIXIN) REVIEW_FIELD_KEYS k
      rw [hnone, Fields.field_nil] at hfield
      rw [withReview, if_pos (.inr hnone)]
      simp only [hreview, true_and, Fields.field_nil]
      exact hfield
    · rw [withReview, if_neg (not_or_intro (not_not_intro hreview) hnone),
        field_payload _ (by decide) hreview hk]
      simp only [hreview, true_and, Fields.field_nil]
  · rw [withReview, if_pos (.inl hreview), if_neg fun h => hreview h.1]

/-- What is read of a split document: the review mixin hides the core mixin. -/
theorem field_read_split (hsplits : Splits doc) (hstored : ∀ mixin, Stored (doc.mixinAttrs mixin))
    (k : String) :
    (readMRMixinAttributes (split doc)).field k =
      if ((withReview doc).mixinAttrs MR_REVIEW_MIXIN_DOC).field k = .undefined then
        ((withCore doc).mixinAttrs MR_CORE_MIXIN).field k
      else ((withReview doc).mixinAttrs MR_REVIEW_MIXIN_DOC).field k := by
  have hcore : (split doc).mixinAttrs MR_CORE_MIXIN = (withCore doc).mixinAttrs MR_CORE_MIXIN := by
    rw [split, if_pos hsplits, mixinAttrs_withoutLegacy_of_ne _ (by decide),
      mixinAttrs_withReview_of_ne _ (by decide)]
  have hlegacy := mixinAttrs_withCore_of_ne doc (show MR_MIXIN ≠ MR_CORE_MIXIN by decide)
  have hother := mixinAttrs_withCore_of_ne doc (show MR_REVIEW_MIXIN_DOC ≠ MR_CORE_MIXIN by decide)
  have hreview : (split doc).mixinAttrs MR_REVIEW_MIXIN_DOC =
      (withReview doc).mixinAttrs MR_REVIEW_MIXIN_DOC := by
    rw [split, if_pos hsplits, mixinAttrs_withoutLegacy_of_ne _ (by decide), withReview, withReview,
      hlegacy, hother]
    split_ifs
    · exact hother
    · rw [HulyDoc.mixinAttrs_mergeMixin, HulyDoc.mixinAttrs_mergeMixin, hother]
  have hstored' : Stored ((withReview doc).mixinAttrs MR_REVIEW_MIXIN_DOC) := by
    rw [withReview]
    split_ifs
    · exact hstored _
    · exact HulyDoc.stored_mergeMixin doc (hstored _) (nodup_payload _ (by decide))
  rw [readMRMixinAttributes_of_core (hcore ▸ withCore_ne_nil doc), hcore, hreview,
    hstored'.field_assign]

/-- The split keeps a field exactly if it has a place. -/
theorem keeps_split_iff (hsplits : Splits doc) (hstored : ∀ mixin, Stored (doc.mixinAttrs mixin)) :
    Keeps doc (split doc) ↔ ∀ k, k ≠ "_originated" →
      (doc.mixinAttrs MR_MIXIN).field k ≠ .undefined → HasPlace doc k := by
  have hgone : (split doc).mixinAttrs MR_MIXIN = [] := by
    rw [split, if_pos hsplits]
    exact mixinAttrs_withoutLegacy _
  refine forall₂_congr fun k hk => forall_congr' fun hdef => ?_
  have hread := field_read_split hsplits hstored k
  rw [field_withCore hk, field_withReview hk] at hread
  rw [hgone, Fields.field_nil, forall_prop_of_true rfl, HasPlace]
  by_cases hreview : doc.mixinAttrs MR_REVIEW_MIXIN_DOC = [] ∧ k ∈ REVIEW_FIELD_KEYS
  · rw [if_pos hreview, if_neg hdef] at hread
    exact iff_of_true (.inl hread) (.inr (.inl hreview))
  · rw [if_neg hreview] at hread
    by_cases hheld : (doc.mixinAttrs MR_REVIEW_MIXIN_DOC).field k = .undefined
    · rw [if_pos hheld] at hread
      by_cases hcore : doc.mixinAttrs MR_CORE_MIXIN = [] ∧ k ∈ CORE_FIELD_KEYS
      · rw [if_pos hcore] at hread
        exact iff_of_true (.inl hread) (.inl hcore)
      · rw [if_neg hcore] at hread
        constructor
        · rintro (hsame | ⟨mixin, hmixin, hother, -⟩)
          · exact .inr (.inr (.inl fun hnone => hdef ((hread.symm.trans hsame).symm.trans hnone)))
          · obtain rfl | hmixin := List.mem_cons.mp hmixin
            · exact .inr (.inr (.inl hother))
            · rw [List.mem_singleton.mp hmixin] at hother
              exact absurd hheld hother
        · rintro (hcopied | hcopied | hother | hother)
          · exact absurd hcopied hcore
          · exact absurd hcopied hreview
          · exact .inr ⟨MR_CORE_MIXIN, List.mem_cons_self, hother, hread⟩
          · exact absurd hheld hother
    · rw [if_neg hheld] at hread
      refine iff_of_true (.inr ⟨MR_REVIEW_MIXIN_DOC, ?_, hheld, hread⟩)
        (.inr (.inr (.inr hheld)))
      exact List.mem_cons_of_mem _ List.mem_cons_self

end Reading

/-- A run that finds the binding busy or enabled leaves everything as it is. -/
theorem migrateMixinSplit_unready (env : Env) {drain : Drain} (hready : ¬ drain.Ready)
    (binding : BindingDoc) (w : World) :
    ((migrateMixinSplit env drain binding).toEffect.run w).2 = w := by
  rw [migrateMixinSplit, Coroutine.toEffect_bind, Async.toEffect_now, Effect.gets_bind_run]
  dsimp only
  by_cases hdrained : waitForBackfillDrain drain = false
  · rw [if_pos hdrained]
    rfl
  · rw [if_neg hdrained, if_pos fun hpaused => hready ⟨eq_true_of_ne_false hdrained, hpaused⟩]
    rfl

/-- The migration loses nothing of a document if and only if it leaves the document alone, or every
legacy field has a place in the split mixins. -/
theorem keeps_iff_hasPlace (env : Env) (h : env.Healthy) (drain : Drain) (binding : BindingDoc)
    (w : World) (ref : Ref) (doc doc' : HulyDoc) (hdoc : w.docs.get? ref = some doc)
    (hstored : ∀ mixin, Stored (doc.mixinAttrs mixin))
    (hdoc' : ((migrateMixinSplit env drain binding).toEffect.run w).2.docs.get? ref = some doc') :
    Keeps doc doc' ↔
      (drain.Ready → Visits (mirrorsOf binding w.idmap) ref → doc.objectClass = issueClass →
        Splits doc → ∀ k, k ≠ "_originated" → (doc.mixinAttrs MR_MIXIN).field k ≠ .undefined →
          HasPlace doc k) := by
  have hkept : Keeps doc doc := fun k _ hdef hgone => absurd hgone hdef
  by_cases hready : drain.Ready
  · obtain ⟨result, hrun⟩ := migrateMixinSplit_run h hready binding w
    rw [hrun] at hdoc'
    have hfound := (get?_splitDocs (mirrorsOf binding w.idmap) w.docs ref).symm.trans hdoc'
    rw [hdoc, Option.map_some] at hfound
    obtain rfl := Option.some.inj hfound
    by_cases hvisited : Visits (mirrorsOf binding w.idmap) ref ∧ doc.objectClass = issueClass
    · rw [if_pos hvisited]
      by_cases hsplits : Splits doc
      · rw [keeps_split_iff hsplits hstored]
        exact ⟨fun hall _ _ _ _ => hall, fun hall => hall hready hvisited.1 hvisited.2 hsplits⟩
      · rw [split, if_neg hsplits]
        exact iff_of_true hkept fun _ _ _ hs => absurd hs hsplits
    · rw [if_neg hvisited]
      exact iff_of_true hkept fun _ hv hc => absurd ⟨hv, hc⟩ hvisited
  · rw [migrateMixinSplit_unready env hready, hdoc] at hdoc'
    obtain rfl := Option.some.inj hdoc'
    exact iff_of_true hkept fun hr => absurd hr hready

theorem stored_pipelinedMirror (mixin : String) : Stored (pipelinedMirror.mixinAttrs mixin) := by
  have hall : ∀ entry ∈ pipelinedMirror.mixins.entries, (entry.2.map Prod.fst).Nodup ∧
      ∀ kv ∈ entry.2, kv.2 ≠ .undefined := by decide
  rw [HulyDoc.mixinAttrs]
  cases hget : pipelinedMirror.mixins.get? mixin with
  | none => exact stored_nil
  | some attrs =>
    obtain ⟨hnodup, hdefined⟩ := hall _ (OrderedMap.mem_entries_of_get? hget)
    exact ⟨hnodup, hdefined⟩

/-- The document the migration leaves of `pipelinedMirror`. -/
def strippedMirror : HulyDoc := split pipelinedMirror

theorem strippedMirror_found :
    ((migrateMixinSplit (Env.quiet quietBinding) drained pausedBinding).toEffect.run
      pipelinedWorld).2.docs.get? "mirror" = some strippedMirror := by
  obtain ⟨result, hrun⟩ := migrateMixinSplit_run (Env.quiet_healthy quietBinding)
    (show drained.Ready by decide) pausedBinding pipelinedWorld
  have hfound : (splitWorld pausedBinding pipelinedWorld).docs.get? "mirror" =
      some strippedMirror := by decide +kernel
  rw [hrun]
  exact hfound

theorem keeps_iff_hasPlace_pipelined : Keeps pipelinedMirror strippedMirror ↔
    (drained.Ready → Visits (mirrorsOf pausedBinding pipelinedWorld.idmap) "mirror" →
      pipelinedMirror.objectClass = issueClass → Splits pipelinedMirror →
      ∀ k, k ≠ "_originated" → (pipelinedMirror.mixinAttrs MR_MIXIN).field k ≠ .undefined →
        HasPlace pipelinedMirror k) :=
  keeps_iff_hasPlace (Env.quiet quietBinding) (Env.quiet_healthy _) drained pausedBinding
    pipelinedWorld "mirror" pipelinedMirror strippedMirror rfl stored_pipelinedMirror
    strippedMirror_found

/-- The status of the pipeline is lost. -/
theorem not_keeps_pipelineStatus :
    ((migrateMixinSplit (Env.quiet quietBinding) drained pausedBinding).toEffect.run
      pipelinedWorld).2.docs.get? "mirror" = some strippedMirror ∧
    ¬ Keeps pipelinedMirror strippedMirror := by
  refine ⟨strippedMirror_found, fun hkeeps => ?_⟩
  have hread := hkeeps "pipelineStatus" (by decide) (by decide) (by decide)
  revert hread
  decide

end MixinMigration

end HulyGitlab
