import HulyGitlab.Lib.WorkPool
import HulyGitlab.Sync.DeferredRecords

/-!
# How often a record is handed back

The note manager and the review manager hand records to each other and back to
themselves, with two flags that are set on the way. What a dispatch does depends
on the id map, which may be any other one at the next dispatch.
-/

namespace HulyGitlab

open Notes

/-- The computation enqueues nothing, or one record of the kind. -/
def Hands (P : EnqueuedRecord → Prop) (w w' : World) : Prop :=
  w'.enqueued = w.enqueued ∨ ∃ e, P e ∧ w'.enqueued = w.enqueued ++ [e]

namespace Hands

variable {P : EnqueuedRecord → Prop} {A B : Type}

theorem of_writes {parts : List Part} (hparts : .enqueued ∉ parts) {m : Sync A}
    (hm : Writes parts m) : Effect.Within (Hands P) m :=
  fun w => .inl ((hm w).same .enqueued hparts)

theorem pure (a : A) : Effect.Within (Hands P) (pure a : Sync A) := fun _ => .inl rfl

theorem enqueueRecord {e : EnqueuedRecord} (h : P e) :
    Effect.Within (Hands P) (Sync.enqueueRecord e) := fun _ => .inr ⟨e, h, rfl⟩

/-- Only the rest of a computation enqueues. -/
theorem bind {parts : List Part} (hparts : .enqueued ∉ parts) {m : Sync A} (hm : Writes parts m)
    {f : A → Sync B} (hf : ∀ a, Effect.Within (Hands P) (f a)) :
    Effect.Within (Hands P) (m >>= f) := by
  intro w
  have hsame : (m.run w).2.enqueued = w.enqueued := (hm w).same .enqueued hparts
  rw [Effect.bind_run]
  generalize m.run w = ran at hsame ⊢
  obtain ⟨r, w₁⟩ := ran
  cases r with
  | error err => exact .inl hsame
  | ok a =>
    have hrest := hf a w₁
    dsimp only at hsame ⊢
    unfold Hands at hrest ⊢
    rwa [hsame] at hrest

/-- What a run adds to the records that were enqueued before. -/
theorem of_mem_drop {w w' : World} (h : Hands P w w') :
    (∀ e ∈ w'.enqueued.drop w.enqueued.length, P e) ∧
      (w'.enqueued.drop w.enqueued.length).length ≤ 1 := by
  obtain hsame | ⟨e, he, hone⟩ := h
  · rw [hsame, List.drop_length]
    exact ⟨fun _ hmem => absurd hmem List.not_mem_nil, Nat.zero_le 1⟩
  · rw [hone, List.drop_left]
    refine ⟨fun e' hmem => ?_, Nat.le_refl 1⟩
    rwa [List.mem_singleton.mp hmem]

end Hands

section Budget

/-- What `parseWebhookPayload` reads is the same, so it finds the same, up to the clock. -/
theorem parseWebhookPayload_congr {r r' : Fields}
    (hattrs : r'.field "object_attributes" = r.field "object_attributes")
    (hmr : r'.field "merge_request" = r.field "merge_request")
    (hissue : r'.field "issue" = r.field "issue") (now : Nat) :
    parseWebhookPayload r' now = parseWebhookPayload r now := by
  unfold parseWebhookPayload
  rw [hattrs, hmr, hissue]

def ParsedNote.isReview : ParsedNote → Bool
  | .review _ _ _ _ => true
  | _ => false

theorem isReview_parseWebhookPayload (r : Fields) (now now' : Nat) :
    (parseWebhookPayload r now).any ParsedNote.isReview =
      (parseWebhookPayload r now').any ParsedNote.isReview := by
  unfold parseWebhookPayload
  dsimp only
  by_cases hshape : ¬ (r.field "object_attributes").isObject ∨
      ¬ ((r.field "object_attributes").get "id").isNumber
  · rw [if_pos hshape, if_pos hshape]
  · rw [if_neg hshape, if_neg hshape]
    cases parseNoteableType ((r.field "object_attributes").get "noteable_type") with
    | none => rfl
    | some noteableType =>
      dsimp only
      split_ifs <;> rfl

/-- The note manager takes the record for a line comment. -/
def routed (rawRecord : Fields) : Bool :=
  !((rawRecord.field "noteableIid").isNumber && decide (rawRecord.field "note" ≠ .undefined)) &&
    (parseWebhookPayload rawRecord 0).any ParsedNote.isReview

/-- The flags do not change where a record goes. -/
theorem routed_set {rawRecord : Fields} {flag : String}
    (hflag : flag = NOTE_RETRY_FLAG ∨ flag = REVIEW_RETRY_FLAG) (v : JsValue) :
    routed (rawRecord.set flag v) = routed rawRecord := by
  have hother : ∀ key, key ≠ NOTE_RETRY_FLAG → key ≠ REVIEW_RETRY_FLAG →
      (rawRecord.set flag v).field key = rawRecord.field key := by
    intro key hnote hreview
    rw [Fields.field_set, if_neg]
    rintro rfl
    obtain hflag | hflag := hflag
    · exact hnote hflag
    · exact hreview hflag
  unfold routed
  rw [hother "noteableIid" (by decide) (by decide), hother "note" (by decide) (by decide),
    parseWebhookPayload_congr (hother "object_attributes" (by decide) (by decide))
      (hother "merge_request" (by decide) (by decide)) (hother "issue" (by decide) (by decide))]

/-- How many more records may follow from a record. -/
def budget (e : EnqueuedRecord) : Nat :=
  if e.kind = "review" then if e.record.field REVIEW_RETRY_FLAG = .bool true then 0 else 1
  else if routed e.record then if retried e.record then 1 else 2
  else if e.record.field NOTE_RETRY_FLAG = .bool true then 0 else 1

theorem budget_le_two (e : EnqueuedRecord) : budget e ≤ 2 := by
  unfold budget
  split_ifs <;> omega

/-- A record of one of the two managers. -/
def Deferrable (e : EnqueuedRecord) : Prop := e.kind = "note" ∨ e.kind = "review"

/-- The next record of a chain: one of the managers takes it, and its budget is smaller. -/
structure Succeeds (e e' : EnqueuedRecord) : Prop where
  deferrable : Deferrable e'
  budget : budget e' < budget e

theorem budget_review {e : EnqueuedRecord} (h : e.kind = "review") :
    budget e = if e.record.field REVIEW_RETRY_FLAG = .bool true then 0 else 1 := if_pos h

theorem budget_note {e : EnqueuedRecord} (h : e.kind = "note") :
    budget e = if routed e.record then if retried e.record then 1 else 2
      else if e.record.field NOTE_RETRY_FLAG = .bool true then 0 else 1 := by
  rw [budget, if_neg (by rw [h]; decide)]

end Budget

section Dispatch

variable (env : Env)

theorem findParent_writes (bctx : BindingContext) (kind : GitlabKind) (iid : JsValue) :
    Writes [.lookups] (findParent env bctx kind iid) :=
  Writes.findByGitlab env List.mem_cons_self _ _ _

/-- A thread is handed back under its flag, and only without it. -/
theorem Reviews.applyRemote_succeeds {e : EnqueuedRecord} (h : e.kind = "review") :
    Effect.Within (Hands (Succeeds e)) (Reviews.applyRemote env e.binding e.record) := by
  unfold Reviews.applyRemote
  refine Hands.bind List.not_mem_nil (Writes.ofExcept _) fun bctx =>
    Hands.bind (by decide) (findParent_writes env _ _ _) fun parentMapping => ?_
  cases parentMapping with
  | some row => exact Hands.of_writes (by decide) (Reviews.applyMapped_writes env _ _ _ _)
  | none =>
    unfold Reviews.deferThread markAndRetry
    by_cases hflag : e.record.field REVIEW_RETRY_FLAG = .bool true
    · rw [if_pos hflag]
      exact Hands.pure ()
    · rw [if_neg hflag]
      refine Hands.bind List.not_mem_nil (Writes.ofExcept _) fun version =>
        Hands.enqueueRecord ⟨.inr rfl, ?_⟩
      rw [budget_review rfl, budget_review h, if_neg hflag, Fields.field_set, if_pos rfl,
        if_pos rfl]
      exact Nat.zero_lt_one

/-- A line comment goes on to the review manager, with the flag it has, or is handed back under
the flag. -/
theorem Notes.routeReview_succeeds {e : EnqueuedRecord} (h : e.kind = "note")
    (hrouted : routed e.record = true) (noteableIid note position discussionId : JsValue) :
    Effect.Within (Hands (Succeeds e))
      (routeReview env e.binding e.record noteableIid note position discussionId) := by
  have hbudget := budget_note h
  rw [if_pos hrouted] at hbudget
  unfold routeReview
  refine Hands.bind List.not_mem_nil (Writes.ofExcept _) fun bctx =>
    Hands.bind (by decide) (findParent_writes env _ _ _) fun parentMapping => ?_
  cases parentMapping with
  | some row =>
    refine Hands.enqueueRecord ⟨.inr rfl, ?_⟩
    rw [budget_review rfl, hbudget]
    by_cases hretried : retried e.record
    · simp only [if_pos hretried, Fields.field_set, if_true]
      exact Nat.zero_lt_one
    · simp only [if_neg hretried]
      split_ifs <;> omega
  | none =>
    dsimp only
    by_cases hretried : retried e.record
    · rw [if_pos hretried]
      exact Hands.pure ()
    · rw [if_neg hretried]
      refine Hands.enqueueRecord ⟨.inl rfl, ?_⟩
      have hmarked : retried (e.record.set REVIEW_RETRY_FLAG (.bool true)) :=
        .inr (by rw [Fields.field_set, if_pos rfl])
      rw [budget_note rfl, hbudget, if_neg hretried, routed_set (.inr rfl), if_pos hrouted,
        if_pos hmarked]
      exact Nat.one_lt_two

/-- Any other note is handed back under its flag, and only without it. -/
theorem Notes.applyNote_succeeds {e : EnqueuedRecord} (h : e.kind = "note")
    (hrouted : routed e.record = false) (noteableIid note : JsValue) :
    Effect.Within (Hands (Succeeds e)) (applyNote env e.binding e.record noteableIid note) := by
  have hbudget := budget_note h
  rw [if_neg (by rw [hrouted]; decide)] at hbudget
  unfold applyNote
  refine Hands.bind List.not_mem_nil (Writes.ofExcept _) fun system => ?_
  refine Effect.Within.ite (fun _ => Hands.pure ()) fun _ => ?_
  refine Hands.bind List.not_mem_nil (Writes.ofExcept _) fun bctx =>
    Hands.bind (by decide) (findParent_writes env _ _ _) fun parent => ?_
  cases parent with
  | some row => exact Hands.of_writes (by decide) (applyMapped_writes env _ _ _ _)
  | none =>
    unfold markAndRetry
    by_cases hflag : e.record.field NOTE_RETRY_FLAG = .bool true
    · rw [if_pos hflag]
      exact Hands.pure ()
    · rw [if_neg hflag] at hbudget ⊢
      refine Hands.enqueueRecord ⟨.inl rfl, ?_⟩
      rw [budget_note rfl, hbudget, routed_set (.inl rfl), if_neg (by rw [hrouted]; decide),
        Fields.field_set, if_pos rfl, if_pos rfl]
      exact Nat.zero_lt_one

theorem Notes.applyRemote_succeeds {e : EnqueuedRecord} (h : e.kind = "note") :
    Effect.Within (Hands (Succeeds e)) (Notes.applyRemote env e.binding e.record) := by
  unfold Notes.applyRemote
  by_cases henvelope : (e.record.field "noteableIid").isNumber ∧ e.record.field "note" ≠ .undefined
  · rw [if_pos henvelope]
    refine applyNote_succeeds env h ?_ _ _
    unfold routed
    simp [henvelope]
  · rw [if_neg henvelope]
    have hrouted : ∀ now, routed e.record =
        (parseWebhookPayload e.record now).any ParsedNote.isReview := by
      intro now
      have hno : ((e.record.field "noteableIid").isNumber &&
          decide (e.record.field "note" ≠ .undefined)) = false := by
        simpa using henvelope
      rw [isReview_parseWebhookPayload e.record now 0, routed, hno]
      rfl
    refine Hands.bind List.not_mem_nil (Writes.gets _) fun now => ?_
    have hnow := hrouted now
    cases hparsed : parseWebhookPayload e.record now with
    | none => exact Hands.pure ()
    | some parsed =>
      rw [hparsed] at hnow
      cases parsed with
      | malformedPosition noteableIid note => exact Hands.pure ()
      | review noteableIid note position discussionId =>
        exact routeReview_succeeds env h hnow _ _ _ _
      | note noteableIid note => exact applyNote_succeeds env h hnow _ _

/-- A dispatch hands on at most one record, and that one has less budget. -/
theorem dispatchRemote_succeeds {e : EnqueuedRecord} (h : Deferrable e) :
    Effect.Within (Hands (Succeeds e)) (dispatchRemote env e) := by
  unfold dispatchRemote
  obtain hnote | hreview := h
  · rw [if_pos hnote]
    exact Notes.applyRemote_succeeds env hnote
  · rw [if_neg (by rw [hreview]; decide), if_pos hreview]
    exact Reviews.applyRemote_succeeds env hreview

end Dispatch

/-- What the dispatch of a record enqueues, in some environment and from some state. -/
def reenqueued (c : Env × World) (e : EnqueuedRecord) : List EnqueuedRecord :=
  ((dispatchRemote c.1 e).run c.2).2.enqueued.drop c.2.enqueued.length

theorem pays_reenqueued : WorkPool.Pays reenqueued Deferrable budget where
  ok c e he e' he' := ((dispatchRemote_succeeds c.1 he c.2).of_mem_drop.1 e' he').deferrable
  pays := by
    intro c e he
    obtain ⟨hsucceeds, hlen⟩ := (dispatchRemote_succeeds c.1 he c.2).of_mem_drop
    unfold reenqueued
    generalize ((dispatchRemote c.1 e).run c.2).2.enqueued.drop c.2.enqueued.length = es at *
    match es, hlen with
    | [], _ => exact Nat.zero_le _
    | [e'], _ =>
      have hless := (hsucceeds e' List.mem_cons_self).budget
      change budget e' + 1 + 0 ≤ budget e
      omega
    | _ :: _ :: _, hlen => simp at hlen

/-- In every order of dispatches, whatever the id map is like at each of them, a record gives rise
to two records at most, and there is nothing left to dispatch after three dispatches. -/
theorem reenqueued_le_two (e : EnqueuedRecord) (he : e.kind = "note" ∨ e.kind = "review")
    (dispatches : List (Nat × Env × World)) :
    (Transition.exec (WorkPool.take reenqueued) (WorkPool.start e) dispatches).added ≤ 2 ∧
      (Transition.exec (WorkPool.take reenqueued) (WorkPool.start e) dispatches).taken ≤ 3 := by
  have hbounded := WorkPool.bounded pays_reenqueued (show Deferrable e from he) dispatches
  have hbudget := budget_le_two e
  constructor
  · exact hbounded.1.trans hbudget
  · exact hbounded.2.trans (Nat.succ_le_succ hbudget)

/-- A line comment on a merge request without a mirror. -/
def earlyLineComment : EnqueuedRecord where
  binding := "binding"
  kind := "note"
  record := [("object_attributes", .obj [("id", .num 3), ("noteable_type", .str "MergeRequest"),
    ("note", .str "text"), ("discussion_id", .str "d"),
    ("position", .obj [("position_type", .str "text"), ("head_sha", .str "h"),
      ("base_sha", .str "b"), ("start_sha", .str "s"), ("new_path", .str "f")])]),
    ("merge_request", .obj [("iid", .num 5)])]
  eventId := "event"
  version := "version"

/-- It is mirrored when the record comes back, and no longer when the review manager asks. -/
def appearing : List (Nat × Env × World) :=
  let env := Env.quiet quietBinding
  let mirrored : World := { World.initial with
    idmap := ⟨[⟨"ws", .merge_request, "7:5", issueClass, "mr"⟩], by decide, by decide⟩ }
  [(0, env, World.initial), (0, env, mirrored), (0, env, World.initial), (0, env, mirrored)]

theorem reenqueued_le_two_appearing :
    (Transition.exec (WorkPool.take reenqueued) (WorkPool.start earlyLineComment)
        appearing).added ≤ 2 ∧
      (Transition.exec (WorkPool.take reenqueued) (WorkPool.start earlyLineComment)
        appearing).taken ≤ 3 :=
  reenqueued_le_two earlyLineComment (.inl rfl) appearing

example : (Transition.exec (WorkPool.take reenqueued) (WorkPool.start earlyLineComment)
    appearing).added = 2 := by decide +kernel

end HulyGitlab
