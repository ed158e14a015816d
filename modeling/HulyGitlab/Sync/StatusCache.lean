import HulyGitlab.Sync.Keys
import HulyGitlab.Sync.StatusMap
import Mathlib.Data.List.Find

/-!
# Histories of the status cache

The cache of `status-map.ts` belongs to the process and its key is the GitLab
project id alone. A history is the list of the calls all bindings make; what
a call sees is the list of the first call under its key.
-/

namespace HulyGitlab

namespace StatusMap

variable (env : Env)

/-- A call, with the status list its binding passes. -/
inductive Call
  | mapRemoteState (projectKey : String) (remoteState : JsValue) (statuses : List Status)
  | mapHulyStatus (projectKey : String) (statusRef : JsValue) (statuses : List Status)

inductive Answer
  | status (ref : Option Ref)
  | state (state : IssueState)
  deriving DecidableEq

def Call.projectKey : Call → String
  | .mapRemoteState projectKey _ _ => projectKey
  | .mapHulyStatus projectKey _ _ => projectKey

def Call.statuses : Call → List Status
  | .mapRemoteState _ _ statuses => statuses
  | .mapHulyStatus _ _ statuses => statuses

def Call.perform : Call → Sync Answer
  | .mapRemoteState projectKey remoteState statuses => do
      let ref ← HulyGitlab.StatusMap.mapRemoteState env projectKey remoteState statuses
      pure (.status ref)
  | .mapHulyStatus projectKey statusRef statuses => do
      let state ← HulyGitlab.StatusMap.mapHulyStatus env projectKey statusRef statuses
      pure (.state state)

/-- The answers of the calls, in order. -/
def performAll (calls : List Call) : Sync (List Answer) :=
  Effect.mapEach (Call.perform env) calls

/-- The world of a process that has asked for no status yet. -/
def fresh (w : World) : World := { w with statusCache := .empty }

/-- The same function of the list alone: a call with nothing in the cache. -/
def Call.uncached (w : World) (c : Call) : Except Err Answer := ((c.perform env).run (fresh w)).1

/-- The answer an entry gives to a call. -/
def Call.answer (entry : ProjectCacheEntry) : Call → Answer
  | .mapRemoteState _ remoteState _ => .status (statusOf entry remoteState)
  | .mapHulyStatus _ (.str ref) _ => .state (stateOf entry ref)
  | .mapHulyStatus _ _ _ => .state .opened

theorem Call.perform_run (c : Call) (w : World) :
    (c.perform env).run w =
      (.ok (c.answer (entryOf env w.statusCache c.projectKey c.statuses)),
        { w with statusCache := remembered env w.statusCache c.projectKey c.statuses }) := by
  cases c with
  | mapRemoteState projectKey remoteState statuses =>
      have hrun := mapRemoteState_run env projectKey remoteState statuses w
      rw [Call.perform, Effect.bind_of_ok hrun]
      rfl
  | mapHulyStatus projectKey statusRef statuses =>
      have hentry := getEntry_run env projectKey statuses w
      cases statusRef with
      | str ref =>
          rw [Call.perform, Effect.bind_of_ok (mapHulyStatus_run env projectKey ref statuses w)]
          rfl
      | _ =>
          rw [Call.perform, HulyGitlab.StatusMap.mapHulyStatus, Effect.bind_bind,
            Effect.bind_of_ok hentry]
          rfl

theorem Call.uncached_eq (w : World) (c : Call) :
    c.uncached env w = .ok (c.answer (buildEntry env c.statuses)) := by
  rw [Call.uncached, Call.perform_run]
  rfl

/-- The list of the first call under the key. -/
def firstList (calls : List Call) (projectKey : String) : Option (List Status) :=
  (calls.find? fun c => c.projectKey = projectKey).map (·.statuses)

theorem firstList_append (before after : List Call) (projectKey : String) :
    firstList (before ++ after) projectKey =
      (firstList before projectKey).or (firstList after projectKey) := by
  rw [firstList, List.find?_append, firstList, firstList]
  cases before.find? fun c => decide (c.projectKey = projectKey) with
  | none => rfl
  | some c => rfl

/-- The cache holds, under each key, the entry of the first list passed with it. -/
def Follows (calls : List Call) (w : World) : Prop :=
  ∀ projectKey, w.statusCache.get? projectKey = (firstList calls projectKey).map (buildEntry env)

theorem follows_fresh (w : World) : Follows env [] (fresh w) := fun _ => rfl

/-- One call enters its list unless its key is known. -/
theorem Follows.step {calls : List Call} {w : World} (h : Follows env calls w) (c : Call) :
    Follows env (calls ++ [c]) ((c.perform env).run w).2 := by
  intro projectKey
  rw [Call.perform_run, firstList_append]
  show (remembered env w.statusCache c.projectKey c.statuses).get? projectKey = _
  have hfirst : firstList [c] projectKey =
      if projectKey = c.projectKey then some c.statuses else none := by
    by_cases hkey : c.projectKey = projectKey
    · simp [firstList, hkey]
    · simp [firstList, hkey, Ne.symm hkey]
  rw [hfirst, remembered]
  cases hcached : w.statusCache.get? c.projectKey with
  | some cached =>
      have hseen := h projectKey
      by_cases hkey : projectKey = c.projectKey
      · rw [hkey, hcached] at hseen
        obtain ⟨seen, hlist, _⟩ := Option.map_eq_some_iff.mp hseen.symm
        simp only [hkey, hcached, hlist] at hseen ⊢
        exact hseen
      · simpa [hkey] using hseen
  | none =>
      have hnone : firstList calls c.projectKey = none := by
        have hseen := h c.projectKey
        rw [hcached] at hseen
        exact Option.map_eq_none_iff.mp hseen.symm
      show (w.statusCache.set c.projectKey (buildEntry env c.statuses)).get? projectKey = _
      rw [OrderedMap.get?_set]
      by_cases hkey : projectKey = c.projectKey
      · simp [hkey, hnone]
      · simpa [hkey] using h projectKey

/-- The list whose entry answers the call. -/
def Call.seen (before : List Call) (c : Call) : List Status :=
  (firstList before c.projectKey).getD c.statuses

theorem Follows.entryOf_eq {calls : List Call} {w : World} (h : Follows env calls w) (c : Call) :
    entryOf env w.statusCache c.projectKey c.statuses = buildEntry env (c.seen calls) := by
  rw [entryOf, h c.projectKey, Call.seen]
  cases firstList calls c.projectKey with
  | none => rfl
  | some seen => rfl

/-- The answers of the calls after the calls `before`. -/
def answersAfter : List Call → List Call → List Answer
  | _, [] => []
  | before, c :: rest =>
      c.answer (buildEntry env (c.seen before)) :: answersAfter (before ++ [c]) rest

theorem Follows.performAll_run {before : List Call} {w : World} (h : Follows env before w)
    (calls : List Call) :
    ∃ w', (performAll env calls).run w = (.ok (answersAfter env before calls), w') ∧
      Follows env (before ++ calls) w' := by
  induction calls generalizing before w with
  | nil => exact ⟨w, rfl, by rwa [List.append_nil]⟩
  | cons c rest ih =>
      have hrun := c.perform_run env w
      have hstep := h.step env c
      rw [hrun] at hstep
      obtain ⟨w', hrest, hfollows⟩ := ih hstep
      refine ⟨w', ?_, by simpa using hfollows⟩
      rw [performAll, Effect.mapEach_cons, Effect.bind_of_ok hrun]
      rw [performAll] at hrest
      rw [Effect.bind_of_ok hrest, answersAfter, h.entryOf_eq env c]
      rfl

/-! ### What an entry says of its list -/

/-- The side of a status; a closed keyword goes first. -/
def side (s : Status) : Option IssueState :=
  if categoryMatches env s CLOSED_CATEGORY_KEYWORDS then some .closed
  else if categoryMatches env s OPEN_CATEGORY_KEYWORDS then some .opened
  else none

/-- The side of the last status of the reference that is on a side. -/
def sideIn (statuses : List Status) (ref : Ref) : Option IssueState :=
  statuses.reverse.findSome? fun s => if s._id = ref then side env s else none

theorem sideIn_append (statuses : List Status) (s : Status) (ref : Ref) :
    sideIn env (statuses ++ [s]) ref =
      (if s._id = ref then side env s else none).or (sideIn env statuses ref) := by
  rw [sideIn, List.reverse_append, List.reverse_singleton, List.singleton_append,
    List.findSome?_cons]
  cases if s._id = ref then side env s else none with
  | none => rfl
  | some found => rfl

theorem inverse_get? (statuses : List Status) (ref : Ref) :
    (buildEntry env statuses).inverse.get? ref = sideIn env statuses ref := by
  induction statuses using List.reverseRecOn with
  | nil => rfl
  | append_singleton statuses s ih =>
      rw [sideIn_append, ← ih]
      simp only [buildEntry, List.foldl_append, List.foldl_cons, List.foldl_nil]
      by_cases hclosed : categoryMatches env s CLOSED_CATEGORY_KEYWORDS = true
      · rw [if_pos hclosed, OrderedMap.get?_set]
        by_cases href : ref = s._id
        · simp [side, hclosed, href]
        · simp [href, Ne.symm href]
      · by_cases hopen : categoryMatches env s OPEN_CATEGORY_KEYWORDS = true
        · rw [if_neg hclosed, if_pos hopen, OrderedMap.get?_set]
          by_cases href : ref = s._id
          · simp [side, hclosed, hopen, href]
          · simp [href, Ne.symm href]
        · rw [if_neg hclosed, if_neg hopen]
          simp [side, hclosed, hopen]

/-- The reference counts as closed in the list. -/
def ClosedIn (statuses : List Status) (ref : Ref) : Prop := sideIn env statuses ref = some .closed

theorem stateOf_closed_iff (statuses : List Status) (ref : Ref) :
    stateOf (buildEntry env statuses) ref = .closed ↔ ClosedIn env statuses ref := by
  rw [stateOf, inverse_get?, ClosedIn]
  cases sideIn env statuses ref with
  | none => simp
  | some state => simp

/-- The keywords a remote state looks for. -/
def keywordsOf (remoteState : JsValue) : List String :=
  if remoteState = .str "closed" then CLOSED_CATEGORY_KEYWORDS else OPEN_CATEGORY_KEYWORDS

/-- The first status of the list with one of the keywords. -/
def firstWith (statuses : List Status) (keywords : List String) : Option Ref :=
  (statuses.find? fun s => categoryMatches env s keywords).map (·._id)

theorem statusOf_buildEntry (statuses : List Status) (remoteState : JsValue) :
    statusOf (buildEntry env statuses) remoteState =
      firstWith env statuses (keywordsOf remoteState) := by
  rw [statusOf, keywordsOf]
  split
  · rfl
  · rfl

/-- Two lists leave no difference for the call: the first status of the wanted side is the same,
or the status asked about is closed in both or in none. -/
def Call.Alike (seen : List Status) : Call → Prop
  | .mapRemoteState _ remoteState statuses =>
      firstWith env seen (keywordsOf remoteState) = firstWith env statuses (keywordsOf remoteState)
  | .mapHulyStatus _ (.str ref) statuses => ClosedIn env seen ref ↔ ClosedIn env statuses ref
  | .mapHulyStatus _ _ _ => True

theorem IssueState.eq_iff_closed (a b : IssueState) : a = b ↔ (a = .closed ↔ b = .closed) := by
  cases a <;> cases b <;> simp

theorem Call.answer_eq_iff (seen : List Status) (c : Call) :
    c.answer (buildEntry env seen) = c.answer (buildEntry env c.statuses) ↔ c.Alike env seen := by
  cases c with
  | mapRemoteState projectKey remoteState statuses =>
      show Answer.status _ = Answer.status _ ↔ _
      rw [Answer.status.injEq, statusOf_buildEntry, statusOf_buildEntry]
      rfl
  | mapHulyStatus projectKey statusRef statuses =>
      cases statusRef with
      | str ref =>
          show Answer.state _ = Answer.state _ ↔ _
          rw [Answer.state.injEq, IssueState.eq_iff_closed, stateOf_closed_iff, stateOf_closed_iff]
          rfl
      | _ => exact ⟨fun _ => trivial, fun _ => rfl⟩

/-- Every call finds its own list and the first one under its key alike. -/
def AlikeThroughout : List Call → List Call → Prop
  | _, [] => True
  | before, c :: rest => c.Alike env (c.seen before) ∧ AlikeThroughout (before ++ [c]) rest

theorem answersAfter_eq_iff (before calls : List Call) :
    answersAfter env before calls = calls.map (fun c => c.answer (buildEntry env c.statuses)) ↔
      AlikeThroughout env before calls := by
  induction calls generalizing before with
  | nil => simp [answersAfter, AlikeThroughout]
  | cons c rest ih =>
      rw [answersAfter, List.map_cons, List.cons.injEq, c.answer_eq_iff env, ih]
      rfl

/-- Every answer of a history is the uncached one exactly when no call's own list differs, for
what it asks, from the first list passed under its key. -/
theorem performAll_uncached_iff (calls : List Call) (w : World) :
    ((performAll env calls).run (fresh w)).1.map (List.map Except.ok) =
        .ok (calls.map (Call.uncached env w)) ↔
      AlikeThroughout env [] calls := by
  obtain ⟨w', hrun, _⟩ := (follows_fresh env w).performAll_run env calls
  have huncached : calls.map (Call.uncached env w) =
      (calls.map fun c => c.answer (buildEntry env c.statuses)).map
        (Except.ok : Answer → Except Err Answer) := by
    rw [List.map_map]
    exact List.map_congr_left fun c _ => c.uncached_eq env w
  rw [hrun, huncached, ← answersAfter_eq_iff env [] calls]
  show Except.ok (List.map Except.ok _) = Except.ok _ ↔ _
  rw [Except.ok.injEq]
  exact (List.map_injective_iff.mpr fun a b h => Except.ok.inj h).eq_iff

/-! ### Calls on behalf of bindings -/

/-- What a binding asks. -/
inductive Question
  | statusFor (remoteState : JsValue)
  | stateFor (statusRef : JsValue)

/-- The call a binding makes for a question. -/
def Question.callFor (bctx : BindingContext) : Question → Call
  | .statusFor remoteState =>
      .mapRemoteState (toString bctx.gitlabProjectId) remoteState bctx.statuses
  | .stateFor statusRef => .mapHulyStatus (toString bctx.gitlabProjectId) statusRef bctx.statuses

@[simp] theorem Question.projectKey_callFor (bctx : BindingContext) (q : Question) :
    (q.callFor bctx).projectKey = toString bctx.gitlabProjectId := by
  cases q <;> rfl

@[simp] theorem Question.statuses_callFor (bctx : BindingContext) (q : Question) :
    (q.callFor bctx).statuses = bctx.statuses := by
  cases q <;> rfl

/-- The entry of another list answers as a call with that list. -/
theorem Question.answer_callFor (bctx : BindingContext) (statuses : List Status)
    (entry : ProjectCacheEntry) (q : Question) :
    (q.callFor bctx).answer entry =
      (q.callFor { bctx with statuses := statuses }).answer entry := by
  cases q with
  | statusFor remoteState => rfl
  | stateFor statusRef => cases statusRef <;> rfl

/-- Two contexts are of one project: the same workspace, GitLab project and Huly project. -/
def SameProject (a b : BindingContext) : Prop :=
  a.workspaceUuid = b.workspaceUuid ∧ a.gitlabBaseUrl = b.gitlabBaseUrl ∧
    a.gitlabProjectId = b.gitlabProjectId ∧ a.hulyProjectRef = b.hulyProjectRef

instance (a b : BindingContext) : Decidable (SameProject a b) :=
  inferInstanceAs (Decidable (_ ∧ _ ∧ _ ∧ _))

/-- The context of the project's first question. -/
def firstContext (asked : List (BindingContext × Question)) (bctx : BindingContext) :
    BindingContext :=
  ((asked.find? fun a => SameProject a.1 bctx).map Prod.fst).getD bctx

/-- Questions under one id are those of one project. -/
def OneProjectAnId (asked : List (BindingContext × Question)) : Prop :=
  ∀ a ∈ asked, ∀ b ∈ asked, a.1.gitlabProjectId = b.1.gitlabProjectId → SameProject a.1 b.1

instance (asked : List (BindingContext × Question)) : Decidable (OneProjectAnId asked) :=
  inferInstanceAs (Decidable (∀ _ ∈ _, ∀ _ ∈ _, _ → _))

def callsOf (asked : List (BindingContext × Question)) : List Call :=
  asked.map fun a => a.2.callFor a.1

/-- Among the questions of a history, those under one key are those of one project. -/
theorem firstList_callsOf {asked : List (BindingContext × Question)} (hone : OneProjectAnId asked)
    {bctx : BindingContext} {q : Question} (hmem : (bctx, q) ∈ asked) :
    firstList (callsOf asked) (toString bctx.gitlabProjectId) =
      some (firstContext asked bctx).statuses := by
  have hsame : ∀ a ∈ asked,
      decide ((a.2.callFor a.1).projectKey = toString bctx.gitlabProjectId) =
        decide (SameProject a.1 bctx) := by
    intro a ha
    rw [decide_eq_decide, Question.projectKey_callFor]
    exact ⟨fun h => hone a ha _ hmem (toString_int_injective h), fun h => by rw [h.2.2.1]⟩
  have hfind := List.find?_congr hsame
  rw [firstList, callsOf, List.find?_map, firstContext]
  show (Option.map _ (asked.find? fun a =>
    decide ((a.2.callFor a.1).projectKey = toString bctx.gitlabProjectId))).map _ = _
  rw [hfind]
  cases hfound : asked.find? fun a => decide (SameProject a.1 bctx) with
  | some a => simp
  | none =>
      have hself := List.find?_eq_none.mp hfound _ hmem
      simp [SameProject] at hself

/-- The answer the first list of the project gives to a question. -/
def firstAnswer (w : World) (asked : List (BindingContext × Question))
    (a : BindingContext × Question) : Except Err Answer :=
  (a.2.callFor
    { a.1 with statuses := (firstContext asked a.1).statuses }).uncached env w

/-- The first list under a key is the same in the whole history as at a call of it. -/
theorem seen_eq_of_append {before rest : List Call} {c : Call} :
    c.seen before = (firstList (before ++ c :: rest) c.projectKey).getD c.statuses := by
  rw [firstList_append, Call.seen]
  cases firstList before c.projectKey with
  | some seen => rfl
  | none => simp [firstList]

theorem answersAfter_eq_map (before calls : List Call) :
    answersAfter env before calls = calls.map fun c =>
      c.answer (buildEntry env
        ((firstList (before ++ calls) c.projectKey).getD c.statuses)) := by
  induction calls generalizing before with
  | nil => rfl
  | cons c rest ih =>
      rw [answersAfter, ih, List.map_cons, List.append_assoc, List.singleton_append,
        ← seen_eq_of_append]

/-- Where an id is used by one project, every answer is the uncached one on the list passed with
the project's first question. -/
theorem performAll_firstAnswer (w : World) {asked : List (BindingContext × Question)}
    (hone : OneProjectAnId asked) :
    ((performAll env (callsOf asked)).run (fresh w)).1.map (List.map Except.ok) =
      .ok (asked.map (firstAnswer env w asked)) := by
  obtain ⟨w', hrun, _⟩ := (follows_fresh env w).performAll_run env (callsOf asked)
  rw [hrun, answersAfter_eq_map, List.nil_append, callsOf]
  show Except.ok (List.map Except.ok _) = Except.ok _
  rw [Except.ok.injEq, List.map_map, List.map_map]
  apply List.map_congr_left
  rintro ⟨bctx, q⟩ hmem
  have hlist := firstList_callsOf hone hmem
  rw [callsOf] at hlist
  have huncached := (q.callFor { bctx with statuses := (firstContext asked bctx).statuses
    }).uncached_eq env w
  rw [firstAnswer, huncached, Question.statuses_callFor, ← Question.answer_callFor]
  simp only [Function.comp_apply, Question.projectKey_callFor, hlist, Option.getD_some]

/-- A list edited between two questions. -/
def askedTwice : List (BindingContext × Question) :=
  [(quietBinding, .statusFor (.str "opened")),
    ({ quietBinding with statuses := [⟨"status:new", some "Active"⟩] },
      .statusFor (.str "opened"))]

theorem performAll_firstAnswer_askedTwice :
    ((performAll (.quiet quietBinding) (callsOf askedTwice)).run (fresh .initial)).1.map
        (List.map Except.ok) =
      .ok (askedTwice.map (firstAnswer (.quiet quietBinding) .initial askedTwice)) :=
  performAll_firstAnswer (.quiet quietBinding) .initial (by decide)

/-- The second question is answered from the first list. -/
theorem performAll_askedTwice :
    ((performAll (.quiet quietBinding) (callsOf askedTwice)).run (fresh .initial)).1.map
        (List.map Except.ok) ≠
      .ok ((callsOf askedTwice).map (Call.uncached (.quiet quietBinding) .initial)) := by
  have hanswers : ((performAll (.quiet quietBinding) (callsOf askedTwice)).run
      (fresh .initial)).1 = .ok [.status (some "status:open"), .status (some "status:open")] := by
    decide +kernel
  have huncached : (callsOf askedTwice).map (Call.uncached (.quiet quietBinding) .initial) =
      [.ok (.status (some "status:open")), .ok (.status (some "status:new"))] := by
    decide +kernel
  rw [hanswers, huncached]
  decide

end StatusMap

end HulyGitlab
