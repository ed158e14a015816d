import HulyGitlab.Sync.MergeRequests
import HulyGitlab.Sync.StatusCache

/-!
# States that come back from their status

A status given to a remote state is mapped back by the local path. The tables
of `status-map.ts` and `mr-status-map.ts` have two sides, and merge requests
fall back to an active status when the project lacks the wanted category.
-/

namespace HulyGitlab

/-- The word GitLab has for the state. -/
def IssueState.text : IssueState → String
  | .opened => "opened"
  | .closed => "closed"

namespace StatusMap

variable {env : Env}

/-- The statuses of a project are documents, and a category is on one side at most. -/
structure ProjectStatuses (env : Env) (statuses : List Status) : Prop where
  unique : ∀ s ∈ statuses, ∀ t ∈ statuses, s._id = t._id → s = t
  oneSided : ∀ s ∈ statuses, categoryMatches env s CLOSED_CATEGORY_KEYWORDS = true →
    categoryMatches env s OPEN_CATEGORY_KEYWORDS = false

theorem exists_of_firstWith {statuses : List Status} {keywords : List String} {ref : Ref}
    (h : firstWith env statuses keywords = some ref) :
    ∃ s ∈ statuses, s._id = ref ∧ categoryMatches env s keywords = true := by
  obtain ⟨s, hs, rfl⟩ := Option.map_eq_some_iff.mp h
  have hmatch : categoryMatches env s keywords = true := by simpa using List.find?_some hs
  exact ⟨s, List.mem_of_find?_eq_some hs, rfl, hmatch⟩

theorem firstWith_eq_none_iff {statuses : List Status} {keywords : List String} :
    firstWith env statuses keywords = none ↔
      ∀ s ∈ statuses, categoryMatches env s keywords = false := by
  simp [firstWith, List.find?_eq_none]

/-- In a project's list every occurrence of a reference is on the same side. -/
theorem ProjectStatuses.sideIn_eq {statuses : List Status} (h : ProjectStatuses env statuses)
    {s : Status} (hs : s ∈ statuses) : sideIn env statuses s._id = side env s := by
  have hall : ∀ t ∈ statuses, (if t._id = s._id then side env t else none) =
      if t._id = s._id then side env s else none := by
    intro t ht
    split
    · next hid => rw [h.unique t ht s hs hid]
    · rfl
  cases hside : side env s with
  | none =>
      rw [sideIn, List.findSome?_eq_none_iff]
      intro t ht
      rw [hall t (List.mem_reverse.mp ht), hside, ite_self]
  | some state =>
      cases hfound : sideIn env statuses s._id with
      | none =>
          have hself := List.findSome?_eq_none_iff.mp hfound s (List.mem_reverse.mpr hs)
          rw [if_pos rfl, hside] at hself
          exact absurd hself (by simp)
      | some found =>
          obtain ⟨t, ht, htside⟩ := List.exists_of_findSome?_eq_some hfound
          rw [hall t (List.mem_reverse.mp ht), hside] at htside
          split at htside
          · exact htside.symm
          · simp at htside

theorem ProjectStatuses.side_of_closed {s : Status}
    (hs : categoryMatches env s CLOSED_CATEGORY_KEYWORDS = true) : side env s = some .closed := by
  rw [side, if_pos hs]

theorem ProjectStatuses.side_of_open {statuses : List Status} (h : ProjectStatuses env statuses)
    {s : Status} (hs : s ∈ statuses) (hopen : categoryMatches env s OPEN_CATEGORY_KEYWORDS = true) :
    side env s = some .opened := by
  have hclosed : ¬categoryMatches env s CLOSED_CATEGORY_KEYWORDS = true := by
    intro hclosed
    rw [h.oneSided s hs hclosed] at hopen
    exact absurd hopen (by simp)
  rw [side, if_neg hclosed, if_pos hopen]

/-- The status an entry gives a state is mapped to that state by the same entry. -/
theorem ProjectStatuses.stateOf_statusOf {statuses : List Status}
    (h : ProjectStatuses env statuses) {state : IssueState} {ref : Ref}
    (hstatus : statusOf (buildEntry env statuses) (.str state.text) = some ref) :
    stateOf (buildEntry env statuses) ref = state := by
  rw [statusOf_buildEntry] at hstatus
  obtain ⟨s, hs, rfl, hmatch⟩ := exists_of_firstWith hstatus
  rw [stateOf, inverse_get?, h.sideIn_eq hs]
  cases state with
  | opened => rw [h.side_of_open hs hmatch, Option.getD_some]
  | closed => rw [ProjectStatuses.side_of_closed hmatch, Option.getD_some]

/-- After calls with project lists, the status given to a state is mapped back to it. -/
theorem mapHulyStatus_mapRemoteState {calls : List Call}
    (hcalls : ∀ c ∈ calls, ProjectStatuses env c.statuses) (w : World) (projectKey : String)
    {statuses : List Status} (hstatuses : ProjectStatuses env statuses) {state : IssueState}
    {ref : Ref} {w' : World}
    (hstatus : (mapRemoteState env projectKey (.str state.text) statuses).run
      ((performAll env calls).run (fresh w)).2 = (.ok (some ref), w')) :
    ((mapHulyStatus env projectKey (.str ref) statuses).run w').1 = .ok state := by
  obtain ⟨reached, hrun, hfollows⟩ := (follows_fresh env w).performAll_run env calls
  rw [hrun, mapRemoteState_run, Prod.mk.injEq, Except.ok.injEq] at hstatus
  obtain ⟨hstatus, rfl⟩ := hstatus
  rw [mapHulyStatus_run]
  show Except.ok (stateOf (entryOf env (remembered env reached.statusCache projectKey statuses)
    projectKey statuses) ref) = _
  rw [entryOf_remembered, Except.ok.injEq]
  have hentry := hfollows.entryOf_eq env (.mapHulyStatus projectKey (.str ref) statuses)
  change entryOf env reached.statusCache projectKey statuses = _ at hentry
  rw [hentry] at hstatus ⊢
  apply ProjectStatuses.stateOf_statusOf ?_ hstatus
  -- the entry was built from the first list under the key, or is built now
  rw [Call.seen, List.nil_append]
  show ProjectStatuses env ((firstList calls projectKey).getD statuses)
  cases hlist : firstList calls projectKey with
  | none => exact hstatuses
  | some seen =>
      obtain ⟨c, hc, rfl⟩ := Option.map_eq_some_iff.mp hlist
      exact hcalls c (List.mem_of_find?_eq_some hc)

end StatusMap

namespace MRStatusMap

open StatusMap

variable {env : Env}

theorem categoryMatches_of_subset {s : Status} {keywords more : List String}
    (hmore : ∀ k ∈ keywords, k ∈ more) (h : categoryMatches env s keywords = true) :
    categoryMatches env s more = true := by
  obtain ⟨k, hk, hincludes⟩ := List.any_eq_true.mp h
  exact List.any_eq_true.mpr ⟨k, hmore k hk, hincludes⟩

theorem closed_of_done {s : Status} (h : categoryMatches env s DONE_KEYWORDS = true) :
    categoryMatches env s CLOSED_CATEGORY_KEYWORDS = true :=
  categoryMatches_of_subset (by decide) h

theorem closed_of_cancelled {s : Status} (h : categoryMatches env s CANCELLED_KEYWORDS = true) :
    categoryMatches env s CLOSED_CATEGORY_KEYWORDS = true :=
  categoryMatches_of_subset (by decide) h

/-- The closed side of issues is the done and the cancelled categories of merge requests. -/
theorem closed_iff {s : Status} : categoryMatches env s CLOSED_CATEGORY_KEYWORDS = true ↔
    categoryMatches env s DONE_KEYWORDS = true ∨
      categoryMatches env s CANCELLED_KEYWORDS = true := by
  constructor
  · intro h
    obtain ⟨k, hk, hincludes⟩ := List.any_eq_true.mp h
    have hside : ∀ k ∈ CLOSED_CATEGORY_KEYWORDS, k ∈ DONE_KEYWORDS ∨ k ∈ CANCELLED_KEYWORDS := by
      decide
    exact (hside k hk).imp (fun hdone => List.any_eq_true.mpr ⟨k, hdone, hincludes⟩)
      fun hcancelled => List.any_eq_true.mpr ⟨k, hcancelled, hincludes⟩
  · rintro (h | h)
    · exact closed_of_done h
    · exact closed_of_cancelled h

/-- The event a side stands for. -/
def eventOf : Option IssueState → Option String
  | some .closed => some "close"
  | some .opened => some "reopen"
  | none => none

theorem event_eq (s : Status) :
    (if categoryMatches env s DONE_KEYWORDS = true ∨ categoryMatches env s CANCELLED_KEYWORDS = true
      then some "close"
      else if categoryMatches env s ACTIVE_KEYWORDS = true then some "reopen" else none) =
      eventOf (side env s) := by
  rw [side]
  by_cases hclosed : categoryMatches env s CLOSED_CATEGORY_KEYWORDS = true
  · rw [if_pos (closed_iff.mp hclosed), if_pos hclosed, eventOf]
  · rw [if_neg (fun h => hclosed (closed_iff.mpr h)), if_neg hclosed]
    by_cases hopen : categoryMatches env s OPEN_CATEGORY_KEYWORDS = true
    · rw [if_pos hopen, if_pos (show categoryMatches env s ACTIVE_KEYWORDS = true from hopen),
        eventOf]
    · rw [if_neg hopen, if_neg (show ¬categoryMatches env s ACTIVE_KEYWORDS = true from hopen),
        eventOf]

/-- The event of a reference is that of a status of the list under it. -/
theorem event_iff {statuses : List Status} (h : ProjectStatuses env statuses) (ref : JsValue)
    (event : String) :
    mapHulyStatusToMRStateEvent env ref statuses = some event ↔
      ∃ s ∈ statuses, ref = .str s._id ∧ eventOf (side env s) = some event := by
  rw [mapHulyStatusToMRStateEvent]
  cases hfind : statuses.find? fun s => JsValue.str s._id = ref with
  | none =>
      refine ⟨fun hnone => absurd hnone (by simp), ?_⟩
      rintro ⟨s, hs, rfl, -⟩
      exact absurd (List.find?_eq_none.mp hfind s hs) (by simp)
  | some s =>
      have hs := List.mem_of_find?_eq_some hfind
      have href : JsValue.str s._id = ref := by simpa using List.find?_some hfind
      show (if _ then _ else _) = _ ↔ _
      rw [event_eq]
      constructor
      · intro hevent
        exact ⟨s, hs, href.symm, hevent⟩
      · rintro ⟨t, ht, hreft, hevent⟩
        have hid : s._id = t._id := JsValue.str.inj (href.trans hreft)
        rwa [h.unique s hs t ht hid]

theorem event_str {statuses : List Status} (h : ProjectStatuses env statuses) {s : Status}
    (hs : s ∈ statuses) :
    mapHulyStatusToMRStateEvent env (.str s._id) statuses = eventOf (side env s) := by
  apply Option.ext
  intro event
  rw [event_iff h]
  constructor
  · rintro ⟨t, ht, href, hevent⟩
    rwa [h.unique s hs t ht (JsValue.str.inj href)]
  · intro hevent
    exact ⟨s, hs, rfl, hevent⟩

/-- No event reopens where no status of the list is active. -/
theorem event_ne_reopen {statuses : List Status} (h : ProjectStatuses env statuses)
    (hactive : findFirst env statuses ACTIVE_KEYWORDS = none) (ref : JsValue) :
    mapHulyStatusToMRStateEvent env ref statuses ≠ some "reopen" := by
  intro hevent
  obtain ⟨s, hs, -, hside⟩ := (event_iff h ref "reopen").mp hevent
  have hopen : categoryMatches env s OPEN_CATEGORY_KEYWORDS = false :=
    firstWith_eq_none_iff.mp hactive s hs
  rw [side, hopen] at hside
  split at hside <;> exact absurd hside (by simp [eventOf])

theorem event_of_active {statuses : List Status} (h : ProjectStatuses env statuses) {ref : Ref}
    (hactive : findFirst env statuses ACTIVE_KEYWORDS = some ref) :
    mapHulyStatusToMRStateEvent env (.str ref) statuses = some "reopen" := by
  obtain ⟨s, hs, rfl, hmatch⟩ := exists_of_firstWith hactive
  rw [event_str h hs, h.side_of_open hs hmatch, eventOf]

/-- A status looked for by closed keywords reopens exactly when the active fallback is taken. -/
theorem event_firstOr_closed {statuses : List Status} (h : ProjectStatuses env statuses)
    {keywords : List String} (hclosed : ∀ s : Status, categoryMatches env s keywords = true →
      categoryMatches env s CLOSED_CATEGORY_KEYWORDS = true) (current : JsValue) :
    mapHulyStatusToMRStateEvent env (firstOr env statuses keywords current) statuses =
        some "reopen" ↔
      findFirst env statuses keywords = none ∧ findFirst env statuses ACTIVE_KEYWORDS ≠ none := by
  rw [firstOr]
  cases hfirst : findFirst env statuses keywords with
  | some ref =>
      obtain ⟨s, hs, rfl, hmatch⟩ := exists_of_firstWith hfirst
      show mapHulyStatusToMRStateEvent env (.str s._id) statuses = _ ↔ _
      rw [event_str h hs, ProjectStatuses.side_of_closed (hclosed s hmatch)]
      simp [eventOf]
  | none =>
      cases hactive : findFirst env statuses ACTIVE_KEYWORDS with
      | some ref =>
          show mapHulyStatusToMRStateEvent env (.str ref) statuses = _ ↔ _
          rw [event_of_active h hactive]
          simp
      | none =>
          show mapHulyStatusToMRStateEvent env current statuses = _ ↔ _
          simp [event_ne_reopen h hactive current]

/-- An open record closes exactly where the project has no active status and the current one
is closed. -/
theorem event_firstOr_active {statuses : List Status} (h : ProjectStatuses env statuses)
    (current : JsValue) :
    mapHulyStatusToMRStateEvent env (firstOr env statuses ACTIVE_KEYWORDS current) statuses =
        some "close" ↔
      findFirst env statuses ACTIVE_KEYWORDS = none ∧
        ∃ s ∈ statuses, current = .str s._id ∧
          categoryMatches env s CLOSED_CATEGORY_KEYWORDS = true := by
  rw [firstOr]
  cases hactive : findFirst env statuses ACTIVE_KEYWORDS with
  | some ref =>
      show mapHulyStatusToMRStateEvent env (.str ref) statuses = _ ↔ _
      rw [event_of_active h hactive]
      simp
  | none =>
      show mapHulyStatusToMRStateEvent env current statuses = _ ↔ _
      rw [event_iff h]
      have hside : ∀ s, eventOf (side env s) = some "close" ↔
          categoryMatches env s CLOSED_CATEGORY_KEYWORDS = true := by
        intro s
        rw [side]
        split
        · next hclosed => simp [eventOf, hclosed]
        · next hclosed => split <;> simp [eventOf, hclosed]
      simp only [hside, true_and]

/-- The event of the status that a remote state is given. -/
def eventAfter (env : Env) (remote : String) (draft currentStatusRef : JsValue)
    (statuses : List Status) : Option String :=
  mapHulyStatusToMRStateEvent env
    (mapRemoteMRState env (.str remote) draft currentStatusRef statuses).status statuses

theorem eventAfter_closed (draft current : JsValue) (statuses : List Status) :
    eventAfter env "closed" draft current statuses = mapHulyStatusToMRStateEvent env
      (firstOr env statuses CANCELLED_KEYWORDS current) statuses := rfl

theorem eventAfter_merged (draft current : JsValue) (statuses : List Status) :
    eventAfter env "merged" draft current statuses = mapHulyStatusToMRStateEvent env
      (firstOr env statuses DONE_KEYWORDS current) statuses := rfl

theorem eventAfter_opened (draft current : JsValue) (statuses : List Status) :
    eventAfter env "opened" draft current statuses = mapHulyStatusToMRStateEvent env
      (firstOr env statuses ACTIVE_KEYWORDS current) statuses := by
  rw [eventAfter, mapRemoteMRState, if_neg (by simp), if_neg (by simp), if_neg (by simp)]
  split <;> rfl

/-- Issue states come back from the status they are given. A merge request's state is bounced
exactly where its project lacks the category and the fallback is on the other side. -/
theorem states_come_back (calls : List Call)
    (hcalls : ∀ c ∈ calls, ProjectStatuses env c.statuses)
    (w : World) (projectKey : String) {statuses : List Status}
    (hstatuses : ProjectStatuses env statuses) (draft current : JsValue) :
    (∀ (state : IssueState) (ref : Ref) (w' : World),
      (mapRemoteState env projectKey (.str state.text) statuses).run
          ((performAll env calls).run (fresh w)).2 = (.ok (some ref), w') →
        ((mapHulyStatus env projectKey (.str ref) statuses).run w').1 = .ok state) ∧
    (eventAfter env "closed" draft current statuses = some "reopen" ↔
      findFirst env statuses CANCELLED_KEYWORDS = none ∧
        findFirst env statuses ACTIVE_KEYWORDS ≠ none) ∧
    (eventAfter env "merged" draft current statuses = some "reopen" ↔
      findFirst env statuses DONE_KEYWORDS = none ∧
        findFirst env statuses ACTIVE_KEYWORDS ≠ none) ∧
    (eventAfter env "opened" draft current statuses = some "close" ↔
      findFirst env statuses ACTIVE_KEYWORDS = none ∧
        ∃ s ∈ statuses, current = .str s._id ∧
          categoryMatches env s CLOSED_CATEGORY_KEYWORDS = true) := by
  refine ⟨?_, ?_, ?_, ?_⟩
  · intro state ref w' hstatus
    exact mapHulyStatus_mapRemoteState hcalls w projectKey hstatuses hstatus
  · rw [eventAfter_closed]
    exact event_firstOr_closed hstatuses (fun _ => closed_of_cancelled) current
  · rw [eventAfter_merged]
    exact event_firstOr_closed hstatuses (fun _ => closed_of_done) current
  · rw [eventAfter_opened]
    exact event_firstOr_active hstatuses current

theorem projectStatuses_quiet :
    ProjectStatuses (.quiet quietBinding) quietBinding.statuses where
  unique := by decide
  oneSided := by decide +kernel

/-- A project with an active and a done status, and none for a closed merge request. -/
theorem states_come_back_quiet :
    ((mapHulyStatus (.quiet quietBinding) "7" (.str "status:done") quietBinding.statuses).run
      ((mapRemoteState (.quiet quietBinding) "7" (.str "closed") quietBinding.statuses).run
        (fresh .initial)).2).1 = .ok .closed ∧
    eventAfter (.quiet quietBinding) "merged" (.bool false) (.str "status:open")
      quietBinding.statuses ≠ some "reopen" ∧
    eventAfter (.quiet quietBinding) "opened" (.bool true) (.str "status:done")
      quietBinding.statuses ≠ some "close" := by
  have hback := states_come_back [] (by simp) .initial "7" projectStatuses_quiet
    (.bool false) (.str "status:open")
  have hopened := states_come_back [] (by simp) .initial "7" projectStatuses_quiet
    (.bool true) (.str "status:done")
  have hdone : findFirst (.quiet quietBinding) quietBinding.statuses DONE_KEYWORDS =
      some "status:done" := by decide +kernel
  have hactive : findFirst (.quiet quietBinding) quietBinding.statuses ACTIVE_KEYWORDS =
      some "status:open" := by decide +kernel
  have hstatus : ((mapRemoteState (.quiet quietBinding) "7" (.str "closed")
      quietBinding.statuses).run (fresh .initial)).1 = .ok (some "status:done") := by
    decide +kernel
  refine ⟨hback.1 .closed "status:done" _ (Prod.ext hstatus rfl), ?_, ?_⟩
  · intro hevent
    have hnone := (hback.2.2.1.mp hevent).1
    rw [hdone] at hnone
    exact absurd hnone (by simp)
  · intro hevent
    have hnone := (hopened.2.2.2.mp hevent).1
    rw [hactive] at hnone
    exact absurd hnone (by simp)

/-- A closed merge request of such a project gets the active status, which reopens it. -/
theorem closed_reopens_quiet :
    ProjectStatuses (.quiet quietBinding) quietBinding.statuses ∧
      eventAfter (.quiet quietBinding) "closed" (.bool false) (.str "status:done")
        quietBinding.statuses = some "reopen" :=
  ⟨projectStatuses_quiet, by decide +kernel⟩

end MRStatusMap

end HulyGitlab
