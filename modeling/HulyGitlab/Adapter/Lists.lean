import HulyGitlab.Adapter.Mapping
import HulyGitlab.Lib.Paging

/-!
# The list calls of the adapter

The methods of `GitLabClient` that read a collection, with the requests they
send. Those of merge requests, their notes, discussions and epics follow the
header that names the next page; the others read one page.
-/

namespace HulyGitlab.Adapter

open Paging

inductive AdapterError
  | rateLimit (message : String)
  | auth (message : String)
  | notFound (resource : String)
  | gitLabApi (message : String) (statusCode : Nat)
  | typeError
  deriving DecidableEq

/-- The collections that are listed, each with the shape of its elements. -/
inductive Endpoint : Type → Type
  | issues (projectId : String) : Endpoint RawIssue
  | notes (projectId : String) (issueIid : Int) : Endpoint RawNote
  | labels (projectId : String) : Endpoint RawLabel
  | milestones (projectId : String) : Endpoint RawMilestone
  | mergeRequests (projectId : String) : Endpoint RawMergeRequest
  | mrNotes (projectId : String) (mrIid : Int) : Endpoint RawNote
  | discussions (projectId : String) (mrIid : Int) : Endpoint RawDiscussion
  | epics (groupId : String) : Endpoint RawEpic
  | epicIssues (groupId : String) (epicIid : Int) : Endpoint RawEpicIssue

def Endpoint.path {R : Type} : Endpoint R → String
  | .issues projectId => s!"/api/v4/projects/{projectId}/issues"
  | .notes projectId issueIid => s!"/api/v4/projects/{projectId}/issues/{issueIid}/notes"
  | .labels projectId => s!"/api/v4/projects/{projectId}/labels"
  | .milestones projectId => s!"/api/v4/projects/{projectId}/milestones"
  | .mergeRequests projectId => s!"/api/v4/projects/{projectId}/merge_requests"
  | .mrNotes projectId mrIid => s!"/api/v4/projects/{projectId}/merge_requests/{mrIid}/notes"
  | .discussions projectId mrIid =>
      s!"/api/v4/projects/{projectId}/merge_requests/{mrIid}/discussions"
  | .epics groupId => s!"/api/v4/groups/{groupId}/epics"
  | .epicIssues groupId epicIid => s!"/api/v4/groups/{groupId}/epics/{epicIid}/issues"

abbrev Query := List (String × String)

/-- A `GET` request; `page` is the parameter of that name. -/
structure ListRequest (R : Type) where
  endpoint : Endpoint R
  query : Query
  page : Option String

/-- An answer: its body, as a text and as a list, and the header `x-next-page`. -/
structure Response (R : Type) where
  status : Nat
  text : String
  items : List R
  nextPage : Option String

/-- The instance: what it answers to each attempt of a request. -/
abbrev Server := (R : Type) → ListRequest R → Nat → Response R

def maxRetries : Nat := 5

/-- The first answer that is not 429, within the attempts that are made. -/
def withRateLimitRetry {R : Type} (fn : Nat → Response R) : Except AdapterError (Response R) :=
  match (List.range (maxRetries + 1)).find? fun attempt => (fn attempt).status ≠ 429 with
  | some attempt => .ok (fn attempt)
  | none => .error (.rateLimit s!"Rate limit exceeded after {maxRetries} retries")

section Requests

variable (server : Server) {R S : Type}

/-- `request`, for a `GET` that answers with a list. -/
def request (r : ListRequest R) : Except AdapterError (List R) := do
  let res ← withRateLimitRetry (server R r)
  if res.status = 401 ∨ res.status = 403 then
    throw (.auth s!"GitLab auth error {res.status}: {res.text}")
  else if res.status = 404 then throw (.notFound s!"GET {r.endpoint.path}")
  else if 400 ≤ res.status then
    throw (.gitLabApi s!"GitLab API error {res.status}: {res.text}" res.status)
  else if res.status = 204 then throw .typeError
  else pure res.items

/-- One round of a loop over pages. -/
def fetchPage (endpoint : Endpoint R) (query : Query) : Fetch String AdapterError R := fun page => do
  let res ← withRateLimitRetry (server R ⟨endpoint, query, some page⟩)
  if 400 ≤ res.status then
    throw (.gitLabApi s!"GitLab API error {res.status}: {res.text}" res.status)
  else pure (res.items, if res.nextPage = some "" then none else res.nextPage)

/-- A loop over pages that keeps some of the elements of each. -/
def listPages (fuel : Nat) (endpoint : Endpoint R) (query : Query) (keep : R → Option S) :
    Option (Except AdapterError (List S)) :=
  collect (mapItems keep (fetchPage server endpoint query)) fuel (some "1") []

end Requests

def perPage : Query := [("per_page", "100")]

/-- The parameter for the elements changed after an instant. -/
def updatedAfterQuery (updatedAfter : Option String) : Query :=
  match updatedAfter with
  | none => []
  | some text => [("updated_after", text)]

/-- Confidential elements are dropped. -/
def keepIssue (issue : RawIssue) : Option SyncIssue :=
  if issue.confidential then none else some (mapIssue issue)

def keepNote (note : RawNote) : Option SyncNote :=
  if note.confidential = some true then none else some (mapNote note)

/-- `{ ...mapNote(n), noteableType: 'MergeRequest' }`. -/
def mapMRNote (note : RawNote) : SyncNote := { mapNote note with noteableType := some .MergeRequest }

structure EpicIssues where
  iids : List Int
  projectIds : List Int
  deriving DecidableEq

def EpicIssues.ofRows (rows : List RawEpicIssue) : EpicIssues :=
  ⟨rows.map RawEpicIssue.iid, rows.map RawEpicIssue.project_id⟩

/-- The instance it talks to, and whether that was found to be the enterprise edition. -/
structure GitLabClient where
  server : Server
  isEE : Bool

namespace GitLabClient

variable (client : GitLabClient) (fuel : Nat)

def listIssues (projectId : String) (updatedAfter : Option String) :
    Except AdapterError (List SyncIssue) := do
  let raw ← request client.server
    ⟨.issues projectId, perPage ++ [("confidential", "false")] ++ updatedAfterQuery updatedAfter, none⟩
  pure (raw.filterMap keepIssue)

def listNotes (projectId : String) (issueIid : Int) (updatedAfter : Option String) :
    Except AdapterError (List SyncNote) := do
  let raw ← request client.server
    ⟨.notes projectId issueIid, perPage ++ updatedAfterQuery updatedAfter, none⟩
  pure (raw.filterMap keepNote)

def listLabels (projectId : String) : Except AdapterError (List SyncLabel) := do
  let raw ← request client.server ⟨.labels projectId, perPage, none⟩
  pure (raw.map mapLabel)

def listMilestones (projectId : String) : Except AdapterError (List SyncMilestone) := do
  let raw ← request client.server ⟨.milestones projectId, perPage, none⟩
  pure (raw.map mapMilestone)

def listMergeRequests (projectId : String) (updatedAfter : Option String) :
    Option (Except AdapterError (List SyncMergeRequest)) :=
  listPages client.server fuel (.mergeRequests projectId)
    (perPage ++ [("confidential", "false")] ++ updatedAfterQuery updatedAfter)
    fun raw => some (mapMergeRequest raw false)

def listMRNotes (projectId : String) (mrIid : Int) (updatedAfter : Option String) :
    Option (Except AdapterError (List SyncNote)) :=
  listPages client.server fuel (.mrNotes projectId mrIid) (perPage ++ updatedAfterQuery updatedAfter)
    fun raw => some (mapMRNote raw)

/-- `projectIdNum` is the number that the id of the project is, or is parsed as. -/
def listDiscussions (projectId : String) (projectIdNum mrIid : Int) (updatedAfter : Option String) :
    Option (Except AdapterError (List SyncReviewThread)) :=
  listPages client.server fuel (.discussions projectId mrIid)
    (perPage ++ updatedAfterQuery updatedAfter) fun raw => mapDiscussion raw projectIdNum mrIid

def listEpics (groupId : String) (updatedAfter : Option String) :
    Option (Except AdapterError (List SyncEpic)) :=
  if client.isEE then
    listPages client.server fuel (.epics groupId) (perPage ++ updatedAfterQuery updatedAfter)
      fun raw => some (mapEpic raw [])
  else some (.ok [])

def listEpicIssues (groupId : String) (epicIid : Int) :
    Option (Except AdapterError EpicIssues) :=
  if client.isEE then
    (listPages client.server fuel (.epicIssues groupId epicIid) perPage some).map
      fun rows => rows.map EpicIssues.ofRows
  else some (.ok ⟨[], []⟩)

end GitLabClient

/-- A collection in pages of at most a hundred elements; the first is there even when it is empty. -/
structure Pages (R : Type) where
  first : List R
  later : List (List R)
  atMost : ∀ page ∈ first :: later, page.length ≤ 100

/-- All elements, in order. -/
def Pages.all {R : Type} (p : Pages R) : List R := p.first ++ p.later.flatten

/-- What an instance has at each of its endpoints, for each query. -/
abbrev Collections := (R : Type) → Endpoint R → Query → Pages R

section Serving

variable {R : Type}

/-- After at most as many refusals as there are retries, the page comes with the number of the next
one, or with none. -/
def Delivers (fn : Nat → Response R) (items : List R) (next : Option Nat) : Prop :=
  ∃ attempt, attempt ≤ maxRetries ∧ (∀ earlier < attempt, (fn earlier).status = 429) ∧
    (fn attempt).status = 200 ∧ (fn attempt).items = items ∧
    (fn attempt).nextPage.getD "" = (next.map toString).getD ""

/-- The number of the page after the `k`-th, counted from zero. -/
def Pages.next (p : Pages R) (k : Nat) : Option Nat :=
  if k + 1 < (p.first :: p.later).length then some (k + 2) else none

/-- The instance serves its collections: a page by its number, and without one the first. -/
structure Serves (server : Server) (pages : Collections) : Prop where
  first : ∀ R (endpoint : Endpoint R) query,
    Delivers (server R ⟨endpoint, query, none⟩) (pages R endpoint query).first
      ((pages R endpoint query).next 0)
  numbered : ∀ R (endpoint : Endpoint R) query k items,
    ((pages R endpoint query).first :: (pages R endpoint query).later)[k]? = some items →
      Delivers (server R ⟨endpoint, query, some (toString (k + 1))⟩) items
        ((pages R endpoint query).next k)

/-- What is delivered is what the retries return. -/
theorem withRateLimitRetry_of_delivers {fn : Nat → Response R} {items : List R} {next : Option Nat}
    (h : Delivers fn items next) : ∃ res, withRateLimitRetry fn = .ok res ∧ res.status = 200 ∧
      res.items = items ∧ res.nextPage.getD "" = (next.map toString).getD "" := by
  obtain ⟨attempt, hle, hearlier, hstatus, hitems, hnext⟩ := h
  have hfind : (List.range (maxRetries + 1)).find? (fun attempt => (fn attempt).status ≠ 429) =
      some attempt := by
    rw [List.find?_range_eq_some]
    refine ⟨by simp [hstatus], List.mem_range.mpr (Nat.lt_succ_of_le hle), fun earlier hlt => ?_⟩
    simp [hearlier earlier hlt]
  refine ⟨fn attempt, ?_, hstatus, hitems, hnext⟩
  rw [withRateLimitRetry, hfind]

variable {server : Server} {pages : Collections}

theorem request_of_serves (h : Serves server pages) (endpoint : Endpoint R) (query : Query) :
    request server ⟨endpoint, query, none⟩ = .ok (pages R endpoint query).first := by
  obtain ⟨res, hres, hstatus, hitems, -⟩ :=
    withRateLimitRetry_of_delivers (h.first R endpoint query)
  simp [request, hres, hstatus, hitems, bind, Except.bind, pure, Except.pure]

/-- A printed number is not empty. -/
theorem toString_ne_empty (n : Nat) : toString n ≠ "" := by
  intro h
  have hlist : (Nat.repr n).toList = [] := congrArg String.toList h
  rw [Nat.toList_repr] at hlist
  exact Nat.toDigits_ne_nil hlist

theorem toString_injective {m n : Nat} (h : toString m = toString n) : m = n := by
  have hdigits : Nat.toDigits 10 m = Nat.toDigits 10 n := by
    rw [← Nat.toList_repr, ← Nat.toList_repr]
    exact congrArg String.toList h
  rw [← @Nat.ofDigitChars_ten_toDigits m, hdigits, Nat.ofDigitChars_ten_toDigits]

/-- A round for a page gives its elements, and the number of the next page as a text. -/
theorem fetchPage_of_serves (h : Serves server pages) (endpoint : Endpoint R) (query : Query)
    {k : Nat} {items : List R}
    (hpage : ((pages R endpoint query).first :: (pages R endpoint query).later)[k]? = some items) :
    fetchPage server endpoint query (toString (k + 1)) =
      .ok (items, ((pages R endpoint query).next k).map toString) := by
  obtain ⟨res, hres, hstatus, hitems, hnext⟩ :=
    withRateLimitRetry_of_delivers (h.numbered R endpoint query k items hpage)
  have htoken : (if res.nextPage = some "" then none else res.nextPage) =
      ((pages R endpoint query).next k).map toString := by
    cases hheader : res.nextPage with
    | none =>
      rw [hheader] at hnext
      cases hk : (pages R endpoint query).next k with
      | none => simp
      | some n =>
        rw [hk] at hnext
        exact absurd hnext.symm (toString_ne_empty n)
    | some text =>
      rw [hheader] at hnext
      cases hk : (pages R endpoint query).next k with
      | none =>
        rw [hk] at hnext
        have htext : text = "" := hnext
        simp [htext]
      | some n =>
        rw [hk] at hnext
        have htext : text = toString n := hnext
        rw [htext, if_neg (fun heq => toString_ne_empty n (Option.some.inj heq))]
        rfl
  simp only [fetchPage, hres, hstatus, hitems, bind, Except.bind, pure, Except.pure]
  rw [if_neg (by decide), htoken]

theorem chain_of_serves (h : Serves server pages) (endpoint : Endpoint R) (query : Query) :
    Chain (fetchPage server endpoint query) (some "1")
      ((pages R endpoint query).first :: (pages R endpoint query).later) := by
  have hnumbered := chain_drop (fetchPage server endpoint query)
    ((pages R endpoint query).first :: (pages R endpoint query).later)
    (fun k => toString (k + 1)) (fun k items hpage => by
      rw [fetchPage_of_serves h endpoint query hpage]
      unfold Pages.next
      split
      · rfl
      · rfl) (Nat.succ_pos _)
  exact hnumbered

end Serving

/-- Given enough fuel, the loop ends and returns the value. -/
def Returns {E A : Type} (f : Nat → Option (Except E A)) (a : A) : Prop :=
  ∃ n, ∀ fuel, n ≤ fuel → f fuel = some (.ok a)

theorem returns_iff_of_returns {E A : Type} {f : Nat → Option (Except E A)} {a b : A}
    (h : Returns f a) : Returns f b ↔ a = b := by
  constructor
  · rintro ⟨n, hn⟩
    obtain ⟨m, hm⟩ := h
    have hsame := (hm (max m n) (Nat.le_max_left m n)).symm.trans (hn (max m n) (Nat.le_max_right m n))
    exact Except.ok.inj (Option.some.inj hsame)
  · rintro rfl
    exact h

section Complete

variable {server : Server} {pages : Collections} {R S : Type}

/-- A loop over pages returns what it keeps of all elements, in order. -/
theorem listPages_returns (h : Serves server pages) (endpoint : Endpoint R) (query : Query)
    (keep : R → Option S) : Returns (fun fuel => listPages server fuel endpoint query keep)
      ((pages R endpoint query).all.filterMap keep) :=
  ⟨((pages R endpoint query).first :: (pages R endpoint query).later).length,
    fun _ hfuel => collect_mapItems keep (chain_of_serves h endpoint query) hfuel⟩

/-- What is kept of the first page is what is kept of all, just when nothing else is kept. -/
theorem filterMap_first_eq_iff (p : Pages R) (keep : R → Option S) :
    p.first.filterMap keep = p.all.filterMap keep ↔ ∀ r ∈ p.later.flatten, keep r = none := by
  rw [Pages.all, List.filterMap_append, List.self_eq_append_right, List.filterMap_eq_nil_iff]

end Complete

/-- The arguments of the list calls. -/
structure ListArguments where
  projectId : String
  projectIdNum : Int
  issueIid : Int
  mrIid : Int
  groupId : String
  epicIid : Int
  updatedAfter : Option String

namespace ListArguments

variable (a : ListArguments) (pages : Collections)

/-- The collections that the calls are about. -/
def issues : Pages RawIssue :=
  pages _ (.issues a.projectId)
    (perPage ++ [("confidential", "false")] ++ updatedAfterQuery a.updatedAfter)

def notes : Pages RawNote :=
  pages _ (.notes a.projectId a.issueIid) (perPage ++ updatedAfterQuery a.updatedAfter)

def labels : Pages RawLabel := pages _ (.labels a.projectId) perPage

def milestones : Pages RawMilestone := pages _ (.milestones a.projectId) perPage

def mergeRequests : Pages RawMergeRequest :=
  pages _ (.mergeRequests a.projectId)
    (perPage ++ [("confidential", "false")] ++ updatedAfterQuery a.updatedAfter)

def mrNotes : Pages RawNote :=
  pages _ (.mrNotes a.projectId a.mrIid) (perPage ++ updatedAfterQuery a.updatedAfter)

def discussions : Pages RawDiscussion :=
  pages _ (.discussions a.projectId a.mrIid) (perPage ++ updatedAfterQuery a.updatedAfter)

def epics : Pages RawEpic :=
  pages _ (.epics a.groupId) (perPage ++ updatedAfterQuery a.updatedAfter)

def epicIssues : Pages RawEpicIssue := pages _ (.epicIssues a.groupId a.epicIid) perPage

end ListArguments

/-- Every list call ends and returns the mapped elements of all pages that are not filtered out. -/
structure ListsComplete (client : GitLabClient) (pages : Collections) (a : ListArguments) :
    Prop where
  issues : client.listIssues a.projectId a.updatedAfter =
    .ok ((a.issues pages).all.filterMap keepIssue)
  notes : client.listNotes a.projectId a.issueIid a.updatedAfter =
    .ok ((a.notes pages).all.filterMap keepNote)
  labels : client.listLabels a.projectId = .ok ((a.labels pages).all.map mapLabel)
  milestones : client.listMilestones a.projectId = .ok ((a.milestones pages).all.map mapMilestone)
  mergeRequests : Returns (fun fuel => client.listMergeRequests fuel a.projectId a.updatedAfter)
    ((a.mergeRequests pages).all.map fun raw => mapMergeRequest raw false)
  mrNotes : Returns (fun fuel => client.listMRNotes fuel a.projectId a.mrIid a.updatedAfter)
    ((a.mrNotes pages).all.map mapMRNote)
  discussions : Returns
    (fun fuel => client.listDiscussions fuel a.projectId a.projectIdNum a.mrIid a.updatedAfter)
    ((a.discussions pages).all.filterMap fun raw => mapDiscussion raw a.projectIdNum a.mrIid)
  epics : Returns (fun fuel => client.listEpics fuel a.groupId a.updatedAfter)
    ((a.epics pages).all.map fun raw => mapEpic raw [])
  epicIssues : Returns (fun fuel => client.listEpicIssues fuel a.groupId a.epicIid)
    (EpicIssues.ofRows (a.epicIssues pages).all)

/-- The collections that are read in one page have no other page with an element that counts; and an
instance without epics is the only one not found to be the enterprise edition. -/
structure FitsOnePage (client : GitLabClient) (pages : Collections) (a : ListArguments) :
    Prop where
  issues : ∀ issue ∈ (a.issues pages).later.flatten, issue.confidential = true
  notes : ∀ note ∈ (a.notes pages).later.flatten, note.confidential = some true
  labels : (a.labels pages).later.flatten = []
  milestones : (a.milestones pages).later.flatten = []
  epics : client.isEE = true ∨ (a.epics pages).all = []
  epicIssues : client.isEE = true ∨ (a.epicIssues pages).all = []

section Calls

variable {client : GitLabClient} {pages : Collections} (h : Serves client.server pages)
  (a : ListArguments)
include h

theorem listIssues_complete_iff :
    client.listIssues a.projectId a.updatedAfter = .ok ((a.issues pages).all.filterMap keepIssue) ↔
      ∀ issue ∈ (a.issues pages).later.flatten, issue.confidential = true := by
  have hrequest := request_of_serves h (.issues a.projectId)
    (perPage ++ [("confidential", "false")] ++ updatedAfterQuery a.updatedAfter)
  rw [GitLabClient.listIssues, hrequest]
  change Except.ok ((a.issues pages).first.filterMap keepIssue) = _ ↔ _
  rw [Except.ok.injEq, filterMap_first_eq_iff]
  simp [keepIssue]

theorem listNotes_complete_iff :
    client.listNotes a.projectId a.issueIid a.updatedAfter =
        .ok ((a.notes pages).all.filterMap keepNote) ↔
      ∀ note ∈ (a.notes pages).later.flatten, note.confidential = some true := by
  have hrequest := request_of_serves h (.notes a.projectId a.issueIid)
    (perPage ++ updatedAfterQuery a.updatedAfter)
  rw [GitLabClient.listNotes, hrequest]
  change Except.ok ((a.notes pages).first.filterMap keepNote) = _ ↔ _
  rw [Except.ok.injEq, filterMap_first_eq_iff]
  simp [keepNote]

theorem listLabels_complete_iff :
    client.listLabels a.projectId = .ok ((a.labels pages).all.map mapLabel) ↔
      (a.labels pages).later.flatten = [] := by
  rw [GitLabClient.listLabels, request_of_serves h (.labels a.projectId) perPage]
  change Except.ok ((a.labels pages).first.map mapLabel) = _ ↔ _
  rw [Except.ok.injEq, Pages.all, List.map_append, List.self_eq_append_right, List.map_eq_nil_iff]

theorem listMilestones_complete_iff :
    client.listMilestones a.projectId = .ok ((a.milestones pages).all.map mapMilestone) ↔
      (a.milestones pages).later.flatten = [] := by
  rw [GitLabClient.listMilestones, request_of_serves h (.milestones a.projectId) perPage]
  change Except.ok ((a.milestones pages).first.map mapMilestone) = _ ↔ _
  rw [Except.ok.injEq, Pages.all, List.map_append, List.self_eq_append_right, List.map_eq_nil_iff]

/-- A loop that drops nothing returns every element. -/
theorem listPages_returns_map {R S : Type} (endpoint : Endpoint R) (query : Query) (f : R → S) :
    Returns (fun fuel => listPages client.server fuel endpoint query fun raw => some (f raw))
      ((pages R endpoint query).all.map f) := by
  have hreturns := listPages_returns h endpoint query fun raw => some (f raw)
  rwa [List.filterMap_eq_map'] at hreturns

theorem listEpics_complete_iff :
    Returns (fun fuel => client.listEpics fuel a.groupId a.updatedAfter)
        ((a.epics pages).all.map fun raw => mapEpic raw []) ↔
      client.isEE = true ∨ (a.epics pages).all = [] := by
  unfold GitLabClient.listEpics
  cases client.isEE with
  | true =>
    have hreturns := listPages_returns_map h (.epics a.groupId)
      (perPage ++ updatedAfterQuery a.updatedAfter) fun raw => mapEpic raw []
    exact iff_of_true hreturns (.inl rfl)
  | false =>
    have hnone : Returns (fun _ => some (.ok [] : Except AdapterError (List SyncEpic))) [] :=
      ⟨0, fun _ _ => rfl⟩
    refine (returns_iff_of_returns hnone).trans ?_
    rw [eq_comm, List.map_eq_nil_iff]
    exact ⟨.inr, fun hor => hor.resolve_left Bool.false_ne_true⟩

theorem listEpicIssues_complete_iff :
    Returns (fun fuel => client.listEpicIssues fuel a.groupId a.epicIid)
        (EpicIssues.ofRows (a.epicIssues pages).all) ↔
      client.isEE = true ∨ (a.epicIssues pages).all = [] := by
  unfold GitLabClient.listEpicIssues
  cases client.isEE with
  | true =>
    obtain ⟨n, hn⟩ := listPages_returns h (.epicIssues a.groupId a.epicIid) perPage some
    refine iff_of_true ⟨n, fun fuel hfuel => ?_⟩ (.inl rfl)
    have hrows := hn fuel hfuel
    dsimp only at hrows ⊢
    rw [if_pos rfl, hrows, List.filterMap_some]
    rfl
  | false =>
    have hnone : Returns (fun _ => some (.ok ⟨[], []⟩ : Except AdapterError EpicIssues)) ⟨[], []⟩ :=
      ⟨0, fun _ _ => rfl⟩
    refine (returns_iff_of_returns hnone).trans ?_
    rw [eq_comm, EpicIssues.ofRows, EpicIssues.mk.injEq, List.map_eq_nil_iff, List.map_eq_nil_iff,
      and_self]
    exact ⟨.inr, fun hor => hor.resolve_left Bool.false_ne_true⟩

/-- The list calls return whole collections, just when those read in one page fit it. -/
theorem lists_complete_iff : ListsComplete client pages a ↔ FitsOnePage client pages a := by
  constructor
  · intro hcomplete
    constructor
    · exact (listIssues_complete_iff h a).mp hcomplete.issues
    · exact (listNotes_complete_iff h a).mp hcomplete.notes
    · exact (listLabels_complete_iff h a).mp hcomplete.labels
    · exact (listMilestones_complete_iff h a).mp hcomplete.milestones
    · exact (listEpics_complete_iff h a).mp hcomplete.epics
    · exact (listEpicIssues_complete_iff h a).mp hcomplete.epicIssues
  · intro hfits
    constructor
    · exact (listIssues_complete_iff h a).mpr hfits.issues
    · exact (listNotes_complete_iff h a).mpr hfits.notes
    · exact (listLabels_complete_iff h a).mpr hfits.labels
    · exact (listMilestones_complete_iff h a).mpr hfits.milestones
    · exact listPages_returns_map h (.mergeRequests a.projectId) _ _
    · exact listPages_returns_map h (.mrNotes a.projectId a.mrIid) _ _
    · exact listPages_returns h (.discussions a.projectId a.mrIid) _ _
    · exact (listEpics_complete_iff h a).mpr hfits.epics
    · exact (listEpicIssues_complete_iff h a).mpr hfits.epicIssues

end Calls

section Examples

/-- An instance that never refuses a request. -/
def serving (pages : Collections) : Server := fun R r _ =>
  let p := pages R r.endpoint r.query
  let numbers := List.range (p.first :: p.later).length
  let k := (r.page.map fun text => (numbers.find? fun k => toString (k + 1) = text).getD
    (p.first :: p.later).length).getD 0
  ⟨200, "", ((p.first :: p.later)[k]?).getD [], (p.next k).map toString⟩

theorem serving_serves (pages : Collections) : Serves (serving pages) pages := by
  constructor
  · intro R endpoint query
    exact ⟨0, Nat.zero_le _, fun _ hlt => absurd hlt (Nat.not_lt_zero _), rfl, rfl, rfl⟩
  · intro R endpoint query k items hpage
    have hk : k < ((pages R endpoint query).first :: (pages R endpoint query).later).length :=
      (List.getElem?_eq_some_iff.mp hpage).1
    have hfind : (List.range ((pages R endpoint query).first ::
        (pages R endpoint query).later).length).find? (fun j => toString (j + 1) = toString (k + 1)) =
          some k := by
      rw [List.find?_range_eq_some]
      refine ⟨by simp, List.mem_range.mpr hk, fun j hj => ?_⟩
      have hne : toString (j + 1) ≠ toString (k + 1) := fun heq =>
        Nat.ne_of_lt hj (Nat.succ.inj (toString_injective heq))
      exact (Bool.not_eq_true' _).mpr (decide_eq_false hne)
    refine ⟨0, Nat.zero_le _, fun _ hlt => absurd hlt (Nat.not_lt_zero _), rfl, ?_, ?_⟩
    · simp only [serving, Option.map_some, Option.getD_some, hfind, hpage]
    · simp only [serving, Option.map_some, Option.getD_some, hfind]

def noPages {R : Type} : Pages R where
  first := []
  later := []
  atMost := by simp

/-- A project with a hundred and one labels. -/
def manyLabels : Collections := fun R endpoint _ =>
  match endpoint with
  | .labels _ =>
      { first := List.replicate 100 ⟨1, "bug", "#ff0000", none⟩
        later := [[⟨101, "feature", "#00ff00", none⟩]]
        atMost := by simp }
  | _ => noPages

def exampleArguments : ListArguments := ⟨"7", 7, 1, 1, "2", 1, none⟩

def exampleClient : GitLabClient := ⟨serving manyLabels, true⟩

theorem lists_complete_iff_manyLabels :
    ListsComplete exampleClient manyLabels exampleArguments ↔
      FitsOnePage exampleClient manyLabels exampleArguments :=
  lists_complete_iff (show Serves exampleClient.server manyLabels from serving_serves manyLabels)
    exampleArguments

/-- The last label is not returned. -/
theorem labels_incomplete : ¬ ∀ (client : GitLabClient) (pages : Collections) (a : ListArguments),
    Serves client.server pages → ListsComplete client pages a := by
  intro h
  have hserves : Serves exampleClient.server manyLabels := serving_serves manyLabels
  have hcomplete := h exampleClient manyLabels exampleArguments hserves
  have hnone := (listLabels_complete_iff hserves exampleArguments).mp hcomplete.labels
  exact absurd hnone (List.cons_ne_nil _ _)

end Examples

end HulyGitlab.Adapter
