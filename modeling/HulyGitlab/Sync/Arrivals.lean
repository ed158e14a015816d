import HulyGitlab.Adapter.Lists
import HulyGitlab.Http.Webhook
import HulyGitlab.Sync.BackfillEvents
import HulyGitlab.Sync.DeferredRecords

/-!
# How records of GitLab come in

By the answer to a list call of a backfill, or by a delivery to the webhook
route. Each event that is enqueued carries along whether one of the objects it
was made from is confidential at GitLab, which the program may not know.
-/

namespace HulyGitlab.Arrivals

open Adapter

/-- The handler of the kind an event is enqueued with. -/
def dispatch (env : Env) (e : EnqueuedRecord) : Sync Unit :=
  if e.kind = "issue" then Issues.applyRemote env e.binding e.record
  else if e.kind = "merge_request" then MergeRequests.applyRemote env e.binding e.record
  else if e.kind = "pipeline" then Pipelines.applyRemote env e.binding e.record
  else dispatchRemote env e

/-- A discussion of the list; the raw type has no field for its confidentiality. -/
structure ListedDiscussion where
  raw : RawDiscussion
  confidential : Bool

/-- A child of an epic, which has no such field either. -/
structure ListedChild where
  raw : RawEpicIssue
  confidential : Bool

/-- The answer to a list call, all its pages together. -/
inductive ListAnswer
  | issues (items : List RawIssue)
  | issueNotes (issueIid : Int) (items : List RawNote)
  | mergeRequests (items : List RawMergeRequest)
  | mrNotes (mrIid : Int) (items : List RawNote)
  | discussions (mrIid : Int) (items : List ListedDiscussion)
  | epic (raw : RawEpic) (children : List ListedChild)

/-- A list call is made for a binding, a delivery looks its own up. -/
inductive Arrival
  | answer (binding : BindingRef) (gitlabProjectId : Int) (listed : ListAnswer)
  | hook (q : Webhook.Lookups) (req : Webhook.WebhookRequest)

/-- An event and whether an object in it is confidential. -/
structure Rendered where
  event : EnqueuedRecord
  confidential : Bool

section Items

/-- The time of an update as a text. -/
def timeText (updatedAt : Nat) : String := (JsValue.date updatedAt).text

def issueItem (i : SyncIssue) : BackfillItem := .issue ⟨i.iid, timeText i.updatedAt, i.toFields⟩

def listedNote (n : SyncNote) : ListedNote := ⟨n.id, timeText n.updatedAt, n.system, n.toFields⟩

def mergeRequestItem (m : SyncMergeRequest) : BackfillItem :=
  .mergeRequest ⟨m.iid, timeText m.updatedAt, m.toFields⟩

def reviewItem (t : SyncReviewThread) : BackfillItem :=
  .review t.mergeRequestIid ⟨t.discussionId, timeText t.updatedAt, t.toFields⟩

def epicItem (e : SyncEpic) (childIssueIids : List Int) : BackfillItem :=
  .epic ⟨e.groupId, e.iid, timeText e.updatedAt, e.toFields⟩ childIssueIids

end Items

/-- `if (note.system) continue`. -/
def unlessSystem (n : SyncNote) (item : BackfillItem) : Option BackfillItem :=
  if n.system then none else some item

section Listing

variable (binding : BindingRef) (gitlabProjectId : Int)

def rendered (item : BackfillItem) (confidential : Bool) : Rendered :=
  ⟨item.enqueued binding gitlabProjectId, confidential⟩

/-- What the backfill that made the call enqueues after its answer. -/
def ListAnswer.enqueues : ListAnswer → List Rendered
  | .issues items => items.filterMap fun raw =>
      (keepIssue raw).map fun i => rendered binding gitlabProjectId (issueItem i) raw.confidential
  | .issueNotes issueIid items => items.filterMap fun raw =>
      ((keepNote raw).bind fun n => unlessSystem n (.issueNote issueIid (listedNote n))).map
        fun item => rendered binding gitlabProjectId item (raw.confidential.getD false)
  | .mergeRequests items => items.map fun raw =>
      rendered binding gitlabProjectId (mergeRequestItem (mapMergeRequest raw false))
        raw.confidential
  | .mrNotes mrIid items => items.filterMap fun raw =>
      (unlessSystem (mapMRNote raw) (.mrNote mrIid (listedNote (mapMRNote raw)))).map
        fun item => rendered binding gitlabProjectId item (raw.confidential.getD false)
  | .discussions mrIid items => items.filterMap fun d =>
      (mapDiscussion d.raw gitlabProjectId mrIid).map fun t =>
        rendered binding gitlabProjectId (reviewItem t) d.confidential
  | .epic raw children =>
      [rendered binding gitlabProjectId
        (epicItem (mapEpic raw []) (EpicIssues.ofRows (children.map ListedChild.raw)).iids)
        (raw.confidential.getD false || children.any ListedChild.confidential)]

end Listing

/-- The object of a delivery is confidential; pipelines never are. -/
def hookConfidential (req : Webhook.WebhookRequest) : Bool :=
  req.eventHeader ≠ some Webhook.pipelineEventHeader && Webhook.isConfidential req.payload

/-- What is enqueued. -/
def Arrival.enqueues : Arrival → List Rendered
  | .answer binding gitlabProjectId listed => listed.enqueues binding gitlabProjectId
  | .hook q req => (Webhook.handle q req).2.toList.map fun e => ⟨e, hookConfidential req⟩

/-- The events of a run, in their order. -/
def enqueued (run : List Arrival) : List Rendered := run.flatMap Arrival.enqueues

/-- The state after the handlers of the events of a run. -/
def mirrored (env : Env) (w : World) (run : List Arrival) : World :=
  (enqueued run).foldl (fun w r => ((dispatch env r.event).run w).2) w

end HulyGitlab.Arrivals
