import HulyGitlab.Sync.Engine
import HulyGitlab.Sync.Keys

/-!
# Event ids of the backfill

What the `backfill` methods of the five managers enqueue, and the event id and
version they enqueue it under. Issues and notes have their update times as
texts; the dates of the other records stand as their `toISOString`.
-/

namespace HulyGitlab

/-- An issue or a merge request of a list. -/
structure ListedRecord where
  iid : Int
  updatedAt : String
  record : Fields

structure ListedNote where
  id : Int
  updatedAt : String
  system : Bool
  record : Fields

structure ListedThread where
  discussionId : String
  updatedAt : String
  record : Fields

structure ListedEpic where
  groupId : Int
  iid : Int
  updatedAt : String
  record : Fields

/-- What GitLab answers; the argument of a list is the time from which records
were updated. The client of the notes manager may know no merge requests. -/
structure BackfillClient where
  listIssues : Option String → List ListedRecord
  listNotes : Int → Option String → List ListedNote
  knowsMergeRequests : Bool
  listMergeRequests : Option String → List ListedRecord
  listMRNotes : Int → Option String → List ListedNote
  listDiscussions : Int → Option String → List ListedThread
  resolveTopLevelGroupForProject : Int
  listEpics : Int → Option String → List ListedEpic
  listEpicIssues : Int → Int → List Int

/-- A record that a backfill enqueues, with what it was listed under. -/
inductive BackfillItem
  | issue (listed : ListedRecord)
  | issueNote (issueIid : Int) (note : ListedNote)
  | mrNote (mrIid : Int) (note : ListedNote)
  | mergeRequest (listed : ListedRecord)
  | review (mrIid : Int) (thread : ListedThread)
  | epic (listed : ListedEpic) (childIssueIids : List Int)

/-- The kind of a record, its ids, and the time of its update. -/
inductive BackfillSubject
  | issue (iid : Int) (updatedAt : String)
  | issueNote (issueIid noteId : Int) (updatedAt : String)
  | mrNote (mrIid noteId : Int) (updatedAt : String)
  | mergeRequest (iid : Int) (updatedAt : String)
  | review (mrIid : Int) (discussionId : String) (updatedAt : String)
  | epic (groupId iid : Int) (updatedAt : String)
  deriving DecidableEq

namespace BackfillSubject

def version : BackfillSubject → String
  | .issue _ updatedAt => updatedAt
  | .issueNote _ _ updatedAt => updatedAt
  | .mrNote _ _ updatedAt => updatedAt
  | .mergeRequest _ updatedAt => updatedAt
  | .review _ _ updatedAt => updatedAt
  | .epic _ _ updatedAt => updatedAt

def eventId (gitlabProjectId : Int) : BackfillSubject → String
  | .issue iid updatedAt =>
      "backfill:" ++ toString gitlabProjectId ++ ":" ++ toString iid ++ ":" ++ updatedAt
  | .issueNote issueIid noteId updatedAt =>
      "backfill:" ++ toString gitlabProjectId ++ ":" ++ toString issueIid ++ ":" ++
        toString noteId ++ ":" ++ updatedAt
  | .mrNote mrIid noteId updatedAt =>
      "backfill:mr:" ++ toString gitlabProjectId ++ ":" ++ toString mrIid ++ ":" ++
        toString noteId ++ ":" ++ updatedAt
  | .mergeRequest iid updatedAt =>
      "backfill:mr:" ++ toString gitlabProjectId ++ ":" ++ toString iid ++ ":" ++ updatedAt
  | .review mrIid discussionId updatedAt =>
      "backfill:review:" ++ toString gitlabProjectId ++ ":" ++ toString mrIid ++ ":" ++
        discussionId ++ ":" ++ updatedAt
  | .epic groupId iid updatedAt =>
      "backfill:epic:" ++ toString groupId ++ ":" ++ toString iid ++ ":" ++ updatedAt

end BackfillSubject

namespace BackfillItem

def subject : BackfillItem → BackfillSubject
  | .issue listed => .issue listed.iid listed.updatedAt
  | .issueNote issueIid note => .issueNote issueIid note.id note.updatedAt
  | .mrNote mrIid note => .mrNote mrIid note.id note.updatedAt
  | .mergeRequest listed => .mergeRequest listed.iid listed.updatedAt
  | .review mrIid thread => .review mrIid thread.discussionId thread.updatedAt
  | .epic listed _ => .epic listed.groupId listed.iid listed.updatedAt

def kind : BackfillItem → String
  | .issue _ => "issue"
  | .issueNote _ _ => "note"
  | .mrNote _ _ => "note"
  | .mergeRequest _ => "merge_request"
  | .review _ _ => "review"
  | .epic _ _ => "epic"

/-- The envelope of a note; the others are enqueued as they were listed. -/
def noteRecord (noteableIid : Int) (note : ListedNote) (noteableType : String) : Fields :=
  [("noteableIid", .num noteableIid),
    ("note", .obj (note.record.set "noteableType" (.str noteableType)))]

def record : BackfillItem → Fields
  | .issue listed => listed.record
  | .issueNote issueIid note => noteRecord issueIid note "Issue"
  | .mrNote mrIid note => noteRecord mrIid note "MergeRequest"
  | .mergeRequest listed => listed.record
  | .review _ thread => thread.record
  | .epic listed childIssueIids =>
      listed.record.set "childIssueIids" (.arr (childIssueIids.map .num))

/-- The arguments of `enqueueRecord`. -/
def enqueued (binding : BindingRef) (gitlabProjectId : Int) (item : BackfillItem) : EnqueuedRecord :=
  ⟨binding, item.kind, item.record, item.subject.eventId gitlabProjectId, item.subject.version⟩

end BackfillItem

/-- The managers with a backfill, by the class that has it. -/
inductive BackfillManager
  | issues
  | notes
  | mergeRequests
  | reviewThreads
  | epics

/-- The records the `backfill` of a manager enqueues, in their order. -/
def BackfillManager.backfill (client : BackfillClient) (since : Option String) :
    BackfillManager → List BackfillItem
  | .issues => (client.listIssues since).map .issue
  | .notes =>
      ((client.listIssues none).flatMap fun issue =>
        ((client.listNotes issue.iid since).filter fun note => !note.system).map
          (.issueNote issue.iid)) ++
      if client.knowsMergeRequests then
        (client.listMergeRequests none).flatMap fun mr =>
          ((client.listMRNotes mr.iid since).filter fun note => !note.system).map (.mrNote mr.iid)
      else []
  | .mergeRequests => (client.listMergeRequests since).map .mergeRequest
  | .reviewThreads => (client.listMergeRequests since).flatMap fun mr =>
      (client.listDiscussions mr.iid since).map (.review mr.iid)
  | .epics =>
      let topGroupId := client.resolveTopLevelGroupForProject
      (client.listEpics topGroupId since).map fun epic =>
        .epic epic (client.listEpicIssues topGroupId epic.iid)

section Injectivity

/-- The text before the first colon, and the text after it. -/
def segment (s : List Char) : List Char := s.takeWhile (· ≠ ':')

def afterSegment (s : List Char) : List Char := (s.dropWhile (· ≠ ':')).drop 1

theorem segment_append {a : List Char} (h : ':' ∉ a) (x : List Char) :
    segment (a ++ ':' :: x) = a ∧ afterSegment (a ++ ':' :: x) = x := by
  have hall : ∀ c ∈ a, decide (c ≠ ':') = true := by
    intro c hc
    exact decide_eq_true fun e => h (e ▸ hc)
  constructor
  · rw [segment, List.takeWhile_append_of_pos hall, List.takeWhile_cons_of_neg (by simp),
      List.append_nil]
  · rw [afterSegment, List.dropWhile_append_of_pos hall, List.dropWhile_cons_of_neg (by simp)]
    rfl

/-- What follows `backfill:` up to the version, cut at its first colon. -/
def BackfillSubject.tag (gitlabProjectId : Int) : BackfillSubject → String
  | .issue _ _ => toString gitlabProjectId
  | .issueNote _ _ _ => toString gitlabProjectId
  | .mrNote _ _ _ => "mr"
  | .mergeRequest _ _ => "mr"
  | .review _ _ _ => "review"
  | .epic _ _ _ => "epic"

def BackfillSubject.ids (gitlabProjectId : Int) : BackfillSubject → List Char
  | .issue iid _ => (toString iid).toList
  | .issueNote issueIid noteId _ => (toString issueIid).toList ++ ':' :: (toString noteId).toList
  | .mrNote mrIid noteId _ =>
      (toString gitlabProjectId).toList ++
        ':' :: ((toString mrIid).toList ++ ':' :: (toString noteId).toList)
  | .mergeRequest iid _ => (toString gitlabProjectId).toList ++ ':' :: (toString iid).toList
  | .review mrIid discussionId _ =>
      (toString gitlabProjectId).toList ++ ':' :: ((toString mrIid).toList ++ ':' :: discussionId.toList)
  | .epic groupId iid _ => (toString groupId).toList ++ ':' :: (toString iid).toList

theorem toList_eventId (gitlabProjectId : Int) (s : BackfillSubject) :
    (s.eventId gitlabProjectId).toList =
      "backfill:".toList ++ ((s.tag gitlabProjectId).toList ++
        ':' :: (s.ids gitlabProjectId ++ ':' :: s.version.toList)) := by
  have hcolon : ":".toList = [':'] := rfl
  have hmr : "backfill:mr:".toList = "backfill:".toList ++ ("mr".toList ++ [':']) := by decide +kernel
  have hreview : "backfill:review:".toList = "backfill:".toList ++ ("review".toList ++ [':']) := by
    decide +kernel
  have hepic : "backfill:epic:".toList = "backfill:".toList ++ ("epic".toList ++ [':']) := by decide +kernel
  cases s with
  | issue iid updatedAt =>
      change ("backfill:" ++ toString gitlabProjectId ++ ":" ++ toString iid ++ ":" ++
        updatedAt).toList = "backfill:".toList ++ ((toString gitlabProjectId).toList ++
          ':' :: ((toString iid).toList ++ ':' :: updatedAt.toList))
      simp only [String.toList_append, hcolon, List.append_assoc, List.cons_append, List.nil_append]
  | issueNote issueIid noteId updatedAt =>
      change ("backfill:" ++ toString gitlabProjectId ++ ":" ++ toString issueIid ++ ":" ++
        toString noteId ++ ":" ++ updatedAt).toList = "backfill:".toList ++
          ((toString gitlabProjectId).toList ++ ':' :: (((toString issueIid).toList ++
            ':' :: (toString noteId).toList) ++ ':' :: updatedAt.toList))
      simp only [String.toList_append, hcolon, List.append_assoc, List.cons_append, List.nil_append]
  | mrNote mrIid noteId updatedAt =>
      change ("backfill:mr:" ++ toString gitlabProjectId ++ ":" ++ toString mrIid ++ ":" ++
        toString noteId ++ ":" ++ updatedAt).toList = "backfill:".toList ++ ("mr".toList ++
          ':' :: (((toString gitlabProjectId).toList ++ ':' :: ((toString mrIid).toList ++
            ':' :: (toString noteId).toList)) ++ ':' :: updatedAt.toList))
      simp only [String.toList_append, hcolon, hmr, List.append_assoc, List.cons_append,
        List.nil_append]
  | mergeRequest iid updatedAt =>
      change ("backfill:mr:" ++ toString gitlabProjectId ++ ":" ++ toString iid ++ ":" ++
        updatedAt).toList = "backfill:".toList ++ ("mr".toList ++
          ':' :: (((toString gitlabProjectId).toList ++ ':' :: (toString iid).toList) ++
            ':' :: updatedAt.toList))
      simp only [String.toList_append, hcolon, hmr, List.append_assoc, List.cons_append,
        List.nil_append]
  | review mrIid discussionId updatedAt =>
      change ("backfill:review:" ++ toString gitlabProjectId ++ ":" ++ toString mrIid ++ ":" ++
        discussionId ++ ":" ++ updatedAt).toList = "backfill:".toList ++ ("review".toList ++
          ':' :: (((toString gitlabProjectId).toList ++ ':' :: ((toString mrIid).toList ++
            ':' :: discussionId.toList)) ++ ':' :: updatedAt.toList))
      simp only [String.toList_append, hcolon, hreview, List.append_assoc, List.cons_append,
        List.nil_append]
  | epic groupId iid updatedAt =>
      change ("backfill:epic:" ++ toString groupId ++ ":" ++ toString iid ++ ":" ++
        updatedAt).toList = "backfill:".toList ++ ("epic".toList ++
          ':' :: (((toString groupId).toList ++ ':' :: (toString iid).toList) ++
            ':' :: updatedAt.toList))
      simp only [String.toList_append, hcolon, hepic, List.append_assoc, List.cons_append,
        List.nil_append]

theorem colon_not_mem_tag (gitlabProjectId : Int) (s : BackfillSubject) :
    ':' ∉ (s.tag gitlabProjectId).toList := by
  have hproject := colon_not_mem_toString gitlabProjectId
  have hmr : ':' ∉ "mr".toList := by decide
  have hreview : ':' ∉ "review".toList := by decide
  have hepic : ':' ∉ "epic".toList := by decide
  cases s with
  | issue iid updatedAt => exact hproject
  | issueNote issueIid noteId updatedAt => exact hproject
  | mrNote mrIid noteId updatedAt => exact hmr
  | mergeRequest iid updatedAt => exact hmr
  | review mrIid discussionId updatedAt => exact hreview
  | epic groupId iid updatedAt => exact hepic

/-- With its version at the end, an event id gives back its first segment and the
segments between. -/
theorem tag_and_ids_of_eventId {gitlabProjectId : Int} {s t : BackfillSubject}
    (hid : s.eventId gitlabProjectId = t.eventId gitlabProjectId)
    (hversion : s.version = t.version) :
    s.tag gitlabProjectId = t.tag gitlabProjectId ∧ s.ids gitlabProjectId = t.ids gitlabProjectId := by
  have htext := congrArg String.toList hid
  rw [toList_eventId, toList_eventId, hversion] at htext
  have hcut := List.append_cancel_left htext
  have hs := segment_append (colon_not_mem_tag gitlabProjectId s)
    (s.ids gitlabProjectId ++ ':' :: t.version.toList)
  have ht := segment_append (colon_not_mem_tag gitlabProjectId t)
    (t.ids gitlabProjectId ++ ':' :: t.version.toList)
  rw [hcut] at hs
  exact ⟨String.toList_inj.mp (hs.1.symm.trans ht.1),
    List.append_cancel_right (hs.2.symm.trans ht.2)⟩

/-- The number a segment stands for. -/
def numberOf (s : List Char) : Int := (parseInt s).getD 0

theorem numberOf_toString (n : Int) : numberOf (toString n).toList = n := by
  have hparse : parseInt (toString n).toList = some n := parseInt_repr n
  rw [numberOf, hparse]
  rfl

/-- One number, or two with a colon between them. -/
def readPair (one : Int → BackfillSubject) (two : Int → Int → BackfillSubject) (s : List Char) :
    BackfillSubject :=
  if ':' ∈ s then two (numberOf (segment s)) (numberOf (afterSegment s)) else one (numberOf s)

/-- The record an event id is about, from its segments and its version. -/
def BackfillSubject.read (tag : String) (ids : List Char) (version : String) : BackfillSubject :=
  if tag = "mr" then
    readPair (.mergeRequest · version) (.mrNote · · version) (afterSegment ids)
  else if tag = "review" then
    .review (numberOf (segment (afterSegment ids)))
      (String.ofList (afterSegment (afterSegment ids))) version
  else if tag = "epic" then .epic (numberOf (segment ids)) (numberOf (afterSegment ids)) version
  else readPair (.issue · version) (.issueNote · · version) ids

theorem readPair_one (one : Int → BackfillSubject) (two : Int → Int → BackfillSubject) (n : Int) :
    readPair one two (toString n).toList = one n := by
  rw [readPair, if_neg (colon_not_mem_toString n), numberOf_toString]

theorem readPair_two (one : Int → BackfillSubject) (two : Int → Int → BackfillSubject) (m n : Int) :
    readPair one two ((toString m).toList ++ ':' :: (toString n).toList) = two m n := by
  obtain ⟨hm, hn⟩ := segment_append (colon_not_mem_toString m) (toString n).toList
  rw [readPair, if_pos (by simp), hm, hn, numberOf_toString, numberOf_toString]

/-- No number is one of the words. -/
theorem toString_ne {word : String} (hword : parseInt word.toList = none) (n : Int) :
    toString n ≠ word := by
  rintro rfl
  have hparse : parseInt (toString n).toList = some n := parseInt_repr n
  rw [hparse] at hword
  cases hword

theorem read_toString (n : Int) (ids : List Char) (version : String) :
    BackfillSubject.read (toString n) ids version =
      readPair (.issue · version) (.issueNote · · version) ids := by
  have hmr : toString n ≠ "mr" := toString_ne (by decide +kernel) n
  have hreview : toString n ≠ "review" := toString_ne (by decide +kernel) n
  have hepic : toString n ≠ "epic" := toString_ne (by decide +kernel) n
  rw [BackfillSubject.read, if_neg hmr, if_neg hreview, if_neg hepic]

theorem read_mr (ids : List Char) (version : String) : BackfillSubject.read "mr" ids version =
    readPair (.mergeRequest · version) (.mrNote · · version) (afterSegment ids) := if_pos rfl

theorem read_review (ids : List Char) (version : String) :
    BackfillSubject.read "review" ids version =
      .review (numberOf (segment (afterSegment ids)))
        (String.ofList (afterSegment (afterSegment ids))) version :=
  (if_neg (by decide)).trans (if_pos rfl)

theorem read_epic (ids : List Char) (version : String) : BackfillSubject.read "epic" ids version =
    .epic (numberOf (segment ids)) (numberOf (afterSegment ids)) version :=
  (if_neg (by decide)).trans ((if_neg (by decide)).trans (if_pos rfl))

theorem read_tag_ids (gitlabProjectId : Int) (s : BackfillSubject) :
    BackfillSubject.read (s.tag gitlabProjectId) (s.ids gitlabProjectId) s.version = s := by
  have hproject : ∀ x, afterSegment ((toString gitlabProjectId).toList ++ ':' :: x) = x := fun x =>
    (segment_append (colon_not_mem_toString gitlabProjectId) x).2
  cases s with
  | issue iid updatedAt => exact (read_toString _ _ _).trans (readPair_one _ _ _)
  | issueNote issueIid noteId updatedAt =>
      exact (read_toString _ _ _).trans (readPair_two _ _ _ _)
  | mrNote mrIid noteId updatedAt =>
      rw [BackfillSubject.tag, read_mr, BackfillSubject.ids, hproject]
      exact readPair_two _ _ _ _
  | mergeRequest iid updatedAt =>
      rw [BackfillSubject.tag, read_mr, BackfillSubject.ids, hproject]
      exact readPair_one _ _ _
  | review mrIid discussionId updatedAt =>
      obtain ⟨hiid, hdiscussion⟩ :=
        segment_append (colon_not_mem_toString mrIid) discussionId.toList
      rw [BackfillSubject.tag, read_review, BackfillSubject.ids, hproject, hiid, hdiscussion,
        numberOf_toString, String.ofList_toList]
      rfl
  | epic groupId iid updatedAt =>
      obtain ⟨hgroup, hiid⟩ := segment_append (colon_not_mem_toString groupId) (toString iid).toList
      rw [BackfillSubject.tag, read_epic, BackfillSubject.ids, hgroup, hiid, numberOf_toString,
        numberOf_toString]
      rfl

theorem BackfillSubject.eq_of_eventId {gitlabProjectId : Int} {s t : BackfillSubject}
    (hid : s.eventId gitlabProjectId = t.eventId gitlabProjectId)
    (hversion : s.version = t.version) : s = t := by
  obtain ⟨htag, hids⟩ := tag_and_ids_of_eventId hid hversion
  rw [← read_tag_ids gitlabProjectId s, htag, hids, hversion, read_tag_ids]

end Injectivity

section Dedup

open Engine

variable (binding : BindingRef) (gitlabProjectId : Int)

/-- `checkAndMarkSeen` for a record of a backfill, at the time it is enqueued. -/
def checkAndMarkSeen (rows : Registry DedupDoc) (now : Nat) (item : BackfillItem) :
    Bool × Registry DedupDoc :=
  let e := item.enqueued binding gitlabProjectId
  if seen rows e.binding e.eventId e.version then (true, rows)
  else (false, rows.add ⟨e.binding, e.eventId, e.version, now⟩)

/-- The table after the records were taken in one after the other. -/
def tableAfter (enqueues : List (Nat × BackfillItem)) : Registry DedupDoc :=
  enqueues.foldl (fun rows e => (checkAndMarkSeen binding gitlabProjectId rows e.1 e.2).2) .empty

theorem seen_iff {rows : Registry DedupDoc} {eventId version : String} :
    seen rows binding eventId version = true ↔
      ∃ d ∈ rows.values, d.bindingId = binding ∧ d.eventId = eventId ∧ d.version = version := by
  simp [seen, List.any_eq_true, and_assoc]

theorem seen_checkAndMarkSeen (rows : Registry DedupDoc) (now : Nat) (item : BackfillItem)
    (eventId version : String) :
    seen (checkAndMarkSeen binding gitlabProjectId rows now item).2 binding eventId version = true ↔
      seen rows binding eventId version = true ∨
        item.subject.eventId gitlabProjectId = eventId ∧ item.subject.version = version := by
  unfold checkAndMarkSeen BackfillItem.enqueued
  dsimp only
  split
  · rename_i hseen
    refine ⟨.inl, Or.rec id ?_⟩
    rintro ⟨rfl, rfl⟩
    exact hseen
  · rw [seen_iff, seen_iff, Registry.values_add]
    simp only [List.mem_append, List.mem_singleton, or_and_right, exists_or, exists_eq_left, true_and]

theorem seen_tableAfter (enqueues : List (Nat × BackfillItem)) (eventId version : String) :
    seen (tableAfter binding gitlabProjectId enqueues) binding eventId version = true ↔
      ∃ e ∈ enqueues, e.2.subject.eventId gitlabProjectId = eventId ∧
        e.2.subject.version = version := by
  induction enqueues using List.reverseRecOn with
  | nil => simp [tableAfter, seen]
  | append_singleton enqueues e ih =>
      have hstep := seen_checkAndMarkSeen binding gitlabProjectId
        (tableAfter binding gitlabProjectId enqueues) e.1 e.2 eventId version
      rw [ih] at hstep
      rw [tableAfter, List.foldl_append, List.foldl_cons, List.foldl_nil]
      refine hstep.trans ?_
      simp only [List.mem_append, List.mem_singleton, or_and_right, exists_or, exists_eq_left]

/-- Records of the backfills under one event id and version are of one kind, with
the same ids and time, and the table drops a record exactly when it took in such
a one before. -/
theorem backfill_events_injective :
    (∀ (m₁ m₂ : BackfillManager) (client₁ client₂ : BackfillClient) (since₁ since₂ : Option String),
      ∀ i ∈ m₁.backfill client₁ since₁, ∀ j ∈ m₂.backfill client₂ since₂,
        (i.enqueued binding gitlabProjectId).eventId = (j.enqueued binding gitlabProjectId).eventId →
        (i.enqueued binding gitlabProjectId).version = (j.enqueued binding gitlabProjectId).version →
          i.subject = j.subject) ∧
      ∀ (enqueues : List (Nat × BackfillItem)) (now : Nat) (item : BackfillItem),
        (checkAndMarkSeen binding gitlabProjectId (tableAfter binding gitlabProjectId enqueues) now
          item).1 = true ↔ ∃ e ∈ enqueues, e.2.subject = item.subject := by
  constructor
  · intro m₁ m₂ client₁ client₂ since₁ since₂ i _ j _ hid hversion
    exact BackfillSubject.eq_of_eventId hid hversion
  · intro enqueues now item
    have hfirst : (checkAndMarkSeen binding gitlabProjectId
        (tableAfter binding gitlabProjectId enqueues) now item).1 =
          seen (tableAfter binding gitlabProjectId enqueues) binding
            (item.subject.eventId gitlabProjectId) item.subject.version := by
      unfold checkAndMarkSeen BackfillItem.enqueued
      dsimp only
      split
      · rename_i hseen
        exact hseen.symm
      · rename_i hseen
        exact (Bool.not_eq_true _ ▸ hseen).symm
    rw [hfirst, seen_tableAfter]
    constructor
    · rintro ⟨e, he, hid, hversion⟩
      exact ⟨e, he, BackfillSubject.eq_of_eventId hid hversion⟩
    · rintro ⟨e, he, hsubject⟩
      exact ⟨e, he, by rw [hsubject], by rw [hsubject]⟩

end Dedup

end HulyGitlab
