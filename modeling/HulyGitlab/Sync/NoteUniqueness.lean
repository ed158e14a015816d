import HulyGitlab.Sync.Arrivals
import HulyGitlab.Sync.ManagerDiscipline
import HulyGitlab.Sync.SingleCreation

/-!
# One message for a note

A note of a merge request comes in with the notes and once more with the
discussions. The managers of notes and of threads map it under keys of their
own, and do not look for the other one's.
-/

namespace HulyGitlab

/-- A record of the events that carry notes. -/
inductive NoteEvent
  | note (record : Fields)
  | review (record : Fields)

/-- The handler of an event. -/
def NoteEvent.handle (env : Env) (binding : BindingRef) : NoteEvent → Async Unit
  | .note record => Notes.Awaits.applyRemote env binding record
  | .review record => Reviews.Awaits.applyRemote env binding record

/-- An event as it was enqueued. -/
def NoteEvent.ofEnqueued (e : EnqueuedRecord) : Option NoteEvent :=
  if e.kind = "note" then some (.note e.record)
  else if e.kind = "review" then some (.review e.record)
  else none

namespace NoteRuns

variable {K : Type} [DecidableEq K] (env : Env) (binding : BindingRef) (bctx : BindingContext)

/-- The handlers of workers, and what else goes on. -/
def step : Creations K (K × NoteEvent) →
    Pool.Action K (K × NoteEvent) (Elsewhere (noteMirrors env bctx)) →
      Creations K (K × NoteEvent) :=
  Creations.step env (noteMirrors env bctx) Prod.fst (fun _ => none) fun job =>
    job.2.handle env binding

def start (w : World) : Creations K (K × NoteEvent) :=
  Creations.start (noteMirrors env bctx) w

/-- No note, told by the number its keys end in, is the source of two messages. -/
abbrev OneMessage (s : Creations K (K × NoteEvent)) : Prop := s.Once parseIid

/-- Who looks a note up in vain is alone with it, under the key of its messages so far. -/
abbrev Orderly (s : Creations K (K × NoteEvent))
    (a : Pool.Action K (K × NoteEvent) (Elsewhere (noteMirrors env bctx))) : Prop :=
  s.Orderly env (noteMirrors env bctx) parseIid a

end NoteRuns

/-- Both managers' keys of a note end in its number. -/
theorem parseIid_noteKeys (env : Env) (bctx : BindingContext) (discussionId : JsValue) (id : Int) :
    parseIid (projectKey env bctx (.num id)) = some id ∧
      parseIid (Reviews.noteIdmapKey discussionId (.num id)) = some id :=
  ⟨parseIid_projectKey env bctx id, parseIid_append discussionId.text id⟩

theorem NoteEvent.mirrors (env : Env) {binding : BindingRef} {bctx : BindingContext}
    (hload : env.loadBinding binding = .ok bctx) (e : NoteEvent) :
    Mirrors env (noteMirrors env bctx) none (e.handle env binding) := by
  cases e with
  | note record => exact mirrors_of_follows (Notes.Awaits.follows_applyRemote env hload record)
  | review record => exact mirrors_of_follows (Reviews.Awaits.follows_applyRemote env hload record)

/-- Under any interleaving whose steps are in order, each note has at most one message. -/
theorem oneMessage_of_orderly {K : Type} [DecidableEq K] (env : Env) (binding : BindingRef)
    (bctx : BindingContext) (hload : env.loadBinding binding = .ok bctx) (w : World)
    (hw : NoteRuns.OneMessage (NoteRuns.start env bctx w : Creations K (K × NoteEvent)))
    (acts : List (Pool.Action K (K × NoteEvent) (Elsewhere (noteMirrors env bctx))))
    (h : Transition.Along (NoteRuns.step env binding bctx) (NoteRuns.Orderly env bctx)
      (NoteRuns.start env bctx w) acts) :
    Transition.Throughout (NoteRuns.step env binding bctx) NoteRuns.OneMessage
      (NoteRuns.start env bctx w) acts :=
  Creations.once_of_orderly (fun job => job.2.mirrors env hload) hw h

section Examples

/-- A comment on a merge request. -/
def comment : RawNote where
  id := 5
  body := "ship it"
  author := ⟨1, "root", "Root", none, none, "https://gitlab/root"⟩
  created_at := 5
  updated_at := 5
  system := false
  confidential := none

/-- The discussion that the comment stands in. -/
def discussion : Arrivals.ListedDiscussion where
  raw :=
    { id := "d1"
      notes :=
        [{ id := comment.id
           body := comment.body
           author := comment.author
           created_at := comment.created_at
           updated_at := comment.updated_at
           system := comment.system
           resolvable := none
           resolved := none
           resolved_by := none
           resolved_at := none
           position := none }] }
  confidential := false

/-- What the two backfills enqueue for the merge request. -/
def listedTwice : List NoteEvent :=
  (Arrivals.enqueued [.answer "b" 7 (.mrNotes 4 [comment]),
    .answer "b" 7 (.discussions 4 [discussion])]).filterMap fun r => NoteEvent.ofEnqueued r.event

/-- The merge request is mapped. -/
def reviewedWorld : World :=
  { World.initial with
    idmap := IdMap.single ⟨"ws", .merge_request, "7:4", issueClass, "mr"⟩ }

/-- Workers handle the events one after the other. -/
def inSuccession (events : List NoteEvent) :
    List (Pool.Action Unit (Unit × NoteEvent) (Elsewhere (noteMirrors (Env.quiet quietBinding) quietBinding))) :=
  events.flatMap fun e => .start ((), e) :: List.replicate 12 (.advance ())

theorem oneMessage_of_redelivery :
    Transition.Throughout (NoteRuns.step (Env.quiet quietBinding) "b" quietBinding)
      NoteRuns.OneMessage (NoteRuns.start (Env.quiet quietBinding) quietBinding reviewedWorld)
      (inSuccession (listedTwice.take 1 ++ listedTwice.take 1)) :=
  oneMessage_of_orderly (Env.quiet quietBinding) "b" quietBinding rfl reviewedWorld
    (by decide +kernel) _ (by decide +kernel)

/-- The two backfills make two messages of the comment. -/
theorem two_messages_of_backfills :
    ¬ ∀ acts, Transition.Throughout (NoteRuns.step (Env.quiet quietBinding) "b" quietBinding)
      NoteRuns.OneMessage (NoteRuns.start (Env.quiet quietBinding) quietBinding reviewedWorld :
        Creations Unit (Unit × NoteEvent)) acts := by
  intro h
  have hmade : (Transition.exec (NoteRuns.step (Env.quiet quietBinding) "b" quietBinding)
      (NoteRuns.start (Env.quiet quietBinding) quietBinding reviewedWorld) (inSuccession listedTwice)).made =
        [⟨.note, "7:5", "x"⟩, ⟨.review_thread, "d1:5", "xx"⟩] := by
    decide +kernel
  have honce := (h (inSuccession listedTwice)).last
  unfold NoteRuns.OneMessage Creations.Once at honce
  rw [hmade] at honce
  exact absurd (honce _ List.mem_cons_self _ (List.mem_cons_of_mem _ List.mem_cons_self)
    (by decide +kernel)) (by decide)

end Examples

end HulyGitlab
