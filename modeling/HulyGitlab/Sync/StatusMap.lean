import HulyGitlab.World
import Mathlib.Data.List.Infix

/-!
# Statuses

`status-map.ts`: GitLab's two issue states against the statuses of the Huly
project. The entry of a project is built at its first use and kept for the
life of the process.
-/

namespace HulyGitlab

/-- `s.includes(k)`. -/
def includes (s k : String) : Bool := decide (k.toList <:+: s.toList)

namespace StatusMap

variable (env : Env)

def OPEN_CATEGORY_KEYWORDS : List String :=
  ["active", "todo", "inprogress", "unstarted", "backlog"]

def CLOSED_CATEGORY_KEYWORDS : List String := ["done", "cancelled", "canceled", "won", "lost"]

def categoryString (s : Status) : String :=
  match s.category with
  | some category => env.toLowerCase category
  | none => ""

def categoryMatches (s : Status) (keywords : List String) : Bool :=
  keywords.any fun k => includes (categoryString env s) k

def buildEntry (statuses : List Status) : ProjectCacheEntry where
  opened := (statuses.find? fun s => categoryMatches env s OPEN_CATEGORY_KEYWORDS).map (·._id)
  closed := (statuses.find? fun s => categoryMatches env s CLOSED_CATEGORY_KEYWORDS).map (·._id)
  inverse := statuses.foldl (fun inverse s =>
    if categoryMatches env s CLOSED_CATEGORY_KEYWORDS then inverse.set s._id .closed
    else if categoryMatches env s OPEN_CATEGORY_KEYWORDS then inverse.set s._id .opened
    else inverse) .empty

def getEntry (projectKey : String) (statuses : List Status) : Sync ProjectCacheEntry :=
  Effect.step fun w =>
    match w.statusCache.get? projectKey with
    | some cached => (.ok cached, w)
    | none =>
        let entry := buildEntry env statuses
        (.ok entry, { w with statusCache := w.statusCache.set projectKey entry })

def mapRemoteState (projectKey : String) (remoteState : JsValue) (statuses : List Status) :
    Sync (Option Ref) := do
  let entry ← getEntry env projectKey statuses
  pure (if remoteState = .str "closed" then entry.closed else entry.opened)

/-- Statuses outside the map count as opened. -/
def mapHulyStatus (projectKey : String) (statusRef : JsValue) (statuses : List Status) :
    Sync IssueState := do
  let entry ← getEntry env projectKey statuses
  match statusRef with
  | .str ref => pure ((entry.inverse.get? ref).getD .opened)
  | _ => pure .opened

/-- The entry a lookup of the project sees. -/
def entryOf (cache : OrderedMap String ProjectCacheEntry) (projectKey : String)
    (statuses : List Status) : ProjectCacheEntry :=
  (cache.get? projectKey).getD (buildEntry env statuses)

/-- The cache after a lookup of the project. -/
def remembered (cache : OrderedMap String ProjectCacheEntry) (projectKey : String)
    (statuses : List Status) : OrderedMap String ProjectCacheEntry :=
  match cache.get? projectKey with
  | some _ => cache
  | none => cache.set projectKey (buildEntry env statuses)

theorem getEntry_run (projectKey : String) (statuses : List Status) (w : World) :
    (getEntry env projectKey statuses).run w =
      (.ok (entryOf env w.statusCache projectKey statuses),
        { w with statusCache := remembered env w.statusCache projectKey statuses }) := by
  unfold getEntry entryOf remembered
  cases h : w.statusCache.get? projectKey with
  | some cached => simp [h]
  | none => simp [h]

/-- The entry of a project is the same at every later lookup. -/
@[simp] theorem entryOf_remembered (cache : OrderedMap String ProjectCacheEntry)
    (projectKey : String) (statuses : List Status) :
    entryOf env (remembered env cache projectKey statuses) projectKey statuses =
      entryOf env cache projectKey statuses := by
  unfold entryOf remembered
  cases h : cache.get? projectKey with
  | some cached => simp [h]
  | none => simp

/-- The status of a remote state. -/
def statusOf (entry : ProjectCacheEntry) (remoteState : JsValue) : Option Ref :=
  if remoteState = .str "closed" then entry.closed else entry.opened

theorem mapRemoteState_run (projectKey : String) (remoteState : JsValue)
    (statuses : List Status) (w : World) :
    (mapRemoteState env projectKey remoteState statuses).run w =
      (.ok (statusOf (entryOf env w.statusCache projectKey statuses) remoteState),
        { w with statusCache := remembered env w.statusCache projectKey statuses }) := by
  rw [mapRemoteState, Effect.bind_of_ok (getEntry_run env projectKey statuses w)]
  rfl

/-- The state the map has for a status. -/
def stateOf (entry : ProjectCacheEntry) (ref : Ref) : IssueState :=
  (entry.inverse.get? ref).getD .opened

theorem mapHulyStatus_run (projectKey : String) (ref : Ref) (statuses : List Status) (w : World) :
    (mapHulyStatus env projectKey (.str ref) statuses).run w =
      (.ok (stateOf (entryOf env w.statusCache projectKey statuses) ref),
        { w with statusCache := remembered env w.statusCache projectKey statuses }) := by
  rw [mapHulyStatus, Effect.bind_of_ok (getEntry_run env projectKey statuses w)]
  rfl

end StatusMap

end HulyGitlab
