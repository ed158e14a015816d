import HulyGitlab.Sync.Reviews

/-!
# Keys are read back

The four readers split a key from the right. A number has no colon, so what
stands before it may hold any: the hash of an instance, or a discussion id.
-/

namespace HulyGitlab

/-- `parseNoteId` of the notes manager, the same text as `parseIid`. -/
def parseNoteId (gitlabId : String) : Option Int := parseIid gitlabId

theorem lastSegment_of_no_colon {s : List Char} (h : ':' ∉ s) : lastSegment s = s := by
  unfold lastSegment
  rw [List.takeWhile_eq_self_iff.mpr, List.reverse_reverse]
  intro c hc
  have hne : c ≠ ':' := fun e => h (e ▸ List.mem_reverse.mp hc)
  simpa using hne

/-- What stands before the number of a prefixed key ends in the project id. -/
theorem parseProjectIid_append (s : String) (iid : Int) :
    parseProjectIid (s ++ ":" ++ toString iid) =
      (parseInt (lastSegment s.toList)).map fun projectId => (projectId, iid) := by
  have hrepr : (toString iid).toList = iid.repr.toList := rfl
  unfold parseProjectIid
  rw [toList_key, if_pos (by simp), beforeLast_of_not_mem (colon_not_mem_toString iid),
    lastSegment_of_not_mem (colon_not_mem_toString iid), hrepr, parseInt_repr]
  cases parseInt (lastSegment s.toList) with
  | none => rfl
  | some projectId => rfl

theorem parseProjectIid_projectKey (env : Env) (bctx : BindingContext) (iid : Int) :
    parseProjectIid (projectKey env bctx (.num iid)) = some (bctx.gitlabProjectId, iid) := by
  have hrepr : (toString bctx.gitlabProjectId).toList = bctx.gitlabProjectId.repr.toList := rfl
  have hcolon := colon_not_mem_toString bctx.gitlabProjectId
  unfold projectKey prefixGitlabIdForMultiInstance
  by_cases hmulti : bctx.isMultiInstanceWorkspace = true
  · rw [if_pos hmulti, ← String.append_assoc, ← String.append_assoc]
    refine (parseProjectIid_append _ iid).trans ?_
    rw [toList_segment, lastSegment_of_not_mem hcolon, hrepr, parseInt_repr]
    rfl
  · rw [if_neg hmulti]
    refine (parseProjectIid_append _ iid).trans ?_
    rw [lastSegment_of_no_colon hcolon, hrepr, parseInt_repr]
    rfl

theorem parseDiscussionNoteKey_noteIdmapKey {discussionId : String} (h : discussionId ≠ "")
    (noteId : Int) :
    parseDiscussionNoteKey (Reviews.noteIdmapKey (.str discussionId) (.num noteId)) =
      some (discussionId, noteId) :=
  parseDiscussionNoteKey_append h noteId

/-- The parts of a key are told apart by its last colon. -/
theorem append_injective {s t : String} {m n : Int}
    (h : s ++ ":" ++ toString m = t ++ ":" ++ toString n) : s = t ∧ m = n := by
  constructor
  · have hbefore := congrArg (fun key => beforeLast key.toList) h
    simp only [toList_key, beforeLast_of_not_mem (colon_not_mem_toString _)] at hbefore
    exact String.toList_inj.mp hbefore
  · have hnumber := congrArg parseIid h
    rw [parseIid_append, parseIid_append] at hnumber
    exact Option.some.inj hnumber

/-- Every key is read back as what it was made from, and no two things have one key. -/
structure KeysDecode (env : Env) : Prop where
  iid : ∀ (bctx : BindingContext) (iid : Int),
    parseIid (projectKey env bctx (.num iid)) = some iid
  noteId : ∀ (bctx : BindingContext) (noteId : Int),
    parseNoteId (projectKey env bctx (.num noteId)) = some noteId
  projectIid : ∀ (bctx : BindingContext) (iid : Int),
    parseProjectIid (projectKey env bctx (.num iid)) = some (bctx.gitlabProjectId, iid)
  discussionNote : ∀ (discussionId : String) (noteId : Int), discussionId ≠ "" →
    parseDiscussionNoteKey (Reviews.noteIdmapKey (.str discussionId) (.num noteId)) =
      some (discussionId, noteId)
  /-- The flag and the base URL of the two contexts may even differ. -/
  projectKey_injective : ∀ (b c : BindingContext) (m n : Int),
    projectKey env b (.num m) = projectKey env c (.num n) →
      b.gitlabProjectId = c.gitlabProjectId ∧ m = n
  noteIdmapKey_injective : ∀ (s t : String) (m n : Int),
    Reviews.noteIdmapKey (.str s) (.num m) = Reviews.noteIdmapKey (.str t) (.num n) → s = t ∧ m = n

theorem keys_decode (env : Env) : KeysDecode env where
  iid := parseIid_projectKey env
  noteId := parseIid_projectKey env
  projectIid := parseProjectIid_projectKey env
  discussionNote _ noteId h := parseDiscussionNoteKey_noteIdmapKey h noteId
  projectKey_injective b c m n h := by
    have hread := congrArg parseProjectIid h
    rw [parseProjectIid_projectKey, parseProjectIid_projectKey] at hread
    exact Prod.mk.inj (Option.some.inj hread)
  noteIdmapKey_injective _ _ _ _ h := append_injective h

end HulyGitlab
