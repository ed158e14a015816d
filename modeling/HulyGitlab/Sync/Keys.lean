import HulyGitlab.Lib.JsString
import HulyGitlab.World
import Mathlib.Data.List.TakeWhile

/-!
# Keys of the id map

How the managers write the `gitlabId` of a row and read the number back, and
the document prefix of the engine.
-/

namespace HulyGitlab

/-- `prefixGitlabIdForMultiInstance`. -/
def prefixGitlabIdForMultiInstance (env : Env) (bctx : BindingContext) (rawId : String) : String :=
  if bctx.isMultiInstanceWorkspace then env.hash8 bctx.gitlabBaseUrl ++ ":" ++ rawId else rawId

/-- `${bctx.gitlabProjectId}:${id}`, prefixed. -/
def projectKey (env : Env) (bctx : BindingContext) (id : JsValue) : String :=
  prefixGitlabIdForMultiInstance env bctx (toString bctx.gitlabProjectId ++ ":" ++ id.text)

def imageUrl (bctx : BindingContext) : String :=
  stripTrailingSlash bctx.gitlabBaseUrl ++ "/" ++ bctx.gitlabProjectPath

def issueRefUrl (bctx : BindingContext) : String := imageUrl bctx ++ "/-/issues"

def mergeRequestRefUrl (bctx : BindingContext) : String := imageUrl bctx ++ "/-/merge_requests"

/-- What follows the first colon, or the whole text. -/
def stripDocPrefix (doc : String) : String :=
  if ':' ∈ doc.toList then String.ofList ((doc.toList.dropWhile (· ≠ ':')).drop 1) else doc

/-- `Number.parseInt(s, 10)`: blanks, a sign, and the digits up to the first other character. -/
def parseInt (s : List Char) : Option Int :=
  let s := s.dropWhile Char.isWhitespace
  let negative := s.head? = some '-'
  let s := if negative ∨ s.head? = some '+' then s.drop 1 else s
  let digits := s.takeWhile Char.isDigit
  if digits = [] then none
  else
    let n : Nat := digits.foldl (fun n c => 10 * n + (c.toNat - '0'.toNat)) 0
    some (if negative then -(n : Int) else n)

/-- What follows the last colon. -/
def lastSegment (s : List Char) : List Char := (s.reverse.takeWhile (· ≠ ':')).reverse

/-- `parseIid` and `parseNoteId`: the number after the last colon. -/
def parseIid (gitlabId : String) : Option Int :=
  if ':' ∈ gitlabId.toList then parseInt (lastSegment gitlabId.toList) else none

/-- What stands before the last colon; nothing without one. -/
def beforeLast (s : List Char) : List Char := ((s.reverse.dropWhile (· ≠ ':')).drop 1).reverse

/-- `parseProjectIid`: the numbers in the last two segments. -/
def parseProjectIid (gitlabId : String) : Option (Int × Int) :=
  if ':' ∈ gitlabId.toList then
    match parseInt (lastSegment (beforeLast gitlabId.toList)),
      parseInt (lastSegment gitlabId.toList) with
    | some projectId, some iid => some (projectId, iid)
    | _, _ => none
  else none

/-- `parseDiscussionNoteKey`: the text before the last colon and the number after it. -/
def parseDiscussionNoteKey (gitlabId : String) : Option (String × Int) :=
  if ':' ∈ gitlabId.toList ∧ beforeLast gitlabId.toList ≠ [] then
    match parseInt (lastSegment gitlabId.toList) with
    | some noteId => some (String.ofList (beforeLast gitlabId.toList), noteId)
    | none => none
  else none

/-- The digits of a number are read as the number. -/
theorem foldl_repr (n : Nat) :
    n.repr.toList.foldl (fun n c => 10 * n + (c.toNat - '0'.toNat)) 0 = n := by
  rw [Nat.toList_repr]
  exact Nat.ofDigitChars_ten_toDigits

theorem isDigit_of_mem_repr {n : Nat} {c : Char} (h : c ∈ n.repr.toList) : c.isDigit := by
  rw [Nat.toList_repr] at h
  exact Nat.isDigit_of_mem_toDigits (by decide) (by decide) h

theorem exists_repr_cons (n : Nat) :
    ∃ c cs, n.repr.toList = c :: cs ∧ c.isDigit := by
  have hne : n.repr.toList ≠ [] := by
    rw [Nat.toList_repr]
    exact Nat.toDigits_ne_nil
  obtain ⟨c, cs, hcs⟩ := List.exists_cons_of_ne_nil hne
  exact ⟨c, cs, hcs, isDigit_of_mem_repr (by rw [hcs]; exact List.mem_cons_self)⟩

theorem takeWhile_repr (n : Nat) : n.repr.toList.takeWhile Char.isDigit = n.repr.toList :=
  List.takeWhile_eq_self_iff.mpr fun _ h => isDigit_of_mem_repr h

/-- A printed number is read back. -/
theorem parseInt_repr (n : Int) : parseInt n.repr.toList = some n := by
  have hnat : ∀ m : Nat, parseInt m.repr.toList = some (m : Int) ∧
      parseInt ('-' :: m.repr.toList) = some (-(m : Int)) := by
    intro m
    obtain ⟨c, cs, hcs, hc⟩ := exists_repr_cons m
    have hspace : c.isWhitespace = false := by
      rw [Bool.eq_false_iff]
      intro hw
      simp only [Char.isWhitespace, Bool.or_eq_true, decide_eq_true_eq] at hw
      obtain ((rfl | rfl) | rfl) | rfl := hw <;> exact absurd hc (by decide)
    have hminus : c ≠ '-' := by
      rintro rfl
      exact absurd hc (by decide)
    have hplus : c ≠ '+' := by
      rintro rfl
      exact absurd hc (by decide)
    constructor
    · have hdrop : (m.repr.toList).dropWhile Char.isWhitespace = m.repr.toList := by
        rw [hcs, List.dropWhile_cons_of_neg (by simp [hspace])]
      have hhead : m.repr.toList.head? = some c := by rw [hcs]; rfl
      have hne : m.repr.toList ≠ [] := by simp [hcs]
      unfold parseInt
      simp only [hdrop, hhead, Option.some.injEq, hminus, hplus, or_self, if_false,
        takeWhile_repr, hne, foldl_repr]
    · have hdrop : ('-' :: m.repr.toList).dropWhile Char.isWhitespace = '-' :: m.repr.toList :=
        List.dropWhile_cons_of_neg (by decide)
      have hne : m.repr.toList ≠ [] := by simp [hcs]
      unfold parseInt
      simp only [hdrop, List.head?_cons, true_or, if_true, List.drop_succ_cons, List.drop_zero,
        takeWhile_repr, hne, if_false, foldl_repr]
  rw [Int.repr_eq_if]
  by_cases hn : 0 ≤ n
  · rw [if_pos hn, (hnat _).1, Int.toNat_of_nonneg hn]
  · rw [if_neg hn, String.toList_append, show "-".toList = ['-'] from rfl, List.singleton_append,
      (hnat _).2, Int.toNat_of_nonneg (by omega), Int.neg_neg]

theorem toString_int_injective {m n : Int} (h : toString m = toString n) : m = n := by
  have hm := parseInt_repr m
  have hrepr : m.repr = n.repr := h
  rw [hrepr, parseInt_repr] at hm
  exact (Option.some.inj hm).symm

theorem lastSegment_of_not_mem {s t : List Char} (h : ':' ∉ t) :
    lastSegment (s ++ ':' :: t) = t := by
  have hall : ∀ c ∈ t.reverse, (fun c => decide (c ≠ ':')) c = true := by
    intro c hc
    have : c ≠ ':' := fun e => h (e ▸ List.mem_reverse.mp hc)
    simpa using this
  unfold lastSegment
  rw [List.reverse_append, List.reverse_cons, List.append_assoc, List.takeWhile_append_of_pos hall,
    List.singleton_append, List.takeWhile_cons_of_neg (by simp), List.append_nil,
    List.reverse_reverse]

theorem colon_not_mem_toString (n : Int) : ':' ∉ (toString n).toList := by
  have hnat : ∀ m : Nat, ':' ∉ m.repr.toList := fun m hmem =>
    absurd (isDigit_of_mem_repr hmem) (by decide)
  have hrepr : toString n = n.repr := rfl
  rw [hrepr, Int.repr_eq_if]
  by_cases h : 0 ≤ n
  · rw [if_pos h]
    exact hnat _
  · rw [if_neg h, String.toList_append, List.mem_append]
    rintro (hmem | hmem)
    · exact absurd hmem (by decide)
    · exact hnat _ hmem

theorem toList_segment (s t : String) : (s ++ ":" ++ t).toList = s.toList ++ ':' :: t.toList := by
  simp [String.toList_append]

theorem toList_key (s : String) (n : Int) :
    (s ++ ":" ++ toString n).toList = s.toList ++ ':' :: (toString n).toList :=
  toList_segment s (toString n)

/-- What is read from a key is its last part. -/
theorem parseIid_segment (s : String) {t : String} (h : ':' ∉ t.toList) :
    parseIid (s ++ ":" ++ t) = parseInt t.toList := by
  unfold parseIid
  rw [toList_segment, if_pos (by simp), lastSegment_of_not_mem h]

/-- The number in a key is the one it was made from. -/
theorem parseIid_append (s : String) (n : Int) : parseIid (s ++ ":" ++ toString n) = some n := by
  have hrepr : (toString n).toList = n.repr.toList := rfl
  rw [parseIid_segment s (colon_not_mem_toString n), hrepr, parseInt_repr]

theorem prefix_append (env : Env) (bctx : BindingContext) (s t : String) :
    ∃ u, prefixGitlabIdForMultiInstance env bctx (s ++ ":" ++ t) = u ++ ":" ++ t := by
  unfold prefixGitlabIdForMultiInstance
  by_cases hmulti : bctx.isMultiInstanceWorkspace = true
  · refine ⟨env.hash8 bctx.gitlabBaseUrl ++ ":" ++ s, ?_⟩
    rw [if_pos hmulti]
    simp [String.append_assoc]
  · exact ⟨s, if_neg hmulti⟩

theorem parseIid_prefixed_segment (env : Env) (bctx : BindingContext) (s : String) {t : String}
    (h : ':' ∉ t.toList) :
    parseIid (prefixGitlabIdForMultiInstance env bctx (s ++ ":" ++ t)) = parseInt t.toList := by
  obtain ⟨u, hu⟩ := prefix_append env bctx s t
  rw [hu, parseIid_segment u h]

theorem parseIid_prefixed (env : Env) (bctx : BindingContext) (s : String) (n : Int) :
    parseIid (prefixGitlabIdForMultiInstance env bctx (s ++ ":" ++ toString n)) = some n := by
  have hrepr : (toString n).toList = n.repr.toList := rfl
  rw [parseIid_prefixed_segment env bctx s (colon_not_mem_toString n), hrepr, parseInt_repr]

theorem parseIid_projectKey (env : Env) (bctx : BindingContext) (iid : Int) :
    parseIid (projectKey env bctx (.num iid)) = some iid :=
  parseIid_prefixed env bctx (toString bctx.gitlabProjectId) iid

theorem beforeLast_of_not_mem {s t : List Char} (h : ':' ∉ t) :
    beforeLast (s ++ ':' :: t) = s := by
  have hall : ∀ c ∈ t.reverse, (fun c => decide (c ≠ ':')) c = true := by
    intro c hc
    have : c ≠ ':' := fun e => h (e ▸ List.mem_reverse.mp hc)
    simpa using this
  unfold beforeLast
  rw [List.reverse_append, List.reverse_cons, List.append_assoc, List.dropWhile_append_of_pos hall,
    List.singleton_append, List.dropWhile_cons_of_neg (by simp), List.drop_succ_cons, List.drop_zero,
    List.reverse_reverse]

/-- Both parts of the key of a thread note are read back. -/
theorem parseDiscussionNoteKey_append {discussionId : String} (h : discussionId ≠ "") (n : Int) :
    parseDiscussionNoteKey (discussionId ++ ":" ++ toString n) = some (discussionId, n) := by
  have hrepr : (toString n).toList = n.repr.toList := rfl
  have hne : discussionId.toList ≠ [] := fun hnil => h (String.toList_inj.mp hnil)
  unfold parseDiscussionNoteKey
  rw [toList_key, beforeLast_of_not_mem (colon_not_mem_toString n),
    lastSegment_of_not_mem (colon_not_mem_toString n), if_pos ⟨by simp, hne⟩, hrepr, parseInt_repr,
    String.ofList_toList]

/-- An id without a colon is its own document part. -/
theorem stripDocPrefix_of_not_mem {doc : String} (h : ':' ∉ doc.toList) :
    stripDocPrefix doc = doc :=
  if_neg h

end HulyGitlab
