import HulyGitlab.Lib.HttpUrl
import HulyGitlab.Lib.JsString
import HulyGitlab.Sync.Keys
import Mathlib.Data.List.Infix

/-!
# Attachment links in markdown bodies

The links of a body that point to GitLab uploads or to Huly attachments, the
rewriting of their URLs, and the absolute URL of a relative upload path.
-/

namespace HulyGitlab

inductive LinkKind
  | image
  | link
  deriving DecidableEq

inductive AttachmentOrigin
  | gitlab
  | huly
  deriving DecidableEq

structure AttachmentLink where
  markdownIndex : Nat
  sourceUrl : String
  alt : String
  filename : String
  kind : LinkKind
  origin : AttachmentOrigin
  deriving DecidableEq

structure AttachmentMapping where
  sourceUrl : String
  targetUrl : String
  deriving DecidableEq

def MAX_ATTACHMENT_BYTES : Nat := 25 * 1024 * 1024

namespace AttachmentLinks

/-- A match of `MARKDOWN_LINK_RE` at the head of a text. -/
structure LinkMatch where
  bang : Bool
  alt : List Char
  url : List Char
  deriving DecidableEq

/-- The number of characters of the match. -/
def LinkMatch.length (m : LinkMatch) : Nat :=
  (if m.bang then 1 else 0) + (m.alt.length + (m.url.length + 4))

/-- `/(!?)\[([^\]]*)\]\(([^)]+)\)/` at the head: the alt text has no `]` and the URL no `)`. -/
def matchLink (s : List Char) : Option LinkMatch :=
  let bang : Bool := s.head? = some '!'
  match if bang then s.drop 1 else s with
  | '[' :: more =>
      match more.dropWhile (· ≠ ']') with
      | _ :: '(' :: inner =>
          let url := inner.takeWhile (· ≠ ')')
          if url = [] ∨ inner.dropWhile (· ≠ ')') = [] then none
          else some ⟨bang, more.takeWhile (· ≠ ']'), url⟩
      | _ => none
  | _ => none

/-- The matches of the `exec` loop; `skip` counts what is left of the last match. -/
def findLinks (skip : Nat) : List Char → List LinkMatch
  | [] => []
  | c :: cs =>
      match skip with
      | skip + 1 => findLinks skip cs
      | 0 =>
          match matchLink (c :: cs) with
          | none => findLinks 0 cs
          | some m => m :: findLinks (m.length - 1) cs

/-- `GITLAB_UPLOAD_PATH_RE`. -/
def isGitLabRelative (url : List Char) : Bool := "/uploads/".toList.isPrefixOf url

def isHexDigit (c : Char) : Bool := c ∈ "0123456789abcdefABCDEF".toList

/-- `GITLAB_UPLOAD_ABSOLUTE_RE` at the head of a text. -/
def startsWithUpload (s : List Char) : Bool :=
  let rest := s.drop 9
  (s.take 9).map Char.toLower = "/uploads/".toList ∧ rest.takeWhile isHexDigit ≠ [] ∧
    (rest.dropWhile isHexDigit).head? = some '/'

def hasUpload (s : List Char) : Bool := s.tails.any startsWithUpload

/-- `HULY_ATTACHMENT_RE`. -/
def isHulyAttachment (url : List Char) : Bool := "attachments://".toList.isPrefixOf url

/-- The instance's own links, judged by the raw text. -/
def isGitLabAbsolute (baseUrl : Option String) (url : List Char) : Bool :=
  hasUpload url && match baseUrl with
    | none => true
    | some base => (stripTrailingSlash base).toList.isPrefixOf url

def lastPart (s : List Char) : List Char := (s.reverse.takeWhile (· ≠ '/')).reverse

section Extract

variable (decodeURIComponent : String → Except Err String)

def extractFilename (url : List Char) : String :=
  match decodeURIComponent (String.ofList url) with
  | .ok decoded => String.ofList ((lastPart decoded.toList).takeWhile (· ≠ '?'))
  | .error _ => String.ofList (lastPart url)

def kindOf (bang : Bool) : LinkKind := if bang then .image else .link

def originOf (url : List Char) : AttachmentOrigin := if isHulyAttachment url then .huly else .gitlab

/-- The link a match stands for, when it is one of the two systems. -/
def linkOf (baseUrl : Option String) (markdownIndex : Nat) (m : LinkMatch) :
    Option AttachmentLink :=
  let url := trim m.url
  if isGitLabRelative url ∨ isGitLabAbsolute baseUrl url ∨ isHulyAttachment url then
    some ⟨markdownIndex, String.ofList url, String.ofList m.alt,
      extractFilename decodeURIComponent url, kindOf m.bang, originOf url⟩
  else none

def extractAttachmentLinks (body : String) (baseUrl : Option String) : List AttachmentLink :=
  (findLinks 0 body.toList).zipIdx.filterMap fun entry =>
    linkOf decodeURIComponent baseUrl entry.2 entry.1

end Extract

/-- The URL map of the rewriting; a later mapping of a URL replaces an earlier one. -/
def urlMap (mappings : List AttachmentMapping) : OrderedMap String String :=
  mappings.foldl (fun map m =>
    if m.sourceUrl ≠ m.targetUrl then map.set m.sourceUrl m.targetUrl else map) .empty

/-- What a match at the head of a text becomes. -/
def replaceLink (map : OrderedMap String String) (s : List Char) (m : LinkMatch) : List Char :=
  match map.get? (String.ofList (trim m.url)) with
  | none => s.take m.length
  | some replacement =>
      (if m.bang then ['!'] else []) ++ '[' :: m.alt ++ ']' :: '(' :: replacement.toList ++ [')']

def rewriteFrom (map : OrderedMap String String) (skip : Nat) : List Char → List Char
  | [] => []
  | c :: cs =>
      match skip with
      | skip + 1 => rewriteFrom map skip cs
      | 0 =>
          match matchLink (c :: cs) with
          | none => c :: rewriteFrom map 0 cs
          | some m => replaceLink map (c :: cs) m ++ rewriteFrom map (m.length - 1) cs

def rewriteAttachmentLinks (body : String) (mappings : List AttachmentMapping) : String :=
  if (urlMap mappings).entries = [] then body
  else String.ofList (rewriteFrom (urlMap mappings) 0 body.toList)

def resolveGitLabUploadUrl (relativeOrAbsolute gitlabBaseUrl projectPath : String) : String :=
  if isGitLabRelative relativeOrAbsolute.toList then
    stripTrailingSlash gitlabBaseUrl ++ "/" ++ stripSlashes projectPath ++ "/uploads/" ++
      String.ofList (relativeOrAbsolute.toList.drop 9)
  else relativeOrAbsolute

/-- The GitLab uploads among the links of a body. -/
def gitlabLinks (decodeURIComponent : String → Except Err String) (body gitlabBaseUrl : String) :
    List AttachmentLink :=
  (extractAttachmentLinks decodeURIComponent body (some gitlabBaseUrl)).filter fun link =>
    link.origin = .gitlab

/-- A GitLab link is relative, or goes on from the base URL and has an upload path in it. -/
theorem of_mem_gitlabLinks {decodeURIComponent : String → Except Err String}
    {body gitlabBaseUrl : String} {link : AttachmentLink}
    (h : link ∈ gitlabLinks decodeURIComponent body gitlabBaseUrl) :
    isGitLabRelative link.sourceUrl.toList = true ∨
      (hasUpload link.sourceUrl.toList = true ∧
        (stripTrailingSlash gitlabBaseUrl).toList <+: link.sourceUrl.toList) := by
  obtain ⟨hmem, horigin⟩ := List.mem_filter.mp h
  obtain ⟨entry, -, hlink⟩ := List.mem_filterMap.mp hmem
  unfold linkOf at hlink
  dsimp only at hlink
  split_ifs at hlink with hcases
  cases hlink
  dsimp only at horigin ⊢
  rw [String.toList_ofList]
  obtain hrel | habs | hhuly := hcases
  · exact .inl hrel
  · unfold isGitLabAbsolute at habs
    rw [Bool.and_eq_true] at habs
    exact .inr ⟨habs.1, List.isPrefixOf_iff_prefix.mp habs.2⟩
  · unfold originOf at horigin
    rw [if_pos hhuly] at horigin
    simp at horigin

section Origin

open HttpUrl

variable (parseHost : String → Option String)

/-- A link keeps to the instance: its scheme, its host and its port. -/
def Contained (gitlabBaseUrl url : String) : Prop :=
  ∃ o, origin parseHost gitlabBaseUrl.toList = some o ∧ origin parseHost url.toList = some o

/-- The base URL goes on behind its authority, or what a link puts between it and the next end
leaves the host and the port as they are. -/
def Stays (gitlabBaseUrl : String) (r : List Char) : Prop :=
  ∃ o scheme rest, origin parseHost gitlabBaseUrl.toList = some o ∧
    splitScheme (front (stripTrailingSlash gitlabBaseUrl).toList) = some (scheme, rest) ∧
    (afterAuthority rest ≠ [] ∨
      target parseHost scheme
        (authority rest ++ (r.filter (!isTabOrNewline ·)).takeWhile notEnd) = some o)

/-- What the URL of a link puts behind the base URL. -/
def continuation (gitlabBaseUrl projectPath url : String) : List Char :=
  (resolveGitLabUploadUrl url gitlabBaseUrl projectPath).toList.drop
    (stripTrailingSlash gitlabBaseUrl).toList.length

/-- A slash behind something else ends the authority. -/
theorem afterAuthority_ne_nil {before after : List Char} {c : Char} (hc : isSlash c = false) :
    afterAuthority (before ++ c :: '/' :: after) ≠ [] := by
  intro hnil
  have hall := List.dropWhile_eq_nil_iff.mp hnil
  have hmem : '/' ∈ (before ++ c :: '/' :: after).dropWhile isSlash := by
    rw [List.dropWhile_append]
    split
    · rw [List.dropWhile_cons_of_neg (by simp [hc])]
      simp
    · simp
  exact absurd (hall '/' hmem) (by decide)

theorem schemeOf_of_mem {name : List Char} {c : Char} (hc : c ∈ name)
    (hlower : c.toLower ∉ "https".toList) : schemeOf name = none := by
  have hne : ∀ text : String, (∀ a ∈ text.toList, a ∈ "https".toList) →
      name.map Char.toLower ≠ text.toList := by
    intro text htext heq
    exact hlower (htext _ (heq ▸ List.mem_map_of_mem hc))
  have hhttp : ∀ a ∈ "http".toList, a ∈ "https".toList := by simp
  unfold schemeOf
  rw [if_neg (hne "http" hhttp), if_neg (hne "https" fun a ha => ha)]

/-- A character that is no slash, no blank and no colon. -/
def Solid (c : Char) : Prop :=
  isSlash c = false ∧ isBlank c = false ∧ isTabOrNewline c = false ∧ c ≠ ':'

instance (c : Char) : Decidable (Solid c) := inferInstanceAs (Decidable (_ ∧ _ ∧ _ ∧ _))

/-- Somewhere in the text a slash stands behind such a character. -/
def HasEnd (s : List Char) : Prop := ∃ before c after, s = before ++ c :: '/' :: after ∧ Solid c

theorem isHexDigit_spec {c : Char} (h : isHexDigit c = true) : Solid c := by
  have hall : ∀ d ∈ "0123456789abcdefABCDEF".toList, Solid d := by
    simp [Solid, isSlash, isBlank, isTabOrNewline]
  exact hall c (by simpa [isHexDigit] using h)

theorem hasEnd_of_hasUpload {s : List Char} (h : hasUpload s = true) : HasEnd s := by
  obtain ⟨suffix, hsuffix, hstarts⟩ := List.any_eq_true.mp h
  obtain ⟨pre, rfl⟩ := (List.mem_tails _ _).mp hsuffix
  unfold startsWithUpload at hstarts
  rw [decide_eq_true_eq] at hstarts
  obtain ⟨-, hne, hslash⟩ := hstarts
  obtain ⟨after, hafter⟩ : ∃ after, (suffix.drop 9).dropWhile isHexDigit = '/' :: after :=
    List.head?_eq_some_iff.mp hslash
  obtain ⟨digits, digit, hdigits⟩ :
      ∃ digits digit, (suffix.drop 9).takeWhile isHexDigit = digits ++ [digit] :=
    ⟨_, _, (List.dropLast_append_getLast hne).symm⟩
  refine ⟨pre ++ suffix.take 9 ++ digits, digit, after, ?_, isHexDigit_spec ?_⟩
  · calc pre ++ suffix = pre ++ (suffix.take 9 ++ suffix.drop 9) := by rw [List.take_append_drop]
      _ = pre ++ (suffix.take 9 ++ ((suffix.drop 9).takeWhile isHexDigit ++
            (suffix.drop 9).dropWhile isHexDigit)) := by rw [List.takeWhile_append_dropWhile]
      _ = pre ++ suffix.take 9 ++ digits ++ digit :: '/' :: after := by
          rw [hdigits, hafter]
          simp
  · apply List.mem_takeWhile_imp (l := suffix.drop 9)
    rw [hdigits]
    simp

/-- The authority of such a URL ends in it. -/
theorem ended_of_hasEnd {s rest : List Char} {scheme : Scheme} (hend : HasEnd s)
    (h : splitScheme (front s) = some (scheme, rest)) : afterAuthority rest ≠ [] := by
  obtain ⟨before, digit, after, rfl, hslash, hblank, htab, hcolon⟩ := hend
  obtain ⟨name, hname, hncolon, hsch⟩ := splitScheme_eq_some_iff.mp h
  have hfront : ∃ p q, front (before ++ digit :: '/' :: after) = p ++ digit :: '/' :: q := by
    refine ⟨(before.dropWhile isBlank).filter (!isTabOrNewline ·),
      after.filter (!isTabOrNewline ·), ?_⟩
    unfold front
    have hdrop : (before ++ digit :: '/' :: after).dropWhile isBlank =
        before.dropWhile isBlank ++ digit :: '/' :: after := by
      rw [List.dropWhile_append]
      split
      · rename_i hnil
        rw [List.dropWhile_cons_of_neg (by simp [hblank]), List.isEmpty_iff.mp hnil]
        rfl
      · rfl
    rw [hdrop, List.filter_append, List.filter_cons_of_pos (by simp [htab]),
      List.filter_cons_of_pos (by decide)]
  obtain ⟨p, q, hpq⟩ := hfront
  have heq : (p ++ [digit]) ++ '/' :: q = (name ++ [':']) ++ rest := by
    rw [List.append_assoc, List.singleton_append, ← hpq, hname, List.append_assoc]
    rfl
  obtain ⟨t, ht, hrest⟩ | ⟨t, ht, hrest⟩ := List.append_eq_append_iff.mp heq
  · -- the slash would stand in the scheme
    cases t with
    | nil =>
      have hlast := congrArg List.getLast? ht
      simp at hlast
      exact absurd hlast.symm hcolon
    | cons a t =>
      obtain ⟨rfl, -⟩ := List.cons.inj hrest
      have hmem : '/' ∈ name ++ [':'] := by rw [ht]; simp
      have hin : '/' ∈ name := by simpa using hmem
      rw [schemeOf_of_mem hin (by decide)] at hsch
      cases hsch
  · rw [hrest]
    cases hlast : t.getLast? with
    | none =>
      rw [List.getLast?_eq_none_iff.mp hlast] at ht
      have hlast' := congrArg List.getLast? ht
      simp at hlast'
      exact absurd hlast' hcolon
    | some b =>
      obtain ⟨t', rfl⟩ := List.getLast?_eq_some_iff.mp hlast
      have hb : b = digit := by
        have hlast' := congrArg List.getLast? ht
        rw [← List.append_assoc, List.getLast?_concat, List.getLast?_concat] at hlast'
        exact (Option.some.inj hlast').symm
      rw [hb, List.append_assoc, List.singleton_append]
      exact afterAuthority_ne_nil hslash

theorem stripTrailingSlash_eq (url : String) :
    url = stripTrailingSlash url ∨ url.toList = (stripTrailingSlash url).toList ++ ['/'] := by
  unfold stripTrailingSlash
  by_cases h : url.toList.getLast? = some '/'
  · right
    obtain ⟨xs, hxs⟩ := List.getLast?_eq_some_iff.mp h
    rw [if_pos h, String.toList_ofList, hxs, List.dropLast_concat]
  · left
    rw [if_neg h]

/-- The base URL without its slash has the scheme, and its authority is not empty. -/
theorem splitScheme_stripTrailingSlash {base : String} {o : Origin}
    (h : origin parseHost base.toList = some o) :
    ∃ scheme rest, splitScheme (front (stripTrailingSlash base).toList) = some (scheme, rest) ∧
      authority rest ≠ [] := by
  obtain ⟨scheme, rest, hsplit⟩ := splitScheme_of_origin parseHost h
  have hauth : authority rest ≠ [] := by
    intro hnil
    by_cases hend : afterAuthority rest = []
    · rw [origin_of_open parseHost hsplit hend, hnil] at h
      cases h
    · rw [origin_of_ended parseHost hsplit hend, hnil] at h
      cases h
  obtain heq | heq := stripTrailingSlash_eq base
  · rw [← heq]
    exact ⟨scheme, rest, hsplit, hauth⟩
  · rw [heq, front_append_slash] at hsplit
    obtain ⟨rest', rfl, hsplit'⟩ := splitScheme_of_append_slash hsplit
    exact ⟨scheme, rest', hsplit', authority_append_singleton_ne_nil hauth⟩

/-- The origin of the base URL is the one of its text without the slash, once this has ended. -/
theorem origin_base_of_ended {base : String} {scheme : Scheme} {rest : List Char}
    (h : splitScheme (front (stripTrailingSlash base).toList) = some (scheme, rest))
    (hend : afterAuthority rest ≠ []) :
    origin parseHost base.toList = target parseHost scheme (authority rest) := by
  obtain heq | heq := stripTrailingSlash_eq base
  · rw [← heq] at h
    exact origin_of_ended parseHost h hend
  · rw [heq]
    exact origin_append_of_ended parseHost h hend ['/']

/-- A GitLab link that is made absolute goes on from the base URL, and its authority ends. -/
theorem resolve_spec {decodeURIComponent : String → Except Err String}
    {body gitlabBaseUrl : String} {link : AttachmentLink} (projectPath : String)
    (h : link ∈ gitlabLinks decodeURIComponent body gitlabBaseUrl) :
    (resolveGitLabUploadUrl link.sourceUrl gitlabBaseUrl projectPath).toList =
        (stripTrailingSlash gitlabBaseUrl).toList ++
          continuation gitlabBaseUrl projectPath link.sourceUrl ∧
      HasEnd (resolveGitLabUploadUrl link.sourceUrl gitlabBaseUrl projectPath).toList := by
  have hpre : ∀ u : String, (stripTrailingSlash gitlabBaseUrl).toList <+: u.toList →
      u.toList = (stripTrailingSlash gitlabBaseUrl).toList ++
        u.toList.drop (stripTrailingSlash gitlabBaseUrl).toList.length := by
    rintro u ⟨t, ht⟩
    rw [← ht, List.drop_left]
  unfold continuation
  by_cases hrel : isGitLabRelative link.sourceUrl.toList = true
  · have hresolve : (resolveGitLabUploadUrl link.sourceUrl gitlabBaseUrl projectPath).toList =
        (stripTrailingSlash gitlabBaseUrl).toList ++ ('/' :: (stripSlashes projectPath).toList ++
          "/upload".toList ++ 's' :: '/' :: link.sourceUrl.toList.drop 9) := by
      unfold resolveGitLabUploadUrl
      rw [if_pos hrel]
      simp [String.toList_append]
    refine ⟨hpre _ (hresolve ▸ List.prefix_append _ _), ?_⟩
    rw [hresolve]
    exact ⟨_, 's', _, (List.append_assoc _ _ _).symm, by decide⟩
  · have hresolve : resolveGitLabUploadUrl link.sourceUrl gitlabBaseUrl projectPath =
        link.sourceUrl := if_neg hrel
    obtain hrel' | ⟨hup, hstart⟩ := of_mem_gitlabLinks h
    · exact absurd hrel' hrel
    · rw [hresolve]
      exact ⟨hpre _ hstart, hasEnd_of_hasUpload hup⟩

/-- A link keeps to the instance exactly when what it adds to the base URL does. -/
theorem contained_iff {decodeURIComponent : String → Except Err String}
    {body gitlabBaseUrl : String} {link : AttachmentLink} (projectPath : String)
    (h : link ∈ gitlabLinks decodeURIComponent body gitlabBaseUrl) :
    Contained parseHost gitlabBaseUrl
        (resolveGitLabUploadUrl link.sourceUrl gitlabBaseUrl projectPath) ↔
      Stays parseHost gitlabBaseUrl (continuation gitlabBaseUrl projectPath link.sourceUrl) := by
  obtain ⟨hurl, hend⟩ := resolve_spec projectPath h
  generalize hr : continuation gitlabBaseUrl projectPath link.sourceUrl = r at hurl
  have hopen : ∀ {scheme rest}, splitScheme (front (stripTrailingSlash gitlabBaseUrl).toList) =
      some (scheme, rest) → afterAuthority rest = [] → authority rest ≠ [] →
      origin parseHost (resolveGitLabUploadUrl link.sourceUrl gitlabBaseUrl projectPath).toList =
        target parseHost scheme
          (authority rest ++ (r.filter (!isTabOrNewline ·)).takeWhile notEnd) := by
    intro scheme rest hsplit hafter hauth
    rw [hurl] at hend ⊢
    apply origin_append_of_open parseHost hsplit hafter hauth
    apply ended_of_hasEnd hend
    rw [front_append hsplit, splitScheme_append hsplit]
  constructor
  · rintro ⟨o, hbase, hlink⟩
    obtain ⟨scheme, rest, hsplit, hauth⟩ := splitScheme_stripTrailingSlash parseHost hbase
    refine ⟨o, scheme, rest, hbase, hsplit, ?_⟩
    by_cases hafter : afterAuthority rest = []
    · exact .inr ((hopen hsplit hafter hauth).symm.trans hlink)
    · exact .inl hafter
  · rintro ⟨o, scheme, rest, hbase, hsplit, hstays⟩
    refine ⟨o, hbase, ?_⟩
    by_cases hafter : afterAuthority rest = []
    · obtain ⟨scheme', rest', hsplit', hauth⟩ := splitScheme_stripTrailingSlash parseHost hbase
      obtain ⟨rfl, rfl⟩ := Prod.mk.inj (Option.some.inj (hsplit.symm.trans hsplit'))
      rw [hopen hsplit hafter hauth]
      exact hstays.resolve_left fun hne => hne hafter
    · rw [hurl, origin_append_of_ended parseHost hsplit hafter,
        ← origin_base_of_ended parseHost hsplit hafter, hbase]

end Origin

end AttachmentLinks

end HulyGitlab
