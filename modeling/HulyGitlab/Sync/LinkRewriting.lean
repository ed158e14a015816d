import HulyGitlab.Lib.Scanning
import HulyGitlab.Sync.AttachmentLinks

/-!
# Rewriting the links of a body

`rewriteAttachmentLinks` scans the body for links and puts other links into
their places. It replaces the mapped URLs and nothing else.
-/

namespace HulyGitlab.AttachmentLinks

open Scanning

/-- The text of a link. -/
def linkText (m : LinkMatch) : List Char :=
  (if m.bang then ['!'] else []) ++ '[' :: (m.alt ++ ']' :: '(' :: (m.url ++ [')']))

/-- What the groups of the pattern can be. -/
def WellFormed (m : LinkMatch) : Prop := ']' ∉ m.alt ∧ ')' ∉ m.url ∧ m.url ≠ []

theorem linkText_length (m : LinkMatch) : (linkText m).length = m.length := by
  unfold linkText LinkMatch.length
  split
  · simp only [List.length_append, List.length_cons, List.length_nil]
    omega
  · simp only [List.length_append, List.length_cons, List.length_nil]
    omega

theorem linkText_ne_nil (m : LinkMatch) : linkText m ≠ [] := by
  simp [linkText]

theorem dropWhile_ne_eq_cons {d e : Char} {s rest : List Char}
    (h : s.dropWhile (· ≠ d) = e :: rest) : e = d ∧ s = s.takeWhile (· ≠ d) ++ d :: rest := by
  have hhead := List.head?_dropWhile_not (· ≠ d) s
  rw [h] at hhead
  obtain rfl : e = d := by simpa using hhead
  refine ⟨rfl, ?_⟩
  rw [← h]
  exact List.takeWhile_append_dropWhile.symm

theorem not_mem_takeWhile_ne (d : Char) (s : List Char) : d ∉ s.takeWhile (· ≠ d) := by
  intro h
  simpa using List.mem_takeWhile_imp h

theorem takeWhile_ne_append {d : Char} {s : List Char} (h : d ∉ s) (rest : List Char) :
    (s ++ d :: rest).takeWhile (· ≠ d) = s := by
  have hall : ∀ c ∈ s, decide (c ≠ d) = true := by
    intro c hc
    exact decide_eq_true (ne_of_mem_of_not_mem hc h)
  rw [List.takeWhile_append_of_pos hall, List.takeWhile_cons_of_neg (by simp), List.append_nil]

theorem dropWhile_ne_append {d : Char} {s : List Char} (h : d ∉ s) (rest : List Char) :
    (s ++ d :: rest).dropWhile (· ≠ d) = d :: rest := by
  have hall : ∀ c ∈ s, decide (c ≠ d) = true := by
    intro c hc
    exact decide_eq_true (ne_of_mem_of_not_mem hc h)
  rw [List.dropWhile_append_of_pos hall, List.dropWhile_cons_of_neg (by simp)]

/-- The part of the pattern from the opening bracket on. -/
def matchBracket (bang : Bool) (s : List Char) : Option LinkMatch :=
  match s with
  | '[' :: more =>
      match more.dropWhile (· ≠ ']') with
      | _ :: '(' :: inner =>
          let url := inner.takeWhile (· ≠ ')')
          if url = [] ∨ inner.dropWhile (· ≠ ')') = [] then none
          else some ⟨bang, more.takeWhile (· ≠ ']'), url⟩
      | _ => none
  | _ => none

theorem matchLink_eq (s : List Char) :
    matchLink s = matchBracket (decide (s.head? = some '!'))
      (if decide (s.head? = some '!') then s.drop 1 else s) := rfl

theorem matchBracket_iff (bang : Bool) (s : List Char) (m : LinkMatch) :
    matchBracket bang s = some m ↔
      m.bang = bang ∧ WellFormed m ∧
        ∃ rest, s = '[' :: (m.alt ++ ']' :: '(' :: (m.url ++ ')' :: rest)) := by
  unfold matchBracket
  constructor
  · intro h
    split at h
    · rename_i more
      split at h
      · rename_i e inner hdrop
        obtain ⟨rfl, hmore⟩ := dropWhile_ne_eq_cons hdrop
        dsimp only at h
        split at h
        · cases h
        · rename_i hurl
          rw [not_or] at hurl
          obtain ⟨f, rest, hinner⟩ := List.exists_cons_of_ne_nil hurl.2
          obtain ⟨rfl, hsplit⟩ := dropWhile_ne_eq_cons hinner
          obtain rfl := Option.some.inj h
          refine ⟨rfl, ⟨not_mem_takeWhile_ne _ _, not_mem_takeWhile_ne _ _, hurl.1⟩, rest, ?_⟩
          rw [← hsplit, ← hmore]
      · cases h
    · cases h
  · rintro ⟨rfl, ⟨halt, hurl, hne⟩, rest, rfl⟩
    simp only [dropWhile_ne_append halt, takeWhile_ne_append halt, dropWhile_ne_append hurl,
      takeWhile_ne_append hurl, hne, List.cons_ne_nil, or_self, if_false]

theorem linkText_append (m : LinkMatch) (rest : List Char) :
    linkText m ++ rest = (if m.bang then ['!'] else []) ++
      '[' :: (m.alt ++ ']' :: '(' :: (m.url ++ ')' :: rest)) := by
  simp [linkText]

theorem matchLink_iff (s : List Char) (m : LinkMatch) :
    matchLink s = some m ↔ WellFormed m ∧ ∃ rest, s = linkText m ++ rest := by
  rw [matchLink_eq, matchBracket_iff]
  simp only [linkText_append]
  by_cases hbang : s.head? = some '!'
  · obtain ⟨t, rfl⟩ := List.head?_eq_some_iff.mp hbang
    rw [decide_eq_true hbang, if_pos rfl]
    constructor
    · rintro ⟨htrue, hwf, rest, hrest⟩
      refine ⟨hwf, rest, ?_⟩
      rw [htrue, if_pos rfl, ← hrest]
      rfl
    · rintro ⟨hwf, rest, hrest⟩
      cases hm : m.bang with
      | true =>
          rw [hm, if_pos rfl] at hrest
          exact ⟨rfl, hwf, rest, (List.cons_eq_cons.mp hrest).2⟩
      | false =>
          rw [hm] at hrest
          exact absurd (List.cons_eq_cons.mp hrest).1 (by decide)
  · rw [decide_eq_false hbang]
    constructor
    · rintro ⟨hfalse, hwf, rest, hrest⟩
      refine ⟨hwf, rest, ?_⟩
      rw [hfalse]
      exact hrest
    · rintro ⟨hwf, rest, hrest⟩
      cases hm : m.bang with
      | true =>
          rw [hm, if_pos rfl] at hrest
          exact absurd (congrArg List.head? hrest) hbang
      | false =>
          rw [hm] at hrest
          exact ⟨rfl, hwf, rest, hrest⟩

theorem lawful : Lawful matchLink linkText where
  found s m h := ((matchLink_iff s m).mp h).2
  nonempty _ m _ := linkText_ne_nil m

/-- What stands in the place of a link. -/
def put (map : OrderedMap String String) (m : LinkMatch) : LinkMatch :=
  match map.get? (String.ofList (trim m.url)) with
  | none => m
  | some replacement => { m with url := replacement.toList }

theorem replaceLink_eq (map : OrderedMap String String) {s : List Char} {m : LinkMatch}
    (h : matchLink s = some m) : replaceLink map s m = linkText (put map m) := by
  obtain ⟨-, rest, rfl⟩ := (matchLink_iff s m).mp h
  unfold replaceLink put
  cases map.get? (String.ofList (trim m.url)) with
  | none => rw [← linkText_length, List.take_left]
  | some replacement => simp [linkText]

theorem findLinks_eq (skip : Nat) (s : List Char) :
    findLinks skip s = findAll matchLink linkText skip s := by
  induction s generalizing skip with
  | nil => rfl
  | cons c cs ih =>
      cases skip with
      | succ skip => exact ih skip
      | zero =>
          rw [findLinks, findAll]
          cases matchLink (c :: cs) with
          | none => exact ih 0
          | some m => simp only [ih, linkText_length]

theorem rewriteFrom_eq (map : OrderedMap String String) (skip : Nat) (s : List Char) :
    rewriteFrom map skip s =
      replaceAll matchLink linkText (fun m => linkText (put map m)) skip s := by
  induction s generalizing skip with
  | nil => rfl
  | cons c cs ih =>
      cases skip with
      | succ skip => exact ih skip
      | zero =>
          rw [rewriteFrom, replaceAll]
          cases h : matchLink (c :: cs) with
          | none => simp only [ih]
          | some m => simp only [ih, linkText_length, replaceLink_eq map h]

section Gaps

/-- A text that the pattern takes from its opening bracket on. -/
def Closes (s : List Char) : Prop :=
  ∃ alt inner, s = alt ++ ']' :: '(' :: inner ∧ ']' ∉ alt ∧ inner.head? ≠ some ')' ∧ ')' ∈ inner

theorem head?_url {m : LinkMatch} (h : WellFormed m) (rest : List Char) :
    (m.url ++ ')' :: rest).head? ≠ some ')' := by
  obtain ⟨-, hurl, hne⟩ := h
  obtain ⟨c, cs, hcs⟩ := List.exists_cons_of_ne_nil hne
  rw [hcs] at hurl ⊢
  intro hc
  obtain rfl : c = ')' := Option.some.inj hc
  exact hurl List.mem_cons_self

theorem exists_matchLink_iff (s : List Char) :
    (∃ m, matchLink s = some m) ↔
      ∃ t, (s = '[' :: t ∨ s = '!' :: '[' :: t) ∧ Closes t := by
  constructor
  · rintro ⟨m, hm⟩
    obtain ⟨hwf, rest, rfl⟩ := (matchLink_iff s m).mp hm
    rw [linkText_append]
    refine ⟨m.alt ++ ']' :: '(' :: (m.url ++ ')' :: rest), ?_, m.alt, m.url ++ ')' :: rest, rfl,
      hwf.1, head?_url hwf rest, by simp⟩
    cases m.bang with
    | true => exact .inr rfl
    | false => exact .inl rfl
  · rintro ⟨t, hs, alt, inner, rfl, halt, hhead, hmem⟩
    obtain ⟨url, rest, hinner, hurl⟩ := List.eq_append_cons_of_mem hmem
    have hne : url ≠ [] := by
      rintro rfl
      exact hhead (hinner ▸ rfl)
    obtain rfl | rfl := hs
    · refine ⟨⟨false, alt, url⟩, (matchLink_iff _ _).mpr ⟨⟨halt, hurl, hne⟩, rest, ?_⟩⟩
      rw [linkText_append, hinner]
      rfl
    · refine ⟨⟨true, alt, url⟩, (matchLink_iff _ _).mpr ⟨⟨halt, hurl, hne⟩, rest, ?_⟩⟩
      rw [linkText_append, hinner]
      rfl

variable {m m' : LinkMatch} {rest rest' : List Char}

/-- A link begins with an exclamation mark or a bracket. -/
theorem linkText_head (m : LinkMatch) (rest : List Char) :
    (linkText m ++ rest).head? = some (if m.bang then '!' else '[') := by
  rw [linkText_append]
  cases m.bang <;> rfl

theorem head?_append_congr {xs ys zs : List Char} (h : ys.head? = zs.head?) :
    (xs ++ ys).head? = (xs ++ zs).head? := by
  cases xs with
  | nil => exact h
  | cons x xs => rfl

/-- In front of a link the pattern closes in it, or before it, whatever its URL is. -/
theorem closes_of_closes (hbang : m'.bang = m.bang) (hwf : WellFormed m) {s : List Char}
    (h : Closes (s ++ (linkText m' ++ rest'))) : Closes (s ++ (linkText m ++ rest)) := by
  obtain ⟨alt, inner, heq, halt, hhead, hmem⟩ := h
  have hsame : (linkText m' ++ rest').head? = (linkText m ++ rest).head? := by
    rw [linkText_head, linkText_head, hbang]
  rcases List.append_eq_append_iff.mp heq with ⟨y, rfl, -⟩ | ⟨x, rfl, hx⟩
  · -- the first closing bracket is the one of the link
    rw [List.mem_append, not_or] at halt
    refine ⟨s ++ ((if m.bang then ['!'] else []) ++ '[' :: m.alt), m.url ++ ')' :: rest, ?_, ?_,
      head?_url hwf rest, by simp⟩
    · rw [linkText_append]
      simp
    · have hmark : ']' ∉ (if m.bang then ['!'] else []) := by
        split <;> decide
      simp only [List.mem_append, List.mem_cons, not_or]
      exact ⟨halt.1, hmark, by decide, hwf.1⟩
  · -- it comes before the link, and so does the opening parenthesis
    have hne : ∀ c ∈ (linkText m' ++ rest').head?, c ≠ ']' ∧ c ≠ '(' := by
      rw [linkText_head]
      rintro c ⟨⟩
      split <;> decide
    match x, hx with
    | [], hx => exact absurd rfl (hne ']' (hx ▸ rfl)).1
    | [_], hx =>
        have htail : linkText m' ++ rest' = '(' :: inner := (List.cons_eq_cons.mp hx).2.symm
        exact absurd rfl (hne '(' (htail ▸ rfl)).2
    | _ :: _ :: x, hx =>
        obtain ⟨rfl, htail⟩ := List.cons_eq_cons.mp hx
        obtain ⟨rfl, rfl⟩ := List.cons_eq_cons.mp htail
        refine ⟨alt, x ++ (linkText m ++ rest), by simp, halt, ?_, ?_⟩
        · rwa [← head?_append_congr hsame]
        · rw [linkText_append]
          simp

theorem gap_linkText (hbang : m'.bang = m.bang) (hwf : WellFormed m) {gap : List Char}
    (h : Gap matchLink gap (linkText m ++ rest)) : Gap matchLink gap (linkText m' ++ rest') := by
  intro a b hab hb
  by_contra hmatch
  have hnone := h a b hab hb
  obtain ⟨k, hk⟩ := Option.ne_none_iff_exists'.mp hmatch
  obtain ⟨t, ht, hcloses⟩ := (exists_matchLink_iff _).mp ⟨k, hk⟩
  have hold : ∃ m₀, matchLink (b ++ (linkText m ++ rest)) = some m₀ := by
    rw [exists_matchLink_iff]
    obtain ⟨c, b, rfl⟩ := List.exists_cons_of_ne_nil hb
    rcases ht with ht | ht
    · obtain ⟨rfl, rfl⟩ := List.cons_eq_cons.mp ht
      exact ⟨_, .inl rfl, closes_of_closes hbang hwf hcloses⟩
    · obtain ⟨rfl, htail⟩ := List.cons_eq_cons.mp ht
      cases b with
      | nil =>
          -- the mark belongs to the link behind it
          have hnobang : m.bang = false := by
            have htext : linkText m' ++ rest' = '[' :: t := htail
            have hhead := linkText_head m' rest'
            rw [htext, hbang] at hhead
            cases hm : m.bang with
            | false => rfl
            | true => simp [hm] at hhead
          refine ⟨m.alt ++ ']' :: '(' :: (m.url ++ ')' :: rest), .inr ?_, m.alt,
            m.url ++ ')' :: rest, rfl, hwf.1, head?_url hwf rest, by simp⟩
          rw [linkText_append, hnobang]
          rfl
      | cons d b =>
          obtain ⟨rfl, rfl⟩ := List.cons_eq_cons.mp htail
          exact ⟨_, .inr rfl, closes_of_closes hbang hwf hcloses⟩
  obtain ⟨m₀, hm₀⟩ := hold
  rw [hnone] at hm₀
  cases hm₀

end Gaps

/-- The links of a body, in order. -/
def links (body : String) : List LinkMatch := findLinks 0 body.toList

/-- The image flag, the alt text and the trimmed URL of a link. -/
def shown (m : LinkMatch) : Bool × List Char × List Char := (m.bang, m.alt, trim m.url)

/-- The target of the last mapping of the URL whose target differs from it. -/
def lastTarget (mappings : List AttachmentMapping) (url : String) : Option String :=
  ((mappings.filter fun m => m.sourceUrl = url ∧ m.targetUrl ≠ url).getLast?).map
    AttachmentMapping.targetUrl

/-- The link with the target of its trimmed URL, if it is mapped. -/
def retarget (mappings : List AttachmentMapping) (m : LinkMatch) : LinkMatch :=
  match lastTarget mappings (String.ofList (trim m.url)) with
  | none => m
  | some target => { m with url := target.toList }

/-- Not empty, trimmed, and without a closing parenthesis. -/
def PlainTargets (mappings : List AttachmentMapping) : Prop :=
  ∀ m ∈ mappings, m.targetUrl.toList ≠ [] ∧ trim m.targetUrl.toList = m.targetUrl.toList ∧
    ')' ∉ m.targetUrl.toList

/-- No new URL is the source of a mapping to another one. -/
def Unchained (mappings : List AttachmentMapping) : Prop :=
  ∀ m ∈ mappings, ∀ m' ∈ mappings, m.targetUrl ≠ m.sourceUrl → m'.targetUrl ≠ m'.sourceUrl →
    m.targetUrl ≠ m'.sourceUrl

section Rewriting

variable {mappings : List AttachmentMapping} {body target url : String}

theorem urlMap_get? (mappings : List AttachmentMapping) (url : String) :
    (urlMap mappings).get? url = lastTarget mappings url := by
  induction mappings using List.reverseRecOn with
  | nil => rfl
  | append_singleton ms m ih =>
      have hfold : urlMap (ms ++ [m]) =
          if m.sourceUrl ≠ m.targetUrl then (urlMap ms).set m.sourceUrl m.targetUrl
          else urlMap ms := by
        simp only [urlMap, List.foldl_append, List.foldl_cons, List.foldl_nil]
      rw [hfold, lastTarget, List.filter_append]
      by_cases hm : m.sourceUrl = url ∧ m.targetUrl ≠ url
      · obtain ⟨rfl, hne⟩ := hm
        rw [if_pos (Ne.symm hne), OrderedMap.get?_set_self,
          List.filter_cons_of_pos (by simpa using hne), List.filter_nil, List.getLast?_concat]
        rfl
      · rw [List.filter_cons_of_neg (by simpa using hm), List.filter_nil, List.append_nil,
          ← lastTarget, ← ih]
        split
        · rename_i hne
          refine OrderedMap.get?_set_of_ne _ ?_ _
          rintro rfl
          exact hm ⟨rfl, Ne.symm hne⟩
        · rfl

theorem lastTarget_mem (h : lastTarget mappings url = some target) :
    ∃ m ∈ mappings, m.sourceUrl = url ∧ m.targetUrl = target ∧ target ≠ url := by
  obtain ⟨m, hm, rfl⟩ := Option.map_eq_some_iff.mp h
  obtain ⟨hmem, hm⟩ := List.mem_filter.mp (List.mem_of_getLast? hm)
  rw [decide_eq_true_eq] at hm
  exact ⟨m, hmem, hm.1, rfl, hm.2⟩

theorem put_eq (mappings : List AttachmentMapping) (m : LinkMatch) :
    put (urlMap mappings) m = retarget mappings m := by
  simp only [put, retarget, urlMap_get?]

@[simp] theorem retarget_bang (m : LinkMatch) : (retarget mappings m).bang = m.bang := by
  unfold retarget
  split <;> rfl

@[simp] theorem retarget_alt (m : LinkMatch) : (retarget mappings m).alt = m.alt := by
  unfold retarget
  split <;> rfl

theorem retarget_wellFormed (ht : PlainTargets mappings) {m : LinkMatch} (h : WellFormed m) :
    WellFormed (retarget mappings m) := by
  unfold retarget
  split
  · exact h
  · rename_i target htarget
    obtain ⟨m', hm', -, rfl, -⟩ := lastTarget_mem htarget
    obtain ⟨hne, -, hparen⟩ := ht m' hm'
    exact ⟨h.1, hparen, hne⟩

theorem shown_retarget (ht : PlainTargets mappings) (m : LinkMatch) :
    shown (retarget mappings m) =
      (m.bang, m.alt,
        ((lastTarget mappings (String.ofList (trim m.url))).map String.toList).getD
          (trim m.url)) := by
  unfold retarget
  cases htarget : lastTarget mappings (String.ofList (trim m.url)) with
  | none => rfl
  | some target =>
      obtain ⟨m', hm', -, rfl, -⟩ := lastTarget_mem htarget
      simp [shown, (ht m' hm').2.1]

theorem retarget_retarget (ht : PlainTargets mappings) (hu : Unchained mappings) (m : LinkMatch) :
    retarget mappings (retarget mappings m) = retarget mappings m := by
  cases htarget : lastTarget mappings (String.ofList (trim m.url)) with
  | none =>
      have hsame : retarget mappings m = m := by
        simp only [retarget, htarget]
      rw [hsame, hsame]
  | some target =>
      have hnew : retarget mappings m = { m with url := target.toList } := by
        simp only [retarget, htarget]
      obtain ⟨m', hm', hsource', rfl, hne'⟩ := lastTarget_mem htarget
      have hnone : lastTarget mappings (String.ofList (trim m'.targetUrl.toList)) = none := by
        rw [(ht m' hm').2.1, String.ofList_toList]
        by_contra hsome
        obtain ⟨target', htarget'⟩ := Option.ne_none_iff_exists'.mp hsome
        obtain ⟨m₂, hm₂, hsource, htarget₂, hne⟩ := lastTarget_mem htarget'
        refine hu m' hm' m₂ hm₂ ?_ ?_ hsource.symm
        · rwa [hsource']
        · rwa [htarget₂, hsource]
      rw [hnew]
      simp only [retarget, hnone]

/-- The links that a rewriting puts into a scanned body are found in their places. -/
theorem scanned_retarget (ht : PlainTargets mappings) {parts : List (List Char × LinkMatch)}
    {last : List Char} (h : Scanned matchLink linkText parts last) :
    Scanned matchLink linkText (parts.map fun part => (part.1, retarget mappings part.2)) last := by
  refine h.map (retarget mappings) (fun m rest rest' hm => ?_) (fun m gap rest rest' hm hgap => ?_)
  · exact (matchLink_iff _ _).mpr
      ⟨retarget_wellFormed ht ((matchLink_iff _ _).mp hm).1, rest', rfl⟩
  · exact gap_linkText (retarget_bang m) ((matchLink_iff _ _).mp hm).1 hgap

theorem rewrite_weave {parts : List (List Char × LinkMatch)} {last : List Char}
    (hbody : body.toList = weave linkText parts last) (h : Scanned matchLink linkText parts last) :
    (rewriteAttachmentLinks body mappings).toList =
      weave linkText (parts.map fun part => (part.1, retarget mappings part.2)) last := by
  unfold rewriteAttachmentLinks
  split
  · rename_i hempty
    have hsame : ∀ m, retarget mappings m = m := by
      intro m
      have hnone : lastTarget mappings (String.ofList (trim m.url)) = none := by
        rw [← urlMap_get?, OrderedMap.get?, hempty]
        rfl
      simp only [retarget, hnone]
    rw [hbody]
    simp only [hsame, Prod.mk.eta, List.map_id']
  · rw [String.toList_ofList, rewriteFrom_eq, hbody]
    exact h.replaceAll_eq lawful (retarget mappings) fun m => by rw [put_eq]

end Rewriting

/-- The links of the result are those of the body with the mapped URLs
replaced, what is not a replaced link is the same text, and without chains of
mappings a second rewriting changes nothing. -/
theorem rewriteAttachmentLinks_exact (body : String) (mappings : List AttachmentMapping)
    (ht : PlainTargets mappings) :
    (links (rewriteAttachmentLinks body mappings)).map shown =
        (links body).map (fun m => (m.bang, m.alt,
          ((lastTarget mappings (String.ofList (trim m.url))).map String.toList).getD
            (trim m.url))) ∧
      (∃ parts last, body.toList = weave linkText parts last ∧ links body = parts.map Prod.snd ∧
        (rewriteAttachmentLinks body mappings).toList =
          weave linkText (parts.map fun part => (part.1, retarget mappings part.2)) last) ∧
      (Unchained mappings →
        rewriteAttachmentLinks (rewriteAttachmentLinks body mappings) mappings =
          rewriteAttachmentLinks body mappings) := by
  obtain ⟨parts, last, hbody, hscan⟩ := exists_scanned lawful body.toList
  have hscan' := scanned_retarget ht hscan
  have hresult : (rewriteAttachmentLinks body mappings).toList =
      weave linkText (parts.map fun part => (part.1, retarget mappings part.2)) last :=
    rewrite_weave hbody hscan
  have hlinks : links body = parts.map Prod.snd := by
    rw [links, findLinks_eq, hbody, hscan.findAll_eq lawful]
  refine ⟨?_, ⟨parts, last, hbody, hlinks, hresult⟩, fun hu => ?_⟩
  · rw [hlinks, links, findLinks_eq, hresult, hscan'.findAll_eq lawful]
    simp only [List.map_map]
    exact List.map_congr_left fun part _ => shown_retarget ht part.2
  · rw [← String.toList_inj, rewrite_weave hresult hscan', hresult, List.map_map]
    simp only [Function.comp_def, retarget_retarget ht hu]

/-- An image and a link whose text holds a bracket. -/
theorem rewriteAttachmentLinks_exact_two :
    rewriteAttachmentLinks
        (rewriteAttachmentLinks "![a](/u/1) [b [c]( /u/2 )" [⟨"/u/1", "x:1"⟩, ⟨"/u/2", "x:2"⟩])
        [⟨"/u/1", "x:1"⟩, ⟨"/u/2", "x:2"⟩] =
      rewriteAttachmentLinks "![a](/u/1) [b [c]( /u/2 )" [⟨"/u/1", "x:1"⟩, ⟨"/u/2", "x:2"⟩] :=
  (rewriteAttachmentLinks_exact "![a](/u/1) [b [c]( /u/2 )" [⟨"/u/1", "x:1"⟩, ⟨"/u/2", "x:2"⟩]
    (by unfold PlainTargets; decide +kernel)).2.2 (by unfold Unchained; decide +kernel)

end HulyGitlab.AttachmentLinks
