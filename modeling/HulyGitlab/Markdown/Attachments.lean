import HulyGitlab.Lib.JsString
import HulyGitlab.Lib.TextInsertion

/-!
# Attachment URLs in markdown

`rewriteAttachmentUrls`: the relative upload paths of GitLab are made
absolute. When that leaves absolute URLs alone, and when doing it twice is
the same as doing it once.
-/

namespace HulyGitlab.AttachmentUrls

open TextInsertion

structure AttachmentBinding where
  gitlabBaseUrl : String
  projectPath : String

inductive Mode
  | gfmToHuly
  | hulyToGfm
  deriving DecidableEq

/-- `[:/\w]`. -/
def isPathChar (c : Char) : Bool := c = ':' || c = '/' || c.isAlphanum || c = '_'

/-- The complement of `[^)\s"']`; the last two are the quotation marks. -/
def endsReference (c : Char) : Bool :=
  c = ')' || isJsSpace c || c = Char.ofNat 0x22 || c = Char.ofNat 0x27

def uploadsTail : List Char := ['u', 'p', 'l', 'o', 'a', 'd', 's', '/']

/-- The text `/uploads/`. -/
def uploads : List Char := '/' :: uploadsTail

/-- `UPLOADS_RELATIVE` at the head of a text, with the character before it; its group. -/
def matchUploads (before : Option Char) (s : List Char) : Option (List Char) :=
  if before.any isPathChar then none
  else if uploads.isPrefixOf s then
    match (s.drop uploads.length).takeWhile (!endsReference ·) with
    | [] => none
    | rest => some rest
  else none

/-- `replace` with the pattern; `skip` counts what is left of a match. -/
def replaceFrom (replacement : List Char → List Char) (before : Option Char) (skip : Nat) :
    List Char → List Char
  | [] => []
  | c :: cs =>
      match skip with
      | skip + 1 => replaceFrom replacement (some c) skip cs
      | 0 =>
          match matchUploads before (c :: cs) with
          | none => c :: replaceFrom replacement (some c) 0 cs
          | some rest =>
              replacement rest ++
                replaceFrom replacement (some c) (uploads.length + rest.length - 1) cs

def rewriteAttachmentUrls (markdown : String) (mode : Mode) (binding : AttachmentBinding) :
    String :=
  match mode with
  | .gfmToHuly =>
      let replacement rest :=
        let base := stripTrailingSlash binding.gitlabBaseUrl
        let project := stripSlashes binding.projectPath
        base.toList ++ '/' :: project.toList ++ uploads ++ rest
      String.ofList (replaceFrom replacement none 0 markdown.toList)
  | .hulyToGfm => markdown

/-- What comes before the path of a reference. -/
def projectUrl (binding : AttachmentBinding) : List Char :=
  (stripTrailingSlash binding.gitlabBaseUrl).toList ++ '/' ::
    (stripSlashes binding.projectPath).toList

/-- A relative reference begins here. -/
def isReference (before : Option Char) (s : List Char) : Bool := (matchUploads before s).isSome

/-- What each character of the text becomes. -/
def characterOutputs (binding : AttachmentBinding) (markdown : String) : List (List Char) :=
  outputs isReference endsReference (projectUrl binding) none false markdown.toList

/-- An http URL without a character that ends a reference. -/
def IsAbsoluteUrl (url : List Char) : Prop :=
  ("http://".toList <+: url ∨ "https://".toList <+: url) ∧ ∀ c ∈ url, endsReference c = false

/-- The characters of every absolute URL stay as they are. -/
def KeepsUrls (binding : AttachmentBinding) (markdown : String) : Prop :=
  ∀ pre url post, markdown.toList = pre ++ url ++ post → IsAbsoluteUrl url →
    (((characterOutputs binding markdown).drop pre.length).take url.length).flatten = url

section References

variable {before : Option Char} {c : Char} {s cs rest more : List Char}

theorem matchUploads_eq_some (h : matchUploads before s = some rest) :
    before.any isPathChar = false ∧ rest ≠ [] ∧ (∀ c ∈ rest, endsReference c = false) ∧
      ∃ more, s = uploads ++ (rest ++ more) ∧ ∀ c ∈ more.head?, endsReference c = true := by
  unfold matchUploads at h
  cases hb : before.any isPathChar with
  | true => simp [hb] at h
  | false =>
      cases hp : uploads.isPrefixOf s with
      | false => simp [hb, hp] at h
      | true =>
          obtain ⟨t, rfl⟩ := List.isPrefixOf_iff_prefix.mp hp
          simp only [hb, hp, if_true, Bool.false_eq_true, if_false, List.drop_left] at h
          have hsplit : t.takeWhile (!endsReference ·) ++ t.dropWhile (!endsReference ·) = t :=
            List.takeWhile_append_dropWhile
          cases hrest : t.takeWhile (!endsReference ·) with
          | nil => simp [hrest] at h
          | cons d ds =>
              rw [hrest] at h
              obtain rfl : d :: ds = rest := Option.some.inj h
              refine ⟨rfl, List.cons_ne_nil d ds, fun e he => ?_,
                t.dropWhile (!endsReference ·), by rw [← hrest, hsplit], fun e he => ?_⟩
              · rw [← hrest] at he
                simpa using List.mem_takeWhile_imp he
              · have hhead := List.head?_dropWhile_not (!endsReference ·) t
                rw [he] at hhead
                simpa using hhead

theorem isReference_iff (before : Option Char) (s : List Char) :
    isReference before s = true ↔
      before.any isPathChar = false ∧
        ∃ r more, s = uploads ++ r :: more ∧ endsReference r = false := by
  constructor
  · intro h
    obtain ⟨rest, hrest⟩ := Option.isSome_iff_exists.mp h
    obtain ⟨hbefore, hne, hrun, more, rfl, -⟩ := matchUploads_eq_some hrest
    obtain ⟨r, ds, rfl⟩ := List.exists_cons_of_ne_nil hne
    exact ⟨hbefore, r, ds ++ more, rfl, hrun r List.mem_cons_self⟩
  · rintro ⟨hbefore, r, more, rfl, hr⟩
    have hprefix : uploads.isPrefixOf (uploads ++ r :: more) = true :=
      List.isPrefixOf_iff_prefix.mpr (List.prefix_append _ _)
    simp [isReference, matchUploads, hbefore, hprefix, hr]

theorem isReference_nil (before : Option Char) : isReference before [] = false := by
  by_contra h
  obtain ⟨-, r, more, heq, -⟩ := (isReference_iff before []).mp (by simpa using h)
  exact absurd heq (List.cons_ne_nil _ _).symm

/-- A reference begins with a slash, which ends none. -/
theorem ends_of_isReference (h : isReference before (c :: cs) = true) :
    endsReference c = false := by
  obtain ⟨-, r, more, heq, -⟩ := (isReference_iff before _).mp h
  obtain ⟨rfl, -⟩ := List.cons_eq_cons.mp heq
  decide

theorem isReference_after (h : isPathChar c = true) (s : List Char) :
    isReference (some c) s = false := by
  by_contra href
  obtain ⟨hbefore, -⟩ := (isReference_iff (some c) s).mp (by simpa using href)
  simp [h] at hbefore

end References

theorem uploadsTail_run : ∀ c ∈ uploadsTail, endsReference c = false := by
  simpa using (by decide : uploadsTail.any endsReference = false)

section Replace

variable {ins : List Char}

theorem replaceFrom_skip (replacement : List Char → List Char) (w more : List Char)
    (before : Option Char) :
    replaceFrom replacement before w.length (w ++ more) =
      replaceFrom replacement (lastOr before w) 0 more := by
  induction w generalizing before with
  | nil => rfl
  | cons c w ih => rw [List.cons_append, List.length_cons, replaceFrom, ih, lastOr_cons]

/-- The replacement puts one text before the references it finds. -/
theorem replaceFrom_eq (ins : List Char) (before : Option Char) (s : List Char) :
    replaceFrom (fun rest => ins ++ (uploads ++ rest)) before 0 s =
      insertFrom isReference endsReference ins before false s := by
  induction hn : s.length using Nat.strong_induction_on generalizing s before with
  | _ n ih =>
    cases s with
    | nil => rfl
    | cons c cs =>
        rw [replaceFrom]
        cases hm : matchUploads before (c :: cs) with
        | none =>
            have href : ¬ (false = false ∧ isReference before (c :: cs) = true) := by
              simp [isReference, hm]
            have hrest := ih cs.length (by rw [← hn]; simp) (some c) cs rfl
            cases hc : endsReference c with
            | true => rw [insertFrom_ends hc, hrest]
            | false => rw [insertFrom_copied hc href, hrest]
        | some rest =>
            obtain ⟨-, hne, hrun, more, heq, hhead⟩ := matchUploads_eq_some hm
            obtain ⟨rfl, hcs⟩ := List.cons_eq_cons.mp heq
            have hcs : cs = (uploadsTail ++ rest) ++ more :=
              hcs.trans (List.append_assoc _ _ _).symm
            have href : isReference before ('/' :: cs) = true :=
              Option.isSome_iff_exists.mpr ⟨rest, hm⟩
            have hskip : uploads.length + rest.length - 1 = (uploadsTail ++ rest).length := by
              simp only [uploads, List.length_cons, List.length_append]
              omega
            have hcopied : ∀ c ∈ uploadsTail ++ rest, endsReference c = false := by
              intro c hc
              rcases List.mem_append.mp hc with hc | hc
              · exact uploadsTail_run c hc
              · exact hrun c hc
            have hlt : more.length < n := by
              rw [← hn, hcs]
              simp only [List.length_cons, List.length_append]
              omega
            rw [insertFrom_marked (ends_of_isReference href) href]
            dsimp only
            rw [hskip, hcs, replaceFrom_skip, insertFrom_inside _ _ hcopied,
              insertFrom_boundary hhead, ih more.length hlt _ _ rfl]
            simp only [uploads, List.append_assoc, List.cons_append]

/-- After a path character nothing is put into the text. -/
theorem insertFrom_after {d : Char} (hd : isPathChar d = true) (inside : Bool) (c : Char)
    (cs : List Char) :
    ∃ inside', insertFrom isReference endsReference ins (some d) inside (c :: cs) =
      c :: insertFrom isReference endsReference ins (some c) inside' cs := by
  cases hc : endsReference c with
  | true => exact ⟨false, insertFrom_ends hc⟩
  | false => exact ⟨inside, insertFrom_copied hc (by simp [isReference_after hd])⟩

/-- Behind path characters the same text is found with the insertions and without. -/
theorem prefix_insertFrom_iff (w : List Char) (r : Char) (hw : ∀ c ∈ w, isPathChar c = true)
    {d : Char} (hd : isPathChar d = true) (inside : Bool) (cs : List Char) :
    w ++ [r] <+: insertFrom isReference endsReference ins (some d) inside cs ↔
      w ++ [r] <+: cs := by
  induction w generalizing d inside cs with
  | nil =>
      cases cs with
      | nil => exact Iff.rfl
      | cons c cs =>
          obtain ⟨inside', heq⟩ : ∃ inside',
              insertFrom isReference endsReference ins (some d) inside (c :: cs) =
                c :: insertFrom isReference endsReference ins (some c) inside' cs :=
            insertFrom_after hd inside c cs
          rw [heq]
          simp
  | cons e w ih =>
      obtain ⟨he, hw⟩ := List.forall_mem_cons.mp hw
      cases cs with
      | nil => exact Iff.rfl
      | cons c cs =>
          obtain ⟨inside', heq⟩ : ∃ inside',
              insertFrom isReference endsReference ins (some d) inside (c :: cs) =
                c :: insertFrom isReference endsReference ins (some c) inside' cs :=
            insertFrom_after hd inside c cs
          rw [heq, List.cons_append, List.cons_prefix_cons, List.cons_prefix_cons]
          exact and_congr_right fun hec => ih hw (hec ▸ he) inside' cs

theorem isReference_iff_prefix (before : Option Char) (s : List Char) :
    isReference before s = true ↔
      before.any isPathChar = false ∧ ∃ r, endsReference r = false ∧ uploads ++ [r] <+: s := by
  rw [isReference_iff]
  refine and_congr_right fun _ => ?_
  constructor
  · rintro ⟨r, more, rfl, hr⟩
    exact ⟨r, hr, more, by simp⟩
  · rintro ⟨r, hr, more, rfl⟩
    exact ⟨r, more, by simp, hr⟩

theorem uploadsTail_path : ∀ c ∈ uploadsTail, isPathChar c = true :=
  List.all_eq_true.mp (by decide)

/-- Whether a reference begins somewhere does not depend on the insertions after it. -/
theorem isReference_look (before : Option Char) (c : Char) (cs : List Char) (inside : Bool) :
    isReference before (c :: insertFrom isReference endsReference ins (some c) inside cs) =
      isReference before (c :: cs) := by
  rw [Bool.eq_iff_iff, isReference_iff_prefix, isReference_iff_prefix]
  refine and_congr_right fun _ => exists_congr fun r => and_congr_right fun _ => ?_
  rw [uploads, List.cons_append, List.cons_prefix_cons, List.cons_prefix_cons]
  refine and_congr_right fun hc => ?_
  exact prefix_insertFrom_iff uploadsTail r uploadsTail_path (hc ▸ by decide) inside cs

/-- The inserted text brings no reference of its own. -/
def CleanInsertion (ins : List Char) : Prop :=
  Quiet isReference none (ins ++ '/' :: (uploadsTail ++ ['x']))

theorem any_lastOr {before : Option Char} (h : before.any isPathChar = false) (a : List Char) :
    (lastOr before a).any isPathChar = (lastOr none a).any isPathChar := by
  cases a with
  | nil => exact h
  | cons c a => rw [lastOr_cons, lastOr_cons]

/-- In a text before a reference a reference can be seen without what the other one names. -/
theorem uploads_prefix_iff (e : Char) (w more : List Char) (r : Char) :
    uploads ++ [r] <+: (e :: w) ++ (uploads ++ more) ↔ uploads ++ [r] <+: (e :: w) ++ uploads := by
  constructor
  · intro h
    refine List.prefix_of_prefix_length_le h ⟨more, List.append_assoc _ _ _⟩ ?_
    simp only [List.length_append, List.length_cons, List.length_nil]
    omega
  · intro h
    exact h.trans ⟨more, List.append_assoc _ _ _⟩

theorem isReference_insertion {before : Option Char} (hb : before.any isPathChar = false)
    {r : Char} (hr : endsReference r = false) (more : List Char) (a w : List Char) :
    isReference (lastOr before a) (w ++ (uploads ++ r :: more)) =
      isReference (lastOr none a) (w ++ (uploads ++ ['x'])) := by
  rw [Bool.eq_iff_iff, isReference_iff_prefix, isReference_iff_prefix, any_lastOr hb]
  refine and_congr_right fun _ => ?_
  cases w with
  | nil =>
      refine iff_of_true ⟨r, hr, more, ?_⟩ ⟨'x', by decide, List.prefix_rfl⟩
      rw [List.append_assoc]
      rfl
  | cons e w =>
      refine exists_congr fun q => and_congr_right fun _ => ?_
      rw [uploads_prefix_iff, uploads_prefix_iff]

theorem quiet_insertion_iff {before : Option Char} {c : Char} {cs : List Char}
    (h : isReference before (c :: cs) = true) :
    Quiet isReference before
        (ins ++ c :: insertFrom isReference endsReference ins (some c) true cs) ↔
      CleanInsertion ins ∧
        Quiet isReference (some c) (insertFrom isReference endsReference ins (some c) true cs) := by
  have hlook : isReference before
      (c :: insertFrom isReference endsReference ins (some c) true cs) = true :=
    (isReference_look before c cs true).trans h
  rw [isReference_iff] at hlook
  obtain ⟨hb, r, more, heq, hr⟩ := hlook
  have htail : Quiet isReference (some '/') (uploadsTail ++ ['x']) :=
    ⟨rfl, rfl, rfl, rfl, rfl, rfl, rfl, rfl, rfl, rfl⟩
  rw [quiet_append_cons_iff, CleanInsertion, quiet_append_cons_iff, and_iff_left htail, heq]
  refine and_congr_left fun _ => forall_congr' fun a => forall_congr' fun w =>
    imp_congr_right fun _ => ?_
  rw [isReference_insertion hb hr more a w]
  exact Iff.rfl

end Replace

section Rewrite

variable (markdown : String) (binding : AttachmentBinding)

theorem projectUrl_ne_nil : projectUrl binding ≠ [] := by
  simp [projectUrl]

theorem rewriteAttachmentUrls_eq :
    (rewriteAttachmentUrls markdown .gfmToHuly binding).toList =
      insertFrom isReference endsReference (projectUrl binding) none false markdown.toList := by
  rw [← replaceFrom_eq, rewriteAttachmentUrls, String.toList_ofList]
  simp only [projectUrl, List.append_assoc]

/-- No two references begin in one run, and the inserted text, if there is a
reference to insert it for, brings none. -/
def Settles : Prop :=
  Single isReference endsReference none markdown.toList ∧
    (¬ Quiet isReference none markdown.toList → CleanInsertion (projectUrl binding))

/-- No relative reference begins inside of an absolute URL. -/
def UrlsApart : Prop :=
  ∀ pre url post, markdown.toList = pre ++ url ++ post → IsAbsoluteUrl url →
    ∀ a b, url = a ++ b → b ≠ [] → isReference (lastOr none (pre ++ a)) (b ++ post) = false

theorem rewrite_twice_iff :
    rewriteAttachmentUrls (rewriteAttachmentUrls markdown .gfmToHuly binding) .gfmToHuly binding =
        rewriteAttachmentUrls markdown .gfmToHuly binding ↔
      Settles markdown binding := by
  have hfixed : ∀ s, insertFrom isReference endsReference (projectUrl binding) none false s = s ↔
      Quiet isReference none s := fun s =>
    insertFrom_eq_self_iff isReference_nil (fun _ _ _ => ends_of_isReference)
      (projectUrl_ne_nil binding)
  rw [← String.toList_inj, rewriteAttachmentUrls_eq, hfixed, rewriteAttachmentUrls_eq,
    quiet_insertFrom_iff isReference_nil (fun _ _ _ => ends_of_isReference) isReference_look
      (fun _ _ _ => quiet_insertion_iff)]
  simp [Settles]

theorem lastOr_append (before : Option Char) (a b : List Char) :
    lastOr before (a ++ b) = lastOr (lastOr before a) b := by
  induction a generalizing before with
  | nil => rfl
  | cons c a ih => rw [List.cons_append, lastOr_cons, lastOr_cons, ih]

/-- In a text whose runs have one reference at most, the URLs are kept when they have none. -/
theorem keepsUrls_iff (h : Single isReference endsReference none markdown.toList) :
    KeepsUrls binding markdown ↔ UrlsApart markdown := by
  have hall : characterOutputs binding markdown =
      outputsAll isReference (projectUrl binding) none markdown.toList :=
    outputs_eq_all (fun _ _ _ => ends_of_isReference) h (by simp)
  unfold KeepsUrls UrlsApart
  refine forall_congr' fun pre => forall_congr' fun url => forall_congr' fun post =>
    imp_congr_right fun heq => imp_congr_right fun _ => ?_
  rw [hall, heq, List.append_assoc, outputsAll_drop, outputsAll_take (projectUrl_ne_nil binding)]
  simp only [lastOr_append]

/-- Only relative references change: the result is made of one text for each
character, the character itself or, where a reference begins, the URL of the
project in front of it. -/
theorem characterOutputs_spec :
    (rewriteAttachmentUrls markdown .gfmToHuly binding).toList =
        (characterOutputs binding markdown).flatten ∧
      ∀ pre c post, markdown.toList = pre ++ c :: post →
        (characterOutputs binding markdown)[pre.length]? = some [c] ∨
          isReference (lastOr none pre) (c :: post) = true ∧
            (characterOutputs binding markdown)[pre.length]? =
              some (projectUrl binding ++ [c]) := by
  refine ⟨rewriteAttachmentUrls_eq markdown binding, fun pre c post heq => ?_⟩
  unfold characterOutputs
  rw [heq]
  exact outputs_cases none false pre c post

end Rewrite

/-- What the rewriting promises: only relative references change, the absolute
URLs stay, and a second rewriting changes nothing. -/
structure Absolutizes (binding : AttachmentBinding) (markdown : String) : Prop where
  result : (rewriteAttachmentUrls markdown .gfmToHuly binding).toList =
    (characterOutputs binding markdown).flatten
  onlyReferences : ∀ pre c post, markdown.toList = pre ++ c :: post →
    (characterOutputs binding markdown)[pre.length]? = some [c] ∨
      isReference (lastOr none pre) (c :: post) = true ∧
        (characterOutputs binding markdown)[pre.length]? = some (projectUrl binding ++ [c])
  urls : KeepsUrls binding markdown
  twice : rewriteAttachmentUrls (rewriteAttachmentUrls markdown .gfmToHuly binding) .gfmToHuly
    binding = rewriteAttachmentUrls markdown .gfmToHuly binding

theorem absolutizes_iff (markdown : String) (binding : AttachmentBinding) :
    Absolutizes binding markdown ↔ Settles markdown binding ∧ UrlsApart markdown := by
  obtain ⟨hresult, honly⟩ := characterOutputs_spec markdown binding
  constructor
  · rintro ⟨-, -, hurls, htwice⟩
    have hsettles := (rewrite_twice_iff markdown binding).mp htwice
    exact ⟨hsettles, (keepsUrls_iff markdown binding hsettles.1).mp hurls⟩
  · rintro ⟨hsettles, hurls⟩
    exact ⟨hresult, honly, (keepsUrls_iff markdown binding hsettles.1).mpr hurls,
      (rewrite_twice_iff markdown binding).mpr hsettles⟩

/-- An upload of a file whose path has a dash before it. -/
theorem not_absolutizes_dash :
    ¬ ∀ markdown binding, Absolutizes binding markdown := by
  intro h
  have hrun : ("https://h/g/-/uploads/x".toList.any endsReference) = false := by decide +kernel
  have hurls := (h "https://h/g/-/uploads/x" ⟨"https://h", "g"⟩).urls []
    "https://h/g/-/uploads/x".toList [] rfl ⟨.inr (by decide +kernel), by simpa using hrun⟩
  exact absurd hurls (by decide +kernel)

end HulyGitlab.AttachmentUrls
