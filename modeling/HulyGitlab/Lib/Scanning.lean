import Mathlib.Data.List.Basic

/-!
# Scanning a text for matches

A pattern is given by the match it finds at the head of a text, and the text
of a match. Scanning goes from left to right and after a match goes on behind
it. A text falls into gaps without a match and the matches between them;
replacing each match by another one keeps the gaps when no gap sees the
difference.
-/

namespace HulyGitlab.Scanning

variable {A M : Type*} (find : List A → Option M) (text : M → List A)

/-- The matches of a text; `skip` counts what is left of the last one. -/
def findAll (skip : Nat) : List A → List M
  | [] => []
  | c :: cs =>
      match skip with
      | skip + 1 => findAll skip cs
      | 0 =>
          match find (c :: cs) with
          | none => findAll 0 cs
          | some m => m :: findAll ((text m).length - 1) cs

/-- The text with something put in the place of each match. -/
def replaceAll (put : M → List A) (skip : Nat) : List A → List A
  | [] => []
  | c :: cs =>
      match skip with
      | skip + 1 => replaceAll put skip cs
      | 0 =>
          match find (c :: cs) with
          | none => c :: replaceAll put 0 cs
          | some m => put m ++ replaceAll put ((text m).length - 1) cs

/-- A match begins with the text it has, which is not empty. -/
structure Lawful : Prop where
  found : ∀ s m, find s = some m → ∃ rest, s = text m ++ rest
  nonempty : ∀ s m, find s = some m → text m ≠ []

/-- No match begins in `gap` when `rest` follows it. -/
def Gap (gap rest : List A) : Prop :=
  ∀ a b, gap = a ++ b → b ≠ [] → find (b ++ rest) = none

/-- A text made of gaps and matches. -/
def weave : List (List A × M) → List A → List A
  | [], last => last
  | part :: parts, last => part.1 ++ (text part.2 ++ weave parts last)

/-- The gaps are free of matches, and the matches are found. -/
inductive Scanned : List (List A × M) → List A → Prop
  | done {last : List A} (h : Gap find last []) : Scanned [] last
  | link {gap last : List A} {m : M} {parts : List (List A × M)}
      (hgap : Gap find gap (text m ++ weave text parts last))
      (hfind : find (text m ++ weave text parts last) = some m)
      (h : Scanned parts last) : Scanned ((gap, m) :: parts) last

variable {find text} {put : M → List A} {gap rest last : List A} {m : M}
  {parts : List (List A × M)}

theorem Gap.tail {c : A} (h : Gap find (c :: gap) rest) : Gap find gap rest :=
  fun a b hab hb => h (c :: a) b (hab ▸ rfl) hb

theorem Gap.head {c : A} (h : Gap find (c :: gap) rest) : find (c :: (gap ++ rest)) = none :=
  h [] (c :: gap) rfl (List.cons_ne_nil c gap)

theorem findAll_gap (h : Gap find gap rest) :
    findAll find text 0 (gap ++ rest) = findAll find text 0 rest := by
  induction gap with
  | nil => rfl
  | cons c gap ih =>
      rw [List.cons_append, findAll]
      simp only [h.head]
      exact ih h.tail

theorem replaceAll_gap (h : Gap find gap rest) :
    replaceAll find text put 0 (gap ++ rest) = gap ++ replaceAll find text put 0 rest := by
  induction gap with
  | nil => rfl
  | cons c gap ih =>
      rw [List.cons_append, replaceAll]
      simp only [h.head]
      rw [ih h.tail, List.cons_append]

theorem findAll_skip (w s : List A) :
    findAll find text w.length (w ++ s) = findAll find text 0 s := by
  induction w with
  | nil => rfl
  | cons c w ih => exact ih

theorem replaceAll_skip (w s : List A) :
    replaceAll find text put w.length (w ++ s) = replaceAll find text put 0 s := by
  induction w with
  | nil => rfl
  | cons c w ih => exact ih

theorem findAll_match (hne : text m ≠ []) (h : find (text m ++ rest) = some m) :
    findAll find text 0 (text m ++ rest) = m :: findAll find text 0 rest := by
  obtain ⟨c, w, heq⟩ := List.exists_cons_of_ne_nil hne
  rw [heq, List.cons_append] at h ⊢
  rw [findAll]
  simp only [h, heq]
  exact congrArg (m :: ·) (findAll_skip w rest)

theorem replaceAll_match (hne : text m ≠ []) (h : find (text m ++ rest) = some m) :
    replaceAll find text put 0 (text m ++ rest) = put m ++ replaceAll find text put 0 rest := by
  obtain ⟨c, w, heq⟩ := List.exists_cons_of_ne_nil hne
  rw [heq, List.cons_append] at h ⊢
  rw [replaceAll]
  simp only [h, heq]
  exact congrArg (put m ++ ·) (replaceAll_skip w rest)

section Lawful

variable (hlaw : Lawful find text)

include hlaw

theorem Scanned.findAll_eq (h : Scanned find text parts last) :
    findAll find text 0 (weave text parts last) = parts.map Prod.snd := by
  induction h with
  | done h =>
      have hnil : findAll find text 0 (_ ++ []) = findAll find text 0 [] := findAll_gap h
      rw [List.append_nil] at hnil
      exact hnil
  | link hgap hfind h ih =>
      rw [weave, findAll_gap hgap, findAll_match (hlaw.nonempty _ _ hfind) hfind, ih]
      rfl

/-- Replacing the matches by those of `f` weaves these with the gaps. -/
theorem Scanned.replaceAll_eq (f : M → M) (hput : ∀ m, put m = text (f m))
    (h : Scanned find text parts last) :
    replaceAll find text put 0 (weave text parts last) =
      weave text (parts.map fun part => (part.1, f part.2)) last := by
  induction h with
  | done h =>
      have hnil : replaceAll find text put 0 (_ ++ []) = _ ++ replaceAll find text put 0 [] :=
        replaceAll_gap h
      rw [List.append_nil] at hnil
      exact hnil.trans (List.append_nil _)
  | link hgap hfind h ih =>
      rw [weave, replaceAll_gap hgap, replaceAll_match (hlaw.nonempty _ _ hfind) hfind, ih, hput]
      rfl

/-- Every text falls into gaps and matches. -/
theorem exists_scanned (s : List A) :
    ∃ parts last, s = weave text parts last ∧ Scanned find text parts last := by
  induction hn : s.length using Nat.strongRecOn generalizing s with
  | _ n ih =>
    cases s with
    | nil =>
        refine ⟨[], [], rfl, .done fun a b hab hb => ?_⟩
        exact absurd (List.append_eq_nil_iff.mp hab.symm).2 hb
    | cons c cs =>
        cases hfind : find (c :: cs) with
        | some m =>
            obtain ⟨rest, hrest⟩ := hlaw.found _ _ hfind
            have hne := hlaw.nonempty _ _ hfind
            have hlt : rest.length < n := by
              have hpos := List.length_pos_of_ne_nil hne
              rw [← hn, hrest, List.length_append]
              omega
            obtain ⟨parts, last, rfl, hscan⟩ := ih rest.length hlt rest rfl
            rw [hrest] at hfind ⊢
            refine ⟨([], m) :: parts, last, rfl, .link (fun a b hab hb => ?_) hfind hscan⟩
            exact absurd (List.append_eq_nil_iff.mp hab.symm).2 hb
        | none =>
            obtain ⟨parts, last, rfl, hscan⟩ := ih cs.length (by rw [← hn]; simp) cs rfl
            -- the character joins the first gap
            have hcons : ∀ {gap rest}, Gap find gap rest → find (c :: (gap ++ rest)) = none →
                Gap find (c :: gap) rest := by
              intro gap rest hgap hhead a b hab hb
              cases a with
              | nil =>
                  obtain rfl : b = c :: gap := hab.symm
                  exact hhead
              | cons d a =>
                  obtain ⟨-, rfl⟩ := List.cons_eq_cons.mp hab
                  exact hgap a b rfl hb
            cases hscan with
            | done h =>
                refine ⟨[], c :: last, rfl, .done (hcons h ?_)⟩
                rw [List.append_nil]
                exact hfind
            | @link gap _ m parts hgap hmatch h =>
                exact ⟨(c :: gap, m) :: parts, last, rfl, .link (hcons hgap hfind) hmatch h⟩

end Lawful

/-- Other matches in the places of the old ones leave the gaps as they are. -/
theorem Scanned.map (f : M → M)
    (hfind : ∀ m rest rest', find (text m ++ rest) = some m →
      find (text (f m) ++ rest') = some (f m))
    (hgap : ∀ m gap rest rest', find (text m ++ rest) = some m → Gap find gap (text m ++ rest) →
      Gap find gap (text (f m) ++ rest'))
    (h : Scanned find text parts last) :
    Scanned find text (parts.map fun part => (part.1, f part.2)) last := by
  induction h with
  | done h => exact .done h
  | link hg hm h ih => exact .link (hgap _ _ _ _ hm hg) (hfind _ _ _ hm) ih

end HulyGitlab.Scanning
