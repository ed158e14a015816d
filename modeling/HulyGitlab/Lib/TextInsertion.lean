import Mathlib.Data.List.Basic

/-!
# Inserting before marked places of a text

A place of a text is a character before it, if there is one, and what follows.
The places that `mark` marks get a text in front of them, but only the first
of each run; a run ends at a character that `ends` names.
-/

namespace HulyGitlab.TextInsertion

variable {A : Type*}

/-- The predicate holds at every place of the text. -/
def Everywhere (P : Option A → List A → Prop) (before : Option A) : List A → Prop
  | [] => P before []
  | c :: cs => P before (c :: cs) ∧ Everywhere P (some c) cs

/-- The predicate holds at every place up to the end of the run. -/
def InRun (ends : A → Bool) (P : Option A → List A → Prop) (before : Option A) : List A → Prop
  | [] => P before []
  | c :: cs => P before (c :: cs) ∧ (ends c = false → InRun ends P (some c) cs)

/-- The character before what follows `pre`. -/
def lastOr (before : Option A) (pre : List A) : Option A := pre.getLast?.or before

@[simp] theorem lastOr_nil (before : Option A) : lastOr before [] = before := rfl

@[simp] theorem lastOr_cons (before : Option A) (c : A) (pre : List A) :
    lastOr before (c :: pre) = lastOr (some c) pre := by
  cases pre with
  | nil => rfl
  | cons d pre => simp [lastOr, List.getLast?_cons]

theorem everywhere_iff {P : Option A → List A → Prop} {before : Option A} {s : List A} :
    Everywhere P before s ↔ ∀ pre post, s = pre ++ post → P (lastOr before pre) post := by
  induction s generalizing before with
  | nil => simp [Everywhere]
  | cons c cs ih =>
      rw [Everywhere, ih]
      constructor
      · rintro ⟨hhead, htail⟩ pre post heq
        cases pre with
        | nil =>
            obtain rfl : post = c :: cs := heq.symm
            exact hhead
        | cons d pre =>
            obtain ⟨rfl, rfl⟩ := List.cons_eq_cons.mp heq
            rw [lastOr_cons]
            exact htail pre post rfl
      · intro h
        refine ⟨h [] (c :: cs) rfl, fun pre post heq => ?_⟩
        rw [← lastOr_cons before]
        exact h (c :: pre) post (heq ▸ rfl)

theorem Everywhere.mono {P Q : Option A → List A → Prop} (hPQ : ∀ b t, P b t → Q b t)
    {before : Option A} {s : List A} (h : Everywhere P before s) : Everywhere Q before s :=
  everywhere_iff.mpr fun pre post heq => hPQ _ _ (everywhere_iff.mp h pre post heq)

section Insertion

variable (mark : Option A → List A → Bool) (ends : A → Bool) (ins : List A)

/-- What each character of the text becomes; `inside` tells that the run has
had its insertion. -/
def outputs (before : Option A) (inside : Bool) : List A → List (List A)
  | [] => []
  | c :: cs =>
      if ends c then [c] :: outputs (some c) false cs
      else if inside = false ∧ mark before (c :: cs) = true then
        (ins ++ [c]) :: outputs (some c) true cs
      else [c] :: outputs (some c) inside cs

def insertFrom (before : Option A) (inside : Bool) (s : List A) : List A :=
  (outputs mark ends ins before inside s).flatten

/-- No place is marked. -/
def Quiet (before : Option A) (s : List A) : Prop :=
  Everywhere (fun b t => mark b t = false) before s

/-- No place up to the end of the run is marked. -/
def QuietRun (before : Option A) (s : List A) : Prop :=
  InRun ends (fun b t => mark b t = false) before s

/-- No run has two marked places. -/
def Single (before : Option A) (s : List A) : Prop :=
  Everywhere (fun b t => mark b t = true → QuietRun mark ends (t.head?.or b) t.tail) before s

/-- What each character becomes when every marked place gets the text. -/
def outputsAll (before : Option A) : List A → List (List A)
  | [] => []
  | c :: cs =>
      (if mark before (c :: cs) = true then ins ++ [c] else [c]) :: outputsAll (some c) cs

variable {mark ends ins} {before : Option A} {inside : Bool} {c : A} {cs s : List A}

theorem insertFrom_ends (h : ends c = true) :
    insertFrom mark ends ins before inside (c :: cs) =
      c :: insertFrom mark ends ins (some c) false cs := by
  simp [insertFrom, outputs, h]

theorem insertFrom_marked (h : ends c = false) (hm : mark before (c :: cs) = true) :
    insertFrom mark ends ins before false (c :: cs) =
      ins ++ c :: insertFrom mark ends ins (some c) true cs := by
  simp [insertFrom, outputs, h, hm]

theorem insertFrom_copied (h : ends c = false)
    (hm : ¬ (inside = false ∧ mark before (c :: cs) = true)) :
    insertFrom mark ends ins before inside (c :: cs) =
      c :: insertFrom mark ends ins (some c) inside cs := by
  simp only [insertFrom, outputs, h, if_neg hm]
  simp

/-- Inside of a run everything is copied. -/
theorem insertFrom_inside (run rest : List A) (h : ∀ c ∈ run, ends c = false)
    (before : Option A) :
    insertFrom mark ends ins before true (run ++ rest) =
      run ++ insertFrom mark ends ins (lastOr before run) true rest := by
  induction run generalizing before with
  | nil => rfl
  | cons c run ih =>
      obtain ⟨hc, hrun⟩ := List.forall_mem_cons.mp h
      rw [List.cons_append, insertFrom_copied hc (by simp), ih hrun, lastOr_cons, List.cons_append]

/-- Where a run ends it does not matter any more that it had its insertion. -/
theorem insertFrom_boundary (h : ∀ c ∈ s.head?, ends c = true) :
    insertFrom mark ends ins before true s = insertFrom mark ends ins before false s := by
  cases s with
  | nil => rfl
  | cons c cs =>
      have hc : ends c = true := h c rfl
      rw [insertFrom_ends hc, insertFrom_ends hc]

theorem length_le_insertFrom (before : Option A) (inside : Bool) (s : List A) :
    s.length ≤ (insertFrom mark ends ins before inside s).length := by
  induction s generalizing before inside with
  | nil => exact Nat.zero_le _
  | cons c cs ih =>
      cases hc : ends c with
      | true =>
          rw [insertFrom_ends hc, List.length_cons, List.length_cons]
          exact Nat.succ_le_succ (ih (some c) false)
      | false =>
          by_cases hm : inside = false ∧ mark before (c :: cs) = true
          · obtain ⟨rfl, hm⟩ := hm
            have hrest := ih (some c) true
            rw [insertFrom_marked hc hm, List.length_append, List.length_cons, List.length_cons]
            omega
          · rw [insertFrom_copied hc hm, List.length_cons, List.length_cons]
            exact Nat.succ_le_succ (ih (some c) inside)

/-- A character becomes itself, after the insertion where a place is marked. -/
theorem outputs_cases (before : Option A) (inside : Bool) (pre : List A) (c : A) (post : List A) :
    (outputs mark ends ins before inside (pre ++ c :: post))[pre.length]? = some [c] ∨
      mark (lastOr before pre) (c :: post) = true ∧
        (outputs mark ends ins before inside (pre ++ c :: post))[pre.length]? =
          some (ins ++ [c]) := by
  induction pre generalizing before inside with
  | nil =>
      simp only [List.nil_append, List.length_nil, outputs, lastOr_nil]
      split
      · exact .inl rfl
      · split
        · rename_i hm
          exact .inr ⟨hm.2, rfl⟩
        · exact .inl rfl
  | cons d pre ih =>
      simp only [List.cons_append, List.length_cons, outputs, lastOr_cons]
      split
      · exact ih (some d) false
      · split
        · exact ih (some d) true
        · exact ih (some d) inside

theorem outputsAll_drop (before : Option A) (pre s : List A) :
    (outputsAll mark ins before (pre ++ s)).drop pre.length =
      outputsAll mark ins (lastOr before pre) s := by
  induction pre generalizing before with
  | nil => rfl
  | cons c pre ih =>
      rw [List.cons_append, outputsAll, List.length_cons, List.drop_succ_cons, ih, lastOr_cons]

/-- A part of the text stays the same when no place in it is marked. -/
theorem outputsAll_take (hins : ins ≠ []) (before : Option A) (t rest : List A) :
    ((outputsAll mark ins before (t ++ rest)).take t.length).flatten = t ↔
      ∀ a b, t = a ++ b → b ≠ [] → mark (lastOr before a) (b ++ rest) = false := by
  induction t generalizing before with
  | nil =>
      simp only [List.length_nil, List.take_zero, List.flatten_nil, true_iff]
      intro a b hab hb
      exact absurd (List.append_eq_nil_iff.mp hab.symm).2 hb
  | cons c t ih =>
      have hlength : ∀ b, t.length ≤
          ((outputsAll mark ins b (t ++ rest)).take t.length).flatten.length := by
        clear ih
        induction t with
        | nil => exact fun _ => Nat.zero_le _
        | cons d t ih =>
            intro b
            have hrest := ih (some d)
            simp only [List.cons_append, outputsAll, List.length_cons, List.take_succ_cons,
              List.flatten_cons, List.length_append]
            split
            · simp only [List.length_append, List.length_singleton]
              omega
            · simp only [List.length_singleton]
              omega
      have htail : (∀ a b, c :: t = a ++ b → b ≠ [] →
            mark (lastOr before a) (b ++ rest) = false) ↔
          mark before (c :: t ++ rest) = false ∧
            ∀ a b, t = a ++ b → b ≠ [] → mark (lastOr (some c) a) (b ++ rest) = false := by
        constructor
        · intro h
          refine ⟨h [] (c :: t) rfl (List.cons_ne_nil c t), fun a b hab hb => ?_⟩
          rw [← lastOr_cons before]
          exact h (c :: a) b (hab ▸ rfl) hb
        · rintro ⟨hhead, htail⟩ a b hab hb
          cases a with
          | nil =>
              obtain rfl : b = c :: t := hab.symm
              exact hhead
          | cons d a =>
              obtain ⟨rfl, rfl⟩ := List.cons_eq_cons.mp hab
              rw [lastOr_cons]
              exact htail a b rfl hb
      rw [htail, ← ih]
      simp only [List.cons_append, outputsAll, List.length_cons, List.take_succ_cons,
        List.flatten_cons]
      cases hm : mark before (c :: (t ++ rest)) with
      | true =>
          simp only [if_true, Bool.true_eq_false, false_and, iff_false]
          intro heq
          have hlen := congrArg List.length heq
          have hpos := List.length_pos_of_ne_nil hins
          have hrest := hlength (some c)
          simp only [List.length_append, List.length_cons] at hlen
          omega
      | false => simp

/-- Without two marked places in a run, each marked place gets the text. -/
theorem outputs_eq_all (hmark : ∀ b c cs, mark b (c :: cs) = true → ends c = false)
    (hs : Single mark ends before s) (hin : inside = true → QuietRun mark ends before s) :
    outputs mark ends ins before inside s = outputsAll mark ins before s := by
  induction s generalizing before inside with
  | nil => rfl
  | cons c cs ih =>
      obtain ⟨hhead, htail⟩ := hs
      unfold outputs outputsAll
      cases hc : ends c with
      | true =>
          have hm : mark before (c :: cs) = false := by
            by_contra h
            rw [hmark before c cs (by simpa using h)] at hc
            cases hc
          rw [if_pos rfl, hm, if_neg (by simp), ih htail (by simp)]
      | false =>
          cases hm : mark before (c :: cs) with
          | true =>
              cases inside with
              | true =>
                  rw [(hin rfl).1] at hm
                  cases hm
              | false =>
                  rw [if_neg (by simp), if_pos ⟨rfl, rfl⟩, if_pos rfl,
                    ih htail (fun _ => hhead hm)]
          | false =>
              rw [if_neg (by simp), if_neg (by simp), if_neg (by simp),
                ih htail (fun h => (hin h).2 hc)]

theorem quiet_append_cons_iff (before : Option A) (v : List A) (d : A) (t : List A) :
    Quiet mark before (v ++ d :: t) ↔
      (∀ a w, v = a ++ w → mark (lastOr before a) (w ++ d :: t) = false) ∧
        Quiet mark (some d) t := by
  induction v generalizing before with
  | nil =>
      refine and_congr_left fun _ => ⟨fun h a w haw => ?_, fun h => h [] [] rfl⟩
      obtain ⟨rfl, rfl⟩ := List.append_eq_nil_iff.mp haw.symm
      exact h
  | cons e v ih =>
      rw [List.cons_append, Quiet, Everywhere]
      rw [show Everywhere (fun b t => mark b t = false) (some e) (v ++ d :: t) ↔ _ from ih (some e),
        ← and_assoc]
      refine and_congr_left fun _ => ⟨?_, fun h => ⟨h [] (e :: v) rfl, fun a w haw => ?_⟩⟩
      · rintro ⟨hhead, htail⟩ a w haw
        cases a with
        | nil =>
            obtain rfl : w = e :: v := haw.symm
            exact hhead
        | cons x a =>
            obtain ⟨rfl, rfl⟩ := List.cons_eq_cons.mp haw
            rw [lastOr_cons]
            exact htail a w rfl
      · rw [← lastOr_cons before]
        exact h (e :: a) w (haw ▸ rfl)

section Fixed

variable (hnil : ∀ b, mark b [] = false)
  (hmark : ∀ b c cs, mark b (c :: cs) = true → ends c = false)

include hnil hmark

/-- A text stays the same when no place is marked. -/
theorem insertFrom_eq_self_iff (hins : ins ≠ []) :
    insertFrom mark ends ins before false s = s ↔ Quiet mark before s := by
  induction s generalizing before with
  | nil => exact iff_of_true rfl (hnil before)
  | cons c cs ih =>
      cases hc : ends c with
      | true =>
          have hm : mark before (c :: cs) = false := by
            by_contra h
            rw [hmark before c cs (by simpa using h)] at hc
            cases hc
          rw [insertFrom_ends hc, List.cons_inj_right, ih]
          exact (and_iff_right hm).symm
      | false =>
          cases hm : mark before (c :: cs) with
          | true =>
              rw [insertFrom_marked hc hm]
              refine iff_of_false (fun heq => ?_) (fun h => absurd hm (by simp [h.1]))
              have hlen := congrArg List.length heq
              have hpos := List.length_pos_of_ne_nil hins
              have hrest : cs.length ≤ (insertFrom mark ends ins (some c) true cs).length :=
                length_le_insertFrom (some c) true cs
              simp only [List.length_append, List.length_cons] at hlen
              omega
          | false =>
              rw [insertFrom_copied hc (by simp [hm]), List.cons_inj_right, ih]
              exact (and_iff_right hm).symm

/-- When no place of the result is marked: `hlook` says that a mark does not
see the insertions after it, and `hclean` what an insertion adds. -/
theorem quiet_insertFrom_iff {Clean : Prop}
    (hlook : ∀ b c cs inside,
      mark b (c :: insertFrom mark ends ins (some c) inside cs) = mark b (c :: cs))
    (hclean : ∀ b c cs, mark b (c :: cs) = true →
      (Quiet mark b (ins ++ c :: insertFrom mark ends ins (some c) true cs) ↔
        Clean ∧ Quiet mark (some c) (insertFrom mark ends ins (some c) true cs))) :
    Quiet mark before (insertFrom mark ends ins before inside s) ↔
      Single mark ends before s ∧ (inside = true → QuietRun mark ends before s) ∧
        (¬ Quiet mark before s → Clean) := by
  induction s generalizing before inside with
  | nil =>
      have hquiet : Quiet mark before [] := hnil before
      have hsingle : Single mark ends before [] := fun h => absurd h (by simp [hnil before])
      exact iff_of_true hquiet ⟨hsingle, fun _ => hquiet, fun h => absurd hquiet h⟩
  | cons c cs ih =>
      have hcons : ∀ {t : List A}, Quiet mark before (c :: t) ↔
          mark before (c :: t) = false ∧ Quiet mark (some c) t := Iff.rfl
      have hsingle : Single mark ends before (c :: cs) ↔
          (mark before (c :: cs) = true → QuietRun mark ends (some c) cs) ∧
            Single mark ends (some c) cs := Iff.rfl
      have hrun : QuietRun mark ends before (c :: cs) ↔
          mark before (c :: cs) = false ∧ (ends c = false → QuietRun mark ends (some c) cs) :=
        Iff.rfl
      rw [hsingle, hrun, hcons]
      cases hc : ends c with
      | true =>
          have hm : ∀ t, mark before (c :: t) = false := by
            intro t
            by_contra h
            rw [hmark before c t (by simpa using h)] at hc
            cases hc
          rw [insertFrom_ends hc, hcons, hm, hm, ih]
          simp
      | false =>
          cases hm : mark before (c :: cs) with
          | true =>
              cases inside with
              | true =>
                  rw [insertFrom_copied hc (by simp), hcons, hlook, hm]
                  simp
              | false =>
                  rw [insertFrom_marked hc hm, hclean before c cs hm, ih]
                  simp only [true_imp_iff, Bool.true_eq_false, false_and, not_false_eq_true,
                    false_imp_iff, Bool.false_eq_true, true_and]
                  constructor
                  · rintro ⟨hclean, hs, hq, -⟩
                    exact ⟨⟨hq, hs⟩, hclean⟩
                  · rintro ⟨⟨hq, hs⟩, hclean⟩
                    exact ⟨hclean, hs, hq, fun _ => hclean⟩
          | false =>
              rw [insertFrom_copied hc (by simp [hm]), hcons, hlook, hm, ih]
              simp

end Fixed

end Insertion

end HulyGitlab.TextInsertion
