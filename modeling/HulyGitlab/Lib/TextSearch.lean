import Mathlib.Data.List.Infix

/-!
# Searching a text for a pattern

`indexOf` finds the first place at or after a position. What stands before that
place is skipped piece by piece: a piece is skipped when the pattern does not
begin in it, not even to end in what follows.
-/

namespace HulyGitlab.TextSearch

section Skips

variable {A : Type}

/-- The pattern does not begin in the first text when the second follows. -/
def Skips (pattern : List A) : List A → List A → Prop
  | [], _ => True
  | a :: text, after => ¬ pattern <+: a :: (text ++ after) ∧ Skips pattern text after

/-- No end of the pattern is also its beginning. -/
def Unbordered (pattern : List A) : Prop :=
  ∀ k < pattern.length, 0 < k → ¬ pattern.drop k <+: pattern

/-- A pattern at the beginning of two texts ends in the first or goes on in the second. -/
theorem prefix_append_cases {pattern s t : List A} (h : pattern <+: s ++ t) :
    pattern <+: s ∨ ∃ r, r ≠ [] ∧ pattern = s ++ r ∧ r <+: t := by
  obtain ⟨u, hu⟩ := h
  obtain ⟨rest, hs, -⟩ | ⟨r, hpattern, ht⟩ := List.append_eq_append_iff.mp hu
  · exact .inl ⟨rest, hs.symm⟩
  · cases r with
    | nil => exact .inl ⟨[], by rw [hpattern, List.append_nil, List.append_nil]⟩
    | cons b r => exact .inr ⟨b :: r, List.cons_ne_nil b r, hpattern, u, ht.symm⟩

namespace Skips

variable {pattern s t after : List A}

theorem append (hs : Skips pattern s (t ++ after)) (ht : Skips pattern t after) :
    Skips pattern (s ++ t) after := by
  induction s with
  | nil => exact ht
  | cons a s ih =>
    have hfirst : ¬ pattern <+: a :: ((s ++ t) ++ after) := by
      rw [List.append_assoc]
      exact hs.1
    exact ⟨hfirst, ih hs.2⟩

/-- Nothing of the text is the first element of the pattern. -/
theorem of_not_mem {a : A} {p : List A} (h : a ∉ s) (after : List A) :
    Skips (a :: p) s after := by
  induction s with
  | nil => trivial
  | cons b s ih =>
    refine ⟨fun hprefix => h ?_, ih fun hmem => h (List.mem_cons_of_mem b hmem)⟩
    rw [(List.cons_prefix_cons.mp hprefix).1]
    exact List.mem_cons_self

/-- The text is free of the pattern, and the pattern cannot go on in what follows. -/
theorem of_free (hs : ¬ pattern <:+: s)
    (h : ∀ front r, front ≠ [] → r ≠ [] → pattern = front ++ r → ¬ r <+: after) :
    Skips pattern s after := by
  induction s with
  | nil => trivial
  | cons a s ih =>
    refine ⟨fun hprefix => ?_, ih fun hin => hs (hin.trans (List.suffix_cons a s).isInfix)⟩
    have hprefix' : pattern <+: (a :: s) ++ after := hprefix
    obtain hin | ⟨r, hne, hpattern, hr⟩ := prefix_append_cases hprefix'
    · exact hs hin.isInfix
    · exact h (a :: s) r (List.cons_ne_nil a s) hne hpattern hr

/-- The element after the text does not occur in the pattern. -/
theorem of_stop {b : A} (hs : ¬ pattern <:+: s) (hb : b ∉ pattern) (after : List A) :
    Skips pattern s (b :: after) := by
  refine of_free hs fun front r _ hne hpattern hr => ?_
  obtain ⟨c, r, rfl⟩ := List.exists_cons_of_ne_nil hne
  obtain rfl := (List.cons_prefix_cons.mp hr).1
  exact hb (hpattern ▸ List.mem_append_right front List.mem_cons_self)

/-- Nothing follows. -/
theorem of_end (hs : ¬ pattern <:+: s) : Skips pattern s [] :=
  of_free hs fun _ _ _ hne _ hr => hne (List.prefix_nil.mp hr)

/-- The pattern follows. -/
theorem of_pattern (hpattern : Unbordered pattern) (hs : ¬ pattern <:+: s) (after : List A) :
    Skips pattern s (pattern ++ after) := by
  refine of_free hs fun front r hfront hne heq hr => ?_
  have hfrontLen := List.length_pos_of_ne_nil hfront
  have hlen : front.length < pattern.length := by
    have hrLen := List.length_pos_of_ne_nil hne
    rw [heq, List.length_append]
    omega
  have hrest : r <+: pattern := by
    refine List.prefix_of_prefix_length_le hr (List.prefix_append pattern after) ?_
    rw [heq, List.length_append]
    omega
  have hdrop : pattern.drop front.length = r := by
    rw [heq, List.drop_left]
  exact hpattern front.length hlen hfrontLen (hdrop ▸ hrest)

end Skips

end Skips

variable {A : Type} [DecidableEq A]

instance (pattern : List A) : Decidable (Unbordered pattern) :=
  inferInstanceAs (Decidable (∀ k < pattern.length, _))

/-- The first place of the pattern in a text that begins at a position. -/
def find (pattern : List A) : List A → Nat → Option Nat
  | [], position => if pattern = [] then some position else none
  | a :: text, position =>
      if pattern.isPrefixOf (a :: text) then some position else find pattern text (position + 1)

/-- `indexOf` with a position to start from. -/
def indexOf (pattern text : List A) (start : Nat) : Option Nat :=
  find pattern (text.drop start) start

variable {pattern : List A}

theorem find_le {text : List A} {position found : Nat}
    (h : find pattern text position = some found) :
    position ≤ found ∧ found + pattern.length ≤ position + text.length := by
  induction text generalizing position with
  | nil =>
    rw [find] at h
    split_ifs at h with hp
    obtain rfl := Option.some.inj h
    simp [hp]
  | cons a text ih =>
    rw [find] at h
    split_ifs at h with hp
    · obtain rfl := Option.some.inj h
      have hlen := (List.isPrefixOf_iff_prefix.mp hp).length_le
      omega
    · have hrest := ih h
      rw [List.length_cons]
      omega

theorem indexOf_le {text : List A} {start found : Nat} (hne : pattern ≠ [])
    (h : indexOf pattern text start = some found) :
    start ≤ found ∧ found + pattern.length ≤ text.length := by
  have hpos := List.length_pos_of_ne_nil hne
  obtain ⟨hle, hend⟩ := find_le h
  rw [List.length_drop] at hend
  omega

theorem indexOf_append (before rest : List A) :
    indexOf pattern (before ++ rest) before.length = find pattern rest before.length := by
  rw [indexOf, List.drop_left]

theorem find_skip {text after : List A} (h : Skips pattern text after) (position : Nat) :
    find pattern (text ++ after) position = find pattern after (position + text.length) := by
  induction text generalizing position with
  | nil => rfl
  | cons a text ih =>
    rw [List.cons_append, find, if_neg (mt List.isPrefixOf_iff_prefix.mp h.1), ih h.2,
      List.length_cons]
    congr 1
    omega

theorem find_here {rest : List A} (hne : pattern ≠ []) (position : Nat) :
    find pattern (pattern ++ rest) position = some position := by
  cases pattern with
  | nil => exact absurd rfl hne
  | cons a p =>
    exact if_pos (List.isPrefixOf_iff_prefix.mpr (List.prefix_append (a :: p) rest))

theorem find_nil (hne : pattern ≠ []) (position : Nat) : find pattern [] position = none :=
  if_neg hne

/-- The first place of a pattern after a text that is skipped. -/
theorem find_after {text rest : List A} (hne : pattern ≠ [])
    (h : Skips pattern text (pattern ++ rest)) (position : Nat) :
    find pattern (text ++ (pattern ++ rest)) position = some (position + text.length) := by
  rw [find_skip h, find_here hne]

end HulyGitlab.TextSearch
