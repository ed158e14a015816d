import Mathlib.Data.List.DropRight
import Mathlib.Data.String.Basic

/-!
# Strings of the platform

`String.prototype.trim`, hexadecimal digits, the slashes at the ends of a URL,
and splitting a text at each occurrence of one character.
-/

namespace HulyGitlab

/-- White space and line terminators of JavaScript. -/
def isJsSpace (c : Char) : Bool :=
  c.toNat ∈ [0x9, 0xA, 0xB, 0xC, 0xD, 0x20, 0xA0, 0x1680, 0x2000, 0x2001, 0x2002, 0x2003, 0x2004,
    0x2005, 0x2006, 0x2007, 0x2008, 0x2009, 0x200A, 0x2028, 0x2029, 0x202F, 0x205F, 0x3000, 0xFEFF]

/-- `String.prototype.trim`. -/
def trim (s : List Char) : List Char := (s.dropWhile isJsSpace).rdropWhile isJsSpace

def hexDigits : List Char := "0123456789abcdef".toList

def hexDigit (n : Nat) : Char := hexDigits.getD n '0'

def hexValue (c : Char) : Option Nat :=
  if c.isDigit then some (c.toNat - '0'.toNat)
  else if 'a' ≤ c ∧ c ≤ 'f' then some (c.toNat - 'a'.toNat + 10)
  else if 'A' ≤ c ∧ c ≤ 'F' then some (c.toNat - 'A'.toNat + 10)
  else none

theorem hexValue_hexDigit : ∀ n < 16, hexValue (hexDigit n) = some n := by decide

/-- `replace(/\/$/, '')`. -/
def stripTrailingSlash (url : String) : String :=
  if url.toList.getLast? = some '/' then String.ofList url.toList.dropLast else url

/-- `replace(/^\//, '').replace(/\/$/, '')`. -/
def stripSlashes (path : String) : String :=
  stripTrailingSlash (if path.toList.head? = some '/' then String.ofList (path.toList.drop 1)
    else path)

section SplitOn

open String (ofList utf8Len)

theorem atEnd_ofList_iff (s : List Char) (n : Nat) :
    String.Pos.Raw.atEnd (ofList s) ⟨n⟩ ↔ utf8Len s ≤ n := by
  rw [String.atEnd_iff, String.rawEndPos_ofList, String.Pos.Raw.mk_le_mk]

/-- The positions are `l` for the begin of the part and `l ++ m` for the character read. -/
theorem splitOnAux_single (c : Char) (l m r : List Char) (parts : List String) :
    String.splitOnAux (ofList (l ++ m ++ r)) (ofList [c]) ⟨utf8Len l⟩ ⟨utf8Len l + utf8Len m⟩ 0
        parts =
      parts.reverse ++ (List.splitOnPPrepend (· == c) r m.reverse).map ofList := by
  induction r generalizing l m parts with
  | nil =>
      have hext := String.extract_of_valid l m []
      unfold String.splitOnAux
      rw [if_pos ((atEnd_ofList_iff _ _).mpr (by simp)), hext]
      simp
  | cons d r ih =>
      have hget := String.get_of_valid (l ++ m) (d :: r)
      have hnext := String.next_of_valid (l ++ m) d r
      have hext := String.extract_of_valid l m (d :: r)
      have hget0 : String.Pos.Raw.get (ofList [c]) 0 = c := String.get_of_valid [] [c]
      have hnext0 : String.Pos.Raw.next (ofList [c]) 0 = ⟨c.utf8Size⟩ := by
        simpa using String.next_of_valid [] c []
      have hend : ¬ String.Pos.Raw.atEnd (ofList (l ++ m ++ d :: r)) ⟨utf8Len l + utf8Len m⟩ := by
        have hpos := d.utf8Size_pos
        simp only [atEnd_ofList_iff, String.utf8Len_append, String.utf8Len_cons]
        omega
      rw [String.utf8Len_append] at hget hnext
      unfold String.splitOnAux
      rw [if_neg hend, hget, hget0, hnext, hnext0, List.headD_cons]
      by_cases hc : d = c
      · subst hc
        have hpart : String.Pos.Raw.unoffsetBy ⟨utf8Len l + utf8Len m + d.utf8Size⟩ ⟨d.utf8Size⟩ =
            ⟨utf8Len l + utf8Len m⟩ := by
          simp [String.Pos.Raw.unoffsetBy]
        have hrest := ih (l ++ m ++ [d]) [] (ofList m :: parts)
        simp only [List.append_nil, List.append_assoc, List.singleton_append,
          String.utf8Len_append, String.utf8Len_cons, String.utf8Len_nil, Nat.add_zero,
          Nat.zero_add] at hrest
        have hsep : String.Pos.Raw.atEnd (ofList [d]) ⟨d.utf8Size⟩ :=
          (atEnd_ofList_iff _ _).mpr (by simp)
        rw [if_pos (beq_self_eq_true d), if_pos hsep, hpart, hext,
          List.splitOnPPrepend_cons_eq_if, if_pos (beq_self_eq_true d)]
        simpa [Nat.add_assoc] using hrest
      · have hrest := ih l (m ++ [d]) parts
        have hnext' : String.Pos.Raw.next (ofList (l ++ m ++ d :: r))
            (String.Pos.Raw.unoffsetBy ⟨utf8Len l + utf8Len m⟩ 0) =
              ⟨utf8Len l + utf8Len m + d.utf8Size⟩ := hnext
        rw [if_neg (by simpa using hc), hnext',
          List.splitOnPPrepend_cons_eq_if, if_neg (by simpa using hc)]
        simpa [Nat.add_assoc] using hrest

theorem splitOn_single (c : Char) (s : List Char) :
    (ofList s).splitOn (ofList [c]) = (s.splitOn c).map ofList := by
  have hsep : (ofList [c] == "") = false := by
    rw [beq_eq_false_iff_ne]
    intro h
    exact absurd (congrArg String.toList h) (by simp)
  rw [String.splitOn, hsep, List.splitOn_eq_splitOnP, List.splitOnP_eq_splitOnPPrepend]
  exact splitOnAux_single c [] [] s []

end SplitOn

end HulyGitlab
