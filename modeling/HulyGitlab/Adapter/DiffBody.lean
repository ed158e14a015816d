import HulyGitlab.Adapter.Composite
import HulyGitlab.Lib.Utf8

/-!
# The bodies of long diffs

`mapChangedFile` keeps the first bytes of a long diff and decodes them again.
When that is the longest beginning of the diff that fits.
-/

namespace HulyGitlab.Adapter

open Utf8

/-- The longest beginning of a diff that fits, in whole characters. -/
structure LongestFit (diff body : String) : Prop where
  beginning : body.toList <+: diff.toList
  fits : body.utf8ByteSize ≤ diffBodyMaxBytes
  longest : ∀ cs, cs <+: diff.toList → (String.ofList cs).utf8ByteSize ≤ diffBodyMaxBytes →
    cs.length ≤ body.toList.length

/-- A file without a body is one with an empty body. -/
structure Truncates (diff : String) (file : SyncChangedFile) : Prop where
  body : LongestFit diff (file.diffBody.getD "")
  overflow : file.diffOverflow = some true ↔ file.diffBody.getD "" ≠ diff

/-- The diff fits, or some of its characters end where the cap is. -/
def EndsAtCap (diff : String) : Prop :=
  diff.utf8ByteSize ≤ diffBodyMaxBytes ∨
    ∃ cs, cs <+: diff.toList ∧ (String.ofList cs).utf8ByteSize = diffBodyMaxBytes

section FirstBytes

variable {n : Nat} {cs : List Char}

/-- The bytes that are kept, decoded as the platform does. -/
theorem decode_take_encode (n : Nat) (cs : List Char) :
    decode ((encode cs).take n) = firstBytes n cs := by
  induction cs generalizing n with
  | nil => simp [firstBytes, decode, decodeFrom]
  | cons c cs ih =>
    unfold firstBytes
    split_ifs with hfits hzero
    · have htake : (encode (c :: cs)).take n =
          String.utf8EncodeChar c ++ (encode cs).take (n - c.utf8Size) := by
        rw [encode_cons, List.take_append, String.length_utf8EncodeChar,
          List.take_of_length_le (by rw [String.length_utf8EncodeChar]; exact hfits)]
      rw [htake, ← ih]
      exact (spells_encodeChar c).decode_append _
    · rw [hzero]
      rfl
    · have hlen : n < (String.utf8EncodeChar c).length := by
        rw [String.length_utf8EncodeChar]
        omega
      have htake : (encode (c :: cs)).take n = (String.utf8EncodeChar c).take n := by
        rw [encode_cons, List.take_append_of_le_length (Nat.le_of_lt hlen)]
      have hne : (String.utf8EncodeChar c).take n ≠ String.utf8EncodeChar c := by
        intro heq
        have := congrArg List.length heq
        rw [List.length_take] at this
        omega
      have hnil : (String.utf8EncodeChar c).take n ≠ [] := by
        intro heq
        have := congrArg List.length heq
        rw [List.length_take, List.length_nil] at this
        omega
      rw [htake]
      exact decode_cut (List.take_prefix _ _) hne hnil

theorem firstBytes_append {pre : List Char} (h : (encode pre).length ≤ n) (post : List Char) :
    firstBytes n (pre ++ post) = pre ++ firstBytes (n - (encode pre).length) post := by
  induction pre generalizing n with
  | nil => rfl
  | cons c pre ih =>
    rw [length_encode_cons] at h
    rw [List.cons_append, firstBytes, if_pos (by omega), ih (by omega), length_encode_cons,
      Nat.sub_sub]
    rfl

/-- Where the cap falls: after all characters, between two, or into one. -/
theorem cap_cases (n : Nat) (cs : List Char) :
    (encode cs).length ≤ n ∨ (∃ pre post, cs = pre ++ post ∧ (encode pre).length = n) ∨
      ∃ pre c post, cs = pre ++ c :: post ∧ (encode pre).length < n ∧
        n < (encode pre).length + c.utf8Size := by
  induction cs generalizing n with
  | nil => exact .inl (Nat.zero_le n)
  | cons c cs ih =>
    rcases Nat.eq_zero_or_pos n with rfl | hpos
    · exact .inr (.inl ⟨[], c :: cs, rfl, rfl⟩)
    · by_cases hfits : c.utf8Size ≤ n
      · rcases ih (n - c.utf8Size) with h | ⟨pre, post, rfl, h⟩ | ⟨pre, d, post, rfl, h, h'⟩
        · exact .inl (by rw [length_encode_cons]; omega)
        · exact .inr (.inl ⟨c :: pre, post, rfl, by rw [length_encode_cons]; omega⟩)
        · exact .inr (.inr ⟨c :: pre, d, post, rfl, by rw [length_encode_cons]; omega,
            by rw [length_encode_cons]; omega⟩)
      · exact .inr (.inr ⟨[], c, cs, rfl, hpos, by simpa using hfits⟩)

theorem firstBytes_zero (cs : List Char) : firstBytes 0 cs = [] := by
  cases cs with
  | nil => rfl
  | cons c cs => exact (if_neg (by have := c.utf8Size_pos; omega)).trans (if_pos rfl)

theorem firstBytes_of_fits (h : (encode cs).length ≤ n) : firstBytes n cs = cs := by
  have happend := firstBytes_append h []
  rwa [List.append_nil, firstBytes, List.append_nil] at happend

theorem firstBytes_of_cut {pre post : List Char} {c : Char} (hpre : (encode pre).length < n)
    (hcut : n < (encode pre).length + c.utf8Size) :
    firstBytes n (pre ++ c :: post) = pre ++ [replacement] := by
  rw [firstBytes_append (Nat.le_of_lt hpre), firstBytes, if_neg (by omega), if_neg (by omega)]
  rfl

theorem length_encode_of_prefix {cs ds : List Char} (h : cs <+: ds) :
    (encode cs).length ≤ (encode ds).length := by
  obtain ⟨rest, rfl⟩ := h
  rw [encode_append, List.length_append]
  exact Nat.le_add_right _ _

/-- A beginning ends before a character or holds it. -/
theorem prefix_cases {cs pre post : List Char} {c : Char} (h : cs <+: pre ++ c :: post) :
    cs <+: pre ∨ pre ++ [c] <+: cs := by
  have hmid : pre ++ [c] <+: pre ++ c :: post := ⟨post, by simp⟩
  rcases List.prefix_or_prefix_of_prefix h hmid with hle | hle
  · rcases List.prefix_concat_iff.mp hle with rfl | hle
    · exact .inr List.prefix_rfl
    · exact .inl hle
  · exact .inr hle

end FirstBytes

section Truncation

variable (raw : RawChange) (diff : String)

theorem utf8ByteSize_eq (s : String) : s.utf8ByteSize = (encode s.toList).length := by
  rw [← utf8ByteSize_ofList, String.ofList_toList]

theorem diffBody_getD :
    (mapChangedFile { raw with diff := some diff }).diffBody.getD "" =
      String.ofList (firstBytes diffBodyMaxBytes diff.toList) := by
  dsimp only [mapChangedFile, Option.getD_some]
  split_ifs with hempty hfits
  · rw [hempty]
    rfl
  · rw [utf8ByteSize_eq] at hfits
    rw [firstBytes_of_fits hfits, String.ofList_toList]
    rfl
  · rfl

theorem diffOverflow_iff :
    (mapChangedFile { raw with diff := some diff }).diffOverflow = some true ↔
      diffBodyMaxBytes < diff.utf8ByteSize := by
  dsimp only [mapChangedFile, Option.getD_some]
  split_ifs with hfits
  · refine iff_of_false (by simp) ?_
    rcases hfits with rfl | hfits
    · exact Nat.not_lt_zero _
    · omega
  · exact iff_of_true rfl (by omega)

/-- What is kept of a diff with a character that ends where the cap is. -/
theorem longestFit_of_cap {pre post : List Char} (hdiff : diff.toList = pre ++ post)
    (hcap : (encode pre).length = diffBodyMaxBytes) : LongestFit diff (String.ofList pre) where
  beginning := by
    rw [String.toList_ofList, hdiff]
    exact List.prefix_append pre post
  fits := by
    rw [utf8ByteSize_ofList, hcap]
  longest cs hcs hsize := by
    rw [String.toList_ofList]
    rw [utf8ByteSize_ofList, ← hcap] at hsize
    rw [hdiff] at hcs
    rcases List.prefix_or_prefix_of_prefix hcs (List.prefix_append pre post) with hle | ⟨more, rfl⟩
    · exact hle.length_le
    · cases more with
      | nil => rw [List.append_nil]
      | cons c more =>
        have := c.utf8Size_pos
        rw [encode_append, List.length_append, length_encode_cons] at hsize
        omega

/-- A character into which the cap falls is not in the body, and its replacement is no part of
the diff or too long. -/
theorem not_longestFit_of_cut {pre post : List Char} {c : Char}
    (hdiff : diff.toList = pre ++ c :: post)
    (hcut : diffBodyMaxBytes < (encode pre).length + c.utf8Size) :
    ¬ LongestFit diff (String.ofList (pre ++ [replacement])) := by
  rintro ⟨hbeginning, hfits, -⟩
  rw [String.toList_ofList, hdiff, List.prefix_append_right_inj] at hbeginning
  obtain ⟨hsame, -⟩ := List.cons_prefix_cons.mp hbeginning
  rw [utf8ByteSize_ofList, hsame, encode_append, List.length_append, length_encode_cons] at hfits
  omega

theorem truncates_iff :
    Truncates diff (mapChangedFile { raw with diff := some diff }) ↔ EndsAtCap diff := by
  have hbody := diffBody_getD raw diff
  have hoverflow := diffOverflow_iff raw diff
  have hsize := utf8ByteSize_eq diff
  rcases cap_cases diffBodyMaxBytes diff.toList with
    hfits | ⟨pre, post, hdiff, hcap⟩ | ⟨pre, c, post, hdiff, hpre, hcut⟩
  · -- the diff is kept whole
    rw [firstBytes_of_fits hfits, String.ofList_toList] at hbody
    refine iff_of_true ⟨?_, ?_⟩ (.inl (hsize ▸ hfits))
    · rw [hbody]
      exact ⟨List.prefix_rfl, hsize ▸ hfits, fun cs hcs _ => hcs.length_le⟩
    · rw [hoverflow, hbody]
      exact iff_of_false (by omega) (fun h => h rfl)
  · rw [hdiff, firstBytes_append (Nat.le_of_eq hcap), hcap, Nat.sub_self, firstBytes_zero,
      List.append_nil] at hbody
    refine iff_of_true ⟨?_, ?_⟩
      (.inr ⟨pre, hdiff ▸ List.prefix_append pre post, (utf8ByteSize_ofList pre).trans hcap⟩)
    · rw [hbody]
      exact longestFit_of_cap diff hdiff hcap
    · rw [hoverflow, hbody, hsize, hdiff, encode_append, List.length_append, hcap]
      cases post with
      | nil =>
        refine iff_of_false (by simp) fun h => h ?_
        rw [← String.ofList_toList (s := diff), hdiff, List.append_nil]
      | cons c post =>
        have := c.utf8Size_pos
        refine iff_of_true (by rw [length_encode_cons]; omega) fun heq => ?_
        have hlist := congrArg String.toList heq
        rw [String.toList_ofList, hdiff] at hlist
        simp at hlist
  · rw [hdiff, firstBytes_of_cut hpre hcut] at hbody
    refine iff_of_false ?_ ?_
    · rintro ⟨hfit, -⟩
      rw [hbody] at hfit
      exact not_longestFit_of_cut diff hdiff hcut hfit
    · rintro (hfits | ⟨cs, hcs, hcap⟩)
      · rw [hsize, hdiff, encode_append, List.length_append, length_encode_cons] at hfits
        omega
      · rw [hdiff] at hcs
        rw [utf8ByteSize_ofList] at hcap
        rcases prefix_cases hcs with hle | hle
        · have := length_encode_of_prefix hle
          omega
        · have := length_encode_of_prefix hle
          rw [encode_append, List.length_append, length_encode_cons] at this
          omega

theorem length_encode_replicate (n : Nat) (c : Char) :
    (encode (List.replicate n c)).length = n * c.utf8Size := by
  induction n with
  | zero => simp
  | succ n ih =>
    rw [List.replicate_succ, length_encode_cons, ih, Nat.succ_mul]
    exact Nat.add_comm _ _

/-- One letter more than the cap takes, and it is one of two bytes. -/
theorem not_truncates_cut : ¬ ∀ (raw : RawChange) (diff : String),
    Truncates diff (mapChangedFile { raw with diff := some diff }) := by
  intro h
  have hone : 'a'.utf8Size = 1 := by decide
  have htwo : 'é'.utf8Size = 2 := by decide
  have hsize : (encode (List.replicate 65535 'a')).length = 65535 := by
    rw [length_encode_replicate, hone]
  have hcap : diffBodyMaxBytes = 65536 := rfl
  have hdiff : (String.ofList (List.replicate 65535 'a' ++ ['é'])).toList =
      List.replicate 65535 'a' ++ ['é'] := String.toList_ofList
  have hbody := (h ⟨none, none, none, none, none, none⟩
    (String.ofList (List.replicate 65535 'a' ++ ['é']))).body
  rw [diffBody_getD, hdiff, firstBytes_of_cut (by omega) (by omega)] at hbody
  exact not_longestFit_of_cut _ hdiff (by omega) hbody

end Truncation

end HulyGitlab.Adapter
