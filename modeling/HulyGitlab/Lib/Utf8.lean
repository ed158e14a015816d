import Mathlib.Data.List.Basic

/-!
# Decoding UTF-8 with replacement

The decoder of the platforms: it never fails. A sequence that breaks off, by a
byte that does not continue it or by the end of the bytes, is one replacement
character. The bytes of whole characters are read back; what is left of a
character that was cut is replaced.
-/

namespace HulyGitlab.Utf8

/-- A sequence that has begun: its bits, how many bytes are missing, and the bounds of
the next one. -/
structure Pending where
  point : Nat
  needed : Nat
  lower : Nat
  upper : Nat
  deriving DecidableEq

def replacement : Char := Char.ofNat 0xFFFD

/-- The first byte of a sequence. -/
def lead (b : Nat) : List Char × Option Pending :=
  if b ≤ 0x7F then ([Char.ofNat b], none)
  else if 0xC2 ≤ b ∧ b ≤ 0xDF then ([], some ⟨b - 0xC0, 1, 0x80, 0xBF⟩)
  else if 0xE0 ≤ b ∧ b ≤ 0xEF then
    ([], some ⟨b - 0xE0, 2, if b = 0xE0 then 0xA0 else 0x80, if b = 0xED then 0x9F else 0xBF⟩)
  else if 0xF0 ≤ b ∧ b ≤ 0xF4 then
    ([], some ⟨b - 0xF0, 3, if b = 0xF0 then 0x90 else 0x80, if b = 0xF4 then 0x8F else 0xBF⟩)
  else ([replacement], none)

/-- A byte out of bounds ends the sequence and is read as a first byte. -/
def step (p : Option Pending) (b : Nat) : List Char × Option Pending :=
  match p with
  | none => lead b
  | some p =>
      if p.lower ≤ b ∧ b ≤ p.upper then
        let point := 64 * p.point + (b - 0x80)
        if p.needed = 1 then ([Char.ofNat point], none)
        else ([], some ⟨point, p.needed - 1, 0x80, 0xBF⟩)
      else (replacement :: (lead b).1, (lead b).2)

def decodeFrom : Option Pending → List UInt8 → List Char
  | none, [] => []
  | some _, [] => [replacement]
  | p, b :: rest => (step p b.toNat).1 ++ decodeFrom (step p b.toNat).2 rest

def decode (bytes : List UInt8) : List Char := decodeFrom none bytes

def encode (cs : List Char) : List UInt8 := cs.flatMap String.utf8EncodeChar

@[simp] theorem encode_nil : encode [] = [] := rfl

@[simp] theorem encode_cons (c : Char) (cs : List Char) :
    encode (c :: cs) = String.utf8EncodeChar c ++ encode cs := rfl

/-- The bytes lead from a state to one character. -/
inductive Spells (c : Char) : Option Pending → List UInt8 → Prop
  | last {p : Option Pending} {b : UInt8} (h : step p b.toNat = ([c], none)) : Spells c p [b]
  | more {p : Option Pending} {b : UInt8} {q : Pending} {bytes : List UInt8}
      (h : step p b.toNat = ([], some q)) (hrest : Spells c (some q) bytes) :
      Spells c p (b :: bytes)

section Spells

variable {c : Char} {p : Option Pending} {bytes : List UInt8}

theorem decodeFrom_cons (p : Option Pending) (b : UInt8) (rest : List UInt8) :
    decodeFrom p (b :: rest) = (step p b.toNat).1 ++ decodeFrom (step p b.toNat).2 rest := by
  cases p <;> rfl

theorem Spells.decode_append (h : Spells c p bytes) (rest : List UInt8) :
    decodeFrom p (bytes ++ rest) = c :: decodeFrom none rest := by
  induction h with
  | last h => rw [List.cons_append, decodeFrom_cons, h, List.nil_append, List.singleton_append]
  | more h hrest ih => rw [List.cons_append, decodeFrom_cons, h, List.nil_append, ih]

/-- A sequence that was begun and cut is one replacement character. -/
theorem Spells.decode_cut (h : Spells c p bytes) {cut : List UInt8} (hcut : cut <+: bytes)
    (hne : cut ≠ bytes) (hbegun : p ≠ none ∨ cut ≠ []) : decodeFrom p cut = [replacement] := by
  induction h generalizing cut with
  | @last p b h =>
      cases cut with
      | nil =>
        obtain ⟨q, rfl⟩ := Option.ne_none_iff_exists'.mp (hbegun.resolve_right fun h => h rfl)
        rfl
      | cons d cut =>
        obtain ⟨rfl, hrest⟩ := List.cons_prefix_cons.mp hcut
        exact absurd (by rw [List.prefix_nil.mp hrest]) hne
  | @more p b q bytes h hrest ih =>
      cases cut with
      | nil =>
        obtain ⟨q, rfl⟩ := Option.ne_none_iff_exists'.mp (hbegun.resolve_right fun h => h rfl)
        rfl
      | cons d cut =>
        obtain ⟨rfl, hpre⟩ := List.cons_prefix_cons.mp hcut
        rw [decodeFrom_cons, h, List.nil_append]
        exact ih hpre (fun heq => hne (heq ▸ rfl)) (.inl (Option.some_ne_none q))

end Spells

section Encoding

theorem toNat_ofNat {n : Nat} (h : n < 256) : (UInt8.ofNat n).toNat = n := by
  rw [UInt8.toNat_ofNat', Nat.mod_eq_of_lt h]

/-- A byte that continues a sequence. -/
theorem step_trail {point needed lower upper bits : Nat} (hbits : bits < 64)
    (hlower : lower ≤ bits + 0x80) (hupper : bits + 0x80 ≤ upper) :
    step (some ⟨point, needed, lower, upper⟩) (UInt8.ofNat (bits + 0x80)).toNat =
      if needed = 1 then ([Char.ofNat (64 * point + bits)], none)
      else ([], some ⟨64 * point + bits, needed - 1, 0x80, 0xBF⟩) := by
  rw [toNat_ofNat (by omega)]
  simp only [step, hlower, hupper, and_self, if_true, Nat.add_sub_cancel]

theorem spells_encodeChar (c : Char) : Spells c none (String.utf8EncodeChar c) := by
  have hvalid : c.toNat < 0xD800 ∨ 0xDFFF < c.toNat ∧ c.toNat < 0x110000 := c.valid
  have hc : Char.ofNat c.toNat = c := Char.ofNat_toNat c
  have hval : c.val.toNat = c.toNat := rfl
  unfold String.utf8EncodeChar
  dsimp only
  rw [hval]
  generalize c.toNat = v at hvalid hc
  subst hc
  split_ifs with h1 h2 h3
  · refine .last ?_
    rw [toNat_ofNat (by omega)]
    exact if_pos h1
  · have h0 : (UInt8.ofNat (v / 64 % 0x20 + 0xc0)).toNat = v / 64 + 0xc0 := by
      rw [toNat_ofNat (by omega)]
      omega
    refine .more (q := ⟨v / 64, 1, 0x80, 0xBF⟩) ?_ (.last ?_)
    · rw [h0]
      simp only [step, lead]
      rw [if_neg (by omega), if_pos (by omega), Nat.add_sub_cancel]
    · rw [step_trail (by omega) (by omega) (by omega), if_pos rfl, Nat.div_add_mod]
  · have h0 : (UInt8.ofNat (v / 4096 % 0x10 + 0xe0)).toNat = v / 4096 + 0xe0 := by
      rw [toNat_ofNat (by omega)]
      omega
    refine .more (q := ⟨v / 4096, 2, if v / 4096 + 0xe0 = 0xE0 then 0xA0 else 0x80,
      if v / 4096 + 0xe0 = 0xED then 0x9F else 0xBF⟩) ?_
      (.more (q := ⟨v / 64, 1, 0x80, 0xBF⟩) ?_ (.last ?_))
    · rw [h0]
      simp only [step, lead]
      rw [if_neg (by omega), if_neg (by omega), if_pos (by omega), Nat.add_sub_cancel]
    · rw [step_trail (by omega) (by split_ifs <;> omega) (by split_ifs <;> omega)]
      have hpoint : 64 * (v / 4096) + v / 64 % 64 = v / 64 := by omega
      simp [hpoint]
    · rw [step_trail (by omega) (by omega) (by omega), if_pos rfl, Nat.div_add_mod]
  · have h0 : (UInt8.ofNat (v / 262144 % 0x08 + 0xf0)).toNat = v / 262144 + 0xf0 := by
      rw [toNat_ofNat (by omega)]
      omega
    refine .more (q := ⟨v / 262144, 3, if v / 262144 + 0xf0 = 0xF0 then 0x90 else 0x80,
      if v / 262144 + 0xf0 = 0xF4 then 0x8F else 0xBF⟩) ?_
      (.more (q := ⟨v / 4096, 2, 0x80, 0xBF⟩) ?_
        (.more (q := ⟨v / 64, 1, 0x80, 0xBF⟩) ?_ (.last ?_)))
    · rw [h0]
      simp only [step, lead]
      rw [if_neg (by omega), if_neg (by omega), if_neg (by omega), if_pos (by omega),
        Nat.add_sub_cancel]
    · rw [step_trail (by omega) (by split_ifs <;> omega) (by split_ifs <;> omega)]
      have hpoint : 64 * (v / 262144) + v / 4096 % 64 = v / 4096 := by omega
      simp [hpoint]
    · rw [step_trail (by omega) (by omega) (by omega)]
      have hpoint : 64 * (v / 4096) + v / 64 % 64 = v / 64 := by omega
      simp [hpoint]
    · rw [step_trail (by omega) (by omega) (by omega), if_pos rfl, Nat.div_add_mod]

/-- What is left of a character that was cut. -/
theorem decode_cut {c : Char} {cut : List UInt8} (hcut : cut <+: String.utf8EncodeChar c)
    (hne : cut ≠ String.utf8EncodeChar c) (hnil : cut ≠ []) : decode cut = [replacement] :=
  (spells_encodeChar c).decode_cut hcut hne (.inr hnil)

@[simp] theorem length_encode_cons (c : Char) (cs : List Char) :
    (encode (c :: cs)).length = c.utf8Size + (encode cs).length := by
  rw [encode_cons, List.length_append, String.length_utf8EncodeChar]

theorem encode_append (cs ds : List Char) : encode (cs ++ ds) = encode cs ++ encode ds :=
  List.flatMap_append

theorem utf8ByteSize_ofList (cs : List Char) :
    (String.ofList cs).utf8ByteSize = (encode cs).length := by
  rw [String.utf8ByteSize, String.toByteArray_ofList]
  simp [List.utf8Encode, encode]

end Encoding

end HulyGitlab.Utf8
