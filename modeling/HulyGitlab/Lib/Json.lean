import HulyGitlab.Lib.JsString
import Mathlib.Data.Option.Basic

/-!
# JSON texts

`JSON.parse` on a text of characters, with the reading of numbers as a
parameter, and what `JSON.stringify` writes for an object whose values are
written already. Reading back such an object gives its fields. A text has no
lone surrogates, and an escape that stands for one is not read.
-/

namespace HulyGitlab

inductive Json (N : Type)
  | null
  | bool (b : Bool)
  | num (n : N)
  | str (s : String)
  | arr (items : List (Json N))
  | obj (fields : List (String × Json N))

namespace Json

/-- The quotation mark. -/
def quoteMark : Char := Char.ofNat 0x22

def backslash : Char := Char.ofNat 0x5C

def isSpace (c : Char) : Bool := c.toNat ∈ [0x20, 0x9, 0xA, 0xD]

def skipSpace (s : List Char) : List Char := s.dropWhile isSpace

/-- White space and one character. -/
def expect (c : Char) (s : List Char) : Option (List Char) :=
  match skipSpace s with
  | [] => none
  | d :: rest => if d = c then some rest else none

section Strings

def hex4 : List Char → Option (Nat × List Char)
  | a :: b :: c :: d :: rest =>
      match hexValue a, hexValue b, hexValue c, hexValue d with
      | some a, some b, some c, some d => some (((a * 16 + b) * 16 + c) * 16 + d, rest)
      | _, _, _, _ => none
  | _ => none

/-- The second half of a pair of surrogates, in an escape of its own. -/
def lowSurrogate : List Char → Option (Nat × List Char)
  | b :: u :: more =>
      if b = backslash ∧ u = 'u' then
        (hex4 more).filter fun low => 0xDC00 ≤ low.1 ∧ low.1 < 0xE000
      else none
  | _ => none

/-- What follows a backslash and `u`. -/
def unicodeEscape (s : List Char) : Option (Char × List Char) :=
  match hex4 s with
  | none => none
  | some (unit, rest) =>
      if 0xD800 ≤ unit ∧ unit < 0xDC00 then
        (lowSurrogate rest).map fun low =>
          (Char.ofNat (0x10000 + (unit - 0xD800) * 0x400 + (low.1 - 0xDC00)), low.2)
      else if 0xDC00 ≤ unit ∧ unit < 0xE000 then none
      else some (Char.ofNat unit, rest)

/-- The escapes of one character. -/
def shortEscapes : List (Char × Char) :=
  [(quoteMark, quoteMark), (backslash, backslash), ('/', '/'), ('b', Char.ofNat 0x8),
    ('f', Char.ofNat 0xC), ('n', Char.ofNat 0xA), ('r', Char.ofNat 0xD), ('t', Char.ofNat 0x9)]

/-- What follows a backslash. -/
def unescape : List Char → Option (Char × List Char)
  | [] => none
  | e :: rest =>
      if e = 'u' then unicodeEscape rest
      else (shortEscapes.lookup e).map fun c => (c, rest)

/-- A string after its opening mark. -/
def stringBody : Nat → List Char → Option (List Char × List Char)
  | 0, _ => none
  | _ + 1, [] => none
  | fuel + 1, c :: rest =>
      if c = quoteMark then some ([], rest)
      else if c = backslash then
        (unescape rest).bind fun e => (stringBody fuel e.2).map fun s => (e.1 :: s.1, s.2)
      else if c.toNat < 0x20 then none
      else (stringBody fuel rest).map fun s => (c :: s.1, s.2)

def parseString (s : List Char) : Option (String × List Char) :=
  (expect quoteMark s).bind fun rest =>
    (stringBody (rest.length + 1) rest).map fun body => (String.ofList body.1, body.2)

/-- What `JSON.stringify` writes for a character of a string. -/
def escapeChar (c : Char) : List Char :=
  if c = quoteMark then [backslash, quoteMark]
  else if c = backslash then [backslash, backslash]
  else if c.toNat = 0x8 then [backslash, 'b']
  else if c.toNat = 0x9 then [backslash, 't']
  else if c.toNat = 0xA then [backslash, 'n']
  else if c.toNat = 0xC then [backslash, 'f']
  else if c.toNat = 0xD then [backslash, 'r']
  else if c.toNat < 0x20 then
    [backslash, 'u', '0', '0', hexDigit (c.toNat / 16), hexDigit (c.toNat % 16)]
  else [c]

def quote (s : String) : List Char :=
  quoteMark :: (s.toList.flatMap escapeChar ++ [quoteMark])

end Strings

section Numbers

/-- One digit or more. -/
def someDigits (s : List Char) : Option (List Char × List Char) :=
  match s.takeWhile Char.isDigit with
  | [] => none
  | ds => some (ds, s.dropWhile Char.isDigit)

def integerPart : List Char → Option (List Char × List Char)
  | '0' :: rest => some (['0'], rest)
  | s => someDigits s

def fraction : List Char → Option (List Char × List Char)
  | '.' :: rest => (someDigits rest).map fun ds => ('.' :: ds.1, ds.2)
  | s => some ([], s)

def sign : List Char → List Char × List Char
  | '+' :: rest => (['+'], rest)
  | '-' :: rest => (['-'], rest)
  | s => ([], s)

def exponent : List Char → Option (List Char × List Char)
  | [] => some ([], [])
  | e :: rest =>
      if e = 'e' ∨ e = 'E' then
        (someDigits (sign rest).2).map fun ds => (e :: (sign rest).1 ++ ds.1, ds.2)
      else some ([], e :: rest)

/-- The text of a number at the head. -/
def numberText (s : List Char) : Option (List Char × List Char) :=
  let minus := if s.head? = some '-' then ['-'] else []
  (integerPart (s.drop minus.length)).bind fun i =>
    (fraction i.2).bind fun f =>
      (exponent f.2).map fun e => (minus ++ i.1 ++ f.1 ++ e.1, e.2)

end Numbers

section Parse

variable {N : Type} (readNumber : List Char → N)

/-- A word or a number; the white space before it is skipped. -/
def parseScalar (s : List Char) : Option (Json N × List Char) :=
  if "null".toList.isPrefixOf s then some (.null, s.drop 4)
  else if "true".toList.isPrefixOf s then some (.bool true, s.drop 4)
  else if "false".toList.isPrefixOf s then some (.bool false, s.drop 5)
  else (numberText s).map fun t => (.num (readNumber t.1), t.2)

mutual

def parseValue : Nat → List Char → Option (Json N × List Char)
  | 0, _ => none
  | fuel + 1, s =>
      match skipSpace s with
      | '{' :: rest =>
          match expect '}' rest with
          | some more => some (.obj [], more)
          | none => (parseMembers fuel rest).map fun ms => (.obj ms.1, ms.2)
      | '[' :: rest =>
          match expect ']' rest with
          | some more => some (.arr [], more)
          | none => (parseElements fuel rest).map fun vs => (.arr vs.1, vs.2)
      | t =>
          if t.head? = some quoteMark then (parseString t).map fun r => (.str r.1, r.2)
          else parseScalar readNumber t

def parseElements : Nat → List Char → Option (List (Json N) × List Char)
  | 0, _ => none
  | fuel + 1, s =>
      (parseValue fuel s).bind fun v =>
        match expect ',' v.2 with
        | some more => (parseElements fuel more).map fun vs => (v.1 :: vs.1, vs.2)
        | none => (expect ']' v.2).map fun more => ([v.1], more)

def parseMembers : Nat → List Char → Option (List (String × Json N) × List Char)
  | 0, _ => none
  | fuel + 1, s =>
      (parseString s).bind fun k =>
        (expect ':' k.2).bind fun afterColon =>
          (parseValue fuel afterColon).bind fun v =>
            match expect ',' v.2 with
            | some more => (parseMembers fuel more).map fun ms => ((k.1, v.1) :: ms.1, ms.2)
            | none => (expect '}' v.2).map fun more => ([(k.1, v.1)], more)

end

/-- `JSON.parse`; none when it throws. -/
def parse (s : List Char) : Option (Json N) :=
  (parseValue readNumber (s.length + 1) s).bind fun v =>
    if skipSpace v.2 = [] then some v.1 else none

/-- The property of an object; a later field of the same name replaces an earlier one. -/
def get (j : Json N) (name : String) : Option (Json N) :=
  match j with
  | .obj fields => fields.reverse.lookup name
  | _ => none

end Parse

/-- An object whose values are written already. -/
def renderObject (fields : List (String × List Char)) : List Char :=
  '{' :: ([','].intercalate (fields.map fun f => quote f.1 ++ ':' :: f.2) ++ ['}'])

section Reading

theorem expect_self {c : Char} (hc : isSpace c = false) (rest : List Char) :
    expect c (c :: rest) = some rest := by
  simp [expect, skipSpace, hc]

theorem expect_ne {c d : Char} (hd : isSpace d = false) (h : d ≠ c) (rest : List Char) :
    expect c (d :: rest) = none := by
  simp [expect, skipSpace, hd, h]

theorem hex4_control (c : Char) (h : c.toNat < 0x20) (rest : List Char) :
    unicodeEscape ('0' :: '0' :: hexDigit (c.toNat / 16) :: hexDigit (c.toNat % 16) :: rest) =
      some (c, rest) := by
  have hhigh := hexValue_hexDigit (c.toNat / 16) (by omega)
  have hlow := hexValue_hexDigit (c.toNat % 16) (by omega)
  have hzero : hexValue '0' = some 0 := rfl
  have hunit : ((0 * 16 + 0) * 16 + c.toNat / 16) * 16 + c.toNat % 16 = c.toNat := by omega
  have hpair : ¬ (0xD800 ≤ c.toNat ∧ c.toNat < 0xDC00) := by omega
  have hlone : ¬ (0xDC00 ≤ c.toNat ∧ c.toNat < 0xE000) := by omega
  simp only [unicodeEscape, hex4, hzero, hhigh, hlow, hunit, if_neg hpair, if_neg hlone,
    Char.ofNat_toNat]

/-- Reading takes back the writing of one character. -/
theorem stringBody_escapeChar (fuel : Nat) (c : Char) (rest : List Char) :
    stringBody (fuel + 1) (escapeChar c ++ rest) =
      (stringBody fuel rest).map fun s => (c :: s.1, s.2) := by
  have hslash : ∀ {e : List Char} {d : Char}, unescape (e ++ rest) = some (d, rest) →
      stringBody (fuel + 1) (backslash :: (e ++ rest)) =
        (stringBody fuel rest).map fun s => (d :: s.1, s.2) := by
    intro e d h
    rw [stringBody, if_neg (by decide), if_pos rfl, h]
    rfl
  have hcode : ∀ {n : Nat}, c.toNat = n → c = Char.ofNat n := fun h => by
    rw [← h, Char.ofNat_toNat]
  unfold escapeChar
  split
  · rename_i h
    exact h ▸ hslash (e := [quoteMark]) rfl
  split
  · rename_i h
    exact h ▸ hslash (e := [backslash]) rfl
  split
  · rename_i h
    exact hcode h ▸ hslash (e := ['b']) rfl
  split
  · rename_i h
    exact hcode h ▸ hslash (e := ['t']) rfl
  split
  · rename_i h
    exact hcode h ▸ hslash (e := ['n']) rfl
  split
  · rename_i h
    exact hcode h ▸ hslash (e := ['f']) rfl
  split
  · rename_i h
    exact hcode h ▸ hslash (e := ['r']) rfl
  split
  · rename_i h
    refine hslash (e := ['u', '0', '0', hexDigit (c.toNat / 16), hexDigit (c.toNat % 16)]) ?_
    exact hex4_control c h rest
  · rename_i hquote hbackslash _ _ _ _ _ hcontrol
    rw [List.singleton_append, stringBody, if_neg hquote, if_neg hbackslash, if_neg hcontrol]

theorem stringBody_quote (s rest : List Char) (fuel : Nat) (h : s.length < fuel) :
    stringBody fuel (s.flatMap escapeChar ++ quoteMark :: rest) = some (s, rest) := by
  induction s generalizing fuel with
  | nil =>
      obtain ⟨fuel, rfl⟩ := Nat.exists_eq_succ_of_ne_zero (Nat.ne_of_gt h)
      rw [List.flatMap_nil, List.nil_append, stringBody, if_pos rfl]
  | cons c s ih =>
      obtain ⟨fuel, rfl⟩ := Nat.exists_eq_succ_of_ne_zero (Nat.ne_of_gt (Nat.zero_lt_of_lt h))
      rw [List.flatMap_cons, List.append_assoc, Nat.succ_eq_add_one, stringBody_escapeChar,
        ih fuel (Nat.lt_of_succ_lt_succ h)]
      rfl

theorem length_le_flatMap_escapeChar (s : List Char) : s.length ≤ (s.flatMap escapeChar).length := by
  have hpos : ∀ c, 1 ≤ (escapeChar c).length := by
    intro c
    unfold escapeChar
    repeat' split
    all_goals simp
  induction s with
  | nil => exact Nat.zero_le _
  | cons c s ih =>
      have hc := hpos c
      rw [List.flatMap_cons, List.length_append, List.length_cons]
      omega

theorem parseString_quote (s : String) (rest : List Char) :
    parseString (quote s ++ rest) = some (s, rest) := by
  have hlen := length_le_flatMap_escapeChar s.toList
  have hbody : quote s ++ rest =
      quoteMark :: (s.toList.flatMap escapeChar ++ quoteMark :: rest) := by
    simp [quote]
  rw [hbody, parseString, expect_self (by decide), Option.bind_some, stringBody_quote]
  · simp
  · simp only [List.length_append, List.length_cons]
    omega

/-- What can follow a value inside of an object. -/
def Stops (rest : List Char) : Prop := ∃ more, rest = ',' :: more ∨ rest = '}' :: more

variable {N : Type} {readNumber : List Char → N}

/-- The text is read as the value wherever it stands in an object. -/
def Reads (readNumber : List Char → N) (text : List Char) (j : Json N) : Prop :=
  ∀ fuel rest, Stops rest → parseValue readNumber (fuel + 1) (text ++ rest) = some (j, rest)

theorem parseValue_scalar {c : Char} (hspace : isSpace c = false) (hobj : c ≠ '{') (harr : c ≠ '[')
    (fuel : Nat) (t : List Char) :
    parseValue readNumber (fuel + 1) (c :: t) =
      if c = quoteMark then (parseString (c :: t)).map fun r => (.str r.1, r.2)
      else parseScalar readNumber (c :: t) := by
  have hskip : skipSpace (c :: t) = c :: t := by
    simp [skipSpace, hspace]
  rw [parseValue, hskip]
  split
  · rename_i heq
    exact absurd (List.cons_eq_cons.mp heq).1 hobj
  · rename_i heq
    exact absurd (List.cons_eq_cons.mp heq).1 harr
  · simp only [List.head?_cons, Option.some.injEq]

theorem reads_quote (s : String) : Reads readNumber (quote s) (.str s) := by
  intro fuel rest _
  have hparse := parseString_quote s rest
  rw [quote, List.cons_append] at hparse ⊢
  rw [parseValue_scalar (by decide) (by decide) (by decide), if_pos rfl, hparse]
  rfl

/-- A number in the text ends where the rest has no digit at its head. -/
theorem span_append {p : Char → Bool} {rest : List Char} (h : ∀ c ∈ rest.head?, p c = false)
    (s : List Char) :
    (s ++ rest).takeWhile p = s.takeWhile p ∧ (s ++ rest).dropWhile p = s.dropWhile p ++ rest := by
  induction s with
  | nil =>
      cases rest with
      | nil => exact ⟨rfl, rfl⟩
      | cons c rest => simp [h c rfl]
  | cons c s ih =>
      cases hc : p c with
      | true => simp [hc, ih.1, ih.2]
      | false => simp [hc]

/-- What follows a number in an object goes on none. -/
def EndsNumber (rest : List Char) : Prop :=
  ∀ c ∈ rest.head?, c.isDigit = false ∧ c ≠ '.' ∧ c ≠ 'e' ∧ c ≠ 'E' ∧ c ≠ '+' ∧ c ≠ '-'

theorem Stops.endsNumber {rest : List Char} (h : Stops rest) : EndsNumber rest := by
  obtain ⟨more, rfl | rfl⟩ := h
  · rintro c ⟨⟩
    decide
  · rintro c ⟨⟩
    decide

variable {s rest ds r : List Char}

theorem someDigits_append (hrest : EndsNumber rest) (h : someDigits s = some (ds, r)) :
    someDigits (s ++ rest) = some (ds, r ++ rest) := by
  obtain ⟨htake, hdrop⟩ := span_append (fun c hc => (hrest c hc).1) s
  unfold someDigits at h ⊢
  rw [htake, hdrop]
  split at h
  · cases h
  · cases h
    rfl

theorem integerPart_append (hrest : EndsNumber rest) (h : integerPart s = some (ds, r)) :
    integerPart (s ++ rest) = some (ds, r ++ rest) := by
  unfold integerPart at h
  split at h
  · cases h
    rfl
  · rename_i hzero
    cases s with
    | nil => cases h
    | cons c cs =>
        have hc : c ≠ '0' := by
          rintro rfl
          exact hzero cs rfl
        have hdigits := someDigits_append hrest h
        unfold integerPart
        split
        · rename_i heq
          exact absurd (List.cons_eq_cons.mp heq).1 hc
        · exact hdigits

theorem fraction_append (hrest : EndsNumber rest) (h : fraction s = some (ds, r)) :
    fraction (s ++ rest) = some (ds, r ++ rest) := by
  have hnone : ∀ {t : List Char}, (∀ c ∈ t.head?, c ≠ '.') → fraction t = some ([], t) := by
    intro t ht
    unfold fraction
    split
    · exact absurd rfl (ht '.' rfl)
    · rfl
  unfold fraction at h
  split at h
  · rename_i t
    obtain ⟨ds', hds, heq⟩ := Option.map_eq_some_iff.mp h
    cases heq
    rw [List.cons_append, fraction, someDigits_append hrest hds]
    rfl
  · rename_i hdot
    cases h
    refine hnone fun c hc => ?_
    cases s with
    | nil => exact (hrest c hc).2.1
    | cons d s =>
        rintro rfl
        obtain rfl : d = '.' := Option.some.inj hc
        exact hdot s rfl

theorem sign_append (hs : s ≠ []) : sign (s ++ rest) = ((sign s).1, (sign s).2 ++ rest) := by
  obtain ⟨c, s, rfl⟩ := List.exists_cons_of_ne_nil hs
  rw [List.cons_append]
  by_cases hplus : c = '+'
  · subst hplus
    rfl
  · by_cases hminus : c = '-'
    · subst hminus
      rfl
    · have hother : ∀ t, sign (c :: t) = ([], c :: t) := by
        intro t
        unfold sign
        split
        · rename_i heq
          exact absurd (List.cons_eq_cons.mp heq).1 hplus
        · rename_i heq
          exact absurd (List.cons_eq_cons.mp heq).1 hminus
        · rfl
      rw [hother, hother]
      rfl

theorem exponent_append (hrest : EndsNumber rest) (h : exponent s = some (ds, r)) :
    exponent (s ++ rest) = some (ds, r ++ rest) := by
  cases s with
  | nil =>
      cases h
      cases rest with
      | nil => rfl
      | cons c rest =>
          obtain ⟨-, -, he, hE, -⟩ := hrest c rfl
          rw [List.nil_append, exponent, if_neg (by simp [he, hE])]
  | cons e s =>
      rw [exponent] at h
      rw [List.cons_append, exponent]
      split at h
      · rename_i he
        obtain ⟨ds', hds, heq⟩ := Option.map_eq_some_iff.mp h
        have hs : s ≠ [] := by
          rintro rfl
          cases hds
        cases heq
        rw [if_pos he, sign_append hs, someDigits_append hrest hds]
        rfl
      · rename_i he
        cases h
        rw [if_neg he]
        rfl

/-- The sign of a number and what follows it. -/
theorem numberText_cons (c : Char) (s : List Char) :
    numberText (c :: s) =
      (integerPart (if c = '-' then s else c :: s)).bind fun i =>
        (fraction i.2).bind fun f =>
          (exponent f.2).map fun e =>
            ((if c = '-' then ['-'] else []) ++ i.1 ++ f.1 ++ e.1, e.2) := by
  unfold numberText
  by_cases hc : c = '-'
  · subst hc
    rfl
  · simp [hc]

theorem numberText_append (hrest : EndsNumber rest) (h : numberText s = some (ds, r)) :
    numberText (s ++ rest) = some (ds, r ++ rest) := by
  have hs : s ≠ [] := by
    rintro rfl
    cases h
  obtain ⟨c, s, rfl⟩ := List.exists_cons_of_ne_nil hs
  rw [numberText_cons] at h
  obtain ⟨i, hi, h⟩ := Option.bind_eq_some_iff.mp h
  obtain ⟨f, hf, h⟩ := Option.bind_eq_some_iff.mp h
  obtain ⟨e, he, heq⟩ := Option.map_eq_some_iff.mp h
  cases heq
  have hafter : (if c = '-' then s ++ rest else c :: (s ++ rest)) =
      (if c = '-' then s else c :: s) ++ rest := by
    split <;> rfl
  rw [List.cons_append, numberText_cons, hafter, integerPart_append hrest hi, Option.bind_some,
    fraction_append hrest hf, Option.bind_some, exponent_append hrest he, Option.map_some]

/-- A number begins with its sign or with a digit. -/
theorem numberText_head {c : Char} (h : numberText (c :: s) = some (ds, r)) :
    c = '-' ∨ c.isDigit = true := by
  by_cases hc : c = '-'
  · exact .inl hc
  · rw [numberText_cons, if_neg hc] at h
    obtain ⟨i, hi, -⟩ := Option.bind_eq_some_iff.mp h
    right
    by_contra hdigit
    have hzero : c ≠ '0' := by
      rintro rfl
      exact hdigit rfl
    unfold integerPart at hi
    split at hi
    · rename_i heq
      exact hzero (List.cons_eq_cons.mp heq).1
    · simp [someDigits, hdigit] at hi

/-- The whole text is one number. -/
def IsNumberText (t : List Char) : Prop := numberText t = some (t, [])

theorem reads_number {t : List Char} (h : IsNumberText t) :
    Reads readNumber t (.num (readNumber t)) := by
  intro fuel rest hrest
  have happ := numberText_append hrest.endsNumber h
  have hne : t ≠ [] := by
    rintro rfl
    cases h
  obtain ⟨c, s, rfl⟩ := List.exists_cons_of_ne_nil hne
  have hhead := numberText_head h
  have hother : ∀ d, d.isDigit = false → d ≠ '-' → c ≠ d := by
    rintro d hd hminus rfl
    rcases hhead with rfl | hdigit
    · exact hminus rfl
    · rw [hd] at hdigit
      cases hdigit
  have hspace : isSpace c = false := by
    by_contra hsp
    have hmem : c.toNat ∈ [0x20, 0x9, 0xA, 0xD] :=
      of_decide_eq_true ((Bool.not_eq_false _).mp hsp)
    have hcode : c = Char.ofNat c.toNat := (Char.ofNat_toNat c).symm
    simp only [List.mem_cons, List.not_mem_nil, or_false] at hmem
    obtain hn | hn | hn | hn := hmem <;> rw [hn] at hcode <;>
      exact hother _ (by decide) (by decide) hcode
  have hword : ∀ d w, d.isDigit = false → d ≠ '-' →
      (d :: w).isPrefixOf (c :: (s ++ rest)) = false := by
    intro d w hd hminus
    simp [List.isPrefixOf, (hother d hd hminus).symm]
  rw [List.cons_append, parseValue_scalar hspace (hother _ (by decide) (by decide))
    (hother _ (by decide) (by decide)), if_neg (hother _ (by decide) (by decide)), parseScalar,
    if_neg, if_neg, if_neg, ← List.cons_append, happ]
  · rfl
  · exact Bool.eq_false_iff.mp (hword 'f' _ (by decide) (by decide))
  · exact Bool.eq_false_iff.mp (hword 't' _ (by decide) (by decide))
  · exact Bool.eq_false_iff.mp (hword 'n' _ (by decide) (by decide))

/-- No natural number but zero is written with a zero at its head. -/
theorem eq_zero_of_head?_toDigits (n : Nat) (h : (Nat.toDigits 10 n).head? = some '0') : n = 0 := by
  induction n using Nat.strongRecOn with
  | ind n ih =>
      by_cases hn : n < 10
      · have hdigit : ∀ m < 10, [Nat.digitChar m].head? = some '0' → m = 0 := by decide
        rw [Nat.toDigits_of_lt_base hn] at h
        exact hdigit n hn h
      · have hlast := Nat.toDigits_of_base_le (b := 10) (n := n) (by decide) (Nat.le_of_not_lt hn)
        rw [hlast, List.head?_append_of_ne_nil _ Nat.toDigits_ne_nil] at h
        have hzero := ih (n / 10) (by omega) h
        omega

theorem isNumberText_toDigits (n : Nat) : IsNumberText (Nat.toDigits 10 n) := by
  have hdigits : ∀ c ∈ Nat.toDigits 10 n, c.isDigit = true :=
    fun c hc => Nat.isDigit_of_mem_toDigits (by decide) (by decide) hc
  obtain ⟨c, cs, heq⟩ := List.exists_cons_of_ne_nil (Nat.toDigits_ne_nil (b := 10) (n := n))
  rw [heq] at hdigits
  have hsome : someDigits (c :: cs) = some (c :: cs, []) := by
    rw [someDigits, List.takeWhile_eq_self_iff.mpr hdigits, List.dropWhile_eq_nil_iff.mpr hdigits]
  have hint : integerPart (c :: cs) = some (c :: cs, []) := by
    unfold integerPart
    split
    · rename_i hzero
      obtain ⟨rfl, rfl⟩ := List.cons_eq_cons.mp hzero
      obtain rfl := eq_zero_of_head?_toDigits n (by rw [heq]; rfl)
      obtain ⟨-, rfl⟩ := List.cons_eq_cons.mp heq
      rfl
    · exact hsome
  have hminus : c ≠ '-' := by
    rintro rfl
    exact absurd (hdigits _ List.mem_cons_self) (by decide)
  rw [heq, IsNumberText, numberText_cons, if_neg hminus, if_neg hminus, hint]
  simp [fraction, exponent]

theorem reads_null : Reads readNumber "null".toList .null := by
  intro fuel rest _
  rfl

/-- The members of an object are read back, with fuel for each. -/
theorem parseMembers_render (fields : List (String × List Char × Json N)) (hne : fields ≠ [])
    (hreads : ∀ f ∈ fields, Reads readNumber f.2.1 f.2.2) (fuel : Nat)
    (hfuel : fields.length < fuel) (rest : List Char) :
    parseMembers readNumber fuel
        ([','].intercalate (fields.map fun f => quote f.1 ++ ':' :: f.2.1) ++ '}' :: rest) =
      some (fields.map fun f => (f.1, f.2.2), rest) := by
  induction fields generalizing fuel with
  | nil => exact absurd rfl hne
  | cons f fields ih =>
      obtain ⟨fuel, rfl⟩ := Nat.exists_eq_succ_of_ne_zero (Nat.ne_of_gt (Nat.zero_lt_of_lt hfuel))
      have hfuel' : fields.length < fuel := Nat.lt_of_succ_lt_succ hfuel
      obtain ⟨fuel, rfl⟩ := Nat.exists_eq_succ_of_ne_zero (Nat.ne_of_gt (Nat.zero_lt_of_lt hfuel'))
      obtain ⟨hf, hreads⟩ := List.forall_mem_cons.mp hreads
      rw [parseMembers]
      cases fields with
      | nil =>
          have hstops : Stops ('}' :: rest) := ⟨rest, .inr rfl⟩
          simp only [List.map_cons, List.map_nil, List.intercalate_singleton, List.append_assoc,
            List.cons_append, parseString_quote, Option.bind_some, hf fuel _ hstops,
            expect_self (show isSpace ':' = false from rfl),
            expect_self (show isSpace '}' = false from rfl),
            expect_ne (show isSpace '}' = false from rfl) (show '}' ≠ ',' by decide),
            Option.map_some]
      | cons g fields =>
          have hmore := ih (List.cons_ne_nil g fields) hreads (fuel + 1) hfuel'
          have hstops : ∀ t, Stops (',' :: t) := fun t => ⟨t, .inl rfl⟩
          simp only [List.map_cons, List.intercalate_cons_cons, List.append_assoc,
            List.cons_append, List.nil_append] at hmore ⊢
          simp only [parseString_quote, Option.bind_some, hf fuel _ (hstops _),
            expect_self (show isSpace ':' = false from rfl),
            expect_self (show isSpace ',' = false from rfl), hmore, Option.map_some]

theorem length_le_intercalate (pieces : List (List Char)) (h : ∀ p ∈ pieces, p ≠ []) :
    pieces.length ≤ ([','].intercalate pieces).length := by
  induction pieces with
  | nil => exact Nat.zero_le _
  | cons p pieces ih =>
      obtain ⟨hp, hpieces⟩ := List.forall_mem_cons.mp h
      have hpos := List.length_pos_of_ne_nil hp
      have hrest := ih hpieces
      cases pieces with
      | nil =>
          rw [List.intercalate_singleton, List.length_singleton]
          omega
      | cons q pieces =>
          rw [List.intercalate_cons_cons]
          simp only [List.length_append, List.length_cons, List.length_nil] at hrest ⊢
          omega

/-- Reading an object that was written gives its fields. -/
theorem parse_renderObject (fields : List (String × List Char × Json N)) (hne : fields ≠ [])
    (hreads : ∀ f ∈ fields, Reads readNumber f.2.1 f.2.2) :
    parse readNumber (renderObject (fields.map fun f => (f.1, f.2.1))) =
      some (.obj (fields.map fun f => (f.1, f.2.2))) := by
  have hlen := length_le_intercalate (fields.map fun f => quote f.1 ++ ':' :: f.2.1) (by
    intro p hp
    obtain ⟨f, -, rfl⟩ := List.mem_map.mp hp
    exact List.cons_ne_nil _ _)
  rw [List.length_map] at hlen
  have hmembers := parseMembers_render fields hne hreads
    (([','].intercalate (fields.map fun f => quote f.1 ++ ':' :: f.2.1)).length + 2)
    (by omega) []
  have hquote : ∃ body, [','].intercalate (fields.map fun f => quote f.1 ++ ':' :: f.2.1) =
      quoteMark :: body := by
    obtain ⟨f, fields, rfl⟩ := List.exists_cons_of_ne_nil hne
    cases fields with
    | nil => exact ⟨_, List.intercalate_singleton⟩
    | cons g fields =>
        rw [List.map_cons, List.map_cons, List.intercalate_cons_cons]
        exact ⟨_, rfl⟩
  obtain ⟨body, hbody⟩ := hquote
  have hrender : renderObject (fields.map fun f => (f.1, f.2.1)) =
      '{' :: ([','].intercalate (fields.map fun f => quote f.1 ++ ':' :: f.2.1) ++ ['}']) := by
    rw [renderObject, List.map_map]
    rfl
  rw [hbody] at hmembers
  rw [hrender, hbody, parse, parseValue]
  have hskip : skipSpace ('{' :: (quoteMark :: body ++ ['}'])) =
      '{' :: (quoteMark :: body ++ ['}']) := rfl
  have hexpect : expect '}' (quoteMark :: body ++ ['}']) = none :=
    expect_ne (by decide) (by decide) _
  have hfuel : ('{' :: (quoteMark :: body ++ ['}'])).length = (quoteMark :: body).length + 2 := by
    simp only [List.length_append, List.length_cons, List.length_nil]
  rw [hskip]
  simp only [hexpect, hfuel, hmembers]
  rfl

end Reading

end Json

end HulyGitlab
