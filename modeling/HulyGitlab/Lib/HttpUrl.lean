import Mathlib.Data.List.DropRight
import Mathlib.Data.List.TakeWhile

/-!
# Origins of http URLs

The scheme, the host and the port that the URL standard reads from a text
with an `http` or `https` scheme. The parser of a host is a parameter. The
authority of a text is compared with that of a text it is a prefix of.
-/

namespace HulyGitlab.HttpUrl

inductive Scheme
  | http
  | https
  deriving DecidableEq

structure Origin where
  scheme : Scheme
  host : String
  port : Nat
  deriving DecidableEq

def Scheme.defaultPort : Scheme → Nat
  | .http => 80
  | .https => 443

/-- A C0 control or a space. -/
def isBlank (c : Char) : Bool := c.toNat ≤ 0x20

def isTabOrNewline (c : Char) : Bool := c = '\t' || c = '\n' || c = '\r'

def isSlash (c : Char) : Bool := c = '/' || c = '\\'

/-- What ends the authority of an http URL. -/
def isEnd (c : Char) : Bool := c = '/' || c = '\\' || c = '?' || c = '#'

def notEnd (c : Char) : Bool := !isEnd c

/-- Blanks are stripped from both ends, tabs and newlines everywhere. -/
def clean (s : List Char) : List Char :=
  ((s.dropWhile isBlank).rdropWhile isBlank).filter (!isTabOrNewline ·)

def schemeOf (name : List Char) : Option Scheme :=
  if name.map Char.toLower = "http".toList then some .http
  else if name.map Char.toLower = "https".toList then some .https
  else none

/-- The scheme, and what follows its colon. -/
def splitScheme (s : List Char) : Option (Scheme × List Char) :=
  match s.dropWhile (· ≠ ':') with
  | [] => none
  | _ :: rest => (schemeOf (s.takeWhile (· ≠ ':'))).map fun scheme => (scheme, rest)

/-- User information, host and port; any number of slashes may come before them. -/
def authority (rest : List Char) : List Char := (rest.dropWhile isSlash).takeWhile notEnd

/-- What follows the authority. -/
def afterAuthority (rest : List Char) : List Char :=
  (rest.dropWhile isSlash).dropWhile notEnd

/-- The host, and the port when there is a colon outside of brackets. -/
def splitHost (inBrackets : Bool) : List Char → List Char × Option (List Char)
  | [] => ([], none)
  | c :: cs =>
      if c = ':' ∧ inBrackets = false then ([], some cs)
      else
        let inside := if c = '[' then true else if c = ']' then false else inBrackets
        let more := splitHost inside cs
        (c :: more.1, more.2)

def parsePort (scheme : Scheme) : Option (List Char) → Option Nat
  | none => some scheme.defaultPort
  | some digits =>
      if digits = [] then some scheme.defaultPort
      else if digits.all Char.isDigit then
        let n := digits.foldl (fun n c => 10 * n + (c.toNat - '0'.toNat)) 0
        if n ≤ 65535 then some n else none
      else none

/-- What follows the last `@`, or the whole authority. -/
def afterUserinfo (s : List Char) : List Char := (s.reverse.takeWhile (· ≠ '@')).reverse

section Origin

variable (parseHost : String → Option String)

/-- The host and the port that an authority names. -/
def target (scheme : Scheme) (s : List Char) : Option Origin :=
  let parts := splitHost false (afterUserinfo s)
  if parts.1 = [] then none
  else
    match parseHost (String.ofList parts.1), parsePort scheme parts.2 with
    | some host, some port => some ⟨scheme, host, port⟩
    | _, _ => none

def origin (s : List Char) : Option Origin :=
  (splitScheme (clean s)).bind fun split => target parseHost split.1 (authority split.2)

end Origin

/-- The text without the blanks in front and without tabs and newlines. -/
def front (s : List Char) : List Char := (s.dropWhile isBlank).filter (!isTabOrNewline ·)

theorem isBlank_of_isTabOrNewline {c : Char} (h : isTabOrNewline c = true) : isBlank c = true := by
  simp only [isTabOrNewline, Bool.or_eq_true, decide_eq_true_eq] at h
  obtain (rfl | rfl) | rfl := h <;> decide

theorem not_isBlank_of_isEnd {c : Char} (h : isEnd c = true) : isBlank c = false := by
  simp only [isEnd, Bool.or_eq_true, decide_eq_true_eq] at h
  obtain ((rfl | rfl) | rfl) | rfl := h <;> decide

theorem not_isBlank_of_isSlash {c : Char} (h : isSlash c = true) : isBlank c = false := by
  simp only [isSlash, Bool.or_eq_true, decide_eq_true_eq] at h
  obtain rfl | rfl := h <;> decide

section Lists

variable {A : Type*} {p q : A → Bool}

/-- Dropping what satisfies `p` and removing what fails `q` commute when the latter satisfies `p`. -/
theorem dropWhile_filter_comm (h : ∀ a, q a = false → p a = true) (xs : List A) :
    (xs.filter q).dropWhile p = (xs.dropWhile p).filter q := by
  induction xs with
  | nil => rfl
  | cons a xs ih =>
    cases hp : p a with
    | true =>
      rw [List.dropWhile_cons_of_pos hp, ← ih]
      cases hq : q a with
      | true => rw [List.filter_cons_of_pos hq, List.dropWhile_cons_of_pos hp]
      | false => rw [List.filter_cons_of_neg (by simp [hq])]
    | false =>
      have hq : q a = true := by
        cases hq : q a with
        | true => rfl
        | false => exact absurd (h a hq) (by simp [hp])
      have hp' : ¬ p a = true := by simp [hp]
      rw [List.dropWhile_cons_of_neg hp', List.filter_cons_of_pos hq,
        List.dropWhile_cons_of_neg hp']

theorem rdropWhile_filter_comm (h : ∀ a, q a = false → p a = true) (xs : List A) :
    (xs.filter q).rdropWhile p = (xs.rdropWhile p).filter q := by
  unfold List.rdropWhile
  rw [← List.filter_reverse, dropWhile_filter_comm h, List.filter_reverse]

/-- An element that fails `p` stops `rdropWhile`. -/
theorem rdropWhile_append_cons {a : A} (h : p a = false) (xs ys : List A) :
    (xs ++ a :: ys).rdropWhile p = xs ++ a :: ys.rdropWhile p := by
  induction ys using List.reverseRecOn with
  | nil => exact List.rdropWhile_concat_neg p xs a (by simp [h])
  | append_singleton ys b ih =>
    rw [← List.cons_append, ← List.append_assoc]
    cases hb : p b with
    | true =>
      rw [List.rdropWhile_concat_pos p _ b hb, ih, List.rdropWhile_concat_pos p ys b hb]
    | false =>
      rw [List.rdropWhile_concat_neg p _ b (by simp [hb]),
        List.rdropWhile_concat_neg p ys b (by simp [hb])]
      simp

theorem rdropWhile_append_of_last {xs : List A} (h : ∀ a ∈ xs.getLast?, p a = false)
    (ys : List A) : (xs ++ ys).rdropWhile p = xs ++ ys.rdropWhile p := by
  induction xs using List.reverseRecOn with
  | nil => simp
  | append_singleton xs a _ =>
    have ha : p a = false := h a (by simp)
    rw [List.append_assoc, List.singleton_append, rdropWhile_append_cons ha, List.append_assoc,
      List.singleton_append]

theorem dropWhile_append_of_ne_nil {xs : List A} (h : xs.dropWhile p ≠ []) (ys : List A) :
    (xs ++ ys).dropWhile p = xs.dropWhile p ++ ys := by
  rw [List.dropWhile_append, if_neg (by simpa using h)]

end Lists

theorem clean_eq (s : List Char) : clean s = (front s).rdropWhile isBlank := by
  unfold clean front
  rw [rdropWhile_filter_comm]
  intro c hc
  exact isBlank_of_isTabOrNewline (by simpa using hc)

/-- A text with a scheme is a name, a colon and the rest. -/
theorem splitScheme_eq_some_iff {s rest : List Char} {scheme : Scheme} :
    splitScheme s = some (scheme, rest) ↔
      ∃ name, s = name ++ ':' :: rest ∧ ':' ∉ name ∧ schemeOf name = some scheme := by
  unfold splitScheme
  constructor
  · intro h
    cases hd : s.dropWhile (· ≠ ':') with
    | nil =>
      rw [hd] at h
      cases h
    | cons c tail =>
      rw [hd] at h
      obtain ⟨sch, hsch, heq⟩ := Option.map_eq_some_iff.mp h
      obtain ⟨rfl, rfl⟩ := Prod.mk.inj heq
      have hc : c = ':' := by
        have hhead := List.head?_dropWhile_not (fun x => decide (x ≠ ':')) s
        rw [hd] at hhead
        simpa using hhead
      refine ⟨s.takeWhile (· ≠ ':'), ?_, ?_, hsch⟩
      · calc s = s.takeWhile (· ≠ ':') ++ s.dropWhile (· ≠ ':') :=
            List.takeWhile_append_dropWhile.symm
          _ = s.takeWhile (· ≠ ':') ++ ':' :: tail := by rw [hd, hc]
      · intro hmem
        simpa using List.mem_takeWhile_imp hmem
  · rintro ⟨name, rfl, hname, hsch⟩
    have hall : ∀ c ∈ name, decide (c ≠ ':') = true := by
      intro c hc
      have hne : c ≠ ':' := fun e => hname (e ▸ hc)
      simpa using hne
    rw [List.dropWhile_append_of_pos hall, List.takeWhile_append_of_pos hall,
      List.dropWhile_cons_of_neg (by simp), List.takeWhile_cons_of_neg (by simp), List.append_nil,
      hsch]
    rfl

theorem splitScheme_append {s rest : List Char} {scheme : Scheme}
    (h : splitScheme s = some (scheme, rest)) (t : List Char) :
    splitScheme (s ++ t) = some (scheme, rest ++ t) := by
  obtain ⟨name, rfl, hname, hsch⟩ := splitScheme_eq_some_iff.mp h
  exact splitScheme_eq_some_iff.mpr ⟨name, by simp, hname, hsch⟩

theorem splitScheme_rdropWhile {s rest : List Char} {scheme : Scheme}
    (h : splitScheme s = some (scheme, rest)) :
    splitScheme (s.rdropWhile isBlank) = some (scheme, rest.rdropWhile isBlank) := by
  obtain ⟨name, rfl, hname, hsch⟩ := splitScheme_eq_some_iff.mp h
  rw [rdropWhile_append_cons (by decide)]
  exact splitScheme_eq_some_iff.mpr ⟨name, rfl, hname, hsch⟩

/-- Blanks at the end do not make the scheme. -/
theorem splitScheme_of_rdropWhile {s rest : List Char} {scheme : Scheme}
    (h : splitScheme (s.rdropWhile isBlank) = some (scheme, rest)) :
    ∃ rest', splitScheme s = some (scheme, rest') := by
  obtain ⟨t, ht⟩ := List.rdropWhile_prefix isBlank s
  rw [← ht]
  exact ⟨rest ++ t, splitScheme_append h t⟩

theorem front_append_slash (s : List Char) : front (s ++ ['/']) = front s ++ ['/'] := by
  unfold front
  rw [List.dropWhile_append]
  split
  · rename_i hnil
    rw [List.isEmpty_iff.mp hnil]
    decide
  · rw [List.filter_append]
    rfl

/-- A slash at the end is not part of the scheme. -/
theorem splitScheme_of_append_slash {s rest : List Char} {scheme : Scheme}
    (h : splitScheme (s ++ ['/']) = some (scheme, rest)) :
    ∃ rest', rest = rest' ++ ['/'] ∧ splitScheme s = some (scheme, rest') := by
  obtain ⟨name, heq, hname, hsch⟩ := splitScheme_eq_some_iff.mp h
  induction rest using List.reverseRecOn with
  | nil =>
    have hlast := congrArg List.getLast? heq
    simp at hlast
  | append_singleton rest' c _ =>
    rw [← List.cons_append, ← List.append_assoc] at heq
    obtain ⟨hs, hc⟩ := List.append_inj' heq rfl
    obtain rfl : '/' = c := by simpa using hc
    exact ⟨rest', rfl, splitScheme_eq_some_iff.mpr ⟨name, hs, hname, hsch⟩⟩

theorem front_append {s rest : List Char} {scheme : Scheme}
    (h : splitScheme (front s) = some (scheme, rest)) (t : List Char) :
    front (s ++ t) = front s ++ t.filter (!isTabOrNewline ·) := by
  have hne : s.dropWhile isBlank ≠ [] := by
    intro hnil
    unfold front at h
    rw [hnil] at h
    cases h
  unfold front
  rw [dropWhile_append_of_ne_nil hne, List.filter_append]

/-- The slashes, the authority and what ends it. -/
structure Parts (sl au tail : List Char) : Prop where
  slashes : ∀ c ∈ sl, isSlash c = true
  auth : ∀ c ∈ au, isEnd c = false
  first : ∀ c ∈ (au ++ tail).head?, isSlash c = false
  ended : ∀ c ∈ tail.head?, isEnd c = true

namespace Parts

variable {slashes auth tail : List Char}

theorem authority_eq (h : Parts slashes auth tail) :
    authority (slashes ++ (auth ++ tail)) = auth ∧
      afterAuthority (slashes ++ (auth ++ tail)) = tail := by
  have hdrop : (slashes ++ (auth ++ tail)).dropWhile isSlash = auth ++ tail := by
    rw [List.dropWhile_append_of_pos h.slashes]
    cases hrest : auth ++ tail with
    | nil => rfl
    | cons c more =>
      have hc : isSlash c = false := h.first c (by rw [hrest]; rfl)
      rw [List.dropWhile_cons_of_neg (by simp [hc])]
  have hauth : ∀ c ∈ auth, notEnd c = true := fun c hc => by simp [notEnd, h.auth c hc]
  unfold authority afterAuthority
  rw [hdrop, List.takeWhile_append_of_pos hauth, List.dropWhile_append_of_pos hauth]
  cases tail with
  | nil => exact ⟨List.append_nil auth, rfl⟩
  | cons c more =>
    have hc : ¬ notEnd c = true := by simp [notEnd, h.ended c rfl]
    rw [List.takeWhile_cons_of_neg hc, List.dropWhile_cons_of_neg hc]
    exact ⟨List.append_nil auth, rfl⟩

end Parts

theorem head?_dropWhile_not {p : Char → Bool} {xs : List Char} :
    ∀ c ∈ (xs.dropWhile p).head?, p c = false := by
  intro c hc
  have h := List.head?_dropWhile_not p xs
  rw [Option.mem_def.mp hc] at h
  simpa using h

/-- Every text has these parts. -/
theorem exists_parts (rest : List Char) :
    ∃ slashes, Parts slashes (authority rest) (afterAuthority rest) ∧
      rest = slashes ++ (authority rest ++ afterAuthority rest) := by
  have hsplit : authority rest ++ afterAuthority rest = rest.dropWhile isSlash :=
    List.takeWhile_append_dropWhile
  refine ⟨rest.takeWhile isSlash, ⟨fun c hc => List.mem_takeWhile_imp hc, fun c hc => ?_, ?_, ?_⟩,
    ?_⟩
  · have hnot : notEnd c = true := List.mem_takeWhile_imp hc
    simpa [notEnd] using hnot
  · rw [hsplit]
    exact head?_dropWhile_not
  · intro c hc
    have hnot : notEnd c = false := head?_dropWhile_not c hc
    simpa [notEnd] using hnot
  · rw [hsplit, List.takeWhile_append_dropWhile]

/-- An authority that has ended stays the same when the text goes on. -/
theorem authority_append_of_ended {rest : List Char} (h : afterAuthority rest ≠ [])
    (t : List Char) :
    authority (rest ++ t) = authority rest ∧ afterAuthority (rest ++ t) = afterAuthority rest ++ t := by
  obtain ⟨slashes, hparts, hrest⟩ := exists_parts rest
  obtain ⟨c, tail, hct⟩ := List.exists_cons_of_ne_nil h
  have hlong : Parts slashes (authority rest) (afterAuthority rest ++ t) := by
    refine ⟨hparts.slashes, hparts.auth, ?_, ?_⟩
    · have hfirst := hparts.first
      rw [hct] at hfirst ⊢
      cases hauth : authority rest with
      | nil => rw [hauth] at hfirst; exact hfirst
      | cons a more => rw [hauth] at hfirst; exact hfirst
    · have hended := hparts.ended
      rw [hct] at hended ⊢
      exact hended
  have heq : rest ++ t = slashes ++ (authority rest ++ (afterAuthority rest ++ t)) := by
    conv_lhs => rw [hrest]
    simp only [List.append_assoc]
  rw [heq]
  exact hlong.authority_eq

/-- An authority that has not ended goes on up to the first end. -/
theorem authority_append_of_open {rest : List Char} (h : afterAuthority rest = [])
    (ha : authority rest ≠ []) (t : List Char) :
    authority (rest ++ t) = authority rest ++ t.takeWhile notEnd ∧
      afterAuthority (rest ++ t) = t.dropWhile notEnd := by
  obtain ⟨slashes, hparts, hrest⟩ := exists_parts rest
  obtain ⟨a, more, ham⟩ := List.exists_cons_of_ne_nil ha
  have hlong : Parts slashes (authority rest ++ t.takeWhile notEnd)
      (t.dropWhile notEnd) := by
    refine ⟨hparts.slashes, fun c hc => ?_, ?_, fun c hc => ?_⟩
    · obtain hold | hnew := List.mem_append.mp hc
      · exact hparts.auth c hold
      · have hnot : notEnd c = true := List.mem_takeWhile_imp hnew
        simpa [notEnd] using hnot
    · have hfirst := hparts.first
      rw [ham] at hfirst ⊢
      exact hfirst
    · have hnot : notEnd c = false := head?_dropWhile_not c hc
      simpa [notEnd] using hnot
  have heq : rest ++ t = slashes ++ ((authority rest ++ t.takeWhile notEnd) ++
      t.dropWhile notEnd) := by
    conv_lhs => rw [hrest, h]
    rw [List.append_nil, List.append_assoc (authority rest), List.takeWhile_append_dropWhile,
      List.append_assoc]
  rw [heq]
  exact hlong.authority_eq

theorem authority_append_singleton_ne_nil {rest : List Char}
    (h : authority (rest ++ ['/']) ≠ []) : authority rest ≠ [] := by
  intro hnil
  by_cases hend : afterAuthority rest = []
  · have hslashes : rest.dropWhile isSlash = [] := by
      calc rest.dropWhile isSlash = authority rest ++ afterAuthority rest :=
            List.takeWhile_append_dropWhile.symm
        _ = [] := by rw [hnil, hend, List.append_nil]
    apply h
    unfold authority
    rw [List.dropWhile_append_of_pos (List.dropWhile_eq_nil_iff.mp hslashes)]
    decide
  · exact h ((authority_append_of_ended hend _).1.trans hnil)

theorem authority_rdropWhile_of_ended {rest : List Char} (h : afterAuthority rest ≠ []) :
    authority (rest.rdropWhile isBlank) = authority rest := by
  obtain ⟨slashes, hparts, hrest⟩ := exists_parts rest
  obtain ⟨c, tail, hct⟩ := List.exists_cons_of_ne_nil h
  have hc : isEnd c = true := hparts.ended c (by rw [hct]; rfl)
  have hshort : Parts slashes (authority rest) (c :: tail.rdropWhile isBlank) := by
    refine ⟨hparts.slashes, hparts.auth, ?_, fun a ha => ?_⟩
    · have hfirst := hparts.first
      rw [hct] at hfirst
      cases hauth : authority rest with
      | nil => rw [hauth] at hfirst; exact hfirst
      | cons a more => rw [hauth] at hfirst; exact hfirst
    · obtain rfl : c = a := by simpa using ha
      exact hc
  have heq : rest.rdropWhile isBlank =
      slashes ++ (authority rest ++ c :: tail.rdropWhile isBlank) := by
    conv_lhs => rw [hrest, hct, ← List.append_assoc,
      rdropWhile_append_cons (not_isBlank_of_isEnd hc)]
    rw [List.append_assoc]
  rw [heq]
  exact hshort.authority_eq.1

theorem authority_rdropWhile_of_open {rest : List Char} (h : afterAuthority rest = []) :
    authority (rest.rdropWhile isBlank) = (authority rest).rdropWhile isBlank := by
  obtain ⟨slashes, hparts, hrest⟩ := exists_parts rest
  have hpre : (authority rest).rdropWhile isBlank <+: authority rest :=
    List.rdropWhile_prefix isBlank _
  have hshort : Parts slashes ((authority rest).rdropWhile isBlank) [] := by
    refine ⟨hparts.slashes, fun c hc => hparts.auth c (hpre.subset hc), fun c hc => ?_,
      fun c hc => by cases hc⟩
    apply hparts.first
    obtain ⟨t, ht⟩ := hpre
    rw [List.append_nil] at hc
    obtain ⟨more, hmore⟩ : ∃ more, (authority rest).rdropWhile isBlank = c :: more :=
      List.head?_eq_some_iff.mp hc
    rw [← ht, hmore]
    rfl
  have hlast : ∀ c ∈ slashes.getLast?, isBlank c = false := fun c hc =>
    not_isBlank_of_isSlash (hparts.slashes c (List.mem_of_getLast? hc))
  have heq : rest.rdropWhile isBlank =
      slashes ++ ((authority rest).rdropWhile isBlank ++ []) := by
    conv_lhs => rw [hrest, h, List.append_nil, rdropWhile_append_of_last hlast]
    rw [List.append_nil]
  rw [heq]
  exact hshort.authority_eq.1

section Origin

variable (parseHost : String → Option String)

/-- The origin of a text whose authority has ended. -/
theorem origin_of_ended {s rest : List Char} {scheme : Scheme}
    (h : splitScheme (front s) = some (scheme, rest)) (hend : afterAuthority rest ≠ []) :
    origin parseHost s = target parseHost scheme (authority rest) := by
  unfold origin
  rw [clean_eq, splitScheme_rdropWhile h, Option.bind_some, authority_rdropWhile_of_ended hend]

/-- The origin of a text that is no more than its authority. -/
theorem origin_of_open {s rest : List Char} {scheme : Scheme}
    (h : splitScheme (front s) = some (scheme, rest)) (hopen : afterAuthority rest = []) :
    origin parseHost s = target parseHost scheme ((authority rest).rdropWhile isBlank) := by
  unfold origin
  rw [clean_eq, splitScheme_rdropWhile h, Option.bind_some, authority_rdropWhile_of_open hopen]

/-- The origin stays when a text goes on behind an authority that has ended. -/
theorem origin_append_of_ended {s rest : List Char} {scheme : Scheme}
    (h : splitScheme (front s) = some (scheme, rest)) (hend : afterAuthority rest ≠ [])
    (t : List Char) : origin parseHost (s ++ t) = target parseHost scheme (authority rest) := by
  obtain ⟨hauth, hafter⟩ := authority_append_of_ended hend (t.filter (!isTabOrNewline ·))
  have hsplit : splitScheme (front (s ++ t)) =
      some (scheme, rest ++ t.filter (!isTabOrNewline ·)) := by
    rw [front_append h, splitScheme_append h]
  rw [origin_of_ended parseHost hsplit (by simp [hafter, hend]), hauth]

/-- A text that goes on behind an authority that has not ended prolongs it. -/
theorem origin_append_of_open {s rest : List Char} {scheme : Scheme}
    (h : splitScheme (front s) = some (scheme, rest)) (hopen : afterAuthority rest = [])
    (ha : authority rest ≠ []) {t : List Char}
    (hend : afterAuthority (rest ++ t.filter (!isTabOrNewline ·)) ≠ []) :
    origin parseHost (s ++ t) = target parseHost scheme
      (authority rest ++ (t.filter (!isTabOrNewline ·)).takeWhile notEnd) := by
  have hsplit : splitScheme (front (s ++ t)) =
      some (scheme, rest ++ t.filter (!isTabOrNewline ·)) := by
    rw [front_append h, splitScheme_append h]
  rw [origin_of_ended parseHost hsplit hend, (authority_append_of_open hopen ha _).1]

theorem splitScheme_of_origin {s : List Char} {o : Origin} (h : origin parseHost s = some o) :
    ∃ scheme rest, splitScheme (front s) = some (scheme, rest) := by
  unfold origin at h
  rw [clean_eq] at h
  obtain ⟨split, hsplit, -⟩ := Option.bind_eq_some_iff.mp h
  obtain ⟨rest, hrest⟩ := splitScheme_of_rdropWhile hsplit
  exact ⟨split.1, rest, hrest⟩

end Origin

end HulyGitlab.HttpUrl
