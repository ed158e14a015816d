import HulyGitlab.Lib.TextSearch

/-!
# The parser of suggestion blocks

`parseSuggestions` scans a note body twice: for the fenced form by a regular
expression that begins at the start of a line, for the legacy form by its
markers. A text is a list of code units, so that positions count as in the
source.
-/

namespace HulyGitlab.SuggestionParser

open TextSearch

abbrev CodeUnit := UInt16

abbrev Text := List CodeUnit

def units (s : String) : Text := s.toList.map fun c => c.toNat.toUInt16

def newline : CodeUnit := 0xA

/-- The characters after which `^` matches. -/
def isLineTerminator (c : CodeUnit) : Bool := c ∈ ([0xA, 0xD, 0x2028, 0x2029] : Text)

def ticks : Text := units "```"

def fence : Text := units "```suggestion"

def openMarker : Text := units "<<<<<<< SUGGEST"

def closeMarker : Text := units ">>>>>>>> SUGGEST"

inductive Form
  | gfm
  | legacy
  deriving DecidableEq

structure SuggestionBlock where
  form : Form
  content : Text
  startIndex : Nat
  endIndex : Nat
  deriving DecidableEq

def slice (text : Text) (start stop : Nat) : Text := (text.take stop).drop start

/-! ### The two scans -/

/-- The end of a match of `openRe` at the beginning of a text: past the fence and its line. -/
def matchOpen (text : Text) (position : Nat) : Option Nat :=
  if fence.isPrefixOf text then
    (find [newline] (text.drop fence.length) (position + fence.length)).map (· + 1)
  else none

/-- The first match of `openRe` in a text that begins at a position. -/
def findOpen : Bool → Text → Nat → Option (Nat × Nat)
  | _, [], _ => none
  | lineStart, c :: text, position =>
      match if lineStart then matchOpen (c :: text) position else none with
      | some contentStart => some (position, contentStart)
      | none => findOpen (isLineTerminator c) text (position + 1)

/-- `openRe.exec` from `lastIndex`. -/
def execOpen (body : Text) (lastIndex : Nat) : Option (Nat × Nat) :=
  findOpen (lastIndex = 0 || (body[lastIndex - 1]?).any isLineTerminator) (body.drop lastIndex)
    lastIndex

theorem matchOpen_le {text : Text} {position contentStart : Nat}
    (h : matchOpen text position = some contentStart) :
    position + fence.length < contentStart ∧ contentStart ≤ position + text.length := by
  unfold matchOpen at h
  split_ifs at h with hfence
  obtain ⟨found, hfound, rfl⟩ := Option.map_eq_some_iff.mp h
  obtain ⟨hle, hend⟩ := find_le hfound
  have hlen := (List.isPrefixOf_iff_prefix.mp hfence).length_le
  rw [List.length_drop, List.length_singleton] at hend
  omega

theorem findOpen_le {lineStart : Bool} {text : Text} {position openStart contentStart : Nat}
    (h : findOpen lineStart text position = some (openStart, contentStart)) :
    position ≤ openStart ∧
      matchOpen (text.drop (openStart - position)) openStart = some contentStart ∧
      openStart < contentStart ∧ contentStart ≤ position + text.length := by
  induction text generalizing lineStart position with
  | nil => cases h
  | cons c text ih =>
    rw [findOpen] at h
    split at h
    · rename_i hmatch
      obtain ⟨rfl, rfl⟩ := Prod.mk.inj (Option.some.inj h)
      split_ifs at hmatch
      obtain ⟨hlt, hle⟩ := matchOpen_le hmatch
      refine ⟨Nat.le_refl _, ?_, by omega, hle⟩
      rw [Nat.sub_self, List.drop_zero]
      exact hmatch
    · obtain ⟨hle, hmatch, hlt, hend⟩ := ih h
      refine ⟨by omega, ?_, hlt, by rw [List.length_cons]; omega⟩
      have hsub : openStart - position = openStart - (position + 1) + 1 := by omega
      rw [hsub, List.drop_succ_cons]
      exact hmatch

theorem execOpen_le {body : Text} {lastIndex openStart contentStart : Nat}
    (h : execOpen body lastIndex = some (openStart, contentStart)) :
    lastIndex ≤ openStart ∧ matchOpen (body.drop openStart) openStart = some contentStart ∧
      openStart < contentStart ∧ contentStart ≤ body.length := by
  obtain ⟨hle, hmatch, hlt, hend⟩ := findOpen_le h
  rw [List.drop_drop, Nat.add_sub_cancel' hle] at hmatch
  have hlen := (matchOpen_le hmatch).2
  rw [List.length_drop] at hend hlen
  exact ⟨hle, hmatch, hlt, by omega⟩

/-- `parseGfm` from a position. -/
def parseGfmFrom (body : Text) (lastIndex : Nat) : List SuggestionBlock :=
  match _hopen : execOpen body lastIndex with
  | none => []
  | some (openStart, contentStart) =>
      match _hclose : indexOf (newline :: ticks) body contentStart with
      | none => parseGfmFrom body contentStart
      | some closeIdx =>
          ⟨.gfm, slice body contentStart closeIdx, openStart, closeIdx + 4⟩ ::
            parseGfmFrom body (closeIdx + 4)
termination_by body.length - lastIndex
decreasing_by
  · obtain ⟨hle, -, hlt, hend⟩ := execOpen_le _hopen
    omega
  · obtain ⟨hle, -, hlt, hend⟩ := execOpen_le _hopen
    obtain ⟨hle', hend'⟩ := indexOf_le (List.cons_ne_nil _ _) _hclose
    have hticks : (newline :: ticks).length = 4 := rfl
    omega

def parseGfm (body : Text) : List SuggestionBlock := parseGfmFrom body 0

/-- The content of a legacy block begins after its marker, and after a newline there. -/
def legacyContentStart (body : Text) (openIdx : Nat) : Nat :=
  let afterOpen := openIdx + openMarker.length
  if body[afterOpen]? = some newline then afterOpen + 1 else afterOpen

/-- A legacy block; a newline before the closing marker is not content. -/
def legacyBlock (body : Text) (openIdx closeIdx : Nat) : SuggestionBlock :=
  let contentEnd := if body[closeIdx - 1]? = some newline then closeIdx - 1 else closeIdx
  ⟨.legacy, slice body (legacyContentStart body openIdx) contentEnd, openIdx,
    closeIdx + closeMarker.length⟩

theorem le_legacyContentStart (body : Text) (openIdx : Nat) :
    openIdx + openMarker.length ≤ legacyContentStart body openIdx := by
  unfold legacyContentStart
  dsimp only
  split_ifs
  · exact Nat.le_succ _
  · exact Nat.le_refl _

/-- `parseLegacy` from a position. -/
def parseLegacyFrom (body : Text) (searchFrom : Nat) : List SuggestionBlock :=
  match _hopen : indexOf openMarker body searchFrom with
  | none => []
  | some openIdx =>
      match _hclose : indexOf closeMarker body (legacyContentStart body openIdx) with
      | none => []
      | some closeIdx =>
          legacyBlock body openIdx closeIdx ::
            parseLegacyFrom body (closeIdx + closeMarker.length)
termination_by body.length - searchFrom
decreasing_by
  have hcloseLen : closeMarker.length = 16 := rfl
  have hstart := le_legacyContentStart body openIdx
  obtain ⟨hle, hend⟩ := indexOf_le (by decide) _hopen
  obtain ⟨hle', hend'⟩ := indexOf_le (by decide) _hclose
  omega

def parseLegacy (body : Text) : List SuggestionBlock := parseLegacyFrom body 0

/-- `parseSuggestions`, for a string. -/
def parseSuggestions (body : Text) : List SuggestionBlock :=
  if body.length = 0 then [] else parseLegacy body ++ parseGfm body

/-! ### Their steps -/

section Steps

variable {body : Text}

theorem parseGfmFrom_of_none {lastIndex : Nat} (h : execOpen body lastIndex = none) :
    parseGfmFrom body lastIndex = [] := by
  rw [parseGfmFrom]
  split
  · rfl
  · rename_i hopen
    rw [h] at hopen
    cases hopen

theorem parseGfmFrom_of_some {lastIndex openStart contentStart closeIdx : Nat}
    (hopen : execOpen body lastIndex = some (openStart, contentStart))
    (hclose : indexOf (newline :: ticks) body contentStart = some closeIdx) :
    parseGfmFrom body lastIndex =
      ⟨.gfm, slice body contentStart closeIdx, openStart, closeIdx + 4⟩ ::
        parseGfmFrom body (closeIdx + 4) := by
  rw [parseGfmFrom]
  split
  · rename_i h
    rw [hopen] at h
    cases h
  · rename_i h
    rw [hopen] at h
    obtain ⟨rfl, rfl⟩ := Prod.mk.inj (Option.some.inj h)
    split
    · rename_i h
      rw [hclose] at h
      cases h
    · rename_i h
      rw [hclose] at h
      obtain rfl := Option.some.inj h
      rfl

theorem parseGfmFrom_of_open {lastIndex openStart contentStart : Nat}
    (hopen : execOpen body lastIndex = some (openStart, contentStart))
    (hclose : indexOf (newline :: ticks) body contentStart = none) :
    parseGfmFrom body lastIndex = parseGfmFrom body contentStart := by
  rw [parseGfmFrom]
  split
  · rename_i h
    rw [hopen] at h
    cases h
  · rename_i h
    rw [hopen] at h
    obtain ⟨rfl, rfl⟩ := Prod.mk.inj (Option.some.inj h)
    split
    · rfl
    · rename_i h
      rw [hclose] at h
      cases h

/-- What is found depends on the next match only. -/
theorem parseGfmFrom_congr {i j : Nat} (h : execOpen body i = execOpen body j) :
    parseGfmFrom body i = parseGfmFrom body j := by
  cases hj : execOpen body j with
  | none => rw [parseGfmFrom_of_none (h.trans hj), parseGfmFrom_of_none hj]
  | some found =>
    obtain ⟨openStart, contentStart⟩ := found
    cases hclose : indexOf (newline :: ticks) body contentStart with
    | none => rw [parseGfmFrom_of_open (h.trans hj) hclose, parseGfmFrom_of_open hj hclose]
    | some closeIdx =>
      rw [parseGfmFrom_of_some (h.trans hj) hclose, parseGfmFrom_of_some hj hclose]

/-- A fenced block begins with a match and ends past a fence that begins after the opening line. -/
theorem mem_parseGfmFrom {lastIndex : Nat} {block : SuggestionBlock}
    (h : block ∈ parseGfmFrom body lastIndex) :
    ∃ contentStart,
      matchOpen (body.drop block.startIndex) block.startIndex = some contentStart ∧
        contentStart + 4 ≤ block.endIndex := by
  induction hn : body.length - lastIndex using Nat.strongRecOn generalizing lastIndex with
  | ind n ih =>
    cases hopen : execOpen body lastIndex with
    | none =>
      rw [parseGfmFrom_of_none hopen] at h
      exact absurd h List.not_mem_nil
    | some found =>
      obtain ⟨openStart, contentStart⟩ := found
      obtain ⟨hle, hmatch, hlt, hend⟩ := execOpen_le hopen
      cases hclose : indexOf (newline :: ticks) body contentStart with
      | none =>
        rw [parseGfmFrom_of_open hopen hclose] at h
        exact ih (body.length - contentStart) (by omega) h rfl
      | some closeIdx =>
        obtain ⟨hle', -⟩ := indexOf_le (List.cons_ne_nil _ _) hclose
        rw [parseGfmFrom_of_some hopen hclose] at h
        cases List.mem_cons.mp h with
        | inl heq =>
          subst heq
          exact ⟨contentStart, hmatch, Nat.add_le_add_right hle' 4⟩
        | inr hrest => exact ih (body.length - (closeIdx + 4)) (by omega) hrest rfl

theorem parseLegacyFrom_of_none {searchFrom : Nat} (h : indexOf openMarker body searchFrom = none) :
    parseLegacyFrom body searchFrom = [] := by
  rw [parseLegacyFrom]
  split
  · rfl
  · rename_i hopen
    rw [h] at hopen
    cases hopen

theorem parseLegacyFrom_of_open {searchFrom openIdx : Nat}
    (hopen : indexOf openMarker body searchFrom = some openIdx)
    (hclose : indexOf closeMarker body (legacyContentStart body openIdx) = none) :
    parseLegacyFrom body searchFrom = [] := by
  rw [parseLegacyFrom]
  split
  · rfl
  · rename_i h
    rw [hopen] at h
    obtain rfl := Option.some.inj h
    split
    · rfl
    · rename_i h
      rw [hclose] at h
      cases h

theorem parseLegacyFrom_of_some {searchFrom openIdx closeIdx : Nat}
    (hopen : indexOf openMarker body searchFrom = some openIdx)
    (hclose : indexOf closeMarker body (legacyContentStart body openIdx) = some closeIdx) :
    parseLegacyFrom body searchFrom =
      legacyBlock body openIdx closeIdx ::
        parseLegacyFrom body (closeIdx + closeMarker.length) := by
  rw [parseLegacyFrom]
  split
  · rename_i h
    rw [hopen] at h
    cases h
  · rename_i h
    rw [hopen] at h
    obtain rfl := Option.some.inj h
    split
    · rename_i h
      rw [hclose] at h
      cases h
    · rename_i h
      rw [hclose] at h
      obtain rfl := Option.some.inj h
      rfl

/-- What is found depends on the next marker only. -/
theorem parseLegacyFrom_congr {i j : Nat}
    (h : indexOf openMarker body i = indexOf openMarker body j) :
    parseLegacyFrom body i = parseLegacyFrom body j := by
  cases hj : indexOf openMarker body j with
  | none => rw [parseLegacyFrom_of_none (h.trans hj), parseLegacyFrom_of_none hj]
  | some openIdx =>
    cases hclose : indexOf closeMarker body (legacyContentStart body openIdx) with
    | none => rw [parseLegacyFrom_of_open (h.trans hj) hclose, parseLegacyFrom_of_open hj hclose]
    | some closeIdx =>
      rw [parseLegacyFrom_of_some (h.trans hj) hclose, parseLegacyFrom_of_some hj hclose]

theorem form_parseLegacyFrom {searchFrom : Nat} {block : SuggestionBlock}
    (h : block ∈ parseLegacyFrom body searchFrom) : block.form = .legacy := by
  induction hn : body.length - searchFrom using Nat.strongRecOn generalizing searchFrom with
  | ind n ih =>
    cases hopen : indexOf openMarker body searchFrom with
    | none =>
      rw [parseLegacyFrom_of_none hopen] at h
      exact absurd h List.not_mem_nil
    | some openIdx =>
      cases hclose : indexOf closeMarker body (legacyContentStart body openIdx) with
      | none =>
        rw [parseLegacyFrom_of_open hopen hclose] at h
        exact absurd h List.not_mem_nil
      | some closeIdx =>
        have hcloseLen : closeMarker.length = 16 := rfl
        have hstart := le_legacyContentStart body openIdx
        obtain ⟨hle, -⟩ := indexOf_le (by decide) hopen
        obtain ⟨hle', hend⟩ := indexOf_le (by decide) hclose
        rw [parseLegacyFrom_of_some hopen hclose] at h
        cases List.mem_cons.mp h with
        | inl heq => exact heq ▸ rfl
        | inr hrest =>
          exact ih (body.length - (closeIdx + closeMarker.length)) (by omega) hrest rfl

end Steps

end HulyGitlab.SuggestionParser
