import HulyGitlab.Lib.JsString
import Mathlib.Data.List.Basic

/-!
# Tables of GitHub Flavored Markdown

A table is read line by line: a header, a delimiter row with as many columns,
and the rows of the body. A row is split at its unescaped pipes, and the spaces
around a cell do not count. No cell can hold a bare pipe or a line break.
-/

namespace HulyGitlab.GfmTable

def isLineBreak (c : Char) : Bool := c = '\n' ∨ c = '\r'

/-- The lines of a text; a carriage return and the newline after it are one break. -/
def splitLines : List Char → List (List Char)
  | [] => [[]]
  | '\r' :: '\n' :: rest => [] :: splitLines rest
  | c :: rest =>
      if isLineBreak c then [] :: splitLines rest else (splitLines rest).modifyHead (c :: ·)

/-- The parts between the pipes, except pipes after a backslash. -/
def splitPipes : List Char → List (List Char)
  | [] => [[]]
  | '\\' :: c :: rest => (splitPipes rest).modifyHead fun part => '\\' :: c :: part
  | c :: rest => if c = '|' then [] :: splitPipes rest else (splitPipes rest).modifyHead (c :: ·)

/-- A pipe that a backslash does not escape. -/
def hasBarePipe : List Char → Bool
  | [] => false
  | '\\' :: _ :: rest => hasBarePipe rest
  | c :: rest => c = '|' || hasBarePipe rest

def isSpace (c : Char) : Bool := c = ' ' ∨ c = '\t'

def strip (s : List Char) : List Char := (s.dropWhile isSpace).rdropWhile isSpace

/-- The cells of a row, with or without pipes at its ends. -/
def readRow (line : List Char) : List (List Char) :=
  let parts := splitPipes (strip line)
  let parts := if parts.head? = some [] then parts.tail else parts
  let parts := if parts.getLast? = some [] then parts.dropLast else parts
  parts.map strip

/-- Hyphens, with an optional colon at either end. -/
def isDelimiter (cell : List Char) : Bool :=
  let cell := if cell.head? = some ':' then cell.tail else cell
  let cell := if cell.getLast? = some ':' then cell.dropLast else cell
  cell ≠ [] ∧ cell.all (· = '-')

/-- The rows of a table, the header first. -/
def readTable (text : List Char) : Option (List (List (List Char))) :=
  match splitLines text with
  | header :: delimiters :: body =>
      if (readRow delimiters).length = (readRow header).length ∧
          (readRow delimiters).all isDelimiter then
        some (readRow header :: body.map readRow)
      else none
  | _ => none

/-- A row of the body gets the width of the header: cells are added or ignored. -/
def fit (width : Nat) (row : List (List Char)) : List (List Char) :=
  row.take width ++ List.replicate (width - row.length) []

/-- The table as it is shown. -/
def showTable (text : List Char) : Option (List (List (List Char))) :=
  (readTable text).map fun rows => rows.map (fit (rows.headD []).length)

/-- What can stand in a cell. -/
def Holds (cell : List Char) : Prop :=
  hasBarePipe cell = false ∧ ∀ c ∈ cell, isLineBreak c = false

instance (cell : List Char) : Decidable (Holds cell) := inferInstanceAs (Decidable (_ ∧ _))

/-! ### Lines -/

theorem unbroken_of_any {line : List Char} (h : line.any isLineBreak = false) :
    ∀ c ∈ line, isLineBreak c = false := fun c hc =>
  Bool.eq_false_iff.mpr (List.any_eq_false.mp h c hc)

theorem splitLines_append {line : List Char} (h : ∀ c ∈ line, isLineBreak c = false)
    (rest : List Char) : splitLines (line ++ '\n' :: rest) = line :: splitLines rest := by
  induction line with
  | nil => simp [splitLines, isLineBreak]
  | cons c line ih =>
    have hc := h c List.mem_cons_self
    have hne : c ≠ '\r' := by
      rintro rfl
      exact absurd hc (by decide)
    have hrest := ih fun d hd => h d (List.mem_cons_of_mem c hd)
    rw [List.cons_append, splitLines, hc, if_neg Bool.false_ne_true, hrest, List.modifyHead_cons]
    exact fun _ hr _ => hne hr

theorem splitLines_of_unbroken {line : List Char} (h : ∀ c ∈ line, isLineBreak c = false) :
    splitLines line = [line] := by
  induction line with
  | nil => rfl
  | cons c line ih =>
    have hc := h c List.mem_cons_self
    have hne : c ≠ '\r' := by
      rintro rfl
      exact absurd hc (by decide)
    have hrest := ih fun d hd => h d (List.mem_cons_of_mem c hd)
    rw [splitLines, hc, if_neg Bool.false_ne_true, hrest, List.modifyHead_cons]
    exact fun _ hr _ => hne hr

/-- Lines without breaks are read back from their join. -/
theorem splitLines_intercalate {lines : List (List Char)} (hne : lines ≠ [])
    (h : ∀ line ∈ lines, ∀ c ∈ line, isLineBreak c = false) :
    splitLines (List.intercalate ['\n'] lines) = lines := by
  induction lines with
  | nil => exact absurd rfl hne
  | cons line lines ih =>
    have hline := h line List.mem_cons_self
    cases lines with
    | nil =>
      rw [List.intercalate_singleton]
      exact splitLines_of_unbroken hline
    | cons next lines =>
      rw [List.intercalate_cons_cons, List.append_assoc, List.singleton_append,
        splitLines_append hline,
        ih (List.cons_ne_nil _ _) fun l hl => h l (List.mem_cons_of_mem line hl)]

/-- A part that grows at its front, or a part after it. -/
theorem mem_modifyHead {A : Type} {f : A → A} {a : A} {parts : List A}
    (h : a ∈ parts.modifyHead f) : a ∈ parts ∨ ∃ b ∈ parts, a = f b := by
  cases parts with
  | nil => exact absurd h List.not_mem_nil
  | cons b parts =>
    rw [List.modifyHead_cons] at h
    cases List.mem_cons.mp h with
    | inl heq => exact .inr ⟨b, List.mem_cons_self, heq⟩
    | inr hmem => exact .inl (List.mem_cons_of_mem b hmem)

theorem unbroken_of_mem_splitLines {text line : List Char} (h : line ∈ splitLines text) :
    ∀ c ∈ line, isLineBreak c = false := by
  induction text using splitLines.induct generalizing line with
  | case1 =>
    obtain rfl := List.mem_singleton.mp h
    exact fun c hc => absurd hc List.not_mem_nil
  | case2 rest ih =>
    rw [splitLines] at h
    cases List.mem_cons.mp h with
    | inl heq => exact fun c hc => absurd (heq ▸ hc) List.not_mem_nil
    | inr hmem => exact ih hmem
  | case3 d rest hnot hd ih =>
    rw [splitLines, if_pos hd] at h
    · cases List.mem_cons.mp h with
      | inl heq => exact fun c hc => absurd (heq ▸ hc) List.not_mem_nil
      | inr hmem => exact ih hmem
    · exact hnot
  | case4 d rest hnot hd ih =>
    rw [splitLines, if_neg hd] at h
    · obtain hmem | ⟨part, hpart, rfl⟩ := mem_modifyHead h
      · exact ih hmem
      · intro c hc
        cases List.mem_cons.mp hc with
        | inl heq => exact heq ▸ Bool.eq_false_iff.mpr hd
        | inr hmem => exact ih hpart c hmem
    · exact hnot

/-! ### Cells -/

/-- A cell and a space before a pipe end a part. -/
theorem splitPipes_append {cell : List Char} (h : hasBarePipe cell = false) (rest : List Char) :
    splitPipes (cell ++ ' ' :: '|' :: rest) = (cell ++ [' ']) :: splitPipes rest := by
  induction cell using hasBarePipe.induct with
  | case1 => simp [splitPipes]
  | case2 c cell ih =>
    rw [hasBarePipe] at h
    rw [List.cons_append, List.cons_append, splitPipes, ih h, List.modifyHead_cons]
    rfl
  | case3 c cell hnot ih =>
    rw [hasBarePipe, Bool.or_eq_false_iff, decide_eq_false_iff_not] at h
    · by_cases hend : c = '\\' ∧ cell = []
      · obtain ⟨rfl, rfl⟩ := hend
        simp [splitPipes]
      · rw [List.cons_append, splitPipes, if_neg h.1, ih h.2, List.modifyHead_cons]
        · rfl
        · intro d tail hc htail
          cases cell with
          | nil => exact hend ⟨hc, rfl⟩
          | cons e cell => exact hnot e cell hc rfl
    · exact hnot

theorem hasBarePipe_of_mem_splitPipes {line part : List Char} (h : part ∈ splitPipes line) :
    hasBarePipe part = false := by
  induction line using splitPipes.induct generalizing part with
  | case1 =>
    obtain rfl := List.mem_singleton.mp h
    rfl
  | case2 c rest ih =>
    rw [splitPipes] at h
    obtain hmem | ⟨tail, htail, rfl⟩ := mem_modifyHead h
    · exact ih hmem
    · rw [hasBarePipe]
      exact ih htail
  | case3 rest hnot ih =>
    rw [splitPipes, if_pos rfl] at h
    · cases List.mem_cons.mp h with
      | inl heq => rw [heq, hasBarePipe]
      | inr hmem => exact ih hmem
    · exact hnot
  | case4 c rest hnot hc ih =>
    rw [splitPipes, if_neg hc] at h
    · obtain hmem | ⟨tail, htail, rfl⟩ := mem_modifyHead h
      · exact ih hmem
      · -- a backslash is the last character of its part only at the end of the line
        by_cases hback : c = '\\'
        · cases rest with
          | nil =>
            obtain rfl := List.mem_singleton.mp htail
            rw [hback]
            rfl
          | cons d rest => exact absurd rfl (hnot d rest hback)
        · rw [hasBarePipe, ih htail, Bool.or_false, decide_eq_false_iff_not]
          · exact hc
          · exact fun _ _ he _ => hback he
    · exact hnot

theorem mem_of_mem_splitPipes {line part : List Char} (h : part ∈ splitPipes line) :
    ∀ c ∈ part, c ∈ line := by
  induction line using splitPipes.induct generalizing part with
  | case1 =>
    obtain rfl := List.mem_singleton.mp h
    exact fun c hc => hc
  | case2 c rest ih =>
    rw [splitPipes] at h
    obtain hmem | ⟨tail, htail, rfl⟩ := mem_modifyHead h
    · exact fun d hd => List.mem_cons_of_mem _ (List.mem_cons_of_mem _ (ih hmem d hd))
    · exact fun d hd => List.cons_subset_cons _ (List.cons_subset_cons _ (ih htail)) hd
  | case3 rest hnot ih =>
    rw [splitPipes, if_pos rfl] at h
    · cases List.mem_cons.mp h with
      | inl heq => exact fun d hd => absurd (heq ▸ hd) List.not_mem_nil
      | inr hmem => exact fun d hd => List.mem_cons_of_mem _ (ih hmem d hd)
    · exact hnot
  | case4 c rest hnot hc ih =>
    rw [splitPipes, if_neg hc] at h
    · obtain hmem | ⟨tail, htail, rfl⟩ := mem_modifyHead h
      · exact fun d hd => List.mem_cons_of_mem _ (ih hmem d hd)
      · exact fun d hd => List.cons_subset_cons _ (ih htail) hd
    · exact hnot

/-- More text does not take a bare pipe away. -/
theorem hasBarePipe_append {s : List Char} (h : hasBarePipe s = true) (t : List Char) :
    hasBarePipe (s ++ t) = true := by
  induction s using hasBarePipe.induct with
  | case1 => cases h
  | case2 c s ih =>
    rw [hasBarePipe] at h
    rw [List.cons_append, List.cons_append, hasBarePipe]
    exact ih h
  | case3 c s hnot ih =>
    rw [hasBarePipe, Bool.or_eq_true, decide_eq_true_iff] at h
    · by_cases hend : c = '\\' ∧ s = []
      · obtain ⟨rfl, rfl⟩ := hend
        exact absurd h (by decide)
      · rw [List.cons_append, hasBarePipe, Bool.or_eq_true, decide_eq_true_iff]
        · exact h.imp id ih
        · intro d tail hc htail
          cases s with
          | nil => exact hend ⟨hc, rfl⟩
          | cons e s => exact hnot e s hc rfl
    · exact hnot

theorem hasBarePipe_dropWhile (s : List Char) :
    hasBarePipe (s.dropWhile isSpace) = hasBarePipe s := by
  induction s with
  | nil => rfl
  | cons c s ih =>
    cases hc : isSpace c with
    | false => rw [List.dropWhile_cons_of_neg (by simp [hc])]
    | true =>
      have hspace : c = ' ' ∨ c = '\t' := of_decide_eq_true hc
      have hplain : hasBarePipe (c :: s) = hasBarePipe s := by
        rw [hasBarePipe]
        · obtain rfl | rfl := hspace <;> rfl
        · rintro _ _ rfl _
          exact absurd hspace (by decide)
      rw [List.dropWhile_cons_of_pos hc, ih, hplain]

theorem hasBarePipe_strip {s : List Char} (h : hasBarePipe s = false) :
    hasBarePipe (strip s) = false := by
  obtain ⟨t, ht⟩ := List.rdropWhile_prefix isSpace (s.dropWhile isSpace)
  rw [← hasBarePipe_dropWhile, ← ht] at h
  by_contra hbare
  rw [strip] at hbare
  rw [hasBarePipe_append (Bool.not_eq_false _ ▸ hbare) t] at h
  cases h

theorem strip_subset (s : List Char) : strip s ⊆ s := fun _ hc =>
  (List.dropWhile_suffix isSpace).subset ((List.rdropWhile_prefix isSpace _).subset hc)

/-- Only such cells are read. -/
theorem holds_of_mem_readRow {line cell : List Char} (hline : ∀ c ∈ line, isLineBreak c = false)
    (h : cell ∈ readRow line) : Holds cell := by
  obtain ⟨part, hpart, rfl⟩ := List.mem_map.mp h
  have hparts : part ∈ splitPipes (strip line) := by
    split_ifs at hpart
    · exact List.mem_of_mem_tail (List.dropLast_subset _ hpart)
    · exact List.mem_of_mem_tail hpart
    · exact List.dropLast_subset _ hpart
    · exact hpart
  refine ⟨hasBarePipe_strip (hasBarePipe_of_mem_splitPipes hparts), fun c hc => hline c ?_⟩
  exact strip_subset line (mem_of_mem_splitPipes hparts c (strip_subset part hc))

theorem holds_of_readTable {text : List Char} {rows : List (List (List Char))}
    (h : readTable text = some rows) : ∀ row ∈ rows, ∀ cell ∈ row, Holds cell := by
  unfold readTable at h
  split at h
  · rename_i header delimiters body hlines
    have hheader : header ∈ splitLines text := hlines ▸ List.mem_cons_self
    have hbody : ∀ line ∈ body, line ∈ splitLines text := fun line hline =>
      hlines ▸ List.mem_cons_of_mem _ (List.mem_cons_of_mem _ hline)
    split_ifs at h
    obtain rfl := Option.some.inj h
    intro row hrow cell hcell
    cases List.mem_cons.mp hrow with
    | inl heq => exact holds_of_mem_readRow (unbroken_of_mem_splitLines hheader) (heq ▸ hcell)
    | inr hmem =>
      obtain ⟨line, hline, rfl⟩ := List.mem_map.mp hmem
      exact holds_of_mem_readRow (unbroken_of_mem_splitLines (hbody line hline)) hcell
  · cases h

theorem length_fit (width : Nat) (row : List (List Char)) : (fit width row).length = width := by
  rw [fit, List.length_append, List.length_take, List.length_replicate]
  omega

theorem fit_of_length {width : Nat} {row : List (List Char)} (h : row.length = width) :
    fit width row = row := by
  rw [fit, List.take_of_length_le h.le, h, Nat.sub_self, List.replicate_zero, List.append_nil]

theorem holds_of_mem_fit {width : Nat} {row : List (List Char)} (h : ∀ cell ∈ row, Holds cell) :
    ∀ cell ∈ fit width row, Holds cell := by
  intro cell hcell
  cases List.mem_append.mp hcell with
  | inl hmem => exact h cell (List.mem_of_mem_take hmem)
  | inr hmem =>
    obtain rfl := List.eq_of_mem_replicate hmem
    exact ⟨rfl, fun c hc => absurd hc List.not_mem_nil⟩

/-! ### Rows -/

/-- No space or tab at either end. -/
structure Stripped (cell : List Char) : Prop where
  front : cell.dropWhile isSpace = cell
  back : cell.rdropWhile isSpace = cell

theorem strip_padded {cell : List Char} (h : Stripped cell) :
    strip (' ' :: (cell ++ [' '])) = cell := by
  rw [strip, List.dropWhile_cons_of_pos (by decide)]
  cases cell with
  | nil => rfl
  | cons a s =>
    have ha : ¬ isSpace a = true := by
      intro ha
      have hfront := h.front
      rw [List.dropWhile_cons_of_pos ha] at hfront
      have hlen := (List.dropWhile_suffix isSpace (l := s)).length_le
      rw [hfront, List.length_cons] at hlen
      omega
    rw [List.cons_append, List.dropWhile_cons_of_neg ha, ← List.cons_append,
      List.rdropWhile_concat_pos _ _ _ (by decide), h.back]

/-- The text of a row after its first pipe: each cell between spaces and before a pipe. -/
theorem splitPipes_row {cells : List (List Char)}
    (h : ∀ cell ∈ cells, hasBarePipe cell = false) :
    splitPipes (cells.flatMap fun cell => ' ' :: (cell ++ [' ', '|'])) =
      (cells.map fun cell => ' ' :: (cell ++ [' '])) ++ [[]] := by
  induction cells with
  | nil => rfl
  | cons cell cells ih =>
    have hcell : hasBarePipe (' ' :: cell) = false := by
      rw [hasBarePipe, h cell List.mem_cons_self]
      · rfl
      · exact fun _ _ he _ => absurd he (by decide)
    have hpart := splitPipes_append hcell
      (cells.flatMap fun cell => ' ' :: (cell ++ [' ', '|']))
    rw [ih fun c hc => h c (List.mem_cons_of_mem cell hc)] at hpart
    rw [List.flatMap_cons, List.map_cons, List.cons_append, List.append_assoc]
    exact hpart

/-- A row that begins and ends with a pipe. -/
theorem readRow_of_parts {line rest : List Char} {parts : List (List Char)}
    (hend : '|' :: line = rest ++ ['|']) (hsplit : splitPipes line = parts ++ [[]]) :
    readRow ('|' :: line) = parts.map strip := by
  have hstrip : strip ('|' :: line) = '|' :: line := by
    rw [strip, List.dropWhile_cons_of_neg (by decide), hend,
      List.rdropWhile_concat_neg _ _ _ (by decide)]
  have hparts : splitPipes ('|' :: line) = [] :: (parts ++ [[]]) := by
    rw [splitPipes, if_pos rfl, hsplit]
    exact fun _ _ he _ => absurd he (by decide)
  unfold readRow
  rw [hstrip, hparts]
  simp only [List.head?_cons, if_pos, List.tail_cons, List.getLast?_concat, List.dropLast_concat]

/-- A row of cells between pipes is read back. -/
theorem readRow_row {cells : List (List Char)} (hne : cells ≠ [])
    (h : ∀ cell ∈ cells, hasBarePipe cell = false ∧ Stripped cell) :
    readRow ('|' :: cells.flatMap fun cell => ' ' :: (cell ++ [' ', '|'])) = cells := by
  obtain ⟨front, last, rfl⟩ := (List.eq_nil_or_concat cells).resolve_left hne
  rw [List.concat_eq_append] at h ⊢
  have hend : '|' :: (front ++ [last]).flatMap (fun cell => ' ' :: (cell ++ [' ', '|'])) =
      ('|' :: (front.flatMap (fun cell => ' ' :: (cell ++ [' ', '|'])) ++
        ' ' :: (last ++ [' ']))) ++ ['|'] := by simp
  rw [readRow_of_parts hend (splitPipes_row fun cell hcell => (h cell hcell).1), List.map_map]
  exact (List.map_congr_left fun cell hcell => strip_padded (h cell hcell).2).trans (List.map_id _)

/-- The text of a delimiter row after its first pipe. -/
theorem splitPipes_delimiters (n : Nat) :
    splitPipes (List.replicate n "---|".toList).flatten =
      List.replicate n "---".toList ++ [[]] := by
  induction n with
  | zero => rfl
  | succ n ih =>
    have hrow : "---|".toList ++ (List.replicate n "---|".toList).flatten =
        '-' :: '-' :: '-' :: '|' :: (List.replicate n "---|".toList).flatten := rfl
    rw [List.replicate_succ, List.flatten_cons, hrow, List.replicate_succ, List.cons_append, ← ih]
    simp [splitPipes]

theorem readRow_delimiters (n : Nat) :
    readRow ('|' :: (List.replicate n "---|".toList).flatten) =
      List.replicate n "---".toList := by
  have hend : ∃ rest, '|' :: (List.replicate n "---|".toList).flatten = rest ++ ['|'] := by
    cases n with
    | zero => exact ⟨[], rfl⟩
    | succ n =>
      refine ⟨'|' :: ((List.replicate n "---|".toList).flatten ++ "---".toList), ?_⟩
      rw [List.replicate_succ', List.flatten_append]
      simp
  obtain ⟨rest, hend⟩ := hend
  rw [readRow_of_parts hend (splitPipes_delimiters n), List.map_replicate]
  rfl

/-- A table of such rows is read back. -/
theorem readTable_lines {header delimiters : List Char} {body : List (List Char)}
    (hlines : ∀ line ∈ header :: delimiters :: body, ∀ c ∈ line, isLineBreak c = false)
    (hwidth : (readRow delimiters).length = (readRow header).length)
    (hdelimiters : (readRow delimiters).all isDelimiter = true) :
    readTable (List.intercalate ['\n'] (header :: delimiters :: body)) =
      some (readRow header :: body.map readRow) := by
  unfold readTable
  rw [splitLines_intercalate (List.cons_ne_nil _ _) hlines]
  dsimp only
  rw [if_pos ⟨hwidth, hdelimiters⟩]

end HulyGitlab.GfmTable
