import HulyGitlab.Lib.GfmTable

/-!
# Tables of the markdown serializer

`gfmNodes.table` writes a table with pipes, the text of each cell as it is.
The table can be read back when no cell holds a bare pipe or a line break.
-/

namespace HulyGitlab.MarkdownTables

open GfmTable

/-- A node of the markup, as far as the serializer of the tables looks into it. -/
inductive MarkupNode
  | mk (type : String) (text : Option String) (content : Option (List MarkupNode))

namespace MarkupNode

def type : MarkupNode → String
  | mk type _ _ => type

def text : MarkupNode → Option String
  | mk _ text _ => text

/-- `node.content ?? []`. -/
def children : MarkupNode → List MarkupNode
  | mk _ _ content => content.getD []

end MarkupNode

/-- `MarkdownState` of the markdown package: what it has written, and how it goes on. -/
structure MarkdownState (S : Type) where
  new : S
  renderInline : S → MarkupNode → S
  render : S → MarkupNode → S
  out : S → List Char

variable {S : Type} (state : MarkdownState S)

def cellText (cellNode : MarkupNode) : List Char :=
  trim (state.out (cellNode.children.foldl (fun cellState child =>
    if child.type = "paragraph" then state.renderInline cellState child
    else state.render cellState child) state.new))

def renderRow (cells : List MarkupNode) : List Char :=
  "| ".toList ++ List.intercalate " | ".toList (cells.map (cellText state)) ++ " |".toList

def separator (headerCells : List MarkupNode) : List Char :=
  '|' :: (headerCells.map fun _ => "---|".toList).flatten

/-- What is written for a table; nothing without rows. -/
def table (tableNode : MarkupNode) : Option (List Char) :=
  match tableNode.children with
  | [] => none
  | header :: bodyRows =>
      some (List.intercalate ['\n'] (renderRow state header.children ::
        separator header.children :: bodyRows.map fun row => renderRow state row.children))

/-- The texts of the cells, row by row. -/
def matrix (tableNode : MarkupNode) : List (List (List Char)) :=
  tableNode.children.map fun row => row.children.map (cellText state)

/-- What is written for the table is read as its matrix. -/
def Survives (tableNode : MarkupNode) : Prop :=
  ∀ text, table state tableNode = some text → readTable text = some (matrix state tableNode)

/-- Every row has a cell, and every text can stand in a cell. -/
def Tabular (tableNode : MarkupNode) : Prop :=
  ∀ row ∈ tableNode.children, row.children ≠ [] ∧
    ∀ cell ∈ row.children, Holds (cellText state cell)

section Trim

theorem isJsSpace_of_isSpace {c : Char} (h : isSpace c = true) : isJsSpace c = true := by
  have hspace : c = ' ' ∨ c = '\t' := of_decide_eq_true h
  obtain rfl | rfl := hspace <;> decide

/-- A trimmed text has no space at its ends. -/
theorem stripped_trim (s : List Char) : Stripped (trim s) := by
  constructor
  · cases h : trim s with
    | nil => rfl
    | cons c t =>
      obtain ⟨r, hr⟩ := List.rdropWhile_prefix isJsSpace (s.dropWhile isJsSpace)
      have hfront : s.dropWhile isJsSpace = c :: (t ++ r) := by
        rw [← hr, ← List.cons_append, ← h, trim]
      have hne : s.dropWhile isJsSpace ≠ [] := hfront ▸ List.cons_ne_nil _ _
      have hc := List.head_dropWhile_not isJsSpace hne
      simp only [hfront, List.head_cons] at hc
      refine List.dropWhile_cons_of_neg fun hspace => ?_
      rw [isJsSpace_of_isSpace hspace] at hc
      cases hc
  · rw [List.rdropWhile_eq_self_iff]
    exact fun hne hspace => List.rdropWhile_last_not _ _ hne (isJsSpace_of_isSpace hspace)

end Trim

/-- A row with a cell: each text stands between spaces and before a pipe. -/
theorem renderRow_eq {cells : List MarkupNode} (hne : cells ≠ []) :
    renderRow state cells =
      '|' :: (cells.map (cellText state)).flatMap fun text => ' ' :: (text ++ [' ', '|']) := by
  induction cells with
  | nil => exact absurd rfl hne
  | cons cell cells ih =>
    cases cells with
    | nil => simp [renderRow]
    | cons next cells =>
      have hleft : "| ".toList = ['|', ' '] := rfl
      have hright : " |".toList = [' ', '|'] := rfl
      have hbetween : " | ".toList = [' ', '|', ' '] := rfl
      have hrest := ih (List.cons_ne_nil next cells)
      rw [renderRow, hleft, hright, hbetween] at hrest
      have htail := (List.cons.inj hrest).2
      rw [List.map_cons, List.flatMap_cons, ← htail, renderRow, hleft, hright, hbetween,
        List.map_cons,
        List.intercalate_cons_of_ne_nil (List.map_eq_nil_iff.not.mpr (List.cons_ne_nil _ _))]
      simp

variable {state}

/-- No break in the texts, no break in the row. -/
theorem unbroken_renderRow {cells : List MarkupNode}
    (h : ∀ cell ∈ cells, Holds (cellText state cell)) :
    ∀ c ∈ renderRow state cells, isLineBreak c = false := by
  cases cells with
  | nil =>
    have hrow : renderRow state [] = "|  |".toList := rfl
    rw [hrow]
    exact unbroken_of_any rfl
  | cons cell cells =>
    have hpipe : isLineBreak '|' = false := by decide
    have hspace : isLineBreak ' ' = false := by decide
    rw [renderRow_eq state (List.cons_ne_nil cell cells)]
    intro c hc
    simp only [List.mem_cons, List.mem_flatMap, List.mem_append, List.not_mem_nil, or_false] at hc
    rcases hc with rfl | ⟨text, htext, rfl | hmem | rfl | rfl⟩
    · exact hpipe
    · exact hspace
    · obtain ⟨node, hnode, rfl⟩ := List.mem_map.mp htext
      exact (h node hnode).2 c hmem
    · exact hspace
    · exact hpipe

theorem separator_eq (headerCells : List MarkupNode) :
    separator headerCells =
      '|' :: (List.replicate headerCells.length "---|".toList).flatten := by
  rw [separator, List.map_const']

theorem unbroken_separator (headerCells : List MarkupNode) :
    ∀ c ∈ separator headerCells, isLineBreak c = false := by
  have hcolumn : ∀ c ∈ "---|".toList, isLineBreak c = false := unbroken_of_any rfl
  rw [separator_eq]
  intro c hc
  cases List.mem_cons.mp hc with
  | inl heq => exact heq ▸ by decide
  | inr hmem =>
    obtain ⟨column, hcol, hc⟩ := List.mem_flatten.mp hmem
    exact hcolumn c (List.eq_of_mem_replicate hcol ▸ hc)

/-- A row is read back when its texts can stand in cells. -/
theorem readRow_renderRow {cells : List MarkupNode} (hne : cells ≠ [])
    (h : ∀ cell ∈ cells, Holds (cellText state cell)) :
    readRow (renderRow state cells) = cells.map (cellText state) := by
  have hcells : cells.map (cellText state) ≠ [] := fun hnil => hne (List.map_eq_nil_iff.mp hnil)
  rw [renderRow_eq state hne]
  refine readRow_row hcells fun text htext => ?_
  obtain ⟨cell, hcell, rfl⟩ := List.mem_map.mp htext
  exact ⟨(h cell hcell).1, stripped_trim _⟩

/-- A row without cells is read as a row with an empty one. -/
theorem readRow_renderRow_nil : readRow (renderRow state []) = [[]] := by
  have hrow : renderRow state [] = "|  |".toList := rfl
  rw [hrow]
  decide

theorem unbroken_lines {header : MarkupNode} {bodyRows : List MarkupNode}
    (h : ∀ row ∈ header :: bodyRows, ∀ cell ∈ row.children, Holds (cellText state cell)) :
    ∀ line ∈ renderRow state header.children :: separator header.children ::
        bodyRows.map fun row => renderRow state row.children,
      ∀ c ∈ line, isLineBreak c = false := by
  intro line hline
  simp only [List.mem_cons, List.mem_map] at hline
  rcases hline with rfl | rfl | ⟨row, hrow, rfl⟩
  · exact unbroken_renderRow (h header List.mem_cons_self)
  · exact unbroken_separator _
  · exact unbroken_renderRow (h row (List.mem_cons_of_mem header hrow))

/-- What is read when every text can stand in a cell. -/
theorem readTable_table {header : MarkupNode} {bodyRows : List MarkupNode}
    (h : ∀ row ∈ header :: bodyRows, ∀ cell ∈ row.children, Holds (cellText state cell))
    {rows : List (List (List Char))}
    (hread : readTable (List.intercalate ['\n'] (renderRow state header.children ::
      separator header.children :: bodyRows.map fun row => renderRow state row.children)) =
        some rows) :
    rows = (header :: bodyRows).map fun row => readRow (renderRow state row.children) := by
  unfold readTable at hread
  rw [splitLines_intercalate (List.cons_ne_nil _ _) (unbroken_lines h)] at hread
  dsimp only at hread
  split_ifs at hread
  rw [← Option.some.inj hread, List.map_map]
  rfl

theorem survives_of_tabular {tableNode : MarkupNode} (h : Tabular state tableNode) :
    Survives state tableNode := by
  unfold Survives table matrix
  unfold Tabular at h
  cases hrows : tableNode.children with
  | nil => exact fun _ htext => by cases htext
  | cons header bodyRows =>
    rw [hrows] at h
    intro text htext
    obtain rfl := Option.some.inj htext
    have hrow : ∀ row ∈ header :: bodyRows,
        readRow (renderRow state row.children) = row.children.map (cellText state) :=
      fun row hrow => readRow_renderRow (h row hrow).1 (h row hrow).2
    have hseparator : readRow (separator header.children) =
        List.replicate header.children.length "---".toList := by
      rw [separator_eq, readRow_delimiters]
    rw [readTable_lines (unbroken_lines fun row hmem => (h row hmem).2),
      hrow header List.mem_cons_self, List.map_map, List.map_cons]
    · refine congrArg (fun rows => some (_ :: rows)) (List.map_congr_left fun row hmem => ?_)
      exact hrow row (List.mem_cons_of_mem header hmem)
    · rw [hseparator, hrow header List.mem_cons_self, List.length_replicate, List.length_map]
    · rw [hseparator, List.all_eq_true]
      exact fun cell hcell => List.eq_of_mem_replicate hcell ▸ by decide

/-- A table can be read back exactly when every row has a cell and every text of a cell is free of
bare pipes and line breaks. -/
theorem survives_iff (state : MarkdownState S) (tableNode : MarkupNode) :
    Survives state tableNode ↔ Tabular state tableNode := by
  refine ⟨fun hsurvives => ?_, survives_of_tabular⟩
  unfold Survives table matrix at hsurvives
  unfold Tabular
  cases hrows : tableNode.children with
  | nil => exact fun _ hrow => absurd hrow List.not_mem_nil
  | cons header bodyRows =>
    rw [hrows] at hsurvives
    have hread := hsurvives _ rfl
    have hholds : ∀ row ∈ header :: bodyRows, ∀ cell ∈ row.children,
        Holds (cellText state cell) := fun row hrow cell hcell =>
      holds_of_readTable hread _ (List.mem_map_of_mem hrow) _ (List.mem_map_of_mem hcell)
    have hsame := List.map_inj_left.mp (readTable_table hholds hread)
    refine fun row hrow => ⟨fun hnil => ?_, hholds row hrow⟩
    have hempty := hsame row hrow
    rw [hnil, readRow_renderRow_nil] at hempty
    cases hempty

/-- A table is shown as it is when it can be read back and its rows are as wide as its header. -/
theorem shown_iff (state : MarkdownState S) (tableNode : MarkupNode) :
    (∀ text, table state tableNode = some text →
        showTable text = some (matrix state tableNode)) ↔
      Tabular state tableNode ∧ ∀ header ∈ tableNode.children.head?,
        ∀ row ∈ tableNode.children, row.children.length = header.children.length := by
  cases hrows : tableNode.children with
  | nil =>
    have htable : table state tableNode = none := by rw [table, hrows]
    rw [htable]
    simp [Tabular, hrows]
  | cons header bodyRows =>
    have hmatrix : matrix state tableNode =
        (header :: bodyRows).map fun row => row.children.map (cellText state) := by
      rw [matrix, hrows]
    have htable : table state tableNode = some (List.intercalate ['\n']
        (renderRow state header.children :: separator header.children ::
          bodyRows.map fun row => renderRow state row.children)) := by rw [table, hrows]
    constructor
    · intro hshown
      obtain ⟨rows, hread, hfit⟩ := Option.map_eq_some_iff.mp (hshown _ htable)
      have hline : ∀ row ∈ header :: bodyRows, ∃ line ∈ rows,
          fit (rows.headD []).length line = row.children.map (cellText state) := by
        intro row hrow
        refine List.mem_map.mp ?_
        rw [hfit, hmatrix]
        exact List.mem_map_of_mem hrow
      have hwidth : ∀ row ∈ header :: bodyRows,
          row.children.length = (rows.headD []).length := by
        intro row hrow
        obtain ⟨line, -, hline⟩ := hline row hrow
        rw [← List.length_map (cellText state), ← hline, length_fit]
      have hholds : ∀ row ∈ header :: bodyRows, ∀ cell ∈ row.children,
          Holds (cellText state cell) := by
        intro row hrow cell hcell
        obtain ⟨line, hmem, hline⟩ := hline row hrow
        have hcells := holds_of_readTable hread line hmem
        exact holds_of_mem_fit hcells _ (hline ▸ List.mem_map_of_mem hcell)
      have hne : header.children ≠ [] := by
        intro hnil
        have hlen := hwidth header List.mem_cons_self
        rw [readTable_table hholds hread, List.map_cons, List.headD_cons, hnil,
          readRow_renderRow_nil] at hlen
        cases hlen
      refine ⟨fun row hrow => ?_, fun h hh row hrow => ?_⟩
      · rw [hrows] at hrow
        refine ⟨fun hnil => hne (List.length_eq_zero_iff.mp ?_), hholds row hrow⟩
        rw [hwidth header List.mem_cons_self, ← hwidth row hrow, hnil, List.length_nil]
      · obtain rfl := Option.some.inj hh
        rw [hwidth row hrow, hwidth _ List.mem_cons_self]
    · rintro ⟨htabular, hwidth⟩ text htext
      rw [showTable, survives_of_tabular htabular text htext, Option.map_some, hmatrix]
      refine congrArg some ((List.map_congr_left fun line hline => ?_).trans (List.map_id _))
      obtain ⟨row, hrow, rfl⟩ := List.mem_map.mp hline
      apply fit_of_length
      rw [List.map_cons, List.headD_cons, List.length_map, List.length_map]
      exact hwidth header rfl row hrow

/-- The text of the paragraph of a cell, as it is. -/
def plainState : MarkdownState (List Char) where
  new := []
  renderInline written paragraph :=
    written ++ paragraph.children.flatMap fun node => (node.text.getD "").toList
  render written _ := written
  out written := written

def cellWith (text : String) : MarkupNode :=
  .mk "tableCell" none (some [.mk "paragraph" none (some [.mk "text" (some text) none])])

/-- A pipe in the text of a cell makes two cells of it. -/
theorem not_survives_pipe :
    ¬ ∀ (S : Type) (state : MarkdownState S) (tableNode : MarkupNode),
      Survives state tableNode := by
  intro hall
  have hread := hall _ plainState (.mk "table" none (some [.mk "tableRow" none (some
    [cellWith "a|b", cellWith "c"])])) _ rfl
  exact absurd hread (by decide +kernel)

end HulyGitlab.MarkdownTables
