import HulyGitlab.UserUi.SuggestionParser
import Mathlib.Data.List.Perm.Basic

/-!
# Blocks of suggestions in a note body

A note body is prose with suggestion blocks in it. The parser returns the
blocks as they were written, wherever a fenced block has a line of content: the
scan for its closing fence begins after the newline that such a fence needs.
-/

namespace HulyGitlab.SuggestionParser

open TextSearch

/-! ### Rendering -/

/-- A suggestion block, by the lines of its content. -/
inductive Block
  | gfm (range : Text) (lines : List Text)
  | legacy (lines : List Text)

/-- Lines with their ends. -/
def terminated (lines : List Text) : Text := lines.flatMap fun line => line ++ [newline]

namespace Block

def form : Block → Form
  | gfm _ _ => .gfm
  | legacy _ => .legacy

def lines : Block → List Text
  | gfm _ lines => lines
  | legacy lines => lines

def content (block : Block) : Text := List.intercalate [newline] block.lines

def text : Block → Text
  | gfm range lines => fence ++ (range ++ newline :: (terminated lines ++ ticks))
  | legacy lines => openMarker ++ newline :: (terminated lines ++ closeMarker)

end Block

/-- The text of blocks, each with the prose after it. -/
def render (lead : Text) : List (Block × Text) → Text
  | [] => lead
  | (block, prose) :: parts => lead ++ (block.text ++ render prose parts)

/-- The blocks with their places in a text whose lead begins at a position. -/
def placed (position : Nat) (lead : Text) : List (Block × Text) → List SuggestionBlock
  | [] => []
  | (block, prose) :: parts =>
      let startIndex := position + lead.length
      let endIndex := startIndex + block.text.length
      ⟨block.form, block.content, startIndex, endIndex⟩ :: placed endIndex prose parts

/-! ### Texts without fences and markers -/

/-- No line of the first text begins with a fence when the second follows. -/
def Fenceless : Bool → Text → Text → Prop
  | _, [], _ => True
  | lineStart, c :: text, after =>
      ¬ (lineStart = true ∧ ticks <+: c :: (text ++ after)) ∧
        Fenceless (isLineTerminator c) text after

/-- Whether a line begins after a text. -/
def lineStartAfter (lineStart : Bool) (text : Text) : Bool :=
  match text.getLast? with
  | none => lineStart
  | some c => isLineTerminator c

/-- No line begins with a fence, and no marker occurs. -/
structure Plain (text : Text) : Prop where
  fenceless : Fenceless true text []
  no_open : ¬ openMarker <:+: text
  no_close : ¬ closeMarker <:+: text

structure PlainLine (line : Text) : Prop extends Plain line where
  no_newline : newline ∉ line

/-- The range of a fence is free of markers and the contents are plain. -/
def Block.Sound : Block → Prop
  | .gfm range lines =>
      (newline ∉ range ∧ ¬ openMarker <:+: range ∧ ¬ closeMarker <:+: range) ∧
        ∀ line ∈ lines, PlainLine line
  | .legacy lines => ∀ line ∈ lines, PlainLine line

/-- The prose is plain, the blocks are sound, and each fence has a line for itself. -/
def Sound : Bool → Text → List (Block × Text) → Prop
  | _, lead, [] => Plain lead
  | lineStart, lead, (block, prose) :: parts =>
      Plain lead ∧ block.Sound ∧
        (block.form = .gfm → lineStartAfter lineStart lead = true ∧
          ∀ c ∈ (render prose parts).head?, isLineTerminator c = true) ∧
        Sound false prose parts

/-- A note body. -/
structure Note where
  lead : Text
  parts : List (Block × Text)
  sound : Sound true lead parts

namespace Note

def body (note : Note) : Text := render note.lead note.parts

def blocks (note : Note) : List SuggestionBlock := placed 0 note.lead note.parts

/-- The parser returns the blocks, and these do not overlap. -/
structure Inverts (note : Note) : Prop where
  perm : (parseSuggestions note.body).Perm note.blocks
  apart : (parseSuggestions note.body).Pairwise fun a b =>
    a.endIndex ≤ b.startIndex ∨ b.endIndex ≤ a.startIndex

/-- Every fenced block has a line of content. -/
def Filled (note : Note) : Prop :=
  ∀ part ∈ note.parts, part.1.form = .gfm → part.1.lines ≠ []

end Note

/-! ### What the fenced form skips -/

def tick : CodeUnit := 0x60

theorem eq_tick_of_mem {c : CodeUnit} (h : c ∈ ticks) : c = tick := by
  have hticks : ticks = List.replicate 3 tick := by decide
  rw [hticks] at h
  exact List.eq_of_mem_replicate h

namespace Fenceless

variable {lineStart : Bool} {s t after : Text}

theorem of_true (h : Fenceless true s after) (lineStart : Bool) : Fenceless lineStart s after := by
  cases s with
  | nil => trivial
  | cons c s => exact ⟨fun hboth => h.1 ⟨rfl, hboth.2⟩, h.2⟩

theorem of_not_mem (h : tick ∉ s) (lineStart : Bool) (after : Text) :
    Fenceless lineStart s after := by
  induction s generalizing lineStart with
  | nil => trivial
  | cons c s ih =>
    refine ⟨fun hboth => h ?_, ih (fun hmem => h (List.mem_cons_of_mem c hmem)) _⟩
    have hticks : ticks = tick :: [tick, tick] := by decide
    have hprefix := hboth.2
    rw [hticks] at hprefix
    rw [(List.cons_prefix_cons.mp hprefix).1]
    exact List.mem_cons_self

theorem lineStartAfter_cons (c : CodeUnit) (s : Text) :
    lineStartAfter lineStart (c :: s) = lineStartAfter (isLineTerminator c) s := by
  cases s with
  | nil => rfl
  | cons d s => rw [lineStartAfter, lineStartAfter, List.getLast?_cons_cons]; rfl

theorem append (hs : Fenceless lineStart s (t ++ after))
    (ht : Fenceless (lineStartAfter lineStart s) t after) :
    Fenceless lineStart (s ++ t) after := by
  induction s generalizing lineStart with
  | nil => exact ht
  | cons c s ih =>
    have hfirst : ¬ (lineStart = true ∧ ticks <+: c :: ((s ++ t) ++ after)) := by
      rw [List.append_assoc]
      exact hs.1
    rw [lineStartAfter_cons] at ht
    exact ⟨hfirst, ih hs.2 ht⟩

/-- A fence cannot begin in the text and end in what follows. -/
theorem before (h : Fenceless lineStart s [])
    (hend : after.head? ≠ some tick ∨ s.getLast? ≠ some tick) : Fenceless lineStart s after := by
  induction s generalizing lineStart with
  | nil => trivial
  | cons c s ih =>
    refine ⟨fun hboth => ?_, ?_⟩
    · have hprefix : ticks <+: (c :: s) ++ after := hboth.2
      obtain hin | ⟨r, hne, hticks, hr⟩ := prefix_append_cases hprefix
      · exact h.1 ⟨hboth.1, by rwa [List.append_nil]⟩
      · obtain ⟨d, r, rfl⟩ := List.exists_cons_of_ne_nil hne
        have hafter : after.head? = some tick := by
          have hd : d = tick := eq_tick_of_mem (hticks ▸ List.mem_append_right _ List.mem_cons_self)
          obtain ⟨rest, rfl⟩ := hr
          exact congrArg some hd
        have hlast : (c :: s).getLast? = some tick := by
          rw [List.getLast?_eq_some_getLast (List.cons_ne_nil c s)]
          refine congrArg some (eq_tick_of_mem ?_)
          rw [hticks]
          exact List.mem_append_left _ (List.getLast_mem _)
        exact hend.elim (· hafter) (· hlast)
    · cases s with
      | nil => trivial
      | cons d s =>
        rw [List.getLast?_cons_cons] at hend
        exact ih h.2 hend

end Fenceless

/-- No match of the opening fence begins in a text without fences. -/
theorem findOpen_skip {lineStart : Bool} {s after : Text} (h : Fenceless lineStart s after)
    (position : Nat) :
    findOpen lineStart (s ++ after) position =
      findOpen (lineStartAfter lineStart s) after (position + s.length) := by
  induction s generalizing lineStart position with
  | nil => rfl
  | cons c s ih =>
    have hfence : ticks <+: fence := by decide
    have hnone : (if lineStart then matchOpen (c :: (s ++ after)) position else none) = none := by
      split_ifs with hline
      · refine if_neg fun hprefix => h.1 ⟨hline, ?_⟩
        exact hfence.trans (List.isPrefixOf_iff_prefix.mp hprefix)
      · rfl
    rw [List.cons_append, findOpen, hnone]
    dsimp only
    rw [ih h.2, Fenceless.lineStartAfter_cons, List.length_cons]
    congr 1
    omega

/-- The opening line of a fenced block is a match. -/
theorem matchOpen_here {range : Text} (hrange : newline ∉ range) (rest : Text) (position : Nat) :
    matchOpen (fence ++ (range ++ newline :: rest)) position =
      some (position + fence.length + range.length + 1) := by
  have hfind : find [newline] (range ++ ([newline] ++ rest)) (position + fence.length) =
      some (position + fence.length + range.length) :=
    find_after (List.cons_ne_nil _ _) (Skips.of_not_mem hrange _) _
  rw [matchOpen, if_pos (List.isPrefixOf_iff_prefix.mpr (List.prefix_append _ _)),
    List.drop_left]
  exact congrArg (Option.map (· + 1)) hfind

theorem findOpen_here {range : Text} (hrange : newline ∉ range) (rest : Text) (position : Nat) :
    findOpen true (fence ++ (range ++ newline :: rest)) position =
      some (position, position + fence.length + range.length + 1) := by
  have hcons : fence = tick :: fence.tail := by decide
  rw [hcons, List.cons_append, findOpen, ← List.cons_append, ← hcons, if_pos rfl,
    matchOpen_here hrange]

/-! ### Content -/

theorem terminated_eq {lines : List Text} (h : lines ≠ []) :
    terminated lines = List.intercalate [newline] lines ++ [newline] := by
  induction lines with
  | nil => exact absurd rfl h
  | cons line lines ih =>
    cases lines with
    | nil => simp [terminated]
    | cons next lines =>
      have hrest := ih (List.cons_ne_nil next lines)
      rw [terminated] at hrest ⊢
      rw [List.flatMap_cons, hrest, List.intercalate_cons_cons]
      simp

theorem not_ticks_prefix {line : Text} (h : Fenceless true line []) (rest : Text) :
    ¬ ticks <+: line ++ newline :: rest := by
  intro hprefix
  obtain hin | ⟨r, hne, hticks, hr⟩ := prefix_append_cases hprefix
  · cases line with
    | nil => exact absurd (List.prefix_nil.mp hin) (by decide)
    | cons c line => exact h.1 ⟨rfl, by rwa [List.append_nil]⟩
  · obtain ⟨d, r, rfl⟩ := List.exists_cons_of_ne_nil hne
    have hd := eq_tick_of_mem (hticks ▸ List.mem_append_right line List.mem_cons_self)
    rw [(List.cons_prefix_cons.mp hr).1] at hd
    exact absurd hd (by decide)

/-- Lines of a plain content do not close a fenced block. -/
theorem skips_content {lines : List Text} (h : ∀ line ∈ lines, PlainLine line) (rest : Text) :
    Skips (newline :: ticks) (List.intercalate [newline] lines) (newline :: ticks ++ rest) := by
  induction lines with
  | nil => trivial
  | cons line lines ih =>
    have hline := h line List.mem_cons_self
    cases lines with
    | nil =>
      rw [List.intercalate_singleton]
      exact Skips.of_not_mem hline.no_newline _
    | cons next lines =>
      have hnext := h next (List.mem_cons_of_mem line List.mem_cons_self)
      have hrest := ih fun l hl => h l (List.mem_cons_of_mem line hl)
      rw [List.intercalate_cons_cons, List.append_assoc]
      refine Skips.append (Skips.of_not_mem hline.no_newline _) (Skips.append ?_ hrest)
      refine ⟨fun hprefix => ?_, trivial⟩
      -- the newline before a line of the content is followed by a fence
      have hticks := (List.cons_prefix_cons.mp hprefix).2
      have hsplit : ∃ after, List.intercalate [newline] (next :: lines) ++
          (newline :: ticks ++ rest) = next ++ newline :: after := by
        cases lines with
        | nil => exact ⟨ticks ++ rest, by rw [List.intercalate_singleton, List.cons_append]⟩
        | cons line lines =>
          refine ⟨List.intercalate [newline] (line :: lines) ++ (newline :: ticks ++ rest), ?_⟩
          rw [List.intercalate_cons_cons, List.append_assoc, List.append_assoc]
          rfl
      obtain ⟨after, hafter⟩ := hsplit
      rw [List.nil_append, hafter] at hticks
      exact not_ticks_prefix hnext.fenceless after hticks

/-- The closing fence of a block with content is found after the content. -/
theorem find_closing {lines : List Text} (hne : lines ≠ []) (h : ∀ line ∈ lines, PlainLine line)
    (rest : Text) (position : Nat) :
    find (newline :: ticks) (terminated lines ++ (ticks ++ rest)) position =
      some (position + (List.intercalate [newline] lines).length) := by
  have hsplit : terminated lines ++ (ticks ++ rest) =
      List.intercalate [newline] lines ++ (newline :: ticks ++ rest) := by
    rw [terminated_eq hne, List.append_assoc]
    rfl
  rw [hsplit]
  exact find_after (List.cons_ne_nil _ _) (skips_content h rest) position

theorem slice_append (before content after : Text) :
    slice (before ++ (content ++ after)) before.length (before.length + content.length) =
      content := by
  rw [slice, ← List.append_assoc, ← List.length_append, List.take_left, List.drop_left]

/-! ### What the legacy form skips -/

theorem skips_newline {a : CodeUnit} {p : Text} (h : newline ∉ a :: p) (rest : Text) :
    Skips (a :: p) [newline] rest := by
  refine Skips.of_not_mem (fun hmem => h ?_) rest
  rw [List.mem_singleton.mp hmem]
  exact List.mem_cons_self

theorem skips_terminated {a : CodeUnit} {p : Text} (hnewline : newline ∉ a :: p)
    {lines : List Text} (h : ∀ line ∈ lines, ¬ (a :: p) <:+: line) (rest : Text) :
    Skips (a :: p) (terminated lines) rest := by
  induction lines with
  | nil => trivial
  | cons line lines ih =>
    have hline : Skips (a :: p) line ([newline] ++ (terminated lines ++ rest)) :=
      Skips.of_stop (h line List.mem_cons_self) hnewline _
    have hrest := ih fun l hl => h l (List.mem_cons_of_mem line hl)
    rw [terminated, List.flatMap_cons, List.append_assoc]
    exact Skips.append hline (Skips.append (skips_newline hnewline _) hrest)

/-- A fenced block is passed over by the scan for markers. -/
theorem skips_gfm {range : Text} {lines : List Text} (h : (Block.gfm range lines).Sound)
    (rest : Text) : Skips openMarker (Block.gfm range lines).text rest := by
  have hopen : openMarker = 0x3C :: openMarker.tail := by decide
  have hnewline : newline ∉ openMarker := by decide
  obtain ⟨⟨-, hrange, -⟩, hlines⟩ := h
  have hfence : Skips openMarker fence
      ((range ++ newline :: (terminated lines ++ ticks)) ++ rest) := by
    rw [hopen]
    exact Skips.of_not_mem (by decide) _
  have hterminated : Skips openMarker (terminated lines) (ticks ++ rest) := by
    have hfree : ∀ line ∈ lines, ¬ openMarker <:+: line := fun line hl => (hlines line hl).no_open
    rw [hopen] at hnewline hfree ⊢
    exact skips_terminated hnewline hfree _
  have hticks : Skips openMarker ticks rest := by
    rw [hopen]
    exact Skips.of_not_mem (by decide) _
  have hbreak : Skips openMarker [newline] ((terminated lines ++ ticks) ++ rest) := by
    rw [hopen] at hnewline ⊢
    exact skips_newline hnewline _
  refine Skips.append hfence (Skips.append (Skips.of_stop hrange hnewline _) ?_)
  exact Skips.append hbreak (Skips.append hterminated hticks)

/-- The prose before a block, or at the end, is passed over by the scan for markers. -/
theorem skips_lead {lead : Text} (h : Plain lead) (parts : List (Block × Text)) :
    Skips openMarker lead (render [] parts) := by
  cases parts with
  | nil => exact Skips.of_end h.no_open
  | cons part parts =>
    obtain ⟨block, prose⟩ := part
    cases block with
    | gfm range lines =>
      have hfence : fence = tick :: fence.tail := by decide
      rw [render, Block.text, hfence]
      exact Skips.of_stop h.no_open (by decide) _
    | legacy lines =>
      rw [render, Block.text, List.nil_append, List.append_assoc]
      exact Skips.of_pattern (by decide) h.no_open _

theorem render_eq (lead : Text) (parts : List (Block × Text)) :
    render lead parts = lead ++ render [] parts := by
  cases parts with
  | nil => exact (List.append_nil lead).symm
  | cons part parts => rw [render, render, List.nil_append]

theorem fenceless_terminated {lines : List Text} (h : ∀ line ∈ lines, PlainLine line)
    (lineStart : Bool) (rest : Text) : Fenceless lineStart (terminated lines) rest := by
  induction lines generalizing lineStart with
  | nil => trivial
  | cons line lines ih =>
    have hline : Fenceless lineStart line ([newline] ++ (terminated lines ++ rest)) :=
      ((h line List.mem_cons_self).fenceless.of_true lineStart).before
        (.inl fun hhead => absurd (Option.some.inj hhead) (by decide))
    have hbreak : ∀ b, Fenceless b [newline] (terminated lines ++ rest) := fun b =>
      Fenceless.of_not_mem (by decide) b _
    have hrest := ih fun l hl => h l (List.mem_cons_of_mem line hl)
    rw [terminated, List.flatMap_cons, List.append_assoc]
    exact Fenceless.append hline (Fenceless.append (hbreak _) (hrest _))

/-- A legacy block is passed over by the scan for fences. -/
theorem fenceless_legacy {lines : List Text} (h : (Block.legacy lines).Sound) (lineStart : Bool)
    (rest : Text) : Fenceless lineStart (Block.legacy lines).text rest := by
  have hopen : ∀ b after, Fenceless b openMarker after := Fenceless.of_not_mem (by decide)
  have hbreak : ∀ b after, Fenceless b [newline] after := Fenceless.of_not_mem (by decide)
  have hclose : ∀ b after, Fenceless b closeMarker after := Fenceless.of_not_mem (by decide)
  exact Fenceless.append (hopen _ _) (Fenceless.append (hbreak _ _)
    (Fenceless.append (fenceless_terminated h _ _) (hclose _ _)))

/-- The prose before a block, or at the end, is passed over by the scan for fences. -/
theorem fenceless_lead {lineStart : Bool} {lead : Text} (h : Plain lead)
    {parts : List (Block × Text)} (hfits : ∀ part ∈ parts.head?, part.1.form = .gfm →
      lineStartAfter lineStart lead = true) :
    Fenceless lineStart lead (render [] parts) := by
  have hlead := h.fenceless.of_true lineStart
  cases parts with
  | nil => exact hlead
  | cons part parts =>
    obtain ⟨block, prose⟩ := part
    cases block with
    | gfm range lines =>
      refine hlead.before (.inr fun hlast => ?_)
      have hstart := hfits _ rfl rfl
      rw [lineStartAfter, hlast] at hstart
      have htick : isLineTerminator tick = true := hstart
      exact absurd htick (by decide)
    | legacy lines =>
      refine hlead.before (.inl ?_)
      have hopen : openMarker = 0x3C :: openMarker.tail := by decide
      rw [render, Block.text, hopen]
      exact fun hhead => absurd (Option.some.inj hhead) (by decide)

theorem execOpen_append (before rest : Text) :
    execOpen (before ++ rest) before.length =
      findOpen (lineStartAfter true before) rest before.length := by
  unfold execOpen
  rw [List.drop_left]
  congr 1
  rcases List.eq_nil_or_concat before with rfl | ⟨front, c, rfl⟩
  · rfl
  · rw [List.concat_eq_append, lineStartAfter, List.getLast?_concat, List.length_append,
      List.append_assoc]
    simp

/-! ### The scans of a note -/

theorem lineStartAfter_append (lineStart : Bool) (s t : Text) :
    lineStartAfter lineStart (s ++ t) = lineStartAfter (lineStartAfter lineStart s) t := by
  rcases List.eq_nil_or_concat t with rfl | ⟨front, c, rfl⟩
  · rw [List.append_nil]
    rfl
  · rw [List.concat_eq_append, ← List.append_assoc, lineStartAfter, lineStartAfter,
      List.getLast?_concat, List.getLast?_concat]

/-- No line begins right after a block. -/
theorem lineStartAfter_block (block : Block) (lineStart : Bool) :
    lineStartAfter lineStart block.text = false := by
  have hticks : ∀ b, lineStartAfter b ticks = false := by decide
  have hclose : ∀ b, lineStartAfter b closeMarker = false := by decide
  cases block with
  | gfm range lines =>
    rw [Block.text, lineStartAfter_append, lineStartAfter_append, Fenceless.lineStartAfter_cons,
      lineStartAfter_append, hticks]
  | legacy lines =>
    rw [Block.text, lineStartAfter_append, Fenceless.lineStartAfter_cons, lineStartAfter_append,
      hclose]

/-- A fenced block with content is found at the beginning of what is left. -/
theorem parseGfmFrom_block {range : Text} {lines : List Text} (hne : lines ≠ [])
    (h : (Block.gfm range lines).Sound) {before : Text} (hline : lineStartAfter true before = true)
    (rest : Text) :
    parseGfmFrom (before ++ ((Block.gfm range lines).text ++ rest)) before.length =
      ⟨.gfm, (Block.gfm range lines).content, before.length,
          before.length + (Block.gfm range lines).text.length⟩ ::
        parseGfmFrom (before ++ ((Block.gfm range lines).text ++ rest))
          (before.length + (Block.gfm range lines).text.length) := by
  obtain ⟨⟨hrange, -, -⟩, hlines⟩ := h
  obtain ⟨opening, hopening⟩ : ∃ opening, opening = before ++ (fence ++ (range ++ [newline])) :=
    ⟨_, rfl⟩
  have hlen : opening.length = before.length + fence.length + range.length + 1 := by
    rw [hopening]
    simp only [List.length_append, List.length_singleton]
    omega
  have hbody : (Block.gfm range lines).text ++ rest =
      fence ++ (range ++ newline :: (terminated lines ++ (ticks ++ rest))) := by
    simp [Block.text]
  have hsplit : before ++ ((Block.gfm range lines).text ++ rest) =
      opening ++ (terminated lines ++ (ticks ++ rest)) := by
    rw [hbody, hopening]
    simp
  have hopen : execOpen (before ++ ((Block.gfm range lines).text ++ rest)) before.length =
      some (before.length, opening.length) := by
    rw [execOpen_append, hline, hbody, findOpen_here hrange, hlen]
  have hclose : indexOf (newline :: ticks) (before ++ ((Block.gfm range lines).text ++ rest))
      opening.length = some (opening.length + (Block.gfm range lines).content.length) := by
    rw [hsplit, indexOf_append, find_closing hne hlines]
    rfl
  have hcontent : slice (before ++ ((Block.gfm range lines).text ++ rest)) opening.length
      (opening.length + (Block.gfm range lines).content.length) =
        (Block.gfm range lines).content := by
    have hafter : terminated lines ++ (ticks ++ rest) =
        (Block.gfm range lines).content ++ ([newline] ++ (ticks ++ rest)) := by
      rw [terminated_eq hne, List.append_assoc]
      rfl
    rw [hsplit, hafter]
    exact slice_append _ _ _
  have hend : opening.length + (Block.gfm range lines).content.length + 4 =
      before.length + (Block.gfm range lines).text.length := by
    have hticks : ticks.length = 3 := rfl
    rw [hlen, Block.text, terminated_eq hne]
    simp only [List.length_append, List.length_cons, List.length_nil, hticks, Block.content,
      Block.lines]
    omega
  rw [parseGfmFrom_of_some hopen hclose, hcontent, hend]

theorem parseGfmFrom_skip {before s after : Text}
    (h : Fenceless (lineStartAfter true before) s after) :
    parseGfmFrom (before ++ (s ++ after)) before.length =
      parseGfmFrom ((before ++ s) ++ after) (before ++ s).length := by
  have hexec : execOpen (before ++ (s ++ after)) before.length =
      execOpen (before ++ (s ++ after)) (before ++ s).length := by
    rw [execOpen_append, findOpen_skip h, ← List.append_assoc, execOpen_append,
      lineStartAfter_append, List.length_append]
  rw [List.append_assoc]
  exact parseGfmFrom_congr hexec

theorem parseGfmFrom_end (body : Text) : parseGfmFrom (body ++ []) body.length = [] :=
  parseGfmFrom_of_none (execOpen_append body [])

/-- The scan for fences returns the fenced blocks when each has a line of content. -/
theorem parseGfmFrom_render {parts : List (Block × Text)} {lead before : Text}
    (h : Sound (lineStartAfter true before) lead parts)
    (hfilled : ∀ part ∈ parts, part.1.form = .gfm → part.1.lines ≠ []) :
    parseGfmFrom (before ++ render lead parts) before.length =
      (placed before.length lead parts).filter fun block => block.form = .gfm := by
  induction parts generalizing lead before with
  | nil =>
    have hskip : parseGfmFrom (before ++ (lead ++ [])) before.length =
        parseGfmFrom ((before ++ lead) ++ []) (before ++ lead).length :=
      parseGfmFrom_skip (h.fenceless.of_true _)
    rw [parseGfmFrom_end, List.append_nil] at hskip
    exact hskip
  | cons part parts ih =>
    obtain ⟨block, prose⟩ := part
    obtain ⟨hlead, hblock, hfits, hrest⟩ := h
    have hfenceless : Fenceless (lineStartAfter true before) lead
        (render [] ((block, prose) :: parts)) := by
      refine fenceless_lead hlead fun part hpart hform => (hfits ?_).1
      obtain rfl := Option.some.inj hpart
      exact hform
    have hskip : parseGfmFrom (before ++ (lead ++ (block.text ++ render prose parts)))
        before.length = parseGfmFrom ((before ++ lead) ++ (block.text ++ render prose parts))
          (before ++ lead).length := parseGfmFrom_skip hfenceless
    have hprose : parseGfmFrom (((before ++ lead) ++ block.text) ++ render prose parts)
        ((before ++ lead) ++ block.text).length =
          (placed ((before ++ lead) ++ block.text).length prose parts).filter
            fun block => block.form = .gfm := by
      refine ih ?_ fun part hpart => hfilled part (List.mem_cons_of_mem _ hpart)
      rw [lineStartAfter_append, lineStartAfter_block]
      exact hrest
    rw [List.length_append, List.length_append, List.append_assoc] at hprose
    rw [render, hskip, placed]
    cases block with
    | gfm range lines =>
      have hline : lineStartAfter true (before ++ lead) = true := by
        rw [lineStartAfter_append]
        exact (hfits rfl).1
      have hne : lines ≠ [] := hfilled _ List.mem_cons_self rfl
      rw [parseGfmFrom_block hne hblock hline, List.length_append, hprose]
      rfl
    | legacy lines =>
      rw [parseGfmFrom_skip (fenceless_legacy hblock _ _), List.append_assoc, List.length_append,
        List.length_append, hprose]
      rfl

/-! ### The legacy form -/

/-- A legacy block is found at the beginning of what is left. -/
theorem parseLegacyFrom_block {lines : List Text} (h : (Block.legacy lines).Sound)
    (before rest : Text) :
    parseLegacyFrom (before ++ ((Block.legacy lines).text ++ rest)) before.length =
      ⟨.legacy, (Block.legacy lines).content, before.length,
          before.length + (Block.legacy lines).text.length⟩ ::
        parseLegacyFrom (before ++ ((Block.legacy lines).text ++ rest))
          (before.length + (Block.legacy lines).text.length) := by
  obtain ⟨opening, hopening⟩ : ∃ opening, opening = before ++ (openMarker ++ [newline]) := ⟨_, rfl⟩
  have hlen : opening.length = before.length + openMarker.length + 1 := by
    rw [hopening]
    simp only [List.length_append, List.length_singleton]
    omega
  have hbody : (Block.legacy lines).text ++ rest =
      openMarker ++ newline :: (terminated lines ++ (closeMarker ++ rest)) := by
    simp [Block.text]
  have hsplit : before ++ ((Block.legacy lines).text ++ rest) =
      opening ++ (terminated lines ++ (closeMarker ++ rest)) := by
    rw [hbody, hopening]
    simp
  have hopen : indexOf openMarker (before ++ ((Block.legacy lines).text ++ rest)) before.length =
      some before.length := by
    rw [indexOf_append, hbody, find_here (by decide)]
  have hstart : legacyContentStart (before ++ ((Block.legacy lines).text ++ rest)) before.length =
      opening.length := by
    have hnewline : (before ++ ((Block.legacy lines).text ++ rest))[before.length +
        openMarker.length]? = some newline := by
      rw [hbody, ← List.append_assoc, ← List.length_append, List.getElem?_append_right (le_refl _),
        Nat.sub_self]
      rfl
    rw [legacyContentStart, if_pos hnewline, hlen]
  have hclose : indexOf closeMarker (before ++ ((Block.legacy lines).text ++ rest))
      opening.length = some (opening.length + (terminated lines).length) := by
    have hmarker : closeMarker = 0x3E :: closeMarker.tail := by decide
    have hskips : Skips closeMarker (terminated lines) (closeMarker ++ rest) := by
      have hnewline : newline ∉ closeMarker := by decide
      have hfree : ∀ line ∈ lines, ¬ closeMarker <:+: line := fun line hl => (h line hl).no_close
      rw [hmarker] at hnewline hfree ⊢
      exact skips_terminated hnewline hfree _
    rw [hsplit, indexOf_append]
    exact find_after (by decide) hskips _
  have hbreak : (before ++ ((Block.legacy lines).text ++ rest))[opening.length +
      (terminated lines).length - 1]? = some newline := by
    -- the newline that ends the last line, or the one after the opening marker
    obtain ⟨front, hfront⟩ : ∃ front, opening ++ terminated lines = front ++ [newline] := by
      rcases eq_or_ne lines [] with rfl | hne
      · exact ⟨before ++ openMarker, by rw [hopening]; simp [terminated]⟩
      · exact ⟨opening ++ List.intercalate [newline] lines, by
          rw [terminated_eq hne, List.append_assoc]⟩
    have hindex : opening.length + (terminated lines).length - 1 = front.length := by
      rw [← List.length_append, hfront, List.length_append, List.length_singleton,
        Nat.add_sub_cancel]
    rw [hsplit, hindex, ← List.append_assoc, hfront, List.append_assoc,
      List.getElem?_append_right (le_refl _), Nat.sub_self]
    rfl
  have hcontent : slice (before ++ ((Block.legacy lines).text ++ rest)) opening.length
      (opening.length + (terminated lines).length - 1) = (Block.legacy lines).content := by
    rw [hsplit]
    rcases eq_or_ne lines [] with rfl | hne
    · refine List.drop_eq_nil_of_le ?_
      rw [List.length_take]
      exact (Nat.min_le_left _ _).trans (Nat.sub_le _ 1)
    · have hindex : opening.length + (terminated lines).length - 1 =
          opening.length + (List.intercalate [newline] lines).length := by
        rw [terminated_eq hne, List.length_append, List.length_singleton]
        rfl
      rw [hindex, terminated_eq hne, List.append_assoc]
      exact slice_append _ _ _
  have hend : opening.length + (terminated lines).length + closeMarker.length =
      before.length + (Block.legacy lines).text.length := by
    rw [hlen, Block.text]
    simp only [List.length_append, List.length_cons]
    omega
  have hclose' := hstart.symm ▸ hclose
  rw [parseLegacyFrom_of_some hopen hclose', legacyBlock, hstart, if_pos hbreak, hcontent, hend]

theorem parseLegacyFrom_skip {before s after : Text} (h : Skips openMarker s after) :
    parseLegacyFrom (before ++ (s ++ after)) before.length =
      parseLegacyFrom ((before ++ s) ++ after) (before ++ s).length := by
  have hindex : indexOf openMarker (before ++ (s ++ after)) before.length =
      indexOf openMarker (before ++ (s ++ after)) (before ++ s).length := by
    rw [indexOf_append, find_skip h, ← List.append_assoc, indexOf_append, List.length_append]
  rw [List.append_assoc]
  exact parseLegacyFrom_congr hindex

theorem parseLegacyFrom_end (body : Text) : parseLegacyFrom (body ++ []) body.length = [] := by
  refine parseLegacyFrom_of_none ?_
  rw [indexOf_append, find_nil (by decide)]

/-- The scan for markers returns the legacy blocks. -/
theorem parseLegacyFrom_render {parts : List (Block × Text)} {lead : Text} {lineStart : Bool}
    (h : Sound lineStart lead parts) (before : Text) :
    parseLegacyFrom (before ++ render lead parts) before.length =
      (placed before.length lead parts).filter fun block => ¬ block.form = .gfm := by
  induction parts generalizing lead before lineStart with
  | nil =>
    have hskip : parseLegacyFrom (before ++ (lead ++ [])) before.length =
        parseLegacyFrom ((before ++ lead) ++ []) (before ++ lead).length :=
      parseLegacyFrom_skip (Skips.of_end h.no_open)
    rw [parseLegacyFrom_end, List.append_nil] at hskip
    exact hskip
  | cons part parts ih =>
    obtain ⟨block, prose⟩ := part
    obtain ⟨hlead, hblock, -, hrest⟩ := h
    have hskips : Skips openMarker lead (block.text ++ render prose parts) :=
      skips_lead hlead ((block, prose) :: parts)
    have hprose := ih hrest ((before ++ lead) ++ block.text)
    rw [List.length_append, List.length_append, List.append_assoc] at hprose
    rw [render, parseLegacyFrom_skip hskips, placed]
    cases block with
    | gfm range lines =>
      rw [parseLegacyFrom_skip (skips_gfm hblock _), List.append_assoc, List.length_append,
        List.length_append, hprose]
      rfl
    | legacy lines =>
      rw [parseLegacyFrom_block hblock, List.length_append, hprose]
      rfl

/-! ### Places -/

/-- A result has the form and the content of a block of the body, and covers its text. -/
def Spans (body : Text) (found : SuggestionBlock) (block : Block) : Prop :=
  ∃ front rest, body = front ++ (block.text ++ rest) ∧
    found = ⟨block.form, block.content, front.length, front.length + block.text.length⟩

theorem Spans.slice_eq {body : Text} {found : SuggestionBlock} {block : Block}
    (h : Spans body found block) : slice body found.startIndex found.endIndex = block.text := by
  obtain ⟨front, rest, rfl, rfl⟩ := h
  exact slice_append front block.text rest

/-- The places are those of the blocks, one by one. -/
theorem placed_spans (before lead : Text) (parts : List (Block × Text)) :
    List.Forall₂ (fun found part => Spans (before ++ render lead parts) found part.1)
      (placed before.length lead parts) parts := by
  induction parts generalizing before lead with
  | nil => exact .nil
  | cons part parts ih =>
    obtain ⟨block, prose⟩ := part
    have hbody : before ++ render lead ((block, prose) :: parts) =
        (before ++ lead) ++ (block.text ++ render prose parts) := by
      rw [render, List.append_assoc]
    have hrest := ih ((before ++ lead) ++ block.text) prose
    rw [List.length_append, List.length_append, List.append_assoc, ← hbody] at hrest
    refine .cons ⟨before ++ lead, render prose parts, hbody, ?_⟩ hrest
    rw [List.length_append]

/-- Every block of a note has a place. -/
theorem exists_spans {body : Text} {found : List SuggestionBlock} {parts : List (Block × Text)}
    (h : List.Forall₂ (fun found part => Spans body found part.1) found parts)
    {part : Block × Text} (hpart : part ∈ parts) : ∃ block ∈ found, Spans body block part.1 := by
  induction h with
  | nil => exact absurd hpart List.not_mem_nil
  | cons hfirst _ ih =>
    cases List.mem_cons.mp hpart with
    | inl heq => exact ⟨_, List.mem_cons_self, heq ▸ hfirst⟩
    | inr hmem =>
      obtain ⟨block, hblock, hspans⟩ := ih hmem
      exact ⟨block, List.mem_cons_of_mem _ hblock, hspans⟩

theorem placed_le (position : Nat) (lead : Text) (parts : List (Block × Text)) :
    ∀ block ∈ placed position lead parts, position ≤ block.startIndex := by
  induction parts generalizing position lead with
  | nil => exact fun _ h => absurd h List.not_mem_nil
  | cons part parts ih =>
    intro block hblock
    cases List.mem_cons.mp hblock with
    | inl heq => exact heq ▸ Nat.le_add_right _ _
    | inr hmem =>
      have hle := ih _ _ block hmem
      omega

/-- Each place ends before the next one begins. -/
theorem placed_apart (position : Nat) (lead : Text) (parts : List (Block × Text)) :
    (placed position lead parts).Pairwise fun a b => a.endIndex ≤ b.startIndex := by
  induction parts generalizing position lead with
  | nil => exact .nil
  | cons part parts ih => exact .cons (placed_le _ _ parts) (ih _ _)

theorem Sound.block {parts : List (Block × Text)} {lineStart : Bool} {lead : Text}
    (h : Sound lineStart lead parts) : ∀ part ∈ parts, part.1.Sound := by
  induction parts generalizing lineStart lead with
  | nil => exact fun _ hpart => absurd hpart List.not_mem_nil
  | cons part parts ih =>
    obtain ⟨-, hblock, -, hrest⟩ := h
    intro other hother
    cases List.mem_cons.mp hother with
    | inl heq => exact heq ▸ hblock
    | inr hmem => exact ih hrest other hmem

namespace Note

variable {note : Note}

theorem parseSuggestions_body (hfilled : note.Filled) :
    parseSuggestions note.body =
      note.blocks.filter (fun block => ¬ block.form = .gfm) ++
        note.blocks.filter fun block => block.form = .gfm := by
  have hlegacy : parseLegacy note.body = note.blocks.filter fun block => ¬ block.form = .gfm :=
    parseLegacyFrom_render note.sound []
  have hgfm : parseGfm note.body = note.blocks.filter fun block => block.form = .gfm :=
    have hsound : Sound (lineStartAfter true []) note.lead note.parts := note.sound
    parseGfmFrom_render hsound hfilled
  rw [← hlegacy, ← hgfm, parseSuggestions]
  split_ifs with hempty
  · have hlegacyNil : parseLegacy [] = [] := parseLegacyFrom_end []
    have hgfmNil : parseGfm [] = [] := parseGfmFrom_end []
    rw [List.length_eq_zero_iff.mp hempty, hlegacyNil, hgfmNil]
    rfl
  · rfl

/-- Blocks with content are returned, each once. -/
theorem perm_of_filled (hfilled : note.Filled) :
    (parseSuggestions note.body).Perm note.blocks := by
  rw [parseSuggestions_body hfilled]
  have hperm := List.filter_append_perm (fun block : SuggestionBlock => block.form = .gfm)
    note.blocks
  simpa using List.perm_append_comm.trans hperm

theorem inverts_of_filled (hfilled : note.Filled) : note.Inverts := by
  have hperm := perm_of_filled hfilled
  refine ⟨hperm, (hperm.pairwise_iff Or.symm).mpr ?_⟩
  exact (placed_apart 0 note.lead note.parts).imp .inl

/-- A fenced block without content is not closed by its own fence. -/
theorem not_mem_parseGfm {range : Text} (hrange : newline ∉ range) {body : Text}
    {found : SuggestionBlock} (hspans : Spans body found (.gfm range [])) :
    found ∉ parseGfm body := by
  intro hmem
  obtain ⟨front, rest, rfl, rfl⟩ := hspans
  obtain ⟨contentStart, hmatch, hend⟩ := mem_parseGfmFrom hmem
  have hbody : (Block.gfm range []).text ++ rest =
      fence ++ (range ++ newline :: (ticks ++ rest)) := by
    simp [Block.text, terminated]
  have hlen : (Block.gfm range []).text.length = fence.length + range.length + 1 + 3 := by
    have hticks : ticks.length = 3 := rfl
    simp only [Block.text, terminated, List.flatMap_nil, List.nil_append, List.length_append,
      List.length_cons, hticks]
    omega
  have hopen : matchOpen (fence ++ (range ++ newline :: (ticks ++ rest))) front.length =
      some (front.length + fence.length + range.length + 1) :=
    matchOpen_here hrange _ _
  rw [List.drop_left, hbody, hopen] at hmatch
  obtain rfl := Option.some.inj hmatch
  rw [hlen] at hend
  dsimp only at hend
  omega

theorem filled_of_inverts (h : note.Inverts) : note.Filled := by
  intro part hpart hform hlines
  obtain ⟨block, prose⟩ := part
  cases block with
  | legacy lines => cases hform
  | gfm range lines =>
    obtain rfl : lines = [] := hlines
    obtain ⟨⟨hrange, -⟩, -⟩ := note.sound.block _ hpart
    obtain ⟨found, hfound, hspans⟩ := exists_spans (placed_spans [] note.lead note.parts) hpart
    have hgfm : found.form = .gfm := by
      obtain ⟨front, rest, -, rfl⟩ := hspans
      rfl
    have hmem : found ∈ parseLegacy note.body ++ parseGfm note.body := by
      have hin := h.perm.symm.subset hfound
      rw [parseSuggestions] at hin
      split_ifs at hin
      · exact absurd hin List.not_mem_nil
      · exact hin
    cases List.mem_append.mp hmem with
    | inl hlegacy =>
      rw [form_parseLegacyFrom hlegacy] at hgfm
      cases hgfm
    | inr hin => exact not_mem_parseGfm hrange hspans hin

/-- The parser returns the blocks of a note as they were written when no fenced block is empty. -/
theorem inverts_iff (note : Note) : note.Inverts ↔ note.Filled :=
  ⟨filled_of_inverts, inverts_of_filled⟩

theorem plain_nil : Plain [] where
  fenceless := trivial
  no_open h := absurd (List.infix_nil.mp h) (by decide)
  no_close h := absurd (List.infix_nil.mp h) (by decide)

/-- The suggestion to delete a line. -/
def deletion : Note where
  lead := []
  parts := [(.gfm [] [], [])]
  sound := ⟨plain_nil, ⟨⟨List.not_mem_nil, plain_nil.no_open, plain_nil.no_close⟩,
    fun _ hline => absurd hline List.not_mem_nil⟩,
    fun _ => ⟨rfl, fun _ hc => absurd hc (Option.not_mem_none _)⟩, plain_nil⟩

theorem not_inverts_deletion : ¬ ∀ note : Note, note.Inverts :=
  fun h => filled_of_inverts (h deletion) (.gfm [] [], []) List.mem_cons_self rfl rfl

end Note

end HulyGitlab.SuggestionParser
