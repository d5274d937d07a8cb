import Keel.Foundation.Segments
import Keel.Foundation.Utf8
import Keel.Ui.MarkdownEvents

/-! # CommonMark documents, line by line

What the block builder relies on in the markdown parser. A document is cut into lines,
and its lines into top-level blocks, each further line reopening only the last block.
The events of a block depend on its own lines and on the link reference definitions of
the whole document, and its ranges on where it stands.

The tree of a document is then laid out block by block.
-/

namespace Keel

open List Utf8

namespace Markdown

/-- A line goes on up to a line feed, a carriage return, or one after the other. -/
def continuesLine (line : List Char) (c : Char) : Bool :=
  match line.getLast? with
  | some '\n' => false
  | some '\r' => c = '\n'
  | _ => true

def lines : Segmentation Char := .greedy continuesLine

/-- The block structure of a flavour of CommonMark. -/
structure CommonMark (Definition : Type) where
  /-- The top-level blocks of the lines of a document. -/
  blocks : Segmentation (List Char)
  /-- The link reference definitions a block holds, also those in its containers. -/
  definitions : List (List Char) → List Definition
  /-- The events of a block under the definitions of its document, with ranges that
  count from its first line. -/
  render : List Definition → List (List Char) → Cursor
  topLevel : ∀ references block, render references block = [] ∨
    TopLevel ((render references block).map Prod.fst)
  /-- A block that defines nothing starts at a character of its first line. -/
  starts : ∀ references line rest event range inner, definitions (line :: rest) = [] →
    render references (line :: rest) = (event, range) :: inner →
    ∃ before c after, line = before ++ c :: after ∧ range.start = byteLength before

namespace CommonMark

variable {Definition : Type} (commonMark : CommonMark Definition)

def blocksOf (source : List Char) : List (List (List Char)) :=
  commonMark.blocks.cut (lines.cut source)

theorem flatten_blocksOf (source : List Char) :
    (commonMark.blocksOf source).flatten.flatten = source := by
  rw [blocksOf, commonMark.blocks.flatten_cut, lines.flatten_cut]

/-- The definitions anywhere in a document. -/
def definitionsOf (source : List Char) : List Definition :=
  (commonMark.blocksOf source).flatMap commonMark.definitions

/-- The events of blocks in a row, from a byte offset on. -/
def place (references : List Definition) : Nat → List (List (List Char)) → List Cursor
  | _, [] => []
  | offset, block :: rest =>
    (commonMark.render references block).map (shiftEvent offset) ::
      place references (offset + byteLength block.flatten) rest

def events (source : List Char) : Cursor :=
  (commonMark.place (commonMark.definitionsOf source) 0 (commonMark.blocksOf source)).flatten

section Layout

variable (isAlphanumeric : Char → Bool)

/-- The top-level blocks built from blocks in a row, from a byte offset on. -/
def layout (references : List Definition) : Nat → List (List (List Char)) → List TopBlock
  | _, [] => []
  | offset, block :: rest =>
    (groupBlocks isAlphanumeric (commonMark.render references block)).map
        (TopBlock.shift offset) ++
      layout references (offset + byteLength block.flatten) rest

theorem flatMap_place (references : List Definition) (offset : Nat)
    (blocks : List (List (List Char))) :
    (commonMark.place references offset blocks).flatMap (groupBlocks isAlphanumeric) =
      commonMark.layout isAlphanumeric references offset blocks := by
  induction blocks generalizing offset with
  | nil => rfl
  | cons block rest ih =>
    rw [place, layout, flatMap_cons, ih,
      groupBlocks_shift isAlphanumeric (commonMark.topLevel references block)]

variable {references : List Definition} {offset : Nat} {blocks : List (List (List Char))}

theorem topLevel_of_mem_place :
    ∀ group ∈ commonMark.place references offset blocks,
      group = [] ∨ TopLevel (group.map Prod.fst) := by
  induction blocks generalizing offset with
  | nil => exact fun group hgroup => nomatch hgroup
  | cons block rest ih =>
    rw [place]
    refine forall_mem_cons.mpr ⟨?_, ih⟩
    rw [map_map, map_eq_nil_iff]
    exact commonMark.topLevel references block

theorem parseFull_events (source : List Char) :
    (parseFull isAlphanumeric commonMark.events source).blocks =
      commonMark.layout isAlphanumeric (commonMark.definitionsOf source) 0
        (commonMark.blocksOf source) := by
  rw [← flatMap_place]
  exact parseTopBlocks_flatten isAlphanumeric commonMark.topLevel_of_mem_place _ [] le_rfl

theorem layout_append (references : List Definition) (offset : Nat)
    (front back : List (List (List Char))) :
    commonMark.layout isAlphanumeric references offset (front ++ back) =
      commonMark.layout isAlphanumeric references offset front ++
        commonMark.layout isAlphanumeric references
          (offset + byteLength front.flatten.flatten) back := by
  induction front generalizing offset with
  | nil => simp [layout]
  | cons block rest ih =>
    rw [cons_append, layout, layout, ih, append_assoc]
    simp only [flatten_cons, flatten_append, byteLength_append, Nat.add_assoc]

theorem layout_shift (references : List Definition) (offset more : Nat)
    (blocks : List (List (List Char))) :
    (commonMark.layout isAlphanumeric references offset blocks).map (TopBlock.shift more) =
      commonMark.layout isAlphanumeric references (offset + more) blocks := by
  induction blocks generalizing offset with
  | nil => rfl
  | cons block rest ih =>
    rw [layout, layout, map_append, ih, map_map]
    congr 1
    · apply map_congr_left
      intro top _
      simp only [Function.comp, TopBlock.shift, Range.shift, Nat.add_assoc]
    · congr 1
      omega

/-- A block that defines nothing lays out at most one top-level block, which starts at
a character of its first line. -/
theorem groupBlocks_render_cases (references : List Definition) {block : List (List Char)}
    (hblock : block ≠ []) (hnone : commonMark.definitions block = []) :
    groupBlocks isAlphanumeric (commonMark.render references block) = [] ∨
      ∃ before c after rest kind stop, block = (before ++ c :: after) :: rest ∧
        groupBlocks isAlphanumeric (commonMark.render references block) =
          [⟨⟨byteLength before, stop⟩, kind⟩] := by
  obtain ⟨line, rest, rfl⟩ := exists_cons_of_ne_nil hblock
  rcases groupBlocks_cases isAlphanumeric (commonMark.topLevel references (line :: rest)) with
    hempty | ⟨event, range, inner, kind, hrender, hone⟩
  · exact Or.inl hempty
  · obtain ⟨before, c, after, rfl, hstart⟩ :=
      commonMark.starts references line rest event range inner hnone hrender
    refine Or.inr ⟨before, c, after, rest, kind, range.stop, rfl, ?_⟩
    rw [hone, ← hstart]

variable (hblocks : ∀ block ∈ blocks, block ≠ [])
    (hnone : ∀ block ∈ blocks, commonMark.definitions block = [])
include hblocks hnone

theorem start_mem_of_mem_layout {top : TopBlock}
    (htop : top ∈ commonMark.layout isAlphanumeric references offset blocks) :
    offset ≤ top.range.start ∧
      top.range.start < offset + byteLength blocks.flatten.flatten := by
  induction blocks generalizing offset with
  | nil => cases htop
  | cons block rest ih =>
    rw [forall_mem_cons] at hblocks hnone
    rw [layout, mem_append] at htop
    rw [flatten_cons, flatten_append, byteLength_append]
    rcases htop with hhere | hthere
    · rcases commonMark.groupBlocks_render_cases isAlphanumeric references hblocks.1 hnone.1 with
        hempty | ⟨before, c, after, more, kind, stop, rfl, hone⟩
      · rw [hempty] at hhere
        cases hhere
      · rw [hone, map_singleton, mem_singleton] at hhere
        subst hhere
        have hpos := byteLength_cons_pos c after
        simp only [TopBlock.shift, Range.shift, flatten_cons, byteLength_append]
        omega
    · have hstart := ih hblocks.2 hnone.2 hthere
      omega

/-- A top-level block of a tree comes from one block of the document, and the others
from those around it. -/
theorem exists_block_of_layout_eq {before after : List TopBlock} {top : TopBlock}
    (hlayout : commonMark.layout isAlphanumeric references offset blocks = before ++ top :: after) :
    ∃ front block back, blocks = front ++ block :: back ∧
      commonMark.layout isAlphanumeric references offset front = before ∧
      commonMark.layout isAlphanumeric references
        (offset + byteLength (front ++ [block]).flatten.flatten) back = after ∧
      ∃ start c stop rest, block = (start ++ c :: stop) :: rest ∧
        top.range.start = offset + byteLength front.flatten.flatten +
          byteLength start := by
  induction blocks generalizing offset before with
  | nil =>
    have hlength := congrArg List.length hlayout
    simp [layout] at hlength
  | cons block rest ih =>
    rw [forall_mem_cons] at hblocks hnone
    rw [layout] at hlayout
    have hrest : ∀ before, commonMark.layout isAlphanumeric references
        (offset + byteLength block.flatten) rest = before ++ top :: after →
        ∃ front block' back, block :: rest = (block :: front) ++ block' :: back ∧
          commonMark.layout isAlphanumeric references (offset + byteLength block.flatten)
            front = before ∧
          commonMark.layout isAlphanumeric references
            (offset + byteLength ((block :: front) ++ [block']).flatten.flatten) back =
              after ∧
          ∃ start c stop rest, block' = (start ++ c :: stop) :: rest ∧
            top.range.start = offset + byteLength (block :: front).flatten.flatten +
              byteLength start := by
      intro before hlayout
      obtain ⟨front, block', back, rfl, hfront, hback, start, c, stop, more, hline, hstart⟩ :=
        ih hblocks.2 hnone.2 hlayout
      refine ⟨front, block', back, rfl, hfront, ?_, start, c, stop, more, hline, ?_⟩
      · rw [← hback]
        congr 1
        simp only [cons_append, flatten_cons, flatten_append,
          byteLength_append, Nat.add_assoc]
      · rw [hstart]
        simp only [flatten_cons, flatten_append, byteLength_append, Nat.add_assoc]
    rcases commonMark.groupBlocks_render_cases isAlphanumeric references hblocks.1 hnone.1 with
      hempty | ⟨start, c, stop, more, kind, stopByte, rfl, hone⟩
    · rw [hempty, map_nil, nil_append] at hlayout
      obtain ⟨front, block', back, hsplit, hfront, hback, hblock⟩ := hrest before hlayout
      refine ⟨block :: front, block', back, hsplit, ?_, hback, hblock⟩
      rw [layout, hempty, map_nil, nil_append, hfront]
    · rw [hone, map_singleton, singleton_append] at hlayout
      cases before with
      | nil =>
        obtain ⟨rfl, hafter⟩ := List.cons.inj hlayout
        refine ⟨[], _, rest, rfl, rfl, ?_, start, c, stop, more, rfl, ?_⟩
        · rw [← hafter]
          simp
        · simp [TopBlock.shift, Range.shift, Nat.add_comm]
      | cons first before =>
        obtain ⟨rfl, hothers⟩ := List.cons.inj hlayout
        obtain ⟨front, block', back, hsplit, hfront, hback, hblock⟩ := hrest before hothers
        refine ⟨_ :: front, block', back, hsplit, ?_, hback, hblock⟩
        rw [layout, hone, hfront, map_singleton, singleton_append]

end Layout

end CommonMark

/-! ## Lines that end with a line feed -/

/-- Every carriage return is followed by a line feed, or ends the text. -/
def lineFed : List Char → Bool
  | [] => true
  | c :: rest => (c != '\r' || rest.isEmpty || rest.head? == some '\n') && lineFed rest

theorem newline_of_lineFed {before after : List Char} {c : Char}
    (hfed : lineFed (before ++ '\r' :: c :: after) = true) : c = '\n' := by
  induction before with
  | nil =>
    simp only [nil_append, lineFed, bne_self_eq_false, isEmpty_cons, Bool.false_or,
      head?_cons, Bool.and_eq_true, beq_iff_eq, Option.some.injEq] at hfed
    exact hfed.1
  | cons first before ih =>
    rw [cons_append, lineFed, Bool.and_eq_true] at hfed
    exact ih hfed.2

theorem newline_notMem_of_mem_lines {text before after : List Char} {c : Char}
    (hline : before ++ c :: after ∈ lines.cut text) : '\n' ∉ before := by
  intro hmem
  obtain ⟨front, back, rfl⟩ := append_of_mem hmem
  obtain ⟨next, rest, hrest⟩ : ∃ next rest, back ++ c :: after = next :: rest := by
    cases back with
    | nil => exact ⟨c, after, rfl⟩
    | cons next back => exact ⟨next, back ++ c :: after, rfl⟩
  have hsplit : front ++ '\n' :: back ++ c :: after = (front ++ ['\n']) ++ next :: rest := by
    rw [← hrest]
    simp
  rw [hsplit] at hline
  have hcontinues := Segmentation.greedy_continues hline (by simp)
  rw [continuesLine, getLast?_concat] at hcontinues
  cases hcontinues

theorem flatten_eq_nil_or_newline {text : List Char} {front back : List (List Char)}
    (hfed : lineFed text = true) (hcut : lines.cut text = front ++ back) (hback : back ≠ []) :
    front.flatten = [] ∨ ∃ init, front.flatten = init ++ ['\n'] := by
  cases front using List.reverseRecOn with
  | nil => exact Or.inl rfl
  | append_singleton front line _ =>
    right
    obtain ⟨second, others, rfl⟩ := exists_cons_of_ne_nil hback
    rw [append_assoc, singleton_append] at hcut
    obtain ⟨c, rest, rfl, hbreak⟩ := Segmentation.greedy_not_continues hcut
    have hline : line ≠ [] := lines.ne_nil text line (by rw [hcut]; simp)
    cases line using List.reverseRecOn with
    | nil => exact absurd rfl hline
    | append_singleton init last _ =>
      suffices hlast : last = '\n' by
        refine ⟨front.flatten ++ init, ?_⟩
        rw [flatten_append, flatten_singleton, hlast, append_assoc]
      rw [continuesLine, getLast?_concat] at hbreak
      split at hbreak
      next hlast => exact Option.some.inj hlast
      next hlast =>
        have hreturn : last = '\r' := Option.some.inj hlast
        have htext : text = (front.flatten ++ init) ++ '\r' :: c :: (rest ++ others.flatten) := by
          rw [← lines.flatten_cut text, hcut, hreturn]
          simp
        rw [htext] at hfed
        exact absurd (newline_of_lineFed hfed) (of_decide_eq_false hbreak)
      · cases hbreak

/-! ## Paragraphs, block quotes and definitions

A flavour with paragraphs of whole lines, block quotes, and definitions on lines of
their own, enough to run the parser. -/

namespace Outline

def isQuoted (line : List Char) : Bool := line.head? == some '>'

def isBlank (line : List Char) : Bool := line.all Text.isWhitespace

/-- A line of text goes on a paragraph, or a quote when it is quoted. -/
def continuesBlock (block : List (List Char)) (line : List Char) : Bool :=
  match block.getLast? with
  | none => false
  | some last => !isBlank last && !isBlank line && (!isQuoted line || isQuoted last)

def content (line : List Char) : List Char :=
  (if isQuoted line then line.drop 2 else line).takeWhile fun c => c != '\n' && c != '\r'

def definition (line : List Char) : Option (List Char × List Char) :=
  match content line with
  | '[' :: rest =>
    let label := rest.takeWhile (· != ']')
    match rest.drop label.length with
    | ']' :: ':' :: ' ' :: destUrl => some (label, destUrl)
    | _ => none
  | _ => none

/-- The first reference of a text becomes a link. -/
def inlines (references : List (List Char × List Char)) (text : List Char) : List Event :=
  let found := references.findSome? fun reference =>
    (findText ('[' :: reference.1 ++ [']']) text).map fun position => (position, reference)
  match found with
  | none => [.text text]
  | some (position, label, destUrl) =>
    .text (text.take position) :: (.start (.link destUrl) :: [.text label] ++
      .stop :: [.text (text.drop (position + label.length + 2))])

def paragraph (references : List (List Char × List Char)) (block : List (List Char)) :
    List Event :=
  (block.filter fun line => (definition line).isNone).flatMap fun line =>
    inlines references (content line)

def render (references : List (List Char × List Char)) (block : List (List Char)) : List Event :=
  let body := paragraph references block
  match block.head? with
  | none => []
  | some line =>
    if isBlank line then []
    else if isQuoted line then
      if body.isEmpty then .start .blockQuote :: ([] ++ [.stop])
      else .start .blockQuote :: ((.start .paragraph :: body ++ .stop :: []) ++ [.stop])
    else if body.isEmpty then [] else .start .paragraph :: (body ++ [.stop])

theorem nested_append {allowed : Event → Bool} {first second : List Event}
    (hfirst : Nested allowed first) (hsecond : Nested allowed second) :
    Nested allowed (first ++ second) := by
  induction hfirst with
  | nil => exact hsecond
  | leaf hleaf hallowed _ ih => exact .leaf hleaf hallowed (ih hsecond)
  | span hallowed hbody _ _ ih =>
    rw [append_assoc, cons_append]
    exact .span hallowed hbody (ih hsecond)

section
variable (references : List (List Char × List Char))
include references

theorem nested_inlines (text : List Char) :
    Nested Tag.paragraph.content (inlines references text) := by
  rw [inlines]
  split
  · exact .leaf rfl rfl .nil
  · exact .leaf rfl rfl (.span rfl (.leaf rfl rfl .nil) (.leaf rfl rfl .nil))

theorem nested_paragraph (block : List (List Char)) :
    Nested Tag.paragraph.content (paragraph references block) := by
  rw [paragraph]
  induction block.filter _ with
  | nil => exact .nil
  | cons line rest ih => exact nested_append (nested_inlines references _) ih

theorem render_topLevel (block : List (List Char)) :
    render references block = [] ∨ TopLevel (render references block) := by
  have hparagraph := nested_paragraph references block
  rw [render]
  split
  · exact Or.inl rfl
  split
  · exact Or.inl rfl
  split
  · split
    · exact Or.inr (.started rfl .nil)
    · exact Or.inr (.started rfl (.span rfl hparagraph .nil))
  split
  · exact Or.inl rfl
  · exact Or.inr (.started rfl hparagraph)

end

/-- The flavour, with whole blocks as ranges. -/
def commonMark : CommonMark (List Char × List Char) where
  blocks := .greedy continuesBlock
  definitions block := block.filterMap definition
  render references block := (render references block).map fun event =>
    (event, ⟨0, byteLength block.flatten⟩)
  topLevel references block := by
    rw [map_map, map_eq_nil_iff, show Prod.fst ∘ _ = id from rfl, map_id]
    exact render_topLevel references block
  starts references line rest event range inner _ hrender := by
    cases line with
    | nil => cases hrender
    | cons c after =>
      refine ⟨[], c, after, rfl, ?_⟩
      obtain ⟨first, _, -, hfirst, -⟩ := map_eq_cons_iff.mp hrender
      rw [← (Prod.mk.inj hfirst).2]
      rfl

end Outline

end Markdown

end Keel
