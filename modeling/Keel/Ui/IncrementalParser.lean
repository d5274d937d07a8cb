import Keel.Foundation.Trace
import Keel.Ui.CommonMark

/-! # Incremental parsing of streamed markdown

An append reparses from the second-to-last top-level block on and keeps the blocks
before it. A text with a link reference definition is always parsed whole, since a
definition changes references anywhere.

An append commits to every block of the document but the last two, so the kept blocks
are those of the longer text, provided that the detector sees every definition and that
the line start it looks for is the start of a line.
-/

namespace Keel

open List Utf8

namespace Markdown

/-- The parser of a text that grows. The tail repaired for display is left out: it never
enters the tree. -/
structure IncrementalParser where
  source : List Char
  tree : BlockTree
  fullOnly : Bool
  stablePrefixBlocks : Nat

namespace IncrementalParser

def new : IncrementalParser := ⟨[], ⟨[]⟩, false, 0⟩

end IncrementalParser

/-- Some line is `[label]: destination` with at most three bytes of leading space. -/
def hasLinkDefs (text : List Char) : Bool :=
  (Text.lines text).any fun line =>
    let trimmed := Text.trimStart line
    decide (byteLength line - byteLength trimmed ≤ 3) && trimmed.head? == some '[' &&
      (findText "]:".toList trimmed).isSome

/-- The byte offset after the last line feed. -/
def lineStart (text : List Char) : Nat := byteLength (text.rdropWhile (· != '\n'))

/-- The start of the second-to-last top-level block. -/
def stableStart (blocks : List TopBlock) : Nat :=
  match blocks.length with
  | 0 | 1 => 0
  | count + 2 => (blocks[count]?.map fun top => top.range.start).getD 0

section Updates

-- The alphanumeric characters of the Unicode tables, and the markdown parser.
variable (isAlphanumeric : Char → Bool) (parser : List Char → Cursor)

def reset (text : List Char) : IncrementalParser :=
  ⟨text, parseFull isAlphanumeric parser text, hasLinkDefs text, 0⟩

/-- Append a text; a slice off the boundary of a character panics. -/
def append (state : IncrementalParser) (delta : List Char) : Option IncrementalParser :=
  if delta.isEmpty then
    some { state with stablePrefixBlocks := state.tree.blocks.length }
  else do
    let scanFrom := lineStart state.source
    let source := state.source ++ delta
    let scanned := sliceFrom source scanFrom
    let fullOnly ← cond state.fullOnly (some true) (scanned.map hasLinkDefs)
    if fullOnly then
      some ⟨source, parseFull isAlphanumeric parser source, true, 0⟩
    else
      let upTo ← sliceTo source (stableStart state.tree.blocks)
      let boundary := lineStart upTo
      let tail ← sliceFrom source boundary
      let kept := state.tree.blocks.filter fun top => top.range.start < boundary
      let reparsed := (parseFull isAlphanumeric parser tail).blocks.map (TopBlock.shift boundary)
      some ⟨source, ⟨kept ++ reparsed⟩, false, kept.length⟩

def setText (state : IncrementalParser) (text : List Char) : Option IncrementalParser :=
  if state.source.isPrefixOf text then
    append isAlphanumeric parser state (text.drop state.source.length)
  else some (reset isAlphanumeric parser text)

inductive Update where
  | setText (text : List Char)
  | reset (text : List Char)
  | append (delta : List Char)

def Update.text : List Char → Update → List Char
  | source, .append delta => source ++ delta
  | _, .setText text | _, .reset text => text

/-- The text after the updates of a new parser. -/
def textAfter (updates : List Update) : List Char := updates.foldl Update.text []

def update (state : IncrementalParser) : Update → Option IncrementalParser
  | .setText text => setText isAlphanumeric parser state text
  | .reset text => some (reset isAlphanumeric parser text)
  | .append delta => append isAlphanumeric parser state delta

end Updates

/-! ## Line starts and the detector -/

def EndsLine (text : List Char) : Prop := text = [] ∨ ∃ init, text = init ++ ['\n']

theorem lineStart_append {front tail : List Char} (hfront : EndsLine front)
    (htail : '\n' ∉ tail) : lineStart (front ++ tail) = byteLength front := by
  rw [lineStart]
  congr 1
  induction tail using List.reverseRecOn with
  | nil =>
    rw [append_nil]
    rcases hfront with rfl | ⟨init, rfl⟩
    · rfl
    · exact rdropWhile_concat_neg _ _ _ (by simp)
  | append_singleton init last ih =>
    rw [mem_append, not_or, mem_singleton] at htail
    rw [← append_assoc, rdropWhile_concat_pos _ _ _ (by simpa using Ne.symm htail.2),
      ih htail.1]

theorem exists_lineStart_split (text : List Char) :
    ∃ front tail, text = front ++ tail ∧ EndsLine front ∧
      lineStart text = byteLength front := by
  refine ⟨text.rdropWhile (· != '\n'), text.rtakeWhile (· != '\n'),
    (rdropWhile_append_rtakeWhile ..).symm, ?_, rfl⟩
  by_cases hempty : text.rdropWhile (· != '\n') = []
  · exact Or.inl hempty
  · right
    have hlast := rdropWhile_last_not _ _ hempty
    rw [bne_iff_ne, ne_eq, not_not] at hlast
    refine ⟨(text.rdropWhile (· != '\n')).dropLast, ?_⟩
    conv_lhs => rw [← dropLast_concat_getLast hempty, hlast]

theorem hasLinkDefs_append {front : List Char} (hfront : EndsLine front) (tail : List Char) :
    hasLinkDefs (front ++ tail) = (hasLinkDefs front || hasLinkDefs tail) := by
  rcases hfront with rfl | ⟨init, rfl⟩
  · rfl
  · rw [hasLinkDefs, append_assoc, singleton_append, Text.lines_append_newline,
      any_append]
    rfl

theorem stableStart_cases (blocks : List TopBlock) : stableStart blocks = 0 ∨
    ∃ before top last, blocks = before ++ [top, last] ∧ stableStart blocks = top.range.start := by
  cases blocks using List.reverseRecOn with
  | nil => exact Or.inl rfl
  | append_singleton init last _ =>
    cases init using List.reverseRecOn with
    | nil => exact Or.inl rfl
    | append_singleton before top _ =>
      refine Or.inr ⟨before, top, last, by simp, ?_⟩
      have hlength : (before ++ [top] ++ [last]).length = before.length + 2 := by simp
      rw [stableStart, hlength]
      simp

/-! ## One append -/

section Append

variable {Definition : Type} (commonMark : CommonMark Definition)

variable {source delta : List Char} {state : IncrementalParser}

/-- The blocks before two others are those of any longer text, whose blocks from there
on are those of the rest of it alone. -/
theorem exists_blocksOf_append {front back : List (List (List Char))}
    {block next : List (List Char)}
    (hcut : commonMark.blocksOf source = front ++ block :: next :: back) (delta : List Char) :
    ∃ tail, commonMark.blocksOf (source ++ delta) = front ++ tail ∧
      commonMark.blocksOf tail.flatten.flatten = tail ∧
      lines.cut (source ++ delta) = front.flatten ++ tail.flatten := by
  rw [CommonMark.blocksOf] at hcut
  cases hlines : lines.cut source using List.reverseRecOn with
  | nil =>
    rw [hlines, Segmentation.cut_nil] at hcut
    exact absurd hcut (by simp)
  | append_singleton init last _ =>
    rw [hlines] at hcut
    obtain ⟨more, hmore⟩ := (lines.dropLast_cut_prefix source delta).trans
      (List.dropLast_prefix _)
    rw [hlines, dropLast_concat] at hmore
    obtain ⟨tail, hwhole, hrestart, hsplit⟩ :=
      commonMark.blocks.exists_cut_of_replace_last hcut more
    have hcutLines : lines.cut (source ++ delta) = front.flatten ++ tail.flatten :=
      hmore.symm.trans hsplit
    refine ⟨tail, ?_, ?_, hcutLines⟩
    · rw [CommonMark.blocksOf, ← hmore, hwhole]
    · rw [CommonMark.blocksOf, lines.restart _ _ _ hcutLines, hrestart]

/-- The start of a block followed by another snaps back to the start of its line, from
where the rest of any longer text can be parsed alone. -/
theorem exists_boundary {front back : List (List (List Char))}
    {next : List (List Char)} {start stop : List Char} {c : Char} {rest : List (List Char)}
    (hfed : lineFed (source ++ delta) = true)
    (hcut : commonMark.blocksOf source = front ++ ((start ++ c :: stop) :: rest) :: next :: back) :
    ∃ tail, commonMark.blocksOf (source ++ delta) = front ++ tail ∧
      commonMark.blocksOf tail.flatten.flatten = tail ∧
      lineStart (front.flatten.flatten ++ start) = byteLength front.flatten.flatten ∧
      sliceTo (source ++ delta) (byteLength (front.flatten.flatten ++ start)) =
        some (front.flatten.flatten ++ start) ∧
      sliceFrom (source ++ delta) (byteLength front.flatten.flatten) =
        some tail.flatten.flatten := by
  obtain ⟨tail, hwhole, htail, hlines⟩ := exists_blocksOf_append commonMark hcut delta
  have hsplit : source ++ delta = (front.flatten.flatten ++ start) ++
      (c :: stop ++ rest.flatten ++ (next :: back).flatten.flatten ++ delta) := by
    have hsource := commonMark.flatten_blocksOf source
    rw [hcut] at hsource
    rw [← hsource]
    simp
  have hlonger : source ++ delta = front.flatten.flatten ++ tail.flatten.flatten := by
    rw [← commonMark.flatten_blocksOf (source ++ delta), hwhole, flatten_append,
      flatten_append]
  have hline : start ++ c :: stop ∈ lines.cut source := by
    rw [← commonMark.blocks.flatten_cut (lines.cut source), ← CommonMark.blocksOf, hcut]
    exact mem_flatten.mpr ⟨(start ++ c :: stop) :: rest, by simp, mem_cons_self⟩
  have hends : EndsLine front.flatten.flatten := by
    apply flatten_eq_nil_or_newline hfed hlines
    intro hnil
    rw [hnil, flatten_nil, append_nil] at hlonger
    rw [hlonger] at hsplit
    have hlength := congrArg List.length hsplit
    simp only [length_append, length_cons] at hlength
    omega
  refine ⟨tail, hwhole, htail, lineStart_append hends (newline_notMem_of_mem_lines hline), ?_, ?_⟩
  · rw [hsplit, sliceTo_append]
  · rw [hlonger, sliceFrom_append]

variable (isAlphanumeric : Char → Bool)

/-- The reparsed tail, put after the kept blocks, completes the tree of the longer
text. -/
theorem reparse_eq_full {before after : List TopBlock} {top : TopBlock}
    (hnone : commonMark.definitionsOf source = [])
    (hstill : commonMark.definitionsOf (source ++ delta) = [])
    (hfed : lineFed (source ++ delta) = true)
    (htree : (parseFull isAlphanumeric commonMark.events source).blocks = before ++ top :: after)
    (hafter : after ≠ []) :
    ∃ upTo tail, sliceTo (source ++ delta) top.range.start = some upTo ∧
      sliceFrom (source ++ delta) (lineStart upTo) = some tail ∧
      ((before ++ top :: after).filter fun other => other.range.start < lineStart upTo) ++
          (parseFull isAlphanumeric commonMark.events tail).blocks.map
            (TopBlock.shift (lineStart upTo)) =
        (parseFull isAlphanumeric commonMark.events (source ++ delta)).blocks := by
  have hblocks : ∀ block ∈ commonMark.blocksOf source, block ≠ [] :=
    commonMark.blocks.ne_nil _
  have hdefines : ∀ block ∈ commonMark.blocksOf source, commonMark.definitions block = [] :=
    flatMap_eq_nil_iff.mp hnone
  rw [commonMark.parseFull_events, hnone] at htree
  obtain ⟨front, block, back, hsplit, -, hback, start, c, stop, rest, rfl, hstart⟩ :=
    commonMark.exists_block_of_layout_eq isAlphanumeric hblocks hdefines htree
  obtain ⟨next, others, rfl⟩ : ∃ next others, back = next :: others := by
    cases back with
    | nil => exact absurd hback.symm hafter
    | cons next others => exact ⟨next, others, rfl⟩
  obtain ⟨tail, hwhole, htail, hboundary, hupTo, hslice⟩ :=
    exists_boundary commonMark hfed hsplit
  refine ⟨front.flatten.flatten ++ start, tail.flatten.flatten, ?_, ?_, ?_⟩
  · rw [hstart, Nat.zero_add, ← byteLength_append, hupTo]
  · rw [hboundary, hslice]
  have hdefinesTail : commonMark.definitionsOf tail.flatten.flatten = [] := by
    rw [CommonMark.definitionsOf, hwhole, flatMap_append, append_eq_nil_iff] at hstill
    rw [CommonMark.definitionsOf, htail, hstill.2]
  rw [hsplit] at hblocks hdefines
  rw [forall_mem_append] at hblocks hdefines
  have hkept : ∀ top ∈ commonMark.layout isAlphanumeric [] 0 front,
      decide (top.range.start < byteLength front.flatten.flatten) = true := by
    intro top htop
    have hrange := commonMark.start_mem_of_mem_layout isAlphanumeric hblocks.1 hdefines.1 htop
    rw [Nat.zero_add] at hrange
    exact decide_eq_true hrange.2
  have hdropped : ∀ top ∈ commonMark.layout isAlphanumeric [] (byteLength front.flatten.flatten)
      (((start ++ c :: stop) :: rest) :: next :: others),
      ¬ decide (top.range.start < byteLength front.flatten.flatten) = true := by
    intro top htop
    have hrange := commonMark.start_mem_of_mem_layout isAlphanumeric hblocks.2 hdefines.2 htop
    rw [decide_eq_true_iff]
    omega
  rw [hboundary, ← htree, hsplit, commonMark.layout_append, Nat.zero_add, filter_append,
    filter_eq_self.mpr hkept, filter_eq_nil_iff.mpr hdropped, append_nil,
    commonMark.parseFull_events, hdefinesTail, htail, commonMark.layout_shift,
    commonMark.parseFull_events, hstill, hwhole, commonMark.layout_append]

theorem reparse_all_eq_full (source : List Char) (blocks : List TopBlock) :
    (blocks.filter fun other => other.range.start < 0) ++
        (parseFull isAlphanumeric commonMark.events source).blocks.map (TopBlock.shift 0) =
      (parseFull isAlphanumeric commonMark.events source).blocks := by
  rw [filter_eq_nil_iff.mpr (by simp), nil_append, commonMark.parseFull_events,
    commonMark.layout_shift]

/-- The tree is that of the source, and a source parsed incrementally defines nothing. -/
structure InSync (state : IncrementalParser) : Prop where
  tree : state.tree = parseFull isAlphanumeric commonMark.events state.source
  links : state.fullOnly = false →
    hasLinkDefs state.source = false ∧ commonMark.definitionsOf state.source = []

/-- No definition escapes the detector, and every line but the last ends with a line
feed. -/
def InReach (source : List Char) : Prop :=
  (commonMark.definitionsOf source = [] ∨ hasLinkDefs source = true) ∧ lineFed source = true

variable {commonMark isAlphanumeric}

theorem InReach.definitionsOf_eq_nil (hreach : InReach commonMark source)
    (hlinks : hasLinkDefs source = false) : commonMark.definitionsOf source = [] := by
  rcases hreach.1 with hnone | hdetected
  · exact hnone
  · rw [hlinks] at hdetected
    cases hdetected

theorem reset_inSync {text : List Char} (hreach : InReach commonMark text) :
    InSync commonMark isAlphanumeric (reset isAlphanumeric commonMark.events text) :=
  ⟨rfl, fun hlinks => ⟨hlinks, hreach.definitionsOf_eq_nil hlinks⟩⟩

/-- The scan from the start of the open line misses no definition of a longer text. -/
theorem exists_scan (hlinks : hasLinkDefs source = false) (delta : List Char) : ∃ scanned,
      sliceFrom (source ++ delta) (lineStart source) = some scanned ∧
        hasLinkDefs (source ++ delta) = hasLinkDefs scanned := by
  obtain ⟨front, tail, rfl, hends, hstart⟩ := exists_lineStart_split source
  rw [hasLinkDefs_append hends, Bool.or_eq_false_iff] at hlinks
  refine ⟨tail ++ delta, ?_, ?_⟩
  · rw [hstart, append_assoc, sliceFrom_append]
  · rw [append_assoc, hasLinkDefs_append hends, hlinks.1, Bool.false_or]

variable (hsync : InSync commonMark isAlphanumeric state)
include hsync

theorem exists_reparse (hnone : commonMark.definitionsOf state.source = [])
    (hstill : commonMark.definitionsOf (state.source ++ delta) = [])
    (hfed : lineFed (state.source ++ delta) = true) : ∃ upTo tail,
      sliceTo (state.source ++ delta) (stableStart state.tree.blocks) = some upTo ∧
      sliceFrom (state.source ++ delta) (lineStart upTo) = some tail ∧
      (state.tree.blocks.filter fun top => top.range.start < lineStart upTo) ++
          (parseFull isAlphanumeric commonMark.events tail).blocks.map
            (TopBlock.shift (lineStart upTo)) =
        (parseFull isAlphanumeric commonMark.events (state.source ++ delta)).blocks := by
  rcases stableStart_cases state.tree.blocks with hzero | ⟨before, top, last, hblocks, hstart⟩
  · refine ⟨[], state.source ++ delta, ?_, ?_, reparse_all_eq_full commonMark isAlphanumeric _ _⟩
    · rw [hzero]
      exact sliceTo_append [] _
    · exact sliceFrom_append [] _
  · have htree : (parseFull isAlphanumeric commonMark.events state.source).blocks =
        before ++ top :: [last] := by
      rw [← hsync.tree, hblocks]
    rw [hstart, hblocks]
    exact reparse_eq_full commonMark isAlphanumeric hnone hstill hfed htree (by simp)

theorem append_inSync (hreach : InReach commonMark (state.source ++ delta)) :
    ∃ next, append isAlphanumeric commonMark.events state delta = some next ∧
      next.source = state.source ++ delta ∧ InSync commonMark isAlphanumeric next := by
  cases delta with
  | nil =>
    refine ⟨{ state with stablePrefixBlocks := state.tree.blocks.length }, rfl, ?_, hsync.tree,
      hsync.links⟩
    exact (append_nil _).symm
  | cons first rest =>
    rw [append, if_neg (by simp)]
    cases hfull : state.fullOnly with
    | true =>
      refine ⟨⟨state.source ++ first :: rest, parseFull isAlphanumeric commonMark.events
        (state.source ++ first :: rest), true, 0⟩, ?_, rfl, rfl, fun hfalse => nomatch hfalse⟩
      rfl
    | false =>
      obtain ⟨hlinks, hnone⟩ := hsync.links hfull
      obtain ⟨scanned, hscanned, hsame⟩ := exists_scan hlinks (first :: rest)
      cases hdetected : hasLinkDefs scanned with
      | true =>
        refine ⟨⟨state.source ++ first :: rest, parseFull isAlphanumeric commonMark.events
          (state.source ++ first :: rest), true, 0⟩, ?_, rfl, rfl,
          fun hfalse => nomatch hfalse⟩
        simp [hscanned, hdetected]
      | false =>
        have hquiet := hsame.trans hdetected
        have hstill := hreach.definitionsOf_eq_nil hquiet
        obtain ⟨upTo, tail, hupTo, htail, htree⟩ :=
          exists_reparse hsync hnone hstill hreach.2
        refine ⟨⟨state.source ++ first :: rest, parseFull isAlphanumeric commonMark.events
          (state.source ++ first :: rest), false, (state.tree.blocks.filter fun top =>
            top.range.start < lineStart upTo).length⟩, ?_, rfl, rfl, fun _ => ⟨hquiet, hstill⟩⟩
        simp [hscanned, hdetected, hupTo, htail, htree]

theorem update_inSync {action : Update} (hreach : InReach commonMark (action.text state.source)) :
    ∃ next, update isAlphanumeric commonMark.events state action = some next ∧
      next.source = action.text state.source ∧ InSync commonMark isAlphanumeric next := by
  cases action with
  | append delta => exact append_inSync hsync hreach
  | reset text => exact ⟨_, rfl, rfl, reset_inSync hreach⟩
  | setText text =>
    rw [update, setText]
    split
    next hstarts =>
      obtain ⟨delta, rfl⟩ := isPrefixOf_iff_prefix.mp hstarts
      rw [drop_left]
      exact append_inSync hsync hreach
    · exact ⟨_, rfl, rfl, reset_inSync hreach⟩

end Append

/-! ## Runs -/

section Runs

variable {Definition : Type} (commonMark : CommonMark Definition) (isAlphanumeric : Char → Bool)

theorem new_inSync : InSync commonMark isAlphanumeric .new := by
  refine ⟨?_, fun _ => ⟨rfl, ?_⟩⟩
  · have hempty := commonMark.parseFull_events isAlphanumeric []
    rw [CommonMark.blocksOf, Segmentation.cut_nil, Segmentation.cut_nil] at hempty
    exact congrArg BlockTree.mk hempty.symm
  · change commonMark.definitionsOf [] = []
    rw [CommonMark.definitionsOf, CommonMark.blocksOf, Segmentation.cut_nil, Segmentation.cut_nil]
    rfl

theorem run_inSync {updates : List Update}
    (hreach : ∀ done, done <+: updates → InReach commonMark (textAfter done)) :
    ∃ final, Trace.run (update isAlphanumeric commonMark.events) .new updates = some final ∧
      final.source = textAfter updates ∧ InSync commonMark isAlphanumeric final := by
  induction updates using List.reverseRecOn with
  | nil => exact ⟨.new, rfl, rfl, new_inSync commonMark isAlphanumeric⟩
  | append_singleton init action ih =>
    obtain ⟨last, hinit, hsource, hsync⟩ := ih fun done hdone =>
      hreach done (hdone.trans (prefix_append _ _))
    have htext : textAfter (init ++ [action]) = action.text last.source := by
      rw [hsource, textAfter, foldl_append]
      rfl
    have hnext := hreach _ prefix_rfl
    rw [htext] at hnext
    obtain ⟨final, hstep, hfinal, hsync⟩ := update_inSync hsync hnext
    exact ⟨final, Trace.run_concat_eq_some.2 ⟨last, hinit, hstep⟩, hfinal.trans htext.symm,
      hsync⟩

theorem textAfter_append (chunks : List (List Char)) :
    textAfter (chunks.map .append) = chunks.flatten := by
  induction chunks using List.reverseRecOn with
  | nil => rfl
  | append_singleton init chunk ih =>
    rw [map_append, textAfter, foldl_append, ← textAfter, ih]
    simp [Update.text]

/-- However a text in reach is cut into chunks, appending them gives the tree of a full
parse. -/
theorem streamed_tree_eq_full {parser : List Char → Cursor}
    (hparser : ∀ source, parser source = commonMark.events source) (chunks : List (List Char))
    (hreach : ∀ fed, fed <+: chunks → InReach commonMark fed.flatten) :
    ∃ final, Trace.run (update isAlphanumeric parser) .new (chunks.map .append) = some final ∧
      final.source = chunks.flatten ∧
      final.tree = parseFull isAlphanumeric parser chunks.flatten := by
  obtain rfl := funext hparser
  have hupdates : ∀ done, done <+: chunks.map Update.append →
      InReach commonMark (textAfter done) := by
    intro done hdone
    obtain ⟨fed, hfed, rfl⟩ := prefix_map_iff.mp hdone
    rw [textAfter_append]
    exact hreach fed hfed
  obtain ⟨final, hrun, hsource, hsync⟩ := run_inSync commonMark isAlphanumeric hupdates
  rw [textAfter_append] at hsource
  exact ⟨final, hrun, hsource, hsource ▸ hsync.tree⟩

/-- A definition on a line of its own is seen, and its paragraphs are parsed again. -/
theorem streamed_tree_eq_full_definition :
    ∃ final, Trace.run (update Char.isAlphanum Outline.commonMark.events) .new
        (["See [docs].\n\nMo".toList, "re.\n\n[docs]: https://x\n".toList].map .append) =
          some final ∧
      final.source = "See [docs].\n\nMore.\n\n[docs]: https://x\n".toList ∧
      final.tree = parseFull Char.isAlphanum Outline.commonMark.events
        "See [docs].\n\nMore.\n\n[docs]: https://x\n".toList := by
  apply streamed_tree_eq_full Outline.commonMark Char.isAlphanum (fun _ => rfl)
    ["See [docs].\n\nMo".toList, "re.\n\n[docs]: https://x\n".toList]
  intro fed hfed
  rw [← mem_inits] at hfed
  revert fed
  unfold InReach
  decide +kernel

end Runs

/-- The runs of a top-level paragraph that are links. -/
def TopBlock.links (top : TopBlock) : List (List Char) :=
  match top.block with
  | .paragraph runs => runs.filterMap fun run => run.style.link
  | _ => []

/-- A definition in a block quote links a reference before it, but the detector does not
see it, and the blocks kept by the append that brings it stay without the link. -/
theorem quoted_definition_missed :
    ¬ ∀ (Definition : Type) (commonMark : CommonMark Definition) (isAlphanumeric : Char → Bool)
        (parser : List Char → Cursor),
        (∀ source, parser source = commonMark.events source) → ∀ chunks : List (List Char),
        ∃ final, Trace.run (update isAlphanumeric parser) .new (chunks.map .append) = some final ∧
          final.tree = parseFull isAlphanumeric parser chunks.flatten := by
  intro hclaim
  obtain ⟨final, hrun, htree⟩ := hclaim _ Outline.commonMark Char.isAlphanum _ (fun _ => rfl)
    ["See [docs].\n\nMore.\n\nEnd.\n".toList, "\n> [docs]: https://x\n".toList]
  have hkept : (Trace.run (update Char.isAlphanum Outline.commonMark.events) .new
      (["See [docs].\n\nMore.\n\nEnd.\n".toList, "\n> [docs]: https://x\n".toList].map
        .append)).map (fun final => final.tree.blocks.map TopBlock.links) = some [[], [], [], []] := by
    decide +kernel
  have hfull : (parseFull Char.isAlphanum Outline.commonMark.events
      ["See [docs].\n\nMore.\n\nEnd.\n".toList, "\n> [docs]: https://x\n".toList].flatten).blocks.map
        TopBlock.links = [["https://x".toList], [], [], []] := by
    decide +kernel
  rw [hrun, Option.map_some, htree, hfull] at hkept
  exact absurd hkept (by decide)

/-- A line start looked for behind a bare carriage return lies in an earlier block, whose
last line then comes twice. -/
example : (Trace.run (update Char.isAlphanum Outline.commonMark.events) .new
    (["x\ny\r\rb\r\rc".toList, "d".toList].map .append)).map
      (fun final => final.tree.blocks.length) = some 4 ∧
    (parseFull Char.isAlphanum Outline.commonMark.events
      "x\ny\r\rb\r\rcd".toList).blocks.length = 3 := by
  decide +kernel

end Markdown

end Keel
