import Mathlib.Data.List.Basic
import Mathlib.Tactic.Common
import Keel.Ui.Markdown

/-! # Reading well-nested events

The markdown parser emits well-nested events: a tag holds only events it allows, and
each start has its end. On such events every loop of the block builder stops exactly
at the end of its own container, so what it builds depends on the events of the
container alone, and not on their ranges. The top-level blocks of a sequence of events
are therefore those of its parts in order.
-/

namespace Keel

open List

namespace Markdown

def Event.isLeaf : Event → Bool
  | .start _ | .stop => false
  | _ => true

/-- The events that may stand directly in a tag. -/
def Tag.content : Tag → Event → Bool
  | .codeBlock _, event | .htmlBlock, event => event.isLeaf
  | .list _, event => event = .start .item
  | .table _, event => event = .start .tableHead || event = .start .tableRow
  | .tableHead, event | .tableRow, event => event = .start .tableCell
  | _, _ => true

/-- Events that end no container they do not start. -/
inductive Nested : (Event → Bool) → List Event → Prop
  | nil {allowed} : Nested allowed []
  | leaf {allowed event rest} (hleaf : event.isLeaf = true) (hallowed : allowed event = true)
      (hrest : Nested allowed rest) : Nested allowed (event :: rest)
  | span {allowed tag body rest} (hallowed : allowed (.start tag) = true)
      (hbody : Nested tag.content body) (hrest : Nested allowed rest) :
      Nested allowed (.start tag :: body ++ .stop :: rest)

/-- With enough fuel a loop reads exactly a group of events, whatever their ranges are
and whatever follows. -/
def Reads {β : Type} (loop : Nat → Cursor → β × Cursor) (need : Nat) (group : List Event) : Prop :=
  ∃ out, ∀ fuel cur rest, need ≤ fuel → cur.map Prod.fst = group →
    loop fuel (cur ++ rest) = (out, rest)

/-- A loop that handles each leaf and each span of its container in one round, and
stops at an end, reads the events of the container and the end of it. -/
theorem reads_of_rounds {σ β : Type} (loop : Nat → Cursor → σ → β × Cursor) {finish : σ → β}
    {allowed : Event → Bool} {bound : Nat}
    (hstop : ∀ fuel state closed rest,
      loop (fuel + 1) ((.stop, closed) :: rest) state = (finish state, rest))
    (hleaf : ∀ event state, event.isLeaf = true → allowed event = true →
      ∃ after, ∀ range fuel rest, 1 ≤ fuel →
        loop (fuel + 1) ((event, range) :: rest) state = loop fuel rest after)
    (hspan : ∀ tag body state, allowed (.start tag) = true → Nested tag.content body →
      body.length < bound → ∃ after, ∀ opened inner rest fuel, 3 * body.length + 4 ≤ fuel →
        inner.map Prod.fst = body ++ [.stop] →
        loop (fuel + 1) ((.start tag, opened) :: (inner ++ rest)) state = loop fuel rest after)
    {body : List Event} (hbody : Nested allowed body) (hlength : body.length ≤ bound) (state : σ) :
    Reads (fun fuel cur => loop fuel cur state) (3 * body.length + 1) (body ++ [.stop]) := by
  induction hbody generalizing state with
  | nil =>
    refine ⟨finish state, fun fuel cur rest hfuel hcur => ?_⟩
    obtain ⟨fuel, rfl⟩ := Nat.exists_eq_add_of_le' hfuel
    obtain ⟨⟨event, closed⟩, rfl, hevent⟩ := map_eq_singleton_iff.mp hcur
    obtain rfl : event = .stop := hevent
    exact hstop _ state closed rest
  | @leaf _ event rest hevent hallowed _ ih =>
    rw [length_cons] at hlength
    obtain ⟨after, hround⟩ := hleaf event state hevent hallowed
    obtain ⟨out, hrest⟩ := ih hleaf hspan (by omega) after
    refine ⟨out, fun fuel cur more hfuel hcur => ?_⟩
    rw [length_cons] at hfuel
    obtain ⟨fuel, rfl⟩ := Nat.exists_eq_add_of_le' (Nat.le_trans (Nat.le_add_left 1 _) hfuel)
    obtain ⟨⟨first, range⟩, tail, rfl, hfirst, htail⟩ := map_eq_cons_iff.mp hcur
    obtain rfl : first = event := hfirst
    exact (hround range fuel _ (by omega)).trans (hrest fuel tail more (by omega) htail)
  | @span _ tag body rest hallowed hbody _ _ ih =>
    simp only [length_append, length_cons] at hlength
    obtain ⟨after, hround⟩ := hspan tag body state hallowed hbody (by omega)
    obtain ⟨out, hrest⟩ := ih hleaf hspan (by omega) after
    refine ⟨out, fun fuel cur more hfuel hcur => ?_⟩
    simp only [length_append, length_cons] at hfuel
    obtain ⟨fuel, rfl⟩ := Nat.exists_eq_add_of_le' (Nat.le_trans (Nat.le_add_left 1 _) hfuel)
    obtain ⟨⟨first, opened⟩, group, rfl, hfirst, hgroup⟩ := map_eq_cons_iff.mp hcur
    obtain rfl : first = .start tag := hfirst
    have hsplit : group.map Prod.fst = (body ++ [.stop]) ++ (rest ++ [.stop]) := by
      simpa using hgroup
    obtain ⟨inner, tail, rfl, hinner, htail⟩ := map_eq_append_iff.mp hsplit
    rw [cons_append, append_assoc]
    exact (hround opened inner _ fuel (by omega) hinner).trans
      (hrest fuel tail more (by omega) htail)

section Inline

variable (isAlphanumeric : Char → Bool)

theorem parseInlineEvent_leaf {event : Event} (hleaf : event.isLeaf = true)
    (runs : List InlineRun) (style : InlineStyle) :
    ∃ after, ∀ range fuel rest, 1 ≤ fuel →
      parseInlineEvent isAlphanumeric fuel ((event, range) :: rest) runs style = (after, rest) := by
  cases event with
  | start tag | stop => cases hleaf
  | _ =>
    refine ⟨?_, fun range fuel rest hfuel => ?_⟩
    rotate_left
    · obtain ⟨fuel, rfl⟩ := Nat.exists_eq_add_of_le' hfuel
      rfl

variable {isAlphanumeric}

variable {body : List Event}

theorem parseInlineContainer_of_events {style : InlineStyle} {need : Nat}
    (hbody : Reads (fun fuel cur => parseInlineEvents isAlphanumeric fuel cur [] style) need body) :
    Reads (fun fuel cur => parseInlineContainer isAlphanumeric fuel cur style) (need + 1) body := by
  obtain ⟨runs, hruns⟩ := hbody
  refine ⟨autolinkRuns isAlphanumeric (mergeRuns runs), fun fuel cur rest hfuel hcur => ?_⟩
  obtain ⟨fuel, rfl⟩ := Nat.exists_eq_add_of_le' (Nat.le_trans (Nat.le_add_left 1 need) hfuel)
  have hread : parseInlineEvents isAlphanumeric fuel (cur ++ rest) [] style = (runs, rest) :=
    hruns fuel cur rest (by omega) hcur
  simp only [parseInlineContainer, hread]

theorem parseInlineEvent_of_container {tag : Tag} {need : Nat}
    (runs : List InlineRun) (style : InlineStyle)
    (hbody : Reads (fun fuel cur => parseInlineContainer isAlphanumeric fuel cur (style.within tag))
      need body) :
    ∃ after, ∀ opened inner rest fuel, need + 1 ≤ fuel → inner.map Prod.fst = body →
      parseInlineEvent isAlphanumeric fuel ((.start tag, opened) :: (inner ++ rest)) runs style =
        (after, rest) := by
  obtain ⟨within, hwithin⟩ := hbody
  refine ⟨runs ++ within, fun opened inner rest fuel hfuel hinner => ?_⟩
  obtain ⟨fuel, rfl⟩ := Nat.exists_eq_add_of_le' (Nat.le_trans (Nat.le_add_left 1 need) hfuel)
  have hread : parseInlineContainer isAlphanumeric fuel (inner ++ rest) (style.within tag) =
      (within, rest) := hwithin fuel inner rest (by omega) hinner
  simp only [parseInlineEvent, hread]

theorem parseInlineEvents_round {event : Event} (hevent : event ≠ .stop) (range : Range)
    (cur : Cursor) (runs : List InlineRun) (style : InlineStyle) (fuel : Nat) :
    parseInlineEvents isAlphanumeric (fuel + 1) ((event, range) :: cur) runs style =
      parseInlineEvents isAlphanumeric fuel
        (parseInlineEvent isAlphanumeric fuel ((event, range) :: cur) runs style).2
        (parseInlineEvent isAlphanumeric fuel ((event, range) :: cur) runs style).1 style := by
  cases event with
  | stop => exact absurd rfl hevent
  | _ => rfl

theorem parseInlineEvents_nested {allowed : Event → Bool}
    (hbody : Nested allowed body) (runs : List InlineRun) (style : InlineStyle) :
    Reads (fun fuel cur => parseInlineEvents isAlphanumeric fuel cur runs style)
      (3 * body.length + 1) (body ++ [.stop]) := by
  induction hlength : body.length using Nat.strong_induction_on generalizing allowed body runs
    style with
  | _ bound ih =>
    subst hlength
    refine reads_of_rounds (fun fuel cur runs =>
      parseInlineEvents isAlphanumeric fuel cur runs style) (fun _ _ _ _ => rfl) ?_ ?_ hbody
      le_rfl runs
    · intro event runs hleaf _
      obtain ⟨after, hevent⟩ := parseInlineEvent_leaf isAlphanumeric hleaf runs style
      refine ⟨after, fun range fuel rest hfuel => ?_⟩
      rw [parseInlineEvents_round (by rintro rfl; cases hleaf), hevent range fuel rest hfuel]
    · intro tag inside runs _ hinside hshort
      obtain ⟨after, hevent⟩ := parseInlineEvent_of_container runs style
        (parseInlineContainer_of_events (ih _ hshort hinside [] (style.within tag) rfl))
      refine ⟨after, fun opened inner rest fuel hfuel hinner => ?_⟩
      rw [parseInlineEvents_round (by simp),
        hevent opened inner rest fuel (by omega) hinner]

variable (isAlphanumeric)

theorem parseInlineContainer_nested {allowed : Event → Bool}
    (hbody : Nested allowed body) (style : InlineStyle) :
    Reads (fun fuel cur => parseInlineContainer isAlphanumeric fuel cur style)
      (3 * body.length + 2) (body ++ [.stop]) :=
  parseInlineContainer_of_events (parseInlineEvents_nested hbody [] style)

end Inline

section Tables

variable (isAlphanumeric : Char → Bool)

theorem parseTableCells_nested {body : List Event} (hbody : Nested Tag.tableRow.content body)
    (cells : List (List InlineRun)) :
    Reads (fun fuel cur => parseTableCells isAlphanumeric fuel cur cells)
      (3 * body.length + 1) (body ++ [.stop]) := by
  refine reads_of_rounds (parseTableCells isAlphanumeric) (fun _ _ _ _ => rfl) ?_ ?_ hbody le_rfl
    cells
  · intro event cells hleaf hallowed
    obtain rfl := of_decide_eq_true hallowed
    cases hleaf
  · intro tag inside cells hallowed hinside _
    obtain rfl := Event.start.inj (of_decide_eq_true hallowed)
    obtain ⟨cell, hcell⟩ := parseInlineContainer_nested isAlphanumeric hinside default
    refine ⟨cells ++ [cell], fun opened inner rest fuel hfuel hinner => ?_⟩
    have hread : parseInlineContainer isAlphanumeric fuel (inner ++ rest) default = (cell, rest) :=
      hcell fuel inner rest (by omega) hinner
    simp only [parseTableCells, hread]

theorem parseTable_nested {alignment : List Alignment} {body : List Event}
    (hbody : Nested (Tag.table alignment).content body) (align : List TableAlign)
    (header : List (List InlineRun)) (rows : List (List (List InlineRun))) :
    Reads (fun fuel cur => parseTable isAlphanumeric align fuel cur header rows)
      (3 * body.length + 1) (body ++ [.stop]) := by
  refine reads_of_rounds (fun fuel cur (state : List (List InlineRun) × List (List (List InlineRun)))
    => parseTable isAlphanumeric align fuel cur state.1 state.2) (fun _ _ _ _ => rfl) ?_ ?_ hbody
    le_rfl (header, rows)
  · intro event state hleaf hallowed
    rw [Tag.content, Bool.or_eq_true, decide_eq_true_iff, decide_eq_true_iff] at hallowed
    rcases hallowed with rfl | rfl <;> cases hleaf
  · intro tag inside state hallowed hinside _
    rw [Tag.content, Bool.or_eq_true, decide_eq_true_iff, decide_eq_true_iff] at hallowed
    rcases hallowed with htag | htag <;> cases htag
    all_goals
      obtain ⟨cells, hcells⟩ := parseTableCells_nested isAlphanumeric hinside []
      have hread : ∀ fuel inner rest, 3 * inside.length + 1 ≤ fuel →
          inner.map Prod.fst = inside ++ [.stop] →
          parseTableCells isAlphanumeric fuel (inner ++ rest) [] = (cells, rest) := hcells
    · refine ⟨(cells, state.2), fun opened inner rest fuel hfuel hinner => ?_⟩
      simp only [parseTable, hread fuel inner rest (by omega) hinner]
    · refine ⟨(state.1, state.2 ++ [cells]), fun opened inner rest fuel hfuel hinner => ?_⟩
      simp only [parseTable, hread fuel inner rest (by omega) hinner]

end Tables

section Blocks

variable {allowed : Event → Bool} {body : List Event}

section
variable (hbody : Nested allowed body)
    (hverbatim : ∀ event, allowed event = true → event.isLeaf = true)
include hbody hverbatim

theorem codeText_nested (code : List Char) : ∃ out, ∀ cur rest, cur.map Prod.fst = body ++ [.stop] →
      codeText (cur ++ rest) code = (out, rest) := by
  obtain ⟨out, hread⟩ := reads_of_rounds (fun _ => codeText) (fun _ _ _ _ => rfl)
    (fun event state hleaf _ => by
      cases event with
      | start tag | stop => cases hleaf
      | text text => exact ⟨state ++ text, fun _ _ _ _ => rfl⟩
      | _ => exact ⟨state, fun _ _ _ _ => rfl⟩)
    (fun tag _ _ hallowed _ _ => nomatch hverbatim _ hallowed) hbody le_rfl code
  exact ⟨out, fun cur rest hcur => hread _ cur rest le_rfl hcur⟩

theorem htmlText_nested (text : List Char) : ∃ out, ∀ cur rest, cur.map Prod.fst = body ++ [.stop] →
      htmlText (cur ++ rest) text = (out, rest) := by
  obtain ⟨out, hread⟩ := reads_of_rounds (fun _ => htmlText) (fun _ _ _ _ => rfl)
    (fun event state hleaf _ => by
      cases event with
      | start tag | stop => cases hleaf
      | html text | text text => exact ⟨state ++ text, fun _ _ _ _ => rfl⟩
      | _ => exact ⟨state, fun _ _ _ _ => rfl⟩)
    (fun tag _ _ hallowed _ _ => nomatch hverbatim _ hallowed) hbody le_rfl text
  exact ⟨out, fun cur rest hcur => hread _ cur rest le_rfl hcur⟩

end

variable (isAlphanumeric : Char → Bool)

/-- The loop over items reads its list when the loop over blocks reads the items. -/
theorem parseListItems_nested {start : Option Nat}
    (hbody : Nested (Tag.list start).content body)
    (hshorter : ∀ {allowed inside}, Nested allowed inside → inside.length < body.length →
      Reads (fun fuel cur => parseBlockSequence isAlphanumeric fuel cur [] [])
        (3 * inside.length + 1) (inside ++ [.stop])) (items : List (List Block)) :
    Reads (fun fuel cur => parseListItems isAlphanumeric fuel cur items)
      (3 * body.length + 1) (body ++ [.stop]) := by
  refine reads_of_rounds (parseListItems isAlphanumeric) (fun _ _ _ _ => rfl) ?_ ?_ hbody le_rfl
    items
  · intro event items hleaf hallowed
    obtain rfl := of_decide_eq_true hallowed
    cases hleaf
  · intro tag inside items hallowed hinside hshort
    obtain rfl := Event.start.inj (of_decide_eq_true hallowed)
    obtain ⟨item, hitem⟩ := hshorter hinside hshort
    refine ⟨items ++ [item], fun opened inner rest fuel hfuel hinner => ?_⟩
    have hread : parseBlockSequence isAlphanumeric fuel (inner ++ rest) [] [] = (item, rest) :=
      hitem fuel inner rest (by omega) hinner
    simp only [parseListItems, hread]

/-- A started block is read up to its own end, when the loop over blocks reads its
body. -/
theorem parseStartedBlock_nested {tag : Tag} (hbody : Nested tag.content body)
    (hsequence : ∀ {allowed inside}, Nested allowed inside → inside.length ≤ body.length →
      Reads (fun fuel cur => parseBlockSequence isAlphanumeric fuel cur [] [])
        (3 * inside.length + 1) (inside ++ [.stop])) :
    ∃ out, ∀ opened inner rest fuel, 3 * body.length + 2 ≤ fuel →
      inner.map Prod.fst = body ++ [.stop] →
      parseStartedBlock isAlphanumeric (fuel + 1) ((.start tag, opened) :: (inner ++ rest)) =
        (out, rest) := by
  obtain ⟨runs, hruns⟩ := parseInlineContainer_nested isAlphanumeric hbody default
  obtain ⟨children, hchildren⟩ := hsequence hbody le_rfl
  have hinline : ∀ fuel inner rest, 3 * body.length + 2 ≤ fuel →
      inner.map Prod.fst = body ++ [.stop] →
      parseInlineContainer isAlphanumeric fuel (inner ++ rest) default = (runs, rest) := hruns
  have hblocks : ∀ fuel inner rest, 3 * body.length + 1 ≤ fuel →
      inner.map Prod.fst = body ++ [.stop] →
      parseBlockSequence isAlphanumeric fuel (inner ++ rest) [] [] = (children, rest) := hchildren
  cases tag with
  | paragraph =>
    refine ⟨[.paragraph runs], fun opened inner rest fuel hfuel hinner => ?_⟩
    simp only [parseStartedBlock, hinline fuel inner rest hfuel hinner]
  | heading level =>
    refine ⟨[.heading level runs], fun opened inner rest fuel hfuel hinner => ?_⟩
    simp only [parseStartedBlock, hinline fuel inner rest hfuel hinner]
  | codeBlock kind =>
    obtain ⟨code, hcode⟩ := codeText_nested hbody (fun _ hallowed => hallowed) []
    refine ⟨?_, fun opened inner rest fuel hfuel hinner => ?_⟩
    rotate_left
    · simp only [parseStartedBlock, hcode inner rest hinner]
      rfl
  | htmlBlock =>
    obtain ⟨text, htext⟩ := htmlText_nested hbody (fun _ hallowed => hallowed) []
    refine ⟨?_, fun opened inner rest fuel hfuel hinner => ?_⟩
    rotate_left
    · simp only [parseStartedBlock, htext inner rest hinner]
      rfl
  | blockQuote =>
    refine ⟨[.blockQuote children], fun opened inner rest fuel hfuel hinner => ?_⟩
    simp only [parseStartedBlock, hblocks fuel inner rest (by omega) hinner]
  | list start =>
    obtain ⟨items, hitems⟩ := parseListItems_nested isAlphanumeric hbody
      (fun hinside hshort => hsequence hinside hshort.le) []
    refine ⟨[.list start items], fun opened inner rest fuel hfuel hinner => ?_⟩
    have hread : parseListItems isAlphanumeric fuel (inner ++ rest) [] = (items, rest) :=
      hitems fuel inner rest (by omega) hinner
    simp only [parseStartedBlock, hread]
  | table alignment =>
    obtain ⟨table, htable⟩ := parseTable_nested isAlphanumeric hbody
      (alignment.map Alignment.toTableAlign) [] []
    refine ⟨[table], fun opened inner rest fuel hfuel hinner => ?_⟩
    have hread : parseTable isAlphanumeric (alignment.map Alignment.toTableAlign) fuel
        (inner ++ rest) [] [] = (table, rest) := htable fuel inner rest (by omega) hinner
    simp only [parseStartedBlock, hread]
  | _ =>
    refine ⟨children, fun opened inner rest fuel hfuel hinner => ?_⟩
    simp only [parseStartedBlock, hblocks fuel inner rest (by omega) hinner]

theorem parseBlockSequence_nested
    (hbody : Nested allowed body) (out : List Block) (acc : List InlineRun) :
    Reads (fun fuel cur => parseBlockSequence isAlphanumeric fuel cur out acc)
      (3 * body.length + 1) (body ++ [.stop]) := by
  induction hlength : body.length using Nat.strong_induction_on generalizing allowed body out
    acc with
  | _ bound ih =>
    subst hlength
    refine reads_of_rounds (fun fuel cur (state : List Block × List InlineRun) =>
      parseBlockSequence isAlphanumeric fuel cur state.1 state.2) (fun _ _ _ _ => rfl) ?_ ?_
      hbody le_rfl (out, acc)
    · intro event state hleaf _
      obtain ⟨after, hevent⟩ := parseInlineEvent_leaf isAlphanumeric hleaf state.2 default
      cases event with
      | start tag | stop => cases hleaf
      | rule => exact ⟨(flushParagraph state.1 state.2 ++ [.rule], []), fun _ _ _ _ => rfl⟩
      | _ =>
        refine ⟨(state.1, after), fun range fuel rest hfuel => ?_⟩
        simp only [parseBlockSequence, hevent range fuel rest hfuel]
    · intro tag inside state _ hinside hshort
      cases hblock : isBlockTag tag with
      | true =>
        obtain ⟨blocks, hblocks⟩ := parseStartedBlock_nested isAlphanumeric hinside
          (fun hnested hle => ih _ (hle.trans_lt hshort) hnested [] [] rfl)
        refine ⟨(flushParagraph state.1 state.2 ++ blocks, []),
          fun opened inner rest fuel hfuel hinner => ?_⟩
        obtain ⟨fuel, rfl⟩ := Nat.exists_eq_add_of_le'
          (Nat.le_trans (Nat.le_add_left 1 _) hfuel)
        rw [parseBlockSequence]
        simp only [hblock, if_true, hblocks opened inner rest fuel (by omega) hinner]
      | false =>
        obtain ⟨after, hevent⟩ := parseInlineEvent_of_container state.2 default
          (parseInlineContainer_nested isAlphanumeric hinside
            (InlineStyle.within default tag))
        refine ⟨(state.1, after), fun opened inner rest fuel hfuel hinner => ?_⟩
        rw [parseBlockSequence]
        simp only [hblock, Bool.false_eq_true, if_false,
          hevent opened inner rest fuel (by omega) hinner]

end Blocks

/-! ## The top level -/

def shiftEvent (offset : Nat) (entry : Event × Range) : Event × Range :=
  (entry.1, entry.2.shift offset)

def TopBlock.shift (offset : Nat) (top : TopBlock) : TopBlock :=
  { top with range := top.range.shift offset }

/-- The tags of top-level blocks under the options in use. -/
def Tag.isTopLevel : Tag → Bool
  | .paragraph | .heading _ | .blockQuote | .codeBlock _ | .htmlBlock | .list _ | .table _ => true
  | _ => false

/-- The events of one element of the top level. -/
inductive TopLevel : List Event → Prop
  | rule : TopLevel [.rule]
  | started {tag body} (htag : tag.isTopLevel = true) (hbody : Nested tag.content body) :
      TopLevel (.start tag :: (body ++ [.stop]))

section TopLevel

variable (isAlphanumeric : Char → Bool)

/-- The blocks built from one group of events alone. -/
def groupBlocks (group : Cursor) : List TopBlock :=
  parseTopBlocks isAlphanumeric (3 * group.length) group []

@[simp] theorem parseTopBlocks_nil (fuel : Nat) (blocks : List TopBlock) :
    parseTopBlocks isAlphanumeric fuel [] blocks = blocks := by
  cases fuel with
  | zero | succ fuel => rfl

theorem length_parseStartedBlock_le {tag : Tag} (htag : tag.isTopLevel = true) (fuel : Nat)
    (opened : Range) (cur : Cursor) :
    (parseStartedBlock isAlphanumeric fuel ((.start tag, opened) :: cur)).1.length ≤ 1 := by
  cases fuel with
  | zero => exact Nat.zero_le 1
  | succ fuel =>
    cases tag with
    | htmlBlock =>
      simp only [parseStartedBlock]
      split
      · exact Nat.zero_le 1
      · exact le_rfl
    | paragraph | heading | blockQuote | codeBlock | list | table => exact le_rfl
    | _ => cases htag

/-- An element of the top level gives at most one block, with the range of its first
event, and the rest of the events is read on their own. -/
theorem parseTopBlocks_topLevel {events : List Event} (hgroup : TopLevel events) :
    ∃ block : Option Block, ∀ event range inner rest fuel blocks,
      event :: inner.map Prod.fst = events → 3 * events.length ≤ fuel + 1 →
      parseTopBlocks isAlphanumeric (fuel + 1) ((event, range) :: (inner ++ rest)) blocks =
        parseTopBlocks isAlphanumeric fuel rest (blocks ++ (block.map (TopBlock.mk range)).toList) := by
  cases hgroup with
  | rule =>
    refine ⟨some .rule, fun event range inner rest fuel blocks hevents hfuel => ?_⟩
    rw [List.cons.injEq, map_eq_nil_iff] at hevents
    obtain ⟨rfl, rfl⟩ := hevents
    rfl
  | @started tag body htag hbody =>
    obtain ⟨out, hout⟩ := parseStartedBlock_nested isAlphanumeric hbody
      (fun hinside _ => parseBlockSequence_nested isAlphanumeric hinside [] [])
    have hlength : out.length ≤ 1 := by
      have hanywhere : ((body ++ [Event.stop]).map fun event => (event, Range.mk 0 0)).map
          Prod.fst = body ++ [Event.stop] := by
        rw [map_map]
        exact map_id _
      have hread := hout ⟨0, 0⟩ _ [] _ le_rfl hanywhere
      have hle := length_parseStartedBlock_le isAlphanumeric htag (3 * body.length + 2 + 1) ⟨0, 0⟩
        ((body ++ [Event.stop]).map (fun event => (event, Range.mk 0 0)) ++ [])
      rwa [hread] at hle
    obtain ⟨block, rfl⟩ : ∃ block : Option Block, out = block.toList := by
      match out, hlength with
      | [], _ => exact ⟨none, rfl⟩
      | [block], _ => exact ⟨some block, rfl⟩
    refine ⟨block, fun event range inner rest fuel blocks hevents hfuel => ?_⟩
    obtain ⟨rfl, hinner⟩ := List.cons.inj hevents
    simp only [length_cons, length_append] at hfuel
    obtain ⟨fuel, rfl⟩ := Nat.exists_eq_add_of_le' (show 1 ≤ fuel by omega)
    rw [parseTopBlocks]
    simp only [hout range inner rest fuel (by omega) hinner]
    cases block with
    | none | some block => rfl

theorem groupBlocks_topLevel {events : List Event} (hgroup : TopLevel events) :
    ∃ block : Option Block, ∀ event range inner, event :: inner.map Prod.fst = events →
      groupBlocks isAlphanumeric ((event, range) :: inner) =
          (block.map (TopBlock.mk range)).toList ∧
        ∀ rest fuel blocks, 3 * events.length ≤ fuel + 1 →
          parseTopBlocks isAlphanumeric (fuel + 1) ((event, range) :: (inner ++ rest)) blocks =
            parseTopBlocks isAlphanumeric fuel rest
              (blocks ++ (block.map (TopBlock.mk range)).toList) := by
  obtain ⟨block, hblock⟩ := parseTopBlocks_topLevel isAlphanumeric hgroup
  refine ⟨block, fun event range inner hevents => ⟨?_, fun rest fuel blocks hfuel =>
    hblock event range inner rest fuel blocks hevents hfuel⟩⟩
  have hlength : events.length = inner.length + 1 := by
    rw [← hevents, length_cons, length_map]
  have hread := hblock event range inner [] (3 * inner.length + 2) [] hevents (by omega)
  rw [append_nil, parseTopBlocks_nil, nil_append] at hread
  exact hread

/-- The top-level blocks of a sequence of groups are those of the groups in order. -/
theorem parseTopBlocks_flatten {groups : List Cursor}
    (hgroups : ∀ group ∈ groups, group = [] ∨ TopLevel (group.map Prod.fst)) (fuel : Nat)
    (blocks : List TopBlock) (hfuel : 3 * groups.flatten.length ≤ fuel) :
    parseTopBlocks isAlphanumeric fuel groups.flatten blocks =
      blocks ++ groups.flatMap (groupBlocks isAlphanumeric) := by
  induction groups generalizing fuel blocks with
  | nil => simp
  | cons group rest ih =>
    rw [forall_mem_cons] at hgroups
    rw [flatten_cons, length_append] at hfuel
    rw [flatten_cons, flatMap_cons]
    rcases hgroups.1 with rfl | hgroup
    · exact ih hgroups.2 fuel blocks (by simpa using hfuel)
    · obtain ⟨block, hblock⟩ := groupBlocks_topLevel isAlphanumeric hgroup
      cases group with
      | nil => cases hgroup
      | cons entry inner =>
        obtain ⟨halone, hread⟩ := hblock entry.1 entry.2 inner rfl
        simp only [map_cons, length_cons, length_map] at hfuel hread
        obtain ⟨fuel, rfl⟩ := Nat.exists_eq_add_of_le' (show 1 ≤ fuel by omega)
        rw [cons_append, hread _ fuel blocks (by omega), ih hgroups.2 fuel _ (by omega),
          halone, append_assoc]

theorem groupBlocks_shift {group : Cursor} (hgroup : group = [] ∨ TopLevel (group.map Prod.fst))
    (offset : Nat) :
    groupBlocks isAlphanumeric (group.map (shiftEvent offset)) =
      (groupBlocks isAlphanumeric group).map (TopBlock.shift offset) := by
  rcases hgroup with rfl | hgroup
  · rfl
  · obtain ⟨block, hblock⟩ := groupBlocks_topLevel isAlphanumeric hgroup
    cases group with
    | nil => cases hgroup
    | cons entry inner =>
      have hmoved := (hblock entry.1 (entry.2.shift offset) (inner.map (shiftEvent offset)) (by
        rw [map_map]
        rfl)).1
      have hhere := (hblock entry.1 entry.2 inner rfl).1
      rw [map_cons, shiftEvent, hmoved, hhere]
      cases block with
      | none | some block => rfl

theorem groupBlocks_cases {group : Cursor} (hgroup : group = [] ∨ TopLevel (group.map Prod.fst)) :
    groupBlocks isAlphanumeric group = [] ∨
      ∃ event range inner block, group = (event, range) :: inner ∧
        groupBlocks isAlphanumeric group = [⟨range, block⟩] := by
  rcases hgroup with rfl | hgroup
  · exact Or.inl rfl
  · obtain ⟨block, hblock⟩ := groupBlocks_topLevel isAlphanumeric hgroup
    cases group with
    | nil => cases hgroup
    | cons entry inner =>
      have hhere := (hblock entry.1 entry.2 inner rfl).1
      cases block with
      | none => exact Or.inl hhere
      | some block => exact Or.inr ⟨entry.1, entry.2, inner, block, rfl, hhere⟩

end TopLevel

end Markdown

end Keel
