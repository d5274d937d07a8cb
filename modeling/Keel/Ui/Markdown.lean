import Keel.Foundation.Text

/-! # Markdown blocks from a stream of parse events

The block tree the interface renders, and the pass that builds it from the events of
the markdown parser: top-level blocks with their ranges in the source, containers
read up to their matching end, and inline runs merged and autolinked.

The loops of the source read a cursor over the events; here the cursor is the list of
the events left, and fuel bounds the depth of the calls.
-/

namespace Keel

namespace Markdown

/-! ## Tree model -/

/-- Inline styling flags; `link` is the destination inside a link. -/
structure InlineStyle where
  bold : Bool
  italic : Bool
  code : Bool
  strikethrough : Bool
  link : Option (List Char)
  deriving DecidableEq

instance : Inhabited InlineStyle := ⟨⟨false, false, false, false, none⟩⟩

structure InlineRun where
  text : List Char
  style : InlineStyle
  deriving DecidableEq

inductive TableAlign where
  | left
  | center
  | right
  deriving DecidableEq

inductive Block where
  | paragraph (runs : List InlineRun)
  | heading (level : Nat) (runs : List InlineRun)
  | codeBlock (language : Option (List Char)) (code : List Char)
  | blockQuote (children : List Block)
  | list (orderedStart : Option Nat) (items : List (List Block))
  | table (header : List (List InlineRun)) (rows : List (List (List InlineRun)))
      (align : List TableAlign)
  | rule

/-- A range of byte offsets in the source. -/
structure Range where
  start : Nat
  stop : Nat
  deriving DecidableEq

def Range.shift (offset : Nat) (range : Range) : Range :=
  ⟨range.start + offset, range.stop + offset⟩

structure TopBlock where
  range : Range
  block : Block

/-- Top-level blocks in document order. -/
structure BlockTree where
  blocks : List TopBlock

/-! ## Events -/

inductive Alignment where
  | none
  | left
  | center
  | right
  deriving DecidableEq

inductive CodeBlockKind where
  | indented
  | fenced (info : List Char)
  deriving DecidableEq

inductive Tag where
  | paragraph
  | heading (level : Nat)
  | blockQuote
  | codeBlock (kind : CodeBlockKind)
  | htmlBlock
  | list (start : Option Nat)
  | item
  | footnoteDefinition (label : List Char)
  | table (alignment : List Alignment)
  | tableHead
  | tableRow
  | tableCell
  | emphasis
  | strong
  | strikethrough
  | link (destUrl : List Char)
  | image (destUrl : List Char)
  | metadataBlock
  deriving DecidableEq

inductive Event where
  | start (tag : Tag)
  /-- The end of the innermost open tag. -/
  | stop
  | text (text : List Char)
  | code (text : List Char)
  | html (text : List Char)
  | inlineHtml (text : List Char)
  | inlineMath (text : List Char)
  | displayMath (text : List Char)
  | footnoteReference (label : List Char)
  | softBreak
  | hardBreak
  | rule
  | taskListMarker (done : Bool)
  deriving DecidableEq

/-- The events left to read, with their ranges. -/
abbrev Cursor := List (Event × Range)

def isBlockTag : Tag → Bool
  | .paragraph | .heading _ | .codeBlock _ | .blockQuote | .list _ | .item | .table _
  | .htmlBlock | .footnoteDefinition _ => true
  | _ => false

/-! ## Inline runs -/

def mergeRuns (runs : List InlineRun) : List InlineRun :=
  runs.foldl (fun out run =>
    match out.getLast? with
    | some last =>
      if last.style = run.style then
        out.dropLast ++ [{ last with text := last.text ++ run.text }]
      else out ++ [run]
    | none => out ++ [run]) []

/-- A run added unless its text is empty. -/
def pushRun (runs : List InlineRun) (text : List Char) (style : InlineStyle) : List InlineRun :=
  if text.isEmpty then runs else runs ++ [⟨text, style⟩]

def findText (needle text : List Char) : Option Nat :=
  text.tails.findIdx? fun suffix => needle.isPrefixOf suffix

section Autolink

-- The alphanumeric characters of the Unicode tables.
variable (isAlphanumeric : Char → Bool)

/-- The position of the first bare URL not glued to an alphanumeric character, looked
for from a position on. -/
def findUrlStart (text : List Char) : Nat → Nat → Option Nat
  | 0, _ => none
  | fuel + 1, start =>
    match findText "http".toList (text.drop start) with
    | none => none
    | some offset =>
      let position := start + offset
      let after := text.drop position
      let isScheme := "http://".toList.isPrefixOf after || "https://".toList.isPrefixOf after
      let boundary := (text.take position).getLast?.all fun c => !isAlphanumeric c
      if isScheme && boundary then some position
      else findUrlStart text fuel (position + "http".length)

/-- Drop trailing punctuation; a closing parenthesis stays when one opened in the URL
balances it. -/
def trimUrl : Nat → List Char → List Char
  | 0, url => url
  | fuel + 1, url =>
    match url.getLast? with
    | none => url
    | some last =>
      let trim :=
        match last with
        | '.' | ',' | ';' | ':' | '!' | '?' | '*' | '_' | '~' => true
        | ')' => url.count '(' < url.count ')'
        | _ => false
      if trim then trimUrl fuel url.dropLast else url

/-- The length of the bare URL at the start of a text, in characters. -/
def bareUrlLen (text : List Char) : Nat :=
  let url := text.takeWhile fun c =>
    !(Text.isWhitespace c || "<>\"'`".toList.contains c)
  (trimUrl url.length url).length

/-- A text as runs, with its bare URLs linked. -/
def pushTextAutolinked : Nat → List InlineRun → List Char → InlineStyle → List InlineRun
  | 0, runs, rest, style => pushRun runs rest style
  | fuel + 1, runs, rest, style =>
    match findUrlStart isAlphanumeric rest rest.length 0 with
    | none => pushRun runs rest style
    | some position =>
      let url := rest.drop position
      let scheme :=
        if "https://".toList.isPrefixOf url then "https://".length else "http://".length
      let len := bareUrlLen url
      if len ≤ scheme then
        pushTextAutolinked fuel (pushRun runs (rest.take (position + scheme)) style)
          (url.drop scheme) style
      else
        let runs := pushRun runs (rest.take position) style
        let linked := { style with link := some (url.take len) }
        pushTextAutolinked fuel (pushRun runs (url.take len) linked) (url.drop len) style

/-- Bare URLs promoted to links, except in links and code. -/
def autolinkRuns (runs : List InlineRun) : List InlineRun :=
  runs.foldl (fun out run =>
    if run.style.link.isSome || run.style.code then out ++ [run]
    else pushTextAutolinked isAlphanumeric run.text.length out run.text run.style) []

end Autolink

/-! ## Parsing the events -/

def InlineStyle.within (style : InlineStyle) : Tag → InlineStyle
  | .emphasis => { style with italic := true }
  | .strong => { style with bold := true }
  | .strikethrough => { style with strikethrough := true }
  | .link destUrl | .image destUrl => { style with link := some destUrl }
  | _ => style

section Parse

-- The alphanumeric characters of the Unicode tables.
variable (isAlphanumeric : Char → Bool)

mutual

/-- Read inline events up to the end of their container, and past it. -/
def parseInlineContainer : Nat → Cursor → InlineStyle → List InlineRun × Cursor
  | 0, cur, _ => ([], cur)
  | fuel + 1, cur, style =>
    let (runs, cur) := parseInlineEvents fuel cur [] style
    -- The parser splits text at would-be emphasis, so runs merge before they autolink.
    (autolinkRuns isAlphanumeric (mergeRuns runs), cur)

def parseInlineEvents : Nat → Cursor → List InlineRun → InlineStyle → List InlineRun × Cursor
  | 0, cur, runs, _ => (runs, cur)
  | fuel + 1, cur, runs, style =>
    match cur with
    | [] => (runs, [])
    | (.stop, _) :: rest => (runs, rest)
    | _ =>
      let (runs, cur) := parseInlineEvent fuel cur runs style
      parseInlineEvents fuel cur runs style

def parseInlineEvent : Nat → Cursor → List InlineRun → InlineStyle → List InlineRun × Cursor
  | 0, cur, runs, _ => (runs, cur)
  | fuel + 1, cur, runs, style =>
    match cur with
    | [] => (runs, [])
    | (event, _) :: cur =>
      match event with
      | .text text => (pushRun runs text style, cur)
      | .code text => (pushRun runs text { style with code := true }, cur)
      | .softBreak => (pushRun runs [' '] style, cur)
      | .hardBreak => (pushRun runs ['\n'] style, cur)
      | .html text | .inlineHtml text => (pushRun runs text style, cur)
      | .taskListMarker done =>
        (pushRun runs (if done then "[x] " else "[ ] ").toList style, cur)
      | .footnoteReference label => (pushRun runs (['['] ++ label ++ [']']) style, cur)
      | .start tag =>
        let (inner, cur) := parseInlineContainer fuel cur (style.within tag)
        (runs ++ inner, cur)
      -- The container reads its end itself; anything else is ignored.
      | _ => (runs, cur)

end

def parseTableCells : Nat → Cursor → List (List InlineRun) → List (List InlineRun) × Cursor
  | 0, cur, cells => (cells, cur)
  | fuel + 1, cur, cells =>
    match cur with
    | [] => (cells, [])
    | (.stop, _) :: rest => (cells, rest)
    | (.start .tableCell, _) :: rest =>
      let (cell, cur) := parseInlineContainer isAlphanumeric fuel rest default
      parseTableCells fuel cur (cells ++ [cell])
    | _ :: rest => parseTableCells fuel rest cells

def parseTable (align : List TableAlign) : Nat → Cursor → List (List InlineRun) →
    List (List (List InlineRun)) → Block × Cursor
  | 0, cur, header, rows => (.table header rows align, cur)
  | fuel + 1, cur, header, rows =>
    match cur with
    | [] => (.table header rows align, [])
    | (.stop, _) :: rest => (.table header rows align, rest)
    | (.start .tableHead, _) :: rest =>
      let (cells, cur) := parseTableCells isAlphanumeric fuel rest []
      parseTable align fuel cur cells rows
    | (.start .tableRow, _) :: rest =>
      let (cells, cur) := parseTableCells isAlphanumeric fuel rest []
      parseTable align fuel cur header (rows ++ [cells])
    | _ :: rest => parseTable align fuel rest header rows

/-- The text of a code block, up to the first end. -/
def codeText : Cursor → List Char → List Char × Cursor
  | [], code => (code, [])
  | (.stop, _) :: rest, code => (code, rest)
  | (.text text, _) :: rest, code => codeText rest (code ++ text)
  | _ :: rest, code => codeText rest code

/-- The text of a raw HTML block, up to the first end. -/
def htmlText : Cursor → List Char → List Char × Cursor
  | [], text => (text, [])
  | (.stop, _) :: rest, text => (text, rest)
  | (.html more, _) :: rest, text | (.text more, _) :: rest, text => htmlText rest (text ++ more)
  | _ :: rest, text => htmlText rest text

def Alignment.toTableAlign : Alignment → TableAlign
  | .center => .center
  | .right => .right
  | .none | .left => .left

def CodeBlockKind.language : CodeBlockKind → Option (List Char)
  | .indented => none
  | .fenced info => (Text.splitWhitespace info).head?

/-- The runs gathered between blocks become a paragraph. -/
def flushParagraph (out : List Block) (acc : List InlineRun) : List Block :=
  if acc.isEmpty then out else out ++ [.paragraph (mergeRuns acc)]

mutual

/-- Read a start and everything up to its matching end. -/
def parseStartedBlock : Nat → Cursor → List Block × Cursor
  | 0, cur => ([], cur)
  | fuel + 1, cur =>
    match cur with
    | (.start tag, _) :: cur =>
      match tag with
      | .paragraph =>
        let (runs, cur) := parseInlineContainer isAlphanumeric fuel cur default
        ([.paragraph runs], cur)
      | .heading level =>
        let (runs, cur) := parseInlineContainer isAlphanumeric fuel cur default
        ([.heading level runs], cur)
      | .codeBlock kind =>
        let (code, cur) := codeText cur []
        -- Fenced blocks carry a trailing newline.
        let code := if code.getLast? = some '\n' then code.dropLast else code
        ([.codeBlock kind.language code], cur)
      | .blockQuote =>
        let (children, cur) := parseBlockSequence fuel cur [] []
        ([.blockQuote children], cur)
      | .list start =>
        let (items, cur) := parseListItems fuel cur []
        ([.list start items], cur)
      | .table alignment =>
        let align := alignment.map Alignment.toTableAlign
        let (table, cur) := parseTable isAlphanumeric align fuel cur [] []
        ([table], cur)
      | .htmlBlock =>
        let (text, cur) := htmlText cur []
        let text := text.rdropWhile (· == '\n')
        (if text.isEmpty then [] else [.paragraph [⟨text, default⟩]], cur)
      -- Other containers are transparent.
      | _ => parseBlockSequence fuel cur [] []
    | _ :: cur => ([], cur)
    | [] => ([], [])

/-- Read blocks up to the end of their container, and past it. Inline events between
blocks gather into a paragraph. -/
def parseBlockSequence : Nat → Cursor → List Block → List InlineRun → List Block × Cursor
  | 0, cur, out, acc => (flushParagraph out acc, cur)
  | fuel + 1, cur, out, acc =>
    match cur with
    | [] => (flushParagraph out acc, [])
    | (.stop, _) :: rest => (flushParagraph out acc, rest)
    | (.rule, _) :: rest =>
      parseBlockSequence fuel rest (flushParagraph out acc ++ [.rule]) []
    | (.start tag, range) :: rest =>
      if isBlockTag tag then
        let (blocks, cur) := parseStartedBlock fuel ((.start tag, range) :: rest)
        parseBlockSequence fuel cur (flushParagraph out acc ++ blocks) []
      else
        let (acc, cur) :=
          parseInlineEvent isAlphanumeric fuel ((.start tag, range) :: rest) acc default
        parseBlockSequence fuel cur out acc
    | event :: rest =>
      let (acc, cur) := parseInlineEvent isAlphanumeric fuel (event :: rest) acc default
      parseBlockSequence fuel cur out acc

/-- The items of a list; events between them are skipped. -/
def parseListItems : Nat → Cursor → List (List Block) → List (List Block) × Cursor
  | 0, cur, items => (items, cur)
  | fuel + 1, cur, items =>
    match cur with
    | [] => (items, [])
    | (.stop, _) :: rest => (items, rest)
    | (.start .item, _) :: rest =>
      let (item, cur) := parseBlockSequence fuel rest [] []
      parseListItems fuel cur (items ++ [item])
    | _ :: rest => parseListItems fuel rest items

end

/-- The blocks of the top level; each started block takes the range of its start. -/
def parseTopBlocks : Nat → Cursor → List TopBlock → List TopBlock
  | 0, _, blocks => blocks
  | fuel + 1, cur, blocks =>
    match cur with
    | [] => blocks
    | (.rule, range) :: rest => parseTopBlocks fuel rest (blocks ++ [⟨range, .rule⟩])
    | (.start tag, range) :: rest =>
      let (started, cur) := parseStartedBlock isAlphanumeric fuel ((.start tag, range) :: rest)
      parseTopBlocks fuel cur (blocks ++ started.map fun block => ⟨range, block⟩)
    | _ :: rest => parseTopBlocks fuel rest blocks

/-- Parse a whole source, given the events of the markdown parser on it. -/
def parseFull (parser : List Char → Cursor) (source : List Char) : BlockTree :=
  let events := parser source
  ⟨parseTopBlocks isAlphanumeric (3 * events.length) events []⟩

end Parse

end Markdown

end Keel
