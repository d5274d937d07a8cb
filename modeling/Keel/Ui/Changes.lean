import Keel.Foundation.Text

/-! # The patch parser

A unified git patch, read line by line into file sections. The parser is tolerant: header
lines that it does not know are skipped, and a line that cannot belong to a hunk ends it.
-/

namespace Keel.Patch

open Text

inductive LineKind where
  | context
  | add
  | del
  /-- `\ No newline at end of file` and friends. -/
  | metaLine
deriving DecidableEq

structure DiffLine where
  kind : LineKind
  oldNo : Option UInt32
  newNo : Option UInt32
  text : List Char

structure Hunk where
  header : List Char
  lines : List DiffLine

inductive FileStatus where
  | added
  | deleted
  | modified
  | renamed

structure FileDiff where
  path : List Char
  oldPath : Option (List Char)
  status : FileStatus := .modified
  binary : Bool := false
  notices : List (List Char) := []
  hunks : List Hunk := []
  additions : UInt32 := 0
  deletions : UInt32 := 0
  /-- The largest line number on either side. -/
  maxLine : UInt32 := 0

def FileDiff.lines (file : FileDiff) : List DiffLine := file.hunks.flatMap Hunk.lines

def stripGitPrefix (path : List Char) : List Char :=
  (stripPrefix "a/".toList path <|> stripPrefix "b/".toList path).getD path

def unquote (text : List Char) : List Char :=
  let trimmed := trim text
  if trimmed.length ≥ 2 ∧ trimmed.head? = some '"' ∧ trimmed.getLast? = some '"' then
    replacePair '\\' '\\' '\\' (replacePair '\\' '"' '"' trimmed.tail.dropLast)
  else trimmed

/-- The old and the new path of a `diff --git a/… b/…` line. -/
def parseGitPaths (rest : List Char) : List Char × List Char :=
  match splitBeforeLast " b/".toList rest <|> splitBeforeLast " \"b/".toList rest with
  | some (old, new) => (stripGitPrefix (unquote old), stripGitPrefix (unquote new.tail))
  | none =>
    let path := stripGitPrefix (unquote rest)
    (path, path)

/-- The number that follows a sign, up to a comma or a space. -/
def lineNumber (sign : Char) (text : List Char) : Option UInt32 := do
  let (_, after) ← splitOnce sign text
  parseU32 (after.takeWhile fun c => ¬ (c = ',' ∨ isWhitespace c))

/-- The starting line numbers of an `@@ -a[,b] +c[,d] @@ …` header. -/
def parseHunkHeader (line : List Char) : Option (UInt32 × UInt32) := do
  let rest ← stripPrefix "@@".toList line
  let old ← lineNumber '-' rest
  let new ← lineNumber '+' rest
  return (old, new)

/-- A line of a hunk, and the line numbers after it. -/
def readHunkLine (oldNo newNo : UInt32) : List Char → Option (DiffLine × UInt32 × UInt32)
  | '+' :: body => some (⟨.add, none, some newNo, body⟩, oldNo, newNo + 1)
  | '-' :: body => some (⟨.del, some oldNo, none, body⟩, oldNo + 1, newNo)
  | ' ' :: body => some (⟨.context, some oldNo, some newNo, body⟩, oldNo + 1, newNo + 1)
  | [] => some (⟨.context, some oldNo, some newNo, []⟩, oldNo + 1, newNo + 1)
  | '\\' :: body =>
    some (⟨.metaLine, none, none, trim (body.dropWhile (· = '\\'))⟩, oldNo, newNo)
  | _ => none

def Hunk.push (hunk : Hunk) (line : DiffLine) : Hunk := { hunk with lines := hunk.lines ++ [line] }

def modifyLast {α : Type} (change : α → α) : List α → List α
  | [] => []
  | [last] => [change last]
  | first :: second :: rest => first :: modifyLast change (second :: rest)

/-- The line is counted, and goes to the last hunk. -/
def FileDiff.push (file : FileDiff) (line : DiffLine) : FileDiff :=
  let counted := { file with
    additions := if line.kind = .add then file.additions + 1 else file.additions
    deletions := if line.kind = .del then file.deletions + 1 else file.deletions }
  if file.hunks = [] then counted
  else { counted with
    maxLine := max (max file.maxLine (line.oldNo.getD 0)) (line.newNo.getD 0)
    hunks := modifyLast (·.push line) file.hunks }

def readHeader (file : FileDiff) (raw : List Char) : FileDiff :=
  if "new file mode".toList.isPrefixOf raw then { file with status := .added }
  else if "deleted file mode".toList.isPrefixOf raw then { file with status := .deleted }
  else if let some origin := stripPrefix "rename from ".toList raw then
    { file with status := .renamed, oldPath := some (trim origin) }
  else if let some target := stripPrefix "rename to ".toList raw then
    { file with status := .renamed, path := trim target }
  else if "Binary files".toList.isPrefixOf raw ∨ "GIT binary patch".toList.isPrefixOf raw then
    { file with binary := true }
  else if let some mode := stripPrefix "new mode ".toList raw then
    { file with notices := file.notices ++ ["Mode changed to ".toList ++ trim mode] }
  else if let some new := stripPrefix "+++ ".toList raw then
    if trim new = "/dev/null".toList then { file with status := .deleted }
    else if file.oldPath = none then { file with path := stripGitPrefix (trim new) }
    else file
  else if (stripPrefix "--- ".toList raw).map trim = some "/dev/null".toList then
    { file with status := .added }
  else file

structure ParseState where
  files : List FileDiff := []
  inHunk : Bool := false
  oldNo : UInt32 := 0
  newNo : UInt32 := 0

def ParseState.onLast (state : ParseState) (change : FileDiff → FileDiff) : ParseState :=
  { state with files := modifyLast change state.files }

def parseLine (state : ParseState) (raw : List Char) : ParseState :=
  match stripPrefix "diff --git ".toList raw with
  | some rest =>
    let (old, new) := parseGitPaths rest
    let file : FileDiff := { path := new, oldPath := if old = new then none else some old }
    { state with files := state.files ++ [file], inHunk := false }
  | none =>
    if state.files = [] then state
    else if "@@".toList.isPrefixOf raw then
      match parseHunkHeader raw with
      | some (oldNo, newNo) =>
        let opened := state.onLast fun file => { file with hunks := file.hunks ++ [⟨raw, []⟩] }
        { opened with inHunk := true, oldNo, newNo }
      | none => state
    else if state.inHunk then
      match readHunkLine state.oldNo state.newNo raw with
      | some (line, oldNo, newNo) => { state.onLast (·.push line) with oldNo, newNo }
      -- a line outside the hunk ends it, and is read as a header
      | none => { state.onLast (readHeader · raw) with inHunk := false }
    else state.onLast (readHeader · raw)

def parsePatch (patch : List Char) : List FileDiff :=
  ((lines patch).foldl parseLine {}).files

end Keel.Patch
