import Std.Data.ExtTreeMap.Lemmas
import Keel.Foundation.Records
import Keel.Foundation.Utf8
import Keel.Proto.Agent

/-! # The run journal

Each chat has a file of events, one JSON object on a line, numbered from one. An
append writes one line; a crash may cut it at any byte. Every reader goes through
the same line reader, which skips lines that do not parse and fails on bytes that
are not UTF-8.
-/

namespace Keel

/-- A numbered event, as one line holds it. -/
abbrev JournalLine := Nat × AgentEvent

/-- The JSON library on journal lines. -/
abbrev JournalCodec := Records.Codec JournalLine

/-- A file that cannot be read as text. -/
inductive JournalError where
  | io
deriving DecidableEq

structure ChatJournal where
  nextSeq : Nat
  /-- The file ends inside a line. -/
  needsNewline : Bool

/-- The journal directory by file stem, and the files held open by chat id. -/
structure RunJournal where
  files : Std.ExtTreeMap String (List UInt8) compare := ∅
  openFiles : Std.ExtTreeMap String ChatJournal compare := ∅

/-- Chat ids become file names; other characters are replaced. -/
def sanitizeId (chatId : String) : String :=
  String.ofList <| chatId.toList.map fun c =>
    if Text.isAsciiAlphanumeric c || c == '-' || c == '_' then c else '_'

def openFileCap : Nat := 16

variable (codec : JournalCodec)

/-- Every line that parses. A missing file has none. -/
def readLines : Option (List UInt8) → Except JournalError (List JournalLine)
  | none => .ok []
  | some bytes =>
    match (Utf8.byteLines bytes).mapM Utf8.decode with
    | none => .error .io
    | some lines => .ok (lines.filterMap fun line =>
      if (Text.trim line).isEmpty then none else codec.parse line)

/-- The next number, and whether the file ends inside a line. -/
def scanTail : Option (List UInt8) → Except JournalError (Nat × Bool)
  | none => .ok (1, false)
  | some bytes =>
    let needsNewline := bytes.getLast?.any fun byte => byte ≠ 10
    match readLines codec (some bytes) with
    | .error error => .error error
    | .ok lines => .ok ((lines.getLast?.map fun line => line.1 + 1).getD 1, needsNewline)

def ChatJournal.buffer (journal : ChatJournal) (event : AgentEvent) : List UInt8 :=
  (if journal.needsNewline then [10] else []) ++
    Utf8.encode (codec.print (journal.nextSeq, event)) ++ [10]

namespace RunJournal

def fileFor (journal : RunJournal) (chatId : String) : Option (List UInt8) :=
  journal.files[sanitizeId chatId]?

/-- Open the file of a chat, unless it is open. At the cap all others are closed. -/
def openFor (journal : RunJournal) (chatId : String) : RunJournal × Except JournalError ChatJournal :=
  match journal.openFiles[chatId]? with
  | some entry => (journal, .ok entry)
  | none =>
    let journal :=
      if journal.openFiles.size ≥ openFileCap then { journal with openFiles := ∅ } else journal
    match scanTail codec (journal.fileFor chatId) with
    | .error error => (journal, .error error)
    | .ok (nextSeq, needsNewline) =>
      let entry : ChatJournal := { nextSeq, needsNewline }
      ({ files := journal.files.insert (sanitizeId chatId) ((journal.fileFor chatId).getD [])
         openFiles := journal.openFiles.insert chatId entry }, .ok entry)

/-- Write bytes at the end of a chat's file. -/
def writeAll (journal : RunJournal) (chatId : String) (bytes : List UInt8) : RunJournal :=
  { journal with
    files := journal.files.insert (sanitizeId chatId) ((journal.fileFor chatId).getD [] ++ bytes) }

def append (journal : RunJournal) (chatId : String) (event : AgentEvent) :
    RunJournal × Except JournalError Nat :=
  match journal.openFor codec chatId with
  | (journal, .error error) => (journal, .error error)
  | (journal, .ok entry) =>
    let journal := journal.writeAll chatId (entry.buffer codec event)
    ({ journal with
        openFiles := journal.openFiles.insert chatId
          { nextSeq := entry.nextSeq + 1, needsNewline := false } }, .ok entry.nextSeq)

/-- The process dies in an append after `cut` bytes of it; the next one starts with
no file open. -/
def tornAppend (journal : RunJournal) (chatId : String) (event : AgentEvent) (cut : Nat) :
    RunJournal :=
  match journal.openFor codec chatId with
  | (journal, .error _) => { journal with openFiles := ∅ }
  | (journal, .ok entry) =>
    { journal.writeAll chatId ((entry.buffer codec event).take cut) with openFiles := ∅ }

def replay (journal : RunJournal) (chatId : String) (afterSeq : Nat) :
    Except JournalError (List JournalLine) :=
  match readLines codec (journal.fileFor chatId) with
  | .error error => .error error
  | .ok lines =>
    let lastSeq := (lines.getLast?.map Prod.fst).getD 0
    -- A cursor ahead of the file belongs to an earlier file.
    let start := if afterSeq > lastSeq then 0 else afterSeq
    .ok (lines.filter fun line => line.1 > start)

def lastEvent (journal : RunJournal) (chatId : String) : Except JournalError (Option JournalLine) :=
  match readLines codec (journal.fileFor chatId) with
  | .error error => .error error
  | .ok lines => .ok lines.getLast?

/-- The journal ends with an event other than the end of the run. -/
def isStale (lines : List JournalLine) : Bool :=
  match lines.getLast? with
  | none | some (_, .done _ _ _ _) => false
  | some _ => true

/-- The stems of the stale journals; one unreadable journal fails the scan. -/
def staleSessions (journal : RunJournal) : Except JournalError (List String) :=
  match journal.files.toList.mapM fun (stem, bytes) =>
      match readLines codec (some bytes) with
      | .error _ => none
      | .ok lines => some (stem, isStale lines) with
  | none => .error .io
  | some scanned => .ok (((scanned.filter Prod.snd).map Prod.fst).mergeSort fun a b => a ≤ b)

end RunJournal

end Keel
