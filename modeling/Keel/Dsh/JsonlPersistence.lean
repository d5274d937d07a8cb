import Keel.Dsh.SessionLog
import Keel.Foundation.Records

/-! # Session artifacts

A session is stored in one file: a header line, then one event on each line. A
write goes to the physical end of the file and may be cut by a crash at any byte.
-/

namespace Keel.Session

structure HeaderLine where
  kind : String
  version : Nat
  id : String
  createdAt : Nat
  cwd : Option String
  parentSession : Option String
  seedLength : Option Nat
  origin : Option SessionOrigin
  delegationDepth : Nat
  agentPreset : Option String

/-- The JSON library on the two kinds of line. -/
structure SessionCodec where
  header : Records.Codec HeaderLine
  event : Records.Codec Event

inductive PersistenceError where
  /-- The file is missing or is not text. -/
  | io
  | json
  | message (text : String)

structure SessionInspection where
  metadata : Header
  events : List Event

def toHeaderLine (header : Header) : HeaderLine where
  kind := "session"
  version := header.version
  id := header.id
  createdAt := header.createdAt
  cwd := header.cwd
  parentSession := header.parentSession
  seedLength := header.seedLength
  origin := header.origin
  delegationDepth := header.delegationDepth.getD 0
  agentPreset := header.agentPreset

def sessionFormatVersionRefusal (found : Nat) : String :=
  "session log format version " ++ toString found ++
    " is not supported by this build (expected " ++ toString sessionFormatVersion ++ ")"

def fromHeaderLine (line : HeaderLine) : Except PersistenceError Header :=
  if line.kind ≠ "session" then
    .error (.message "session artifact does not start with a session header line")
  else if line.version ≠ sessionFormatVersion then
    .error (.message (sessionFormatVersionRefusal line.version))
  else
    .ok
      { version := line.version
        id := line.id
        createdAt := line.createdAt
        cwd := line.cwd
        parentSession := line.parentSession
        seedLength := line.seedLength
        origin := line.origin
        delegationDepth := if line.delegationDepth > 0 then some line.delegationDepth else none
        agentPreset := line.agentPreset }

/-- `trim_end_matches(['\n', '\r'])`. -/
def trimLineEnd (line : List Char) : List Char := line.rdropWhile fun c => c = '\n' ∨ c = '\r'

variable (codec : SessionCodec)

/-- The events of the lines behind the header. A line that does not parse ends the
log when it is the unterminated last one. -/
def readEvents : List (List Char) → List Event → Except PersistenceError (List Event)
  | [], events => .ok events
  | line :: rest, events =>
    let terminated := line.getLast? = some '\n'
    let text := trimLineEnd line
    if text.isEmpty then readEvents rest events
    else
      match codec.event.parse text with
      | some event =>
        if event.seq ≠ events.length then
          .error (.message ("session artifact event seq " ++ toString event.seq ++
            " is not contiguous (expected " ++ toString events.length ++ ")"))
        else if event.isReadable then readEvents rest (events ++ [event])
        else
          .error (.message ("session artifact contains unknown required event type \"" ++
            event.data.eventType ++ "\"; this log was likely written by a newer harness"))
      | none =>
        if terminated then
          .error (.message "session artifact contains a corrupt committed event line")
        else .ok events

def readArtifact (file : Option (List UInt8)) : Except PersistenceError (Header × List Event) :=
  match file.bind Utf8.decode with
  | none => .error .io
  | some content =>
    match Records.splitInclusive content with
    | [] => .error (.message "session artifact is empty")
    | headerLine :: lines =>
      if headerLine.getLast? ≠ some '\n' then
        .error (.message "session artifact header line is torn")
      else
        match codec.header.parse (Text.trimEnd headerLine) with
        | none => .error .json
        | some line =>
          match fromHeaderLine line with
          | .error error => .error error
          | .ok header =>
            match readEvents codec lines [] with
            | .error error => .error error
            | .ok events => .ok (header, events)

/-- The bytes of a write that reach the file when the process dies after `cut` of
them. -/
def reached (buffer : List UInt8) : Option Nat → List UInt8
  | none => buffer
  | some cut => buffer.take cut

def appendLines (bytes : List UInt8) (events : List Event) (cut : Option Nat) : List UInt8 :=
  bytes ++ reached (Utf8.encode (Records.text (events.map codec.event.print))) cut

/-- Write the header line, unless the file is there. -/
def create (file : Option (List UInt8)) (header : Header) : Option (List UInt8) :=
  match file with
  | some bytes => some bytes
  | none => some (Utf8.encode (codec.header.print (toHeaderLine header) ++ ['\n']))

def append (file : Option (List UInt8)) (id : String) (events : List Event) (cut : Option Nat) :
    Option (List UInt8) × Except PersistenceError Unit :=
  match file with
  | none =>
    (none, .error (.message ("session \"" ++ id ++ "\" was never created in this store")))
  | some bytes =>
    match readArtifact codec (some bytes) with
    | .error error => (some bytes, .error error)
    | .ok (_, stored) =>
      match events.head? with
      | none => (some (appendLines codec bytes events cut), .ok ())
      | some first =>
        if first.seq ≠ stored.length then
          (some bytes, .error (.message ("append batch starts at seq " ++ toString first.seq ++
            " but stored next-seq is " ++ toString stored.length)))
        else (some (appendLines codec bytes events cut), .ok ())

def inspectSync (file : Option (List UInt8)) (commitRepair : Bool) (cut : Option Nat) :
    Option (List UInt8) × Except PersistenceError SessionInspection :=
  match readArtifact codec file with
  | .error error => (file, .error error)
  | .ok (metadata, events) =>
    let closers := interruptedTurnClosers events
    let file :=
      if !closers.isEmpty && commitRepair then
        file.map fun bytes => appendLines codec bytes closers cut
      else file
    (file, .ok { metadata, events := events ++ closers })

/-- Read the log and close its open turn in the file. -/
def load (file : Option (List UInt8)) (cut : Option Nat) :
    Option (List UInt8) × Except PersistenceError SessionInspection :=
  inspectSync codec file true cut

def inspect (file : Option (List UInt8)) : Except PersistenceError SessionInspection :=
  (inspectSync codec file false none).2

def readFrom (file : Option (List UInt8)) (fromSeq : Nat) :
    Except PersistenceError (Header × List Event) :=
  match readArtifact codec file with
  | .error error => .error error
  | .ok (metadata, events) => .ok (metadata, events.filter fun event => event.seq ≥ fromSeq)

end Keel.Session
