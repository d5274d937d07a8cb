import Keel.Engine.JournalFailures
import Keel.Engine.ResumePoints
import Keel.Doc.Schema

/-! # Boot recovery

At boot every journal without a terminal event is closed with one, the entries its run left
streaming are stamped, and a fresh run with attempts left is resumed. The attempts of a chat are
kept in a file beside its journal until a turn of it completes. The recovery is a loop over the
chats in the order of their ids, and it returns at the first document that cannot be opened or
stamped.
-/

namespace Keel

inductive EngineError where
  | journal (error : JournalError)
  | doc (error : DocError)
  | other (message : String)

/-- The document of a chat, as the recovery sees it. -/
structure RecoveryDoc where
  entries : Except DocError (List SessionMessageEntry)
  /-- Set the status of an entry; the flag says whether there is such an entry. -/
  setMessageStatus : String → Except DocError Bool

structure BootEnv where
  deviceId : String
  now : Int
  /-- Chats with a live run. -/
  live : List String
  docHandle : String → Except EngineError RecoveryDoc

/-- The journals, and the resume attempts by file stem. -/
structure RecoveryDisk where
  journal : RunJournal
  attempts : Std.ExtTreeMap String String compare

/-- What the recovery does, in order. -/
inductive RecoveryWrite where
  | remember (chatId : String) (session : HarnessSessionRef)
  | publish (chatId : String) (event : AgentEvent)
  | stamp (chatId : String) (stamped : List (String × Int)) (note : String)
  | setIdle (chatId : String)
  | noteAttempt (chatId : String)
  /-- The task that dispatches the prompt again is spawned. -/
  | resume (chatId userId prompt : String)

def maxAutoResume : Nat := 3

def resumeFresh : Int := 12 * 60 * 60 * 1000

def resumingNote : String := "Run interrupted by engine restart — resuming"

def interruptedNote : String := "Run interrupted by engine restart"

def recoveryDone (note : String) : AgentEvent := .done .interrupted none (some note) none

namespace RecoveryDisk

def resumeAttempts (disk : RecoveryDisk) (chatId : String) : Nat :=
  match (disk.attempts[sanitizeId chatId]?).bind fun text =>
      Text.parseU32 (Text.trim text.toList) with
  | some attempts => attempts.toNat
  | none => 0

def noteResumeAttempt (disk : RecoveryDisk) (chatId : String) : RecoveryDisk :=
  { disk with
    attempts :=
      disk.attempts.insert (sanitizeId chatId) (toString (disk.resumeAttempts chatId + 1)) }

def clearResumeAttempts (disk : RecoveryDisk) (chatId : String) : RecoveryDisk :=
  { disk with attempts := disk.attempts.erase (sanitizeId chatId) }

variable (codec : JournalCodec)

def apply (disk : RecoveryDisk) : RecoveryWrite → RecoveryDisk
  | .publish chatId event => { disk with journal := (disk.journal.append codec chatId event).1 }
  | .noteAttempt chatId => disk.noteResumeAttempt chatId
  | .remember .. | .stamp .. | .setIdle _ | .resume .. => disk

def applyAll (disk : RecoveryDisk) (writes : List RecoveryWrite) : RecoveryDisk :=
  writes.foldl (apply codec) disk

end RecoveryDisk

namespace RecoveryDoc

/-- Stamp the streaming entries of this device. The first one that cannot be stamped ends it. -/
def stampEntries (doc : RecoveryDoc) (deviceId : String) :
    List SessionMessageEntry → Except DocError (List (String × Int))
  | [] => .ok []
  | entry :: rest =>
    if entry.role = .assistant ∧ entry.status = some .streaming ∧ entry.deviceId = deviceId then
      match doc.setMessageStatus entry.id with
      | .error error => .error error
      | .ok true =>
        (doc.stampEntries deviceId rest).map fun later => (entry.id, entry.createdAt) :: later
      | .ok false => doc.stampEntries deviceId rest
    else doc.stampEntries deviceId rest

def markAbandonedStreams (doc : RecoveryDoc) (deviceId : String) :
    Except DocError (List (String × Int)) :=
  match doc.entries with
  | .error error => .error error
  | .ok entries => doc.stampEntries deviceId entries

/-- The last user message, with the first text in it. -/
def lastPrompt (entries : List SessionMessageEntry) : Option (String × String) :=
  (entries.reverse.find? fun entry => entry.role = .user).bind fun entry =>
    entry.parts.findSome? fun
      | .text _ text => some (entry.id, text)
      | _ => none

/-- The run that was streaming crashed less than twelve hours ago. -/
def isFresh (now : Int) (entries : List SessionMessageEntry) : Bool :=
  match entries.reverse.find? fun entry => entry.status = some .streaming with
  | some entry => decide (now - entry.createdAt < resumeFresh)
  | none => false

end RecoveryDoc

section Recover

variable (codec : JournalCodec) (env : BootEnv)

/-- The recovery of one chat. The flag says whether it was recovered; a chat with a live run is
not. -/
def recoverChat (disk : RecoveryDisk) (chatId : String) :
    List RecoveryWrite × Except EngineError Bool :=
  if env.live.contains chatId then ([], .ok false)
  else
    match env.docHandle chatId with
    | .error error => ([], .error error)
    | .ok doc =>
      let remembered := match disk.journal.harnessSession codec chatId with
        | some session => [RecoveryWrite.remember chatId session]
        | none => []
      let entries := doc.entries.toOption
      let prompt := entries.bind RecoveryDoc.lastPrompt
      let fresh := entries.any (RecoveryDoc.isFresh env.now)
      let willResume :=
        fresh && prompt.isSome && decide (disk.resumeAttempts chatId < maxAutoResume)
      let note := if willResume then resumingNote else interruptedNote
      let published := remembered ++ [.publish chatId (recoveryDone note)]
      match doc.markAbandonedStreams env.deviceId with
      | .error error => (published, .error (.doc error))
      | .ok stamped =>
        let closed := published ++ [.stamp chatId stamped note, .setIdle chatId]
        match willResume, prompt with
        | true, some (userId, text) =>
          (closed ++ [.noteAttempt chatId, .resume chatId userId text], .ok true)
        | _, _ => (closed, .ok true)

/-- Every chat sees what the chats before it have written. -/
def recoverChats : RecoveryDisk → List String → List RecoveryWrite × Except EngineError Nat
  | _, [] => ([], .ok 0)
  | disk, chatId :: rest =>
    match recoverChat codec env disk chatId with
    | (writes, .error error) => (writes, .error error)
    | (writes, .ok recovered) =>
      let (later, result) := recoverChats (disk.applyAll codec writes) rest
      (writes ++ later, result.map fun count => if recovered then count + 1 else count)

def recoverStale (disk : RecoveryDisk) : List RecoveryWrite × Except EngineError Nat :=
  match disk.journal.staleSessions codec with
  | .error error => ([], .error (.journal error))
  | .ok stale => recoverChats codec env disk stale

end Recover

/-- The disk, and the chats that were resumed since the start. -/
structure BootRun where
  disk : RecoveryDisk
  resumed : List String

inductive BootAction where
  /-- The engine boots and recovers. It may crash behind the first `cut` writes. -/
  | boot (env : BootEnv) (cut : Option Nat)
  /-- A run takes in an event. -/
  | event (chatId : String) (event : AgentEvent)

def RecoveryWrite.resumedChat : RecoveryWrite → Option String
  | .resume chatId _ _ => some chatId
  | _ => none

namespace BootRun

variable (codec : JournalCodec)

def performed (writes : List RecoveryWrite) : Option Nat → List RecoveryWrite
  | some cut => writes.take cut
  | none => writes

def perform (run : BootRun) (writes : List RecoveryWrite) : BootRun :=
  { disk := run.disk.applyAll codec writes
    resumed := run.resumed ++ writes.filterMap RecoveryWrite.resumedChat }

/-- A new process has no journal file open. -/
def reopened (disk : RecoveryDisk) : RecoveryDisk :=
  { disk with journal.openFiles := ∅ }

def step (run : BootRun) : BootAction → Option BootRun
  | .boot env cut =>
    let opened := { run with disk := reopened run.disk }
    some (opened.perform codec (performed (recoverStale codec env opened.disk).1 cut))
  | .event chatId event =>
    let published := run.perform codec [.publish chatId event]
    match event with
    -- A completed turn has its attempts back.
    | .done .completed _ _ _ =>
      some { published with disk := published.disk.clearResumeAttempts chatId }
    | _ => some published

end BootRun

end Keel
