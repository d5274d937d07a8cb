import Keel.Foundation.Revisions
import Keel.Foundation.Utf8

/-! # The local filesystem provider

Every operation is one synchronous call. What the operating system decides in a call (an
error of a system call, the directories made on the way, the version of the file that was
published) comes with the call; what it finds is the state of the disk. The disk holds
what `metadata` finds at a path, with every change under a fresh version, and the paths
at which `metadata` itself fails.
-/

namespace Keel.Fs

open Revisions Utf8

/-- Identity of a target across path aliases. -/
structure FsTargetKey where
  path : String
deriving DecidableEq

/-- Opaque freshness token. -/
structure FsVersion where
  token : String
deriving DecidableEq

inductive FsObservation where
  | present (version : FsVersion)
  | absent

structure FsTarget where
  targetKey : FsTargetKey
  displayPath : String

inductive FsEntryType where
  | file
  | directory
  | other
deriving DecidableEq

structure FsInfo where
  version : FsVersion
  entryType : FsEntryType
  size : Option Nat

inductive FsWriteIntent where
  | createIfAbsent
  | replaceIfVersion (version : FsVersion)

inductive FsWriteOperation where
  | create
  | update

structure FsWriteOutcome where
  operation : FsWriteOperation
  version : FsVersion
  before : Option (List Char)
  after : List Char

structure FsEditRequest where
  oldString : List Char
  newString : List Char
  replaceAll : Bool

structure FsEditOutcome where
  version : FsVersion
  before : List Char
  after : List Char

inductive FsErrorCode where
  | notFound
  | notDirectory
  | notText
  | notRegularFile
  | tooLarge
  | permissionDenied
  | ioError
  | staleVersion
  | notObserved
  | ambiguousEdit
  | editNotFound
  | aborted
deriving DecidableEq

def FsErrorCode.asStr : FsErrorCode → String
  | .notFound => "FS_NOT_FOUND"
  | .notDirectory => "FS_NOT_DIRECTORY"
  | .notText => "FS_NOT_TEXT"
  | .notRegularFile => "FS_NOT_REGULAR_FILE"
  | .tooLarge => "FS_TOO_LARGE"
  | .permissionDenied => "FS_PERMISSION_DENIED"
  | .ioError => "FS_IO_ERROR"
  | .staleVersion => "FS_STALE_VERSION"
  | .notObserved => "FS_NOT_OBSERVED"
  | .ambiguousEdit => "FS_AMBIGUOUS_EDIT"
  | .editNotFound => "FS_EDIT_NOT_FOUND"
  | .aborted => "FS_ABORTED"

structure FsError where
  message : String
  code : FsErrorCode
deriving DecidableEq

/-! ## Literal edits -/

section Text

/-- Bytes sampled from the head of a file when rejecting binary content. -/
def BINARY_SAMPLE_BYTES : Nat := 8192

def normalizeLineEndings (content : List Char) : List Char :=
  Text.replacePair '\r' '\n' '\n' content

inductive LineEndings where
  | lf
  | crlf

/-- Occurrences of a needle that is not empty, left to right and not overlapping, after some
characters that belong to the last one. -/
def countFrom (needle : List Char) : Nat → List Char → Nat
  | _, [] => 0
  | skipped + 1, _ :: rest => countFrom needle skipped rest
  | 0, c :: rest =>
    if needle.isPrefixOf (c :: rest) then countFrom needle (needle.length - 1) rest + 1
    else countFrom needle 0 rest

def countOccurrences (content needle : List Char) : Nat :=
  if needle = [] then 0 else countFrom needle 0 content

/-- `str::replace` of a needle that is not empty. -/
def replaceFrom (needle replacement : List Char) : Nat → List Char → List Char
  | _, [] => []
  | skipped + 1, _ :: rest => replaceFrom needle replacement skipped rest
  | 0, c :: rest =>
    if needle.isPrefixOf (c :: rest) then
      replacement ++ replaceFrom needle replacement (needle.length - 1) rest
    else c :: replaceFrom needle replacement 0 rest

/-- The dominant style in the first 4096 characters. -/
def detectLineEndings (raw : List Char) : LineEndings :=
  let crlf := countOccurrences (raw.take 4096) ['\r', '\n']
  let lf := countOccurrences (raw.take 4096) ['\n'] - crlf
  if lf < crlf then .crlf else .lf

/-- LF-normalized content in its storage style. -/
def restoreLineEndings (content : List Char) : LineEndings → List Char
  | .lf => content
  | .crlf => replaceFrom ['\n'] ['\r', '\n'] 0 (normalizeLineEndings content)

def applyLiteralEdit (content oldString newString : List Char) (replaceAll : Bool)
    (displayPath : String) : Except FsError (List Char × Nat) :=
  let old := normalizeLineEndings oldString
  let new := normalizeLineEndings newString
  let replacements := countOccurrences content old
  if old = [] then .error ⟨"old_string must be a non-empty string", .editNotFound⟩
  else if replacements = 0 then
    .error ⟨"old_string was not found in \"" ++ displayPath ++ "\"", .editNotFound⟩
  else if !replaceAll && 1 < replacements then
    .error ⟨"old_string matched " ++ toString replacements ++ " times in \"" ++ displayPath ++
      "\"; provide a more specific old_string or set replace_all to true", .ambiguousEdit⟩
  else .ok (replaceFrom old new 0 content, replacements)

end Text

/-! ## The disk -/

/-- `std::io::ErrorKind`, as far as it is told apart. -/
inductive IoErrorKind where
  | permissionDenied
  | alreadyExists
  | other
deriving DecidableEq

structure IoFault where
  kind : IoErrorKind
  text : String

/-- The code of an error that names the permission. -/
def IoFault.code (fault : IoFault) : FsErrorCode :=
  if fault.kind = .permissionDenied then .permissionDenied else .ioError

/-- What `metadata` and `read` find at a path. -/
structure Node where
  version : FsVersion
  entryType : FsEntryType
  bytes : List UInt8
deriving DecidableEq

/-- The position of a tool call among the calls that were issued. -/
abbrev CallId := Nat

/-- The disk. A change is authored by a tool call, or by nobody this process knows. -/
structure Disk where
  store : Store FsTargetKey Node (Option CallId)
  denied : FsTargetKey → Option IoFault

namespace Disk

def current (disk : Disk) (key : FsTargetKey) : Option Node := disk.store.current key

def put (disk : Disk) (author : Option CallId) (key : FsTargetKey) (node : Node) : Option Disk :=
  (disk.store.put Node.version author key node).map fun store => { disk with store }

def remove (disk : Disk) (key : FsTargetKey) : Disk :=
  { disk with store := disk.store.remove key }

/-- Directories appear where nothing was, none of them at the target itself. -/
def makeDirs (target : FsTargetKey) (disk : Disk) : List (FsTargetKey × Node) → Option Disk
  | [] => some disk
  | (key, node) :: rest =>
    if key ≠ target ∧ disk.current key = none ∧ node.entryType = .directory then
      match disk.put none key node with
      | none => none
      | some made => made.makeDirs target rest
    else none

/-- `None` is a path that can hold no target. -/
def probe (disk : Disk) (key : FsTargetKey) : Except FsError (Option Node) :=
  match disk.denied key with
  | some fault => .error ⟨"cannot stat \"" ++ key.path ++ "\": " ++ fault.text, fault.code⟩
  | none => .ok (disk.current key)

end Disk

/-- What the operating system decides in one call. -/
structure Io where
  /-- The signal has aborted. -/
  aborted : Bool
  /-- What the path resolves to. -/
  resolved : Except FsError FsTarget
  /-- Why the file cannot be read. -/
  read : Option IoFault
  /-- The directories that were made. -/
  made : List (FsTargetKey × Node)
  createDirs : Option IoFault
  /-- Why the temporary file cannot be made, written, synced or given its mode. -/
  stage : Option IoFault
  /-- Why the temporary file cannot take the target's name. -/
  publish : Option IoFault
  /-- The kind of a link without a target that has the target's name. -/
  dangling : Option FsEntryType
  /-- The version of the published file. -/
  version : FsVersion

structure LocalFileSystem where
  diffBasisMaxBytes : Nat

section Operations

variable (io : Io) (disk : Disk) (target : FsTarget)

def abortedError (verb : String) : FsError := ⟨verb ++ " aborted", .aborted⟩

def notRegularFile (verb : String) : FsError :=
  ⟨"cannot " ++ verb ++ " \"" ++ target.displayPath ++ "\": not a regular file",
    .notRegularFile⟩

def binaryFile (verb : String) : FsError :=
  ⟨"cannot " ++ verb ++ " \"" ++ target.displayPath ++ "\": binary file", .notText⟩

def invalidText (verb : String) : FsError :=
  ⟨"cannot " ++ verb ++ " \"" ++ target.displayPath ++ "\": invalid UTF-8 text", .notText⟩

def changedSinceRead (verb : String) : FsError :=
  ⟨"cannot " ++ verb ++ " \"" ++ target.displayPath ++ "\": file changed since it was read",
    .staleVersion⟩

def notReadFirst (displayPath : String) : FsError :=
  ⟨"cannot overwrite existing \"" ++ displayPath ++ "\" without reading it first", .notObserved⟩

/-- Target metadata, or `none` when the target is absent. -/
def stat : Except FsError (Option FsInfo) :=
  if io.aborted then .error (abortedError "stat")
  else
    match disk.probe target.targetKey with
    | .error error => .error error
    | .ok none => .ok none
    | .ok (some node) => .ok (some
        { version := node.version
          entryType := node.entryType
          size := if node.entryType = .file then some node.bytes.length else none })

def readRaw (verb : String) : Except FsError (List UInt8) :=
  match disk.probe target.targetKey with
  | .error error => .error error
  | .ok none =>
    .error ⟨"cannot " ++ verb ++ " \"" ++ target.displayPath ++ "\": not found", .notFound⟩
  | .ok (some node) =>
    if node.entryType ≠ .file then .error (notRegularFile target verb)
    else
      match io.read with
      | some fault => .error ⟨"cannot " ++ verb ++ " \"" ++ target.displayPath ++ "\": " ++
          fault.text, fault.code⟩
      | none => .ok node.bytes

/-- A whole regular UTF-8 text file, byte for byte. -/
def readText : Except FsError (List Char) :=
  if io.aborted then .error (abortedError "read")
  else
    match readRaw io disk target "read" with
    | .error error => .error error
    | .ok raw =>
      if (raw.take BINARY_SAMPLE_BYTES).contains 0 then .error (binaryFile target "read")
      else
        match decode raw with
        | none => .error (invalidText target "read")
        | some text => .ok text

/-- The basis of the overwrite diff: normalized text, when there is one below the limit. -/
def readTextForDiff (fs : LocalFileSystem) (key : FsTargetKey) : Option (List Char) :=
  match disk.denied key, disk.current key with
  | none, some node =>
    if node.entryType ≠ .file ∨ fs.diffBasisMaxBytes ≤ node.bytes.length then none
    else if io.read.isSome ∨ node.bytes.contains 0 then none
    else (decode node.bytes).map normalizeLineEndings
  | _, _ => none

def writeFault (key : FsTargetKey) (fault : IoFault) : FsError :=
  ⟨"cannot write \"" ++ key.path ++ "\": " ++ fault.text, fault.code⟩

/-- Why a hard link does not take the target's name: the link replaces nothing. -/
def linkFault (key : FsTargetKey) : Option IoFault :=
  match io.publish with
  | some fault => some fault
  | none =>
    if (disk.current key).isSome ∨ io.dangling.isSome then
      some ⟨.alreadyExists, "File exists"⟩
    else none

/-- What has the target's name, no link followed. -/
def nameHolder (key : FsTargetKey) : Option FsEntryType :=
  match disk.current key with
  | some node => some node.entryType
  | none => io.dangling

/-- The error of a guarded create whose link failed. -/
def linkError (key : FsTargetKey) (displayPath : String) (fault : IoFault) : FsError :=
  match nameHolder io disk key with
  | some entryType =>
    if entryType ≠ .file then
      ⟨"cannot write \"" ++ displayPath ++ "\": not a regular file", .notRegularFile⟩
    else notReadFirst displayPath
  | none =>
    if fault.kind = .alreadyExists then notReadFirst displayPath else writeFault key fault

/-- The staged file takes the target's name: a guarded create by a link that replaces
nothing, any other write by a rename. -/
def publish (author : CallId) (key : FsTargetKey) (content : List Char) :
    Option String → Option (Disk × Except FsError Unit)
  | some displayPath =>
    match linkFault io disk key with
    | some fault => some (disk, .error (linkError io disk key displayPath fault))
    | none => (disk.put (some author) key ⟨io.version, .file, encode content⟩).map
        fun after => (after, .ok ())
  | none =>
    match io.publish with
    | some fault => some (disk, .error (writeFault key fault))
    | none => (disk.put (some author) key ⟨io.version, .file, encode content⟩).map
        fun after => (after, .ok ())

/-- Stage the full content, then publish it. `none` is a version that is not fresh. -/
def writeFileAtomic (author : CallId) (key : FsTargetKey) (content : List Char)
    (createIfAbsent : Option String) : Option (Disk × Except FsError Unit) :=
  match disk.makeDirs key io.made with
  | none => none
  | some made =>
    match io.createDirs, io.stage with
    | some fault, _ => some (made, .error
        ⟨"cannot write \"" ++ key.path ++ "\": " ++ fault.text, .ioError⟩)
    | none, some fault => some (made, .error (writeFault key fault))
    | none, none => publish io made author key content createIfAbsent

/-- The version after a write, or a sentinel when the target is gone. -/
def versionAfterWrite (key : FsTargetKey) : Except FsError FsVersion :=
  match disk.probe key with
  | .error error => .error error
  | .ok none => .ok ⟨"missing:" ++ key.path⟩
  | .ok (some node) => .ok node.version

/-- Whether the target may be written as it is found. -/
def admitWrite (expected : Option FsWriteIntent) (existing : Option Node) : Except FsError Unit :=
  match existing, expected with
  | some node, expected =>
    if node.entryType ≠ .file then .error (notRegularFile target "write")
    else
      match expected with
      | some (.replaceIfVersion version) =>
        if node.version ≠ version then .error (changedSinceRead target "write") else .ok ()
      | some .createIfAbsent => .error (notReadFirst target.displayPath)
      | none => .ok ()
  | none, some (.replaceIfVersion _) =>
    .error ⟨"cannot write \"" ++ target.displayPath ++ "\": file no longer exists",
      .staleVersion⟩
  | none, _ => .ok ()

/-- Content before a write, for its diff. -/
def diffBasis (fs : LocalFileSystem) (content : List Char) (existing : Option Node) :
    Option (List Char) :=
  if existing.isSome ∧ byteLength content < fs.diffBasisMaxBytes then
    readTextForDiff io disk fs target.targetKey
  else none

def createName : Option FsWriteIntent → Option String
  | some .createIfAbsent => some target.displayPath
  | _ => none

/-- Atomically create or replace UTF-8 text. -/
def writeText (fs : LocalFileSystem) (author : CallId) (content : List Char)
    (expected : Option FsWriteIntent) : Option (Disk × Except FsError FsWriteOutcome) :=
  if io.aborted then some (disk, .error (abortedError "write"))
  else
    match disk.probe target.targetKey with
    | .error error => some (disk, .error error)
    | .ok existing =>
      match admitWrite target expected existing with
      | .error error => some (disk, .error error)
      | .ok () =>
        match writeFileAtomic io disk author target.targetKey content
            (createName target expected) with
        | none => none
        | some (after, .error error) => some (after, .error error)
        | some (after, .ok ()) =>
          match versionAfterWrite after target.targetKey with
          | .error error => some (after, .error error)
          | .ok version => some (after, .ok
              { operation := if existing.isSome then .update else .create
                version
                before := diffBasis io disk target fs content existing
                after := normalizeLineEndings content })

/-- Whether the target may be edited as it is found. -/
def admitEdit (expected : Option FsVersion) : Option Node → Except FsError Unit
  | none => .error (changedSinceRead target "edit")
  | some node =>
    if node.entryType ≠ .file then .error (notRegularFile target "edit")
    else
      match expected with
      | some version =>
        if node.version ≠ version then .error (changedSinceRead target "edit") else .ok ()
      | none => .ok ()

/-- An edit worked out: the file's text, its normalized form and the edited form of that. -/
structure EditPlan where
  raw : List Char
  content : List Char
  edited : List Char

def EditPlan.stored (plan : EditPlan) : List Char :=
  restoreLineEndings plan.edited (detectLineEndings plan.raw)

def planEdit (edit : FsEditRequest) : Except FsError EditPlan :=
  match readRaw io disk target "edit" with
  | .error error => .error error
  | .ok raw =>
    if raw.contains 0 then .error (binaryFile target "edit")
    else
      match decode raw with
      | none => .error (invalidText target "edit")
      | some text =>
        match applyLiteralEdit (normalizeLineEndings text) edit.oldString edit.newString
            edit.replaceAll target.displayPath with
        | .error error => .error error
        | .ok (edited, _) => .ok ⟨text, normalizeLineEndings text, edited⟩

/-- Atomically edit literal text. The version is checked before matching. -/
def editText (author : CallId) (edit : FsEditRequest) (expected : Option FsVersion) :
    Option (Disk × Except FsError FsEditOutcome) :=
  if io.aborted then some (disk, .error (abortedError "edit"))
  else
    match disk.probe target.targetKey with
    | .error error => some (disk, .error error)
    | .ok existing =>
      match admitEdit target expected existing with
      | .error error => some (disk, .error error)
      | .ok () =>
        match planEdit io disk target edit with
        | .error error => some (disk, .error error)
        | .ok plan =>
          match writeFileAtomic io disk author target.targetKey plan.stored none with
          | none => none
          | some (after, .error error) => some (after, .error error)
          | some (after, .ok ()) =>
            match versionAfterWrite after target.targetKey with
            | .error error => some (after, .error error)
            | .ok version => some (after, .ok ⟨version, plan.content, plan.edited⟩)

end Operations

end Keel.Fs
