import Keel.Engine.LocalImport
import Keel.Foundation.FillIn
import Keel.Foundation.Trace

/-! # Importing a profile again after a crash

An attempt copies what the target does not have yet, chat by chat, and the row of a chat
last. Snapshots and files are durable at once; rows are written in memory and saved later. A
crash loses the rows that were not saved, and may stop in the middle of a file. If it leaves
nothing or all of that file, one more attempt ends where a single one would have.
-/

namespace Keel

open List Std.ExtTreeMap

/-- A chat's row, with the columns an import does not read as one value. -/
structure ChatRecord (Fields : Type) where
  id : String
  roomGen : Option Nat
  fields : Fields

structure SpaceRecord (Fields : Type) where
  id : String
  fields : Fields

/-- A stored document, with the cursor and epoch it is synchronised from. -/
structure StoredDoc where
  bytes : List UInt8
  cursor : Nat
  epoch : Nat

abbrev Table (Value : Type) := Std.ExtTreeMap String Value compare

/-- The profile an import reads. A registry has one row for an id. -/
structure LocalProfile (Fields : Type) where
  snapshots : Table (List UInt8)
  spaces : List (SpaceRecord Fields)
  chats : List (ChatRecord Fields)
  /-- The files of the journals directory. -/
  files : Table (List UInt8)
  distinctSpaces : (spaces.map SpaceRecord.id).Nodup
  distinctChats : (chats.map ChatRecord.id).Nodup

/-- What an import writes to. -/
structure ImportTarget (Fields : Type) where
  snapshots : Table StoredDoc := ∅
  spaces : Table (SpaceRecord Fields) := ∅
  chats : Table (ChatRecord Fields) := ∅
  files : Table (List UInt8) := ∅

/-- The document of the registry itself, which an open target always has. -/
def registryDocId : String := "registry1"

section Copying

variable {Fields : Type}

/-- The row of an imported chat is of the thin lineage. -/
def ChatRecord.imported (chat : ChatRecord Fields) : ChatRecord Fields :=
  { chat with roomGen := some thinDocEpoch }

/-- The snapshot that is saved for a chat, if it has one. -/
def LocalProfile.bornSnapshot (source : LocalProfile Fields) (chatId : String) : Option StoredDoc :=
  source.snapshots[chatId]?.map fun bytes => { bytes, cursor := 0, epoch := thinDocEpoch }

namespace ImportTarget

def importSpaceRow (target : ImportTarget Fields) (space : SpaceRecord Fields) :
    ImportTarget Fields :=
  { target with spaces := target.spaces.insert space.id space }

def importSnapshot (source : LocalProfile Fields) (target : ImportTarget Fields) (chatId : String) :
    ImportTarget Fields :=
  if chatId = registryDocId then target
  else { target with
    snapshots := FillIn.fill target.snapshots chatId (source.bornSnapshot chatId) }

/-- Copy a file that the source has and the target has not. -/
def copyFile (source : LocalProfile Fields) (target : ImportTarget Fields) (name : String) :
    ImportTarget Fields :=
  { target with files := FillIn.fill target.files name source.files[name]? }

def importChatRow (target : ImportTarget Fields) (chat : ChatRecord Fields) :
    ImportTarget Fields :=
  { target with chats := target.chats.insert chat.id chat.imported }

def importChat (source : LocalProfile Fields) (target : ImportTarget Fields)
    (chat : ChatRecord Fields) : ImportTarget Fields :=
  let target := target.importSnapshot source chat.id
  let target := target.copyFile source (journalPaths chat.id).1
  let target := target.copyFile source (journalPaths chat.id).2
  target.importChatRow chat

/-- The chats and spaces without a row in the target. -/
def pendingChats (source : LocalProfile Fields) (target : ImportTarget Fields) :
    List (ChatRecord Fields) :=
  source.chats.filter fun chat => target.chats[chat.id]?.isNone

def pendingSpaces (source : LocalProfile Fields) (target : ImportTarget Fields) :
    List (SpaceRecord Fields) :=
  source.spaces.filter fun space => target.spaces[space.id]?.isNone

/-- One attempt that nothing interrupts and where nothing fails. -/
def importAll (source : LocalProfile Fields) (target : ImportTarget Fields) : ImportTarget Fields :=
  let spaces := target.pendingSpaces source
  let chats := target.pendingChats source
  chats.foldl (importChat source) (spaces.foldl importSpaceRow target)

end ImportTarget

end Copying

section Process

/-- An attempt in flight; the head of `chats` is being copied. -/
structure ImportAttempt (Fields : Type) where
  spaces : List (SpaceRecord Fields)
  chats : List (ChatRecord Fields)
  stage : ImportStage := .snapshot

/-- The target with its rows as the process has them, the rows a restart finds, and the
attempt in flight. -/
structure ImportProcess (Fields : Type) where
  target : ImportTarget Fields
  savedSpaces : Table (SpaceRecord Fields)
  savedChats : Table (ChatRecord Fields)
  attempt : Option (ImportAttempt Fields) := none

/-- How a copy ends. If it fails, it may leave a beginning of the file. -/
inductive CopyOutcome where
  | done
  | failed (left : Option (List UInt8))

inductive AttemptStep where
  | begin
  | space (ok : Bool)
  | snapshot (ok : Bool)
  | copy (outcome : CopyOutcome)
  | row (ok : Bool)
  | finish
  /-- The rows are saved. -/
  | save
  /-- The process dies and starts again, perhaps in a copy that leaves a beginning of the
  file. -/
  | crash (left : Option (List UInt8))

variable {Fields : Type}

def ImportAttempt.copying (attempt : ImportAttempt Fields) : Option String :=
  match attempt.chats, attempt.stage with
  | chat :: _, .journal => some (journalPaths chat.id).1
  | chat :: _, .resume => some (journalPaths chat.id).2
  | _, _ => none

/-- A copy leaves a beginning of the file it was to write. -/
def ImportTarget.leave (source : LocalProfile Fields) (target : ImportTarget Fields)
    (copying : Option String) : Option (List UInt8) → Option (ImportTarget Fields)
  | none => some target
  | some left =>
    match copying with
    | none => none
    | some name =>
      match target.files[name]?, source.files[name]? with
      | none, some bytes =>
        if left.isPrefixOf bytes then
          some { target with files := target.files.insert name left }
        else none
      | _, _ => none

namespace ImportProcess

/-- A chat that fails is given up until the next attempt. -/
def skipChat (process : ImportProcess Fields) (attempt : ImportAttempt Fields) :
    ImportProcess Fields :=
  { process with
    attempt := some { attempt with chats := attempt.chats.tail, stage := .snapshot } }

def advance (process : ImportProcess Fields) (target : ImportTarget Fields)
    (attempt : ImportAttempt Fields) (stage : ImportStage) : ImportProcess Fields :=
  { process with target, attempt := some { attempt with stage } }

def stepAttempt (source : LocalProfile Fields) (process : ImportProcess Fields)
    (attempt : ImportAttempt Fields) : AttemptStep → Option (ImportProcess Fields)
  | .space ok =>
    match attempt.spaces with
    | [] => none
    | space :: rest =>
      let target := if ok then process.target.importSpaceRow space else process.target
      some { process with target, attempt := some { attempt with spaces := rest } }
  | .snapshot ok =>
    match attempt.spaces, attempt.chats, attempt.stage with
    | [], chat :: _, .snapshot =>
      if ok then
        some (process.advance (process.target.importSnapshot source chat.id) attempt .journal)
      else some (process.skipChat attempt)
    | _, _, _ => none
  | .copy outcome =>
    match attempt.copying with
    | none => none
    | some name =>
      match outcome with
      | .done =>
        let next := if attempt.stage = .journal then .resume else .row
        some (process.advance (process.target.copyFile source name) attempt next)
      | .failed left =>
        (process.target.leave source (some name) left).map fun target =>
          { process with target }.skipChat attempt
  | .row ok =>
    match attempt.chats, attempt.stage with
    | chat :: _, .row =>
      let target := if ok then process.target.importChatRow chat else process.target
      some ({ process with target }.skipChat attempt)
    | _, _ => none
  | .finish =>
    if attempt.spaces = [] ∧ attempt.chats = [] then some { process with attempt := none } else none
  | .begin | .save | .crash _ => none

def step (source : LocalProfile Fields) (process : ImportProcess Fields) :
    AttemptStep → Option (ImportProcess Fields)
  | .begin =>
    match process.attempt with
    | some _ => none
    | none =>
      let spaces := process.target.pendingSpaces source
      let chats := process.target.pendingChats source
      some { process with attempt := some { spaces, chats } }
  | .save =>
    some { process with savedSpaces := process.target.spaces, savedChats := process.target.chats }
  | .crash left =>
    (process.target.leave source (process.attempt.bind ImportAttempt.copying) left).map fun target =>
      { process with
        target := { target with spaces := process.savedSpaces, chats := process.savedChats }
        attempt := none }
  | action => process.attempt.bind fun attempt => process.stepAttempt source attempt action

/-- The process before the first attempt, with its rows saved. -/
def start (target : ImportTarget Fields) : ImportProcess Fields :=
  { target, savedSpaces := target.spaces, savedChats := target.chats }

end ImportProcess

end Process

section Goal

variable {Fields : Type}

/-- What an import is for: what the target has stays, and what it lacks comes from the chats
and spaces that it has no row of. -/
structure ImportGoal (Fields : Type) where
  source : LocalProfile Fields
  start : ImportTarget Fields

namespace ImportGoal

variable (goal : ImportGoal Fields)

def chats (id : String) : Option (ChatRecord Fields) :=
  goal.start.chats[id]?.or
    ((goal.source.chats.find? fun chat => chat.id = id).map ChatRecord.imported)

def spaces (id : String) : Option (SpaceRecord Fields) :=
  goal.start.spaces[id]?.or (goal.source.spaces.find? fun space => space.id = id)

def news : List (ChatRecord Fields) :=
  goal.source.chats.filter fun chat => goal.start.chats[chat.id]?.isNone

def snapshots (id : String) : Option StoredDoc :=
  goal.start.snapshots[id]?.or
    (if (goal.news.any fun chat => chat.id = id) && id ≠ registryDocId then
      goal.source.bornSnapshot id else none)

def files (name : String) : Option (List UInt8) :=
  goal.start.files[name]?.or
    (if goal.news.any fun chat => name = (journalPaths chat.id).1 || name = (journalPaths chat.id).2 then
      goal.source.files[name]? else none)

/-- The documents and files of a chat are in place. -/
structure Placed (target : ImportTarget Fields) (chatId : String) : Prop where
  snapshot : target.snapshots[chatId]? = goal.snapshots chatId
  journal : target.files[(journalPaths chatId).1]? = goal.files (journalPaths chatId).1
  resume : target.files[(journalPaths chatId).2]? = goal.files (journalPaths chatId).2

/-- Rows are those of the start or imported ones, these with their chat in place. -/
def Rows (target : ImportTarget Fields) (rows : Table (ChatRecord Fields)) : Prop :=
  ∀ id, rows[id]? = goal.start.chats[id]? ∨
    rows[id]? = goal.chats id ∧ goal.Placed target id

/-- A target between the start and the goal. -/
structure Towards (target : ImportTarget Fields) : Prop where
  snapshots : FillIn.Between goal.start.snapshots goal.snapshots target.snapshots
  files : FillIn.Between goal.start.files goal.files target.files
  spaces : FillIn.Between goal.start.spaces goal.spaces target.spaces
  chats : goal.Rows target target.chats

end ImportGoal

variable {goal : ImportGoal Fields} {target : ImportTarget Fields}

theorem ImportGoal.keeps_snapshots : FillIn.Keeps goal.start.snapshots goal.snapshots := by
  intro id doc hdoc
  rw [ImportGoal.snapshots, hdoc, Option.some_or]

theorem ImportGoal.keeps_files : FillIn.Keeps goal.start.files goal.files := by
  intro name bytes hbytes
  rw [ImportGoal.files, hbytes, Option.some_or]

theorem ImportGoal.keeps_chats : FillIn.Keeps goal.start.chats goal.chats := by
  intro id chat hchat
  rw [ImportGoal.chats, hchat, Option.some_or]

theorem ImportGoal.keeps_spaces : FillIn.Keeps goal.start.spaces goal.spaces := by
  intro id space hspace
  rw [ImportGoal.spaces, hspace, Option.some_or]

variable {chat : ChatRecord Fields}

theorem ImportGoal.mem_news :
    chat ∈ goal.news ↔ chat ∈ goal.source.chats ∧ goal.start.chats[chat.id]? = none := by
  rw [ImportGoal.news, mem_filter, Option.isNone_iff_eq_none]

theorem ImportGoal.chats_of_mem (hnew : chat ∈ goal.news) :
    goal.chats chat.id = some chat.imported := by
  obtain ⟨hsource, habsent⟩ := mem_news.1 hnew
  have hfind := Lists.find?_key_of_nodup ChatRecord.id goal.source.distinctChats hsource
  rw [ImportGoal.chats, habsent, Option.none_or, hfind, Option.map_some]

theorem ImportGoal.spaces_of_mem {space : SpaceRecord Fields} (hsource : space ∈ goal.source.spaces)
    (habsent : goal.start.spaces[space.id]? = none) : goal.spaces space.id = some space := by
  have hfind := Lists.find?_key_of_nodup SpaceRecord.id goal.source.distinctSpaces hsource
  rw [ImportGoal.spaces, habsent, Option.none_or, hfind]

theorem ImportGoal.snapshots_of_mem (hnew : chat ∈ goal.news)
    (hid : chat.id ≠ registryDocId) (habsent : goal.start.snapshots[chat.id]? = none) :
    goal.snapshots chat.id = goal.source.bornSnapshot chat.id := by
  rw [ImportGoal.snapshots, habsent, Option.none_or, if_pos]
  rw [Bool.and_eq_true, any_eq_true]
  exact ⟨⟨chat, hnew, decide_eq_true rfl⟩, decide_eq_true hid⟩

theorem ImportGoal.files_of_mem (hnew : chat ∈ goal.news) {name : String}
    (hname : name = (journalPaths chat.id).1 ∨ name = (journalPaths chat.id).2)
    (habsent : goal.start.files[name]? = none) : goal.files name = goal.source.files[name]? := by
  rw [ImportGoal.files, habsent, Option.none_or, if_pos]
  rw [any_eq_true]
  exact ⟨chat, hnew, by simpa using hname⟩

def ImportGoal.KeepsPlaced (goal : ImportGoal Fields) (target next : ImportTarget Fields) : Prop :=
  ∀ id, goal.Placed target id → goal.Placed next id

theorem ImportGoal.Rows.mono {next : ImportTarget Fields} {rows : Table (ChatRecord Fields)}
    (hrows : goal.Rows target rows) (hplaced : goal.KeepsPlaced target next) :
      goal.Rows next rows := by
  intro id
  exact (hrows id).imp_right fun ⟨hgoal, hid⟩ => ⟨hgoal, hplaced id hid⟩

theorem ImportGoal.Rows.start_none {rows : Table (ChatRecord Fields)} (hrows : goal.Rows target rows)
    {id : String} (hnone : rows[id]? = none) : goal.start.chats[id]? = none := by
  cases hstart : goal.start.chats[id]? with
  | none => rfl
  | some chat =>
    rcases hrows id with hsame | ⟨hgoal, -⟩
    · rw [hnone, hstart] at hsame
      cases hsame
    · rw [hnone, goal.keeps_chats id chat hstart] at hgoal
      cases hgoal

namespace ImportGoal.Towards

theorem importSpaceRow (htowards : goal.Towards target) {space : SpaceRecord Fields}
    (hsource : space ∈ goal.source.spaces) (habsent : goal.start.spaces[space.id]? = none) :
    goal.Towards (target.importSpaceRow space) ∧
      goal.KeepsPlaced target (target.importSpaceRow space) := by
  refine ⟨⟨htowards.snapshots, htowards.files, ?_, ?_⟩, fun id hid => ⟨hid.1, hid.2, hid.3⟩⟩
  · exact htowards.spaces.insert (spaces_of_mem hsource habsent)
  · exact htowards.chats.mono fun id hid => ⟨hid.1, hid.2, hid.3⟩

variable {chat : ChatRecord Fields}

variable (htowards : goal.Towards target) (hnew : chat ∈ goal.news)
include htowards hnew

/-- The snapshot of a chat that is brought is in place once it is imported. -/
theorem importSnapshot : goal.Towards (target.importSnapshot goal.source chat.id) ∧
      goal.KeepsPlaced target (target.importSnapshot goal.source chat.id) ∧
      (target.importSnapshot goal.source chat.id).snapshots[chat.id]? = goal.snapshots chat.id := by
  rw [ImportTarget.importSnapshot]
  split
  next hregistry =>
    refine ⟨htowards, fun id hid => hid, ?_⟩
    have hgoal : goal.snapshots chat.id = goal.start.snapshots[chat.id]? := by
      simp [ImportGoal.snapshots, hregistry]
    rcases htowards.snapshots chat.id with hstart | hsame
    · rw [hstart, hgoal]
    · exact hsame
  next hid =>
    have hvalue := fun habsent => snapshots_of_mem hnew hid habsent
    have hplaced : goal.KeepsPlaced target { target with
        snapshots := FillIn.fill target.snapshots chat.id (goal.source.bornSnapshot chat.id) } :=
      fun id hid => ⟨htowards.snapshots.getElem?_fill keeps_snapshots hvalue hid.1, hid.2, hid.3⟩
    exact ⟨⟨htowards.snapshots.fill keeps_snapshots hvalue, htowards.files, htowards.spaces,
      htowards.chats.mono hplaced⟩, hplaced,
      htowards.snapshots.getElem?_fill_self keeps_snapshots hvalue⟩

theorem copyFile {name : String}
    (hname : name = (journalPaths chat.id).1 ∨ name = (journalPaths chat.id).2) :
    goal.Towards (target.copyFile goal.source name) ∧
      goal.KeepsPlaced target (target.copyFile goal.source name) ∧
      (target.copyFile goal.source name).files[name]? = goal.files name := by
  have hvalue := fun habsent => files_of_mem hnew hname habsent
  have hplaced : goal.KeepsPlaced target (target.copyFile goal.source name) := fun id hid =>
    ⟨hid.1, htowards.files.getElem?_fill keeps_files hvalue hid.2,
      htowards.files.getElem?_fill keeps_files hvalue hid.3⟩
  exact ⟨⟨htowards.snapshots, htowards.files.fill keeps_files hvalue, htowards.spaces,
    htowards.chats.mono hplaced⟩, hplaced, htowards.files.getElem?_fill_self keeps_files hvalue⟩

theorem importChatRow (hplaced : goal.Placed target chat.id) :
    goal.Towards (target.importChatRow chat) ∧
      goal.KeepsPlaced target (target.importChatRow chat) := by
  have hkeeps : goal.KeepsPlaced target (target.importChatRow chat) := fun id hid =>
    ⟨hid.1, hid.2, hid.3⟩
  refine ⟨⟨htowards.snapshots, htowards.files, htowards.spaces, ?_⟩, hkeeps⟩
  intro id
  by_cases hid : id = chat.id
  · subst hid
    refine .inr ⟨?_, hkeeps _ hplaced⟩
    rw [chats_of_mem hnew]
    exact getElem?_insert_self
  · have hother : (target.importChatRow chat).chats[id]? = target.chats[id]? :=
      FillIn.getElem?_insert_of_ne _ hid
    rw [hother]
    exact htowards.chats.mono hkeeps id

theorem importChat : goal.Towards (target.importChat goal.source chat) := by
  obtain ⟨hsnapshot, -, hfirst⟩ := htowards.importSnapshot hnew
  obtain ⟨hjournal, -, hsecond⟩ := hsnapshot.copyFile hnew (.inl rfl)
  obtain ⟨hresume, -, hthird⟩ := hjournal.copyFile hnew (.inr rfl)
  have hkept := hjournal.files.getElem?_fill keeps_files
    (fun habsent => files_of_mem hnew (.inr rfl) habsent) hsecond
  exact (hresume.importChatRow hnew ⟨hfirst, hkept, hthird⟩).1

end ImportGoal.Towards

/-- Every chat and space of the source has a row. -/
structure ImportGoal.Covered (goal : ImportGoal Fields) (target : ImportTarget Fields) : Prop where
  chats : ∀ chat ∈ goal.source.chats, target.chats[chat.id]?.isSome
  spaces : ∀ space ∈ goal.source.spaces, target.spaces[space.id]?.isSome

/-- A target between the start and the goal that has all the rows is at the goal. -/
theorem ImportGoal.Towards.eq_goal (htowards : goal.Towards target) (hcovered : goal.Covered target) :
    (∀ id, target.snapshots[id]? = goal.snapshots id) ∧ (∀ name,
    target.files[name]? = goal.files name) ∧
      (∀ id, target.spaces[id]? = goal.spaces id) ∧ ∀ id, target.chats[id]? = goal.chats id := by
  have hplaced : ∀ chat ∈ goal.news, goal.Placed target chat.id := by
    intro chat hnew
    obtain ⟨hsource, habsent⟩ := mem_news.1 hnew
    rcases htowards.chats chat.id with hstart | ⟨-, hplaced⟩
    · have hrow := hcovered.chats chat hsource
      rw [hstart, habsent] at hrow
      cases hrow
    · exact hplaced
  refine ⟨?_, ?_, ?_, ?_⟩
  · intro id
    rcases htowards.snapshots id with hstart | hgoal
    · by_cases hnew : goal.news.any fun chat => chat.id = id
      · obtain ⟨chat, hmem, hid⟩ := any_eq_true.mp hnew
        exact of_decide_eq_true hid ▸ (hplaced chat hmem).snapshot
      · simp [hstart, ImportGoal.snapshots, hnew]
    · exact hgoal
  · intro name
    rcases htowards.files name with hstart | hgoal
    · by_cases hnew : goal.news.any fun chat =>
          name = (journalPaths chat.id).1 || name = (journalPaths chat.id).2
      · obtain ⟨chat, hmem, hname⟩ := any_eq_true.mp hnew
        rw [Bool.or_eq_true, decide_eq_true_eq, decide_eq_true_eq] at hname
        rcases hname with rfl | rfl
        · exact (hplaced chat hmem).journal
        · exact (hplaced chat hmem).resume
      · simp [hstart, ImportGoal.files, hnew]
    · exact hgoal
  · intro id
    rcases htowards.spaces id with hstart | hgoal
    · cases hfind : goal.source.spaces.find? fun space => space.id = id with
      | none => simp [hstart, ImportGoal.spaces, hfind]
      | some space =>
        have hid : space.id = id := by simpa using find?_some hfind
        have hrow := hcovered.spaces space (mem_of_find?_eq_some hfind)
        rw [hid] at hrow
        obtain ⟨found, hfound⟩ := Option.isSome_iff_exists.mp hrow
        rw [hfound] at hstart
        rw [hfound, goal.keeps_spaces id found hstart.symm]
    · exact hgoal
  · intro id
    rcases htowards.chats id with hstart | ⟨hgoal, -⟩
    · cases hfind : goal.source.chats.find? fun chat => chat.id = id with
      | none => simp [hstart, ImportGoal.chats, hfind]
      | some chat =>
        have hid : chat.id = id := by simpa using find?_some hfind
        have hrow := hcovered.chats chat (mem_of_find?_eq_some hfind)
        rw [hid] at hrow
        obtain ⟨found, hfound⟩ := Option.isSome_iff_exists.mp hrow
        rw [hfound] at hstart
        rw [hfound, goal.keeps_chats id found hstart.symm]
    · exact hgoal

end Goal

section Runs

variable {Fields : Type} {goal : ImportGoal Fields} {process next : ImportProcess Fields}

/-- A copy that stops leaves nothing or the whole file. -/
def WholeCopies (source : LocalProfile Fields) (process : ImportProcess Fields) : AttemptStep → Prop
  | .copy (.failed (some left)) | .crash (some left) =>
    ∀ name, process.attempt.bind ImportAttempt.copying = some name → source.files[name]? = some left
  | _ => True

/-- What is in place of the chat an attempt is at. -/
def ImportGoal.AtStage (goal : ImportGoal Fields) (target : ImportTarget Fields) (chatId : String) :
    ImportStage → Prop
  | .snapshot => True
  | .journal => target.snapshots[chatId]? = goal.snapshots chatId
  | .resume => target.snapshots[chatId]? = goal.snapshots chatId ∧
      target.files[(journalPaths chatId).1]? = goal.files (journalPaths chatId).1
  | .row => goal.Placed target chatId

structure ImportGoal.AttemptInv (goal : ImportGoal Fields) (target : ImportTarget Fields)
    (attempt : ImportAttempt Fields) : Prop where
  spaces : ∀ space ∈ attempt.spaces,
    space ∈ goal.source.spaces ∧ goal.start.spaces[space.id]? = none
  chats : ∀ chat ∈ attempt.chats, chat ∈ goal.news
  stage : ∀ chat, attempt.chats.head? = some chat → goal.AtStage target chat.id attempt.stage

/-- The target, and the target a restart would find, are between the start and the goal. -/
structure ImportGoal.ProcessInv (goal : ImportGoal Fields) (process : ImportProcess Fields) :
    Prop where
  target : goal.Towards process.target
  savedSpaces : FillIn.Between goal.start.spaces goal.spaces process.savedSpaces
  savedChats : goal.Rows process.target process.savedChats
  attempt : ∀ attempt, process.attempt = some attempt → goal.AttemptInv process.target attempt

theorem ImportGoal.processInv_start (goal : ImportGoal Fields) :
    goal.ProcessInv (.start goal.start) := by
  refine ⟨⟨.refl _ _, .refl _ _, .refl _ _, fun _ => .inl rfl⟩, .refl _ _, fun _ => .inl rfl, ?_⟩
  intro attempt hattempt
  cases hattempt

namespace ImportGoal.ProcessInv

theorem move (hinv : goal.ProcessInv process) {target : ImportTarget Fields}
    (htarget : goal.Towards target) (hkeeps : goal.KeepsPlaced process.target target)
    {attempt : ImportAttempt Fields} (hattempt : goal.AttemptInv target attempt) :
    goal.ProcessInv { process with target, attempt := some attempt } := by
  refine ⟨htarget, hinv.savedSpaces, hinv.savedChats.mono hkeeps, fun found hfound => ?_⟩
  cases hfound
  exact hattempt

variable {attempt : ImportAttempt Fields} {ok : Bool}

theorem skipped {target : ImportTarget Fields} (hattempt : goal.AttemptInv process.target attempt) :
    goal.AttemptInv target { attempt with chats := attempt.chats.tail, stage := .snapshot } :=
  ⟨hattempt.spaces, fun chat hchat => hattempt.chats chat (mem_of_mem_tail hchat),
    fun _ _ => trivial⟩

/-- A copy that stops with nothing or the whole file is a copy that was not begun or that is
complete. -/
theorem leave {target next : ImportTarget Fields} (htarget : goal.Towards target)
    {copying : Option String}
    (hcopying : ∀ name, copying = some name →
      ∃ chat ∈ goal.news, name = (journalPaths chat.id).1 ∨ name = (journalPaths chat.id).2)
    {left : Option (List UInt8)} (hleave : target.leave goal.source copying left = some next)
    (hwhole : ∀ bytes name, left = some bytes → copying = some name →
      goal.source.files[name]? = some bytes) :
    goal.Towards next ∧ goal.KeepsPlaced target next := by
  cases left with
  | none =>
    cases hleave
    exact ⟨htarget, fun id hid => hid⟩
  | some bytes =>
    cases copying with
    | none => cases hleave
    | some name =>
      obtain ⟨chat, hnew, hname⟩ := hcopying name rfl
      have hsource := hwhole bytes name rfl rfl
      simp only [ImportTarget.leave, hsource] at hleave
      split at hleave
      next habsent hsome =>
        cases hsome
        split at hleave
        · cases hleave
          have hcopied : target.copyFile goal.source name =
              { target with files := target.files.insert name bytes } := by
            rw [ImportTarget.copyFile, hsource]
            congr 1
            apply Std.ExtTreeMap.ext_getElem?
            intro other
            by_cases hother : other = name
            · rw [hother, FillIn.getElem?_fill_self, habsent, getElem?_insert_self,
                Option.none_or]
            · rw [FillIn.getElem?_fill_of_ne _ hother, FillIn.getElem?_insert_of_ne _ hother]
          obtain ⟨htowards, hkeeps, -⟩ := htarget.copyFile hnew hname
          rw [hcopied] at htowards hkeeps
          exact ⟨htowards, hkeeps⟩
        · cases hleave
      · cases hleave

theorem copying_new {target : ImportTarget Fields}
    (hattempt : goal.AttemptInv target attempt) {name : String} (hname : attempt.copying = some name) :
    ∃ chat ∈ goal.news, name = (journalPaths chat.id).1 ∨ name = (journalPaths chat.id).2 := by
  unfold ImportAttempt.copying at hname
  split at hname
  next chat rest hchats hstage =>
    cases hname
    exact ⟨chat, hattempt.chats chat (by rw [hchats]; exact mem_cons_self), .inl rfl⟩
  next chat rest hchats hstage =>
    cases hname
    exact ⟨chat, hattempt.chats chat (by rw [hchats]; exact mem_cons_self), .inr rfl⟩
  · cases hname

theorem atStage_rows {target next : ImportTarget Fields}
    (hsnapshots : next.snapshots = target.snapshots)
    (hfiles : next.files = target.files) {chatId : String} {stage : ImportStage}
    (hstage : goal.AtStage target chatId stage) : goal.AtStage next chatId stage := by
  cases stage with
  | snapshot => trivial
  | journal =>
    rw [AtStage, hsnapshots]
    exact hstage
  | resume => exact ⟨hsnapshots ▸ hstage.1, hfiles ▸ hstage.2⟩
  | row => exact ⟨hsnapshots ▸ hstage.1, hfiles ▸ hstage.2, hfiles ▸ hstage.3⟩

theorem advanced {target : ImportTarget Fields}
    (hattempt : goal.AttemptInv process.target attempt) {stage : ImportStage}
    (hstage : ∀ chat ∈ goal.news, attempt.chats.head? = some chat →
    goal.AtStage target chat.id stage) :
    goal.AttemptInv target { attempt with stage } :=
  ⟨hattempt.spaces, hattempt.chats, fun chat hchat =>
    hstage chat (hattempt.chats chat (mem_of_mem_head? hchat)) hchat⟩

section
variable (hinv : goal.ProcessInv process) (hattempt : goal.AttemptInv process.target attempt)
include hinv hattempt

theorem stepSpace (hstep : process.stepAttempt goal.source attempt (.space ok) = some next) :
    goal.ProcessInv next := by
  simp only [ImportProcess.stepAttempt] at hstep
  split at hstep
  · cases hstep
  next space rest hspaces =>
    cases hstep
    obtain ⟨hsource, habsent⟩ := hattempt.spaces space (by rw [hspaces]; exact mem_cons_self)
    have hrest : ∀ {target : ImportTarget Fields}, target.snapshots = process.target.snapshots →
        target.files = process.target.files →
        goal.AttemptInv target { attempt with spaces := rest } := by
      intro target hsnapshots hfiles
      refine ⟨fun other hother => hattempt.spaces other ?_, hattempt.chats, fun chat hchat =>
        atStage_rows hsnapshots hfiles (hattempt.stage chat hchat)⟩
      rw [hspaces]
      exact mem_cons_of_mem _ hother
    cases ok with
    | true =>
      obtain ⟨htowards, hkeeps⟩ := hinv.target.importSpaceRow hsource habsent
      exact hinv.move htowards hkeeps (hrest rfl rfl)
    | false => exact hinv.move hinv.target (fun _ hid => hid) (hrest rfl rfl)

theorem stepSnapshot (hstep : process.stepAttempt goal.source attempt (.snapshot ok) = some next) :
    goal.ProcessInv next := by
  simp only [ImportProcess.stepAttempt] at hstep
  split at hstep
  next chat rest hspaces hchats hstage =>
    split at hstep
    · cases hstep
      obtain ⟨htowards, hkeeps, hplaced⟩ := hinv.target.importSnapshot
        (hattempt.chats chat (by rw [hchats]; exact mem_cons_self))
      refine hinv.move htowards hkeeps (advanced hattempt fun other _ hother => ?_)
      rw [hchats, head?_cons, Option.some.injEq] at hother
      exact hother ▸ hplaced
    · cases hstep
      exact hinv.move hinv.target (fun _ hid => hid) (skipped hattempt)
  · cases hstep

theorem stepCopy {outcome : CopyOutcome}
    (hwhole : ∀ bytes name, outcome = .failed (some bytes) → attempt.copying = some name →
      goal.source.files[name]? = some bytes)
    (hstep : process.stepAttempt goal.source attempt (.copy outcome) = some next) :
    goal.ProcessInv next := by
  simp only [ImportProcess.stepAttempt] at hstep
  split at hstep
  · cases hstep
  next name hcopying =>
    cases outcome with
    | done =>
      cases hstep
      obtain ⟨chat, hnew, hname⟩ := copying_new hattempt hcopying
      obtain ⟨htowards, hkeeps, hplaced⟩ := hinv.target.copyFile hnew hname
      refine hinv.move htowards hkeeps (advanced hattempt fun other hother hhead => ?_)
      have hold := hattempt.stage other hhead
      unfold ImportAttempt.copying at hcopying
      split at hcopying
      next first rest hchats hstage =>
        rw [hchats, head?_cons, Option.some.injEq] at hhead
        cases hcopying
        rw [hstage] at hold
        rw [if_pos hstage, ← hhead]
        exact ⟨hhead ▸ hold, hplaced⟩
      next first rest hchats hstage =>
        rw [hchats, head?_cons, Option.some.injEq] at hhead
        cases hcopying
        rw [hstage] at hold
        subst hhead
        rw [if_neg (by rw [hstage]; exact nofun)]
        refine ⟨hold.1, ?_, hplaced⟩
        exact hinv.target.files.getElem?_fill keeps_files
          (fun habsent => files_of_mem hnew hname habsent) hold.2
      · cases hcopying
    | failed left =>
      obtain ⟨target, hleave, rfl⟩ := Option.map_eq_some_iff.mp hstep
      obtain ⟨htowards, hkeeps⟩ := leave hinv.target
        (fun found hfound => by cases hfound; exact copying_new hattempt hcopying) hleave
        (fun bytes found hbytes hfound => by
          cases hfound
          exact hwhole bytes name (hbytes ▸ rfl) hcopying)
      exact hinv.move htowards hkeeps (skipped hattempt)

theorem stepRow (hstep : process.stepAttempt goal.source attempt (.row ok) = some next) :
    goal.ProcessInv next := by
  simp only [ImportProcess.stepAttempt] at hstep
  split at hstep
  next chat rest hchats hstage =>
    cases hstep
    have hplaced := hattempt.stage chat (by rw [hchats]; rfl)
    rw [hstage] at hplaced
    cases ok with
    | true =>
      obtain ⟨htowards, hkeeps⟩ := hinv.target.importChatRow
        (hattempt.chats chat (by rw [hchats]; exact mem_cons_self)) hplaced
      exact hinv.move htowards hkeeps (skipped hattempt)
    | false => exact hinv.move hinv.target (fun _ hid => hid) (skipped hattempt)
  · cases hstep

end

/-- Every step keeps the target between the start and the goal, if its copies are whole. -/
theorem step (hinv : goal.ProcessInv process) {action : AttemptStep}
    (hwhole : WholeCopies goal.source process action)
    (hstep : process.step goal.source action = some next) : goal.ProcessInv next := by
  cases action with
  | begin =>
    simp only [ImportProcess.step] at hstep
    split at hstep
    · cases hstep
    · cases hstep
      refine ⟨hinv.target, hinv.savedSpaces, hinv.savedChats, fun attempt hattempt => ?_⟩
      cases hattempt
      refine ⟨?_, ?_, fun _ _ => trivial⟩
      · intro space hspace
        obtain ⟨hsource, hnone⟩ := mem_filter.mp hspace
        refine ⟨hsource, ?_⟩
        cases hstart : goal.start.spaces[space.id]? with
        | none => rfl
        | some found =>
          rw [Option.isNone_iff_eq_none] at hnone
          rcases hinv.target.spaces space.id with hsame | hgoal
          · rw [hnone, hstart] at hsame
            cases hsame
          · rw [hnone, goal.keeps_spaces _ _ hstart] at hgoal
            cases hgoal
      · intro chat hchat
        obtain ⟨hsource, hnone⟩ := mem_filter.mp hchat
        rw [Option.isNone_iff_eq_none] at hnone
        exact mem_news.2 ⟨hsource, hinv.target.chats.start_none hnone⟩
  | save =>
    cases hstep
    exact ⟨hinv.target, hinv.target.spaces, hinv.target.chats, hinv.attempt⟩
  | crash left =>
    obtain ⟨target, hleave, rfl⟩ := Option.map_eq_some_iff.mp hstep
    have hcopying : ∀ name, process.attempt.bind ImportAttempt.copying = some name →
        ∃ chat ∈ goal.news, name = (journalPaths chat.id).1 ∨ name = (journalPaths chat.id).2 := by
      intro name hname
      obtain ⟨attempt, hattempt, hname⟩ := Option.bind_eq_some_iff.mp hname
      exact copying_new (hinv.attempt attempt hattempt) hname
    obtain ⟨htowards, hkeeps⟩ := leave hinv.target hcopying hleave fun bytes name hbytes hname => by
      subst hbytes
      exact hwhole name hname
    have hrows : ∀ {rows : Table (ChatRecord Fields)}, goal.Rows target rows →
        goal.Rows { target with spaces := process.savedSpaces, chats := process.savedChats } rows :=
      fun hrows => hrows.mono fun id hid => ⟨hid.1, hid.2, hid.3⟩
    have hsaved := hrows (hinv.savedChats.mono hkeeps)
    refine ⟨⟨htowards.snapshots, htowards.files, hinv.savedSpaces, hsaved⟩, hinv.savedSpaces,
      hsaved, fun attempt hattempt => ?_⟩
    cases hattempt
  | finish =>
    obtain ⟨attempt, -, hstep⟩ := Option.bind_eq_some_iff.mp hstep
    simp only [ImportProcess.stepAttempt] at hstep
    split at hstep
    · cases hstep
      refine ⟨hinv.target, hinv.savedSpaces, hinv.savedChats, fun attempt hattempt => ?_⟩
      cases hattempt
    · cases hstep
  | space ok =>
    obtain ⟨attempt, hattempt, hstep⟩ := Option.bind_eq_some_iff.mp hstep
    exact hinv.stepSpace (hinv.attempt attempt hattempt) hstep
  | snapshot ok =>
    obtain ⟨attempt, hattempt, hstep⟩ := Option.bind_eq_some_iff.mp hstep
    exact hinv.stepSnapshot (hinv.attempt attempt hattempt) hstep
  | copy outcome =>
    obtain ⟨attempt, hattempt, hstep⟩ := Option.bind_eq_some_iff.mp hstep
    refine hinv.stepCopy (hinv.attempt attempt hattempt) ?_ hstep
    rintro bytes name rfl hname
    exact hwhole name (by rw [hattempt]; exact hname)
  | row ok =>
    obtain ⟨attempt, hattempt, hstep⟩ := Option.bind_eq_some_iff.mp hstep
    exact hinv.stepRow (hinv.attempt attempt hattempt) hstep

end ImportGoal.ProcessInv

/-- The step belongs to an attempt that goes through. -/
def AttemptStep.clean : AttemptStep → Bool
  | .begin | .crash _ | .copy (.failed _) => false
  | .space ok | .snapshot ok | .row ok => ok
  | .copy .done | .finish | .save => true

/-- Every chat and space of the source has a row, or the attempt is still to import it. -/
structure ImportGoal.Covers (goal : ImportGoal Fields) (process : ImportProcess Fields) : Prop where
  chats : ∀ chat ∈ goal.source.chats, process.target.chats[chat.id]?.isSome ∨
    ∃ attempt, process.attempt = some attempt ∧ chat ∈ attempt.chats
  spaces : ∀ space ∈ goal.source.spaces, process.target.spaces[space.id]?.isSome ∨
    ∃ attempt, process.attempt = some attempt ∧ space ∈ attempt.spaces

theorem importSnapshot_rows (source : LocalProfile Fields) (target : ImportTarget Fields)
    (chatId : String) : (target.importSnapshot source chatId).spaces = target.spaces ∧
      (target.importSnapshot source chatId).chats = target.chats := by
  unfold ImportTarget.importSnapshot
  split <;> exact ⟨rfl, rfl⟩

theorem isSome_insert {Value : Type} {table : Table Value} (key : String) (value : Value)
    {other : String} (hother : table[other]?.isSome) : (table.insert key value)[other]?.isSome := by
  by_cases hsame : other = key
  · rw [hsame, getElem?_insert_self]
    rfl
  · rw [FillIn.getElem?_insert_of_ne value hsame]
    exact hother

theorem isSome_insert_self {Value : Type} (table : Table Value) (key : String) (value : Value) :
    (table.insert key value)[key]?.isSome := by
  rw [getElem?_insert_self]
  rfl

namespace ImportGoal.Covers

theorem begin (hstep : process.step goal.source .begin = some next) : goal.Covers next := by
  simp only [ImportProcess.step] at hstep
  split at hstep
  · cases hstep
  · cases hstep
    refine ⟨fun chat hchat => ?_, fun space hspace => ?_⟩
    · cases hrow : process.target.chats[chat.id]? with
      | some row => exact .inl rfl
      | none => exact .inr ⟨_, rfl, mem_filter.mpr ⟨hchat, by rw [hrow]; rfl⟩⟩
    · cases hrow : process.target.spaces[space.id]? with
      | some row => exact .inl rfl
      | none => exact .inr ⟨_, rfl, mem_filter.mpr ⟨hspace, by rw [hrow]; rfl⟩⟩

/-- An attempt that only changes the documents, the files or its stage covers what it did. -/
theorem move (hcovers : goal.Covers process) {attempt : ImportAttempt Fields}
    (hattempt : process.attempt = some attempt) {target : ImportTarget Fields}
    (hspaces : target.spaces = process.target.spaces) (hchats : target.chats = process.target.chats)
    (stage : ImportStage) : goal.Covers (process.advance target attempt stage) := by
  refine ⟨fun chat hchat => ?_, fun space hspace => ?_⟩
  · refine (hcovers.chats chat hchat).imp (fun hrow => hchats ▸ hrow) ?_
    rintro ⟨found, hfound, hpending⟩
    rw [hattempt, Option.some.injEq] at hfound
    exact ⟨_, rfl, hfound ▸ hpending⟩
  · refine (hcovers.spaces space hspace).imp (fun hrow => hspaces ▸ hrow) ?_
    rintro ⟨found, hfound, hpending⟩
    rw [hattempt, Option.some.injEq] at hfound
    exact ⟨_, rfl, hfound ▸ hpending⟩

theorem stepAttempt (hcovers : goal.Covers process) {attempt : ImportAttempt Fields}
    (hattempt : process.attempt = some attempt) {action : AttemptStep} (hclean : action.clean = true)
    (hstep : process.stepAttempt goal.source attempt action = some next) : goal.Covers next := by
  have hpendingChat : ∀ {chat}, chat ∈ goal.source.chats →
      process.target.chats[chat.id]?.isSome ∨ chat ∈ attempt.chats := by
    intro chat hchat
    refine (hcovers.chats chat hchat).imp_right ?_
    rintro ⟨found, hfound, hpending⟩
    rw [hattempt, Option.some.injEq] at hfound
    exact hfound ▸ hpending
  have hpendingSpace : ∀ {space}, space ∈ goal.source.spaces →
      process.target.spaces[space.id]?.isSome ∨ space ∈ attempt.spaces := by
    intro space hspace
    refine (hcovers.spaces space hspace).imp_right ?_
    rintro ⟨found, hfound, hpending⟩
    rw [hattempt, Option.some.injEq] at hfound
    exact hfound ▸ hpending
  cases action with
  | space ok =>
    obtain rfl : ok = true := hclean
    simp only [ImportProcess.stepAttempt] at hstep
    split at hstep
    · cases hstep
    next space rest hspaces =>
      cases hstep
      refine ⟨fun chat hchat => (hpendingChat hchat).imp_right fun hpending => ⟨_, rfl, hpending⟩,
        fun other hother => ?_⟩
      rcases hpendingSpace hother with hrow | hpending
      · exact .inl (isSome_insert _ _ hrow)
      · rw [hspaces, mem_cons] at hpending
        rcases hpending with rfl | hpending
        · exact .inl (isSome_insert_self _ _ _)
        · exact .inr ⟨_, rfl, hpending⟩
  | snapshot ok =>
    obtain rfl : ok = true := hclean
    simp only [ImportProcess.stepAttempt] at hstep
    split at hstep
    next chat rest hspaces hchats hstage =>
      cases hstep
      obtain ⟨hsame, hsame'⟩ := importSnapshot_rows goal.source process.target chat.id
      exact hcovers.move hattempt hsame hsame' .journal
    · cases hstep
  | copy outcome =>
    cases outcome with
    | failed left => cases hclean
    | done =>
      simp only [ImportProcess.stepAttempt] at hstep
      split at hstep
      · cases hstep
      next name hcopying =>
        cases hstep
        have hspaces : (process.target.copyFile goal.source name).spaces = process.target.spaces :=
          rfl
        exact hcovers.move hattempt hspaces rfl _
  | row ok =>
    obtain rfl : ok = true := hclean
    simp only [ImportProcess.stepAttempt] at hstep
    split at hstep
    next chat rest hchats hstage =>
      cases hstep
      refine ⟨fun other hother => ?_,
        fun space hspace => (hpendingSpace hspace).imp_right fun hpending => ⟨_, rfl, hpending⟩⟩
      rcases hpendingChat hother with hrow | hpending
      · exact .inl (isSome_insert _ _ hrow)
      · rw [hchats, mem_cons] at hpending
        rcases hpending with rfl | hpending
        · exact .inl (isSome_insert_self _ _ _)
        · exact .inr ⟨_, rfl, by simpa [hchats] using hpending⟩
    · cases hstep
  | finish =>
    simp only [ImportProcess.stepAttempt] at hstep
    split at hstep
    next hdone =>
      cases hstep
      rw [hdone.1] at hpendingSpace
      rw [hdone.2] at hpendingChat
      exact ⟨fun chat hchat => .inl ((hpendingChat hchat).resolve_right not_mem_nil),
        fun space hspace => .inl ((hpendingSpace hspace).resolve_right not_mem_nil)⟩
    · cases hstep
  | begin => cases hclean
  | save => cases hstep
  | crash left => cases hclean

theorem step (hcovers : goal.Covers process) {action : AttemptStep} (hclean : action.clean = true)
    (hstep : process.step goal.source action = some next) : goal.Covers next := by
  cases action with
  | begin | crash left => cases hclean
  | save =>
    cases hstep
    exact ⟨hcovers.chats, hcovers.spaces⟩
  | finish | space | snapshot | copy | row =>
    obtain ⟨attempt, hattempt, hstep⟩ := Option.bind_eq_some_iff.mp hstep
    exact hcovers.stepAttempt hattempt hclean hstep

end ImportGoal.Covers

section Uninterrupted

theorem foldl_importSpaceRow {spaces : List (SpaceRecord Fields)}
    (hspaces : ∀ space ∈ spaces, space ∈ goal.source.spaces ∧ goal.start.spaces[space.id]? = none)
    {target : ImportTarget Fields} (htowards : goal.Towards target) :
    let last := spaces.foldl ImportTarget.importSpaceRow target
    goal.Towards last ∧ last.chats = target.chats ∧
      ∀ id, (target.spaces[id]?.isSome ∨ ∃ space ∈ spaces, space.id = id) →
        last.spaces[id]?.isSome := by
  induction spaces generalizing target with
  | nil =>
    refine ⟨htowards, rfl, fun id hid => hid.resolve_right ?_⟩
    rintro ⟨space, hspace, -⟩
    exact not_mem_nil hspace
  | cons space rest ih =>
    obtain ⟨⟨hsource, habsent⟩, hrest⟩ := forall_mem_cons.mp hspaces
    obtain ⟨hlast, hchats, hrows⟩ := ih hrest (htowards.importSpaceRow hsource habsent).1
    refine ⟨hlast, hchats, fun id hid => hrows id ?_⟩
    rcases hid with hrow | ⟨other, hother, rfl⟩
    · exact .inl (isSome_insert _ _ hrow)
    · rcases mem_cons.mp hother with rfl | hother
      · exact .inl (isSome_insert_self _ _ _)
      · exact .inr ⟨other, hother, rfl⟩

theorem foldl_importChat {chats : List (ChatRecord Fields)} (hchats : ∀ chat ∈ chats, chat ∈ goal.news)
    {target : ImportTarget Fields} (htowards : goal.Towards target) :
    let last := chats.foldl (ImportTarget.importChat goal.source) target
    goal.Towards last ∧ last.spaces = target.spaces ∧
      ∀ id, (target.chats[id]?.isSome ∨ ∃ chat ∈ chats, chat.id = id) → last.chats[id]?.isSome := by
  induction chats generalizing target with
  | nil =>
    refine ⟨htowards, rfl, fun id hid => hid.resolve_right ?_⟩
    rintro ⟨chat, hchat, -⟩
    exact not_mem_nil hchat
  | cons chat rest ih =>
    obtain ⟨hnew, hrest⟩ := forall_mem_cons.mp hchats
    obtain ⟨hlast, hspaces, hrows⟩ := ih hrest (htowards.importChat hnew)
    obtain ⟨hsame, hsame'⟩ := importSnapshot_rows goal.source target chat.id
    have hchat : (target.importChat goal.source chat).chats =
        target.chats.insert chat.id chat.imported := by
      rw [← hsame']
      rfl
    refine ⟨hlast, hspaces.trans hsame, fun id hid => hrows id ?_⟩
    rw [hchat]
    rcases hid with hrow | ⟨other, hother, rfl⟩
    · exact .inl (isSome_insert _ _ hrow)
    · rcases mem_cons.mp hother with rfl | hother
      · exact .inl (isSome_insert_self _ _ _)
      · exact .inr ⟨other, hother, rfl⟩

theorem importAll_goal (goal : ImportGoal Fields) :
    goal.Towards (goal.start.importAll goal.source) ∧
      goal.Covered (goal.start.importAll goal.source) := by
  have hstart : goal.Towards goal.start :=
    ⟨.refl _ _, .refl _ _, .refl _ _, fun _ => .inl rfl⟩
  have hspaces : ∀ space ∈ goal.start.pendingSpaces goal.source,
      space ∈ goal.source.spaces ∧ goal.start.spaces[space.id]? = none := by
    intro space hspace
    obtain ⟨hsource, hnone⟩ := mem_filter.mp hspace
    exact ⟨hsource, Option.isNone_iff_eq_none.mp hnone⟩
  obtain ⟨hmiddle, hchats, hspaceRows⟩ := foldl_importSpaceRow hspaces hstart
  obtain ⟨hlast, hsame, hchatRows⟩ :=
    @foldl_importChat _ goal (goal.start.pendingChats goal.source) (fun _ hchat => hchat) _ hmiddle
  refine ⟨hlast, fun chat hchat => hchatRows chat.id ?_, fun space hspace => ?_⟩
  · rw [hchats]
    cases hrow : goal.start.chats[chat.id]? with
    | some row => exact .inl rfl
    | none => exact .inr ⟨chat, ImportGoal.mem_news.2 ⟨hchat, hrow⟩, rfl⟩
  · rw [ImportTarget.importAll, hsame]
    refine hspaceRows space.id ?_
    cases hrow : goal.start.spaces[space.id]? with
    | some row => exact .inl rfl
    | none =>
      exact .inr ⟨space, mem_filter.mpr ⟨hspace, by rw [hrow]; rfl⟩, rfl⟩

theorem ImportGoal.Towards.unique {first second : ImportTarget Fields} (hfirst : goal.Towards first)
    (hcovered : goal.Covered first) (hsecond : goal.Towards second) (hcovered' : goal.Covered second) :
    first = second := by
  obtain ⟨hsnapshots, hfiles, hspaces, hchats⟩ := hfirst.eq_goal hcovered
  obtain ⟨hsnapshots', hfiles', hspaces', hchats'⟩ := hsecond.eq_goal hcovered'
  cases first
  cases second
  congr 1
  · exact Std.ExtTreeMap.ext_getElem? fun id => (hsnapshots id).trans (hsnapshots' id).symm
  · exact Std.ExtTreeMap.ext_getElem? fun id => (hspaces id).trans (hspaces' id).symm
  · exact Std.ExtTreeMap.ext_getElem? fun id => (hchats id).trans (hchats' id).symm
  · exact Std.ExtTreeMap.ext_getElem? fun name => (hfiles name).trans (hfiles' name).symm

end Uninterrupted

end Runs

/-- All that a target holds, another holds as well. -/
structure ImportTarget.Within {Fields : Type} (before after : ImportTarget Fields) : Prop where
  snapshots : ∀ (id : String) (doc : StoredDoc), before.snapshots[id]? = some doc →
    after.snapshots[id]? = some doc
  spaces : ∀ (id : String) (space : SpaceRecord Fields), before.spaces[id]? = some space →
    after.spaces[id]? = some space
  chats : ∀ (id : String) (chat : ChatRecord Fields), before.chats[id]? = some chat →
    after.chats[id]? = some chat
  files : ∀ (name : String) (bytes : List UInt8), before.files[name]? = some bytes →
    after.files[name]? = some bytes

/-- After any attempts that crash or fail at any steps, as long as no copy leaves a part of a
file, one attempt that goes through ends with the target of a single attempt, and what the
target held before is unchanged. -/
theorem import_recovers {Fields : Type} (source : LocalProfile Fields) (before : ImportTarget Fields)
    (earlier last : List AttemptStep) (middle final : ImportProcess Fields)
    (hearlier : Trace.run (ImportProcess.step source) (.start before) earlier = some middle)
    (hwhole : Trace.Guarded (ImportProcess.step source) (WholeCopies source) (.start before) earlier)
    (hlast : Trace.run (ImportProcess.step source) middle (.begin :: last) = some final)
    (hclean : ∀ action ∈ last, action.clean = true) (hdone : final.attempt = none) :
    final.target = before.importAll source ∧ before.Within final.target := by
  let goal : ImportGoal Fields := { source, start := before }
  have hmiddle : goal.ProcessInv middle :=
    Trace.guarded_invariant (fun process action next hinv hguard hstep => hinv.step hguard hstep)
      goal.processInv_start hwhole hearlier
  obtain ⟨begun, hbegin, hrun⟩ := Trace.run_cons_eq_some.1 hlast
  -- the last attempt stays between the start and the goal, and covers all the rows
  have hfinal : goal.ProcessInv final ∧ goal.Covers final := by
    have hcovers : goal.Covers begun := ImportGoal.Covers.begin hbegin
    have hbegun : goal.ProcessInv begun :=
      @ImportGoal.ProcessInv.step _ goal _ _ hmiddle .begin trivial hbegin
    have hguarded : Trace.Guarded (ImportProcess.step source)
        (fun _ action => action.clean = true) begun last :=
      Trace.Guarded.of_forall_mem fun action haction _ => hclean action haction
    refine @Trace.guarded_invariant _ _ _ _
      (fun process => goal.ProcessInv process ∧ goal.Covers process) ?_ _ _ _ ⟨hbegun, hcovers⟩
      hguarded hrun
    intro process action next hinv hclean hstep
    refine ⟨hinv.1.step ?_ hstep, hinv.2.step hclean hstep⟩
    cases action with
    | copy outcome =>
      cases outcome with
      | done => trivial
      | failed left => cases hclean
    | crash left => cases hclean
    | begin | space | snapshot | row | finish | save => trivial
  obtain ⟨hinv, hcovers⟩ := hfinal
  have hcovered : goal.Covered final.target := by
    have hnone : ∀ attempt, ¬ final.attempt = some attempt := by
      rw [hdone]
      exact fun attempt => nofun
    refine ⟨fun chat hchat => (hcovers.chats chat hchat).resolve_right ?_,
      fun space hspace => (hcovers.spaces space hspace).resolve_right ?_⟩
    · rintro ⟨attempt, hattempt, -⟩
      exact hnone attempt hattempt
    · rintro ⟨attempt, hattempt, -⟩
      exact hnone attempt hattempt
  obtain ⟨hsingle, hsingle'⟩ := importAll_goal goal
  obtain ⟨hsnapshots, hfiles, hspaces, hchats⟩ := hinv.target.eq_goal hcovered
  refine ⟨hinv.target.unique hcovered hsingle hsingle', ?_, ?_, ?_, ?_⟩
  · exact fun id doc hdoc => (hsnapshots id).trans (goal.keeps_snapshots id doc hdoc)
  · exact fun id space hspace => (hspaces id).trans (goal.keeps_spaces id space hspace)
  · exact fun id chat hchat => (hchats id).trans (goal.keeps_chats id chat hchat)
  · exact fun name bytes hbytes => (hfiles name).trans (goal.keeps_files name bytes hbytes)

/-- A profile with one chat and its journal. -/
def oneChat : LocalProfile Unit where
  snapshots := Std.ExtTreeMap.ofList [("c1", ([7] : List UInt8))]
  spaces := []
  chats := [⟨"c1", none, ()⟩]
  files := Std.ExtTreeMap.ofList [("c1.jsonl", ([1, 2, 3] : List UInt8))]
  distinctSpaces := by decide
  distinctChats := by decide

/-- An attempt at that chat that goes through. -/
def oneChatSteps : List AttemptStep :=
  [.snapshot true, .copy .done, .copy .done, .row true, .finish]

theorem import_recovers_oneChat : ∃ middle final,
    Trace.run (ImportProcess.step oneChat) (.start {}) [.begin, .snapshot true, .crash none] =
      some middle ∧
    Trace.run (ImportProcess.step oneChat) middle (.begin :: oneChatSteps) = some final ∧
    final.target = ImportTarget.importAll oneChat {} ∧
      (ImportTarget.Within {} final.target) := by
  obtain ⟨middle, hmiddle⟩ : ∃ middle, Trace.run (ImportProcess.step oneChat) (.start {})
      [.begin, .snapshot true, .crash none] = some middle := ⟨_, rfl⟩
  obtain ⟨final, hfinal, hdone⟩ : ∃ final, Trace.run (ImportProcess.step oneChat) middle
      (.begin :: oneChatSteps) = some final ∧ final.attempt = none := by
    cases hmiddle
    exact ⟨_, rfl, rfl⟩
  refine ⟨middle, final, hmiddle, hfinal, import_recovers oneChat {} _ _ middle final hmiddle ?_
    hfinal ?_ hdone⟩
  · exact (Trace.guarded_cons_of_step rfl).mpr ⟨trivial, (Trace.guarded_cons_of_step rfl).mpr
      ⟨trivial, (Trace.guarded_cons_of_step rfl).mpr ⟨trivial, trivial⟩⟩⟩
  · intro action haction
    simp only [oneChatSteps, mem_cons, not_mem_nil, or_false] at haction
    rcases haction with rfl | rfl | rfl | rfl | rfl <;> rfl

/-- A crash in the copy of the journal leaves its first byte, and the next attempt keeps it. -/
theorem import_recovers_torn : ∃ middle final,
    Trace.run (ImportProcess.step oneChat) (.start {}) [.begin, .snapshot true, .crash (some [1])] =
      some middle ∧
    Trace.run (ImportProcess.step oneChat) middle (.begin :: oneChatSteps) = some final ∧
    final.attempt = none ∧ (∀ action ∈ oneChatSteps, action.clean = true) ∧
    final.target.files["c1.jsonl"]? = some [1] ∧
    (ImportTarget.importAll oneChat {}).files["c1.jsonl"]? = some [1, 2, 3] := by
  refine ⟨_, _, rfl, rfl, rfl, ?_, rfl, rfl⟩
  intro action haction
  simp only [oneChatSteps, mem_cons, not_mem_nil, or_false] at haction
  rcases haction with rfl | rfl | rfl | rfl | rfl <;> rfl

end Keel
