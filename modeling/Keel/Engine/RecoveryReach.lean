import Mathlib.Data.String.Basic
import Keel.Engine.ResumeBudget

/-! # How far the recovery reaches

The recovery closes the journals of the chats before the first one whose document fails, and of no
chat behind it.
-/

namespace Keel

open List Utf8

section Scan

variable {codec : JournalCodec} {journal : RunJournal}

/-- The journal of a chat has events, and the last one is not terminal. -/
def RunJournal.Stale (codec : JournalCodec) (journal : RunJournal) (chatId : String) : Prop :=
  ∃ bytes lines, journal.files[chatId]? = some bytes ∧ readLines codec (some bytes) = .ok lines ∧
    RunJournal.isStale lines = true

/-- The journal of a chat ends with a terminal event. -/
def RunJournal.Closed (codec : JournalCodec) (journal : RunJournal) (chatId : String) : Prop :=
  ∃ lines seq status result error sessionId, readLines codec (journal.fileFor chatId) = .ok lines ∧
    lines.getLast? = some (seq, .done status result error sessionId)

theorem RunJournal.Stale.not_closed {chatId : String} (hstem : sanitizeId chatId = chatId)
    (hstale : journal.Stale codec chatId) : ¬ journal.Closed codec chatId := by
  rintro ⟨lines, seq, status, result, error, sessionId, hread, hlast⟩
  obtain ⟨bytes, found, hfile, hfound, hopen⟩ := hstale
  rw [RunJournal.fileFor, hstem, hfile, hfound] at hread
  cases hread
  simp [RunJournal.isStale, hlast] at hopen

theorem staleSessions_ok {stale : List String} (hscan : journal.staleSessions codec = .ok stale) :
    (∀ chatId, chatId ∈ stale ↔ journal.Stale codec chatId) ∧
      stale.Pairwise (fun first second => first ≤ second) ∧ stale.Nodup := by
  rw [RunJournal.staleSessions] at hscan
  split at hscan
  · cases hscan
  next scanned hscanned =>
    cases hscan
    refine ⟨fun chatId => ?_, ?_, ?_⟩
    · rw [mem_mergeSort, mem_map]
      constructor
      · rintro ⟨⟨stem, open?⟩, hfiltered, rfl⟩
        obtain ⟨hmem, hopen⟩ := mem_filter.mp hfiltered
        obtain ⟨⟨found, bytes⟩, hfile, hread⟩ := Lists.exists_of_mem_mapM hscanned hmem
        dsimp only at hread
        split at hread
        · cases hread
        next lines hlines =>
          cases hread
          exact ⟨bytes, lines, Std.ExtTreeMap.mem_toList_iff_getElem?_eq_some.mp hfile, hlines,
            hopen⟩
      · rintro ⟨bytes, lines, hfile, hlines, hopen⟩
        refine ⟨(chatId, true), mem_filter.mpr ⟨?_, rfl⟩, rfl⟩
        refine Lists.mem_mapM_of_mem hscanned
          (Std.ExtTreeMap.mem_toList_iff_getElem?_eq_some.mpr hfile) ?_
        simp only [hlines, hopen]
    · apply List.Pairwise.imp (fun {_ _} hordered => of_decide_eq_true hordered)
      apply pairwise_mergeSort
      · intro first second third hfirst hsecond
        rw [decide_eq_true_eq] at hfirst hsecond ⊢
        exact le_trans hfirst hsecond
      · intro first second
        rw [Bool.or_eq_true, decide_eq_true_eq, decide_eq_true_eq]
        exact le_total first second
    · have hkeys : scanned.map Prod.fst = journal.files.toList.map Prod.fst := by
        refine Lists.map_of_mapM (fun file result hresult => ?_) hscanned
        dsimp only at hresult
        split at hresult
        · cases hresult
        · exact (Prod.mk.inj (Option.some.inj hresult)).1.symm
      have hnodup : (scanned.map Prod.fst).Nodup := by
        rw [hkeys, Std.ExtTreeMap.map_fst_toList_eq_keys]
        exact Std.ExtTreeMap.nodup_keys
      refine (mergeSort_perm _ _).nodup_iff.mpr (hnodup.sublist ?_)
      exact filter_sublist.map _

end Scan

section Append

variable {codec : JournalCodec} {journal : RunJournal} {chatId stem other : String}
  {bytes : List UInt8} {lines : List JournalLine} {event : AgentEvent}

/-- Opening the file of a chat leaves the other files alone, and opens no other. -/
theorem openFor_frame (codec : JournalCodec) (journal : RunJournal) (chatId : String) :
    (∀ stem, stem ≠ sanitizeId chatId →
      (journal.openFor codec chatId).1.files[stem]? = journal.files[stem]?) ∧
    ∀ other, other ≠ chatId → journal.openFiles[other]? = none →
      (journal.openFor codec chatId).1.openFiles[other]? = none := by
  rw [RunJournal.openFor]
  split
  · exact ⟨fun _ _ => rfl, fun _ _ hnone => hnone⟩
  · have hcap : (if journal.openFiles.size ≥ openFileCap then { journal with openFiles := ∅ }
        else journal).files = journal.files ∧ ∀ other : String, journal.openFiles[other]? = none →
        (if journal.openFiles.size ≥ openFileCap then { journal with openFiles := ∅ }
          else journal).openFiles[other]? = none := by
      split
      · exact ⟨rfl, fun _ _ => Std.ExtTreeMap.getElem?_empty⟩
      · exact ⟨rfl, fun _ hnone => hnone⟩
    generalize (if journal.openFiles.size ≥ openFileCap then { journal with openFiles := ∅ }
      else journal) = opened at hcap
    dsimp only
    split
    · exact ⟨fun stem _ => by rw [hcap.1], fun other _ => hcap.2 other⟩
    · refine ⟨fun stem hstem => ?_, fun other hother hnone => ?_⟩
      · rw [Std.ExtTreeMap.getElem?_insert, if_neg (by simpa using hstem.symm), hcap.1]
      · rw [Std.ExtTreeMap.getElem?_insert, if_neg (by simpa using hother.symm)]
        exact hcap.2 other hnone

theorem append_frame (codec : JournalCodec) (journal : RunJournal) (chatId : String)
    (event : AgentEvent) :
    (∀ stem, stem ≠ sanitizeId chatId →
      (journal.append codec chatId event).1.files[stem]? = journal.files[stem]?) ∧
    ∀ other, other ≠ chatId → journal.openFiles[other]? = none →
      (journal.append codec chatId event).1.openFiles[other]? = none := by
  obtain ⟨hfiles, hopen⟩ := openFor_frame codec journal chatId
  rw [RunJournal.append]
  generalize journal.openFor codec chatId = result at hfiles hopen
  obtain ⟨opened, entry⟩ := result
  cases entry with
  | error => exact ⟨hfiles, hopen⟩
  | ok entry =>
    refine ⟨fun stem hstem => ?_, fun other hother hnone => ?_⟩
    · simp only [RunJournal.writeAll]
      rw [Std.ExtTreeMap.getElem?_insert, if_neg (by simpa using hstem.symm)]
      exact hfiles stem hstem
    · simp only
      rw [Std.ExtTreeMap.getElem?_insert, if_neg (by simpa using hother.symm)]
      exact hopen other hother hnone

variable (hclosed : journal.openFiles[chatId]? = none) (hfile : journal.fileFor chatId = some bytes)
include hclosed hfile

theorem append_file {nextSeq : Nat} {needsNewline : Bool}
    (hscan : scanTail codec (some bytes) = .ok (nextSeq, needsNewline)) (event : AgentEvent) :
    (journal.append codec chatId event).1.fileFor chatId =
      some (bytes ++ ({ nextSeq, needsNewline : ChatJournal }.buffer codec event)) := by
  have hcapped : (if journal.openFiles.size ≥ openFileCap then { journal with openFiles := ∅ }
      else journal).fileFor chatId = some bytes := by
    split <;> exact hfile
  rw [RunJournal.append, RunJournal.openFor, hclosed]
  generalize (if journal.openFiles.size ≥ openFileCap then { journal with openFiles := ∅ }
    else journal) = opened at hcapped
  rw [RunJournal.fileFor] at hcapped
  simp [hcapped, hscan, RunJournal.writeAll, RunJournal.fileFor]

/-- Whatever text the file holds, the event that is appended is its last line. -/
theorem append_last (hread : readLines codec (some bytes) = .ok lines)
    (hprints : ∀ nextSeq needsNewline, scanTail codec (some bytes) = .ok (nextSeq, needsNewline) →
      codec.Prints (nextSeq, event)) :
    ∃ older seq, readLines codec ((journal.append codec chatId event).1.fileFor chatId) =
      .ok (older ++ [(seq, event)]) := by
  obtain ⟨text, htext⟩ := Option.isSome_iff_exists.mp
    ((readLines_isOk_iff codec).mp ⟨lines, hread⟩)
  obtain rfl := decode_eq_some_iff.1 htext
  obtain ⟨nextSeq, hscan⟩ : ∃ nextSeq, scanTail codec (some (encode text)) =
      .ok (nextSeq, JournalProcess.endsMidLine (encode text)) := by
    rw [scanTail, hread]
    exact ⟨_, rfl⟩
  have hline := hprints _ _ hscan
  rw [append_file hclosed hfile hscan, buffer_eq_encode, ← encode_append]
  -- A newline ends the text where the scan found none.
  have hends : EndsLine (text ++ if JournalProcess.endsMidLine (encode text) then ['\n']
      else []) := by
    obtain ⟨whole, tail, rfl, hwhole, htail⟩ := exists_endsLine text
    cases hmid : JournalProcess.endsMidLine (encode (whole ++ tail)) with
    | true => exact .concat _
    | false =>
      rw [(endsMidLine_encode hwhole htail).mp hmid]
      simpa using hwhole
  refine ⟨parsedLines codec (text ++ if JournalProcess.endsMidLine (encode text) then ['\n']
    else []), nextSeq, ?_⟩
  rw [← append_assoc, readLines_encode, parsedLines_append hends, parsedLines_print hline]

end Append

section Loop

/-- The document of the chat opens, and its entries can be stamped. -/
def Opens (env : BootEnv) (chatId : String) : Prop :=
  ∃ doc stamped, env.docHandle chatId = .ok doc ∧
    doc.markAbandonedStreams env.deviceId = .ok stamped

def Fails (env : BootEnv) (chatId : String) : Prop := chatId ∉ env.live ∧ ¬ Opens env chatId

def Reached (env : BootEnv) (chatId : String) : List String → Prop
  | [] => False
  | other :: rest => other = chatId ∨ ¬ Fails env other ∧ Reached env chatId rest

variable {codec : JournalCodec} {env : BootEnv} {disk : RecoveryDisk} {chatId : String}

theorem RecoveryDisk.applyAll_append (disk : RecoveryDisk) (first second : List RecoveryWrite) :
    disk.applyAll codec (first ++ second) = (disk.applyAll codec first).applyAll codec second := by
  simp [applyAll]

theorem recoverChat_spec (codec : JournalCodec) (env : BootEnv) (disk : RecoveryDisk)
    (chatId : String) :
    ((∃ error, (recoverChat codec env disk chatId).2 = .error error) ↔ Fails env chatId) ∧
      ((disk.applyAll codec (recoverChat codec env disk chatId).1).journal = disk.journal ∧
          ¬ (chatId ∉ env.live ∧ Opens env chatId) ∨
        ∃ note, (note = resumingNote ∨ note = interruptedNote) ∧
          (disk.applyAll codec (recoverChat codec env disk chatId).1).journal =
            (disk.journal.append codec chatId (recoveryDone note)).1) := by
  unfold recoverChat
  split
  next hlive =>
    rw [contains_iff_mem] at hlive
    exact ⟨by simp [Fails, hlive], .inl ⟨rfl, fun hrecovers => hrecovers.1 hlive⟩⟩
  next hlive =>
    rw [contains_iff_mem] at hlive
    split
    next error hdoc =>
      have hopens : ¬ Opens env chatId := fun ⟨_, _, hok, _⟩ => by simp [hdoc] at hok
      exact ⟨iff_of_true ⟨error, rfl⟩ ⟨hlive, hopens⟩,
        .inl ⟨rfl, fun hrecovers => hopens hrecovers.2⟩⟩
    next doc hdoc =>
      extract_lets remembered entries prompt fresh willResume note published
      have hnote : note = resumingNote ∨ note = interruptedNote := by
        unfold note
        split
        · exact .inl rfl
        · exact .inr rfl
      have hpublished : (disk.applyAll codec published).journal =
          (disk.journal.append codec chatId (recoveryDone note)).1 := by
        unfold published remembered
        split <;> rfl
      split
      next error hmark =>
        have hopens : ¬ Opens env chatId := by
          rintro ⟨found, stamped, hok, hstamped⟩
          obtain rfl := Except.ok.inj (hdoc.symm.trans hok)
          simp [hmark] at hstamped
        exact ⟨iff_of_true ⟨_, rfl⟩ ⟨hlive, hopens⟩, .inr ⟨note, hnote, hpublished⟩⟩
      next stamped hmark =>
        extract_lets closed
        have hopens : Opens env chatId := ⟨doc, stamped, hdoc, hmark⟩
        clear_value willResume prompt published
        split
        · refine ⟨iff_of_false nofun fun hfails => hfails.2 hopens, .inr ⟨note, hnote, ?_⟩⟩
          rw [RecoveryDisk.applyAll_append, RecoveryDisk.applyAll_append]
          exact hpublished
        · refine ⟨iff_of_false nofun fun hfails => hfails.2 hopens, .inr ⟨note, hnote, ?_⟩⟩
          rw [RecoveryDisk.applyAll_append]
          exact hpublished

/-- A chat that can be closed: its id is a file stem, its file is not open and goes on with a line
that reads back. -/
structure Ready (codec : JournalCodec) (journal : RunJournal) (chatId : String) : Prop where
  stem : sanitizeId chatId = chatId
  unopened : journal.openFiles[chatId]? = none
  stale : journal.Stale codec chatId
  prints : ∀ bytes nextSeq needsNewline, journal.files[chatId]? = some bytes →
    scanTail codec (some bytes) = .ok (nextSeq, needsNewline) →
    ∀ note, note = resumingNote ∨ note = interruptedNote →
      codec.Prints (nextSeq, recoveryDone note)

theorem Ready.frame {journal next : RunJournal} (hready : Ready codec journal chatId)
    (hfile : next.files[chatId]? = journal.files[chatId]?)
    (hunopened : next.openFiles[chatId]? = none) : Ready codec next chatId := by
  obtain ⟨bytes, lines, hbytes, hread⟩ := hready.stale
  exact ⟨hready.stem, hunopened, ⟨bytes, lines, hfile.trans hbytes, hread⟩,
    fun found nextSeq needsNewline hfound => hready.prints found nextSeq needsNewline
      (hfile.symm.trans hfound)⟩

theorem Ready.append_closed {journal : RunJournal} (hready : Ready codec journal chatId)
    {note : String} (hnote : note = resumingNote ∨ note = interruptedNote) :
    (journal.append codec chatId (recoveryDone note)).1.Closed codec chatId := by
  obtain ⟨bytes, lines, hbytes, hread, -⟩ := hready.stale
  have hfile : journal.fileFor chatId = some bytes := by
    rw [RunJournal.fileFor, hready.stem, hbytes]
  obtain ⟨older, seq, hlast⟩ := append_last hready.unopened hfile hread
    fun nextSeq needsNewline hscan =>
      hready.prints bytes nextSeq needsNewline hbytes hscan note hnote
  exact ⟨_, seq, _, _, _, _, hlast, getLast?_concat⟩

theorem Ready.recoverChat {other : String} (hready : Ready codec disk.journal other)
    (hstem : sanitizeId chatId = chatId) (hother : other ≠ chatId) (env : BootEnv) :
    Ready codec (disk.applyAll codec (recoverChat codec env disk chatId).1).journal other := by
  obtain ⟨-, ⟨hsame, -⟩ | ⟨note, -, happend⟩⟩ := recoverChat_spec codec env disk chatId
  · rw [hsame]
    exact hready
  · obtain ⟨hfiles, hopen⟩ := append_frame codec disk.journal chatId (recoveryDone note)
    rw [happend]
    exact hready.frame (hfiles other (by rwa [hstem])) (hopen other hother hready.unopened)

theorem recoverChats_file {ids : List String} (hstems : ∀ id ∈ ids, sanitizeId id = id)
    {stem : String} (hstem : stem ∉ ids) (env : BootEnv) (disk : RecoveryDisk) :
    (disk.applyAll codec (recoverChats codec env disk ids).1).journal.files[stem]? =
      disk.journal.files[stem]? := by
  induction ids generalizing disk with
  | nil => rfl
  | cons id rest ih =>
    rw [forall_mem_cons] at hstems
    rw [mem_cons, not_or] at hstem
    have hone :
        (disk.applyAll codec (Keel.recoverChat codec env disk id).1).journal.files[stem]? =
          disk.journal.files[stem]? := by
      obtain ⟨-, ⟨hsame, -⟩ | ⟨note, -, happend⟩⟩ := recoverChat_spec codec env disk id
      · rw [hsame]
      · rw [happend]
        exact (append_frame codec disk.journal id (recoveryDone note)).1 stem
          (by rw [hstems.1]; exact hstem.1)
    rw [recoverChats]
    split
    next writes error hwrites => rwa [hwrites] at hone
    next writes recovered hwrites =>
      rw [hwrites] at hone
      show ((disk.applyAll codec (writes ++ _)).journal.files[stem]?) = _
      rw [RecoveryDisk.applyAll_append, ih hstems.2 hstem.2, hone]

theorem RunJournal.Closed.congr {journal next : RunJournal} (hclosed : journal.Closed codec chatId)
    (hfile : next.fileFor chatId = journal.fileFor chatId) : next.Closed codec chatId := by
  rw [RunJournal.Closed, hfile]
  exact hclosed

/-- A chat whose document can be recovered is closed exactly when the loop gets to it. -/
theorem recoverChats_closed_iff {ids : List String}
    (hready : ∀ id ∈ ids, Ready codec disk.journal id) (hnodup : ids.Nodup) (hmem : chatId ∈ ids)
    (hrecovers : chatId ∉ env.live ∧ Opens env chatId) :
    (disk.applyAll codec (recoverChats codec env disk ids).1).journal.Closed codec chatId ↔
      Reached env chatId ids := by
  induction ids generalizing disk with
  | nil => cases hmem
  | cons id rest ih =>
    rw [forall_mem_cons] at hready
    obtain ⟨hhead, hrest⟩ := hready
    obtain ⟨hnew, hnodup⟩ := nodup_cons.mp hnodup
    have hstems : ∀ other ∈ rest, sanitizeId other = other := fun other hother =>
      (hrest other hother).stem
    obtain ⟨hfails, hjournal⟩ := recoverChat_spec codec env disk id
    have hlater : ∀ other ∈ rest, Ready codec
        (disk.applyAll codec (recoverChat codec env disk id).1).journal other :=
      fun other hother => (hrest other hother).recoverChat hhead.stem
        (fun hsame => hnew (hsame ▸ hother)) env
    rw [recoverChats]
    split
    next writes error hwrites =>
      -- The loop returns here; the chats behind it are as stale as before.
      rw [hwrites] at hfails hlater
      have hfailed := hfails.mp ⟨error, rfl⟩
      have hne : id ≠ chatId := by
        rintro rfl
        exact hfailed.2 hrecovers.2
      have hin : chatId ∈ rest := (mem_cons.mp hmem).resolve_left fun hsame => hne hsame.symm
      refine iff_of_false ((hlater chatId hin).stale.not_closed (hstems chatId hin)) ?_
      rintro (hsame | ⟨hpasses, -⟩)
      · exact hne hsame
      · exact hpasses hfailed
    next writes recovered hwrites =>
      rw [hwrites] at hfails hlater hjournal
      have hpasses : ¬ Fails env id := fun hfailed => by
        obtain ⟨error, herror⟩ := hfails.mpr hfailed
        cases herror
      show (disk.applyAll codec (writes ++ _)).journal.Closed codec chatId ↔ _
      rw [RecoveryDisk.applyAll_append]
      by_cases hsame : id = chatId
      · subst hsame
        refine iff_of_true ?_ (.inl rfl)
        obtain ⟨-, hunrecovered⟩ | ⟨note, hnote, happend⟩ := hjournal
        · exact absurd hrecovers hunrecovered
        · have hclosed := hhead.append_closed hnote
          rw [← happend] at hclosed
          refine hclosed.congr ?_
          rw [RunJournal.fileFor, RunJournal.fileFor, hhead.stem]
          exact recoverChats_file hstems hnew env _
      · have hin : chatId ∈ rest := (mem_cons.mp hmem).resolve_left fun h => hsame h.symm
        rw [ih hlater hnodup hin]
        simp [Reached, hsame, hpasses]

/-- In the order of the ids, the loop gets to a chat exactly when no smaller one fails. -/
theorem reached_iff {ids : List String}
    (hsorted : ids.Pairwise fun first second => first ≤ second) (hnodup : ids.Nodup)
    (hmem : chatId ∈ ids) :
    Reached env chatId ids ↔ ∀ earlier ∈ ids, earlier < chatId → ¬ Fails env earlier := by
  induction ids with
  | nil => cases hmem
  | cons id rest ih =>
    obtain ⟨hleast, hsorted⟩ := pairwise_cons.mp hsorted
    obtain ⟨hnew, hnodup⟩ := nodup_cons.mp hnodup
    rw [forall_mem_cons]
    by_cases hsame : id = chatId
    · subst hsame
      refine iff_of_true (.inl rfl) ⟨fun hlt => absurd hlt (lt_irrefl id), ?_⟩
      exact fun earlier hearlier hlt => absurd hlt (hleast earlier hearlier).not_gt
    · have hin : chatId ∈ rest := (mem_cons.mp hmem).resolve_left fun h => hsame h.symm
      have hlt : id < chatId := lt_of_le_of_ne (hleast chatId hin) hsame
      rw [Reached, ih hsorted hnodup hin]
      simp [hsame, hlt]

end Loop

section Boot

variable {codec : JournalCodec} {env : BootEnv} {disk : RecoveryDisk}

/-- The lines that close the stale journals read back. -/
def PrintsDone (codec : JournalCodec) (journal : RunJournal) : Prop :=
  ∀ chatId bytes nextSeq needsNewline, journal.Stale codec chatId →
    journal.files[chatId]? = some bytes →
    scanTail codec (some bytes) = .ok (nextSeq, needsNewline) →
    ∀ note, note = resumingNote ∨ note = interruptedNote →
      codec.Prints (nextSeq, recoveryDone note)

/-- Every stale journal whose own document opens and can be stamped is closed. -/
def Complete (codec : JournalCodec) (env : BootEnv) (disk : RecoveryDisk) : Prop :=
  ∀ chatId, disk.journal.Stale codec chatId → chatId ∉ env.live → Opens env chatId →
    (disk.applyAll codec (recoverStale codec env disk).1).journal.Closed codec chatId

/-- A stale journal that can be closed has no unreadable journal beside it, and no chat before it
whose document fails. -/
def Unstarved (codec : JournalCodec) (env : BootEnv) (disk : RecoveryDisk) : Prop :=
  ∀ chatId, disk.journal.Stale codec chatId → chatId ∉ env.live → Opens env chatId →
    (∀ (stem : String) (bytes : List UInt8), disk.journal.files[stem]? = some bytes →
      (decode bytes).isSome = true) ∧
    ∀ earlier, disk.journal.Stale codec earlier → earlier < chatId → ¬ Fails env earlier

theorem complete_iff_unstarved (hopen : disk.journal.openFiles = ∅)
    (hstems : ∀ stem ∈ disk.journal.files, sanitizeId stem = stem)
    (hprints : PrintsDone codec disk.journal) :
    Complete codec env disk ↔ Unstarved codec env disk := by
  have hstem : ∀ chatId, disk.journal.Stale codec chatId → sanitizeId chatId = chatId := by
    rintro chatId ⟨bytes, lines, hbytes, -⟩
    exact hstems chatId (Std.ExtTreeMap.mem_iff_isSome_getElem?.mpr (by simp [hbytes]))
  refine forall₄_congr fun chatId hstale hlive hopens => ?_
  rw [← @staleSessions_isOk_iff codec, recoverStale]
  cases hscan : disk.journal.staleSessions codec with
  | error error =>
    refine iff_of_false (hstale.not_closed (hstem chatId hstale)) ?_
    rintro ⟨⟨stems, hok⟩, -⟩
    cases hok
  | ok stale =>
    obtain ⟨hmem, hsorted, hnodup⟩ := staleSessions_ok hscan
    have hready : ∀ id ∈ stale, Ready codec disk.journal id := by
      intro id hid
      have hidStale := (hmem id).mp hid
      refine ⟨hstem id hidStale, ?_, hidStale, fun bytes nextSeq needsNewline hbytes =>
        hprints id bytes nextSeq needsNewline hidStale hbytes⟩
      rw [hopen, Std.ExtTreeMap.getElem?_empty]
    have hin := (hmem chatId).mpr hstale
    rw [recoverChats_closed_iff hready hnodup hin ⟨hlive, hopens⟩,
      reached_iff hsorted hnodup hin, and_iff_right ⟨stale, rfl⟩]
    exact forall_congr' fun earlier => by rw [hmem]

/-- The recovery at a boot closes every stale journal it could close if and only if no failure keeps
it from one; and without a completed turn no chat is resumed more than three times, over any number
of boots and crashes. -/
theorem recovery_complete_iff_and_bounded (codec : JournalCodec) (disk : RecoveryDisk)
    (hstems : ∀ stem ∈ disk.journal.files, sanitizeId stem = stem)
    (hprints : PrintsDone codec disk.journal) :
    (∀ env, Complete codec env (BootRun.reopened disk) ↔
      Unstarved codec env (BootRun.reopened disk)) ∧
    ∀ (chat : String) (trace : List BootAction) (final : BootRun),
      (∀ action ∈ trace, ¬ BootRun.Completes chat action) →
      Trace.run (BootRun.step codec) { disk, resumed := [] } trace = some final →
      final.resumed.count chat ≤ maxAutoResume :=
  ⟨fun _ => complete_iff_unstarved rfl hstems hprints,
    fun chat trace _ hcompletes hrun => BootRun.resumed_le codec disk chat trace hcompletes hrun⟩

end Boot

section Examples

/-- The line of a crashed run, and the two that may close it. -/
def crashTable : List (JournalLine × List Char) :=
  [((1, .textDelta "hi"),
    "\x7b\"seq\":1,\"event\":\x7b\"type\":\"textDelta\",\"text\":\"hi\"\x7d\x7d".toList),
   ((2, recoveryDone resumingNote),
    ("\x7b\"seq\":2,\"event\":\x7b\"type\":\"done\",\"status\":\"interrupted\"," ++
      "\"result\":null,\"error\":\"Run interrupted by engine restart — resuming\"," ++
      "\"sessionId\":null\x7d\x7d").toList),
   ((2, recoveryDone interruptedNote),
    ("\x7b\"seq\":2,\"event\":\x7b\"type\":\"done\",\"status\":\"interrupted\"," ++
      "\"result\":null,\"error\":\"Run interrupted by engine restart\"," ++
      "\"sessionId\":null\x7d\x7d").toList)]

theorem crashTable_objects : Records.Objects crashTable := by
  simp only [crashTable, String.toList_append]
  repeat rw [String.toList_ofList]
  decide +kernel

def crashCodec : JournalCodec := Records.Codec.ofTable crashTable

def crashBytes : List UInt8 :=
  encode (Records.text ((numbered [.textDelta "hi"]).map crashCodec.print))

def crashFiles : Std.ExtTreeMap String (List UInt8) compare :=
  (Std.ExtTreeMap.empty.insert "chat-a" crashBytes).insert "chat-b" crashBytes

def crashDisk : RecoveryDisk := { journal := { files := crashFiles }, attempts := ∅ }

def crashDoc : RecoveryDoc where
  entries := .ok
    [{ id := "m-1", role := .user, parts := [.text "p-1" "fix the build"], createdAt := 0
       deviceId := "laptop", status := none, continuationOf := none },
     { id := "m-2", role := .assistant, parts := [.text "p-2" "hi"], createdAt := 10
       deviceId := "laptop", status := some .streaming, continuationOf := none }]
  setMessageStatus _ := .ok true

/-- One of the documents cannot be opened. -/
def crashEnv (failing : String) : BootEnv where
  deviceId := "laptop"
  now := 1000
  live := []
  docHandle chatId :=
    if chatId = failing then .error (.other "unreadable snapshot") else .ok crashDoc

theorem crashLines_print : ∀ line ∈ numbered [.textDelta "hi"], crashCodec.Prints line := by
  intro line hline
  obtain rfl : line = (1, .textDelta "hi") := by simpa [numbered] using hline
  exact Records.Codec.ofTable_prints crashTable_objects mem_cons_self

theorem crashDisk_file {chatId : String} {bytes : List UInt8}
    (hbytes : crashDisk.journal.files[chatId]? = some bytes) :
    (chatId = "chat-a" ∨ chatId = "chat-b") ∧ bytes = crashBytes := by
  simp only [crashDisk, crashFiles, Std.ExtTreeMap.getElem?_insert] at hbytes
  split at hbytes
  next hsame =>
    exact ⟨.inr (Std.LawfulEqCmp.eq_of_compare hsame).symm, (Option.some.inj hbytes).symm⟩
  · split at hbytes
    next hsame =>
      exact ⟨.inl (Std.LawfulEqCmp.eq_of_compare hsame).symm, (Option.some.inj hbytes).symm⟩
    · simp at hbytes

theorem crashDisk_stale (chatId : String) (hchat : chatId = "chat-a" ∨ chatId = "chat-b") :
    crashDisk.journal.Stale crashCodec chatId := by
  refine ⟨crashBytes, numbered [.textDelta "hi"], ?_, readLines_complete crashLines_print, rfl⟩
  simp only [crashDisk, crashFiles, Std.ExtTreeMap.getElem?_insert]
  rcases hchat with rfl | rfl
  · rw [if_neg (by decide), if_pos (by decide)]
  · rw [if_pos (by decide)]

theorem crashDisk_stems : ∀ stem ∈ crashDisk.journal.files, sanitizeId stem = stem := by
  intro stem hstem
  obtain ⟨bytes, hbytes⟩ := Option.isSome_iff_exists.mp
    (Std.ExtTreeMap.mem_iff_isSome_getElem?.mp hstem)
  obtain ⟨rfl | rfl, -⟩ := crashDisk_file hbytes <;> decide

theorem crashDisk_prints : PrintsDone crashCodec crashDisk.journal := by
  intro chatId bytes nextSeq needsNewline _ hbytes hscan note hnote
  obtain ⟨-, rfl⟩ := crashDisk_file hbytes
  rw [scanTail_complete crashLines_print rfl] at hscan
  cases hscan
  rcases hnote with rfl | rfl
  · exact Records.Codec.ofTable_prints crashTable_objects
      (mem_cons_of_mem _ mem_cons_self)
  · exact Records.Codec.ofTable_prints crashTable_objects
      (mem_cons_of_mem _ (mem_cons_of_mem _ mem_cons_self))

theorem crashEnv_opens {failing chatId : String} (hchat : chatId ≠ failing) :
    Opens (crashEnv failing) chatId :=
  ⟨crashDoc, [("m-2", 10)], if_neg hchat, rfl⟩

/-- Two boots, the second one cut off, with a crashed run between them. -/
def crashTrace : List BootAction :=
  [.boot (crashEnv "chat-b") none, .event "chat-a" (.textDelta "hi"),
    .boot (crashEnv "chat-b") (some 3)]

/-- The document that fails belongs to the last chat. -/
theorem recovery_complete_last :
    Complete crashCodec (crashEnv "chat-b") (BootRun.reopened crashDisk) ∧
      ∃ final, Trace.run (BootRun.step crashCodec) { disk := crashDisk, resumed := [] } crashTrace =
        some final ∧ final.resumed.count "chat-a" ≤ maxAutoResume := by
  obtain ⟨hcomplete, hbounded⟩ :=
    recovery_complete_iff_and_bounded crashCodec crashDisk crashDisk_stems crashDisk_prints
  obtain ⟨final, hfinal⟩ : ∃ final, Trace.run (BootRun.step crashCodec)
      { disk := crashDisk, resumed := [] } crashTrace = some final := ⟨_, rfl⟩
  have hcompletes : ∀ action ∈ crashTrace, ¬ BootRun.Completes "chat-a" action := by
    simp [crashTrace, BootRun.Completes]
  refine ⟨(hcomplete (crashEnv "chat-b")).mpr ?_, final, hfinal,
    hbounded "chat-a" crashTrace final hcompletes hfinal⟩
  rintro chatId hstale - hopens
  refine ⟨fun stem bytes hbytes => ?_, fun earlier hearlier hlt hfails => ?_⟩
  · rw [(crashDisk_file hbytes).2, crashBytes, Utf8.decode_encode]
    rfl
  · obtain ⟨bytes, -, hbytes, -⟩ := hearlier
    refine hfails.2 (crashEnv_opens ?_)
    rintro rfl
    -- The failing chat is the last one.
    obtain ⟨found, -, hfound, -⟩ := hstale
    obtain ⟨rfl | rfl, -⟩ := crashDisk_file hfound
    · exact absurd hlt (by decide)
    · exact absurd hlt (by decide)

/-- The document of the first chat cannot be opened, and the second one stays stale. -/
theorem recovery_starved : ¬ ∀ (codec : JournalCodec) (env : BootEnv) (disk : RecoveryDisk),
    (∀ stem ∈ disk.journal.files, sanitizeId stem = stem) → PrintsDone codec disk.journal →
    (∀ (stem : String) (bytes : List UInt8), disk.journal.files[stem]? = some bytes →
      (Utf8.decode bytes).isSome = true) →
    Complete codec env (BootRun.reopened disk) := by
  intro hclaim
  have hcomplete := hclaim crashCodec (crashEnv "chat-a") crashDisk crashDisk_stems crashDisk_prints
    fun stem bytes hbytes => by
      rw [(crashDisk_file hbytes).2, crashBytes, Utf8.decode_encode]
      rfl
  have hunstarved := (complete_iff_unstarved rfl crashDisk_stems crashDisk_prints).mp hcomplete
  have hpasses := (hunstarved "chat-b" (crashDisk_stale "chat-b" (.inr rfl)) not_mem_nil
    (crashEnv_opens (by decide))).2 "chat-a" (crashDisk_stale "chat-a" (.inl rfl)) (by decide)
  refine hpasses ⟨not_mem_nil, ?_⟩
  rintro ⟨doc, stamped, hdoc, -⟩
  cases hdoc

end Examples

end Keel
