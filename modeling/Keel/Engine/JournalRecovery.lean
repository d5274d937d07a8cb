import Keel.Engine.RunJournal

/-! # Recovering a torn journal

The last append to a chat's journal is cut at a byte. The journal that is opened
next reads the complete lines, numbers its appends behind them and scans the
directory, exactly when the cut does not fall inside a character.
-/

namespace Keel

open List Option Utf8 Std.ExtTreeMap

def numbered (events : List AgentEvent) : List JournalLine :=
  events.mapIdx fun index event => (index + 1, event)

inductive JournalAction where
  | append (chatId : String) (event : AgentEvent)
  /-- The process ends and another opens the directory. -/
  | reopen

namespace RunJournal

def perform (codec : JournalCodec) (journal : RunJournal) : JournalAction → RunJournal
  | .append chatId event => (journal.append codec chatId event).1
  | .reopen => { journal with openFiles := ∅ }

def performAll (codec : JournalCodec) (journal : RunJournal) (actions : List JournalAction) :
    RunJournal :=
  actions.foldl (perform codec) journal

end RunJournal

/-- The events the actions append to a chat. -/
def appendedTo (chatId : String) (actions : List JournalAction) : List AgentEvent :=
  actions.filterMap fun action =>
    match action with
    | .append id event => if id = chatId then some event else none
    | .reopen => none

section Lines

variable {codec : JournalCodec} {lines : List JournalLine}

theorem numbered_concat (events : List AgentEvent) (event : AgentEvent) :
    numbered (events ++ [event]) = numbered events ++ [(events.length + 1, event)] := by
  simp [numbered, mapIdx_append]

theorem numbered_seq_le {events : List AgentEvent} {line : JournalLine}
    (hline : line ∈ numbered events) : 1 ≤ line.1 ∧ line.1 ≤ events.length := by
  obtain ⟨index, hindex, rfl⟩ := mem_mapIdx.mp hline
  exact ⟨Nat.succ_pos _, hindex⟩

theorem mem_numbered_append {first : List AgentEvent} {line : JournalLine}
    (hline : line ∈ numbered first) (second : List AgentEvent) :
    line ∈ numbered (first ++ second) := by
  rw [numbered, mapIdx_append]
  exact mem_append_left _ hline

theorem readLines_records (hlines : ∀ line ∈ lines, codec.Prints line) {tail : List Char}
    (htail : '\n' ∉ tail) :
    readLines codec (some (encode (Records.text (lines.map codec.print) ++ tail))) =
      .ok (lines ++ if (Text.trim tail).isEmpty then [] else (codec.parse tail).toList) := by
  have hrecords : ∀ record ∈ lines.map codec.print, '\n' ∉ record ∧ record.getLast? ≠ some '\r' := by
    intro record hrecord
    obtain ⟨line, hline, rfl⟩ := mem_map.mp hrecord
    exact (hlines line hline).record
  have hparsed : (lines.map codec.print).filterMap (fun line =>
      if (Text.trim line).isEmpty then none else codec.parse line) = lines := by
    rw [filterMap_map]
    refine (filterMap_congr fun line hline => ?_).trans filterMap_some
    simp only [Function.comp_apply, (hlines line hline).not_blank, Bool.false_eq_true, if_false,
      (hlines line hline).reads]
  rw [readLines, mapM_decode_byteLines, decode_encode, map_some,
    Records.lines_text_append hrecords htail]
  simp only [filterMap_append, hparsed]
  congr 2
  cases tail with
  | nil => rfl
  | cons head rest =>
    rw [if_neg (cons_ne_nil _ _), filterMap_cons, filterMap_nil]
    cases hblank : (Text.trim (head :: rest)).isEmpty with
    | true => simp
    | false => cases hparse : codec.parse (head :: rest) <;> simp

theorem readLines_complete (hlines : ∀ line ∈ lines, codec.Prints line) :
    readLines codec (some (encode (Records.text (lines.map codec.print)))) = .ok lines := by
  have hread := readLines_records hlines not_mem_nil
  rw [append_nil] at hread
  rw [hread, if_pos (by rfl), append_nil]

theorem readLines_isOk_iff (codec : JournalCodec) {bytes : List UInt8} :
    (∃ lines, readLines codec (some bytes) = .ok lines) ↔ (decode bytes).isSome = true := by
  rw [readLines, mapM_decode_byteLines]
  cases decode bytes with
  | none | some text => simp

theorem getLast?_text_records (codec : JournalCodec) (hlines : lines ≠ []) :
    (encode (Records.text (lines.map codec.print))).getLast? = some 10 := by
  obtain ⟨init, last, rfl⟩ := (eq_nil_or_concat lines).resolve_left hlines
  have hbytes : encode ['\n'] = [10] := by decide
  rw [concat_eq_append, map_append, Records.text_append, map_singleton,
    Records.text_cons, Records.text_nil, encode_append, encode_append, hbytes,
    ← append_assoc, getLast?_concat]

theorem readLines_file {file : Option (List UInt8)} {events : List AgentEvent}
    (hlines : ∀ line ∈ numbered events, codec.Prints line)
    (hfile : file.getD [] = encode (Records.text ((numbered events).map codec.print))) :
    readLines codec file = .ok (numbered events) := by
  cases file with
  | none =>
    have hnone : numbered events = [] := by
      by_contra hne
      have hlast := getLast?_text_records codec hne
      rw [← hfile] at hlast
      cases hlast
    rw [hnone]
    rfl
  | some bytes =>
    obtain rfl : bytes = _ := hfile
    exact readLines_complete hlines

theorem scanTail_complete {file : Option (List UInt8)} {events : List AgentEvent}
    (hlines : ∀ line ∈ numbered events, codec.Prints line)
    (hfile : file.getD [] = encode (Records.text ((numbered events).map codec.print))) :
    scanTail codec file = .ok (events.length + 1, false) := by
  rcases eq_nil_or_concat events with rfl | ⟨init, last, rfl⟩
  · cases file with
    | none => rfl
    | some bytes =>
      obtain rfl : bytes = [] := hfile
      rfl
  · have hconcat : numbered (init ++ [last]) = numbered init ++ [(init.length + 1, last)] :=
      numbered_concat init last
    rw [concat_eq_append] at hfile hlines ⊢
    have hne : numbered (init ++ [last]) ≠ [] := by simp [hconcat]
    have hlast := getLast?_text_records codec hne
    cases file with
    | none =>
      rw [← hfile] at hlast
      cases hlast
    | some bytes =>
      obtain rfl : bytes = _ := hfile
      rw [scanTail, readLines_complete hlines, hlast, hconcat]
      simp

end Lines

section Run

/-- The journal of a chat holds its events; every file of the directory can be
read. -/
structure JournalInv (codec : JournalCodec) (chatId : String) (events : List AgentEvent)
    (journal : RunJournal) : Prop where
  file : (journal.fileFor chatId).getD [] =
    encode (Records.text ((numbered events).map codec.print))
  entry : ∀ entry : ChatJournal, journal.openFiles[chatId]? = some entry →
    entry = { nextSeq := events.length + 1, needsNewline := false }
  readable : ∀ (stem : String) (bytes : List UInt8), journal.files[stem]? = some bytes →
    (decode bytes).isSome = true

variable {codec : JournalCodec} {chatId : String} {events : List AgentEvent} {journal : RunJournal}

theorem decode_append_isSome {bytes : List UInt8} (hbytes : (decode bytes).isSome = true)
    (text : List Char) : (decode (bytes ++ encode text)).isSome = true := by
  obtain ⟨old, hold⟩ := isSome_iff_exists.mp hbytes
  rw [decode_eq_some_iff.1 hold, ← encode_append, decode_encode]
  rfl

theorem JournalInv.closeAll (hinv : JournalInv codec chatId events journal) :
    JournalInv codec chatId events { journal with openFiles := ∅ } :=
  ⟨hinv.file, by simp, hinv.readable⟩

theorem JournalInv.atCap (hinv : JournalInv codec chatId events journal) :
    JournalInv codec chatId events
      (if journal.openFiles.size ≥ openFileCap then { journal with openFiles := ∅ } else journal) := by
  split
  · exact hinv.closeAll
  · exact hinv

theorem readable_insert {files : Std.ExtTreeMap String (List UInt8) compare} {stem : String}
    {bytes : List UInt8} (hbytes : (decode bytes).isSome = true)
    (hfiles : ∀ (stem : String) (bytes : List UInt8), files[stem]? = some bytes →
      (decode bytes).isSome = true) :
    ∀ (other : String) (found : List UInt8), (files.insert stem bytes)[other]? = some found →
      (decode found).isSome = true := by
  intro other found hfound
  rw [Std.ExtTreeMap.getElem?_insert] at hfound
  split at hfound
  · rwa [← Option.some.inj hfound]
  · exact hfiles other found hfound

theorem JournalInv.getD_readable (hinv : JournalInv codec chatId events journal) (stem : String) :
    (decode (journal.files[stem]?.getD [])).isSome = true := by
  cases hfile : journal.files[stem]? with
  | none => exact isSome_iff_exists.mpr ⟨[], decode_encode []⟩
  | some bytes => exact hinv.readable stem bytes hfile

/-- Opening the chat's journal finds the next number and a finished last line. -/
theorem JournalInv.openFor_self (hinv : JournalInv codec chatId events journal)
    (hlines : ∀ line ∈ numbered events, codec.Prints line) :
    (journal.openFor codec chatId).2 = .ok { nextSeq := events.length + 1, needsNewline := false } ∧
      JournalInv codec chatId events (journal.openFor codec chatId).1 := by
  rw [RunJournal.openFor]
  split
  next entry hentry => exact ⟨by rw [hinv.entry entry hentry], hinv⟩
  · have hclosed := hinv.atCap
    generalize (if journal.openFiles.size ≥ openFileCap then { journal with openFiles := ∅ }
      else journal) = opened at hclosed
    simp only [scanTail_complete hlines hclosed.file]
    refine ⟨trivial, ?_, ?_, ?_⟩
    · rw [RunJournal.fileFor, getElem?_insert_self, getD_some]
      exact hclosed.file
    · intro entry hentry
      rw [getElem?_insert_self] at hentry
      exact (Option.some.inj hentry).symm
    · exact readable_insert (hclosed.getD_readable _) hclosed.readable

theorem buffer_eq_encode (codec : JournalCodec) (entry : ChatJournal) (event : AgentEvent) :
    entry.buffer codec event = encode
      ((if entry.needsNewline then ['\n'] else []) ++
        (codec.print (entry.nextSeq, event) ++ ['\n'])) := by
  have hbytes : encode ['\n'] = [10] := by decide
  rw [ChatJournal.buffer, encode_append, encode_append, hbytes, append_assoc]
  cases entry.needsNewline with
  | true => rw [if_pos rfl, if_pos rfl, hbytes]
  | false => rfl

theorem JournalInv.append_self (hinv : JournalInv codec chatId events journal) {event : AgentEvent}
    (hlines : ∀ line ∈ numbered events, codec.Prints line) :
    JournalInv codec chatId (events ++ [event]) (journal.append codec chatId event).1 := by
  obtain ⟨hentry, hopened⟩ := hinv.openFor_self hlines
  rw [RunJournal.append]
  generalize journal.openFor codec chatId = result at hentry hopened
  obtain ⟨opened, entry⟩ := result
  obtain rfl : entry = _ := hentry
  have hfile := hopened.file
  have hbuffer := buffer_eq_encode codec
    { nextSeq := events.length + 1, needsNewline := false } event
  refine ⟨?_, ?_, ?_⟩
  · simp only [RunJournal.writeAll, RunJournal.fileFor, getElem?_insert_self,
      getD_some] at hfile ⊢
    rw [hfile, hbuffer, numbered_concat, map_append, Records.text_append, encode_append]
    simp [Records.text_cons]
  · intro entry hfound
    simp only [RunJournal.writeAll, getElem?_insert_self, Option.some.injEq] at hfound
    rw [← hfound, length_append, length_singleton]
  · refine readable_insert ?_ hopened.readable
    rw [hbuffer]
    exact decode_append_isSome (hopened.getD_readable _) _

theorem JournalInv.append_other (hinv : JournalInv codec chatId events journal) {id : String}
    (hid : sanitizeId id ≠ sanitizeId chatId) (event : AgentEvent) :
    JournalInv codec chatId events (journal.append codec id event).1 := by
  have hne : id ≠ chatId := fun h => hid (congrArg sanitizeId h)
  have hopened : JournalInv codec chatId events (journal.openFor codec id).1 := by
    rw [RunJournal.openFor]
    split
    · exact hinv
    · have hclosed := hinv.atCap
      generalize (if journal.openFiles.size ≥ openFileCap then { journal with openFiles := ∅ }
        else journal) = opened at hclosed
      dsimp only
      split
      · exact hclosed
      · refine ⟨?_, ?_, readable_insert (hclosed.getD_readable _) hclosed.readable⟩
        · rw [RunJournal.fileFor, Std.ExtTreeMap.getElem?_insert, if_neg (by simpa using hid)]
          exact hclosed.file
        · intro entry hentry
          rw [Std.ExtTreeMap.getElem?_insert, if_neg (by simpa using hne)] at hentry
          exact hclosed.entry entry hentry
  rw [RunJournal.append]
  split
  next opened error heq => simpa only [heq] using hopened
  next opened entry heq =>
    rw [heq] at hopened
    refine ⟨?_, ?_, ?_⟩
    · simp only [RunJournal.writeAll, RunJournal.fileFor]
      rw [Std.ExtTreeMap.getElem?_insert, if_neg (by simpa using hid)]
      exact hopened.file
    · intro found hfound
      simp only [RunJournal.writeAll] at hfound
      rw [Std.ExtTreeMap.getElem?_insert, if_neg (by simpa using hne)] at hfound
      exact hopened.entry found hfound
    · refine readable_insert ?_ hopened.readable
      rw [buffer_eq_encode]
      exact decode_append_isSome (hopened.getD_readable _) _

theorem getLast?_numbered (events : List AgentEvent) :
    ((numbered events).getLast?.map Prod.fst).getD 0 = events.length := by
  rcases eq_nil_or_concat events with rfl | ⟨init, last, rfl⟩
  · rfl
  · rw [concat_eq_append, numbered_concat]
    simp

/-- A journal replays the events behind the cursor; a cursor ahead of the last number is from
another file. -/
theorem replay_numbered (hread : readLines codec (journal.fileFor chatId) = .ok (numbered events))
    (afterSeq : Nat) :
    journal.replay codec chatId afterSeq = .ok ((numbered events).filter fun line =>
      line.1 > if afterSeq > events.length then 0 else afterSeq) := by
  rw [RunJournal.replay, hread]
  simp only [getLast?_numbered]

section
variable (hinv : JournalInv codec chatId events journal)
    (hlines : ∀ line ∈ numbered events, codec.Prints line)
include hinv hlines

theorem JournalInv.replay (afterSeq : Nat) :
    journal.replay codec chatId afterSeq = .ok ((numbered events).filter fun line =>
      line.1 > if afterSeq > events.length then 0 else afterSeq) :=
  replay_numbered (readLines_file hlines hinv.file) afterSeq

theorem JournalInv.append_seq (event : AgentEvent) :
    (journal.append codec chatId event).2 = .ok (events.length + 1) := by
  obtain ⟨hentry, -⟩ := hinv.openFor_self hlines
  rw [RunJournal.append]
  generalize journal.openFor codec chatId = result at hentry
  obtain ⟨opened, entry⟩ := result
  obtain rfl : entry = _ := hentry
  rfl

end

theorem JournalInv.performAll {start : RunJournal} (hstart : JournalInv codec chatId events start)
    {actions : List JournalAction}
    (hother : ∀ id event, JournalAction.append id event ∈ actions →
      sanitizeId id = sanitizeId chatId → id = chatId)
    (hlines : ∀ line ∈ numbered (events ++ appendedTo chatId actions), codec.Prints line) :
    JournalInv codec chatId (events ++ appendedTo chatId actions)
      (start.performAll codec actions) := by
  induction actions generalizing events start with
  | nil => simpa [RunJournal.performAll, appendedTo] using hstart
  | cons action rest ih =>
    have hrest : ∀ id event, JournalAction.append id event ∈ rest →
        sanitizeId id = sanitizeId chatId → id = chatId :=
      fun id event hmem => hother id event (mem_cons_of_mem _ hmem)
    cases action with
    | reopen => exact ih hstart.closeAll hrest hlines
    | append id event =>
      by_cases hid : id = chatId
      · have hsplit : events ++ appendedTo chatId (.append id event :: rest) =
            (events ++ [event]) ++ appendedTo chatId rest := by
          simp [appendedTo, hid]
        rw [hsplit] at hlines ⊢
        subst hid
        refine ih (hstart.append_self fun line hline => hlines line ?_) hrest hlines
        rw [append_assoc, numbered, mapIdx_append]
        exact mem_append_left _ hline
      · have hsame : appendedTo chatId (.append id event :: rest) = appendedTo chatId rest := by
          simp [appendedTo, hid]
        rw [hsame] at hlines ⊢
        have hstem : sanitizeId id ≠ sanitizeId chatId :=
          fun h => hid (hother id event mem_cons_self h)
        exact ih (hstart.append_other hstem event) hrest hlines

/-- A fresh directory holds no journal of the chat; the other files are whole. -/
theorem journalInv_start {start : RunJournal} (hfile : start.fileFor chatId = none)
    (hopen : start.openFiles = ∅)
    (hreadable : ∀ (stem : String) (bytes : List UInt8), start.files[stem]? = some bytes →
      (decode bytes).isSome = true) : JournalInv codec chatId [] start := by
  refine ⟨by rw [hfile]; rfl, ?_, hreadable⟩
  intro entry hentry
  rw [hopen, Std.ExtTreeMap.getElem?_empty] at hentry
  cases hentry

end Run

section Crash

/-- A chat's journal right after a crash: whole lines, and what got written of the
last append. -/
structure TornJournal (codec : JournalCodec) (chatId : String) (events : List AgentEvent)
    (written : List UInt8) (journal : RunJournal) : Prop where
  file : journal.fileFor chatId =
    some (encode (Records.text ((numbered events).map codec.print)) ++ written)
  closed : journal.openFiles = ∅
  others : ∀ (stem : String) (bytes : List UInt8), stem ≠ sanitizeId chatId →
    journal.files[stem]? = some bytes → (decode bytes).isSome = true

/-- The lines that are complete after a crash. -/
def wholeLines (codec : JournalCodec) (events : List AgentEvent) (event : AgentEvent) (cut : Nat) :
    List JournalLine :=
  if (encode (codec.print (events.length + 1, event))).length ≤ cut then
    numbered (events ++ [event])
  else numbered events

/-- What a crash must leave: the complete lines replay, the next append gets a new
number, and both scans succeed. -/
structure Recovers (codec : JournalCodec) (journal : RunJournal) (chatId : String)
    (complete : List JournalLine) : Prop where
  replays : journal.replay codec chatId 0 = .ok complete
  appends : ∀ next, ∃ seq, (journal.append codec chatId next).2 = .ok seq ∧
    ∀ line ∈ complete, line.1 < seq
  last : ∃ found, journal.lastEvent codec chatId = .ok found
  stale : ∃ stems, journal.staleSessions codec = .ok stems

variable {codec : JournalCodec} {chatId : String} {events : List AgentEvent} {journal : RunJournal}

theorem JournalInv.tornAppend (hinv : JournalInv codec chatId events journal)
    (hlines : ∀ line ∈ numbered events, codec.Prints line) (event : AgentEvent) (cut : Nat) :
    TornJournal codec chatId events
      ((encode (codec.print (events.length + 1, event) ++ ['\n'])).take cut)
      (journal.tornAppend codec chatId event cut) := by
  obtain ⟨hentry, hopened⟩ := hinv.openFor_self hlines
  rw [RunJournal.tornAppend]
  generalize journal.openFor codec chatId = result at hentry hopened
  obtain ⟨opened, entry⟩ := result
  obtain rfl : entry = _ := hentry
  have hbuffer := buffer_eq_encode codec
    { nextSeq := events.length + 1, needsNewline := false } event
  have hfile := hopened.file
  refine ⟨?_, rfl, ?_⟩
  · simp only [RunJournal.writeAll, RunJournal.fileFor, getElem?_insert_self] at hfile ⊢
    rw [hfile, hbuffer]
    rfl
  · intro stem bytes hstem hbytes
    simp only [RunJournal.writeAll] at hbytes
    rw [Std.ExtTreeMap.getElem?_insert, if_neg (by simpa using hstem.symm)] at hbytes
    exact hopened.readable stem bytes hbytes

theorem readLines_torn {event : AgentEvent}
    (hlines : ∀ line ∈ numbered (events ++ [event]), codec.Prints line) {cut : Nat}
    (hcut : Boundary (codec.print (events.length + 1, event) ++ ['\n']) cut) :
    readLines codec (some (encode (Records.text ((numbered events).map codec.print)) ++
      (encode (codec.print (events.length + 1, event) ++ ['\n'])).take cut)) =
        .ok (wholeLines codec events event cut) := by
  rw [numbered_concat, forall_mem_append, forall_mem_singleton] at hlines
  obtain ⟨hlines, hlast⟩ := hlines
  obtain ⟨kept, hkept, rfl⟩ := hcut
  rw [take_encode_of_boundary, ← encode_append, wholeLines]
  rw [length_append, length_singleton] at hkept
  rcases Nat.lt_or_ge (codec.print (events.length + 1, event)).length kept with hall | hpart
  · -- The newline is written: the file is complete again.
    have htake : (codec.print (events.length + 1, event) ++ ['\n']).take kept =
        codec.print (events.length + 1, event) ++ ['\n'] :=
      take_of_length_le (by simp; omega)
    have htext : Records.text ((numbered events).map codec.print) ++
        (codec.print (events.length + 1, event) ++ ['\n']) =
        Records.text ((numbered (events ++ [event])).map codec.print) := by
      simp [numbered_concat, Records.text_cons]
    rw [htake, if_pos (by simp [encode_append]), htext]
    apply readLines_complete
    rw [numbered_concat, forall_mem_append, forall_mem_singleton]
    exact ⟨hlines, hlast⟩
  · rw [take_append_of_le_length hpart]
    have hnewline : '\n' ∉ (codec.print (events.length + 1, event)).take kept :=
      fun hmem => hlast.oneLine (mem_of_mem_take hmem)
    rw [readLines_records hlines hnewline]
    rcases Nat.lt_or_ge kept (codec.print (events.length + 1, event)).length with hshort | hwhole
    · have hne : (codec.print (events.length + 1, event)).take kept ≠
          codec.print (events.length + 1, event) := fun heq =>
        absurd ((take_eq_self_iff _).mp heq) (Nat.not_le_of_lt hshort)
      rw [if_neg (Nat.not_le_of_lt (length_encode_take_lt hshort)),
        hlast.torn _ (List.take_prefix _ _) hne]
      simp
    · rw [take_of_length_le hwhole, if_pos (Nat.le_refl _), hlast.not_blank, hlast.reads,
        numbered_concat]
      simp

variable {written : List UInt8}

theorem TornJournal.append_eq (htorn : TornJournal codec chatId events written journal)
    (next : AgentEvent) :
    (journal.append codec chatId next).2 =
      (scanTail codec (journal.fileFor chatId)).map Prod.fst := by
  have hcap : ¬ (∅ : Std.ExtTreeMap String ChatJournal compare).size ≥ openFileCap := by
    rw [size_empty]
    decide
  rw [RunJournal.append, RunJournal.openFor]
  simp only [htorn.closed, Std.ExtTreeMap.getElem?_empty, if_neg hcap]
  cases scanTail codec (journal.fileFor chatId) with
  | error error | ok tail => rfl

theorem staleSessions_isOk_iff :
    (∃ stems, journal.staleSessions codec = .ok stems) ↔
      ∀ (stem : String) (bytes : List UInt8), journal.files[stem]? = some bytes →
        (decode bytes).isSome = true := by
  constructor
  · rintro ⟨stems, hstems⟩ stem bytes hbytes
    rw [RunJournal.staleSessions] at hstems
    split at hstems
    · cases hstems
    next scanned hscanned =>
      obtain ⟨result, hresult⟩ := Lists.exists_mapM_eq_some_iff.1 ⟨scanned, hscanned⟩ (stem, bytes)
        (mem_toList_iff_getElem?_eq_some.mpr hbytes)
      rw [← readLines_isOk_iff codec]
      dsimp only at hresult
      split at hresult
      · cases hresult
      next lines hlines => exact ⟨lines, hlines⟩
  · intro hreadable
    rw [RunJournal.staleSessions]
    split
    next hnone =>
      -- A scan without a result has a file that could not be read.
      refine absurd hnone (ne_none_iff_exists'.mpr ?_)
      apply Lists.exists_mapM_eq_some_iff.2
      intro file hfile
      obtain ⟨stem, bytes⟩ := file
      obtain ⟨lines, hlines⟩ := (readLines_isOk_iff codec).mpr
        (hreadable stem bytes (mem_toList_iff_getElem?_eq_some.mp hfile))
      exact ⟨(stem, RunJournal.isStale lines), by simp only [hlines]⟩
    next scanned _ => exact ⟨_, rfl⟩

section
variable (htorn : TornJournal codec chatId events written journal)
include htorn

theorem TornJournal.unreadable (hwritten : (decode written).isSome = false) (next : AgentEvent) :
    journal.replay codec chatId 0 = .error .io ∧
      (journal.append codec chatId next).2 = .error .io ∧
        journal.lastEvent codec chatId = .error .io ∧ journal.staleSessions codec = .error .io := by
  have hbytes : (decode (encode (Records.text ((numbered events).map codec.print)) ++
      written)).isSome = false := by
    rw [← Bool.not_eq_true, decode_encode_append_isSome_iff, hwritten]
    decide
  have hread : readLines codec (journal.fileFor chatId) = .error .io := by
    rw [htorn.file, readLines, mapM_decode_byteLines, isSome_eq_false_iff.mp hbytes |>
      isNone_iff_eq_none.mp]
    rfl
  refine ⟨?_, ?_, ?_, ?_⟩
  · rw [RunJournal.replay, hread]
  · have hscan : scanTail codec (journal.fileFor chatId) = .error .io := by
      rw [htorn.file] at hread ⊢
      rw [scanTail, hread]
    rw [htorn.append_eq, hscan]
    rfl
  · rw [RunJournal.lastEvent, hread]
  · cases hstale : journal.staleSessions codec with
    | error error => cases error; rfl
    | ok stems =>
      have hall := staleSessions_isOk_iff.1 ⟨stems, hstale⟩ (sanitizeId chatId) _ htorn.file
      rw [hbytes] at hall
      cases hall

theorem TornJournal.recovers {complete : List AgentEvent}
    (hread : readLines codec (journal.fileFor chatId) = .ok (numbered complete)) :
    Recovers codec journal chatId (numbered complete) := by
  refine ⟨?_, ?_, ⟨_, by rw [RunJournal.lastEvent, hread]⟩, ?_⟩
  · have hall : (numbered complete).filter (fun line => line.1 > 0) = numbered complete :=
      filter_eq_self.mpr fun line hline => decide_eq_true (numbered_seq_le hline).1
    rw [RunJournal.replay, hread]
    simp only [Nat.not_lt_zero, if_false, gt_iff_lt]
    exact congrArg _ hall
  · intro next
    have hscan : (scanTail codec (journal.fileFor chatId)).map Prod.fst =
        .ok (complete.length + 1) := by
      rw [htorn.file] at hread ⊢
      rw [scanTail, hread]
      rcases eq_nil_or_concat complete with rfl | ⟨init, last, rfl⟩
      · rfl
      · rw [concat_eq_append, numbered_concat]
        simp [Except.map]
    refine ⟨_, (htorn.append_eq next).trans hscan, fun line hline => ?_⟩
    exact Nat.lt_succ_of_le (numbered_seq_le hline).2
  · apply staleSessions_isOk_iff.2
    intro stem bytes hbytes
    by_cases hstem : stem = sanitizeId chatId
    · obtain rfl : bytes = _ := Option.some.inj ((hstem ▸ hbytes).symm.trans htorn.file)
      rw [htorn.file] at hread
      exact (readLines_isOk_iff codec).mp ⟨_, hread⟩
    · exact htorn.others stem bytes hstem hbytes

end

/-- A crash in an append is recovered from exactly when it does not cut a character. -/
theorem tornAppend_recovers_iff (codec : JournalCodec) (chatId : String) (start : RunJournal)
    (actions : List JournalAction) (event : AgentEvent) (cut : Nat)
    (hfile : start.fileFor chatId = none) (hopen : start.openFiles = ∅)
    (hreadable : ∀ (stem : String) (bytes : List UInt8), start.files[stem]? = some bytes →
      (Utf8.decode bytes).isSome = true)
    (hother : ∀ id event, JournalAction.append id event ∈ actions →
      sanitizeId id = sanitizeId chatId → id = chatId)
    (hlines : ∀ line ∈ numbered (appendedTo chatId actions ++ [event]), codec.Prints line)
    (hcut : cut ≤ (Utf8.encode
      (codec.print ((appendedTo chatId actions).length + 1, event) ++ ['\n'])).length) :
    Recovers codec ((start.performAll codec actions).tornAppend codec chatId event cut) chatId
        (wholeLines codec (appendedTo chatId actions) event cut) ↔
      Utf8.Boundary (codec.print ((appendedTo chatId actions).length + 1, event) ++ ['\n']) cut := by
  have hearlier : ∀ line ∈ numbered (appendedTo chatId actions), codec.Prints line := by
    intro line hline
    rw [numbered_concat] at hlines
    exact hlines line (mem_append_left _ hline)
  have hinv : JournalInv codec chatId (appendedTo chatId actions) (start.performAll codec actions) :=
    (journalInv_start hfile hopen hreadable).performAll hother hearlier
  have htorn := hinv.tornAppend hearlier event cut
  constructor
  · intro hrecovers
    by_contra hboundary
    rw [← Utf8.decode_take_isSome_iff hcut, Bool.not_eq_true] at hboundary
    have herror := (htorn.unreadable hboundary event).1
    rw [hrecovers.replays] at herror
    cases herror
  · intro hboundary
    have hread := readLines_torn hlines hboundary
    rw [← htorn.file] at hread
    rw [wholeLines] at hread ⊢
    split
    next hcomplete =>
      rw [if_pos hcomplete] at hread
      exact htorn.recovers hread
    next hshort =>
      rw [if_neg hshort] at hread
      exact htorn.recovers hread

/-- The JSON text of a first event with a letter of two bytes. -/
def accentText : List Char :=
  "\x7b\"seq\":1,\"event\":\x7b\"type\":\"textDelta\",\"text\":\"é\"\x7d\x7d".toList

def accentCodec : JournalCodec where
  print line := if line = (1, .textDelta "é") then accentText else []
  parse text := if text = accentText then some (1, .textDelta "é") else none

theorem accentCodec_print : accentCodec.print (1, .textDelta "é") = accentText := by
  simp [accentCodec]

theorem accentCodec_prints : accentCodec.Prints (1, .textDelta "é") := by
  refine ⟨?_, ⟨accentText.tail.dropLast, ?_⟩, ?_, ?_⟩
  · rw [accentCodec_print]
    decide
  · rw [accentCodec_print]
    decide
  · rw [accentCodec_print]
    simp [accentCodec]
  · intro start _ hne
    rw [accentCodec_print] at hne
    exact if_neg hne

/-- Cut right before the letter, the line is skipped and the rest recovers. -/
theorem tornAppend_recovers_before_accent :
    Recovers accentCodec
      ((({} : RunJournal).performAll accentCodec []).tornAppend accentCodec "chat-1"
        (.textDelta "é") 45) "chat-1" (wholeLines accentCodec [] (.textDelta "é") 45) := by
  refine (tornAppend_recovers_iff accentCodec "chat-1" {} [] (.textDelta "é") 45 ?_ rfl ?_ ?_ ?_
    ?_).mpr ?_
  · rfl
  · intro stem bytes hbytes
    cases hbytes
  · intro id event hmem
    cases hmem
  · intro line hline
    obtain rfl : line = (1, .textDelta "é") := by simpa [numbered, appendedTo] using hline
    exact accentCodec_prints
  · show 45 ≤ (Utf8.encode (accentCodec.print (1, .textDelta "é") ++ ['\n'])).length
    rw [accentCodec_print]
    decide
  · refine ⟨45, ?_, ?_⟩
    · show 45 ≤ (accentCodec.print (1, .textDelta "é") ++ ['\n']).length
      rw [accentCodec_print]
      decide
    · show (Utf8.encode ((accentCodec.print (1, .textDelta "é") ++ ['\n']).take 45)).length = 45
      rw [accentCodec_print]
      decide

/-- Cut inside the letter, nothing can be read and nothing appended. -/
theorem tornAppend_inside_accent :
    let torn := (({} : RunJournal).performAll accentCodec []).tornAppend accentCodec "chat-1"
      (.textDelta "é") 46
    accentCodec.Prints (1, .textDelta "é") ∧
      ¬ Recovers accentCodec torn "chat-1" (wholeLines accentCodec [] (.textDelta "é") 46) ∧
        torn.replay accentCodec "chat-1" 0 = .error .io ∧
          (torn.append accentCodec "chat-1" (.textDelta "next")).2 = .error .io ∧
            torn.lastEvent accentCodec "chat-1" = .error .io ∧
              torn.staleSessions accentCodec = .error .io := by
  have hinv : JournalInv accentCodec "chat-1" [] ({} : RunJournal) :=
    journalInv_start rfl rfl fun stem bytes hbytes => by cases hbytes
  have htorn := hinv.tornAppend (fun line hline => by cases hline) (.textDelta "é") 46
  have hcut : (Utf8.decode ((Utf8.encode
      (accentCodec.print (1, .textDelta "é") ++ ['\n'])).take 46)).isSome = false := by
    rw [accentCodec_print]
    decide
  have hfails := htorn.unreadable hcut (.textDelta "next")
  refine ⟨accentCodec_prints, fun hrecovers => ?_, hfails⟩
  have herror := hrecovers.replays.symm.trans hfails.1
  cases herror

end Crash

end Keel
