import Keel.Engine.JournalRecovery
import Keel.Foundation.Trace

/-! # Journal writes that fail

A write that fails leaves a beginning of its bytes in the file, while the entry of the open
file stays as it was. If the file was open with its last line finished, the next write goes
on where the failed one stopped, and the two lines become one that does not parse. Reading the
file again at the next opening finds the unfinished line and starts a new one behind it.
-/

namespace Keel

open List Utf8 Text Std.ExtTreeMap

/-- An append, with the bytes it got to write if it fails. -/
inductive JournalWrite where
  | append (chatId : String) (event : AgentEvent)
  | failed (chatId : String) (event : AgentEvent) (written : List UInt8)

namespace JournalWrite

def chatId : JournalWrite → String
  | .append chatId _ | .failed chatId _ _ => chatId

def event : JournalWrite → AgentEvent
  | .append _ event | .failed _ event _ => event

end JournalWrite

/-- The append of an event whose write fails after the given bytes. -/
def RunJournal.failedAppend (codec : JournalCodec) (journal : RunJournal) (chatId : String)
    (written : List UInt8) : RunJournal × Except JournalError Nat :=
  match journal.openFor codec chatId with
  | (journal, .error error) => (journal, .error error)
  | (journal, .ok _) => (journal.writeAll chatId written, .error .io)

/-- A process and the appends that succeeded in it. -/
structure JournalProcess where
  journal : RunJournal
  acked : List (String × JournalLine) := []

namespace JournalProcess

/-- The written bytes are a proper beginning of what the append was to write. -/
def cutsShort (codec : JournalCodec) (journal : RunJournal) (chatId : String) (event : AgentEvent)
    (written : List UInt8) : Bool :=
  match (journal.openFor codec chatId).2 with
  | .error _ => false
  | .ok entry => written.isPrefixOf (entry.buffer codec event) && written ≠ entry.buffer codec event

def step (codec : JournalCodec) (process : JournalProcess) : JournalWrite → Option JournalProcess
  | .append chatId event =>
    match process.journal.append codec chatId event with
    | (journal, .ok seq) => some ⟨journal, process.acked ++ [(chatId, seq, event)]⟩
    | (journal, .error _) => some { process with journal }
  | .failed chatId event written =>
    if cutsShort codec process.journal chatId event written then
      some { process with journal := (process.journal.failedAppend codec chatId written).1 }
    else none

def endsMidLine (bytes : List UInt8) : Bool := bytes.getLast?.any fun byte => byte ≠ 10

/-- A chat is not opened while another with the same file name is open. -/
def OpensAlone (journal : RunJournal) (chatId : String) : Prop :=
  journal.openFiles[chatId]? = none → journal.openFiles.size < openFileCap →
    ∀ other ∈ journal.openFiles, sanitizeId other ≠ sanitizeId chatId

/-- A successful write does not go on with an unfinished line: an open file that ends in one
is known to. -/
def StartsLine (journal : RunJournal) (chatId : String) : Prop :=
  ∀ entry, journal.openFiles[chatId]? = some entry → entry.needsNewline = false →
    endsMidLine ((journal.fileFor chatId).getD []) = false

/-- The writes that keep what was acknowledged. -/
def Isolates (process : JournalProcess) : JournalWrite → Prop
  | .append chatId _ => OpensAlone process.journal chatId ∧ StartsLine process.journal chatId
  | .failed chatId _ written =>
    OpensAlone process.journal chatId ∧ (decode written).isSome = true

def ackedIn (process : JournalProcess) (stem : String) : List JournalLine :=
  (process.acked.filter fun entry => sanitizeId entry.1 = stem).map Prod.snd

/-- The acknowledged numbers of a chat, in order. -/
def ackedSeqs (process : JournalProcess) (chatId : String) : List Nat :=
  (process.acked.filter fun entry => entry.1 = chatId).map fun entry => entry.2.1

end JournalProcess

section Lines

variable (codec : JournalCodec)

def parsedLines (text : List Char) : List JournalLine :=
  (lines text).filterMap fun line =>
    if (trim line).isEmpty then none else codec.parse line

theorem readLines_encode (text : List Char) :
    readLines codec (some (encode text)) = .ok (parsedLines codec text) := by
  rw [readLines, mapM_decode_byteLines, decode_encode]
  rfl

/-- The text is empty or ends with a line. -/
def EndsLine (text : List Char) : Prop := text = [] ∨ ∃ init, text = init ++ ['\n']

theorem EndsLine.concat (text : List Char) : EndsLine (text ++ ['\n']) := .inr ⟨text, rfl⟩

variable {codec}

theorem parsedLines_append {whole : List Char} (hwhole : EndsLine whole) (rest : List Char) :
    parsedLines codec (whole ++ rest) = parsedLines codec whole ++ parsedLines codec rest := by
  rcases hwhole with rfl | ⟨init, rfl⟩
  · rfl
  · rw [parsedLines, append_assoc, singleton_append, lines_append_newline,
      filterMap_append]
    rfl

theorem mem_parsedLines_of_oneLine {text : List Char} (htext : '\n' ∉ text) {line : JournalLine}
    (hline : line ∈ parsedLines codec text) : codec.parse text = some line := by
  have hlines := @Records.lines_text_append [] text (fun _ h => (not_mem_nil h).elim) htext
  rw [Records.text_nil, nil_append, nil_append] at hlines
  rw [parsedLines, hlines] at hline
  obtain ⟨found, hfound, hparse⟩ := mem_filterMap.mp hline
  split at hfound
  · cases hfound
  · rw [mem_singleton.mp hfound] at hparse
    split at hparse
    · cases hparse
    · exact hparse

theorem mem_parsedLines_of_terminated {text : List Char} (htext : '\n' ∉ text) {line : JournalLine}
    (hline : line ∈ parsedLines codec (text ++ ['\n'])) :
    codec.parse (stripReturn text) = some line := by
  have hlines := @Records.lines_text [text] (fun _ h => mem_singleton.mp h ▸ htext)
  rw [Records.text_cons, Records.text_nil, map_singleton] at hlines
  rw [parsedLines, hlines] at hline
  obtain ⟨found, hfound, hparse⟩ := mem_filterMap.mp hline
  rw [mem_singleton.mp hfound] at hparse
  split at hparse
  · cases hparse
  · exact hparse

theorem parsedLines_print {line : JournalLine} (hprints : codec.Prints line) :
    parsedLines codec (codec.print line ++ ['\n']) = [line] := by
  have hread := @readLines_complete codec [line] (fun _ h => mem_singleton.mp h ▸ hprints)
  rw [readLines_encode, map_singleton, Records.text_cons, Records.text_nil] at hread
  exact Except.ok.inj hread

theorem exists_endsLine (text : List Char) :
    ∃ whole tail, text = whole ++ tail ∧ EndsLine whole ∧ '\n' ∉ tail := by
  induction text with
  | nil => exact ⟨[], [], rfl, .inl rfl, not_mem_nil⟩
  | cons c rest ih =>
    obtain ⟨whole, tail, rfl, hwhole, htail⟩ := ih
    rcases hwhole with rfl | ⟨init, rfl⟩
    · by_cases hc : c = '\n'
      · exact ⟨['\n'], tail, by rw [hc]; rfl, .concat [], htail⟩
      · refine ⟨[], c :: tail, rfl, .inl rfl, ?_⟩
        simp only [mem_cons, not_or]
        exact ⟨fun heq => hc heq.symm, htail⟩
    · exact ⟨c :: init ++ ['\n'], tail, by simp, .concat (c :: init), htail⟩

end Lines

section Pieces

/-- Beginnings of printed lines, run together. -/
inductive Pieces (codec : JournalCodec) (events : List AgentEvent) : Nat → List Char → Prop
  | none : Pieces codec events 0 []
  | add {count seq : Nat} {event : AgentEvent} {text start : List Char}
      (htext : Pieces codec events count text) (hevent : event ∈ events) (hne : start ≠ [])
      (hstart : start <+: codec.print (seq, event)) : Pieces codec events (count + 1) (text ++ start)

/-- The JSON library on the lines of some events: each is an object on one line, and the
beginnings of two or more of them run together are not JSON. -/
structure JournalCodec.Separates (codec : JournalCodec) (events : List AgentEvent) : Prop where
  prints : ∀ event ∈ events, ∀ seq, codec.Prints (seq, event)
  joined : ∀ (count : Nat) (text : List Char), Pieces codec events count text → 2 ≤ count →
    codec.parse text = none

variable {codec : JournalCodec} {events : List AgentEvent} {count : Nat} {text : List Char}

theorem Pieces.zero (hpieces : Pieces codec events 0 text) : text = [] := by
  cases hpieces
  rfl

theorem Pieces.eq_nil (hpieces : Pieces codec events count text) (hnil : text = []) : count = 0 := by
  cases hpieces with
  | none => rfl
  | add htext hevent hne hstart =>
    obtain ⟨-, rfl⟩ := append_eq_nil_iff.mp hnil
    exact absurd rfl hne

/-- Every piece begins with a brace, so a carriage return can only end one. -/
theorem Pieces.stripReturn (hcodec : codec.Separates events)
    (hpieces : Pieces codec events count text) :
    Pieces codec events count (stripReturn text) := by
  cases hpieces with
  | none => exact .none
  | @add count seq event text start htext hevent hne hstart =>
    obtain ⟨body, hbody⟩ := (hcodec.prints event hevent seq).object
    rw [stripReturn, getLast?_append_of_ne_nil _ hne]
    split
    · next hreturn =>
        rw [dropLast_append_of_ne_nil hne]
        refine .add htext hevent ?_ ((List.dropLast_prefix _).trans hstart)
        intro hnil
        cases start with
        | nil => exact hne rfl
        | cons head rest =>
          have hrest : rest = [] := by
            cases rest with
            | nil => rfl
            | cons next others => cases hnil
          subst hrest
          rw [hbody, cons_prefix_cons] at hstart
          rw [hstart.1] at hreturn
          cases hreturn
    · exact .add htext hevent hne hstart

theorem parse_start {seq : Nat} {event : AgentEvent} {start : List Char} {line : JournalLine}
    (hprints : codec.Prints (seq, event)) (hstart : start <+: codec.print (seq, event))
    (hline : codec.parse start = some line) : line = (seq, event) := by
  by_cases hwhole : start = codec.print (seq, event)
  · rw [hwhole, hprints.reads] at hline
    exact (Option.some.inj hline).symm
  · rw [hprints.torn start hstart hwhole] at hline
    cases hline

end Pieces

section Contents

/-- A file with acknowledged lines: they are on complete lines, the last of which has the
newest number, and if an unfinished line parses, it is newer. -/
structure SettledFile (codec : JournalCodec) (acked : List JournalLine) (whole tail : List Char) :
    Prop where
  ends : EndsLine whole
  oneLine : '\n' ∉ tail
  held : ∀ line ∈ acked, line ∈ parsedLines codec whole
  newest : ∀ last, (parsedLines codec whole).getLast? = some last → ∀ line ∈ acked, line.1 ≤ last.1
  tailNewer : ∀ last, codec.parse tail = some last ∨ codec.parse (stripReturn tail) = some last →
    ∀ line ∈ acked, line.1 < last.1

variable {codec : JournalCodec} {events : List AgentEvent} {acked : List JournalLine}
  {whole tail : List Char}

theorem settled_nil (hends : EndsLine whole) (htail : '\n' ∉ tail) :
    SettledFile codec [] whole tail :=
  ⟨hends, htail, fun _ h => (not_mem_nil h).elim, fun _ _ _ h => (not_mem_nil h).elim,
    fun _ _ _ h => (not_mem_nil h).elim⟩

namespace SettledFile

/-- The last line that can be read is at least as new as what was acknowledged. -/
theorem last_newer (hsettled : SettledFile codec acked whole tail) {rest : List Char}
    (hrest : ∀ last ∈ parsedLines codec rest,
      codec.parse tail = some last ∨ codec.parse (stripReturn tail) = some last)
    {last : JournalLine} (hlast : (parsedLines codec (whole ++ rest)).getLast? = some last) :
    ∀ line ∈ acked, line.1 ≤ last.1 := by
  rw [parsedLines_append hsettled.ends] at hlast
  by_cases hnone : parsedLines codec rest = []
  · rw [hnone, append_nil] at hlast
    exact hsettled.newest last hlast
  · rw [getLast?_append_of_ne_nil _ hnone] at hlast
    intro line hline
    exact Nat.le_of_lt (hsettled.tailNewer last (hrest last (mem_of_getLast? hlast)) line hline)

theorem close (hsettled : SettledFile codec acked whole tail) {start : List Char}
    (hstart : '\n' ∉ start)
    (hnewer : ∀ last, codec.parse start = some last ∨ codec.parse (stripReturn start) = some last →
      ∀ line ∈ acked, line.1 < last.1) :
    SettledFile codec acked (whole ++ (tail ++ ['\n'])) start := by
  have hends : EndsLine (whole ++ (tail ++ ['\n'])) := by
    rw [← append_assoc]
    exact .concat _
  refine ⟨hends, hstart, ?_, ?_, hnewer⟩
  · intro line hline
    rw [parsedLines_append hsettled.ends]
    exact mem_append_left _ (hsettled.held line hline)
  · intro last hlast
    exact hsettled.last_newer
      (fun found hfound => .inr (mem_parsedLines_of_terminated hsettled.oneLine hfound)) hlast

theorem blank {line : JournalLine} (hprints : codec.Prints line) {last : JournalLine} :
    ¬ (codec.parse [] = some last ∨ codec.parse (stripReturn []) = some last) := by
  have hnone : codec.parse [] = none := hprints.torn [] List.nil_prefix hprints.ne_nil.symm
  rw [stripReturn_of_notMem not_mem_nil, or_self, hnone]
  exact nofun

theorem closeLine (hsettled : SettledFile codec acked whole tail) {line : JournalLine}
    (hprints : codec.Prints line) : SettledFile codec acked (whole ++ (tail ++ ['\n'])) [] :=
  hsettled.close not_mem_nil fun _ hlast => absurd hlast (blank hprints)

/-- A complete line that is newer than everything acknowledged is acknowledged. -/
theorem acknowledge (hsettled : SettledFile codec acked whole []) {line : JournalLine}
    (hprints : codec.Prints line) (hnewer : ∀ old ∈ acked, old.1 < line.1) :
    SettledFile codec (acked ++ [line]) (whole ++ (codec.print line ++ ['\n'])) [] := by
  have hparsed : parsedLines codec (whole ++ (codec.print line ++ ['\n'])) =
      parsedLines codec whole ++ [line] := by
    rw [parsedLines_append hsettled.ends, parsedLines_print hprints]
  refine ⟨?_, not_mem_nil, ?_, ?_, fun _ hlast => absurd hlast (blank hprints)⟩
  · rw [← append_assoc]
    exact .concat _
  · intro old hold
    rw [hparsed]
    rcases mem_append.mp hold with hold | hnew
    · exact mem_append_left _ (hsettled.held old hold)
    · exact mem_append_right _ hnew
  · intro last hlast old hold
    rw [hparsed, getLast?_concat, Option.some.injEq] at hlast
    subst hlast
    rcases mem_append.mp hold with hold | hnew
    · exact Nat.le_of_lt (hnewer old hold)
    · rw [mem_singleton.mp hnew]

end SettledFile

/-- The entry of an open file: its number is new, and it knows of an unfinished line that is
not made of beginnings of printed lines. -/
structure EntryInv (codec : JournalCodec) (events : List AgentEvent) (acked : List JournalLine)
    (tail : List Char) (entry : ChatJournal) : Prop where
  positive : 1 ≤ entry.nextSeq
  newer : ∀ line ∈ acked, line.1 < entry.nextSeq
  pieces : entry.needsNewline = false → ∃ count, Pieces codec events count tail

theorem getLast?_encode_newline {text : List Char} :
    (encode text).getLast? = some 10 ↔ text.getLast? = some '\n' := by
  rcases eq_nil_or_concat text with rfl | ⟨init, last, rfl⟩
  · simp
  · rw [concat_eq_append, encode_append, getLast?_concat, Option.some.injEq]
    have hne : encode [last] ≠ [] := by
      intro hnil
      exact cons_ne_nil _ _ (encode_injective hnil)
    rw [getLast?_append_of_ne_nil _ hne]
    constructor
    · intro hlast
      have hmem := newline_mem_encode.1 (mem_of_getLast? hlast)
      exact (mem_singleton.mp hmem).symm
    · intro hlast
      rw [hlast]
      decide

/-- A file of text ends inside a line exactly when it has an unfinished one. -/
theorem endsMidLine_encode (hends : EndsLine whole) (htail : '\n' ∉ tail) :
    JournalProcess.endsMidLine (encode (whole ++ tail)) = false ↔ tail = [] := by
  have hlast : ((encode (whole ++ tail)).getLast?.any fun byte => byte ≠ 10) = false ↔
      whole ++ tail = [] ∨ (whole ++ tail).getLast? = some '\n' := by
    rw [← getLast?_encode_newline]
    cases hbytes : (encode (whole ++ tail)).getLast? with
    | none =>
      rw [getLast?_eq_none_iff] at hbytes
      simp [encode_injective (hbytes.trans (encode_nil).symm)]
    | some byte =>
      have hne : whole ++ tail ≠ [] := by
        intro hnil
        rw [hnil] at hbytes
        cases hbytes
      simp [hne]
  rw [JournalProcess.endsMidLine, hlast]
  constructor
  · intro hcases
    rcases eq_nil_or_concat tail with rfl | ⟨init, last, rfl⟩
    · rfl
    · rw [concat_eq_append] at hcases htail
      rcases hcases with hnil | hnewline
      · simp at hnil
      · rw [← append_assoc, getLast?_concat, Option.some.injEq] at hnewline
        exact absurd (mem_append_right _ (mem_singleton.mpr hnewline.symm)) htail
  · rintro rfl
    rw [append_nil]
    rcases hends with rfl | ⟨init, rfl⟩
    · exact .inl rfl
    · exact .inr (getLast?_concat)

end Contents

section Directory

/-- Every file that is open or has acknowledged lines is settled, its entry with it, and no
two open chats share one. -/
structure DirectoryInv (codec : JournalCodec) (events : List AgentEvent)
    (acked : String → List JournalLine) (journal : RunJournal) : Prop where
  files : ∀ stem, (acked stem ≠ [] ∨ ∃ chatId ∈ journal.openFiles, sanitizeId chatId = stem) →
    ∃ whole tail, journal.files[stem]?.getD [] = encode (whole ++ tail) ∧
      SettledFile codec (acked stem) whole tail ∧
      ∀ (chatId : String) (entry : ChatJournal), journal.openFiles[chatId]? = some entry →
        sanitizeId chatId = stem → EntryInv codec events (acked stem) tail entry
  alone : ∀ first ∈ journal.openFiles, ∀ second ∈ journal.openFiles,
    sanitizeId first = sanitizeId second → first = second

variable {codec : JournalCodec} {events : List AgentEvent} {acked : String → List JournalLine}
  {journal : RunJournal} {chatId : String}

theorem scanTail_settled {file : Option (List UInt8)} {lines : List JournalLine}
    {whole tail : List Char} (hfile : file.getD [] = encode (whole ++ tail))
    (hsettled : SettledFile codec lines whole tail) {nextSeq : Nat} {needsNewline : Bool}
    (hscan : scanTail codec file = .ok (nextSeq, needsNewline)) :
    EntryInv codec events lines tail { nextSeq, needsNewline } ∧
      (needsNewline = false → tail = []) := by
  have hempty : parsedLines codec whole = [] → lines = [] := by
    intro hnone
    refine eq_nil_iff_forall_not_mem.mpr fun line hline => ?_
    have hheld := hsettled.held line hline
    rw [hnone] at hheld
    exact not_mem_nil hheld
  cases file with
  | none =>
    cases hscan
    have hnil : whole ++ tail = [] := encode_injective (hfile.symm.trans (encode_nil).symm)
    obtain ⟨rfl, rfl⟩ := append_eq_nil_iff.mp hnil
    refine ⟨⟨Nat.le_refl 1, ?_, fun _ => ⟨0, .none⟩⟩, fun _ => rfl⟩
    rw [hempty rfl]
    exact fun _ h => (not_mem_nil h).elim
  | some bytes =>
    obtain rfl : bytes = encode (whole ++ tail) := hfile
    rw [scanTail, readLines_encode] at hscan
    simp only [Except.ok.injEq, Prod.mk.injEq] at hscan
    obtain ⟨hseq, hnewline⟩ := hscan
    have htail : needsNewline = false → tail = [] := by
      intro hfalse
      rw [hfalse] at hnewline
      exact (endsMidLine_encode hsettled.ends hsettled.oneLine).mp hnewline
    refine ⟨⟨?_, ?_, fun hfalse => ⟨0, htail hfalse ▸ .none⟩⟩, htail⟩
    · rw [← hseq]
      cases (parsedLines codec (whole ++ tail)).getLast? with
      | none => exact Nat.le_refl 1
      | some last => exact Nat.succ_pos _
    · cases hlast : (parsedLines codec (whole ++ tail)).getLast? with
      | none =>
        rw [getLast?_eq_none_iff, parsedLines_append hsettled.ends,
          append_eq_nil_iff] at hlast
        rw [hempty hlast.1]
        exact fun _ h => (not_mem_nil h).elim
      | some last =>
        intro line hline
        rw [hlast] at hseq
        have hle := hsettled.last_newer
          (fun found hfound => .inl (mem_parsedLines_of_oneLine hsettled.oneLine hfound))
          hlast line hline
        exact hseq ▸ Nat.lt_succ_of_le hle

namespace DirectoryInv

theorem closeAll (hinv : DirectoryInv codec events acked journal) :
    DirectoryInv codec events acked { journal with openFiles := ∅ } := by
  refine ⟨?_, fun first hfirst => (not_mem_empty hfirst).elim⟩
  intro stem htouched
  rcases htouched with hacked | ⟨chatId, hopen, -⟩
  · obtain ⟨whole, tail, hfile, hsettled, -⟩ := hinv.files stem (.inl hacked)
    refine ⟨whole, tail, hfile, hsettled, ?_⟩
    intro chatId entry hentry
    rw [Std.ExtTreeMap.getElem?_empty] at hentry
    cases hentry
  · exact (not_mem_empty hopen).elim

/-- A new content of one chat's file, with its entry, touches no other file. -/
theorem update (hinv : DirectoryInv codec events acked journal)
    (halone : ∀ other ∈ journal.openFiles, sanitizeId other = sanitizeId chatId → other = chatId)
    {acked' : String → List JournalLine}
    (hacked : ∀ stem, stem ≠ sanitizeId chatId → acked' stem = acked stem)
    {whole tail : List Char} {entry : ChatJournal}
    (hsettled : SettledFile codec (acked' (sanitizeId chatId)) whole tail)
    (hentry : EntryInv codec events (acked' (sanitizeId chatId)) tail entry)
    {next : RunJournal}
    (hfiles : next.files = journal.files.insert (sanitizeId chatId) (encode (whole ++ tail)))
    (hopen : ∀ other : String, next.openFiles[other]? =
      if other = chatId then some entry else journal.openFiles[other]?) :
    DirectoryInv codec events acked' next := by
  have hold : ∀ other ∈ next.openFiles, other ≠ chatId → other ∈ journal.openFiles := by
    intro other hother hne
    rw [mem_iff_isSome_getElem?, hopen, if_neg hne,
      ← mem_iff_isSome_getElem?] at hother
    exact hother
  have hself : ∀ other ∈ next.openFiles, sanitizeId other = sanitizeId chatId → other = chatId := by
    intro other hother hstem
    by_contra hne
    exact hne (halone other (hold other hother hne) hstem)
  refine ⟨?_, ?_⟩
  · intro stem htouched
    by_cases hstem : stem = sanitizeId chatId
    · subst hstem
      refine ⟨whole, tail, ?_, hsettled, ?_⟩
      · rw [hfiles, getElem?_insert_self, Option.getD_some]
      · intro other found hfound hname
        have hmem : other ∈ next.openFiles :=
          mem_iff_isSome_getElem?.mpr (by rw [hfound]; rfl)
        rw [hopen, if_pos (hself other hmem hname), Option.some.injEq] at hfound
        exact hfound ▸ hentry
    · have htouched' : acked stem ≠ [] ∨ ∃ other ∈ journal.openFiles, sanitizeId other = stem := by
        rw [hacked stem hstem] at htouched
        refine htouched.imp_right fun ⟨other, hother, hname⟩ => ⟨other, hold other hother ?_, hname⟩
        rintro rfl
        exact hstem hname.symm
      obtain ⟨whole', tail', hfile, hsettled', hentries⟩ := hinv.files stem htouched'
      refine ⟨whole', tail', ?_, hacked stem hstem ▸ hsettled', ?_⟩
      · rw [hfiles, Std.ExtTreeMap.getElem?_insert, if_neg (by simpa using Ne.symm hstem)]
        exact hfile
      · intro other found hfound hname
        have hne : other ≠ chatId := by
          rintro rfl
          exact hstem hname.symm
        rw [hopen, if_neg hne] at hfound
        exact hacked stem hstem ▸ hentries other found hfound hname
  · intro first hfirst second hsecond hsame
    by_cases hchat : second = chatId
    · rw [hchat] at hsame ⊢
      exact hself first hfirst hsame
    · by_cases hchat' : first = chatId
      · rw [hchat'] at hsame ⊢
        exact (hself second hsecond hsame.symm).symm
      · exact hinv.alone first (hold first hfirst hchat') second (hold second hsecond hchat) hsame

theorem openFor (hinv : DirectoryInv codec events acked journal)
    (hopens : JournalProcess.OpensAlone journal chatId) :
    DirectoryInv codec events acked (journal.openFor codec chatId).1 ∧
      ∀ entry, (journal.openFor codec chatId).2 = .ok entry →
        (journal.openFor codec chatId).1.openFiles[chatId]? = some entry ∧
        (JournalProcess.StartsLine journal chatId →
          JournalProcess.StartsLine (journal.openFor codec chatId).1 chatId) := by
  rw [RunJournal.openFor]
  split
  next entry hentry =>
    refine ⟨hinv, fun found hfound => ?_⟩
    cases hfound
    exact ⟨hentry, id⟩
  next hclosed =>
    have hroom : ∃ opened : RunJournal, (if journal.openFiles.size ≥ openFileCap then
          { journal with openFiles := ∅ } else journal) = opened ∧
        DirectoryInv codec events acked opened ∧
        ∀ other ∈ opened.openFiles, sanitizeId other ≠ sanitizeId chatId := by
      refine ⟨_, rfl, ?_⟩
      split
      · exact ⟨hinv.closeAll, fun other hother => (not_mem_empty hother).elim⟩
      next hcap => exact ⟨hinv, hopens hclosed (Nat.lt_of_not_ge hcap)⟩
    obtain ⟨opened, hopened, hinv, halone⟩ := hroom
    rw [hopened]
    dsimp only
    cases hscan : scanTail codec (opened.fileFor chatId) with
    | error error => exact ⟨hinv, fun entry hentry => by cases hentry⟩
    | ok found =>
      obtain ⟨nextSeq, needsNewline⟩ := found
      -- what was read is settled: by the invariant, or because nothing was acknowledged
      have hread : ∃ whole tail, (opened.fileFor chatId).getD [] = encode (whole ++ tail) ∧
          SettledFile codec (acked (sanitizeId chatId)) whole tail := by
        by_cases hacked : acked (sanitizeId chatId) = []
        · have hdecode : ∃ text, (opened.fileFor chatId).getD [] = encode text := by
            cases hfile : opened.fileFor chatId with
            | none => exact ⟨[], rfl⟩
            | some bytes =>
              rw [hfile, scanTail] at hscan
              cases hlines : readLines codec (some bytes) with
              | error error =>
                rw [hlines] at hscan
                cases hscan
              | ok lines =>
                obtain ⟨text, htext⟩ := Option.isSome_iff_exists.mp
                  ((readLines_isOk_iff codec).mp ⟨lines, hlines⟩)
                exact ⟨text, decode_eq_some_iff.1 htext⟩
          obtain ⟨text, htext⟩ := hdecode
          obtain ⟨whole, tail, rfl, hends, htail⟩ := exists_endsLine text
          exact ⟨whole, tail, htext, hacked ▸ settled_nil hends htail⟩
        · obtain ⟨whole, tail, hfile, hsettled, -⟩ := hinv.files (sanitizeId chatId) (.inl hacked)
          exact ⟨whole, tail, hfile, hsettled⟩
      obtain ⟨whole, tail, hfile, hsettled⟩ := hread
      obtain ⟨hentry, htail⟩ := @scanTail_settled codec events _ _ _ _ hfile hsettled _ _ hscan
      dsimp only
      refine ⟨hinv.update (fun other hother hname => absurd hname (halone other hother))
        (fun _ _ => rfl) hsettled hentry (by rw [hfile]) ?_, ?_⟩
      · intro other
        rw [Std.ExtTreeMap.getElem?_insert]
        by_cases hother : other = chatId
        · simp [hother]
        · rw [if_neg hother, if_neg (by simpa using Ne.symm hother)]
      · intro entry hok
        cases hok
        refine ⟨getElem?_insert_self, fun _ entry hentry' hfalse => ?_⟩
        rw [getElem?_insert_self, Option.some.injEq] at hentry'
        rw [RunJournal.fileFor, getElem?_insert_self, Option.getD_some, hfile]
        subst hentry'
        exact (endsMidLine_encode hsettled.ends hsettled.oneLine).mpr (htail hfalse)

variable {entry : ChatJournal}

theorem opened (hinv : DirectoryInv codec events acked journal)
    (hentry : journal.openFiles[chatId]? = some entry) :
    (∀ other ∈ journal.openFiles, sanitizeId other = sanitizeId chatId → other = chatId) ∧
    ∃ whole tail, (journal.fileFor chatId).getD [] = encode (whole ++ tail) ∧
      SettledFile codec (acked (sanitizeId chatId)) whole tail ∧
      EntryInv codec events (acked (sanitizeId chatId)) tail entry := by
  have hmem : chatId ∈ journal.openFiles :=
    mem_iff_isSome_getElem?.mpr (by rw [hentry]; rfl)
  obtain ⟨whole, tail, hfile, hsettled, hentries⟩ :=
    hinv.files (sanitizeId chatId) (.inr ⟨chatId, hmem, rfl⟩)
  exact ⟨fun other hother hname => hinv.alone other hother chatId hmem hname,
    whole, tail, hfile, hsettled, hentries chatId entry hentry rfl⟩

theorem written (hinv : DirectoryInv codec events acked journal) (hcodec : codec.Separates events)
    (hentry : journal.openFiles[chatId]? = some entry)
    (hstarts : JournalProcess.StartsLine journal chatId) {event : AgentEvent}
    (hevent : event ∈ events) {acked' : String → List JournalLine}
    (hself : acked' (sanitizeId chatId) = acked (sanitizeId chatId) ++ [(entry.nextSeq, event)])
    (hother : ∀ stem, stem ≠ sanitizeId chatId → acked' stem = acked stem) :
    let next := journal.writeAll chatId (entry.buffer codec event)
    DirectoryInv codec events acked'
      { next with
        openFiles := next.openFiles.insert chatId ⟨entry.nextSeq + 1, false⟩ } := by
  obtain ⟨halone, whole, tail, hfile, hsettled, hinvEntry⟩ := hinv.opened hentry
  have hprints := hcodec.prints event hevent entry.nextSeq
  -- in both cases the line starts behind complete ones
  have hbase : ∃ base, SettledFile codec (acked (sanitizeId chatId)) base [] ∧
      whole ++ tail ++ (if entry.needsNewline then ['\n'] else []) = base := by
    cases hnewline : entry.needsNewline with
    | true =>
      exact ⟨_, hsettled.closeLine hprints, by rw [if_pos rfl, append_assoc]⟩
    | false =>
      have htail : tail = [] := by
        rw [← endsMidLine_encode hsettled.ends hsettled.oneLine, ← hfile]
        exact hstarts entry hentry hnewline
      subst htail
      exact ⟨whole, hsettled, by simp⟩
  obtain ⟨base, hbase, hwhole⟩ := hbase
  have hbytes : (journal.fileFor chatId).getD [] ++ entry.buffer codec event =
      encode (base ++ (codec.print (entry.nextSeq, event) ++ ['\n']) ++ []) := by
    rw [hfile, buffer_eq_encode, ← encode_append, ← hwhole, append_nil]
    simp only [append_assoc]
  have hnew := hbase.acknowledge hprints hinvEntry.newer
  have hnewEntry : EntryInv codec events (acked' (sanitizeId chatId)) []
      ⟨entry.nextSeq + 1, false⟩ := by
    refine ⟨Nat.le_add_left 1 _, ?_, fun _ => ⟨0, .none⟩⟩
    intro line hline
    rw [hself] at hline
    rcases mem_append.mp hline with hold | hlast
    · exact Nat.lt_succ_of_lt (hinvEntry.newer line hold)
    · rw [mem_singleton.mp hlast]
      exact Nat.lt_succ_self _
  refine hinv.update halone hother (hself ▸ hnew) hnewEntry (by rw [← hbytes]; rfl) ?_
  intro other
  rw [Std.ExtTreeMap.getElem?_insert]
  by_cases hsame : other = chatId
  · simp [hsame]
  · rw [if_neg hsame, if_neg (by simpa using Ne.symm hsame)]
    rfl

/-- A beginning of a line behind beginnings of lines is no line that is not new. -/
theorem pieces_newer {lines : List JournalLine} (hcodec : codec.Separates events)
    {event : AgentEvent} (hevent : event ∈ events) {seq : Nat}
    (hnewer : ∀ line ∈ lines, line.1 < seq) {whole tail : List Char}
    (hsettled : SettledFile codec lines whole tail) {count : Nat}
    (hpieces : Pieces codec events count tail)
    {start : List Char} (hstart : start <+: codec.print (seq, event)) :
    (∃ count, Pieces codec events count (tail ++ start)) ∧
      SettledFile codec lines whole (tail ++ start) := by
  have hprints := hcodec.prints event hevent seq
  have hline : '\n' ∉ start := fun hmem => hprints.oneLine (hstart.subset hmem)
  by_cases hnil : start = []
  · subst hnil
    rw [append_nil]
    exact ⟨⟨count, hpieces⟩, hsettled⟩
  · have hmore : Pieces codec events (count + 1) (tail ++ start) := .add hpieces hevent hnil hstart
    refine ⟨⟨_, hmore⟩, hsettled.ends, ?_, hsettled.held, hsettled.newest, ?_⟩
    · simp only [mem_append, not_or]
      exact ⟨hsettled.oneLine, hline⟩
    · intro last hlast line hmem
      cases count with
      | zero =>
        obtain rfl := hpieces.zero
        rw [nil_append] at hlast
        have hstrip : stripReturn start <+: codec.print (seq, event) := by
          rw [stripReturn]
          split
          · exact (List.dropLast_prefix _).trans hstart
          · exact hstart
        have hself : last = (seq, event) :=
          hlast.elim (parse_start hprints hstart) (parse_start hprints hstrip)
        rw [hself]
        exact hnewer line hmem
      | succ count =>
        have htwo : 2 ≤ count + 1 + 1 := Nat.le_add_left 2 count
        rw [hcodec.joined _ _ hmore htwo, hcodec.joined _ _ (hmore.stripReturn hcodec) htwo] at hlast
        rcases hlast with hlast | hlast <;> cases hlast

theorem tornWrite (hinv : DirectoryInv codec events acked journal) (hcodec : codec.Separates events)
    (hentry : journal.openFiles[chatId]? = some entry) {event : AgentEvent}
    (hevent : event ∈ events) {bytes : List UInt8} (htext : (decode bytes).isSome = true)
    (hbegins : bytes <+: entry.buffer codec event) (hne : bytes ≠ entry.buffer codec event) :
    DirectoryInv codec events acked (journal.writeAll chatId bytes) := by
  obtain ⟨halone, whole, tail, hfile, hsettled, hinvEntry⟩ := hinv.opened hentry
  have hprints := hcodec.prints event hevent entry.nextSeq
  obtain ⟨text, htext⟩ := Option.isSome_iff_exists.mp htext
  obtain rfl := decode_eq_some_iff.1 htext
  -- the text that was written is a beginning of the line without its newline
  have hshort : text <+:
      (if entry.needsNewline then ['\n'] else []) ++ codec.print (entry.nextSeq, event) := by
    rw [buffer_eq_encode] at hbegins hne
    obtain ⟨rest, hrest⟩ := hbegins
    have hwhole := prefix_of_encode_append hrest
    rw [← append_assoc] at hwhole hne
    rcases prefix_concat_iff.mp hwhole with heq | hshort
    · rw [heq] at hne
      exact absurd rfl hne
    · exact hshort
  have hopen : ∀ other : String, (journal.writeAll chatId (encode text)).openFiles[other]? =
      if other = chatId then some entry else journal.openFiles[other]? := by
    intro other
    split
    next hsame => rw [hsame]; exact hentry
    · rfl
  have hbytes : ∀ {whole' tail' : List Char}, whole ++ tail ++ text = whole' ++ tail' →
      (journal.writeAll chatId (encode text)).files =
        journal.files.insert (sanitizeId chatId) (encode (whole' ++ tail')) := by
    intro whole' tail' hsplit
    rw [RunJournal.writeAll, hfile, ← encode_append, hsplit]
  cases hnewline : entry.needsNewline with
  | true =>
    have hstale : ∀ tail', EntryInv codec events (acked (sanitizeId chatId)) tail' entry := by
      intro tail'
      refine ⟨hinvEntry.positive, hinvEntry.newer, fun hfalse => ?_⟩
      rw [hnewline] at hfalse
      cases hfalse
    rw [hnewline, if_pos rfl] at hshort
    cases text with
    | nil =>
      exact hinv.update halone (fun _ _ => rfl) hsettled hinvEntry (hbytes (append_nil _)) hopen
    | cons first start =>
      rw [singleton_append, cons_prefix_cons] at hshort
      obtain ⟨rfl, hstart⟩ := hshort
      -- the newline closes what was unfinished
      obtain ⟨-, hnew⟩ := pieces_newer hcodec hevent hinvEntry.newer
        (hsettled.closeLine hprints) .none hstart
      refine hinv.update halone (fun _ _ => rfl) hnew (hstale _) (hbytes ?_) hopen
      simp
  | false =>
    obtain ⟨count, hpieces⟩ := hinvEntry.pieces hnewline
    rw [hnewline] at hshort
    obtain ⟨hmore, hnew⟩ := pieces_newer hcodec hevent hinvEntry.newer hsettled hpieces hshort
    exact hinv.update halone (fun _ _ => rfl) hnew
      ⟨hinvEntry.positive, hinvEntry.newer, fun _ => hmore⟩ (hbytes (append_assoc _ _ _)) hopen

end DirectoryInv

end Directory

section Processes

/-- The directory keeps what was acknowledged, in the order of each chat. -/
structure ProcessInv (codec : JournalCodec) (events : List AgentEvent) (process : JournalProcess) :
    Prop where
  directory : DirectoryInv codec events process.ackedIn process.journal
  positive : ∀ entry ∈ process.acked, 1 ≤ entry.2.1
  ordered : ∀ chatId, (process.ackedSeqs chatId).Pairwise (· < ·)

variable {codec : JournalCodec} {events : List AgentEvent} {process next : JournalProcess}

theorem JournalProcess.mem_ackedIn {chatId : String} {line : JournalLine}
    (hacked : (chatId, line) ∈ process.acked) : line ∈ process.ackedIn (sanitizeId chatId) :=
  mem_map.mpr ⟨(chatId, line), mem_filter.mpr ⟨hacked, by simp⟩, rfl⟩

theorem JournalProcess.ackedIn_of_mem_seqs {chatId : String} {seq : Nat}
    (hseq : seq ∈ process.ackedSeqs chatId) :
    ∃ event, (seq, event) ∈ process.ackedIn (sanitizeId chatId) := by
  obtain ⟨⟨id, found, event⟩, hmem, rfl⟩ := mem_map.mp hseq
  obtain ⟨hacked, hchat⟩ := mem_filter.mp hmem
  have hid : id = chatId := of_decide_eq_true hchat
  exact ⟨event, hid ▸ mem_ackedIn hacked⟩

theorem ProcessInv.start {journal : RunJournal} (hclosed : journal.openFiles = ∅) :
    ProcessInv codec events ⟨journal, []⟩ := by
  have hnone : ∀ chatId ∈ journal.openFiles, False := by
    intro chatId hchat
    rw [hclosed] at hchat
    exact not_mem_empty hchat
  refine ⟨⟨?_, fun first hfirst => (hnone first hfirst).elim⟩,
    fun _ h => (not_mem_nil h).elim, fun _ => .nil⟩
  intro stem htouched
  rcases htouched with hacked | ⟨chatId, hchat, -⟩
  · exact absurd rfl hacked
  · exact (hnone chatId hchat).elim

variable (hinv : ProcessInv codec events process)
include hinv

/-- A successful append acknowledges a line that is newer than all of its file. -/
theorem ProcessInv.append (hcodec : codec.Separates events) {chatId : String} {event : AgentEvent}
    (hevent : event ∈ events) (hisolates : process.Isolates (.append chatId event))
    (hstep : process.step codec (.append chatId event) = some next) :
    ProcessInv codec events next := by
  obtain ⟨hopens, hstarts⟩ := hisolates
  obtain ⟨hopened, hentries⟩ := hinv.directory.openFor hopens
  rw [JournalProcess.step, RunJournal.append] at hstep
  generalize process.journal.openFor codec chatId = result at hopened hentries hstep
  obtain ⟨journal, found⟩ := result
  cases found with
  | error error =>
    cases hstep
    exact ⟨hopened, hinv.positive, hinv.ordered⟩
  | ok entry =>
    cases hstep
    obtain ⟨hentry, hstarts'⟩ := hentries entry rfl
    obtain ⟨-, whole, tail, -, -, hnew⟩ := hopened.opened hentry
    refine ⟨?_, ?_, ?_⟩
    · refine hopened.written hcodec hentry (hstarts' hstarts) hevent ?_ ?_
      · simp [JournalProcess.ackedIn]
      · intro stem hstem
        simp [JournalProcess.ackedIn, Ne.symm hstem]
    · intro acked hacked
      rcases mem_append.mp hacked with hold | hlast
      · exact hinv.positive acked hold
      · rw [mem_singleton.mp hlast]
        exact hnew.positive
    · intro other
      by_cases hother : chatId = other
      · subst hother
        have hseqs : JournalProcess.ackedSeqs
            ⟨journal, process.acked ++ [(chatId, entry.nextSeq, event)]⟩ chatId =
            process.ackedSeqs chatId ++ [entry.nextSeq] := by
          simp [JournalProcess.ackedSeqs]
        refine (congrArg (List.Pairwise (· < ·)) hseqs).mpr ?_
        rw [pairwise_append]
        refine ⟨hinv.ordered chatId, pairwise_singleton _ _, ?_⟩
        intro seq hseq last hlast
        obtain ⟨acked, hacked⟩ := JournalProcess.ackedIn_of_mem_seqs hseq
        rw [mem_singleton.mp hlast]
        exact hnew.newer _ hacked
      · have hseqs : JournalProcess.ackedSeqs
            ⟨journal, process.acked ++ [(chatId, entry.nextSeq, event)]⟩ other =
            process.ackedSeqs other := by
          simp [JournalProcess.ackedSeqs, hother]
        exact (congrArg (List.Pairwise (· < ·)) hseqs).mpr (hinv.ordered other)

theorem ProcessInv.failed (hcodec : codec.Separates events) {chatId : String} {event : AgentEvent}
    (hevent : event ∈ events) {written : List UInt8}
    (hisolates : process.Isolates (.failed chatId event written))
    (hstep : process.step codec (.failed chatId event written) = some next) :
    ProcessInv codec events next := by
  obtain ⟨hopens, htext⟩ := hisolates
  obtain ⟨hopened, hentries⟩ := hinv.directory.openFor hopens
  rw [JournalProcess.step, JournalProcess.cutsShort, RunJournal.failedAppend] at hstep
  generalize process.journal.openFor codec chatId = result at hopened hentries hstep
  obtain ⟨journal, found⟩ := result
  cases found with
  | error error => simp at hstep
  | ok entry =>
    obtain ⟨hentry, -⟩ := hentries entry rfl
    simp only [Bool.and_eq_true, isPrefixOf_iff_prefix, decide_eq_true_eq] at hstep
    split at hstep
    next hcut =>
      cases hstep
      exact ⟨hopened.tornWrite hcodec hentry hevent htext hcut.1 hcut.2, hinv.positive,
        hinv.ordered⟩
    · cases hstep

theorem ProcessInv.replays {chatId : String} {line : JournalLine}
    (hacked : (chatId, line) ∈ process.acked) :
    ∃ lines, process.journal.replay codec chatId 0 = .ok lines ∧ line ∈ lines := by
  have hmem := JournalProcess.mem_ackedIn hacked
  obtain ⟨whole, tail, hfile, hsettled, -⟩ :=
    hinv.directory.files (sanitizeId chatId) (.inl (ne_nil_of_mem hmem))
  have hheld := hsettled.held line hmem
  have hread : readLines codec (process.journal.fileFor chatId) =
      .ok (parsedLines codec (whole ++ tail)) := by
    rw [RunJournal.fileFor]
    cases hfound : process.journal.files[sanitizeId chatId]? with
    | none =>
      rw [hfound] at hfile
      have hnil : whole ++ tail = [] :=
        encode_injective (hfile.symm.trans (encode_nil).symm)
      rw [hnil]
      rfl
    | some bytes =>
      rw [hfound] at hfile
      rw [show bytes = encode (whole ++ tail) from hfile, readLines_encode]
  refine ⟨_, by rw [RunJournal.replay, hread], ?_⟩
  rw [mem_filter, parsedLines_append hsettled.ends]
  refine ⟨mem_append_left _ hheld, ?_⟩
  have hpositive := hinv.positive _ hacked
  simp only [Nat.not_lt_zero, if_false, gt_iff_lt, decide_eq_true_eq]
  exact hpositive

end Processes

/-- In a process that finds any directory, every acknowledged event is replayed with its number
and the numbers of a chat go up, as long as no write goes on with an unfinished line, no failed
write stops inside a character and no two chats with one file name are open. -/
theorem journal_acked (codec : JournalCodec) (journal : RunJournal)
    (hclosed : journal.openFiles = ∅) (writes : List JournalWrite)
    (hcodec : codec.Separates (writes.map JournalWrite.event)) (final : JournalProcess)
    (hguarded : Trace.Guarded (JournalProcess.step codec) JournalProcess.Isolates ⟨journal, []⟩ writes)
    (hrun : Trace.run (JournalProcess.step codec) ⟨journal, []⟩ writes = some final) :
    (∀ (chatId : String) (line : JournalLine), (chatId, line) ∈ final.acked →
      ∃ lines, final.journal.replay codec chatId 0 = .ok lines ∧ line ∈ lines) ∧
    ∀ chatId, (final.ackedSeqs chatId).Pairwise (· < ·) := by
  have hevents : Trace.Guarded (JournalProcess.step codec)
      (fun _ write => write.event ∈ writes.map JournalWrite.event) ⟨journal, []⟩ writes :=
    Trace.Guarded.of_forall_mem fun write hwrite _ => mem_map_of_mem hwrite
  have hinv : ProcessInv codec (writes.map JournalWrite.event) final := by
    refine Trace.guarded_invariant ?_ (ProcessInv.start hclosed) (hguarded.and hevents) hrun
    intro process write next hinv hguard hstep
    obtain ⟨hisolates, hevent⟩ := hguard
    cases write with
    | append chatId event => exact hinv.append hcodec hevent hisolates hstep
    | failed chatId event written => exact hinv.failed hcodec hevent hisolates hstep
  exact ⟨fun _ _ hacked => hinv.replays hacked, hinv.ordered⟩

section Letters

def letterKey : List Char := "\"seq\":".toList

def letterField : List Char := ",\"event\":".toList

def letterEvent : List Char := "\"type\":\"textDelta\",\"text\":\"a\"\x7d".toList

/-- The JSON text of an event with the letter a. -/
def letterText (seq : Nat) : List Char :=
  '\x7b' :: (letterKey ++ Nat.toDigits 10 seq ++ letterField ++ '\x7b' :: (letterEvent ++ ['\x7d']))

def letterSeq (text : List Char) : Nat :=
  Nat.ofDigitChars 10 ((text.drop 7).takeWhile Char.isDigit) 0

def letterCodec : JournalCodec where
  print line := if line.2 = .textDelta "a" then letterText line.1 else []
  parse text :=
    if text = letterText (letterSeq text) then some (letterSeq text, .textDelta "a") else none

theorem letterCodec_print (seq : Nat) :
    letterCodec.print (seq, .textDelta "a") = letterText seq := by
  simp [letterCodec]

theorem toDigits_isDigit {seq : Nat} {c : Char} (hc : c ∈ Nat.toDigits 10 seq) : c.isDigit :=
  Nat.isDigit_of_mem_toDigits (by decide) (by decide) hc

theorem letterSeq_append (seq : Nat) (rest : List Char) :
    letterSeq (letterText seq ++ rest) = seq := by
  have hdigits : ∀ c ∈ Nat.toDigits 10 seq, c.isDigit = true := fun c => toDigits_isDigit
  have hdrop : (letterText seq ++ rest).drop 7 = Nat.toDigits 10 seq ++
      (letterField ++ '\x7b' :: (letterEvent ++ '\x7d' :: rest)) := by
    have hkey : letterKey.length = 6 := by decide
    rw [letterText, cons_append, drop_succ_cons, ← hkey]
    simp only [append_assoc, cons_append, nil_append, drop_left]
  have hcomma : (letterField ++ '\x7b' :: (letterEvent ++ '\x7d' :: rest)).takeWhile Char.isDigit =
      [] := rfl
  rw [letterSeq, hdrop, takeWhile_append_of_pos hdigits, hcomma, append_nil,
    Nat.ofDigitChars_ten_toDigits]

theorem letterSeq_text (seq : Nat) : letterSeq (letterText seq) = seq := by
  have hseq := letterSeq_append seq []
  rwa [append_nil] at hseq

theorem letterCodec_parse {text : List Char} {line : JournalLine}
    (hline : letterCodec.parse text = some line) : text = letterText (letterSeq text) := by
  simp only [letterCodec] at hline
  split at hline
  next htext => exact htext
  · cases hline

theorem notMem_letterText {c : Char} (hc : c.isDigit = false) (hkey : c ∉ letterKey)
    (hfield : c ∉ letterField) (seq : Nat) : c ∉ letterKey ++ Nat.toDigits 10 seq ++ letterField := by
  simp only [mem_append, not_or]
  refine ⟨⟨hkey, fun hmem => ?_⟩, hfield⟩
  rw [toDigits_isDigit hmem] at hc
  cases hc

theorem letterCodec_prints (seq : Nat) : letterCodec.Prints (seq, .textDelta "a") := by
  refine ⟨?_, ?_, ?_, ?_⟩
  · rw [letterCodec_print, letterText]
    have hend : '\n' ∉ '\x7b' :: (letterEvent ++ ['\x7d']) := by decide
    have hstart := notMem_letterText (by decide : '\n'.isDigit = false) (by decide) (by decide) seq
    simp only [mem_cons, mem_append, not_or] at hend hstart ⊢
    exact ⟨by decide, hstart, hend⟩
  · rw [letterCodec_print]
    refine ⟨letterKey ++ Nat.toDigits 10 seq ++ letterField ++ '\x7b' :: letterEvent, ?_⟩
    rw [letterText, append_assoc _ ('\x7b' :: letterEvent)]
    rfl
  · rw [letterCodec_print]
    simp only [letterCodec, letterSeq_text, if_true]
  · intro start hstart hne
    rw [letterCodec_print] at hstart hne
    by_contra hsome
    obtain ⟨line, hline⟩ := Option.ne_none_iff_exists'.mp hsome
    have hwhole := letterCodec_parse hline
    obtain ⟨rest, hrest⟩ := hstart
    -- the numbers agree, so the beginning is the whole
    have hsame : letterSeq start = seq := by
      rw [hwhole] at hrest
      rw [← letterSeq_text seq, ← hrest, letterSeq_append]
    rw [hsame] at hwhole
    exact hne hwhole

theorem letterCodec_separates {events : List AgentEvent}
    (hevents : ∀ event ∈ events, event = .textDelta "a") : letterCodec.Separates events := by
  refine ⟨?_, ?_⟩
  · intro event hevent seq
    rw [hevents event hevent]
    exact letterCodec_prints seq
  · intro count text hpieces htwo
    by_contra hsome
    obtain ⟨line, hline⟩ := Option.ne_none_iff_exists'.mp hsome
    have htext := letterCodec_parse hline
    generalize letterSeq text = seq at htext
    cases hpieces with
    | none => cases htwo
    | @add count other event before start hbefore hevent hne hstart =>
      rw [hevents _ hevent, letterCodec_print, letterText] at hstart
      have hbefore' : before ≠ [] := by
        intro hnil
        have hzero := hbefore.eq_nil hnil
        omega
      obtain ⟨first, before, rfl⟩ := exists_cons_of_ne_nil hbefore'
      obtain ⟨head, rest, rfl⟩ := exists_cons_of_ne_nil hne
      rw [cons_prefix_cons] at hstart
      obtain ⟨rfl, more, hmore⟩ := hstart
      rw [letterText, cons_append, List.cons.injEq] at htext
      have hinner := notMem_letterText (by decide : '\x7b'.isDigit = false) (by decide) (by decide) seq
      have hsplit := (append_cons_inj_of_notMem hinner (by decide)).mp htext.2.symm
      obtain ⟨-, -, rfl⟩ := hsplit
      have hsecond : some 't' = some 's' := congrArg (fun text : List Char => text[1]?) hmore
      exact absurd hsecond (by decide)

/-- An append fails before its newline, and one to another chat succeeds. -/
def isolatedWrites : List JournalWrite :=
  [.failed "chat-1" (.textDelta "a") (encode (letterText 1)), .append "chat-2" (.textDelta "a")]

theorem journal_acked_isolated : ∃ final,
    Trace.run (JournalProcess.step letterCodec) ⟨{}, []⟩ isolatedWrites = some final ∧
    (∀ (chatId : String) (line : JournalLine), (chatId, line) ∈ final.acked →
      ∃ lines, final.journal.replay letterCodec chatId 0 = .ok lines ∧ line ∈ lines) ∧
    ∀ chatId, (final.ackedSeqs chatId).Pairwise (· < ·) := by
  obtain ⟨final, hrun⟩ : ∃ final,
      Trace.run (JournalProcess.step letterCodec) ⟨{}, []⟩ isolatedWrites = some final := ⟨_, rfl⟩
  refine ⟨final, hrun, journal_acked letterCodec {} rfl isolatedWrites ?_ final ?_ hrun⟩
  · refine letterCodec_separates fun event hevent => ?_
    simpa [isolatedWrites, JournalWrite.event] using hevent
  · refine (Trace.guarded_cons_of_step rfl).mpr ⟨⟨?_, by rw [Utf8.decode_encode]; rfl⟩, ?_⟩
    · exact fun _ _ other hother => (Std.ExtTreeMap.not_mem_empty hother).elim
    · refine (Trace.guarded_cons_of_step rfl).mpr ⟨⟨?_, ?_⟩, trivial⟩
      · intro _ _ other hother
        have hmem : other ∈ (∅ : Std.ExtTreeMap String ChatJournal compare).insert "chat-1" ⟨1, false⟩ :=
          hother
        rcases Std.ExtTreeMap.mem_insert.mp hmem with heq | hempty
        · rw [← Std.LawfulEqCmp.eq_of_compare heq]
          decide
        · exact (Std.ExtTreeMap.not_mem_empty hempty).elim
      · intro entry hentry
        cases hentry

/-- After a failed append the next one succeeds, and nothing is replayed. -/
theorem journal_acked_lost : letterCodec.Separates [.textDelta "a", .textDelta "a"] ∧ ∃ final,
    Trace.run (JournalProcess.step letterCodec) ⟨{}, []⟩
      [.failed "chat-1" (.textDelta "a") ((Utf8.encode (letterText 1)).take 10),
        .append "chat-1" (.textDelta "a")] = some final ∧
      final.acked = [("chat-1", 1, .textDelta "a")] ∧
      final.journal.replay letterCodec "chat-1" 0 = .ok [] := by
  refine ⟨letterCodec_separates (by decide), _, rfl, rfl, rfl⟩

end Letters

end Keel
