import Keel.Dsh.JsonlPersistence
import Keel.Foundation.Trace

/-! # Session artifacts across crashes

Appends and loads of one session, any of which may be cut while it writes. As long
as no cut falls inside a character and nothing is written behind an unfinished
line, the file keeps every event of a completed write and the whole events of a cut
one, and every later operation succeeds.
-/

namespace Keel.Session

open Records List Utf8

/-- What is read back of a header: a depth of zero is absent. -/
def Header.stored (header : Header) : Header :=
  { header with delegationDepth :=
      if header.delegationDepth.getD 0 > 0 then some (header.delegationDepth.getD 0) else none }

inductive ArtifactStep where
  | create (header : Header)
  | append (events : List Event) (cut : Option Nat)
  | load (cut : Option Nat)

/-- The file of a session, and the events that were written whole. -/
structure ArtifactRun where
  file : Option (List UInt8)
  log : List Event

variable (codec : SessionCodec)

/-- The events of a write whose lines are complete. -/
def wholeEvents (events : List Event) : Option Nat → List Event
  | none => events
  | some cut => events.take (wholeCount codec.event events cut)

def ArtifactRun.step (id : String) (run : ArtifactRun) : ArtifactStep → Option ArtifactRun
  | .create header => some { run with file := create codec run.file header }
  | .append events cut =>
    some
      { file := (append codec run.file id events cut).1
        log := run.log ++ wholeEvents codec events cut }
  | .load cut =>
    some
      { file := (load codec run.file cut).1
        log := run.log ++ wholeEvents codec (interruptedTurnClosers run.log) cut }

def ArtifactRun.start (header : Header) : ArtifactRun where
  file := create codec none header
  log := []

/-- The batches continue the log with events that this build reads, and the JSON
library prints what is written. -/
def ArtifactStep.Valid (log : List Event) : ArtifactStep → Prop
  | .create _ => True
  | .append events _ => Contiguous log.length events ∧
      ∀ event ∈ events, event.isReadable = true ∧ codec.event.Prints event
  | .load _ => ∀ event ∈ interruptedTurnClosers log, codec.event.Prints event

/-- A write starts on a new line and is not cut inside a character. -/
def WritesLines (file : Option (List UInt8)) (events : List Event) (cut : Option Nat) : Prop :=
  (events = [] ∨ (file.getD []).getLast? = some 10) ∧
    ∀ count, cut = some count → Boundary (text (events.map codec.event.print)) count

def repairOf (file : Option (List UInt8)) : List Event :=
  match readArtifact codec file with
  | .error _ => []
  | .ok (_, events) => interruptedTurnClosers events

def ArtifactStep.KeepsLines (file : Option (List UInt8)) : ArtifactStep → Prop
  | .create _ => True
  | .append events cut => WritesLines codec file events cut
  | .load cut => WritesLines codec file (repairOf codec file) cut

/-- Every operation succeeds, and the readers return the log. -/
structure Recoverable (header : Header) (run : ArtifactRun) : Prop where
  loads : (load codec run.file none).2 =
    .ok { metadata := header.stored, events := run.log ++ interruptedTurnClosers run.log }
  reads : ∀ fromSeq, readFrom codec run.file fromSeq =
    .ok (header.stored, run.log.filter fun event => event.seq ≥ fromSeq)
  appends : ∀ events, Contiguous run.log.length events →
    (append codec run.file header.id events none).2 = .ok ()

section Reading

variable {codec}

theorem fromHeaderLine_toHeaderLine {header : Header}
    (hversion : header.version = sessionFormatVersion) :
    fromHeaderLine (toHeaderLine header) = .ok header.stored := by
  rw [fromHeaderLine, if_neg (by simp [toHeaderLine]), if_neg (by simp [toHeaderLine, hversion])]
  rfl

theorem trimLineEnd_print {event : Event} (hevent : codec.event.Prints event) :
    trimLineEnd (codec.event.print event) = codec.event.print event := by
  obtain ⟨body, hbody⟩ := hevent.object
  rw [hbody, ← cons_append, trimLineEnd, rdropWhile_concat_neg _ _ _ (by decide)]

theorem trimLineEnd_line {event : Event} (hevent : codec.event.Prints event) :
    trimLineEnd (codec.event.print event ++ ['\n']) = codec.event.print event := by
  rw [trimLineEnd, rdropWhile_concat_pos _ _ _ (by decide)]
  exact trimLineEnd_print hevent

theorem readEvents_line {event : Event} (hevent : codec.event.Prints event)
    (hreadable : event.isReadable = true) {events : List Event} (hseq : event.seq = events.length)
    {line : List Char} (hline : trimLineEnd line = codec.event.print event)
    (rest : List (List Char)) :
    readEvents codec (line :: rest) events = readEvents codec rest (events ++ [event]) := by
  have hempty : (codec.event.print event).isEmpty = false := by
    simpa using hevent.ne_nil
  simp only [readEvents, hline, hempty, hevent.reads, hseq, hreadable, ne_eq, not_true_eq_false,
    if_false, if_true, Bool.false_eq_true]

theorem readEvents_complete {complete : List Event}
    (hcomplete : ∀ event ∈ complete, event.isReadable = true ∧ codec.event.Prints event)
    (events : List Event) (hseq : Contiguous events.length complete) (rest : List (List Char)) :
    readEvents codec ((complete.map codec.event.print).map (fun line => line ++ ['\n']) ++ rest)
      events = readEvents codec rest (events ++ complete) := by
  induction complete generalizing events with
  | nil => simp
  | cons event others ih =>
    obtain ⟨⟨hreadable, hevent⟩, hothers⟩ := forall_mem_cons.mp hcomplete
    obtain ⟨hfirst, hrest⟩ := hseq
    rw [map_cons, map_cons, cons_append,
      readEvents_line hevent hreadable hfirst (trimLineEnd_line hevent),
      ih hothers _ (by simpa using hrest), append_assoc, singleton_append]

/-- The unfinished last line gives its event when only the newline is missing. -/
theorem readEvents_tail {tail : List Char} {rest events : List Event}
    (htail : Tail codec.event tail rest) (hrest : ∀ event ∈ rest, event.isReadable = true)
    (hseq : Contiguous events.length rest) :
    readEvents codec (if tail = [] then [] else [tail]) events = .ok (events ++ rest) := by
  cases htail with
  | none => simp [readEvents]
  | torn hprints htorn hne =>
    rw [append_nil]
    split
    · rfl
    next hnil =>
      have hparse : codec.event.parse (trimLineEnd tail) = none := by
        have htrim : trimLineEnd tail <+: tail := rdropWhile_prefix _ _
        apply hprints.torn _ (htrim.trans htorn)
        intro heq
        exact hne (htorn.eq_of_length_le (heq ▸ htrim.length_le))
      have hlast : ¬ tail.getLast? = some '\n' := by
        intro hlast
        exact hprints.oneLine (htorn.subset (mem_of_getLast? hlast))
      simp only [readEvents, hparse, if_neg hlast]
      split <;> rfl
  | whole hprints =>
    rw [if_neg hprints.ne_nil, readEvents_line hprints (hrest _ mem_cons_self) hseq.1
      (trimLineEnd_print hprints)]
    rfl

theorem load_of_unreadable {file : Option (List UInt8)} {error : PersistenceError}
    (hread : readArtifact codec file = .error error) (cut : Option Nat) :
    (load codec file cut).2 = .error error := by
  rw [load, inspectSync, hread]

theorem readArtifact_lines {header : Header} (hversion : header.version = sessionFormatVersion)
    (hheader : codec.header.Prints (toHeaderLine header)) {records : List (List Char)}
    (hrecords : ∀ record ∈ records, '\n' ∉ record) {tail : List Char} (htail : '\n' ∉ tail) :
    readArtifact codec (some (encode
        (text (codec.header.print (toHeaderLine header) :: records) ++ tail))) =
      (readEvents codec (records.map (fun line => line ++ ['\n']) ++
        if tail = [] then [] else [tail]) []).map fun events => (header.stored, events) := by
  have htrim : Text.trimEnd (codec.header.print (toHeaderLine header) ++ ['\n']) =
      codec.header.print (toHeaderLine header) := by
    obtain ⟨body, hbody⟩ := hheader.object
    rw [Text.trimEnd, rdropWhile_concat_pos _ _ _ (by decide), hbody, ← cons_append,
      rdropWhile_concat_neg _ _ _ (by decide)]
  have hall : ∀ record ∈ codec.header.print (toHeaderLine header) :: records, '\n' ∉ record :=
    forall_mem_cons.mpr ⟨hheader.oneLine, hrecords⟩
  rw [readArtifact, Option.bind_some, decode_encode]
  simp only [splitInclusive_text_append hall htail, map_cons, cons_append,
    getLast?_concat, ne_eq, not_true_eq_false, if_false, htrim, hheader.reads,
    fromHeaderLine_toHeaderLine hversion]
  cases readEvents codec (records.map (fun line => line ++ ['\n']) ++
    if tail = [] then [] else [tail]) [] <;> rfl

end Reading

section Run

variable {codec} {header : Header} {run : ArtifactRun}

/-- The file holds the header, the events on complete lines and what a cut left of
the next one. -/
structure ArtifactInv (codec : SessionCodec) (header : Header) (run : ArtifactRun) : Prop where
  lines : ∃ complete tail rest, run.file = some (encode
      (text (codec.header.print (toHeaderLine header) :: complete.map codec.event.print) ++ tail)) ∧
    Tail codec.event tail rest ∧ run.log = complete ++ rest
  numbered : Contiguous 0 run.log
  events : ∀ event ∈ run.log, event.isReadable = true ∧ codec.event.Prints event

section
variable (hinv : ArtifactInv codec header run)
include hinv

theorem ArtifactInv.readArtifact_eq (hversion : header.version = sessionFormatVersion)
    (hheader : codec.header.Prints (toHeaderLine header)) :
    readArtifact codec run.file = .ok (header.stored, run.log) := by
  obtain ⟨complete, tail, rest, hfile, htail, hlog⟩ := hinv.lines
  have hnumbered := hinv.numbered
  have hevents := hinv.events
  rw [hlog, forall_mem_append] at hevents
  rw [hlog, contiguous_append] at hnumbered
  have hrecords : ∀ record ∈ complete.map codec.event.print, '\n' ∉ record := by
    rw [forall_mem_map]
    exact fun event hevent => (hevents.1 event hevent).2.oneLine
  have hread : readEvents codec ((complete.map codec.event.print).map (fun line => line ++ ['\n']) ++
      if tail = [] then [] else [tail]) [] = .ok run.log := by
    rw [readEvents_complete hevents.1 [] hnumbered.1, nil_append, hlog]
    apply readEvents_tail htail (fun event hevent => (hevents.2 event hevent).1)
    simpa using hnumbered.2
  rw [hfile, readArtifact_lines hversion hheader hrecords htail.newline_notMem, hread]
  rfl

theorem ArtifactInv.complete (hlast : (run.file.getD []).getLast? = some 10) :
    run.file = some (encode
      (text (codec.header.print (toHeaderLine header) :: run.log.map codec.event.print))) := by
  obtain ⟨complete, tail, rest, hfile, htail, hlog⟩ := hinv.lines
  rw [hfile, Option.getD_some, encode_append] at hlast
  have hnil : tail = [] := by
    by_contra hne
    have hbytes : encode tail ≠ [] := fun hbytes => hne (encode_injective hbytes)
    rw [getLast?_append_of_ne_nil _ hbytes] at hlast
    exact htail.newline_notMem (newline_mem_encode.1 (mem_of_getLast? hlast))
  rw [hfile, hlog, htail.eq_nil hnil, hnil, append_nil, append_nil]

/-- A write on a new line, cut or not, leaves its whole events behind the log. -/
theorem ArtifactInv.write {events : List Event} {cut : Option Nat}
    (hwrites : WritesLines codec run.file events cut) (hseq : Contiguous run.log.length events)
    (hevents : ∀ event ∈ events, event.isReadable = true ∧ codec.event.Prints event) :
    ArtifactInv codec header
      { file := run.file.map fun bytes => appendLines codec bytes events cut
        log := run.log ++ wholeEvents codec events cut } := by
  have hprints : ∀ event ∈ events, codec.event.Prints event := fun event hevent =>
    (hevents event hevent).2
  obtain ⟨hempty | hlast, hcut⟩ := hwrites
  · -- Nothing is written.
    subst hempty
    have hwhole : wholeEvents codec [] cut = [] := by
      cases cut <;> rfl
    have hfile : (run.file.map fun bytes => appendLines codec bytes [] cut) = run.file := by
      cases run.file with
      | none => rfl
      | some bytes => cases cut <;> simp [appendLines, reached]
    rw [hwhole, hfile, append_nil]
    exact hinv
  · have hfile := hinv.complete hlast
    obtain ⟨complete, tail, rest, htext, htail, hwhole⟩ : ∃ complete tail rest,
        reached (encode (text (events.map codec.event.print))) cut =
          encode (text (complete.map codec.event.print) ++ tail) ∧
        Tail codec.event tail rest ∧ complete ++ rest = wholeEvents codec events cut := by
      cases cut with
      | none => exact ⟨events, [], [], by simp [reached], .none, by simp [wholeEvents]⟩
      | some count =>
        obtain ⟨kept, -, rfl⟩ := hcut count rfl
        obtain ⟨complete, tail, rest, htext, htail, hwhole⟩ := take_text_print hprints kept
        refine ⟨complete, tail, rest, ?_, htail, hwhole⟩
        rw [reached, take_encode_of_boundary, htext]
    have hkept : ∃ count, wholeEvents codec events cut = events.take count := by
      cases cut with
      | none => exact ⟨events.length, by simp [wholeEvents]⟩
      | some count => exact ⟨_, rfl⟩
    obtain ⟨count, hcount⟩ := hkept
    refine ⟨⟨run.log ++ complete, tail, rest, ?_, htail, by rw [← hwhole, append_assoc]⟩, ?_, ?_⟩
    · rw [hfile, Option.map_some, appendLines, htext, ← encode_append]
      simp [text_cons]
    · rw [hcount, contiguous_append, Nat.zero_add]
      exact ⟨hinv.numbered, hseq.take count⟩
    · rw [hcount, forall_mem_append]
      exact ⟨hinv.events, fun event hevent => hevents event (mem_of_mem_take hevent)⟩

theorem ArtifactInv.append_fst (hversion : header.version = sessionFormatVersion)
    (hheader : codec.header.Prints (toHeaderLine header)) {events : List Event}
    (hseq : Contiguous run.log.length events) (id : String) (cut : Option Nat) :
    (append codec run.file id events cut).1 =
      run.file.map fun bytes => appendLines codec bytes events cut := by
  have hread := hinv.readArtifact_eq hversion hheader
  obtain ⟨_, _, _, hfile, -, -⟩ := hinv.lines
  rw [hfile] at hread ⊢
  simp only [append, hread, Option.map_some]
  cases events with
  | nil => rfl
  | cons first rest => simp only [head?_cons, hseq.1, ne_eq, not_true_eq_false, if_false]

theorem ArtifactInv.load_fst (hversion : header.version = sessionFormatVersion)
    (hheader : codec.header.Prints (toHeaderLine header)) (cut : Option Nat) :
    (load codec run.file cut).1 =
      run.file.map fun bytes => appendLines codec bytes (interruptedTurnClosers run.log) cut := by
  rw [load, inspectSync, hinv.readArtifact_eq hversion hheader]
  cases hclosers : interruptedTurnClosers run.log with
  | nil =>
    obtain ⟨_, _, _, hfile, -, -⟩ := hinv.lines
    rw [hfile]
    cases cut <;> simp [hclosers, appendLines, reached]
  | cons first rest => simp [hclosers]

theorem ArtifactInv.repairOf_eq (hversion : header.version = sessionFormatVersion)
    (hheader : codec.header.Prints (toHeaderLine header)) :
    repairOf codec run.file = interruptedTurnClosers run.log := by
  rw [repairOf, hinv.readArtifact_eq hversion hheader]

end

theorem ArtifactInv.step (hinv : ArtifactInv codec header run)
    (hversion : header.version = sessionFormatVersion)
    (hheader : codec.header.Prints (toHeaderLine header)) {step : ArtifactStep} {next : ArtifactRun}
    (hvalid : step.Valid codec run.log) (hkeeps : step.KeepsLines codec run.file)
    (hstep : run.step codec header.id step = some next) : ArtifactInv codec header next := by
  cases step with
  | create other =>
    cases hstep
    obtain ⟨_, _, _, hfile, -, -⟩ := hinv.lines
    have hsame : create codec run.file other = run.file := by
      rw [hfile]
      rfl
    rw [hsame]
    exact hinv
  | append events cut =>
    cases hstep
    obtain ⟨hseq, hevents⟩ := hvalid
    rw [hinv.append_fst hversion hheader hseq]
    exact hinv.write hkeeps hseq hevents
  | load cut =>
    cases hstep
    rw [ArtifactStep.KeepsLines, hinv.repairOf_eq hversion hheader] at hkeeps
    rw [hinv.load_fst hversion hheader]
    refine hinv.write hkeeps ?_ fun event hevent =>
      ⟨isReadable_interruptedTurnClosers event hevent, hvalid event hevent⟩
    exact contiguous_interruptedTurnClosers hinv.numbered

theorem ArtifactRun.step_load_file {id : String} {cut : Option Nat} {next : ArtifactRun}
    (hstep : run.step codec id (.load cut) = some next) :
    next.file = (load codec run.file cut).1 := by
  cases hstep
  rfl

theorem ArtifactInv.start : ArtifactInv codec header (.start codec header) := by
  refine ⟨⟨[], [], [], ?_, .none, rfl⟩, trivial, fun event hevent => by cases hevent⟩
  simp [ArtifactRun.start, create, text_cons]

theorem ArtifactInv.recoverable (hinv : ArtifactInv codec header run)
    (hversion : header.version = sessionFormatVersion)
    (hheader : codec.header.Prints (toHeaderLine header)) : Recoverable codec header run := by
  have hread := hinv.readArtifact_eq hversion hheader
  refine ⟨by rw [load, inspectSync, hread], fun fromSeq => by rw [readFrom, hread], ?_⟩
  intro events hseq
  obtain ⟨_, _, _, hfile, -, -⟩ := hinv.lines
  rw [hfile] at hread ⊢
  simp only [append, hread]
  cases events with
  | nil => rfl
  | cons first rest => simp only [head?_cons, hseq.1, ne_eq, not_true_eq_false, if_false]

/-- A session stays recoverable as long as its writes keep to lines. -/
theorem artifact_recoverable (codec : SessionCodec) (header : Header)
    (hversion : header.version = sessionFormatVersion)
    (hheader : codec.header.Prints (toHeaderLine header)) (trace : List ArtifactStep)
    (final : ArtifactRun)
    (hguarded : Trace.Guarded (ArtifactRun.step codec header.id)
      (fun run step => step.Valid codec run.log ∧ step.KeepsLines codec run.file)
      (.start codec header) trace)
    (hrun : Trace.run (ArtifactRun.step codec header.id) (.start codec header) trace = some final) :
    Recoverable codec header final := by
  have hinv : ArtifactInv codec header final :=
    Trace.guarded_invariant
      (fun _ _ _ hinv hguard hstep => hinv.step hversion hheader hguard.1 hguard.2 hstep)
      ArtifactInv.start hguarded hrun
  exact hinv.recoverable hversion hheader

end Run

section OpenTurn

/-- A session that opens a turn, its repair, and their JSON texts. -/
def openTurn : Event where
  seq := 0
  time := 1
  data := .turnStart 1

def openTurnCloser : Event where
  seq := 1
  time := 1
  data := .turnEnd 1 .interrupted

def openTurnHeader : Header where
  version := 0
  id := "s1"
  createdAt := 1

def openTurnText : List Char :=
  "\x7b\"seq\":0,\"time\":1,\"type\":\"turn/start\",\"data\":\x7b\"turn\":1\x7d\x7d".toList

def openTurnCloserText : List Char :=
  "\x7b\"seq\":1,\"time\":1,\"type\":\"turn/end\",".toList ++
    "\"data\":\x7b\"turn\":1,\"reason\":\x7b\"kind\":\"interrupted\"\x7d\x7d\x7d".toList

def openTurnHeaderText : List Char :=
  "\x7b\"type\":\"session\",\"version\":0,\"id\":\"s1\",".toList ++
    "\"createdAt\":1,\"delegationDepth\":0\x7d".toList

def openTurnCodec : SessionCodec where
  header :=
    { print := fun _ => openTurnHeaderText
      parse := fun text =>
        if text = openTurnHeaderText then some (toHeaderLine openTurnHeader) else none }
  event :=
    { print := fun event => if event.seq = 0 then openTurnText else openTurnCloserText
      parse := fun text =>
        if text = openTurnText then some openTurn
        else if text = openTurnCloserText then some openTurnCloser
        else none }

theorem openTurnCodec_header : openTurnCodec.header.Prints (toHeaderLine openTurnHeader) := by
  refine ⟨by decide, ⟨openTurnHeaderText.tail.dropLast, by decide⟩, by simp [openTurnCodec], ?_⟩
  exact fun start _ hne => if_neg hne

theorem openTurnCodec_openTurn : openTurnCodec.event.Prints openTurn := by
  refine ⟨by decide, ⟨openTurnText.tail.dropLast, by decide⟩,
    by simp [openTurnCodec, openTurn], ?_⟩
  intro start hstart hne
  have hother : start ≠ openTurnCloserText := by
    rintro rfl
    exact absurd hstart (by decide)
  exact (if_neg hne).trans (if_neg hother)

theorem openTurnCodec_closer : openTurnCodec.event.Prints openTurnCloser := by
  refine ⟨by decide, ⟨openTurnCloserText.tail.dropLast, by decide⟩, ?_, ?_⟩
  · have hother : openTurnCloserText ≠ openTurnText := by decide
    simp [openTurnCodec, openTurnCloser, hother]
  · intro start hstart hne
    have hother : start ≠ openTurnText := by
      rintro rfl
      exact absurd hstart (by decide)
    exact (if_neg hother).trans (if_neg hne)

/-- The session after the append of its turn. -/
def openedTurn (cut : Option Nat) : ArtifactRun where
  file := (append openTurnCodec (create openTurnCodec none openTurnHeader) "s1" [openTurn] cut).1
  log := [openTurn]

theorem openTurn_valid (cut : Option Nat) :
    (ArtifactStep.append [openTurn] cut).Valid openTurnCodec [] := by
  refine ⟨⟨rfl, trivial⟩, fun event hevent => ?_⟩
  obtain rfl := mem_singleton.mp hevent
  exact ⟨by decide, openTurnCodec_openTurn⟩

theorem openTurn_repair_valid (cut : Option Nat) :
    (ArtifactStep.load cut).Valid openTurnCodec [openTurn] := by
  intro event hevent
  obtain rfl : event = openTurnCloser := mem_singleton.mp hevent
  exact openTurnCodec_closer

theorem openedTurn_file (cut : Option Nat) :
    (openedTurn cut).file = (create openTurnCodec none openTurnHeader).map fun bytes =>
      appendLines openTurnCodec bytes [openTurn] cut := by
  have hstart : ArtifactInv openTurnCodec openTurnHeader (.start openTurnCodec openTurnHeader) :=
    .start
  have hseq : Contiguous 0 [openTurn] := ⟨rfl, trivial⟩
  exact hstart.append_fst rfl openTurnCodec_header hseq "s1" cut

theorem openTurn_keepsLines {cut : Option Nat} (hcut : cut = none ∨ cut = some 56) :
    (ArtifactStep.append [openTurn] cut).KeepsLines openTurnCodec
      (create openTurnCodec none openTurnHeader) := by
  refine ⟨.inr (by decide), fun count hcount => ?_⟩
  rcases hcut with rfl | rfl
  · cases hcount
  · cases hcount
    exact ⟨56, by decide, by decide⟩

theorem openedTurn_step {cut : Option Nat} (hcut : cut = none ∨ cut = some 56) :
    (ArtifactRun.start openTurnCodec openTurnHeader).step openTurnCodec "s1"
      (.append [openTurn] cut) = some (openedTurn cut) := by
  have hwhole : wholeEvents openTurnCodec [openTurn] cut = [openTurn] := by
    rcases hcut with rfl | rfl
    · rfl
    · have hcount : wholeCount openTurnCodec.event [openTurn] 56 = 1 := by decide
      rw [wholeEvents, hcount]
      rfl
  rw [ArtifactRun.step, hwhole]
  rfl

theorem openedTurn_inv {cut : Option Nat} (hcut : cut = none ∨ cut = some 56) :
    ArtifactInv openTurnCodec openTurnHeader (openedTurn cut) :=
  ArtifactInv.start.step rfl openTurnCodec_header (openTurn_valid cut) (openTurn_keepsLines hcut)
    (openedTurn_step hcut)

/-- A turn is opened, and its repair is cut inside its line. -/
def cutRepair : List ArtifactStep := [.append [openTurn] none, .load (some 7)]

/-- The line of the open turn is cut right before its newline, and repaired. -/
def gluedRepair : List ArtifactStep := [.append [openTurn] (some 56), .load none]

/-- After a cut repair every operation succeeds. -/
theorem artifact_recoverable_cutRepair :
    ∃ final, Trace.run (ArtifactRun.step openTurnCodec "s1")
        (.start openTurnCodec openTurnHeader) cutRepair = some final ∧
      Recoverable openTurnCodec openTurnHeader final := by
  have hinv := openedTurn_inv (.inl rfl)
  have hstep := openedTurn_step (.inl rfl)
  have hkeeps : (ArtifactStep.load (some 7)).KeepsLines openTurnCodec (openedTurn none).file := by
    rw [ArtifactStep.KeepsLines, hinv.repairOf_eq rfl openTurnCodec_header]
    refine ⟨.inr ?_, fun count hcount => ?_⟩
    · rw [openedTurn_file]
      decide
    · cases hcount
      exact ⟨7, by decide, by decide⟩
  obtain ⟨final, hrun⟩ : ∃ final, Trace.run (ArtifactRun.step openTurnCodec "s1")
      (.start openTurnCodec openTurnHeader) cutRepair = some final :=
    ⟨_, Trace.run_cons_eq_some.2 ⟨openedTurn none, hstep, rfl⟩⟩
  refine ⟨final, hrun, artifact_recoverable openTurnCodec openTurnHeader rfl openTurnCodec_header
    cutRepair final ?_ hrun⟩
  exact (Trace.guarded_cons_of_step hstep).mpr ⟨⟨openTurn_valid none, openTurn_keepsLines
    (.inl rfl)⟩, ⟨openTurn_repair_valid (some 7), hkeeps⟩, trivial⟩

/-- The repair of a line without its newline makes the session unreadable. -/
theorem gluedRepair_unreadable :
    ∃ final, Trace.run (ArtifactRun.step openTurnCodec "s1")
        (.start openTurnCodec openTurnHeader) gluedRepair = some final ∧
      Trace.Guarded (ArtifactRun.step openTurnCodec "s1")
        (fun run step => step.Valid openTurnCodec run.log)
        (.start openTurnCodec openTurnHeader) gluedRepair ∧
      (load openTurnCodec final.file none).2 =
        .error (.message "session artifact contains a corrupt committed event line") ∧
      ¬ Recoverable openTurnCodec openTurnHeader final := by
  have hinv := openedTurn_inv (.inr rfl)
  have hstep := openedTurn_step (.inr rfl)
  obtain ⟨final, hlast⟩ : ∃ final,
      (openedTurn (some 56)).step openTurnCodec "s1" (.load none) = some final := ⟨_, rfl⟩
  have hfinal := ArtifactRun.step_load_file hlast
  refine ⟨final, Trace.run_cons_eq_some.2 ⟨openedTurn (some 56), hstep,
    Trace.run_cons_eq_some.2 ⟨final, hlast, rfl⟩⟩, ?_, ?_⟩
  · exact (Trace.guarded_cons_of_step hstep).mpr
      ⟨openTurn_valid (some 56), openTurn_repair_valid none, trivial⟩
  have hfile : final.file = some (Utf8.encode
      (text [openTurnHeaderText, openTurnText ++ openTurnCloserText] ++ [])) := by
    have hline : (Utf8.encode (text [openTurnText])).take 56 = Utf8.encode openTurnText := by
      have hkept : (text [openTurnText]).take 56 = openTurnText := by decide
      have hbytes : (Utf8.encode openTurnText).length = 56 := by decide
      have htake := Utf8.take_encode_of_boundary (text [openTurnText]) 56
      rwa [hkept, hbytes] at htake
    rw [hfinal, hinv.load_fst rfl openTurnCodec_header, openedTurn_file]
    simp only [create, Option.map_some, appendLines, reached]
    apply congrArg some
    show Utf8.encode (openTurnHeaderText ++ ['\n']) ++ (Utf8.encode (text [openTurnText])).take 56 ++
      Utf8.encode (text [openTurnCloserText]) = _
    rw [hline, ← Utf8.encode_append, ← Utf8.encode_append]
    simp [text_cons]
  have hread : readArtifact openTurnCodec final.file =
      .error (.message "session artifact contains a corrupt committed event line") := by
    have hevents : readEvents openTurnCodec [openTurnText ++ openTurnCloserText ++ ['\n']] [] =
        .error (.message "session artifact contains a corrupt committed event line") := by
      have htrim : trimLineEnd (openTurnText ++ openTurnCloserText ++ ['\n']) =
          openTurnText ++ openTurnCloserText := by decide
      have hparse : openTurnCodec.event.parse (openTurnText ++ openTurnCloserText) = none := by
        have hfirst : openTurnText ++ openTurnCloserText ≠ openTurnText := by decide
        have hsecond : openTurnText ++ openTurnCloserText ≠ openTurnCloserText := by decide
        simp only [openTurnCodec, if_neg hfirst, if_neg hsecond]
      have hnonempty : (openTurnText ++ openTurnCloserText).isEmpty = false := by decide
      simp only [readEvents, htrim, hparse, hnonempty, getLast?_concat, if_true, if_false,
        Bool.false_eq_true]
    have hrecords : ∀ record ∈ [openTurnText ++ openTurnCloserText], '\n' ∉ record := by decide
    have hheader : openTurnHeader.version = sessionFormatVersion := rfl
    have hlines := readArtifact_lines hheader openTurnCodec_header hrecords not_mem_nil
    rw [if_pos rfl, append_nil, append_nil, map_singleton, hevents] at hlines
    rw [hfile, append_nil]
    exact hlines
  have hload := load_of_unreadable hread none
  refine ⟨hload, fun hrecoverable => ?_⟩
  have hloads := hrecoverable.loads.symm.trans hload
  cases hloads

end OpenTurn

end Keel.Session
