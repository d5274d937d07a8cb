import Keel.Foundation.Trace
import Keel.Foundation.Lists
import Keel.Engine.JournalRecovery

/-! # Subscribing to a chat

Publishing appends an event to the journal and then sends it to the chat's hub; subscribing attaches
a receiver to the hub and then replays the journal. The replay reads the file while it grows, so it
may find a line half written. An event may reach the subscriber both ways, or only by the way that
comes later.
-/

namespace Keel

open List Utf8

inductive Publisher where
  | idle
  /-- The append has written `cut` bytes of the event's line. -/
  | writing (event : AgentEvent) (cut : Nat)
  /-- The append has returned; the hub does not have the event yet. -/
  | appended (line : JournalLine)
deriving DecidableEq

/-- The run that publishes to a chat, and one subscriber of it. -/
structure PublishRun where
  /-- The journal up to the last append that has returned. -/
  journal : RunJournal
  publisher : Publisher
  /-- The chat has a hub. -/
  hub : Bool
  /-- What the subscriber's receiver has got, once it is attached. -/
  receiver : Option (List JournalLine)
  /-- What the subscriber has replayed. -/
  replayed : Option (Except JournalError (List JournalLine))

inductive PublishAction where
  | publish (event : AgentEvent)
  | write (cut : Nat)
  | finish
  | send
  /-- Another subscriber makes the hub. -/
  | openHub
  | attach
  | replay

def PublishAction.published : PublishAction → List AgentEvent
  | .publish event => [event]
  | _ => []

namespace PublishRun

variable (codec : JournalCodec) (chatId : String) (after : Nat)

def onDisk (run : PublishRun) : RunJournal :=
  match run.publisher with
  | .writing event cut => run.journal.tornAppend codec chatId event cut
  | .idle | .appended _ => run.journal

def step (run : PublishRun) : PublishAction → Option PublishRun
  | .publish event =>
    match run.publisher with
    | .idle => some { run with publisher := .writing event 0 }
    | _ => none
  | .write cut =>
    match run.publisher with
    | .writing event written =>
      if written ≤ cut then some { run with publisher := .writing event cut } else none
    | _ => none
  | .finish =>
    match run.publisher with
    | .writing event _ =>
      match run.journal.append codec chatId event with
      | (journal, .ok seq) => some { run with journal, publisher := .appended (seq, event) }
      | (journal, .error _) => some { run with journal, publisher := .appended (0, event) }
    | _ => none
  | .send =>
    match run.publisher with
    | .appended line => some { run with
        publisher := .idle
        receiver := if run.hub then run.receiver.map fun live => live ++ [line]
          else run.receiver }
    | _ => none
  | .openHub => some { run with hub := true }
  | .attach =>
    match run.receiver with
    | none => some { run with hub := true, receiver := some [] }
    | some _ => none
  | .replay =>
    match run.receiver, run.replayed with
    | some _, none =>
      some { run with replayed := some ((run.onDisk codec chatId).replay codec chatId after) }
    | _, _ => none

/-- The number of the last event in the file. -/
def lastSeq (run : PublishRun) : Nat :=
  match (run.onDisk codec chatId).lastEvent codec chatId with
  | .ok (some line) => line.1
  | _ => 0

/-- The subscriber's cursor is not ahead of the journal when it subscribes. -/
def Cursor (run : PublishRun) : PublishAction → Prop
  | .attach => after ≤ run.lastSeq codec chatId
  | _ => True

instance (run : PublishRun) : ∀ action, Decidable (run.Cursor codec chatId after action)
  | .attach => inferInstanceAs (Decidable (_ ≤ _))
  | .publish _ | .write _ | .finish | .send | .openHub | .replay => isTrue trivial

def init (hub : Bool) (journal : RunJournal) : PublishRun :=
  { journal, publisher := .idle, hub, receiver := none, replayed := none }

/-- The events that are published or being published. -/
def begun (run : PublishRun) (events : List AgentEvent) : List AgentEvent :=
  match run.publisher with
  | .writing event _ => events ++ [event]
  | .idle | .appended _ => events

/-- The events whose lines are complete in the file. -/
def onFile (run : PublishRun) (events : List AgentEvent) : List AgentEvent :=
  match run.publisher with
  | .writing event cut =>
    if (encode (codec.print (events.length + 1, event))).length ≤ cut then
      events ++ [event]
    else events
  | .idle | .appended _ => events

def sent (run : PublishRun) (events : List AgentEvent) : Nat :=
  match run.publisher with
  | .appended _ => events.length - 1
  | .idle | .writing .. => events.length

/-- What the receiver gets begins before the end of what was replayed. -/
structure Attached (codec : JournalCodec) (after : Nat) (events : List AgentEvent)
    (run : PublishRun) (start : Nat) (live : List JournalLine) : Prop where
  hub : run.hub = true
  begins : start ≤ run.sent events ∧ after ≤ start + 1
  cursor : after ≤ (run.onFile codec events).length
  live : live = ((numbered events).take (run.sent events)).drop start
  replayed : ∀ lines, run.replayed = some (.ok lines) →
    ∃ seen, seen <+: run.begun events ∧ start ≤ seen.length ∧
      lines = (numbered seen).filter fun line => after < line.1

/-- What holds between two steps, when the appends of `events` have returned. -/
structure Streams (codec : JournalCodec) (chatId : String) (after : Nat)
    (events : List AgentEvent) (run : PublishRun) : Prop where
  journal : JournalInv codec chatId events run.journal
  appended : ∀ line, run.publisher = .appended line → ∃ init, numbered events = init ++ [line]
  detached : run.receiver = none → run.replayed = none
  attached : ∀ live, run.receiver = some live → ∃ start, run.Attached codec after events start live

variable {codec : JournalCodec} {chatId : String} {after : Nat} {events : List AgentEvent}
  {run next : PublishRun}

variable {event : AgentEvent} {lines : List JournalLine}

/-- A reader finds the complete lines of a file that is being appended to, or nothing it can
read. -/
theorem torn_lines {journal : RunJournal} (hinv : JournalInv codec chatId events journal)
    (hlines : ∀ line ∈ numbered (events ++ [event]), codec.Prints line) {cut : Nat}
    (hread : readLines codec ((journal.tornAppend codec chatId event cut).fileFor chatId) =
      .ok lines) : lines = wholeLines codec events event cut := by
  have hbefore : ∀ line ∈ numbered events, codec.Prints line := fun line hline =>
    hlines line (mem_numbered_append hline _)
  rw [(hinv.tornAppend hbefore event cut).file] at hread
  rcases Nat.le_total cut
    (encode (codec.print (events.length + 1, event) ++ ['\n'])).length with hle | hle
  · have htext := (readLines_isOk_iff codec).mp ⟨lines, hread⟩
    rw [decode_encode_append_isSome_iff, decode_take_isSome_iff hle] at htext
    rw [readLines_torn hlines htext] at hread
    exact (Except.ok.inj hread).symm
  · have htext : Records.text ((numbered events).map codec.print) ++
        (codec.print (events.length + 1, event) ++ ['\n']) =
        Records.text ((numbered (events ++ [event])).map codec.print) := by
      simp [numbered_concat, Records.text_cons]
    rw [take_of_length_le hle, ← encode_append, htext, readLines_complete hlines] at hread
    have hwhole : (encode (codec.print (events.length + 1, event))).length ≤ cut := by
      rw [encode_append, length_append] at hle
      omega
    rw [wholeLines, if_pos hwhole]
    exact (Except.ok.inj hread).symm

section
variable (hinv : JournalInv codec chatId events run.journal)
    (hlines : ∀ line ∈ numbered (run.begun events), codec.Prints line)
include hinv hlines

theorem onDisk_lines
    (hread : readLines codec ((run.onDisk codec chatId).fileFor chatId) = .ok lines) :
    lines = numbered (run.onFile codec events) := by
  cases hpublisher : run.publisher with
  | writing event cut =>
    simp only [begun, onDisk, onFile, hpublisher] at hlines hread ⊢
    rw [torn_lines hinv hlines hread, wholeLines]
    split <;> rfl
  | idle | appended =>
    simp only [begun, onDisk, onFile, hpublisher] at hlines hread ⊢
    rw [readLines_file hlines hinv.file] at hread
    exact (Except.ok.inj hread).symm

theorem lastSeq_le : run.lastSeq codec chatId ≤ (run.onFile codec events).length := by
  rw [PublishRun.lastSeq, RunJournal.lastEvent]
  cases hread : readLines codec ((run.onDisk codec chatId).fileFor chatId) with
  | error error => exact Nat.zero_le _
  | ok lines =>
    have hlast := getLast?_numbered (run.onFile codec events)
    obtain rfl := onDisk_lines hinv hlines hread
    simp only
    cases hfound : (numbered (run.onFile codec events)).getLast? with
    | none => exact Nat.zero_le _
    | some line =>
      rw [hfound, Option.map_some, Option.getD_some] at hlast
      exact hlast.le

theorem onDisk_replay (hcursor : after ≤ (run.onFile codec events).length)
    (hreplay : (run.onDisk codec chatId).replay codec chatId after = .ok lines) :
    lines = (numbered (run.onFile codec events)).filter fun line => after < line.1 := by
  cases hread : readLines codec ((run.onDisk codec chatId).fileFor chatId) with
  | error error =>
    rw [RunJournal.replay, hread] at hreplay
    cases hreplay
  | ok found =>
    obtain rfl := onDisk_lines hinv hlines hread
    rw [replay_numbered hread, if_neg (Nat.not_lt.mpr hcursor)] at hreplay
    exact (Except.ok.inj hreplay).symm

end

theorem sent_le (codec : JournalCodec) (run : PublishRun) (events : List AgentEvent) :
    run.sent events ≤ events.length ∧ events.length ≤ (run.onFile codec events).length ∧
      (run.onFile codec events).length ≤ run.sent events + 1 := by
  cases hpublisher : run.publisher with
  | writing event cut =>
    simp only [sent, onFile, hpublisher]
    split
    · simp
    · simp
  | idle | appended =>
    simp only [sent, onFile, hpublisher]
    omega

theorem onFile_prefix (codec : JournalCodec) (run : PublishRun) (events : List AgentEvent) :
    run.onFile codec events <+: run.begun events := by
  cases hpublisher : run.publisher with
  | writing event cut =>
    simp only [begun, onFile, hpublisher]
    split
    · exact prefix_rfl
    · exact prefix_append events [event]
  | idle | appended =>
    simp only [begun, onFile, hpublisher]
    exact prefix_rfl

section
variable (hstreams : Streams codec chatId after events run)
include hstreams

theorem Streams.publish (hidle : run.publisher = .idle) (event : AgentEvent) :
    Streams codec chatId after events { run with publisher := .writing event 0 } := by
  refine ⟨hstreams.journal, by simp, hstreams.detached, fun live hlive => ?_⟩
  obtain ⟨start, hub, hbegins, hcursor, hsent, hreplayed⟩ := hstreams.attached live hlive
  simp only [sent, onFile, begun, hidle] at hbegins hcursor hsent hreplayed
  refine ⟨start, hub, hbegins, ?_, hsent, fun lines hlines => ?_⟩
  · simp only [onFile]
    split
    · exact hcursor.trans (length_append ▸ Nat.le_add_right _ _)
    · exact hcursor
  · obtain ⟨seen, hprefix, hread⟩ := hreplayed lines hlines
    exact ⟨seen, hprefix.trans (prefix_append events [event]), hread⟩

theorem Streams.write {written cut : Nat} (hwriting : run.publisher = .writing event written)
    (hle : written ≤ cut) :
    Streams codec chatId after events { run with publisher := .writing event cut } := by
  refine ⟨hstreams.journal, by simp, hstreams.detached, fun live hlive => ?_⟩
  obtain ⟨start, hub, hbegins, hcursor, hsent, hreplayed⟩ := hstreams.attached live hlive
  simp only [sent, onFile, begun, hwriting] at hbegins hcursor hsent hreplayed
  refine ⟨start, hub, hbegins, ?_, hsent, hreplayed⟩
  simp only [onFile]
  split at hcursor
  next hwhole => rwa [if_pos (hwhole.trans hle)]
  · split
    · exact hcursor.trans (length_append ▸ Nat.le_add_right _ _)
    · exact hcursor

theorem Streams.finish {written : Nat} (hwriting : run.publisher = .writing event written)
    (hlines : ∀ line ∈ numbered events, codec.Prints line) :
    Streams codec chatId after (events ++ [event])
      { run with journal := (run.journal.append codec chatId event).1
                 publisher := .appended (events.length + 1, event) } := by
  refine ⟨hstreams.journal.append_self hlines, ?_, hstreams.detached, fun live hlive => ?_⟩
  · intro line hline
    cases hline
    exact ⟨numbered events, numbered_concat events event⟩
  · obtain ⟨start, hub, hbegins, hcursor, hsent, hreplayed⟩ := hstreams.attached live hlive
    simp only [sent, onFile, begun, hwriting] at hbegins hcursor hsent hreplayed
    refine ⟨start, hub, ?_, ?_, ?_, hreplayed⟩
    · simpa [sent] using hbegins
    · simp only [onFile]
      split at hcursor
      · exact hcursor
      · exact hcursor.trans (length_append ▸ Nat.le_add_right _ _)
    · simp only [sent, length_append, length_singleton, Nat.add_sub_cancel]
      rw [hsent, numbered_concat, take_append_of_le_length (by simp [numbered])]

end

theorem Streams.send (hstreams : Streams codec chatId after events run) {line : JournalLine}
    (happended : run.publisher = .appended line) :
    Streams codec chatId after events
      { run with publisher := .idle
                 receiver := if run.hub then run.receiver.map fun live => live ++ [line]
                   else run.receiver } := by
  refine ⟨hstreams.journal, by simp, fun hnone => ?_, fun live hlive => ?_⟩
  · refine hstreams.detached ?_
    dsimp only at hnone
    split at hnone
    · exact Option.map_eq_none_iff.mp hnone
    · exact hnone
  · cases hreceiver : run.receiver with
    | none => simp [hreceiver] at hlive
    | some before =>
      obtain ⟨start, hub, hbegins, hcursor, hsent, hreplayed⟩ :=
        hstreams.attached before hreceiver
      obtain ⟨init, hinit⟩ := hstreams.appended line happended
      simp only [sent, onFile, begun, happended] at hbegins hcursor hsent hreplayed
      have hlength : events.length = init.length + 1 := by
        simpa [numbered] using congrArg List.length hinit
      have hstart : start ≤ init.length := by omega
      obtain rfl : before ++ [line] = live := by simpa [hub, hreceiver] using hlive
      refine ⟨start, hub, ⟨?_, hbegins.2⟩, hcursor, ?_, hreplayed⟩
      · simp only [sent]
        omega
      · simp only [sent, hsent, hinit, hlength, Nat.add_sub_cancel]
        rw [take_append_of_le_length (Nat.le_refl _), take_length,
          take_of_length_le (by simp), drop_append_of_le_length hstart]

theorem Streams.attach (hstreams : Streams codec chatId after events run)
    (hdetached : run.receiver = none)
    (hlines : ∀ line ∈ numbered (run.begun events), codec.Prints line)
    (hcursor : after ≤ run.lastSeq codec chatId) :
    Streams codec chatId after events { run with hub := true, receiver := some [] } := by
  refine ⟨hstreams.journal, hstreams.appended, by simp, fun live hlive => ?_⟩
  cases hlive
  have hbehind := hcursor.trans (lastSeq_le hstreams.journal hlines)
  obtain ⟨-, -, hsent⟩ := sent_le codec run events
  refine ⟨run.sent events, rfl, ⟨Nat.le_refl _, hbehind.trans hsent⟩, hbehind, ?_, ?_⟩
  · exact (drop_of_length_le (length_take_le _ _)).symm
  · intro lines hreplayed
    rw [hstreams.detached hdetached] at hreplayed
    cases hreplayed

theorem Streams.replay (hstreams : Streams codec chatId after events run)
    {found : List JournalLine} (hattached : run.receiver = some found)
    (hlines : ∀ line ∈ numbered (run.begun events), codec.Prints line) :
    Streams codec chatId after events
      { run with replayed := some ((run.onDisk codec chatId).replay codec chatId after) } := by
  refine ⟨hstreams.journal, hstreams.appended, by simp [hattached], fun live hlive => ?_⟩
  obtain ⟨start, hattached⟩ := hstreams.attached live hlive
  refine ⟨start, { hattached with replayed := fun lines hread => ?_ }⟩
  obtain ⟨hsent, hfile, -⟩ := sent_le codec run events
  exact ⟨_, onFile_prefix codec run events, (hattached.begins.1.trans hsent).trans hfile,
    onDisk_replay hstreams.journal hlines hattached.cursor (Option.some.inj hread)⟩

theorem begun_prints {first : List AgentEvent} {rest : List AgentEvent}
    (hlines : ∀ line ∈ numbered (first ++ rest), codec.Prints line) :
    ∀ line ∈ numbered first, codec.Prints line :=
  fun line hline => hlines line (mem_numbered_append hline rest)

theorem Streams.step (hstreams : Streams codec chatId after events run) {action : PublishAction}
    (hlines : ∀ line ∈ numbered (run.begun events), codec.Prints line)
    (hcursor : run.Cursor codec chatId after action)
    (hstep : run.step codec chatId after action = some next) :
    ∃ later, Streams codec chatId after later next ∧
      next.begun later = run.begun events ++ action.published := by
  cases action with
  | publish event =>
    simp only [PublishRun.step] at hstep
    split at hstep
    next hidle =>
      cases hstep
      refine ⟨events, hstreams.publish hidle event, ?_⟩
      simp only [begun, hidle, PublishAction.published]
    · cases hstep
  | write cut =>
    simp only [PublishRun.step] at hstep
    split at hstep
    next event written hwriting =>
      split at hstep
      next hle =>
        cases hstep
        refine ⟨events, hstreams.write hwriting hle, ?_⟩
        simp only [begun, hwriting, PublishAction.published, append_nil]
      · cases hstep
    · cases hstep
  | finish =>
    simp only [PublishRun.step] at hstep
    split at hstep
    next event written hwriting =>
      have hbegun : run.begun events = events ++ [event] := by simp only [begun, hwriting]
      have hbefore := begun_prints (hbegun ▸ hlines)
      have hseq := hstreams.journal.append_seq hbefore event
      have hlater := hstreams.finish hwriting hbefore
      split at hstep
      next journal seq happend =>
        rw [happend] at hseq hlater
        cases hseq
        cases hstep
        exact ⟨_, hlater, hbegun ▸ (append_nil _).symm⟩
      next journal error happend =>
        rw [happend] at hseq
        cases hseq
    · cases hstep
  | send =>
    simp only [PublishRun.step] at hstep
    split at hstep
    next line happended =>
      cases hstep
      refine ⟨events, hstreams.send happended, ?_⟩
      simp only [begun, happended, PublishAction.published, append_nil]
    · cases hstep
  | openHub =>
    cases hstep
    refine ⟨events, ⟨hstreams.journal, hstreams.appended, hstreams.detached, ?_⟩,
      (append_nil _).symm⟩
    intro live hlive
    obtain ⟨start, hattached⟩ := hstreams.attached live hlive
    exact ⟨start, { hattached with hub := rfl }⟩
  | attach =>
    simp only [PublishRun.step] at hstep
    split at hstep
    next hdetached =>
      cases hstep
      exact ⟨events, hstreams.attach hdetached hlines hcursor, (append_nil _).symm⟩
    · cases hstep
  | replay =>
    simp only [PublishRun.step] at hstep
    split at hstep
    next live hattached hreplayed =>
      cases hstep
      exact ⟨events, hstreams.replay hattached hlines, (append_nil _).symm⟩
    · cases hstep

theorem Streams.runs {final : PublishRun} (hstreams : Streams codec chatId after events run)
    {trace : List PublishAction}
    (hlines : ∀ line ∈ numbered (run.begun events ++ trace.flatMap PublishAction.published),
      codec.Prints line)
    (hguarded : Trace.Guarded (PublishRun.step codec chatId after)
      (Cursor codec chatId after) run trace)
    (hrun : Trace.run (PublishRun.step codec chatId after) run trace = some final) :
    ∃ later, Streams codec chatId after later final ∧
      final.begun later = run.begun events ++ trace.flatMap PublishAction.published := by
  induction trace generalizing events run with
  | nil =>
    obtain rfl : run = final := by simpa using hrun
    exact ⟨events, hstreams, (append_nil _).symm⟩
  | cons action rest ih =>
    obtain ⟨next, hstep, hrest⟩ := Trace.run_cons_eq_some.1 hrun
    obtain ⟨later, hlater, hbegun⟩ := hstreams.step (begun_prints hlines) hguarded.head hstep
    rw [flatMap_cons, ← append_assoc, ← hbegun] at hlines ⊢
    exact ih hlater hlines (hguarded.tail hstep) hrest

theorem numbered_nodup (events : List AgentEvent) : ((numbered events).map Prod.fst).Nodup := by
  rw [List.Nodup, pairwise_iff_getElem]
  intro first second hfirst hsecond hlt
  simp only [numbered, getElem_map, getElem_mapIdx]
  omega

/-- A subscriber whose receiver and replay meet has every event behind its cursor. -/
theorem Attached.union {start : Nat} {live : List JournalLine}
    (hattached : Attached codec after events run start live) (hidle : run.publisher = .idle)
    (hreplayed : run.replayed = some (.ok lines)) :
    Lists.dedupOn Prod.fst ((lines ++ live).filter fun line => after < line.1) =
        (numbered events).filter (fun line => after < line.1) ∧
      ∀ line ∈ lines ++ live, line ∈ numbered events ∧ after ≤ line.1 := by
  obtain ⟨-, ⟨-, hstart⟩, -, hlive, hread⟩ := hattached
  obtain ⟨seen, ⟨rest, hprefix⟩, hmeet, hlines⟩ := hread lines hreplayed
  have hbegun : run.begun events = events := by simp only [begun, hidle]
  have hsent : run.sent events = events.length := by simp only [sent, hidle]
  have hall : (numbered events).length = events.length := length_mapIdx
  have hseen : numbered seen = (numbered events).take seen.length := by
    rw [← hbegun, ← hprefix]
    simp [numbered, mapIdx_append]
  rw [hsent, take_of_length_le hall.le] at hlive
  rw [hseen] at hlines
  subst hlive hlines
  constructor
  · rw [filter_append, filter_filter]
    simp only [Bool.and_self]
    exact Lists.dedupOn_overlap (numbered_nodup events) hmeet _
  · rw [forall_mem_append]
    constructor
    · intro line hline
      obtain ⟨hmem, hbehind⟩ := mem_filter.mp hline
      exact ⟨mem_of_mem_take hmem, (of_decide_eq_true hbehind).le⟩
    · intro line hline
      refine ⟨mem_of_mem_drop hline, ?_⟩
      obtain ⟨index, hindex, rfl⟩ := mem_drop_iff_getElem.mp hline
      simp only [numbered, getElem_mapIdx]
      omega

/-- With appends that succeed and a receiver that does not lag, what a subscriber has replayed and
received are the events behind its cursor, each once and in order, and at most the event at the
cursor besides. -/
theorem subscription_without_gaps (codec : JournalCodec) (chatId : String) (after : Nat)
    {fresh : RunJournal} (hfile : fresh.fileFor chatId = none) (hopen : fresh.openFiles = ∅)
    (hreadable : ∀ (stem : String) (bytes : List UInt8), fresh.files[stem]? = some bytes →
      (Utf8.decode bytes).isSome = true)
    (earlier : List JournalAction)
    (hother : ∀ id event, JournalAction.append id event ∈ earlier →
      sanitizeId id = sanitizeId chatId → id = chatId)
    (hub : Bool) (trace : List PublishAction)
    (hlines : ∀ line ∈ numbered (appendedTo chatId earlier ++
      trace.flatMap PublishAction.published), codec.Prints line)
    (hguarded : Trace.Guarded (step codec chatId after) (Cursor codec chatId after)
      (init hub (fresh.performAll codec earlier)) trace)
    {final : PublishRun}
    (hrun : Trace.run (step codec chatId after) (init hub (fresh.performAll codec earlier)) trace =
      some final)
    (hidle : final.publisher = .idle) {lines live : List JournalLine}
    (hreplayed : final.replayed = some (.ok lines)) (hreceiver : final.receiver = some live) :
    Lists.dedupOn Prod.fst ((lines ++ live).filter fun line => after < line.1) =
        (numbered (appendedTo chatId earlier ++ trace.flatMap PublishAction.published)).filter
          (fun line => after < line.1) ∧
      ∀ line ∈ lines ++ live, line ∈ numbered (appendedTo chatId earlier ++
        trace.flatMap PublishAction.published) ∧ after ≤ line.1 := by
  have hinv := (journalInv_start hfile hopen hreadable).performAll hother (begun_prints hlines)
  have hstart : Streams codec chatId after (appendedTo chatId earlier)
      (init hub (fresh.performAll codec earlier)) :=
    ⟨hinv, by simp [init], fun _ => rfl, by simp [init]⟩
  obtain ⟨later, hlater, hbegun⟩ := hstart.runs hlines hguarded hrun
  obtain ⟨start, hattached⟩ := hlater.attached live hreceiver
  have hevents : final.begun later = later := by simp only [begun, hidle]
  rw [hevents] at hbegun
  obtain rfl : later = _ := hbegun
  exact hattached.union hidle hreplayed

section Examples

/-- The journal lines of a text and the end of its turn. -/
def replyTable : List (JournalLine × List Char) :=
  [((1, .textDelta "Hi"),
    "\x7b\"seq\":1,\"event\":\x7b\"type\":\"textDelta\",\"text\":\"Hi\"\x7d\x7d".toList),
   ((2, .done .completed none none none),
    ("\x7b\"seq\":2,\"event\":\x7b\"type\":\"done\",\"status\":\"completed\"," ++
      "\"result\":null,\"error\":null\x7d\x7d").toList)]

theorem replyTable_objects : Records.Objects replyTable := by
  simp only [replyTable, String.toList_append]
  repeat rw [String.toList_ofList]
  decide +kernel

theorem replyTable_prints :
    ∀ line ∈ numbered [.textDelta "Hi", .done .completed none none none],
      (Records.Codec.ofTable replyTable).Prints line := by
  intro line hline
  obtain ⟨entry, hentry, rfl⟩ := mem_map.mp (show line ∈ replyTable.map Prod.fst from hline)
  exact Records.Codec.ofTable_prints replyTable_objects hentry

/-- A subscriber that has the text attaches before the hub sends it. -/
def replyTrace : List PublishAction :=
  [.publish (.textDelta "Hi"), .write 40, .finish, .attach, .send,
   .publish (.done .completed none none none), .replay, .write 200, .finish, .send]

theorem replyTrace_guarded :
    Trace.Guarded (step (Records.Codec.ofTable replyTable) "chat-1" 1)
      (Cursor (Records.Codec.ofTable replyTable) "chat-1" 1) (init false {}) replyTrace := by
  simp only [replyTable, String.toList_append]
  repeat rw [String.toList_ofList]
  decide +kernel

theorem replyTrace_runs : ∃ final, Trace.run (step (Records.Codec.ofTable replyTable) "chat-1" 1)
      (init false {}) replyTrace = some final ∧ final.publisher = .idle ∧
    final.replayed = some (.ok []) ∧ final.receiver = some [(1, .textDelta "Hi"),
      (2, .done .completed none none none)] := by
  refine ⟨_, rfl, ?_⟩
  decide +kernel

theorem subscription_without_gaps_reply :
    ∃ final, Trace.run (step (Records.Codec.ofTable replyTable) "chat-1" 1) (init false {})
        replyTrace = some final ∧
      ∃ lines live, final.replayed = some (.ok lines) ∧ final.receiver = some live ∧
        Lists.dedupOn Prod.fst ((lines ++ live).filter fun line => 1 < line.1) =
          [(2, .done .completed none none none)] := by
  obtain ⟨final, hrun, hidle, hreplayed, hreceiver⟩ := replyTrace_runs
  refine ⟨final, hrun, _, _, hreplayed, hreceiver, ?_⟩
  exact (subscription_without_gaps (Records.Codec.ofTable replyTable) "chat-1" 1 rfl rfl
    (fun stem bytes hbytes => by cases hbytes) [] (by simp) false replyTrace
    replyTable_prints replyTrace_guarded hrun hidle hreplayed hreceiver).1

/-- The hub sends the event at the cursor again. -/
theorem subscription_repeats_cursor :
    (∀ line ∈ numbered (replyTrace.flatMap PublishAction.published),
      (Records.Codec.ofTable replyTable).Prints line) ∧
    Trace.Guarded (step (Records.Codec.ofTable replyTable) "chat-1" 1)
      (Cursor (Records.Codec.ofTable replyTable) "chat-1" 1) (init false {}) replyTrace ∧
    ∃ final, Trace.run (step (Records.Codec.ofTable replyTable) "chat-1" 1) (init false {})
        replyTrace = some final ∧ final.publisher = .idle ∧
      ∃ lines live, final.replayed = some (.ok lines) ∧ final.receiver = some live ∧
        Lists.dedupOn Prod.fst (lines ++ live) ≠
          (numbered (replyTrace.flatMap PublishAction.published)).filter
            (fun line => 1 < line.1) := by
  obtain ⟨final, hrun, hidle, hreplayed, hreceiver⟩ := replyTrace_runs
  refine ⟨replyTable_prints, replyTrace_guarded, final, hrun, hidle, _, _, hreplayed, hreceiver,
    fun heq => ?_⟩
  exact absurd (congrArg List.length heq) (by decide)

end Examples

end PublishRun

end Keel
