import Keel.Foundation.Trace
import Keel.Engine.RunTranscript

/-! # Fidelity of a run's transcript

Every path through the event loop either keeps what was heard in the open
segment or ends the segment before the fold is reset. A run that has exited has
written down everything it heard.
-/

namespace Keel

open List

namespace DriveRun

/-- The doc and the fold hold everything the run has heard. -/
def Open (run : DriveRun) : Prop :=
  ∃ pages, Recorded run.transcript run.heard run.seenTools pages run.folded

/-- The doc alone holds everything the run has heard. -/
def Sealed (run : DriveRun) : Prop :=
  ∃ pages, Recorded run.transcript run.heard run.seenTools pages []

/-- What holds between two steps of the loop. -/
def Kept (run : DriveRun) : Prop :=
  match run.phase with
  | .starting => Sealed run ∧ run.folded = [] ∧ run.idleSince = none
  | .running => Open run ∧ (run.idleSince.isSome → run.folded = [])
  | .exited => Sealed run

/-- A run that is about to take in an event: the event's text has been counted,
its tool id noted, and neither is folded yet. -/
structure Hearing (run : DriveRun) (event : AgentEvent) (heard seenTools : List String)
    (pages : List (Nat × List MessagePart)) : Prop where
  recorded : Recorded run.transcript heard seenTools pages run.folded
  heard : run.heard = heard ++ event.deltas
  seen : ∀ id ∈ seenTools, id ∈ run.seenTools
  tools : ∀ id call, event = .toolCall id call → id = livePlanToolId ∨
    (id ∈ run.seenTools ∧ (id ∈ toolIds run.folded ∨ id ∉ seenTools))

variable {setup : RunSetup} {run : DriveRun} {event : AgentEvent} {heard seenTools : List String}
  {pages : List (Nat × List MessagePart)}

theorem Open.finish (hopen : Open run) (setup : RunSetup) {status : MessageStatus}
    (hstatus : status ≠ .streaming) : Sealed (run.finish setup status) := by
  obtain ⟨pages, hrecorded⟩ := hopen
  exact hrecorded.finishSegment run.entryId setup.deviceId run.segmentStarted hstatus

theorem Open.sealed (hopen : Open run) (hfolded : run.folded = []) : Sealed run := by
  obtain ⟨pages, hrecorded⟩ := hopen
  exact ⟨pages, hfolded ▸ hrecorded⟩

theorem Hearing.open (hhearing : Hearing run event heard seenTools pages)
    (hdeltas : event.deltas = []) : Open run := by
  refine ⟨pages, ?_⟩
  rw [hhearing.heard]
  refine hhearing.recorded.grow (PartsGrow.refl _) ?_ (fun id hid => .inl hid) hhearing.seen
    hhearing.recorded.bare
  simp [hdeltas]

theorem Hearing.foldEvent [LineDiff] (hhearing : Hearing run event heard seenTools pages)
    (hevent : event.clears = false) :
    Open { run with folded := foldEventIntoParts run.folded event } := by
  refine ⟨pages, ?_⟩
  simp only [hhearing.heard]
  refine hhearing.recorded.grow (foldEventIntoParts_grows run.folded hevent)
    (partsText_foldEventIntoParts run.folded hevent) ?_ hhearing.seen
    (foldEventIntoParts_bare hhearing.recorded.bare event)
  intro id hid
  rcases toolIds_foldEventIntoParts hid with hold | ⟨call, hcall⟩
  · exact .inl hold
  · rcases hhearing.tools id call hcall with hplan | ⟨hseen, hold | hfresh⟩
    · exact .inr (.inl hplan)
    · exact .inl hold
    · exact .inr (.inr ⟨hfresh, hseen⟩)

theorem Open.settleInputs (hopen : Open run) :
    Open { run with folded := run.folded.map MessagePart.settleInput } := by
  obtain ⟨pages, hrecorded⟩ := hopen
  have htext : partsText (run.folded.map MessagePart.settleInput) =
      partsText run.folded ++ String.join [] := by
    simp [partsText_map settleInput_textOf]
  have htools : toolIds (run.folded.map MessagePart.settleInput) = toolIds run.folded :=
    toolIds_map (fun part => (settleInput_evolves part).toolId?) run.folded
  have hbare : ∀ part ∈ run.folded.map MessagePart.settleInput, part.Bare := by
    intro part hpart
    obtain ⟨old, hold, rfl⟩ := mem_map.mp hpart
    exact settleInput_bare (hrecorded.bare old hold)
  have hsettled := hrecorded.grow (.map_self settleInput_evolves run.folded) htext
    (fun id hid => .inl (htools ▸ hid)) (fun id (hid : id ∈ run.seenTools) => hid) hbare
  rw [append_nil] at hsettled
  exact ⟨pages, hsettled⟩

theorem messageStatus_ne_streaming (status : DoneStatus) : messageStatus status ≠ .streaming := by
  cases status <;> decide

theorem kept_of_running (hphase : run.phase = .running) (hopen : Open run)
    (hparked : run.idleSince.isSome → run.folded = []) : Kept run := by
  unfold Kept
  rw [hphase]
  exact ⟨hopen, hparked⟩

theorem Sealed.exit (hsealed : Sealed run) (status : SessionStatus) : Kept (run.exit status) :=
  hsealed

theorem Sealed.park_kept (hphase : run.phase = .running) (hsealed : Sealed run) (setup : RunSetup)
    (now : Nat) : Kept (run.park setup now) :=
  kept_of_running hphase hsealed fun _ => rfl

theorem turnDone_kept (hphase : run.phase = .running) (hopen : Open run) (setup : RunSetup)
    (now : Nat) (status : DoneStatus) : Kept (run.turnDone setup now status) := by
  unfold turnDone
  extract_lets resolved finished
  have hresolved : Open resolved := hopen.settleInputs
  have hfinished : Sealed finished ∧ finished.phase = .running := by
    unfold finished
    split
    next hidle => exact ⟨hresolved.sealed hidle.2, hphase⟩
    · exact ⟨hresolved.finish setup (messageStatus_ne_streaming status), hphase⟩
  split
  · exact hfinished.1.park_kept hfinished.2 setup now
  · split
    · exact hfinished.1.exit .errored
    · exact hfinished.1.exit .idle
    · exact hfinished.1.exit .idle

theorem steerBoundary_kept (hphase : run.phase = .running) (hopen : Open run)
    (setup : RunSetup) (now : Nat) (event : AgentEvent) (next : Option String) :
    Kept (run.steerBoundary setup now event next) := by
  have hsealed : Sealed (run.finish setup .complete) := hopen.finish setup (by decide)
  cases next with
  | none | some entryId => exact kept_of_running hphase hsealed fun _ => rfl

/-- Two runs with the same record of what was heard. -/
structure SameRecord (run next : DriveRun) : Prop where
  transcript : next.transcript = run.transcript
  heard : next.heard = run.heard
  seenTools : next.seenTools = run.seenTools
  folded : next.folded = run.folded
  phase : next.phase = run.phase

/-- The gate leaves the record alone and opens the run for what it lets
through. -/
theorem parkedGate_frame (setup : RunSetup) (run : DriveRun) (now : Nat) (event : AgentEvent) :
    SameRecord run (run.parkedGate setup now event).1 ∧
      (if (run.parkedGate setup now event).2 then
        (run.parkedGate setup now event).1.idleSince = none
      else run.idleSince.isSome) := by
  unfold parkedGate
  split
  next hidle => exact ⟨⟨rfl, rfl, rfl, rfl, rfl⟩, hidle⟩
  next hidle =>
    split
    · exact ⟨⟨rfl, rfl, rfl, rfl, rfl⟩, rfl⟩
    · split
      · exact ⟨⟨rfl, rfl, rfl, rfl, rfl⟩, rfl⟩
      · exact ⟨⟨rfl, rfl, rfl, rfl, rfl⟩, rfl⟩
      · exact ⟨⟨rfl, rfl, rfl, rfl, rfl⟩, by simp [hidle]⟩
      · exact ⟨⟨rfl, rfl, rfl, rfl, rfl⟩, by simp [hidle]⟩

theorem hears_eq (setup : RunSetup) (run : DriveRun) (now : Nat) (event : AgentEvent) :
    run.hears now event =
      if (run.parkedGate setup now event).2 then event.deltas else [] := by
  cases event with
  | textDelta text =>
    simp only [hears, parkedGate, AgentEvent.deltas]
    cases run.idleSince with
    | none => rfl
    | some parkedAt =>
      by_cases hself : run.selfContinues parkedAt now (.textDelta text) = true <;> simp [hself]
  | _ => simp [hears, AgentEvent.deltas]

theorem markDirty_kept (hphase : run.phase = .running) (hidle : run.idleSince = none)
    (hopen : Open run) (now : Nat) : Kept (run.markDirty now) := by
  unfold markDirty
  split
  · exact kept_of_running hphase hopen (by simp [hidle])
  · exact kept_of_running hphase hopen (by simp [hidle])

theorem foldEvent_phase [LineDiff] (run : DriveRun) (event : AgentEvent) :
    (run.foldEvent event).phase = run.phase ∧ (run.foldEvent event).idleSince = run.idleSince := by
  unfold foldEvent
  split <;> exact ⟨rfl, rfl⟩

/-- Every event but a steer boundary keeps the run open: a session start folds
to nothing, in the middle of a segment or before it. -/
theorem Hearing.open_foldEvent [LineDiff] (hhearing : Hearing run event heard seenTools pages)
    (hsteered : ∀ message next, event ≠ .steered message next) : Open (run.foldEvent event) := by
  unfold DriveRun.foldEvent
  split
  next hskips =>
    cases event with
    | sessionStarted => exact hhearing.open rfl
    | _ => cases hskips
  next hfolds =>
    cases hclears : event.clears with
    | false => exact hhearing.foldEvent hclears
    | true =>
      cases event with
      | sessionStarted =>
        have hempty : run.folded = [] := by simpa [skipsFold] using hfolds
        have hopen := (hhearing.open rfl).sealed hempty
        exact hopen
      | steered message next => exact absurd rfl (hsteered message next)
      | _ => cases hclears

theorem Hearing.noteEvent (hhearing : Hearing run event heard seenTools pages)
    (published : List AgentEvent) :
    Hearing { run.noteEvent event with published } event heard seenTools pages := by
  cases event <;> exact ⟨hhearing.recorded, hhearing.heard, hhearing.seen, hhearing.tools⟩

theorem noteEvent_phase (run : DriveRun) (event : AgentEvent) :
    (run.noteEvent event).phase = run.phase ∧ (run.noteEvent event).idleSince = run.idleSince := by
  cases event <;> exact ⟨rfl, rfl⟩

theorem startupCrash_cases (hcrash : run.startupCrash setup event = true) :
    run.folded = [] ∧ event.deltas = [] := by
  unfold startupCrash at hcrash
  split at hcrash
  · simp only [Bool.and_eq_true, List.isEmpty_iff] at hcrash
    exact ⟨hcrash.1.2, rfl⟩
  · cases hcrash

theorem accept_kept [LineDiff] (hphase : run.phase = .running)
    (hidle : run.idleSince = none) (hhearing : Hearing run event heard seenTools pages)
    (setup : RunSetup) (now : Nat) : Kept (run.accept setup now event) := by
  unfold accept
  split
  -- The retry leaves the loop without finishing a segment; there is none.
  next hcrash =>
    obtain ⟨hempty, hdeltas⟩ := startupCrash_cases hcrash
    exact (hhearing.open hdeltas).sealed hempty
  · have hnoted := hhearing.noteEvent (run.published ++ [event])
    have hframe := foldEvent_phase { run.noteEvent event with published := run.published ++ [event] }
      event
    have hphase' := hframe.1.trans ((noteEvent_phase run event).1.trans hphase)
    have hidle' := hframe.2.trans ((noteEvent_phase run event).2.trans hidle)
    cases event with
    | steered message next => exact steerBoundary_kept hphase (hhearing.open rfl) setup now _ next
    | done status result error sessionId =>
      exact turnDone_kept hphase' (hnoted.open_foldEvent nofun) setup now status
    | _ => exact markDirty_kept hphase' hidle' (hnoted.open_foldEvent nofun) now

theorem inSegment_iff {folded : List MessagePart} {id : String} :
    inSegment folded id = true ↔ id ∈ toolIds folded := by
  simp [inSegment, mem_toolIds]

theorem noteTool_hearing
    (hrecorded : Recorded run.transcript heard run.seenTools pages run.folded)
    (hheard : run.heard = heard ++ event.deltas) (hstale : run.staleEcho event = false) :
    Hearing (run.noteTool event) event heard run.seenTools pages := by
  cases event with
  | toolCall id call =>
    by_cases hplan : id = livePlanToolId
    · refine ⟨by simpa [noteTool, hplan] using hrecorded, by simpa [noteTool, hplan] using hheard,
        by simp [noteTool, hplan], ?_⟩
      rintro _ _ ⟨⟩
      exact .inl hplan
    · refine ⟨by simpa [noteTool, hplan] using hrecorded, by simpa [noteTool, hplan] using hheard,
        ?_, ?_⟩
      · intro other hother
        simp [noteTool, hplan, hother]
      · rintro _ _ ⟨⟩
        refine .inr ⟨by simp [noteTool, hplan], ?_⟩
        have hfresh : inSegment run.folded id = false → id ∉ run.seenTools := by
          simpa [staleEcho, hplan] using hstale
        cases hsegment : inSegment run.folded id with
        | true => exact .inl (by simpa [noteTool, hplan] using inSegment_iff.1 hsegment)
        | false => exact .inr (hfresh hsegment)
  | _ => exact ⟨hrecorded, hheard, fun _ hid => hid, nofun⟩

theorem noteTool_phase (run : DriveRun) (event : AgentEvent) :
    (run.noteTool event).phase = run.phase ∧ (run.noteTool event).idleSince = run.idleSince := by
  cases event with
  | toolCall id call =>
    simp only [noteTool]
    split <;> exact ⟨rfl, rfl⟩
  | _ => exact ⟨rfl, rfl⟩

theorem Kept.open (hkept : Kept run) (hphase : run.phase = .running) :
    Open run ∧ (run.idleSince.isSome → run.folded = []) := by
  unfold Kept at hkept
  rw [hphase] at hkept
  exact hkept

theorem unknownInput_deltas (hunknown : run.unknownInput event = true) : event.deltas = [] := by
  cases event with
  | inputRequested => rfl
  | _ => cases hunknown

theorem staleEcho_deltas (hstale : run.staleEcho event = true) : event.deltas = [] := by
  cases event with
  | toolCall | toolResult => rfl
  | _ => cases hstale

theorem receive_kept [LineDiff] (hphase : run.phase = .running) (hkept : Kept run)
    (setup : RunSetup) (now : Nat) (event : AgentEvent) : Kept (run.receive setup now event) := by
  obtain ⟨⟨pages, hrecorded⟩, hparked⟩ := hkept.open hphase
  unfold receive
  extract_lets active
  have hheard : active.heard = run.heard ++
      if (active.parkedGate setup now event).2 then event.deltas else [] :=
    congrArg (run.heard ++ ·) (hears_eq setup active now event)
  have hsilent : event.deltas = [] → Kept active := by
    intro hdeltas
    refine kept_of_running hphase ⟨pages, ?_⟩ hparked
    rw [hheard, hdeltas, ite_self, append_nil]
    exact hrecorded
  split
  · exact hsilent rfl
  · split
    next hunknown => exact hsilent (unknownInput_deltas hunknown)
    · obtain ⟨hsame, hgate⟩ := parkedGate_frame setup active now event
      generalize active.parkedGate setup now event = outcome at hheard hsame hgate ⊢
      obtain ⟨gated, passes⟩ := outcome
      simp only at hheard hsame hgate ⊢
      have hgatedPhase : gated.phase = .running := hsame.phase.trans hphase
      have hgatedHeard := hsame.heard.trans hheard
      have hgatedRecord : Recorded gated.transcript run.heard gated.seenTools pages gated.folded := by
        rw [hsame.transcript, hsame.seenTools, hsame.folded]
        exact hrecorded
      -- A dropped event has no text, or came while the run was parked.
      have hdropped : (passes = true → event.deltas = []) → Kept gated := by
        intro hnothing
        refine kept_of_running hgatedPhase ⟨pages, ?_⟩ ?_
        · rw [hgatedHeard]
          cases passes with
          | false => simpa using hgatedRecord
          | true => simpa [hnothing rfl] using hgatedRecord
        · intro hidle
          cases passes with
          | false => exact hsame.folded.trans (hparked hgate)
          | true => simp [show gated.idleSince = none from hgate] at hidle
      split
      next hdrop =>
        apply hdropped
        rintro rfl
        simp only [Bool.not_true, Bool.false_or, Bool.or_eq_true, beq_iff_eq] at hdrop
        rcases hdrop with rfl | hstale
        · rfl
        · exact staleEcho_deltas hstale
      next hpass =>
        simp only [Bool.or_eq_true, Bool.not_eq_true', not_or, Bool.not_eq_false,
          Bool.not_eq_true] at hpass
        obtain ⟨⟨rfl, -⟩, hstale⟩ := hpass
        obtain ⟨hnotePhase, hnoteIdle⟩ := noteTool_phase gated event
        exact accept_kept (hnotePhase.trans hgatedPhase) (hnoteIdle.trans hgate)
          (noteTool_hearing hgatedRecord hgatedHeard hstale) setup now

theorem select_kept [LineDiff] {next : DriveRun} {action : DriveAction}
    (hphase : run.phase = .running) (hkept : Kept run)
    (hselect : run.select setup action = some next) : Kept next := by
  obtain ⟨hopen, hparked⟩ := hkept.open hphase
  cases action with
  | cancel now =>
    simp only [select] at hselect
    split at hselect
    · cases hselect
    · cases hselect
      exact kept_of_running hphase hopen hparked
  | deadline now =>
    simp only [select] at hselect
    split at hselect
    · split at hselect
      · cases hselect
        exact receive_kept hphase hkept setup now _
      · cases hselect
    · cases hselect
  | heartbeat =>
    cases hselect
    exact hkept
  | reap now =>
    simp only [select] at hselect
    split at hselect
    next hidle =>
      split at hselect
      · cases hselect
        exact (hopen.sealed (hparked (by simp [hidle]))).exit .idle
      · cases hselect
    · cases hselect
  | event now event =>
    cases hselect
    exact receive_kept hphase hkept setup now event
  | streamError now message =>
    simp only [select] at hselect
    split at hselect
    next hidle =>
      cases hselect
      exact (hopen.sealed (hparked hidle)).exit .idle
    · cases hselect
      exact receive_kept hphase hkept setup now _
  | streamEnd now =>
    simp only [select] at hselect
    split at hselect
    · cases hselect
      exact receive_kept hphase hkept setup now _
    · split at hselect
      next hidle =>
        cases hselect
        exact (hopen.sealed (hparked hidle)).exit .idle
      · cases hselect
        exact receive_kept hphase hkept setup now _
  | flush now =>
    simp only [select] at hselect
    split at hselect
    · cases hselect
      obtain ⟨pages, hrecorded⟩ := hopen
      exact kept_of_running hphase
        ⟨pages, hrecorded.syncSegment run.entryId setup.deviceId run.segmentStarted⟩ hparked
    · cases hselect
  | quiesce now =>
    simp only [select] at hselect
    split at hselect
    · cases hselect
      unfold quiesce
      extract_lets finished
      have hfinished : Sealed finished ∧ finished.phase = .running := by
        unfold finished
        split
        · exact ⟨hopen.finish setup (by decide), hphase⟩
        next hidle => exact ⟨hopen.sealed (not_not.mp (not_or.mp hidle).1), hphase⟩
      exact hfinished.1.park_kept hfinished.2 setup now
    · cases hselect
  | _ => cases hselect

theorem append_kept (hkept : Kept run) (entry : EntryMap) :
    Kept { run with transcript.doc.messages := run.transcript.doc.messages ++ [entry] } := by
  unfold Kept at hkept ⊢
  cases hphase : run.phase with
  | starting =>
    rw [hphase] at hkept
    obtain ⟨⟨pages, hrecorded⟩, hempty⟩ := hkept
    exact ⟨⟨pages, hrecorded.appendEntry entry⟩, hempty⟩
  | running =>
    rw [hphase] at hkept
    obtain ⟨⟨pages, hrecorded⟩, hparked⟩ := hkept
    exact ⟨⟨pages, hrecorded.appendEntry entry⟩, hparked⟩
  | exited =>
    rw [hphase] at hkept
    obtain ⟨pages, hrecorded⟩ := hkept
    exact ⟨pages, hrecorded.appendEntry entry⟩

theorem step_kept [LineDiff] {next : DriveRun} {action : DriveAction} (hkept : Kept run)
    (hstep : run.step setup action = some next) : Kept next := by
  unfold step at hstep
  split at hstep
  next entry =>
    cases hstep
    exact append_kept hkept entry
  · cases hstep
    exact hkept
  · split at hstep
    · cases hstep
    next hphase =>
      unfold Kept at hkept
      rw [hphase] at hkept
      obtain ⟨hsealed, hfolded, hidle⟩ := hkept
      split at hstep
      · cases hstep
        refine kept_of_running rfl ?_ (by simp [hidle])
        obtain ⟨pages, hrecorded⟩ := hsealed
        exact ⟨pages, hfolded ▸ hrecorded⟩
      · cases hstep
        exact hsealed
      · cases hstep
    next hphase => exact select_kept hphase hkept hstep

theorem start_kept (setup : RunSetup) (doc : SessionDoc) : Kept (start setup doc) := by
  refine ⟨⟨[], ?_⟩, rfl, rfl⟩
  exact ⟨rfl, .nil, by simp [start], by simp, by simp [start], by simp [start],
    pairwise_singleton _ _, by simp [toolIds], by simp⟩

theorem partsText_entries {entries : List SessionMessageEntry}
    {pages : List (Nat × List MessagePart)}
    (hreads : List.Forall₂ (fun entry page => EntryReads entry page.2) entries pages) :
    partsText (entries.flatMap fun entry => entry.parts) = partsText (pages.flatMap Prod.snd) := by
  induction hreads with
  | nil => rfl
  | cons hhead htail ih => simp [hhead.text, ih]

section Faithfulness

variable [Serde]

/-- The entries the run wrote, in the order it began them. -/
def entries (run : DriveRun) : List SessionMessageEntry :=
  run.transcript.begun.filterMap fun index => run.transcript.doc.readEntries[index]?

/-- The transcript of a run is faithful: its entries are all there, say exactly
what was heard, share no tool but the live plan, and none is streaming or
empty. -/
structure Faithful (run : DriveRun) : Prop where
  present : run.entries.length = run.transcript.begun.length
  text : partsText (run.entries.flatMap fun entry => entry.parts) = String.join run.heard
  tools : run.entries.Pairwise fun earlier later => ToolsApart earlier.parts later.parts
  settled : ∀ entry ∈ run.entries, entry.status ≠ some .streaming
  nonempty : ∀ entry ∈ run.entries, entry.parts ≠ []

theorem filterMap_reads {doc : SessionDoc} {pages : List (Nat × List MessagePart)}
    (hfinished : ∀ page ∈ pages, Finished doc page.1 page.2) :
    List.Forall₂ (fun entry page => EntryReads entry page.2)
      ((pages.map Prod.fst).filterMap fun index => doc.readEntries[index]?) pages := by
  induction pages with
  | nil => exact .nil
  | cons page rest ih =>
    rw [forall_mem_cons] at hfinished
    obtain ⟨entry, hentry, hreads⟩ := hfinished.1.reads
    rw [map_cons, filterMap_cons_some hentry]
    exact .cons hreads (ih hfinished.2)

theorem Sealed.faithful {run : DriveRun} (hsealed : Sealed run) : Faithful run := by
  obtain ⟨pages, hrecorded⟩ := hsealed
  have hbegun : run.transcript.begun = pages.map Prod.fst := by
    simpa [hrecorded.writer_eq_none] using hrecorded.begun
  have hreads := filterMap_reads hrecorded.finished
  rw [← hbegun] at hreads
  change List.Forall₂ _ run.entries pages at hreads
  have hread : ∀ entry ∈ run.entries, ∃ page ∈ pages, EntryReads entry page.2 :=
    fun entry hentry => Lists.exists_of_mem_left hreads hentry
  refine ⟨?_, ?_, ?_, ?_, ?_⟩
  · rw [hreads.length_eq, hbegun, length_map]
  · simpa [partsText_entries hreads] using hrecorded.text.symm
  · have hapart := pairwise_map.mp (pairwise_append.mp hrecorded.apart).1
    refine Lists.pairwise_of_forall₂ ?_ hreads hapart
    intro earlier page later page' hearlier hlater htools id hid hid'
    exact htools id (hearlier.tools id hid) (hlater.tools id hid')
  · intro entry hentry
    obtain ⟨page, -, hreads⟩ := hread entry hentry
    exact hreads.settled
  · intro entry hentry
    obtain ⟨page, -, hreads⟩ := hread entry hentry
    exact hreads.nonempty

/-- Every run that exits leaves a faithful transcript. -/
theorem exited_faithful [LineDiff] (setup : RunSetup) (doc : SessionDoc)
    (trace : List DriveAction) (final : DriveRun)
    (hrun : Trace.run (DriveRun.step setup) (start setup doc) trace = some final)
    (hexited : final.phase = .exited) : Faithful final := by
  have hkept : Kept final :=
    Trace.run_invariant (fun _ _ _ hstate hstep => step_kept hstate hstep) (start_kept setup doc) hrun
  unfold Kept at hkept
  rw [hexited] at hkept
  exact hkept.faithful

end Faithfulness

section Examples

local instance : LineDiff := .replaceAll

local instance : Serde := .verbatim

/-- A steerable harness with the default windows. -/
def steerableSetup : RunSetup :=
  { deviceId := "dev", steerable := true, resumeInjected := false, startupRetry := false
    quiesceAfter := some 120000, selfQuiesceAfter := some 20000
    newId := fun minted => "e" ++ toString minted }

/-- A turn with a tool parks, its tail is dropped, the agent continues on its own
and quiesces, and the stream ends. -/
def selfContinuedRun : List DriveAction :=
  [.spawned 0, .event 1 (.sessionStarted .mock "m" [] "/" "s1" "a1"),
    .event 2 (.textDelta "build "), .flush 200, .event 210 (.toolCall "c1" (.exec "make")),
    .event 220 (.toolResult "c1" false none none), .event 230 (.done .completed none none none),
    .event 240 (.textDelta "late"), .event 5000 (.textDelta "done"), .quiesce 30000,
    .streamEnd 31000]

theorem exited_faithful_selfContinuedRun :
    ∃ final, Trace.run (DriveRun.step steerableSetup)
        (start steerableSetup (.init "chat")) selfContinuedRun = some final ∧
      final.heard = ["build ", "done"] ∧ final.transcript.begun = [0, 1] ∧ Faithful final := by
  have hfields : (Trace.run (DriveRun.step steerableSetup)
      (start steerableSetup (.init "chat")) selfContinuedRun).map (fun run =>
        (run.heard, run.transcript.begun, run.phase)) =
      some (["build ", "done"], [0, 1], .exited) := by decide
  obtain ⟨final, hrun, hfinal⟩ := Option.map_eq_some_iff.mp hfields
  simp only [Prod.mk.injEq] at hfinal
  exact ⟨final, hrun, hfinal.1, hfinal.2.1, exited_faithful steerableSetup (.init "chat")
    selfContinuedRun final hrun hfinal.2.2⟩

end Examples

end DriveRun

end Keel
