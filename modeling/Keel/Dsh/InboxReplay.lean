import Keel.Dsh.MessageCodec
import Keel.Foundation.Trace

/-! # Replaying an inbox

An inbox built from the session has the lists of the live one, as long as every splice is
written behind the seed of the log and reads back as it was written.
-/

namespace Keel.AgentInbox

open List

open Session (Message Event EventData Header)
open Session (Session Fault SurfaceIntent SurfaceFoldReplacement surfaceOpOf)
open Session.Session (accept accept_ok)

section Replay

variable {codec : SpliceCodec} {boundary : Nat} {log : List Event} {event : Event}

theorem replay_of_le (hlog : log.length ≤ boundary) : Inbox.replay codec boundary log = .ok {} := by
  rw [Inbox.replay, drop_eq_nil_of_le hlog]
  rfl

theorem replay_concat (hlog : boundary ≤ log.length) :
    Inbox.replay codec boundary (log ++ [event]) =
      (Inbox.replay codec boundary log).bind fun pending => Inbox.load codec pending event := by
  rw [Inbox.replay, Inbox.replay, drop_append_of_le_length hlog, foldlM_append]
  simp only [foldlM_cons, foldlM_nil, bind_pure]
  rfl

theorem load_nodup {pending next : Pending} (hpending : pending.ids.Nodup)
    (hload : Inbox.load codec pending event = .ok next) : next.ids.Nodup := by
  rw [Inbox.load] at hload
  split at hload
  · exact Except.ok.inj hload ▸ hpending
  next splice _ =>
    split at hload
    · cases hload
    next hvalid =>
      cases hload
      exact (Pending.validate_eq_ok.1 hvalid).2

theorem foldlM_load_nodup {events : List Event} {start pending : Pending}
    (hstart : start.ids.Nodup)
    (hload : events.foldlM (Inbox.load codec) start = .ok pending) : pending.ids.Nodup := by
  induction events generalizing start with
  | nil => exact Except.ok.inj hload ▸ hstart
  | cons event rest ih =>
    rw [foldlM_cons] at hload
    obtain ⟨next, hnext, hrest⟩ := Session.bind_eq_ok.1 hload
    exact ih (load_nodup hstart hnext) hrest

theorem new_eq_ok {session : Session} {inbox : Inbox} :
    Inbox.new codec session = .ok inbox ↔ ∃ pending,
      Inbox.replay codec (session.header.seedLength.getD 0) session.log = .ok pending ∧
        inbox = { session, pending } := by
  rw [Inbox.new]
  cases Inbox.replay codec (session.header.seedLength.getD 0) session.log <;>
    simp [bind, Except.bind, pure, Except.pure, eq_comm]

end Replay

section Mutation

variable (codec : SpliceCodec) (clock : Nat → Nat)

/-- A splice was written and made. -/
structure Spliced (inbox : Inbox) (splice : InboxSplice) (next : Inbox) : Prop where
  valid : inbox.pending.validate splice = .ok ()
  idle : inbox.session.appending = false
  header : next.session.header = inbox.session.header
  published : next.session.appending = false
  replayed : ∃ found, next.session.surfaceLog.Replayed found
  log : ∃ event, InboxSplice.fromEvent codec event = codec.fromValue (codec.toValue splice) ∧
    next.session.log = inbox.session.log ++ [event]
  pending : next.pending = (inbox.pending.apply splice).2

variable {inbox : Inbox} {replacements : List SurfaceFoldReplacement}

/-- A change does nothing, is refused without a trace, or is written and made. -/
theorem mutate_spec (hsession : inbox.session.surfaceLog.Replayed replacements)
    (target : InboxTarget) (start deleteCount : Nat) (inserted : List Message)
    (discardRemoved : Bool) :
    (inbox.pending.normalize target start deleteCount inserted discardRemoved = none ∧
      inbox.mutate codec clock target start deleteCount inserted discardRemoved = (.ok [], inbox)) ∨
    ∃ splice,
      inbox.pending.normalize target start deleteCount inserted discardRemoved = some splice ∧
      ((∃ fault, (inbox.pending.validate splice ≠ .ok () ∨ inbox.session.appending = true) ∧
          inbox.mutate codec clock target start deleteCount inserted discardRemoved =
            (.error fault, inbox)) ∨
        ∃ removed next,
          inbox.mutate codec clock target start deleteCount inserted discardRemoved =
            (.ok removed, next) ∧ Spliced codec inbox splice next) := by
  rw [Inbox.mutate]
  cases hsplice : inbox.pending.normalize target start deleteCount inserted discardRemoved with
  | none => exact .inl ⟨rfl, rfl⟩
  | some splice =>
    refine .inr ⟨splice, rfl, ?_⟩
    dsimp only
    split
    next error hinvalid =>
      exact .inl ⟨_, .inl (by simp [hinvalid]), rfl⟩
    next hvalid =>
      rcases Session.Session.append_spec hsession (clock inbox.session.log.length)
          (splice.toEventData codec) {} with
        ⟨reason, hrefused⟩ | ⟨event, surface, happend, -, hdata, hidle, haccept⟩
      · rw [hrefused]
        refine .inl ⟨_, .inr ?_, rfl⟩
        -- an idle session takes every event that is not for the surface
        by_contra hidle
        obtain ⟨event, next, happend⟩ := Session.Session.append_plain hsession
          (Bool.eq_false_of_not_eq_true hidle) (clock inbox.session.log.length)
          (splice.toEventData codec) rfl
        rw [happend] at hrefused
        cases hrefused
      · rw [happend]
        obtain ⟨-, ⟨found, hfound⟩, -⟩ := accept_ok hsession haccept
        refine .inr ⟨_, _, rfl, hvalid, hidle, rfl, rfl, ⟨found, hfound⟩, ⟨event, ?_, rfl⟩, rfl⟩
        simp only [InboxSplice.fromEvent, hdata, InboxSplice.toEventData, if_true]

end Mutation

section Settled

variable {pending : Pending} {splice : InboxSplice}

theorem setList_inj {first second : List Message} {target : InboxTarget} :
    pending.setList first target = pending.setList second target ↔ first = second := by
  cases target <;> simp [Pending.setList]

theorem ids_setList_congr {first second : List Message} {target : InboxTarget}
    (hids : first.map (·.id) = second.map (·.id)) :
    (pending.setList first target).ids = (pending.setList second target).ids := by
  cases target <;> simp [Pending.setList, Pending.ids, hids]

theorem spliced_settled : pending.spliced splice.settled =
    (pending.list splice.target).take splice.start ++ splice.inserted.map settle ++
      (pending.list splice.target).drop (splice.start + splice.removedCount.getD 0) := rfl

theorem validate_settled (hvalid : pending.validate splice = .ok ()) :
    pending.validate splice.settled = .ok () := by
  obtain ⟨hfits, hnodup⟩ := Pending.validate_eq_ok.1 hvalid
  refine Pending.validate_eq_ok.2 ⟨hfits, ?_⟩
  have hids : (pending.spliced splice.settled).map (·.id) = (pending.spliced splice).map (·.id) := by
    rw [spliced_settled, Pending.spliced]
    simp only [map_append, map_map, Function.comp_def, settle_id]
  have happly : (pending.apply splice.settled).2.ids = (pending.apply splice).2.ids :=
    ids_setList_congr hids
  rwa [happly]

/-- The lists behind a splice are those behind what reads back of it when it loses nothing. -/
theorem apply_settled_iff : (pending.apply splice.settled).2 = (pending.apply splice).2 ↔
    ∀ message ∈ splice.inserted, Lossless message := by
  have hlists : (pending.apply splice.settled).2 = (pending.apply splice).2 ↔
      pending.spliced splice.settled = pending.spliced splice := setList_inj
  have hinserted : splice.inserted.map settle = splice.inserted ↔
      ∀ message ∈ splice.inserted, settle message = message := by
    have hmaps := @List.map_eq_map_iff _ _ settle splice.inserted id
    rwa [map_id] at hmaps
  rw [hlists, spliced_settled, Pending.spliced, append_left_inj, append_right_inj,
    hinserted]
  exact forall₂_congr fun _ _ => settle_eq_self

end Settled

section Agreement

/-- The seed of a session's log, by its header. -/
def seedBoundary (inbox : Inbox) : Nat := inbox.session.header.seedLength.getD 0

/-- A splice that would be taken is written behind the seed, and loses nothing. -/
def KeepsSplice (inbox : Inbox) (splice : InboxSplice) : Prop :=
  inbox.pending.validate splice = .ok () → inbox.session.appending = false →
    seedBoundary inbox ≤ inbox.session.log.length ∧ ∀ message ∈ splice.inserted, Lossless message

variable (codec : SpliceCodec)

def Synced (inbox : Inbox) : Prop :=
  Inbox.replay codec (seedBoundary inbox) inbox.session.log = .ok inbox.pending

variable {codec} {inbox next : Inbox} {splice : InboxSplice}

theorem Synced.pending_of_lt (hsynced : Synced codec inbox)
    (hlog : inbox.session.log.length < seedBoundary inbox) : inbox.pending = {} := by
  rw [Synced, replay_of_le (Nat.le_of_lt hlog)] at hsynced
  exact (Except.ok.inj hsynced).symm

theorem synced_spliced_iff (hcodec : codec.Reads) (hsynced : Synced codec inbox)
    (hspliced : Spliced codec inbox splice next)
    (hchange : splice.inserted ≠ [] ∨ inbox.pending.list splice.target ≠ []) :
    Synced codec next ↔ KeepsSplice inbox splice := by
  obtain ⟨event, hevent, hlog⟩ := hspliced.log
  have hboundary : seedBoundary next = seedBoundary inbox := by
    rw [seedBoundary, seedBoundary, hspliced.header]
  have hkeeps : KeepsSplice inbox splice ↔ seedBoundary inbox ≤ inbox.session.log.length ∧
      ∀ message ∈ splice.inserted, Lossless message :=
    ⟨fun hkeeps => hkeeps hspliced.valid hspliced.idle, fun hkept _ _ => hkept⟩
  rw [hkeeps, Synced, hboundary, hlog, hspliced.pending]
  by_cases hbehind : seedBoundary inbox ≤ inbox.session.log.length
  · rw [replay_concat hbehind, hsynced, Except.bind, Inbox.load, hevent, hcodec]
    dsimp only
    rw [validate_settled hspliced.valid]
    simp only [Except.ok.injEq, apply_settled_iff, hbehind, true_and]
  · have hempty := hsynced.pending_of_lt (not_le.mp hbehind)
    have hinside : (inbox.session.log ++ [event]).length ≤ seedBoundary inbox := by
      rw [length_append, length_singleton]
      omega
    rw [replay_of_le hinside, hempty]
    simp only [hbehind, false_and, iff_false, Except.ok.injEq]
    rw [hempty] at hchange
    -- the insertion is live, but replayed from no event
    cases htarget : splice.target <;>
      simp_all [Pending.apply, Pending.setList, Pending.spliced, Pending.list]

end Agreement

/-- What every inbox keeps, whether it replays or not. -/
structure Sound (inbox : Inbox) : Prop where
  replayed : ∃ replacements, inbox.session.surfaceLog.Replayed replacements
  distinct : inbox.pending.ids.Nodup

section Changes

variable {codec : SpliceCodec} {inbox next : Inbox} {splice : InboxSplice}

theorem Spliced.sound (hspliced : Spliced codec inbox splice next) : Sound next where
  replayed := hspliced.replayed
  distinct := by
    rw [hspliced.pending]
    exact (Pending.validate_eq_ok.1 hspliced.valid).2

variable (clock : Nat → Nat)

theorem mutate_sound (hsound : Sound inbox) (target : InboxTarget) (start deleteCount : Nat)
    (inserted : List Message) (discardRemoved : Bool) :
    Sound (inbox.mutate codec clock target start deleteCount inserted discardRemoved).2 := by
  obtain ⟨replacements, hreplayed⟩ := hsound.replayed
  rcases mutate_spec codec clock hreplayed target start deleteCount inserted discardRemoved with
    ⟨-, hnothing⟩ | ⟨splice, -, ⟨fault, -, hrefused⟩ | ⟨removed, next, hmade, hspliced⟩⟩
  · rwa [hnothing]
  · rwa [hrefused]
  · rw [hmade]
    exact hspliced.sound

theorem mutate_refused (hsound : Sound inbox) {target : InboxTarget} {start deleteCount : Nat}
    {inserted : List Message} {discardRemoved : Bool} {fault : Fault}
    (hfault : (inbox.mutate codec clock target start deleteCount inserted discardRemoved).1 =
      .error fault) :
    (inbox.mutate codec clock target start deleteCount inserted discardRemoved).2 = inbox := by
  obtain ⟨replacements, hreplayed⟩ := hsound.replayed
  rcases mutate_spec codec clock hreplayed target start deleteCount inserted discardRemoved with
    ⟨-, hnothing⟩ | ⟨splice, -, ⟨fault, -, hrefused⟩ | ⟨removed, next, hmade, -⟩⟩
  · rw [hnothing]
  · rw [hrefused]
  · rw [hmade] at hfault
    cases hfault

theorem mutate_synced_iff (hcodec : codec.Reads) (hsound : Sound inbox)
    (hsynced : Synced codec inbox) (target : InboxTarget) (start deleteCount : Nat)
    (inserted : List Message) (discardRemoved : Bool) :
    Synced codec (inbox.mutate codec clock target start deleteCount inserted discardRemoved).2 ↔
      ∀ splice, inbox.pending.normalize target start deleteCount inserted discardRemoved =
        some splice → KeepsSplice inbox splice := by
  obtain ⟨replacements, hreplayed⟩ := hsound.replayed
  rcases mutate_spec codec clock hreplayed target start deleteCount inserted discardRemoved with
    ⟨hnone, hnothing⟩ | ⟨splice, hsplice, hmutate⟩
  · rw [hnothing, hnone]
    simp [hsynced]
  · simp only [hsplice, Option.some.injEq, forall_eq']
    rcases hmutate with ⟨fault, hwhy, hrefused⟩ | ⟨removed, next, hmade, hspliced⟩
    · rw [hrefused]
      refine ⟨fun _ hvalid hidle => ?_, fun _ => hsynced⟩
      rcases hwhy with hinvalid | hbusy
      · exact absurd hvalid hinvalid
      · exact Bool.noConfusion (hbusy.symm.trans hidle)
    · rw [hmade]
      refine synced_spliced_iff hcodec hsynced hspliced ?_
      obtain ⟨htarget, hinserted, -⟩ := Pending.normalize_spec hsplice
      by_contra hneither
      simp only [ne_eq, not_or, not_not, htarget, hinserted] at hneither
      rw [hneither.1, Pending.normalize_nil hneither.2] at hsplice
      cases hsplice

/-- What holds behind a change that only takes messages out. -/
structure Removal (codec : SpliceCodec) (inbox : Inbox) (result : Except Fault (List Message))
    (next : Inbox) : Prop where
  sound : Sound next
  /-- What is taken out was written behind the seed. -/
  synced : Synced codec inbox → Synced codec next
  refused : ∀ fault, result = .error fault → next = inbox
  /-- Nothing refuses a removal from an idle inbox. -/
  taken : inbox.session.appending = false → ∃ removed, result = .ok removed
  idle : next = inbox ∨ next.session.appending = false

theorem removal_spec (hcodec : codec.Reads) (hsound : Sound inbox) {target : InboxTarget}
    {start deleteCount : Nat} {discardRemoved : Bool} {result : Except Fault (List Message)}
    (hmutate : inbox.mutate codec clock target start deleteCount [] discardRemoved =
      (result, next)) : Removal codec inbox result next := by
  obtain ⟨replacements, hreplayed⟩ := hsound.replayed
  have hnext := @mutate_sound codec inbox clock hsound target start deleteCount [] discardRemoved
  rw [hmutate] at hnext
  have hrest : (∀ fault, result = .error fault → next = inbox) ∧
      (inbox.session.appending = false → ∃ removed, result = .ok removed) ∧
      (next = inbox ∨ next.session.appending = false) := by
    rcases mutate_spec codec clock hreplayed target start deleteCount [] discardRemoved with
      ⟨-, hnothing⟩ | ⟨splice, hsplice, ⟨fault, hwhy, hrefused⟩ | ⟨removed, _, hmade, hspliced⟩⟩
    · obtain ⟨rfl, rfl⟩ := Prod.mk.inj (hmutate.symm.trans hnothing)
      exact ⟨fun _ _ => rfl, fun _ => ⟨[], rfl⟩, .inl rfl⟩
    · obtain ⟨rfl, rfl⟩ := Prod.mk.inj (hmutate.symm.trans hrefused)
      refine ⟨fun _ _ => rfl, fun hidle => ?_, .inl rfl⟩
      obtain ⟨-, hinserted, -⟩ := Pending.normalize_spec hsplice
      rcases hwhy with hinvalid | hbusy
      · exact absurd (Pending.validate_eq_ok.2 ⟨Pending.normalize_fits hsplice,
          Pending.nodup_ids_of_removal hsound.distinct hinserted⟩) hinvalid
      · exact Bool.noConfusion (hbusy.symm.trans hidle)
    · obtain ⟨rfl, rfl⟩ := Prod.mk.inj (hmutate.symm.trans hmade)
      exact ⟨fun _ hfault => (nomatch hfault), fun _ => ⟨_, rfl⟩, .inr hspliced.published⟩
  refine ⟨hnext, fun hstart => ?_, hrest.1, hrest.2.1, hrest.2.2⟩
  have hiff := mutate_synced_iff clock hcodec hsound hstart target start deleteCount []
    discardRemoved
  rw [hmutate] at hiff
  refine hiff.mpr fun splice hsplice _ _ => ?_
  obtain ⟨-, hinserted, -⟩ := Pending.normalize_spec hsplice
  refine ⟨?_, by simp [hinserted]⟩
  by_contra hinside
  have hempty := hstart.pending_of_lt (not_le.mp hinside)
  rw [Pending.normalize_nil (by rw [hempty]; cases target <;> rfl)] at hsplice
  cases hsplice

theorem Removal.twice {first second : Except Fault (List Message)} {middle : Inbox}
    (hfirst : Removal codec inbox first middle) (hsecond : Removal codec middle second next) :
    ∀ fault, second = .error fault → next = inbox := by
  intro fault hfault
  rw [hsecond.refused fault hfault]
  rcases hfirst.idle with hsame | hidle
  · exact hsame
  · obtain ⟨removed, hok⟩ := hsecond.taken hidle
    rw [hok] at hfault
    cases hfault

end Changes

inductive Operation where
  | append (target : InboxTarget) (message : Message)
  | prepend (target : InboxTarget) (message : Message)
  | replace (messageId : String) (newMessage : Message)
  | remove (messageId : String)
  | splice (target : InboxTarget) (start deleteCount : Nat) (inserted : List Message)
  | claim (target : InboxTarget) (turn : Nat)
  | clear

def exchangeSplice (pending : Pending) (messageId : String) (inserted : List Message) :
    Option InboxSplice :=
  (pending.locate messageId).bind fun (target, index) =>
    pending.normalize target index 1 inserted true

/-- The one splice an operation asks for; a claim and a clearing only empty the lists. -/
def Operation.request (pending : Pending) : Operation → Option InboxSplice
  | .append target message =>
    pending.normalize target (pending.list target).length 0 [message] true
  | .prepend target message => pending.normalize target 0 0 [message] true
  | .replace messageId newMessage => exchangeSplice pending messageId [newMessage]
  | .remove messageId => exchangeSplice pending messageId []
  | .splice target start deleteCount inserted =>
    pending.normalize target start deleteCount inserted true
  | .claim .. | .clear => none

section Operations

variable (codec : SpliceCodec) (clock : Nat → Nat)

/-- An operation, without what it returns. -/
def operate (inbox : Inbox) : Operation → Except Fault Unit × Inbox
  | .append target message => inbox.append codec clock target message
  | .prepend target message => inbox.prepend codec clock target message
  | .replace messageId newMessage =>
    (inbox.replace codec clock messageId newMessage).map (·.map fun _ => ()) id
  | .remove messageId => (inbox.remove codec clock messageId).map (·.map fun _ => ()) id
  | .splice target start deleteCount inserted =>
    (inbox.splice codec clock target start deleteCount inserted).map (·.map fun _ => ()) id
  | .claim target turn => (inbox.claim codec clock target turn).map (·.map fun _ => ()) id
  | .clear => inbox.clear codec clock

/-- What an operation asks for would be written behind the seed, and loses nothing. -/
def Keeps (inbox : Inbox) (operation : Operation) : Prop :=
  ∀ splice, operation.request inbox.pending = some splice → KeepsSplice inbox splice

/-- What holds behind an operation of an inbox. -/
structure Operated (inbox : Inbox) (operation : Operation) (outcome : Except Fault Unit × Inbox) :
    Prop where
  sound : Sound outcome.2
  refused : ∀ fault, outcome.1 = .error fault → outcome.2 = inbox
  synced : Synced codec inbox → (Synced codec outcome.2 ↔ Keeps inbox operation)

variable {codec} {inbox : Inbox}

theorem map_eq_error {α β : Type} {f : α → β} {result : Except Fault α} {fault : Fault} :
    result.map f = .error fault ↔ result = .error fault := by
  cases result <;> simp [Except.map]

theorem operated_mutate (hcodec : codec.Reads) (hsound : Sound inbox) {operation : Operation}
    {target : InboxTarget} {start deleteCount : Nat} {inserted : List Message}
    {outcome : Except Fault Unit × Inbox}
    (hrequest : operation.request inbox.pending =
      inbox.pending.normalize target start deleteCount inserted true)
    (hresult : outcome.1 =
      (inbox.mutate codec clock target start deleteCount inserted true).1.map fun _ => ())
    (hnext : outcome.2 = (inbox.mutate codec clock target start deleteCount inserted true).2) :
    Operated codec inbox operation outcome where
  sound := hnext ▸ mutate_sound clock hsound target start deleteCount inserted true
  refused fault hfault := by
    rw [hresult, map_eq_error] at hfault
    rw [hnext, mutate_refused clock hsound hfault]
  synced hsynced := by
    rw [hnext, Keeps, hrequest]
    exact mutate_synced_iff clock hcodec hsound hsynced target start deleteCount inserted true

theorem operated_exchange (hcodec : codec.Reads) (hsound : Sound inbox) {operation : Operation}
    {messageId : String} {inserted : List Message}
    (hrequest : operation.request inbox.pending =
      exchangeSplice inbox.pending messageId inserted) :
    Operated codec inbox operation
      ((inbox.exchange codec clock messageId inserted).map (·.map fun _ => ()) id) := by
  rw [Inbox.exchange]
  rw [exchangeSplice] at hrequest
  cases hlocate : inbox.pending.locate messageId with
  | none =>
    rw [hlocate, Option.bind_none] at hrequest
    refine ⟨hsound, fun _ _ => rfl, fun hsynced => ?_⟩
    rw [Keeps, hrequest]
    simp [hsynced]
  | some place =>
    rw [hlocate, Option.bind_some] at hrequest
    refine operated_mutate clock hcodec hsound hrequest ?_ rfl
    simp only [Prod.map, Inbox.splice]
    rcases inbox.mutate codec clock place.1 place.2 1 inserted true with ⟨_ | _, _⟩ <;> rfl

theorem operated_removal {operation : Operation} {outcome : Except Fault Unit × Inbox}
    (hrequest : operation.request inbox.pending = none) (hsound : Sound outcome.2)
    (hsynced : Synced codec inbox → Synced codec outcome.2)
    (hrefused : ∀ fault, outcome.1 = .error fault → outcome.2 = inbox) :
    Operated codec inbox operation outcome where
  sound := hsound
  refused := hrefused
  synced hstart := by
    rw [Keeps, hrequest]
    simp [hsynced hstart]

variable (hcodec : codec.Reads) (hsound : Sound inbox)
include hcodec hsound

theorem operated_clear : Operated codec inbox .clear (inbox.clear codec clock) := by
  simp only [Inbox.clear, Inbox.splice]
  cases hfirst : inbox.mutate codec clock .nextStep 0 inbox.pending.nextStep.length [] true with
  | mk result middle =>
    have hmiddle := removal_spec clock hcodec hsound hfirst
    cases result with
    | error fault =>
      exact operated_removal rfl hmiddle.sound hmiddle.synced fun _ _ =>
        hmiddle.refused fault rfl
    | ok removed =>
      dsimp only
      cases hsecond : middle.mutate codec clock .nextTurn 0 middle.pending.nextTurn.length []
          true with
      | mk result last =>
        have hlast := removal_spec clock hcodec hmiddle.sound hsecond
        exact operated_removal rfl hlast.sound
          (fun hstart => hlast.synced (hmiddle.synced hstart))
          fun fault hfault => hmiddle.twice hlast fault (map_eq_error.1 hfault)

theorem operated_claim (target : InboxTarget) (turn : Nat) :
    Operated codec inbox (.claim target turn)
      ((inbox.claim codec clock target turn).map (·.map fun _ => ()) id) := by
  rw [Inbox.claim]
  cases hfirst : inbox.mutate codec clock .nextStep 0 inbox.pending.nextStep.length [] false with
  | mk result middle =>
    have hmiddle := removal_spec clock hcodec hsound hfirst
    cases result with
    | error fault =>
      exact operated_removal rfl hmiddle.sound hmiddle.synced fun _ _ =>
        hmiddle.refused fault rfl
    | ok batch =>
      cases target with
      | nextStep =>
        exact operated_removal rfl ⟨hmiddle.sound.replayed, hmiddle.sound.distinct⟩
          hmiddle.synced fun fault hfault => nomatch hfault
      | nextTurn =>
        dsimp only
        rw [if_pos rfl]
        cases hsecond : middle.mutate codec clock .nextTurn 0 1 [] false with
        | mk queued last =>
          have hlast := removal_spec clock hcodec hmiddle.sound hsecond
          have hsynced := fun hstart => hlast.synced (hmiddle.synced hstart)
          cases queued with
          | error fault =>
            exact operated_removal rfl hlast.sound hsynced fun _ _ =>
              hmiddle.twice hlast fault rfl
          | ok queued =>
            exact operated_removal rfl ⟨hlast.sound.replayed, hlast.sound.distinct⟩
              hsynced fun fault hfault => nomatch hfault

theorem operated (operation : Operation) :
    Operated codec inbox operation (operate codec clock inbox operation) := by
  cases operation with
  | append target message =>
    exact @operated_mutate codec clock inbox hcodec hsound (.append target message) target
      (inbox.pending.list target).length 0 [message] _ rfl rfl rfl
  | prepend target message =>
    exact @operated_mutate codec clock inbox hcodec hsound (.prepend target message) target
      0 0 [message] _ rfl rfl rfl
  | replace messageId newMessage | remove messageId =>
    exact operated_exchange clock hcodec hsound rfl
  | splice target start deleteCount inserted =>
    exact operated_mutate clock hcodec hsound rfl rfl rfl
  | claim target turn => exact operated_claim clock hcodec hsound target turn
  | clear => exact operated_clear clock hcodec hsound

end Operations

/-- What the rest of the program does to a session: an append, with its publication open until
`published`. -/
inductive SessionAction where
  | append (now : Nat) (data : EventData) (intent : SurfaceIntent)
  | published

def SessionAction.perform (session : Session) : SessionAction → Session
  | .append now data intent => (session.append now data intent).2
  | .published => session.published

/-- The action writes no splice of its own. -/
def SessionAction.Foreign : SessionAction → Prop
  | .append _ data _ => data.eventType ≠ inboxSplicedEvent
  | .published => True

instance (action : SessionAction) : Decidable action.Foreign := by
  cases action <;> unfold SessionAction.Foreign <;> infer_instance

/-- What may happen next to an inbox. -/
inductive Action where
  | operate (operation : Operation)
  | outside (action : SessionAction) (hforeign : action.Foreign)

section Runs

variable (codec : SpliceCodec) (clock : Nat → Nat)

/-- An inbox takes every action; a refused one is a step too. -/
def step (inbox : Inbox) : Action → Option Inbox
  | .operate operation => some (operate codec clock inbox operation).2
  | .outside action _ => some { inbox with session := action.perform inbox.session }

/-- An inbox built from the log is the live one, and what it was built from is valid. -/
structure Agrees (inbox : Inbox) : Prop where
  fresh : ∃ fresh, Inbox.new codec inbox.session = .ok fresh ∧ fresh.pending = inbox.pending
  distinct : inbox.pending.ids.Nodup
  refused : ∀ operation fault, (operate codec clock inbox operation).1 = .error fault →
    (operate codec clock inbox operation).2 = inbox
  persisted : ∀ before event after splice,
    inbox.session.log.drop (seedBoundary inbox) = before ++ event :: after →
    InboxSplice.fromEvent codec event = some splice →
    ∃ pending, before.foldlM (Inbox.load codec) {} = .ok pending ∧
      pending.validate splice = .ok ()

/-- The splices an action asks for are kept. -/
def KeepsAction (inbox : Inbox) : Action → Prop
  | .operate operation => Keeps inbox operation
  | .outside .. => True

instance (inbox : Inbox) (splice : InboxSplice) : Decidable (KeepsSplice inbox splice) := by
  unfold KeepsSplice
  infer_instance

instance (inbox : Inbox) : ∀ action, Decidable (KeepsAction inbox action)
  | .outside .. => isTrue trivial
  | .operate operation =>
    match hrequest : operation.request inbox.pending with
    | none => isTrue fun splice hsplice => by rw [hrequest] at hsplice; cases hsplice
    | some splice =>
      decidable_of_iff (KeepsSplice inbox splice)
        (by simp only [KeepsAction, Keeps, hrequest, Option.some.injEq, forall_eq'])

variable {codec} {inbox : Inbox}

theorem load_ok {pending next : Pending} {event : Event} {splice : InboxSplice}
    (hload : Inbox.load codec pending event = .ok next)
    (hsplice : InboxSplice.fromEvent codec event = some splice) :
    pending.validate splice = .ok () := by
  rw [Inbox.load, hsplice] at hload
  dsimp only at hload
  split at hload
  · cases hload
  next hvalid => exact hvalid

theorem agrees_iff_synced (hcodec : codec.Reads) (hsound : Sound inbox) :
    Agrees codec clock inbox ↔ Synced codec inbox := by
  constructor
  · intro hagrees
    obtain ⟨fresh, hnew, hfresh⟩ := hagrees.fresh
    obtain ⟨pending, hreplay, rfl⟩ := new_eq_ok.1 hnew
    exact hreplay.trans (congrArg Except.ok hfresh)
  · intro hsynced
    refine ⟨⟨_, new_eq_ok.2 ⟨_, hsynced, rfl⟩, rfl⟩, hsound.distinct,
      fun operation => (operated clock hcodec hsound operation).refused, ?_⟩
    intro before event after splice hlog hsplice
    rw [Synced, Inbox.replay, hlog, foldlM_append] at hsynced
    obtain ⟨pending, hbefore, hrest⟩ := Session.bind_eq_ok.1 hsynced
    rw [foldlM_cons] at hrest
    obtain ⟨next, hload, -⟩ := Session.bind_eq_ok.1 hrest
    exact ⟨pending, hbefore, load_ok hload hsplice⟩

theorem perform_replayed {session : Session}
    (hsession : ∃ replacements, session.surfaceLog.Replayed replacements)
    (action : SessionAction) :
    ∃ replacements, (action.perform session).surfaceLog.Replayed replacements := by
  cases action with
  | published => exact hsession
  | append now data intent =>
    obtain ⟨replacements, hreplayed⟩ := hsession
    rw [SessionAction.perform]
    rcases Session.Session.append_spec hreplayed now data intent with
      ⟨reason, hrefused⟩ | ⟨event, surface, happend, -, -, -, haccept⟩
    · exact ⟨replacements, by rw [hrefused]; exact hreplayed⟩
    · rw [happend]
      exact (accept_ok hreplayed haccept).2.1

theorem foldl_perform_replayed {session : Session}
    (hsession : ∃ replacements, session.surfaceLog.Replayed replacements)
    (actions : List SessionAction) :
    ∃ replacements, (actions.foldl SessionAction.perform session).surfaceLog.Replayed
      replacements := by
  induction actions generalizing session with
  | nil => exact hsession
  | cons action rest ih => exact ih (perform_replayed hsession action)

theorem outside_synced (hsound : Sound inbox) {action : SessionAction}
    (hforeign : action.Foreign) (hsynced : Synced codec inbox) :
    Synced codec { inbox with session := action.perform inbox.session } := by
  cases action with
  | published => exact hsynced
  | append now data intent =>
    obtain ⟨replacements, hreplayed⟩ := hsound.replayed
    rw [SessionAction.perform]
    rcases Session.Session.append_spec hreplayed now data intent with
      ⟨reason, hrefused⟩ | ⟨event, surface, happend, -, hdata, -, -⟩
    · rwa [hrefused]
    · rw [happend]
      have hnone : InboxSplice.fromEvent codec event = none := by
        rw [InboxSplice.fromEvent, hdata]
        cases data with
        | extension eventType data => exact if_neg hforeign
        | _ => rfl
      by_cases hbehind : seedBoundary inbox ≤ inbox.session.log.length
      · rw [Synced] at hsynced ⊢
        exact (replay_concat hbehind).trans (by simp [hsynced, Except.bind, Inbox.load, hnone])
      · have hempty := hsynced.pending_of_lt (not_le.mp hbehind)
        refine (replay_of_le ?_).trans (congrArg Except.ok hempty.symm)
        rw [length_append, length_singleton]
        exact not_le.mp hbehind

/-- An action keeps the lists those of the log exactly if its splices are kept. -/
theorem step_spec (hcodec : codec.Reads) (hsound : Sound inbox) {next : Inbox} {action : Action}
    (hstep : step codec clock inbox action = some next) :
    Sound next ∧ (Synced codec inbox → (Synced codec next ↔ KeepsAction inbox action)) := by
  cases action with
  | operate operation =>
    cases hstep
    have hoperated := operated clock hcodec hsound operation
    exact ⟨hoperated.sound, hoperated.synced⟩
  | outside action hforeign =>
    cases hstep
    exact ⟨⟨perform_replayed hsound.replayed action, hsound.distinct⟩, fun hstart =>
      ⟨fun _ => trivial, fun _ => outside_synced hsound hforeign hstart⟩⟩

/-- However operations of the inbox and work on its session follow each other, an inbox built
from the log is the live one throughout exactly if every splice that is taken is written behind
the seed its header names, and carries no null replay state. -/
theorem agrees_iff_keeps (codec : SpliceCodec) (hcodec : codec.Reads) (now : Nat) (id : String)
    (seed : List Event) (header : Option Header) (session : Session)
    (hcreate : Session.Session.create now id seed header = .ok session)
    (before : List SessionAction) (inbox : Inbox)
    (hnew : Inbox.new codec (before.foldl SessionAction.perform session) = .ok inbox)
    (actions : List Action) :
    Trace.Always (step codec clock) (Agrees codec clock) inbox actions ↔
      Trace.Guarded (step codec clock) KeepsAction inbox actions := by
  obtain ⟨-, -, found, -, -, -, -, hreplayed, -⟩ := Session.Session.create_spec hcreate
  obtain ⟨pending, hreplay, rfl⟩ := new_eq_ok.1 hnew
  have hsound : Sound { session := before.foldl SessionAction.perform session, pending } :=
    ⟨foldl_perform_replayed ⟨found, hreplayed⟩ before,
      @foldlM_load_nodup _ _ {} _ nodup_nil hreplay⟩
  refine Trace.always_iff_guarded_of_invariant
    (fun inbox action next hsound hstep => (step_spec clock hcodec hsound hstep).1) ?_ ?_ hsound
    ((agrees_iff_synced clock hcodec hsound).mpr hreplay)
  · intro inbox action next hsound hagrees hstep
    obtain ⟨hnext, hsynced⟩ := step_spec clock hcodec hsound hstep
    rw [agrees_iff_synced clock hcodec hnext]
    exact hsynced ((agrees_iff_synced clock hcodec hsound).mp hagrees)
  · intro inbox action hdisabled
    cases action <;> cases hdisabled

/-- A user's message, as it may stand in the next-turn list. -/
def note : Message := ⟨"note", .user, [.text "hello"], .user⟩

def forkHeader : Header := { version := 0, id := "fork", createdAt := 0, seedLength := some 1 }

/-- Messages come, are refused, late, replaced and claimed, and a turn starts in between. -/
def claimedRun : List Action :=
  [.operate (.append .nextTurn note),
    .outside (.append 1 (.turnStart 1) {}) (by decide),
    .operate (.append .nextStep ⟨"aside", .user, [], .user⟩),
    .outside .published trivial,
    .operate (.append .nextStep ⟨"aside", .user, [], .user⟩),
    .operate (.append .nextStep note),
    .operate (.splice .nextTurn 7 3 [⟨"late", .user, [], .user⟩]),
    .operate (.replace "note" ⟨"other", .user, [], .user⟩),
    .operate (.claim .nextTurn 1), .operate .clear]

theorem agrees_iff_keeps_claimedRun :
    Trace.Always (step derivedCodec id) (Agrees derivedCodec id)
      { session := .seeded {} { forkHeader with seedLength := none } } claimedRun :=
  (agrees_iff_keeps id derivedCodec derivedCodec_reads 0 "fork" []
    (some { forkHeader with seedLength := none }) _ rfl [] _ rfl _).mpr (by decide)

/-- The log of a fork lost its seed. The message is pending and written, and an inbox built
from the log skips it. -/
theorem lost_inside_seed : ∃ session inbox next fresh,
    Session.Session.create 0 "fork" [] (some forkHeader) = .ok session ∧
    Inbox.new derivedCodec session = .ok inbox ∧
    operate derivedCodec id inbox (.append .nextTurn note) = (.ok (), next) ∧
    Inbox.new derivedCodec next.session = .ok fresh ∧
    next.pending.nextTurn = [note] ∧ fresh.pending.nextTurn = [] :=
  ⟨_, _, _, _, rfl, rfl, rfl, rfl, rfl, rfl⟩

end Runs

end Keel.AgentInbox
