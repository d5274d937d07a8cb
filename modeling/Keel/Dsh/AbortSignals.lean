import Keel.Foundation.Argmin

/-! # Abort signals, deadlines and fusion

Timers are evaluated lazily: an armed one fires when it is looked at, or its deadline dropped,
after it has elapsed. A fused signal looks at all of its sources at every read and reports the
one that aborted first. The clock may advance between any two of its readings.
-/

namespace Keel.AbortSignals

open List Option

/-- A timeout's code and length; `Ms` stands for the source's floating-point milliseconds. -/
structure TimeoutReason (Ms : Type) where
  code : String
  timeoutMs : Ms
deriving DecidableEq

inductive AbortReason (Ms : Type) where
  | timeout (reason : TimeoutReason Ms)
  | cancelled (message : String)
deriving DecidableEq

def AbortReason.asTimeout {Ms : Type} (reason : AbortReason Ms) (code : Option String) :
    Option (TimeoutReason Ms) :=
  match reason, code with
  | .timeout reason, none => some reason
  | .timeout reason, some code => if reason.code = code then some reason else none
  | .cancelled _, _ => none

/-- Nanoseconds of the monotonic clock. -/
abbrev Instant := Nat

/-- Why something aborted and when. -/
abbrev AbortInfo (Ms : Type) := AbortReason Ms × Instant

inductive TimerPhase where
  | armed
  | cleared
  | fired
deriving DecidableEq

structure TimerState (Ms : Type) where
  deadlineAt : Instant
  reason : TimeoutReason Ms
  phase : TimerPhase

def TimerState.info {Ms : Type} (timer : TimerState Ms) : AbortInfo Ms :=
  (.timeout timer.reason, timer.deadlineAt)

/-- The part of a signal with a state of its own, by its handle. -/
inductive Source where
  | controller (id : Nat)
  | timer (id : Nat)

inductive AbortSignal where
  | never
  | source (leaf : Source)
  | any (children : List AbortSignal)

/-- What `timeout_ms` means to `deadline`: no timer, a delay it accepts, and its length. -/
structure Delays (Ms : Type) where
  noTimer : Ms → Bool
  accepted : Ms → Bool
  duration : Ms → Nat

/-- The shared states, how often the clock has been read, and what reads have returned. -/
structure World (Ms : Type) where
  controllers : List (Option (AbortInfo Ms)) := []
  timers : List (TimerState Ms) := []
  readings : Nat := 0
  log : List (AbortSignal × Option (AbortReason Ms)) := []

section Code

variable {Ms : Type} (delays : Delays Ms) (clock : Nat → Instant)

namespace World

def tick (world : World Ms) : World Ms := { world with readings := world.readings + 1 }

def setPhase (world : World Ms) (id : Nat) (timer : TimerState Ms) (phase : TimerPhase) : World Ms :=
  { world with timers := world.timers.set id { timer with phase } }

def newController (world : World Ms) : Nat × World Ms :=
  (world.controllers.length, { world with controllers := world.controllers ++ [none] })

/-- Only the first abort takes effect; it records when. -/
def abort (world : World Ms) (id : Nat) (reason : AbortReason Ms) : World Ms :=
  match world.controllers[id]? with
  | some none => { world.tick with
      controllers := world.controllers.set id (some (reason, clock world.readings)) }
  | _ => world

/-- What a source says when it is looked at; an armed timer reads the clock. -/
def sourceInfo (world : World Ms) : Source → Option (AbortInfo Ms) × World Ms
  | .controller id => ((world.controllers[id]?).join, world)
  | .timer id =>
    match world.timers[id]? with
    | none => (none, world)
    | some timer =>
      match timer.phase with
      | .cleared => (none, world)
      | .fired => (some timer.info, world)
      | .armed =>
        if timer.deadlineAt ≤ clock world.readings then
          (some timer.info, world.tick.setPhase id timer .fired)
        else (none, world.tick)

/-- Dropping a deadline: a timer that has elapsed stays aborted. -/
def clear (world : World Ms) (id : Nat) : World Ms :=
  match world.timers[id]? with
  | none => world
  | some timer =>
    if timer.phase = .armed then
      world.tick.setPhase id timer
        (if timer.deadlineAt ≤ clock world.readings then .fired else .cleared)
    else world

end World

namespace AbortSignal

/-- Fusion leaves out the list around a single source. -/
def fuse : List AbortSignal → AbortSignal
  | [] => .never
  | [signal] => signal
  | signals => .any signals

mutual

def abortInfo : AbortSignal → World Ms → Option (AbortInfo Ms) × World Ms
  | .never, world => (none, world)
  | .source leaf, world => world.sourceInfo clock leaf
  | .any children, world =>
    let (infos, world) := childInfos children world
    (infos.argmin Prod.snd, world)

def childInfos : List AbortSignal → World Ms → List (AbortInfo Ms) × World Ms
  | [], world => ([], world)
  | child :: children, world =>
    let (info, world) := abortInfo child world
    let (infos, world) := childInfos children world
    (info.toList ++ infos, world)

end

mutual

/-- The sources of a signal in the order they are looked at. -/
def sources : AbortSignal → List Source
  | .never => []
  | .source leaf => [leaf]
  | .any children => childSources children

def childSources : List AbortSignal → List Source
  | [] => []
  | child :: children => sources child ++ childSources children

end

end AbortSignal

def Source.Known (world : World Ms) : Source → Prop
  | .controller id => id < world.controllers.length
  | .timer id => id < world.timers.length

instance (world : World Ms) : DecidablePred (Source.Known world)
  | .controller _ => inferInstanceAs (Decidable (_ < _))
  | .timer _ => inferInstanceAs (Decidable (_ < _))

/-- A deadline's signal and the timer it armed; a delay that is not accepted panics. -/
def deadline (world : World Ms) (upstream : Option AbortSignal) (timeoutMs : Ms) (code : String) :
    Option ((AbortSignal × Option Nat) × World Ms) :=
  if delays.noTimer timeoutMs then some ((upstream.getD .never, none), world)
  else if delays.accepted timeoutMs then
    let id := world.timers.length
    let timer : TimerState Ms :=
      { deadlineAt := clock world.readings + delays.duration timeoutMs
        reason := { code, timeoutMs }
        phase := .armed }
    let signal := match upstream with
      | some upstream => .fuse [upstream, .source (.timer id)]
      | none => .source (.timer id)
    some ((signal, some id), { world.tick with timers := world.timers ++ [timer] })
  else none

/-- `timeout_of`, on what a read of the signal returned. -/
def timeoutOf (reason : Option (AbortReason Ms)) (code : Option String) :
    Option (TimeoutReason Ms) :=
  reason.bind fun reason => reason.asTimeout code

inductive Event (Ms : Type) where
  | newController
  | deadline (upstream : Option AbortSignal) (timeoutMs : Ms) (code : String)
  | abort (controller : Nat) (reason : AbortReason Ms)
  | dropDeadline (timer : Nat)
  | read (signal : AbortSignal)

/-- One call; nothing where it panics or names a handle that does not exist. -/
def step (world : World Ms) : Event Ms → Option (World Ms)
  | .newController => some world.newController.2
  | .deadline upstream timeoutMs code =>
    (deadline delays clock world upstream timeoutMs code).map Prod.snd
  | .abort controller reason =>
    if controller < world.controllers.length then some (world.abort clock controller reason)
    else none
  | .dropDeadline timer =>
    if timer < world.timers.length then some (world.clear clock timer) else none
  | .read signal =>
    if ∀ source ∈ signal.sources, source.Known world then
      let (info, world) := signal.abortInfo clock world
      some { world with log := world.log ++ [(signal, info.map Prod.fst)] }
    else none

def run (world : World Ms) : List (Event Ms) → Option (World Ms)
  | [] => some world
  | event :: events => (step delays clock world event).bind fun world => run world events

def readSources : List Source → World Ms → List (Option (AbortInfo Ms)) × World Ms
  | [], world => ([], world)
  | source :: sources, world =>
    let (info, world) := world.sourceInfo clock source
    let (infos, world) := readSources sources world
    (info :: infos, world)

end Code

section Flat

variable {Ms : Type} {clock : Nat → Instant}

theorem readSources_append (first second : List Source) (world : World Ms) :
    readSources clock (first ++ second) world =
      ((readSources clock first world).1 ++
          (readSources clock second (readSources clock first world).2).1,
        (readSources clock second (readSources clock first world).2).2) := by
  induction first generalizing world with
  | nil => rfl
  | cons source first ih =>
    simp only [cons_append, readSources, ih]

theorem argmin_toList (info : Option (AbortInfo Ms)) :
    info.toList.argmin Prod.snd = info := by
  cases info <;> rfl

mutual

/-- A fused signal, however it is nested, is the list of its sources: it reports the first of
the earliest. -/
theorem abortInfo_eq : ∀ (signal : AbortSignal) (world : World Ms),
    signal.abortInfo clock world =
      (((readSources clock signal.sources world).1.filterMap id).argmin Prod.snd,
        (readSources clock signal.sources world).2)
  | .never, world => rfl
  | .source leaf, world => by
      have hinfo : ∀ info : Option (AbortInfo Ms),
          ([info].filterMap id).argmin Prod.snd = info := by
        intro info
        cases info <;> rfl
      simp only [AbortSignal.abortInfo, AbortSignal.sources, readSources, hinfo]
  | .any children, world => by
      obtain ⟨hinfos, hworld⟩ := childInfos_eq children world
      simp only [AbortSignal.abortInfo, AbortSignal.sources, hinfos, hworld]

theorem childInfos_eq : ∀ (children : List AbortSignal) (world : World Ms),
    (AbortSignal.childInfos clock children world).1.argmin Prod.snd =
        ((readSources clock (AbortSignal.childSources children) world).1.filterMap id).argmin
          Prod.snd ∧
      (AbortSignal.childInfos clock children world).2 =
        (readSources clock (AbortSignal.childSources children) world).2
  | [], world => ⟨rfl, rfl⟩
  | child :: children, world => by
      obtain ⟨hinfos, hworld⟩ :=
        childInfos_eq children (readSources clock child.sources world).2
      simp only [AbortSignal.childInfos, AbortSignal.childSources, readSources_append,
        abortInfo_eq child world, filterMap_append]
      exact ⟨Lists.argmin_append_congr (argmin_toList _) hinfos, hworld⟩

end

end Flat

section Due

variable {Ms : Type}

/-- What a timer comes to at an instant. -/
def TimerState.due (now : Instant) (timer : TimerState Ms) : Option (AbortInfo Ms) :=
  match timer.phase with
  | .cleared => none
  | .fired => some timer.info
  | .armed => if timer.deadlineAt ≤ now then some timer.info else none

def dueInfo (now : Instant) (world : World Ms) : Source → Option (AbortInfo Ms)
  | .controller id => (world.controllers[id]?).join
  | .timer id => (world.timers[id]?).bind (TimerState.due now)

/-- What a signal with these sources reports at an instant. -/
def view (now : Instant) (world : World Ms) (sources : List Source) : Option (AbortInfo Ms) :=
  (sources.filterMap (dueInfo now world)).argmin Prod.snd

variable {now later : Instant} {world : World Ms} {source : Source} {info : AbortInfo Ms}

theorem TimerState.due_mono {timer : TimerState Ms} (hle : now ≤ later)
    (hdue : timer.due now = some info) : timer.due later = some info := by
  rw [TimerState.due] at hdue ⊢
  cases hphase : timer.phase with
  | cleared => simp only [hphase, reduceCtorEq] at hdue
  | fired => simpa only [hphase] using hdue
  | armed =>
    simp only [hphase] at hdue ⊢
    split at hdue
    next helapsed => rwa [if_pos (helapsed.trans hle)]
    · cases hdue

theorem TimerState.lt_of_due_later {timer : TimerState Ms} (hnone : timer.due now = none)
    (hdue : timer.due later = some info) :
    now < info.2 ∧ timer.phase = .armed ∧ info = timer.info := by
  rw [TimerState.due] at hnone hdue
  cases hphase : timer.phase with
  | cleared => simp only [hphase, reduceCtorEq] at hdue
  | fired => simp only [hphase, reduceCtorEq] at hnone
  | armed =>
    simp only [hphase] at hnone hdue
    split at hdue
    · cases hdue
      split at hnone
      · cases hnone
      next hnot => exact ⟨not_le.mp hnot, rfl, rfl⟩
    · cases hdue

theorem dueInfo_mono (hle : now ≤ later) (hdue : dueInfo now world source = some info) :
    dueInfo later world source = some info := by
  cases source with
  | controller id => exact hdue
  | timer id =>
    obtain ⟨timer, htimer, hdue⟩ := bind_eq_some_iff.mp hdue
    exact bind_eq_some_iff.mpr ⟨timer, htimer, TimerState.due_mono hle hdue⟩

theorem lt_of_dueInfo_later (hnone : dueInfo now world source = none)
    (hdue : dueInfo later world source = some info) :
    now < info.2 ∧ ∃ id timer, source = .timer id ∧ world.timers[id]? = some timer ∧
      timer.phase = .armed ∧ info = timer.info := by
  cases source with
  | controller id =>
    simp only [dueInfo] at hnone hdue
    rw [hnone] at hdue
    cases hdue
  | timer id =>
    obtain ⟨timer, htimer, hdue⟩ := bind_eq_some_iff.mp hdue
    rw [dueInfo, htimer, bind_some] at hnone
    obtain ⟨hlt, hphase, hinfo⟩ := TimerState.lt_of_due_later hnone hdue
    exact ⟨hlt, id, timer, rfl, htimer, hphase, hinfo⟩

end Due

def World.latest {Ms : Type} (clock : Nat → Instant) (world : World Ms) : Instant :=
  clock (world.readings - 1)

/-- Looking at sources fires timers that have elapsed, and changes no other. -/
structure Looked {Ms : Type} (clock : Nat → Instant) (world next : World Ms) : Prop where
  controllers : next.controllers = world.controllers
  readings : world.readings ≤ next.readings
  length : next.timers.length = world.timers.length
  timers : ∀ (id : Nat) (timer : TimerState Ms), world.timers[id]? = some timer →
    next.timers[id]? = some timer ∨ (timer.phase = .armed ∧
      timer.deadlineAt ≤ next.latest clock ∧
      next.timers[id]? = some { timer with phase := .fired })

namespace Looked

variable {Ms : Type} {clock : Nat → Instant} {world middle next : World Ms} {source : Source}
  {info : AbortInfo Ms} {now : Instant}

theorem refl (world : World Ms) : Looked clock world world where
  controllers := rfl
  readings := Nat.le_refl _
  length := rfl
  timers := fun _ _ htimer => .inl htimer

theorem latest_le (hclock : Monotone clock) (hlooked : Looked clock world next) :
    world.latest clock ≤ next.latest clock :=
  hclock (Nat.sub_le_sub_right hlooked.readings 1)

theorem trans (hclock : Monotone clock) (hfirst : Looked clock world middle)
    (hsecond : Looked clock middle next) : Looked clock world next where
  controllers := hsecond.controllers.trans hfirst.controllers
  readings := hfirst.readings.trans hsecond.readings
  length := hsecond.length.trans hfirst.length
  timers := by
    intro id timer htimer
    rcases hfirst.timers id timer htimer with hsame | ⟨harmed, helapsed, hfired⟩
    · exact hsecond.timers id timer hsame
    · rcases hsecond.timers id _ hfired with hsame | ⟨hagain, -⟩
      · exact .inr ⟨harmed, helapsed.trans (hsecond.latest_le hclock), hsame⟩
      · cases hagain

variable (hlooked : Looked clock world next)
include hlooked

theorem known (hknown : source.Known world) : source.Known next := by
  cases source with
  | controller id => rwa [Source.Known, hlooked.controllers]
  | timer id => rwa [Source.Known, hlooked.length]

theorem kept (hdue : dueInfo now world source = some info) :
    dueInfo now next source = some info := by
  cases source with
  | controller id => rwa [dueInfo, hlooked.controllers]
  | timer id =>
    obtain ⟨timer, htimer, hdue⟩ := bind_eq_some_iff.mp hdue
    rcases hlooked.timers id timer htimer with hsame | ⟨harmed, -, hfired⟩
    · exact bind_eq_some_iff.mpr ⟨timer, hsame, hdue⟩
    · refine bind_eq_some_iff.mpr ⟨_, hfired, ?_⟩
      simp only [TimerState.due, harmed] at hdue
      split at hdue
      · exact hdue
      · cases hdue

theorem of_next (hnow : next.latest clock ≤ now) (hdue : dueInfo now next source = some info) :
    dueInfo now world source = some info := by
  cases source with
  | controller id => rwa [dueInfo, hlooked.controllers] at hdue
  | timer id =>
    obtain ⟨after, hafter, hdue⟩ := bind_eq_some_iff.mp hdue
    have hbound : id < world.timers.length :=
      hlooked.length ▸ (List.getElem?_eq_some_iff.mp hafter).1
    have htimer := List.getElem?_eq_getElem hbound
    refine bind_eq_some_iff.mpr ⟨_, htimer, ?_⟩
    rcases hlooked.timers id _ htimer with hsame | ⟨harmed, helapsed, hfired⟩
    · obtain rfl := mem_unique hafter hsame
      exact hdue
    · obtain rfl := mem_unique hafter hfired
      rw [TimerState.due, harmed]
      exact (if_pos (helapsed.trans hnow)).trans hdue

end Looked

section Looking

variable {Ms : Type} {clock : Nat → Instant} {world : World Ms} {source : Source}
  {info : AbortInfo Ms} {now : Instant}

theorem Looked.fire {id : Nat} {timer : TimerState Ms} (htimer : world.timers[id]? = some timer)
    (harmed : timer.phase = .armed) (helapsed : timer.deadlineAt ≤ clock world.readings) :
    Looked clock world (world.tick.setPhase id timer .fired) where
  controllers := rfl
  readings := Nat.le_succ _
  length := List.length_set
  timers := by
    intro other found hfound
    by_cases hid : id = other
    · subst hid
      obtain rfl := mem_unique htimer hfound
      refine .inr ⟨harmed, helapsed, ?_⟩
      exact List.getElem?_set_self (List.getElem?_eq_some_iff.mp htimer).1
    · exact .inl ((List.getElem?_set_ne hid).trans hfound)

variable (clock) in
theorem sourceInfo_looked (world : World Ms) (source : Source) :
    Looked clock world (world.sourceInfo clock source).2 := by
  cases source with
  | controller id => exact .refl world
  | timer id =>
    rw [World.sourceInfo]
    split
    · exact .refl world
    next timer htimer =>
      split
      · exact .refl world
      · exact .refl world
      next hphase =>
        split
        next helapsed => exact .fire htimer hphase helapsed
        · exact
            { controllers := rfl
              readings := Nat.le_succ _
              length := rfl
              timers := fun _ _ hfound => .inl hfound }

variable (clock) in
theorem sourceInfo_spec (world : World Ms) (source : Source) :
    (∀ info now, (world.sourceInfo clock source).1 = some info →
      (world.sourceInfo clock source).2.latest clock ≤ now →
        dueInfo now world source = some info) ∧
    ∀ info now, now ≤ clock world.readings → dueInfo now world source = some info →
      (world.sourceInfo clock source).1 = some info := by
  cases source with
  | controller id => exact ⟨fun _ _ hseen _ => hseen, fun _ _ _ hdue => hdue⟩
  | timer id =>
    rw [World.sourceInfo]
    split
    next htimer =>
      refine ⟨fun _ _ hseen => (by cases hseen), fun _ _ _ hdue => ?_⟩
      rw [dueInfo, htimer] at hdue
      cases hdue
    next timer htimer =>
      simp only [dueInfo, htimer, bind_some, TimerState.due]
      split
      · exact ⟨fun _ _ hseen => (by cases hseen), fun _ _ _ hdue => hdue⟩
      · exact ⟨fun _ _ hseen _ => hseen, fun _ _ _ hdue => hdue⟩
      · split
        next helapsed =>
          refine ⟨fun info now hseen hnow => ?_, fun info now _ hdue => ?_⟩
          · exact (if_pos (helapsed.trans hnow)).trans hseen
          · split at hdue
            · exact hdue
            · cases hdue
        next hnot =>
          refine ⟨fun _ _ hseen => (by cases hseen), fun info now hnow hdue => ?_⟩
          split at hdue
          next helapsed => exact absurd (helapsed.trans hnow) hnot
          · cases hdue

/-- The same for a list of sources, all against the world before the first of them. -/
theorem readSources_spec (hclock : Monotone clock) (sources : List Source) (world : World Ms) :
    Looked clock world (readSources clock sources world).2 ∧
    (readSources clock sources world).1.length = sources.length ∧
    ∀ seen ∈ sources.zip (readSources clock sources world).1,
      (∀ info now, seen.2 = some info → (readSources clock sources world).2.latest clock ≤ now →
        dueInfo now world seen.1 = some info) ∧
      ∀ info now, now ≤ clock world.readings → dueInfo now world seen.1 = some info →
        seen.2 = some info := by
  induction sources generalizing world with
  | nil => exact ⟨.refl world, rfl, fun seen hseen => absurd hseen not_mem_nil⟩
  | cons source sources ih =>
    have hhead := sourceInfo_looked clock world source
    obtain ⟨hseen, hdue⟩ := sourceInfo_spec clock world source
    obtain ⟨hrest, hlength, hspec⟩ := ih (world.sourceInfo clock source).2
    rw [readSources]
    refine ⟨hhead.trans hclock hrest, congrArg Nat.succ hlength, fun seen hmem => ?_⟩
    rcases mem_cons.mp hmem with rfl | hmem
    · exact ⟨fun info now hsome hnow => hseen info now hsome ((hrest.latest_le hclock).trans hnow),
        hdue⟩
    · obtain ⟨hseen, hdue⟩ := hspec seen hmem
      refine ⟨fun info now hsome hnow => ?_, fun info now hnow hsome => ?_⟩
      · exact hhead.of_next ((hrest.latest_le hclock).trans hnow) (hseen info now hsome hnow)
      · exact hdue info now (hnow.trans (hclock hhead.readings)) (hhead.kept hsome)

theorem filterMap_zip_fst {α β γ : Type} (f : α → Option γ) {list : List α} {other : List β}
    (hlength : other.length = list.length) :
    (list.zip other).filterMap (fun pair => f pair.1) = list.filterMap f := by
  conv_rhs => rw [← map_fst_zip (Nat.le_of_eq hlength.symm), filterMap_map]
  rfl

theorem filterMap_zip_snd {α β : Type} {list : List α} {other : List (Option β)}
    (hlength : other.length = list.length) :
    (list.zip other).filterMap Prod.snd = other.filterMap id := by
  conv_rhs => rw [← map_snd_zip (Nat.le_of_eq hlength), filterMap_map]
  rfl

theorem readSources_of_view (hclock : Monotone clock) {sources : List Source}
    (hview : view now world sources = some info) (hnow : now ≤ clock world.readings)
    (hinfo : info.2 ≤ now) :
    ((readSources clock sources world).1.filterMap id).argmin Prod.snd = some info := by
  obtain ⟨-, hlength, hspec⟩ := readSources_spec hclock sources world
  rw [view, ← filterMap_zip_fst _ hlength] at hview
  obtain ⟨least, hleast, hcase⟩ := Lists.argmin_filterMap_more hview
    fun seen hseen found hdue => (hspec seen hseen).2 found now hnow hdue
  rw [filterMap_zip_snd hlength] at hleast
  rw [hleast]
  rcases hcase with rfl | ⟨before, seen, after, hlist, hnone, hseen, hle, -⟩
  · rfl
  · have hmem : seen ∈ sources.zip (readSources clock sources world).1 := by
      rw [hlist]
      exact mem_append_right _ mem_cons_self
    have hlater := (hspec seen hmem).1 least _ hseen (Nat.le_refl _)
    exact absurd (lt_of_dueInfo_later hnone hlater).1 (not_lt.mpr (hle.trans hinfo))

/-- The clock passed a deadline while the sources were looked at: a timer was found armed, but
its deadline is no later than what is reported, with another reason. -/
def Torn (clock : Nat → Instant) (world : World Ms) (sources : List Source) : Prop :=
  ∃ info, ((readSources clock sources world).1.filterMap id).argmin Prod.snd = some info ∧
    ∃ id timer, (Source.timer id, none) ∈ sources.zip (readSources clock sources world).1 ∧
      world.timers[id]? = some timer ∧ timer.phase = .armed ∧ timer.deadlineAt ≤ info.2 ∧
      .timeout timer.reason ≠ info.1

theorem view_of_readSources (hclock : Monotone clock) {sources : List Source}
    (hread : ((readSources clock sources world).1.filterMap id).argmin Prod.snd = some info)
    (htorn : ¬ Torn clock world sources)
    (hnow : (readSources clock sources world).2.latest clock ≤ now) :
    ∃ instant, view now world sources = some (info.1, instant) := by
  obtain ⟨-, hlength, hspec⟩ := readSources_spec hclock sources world
  have hseen := hread
  rw [← filterMap_zip_snd hlength] at hseen
  have hkept : ∀ seen ∈ sources.zip (readSources clock sources world).1, ∀ found,
      seen.2 = some found → dueInfo now world seen.1 = some found :=
    fun seen hmem found hfound => (hspec seen hmem).1 found now hfound hnow
  obtain ⟨least, hleast, hcase⟩ := Lists.argmin_filterMap_more hseen hkept
  rw [filterMap_zip_fst (dueInfo now world) hlength] at hleast
  rcases hcase with rfl | ⟨before, seen, after, hlist, hnone, hdue, hle, -⟩
  · exact ⟨least.2, hleast⟩
  · have hmem : seen ∈ sources.zip (readSources clock sources world).1 := by
      rw [hlist]
      exact mem_append_right _ mem_cons_self
    have hmissed : dueInfo (clock world.readings) world seen.1 = none := by
      cases hfound : dueInfo (clock world.readings) world seen.1 with
      | none => rfl
      | some found =>
        rw [(hspec seen hmem).2 found _ (Nat.le_refl _) hfound] at hnone
        cases hnone
    obtain ⟨-, id, timer, hsource, htimer, harmed, rfl⟩ := lt_of_dueInfo_later hmissed hdue
    have hreason : AbortReason.timeout timer.reason = info.1 := by
      by_contra hne
      refine htorn ⟨info, hread, id, timer, ?_, htimer, harmed, hle, hne⟩
      rw [← hsource, ← hnone]
      exact hmem
    exact ⟨timer.deadlineAt, by rw [view, hleast, ← hreason]; rfl⟩

end Looking

end Keel.AbortSignals
