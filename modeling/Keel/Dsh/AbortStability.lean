import Keel.Dsh.AbortSignals

/-! # Stability of abort classification

What a signal has reported stays so as long as no abort overtakes it within one reading of the
clock and no read has the clock pass a deadline half way through its sources.
-/

namespace Keel.AbortSignals

open List Option

/-- What a step can do to what sources say, as of the last reading of the clock: nothing is
taken back, and what is added is later, except for the controller that is aborted. -/
structure Follows {Ms : Type} (clock : Nat → Instant) (world next : World Ms)
    (aborted : Source → AbortInfo Ms → Prop) : Prop where
  latest : world.latest clock ≤ next.latest clock
  known : ∀ source : Source, source.Known world → source.Known next
  kept : ∀ source info, source.Known world → dueInfo (world.latest clock) world source = some info →
    dueInfo (next.latest clock) next source = some info
  added : ∀ source info, source.Known world → dueInfo (world.latest clock) world source = none →
    dueInfo (next.latest clock) next source = some info →
      world.latest clock < info.2 ∨ aborted source info

/-- Nothing is recorded for the future. -/
structure Recorded {Ms : Type} (clock : Nat → Instant) (world : World Ms) : Prop where
  controllers : ∀ info, some info ∈ world.controllers → info.2 ≤ world.latest clock
  fired : ∀ timer ∈ world.timers, timer.phase = .fired → timer.deadlineAt ≤ world.latest clock

section Steps

variable {Ms : Type} {delays : Delays Ms} {clock : Nat → Instant} {world next : World Ms}

theorem World.latest_le (hclock : Monotone clock) (world : World Ms) :
    world.latest clock ≤ clock world.readings :=
  hclock (Nat.sub_le _ 1)

theorem Recorded.le (hrecorded : Recorded clock world) {source : Source} {info : AbortInfo Ms}
    (hdue : dueInfo (world.latest clock) world source = some info) :
    info.2 ≤ world.latest clock := by
  cases source with
  | controller id =>
    have hentry := join_eq_some_iff.mp hdue
    exact hrecorded.controllers info (mem_of_getElem? hentry)
  | timer id =>
    obtain ⟨timer, htimer, hdue⟩ := bind_eq_some_iff.mp hdue
    rw [TimerState.due] at hdue
    split at hdue
    · cases hdue
    next hphase =>
      cases hdue
      exact hrecorded.fired timer (mem_of_getElem? htimer) hphase
    · split at hdue
      next helapsed =>
        cases hdue
        exact helapsed
      · cases hdue

theorem Recorded.view_le (hrecorded : Recorded clock world) {sources : List Source}
    {info : AbortInfo Ms} (hview : view (world.latest clock) world sources = some info) :
    info.2 ≤ world.latest clock := by
  obtain ⟨source, -, hdue⟩ := mem_filterMap.mp (argmin_mem hview)
  exact hrecorded.le hdue

section
variable (hclock : Monotone clock) (hlooked : Looked clock world next)
include hclock hlooked

theorem Looked.follows : Follows clock world next fun _ _ => False where
  latest := hlooked.latest_le hclock
  known := fun _ => hlooked.known
  kept := fun _ _ _ hdue => hlooked.kept (dueInfo_mono (hlooked.latest_le hclock) hdue)
  added := fun _ _ _ hnone hdue =>
    .inl (lt_of_dueInfo_later hnone (hlooked.of_next (Nat.le_refl _) hdue)).1

theorem Looked.recorded (hrecorded : Recorded clock world) : Recorded clock next where
  controllers := fun info hinfo =>
    (hrecorded.controllers info (hlooked.controllers ▸ hinfo)).trans (hlooked.latest_le hclock)
  fired := by
    intro timer htimer hphase
    obtain ⟨id, hid⟩ := List.mem_iff_getElem?.mp htimer
    have hbound : id < world.timers.length :=
      hlooked.length ▸ (List.getElem?_eq_some_iff.mp hid).1
    rcases hlooked.timers id _ (List.getElem?_eq_getElem hbound) with hsame | ⟨-, helapsed, hfired⟩
    · obtain rfl := mem_unique hid hsame
      exact (hrecorded.fired _ (List.getElem_mem hbound) hphase).trans (hlooked.latest_le hclock)
    · obtain rfl := mem_unique hid hfired
      exact helapsed

end

theorem follows_of_append (hlatest : world.latest clock ≤ next.latest clock)
    {controllers : List (Option (AbortInfo Ms))} {timers : List (TimerState Ms)}
    (hcontrollers : next.controllers = world.controllers ++ controllers)
    (htimers : next.timers = world.timers ++ timers) :
    Follows clock world next fun _ _ => False := by
  have hsame : ∀ {now : Instant} {source : Source}, source.Known world →
      dueInfo now next source = dueInfo now world source := by
    intro now source hknown
    cases source with
    | controller id => rw [dueInfo, dueInfo, hcontrollers, getElem?_append_left hknown]
    | timer id => rw [dueInfo, dueInfo, htimers, getElem?_append_left hknown]
  refine
    { latest := hlatest
      known := fun source hknown => ?_
      kept := fun source info hknown hdue => (hsame hknown).trans (dueInfo_mono hlatest hdue)
      added := fun source info hknown hnone hdue =>
        .inl (lt_of_dueInfo_later hnone ((hsame hknown).symm.trans hdue)).1 }
  cases source with
  | controller id =>
    rw [Source.Known, hcontrollers, length_append]
    exact Nat.lt_add_right _ hknown
  | timer id =>
    rw [Source.Known, htimers, length_append]
    exact Nat.lt_add_right _ hknown

theorem newController_recorded (hrecorded : Recorded clock world) :
    Recorded clock world.newController.2 where
  controllers := by
    intro info hinfo
    rcases mem_append.mp hinfo with hold | hnew
    · exact hrecorded.controllers info hold
    · cases mem_singleton.mp hnew
  fired := hrecorded.fired

section
variable (hclock : Monotone clock)
include hclock

/-- A deadline arms a timer of its own after reading the clock, or changes nothing. -/
theorem deadline_follows {upstream : Option AbortSignal} {timeoutMs : Ms} {code : String}
    {made : AbortSignal × Option Nat}
    (hmade : deadline delays clock world upstream timeoutMs code = some (made, next)) :
    (Follows clock world next fun _ _ => False) ∧ next.log = world.log ∧
      (Recorded clock world → Recorded clock next) := by
  rw [deadline] at hmade
  split at hmade
  · cases hmade
    exact ⟨(Looked.refl world).follows hclock, rfl, id⟩
  · split at hmade
    · cases hmade
      refine ⟨follows_of_append (world.latest_le hclock) (append_nil _).symm rfl, rfl,
        fun hrecorded => ?_⟩
      refine
        { controllers := fun info hinfo =>
            (hrecorded.controllers info hinfo).trans (world.latest_le hclock)
          fired := fun timer htimer hphase => ?_ }
      rcases mem_append.mp htimer with hold | hnew
      · exact (hrecorded.fired timer hold hphase).trans (world.latest_le hclock)
      · obtain rfl := mem_singleton.mp hnew
        cases hphase
    · cases hmade

theorem abort_follows (world : World Ms) (id : Nat) (reason : AbortReason Ms) :
    Follows clock world (world.abort clock id reason) fun source info =>
      source = .controller id ∧ world.controllers[id]? = some none ∧
        info = (reason, clock world.readings) := by
  rw [World.abort]
  split
  next hopen =>
    refine
      { latest := world.latest_le hclock
        known := fun source hknown => ?_
        kept := fun source info hknown hdue => ?_
        added := fun source info hknown hnone hdue => ?_ }
    · cases source with
      | controller other => rwa [Source.Known, List.length_set]
      | timer other => exact hknown
    · cases source with
      | controller other =>
        by_cases hid : id = other
        · subst hid
          rw [dueInfo, hopen] at hdue
          cases hdue
        · rw [dueInfo, List.getElem?_set_ne hid]
          exact hdue
      | timer other => exact dueInfo_mono (world.latest_le hclock) hdue
    · cases source with
      | controller other =>
        by_cases hid : id = other
        · subst hid
          rw [dueInfo, List.getElem?_set_self (List.getElem?_eq_some_iff.mp hopen).1] at hdue
          exact .inr ⟨rfl, hopen, (Option.some.inj hdue).symm⟩
        · rw [dueInfo, List.getElem?_set_ne hid] at hdue
          rw [dueInfo] at hnone
          rw [hnone] at hdue
          cases hdue
      | timer other => exact .inl (lt_of_dueInfo_later hnone hdue).1
  · exact { (Looked.refl world).follows hclock with
      added := fun source info hknown hnone hdue => by
        rw [hnone] at hdue
        cases hdue }

theorem abort_recorded (hrecorded : Recorded clock world) (id : Nat) (reason : AbortReason Ms) :
    Recorded clock (world.abort clock id reason) := by
  rw [World.abort]
  split
  · refine
      { controllers := fun info hinfo => ?_
        fired := fun timer htimer hphase =>
          (hrecorded.fired timer htimer hphase).trans (world.latest_le hclock) }
    rcases mem_or_eq_of_mem_set hinfo with hold | hnew
    · exact (hrecorded.controllers info hold).trans (world.latest_le hclock)
    · cases hnew
      exact Nat.le_refl _
  · exact hrecorded

theorem cleared_follows {id : Nat} {timer : TimerState Ms} (htimer : world.timers[id]? = some timer)
    (harmed : timer.phase = .armed) (hnot : ¬ timer.deadlineAt ≤ clock world.readings) :
    Follows clock world (world.tick.setPhase id timer .cleared) fun _ _ => False := by
  have hself : (world.tick.setPhase id timer .cleared).timers[id]? =
      some { timer with phase := .cleared } :=
    List.getElem?_set_self (List.getElem?_eq_some_iff.mp htimer).1
  have hothers : ∀ other, id ≠ other →
      (world.tick.setPhase id timer .cleared).timers[other]? = world.timers[other]? :=
    fun _ hid => List.getElem?_set_ne hid
  refine
    { latest := world.latest_le hclock
      known := fun source hknown => ?_
      kept := fun source info hknown hdue => ?_
      added := fun source info hknown hnone hdue => ?_ }
  · cases source with
    | controller other => exact hknown
    | timer other => exact Nat.lt_of_lt_of_eq hknown List.length_set.symm
  · cases source with
    | controller other => exact hdue
    | timer other =>
      by_cases hid : id = other
      · subst hid
        rw [dueInfo, htimer, bind_some, TimerState.due, harmed] at hdue
        have helapsed : ¬ timer.deadlineAt ≤ world.latest clock :=
          fun hle => hnot (hle.trans (world.latest_le hclock))
        cases (if_neg helapsed).symm.trans hdue
      · refine dueInfo_mono (world.latest_le hclock) ?_
        rw [dueInfo, hothers other hid]
        exact hdue
  · cases source with
    | controller other =>
      rw [dueInfo] at hnone
      rw [dueInfo, World.setPhase, World.tick, hnone] at hdue
      cases hdue
    | timer other =>
      by_cases hid : id = other
      · subst hid
        rw [dueInfo, hself] at hdue
        cases hdue
      · rw [dueInfo, hothers other hid] at hdue
        exact .inl (lt_of_dueInfo_later hnone hdue).1

/-- Dropping a deadline fires its timer if it has elapsed, and else keeps it from firing. -/
theorem clear_follows (world : World Ms) (id : Nat) :
    (Follows clock world (world.clear clock id) fun _ _ => False) ∧
      (world.clear clock id).log = world.log ∧
      (Recorded clock world → Recorded clock (world.clear clock id)) := by
  rw [World.clear]
  split
  · exact ⟨(Looked.refl world).follows hclock, rfl, fun h => h⟩
  next timer htimer =>
    split
    next harmed =>
      split
      next helapsed =>
        have hlooked : Looked clock world (world.tick.setPhase id timer .fired) :=
          .fire htimer harmed helapsed
        exact ⟨hlooked.follows hclock, rfl, hlooked.recorded hclock⟩
      next hnot =>
        refine ⟨cleared_follows hclock htimer harmed hnot, rfl, fun hrecorded => ?_⟩
        refine
          { controllers := fun info hinfo =>
              (hrecorded.controllers info hinfo).trans (world.latest_le hclock)
            fired := fun other hother hphase => ?_ }
        rcases mem_or_eq_of_mem_set hother with hold | rfl
        · exact (hrecorded.fired other hold hphase).trans (world.latest_le hclock)
        · cases hphase
    · exact ⟨(Looked.refl world).follows hclock, rfl, fun h => h⟩

end

theorem sourceInfo_log (world : World Ms) (source : Source) :
    (world.sourceInfo clock source).2.log = world.log := by
  cases source with
  | controller id => rfl
  | timer id =>
    rw [World.sourceInfo]
    split
    · rfl
    · split
      · rfl
      · rfl
      · split <;> rfl

theorem readSources_log (sources : List Source) (world : World Ms) :
    (readSources clock sources world).2.log = world.log := by
  induction sources generalizing world with
  | nil => rfl
  | cons source sources ih => exact (ih _).trans (sourceInfo_log world source)

theorem step_read {signal : AbortSignal}
    (hstep : step delays clock world (.read signal) = some next) :
    (∀ source ∈ signal.sources, source.Known world) ∧
      next = { (readSources clock signal.sources world).2 with
        log := world.log ++ [(signal, (((readSources clock signal.sources world).1.filterMap
          id).argmin Prod.snd).map Prod.fst)] } := by
  rw [step] at hstep
  split at hstep
  next hknown =>
    rw [abortInfo_eq] at hstep
    refine ⟨hknown, ?_⟩
    rw [← Option.some.inj hstep, readSources_log]
  · cases hstep

end Steps

section Runs

variable {Ms : Type} {delays : Delays Ms} {clock : Nat → Instant} {world next : World Ms}
  {event : Event Ms}

/-- What the event adds at the present instant: the controller it aborts. -/
def Event.Aborts (clock : Nat → Instant) (world : World Ms) (event : Event Ms) (source : Source)
    (info : AbortInfo Ms) : Prop :=
  ∃ id reason, event = .abort id reason ∧ source = .controller id ∧
    world.controllers[id]? = some none ∧ info = (reason, clock world.readings)

def Event.entry (clock : Nat → Instant) (world : World Ms) :
    Event Ms → List (AbortSignal × Option (AbortReason Ms))
  | .read signal =>
    [(signal, (((readSources clock signal.sources world).1.filterMap id).argmin
      Prod.snd).map Prod.fst)]
  | _ => []

theorem step_follows (hclock : Monotone clock) (hstep : step delays clock world event = some next) :
    Follows clock world next (event.Aborts clock world) ∧
      (Recorded clock world → Recorded clock next) ∧
      next.log = world.log ++ event.entry clock world := by
  have hweaken : ∀ {other : World Ms}, (Follows clock world other fun _ _ => False) →
      Follows clock world other (event.Aborts clock world) := fun hfollows =>
    { hfollows with
      added := fun source info hknown hnone hdue =>
        .inl ((hfollows.added source info hknown hnone hdue).resolve_right id) }
  cases event with
  | newController =>
    cases hstep
    exact ⟨hweaken (follows_of_append (Nat.le_refl _) rfl (append_nil _).symm),
      newController_recorded, (append_nil _).symm⟩
  | deadline upstream timeoutMs code =>
    obtain ⟨made, hmade, rfl⟩ := map_eq_some_iff.mp hstep
    obtain ⟨hfollows, hlog, hrecorded⟩ := deadline_follows hclock hmade
    exact ⟨hweaken hfollows, hrecorded, hlog.trans (append_nil _).symm⟩
  | abort id reason =>
    rw [step] at hstep
    split at hstep
    · cases hstep
      refine ⟨{ abort_follows hclock world id reason with
        added := fun source info hknown hnone hdue => ?_ }, fun hrecorded =>
          abort_recorded hclock hrecorded id reason, ?_⟩
      · exact ((abort_follows hclock world id reason).added source info hknown hnone hdue).imp_right
          fun ⟨hsource, hopen, hinfo⟩ => ⟨id, reason, rfl, hsource, hopen, hinfo⟩
      · rw [World.abort]
        split <;> exact (append_nil _).symm
    · cases hstep
  | dropDeadline timer =>
    rw [step] at hstep
    split at hstep
    · cases hstep
      obtain ⟨hfollows, hlog, hrecorded⟩ := clear_follows hclock world timer
      exact ⟨hweaken hfollows, hrecorded, hlog.trans (append_nil _).symm⟩
    · cases hstep
  | read signal =>
    obtain ⟨-, rfl⟩ := step_read hstep
    obtain ⟨hlooked, -, -⟩ := readSources_spec hclock signal.sources world
    have hread : Looked clock world { (readSources clock signal.sources world).2 with
        log := world.log ++ [(signal, (((readSources clock signal.sources world).1.filterMap
          id).argmin Prod.snd).map Prod.fst)] } :=
      ⟨hlooked.controllers, hlooked.readings, hlooked.length, hlooked.timers⟩
    exact ⟨hweaken (hread.follows hclock), hread.recorded hclock, rfl⟩

def Aborted (clock : Nat → Instant) (world : World Ms) (signal : AbortSignal) : Prop :=
  ∃ source ∈ signal.sources, source.Known world ∧
    ∃ info, dueInfo (world.latest clock) world source = some info

def Settled (clock : Nat → Instant) (world : World Ms) (signal : AbortSignal)
    (reason : AbortReason Ms) : Prop :=
  (∀ source ∈ signal.sources, source.Known world) ∧
    ∃ instant, view (world.latest clock) world signal.sources = some (reason, instant)

/-- A controller is aborted, with another reason, at the very instant of a reason that a read
has returned, and no source listed before it in that signal has aborted. -/
def Overtakes (clock : Nat → Instant) (world : World Ms) (id : Nat) (reason : AbortReason Ms) :
    Prop :=
  world.controllers[id]? = some none ∧ ∃ signal reported,
    (signal, some reported) ∈ world.log ∧ reported ≠ reason ∧
    view (world.latest clock) world signal.sources = some (reported, clock world.readings) ∧
    ∃ before after, signal.sources = before ++ .controller id :: after ∧
      ∀ source ∈ before, dueInfo (world.latest clock) world source = none

/-- No abort overtakes a reported reason, and no read has the clock pass a deadline. -/
def Calm (clock : Nat → Instant) (world : World Ms) : Event Ms → Prop
  | .abort id reason => ¬ Overtakes clock world id reason
  | .read signal => ¬ Torn clock world signal.sources
  | _ => True

theorem Aborted.step {aborts : Source → AbortInfo Ms → Prop} {signal : AbortSignal}
    (hfollows : Follows clock world next aborts) (haborted : Aborted clock world signal) :
    Aborted clock next signal := by
  obtain ⟨source, hsource, hknown, info, hdue⟩ := haborted
  exact ⟨source, hsource, hfollows.known source hknown, info,
    hfollows.kept source info hknown hdue⟩

theorem Settled.step {signal : AbortSignal} {reason : AbortReason Ms} (hclock : Monotone clock)
    (hfollows : Follows clock world next (event.Aborts clock world))
    (hrecorded : Recorded clock world) (hcalm : Calm clock world event)
    (hlogged : (signal, some reason) ∈ world.log) (hsettled : Settled clock world signal reason) :
    Settled clock next signal reason := by
  obtain ⟨hknown, instant, hview⟩ := hsettled
  refine ⟨fun source hsource => hfollows.known source (hknown source hsource), ?_⟩
  have hinstant := hrecorded.view_le hview
  obtain ⟨least, hleast, hcase⟩ := Lists.argmin_filterMap_more hview
    fun source hsource info hdue => hfollows.kept source info (hknown source hsource) hdue
  rcases hcase with rfl | ⟨before, source, after, hsources, hnone, hdue, hle, hbefore⟩
  · exact ⟨instant, hleast⟩
  · have hmem : source ∈ signal.sources := by
      rw [hsources]
      exact mem_append_right _ mem_cons_self
    rcases hfollows.added source least (hknown source hmem) hnone hdue with hlater | haborts
    · exact absurd hlater (not_lt.mpr (hle.trans hinstant))
    · obtain ⟨id, other, rfl, rfl, hopen, rfl⟩ := haborts
      -- the instant reported and the instant of the abort are the same
      have hsame : instant = clock world.readings :=
        le_antisymm (hinstant.trans (world.latest_le hclock)) hle
      have hreason : reason = other := by
        by_contra hne
        refine hcalm ⟨hopen, signal, reason, hlogged, hne, hsame ▸ hview, before, after, hsources,
          fun earlier hearlier => ?_⟩
        cases hearly : dueInfo (world.latest clock) world earlier with
        | none => rfl
        | some found =>
          have hlt := hbefore earlier hearlier found hearly
          exact absurd ((hrecorded.le hearly).trans (world.latest_le hclock)) (not_le.mpr hlt)
      exact ⟨clock world.readings, hreason ▸ hleast⟩

section Reads

variable {signal : AbortSignal} {info : AbortInfo Ms}

theorem Looked.view_eq (hlooked : Looked clock world next) (sources : List Source) :
    view (next.latest clock) next sources = view (next.latest clock) world sources := by
  have hsame : ∀ source, dueInfo (next.latest clock) next source =
      dueInfo (next.latest clock) world source := by
    intro source
    ext found
    exact ⟨hlooked.of_next (Nat.le_refl _), hlooked.kept⟩
  rw [view, view, funext hsame]

theorem Aborted.read (hclock : Monotone clock) (haborted : Aborted clock world signal) :
    ∃ info, ((readSources clock signal.sources world).1.filterMap id).argmin Prod.snd =
      some info := by
  obtain ⟨source, hsource, -, found, hdue⟩ := haborted
  obtain ⟨-, hlength, hspec⟩ := readSources_spec hclock signal.sources world
  obtain ⟨index, hindex⟩ := List.mem_iff_getElem?.mp hsource
  have hbound : index < (readSources clock signal.sources world).1.length :=
    hlength ▸ (List.getElem?_eq_some_iff.mp hindex).1
  have hmem : (source, (readSources clock signal.sources world).1[index]) ∈
      signal.sources.zip (readSources clock signal.sources world).1 :=
    List.mem_of_getElem? (List.getElem?_zip_eq_some.mpr
      ⟨hindex, List.getElem?_eq_getElem hbound⟩)
  have hseen := (hspec _ hmem).2 found _ (world.latest_le hclock) hdue
  cases hargmin : ((readSources clock signal.sources world).1.filterMap id).argmin Prod.snd with
  | some info => exact ⟨info, rfl⟩
  | none =>
    have hnone := List.filterMap_eq_nil_iff.mp (List.argmin_eq_none.mp hargmin) _
      (List.getElem_mem hbound)
    cases hseen.symm.trans hnone

theorem aborted_of_read (hclock : Monotone clock)
    (hread : ((readSources clock signal.sources world).1.filterMap id).argmin Prod.snd = some info)
    (hknown : ∀ source ∈ signal.sources, source.Known world)
    (hlooked : Looked clock world next)
    (hlatest : next.latest clock = (readSources clock signal.sources world).2.latest clock) :
    Aborted clock next signal := by
  obtain ⟨-, hlength, hspec⟩ := readSources_spec hclock signal.sources world
  have hseen := argmin_mem hread
  rw [← filterMap_zip_snd hlength] at hseen
  obtain ⟨seen, hmem, hsome⟩ := mem_filterMap.mp hseen
  have hsource := (of_mem_zip hmem).1
  refine ⟨seen.1, hsource, hlooked.known (hknown _ hsource), info, hlooked.kept ?_⟩
  exact (hspec seen hmem).1 info _ hsome hlatest.ge

end Reads

/-- Every read that found a signal aborted is still right, and no later one disagrees. -/
structure StaysAborted (clock : Nat → Instant) (world : World Ms) : Prop where
  aborted : ∀ signal reason, (signal, some reason) ∈ world.log → Aborted clock world signal
  pairwise : world.log.Pairwise fun earlier later =>
    earlier.1 = later.1 → earlier.2.isSome → later.2.isSome

/-- Every reason returned is still the signal's, and no later read disagrees. -/
structure StaysSettled (clock : Nat → Instant) (world : World Ms) : Prop where
  settled : ∀ signal reason, (signal, some reason) ∈ world.log →
    Settled clock world signal reason
  pairwise : world.log.Pairwise fun earlier later =>
    earlier.1 = later.1 → ∀ reason, earlier.2 = some reason → later.2 = some reason

theorem StaysAborted.step (hclock : Monotone clock) (hstays : StaysAborted clock world)
    (hstep : step delays clock world event = some next) : StaysAborted clock next := by
  obtain ⟨hfollows, -, hlog⟩ := step_follows hclock hstep
  have hold : ∀ signal reason, (signal, some reason) ∈ world.log → Aborted clock next signal :=
    fun signal reason hlogged => (hstays.aborted signal reason hlogged).step hfollows
  cases event with
  | read signal =>
    obtain ⟨hknown, hnext⟩ := step_read hstep
    obtain ⟨hlooked, -, -⟩ := readSources_spec hclock signal.sources world
    refine { aborted := fun other reason hlogged => ?_, pairwise := ?_ }
    · rw [hlog] at hlogged
      rcases mem_append.mp hlogged with hearlier | hlast
      · exact hold other reason hearlier
      · obtain ⟨rfl, hreason⟩ := Prod.mk.inj (mem_singleton.mp hlast)
        obtain ⟨info, hread, -⟩ := map_eq_some_iff.mp hreason.symm
        refine aborted_of_read hclock hread hknown ?_ (by rw [hnext]; rfl)
        rw [hnext]
        exact ⟨hlooked.controllers, hlooked.readings, hlooked.length, hlooked.timers⟩
    · rw [hlog]
      refine pairwise_append.mpr ⟨hstays.pairwise, pairwise_singleton _ _, ?_⟩
      rintro ⟨other, reason⟩ hearlier later hlater rfl hsome
      obtain rfl := mem_singleton.mp hlater
      obtain ⟨found, rfl⟩ := isSome_iff_exists.mp hsome
      obtain ⟨info, hread⟩ := (hstays.aborted _ _ hearlier).read hclock
      rw [hread]
      rfl
  | newController | deadline | abort | dropDeadline =>
    have hsame : next.log = world.log := hlog.trans (append_nil _)
    exact { aborted := fun signal reason hlogged => hold signal reason (hsame ▸ hlogged)
            pairwise := hsame ▸ hstays.pairwise }

theorem StaysSettled.step (hclock : Monotone clock) (hrecorded : Recorded clock world)
    (hstays : StaysSettled clock world) (hcalm : Calm clock world event)
    (hstep : step delays clock world event = some next) : StaysSettled clock next := by
  obtain ⟨hfollows, -, hlog⟩ := step_follows hclock hstep
  have hold : ∀ signal reason, (signal, some reason) ∈ world.log →
      Settled clock next signal reason := fun signal reason hlogged =>
    (hstays.settled signal reason hlogged).step hclock hfollows hrecorded hcalm hlogged
  cases event with
  | read signal =>
    obtain ⟨hknown, hnext⟩ := step_read hstep
    obtain ⟨hlooked, -, -⟩ := readSources_spec hclock signal.sources world
    have hlookedNext : Looked clock world next := by
      rw [hnext]
      exact ⟨hlooked.controllers, hlooked.readings, hlooked.length, hlooked.timers⟩
    refine { settled := fun other reason hlogged => ?_, pairwise := ?_ }
    · rw [hlog] at hlogged
      rcases mem_append.mp hlogged with hearlier | hlast
      · exact hold other reason hearlier
      · obtain ⟨rfl, hreason⟩ := Prod.mk.inj (mem_singleton.mp hlast)
        obtain ⟨info, hread, rfl⟩ := map_eq_some_iff.mp hreason.symm
        refine ⟨fun source hsource => hlookedNext.known (hknown source hsource), ?_⟩
        rw [hlookedNext.view_eq]
        exact view_of_readSources hclock hread hcalm (by rw [hnext]; exact Nat.le_refl _)
    · rw [hlog]
      refine pairwise_append.mpr ⟨hstays.pairwise, pairwise_singleton _ _, ?_⟩
      rintro ⟨other, outcome⟩ hearlier later hlater rfl reason rfl
      obtain rfl := mem_singleton.mp hlater
      obtain ⟨-, instant, hview⟩ := hstays.settled _ _ hearlier
      rw [readSources_of_view hclock hview (world.latest_le hclock) (hrecorded.view_le hview)]
      rfl
  | newController | deadline | abort | dropDeadline =>
    have hsame : next.log = world.log := hlog.trans (append_nil _)
    exact { settled := fun signal reason hlogged => hold signal reason (hsame ▸ hlogged)
            pairwise := hsame ▸ hstays.pairwise }

end Runs

section Classification

variable {Ms : Type} {delays : Delays Ms} {clock : Nat → Instant}

def CalmRun (delays : Delays Ms) (clock : Nat → Instant) : World Ms → List (Event Ms) → Prop
  | _, [] => True
  | world, event :: events => Calm clock world event ∧
      ∀ next, step delays clock world event = some next → CalmRun delays clock next events

theorem StaysAborted.run (hclock : Monotone clock) {world final : World Ms}
    (hstays : StaysAborted clock world) {events : List (Event Ms)}
    (hrun : run delays clock world events = some final) : StaysAborted clock final := by
  induction events generalizing world with
  | nil =>
    cases hrun
    exact hstays
  | cons event events ih =>
    obtain ⟨next, hstep, hrest⟩ := bind_eq_some_iff.mp hrun
    exact ih (hstays.step hclock hstep) hrest

theorem StaysSettled.run (hclock : Monotone clock) {world final : World Ms}
    (hrecorded : Recorded clock world) (hstays : StaysSettled clock world)
    {events : List (Event Ms)} (hcalm : CalmRun delays clock world events)
    (hrun : run delays clock world events = some final) : StaysSettled clock final := by
  induction events generalizing world with
  | nil =>
    cases hrun
    exact hstays
  | cons event events ih =>
    obtain ⟨next, hstep, hrest⟩ := bind_eq_some_iff.mp hrun
    obtain ⟨-, hnext, -⟩ := step_follows hclock hstep
    exact ih (hnext hrecorded) (hstays.step hclock hrecorded hcalm.1 hstep)
      (hcalm.2 next hstep) hrest

/-- With the clock at one instant, a read reports what its sources come to at that instant. -/
theorem abortInfo_now (now : Instant) (signal : AbortSignal) (world : World Ms) :
    (signal.abortInfo (fun _ => now) world).1 = view now world signal.sources := by
  have hconstant : Monotone fun _ : Nat => now := fun _ _ _ => Nat.le_refl now
  obtain ⟨-, hlength, hspec⟩ := readSources_spec hconstant signal.sources world
  rw [abortInfo_eq, view, ← filterMap_zip_fst (dueInfo now world) hlength,
    ← filterMap_zip_snd hlength]
  refine congrArg (List.argmin Prod.snd) (filterMap_congr fun seen hseen => ?_)
  ext info
  exact ⟨fun hsome => (hspec seen hseen).1 info now hsome (Nat.le_refl _),
    (hspec seen hseen).2 info now (Nat.le_refl _)⟩

theorem sources_fuse (signals : List AbortSignal) :
    (AbortSignal.fuse signals).sources = AbortSignal.childSources signals := by
  cases signals with
  | nil => rfl
  | cons signal signals =>
    cases signals with
    | nil => exact (append_nil _).symm
    | cons other signals => rfl

theorem mem_childSources {signals : List AbortSignal} {source : Source} :
    source ∈ AbortSignal.childSources signals ↔ ∃ signal ∈ signals, source ∈ signal.sources := by
  induction signals with
  | nil => simp [AbortSignal.childSources]
  | cons signal signals ih =>
    rw [AbortSignal.childSources, mem_append, ih, exists_mem_cons_iff]

theorem view_isSome_iff {now : Instant} {world : World Ms} {sources : List Source} :
    (view now world sources).isSome ↔ ∃ source ∈ sources, (dueInfo now world source).isSome := by
  rw [view, isSome_iff_ne_none, Ne, argmin_eq_none, filterMap_eq_nil_iff]
  simp only [not_forall, ← isSome_iff_ne_none, exists_prop]

theorem fuse_aborted_iff (now : Instant) (world : World Ms) (signals : List AbortSignal) :
    ((AbortSignal.fuse signals).abortInfo (fun _ => now) world).1.isSome ↔
      ∃ signal ∈ signals, (signal.abortInfo (fun _ => now) world).1.isSome := by
  simp only [abortInfo_now, view_isSome_iff, sources_fuse, mem_childSources]
  exact ⟨fun ⟨source, ⟨signal, hsignal, hsource⟩, hdue⟩ => ⟨signal, hsignal, source, hsource, hdue⟩,
    fun ⟨signal, hsignal, source, hsource, hdue⟩ => ⟨source, ⟨signal, hsignal, hsource⟩, hdue⟩⟩

/-- Over every run, a signal that was aborted stays aborted, and a fused one is aborted with its
sources; in a calm run, what `reason` has returned it always returns. -/
theorem classification_stable (hclock : Monotone clock) {events : List (Event Ms)}
    {world : World Ms} (hrun : run delays clock {} events = some world) :
    (world.log.Pairwise fun earlier later =>
      earlier.1 = later.1 → earlier.2.isSome → later.2.isSome) ∧
    (∀ (now : Instant) (start : World Ms) (signals : List AbortSignal),
      ((AbortSignal.fuse signals).abortInfo (fun _ => now) start).1.isSome ↔
        ∃ signal ∈ signals, (signal.abortInfo (fun _ => now) start).1.isSome) ∧
    (CalmRun delays clock {} events → world.log.Pairwise fun earlier later =>
      earlier.1 = later.1 → ∀ reason, earlier.2 = some reason → later.2 = some reason) := by
  have haborted : StaysAborted clock ({} : World Ms) :=
    { aborted := fun _ _ hlogged => absurd hlogged not_mem_nil
      pairwise := .nil }
  have hsettled : StaysSettled clock ({} : World Ms) :=
    { settled := fun _ _ hlogged => absurd hlogged not_mem_nil
      pairwise := .nil }
  have hrecorded : Recorded clock ({} : World Ms) :=
    { controllers := fun _ hmem => absurd hmem not_mem_nil
      fired := fun _ hmem => absurd hmem not_mem_nil }
  exact ⟨(haborted.run hclock hrun).pairwise, fuse_aborted_iff, fun hcalm =>
    (hsettled.run hclock hrecorded hcalm hrun).pairwise⟩

end Classification

/-- Milliseconds that are a whole number, none of them refused. -/
def wholeDelays : Delays Nat := ⟨fun timeoutMs => timeoutMs = 0, fun _ => true, id⟩

/-- A controller and a deadline fused; the deadline passes, then the controller is aborted. -/
def elapsedEvents : List (Event Nat) :=
  [.newController, .deadline (some (.source (.controller 0))) 5 "BASH_TIMEOUT",
    .read (.any [.source (.controller 0), .source (.timer 0)]),
    .abort 0 (.cancelled "stop"), .dropDeadline 0,
    .read (.any [.source (.controller 0), .source (.timer 0)])]

theorem classification_stable_elapsed : ∃ world,
    run wholeDelays (fun reading => 7 * reading) {} elapsedEvents = some world ∧
      world.log.Pairwise fun earlier later =>
        earlier.1 = later.1 → ∀ reason, earlier.2 = some reason → later.2 = some reason := by
  have hclock : Monotone fun reading : Nat => 7 * reading := fun _ _ hle => Nat.mul_le_mul_left 7 hle
  have hrun : ∃ world, run wholeDelays (fun reading => 7 * reading) {} elapsedEvents = some world :=
    ⟨_, rfl⟩
  obtain ⟨world, hrun⟩ := hrun
  obtain ⟨-, -, hcalm⟩ := classification_stable hclock hrun
  refine ⟨world, hrun, hcalm ?_⟩
  refine ⟨trivial, fun first hfirst => ⟨trivial, fun second hsecond => ⟨?_, fun third hthird => ⟨?_,
    fun fourth hfourth => ⟨trivial, fun fifth hfifth => ⟨?_, fun _ _ => trivial⟩⟩⟩⟩⟩⟩
  · cases hfirst
    cases hsecond
    rintro ⟨info, -, id, timer, hmem, -⟩
    have hseen : (Source.timer id, none) ∈ [(Source.controller 0, none),
      (Source.timer 0, some ((.timeout ⟨"BASH_TIMEOUT", 5⟩, 5) : AbortInfo Nat))] := hmem
    simp at hseen
  · cases hfirst
    cases hsecond
    cases hthird
    rintro ⟨-, signal, reported, hlogged, -, hview, -⟩
    obtain ⟨rfl, -⟩ := Prod.mk.inj (mem_singleton.mp hlogged)
    -- the deadline was at 5, the abort is at 14
    have hinstants : some 5 = some 14 := congrArg (Option.map Prod.snd) hview
    cases hinstants
  · cases hfirst
    cases hsecond
    cases hthird
    cases hfourth
    cases hfifth
    rintro ⟨info, -, id, timer, hmem, -⟩
    have hseen : (Source.timer id, none) ∈
      [(Source.controller 0, some ((.cancelled "stop", 14) : AbortInfo Nat)),
        (Source.timer 0, some (.timeout ⟨"BASH_TIMEOUT", 5⟩, 5))] := hmem
    simp at hseen

/-- Two controllers fused: the second is aborted and read, then the first, on a still clock. -/
def stillEvents : List (Event Nat) :=
  [.newController, .newController, .abort 1 (.cancelled "second"),
    .read (.any [.source (.controller 0), .source (.controller 1)]),
    .abort 0 (.cancelled "first"),
    .read (.any [.source (.controller 0), .source (.controller 1)])]

/-- The reason already returned is replaced. -/
theorem reason_replaced : ¬ ∀ (clock : Nat → Instant), Monotone clock →
    ∀ (events : List (Event Nat)) (world : World Nat),
      run wholeDelays clock {} events = some world →
        world.log.Pairwise fun earlier later =>
          earlier.1 = later.1 → ∀ reason, earlier.2 = some reason → later.2 = some reason := by
  intro hstable
  have hpairwise := hstable (fun _ => 7) (fun _ _ _ => Nat.le_refl 7) stillEvents _ rfl
  have hlater := (pairwise_cons.mp hpairwise).1 _ mem_cons_self rfl
    (.cancelled "second") rfl
  exact absurd hlater (by decide)

end Keel.AbortSignals
