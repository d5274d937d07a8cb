import Keel.Engine.JevRouting

/-! # Routing fails closed

A choice is dispatched only with everything the host checks behind it. Every other exit
leaves the original harness, and a called selector leaves one receipt.
-/

namespace Keel.JevRouting

open List Bool

open Workflow (PreparedAction TaskState)

theorem routeId_injective : Function.Injective routeId := by
  intro first second hsame
  have hdigits : (routeId first).toList = (routeId second).toList := by rw [hsame]
  simp only [routeId, String.toList_append, append_cancel_left_eq, Nat.toString_eq_repr,
    Nat.toList_repr] at hdigits
  have hvalue := congrArg (fun digits => Nat.ofDigitChars 10 digits 0) hdigits
  simpa only [Nat.ofDigitChars_ten_toDigits] using hvalue

def Positional (routes : List PreparedRoute) : Prop :=
  routes.map PreparedRoute.id = (List.range routes.length).map routeId

theorem Positional.push {routes : List PreparedRoute} (hroutes : Positional routes)
    {route : PreparedRoute} (hid : route.id = routeId routes.length) :
    Positional (routes ++ [route]) := by
  unfold Positional at hroutes ⊢
  simp only [map_append, map_cons, map_nil, length_append, length_cons,
    length_nil, Nat.zero_add, range_succ, hroutes, hid]

theorem Positional.addModels {reasoning : Option ReasoningLevel} {descriptor : HarnessDescriptor}
    (models : List Model) {routes : List PreparedRoute} (hroutes : Positional routes) :
    Positional (addModels reasoning descriptor models routes) := by
  induction models generalizing routes with
  | nil => exact hroutes
  | cons model rest ih =>
    unfold JevRouting.addModels
    split
    · exact hroutes
    · split
      · exact ih (hroutes.push rfl)
      · exact ih hroutes

theorem positional_prepareRoutes (state : RegistryState) (reasoning : Option ReasoningLevel) :
    Positional (prepareRoutes state reasoning).1 := by
  have hfold : ∀ (listings : List (HarnessDescriptor × List Model)) (routes : List PreparedRoute),
      Positional routes → Positional (listings.foldl (addHarness reasoning) routes) := by
    intro listings
    induction listings with
    | nil => exact fun _ hroutes => hroutes
    | cons listing rest ih => exact fun _ hroutes => ih _ (hroutes.addModels _)
  exact hfold _ [] rfl

theorem Positional.nodup {routes : List PreparedRoute} (hroutes : Positional routes) :
    (routes.map PreparedRoute.id).Nodup := by
  rw [hroutes]
  exact nodup_range.map routeId_injective

theorem Positional.eq_of_id {routes : List PreparedRoute} (hroutes : Positional routes)
    {first second : PreparedRoute} (hfirst : first ∈ routes) (hsecond : second ∈ routes)
    (hid : first.id = second.id) : first = second :=
  inj_on_of_nodup_map hroutes.nodup hfirst hsecond hid

theorem mem_of_mem_compactLocalRoutes {prepared : List PreparedRoute} {route : PreparedRoute}
    (hroute : route ∈ compactLocalRoutes prepared) : route ∈ prepared := by
  obtain ⟨rank, -, hranked⟩ := mem_flatMap.mp (mem_of_mem_take hroute)
  obtain ⟨provider, -, hat⟩ := mem_filterMap.mp hranked
  exact mem_of_mem_filter (mem_of_getElem? hat)

/-- The routes whose ids a backend puts before its selector. -/
def offeredRoutes (backend : RouteBackend) (prepared : List PreparedRoute) : List PreparedRoute :=
  match backend with
  | .typeSafeJev _ => prepared
  | .localLaya _ => compactLocalRoutes prepared

theorem mem_of_mem_offeredRoutes {backend : RouteBackend} {prepared : List PreparedRoute}
    {route : PreparedRoute} (hroute : route ∈ offeredRoutes backend prepared) :
    route ∈ prepared := by
  cases backend with
  | typeSafeJev build => exact hroute
  | localLaya select => exact mem_of_mem_compactLocalRoutes hroute

theorem modelValid_spec {registry : HarnessRegistry} {choice : RouteChoice}
    {reasoning : Option ReasoningLevel} (hvalid : modelValid registry choice reasoning = true) :
    ∃ harness models model, (registry.resolve choice.harness).1 = some harness ∧
      harness.models = some models ∧ model ∈ models ∧ choice.model = some model.id ∧
      ∀ level, reasoning = some level → level ∈ model.reasoningLevels := by
  simp only [modelValid, Option.any_eq_true, Option.bind_eq_some_iff] at hvalid
  obtain ⟨model, ⟨models, ⟨harness, hharness, hmodels⟩, hfind⟩, hlevel⟩ := hvalid
  have hid := find?_some hfind
  rw [beq_iff_eq] at hid
  refine ⟨harness, models, model, hharness, hmodels, mem_of_find?_eq_some hfind, hid.symm, ?_⟩
  rintro level rfl
  simpa [reasoningCompatible] using hlevel

theorem stillEligible_spec {registry : HarnessRegistry} {choice : RouteChoice}
    (heligible : stillEligible registry choice = true) :
    ∃ descriptor ∈ registry.descriptors, descriptor.id = choice.harness ∧
      descriptor.installed = true ∧ descriptorEnabled descriptor = true := by
  simp only [stillEligible, any_eq_true, and_eq_true, beq_iff_eq] at heligible
  obtain ⟨descriptor, hmem, ⟨hid, hinstalled⟩, henabled⟩ := heligible
  exact ⟨descriptor, hmem, hid, hinstalled, henabled⟩

/-- What a receipt of a called selector may say. -/
def Accountable (decision : RouteDecision) : Prop :=
  ∃ event, decision.event = some event ∧
    (event.validation = .accepted → event.result = .abstained ∨ decision.choice.isSome = true)

theorem accountable_refused (event : DecisionEvent) {validation : DecisionValidation}
    (hrefused : validation ≠ .accepted) (reason : String) :
    Accountable (refused event validation reason) := by
  refine ⟨_, rfl, ?_⟩
  intro haccepted
  exact absurd haccepted hrefused

theorem validationOf_ne_accepted (rejection : Option Workflow.RejectReason) :
    validationOf rejection ≠ .accepted := by
  cases rejection with
  | none => exact DecisionValidation.noConfusion
  | some reason => cases reason <;> exact DecisionValidation.noConfusion

@[simp] theorem intakeEvent_result (revision : Nat) (consultation : Consultation) (clock : Clock)
    (habstained : consultation.outcome.selectedId = none) :
    (intakeEvent revision consultation clock).result = .abstained := by
  simp only [intakeEvent, habstained]
  split <;> rfl

/-- What the checks after the answer establish of the action they let through. -/
structure Admitted (hashing : Hashing) (clock : Clock) (request : RunRequest) (state : TaskState)
    (later : RegistryState) (action : PreparedAction RouteChoice) (selected : String) : Prop where
  id : action.id = selected
  fingerprint : ∃ fingerprint,
    routeFingerprint hashing (prepareRoutes later request.reasoning).1 = some fingerprint ∧
      action.readSetFingerprint = some fingerprint
  inTime : ∀ deadline, action.expiresAtMs = some deadline → clock.validation < deadline
  eligible : stillEligible (prepareRoutes later request.reasoning).2 action.payload = true
  listed : modelValid (prepareRoutes later request.reasoning).2 action.payload request.reasoning
    = true

/-- An answer is dispatched as an admitted action, or no choice is made; either way the
receipt accounts for it. -/
theorem resolveAnswer_cases (hashing : Hashing) (clock : Clock) (request : RunRequest)
    (state : TaskState) (actions : List (PreparedAction RouteChoice)) (later : RegistryState)
    (event : DecisionEvent) (selectedId : Option String)
    (habstained : selectedId = none → event.result = .abstained) :
    Accountable (resolveAnswer hashing clock request state actions later event selectedId) ∧
      ∀ choice,
        (resolveAnswer hashing clock request state actions later event selectedId).choice
          = some choice →
        ∃ selected, selectedId = some selected ∧
          ∃ action ∈ actions, action.payload = choice ∧
            Admitted hashing clock request state later action selected := by
  unfold resolveAnswer
  cases selectedId with
  | none =>
    refine ⟨⟨_, rfl, ?_⟩, nofun⟩
    intro _
    left
    rw [DecisionEvent.withObservedOutcome_result, habstained rfl]
    rfl
  | some selected =>
    simp only
    split
    · exact ⟨accountable_refused event DecisionValidation.noConfusion _, nofun⟩
    next action hfind =>
      split
      · exact ⟨accountable_refused event DecisionValidation.noConfusion _, nofun⟩
      next liveFingerprint hlive =>
        split
        · exact ⟨accountable_refused event (validationOf_ne_accepted _) _, nofun⟩
        next hvalidation =>
          split
          · exact ⟨accountable_refused event DecisionValidation.noConfusion _, nofun⟩
          next hmodel =>
            simp only [not_eq_true', not_eq_false] at hvalidation hmodel
            refine ⟨⟨event, rfl, fun _ => .inr rfl⟩, ?_⟩
            rintro choice hchoice
            have haccepts := Workflow.accepts_of_validateSelected hvalidation
            exact ⟨selected, rfl, action, mem_of_find?_eq_some hfind,
              Option.some.inj hchoice,
              { id := haccepts.selected
                fingerprint := ⟨liveFingerprint, hlive, haccepts.readSet⟩
                inTime := haccepts.inTime
                eligible := haccepts.authorized
                listed := hmodel }⟩

/-- A decision either never calls the selector, or is the answer of one call resolved
against the prepared routes. -/
theorem chooseWithReport_cases (hashing : Hashing) (clock : Clock) (offered later : RegistryState)
    (request : RunRequest) (backend : RouteBackend) :
    chooseWithReport hashing clock offered later request backend = (.skipped, []) ∨
      ∃ prepared state fingerprint consultation,
        requested request = true ∧
        prepared = (prepareRoutes offered request.reasoning).1 ∧
        state = TaskState.new (max clock.task 0).toNat ∧
        routeFingerprint hashing prepared = some fingerprint ∧
        consult backend request state.revision prepared = some consultation ∧
        chooseWithReport hashing clock offered later request backend =
          (resolveAnswer hashing clock request state
              (prepared.mapIdx (prepareAction state fingerprint clock)) later
              (intakeEvent state.revision consultation clock) consultation.outcome.selectedId,
            [true, false]) := by
  unfold chooseWithReport
  split
  · exact .inl rfl
  next hrequested =>
    simp only
    split
    · exact .inl rfl
    · split
      · exact .inl rfl
      next fingerprint hfingerprint =>
        split
        · exact .inl rfl
        · split
          · exact .inl rfl
          next consultation hconsult =>
            simp only [not_eq_true', not_eq_false] at hrequested
            exact .inr ⟨_, _, fingerprint, consultation, hrequested, rfl, rfl, hfingerprint,
              hconsult, rfl⟩

/-- What stands behind a dispatched choice: the request, the answer, the prepared route it
names, and the later registry. -/
structure Dispatched (hashing : Hashing) (clock : Clock) (offered later : RegistryState)
    (request : RunRequest) (backend : RouteBackend) (choice : RouteChoice) (selected : String)
    (index : Nat) (route : PreparedRoute) : Prop where
  requested : requested request = true
  answered : ∃ consultation,
    consult backend request (max clock.task 0).toNat (prepareRoutes offered request.reasoning).1
        = some consultation ∧
      consultation.outcome.selectedId = some selected
  prepared : (prepareRoutes offered request.reasoning).1[index]? = some route
  named : route.id = selected
  payload : route.choice = choice
  asOffered : selected ∈ (offeredRoutes backend
      (prepareRoutes offered request.reasoning).1).map PreparedRoute.id →
    route ∈ offeredRoutes backend (prepareRoutes offered request.reasoning).1
  fingerprint : ∃ fingerprint,
    routeFingerprint hashing (prepareRoutes offered request.reasoning).1 = some fingerprint ∧
      routeFingerprint hashing (prepareRoutes later request.reasoning).1 = some fingerprint
  inTime : clock.validation < saturatingAdd (clock.action index) 45000
  eligible : ∃ descriptor ∈ (prepareRoutes later request.reasoning).2.descriptors,
    descriptor.id = choice.harness ∧ descriptor.installed = true ∧
      descriptorEnabled descriptor = true
  listed : ∃ harness models model,
    ((prepareRoutes later request.reasoning).2.resolve choice.harness).1 = some harness ∧
      harness.models = some models ∧ model ∈ models ∧ choice.model = some model.id ∧
      ∀ level, request.reasoning = some level → level ∈ model.reasoningLevels

/-- Routing fails closed: a choice is made only as a dispatched route, an uncalled selector
leaves no choice and no receipt, and a called one leaves a receipt that is accepted only
for an abstention or a dispatched choice. -/
theorem routing_fails_closed (hashing : Hashing) (clock : Clock) (offered later : RegistryState)
    (request : RunRequest) (backend : RouteBackend) :
    (∀ choice,
        (chooseWithReport hashing clock offered later request backend).1.choice = some choice →
        ∃ selected index route,
          Dispatched hashing clock offered later request backend choice selected index route) ∧
      ((chooseWithReport hashing clock offered later request backend).2 = [] →
        (chooseWithReport hashing clock offered later request backend).1 = .skipped) ∧
      ((chooseWithReport hashing clock offered later request backend).2 ≠ [] →
        Accountable (chooseWithReport hashing clock offered later request backend).1) := by
  rcases chooseWithReport_cases hashing clock offered later request backend with
    hskipped | ⟨prepared, state, fingerprint, consultation, hrequested, rfl, rfl, hfingerprint,
      hconsult, hreport⟩
  · rw [hskipped]
    exact ⟨nofun, fun _ => rfl, fun hcalled => absurd rfl hcalled⟩
  · rw [hreport]
    obtain ⟨haccountable, hdispatched⟩ := resolveAnswer_cases hashing clock request
      (TaskState.new (max clock.task 0).toNat)
      ((prepareRoutes offered request.reasoning).1.mapIdx
        (prepareAction (TaskState.new (max clock.task 0).toNat) fingerprint clock))
      later (intakeEvent (max clock.task 0).toNat consultation clock)
      consultation.outcome.selectedId (intakeEvent_result _ consultation clock)
    refine ⟨?_, nofun, fun _ => haccountable⟩
    intro choice hchoice
    obtain ⟨selected, hselected, action, haction, hpayload, hadmitted⟩ := hdispatched choice hchoice
    obtain ⟨index, hindex, rfl⟩ := mem_mapIdx.mp haction
    obtain ⟨live, hlive, hread⟩ := hadmitted.fingerprint
    obtain rfl : fingerprint = live := Option.some.inj hread
    subst hpayload
    refine ⟨selected, index, _,
      { requested := hrequested
        answered := ⟨consultation, hconsult, hselected⟩
        prepared := getElem?_eq_getElem hindex
        named := hadmitted.id
        payload := rfl
        asOffered := ?_
        fingerprint := ⟨fingerprint, hfingerprint, hlive⟩
        inTime := hadmitted.inTime _ rfl
        eligible := stillEligible_spec hadmitted.eligible
        listed := modelValid_spec hadmitted.listed }⟩
    intro hselectedOffered
    obtain ⟨route, hroute, hid⟩ := mem_map.mp hselectedOffered
    have hsame := (positional_prepareRoutes offered request.reasoning).eq_of_id
      (mem_of_mem_offeredRoutes hroute) (getElem_mem hindex) (hid.trans hadmitted.id.symm)
    exact hsame ▸ hroute

/-- Three harnesses with three models each: nine routes, of which the local selector sees
eight. -/
def crowdedRegistry : HarnessRegistry where
  slots := fun id => some (.ready
    { id
      displayName := "Agent"
      installed := true
      models := some
        [⟨"small", "Small", none, []⟩, ⟨"medium", "Medium", none, []⟩, ⟨"large", "Large", none, []⟩] })
  order := [.claudeCode, .codex, .cursor]
  prefs := some [.claudeCode, .codex, .cursor]

def crowdedState : RegistryState := ⟨crowdedRegistry, none⟩

def autoRequest : RunRequest where
  prompt := "fix the build"
  harness := none
  model := none
  reasoning := none
  modelOptions := [("jevAuto", .bool true)]
  cwd := "/repo"
  sandbox := .workspaceWrite
  autoApprove := false
  resume := none
  attachments := []

/-- A local selector that answers with the ninth route. -/
def ninthRoute : RouteBackend :=
  .localLaya fun _ => ⟨some "route_8", none, none, none, none⟩

def idleClock : Clock := ⟨1000, fun _ => 1000, 1000, 1000, 1000⟩

/-- The ids of a catalogue, written out, as its fingerprint. -/
def plainHashing : Hashing where
  toVec := fun rows => some (rows.flatMap fun row => row.1.toUTF8.toList)
  sha256 := fun bytes => String.ofList (bytes.map fun byte => Char.ofNat byte.toNat)

/-- The local selector is offered eight routes, but its answer is looked up among all that
were prepared: an id that was not offered is dispatched. -/
theorem unoffered_route_dispatched :
    "route_8" ∉ (offeredRoutes ninthRoute
        (prepareRoutes crowdedState none).1).map PreparedRoute.id ∧
      (chooseWithReport plainHashing idleClock crowdedState crowdedState autoRequest
        ninthRoute).1.choice = some ⟨.cursor, some "large"⟩ := by
  decide +kernel

end Keel.JevRouting
