import Keel.Proto.Agent

/-! # The harness registry

The catalogue of harnesses: eager instances, and lazy slots that the first `resolve` fills.
A registry is a snapshot: what the probes and `models()` answer is part of it.
-/

namespace Keel

structure Model where
  id : String
  label : String
  description : Option String
  reasoningLevels : List ReasoningLevel

structure HarnessDescriptor where
  id : HarnessId
  name : String
  installed : Bool
  enabled : Option Bool

/-- A harness by what the registry asks of it; `models` is `none` when the listing fails or
takes longer than its caller waits. -/
structure Harness where
  id : HarnessId
  displayName : String
  installed : Bool
  models : Option (List Model)

/-- A filled slot, or a static descriptor with its presence probe and its factory. -/
inductive Slot where
  | ready (harness : Harness)
  | lazy (descriptor : HarnessDescriptor) (installed : Bool) (factory : Option Harness)

structure HarnessRegistry where
  slots : HarnessId → Option Slot
  order : List HarnessId
  prefs : Option (List HarnessId)

def defaultEnabled : List HarnessId := [.claudeCode, .codex]

def descriptorEnabled (descriptor : HarnessDescriptor) : Bool :=
  descriptor.enabled.getD (decide (descriptor.id ∈ defaultEnabled))

def describe (harness : Harness) : HarnessDescriptor where
  id := harness.id
  name := harness.displayName
  installed := harness.installed
  enabled := none

namespace HarnessRegistry

def enabledSet (registry : HarnessRegistry) : List HarnessId := registry.prefs.getD defaultEnabled

/-- The catalogue in registration order; it never fills a lazy slot. -/
def descriptors (registry : HarnessRegistry) : List HarnessDescriptor :=
  registry.order.filterMap fun id =>
    (registry.slots id).map fun slot =>
      let descriptor := match slot with
        | .ready harness => describe harness
        | .lazy descriptor installed _ => { descriptor with installed }
      { descriptor with enabled := some (decide (id ∈ registry.enabledSet)) }

/-- The harness of an id. A lazy slot whose factory succeeds stays filled. -/
def resolve (registry : HarnessRegistry) (id : HarnessId) : Option Harness × HarnessRegistry :=
  match registry.slots id with
  | some (.ready harness) => (some harness, registry)
  | some (.lazy _ _ (some harness)) =>
    (some harness,
      { registry with slots := Function.update registry.slots id (some (.ready harness)) })
  | some (.lazy _ _ none) => (none, registry)
  | none => (none, registry)

end HarnessRegistry

end Keel
