import Keel.Foundation.Trace
import Mathlib.Data.Fintype.Defs
import Mathlib.Data.Fintype.Basic
import Mathlib.Data.List.Basic
import Mathlib.Logic.Function.Basic

/-! # Scope-aware registry storage

A registry keeps one global layer and one layer for each scope that has contributions. A
layer is a family of insertion-ordered tables. A registration mutates one layer through an
action, keeps the undo of what the action inserted, and reclaims the layer when its undo
leaves it empty.
-/

namespace Keel.Scoped

open Function

variable {κ V : Type}

/-- Named entries, in insertion order. -/
structure NamedEntries (V : Type) where
  data : List (String × V) := []

/-- Anonymous entries, each with its own number. -/
structure AnonymousEntries (V : Type) where
  next : Nat := 0
  items : List (Nat × V) := []

/-- One scope's contributions: a named and an anonymous table for each kind of entry. -/
structure Layer (κ V : Type) where
  named : κ → NamedEntries V := fun _ => {}
  anonymous : κ → AnonymousEntries V := fun _ => {}

/-- An insertion that an action makes. -/
inductive Insertion (κ V : Type) where
  | insert (table : κ) (name : String) (value : V)
  | append (table : κ) (value : V)

/-- An insertion made. Its undo removes by name or by number, never by the value. -/
inductive Placed (κ V : Type) where
  | named (table : κ) (name : String) (value : V)
  | anonymous (table : κ) (id : Nat) (value : V)

/-- The idempotent undo of one insertion. -/
structure Undo (κ V : Type) where
  placed : Placed κ V
  active : Bool := true

namespace NamedEntries

def insert (table : NamedEntries V) (name : String) (value : V) : Option (NamedEntries V) :=
  if table.data.any fun entry => entry.1 == name then none
  else some { data := table.data ++ [(name, value)] }

def remove (table : NamedEntries V) (name : String) : NamedEntries V :=
  { data := table.data.filter fun entry => entry.1 ≠ name }

end NamedEntries

namespace AnonymousEntries

def append (table : AnonymousEntries V) (value : V) : AnonymousEntries V × Nat :=
  ({ next := table.next + 1, items := table.items ++ [(table.next + 1, value)] }, table.next + 1)

def remove (table : AnonymousEntries V) (id : Nat) : AnonymousEntries V :=
  { table with items := table.items.filter fun entry => entry.1 ≠ id }

end AnonymousEntries

section Tables

variable [DecidableEq κ]

namespace Layer

def isEmpty [Fintype κ] (layer : Layer κ V) : Bool :=
  decide (∀ table, (layer.named table).data.isEmpty = true ∧
    (layer.anonymous table).items.isEmpty = true)

/-- Make one insertion; a duplicate name fails. -/
def apply (layer : Layer κ V) : Insertion κ V → Option (Layer κ V × Undo κ V)
  | .insert table name value =>
    ((layer.named table).insert name value).map fun entries =>
      ({ layer with named := update layer.named table entries },
        { placed := .named table name value })
  | .append table value =>
    let (entries, id) := (layer.anonymous table).append value
    some ({ layer with anonymous := update layer.anonymous table entries },
      { placed := .anonymous table id value })

def remove (layer : Layer κ V) : Placed κ V → Layer κ V
  | .named table name _ =>
    { layer with named := update layer.named table ((layer.named table).remove name) }
  | .anonymous table id _ =>
    { layer with
      anonymous := update layer.anonymous table ((layer.anonymous table).remove id) }

end Layer

def Undo.run (layer : Layer κ V) (undo : Undo κ V) : Layer κ V :=
  if undo.active then layer.remove undo.placed else layer

def Undo.spent (undo : Undo κ V) : Undo κ V := { undo with active := false }

def undoAll (layer : Layer κ V) (undos : List (Undo κ V)) : Layer κ V :=
  undos.reverse.foldl Undo.run layer

/-- Make an action's insertions in order. One that fails undoes those before it. -/
def runInsertions : Layer κ V → List (Insertion κ V) → List (Undo κ V) →
    Layer κ V × Option (List (Undo κ V))
  | layer, [], undos => (layer, some undos)
  | layer, insertion :: rest, undos =>
    match layer.apply insertion with
    | none => (undoAll layer undos, none)
    | some (next, undo) => runInsertions next rest (undos ++ [undo])

/-- A caller's action: its insertions, and whether it gives up after them. -/
structure Action (κ V : Type) where
  insertions : List (Insertion κ V)
  fails : Bool := false

/-- An action that succeeds has inserted something. -/
def Action.Adds (action : Action κ V) : Prop := action.fails = false → action.insertions ≠ []

def Action.run (action : Action κ V) (layer : Layer κ V) : Layer κ V × Option (List (Undo κ V)) :=
  match runInsertions layer action.insertions [] with
  | (changed, none) => (changed, none)
  | (changed, some undos) =>
    if action.fails then (undoAll changed undos, none) else (changed, some undos)

end Tables

abbrev ScopeKey := Nat

/-- Parent links without a cycle. -/
structure ScopeTree where
  parent : ScopeKey → Option ScopeKey
  depth : ScopeKey → Nat
  parent_depth : ∀ key up, parent key = some up → depth up < depth key

namespace ScopeTree

/-- A key and its ancestors, nearest first. -/
def chainFrom (tree : ScopeTree) (key : ScopeKey) : List ScopeKey :=
  key :: match _hparent : tree.parent key with
    | none => []
    | some up => chainFrom tree up
termination_by tree.depth key
decreasing_by exact tree.parent_depth key up _hparent

def scopeChainOf (tree : ScopeTree) (scope : Option ScopeKey) : List ScopeKey :=
  match scope with
  | none => []
  | some key => tree.chainFrom key

end ScopeTree

/-- The effect handle of a registration, with what its rollback captured. -/
structure Handle (κ V : Type) where
  scope : Option ScopeKey
  layer : Nat
  undos : List (Undo κ V)
  disposed : Bool := false

/-- The layers ever created, by number, with the scopes that currently show one. Layer 0 is
the global one. -/
structure ScopedLayers (κ V : Type) where
  layers : Nat → Layer κ V := fun _ => {}
  nextLayer : Nat := 1
  overlays : ScopeKey → Option Nat := fun _ => none
  handles : List (Handle κ V) := []

/-- A call of `effect`: the context's scope and whether its fiber still takes effects, the
action, and what the layer factory and the change notification answer. -/
structure Registration (κ V : Type) where
  scope : Option ScopeKey
  action : Action κ V
  notify : Bool := false
  inactive : Bool := false
  createFails : Bool := false
  notifyFails : Bool := false

namespace ScopedLayers

def global (registry : ScopedLayers κ V) : Layer κ V := registry.layers 0

def peek (registry : ScopedLayers κ V) (scope : Option ScopeKey) : Option (Layer κ V) :=
  scope.bind fun key => (registry.overlays key).map registry.layers

/-- The existing layers along a scope's chain, the farthest ancestor first. -/
def chainLayers (registry : ScopedLayers κ V) (tree : ScopeTree) (scope : Option ScopeKey) :
    List (Layer κ V) :=
  (tree.scopeChainOf scope).reverse.filterMap fun key => registry.peek (some key)

end ScopedLayers

/-- Replace the entry of a name where it stands, or push a new one. -/
def shadow : List (String × V) → String × V → List (String × V)
  | [], entry => [entry]
  | slot :: rest, entry =>
    if slot.1 = entry.1 then (slot.1, entry.2) :: rest else slot :: shadow rest entry

namespace ScopedLayers

def merge (registry : ScopedLayers κ V) (tree : ScopeTree) (scope : Option ScopeKey) (table : κ) :
    List (String × V) :=
  (registry.chainLayers tree scope).foldl
    (fun merged layer => (layer.named table).data.foldl shadow merged)
    (registry.global.named table).data

variable [DecidableEq κ] [Fintype κ]

def putLayer (registry : ScopedLayers κ V) (layer : Nat) (value : Layer κ V) : ScopedLayers κ V :=
  { registry with layers := update registry.layers layer value }

def create (registry : ScopedLayers κ V) (key : ScopeKey) : ScopedLayers κ V :=
  { registry.putLayer registry.nextLayer {} with
    nextLayer := registry.nextLayer + 1
    overlays := update registry.overlays key (some registry.nextLayer) }

def forget (registry : ScopedLayers κ V) (scope : Option ScopeKey) : ScopedLayers κ V :=
  match scope with
  | none => registry
  | some key => { registry with overlays := update registry.overlays key none }

/-- Undo a registration in the layer it captured and reclaim the scope when that layer is
left empty. -/
def rollback (registry : ScopedLayers κ V) (scope : Option ScopeKey) (layer : Nat)
    (undos : List (Undo κ V)) : ScopedLayers κ V :=
  let undone := registry.putLayer layer (undoAll (registry.layers layer) undos)
  if (undone.layers layer).isEmpty then undone.forget scope else undone

/-- Run the action on a layer, then notify; the flag is whether the registration stands. -/
def attach (registry : ScopedLayers κ V) (registration : Registration κ V) (layer : Nat)
    (created : Bool) : ScopedLayers κ V × Bool :=
  let (changed, outcome) := registration.action.run (registry.layers layer)
  let mutated := registry.putLayer layer changed
  match outcome with
  | none => (if created && changed.isEmpty then mutated.forget registration.scope else mutated, false)
  | some undos =>
    if registration.notify && registration.notifyFails then
      (mutated.rollback registration.scope layer undos, false)
    else
      ({ mutated with
          handles := mutated.handles ++ [{ scope := registration.scope, layer, undos }] }, true)

def effect (registry : ScopedLayers κ V) (registration : Registration κ V) :
    ScopedLayers κ V × Bool :=
  if registration.inactive then (registry, false)
  else match registration.scope with
    | none => registry.attach registration 0 false
    | some key =>
      match registry.overlays key with
      | some layer => registry.attach registration layer false
      | none =>
        if registration.createFails then (registry, false)
        else (registry.create key).attach registration registry.nextLayer true

/-- Dispose a handle; its disposer runs once. -/
def dispose (registry : ScopedLayers κ V) (index : Nat) : ScopedLayers κ V :=
  match registry.handles[index]? with
  | none => registry
  | some handle =>
    if handle.disposed then registry
    else
      { registry with
        handles := registry.handles.set index
          { handle with undos := handle.undos.map Undo.spent, disposed := true } }.rollback
        handle.scope handle.layer handle.undos

end ScopedLayers

inductive Call (κ V : Type) where
  | effect (registration : Registration κ V)
  | dispose (index : Nat)

def step [DecidableEq κ] [Fintype κ] (registry : ScopedLayers κ V) : Call κ V →
    Option (ScopedLayers κ V)
  | .effect registration => some (registry.effect registration).1
  | .dispose index => some (registry.dispose index)

end Keel.Scoped
