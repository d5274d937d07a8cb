import Keel.Dsh.ScopedView
import Keel.Dsh.ToolRuntime

/-! # Which tools a scope sees

Tools, restrictions and guards are contributed to the layers of scopes. One resolver merges the
layers along a scope's chain and feeds the presentation, the lookup and the dispatch. A scope
sees the nearest registration of a name on its chain. Its own it always sees; an inherited one
only if no restriction on the whole chain rejects the name, also one of the layer that
registered it.
-/

namespace Keel.Tools

open List

open Scoped (ScopeKey ScopeTree ScopedLayers Insertion Handle LayerView Coherent Occupied shadow
  namedAt valuesAt viewOf insertionsOf)

section Registry

/-- The tables of a layer. -/
inductive Table where
  | tools
  | restrictions
  | guards
deriving DecidableEq

instance : Fintype Table := ⟨{.tools, .restrictions, .guards}, fun table => by cases table <;> decide⟩

inductive Entry where
  | tool (definition : ToolDefinition)
  | restriction (filter : CompiledToolRestriction)
  | guard (id : Nat)

def Entry.tool? : Entry → Option ToolDefinition
  | .tool definition => some definition
  | _ => none

def Entry.restriction? : Entry → Option CompiledToolRestriction
  | .restriction filter => some filter
  | _ => none

def Entry.guard? : Entry → Option Nat
  | .guard id => some id
  | _ => none

abbrev Layers := ScopedLayers Table Entry

def ToolLayer.ofView (view : LayerView Table Entry) : ToolLayer where
  tools := (view.named .tools).filterMap fun entry =>
    entry.2.tool?.map fun tool => (entry.1, tool)
  restrictions := (view.anonymous .restrictions).filterMap Entry.restriction?
  guards := (view.anonymous .guards).filterMap Entry.guard?

namespace Registry

/-- What the resolver reads of the layers. -/
def ofLayers (tree : ScopeTree) (layers : Layers) : Registry where
  global := .ofView layers.global.view
  tree
  overlays key := (layers.peek (some key)).map fun layer => .ofView layer.view

/-- The global tools, then those of the ancestors, a nearer one in place of a farther one. -/
def inherited (registry : Registry) (scope : Option ScopeKey) : List (String × ToolDefinition) :=
  ((registry.chainLayers scope).filter fun layer => some layer.1 ≠ scope).foldl
    (fun entries layer => layer.2.tools.foldl shadow entries) registry.global.tools

/-- Inherited names a scoped restriction may name. -/
def restrictableNames (registry : Registry) (scope : Option ScopeKey) : List String :=
  (registry.inherited scope).map Prod.fst

/-- The names before restrictions, in insertion order. -/
def knownNames (registry : Registry) (scope : Option ScopeKey) : List String :=
  let own := ((registry.peek scope).map ToolLayer.tools).getD []
  ((registry.inherited scope ++ own).map Prod.fst).foldl
    (fun known name => if name ∈ known then known else known ++ [name]) []

end Registry

/-- The fields of a tool that the model sees. -/
structure ToolSchema where
  name : String
  description : String
  parameters : List (String × Value)

def schemaOf (definition : ToolDefinition) : ToolSchema where
  name := definition.name
  description := definition.description
  parameters := definition.parameters

structure ToolProviderResult where
  schemas : List ToolSchema
  knownNames : List String

inductive ToolExecutionMode where
  | parallel
  | exclusive

namespace Registry

def schemas (registry : Registry) (scope : Option ScopeKey) : List ToolSchema :=
  (registry.view scope).map fun entry => schemaOf entry.2

def wireSchemas (registry : Registry) (scope : Option ScopeKey) : ToolProviderResult where
  schemas := (registry.view scope).map fun entry => schemaOf entry.2
  knownNames := registry.knownNames scope

/-- Only an explicit `true` of a visible tool's classifier is parallel. -/
def executionMode (registry : Registry) (input : ToolExecutionInput) : ToolExecutionMode :=
  match registry.get input.name (agentScope input.agent) with
  | none => .exclusive
  | some tool =>
    match tool.isConcurrencySafe with
    | some classify => if classify input.arguments then .parallel else .exclusive
    | none => .exclusive

end Registry

end Registry

section Contributions

def RUN_CODE_NAME : String := "run_code"

structure ToolRestriction where
  allow : Option (List String) := none
  deny : Option (List String) := none

/-- Why a contribution is refused; an inactive context takes no effects. -/
inductive RegistryError where
  | tool (error : ToolError)
  | inactive

def refused (message : String) : RegistryError := .tool ⟨message, .other⟩

/-- The context of a caller: its scope, and whether its fiber no longer takes effects. -/
structure Context where
  scope : Option ScopeKey
  inactive : Bool := false

/-- Contribute one entry to the layer of a context's scope. -/
def contribute (layers : Layers) (context : Context) (insertion : Insertion Table Entry)
    (notify : Bool) : Layers × Bool :=
  layers.effect
    { scope := context.scope, action := { insertions := [insertion] }, notify
      inactive := context.inactive }

def duplicateError (scope : Option ScopeKey) (name : String) : RegistryError :=
  match scope with
  | some _ => refused ("tool \"" ++ name ++ "\" is already registered in this scope")
  | none => refused ("tool \"" ++ name ++ "\" is already registered (for a per-agent variant, " ++
      "register through that agent's " ++ "\x60agent.ctx\x60 instead)")

def register (layers : Layers) (context : Context) (definition : ToolDefinition) :
    Layers × Except RegistryError Unit :=
  match assertSupportedJsonSchema definition.output.schema with
  | .error violations =>
    (layers, .error (.tool ⟨"unsupported JSON schema: " ++ "; ".intercalate violations,
      .jsonSchema⟩))
  | .ok () =>
    if definition.timeoutMs.any fun timeout => !timeout.isFinite || timeout ≤ 0 then
      (layers, .error (refused ("tool \"" ++ definition.name ++
        "\" timeoutMs must be a positive finite number")))
    else if definition.name = RUN_CODE_NAME then
      (layers, .error (refused ("tool name \"" ++ RUN_CODE_NAME ++ "\" is reserved for the " ++
        "Code Mode presentation transport and cannot be registered or shadowed")))
    else
      match contribute layers context (.insert .tools definition.name (.tool definition)) true with
      | (layers, true) => (layers, .ok ())
      | (layers, false) =>
        (layers, .error (if context.inactive then .inactive
          else duplicateError context.scope definition.name))

def restrict (tree : ScopeTree) (layers : Layers) (context : Context) (filter : ToolRestriction) :
    Layers × Except RegistryError Unit :=
  if context.scope.isNone then
    (layers, .error (refused ("tools.restrict() requires a scoped context (agent.ctx): a " ++
      "context-global restriction would mask every agent — deny the tool for the intended " ++
      "agent instead")))
  else if filter.allow.isNone && filter.deny.isNone then
    (layers, .error (refused ("tools.restrict() with no filter is a no-op: pass allow and/or " ++
      "deny (an empty filter is almost always a materialized-empty-config bug)")))
  else
    let named := filter.allow.getD [] ++ filter.deny.getD []
    if RUN_CODE_NAME ∈ named then
      (layers, .error (refused ("tools.restrict() cannot name reserved Code Mode presentation " ++
        "transport \"" ++ RUN_CODE_NAME ++ "\"; restrict end-capability tools instead")))
    else
      let known := (Registry.ofLayers tree layers).restrictableNames context.scope
      let unknown := (named.filter fun name => name ∉ known).map fun name => "\"" ++ name ++ "\""
      if unknown ≠ [] then
        let plural := if 1 < unknown.length then "s" else ""
        let sorted := known.mergeSort fun first second => decide (first ≤ second)
        let knownText := if sorted = [] then "(none)" else ", ".intercalate sorted
        (layers, .error (refused ("tools.restrict() names unknown global tool" ++ plural ++ " " ++
          ", ".intercalate unknown ++ "; known global tools: " ++ knownText)))
      else
        match contribute layers context
            (.append .restrictions (.restriction ⟨filter.allow, filter.deny⟩)) true with
        | (layers, true) => (layers, .ok ())
        | (layers, false) => (layers, .error .inactive)

def registerGuard (layers : Layers) (context : Context) (id : Nat) :
    Layers × Except RegistryError Unit :=
  match contribute layers context (.append .guards (.guard id)) false with
  | (layers, true) => (layers, .ok ())
  | (layers, false) => (layers, .error .inactive)

inductive Request where
  | register (context : Context) (definition : ToolDefinition)
  | restrict (context : Context) (filter : ToolRestriction)
  | registerGuard (context : Context) (id : Nat)
  | dispose (index : Nat)

def request (tree : ScopeTree) (layers : Layers) : Request → Option Layers
  | .register context definition => some (register layers context definition).1
  | .restrict context filter => some (restrict tree layers context filter).1
  | .registerGuard context id => some (registerGuard layers context id).1
  | .dispose index => some (layers.dispose index)

end Contributions

section Lookup

variable {V : Type} {name : String} {entries : List (String × V)} {entry : String × V}

/-- The value of the first entry of a name. -/
def lookup (name : String) (entries : List (String × V)) : Option V :=
  entries.findSome? fun entry => if entry.1 = name then some entry.2 else none

theorem lookup_cons : lookup name (entry :: entries) =
    if entry.1 = name then some entry.2 else lookup name entries := by
  rw [lookup, findSome?_cons]
  split <;> split <;> simp_all [lookup]

theorem lookup_eq_none : lookup name entries = none ↔ name ∉ entries.map Prod.fst := by
  simp only [lookup, findSome?_eq_none_iff, ite_eq_right_iff, reduceCtorEq, imp_false,
    mem_map, not_exists, not_and]

theorem lookup_eq_some {value : V} (hnames : (entries.map Prod.fst).Nodup) :
    lookup name entries = some value ↔ (name, value) ∈ entries := by
  induction entries with
  | nil => simp [lookup]
  | cons entry rest ih =>
    obtain ⟨hfresh, hrest⟩ := nodup_cons.mp hnames
    rw [lookup_cons, mem_cons]
    split
    next hname =>
      subst hname
      have habsent : (entry.1, value) ∉ rest := fun hmem =>
        hfresh (mem_map.mpr ⟨_, hmem, rfl⟩)
      simp only [Option.some.injEq, habsent, or_false, Prod.ext_iff, true_and, eq_comm]
    next hname =>
      rw [ih hrest]
      refine ⟨.inr, fun hmem => hmem.resolve_left fun hsame => hname ?_⟩
      rw [← hsame]

theorem lookup_shadow : lookup name (shadow entries entry) =
    if entry.1 = name then some entry.2 else lookup name entries := by
  induction entries with
  | nil => exact lookup_cons
  | cons slot rest ih =>
    rw [shadow]
    split
    next hslot =>
      simp only [lookup_cons, hslot]
      split <;> rfl
    next hslot =>
      rw [lookup_cons, lookup_cons, ih]
      by_cases hname : slot.1 = name
      · rw [if_pos hname, if_pos hname, if_neg fun hentry => hslot (hname.trans hentry.symm)]
      · rw [if_neg hname, if_neg hname]

theorem lookup_foldl_shadow {upper : List (String × V)} (hnames : (upper.map Prod.fst).Nodup) :
    lookup name (upper.foldl shadow entries) = (lookup name upper).or (lookup name entries) := by
  induction upper generalizing entries with
  | nil => rfl
  | cons entry rest ih =>
    obtain ⟨hfresh, hrest⟩ := nodup_cons.mp hnames
    rw [foldl_cons, ih hrest, lookup_shadow, lookup_cons]
    split
    next hname =>
      subst hname
      rw [lookup_eq_none.2 hfresh, Option.none_or, Option.some_or]
    · rfl

theorem lookup_filter (keeps : String → Bool) :
    lookup name (entries.filter fun entry => keeps entry.1) =
      if keeps name then lookup name entries else none := by
  induction entries with
  | nil => split <;> rfl
  | cons entry rest ih =>
    by_cases hkept : keeps entry.1
    · rw [filter_cons_of_pos (by exact hkept), lookup_cons, lookup_cons, ih]
      split
      next hname => rw [← hname, if_pos hkept]
      · rfl
    · rw [filter_cons_of_neg (by exact hkept), lookup_cons, ih]
      split
      next hadmitted =>
        rw [if_neg]
        rintro rfl
        exact hkept hadmitted
      · rfl

theorem lookup_layers {layers : List (List (String × V))}
    (hnames : ∀ layer ∈ layers, (layer.map Prod.fst).Nodup) :
    lookup name (layers.foldl (fun entries layer => layer.foldl shadow entries) entries) =
      (layers.reverse.findSome? (lookup name)).or (lookup name entries) := by
  induction layers generalizing entries with
  | nil => rfl
  | cons layer rest ih =>
    rw [foldl_cons, ih fun other hmem => hnames other (mem_cons_of_mem _ hmem),
      lookup_foldl_shadow (hnames layer mem_cons_self), reverse_cons,
      findSome?_append, Option.or_assoc]
    simp

end Lookup

section Resolver

open Registry

variable {registry : Registry} {tree : ScopeTree} {name : String} {key : ScopeKey}

/-- The ancestors of a scope, nearest first. -/
def ancestors (tree : ScopeTree) (key : ScopeKey) : List ScopeKey :=
  match tree.parent key with
  | none => []
  | some up => tree.chainFrom up

theorem chainFrom_eq (tree : ScopeTree) (key : ScopeKey) :
    tree.chainFrom key = key :: ancestors tree key := by
  rw [ScopeTree.chainFrom, ancestors]
  split <;> simp_all

theorem depth_le_of_mem_chainFrom {other : ScopeKey} (hmem : other ∈ tree.chainFrom key) :
    tree.depth other ≤ tree.depth key := by
  induction hdepth : tree.depth key using Nat.strong_induction_on generalizing key with
  | _ depth ih =>
    subst hdepth
    rw [chainFrom_eq, ancestors] at hmem
    cases hparent : tree.parent key with
    | none =>
      rw [hparent] at hmem
      rw [mem_singleton.mp hmem]
    | some up =>
      rw [hparent] at hmem
      rcases mem_cons.mp hmem with rfl | hup
      · exact le_rfl
      · have hless := tree.parent_depth key up hparent
        exact (ih (tree.depth up) hless hup rfl).trans hless.le

theorem not_mem_ancestors (tree : ScopeTree) (key : ScopeKey) : key ∉ ancestors tree key := by
  rw [ancestors]
  split
  · exact not_mem_nil
  next up hparent =>
    intro hmem
    exact absurd (tree.parent_depth key up hparent) (depth_le_of_mem_chainFrom hmem).not_gt

/-- No layer registers a name twice. -/
structure NamesDistinct (registry : Registry) : Prop where
  global : (registry.global.tools.map Prod.fst).Nodup
  overlays : ∀ key layer, registry.overlays key = some layer → (layer.tools.map Prod.fst).Nodup

/-- The tool that one layer registers under a name. -/
def declared (registry : Registry) (name : String) : Option ScopeKey → Option ToolDefinition
  | none => lookup name registry.global.tools
  | some key => (registry.overlays key).bind fun layer => lookup name layer.tools

/-- A scope, its ancestors, then the global layer. -/
def origins (tree : ScopeTree) (scope : Option ScopeKey) : List (Option ScopeKey) :=
  (tree.scopeChainOf scope).map some ++ [none]

/-- Every restriction along the chain of a scope admits a name. -/
def admitted (registry : Registry) (scope : Option ScopeKey) (name : String) : Bool :=
  (registry.chainLayers scope).all fun layer => layer.2.admits name

theorem chainLayers_filter (registry : Registry) (key : ScopeKey) :
    (registry.chainLayers (some key)).filter (fun layer => some layer.1 ≠ some key) =
      (ancestors registry.tree key).reverse.filterMap fun up =>
        (registry.overlays up).map fun layer => (up, layer) := by
  have hself : ((registry.overlays key).map fun layer => (key, layer)).toList.filter
      (fun layer => some layer.1 ≠ some key) = [] := by
    cases registry.overlays key <;> simp
  have hkept : ∀ layer ∈ (ancestors registry.tree key).reverse.filterMap (fun up =>
      (registry.overlays up).map fun layer => (up, layer)),
        decide (some layer.1 ≠ some key) = true := by
    intro layer hmem
    obtain ⟨up, hup, hlayer⟩ := mem_filterMap.mp hmem
    obtain ⟨own, -, rfl⟩ := Option.map_eq_some_iff.mp hlayer
    rw [decide_eq_true_eq, ne_eq, Option.some.injEq]
    rintro rfl
    exact not_mem_ancestors _ _ (mem_reverse.mp hup)
  rw [chainLayers, ScopeTree.scopeChainOf, chainFrom_eq, reverse_cons, filterMap_append,
    filter_append, filter_eq_self.mpr hkept]
  cases hown : registry.overlays key <;> simp [hown]

variable (hregistry : NamesDistinct registry)
include hregistry

/-- What a scope inherits of a name is the registration of its nearest ancestor. -/
theorem NamesDistinct.lookup_inherited (key : ScopeKey) (name : String) :
    lookup name (registry.inherited (some key)) =
      ((ancestors registry.tree key).map some ++ [none]).findSome? (declared registry name) := by
  have hlayers : registry.inherited (some key) =
      (((ancestors registry.tree key).reverse.filterMap registry.overlays).map ToolLayer.tools).foldl
        (fun entries layer => layer.foldl shadow entries) registry.global.tools := by
    rw [inherited, chainLayers_filter, foldl_map, foldl_filterMap, foldl_filterMap]
    congr 1
    funext entries up
    cases registry.overlays up <;> rfl
  rw [hlayers, lookup_layers, findSome?_append]
  · congr 1
    · rw [← map_reverse, ← filterMap_reverse, reverse_reverse, findSome?_map,
        findSome?_map, ← head?_filterMap, filterMap_filterMap, head?_filterMap]
      rfl
    · simp [declared]
  · intro entries hentries
    obtain ⟨layer, hlayer, rfl⟩ := mem_map.mp hentries
    obtain ⟨up, -, hup⟩ := mem_filterMap.mp hlayer
    exact hregistry.overlays up layer hup

/-- The own registration of a scope, or the nearest inherited one that is admitted. -/
theorem NamesDistinct.get_eq (scope : Option ScopeKey) (name : String) :
    registry.get name scope = match scope with
      | none => declared registry name none
      | some key => (declared registry name (some key)).or
          (if admitted registry (some key) name then
            ((ancestors registry.tree key).map some ++ [none]).findSome? (declared registry name)
          else none) := by
  have hget : registry.get name scope = lookup name (registry.view scope) := rfl
  have hview : registry.view scope =
      (((registry.peek scope).map ToolLayer.tools).getD []).foldl shadow
        ((registry.inherited scope).filter fun entry => admitted registry scope entry.1) := by
    rw [view]
    cases registry.peek scope <;> rfl
  have hown : ((((registry.peek scope).map ToolLayer.tools).getD []).map Prod.fst).Nodup := by
    cases scope with
    | none => exact nodup_nil
    | some key =>
      cases hlayer : registry.overlays key with
      | none => simp [peek, hlayer]
      | some layer => simpa [peek, hlayer] using hregistry.overlays key layer hlayer
  rw [hget, hview, lookup_foldl_shadow hown, lookup_filter (admitted registry scope)]
  cases scope with
  | none => simp [peek, inherited, chainLayers, ScopeTree.scopeChainOf, admitted, declared, lookup]
  | some key =>
    rw [hregistry.lookup_inherited]
    congr 1
    cases hlayer : registry.overlays key <;> simp [peek, declared, hlayer, lookup]

/-- A scope sees the nearest registration of a name, its own always and an inherited one where
every restriction along its chain admits it. -/
theorem NamesDistinct.get_eq_some {scope : Option ScopeKey} {definition : ToolDefinition} :
    registry.get name scope = some definition ↔
    ∃ nearer origin farther, origins registry.tree scope = nearer ++ origin :: farther ∧
      (∀ other ∈ nearer, declared registry name other = none) ∧
      declared registry name origin = some definition ∧
      (origin = scope ∨ admitted registry scope name = true) := by
  rw [hregistry.get_eq]
  cases scope with
  | none =>
    simp only [origins, ScopeTree.scopeChainOf, map_nil, nil_append]
    constructor
    · intro hglobal
      exact ⟨[], none, [], rfl, nofun, hglobal, .inl rfl⟩
    · rintro ⟨nearer, origin, farther, horigins, -, hdeclared, -⟩
      cases nearer with
      | nil =>
        cases horigins
        exact hdeclared
      | cons other rest =>
        obtain ⟨-, hrest⟩ := List.cons.inj horigins
        exact absurd hrest.symm (by simp)
  | some key =>
    have horigins : origins registry.tree (some key) =
        some key :: ((ancestors registry.tree key).map some ++ [none]) := by
      rw [origins, ScopeTree.scopeChainOf, chainFrom_eq]
      rfl
    have hapart : some key ∉ (ancestors registry.tree key).map some ++ [none] := by
      simpa using not_mem_ancestors registry.tree key
    rw [horigins, Option.or_eq_some_iff]
    constructor
    · rintro (hown | ⟨hnone, hinherited⟩)
      · exact ⟨[], some key, _, rfl, nofun, hown, .inl rfl⟩
      · rw [Option.ite_none_right_eq_some] at hinherited
        obtain ⟨hadmitted, hfound⟩ := hinherited
        obtain ⟨nearer, origin, farther, hsplit, hdeclared, hnearer⟩ :=
          findSome?_eq_some_iff.mp hfound
        refine ⟨some key :: nearer, origin, farther, by rw [hsplit]; rfl, ?_, hdeclared,
          .inr hadmitted⟩
        rintro other (_ | ⟨_, hother⟩)
        · exact hnone
        · exact hnearer other hother
    · rintro ⟨nearer, origin, farther, hsplit, hnearer, hdeclared, hpermitted⟩
      cases nearer with
      | nil =>
        cases hsplit
        exact .inl hdeclared
      | cons other rest =>
        obtain ⟨rfl, hrest⟩ := List.cons.inj hsplit
        replace hrest : (ancestors registry.tree key).map some ++ [none] =
          rest ++ origin :: farther := hrest
        have horigin : origin ∈ (ancestors registry.tree key).map some ++ [none] := by
          rw [hrest]
          simp
        have hadmitted := hpermitted.resolve_left fun hself => hapart (hself ▸ horigin)
        refine .inr ⟨hnearer _ mem_cons_self, ?_⟩
        rw [if_pos hadmitted, hrest]
        exact findSome?_eq_some_iff.mpr ⟨rest, origin, farther, rfl, hdeclared,
          fun other hmem => hnearer other (mem_cons_of_mem _ hmem)⟩

end Resolver

section Contents

variable {layers : Layers} {tree : ScopeTree} {origin scope : Option ScopeKey} {name : String}
  {definition : ToolDefinition}

/-- The insertions of one contribution. -/
inductive Formed : List (Insertion Table Entry) → Prop where
  | tool (definition : ToolDefinition) :
      Formed [.insert .tools definition.name (.tool definition)]
  | restriction (filter : CompiledToolRestriction) :
      Formed [.append .restrictions (.restriction filter)]
  | guard (id : Nat) : Formed [.append .guards (.guard id)]

/-- What holds of the layers at all times. -/
structure WellFormed (layers : Layers) : Prop where
  coherent : Coherent layers
  occupied : Occupied layers
  formed : ∀ handle ∈ layers.live, Formed handle.insertions

/-- A tool of this name is registered in a layer. -/
def Registered (layers : Layers) (origin : Option ScopeKey) (name : String)
    (definition : ToolDefinition) : Prop :=
  ∃ handle ∈ layers.live, handle.scope = origin ∧
    handle.insertions = [.insert .tools name (.tool definition)]

def CompiledToolRestriction.admits (filter : CompiledToolRestriction) (name : String) : Bool :=
  (filter.allow.all fun allow => allow.contains name) &&
    filter.deny.all fun deny => ! deny.contains name

/-- A live restriction of a scope rejects the name. -/
def Rejects (layers : Layers) (key : ScopeKey) (name : String) : Prop :=
  ∃ handle ∈ layers.live, ∃ filter : CompiledToolRestriction, handle.scope = some key ∧
    handle.insertions = [.append .restrictions (.restriction filter)] ∧ filter.admits name = false

/-- What the live registrations of a layer amount to. -/
def contents (layers : Layers) (origin : Option ScopeKey) : ToolLayer :=
  .ofView (viewOf (insertionsOf layers.handles origin))

theorem mem_insertionsOf {insertion : Insertion Table Entry} :
    insertion ∈ insertionsOf layers.handles origin ↔
      ∃ handle ∈ layers.live, handle.scope = origin ∧ insertion ∈ handle.insertions := by
  simp [insertionsOf, ScopedLayers.live, and_assoc]

theorem mem_contents_tools : (name, definition) ∈ (contents layers origin).tools ↔
    ∃ handle ∈ layers.live, handle.scope = origin ∧
      .insert .tools name (.tool definition) ∈ handle.insertions := by
  rw [← mem_insertionsOf]
  simp only [contents, ToolLayer.ofView, viewOf, namedAt, mem_filterMap, Option.map_eq_some_iff,
    Prod.mk.injEq]
  constructor
  · rintro ⟨entry, ⟨insertion, hmem, hentry⟩, tool, htool, rfl, rfl⟩
    cases insertion with
    | append table value => cases hentry
    | insert table other value =>
      simp only [Insertion.entry?, Option.ite_none_right_eq_some] at hentry
      obtain ⟨rfl, hentry⟩ := hentry
      cases hentry
      cases value with
      | tool found =>
        cases htool
        exact hmem
      | restriction | guard => cases htool
  · intro hmem
    exact ⟨(name, .tool definition), ⟨_, hmem, rfl⟩, definition, rfl, rfl, rfl⟩

theorem mem_contents_restrictions {filter : CompiledToolRestriction} :
    filter ∈ (contents layers origin).restrictions ↔
      ∃ handle ∈ layers.live, handle.scope = origin ∧
        .append .restrictions (.restriction filter) ∈ handle.insertions := by
  rw [← mem_insertionsOf]
  simp only [contents, ToolLayer.ofView, viewOf, valuesAt, mem_filterMap]
  constructor
  · rintro ⟨value, ⟨insertion, hmem, hvalue⟩, hfilter⟩
    cases insertion with
    | insert table other entry => cases hvalue
    | append table entry =>
      simp only [Insertion.value?, Option.ite_none_right_eq_some] at hvalue
      obtain ⟨rfl, hvalue⟩ := hvalue
      obtain rfl := Option.some.inj hvalue
      cases entry with
      | restriction found =>
        obtain rfl := Option.some.inj hfilter
        exact hmem
      | tool | guard => cases hfilter
  · intro hmem
    exact ⟨.restriction filter, ⟨_, hmem, rfl⟩, rfl⟩

theorem WellFormed.mem_contents_tools (hlayers : WellFormed layers) :
    (name, definition) ∈ (contents layers origin).tools ↔
      Registered layers origin name definition := by
  rw [Tools.mem_contents_tools]
  constructor
  · rintro ⟨handle, hlive, hscope, hmem⟩
    refine ⟨handle, hlive, hscope, ?_⟩
    have hformed := hlayers.formed handle hlive
    generalize handle.insertions = insertions at hformed hmem ⊢
    cases hformed with
    | tool | restriction | guard => rw [mem_singleton.mp hmem]
  · rintro ⟨handle, hlive, hscope, hinsertions⟩
    exact ⟨handle, hlive, hscope, hinsertions ▸ mem_singleton_self _⟩

theorem WellFormed.admits_contents (hlayers : WellFormed layers) (key : ScopeKey) (name : String) :
    (contents layers (some key)).admits name = true ↔ ¬ Rejects layers key name := by
  have hall : (contents layers (some key)).admits name = true ↔
      ∀ filter ∈ (contents layers (some key)).restrictions, filter.admits name = true :=
    all_eq_true
  rw [hall]
  constructor
  · rintro hadmits ⟨handle, hlive, filter, hscope, hinsertions, hrejected⟩
    have hmem : filter ∈ (contents layers (some key)).restrictions :=
      mem_contents_restrictions.2
        ⟨handle, hlive, hscope, hinsertions ▸ mem_singleton_self _⟩
    rw [hadmits filter hmem] at hrejected
    cases hrejected
  · intro hnone filter hmem
    obtain ⟨handle, hlive, hscope, hinserted⟩ := mem_contents_restrictions.1 hmem
    refine Bool.of_not_eq_false fun hrejected => hnone ⟨handle, hlive, filter, hscope, ?_, hrejected⟩
    have hformed := hlayers.formed handle hlive
    generalize handle.insertions = insertions at hformed hinserted ⊢
    cases hformed with
    | tool | restriction | guard => rw [mem_singleton.mp hinserted]

theorem map_fst_tools_sublist (entries : List (String × Entry)) :
    ((entries.filterMap fun entry => entry.2.tool?.map fun tool => (entry.1, tool)).map
      Prod.fst).Sublist (entries.map Prod.fst) := by
  induction entries with
  | nil => exact List.Sublist.refl _
  | cons entry rest ih =>
    obtain ⟨name, value⟩ := entry
    cases value with
    | tool => exact ih.cons_cons name
    | restriction | guard => exact ih.cons name

section
variable (hlayers : WellFormed layers)
include hlayers

theorem WellFormed.nodup_contents (origin : Option ScopeKey) :
    ((contents layers origin).tools.map Prod.fst).Nodup :=
  (map_fst_tools_sublist _).nodup (hlayers.coherent.names origin .tools)

theorem WellFormed.global_eq (tree : ScopeTree) :
    (Registry.ofLayers tree layers).global = contents layers none :=
  congrArg ToolLayer.ofView (hlayers.coherent.view_eq (show layers.Shows 0 none from rfl))

theorem WellFormed.overlays_eq (tree : ScopeTree) (key : ScopeKey) :
    (Registry.ofLayers tree layers).overlays key =
      if (insertionsOf layers.handles (some key)).isEmpty then none
      else some (contents layers (some key)) := by
  have hpeek := congrArg (Option.map ToolLayer.ofView) (hlayers.coherent.peek hlayers.occupied key)
  rw [Option.map_map] at hpeek
  refine Eq.trans hpeek ?_
  split <;> rfl

theorem WellFormed.distinct (tree : ScopeTree) : NamesDistinct (Registry.ofLayers tree layers) where
  global := hlayers.global_eq tree ▸ hlayers.nodup_contents none
  overlays key layer hlayer := by
    rw [hlayers.overlays_eq, Option.ite_none_left_eq_some] at hlayer
    exact Option.some.inj hlayer.2 ▸ hlayers.nodup_contents (some key)

end

theorem contents_of_isEmpty (hempty : (insertionsOf layers.handles origin).isEmpty = true) :
    (contents layers origin).tools = [] ∧ (contents layers origin).restrictions = [] := by
  rw [contents, isEmpty_iff.mp hempty]
  exact ⟨rfl, rfl⟩

theorem WellFormed.declared_eq_some (hlayers : WellFormed layers) (tree : ScopeTree) :
    declared (Registry.ofLayers tree layers) name origin = some definition ↔
      Registered layers origin name definition := by
  rw [← hlayers.mem_contents_tools, ← lookup_eq_some (hlayers.nodup_contents origin)]
  cases origin with
  | none => rw [declared, hlayers.global_eq]
  | some key =>
    rw [declared, hlayers.overlays_eq]
    split
    next hempty =>
      rw [(contents_of_isEmpty hempty).1]
      rfl
    · rfl

theorem WellFormed.admitted_iff (hlayers : WellFormed layers) (tree : ScopeTree) :
    admitted (Registry.ofLayers tree layers) scope name = true ↔
      ∀ key ∈ tree.scopeChainOf scope, ¬ Rejects layers key name := by
  have hlayer : ∀ key, (∀ layer, (Registry.ofLayers tree layers).overlays key = some layer →
      layer.admits name = true) ↔ ¬ Rejects layers key name := by
    intro key
    rw [← hlayers.admits_contents, hlayers.overlays_eq]
    split
    next hempty => simp [ToolLayer.admits, (contents_of_isEmpty hempty).2]
    · simp
  simp only [← hlayer, admitted, Registry.chainLayers, all_eq_true, mem_filterMap,
    mem_reverse, Option.map_eq_some_iff]
  constructor
  · intro hall key hkey layer hfound
    exact hall (key, layer) ⟨key, hkey, layer, hfound, rfl⟩
  · rintro hall _ ⟨key, hkey, layer, hfound, rfl⟩
    exact hall key hkey layer hfound

end Contents

section Runs

variable {layers : Layers} {tree : ScopeTree}

theorem wellFormed_start : WellFormed {} where
  coherent := Scoped.coherent_new
  occupied := Scoped.occupied_new
  formed := nofun

/-- A contribution stands with its one insertion, or leaves the live ones as they are. -/
theorem WellFormed.contribute (hlayers : WellFormed layers) (context : Context)
    {insertion : Insertion Table Entry} (hformed : Formed [insertion]) (notify : Bool) :
    WellFormed (Tools.contribute layers context insertion notify).1 := by
  let registration : Scoped.Registration Table Entry :=
    { scope := context.scope, action := { insertions := [insertion] }, notify
      inactive := context.inactive }
  have hadds : registration.action.Adds := fun _ => cons_ne_nil _ _
  obtain ⟨hcoherent, hoccupied, hregisters⟩ := hlayers.coherent.effect hlayers.occupied hadds
  refine ⟨hcoherent, hoccupied, fun handle hlive => ?_⟩
  rcases hregisters with ⟨-, hhandles⟩ | ⟨-, registered, hhandles, -, -, hinsertions⟩
  · rw [Tools.contribute, ScopedLayers.live, hhandles] at hlive
    exact hlayers.formed handle hlive
  · rw [Tools.contribute, ScopedLayers.live, hhandles, Scoped.liveOf_append] at hlive
    rcases mem_append.mp hlive with hold | hnew
    · exact hlayers.formed handle hold
    · obtain ⟨hmem, -⟩ := Scoped.mem_liveOf.1 hnew
      rw [mem_singleton.mp hmem, hinsertions]
      exact hformed

theorem live_of_dispose {index : Nat} {handle : Handle Table Entry}
    (hlive : handle ∈ (layers.dispose index).live) : handle ∈ layers.live := by
  rw [ScopedLayers.dispose] at hlive
  split at hlive
  · exact hlive
  next found hfound =>
    split at hlive
    · exact hlive
    · have hhandles : ∀ (registry : Layers) scope layer undos,
          (registry.rollback scope layer undos).handles = registry.handles := by
        intro registry scope layer undos
        rw [ScopedLayers.rollback]
        split
        · cases scope <;> rfl
        · rfl
      rw [ScopedLayers.live, hhandles] at hlive
      obtain ⟨hmem, hopen⟩ := Scoped.mem_liveOf.1 hlive
      refine Scoped.mem_liveOf.2 ⟨?_, hopen⟩
      rcases mem_or_eq_of_mem_set hmem with hold | rfl
      · exact hold
      · cases hopen

theorem WellFormed.request (hlayers : WellFormed layers) {call : Request} {next : Layers}
    (hrequest : Tools.request tree layers call = some next) : WellFormed next := by
  cases call with
  | register context definition =>
    cases hrequest
    have hkept := hlayers.contribute context (.tool definition) true
    rw [register]
    split
    · exact hlayers
    · split
      · exact hlayers
      · split
        · exact hlayers
        · split <;> (next hcontribute => rwa [hcontribute] at hkept)
  | restrict context filter =>
    cases hrequest
    have hkept := hlayers.contribute context (.restriction ⟨filter.allow, filter.deny⟩) true
    rw [restrict]
    split
    · exact hlayers
    · split
      · exact hlayers
      · dsimp only
        split
        · exact hlayers
        · split
          · exact hlayers
          · split <;> (next hcontribute => rwa [hcontribute] at hkept)
  | registerGuard context id =>
    cases hrequest
    have hkept := hlayers.contribute context (.guard id) false
    rw [registerGuard]
    split <;> (next hcontribute => rwa [hcontribute] at hkept)
  | dispose index =>
    cases hrequest
    obtain ⟨hcoherent, hoccupied⟩ := hlayers.coherent.dispose hlayers.occupied index
    exact ⟨hcoherent, hoccupied, fun handle hlive => hlayers.formed handle (live_of_dispose hlive)⟩

end Runs

section Presentation

variable {registry : Registry} {scope : Option ScopeKey} {name : String}
  {definition : ToolDefinition}

theorem map_fst_shadow {V : Type} (entries : List (String × V)) (entry : String × V) :
    (shadow entries entry).map Prod.fst =
      if entry.1 ∈ entries.map Prod.fst then entries.map Prod.fst
      else entries.map Prod.fst ++ [entry.1] := by
  induction entries with
  | nil => rfl
  | cons slot rest ih =>
    rw [shadow]
    by_cases hslot : slot.1 = entry.1
    · simp [hslot]
    · simp only [hslot, if_false, map_cons, ih, mem_cons, Ne.symm hslot, false_or]
      split <;> rfl

theorem nodup_shadow {V : Type} {entries : List (String × V)}
    (hnames : (entries.map Prod.fst).Nodup) (upper : List (String × V)) :
    ((upper.foldl shadow entries).map Prod.fst).Nodup := by
  induction upper generalizing entries with
  | nil => exact hnames
  | cons entry rest ih =>
    apply ih
    rw [map_fst_shadow]
    split
    · exact hnames
    next hfresh =>
      refine nodup_append.mpr ⟨hnames, nodup_singleton _, ?_⟩
      rintro used hused _ hnew rfl
      exact hfresh (mem_singleton.mp hnew ▸ hused)

theorem NamesDistinct.nodup_view (hregistry : NamesDistinct registry) (scope : Option ScopeKey) :
    ((registry.view scope).map Prod.fst).Nodup := by
  have hinherited : ((registry.inherited scope).map Prod.fst).Nodup := by
    rw [Registry.inherited]
    generalize (registry.chainLayers scope).filter _ = chain
    have hglobal := hregistry.global
    generalize registry.global.tools = entries at hglobal ⊢
    induction chain generalizing entries with
    | nil => exact hglobal
    | cons layer rest ih => exact ih _ (nodup_shadow hglobal layer.2.tools)
  have hadmitted : (((registry.inherited scope).filter fun entry =>
      admitted registry scope entry.1).map Prod.fst).Nodup :=
    (filter_sublist.map _).nodup hinherited
  rw [Registry.view]
  cases registry.peek scope with
  | none => exact hadmitted
  | some own => exact nodup_shadow hadmitted own.tools

theorem NamesDistinct.mem_view (hregistry : NamesDistinct registry) :
    (name, definition) ∈ registry.view scope ↔ registry.get name scope = some definition :=
  (lookup_eq_some (hregistry.nodup_view scope)).symm

end Presentation

section Law

variable {Message : Type} {tree : ScopeTree} {layers : Layers} {requests : List Request}

/-- The registration of the nearest layer that has the name, which is the scope's own or whose
name no live restriction along the chain rejects. -/
def Visible (tree : ScopeTree) (layers : Layers) (scope : Option ScopeKey) (name : String)
    (definition : ToolDefinition) : Prop :=
  ∃ nearer origin farther, origins tree scope = nearer ++ origin :: farther ∧
    (∀ other ∈ nearer, ∀ shadowing, ¬ Registered layers other name shadowing) ∧
    Registered layers origin name definition ∧
    (origin = scope ∨ ∀ key ∈ tree.scopeChainOf scope, ¬ Rejects layers key name)

theorem WellFormed.get_eq_some (hlayers : WellFormed layers) {scope : Option ScopeKey} {name : String}
    {definition : ToolDefinition} :
    (Registry.ofLayers tree layers).get name scope = some definition ↔
      Visible tree layers scope name definition := by
  have hnone : ∀ other, declared (Registry.ofLayers tree layers) name other = none ↔
      ∀ shadowing, ¬ Registered layers other name shadowing := by
    intro other
    simp only [Option.eq_none_iff_forall_not_mem, Option.mem_def, hlayers.declared_eq_some]
  rw [(hlayers.distinct tree).get_eq_some]
  simp only [hnone, hlayers.declared_eq_some, hlayers.admitted_iff]
  rfl

theorem WellFormed.name_of_visible (hlayers : WellFormed layers) {scope : Option ScopeKey}
    {name : String}
    {definition : ToolDefinition} (hvisible : Visible tree layers scope name definition) :
    definition.name = name := by
  obtain ⟨-, origin, -, -, -, ⟨handle, hlive, -, hinsertions⟩, -⟩ := hvisible
  have hformed := hlayers.formed handle hlive
  rw [hinsertions] at hformed
  cases hformed
  rfl

/-- After any registrations, restrictions and disposals a scope sees, under a name, the
registration of the nearest layer on its chain that has one: its own always, an inherited one
if no live restriction along the whole chain rejects the name. The lookup, the schemas of both
kinds, the execution mode and the dispatch go by this. -/
theorem visibility_law (hrun : Trace.run (request tree) {} requests = some layers) :
    (∀ scope name definition,
      (Registry.ofLayers tree layers).get name scope = some definition ↔
        Visible tree layers scope name definition) ∧
    (∀ scope schema, schema ∈ (Registry.ofLayers tree layers).schemas scope ↔
      ∃ definition, Visible tree layers scope schema.name definition ∧
        schemaOf definition = schema) ∧
    (∀ scope, (((Registry.ofLayers tree layers).schemas scope).map ToolSchema.name).Nodup ∧
      ((Registry.ofLayers tree layers).wireSchemas scope).schemas =
        (Registry.ofLayers tree layers).schemas scope) ∧
    (∀ input, (Registry.ofLayers tree layers).executionMode input = .parallel ↔
      ∃ definition classify, Visible tree layers (agentScope input.agent) input.name definition ∧
        definition.isConcurrencySafe = some classify ∧ classify input.arguments = true) ∧
    ∀ state : State Message, state.world.registry = Registry.ofLayers tree layers →
      (AbortSignal.any [state.exec.callerSignal, state.exec.signal]).aborted state.world.aborted =
        false →
      (∀ definition, (∃ fused wrapper, state.dispatchToolBody.inner = .body definition fused wrapper) ↔
        Visible tree layers state.exec.scope state.exec.name definition) ∧
      ((∀ definition, ¬ Visible tree layers state.exec.scope state.exec.name definition) →
        state.dispatchToolBody.inner =
          .settled (toolErrorResult (ToolNotFoundError state.exec.name))) := by
  have hlayers : WellFormed layers :=
    Trace.run_invariant (fun _ _ _ hformed => WellFormed.request hformed) wellFormed_start hrun
  have hschemas : ∀ scope, (Registry.ofLayers tree layers).schemas scope =
      ((Registry.ofLayers tree layers).view scope).map fun entry => schemaOf entry.2 := fun _ => rfl
  have hvisible : ∀ {scope entry}, entry ∈ (Registry.ofLayers tree layers).view scope ↔
      Visible tree layers scope entry.1 entry.2 := by
    intro scope entry
    rw [← hlayers.get_eq_some, ← (hlayers.distinct tree).mem_view]
  refine ⟨fun _ _ _ => hlayers.get_eq_some, ?_, ?_, ?_, ?_⟩
  · intro scope schema
    rw [hschemas, mem_map]
    constructor
    · rintro ⟨entry, hmem, rfl⟩
      have hentry := hvisible.mp hmem
      refine ⟨entry.2, ?_, rfl⟩
      rwa [← hlayers.name_of_visible hentry] at hentry
    · rintro ⟨definition, hdefinition, hschema⟩
      exact ⟨(schema.name, definition), hvisible.mpr hdefinition, hschema⟩
  · intro scope
    refine ⟨?_, rfl⟩
    have hnames : ((Registry.ofLayers tree layers).schemas scope).map ToolSchema.name =
        ((Registry.ofLayers tree layers).view scope).map Prod.fst := by
      rw [hschemas, map_map]
      refine map_congr_left fun entry hmem => ?_
      exact hlayers.name_of_visible (hvisible.mp hmem)
    rw [hnames]
    exact (hlayers.distinct tree).nodup_view scope
  · intro input
    simp only [← hlayers.get_eq_some, Registry.executionMode]
    cases (Registry.ofLayers tree layers).get input.name (agentScope input.agent) with
    | none => simp
    | some tool => cases htool : tool.isConcurrencySafe <;> simp [htool]
  · intro state hregistry hlive
    have hget : state.exec.visible state.world =
        (Registry.ofLayers tree layers).get state.exec.name state.exec.scope := by
      rw [ToolExecution.visible, hregistry]
    simp only [← hlayers.get_eq_some, State.dispatchToolBody, hlive, hget]
    cases (Registry.ofLayers tree layers).get state.exec.name state.exec.scope with
    | none | some tool => simp

/-- The nearest registration, if no live restriction of a scope nearer than it rejects the
name. -/
def VisibleThroughNearer (tree : ScopeTree) (layers : Layers) (scope : Option ScopeKey)
    (name : String) (definition : ToolDefinition) : Prop :=
  ∃ nearer origin farther, origins tree scope = nearer ++ origin :: farther ∧
    (∀ other ∈ nearer, ∀ shadowing, ¬ Registered layers other name shadowing) ∧
    Registered layers origin name definition ∧
    ∀ key, some key ∈ nearer → ¬ Rejects layers key name

def nested : ScopeTree where
  parent key := if key = 2 then some 1 else none
  depth key := key
  parent_depth key up hparent := by
    obtain ⟨rfl, hup⟩ := Option.ite_none_right_eq_some.mp hparent
    cases hup
    decide

def plainTool (name : String) : ToolDefinition :=
  ⟨name, "", [], ⟨.object [], fun _ _ => .ok [], none⟩, false, none, none⟩

/-- A global tool; then scope 1 registers one and restricts what it inherits to the global one. -/
def restrictedParent : List Request :=
  [.register ⟨none, false⟩ (plainTool "read"), .register ⟨some 1, false⟩ (plainTool "report"),
    .restrict ⟨some 1, false⟩ { allow := some ["read"] }]

def restrictedLayers : Layers :=
  let read := (contribute {} ⟨none, false⟩ (.insert .tools "read" (.tool (plainTool "read"))) true).1
  let report :=
    (contribute read ⟨some 1, false⟩ (.insert .tools "report" (.tool (plainTool "report"))) true).1
  (contribute report ⟨some 1, false⟩
    (.append .restrictions (.restriction ⟨some ["read"], none⟩)) true).1

theorem register_plainTool (layers : Layers) (context : Context) {name : String}
    (hname : name ≠ RUN_CODE_NAME) : (register layers context (plainTool name)).1 =
      (contribute layers context (.insert .tools name (.tool (plainTool name))) true).1 := by
  have hchecked : checkSchemaNode (.object []) "schema" = [] := by
    rw [checkSchemaNode]
    rfl
  have hsupported : assertSupportedJsonSchema (plainTool name).output.schema = .ok () := by
    rw [assertSupportedJsonSchema, plainTool, hchecked]
    rfl
  have htimeout : (plainTool name).timeoutMs = none := rfl
  have hnamed : (plainTool name).name = name := rfl
  simp only [register, hsupported, htimeout, hnamed, Option.any_none, Bool.false_eq_true, if_false,
    hname]
  split <;> (next hcontribute => rw [hcontribute])

theorem restrict_read {layers : Layers}
    (hglobal : (ToolLayer.ofView layers.global.view).tools = [("read", plainTool "read")]) :
    (restrict nested layers ⟨some 1, false⟩ { allow := some ["read"] }).1 =
      (contribute layers ⟨some 1, false⟩
        (.append .restrictions (.restriction ⟨some ["read"], none⟩)) true).1 := by
  have hknown : (Registry.ofLayers nested layers).restrictableNames (some 1) = ["read"] := by
    rw [Registry.restrictableNames, Registry.inherited, chainLayers_filter]
    have hnames := congrArg (List.map Prod.fst) hglobal
    exact hnames
  have hreserved : ¬ RUN_CODE_NAME = "read" := by decide
  simp only [restrict, hknown, Option.isNone_some, Option.isNone_none, Bool.false_and,
    Bool.false_eq_true, if_false, Option.getD_some, Option.getD_none, append_nil,
    mem_singleton, hreserved, decide_not, decide_true, Bool.not_true, filter_cons,
    filter_nil, map_nil, ne_eq, not_true_eq_false]
  split <;> (next hcontribute => rw [hcontribute])

theorem run_restrictedParent :
    Trace.run (request nested) {} restrictedParent = some restrictedLayers := by
  simp only [restrictedParent, Trace.run, request]
  rw [register_plainTool _ _ (by decide), register_plainTool _ _ (by decide), restrict_read rfl]
  rfl

theorem visibility_law_restrictedParent :
    (((Registry.ofLayers nested restrictedLayers).schemas none).map ToolSchema.name).Nodup ∧
      ∀ scope name definition,
        (Registry.ofLayers nested restrictedLayers).get name scope = some definition ↔
          Visible nested restrictedLayers scope name definition :=
  have hlaw := @visibility_law Unit _ _ _ run_restrictedParent
  ⟨(hlaw.2.2.1 none).1, hlaw.1⟩

theorem live_restrictedLayers : restrictedLayers.live.map (fun handle =>
    (handle.scope, handle.insertions)) =
      [(none, [.insert .tools "read" (.tool (plainTool "read"))]),
        (some 1, [.insert .tools "report" (.tool (plainTool "report"))]),
        (some 1, [.append .restrictions (.restriction ⟨some ["read"], none⟩)])] := rfl

theorem mem_live_restrictedLayers {scope : Option ScopeKey}
    {insertions : List (Insertion Table Entry)} :
    (∃ handle ∈ restrictedLayers.live, handle.scope = scope ∧ handle.insertions = insertions) ↔
      (scope, insertions) ∈ restrictedLayers.live.map fun handle =>
        (handle.scope, handle.insertions) := by
  simp

/-- The scope that registered the tool sees it. The scope nested in it, which restricts nothing,
does not: the restriction of the registering scope rejects the name. -/
theorem own_restriction_hides_tool :
    ∃ layers, Trace.run (request nested) {} restrictedParent = some layers ∧
      VisibleThroughNearer nested layers (some 2) "report" (plainTool "report") ∧
      (Registry.ofLayers nested layers).get "report" (some 2) = none := by
  have hlayers : WellFormed restrictedLayers :=
    Trace.run_invariant (fun _ _ _ hformed => WellFormed.request hformed) wellFormed_start
      run_restrictedParent
  have hchain : nested.scopeChainOf (some 2) = [2, 1] := by
    rw [ScopeTree.scopeChainOf, chainFrom_eq, show ancestors nested 2 = nested.chainFrom 1 from rfl,
      chainFrom_eq]
    rfl
  have hreport : Registered restrictedLayers (some 1) "report" (plainTool "report") := by
    rw [Registered, mem_live_restrictedLayers, live_restrictedLayers]
    exact .tail _ (.head _)
  have hempty : ∀ insertions, ¬ ∃ handle ∈ restrictedLayers.live, handle.scope = some 2 ∧
      handle.insertions = insertions := by
    intro insertions
    rw [mem_live_restrictedLayers, live_restrictedLayers]
    simp
  have hrejects : Rejects restrictedLayers 1 "report" := by
    have hlive : ∃ handle ∈ restrictedLayers.live, handle.scope = some 1 ∧
        handle.insertions = [.append .restrictions (.restriction ⟨some ["read"], none⟩)] := by
      rw [mem_live_restrictedLayers, live_restrictedLayers]
      exact .tail _ (.tail _ (.head _))
    obtain ⟨handle, hlive, hscope, hinsertions⟩ := hlive
    exact ⟨handle, hlive, ⟨some ["read"], none⟩, hscope, hinsertions, rfl⟩
  refine ⟨restrictedLayers, run_restrictedParent, ?_, ?_⟩
  · refine ⟨[some 2], some 1, [none], by rw [origins, hchain]; rfl, ?_, hreport, ?_⟩
    · intro other hother definition hregistered
      rw [mem_singleton.mp hother] at hregistered
      exact hempty _ hregistered
    · rintro key hkey ⟨handle, hlive, filter, hscope, hinsertions, -⟩
      rw [mem_singleton.mp hkey] at hscope
      exact hempty _ ⟨handle, hlive, hscope, hinsertions⟩
  · rw [Option.eq_none_iff_forall_not_mem]
    intro definition hget
    obtain ⟨-, origin, -, -, -, hregistered, hpermitted⟩ := hlayers.get_eq_some.mp hget
    rcases hpermitted with rfl | hadmitted
    · exact hempty _ hregistered
    · exact hadmitted 1 (hchain ▸ by simp) hrejects

end Law

end Keel.Tools
