import Keel.Dsh.SchemaDsl
import Keel.Foundation.Lists
import Keel.Foundation.Rounding

/-! # The author form of a schema

A spec is written as the untyped author syntax and parsed back from it. Everything comes back as
it was but integer literals, which are read as doubles: one that no double equals comes back as
its neighbour.
-/

namespace Keel.Tools

open List

section Numbers

def i64Min : Int := -2 ^ 63

def i64Max : Int := 2 ^ 63 - 1

/-- `Value::as_f64`; an integer is rounded to a double. -/
def Value.asF64 : Value → Option Double
  | .number (.int value) => some (.finite (Rounding.roundInt 53 value))
  | .number (.float value) => some (.finite value)
  | .number .negativeZero => some .negativeZero
  | _ => none

/-- `f as i64`, which saturates, of a double without a fraction. -/
def Double.toInteger : Double → Option Int
  | .negativeZero => some 0
  | .finite value => if value.den = 1 then some (max i64Min (min i64Max value.num)) else none
  | .nan | .infinite _ => none

def Value.asBool : Value → Option Bool
  | .bool value => some value
  | _ => none

/-- The integer that an integer literal is read as. -/
def readBack (value : Int) : Int := max i64Min (min i64Max (Rounding.roundInt 53 value))

end Numbers

section Writing

/-- The fields of a node with its annotations behind them. -/
def annotated (annotations : ValueSchemaAnnotations) (node : List (String × Value)) :
    List (String × Value) :=
  node ++ optional "description" (annotations.description.map .string) ++
    optional "title" (annotations.title.map .string) ++ optional "default" annotations.default ++
    optional "examples" annotations.examples

mutual

/-- Project a spec back onto the untyped author syntax, as the fields of an object. -/
def authorNode : ValueSchemaSpec → List (String × Value)
  | .oneOf annotations branches =>
    annotated annotations [("oneOf", .array (authorBranches branches))]
  | .json annotations => annotated annotations [("type", .string "json")]
  | .null annotations => annotated annotations [("type", .string "null")]
  | .object annotations properties additionalProperties =>
    annotated annotations
      (("type", .string "object") :: ("additionalProperties", .bool additionalProperties) ::
        match properties with
        | some properties => [("properties", .object (authorProperties properties []))]
        | none => [])
  | .array annotations items =>
    annotated annotations (("type", .string "array") ::
      match items with
      | some items => [("items", .object (authorNode items))]
      | none => [])
  | .string annotations enumValues constValue =>
    annotated annotations (scalarAuthorValue .string .string enumValues constValue)
  | .number annotations enumValues constValue =>
    annotated annotations (scalarAuthorValue Double.toValue .number enumValues constValue)
  | .integer annotations enumValues constValue =>
    annotated annotations
      (scalarAuthorValue (.number <| .int ·) .integer enumValues constValue)
  | .boolean annotations enumValues constValue =>
    annotated annotations (scalarAuthorValue .bool .boolean enumValues constValue)

def authorBranches : List ValueSchemaSpec → List Value
  | [] => []
  | branch :: branches => .object (authorNode branch) :: authorBranches branches

/-- The properties are inserted one after the other, each with its flag. -/
def authorProperties : ParameterSchemaSpec → List (String × Value) → List (String × Value)
  | [], written => written
  | (name, ⟨required, spec⟩) :: properties, written =>
    authorProperties properties (insertField written name (.object
      (if required then insertField (authorNode spec) "required" (.bool true)
      else authorNode spec)))

end

def toAuthorValue (spec : ValueSchemaSpec) : Value := .object (authorNode spec)

end Writing

section Depth

namespace Value

mutual

def depth : Value → Nat
  | .array items => depthItems items + 1
  | .object fields => depthFields fields + 1
  | _ => 0

def depthItems : List Value → Nat
  | [] => 0
  | item :: items => max (depth item) (depthItems items)

def depthFields : List (String × Value) → Nat
  | [] => 0
  | (_, value) :: fields => max (depth value) (depthFields fields)

end

theorem depth_le_of_item {items : List Value} {item : Value} (hitem : item ∈ items) :
    item.depth ≤ depthItems items := by
  induction items with
  | nil => cases hitem
  | cons first rest ih =>
    rw [depthItems]
    rcases mem_cons.mp hitem with rfl | hrest
    · exact le_max_left _ _
    · exact (ih hrest).trans (le_max_right _ _)

variable {fields : List (String × Value)}

theorem depthFields_le {bound : Nat} :
    depthFields fields ≤ bound ↔ ∀ field ∈ fields, field.2.depth ≤ bound := by
  induction fields with
  | nil => simp [depthFields]
  | cons field rest ih => simp [depthFields, ih]

theorem depth_lt_of_lookup {key : String} {child : Value}
    (hchild : fields.lookup key = some child) : child.depth < depth (.object fields) := by
  have hmem : (key, child) ∈ fields := by
    obtain ⟨before, after, rfl, -⟩ := lookup_eq_some_iff.mp hchild
    exact mem_append_right before mem_cons_self
  have hfield := depthFields_le.1 le_rfl _ hmem
  rw [depth]
  exact Nat.lt_succ_of_le hfield

theorem depth_lt_of_branch {key : String} {items : List Value}
    (hitems : fields.lookup key = some (.array items)) {item : Value} (hitem : item ∈ items) :
    item.depth < depth (.object fields) := by
  have harray := depth_lt_of_lookup hitems
  have hbound := depth_le_of_item hitem
  rw [depth] at harray
  omega

end Value

/-- `Map::remove`: the last entry takes the place of the one removed. -/
def swapRemove (map : List (String × Value)) (key : String) : List (String × Value) :=
  match map.findIdx? fun field => field.1 = key, map.getLast? with
  | some index, some last => (map.set index last).dropLast
  | _, _ => map

theorem mem_of_mem_swapRemove {map : List (String × Value)} {key : String}
    {field : String × Value} (hfield : field ∈ swapRemove map key) : field ∈ map := by
  rw [swapRemove] at hfield
  split at hfield
  next index last _ hlast =>
    rcases mem_or_eq_of_mem_set ((dropLast_sublist _).mem hfield) with hold | rfl
    · exact hold
    · exact mem_of_getLast? hlast
  · exact hfield

theorem depth_swapRemove_le (map : List (String × Value)) (key : String) :
    Value.depth (.object (swapRemove map key)) ≤ Value.depth (.object map) := by
  rw [Value.depth, Value.depth]
  have hfields : Value.depthFields (swapRemove map key) ≤ Value.depthFields map :=
    Value.depthFields_le.2 fun field hfield =>
      Value.depthFields_le.1 le_rfl field (mem_of_mem_swapRemove hfield)
  omega

end Depth

section Parsing

def AUTHOR_ANNOTATION_KEYS : List String := ["description", "title", "default", "examples"]

def authorError {α : Type} (message : String) : Except (List String) α := .error [message]

/-- An annotation that has to be a string. -/
def parseText (map : List (String × Value)) (path key : String) :
    Except (List String) (Option String) :=
  match map.lookup key with
  | none => .ok none
  | some (.string text) => .ok (some text)
  | some _ => authorError (path ++ "." ++ key ++ " must be a string")

def parseAnnotations (map : List (String × Value)) (path : String) :
    Except (List String) ValueSchemaAnnotations := do
  let description ← parseText map path "description"
  let title ← parseText map path "title"
  pure { description, title, default := map.lookup "default", examples := map.lookup "examples" }

def assertAuthorKeys (map : List (String × Value)) (path : String) (allowed : List String) :
    Except (List String) Unit :=
  match (map.map Prod.fst).find? fun key => key ∉ AUTHOR_ANNOTATION_KEYS ∧ key ∉ allowed with
  | some key => authorError (path ++ "." ++ key ++ " is not supported by the value schema DSL")
  | none => .ok ()

def parseScalarList {Literal : Type} (map : List (String × Value)) (path typeName : String)
    (parse : Value → Option Literal) :
    Except (List String) (Option (List Literal) × Option Literal) := do
  let refusal := path ++ ".enum must be a non-empty array of " ++ typeName ++ " values"
  let enumValues ← match map.lookup "enum" with
    | none => pure none
    | some (.array []) => authorError refusal
    | some (.array entries) =>
      match entries.mapM parse with
      | some values => pure (some values)
      | none => authorError refusal
    | some _ => authorError refusal
  let constValue ← match map.lookup "const" with
    | none => pure none
    | some value =>
      match parse value with
      | some parsed => pure (some parsed)
      | none => authorError (path ++ ".const must be a " ++ typeName ++ " value")
  pure (enumValues, constValue)

def parseRequired (record : List (String × Value)) (path : String) : Except (List String) Bool :=
  match record.lookup "required" with
  | none => .ok false
  | some (.bool true) => .ok true
  | some _ => authorError (path ++ ".required must be true when present")

mutual

/-- Parse one untyped author property map. -/
def fromAuthorProperties (input : Value) (path : String) :
    Except (List String) ParameterSchemaSpec :=
  match _hinput : input with
  | .object map =>
    map.attach.mapM fun ⟨(name, property), _⟩ =>
      match _hproperty : property with
      | .object record => do
          let required ← parseRequired record (path ++ "." ++ name)
          let spec ←
            fromAuthorValue (.object (swapRemove record "required")) (path ++ "." ++ name)
          pure (name, ⟨required, spec⟩)
      | _ => authorError (path ++ "." ++ name ++ " must be a value schema object")
  | _ => authorError (path ++ " must be an object of value schemas")
termination_by input.depth
decreasing_by
  · have hrecord := depth_swapRemove_le record "required"
    have hfield := Value.depthFields_le.1 le_rfl _ ‹(name, Value.object record) ∈ map›
    have hmap : Value.depth (.object map) = Value.depthFields map + 1 := by rw [Value.depth]
    rw [hmap]
    exact Nat.lt_succ_of_le (hrecord.trans hfield)

def fromAuthorValue (input : Value) (path : String) : Except (List String) ValueSchemaSpec :=
  match _hinput : input with
  | .object map => do
      let annotations ← parseAnnotations map path
      if hasKey map "oneOf" then
        assertAuthorKeys map path ["oneOf", "type"]
        if hasKey map "type" then
          authorError (path ++ " cannot declare both type and oneOf")
        else
          match _hentries : map.lookup "oneOf" with
          | some (.array entries) =>
            let branches ← entries.zipIdx.attach.mapM fun ⟨branch, _⟩ =>
              fromAuthorValue branch.1 (path ++ ".oneOf[" ++ toString branch.2 ++ "]")
            pure (.oneOf annotations branches)
          | _ => authorError (path ++ ".oneOf must be an array of at least two value schemas")
      else match (map.lookup "type").bind Value.asStr with
        | some "json" => do
            assertAuthorKeys map path ["type"]
            pure (.json annotations)
        | some "object" => do
            assertAuthorKeys map path ["type", "properties", "additionalProperties"]
            match (map.lookup "additionalProperties").bind Value.asBool with
            | none =>
              authorError (path ++ ".additionalProperties must be explicitly true or false")
            | some additional =>
              match _hproperties : map.lookup "properties" with
              | none => pure (.object annotations none additional)
              | some value =>
                let properties ← fromAuthorProperties value (path ++ ".properties")
                pure (.object annotations (some properties) additional)
        | some "array" => do
            assertAuthorKeys map path ["type", "items"]
            match _hitems : map.lookup "items" with
            | none => pure (.array annotations none)
            | some value =>
              let items ← fromAuthorValue value (path ++ ".items")
              pure (.array annotations (some items))
        | some "string" => do
            assertAuthorKeys map path ["type", "enum", "const"]
            let (enumValues, constValue) ← parseScalarList map path "string" Value.asStr
            pure (.string annotations enumValues constValue)
        | some "number" => do
            assertAuthorKeys map path ["type", "enum", "const"]
            let (enumValues, constValue) ← parseScalarList map path "number" Value.asF64
            pure (.number annotations enumValues constValue)
        | some "integer" => do
            assertAuthorKeys map path ["type", "enum", "const"]
            let (enumValues, constValue) ← parseScalarList map path "integer" fun value =>
              value.asF64.bind Double.toInteger
            pure (.integer annotations enumValues constValue)
        | some "boolean" => do
            assertAuthorKeys map path ["type", "enum", "const"]
            let (enumValues, constValue) ← parseScalarList map path "boolean" Value.asBool
            pure (.boolean annotations enumValues constValue)
        | some "null" => do
            assertAuthorKeys map path ["type", "enum", "const"]
            pure (.null annotations)
        | _ => authorError (path ++ ".type must be string/number/integer/boolean/null/array/" ++
            "object/json, or use oneOf")
  | _ => authorError (path ++ " must be a value schema object")
termination_by input.depth
decreasing_by
  · exact Value.depth_lt_of_branch ‹_› (fst_mem_of_mem_zipIdx ‹_›)
  · exact Value.depth_lt_of_lookup ‹_›
  · exact Value.depth_lt_of_lookup ‹_›

end

end Parsing

section RoundTrip

def declaredLiterals {Literal : Type} (enumValues : Option (List Literal))
    (constValue : Option Literal) : List Literal :=
  enumValues.getD [] ++ constValue.toList

def Double.IsFinite : Double → Prop
  | .nan | .infinite _ => False
  | .negativeZero | .finite _ => True

/-- Distinct property names, no empty enumerations, finite numbers, and integers of 64 bits. -/
inductive Writable : ValueSchemaSpec → Prop
  | string annotations enumValues constValue (henum : enumValues ≠ some []) :
      Writable (.string annotations enumValues constValue)
  | number annotations enumValues constValue (henum : enumValues ≠ some [])
      (hfinite : ∀ literal ∈ declaredLiterals enumValues constValue, literal.IsFinite) :
      Writable (.number annotations enumValues constValue)
  | integer annotations enumValues constValue (henum : enumValues ≠ some [])
      (hrange : ∀ literal ∈ declaredLiterals enumValues constValue,
        i64Min ≤ literal ∧ literal ≤ i64Max) :
      Writable (.integer annotations enumValues constValue)
  | boolean annotations enumValues constValue (henum : enumValues ≠ some []) :
      Writable (.boolean annotations enumValues constValue)
  | null annotations : Writable (.null annotations)
  | array annotations items (hitems : ∀ item, items = some item → Writable item) :
      Writable (.array annotations items)
  | object annotations properties additionalProperties
      (hnodup : ∀ declared, properties = some declared → (declared.map Prod.fst).Nodup)
      (hspecs : ∀ declared, properties = some declared → ∀ property ∈ declared,
        Writable property.2.spec) : Writable (.object annotations properties additionalProperties)
  | json annotations : Writable (.json annotations)
  | oneOf annotations branches (hbranches : ∀ branch ∈ branches, Writable branch) :
      Writable (.oneOf annotations branches)

mutual

/-- The spec with every integer literal read back. -/
def rounded : ValueSchemaSpec → ValueSchemaSpec
  | .integer annotations enumValues constValue =>
    .integer annotations (enumValues.map (·.map readBack)) (constValue.map readBack)
  | .array annotations items =>
    .array annotations (match items with
      | some items => some (rounded items)
      | none => none)
  | .object annotations properties additionalProperties =>
    .object annotations (match properties with
      | some properties => some (roundedProperties properties)
      | none => none) additionalProperties
  | .oneOf annotations branches => .oneOf annotations (roundedBranches branches)
  | .string annotations enumValues constValue => .string annotations enumValues constValue
  | .number annotations enumValues constValue => .number annotations enumValues constValue
  | .boolean annotations enumValues constValue => .boolean annotations enumValues constValue
  | .null annotations => .null annotations
  | .json annotations => .json annotations

def roundedBranches : List ValueSchemaSpec → List ValueSchemaSpec
  | [] => []
  | branch :: branches => rounded branch :: roundedBranches branches

def roundedProperties : ParameterSchemaSpec → ParameterSchemaSpec
  | [] => []
  | (name, ⟨required, spec⟩) :: properties =>
    (name, ⟨required, rounded spec⟩) :: roundedProperties properties

end

theorem roundedProperties_eq_map (properties : ParameterSchemaSpec) :
    roundedProperties properties =
      properties.map fun property =>
        (property.1, ⟨property.2.required, rounded property.2.spec⟩) := by
  induction properties with
  | nil => rw [roundedProperties, map_nil]
  | cons property properties ih =>
    obtain ⟨name, required, spec⟩ := property
    rw [roundedProperties, map_cons, ih]

theorem authorBranches_eq_map (branches : List ValueSchemaSpec) :
    authorBranches branches = branches.map toAuthorValue := by
  induction branches with
  | nil => rw [authorBranches, map_nil]
  | cons branch branches ih =>
    rw [authorBranches, map_cons, ih]
    rfl

/-- The author form of a property: that of its spec, with its flag. -/
def propertyNode (property : ParameterPropertySpec ValueSchemaSpec) : List (String × Value) :=
  if property.required then insertField (authorNode property.spec) "required" (.bool true)
  else authorNode property.spec

theorem authorProperties_eq_map (properties : ParameterSchemaSpec) :
    ∀ written : List (String × Value),
      (written.map Prod.fst ++ properties.map Prod.fst).Nodup →
        authorProperties properties written =
          written ++ properties.map fun property =>
            (property.1, .object (propertyNode property.2)) := by
  induction properties with
  | nil => exact fun written _ => by rw [authorProperties, map_nil, append_nil]
  | cons property properties ih =>
    obtain ⟨name, required, spec⟩ := property
    intro written hnodup
    rw [map_cons] at hnodup
    have hnew : name ∉ written.map Prod.fst := fun hmem =>
      disjoint_of_nodup_append hnodup hmem (mem_cons_self)
    rw [authorProperties, insertField_of_not_mem _ hnew, ih, map_cons, append_assoc,
      singleton_append]
    · rfl
    · rw [map_append, append_assoc]
      exact hnodup

section Node

variable {annotations : ValueSchemaAnnotations} {node : List (String × Value)} {path key : String}

/-- The keywords of author nodes other than the annotations. -/
def nodeKeys : List String :=
  ["type", "oneOf", "additionalProperties", "properties", "items", "enum", "const"]

theorem lookup_optional (key keyword : String) (value : Option Value) :
    (optional keyword value).lookup key = if key = keyword then value else none := by
  cases value with
  | none => simp [optional]
  | some value =>
    simp only [optional, lookup_cons, lookup_nil]
    by_cases hkey : key = keyword
    · simp [hkey]
    · rw [beq_eq_false_iff_ne.mpr hkey, if_neg hkey]

def ValueSchemaAnnotations.at (annotations : ValueSchemaAnnotations) (key : String) :
    Option Value :=
  if key = "description" then annotations.description.map .string
  else if key = "title" then annotations.title.map .string
  else if key = "default" then annotations.default
  else if key = "examples" then annotations.examples
  else none

theorem lookup_annotated : (annotated annotations node).lookup key =
    (node.lookup key).or (annotations.at key) := by
  simp only [annotated, lookup_append, lookup_optional, ValueSchemaAnnotations.at,
    Option.or_assoc]
  congr 1
  by_cases hdescription : key = "description"
  · subst hdescription
    simp
  · by_cases htitle : key = "title"
    · subst htitle
      simp
    · by_cases hdefault : key = "default"
      · subst hdefault
        simp
      · simp [hdescription, htitle, hdefault]

theorem mem_keys_annotated {allowed : List String} (hnode : node.map Prod.fst ⊆ allowed)
    (hkey : key ∈ (annotated annotations node).map Prod.fst) :
    key ∈ AUTHOR_ANNOTATION_KEYS ∨ key ∈ allowed := by
  have hfound : ((annotated annotations node).lookup key).isSome := hasKey_iff_mem.2 hkey
  rw [lookup_annotated, Option.isSome_or, Bool.or_eq_true] at hfound
  rcases hfound with hin | hnote
  · exact .inr (hnode (hasKey_iff_mem.1 hin))
  · refine .inl ?_
    by_contra hother
    simp only [AUTHOR_ANNOTATION_KEYS, mem_cons, not_mem_nil, or_false, not_or] at hother
    obtain ⟨hdescription, htitle, hdefault, hexamples⟩ := hother
    simp [ValueSchemaAnnotations.at, hdescription, htitle, hdefault, hexamples] at hnote

theorem assertAuthorKeys_annotated {allowed : List String} (hnode : node.map Prod.fst ⊆ allowed) :
    assertAuthorKeys (annotated annotations node) path allowed = .ok () := by
  have hnone : ((annotated annotations node).map Prod.fst).find?
      (fun key => key ∉ AUTHOR_ANNOTATION_KEYS ∧ key ∉ allowed) = none := by
    rw [find?_eq_none]
    intro key hkey hrefused
    obtain ⟨hnote, hallowed⟩ := of_decide_eq_true hrefused
    exact (mem_keys_annotated hnode hkey).elim hnote hallowed
  rw [assertAuthorKeys, hnone]

theorem lookup_annotated_of_not_mem (hkey : key ∉ AUTHOR_ANNOTATION_KEYS) :
    (annotated annotations node).lookup key = node.lookup key := by
  simp only [AUTHOR_ANNOTATION_KEYS, mem_cons, not_mem_nil, or_false, not_or] at hkey
  obtain ⟨hdescription, htitle, hdefault, hexamples⟩ := hkey
  simp [lookup_annotated, ValueSchemaAnnotations.at, hdescription, htitle, hdefault, hexamples]

theorem parseAnnotations_annotated (hnode : node.map Prod.fst ⊆ nodeKeys) (path : String) :
    parseAnnotations (annotated annotations node) path = .ok annotations := by
  have hlookup : ∀ key ∈ AUTHOR_ANNOTATION_KEYS,
      (annotated annotations node).lookup key = annotations.at key := by
    intro key hkey
    rw [lookup_annotated, lookup_of_not_mem nodeKeys hnode (by revert key; decide), Option.none_or]
  have htext : ∀ key ∈ AUTHOR_ANNOTATION_KEYS, ∀ text : Option String,
      annotations.at key = text.map .string →
      parseText (annotated annotations node) path key = .ok text := by
    intro key hkey text hat
    rw [parseText, hlookup key hkey, hat]
    cases text <;> rfl
  rw [parseAnnotations, htext "description" (by decide) annotations.description rfl,
    htext "title" (by decide) annotations.title rfl, hlookup "default" (by decide),
    hlookup "examples" (by decide)]
  rfl

end Node

attribute [local simp] nodeKeys rounded pure Except.pure

section Scalars

variable {Literal : Type} {enumValues : Option (List Literal)} {constValue : Option Literal}

theorem keys_scalarAuthorValue {toValue : Literal → Value} {schemaType : JsonSchemaType} :
    (scalarAuthorValue toValue schemaType enumValues constValue).map Prod.fst ⊆
      ["type", "enum", "const"] := by
  cases enumValues <;> cases constValue <;> simp [scalarAuthorValue, optional]

theorem parseScalarList_scalarAuthorValue {Parsed : Type} (annotations : ValueSchemaAnnotations)
    (toValue : Literal → Value) (schemaType : JsonSchemaType) (enumValues : Option (List Literal))
    (constValue : Option Literal) (parse : Value → Option Parsed) (read : Literal → Parsed)
    (henum : enumValues ≠ some [])
    (hread : ∀ literal ∈ declaredLiterals enumValues constValue,
      parse (toValue literal) = some (read literal)) (path typeName : String) :
    parseScalarList (annotated annotations
        (scalarAuthorValue toValue schemaType enumValues constValue)) path typeName parse =
      .ok (enumValues.map (·.map read), constValue.map read) := by
  obtain ⟨-, henumValues, hconstValue⟩ :=
    lookup_scalarAuthorValue toValue schemaType enumValues constValue
  rw [parseScalarList, lookup_annotated_of_not_mem (by decide), henumValues,
    lookup_annotated_of_not_mem (by decide), hconstValue]
  have hconst : ∀ literal, constValue = some literal →
      parse (toValue literal) = some (read literal) := by
    rintro literal rfl
    exact hread literal (mem_append_right _ (by simp))
  cases enumValues with
  | none =>
    cases constValue with
    | none => rfl
    | some literal => simp [hconst literal rfl, bind, Except.bind, pure, Except.pure]
  | some values =>
    cases values with
    | nil => exact absurd rfl henum
    | cons first rest =>
      have hvalues := Lists.mapM_map_some fun literal (hmem : literal ∈ first :: rest) =>
        hread literal (mem_append_left _ hmem)
      rw [map_cons] at hvalues
      cases constValue with
      | none => simp [hvalues, bind, Except.bind, pure, Except.pure]
      | some literal => simp [hvalues, hconst literal rfl, bind, Except.bind, pure, Except.pure]

end Scalars

section Properties

variable {map : List (String × Value)} {key : String}

theorem swapRemove_of_not_mem (hkey : key ∉ map.map Prod.fst) : swapRemove map key = map := by
  have hnone : map.findIdx? (fun field => field.1 = key) = none := by
    rw [findIdx?_eq_none_iff]
    intro field hfield
    rw [decide_eq_false_iff_not]
    rintro rfl
    exact hkey (mem_map_of_mem hfield)
  rw [swapRemove, hnone]

theorem swapRemove_concat (hkey : key ∉ map.map Prod.fst) (value : Value) :
    swapRemove (map ++ [(key, value)]) key = map := by
  have hindex : (map ++ [(key, value)]).findIdx? (fun field => field.1 = key) = some map.length := by
    have hnone : map.findIdx? (fun field => field.1 = key) = none := by
      rw [findIdx?_eq_none_iff]
      intro field hfield
      rw [decide_eq_false_iff_not]
      rintro rfl
      exact hkey (mem_map_of_mem hfield)
    simp [findIdx?_append, hnone]
  rw [swapRemove, hindex, getLast?_concat]
  simp

theorem authorNode_array (annotations : ValueSchemaAnnotations) (items : Option ValueSchemaSpec) :
    authorNode (.array annotations items) = annotated annotations
      (("type", .string "array") :: optional "items" (items.map toAuthorValue)) := by
  cases items <;> rw [authorNode] <;> rfl

theorem authorNode_object (annotations : ValueSchemaAnnotations)
    (properties : Option ParameterSchemaSpec) (additionalProperties : Bool) :
    authorNode (.object annotations properties additionalProperties) = annotated annotations
      (("type", .string "object") :: ("additionalProperties", .bool additionalProperties) ::
        optional "properties" (properties.map fun declared =>
          .object (authorProperties declared []))) := by
  cases properties <;> rw [authorNode] <;> rfl

theorem scalar_subset_nodeKeys {Literal : Type} {toValue : Literal → Value}
    {schemaType : JsonSchemaType} {enumValues : Option (List Literal)}
    {constValue : Option Literal} :
    (scalarAuthorValue toValue schemaType enumValues constValue).map Prod.fst ⊆ nodeKeys :=
  List.Subset.trans keys_scalarAuthorValue (by simp)

/-- Every author node is a node of its keywords with annotations behind them. -/
theorem exists_annotated (spec : ValueSchemaSpec) :
    ∃ annotations node, authorNode spec = annotated annotations node ∧
      node.map Prod.fst ⊆ nodeKeys := by
  cases spec with
  | string | number | integer | boolean =>
    rw [authorNode]
    exact ⟨_, _, rfl, scalar_subset_nodeKeys⟩
  | null | json | oneOf =>
    rw [authorNode]
    exact ⟨_, _, rfl, by simp⟩
  | array annotations items =>
    exact ⟨_, _, authorNode_array _ _, by cases items <;> simp [optional]⟩
  | object annotations properties additionalProperties =>
    exact ⟨_, _, authorNode_object _ _ _, by cases properties <;> simp [optional]⟩

theorem required_not_mem_authorNode (spec : ValueSchemaSpec) :
    "required" ∉ (authorNode spec).map Prod.fst := by
  obtain ⟨annotations, node, hspec, hnode⟩ := exists_annotated spec
  rw [hspec]
  intro hmem
  rcases mem_keys_annotated hnode hmem with hnote | hkey
  · exact absurd hnote (by decide)
  · exact absurd hkey (by decide)

/-- A property's flag is read off its node, and the rest is the node of its spec. -/
theorem propertyNode_spec (property : ParameterPropertySpec ValueSchemaSpec) (path : String) :
    parseRequired (propertyNode property) path = .ok property.required ∧
      swapRemove (propertyNode property) "required" = authorNode property.spec := by
  have habsent := required_not_mem_authorNode property.spec
  have hlookup : (authorNode property.spec).lookup "required" = none :=
    lookup_of_not_mem _ (List.Subset.refl _) habsent
  rw [propertyNode]
  split
  next hrequired =>
    rw [insertField_of_not_mem _ habsent]
    refine ⟨?_, swapRemove_concat habsent _⟩
    rw [parseRequired, lookup_append_of_none hlookup, hrequired]
    rfl
  next hoptional =>
    refine ⟨?_, swapRemove_of_not_mem habsent⟩
    rw [parseRequired, hlookup, Bool.eq_false_of_not_eq_true hoptional]

theorem mapM_attach_ok {α β ε : Type} {items : List α} {results : List β}
    {parse : { item // item ∈ items } → Except ε β}
    (hparse : List.Forall₂ (fun item result => ∀ hitem, parse ⟨item, hitem⟩ = .ok result)
      items results) : items.attach.mapM parse = .ok results := by
  have hall : ∀ (part : List { item // item ∈ items }) (results : List β),
      List.Forall₂ (fun item result => ∀ hitem, parse ⟨item, hitem⟩ = .ok result)
        (part.map Subtype.val) results → part.mapM parse = .ok results := by
    intro part
    induction part with
    | nil =>
      intro results hparse
      cases hparse
      rfl
    | cons item rest ih =>
      intro results hparse
      cases hparse with
      | cons hitem hrest =>
        rw [mapM_cons, hitem item.2, ih _ hrest]
        rfl
  exact hall _ _ (by rwa [attach_map_subtype_val])

end Properties

theorem Double.asF64_toValue {literal : Double} (hfinite : literal.IsFinite) :
    literal.toValue.asF64 = some literal := by
  cases literal with
  | nan | infinite => cases hfinite
  | negativeZero | finite => rfl

theorem toInteger_asF64 (value : Int) :
    (Value.asF64 (.number (.int value))).bind Double.toInteger = some (readBack value) := by
  simp [Value.asF64, Double.toInteger, readBack]

/-- What the parser sees of a node with a type: its annotations, its type and its keywords. -/
structure Typed (map : List (String × Value)) (annotations : ValueSchemaAnnotations)
    (typeName : String) (allowed : List String) : Prop where
  annotations : ∀ path, parseAnnotations map path = .ok annotations
  one : hasKey map "oneOf" = false
  typeName : (map.lookup "type").bind Value.asStr = some typeName
  allowed : ∀ path, assertAuthorKeys map path allowed = .ok ()

theorem typed_annotated (annotations : ValueSchemaAnnotations) {node : List (String × Value)}
    {typeName : String} {allowed : List String} (hallowed : allowed ⊆ nodeKeys)
    (hone : "oneOf" ∉ allowed) (hnode : node.map Prod.fst ⊆ allowed)
    (htype : node.lookup "type" = some (.string typeName)) :
    Typed (annotated annotations node) annotations typeName allowed where
  annotations := parseAnnotations_annotated (List.Subset.trans hnode hallowed)
  one := by
    rw [hasKey, lookup_annotated_of_not_mem (by decide), lookup_of_not_mem _ hnode hone]
    rfl
  typeName := by
    rw [lookup_annotated_of_not_mem (by decide), htype]
    rfl
  allowed := fun _ => assertAuthorKeys_annotated hnode

theorem typed_scalar {Literal : Type} (annotations : ValueSchemaAnnotations)
    (toValue : Literal → Value) (schemaType : JsonSchemaType)
    (enumValues : Option (List Literal)) (constValue : Option Literal) :
    Typed (annotated annotations (scalarAuthorValue toValue schemaType enumValues constValue))
      annotations schemaType.text ["type", "enum", "const"] :=
  typed_annotated annotations (by simp) (by decide) keys_scalarAuthorValue rfl

/-- The author form of properties under distinct names, each of which parses. -/
theorem fromAuthorProperties_authorProperties {declared : ParameterSchemaSpec}
    (hnodup : (declared.map Prod.fst).Nodup)
    (hparse : ∀ property ∈ declared, ∀ path,
      fromAuthorValue (toAuthorValue property.2.spec) path = .ok (rounded property.2.spec))
    (path : String) : fromAuthorProperties (.object (authorProperties declared [])) path =
      .ok (roundedProperties declared) := by
  rw [authorProperties_eq_map declared [] hnodup, nil_append, fromAuthorProperties]
  apply mapM_attach_ok
  rw [roundedProperties_eq_map, forall₂_map_left_iff, forall₂_map_right_iff,
    forall₂_same]
  intro property hproperty _
  obtain ⟨hrequired, hbare⟩ := propertyNode_spec property.2 (path ++ "." ++ property.1)
  have hspec := hparse property hproperty (path ++ "." ++ property.1)
  rw [toAuthorValue] at hspec
  simp only [hrequired, hbare, hspec, bind, Except.bind, pure, Except.pure]

theorem forall₂_branches {branches : List ValueSchemaSpec}
    (hparse : ∀ branch ∈ branches, ∀ path,
      fromAuthorValue (toAuthorValue branch) path = .ok (rounded branch)) (start : Nat) :
    List.Forall₂ (fun entry result => ∀ path, fromAuthorValue entry.1 path = .ok result)
      ((branches.map toAuthorValue).zipIdx start) (roundedBranches branches) := by
  induction branches generalizing start with
  | nil => exact .nil
  | cons branch rest ih =>
    rw [map_cons, zipIdx_cons, roundedBranches]
    exact .cons (hparse branch mem_cons_self)
      (ih (fun other hmem => hparse other (mem_cons_of_mem _ hmem)) (start + 1))

/-- The author form of a spec parses to the spec with its integer literals read back. -/
theorem fromAuthorValue_toAuthorValue {spec : ValueSchemaSpec} (hspec : Writable spec)
    (path : String) : fromAuthorValue (toAuthorValue spec) path = .ok (rounded spec) := by
  induction hspec generalizing path with
  | string annotations enumValues constValue henum =>
    have hnode := typed_scalar annotations Value.string .string enumValues constValue
    have hliterals := parseScalarList_scalarAuthorValue annotations Value.string .string
      enumValues constValue Value.asStr id henum (fun _ _ => rfl) path "string"
    rw [toAuthorValue, authorNode, fromAuthorValue]
    simp only [hnode.annotations, hnode.one, hnode.typeName, hnode.allowed, hliterals, bind,
      Except.bind, JsonSchemaType.text, Bool.false_eq_true, if_false]
    simp
  | number annotations enumValues constValue henum hfinite =>
    have hnode := typed_scalar annotations Double.toValue .number enumValues constValue
    have hliterals := parseScalarList_scalarAuthorValue annotations Double.toValue .number
      enumValues constValue Value.asF64 id henum
      (fun literal hmem => Double.asF64_toValue (hfinite literal hmem)) path "number"
    rw [toAuthorValue, authorNode, fromAuthorValue]
    simp only [hnode.annotations, hnode.one, hnode.typeName, hnode.allowed, hliterals, bind,
      Except.bind, JsonSchemaType.text, Bool.false_eq_true, if_false]
    simp
  | integer annotations enumValues constValue henum hrange =>
    have hnode := typed_scalar annotations (.number <| .int ·) .integer enumValues constValue
    have hliterals := parseScalarList_scalarAuthorValue annotations (.number <| .int ·) .integer
      enumValues constValue (fun value => value.asF64.bind Double.toInteger) readBack henum
      (fun literal _ => toInteger_asF64 literal) path "integer"
    rw [toAuthorValue, authorNode, fromAuthorValue]
    simp only [hnode.annotations, hnode.one, hnode.typeName, hnode.allowed, hliterals, bind,
      Except.bind, JsonSchemaType.text, Bool.false_eq_true, if_false]
    simp
  | boolean annotations enumValues constValue henum =>
    have hnode := typed_scalar annotations Value.bool .boolean enumValues constValue
    have hliterals := parseScalarList_scalarAuthorValue annotations Value.bool .boolean
      enumValues constValue Value.asBool id henum (fun _ _ => rfl) path "boolean"
    rw [toAuthorValue, authorNode, fromAuthorValue]
    simp only [hnode.annotations, hnode.one, hnode.typeName, hnode.allowed, hliterals, bind,
      Except.bind, JsonSchemaType.text, Bool.false_eq_true, if_false]
    simp
  | null annotations =>
    have hnode : Typed (annotated annotations [("type", .string "null")]) annotations "null"
        ["type", "enum", "const"] :=
      typed_annotated annotations (by simp) (by decide) (by simp) rfl
    rw [toAuthorValue, authorNode, fromAuthorValue]
    simp only [hnode.annotations, hnode.one, hnode.typeName, hnode.allowed, bind, Except.bind,
      Bool.false_eq_true, if_false]
    simp
  | json annotations =>
    have hnode : Typed (annotated annotations [("type", .string "json")]) annotations "json"
        ["type"] :=
      typed_annotated annotations (by simp) (by decide) (by simp) rfl
    rw [toAuthorValue, authorNode, fromAuthorValue]
    simp only [hnode.annotations, hnode.one, hnode.typeName, hnode.allowed, bind, Except.bind,
      Bool.false_eq_true, if_false]
    simp
  | array annotations items hitems ih =>
    have hnode : Typed (annotated annotations (("type", .string "array") ::
        optional "items" (items.map toAuthorValue))) annotations "array" ["type", "items"] :=
      typed_annotated annotations (by simp) (by decide)
        (by cases items <;> simp [optional]) rfl
    have hlookup : (annotated annotations (("type", Value.string "array") ::
        optional "items" (items.map toAuthorValue))).lookup "items" = items.map toAuthorValue := by
      rw [lookup_annotated_of_not_mem (by decide)]
      cases items <;> rfl
    rw [toAuthorValue, authorNode_array, fromAuthorValue]
    simp only [hnode.annotations, hnode.one, hnode.typeName, hnode.allowed, bind, Except.bind,
      Bool.false_eq_true, if_false]
    split
    next hnone =>
      rw [hlookup, Option.map_eq_none_iff] at hnone
      subst hnone
      simp
    next value hvalue =>
      rw [hlookup, Option.map_eq_some_iff] at hvalue
      obtain ⟨item, rfl, rfl⟩ := hvalue
      rw [ih item rfl]
      simp
  | object annotations properties additionalProperties hnodup hspecs ih =>
    have hkeys : (("type", Value.string "object") ::
        ("additionalProperties", .bool additionalProperties) ::
        optional "properties" (properties.map fun declared =>
          .object (authorProperties declared []))).map Prod.fst ⊆
        ["type", "properties", "additionalProperties"] := by
      cases properties <;> simp [optional]
    have hnode := typed_annotated annotations (by simp) (by decide) hkeys rfl
    have hopen : ((annotated annotations (("type", Value.string "object") ::
        ("additionalProperties", .bool additionalProperties) ::
        optional "properties" (properties.map fun declared =>
          .object (authorProperties declared [])))).lookup "additionalProperties").bind
        Value.asBool = some additionalProperties := by
      rw [lookup_annotated_of_not_mem (by decide)]
      rfl
    have hproperties : (annotated annotations (("type", Value.string "object") ::
        ("additionalProperties", .bool additionalProperties) ::
        optional "properties" (properties.map fun declared =>
          .object (authorProperties declared [])))).lookup "properties" =
        properties.map fun declared => .object (authorProperties declared []) := by
      rw [lookup_annotated_of_not_mem (by decide)]
      cases properties <;> rfl
    rw [toAuthorValue, authorNode_object, fromAuthorValue]
    simp only [hnode.annotations, hnode.one, hnode.typeName, hnode.allowed, hopen, bind,
      Except.bind, Bool.false_eq_true, if_false]
    split
    next hnone =>
      rw [hproperties, Option.map_eq_none_iff] at hnone
      subst hnone
      simp
    next value hvalue =>
      rw [hproperties, Option.map_eq_some_iff] at hvalue
      obtain ⟨declared, rfl, rfl⟩ := hvalue
      rw [fromAuthorProperties_authorProperties (hnodup declared rfl) (ih declared rfl)]
      simp
  | oneOf annotations branches hbranches ih =>
    have hkeys : ([("oneOf", Value.array (branches.map toAuthorValue))]).map Prod.fst ⊆
        ["oneOf", "type"] := by simp
    have hlookup : (annotated annotations
        [("oneOf", Value.array (branches.map toAuthorValue))]).lookup "oneOf" =
        some (.array (branches.map toAuthorValue)) := by
      rw [lookup_annotated_of_not_mem (by decide)]
      rfl
    have htype : hasKey (annotated annotations
        [("oneOf", Value.array (branches.map toAuthorValue))]) "type" = false := by
      rw [hasKey, lookup_annotated_of_not_mem (by decide)]
      rfl
    have hone : hasKey (annotated annotations
        [("oneOf", Value.array (branches.map toAuthorValue))]) "oneOf" = true := by
      rw [hasKey, hlookup]
      rfl
    rw [toAuthorValue, authorNode, authorBranches_eq_map, fromAuthorValue]
    simp only [parseAnnotations_annotated (List.Subset.trans hkeys (by simp)), hone,
      htype, assertAuthorKeys_annotated hkeys, bind, Except.bind, Bool.false_eq_true, if_false,
      if_true]
    split
    next entries hentries =>
      obtain rfl := Value.array.inj (Option.mem_unique hlookup hentries)
      rw [mapM_attach_ok ((forall₂_branches ih 0).imp fun entry result hentry _ => hentry _)]
      simp
    next hnone => exact absurd hlookup (hnone _)

end RoundTrip

section Integers

mutual

def integers : ValueSchemaSpec → List Int
  | .integer _ enumValues constValue => declaredLiterals enumValues constValue
  | .array _ items =>
    match items with
    | some items => integers items
    | none => []
  | .object _ properties _ =>
    match properties with
    | some properties => propertyIntegers properties
    | none => []
  | .oneOf _ branches => branchIntegers branches
  | .string .. | .number .. | .boolean .. | .null .. | .json .. => []

def branchIntegers : List ValueSchemaSpec → List Int
  | [] => []
  | branch :: branches => integers branch ++ branchIntegers branches

def propertyIntegers : ParameterSchemaSpec → List Int
  | [] => []
  | (_, ⟨_, spec⟩) :: properties => integers spec ++ propertyIntegers properties

end

mutual

theorem integers_rounded : ∀ spec, integers (rounded spec) = (integers spec).map readBack
  | .integer _ enumValues constValue => by
      cases enumValues <;> cases constValue <;> simp [rounded, integers, declaredLiterals]
  | .array _ none | .object _ none _ => by simp [rounded, integers]
  | .array _ (some items) => by simp [rounded, integers, integers_rounded items]
  | .object _ (some properties) _ => by simp [rounded, integers, propertyIntegers_rounded properties]
  | .oneOf _ branches => by simp [rounded, integers, branchIntegers_rounded branches]
  | .string .. | .number .. | .boolean .. | .null .. | .json .. => by simp [rounded, integers]

theorem branchIntegers_rounded : ∀ branches,
    branchIntegers (roundedBranches branches) = (branchIntegers branches).map readBack
  | [] => rfl
  | branch :: branches => by
      simp [roundedBranches, branchIntegers, integers_rounded branch,
        branchIntegers_rounded branches]

theorem propertyIntegers_rounded : ∀ properties,
    propertyIntegers (roundedProperties properties) = (propertyIntegers properties).map readBack
  | [] => rfl
  | (_, ⟨_, spec⟩) :: properties => by
      simp [roundedProperties, propertyIntegers, integers_rounded spec,
        propertyIntegers_rounded properties]

end

theorem map_readBack {values : List Int} (hexact : ∀ value ∈ values, readBack value = value) :
    values.map readBack = values :=
  (map_congr_left hexact).trans (map_id _)

mutual

/-- A spec whose integer literals are read back as they are is read back as it is. -/
theorem rounded_eq_self : ∀ spec, (∀ value ∈ integers spec, readBack value = value) →
    rounded spec = spec
  | .integer annotations enumValues constValue, hexact => by
      rw [integers] at hexact
      rw [rounded]
      congr 1
      · cases enumValues with
        | none => rfl
        | some values =>
          exact congrArg some (map_readBack fun value hmem =>
            hexact value (mem_append_left _ hmem))
      · cases constValue with
        | none => rfl
        | some value =>
          rw [Option.map_some, hexact value (mem_append_right _ (by simp))]
  | .array _ none, _ | .object _ none _, _ => by rw [rounded]
  | .array _ (some items), hexact => by
      rw [integers] at hexact
      rw [rounded, rounded_eq_self items hexact]
  | .object _ (some properties) _, hexact => by
      rw [integers] at hexact
      rw [rounded, roundedProperties_eq_self properties hexact]
  | .oneOf _ branches, hexact => by
      rw [integers] at hexact
      rw [rounded, roundedBranches_eq_self branches hexact]
  | .string .., _ | .number .., _ | .boolean .., _ | .null .., _ | .json .., _ => by rw [rounded]

theorem roundedBranches_eq_self : ∀ branches,
    (∀ value ∈ branchIntegers branches, readBack value = value) →
      roundedBranches branches = branches
  | [], _ => rfl
  | branch :: branches, hexact => by
      rw [branchIntegers] at hexact
      rw [roundedBranches,
        rounded_eq_self branch fun value hmem => hexact value (mem_append_left _ hmem),
        roundedBranches_eq_self branches fun value hmem =>
          hexact value (mem_append_right _ hmem)]

theorem roundedProperties_eq_self : ∀ properties,
    (∀ value ∈ propertyIntegers properties, readBack value = value) →
      roundedProperties properties = properties
  | [], _ => rfl
  | (_, ⟨_, spec⟩) :: properties, hexact => by
      rw [propertyIntegers] at hexact
      rw [roundedProperties,
        rounded_eq_self spec fun value hmem => hexact value (mem_append_left _ hmem),
        roundedProperties_eq_self properties fun value hmem =>
          hexact value (mem_append_right _ hmem)]

end

theorem readBack_i64Max : readBack i64Max = i64Max := by decide +kernel

theorem readBack_i64Min : readBack i64Min = i64Min := by decide +kernel

theorem readBack_of_representable {value : Int} (hrange : i64Min ≤ value ∧ value ≤ i64Max)
    (hvalue : Rounding.Representable 53 value.natAbs) : readBack value = value := by
  have hround := (Rounding.roundInt_eq_self (by decide)).mpr hvalue
  rw [readBack, hround]
  omega

theorem readBack_cases (value : Int) :
    readBack value = i64Max ∨ readBack value = i64Min ∨
      readBack value = Rounding.roundInt 53 value := by
  rw [readBack]
  omega

theorem readBack_mem_range (value : Int) : i64Min ≤ readBack value ∧ readBack value ≤ i64Max := by
  have hmin : i64Min ≤ i64Max := by decide
  rw [readBack]
  omega

theorem representable_i64Min : Rounding.Representable 53 i64Min.natAbs := ⟨1, 63, by decide, by decide⟩

theorem readBack_eq_self {value : Int} (hrange : i64Min ≤ value ∧ value ≤ i64Max) :
    readBack value = value ↔ value = i64Max ∨ Rounding.Representable 53 value.natAbs := by
  constructor
  · intro hself
    rcases readBack_cases value with hmax | hmin | hround
    · exact .inl (hself.symm.trans hmax)
    · refine .inr ?_
      rw [hself.symm.trans hmin]
      exact representable_i64Min
    · exact .inr ((Rounding.roundInt_eq_self (by decide)).mp (hround.symm.trans hself))
  · rintro (rfl | hvalue)
    · exact readBack_i64Max
    · exact readBack_of_representable hrange hvalue

theorem readBack_readBack (value : Int) : readBack (readBack value) = readBack value := by
  have hrange := readBack_mem_range value
  rcases readBack_cases value with hmax | hmin | hround
  · rw [hmax, readBack_i64Max]
  · rw [hmin, readBack_i64Min]
  · refine readBack_of_representable hrange ?_
    rw [hround, Rounding.natAbs_roundInt]
    exact Rounding.representable_roundNat (by decide) _

theorem mem_propertyIntegers {value : Int} {properties : ParameterSchemaSpec} :
    value ∈ propertyIntegers properties ↔
      ∃ property ∈ properties, value ∈ integers property.2.spec := by
  induction properties with
  | nil => simp [propertyIntegers]
  | cons property rest ih =>
    obtain ⟨name, required, spec⟩ := property
    simp [propertyIntegers, ih]

theorem mem_branchIntegers {value : Int} {branches : List ValueSchemaSpec} :
    value ∈ branchIntegers branches ↔ ∃ branch ∈ branches, value ∈ integers branch := by
  induction branches with
  | nil => simp [branchIntegers]
  | cons branch rest ih => simp [branchIntegers, ih]

theorem Writable.range {spec : ValueSchemaSpec} (hspec : Writable spec) :
    ∀ value ∈ integers spec, i64Min ≤ value ∧ value ≤ i64Max := by
  induction hspec with
  | integer annotations enumValues constValue henum hrange =>
    rw [integers]
    exact hrange
  | array annotations items hitems ih =>
    cases items with
    | none => simp [integers]
    | some items =>
      rw [integers]
      exact ih items rfl
  | object annotations properties additionalProperties hnodup hspecs ih =>
    cases properties with
    | none => simp [integers]
    | some properties =>
      rw [integers]
      intro value hvalue
      obtain ⟨property, hproperty, hin⟩ := mem_propertyIntegers.1 hvalue
      exact ih properties rfl property hproperty value hin
  | oneOf annotations branches hbranches ih =>
    rw [integers]
    intro value hvalue
    obtain ⟨branch, hbranch, hin⟩ := mem_branchIntegers.1 hvalue
    exact ih branch hbranch value hin
  | string | number | boolean | null | json => simp [integers]

end Integers

section Order

mutual

/-- Equal but for the order in which objects declare their properties. -/
def SameUpToOrder : ValueSchemaSpec → ValueSchemaSpec → Prop
  | .array annotations (some items), other =>
    ∃ items', other = .array annotations (some items') ∧ SameUpToOrder items items'
  | .object annotations (some properties) additionalProperties, other =>
    ∃ declared aligned, other = .object annotations (some declared) additionalProperties ∧
      aligned.Perm declared ∧ SameProperties properties aligned
  | .oneOf annotations branches, other =>
    ∃ branches', other = .oneOf annotations branches' ∧ SameBranches branches branches'
  | .array annotations none, other => other = .array annotations none
  | .object annotations none additionalProperties, other =>
    other = .object annotations none additionalProperties
  | .string annotations enumValues constValue, other =>
    other = .string annotations enumValues constValue
  | .number annotations enumValues constValue, other =>
    other = .number annotations enumValues constValue
  | .integer annotations enumValues constValue, other =>
    other = .integer annotations enumValues constValue
  | .boolean annotations enumValues constValue, other =>
    other = .boolean annotations enumValues constValue
  | .null annotations, other => other = .null annotations
  | .json annotations, other => other = .json annotations

def SameBranches : List ValueSchemaSpec → List ValueSchemaSpec → Prop
  | [], others => others = []
  | branch :: branches, others =>
    ∃ other rest, others = other :: rest ∧ SameUpToOrder branch other ∧ SameBranches branches rest

def SameProperties : ParameterSchemaSpec → ParameterSchemaSpec → Prop
  | [], others => others = []
  | (name, ⟨required, spec⟩) :: properties, others =>
    ∃ other rest, others = (name, ⟨required, other⟩) :: rest ∧ SameUpToOrder spec other ∧
      SameProperties properties rest

end

mutual

theorem SameUpToOrder.refl : ∀ spec, SameUpToOrder spec spec
  | .array annotations (some items) => by
      rw [SameUpToOrder]
      exact ⟨items, rfl, SameUpToOrder.refl items⟩
  | .object annotations (some properties) additionalProperties => by
      rw [SameUpToOrder]
      exact ⟨properties, properties, rfl, .refl _, SameProperties.refl properties⟩
  | .oneOf annotations branches => by
      rw [SameUpToOrder]
      exact ⟨branches, rfl, SameBranches.refl branches⟩
  | .array _ none | .object _ none _ | .string .. | .number .. | .integer .. | .boolean ..
  | .null .. | .json .. => by rw [SameUpToOrder]

theorem SameBranches.refl : ∀ branches, SameBranches branches branches
  | [] => by rw [SameBranches]
  | branch :: branches => by
      rw [SameBranches]
      exact ⟨branch, branches, rfl, SameUpToOrder.refl branch, SameBranches.refl branches⟩

theorem SameProperties.refl : ∀ properties, SameProperties properties properties
  | [] => by rw [SameProperties]
  | (_, ⟨_, spec⟩) :: properties => by
      rw [SameProperties]
      exact ⟨spec, properties, rfl, SameUpToOrder.refl spec, SameProperties.refl properties⟩

end

mutual

theorem SameUpToOrder.integers_subset : ∀ {spec other : ValueSchemaSpec},
    SameUpToOrder spec other → integers other ⊆ integers spec
  | .array _ (some items), _, hsame => by
      rw [SameUpToOrder] at hsame
      obtain ⟨items', rfl, hitems⟩ := hsame
      simp only [integers]
      exact hitems.integers_subset
  | .object _ (some properties) _, _, hsame => by
      rw [SameUpToOrder] at hsame
      obtain ⟨declared, aligned, rfl, hperm, hproperties⟩ := hsame
      simp only [integers]
      intro value hvalue
      obtain ⟨property, hproperty, hin⟩ := mem_propertyIntegers.1 hvalue
      exact hproperties.integers_subset
        (mem_propertyIntegers.2 ⟨property, hperm.mem_iff.mpr hproperty, hin⟩)
  | .oneOf _ branches, _, hsame => by
      rw [SameUpToOrder] at hsame
      obtain ⟨branches', rfl, hbranches⟩ := hsame
      simp only [integers]
      exact hbranches.integers_subset
  | .array _ none, _, hsame | .object _ none _, _, hsame | .string .., _, hsame
  | .number .., _, hsame | .integer .., _, hsame | .boolean .., _, hsame | .null .., _, hsame
  | .json .., _, hsame => by
      rw [SameUpToOrder] at hsame
      rw [hsame]
      exact List.Subset.refl _

theorem SameBranches.integers_subset : ∀ {branches others : List ValueSchemaSpec},
    SameBranches branches others → branchIntegers others ⊆ branchIntegers branches
  | [], _, hsame => by
      rw [SameBranches] at hsame
      rw [hsame]
      exact List.Subset.refl _
  | branch :: branches, _, hsame => by
      rw [SameBranches] at hsame
      obtain ⟨other, rest, rfl, hbranch, hrest⟩ := hsame
      rw [branchIntegers, branchIntegers]
      exact append_subset.mpr ⟨subset_append_of_subset_left _ hbranch.integers_subset,
        subset_append_of_subset_right _ hrest.integers_subset⟩

theorem SameProperties.integers_subset : ∀ {properties others : ParameterSchemaSpec},
    SameProperties properties others → propertyIntegers others ⊆ propertyIntegers properties
  | [], _, hsame => by
      rw [SameProperties] at hsame
      rw [hsame]
      exact List.Subset.refl _
  | (_, ⟨_, spec⟩) :: properties, _, hsame => by
      rw [SameProperties] at hsame
      obtain ⟨other, rest, rfl, hspec, hrest⟩ := hsame
      rw [propertyIntegers, propertyIntegers]
      exact append_subset.mpr ⟨subset_append_of_subset_left _ hspec.integers_subset,
        subset_append_of_subset_right _ hrest.integers_subset⟩

end

end Order

section Main

/-- A spec is read back as it was, up to the order of properties, exactly when its integer
literals are doubles, or the greatest integer, to which its neighbour saturates. -/
theorem author_round_trip_iff {spec : ValueSchemaSpec} (hspec : Writable spec) (path : String) :
    (∃ parsed, fromAuthorValue (toAuthorValue spec) path = .ok parsed ∧
      SameUpToOrder parsed spec) ↔
      ∀ value ∈ integers spec, value = i64Max ∨ Rounding.Representable 53 value.natAbs := by
  rw [fromAuthorValue_toAuthorValue hspec path]
  constructor
  · rintro ⟨parsed, hparsed, hsame⟩ value hvalue
    cases hparsed
    -- every literal of the spec has been read, so reading it again changes nothing
    have hread := hsame.integers_subset hvalue
    rw [integers_rounded] at hread
    obtain ⟨written, -, rfl⟩ := mem_map.mp hread
    exact (readBack_eq_self (hspec.range _ hvalue)).mp (readBack_readBack written)
  · intro hdoubles
    have hself := rounded_eq_self spec fun value hvalue =>
      (readBack_eq_self (hspec.range value hvalue)).mpr (hdoubles value hvalue)
    exact ⟨rounded spec, rfl, hself.symm ▸ SameUpToOrder.refl spec⟩

theorem writable_integer_const {value : Int} (hrange : i64Min ≤ value ∧ value ≤ i64Max) :
    Writable (.integer {} none (some value)) := by
  refine .integer _ _ _ (by decide) fun literal hliteral => ?_
  rw [declaredLiterals, Option.getD_none, Option.toList_some, nil_append,
    mem_singleton] at hliteral
  exact hliteral ▸ hrange

/-- The greatest integer is read back, though no double equals it. -/
theorem author_round_trip_greatest :
    ∃ parsed, fromAuthorValue (toAuthorValue (.integer {} none (some i64Max))) "limit" =
      .ok parsed ∧ SameUpToOrder parsed (.integer {} none (some i64Max)) :=
  (author_round_trip_iff (writable_integer_const (by decide)) "limit").mpr fun value hvalue =>
    .inl (mem_singleton.mp hvalue)

/-- The first integer without a double comes back as its neighbour. -/
theorem author_round_trip_fails : ¬ ∀ spec path, Writable spec →
    ∃ parsed, fromAuthorValue (toAuthorValue spec) path = .ok parsed ∧
      SameUpToOrder parsed spec := by
  intro hclaim
  have hspec : Writable (.integer {} none (some (2 ^ 53 + 1))) :=
    writable_integer_const (by decide)
  obtain ⟨parsed, hparsed, hsame⟩ := hclaim _ "limit" hspec
  rw [fromAuthorValue_toAuthorValue hspec] at hparsed
  cases hparsed
  have hread := hsame.integers_subset (mem_singleton.mpr rfl)
  rw [integers_rounded] at hread
  revert hread
  decide +kernel

end Main

end Keel.Tools
