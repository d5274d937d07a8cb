import Keel.Dsh.SchemaMeaning
import Mathlib.Data.List.Nodup
import Mathlib.Logic.Equiv.Fin.Basic

/-! # The schema DSL

Authors write schemas as typed specs. A spec is compiled to the enforced subset, and the
compiled schema is what values are checked against. Read directly, a spec says which
values it has; compiling keeps that.
-/

namespace Keel.Tools

open List

/-- A double of an author. -/
inductive Double where
  | nan
  | infinite (negative : Bool)
  | negativeZero
  | finite (value : ℚ)

namespace Double

/-- `serde_json::to_value` of a double. -/
def toValue : Double → Value
  | .nan | .infinite _ => .null
  | .negativeZero => .number .negativeZero
  | .finite value => .number (.float value)

def toRat : Double → Option ℚ
  | .nan | .infinite _ => none
  | .negativeZero => some 0
  | .finite value => some value

end Double

/-- Annotation keywords shared by every author-facing schema node. -/
structure ValueSchemaAnnotations where
  description : Option String := none
  title : Option String := none
  default : Option Value := none
  examples : Option Value := none

/-- A property, optionally required. -/
structure ParameterPropertySpec (Spec : Type) where
  required : Bool
  spec : Spec

inductive ValueSchemaSpec where
  | string (annotations : ValueSchemaAnnotations) (enumValues : Option (List String))
      (constValue : Option String)
  | number (annotations : ValueSchemaAnnotations) (enumValues : Option (List Double))
      (constValue : Option Double)
  | integer (annotations : ValueSchemaAnnotations) (enumValues : Option (List Int))
      (constValue : Option Int)
  | boolean (annotations : ValueSchemaAnnotations) (enumValues : Option (List Bool))
      (constValue : Option Bool)
  | null (annotations : ValueSchemaAnnotations)
  | array (annotations : ValueSchemaAnnotations) (items : Option ValueSchemaSpec)
  | object (annotations : ValueSchemaAnnotations)
      (properties : Option (List (String × ParameterPropertySpec ValueSchemaSpec)))
      (additionalProperties : Bool)
  | json (annotations : ValueSchemaAnnotations)
  | oneOf (annotations : ValueSchemaAnnotations) (branches : List ValueSchemaSpec)

/-- An implicit open object root. -/
abbrev ParameterSchemaSpec := List (String × ParameterPropertySpec ValueSchemaSpec)

/-- `Map::insert`. -/
def insertField (map : List (String × Value)) (key : String) (value : Value) :
    List (String × Value) :=
  if hasKey map key then map.map fun field => if field.1 = key then (key, value) else field
  else map ++ [(key, value)]

def optional (key : String) : Option Value → List (String × Value)
  | some value => [(key, value)]
  | none => []

def writeAnnotations (annotations : ValueSchemaAnnotations) (node : List (String × Value)) : Value :=
  .object (node ++ optional "description" (annotations.description.map .string) ++
    optional "title" (annotations.title.map .string) ++ optional "default" annotations.default ++
    optional "examples" annotations.examples)

def scalarAuthorValue {Literal : Type} (toValue : Literal → Value) (schemaType : JsonSchemaType)
    (enumValues : Option (List Literal)) (constValue : Option Literal) : List (String × Value) :=
  ("type", .string schemaType.text) ::
    (optional "enum" (enumValues.map fun values => .array (values.map toValue)) ++
      optional "const" (constValue.map toValue))

def requiredNames (properties : ParameterSchemaSpec) : List String :=
  (properties.filter (·.2.required)).map Prod.fst

mutual

/-- Compile one spec node to the enforced subset. -/
@[simp] def compileValue : ValueSchemaSpec → Value
  | .oneOf annotations branches =>
    writeAnnotations annotations [("oneOf", .array (compileBranches branches))]
  | .json annotations => writeAnnotations annotations []
  | .null annotations => writeAnnotations annotations [("type", .string "null")]
  | .object annotations properties additionalProperties =>
    writeAnnotations annotations
      (("type", .string "object") :: ("additionalProperties", .bool additionalProperties) ::
        match properties with
        | some properties => ("properties", .object (compileProperties properties [])) ::
            optional "required" (if (requiredNames properties).isEmpty then none
              else some (.array ((requiredNames properties).map .string)))
        | none => [])
  | .array annotations items =>
    writeAnnotations annotations (("type", .string "array") ::
      match items with
      | some items => [("items", compileValue items)]
      | none => [])
  | .string annotations enumValues constValue =>
    writeAnnotations annotations (scalarAuthorValue .string .string enumValues constValue)
  | .number annotations enumValues constValue =>
    writeAnnotations annotations (scalarAuthorValue Double.toValue .number enumValues constValue)
  | .integer annotations enumValues constValue =>
    writeAnnotations annotations
      (scalarAuthorValue (.number <| .int ·) .integer enumValues constValue)
  | .boolean annotations enumValues constValue =>
    writeAnnotations annotations (scalarAuthorValue .bool .boolean enumValues constValue)

def compileBranches : List ValueSchemaSpec → List Value
  | [] => []
  | branch :: branches => compileValue branch :: compileBranches branches

/-- The properties are inserted one after the other. -/
def compileProperties : ParameterSchemaSpec → List (String × Value) → List (String × Value)
  | [], compiled => compiled
  | (name, ⟨_, spec⟩) :: properties, compiled =>
    compileProperties properties (insertField compiled name (compileValue spec))

end

def valueSchemaSpecToJsonSchema (spec : ValueSchemaSpec) : Except (List String) Value := do
  let schema := compileValue spec
  assertSupportedJsonSchema schema
  return schema

/-- The compiled parameter object, open at its root. -/
def compileParameters (spec : ParameterSchemaSpec) : Value :=
  .object (("type", .string "object") :: ("properties", .object (compileProperties spec [])) ::
    optional "required" (if (requiredNames spec).isEmpty then none
      else some (.array ((requiredNames spec).map .string))))

def parameterSchemaSpecToJsonSchema (spec : ParameterSchemaSpec) : Except (List String) Value := do
  let schema := compileParameters spec
  assertSupportedJsonSchema schema
  return schema

section Reading

/-- The literals of a scalar spec allow a value, each being read as a test of it. -/
def LiteralsAllow {Literal : Type} (enumValues : Option (List Literal)) (constValue : Option Literal)
    (equals : Literal → Prop) : Prop :=
  (∀ values, enumValues = some values → ∃ literal ∈ values, equals literal) ∧
    ∀ literal, constValue = some literal → equals literal

theorem sizeOf_lt_of_declared {properties : ParameterSchemaSpec}
    {property : String × ParameterPropertySpec ValueSchemaSpec} (hproperty : property ∈ properties) :
    sizeOf property.2.spec < sizeOf properties := by
  have hmem := sizeOf_lt_of_mem hproperty
  obtain ⟨name, required, spec⟩ := property
  simp only [Prod.mk.sizeOf_spec, ParameterPropertySpec.mk.sizeOf_spec] at hmem ⊢
  omega

/-- The values that a spec has, read directly. -/
def Holds : ValueSchemaSpec → Value → Prop
  | .string _ enumValues constValue, value =>
    ∃ text, value = .string text ∧ LiteralsAllow enumValues constValue (· = text)
  | .number _ enumValues constValue, value =>
    ∃ number : Number, value = .number number ∧ number ≠ .negativeZero ∧
      LiteralsAllow enumValues constValue (·.toRat = some number.toRat)
  | .integer _ enumValues constValue, value =>
    ∃ number : Number, value = .number number ∧ number ≠ .negativeZero ∧ number.toRat.isInt ∧
      LiteralsAllow enumValues constValue fun literal => (literal : ℚ) = number.toRat
  | .boolean _ enumValues constValue, value =>
    ∃ flag, value = .bool flag ∧ LiteralsAllow enumValues constValue (· = flag)
  | .null _, value => value = .null
  | .array _ items, value =>
    ∃ entries, value = .array entries ∧
      ∀ item, items = some item → ∀ entry ∈ entries, Holds item entry
  | .object _ properties additionalProperties, value =>
    ∃ record, value = .object record ∧
      (∀ declared, properties = some declared → ∀ property ∈ declared,
        property.2.required → hasKey record property.1) ∧
      (∀ declared, properties = some declared → ∀ property ∈ declared, ∀ child,
        record.lookup property.1 = some child → Holds property.2.spec child) ∧
      (additionalProperties = false → ∀ field ∈ record, ∃ declared,
        properties = some declared ∧ field.1 ∈ declared.map Prod.fst)
  | .json _, _ => True
  | .oneOf _ branches, value =>
    ∃! index : Fin branches.length, Holds (branches.get index) value
termination_by spec => sizeOf spec
decreasing_by
  · simp only [*, ValueSchemaSpec.array.sizeOf_spec, Option.some.sizeOf_spec]
    omega
  · have hproperty := sizeOf_lt_of_declared ‹property ∈ declared›
    simp only [*, ValueSchemaSpec.object.sizeOf_spec, Option.some.sizeOf_spec]
    omega
  · have hbranch := sizeOf_lt_of_mem (get_mem branches index)
    simp only [ValueSchemaSpec.oneOf.sizeOf_spec]
    omega

/-- The literals that decide for a value: a `const` is also one of an `enum` beside it. -/
def decidingLiterals {Literal : Type} (enumValues : Option (List Literal))
    (constValue : Option Literal) : List Literal :=
  match constValue with
  | some literal => [literal]
  | none => enumValues.getD []

/-- Nowhere in the value does a number equal a literal of the other form: an author's numbers are
written as doubles, his integers as integers. -/
def WrittenAlike : ValueSchemaSpec → Value → Prop
  | .number _ enumValues constValue, value =>
    ∀ integer : Int, value = .number (.int integer) →
      ∀ literal ∈ decidingLiterals enumValues constValue, literal.toRat ≠ some (integer : ℚ)
  | .integer _ enumValues constValue, value =>
    ∀ double : ℚ, value = .number (.float double) →
      ∀ literal ∈ decidingLiterals enumValues constValue, (literal : ℚ) ≠ double
  | .array _ items, value =>
    ∀ item entries, items = some item → value = .array entries →
      ∀ entry ∈ entries, WrittenAlike item entry
  | .object _ properties _, value =>
    ∀ declared record, properties = some declared → value = .object record →
      ∀ property ∈ declared, ∀ child, record.lookup property.1 = some child →
        WrittenAlike property.2.spec child
  | .oneOf _ branches, value => ∀ branch ∈ branches, WrittenAlike branch value
  | .string .., _ | .boolean .., _ | .null _, _ | .json _, _ => True
termination_by spec => sizeOf spec
decreasing_by
  · simp only [*, ValueSchemaSpec.array.sizeOf_spec, Option.some.sizeOf_spec]
    omega
  · have hproperty := sizeOf_lt_of_declared ‹property ∈ declared›
    simp only [*, ValueSchemaSpec.object.sizeOf_spec, Option.some.sizeOf_spec]
    omega
  · have hbranch := sizeOf_lt_of_mem ‹branch ∈ branches›
    simp only [ValueSchemaSpec.oneOf.sizeOf_spec]
    omega

/-- The property names of every object in the spec are distinct. -/
inductive Distinct : ValueSchemaSpec → Prop
  | string annotations enumValues constValue : Distinct (.string annotations enumValues constValue)
  | number annotations enumValues constValue : Distinct (.number annotations enumValues constValue)
  | integer annotations enumValues constValue : Distinct (.integer annotations enumValues constValue)
  | boolean annotations enumValues constValue : Distinct (.boolean annotations enumValues constValue)
  | null annotations : Distinct (.null annotations)
  | array annotations items (hitems : ∀ item, items = some item → Distinct item) :
      Distinct (.array annotations items)
  | object annotations properties additionalProperties
      (hnodup : ∀ declared, properties = some declared → (declared.map Prod.fst).Nodup)
      (hspecs : ∀ declared, properties = some declared → ∀ property ∈ declared,
        Distinct property.2.spec) : Distinct (.object annotations properties additionalProperties)
  | json annotations : Distinct (.json annotations)
  | oneOf annotations branches (hbranches : ∀ branch ∈ branches, Distinct branch) :
      Distinct (.oneOf annotations branches)

end Reading

section Compiling

variable {node : List (String × Value)} {key : String}

theorem lookup_append_of_none {first second : List (String × Value)}
    (hfirst : first.lookup key = none) : (first ++ second).lookup key = second.lookup key := by
  rw [lookup_append, hfirst, Option.none_or]

theorem lookup_of_not_mem (keys : List String) (hkeys : node.map Prod.fst ⊆ keys)
    (hkey : key ∉ keys) : node.lookup key = none := by
  rw [lookup_eq_none_iff]
  intro field hfield
  rw [bne_iff_ne]
  rintro rfl
  exact hkey (hkeys (mem_map_of_mem hfield))

theorem lookup_writeAnnotations (annotations : ValueSchemaAnnotations) (node : List (String × Value)) :
    ∃ written, writeAnnotations annotations node = .object written ∧
      ∀ key ∈ CONSTRAINT_KEYWORDS, written.lookup key = node.lookup key := by
  refine ⟨_, rfl, fun key hkey => ?_⟩
  have hnone : ∀ (keyword : String) (value : Option Value), keyword ∉ CONSTRAINT_KEYWORDS →
      (optional keyword value).lookup key = none := by
    intro keyword value hkeyword
    cases value with
    | none => rfl
    | some value =>
      have hne : (key == keyword) = false := by
        rw [beq_eq_false_iff_ne]
        rintro rfl
        exact hkeyword hkey
      rw [optional, lookup_cons, hne]
      rfl
  rw [append_assoc, append_assoc, append_assoc, lookup_append, lookup_append,
    lookup_append, lookup_append, hnone _ _ (by decide), hnone _ _ (by decide),
    hnone _ _ (by decide), hnone _ _ (by decide)]
  simp

variable {Literal : Type} {enumValues : Option (List Literal)} {constValue : Option Literal}
  {name : String}

theorem lookup_scalarAuthorValue (toValue : Literal → Value)
    (schemaType : JsonSchemaType) (enumValues : Option (List Literal)) (constValue : Option Literal) :
    let node := scalarAuthorValue toValue schemaType enumValues constValue
    node.lookup "type" = some (.string schemaType.text) ∧
      node.lookup "enum" = enumValues.map (fun values => .array (values.map toValue)) ∧
      node.lookup "const" = constValue.map toValue := by
  cases enumValues with
  | none | some values => cases constValue <;> exact ⟨rfl, rfl, rfl⟩

theorem literalsAllow_congr {first second : Literal → Prop}
    (hliteral : ∀ literal, first literal ↔ second literal) :
    LiteralsAllow enumValues constValue first ↔ LiteralsAllow enumValues constValue second := by
  refine and_congr ?_ ?_
  · exact forall₂_congr fun _ _ => exists_congr fun literal => and_congr_right fun _ => hliteral literal
  · exact forall₂_congr fun literal _ => hliteral literal

theorem satisfies_scalar {toValue : Literal → Value} {scalar : JsonSchemaType}
    (hscalar : scalar.IsScalar) {annotations : ValueSchemaAnnotations}
    (hsupported : Supported
      (writeAnnotations annotations (scalarAuthorValue toValue scalar enumValues constValue)))
    (value : Value) :
    Satisfies (writeAnnotations annotations (scalarAuthorValue toValue scalar enumValues constValue))
      value ↔ HasType scalar value ∧
        LiteralsAllow enumValues constValue fun literal => (toValue literal).equals value = true := by
  obtain ⟨written, hwritten, hlookup⟩ := lookup_writeAnnotations annotations
    (scalarAuthorValue toValue scalar enumValues constValue)
  obtain ⟨htype, henum, hconst⟩ := lookup_scalarAuthorValue toValue scalar enumValues constValue
  rw [← hlookup "type" (by decide)] at htype
  rw [← hlookup "enum" (by decide)] at henum
  rw [← hlookup "const" (by decide)] at hconst
  rw [hwritten] at hsupported ⊢
  obtain ⟨hone, -, habsent⟩ := hsupported.scalarNode hscalar htype
  rw [satisfies_object_iff, keywords_scalar htype hone habsent, henum, hconst]
  refine and_congr_right fun _ => and_congr ?_ ?_
  · cases enumValues with
    | none | some values => simp
  · cases constValue with
    | none | some literal => simp

theorem literalsAgree_of_none {value : Value} (henum : node.lookup "enum" = none)
    (hconst : node.lookup "const" = none) : LiteralsAgree node value := by
  rintro number - - ⟨literal, hliteral, -⟩
  rw [literals, hconst, henum] at hliteral
  cases hliteral

theorem formsAgree_scalar {toValue : Literal → Value} {scalar : JsonSchemaType}
    (hscalar : scalar.IsScalar) {annotations : ValueSchemaAnnotations}
    (hsupported : Supported
      (writeAnnotations annotations (scalarAuthorValue toValue scalar enumValues constValue)))
    (value : Value) :
    FormsAgree (writeAnnotations annotations (scalarAuthorValue toValue scalar enumValues constValue))
      value ↔ ∀ number, value = .number number → number ≠ .negativeZero →
        (∃ literal ∈ decidingLiterals enumValues constValue, (toValue literal).equals value) →
          ∃ literal ∈ decidingLiterals enumValues constValue, (toValue literal).same value := by
  obtain ⟨written, hwritten, hlookup⟩ := lookup_writeAnnotations annotations
    (scalarAuthorValue toValue scalar enumValues constValue)
  obtain ⟨htype, henum, hconst⟩ := lookup_scalarAuthorValue toValue scalar enumValues constValue
  rw [← hlookup "type" (by decide)] at htype
  rw [← hlookup "enum" (by decide)] at henum
  rw [← hlookup "const" (by decide)] at hconst
  rw [hwritten] at hsupported ⊢
  obtain ⟨hone, -, habsent⟩ := hsupported.scalarNode hscalar htype
  have hliterals : literals written = (decidingLiterals enumValues constValue).map toValue := by
    rw [literals, hconst, henum]
    cases constValue with
    | some literal => rfl
    | none => cases enumValues <;> rfl
  have hliteral : ∀ test : Value → Prop, (∃ literal ∈ literals written, test literal) ↔
      ∃ literal ∈ decidingLiterals enumValues constValue, test (toValue literal) := by
    intro test
    rw [hliterals]
    simp only [mem_map, exists_exists_and_eq_and]
  rw [formsAgree_object_iff, LiteralsAgree]
  simp only [hliteral]
  refine and_iff_left ⟨fun _ _ h => ?_, fun _ _ h => ?_, fun _ h => ?_⟩
  · exact absent (habsent "properties" (by decide)) h
  · exact absent (habsent "items" (by decide)) h
  · exact absent hone h

theorem Supported.parts (hsupported : Supported (.object node)) :
    (∀ item, node.lookup "items" = some item → Supported item) ∧
      (∀ properties, node.lookup "properties" = some (.object properties) →
        ∀ property ∈ properties, Supported property.2) ∧
      ∀ branches, node.lookup "oneOf" = some (.array branches) →
        ∀ branch ∈ branches, Supported branch := by
  cases hsupported with
  | any _ habsent =>
    exact ⟨fun _ h => absent (habsent "items" (by decide)) h,
      fun _ h => absent (habsent "properties" (by decide)) h,
      fun _ h => absent (habsent "oneOf" (by decide)) h⟩
  | oneOf _ branches hbranches _ habsent hsupported =>
    refine ⟨fun _ h => absent (habsent "items" (by decide)) h,
      fun _ h => absent (habsent "properties" (by decide)) h, fun found hfound => ?_⟩
    obtain rfl := Value.array.inj (Option.mem_unique hbranches hfound)
    exact hsupported
  | object _ properties _ hone habsent hproperties _ hsupported =>
    refine ⟨fun _ h => absent (habsent "items" (by decide)) h, fun found hfound => ?_,
      fun _ h => absent hone h⟩
    rcases hproperties with ⟨hnone, -⟩ | hsome
    · exact absent hnone hfound
    · obtain rfl := Value.object.inj (Option.mem_unique hsome hfound)
      exact hsupported
  | array _ _ hone habsent hsupported =>
    exact ⟨hsupported, fun _ h => absent (habsent "properties" (by decide)) h,
      fun _ h => absent hone h⟩
  | scalar _ _ _ _ hone habsent _ =>
    exact ⟨fun _ h => absent (habsent "items" (by decide)) h,
      fun _ h => absent (habsent "properties" (by decide)) h, fun _ h => absent hone h⟩

theorem hasKey_iff_mem {map : List (String × Value)} :
    hasKey map name = true ↔ name ∈ map.map Prod.fst := by
  rw [hasKey, Option.isSome_iff_ne_none, ne_eq, lookup_eq_none_iff]
  simp

theorem insertField_of_not_mem {map : List (String × Value)} (value : Value)
    (hnew : name ∉ map.map Prod.fst) : insertField map name value = map ++ [(name, value)] := by
  rw [insertField, if_neg (hasKey_iff_mem.not.mpr hnew)]

theorem compileProperties_eq_map (properties : ParameterSchemaSpec) :
    ∀ compiled : List (String × Value),
      (compiled.map Prod.fst ++ properties.map Prod.fst).Nodup →
        compileProperties properties compiled =
          compiled ++ properties.map fun property => (property.1, compileValue property.2.spec) := by
  induction properties with
  | nil => exact fun compiled _ => by rw [compileProperties, map_nil, append_nil]
  | cons property properties ih =>
    obtain ⟨name, required, spec⟩ := property
    intro compiled hnodup
    rw [map_cons] at hnodup
    have hnew : name ∉ compiled.map Prod.fst := fun hmem =>
      disjoint_of_nodup_append hnodup hmem (mem_cons_self)
    rw [compileProperties, insertField_of_not_mem _ hnew, ih, map_cons, append_assoc,
      singleton_append]
    rw [map_append, append_assoc]
    exact hnodup

theorem compileBranches_eq_map (branches : List ValueSchemaSpec) :
    compileBranches branches = branches.map compileValue := by
  induction branches with
  | nil => rw [compileBranches, map_nil]
  | cons branch branches ih => rw [compileBranches, map_cons, ih]

theorem mem_requiredNames {properties : ParameterSchemaSpec} :
    name ∈ requiredNames properties ↔
      ∃ property ∈ properties, property.2.required = true ∧ property.1 = name := by
  simp only [requiredNames, mem_map, mem_filter, and_assoc]

/-- The keywords of declared properties. -/
def declaredKeywords (declared : Option ParameterSchemaSpec) : List (String × Value) :=
  optional "properties" (declared.map fun properties => .object (compileProperties properties [])) ++
    optional "required" (declared.bind fun properties =>
      if (requiredNames properties).isEmpty then none
      else some (.array ((requiredNames properties).map .string)))

theorem declaredKeywords_keys (declared : Option ParameterSchemaSpec) :
    (declaredKeywords declared).map Prod.fst ⊆ ["properties", "required"] := by
  cases declared with
  | none => exact nil_subset _
  | some properties =>
    rw [declaredKeywords, Option.map_some, Option.bind_some]
    split <;> simp [optional]

theorem lookup_declaredKeywords (declared : Option ParameterSchemaSpec) :
    (declaredKeywords declared).lookup "properties" =
        declared.map (fun properties => .object (compileProperties properties [])) ∧
      (declaredKeywords declared).lookup "required" = declared.bind fun properties =>
        if (requiredNames properties).isEmpty then none
        else some (.array ((requiredNames properties).map .string)) := by
  cases declared with
  | none => exact ⟨rfl, rfl⟩
  | some properties =>
    rw [declaredKeywords, Option.map_some, Option.bind_some]
    split <;> exact ⟨rfl, rfl⟩

/-- A compiled object, whatever decides its openness. -/
structure DeclaredNode (node : List (String × Value)) (declared : Option ParameterSchemaSpec) :
    Prop where
  type : node.lookup "type" = some (.string "object")
  absent : ∀ key ∈ ["oneOf", "items", "enum", "const"], node.lookup key = none
  declared : ∀ key ∈ ["properties", "required"],
    node.lookup key = (declaredKeywords declared).lookup key

namespace DeclaredNode

variable {declared : Option ParameterSchemaSpec} {properties : ParameterSchemaSpec}

theorem one (hnode : DeclaredNode node declared) : node.lookup "oneOf" = none :=
  hnode.absent "oneOf" (by decide)

theorem properties_none (hnode : DeclaredNode node none) : node.lookup "properties" = none :=
  (hnode.declared "properties" (by decide)).trans (lookup_declaredKeywords none).1

theorem required_none (hnode : DeclaredNode node none) : node.lookup "required" = none :=
  (hnode.declared "required" (by decide)).trans (lookup_declaredKeywords none).2

variable (hnode : DeclaredNode node (some properties))
include hnode

theorem properties_some (hnodup : (properties.map Prod.fst).Nodup) :
    node.lookup "properties" = some (.object
      (properties.map fun property => (property.1, compileValue property.2.spec))) := by
  rw [hnode.declared "properties" (by decide), (lookup_declaredKeywords _).1, Option.map_some,
    compileProperties_eq_map properties [] hnodup, nil_append]

theorem required_some : node.lookup "required" =
    if (requiredNames properties).isEmpty then none
    else some (.array ((requiredNames properties).map .string)) :=
  (hnode.declared "required" (by decide)).trans (lookup_declaredKeywords (some properties)).2

end DeclaredNode

section
variable (annotations : ValueSchemaAnnotations) (hsupported : Supported (.object node))
include annotations hsupported

theorem satisfies_declared {declared : Option ParameterSchemaSpec} {additionalProperties : Bool}
    (hnode : DeclaredNode node declared)
    (hadditional : node.lookup "additionalProperties" = some (.bool false) ↔
      additionalProperties = false)
    (hnodup : ∀ properties, declared = some properties → (properties.map Prod.fst).Nodup)
    (ih : ∀ properties, declared = some properties → ∀ property ∈ properties,
      Supported (compileValue property.2.spec) → ∀ value,
        Satisfies (compileValue property.2.spec) value ↔ Holds property.2.spec value)
    (value : Value) : Satisfies (.object node) value ↔
      Holds (.object annotations declared additionalProperties) value := by
  have habsent : ∀ key ∈ ["items", "enum", "const"], node.lookup key = none :=
    fun key hkey => hnode.absent key (mem_cons_of_mem _ hkey)
  rw [satisfies_object_iff, Holds]
  cases declared with
  | none =>
    rw [keywords_object hnode.type hnode.one habsent (Or.inl ⟨hnode.properties_none, rfl⟩),
      hnode.required_none, hnode.properties_none, hadditional]
    simp
  | some properties =>
    have hproperties := hnode.properties_some (hnodup properties rfl)
    rw [keywords_object hnode.type hnode.one habsent (Or.inr hproperties), hproperties, hadditional]
    refine exists_congr fun record => and_congr_right fun _ => and_congr ?_ (and_congr ?_ ?_)
    · have hnames : (∀ names, node.lookup "required" = some (.array names) →
          ∀ name, .string name ∈ names → hasKey record name = true) ↔
            ∀ name ∈ requiredNames properties, hasKey record name = true := by
        rw [hnode.required_some]
        by_cases hempty : (requiredNames properties).isEmpty = true
        · simp [isEmpty_iff.mp hempty]
        · simp [hempty]
      rw [hnames]
      constructor
      · rintro hall _ ⟨rfl⟩ property hproperty hrequired
        exact hall _ (mem_requiredNames.2 ⟨property, hproperty, hrequired, rfl⟩)
      · intro hall name hname
        obtain ⟨property, hproperty, hrequired, rfl⟩ := mem_requiredNames.1 hname
        exact hall properties rfl property hproperty hrequired
    · have hcompiledSpec : ∀ property ∈ properties, ∀ value,
          Satisfies (compileValue property.2.spec) value ↔ Holds property.2.spec value := by
        intro property hproperty
        have hpart := (hsupported.parts).2.1 _ hproperties (property.1, _)
          (mem_map_of_mem hproperty)
        exact ih properties rfl property hproperty hpart
      constructor
      · rintro hall _ ⟨rfl⟩ property hproperty child hchild
        exact (hcompiledSpec property hproperty child).mp
          (hall (property.1, _) (mem_map_of_mem hproperty) child hchild)
      · intro hall compiled hmem child hchild
        obtain ⟨property, hproperty, rfl⟩ := mem_map.mp hmem
        exact (hcompiledSpec property hproperty child).mpr
          (hall properties rfl property hproperty child hchild)
    · simp [hasKey_iff_mem]

theorem formsAgree_declared {declared : Option ParameterSchemaSpec} {additionalProperties : Bool}
    (hnode : DeclaredNode node declared)
    (hnodup : ∀ properties, declared = some properties → (properties.map Prod.fst).Nodup)
    (ih : ∀ properties, declared = some properties → ∀ property ∈ properties,
      Supported (compileValue property.2.spec) → ∀ value,
        FormsAgree (compileValue property.2.spec) value ↔ WrittenAlike property.2.spec value)
    (value : Value) : FormsAgree (.object node) value ↔
      WrittenAlike (.object annotations declared additionalProperties) value := by
  rw [formsAgree_object_iff, WrittenAlike,
    and_iff_right (literalsAgree_of_none (hnode.absent "enum" (by decide))
      (hnode.absent "const" (by decide))), hnode.one, hnode.absent "items" (by decide)]
  cases declared with
  | none =>
    rw [hnode.properties_none]
    simp
  | some properties =>
    have hproperties := hnode.properties_some (hnodup properties rfl)
    have hpart : ∀ property ∈ properties, ∀ value,
        FormsAgree (compileValue property.2.spec) value ↔ WrittenAlike property.2.spec value := by
      intro property hproperty
      have hpart := (hsupported.parts).2.1 _ hproperties (property.1, _)
        (mem_map_of_mem hproperty)
      exact ih properties rfl property hproperty hpart
    rw [hproperties]
    constructor
    · rintro hforms _ record ⟨rfl⟩ hrecord property hproperty child hchild
      exact (hpart property hproperty child).mp
        (hforms.1 _ record rfl hrecord (property.1, _) (mem_map_of_mem hproperty) child hchild)
    · intro halike
      refine ⟨?_, fun _ _ h => (nomatch h), fun _ h => (nomatch h)⟩
      rintro _ record ⟨rfl⟩ hrecord compiled hmem child hchild
      obtain ⟨property, hproperty, rfl⟩ := mem_map.mp hmem
      exact (hpart property hproperty child).mpr
        (halike properties record rfl hrecord property hproperty child hchild)

end

theorem existsUnique_map_iff {α β : Type} (f : α → β) (branches : List α) (first : β → Prop)
    (second : α → Prop) (hbranches : ∀ branch ∈ branches, first (f branch) ↔ second branch) :
    (∃! index : Fin (branches.map f).length, first ((branches.map f).get index)) ↔
      ∃! index : Fin branches.length, second (branches.get index) := by
  refine Equiv.existsUnique_congr (finCongr (length_map f)) fun index => ?_
  rw [get_eq_getElem, getElem_map]
  exact hbranches _ (getElem_mem _)

theorem equals_number (first second : Number) :
    (Value.number first).equals (.number second) = true ↔ first.toRat = second.toRat :=
  decide_eq_true_iff

theorem equals_toValue (literal : Double) (number : Number) :
    literal.toValue.equals (.number number) = true ↔ literal.toRat = some number.toRat := by
  cases literal with
  | nan | infinite negative => exact iff_of_false Bool.false_ne_true (Option.some_ne_none _).symm
  | negativeZero | finite value => exact (equals_number _ _).trans Option.some_inj.symm

section
variable (annotations : ValueSchemaAnnotations)
include annotations

theorem compileValue_array (items : Option ValueSchemaSpec) :
    ∃ written, compileValue (.array annotations items) = .object written ∧
      written.lookup "type" = some (.string "array") ∧
      written.lookup "items" = items.map compileValue ∧
      ∀ key ∈ ["oneOf", "properties", "required", "additionalProperties", "enum", "const"],
        written.lookup key = none := by
  have hcompiled : compileValue (.array annotations items) = writeAnnotations annotations
      (("type", .string "array") :: optional "items" (items.map compileValue)) := by
    cases items <;> rw [compileValue] <;> rfl
  obtain ⟨written, hwritten, hlookup⟩ := lookup_writeAnnotations annotations
    (("type", .string "array") :: optional "items" (items.map compileValue))
  refine ⟨written, hcompiled.trans hwritten, hlookup "type" (by decide), ?_, fun key hkey => ?_⟩
  · rw [hlookup "items" (by decide)]
    cases items <;> rfl
  · rw [hlookup key (by revert key; decide)]
    refine lookup_of_not_mem ["type", "items"] ?_ (by revert key; decide)
    cases items <;> simp [optional]

theorem compileValue_object (properties : Option ParameterSchemaSpec) (additionalProperties : Bool) :
    ∃ written, compileValue (.object annotations properties additionalProperties) = .object written ∧
      DeclaredNode written properties ∧
      written.lookup "additionalProperties" = some (.bool additionalProperties) := by
  have hcompiled : compileValue (.object annotations properties additionalProperties) =
      writeAnnotations annotations (("type", .string "object") ::
        ("additionalProperties", .bool additionalProperties) :: declaredKeywords properties) := by
    cases properties <;> rw [compileValue] <;> rfl
  obtain ⟨written, hwritten, hlookup⟩ := lookup_writeAnnotations annotations
    (("type", .string "object") :: ("additionalProperties", .bool additionalProperties) ::
      declaredKeywords properties)
  have hkeys := cons_subset_cons "type"
    (cons_subset_cons "additionalProperties" (declaredKeywords_keys properties))
  refine ⟨written, hcompiled.trans hwritten, ⟨hlookup "type" (by decide), fun key hkey => ?_,
    fun key hkey => ?_⟩, hlookup "additionalProperties" (by decide)⟩
  · rw [hlookup key (by revert key; decide)]
    exact lookup_of_not_mem _ hkeys (by revert key; decide)
  · rw [hlookup key (by revert key; decide)]
    rcases mem_pair.mp hkey with rfl | rfl <;> rfl

theorem compileValue_oneOf (branches : List ValueSchemaSpec) :
    ∃ written, compileValue (.oneOf annotations branches) = .object written ∧
      written.lookup "oneOf" = some (.array (branches.map compileValue)) ∧
      ∀ key ∈ "type" :: ONE_OF_SIBLING_KEYWORDS, written.lookup key = none := by
  obtain ⟨written, hwritten, hlookup⟩ := lookup_writeAnnotations annotations
    [("oneOf", .array (branches.map compileValue))]
  rw [compileValue, compileBranches_eq_map]
  refine ⟨written, hwritten, hlookup "oneOf" (by decide), fun key hkey => ?_⟩
  rw [hlookup key (by revert key; decide)]
  exact lookup_of_not_mem ["oneOf"] (List.Subset.refl _) (by revert key; decide)

theorem compileValue_null : compileValue (.null annotations) = writeAnnotations annotations
      (scalarAuthorValue (fun _ : Unit => .null) .null none none) := by
  rw [compileValue]
  rfl

end

theorem compileParameters_node (spec : ParameterSchemaSpec) :
    ∃ node, compileParameters spec = .object node ∧ DeclaredNode node (some spec) ∧
      node.lookup "additionalProperties" = none := by
  have hkeys := cons_subset_cons "type" (declaredKeywords_keys (some spec))
  refine ⟨_, rfl, ⟨rfl, fun key hkey => ?_, fun key hkey => ?_⟩, ?_⟩
  · exact lookup_of_not_mem _ hkeys (by revert key; decide)
  · rcases mem_pair.mp hkey with rfl | rfl <;> rfl
  · exact lookup_of_not_mem _ hkeys (by decide)

theorem satisfies_compileValue {spec : ValueSchemaSpec} (hdistinct : Distinct spec)
    (hsupported : Supported (compileValue spec)) (value : Value) :
    Satisfies (compileValue spec) value ↔ Holds spec value := by
  induction hdistinct generalizing value with
  | string annotations enumValues constValue =>
    rw [compileValue] at hsupported ⊢
    rw [satisfies_scalar ⟨by decide, by decide⟩ hsupported, Holds, HasType, ← exists_and_right]
    refine exists_congr fun text => and_congr_right ?_
    rintro rfl
    exact literalsAllow_congr fun literal => by simp [Value.equals, Value.sameBy]
  | number annotations enumValues constValue =>
    rw [compileValue] at hsupported ⊢
    rw [satisfies_scalar ⟨by decide, by decide⟩ hsupported, Holds, HasType, ← exists_and_right]
    refine exists_congr fun number => (and_assoc).trans (and_congr_right ?_)
    rintro rfl
    exact and_congr_right fun _ => literalsAllow_congr fun literal => equals_toValue literal number
  | integer annotations enumValues constValue =>
    rw [compileValue] at hsupported ⊢
    rw [satisfies_scalar ⟨by decide, by decide⟩ hsupported, Holds, HasType, ← exists_and_right]
    refine exists_congr fun number => (and_assoc).trans (and_congr_right ?_)
    rintro rfl
    refine (and_assoc).trans (and_congr_right fun _ => and_congr_right fun _ => ?_)
    exact literalsAllow_congr fun literal => equals_number _ _
  | boolean annotations enumValues constValue =>
    rw [compileValue] at hsupported ⊢
    rw [satisfies_scalar ⟨by decide, by decide⟩ hsupported, Holds, HasType, ← exists_and_right]
    refine exists_congr fun flag => and_congr_right ?_
    rintro rfl
    exact literalsAllow_congr fun literal => by simp [Value.equals, Value.sameBy]
  | null annotations =>
    rw [compileValue_null] at hsupported ⊢
    rw [satisfies_scalar ⟨by decide, by decide⟩ hsupported, Holds, HasType]
    simp [LiteralsAllow]
  | array annotations items _ ih =>
    obtain ⟨written, hwritten, htype, hitems, habsent⟩ := compileValue_array annotations items
    rw [hwritten] at hsupported ⊢
    rw [satisfies_object_iff, Holds, keywords_array htype (habsent "oneOf" (by decide))
      fun key hkey => habsent key (mem_cons_of_mem _ hkey), hitems]
    refine exists_congr fun entries => and_congr_right ?_
    rintro rfl
    cases items with
    | none => simp
    | some item =>
      have hitem := (hsupported.parts).1 _ hitems
      simp only [Option.map_some, Option.some.injEq, forall_eq', ih item rfl hitem]
  | object annotations properties additionalProperties hnodup _ ih =>
    obtain ⟨written, hwritten, hnode, hadditional⟩ :=
      compileValue_object annotations properties additionalProperties
    rw [hwritten] at hsupported ⊢
    exact satisfies_declared annotations hsupported hnode (by simp [hadditional]) hnodup ih value
  | json annotations =>
    obtain ⟨written, hwritten, hlookup⟩ := lookup_writeAnnotations annotations []
    rw [compileValue, hwritten, satisfies_object_iff, Holds]
    exact iff_of_true (keywords_any hlookup) trivial
  | oneOf annotations branches _ ih =>
    obtain ⟨written, hwritten, hbranches, habsent⟩ := compileValue_oneOf annotations branches
    rw [hwritten] at hsupported ⊢
    rw [satisfies_object_iff, Holds, keywords_oneOf hbranches (habsent "type" (by decide))
      fun key hkey => habsent key (mem_cons_of_mem _ hkey)]
    refine existsUnique_map_iff compileValue branches (Satisfies · value) (Holds · value)
      fun branch hbranch => ?_
    exact ih branch hbranch
      ((hsupported.parts).2.2 _ hbranches _ (mem_map_of_mem hbranch)) value

theorem satisfies_compileParameters {spec : ParameterSchemaSpec}
    (hdistinct : Distinct (.object {} (some spec) true))
    (hsupported : Supported (compileParameters spec)) (value : Value) :
    Satisfies (compileParameters spec) value ↔ Holds (.object {} (some spec) true) value := by
  obtain ⟨node, hcompiled, hnode, hadditional⟩ := compileParameters_node spec
  rw [hcompiled] at hsupported ⊢
  cases hdistinct with
  | object _ _ _ hnodup hspecs =>
    refine satisfies_declared _ hsupported hnode (by simp [hadditional]) hnodup ?_ value
    intro properties hproperties property hproperty hpart
    exact satisfies_compileValue (hspecs properties hproperties property hproperty) hpart

/-- Where numbers are written alike, their forms agree in the compiled spec. -/
theorem formsAgree_compileValue {spec : ValueSchemaSpec} (hdistinct : Distinct spec)
    (hsupported : Supported (compileValue spec)) (value : Value) :
    FormsAgree (compileValue spec) value ↔ WrittenAlike spec value := by
  induction hdistinct generalizing value with
  | string annotations enumValues constValue | boolean annotations enumValues constValue =>
    rw [compileValue] at hsupported ⊢
    rw [formsAgree_scalar ⟨by decide, by decide⟩ hsupported, WrittenAlike]
    refine iff_of_true ?_ trivial
    rintro number rfl - ⟨literal, -, hequals⟩
    cases hequals
  | null annotations =>
    rw [compileValue_null] at hsupported ⊢
    rw [formsAgree_scalar ⟨by decide, by decide⟩ hsupported, WrittenAlike]
    refine iff_of_true ?_ trivial
    rintro number rfl - ⟨literal, -, hequals⟩
    cases hequals
  | number annotations enumValues constValue =>
    rw [compileValue] at hsupported ⊢
    rw [formsAgree_scalar ⟨by decide, by decide⟩ hsupported, WrittenAlike]
    constructor
    · rintro hforms integer rfl literal hliteral hrat
      obtain ⟨other, -, hsame⟩ := hforms (.int integer) rfl (by simp)
        ⟨literal, hliteral, (equals_toValue _ _).mpr hrat⟩
      cases other <;> cases hsame
    · rintro halike number rfl hzero ⟨literal, hliteral, hequals⟩
      have hrat := (equals_toValue _ _).mp hequals
      cases number with
      | int integer => exact absurd hrat (halike integer rfl literal hliteral)
      | negativeZero => exact absurd rfl hzero
      | float double =>
        refine ⟨literal, hliteral, ?_⟩
        cases literal with
        | nan | infinite _ => cases hrat
        | negativeZero => exact beq_iff_eq.mpr (Option.some.inj hrat).symm
        | finite value => exact beq_iff_eq.mpr (Option.some.inj hrat)
  | integer annotations enumValues constValue =>
    rw [compileValue] at hsupported ⊢
    rw [formsAgree_scalar ⟨by decide, by decide⟩ hsupported, WrittenAlike]
    constructor
    · rintro hforms double rfl literal hliteral hrat
      obtain ⟨other, -, hsame⟩ := hforms (.float double) rfl (by simp)
        ⟨literal, hliteral, (equals_number _ _).mpr hrat⟩
      cases hsame
    · rintro halike number rfl hzero ⟨literal, hliteral, hequals⟩
      have hrat := (equals_number _ _).mp hequals
      cases number with
      | float double => exact absurd hrat (halike double rfl literal hliteral)
      | negativeZero => exact absurd rfl hzero
      | int integer => exact ⟨literal, hliteral, beq_iff_eq.mpr (Rat.intCast_inj.mp hrat)⟩
  | array annotations items _ ih =>
    obtain ⟨written, hwritten, -, hitems, habsent⟩ := compileValue_array annotations items
    rw [hwritten] at hsupported ⊢
    rw [formsAgree_object_iff, WrittenAlike, and_iff_right (literalsAgree_of_none
      (habsent "enum" (by decide)) (habsent "const" (by decide))),
      habsent "properties" (by decide), habsent "oneOf" (by decide), hitems]
    cases items with
    | none => simp
    | some item =>
      have hitem := (hsupported.parts).1 _ hitems
      constructor
      · rintro hforms _ entries ⟨rfl⟩ rfl entry hentry
        exact (ih item rfl hitem entry).mp (hforms.2.1 _ entries rfl rfl entry hentry)
      · intro halike
        refine ⟨fun _ _ h => (nomatch h), ?_, fun _ h => (nomatch h)⟩
        rintro _ entries ⟨rfl⟩ rfl entry hentry
        exact (ih item rfl hitem entry).mpr (halike item entries rfl rfl entry hentry)
  | object annotations properties additionalProperties hnodup _ ih =>
    obtain ⟨written, hwritten, hnode, -⟩ :=
      compileValue_object annotations properties additionalProperties
    rw [hwritten] at hsupported ⊢
    exact formsAgree_declared annotations hsupported hnode hnodup ih value
  | json annotations =>
    obtain ⟨written, hwritten, hlookup⟩ := lookup_writeAnnotations annotations []
    rw [compileValue, hwritten, formsAgree_object_iff, WrittenAlike]
    refine iff_of_true ⟨literalsAgree_of_none (hlookup "enum" (by decide))
      (hlookup "const" (by decide)), fun _ _ h => ?_, fun _ _ h => ?_, fun _ h => ?_⟩ trivial
    · exact absent (hlookup "properties" (by decide)) h
    · exact absent (hlookup "items" (by decide)) h
    · exact absent (hlookup "oneOf" (by decide)) h
  | oneOf annotations branches _ ih =>
    obtain ⟨written, hwritten, hbranches, habsent⟩ := compileValue_oneOf annotations branches
    rw [hwritten] at hsupported ⊢
    rw [formsAgree_object_iff, WrittenAlike, and_iff_right (literalsAgree_of_none
      (habsent "enum" (by decide)) (habsent "const" (by decide))),
      habsent "properties" (by decide), habsent "items" (by decide), hbranches]
    have hbranch : ∀ branch ∈ branches,
        (FormsAgree (compileValue branch) value ↔ WrittenAlike branch value) :=
      fun branch hmem => ih branch hmem
        ((hsupported.parts).2.2 _ hbranches _ (mem_map_of_mem hmem)) value
    constructor
    · intro hforms branch hmem
      exact (hbranch branch hmem).mp (hforms.2.2 _ rfl _ (mem_map_of_mem hmem))
    · intro halike
      refine ⟨fun _ _ h => (nomatch h), fun _ _ h => (nomatch h), ?_⟩
      rintro _ ⟨rfl⟩ compiled hcompiled
      obtain ⟨branch, hmem, rfl⟩ := mem_map.mp hcompiled
      exact (hbranch branch hmem).mpr (halike branch hmem)

theorem formsAgree_compileParameters {spec : ParameterSchemaSpec}
    (hdistinct : Distinct (.object {} (some spec) true))
    (hsupported : Supported (compileParameters spec)) (value : Value) :
    FormsAgree (compileParameters spec) value ↔ WrittenAlike (.object {} (some spec) true) value := by
  obtain ⟨node, hcompiled, hnode, -⟩ := compileParameters_node spec
  rw [hcompiled] at hsupported ⊢
  cases hdistinct with
  | object _ _ _ hnodup hspecs =>
    refine formsAgree_declared _ hsupported hnode hnodup ?_ value
    intro properties hproperties property hproperty hpart
    exact formsAgree_compileValue (hspecs properties hproperties property hproperty) hpart

end Compiling

section Deciding

variable (print : Value → String)

def ValueSchemaSpec.IsScalar : ValueSchemaSpec → Prop
  | .string .. | .number .. | .integer .. | .boolean .. | .null _ => True
  | .array .. | .object .. | .json _ | .oneOf .. => False

theorem compileValue_of_isScalar {spec : ValueSchemaSpec} (hscalar : spec.IsScalar) :
    ∃ (node : List (String × Value)) (scalar : JsonSchemaType), compileValue spec = .object node ∧
      scalar.IsScalar ∧ node.lookup "type" = some (.string scalar.text) := by
  have htyped : ∀ {Literal : Type} (toValue : Literal → Value) (scalar : JsonSchemaType)
      (annotations : ValueSchemaAnnotations) (enumValues : Option (List Literal))
      (constValue : Option Literal), scalar.IsScalar →
        ∃ (node : List (String × Value)) (scalar' : JsonSchemaType),
          writeAnnotations annotations (scalarAuthorValue toValue scalar enumValues constValue) =
            .object node ∧ scalar'.IsScalar ∧
          node.lookup "type" = some (.string scalar'.text) := by
    intro Literal toValue scalar annotations enumValues constValue hscalar
    obtain ⟨written, hwritten, hlookup⟩ := lookup_writeAnnotations annotations
      (scalarAuthorValue toValue scalar enumValues constValue)
    exact ⟨written, scalar, hwritten, hscalar, hlookup "type" (by decide)⟩
  cases spec with
  | string annotations enumValues constValue | number annotations enumValues constValue
  | integer annotations enumValues constValue | boolean annotations enumValues constValue =>
    rw [compileValue]
    exact htyped _ _ _ _ _ ⟨by decide, by decide⟩
  | null annotations =>
    rw [compileValue_null]
    exact htyped _ _ _ _ _ ⟨by decide, by decide⟩
  | array | object | json | oneOf => exact hscalar.elim

theorem supported_of_valueSchemaSpec {spec : ValueSchemaSpec} {schema : Value}
    (hcompiled : valueSchemaSpecToJsonSchema spec = .ok schema) :
    schema = compileValue spec ∧ Supported schema := by
  rw [valueSchemaSpecToJsonSchema] at hcompiled
  cases hassert : assertSupportedJsonSchema (compileValue spec) with
  | error violations =>
    rw [hassert] at hcompiled
    cases hcompiled
  | ok _ =>
    rw [hassert] at hcompiled
    cases hcompiled
    exact ⟨rfl, supported_of_assert hassert⟩

theorem supported_of_parameterSchemaSpec {spec : ParameterSchemaSpec} {schema : Value}
    (hcompiled : parameterSchemaSpecToJsonSchema spec = .ok schema) :
    schema = compileParameters spec ∧ Supported schema := by
  rw [parameterSchemaSpecToJsonSchema] at hcompiled
  cases hassert : assertSupportedJsonSchema (compileParameters spec) with
  | error violations =>
    rw [hassert] at hcompiled
    cases hcompiled
  | ok _ =>
    rw [hassert] at hcompiled
    cases hcompiled
    exact ⟨rfl, supported_of_assert hassert⟩

/-- Validating against a compiled spec is reading the spec, wherever numbers are written alike; for
a scalar spec that is exactly where. -/
theorem compiled_iff_holds :
    (∀ (spec : ValueSchemaSpec) (schema : Value), Distinct spec →
      valueSchemaSpecToJsonSchema spec = .ok schema →
        (∀ (value : Value) (path : String), WrittenAlike spec value →
          (validateJsonSchemaValue print schema value path = [] ↔ Holds spec value)) ∧
        (spec.IsScalar → ∀ (value : Value) (path : String),
          (validateJsonSchemaValue print schema value path = [] ↔ Holds spec value) ↔
            WrittenAlike spec value)) ∧
    ∀ (spec : ParameterSchemaSpec) (schema : Value), Distinct (.object {} (some spec) true) →
      parameterSchemaSpecToJsonSchema spec = .ok schema →
        ∀ (value : Value) (path : String), WrittenAlike (.object {} (some spec) true) value →
          (validateJsonSchemaValue print schema value path = [] ↔
            Holds (.object {} (some spec) true) value) := by
  refine ⟨fun spec schema hdistinct hcompiled => ⟨fun value path halike => ?_, ?_⟩, ?_⟩
  · obtain ⟨rfl, hsupported⟩ := supported_of_valueSchemaSpec hcompiled
    have hforms := (formsAgree_compileValue hdistinct hsupported value).mpr halike
    exact (hsupported.check_iff print value path hforms).trans
      (satisfies_compileValue hdistinct hsupported value)
  · intro hscalar value path
    obtain ⟨rfl, hsupported⟩ := supported_of_valueSchemaSpec hcompiled
    rw [← satisfies_compileValue hdistinct hsupported, ← formsAgree_compileValue hdistinct hsupported]
    obtain ⟨node, scalar, hnode, hscalarType, htype⟩ := compileValue_of_isScalar hscalar
    rw [hnode] at hsupported ⊢
    exact hsupported.scalar_exact print hscalarType htype
  · intro spec schema hdistinct hcompiled value path halike
    obtain ⟨rfl, hsupported⟩ := supported_of_parameterSchemaSpec hcompiled
    have hsatisfies := satisfies_compileParameters hdistinct hsupported value
    have hforms := (formsAgree_compileParameters hdistinct hsupported value).mpr halike
    exact (hsupported.check_iff print value path hforms).trans hsatisfies

def numberSpec (value : ℚ) : ValueSchemaSpec := .number {} none (some (.finite value))

def numberNode (value : ℚ) : List (String × Value) :=
  [("type", .string "number"), ("const", .number (.float value))]

theorem compile_numberSpec (value : ℚ) :
    valueSchemaSpecToJsonSchema (numberSpec value) = .ok (.object (numberNode value)) := by
  have hchecked : checkSchemaNode (.object (numberNode value)) "schema" = [] := by
    rw [checkSchemaNode]
    rfl
  have hassert : assertSupportedJsonSchema (.object (numberNode value)) = .ok () := by
    rw [assertSupportedJsonSchema, hchecked]
    rfl
  have hcompiled : compileValue (numberSpec value) = .object (numberNode value) := by
    rw [numberSpec, compileValue]
    rfl
  rw [valueSchemaSpecToJsonSchema, hcompiled, hassert]
  rfl

theorem compiled_iff_holds_half :
    validateJsonSchemaValue (fun _ => "") (.object (numberNode (1 / 2))) (.number (.float (1 / 2)))
      "" = [] ↔ Holds (numberSpec (1 / 2)) (.number (.float (1 / 2))) := by
  have hdistinct : Distinct (numberSpec (1 / 2)) := .number _ _ _
  refine ((compiled_iff_holds (fun _ => "")).1 _ _ hdistinct (compile_numberSpec _)).1 _ _ ?_
  rw [numberSpec, WrittenAlike]
  exact fun _ h => by cases h

/-- The number one of an author, written as an integer, is refused. -/
theorem integer_form_refused :
    ¬ ∀ (print : Value → String) (spec : ValueSchemaSpec) (schema value : Value) (path : String),
      Distinct spec → valueSchemaSpecToJsonSchema spec = .ok schema →
        (validateJsonSchemaValue print schema value path = [] ↔ Holds spec value) := by
  intro hall
  have hdecides := hall (fun _ => "") (numberSpec 1) _ (.number (.int 1)) "" (.number _ _ _)
    (compile_numberSpec 1)
  have hscalar : JsonSchemaType.number.IsScalar := ⟨by decide, by decide⟩
  have hholds : Holds (numberSpec 1) (.number (.int 1)) := by
    rw [numberSpec, Holds]
    refine ⟨.int 1, rfl, by decide, fun _ h => (nomatch h), fun literal hliteral => ?_⟩
    cases hliteral
    rfl
  have hchecked := hdecides.mpr hholds
  rw [validateJsonSchemaValue, checkValue_scalar _ hscalar rfl rfl] at hchecked
  exact absurd (hchecked.2.2 _ rfl) (by decide)

end Deciding

end Keel.Tools
