import Mathlib.Data.List.Basic
import Mathlib.Data.Rat.Defs

/-! # The enforced JSON Schema subset

A schema is a JSON value. One walk says what in it lies outside the subset, another says
what a value violates of a schema that was accepted; both collect texts in walk order.

JSON values are those of the JSON library: a number is an integer or a double, and the two
are never equal. The text of a value in a message is the library's.
-/

namespace Keel.Tools

open List

inductive Number where
  | int (value : Int)
  /-- A finite double other than negative zero. -/
  | float (value : ℚ)
  | negativeZero
deriving DecidableEq

def Number.toRat : Number → ℚ
  | .int value => value
  | .float value => value
  | .negativeZero => 0

/-- Equality of the JSON library's numbers. -/
def Number.same : Number → Number → Bool
  | .int a, .int b => a == b
  | .float a, .float b => a == b
  | .float a, .negativeZero => a == 0
  | .negativeZero, .float b => b == 0
  | .negativeZero, .negativeZero => true
  | _, _ => false

/-- `serde_json::Value`. -/
inductive Value where
  | null
  | bool (value : Bool)
  | number (value : Number)
  | string (value : String)
  | array (items : List Value)
  | object (fields : List (String × Value))

namespace Value

mutual

/-- Equality of values up to an equality of numbers; objects are equal in any order. -/
@[simp] def sameBy (numbers : Number → Number → Bool) : Value → Value → Bool
  | .null, .null => true
  | .bool a, .bool b => a == b
  | .number a, .number b => numbers a b
  | .string a, .string b => a == b
  | .array as, .array bs => sameItems numbers as bs
  | .object as, .object bs => as.length == bs.length && sameFields numbers as bs
  | _, _ => false

def sameItems (numbers : Number → Number → Bool) : List Value → List Value → Bool
  | [], [] => true
  | a :: as, b :: bs => sameBy numbers a b && sameItems numbers as bs
  | _, _ => false

def sameFields (numbers : Number → Number → Bool) :
    List (String × Value) → List (String × Value) → Bool
  | [], _ => true
  | (key, a) :: as, bs =>
    (match bs.lookup key with
      | some b => sameBy numbers a b
      | none => false) && sameFields numbers as bs

end

/-- `==` of the JSON library. -/
def same : Value → Value → Bool := sameBy Number.same

def asArray : Value → Option (List Value)
  | .array items => some items
  | _ => none

def asObject : Value → Option (List (String × Value))
  | .object fields => some fields
  | _ => none

def asStr : Value → Option String
  | .string text => some text
  | _ => none

end Value

variable {fields : List (String × Value)} {key : String}

theorem sizeOf_lt_of_lookup {child : Value}
    (hchild : fields.lookup key = some child) : sizeOf child < sizeOf fields := by
  obtain ⟨before, after, rfl, -⟩ := lookup_eq_some_iff.mp hchild
  have hmem := sizeOf_lt_of_mem (mem_append_right before
    (mem_cons_self (a := (key, child)) (l := after)))
  have hpair : sizeOf (key, child) = 1 + sizeOf key + sizeOf child := rfl
  omega

theorem sizeOf_lt_of_branch {items : List Value} (hitems : fields.lookup key = some (.array items))
    {item : Value} (hitem : item ∈ items) : sizeOf item < sizeOf fields := by
  have hlookup := sizeOf_lt_of_lookup hitems
  have hmem := sizeOf_lt_of_mem hitem
  rw [Value.array.sizeOf_spec] at hlookup
  omega

theorem sizeOf_lt_of_property
    {entries : List (String × Value)} (hentries : fields.lookup key = some (.object entries))
    {entry : String × Value} (hentry : entry ∈ entries) : sizeOf entry.2 < sizeOf fields := by
  have hlookup := sizeOf_lt_of_lookup hentries
  have hmem := sizeOf_lt_of_mem hentry
  have hpair : sizeOf entry = 1 + sizeOf entry.1 + sizeOf entry.2 := rfl
  rw [Value.object.sizeOf_spec] at hlookup
  omega

/-- Single-type keywords accepted by the enforced subset. -/
inductive JsonSchemaType where
  | object
  | array
  | string
  | number
  | integer
  | boolean
  | null
deriving DecidableEq

namespace JsonSchemaType

def text : JsonSchemaType → String
  | .object => "object"
  | .array => "array"
  | .string => "string"
  | .number => "number"
  | .integer => "integer"
  | .boolean => "boolean"
  | .null => "null"

def parse (text : String) : Option JsonSchemaType :=
  if text = "object" then some .object
  else if text = "array" then some .array
  else if text = "string" then some .string
  else if text = "number" then some .number
  else if text = "integer" then some .integer
  else if text = "boolean" then some .boolean
  else if text = "null" then some .null
  else none

end JsonSchemaType

def CONSTRAINT_KEYWORDS : List String :=
  ["type", "oneOf", "properties", "required", "additionalProperties", "items", "enum", "const"]

def ANNOTATION_KEYWORDS : List String := ["description", "title", "default", "examples"]

def ONE_OF_SIBLING_KEYWORDS : List String :=
  ["properties", "required", "additionalProperties", "items", "enum", "const"]

/-- A double is a JSON number unless it is negative zero; an integer always is. -/
def isJsonNumber : Value → Bool
  | .number number => number ≠ .negativeZero
  | _ => false

def isInteger : Value → Bool
  | .number (.int _) => true
  | .number (.float value) => value.den = 1
  | _ => false

/-- Whether a scalar value is valid for one declared scalar schema type. -/
def scalarMatches : JsonSchemaType → Value → Bool
  | .string, .string _ => true
  | .number, value => isJsonNumber value
  | .integer, value => isInteger value
  | .boolean, .bool _ => true
  | .null, .null => true
  | _, _ => false

section Schemas

def hasKey (map : List (String × Value)) (key : String) : Bool := (map.lookup key).isSome

/-- The violations of a map under keywords that must not be in it. -/
def forbidden (map : List (String × Value)) (keys : List String) (message : String → String) :
    List String :=
  (keys.filter (hasKey map)).map message

def unsupportedKeywords (map : List (String × Value)) (path : String) : List String :=
  ((map.map Prod.fst).filter fun key =>
    ¬ (key ∈ CONSTRAINT_KEYWORDS ∨ key ∈ ANNOTATION_KEYWORDS)).map fun key =>
      path ++ "." ++ key ++ " is not a supported keyword (subset: type/oneOf/properties/" ++
        "required/additionalProperties/items/enum/const + annotations)"

def annotationViolations (map : List (String × Value)) (path : String) : List String :=
  ["description", "title"].filterMap fun key =>
    match map.lookup key with
    | some (.string _) | none => none
    | some _ => some (path ++ "." ++ key ++ " must be a string")

/-- Where a keyword other than `type` and `oneOf` may stand. -/
def allowedFor (key : String) (schemaType : JsonSchemaType) : Bool :=
  if key = "items" then schemaType = .array
  else if key = "enum" ∨ key = "const" then ¬ (schemaType = .object ∨ schemaType = .array)
  else schemaType = .object

/-- Object-only tail checks, run after the property schemas were visited. -/
def checkObjectSchemaTail (map : List (String × Value)) (path : String) : List String :=
  (match map.lookup "required" with
    | none => []
    | some required =>
      match required.asArray.bind (·.mapM Value.asStr) with
      | none => [path ++ ".required must be an array of strings"]
      | some names =>
        let declared := ((map.lookup "properties").bind Value.asObject).getD []
        (names.filter fun name => ¬ hasKey declared name).map fun name =>
          path ++ ".required names \"" ++ name ++ "\" which is not in properties") ++
  (match map.lookup "additionalProperties" with
    | some (.bool _) | none => []
    | some _ => [path ++ ".additionalProperties must be a boolean"])

/-- The entries of a valid `enum` of a scalar type. -/
def validEnum (scalar : JsonSchemaType) (map : List (String × Value)) : Option (List Value) :=
  ((map.lookup "enum").bind Value.asArray).filter fun entries =>
    ¬ entries.isEmpty ∧ entries.all (scalarMatches scalar)

def scalarSchemaViolations (scalar : JsonSchemaType) (map : List (String × Value))
    (path : String) : List String :=
  (if hasKey map "enum" ∧ (validEnum scalar map).isNone then
    [path ++ ".enum must be a non-empty array of " ++ scalar.text ++ " values"] else []) ++
  (match map.lookup "const" with
    | none => []
    | some declared =>
      if ¬ scalarMatches scalar declared then
        [path ++ ".const must be a " ++ scalar.text ++ " value"]
      else match validEnum scalar map with
        | some entries =>
          if entries.any (·.same declared) then []
          else [path ++ ".const must be one of " ++ path ++ ".enum when both are declared"]
        | none => [])

/-- The violations of one raw schema tree. -/
def checkSchemaNode : Value → String → List String
  | .object map, path =>
    unsupportedKeywords map path ++ annotationViolations map path ++
    (if hasKey map "type" ∧ hasKey map "oneOf" then
      [path ++ " cannot declare both type and oneOf"]
    else if ¬ hasKey map "type" ∧ ¬ hasKey map "oneOf" then
      forbidden map ONE_OF_SIBLING_KEYWORDS fun key =>
        path ++ "." ++ key ++ " requires type or oneOf"
    else if hasKey map "oneOf" then
      (match _hbranches : map.lookup "oneOf" with
        | some (.array branches) =>
          if branches.length ≥ 2 then
            branches.zipIdx.attach.flatMap fun ⟨branch, _⟩ =>
              checkSchemaNode branch.1 (path ++ ".oneOf[" ++ toString branch.2 ++ "]")
          else [path ++ ".oneOf must be an array of at least two schemas"]
        | _ => [path ++ ".oneOf must be an array of at least two schemas"]) ++
      forbidden map ONE_OF_SIBLING_KEYWORDS fun key =>
        path ++ "." ++ key ++ " is not supported beside oneOf"
    else match ((map.lookup "type").bind Value.asStr).bind JsonSchemaType.parse with
      | none =>
        if ((map.lookup "type").bind Value.asArray).isSome then
          [path ++ ".type must be a single type string (type arrays are not supported)"]
        else [path ++ ".type must be one of object/array/string/number/integer/boolean/null"]
      | some schemaType =>
        forbidden map (ONE_OF_SIBLING_KEYWORDS.filter fun key => ¬ allowedFor key schemaType)
          (fun key => path ++ "." ++ key ++ " is not supported on type \"" ++
            schemaType.text ++ "\"") ++
        match schemaType with
        | .object =>
          (match _hentries : map.lookup "properties" with
            | some (.object entries) =>
              entries.attach.flatMap fun ⟨entry, _⟩ =>
                checkSchemaNode entry.2 (path ++ ".properties." ++ entry.1)
            | some _ => [path ++ ".properties must be an object of schemas"]
            | none => []) ++
          checkObjectSchemaTail map path
        | .array =>
          match _hitems : map.lookup "items" with
          | some items => checkSchemaNode items (path ++ ".items")
          | none => []
        | scalar => scalarSchemaViolations scalar map path)
  | _, path => [path ++ " must be a schema object"]
termination_by schema => sizeOf schema
decreasing_by
  · have hbranch := sizeOf_lt_of_branch _hbranches (fst_mem_of_mem_zipIdx ‹_›)
    rw [Value.object.sizeOf_spec]
    omega
  · have hentry := sizeOf_lt_of_property _hentries ‹_›
    rw [Value.object.sizeOf_spec]
    omega
  · have hchild := sizeOf_lt_of_lookup _hitems
    rw [Value.object.sizeOf_spec]
    omega

/-- Reject a raw schema outside the enforced subset. -/
def assertSupportedJsonSchema (schema : Value) : Except (List String) Unit :=
  let violations := checkSchemaNode schema "schema"
  if violations.isEmpty then .ok () else .error violations

end Schemas

section Values

-- the JSON library's text of a value
variable (print : Value → String)

/-- The empty parameter-root path reads as `arguments`. -/
def diagnosticPath (path : String) : String := if path.isEmpty then "arguments" else path

/-- One property step, without a leading dot at the implicit root. -/
def propertyPath (path key : String) : String :=
  if path.isEmpty then key else path ++ "." ++ key

def quoted (path : String) : String := "\"" ++ diagnosticPath path ++ "\""

def constViolations (node : List (String × Value)) (value : Value) (path : String) :
    List String :=
  match node.lookup "const" with
  | some declared =>
    if value.same declared then [] else [quoted path ++ " must be " ++ print declared]
  | none => []

def scalarConstraintViolations (node : List (String × Value)) (value : Value) (path : String) :
    List String :=
  match (node.lookup "enum").bind Value.asArray with
  | some allowed =>
    if allowed.any (·.same value) then constViolations print node value path
    else [quoted path ++ " must be one of " ++ print (.array allowed)]
  | none => constViolations print node value path

/-- A scalar value against a node of a scalar type. -/
def checkScalar (scalar : JsonSchemaType) (node : List (String × Value)) (value : Value)
    (path : String) : List String :=
  if scalarMatches scalar value then scalarConstraintViolations print node value path
  else match scalar, value with
    | .string, _ => [quoted path ++ " must be a string"]
    | .number, .number _ => [quoted path ++ " must be a finite JSON number"]
    | .number, _ => [quoted path ++ " must be a number"]
    | .integer, _ => [quoted path ++ " must be an integer"]
    | .boolean, _ => [quoted path ++ " must be a boolean"]
    | _, _ => [quoted path ++ " must be null"]

def missingProperties (node record : List (String × Value)) (path : String) : List String :=
  match (node.lookup "required").bind Value.asArray with
  | some required =>
    ((required.filterMap Value.asStr).filter fun key => ¬ hasKey record key).map fun key =>
      "missing required property \"" ++ propertyPath path key ++ "\""
  | none => []

def undeclaredProperties (node record : List (String × Value)) (path : String) : List String :=
  match node.lookup "additionalProperties" with
  | some (.bool false) =>
    let properties := ((node.lookup "properties").bind Value.asObject).getD []
    ((record.map Prod.fst).filter fun key => ¬ hasKey properties key).map fun key =>
      "\"" ++ propertyPath path key ++
        "\" is not a declared property (additionalProperties: false)"
  | _ => []

/-- The violations of a value; a node that is not an object validates nothing. -/
def checkValue : Value → Value → String → List String
  | .object node, value, path =>
    match _hbranches : node.lookup "oneOf" with
    | some (.array branches) =>
      let matched := branches.attach.countP fun ⟨branch, _⟩ =>
        (checkValue branch value path).isEmpty
      if matched = 1 then []
      else [quoted path ++ " must match exactly one oneOf branch (matched " ++
        toString matched ++ ")"]
    | _ =>
      match ((node.lookup "type").bind Value.asStr).bind JsonSchemaType.parse with
      | none => []
      | some .object =>
        match value with
        | .object record =>
          missingProperties node record path ++
          (match _hproperties : node.lookup "properties" with
            | some (.object properties) =>
              properties.attach.flatMap fun ⟨property, _⟩ =>
                match record.lookup property.1 with
                | some child => checkValue property.2 child (propertyPath path property.1)
                | none => []
            | _ => []) ++
          undeclaredProperties node record path
        | _ => [quoted path ++ " must be an object"]
      | some .array =>
        match value with
        | .array items =>
          match _hitem : node.lookup "items" with
          | some item =>
            items.zipIdx.flatMap fun entry =>
              checkValue item entry.1 (path ++ "[" ++ toString entry.2 ++ "]")
          | none => []
        | _ => [quoted path ++ " must be an array"]
      | some scalar => checkScalar print scalar node value path
  | _, _, _ => []
termination_by schema => sizeOf schema
decreasing_by
  · have hbranch := sizeOf_lt_of_branch _hbranches ‹_›
    rw [Value.object.sizeOf_spec]
    omega
  · have hproperty := sizeOf_lt_of_property _hproperties ‹_›
    rw [Value.object.sizeOf_spec]
    omega
  · have hchild := sizeOf_lt_of_lookup _hitem
    rw [Value.object.sizeOf_spec]
    omega

/-- Path-qualified violations in walk order; none when the value is valid. -/
def validateJsonSchemaValue (schema value : Value) (path : String) : List String :=
  checkValue print schema value path

end Values

end Keel.Tools
