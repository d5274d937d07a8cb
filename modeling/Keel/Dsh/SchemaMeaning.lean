import Keel.Dsh.JsonSchema
import Mathlib.Data.List.Forall2

/-! # What an accepted schema means

The standard reading of a schema is one assertion for each of its keywords. The walk over
a value decides all of them for every schema that was accepted, except where it compares a
number with a literal: the reading compares the values of the numbers, the walk also their
form.
-/

namespace Keel.Tools

open List Option

/-- Equality of values, with numbers equal by their mathematical value. -/
def Value.equals : Value → Value → Bool := Value.sameBy fun a b => a.toRat = b.toRat

/-- The value is of the type. Negative zero is not a number. -/
def HasType : JsonSchemaType → Value → Prop
  | .object, value => ∃ fields, value = .object fields
  | .array, value => ∃ items, value = .array items
  | .string, value => ∃ text, value = .string text
  | .number, value => ∃ number, value = .number number ∧ number ≠ .negativeZero
  | .integer, value =>
    ∃ number : Number, value = .number number ∧ number ≠ .negativeZero ∧ number.toRat.isInt
  | .boolean, value => ∃ flag, value = .bool flag
  | .null, value => value = .null

/-- The standard meaning of a schema: every keyword is an assertion about the value. -/
def Satisfies : Value → Value → Prop
  | .object node, value =>
    (∀ name type, node.lookup "type" = some (.string name) → JsonSchemaType.parse name = some type →
      HasType type value) ∧
    (∀ properties record, node.lookup "properties" = some (.object properties) →
      value = .object record → ∀ property ∈ properties, ∀ child,
        record.lookup property.1 = some child → Satisfies property.2 child) ∧
    (∀ names record, node.lookup "required" = some (.array names) → value = .object record →
      ∀ name, .string name ∈ names → hasKey record name) ∧
    (∀ record, node.lookup "additionalProperties" = some (.bool false) →
      value = .object record → ∀ field ∈ record, ∃ properties,
        node.lookup "properties" = some (.object properties) ∧ hasKey properties field.1) ∧
    (∀ item entries, node.lookup "items" = some item → value = .array entries →
      ∀ entry ∈ entries, Satisfies item entry) ∧
    (∀ literals, node.lookup "enum" = some (.array literals) →
      ∃ literal ∈ literals, literal.equals value) ∧
    (∀ literal, node.lookup "const" = some literal → literal.equals value) ∧
    (∀ branches, node.lookup "oneOf" = some (.array branches) →
      ∃! index : Fin branches.length, Satisfies (branches.get index) value)
  -- only objects are schemas
  | _, _ => False
termination_by schema => sizeOf schema
decreasing_by
  · have hproperty := sizeOf_lt_of_property ‹_ = some (Value.object properties)› ‹_›
    rw [Value.object.sizeOf_spec]
    omega
  · have hitem := sizeOf_lt_of_lookup ‹_ = some item›
    rw [Value.object.sizeOf_spec]
    omega
  · have hbranch := sizeOf_lt_of_branch ‹_ = some (Value.array branches)›
      (get_mem branches index)
    rw [Value.object.sizeOf_spec]
    omega

/-- The literals that decide for a value: a `const` is also one of an `enum` beside it. -/
def literals (node : List (String × Value)) : List Value :=
  match node.lookup "const" with
  | some literal => [literal]
  | none => ((node.lookup "enum").bind Value.asArray).getD []

/-- Where the walk compares a number with literals, one that equals it is of its form, if any. -/
def FormsAgree : Value → Value → Prop
  | .object node, value =>
    (∀ number, value = .number number → number ≠ .negativeZero →
      (∃ literal ∈ literals node, literal.equals value) →
        ∃ literal ∈ literals node, literal.same value) ∧
    (∀ properties record, node.lookup "properties" = some (.object properties) →
      value = .object record → ∀ property ∈ properties, ∀ child,
        record.lookup property.1 = some child → FormsAgree property.2 child) ∧
    (∀ item entries, node.lookup "items" = some item → value = .array entries →
      ∀ entry ∈ entries, FormsAgree item entry) ∧
    (∀ branches, node.lookup "oneOf" = some (.array branches) →
      ∀ branch ∈ branches, FormsAgree branch value)
  | _, _ => True
termination_by schema => sizeOf schema
decreasing_by
  · have hproperty := sizeOf_lt_of_property ‹_ = some (Value.object properties)› ‹_›
    rw [Value.object.sizeOf_spec]
    omega
  · have hitem := sizeOf_lt_of_lookup ‹_ = some item›
    rw [Value.object.sizeOf_spec]
    omega
  · have hbranch := sizeOf_lt_of_branch ‹_ = some (Value.array branches)› ‹_›
    rw [Value.object.sizeOf_spec]
    omega

section Acceptance

def JsonSchemaType.IsScalar (schemaType : JsonSchemaType) : Prop :=
  schemaType ≠ .object ∧ schemaType ≠ .array

/-- The literals of an accepted node of a scalar type. -/
structure ScalarNode (scalar : JsonSchemaType) (node : List (String × Value)) : Prop where
  enum : ∀ value, node.lookup "enum" = some value → ∃ entries, value = .array entries ∧
    ∀ entry ∈ entries, scalarMatches scalar entry
  const : ∀ literal, node.lookup "const" = some literal → scalarMatches scalar literal
  both : ∀ literal entries, node.lookup "const" = some literal →
    node.lookup "enum" = some (.array entries) → entries.any (·.same literal)

/-- The schemas that the walk accepts, one case for each kind of node. -/
inductive Supported : Value → Prop
  | any (node : List (String × Value)) (habsent : ∀ key ∈ CONSTRAINT_KEYWORDS,
    node.lookup key = none) :
      Supported (.object node)
  | oneOf (node : List (String × Value)) (branches : List Value)
      (hbranches : node.lookup "oneOf" = some (.array branches)) (htype : node.lookup "type" = none)
      (habsent : ∀ key ∈ ONE_OF_SIBLING_KEYWORDS, node.lookup key = none)
      (hsupported : ∀ branch ∈ branches, Supported branch) : Supported (.object node)
  | object (node properties : List (String × Value))
      (htype : node.lookup "type" = some (.string "object")) (hone : node.lookup "oneOf" = none)
      (habsent : ∀ key ∈ ["items", "enum", "const"], node.lookup key = none)
      (hproperties : node.lookup "properties" = none ∧ properties = [] ∨
        node.lookup "properties" = some (.object properties))
      (hrequired : ∀ value, node.lookup "required" = some value → ∃ names, value = .array names)
      (hsupported : ∀ property ∈ properties, Supported property.2) : Supported (.object node)
  | array (node : List (String × Value))
      (htype : node.lookup "type" = some (.string "array")) (hone : node.lookup "oneOf" = none)
      (habsent : ∀ key ∈ ["properties", "required", "additionalProperties", "enum", "const"],
        node.lookup key = none)
      (hsupported : ∀ item, node.lookup "items" = some item → Supported item) :
      Supported (.object node)
  | scalar (node : List (String × Value)) (scalar : JsonSchemaType) (hscalar : scalar.IsScalar)
      (htype : node.lookup "type" = some (.string scalar.text)) (hone : node.lookup "oneOf" = none)
      (habsent : ∀ key ∈ ["properties", "required", "additionalProperties", "items"],
        node.lookup key = none)
      (hnode : ScalarNode scalar node) : Supported (.object node)

variable {map : List (String × Value)} {path : String}

theorem hasKey_eq_false {key : String} : ¬ hasKey map key = true ↔ map.lookup key = none := by
  rw [hasKey, isSome_iff_ne_none, not_not]

theorem forbidden_eq_nil {keys : List String} {message : String → String} :
    forbidden map keys message = [] ↔ ∀ key ∈ keys, map.lookup key = none := by
  rw [forbidden, map_eq_nil_iff, filter_eq_nil_iff]
  exact forall₂_congr fun _ _ => hasKey_eq_false

theorem scalarNode_of_eq_nil {scalar : JsonSchemaType}
    (hnil : scalarSchemaViolations scalar map path = []) : ScalarNode scalar map := by
  rw [scalarSchemaViolations, append_eq_nil_iff] at hnil
  obtain ⟨henum, hconst⟩ := hnil
  have hvalid : ∀ value, map.lookup "enum" = some value → ∃ entries, value = .array entries ∧
      validEnum scalar map = some entries ∧ ∀ entry ∈ entries, scalarMatches scalar entry := by
    intro value hvalue
    have hkey : hasKey map "enum" = true := by rw [hasKey, hvalue]; rfl
    cases hentries : validEnum scalar map with
    | none => simp [hkey, hentries] at henum
    | some entries =>
      have hfilter := filter_eq_some_iff.mp hentries
      rw [hvalue, bind_some] at hfilter
      have harray : value = .array entries := by
        cases value with
        | array items => exact congrArg Value.array (Option.some.inj hfilter.1)
        | _ => cases hfilter.1
      exact ⟨entries, harray, rfl, all_eq_true.mp (of_decide_eq_true hfilter.2).2⟩
  refine ⟨fun value hvalue => ?_, fun literal hliteral => ?_,
    fun literal entries hliteral hentries => ?_⟩
  · obtain ⟨entries, harray, -, hall⟩ := hvalid value hvalue
    exact ⟨entries, harray, hall⟩
  · rw [hliteral] at hconst
    by_contra hmatch
    simp [hmatch] at hconst
  · obtain ⟨found, harray, hfound, -⟩ := hvalid _ hentries
    obtain rfl : entries = found := Value.array.inj harray
    rw [hliteral] at hconst
    simp only [hfound] at hconst
    split at hconst
    · cases hconst
    · by_contra hany
      simp [hany] at hconst

theorem parse_eq_some {text : String} {schemaType : JsonSchemaType}
    (hparse : JsonSchemaType.parse text = some schemaType) : text = schemaType.text := by
  unfold JsonSchemaType.parse at hparse
  split_ifs at hparse <;> cases hparse <;> assumption

theorem supported_of_eq_nil {schema : Value} {path : String}
    (hnil : checkSchemaNode schema path = []) : Supported schema := by
  induction hsize : sizeOf schema using Nat.strong_induction_on generalizing schema path with
  | _ size ih =>
    cases schema with
    | object map =>
      have ih : ∀ {child : Value} {path : String}, sizeOf child < sizeOf map →
          checkSchemaNode child path = [] → Supported child := by
        intro child path hlt hchild
        refine ih (sizeOf child) ?_ hchild rfl
        rw [← hsize, Value.object.sizeOf_spec]
        omega
      rw [checkSchemaNode, append_eq_nil_iff, append_eq_nil_iff] at hnil
      obtain ⟨-, hnil⟩ := hnil
      split at hnil
      · cases hnil
      next hboth =>
      split at hnil
      next hneither =>
        rw [forbidden_eq_nil] at hnil
        refine .any map fun key hkey => ?_
        rcases mem_cons.mp hkey with rfl | hkey
        · exact hasKey_eq_false.1 hneither.1
        rcases mem_cons.mp hkey with rfl | hkey
        · exact hasKey_eq_false.1 hneither.2
        · exact hnil key hkey
      next hsome =>
      split at hnil
      next hone =>
        rw [append_eq_nil_iff, forbidden_eq_nil] at hnil
        obtain ⟨hbranches, habsent⟩ := hnil
        have htype : map.lookup "type" = none :=
          hasKey_eq_false.1 fun htype => hboth ⟨htype, hone⟩
        split at hbranches
        next branches hlookup =>
          split at hbranches
          · refine .oneOf map branches hlookup htype habsent fun branch hbranch => ?_
            obtain ⟨index, hindex⟩ := mem_iff_getElem?.mp hbranch
            have hzip : (branch, index) ∈ branches.zipIdx := mk_mem_zipIdx_iff_getElem?.mpr hindex
            exact ih (sizeOf_lt_of_branch hlookup hbranch)
              (flatMap_eq_nil_iff.mp hbranches ⟨_, hzip⟩ (mem_attach _ _))
          · cases hbranches
        · cases hbranches
      next hone =>
      have hone : map.lookup "oneOf" = none := hasKey_eq_false.1 hone
      split at hnil
      · split at hnil <;> cases hnil
      next schemaType hschemaType =>
      obtain ⟨text, htext, hparse⟩ := bind_eq_some_iff.mp hschemaType
      obtain ⟨value, hvalue, hstr⟩ := bind_eq_some_iff.mp htext
      have htype : map.lookup "type" = some (.string schemaType.text) := by
        cases value with
        | string found =>
          rw [hvalue, ← parse_eq_some hparse]
          exact congrArg (some ∘ Value.string) (Option.some.inj hstr)
        | _ => cases hstr
      rw [append_eq_nil_iff, forbidden_eq_nil] at hnil
      obtain ⟨habsent, hnil⟩ := hnil
      split at hnil
      · rw [append_eq_nil_iff] at hnil
        obtain ⟨hproperties, htail⟩ := hnil
        have hrequired : ∀ value, map.lookup "required" = some value →
            ∃ names, value = .array names := by
          intro value hvalue
          rw [checkObjectSchemaTail, hvalue, append_eq_nil_iff] at htail
          cases value with
          | array names => exact ⟨names, rfl⟩
          | _ => cases htail.1
        have habsent : ∀ key ∈ ["items", "enum", "const"], map.lookup key = none :=
          fun key hkey => habsent key (by revert key; decide)
        split at hproperties
        next entries hentries =>
          refine .object map entries htype hone habsent (Or.inr hentries) hrequired
            fun entry hentry => ?_
          exact ih (sizeOf_lt_of_property hentries hentry)
            (flatMap_eq_nil_iff.mp hproperties ⟨entry, hentry⟩ (mem_attach _ _))
        · cases hproperties
        next hnone =>
          exact .object map [] htype hone habsent (Or.inl ⟨hnone, rfl⟩) hrequired
            fun _ h => absurd h not_mem_nil
      · refine .array map htype hone (fun key hkey => habsent key (by revert key; decide))
          fun item hitem => ?_
        split at hnil
        next found hfound =>
          obtain rfl := mem_unique hitem hfound
          exact ih (sizeOf_lt_of_lookup hitem) hnil
        next hnone =>
          rw [hnone] at hitem
          cases hitem
      next hobject harray =>
        refine .scalar map schemaType ⟨hobject, harray⟩ htype hone (fun key hkey => ?_)
          (scalarNode_of_eq_nil hnil)
        refine habsent key ?_
        cases schemaType with
        | object => exact absurd rfl hobject
        | array => exact absurd rfl harray
        | string | number | integer | boolean | null => revert key; decide
    | null | bool _ | number _ | string _ | array _ => simp [checkSchemaNode] at hnil

end Acceptance

section Scalars

theorem parse_text (schemaType : JsonSchemaType) :
    JsonSchemaType.parse schemaType.text = some schemaType := by
  cases schemaType <;> decide

theorem Number.toRat_eq_of_same {a b : Number} (hsame : a.same b = true) : a.toRat = b.toRat := by
  cases a <;> cases b <;> simp_all [Number.same, Number.toRat]

theorem Number.same_comm (a b : Number) : a.same b = b.same a := by
  cases a <;> cases b <;> simp [Number.same, eq_comm]

theorem Number.same_trans {a b c : Number} (hab : a.same b = true) (hbc : b.same c = true) :
    a.same c = true := by
  cases a <;> cases b <;> cases c <;> simp_all [Number.same]

def Value.IsScalar : Value → Prop
  | .array _ | .object _ => False
  | _ => True

variable {value literal other : Value}

variable {scalar : JsonSchemaType}

theorem isScalar_of_scalarMatches (hmatch : scalarMatches scalar value = true) :
    value.IsScalar := by
  cases value <;> cases scalar <;> trivial

theorem equals_of_same (hscalar : literal.IsScalar) (hsame : literal.same value = true) :
    literal.equals value = true := by
  cases literal <;> cases value <;>
    simp_all [Value.same, Value.equals, Value.sameBy, Value.IsScalar]
  exact Number.toRat_eq_of_same hsame

theorem same_comm (hscalar : literal.IsScalar) : literal.same value = value.same literal := by
  cases literal <;> cases value <;>
    simp_all [Value.same, Value.sameBy, Value.IsScalar, Number.same_comm, Bool.beq_comm]

theorem same_trans (hscalar : other.IsScalar) (hfirst : other.same literal = true)
    (hsecond : literal.same value = true) : other.same value = true := by
  cases other <;> cases literal <;> cases value <;>
    simp_all [Value.same, Value.sameBy, Value.IsScalar]
  exact Number.same_trans hfirst hsecond

theorem equals_trans (hscalar : other.IsScalar) (hfirst : other.equals literal = true)
    (hsecond : literal.equals value = true) : other.equals value = true := by
  cases other <;> cases literal <;> cases value <;>
    simp_all [Value.equals, Value.sameBy, Value.IsScalar]

theorem same_of_equals (hscalar : literal.IsScalar) (hequals : literal.equals value = true)
    (hnumber : ∀ number, value ≠ .number number) : literal.same value = true := by
  cases literal <;> cases value <;>
    simp_all [Value.same, Value.equals, Value.sameBy, Value.IsScalar]

theorem scalarMatches_iff (hscalar : scalar.IsScalar) :
    scalarMatches scalar value = true ↔ HasType scalar value := by
  cases scalar with
  | object => exact absurd rfl hscalar.1
  | array => exact absurd rfl hscalar.2
  | string | boolean | null => cases value <;> simp [scalarMatches, HasType]
  | number => cases value <;> simp [scalarMatches, isJsonNumber, HasType]
  | integer =>
    cases value with
    | number number => cases number <;> simp [scalarMatches, isInteger, HasType,
      Number.toRat, Rat.isInt]
    | _ => simp [scalarMatches, isInteger, HasType]

/-- A value that equals a literal of a type is of the type, but for negative zero. -/
theorem hasType_of_equals (hscalar : scalar.IsScalar)
    (hliteral : scalarMatches scalar literal = true) (hequals : literal.equals value = true)
    (hzero : value ≠ .number .negativeZero) : HasType scalar value := by
  rw [scalarMatches_iff hscalar] at hliteral
  cases scalar with
  | object => exact absurd rfl hscalar.1
  | array => exact absurd rfl hscalar.2
  | string | boolean | null | number | integer =>
    cases literal <;> cases value <;> simp_all [HasType, Value.equals, Value.sameBy]

end Scalars

section Validity

variable (print : Value → String) {node : List (String × Value)} {value : Value} {path : String}

theorem countP_eq_one_iff {α : Type} (test : α → Bool) (branches : List α) :
    branches.countP test = 1 ↔ ∃! index : Fin branches.length, test (branches.get index) = true := by
  induction branches with
  | nil => exact ⟨(fun h => by cases h), fun ⟨index, _⟩ => index.elim0⟩
  | cons first rest ih =>
    rw [countP_cons]
    by_cases hfirst : test first = true
    · rw [if_pos hfirst, Nat.add_eq_right, countP_eq_zero]
      constructor
      · intro hnone
        refine ⟨0, hfirst, fun index hindex => ?_⟩
        cases index using Fin.cases with
        | zero => rfl
        | succ index => exact absurd hindex (hnone _ (get_mem rest index))
      · rintro ⟨index, hindex, hunique⟩ branch hbranch hpasses
        obtain ⟨later, rfl⟩ := mem_iff_get.mp hbranch
        have hzero : (0 : Fin (rest.length + 1)) = index := hunique 0 hfirst
        have hlater : later.succ = index := hunique later.succ hpasses
        exact Fin.succ_ne_zero later (hlater.trans hzero.symm)
    · rw [if_neg hfirst, Nat.add_zero, ih]
      constructor
      · rintro ⟨index, hindex, hunique⟩
        refine ⟨index.succ, hindex, fun other hother => ?_⟩
        cases other using Fin.cases with
        | zero => exact absurd hother hfirst
        | succ other => exact congrArg Fin.succ (hunique other hother)
      · rintro ⟨index, hindex, hunique⟩
        cases index using Fin.cases with
        | zero => exact absurd hindex hfirst
        | succ index =>
          exact ⟨index, hindex, fun other hother =>
            Fin.succ_inj.mp (hunique other.succ hother)⟩

theorem constViolations_eq_nil : constViolations print node value path = [] ↔
    ∀ literal, node.lookup "const" = some literal → value.same literal := by
  rw [constViolations]
  split
  next declared hdeclared => simp [hdeclared]
  next hnone => simp [hnone]

theorem scalarConstraintViolations_eq_nil :
    scalarConstraintViolations print node value path = [] ↔
      (∀ entries, node.lookup "enum" = some (.array entries) →
        ∃ entry ∈ entries, entry.same value) ∧
      ∀ literal, node.lookup "const" = some literal → value.same literal := by
  rw [scalarConstraintViolations]
  split
  next allowed hallowed =>
    obtain ⟨found, hfound, harray⟩ := bind_eq_some_iff.mp hallowed
    cases found with
    | array entries =>
      obtain rfl : entries = allowed := Option.some.inj harray
      split
      next hany =>
        rw [constViolations_eq_nil]
        simp_all
      next hnone => simp_all
    | _ => cases harray
  next hnone =>
    rw [constViolations_eq_nil, iff_and_self]
    intro _ entries hentries
    rw [hentries] at hnone
    cases hnone

theorem missingProperties_eq_nil {record : List (String × Value)} :
    missingProperties node record path = [] ↔
      ∀ names, node.lookup "required" = some (.array names) →
        ∀ name, .string name ∈ names → hasKey record name := by
  rw [missingProperties]
  split
  next required hrequired =>
    obtain ⟨found, hfound, harray⟩ := bind_eq_some_iff.mp hrequired
    cases found with
    | array names =>
      obtain rfl : names = required := Option.some.inj harray
      have hstr : ∀ name, name ∈ names.filterMap Value.asStr ↔ .string name ∈ names := by
        intro name
        rw [mem_filterMap]
        constructor
        · rintro ⟨entry, hentry, htext⟩
          cases entry with
          | string text => exact Option.some.inj htext ▸ hentry
          | _ => cases htext
        · exact fun hname => ⟨_, hname, rfl⟩
      simp [hfound, hstr, filter_eq_nil_iff]
    | _ => cases harray
  next hnone =>
    refine iff_of_true rfl fun names hnames => ?_
    rw [hnames] at hnone
    cases hnone

theorem undeclaredProperties_eq_nil {record : List (String × Value)} :
    undeclaredProperties node record path = [] ↔
      (node.lookup "additionalProperties" = some (.bool false) → ∀ field ∈ record, ∃ properties,
        node.lookup "properties" = some (.object properties) ∧ hasKey properties field.1) := by
  rw [undeclaredProperties]
  split
  next hfalse =>
    have hdeclared : ∀ key, hasKey (((node.lookup "properties").bind Value.asObject).getD []) key ↔
        ∃ properties, node.lookup "properties" = some (.object properties) ∧ hasKey properties key := by
      intro key
      cases hproperties : node.lookup "properties" with
      | none => simp [hasKey]
      | some found => cases found <;> simp [hasKey, Value.asObject]
    simp [hfalse, hdeclared, filter_eq_nil_iff]
  next hother => exact iff_of_true rfl fun hfalse => absurd hfalse hother

theorem checkValue_any (hone : node.lookup "oneOf" = none) (htype : node.lookup "type" = none) :
    checkValue print (.object node) value path = [] := by
  rw [checkValue.eq_def print (.object node) value path]
  dsimp only
  split
  next hbranches =>
    rw [hone] at hbranches
    cases hbranches
  · rw [htype]
    rfl

theorem checkValue_oneOf {branches : List Value}
    (hbranches : node.lookup "oneOf" = some (.array branches)) :
    checkValue print (.object node) value path = [] ↔
      ∃! index : Fin branches.length, checkValue print (branches.get index) value path = [] := by
  rw [checkValue.eq_def print (.object node) value path]
  dsimp only
  split
  next found hfound =>
    obtain rfl : branches = found := Value.array.inj (mem_unique hbranches hfound)
    have hcount : (branches.attach.countP fun branch =>
        (checkValue print branch.1 value path).isEmpty) =
          branches.countP fun branch => (checkValue print branch value path).isEmpty :=
      countP_attach (p := fun branch => (checkValue print branch value path).isEmpty)
    simp only [hcount]
    split
    next hone => simpa using (countP_eq_one_iff _ branches).mp hone
    next hother =>
      refine iff_of_false (cons_ne_nil _ _) fun hunique => hother ?_
      exact (countP_eq_one_iff _ branches).mpr (by simpa using hunique)
  next hnone => exact absurd hbranches (hnone branches)

theorem checkValue_object (hone : node.lookup "oneOf" = none)
    (htype : node.lookup "type" = some (.string "object")) {properties : List (String × Value)}
    (hproperties : node.lookup "properties" = none ∧ properties = [] ∨
      node.lookup "properties" = some (.object properties)) :
    checkValue print (.object node) value path = [] ↔ ∃ record, value = .object record ∧
      missingProperties node record path = [] ∧
      (∀ property ∈ properties, ∀ child, record.lookup property.1 = some child →
        checkValue print property.2 child (propertyPath path property.1) = []) ∧
      undeclaredProperties node record path = [] := by
  rw [checkValue.eq_def print (.object node) value path]
  dsimp only
  split
  next hbranches =>
    rw [hone] at hbranches
    cases hbranches
  next =>
  rw [htype]
  simp only [bind_some, Value.asStr, JsonSchemaType.parse, if_true]
  cases value with
  | object record =>
    simp only [append_eq_nil_iff, Value.object.injEq, exists_eq_left', and_assoc]
    refine and_congr_right fun _ => and_congr_left fun _ => ?_
    split
    next found hfound =>
      have hsame : properties = found := by
        rcases hproperties with ⟨hnone, -⟩ | hsome
        · rw [hnone] at hfound
          cases hfound
        · exact Value.object.inj (mem_unique hsome hfound)
      subst hsame
      rw [flatMap_eq_nil_iff]
      constructor
      · intro hall property hproperty child hchild
        have hchecked := hall ⟨property, hproperty⟩ (mem_attach _ _)
        simp only [hchild] at hchecked
        exact hchecked
      · rintro hall ⟨property, hproperty⟩ -
        show (match record.lookup property.1 with
          | some child => checkValue print property.2 child (propertyPath path property.1)
          | none => []) = []
        split
        next child hchild => exact hall property hproperty child hchild
        · rfl
    next hother =>
      have hempty : properties = [] := by
        rcases hproperties with ⟨-, hempty⟩ | hsome
        · exact hempty
        · exact absurd hsome (hother properties)
      subst hempty
      exact iff_of_true rfl fun _ h => absurd h not_mem_nil
  | null | bool _ | number _ | string _ | array _ => simp

theorem checkValue_array (hone : node.lookup "oneOf" = none)
    (htype : node.lookup "type" = some (.string "array")) :
    checkValue print (.object node) value path = [] ↔ ∃ items, value = .array items ∧
      ∀ item, node.lookup "items" = some item → ∀ entry ∈ items.zipIdx,
        checkValue print item entry.1 (path ++ "[" ++ toString entry.2 ++ "]") = [] := by
  rw [checkValue.eq_def print (.object node) value path]
  dsimp only
  split
  next hbranches =>
    rw [hone] at hbranches
    cases hbranches
  next =>
  rw [htype]
  have hparse : JsonSchemaType.parse "array" = some .array := by decide
  simp only [bind_some, Value.asStr, hparse]
  cases value with
  | array items =>
    simp only [Value.array.injEq, exists_eq_left']
    split
    next item hitem => simp [hitem, flatMap_eq_nil_iff]
    next hnone => simp [hnone]
  | null | bool _ | number _ | string _ | object _ => simp

variable {scalar : JsonSchemaType}

theorem checkValue_scalar (hscalar : scalar.IsScalar) (hone : node.lookup "oneOf" = none)
    (htype : node.lookup "type" = some (.string scalar.text)) :
    checkValue print (.object node) value path = [] ↔ HasType scalar value ∧
      (∀ entries, node.lookup "enum" = some (.array entries) →
        ∃ entry ∈ entries, entry.same value) ∧
      ∀ literal, node.lookup "const" = some literal → value.same literal := by
  have hvalue : checkValue print (.object node) value path =
      checkScalar print scalar node value path := by
    rw [checkValue.eq_def print (.object node) value path]
    dsimp only
    split
    next hbranches =>
      rw [hone] at hbranches
      cases hbranches
    next =>
    rw [htype]
    simp only [bind_some, Value.asStr, parse_text]
    cases scalar with
    | object => exact absurd rfl hscalar.1
    | array => exact absurd rfl hscalar.2
    | string | number | integer | boolean | null => rfl
  rw [hvalue, ← scalarMatches_iff hscalar]
  unfold checkScalar
  split
  next hmatch =>
    rw [scalarConstraintViolations_eq_nil]
    exact (and_iff_right hmatch).symm
  next hmatch =>
    refine iff_of_false ?_ fun h => hmatch h.1
    cases scalar <;> cases value <;> exact cons_ne_nil _ _

/-- The keywords of a node that say something, one by one. -/
structure Keywords (node : List (String × Value)) (value : Value) : Prop where
  type : ∀ name type, node.lookup "type" = some (.string name) →
    JsonSchemaType.parse name = some type → HasType type value
  properties : ∀ properties record, node.lookup "properties" = some (.object properties) →
    value = .object record → ∀ property ∈ properties, ∀ child,
      record.lookup property.1 = some child → Satisfies property.2 child
  required : ∀ names record, node.lookup "required" = some (.array names) →
    value = .object record → ∀ name, .string name ∈ names → hasKey record name
  additional : ∀ record, node.lookup "additionalProperties" = some (.bool false) →
    value = .object record → ∀ field ∈ record, ∃ properties,
      node.lookup "properties" = some (.object properties) ∧ hasKey properties field.1
  items : ∀ item entries, node.lookup "items" = some item → value = .array entries →
    ∀ entry ∈ entries, Satisfies item entry
  enum : ∀ literals, node.lookup "enum" = some (.array literals) →
    ∃ literal ∈ literals, literal.equals value
  const : ∀ literal, node.lookup "const" = some literal → literal.equals value
  oneOf : ∀ branches, node.lookup "oneOf" = some (.array branches) →
    ∃! index : Fin branches.length, Satisfies (branches.get index) value

theorem satisfies_object_iff : Satisfies (.object node) value ↔ Keywords node value := by
  rw [Satisfies]
  constructor
  · rintro ⟨htype, hproperties, hrequired, hadditional, hitems, henum, hconst, hone⟩
    exact ⟨htype, hproperties, hrequired, hadditional, hitems, henum, hconst, hone⟩
  · rintro ⟨htype, hproperties, hrequired, hadditional, hitems, henum, hconst, hone⟩
    exact ⟨htype, hproperties, hrequired, hadditional, hitems, henum, hconst, hone⟩

theorem Keywords.hasType (hkeywords : Keywords node value) (schemaType : JsonSchemaType)
    (htype : node.lookup "type" = some (.string schemaType.text)) : HasType schemaType value :=
  hkeywords.type _ _ htype (parse_text schemaType)

theorem absent {Conclusion : Prop} {key : String} {found : Value} (hnone : node.lookup key = none)
    (hsome : node.lookup key = some found) : Conclusion := by
  rw [hnone] at hsome
  cases hsome

theorem keywords_any (habsent : ∀ key ∈ CONSTRAINT_KEYWORDS, node.lookup key = none) :
    Keywords node value where
  type _ _ h := absent (habsent "type" (by decide)) h
  properties _ _ h := absent (habsent "properties" (by decide)) h
  required _ _ h := absent (habsent "required" (by decide)) h
  additional _ h := absent (habsent "additionalProperties" (by decide)) h
  items _ _ h := absent (habsent "items" (by decide)) h
  enum _ h := absent (habsent "enum" (by decide)) h
  const _ h := absent (habsent "const" (by decide)) h
  oneOf _ h := absent (habsent "oneOf" (by decide)) h

theorem keywords_oneOf {branches : List Value}
    (hbranches : node.lookup "oneOf" = some (.array branches)) (htype : node.lookup "type" = none)
    (habsent : ∀ key ∈ ONE_OF_SIBLING_KEYWORDS, node.lookup key = none) :
    Keywords node value ↔
      ∃! index : Fin branches.length, Satisfies (branches.get index) value := by
  constructor
  · exact fun hkeywords => hkeywords.oneOf branches hbranches
  · intro hone
    exact {
      type := fun _ _ h => absent htype h
      properties := fun _ _ h => absent (habsent "properties" (by decide)) h
      required := fun _ _ h => absent (habsent "required" (by decide)) h
      additional := fun _ h => absent (habsent "additionalProperties" (by decide)) h
      items := fun _ _ h => absent (habsent "items" (by decide)) h
      enum := fun _ h => absent (habsent "enum" (by decide)) h
      const := fun _ h => absent (habsent "const" (by decide)) h
      oneOf := fun found hfound => by
        obtain rfl : branches = found :=
          Value.array.inj (mem_unique hbranches hfound)
        exact hone }

theorem type_of_lookup (schemaType : JsonSchemaType)
    (htype : node.lookup "type" = some (.string schemaType.text)) (hvalue : HasType schemaType value) :
    ∀ name type, node.lookup "type" = some (.string name) →
      JsonSchemaType.parse name = some type → HasType type value := by
  intro name type hname hparse
  obtain rfl : schemaType.text = name :=
    Value.string.inj (mem_unique htype hname)
  obtain rfl : schemaType = type := Option.some.inj ((parse_text schemaType).symm.trans hparse)
  exact hvalue

theorem keywords_object {properties : List (String × Value)}
    (htype : node.lookup "type" = some (.string "object")) (hone : node.lookup "oneOf" = none)
    (habsent : ∀ key ∈ ["items", "enum", "const"], node.lookup key = none)
    (hproperties : node.lookup "properties" = none ∧ properties = [] ∨
      node.lookup "properties" = some (.object properties)) :
    Keywords node value ↔ ∃ record, value = .object record ∧
      (∀ names, node.lookup "required" = some (.array names) →
        ∀ name, .string name ∈ names → hasKey record name) ∧
      (∀ property ∈ properties, ∀ child, record.lookup property.1 = some child →
        Satisfies property.2 child) ∧
      (node.lookup "additionalProperties" = some (.bool false) → ∀ field ∈ record, ∃ properties,
        node.lookup "properties" = some (.object properties) ∧ hasKey properties field.1) := by
  constructor
  · intro hkeywords
    obtain ⟨record, rfl⟩ := hkeywords.hasType .object htype
    refine ⟨record, rfl, fun names hnames => hkeywords.required names record hnames rfl,
      fun property hproperty => ?_, fun hfalse => hkeywords.additional record hfalse rfl⟩
    rcases hproperties with ⟨-, rfl⟩ | hsome
    · cases hproperty
    · exact hkeywords.properties properties record hsome rfl property hproperty
  · rintro ⟨record, rfl, hrequired, hchildren, hadditional⟩
    exact {
      type := type_of_lookup .object htype ⟨record, rfl⟩
      properties := fun found other hfound hother => by
        cases hother
        rcases hproperties with ⟨hnone, -⟩ | hsome
        · exact absent hnone hfound
        · obtain rfl : properties = found :=
            Value.object.inj (mem_unique hsome hfound)
          exact hchildren
      required := fun names other hnames hother => by
        cases hother
        exact hrequired names hnames
      additional := fun other hfalse hother => by
        cases hother
        exact hadditional hfalse
      items := fun _ _ h => absent (habsent "items" (by decide)) h
      enum := fun _ h => absent (habsent "enum" (by decide)) h
      const := fun _ h => absent (habsent "const" (by decide)) h
      oneOf := fun _ h => absent hone h }

theorem keywords_array (htype : node.lookup "type" = some (.string "array"))
    (hone : node.lookup "oneOf" = none)
    (habsent : ∀ key ∈ ["properties", "required", "additionalProperties", "enum", "const"],
      node.lookup key = none) :
    Keywords node value ↔ ∃ items, value = .array items ∧
      ∀ item, node.lookup "items" = some item → ∀ entry ∈ items, Satisfies item entry := by
  constructor
  · intro hkeywords
    obtain ⟨items, rfl⟩ := hkeywords.hasType .array htype
    exact ⟨items, rfl, fun item hitem => hkeywords.items item items hitem rfl⟩
  · rintro ⟨items, rfl, hitems⟩
    exact {
      type := type_of_lookup .array htype ⟨items, rfl⟩
      properties := fun _ _ h => absent (habsent "properties" (by decide)) h
      required := fun _ _ h => absent (habsent "required" (by decide)) h
      additional := fun _ h => absent (habsent "additionalProperties" (by decide)) h
      items := fun item entries hitem hentries => by
        cases hentries
        exact hitems item hitem
      enum := fun _ h => absent (habsent "enum" (by decide)) h
      const := fun _ h => absent (habsent "const" (by decide)) h
      oneOf := fun _ h => absent hone h }

theorem keywords_scalar
    (htype : node.lookup "type" = some (.string scalar.text)) (hone : node.lookup "oneOf" = none)
    (habsent : ∀ key ∈ ["properties", "required", "additionalProperties", "items"],
      node.lookup key = none) :
    Keywords node value ↔ HasType scalar value ∧
      (∀ entries, node.lookup "enum" = some (.array entries) →
        ∃ entry ∈ entries, entry.equals value) ∧
      ∀ literal, node.lookup "const" = some literal → literal.equals value := by
  constructor
  · exact fun hkeywords => ⟨hkeywords.hasType scalar htype, hkeywords.enum, hkeywords.const⟩
  · rintro ⟨hvalue, henum, hconst⟩
    exact {
      type := type_of_lookup scalar htype hvalue
      properties := fun _ _ h => absent (habsent "properties" (by decide)) h
      required := fun _ _ h => absent (habsent "required" (by decide)) h
      additional := fun _ h => absent (habsent "additionalProperties" (by decide)) h
      items := fun _ _ h => absent (habsent "items" (by decide)) h
      enum := henum
      const := hconst
      oneOf := fun _ h => absent hone h }

/-- The forms of the literals of a node agree with a number. -/
def LiteralsAgree (node : List (String × Value)) (value : Value) : Prop :=
  ∀ number, value = .number number → number ≠ .negativeZero →
    (∃ literal ∈ literals node, literal.equals value) → ∃ literal ∈ literals node, literal.same value

theorem literals_iff (hscalar : scalar.IsScalar) (hnode : ScalarNode scalar node)
    (hvalue : HasType scalar value) (hforms : LiteralsAgree node value) :
    ((∀ entries, node.lookup "enum" = some (.array entries) → ∃ entry ∈ entries, entry.same value) ∧
        ∀ literal, node.lookup "const" = some literal → value.same literal) ↔
      (∀ entries, node.lookup "enum" = some (.array entries) →
        ∃ entry ∈ entries, entry.equals value) ∧
        ∀ literal, node.lookup "const" = some literal → literal.equals value := by
  have hentry : ∀ entries, node.lookup "enum" = some (.array entries) → ∀ entry ∈ entries,
      entry.IsScalar := by
    intro entries hentries entry hmem
    obtain ⟨found, hfound, hall⟩ := hnode.enum _ hentries
    cases hfound
    exact isScalar_of_scalarMatches (hall entry hmem)
  have hliteral : ∀ literal, node.lookup "const" = some literal → literal.IsScalar :=
    fun literal h => isScalar_of_scalarMatches (hnode.const literal h)
  have hself : value.IsScalar := isScalar_of_scalarMatches ((scalarMatches_iff hscalar).mpr hvalue)
  constructor
  · rintro ⟨henum, hconst⟩
    refine ⟨fun entries hentries => ?_, fun literal h => ?_⟩
    · obtain ⟨entry, hmem, hsame⟩ := henum entries hentries
      exact ⟨entry, hmem, equals_of_same (hentry entries hentries entry hmem) hsame⟩
    · exact equals_of_same (hliteral literal h) (same_comm hself ▸ hconst literal h)
  · rintro ⟨henum, hconst⟩
    by_cases hnumber : ∃ number, value = .number number
    · obtain ⟨number, rfl⟩ := hnumber
      have hzero : number ≠ .negativeZero := by
        rintro rfl
        have hmatch := (scalarMatches_iff hscalar).mpr hvalue
        cases scalar <;> simp [scalarMatches, isJsonNumber, isInteger] at hmatch
      have hforms := hforms number rfl hzero
      cases hfound : node.lookup "const" with
      | some constant =>
        have hliterals : literals node = [constant] := by rw [literals, hfound]
        simp only [hliterals, mem_singleton, exists_eq_left] at hforms
        have hsame := hforms (hconst constant hfound)
        refine ⟨fun entries hentries => ?_, fun literal h => ?_⟩
        · obtain ⟨entry, hmem, hentrySame⟩ :=
            any_eq_true.mp (hnode.both constant entries hfound hentries)
          exact ⟨entry, hmem, same_trans (hentry entries hentries entry hmem) hentrySame hsame⟩
        · cases h
          exact same_comm hself ▸ hsame
      | none =>
        refine ⟨fun entries hentries => ?_, fun literal h => by cases h⟩
        have hliterals : literals node = entries := by
          rw [literals, hfound, hentries]
          rfl
        rw [hliterals] at hforms
        exact hforms (henum entries hentries)
    · have hother : ∀ number, value ≠ .number number := fun number h => hnumber ⟨number, h⟩
      refine ⟨fun entries hentries => ?_, fun literal h => ?_⟩
      · obtain ⟨entry, hmem, hequals⟩ := henum entries hentries
        exact ⟨entry, hmem, same_of_equals (hentry entries hentries entry hmem) hequals hother⟩
      · exact same_comm hself ▸ same_of_equals (hliteral literal h) (hconst literal h) hother

theorem formsAgree_object_iff : FormsAgree (.object node) value ↔ LiteralsAgree node value ∧
    (∀ properties record, node.lookup "properties" = some (.object properties) →
      value = .object record → ∀ property ∈ properties, ∀ child,
        record.lookup property.1 = some child → FormsAgree property.2 child) ∧
    (∀ item entries, node.lookup "items" = some item → value = .array entries →
      ∀ entry ∈ entries, FormsAgree item entry) ∧
    ∀ branches, node.lookup "oneOf" = some (.array branches) →
      ∀ branch ∈ branches, FormsAgree branch value := by
  rw [FormsAgree]
  rfl

/-- The walk decides the meaning of a supported schema where the forms of numbers agree. -/
theorem Supported.check_iff {schema : Value} (hsupported : Supported schema) :
    ∀ (value : Value) (path : String), FormsAgree schema value →
      (checkValue print schema value path = [] ↔ Satisfies schema value) := by
  induction hsupported with
  | any node habsent =>
    intro value path _
    rw [satisfies_object_iff]
    exact iff_of_true (checkValue_any print (habsent "oneOf" (by decide)) (habsent "type" (by decide)))
      (keywords_any habsent)
  | oneOf node branches hbranches htype habsent _ ih =>
    intro value path hforms
    have hbranch := (formsAgree_object_iff.1 hforms).2.2.2 branches hbranches
    rw [satisfies_object_iff, checkValue_oneOf print hbranches, keywords_oneOf hbranches htype habsent]
    exact existsUnique_congr fun index =>
      ih _ (get_mem branches index) value path (hbranch _ (get_mem branches index))
  | object node properties htype hone habsent hproperties _ _ ih =>
    intro value path hforms
    have hchildren := (formsAgree_object_iff.1 hforms).2.1
    rw [satisfies_object_iff, checkValue_object print hone htype hproperties,
      keywords_object htype hone habsent hproperties]
    refine exists_congr fun record => and_congr_right fun hrecord => ?_
    rw [missingProperties_eq_nil, undeclaredProperties_eq_nil]
    refine and_congr_right fun _ => and_congr_left fun _ => ?_
    refine forall₂_congr fun property hproperty => forall₂_congr fun child hchild => ?_
    refine ih property hproperty child _ ?_
    rcases hproperties with ⟨-, rfl⟩ | hsome
    · cases hproperty
    · exact hchildren properties record hsome hrecord property hproperty child hchild
  | array node htype hone habsent _ ih =>
    intro value path hforms
    have hentries := (formsAgree_object_iff.1 hforms).2.2.1
    rw [satisfies_object_iff, checkValue_array print hone htype, keywords_array htype hone habsent]
    refine exists_congr fun items => and_congr_right fun hitems => ?_
    refine forall₂_congr fun item hitem => ?_
    constructor
    · intro hall entry hentry
      obtain ⟨index, hindex⟩ := mem_iff_getElem?.mp hentry
      have hzip : (entry, index) ∈ items.zipIdx := mk_mem_zipIdx_iff_getElem?.mpr hindex
      exact (ih item hitem entry _ (hentries item items hitem hitems entry hentry)).mp (hall _ hzip)
    · intro hall entry hzip
      have hentry : entry.1 ∈ items := fst_mem_of_mem_zipIdx hzip
      exact (ih item hitem entry.1 _ (hentries item items hitem hitems entry.1 hentry)).mpr
        (hall entry.1 hentry)
  | scalar node scalar hscalar htype hone habsent hnode =>
    intro value path hforms
    rw [satisfies_object_iff, checkValue_scalar print hscalar hone htype,
      keywords_scalar htype hone habsent]
    exact and_congr_right fun hvalue =>
      literals_iff hscalar hnode hvalue (formsAgree_object_iff.1 hforms).1

theorem text_injective {first second : JsonSchemaType} (htext : first.text = second.text) :
    first = second :=
  Option.some.inj ((parse_text first).symm.trans (htext ▸ parse_text second))

section
variable (hsupported : Supported (.object node)) (hscalar : scalar.IsScalar)
    (htype : node.lookup "type" = some (.string scalar.text))
include hsupported hscalar htype

theorem Supported.scalarNode : node.lookup "oneOf" = none ∧ ScalarNode scalar node ∧
      ∀ key ∈ ["properties", "required", "additionalProperties", "items"], node.lookup key = none := by
  have hsame : ∀ other : JsonSchemaType, node.lookup "type" = some (.string other.text) →
      scalar = other :=
    fun other hother => text_injective (Value.string.inj (mem_unique htype hother))
  cases hsupported with
  | any _ habsent => exact absent (habsent "type" (by decide)) htype
  | oneOf _ _ _ hnone => exact absent hnone htype
  | object _ _ hobject => exact absurd (hsame .object hobject) hscalar.1
  | array _ harray => exact absurd (hsame .array harray) hscalar.2
  | scalar _ other _ hother hone habsent hnode =>
    obtain rfl := hsame other hother
    exact ⟨hone, hnode, habsent⟩

/-- At a node of a scalar type, the walk decides the meaning exactly where the forms agree. -/
theorem Supported.scalar_exact :
    (checkValue print (.object node) value path = [] ↔ Satisfies (.object node) value) ↔
      FormsAgree (.object node) value := by
  obtain ⟨hone, hnode, habsent⟩ := hsupported.scalarNode hscalar htype
  refine ⟨fun hdecides => formsAgree_object_iff.2 ⟨?_, ?_, ?_, ?_⟩,
    hsupported.check_iff print value path⟩
  · rintro number rfl hzero ⟨literal, hliteral, hequals⟩
    have hzero : Value.number number ≠ .number .negativeZero := fun h => hzero (Value.number.inj h)
    rw [satisfies_object_iff, checkValue_scalar print hscalar hone htype,
      keywords_scalar htype hone habsent] at hdecides
    cases hfound : node.lookup "const" with
    | some constant =>
      have hliterals : literals node = [constant] := by rw [literals, hfound]
      rw [hliterals, mem_singleton] at hliteral
      subst hliteral
      have hvalue := hasType_of_equals hscalar (hnode.const literal hfound) hequals hzero
      have hself : (Value.number number).IsScalar := trivial
      have hpasses := hdecides.mpr ⟨hvalue, fun entries hentries => ?_, fun other hother => ?_⟩
      · exact ⟨literal, hliterals ▸ mem_singleton_self _,
          same_comm hself ▸ hpasses.2.2 literal hfound⟩
      · obtain ⟨entry, hmem, hsame⟩ :=
          any_eq_true.mp (hnode.both literal entries hfound hentries)
        obtain ⟨_, harray, hall⟩ := hnode.enum _ hentries
        cases harray
        have hentry := isScalar_of_scalarMatches (hall entry hmem)
        exact ⟨entry, hmem, equals_trans hentry (equals_of_same hentry hsame) hequals⟩
      · obtain rfl := mem_unique hfound hother
        exact hequals
    | none =>
      have hliterals : literals node = ((node.lookup "enum").bind Value.asArray).getD [] := by
        rw [literals, hfound]
      cases henum : node.lookup "enum" with
      | none =>
        rw [hliterals, henum] at hliteral
        cases hliteral
      | some found =>
        obtain ⟨entries, rfl, hall⟩ := hnode.enum found henum
        have hentries : literals node = entries := by
          rw [hliterals, henum]
          rfl
        rw [hentries] at hliteral ⊢
        have hvalue := hasType_of_equals hscalar (hall literal hliteral) hequals hzero
        have hpasses := hdecides.mpr ⟨hvalue, fun other hother => ?_, fun _ h => absent hfound h⟩
        · exact hpasses.2.1 entries henum
        · obtain rfl := Value.array.inj (mem_unique henum hother)
          exact ⟨literal, hliteral, hequals⟩
  · exact fun _ _ h => absent (habsent "properties" (by decide)) h
  · exact fun _ _ h => absent (habsent "items" (by decide)) h
  · exact fun _ h => absent hone h

end

theorem supported_of_assert {schema : Value} (hassert : assertSupportedJsonSchema schema = .ok ()) :
    Supported schema := by
  rw [assertSupportedJsonSchema] at hassert
  split at hassert
  next hempty => exact supported_of_eq_nil (isEmpty_iff.mp hempty)
  · cases hassert

/-- Of an accepted schema, the validator accepts the values that satisfy it, wherever the forms of
numbers agree; at a scalar node that is exactly where it does. -/
theorem validate_iff_satisfies {schema : Value} (hassert : assertSupportedJsonSchema schema = .ok ()) :
    (∀ (value : Value) (path : String), FormsAgree schema value →
      (validateJsonSchemaValue print schema value path = [] ↔ Satisfies schema value)) ∧
    ∀ (node : List (String × Value)) (scalar : JsonSchemaType), schema = .object node →
      scalar.IsScalar → node.lookup "type" = some (.string scalar.text) →
        ∀ (value : Value) (path : String),
          (validateJsonSchemaValue print schema value path = [] ↔ Satisfies schema value) ↔
            FormsAgree schema value := by
  have hsupported := supported_of_assert hassert
  refine ⟨hsupported.check_iff print, ?_⟩
  rintro node scalar rfl hscalar htype value path
  exact hsupported.scalar_exact print hscalar htype

def oneSchema : List (String × Value) := [("type", .string "integer"), ("const", .number (.int 1))]

def onesSchema : List (String × Value) := [("type", .string "array"), ("items", .object oneSchema)]

theorem checkSchemaNode_oneSchema (path : String) : checkSchemaNode (.object oneSchema) path = [] := by
  rw [checkSchemaNode]
  rfl

theorem assert_oneSchema : assertSupportedJsonSchema (.object oneSchema) = .ok () := by
  rw [assertSupportedJsonSchema, checkSchemaNode_oneSchema]
  rfl

theorem validate_iff_satisfies_ones :
    validateJsonSchemaValue (fun _ => "") (.object onesSchema) (.array [.number (.int 1)]) "" = [] ↔
      Satisfies (.object onesSchema) (.array [.number (.int 1)]) := by
  have hassert : assertSupportedJsonSchema (.object onesSchema) = .ok () := by
    have hnode : checkSchemaNode (.object onesSchema) "schema" = [] := by
      rw [checkSchemaNode]
      exact checkSchemaNode_oneSchema _
    rw [assertSupportedJsonSchema, hnode]
    rfl
  have hone : FormsAgree (.object oneSchema) (.number (.int 1)) := by
    refine formsAgree_object_iff.2 ⟨fun number hnumber _ _ => ?_, ?_, ?_, ?_⟩
    · exact ⟨.number (.int 1), mem_singleton_self _, rfl⟩
    · exact fun _ _ h => by cases h
    · exact fun _ _ h => by cases h
    · exact fun _ h => by cases h
  refine (validate_iff_satisfies _ hassert).1 _ _ (formsAgree_object_iff.2 ⟨?_, ?_, ?_, ?_⟩)
  · exact fun _ h => by cases h
  · exact fun _ _ h => by cases h
  · rintro item entries hitem hentries entry hentry
    cases hitem
    cases hentries
    rw [mem_singleton.mp hentry]
    exact hone
  · exact fun _ h => by cases h

/-- The integer one, written as a double, is refused. -/
theorem one_point_zero_refused :
    ¬ ∀ (print : Value → String) (schema value : Value) (path : String),
      assertSupportedJsonSchema schema = .ok () →
        (validateJsonSchemaValue print schema value path = [] ↔ Satisfies schema value) := by
  intro hall
  have hdecides := hall (fun _ => "") (.object oneSchema) (.number (.float 1)) "" assert_oneSchema
  have hscalar : JsonSchemaType.integer.IsScalar := ⟨by decide, by decide⟩
  have htype : oneSchema.lookup "type" = some (.string JsonSchemaType.integer.text) := rfl
  have hsatisfies : Satisfies (.object oneSchema) (.number (.float 1)) := by
    refine satisfies_object_iff.2 ((keywords_scalar htype rfl ?_).mpr ⟨?_, ?_, ?_⟩)
    · decide
    · exact ⟨.float 1, rfl, by decide, by decide⟩
    · exact fun _ h => by cases h
    · intro literal h
      cases h
      decide
  have hchecked := hdecides.mpr hsatisfies
  rw [validateJsonSchemaValue, checkValue_scalar _ hscalar rfl htype] at hchecked
  exact absurd (hchecked.2.2 _ rfl) (by decide)

end Validity

end Keel.Tools
