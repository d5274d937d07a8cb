import Keel.Proto.Json
import Mathlib.Algebra.Group.Nat.Defs

/-! # Fields of JSON records

Reading a record's fields the way derived deserializers do, and writing a
record that leaves out its absent fields.
-/

namespace Keel.Json

open Option

def str? : Json → Option String
  | .string value => some value
  | _ => none

def bool? : Json → Option Bool
  | .bool value => some value
  | _ => none

/-- `Value::as_i64`. -/
def i64? : Json → Option Int
  | .int value => if -2 ^ 63 ≤ value ∧ value < 2 ^ 63 then some value else none
  | _ => none

/-- An unsigned integer kept as a signed 64-bit one. -/
def u64? (json : Json) : Option Nat :=
  json.i64?.bind fun value => if 0 ≤ value then some value.toNat else none

def array? : Json → Option (List Json)
  | .array items => some items
  | _ => none

def isObject : Json → Bool
  | .object _ => true
  | _ => false

def field? (json : Json) (key : String) : Option Json :=
  match json with
  | .object fields => fields.lookup key
  | _ => none

/-- A derived record is read from an object by key, or from a list by position. -/
def member? (json : Json) (position : Nat) (key : String) : Option Json :=
  match json with
  | .object fields => fields.lookup key
  | .array items => items[position]?
  | _ => none

/-- The value can be read as a record of `width` fields. -/
def isRecord (json : Json) (width : Nat) : Bool :=
  match json with
  | .object _ => true
  | .array items => items.length ≤ width
  | _ => false

/-- A field that may be missing or null; any other value must be readable. -/
def optional? {α : Type} (read : Json → Option α) : Option Json → Option (Option α)
  | none | some .null => some none
  | some value => (read value).map some

def record (fields : List (String × Option Json)) : Json :=
  .object <| fields.filterMap fun (key, value) => value.map fun value => (key, value)

def list? {α : Type} (read : Json → Option α) (json : Json) : Option (List α) :=
  json.array?.bind fun items => items.mapM read

theorem list?_array_map {α β : Type} {read : Json → Option β} {write : α → Json} {back : α → β}
    (hread : ∀ value, read (write value) = some (back value)) (values : List α) :
    list? read (.array (values.map write)) = some (values.map back) := by
  rw [list?, array?, bind_some]
  induction values with
  | nil => rfl
  | cons value rest ih =>
    rw [List.map_cons, List.mapM_cons, hread, ih]
    rfl

theorem list?_array {α : Type} {read : Json → Option α} {write : α → Json}
    (hread : ∀ value, read (write value) = some value) (values : List α) :
    list? read (.array (values.map write)) = some values := by
  have hlist := @list?_array_map _ _ read write id hread values
  rwa [List.map_id] at hlist

theorem u64?_lt {json : Json} {value : Nat} (hvalue : json.u64? = some value) : value < 2 ^ 63 := by
  rw [u64?, bind_eq_some_iff] at hvalue
  obtain ⟨number, hnumber, hvalue⟩ := hvalue
  cases json <;> simp only [i64?, reduceCtorEq] at hnumber
  split at hnumber <;> simp only [reduceCtorEq, some.injEq] at hnumber
  split at hvalue <;> simp only [reduceCtorEq, some.injEq] at hvalue
  omega

theorem u64?_int {value : Nat} (hvalue : value < 2 ^ 63) : (Json.int value).u64? = some value := by
  rw [u64?, i64?, if_pos (by omega)]
  simp

theorem i64?_int {value : Int} (hlow : -2 ^ 63 ≤ value) (hhigh : value < 2 ^ 63) :
    (Json.int value).i64? = some value := if_pos ⟨hlow, hhigh⟩

theorem i64?_range {json : Json} {value : Int} (hvalue : json.i64? = some value) :
    -2 ^ 63 ≤ value ∧ value < 2 ^ 63 := by
  cases json <;> simp only [i64?, reduceCtorEq] at hvalue
  split at hvalue <;> simp only [reduceCtorEq, some.injEq] at hvalue
  next hrange => exact hvalue ▸ hrange

theorem optional?_some {α : Type} (read : Json → Option α) {value : Json} (hvalue : value ≠ .null) :
    optional? read (some value) = (read value).map some := by
  cases value with
  | null => exact absurd rfl hvalue
  | _ => rfl

theorem optional?_map {α : Type} {read : Json → Option α} {write : α → Json}
    (hread : ∀ value, read (write value) = some value) (hnull : ∀ value, write value ≠ .null)
    (value : Option α) : optional? read (value.map write) = some value := by
  cases value with
  | none => rfl
  | some value => rw [map_some, optional?_some read (hnull value), hread, map_some]

section Record

variable {key : String} {value : Option Json} {rest : List (String × Option Json)}

theorem member?_record_cons_self (position : Nat) :
    (record ((key, value) :: rest)).member? position key =
      value.or ((record rest).member? position key) := by
  cases value <;> simp [record, member?]

theorem member?_record_cons_of_ne {other : String} (hother : other ≠ key) (position : Nat) :
    (record ((key, value) :: rest)).member? position other =
      (record rest).member? position other := by
  cases value <;> simp [record, member?, List.lookup_cons, beq_eq_false_iff_ne.mpr hother]

theorem member?_record_nil (position : Nat) : (record []).member? position key = none := rfl

end Record

end Keel.Json
