import Mathlib.Algebra.Order.Ring.Unbundled.Rat
import Mathlib.Data.Rat.Defs
import Mathlib.Tactic.Common

/-! # JSON values and doubles

`serde_json::Value`, with the two number shapes that serde keeps apart. A
double is its value: one of the exceptional values, or the rational it denotes.
-/

namespace Keel

/-- An IEEE double by value. The sign of zero is not kept apart. -/
inductive F64 where
  | nan
  | infinite (negative : Bool)
  | finite (value : ℚ)
deriving DecidableEq

namespace F64

def isFinite : F64 → Bool
  | .finite _ => true
  | _ => false

/-- `f64::clamp(0.0, 1.0)`. NaN clamps to itself. -/
def clampUnit : F64 → F64
  | .nan => .nan
  | .infinite negative => .finite (if negative then 0 else 1)
  | .finite value => .finite (max 0 (min value 1))

end F64

/-- `serde_json::Value`; an object keeps its keys in insertion order. -/
inductive Json where
  | null
  | bool (value : Bool)
  | int (value : Int)
  | float (value : F64)
  | string (value : String)
  | array (items : List Json)
  | object (fields : List (String × Json))

namespace Json

mutual

def beq : Json → Json → Bool
  | .null, .null => true
  | .bool a, .bool b => a == b
  | .int a, .int b => a == b
  | .float a, .float b => decide (a = b)
  | .string a, .string b => a == b
  | .array as, .array bs => beqItems as bs
  | .object as, .object bs => beqFields as bs
  | _, _ => false

def beqItems : List Json → List Json → Bool
  | [], [] => true
  | a :: as, b :: bs => beq a b && beqItems as bs
  | _, _ => false

def beqFields : List (String × Json) → List (String × Json) → Bool
  | [], [] => true
  | (k, a) :: as, (l, b) :: bs => k == l && (beq a b && beqFields as bs)
  | _, _ => false

end

mutual

theorem beq_iff : ∀ a b : Json, beq a b = true ↔ a = b
  | .null, b | .bool a, b | .int a, b | .float a, b | .string a, b => by cases b <;> simp [beq]
  | .array as, b => by cases b <;> simp [beq, beqItems_iff as]
  | .object as, b => by cases b <;> simp [beq, beqFields_iff as]

theorem beqItems_iff : ∀ as bs : List Json, beqItems as bs = true ↔ as = bs
  | [], bs => by cases bs <;> simp [beqItems]
  | a :: as, bs => by
      cases bs with
      | nil => simp [beqItems]
      | cons b bs => simp [beqItems, beq_iff a b, beqItems_iff as bs]

theorem beqFields_iff :
    ∀ as bs : List (String × Json), beqFields as bs = true ↔ as = bs
  | [], bs => by cases bs <;> simp [beqFields]
  | (k, a) :: as, bs => by
      cases bs with
      | nil => simp [beqFields]
      | cons field bs =>
        obtain ⟨l, b⟩ := field
        simp [beqFields, beq_iff a b, beqFields_iff as bs, and_assoc]

end

instance : DecidableEq Json := fun a b => decidable_of_iff _ (beq_iff a b)

end Json

end Keel
