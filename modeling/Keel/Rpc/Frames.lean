import Keel.Foundation.Text
import Keel.Proto.Json

/-! # Frames of the control plane

Client and server exchange JSON objects, one a line, over two string channels. A
server frame keeps four outcomes apart by which of its optional fields is there: a
field that is absent and a field that is null both read as no value.
-/

namespace Keel

namespace Rpc

/-- The JSON library on texts. -/
structure JsonText where
  write : Json → List Char
  read : List Char → Option Json

inductive RpcError where
  | unknownMethod (method : String)
  | badParams (detail : String)
  | failed (detail : String)
  | transport (detail : String)
  | closed
deriving DecidableEq

/-- `RpcError::to_string`. -/
def RpcError.text : RpcError → String
  | .unknownMethod method => "unknown method: " ++ method
  | .badParams detail => "bad params: " ++ detail
  | .failed detail => detail
  | .transport detail => "transport: " ++ detail
  | .closed => "connection closed"

/-- A client-originated frame. -/
structure ClientFrame where
  id : Nat
  method : Option String := none
  params : Json := .null
  cancel : Bool := false

/-- A server-originated frame. -/
structure ServerFrame where
  id : Nat
  ok : Option Json := none
  err : Option String := none
  item : Option Json := none
  done : Bool := false
deriving DecidableEq

section Serde

/-- A field that is skipped when it has no value. -/
def optionalField (name : String) (value : Option Json) : List (String × Json) :=
  (value.map fun value => (name, value)).toList

/-- A flag that is skipped when it is false. -/
def flagField (name : String) (flag : Bool) : List (String × Json) :=
  if flag then [(name, .bool true)] else []

def ClientFrame.fields (frame : ClientFrame) : List (String × Json) :=
  ("id", .int frame.id) :: (optionalField "method" (frame.method.map .string) ++
    (optionalField "params" (if frame.params = .null then none else some frame.params) ++
      flagField "cancel" frame.cancel))

def ClientFrame.toJson (frame : ClientFrame) : Json := .object frame.fields

def ServerFrame.fields (frame : ServerFrame) : List (String × Json) :=
  ("id", .int frame.id) :: (optionalField "ok" frame.ok ++
    (optionalField "err" (frame.err.map .string) ++
      (optionalField "item" frame.item ++ flagField "done" frame.done)))

def ServerFrame.toJson (frame : ServerFrame) : Json := .object frame.fields

/-- A required `u64`. -/
def readId (fields : List (String × Json)) : Option Nat :=
  match fields.lookup "id" with
  | some (.int value) => if 0 ≤ value then some value.toNat else none
  | _ => none

/-- An `Option<Value>`: an absent and a null field are both no value. -/
def readOptional (fields : List (String × Json)) (name : String) : Option Json :=
  (fields.lookup name).filter (· ≠ .null)

/-- An `Option<String>`; another type is an error. -/
def readText (fields : List (String × Json)) (name : String) : Option (Option String) :=
  match readOptional fields name with
  | none => some none
  | some (.string text) => some (some text)
  | some _ => none

/-- A `bool` that defaults to false; another type is an error. -/
def readFlag (fields : List (String × Json)) (name : String) : Option Bool :=
  match fields.lookup name with
  | none => some false
  | some (.bool flag) => some flag
  | some _ => none

def ClientFrame.ofJson : Json → Option ClientFrame
  | .object fields => do
      let id ← readId fields
      let method ← readText fields "method"
      let cancel ← readFlag fields "cancel"
      some { id, method, params := (fields.lookup "params").getD .null, cancel }
  | _ => none

def ServerFrame.ofJson : Json → Option ServerFrame
  | .object fields => do
      let id ← readId fields
      let err ← readText fields "err"
      let done ← readFlag fields "done"
      some { id, ok := readOptional fields "ok", err, item := readOptional fields "item", done }
  | _ => none

/-- The lines of a payload that carry a frame. -/
def payloadLines (payload : List Char) : List (List Char) :=
  ((Text.lines payload).map Text.trim).filter (!·.isEmpty)

/-- The library writes a value on one line without blanks around it, and reads it back. -/
structure JsonText.ReadsBack (text : JsonText) (json : Json) : Prop where
  line : payloadLines (text.write json) = [text.write json]
  value : text.read (text.write json) = some json

def ClientFrame.read (text : JsonText) (line : List Char) : Option ClientFrame :=
  (text.read line).bind ClientFrame.ofJson

def ServerFrame.read (text : JsonText) (line : List Char) : Option ServerFrame :=
  (text.read line).bind ServerFrame.ofJson

end Serde

section Lemmas

@[simp] theorem lookup_id (value : Json) (rest : List (String × Json)) :
    List.lookup "id" (("id", value) :: rest) = some value := by
  rw [List.lookup_cons_self]

theorem lookup_of_ne_id {name : String} (hname : name ≠ "id") (value : Json)
    (rest : List (String × Json)) :
    List.lookup name (("id", value) :: rest) = rest.lookup name := by
  have hbeq : (name == "id") = false := beq_eq_false_iff_ne.mpr hname
  rw [List.lookup_cons, hbeq]

@[simp] theorem lookup_optionalField (name : String) (value : Option Json)
    (rest : List (String × Json)) :
    (optionalField name value ++ rest).lookup name = value.or (rest.lookup name) := by
  cases value <;> simp [optionalField]

theorem lookup_optionalField_of_ne {name other : String} (hname : name ≠ other)
    (value : Option Json) (rest : List (String × Json)) :
    (optionalField other value ++ rest).lookup name = rest.lookup name := by
  have hbeq : (name == other) = false := beq_eq_false_iff_ne.mpr hname
  cases value <;> simp [optionalField, List.lookup_cons, hbeq]

@[simp] theorem lookup_flagField_of_ne {name other : String} (hname : name ≠ other)
    (flag : Bool) : (flagField other flag).lookup name = none := by
  have hbeq : (name == other) = false := beq_eq_false_iff_ne.mpr hname
  cases flag <;> simp [flagField, List.lookup_cons, hbeq]

theorem lookup_flagField (name : String) (flag : Bool) :
    (flagField name flag).lookup name = if flag then some (.bool true) else none := by
  cases flag <;> simp [flagField]

section Client

variable (frame : ClientFrame)

theorem ClientFrame.readId_fields : readId frame.fields = some frame.id := by
  rw [readId, fields, lookup_id]
  simp

theorem ClientFrame.lookup_method : frame.fields.lookup "method" = frame.method.map .string := by
  simp (disch := decide) [fields, lookup_of_ne_id, lookup_optionalField_of_ne]

theorem ClientFrame.lookup_params : (frame.fields.lookup "params").getD .null = frame.params := by
  simp (disch := decide) only [fields, lookup_of_ne_id, lookup_optionalField_of_ne,
    lookup_optionalField, lookup_flagField_of_ne]
  split <;> simp [*]

theorem ClientFrame.readFlag_cancel : readFlag frame.fields "cancel" = some frame.cancel := by
  simp (disch := decide) only [readFlag, fields, lookup_of_ne_id, lookup_optionalField_of_ne,
    lookup_flagField]
  cases frame.cancel <;> rfl

theorem ClientFrame.readText_method : readText frame.fields "method" = some frame.method := by
  rw [readText, readOptional, frame.lookup_method]
  cases frame.method <;> rfl

theorem ClientFrame.ofJson_toJson : ofJson frame.toJson = some frame := by
  rw [toJson, ofJson, frame.readId_fields, frame.readText_method, frame.readFlag_cancel,
    frame.lookup_params]
  rfl

end Client

section Server

variable (frame : ServerFrame)

theorem ServerFrame.readId_fields : readId frame.fields = some frame.id := by
  rw [readId, fields, lookup_id]
  simp

theorem ServerFrame.lookup_ok : frame.fields.lookup "ok" = frame.ok := by
  simp (disch := decide) [fields, lookup_of_ne_id, lookup_optionalField_of_ne]

theorem ServerFrame.lookup_err : frame.fields.lookup "err" = frame.err.map .string := by
  simp (disch := decide) [fields, lookup_of_ne_id, lookup_optionalField_of_ne]

theorem ServerFrame.lookup_item : frame.fields.lookup "item" = frame.item := by
  simp (disch := decide) [fields, lookup_of_ne_id, lookup_optionalField_of_ne]

theorem ServerFrame.readFlag_done : readFlag frame.fields "done" = some frame.done := by
  simp (disch := decide) only [readFlag, fields, lookup_of_ne_id, lookup_optionalField_of_ne,
    lookup_flagField]
  cases frame.done <;> rfl

theorem ServerFrame.readText_err : readText frame.fields "err" = some frame.err := by
  rw [readText, readOptional, frame.lookup_err]
  cases frame.err <;> rfl

theorem ServerFrame.ofJson_toJson : ofJson frame.toJson = some { frame with
    ok := frame.ok.filter (· ≠ .null), item := frame.item.filter (· ≠ .null) } := by
  rw [toJson, ofJson, frame.readId_fields, frame.readText_err, frame.readFlag_done,
    readOptional, readOptional, frame.lookup_ok, frame.lookup_item]
  rfl

end Server

end Lemmas

end Rpc

end Keel
