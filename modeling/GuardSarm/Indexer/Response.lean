import Mathlib

/-! The answer of the indexer to a bulk request, and whether it is accepted. -/
namespace GuardSarm.Indexer

/-- A parsed JSON value; a number as `get<int>` reads it, an object with its keys in order. -/
inductive Json
  | null
  | bool (value : Bool)
  | number (value : Int)
  | string (value : String)
  | array (items : List Json)
  | object (fields : List (String × Json))

namespace Json

/-- `contains` and `operator[]` together; only objects have fields. -/
def field (json : Json) (name : String) : Option Json :=
  match json with
  | .object fields => fields.lookup name
  | _ => none

/-- `get<int>`; it raises on what is neither a number nor a boolean. -/
def int : Json → Option Int
  | .number value => some value
  | .bool value => some (if value then 1 else 0)
  | _ => none

end Json

/-- A version conflict that only says that the document is already there. -/
def isAcceptableConflict (result : Json) : Bool :=
  match (result.field "error").bind (·.field "type") with
  | some (.string errorType) => errorType == "version_conflict_engine_exception"
  | _ => false

/-- One item of the response counts as success. An item that makes the code raise counts as
failure: the exception is caught and the whole response refused. -/
def validateItem (item : Json) : Bool :=
  match item with
  | .object ((_, result) :: _) =>
    match (result.field "status").bind Json.int with
    | some status =>
      if status = 200 ∨ status = 201 then true
      else if status = 409 then isAcceptableConflict result
      else false
    | none => false
  | _ => false

/-- `validateBulkResponse`; a response that does not parse is `none`. -/
def validateBulkResponse (response : Option Json) : Bool :=
  match response with
  | none => false
  | some json =>
    match json.field "errors" with
    | none => true
    | some (.bool false) => true
    | some (.bool true) =>
      match json.field "items" with
      | some (.array items) => items.all validateItem
      | _ => false
    | some _ => false

/-- A response without an `errors` field is accepted. -/
example : validateBulkResponse (some (.object [])) = true := rfl

end GuardSarm.Indexer
