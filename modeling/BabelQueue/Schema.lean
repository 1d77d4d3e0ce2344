import BabelQueue.Gdpr
import BabelQueue.Py.Json.Equal

/-!
# Payload schemas (`schema.py`)

`validateSchema schema value path` is the first violation of `value` against a node of a schema, a
`dict`; the providers and `wrap` are left out.
-/

namespace BabelQueue.Schema

open Py Py.Json

/-- `_equal` -/
def equal (a b : Json) : Bool := sameType a b && a.equal b

/-- `_violation` -/
def violation (path reason : Str) : Str := (if path = [] then str "<root>" else path) ++ str ": " ++ reason

/-- The number `float(value)` is called with. -/
def asNumber? : Json → Option Number
  | .int i => some (.int i)
  | .float x => some (.float x)
  | _ => none

/-- `value.is_integer()` -/
def isIntegral (x : Float64) : Bool := x.units.any fun n => n % (Float64.scale : Int) = 0

/-- `_is_integer` -/
def isInteger : Json → Bool
  | .int _ => true
  | .float x => isIntegral x
  | _ => false

/-- `_is_number` -/
def isNumber (value : Json) : Bool := (asNumber? value).isSome

/-- `_check_minimum`, for a value that is a number. -/
def checkMinimum (schema : Dict Json) (value : Json) (path : Str) : Except PyExc (Option Str) :=
  match asNumber? value, asNumber? (schema.getJ (str "minimum")) with
  | some x, some minimum => do
    let x ← x.toFloat
    let minimum ← minimum.toFloat
    pure (if x.lt minimum then some (violation path (str "below_minimum")) else none)
  | _, _ => .ok none

/-- `int(min_len)`, when `min_len` is a number. -/
def minLength (schema : Dict Json) : Option (Except PyExc Int) :=
  match schema.getJ (str "minLength") with
  | .bool b => some (.ok (if b then 1 else 0))
  | .int n => some (.ok n)
  | .float x => some x.toInt
  | _ => none

/-- The part of `validate_schema` for `const` and `enum`. -/
def checkFixed (schema : Dict Json) (value : Json) : Option Str :=
  if (schema.get? (str "const")).any fun c => !equal value c then some (str "wrong_const")
  else match schema.getJ (str "enum") with
    | .arr items => if items.any (equal value) then none else some (str "not_in_enum")
    | _ => none

/-- `schema.get("type") == typ` -/
def hasType (schema : Dict Json) (typ : String) : Bool :=
  match schema.getJ (str "type") with
  | .str t => t = str typ
  | _ => false

/-- The part of `validate_schema` for the types without parts. -/
def checkScalar (schema : Dict Json) (value : Json) (path : Str) : Except PyExc (Option Str) :=
  let report (reason : String) : Except PyExc (Option Str) := .ok (some (violation path (str reason)))
  if hasType schema "string" then
    match value with
    | .str s =>
      match minLength schema with
      | some bound => do
        let bound ← bound
        if (s.length : Int) < bound then report "below_min_length" else pure none
      | none => .ok none
    | _ => report "not_a_string"
  else if hasType schema "integer" then
    if isInteger value then checkMinimum schema value path else report "not_an_integer"
  else if hasType schema "number" then
    if isNumber value then checkMinimum schema value path else report "not_a_number"
  else if hasType schema "boolean" then
    match value with
    | .bool _ => .ok none
    | _ => report "not_a_boolean"
  else if hasType schema "null" then
    match value with
    | .null => .ok none
    | _ => report "not_null"
  else .ok none

/-- The part of `_check_object` for `required`: the first key that is missing. -/
def missingRequired (schema : Dict Json) (value : Dict Json) : Option Str :=
  match schema.getJ (str "required") with
  | .arr required => required.findSome? fun key =>
      match key with
      | .str key => if value.has key then none else some key
      | _ => none
  | _ => none

/-- The schema of a property, when it is a mapping. -/
def propertySchema (schema : Dict Json) (name : Str) : Option (Dict Json) :=
  (((schema.getJ (str "properties")).asObj?.getD []).getJ name).asObj?

/-- `schema.get("additionalProperties") is not False` -/
def additionalAllowed (schema : Dict Json) : Bool :=
  match schema.getJ (str "additionalProperties") with
  | .bool false => false
  | _ => true

/-- The path of the `i`-th item. -/
def itemPath (path : Str) (i : Nat) : Str := path ++ cp '[' :: digits i ++ [cp ']']

mutual

/-- `validate_schema` -/
def validateSchema (value : Json) (schema : Dict Json) (path : Str) : Except PyExc (Option Str) :=
  match checkFixed schema value with
  | some reason => .ok (some (violation path reason))
  | none =>
    if hasType schema "object" then
      -- `_check_object`
      match value with
      | .obj members =>
        match missingRequired schema members with
        | some key => .ok (some (violation (joinPath path key) (str "missing_required")))
        | none => checkMembers members schema path
      | _ => .ok (some (violation path (str "not_an_object")))
    else if hasType schema "array" then
      -- `_check_array`
      match value with
      | .arr items =>
        match schema.getJ (str "items") with
        | .obj sub => checkItems items sub path 0
        | _ => .ok none
      | _ => .ok (some (violation path (str "not_an_array")))
    else checkScalar schema value path

/-- The loop of `_check_object`. -/
def checkMembers (members : List (Str × Json)) (schema : Dict Json) (path : Str) : Except PyExc (Option Str) :=
  match members with
  | [] => .ok none
  | (name, item) :: members =>
    match propertySchema schema name with
    | some prop => do
      match ← validateSchema item prop (joinPath path name) with
      | some violation => pure (some violation)
      | none => checkMembers members schema path
    | none =>
      if additionalAllowed schema then checkMembers members schema path
      else .ok (some (violation (joinPath path name) (str "additional_not_allowed")))

/-- The loop of `_check_array`, from the `i`-th item on. -/
def checkItems (items : List Json) (schema : Dict Json) (path : Str) (i : Nat) : Except PyExc (Option Str) :=
  match items with
  | [] => .ok none
  | item :: items => do
    match ← validateSchema item schema (itemPath path i) with
    | some violation => pure (some violation)
    | none => checkItems items schema path (i + 1)

end

end BabelQueue.Schema
