import Hca.Model.Basic

set_option autoImplicit false

/-!
# JSON values

The values of `serde_json` and the accessors the entry points use on them. The crate is not in
the repository. Its values and accessors are modelled by their documented behaviour: an accessor
answers for one kind of value only, and a key that is missing, or that is looked up in anything
but an object, reads as null. Its parser and its printers of texts are parameters, collected in
`JsonLib`.
-/

namespace Hca.Model

open Hca.Library

/-- A number as it is stored: an integer that is not negative, a negative one as an `i64`,
or a float as its bits. -/
inductive Number where
  | posInt (n : U64)
  | negInt (n : BitVec 64)
  | float (bits : BitVec 64)
  deriving DecidableEq, Repr

/-- `serde_json::Value` -/
inductive Value where
  | null
  | bool (b : Bool)
  | number (n : Number)
  | string (s : String)
  | array (items : List Value)
  | object (fields : List (String × Value))

namespace Value

/-- `v.get(key)` -/
def get (v : Value) (key : String) : Option Value :=
  match v with
  | .object fields => (fields.find? (fun field => field.1 = key)).map Prod.snd
  | _ => none

/-- `v[key]` -/
def index (v : Value) (key : String) : Value := (v.get key).getD .null

/-- `v.as_u64()` -/
def asU64 : Value → Option U64
  | .number (.posInt n) => some n
  | _ => none

/-- `v.as_str()` -/
def asStr : Value → Option String
  | .string s => some s
  | _ => none

/-- `v.as_array()` -/
def asArray : Value → Option (List Value)
  | .array items => some items
  | _ => none

/-- `v.as_bool()` -/
def asBool : Value → Option Bool
  | .bool b => some b
  | _ => none

/-- Only strings are read as strings. -/
theorem asStr_eq_some {v : Value} {s : String} : v.asStr = some s ↔ v = .string s := by
  cases v <;> simp [asStr]

/-- Only integers that are not negative are read as `u64`. -/
theorem asU64_eq_some {v : Value} {n : U64} : v.asU64 = some n ↔ v = .number (.posInt n) := by
  cases v with
  | number m => cases m <;> simp [asU64]
  | _ => simp [asU64]

/-- Only arrays are read as arrays. -/
theorem asArray_eq_some {v : Value} {items : List Value} :
    v.asArray = some items ↔ v = .array items := by
  cases v <;> simp [asArray]

/-- `json!(n)` for an integer that fits 64 bits. -/
def ofNat (n : ℕ) : Value := .number (.posInt (BitVec.ofNat 64 n))

end Value

/-- What the entry points take from their libraries besides values: the parser of a JSON
text, the parser of a JSON array, the two printers, and the text of the error that
`hex::decode` returns for a string. Errors are texts. -/
structure JsonLib where
  fromStr : String → Outcome String Value
  vecFromStr : String → Outcome String (List Value)
  toStr : Value → String
  toStringPretty : Value → String
  hexError : String → String

end Hca.Model
