import AaOS.Lib.Text

/-!
# JSON values

The values of `serde_json`.  An object lists its fields in the order in which the map of
`serde_json` is iterated, and a number is given by its literal.
-/

/-- A JSON value. -/
inductive Json where
  | null
  | bool (b : Bool)
  | num (literal : Text)
  | str (s : Text)
  | arr (elems : List Json)
  | obj (fields : List (Text × Json))

namespace Json

def get (v : Json) (name : Text) : Option Json :=
  match v with
  | obj fields => fields.lookup name
  | _ => none

def asStr : Json → Option Text
  | str s => some s
  | _ => none

def asBool : Json → Option Bool
  | bool b => some b
  | _ => none

def asArray : Json → Option (List Json)
  | arr elems => some elems
  | _ => none

def asObject : Json → Option (List (Text × Json))
  | obj fields => some fields
  | _ => none

end Json

def jsonNat (n : Nat) : Json := .num (Nat.toDigits 10 n)
