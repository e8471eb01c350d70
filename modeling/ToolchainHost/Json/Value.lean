/-!
# JSON values

* `Json`: a value. An object is its members in order, so repeated keys can be seen.
* `Json.canonical`: the same value with the members of every object sorted by key; of members with one key the
  last stays.
-/

namespace ToolchainHost

/-- A number: an integer that fits 64 bits with or without a sign, or a double given by its bits. -/
inductive Number where
  | int (value : Int)
  | double (bits : UInt64)
  deriving DecidableEq, Repr, Inhabited

/-- A JSON value. -/
inductive Json where
  | null
  | bool (value : Bool)
  | number (value : Number)
  | string (value : String)
  | array (items : List Json)
  | object (fields : List (String × Json))
  deriving Repr, Inhabited

namespace Json

/-- Puts a member at its place in members sorted by key; a member with the same key is replaced. -/
def insertField (key : String) (value : Json) : List (String × Json) → List (String × Json)
  | [] => [(key, value)]
  | (k, v) :: rest =>
    if key < k then (key, value) :: (k, v) :: rest
    else if key = k then (key, value) :: rest
    else (k, v) :: insertField key value rest

mutual

/-- The value with the members of every object sorted by key, the last of equal keys kept. -/
def canonical : Json → Json
  | array items => array (canonicalItems items)
  | object fields => object (canonicalFields [] fields)
  | null => null
  | bool b => bool b
  | number n => number n
  | string s => string s

/-- The canonical forms of items. -/
def canonicalItems : List Json → List Json
  | [] => []
  | v :: rest => canonical v :: canonicalItems rest

/-- The sorted members `done` with further members put in. -/
def canonicalFields (done : List (String × Json)) : List (String × Json) → List (String × Json)
  | [] => done
  | (k, v) :: rest => canonicalFields (insertField k (canonical v) done) rest

end

/-- The value of the first member with a key. -/
def field? (key : String) : Json → Option Json
  | object fields => (fields.find? fun f => f.1 == key).map (·.2)
  | _ => none

end Json

end ToolchainHost
