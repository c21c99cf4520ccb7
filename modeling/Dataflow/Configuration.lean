import Dataflow.Json.Decode
import Dataflow.Text.Blank

/-! # Configurations

    Settings under string keys, as they travel with plans, job graphs and
    tasks. A setting has one of four kinds; a getter asks for one of them and
    has its default for everything else, except that text which reads as the
    kind counts as a setting of that kind.
-/

namespace Dataflow

/-! ## Section 1: Settings -/

/-- A single configuration value. -/
inductive Setting where
  | bool (value : Bool)
  | integer (value : Int64)
  | float (value : Binary64)
  | string (value : String)
deriving DecidableEq

namespace Setting

/-- Whether two settings are of one kind and hold the same value, floats compared as numbers. -/
def agrees : Setting → Setting → Bool
  | .bool a, .bool b => a == b
  | .integer a, .integer b => a == b
  | .float a, .float b => a.sameNumber b
  | .string a, .string b => a == b
  | _, _ => false

/-- The JSON form of a setting. -/
def toJson : Setting → Json
  | .bool b => .bool b
  | .integer i => .integer i.toInt
  | .float x => .ofDouble x
  | .string s => .string s

/-- The setting of a JSON value. A number without point and power of ten is an integer if it fits
one; every other number is a float. -/
def ofJson? : Json → Option Setting
  | .bool b => some (.bool b)
  | .integer i => some ((int64OfInt? i).elim (.float (.ofInt i)) .integer)
  | .single x => some (.float x.convert)
  | .double x => some (.float x)
  | .string s => some (.string s)
  | _ => none

end Setting

/-! ## Section 2: Configurations -/

/-- Settings by key, in the order of the keys. -/
abbrev Configuration := SortedMap String Setting

namespace Configuration

/-- The configuration without settings. -/
def empty : Configuration := SortedMap.empty

/-- The entries of `other` put over those of `c`. -/
def merge (c other : Configuration) : Configuration := c.insertAll other.entries

/-- The entries of `other`, their keys behind `lead`, put over those of `c`. -/
def mergeUnder (c : Configuration) (lead : String) (other : Configuration) : Configuration :=
  c.insertAll (other.entries.map fun e => (lead ++ e.1, e.2))

/-- The keys that begin with `lead`, in order. -/
def keysUnder (c : Configuration) (lead : String) : List String :=
  c.keys.filter fun k => lead.toList.isPrefixOf k.toList

/-- Whether two configurations have the same keys with settings that agree. -/
def agrees (c other : Configuration) : Bool :=
  c.size == other.size &&
    (c.entries.zip other.entries).all fun (a, b) => a.1 == b.1 && a.2.agrees b.2

/-! ## Section 3: Getters -/

/-- The text of a setting without the blanks around it. -/
def trimmed (s : String) : List Char := trimBlanks s.toList

/-- An integer, or text that reads as one. -/
def getInteger (c : Configuration) (key : String) (default : Int64) : Int64 :=
  match c.get? key with
  | some (.integer i) => i
  | some (.string s) => (readInt64? (trimmed s)).getD default
  | _ => default

/-- A float, an integer rounded to one, or text that reads as one. -/
def getFloat (c : Configuration) (key : String) (default : Binary64) : Binary64 :=
  match c.get? key with
  | some (.float x) => x
  | some (.integer i) => .ofInt i.toInt
  | some (.string s) => (Binary.read? (trimmed s)).getD default
  | _ => default

/-- A truth value, or text that reads as one. -/
def getBool (c : Configuration) (key : String) (default : Bool) : Bool :=
  match c.get? key with
  | some (.bool b) => b
  | some (.string s) => (readBool? (String.ofList (trimmed s))).getD default
  | _ => default

/-- A string. -/
def getString? (c : Configuration) (key : String) : Option String :=
  match c.get? key with
  | some (.string s) => some s
  | _ => none

/-! ## Section 4: Encoding -/

/-- The JSON form: an object with the settings in the order of their keys. -/
def toJson (c : Configuration) : Json := Json.ofMap id Setting.toJson c

/-- The configuration of an object; of two members with one key the last stays. -/
def ofJson? (j : Json) : Option Configuration := Json.map? some Setting.ofJson? j

end Configuration

end Dataflow
