import Dataflow.Json.Basic
import Dataflow.SortedMap
import Dataflow.Text.Numeral

/-! # Decoding JSON values

    The shapes that the encodings of this library share: records, variants,
    lists, maps and numbers in a range. A decoder answers none for a value of
    another shape; it never repairs one. Members that a record does not name are
    not looked at, so they need not even hold a value.
-/

namespace Dataflow

namespace Json

/-! ## Section 1: Records and variants -/

/-- The last member with a name. -/
def member? (members : List (String × Json)) (name : String) : Option Json :=
  (members.reverse.find? fun m => m.1 = name).map Prod.snd

/-- The fields of a record, in the order of `names`. An object gives them by name and may have
others; an array gives them by place and may lack the last `defaulted` ones. -/
def record? (names : List String) (defaulted : Nat) : Json → Option (List (Option Json))
  | .object members => some (names.map (member? members))
  | .array items =>
    if items.length ≤ names.length ∧ names.length ≤ items.length + defaulted then
      some (items.map some ++ List.replicate (names.length - items.length) none)
    else none
  | _ => none

/-- A field that must be there. -/
def required? {α : Type} (decode : Json → Option α) (field : Option Json) : Option α :=
  field.bind decode

/-- A field that may be missing or `null`. -/
def optional? {α : Type} (decode : Json → Option α) : Option Json → Option (Option α)
  | none => some none
  | some .null => some none
  | some j => (decode j).map some

/-- The name of a variant and its content. A name alone stands for itself with no content. -/
def variant? : Json → Option (String × Json)
  | .string name => some (name, .null)
  | .object [(name, content)] => some (name, content)
  | _ => none

/-- Where a value to be decoded stands. -/
inductive Origin where
  /-- In a text of its own. -/
  | text
  /-- In another value, of a request for instance. -/
  | value

/-- The fields of the content of a variant, in the order of `names`. An object gives them by name; in
a text, an array may give them by place. -/
def content? (origin : Origin) (names : List String) (content : Json) :
    Option (List (Option Json)) :=
  match origin, content with
  | .value, .array _ => none
  | _, content => record? names 0 content

/-- One of a list of values by its name. -/
def named? {α : Type} (all : List α) (name : α → String) (j : Json) : Option α :=
  match variant? j with
  | some (text, .null) => all.find? fun a => name a = text
  | _ => none

/-! ## Section 2: Scalars -/

/-- A string. -/
def string? : Json → Option String
  | .string s => some s
  | _ => none

/-- A truth value. -/
def bool? : Json → Option Bool
  | .bool b => some b
  | _ => none

/-- A whole number from zero to below `bound`. -/
def below? (bound : Nat) : Json → Option Nat
  | .integer (.ofNat n) => if n < bound then some n else none
  | _ => none

/-- A 32-bit word. -/
def uint32? (j : Json) : Option UInt32 := (below? UInt32.size j).map UInt32.ofNat

/-- A 64-bit word. -/
def uint64? (j : Json) : Option UInt64 := (below? UInt64.size j).map UInt64.ofNat

/-- A number, rounded to single precision. -/
def single? : Json → Option Binary32
  | .integer i => some (.ofInt i)
  | .single x => some x
  | .double x => some x.convert
  | _ => none

/-! ## Section 3: Lists and maps -/

/-- A list with items of one kind. -/
def list? {α : Type} (decode : Json → Option α) : Json → Option (List α)
  | .array items => items.mapM decode
  | _ => none

/-- A map; of two members with one key the last stays. -/
def map? {κ ν : Type} [Ord κ] [Std.TransOrd κ] (key : String → Option κ) (value : Json → Option ν) :
    Json → Option (SortedMap κ ν)
  | .object members => do
    let entries ← members.mapM fun m => do return (← key m.1, ← value m.2)
    return SortedMap.ofList entries
  | _ => none

/-- A 64-bit natural number as a key: decimal digits without leading zeros. -/
def naturalKey? (text : String) : Option Nat := do
  let n ← readDigits? text.toList
  if toString n = text ∧ n < UInt64.size then some n else none

/-- The encoding of a map, its keys as strings. -/
def ofMap {κ ν : Type} [Ord κ] (key : κ → String) (value : ν → Json) (m : SortedMap κ ν) : Json :=
  .object (m.entries.map fun e => (key e.1, value e.2))

end Json

end Dataflow
