import Dataflow.Binary.Basic

/-! # JSON values

    A value keeps the order of its members and the kind of each number: whole
    numbers are exact, others belong to one of the two binary formats.

    A text can have the form of a value and still hold none: a number past the
    largest one of its format, a string with half a surrogate pair, an object
    with such a string as a key, brackets nested too deep. That is no error of
    the text as long as nobody asks for the value, so it is kept as `unreadable`.
-/

namespace Dataflow

/-- A JSON value. -/
inductive Json where
  | null
  | bool (value : Bool)
  | integer (value : Int)
  | single (value : Binary32)
  | double (value : Binary64)
  | string (value : String)
  | array (items : List Json)
  | object (members : List (String × Json))
  /-- What has the form of a value but holds none. No decoder takes it. -/
  | unreadable
deriving Inhabited

namespace Json

/-- A number of a binary format, which JSON can hold if it is finite. -/
def ofSingle (x : Binary32) : Json := if x.isFinite then .single x else .null

/-- A number of a binary format, which JSON can hold if it is finite. -/
def ofDouble (x : Binary64) : Json := if x.isFinite then .double x else .null

/-- The natural number `n`. -/
def ofNat (n : Nat) : Json := .integer n

/-- The encoding of an optional value; an absent one is `null`. -/
def ofOption {α : Type} (encode : α → Json) : Option α → Json
  | none => .null
  | some a => encode a

/-- The encoding of a list. -/
def ofList {α : Type} (encode : α → Json) (l : List α) : Json := .array (l.map encode)

mutual

/-- Whether all parts of a value hold a value. -/
def isReadable : Json → Bool
  | .unreadable => false
  | .array items => itemsReadable items
  | .object members => membersReadable members
  | _ => true

/-- Whether all parts of items hold a value. -/
def itemsReadable : List Json → Bool
  | [] => true
  | item :: rest => item.isReadable && itemsReadable rest

/-- Whether all parts of members hold a value. -/
def membersReadable : List (String × Json) → Bool
  | [] => true
  | (_, value) :: rest => value.isReadable && membersReadable rest

end

/-- The value with `f` in place of its single-precision numbers and `g` in place of the
double-precision ones. -/
def mapBinary (f : Binary32 → Json) (g : Binary64 → Json) : Json → Json
  | .single x => f x
  | .double x => g x
  | .array items => .array (mapItems items)
  | .object members => .object (mapMembers members)
  | j => j
where
  mapItems : List Json → List Json
    | [] => []
    | j :: rest => mapBinary f g j :: mapItems rest
  mapMembers : List (String × Json) → List (String × Json)
    | [] => []
    | (key, j) :: rest => (key, mapBinary f g j) :: mapMembers rest

end Json

end Dataflow
