import Dataflow.Configuration

/-! # Descriptors

    Names of implementations with their parameters: of serializers, of key
    comparators, of comparators between two inputs, and of user code. They are
    copied and, for serializers, compared, but never interpreted.
-/

namespace Dataflow

/-! ## Section 1: Descriptors -/

/-- What a descriptor describes. -/
inductive Descriptor.Role where
  | serializer
  | comparator
  | pairComparator

/-- An implementation and its parameters. The role keeps descriptors of different things apart. -/
structure Descriptor (role : Descriptor.Role) where
  /-- The implementation, in the terms of the runtime. -/
  className : String
  /-- Its parameters, such as key positions. -/
  params : SortedMap String String := .empty
deriving DecidableEq

/-- Says how records on a channel are serialized. -/
abbrev Serializer := Descriptor .serializer

/-- Says how records of one input are compared by key. -/
abbrev Comparator := Descriptor .comparator

/-- Says how the keys of two inputs are compared. -/
abbrev PairComparator := Descriptor .pairComparator

namespace Descriptor

variable {role : Role}

/-- The descriptor with one more parameter, in place of one with the same name. -/
def withParam (d : Descriptor role) (key value : String) : Descriptor role :=
  { d with params := d.params.insert key value }

/-- The class, and the parameters in brackets if there are any. -/
def display (d : Descriptor role) : String :=
  if d.params.isEmpty then d.className
  else d.className ++ "["
    ++ ",".intercalate (d.params.entries.map fun e => e.1 ++ "=" ++ e.2) ++ "]"

/-- The JSON form; empty parameters are left out. -/
def toJson (d : Descriptor role) : Json :=
  .object <| ("class", .string d.className) ::
    if d.params.isEmpty then [] else [("params", Json.ofMap id .string d.params)]

/-- The descriptor of a record; parameters may be missing. -/
def ofJson? (j : Json) : Option (Descriptor role) := do
  match ← Json.record? ["class", "params"] 1 j with
  | [className, params] =>
    let className ← Json.required? Json.string? className
    let params ← match params with
      | none => some .empty
      | some j => Json.map? some Json.string? j
    return { className, params }
  | _ => none

end Descriptor

/-! ## Section 2: User code -/

/-- A user-code class and its parameters. -/
structure UserCode where
  /-- The class. -/
  className : String
  /-- Its parameters. -/
  parameters : Configuration := .empty
deriving DecidableEq

namespace UserCode

/-- The JSON form. -/
def toJson (u : UserCode) : Json :=
  .object [("class", .string u.className), ("parameters", u.parameters.toJson)]

/-- The user code of a record. -/
def ofJson? (j : Json) : Option UserCode := do
  match ← Json.record? ["class", "parameters"] 0 j with
  | [className, parameters] =>
    let className ← Json.required? Json.string? className
    let parameters ← Json.required? Configuration.ofJson? parameters
    return { className, parameters }
  | _ => none

end UserCode

end Dataflow
