import Dataflow.Json.Decode

/-! # Job identifiers

    An identifier is 32 hexadecimal digits. It is written in five groups; it is
    read in groups, in groups between braces, in groups behind a scheme, or as
    the digits alone. All letters may stand in either case, those of the scheme
    too.
-/

namespace Dataflow

/-- A globally unique job identifier. -/
structure JobId where
  /-- Its hexadecimal digits. -/
  digits : Vector (Fin 16) 32
deriving DecidableEq

namespace JobId

/-- The identifier whose digits are all zero. -/
def zero : JobId := ⟨Vector.replicate 32 ⟨0, Nat.succ_pos 15⟩⟩

/-- The lengths of the groups. -/
def groups : List Nat := [8, 4, 4, 4, 12]

/-- The text cut into pieces with hyphens between them. -/
def hyphenate : List Nat → List Char → List Char
  | [], _ => []
  | [n], text => text.take n
  | n :: rest, text => text.take n ++ '-' :: hyphenate rest (text.drop n)

/-- The text without the hyphens between pieces of the given lengths. -/
def unhyphenate? : List Nat → List Char → Option (List Char)
  | [], text => if text = [] then some [] else none
  | [n], text => if text.length = n then some text else none
  | n :: rest, text =>
    match text.drop n with
    | '-' :: tail => (unhyphenate? rest tail).map (text.take n ++ ·)
    | _ => none

/-- The five groups in small letters. -/
def display (j : JobId) : String :=
  String.ofList <| hyphenate groups (j.digits.toList.map fun d => Nat.digitChar d.val)

/-- The value of a hexadecimal digit in either case. -/
def digit? (c : Char) : Option (Fin 16) :=
  (List.finRange 16).find? fun d => Nat.digitChar d.val = c.toLower

/-- The identifier of 32 digits. -/
def ofDigits? (text : List Char) : Option JobId := do
  let digits ← text.mapM digit?
  if h : digits.length = 32 then some ⟨⟨digits.toArray, by simpa using h⟩⟩ else none

/-- The digits of the text around which nothing more is left. -/
def bareDigits? (text : List Char) : Option (List Char) :=
  if text.length = 32 then some text
  else if text.length = 38 ∧ text.head? = some '{' ∧ text.getLast? = some '}' then
    unhyphenate? groups ((text.drop 1).take 36)
  else if (text.take 9).map Char.toLower = "urn:uuid:".toList then
    unhyphenate? groups (text.drop 9)
  else unhyphenate? groups text

/-- The identifier that a text holds. -/
def read? (text : String) : Option JobId := bareDigits? text.toList >>= ofDigits?

/-- The JSON form. -/
def toJson (j : JobId) : Json := .string j.display

/-- The identifier of a string. -/
def ofJson? (j : Json) : Option JobId := Json.string? j >>= read?

end JobId

end Dataflow
