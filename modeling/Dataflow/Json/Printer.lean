import Dataflow.Json.Basic
import Dataflow.Binary.Text

/-! # Writing JSON

    The compact form: no blanks, members in their order, and of the characters
    in a string only quotes, backslashes and control characters escaped. What
    holds no value is written as `null`.
-/

namespace Dataflow

namespace Json

/-! ## Section 1: Strings -/

/-- The digit of a number below sixteen, small letters after nine. -/
def hexDigit (n : Nat) : Char := Nat.digitChar n

/-- A character inside a string. -/
def escapeChar (c : Char) : List Char :=
  if c = '"' then ['\\', '"']
  else if c = '\\' then ['\\', '\\']
  else if c = '\x08' then ['\\', 'b']
  else if c = '\x0c' then ['\\', 'f']
  else if c = '\n' then ['\\', 'n']
  else if c = '\r' then ['\\', 'r']
  else if c = '\t' then ['\\', 't']
  else if c.toNat < 0x20 then
    ['\\', 'u', '0', '0', hexDigit (c.toNat / 16), hexDigit (c.toNat % 16)]
  else [c]

/-- A string with its quotes. -/
def quoted (s : String) : List Char := '"' :: s.toList.flatMap escapeChar ++ ['"']

/-! ## Section 2: Values -/

/-- A whole number: a minus sign if it is negative, and the digits. -/
def integerText (i : Int) : List Char :=
  if i < 0 then '-' :: Nat.toDigits 10 i.natAbs else Nat.toDigits 10 i.natAbs

mutual

/-- The compact text of a value. -/
def text : Json → List Char
  | .null | .unreadable => ['n', 'u', 'l', 'l']
  | .bool true => ['t', 'r', 'u', 'e']
  | .bool false => ['f', 'a', 'l', 's', 'e']
  | .integer i => integerText i
  | .single x => x.encodedText
  | .double x => x.encodedText
  | .string s => quoted s
  | .array [] => ['[', ']']
  | .array (item :: rest) => '[' :: item.text ++ itemsText rest
  | .object [] => ['{', '}']
  | .object ((key, value) :: rest) =>
    '{' :: quoted key ++ ':' :: value.text ++ membersText rest

/-- The items after the first, each behind a comma, and the closing bracket. -/
def itemsText : List Json → List Char
  | [] => [']']
  | item :: rest => ',' :: item.text ++ itemsText rest

/-- The members after the first, each behind a comma, and the closing brace. -/
def membersText : List (String × Json) → List Char
  | [] => ['}']
  | (key, value) :: rest => ',' :: quoted key ++ ':' :: value.text ++ membersText rest

end

/-- The compact text of a value, as a string. -/
def render (j : Json) : String := String.ofList j.text

end Json

end Dataflow
