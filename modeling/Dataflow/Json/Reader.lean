import Dataflow.Json.Number

/-! # Reading JSON

    A text holds one value, with blanks around its parts. Of an escaped pair of
    surrogates one character is made; a surrogate alone leaves its string
    without a value. Control characters inside strings are refused. Brackets are
    followed up to a limit; what is nested deeper has the form of a value, but
    holds none.
-/

namespace Dataflow

namespace Json

/-! ## Section 1: Strings -/

/-- The value of a hexadecimal digit. -/
def hexValue? (c : Char) : Option Nat :=
  if c.isDigit then some (c.toNat - '0'.toNat)
  else if 'a' ≤ c ∧ c ≤ 'f' then some (c.toNat - 'a'.toNat + 10)
  else if 'A' ≤ c ∧ c ≤ 'F' then some (c.toNat - 'A'.toNat + 10)
  else none

/-- The value of four hexadecimal digits. -/
def hexValue4? (a b c d : Char) : Option Nat := do
  return (((← hexValue? a) * 16 + (← hexValue? b)) * 16 + (← hexValue? c)) * 16 + (← hexValue? d)

/-- The character of an escape that is not a code. -/
def unescape? (c : Char) : Option Char :=
  if c = '"' ∨ c = '\\' ∨ c = '/' then some c
  else if c = 'b' then some '\x08'
  else if c = 'f' then some '\x0c'
  else if c = 'n' then some '\n'
  else if c = 'r' then some '\r'
  else if c = 't' then some '\t'
  else none

/-- Whether a code is the first of a pair. -/
def isHighSurrogate (n : Nat) : Bool := 0xd800 ≤ n && n < 0xdc00

/-- Whether a code is the second of a pair. -/
def isLowSurrogate (n : Nat) : Bool := 0xdc00 ≤ n && n < 0xe000

/-- The character of a surrogate pair. -/
def pairChar (high low : Nat) : Char := Char.ofNat (0x10000 + (high - 0xd800) * 0x400 + (low - 0xdc00))

/-- The codes of a string after its opening quote, and the rest; `seen` holds the codes so far, last
first. Only an escape can give the code of a surrogate. -/
def readCodes? (seen : List Nat) : List Char → Option (List Nat × List Char)
  | [] => none
  | '"' :: rest => some (seen.reverse, rest)
  | '\\' :: 'u' :: a :: b :: c :: d :: rest =>
    match hexValue4? a b c d with
    | none => none
    | some code => readCodes? (code :: seen) rest
  | '\\' :: mark :: rest =>
    match unescape? mark with
    | none => none
    | some c => readCodes? (c.toNat :: seen) rest
  | c :: rest => if c.toNat < 0x20 then none else readCodes? (c.toNat :: seen) rest

/-- The characters of codes, none if a surrogate stands alone; `seen` holds the characters so far,
last first. -/
def ofCodes? (seen : List Char) : List Nat → Option (List Char)
  | [] => some seen.reverse
  | code :: rest =>
    if isHighSurrogate code then
      match rest with
      | low :: rest =>
        if isLowSurrogate low then ofCodes? (pairChar code low :: seen) rest else none
      | [] => none
    else if isLowSurrogate code then none
    else ofCodes? (Char.ofNat code :: seen) rest

/-- A string after its opening quote, if its codes give one, and the rest. -/
def readString? (text : List Char) : Option (Option String × List Char) :=
  (readCodes? [] text).map fun (codes, rest) => ((ofCodes? [] codes).map String.ofList, rest)

/-! ## Section 2: Values -/

/-- Whether a character may stand between the parts of a text. -/
def isSpace (c : Char) : Bool := c = ' ' || c = '\t' || c = '\n' || c = '\r'

/-- The text from its first character that is not a blank. -/
def skipSpaces (text : List Char) : List Char := text.dropWhile isSpace

/-- The object of members whose keys have been read. -/
def ofMembers (members : List (Option String × Json)) : Json :=
  let named? : Option (List (String × Json)) :=
    members.mapM fun (key, value) => key.map fun key => (key, value)
  named?.elim .unreadable .object

/-- The number of brackets that may be open at a time. -/
def nestingLimit : Nat := 127

/-- A value in brackets of its own, where `depth` brackets may be opened. -/
def bracketed (depth : Nat) (j : Json) : Json := if depth = 0 then .unreadable else j

mutual

/-- A value at the start of a text, and the rest; `depth` brackets may be opened. Every call is for a
shorter text, so the length of the text is `fuel` enough. -/
def readValue? (fuel depth : Nat) (text : List Char) : Option (Json × List Char) :=
  match fuel with
  | 0 => none
  | fuel + 1 =>
    match skipSpaces text with
    | 'n' :: 'u' :: 'l' :: 'l' :: rest => some (.null, rest)
    | 't' :: 'r' :: 'u' :: 'e' :: rest => some (.bool true, rest)
    | 'f' :: 'a' :: 'l' :: 's' :: 'e' :: rest => some (.bool false, rest)
    | '"' :: rest => (readString? rest).map fun (s, rest) => (s.elim .unreadable .string, rest)
    | '[' :: rest =>
      match skipSpaces rest with
      | ']' :: rest => some (bracketed depth (.array []), rest)
      | rest =>
        (readItems? fuel (depth - 1) rest).map fun (items, rest) =>
          (bracketed depth (.array items), rest)
    | '{' :: rest =>
      match skipSpaces rest with
      | '}' :: rest => some (bracketed depth (.object []), rest)
      | rest =>
        (readMembers? fuel (depth - 1) rest).map fun (members, rest) =>
          (bracketed depth (ofMembers members), rest)
    | rest => readNumber? rest

/-- One or more items and the closing bracket. -/
def readItems? (fuel depth : Nat) (text : List Char) : Option (List Json × List Char) :=
  match fuel with
  | 0 => none
  | fuel + 1 =>
    match readValue? fuel depth text with
    | none => none
    | some (item, rest) =>
      match skipSpaces rest with
      | ']' :: rest => some ([item], rest)
      | ',' :: rest => (readItems? fuel depth rest).map fun (items, rest) => (item :: items, rest)
      | _ => none

/-- One or more members and the closing brace. -/
def readMembers? (fuel depth : Nat) (text : List Char) :
    Option (List (Option String × Json) × List Char) :=
  match fuel with
  | 0 => none
  | fuel + 1 =>
    match skipSpaces text with
    | '"' :: rest =>
      match readString? rest with
      | none => none
      | some (key, rest) =>
        match skipSpaces rest with
        | ':' :: rest =>
          match readValue? fuel depth rest with
          | none => none
          | some (value, rest) =>
            match skipSpaces rest with
            | '}' :: rest => some ([(key, value)], rest)
            | ',' :: rest =>
              (readMembers? fuel depth rest).map fun (members, rest) =>
                ((key, value) :: members, rest)
            | _ => none
        | _ => none
    | _ => none

end

/-- The value of a whole text, parts without a value among its parts if the text has such. -/
def scan? (text : List Char) : Option Json :=
  match readValue? (text.length + 1) nestingLimit text with
  | some (value, rest) => if skipSpaces rest = [] then some value else none
  | none => none

/-- The value that a whole text holds. -/
def parse? (text : List Char) : Option Json := (scan? text).filter isReadable

end Json

end Dataflow
