import Dataflow.Binary.Basic

/-! # Numerals

    Reading numbers from text: whole numbers in a range, truth values, and
    decimals rounded to a binary format. A numeral is the whole text; nothing
    may stand before or after it.
-/

namespace Dataflow

-- Powers of natural numbers are those of the core library, whatever else is imported.
attribute [local instance (high)] instPowNat

/-! ## Section 1: Whole numbers -/

/-- The number that a run of decimal digits stands for. -/
def ofDigits (digits : List Char) : Nat := Nat.ofDigitChars 10 digits 0

/-- A text of one or more digits. -/
def readDigits? (text : List Char) : Option Nat :=
  if text ≠ [] ∧ text.all Char.isDigit then some (ofDigits text) else none

/-- Digits after an optional sign. -/
def readSigned? : List Char → Option Int
  | '+' :: text => (readDigits? text).map Int.ofNat
  | '-' :: text => (readDigits? text).map fun n => -Int.ofNat n
  | text => (readDigits? text).map Int.ofNat

/-- An integer in the range of 64-bit integers. -/
def int64OfInt? (i : Int) : Option Int64 :=
  if Int64.minValue.toInt ≤ i ∧ i ≤ Int64.maxValue.toInt then some (Int64.ofInt i) else none

/-- A signed numeral in the range of 64-bit integers. -/
def readInt64? (text : List Char) : Option Int64 := readSigned? text >>= int64OfInt?

/-- A numeral in the range of 32-bit words; a plus sign may stand first, a minus sign may not. -/
def readUInt32? (text : List Char) : Option UInt32 := do
  let n ← match text with
    | '+' :: text => readDigits? text
    | text => readDigits? text
  if n < UInt32.size then some (UInt32.ofNat n) else none

/-- The words for the two truth values. -/
def readBool? (text : String) : Option Bool :=
  if text = "true" then some true else if text = "false" then some false else none

/-! ## Section 2: Decimals -/

/-- The number `significand * 10 ^ exponent`. -/
structure Decimal where
  /-- All digits, as one number. -/
  significand : Nat
  /-- The power of ten of the last digit. -/
  exponent : Int
deriving DecidableEq

namespace Decimal

/-- Digits with at most one point and at least one digit, then an optional power of ten. -/
def read? (text : List Char) : Option Decimal :=
  let (whole, rest) := text.span Char.isDigit
  let (fraction, rest) :=
    match rest with
    | '.' :: rest => rest.span Char.isDigit
    | rest => ([], rest)
  let significand := ofDigits (whole ++ fraction)
  if whole = [] ∧ fraction = [] then none
  else match rest with
    | [] => some ⟨significand, -fraction.length⟩
    | mark :: power =>
      if mark = 'e' ∨ mark = 'E' then
        (readSigned? power).map fun e => ⟨significand, e - fraction.length⟩
      else none

/-- The nearest magnitude of a format. Powers of ten that are certain to leave the range are not
computed: `10 ^ scale` is past the largest finite number, and `10 ^ (-scale)` is less than half
the smallest positive one. -/
def toMagnitude (f : Format) (d : Decimal) : Nat :=
  if d.significand = 0 then 0
  else match d.exponent with
    | .ofNat e => if f.scale < e then f.infinity else f.nearest (d.significand * 10 ^ e) 1
    | .negSucc e =>
      if f.scale + d.significand.log2 + 1 < e then 0 else f.nearest d.significand (10 ^ (e + 1))

end Decimal

/-! ## Section 3: Floating-point numerals -/

/-- A numeral without its sign: a decimal, or a word for infinity or for what is not a number,
in letters of any case. -/
def readMagnitude? (f : Format) (text : List Char) : Option Nat :=
  let word := String.ofList (text.map Char.toLower)
  if word = "inf" ∨ word = "infinity" then some f.infinity
  else if word = "nan" then some (Binary.nan : Binary f).magnitude
  else (Decimal.read? text).map (Decimal.toMagnitude f)

/-- The number of a format nearest to what a numeral stands for. -/
def Binary.read? {f : Format} : List Char → Option (Binary f)
  | '+' :: text => (readMagnitude? f text).map (Binary.ofMagnitude false)
  | '-' :: text => (readMagnitude? f text).map (Binary.ofMagnitude true)
  | text => (readMagnitude? f text).map (Binary.ofMagnitude false)

example : (Binary.read? "0.8".toList : Option Binary32) = some (Binary.ofQuotient false 4 5) := by
  decide +kernel

end Dataflow
