import Dataflow.Json.Basic
import Dataflow.Text.Numeral

/-! # Numbers in JSON texts

    A number without point and power of ten is exact if it fits 64 bits, with
    or without sign; minus zero does not, as no whole number has that sign.
    Every other number is a double.

    Doubles are read fast rather than correctly rounded: digits are taken into
    a 64-bit significand while they fit, the others only shift the point, and
    the power of ten is applied by one rounded multiplication or division. So
    the result may differ from the nearest double in its last place. A number
    past the largest double has the form of a number but no value.
-/

namespace Dataflow

-- Powers of natural numbers are those of the core library, whatever else is imported.
attribute [local instance (high)] instPowNat

namespace Json

/-! ## Section 1: The significand -/

/-- The greatest significand. -/
def greatestSignificand : Nat := UInt64.size - 1

/-- Takes digits into the significand up to the first that no longer fits; also returns how many
it took, and the rest. -/
def takeDigits (significand : Nat) : List Char → Nat × Nat × List Char
  | [] => (significand, 0, [])
  | c :: rest =>
    let next := 10 * significand + (c.toNat - '0'.toNat)
    if c.isDigit ∧ next ≤ greatestSignificand then
      let (result, count, rest) := takeDigits next rest
      (result, count + 1, rest)
    else (significand, 0, c :: rest)

/-! ## Section 2: Powers of ten -/

/-- The greatest power of ten among the doubles. -/
def greatestPower : Nat := 308

/-- The double nearest to a power of ten. -/
def powerOfTen (e : Nat) : Nat := Format.double.nearest (10 ^ e) 1

/-- The magnitude divided by a power of ten, by the greatest power at a time while it is not zero. -/
def divideByPower (magnitude e : Nat) : Nat :=
  if e ≤ greatestPower then Format.double.div magnitude (powerOfTen e)
  else if magnitude = 0 then 0
  else divideByPower (Format.double.div magnitude (powerOfTen greatestPower)) (e - greatestPower)
termination_by e
decreasing_by simp only [greatestPower] at *; omega

/-- The double for `significand * 10 ^ exponent`; none past the largest one. -/
def scaled? (negative : Bool) (significand : Nat) (exponent : Int) : Option Binary64 :=
  let whole := Format.double.nearest significand 1
  match exponent with
  | .negSucc e => some (.ofMagnitude negative (divideByPower whole (e + 1)))
  | .ofNat e =>
    if significand = 0 then some (.ofMagnitude negative 0)
    else if greatestPower < e then none
    else
      let product := Format.double.mul whole (powerOfTen e)
      if product < Format.double.infinity then some (.ofMagnitude negative product) else none

/-- The number `significand * 10 ^ exponent` as a double. -/
def scaled (negative : Bool) (significand : Nat) (exponent : Int) : Json :=
  (scaled? negative significand exponent).elim .unreadable .double

/-! ## Section 3: Numbers -/

/-- The digits of a power of ten after its sign. -/
def readPower? : List Char → Option (Int × List Char)
  | '+' :: rest => digits? 1 rest
  | '-' :: rest => digits? (-1) rest
  | rest => digits? 1 rest
where
  digits? (sign : Int) (rest : List Char) : Option (Int × List Char) :=
    let (digits, rest) := rest.span Char.isDigit
    if digits = [] then none else some (sign * ofDigits digits, rest)

/-- A double whose digits have been read; a power of ten may follow. -/
def finishDouble? (negative : Bool) (significand : Nat) (exponent : Int) (rest : List Char) :
    Option (Json × List Char) := do
  match rest with
  | mark :: power =>
    if mark = 'e' ∨ mark = 'E' then
      let (e, rest) ← readPower? power
      some (scaled negative significand (exponent + e), rest)
    else some (scaled negative significand exponent, rest)
  | [] => some (scaled negative significand exponent, [])

/-- A number without point and power of ten. -/
def wholeNumber (negative : Bool) (significand : Nat) : Json :=
  if negative then
    if significand = 0 ∨ UInt64.size / 2 < significand then .double (.ofQuotient true significand 1)
    else .integer (-Int.ofNat significand)
  else .integer (Int.ofNat significand)

/-- A number whose whole part has been read; `dropped` digits of it did not fit. -/
def finishNumber? (negative : Bool) (significand dropped : Nat) (rest : List Char) :
    Option (Json × List Char) :=
  match rest with
  | '.' :: rest =>
    let (significand, taken, rest) := takeDigits significand rest
    let (ignored, rest) := rest.span Char.isDigit
    if taken = 0 ∧ ignored = [] then none
    else finishDouble? negative significand (dropped - taken) rest
  | mark :: _ =>
    if mark = 'e' ∨ mark = 'E' ∨ 0 < dropped then finishDouble? negative significand dropped rest
    else some (wholeNumber negative significand, rest)
  | [] =>
    if 0 < dropped then finishDouble? negative significand dropped rest
    else some (wholeNumber negative significand, rest)

/-- A number after its sign. Only zero may start with the digit zero. -/
def readUnsigned? (negative : Bool) (text : List Char) : Option (Json × List Char) :=
  match text with
  | '0' :: rest =>
    if rest.head?.any Char.isDigit then none else finishNumber? negative 0 0 rest
  | c :: _ =>
    if c.isDigit then
      let (significand, _, rest) := takeDigits 0 text
      let (dropped, rest) := rest.span Char.isDigit
      finishNumber? negative significand dropped.length rest
    else none
  | [] => none

/-- A number at the start of a text, and the rest. -/
def readNumber? : List Char → Option (Json × List Char)
  | '-' :: text => readUnsigned? true text
  | text => readUnsigned? false text

end Json

end Dataflow
