import Dataflow.Binary.Shortest

/-! # Texts of floating-point numbers

    Two ways to write the shortest decimal of a number: plainly, with all zeros
    spelt out, and by a layout that changes to a power of ten outside a range
    of exponents. Of two shortest decimals that are equally near, the plain text
    has the greater one, the other text the one with an even last digit.
-/

namespace Dataflow

/-! ## Section 1: Whole part and fraction -/

namespace Scientific

/-- The digits before the point. -/
def wholePart (s : Scientific) : List Char :=
  match s.exponent with
  | .ofNat e => s.digits.take (e + 1) ++ List.replicate (e + 1 - s.digits.length) '0'
  | .negSucc _ => ['0']

/-- The digits after the point, none if the number is whole. -/
def fractionPart (s : Scientific) : List Char :=
  match s.exponent with
  | .ofNat e => s.digits.drop (e + 1)
  | .negSucc e => List.replicate e '0' ++ s.digits

/-- All digits up to the last one that is needed, and a point only before a fraction. -/
def plain (s : Scientific) : List Char :=
  s.wholePart ++ if s.fractionPart = [] then [] else '.' :: s.fractionPart

end Scientific

/-! ## Section 2: Layouts -/

/-- The exponents that are written without a power of ten. -/
structure Layout where
  /-- The least of them. -/
  least : Int
  /-- The greatest of them. -/
  greatest : Int

namespace Layout

/-- In the range of the layout a point with a digit on either side, outside it a power of ten with
a sign in front if it is greater than one. -/
def write (l : Layout) (s : Scientific) : List Char :=
  if l.least ≤ s.exponent ∧ s.exponent ≤ l.greatest then
    s.wholePart ++ '.' :: if s.fractionPart = [] then ['0'] else s.fractionPart
  else
    s.digits.take 1 ++ (if s.digits.drop 1 = [] then [] else '.' :: s.digits.drop 1)
      ++ 'e' :: (if 0 < s.exponent then ['+'] else ['-']) ++ Nat.toDigits 10 s.exponent.natAbs

end Layout

/-- The exponents that an encoded number shows without a power of ten, by format. -/
def Format.encodedLayout (f : Format) : Layout := if f = .single then ⟨-6, 12⟩ else ⟨-5, 15⟩

namespace Binary

variable {f : Format}

/-- The sign as text. -/
def signText (x : Binary f) : List Char := if x.isNegative then ['-'] else []

/-- The text of a number in messages. -/
def display (x : Binary f) : String :=
  if x.isNaN then "NaN"
  else String.ofList <| x.signText ++
    if x.isFinite then (f.shortest .up x.magnitude).plain else "inf".toList

/-- The text of a finite number in encoded values. -/
def encodedText (x : Binary f) : List Char :=
  x.signText ++ f.encodedLayout.write (f.shortest .toEven x.magnitude)

example : (ofQuotient false 1 10000000000 : Binary32).display = "0.0000000001" := by
  decide +kernel
example : (ofMagnitude true 0 : Binary32).display = "-0" := by decide +kernel
example : (ofQuotient true 93 512 : Binary32).display = "-0.18164063" := by decide +kernel
example : (ofQuotient true 93 512 : Binary32).encodedText = "-0.18164062".toList := by
  decide +kernel
example : (ofQuotient false (10 ^ 17) 1 : Binary64).encodedText = "1e+17".toList := by decide +kernel
example : (ofQuotient false (10 ^ 15) 1 : Binary64).encodedText = "1000000000000000.0".toList := by
  decide +kernel
example : (ofQuotient true 3 200 : Binary64).encodedText = "-0.015".toList := by decide +kernel

end Binary

end Dataflow
