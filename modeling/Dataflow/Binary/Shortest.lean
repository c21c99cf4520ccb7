import Dataflow.Binary.Basic

/-! # Shortest decimals

    The decimal with the fewest digits that reads back to a given number, and
    among those the nearest one. Of two that are equally near, the text that is
    to be written decides.

    Every binary number has finitely many decimal places: a multiple of
    `2 ^ (-p)` is the same multiple of `5 ^ p`, counted in `10 ^ (-p)`. So the
    number, and the two ends of the interval that rounds to it, are whole
    numbers of that last place, and a shorter decimal is a multiple of a power
    of ten that lies between the ends.
-/

namespace Dataflow

-- Powers of natural numbers are those of the core library, whatever else is imported.
attribute [local instance (high)] instPowNat

/-! ## Section 1: Multiples of a power of ten in an interval -/

/-- Which of two neighbouring multiples stands for the number half-way between them. -/
inductive Tie where
  /-- The one with the even factor. -/
  | toEven
  /-- The greater one. -/
  | up
deriving DecidableEq

/-- Whether a number half-way above a multiple goes to the next one; `factor` is that of the
multiple below. -/
def Tie.goesUp : Tie → (factor : Nat) → Bool
  | .toEven, factor => factor % 2 = 1
  | .up, _ => true

/-- The whole numbers from `low` to `high`, the ends included if `closed`. -/
structure Interval where
  /-- The lower end. -/
  low : Nat
  /-- The upper end. -/
  high : Nat
  /-- Whether the ends belong to it. -/
  closed : Bool

/-- Whether a number lies in the interval. -/
def Interval.contains (i : Interval) (n : Nat) : Bool :=
  if i.closed then i.low ≤ n && n ≤ i.high else i.low < n && n < i.high

/-- The multiple of `10 ^ place` nearest to `value` among its two neighbours in the interval, as
the factor of `10 ^ place`. -/
def Interval.neighbour? (i : Interval) (tie : Tie) (value place : Nat) : Option Nat :=
  let step := 10 ^ place
  let factor := value / step
  let rest := value % step
  match i.contains (factor * step), i.contains ((factor + 1) * step) with
  | true, false => some factor
  | false, true => some (factor + 1)
  | true, true =>
    some (if step < 2 * rest ∨ (step = 2 * rest ∧ tie.goesUp factor) then factor + 1 else factor)
  | false, false => none

/-- The factor and the place for the coarsest place from `place` down that has a multiple in the
interval; the value itself is a multiple of `10 ^ 0`. -/
def Interval.coarsest (i : Interval) (tie : Tie) (value : Nat) : Nat → Nat × Nat
  | 0 => (value, 0)
  | place + 1 =>
    match i.neighbour? tie value (place + 1) with
    | some factor => (factor, place + 1)
    | none => i.coarsest tie value place

/-! ## Section 2: Scientific form -/

/-- The number `d.ddd… * 10 ^ exponent`, with `d` the first digit. -/
structure Scientific where
  /-- The digits, the last one not zero unless it is the only one. -/
  digits : List Char
  /-- The power of ten of the first digit. -/
  exponent : Int
deriving DecidableEq

/-- The digits without the zeros at their end; one digit stays. -/
def dropFinalZeros (digits : List Char) : List Char :=
  match digits.reverse.dropWhile (· == '0') with
  | [] => ['0']
  | kept => kept.reverse

/-- The scientific form of `factor * 10 ^ place`. -/
def Scientific.ofFactor (factor : Nat) (place : Int) : Scientific :=
  let digits := Nat.toDigits 10 factor
  ⟨dropFinalZeros digits, place + digits.length - 1⟩

/-- The places that every number of the format, and every midpoint of two of them, has. -/
def Format.places (f : Format) : Nat := f.scale + 1

/-- The shortest decimal that rounds to a finite magnitude. The interval of what rounds to it ends
half-way to its neighbours; the ends belong to it if the pattern is even. -/
def Format.shortest (f : Format) (tie : Tie) (magnitude : Nat) : Scientific :=
  if magnitude = 0 then ⟨['0'], 0⟩
  else
    let here := f.units magnitude
    let five := 5 ^ f.places
    let interval : Interval :=
      ⟨(f.units (magnitude - 1) + here) * five, (here + f.units (magnitude + 1)) * five,
        magnitude % 2 = 0⟩
    let value := 2 * here * five
    let (factor, place) := interval.coarsest tie value ((Nat.toDigits 10 value).length - 1)
    Scientific.ofFactor factor (place - f.places)

example : Format.double.shortest .toEven (Binary.ofQuotient false 1 10 : Binary64).magnitude =
    ⟨['1'], -1⟩ := by
  decide +kernel
example : Format.double.shortest .toEven 1 = ⟨['5'], -324⟩ := by decide +kernel
example : Format.single.shortest .up (Format.single.infinity - 1) =
    ⟨"34028235".toList, 38⟩ := by decide +kernel
-- The number 2.09765625 has nine digits; two decimals of eight are equally near.
example : Format.single.shortest .up (Format.single.nearest 537 256) =
    ⟨"20976563".toList, 0⟩ := by decide +kernel
example : Format.single.shortest .toEven (Format.single.nearest 537 256) =
    ⟨"20976562".toList, 0⟩ := by decide +kernel

end Dataflow
