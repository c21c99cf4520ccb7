/-! # Binary floating-point numbers

    A number is its bit pattern: sign, exponent field, fraction field. What the
    pattern stands for is computed in exact natural numbers, in units of the
    smallest positive number of the format, and every inexact operation ends in
    one rounding, `Format.nearest`, to the nearest pattern with ties to even.

    The patterns without the sign bit are called magnitudes. They are ordered
    as the numbers they stand for, with infinity on top and the patterns that
    are not a number above it.
-/

namespace Dataflow

-- Powers of natural numbers are those of the core library, whatever else is imported.
attribute [local instance (high)] instPowNat

/-! ## Section 1: Formats -/

/-- The widths of a binary interchange format. -/
structure Format where
  /-- Stored bits of the significand; one more is implied. -/
  fractionBits : Nat
  /-- Bits of the exponent field. -/
  exponentBits : Nat
deriving DecidableEq

namespace Format

/-- The 32-bit format. -/
def single : Format := ⟨23, 8⟩

/-- The 64-bit format. -/
def double : Format := ⟨52, 11⟩

/-- The bits below the sign. -/
def signPlace (f : Format) : Nat := f.exponentBits + f.fractionBits

/-- The bits of a pattern. -/
def width (f : Format) : Nat := f.signPlace + 1

/-- The magnitude of infinity: exponent field all ones, fraction zero. -/
def infinity (f : Format) : Nat := (2 ^ f.exponentBits - 1) * 2 ^ f.fractionBits

/-- The smallest positive number is `2 ^ (-scale)`; it is called a unit. -/
def scale (f : Format) : Nat := 2 ^ (f.exponentBits - 1) - 2 + f.fractionBits

/-- The number of units that a magnitude stands for. -/
def units (f : Format) (magnitude : Nat) : Nat :=
  if magnitude < 2 ^ f.fractionBits then magnitude
  else (magnitude % 2 ^ f.fractionBits + 2 ^ f.fractionBits)
    * 2 ^ (magnitude / 2 ^ f.fractionBits - 1)

/-- The quotient rounded to the nearest natural number, a half to the even neighbour. -/
def divToEven (num den : Nat) : Nat :=
  let q := num / den
  let r := num % den
  if den < 2 * r ∨ (den = 2 * r ∧ q % 2 = 1) then q + 1 else q

/-- The magnitude nearest to `num / den`, a tie to the even pattern. What rounds past the
largest finite number is infinity. -/
def nearest (f : Format) (num den : Nat) : Nat :=
  let scaled := num * 2 ^ f.scale
  let exponent := (scaled / den).log2 - f.fractionBits
  min f.infinity (exponent * 2 ^ f.fractionBits + divToEven scaled (den * 2 ^ exponent))

/-- The product of two finite magnitudes. -/
def mul (f : Format) (a b : Nat) : Nat := f.nearest (f.units a * f.units b) (2 ^ (2 * f.scale))

/-- The quotient of two finite magnitudes, the second not zero. -/
def div (f : Format) (a b : Nat) : Nat := f.nearest (f.units a) (f.units b)

end Format

/-! ## Section 2: Patterns -/

/-- A floating-point number of a format, held as its bit pattern. -/
structure Binary (f : Format) where
  /-- The bits, sign first. -/
  pattern : Fin (2 ^ f.width)
deriving DecidableEq

/-- Numbers of the 32-bit format. -/
abbrev Binary32 := Binary .single

/-- Numbers of the 64-bit format. -/
abbrev Binary64 := Binary .double

namespace Binary

variable {f : Format}

/-- The number with the low bits of `n` as its pattern. -/
def ofPattern (n : Nat) : Binary f := ⟨n % 2 ^ f.width, Nat.mod_lt _ (Nat.two_pow_pos _)⟩

/-- The number with a sign and a magnitude. -/
def ofMagnitude (negative : Bool) (magnitude : Nat) : Binary f :=
  ofPattern (magnitude + if negative then 2 ^ f.signPlace else 0)

instance : Inhabited (Binary f) := ⟨ofPattern 0⟩

/-- Whether the sign bit is set. -/
def isNegative (x : Binary f) : Bool := 2 ^ f.signPlace ≤ x.pattern.val

/-- The pattern without its sign bit. -/
def magnitude (x : Binary f) : Nat := x.pattern.val % 2 ^ f.signPlace

/-- Whether the pattern stands for no number. -/
def isNaN (x : Binary f) : Bool := f.infinity < x.magnitude

/-- Whether the number is finite. -/
def isFinite (x : Binary f) : Bool := x.magnitude < f.infinity

/-- The one pattern that this library makes for what is not a number. -/
def nan : Binary f := ofMagnitude false (f.infinity + 2 ^ (f.fractionBits - 1))

/-- The number nearest to a quotient, with a sign. -/
def ofQuotient (negative : Bool) (num den : Nat) : Binary f :=
  ofMagnitude negative (f.nearest num den)

/-- The number nearest to an integer. -/
def ofInt (i : Int) : Binary f := ofQuotient (i < 0) i.natAbs 1

/-- The number nearest to one of another format. Infinities and signs are kept. -/
def convert {g : Format} (x : Binary f) : Binary g :=
  if x.isNaN then nan
  else if x.isFinite then ofQuotient x.isNegative (f.units x.magnitude) (2 ^ f.scale)
  else ofMagnitude x.isNegative g.infinity

/-! ## Section 3: Order -/

/-- The signed magnitude; both zeros have key zero. -/
def key (x : Binary f) : Int := if x.isNegative then -x.magnitude else x.magnitude

/-- Whether one number is less than another; never with a pattern that is not a number. -/
def lt (x y : Binary f) : Bool := !x.isNaN && !y.isNaN && x.key < y.key

/-- Whether one number is at most another; never with a pattern that is not a number. -/
def le (x y : Binary f) : Bool := !x.isNaN && !y.isNaN && x.key ≤ y.key

/-- Whether two patterns stand for the same number: the zeros do, and what is not a number
differs from itself. -/
def sameNumber (x y : Binary f) : Bool := !x.isNaN && !y.isNaN && x.key == y.key

/-! ## Section 4: Known patterns -/

example : (ofInt 1 : Binary64).pattern.val = 0x3ff0000000000000 := by decide +kernel
example : (ofInt (-2) : Binary32).pattern.val = 0xc0000000 := by decide +kernel
example : (ofQuotient false 4 5 : Binary32).pattern.val = 0x3f4ccccd := by decide +kernel
example : (ofQuotient false 1 10 : Binary64).pattern.val = 0x3fb999999999999a := by decide +kernel
example : (ofInt (2 ^ 53 + 1) : Binary64) = ofInt (2 ^ 53) := by decide +kernel
example : (ofInt (2 ^ 1024) : Binary64).magnitude = Format.double.infinity := by decide +kernel

end Binary

end Dataflow
