import Mathlib.Algebra.Group.Int.Defs
import Mathlib.Algebra.Group.Nat.Defs
import Mathlib.Data.Nat.Log
import Mathlib.Data.Rat.Defs

/-!
# Doubles

The finite doubles that are not negative, as the pairs of a significand and an
exponent that the format has. `round` gives the double next to a fraction, with
ties to the even significand, and `none` where the result would be infinite;
`shortest` gives the decimal that a double is printed as: of the decimals that
round to it, one with the fewest digits, and of these the closest.

The definitions compute on natural numbers: a fraction is a pair of a numerator
and a denominator.
-/

namespace Binary64

/-- The value is `mantissa * 2 ^ exponent`. -/
structure Double where
  mantissa : Nat
  exponent : Int
  mantissa_lt : mantissa < 2 ^ 53
  exponent_ge : -1074 ≤ exponent
  exponent_le : exponent ≤ 971
  normal : exponent = -1074 ∨ 2 ^ 52 ≤ mantissa
  deriving DecidableEq

namespace Double

/-- Zero, with the least exponent. -/
def zero : Double := ⟨0, -1074, by decide, by decide, by decide, .inl rfl⟩

/-- The double with this significand and exponent, if there is one. -/
def of? (mantissa : Nat) (exponent : Int) : Option Double :=
  if h : mantissa < 2 ^ 53 ∧ -1074 ≤ exponent ∧ exponent ≤ 971 ∧
      (exponent = -1074 ∨ 2 ^ 52 ≤ mantissa) then
    some ⟨mantissa, exponent, h.1, h.2.1, h.2.2.1, h.2.2.2⟩
  else none

variable (x : Double)

/-- The value is `num / den`. -/
def num : Nat := x.mantissa * 2 ^ x.exponent.toNat
/-- A power of two. -/
def den : Nat := 2 ^ (-x.exponent).toNat

end Double

/-! ## Rounding -/

/-- `n / d`, rounded to the next natural number, ties to even. -/
def halfEven (n d : Nat) : Nat :=
  if 2 * (n % d) < d ∨ 2 * (n % d) = d ∧ n / d % 2 = 0 then n / d else n / d + 1

/-- `⌊log₂ (n / d)⌋`. -/
def log2 (n d : Nat) : Int :=
  let k : Int := (n.log2 : Int) - (d.log2 : Int)
  if d * 2 ^ k.toNat ≤ n * 2 ^ (-k).toNat then k else k - 1

/-- The double next to `n / d`; `none` when it is infinite. -/
def round (n d : Nat) : Option Double :=
  if n = 0 then some Double.zero
  else
    let exponent := max (-1074) (log2 n d - 52)
    let mantissa := halfEven (n * 2 ^ (-exponent).toNat) (d * 2 ^ exponent.toNat)
    -- rounding up may lead to the next power of two
    if mantissa = 2 ^ 53 then Double.of? (2 ^ 52) (exponent + 1)
    else Double.of? mantissa exponent

namespace Double

/-- The nearest double to the product; none if it is too large. -/
def mul (x y : Double) : Option Double := round (x.num * y.num) (x.den * y.den)

/-- The nearest double to the quotient. -/
def div (x y : Double) : Option Double := round (x.num * y.den) (x.den * y.num)

end Double

/-! ## Printing -/

namespace Double

variable (x : Double)

/-- The multiple of `10 ^ (-k)` that rounds to the double; the closer one of two. -/
def decimalAt (k : Int) : Option Nat :=
  let up := 10 ^ k.toNat
  let down := 10 ^ (-k).toNat
  let below := x.num * up / (x.den * down)
  let isBack (m : Nat) : Bool := round (m * down) up = some x
  match isBack below, isBack (below + 1) with
  | true, true => some (halfEven (x.num * up) (x.den * down))
  | true, false => some below
  | false, true => some (below + 1)
  | false, false => none

/-- The first of the scales from `k` on that have a decimal of the double. -/
def shortestFrom : Nat → Int → Rat
  | 0, _ => mkRat x.num x.den
  | fuel + 1, k =>
    match x.decimalAt k with
    | some m => mkRat (m * 10 ^ (-k).toNat) (10 ^ k.toNat)
    | none => shortestFrom fuel (k + 1)

/-- The number of digits of a natural number. -/
def digitCount (n : Nat) : Nat := (Nat.toDigits 10 n).length

/-- The decimal that the double is printed as. -/
def shortest : Rat :=
  if x.mantissa = 0 then 0 else x.shortestFrom 700 (-(digitCount (x.num / x.den) : Int))

end Double

end Binary64
