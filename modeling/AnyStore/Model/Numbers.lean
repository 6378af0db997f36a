import AnyStore.Lib.Binary64

/-!
# Numbers in texts

How the standard library reads an integer and how `serde_json` reads a number,
with the features that the workspace builds it with: digits are taken into 64
bits as long as they fit, and what is not an integer then becomes a double by one
multiplication or division with a power of ten. That is not always the double
that is closest to the text.
-/

namespace AnyStore

open Binary64

/-! ## Integers -/

/-- `char::to_digit`. -/
def toDigit (radix : Nat) (b : UInt8) : Option Nat :=
  let digit :=
    if 0x30 ≤ b ∧ b ≤ 0x39 then b.toNat - 0x30
    else if 0x41 ≤ b ∧ b ≤ 0x5A then b.toNat - 0x37
    else if 0x61 ≤ b ∧ b ≤ 0x7A then b.toNat - 0x57
    else radix
  if digit < radix then some digit else none

/-- `from_str_radix` of an unsigned type whose values lie below `bound`. A
leading `+` is accepted in front of the digits. -/
def fromStrRadix (radix bound : Nat) (src : List UInt8) : Option Nat :=
  let digits := fun (text : List UInt8) => text.foldlM (fun n b => do
    let n := n * radix + (← toDigit radix b)
    if n < bound then some n else none) 0
  match src with
  | [] => none
  | [b] => if b = 0x2B ∨ b = 0x2D then none else digits [b]
  | b :: rest => if b = 0x2B then digits rest else digits (b :: rest)

/-- `str::parse::<i64>`: below a minus sign the digits are read with their negative
values. -/
def parseI64 (src : List UInt8) : Option Int :=
  let digits := fun (sign : Int) (text : List UInt8) => text.foldlM (fun n b => do
    let n := n * 10 + sign * (← toDigit 10 b)
    if -(2 ^ 63) ≤ n ∧ n < 2 ^ 63 then some n else none) 0
  match src with
  | [] => none
  | [b] => if b = 0x2B ∨ b = 0x2D then none else digits 1 [b]
  | b :: rest =>
    if b = 0x2B then digits 1 rest
    else if b = 0x2D then digits (-1) rest
    else digits 1 (b :: rest)

/-! ## Numbers of JSON -/

/-- The entries of `POW10`, which ends at `1e308`. -/
def pow10 (k : Nat) : Option Double := if k ≤ 308 then round (10 ^ k) 1 else none

/-- The loop of `f64_from_parts`; `none` is `number out of range`. -/
def scaleByPow10 : Nat → Double → Int → Option Double
  | 0, _, _ => none
  | fuel + 1, f, exponent =>
    if exponent.natAbs ≤ 308 then do
      let pow ← pow10 exponent.natAbs
      if 0 ≤ exponent then f.mul pow else f.div pow
    else if f = .zero then some f
    else if 0 ≤ exponent then none
    else do
      let f ← f.div (← pow10 308)
      scaleByPow10 fuel f (exponent + 308)

def f64FromParts (significand : Nat) (exponent : Int) : Option Double := do
  scaleByPow10 (exponent.natAbs / 308 + 1) (← round significand 1) exponent

/-- The significand after the digits that fit into a `u64`, and the others. -/
def takeDigits (significand : Nat) : List Nat → Nat × List Nat
  | [] => (significand, [])
  | d :: digits =>
    if significand * 10 + d < 2 ^ 64 then takeDigits (significand * 10 + d) digits
    else (significand, d :: digits)

/-- What a number is read as. -/
inductive ParsedNumber
  | integer (n : Int)
  -- a double, by the decimal that it is printed as
  | double (q : Rat)
  deriving DecidableEq

def ParsedNumber.ofDouble (negative : Bool) (f : Double) : ParsedNumber :=
  .double (if negative then -f.shortest else f.shortest)

/-- `parse_integer` and `parse_long_integer`, on a number without a point. -/
def parseInteger (negative : Bool) (digits : List Nat) : Option ParsedNumber :=
  let (significand, rest) := takeDigits 0 digits
  -- a negative integer has to fit into an `i64`
  if rest = [] ∧ (negative = false ∨ significand ≤ 2 ^ 63) then
    some (.integer (if negative then -significand else significand))
  else do
    let f ← f64FromParts significand rest.length
    return .ofDouble negative f

/-- `parse_decimal` after the digits before the point; the digits that do not
fit are counted before the point and ignored behind it. -/
def parseDecimal (negative : Bool) (digits fraction : List Nat) : Option ParsedNumber := do
  let (significand, long) := takeDigits 0 digits
  let (significand, ignored) := takeDigits significand fraction
  let f ← f64FromParts significand (long.length + ignored.length - fraction.length : Int)
  return .ofDouble negative f

/-- The digits of a natural number. -/
def digitsOf (n : Nat) : List Nat := (Nat.toDigits 10 n).map fun c => c.toNat - '0'.toNat

/-- The digits behind the point that a fraction needs, at least one. -/
def decimalPlaces (q : Rat) : Option Nat :=
  (List.range' 1 1100).find? fun k => 10 ^ k % q.den = 0

/-- An integer of a text. -/
def readInteger (n : Int) : Option ParsedNumber :=
  parseInteger (n < 0) (digitsOf n.natAbs)

/-- A number with a point, as `1.0`. -/
def readDecimal (q : Rat) : Option ParsedNumber := do
  let places ← decimalPlaces q
  let digits := q.num.natAbs * (10 ^ places / q.den)
  let fraction := digitsOf (digits % 10 ^ places)
  parseDecimal (q < 0) (digitsOf (digits / 10 ^ places))
    (List.replicate (places - fraction.length) 0 ++ fraction)

end AnyStore
