import SecurityRules.Text.Bytes

/-!
# Double-precision numbers

A double is handled as its 64 bits, of which the non-negative ones are, in order, the numbers
`n · 2^q` with `n < 2^53` and `q ≥ -1074`. Decimal text is read to the nearest double.
-/

namespace SecurityRules.Number

/-! ## Rounding a quotient -/

/-- The natural number nearest to `num / den`; halfway between two it is the even one. -/
def roundHalfEven (num den : Nat) : Nat :=
  let quotient := num / den
  let twice := 2 * (num % den)
  if twice < den then quotient
  else if den < twice then quotient + 1
  else quotient + quotient % 2

namespace Binary64

/-! ## Doubles -/

/-- The exponent of the smallest positive double. -/
def leastExponent : Int := -1074

/-- The bits of positive infinity, which are one above those of the largest double. -/
def infinityBits : Nat := 0x7FF0000000000000

/-- `num / den` divided by `2 ^ q`, as a fraction again. -/
def scaled (num den : Nat) (q : Int) : Nat × Nat :=
  if 0 ≤ q then (num, den * 2 ^ q.toNat) else (num * 2 ^ (-q).toNat, den)

/-- The exponent at which the mantissa of `num / den` has 53 bits, but not below the least one. -/
def exponentFor (num den : Nat) : Int :=
  let estimate : Int := (Nat.log2 num : Int) - Nat.log2 den
  let (n, d) := scaled num den estimate
  max leastExponent ((if n < d then estimate - 1 else estimate) - 52)

/-- The bits of the double nearest to `num / den`; those of infinity or more if it is out of range. -/
def nearestBits (num den : Nat) : Nat :=
  if num = 0 then 0
  else
    let q := exponentFor num den
    let (n, d) := scaled num den q
    (q - leastExponent).toNat * 2 ^ 52 + roundHalfEven n d

/-- The double nearest to `mantissa · 10 ^ exponent`; none if that is out of range. As ten lies between
`2 ^ 3` and `2 ^ 4`, hopelessly large and small numbers are told from their exponents. -/
def ofDecimal? (mantissa : Nat) (exponent : Int) : Option UInt64 :=
  let size : Int := (Nat.log2 mantissa : Int)
  if mantissa = 0 then some 0
  else if 1100 < size + (if 0 ≤ exponent then 3 else 4) * exponent then none
  else if size + (if 0 ≤ exponent then 4 else 3) * exponent < -1200 then some 0
  else
    let bits :=
      if 0 ≤ exponent then nearestBits (mantissa * 10 ^ exponent.toNat) 1
      else nearestBits mantissa (10 ^ (-exponent).toNat)
    if infinityBits ≤ bits then none else some (UInt64.ofNat bits)

/-- Whether the sign bit is set. -/
def isNegative (bits : UInt64) : Bool := 0x8000000000000000 ≤ bits

/-- The magnitude of a finite double as a fraction. -/
def magnitude (bits : UInt64) : Nat × Nat :=
  let exponent : Nat := (bits.toNat / 2 ^ 52) % 2048
  let fraction : Nat := bits.toNat % 2 ^ 52
  let mantissa := if exponent = 0 then fraction else fraction + 2 ^ 52
  let q : Int := (max 1 exponent : Nat) + (leastExponent - 1)
  if 0 ≤ q then (mantissa * 2 ^ q.toNat, 1) else (mantissa, 2 ^ (-q).toNat)

end Binary64

/-! ## A fixed number of decimal places -/

/-- The decimal digits of `n / 10 ^ places`. -/
def placed (n places : Nat) : Bytes :=
  let digits := Bytes.padZeros (places + 1) (Bytes.decimal n)
  let whole := digits.take (digits.length - places)
  if places = 0 then whole else whole ++ "." ++ digits.drop (digits.length - places)

/-- A double with a fixed number of decimal places, rounded from its exact value; halves go to the even
neighbour. -/
def fixedBits (places : Nat) (bits : UInt64) : Bytes :=
  let exponent := (bits.toNat / 2 ^ 52) % 2048
  let sign : Bytes := if Binary64.isNegative bits then "-" else ""
  if exponent = 2047 then
    if bits.toNat % 2 ^ 52 = 0 then (if Binary64.isNegative bits then "-Inf" else "+Inf") else "NaN"
  else
    let (num, den) := Binary64.magnitude bits
    sign ++ placed (roundHalfEven (num * 10 ^ places) den) places

/-- The same of a number. -/
def fixed (places : Nat) (x : Float) : Bytes := fixedBits places x.toBits

end SecurityRules.Number
