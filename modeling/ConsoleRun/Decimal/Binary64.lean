-- Floating point numbers of 64 bits without their sign, as whole numbers: a number is
-- `mantissa * 2 ^ exponent`. Rounding is to the nearest, and a tie goes to the even one.

namespace ConsoleRun

structure Binary64 where
  mantissa : Nat
  exponent : Int
  deriving DecidableEq, Repr

namespace Binary64

def zero : Binary64 := ⟨0, -1074⟩

-- The whole number nearest to a ratio; of two the even one.
def roundDiv (num den : Nat) : Nat :=
  let quotient := num / den
  let rest := 2 * (num % den)
  if rest < den || (rest == den && quotient % 2 == 0) then quotient else quotient + 1

-- The ratio of `num / den` to `2 ^ exponent`, again as a ratio.
def scaled (num den : Nat) (exponent : Int) : Nat × Nat :=
  if 0 ≤ exponent then (num, den * Nat.pow 2 exponent.toNat)
  else (num * Nat.pow 2 (-exponent).toNat, den)

-- The exponent that gives a ratio a mantissa of 53 bits, or the least exponent there is.
def exponentOf (num den : Nat) : Int :=
  let guess : Int := Int.ofNat (Nat.log2 num) - Int.ofNat (Nat.log2 den) - 52
  let (n, d) := scaled num den guess
  max (if n < d * Nat.pow 2 52 then guess - 1 else guess) (-1074)

-- The number nearest to a ratio. One that is too large has none.
def ofRatio? (num den : Nat) : Option Binary64 :=
  if num == 0 then some zero
  else
    let exponent := exponentOf num den
    let (n, d) := scaled num den exponent
    let mantissa := roundDiv n d
    let (mantissa, exponent) :=
      if mantissa == Nat.pow 2 53 then (Nat.pow 2 52, exponent + 1) else (mantissa, exponent)
    if 971 < exponent then none else some ⟨mantissa, exponent⟩

def ofNat? (n : Nat) : Option Binary64 := ofRatio? n 1

-- A number as a ratio.
def ratio (number : Binary64) : Nat × Nat :=
  if 0 ≤ number.exponent then (number.mantissa * Nat.pow 2 number.exponent.toNat, 1)
  else (number.mantissa, Nat.pow 2 (-number.exponent).toNat)

def mul? (a b : Binary64) : Option Binary64 :=
  ofRatio? (a.ratio.1 * b.ratio.1) (a.ratio.2 * b.ratio.2)

-- A divisor of zero gives nothing.
def div? (a b : Binary64) : Option Binary64 :=
  if b.mantissa == 0 then none
  else ofRatio? (a.ratio.1 * b.ratio.2) (a.ratio.2 * b.ratio.1)

end Binary64
end ConsoleRun
