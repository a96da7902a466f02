import ConsoleRun.Decimal.Binary64
import ConsoleRun.Text

-- The fewest decimal digits that read back as a given number, and of those the nearest.

namespace ConsoleRun.Decimal

-- Digits `d₁ d₂ …` of the number `d₁.d₂… * 10 ^ exponent`, as one whole number.
structure Digits where
  value : Nat
  count : Nat
  exponent : Int
  deriving DecidableEq, Repr

-- The ends of the interval of ratios that round to a number, in units of a quarter of its
-- last place. Below a power of two the numbers lie closer together.
def lowerQuarters (number : Binary64) : Nat :=
  if number.mantissa == Nat.pow 2 52 && -1074 < number.exponent then 4 * number.mantissa - 1
  else 4 * number.mantissa - 2

def upperQuarters (number : Binary64) : Nat := 4 * number.mantissa + 2

-- Whether `num / den` rounds to the number. The ends belong to an even mantissa.
def roundsTo (number : Binary64) (num den : Nat) : Bool :=
  let (n, d) := Binary64.scaled (4 * num) den number.exponent
  let low := lowerQuarters number * d
  let high := upperQuarters number * d
  if number.mantissa % 2 == 0 then low ≤ n && n ≤ high else low < n && n < high

-- `value * 10 ^ place` as a ratio.
def placed (value : Nat) (place : Int) : Nat × Nat :=
  if 0 ≤ place then (value * Nat.pow 10 place.toNat, 1) else (value, Nat.pow 10 (-place).toNat)

-- The greatest `e` with `10 ^ e ≤ num / den`, searched downwards from a bound.
def magnitude (num den : Nat) : (fuel : Nat) → Int → Int
  | 0, place => place
  | fuel + 1, place =>
    let (n, d) := placed 1 place
    if n * den ≤ num * d then place else magnitude num den fuel (place - 1)

-- The two neighbours of a number on the grid of a decimal place.
def neighbours (number : Binary64) (place : Int) : Nat × Nat :=
  let (num, den) := number.ratio
  let (n, d) := placed 1 place
  let below := num * d / (den * n)
  (below, below + 1)

-- How far a point of the grid is from the number, up to a common factor.
def distance (number : Binary64) (place : Int) (value : Nat) : Nat :=
  let (num, den) := number.ratio
  let (n, d) := placed value place
  let a := num * d
  let b := n * den
  if a ≤ b then b - a else a - b

-- The point of a grid that reads back as the number, if there is one: the nearer of two,
-- and of two that are equally near the even one.
def onGrid? (number : Binary64) (place : Int) : Option Nat :=
  let (below, above) := neighbours number place
  let fits := fun value =>
    let (n, d) := placed value place
    roundsTo number n d
  match fits below, fits above with
  | true, true =>
    let near := distance number place below
    let far := distance number place above
    if near < far || (near == far && below % 2 == 0) then some below else some above
  | true, false => some below
  | false, true => some above
  | false, false => none

-- Tries grids from coarse to fine.
def search (number : Binary64) (top : Int) : (fuel : Nat) → (count : Nat) → Option (Nat × Int)
  | 0, _ => none
  | fuel + 1, count =>
    let place := top - (Int.ofNat count - 1)
    match onGrid? number place with
    | some value => if value == 0 then search number top fuel (count + 1) else some (value, place)
    | none => search number top fuel (count + 1)

def dropZeros : (fuel : Nat) → Nat → Int → Nat × Int
  | 0, value, place => (value, place)
  | fuel + 1, value, place =>
    if value % 10 == 0 && value != 0 then dropZeros fuel (value / 10) (place + 1)
    else (value, place)

-- Seventeen digits always read back.
def shortest (number : Binary64) : Digits :=
  if number.mantissa == 0 then ⟨0, 1, 0⟩
  else
    let (num, den) := number.ratio
    let top := magnitude num den 640 310
    match search number top 17 1 with
    | some (value, place) =>
      let (value, place) := dropZeros 20 value place
      let count := (Text.ofNat value).length
      ⟨value, count, place + (Int.ofNat count - 1)⟩
    | none => ⟨0, 1, 0⟩

-- How a number is written.
structure Style where
  -- Exponents that are written positionally.
  leastPlain : Int
  greatestPlain : Int

def Style.plain (style : Style) (exponent : Int) : Bool :=
  style.leastPlain ≤ exponent && exponent ≤ style.greatestPlain

def zeros (count : Nat) : Text := List.replicate count '0'

-- Positional, with at least one digit behind the point.
def positional (digits : Digits) : Text :=
  let written := Text.ofNat digits.value
  if 0 ≤ digits.exponent then
    let whole := digits.exponent.toNat + 1
    let fraction := written.drop whole
    written.take whole ++ zeros (whole - written.length) ++ '.' ::
      (if fraction.isEmpty then ['0'] else fraction)
  else '0' :: '.' :: zeros ((-digits.exponent).toNat - 1) ++ written

-- One digit before the point, none behind it if there is only one, and a signed exponent.
def scientific (digits : Digits) : Text :=
  let written := Text.ofNat digits.value
  let fraction := written.drop 1
  let sign := if digits.exponent < 0 then '-' else '+'
  written.take 1 ++ (if fraction.isEmpty then [] else '.' :: fraction) ++
    'e' :: sign :: Text.ofNat digits.exponent.natAbs

def write (style : Style) (number : Binary64) : Text :=
  let digits := shortest number
  if style.plain digits.exponent then positional digits else scientific digits

end ConsoleRun.Decimal
