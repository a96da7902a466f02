import ConsoleRun.Decimal.Shortest
import ConsoleRun.Text.Word

-- Exchanged data. A value keeps what a strict reader has to judge later: members in their
-- order with repetitions, numbers as they were written, and strings that name no text.

namespace ConsoleRun

-- A number as it was written: digits before and behind the point, and the exponent.
structure JsonNumber where
  negative : Bool
  whole : Text
  fraction : Option Text
  -- Sign and digits; the sign says that the exponent is below zero.
  power : Option (Bool × Text)
  deriving DecidableEq, Repr

inductive Json where
  | null
  | bool (value : Bool)
  | number (value : JsonNumber)
  -- A string has no text when its escapes name half of a character.
  | string (text : Option Text)
  | array (items : List Json)
  | object (members : List (Option Text × Json))

namespace JsonNumber

def ofNat (n : Nat) : JsonNumber := ⟨false, Text.ofNat n, none, none⟩

def natOf (digits : Text) : Nat := (Text.digits? digits).getD 0

-- A whole number: no point, no exponent. A minus sign before zero makes it a real one.
def int? (number : JsonNumber) : Option Int :=
  match number.fraction, number.power with
  | none, none =>
    let n := natOf number.whole
    if number.negative then if n == 0 then none else some (-(n : Int)) else some n
  | _, _ => none

-- A whole number from zero up to, not including, a bound.
def below? (bound : Nat) (number : JsonNumber) : Option Nat :=
  number.int?.bind fun n => if 0 ≤ n && n < bound then some n.toNat else none

-- Digits are taken while they fit 64 bits; of the others only the places count.
structure Significand where
  value : Nat
  dropped : Nat
  full : Bool

def Significand.push (sofar : Significand) (digit : Nat) : Significand :=
  if sofar.full || Nat.pow 2 64 ≤ sofar.value * 10 + digit then
    { sofar with dropped := sofar.dropped + 1, full := true }
  else { sofar with value := sofar.value * 10 + digit }

def significand (digits : Text) : Significand → Significand :=
  fun start => digits.foldl (fun sofar c => sofar.push (c.toNat - 48)) start

-- Ten to a power of at most 308, rounded.
def tenTo (n : Nat) : Option Binary64 := Binary64.ofRatio? (Nat.pow 10 n) 1

-- Scales by a power of ten in steps that are each rounded. Growing too large is refused.
def scaleBy : (fuel : Nat) → Binary64 → Int → Option Binary64
  | 0, _, _ => none
  | fuel + 1, number, exponent =>
    if exponent.natAbs ≤ 308 then
      (tenTo exponent.natAbs).bind fun power =>
        if 0 ≤ exponent then number.mul? power else number.div? power
    else if number.mantissa == 0 then some number
    else if 0 ≤ exponent then none
    else
      (tenTo 308).bind fun power =>
        (number.div? power).bind fun smaller => scaleBy fuel smaller (exponent + 308)

-- The exponent of the last digit that is kept: digits before the point that do not fit
-- raise it, digits behind it lower it, and those behind it that do not fit are ignored.
def powerOf (number : JsonNumber) : Int :=
  match number.power with
  | some (negative, digits) =>
    let n : Int := natOf digits
    if negative then -n else n
  | none => 0

-- The size of a real number. One that is too large has none.
def magnitude? (number : JsonNumber) : Option Binary64 :=
  let whole := significand number.whole ⟨0, 0, false⟩
  let fraction := number.fraction.getD []
  let all := significand fraction ⟨whole.value, 0, false⟩
  let exponent : Int := Int.ofNat whole.dropped - Int.ofNat (fraction.length - all.dropped)
  let power := number.powerOf
  if all.value != 0 && Nat.pow 2 31 ≤ power then none
  else if all.value == 0 || power ≤ -(Nat.pow 2 31) then some Binary64.zero
  else
    (Binary64.ofNat? all.value).bind fun start => scaleBy 4 start (exponent + power)

-- Exponents from -5 to 15 are written positionally.
def style : Decimal.Style := ⟨-5, 15⟩

-- The text of a number: whole numbers of 64 bits as they are, any other number by the
-- fewest digits that read back.
def text? (number : JsonNumber) : Option Text :=
  let sign : Text := if number.negative then ['-'] else []
  let whole := number.int?.bind fun n =>
    if -(Nat.pow 2 63) ≤ n && n < Nat.pow 2 64 then some (sign ++ Text.ofNat n.natAbs) else none
  match whole with
  | some text => some text
  | none => number.magnitude?.map fun size => sign ++ Decimal.write style size

end JsonNumber

namespace Json

def ofText (text : Text) : Json := .string (some text)

def ofNat (n : Nat) : Json := .number (.ofNat n)

def ofOption (encode : α → Json) : Option α → Json
  | some value => encode value
  | none => .null

def ofMembers (members : List (String × Json)) : Json :=
  .object (members.map fun member => (some member.1.toList, member.2))

end Json
end ConsoleRun
