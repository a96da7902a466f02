import ConsoleRun.Text
import ConsoleRun.Text.Word

-- Numbers as people type them: whole numbers in a range, and the shape of a decimal
-- number. Blanks and digit separators belong to no number.

namespace ConsoleRun.Numeral

-- A sign, if there is one, and what follows it.
def unsign : Text → Bool × Text
  | '-' :: rest => (true, rest)
  | '+' :: rest => (false, rest)
  | text => (false, text)

-- A whole number of 64 bits with an optional sign.
def signed64? (text : Text) : Option Int :=
  let (negative, rest) := unsign text
  (Text.digits? rest).bind fun n =>
    if negative then if n ≤ Nat.pow 2 63 then some (-(n : Int)) else none
    else if n < Nat.pow 2 63 then some (n : Int) else none

-- A whole number below `bound`. A plus sign may stand before it, a minus sign may not.
def below? (bound : Nat) (text : Text) : Option Nat :=
  let digits := match text with
    | '+' :: rest => rest
    | text => text
  (Text.digits? digits).bind fun n => if n < bound then some n else none

def unsigned64? (text : Text) : Option Nat := below? (Nat.pow 2 64) text

-- `e` or `E`, an optional sign and at least one digit; or nothing at all.
def isExponentPart : Text → Bool
  | [] => true
  | c :: rest =>
    (c = 'e' || c = 'E') &&
      let digits := (unsign rest).2
      !digits.isEmpty && digits.all isDigit

-- Digits with an optional point among them, at least one digit, then an exponent part;
-- or a name of infinity or of no number. A sign may come first.
def isReal (text : Text) : Bool :=
  let body := (unsign text).2
  let whole := body.takeWhile isDigit
  let rest := body.dropWhile isDigit
  let (fraction, tail) := match rest with
    | '.' :: more => (more.takeWhile isDigit, more.dropWhile isDigit)
    | more => ([], more)
  (!(whole.isEmpty && fraction.isEmpty) && isExponentPart tail) ||
    ["inf", "infinity", "nan"].contains (String.ofList (Text.lower body))

end ConsoleRun.Numeral
