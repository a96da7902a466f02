import ConsoleRun.Text

-- Labels of other scripts in ASCII: the ASCII characters first, then the positions of the
-- others as differences, in digits whose weight adapts.

namespace ConsoleRun.Punycode

def digit (n : Nat) : Char := if n < 26 then Char.ofNat (97 + n) else Char.ofNat (22 + n)

def value? (c : Char) : Option Nat :=
  let n := c.toNat
  if 97 ≤ n && n ≤ 122 then some (n - 97)
  else if 65 ≤ n && n ≤ 90 then some (n - 65)
  else if 48 ≤ n && n ≤ 57 then some (n - 22)
  else none

def threshold (place bias : Nat) : Nat :=
  if place ≤ bias then 1 else if bias + 26 ≤ place then 26 else place - bias

def settle : (fuel : Nat) → (delta place : Nat) → Nat × Nat
  | 0, delta, place => (delta, place)
  | fuel + 1, delta, place =>
    if 455 < delta then settle fuel (delta / 35) (place + 36) else (delta, place)

-- The bias after a difference, for the given number of characters so far.
def adapt (delta count : Nat) (first : Bool) : Nat :=
  let halved := if first then delta / 700 else delta / 2
  let (delta, place) := settle 64 (halved + halved / count) 0
  place + 36 * delta / (delta + 38)

def digitsOf : (fuel : Nat) → (bias place delta : Nat) → Text
  | 0, _, _, _ => []
  | fuel + 1, bias, place, delta =>
    let least := threshold place bias
    if delta < least then [digit delta]
    else digit (least + (delta - least) % (36 - least)) ::
      digitsOf fuel bias (place + 36) ((delta - least) / (36 - least))

structure Writing where
  written : Text
  delta : Nat
  bias : Nat
  handled : Nat

-- Passes one character of the label while the characters `code` are being placed.
def place (basic code : Nat) (state : Writing) (c : Char) : Writing :=
  if c.toNat < code then { state with delta := state.delta + 1 }
  else if c.toNat = code then
    { written := state.written ++ digitsOf 64 state.bias 36 state.delta
      delta := 0
      bias := adapt state.delta (state.handled + 1) (state.handled == basic)
      handled := state.handled + 1 }
  else state

def insertCode (code : Nat) : List Nat → List Nat
  | [] => [code]
  | other :: rest =>
    if code < other then code :: other :: rest
    else if code = other then other :: rest
    else other :: insertCode code rest

def placeAll (label : Text) (basic : Nat) : (codes : List Nat) → (next : Nat) → Writing → Writing
  | [], _, state => state
  | code :: rest, next, state =>
    let ready := { state with delta := state.delta + (code - next) * (state.handled + 1) }
    let placed := label.foldl (place basic code) ready
    placeAll label basic rest (code + 1) { placed with delta := placed.delta + 1 }

def encode (label : Text) : Text :=
  let basic := label.filter fun c => c.toNat < 128
  let codes := ((label.filter fun c => 128 ≤ c.toNat).map Char.toNat).foldr insertCode []
  let start : Writing := ⟨[], 0, 72, basic.length⟩
  basic ++ (if basic.isEmpty then [] else ['-']) ++
    (placeAll label basic.length codes 128 start).written

-- One difference and what follows its digits.
def delta? : (bias place weight total : Nat) → Text → Option (Nat × Text)
  | _, _, _, _, [] => none
  | bias, place, weight, total, c :: rest =>
    (value? c).bind fun n =>
      let total := total + n * weight
      let least := threshold place bias
      if n < least then some (total, rest)
      else delta? bias (place + 36) (weight * (36 - least)) total rest

def isScalar (n : Nat) : Bool := n < 0xD800 || (0xDFFF < n && n < 0x110000)

-- Inserts characters until the digits are used up.
def insertAll : (fuel : Nat) → (position code bias : Nat) → (label digits : Text) → Option Text
  | 0, _, _, _, _, _ => none
  | _ + 1, _, _, _, label, [] => some label
  | fuel + 1, position, code, bias, label, digits =>
    (delta? bias 36 1 0 digits).bind fun (delta, rest) =>
      let count := label.length + 1
      let target := (position + delta) % count
      let code := code + (position + delta) / count
      if isScalar code then
        insertAll fuel (target + 1) code (adapt delta count (position == 0))
          (label.take target ++ Char.ofNat code :: label.drop target) rest
      else none

-- The text up to the last hyphen, and what follows that hyphen.
def splitBasic (text : Text) : Text × Text :=
  let digits := (text.reverse.takeWhile (· ≠ '-')).reverse
  (text.take (text.length - digits.length - 1), digits)

def decode? (text : Text) : Option Text :=
  let (basic, digits) := splitBasic text
  insertAll (text.length + 1) 0 128 72 basic digits

end ConsoleRun.Punycode
