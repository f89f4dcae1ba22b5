/-
  DependencyScope.Toml.Number — numbers of TOML.

  Digits may be grouped by single underscores.  Decimal integers have no leading zeros and lie
  between -2^63 and 2^63 - 1; hexadecimal, octal and binary ones have no sign.  A float has a
  fraction, an exponent or both, and a positive one must not round to infinity; infinity itself and
  not-a-number have names.

  Main definitions:
    * `Reader.integer`, `Reader.float`.
-/
import DependencyScope.Toml.Basic
import DependencyScope.Toml.Text

namespace DependencyScope.Toml.Reader

/-! ## §1. Digits -/

/-- The digits after a first one, with single underscores between digits dropped, and the rest. -/
def splitDigits (isDigit : Char → Bool) : List Char → List Char × List Char
  | '_' :: c :: rest =>
    if isDigit c then
      let (digits, rest) := splitDigits isDigit rest
      (c :: digits, rest)
    else ([], '_' :: c :: rest)
  | c :: rest =>
    if isDigit c then
      let (digits, rest) := splitDigits isDigit rest
      (c :: digits, rest)
    else ([], c :: rest)
  | [] => ([], [])

/-- Takes one or more digits. -/
def digits (isDigit : Char → Bool) : Reader (List Char) := do
  let first ← next
  if isDigit first then
    let more ← fun cs => some (splitDigits isDigit cs)
    return first :: more
  failure

/-- The number that digits write in a base. -/
def valueOf (base : Nat) (text : List Char) : Nat :=
  text.foldl (fun value c => base * value + (hexDigit? c).getD 0) 0

/-- Takes a sign if there is one, and says whether it is a minus. -/
def sign : Reader Bool := do
  if ← accept "-" then return true
  let _ ← accept "+"
  return false

/-- Takes the digits of a decimal integer: a zero alone, or digits that start with no zero. -/
def decimalDigits : Reader (List Char) := do
  if ← accept "0" then return ['0']
  digits Char.isDigit

/-! ## §2. Integers -/

/-- Takes the digits of an integer without a sign, after its prefix. -/
def unsigned (base : Nat) : Reader Toml := do
  let text ← digits fun c => (hexDigit? c).any (· < base)
  let value := valueOf base text
  if value < Nat.pow 2 63 then return .integer value else failure

/-- Takes an integer. -/
def integer : Reader Toml := do
  if ← accept "0x" then return ← unsigned 16
  if ← accept "0o" then return ← unsigned 8
  if ← accept "0b" then return ← unsigned 2
  let negative ← sign
  let value := valueOf 10 (← decimalDigits)
  if negative then
    if value ≤ Nat.pow 2 63 then return .integer (-value) else failure
  else
    if value < Nat.pow 2 63 then return .integer value else failure

/-! ## §3. Floats -/

/-- Takes the exponent of a float: whether it is negative, and its digits. -/
def exponent : Reader (Bool × List Char) := do
  unless (← accept "e") || (← accept "E") do failure
  let negative ← sign
  return (negative, ← digits Char.isDigit)

/-- Whether the number `mantissa * 10 ^ exponent` rounds to infinity as a float of 64 bits, that is,
reaches the middle between the largest such float and the next power of two. -/
def overflows (mantissa : Nat) (exponent : Int) : Bool :=
  let size : Int := (Nat.toDigits 10 mantissa).length + exponent
  if mantissa = 0 || size < 300 then false
  else if 320 < size then true
  else
    let bound := Nat.pow 2 1024 - Nat.pow 2 970
    if exponent < 0 then bound * Nat.pow 10 (-exponent).toNat ≤ mantissa
    else bound ≤ mantissa * Nat.pow 10 exponent.toNat

/-- Takes the name of a special float. -/
def specialFloat : Reader Toml := do
  let negative ← sign
  let name ← if ← accept "inf" then pure "inf" else do
    expect "nan"
    pure "nan"
  return .float (if negative then "-" ++ name else name)

/-- Takes a float that is written in digits. -/
def decimalFloat : Reader Toml := do
  let negative ← sign
  let whole ← decimalDigits
  let fraction ← if ← accept "." then some <$> digits Char.isDigit else pure none
  let power ← attempt exponent
  if fraction.isNone && power.isNone then failure
  let (powerNegative, powerDigits) := power.getD (false, [])
  let shift : Int := valueOf 10 powerDigits
  let mantissa := valueOf 10 (whole ++ fraction.getD [])
  let scale := (if powerNegative then -shift else shift) - (fraction.getD []).length
  if !negative && overflows mantissa scale then failure
  return .float (String.ofList ((if negative then ['-'] else []) ++ whole ++
    (match fraction with
    | some text => '.' :: text
    | none => []) ++
    (match power with
    | some (minus, text) => 'e' :: (if minus then ['-'] else []) ++ text
    | none => [])))

/-- Takes a float. -/
def float : Reader Toml := orElse decimalFloat specialFloat

end DependencyScope.Toml.Reader
