/-
  DependencyScope.Toml.Text — strings and keys of TOML.

  A basic string stands between double quotes and has escapes; a literal string stands between
  single quotes and has none.  Three quotes open a string of several lines, in which line ends count
  as line feeds, one right after the opening counts for nothing, and up to two quotes may stand
  anywhere, also before the closing ones.

  Main definitions:
    * `Reader.string` — a string of any of the four kinds;
    * `Reader.key` — a key, possibly dotted.
-/
import DependencyScope.Toml.Reader

namespace DependencyScope.Toml.Reader

/-! ## §1. Escapes -/

/-- The value of a hexadecimal digit. -/
def hexDigit? (c : Char) : Option Nat :=
  if c.isDigit then some (c.toNat - '0'.toNat)
  else if 'a' ≤ c && c ≤ 'f' then some (c.toNat - 'a'.toNat + 10)
  else if 'A' ≤ c && c ≤ 'F' then some (c.toNat - 'A'.toNat + 10)
  else none

/-- Takes `count` hexadecimal digits after those with the value `value`. -/
def hexDigits : Nat → Nat → Reader Nat
  | 0, value => pure value
  | count + 1, value => do
    match hexDigit? (← next) with
    | some digit => hexDigits count (16 * value + digit)
    | none => failure

/-- Takes a code point of `count` hexadecimal digits. -/
def codePoint (count : Nat) : Reader Char := do
  let value ← hexDigits count 0
  if value.isValidChar then return Char.ofNat value else failure

/-- Takes an escape, after its backslash. -/
def escape : Reader Char := do
  match ← next with
  | 'b' => return '\x08'
  | 't' => return '\t'
  | 'n' => return '\n'
  | 'f' => return '\x0c'
  | 'r' => return '\r'
  | '\x22' => return '\x22'
  | '\\' => return '\\'
  | 'u' => codePoint 4
  | 'U' => codePoint 8
  | _ => failure

/-! ## §2. Strings on one line -/

/-- Takes the rest of a basic string of at most the given length. -/
def basicWithin : Nat → Reader (List Char)
  | 0 => failure
  | bound + 1 => do
    match ← next with
    | '\x22' => return []
    | '\\' => return (← escape) :: (← basicWithin bound)
    | c => if isPlain c then return c :: (← basicWithin bound) else failure

/-- Takes a basic string, after its opening quote. -/
def basic : Reader String := do
  return String.ofList (← basicWithin ((← remaining) + 1))

/-- Takes a literal string, after its opening quote. -/
def literal : Reader String := do
  let text ← takeWhile fun c => isPlain c && c ≠ '\x27'
  expect "'"
  return String.ofList text

/-! ## §3. Strings of several lines -/

/-- Takes up to `bound` quotes, and counts them. -/
def quotes (quote : Char) : Nat → Reader Nat
  | 0 => pure 0
  | bound + 1 => do
    if (← peek) = some quote then
      let _ ← next
      return (← quotes quote bound) + 1
    return 0

/-- Takes blanks and line ends after a backslash at the end of a line, at most the given number. -/
def joinLines : Nat → Reader Unit
  | 0 => pure ()
  | bound + 1 => do
    blanks
    if ← newline then joinLines bound

/-- Takes what follows a backslash: an escape, or a line end with all blanks and line ends after it. -/
def escapeOrJoin : Reader (List Char) := do
  let joined ← attempt do
    blanks
    unless ← newline do failure
    joinLines ((← remaining) + 1)
  match joined with
  | some _ => return []
  | none => return [← escape]

/-- Takes the rest of a string of several lines and of at most the given length. -/
def linesWithin (quote : Char) (escapes : Bool) : Nat → Reader (List Char)
  | 0 => failure
  | bound + 1 => do
    let count ← quotes quote 5
    if 3 ≤ count then return List.replicate (count - 3) quote
    let here := List.replicate count quote
    if ← newline then return here ++ '\n' :: (← linesWithin quote escapes bound)
    match ← next with
    | '\\' =>
      if escapes then
        let text ← escapeOrJoin
        return here ++ text ++ (← linesWithin quote escapes bound)
      else return here ++ '\\' :: (← linesWithin quote escapes bound)
    | c => if isPlain c then return here ++ c :: (← linesWithin quote escapes bound) else failure

/-- Takes a string of several lines, after its opening quotes. -/
def lines (quote : Char) (escapes : Bool) : Reader String := do
  let _ ← newline
  return String.ofList (← linesWithin quote escapes ((← remaining) + 1))

/-- Takes a string of any kind. -/
def string : Reader String := do
  if ← accept "\"\"\"" then return ← lines '\x22' true
  if ← accept "'''" then return ← lines '\x27' false
  if ← accept "\"" then return ← basic
  expect "'"
  literal

/-! ## §4. Keys -/

/-- The characters of a key without quotes. -/
def isBareKeyChar (c : Char) : Bool := c.isAlphanum || c = '_' || c = '-'

/-- Takes one part of a key. -/
def simpleKey : Reader String := do
  if ← accept "\"" then return ← basic
  if ← accept "'" then return ← literal
  let bare ← takeWhile isBareKeyChar
  if bare.isEmpty then failure
  return String.ofList bare

/-- The number of parts that a key may not reach, and the depth that values may not reach. -/
def depthLimit : Nat := 80

/-- Takes at most the given number of parts of a dotted key. -/
def keyWithin : Nat → Reader (List String)
  | 0 => failure
  | bound + 1 => do
    blanks
    let part ← simpleKey
    blanks
    if ← accept "." then return part :: (← keyWithin bound)
    return [part]

/-- Takes a key: the parts before the last, and the last. -/
def key : Reader (List String × String) := do
  let parts ← keyWithin (depthLimit - 1)
  match parts.getLast? with
  | some last => return (parts.dropLast, last)
  | none => failure

end DependencyScope.Toml.Reader
