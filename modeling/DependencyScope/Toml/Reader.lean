/-
  DependencyScope.Toml.Reader — reading a text from the front.

  A reader takes characters off the front of a text or fails.  Blanks of TOML are spaces and tabs;
  a line ends with a line feed, alone or after a carriage return; a comment runs to the end of its
  line and holds no control characters but tabs.
-/

namespace DependencyScope.Toml

/-- Takes characters off the front of a text, or fails. -/
abbrev Reader := StateT (List Char) Option

namespace Reader

/-- The next character, if there is one, without taking it. -/
def peek : Reader (Option Char) := fun cs => some (cs.head?, cs)

/-- How many characters are left. -/
def remaining : Reader Nat := fun cs => some (cs.length, cs)

/-- Takes the next character. -/
def next : Reader Char
  | [] => none
  | c :: cs => some (c, cs)

/-- Takes the given text if it comes next, and says whether it did. -/
def accept (text : String) : Reader Bool := fun cs =>
  if text.toList.isPrefixOf cs then some (true, cs.drop text.length) else some (false, cs)

/-- Takes the given text, which must come next. -/
def expect (text : String) : Reader Unit := do
  unless ← accept text do failure

/-- Takes the longest run of characters with the property. -/
def takeWhile (p : Char → Bool) : Reader (List Char) := fun cs =>
  some (cs.takeWhile p, cs.dropWhile p)

/-- Tries a reader; if it fails, nothing is taken. -/
def attempt {α : Type} (r : Reader α) : Reader (Option α) := fun cs =>
  match r cs with
  | some (a, rest) => some (some a, rest)
  | none => some (none, cs)

/-- The first of two readers that succeeds. -/
def orElse {α : Type} (r q : Reader α) : Reader α := fun cs => (r cs).or (q cs)

/-- Whether nothing is left. -/
def atEnd : Reader Bool := return (← peek).isNone

/-! ## Blanks, line ends and comments -/

/-- Takes spaces and tabs. -/
def blanks : Reader Unit := do let _ ← takeWhile fun c => c = ' ' || c = '\t'

/-- Takes a line end if one comes next, and says whether it did. -/
def newline : Reader Bool := do
  if ← accept "\n" then return true
  accept "\r\n"

/-- The characters that may stand in comments and literal strings: no control characters but the
tab. -/
def isPlain (c : Char) : Bool := c = '\t' || (0x20 ≤ c.toNat && c.toNat ≠ 0x7f)

/-- Takes a comment if one comes next, and says whether it did. -/
def comment : Reader Bool := do
  if ← accept "#" then
    let _ ← takeWhile isPlain
    return true
  return false

/-- Takes blanks, line ends and comments, at most the given number. -/
def gapWithin : Nat → Reader Unit
  | 0 => pure ()
  | bound + 1 => do
    blanks
    let more ← (do if ← newline then return true else comment)
    if more then gapWithin bound

/-- Takes blanks, line ends and comments. -/
def gap : Reader Unit := do gapWithin ((← remaining) + 1)

/-- Takes what may follow on a line that is complete: blanks, a comment, and the line end. -/
def lineEnd : Reader Unit := do
  blanks
  let _ ← comment
  unless ← newline do
    unless ← atEnd do failure

end Reader

end DependencyScope.Toml
