/-
  DependencyScope.Toml.Document — values and whole documents of TOML.

  A document is read line by line: a blank line or comment, a header that opens a table, or a key
  with a value for the table that was opened last.

  Main definitions:
    * `Reader.value` — a value of any kind;
    * `Toml.parse` — the table of a document, if the text is well formed.
-/
import DependencyScope.Toml.Datetime

namespace DependencyScope.Toml

namespace Reader

/-! ## §1. Values -/

/-- Takes a value that holds no other values. -/
def scalar : Reader Toml := do
  match ← peek with
  | some '\x22' | some '\x27' => return .string (← string)
  | some 't' => expect "true"; return .boolean true
  | some 'f' => expect "false"; return .boolean false
  | _ => orElse datetime (orElse float integer)

/-- Takes the rest of an array of at most the given length. -/
def itemsWithin (item : Reader Toml) : Nat → Reader (List Toml)
  | 0 => failure
  | bound + 1 => do
    gap
    if ← accept "]" then return []
    let value ← item
    gap
    if ← accept "," then return value :: (← itemsWithin item bound)
    expect "]"
    return [value]

/-- Takes a key, the equality sign and a value. -/
def pair (item : Reader Toml) : Reader (List String × String × Toml) := do
  let (path, last) ← key
  expect "="
  blanks
  let value ← item
  return (path, last, value)

/-- Takes the rest of an inline table that is not empty, into the table built so far. -/
def pairsWithin (item : Reader Toml) : Nat → Toml → Reader Toml
  | 0, _ => failure
  | bound + 1, built => do
    let (path, last, value) ← pair item
    let built ← insertPair path last value built
    blanks
    if ← accept "," then return ← pairsWithin item bound built
    expect "\x7d"
    return built

/-- Takes a value in which arrays and inline tables nest less deep than the given bound. -/
def valueWithin : Nat → Reader Toml
  | 0 => scalar
  | depth + 1 => do
    if ← accept "[" then
      return .array (← itemsWithin (valueWithin depth) ((← remaining) + 1))
    if ← accept "\x7b" then
      blanks
      if ← accept "\x7d" then return .table .inline []
      return ← pairsWithin (valueWithin depth) ((← remaining) + 1) (.table .inline [])
    scalar

/-- Takes a value. -/
def value : Reader Toml := valueWithin (depthLimit - 1)

/-! ## §2. Lines -/

/-- A document that is being read: what has been read of it, and the path of the table that is
open. -/
structure Draft where
  root : Toml := .table .header []
  opened : List String := []

/-- Takes a header, after its first bracket. -/
def header (draft : Draft) : Reader Draft := do
  let isArray ← accept "["
  let (path, last) ← key
  expect (if isArray then "]]" else "]")
  lineEnd
  let root ← if isArray then openArrayTable path last draft.root else openTable path last draft.root
  return ⟨root, path ++ [last]⟩

/-- Takes a line with a key and a value. -/
def assignment (draft : Draft) : Reader Draft := do
  let (path, last, value) ← pair value
  lineEnd
  let root ← modifyAt false (insertPair path last value) draft.opened draft.root
  return { draft with root }

/-- Takes at most the given number of lines. -/
def documentWithin : Nat → Draft → Reader Draft
  | 0, _ => failure
  | bound + 1, draft => do
    blanks
    if ← atEnd then return draft
    if ← newline then return ← documentWithin bound draft
    if ← accept "[" then return ← documentWithin bound (← header draft)
    match ← peek with
    | some '#' =>
      lineEnd
      documentWithin bound draft
    | _ => documentWithin bound (← assignment draft)

/-- Takes a whole document, after a byte-order mark if there is one. -/
def document : Reader Draft := do
  let _ ← accept "\ufeff"
  documentWithin ((← remaining) + 1) {}

end Reader

/-- The table that a document describes, if the text is well formed. -/
def parse (text : String) : Option Toml :=
  (Reader.document text.toList).map fun (draft, _) => draft.root

end DependencyScope.Toml
