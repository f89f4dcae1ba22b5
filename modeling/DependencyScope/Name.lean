/-
  DependencyScope.Name — the names of namespaces.

  A canonical name has parts separated by single colons: `A::B::C` names `A:B:C`.  The parent that
  a name implies is the name without its last part; a name of one part hangs under the root, and
  the blank name is the root itself.

  Main definitions:
    * `canonicalName`, `impliedParent?`;
    * `NamespaceKey` — what can name a namespace.
-/
import DependencyScope.Text.Blank
import DependencyScope.Text.Split

namespace DependencyScope

open DependencyScope.Text

/-- The name of the root namespace. -/
def rootName : String := "root"

/-- The name in which runs of colons count once and colons at the ends count for nothing. -/
def canonicalName (raw : String) : String :=
  match (splitOn ':' (trim raw)).filter (· ≠ "") with
  | [] => rootName
  | parts => String.intercalate ":" parts

/-- The canonical name of the parent that a name implies; the root implies none. -/
def impliedParent? (name : String) : Option String :=
  if name = rootName then none
  else
    match splitOn ':' name with
    | [] | [_] => some rootName
    | parts => some (canonicalName (String.intercalate ":" parts.dropLast))

/-- What can name a namespace. -/
inductive NamespaceKey where
  /-- The one root namespace. -/
  | root
  /-- Whatever namespace the active project maps to. -/
  | current
  /-- A name, canonical or not. -/
  | name (name : String)
  /-- The parts of a name. -/
  | path (parts : List String)
  deriving DecidableEq, Repr

/-- The key that a text stands for: the root if it is blank or `root`, else its name. -/
def NamespaceKey.ofText (text : String) : NamespaceKey :=
  if trim text = "" ∨ trim text = rootName then .root else .name (trim text)

end DependencyScope
