/-
  DependencyScope.Requirement.Basic — version requirements.

  A requirement is a condition on versions together with the text that wrote it.  It is read once,
  and a malformed text is refused when it is read.

  Main definitions:
    * `Requirement.parse`, `Requirement.exact`, `Requirement.intersect` — the ways to make one;
    * `Requirement.accepts`, `Requirement.satisfiedBy` — whether a version meets it;
    * `Requirement.default?` — the version it suggests.
-/
import DependencyScope.Requirement.Lexer
import DependencyScope.Requirement.Parser

namespace DependencyScope

open DependencyScope.Text

/-- A condition on versions and the text that writes it. -/
structure Requirement where
  source : String
  condition : Condition

namespace Requirement

/-- Reads a requirement expression such as `>1.2 <1.3 !(>=1.2.5 | <=1.2.6)`. -/
def parse (text : String) : Except Error Requirement :=
  match Token.scan text 0 text.toList with
  | .error e => .error e
  | .ok [] => .error (.parseWhole .requirementEmpty text)
  | .ok tokens =>
    match Condition.ofTokens text.utf8ByteSize tokens with
    | .error fault => .error (fault.toError text)
    | .ok condition => .ok ⟨trim text, condition⟩

/-- The requirement that only versions equal to `v` meet. -/
def exact (v : Version) : Requirement := ⟨v.text, .literal .equal v⟩

/-- The text of a requirement as an operand: bracketed if it is composed. -/
def operand (r : Requirement) : String :=
  if r.condition.isComposed then "(" ++ r.source ++ ")" else r.source

/-- The requirement that holds when both hold. -/
def intersect (r s : Requirement) : Requirement :=
  ⟨r.operand ++ " & " ++ s.operand, .conjunction [r.condition, s.condition]⟩

/-- Whether a version meets the requirement. -/
def accepts (r : Requirement) (v : Version) : Bool := r.condition.accepts v

/-- Reads a version and says whether it meets the requirement. -/
def satisfiedBy (r : Requirement) (text : String) : Except Error Bool :=
  (Version.parse text).map r.accepts

/-- The version that the requirement names last among its anchors. -/
def default? (r : Requirement) : Option String := r.condition.anchor?.map Version.text

/-- Whether two requirements have the same text and the same structure. -/
def sameAs (r s : Requirement) : Bool := r.source == s.source && r.condition.sameAs s.condition

end Requirement

end DependencyScope
