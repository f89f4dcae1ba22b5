/-
  DependencyScope.Requirement.Token — the tokens of a requirement expression.

  A token is a bracket, a connective, a comparator or a version, together with the place it was
  read from, counted in bytes of UTF-8.
-/
import DependencyScope.Requirement.Condition

namespace DependencyScope

/-- What a token is. -/
inductive TokenKind where
  | openBracket
  | closeBracket
  | conjunction
  | disjunction
  | negation
  | comparator (c : Comparator)
  | version (v : Version)
  deriving DecidableEq

/-- The form in which messages name a token. -/
def TokenKind.render : TokenKind → String
  | .openBracket => "'('"
  | .closeBracket => "')'"
  | .conjunction => "'&'"
  | .disjunction => "'|'"
  | .negation => "'!'"
  | .comparator c => "'" ++ c.symbol ++ "'"
  | .version v => "'" ++ v.text ++ "'"

/-- A stretch of a text, in bytes. -/
structure Span where
  offset : Nat
  length : Nat
  deriving DecidableEq, Repr

/-- A token and the stretch of text it was read from. -/
structure Token where
  kind : TokenKind
  span : Span
  deriving DecidableEq

end DependencyScope
