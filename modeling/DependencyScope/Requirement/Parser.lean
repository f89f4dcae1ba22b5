/-
  DependencyScope.Requirement.Parser — from the tokens of an expression to its condition.

      requirement := group ("|" group)*
      group       := term ("&"? term)*
      term        := "!" term | comparator? version | "(" requirement ")"

  Neighbouring terms without a connective are joined by "&", which binds tighter than "|".  The
  tokens are read once from left to right, with one level for each bracket that is still open.

  Main definitions:
    * `Level` — what has been read since a bracket was opened;
    * `Condition.ofTokens` — the condition of a token list, or the first fault.
-/
import DependencyScope.Error

namespace DependencyScope

/-- What has been read at one depth of brackets. -/
structure Level where
  /-- The groups that a "|" has ended, in order. -/
  alternatives : List Condition := []
  /-- The terms of the group that is being read, in order. -/
  terms : List Condition := []
  /-- How many negations stand before the next term. -/
  negations : Nat := 0

namespace Level

/-- The condition under `n` negations. -/
def negate : Nat → Condition → Condition
  | 0, condition => condition
  | n + 1, condition => .negation (negate n condition)

/-- Ends a term: the negations before it apply to it. -/
def push (level : Level) (term : Condition) : Level :=
  { level with terms := level.terms ++ [negate level.negations term], negations := 0 }

/-- Ends a group. -/
def endGroup (level : Level) : Level :=
  { level with alternatives := level.alternatives ++ [.conjunction level.terms], terms := [] }

/-- The condition of a level that has been read to its end. -/
def close (level : Level) : Condition := .disjunction level.endGroup.alternatives

end Level

namespace Condition

/-- Reads on in the innermost level `inner`; `outer` holds the open brackets with the levels around
them, innermost first, `complete` says whether a term has just ended, and `size` is the length of
the whole text. -/
def read (size : Nat) : List Token → Bool → Level → List (Span × Level) → Except Fault Condition
  | [], false, _, _ => .error ⟨.requirementEnds, ⟨size, 0⟩⟩
  | [], true, inner, [] => .ok inner.close
  | [], true, _, (opening, _) :: _ => .error ⟨.bracketUnclosed, opening⟩
  | ⟨.version v, _⟩ :: rest, _, inner, outer =>
    read size rest true (inner.push (.literal .equal v)) outer
  | ⟨.comparator c, span⟩ :: rest, _, inner, outer =>
    match rest with
    | [] => .error ⟨.operandMissing c, span⟩
    | ⟨.version v, _⟩ :: rest => read size rest true (inner.push (.literal c v)) outer
    | other :: _ => .error ⟨.operandExpected c other.kind, other.span⟩
  | ⟨.negation, _⟩ :: rest, _, inner, outer =>
    read size rest false { inner with negations := inner.negations + 1 } outer
  | ⟨.openBracket, span⟩ :: rest, _, inner, outer =>
    read size rest false {} ((span, inner) :: outer)
  | ⟨.closeBracket, _⟩ :: rest, true, inner, (_, level) :: outer =>
    read size rest true (level.push inner.close) outer
  | ⟨.closeBracket, span⟩ :: _, _, _, _ => .error ⟨.bracketUnopened, span⟩
  | ⟨.conjunction, _⟩ :: rest, true, inner, outer => read size rest false inner outer
  | ⟨.disjunction, _⟩ :: rest, true, inner, outer => read size rest false inner.endGroup outer
  | ⟨kind, span⟩ :: _, false, _, _ => .error ⟨.termExpected kind, span⟩

/-- The condition that a token list writes; `size` is the length of the text it was read from. -/
def ofTokens (size : Nat) (tokens : List Token) : Except Fault Condition :=
  read size tokens false {} []

end Condition

end DependencyScope
