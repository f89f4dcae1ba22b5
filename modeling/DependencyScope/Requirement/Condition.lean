/-
  DependencyScope.Requirement.Condition — comparisons of versions, and boolean conditions over them.

  A condition is what a requirement says about a candidate version: a comparison with a literal
  version, or a conjunction, disjunction or negation of conditions.

  Main definitions:
    * `Comparator.holds` — one comparison;
    * `Condition.accepts` — whether a version meets a condition;
    * `Condition.anchor?` — the version that a condition suggests by default;
    * `Condition.render` — the fully bracketed text of a condition.
-/
import DependencyScope.Version.Order

namespace DependencyScope

/-! ## §1. Comparators -/

/-- A comparison of a candidate version with a literal one. -/
inductive Comparator where
  | equal
  | different
  | above
  | atLeast
  | below
  | atMost
  /-- The same leading parts, and not lower than the literal. -/
  | pessimistic
  deriving DecidableEq, Repr

namespace Comparator

/-- The written form of a comparator. -/
def symbol : Comparator → String
  | .equal => "="
  | .different => "!="
  | .above => ">"
  | .atLeast => ">="
  | .below => "<"
  | .atMost => "<="
  | .pessimistic => "~>"

/-- All comparators, in the order in which they are tabulated. -/
def all : List Comparator := [.equal, .different, .above, .atLeast, .below, .atMost, .pessimistic]

/-- Whether the candidate stands in the relation to the literal. -/
def holds (c : Comparator) (candidate literal : Version) : Bool :=
  match c with
  | .equal => candidate.compare literal == .eq
  | .different => candidate.compare literal != .eq
  | .above => (candidate.compare literal).isGT
  | .atLeast => (candidate.compare literal).isGE
  | .below => (candidate.compare literal).isLT
  | .atMost => (candidate.compare literal).isLE
  | .pessimistic => candidate.meetsPessimistically literal

/-- Whether the literal of the comparison may serve as a default version. -/
def isAnchor : Comparator → Bool
  | .equal | .atLeast | .atMost => true
  | .different | .above | .below | .pessimistic => false

end Comparator

/-! ## §2. Conditions -/

/-- A boolean combination of comparisons. -/
inductive Condition where
  | literal (comparator : Comparator) (version : Version)
  /-- Every child holds. -/
  | all (children : List Condition)
  /-- Some child holds. -/
  | any (children : List Condition)
  | negation (child : Condition)

namespace Condition

mutual

/-- Whether a version meets a condition. -/
def accepts (v : Version) : Condition → Bool
  | .literal comparator bound => comparator.holds v bound
  | .all children => acceptsAll v children
  | .any children => acceptsAny v children
  | .negation child => !child.accepts v

/-- Whether a version meets every condition of a list. -/
def acceptsAll (v : Version) : List Condition → Bool
  | [] => true
  | child :: rest => child.accepts v && acceptsAll v rest

/-- Whether a version meets some condition of a list. -/
def acceptsAny (v : Version) : List Condition → Bool
  | [] => false
  | child :: rest => child.accepts v || acceptsAny v rest

end

theorem acceptsAll_eq (v : Version) (children : List Condition) :
    acceptsAll v children = children.all (accepts v) := by
  induction children with
  | nil => rfl
  | cons child rest ih => simp [acceptsAll, ih]

theorem acceptsAny_eq (v : Version) (children : List Condition) :
    acceptsAny v children = children.any (accepts v) := by
  induction children with
  | nil => rfl
  | cons child rest ih => simp [acceptsAny, ih]

mutual

/-- The default version of a condition: its last anchor, where negations hold none. -/
def anchor? : Condition → Option Version
  | .literal comparator version => if comparator.isAnchor then some version else none
  | .all children => lastAnchor? children
  | .any children => lastAnchor? children
  | .negation _ => none

/-- The last anchor of a list of conditions. -/
def lastAnchor? : List Condition → Option Version
  | [] => none
  | child :: rest => (lastAnchor? rest).or child.anchor?

end

/-- Whether the condition joins two or more children at its top. -/
def isComposed : Condition → Bool
  | .all children | .any children => 2 ≤ children.length
  | .literal _ _ | .negation _ => false

/-! ## §3. Joining -/

/-- A conjunction; children that are conjunctions themselves are spliced in, and one child alone
stands for itself. -/
def conjunction : List Condition → Condition
  | [child] => child
  | children => .all <| children.flatMap fun
    | .all inner => inner
    | child => [child]

/-- A disjunction; children that are disjunctions themselves are spliced in, and one child alone
stands for itself. -/
def disjunction : List Condition → Condition
  | [child] => child
  | children => .any <| children.flatMap fun
    | .any inner => inner
    | child => [child]

/-! ## §4. Text and equality -/

mutual

/-- The text of a condition: every comparison with its comparator, every conjunction and
disjunction in brackets. -/
def render : Condition → String
  | .literal comparator version => comparator.symbol ++ version.text
  | .all children => "(" ++ renderJoined " & " children ++ ")"
  | .any children => "(" ++ renderJoined " | " children ++ ")"
  | .negation child => "!" ++ child.render

/-- The texts of the conditions with `separator` between them. -/
def renderJoined (separator : String) : List Condition → String
  | [] => ""
  | [child] => child.render
  | child :: rest => child.render ++ separator ++ renderJoined separator rest

end

mutual

/-- Whether two conditions have the same structure, where literal versions need only compare
equal. -/
def sameAs : Condition → Condition → Bool
  | .literal c v, .literal d w => c == d && v.compare w == .eq
  | .all cs, .all ds => sameAllAs cs ds
  | .any cs, .any ds => sameAllAs cs ds
  | .negation c, .negation d => c.sameAs d
  | _, _ => false

/-- Whether two lists of conditions agree position by position. -/
def sameAllAs : List Condition → List Condition → Bool
  | [], [] => true
  | c :: cs, d :: ds => c.sameAs d && sameAllAs cs ds
  | _, _ => false

end

end Condition

end DependencyScope
