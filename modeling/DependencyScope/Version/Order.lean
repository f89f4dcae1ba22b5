/-
  DependencyScope.Version.Order — how versions compare.

  Versions compare part by part.  Parts rank as: pre-release stages (alpha < beta < milestone < rc
  < snapshot), then any other word, then release and service pack, then numbers; numbers of any
  length compare by value and words by their text.  Where one version has run out of parts, the
  remaining parts of the other decide: a number is above nothing unless it is zero, a release stage
  equals nothing, a service pack is above nothing, every earlier stage and every word is below.

  Main definitions:
    * `Part.compare`, `Part.compareMissing`;
    * `Version.compare`;
    * `Version.meetsPessimistically` — the relation behind `~>`.
-/
import DependencyScope.Version.Basic

namespace DependencyScope

/-! ## §1. Parts -/

namespace Part

/-- Parts of different kinds compare by their tier. -/
def tier : Part → Nat
  | .stage known => if known.rank < Stage.release.rank then 0 else 2
  | .word _ => 1
  | .number _ => 3

/-- The order of parts: by value, stage or text within a kind, by tier between kinds. -/
def compare : Part → Part → Ordering
  | .number a, .number b => Ord.compare a b
  | .stage a, .stage b => Ord.compare a.rank b.rank
  | .word a, .word b => Ord.compare a b
  | a, b => Ord.compare a.tier b.tier

/-- How a part compares with a part that the other version lacks. -/
def compareMissing : Part → Ordering
  | .number value => if value = 0 then .eq else .gt
  | .stage known => Ord.compare known.rank Stage.release.rank
  | .word _ => .lt

end Part

/-! ## §2. Versions -/

/-- How the parts that remain compare with nothing: the first that differs from nothing decides. -/
def comparePartsMissing : List Part → Ordering
  | [] => .eq
  | part :: rest => part.compareMissing.then (comparePartsMissing rest)

/-- Part-by-part comparison; the shorter list counts as lacking its last parts. -/
def compareParts : List Part → List Part → Ordering
  | as, [] => comparePartsMissing as
  | [], bs => (comparePartsMissing bs).swap
  | a :: as, b :: bs => (a.compare b).then (compareParts as bs)

/-- Whether the candidate's parts equal every part of the base but the last. -/
def agreeBeforeLast : List Part → List Part → Bool
  | _, [] => true
  | _, [_] => true
  | [], b :: bs => b.compareMissing == .eq && agreeBeforeLast [] bs
  | a :: as, b :: bs => a.compare b == .eq && agreeBeforeLast as bs

namespace Version

/-- The order of versions. -/
def compare (v w : Version) : Ordering := compareParts v.parts w.parts

/-- The pessimistic match `~>`: the candidate agrees with every part of the base except the last
and is not lower than the base.  `~>1.2.3` accepts `1.2.3`, `1.2.9` and `1.2.3.4` but not `1.3`. -/
def meetsPessimistically (candidate base : Version) : Bool :=
  agreeBeforeLast candidate.parts base.parts && (candidate.compare base).isGE

end Version

end DependencyScope
