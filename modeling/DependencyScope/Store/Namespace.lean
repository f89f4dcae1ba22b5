/-
  DependencyScope.Store.Namespace — what identifies a namespace.

  A namespace is identified by how it came to be: under a canonical name in the registry, together
  with how often the registry had been cleared before; or by itself, as a sub-namespace or detached,
  with a serial number.  What never changes about a namespace can be read off its identity.

  Namespaces are kept alive: whoever has been given one keeps it, as a client does with its handles,
  so an identity stands for a namespace for good.  A namespace that nobody keeps does not outlive a
  clearing of the registry unless another one holds it as an entry, and a link to it as a parent
  leads nowhere from then on; such links are not considered here.

  Main definitions:
    * `Namespace`, with a lawful order;
    * `Namespace.name`, `Namespace.isRoot`, `Namespace.inRegistry`.
-/
import DependencyScope.Name
import Std.Data.TreeMap

namespace DependencyScope

/-- The identity of a namespace. -/
inductive Namespace where
  /-- The namespace that the registry held for `name` in its given generation. -/
  | registered (name : String) (generation : Nat)
  /-- A sub-namespace or a detached namespace; `inRegistry` says whether it was made under a
  namespace of the registry. -/
  | single (serial : Nat) (name : String) (inRegistry : Bool)
  deriving DecidableEq, Repr

namespace Namespace

/-- The name that a namespace was made with. -/
def name : Namespace → String
  | .registered name _ => name
  | .single _ name _ => name

/-- Whether the namespace is the root entry of the registry. -/
def isRoot : Namespace → Bool
  | .registered name _ => name = rootName
  | .single _ _ _ => false

/-- Whether the namespace belongs to the registry and can resolve names there. -/
def inRegistry : Namespace → Bool
  | .registered _ _ => true
  | .single _ _ inRegistry => inRegistry

/-! ## The order of identities -/

/-- Distinguishes the forms of an identity. -/
def form : Namespace → Nat
  | .registered _ _ => 0
  | .single _ _ true => 1
  | .single _ _ false => 2

/-- The generation or the serial number. -/
def number : Namespace → Nat
  | .registered _ generation => generation
  | .single serial _ _ => serial

/-- Identities compare by form, then by number, then by name. -/
def order : Namespace → Namespace → Ordering :=
  compareLex (compareOn form) (compareLex (compareOn number) (compareOn name))

instance : Ord Namespace := ⟨order⟩

instance : Std.TransCmp order :=
  inferInstanceAs
    (Std.TransCmp (compareLex (compareOn form) (compareLex (compareOn number) (compareOn name))))

instance : Std.TransOrd Namespace := inferInstanceAs (Std.TransCmp order)

/-- Form, number and name determine an identity. -/
theorem ext_form {a b : Namespace} (hform : a.form = b.form) (hnumber : a.number = b.number)
    (hname : a.name = b.name) : a = b := by
  cases a with
  | registered n g =>
    cases b with
    | registered m h => simp_all [number, name]
    | single s m r => cases r <;> simp [form] at hform
  | single s n r =>
    cases b with
    | registered m h => cases r <;> simp [form] at hform
    | single t m q =>
      have hr : r = q := by cases r <;> cases q <;> simp_all [form]
      simp_all [number, name]

instance : Std.LawfulEqOrd Namespace where
  compare_self {a} := (inferInstance : Std.ReflCmp order).compare_self
  eq_of_compare {a b} h := by
    have h' : order a b = .eq := h
    simp only [order, compareLex, compareOn, Ordering.then_eq_eq] at h'
    exact ext_form (Std.LawfulEqOrd.eq_of_compare h'.1) (Std.LawfulEqOrd.eq_of_compare h'.2.1)
      (Std.LawfulEqOrd.eq_of_compare h'.2.2)

end Namespace

end DependencyScope
