/-
  DependencyScope.Namespace.Lookup — finding what a key names.

  A key of a namespace is a name, an unversioned spec, or a compound `sub_name` or `sub.name` that
  leads through sub-namespaces.  A look-up asks the namespace itself and then its ancestors, nearest
  first.  Blanks at the ends of a key count for nothing.

  Main definitions:
    * `compoundSplit` — where a compound key leads next;
    * `Store.localEntry` — the entry that a namespace itself has for a key;
    * `Store.landing` — the namespace and key where a write to a key lands;
    * `Namespace.lookup` — the entry for a key here or in the nearest ancestor that has one.
-/
import DependencyScope.Namespace.Ancestry

namespace DependencyScope

open DependencyScope.Text

/-! ## §1. Compound keys -/

/-- The first place where a compound key can be split: after the name of a sub-namespace, at an
underscore or a dot that is not the last character.  `before` is the part already passed. -/
def splitCompound (entries : Std.TreeMap String Entry) (before : List Char) :
    List Char → Option (Namespace × List Char)
  | [] => none
  | c :: rest =>
    let later := splitCompound entries (before ++ [c]) rest
    if (c = '_' || c = '.') && !rest.isEmpty then
      match entries[String.ofList before]? with
      | some (.sub n) => some (n, rest)
      | _ => later
    else later

/-- The sub-namespace that a compound key leads to, and the rest of the key. -/
def compoundSplit (entries : Std.TreeMap String Entry) (key : String) :
    Option (Namespace × String) :=
  (splitCompound entries [] key.toList).map fun (n, rest) => (n, String.ofList rest)

theorem length_of_splitCompound {entries : Std.TreeMap String Entry} {before key : List Char}
    {n : Namespace} {rest : List Char}
    (h : splitCompound entries before key = some (n, rest)) : rest.length < key.length := by
  induction key generalizing before with
  | nil => simp [splitCompound] at h
  | cons c key ih =>
    simp only [splitCompound] at h
    split at h
    · split at h
      · cases h; simp
      · exact Nat.lt_succ_of_lt (ih h)
    · exact Nat.lt_succ_of_lt (ih h)

/-- The rest of a compound key is shorter than the key. -/
theorem length_of_compoundSplit {entries : Std.TreeMap String Entry} {key rest : String}
    {n : Namespace} (h : compoundSplit entries key = some (n, rest)) :
    rest.length < key.length := by
  simp only [compoundSplit, Option.map_eq_some_iff] at h
  obtain ⟨⟨m, chars⟩, hsplit, heq⟩ := h
  cases heq
  have hlt := length_of_splitCompound hsplit
  rw [String.length_toList] at hlt
  simpa using hlt

theorem length_trim_le (key : String) : (trim key).length ≤ key.length := by
  simpa [← String.length_toList] using length_trimChars_le key.toList

/-! ## §2. Local entries -/

namespace Store

/-- The entry that a namespace itself has for a key: a name, an unversioned spec, or a compound
path through sub-namespaces.  A key shaped like a spec is only looked up by its coordinate. -/
def localEntry (s : Store) (n : Namespace) (key : String) : Option Entry :=
  if looksLikeSpec (trim key) then
    match Spec.parse (trim key) with
    | .ok spec => (s.indexed? n spec.coordinate.render).map .dependency
    | .error _ => none
  else
    match s.entryAt? n (trim key) with
    | some e => some e
    | none =>
      match _found : compoundSplit (s.contentsOf n).entries (trim key) with
      | some (sub, rest) => s.localEntry sub rest
      | none => none
termination_by key.length
decreasing_by exact Nat.lt_of_lt_of_le (length_of_compoundSplit _found) (length_trim_le key)

/-- Where a write to a key lands: in the namespace itself if the key is a spec, is already held or
leads nowhere, and otherwise where the compound key leads. -/
def landing (s : Store) (n : Namespace) (key : String) : Namespace × String :=
  if looksLikeSpec (trim key) || (s.entryAt? n (trim key)).isSome then (n, trim key)
  else
    match _found : compoundSplit (s.contentsOf n).entries (trim key) with
    | some (sub, rest) => s.landing sub rest
    | none => (n, trim key)
termination_by key.length
decreasing_by exact Nat.lt_of_lt_of_le (length_of_compoundSplit _found) (length_trim_le key)

variable {s : Store} {n sub : Namespace} {key rest : String}

theorem landing_of_direct
    (h : (looksLikeSpec (trim key) || (s.entryAt? n (trim key)).isSome) = true) :
    s.landing n key = (n, trim key) := by
  unfold landing
  rw [if_pos h]

theorem landing_of_some
    (h : ¬(looksLikeSpec (trim key) || (s.entryAt? n (trim key)).isSome) = true)
    (hfound : compoundSplit (s.contentsOf n).entries (trim key) = some (sub, rest)) :
    s.landing n key = s.landing sub rest := by
  rw [landing, if_neg h]
  -- the definition keeps the split as a proof, so it is split anew and compared
  split
  · next hfound' =>
    cases hfound.symm.trans hfound'
    rfl
  · next hnone => exact nomatch hfound.symm.trans hnone

theorem landing_of_none
    (h : ¬(looksLikeSpec (trim key) || (s.entryAt? n (trim key)).isSome) = true)
    (hnone : compoundSplit (s.contentsOf n).entries (trim key) = none) :
    s.landing n key = (n, trim key) := by
  unfold landing
  rw [if_neg h]
  split
  · next hfound => exact nomatch hnone.symm.trans hfound
  · rfl

end Store

/-! ## §3. Look-ups through the ancestors -/

namespace Namespace

/-- The first entry for a key among the ancestors, nearest first. -/
def inheritedEntry (n : Namespace) (key : String) : Reading (Option Entry) := do
  let ancestors ← n.ancestors
  Reading.view fun s => ancestors.findSome? (s.localEntry · key)

/-- The entry for a key here or in the nearest ancestor that has one.  Ancestors are asked only if
the namespace itself has none. -/
def lookup (n : Namespace) (key : String) : Reading (Option Entry) := do
  match ← Reading.view (Store.localEntry · n key) with
  | some e => return some e
  | none => n.inheritedEntry key

/-- The dependency that a key names, if it names one. -/
def lookupDependency (n : Namespace) (key : String) : Reading (Option DependencyId) := do
  return (← n.lookup key).bind Entry.dependency?

/-- The namespace that a key names, if it names one. -/
def lookupSub (n : Namespace) (key : String) : Reading (Option Namespace) := do
  return (← n.lookup key).bind Entry.sub?

/-- Whether a key is defined and selected. -/
def has (n : Namespace) (key : String) : Reading Bool := do
  match ← n.lookupDependency key with
  | some id => Reading.view (Store.isSelected · id)
  | none => return false

/-- Whether a key has both a requirement and a selection that meets it. -/
def isSatisfied (n : Namespace) (key : String) : Reading Bool := do
  match ← n.lookupDependency key with
  | some id => Reading.view fun s => (s.dependency id).isSatisfied
  | none => return false

end Namespace

end DependencyScope
