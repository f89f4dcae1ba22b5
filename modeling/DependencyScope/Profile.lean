/-
  DependencyScope.Profile — artifact profiles.

  A profile assigns specs to the keys of namespaces, for use in bulk:

      [artifacts.root]
      spring = "org.springframework:spring:jar:2.5"

      [artifacts."one:oldie"]
      spring = ["org.springframework:spring:jar:1.0", "org.springframework:beans:jar:1.0"]

  Other tables and keys of the document are ignored.

  Main definitions:
    * `ProfileValue`, `Profile`;
    * `Profile.namespaces`, `Profile.isEmpty`;
    * `Profile.parse` — the profile of a TOML document.
-/
import DependencyScope.Error
import DependencyScope.Toml.Document
import Std.Data.TreeMap

namespace DependencyScope

/-- What a profile assigns to a key: one spec, or a group of specs. -/
inductive ProfileValue where
  | spec (text : String)
  | group (specs : List String)
  deriving DecidableEq, Repr

/-- Specs by namespace and key, each in the order of names. -/
structure Profile where
  artifacts : Std.TreeMap String (Std.TreeMap String ProfileValue) := ∅

namespace Profile

/-- The namespaces that a profile names, in order. -/
def namespaces (p : Profile) : List String := p.artifacts.keys

/-- Whether a profile assigns nothing. -/
def isEmpty (p : Profile) : Bool := p.artifacts.values.all (·.isEmpty)

/-! ## Reading profiles -/

/-- The profile value that a TOML value is: a string, or an array of strings. -/
def valueOfToml? : Toml → Option ProfileValue
  | .string text => some (.spec text)
  | .array items => ProfileValue.group <$> items.mapM fun
    | .string text => some text
    | _ => none
  | _ => none

/-- The key under which a date counts as a table of its own. -/
def datetimeKey : String := "$__toml_private_datetime"

/-- The keys that a TOML value has for one namespace.  A date counts as a table that holds the date
under a reserved key. -/
def tableOfToml? : Toml → Option (Std.TreeMap String ProfileValue)
  | .table _ entries => entries.foldlM (fun table (key, value) => do
      return table.insert key (← valueOfToml? value)) ∅
  | .datetime text => some ((∅ : Std.TreeMap String ProfileValue).insert datetimeKey (.spec text))
  | _ => none

/-- The profile that a TOML document describes. -/
def ofToml? : Toml → Option Profile
  | .table _ entries =>
    match Toml.find? entries "artifacts" with
    | none => some {}
    | some (.table _ namespaces) => do
      let artifacts ← namespaces.foldlM (fun artifacts (name, value) => do
        return artifacts.insert name (← tableOfToml? value)) ∅
      return { artifacts }
    | some _ => none
  | _ => none

/-- Reads a profile. -/
def parse (text : String) : Except Error Profile :=
  match (Toml.parse text).bind ofToml? with
  | some profile => .ok profile
  | none => .error (.profile .malformed)

end Profile

end DependencyScope
