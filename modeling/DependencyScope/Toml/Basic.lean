/-
  DependencyScope.Toml.Basic — TOML values, and how tables may be built.

  A table is opened by a header, implied by a longer header, built up by dotted keys, or written
  inline.  A table is opened by a header at most once, dotted keys do not extend a table that a
  header opened, and an inline table is complete where it is written.

  Main definitions:
    * `Toml`, `TableForm`;
    * `Toml.modifyAt` — changes the table at a path, making implied tables on the way;
    * `Toml.insertPair`, `Toml.openTable`, `Toml.openArrayTable` — the three ways a document grows.
-/

namespace DependencyScope

/-- How a table came to be. -/
inductive TableForm where
  /-- Opened by a header, or the document itself. -/
  | header
  /-- Implied by the header of a table inside it. -/
  | implied
  /-- Built up by dotted keys. -/
  | dotted
  /-- Written between braces. -/
  | inline
  deriving DecidableEq, Repr

/-- Whether dotted keys may go through a table of this form. -/
def TableForm.extensible : TableForm → Bool
  | .implied | .dotted => true
  | .header | .inline => false

/-- A TOML value. -/
inductive Toml where
  | string (text : String)
  | integer (value : Int)
  /-- A float, as it is written. -/
  | float (text : String)
  | boolean (value : Bool)
  /-- A date, a time or both, in normal form. -/
  | datetime (text : String)
  | array (items : List Toml)
  | table (form : TableForm) (entries : List (String × Toml))
  /-- An array of tables that headers opened, in order. -/
  | tables (items : List Toml)

namespace Toml

/-- The value of a key. -/
def find? (entries : List (String × Toml)) (key : String) : Option Toml :=
  (entries.find? (·.1 == key)).map Prod.snd

/-- Replaces the value of a key, or adds the key at the end. -/
def assign (entries : List (String × Toml)) (key : String) (value : Toml) : List (String × Toml) :=
  if (find? entries key).isSome then
    entries.map fun entry => if entry.1 == key then (key, value) else entry
  else entries ++ [(key, value)]

/-- Changes the table at a path.  Tables that are missing on the way are made, by dotted keys or as
implied ones; in an array of tables the path goes through the last one.  No path goes through an
inline table, and dotted keys go through no table that a header opened. -/
def modifyAt (dotted : Bool) (change : Toml → Option Toml) : List String → Toml → Option Toml
  | [], t => change t
  | key :: path, .table form entries =>
    let child : Option Toml :=
      match find? entries key with
      | none => modifyAt dotted change path (.table (if dotted then .dotted else .implied) [])
      | some (.table .inline _) => none
      | some (.table childForm inner) =>
        if dotted && !childForm.extensible then none
        else modifyAt dotted change path (.table childForm inner)
      | some (.tables items) =>
        match items.getLast? with
        | none => none
        | some last =>
          (modifyAt dotted change path last).map fun last => .tables (items.dropLast ++ [last])
      | some _ => none
    child.map fun child => .table form (assign entries key child)
  | _ :: _, _ => none

/-- Adds a key and its value to a table, where dotted keys may lead to an inner table first. -/
def insertPair (path : List String) (key : String) (value : Toml) : Toml → Option Toml :=
  modifyAt true (fun
    | .table form entries =>
      if (form == .dotted) == path.isEmpty || (find? entries key).isSome then none
      else some (.table form (entries ++ [(key, value)]))
    | _ => none) path

/-- Opens a table by its header. -/
def openTable (path : List String) (key : String) : Toml → Option Toml :=
  modifyAt false (fun
    | .table form entries =>
      match find? entries key with
      | none => some (.table form (assign entries key (.table .header [])))
      | some (.table .implied inner) =>
        some (.table form (assign entries key (.table .header inner)))
      | some _ => none
    | _ => none) path

/-- Opens the next table of an array of tables by its header. -/
def openArrayTable (path : List String) (key : String) : Toml → Option Toml :=
  modifyAt false (fun
    | .table form entries =>
      match find? entries key with
      | none => some (.table form (assign entries key (.tables [.table .header []])))
      | some (.tables items) =>
        some (.table form (assign entries key (.tables (items ++ [.table .header []]))))
      | some _ => none
    | _ => none) path

end Toml

end DependencyScope
