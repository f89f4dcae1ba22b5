/-
  DependencyScope.CommandLine.Json — resolved artifacts as a JSON object.

  The object has a member for each key, in the order of keys, with an array of artifacts.  Members
  and items stand on lines of their own, indented by two spaces for each level.

  Main definitions:
    * `jsonString` — a text as a JSON string;
    * `jsonOfResolved` — the object.
-/
import DependencyScope.Coordinate
import DependencyScope.Text.Quoted
import Std.Data.TreeMap

namespace DependencyScope.CommandLine

open DependencyScope.Text

/-- A number below 256 as two hexadecimal digits. -/
def hexByte (n : Nat) : List Char := [Nat.digitChar (n / 16), Nat.digitChar (n % 16)]

/-- The escaped form of a character in a JSON string: quotes, backslashes and controls are
escaped. -/
def jsonChar (c : Char) : List Char :=
  match c with
  | '\x22' => ['\\', '\x22']
  | '\\' => ['\\', '\\']
  | '\x08' => ['\\', 'b']
  | '\x0c' => ['\\', 'f']
  | '\n' => ['\\', 'n']
  | '\r' => ['\\', 'r']
  | '\t' => ['\\', 't']
  | c => if c.toNat < 0x20 then ['\\', 'u', '0', '0'] ++ hexByte c.toNat else [c]

/-- A text as a JSON string. -/
def jsonString (s : String) : String :=
  String.ofList ('\x22' :: s.toList.flatMap jsonChar ++ ['\x22'])

/-- Items between brackets, each on a line of its own with the indentation `indent` and two more
spaces. -/
def jsonBlock (opening closing indent : String) (items : List String) : String :=
  if items.isEmpty then opening ++ closing
  else
    opening ++ "\n" ++ String.intercalate ",\n" (items.map (indent ++ "  " ++ ·)) ++
      "\n" ++ indent ++ closing

/-- A member of an object. -/
def jsonMember (key value : String) : String := jsonString key ++ ": " ++ value

/-- The members of the object for an artifact. -/
def artifactMembers (a : Artifact) : List String :=
  [jsonMember "group" (jsonString a.coordinate.group),
    jsonMember "id" (jsonString a.coordinate.id),
    jsonMember "type" (jsonString a.coordinate.type)] ++
  (a.coordinate.classifier.map fun c => jsonMember "classifier" (jsonString c)).toList ++
  [jsonMember "version" (jsonString a.version)]

/-- The object for the artifacts of several keys. -/
def jsonOfResolved (resolved : Std.TreeMap String (List Artifact)) : String :=
  jsonBlock "\x7b" "\x7d" "" <| resolved.toList.map fun (key, artifacts) =>
    jsonMember key <| jsonBlock "[" "]" "  " <| artifacts.map fun a =>
      jsonBlock "\x7b" "\x7d" "    " (artifactMembers a)

end DependencyScope.CommandLine
