/-
  DependencyScope.Text.Split — cutting a text at separators, and joining the pieces.

  Main definitions:
    * `splitOn` — the pieces between the occurrences of one character (always at least one piece);
    * `splitOnArrow` — the pieces between the occurrences of `->`, found from left to right;
    * `colons` — how many colons a text has, the measure of a spec and of a namespace's depth.
-/

namespace DependencyScope.Text

/-- The pieces between the occurrences of `sep`, in order; `n` separators give `n + 1` pieces. -/
def splitChars (sep : Char) : List Char → List (List Char)
  | [] => [[]]
  | c :: rest =>
    if c = sep then [] :: splitChars sep rest
    else
      match splitChars sep rest with
      | [] => [[c]]
      | piece :: pieces => (c :: piece) :: pieces

/-- `splitChars` on texts. -/
def splitOn (sep : Char) (s : String) : List String :=
  (splitChars sep s.toList).map String.ofList

/-- The pieces between the occurrences of the two-character arrow `->`, found from left to right. -/
def splitArrowChars : List Char → List (List Char)
  | [] => [[]]
  | '-' :: '>' :: rest => [] :: splitArrowChars rest
  | c :: rest =>
    match splitArrowChars rest with
    | [] => [[c]]
    | piece :: pieces => (c :: piece) :: pieces

/-- `splitArrowChars` on texts. -/
def splitOnArrow (s : String) : List String := (splitArrowChars s.toList).map String.ofList

/-- How many colons the text has. -/
def colons (s : String) : Nat := s.toList.count ':'

/-- ASCII letters in lower case; every other character stays. -/
def lower (s : String) : String := String.ofList (s.toList.map Char.toLower)

end DependencyScope.Text
