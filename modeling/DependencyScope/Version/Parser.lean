/-
  DependencyScope.Version.Parser — reading versions, with the place and the reason of a failure.

  Reading drops the blank ends of a text.  A text that is no version is blamed at its first
  character that no version may hold, or, where all characters are fine, for lacking a digit.

  Main definitions:
    * `Version.refused?` — the character that a text is blamed at, and its place;
    * `Version.parse` — reads a version.
-/
import DependencyScope.Error

namespace DependencyScope.Version

open DependencyScope.Text

/-- The first character behind the blanks in front that no version may hold, with its place.  The
search ends where the blanks at the end begin. -/
def refused? (text : List Char) : Option (Nat × Char) :=
  ((charOffsets 0 text).dropWhile fun place => isBlank place.2).find? fun place =>
    !isVersionChar place.2 && decide (place.1 < byteLength (trimBack text))

/-- Reads a version. -/
def parse (text : String) : Except Error Version :=
  match refused? text.toList with
  | some (offset, c) =>
    .error (.parse (.versionCharacter c (trim text)) text ⟨offset, c.utf8Size⟩)
  | none =>
    match ofText? (trim text) with
    | some version => .ok version
    | none =>
      let offset := byteLength text.toList - byteLength (trimFront text.toList)
      .error (.parse (.versionWithoutDigit (trim text)) text
        ⟨offset, byteLength (trim text).toList⟩)

end DependencyScope.Version
