/-
  DependencyScope.Requirement.Lexer — cutting a requirement expression into tokens.

  Blanks only separate.  A word is a maximal run of version characters; it is a connective (`and`,
  `or`, `not`, in any letter case) or a version.  Everything else is an operator of one or two
  characters, where two are taken if they can be.

  Main definitions:
    * `Token.word` — what a word is;
    * `Token.next` — the token at the front of a text, and how much further it reaches;
    * `Token.scan` — all tokens of a text.
-/
import DependencyScope.Version.Parser

namespace DependencyScope.Token

open DependencyScope.Text

/-- The operator at the front of a text, and how many characters it takes after the first. -/
def operator? : List Char → Option (TokenKind × Nat)
  | '(' :: _ => some (.openBracket, 0)
  | ')' :: _ => some (.closeBracket, 0)
  | '&' :: '&' :: _ => some (.conjunction, 1)
  | '&' :: _ => some (.conjunction, 0)
  | '|' :: '|' :: _ => some (.disjunction, 1)
  | '|' :: _ => some (.disjunction, 0)
  | '!' :: '=' :: _ => some (.comparator .different, 1)
  | '!' :: _ => some (.negation, 0)
  | '=' :: '=' :: _ => some (.comparator .equal, 1)
  | '=' :: _ => some (.comparator .equal, 0)
  | '>' :: '=' :: _ => some (.comparator .atLeast, 1)
  | '>' :: _ => some (.comparator .above, 0)
  | '<' :: '=' :: _ => some (.comparator .atMost, 1)
  | '<' :: _ => some (.comparator .below, 0)
  | '~' :: '>' :: _ => some (.comparator .pessimistic, 1)
  | _ => none

/-- What a word is that stands `offset` bytes into `input`: a connective, or else a version. -/
def word (input : String) (offset : Nat) (text : String) : Except Error TokenKind :=
  match lower text with
  | "and" => .ok .conjunction
  | "or" => .ok .disjunction
  | "not" => .ok .negation
  | _ =>
    if Version.isValid text then (Version.parse text).map .version
    else .error (.parse (.operandInvalid text offset) input ⟨offset, byteLength text.toList⟩)

/-- What stands at the front of the text `c :: rest`, which begins `offset` bytes into `input`: a
token or a blank, and how many characters of `rest` belong to it. -/
def next (input : String) (offset : Nat) (c : Char) (rest : List Char) :
    Except Error (Option Token × Nat) :=
  if isBlank c then .ok (none, 0)
  else if isVersionChar c then
    let tail := rest.takeWhile isVersionChar
    match word input offset (String.ofList (c :: tail)) with
    | .ok kind => .ok (some ⟨kind, ⟨offset, byteLength (c :: tail)⟩⟩, tail.length)
    | .error e => .error e
  else
    match operator? (c :: rest) with
    | some (kind, extra) => .ok (some ⟨kind, ⟨offset, byteLength (c :: rest.take extra)⟩⟩, extra)
    | none =>
      if c = '~' then .error (.parse (.operatorUnknown offset) input ⟨offset, 1⟩)
      else .error (.parse (.requirementCharacter c offset) input ⟨offset, c.utf8Size⟩)

/-- The tokens of a text that begins `offset` bytes into `input`. -/
def scan (input : String) (offset : Nat) : List Char → Except Error (List Token)
  | [] => .ok []
  | c :: rest =>
    match next input offset c rest with
    | .error e => .error e
    | .ok (found, extra) =>
      match scan input (offset + byteLength (c :: rest.take extra)) (rest.drop extra) with
      | .error e => .error e
      | .ok later => .ok (found.toList ++ later)
termination_by text => text.length
decreasing_by simp only [List.length_drop, List.length_cons]; omega

end DependencyScope.Token
