/-
  DependencyScope.Text.Blank — blank characters and trimming.

  A character is blank when it has the Unicode property White_Space: twenty-five code points, of
  which six are ASCII.  Every reader of this library trims with this set, so a no-break space or
  an ideographic space around a version counts for nothing, and a zero-width space counts as text.

  Main definitions:
    * `isBlank` — membership in White_Space;
    * `trimChars`, `trim` — the text without its leading and trailing blanks;
    * `charOffsets`, `byteLength` — where the characters of a text stand, in bytes, and its length.
-/

namespace DependencyScope.Text

/-! ## §1. The blank characters -/

/-- The code points with the property White_Space, in order. -/
def blankCodePoints : List Nat :=
  [0x9, 0xa, 0xb, 0xc, 0xd, 0x20, 0x85, 0xa0, 0x1680, 0x2000, 0x2001, 0x2002, 0x2003, 0x2004,
   0x2005, 0x2006, 0x2007, 0x2008, 0x2009, 0x200a, 0x2028, 0x2029, 0x202f, 0x205f, 0x3000]

/-- Whether a character has the property White_Space. -/
def isBlank (c : Char) : Bool := blankCodePoints.contains c.toNat

/-! ## §2. Trimming -/

/-- Drops the blanks at the front. -/
def trimFront (cs : List Char) : List Char := cs.dropWhile isBlank

/-- Drops the blanks at the back. -/
def trimBack (cs : List Char) : List Char := (cs.reverse.dropWhile isBlank).reverse

/-- Drops the blanks at both ends. -/
def trimChars (cs : List Char) : List Char := trimBack (trimFront cs)

/-- The text without the blanks at its ends. -/
def trim (s : String) : String := String.ofList (trimChars s.toList)

theorem length_trimFront_le (cs : List Char) : (trimFront cs).length ≤ cs.length := by
  simpa [trimFront] using (List.dropWhile_suffix isBlank (l := cs)).length_le

theorem length_trimBack_le (cs : List Char) : (trimBack cs).length ≤ cs.length := by
  simpa [trimBack] using (List.dropWhile_suffix isBlank (l := cs.reverse)).length_le

theorem length_trimChars_le (cs : List Char) : (trimChars cs).length ≤ cs.length :=
  Nat.le_trans (length_trimBack_le _) (length_trimFront_le _)

@[simp] theorem toList_trim (s : String) : (trim s).toList = trimChars s.toList := by
  simp [trim]

/-! ## §3. Places and lengths in bytes -/

/-- The characters of a text, each with its place in bytes, where the text begins at `offset`. -/
def charOffsets (offset : Nat) : List Char → List (Nat × Char)
  | [] => []
  | c :: rest => (offset, c) :: charOffsets (offset + c.utf8Size) rest

/-- How many bytes the characters take in UTF-8. -/
def byteLength : List Char → Nat
  | [] => 0
  | c :: rest => c.utf8Size + byteLength rest

@[simp] theorem byteLength_nil : byteLength [] = 0 := rfl

@[simp] theorem byteLength_cons (c : Char) (cs : List Char) :
    byteLength (c :: cs) = c.utf8Size + byteLength cs := rfl

@[simp] theorem byteLength_append (cs ds : List Char) :
    byteLength (cs ++ ds) = byteLength cs + byteLength ds := by
  induction cs with
  | nil => simp
  | cons c cs ih => simp [ih, Nat.add_assoc]

end DependencyScope.Text
