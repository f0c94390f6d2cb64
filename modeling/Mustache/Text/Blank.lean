import Mustache.Text

/-!
# Blanks

Two classes of blanks. A *white space* character has the Unicode property `White_Space`; white
space around the name in a tag does not count. A *line blank* is a space or a tab; line blanks
around a tag that stands alone on its line go away with it.
-/

namespace Mustache

namespace Text

/-! ## White space -/

/-- The Unicode property `White_Space`. -/
def isWhite (c : Char) : Bool :=
  let n := c.toNat
  (0x9 ≤ n && n ≤ 0xD) || n == 0x20 || n == 0x85 || n == 0xA0 || n == 0x1680 ||
    (0x2000 ≤ n && n ≤ 0x200A) || n == 0x2028 || n == 0x2029 || n == 0x202F || n == 0x205F ||
    n == 0x3000

/-- Takes white space away from both ends. -/
def trim (s : Text) : Text :=
  ((s.dropWhile isWhite).reverse.dropWhile isWhite).reverse

/-- The maximal runs without white space. -/
def words (s : Text) : List Text := (splitAt isWhite s).filter (!·.isEmpty)

theorem ne_nil_of_mem_words {s w : Text} (h : w ∈ words s) : w ≠ [] := by
  rintro rfl
  simp [words] at h

/-! ## Lines -/

/-- A space or a tab. -/
def isLineBlank (c : Char) : Bool := c == ' ' || c == '\t'

/-- What follows the last line feed, if there is one. -/
def lastLine? (s : Text) : Option Text :=
  if s.contains '\n' then some (s.reverse.takeWhile (· != '\n')).reverse else none

/-- Drops the line blanks at the front and then one line ending, if it is there. -/
def dropLineEnd (s : Text) : Text :=
  match s.dropWhile isLineBlank with
  | '\r' :: '\n' :: rest => rest
  | '\n' :: rest => rest
  | rest => rest

/-- Drops the line blanks at the end. -/
def dropTrailingBlanks (s : Text) : Text := (s.reverse.dropWhile isLineBlank).reverse

/-- Whether only line blanks stand before the first line ending. With `atEnd` the text is the last
of its source, and its end ends the line too. -/
def endsLine (s : Text) (atEnd : Bool) : Bool :=
  match s.dropWhile isLineBlank with
  | [] => atEnd
  | '\n' :: _ => true
  | '\r' :: '\n' :: _ => true
  | _ => false

end Text

end Mustache
