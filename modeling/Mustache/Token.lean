import Mustache.Position

/-!
# Tokens

A template is a sequence of text runs and tags. A token is one of them, with the part of the
template that it takes up.
-/

namespace Mustache

/-- What a token is: a text run, or a tag by what its first character makes of it. -/
inductive Token.Kind where
  /-- Text between tags. -/
  | text
  /-- The value of a name, escaped. -/
  | escaped
  /-- The value of a name as it is. -/
  | raw
  /-- The start of a section, or of an inverted one. -/
  | opening (inverted : Bool)
  /-- The end of a section. -/
  | closing
  /-- A reference to a partial. -/
  | inclusion
  /-- A comment. -/
  | comment
  /-- New delimiters. -/
  | delimiters
deriving DecidableEq, Repr

namespace Token.Kind

/-- Whether such a tag takes its line with it when nothing else is on the line. Tags that write a
value never do. -/
def standsAlone : Kind → Bool
  | .opening _ | .closing | .inclusion | .comment | .delimiters => true
  | .text | .escaped | .raw => false

/-- Whether the token leaves no node behind. -/
def isSilent : Kind → Bool
  | .comment | .delimiters => true
  | _ => false

end Token.Kind

/-- A text run or a tag. -/
structure Token where
  kind : Token.Kind
  /-- The text itself; of a tag, what it holds between its marks. -/
  content : Text
  /-- All that the token takes up in the template. -/
  lexeme : Text
  /-- Where the lexeme starts. -/
  pos : Position
  /-- All that follows the lexeme in the template. -/
  behind : Text
  /-- The line blanks in front of a reference to a partial that stands alone on its line. -/
  indent : Option Text := none
deriving DecidableEq, Repr

namespace Token

/-- The number of bytes before the end of the lexeme. -/
def stop (t : Token) : Nat := t.pos.offset + t.lexeme.byteLength

/-- The text between the end of the lexeme and a byte offset of the template. There is no answer for
an offset before the end of the lexeme, past the end of the template or inside a character. -/
def textUpTo? (t : Token) (offset : Nat) : Option Text :=
  if t.stop ≤ offset then t.behind.takeBytes? (offset - t.stop) else none

/-- A text that follows the lexeme is what lies between it and its own end. -/
theorem textUpTo?_eq_some {t : Token} {between rest : Text} (h : t.behind = between ++ rest) :
    t.textUpTo? (t.stop + between.byteLength) = some between := by
  simp [textUpTo?, h]

end Token

end Mustache
