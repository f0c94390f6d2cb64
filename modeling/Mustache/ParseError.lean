import Mustache.Position

/-!
# Parse errors

What can be wrong with a template, where, and the words for it.
-/

namespace Mustache

/-- What is wrong with a template. -/
inductive ParseError.Cause where
  /-- A tag without its closing delimiter. -/
  | unclosedTag
  /-- A tag that names nothing. -/
  | emptyTagName
  /-- A tag that sets delimiters, but not to two words free of `=`. -/
  | invalidDelimiters (content : Text)
  /-- The template ends inside a section. -/
  | unclosedSection (name : Text)
  /-- A section that ends under another name. -/
  | mismatchedClose (expected found : Text)
  /-- The end of a section where none is open. -/
  | unexpectedClose (name : Text)
  /-- A section inside `limit` others. -/
  | nestingTooDeep (limit : Nat)
  /-- A token that stands for no node. -/
  | unexpectedToken (content : Text)
  /-- A section whose tags do not enclose a part of the template. -/
  | brokenSpan (start stop : Nat)
deriving DecidableEq, Repr

/-- A fault of a template, at the tag that shows it. -/
structure ParseError where
  cause : ParseError.Cause
  pos : Position
deriving DecidableEq, Repr

namespace ParseError

/-- The words for a cause, to be followed by the place. -/
def Cause.message : Cause → Text
  | .unclosedTag => "unclosed tag".toList
  | .emptyTagName => "empty tag name".toList
  | .invalidDelimiters content => "invalid delimiters '".toList ++ content ++ ['\'']
  | .unclosedSection name => "unclosed section '".toList ++ name ++ "' opened".toList
  | .mismatchedClose expected found =>
    "section '".toList ++ expected ++ "' closed by '".toList ++ found ++ ['\'']
  | .unexpectedClose name => "close tag '".toList ++ name ++ "' without open section".toList
  | .nestingTooDeep limit => "sections nested deeper than ".toList ++ Text.ofNat limit
  | .unexpectedToken content => "unexpected '".toList ++ content ++ ['\'']
  | .brokenSpan start stop =>
    "no text from ".toList ++ Text.ofNat start ++ " to ".toList ++ Text.ofNat stop

/-- The words for a fault: what is wrong, then the line and column of the tag that shows it. -/
def message (e : ParseError) : Text :=
  e.cause.message ++ " at line ".toList ++ Text.ofNat e.pos.line ++ ", column ".toList ++
    Text.ofNat e.pos.column

end ParseError

end Mustache
