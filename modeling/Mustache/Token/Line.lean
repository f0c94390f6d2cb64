import Mustache.Text.Blank
import Mustache.Token

/-!
# Lines of their own

A section tag, a reference to a partial, a comment or a change of delimiters that is alone on its
line apart from line blanks takes the whole line with it: the blanks in front of it, the blanks
behind it and the line ending. A reference to a partial keeps the blanks in front of it.

Which tags are alone is read off the template as it was written. `Token.settle` walks over the
tokens with the part of the current line that it has passed, as long as that part holds no tag.
-/

namespace Mustache.Token

/-- The part of a line passed so far, after a further text run: what follows its last line feed, or
all of it behind what was passed before. Once the line holds a tag there is no such part. -/
def extendLine (passed : Option Text) (run : Text) : Option Text :=
  match run.lastLine? with
  | some line => some line
  | none => passed.map (· ++ run)

/-- Whether the line ends, apart from line blanks, in front of these tokens. -/
def lineEndsBefore : List Token → Bool
  | [] => true
  | t :: ts => t.kind == .text && t.content.endsLine ts.isEmpty

/-- Whether `t` is alone on its line, given the part of the line in front of it and the tokens
behind it. -/
def isAlone (passed : Option Text) (t : Token) (behind : List Token) : Bool :=
  t.kind.standsAlone && passed.any (·.all Text.isLineBlank) && lineEndsBefore behind

/-- Whether the first of the tokens is alone on its line. -/
def headIsAlone (passed : Option Text) : List Token → Bool
  | [] => false
  | t :: ts => isAlone passed t ts

/-- What is left of a text run when the tag in front of it, or the one behind it, takes its line
with it. -/
def cutRun (run : Text) (tagBefore tagBehind : Bool) : Text :=
  let run := if tagBefore then Text.dropLineEnd run else run
  if tagBehind then Text.dropTrailingBlanks run else run

/-- Takes the lines of the tags that are alone on theirs out of the text runs, and drops the runs
of which nothing is left and the tags that leave no node behind. `passed` is the part of the line
in front of the first token, `cut` tells whether the token before it took its line with it. -/
def settleFrom (passed : Option Text) (cut : Bool) : List Token → List Token
  | [] => []
  | t :: ts =>
    match t.kind with
    | .text =>
      let line := extendLine passed t.content
      let run := cutRun t.content cut (headIsAlone line ts)
      if run.isEmpty then settleFrom line false ts
      else { t with content := run } :: settleFrom line false ts
    | kind =>
      let alone := isAlone passed t ts
      let rest := settleFrom none alone ts
      if kind.isSilent then rest
      else if alone && kind == .inclusion then { t with indent := passed } :: rest
      else t :: rest

/-- Takes the lines of the tags that are alone on theirs out of a template's tokens. -/
def settle (tokens : List Token) : List Token := settleFrom (some []) false tokens

end Mustache.Token
