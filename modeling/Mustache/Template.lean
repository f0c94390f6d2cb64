import Mustache.Node
import Mustache.Token.Line
import Mustache.Token.Scan

/-!
# Templates

`Template.parse` reads a template: it splits the text into tokens, takes out the lines of tags that
are alone on theirs, and nests what is left. The nesting keeps a stack of the sections that are
open; the first tag that does not fit the stack is the fault that is reported.
-/

namespace Mustache

/-- The greatest number of sections that may be open at once. -/
def maxNesting : Nat := 128

/-- A section whose end has not been read yet. -/
structure OpenBlock where
  /-- The tag that opened it. -/
  tag : Token
  inverted : Bool
  /-- The nodes in front of it in the sequence that it belongs to, the last one first. -/
  before : List Node

/-- A template that has been read. -/
structure Template where
  nodes : List Node
  pos : Position := .start

namespace Template

/-- Nests tokens into nodes. `opened` holds the sections that are open, the innermost one first,
and `done` the nodes of the innermost one that have been read, the last one first. -/
def nestFrom (opened : List OpenBlock) (done : List Node) :
    List Token → Except ParseError (List Node)
  | [] =>
    match opened with
    | [] => .ok done.reverse
    | b :: _ => .error ⟨.unclosedSection b.tag.content, b.tag.pos⟩
  | t :: ts =>
    match t.kind with
    | .text => nestFrom opened (.text t.content t.pos :: done) ts
    | .escaped => nestFrom opened (.value t.content false t.pos :: done) ts
    | .raw => nestFrom opened (.value t.content true t.pos :: done) ts
    | .inclusion => nestFrom opened (.inclusion t.content t.indent t.pos :: done) ts
    | .opening inverted =>
      if opened.length = maxNesting then .error ⟨.nestingTooDeep maxNesting, t.pos⟩
      else nestFrom (⟨t, inverted, done⟩ :: opened) [] ts
    | .closing =>
      match opened with
      | [] => .error ⟨.unexpectedClose t.content, t.pos⟩
      | b :: opened =>
        if t.content = b.tag.content then
          match b.tag.textUpTo? t.pos.offset with
          | some body =>
            let block := .block b.tag.content b.inverted done.reverse body b.tag.pos
            nestFrom opened (block :: b.before) ts
          | none => .error ⟨.brokenSpan b.tag.stop t.pos.offset, t.pos⟩
        else .error ⟨.mismatchedClose b.tag.content t.content, t.pos⟩
    | .comment | .delimiters => .error ⟨.unexpectedToken t.content, t.pos⟩

/-- Nests tokens into nodes. -/
def nest (tokens : List Token) : Except ParseError (List Node) := nestFrom [] [] tokens

/-- Reads a template. -/
def parse (source : Text) : Except ParseError Template :=
  match Token.scan source with
  | .error e => .error e
  | .ok tokens =>
    match nest (Token.settle tokens) with
    | .error e => .error e
    | .ok nodes => .ok { nodes }

end Template

end Mustache
