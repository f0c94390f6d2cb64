import Mustache.Json
import Mustache.Json.Token
import Mustache.Table

/-!
# Reading JSON

A JSON text is read token by token, with a stack of the arrays and objects that are open. Of two
members with the same key the later one counts.
-/

namespace Mustache.Json

/-- An array or object whose end has not been read yet. -/
inductive Open where
  /-- An array with its items, the last one first. -/
  | array (items : List Json)
  /-- An object with its members, and the key whose value comes next. -/
  | object (members : Table Json) (key : Text)

/-- What may come next. -/
inductive Expected where
  /-- A value. -/
  | value
  /-- A value, or the end of the array that has just been opened. -/
  | itemOrEnd
  /-- A key of an object with these members. -/
  | key (members : Table Json)
  /-- A key, or the end of the object that has just been opened. -/
  | keyOrEnd
  /-- A colon behind a key of an object with these members. -/
  | colon (members : Table Json) (key : Text)
  /-- What follows a value: a comma, the end of what encloses it, or the end of the text. -/
  | next (value : Json)

/-- How far a JSON text has been read. -/
structure Progress where
  opened : List Open
  expected : Expected

/-- The greatest number of arrays and objects that may be open at once. -/
def maxOpen : Nat := 127

/-- Reads one token where a value may start. -/
def Progress.startValue? (limit : Nat) (opened : List Open) : Token → Option Progress
  | .null => some ⟨opened, .next .null⟩
  | .bool b => some ⟨opened, .next (.bool b)⟩
  | .number n => some ⟨opened, .next (.number n)⟩
  | .string s => some ⟨opened, .next (.string s)⟩
  | .openArray => if opened.length < limit then some ⟨.array [] :: opened, .itemOrEnd⟩ else none
  | .openObject => if opened.length < limit then some ⟨opened, .keyOrEnd⟩ else none
  | _ => none

/-- Reads one token behind a value. -/
def Progress.afterValue? (value : Json) : List Open → Token → Option Progress
  | .array items :: opened, .comma => some ⟨.array (value :: items) :: opened, .value⟩
  | .array items :: opened, .closeArray => some ⟨opened, .next (.array (value :: items).reverse)⟩
  | .object members key :: opened, .comma => some ⟨opened, .key (members.insert key value)⟩
  | .object members key :: opened, .closeObject =>
    some ⟨opened, .next (.object (members.insert key value).toList)⟩
  | _, _ => none

/-- Reads one token. -/
def Progress.step? (limit : Nat) (p : Progress) (t : Token) : Option Progress :=
  match p.expected, t with
  | .value, t => startValue? limit p.opened t
  | .itemOrEnd, .closeArray =>
    match p.opened with
    | .array items :: opened => some ⟨opened, .next (.array items.reverse)⟩
    | _ => none
  | .itemOrEnd, t => startValue? limit p.opened t
  | .key members, .string key => some ⟨p.opened, .colon members key⟩
  | .keyOrEnd, .string key => some ⟨p.opened, .colon ∅ key⟩
  | .keyOrEnd, .closeObject => some ⟨p.opened, .next (.object [])⟩
  | .colon members key, .colon => some ⟨.object members key :: p.opened, .value⟩
  | .next value, t => afterValue? value p.opened t
  | _, _ => none

/-- Reads a JSON text in which at most `limit` arrays and objects are open at once. -/
def readWithin? (limit : Nat) (source : Text) : Option Json :=
  match (Token.scan? source).bind (·.foldlM (Progress.step? limit) ⟨[], .value⟩) with
  | some ⟨[], .next value⟩ => some value
  | _ => none

/-- Reads a JSON text. -/
def read? (source : Text) : Option Json := readWithin? maxOpen source

end Mustache.Json
