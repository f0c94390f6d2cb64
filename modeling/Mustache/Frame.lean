import Mustache.Context.Lookup

/-!
# Frames

What a sequence of nodes is written against: a scope of the context, and above it the fields of the
sections that were entered since. Fields are looked at before scopes, the last ones entered first.
A name with points in it that is bound nowhere is followed from part to part.
-/

namespace Mustache

/-- A scope with fields above it, the last ones entered first. -/
structure Frame where
  base : ScopeId
  pushed : List (Table Text) := []

namespace Frame

/-- The frame inside a section with these fields. -/
def push (frame : Frame) (map : Table Text) : Frame :=
  { frame with pushed := map :: frame.pushed }

/-- The text that a name is bound to. -/
def fetch (c : Context) (frame : Frame) (key : Text) : Except NoSuchScope (Option Text) :=
  match frame.pushed.findSome? (·[key]?) with
  | some value => .ok (some value)
  | none => c.fetch frame.base key

/-! ## Names with points -/

/-- Where a part of a name leads. -/
inductive Landing where
  | fields (map : Table Text)
  | scope (id : ScopeId)

/-- A section that has one place to go on from: fields, or a single item. -/
def Landing.ofSection? : Section → Option Landing
  | .fields map => some (.fields map)
  | .items [only] => some (.scope only)
  | _ => none

/-- Where the first part of a name leads: to the nearest fields, or else to the nearest items if
there is only one of them. -/
def land (c : Context) (base : ScopeId) (first : Text) : Except NoSuchScope (Option Landing) := do
  match ← c.fetchFields base first with
  | some map => return some (.fields map)
  | none => return ((← c.fetchItems base first).map Section.items).bind Landing.ofSection?

/-- Follows the parts between the first and the last, each inside what the one before it led to. -/
def follow (c : Context) : Landing → List Text → Except NoSuchScope (Option Landing)
  | landing, [] => .ok (some landing)
  | .fields _, _ :: _ => .ok none
  | .scope id, part :: parts => do
    match (← c.section? id part).bind Landing.ofSection? with
    | some landing => follow c landing parts
    | none => return none

/-- The text that the last part of a name is bound to in what the others led to. -/
def Landing.get? (c : Context) : Landing → Text → Except NoSuchScope (Option Text)
  | .fields map, part => .ok map[part]?
  | .scope id, part => c.get? id part

/-- The text at the end of a name of at least two parts, the first and the last of which are not
empty. -/
def fetchDotted (c : Context) (base : ScopeId) (key : Text) : Except NoSuchScope (Option Text) :=
  match Text.splitAt (· == '.') key with
  | first :: second :: more =>
    let last := (second :: more).getLast (List.cons_ne_nil _ _)
    if first.isEmpty || last.isEmpty then .ok none
    else do
      let some landing ← land c base first | return none
      let some landing ← follow c landing (second :: more).dropLast | return none
      landing.get? c last
  | _ => .ok none

/-- The text of a name: what it is bound to, or else what its parts lead to. -/
def lookup (c : Context) (frame : Frame) (key : Text) : Except NoSuchScope (Option Text) := do
  match ← frame.fetch c key with
  | some value => return some value
  | none => fetchDotted c frame.base key

end Frame

end Mustache
