import Mustache.Text

/-!
# Positions

Where something starts in a template: its line and column, both counted from one, and the number
of bytes before it.
-/

namespace Mustache

/-- A place in a template. -/
structure Position where
  /-- One more than the number of line feeds before the place. -/
  line : Nat
  /-- One more than the number of characters between the last line feed and the place. -/
  column : Nat
  /-- The number of bytes before the place. -/
  offset : Nat
deriving DecidableEq, Repr

namespace Position

/-- The start of a template. -/
def start : Position := ⟨1, 1, 0⟩

/-- The position of what does not come from a template. -/
def nowhere : Position := ⟨0, 0, 0⟩

/-- The place behind one character. -/
def next (p : Position) (c : Char) : Position :=
  if c = '\n' then ⟨p.line + 1, 1, p.offset + c.utf8Size⟩
  else ⟨p.line, p.column + 1, p.offset + c.utf8Size⟩

/-- The place behind a text. -/
def advance (p : Position) (s : Text) : Position := s.foldl next p

@[simp] theorem advance_nil (p : Position) : p.advance [] = p := rfl

@[simp] theorem advance_cons (p : Position) (c : Char) (s : Text) :
    p.advance (c :: s) = (p.next c).advance s := rfl

theorem advance_append (p : Position) (s t : Text) :
    p.advance (s ++ t) = (p.advance s).advance t :=
  List.foldl_append

@[simp] theorem offset_next (p : Position) (c : Char) :
    (p.next c).offset = p.offset + c.utf8Size := by
  unfold next; split <;> rfl

@[simp] theorem offset_advance (p : Position) (s : Text) :
    (p.advance s).offset = p.offset + s.byteLength := by
  induction s generalizing p with
  | nil => rfl
  | cons c s ih => simp [ih, Nat.add_assoc]

end Position

end Mustache
