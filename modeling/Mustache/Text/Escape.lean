import Mustache.Text

/-!
# Escaped text

The characters that markup gives a meaning, `&`, `<`, `>` and `"`, are written as entities; every
other character stands for itself.
-/

namespace Mustache

namespace Text

/-- The entity of a character that markup gives a meaning; any other character stands for itself. -/
def entity : Char → Text
  | '&' => ['&', 'a', 'm', 'p', ';']
  | '<' => ['&', 'l', 't', ';']
  | '>' => ['&', 'g', 't', ';']
  | '"' => ['&', 'q', 'u', 'o', 't', ';']
  | c => [c]

/-- Writes every character as its entity. -/
def escape (s : Text) : Text := s.flatMap entity

@[simp] theorem escape_cons (c : Char) (s : Text) : escape (c :: s) = entity c ++ escape s := rfl

theorem escape_append (s t : Text) : escape (s ++ t) = escape s ++ escape t :=
  List.flatMap_append

end Text

end Mustache
