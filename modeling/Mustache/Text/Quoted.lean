import Mustache.Text.Visible

/-!
# Quoted texts

A text between double quotes, as a reader of diagnostics sees it: quotes, backslashes and hidden
characters are written with a backslash.
-/

namespace Mustache.Text

/-- A character between quotes. Hidden characters without a letter of their own are written by their
number in base sixteen. -/
def quotedChar (c : Char) : Text :=
  match c with
  | '"' => ['\\', '"']
  | '\\' => ['\\', '\\']
  | '\n' => ['\\', 'n']
  | '\r' => ['\\', 'r']
  | '\t' => ['\\', 't']
  | '\x00' => ['\\', '0']
  | c => if isVisible c then [c] else "\\u\x7b".toList ++ Nat.toDigits 16 c.toNat ++ ['\x7d']

/-- A text between quotes. -/
def quoted (s : Text) : Text := ['"'] ++ s.flatMap quotedChar ++ ['"']

end Mustache.Text
