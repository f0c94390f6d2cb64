import Mustache.Text.Blank

/-!
# Delimiters

The two marks that enclose a tag. A template starts with `{{` and `}}`; a tag can set others.
-/

namespace Mustache

/-- The marks that enclose a tag. Neither is empty, so a tag always takes up some text. -/
structure Delimiters where
  opening : Text
  closing : Text
  opening_ne_nil : opening ≠ []
  closing_ne_nil : closing ≠ []

namespace Delimiters

/-- Two braces on either side. -/
def braces : Delimiters := ⟨['{', '{'], ['}', '}'], by decide, by decide⟩

/-- Reads the content of a tag that sets delimiters: two words, neither of which holds `=`. -/
def ofContent? (content : Text) : Option Delimiters :=
  match h : content.words with
  | [opening, closing] =>
    if opening.contains '=' || closing.contains '=' then none
    else some ⟨opening, closing, Text.ne_nil_of_mem_words (s := content) (by simp [h]),
      Text.ne_nil_of_mem_words (s := content) (by simp [h])⟩
  | _ => none

end Delimiters

end Mustache
