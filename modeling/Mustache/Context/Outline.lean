import Mustache.Assignment
import Mustache.Text.Quoted

/-!
# Outlines of bindings

Sections and assignments on one line, for a reader of diagnostics. A function shows only that it is
one.
-/

namespace Mustache

/-- Texts with a comma between two. -/
def Text.commaSeparated (pieces : List Text) : Text := ([',', ' '] : Text).intercalate pieces

/-- Fields with their names, in braces. -/
def Table.outline (map : Table Text) : Text :=
  let fields := map.toList.map fun (key, value) => key.quoted ++ [':', ' '] ++ value.quoted
  ['\x7b'] ++ Text.commaSeparated fields ++ ['\x7d']

/-- The outline of a section. -/
def Section.outline : Section → Text
  | .fields map => "Value(".toList ++ map.outline ++ [')']
  | .function _ => "Func(<lambda>)".toList
  | .items scopes =>
    "List([".toList ++
      Text.commaSeparated (scopes.map fun id => "ContextId(".toList ++ Text.ofNat id ++ [')']) ++
      "])".toList

/-- The outline of an assignment. -/
def Assignment.outline : Assignment → Text
  | .text value => "Text(".toList ++ value.quoted ++ [')']
  | .fields map => "Map(".toList ++ map.outline ++ [')']
  | .function _ => "Lambda(<lambda>)".toList

end Mustache
