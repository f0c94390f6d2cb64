import Mustache.Text
import Std.Data.ExtTreeMap

/-!
# Tables

Finite maps from names to values. Two tables with the same values are equal, and the entries of a
table come in ascending order of their names, character by character.
-/

namespace Mustache

/-- A finite map from names. -/
abbrev Table (α : Type) := Std.ExtTreeMap Text α

namespace Table

variable {α : Type}

/-- The last name that was set has its new value, and every other name the one it had. -/
theorem getElem?_insert (t : Table α) (key key' : Text) (value : α) :
    (t.insert key value)[key']? = if key = key' then some value else t[key']? := by
  simp [Std.ExtTreeMap.getElem?_insert]

end Table

end Mustache
