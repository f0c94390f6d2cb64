import Mustache.Table
import Mustache.Template

/-!
# Loaders

Where partials come from. A loader answers a name with nodes, with the word that there is no such
partial, or with an error; it may keep a state from one answer to the next.
-/

namespace Mustache

/-- A source of partials with state `σ` and errors `ε`. -/
abbrev Loader (σ ε : Type) : Type := Text → StateM σ (Except ε (Option (List Node)))

namespace Loader

variable {ε : Type}

/-- The loader that knows no partial. -/
def none : Loader Unit ε := fun _ => pure (.ok .none)

/-- The loader that answers from a table. -/
def ofTable (partials : Table Template) : Loader Unit ε := fun name =>
  pure (.ok (partials[name]?.map (·.nodes)))

/-- The loader that fails for the names of one table and answers the others from another. -/
def failing (errors : Table ε) (partials : Table Template) : Loader Unit ε := fun name =>
  match errors[name]? with
  | some e => pure (.error e)
  | .none => ofTable partials name

end Loader

/-- Reads partials from their texts; the first one that is faulty ends it. -/
def Template.parseAll (sources : List (Text × Text)) : Except ParseError (Table Template) := do
  let templates ← sources.mapM fun (name, source) => do return (name, ← parse source)
  return .ofList templates

end Mustache
