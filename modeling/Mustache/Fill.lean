import Mustache.Context.Populate
import Mustache.Directory
import Mustache.Render

/-!
# Filling templates

A template is read once and filled as often as wanted: with data, and with partials from a directory
if one is given.
-/

namespace Mustache

/-- Why a template could not be read or filled. `ε` holds the errors of its loader. -/
inductive FillError (ε : Type) where
  | parse (error : ParseError)
  | context (error : ContextError)
  | directory (error : DirectoryError)
  | render (error : RenderError ε)

/-- The words for a template that could not be read or filled, given the words for the errors of its
loader. -/
def FillError.message {ε : Type} (ofLoader : ε → Text) : FillError ε → Text
  | .parse e => "Parse error: ".toList ++ e.message
  | .context e => e.message
  | .directory e => e.message
  | .render e => e.message ofLoader

/-- A template that is ready to be filled. -/
structure Form where
  template : Template
  /-- The directory of its partials; without one a reference to a partial stands for nothing. -/
  partialRoot : Option Path := none
  maxDepth : Nat := defaultMaxDepth

namespace Form

variable {σ ε : Type}

/-- Reads a template. -/
def parse (source : Text) : Except (FillError ε) Form :=
  match Template.parse source with
  | .ok template => .ok { template }
  | .error e => .error (.parse e)

/-- Fills a template, with partials from a loader. The loader's new state comes back with the
result. -/
def renderWith (form : Form) (loader : Loader σ ε) (state : σ) (c : Context) :
    Except (FillError ε) Text × σ :=
  let renderer : Renderer σ ε := { loader, state, maxDepth := form.maxDepth }
  let (result, renderer) := renderer.render form.template.nodes c
  (result.mapError .render, renderer.state)

/-- Fills a template, with partials from its directory, which is opened anew. -/
def render (form : Form) (files : FileTree) (c : Context) :
    Except (FillError DirectoryError) Text :=
  match form.partialRoot with
  | none => (form.renderWith Loader.none () c).1
  | some root =>
    match Directory.open? files root with
    | .ok d => (form.renderWith (Directory.loader files) d c).1
    | .error e => .error (.directory e)

/-- Fills a template with JSON data. -/
def renderJson (form : Form) (files : FileTree) (data : Json) :
    Except (FillError DirectoryError) Text :=
  match Context.ofJson data with
  | .ok c => form.render files c
  | .error e => .error (.context e)

end Form

/-- Reads a template and fills it with JSON data. -/
def fill (source : Text) (data : Json) : Except (FillError DirectoryError) Text :=
  match Form.parse source with
  | .ok form => form.renderJson .empty data
  | .error e => .error e

/-- Reads a template and fills it with JSON data and partials from a directory. -/
def fillWithPartials (files : FileTree) (root : Path) (source : Text) (data : Json) :
    Except (FillError DirectoryError) Text :=
  match Form.parse source with
  | .ok form => { form with partialRoot := some root }.renderJson files data
  | .error e => .error e

end Mustache
