import Mustache.FileTree
import Mustache.Loader

/-!
# Partials in a directory

Partials are files below one directory. The name `a/b` stands for the file `a/b.mustache` there.
Neither a name nor a link leads out of the directory. A partial that has been read is remembered,
whatever happens to its file afterwards; nothing else is.
-/

namespace Mustache

/-- Why a partial could not be loaded. -/
inductive DirectoryError where
  /-- A directory that is not there. -/
  | badRoot (fault : FileTree.Fault)
  | emptyName
  /-- A name that could lead upwards. -/
  | traversal (name : Text)
  /-- A name with a part that is empty or stands for its directory. -/
  | emptyPart (name : Text)
  /-- A path that cannot be followed. -/
  | unresolved (fault : FileTree.Fault)
  /-- A path that leads out of the directory. -/
  | escapes (path : Path)
  /-- A partial that is no template. -/
  | faulty (name : Text) (error : ParseError)
  /-- A file that is not text. -/
  | notText
deriving DecidableEq, Repr

/-- The words for a partial that could not be loaded. -/
def DirectoryError.message : DirectoryError → Text
  | .badRoot fault => "Partial error: Invalid partial root: ".toList ++ fault.message
  | .emptyName => "Partial error: Partial name is empty".toList
  | .traversal name => "Partial error: Invalid partial name (path traversal): ".toList ++ name
  | .emptyPart name => "Partial error: Invalid partial name (empty segment): ".toList ++ name
  | .unresolved fault =>
    "Partial error: Failed to resolve partial path: ".toList ++ fault.message
  | .escapes path => "Partial error: Partial path escapes the partial root: ".toList ++ path.text
  | .faulty name error =>
    "Partial error: Failed to parse partial '".toList ++ name ++ ['\'', ':', ' '] ++ error.message
  | .notText => "IO error: stream did not contain valid UTF-8".toList

/-- A directory of partials: its real path when it was opened, and the partials read since. -/
structure Directory where
  root : Path
  cache : Table Template := ∅

namespace Directory

/-- Opens a directory. -/
def open? (files : FileTree) (p : Path) : Except DirectoryError Directory :=
  match files.real? p with
  | .ok root => .ok { root }
  | .error fault => .error (.badRoot fault)

/-- The parts of a name. -/
def parts (name : Text) : List Text := Text.splitAt (· == '/') name

/-- Refuses a name that could lead out of the directory. -/
def checkName (name : Text) : Except DirectoryError Unit :=
  if name.isEmpty then .error .emptyName
  else if (Text.cutAt? ['.', '.'] name).isSome || name.contains '\\' || name.contains ':' then
    .error (.traversal name)
  else if (parts name).any fun part => part.isEmpty || part == ['.'] then .error (.emptyPart name)
  else .ok ()

/-- The ending of the files. -/
def ending : Text := ".mustache".toList

/-- The path of the file that a name stands for. -/
def pathOf (root : Path) (name : Text) : Path :=
  root ++ (parts name).dropLast ++ ((parts name).getLast?.map (· ++ ending)).toList

/-- Reads the file that a name stands for. -/
def readFile (files : FileTree) (root : Path) (name : Text) :
    Except DirectoryError (Option Template) :=
  let path := pathOf root name
  match files.locate path with
  | .error fault => .error (.unresolved fault)
  | .ok place =>
    if root.isPrefixOf place then
      match files.read? path with
      | none => .ok none
      | some content =>
        match String.fromUTF8? content with
        | none => .error .notText
        | some source =>
          match Template.parse source.toList with
          | .ok template => .ok (some template)
          | .error e => .error (.faulty name e)
    else .error (.escapes path)

/-- Loads a partial: from those that are remembered, or else from its file. -/
def load (files : FileTree) (d : Directory) (name : Text) :
    Except DirectoryError (Option Template) × Directory :=
  match checkName name with
  | .error e => (.error e, d)
  | .ok () =>
    match d.cache[name]? with
    | some template => (.ok (some template), d)
    | none =>
      match readFile files d.root name with
      | .ok (some template) =>
        (.ok (some template), { d with cache := d.cache.insert name template })
      | .ok none => (.ok none, d)
      | .error e => (.error e, d)

/-- The loader of a directory, over files that do not change. -/
def loader (files : FileTree) : Loader Directory DirectoryError := fun name d =>
  let (answer, d) := load files d name
  (answer.map (·.map (·.nodes)), d)

end Directory

end Mustache
