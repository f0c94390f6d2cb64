import Mustache.Text

/-!
# File trees

Directories, files and symbolic links, each at its path from the top directory. There are two ways
to follow a path with the links on it. `find?` takes the path as one text, which must not be too
long. `real?` follows it name by name and also gives the path without links; there it is the path
followed so far that must not become too long. Where both lead somewhere, it is the same place.
-/

namespace Mustache

/-- The names on the way from the top directory. -/
abbrev Path := List Text

/-- A directory with what its names stand for, a file, or a link. The names of a link are followed
from the top directory, or else from the directory that the link is in. -/
inductive FileTree where
  | directory (entries : List (Text × FileTree))
  | file (content : ByteArray)
  | link (target : Path) (fromTop : Bool := true)

/-- Why a path leads nowhere. -/
inductive FileTree.Fault where
  /-- A name that is not in its directory. -/
  | notFound
  /-- A name below what is not a directory. -/
  | notADirectory
  /-- More links on the way than are followed. -/
  | tooManyLinks
  /-- A name or a path of more bytes than there may be. -/
  | nameTooLong
  /-- A name with a character that ends it. -/
  | nulInName
deriving DecidableEq, Repr

/-- The words for a path that leads nowhere. -/
def FileTree.Fault.message : Fault → Text
  | .notFound => "No such file or directory (os error 2)".toList
  | .notADirectory => "Not a directory (os error 20)".toList
  | .tooManyLinks => "Too many levels of symbolic links (os error 40)".toList
  | .nameTooLong => "File name too long (os error 36)".toList
  | .nulInName => "file name contained an unexpected NUL byte".toList

namespace Path

/-- The path as text, with a slash in front of every name. -/
def text (p : Path) : Text := if p.isEmpty then ['/'] else p.flatMap ('/' :: ·)

/-- The names of a path text. A slash at the end asks for a directory and counts as the name `.`. -/
def ofText (s : Text) : Path :=
  let names := Text.splitAt (· == '/') s
  let last := names.getLast?.map fun name => if name.isEmpty then ['.'] else name
  names.dropLast.filter (!·.isEmpty) ++ last.toList

/-- A path without its last name. -/
def parent (p : Path) : Path := p.dropLast

/-! ## Length -/

/-- The number of bytes of the names of a path, with a slash in front of each. -/
def byteLength (p : Path) : Nat := p.foldr (fun name n => name.byteLength + 1 + n) 0

/-- The number of bytes that no path text reaches. -/
def limit : Nat := 4096

/-- Whether the path is short enough for a path text. -/
def fits (p : Path) : Bool := p.byteLength < limit

/-- The names at the front of a path that fit a path text of less than `room` bytes, and the names
behind them. -/
def cut (room : Nat) : Path → Path × List Text
  | [] => ([], [])
  | name :: p =>
    if name.byteLength + 1 < room then
      let (front, back) := cut (room - (name.byteLength + 1)) p
      (name :: front, back)
    else ([], name :: p)

theorem cut_of_byteLength_lt {room : Nat} {p : Path} (h : p.byteLength < room) :
    cut room p = (p, []) := by
  induction p generalizing room with
  | nil => rfl
  | cons name p ih =>
    have hlt : name.byteLength + 1 + byteLength p < room := h
    rw [cut, if_pos (by omega), ih (by omega)]

end Path

namespace FileTree

/-- The tree of the top directory alone. -/
def empty : FileTree := .directory []

instance : Inhabited FileTree := ⟨empty⟩

/-- What is at a path, without following links. -/
def at? : FileTree → Path → Option FileTree
  | t, [] => some t
  | .directory entries, name :: p => (entries.lookup name).bind (at? · p)
  | _, _ :: _ => none

/-! ## Trails -/

/-- The way to a place: the names on it with what they stand for, the last one first. -/
abbrev Trail := List (Text × FileTree)

/-- The path of the place. -/
def Trail.path (here : Trail) : Path := (here.map (·.1)).reverse

/-- What is at the place, for a way that starts at the top directory `t`. -/
def Trail.tip (t : FileTree) : Trail → FileTree
  | [] => t
  | (_, last) :: _ => last

/-- Whether the path stays short enough for a path text when a name is followed. The names `.` and
`..` only put a slash behind it, which asks for a directory. -/
def Trail.fits (here : Trail) (name : Text) : Bool :=
  let asked := if name = ['.'] ∨ name = ['.', '.'] then [] else name
  Path.fits (asked :: here.map (·.1))

/-! ## Following links -/

/-- The most links that are followed on the way to one file. -/
def maxLinks : Nat := 40

/-- The most bytes of a name. -/
def maxName : Nat := 255

/-- Follows names from a place that is not a link. Each link costs one of `links`, and no name is
followed that does not satisfy `fits` at its place. -/
def walk (t : FileTree) (fits : Trail → Text → Bool) (links : Nat) (here : Trail)
    (names : List Text) : Except Fault Trail :=
  match names with
  | [] => .ok here
  | name :: rest =>
    match here.tip t with
    | .directory entries =>
      if maxName < name.byteLength || !fits here name then .error .nameTooLong
      else if name = ['.'] then walk t fits links here rest
      else if name = ['.', '.'] then walk t fits links here.tail rest
      else
        match entries.lookup name with
        | none => .error .notFound
        | some (.link target fromTop) =>
          match links with
          | 0 => .error .tooManyLinks
          | links + 1 => walk t fits links (if fromTop then [] else here) (target ++ rest)
        | some next => walk t fits links ((name, next) :: here) rest
    | _ => .error (if fits here name then .notADirectory else .nameTooLong)
termination_by (links, names.length)

/-- Where a path of any length leads. -/
def follow (t : FileTree) (p : Path) : Except Fault Path :=
  (t.walk (fun _ _ => true) maxLinks [] p).map Trail.path

/-- The place that a path text leads to. -/
def find? (t : FileTree) (p : Path) : Except Fault Path :=
  if p.any (·.contains '\x00') then .error .nulInName
  else if p.fits then t.follow p
  else .error .nameTooLong

/-- The path without links that a path leads to. -/
def real? (t : FileTree) (p : Path) : Except Fault Path :=
  if p.any (·.contains '\x00') then .error .nulInName
  else (t.walk Trail.fits maxLinks [] p).map Trail.path

/-- A way that can be gone over some names can be gone when there is no restriction on names. -/
theorem walk_unrestricted_of_walk {t : FileTree} {fits : Trail → Text → Bool} {links : Nat}
    {here there : Trail} {names : List Text} (h : t.walk fits links here names = .ok there) :
    t.walk (fun _ _ => true) links here names = .ok there := by
  fun_induction walk t fits links here names <;> rw [walk] <;> simp_all

/-- Where `find?` and `real?` both lead somewhere, it is the same place. -/
theorem find?_eq_real? {t : FileTree} {p q r : Path} (hfind : t.find? p = .ok q)
    (hreal : t.real? p = .ok r) : q = r := by
  unfold real? at hreal
  unfold find? follow at hfind
  split at hreal
  · cases hreal
  · cases hwalk : t.walk Trail.fits maxLinks [] p with
    | error e => rw [hwalk] at hreal; cases hreal
    | ok there =>
      rw [hwalk] at hreal
      rw [walk_unrestricted_of_walk hwalk] at hfind
      split at hfind
      · cases hfind
      · split at hfind <;> cases hfind
        cases hreal
        rfl

/-- The content of the file that a path leads to. -/
def read? (t : FileTree) (p : Path) : Option ByteArray :=
  match t.find? p with
  | .ok q =>
    match t.at? q with
    | some (.file content) => some content
    | _ => none
  | .error _ => none

/-- The real path of the longest part of a path that leads somewhere, and the other names behind it.
The path is given backwards. -/
def locateBackwards (t : FileTree) : List Text → Except Fault Path
  | [] => .ok []
  | name :: before =>
    match t.find? (name :: before).reverse with
    | .ok _ => t.real? (name :: before).reverse
    | .error _ => (t.locateBackwards before).map (· ++ [name])

/-- Where a path would lead if the names that are missing on it were there. Names past the length of
a path text are always missing. -/
def locate (t : FileTree) (p : Path) : Except Fault Path :=
  let (front, back) := Path.cut Path.limit p
  (t.locateBackwards front.reverse).map (· ++ back)

/-! ## Changes -/

/-- Changes the entries of the directory at a path. Nothing happens when there is none. -/
def change (f : List (Text × FileTree) → List (Text × FileTree)) : FileTree → Path → FileTree
  | .directory entries, [] => .directory (f entries)
  | .directory entries, name :: p =>
    .directory (entries.map fun (n, t) => (n, if n = name then change f t p else t))
  | t, _ => t

/-- Puts a tree under a name of the directory at a path. -/
def put (t : FileTree) (p : Path) (name : Text) (new : FileTree) : FileTree :=
  t.change (fun entries => (name, new) :: entries.filter (·.1 ≠ name)) p

/-- Takes a name out of the directory at a path. -/
def erase (t : FileTree) (p : Path) (name : Text) : FileTree :=
  t.change (·.filter (·.1 ≠ name)) p

/-- Makes the directories of some names that are missing, each inside the one before it. -/
def makeFrom (t : FileTree) (here : Path) : List Text → FileTree
  | [] => t
  | name :: rest =>
    match t.follow (here ++ [name]), t.at? (here ++ [name]) with
    | .ok there, _ => t.makeFrom there rest
    | .error .notFound, none => (t.put here name empty).makeFrom (here ++ [name]) rest
    | .error _, _ => t

/-- Makes a directory, and those above it that are missing. -/
def makeDirectories (t : FileTree) (p : Path) : FileTree := t.makeFrom [] p

/-- Writes a file at a path whose directory is there. Links at the path are followed, fewer than
`links` of them, also when the last one leads to a name that is missing. -/
def writeAt (t : FileTree) (content : ByteArray) : (links : Nat) → Path → FileTree
  | 0, _ => t
  | links + 1, p =>
    match t.follow p.parent, p.getLast? with
    | .ok place, some name =>
      match t.at? (place ++ [name]) with
      | some (.link target fromTop) =>
        t.writeAt content links (if fromTop then target else place ++ target)
      | some (.directory _) => t
      | _ => t.put place name (.file content)
    | _, _ => t

/-- Writes a file, making the directories above it. -/
def write (t : FileTree) (p : Path) (content : ByteArray) : FileTree :=
  (t.makeDirectories p.parent).writeAt content maxLinks p

/-- Puts a link at a path, making the directories above it. -/
def makeLink (t : FileTree) (p target : Path) : FileTree :=
  let t := t.makeDirectories p.parent
  match t.follow p.parent, p.getLast? with
  | .ok place, some name => t.put place name (.link target)
  | _, _ => t

/-- Removes a file or a link. A link at the path is not followed. -/
def remove (t : FileTree) (p : Path) : FileTree :=
  match t.follow p.parent, p.getLast? with
  | .ok place, some name => t.erase place name
  | _, _ => t

end FileTree

end Mustache
