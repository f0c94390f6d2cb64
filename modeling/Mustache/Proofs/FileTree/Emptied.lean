import Mustache.FileTree
import Mustache.Proofs.FileTree.LinkFree

/-!
# Files outside a directory

`FileTree.emptied` takes the content out of all files that are not below a directory. Paths lead to
the same places before and after, and what is read below the directory is the same too.
-/

namespace Mustache.FileTree

variable {t : FileTree} {root here p q : Path}

mutual

/-- The tree at `here`, with the content taken out of all files that are not below `root`. -/
def emptiedAt (root : Path) : (here : Path) → FileTree → FileTree
  | here, .directory entries => .directory (emptiedEntries root here entries)
  | here, .file content => .file (if root.isPrefixOf here then content else .empty)
  | _, .link target fromTop => .link target fromTop

def emptiedEntries (root : Path) : (here : Path) → List (Text × FileTree) → List (Text × FileTree)
  | _, [] => []
  | here, (name, next) :: entries =>
    (name, emptiedAt root (here ++ [name]) next) :: emptiedEntries root here entries

end

/-- The tree with the content taken out of all files that are not below `root`. -/
def emptied (root : Path) (t : FileTree) : FileTree := t.emptiedAt root []

theorem lookup_emptiedEntries (entries : List (Text × FileTree)) (name : Text) :
    (emptiedEntries root here entries).lookup name =
      (entries.lookup name).map (emptiedAt root (here ++ [name])) := by
  induction entries with
  | nil => rw [emptiedEntries]; rfl
  | cons entry entries ih =>
    obtain ⟨name', next⟩ := entry
    rw [emptiedEntries, List.lookup_cons, List.lookup_cons]
    cases hname : name == name' with
    | true => rw [eq_of_beq hname]; rfl
    | false => exact ih

theorem at?_emptiedAt (t : FileTree) (root here p : Path) :
    (t.emptiedAt root here).at? p = (t.at? p).map (emptiedAt root (here ++ p)) := by
  induction p generalizing t here with
  | nil => rw [at?_nil, at?_nil, List.append_nil, Option.map_some]
  | cons name p ih =>
    cases t with
    | directory entries =>
      rw [emptiedAt, at?, at?, lookup_emptiedEntries]
      cases entries.lookup name with
      | none => rfl
      | some next =>
        rw [List.append_cons here name p]
        exact ih next (here ++ [name])
    | file | link => rw [emptiedAt]; rfl

/-- The way to the same place in the emptied tree. -/
def Trail.emptied (root : Path) : Trail → Trail
  | [] => []
  | (name, next) :: here =>
    (name, next.emptiedAt root (Trail.path ((name, next) :: here))) :: Trail.emptied root here

theorem Trail.map_fst_emptied (here : Trail) :
    (here.emptied root).map (·.1) = here.map (·.1) := by
  induction here with
  | nil => rfl
  | cons _ _ ih => simp [emptied, ih]

theorem Trail.path_emptied (here : Trail) : (here.emptied root).path = here.path := by
  rw [path, map_fst_emptied, path]

theorem Trail.tip_emptied (t : FileTree) (here : Trail) :
    (here.emptied root).tip (t.emptied root) = (here.tip t).emptiedAt root here.path := by
  cases here <;> rfl

theorem Trail.tail_emptied (here : Trail) :
    (here.emptied root).tail = Trail.emptied root here.tail := by
  cases here <;> rfl

/-- A way is gone alike in the emptied tree. -/
theorem walk_emptied {fits : Trail → Text → Bool}
    (hfits : ∀ here name, fits (Trail.emptied root here) name = fits here name) (links : Nat)
    (here : Trail) (names : List Text) :
    (t.emptied root).walk fits links (here.emptied root) names =
      (t.walk fits links here names).map (Trail.emptied root) := by
  have hstep : ∀ {here : Trail} {entries}, here.tip t = .directory entries →
      (here.emptied root).tip (t.emptied root) =
        .directory (emptiedEntries root here.path entries) := by
    intro here entries htip
    rw [Trail.tip_emptied, htip, emptiedAt]
  fun_induction walk t fits links here names with
  | case1 links here => rw [walk]; rfl
  | case2 links here name rest entries htip hfit =>
    rw [walk, hstep htip]
    simp only [hfits, hfit, if_true]
    rfl
  | case3 links here rest entries htip hfit ih =>
    rw [walk, hstep htip]
    simp only [hfits, hfit, if_true, ih]
    rfl
  | case4 links here rest entries htip hfit hne ih =>
    rw [walk, hstep htip]
    simp only [hfits, hfit, hne, if_true, if_false, Trail.tail_emptied, ih]
    rfl
  | case5 links here name rest entries htip hfit hdot hdots hentry =>
    rw [walk, hstep htip]
    simp only [hfits, hfit, hdot, hdots, if_false, lookup_emptiedEntries, hentry]
    rfl
  | case6 here name rest entries htip hfit hdot hdots target fromTop hentry =>
    rw [walk, hstep htip]
    simp only [hfits, hfit, hdot, hdots, if_false, lookup_emptiedEntries, hentry, Option.map_some,
      emptiedAt]
    rfl
  | case7 here name rest entries htip hfit hdot hdots target fromTop hentry links ih =>
    have hstart : (if fromTop then [] else here.emptied root) =
        Trail.emptied root (if fromTop then [] else here) := by
      cases fromTop <;> rfl
    rw [walk, hstep htip]
    simp only [hfits, hfit, hdot, hdots, if_false, lookup_emptiedEntries, hentry, Option.map_some,
      emptiedAt, hstart]
    exact ih
  | case8 links here name rest entries htip hfit hdot hdots next hlink hentry ih =>
    have hemptied : Trail.emptied root ((name, next) :: here) =
        (name, next.emptiedAt root (here.path ++ [name])) :: here.emptied root := by
      rw [Trail.emptied, Trail.path_cons]
    rw [hemptied] at ih
    rw [walk, hstep htip]
    simp only [hfits, hfit, hdot, hdots, if_false, lookup_emptiedEntries, hentry, Option.map_some]
    cases next with
    | link target fromTop => exact absurd rfl (hlink target fromTop)
    | directory | file =>
      rw [emptiedAt] at ih ⊢
      exact ih
  | case9 links here name rest htip =>
    rw [walk, Trail.tip_emptied]
    cases htop : here.tip t with
    | directory entries => exact absurd htop (htip entries)
    | file | link =>
      rw [emptiedAt, hfits]
      rfl

theorem map_path_emptied (x : Except Fault Trail) :
    (x.map (Trail.emptied root)).map Trail.path = x.map Trail.path := by
  cases x with
  | error e => rfl
  | ok there => exact congrArg Except.ok (Trail.path_emptied there)

/-- A path leads to the same place in the emptied tree. -/
theorem find?_emptied (t : FileTree) (root p : Path) : (t.emptied root).find? p = t.find? p := by
  have hwalk : (t.emptied root).walk (fun _ _ => true) maxLinks [] p =
      (t.walk (fun _ _ => true) maxLinks [] p).map (Trail.emptied root) :=
    walk_emptied (fun _ _ => rfl) maxLinks [] p
  rw [find?, find?, follow, follow, hwalk, map_path_emptied]

theorem real?_emptied (t : FileTree) (root p : Path) : (t.emptied root).real? p = t.real? p := by
  have hfits : ∀ here name, (Trail.emptied root here).fits name = here.fits name := by
    intro here name
    simp only [Trail.fits, Trail.map_fst_emptied]
  rw [real?, real?, show (t.emptied root).walk Trail.fits maxLinks [] p = _ from
    walk_emptied hfits maxLinks [] p, map_path_emptied]

theorem locate_emptied (t : FileTree) (root p : Path) :
    (t.emptied root).locate p = t.locate p := by
  have hback : ∀ back, (t.emptied root).locateBackwards back = t.locateBackwards back := by
    intro back
    induction back with
    | nil => rw [locateBackwards, locateBackwards]
    | cons name before ih =>
      rw [locateBackwards, locateBackwards, find?_emptied, real?_emptied, ih]
  rw [locate, locate]
  simp only [hback]

/-- What is below the directory is read alike. -/
theorem read?_emptied (h : ∀ q, t.find? p = .ok q → root <+: q) :
    (t.emptied root).read? p = t.read? p := by
  rw [read?, read?, find?_emptied]
  cases hfind : t.find? p with
  | error e => rfl
  | ok q =>
    simp only
    rw [emptied, at?_emptiedAt, List.nil_append]
    cases t.at? q with
    | none => rfl
    | some found =>
      cases found with
      | file content =>
        rw [Option.map_some, emptiedAt, if_pos (List.isPrefixOf_iff_prefix.2 (h q hfind))]
      | directory | link =>
        rw [Option.map_some, emptiedAt]

end Mustache.FileTree
