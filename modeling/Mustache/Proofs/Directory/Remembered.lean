import Mustache.Proofs.Directory.Confined
import Mustache.Proofs.Render.Congruence

/-!
# What a directory remembers

A name is answered with the first template that it was read as since the directory was opened
(`Directory.firstRead`), and as long as there is none with what is read then
(`Directory.load_after`). So while the files stay as they are, it makes no difference what is
remembered: `Directory.Warm` holds of the directories that remember nothing but what the files give,
every load and every rendering leaves such a directory, and all of them are written with alike
(`Directory.remembers_first_template`).
-/

namespace Mustache.Directory

variable {files : FileTree} {d d' : Directory} {root : Path} {name other : Text}
  {template : Template} {history : List (FileTree × Text)}

/-! ### A history of loads -/

/-- The first template that the name was read as. What it was read as at a time is the answer of a
directory that was just opened. -/
def firstRead (root : Path) (name : Text) (history : List (FileTree × Text)) : Option Template :=
  history.findSome? fun (files, other) =>
    if other = name then (load files { root } name).1.toOption.join else none

theorem load_fresh (h : Accepts name) (files : FileTree) (root : Path) :
    (load files { root } name).1 = readFile files root name := by
  rw [load_of_not_remembered h (d := { root }) (by simp)]

theorem firstRead_append (root : Path) (name : Text) (history later : List (FileTree × Text)) :
    firstRead root name (history ++ later) =
      (firstRead root name history).or (firstRead root name later) :=
  List.findSome?_append

theorem firstRead_singleton (root : Path) (name : Text) (files : FileTree) (other : Text) :
    firstRead root name [(files, other)] =
      if other = name then (load files { root } name).1.toOption.join else none :=
  List.findSome?_singleton

theorem firstRead_filter (root : Path) (name : Text) (history : List (FileTree × Text)) :
    firstRead root name (history.filter (·.2 = name)) = firstRead root name history := by
  induction history using List.reverseRecOn with
  | nil => rfl
  | append_singleton history last ih =>
    obtain ⟨files, other⟩ := last
    rw [List.filter_append, firstRead_append, firstRead_append, ih]
    by_cases hother : other = name
    · simp [hother]
    · simp [hother, firstRead]

/-- What is remembered under a name after a load of it. -/
theorem getElem?_keep_self (hcache : d.cache[name]? = none)
    (result : Except DirectoryError (Option Template)) :
    (keep d name result).cache[name]? = result.toOption.join := by
  rcases result with e | _ | template
  · exact hcache
  · exact hcache
  · change (d.cache.insert name template)[name]? = some template
    rw [Table.getElem?_insert, if_pos rfl]

/-- Loads of other names leave what is remembered under a name. -/
theorem getElem?_keep_of_ne (hne : other ≠ name)
    (result : Except DirectoryError (Option Template)) :
    (keep d other result).cache[name]? = d.cache[name]? := by
  rcases result with e | _ | template
  · rfl
  · rfl
  · change (d.cache.insert other template)[name]? = d.cache[name]?
    rw [Table.getElem?_insert, if_neg hne]

/-- **What is remembered** under a name is the first template that it was read as. -/
theorem getElem?_cache_after (root : Path) (history : List (FileTree × Text)) (name : Text) :
    (after { root } history).cache[name]? = firstRead root name history := by
  induction history using List.reverseRecOn generalizing name with
  | nil => simp [after, firstRead]
  | append_singleton history last ih =>
    obtain ⟨files, other⟩ := last
    have hroot : (after { root } history).root = root := root_after _ _
    rw [after_concat, firstRead_append, firstRead_singleton, ← ih]
    rcases load_cases files (after { root } history) other with
      ⟨e, hcheck, hload⟩ | ⟨template, haccepts, hcache, hload⟩ | ⟨haccepts, hcache, hload⟩
    · -- The name of the load is refused.
      rw [hload]
      split
      · next hother =>
        subst hother
        rw [load_of_error hcheck]
        exact Option.or_none.symm
      · exact Option.or_none.symm
    · -- It is remembered already.
      rw [hload]
      split
      · next hother =>
        subst hother
        rw [hcache]
        rfl
      · exact Option.or_none.symm
    · -- It is read.
      rw [hload, hroot]
      split
      · next hother =>
        subst hother
        rw [getElem?_keep_self hcache, hcache, load_fresh haccepts]
        rfl
      · next hother => rw [getElem?_keep_of_ne hother, Option.or_none]

/-- **The answer to a load** is the first template that the name was read as, or else what a
directory that was just opened answers. -/
theorem load_after (files : FileTree) (root : Path) (history : List (FileTree × Text))
    (name : Text) :
    (load files (after { root } history) name).1 =
      match firstRead root name history with
      | some template => .ok (some template)
      | none => (load files { root } name).1 := by
  have hcached := getElem?_cache_after root history name
  have hroot : (after { root } history).root = root := root_after _ _
  rcases load_cases files (after { root } history) name with
    ⟨e, hcheck, hload⟩ | ⟨template, haccepts, hcache, hload⟩ | ⟨haccepts, hcache, hload⟩
  · have hnone : firstRead root name history = none := by
      rw [firstRead, List.findSome?_eq_none_iff]
      rintro ⟨files', other⟩ -
      dsimp only
      split
      · rw [load_of_error hcheck]
        rfl
      · rfl
    rw [hload, hnone, load_of_error hcheck]
  · rw [hload, ← hcached, hcache]
  · rw [hload, ← hcached, hcache, hroot, load_fresh haccepts]

theorem firstRead_of_load (h : (load files (after { root } history) name).1 = .ok (some template))
    (later : List (FileTree × Text)) :
    firstRead root name (history ++ (files, name) :: later) = some template := by
  rw [load_after] at h
  rw [List.append_cons, firstRead_append, firstRead_append, firstRead_singleton, if_pos rfl]
  cases hfirst : firstRead root name history with
  | some first =>
    rw [hfirst] at h
    cases h
    rfl
  | none =>
    rw [hfirst] at h
    rw [show (load files { root } name).1 = .ok (some template) from h]
    rfl

/-- The first template was the answer of a load. -/
theorem exists_load_of_firstRead (h : firstRead root name history = some template) :
    ∃ before files later, history = before ++ (files, name) :: later ∧
      (load files (after { root } before) name).1 = .ok (some template) := by
  obtain ⟨before, ⟨files, other⟩, later, rfl, hread, hbefore⟩ := List.findSome?_eq_some_iff.1 h
  dsimp only at hread
  split at hread
  · next hother =>
    subst hother
    refine ⟨before, files, later, rfl, ?_⟩
    have hnone : firstRead root other before = none := List.findSome?_eq_none_iff.2 hbefore
    rw [load_after, hnone]
    rcases hload : (load files { root } other).1 with e | template?
    · rw [hload] at hread
      cases hread
    · rw [hload] at hread
      exact congrArg _ (show template? = some template from hread)
  · cases hread

/-! ### Files that do not change -/

/-- The directory remembers nothing but what the files give. -/
structure Warm (files : FileTree) (root : Path) (d : Directory) : Prop where
  root_eq : d.root = root
  fresh {name : Text} {template : Template} : d.cache[name]? = some template →
    (load files { root } name).1 = .ok (some template)

theorem warm_opened (files : FileTree) (root : Path) : Warm files root { root } where
  root_eq := rfl
  fresh h := by simp at h

/-- One load has the answer that it has in a directory that was just opened, and leaves the
directory warm. -/
theorem Warm.load (h : Warm files root d) (name : Text) :
    (load files d name).1 = (Directory.load files { root } name).1 ∧
      Warm files root (Directory.load files d name).2 := by
  rcases load_cases files d name with
    ⟨e, hcheck, hload⟩ | ⟨template, haccepts, hcache, hload⟩ | ⟨haccepts, hcache, hload⟩
  · rw [hload, load_of_error hcheck]
    exact ⟨rfl, h⟩
  · rw [hload, h.fresh hcache]
    exact ⟨rfl, h⟩
  · rw [hload, load_fresh haccepts, h.root_eq]
    refine ⟨rfl, (root_keep d name _).trans h.root_eq, fun {other template} hother => ?_⟩
    by_cases hname : name = other
    · subst hname
      rw [getElem?_keep_self hcache] at hother
      rw [load_fresh haccepts]
      rcases hread : readFile files root name with e | template?
      · rw [hread] at hother
        cases hother
      · rw [hread] at hother
        exact congrArg _ (show template? = some template from hother)
    · rw [getElem?_keep_of_ne hname] at hother
      exact h.fresh hother

open Render

theorem agrees_load_warm (files : FileTree) (root : Path) (name : Text) :
    Agrees (fun d d' => Warm files root d ∧ Warm files root d') (Render.load (loader files) name)
      (Render.load (loader files) name) := by
  refine agrees_load (fun name d d' hwarm => ?_) name
  obtain ⟨hanswer, hstate⟩ := hwarm.1.load name
  obtain ⟨hanswer', hstate'⟩ := hwarm.2.load name
  exact ⟨congrArg (Except.map _) (hanswer.trans hanswer'.symm), hstate, hstate'⟩

/-- **Rendering with warm directories** has the same result, and leaves them warm. -/
theorem Warm.renderScope (h : Warm files root d) (h' : Warm files root d') (limit : Nat)
    (ns : List Node) (c : Context) (id : ScopeId) :
    (Renderer.renderScope { loader := loader files, state := d, maxDepth := limit } ns c id).1 =
        (Renderer.renderScope { loader := loader files, state := d', maxDepth := limit } ns c id).1 ∧
      Warm files root
        (Renderer.renderScope { loader := loader files, state := d, maxDepth := limit }
          ns c id).2.state := by
  obtain ⟨hresult, hwarm, -⟩ := agrees_renderWithin (agrees_load_warm files root) limit limit ns
    { base := id } (c := c) d d' ⟨h, h'⟩
  exact ⟨hresult, hwarm⟩

/-! ### The law -/

/-- **A directory remembers its templates and nothing else.** Since a directory was opened, however
the files change from load to load: when a name was answered with a template, it always is again;
as long as it was not, it is answered as in a directory that is opened then; and loads of other names
do not matter. Over files that do not change, a directory that remembers what they give is written
with like one that remembers nothing. Loads and renderings, failed ones too, keep it so. -/
theorem remembers_first_template (root : Path) (history : List (FileTree × Text)) (name : Text) :
    (∀ files template, (load files (after { root } history) name).1 = .ok (some template) →
      ∀ later files', (load files' (after { root } (history ++ (files, name) :: later)) name).1 =
        .ok (some template)) ∧
    ((∀ before files later template, history = before ++ (files, name) :: later →
        (load files (after { root } before) name).1 ≠ .ok (some template)) →
      ∀ files, (load files (after { root } history) name).1 = (load files { root } name).1) ∧
    (∀ files, (load files (after { root } (history.filter (·.2 = name))) name).1 =
      (load files (after { root } history) name).1) ∧
    ∀ files,
      Warm files root { root } ∧
      ∀ d, Warm files root d →
        (∀ name, Warm files root (load files d name).2) ∧
        ∀ limit ns c id,
          let renderer (d : Directory) : Renderer Directory DirectoryError :=
            { loader := loader files, state := d, maxDepth := limit }
          ((renderer d).renderScope ns c id).1 = ((renderer { root }).renderScope ns c id).1 ∧
            Warm files root ((renderer d).renderScope ns c id).2.state := by
  refine ⟨fun files template h later files' => ?_, fun h files => ?_, fun files => ?_, fun files =>
    ⟨warm_opened files root, fun d hwarm => ⟨fun name => (hwarm.load name).2, ?_⟩⟩⟩
  · rw [load_after, firstRead_of_load h later]
  · have hnone : firstRead root name history = none := by
      rw [Option.eq_none_iff_forall_not_mem]
      intro template htemplate
      obtain ⟨before, files, later, hhistory, hload⟩ := exists_load_of_firstRead htemplate
      exact h before files later template hhistory hload
    rw [load_after, hnone]
  · rw [load_after, load_after, firstRead_filter]
  · intro limit ns c id renderer
    exact hwarm.renderScope (warm_opened files root) limit ns c id

/-- The directory `srv` with one file, the one of the partial `a`. -/
def oneFile (content : ByteArray) : FileTree :=
  .directory [("srv".toList, .directory [("a.mustache".toList, .file content)])]

theorem load_oneFile (content : ByteArray) :
    (load (oneFile content) { root := ["srv".toList] } ['a']).1 = answer ['a'] content := by
  have hpath : pathOf ["srv".toList] ['a'] = ["srv".toList, "a.mustache".toList] := rfl
  have hfind : (oneFile content).find? ["srv".toList, "a.mustache".toList] =
      .ok ["srv".toList, "a.mustache".toList] := by
    simp [oneFile, FileTree.find?, FileTree.follow, FileTree.walk, FileTree.Trail.tip,
      FileTree.maxName, Path.fits, Path.byteLength, Path.limit, Char.utf8Size,
      FileTree.Trail.path, Except.map]
  have hlocate : (oneFile content).locate ["srv".toList, "a.mustache".toList] =
      .ok ["srv".toList, "a.mustache".toList] := by
    rw [FileTree.locate_eq_real? hfind]
    simp [oneFile, FileTree.real?, FileTree.walk, FileTree.Trail.tip, FileTree.Trail.fits,
      FileTree.maxName, Path.fits, Path.byteLength, Path.limit, Char.utf8Size,
      FileTree.Trail.path, Except.map]
  have hread : (oneFile content).read? ["srv".toList, "a.mustache".toList] = some content := by
    rw [FileTree.read?, hfind]
    rfl
  rw [load_fresh (checkName_eq_ok_iff.1 rfl), readFile_eq, hpath, hlocate]
  dsimp only
  rw [if_pos (by decide), hread]

theorem load_empty : (load .empty { root := ["srv".toList] } ['a']).1 = .ok none := by
  have hpath : pathOf ["srv".toList] ['a'] = ["srv".toList, "a.mustache".toList] := rfl
  rw [load_fresh (checkName_eq_ok_iff.1 rfl), readFile_eq, hpath]
  simp [FileTree.empty, FileTree.locate, FileTree.locateBackwards, FileTree.read?,
    FileTree.find?, FileTree.follow, FileTree.walk, FileTree.Trail.tip, FileTree.maxName, Path.cut,
    Path.fits, Path.byteLength, Path.limit, Char.utf8Size, Except.map]

/-- A file that is loaded, changed and removed, and one that is not there at the first load. -/
theorem remembers_first_template_of_oneFile :
    let root : Path := ["srv".toList]
    let x : Template := { nodes := [.text ['x'] .start] }
    (load (oneFile "y".toUTF8) (after { root } [(oneFile "x".toUTF8, ['a'])]) ['a']).1 =
        .ok (some x) ∧
      (load .empty (after { root } [(oneFile "x".toUTF8, ['a'])]) ['a']).1 = .ok (some x) ∧
      (load .empty { root } ['a']).1 = .ok none ∧
      (load (oneFile "x".toUTF8) (after { root } [(.empty, ['a'])]) ['a']).1 = .ok (some x) := by
  intro root x
  have hread : (load (oneFile "x".toUTF8) { root } ['a']).1 = .ok (some x) := by
    rw [load_oneFile]
    with_unfolding_all rfl
  obtain ⟨hkept, -⟩ := remembers_first_template root [] ['a']
  obtain ⟨-, hfresh, -⟩ := remembers_first_template root [(.empty, ['a'])] ['a']
  refine ⟨hkept _ _ hread [] _, hkept _ _ hread [] _, load_empty, ?_⟩
  rw [hfresh, hread]
  -- The only load so far found nothing.
  intro before files after template hhistory
  cases before with
  | nil =>
    cases hhistory
    change (load .empty { root } ['a']).1 ≠ _
    rw [load_empty]
    simp
  | cons => simp at hhistory

end Mustache.Directory
