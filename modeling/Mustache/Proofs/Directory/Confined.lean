import Mathlib.Data.List.Induction
import Mustache.Proofs.Directory.Names
import Mustache.Proofs.FileTree.Emptied

/-!
# What a directory reads

A file is read only when its path without links is below the directory
(`Directory.readFile_cases`), so that the files outside do not matter (`Directory.load_emptied`).
This is carried along a history of loads, between which the files may change: what is remembered at
its end was read from below the directory at one of them (`Directory.exists_source_of_remembered`).
-/

namespace Mustache.Directory

variable {files : FileTree} {d : Directory} {root place : Path} {name : Text}
  {template : Template} {history history' : List (FileTree × Text)}

/-! ### Reading a file -/

/-- What a file with this content is answered with. -/
def answer (name : Text) (content : ByteArray) : Except DirectoryError (Option Template) :=
  match String.fromUTF8? content with
  | none => .error .notText
  | some source =>
    match Template.parse source.toList with
    | .ok template => .ok (some template)
    | .error e => .error (.faulty name e)

/-- The name leads to a file below the directory. -/
structure Source (files : FileTree) (root : Path) (name : Text) (place : Path)
    (content : ByteArray) : Prop where
  find : files.find? (pathOf root name) = .ok place
  real : files.real? (pathOf root name) = .ok place
  linkFree : files.LinkFree place
  at_place : files.at? place = some (.file content)
  below : root <+: place

theorem readFile_eq (files : FileTree) (root : Path) (name : Text) : readFile files root name =
    match files.locate (pathOf root name) with
    | .error fault => .error (.unresolved fault)
    | .ok place =>
      if root.isPrefixOf place then
        match files.read? (pathOf root name) with
        | none => .ok none
        | some content => answer name content
      else .error (.escapes (pathOf root name)) := rfl

/-- Where the path is located below the directory, the file that it leads to is there too. -/
theorem source_of_read? {content : ByteArray}
    (hlocate : files.locate (pathOf root name) = .ok place) (hbelow : root <+: place)
    (hread : files.read? (pathOf root name) = some content) :
    Source files root name place content := by
  rw [FileTree.read?] at hread
  cases hfind : files.find? (pathOf root name) with
  | error fault =>
    rw [hfind] at hread
    cases hread
  | ok q =>
    obtain rfl := FileTree.eq_of_locate hfind hlocate
    have hat : files.at? q = some (.file content) := by
      rw [hfind] at hread
      dsimp only at hread
      split at hread
      · next hat =>
        cases hread
        exact hat
      · cases hread
    exact ⟨hfind, FileTree.locate_eq_real? hfind ▸ hlocate, FileTree.linkFree_of_find? hfind hat,
      hat, hbelow⟩

/-- A file is read only if it is below the directory; the other answers tell nothing of a file. -/
theorem readFile_cases (files : FileTree) (root : Path) (name : Text) :
    (∃ place content, Source files root name place content ∧
      readFile files root name = answer name content) ∨
    readFile files root name = .ok none ∨
    (∃ fault, readFile files root name = .error (.unresolved fault)) ∨
    readFile files root name = .error (.escapes (pathOf root name)) := by
  rw [readFile_eq]
  cases hlocate : files.locate (pathOf root name) with
  | error fault => exact .inr (.inr (.inl ⟨fault, rfl⟩))
  | ok place =>
    dsimp only
    split
    · next hbelow =>
      cases hread : files.read? (pathOf root name) with
      | none => exact .inr (.inl rfl)
      | some content =>
        exact .inl ⟨place, content,
          source_of_read? hlocate (List.isPrefixOf_iff_prefix.1 hbelow) hread, rfl⟩
    · exact .inr (.inr (.inr rfl))

/-- Only a file can give a template. -/
theorem exists_source_of_readFile (h : readFile files root name = .ok (some template)) :
    ∃ place content, Source files root name place content ∧
      answer name content = .ok (some template) := by
  rcases readFile_cases files root name with
    ⟨place, content, hsource, hanswer⟩ | habsent | ⟨fault, hfault⟩ | hescapes
  · exact ⟨place, content, hsource, hanswer ▸ h⟩
  · rw [habsent] at h
    cases h
  · rw [hfault] at h
    cases h
  · rw [hescapes] at h
    cases h

theorem readFile_emptied (files : FileTree) (root : Path) (name : Text) :
    readFile (files.emptied root) root name = readFile files root name := by
  rw [readFile_eq, readFile_eq, FileTree.locate_emptied]
  cases hlocate : files.locate (pathOf root name) with
  | error fault => rfl
  | ok place =>
    dsimp only
    split
    · next hbelow =>
      rw [FileTree.read?_emptied fun q hfind =>
        FileTree.eq_of_locate hfind hlocate ▸ List.isPrefixOf_iff_prefix.1 hbelow]
    · rfl

/-! ### One load -/

/-- What is remembered after an answer. -/
def keep (d : Directory) (name : Text) : Except DirectoryError (Option Template) → Directory
  | .ok (some template) => { d with cache := d.cache.insert name template }
  | _ => d

theorem load_of_error {e : DirectoryError} (h : checkName name = .error e) :
    load files d name = (.error e, d) := by
  rw [load, h]

theorem load_of_remembered (h : Accepts name) (hcache : d.cache[name]? = some template) :
    load files d name = (.ok (some template), d) := by
  rw [load, checkName_eq_ok_iff.2 h, hcache]

theorem load_of_not_remembered (h : Accepts name) (hcache : d.cache[name]? = none) :
    load files d name =
      (readFile files d.root name, keep d name (readFile files d.root name)) := by
  rw [load, checkName_eq_ok_iff.2 h, hcache]
  rcases readFile files d.root name with e | _ | template <;> rfl

/-- A load does one of three things. -/
theorem load_cases (files : FileTree) (d : Directory) (name : Text) :
    (∃ e, checkName name = .error e ∧ load files d name = (.error e, d)) ∨
    (∃ template, Accepts name ∧ d.cache[name]? = some template ∧
      load files d name = (.ok (some template), d)) ∨
    (Accepts name ∧ d.cache[name]? = none ∧ load files d name =
      (readFile files d.root name, keep d name (readFile files d.root name))) := by
  cases hname : checkName name with
  | error e => exact .inl ⟨e, rfl, load_of_error hname⟩
  | ok =>
    have haccepts := checkName_eq_ok_iff.1 hname
    cases hcache : d.cache[name]? with
    | some template =>
      exact .inr (.inl ⟨template, haccepts, rfl, load_of_remembered haccepts hcache⟩)
    | none => exact .inr (.inr ⟨haccepts, rfl, load_of_not_remembered haccepts hcache⟩)

theorem root_keep (d : Directory) (name : Text)
    (result : Except DirectoryError (Option Template)) : (keep d name result).root = d.root := by
  rcases result with e | _ | template <;> rfl

theorem root_load (files : FileTree) (d : Directory) (name : Text) :
    (load files d name).2.root = d.root := by
  rcases load_cases files d name with ⟨_, _, h⟩ | ⟨_, _, _, h⟩ | ⟨_, _, h⟩
  · rw [h]
  · rw [h]
  · rw [h]
    exact root_keep d name _

/-- Files outside the directory do not matter. -/
theorem load_emptied (files : FileTree) (d : Directory) (name : Text) :
    load (files.emptied d.root) d name = load files d name := by
  rcases load_cases files d name with ⟨e, hname, h⟩ | ⟨template, haccepts, hcache, h⟩ |
    ⟨haccepts, hcache, h⟩
  · rw [h, load_of_error hname]
  · rw [h, load_of_remembered haccepts hcache]
  · rw [h, load_of_not_remembered haccepts hcache, readFile_emptied]

/-- What is remembered after a load was remembered before it, or was read by it. -/
theorem exists_source_of_load {other : Text}
    (h : (load files d name).2.cache[other]? = some template) :
    d.cache[other]? = some template ∨ other = name ∧ ∃ place content,
      Source files d.root name place content ∧ answer name content = .ok (some template) := by
  rcases load_cases files d name with ⟨_, _, hload⟩ | ⟨_, _, _, hload⟩ | ⟨_, _, hload⟩
  · rw [hload] at h
    exact .inl h
  · rw [hload] at h
    exact .inl h
  · rw [hload] at h
    rcases hread : readFile files d.root name with e | _ | read
    · rw [hread] at h
      exact .inl h
    · rw [hread] at h
      exact .inl h
    · rw [hread] at h
      change (d.cache.insert name read)[other]? = some template at h
      rw [Table.getElem?_insert] at h
      split at h
      · next hother =>
        cases h
        exact .inr ⟨hother.symm, exists_source_of_readFile hread⟩
      · exact .inl h

/-! ### Many loads -/

/-- The directory after some loads, each with the files as they were at its time. -/
def after (d : Directory) (history : List (FileTree × Text)) : Directory :=
  history.foldl (fun d (files, name) => (load files d name).2) d

theorem after_concat (d : Directory) (history : List (FileTree × Text)) (files : FileTree)
    (name : Text) :
    d.after (history ++ [(files, name)]) = (load files (d.after history) name).2 := by
  simp [after]

theorem root_after (d : Directory) (history : List (FileTree × Text)) :
    (d.after history).root = d.root := by
  induction history using List.reverseRecOn with
  | nil => rfl
  | append_singleton history last ih => rw [after_concat, root_load, ih]

/-- What is remembered was read from below the directory at one of the loads. -/
theorem exists_source_of_remembered (hempty : d.cache = ∅)
    (h : (d.after history).cache[name]? = some template) : ∃ files place content,
      (files, name) ∈ history ∧ Source files d.root name place content ∧
      answer name content = .ok (some template) := by
  induction history using List.reverseRecOn with
  | nil =>
    change d.cache[name]? = some template at h
    rw [hempty] at h
    simp at h
  | append_singleton history last ih =>
    obtain ⟨files, loaded⟩ := last
    rw [after_concat] at h
    rcases exists_source_of_load h with hcache | ⟨rfl, place, content, hsource, hanswer⟩
    · obtain ⟨files', place, content, hmem, hsource⟩ := ih hcache
      exact ⟨files', place, content, List.mem_append_left _ hmem, hsource⟩
    · rw [root_after] at hsource
      exact ⟨files, place, content, List.mem_append_right _ (List.mem_singleton_self _), hsource,
        hanswer⟩

/-- The loads go alike when the files outside the directory are emptied. -/
theorem after_emptied (d : Directory) (history : List (FileTree × Text)) :
    d.after (history.map fun (files, name) => (files.emptied d.root, name)) = d.after history := by
  induction history using List.reverseRecOn with
  | nil => rfl
  | append_singleton history last ih =>
    obtain ⟨files, name⟩ := last
    rw [List.map_append, List.map_singleton, after_concat, after_concat, ih,
      ← root_after d history, load_emptied]

/-- Two runs of loads go alike when the files differ outside the directory only. -/
theorem load_after_congr {files' : FileTree}
    (hhistory : history'.map (fun (files, name) => (files.emptied d.root, name)) =
      history.map fun (files, name) => (files.emptied d.root, name))
    (hfiles : files'.emptied d.root = files.emptied d.root) :
    load files' (d.after history') name = load files (d.after history) name := by
  rw [← after_emptied d history', hhistory, after_emptied d history, ← load_emptied files',
    root_after, hfiles, ← load_emptied files, root_after]

/-! ### Confinement -/

theorem open?_eq_ok_iff {p : Path} : open? files p = .ok d ↔
    files.real? p = .ok d.root ∧ d.cache = ∅ := by
  obtain ⟨root, cache⟩ := d
  rw [open?]
  cases files.real? p with
  | error fault => simp
  | ok place => simp [eq_comm]

/-- **No partial comes from outside the directory.** Whatever has been loaded before and however the
files have changed since the directory was opened, a partial that is not remembered is read from a
file whose path without links is below the directory, or no file is read; one that is remembered was
read so. The files outside do not matter for any answer. A name that could lead out of the directory
is refused for all files alike, and different names have different paths, which go on from that of
the directory with the parts of the name between its slashes. -/
theorem confined {created : FileTree} {p : Path} {opened : Directory}
    (h : open? created p = .ok opened) (history : List (FileTree × Text)) (files : FileTree)
    (name : Text) :
    created.real? p = .ok opened.root ∧ (opened.after history).root = opened.root ∧
    -- What is not remembered is read below the directory, or no file is read.
    (Accepts name → (opened.after history).cache[name]? = none →
      (∃ place content, Source files opened.root name place content ∧
        (load files (opened.after history) name).1 = answer name content) ∨
      (load files (opened.after history) name).1 = .ok none ∨
      (∃ fault, (load files (opened.after history) name).1 = .error (.unresolved fault)) ∨
      (load files (opened.after history) name).1 =
        .error (.escapes (pathOf opened.root name))) ∧
    -- What is remembered was read below the directory by an earlier load.
    (∀ template, Accepts name → (opened.after history).cache[name]? = some template →
      (load files (opened.after history) name).1 = .ok (some template) ∧
      ∃ earlier place content, (earlier, name) ∈ history ∧
        Source earlier opened.root name place content ∧
        answer name content = .ok (some template)) ∧
    -- The files outside do not matter, at any of the loads.
    (∀ history' files',
      history'.map (fun (files, name) => (files.emptied opened.root, name)) =
        history.map (fun (files, name) => (files.emptied opened.root, name)) →
      files'.emptied opened.root = files.emptied opened.root →
      load files' (opened.after history') name = load files (opened.after history) name) ∧
    -- Other names are refused before any file is looked at.
    (¬ Accepts name → ∃ e : DirectoryError, "Partial error: ".toList <+: e.message ∧
      ∀ files, load files (opened.after history) name = (.error e, opened.after history)) ∧
    (pathOf opened.root).Injective ∧
    ∃ front last, parts name = front ++ [last] ∧ (∀ part ∈ front ++ [last], '/' ∉ part) ∧
      ['/'].intercalate (front ++ [last]) = name ∧
      pathOf opened.root name = opened.root ++ front ++ [last ++ ".mustache".toList] := by
  obtain ⟨hreal, hempty⟩ := open?_eq_ok_iff.1 h
  refine ⟨hreal, root_after opened history, ?_, ?_, ?_, ?_, pathOf_injective opened.root, ?_⟩
  · intro haccepts hcache
    rw [load_of_not_remembered haccepts hcache, root_after]
    exact readFile_cases files opened.root name
  · intro template haccepts hcache
    rw [load_of_remembered haccepts hcache]
    exact ⟨rfl, exists_source_of_remembered hempty hcache⟩
  · intro history' files' hhistory hfiles
    exact load_after_congr hhistory hfiles
  · intro hname
    obtain ⟨e, hcheck, hmessage⟩ := exists_checkName_eq_error hname
    exact ⟨e, hmessage, fun files => load_of_error hcheck⟩
  · obtain ⟨front, last, hparts, hpath⟩ := exists_pathOf_eq opened.root name
    exact ⟨front, last, hparts, fun part hpart => slash_not_mem_of_mem_parts (hparts ▸ hpart),
      hparts ▸ Text.intercalate_splitAt '/' name, hpath⟩

/-- A directory with a link that leads out of it, to a file with the content. -/
def linkOut (content : ByteArray) : FileTree :=
  .directory [("srv".toList, .directory [("out".toList, .link ["etc".toList])]),
    ("etc".toList, .directory [("a.mustache".toList, .file content)])]

theorem confined_of_linkOut :
    open? (linkOut .empty) ["srv".toList] = .ok { root := ["srv".toList] } ∧
    load (linkOut "x".toUTF8) { root := ["srv".toList] } "out/a".toList =
      load (linkOut .empty) { root := ["srv".toList] } "out/a".toList ∧
    ∃ e : DirectoryError, "Partial error: ".toList <+: e.message ∧
      ∀ files, load files { root := ["srv".toList] } "../etc/a".toList =
        (.error e, { root := ["srv".toList] }) := by
  have hopen : open? (linkOut .empty) ["srv".toList] = .ok { root := ["srv".toList] } := by
    refine open?_eq_ok_iff.2 ⟨?_, rfl⟩
    simp [linkOut, FileTree.real?, FileTree.walk, FileTree.Trail.tip, FileTree.Trail.fits,
      FileTree.maxName, Path.fits, Path.byteLength, Path.limit, Char.utf8Size, FileTree.Trail.path,
      Except.map]
  obtain ⟨-, -, -, -, hsame, -⟩ := confined hopen [] (linkOut .empty) "out/a".toList
  obtain ⟨-, -, -, -, -, hrefused, -⟩ := confined hopen [] (linkOut .empty) "../etc/a".toList
  exact ⟨hopen, hsame [] (linkOut "x".toUTF8) rfl rfl,
    hrefused fun haccepts => haccepts.no_dots ⟨[], "/etc/a".toList, by decide⟩⟩

end Mustache.Directory
