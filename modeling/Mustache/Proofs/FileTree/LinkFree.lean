import Mustache.FileTree

/-!
# Paths without links

The place that a path leads to is reached from the top directory through directories only
(`FileTree.linkFree_of_find?`). Where a path leads to a place, it is also located there
(`FileTree.eq_of_locate`).
-/

namespace Mustache.FileTree

variable {t next : FileTree} {p q : Path} {name : Text} {here there : Trail}

def IsLink : FileTree → Prop
  | .link _ _ => True
  | _ => False

/-- No name on the path stands for a link. -/
def LinkFree (t : FileTree) (p : Path) : Prop :=
  ∀ front next, front <+: p → t.at? front = some next → ¬ next.IsLink

/-- What a name stands for in a directory. -/
def named? : FileTree → Text → Option FileTree
  | .directory entries, name => entries.lookup name
  | _, _ => none

theorem at?_nil (t : FileTree) : t.at? [] = some t := by cases t <;> rfl

theorem at?_concat (t : FileTree) (p : Path) (name : Text) :
    t.at? (p ++ [name]) = (t.at? p).bind (·.named? name) := by
  induction p generalizing t with
  | nil => cases t <;> simp [at?, named?]
  | cons first p ih =>
    cases t with
    | directory entries =>
      rw [List.cons_append, at?, at?]
      cases entries.lookup first with
      | none => rfl
      | some next => exact ih next
    | file | link => rfl

theorem linkFree_nil (h : ¬ t.IsLink) : t.LinkFree [] := by
  intro front next hfront hnext
  rw [List.prefix_nil.1 hfront, at?_nil] at hnext
  cases hnext
  exact h

theorem LinkFree.concat (h : t.LinkFree p)
    (hlast : ∀ next, t.at? (p ++ [name]) = some next → ¬ next.IsLink) :
    t.LinkFree (p ++ [name]) := by
  intro front next hfront hnext
  rcases List.prefix_concat_iff.1 hfront with rfl | hfront
  · exact hlast next hnext
  · exact h front next hfront hnext

/-! ### The way to a place -/

theorem Trail.path_cons (name : Text) (next : FileTree) (here : Trail) :
    Trail.path ((name, next) :: here) = here.path ++ [name] := by
  simp [path]

/-- Every step of the way goes from a directory to something in it that is no link. -/
inductive Trail.Stands (t : FileTree) : Trail → Prop
  | top : Stands t []
  | step {here name next entries} : Stands t here → here.tip t = .directory entries →
    entries.lookup name = some next → ¬ next.IsLink → Stands t ((name, next) :: here)

namespace Trail.Stands

theorem tail (h : Trail.Stands t here) : Trail.Stands t here.tail := by
  cases h with
  | top => exact .top
  | step h => exact h

theorem at?_path (h : Trail.Stands t here) : t.at? here.path = some (here.tip t) := by
  induction h with
  | top => exact at?_nil t
  | step _ htip hnext _ ih =>
    rw [Trail.path_cons, at?_concat, ih, Option.bind_some, htip]
    exact hnext

theorem linkFree (h : Trail.Stands t here) (htop : ¬ t.IsLink) : t.LinkFree here.path := by
  induction h with
  | top => exact linkFree_nil htop
  | step hhere htip hnext hlink ih =>
    rw [Trail.path_cons]
    refine ih.concat fun next' hnext' => ?_
    rw [← Trail.path_cons _ _ _, (Stands.step hhere htip hnext hlink).at?_path] at hnext'
    cases hnext'
    exact hlink

end Trail.Stands

/-- Every way that can be gone stands. -/
theorem stands_of_walk {fits : Trail → Text → Bool} {links : Nat} {names : List Text}
    (hhere : Trail.Stands t here) (h : t.walk fits links here names = .ok there) :
    Trail.Stands t there := by
  fun_induction walk t fits links here names with
  | case1 links here =>
    cases h
    exact hhere
  | case3 links here rest entries htip hfits ih => exact ih hhere h
  | case4 links here rest entries htip hfits hne ih => exact ih hhere.tail h
  | case7 here name rest entries htip hfits hdot hdots target fromTop hentry links ih =>
    refine ih ?_ h
    split
    · exact .top
    · exact hhere
  | case8 links here name rest entries htip hfits hdot hdots next hlink hentry ih =>
    refine ih (.step hhere htip hentry ?_) h
    cases next with
    | link target fromTop => exact absurd rfl (hlink target fromTop)
    | directory | file => exact not_false
  | case2 | case5 | case6 | case9 => cases h

theorem not_isLink_of_at? {content : ByteArray} (h : t.at? p = some (.file content)) :
    ¬ t.IsLink := by
  cases t with
  | link target fromTop =>
    cases p with
    | nil | cons => cases h
  | directory | file => exact not_false

/-- The way to the place that a path leads to. -/
theorem exists_walk_of_find? (h : t.find? p = .ok q) :
    ∃ there, t.walk (fun _ _ => true) maxLinks [] p = .ok there ∧ there.path = q ∧
      p.fits = true := by
  rw [find?] at h
  split at h
  · cases h
  · split at h
    · next hfits =>
      rw [follow] at h
      cases hwalk : t.walk (fun _ _ => true) maxLinks [] p with
      | error e =>
        rw [hwalk] at h
        cases h
      | ok there =>
        rw [hwalk] at h
        exact ⟨there, rfl, Except.ok.inj h, hfits⟩
    · cases h

/-- **The place of a file has no links on its path.** -/
theorem linkFree_of_find? {content : ByteArray} (h : t.find? p = .ok q)
    (hfile : t.at? q = some (.file content)) : t.LinkFree q := by
  obtain ⟨there, hwalk, rfl, -⟩ := exists_walk_of_find? h
  exact (stands_of_walk .top hwalk).linkFree (not_isLink_of_at? hfile)

/-! ### The place that a path is located at -/

theorem locateBackwards_eq_real? {back : List Text} (h : t.find? back.reverse = .ok q) :
    t.locateBackwards back = t.real? back.reverse := by
  cases back with
  | nil =>
    rw [locateBackwards, List.reverse_nil, real?, walk]
    rfl
  | cons name before => rw [locateBackwards, h]

theorem locate_eq_real? (h : t.find? p = .ok q) : t.locate p = t.real? p := by
  obtain ⟨-, -, -, hfits⟩ := exists_walk_of_find? h
  have hcut : Path.cut Path.limit p = (p, []) :=
    Path.cut_of_byteLength_lt (of_decide_eq_true hfits)
  have hmap : ∀ x : Except Fault Path, x.map (· ++ []) = x := fun x => by
    cases x <;> simp [Except.map]
  rw [locate, hcut]
  refine (hmap _).trans ?_
  rw [← List.reverse_reverse p] at h
  rw [locateBackwards_eq_real? h, List.reverse_reverse]

/-- Where a path leads to a place, it is located there. -/
theorem eq_of_locate {place : Path} (h : t.find? p = .ok q) (hlocate : t.locate p = .ok place) :
    q = place :=
  find?_eq_real? h (locate_eq_real? h ▸ hlocate)

end Mustache.FileTree
