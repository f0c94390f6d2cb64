import Mustache.Template

/-!
# A tree in the order of its template

`Node.marksOf` walks over nodes in the order of the template and puts a mark in front of the
children of each section and another one behind them. Nesting loses and adds nothing: the marks of
the nodes are those of the tokens (`Template.marksOf_of_nest`).
-/

namespace Mustache

/-- A step of the walk over a tree. -/
inductive Node.Mark where
  /-- A text, a value or a reference to a partial. -/
  | leaf (node : Node)
  /-- The front of a section. -/
  | opening (key : Text) (inverted : Bool) (pos : Position)
  /-- The end of a section. -/
  | closing (key : Text)

namespace Node

mutual

/-- The walk over one node. -/
def marks : Node → List Mark
  | .block key inverted children _ pos =>
    .opening key inverted pos :: (marksOf children ++ [.closing key])
  | .text content pos => [.leaf (.text content pos)]
  | .value key raw pos => [.leaf (.value key raw pos)]
  | .inclusion key indent pos => [.leaf (.inclusion key indent pos)]

/-- The walk over a sequence of nodes. -/
def marksOf : List Node → List Mark
  | [] => []
  | n :: ns => n.marks ++ marksOf ns

end

@[simp] theorem marksOf_singleton (n : Node) : marksOf [n] = n.marks := List.append_nil _

@[simp] theorem marksOf_append (ns ms : List Node) :
    marksOf (ns ++ ms) = marksOf ns ++ marksOf ms := by
  induction ns with
  | nil => rfl
  | cons n ns ih => simp [marksOf, ih]

/-- The text at a mark. -/
def Mark.text : Mark → Text
  | .leaf (.text content _) => content
  | _ => []

/-- The reference to a partial at a mark: its name, indent and place. -/
def Mark.inclusion? : Mark → Option (Text × Option Text × Position)
  | .leaf (.inclusion key indent pos) => some (key, indent, pos)
  | _ => none

/-- The section at a mark: its name, and whether it is inverted. -/
def Mark.section? : Mark → Option (Text × Bool)
  | .opening key inverted _ => some (key, inverted)
  | _ => none

/-- The contents of the text nodes, put together in the order of the template. -/
def textOf (ns : List Node) : Text := (marksOf ns).flatMap Mark.text

/-- The references to partials, in the order of the template. -/
def inclusionsOf (ns : List Node) : List (Text × Option Text × Position) :=
  (marksOf ns).filterMap Mark.inclusion?

/-- The sections, in the order of the template. -/
def sectionsOf (ns : List Node) : List (Text × Bool) := (marksOf ns).filterMap Mark.section?

theorem sectionsOf_append (ns ms : List Node) :
    sectionsOf (ns ++ ms) = sectionsOf ns ++ sectionsOf ms := by
  simp [sectionsOf]

theorem sectionsOf_block (key : Text) (inverted : Bool) (children : List Node) (source : Text)
    (pos : Position) :
    sectionsOf [.block key inverted children source pos] =
      (key, inverted) :: sectionsOf children := by
  simp [sectionsOf, marks, Mark.section?]

end Node

/-- What a token leaves in the tree. -/
def Token.mark? (t : Token) : Option Node.Mark :=
  match t.kind with
  | .text => some (.leaf (.text t.content t.pos))
  | .escaped => some (.leaf (.value t.content false t.pos))
  | .raw => some (.leaf (.value t.content true t.pos))
  | .inclusion => some (.leaf (.inclusion t.content t.indent t.pos))
  | .opening inverted => some (.opening t.content inverted t.pos)
  | .closing => some (.closing t.content)
  | .comment | .delimiters => none

namespace Token

variable {t : Token}

theorem mark?_of_text (h : t.kind = .text) :
    t.mark? = some (.leaf (.text t.content t.pos)) := by
  simp [mark?, h]

theorem mark?_of_escaped (h : t.kind = .escaped) :
    t.mark? = some (.leaf (.value t.content false t.pos)) := by
  simp [mark?, h]

theorem mark?_of_raw (h : t.kind = .raw) :
    t.mark? = some (.leaf (.value t.content true t.pos)) := by
  simp [mark?, h]

theorem mark?_of_inclusion (h : t.kind = .inclusion) :
    t.mark? = some (.leaf (.inclusion t.content t.indent t.pos)) := by
  simp [mark?, h]

end Token

namespace Template

/-! ### One step of nesting -/

section
variable {opened : List OpenBlock} {done : List Node} {t : Token} {ts : List Token}

theorem nestFrom_leaf {n : Node} (h : t.mark? = some (.leaf n)) :
    nestFrom opened done (t :: ts) = nestFrom opened (n :: done) ts := by
  rw [nestFrom.eq_def]
  cases hkind : t.kind <;> simp [Token.mark?, hkind] at h <;> simp only [hkind, h]

theorem nestFrom_opening {inverted : Bool} (h : t.kind = .opening inverted) :
    nestFrom opened done (t :: ts) =
      if opened.length = maxNesting then .error ⟨.nestingTooDeep maxNesting, t.pos⟩
      else nestFrom (⟨t, inverted, done⟩ :: opened) [] ts := by
  rw [nestFrom.eq_def]
  simp only [h]

theorem nestFrom_closing_nil (h : t.kind = .closing) :
    nestFrom [] done (t :: ts) = .error ⟨.unexpectedClose t.content, t.pos⟩ := by
  rw [nestFrom.eq_def]
  simp only [h]

theorem nestFrom_mismatched {b : OpenBlock} (h : t.kind = .closing)
    (hname : t.content ≠ b.tag.content) :
    nestFrom (b :: opened) done (t :: ts) =
      .error ⟨.mismatchedClose b.tag.content t.content, t.pos⟩ := by
  rw [nestFrom.eq_def]
  simp only [h, if_neg hname]

theorem nestFrom_closing {b : OpenBlock} {body : Text} (h : t.kind = .closing)
    (hname : t.content = b.tag.content) (hbody : b.tag.textUpTo? t.pos.offset = some body) :
    nestFrom (b :: opened) done (t :: ts) =
      nestFrom opened (.block b.tag.content b.inverted done.reverse body b.tag.pos :: b.before)
        ts := by
  rw [nestFrom.eq_def]
  simp only [h, if_pos hname, hbody]

theorem nestFrom_broken {b : OpenBlock} (h : t.kind = .closing) (hname : t.content = b.tag.content)
    (hbody : b.tag.textUpTo? t.pos.offset = none) :
    nestFrom (b :: opened) done (t :: ts) = .error ⟨.brokenSpan b.tag.stop t.pos.offset, t.pos⟩ := by
  rw [nestFrom.eq_def]
  simp only [h, if_pos hname, hbody]

theorem nestFrom_silent (h : t.kind = .comment ∨ t.kind = .delimiters) :
    nestFrom opened done (t :: ts) = .error ⟨.unexpectedToken t.content, t.pos⟩ := by
  rw [nestFrom.eq_def]
  rcases h with h | h <;> simp only [h]

end

/-! ### All of nesting -/

/-- The walk over the nodes that have been read while sections are open. -/
def openMarks : List OpenBlock → List Node → List Node.Mark
  | [], done => Node.marksOf done.reverse
  | b :: opened, done =>
    openMarks opened b.before ++
      .opening b.tag.content b.inverted b.tag.pos :: Node.marksOf done.reverse

theorem openMarks_cons (opened : List OpenBlock) (n : Node) (done : List Node) :
    openMarks opened (n :: done) = openMarks opened done ++ n.marks := by
  cases opened <;> simp [openMarks]

theorem openMarks_close (b : OpenBlock) (opened : List OpenBlock) (done : List Node) (body : Text) :
    openMarks opened (.block b.tag.content b.inverted done.reverse body b.tag.pos :: b.before) =
      openMarks (b :: opened) done ++ [.closing b.tag.content] := by
  rw [openMarks_cons]
  simp [openMarks, Node.marks]

/-- What has been read, and then the tokens that are left. -/
theorem marksOf_of_nestFrom {opened : List OpenBlock} {done ns : List Node} {ts : List Token}
    (h : nestFrom opened done ts = .ok ns) :
    Node.marksOf ns = openMarks opened done ++ ts.filterMap Token.mark? := by
  fun_induction nestFrom opened done ts with
  | case1 done =>
    cases h
    simp [openMarks]
  | case3 opened done t ts hkind ih | case4 opened done t ts hkind ih
  | case5 opened done t ts hkind ih | case6 opened done t ts hkind ih =>
    rw [ih h, openMarks_cons]
    simp [Token.mark?, hkind, Node.marks]
  | case8 opened done t ts inverted hkind hlt ih =>
    rw [ih h]
    simp [openMarks, Node.marksOf, Token.mark?, hkind]
  | case10 done t ts hkind b opened hname body hbody block =>
    rename_i ih
    rw [ih h, openMarks_close]
    simp [Token.mark?, hkind, hname]
  | case2 | case7 | case9 | case11 | case12 | case13 | case14 => cases h

/-- **The tree loses and invents nothing.** The walk over the nodes meets what the tokens stand
for, in their order. -/
theorem marksOf_of_nest {ts : List Token} {ns : List Node} (h : nest ts = .ok ns) :
    Node.marksOf ns = ts.filterMap Token.mark? :=
  marksOf_of_nestFrom h

theorem exists_of_parse {source : Text} {template : Template} (h : parse source = .ok template) :
    ∃ tokens, Token.scan source = .ok tokens ∧
      nest (Token.settle tokens) = .ok template.nodes := by
  unfold parse at h
  split at h
  · cases h
  · next tokens hscan =>
    split at h
    · cases h
    · next nodes hnest =>
      cases h
      exact ⟨tokens, hscan, hnest⟩

end Template

end Mustache
