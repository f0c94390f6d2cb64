import Mustache.Proofs.Token.Indent

/-!
# Section tags that lead their line

A section tag leads its line when nothing but section tags stands in front of it there and it is not
alone. It may be skipped with its section, and then the line that it leads starts behind it. A
template is steady when the two tags of a section lead their lines together or not at all
(`Token.Steady`).

`Token.Settled` relates the tokens of a template and of the indented template once their lines have
been settled. A `Debt` says where each of the two has the indent of the line that is being written.
-/

namespace Mustache

open Node (indentText)

namespace Token

/-- For each section tag whether it leads its line, and whether the last token is such a tag. `bare`
says that nothing but section tags has been passed on the line, `leads` that the token in front
leads it; `passed` is the part of the line that has been passed, as long as it holds no tag. -/
def leadersFrom (bare leads : Bool) (passed : Option Text) :
    List Token → List (Token × Bool) × Bool
  | [] => ([], leads)
  | t :: ts =>
    match t.kind with
    | .text => leadersFrom (t.content.freshAfter false) false (extendLine passed t.content) ts
    | .opening _ | .closing =>
      let leads := bare && !isAlone passed t ts
      let rest := leadersFrom bare leads none ts
      ((t, leads) :: rest.1, rest.2)
    | _ => leadersFrom false false none ts

/-- For each section tag of a template whether it leads its line, and whether the last token of the
template is such a tag. -/
def leaders (tokens : List Token) : List (Token × Bool) × Bool :=
  leadersFrom true false (some []) tokens

/-- The names of the sections of which one tag leads its line and the other does not, in the order
of their ends. `opened` says the same of the first tags of the sections that are open. -/
def unsteadyFrom (opened : List Bool) : List (Token × Bool) → List Text
  | [] => []
  | (t, leads) :: rest =>
    if t.kind = .closing then
      match opened with
      | [] => unsteadyFrom [] rest
      | led :: opened =>
        if led = leads then unsteadyFrom opened rest else t.content :: unsteadyFrom opened rest
    else unsteadyFrom (leads :: opened) rest

theorem unsteadyFrom_opening {opened : List Bool} {leads inverted : Bool} {t : Token}
    {rest : List (Token × Bool)} (h : t.kind = .opening inverted) :
    unsteadyFrom opened ((t, leads) :: rest) = unsteadyFrom (leads :: opened) rest := by
  rw [unsteadyFrom.eq_def]
  exact if_neg (by simp [h])

theorem unsteadyFrom_closing {led leads : Bool} {opened : List Bool} {t : Token}
    {rest : List (Token × Bool)} (h : t.kind = .closing) :
    unsteadyFrom (led :: opened) ((t, leads) :: rest) =
      if led = leads then unsteadyFrom opened rest else t.content :: unsteadyFrom opened rest := by
  rw [unsteadyFrom.eq_def]
  exact if_pos h

/-- The two tags of each section lead their lines together or not at all, and the template does not
end with a tag that leads its line. -/
def Steady (tokens : List Token) : Prop :=
  unsteadyFrom [] (leaders tokens).1 = [] ∧ (leaders tokens).2 = false

instance (tokens : List Token) : Decidable (Steady tokens) :=
  inferInstanceAs (Decidable (_ ∧ _))

end Token

/-- Where the indent of the current line is. -/
inductive Debt where
  /-- Nothing of the line has been written. -/
  | fresh
  /-- The indented text has its indent in front of the tags that lead the line; the indented nodes
  have not. -/
  | owed
  /-- Both have it. -/
  | paid
deriving DecidableEq

namespace Debt

/-- The state behind a text. -/
def after (d : Debt) (s : Text) : Debt :=
  if s.isEmpty then d else if s.freshAfter false then .fresh else .paid

/-- What the nodes have still to write. -/
def text (w : Text) : Debt → Text
  | .owed => w
  | .fresh | .paid => []

/-- The state in front of a tag that is not alone on its line. -/
def ofBare (bare : Bool) : Debt := if bare then .owed else .paid

/-- The state behind a tag. -/
def behindTag (alone bare : Bool) : Debt := if alone then .fresh else ofBare bare

theorem after_eq_fresh {d : Debt} {s : Text} (h : s.freshAfter (d == .fresh) = true) :
    d.after s = .fresh := by
  cases s with
  | nil => simpa [after, Text.freshAfter] using h
  | cons c s => exact if_pos h

theorem after_eq_paid {d : Debt} {s : Text} (hne : s ≠ []) (h : s.freshAfter false = false) :
    d.after s = .paid := by
  rw [after, List.isEmpty_eq_false_iff.2 hne, h]
  rfl

end Debt

namespace Token

/-- The settled tokens of a template and those of the template with `w` in front of every line, in
the state `d`. The marks say of each section tag whether it leads its line; `e` is the state behind
the last token. -/
inductive Settled (w : Text) :
    (d : Debt) → List Token → List Token → (marks : List (Token × Bool)) → (e : Debt) → Prop
  | nil {d} : Settled w d [] [] [] d
  | text {d e t t' ts ts' marks} : t.kind = .text → t'.kind = .text →
    t'.content = (indentText w (d == .fresh) t.content).1 →
    Settled w (d.after t.content) ts ts' marks e → Settled w d (t :: ts) (t' :: ts') marks e
  | hang {d e t t' ts ts' marks} : t.kind = .text → t'.kind = .text →
    d.after t.content = .fresh →
    t'.content = (indentText w (d == .fresh) t.content).1 ++ w →
    Settled w .owed ts ts' marks e → Settled w d (t :: ts) (t' :: ts') marks e
  | lead {e t' ts ts' marks} : t'.kind = .text → t'.content = w →
    Settled w .owed ts ts' marks e → Settled w .fresh ts (t' :: ts') marks e
  | leaf {d e t t' ts ts' marks} : SameTag t t' →
    (t.kind = .escaped ∨ t.kind = .raw ∨ t.kind = .inclusion) → d ≠ .fresh →
    Settled w .paid ts ts' marks e → Settled w d (t :: ts) (t' :: ts') marks e
  | line {e t t' ts ts' marks indent} : t.kind = .inclusion → t'.kind = .inclusion →
    t'.content = t.content → t.indent = some indent → t'.indent = some (w ++ indent) →
    Settled w .fresh ts ts' marks e → Settled w .fresh (t :: ts) (t' :: ts') marks e
  | mark {d e t t' ts ts' marks} : SameTag t t' →
    ((∃ inverted, t.kind = .opening inverted) ∨ t.kind = .closing) →
    Settled w d ts ts' marks e → Settled w d (t :: ts) (t' :: ts') ((t, d == .owed) :: marks) e

variable {w : Text}

/-! ### The tags that are alone are the same -/

theorem Spread.isEmpty_eq {ts ts' : List Token} {fresh : Bool} (h : Spread w fresh ts ts') :
    ts'.isEmpty = ts.isEmpty := by
  cases h <;> rfl

theorem Spread.lineEndsBefore_eq {ts ts' : List Token} (h : Spread w false ts ts') :
    lineEndsBefore ts' = lineEndsBefore ts := by
  cases h with
  | nil => rfl
  | @run _ t t' ts ts' hkind hkind' _ _ hcontent hspread =>
    rw [lineEndsBefore, lineEndsBefore, hkind, hkind', hspread.isEmpty_eq, hcontent,
      Text.endsLine_indentText]
    cases ts.isEmpty
    · exact .inr rfl
    · exact .inl rfl
  | tag hsame =>
    rw [lineEndsBefore, lineEndsBefore, hsame.kind_eq, beq_eq_false_iff_ne.2 hsame.ne_text,
      Bool.false_and, Bool.false_and]

theorem isAlone_map (hw : w.all Text.isLineBlank) {t t' : Token} {ts ts' : List Token}
    (hkind : t'.kind = t.kind) (h : Spread w false ts ts') (passed : Option Text) :
    isAlone (passed.map (w ++ ·)) t' ts' = isAlone passed t ts := by
  rw [isAlone, isAlone, h.lineEndsBefore_eq, hkind]
  cases passed with
  | none => rfl
  | some line => simp [List.all_append, hw]

theorem headIsAlone_map (hw : w.all Text.isLineBlank) {ts ts' : List Token}
    (h : Spread w false ts ts') (hhead : ∀ u ∈ ts.head?, u.kind ≠ .text) (passed : Option Text) :
    headIsAlone (passed.map (w ++ ·)) ts' = headIsAlone passed ts := by
  cases h with
  | nil => rfl
  | run hkind => exact absurd hkind (hhead _ rfl)
  | tag hsame hspread => exact isAlone_map hw hsame.kind_eq hspread passed

/-! ### Settling both -/

/-- The settled tokens of both templates agree from the state `d` on, with the leaders that are read
off the first one. -/
def Agree (w : Text) (d : Debt) (passed passed' : Option Text) (cut bare leads : Bool)
    (ts ts' : List Token) : Prop :=
  ∃ e, Settled w d (settleFrom passed cut ts) (settleFrom passed' cut ts')
      (leadersFrom bare leads passed ts).1 e ∧
    (leadersFrom bare leads passed ts).2 = (e == .owed)

theorem leadersFrom_section {bare leads : Bool} {passed : Option Text} {t : Token} {ts : List Token}
    (h : (∃ inverted, t.kind = .opening inverted) ∨ t.kind = .closing) :
    leadersFrom bare leads passed (t :: ts) =
      ((t, bare && !isAlone passed t ts) ::
          (leadersFrom bare (bare && !isAlone passed t ts) none ts).1,
        (leadersFrom bare (bare && !isAlone passed t ts) none ts).2) := by
  rcases h with ⟨inverted, h⟩ | h <;> simp [leadersFrom, h]

theorem leadersFrom_leaf {bare leads : Bool} {passed : Option Text} {t : Token} {ts : List Token}
    (h : t.kind = .escaped ∨ t.kind = .raw ∨ t.kind = .inclusion) :
    leadersFrom bare leads passed (t :: ts) = leadersFrom false false none ts := by
  rcases h with h | h | h <;> simp [leadersFrom, h]

theorem leadersFrom_text {bare leads : Bool} {passed : Option Text} {t : Token} {ts : List Token}
    (h : t.kind = .text) :
    leadersFrom bare leads passed (t :: ts) =
      leadersFrom (t.content.freshAfter false) false (extendLine passed t.content) ts := by
  simp [leadersFrom, h]

theorem ofBare_ne_fresh (bare : Bool) : Debt.ofBare bare ≠ .fresh := by
  cases bare <;> nofun

theorem behindTag_eq_owed (alone bare : Bool) :
    (Debt.behindTag alone bare == .owed) = (bare && !alone) := by
  cases alone <;> cases bare <;> rfl

/-- The tokens behind a tag decide about the tokens from the tag on. -/
theorem agree_tag (hw : w.all Text.isLineBlank) {t t' : Token} {ts ts' : List Token}
    {passed : Option Text} (hsame : SameTag t t') (hspread : Spread w false ts ts')
    (h : ∀ bare, Agree w (.behindTag (isAlone passed t ts) bare) none none (isAlone passed t ts)
      bare (bare && !isAlone passed t ts) ts ts') (cut bare leads : Bool) :
    Agree w (.behindTag (isAlone passed t ts) bare) passed (passed.map (w ++ ·)) cut bare leads
      (t :: ts) (t' :: ts') := by
  have halone := isAlone_map hw hsame.kind_eq hspread passed
  have hne' : t'.kind ≠ .text := hsame.kind_eq ▸ hsame.ne_text
  rw [Agree, settleFrom_tag hsame.ne_text, settleFrom_tag hne', halone]
  have hvalue : t.kind = .escaped ∨ t.kind = .raw → ∃ e,
      Settled w (.behindTag (isAlone passed t ts) bare)
        (settledTag passed (isAlone passed t ts) t ++ settleFrom none (isAlone passed t ts) ts)
        (settledTag (passed.map (w ++ ·)) (isAlone passed t ts) t' ++
          settleFrom none (isAlone passed t ts) ts')
        (leadersFrom bare leads passed (t :: ts)).1 e ∧
      (leadersFrom bare leads passed (t :: ts)).2 = (e == .owed) := by
    intro hkind
    have hfalse : isAlone passed t ts = false := by
      rcases hkind with hkind | hkind <;> simp [isAlone, hkind, Kind.standsAlone]
    obtain ⟨e, hsettled, he⟩ := h false
    have hleaf : t.kind = .escaped ∨ t.kind = .raw ∨ t.kind = .inclusion :=
      hkind.imp_right .inl
    rw [settledTag_of_value hkind, settledTag_of_value (hsame.kind_eq ▸ hkind),
      leadersFrom_leaf hleaf]
    rw [hfalse] at hsettled he ⊢
    exact ⟨e, .leaf hsame hleaf (ofBare_ne_fresh bare) hsettled, he⟩
  have hsection : (∃ inverted, t.kind = .opening inverted) ∨ t.kind = .closing → ∃ e,
      Settled w (.behindTag (isAlone passed t ts) bare)
        (settledTag passed (isAlone passed t ts) t ++ settleFrom none (isAlone passed t ts) ts)
        (settledTag (passed.map (w ++ ·)) (isAlone passed t ts) t' ++
          settleFrom none (isAlone passed t ts) ts')
        (leadersFrom bare leads passed (t :: ts)).1 e ∧
      (leadersFrom bare leads passed (t :: ts)).2 = (e == .owed) := by
    intro hkind
    obtain ⟨e, hsettled, he⟩ := h bare
    rw [settledTag_of_section hkind, settledTag_of_section (hsame.kind_eq ▸ hkind),
      leadersFrom_section hkind, ← behindTag_eq_owed]
    rw [← behindTag_eq_owed] at hsettled he
    exact ⟨e, .mark hsame hkind hsettled, he⟩
  cases hkind : t.kind with
  | text => exact absurd hkind hsame.ne_text
  | comment | delimiters =>
    have hsilent := hsame.not_silent
    rw [hkind] at hsilent
    cases hsilent
  | escaped => exact hvalue (.inl hkind)
  | raw => exact hvalue (.inr hkind)
  | opening inverted => exact hsection (.inl ⟨inverted, hkind⟩)
  | closing => exact hsection (.inr hkind)
  | inclusion =>
    have hleaf : t.kind = .escaped ∨ t.kind = .raw ∨ t.kind = .inclusion := .inr (.inr hkind)
    obtain ⟨e, hsettled, he⟩ := h false
    rw [settledTag_of_inclusion hkind hsame.indent_eq,
      settledTag_of_inclusion (hsame.kind_eq.trans hkind) hsame.indent_eq', leadersFrom_leaf hleaf]
    cases htrue : isAlone passed t ts with
    | false =>
      rw [htrue] at hsettled he
      refine ⟨e, .leaf ⟨hsame.ne_text, hsame.not_silent, hsame.kind_eq, hsame.content_eq, rfl, rfl⟩
        hleaf (ofBare_ne_fresh bare) hsettled, he⟩
    | true =>
      rw [htrue, Bool.false_and] at hsettled he
      obtain ⟨line, rfl⟩ : ∃ line, passed = some line := by
        cases passed with
        | none => simp [isAlone] at htrue
        | some line => exact ⟨line, rfl⟩
      exact ⟨e, .line hkind (hsame.kind_eq.trans hkind) hsame.content_eq rfl rfl hsettled, he⟩

/-! ### Runs -/

theorem cutRun_false (s : Text) (cut : Bool) : cutRun s cut false = s.runBehind cut := rfl

theorem cutRun_true (s : Text) (cut : Bool) :
    cutRun s cut true = (s.runBehind cut).dropTrailingBlanks := rfl

theorem settledRun_of_eq_nil {cut : Bool} {line : Option Text} {t : Token} {ts : List Token}
    (h : cutRun t.content cut (headIsAlone line ts) = []) : settledRun cut line t ts = [] := by
  rw [settledRun, h]
  rfl

theorem settledRun_of_ne_nil {cut : Bool} {line : Option Text} {t : Token} {ts : List Token}
    {run : Text} (h : cutRun t.content cut (headIsAlone line ts) = run) (hne : run ≠ []) :
    settledRun cut line t ts = [{ t with content := run }] := by
  rw [settledRun, h, if_neg (by simpa using hne)]

/-- The last token is a run. -/
theorem agree_last {fresh cut : Bool} {d : Debt} {t t' : Token} (hkind : t.kind = .text)
    (hkind' : t'.kind = .text) (hne : t.content ≠ [])
    (hcontent : t'.content = (indentText w fresh t.content).1)
    (hcut : cut = true → fresh = false ∧ t.content.endsLine true = true)
    (hd : (d == .fresh) = (fresh || cut)) (bare leads : Bool) :
    Agree w d (Text.passedBefore fresh) (Text.passedBefore fresh) cut bare leads [t] [t'] := by
  have hrun : t'.content.runBehind cut = (indentText w (d == .fresh) (t.content.runBehind cut)).1 := by
    by_cases hends : cut = true → t.content.endsLine false = true
    · have hsame := Text.runBehind_indentText (w := w)
        (fun hc => ⟨(hcut hc).1, hends hc⟩ : cut = true → fresh = false ∧ _) []
      rwa [List.append_nil, List.append_nil, ← hcontent, ← hd] at hsame
    · obtain ⟨rfl, hends⟩ := Classical.not_imp.1 hends
      obtain ⟨rfl, htrue⟩ := hcut rfl
      obtain ⟨hblank, hdrop⟩ := Text.blank_of_endsLine htrue (by simpa using hends)
      rw [hcontent, Text.indentText_of_not_mem (Text.newline_not_mem_of_blank hblank),
        Text.runBehind, if_pos rfl, hdrop]
      rfl
  have hlast : ∀ line s, cutRun s cut (headIsAlone line []) = s.runBehind cut := fun _ _ => rfl
  rw [Agree, settleFrom_text hkind, settleFrom_text hkind', leadersFrom_text hkind]
  by_cases hnil : t.content.runBehind cut = []
  · have hcut : cut = true := by
      cases cut with
      | false => exact absurd hnil hne
      | true => rfl
    have hfresh : d = .fresh := by simpa [hcut] using hd
    have hnil' : t'.content.runBehind cut = [] := by
      rw [hrun, hnil]
      rfl
    rw [settledRun_of_eq_nil ((hlast _ _).trans hnil), settledRun_of_eq_nil ((hlast _ _).trans hnil')]
    exact ⟨d, .nil, by rw [hfresh]; rfl⟩
  · have hnil' : (indentText w (d == .fresh) (t.content.runBehind cut)).1 ≠ [] :=
      fun h => hnil (Text.indentText_eq_nil.1 h)
    rw [settledRun_of_ne_nil (hlast _ _) hnil, settledRun_of_ne_nil ((hlast _ _).trans hrun) hnil']
    refine ⟨_, .text hkind hkind' rfl .nil, ?_⟩
    rw [Debt.after, List.isEmpty_eq_false_iff.2 hnil, leadersFrom]
    cases Text.freshAfter false (t.content.runBehind cut) <;> rfl

/-- A run in front of a tag. -/
theorem agree_run (hw : w.all Text.isLineBlank) (hw' : w ≠ []) {fresh cut : Bool} {d : Debt}
    {t t' u : Token} {ts ts' : List Token} (hkind : t.kind = .text) (hkind' : t'.kind = .text)
    (hne : t.content ≠ []) (hu : u.kind ≠ .text)
    (hcontent : t'.content = (indentText w fresh t.content).1 ++ Text.hang w fresh t.content)
    (hspread : Spread w false (u :: ts) ts')
    (hcut : cut = true → fresh = false ∧ t.content.endsLine false = true)
    (hd : (d == .fresh) = (fresh || cut))
    (hnext : ∀ passed bare, Agree w (.behindTag (isAlone passed u ts) bare) passed
      (passed.map (w ++ ·)) false bare false (u :: ts) ts') (bare leads : Bool) :
    Agree w d (Text.passedBefore fresh) (Text.passedBefore fresh) cut bare leads (t :: u :: ts)
      (t' :: ts') := by
  obtain ⟨line, hline⟩ : ∃ line, extendLine (Text.passedBefore fresh) t.content = line := ⟨_, rfl⟩
  have hline' : extendLine (Text.passedBefore fresh) t'.content = line.map (w ++ ·) := by
    rw [hcontent, Text.extendLine_indentText hw hne, hline]
  have hhead : headIsAlone (line.map (w ++ ·)) ts' = isAlone line u ts :=
    headIsAlone_map hw hspread (by simpa using hu) line
  have hfresh : t.content.freshAfter false = (t.content.runBehind cut).freshAfter (d == .fresh) := by
    rw [hd, Text.freshAfter_runBehind hcut]
    exact Text.freshAfter_of_ne_nil hne _ _
  have hhang : Text.hang w fresh t.content = Text.hang w (d == .fresh) (t.content.runBehind cut) := by
    rw [Text.hang, Text.hang, ← hfresh, Text.freshAfter_of_ne_nil hne fresh false]
  have hrun : t'.content.runBehind cut =
      (indentText w (d == .fresh) (t.content.runBehind cut)).1 ++
        Text.hang w (d == .fresh) (t.content.runBehind cut) := by
    rw [hcontent, Text.runBehind_indentText hcut, ← hd, hhang]
  obtain ⟨e, hsettled, he⟩ := hnext line (t.content.freshAfter false)
  rw [Agree, settleFrom_text hkind, settleFrom_text hkind', leadersFrom_text hkind, hline, hline']
  refine ⟨e, ?_, he⟩
  cases halone : isAlone line u ts with
  | true =>
    rw [halone] at hhead hsettled
    obtain ⟨passed, rfl⟩ : ∃ passed, line = some passed := by
      cases line with
      | none => simp [isAlone] at halone
      | some passed => exact ⟨passed, rfl⟩
    have hblank : passed.all Text.isLineBlank = true := by
      simp only [isAlone, Option.any_some, Bool.and_eq_true] at halone
      exact halone.1.2
    obtain ⟨front, hfront, hstart⟩ := Text.exists_append_passed hcut hline
    rw [← hd] at hstart
    have hcutRun : cutRun t.content cut (headIsAlone (some passed) (u :: ts)) = front := by
      rw [headIsAlone, halone, cutRun_true, hfront]
      refine Text.dropTrailingBlanks_append hblank ?_
      exact (Text.eq_nil_or_of_freshAfter hstart).imp_left And.left
    have hcutRun' : cutRun t'.content cut (headIsAlone ((some passed).map (w ++ ·)) ts') =
        (indentText w (d == .fresh) front).1 := by
      rw [hhead, cutRun_true, hrun, hfront, Text.indentText_append, Text.hang_append, hstart,
        List.append_assoc, Text.indentText_append_hang (Text.newline_not_mem_of_blank hblank)]
      refine Text.dropTrailingBlanks_append ?_ (Text.indentText_eq_nil_or_concat hstart)
      rw [List.all_append, hw, hblank]
      rfl
    by_cases hnil : front = []
    · subst hnil
      have hd : d = .fresh := by simpa [Text.freshAfter] using hstart
      subst hd
      rw [settledRun_of_eq_nil hcutRun, settledRun_of_eq_nil hcutRun']
      exact hsettled
    · rw [settledRun_of_ne_nil hcutRun hnil,
        settledRun_of_ne_nil hcutRun' fun h => hnil (Text.indentText_eq_nil.1 h)]
      refine .text hkind hkind' rfl ?_
      rw [Debt.after_eq_fresh hstart]
      exact hsettled
  | false =>
    rw [halone] at hhead hsettled
    have hcutRun : cutRun t.content cut (headIsAlone line (u :: ts)) = t.content.runBehind cut := by
      rw [headIsAlone, halone, cutRun_false]
    have hcutRun' : cutRun t'.content cut (headIsAlone (line.map (w ++ ·)) ts') =
        (indentText w (d == .fresh) (t.content.runBehind cut)).1 ++
          Text.hang w (d == .fresh) (t.content.runBehind cut) := by
      rw [hhead, cutRun_false, hrun]
    cases hbare : t.content.freshAfter false with
    | true =>
      rw [hbare] at hsettled
      have hstart := hfresh.symm.trans hbare
      rw [Text.hang, hstart, if_pos rfl] at hcutRun'
      have hne' : (indentText w (d == .fresh) (t.content.runBehind cut)).1 ++ w ≠ [] :=
        fun h => hw' (List.append_eq_nil_iff.1 h).2
      rw [settledRun_of_ne_nil hcutRun' hne']
      by_cases hnil : t.content.runBehind cut = []
      · have hd : d = .fresh := by simpa [hnil, Text.freshAfter] using hstart
        subst hd
        rw [settledRun_of_eq_nil (hcutRun.trans hnil)]
        exact .lead hkind' (by rw [hnil]; rfl) hsettled
      · rw [settledRun_of_ne_nil hcutRun hnil]
        exact .hang hkind hkind' (Debt.after_eq_fresh hstart) rfl hsettled
    | false =>
      rw [hbare] at hsettled
      have hstart := hfresh.symm.trans hbare
      rw [Text.hang, hstart, if_neg Bool.false_ne_true, List.append_nil] at hcutRun'
      have hnil : t.content.runBehind cut ≠ [] := by
        intro hnil
        rw [hnil, hd] at hstart
        have hcut : cut = false := (Bool.or_eq_false_iff.1 hstart).2
        rw [hcut] at hnil
        exact hne hnil
      rw [settledRun_of_ne_nil hcutRun hnil,
        settledRun_of_ne_nil hcutRun' fun h => hnil (Text.indentText_eq_nil.1 h)]
      refine .text hkind hkind' rfl ?_
      rw [Debt.after_eq_paid hnil (by rw [Text.freshAfter_of_ne_nil hnil false _, hstart])]
      exact hsettled

/-! ### All tokens -/

/-- Behind a tag both settle alike, and in front of a tag whatever has been passed of the line. -/
theorem agree_of_spread (hw : w.all Text.isLineBlank) (hw' : w ≠ []) {fresh : Bool}
    {ts ts' : List Token} (h : Spread w fresh ts ts') (hfresh : fresh = false) :
    (∀ cut bare, (cut = true → lineEndsBefore ts = true) →
      Agree w (.behindTag cut bare) none none cut bare (bare && !cut) ts ts') ∧
    ∀ t us, ts = t :: us → t.kind ≠ .text → ∀ passed cut bare leads,
      Agree w (.behindTag (isAlone passed t us) bare) passed (passed.map (w ++ ·)) cut bare leads
        ts ts' := by
  induction h with
  | nil =>
    refine ⟨fun cut bare _ => ⟨_, .nil, (behindTag_eq_owed cut bare).symm⟩, ?_⟩
    nofun
  | @run _ t t' ts ts' hkind hkind' hne hhead hcontent hspread ih =>
    subst hfresh
    refine ⟨fun cut bare hcut => ?_, ?_⟩
    · rw [lineEndsBefore, hkind] at hcut
      have hd : (Debt.behindTag cut bare == .fresh) = (false || cut) := by
        cases cut <;> cases bare <;> rfl
      cases ts with
      | nil =>
        cases hspread
        exact agree_last hkind hkind' hne (by simpa using hcontent) (fun hc => ⟨rfl, hcut hc⟩) hd _ _
      | cons u us =>
        have hu : u.kind ≠ .text := hhead u rfl
        exact agree_run hw hw' hkind hkind' hne hu hcontent hspread (fun hc => ⟨rfl, hcut hc⟩) hd
          (fun passed bare => (ih rfl).2 u us rfl hu passed false bare false) _ _
    · rintro u us ⟨⟩ hu
      exact absurd hkind hu
  | @tag t t' ts ts' hsame hspread ih =>
    have htag : ∀ passed cut bare leads,
        Agree w (.behindTag (isAlone passed t ts) bare) passed (passed.map (w ++ ·)) cut bare leads
          (t :: ts) (t' :: ts') := by
      intro passed cut bare leads
      refine agree_tag hw hsame hspread (fun bare => (ih rfl).1 _ bare fun halone => ?_) cut bare leads
      simp only [isAlone, Bool.and_eq_true] at halone
      exact halone.2
    refine ⟨fun cut bare hcut => ?_, ?_⟩
    · have hcut : cut = false := by
        cases cut with
        | false => rfl
        | true =>
          have hends := hcut rfl
          rw [lineEndsBefore, beq_eq_false_iff_ne.2 hsame.ne_text] at hends
          cases hends
      subst hcut
      have halone : isAlone none t ts = false := by simp [isAlone]
      have := htag none false bare (bare && !false)
      rwa [halone] at this
    · rintro u us ⟨⟩ _
      exact htag
  | lead => cases hfresh

/-- The settled tokens of a template and of the indented template. -/
theorem settled_of_spread (hw : w.all Text.isLineBlank) (hw' : w ≠ []) {ts ts' : List Token}
    (h : Spread w true ts ts') :
    ∃ e, Settled w .fresh (settle ts) (settle ts') (leaders ts).1 e ∧
      (leaders ts).2 = (e == .owed) := by
  cases h with
  | nil => exact ⟨.fresh, .nil, rfl⟩
  | @run _ t t' ts ts' hkind hkind' hne hhead hcontent hspread =>
    cases ts with
    | nil =>
      cases hspread
      have hcut : false = true → true = false ∧ t.content.endsLine true = true := nofun
      exact agree_last hkind hkind' hne (by simpa using hcontent) hcut rfl true false
    | cons u us =>
      have hu : u.kind ≠ .text := hhead u rfl
      have hnext := (agree_of_spread hw hw' hspread rfl).2 u us rfl hu
      have hcut : false = true → true = false ∧ t.content.endsLine false = true := nofun
      exact agree_run hw hw' hkind hkind' hne hu hcontent hspread hcut rfl
        (fun passed bare => hnext passed false bare false) true false
  | @lead t t' ts ts' hne hkind' hcontent hspread =>
    have hnext := (agree_of_spread hw hw' hspread rfl).2 t ts rfl hne (some []) false true false
    have hhead : headIsAlone (some w) ts' = isAlone (some []) t ts := by
      have := headIsAlone_map hw hspread (by simpa using hne) (some [])
      rwa [Option.map_some, List.append_nil] at this
    have hline : extendLine (some []) t'.content = some w := by
      simp [extendLine, Text.lastLine?_eq, hcontent, Text.newline_not_mem_of_blank hw]
    rw [Option.map_some, List.append_nil] at hnext
    obtain ⟨e, hsettled, he⟩ := hnext
    refine ⟨e, ?_, he⟩
    rw [settle, settle, settleFrom_text hkind', hline]
    cases halone : isAlone (some []) t ts with
    | true =>
      rw [halone] at hhead hsettled
      have hcut : cutRun t'.content false (headIsAlone (some w) ts') = [] := by
        rw [hhead, hcontent, cutRun_true]
        exact Text.dropTrailingBlanks_append hw (.inl rfl)
      rw [settledRun_of_eq_nil hcut]
      exact hsettled
    | false =>
      rw [halone] at hhead hsettled
      have hcut : cutRun t'.content false (headIsAlone (some w) ts') = w := by
        rw [hhead, hcontent]
        rfl
      rw [settledRun_of_ne_nil hcut hw']
      exact .lead hkind' rfl hsettled

end Token

end Mustache
