import Mustache.Proofs.Template.Sections
import Mustache.Proofs.Token.Steady

/-!
# The nodes of an indented template

An indented template parses when the template does (`Template.parse_indented`). Its nodes are those
of the template with indents in its texts; `Node.Indented` says where.
-/

namespace Mustache

open Node (indentText)

/-- The nodes of a template and those of the template with `w` in front of every line, from the
state `d` to the state `e`. The names are those of the sections at the two ends of which an indent
is not owed alike. -/
inductive Node.Indented (w : Text) :
    (d : Debt) → List Node → List Node → (names : List Text) → (e : Debt) → Prop
  | nil {d} : Indented w d [] [] [] d
  | append {d d' e ns ns' ms ms' us vs} : Indented w d ns ns' us d' → Indented w d' ms ms' vs e →
    Indented w d (ns ++ ms) (ns' ++ ms') (us ++ vs) e
  | text {d s pos pos'} :
    Indented w d [.text s pos] [.text (indentText w (d == .fresh) s).1 pos'] [] (d.after s)
  | hang {d s pos pos'} : d.after s = .fresh →
    Indented w d [.text s pos] [.text ((indentText w (d == .fresh) s).1 ++ w) pos'] [] .owed
  | lead {pos'} : Indented w .fresh [] [.text w pos'] [] .owed
  | value {d key raw pos pos'} : d ≠ .fresh →
    Indented w d [.value key raw pos] [.value key raw pos'] [] .paid
  | inclusion {d key pos pos'} : d ≠ .fresh →
    Indented w d [.inclusion key none pos] [.inclusion key none pos'] [] .paid
  | line {key indent pos pos'} :
    Indented w .fresh [.inclusion key (some indent) pos]
      [.inclusion key (some (w ++ indent)) pos'] [] .fresh
  | block {d e key inverted children children' source source' pos pos' us} :
    Indented w d children children' us e →
    Indented w d [.block key inverted children source pos]
      [.block key inverted children' source' pos']
      (us ++ if (d == .owed) = (e == .owed) then [] else [key]) e

namespace Template

open Token

variable {w : Text}

/-! ### Nesting both -/

/-- What has been read of both templates while sections are open. -/
inductive Stacked (w : Text) : List OpenBlock → List Node → List OpenBlock → List Node →
    (flags : List Bool) → (names : List Text) → Debt → Prop
  | bottom {done done' us d} : Node.Indented w .fresh done.reverse done'.reverse us d →
    Stacked w [] done [] done' [] us d
  | block {b b' opened opened' done done' flags us vs d e} :
    Stacked w opened b.before opened' b'.before flags us d →
    b'.tag.content = b.tag.content → b'.inverted = b.inverted →
    Node.Indented w d done.reverse done'.reverse vs e →
    Stacked w (b :: opened) done (b' :: opened') done' ((d == .owed) :: flags) (us ++ vs) e

variable {opened opened' : List OpenBlock} {done done' ns ns' : List Node} {ts ts' : List Token}
  {flags : List Bool} {us vs : List Text} {d e : Debt} {marks : List (Token × Bool)}

theorem Stacked.append (h : Stacked w opened done opened' done' flags us d)
    (hns : Node.Indented w d ns ns' vs e) :
    Stacked w opened (ns.reverse ++ done) opened' (ns'.reverse ++ done') flags (us ++ vs) e := by
  cases h with
  | bottom hdone =>
    refine .bottom ?_
    rw [List.reverse_append, List.reverse_append, List.reverse_reverse, List.reverse_reverse]
    exact hdone.append hns
  | block hbefore hname hinverted hdone =>
    rw [List.append_assoc]
    refine .block hbefore hname hinverted ?_
    rw [List.reverse_append, List.reverse_append, List.reverse_reverse, List.reverse_reverse]
    exact hdone.append hns

theorem exists_of_nestFrom_closing {t : Token} (hkind : t.kind = .closing)
    (h : nestFrom opened done (t :: ts) = .ok ns) :
    ∃ b rest body, opened = b :: rest ∧ t.content = b.tag.content ∧
      nestFrom rest (.block b.tag.content b.inverted done.reverse body b.tag.pos :: b.before) ts =
        .ok ns := by
  cases opened with
  | nil =>
    rw [nestFrom_closing_nil hkind] at h
    cases h
  | cons b rest =>
    by_cases hname : t.content = b.tag.content
    · cases hbody : b.tag.textUpTo? t.pos.offset with
      | some body => exact ⟨b, rest, body, rfl, hname, nestFrom_closing hkind hname hbody ▸ h⟩
      | none =>
        rw [nestFrom.eq_def] at h
        simp only [hkind, if_pos hname, hbody] at h
        cases h
    · rw [nestFrom_mismatched hkind hname] at h
      cases h

theorem nestFrom_of_opening {t : Token} {inverted : Bool} (hkind : t.kind = .opening inverted)
    (h : nestFrom opened done (t :: ts) = .ok ns) :
    nestFrom (⟨t, inverted, done⟩ :: opened) [] ts = .ok ns := by
  rw [nestFrom_opening hkind] at h
  split at h
  · cases h
  · exact h

/-- The nodes of both templates, when both can be nested. -/
theorem indented_of_nestFrom (hsettled : Settled w d ts ts' marks e)
    (hstacked : Stacked w opened done opened' done' flags us d)
    (h : nestFrom opened done ts = .ok ns) (h' : nestFrom opened' done' ts' = .ok ns') :
    Node.Indented w .fresh ns ns' (us ++ unsteadyFrom flags marks) e := by
  induction hsettled generalizing opened done opened' done' flags us with
  | nil =>
    cases hstacked with
    | bottom hdone =>
      cases h
      cases h'
      rwa [unsteadyFrom, List.append_nil]
    | block => cases h
  | text hkind hkind' hcontent _ ih =>
    rw [nestFrom_leaf (mark?_of_text hkind)] at h
    rw [nestFrom_leaf (mark?_of_text hkind'), hcontent] at h'
    have hadd := ih (hstacked.append .text) h h'
    rwa [List.append_nil] at hadd
  | hang hkind hkind' hafter hcontent _ ih =>
    rw [nestFrom_leaf (mark?_of_text hkind)] at h
    rw [nestFrom_leaf (mark?_of_text hkind'), hcontent] at h'
    have hadd := ih (hstacked.append (.hang hafter)) h h'
    rwa [List.append_nil] at hadd
  | lead hkind' hcontent _ ih =>
    rw [nestFrom_leaf (mark?_of_text hkind'), hcontent] at h'
    have hadd := ih (hstacked.append .lead) h h'
    rwa [List.append_nil] at hadd
  | @leaf d e t t' ts ts' marks hsame hkind hd _ ih =>
    rcases hkind with hkind | hkind | hkind
    · rw [nestFrom_leaf (mark?_of_escaped hkind)] at h
      rw [nestFrom_leaf (mark?_of_escaped (hsame.kind_eq.trans hkind)), hsame.content_eq] at h'
      have hadd := ih (hstacked.append (.value hd)) h h'
      rwa [List.append_nil] at hadd
    · rw [nestFrom_leaf (mark?_of_raw hkind)] at h
      rw [nestFrom_leaf (mark?_of_raw (hsame.kind_eq.trans hkind)), hsame.content_eq] at h'
      have hadd := ih (hstacked.append (.value hd)) h h'
      rwa [List.append_nil] at hadd
    · rw [nestFrom_leaf (mark?_of_inclusion hkind), hsame.indent_eq] at h
      rw [nestFrom_leaf (mark?_of_inclusion (hsame.kind_eq.trans hkind)), hsame.content_eq,
        hsame.indent_eq'] at h'
      have hadd := ih (hstacked.append (.inclusion hd)) h h'
      rwa [List.append_nil] at hadd
  | line hkind hkind' hcontent hindent hindent' _ ih =>
    rw [nestFrom_leaf (mark?_of_inclusion hkind), hindent] at h
    rw [nestFrom_leaf (mark?_of_inclusion hkind'), hcontent, hindent'] at h'
    have hadd := ih (hstacked.append .line) h h'
    rwa [List.append_nil] at hadd
  | @mark d e t t' ts ts' marks hsame hkind _ ih =>
    rcases hkind with ⟨inverted, hkind⟩ | hkind
    · have hkind' := hsame.kind_eq.trans hkind
      have hopen : Stacked w (⟨t, inverted, done⟩ :: opened) [] (⟨t', inverted, done'⟩ :: opened') []
          ((d == .owed) :: flags) (us ++ []) d :=
        .block hstacked hsame.content_eq rfl .nil
      have hadd := ih hopen (nestFrom_of_opening hkind h) (nestFrom_of_opening hkind' h')
      rwa [List.append_nil, ← unsteadyFrom_opening hkind] at hadd
    · have hkind' := hsame.kind_eq.trans hkind
      obtain ⟨b, rest, body, rfl, hname, hrest⟩ := exists_of_nestFrom_closing hkind h
      obtain ⟨b', rest', body', rfl, -, hrest'⟩ := exists_of_nestFrom_closing hkind' h'
      cases hstacked with
      | @block _ _ _ _ _ _ flags us vs d₀ _ hbefore hsection hinverted hdone =>
        rw [hsection, hinverted] at hrest'
        have hadd := ih (hbefore.append (.block hdone)) hrest hrest'
        rw [unsteadyFrom_closing hkind, hname]
        split
        · next heq => simpa [heq] using hadd
        · next hne => simpa [hne] using hadd

/-! ### The indented template parses -/

open Sections in
/-- The section tags of an indented template open and close as before. -/
theorem reads_of_spread {fresh : Bool} {open₁ open₂ : List Token} (h : Spread w fresh ts ts')
    (hnames : open₂.map (·.content) = open₁.map (·.content)) (hreads : Reads open₁ ts []) :
    Reads open₂ ts' [] := by
  induction h generalizing open₁ open₂ with
  | nil =>
    cases hreads
    rw [List.map_nil, List.map_eq_nil_iff] at hnames
    subst hnames
    exact .nil
  | @run _ t t' _ _ hkind hkind' _ _ _ _ ih =>
    obtain _ | ⟨hstep, hreads⟩ := hreads
    have hstep' : Step open₂ t' open₂ := .other (by simp [hkind']) (by simp [hkind'])
    cases hstep with
    | other => exact .cons hstep' (ih hnames hreads)
    | opening hopening => simp [hkind] at hopening
    | closing hclosing => simp [hkind] at hclosing
  | lead _ hkind' _ _ ih =>
    exact .cons (.other (by simp [hkind']) (by simp [hkind'])) (ih hnames hreads)
  | tag hsame _ ih =>
    obtain _ | ⟨hstep, hreads⟩ := hreads
    cases hstep with
    | other hopening hclosing =>
      rw [← hsame.kind_eq] at hopening hclosing
      exact .cons (.other hopening hclosing) (ih hnames hreads)
    | opening hkind hlt =>
      have hlength : open₂.length = open₁.length := by
        simpa using congrArg List.length hnames
      refine .cons (.opening (hsame.kind_eq.trans hkind) (hlength ▸ hlt)) (ih ?_ hreads)
      rw [List.map_cons, List.map_cons, hnames, hsame.content_eq]
    | closing hkind hname =>
      obtain ⟨b, rest, rfl, hb, hrest⟩ := List.map_eq_cons_iff.1 hnames
      refine .cons (.closing (hsame.kind_eq.trans hkind) ?_) (ih hrest hreads)
      rw [hsame.content_eq, hb, hname]

/-- An indented template parses, and its nodes are the template's with indents in their texts. -/
theorem parse_indented (hw : w.all Text.isLineBlank) (hw' : w ≠ []) {source : Text}
    {template : Template} {tokens : List Token} (hscan : scan source = .ok tokens)
    (hparse : parse source = .ok template) (hplain : ∀ t ∈ tokens, t.Plain) :
    ∃ template' e, parse (source.indented w) = .ok template' ∧
      Node.Indented w .fresh template.nodes template'.nodes (unsteadyFrom [] (leaders tokens).1) e ∧
      (leaders tokens).2 = (e == .owed) := by
  obtain ⟨tokens, hscan', hnest⟩ := exists_of_parse hparse
  rw [hscan] at hscan'
  cases hscan'
  obtain ⟨tokens', hscan', hspread⟩ := spread_of_scanFrom hw hw' rfl hscan hplain true .start
  rw [← Text.indented_eq_indentText] at hscan'
  replace hscan' : scan (source.indented w) = .ok tokens' := hscan'
  obtain ⟨e, hsettled, he⟩ := settled_of_spread hw hw' hspread
  have hagrees := Sections.agrees_nest hscan
  rw [hnest] at hagrees
  have hreads := reads_of_spread hspread rfl hagrees
  have hagrees' := Sections.agrees_nest hscan'
  cases hnest' : nest (settle tokens') with
  | error fault =>
    rw [hnest'] at hagrees'
    exact absurd hreads hagrees'.not_reads
  | ok nodes' =>
    have hparse' : parse (source.indented w) = .ok { nodes := nodes' } := by
      simp [parse, hscan', hnest']
    exact ⟨_, e, hparse', indented_of_nestFrom hsettled (.bottom .nil) hnest hnest', he⟩

end Template

end Mustache
