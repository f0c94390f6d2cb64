import Mustache.Proofs.Template.Marks
import Mustache.Proofs.Token.Margins

/-!
# Sections open and close in turn

The section tags of a template are read in its order with a stack of the sections that are open.
`Sections.Reads` is such a reading without a fault, `Sections.Fault` one up to its first fault.
`Template.parse`, which reads tokens whose lines have been settled and builds nodes as it goes,
accepts the templates without a fault and reports the first fault of any other
(`Template.parse_eq_ok_iff_and_parse_eq_error_iff`).
-/

namespace Mustache

namespace Sections

/-- A token that fits the sections that are open, the innermost one first, and the sections that
are open behind it. -/
inductive Step : List Token → Token → List Token → Prop
  | other {opened t} : (∀ inverted, t.kind ≠ .opening inverted) → t.kind ≠ .closing →
    Step opened t opened
  | opening {opened t inverted} : t.kind = .opening inverted → opened.length < 128 →
    Step opened t (t :: opened)
  | closing {b opened t} : t.kind = .closing → t.content = b.content → Step (b :: opened) t opened

/-- A token that does not fit the sections that are open, and the fault that it shows. -/
inductive Violates : List Token → Token → ParseError → Prop
  | nestingTooDeep {opened t inverted} : t.kind = .opening inverted → opened.length = 128 →
    Violates opened t ⟨.nestingTooDeep 128, t.pos⟩
  | unexpectedClose {t} : t.kind = .closing → Violates [] t ⟨.unexpectedClose t.content, t.pos⟩
  | mismatchedClose {b opened t} : t.kind = .closing → t.content ≠ b.content →
    Violates (b :: opened) t ⟨.mismatchedClose b.content t.content, t.pos⟩

/-- Every token fits. -/
inductive Reads : List Token → List Token → List Token → Prop
  | nil {opened} : Reads opened [] opened
  | cons {opened t opened' ts opened''} : Step opened t opened' → Reads opened' ts opened'' →
    Reads opened (t :: ts) opened''

/-- The first fault: every token in front of it fits. A section that is open when the tokens end
is a fault at the tag that opened it. -/
inductive Fault : List Token → List Token → ParseError → Prop
  | here {opened t ts e} : Violates opened t e → Fault opened (t :: ts) e
  | later {opened t opened' ts e} : Step opened t opened' → Fault opened' ts e →
    Fault opened (t :: ts) e
  | unclosed {b opened} : Fault (b :: opened) [] ⟨.unclosedSection b.content, b.pos⟩

/-! ### A reading takes one course -/

theorem Step.unique {opened left right : List Token} {t : Token} (h : Step opened t left)
    (h' : Step opened t right) : left = right := by
  cases h with
  | other hopening hclosing =>
    cases h' with
    | other => rfl
    | opening hkind => exact absurd hkind (hopening _)
    | closing hkind => exact absurd hkind hclosing
  | opening hkind =>
    cases h' with
    | other hopening => exact absurd hkind (hopening _)
    | opening => rfl
    | closing hclosing => simp [hkind] at hclosing
  | closing hkind =>
    cases h' with
    | other _ hclosing => exact absurd hkind hclosing
    | opening hopening => simp [hkind] at hopening
    | closing => rfl

theorem Violates.not_step {opened opened' : List Token} {t : Token} {e : ParseError}
    (h : Violates opened t e) : ¬ Step opened t opened' := by
  intro h'
  cases h with
  | nestingTooDeep hkind hlength =>
    cases h' with
    | other hopening => exact absurd hkind (hopening _)
    | opening _ hlt => omega
    | closing hclosing => simp [hkind] at hclosing
  | unexpectedClose hkind =>
    cases h' with
    | other _ hclosing => exact absurd hkind hclosing
    | opening hopening => simp [hkind] at hopening
  | mismatchedClose hkind hne =>
    cases h' with
    | other _ hclosing => exact absurd hkind hclosing
    | opening hopening => simp [hkind] at hopening
    | closing _ heq => exact hne heq

theorem Violates.unique {opened : List Token} {t : Token} {e e' : ParseError}
    (h : Violates opened t e) (h' : Violates opened t e') : e = e' := by
  cases h with
  | nestingTooDeep hkind =>
    cases h' with
    | nestingTooDeep => rfl
    | unexpectedClose hclosing | mismatchedClose hclosing => simp [hkind] at hclosing
  | unexpectedClose hkind =>
    cases h' with
    | nestingTooDeep hopening => simp [hkind] at hopening
    | unexpectedClose => rfl
  | mismatchedClose hkind =>
    cases h' with
    | nestingTooDeep hopening => simp [hkind] at hopening
    | mismatchedClose => rfl

theorem Fault.not_reads {opened ts : List Token} {e : ParseError} (h : Fault opened ts e) :
    ¬ Reads opened ts [] := by
  induction h with
  | here hviolates =>
    rintro (_ | ⟨hstep, _⟩)
    exact hviolates.not_step hstep
  | later hstep _ ih =>
    rintro (_ | ⟨hstep', hreads⟩)
    exact ih (hstep.unique hstep' ▸ hreads)
  | unclosed => nofun

theorem Fault.unique {opened ts : List Token} {e e' : ParseError} (h : Fault opened ts e)
    (h' : Fault opened ts e') : e = e' := by
  induction h with
  | here hviolates =>
    cases h' with
    | here hviolates' => exact hviolates.unique hviolates'
    | later hstep => exact absurd hstep hviolates.not_step
  | later hstep _ ih =>
    cases h' with
    | here hviolates => exact absurd hstep hviolates.not_step
    | later hstep' hfault => exact ih (hstep.unique hstep' ▸ hfault)
  | unclosed =>
    cases h'
    rfl

/-- The outcome of nesting agrees with a reading of the tokens. -/
def Agrees (opened ts : List Token) : Except ParseError (List Node) → Prop
  | .ok _ => Reads opened ts []
  | .error e => Fault opened ts e

theorem Agrees.cons {opened opened' ts : List Token} {t : Token}
    {result : Except ParseError (List Node)} (hstep : Step opened t opened')
    (h : Agrees opened' ts result) : Agrees opened (t :: ts) result := by
  cases result with
  | ok => exact Reads.cons hstep h
  | error => exact Fault.later hstep h

theorem Agrees.exists_ok_iff {ts : List Token} {result : Except ParseError (List Node)}
    (h : Agrees [] ts result) : (∃ nodes, result = .ok nodes) ↔ Reads [] ts [] := by
  cases result with
  | ok nodes => exact ⟨fun _ => h, fun _ => ⟨nodes, rfl⟩⟩
  | error e => exact ⟨nofun, fun hreads => absurd hreads h.not_reads⟩

theorem Agrees.eq_error_iff {ts : List Token} {result : Except ParseError (List Node)}
    (h : Agrees [] ts result) (e : ParseError) : result = .error e ↔ Fault [] ts e := by
  cases result with
  | ok nodes => exact ⟨nofun, fun hfault => absurd h hfault.not_reads⟩
  | error e' =>
    constructor
    · rintro ⟨⟩
      exact h
    · intro hfault
      rw [h.unique hfault]

/-! ### The text between two section tags -/

/-- An open section's tag stands in front of a place of the template. -/
def Within (front rest : Text) (b : OpenBlock) : Prop :=
  ∃ before mid, front = before ++ (b.tag.lexeme ++ mid) ∧
    b.tag.pos = Position.start.advance before ∧ b.tag.behind = mid ++ rest

theorem Within.append {front lexeme rest : Text} {b : OpenBlock}
    (h : Within front (lexeme ++ rest) b) : Within (front ++ lexeme) rest b := by
  obtain ⟨before, mid, rfl, hpos, hbehind⟩ := h
  exact ⟨before, mid ++ lexeme, by simp, hpos, by simp [hbehind]⟩

theorem within_of_tag {front rest : Text} {t : Token} (hpos : t.pos = Position.start.advance front)
    (hbehind : t.behind = rest) (inverted : Bool) (done : List Node) :
    Within (front ++ t.lexeme) rest ⟨t, inverted, done⟩ :=
  ⟨front, [], by simp, hpos, hbehind⟩

/-- The text from the tag of an open section up to a later place is there. -/
theorem Within.textUpTo?_eq_some {front rest : Text} {b : OpenBlock} {pos : Position}
    (h : Within front rest b) (hpos : pos = Position.start.advance front) :
    ∃ body, b.tag.textUpTo? pos.offset = some body := by
  obtain ⟨before, mid, rfl, hb, hbehind⟩ := h
  refine ⟨mid, ?_⟩
  rw [← Token.textUpTo?_eq_some hbehind, Token.stop, hpos, hb]
  simp only [Position.offset_advance, Text.byteLength_append]
  congr 1
  omega

/-! ### Nesting is a reading -/

open Template Token

theorem agrees_nestFrom {front rest : Text} {ts : List Token} {blocks : List OpenBlock}
    {done : List Node} {passed : Option Text} {cut : Bool} (h : Tiled front ts rest)
    (hwithin : ∀ b ∈ blocks, Within front rest b) (hlength : blocks.length ≤ 128) :
    Agrees (blocks.map (·.tag)) ts (nestFrom blocks done (settleFrom passed cut ts)) := by
  induction h generalizing blocks done passed cut with
  | nil =>
    cases blocks with
    | nil => exact .nil
    | cons b blocks => exact .unclosed
  | @run front t ts rest hkind _ _ _ _ _ _ _ _ ih =>
    have hstep : Step (blocks.map (·.tag)) t (blocks.map (·.tag)) := by
      apply Step.other <;> simp [hkind]
    have hwithin : ∀ b ∈ blocks, Within (front ++ t.lexeme) rest b :=
      fun b hb => (hwithin b hb).append
    refine .cons hstep ?_
    rw [settleFrom_text hkind, settledRun]
    split
    · exact ih hwithin hlength
    · rw [List.singleton_append, nestFrom_leaf (mark?_of_text ?_)]
      · exact ih hwithin hlength
      · exact hkind
  | @tag front t ts rest hkind _ _ hpos hbehind hindent _ ih =>
    have hwithin' : ∀ b ∈ blocks, Within (front ++ t.lexeme) rest b :=
      fun b hb => (hwithin b hb).append
    rw [settleFrom_tag hkind]
    cases htag : t.kind with
    | text => exact absurd htag hkind
    | comment | delimiters =>
      have hstep : Step (blocks.map (·.tag)) t (blocks.map (·.tag)) := by
        apply Step.other <;> simp [htag]
      rw [settledTag, if_pos (by simp [htag, Kind.isSilent])]
      exact .cons hstep (ih hwithin' hlength)
    | escaped =>
      have hstep : Step (blocks.map (·.tag)) t (blocks.map (·.tag)) := by
        apply Step.other <;> simp [htag]
      rw [settledTag_of_value (.inl htag), List.singleton_append,
        nestFrom_leaf (mark?_of_escaped htag)]
      exact .cons hstep (ih hwithin' hlength)
    | raw =>
      have hstep : Step (blocks.map (·.tag)) t (blocks.map (·.tag)) := by
        apply Step.other <;> simp [htag]
      rw [settledTag_of_value (.inr htag), List.singleton_append, nestFrom_leaf (mark?_of_raw htag)]
      exact .cons hstep (ih hwithin' hlength)
    | inclusion =>
      have hstep : Step (blocks.map (·.tag)) t (blocks.map (·.tag)) := by
        apply Step.other <;> simp [htag]
      rw [settledTag_of_inclusion htag hindent, List.singleton_append,
        nestFrom_leaf (mark?_of_inclusion ?_)]
      · exact .cons hstep (ih hwithin' hlength)
      · exact htag
    | opening inverted =>
      rw [settledTag_of_section (.inl ⟨inverted, htag⟩), List.singleton_append,
        nestFrom_opening htag]
      split
      · next hdeep => exact .here (.nestingTooDeep htag (by simpa [maxNesting] using hdeep))
      · next hdeep =>
        have hlt : blocks.length < 128 := Nat.lt_of_le_of_ne hlength hdeep
        have hstep : Step (blocks.map (·.tag)) t (t :: blocks.map (·.tag)) :=
          .opening htag (by simpa using hlt)
        have hwithin'' : ∀ b ∈ (⟨t, inverted, done⟩ :: blocks : List OpenBlock),
            Within (front ++ t.lexeme) rest b := by
          rintro b (_ | ⟨_, hb⟩)
          · exact within_of_tag hpos hbehind inverted done
          · exact hwithin' b hb
        exact .cons hstep (ih hwithin'' hlt)
    | closing =>
      rw [settledTag_of_section (.inr htag), List.singleton_append]
      cases blocks with
      | nil =>
        rw [nestFrom_closing_nil htag]
        exact .here (.unexpectedClose htag)
      | cons b blocks =>
        by_cases hname : t.content = b.tag.content
        · obtain ⟨body, hbody⟩ := (hwithin b List.mem_cons_self).textUpTo?_eq_some hpos
          rw [nestFrom_closing htag hname hbody]
          refine .cons (.closing htag hname) (ih ?_ (Nat.le_of_succ_le hlength))
          exact fun c hc => hwithin' c (List.mem_cons_of_mem _ hc)
        · rw [nestFrom_mismatched htag hname]
          exact .here (.mismatchedClose htag hname)

theorem agrees_nest {source : Text} {tokens : List Token} (h : Token.scan source = .ok tokens) :
    Agrees [] tokens (nest (settle tokens)) :=
  agrees_nestFrom (tiled_of_scan h) (fun b (hb : b ∈ []) => nomatch hb) (Nat.zero_le _)

end Sections

namespace Template

open Sections

variable {source : Text} {tokens : List Token}

theorem parse_of_scan_eq_error {e : ParseError} (h : Token.scan source = .error e) :
    parse source = .error e := by
  rw [parse, h]

theorem parse_of_scan_eq_ok (h : Token.scan source = .ok tokens) :
    parse source = (nest (Token.settle tokens)).map ({ nodes := · }) := by
  rw [parse, h]
  dsimp only
  cases nest (Token.settle tokens) <;> rfl

theorem exists_parse_eq_ok_iff (h : Token.scan source = .ok tokens) :
    (∃ template, parse source = .ok template) ↔ Reads [] tokens [] := by
  rw [← (agrees_nest h).exists_ok_iff, parse_of_scan_eq_ok h]
  cases nest (Token.settle tokens) <;> simp [Except.map]

theorem parse_eq_error_iff (h : Token.scan source = .ok tokens) (e : ParseError) :
    parse source = .error e ↔ Fault [] tokens e := by
  rw [← (agrees_nest h).eq_error_iff, parse_of_scan_eq_ok h]
  cases nest (Token.settle tokens) <;> simp [Except.map]

/-- **Sections are balanced, or the first fault is reported.** A tag that is not well formed comes
before everything else. Otherwise a template is accepted just when its section tags open and close
in turn, never more than 128 at once, and an error is the first fault of that reading. -/
theorem parse_eq_ok_iff_and_parse_eq_error_iff (source : Text) :
    (∀ e, Token.scan source = .error e → parse source = .error e) ∧
    ∀ tokens, Token.scan source = .ok tokens →
      ((∃ template, parse source = .ok template) ↔ Reads [] tokens []) ∧
      ∀ e, parse source = .error e ↔ Fault [] tokens e :=
  ⟨fun _ h => parse_of_scan_eq_error h,
    fun _ h => ⟨exists_parse_eq_ok_iff h, parse_eq_error_iff h⟩⟩

end Template

end Mustache
