import Mustache.Proofs.Offset.Nest

/-!
# Reading by byte offsets

`Offset.parse` reads a template the way a program with a position in it does. It scans the template
with byte offsets, settles the lines of its tags by the index of their tokens, and nests what is left
by recursive descent. It has no answer when it cuts a text where it cannot be cut, takes a token that
is not there, or takes more from a number than it is. None of this ever happens, and the answer is
that of `Template.parse` (`Offset.parse_eq_answer_and_cause_ne`), so the descent, too, takes the
sections that are balanced (`Offset.parse_eq_answer_ok_iff_and_parse_eq_answer_error_iff`).
-/

namespace Mustache

namespace Offset

open Reading (answer)
open Token (Tiled)

/-- Reads a template. -/
def parse (source : Text) : Reading Template := do
  let tokens ← scan source
  let tokens ← settle? tokens
  let nodes ← nest source tokens
  return { nodes }

variable {source front rest : Text} {ts : List Token}

theorem knows_of_tiled (h : Tiled front ts rest) : Knows (front ++ rest) ts := by
  induction h with
  | nil => nofun
  | @run front t ts rest _ _ _ _ _ hpos hbehind _ _ ih | @tag front t ts rest _ _ _ hpos hbehind _ _ ih =>
    intro u hu
    rcases List.mem_cons.1 hu with rfl | hu
    · have hlies : Token.Lies (front ++ (u.lexeme ++ rest)) front u rest := ⟨rfl, hpos⟩
      rw [hlies.stop_eq, hbehind, ← List.append_assoc, Text.dropBytes?_append]
    · rw [← List.append_assoc]
      exact ih u hu

/-- Settling keeps where the tokens stand. -/
theorem knows_settle (h : Knows source ts) : Knows source (Token.settle ts) := by
  intro u hu
  obtain ⟨before, after, hsettle⟩ := List.append_of_mem hu
  have hleaves := Token.leaves_settleFrom (some []) false ts
  rw [← Token.settle, hsettle] at hleaves
  obtain ⟨_, t, _, hts, -, hcut, -⟩ := hleaves.exists_of_append
  have ht := h t (by rw [hts]; simp)
  rwa [Token.stop, hcut.pos_eq, hcut.lexeme_eq, hcut.behind_eq]

/-! ### Faults -/

/-- A fault that a template can have, rather than one of the reader. -/
def IsFault (cause : ParseError.Cause) : Prop :=
  (∀ content, cause ≠ .unexpectedToken content) ∧ ∀ start stop, cause ≠ .brokenSpan start stop

theorem isFault_of_scan {e : ParseError} (h : Token.scan source = .error e) : IsFault e.cause := by
  obtain ⟨_, _, _, _, _, hfails, _⟩ := Token.firstFault_of_scan h
  generalize e.cause = cause at hfails ⊢
  cases hfails with
  | unclosed => exact ⟨nofun, nofun⟩
  | @rejected head _ _ _ _ _ _ hrejects =>
    generalize head.kind = kind at hrejects
    cases hrejects <;> exact ⟨nofun, nofun⟩

theorem isFault_of_fault {opened : List Token} {e : ParseError} (h : Sections.Fault opened ts e) :
    IsFault e.cause := by
  induction h with
  | here hviolates => cases hviolates <;> exact ⟨nofun, nofun⟩
  | later _ _ ih => exact ih
  | unclosed => exact ⟨nofun, nofun⟩

/-- Nesting the tokens of a template shows none of the faults of a reader. -/
theorem isFault_of_nest {e : ParseError} (hscan : Token.scan source = .ok ts)
    (h : Template.nest (Token.settle ts) = .error e) : IsFault e.cause :=
  isFault_of_fault (((Sections.agrees_nest hscan).eq_error_iff e).1 h)

theorem isFault_of_parse {e : ParseError} (h : Template.parse source = .error e) :
    IsFault e.cause := by
  cases hscan : Token.scan source with
  | error e' =>
    rw [Template.parse_of_scan_eq_error hscan] at h
    cases h
    exact isFault_of_scan hscan
  | ok ts => exact isFault_of_fault ((Template.parse_eq_error_iff hscan e).1 h)

/-! ### The answer -/

theorem parse_of_scan (hscan : Token.scan source = .ok ts) :
    parse source = nest source ((Token.settle ts).map Token.spanned) >>= fun nodes =>
      return { nodes } := by
  rw [parse, scan_eq, hscan]
  change (liftM (settle? (ts.map Token.spanned)) : Reading _) >>= _ = _
  rw [settle?_eq (Token.tiled_of_scan hscan), Reading.lift_some_bind]

/-- The nodes of a template are the ones of its tokens, read at their places. -/
theorem nest_settle (hscan : Token.scan source = .ok ts) :
    nest source ((Token.settle ts).map Token.spanned) =
      answer (Template.nest (Token.settle ts)) := by
  have hknows := knows_settle (knows_of_tiled (Token.tiled_of_scan hscan))
  have hnest := nest_eq hknows fun start stop pos h => (isFault_of_nest hscan h).2 start stop rfl
  rwa [List.nil_append] at hnest

theorem parse_eq_answer (source : Text) : parse source = answer (Template.parse source) := by
  cases hscan : Token.scan source with
  | error e =>
    rw [parse, scan_eq, hscan, Template.parse_of_scan_eq_error hscan]
    rfl
  | ok ts =>
    rw [parse_of_scan hscan, nest_settle hscan, Template.parse_of_scan_eq_ok hscan]
    cases Template.nest (Token.settle ts) <;> rfl

/-- **The descent keeps sections as a stack does,** with no more than their number at hand. The
reader by offsets has a template just when its section tags open and close in turn, never more than
128 at once, and it reports the first fault of any other. -/
theorem parse_eq_answer_ok_iff_and_parse_eq_answer_error_iff (source : Text) :
    (∀ e, Token.scan source = .error e → parse source = answer (.error e)) ∧
    ∀ tokens, Token.scan source = .ok tokens →
      ((∃ template, parse source = answer (.ok template)) ↔ Sections.Reads [] tokens []) ∧
      ∀ e, parse source = answer (.error e) ↔ Sections.Fault [] tokens e := by
  simp only [parse_eq_answer, Reading.answer_inj]
  exact ⟨fun _ h => Template.parse_of_scan_eq_error h, fun _ h =>
    ⟨Template.exists_parse_eq_ok_iff h, Template.parse_eq_error_iff h⟩⟩

/-- **Reading cannot go wrong.** Whatever the template, every cut that the reader by offsets makes
lies in its text, in order and between characters, every token that it takes is there, and no run is
cut beyond its ends: it has an answer, and that is the one of `Template.parse`. None of the faults is
one of the reader itself. -/
theorem parse_eq_answer_and_cause_ne (source : Text) :
    parse source = answer (Template.parse source) ∧
      ∀ e, Template.parse source = .error e →
        (∀ content, e.cause ≠ .unexpectedToken content) ∧
          ∀ start stop, e.cause ≠ .brokenSpan start stop :=
  ⟨parse_eq_answer source, fun _ => isFault_of_parse⟩

end Offset

end Mustache
