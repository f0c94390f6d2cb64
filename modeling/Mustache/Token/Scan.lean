import Mustache.Delimiters
import Mustache.ParseError
import Mustache.Token

/-!
# Tokens of a template

`Token.scan` splits a template at its tags. A tag reaches from the opening delimiter in force to
the first occurrence of its closing mark; a text run reaches up to the next opening delimiter. The
lexemes of the tokens, one after the other, are the template.
-/

namespace Mustache.Token

/-! ## Tags -/

/-- What the character behind the opening delimiter makes of a tag: its kind, and the character
that stands in front of the closing delimiter for symmetry. -/
def Kind.ofSigil? : Char → Option (Kind × Text)
  | '{' => some (.raw, ['}'])
  | '&' => some (.raw, [])
  | '#' => some (.opening false, [])
  | '^' => some (.opening true, [])
  | '/' => some (.closing, [])
  | '>' => some (.inclusion, [])
  | '!' => some (.comment, [])
  | '=' => some (.delimiters, ['='])
  | _ => none

/-- The front of a tag behind its opening delimiter. -/
structure Head where
  kind : Kind
  /-- The character that chose the kind, if one did. -/
  sigil : Text
  /-- What stands in front of the closing delimiter. -/
  guard : Text

/-- Reads the front of a tag. -/
def Head.read : Text → Head × Text
  | [] => (⟨.escaped, [], []⟩, [])
  | c :: s =>
    match Kind.ofSigil? c with
    | some (kind, guard) => (⟨kind, [c], guard⟩, s)
    | none => (⟨.escaped, [], []⟩, c :: s)

@[simp] theorem Head.read_append (s : Text) : (Head.read s).1.sigil ++ (Head.read s).2 = s := by
  cases s with
  | nil => rfl
  | cons c s => rw [read]; cases Kind.ofSigil? c <;> rfl

/-- The kind, the content and the delimiters from there on of a tag. A comment holds whatever is
between its marks; all other tags hold what is left without white space around it. -/
def judge (d : Delimiters) (kind : Kind) (content : Text) :
    Except ParseError.Cause (Text × Delimiters) :=
  match kind with
  | .comment => .ok (content, d)
  | .delimiters =>
    match Delimiters.ofContent? content with
    | some d' => .ok (content.trim, d')
    | none => .error (.invalidDelimiters content.trim)
  | _ => if content.trim.isEmpty then .error .emptyTagName else .ok (content.trim, d)

/-- Reads a tag, given what follows its opening delimiter. The answer is the tag, the delimiters in
force after it and the rest of the template. -/
def scanTag (d : Delimiters) (pos : Position) (body : Text) :
    Except ParseError (Token × Delimiters × Text) :=
  let head := (Head.read body).1
  match Text.cutAt? (head.guard ++ d.closing) (Head.read body).2 with
  | none => .error ⟨.unclosedTag, pos⟩
  | some (content, rest) =>
    match judge d head.kind content with
    | .error cause => .error ⟨cause, pos⟩
    | .ok (name, d') =>
      let lexeme := d.opening ++ (head.sigil ++ (content ++ (head.guard ++ d.closing)))
      .ok (⟨head.kind, name, lexeme, pos, rest, none⟩, d', rest)

theorem lexeme_append_of_scanTag {d d' : Delimiters} {pos : Position} {body rest : Text}
    {t : Token} (h : scanTag d pos body = .ok (t, d', rest)) :
    t.lexeme ++ rest = d.opening ++ body := by
  unfold scanTag at h
  dsimp only at h
  split at h
  · cases h
  · next content rest' hcut =>
    split at h
    · cases h
    · cases h
      have hcut := Text.cutAt?_eq_some hcut
      simp only [List.append_assoc] at hcut ⊢
      rw [hcut, Head.read_append]

theorem length_le_of_scanTag {d d' : Delimiters} {pos : Position} {body rest : Text} {t : Token}
    (h : scanTag d pos body = .ok (t, d', rest)) : rest.length ≤ body.length := by
  unfold scanTag at h
  dsimp only at h
  split at h
  · cases h
  · next content rest' hcut =>
    split at h
    · cases h
    · cases h
      have hcut := congrArg List.length (Text.cutAt?_eq_some hcut)
      have hread := congrArg List.length (Head.read_append body)
      simp only [List.length_append] at hcut hread
      omega

/-! ## Templates -/

/-- Splits a template into its tokens, or finds the first tag that is not well formed. -/
def scanFrom (d : Delimiters) (pos : Position) (source : Text) : Except ParseError (List Token) :=
  match source with
  | [] => .ok []
  | c :: s =>
    match _ : Text.dropPrefix? d.opening (c :: s) with
    | none =>
      let run := Text.spanUntil d.opening (c :: s)
      (scanFrom d (pos.advance run.1) run.2).map (⟨.text, run.1, run.1, pos, run.2, none⟩ :: ·)
    | some body =>
      match _ : scanTag d pos body with
      | .error e => .error e
      | .ok (t, d', rest) => (scanFrom d' (pos.advance t.lexeme) rest).map (t :: ·)
termination_by source.length
decreasing_by
  · exact Text.length_spanUntil_lt (by assumption)
  · have hopening := congrArg List.length
      (Text.dropPrefix?_eq_some_iff.1 (by assumption : Text.dropPrefix? d.opening _ = some body))
    have hpos := List.length_pos_iff.2 d.opening_ne_nil
    have hrest := length_le_of_scanTag (by assumption : scanTag d pos body = _)
    rw [List.length_append] at hopening
    omega

/-- Splits a template into its tokens. -/
def scan (source : Text) : Except ParseError (List Token) := scanFrom .braces .start source

end Mustache.Token
