import Mustache.Proofs.Text.Cut
import Mustache.Token.Scan

/-!
# Scanning by byte offsets

A reader that keeps the template as it is and moves a position through it. All that it sees of the
template is cut out between byte offsets, so each step has a condition: the offsets are in order,
they lie in the template, and they are not inside a character. A `Reading` has no answer when such a
condition fails. The scan by offsets always has an answer, and it is that of `Token.scan`
(`Offset.scan_eq`).
-/

namespace Mustache

/-- A computation that ends in a result or in a fault of the template, or has no answer because it
reaches for something that is not there. -/
abbrev Reading := ExceptT ParseError Option

namespace Reading

variable {α β : Type}

/-- The reading that comes to this end. -/
def answer (x : Except ParseError α) : Reading α := ExceptT.mk (some x)

theorem answer_inj {x y : Except ParseError α} : answer x = answer y ↔ x = y :=
  ⟨Option.some.inj, congrArg answer⟩

theorem answer_ok_bind (a : α) (f : α → Reading β) : answer (.ok a) >>= f = f a := rfl

theorem lift_some_bind (a : α) (f : α → Reading β) : liftM (some a) >>= f = f a := rfl

end Reading

/-- A text run or a tag, with the byte offsets between which it stands. -/
structure Spanned where
  kind : Token.Kind
  content : Text
  pos : Position
  start : Nat
  stop : Nat
  indent : Option Text := none
deriving DecidableEq, Repr

/-- The token without the text that it takes up and the text behind it. -/
def Token.spanned (t : Token) : Spanned := ⟨t.kind, t.content, t.pos, t.pos.offset, t.stop, t.indent⟩

@[simp] theorem Token.spanned_kind (t : Token) : t.spanned.kind = t.kind := rfl

@[simp] theorem Token.spanned_content (t : Token) : t.spanned.content = t.content := rfl

namespace Offset

open Text (find?)
open Token (Kind)
open Reading (answer)

/-- The position `n` bytes further, but not past the end. -/
def advance? (source : Text) (pos : Position) (n : Nat) : Option Position := do
  let stop := min (pos.offset + n) source.byteLength
  let passed ← source.cut? pos.offset stop
  return { pos.advance passed with offset := stop }

/-- Reads a text run, up to the next opening delimiter or to the end. -/
def readRun (source : Text) (d : Delimiters) (pos : Position) : Option (Spanned × Position) := do
  let rest ← source.dropBytes? pos.offset
  let next ← advance? source pos ((find? d.opening rest).getD rest.byteLength)
  let run ← source.cut? pos.offset next.offset
  return (⟨.text, run, pos, pos.offset, next.offset, none⟩, next)

/-- Reads the front of a tag behind its opening delimiter: the kind, what stands in front of the
closing delimiter, and the place of the content. A character that chooses a kind is one byte. -/
def readHead (source : Text) (pos : Position) : Option (Kind × Text × Position) := do
  let body ← source.dropBytes? pos.offset
  match body.head?.bind Kind.ofSigil? with
  | some (kind, guard) =>
    let next ← advance? source pos 1
    return (kind, guard, next)
  | none => return (.escaped, [], pos)

/-- Reads the content of a tag and goes past its closing mark, if there is one. -/
def readContent (source closing : Text) (pos : Position) : Option (Option (Text × Position)) := do
  let rest ← source.dropBytes? pos.offset
  match find? closing rest with
  | none => return none
  | some n =>
    let content ← source.cut? pos.offset (pos.offset + n)
    let next ← advance? source pos (n + closing.byteLength)
    return some (content, next)

/-- Reads a tag. -/
def readTag (source : Text) (d : Delimiters) (pos : Position) :
    Reading (Spanned × Delimiters × Position) := do
  let head ← advance? source pos d.opening.byteLength
  let (kind, guard, inside) ← readHead source head
  match ← readContent source (guard ++ d.closing) inside with
  | none => throw ⟨.unclosedTag, pos⟩
  | some (content, next) =>
    match Token.judge d kind content with
    | .error cause => throw ⟨cause, pos⟩
    | .ok (name, d') => return (⟨kind, name, pos, pos.offset, next.offset, none⟩, d', next)

/-- Reads the next token: a tag where the opening delimiter stands, and a text run elsewhere. -/
def readToken (source : Text) (d : Delimiters) (pos : Position) :
    Reading (Spanned × Delimiters × Position) := do
  let rest ← source.dropBytes? pos.offset
  if (Text.dropPrefix? d.opening rest).isSome then
    readTag source d pos
  else
    let (run, next) ← readRun source d pos
    return (run, d, next)

/-- Reads all tokens. A token that takes up nothing would be read for ever. -/
def scanFrom (source : Text) (d : Delimiters) (pos : Position) : Reading (List Spanned) :=
  if pos.offset < source.byteLength then do
    let (t, d', next) ← readToken source d pos
    if _ : pos.offset < next.offset then
      let ts ← scanFrom source d' next
      return t :: ts
    else liftM (none : Option (List Spanned))
  else return []
termination_by source.byteLength - pos.offset

/-- Splits a template into its tokens. -/
def scan (source : Text) : Reading (List Spanned) := scanFrom source .braces .start

/-! ### One token -/

theorem utf8Size_of_ofSigil? {c : Char} {kind : Kind} {guard : Text}
    (h : Kind.ofSigil? c = some (kind, guard)) : c.utf8Size = 1 := by
  unfold Kind.ofSigil? at h
  split at h <;> first | rfl | cases h

section
variable {front : Text} {pos : Position} (hpos : pos.offset = front.byteLength)
include hpos

theorem offset_advance_eq (run : Text) : (pos.advance run).offset = (front ++ run).byteLength := by
  rw [Position.offset_advance, Text.byteLength_append, hpos]

theorem advance?_eq (run back : Text) :
    advance? (front ++ (run ++ back)) pos run.byteLength = some (pos.advance run) := by
  have hstop : min (front.byteLength + run.byteLength) (front ++ (run ++ back)).byteLength =
      (front ++ run).byteLength := by
    simp only [Text.byteLength_append]
    omega
  simp only [advance?, hpos, hstop, Text.cut?_append, Option.bind_eq_bind, Option.bind_some]
  rw [← offset_advance_eq hpos run]
  rfl

theorem readRun_eq (d : Delimiters) (rest : Text) :
    readRun (front ++ rest) d pos =
      some (Token.spanned ⟨.text, (Text.spanUntil d.opening rest).1,
        (Text.spanUntil d.opening rest).1, pos, (Text.spanUntil d.opening rest).2, none⟩,
        pos.advance (Text.spanUntil d.opening rest).1) := by
  have hrest := Text.spanUntil_append d.opening rest
  generalize hrun : (Text.spanUntil d.opening rest).1 = run at hrest ⊢
  generalize (Text.spanUntil d.opening rest).2 = back at hrest ⊢
  have hnext : advance? (front ++ rest) pos ((find? d.opening rest).getD rest.byteLength) =
      some (pos.advance run) := by
    rw [Text.getD_find?, hrun, ← hrest, advance?_eq hpos]
  have hcut : (front ++ rest).cut? pos.offset (pos.advance run).offset = some run := by
    rw [hpos, offset_advance_eq hpos, ← hrest, Text.cut?_append]
  simp only [readRun, hpos, Text.dropBytes?_append, Option.bind_eq_bind, Option.bind_some, hnext]
  rw [← hpos, hcut, Option.bind_some, Position.offset_advance]
  rfl

theorem readHead_eq (rest : Text) :
    readHead (front ++ rest) pos =
      some ((Token.Head.read rest).1.kind, (Token.Head.read rest).1.guard,
        pos.advance (Token.Head.read rest).1.sigil) := by
  simp only [readHead, hpos, Text.dropBytes?_append, Option.bind_eq_bind, Option.bind_some]
  cases rest with
  | nil => rfl
  | cons c s =>
    simp only [List.head?_cons, Option.bind_some, Token.Head.read]
    cases hsigil : Kind.ofSigil? c with
    | none => rfl
    | some choice =>
      have hone : Text.byteLength [c] = 1 := utf8Size_of_ofSigil? hsigil
      have hnext := advance?_eq hpos [c] s
      rw [hone, List.singleton_append] at hnext
      simp only [hnext, Option.bind_some]
      rfl

theorem readContent_eq (closing rest : Text) :
    readContent (front ++ rest) closing pos =
      some ((Text.cutAt? closing rest).map fun parts =>
        (parts.1, pos.advance (parts.1 ++ closing))) := by
  rw [readContent, hpos, Text.dropBytes?_append, Option.bind_eq_bind, Option.bind_some, find?]
  cases hcut : Text.cutAt? closing rest with
  | none => rfl
  | some parts =>
    obtain ⟨content, back⟩ := parts
    have hrest := Text.cutAt?_eq_some hcut
    have hcontent : (front ++ rest).cut? front.byteLength (front.byteLength + content.byteLength) =
        some content := by
      rw [← hrest, List.append_assoc, ← Text.byteLength_append, Text.cut?_append]
    have hnext : advance? (front ++ rest) pos (content.byteLength + closing.byteLength) =
        some (pos.advance (content ++ closing)) := by
      rw [← hrest, ← Text.byteLength_append, advance?_eq hpos]
    simp only [Option.map_some, hcontent, hnext, Option.bind_eq_bind, Option.bind_some]
    rfl

end

/-- A tag is read as `Token.scanTag` reads it, and the position moves over its lexeme. -/
theorem readTag_eq {front body : Text} {pos : Position} (hpos : pos.offset = front.byteLength)
    (d : Delimiters) :
    readTag (front ++ (d.opening ++ body)) d pos =
      answer ((Token.scanTag d pos body).map fun result =>
        (result.1.spanned, result.2.1, pos.advance result.1.lexeme)) := by
  have hread := Token.Head.read_append body
  have hhead := offset_advance_eq hpos d.opening
  have hfront := readHead_eq hhead body
  have hadvance := advance?_eq hpos d.opening body
  rw [Token.scanTag]
  generalize Token.Head.read body = read at hread hfront ⊢
  obtain ⟨⟨kind, sigil, guard⟩, rest⟩ := read
  obtain rfl : sigil ++ rest = body := hread
  have hcontent := readContent_eq (offset_advance_eq hhead sigil) (guard ++ d.closing) rest
  simp only [List.append_assoc] at hfront hcontent
  rw [readTag, hadvance, Reading.lift_some_bind, hfront, Reading.lift_some_bind]
  dsimp only
  rw [hcontent, Reading.lift_some_bind]
  cases Text.cutAt? (guard ++ d.closing) rest with
  | none => rfl
  | some parts =>
    dsimp only [Option.map_some]
    cases Token.judge d kind parts.1 with
    | error cause => rfl
    | ok judged =>
      have hnext : ((pos.advance d.opening).advance sigil).advance
          (parts.1 ++ (guard ++ d.closing)) =
          pos.advance (d.opening ++ (sigil ++ (parts.1 ++ (guard ++ d.closing)))) := by
        simp only [Position.advance_append]
      rw [hnext, Position.offset_advance]
      rfl

theorem readToken_of_none {front rest : Text} {pos : Position} {d : Delimiters}
    (hpos : pos.offset = front.byteLength) (h : Text.dropPrefix? d.opening rest = none) :
    readToken (front ++ rest) d pos =
      answer (.ok (Token.spanned ⟨.text, (Text.spanUntil d.opening rest).1,
        (Text.spanUntil d.opening rest).1, pos, (Text.spanUntil d.opening rest).2, none⟩,
        d, pos.advance (Text.spanUntil d.opening rest).1)) := by
  rw [readToken, hpos, Text.dropBytes?_append, Reading.lift_some_bind, h, readRun_eq hpos]
  rfl

theorem readToken_of_some {front rest body : Text} {pos : Position} {d : Delimiters}
    (hpos : pos.offset = front.byteLength) (h : Text.dropPrefix? d.opening rest = some body) :
    readToken (front ++ rest) d pos =
      answer ((Token.scanTag d pos body).map fun result =>
        (result.1.spanned, result.2.1, pos.advance result.1.lexeme)) := by
  rw [readToken, hpos, Text.dropBytes?_append, Reading.lift_some_bind, h,
    ← Text.dropPrefix?_eq_some_iff.1 h, ← readTag_eq hpos]
  rfl

/-! ### All tokens -/

theorem lexeme_ne_nil_of_scanTag {d d' : Delimiters} {pos : Position} {body rest : Text} {t : Token}
    (h : Token.scanTag d pos body = .ok (t, d', rest)) : t.lexeme ≠ [] := by
  have hlexeme := congrArg List.length (Token.lexeme_append_of_scanTag h)
  have hrest := Token.length_le_of_scanTag h
  have hopening := List.length_pos_iff.2 d.opening_ne_nil
  rw [List.length_append, List.length_append] at hlexeme
  apply List.ne_nil_of_length_pos
  omega

/-- A token that takes up some of the template is followed by the tokens behind it. -/
theorem scanFrom_of_readToken {source front behind : Text} {d d' : Delimiters} {pos : Position}
    {t : Token} {ts : Except ParseError (List Token)} (hpos : pos.offset = front.byteLength)
    (hsource : source = front ++ (t.lexeme ++ behind)) (hne : t.lexeme ≠ [])
    (htoken : readToken source d pos = answer (.ok (t.spanned, d', pos.advance t.lexeme)))
    (hbehind : scanFrom (front ++ t.lexeme ++ behind) d' (pos.advance t.lexeme) =
      answer (ts.map (·.map Token.spanned))) :
    scanFrom source d pos = answer ((ts.map (t :: ·)).map (·.map Token.spanned)) := by
  have hlength : 0 < t.lexeme.byteLength := by
    obtain ⟨c, s, hc⟩ := List.exists_cons_of_ne_nil hne
    have := c.utf8Size_pos
    rw [hc, Text.byteLength_cons]
    omega
  have hlt : pos.offset < source.byteLength := by
    simp only [hsource, Text.byteLength_append]
    omega
  have hlater : pos.offset < (pos.advance t.lexeme).offset := by
    rw [Position.offset_advance]
    omega
  rw [List.append_assoc, ← hsource] at hbehind
  rw [scanFrom, if_pos hlt, htoken, Reading.answer_ok_bind]
  dsimp only
  rw [dif_pos hlater, hbehind]
  cases ts <;> rfl

theorem scanFrom_eq {front rest : Text} {d : Delimiters} {pos : Position}
    (hpos : pos.offset = front.byteLength) :
    scanFrom (front ++ rest) d pos =
      answer ((Token.scanFrom d pos rest).map (·.map Token.spanned)) := by
  fun_induction Token.scanFrom d pos rest generalizing front with
  | case1 d pos =>
    rw [scanFrom, if_neg (by rw [List.append_nil, hpos]; omega)]
    rfl
  | case2 d pos c s hnone run =>
    rename_i ih
    have hsource : front ++ c :: s = front ++ (run.1 ++ run.2) := by
      rw [Text.spanUntil_append d.opening (c :: s)]
    exact scanFrom_of_readToken (t := ⟨.text, run.1, run.1, pos, run.2, none⟩) hpos hsource
      (Text.spanUntil_fst_ne_nil hnone) (readToken_of_none hpos hnone)
      (ih (offset_advance_eq hpos run.1))
  | case3 d pos c s body hopening e hscan =>
    have hlt : pos.offset < (front ++ c :: s).byteLength := by
      have := c.utf8Size_pos
      simp only [Text.byteLength_append, Text.byteLength_cons]
      omega
    rw [scanFrom, if_pos hlt, readToken_of_some hpos hopening, hscan]
    rfl
  | case4 d pos c s body hopening t d' rest hscan ih =>
    have hlexeme := Token.lexeme_append_of_scanTag hscan
    rw [Text.dropPrefix?_eq_some_iff.1 hopening] at hlexeme
    have htoken := readToken_of_some hpos hopening
    rw [hscan] at htoken
    exact scanFrom_of_readToken hpos (by rw [hlexeme]) (lexeme_ne_nil_of_scanTag hscan) htoken
      (ih (offset_advance_eq hpos t.lexeme))

/-- The scan by offsets always has an answer. -/
theorem scan_eq (source : Text) :
    scan source = answer ((Token.scan source).map (·.map Token.spanned)) := by
  have hstart : Position.start.offset = Text.byteLength [] := rfl
  exact scanFrom_eq hstart

end Offset

end Mustache
