import Mustache.Proofs.Template.Nests
import Mustache.Proofs.Token.Written

/-!
# Reading what was written

`Node.sourceOf` writes nodes as a template. `Template.tokensOf` is what a scan of that template
finds (`Template.scanFrom_printed`): the tags of the nodes, and between them runs in which a text
may have a line feed in front of it and blanks behind it. When these stand for the lines of
references, and no other tag has a line of its own, the walk over the tokens takes them out again
(`Template.exists_echoes`), and what is left nests into the nodes that were written
(`Template.parse_sourceOf`).
-/

namespace Mustache

namespace Node.Mark

/-- The kind and the name of the tag at a mark. -/
def tag? : Mark → Option (Token.Kind × Text)
  | .leaf (.value key raw _) => some (if raw then .raw else .escaped, key)
  | .leaf (.inclusion key _ _) => some (.inclusion, key)
  | .opening key inverted _ => some (.opening inverted, key)
  | .closing key => some (.closing, key)
  | .leaf (.text _ _) | .leaf (.block _ _ _ _ _) => none

/-- The blanks of a reference that has a line of its own. -/
def line? : Mark → Option Text
  | .leaf (.inclusion _ indent _) => indent
  | _ => none

/-- What is written behind the tag of a reference that has a line of its own. -/
def ending (m : Mark) : Text := if m.line?.isSome then ['\n'] else []

/-- What is written at a mark. -/
def source : Mark → Text
  | .leaf n => n.source
  | .opening key inverted _ => tag [if inverted then '^' else '#'] key
  | .closing key => tag ['/'] key

theorem source_eq {m : Mark} {kind : Token.Kind} {key : Text} (h : m.tag? = some (kind, key)) :
    m.source = m.line?.getD [] ++ (Token.written kind key ++ m.ending) := by
  unfold tag? at h
  split at h <;> simp only [Option.some.injEq, Prod.mk.injEq, reduceCtorEq] at h <;>
    obtain ⟨rfl, rfl⟩ := h
  · next raw pos =>
    cases raw <;>
      simp [source, Node.source, line?, ending, tag, Token.written, Token.Kind.sigil,
        Token.Kind.guard]
  · next indent pos =>
    cases indent <;>
      simp [source, Node.source, line?, ending, tag, Token.written, Token.Kind.sigil,
        Token.Kind.guard]
  · simp [source, line?, ending, tag, Token.written, Token.Kind.sigil, Token.Kind.guard]
  · simp [source, line?, ending, tag, Token.written, Token.Kind.sigil, Token.Kind.guard]

end Node.Mark

namespace Node

/-- What is written at the marks of a walk. -/
def printed (ms : List Mark) : Text := ms.flatMap Mark.source

theorem printed_cons (m : Mark) (ms : List Mark) : printed (m :: ms) = m.source ++ printed ms :=
  List.flatMap_cons

theorem printed_append (ms ms' : List Mark) : printed (ms ++ ms') = printed ms ++ printed ms' :=
  List.flatMap_append

theorem printed_marksOf (ns : List Node) : printed (marksOf ns) = sourceOf ns := by
  induction ns using sequence_induction with
  | nil => rfl
  | text content pos ns ih | value key raw pos ns ih | inclusion key indent pos ns ih =>
    rw [marksOf, printed_append, sourceOf, ih, marks]
    simp [printed, Mark.source]
  | block key inverted children source pos ns ih ih' =>
    rw [marksOf, printed_append, sourceOf, ih', marks, printed_cons, printed_append, ih,
      Node.source]
    simp [printed, Mark.source]

/-- Every mark stands as `P` asks, given what is written in front of it and the marks behind it. -/
def Along (P : Text → Mark → List Mark → Prop) (front : Text) (ms : List Mark) : Prop :=
  ∀ pre m post, ms = pre ++ m :: post → P (front ++ printed pre) m post

section
variable {P Q : Text → Mark → List Mark → Prop} {front : Text} {m : Mark} {ms : List Mark}

theorem Along.head (h : Along P front (m :: ms)) : P front m ms := by
  simpa [printed] using h [] m ms rfl

theorem Along.tail (h : Along P front (m :: ms)) : Along P (front ++ m.source) ms := by
  intro pre m' post heq
  rw [List.append_assoc, ← printed_cons]
  exact h (m :: pre) m' post (by rw [heq, List.cons_append])

theorem Along.imp (h : Along P front ms) (himp : ∀ front m post, P front m post → Q front m post) :
    Along Q front ms :=
  fun pre m post heq => himp _ m post (h pre m post heq)

theorem along_cons_iff :
    Along P front (m :: ms) ↔ P front m ms ∧ Along P (front ++ m.source) ms := by
  refine ⟨fun h => ⟨h.head, h.tail⟩, fun ⟨hm, hms⟩ pre m' post heq => ?_⟩
  cases pre with
  | nil =>
    cases heq
    simpa [printed] using hm
  | cons m'' pre =>
    cases heq
    rw [printed_cons, ← List.append_assoc]
    exact hms pre m' post rfl

instance decidableAlong [∀ front m post, Decidable (P front m post)] :
    ∀ front ms, Decidable (Along P front ms)
  | _, [] => .isTrue fun pre m post heq => by simp at heq
  | front, m :: ms =>
    have := decidableAlong (front ++ m.source) ms
    decidable_of_iff _ along_cons_iff.symm

end

end Node

namespace Template

open Node (Mark Along printed printed_cons printed_append printed_marksOf marksOf)
open Token

/-! ### The tokens of what is written -/

/-- The tokens of what is written at the marks, behind `front` and with the end `run` of a text
run in front of the first of them. -/
def tokensOf (front run : Text) : List Mark → List Token
  | [] => runFrom (Position.start.advance front) run []
  | m :: ms =>
    match m.tag? with
    | none => tokensOf front (run ++ m.source) ms
    | some (kind, key) =>
      let run := run ++ m.line?.getD []
      let rest := m.ending ++ printed ms
      runFrom (Position.start.advance front) run (written kind key ++ rest) ++
        ⟨kind, key, written kind key, Position.start.advance (front ++ run), rest, none⟩ ::
          tokensOf (front ++ run ++ written kind key) m.ending ms

/-- A mark whose text is read back: its tag has a name that can be written, or no tag begins in its
text. -/
def Legible (_front : Text) (m : Mark) (post : List Mark) : Prop :=
  match m.tag? with
  | some (kind, key) => Writable kind key ∧ (m.line?.getD []).all Text.isLineBlank
  | none => m.source.Clear (printed post)

theorem clear_ending (m : Mark) (behind : Text) : m.ending.Clear behind := by
  refine .of_not_mem ?_ _
  rw [Mark.ending]
  split <;> decide

theorem scanFrom_printed (front run : Text) {front' : Text} {ms : List Mark}
    (h : Along Legible front' ms) (hrun : run.Clear (printed ms)) :
    scanFrom .braces (Position.start.advance front) (run ++ printed ms) =
      .ok (tokensOf front run ms) := by
  induction ms generalizing front front' run with
  | nil =>
    have hscan : scanFrom .braces ((Position.start.advance front).advance run) [] = .ok [] := by
      rw [scanFrom]
    have happend := scanFrom_runFrom (hrun.spanUntil_eq (.inl rfl)) hscan
    rwa [List.append_nil] at happend
  | cons m ms ih =>
    have hm := h.head
    rw [printed_cons] at hrun ⊢
    rw [tokensOf]
    cases htag : m.tag? with
    | none =>
      have hclear : m.source.Clear (printed ms) := by simpa [Legible, htag] using hm
      rw [← List.append_assoc]
      exact ih _ _ h.tail (hrun.append hclear)
    | some tag =>
      obtain ⟨kind, key⟩ := tag
      obtain ⟨hwritable, hblank⟩ : Writable kind key ∧ (m.line?.getD []).all Text.isLineBlank := by
        simpa [Legible, htag] using hm
      have hending : m.ending.Clear (printed ms) := clear_ending m _
      rw [Mark.source_eq htag] at hrun ⊢
      simp only [List.append_assoc] at hrun ⊢
      have hspan := Text.Clear.spanUntil_eq (hrun.append (.of_blank hblank _))
        (.inr ⟨_, by rw [written, List.append_assoc]⟩)
      have hrest := ih (front ++ (run ++ m.line?.getD []) ++ written kind key) _ h.tail hending
      rw [Position.advance_append, Position.advance_append] at hrest
      have hscan := scanFrom_runFrom hspan (hwritable.scanFrom_eq hrest)
      rw [List.append_assoc] at hscan
      rw [hscan]
      simp [Position.advance_append]

/-! ### What is left of the tokens -/

/-- A mark whose lines are read back: a reference that has a line of its own is written at the start
of a line, and any other tag that is alone on its line has nothing else on that line, not even its
ending. Then a reference keeps an empty indent, which `view` does not tell from none. -/
def LaidOut (view : Option Text → Option Text) (front : Text) (m : Mark) (post : List Mark) :
    Prop :=
  match m.line? with
  | some _ => front.AtLineStart
  | none => ∀ kind key lead trail, m.tag? = some (kind, key) → kind.standsAlone →
    front.lead? = some lead → (printed post).trail? = some trail →
      lead = [] ∧ trail = [] ∧ view (some []) = view none

/-- A text that is not empty and does not stand next to another one. -/
def Apart (_front : Text) (m : Mark) (post : List Mark) : Prop :=
  m.tag? = none → m.source ≠ [] ∧ ∀ m' ∈ post.head?, m'.tag?.isSome

/-- What a mark leaves among the tokens of what is written. -/
inductive Echo (view : Option Text → Option Text) (front behind : Text) : Mark → Token → Prop
  | text {m t} : m.tag? = none → t.kind = .text → t.content = m.source → Echo view front behind m t
  | tag {m t kind key} : m.tag? = some (kind, key) → t.kind = kind → t.content = key →
    view t.indent = view m.line? → t.pos = Position.start.advance (front ++ m.line?.getD []) →
    t.lexeme = written kind key → t.behind = m.ending ++ behind → Echo view front behind m t

/-- What the marks leave, one token each. -/
inductive Echoes (view : Option Text → Option Text) (back : Text) :
    (front : Text) → List Mark → List Token → Prop
  | nil {front} : Echoes view back front [] []
  | cons {front m t ms ts} : Echo view front (printed ms ++ back) m t →
    Echoes view back (front ++ m.source) ms ts → Echoes view back front (m :: ms) (t :: ts)

section
variable {view : Option Text → Option Text}

theorem tag?_of_line? {m : Mark} {w : Text} (h : m.line? = some w) :
    ∃ key, m.tag? = some (.inclusion, key) := by
  unfold Mark.line? at h
  split at h
  · exact ⟨_, rfl⟩
  · cases h

variable {m : Mark} {ms post : List Mark} {front : Text} {kind : Kind} {key : Text}

/-- A reference that has a line of its own is alone on it. -/
theorem LaidOut.alone_of_line? {w : Text} (h : LaidOut view front m post) (hline : m.line? = some w)
    (htag : m.tag? = some (kind, key)) (hblank : w.all Text.isLineBlank) :
    kind = .inclusion ∧ front.AtLineStart ∧ (front ++ w).lead? = some w ∧
      (m.ending ++ printed post).trail? = some ['\n'] := by
  obtain ⟨key', htag'⟩ := tag?_of_line? hline
  have hstart : front.AtLineStart := by simpa [LaidOut, hline] using h
  rw [htag'] at htag
  cases htag
  refine ⟨rfl, hstart, Text.lead?_append_of_atLineStart hstart hblank, ?_⟩
  rw [Mark.ending, hline]
  rfl

/-- Any other tag that is alone on its line has nothing to take with it. -/
theorem LaidOut.bare_of_alone {lead trail : Text} (h : LaidOut view front m post)
    (hline : m.line? = none) (htag : m.tag? = some (kind, key)) (hkind : kind.standsAlone)
    (hlead : front.lead? = some lead) (htrail : (printed post).trail? = some trail) :
    lead = [] ∧ printed post = [] ∧ view (some []) = view none := by
  simp only [LaidOut, hline] at h
  obtain ⟨rfl, rfl, hview⟩ := h kind key lead trail htag hkind hlead htrail
  exact ⟨rfl, Text.eq_nil_of_trail? htrail, hview⟩

/-- The walk over the tokens finds just the references with a line of their own, and tags that have
nothing to take with them. -/
theorem LaidOut.of_isAlone {passed : Option Text} {alone : Bool} (h : LaidOut view front m post)
    (htag : m.tag? = some (kind, key)) (hblank : (m.line?.getD []).all Text.isLineBlank)
    (hpassed : Text.Passed (front ++ m.line?.getD []) passed)
    (halone : alone = (kind.standsAlone && (front ++ m.line?.getD []).lead?.isSome &&
      (m.ending ++ printed post).trail?.isSome)) :
    (alone = true → front.AtLineStart) ∧ (alone = false → m.line?.getD [] = []) ∧
      (alone = m.line?.isSome ∨ printed post = [] ∧ m.line? = none) ∧
      view (if alone && kind == .inclusion then passed else none) = view m.line? := by
  cases hline : m.line? with
  | some w =>
    rw [hline] at hpassed hblank halone
    obtain ⟨rfl, hstart, hlead, htrail⟩ := h.alone_of_line? hline htag hblank
    rw [Option.getD_some] at hpassed halone
    rw [hlead, htrail] at halone
    replace halone : alone = true := halone
    rw [hpassed.lead?_eq, Option.filter_eq_some_iff] at hlead
    subst halone
    refine ⟨fun _ => hstart, ?_, .inl rfl, ?_⟩
    · nofun
    · rw [hlead.1]
      rfl
  | none =>
    have hending : m.ending = [] := by rw [Mark.ending, hline]; rfl
    rw [hline, Option.getD_none, List.append_nil] at hpassed halone
    rw [hending, List.nil_append] at halone
    cases alone with
    | false => exact ⟨nofun, fun _ => rfl, .inl rfl, rfl⟩
    | true =>
      simp only [Bool.true_eq, Bool.and_eq_true, Option.isSome_iff_exists] at halone
      obtain ⟨⟨hkind, lead, hlead⟩, trail, htrail⟩ := halone
      obtain ⟨rfl, hrest, hview⟩ := h.bare_of_alone hline htag hkind hlead htrail
      refine ⟨fun _ => Text.atLineStart_of_lead? hlead, fun _ => rfl, .inr ⟨hrest, rfl⟩, ?_⟩
      rw [hpassed.lead?_eq, Option.filter_eq_some_iff] at hlead
      rw [hlead.1]
      split
      · exact hview
      · rfl

/-- What the walk leaves of a run and of the tag behind it. -/
theorem exists_settleFrom_tag (pos : Position) (behind : Text) {run s lexemes : Text}
    {passed : Option Text} {cut : Bool} {t : Token} {tail : List Token}
    (hrun : run = (if cut then ['\n'] else []) ++ s) (hpassed : Text.Passed front passed)
    (hlaidOut : LaidOut view (front ++ run) m ms) (htag : m.tag? = some (t.kind, key))
    (hwritable : Writable t.kind key) (hblank : (m.line?.getD []).all Text.isLineBlank)
    (hindent : t.indent = none) (htiled : Tiled lexemes tail (m.ending ++ printed ms)) :
    ∃ us indent, settleFrom passed cut (runFrom pos (run ++ m.line?.getD []) behind ++ t :: tail) =
      us ++ { t with indent } :: settleFrom none m.line?.isSome tail ∧ IsRun s us ∧
        view indent = view m.line? := by
  have hline := hpassed.extendLine (run ++ m.line?.getD [])
  have halone := isAlone_eq_of_tiled (t := t) htiled hline
  rw [settleFrom_runFrom, settleFrom_tag hwritable.ne_text,
    settledTag_of_not_silent hwritable.not_silent hindent]
  rw [← List.append_assoc front] at hline halone
  obtain ⟨hstart, hshared, hcut, hview⟩ := hlaidOut.of_isAlone htag hblank hline halone
  have hrest : settleFrom none (isAlone (extendLine passed (run ++ m.line?.getD [])) t tail) tail =
      settleFrom none m.line?.isSome tail := by
    rcases hcut with hcut | ⟨hend, hnone⟩
    · rw [hcut]
    · have hempty := htiled.isEmpty_eq
      rw [hend, Mark.ending, hnone, List.append_nil] at hempty
      rw [List.isEmpty_iff.1 hempty]
      rfl
  have hbare : isAlone (extendLine passed (run ++ m.line?.getD [])) t tail = true →
      s.AtLineStart := by
    intro h
    have hstart := hstart h
    rw [hrun, ← List.append_assoc] at hstart
    exact hstart.of_append
  have hcutRun := cutRun_eq cut hblank hbare hshared
  rw [← List.append_assoc, ← hrun] at hcutRun
  refine ⟨_, _, ?_, isRun_settledRun (t :: tail)
    (t := ⟨.text, run ++ m.line?.getD [], run ++ m.line?.getD [], pos, behind, none⟩) rfl hcutRun,
    hview⟩
  rw [hrest]
  rfl

/-- The walk over the tokens of what is written leaves one token for each mark, behind what it
leaves of the end `s` of a run that may start with the line feed of a reference. -/
theorem exists_echoes (front run : Text) (passed : Option Text) (cut : Bool) {s : Text}
    (hrun : run = (if cut then ['\n'] else []) ++ s) (hpassed : Text.Passed front passed)
    (hlegible : Along Legible (front ++ run) ms) (hlaidOut : Along (LaidOut view) (front ++ run) ms)
    (hapart : Along Apart (front ++ run) ms) (hhead : s = [] ∨ ∀ m ∈ ms.head?, m.tag?.isSome) :
    ∃ us ts, settleFrom passed cut (tokensOf front run ms) = us ++ ts ∧ IsRun s us ∧
      Echoes view [] (front ++ run) ms ts := by
  induction ms generalizing front run s passed cut with
  | nil =>
    have hcutRun : cutRun ((if cut then ['\n'] else []) ++ (s ++ [])) cut false = s :=
      cutRun_eq cut rfl nofun fun _ => rfl
    rw [List.append_nil, ← hrun] at hcutRun
    rw [tokensOf, ← List.append_nil (runFrom _ _ _), settleFrom_runFrom]
    exact ⟨_, _, rfl, isRun_settledRun [] rfl hcutRun, .nil⟩
  | cons m ms ih =>
    have hm := hlegible.head
    rw [tokensOf]
    cases htag : m.tag? with
    | none =>
      -- A text is added to the run, which held no text before.
      obtain rfl : s = [] := hhead.resolve_right fun h => by simpa [htag] using h m rfl
      obtain ⟨hne, hnext⟩ := hapart.head htag
      obtain ⟨us, ts, hsettle, hus, hechoes⟩ := ih front (run ++ m.source) passed cut
        (s := m.source) (by rw [hrun, List.append_nil]) hpassed (by simpa using hlegible.tail)
        (by simpa using hlaidOut.tail) (by simpa using hapart.tail) (.inr hnext)
      cases hus with
      | nil hnil => exact absurd hnil hne
      | @run t hkind hcontent =>
        refine ⟨[], t :: ts, hsettle, .nil rfl, .cons (.text htag hkind hcontent) ?_⟩
        simpa only [List.append_assoc] using hechoes
    | some tag =>
      obtain ⟨kind, key⟩ := tag
      obtain ⟨hwritable, hblank⟩ : Writable kind key ∧ (m.line?.getD []).all Text.isLineBlank := by
        simpa [Legible, htag] using hm
      have hfront : front ++ (run ++ m.line?.getD []) ++ written kind key ++ m.ending =
          front ++ run ++ m.source := by
        rw [Mark.source_eq htag]
        simp
      have htiled := tiled_of_scanFrom Delimiters.solid_braces
        (scanFrom_printed (front ++ (run ++ m.line?.getD []) ++ written kind key) m.ending
          hlegible.tail (clear_ending m _))
      obtain ⟨us, indent, hsettle, hus, hview⟩ := exists_settleFrom_tag
        (Position.start.advance front) (written kind key ++ (m.ending ++ printed ms))
        (t := ⟨kind, key, written kind key,
          Position.start.advance (front ++ (run ++ m.line?.getD [])), m.ending ++ printed ms, none⟩)
        hrun hpassed hlaidOut.head htag hwritable hblank rfl htiled
      obtain ⟨vs, ts, hsettle', hvs, hechoes⟩ := ih
        (front ++ (run ++ m.line?.getD []) ++ written kind key) m.ending none m.line?.isSome
        (s := []) (by rw [List.append_nil, Mark.ending])
        (Text.lead?_eq_none_of_endsSolid ((endsSolid_written kind key).append _))
        (hfront ▸ hlegible.tail) (hfront ▸ hlaidOut.tail) (hfront ▸ hapart.tail) (.inl rfl)
      cases hvs with
      | run _ _ hne => exact absurd rfl hne
      | nil =>
        rw [hsettle', List.nil_append] at hsettle
        rw [hfront] at hechoes
        refine ⟨us, _, hsettle, hus, .cons (.tag htag rfl rfl hview ?_ rfl ?_) hechoes⟩
        · rw [List.append_assoc]
        · rw [List.append_nil]

/-! ### The nodes that come back -/

theorem Echoes.exists_of_append {back : Text} {ms' : List Mark} {ts : List Token}
    (h : Echoes view back front (ms ++ ms') ts) :
    ∃ us vs, ts = us ++ vs ∧ Echoes view (printed ms' ++ back) front ms us ∧
      Echoes view back (front ++ printed ms) ms' vs := by
  induction ms generalizing front ts with
  | nil => exact ⟨[], ts, rfl, .nil, by simpa [printed] using h⟩
  | cons m ms ih =>
    rw [List.cons_append] at h
    obtain _ | ⟨hm, hms⟩ := h
    obtain ⟨us, vs, rfl, hus, hvs⟩ := ih hms
    rw [printed_append, List.append_assoc] at hm
    rw [printed_cons, ← List.append_assoc]
    exact ⟨_ :: us, vs, rfl, .cons hm hus, hvs⟩

/-- What the marks of nodes leave nests into these nodes. -/
theorem exists_nests_of_echoes {back : Text} {ns : List Node} {ts : List Token}
    (h : Echoes view back front (marksOf ns) ts) :
    ∃ ns', Nests ts ns' ∧ Node.remadeOf view (fun source _ => source) ns' =
      Node.remadeOf view (fun _ children => Node.sourceOf children) ns := by
  induction ns using Node.sequence_induction generalizing back front ts with
  | nil =>
    cases h
    exact ⟨[], .nil, rfl⟩
  | text content pos ns ih =>
    obtain _ | ⟨hm, hms⟩ := h
    obtain ⟨ns', hnests, hns'⟩ := ih hms
    cases hm with
    | tag htag => cases htag
    | text _ hkind hcontent =>
      refine ⟨_, .leaf (mark?_of_text hkind) hnests, ?_⟩
      rw [Node.remadeOf, Node.remadeOf, hns', hcontent]
      rfl
  | value key raw pos ns ih =>
    obtain _ | ⟨hm, hms⟩ := h
    obtain ⟨ns', hnests, hns'⟩ := ih hms
    cases hm with
    | text htag => cases htag
    | tag htag hkind hcontent =>
      cases htag
      cases raw with
      | false =>
        refine ⟨_, .leaf (mark?_of_escaped hkind) hnests, ?_⟩
        rw [Node.remadeOf, Node.remadeOf, hns', hcontent]
        rfl
      | true =>
        refine ⟨_, .leaf (mark?_of_raw hkind) hnests, ?_⟩
        rw [Node.remadeOf, Node.remadeOf, hns', hcontent]
        rfl
  | inclusion key indent pos ns ih =>
    obtain _ | ⟨hm, hms⟩ := h
    obtain ⟨ns', hnests, hns'⟩ := ih hms
    cases hm with
    | text htag => cases htag
    | tag htag hkind hcontent hview =>
      cases htag
      refine ⟨_, .leaf (mark?_of_inclusion hkind) hnests, ?_⟩
      rw [Node.remadeOf, Node.remadeOf, hns', hcontent, Node.remade, hview]
      rfl
  | block key inverted children source pos ns ih ih' =>
    rw [marksOf, Node.marks, List.cons_append, List.append_assoc, List.singleton_append] at h
    obtain _ | @⟨_, _, t, _, _, hopen, hmarks⟩ := h
    obtain ⟨us, vs, rfl, hchildren, hmarks'⟩ := hmarks.exists_of_append
    obtain _ | @⟨_, _, u, _, _, hclose, hrest⟩ := hmarks'
    obtain ⟨children', hnests, hchildren'⟩ := ih hchildren
    obtain ⟨ns', hnests', hns'⟩ := ih' hrest
    cases hopen with
    | text htag => cases htag
    | tag htag hkind hcontent _ hpos hlexeme hbehind =>
      cases htag
      cases hclose with
      | text htag => cases htag
      | tag htag hkind' hcontent' _ hpos' =>
        cases htag
        have hopening : (Mark.opening key inverted pos).source = t.lexeme := by
          rw [Mark.source_eq rfl, hlexeme]
          exact List.append_nil _
        have hbehind' : t.behind =
            Node.sourceOf children ++ (printed (.closing key :: marksOf ns) ++ back) := by
          rw [hbehind, printed_append, printed_marksOf, List.append_assoc]
          rfl
        have hbody : t.textUpTo? u.pos.offset = some (Node.sourceOf children) := by
          rw [hpos', hopening, printed_marksOf]
          simp only [Mark.line?, Option.getD_none, List.append_nil] at hpos ⊢
          exact textUpTo?_advance hpos hbehind'
        refine ⟨_, .block hkind hnests hkind' (hcontent'.trans hcontent.symm) hbody hnests', ?_⟩
        rw [Node.remadeOf, Node.remadeOf, hns', hcontent, Node.remade, hchildren']
        rfl

/-- What is written parses, and the nodes that come back are those that were written, but for what
`view` does not tell apart in their indents. -/
theorem exists_parse_sourceOf {ns : List Node} (hlegible : Along Legible [] (marksOf ns))
    (hlaidOut : Along (LaidOut view) [] (marksOf ns)) (hapart : Along Apart [] (marksOf ns))
    (hdepth : Node.depthOf ns ≤ maxNesting) :
    ∃ template, parse (Node.sourceOf ns) = .ok template ∧
      Node.remadeOf view (fun source _ => source) template.nodes =
        Node.remadeOf view (fun _ children => Node.sourceOf children) ns := by
  have hscan : scan (printed (marksOf ns)) = .ok (tokensOf [] [] (marksOf ns)) :=
    scanFrom_printed [] [] hlegible (.nil _)
  obtain ⟨us, ts, hsettle, hus, hechoes⟩ := exists_echoes [] [] (some []) false (s := []) rfl rfl
    hlegible hlaidOut hapart (.inl rfl)
  cases hus with
  | run _ _ hne => exact absurd rfl hne
  | nil =>
    obtain ⟨ns', hnests, hns'⟩ := exists_nests_of_echoes hechoes
    have hdepth' : Node.depthOf ns' ≤ maxNesting := by
      have h := congrArg Node.depthOf hns'
      rw [Node.depthOf_remadeOf, Node.depthOf_remadeOf] at h
      rwa [h]
    have hnest : nest (settle (tokensOf [] [] (marksOf ns))) = .ok ns' := by
      rw [settle, hsettle]
      exact nest_eq_ok_iff.2 ⟨hnests, hdepth'⟩
    rw [printed_marksOf] at hscan
    exact ⟨{ nodes := ns' }, by simp [parse, hscan, hnest], hns'⟩

end

end Template

end Mustache
