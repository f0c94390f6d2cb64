import Mustache.Proofs.Template.Readable
import Mustache.Proofs.Token.Spelled

/-!
# Templates that are written back

The nodes of a template without comments can be written as a template again, and that template
parses to nodes with the same tags (`Template.exists_parse_reprint`).
-/

namespace Mustache

namespace Text

/-! ### The end of a run in front of a tag that is alone on its line -/

theorem extendLine_append {passed : Option Text} {s line : Text} (h : '\n' ∉ line) :
    Token.extendLine passed (s ++ line) = (Token.extendLine passed s).map (· ++ line) := by
  by_cases hs : '\n' ∈ s
  · simp [Token.extendLine, lastLine?_eq, hs, lastLine_append_of_not_mem h]
  · cases passed <;> simp [Token.extendLine, lastLine?_eq, hs, h]

/-- In front of such a tag the last character that is no line blank is a line feed. -/
theorem eq_newline_of_alone (passed : Option Text) {s b : Text} {c : Char}
    (h : (Token.extendLine passed (s ++ c :: b)).any (·.all isLineBlank)) (hb : b.all isLineBlank)
    (hc : isLineBlank c = false) : c = '\n' := by
  by_cases hnewline : c = '\n'
  · exact hnewline
  · have hline : '\n' ∉ c :: b := by
      rintro (_ | ⟨_, hmem⟩)
      · exact hnewline rfl
      · have hblank := List.all_eq_true.1 hb _ hmem
        revert hblank
        decide
    rw [extendLine_append hline] at h
    cases hpassed : Token.extendLine passed s <;> simp [hpassed, hc] at h

theorem exists_dropTrailingBlanks_append (s : Text) :
    ∃ back, s = dropTrailingBlanks s ++ back ∧ back.all isLineBlank ∧
      ∀ c ∈ (dropTrailingBlanks s).getLast?, isLineBlank c = false := by
  refine ⟨(s.reverse.takeWhile isLineBlank).reverse, ?_, ?_, fun c hc => ?_⟩
  · rw [dropTrailingBlanks, ← List.reverse_append, List.takeWhile_append_dropWhile,
      List.reverse_reverse]
  · rw [List.all_reverse]
    exact List.all_takeWhile
  · rw [dropTrailingBlanks, List.getLast?_reverse] at hc
    exact head?_dropWhile_eq_false _ _ c hc

end Text

namespace Token

/-! ### Names -/

theorem Kind.Holds.named {kind : Kind} {inner content : Text} (h : kind.Holds inner content)
    (hsilent : kind.isSilent = false) : content ≠ [] ∧ content.trim = content := by
  cases h with
  | comment | delimiters => cases hsilent
  | name _ _ hne => exact ⟨hne, Text.trim_trim inner⟩

/-- A tag that leaves a node behind has a name without white space around it. -/
theorem ReadsAsTag.named {t : Token} (h : t.ReadsAsTag) (hsilent : t.kind.isSilent = false) :
    t.content ≠ [] ∧ t.content.trim = t.content := by
  cases h.fits with
  | run htext => exact absurd htext h.kind_ne_text
  | tag _ _ _ hholds => exact hholds.named hsilent

/-! ### What runs leave -/

/-- What is left of a run is a part of it; no mark begins at its end unless one does at the end of
the run. -/
theorem exists_cutRun_append (cut : Bool) {passed : Option Text} {run : Text} {alone : Bool}
    (halone : alone = true → (extendLine passed run).any (·.all Text.isLineBlank)) :
    ∃ front back, run = front ++ (cutRun run cut alone ++ back) ∧
      (back = [] ∨ ∀ c ∈ (cutRun run cut alone).getLast?, c = '\n') := by
  obtain ⟨front, rest, hrun, hrest⟩ : ∃ front rest, run = front ++ rest ∧
      (if cut then run.dropLineEnd else run) = rest := by
    cases cut with
    | true =>
      obtain ⟨front, hfront⟩ := Text.exists_append_dropLineEnd run
      exact ⟨front, _, hfront, rfl⟩
    | false => exact ⟨[], run, rfl, rfl⟩
  rw [cutRun, hrest]
  cases alone with
  | false => exact ⟨front, [], by simpa using hrun, .inl rfl⟩
  | true =>
    obtain ⟨back, hback, hblank, hlast⟩ := Text.exists_dropTrailingBlanks_append rest
    refine ⟨front, back, by rw [if_pos rfl, ← hback, hrun], .inr fun c hc => ?_⟩
    obtain ⟨s, hs⟩ := List.getLast?_eq_some_iff.1 hc
    refine Text.eq_newline_of_alone passed (s := front ++ s) (b := back) ?_ hblank (hlast c hc)
    have halone := halone rfl
    rw [hrun, hback] at halone
    rw [if_pos rfl] at hs
    rw [hs] at halone
    simpa using halone

/-- What a run leaves can be written in front of what follows it. -/
theorem clear_cutRun (passed : Option Text) (cut : Bool) {t : Token} {ts : List Token} {rest : Text}
    (hmarked : ¬ Text.Marked t.content) (hlast : ts = [] ∨ t.content.getLast? ≠ some '{')
    (hrest : ts = [] → rest = []) :
    (cutRun t.content cut (headIsAlone (extendLine passed t.content) ts)).Clear rest := by
  have halone : headIsAlone (extendLine passed t.content) ts = true →
      (extendLine passed t.content).any (·.all Text.isLineBlank) := by
    cases ts with
    | nil => nofun
    | cons u ts =>
      simp only [headIsAlone, isAlone, Bool.and_eq_true]
      exact fun h => h.1.2
  obtain ⟨front, back, hrun, hback⟩ := exists_cutRun_append cut halone
  refine .of_not_marked (fun hmark => hmarked ?_) ?_
  · rw [hrun]
    exact hmark.trans ⟨front, back, List.append_assoc ..⟩
  · refine hlast.imp hrest fun hlast hbrace => ?_
    rcases hback with rfl | hback
    · rw [hrun, List.append_nil, List.getLast?_append, hbrace] at hlast
      exact hlast rfl
    · cases hback '{' hbrace

theorem exists_mark? {t : Token} (hkind : t.kind ≠ .text) (hsilent : t.kind.isSilent = false) :
    ∃ m, t.mark? = some m ∧ m.tag? = some (t.kind, t.content) ∧
      m.line? = if t.kind = .inclusion then t.indent else none := by
  cases htag : t.kind with
  | text => exact absurd htag hkind
  | comment | delimiters => simp [htag, Kind.isSilent] at hsilent
  | escaped | raw | inclusion | opening | closing =>
    simp [mark?, htag, Node.Mark.tag?, Node.Mark.line?]

/-- What the walk leaves of a tag that leaves a node behind: its mark, with the blanks of its
line. -/
theorem exists_mark?_settleFrom (passed : Option Text) (cut : Bool) (ts : List Token) {t : Token}
    (hkind : t.kind ≠ .text) (hsilent : t.kind.isSilent = false) (hindent : t.indent = none) :
    ∃ m, (settleFrom passed cut (t :: ts)).filterMap mark? =
        m :: (settleFrom none (isAlone passed t ts) ts).filterMap mark? ∧
      m.tag? = some (t.kind, t.content) ∧ (m.line?.getD []).all Text.isLineBlank := by
  obtain ⟨m, hmark, htag, hline⟩ := exists_mark?
    (t := { t with indent := if isAlone passed t ts && t.kind == .inclusion then passed else none })
    hkind hsilent
  rw [settleFrom_tag hkind, settledTag_of_not_silent hsilent hindent, List.singleton_append,
    List.filterMap_cons_some hmark]
  refine ⟨m, rfl, htag, ?_⟩
  rw [hline]
  cases halone : isAlone passed t ts with
  | false => cases h : t.kind == .inclusion <;> simp
  | true =>
    simp only [isAlone, Bool.and_eq_true, Option.any_eq_true] at halone
    obtain ⟨⟨-, line, rfl, hblank⟩, -⟩ := halone
    by_cases hinclusion : t.kind = .inclusion
    · simpa [hinclusion] using hblank
    · simp [hinclusion]

end Token

namespace Template

open Node (Mark Along printed along_cons_iff marksOf)
open Token

/-- A mark of a template: it can be read back, and no two texts stand side by side. -/
def Clean (front : Text) (m : Mark) (post : List Mark) : Prop :=
  Legible front m post ∧ Apart front m post

/-- A name that makes no other tag when it is written again. -/
def Spellable (m : Mark) : Prop :=
  ∀ tag ∈ m.tag?, '{' ∉ tag.2 ∧ '}' ∉ tag.2 ∧
    (tag.1 = .escaped → ∀ c ∈ tag.2.head?, c ∉ ['#', '^', '/', '>', '!', '&', '='])

instance (m : Mark) : Decidable (Spellable m) := inferInstanceAs (Decidable (∀ _ ∈ m.tag?, _))

theorem tag_head_of_settleFrom {passed : Option Text} {cut : Bool} {ts : List Token}
    (h : Spelled ts) (hsilent : ∀ t ∈ ts, t.kind.isSilent = false)
    (hhead : ∀ u ∈ ts.head?, u.kind ≠ .text) :
    ∀ m ∈ ((settleFrom passed cut ts).filterMap Token.mark?).head?, m.tag?.isSome := by
  cases h with
  | nil => nofun
  | run hrun => exact absurd hrun.kind_eq (hhead _ rfl)
  | @tag t ts htag =>
    obtain ⟨m, hmarks, hname, -⟩ := exists_mark?_settleFrom passed cut ts
      htag.kind_ne_text (hsilent t List.mem_cons_self) htag.indent_eq
    rw [hmarks]
    rintro _ ⟨⟩
    rw [hname]
    rfl

theorem clean_of_settleFrom {passed : Option Text} {cut : Bool} {ts : List Token}
    (h : Spelled ts) (hsilent : ∀ t ∈ ts, t.kind.isSilent = false)
    (hnames : ∀ m ∈ (settleFrom passed cut ts).filterMap Token.mark?, Spellable m) (front : Text) :
    Along Clean front ((settleFrom passed cut ts).filterMap Token.mark?) := by
  induction h generalizing passed cut front with
  | nil => exact fun pre m post heq => by simp [settleFrom] at heq
  | @run t ts hrun hlast hhead hspelled ih =>
    have hsilent' := fun u hu => hsilent u (List.mem_cons_of_mem t hu)
    rw [settleFrom_text hrun.kind_eq, List.filterMap_append] at hnames ⊢
    have hts := ih hsilent' fun m hm => hnames m (List.mem_append_right _ hm)
    rw [← hrun.content_eq] at hlast
    have hrest : ts = [] →
        printed ((settleFrom (extendLine passed t.content) false ts).filterMap mark?) = [] := by
      rintro rfl
      rfl
    have hclear := clear_cutRun passed cut (hrun.content_eq ▸ hrun.not_marked) hlast hrest
    rw [settledRun]
    cases hempty : (cutRun t.content cut (headIsAlone (extendLine passed t.content) ts)).isEmpty with
    | true => simpa [hempty] using hts front
    | false =>
      rw [if_neg (by simp), List.filterMap_cons_some (mark?_of_text (by exact hrun.kind_eq)),
        List.filterMap_nil, List.singleton_append, along_cons_iff]
      refine ⟨⟨hclear, fun _ => ⟨List.isEmpty_eq_false_iff.1 hempty, ?_⟩⟩, hts _⟩
      exact tag_head_of_settleFrom hspelled hsilent' hhead
  | @tag t ts htag _ ih =>
    have hnot := hsilent t List.mem_cons_self
    obtain ⟨m, hmarks, hmark, hblank⟩ := exists_mark?_settleFrom passed cut ts
      htag.kind_ne_text hnot htag.indent_eq
    rw [hmarks] at hnames ⊢
    obtain ⟨hopening, hclosing, hsigil⟩ := hnames m List.mem_cons_self _ hmark
    obtain ⟨hne, htrim⟩ := htag.named hnot
    have hname : IsName t.content := ⟨hne, htrim, hopening, hclosing⟩
    rw [along_cons_iff]
    refine ⟨⟨?_, ?_⟩, ih (fun u hu => hsilent u (List.mem_cons_of_mem t hu))
      (fun m hm => hnames m (List.mem_cons_of_mem _ hm)) _⟩
    · rw [Legible, hmark]
      exact ⟨hname.writable htag.kind_ne_text hnot hsigil, hblank⟩
    · intro hnone
      rw [hmark] at hnone
      cases hnone

/-! ### What is written back parses -/

section
open Sections

variable {front run : Text} {ms rest : List Mark} {opened : List Token}

theorem reads_runFrom {pos : Position} {behind : Text} {ts : List Token} (h : Reads opened ts []) :
    Reads opened (runFrom pos run behind ++ ts) [] := by
  rw [runFrom]
  split
  · exact h
  · exact .cons (.other (by simp) (by simp)) h

/-- The section tags that are written for nodes open and close in turn. -/
theorem reads_tokensOf (ns : List Node) (h : ∀ front run, Reads opened (tokensOf front run rest) [])
    (hdepth : opened.length + Node.depthOf ns ≤ 128) (front run : Text) :
    Reads opened (tokensOf front run (marksOf ns ++ rest)) [] := by
  induction ns using Node.sequence_induction generalizing opened rest front run with
  | nil => exact h front run
  | text content pos ns ih =>
    rw [Node.depthOf, Node.depth, Nat.zero_max] at hdepth
    exact ih h hdepth front (run ++ content)
  | value key raw pos ns ih =>
    rw [Node.depthOf, Node.depth, Nat.zero_max] at hdepth
    exact reads_runFrom (.cons (.other (by cases raw <;> simp) (by cases raw <;> simp))
      (ih h hdepth _ _))
  | inclusion key indent pos ns ih =>
    rw [Node.depthOf, Node.depth, Nat.zero_max] at hdepth
    exact reads_runFrom (.cons (.other (by simp) (by simp)) (ih h hdepth _ _))
  | block key inverted children source pos ns ih ih' =>
    rw [Node.depthOf, Node.depth] at hdepth
    have hmarks : marksOf (.block key inverted children source pos :: ns) ++ rest =
        .opening key inverted pos :: (marksOf children ++
          (.closing key :: (marksOf ns ++ rest))) := by
      simp [marksOf, Node.marks]
    rw [hmarks]
    refine reads_runFrom (.cons (.opening rfl (by omega)) (ih (fun front run => ?_) ?_ _ _))
    · exact reads_runFrom (.cons (.closing rfl rfl) (ih' h (by omega) _ _))
    · rw [List.length_cons]
      omega

/-- What is written for nodes parses if it can be scanned. -/
theorem exists_parse_of_legible {ns : List Node} (hlegible : Along Legible [] (marksOf ns))
    (hdepth : Node.depthOf ns ≤ maxNesting) :
    ∃ template, parse (Node.sourceOf ns) = .ok template := by
  have hscan : scan (printed (marksOf ns)) = .ok (tokensOf [] [] (marksOf ns)) :=
    scanFrom_printed [] [] hlegible (.nil _)
  rw [Node.printed_marksOf] at hscan
  have hends : ∀ front run, Reads [] (tokensOf front run []) [] := by
    intro front run
    rw [tokensOf, ← List.append_nil (runFrom _ _ _)]
    exact reads_runFrom .nil
  have hreads := reads_tokensOf ns hends (by simpa [maxNesting] using hdepth) [] []
  rw [List.append_nil] at hreads
  have hagrees := agrees_nest hscan
  cases hnest : nest (settle (tokensOf [] [] (marksOf ns))) with
  | ok nodes => exact ⟨{ nodes }, by simp [parse, hscan, hnest]⟩
  | error e =>
    rw [hnest] at hagrees
    exact absurd hreads hagrees.not_reads

end

end Template

end Mustache
