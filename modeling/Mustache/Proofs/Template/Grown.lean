import Mustache.Proofs.Template.Nests
import Mustache.Proofs.Template.Sections
import Mustache.Proofs.Token.Placed

/-!
# Nodes that grow out of tokens

`Template.Grown` relates the tokens of a template, as they are scanned, to its nodes. A token leaves
a node or goes away, and a section is what stands between its two tags. Reading a template settles
the lines of its tokens first; its nodes grow out of the tokens all the same
(`Template.grown_of_parse`).
-/

namespace Mustache

namespace Token

theorem isInfix_cutRun (run : Text) (tagBefore tagBehind : Bool) :
    cutRun run tagBefore tagBehind <:+: run := by
  have hfront : (if tagBefore then Text.dropLineEnd run else run) <:+ run := by
    split
    · exact Text.isSuffix_dropLineEnd run
    · exact List.suffix_rfl
  rw [cutRun]
  split
  · exact (Text.isPrefix_dropTrailingBlanks _).isInfix.trans hfront.isInfix
  · exact hfront.isInfix

/-! ### What is left of the tokens -/

/-- What settling leaves of a token: a part of a text run, or the tag. -/
structure Cut (t u : Token) : Prop where
  kind_eq : u.kind = t.kind
  content_eq : t.kind ≠ .text → u.content = t.content
  isInfix_content : u.content <:+: t.content
  lexeme_eq : u.lexeme = t.lexeme
  pos_eq : u.pos = t.pos
  behind_eq : u.behind = t.behind

/-- A token of which nothing may be left. -/
def Drops (t : Token) : Prop := t.kind = .text ∨ t.kind.isSilent = true

/-- What settling leaves of tokens: some are dropped, the others are cut. -/
inductive Leaves : List Token → List Token → Prop
  | nil : Leaves [] []
  | drop {t ts us} : t.Drops → Leaves ts us → Leaves (t :: ts) us
  | keep {t u ts us} : Cut t u → Leaves ts us → Leaves (t :: ts) (u :: us)

theorem leaves_settleFrom (passed : Option Text) (cut : Bool) (ts : List Token) :
    Leaves ts (settleFrom passed cut ts) := by
  induction ts generalizing passed cut with
  | nil => exact .nil
  | cons t ts ih =>
    by_cases hkind : t.kind = .text
    · rw [settleFrom_text hkind, settledRun]
      split
      · exact .drop (.inl hkind) (ih _ _)
      · exact .keep ⟨rfl, fun h => absurd hkind h, isInfix_cutRun _ _ _, rfl, rfl, rfl⟩ (ih _ _)
    · rw [settleFrom_tag hkind, settledTag]
      split
      · next hsilent => exact .drop (.inr hsilent) (ih _ _)
      · split
        · exact .keep ⟨rfl, fun _ => rfl, List.infix_rfl, rfl, rfl, rfl⟩ (ih _ _)
        · exact .keep ⟨rfl, fun _ => rfl, List.infix_rfl, rfl, rfl, rfl⟩ (ih _ _)

variable {u : Token} {ts us vs : List Token}

/-- What a token is left of splits the tokens as it splits what is left. -/
theorem Leaves.exists_of_append (h : Leaves ts (us ++ u :: vs)) :
    ∃ front t rest, ts = front ++ t :: rest ∧ Leaves front us ∧ Cut t u ∧ Leaves rest vs := by
  generalize hws : us ++ u :: vs = ws at h
  induction h generalizing us with
  | nil => simp at hws
  | @drop t _ _ hdrops _ ih =>
    obtain ⟨front, t', rest, rfl, hfront, hcut, hrest⟩ := ih hws
    exact ⟨t :: front, t', rest, rfl, .drop hdrops hfront, hcut, hrest⟩
  | @keep t _ ts _ hcut hrest ih =>
    cases us with
    | nil =>
      cases hws
      exact ⟨[], t, ts, rfl, .nil, hcut, hrest⟩
    | cons w us =>
      cases hws
      obtain ⟨front, t', rest, rfl, hfront, hcut', hrest'⟩ := ih rfl
      exact ⟨t :: front, t', rest, rfl, .keep hcut hfront, hcut', hrest'⟩

theorem Leaves.exists_of_cons (h : Leaves ts (u :: us)) :
    ∃ front t rest, ts = front ++ t :: rest ∧ Leaves front [] ∧ Cut t u ∧ Leaves rest us :=
  Leaves.exists_of_append (List.nil_append _ ▸ h)

theorem Cut.textUpTo?_eq {t : Token} (h : Cut t u) (offset : Nat) :
    u.textUpTo? offset = t.textUpTo? offset := by
  rw [textUpTo?, textUpTo?, stop, stop, h.pos_eq, h.lexeme_eq, h.behind_eq]

/-- A node begins with the token: a text with the run that it is cut from, any other node with its
tag. -/
inductive Begins : Token → Node → Prop
  | text {t content} : t.kind = .text → content <:+: t.content → Begins t (.text content t.pos)
  | escaped {t} : t.kind = .escaped → Begins t (.value t.content false t.pos)
  | raw {t} : t.kind = .raw → Begins t (.value t.content true t.pos)
  | opening {t inverted children body} : t.kind = .opening inverted →
    Begins t (.block t.content inverted children body t.pos)
  | inclusion {t indent} : t.kind = .inclusion → Begins t (.inclusion t.content indent t.pos)

theorem Begins.pos_eq {t : Token} {n : Node} (h : Begins t n) : n.pos = t.pos := by
  cases h <;> rfl

/-- A leaf begins with the token that it is left of. -/
theorem Cut.begins {t : Token} {n : Node} (h : Cut t u) (hmark : u.mark? = some (.leaf n)) :
    Begins t n ∧ ∀ inverted, t.kind ≠ .opening inverted := by
  have hkind := h.kind_eq
  have hcontent := h.content_eq
  cases htag : t.kind <;> rw [htag] at hkind hcontent <;> simp only [mark?, hkind] at hmark <;>
    cases hmark <;> rw [h.pos_eq]
  · exact ⟨.text htag h.isInfix_content, by simp⟩
  · rw [hcontent (by simp)]
    exact ⟨.escaped htag, by simp⟩
  · rw [hcontent (by simp)]
    exact ⟨.raw htag, by simp⟩
  · rw [hcontent (by simp)]
    exact ⟨.inclusion htag, by simp⟩

end Token

namespace Template

open Token
open Node (Inside depthOf)
open Sections (Reads)

/-- The nodes grow out of the tokens. -/
inductive Grown : List Token → List Node → Prop
  | nil : Grown [] []
  | drop {t ts ns} : t.Drops → Grown ts ns → Grown (t :: ts) ns
  | leaf {t n ts ns} : Begins t n → (∀ inverted, t.kind ≠ .opening inverted) → Grown ts ns →
    Grown (t :: ts) (n :: ns)
  | block {front inverted inner children back ts ns} : front.kind = .opening inverted →
    Grown inner children → back.kind = .closing → back.content = front.content → Grown ts ns →
    Grown (front :: (inner ++ back :: ts))
      (.block front.content inverted children (inner.flatMap lexeme) front.pos :: ns)

variable {ts us : List Token} {ns : List Node}

theorem Grown.append_left (h : Grown ts ns) (hus : Leaves us []) : Grown (us ++ ts) ns := by
  generalize hvs : ([] : List Token) = vs at hus
  induction hus with
  | nil => exact h
  | drop hdrops _ ih => exact .drop hdrops (ih hvs)
  | keep => cases hvs

/-- What nests into nodes after settling grows into them. -/
theorem Nests.grown (h : Nests us ns) {rest : Text} {pos : Position} (hleaves : Leaves ts us)
    (hplaced : placed rest pos ts = ts) : Grown ts ns := by
  induction h generalizing ts rest pos with
  | nil =>
    rw [← List.append_nil ts]
    exact Grown.nil.append_left hleaves
  | leaf hmark _ ih =>
    obtain ⟨before, t, after, rfl, hbefore, hcut, hafter⟩ := hleaves.exists_of_cons
    obtain ⟨-, -, hplaced⟩ := placed_of_cons (placed_eq_of_append hplaced).2
    obtain ⟨hbegins, hopening⟩ := hcut.begins hmark
    exact .append_left (.leaf hbegins hopening (ih hafter hplaced)) hbefore
  | block hfront _ hback hname hbody _ ih ih' =>
    obtain ⟨before, front, after, rfl, hbefore, hcut, hafter⟩ := hleaves.exists_of_cons
    obtain ⟨inner, back, after, rfl, hinner, hcut', hafter⟩ := hafter.exists_of_append
    have hplaced := (placed_eq_of_append hplaced).2
    have hbody' := textUpTo?_of_placed hplaced
    obtain ⟨-, -, hplaced⟩ := placed_of_cons hplaced
    obtain ⟨hplacedInner, hplaced⟩ := placed_eq_of_append hplaced
    obtain ⟨-, -, hplaced⟩ := placed_of_cons hplaced
    rw [hcut.textUpTo?_eq, hcut'.pos_eq, hbody', Option.some.injEq] at hbody
    rw [hcut.kind_eq] at hfront
    rw [hcut'.kind_eq] at hback
    have hcontent := hcut.content_eq (by simp [hfront])
    rw [hcut'.content_eq (by simp [hback]), hcontent] at hname
    rw [← hbody, hcontent, hcut.pos_eq]
    exact .append_left
      (.block hfront (ih hinner hplacedInner) hback hname (ih' hafter hplaced)) hbefore

/-- **The tree grows out of the template.** -/
theorem grown_of_parse {source : Text} {template : Template} {tokens : List Token}
    (hscan : scan source = .ok tokens) (hparse : parse source = .ok template) :
    Grown tokens template.nodes := by
  obtain ⟨tokens', hscan', hnest⟩ := exists_of_parse hparse
  rw [hscan] at hscan'
  cases hscan'
  exact (nest_eq_ok_iff.1 hnest).1.grown (leaves_settleFrom _ _ _) (placed_of_scan hscan)

/-- Read from sections that are open, the tokens leave these open. -/
theorem Grown.reads_append (h : Grown ts ns) {opened opened' : List Token}
    (hdepth : opened.length + depthOf ns ≤ maxNesting) (hus : Reads opened us opened') :
    Reads opened (ts ++ us) opened' := by
  induction h generalizing opened opened' us with
  | nil => exact hus
  | drop hdrops _ ih =>
    refine .cons (.other ?_ ?_) (ih hdepth hus) <;>
      rcases hdrops with h | h <;> intros <;> rintro hkind <;> simp [hkind, Kind.isSilent] at h
  | leaf hbegins hopening _ ih =>
    rw [depthOf] at hdepth
    refine .cons (.other hopening ?_) (ih (by omega) hus)
    cases hbegins <;> simp [*]
  | block hfront _ hback hname _ ih ih' =>
    rw [depthOf, Node.depth, maxNesting] at hdepth
    rw [List.cons_append, List.append_assoc]
    refine .cons (.opening hfront (by omega)) (ih ?_ (.cons (.closing hback hname) (ih' ?_ hus)))
    · rw [List.length_cons, maxNesting]
      omega
    · rw [maxNesting]
      omega

/-- The section tags among the tokens open and close in turn. -/
theorem Grown.reads (h : Grown ts ns) (hdepth : depthOf ns ≤ maxNesting) : Reads [] ts [] := by
  have hreads : Reads [] (ts ++ []) [] := h.reads_append (by simpa using hdepth) .nil
  rwa [List.append_nil] at hreads

/-- The tags of a section stand among the tokens, and it grows out of the tokens between them. -/
theorem Grown.exists_of_inside {key body : Text} {inverted : Bool} {children : List Node}
    {pos : Position} (h : Grown ts ns) (hin : Inside (.block key inverted children body pos) ns) :
    ∃ before front inner back after, ts = before ++ front :: (inner ++ back :: after) ∧
      front.kind = .opening inverted ∧ front.content = key ∧ front.pos = pos ∧
      Grown inner children ∧ back.kind = .closing ∧ back.content = key ∧
      inner.flatMap lexeme = body := by
  induction h with
  | nil => cases hin
  | @drop t _ _ _ _ ih =>
    obtain ⟨before, front, inner, back, after, rfl, hrest⟩ := ih hin
    exact ⟨t :: before, front, inner, back, after, rfl, hrest⟩
  | @leaf t _ _ _ hbegins hopening _ ih =>
    cases hin with
    | tail hin =>
      obtain ⟨before, front, inner, back, after, rfl, hrest⟩ := ih hin
      exact ⟨t :: before, front, inner, back, after, rfl, hrest⟩
    | head | child =>
      cases hbegins with
      | opening hkind => exact absurd hkind (hopening _)
  | @block front inverted inner children back ts ns hfront hinner hback hname _ ih ih' =>
    cases hin with
    | head => exact ⟨[], front, inner, back, ts, rfl, hfront, rfl, rfl, hinner, hback, hname, rfl⟩
    | tail hin =>
      obtain ⟨before, front', inner', back', after, rfl, hrest⟩ := ih' hin
      exact ⟨front :: (inner ++ back :: before), front', inner', back', after, by simp, hrest⟩
    | child hin =>
      obtain ⟨before, front', inner', back', after, rfl, hrest⟩ := ih hin
      exact ⟨front :: before, front', inner', back', after ++ back :: ts, by simp, hrest⟩

end Template

end Mustache
