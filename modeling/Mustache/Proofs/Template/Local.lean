import Mustache.Proofs.Template.Nests
import Mustache.Proofs.Text.Cut
import Mustache.Proofs.Token.Local

/-!
# The text of a section by itself

The text between the tags of a section is a template. Its tokens, by the delimiters in force at its
start, nest into the children of the section when something is written at both of its ends beside
the tags (`Template.exists_nest_body`). If no tag sets delimiters it parses to the children
(`Template.exists_parse_body`).
-/

namespace Mustache

namespace Token

/-! ### The text between two tokens -/

/-- Where a token starts and ends, and the text behind it. -/
def span (t : Token) : Nat × Nat × Text := (t.pos.offset, t.stop, t.behind)

/-- There is a text between the end of the first span and the start of the second. -/
def Reaches (s s' : Nat × Nat × Text) : Prop :=
  ∃ body, (if s.2.1 ≤ s'.1 then s.2.2.takeBytes? (s'.1 - s.2.1) else none) = some body

/-- There is a text between the first token and the second. -/
def Between (t u : Token) : Prop := ∃ body, t.textUpTo? u.pos.offset = some body

theorem pairwise_between_iff {ts : List Token} :
    ts.Pairwise Between ↔ (ts.map span).Pairwise Reaches :=
  (List.pairwise_map (f := span) (R := Reaches)).symm

theorem exists_of_mem_placed {back : Text} {pos : Position} {ts : List Token} {u : Token}
    (h : u ∈ placed back pos ts) :
    ∃ mid rest, ts.flatMap lexeme ++ back = mid ++ rest ∧ u.pos = pos.advance mid := by
  induction ts generalizing pos with
  | nil => cases h
  | cons t ts ih =>
    rw [placed] at h
    rcases List.mem_cons.1 h with rfl | h
    · exact ⟨[], _, rfl, rfl⟩
    · obtain ⟨mid, rest, hmid, hpos⟩ := ih h
      refine ⟨t.lexeme ++ mid, rest, ?_, ?_⟩
      · rw [List.flatMap_cons, List.append_assoc, hmid, List.append_assoc]
      · rw [hpos, Position.advance_append]

theorem pairwise_placed (back : Text) (pos : Position) (ts : List Token) :
    (placed back pos ts).Pairwise Between := by
  induction ts generalizing pos with
  | nil => exact .nil
  | cons t ts ih =>
    rw [placed, List.pairwise_cons]
    refine ⟨fun u hu => ?_, ih _⟩
    obtain ⟨mid, rest, hmid, hpos⟩ := exists_of_mem_placed hu
    refine ⟨mid, ?_⟩
    rw [← textUpTo?_eq_some (t := { t with pos, behind := ts.flatMap lexeme ++ back }) hmid, hpos]
    simp [stop]

theorem sublist_settleFrom (passed : Option Text) (cut : Bool) (ts : List Token) :
    ((settleFrom passed cut ts).map span).Sublist (ts.map span) := by
  induction ts generalizing passed cut with
  | nil => exact .slnil
  | cons t ts ih =>
    by_cases hkind : t.kind = .text
    · rw [settleFrom_text hkind, settledRun]
      split
      · exact .cons _ (ih _ _)
      · exact .cons_cons _ (ih _ _)
    · rw [settleFrom_tag hkind, settledTag]
      split
      · exact .cons _ (ih _ _)
      · split
        · exact .cons_cons _ (ih _ _)
        · exact .cons_cons _ (ih _ _)

theorem pairwise_settle {ts : List Token} (h : ts.Pairwise Between) :
    (settle ts).Pairwise Between := by
  rw [pairwise_between_iff] at h ⊢
  exact h.sublist (sublist_settleFrom _ _ _)

theorem Moved.textUpTo? {k : Nat} {back : Text} {t t' u u' : Token} {body : Text}
    (ht : Moved k back t t') (hu : Moved k back u u')
    (h : t'.textUpTo? u'.pos.offset = some body) : t.textUpTo? u.pos.offset = some body := by
  have hstop : t.stop = k + t'.stop := by
    rw [stop, stop, ht.offset_eq, ht.lexeme_eq, Nat.add_assoc]
  unfold Token.textUpTo? at h ⊢
  split at h
  · next hle =>
    rw [hstop, hu.offset_eq, if_pos (by omega), ht.behind_eq, Nat.add_sub_add_left]
    exact Text.takeBytes?_append_of_some h back
  · cases h

/-- The tokens between two tokens of a template: their text, and where they are in this text. -/
theorem exists_moved_of_placed {pos : Position} {pre inner post : List Token} {front back : Token}
    (h : placed [] pos (pre ++ front :: (inner ++ back :: post)) =
      pre ++ front :: (inner ++ back :: post)) :
    front.textUpTo? back.pos.offset = some (inner.flatMap lexeme) ∧
      ∃ k tail, List.Forall₂ (Moved k tail) inner (placed [] .start inner) := by
  obtain ⟨-, hplaced⟩ := placed_eq_of_append h
  refine ⟨textUpTo?_of_placed hplaced, ?_⟩
  obtain ⟨-, -, hplaced⟩ := placed_of_cons hplaced
  obtain ⟨hinner, -⟩ := placed_eq_of_append hplaced
  have hstart : ((pos.advance (pre.flatMap lexeme)).advance front.lexeme).offset =
      _ + Position.start.offset := (Nat.add_zero _).symm
  have hmoved := moved_placed ((back :: post).flatMap lexeme ++ []) hstart inner
  rw [hinner] at hmoved
  exact ⟨_, _, hmoved⟩

end Token

namespace Template

open Node (Inside depthOf depthOf_le_of_inside unplacedOf)
open Token

/-! ### The tokens of a section -/

/-- The tags of a section and the tokens between them. -/
theorem Nests.exists_of_inside {key body : Text} {inverted : Bool} {children ns : List Node}
    {pos : Position} {ts : List Token} (h : Nests ts ns)
    (hin : Inside (.block key inverted children body pos) ns) :
    ∃ before front inner back after, ts = before ++ front :: (inner ++ back :: after) ∧
      front.kind = .opening inverted ∧ front.pos = pos ∧ back.kind = .closing ∧
      Nests inner children ∧ front.textUpTo? back.pos.offset = some body := by
  induction h with
  | nil => cases hin
  | @leaf t n ts ns hmark _ ih =>
    cases hin with
    | head => cases hkind : t.kind <;> simp [Token.mark?, hkind] at hmark
    | tail hin =>
      obtain ⟨before, front, inner, back, after, rfl, hrest⟩ := ih hin
      exact ⟨t :: before, front, inner, back, after, rfl, hrest⟩
    | child => cases hkind : t.kind <;> simp [Token.mark?, hkind] at hmark
  | @block front inverted inner children back body ts ns hfront hinner hback _ hbody _ ih ih' =>
    cases hin with
    | head => exact ⟨[], front, inner, back, ts, rfl, hfront, rfl, hback, hinner, hbody⟩
    | tail hin =>
      obtain ⟨before, front', inner', back', after, rfl, hrest⟩ := ih' hin
      exact ⟨front :: (inner ++ back :: before), front', inner', back', after, by simp, hrest⟩
    | child hin =>
      obtain ⟨before, front', inner', back', after, rfl, hrest⟩ := ih hin
      exact ⟨front :: before, front', inner', back', after ++ back :: ts, by simp, hrest⟩

/-! ### The same section at another place -/

theorem exists_mark?_moved {k : Nat} {back : Text} {t t' : Token} {n : Node}
    (h : Moved k back t t') (hmark : t.mark? = some (.leaf n)) :
    ∃ n', t'.mark? = some (.leaf n') ∧ unplacedOf [n'] = unplacedOf [n] := by
  have hkind := h.kind_eq
  cases hkind' : t'.kind <;> rw [hkind'] at hkind <;> simp only [Token.mark?, hkind] at hmark <;>
    cases hmark <;>
    simp [Token.mark?, hkind', unplacedOf, Node.remadeOf, Node.remade, h.content_eq, h.indent_eq]

theorem forall₂_append_left {α β : Type} {R : α → β → Prop} {as bs : List α} {cs : List β}
    (h : List.Forall₂ R (as ++ bs) cs) :
    ∃ as' bs', cs = as' ++ bs' ∧ List.Forall₂ R as as' ∧ List.Forall₂ R bs bs' := by
  induction as generalizing cs with
  | nil => exact ⟨[], cs, rfl, .nil, h⟩
  | cons a as ih =>
    obtain _ | ⟨hac, hcs⟩ := h
    obtain ⟨as', bs', rfl, has, hbs⟩ := ih hcs
    exact ⟨_ :: as', bs', rfl, .cons hac has, hbs⟩

theorem unplacedOf_cons (n : Node) (ns : List Node) :
    unplacedOf (n :: ns) = unplacedOf [n] ++ unplacedOf ns := rfl

/-- Moved tokens nest into the same nodes at other places. -/
theorem Nests.exists_moved {k : Nat} {back : Text} {ts ts' : List Token} {ns : List Node}
    (h : Nests ts ns) (hmoved : List.Forall₂ (Moved k back) ts ts')
    (hbetween : ts'.Pairwise Between) :
    ∃ ns', Nests ts' ns' ∧ unplacedOf ns' = unplacedOf ns := by
  induction h generalizing ts' with
  | nil =>
    cases hmoved
    exact ⟨[], .nil, rfl⟩
  | leaf hmark _ ih =>
    cases hmoved with
    | cons ht hts =>
      obtain ⟨n', hmark', hn⟩ := exists_mark?_moved ht hmark
      obtain ⟨ns', hnests, hns⟩ := ih hts (List.pairwise_cons.1 hbetween).2
      refine ⟨n' :: ns', .leaf hmark' hnests, ?_⟩
      rw [unplacedOf_cons, hn, hns]
      rfl
  | block hfront _ hback hname hbody _ ih ih' =>
    obtain _ | @⟨_, front', _, _, hfront', hrest⟩ := hmoved
    obtain ⟨inner', rest', rfl, hinner', hrest'⟩ := forall₂_append_left hrest
    obtain _ | @⟨_, back', _, after', hback', hafter'⟩ := hrest'
    obtain ⟨hfirst, hpairs⟩ := List.pairwise_cons.1 hbetween
    obtain ⟨hpairs, hpairs', -⟩ := List.pairwise_append.1 hpairs
    obtain ⟨children', hnests, hchildren⟩ := ih hinner' hpairs
    obtain ⟨ns', hnests', hns⟩ := ih' hafter' (List.pairwise_cons.1 hpairs').2
    obtain ⟨body', hbody'⟩ := hfirst back' (by simp)
    have heq := hfront'.textUpTo? hback' hbody'
    rw [hbody, Option.some.injEq] at heq
    refine ⟨_, .block (hfront'.kind_eq.symm.trans hfront) hnests
      (hback'.kind_eq.symm.trans hback) ?_ hbody' hnests', ?_⟩
    · rw [← hback'.content_eq, hname, hfront'.content_eq]
    · rw [unplacedOf_cons, hns, unplacedOf_cons _ (_ : List Node), ← heq, ← hfront'.content_eq]
      rw [unplacedOf] at hchildren
      simp only [unplacedOf, Node.remadeOf, Node.remade, hchildren]
      rfl

/-! ### The body of a section -/

/-- The first token is a run that starts with something written. -/
def StartsInText (ts : List Token) : Prop :=
  ∃ t ∈ ts.head?, t.kind = .text ∧ t.content.SolidStart

instance (ts : List Token) : Decidable (StartsInText ts) :=
  inferInstanceAs (Decidable (∃ t ∈ ts.head?, t.kind = .text ∧ t.content.SolidStart))

/-- The text between the tags of a section can be scanned with the delimiters in force at its start.
If something is written at both of its ends beside the tags, its tokens nest into the children of
the section. -/
theorem exists_nest_body {source key body : Text} {tokens : List Token} {template : Template}
    {inverted : Bool} {children : List Node} {pos : Position} (hscan : scan source = .ok tokens)
    (hparse : parse source = .ok template)
    (hin : Inside (.block key inverted children body pos) template.nodes) :
    ∃ before front rest d inner, tokens = before ++ front :: rest ∧
      front.kind = .opening inverted ∧ front.pos = pos ∧ InForce .braces before d ∧
      scanFrom d .start body = .ok inner ∧ (StartsInText inner → EndsInText inner →
        ∃ nodes, nest (settle inner) = .ok nodes ∧ unplacedOf nodes = unplacedOf children) := by
  obtain ⟨tokens', hscan', hnest⟩ := exists_of_parse hparse
  rw [hscan] at hscan'
  cases hscan'
  obtain ⟨hnests, hdepth⟩ := nest_eq_ok_iff.1 hnest
  obtain ⟨before, front, settled, back, after, hsettle, hfront, hpos, hback, hchildren, hbody⟩ :=
    hnests.exists_of_inside hin
  -- The tokens between the two tags, before their lines are settled.
  obtain ⟨pre, vs, line, rfl, -, hvs⟩ := exists_of_settleFrom_eq (.inl ⟨inverted, hfront⟩) hsettle
  obtain ⟨inner, post, -, rfl, rfl, -⟩ := exists_of_settleFrom_eq (.inr hback) hvs.symm
  obtain ⟨hbody', k, tail, hmoved⟩ := exists_moved_of_placed (placed_of_scan hscan)
  rw [hbody, Option.some.injEq] at hbody'
  have hsplit := isSplit_of_scan hscan
  obtain ⟨d, hforce, -⟩ := hsplit.isNext pre front (inner ++ back :: post) rfl
  have hforceInner : InForce .braces (pre ++ [front]) d :=
    (inForce_concat_of_ne (by simp [hfront])).2 hforce
  have hscanBody := IsSplit.scanFrom_placed (by simpa using hsplit) hforceInner .start
  rw [← hbody'] at hscanBody
  refine ⟨pre, front, _, d, _, rfl, hfront, hpos, hforce, hscanBody, fun hstarts hends => ?_⟩
  have hbetween := pairwise_settle (pairwise_placed [] .start inner)
  generalize placed [] .start inner = inner' at hmoved hstarts hends hbetween
  have hends' := hends.of_moved hmoved
  cases hmoved with
  | nil => simp [StartsInText] at hstarts
  | @cons t t' ts ts' ht hts =>
    obtain ⟨hkind, hsolid⟩ : t.kind = .text ∧ t.content.SolidStart := by
      simpa [StartsInText, ht.kind_eq, ht.content_eq] using hstarts
    have hcut : isAlone line front (t :: (ts ++ back :: post)) = false := by
      simp [isAlone, lineEndsBefore, hsolid.endsLine_eq_false]
    rw [List.cons_append, hcut] at hchildren
    obtain ⟨ns', hnests', hns'⟩ :=
      hchildren.exists_moved (moved_settle ht hts hkind hsolid hends') hbetween
    refine ⟨ns', nest_eq_ok_iff.2 ⟨hnests', ?_⟩, hns'⟩
    have h := congrArg depthOf hns'
    rw [unplacedOf, Node.depthOf_remadeOf, Node.depthOf_remadeOf] at h
    rw [h]
    exact Nat.le_trans (depthOf_le_of_inside hin) hdepth

/-- In a template that sets no delimiters the text between the tags of a section parses to the
children of the section, if something is written at both of its ends beside the tags. -/
theorem exists_parse_body {source key body : Text} {tokens : List Token} {template : Template}
    {inverted : Bool} {children : List Node} {pos : Position} (hscan : scan source = .ok tokens)
    (hparse : parse source = .ok template) (hkeeps : ∀ t ∈ tokens, t.kind ≠ .delimiters)
    (hin : Inside (.block key inverted children body pos) template.nodes) :
    ∃ inner, scan body = .ok inner ∧ (StartsInText inner → EndsInText inner →
      ∃ template', parse body = .ok template' ∧
        unplacedOf template'.nodes = unplacedOf children) := by
  obtain ⟨before, front, rest, d, inner, rfl, -, -, hforce, hinner, hlocal⟩ :=
    exists_nest_body hscan hparse hin
  obtain rfl : d = .braces :=
    hforce.unique (.inl ⟨rfl, fun t ht => hkeeps t (List.mem_append_left _ ht)⟩)
  refine ⟨inner, hinner, fun hstarts hends => ?_⟩
  obtain ⟨nodes, hnest, hnodes⟩ := hlocal hstarts hends
  exact ⟨{ nodes }, by simp [parse, scan, hinner, hnest], hnodes⟩

end Template

end Mustache
