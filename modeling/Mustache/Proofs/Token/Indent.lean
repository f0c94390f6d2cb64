import Mustache.Proofs.Text.Indent
import Mustache.Proofs.Token.Margins
import Mustache.Proofs.Token.Split

/-!
# The tokens of an indented template

A template whose lines are indented has the same tags as before, and text runs that differ by their
indents. `Token.Spread` says how the tokens of the two templates lie side by side.
-/

namespace Mustache

open Node (indentText)

namespace Token

/-! ### A tag in another place -/

/-- A tag is read up to its closing mark, whatever stands behind it. -/
theorem scanTag_append {d d' : Delimiters} {pos : Position} {body rest : Text} {t : Token}
    (h : scanTag d pos body = .ok (t, d', rest)) :
    ∃ inner, t.lexeme = d.opening ++ inner ∧ ∀ pos' rest',
      scanTag d pos' (inner ++ rest') = .ok ({ t with pos := pos', behind := rest' }, d', rest') := by
  obtain ⟨hnext, hkind, -, hforce⟩ := scanTag_eq_ok_iff.1 h
  obtain ⟨inner, hlexeme⟩ := hnext.fits.exists_lexeme_eq hkind
  refine ⟨inner, hlexeme, fun pos' rest' => scanTag_eq_ok_iff.2 ⟨?_, hkind, ?_, ?_⟩⟩
  · exact ⟨hnext.fits.of_behind hkind pos' rest', rfl, rfl, hnext.indent_eq⟩
  · simp [hlexeme]
  · rwa [inForce_singleton_iff] at hforce ⊢

theorem delimiters_of_scanTag {d d' : Delimiters} {pos : Position} {body rest : Text} {t : Token}
    (h : scanTag d pos body = .ok (t, d', rest)) (ht : t.kind ≠ .delimiters) : d' = d := by
  obtain ⟨-, -, -, hforce⟩ := scanTag_eq_ok_iff.1 h
  rwa [inForce_singleton_iff, if_neg ht] at hforce

/-! ### The tokens of the two templates -/

/-- A tag that leaves a node behind and has no line feed in it. -/
def Plain (t : Token) : Prop := t.kind ≠ .text → t.kind.isSilent = false ∧ '\n' ∉ t.lexeme

instance (t : Token) : Decidable t.Plain := inferInstanceAs (Decidable (_ → _))

/-- A tag and the same tag in another place. -/
structure SameTag (t t' : Token) : Prop where
  ne_text : t.kind ≠ .text
  not_silent : t.kind.isSilent = false
  kind_eq : t'.kind = t.kind
  content_eq : t'.content = t.content
  indent_eq : t.indent = none
  indent_eq' : t'.indent = none

/-- The tokens of a template and those of the template with `w` in front of every line. Each tag has
its counterpart; each text run ends with the indent of the tag behind it, if that tag starts a line.
With `fresh` the first token starts a line. -/
inductive Spread (w : Text) : (fresh : Bool) → List Token → List Token → Prop
  | nil {fresh} : Spread w fresh [] []
  | run {fresh t t' ts ts'} : t.kind = .text → t'.kind = .text → t.content ≠ [] →
    (∀ u ∈ ts.head?, u.kind ≠ .text) →
    t'.content = (indentText w fresh t.content).1 ++
      (if ts.isEmpty then [] else Text.hang w fresh t.content) →
    Spread w false ts ts' → Spread w fresh (t :: ts) (t' :: ts')
  | tag {t t' ts ts'} : SameTag t t' → Spread w false ts ts' → Spread w false (t :: ts) (t' :: ts')
  | lead {t t' ts ts'} : t.kind ≠ .text → t'.kind = .text → t'.content = w →
    Spread w false (t :: ts) ts' → Spread w true (t :: ts) (t' :: ts')

variable {w : Text}

theorem scanFrom_tag {d d' : Delimiters} {pos : Position} {body rest : Text} {t : Token}
    {ts : List Token} (hscan : scanTag d pos body = .ok (t, d', rest))
    (hrest : scanFrom d' (pos.advance t.lexeme) rest = .ok ts) :
    scanFrom d pos (d.opening ++ body) = .ok (t :: ts) := by
  rw [scanFrom_opening, hscan]
  dsimp only
  rw [hrest]
  rfl

theorem scanFrom_run {d : Delimiters} {pos : Position} {run rest : Text} {ts : List Token}
    (hne : run ≠ []) (hrun : Text.spanUntil d.opening (run ++ rest) = (run, rest))
    (hrest : scanFrom d (pos.advance run) rest = .ok ts) :
    scanFrom d pos (run ++ rest) = .ok (⟨.text, run, run, pos, rest, none⟩ :: ts) := by
  obtain ⟨-, havoids, -⟩ := Text.spanUntil_eq_iff.1 hrun
  rw [scanFrom_of_run (List.append_ne_nil_of_left_ne_nil hne _)
    fun hmark => hne (havoids.eq_nil hmark), hrun, hrest]
  rfl

theorem isEmpty_of_scanFrom {d : Delimiters} {pos : Position} {source : Text} {ts : List Token}
    (h : scanFrom d pos source = .ok ts) : ts.isEmpty = source.isEmpty := by
  unfold scanFrom at h
  split at h
  · cases h
    rfl
  · split at h
    · obtain ⟨us, -, rfl⟩ := exists_ok_of_map_eq_ok h
      rfl
    · split at h
      · cases h
      · obtain ⟨us, -, rfl⟩ := exists_ok_of_map_eq_ok h
        rfl

/-- Indenting the lines of a template spreads its tokens and does nothing else to them. -/
theorem spread_of_scanFrom (hw : w.all Text.isLineBlank) (hne : w ≠ []) {d : Delimiters}
    {pos : Position} {source : Text} {ts : List Token} (hd : d = .braces)
    (h : scanFrom d pos source = .ok ts) (hplain : ∀ t ∈ ts, t.Plain) (fresh : Bool)
    (pos' : Position) :
    ∃ ts', scanFrom .braces pos' (indentText w fresh source).1 = .ok ts' ∧
      Spread w fresh ts ts' := by
  fun_induction scanFrom d pos source generalizing ts fresh pos' with
  | case1 d pos =>
    cases h
    exact ⟨[], by simp [indentText, scanFrom], .nil⟩
  | case2 d pos c s hnone run =>
    rename_i ih
    subst hd
    obtain ⟨us, hus, rfl⟩ := exists_ok_of_map_eq_ok h
    have hrun : run.1 ≠ [] := Text.spanUntil_fst_ne_nil hnone
    have hspan := Text.spanUntil_indentText hw fresh (c :: s)
    have hhead : ∀ u ∈ us.head?, u.kind ≠ .text := by
      rcases Text.spanUntil_snd Delimiters.braces.opening (c :: s) with hend | ⟨body, hbody⟩
      · have hempty := isEmpty_of_scanFrom hus
        rw [show run.2 = [] from hend, List.isEmpty_nil, List.isEmpty_iff] at hempty
        simp [hempty]
      · exact head_ne_text_of_scanFrom Delimiters.solid_braces (hbody ▸ hus)
    obtain ⟨us', hus', hspread⟩ :=
      ih rfl hus (fun t ht => hplain t (List.mem_cons_of_mem _ ht)) false
        (pos'.advance (Text.spanUntil ['{', '{'] (indentText w fresh (c :: s)).1).1)
    have hrest : (Text.spanUntil ['{', '{'] (indentText w fresh (c :: s)).1).2 =
        (indentText w false run.2).1 := by rw [hspan]; rfl
    rw [← hrest] at hus'
    have hsplit := Text.spanUntil_append ['{', '{'] (indentText w fresh (c :: s)).1
    have hcontent : (Text.spanUntil ['{', '{'] (indentText w fresh (c :: s)).1).1 =
        (indentText w fresh run.1).1 ++ (if us.isEmpty then [] else Text.hang w fresh run.1) := by
      rw [hspan, isEmpty_of_scanFrom hus]
      by_cases hend : run.2 = []
      · rw [hend, if_pos (by exact hend)]
        rfl
      · rw [List.isEmpty_eq_false_iff.2 hend, if_neg (by exact hend)]
        rfl
    have hrun' : (Text.spanUntil ['{', '{'] (indentText w fresh (c :: s)).1).1 ≠ [] := by
      rw [hcontent]
      exact fun hnil => hrun (Text.indentText_eq_nil.1 (List.append_eq_nil_iff.1 hnil).1)
    exact ⟨_, hsplit ▸ scanFrom_run hrun' (by rw [hsplit]; rfl) hus',
      .run rfl rfl hrun hhead hcontent hspread⟩
  | case3 => cases h
  | case4 d pos c s body hopening t d' rest hscan ih =>
    subst hd
    obtain ⟨us, hus, rfl⟩ := exists_ok_of_map_eq_ok h
    have htag := (isTagOf_of_scanTag Delimiters.solid_braces hscan).1
    obtain ⟨hsilent, hnewline⟩ := hplain t List.mem_cons_self htag.kind_ne_text
    have hkeeps : t.kind ≠ .delimiters := fun h => by simp [h, Kind.isSilent] at hsilent
    obtain rfl := delimiters_of_scanTag hscan hkeeps
    obtain ⟨inner, hlexeme, htags⟩ := scanTag_append hscan
    have hsource := lexeme_append_of_scanTag hscan
    rw [Text.dropPrefix?_eq_some_iff.1 hopening] at hsource
    have hlexeme_ne : t.lexeme ≠ [] := by
      rw [hlexeme]
      exact fun h => Delimiters.braces.opening_ne_nil (List.append_eq_nil_iff.1 h).1
    have hindent : (indentText w false (c :: s)).1 =
        Delimiters.braces.opening ++ (inner ++ (indentText w false rest).1) := by
      rw [← hsource, Text.indentText_append, Text.indentText_of_not_mem hnewline,
        Text.freshAfter_of_not_mem hlexeme_ne hnewline, hlexeme, List.append_assoc]
    -- On a line that has started the tag is read as before, with the indented rest behind it.
    have hstarted : ∀ pos', ∃ ts',
        scanFrom .braces pos' (indentText w false (c :: s)).1 = .ok ts' ∧
          Spread w false (t :: us) ts' := by
      intro pos'
      obtain ⟨us', hus', hspread⟩ :=
        ih rfl hus (fun u hu => hplain u (List.mem_cons_of_mem _ hu)) false
          (pos'.advance t.lexeme)
      refine ⟨_, hindent ▸ scanFrom_tag (htags pos' _) hus', .tag ?_ hspread⟩
      exact ⟨htag.kind_ne_text, hsilent, rfl, rfl, htag.indent_eq, htag.indent_eq⟩
    cases fresh with
    | false => exact hstarted pos'
    | true =>
      obtain ⟨ts', hts', hspread⟩ := hstarted (pos'.advance w)
      rw [Text.indentText_true (List.cons_ne_nil c s)]
      refine ⟨_, scanFrom_run hne ?_ hts', .lead htag.kind_ne_text rfl rfl hspread⟩
      have hmark := Text.spanUntil_mark Delimiters.braces.opening (inner ++ (indentText w false rest).1)
      rw [hindent]
      refine (Text.spanUntil_braces_of_blank hw _).trans ?_
      rw [show ['{', '{'] = Delimiters.braces.opening from rfl, hmark, List.append_nil]

end Token

end Mustache
