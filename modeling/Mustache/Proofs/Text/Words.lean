import Mathlib.Data.List.Basic
import Mathlib.Data.List.TakeWhile
import Mustache.Proofs.Token.Tiling

/-!
# Words and delimiters

A text that is not white space alone has a first word, which can be read off its front
(`Text.white_or_exists`). A tag sets delimiters just when it holds two words without `=`, with white
space between them and perhaps around them (`Delimiters.ofContent?_eq_some_iff`).
-/

namespace Mustache

namespace Text

variable {s w lead trail rest : Text}

/-- Only white space. -/
def White (s : Text) : Prop := ∀ c ∈ s, isWhite c = true

/-- No white space. -/
def Solid (s : Text) : Prop := ∀ c ∈ s, isWhite c = false

/-! ### White space at both ends -/

theorem dropWhile_eq_self {p : Char → Bool} {s : Text} (h : ∀ c ∈ s.head?, p c = false) :
    s.dropWhile p = s := by
  cases s with
  | nil => rfl
  | cons c s => rw [List.dropWhile_cons, h c rfl]; rfl

theorem head?_dropWhile_eq_false (p : Char → Bool) (s : Text) :
    ∀ c ∈ (s.dropWhile p).head?, p c = false := by
  intro c hc
  have h := List.head?_dropWhile_not p s
  rw [hc] at h
  simpa using h

theorem white_takeWhile (s : Text) : White (s.takeWhile isWhite) := fun _ => List.mem_takeWhile_imp

/-- White space is taken away at both ends, and nothing else is. -/
theorem exists_trim (s : Text) : ∃ lead trail, s = lead ++ (s.trim ++ trail) ∧ White lead ∧
    White trail := by
  refine ⟨s.takeWhile isWhite, ((s.dropWhile isWhite).reverse.takeWhile isWhite).reverse, ?_,
    white_takeWhile s, fun c hc => white_takeWhile _ c (List.mem_reverse.1 hc)⟩
  rw [trim, ← List.reverse_append, List.takeWhile_append_dropWhile, List.reverse_reverse,
    List.takeWhile_append_dropWhile]

theorem trim_eq (hlead : White lead) (htrail : White trail) (hstart : ∀ c ∈ s.head?, isWhite c = false)
    (hend : ∀ c ∈ s.getLast?, isWhite c = false) (hne : s ≠ []) :
    (lead ++ (s ++ trail)).trim = s := by
  have hfront : ∀ c ∈ (s ++ trail).head?, isWhite c = false := by
    rw [List.head?_append_of_ne_nil _ hne]
    exact hstart
  have hback : ∀ c ∈ s.reverse.head?, isWhite c = false := by
    rw [List.head?_reverse]
    exact hend
  rw [trim, List.dropWhile_append_of_pos hlead, dropWhile_eq_self hfront, List.reverse_append,
    List.dropWhile_append_of_pos fun c hc => htrail c (List.mem_reverse.1 hc),
    dropWhile_eq_self hback, List.reverse_reverse]

theorem trim_trim (s : Text) : s.trim.trim = s.trim := by
  obtain ⟨back, hback⟩ := List.dropWhile_suffix (l := (s.dropWhile isWhite).reverse) isWhite
  have hprefix : s.trim ++ back.reverse = s.dropWhile isWhite := by
    rw [trim, ← List.reverse_append, hback, List.reverse_reverse]
  have hfront : s.trim.dropWhile isWhite = s.trim := by
    refine dropWhile_eq_self fun c hc => head?_dropWhile_eq_false isWhite s c ?_
    rw [← hprefix, List.head?_append, hc]
    rfl
  rw [trim.eq_def s.trim, hfront, trim, List.reverse_reverse]
  rw [dropWhile_eq_self (head?_dropWhile_eq_false isWhite _)]

/-! ### The first word -/

theorem splitAt_append_of_forall {p : Char → Bool} (h : ∀ c ∈ w, p c = false) (rest : Text) :
    splitAt p (w ++ rest) = (splitAt p rest).modifyHead (w ++ ·) := by
  induction w with
  | nil => exact (congrFun List.modifyHead_id _).symm
  | cons c w ih =>
    rw [List.cons_append, splitAt, if_neg (by simp [h c]), ih fun d hd => h d (by simp [hd])]
    cases splitAt p rest <;> rfl

theorem words_append_of_white (h : White lead) (s : Text) : words (lead ++ s) = words s := by
  induction lead with
  | nil => rfl
  | cons c lead ih =>
    have hc : isWhite c = true := h c List.mem_cons_self
    rw [← ih fun d hd => h d (List.mem_cons_of_mem c hd), List.cons_append, words, splitAt,
      if_pos hc]
    rfl

theorem words_of_white (h : White s) : words s = [] := by
  rw [← List.append_nil s, words_append_of_white h]
  rfl

theorem words_append_of_solid (hw : Solid w) (hne : w ≠ [])
    (hrest : ∀ c ∈ rest.head?, isWhite c = true) : words (w ++ rest) = w :: words rest := by
  rw [words, splitAt_append_of_forall hw]
  cases rest with
  | nil => simp [words, splitAt, hne]
  | cons c rest =>
    have hc : isWhite c = true := hrest c rfl
    simp [words, splitAt, hc, hne]

/-- A text is white space, or it has a first word. -/
theorem white_or_exists (s : Text) : White s ∨ ∃ lead w rest, s = lead ++ (w ++ rest) ∧
    White lead ∧ Solid w ∧ w ≠ [] ∧ ∀ c ∈ rest.head?, isWhite c = true := by
  have hs := List.takeWhile_append_dropWhile (p := isWhite) (l := s)
  have hcore := List.takeWhile_append_dropWhile (p := (!isWhite ·)) (l := s.dropWhile isWhite)
  have hstart := head?_dropWhile_eq_false isWhite s
  cases hdrop : s.dropWhile isWhite with
  | nil =>
    rw [hdrop, List.append_nil] at hs
    exact .inl (hs ▸ white_takeWhile s)
  | cons c core =>
    rw [hdrop] at hs hcore hstart
    have hc : isWhite c = false := hstart c rfl
    refine .inr ⟨s.takeWhile isWhite, (c :: core).takeWhile (!isWhite ·),
      (c :: core).dropWhile (!isWhite ·), by rw [hcore, hs], white_takeWhile s, ?_, ?_, ?_⟩
    · intro d hd
      simpa using List.mem_takeWhile_imp hd
    · simp [hc]
    · intro d hd
      simpa using head?_dropWhile_eq_false (!isWhite ·) (c :: core) d hd

/-- The words of a text are its first word and those of the rest. -/
theorem exists_of_words_eq_cons {ws : List Text} (h : words s = w :: ws) :
    ∃ lead rest, s = lead ++ (w ++ rest) ∧ White lead ∧ Solid w ∧ w ≠ [] ∧
      (∀ c ∈ rest.head?, isWhite c = true) ∧ words rest = ws := by
  rcases white_or_exists s with hwhite | ⟨lead, w', rest, rfl, hlead, hw, hne, hrest⟩
  · rw [words_of_white hwhite] at h
    cases h
  · rw [words_append_of_white hlead, words_append_of_solid hw hne hrest] at h
    cases h
    exact ⟨lead, rest, rfl, hlead, hw, hne, hrest, rfl⟩

theorem white_of_words_eq_nil (h : words s = []) : White s := by
  rcases white_or_exists s with hwhite | ⟨lead, w, rest, rfl, hlead, hw, hne, hrest⟩
  · exact hwhite
  · rw [words_append_of_white hlead, words_append_of_solid hw hne hrest] at h
    cases h

end Text

namespace Delimiters

open Text

variable {d : Delimiters} {content : Text}

/-- The content is the two marks with white space between them, and perhaps around them. Neither
mark holds white space or `=`. -/
def StandIn (d : Delimiters) (content : Text) : Prop :=
  ∃ lead gap trail, content = lead ++ (d.opening ++ (gap ++ (d.closing ++ trail))) ∧
    White lead ∧ White gap ∧ gap ≠ [] ∧ White trail ∧
    (Text.Solid d.opening ∧ '=' ∉ d.opening) ∧ Text.Solid d.closing ∧ '=' ∉ d.closing

theorem words_of_standIn (h : d.StandIn content) : words content = [d.opening, d.closing] := by
  obtain ⟨lead, gap, trail, rfl, hlead, hgap, hne, htrail, ⟨hopening, -⟩, hclosing, -⟩ := h
  have hgap' : ∀ c ∈ (gap ++ (d.closing ++ trail)).head?, isWhite c = true := by
    rw [List.head?_append_of_ne_nil _ hne]
    exact fun c hc => hgap c (List.mem_of_mem_head? hc)
  rw [words_append_of_white hlead, words_append_of_solid hopening d.opening_ne_nil hgap',
    words_append_of_white hgap, words_append_of_solid hclosing d.closing_ne_nil, words_of_white htrail]
  exact fun c hc => htrail c (List.mem_of_mem_head? hc)

/-- A tag sets these delimiters just when they stand in it. -/
theorem ofContent?_eq_some_iff : ofContent? content = some d ↔ d.StandIn content := by
  constructor
  · intro h
    unfold ofContent? at h
    split at h
    · next opening closing hwords =>
      split at h
      · cases h
      · next heq =>
        cases h
        obtain ⟨lead, rest, rfl, hlead, hopening, -, hrest, hwords⟩ := exists_of_words_eq_cons hwords
        obtain ⟨gap, trail, rfl, hgap, hclosing, hne, -, hwords⟩ := exists_of_words_eq_cons hwords
        simp only [List.contains_eq_mem, Bool.or_eq_true, decide_eq_true_eq, not_or] at heq
        refine ⟨lead, gap, trail, rfl, hlead, hgap, ?_, white_of_words_eq_nil hwords,
          ⟨hopening, heq.1⟩, hclosing, heq.2⟩
        rintro rfl
        obtain ⟨c, closing, rfl⟩ := List.exists_cons_of_ne_nil hne
        have hc := hrest c rfl
        rw [hclosing c List.mem_cons_self] at hc
        cases hc
    · cases h
  · intro h
    have hwords := words_of_standIn h
    obtain ⟨-, -, -, -, -, -, -, -, ⟨-, hopening⟩, -, hclosing⟩ := h
    unfold ofContent?
    split
    · next opening closing hwords' =>
      rw [hwords] at hwords'
      cases hwords'
      simp [hopening, hclosing]
    · next hno => exact absurd hwords (hno _ _)

theorem StandIn.unique {d' : Delimiters} (h : d.StandIn content) (h' : d'.StandIn content) :
    d = d' :=
  Option.some.inj ((ofContent?_eq_some_iff.2 h).symm.trans (ofContent?_eq_some_iff.2 h'))

/-- White space around the marks does not matter. -/
theorem standIn_trim_iff : d.StandIn content.trim ↔ d.StandIn content := by
  constructor
  · rintro ⟨lead, gap, trail, htrim, hlead, hgap, hne, htrail, hsolid⟩
    obtain ⟨lead', trail', hcontent, hlead', htrail'⟩ := exists_trim content
    refine ⟨lead' ++ lead, gap, trail ++ trail', ?_, ?_, hgap, hne, ?_, hsolid⟩
    · rw [hcontent, htrim]
      simp
    · exact fun c hc => (List.mem_append.1 hc).elim (hlead' c) (hlead c)
    · exact fun c hc => (List.mem_append.1 hc).elim (htrail c) (htrail' c)
  · rintro ⟨lead, gap, trail, rfl, hlead, hgap, hne, htrail, hopening, hclosing⟩
    have hcore : lead ++ (d.opening ++ (gap ++ (d.closing ++ trail))) =
        lead ++ ((d.opening ++ (gap ++ d.closing)) ++ trail) := by simp
    refine ⟨[], gap, [], ?_, nofun, hgap, hne, nofun, hopening, hclosing⟩
    rw [hcore, trim_eq hlead htrail]
    · simp
    · rw [List.head?_append_of_ne_nil _ d.opening_ne_nil]
      exact fun c hc => hopening.1 c (List.mem_of_mem_head? hc)
    · rw [List.getLast?_append_of_ne_nil, List.getLast?_append_of_ne_nil]
      · exact fun c hc => hclosing.1 c (List.mem_of_mem_getLast? hc)
      · exact d.closing_ne_nil
      · simp [d.closing_ne_nil]
    · simp [d.opening_ne_nil]

end Delimiters

end Mustache
