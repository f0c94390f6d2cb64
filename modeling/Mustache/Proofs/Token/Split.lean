import Mustache.Proofs.Token.Next

/-!
# The one split of a template

`Token.IsSplit` says what it is for tokens to split a template, with no regard to the order in which
they are found: they lie side by side, and each is a text run or a tag by the delimiters that the
nearest change of delimiters in front of it sets. `Token.FirstFault` says that a tag is not well
formed and that everything in front of it is split. A template has either one split or one first
fault, and the scan finds it (`Token.scan_eq_ok_iff_and_scan_eq_error_iff`).
-/

namespace Mustache.Token

/-! ### The split -/

/-- The tokens split the template up to `rest`: they lie side by side, and each is a token by the
delimiters in force at it. -/
structure IsSplit (d₀ : Delimiters) (source : Text) (ts : List Token) (rest : Text) : Prop where
  source_eq : ts.flatMap lexeme ++ rest = source
  isNext : ∀ before t after, ts = before ++ t :: after → ∃ d, InForce d₀ before d ∧
    t.IsNext d (Position.start.advance (before.flatMap lexeme)) (after.flatMap lexeme ++ rest)

/-- The first fault: the tag at `e.pos` is not well formed, and the template is split up to it. -/
def FirstFault (d₀ : Delimiters) (source : Text) (e : ParseError) : Prop :=
  ∃ ts rest d, IsSplit d₀ source ts rest ∧ InForce d₀ ts d ∧ Fails d rest e.cause ∧
    e.pos = Position.start.advance (ts.flatMap lexeme)

section
variable {d₀ d : Delimiters} {source rest : Text} {t : Token} {ts us : List Token} {e : ParseError}

theorem isSplit_nil (d₀ : Delimiters) (source : Text) : IsSplit d₀ source [] source :=
  ⟨rfl, fun before t after h => by simp at h⟩

theorem isSplit_concat_iff : IsSplit d₀ source (ts ++ [t]) rest ↔
    IsSplit d₀ source ts (t.lexeme ++ rest) ∧ ∃ d, InForce d₀ ts d ∧
      t.IsNext d (Position.start.advance (ts.flatMap lexeme)) rest := by
  constructor
  · rintro ⟨hsource, hnext⟩
    refine ⟨⟨by simpa using hsource, fun before u after h => ?_⟩, hnext ts t [] rfl⟩
    simpa using hnext before u (after ++ [t]) (by simp [h])
  · rintro ⟨⟨hsource, hnext⟩, hlast⟩
    refine ⟨by simpa using hsource, fun before u after h => ?_⟩
    rcases List.eq_nil_or_concat after with rfl | ⟨after, v, rfl⟩
    · obtain ⟨rfl, heq⟩ := List.append_inj' h rfl
      cases heq
      exact hlast
    · have hlast : ts ++ [t] = (before ++ u :: after) ++ [v] := by simpa using h
      obtain ⟨rfl, heq⟩ := List.append_inj' hlast rfl
      cases heq
      simpa using hnext before u after rfl

/-- Behind a split some delimiters are in force. -/
theorem IsSplit.exists_inForce (h : IsSplit d₀ source ts rest) : ∃ d, InForce d₀ ts d := by
  induction ts using List.reverseRecOn generalizing rest with
  | nil => exact ⟨d₀, inForce_nil_iff.2 rfl⟩
  | append_singleton ts t ih =>
    obtain ⟨-, d, hforce, hnext⟩ := isSplit_concat_iff.1 h
    obtain ⟨d', hforce'⟩ := hnext.fits.exists_inForce
    exact ⟨d', hforce.append hforce'⟩

/-- A template is scanned along a split of its front. -/
theorem IsSplit.scanFrom_eq (h : IsSplit d₀ source ts rest) (hforce : InForce d₀ ts d) :
    scanFrom d₀ .start source =
      (scanFrom d (Position.start.advance (ts.flatMap lexeme)) rest).map (ts ++ ·) := by
  induction ts using List.reverseRecOn generalizing d rest with
  | nil =>
    obtain rfl : rest = source := h.source_eq
    rw [inForce_nil_iff.1 hforce, List.flatMap_nil, Position.advance_nil]
    cases scanFrom d₀ Position.start rest <;> rfl
  | append_singleton ts t ih =>
    obtain ⟨hsplit, d', hforce', hnext⟩ := isSplit_concat_iff.1 h
    rw [ih hsplit hforce', hnext.scanFrom_eq (hforce.of_concat hforce'), List.flatMap_append,
      List.flatMap_singleton, Position.advance_append]
    cases scanFrom d _ rest <;> simp [Except.map]

/-- What is split up to somewhere is split to its end, or has a first fault. -/
theorem IsSplit.exists_isSplit_or_firstFault (h : IsSplit d₀ source ts rest) :
    (∃ us, IsSplit d₀ source us []) ∨ ∃ e, FirstFault d₀ source e := by
  induction hlength : rest.length using Nat.strongRecOn generalizing ts rest with | _ n ih
  subst hlength
  obtain ⟨d, hforce⟩ := h.exists_inForce
  by_cases hnil : rest = []
  · subst hnil
    exact .inl ⟨ts, h⟩
  rcases exists_isNext_or_fails d (Position.start.advance (ts.flatMap lexeme)) hnil with
    ⟨t, rest', d', rfl, hnext, -⟩ | ⟨cause, hfails⟩
  · have hne := List.length_pos_iff.2 hnext.fits.lexeme_ne_nil
    refine ih rest'.length ?_ (isSplit_concat_iff.2 ⟨h, d, hforce, hnext⟩) rfl
    rw [List.length_append]
    omega
  · exact .inr ⟨⟨cause, _⟩, ts, rest, d, h, hforce, hfails, rfl⟩

theorem IsSplit.lexeme_ne_nil (h : IsSplit d₀ source ts rest) (ht : t ∈ ts) : t.lexeme ≠ [] := by
  obtain ⟨before, after, rfl⟩ := List.append_of_mem ht
  obtain ⟨d, -, hnext⟩ := h.isNext before t after rfl
  exact hnext.fits.lexeme_ne_nil

theorem IsSplit.offsets {before after : List Token} (h : IsSplit d₀ source ts rest)
    (hts : ts = before ++ t :: after) :
    t.pos.offset = Text.byteLength (before.flatMap lexeme) ∧
      t.stop = Text.byteLength ((before ++ [t]).flatMap lexeme) := by
  obtain ⟨d, -, hnext⟩ := h.isNext before t after hts
  have hoffset : t.pos.offset = Text.byteLength (before.flatMap lexeme) := by
    rw [hnext.pos_eq, Position.offset_advance, Position.start, Nat.zero_add]
  exact ⟨hoffset, by simp [stop, hoffset]⟩

theorem Fits.offset_lt_stop (h : Fits d t) : t.pos.offset < t.stop := by
  obtain ⟨c, s, hlexeme⟩ := List.exists_cons_of_ne_nil h.lexeme_ne_nil
  have hpos := c.utf8Size_pos
  rw [stop, hlexeme, Text.byteLength_cons]
  omega

theorem IsSplit.pairwise_offset (h : IsSplit d₀ source ts rest) :
    ts.Pairwise fun t u => t.pos.offset < u.pos.offset := by
  induction ts using List.reverseRecOn generalizing rest with
  | nil => exact .nil
  | append_singleton ts t ih =>
    have hts := (isSplit_concat_iff.1 h).1
    refine List.pairwise_append.2 ⟨ih hts, List.pairwise_singleton _ _, fun u hu v hv => ?_⟩
    obtain rfl := List.mem_singleton.1 hv
    obtain ⟨before, after, rfl⟩ := List.append_of_mem hu
    obtain ⟨d, -, hnext⟩ := hts.isNext before u after rfl
    have hlt := hnext.fits.offset_lt_stop
    have hstop := (hts.offsets rfl).2
    have hoffset := (h.offsets rfl).1
    simp only [List.flatMap_append, List.flatMap_cons, List.flatMap_nil, List.append_nil,
      Text.byteLength_append] at hstop hoffset
    omega

/-- Behind a text run stands a tag: the run reaches up to a delimiter that no other run begins
with. -/
theorem IsSplit.kind_ne_text {before after : List Token} {u : Token}
    (h : IsSplit d₀ source (before ++ t :: u :: after) rest) (hkind : t.kind = .text) :
    u.kind ≠ .text := by
  intro hkind'
  obtain ⟨d, hforce, hnext⟩ := h.isNext before t (u :: after) rfl
  obtain ⟨d', hforce', hnext'⟩ := h.isNext (before ++ [t]) u after (by simp)
  obtain rfl : d' = d :=
    ((inForce_concat_of_ne (by simp [hkind])).1 hforce').unique hforce
  have hbehind : t.behind = u.lexeme ++ u.behind := by
    rw [hnext.behind_eq, hnext'.behind_eq, List.flatMap_cons, List.append_assoc]
  cases hnext'.fits with
  | tag _ hencloses hhead => exact hencloses.kind_ne_text (hhead ▸ hkind')
  | run _ _ hne havoids =>
    cases hnext.fits with
    | tag _ hencloses hhead => exact hencloses.kind_ne_text (hhead ▸ hkind)
    | run _ _ _ _ hmark =>
      rw [hbehind] at hmark
      rcases hmark with hnil | hmark
      · exact hne (List.append_eq_nil_iff.1 hnil).1
      · exact hne (havoids.eq_nil hmark)

/-- By their byte offsets the tokens take up the template from its start to its end, without a gap.
No text run stands beside another one. -/
structure TakesUp (ts : List Token) (source : Text) : Prop where
  offset_lt_stop : ∀ t ∈ ts, t.pos.offset < t.stop
  offset_head : ∀ t ∈ ts.head?, t.pos.offset = 0
  stop_eq_offset : ∀ before t u after, ts = before ++ t :: u :: after → t.stop = u.pos.offset
  stop_getLast : ∀ t ∈ ts.getLast?, t.stop = source.byteLength
  eq_nil : ts = [] → source = []
  kind_ne_text : ∀ before t u after, ts = before ++ t :: u :: after → t.kind = .text →
    u.kind ≠ .text

theorem IsSplit.takesUp (h : IsSplit d₀ source ts []) : TakesUp ts source where
  offset_lt_stop t ht := by
    obtain ⟨before, after, rfl⟩ := List.append_of_mem ht
    obtain ⟨d, -, hnext⟩ := h.isNext before t after rfl
    exact hnext.fits.offset_lt_stop
  offset_head t ht := by
    obtain ⟨after, rfl⟩ := List.head?_eq_some_iff.1 ht
    exact (h.offsets (List.nil_append _).symm).1
  stop_eq_offset before t u after heq := by
    have hu : ts = (before ++ [t]) ++ u :: after := by simp [heq]
    rw [(h.offsets heq).2, (h.offsets hu).1]
  stop_getLast t ht := by
    obtain ⟨before, rfl⟩ := List.getLast?_eq_some_iff.1 ht
    have hsource := h.source_eq
    rw [List.append_nil] at hsource
    rw [(h.offsets rfl).2, hsource]
  eq_nil hnil := by simpa [hnil] using h.source_eq.symm
  kind_ne_text before t u after heq := by
    subst heq
    exact h.kind_ne_text

end

/-! ### The scan -/

section
variable {source : Text} {ts : List Token} {e : ParseError}

theorem IsSplit.scan_eq (h : IsSplit .braces source ts []) : scan source = .ok ts := by
  obtain ⟨d, hforce⟩ := h.exists_inForce
  rw [scan, h.scanFrom_eq hforce, scanFrom]
  simp [Except.map]

theorem FirstFault.scan_eq (h : FirstFault .braces source e) : scan source = .error e := by
  obtain ⟨ts, rest, d, hsplit, hforce, hfails, hpos⟩ := h
  rw [scan, hsplit.scanFrom_eq hforce, hfails.scanFrom_eq, ← hpos]
  rfl

theorem isSplit_of_scan (h : scan source = .ok ts) : IsSplit .braces source ts [] := by
  rcases (isSplit_nil .braces source).exists_isSplit_or_firstFault with ⟨us, hsplit⟩ | ⟨e, hfault⟩
  · rw [hsplit.scan_eq] at h
    cases h
    exact hsplit
  · rw [hfault.scan_eq] at h
    cases h

theorem firstFault_of_scan (h : scan source = .error e) : FirstFault .braces source e := by
  rcases (isSplit_nil .braces source).exists_isSplit_or_firstFault with ⟨us, hsplit⟩ | ⟨e', hfault⟩
  · rw [hsplit.scan_eq] at h
    cases h
  · rw [hfault.scan_eq] at h
    cases h
    exact hfault

end

/-- **The one possible split.** The scan of a template gives its split, which takes up all of the
template, or its first fault. -/
theorem scan_eq_ok_iff_and_scan_eq_error_iff (source : Text) :
    (∀ ts, scan source = .ok ts ↔ IsSplit .braces source ts []) ∧
      (∀ e, scan source = .error e ↔ FirstFault .braces source e) ∧
      ∀ ts, scan source = .ok ts → TakesUp ts source :=
  ⟨fun _ => ⟨isSplit_of_scan, IsSplit.scan_eq⟩, fun _ => ⟨firstFault_of_scan, FirstFault.scan_eq⟩,
    fun _ hts => (isSplit_of_scan hts).takesUp⟩

end Mustache.Token
