import Mathlib.Data.List.Induction
import Mustache.Proofs.Text.Words

/-!
# The token that stands next

`Token.IsNext` says which token stands at the front of a text by given delimiters, and `Token.Fails`
that a tag stands there that is not well formed. One of the two holds of every text that is not
empty (`Token.exists_isNext_or_fails`), and the scan takes the token, or stops at the tag
(`Token.IsNext.scanFrom_eq`, `Token.Fails.scanFrom_eq`). `Token.InForce` follows the delimiters that
tags set.
-/

namespace Mustache.Token

open Text (Avoids)

/-! ### The front of a tag -/

/-- The characters that choose a kind of tag. -/
def sigils : List Char := ['{', '&', '#', '^', '/', '>', '!', '=']

/-- The front of a tag, when `rest` stands behind it: a character that chooses a kind is taken if it
follows the opening delimiter at once. -/
inductive Head.Fronts : Head → (rest : Text) → Prop
  | plain {rest} : (∀ c ∈ rest.head?, c ∉ sigils) → Fronts ⟨.escaped, [], []⟩ rest
  | braced {rest} : Fronts ⟨.raw, ['{'], ['}']⟩ rest
  | raw {rest} : Fronts ⟨.raw, ['&'], []⟩ rest
  | opening {rest} : Fronts ⟨.opening false, ['#'], []⟩ rest
  | inverted {rest} : Fronts ⟨.opening true, ['^'], []⟩ rest
  | closing {rest} : Fronts ⟨.closing, ['/'], []⟩ rest
  | inclusion {rest} : Fronts ⟨.inclusion, ['>'], []⟩ rest
  | comment {rest} : Fronts ⟨.comment, ['!'], []⟩ rest
  | delimiters {rest} : Fronts ⟨.delimiters, ['='], ['=']⟩ rest

theorem Kind.ofSigil?_eq_none_iff {c : Char} : Kind.ofSigil? c = none ↔ c ∉ sigils := by
  unfold Kind.ofSigil?
  split <;> simp_all [sigils]

theorem Head.fronts_of_ofSigil? {c : Char} {kind : Kind} {guard : Text}
    (h : Kind.ofSigil? c = some (kind, guard)) (rest : Text) : Fronts ⟨kind, [c], guard⟩ rest := by
  unfold Kind.ofSigil? at h
  split at h <;> cases h <;> constructor

theorem Head.read_eq_iff {body rest : Text} {head : Head} :
    Head.read body = (head, rest) ↔ head.sigil ++ rest = body ∧ head.Fronts rest := by
  constructor
  · intro h
    have hbody := Head.read_append body
    rw [h] at hbody
    refine ⟨hbody, ?_⟩
    cases body with
    | nil =>
      cases h
      exact .plain nofun
    | cons c body =>
      rw [Head.read] at h
      cases hsigil : Kind.ofSigil? c with
      | none =>
        rw [hsigil] at h
        cases h
        refine .plain fun c' hc' => ?_
        rw [← Option.some.inj hc']
        exact Kind.ofSigil?_eq_none_iff.1 hsigil
      | some chosen =>
        rw [hsigil] at h
        cases h
        exact fronts_of_ofSigil? hsigil _
  · rintro ⟨rfl, hfronts⟩
    cases hfronts with
    | plain hrest =>
      cases rest with
      | nil => rfl
      | cons c rest =>
        rw [List.nil_append, Head.read, Kind.ofSigil?_eq_none_iff.2 (hrest c rfl)]
    | _ => rfl

theorem Head.Fronts.of_head? {head : Head} {rest rest' : Text} (h : head.Fronts rest)
    (hrest : rest'.head? = rest.head?) : head.Fronts rest' := by
  cases h with
  | plain hplain => exact .plain (hrest ▸ hplain)
  | _ => constructor

/-! ### One token -/

/-- A tag behind its opening delimiter: its front, `inner` up to the first closing mark, and then
`behind`. -/
structure Encloses (d : Delimiters) (head : Head) (inner behind body : Text) : Prop where
  body_eq : body = head.sigil ++ (inner ++ (head.guard ++ d.closing ++ behind))
  fronts : head.Fronts (inner ++ (head.guard ++ d.closing ++ behind))
  avoids : Avoids (head.guard ++ d.closing) inner (head.guard ++ d.closing ++ behind)

/-- What a tag holds, given the text between its marks: a comment all of it, the others what is left
without white space around it. That must not be empty, and where delimiters are set two delimiters
must stand in it. -/
inductive Kind.Holds : Kind → (inner content : Text) → Prop
  | comment {inner} : Holds .comment inner inner
  | delimiters {inner} {d : Delimiters} : d.StandIn inner → Holds .delimiters inner inner.trim
  | name {kind} {inner : Text} : kind ≠ .comment → kind ≠ .delimiters → inner.trim ≠ [] →
    Holds kind inner inner.trim

theorem Kind.Holds.exists_standIn {inner content : Text} (h : Kind.Holds .delimiters inner content) :
    ∃ d : Delimiters, d.StandIn content := by
  cases h with
  | delimiters hstand => exact ⟨_, Delimiters.standIn_trim_iff.2 hstand⟩
  | name _ hdelimiters => exact absurd rfl hdelimiters

/-- Why a tag with this text between its marks is not well formed. -/
inductive Kind.Rejects : Kind → (inner : Text) → ParseError.Cause → Prop
  | emptyName {kind} {inner : Text} : kind ≠ .comment → kind ≠ .delimiters → inner.trim = [] →
    Rejects kind inner .emptyTagName
  | delimiters {inner} : (∀ d : Delimiters, ¬ d.StandIn inner) →
    Rejects .delimiters inner (.invalidDelimiters inner.trim)

/-- The token is what stands in front of the text behind it, by these delimiters: a text run up to
the first opening delimiter, or up to the end, or a tag. -/
inductive Fits (d : Delimiters) (t : Token) : Prop
  | run : t.kind = .text → t.content = t.lexeme → t.lexeme ≠ [] →
    Avoids d.opening t.lexeme t.behind → (t.behind = [] ∨ d.opening <+: t.behind) → Fits d t
  | tag {head inner body} : t.lexeme ++ t.behind = d.opening ++ body →
    Encloses d head inner t.behind body → t.kind = head.kind → t.kind.Holds inner t.content → Fits d t

/-- The token stands at `pos`, with `rest` behind it, and is what these delimiters make of the text
there. -/
structure IsNext (d : Delimiters) (pos : Position) (rest : Text) (t : Token) : Prop where
  fits : Fits d t
  pos_eq : t.pos = pos
  behind_eq : t.behind = rest
  indent_eq : t.indent = none

/-- A tag at the front of `source` is not closed, or it is closed and not well formed. -/
inductive Fails (d : Delimiters) (source : Text) : ParseError.Cause → Prop
  | unclosed {head : Head} {inner} : source = d.opening ++ (head.sigil ++ inner) →
    head.Fronts inner → ¬ head.guard ++ d.closing <:+: inner → Fails d source .unclosedTag
  | rejected {head : Head} {inner behind body cause} : source = d.opening ++ body →
    Encloses d head inner behind body → head.kind.Rejects inner cause → Fails d source cause

section
variable {d : Delimiters} {head : Head} {inner behind body : Text} {t : Token}

theorem Encloses.kind_ne_text (h : Encloses d head inner behind body) : head.kind ≠ .text := by
  cases h.fronts <;> simp

/-- A tag is read alike whatever stands behind it. -/
theorem Encloses.of_behind (h : Encloses d head inner behind body) (behind' : Text) :
    Encloses d head inner behind' (head.sigil ++ (inner ++ (head.guard ++ d.closing ++ behind'))) := by
  refine ⟨rfl, h.fronts.of_head? ?_, Text.avoids_append_iff.2 (Text.avoids_append_iff.1 h.avoids)⟩
  obtain ⟨c, mark, hclosing⟩ := List.exists_cons_of_ne_nil d.closing_ne_nil
  simp [hclosing, List.head?_append]

theorem Encloses.lexeme_eq {lexeme : Text} (h : Encloses d head inner behind body)
    (hsource : lexeme ++ behind = d.opening ++ body) :
    lexeme = d.opening ++ (head.sigil ++ (inner ++ (head.guard ++ d.closing))) := by
  have heq : lexeme ++ behind =
      d.opening ++ (head.sigil ++ (inner ++ (head.guard ++ d.closing))) ++ behind := by
    rw [hsource, h.body_eq]
    simp
  exact List.append_cancel_right heq

theorem Fits.lexeme_ne_nil (h : Fits d t) : t.lexeme ≠ [] := by
  cases h with
  | run _ _ hne => exact hne
  | tag hsource hencloses =>
    rw [hencloses.lexeme_eq hsource]
    exact List.append_ne_nil_of_left_ne_nil d.opening_ne_nil _

theorem Fits.exists_lexeme_eq (h : Fits d t) (hkind : t.kind ≠ .text) :
    ∃ inner, t.lexeme = d.opening ++ inner := by
  cases h with
  | run htext => exact absurd htext hkind
  | tag hsource hencloses => exact ⟨_, hencloses.lexeme_eq hsource⟩

/-- A tag is the same token at any place. -/
theorem Fits.of_behind (h : Fits d t) (hkind : t.kind ≠ .text) (pos : Position) (behind : Text) :
    Fits d { t with pos, behind } := by
  cases h with
  | run htext => exact absurd htext hkind
  | tag hsource hencloses hhead hholds =>
    refine .tag ?_ (hencloses.of_behind behind) hhead hholds
    simp [hencloses.lexeme_eq hsource]

/-- A token is the same when only the front of what stands behind it is left. In front of a run a
delimiter has to be left, unless nothing is. -/
theorem Fits.of_append {kept more : Text} (h : Fits d t) (hbehind : t.behind = kept ++ more)
    (hkept : t.kind = .text → kept = [] ∨ d.opening <+: kept) (pos : Position) :
    Fits d { t with pos, behind := kept } := by
  cases h with
  | run htext hcontent hne havoids =>
    rw [hbehind] at havoids
    exact .run htext hcontent hne havoids.of_append (hkept htext)
  | tag hsource hencloses hhead hholds =>
    exact (Fits.tag hsource hencloses hhead hholds).of_behind (hhead ▸ hencloses.kind_ne_text) pos kept

end

/-! ### Delimiters in force -/

/-- The delimiters behind these tokens: those that the nearest change of delimiters sets, or, if
there is none, the ones from before. -/
def InForce (d₀ : Delimiters) (before : List Token) (d : Delimiters) : Prop :=
  (d = d₀ ∧ ∀ t ∈ before, t.kind ≠ .delimiters) ∨
    ∃ ts t us, before = ts ++ t :: us ∧ t.kind = .delimiters ∧ d.StandIn t.content ∧
      ∀ u ∈ us, u.kind ≠ .delimiters

section
variable {d₀ d d' : Delimiters} {t : Token} {ts us : List Token}

theorem inForce_nil_iff : InForce d₀ [] d ↔ d = d₀ := by
  constructor
  · rintro (⟨h, -⟩ | ⟨ts, t, us, h, -⟩)
    · exact h
    · simp at h
  · exact fun h => .inl ⟨h, nofun⟩

theorem inForce_concat_of_eq (h : t.kind = .delimiters) :
    InForce d₀ (ts ++ [t]) d ↔ d.StandIn t.content := by
  constructor
  · rintro (⟨-, hno⟩ | ⟨ts', t', us, heq, -, hstand, hno⟩)
    · exact absurd h (hno t (by simp))
    · rcases List.eq_nil_or_concat us with rfl | ⟨us, u, rfl⟩
      · obtain ⟨-, heq⟩ := List.append_inj' heq rfl
        cases heq
        exact hstand
      · have hlast : ts ++ [t] = (ts' ++ t' :: us) ++ [u] := by simpa using heq
        obtain ⟨-, heq⟩ := List.append_inj' hlast rfl
        cases heq
        exact absurd h (hno t (by simp))
  · exact fun hstand => .inr ⟨ts, t, [], rfl, h, hstand, nofun⟩

theorem inForce_concat_of_ne (h : t.kind ≠ .delimiters) :
    InForce d₀ (ts ++ [t]) d ↔ InForce d₀ ts d := by
  constructor
  · rintro (⟨heq, hno⟩ | ⟨ts', t', us, heq, hkind, hstand, hno⟩)
    · exact .inl ⟨heq, fun u hu => hno u (List.mem_append_left _ hu)⟩
    · rcases List.eq_nil_or_concat us with rfl | ⟨us, u, rfl⟩
      · obtain ⟨-, heq⟩ := List.append_inj' heq rfl
        cases heq
        exact absurd hkind h
      · have hlast : ts ++ [t] = (ts' ++ t' :: us) ++ [u] := by simpa using heq
        obtain ⟨rfl, -⟩ := List.append_inj' hlast rfl
        exact .inr ⟨ts', t', us, rfl, hkind, hstand, fun v hv => hno v (by simp [hv])⟩
  · rintro (⟨heq, hno⟩ | ⟨ts', t', us, rfl, hkind, hstand, hno⟩)
    · refine .inl ⟨heq, fun u hu => ?_⟩
      rcases List.mem_append.1 hu with hu | hu
      · exact hno u hu
      · rwa [List.mem_singleton.1 hu]
    · refine .inr ⟨ts', t', us ++ [t], by simp, hkind, hstand, fun u hu => ?_⟩
      rcases List.mem_append.1 hu with hu | hu
      · exact hno u hu
      · rwa [List.mem_singleton.1 hu]

theorem inForce_singleton_iff :
    InForce d [t] d' ↔ if t.kind = .delimiters then d'.StandIn t.content else d' = d := by
  rw [← List.nil_append [t]]
  split
  · next h => exact inForce_concat_of_eq h
  · next h => rw [inForce_concat_of_ne h, inForce_nil_iff]

theorem InForce.unique (h : InForce d₀ ts d) (h' : InForce d₀ ts d') : d = d' := by
  induction ts using List.reverseRecOn with
  | nil => rw [inForce_nil_iff.1 h, inForce_nil_iff.1 h']
  | append_singleton ts t ih =>
    by_cases hkind : t.kind = .delimiters
    · exact ((inForce_concat_of_eq hkind).1 h).unique ((inForce_concat_of_eq hkind).1 h')
    · exact ih ((inForce_concat_of_ne hkind).1 h) ((inForce_concat_of_ne hkind).1 h')

theorem InForce.of_concat (h : InForce d₀ (ts ++ [t]) d') (h' : InForce d₀ ts d) :
    InForce d [t] d' := by
  rw [inForce_singleton_iff]
  split
  · next hkind => exact (inForce_concat_of_eq hkind).1 h
  · next hkind => exact ((inForce_concat_of_ne hkind).1 h).unique h'

theorem InForce.append (h : InForce d₀ ts d) (h' : InForce d us d') : InForce d₀ (ts ++ us) d' := by
  induction us using List.reverseRecOn generalizing d' with
  | nil =>
    rw [inForce_nil_iff.1 h', List.append_nil]
    exact h
  | append_singleton us u ih =>
    rw [← List.append_assoc]
    by_cases hkind : u.kind = .delimiters
    · exact (inForce_concat_of_eq hkind).2 ((inForce_concat_of_eq hkind).1 h')
    · exact (inForce_concat_of_ne hkind).2 (ih ((inForce_concat_of_ne hkind).1 h'))

end

/-! ### Reading one tag -/

section
variable {d d' : Delimiters} {head : Head} {kind : Kind} {pos : Position}
  {inner name behind body rest : Text} {cause : ParseError.Cause} {e : ParseError} {t : Token}

theorem encloses_iff : Encloses d head inner behind body ↔ (Head.read body).1 = head ∧
    Text.cutAt? (head.guard ++ d.closing) (Head.read body).2 = some (inner, behind) := by
  rw [Text.cutAt?_eq_some_iff]
  constructor
  · rintro ⟨hbody, hfronts, havoids⟩
    rw [Head.read_eq_iff.2 ⟨hbody.symm, hfronts⟩]
    exact ⟨rfl, rfl, havoids⟩
  · rintro ⟨hhead, hrest, havoids⟩
    have hread : Head.read body = (head, inner ++ (head.guard ++ d.closing ++ behind)) :=
      Prod.ext hhead hrest.symm
    obtain ⟨hbody, hfronts⟩ := Head.read_eq_iff.1 hread
    exact ⟨hbody.symm, hfronts, havoids⟩

theorem judge_eq_ok_iff : judge d kind inner = .ok (name, d') ↔
    kind.Holds inner name ∧ if kind = .delimiters then d'.StandIn name else d' = d := by
  constructor
  · intro h
    unfold judge at h
    split at h
    · cases h
      exact ⟨.comment, rfl⟩
    · split at h
      · next hcontent =>
        cases h
        have hstand := Delimiters.ofContent?_eq_some_iff.1 hcontent
        exact ⟨.delimiters hstand, Delimiters.standIn_trim_iff.2 hstand⟩
      · cases h
    · next hcomment hdelimiters =>
      split at h
      · cases h
      · next hne =>
        cases h
        rw [if_neg hdelimiters]
        exact ⟨.name hcomment hdelimiters (by simpa using hne), rfl⟩
  · rintro ⟨hholds, hnext⟩
    cases hholds with
    | comment =>
      cases hnext
      rfl
    | delimiters =>
      rw [if_pos rfl, Delimiters.standIn_trim_iff] at hnext
      rw [judge, Delimiters.ofContent?_eq_some_iff.2 hnext]
    | name hcomment hdelimiters hne =>
      rw [if_neg hdelimiters] at hnext
      cases kind <;> simp_all [judge]

theorem judge_eq_error_iff : judge d kind inner = .error cause ↔ kind.Rejects inner cause := by
  constructor
  · intro h
    unfold judge at h
    split at h
    · cases h
    · split at h
      · cases h
      · next hcontent =>
        cases h
        refine .delimiters fun d hstand => ?_
        rw [Delimiters.ofContent?_eq_some_iff.2 hstand] at hcontent
        cases hcontent
    · next hcomment hdelimiters =>
      split at h
      · next hnil =>
        cases h
        exact .emptyName hcomment hdelimiters (by simpa using hnil)
      · cases h
  · intro h
    cases h with
    | emptyName hcomment hdelimiters hnil => cases kind <;> simp_all [judge]
    | delimiters hno =>
      cases hcontent : Delimiters.ofContent? inner with
      | some d => exact absurd (Delimiters.ofContent?_eq_some_iff.1 hcontent) (hno d)
      | none => rw [judge, hcontent]

theorem scanTag_eq_ok_iff : scanTag d pos body = .ok (t, d', rest) ↔
    t.IsNext d pos rest ∧ t.kind ≠ .text ∧ t.lexeme ++ rest = d.opening ++ body ∧
      InForce d [t] d' := by
  constructor
  · intro h
    have hsource := lexeme_append_of_scanTag h
    unfold scanTag at h
    dsimp only at h
    split at h
    · cases h
    · next hcut =>
      split at h
      · cases h
      · next hjudge =>
        cases h
        have hencloses := encloses_iff.2 ⟨rfl, hcut⟩
        obtain ⟨hholds, hnext⟩ := judge_eq_ok_iff.1 hjudge
        exact ⟨⟨.tag hsource hencloses rfl hholds, rfl, rfl, rfl⟩, hencloses.kind_ne_text, hsource,
          inForce_singleton_iff.2 hnext⟩
  · rintro ⟨⟨hfits, rfl, rfl, hindent⟩, hkind, hsource, hnext⟩
    cases hfits with
    | run htext => exact absurd htext hkind
    | @tag head inner body' hsource' hencloses hhead hholds =>
      obtain rfl : body' = body := List.append_cancel_left (hsource'.symm.trans hsource)
      have hlexeme := hencloses.lexeme_eq hsource
      obtain ⟨rfl, hcut⟩ := encloses_iff.1 hencloses
      rw [inForce_singleton_iff, hhead] at hnext
      rw [hhead] at hholds
      have hjudge := judge_eq_ok_iff.2 ⟨hholds, hnext⟩
      unfold scanTag
      dsimp only
      rw [hcut]
      dsimp only
      rw [hjudge]
      dsimp only
      rw [← hlexeme, ← hhead, ← hindent]

theorem scanTag_eq_error_iff : scanTag d pos body = .error e ↔
    Fails d (d.opening ++ body) e.cause ∧ e.pos = pos := by
  constructor
  · intro h
    unfold scanTag at h
    dsimp only at h
    split at h
    · next hcut =>
      cases h
      obtain ⟨hbody, hfronts⟩ := Head.read_eq_iff.1 (show Head.read body = (_, _) from rfl)
      refine ⟨.unclosed (by rw [hbody]) hfronts (Text.cutAt?_eq_none_iff.1 hcut), rfl⟩
    · next hcut =>
      split at h
      · next hjudge =>
        cases h
        exact ⟨.rejected rfl (encloses_iff.2 ⟨rfl, hcut⟩) (judge_eq_error_iff.1 hjudge), rfl⟩
      · cases h
  · obtain ⟨cause, pos'⟩ := e
    rintro ⟨hfails, rfl⟩
    unfold scanTag
    dsimp only
    cases hfails with
    | unclosed hsource hfronts hclosing =>
      have hbody := List.append_cancel_left hsource
      rw [Head.read_eq_iff.2 ⟨hbody.symm, hfronts⟩, Text.cutAt?_eq_none_iff.2 hclosing]
    | rejected hsource hencloses hrejects =>
      obtain rfl := List.append_cancel_left hsource
      obtain ⟨rfl, hcut⟩ := encloses_iff.1 hencloses
      rw [hcut]
      dsimp only
      rw [judge_eq_error_iff.2 hrejects]

end

/-! ### Reading on -/

section
variable {d d' : Delimiters} {pos : Position} {body rest : Text} {e : ParseError} {t : Token}
  {ts : List Token}

theorem scanFrom_opening (d : Delimiters) (pos : Position) (body : Text) :
    scanFrom d pos (d.opening ++ body) =
      match scanTag d pos body with
      | .error e => .error e
      | .ok (t, d', rest) => (scanFrom d' (pos.advance t.lexeme) rest).map (t :: ·) := by
  rw [scanFrom.eq_def]
  split
  · next hnil => exact absurd (List.append_eq_nil_iff.1 hnil).1 d.opening_ne_nil
  · next c s hsource =>
    split
    · next hnone =>
      rw [← hsource, Text.dropPrefix?_append] at hnone
      cases hnone
    · next body' hbody =>
      rw [← hsource, Text.dropPrefix?_append] at hbody
      cases hbody
      cases scanTag d pos body <;> rfl

theorem scanFrom_of_run {source : Text} (hne : source ≠ [])
    (hopening : ¬ d.opening <+: source) :
    scanFrom d pos source =
      (scanFrom d (pos.advance (Text.spanUntil d.opening source).1)
        (Text.spanUntil d.opening source).2).map
        (⟨.text, (Text.spanUntil d.opening source).1, (Text.spanUntil d.opening source).1, pos,
          (Text.spanUntil d.opening source).2, none⟩ :: ·) := by
  rw [scanFrom.eq_def]
  split
  · exact absurd rfl hne
  · split
    · rfl
    · next body hbody =>
      exact absurd ⟨body, Text.dropPrefix?_eq_some_iff.1 hbody⟩ hopening

theorem Fits.exists_inForce (h : Fits d t) : ∃ d', InForce d [t] d' := by
  by_cases hkind : t.kind = .delimiters
  · cases h with
    | run htext => simp [hkind] at htext
    | tag _ _ _ hholds =>
      obtain ⟨d', hstand⟩ := (hkind ▸ hholds).exists_standIn
      exact ⟨d', by rwa [inForce_singleton_iff, if_pos hkind]⟩
  · exact ⟨d, by rw [inForce_singleton_iff, if_neg hkind]⟩

/-- The token that stands next is read, and then what is behind it. -/
theorem IsNext.scanFrom_eq (h : t.IsNext d pos rest) (hnext : InForce d [t] d') :
    scanFrom d pos (t.lexeme ++ rest) = (scanFrom d' (pos.advance t.lexeme) rest).map (t :: ·) := by
  by_cases hkind : t.kind = .text
  · obtain ⟨hfits, rfl, rfl, hindent⟩ := h
    cases hfits with
    | tag hsource hencloses hhead => exact absurd (hhead ▸ hkind) hencloses.kind_ne_text
    | run _ hcontent hne havoids hbehind =>
      rw [inForce_singleton_iff, if_neg (by simp [hkind])] at hnext
      subst hnext
      have hspan := Text.spanUntil_eq_iff.2 ⟨rfl, havoids, hbehind⟩
      have ht : (⟨.text, t.lexeme, t.lexeme, t.pos, t.behind, none⟩ : Token) = t := by
        rw [← hindent, ← hkind]
        nth_rewrite 1 [← hcontent]
        rfl
      rw [scanFrom_of_run (List.append_ne_nil_of_left_ne_nil hne _)
        fun hprefix => hne (havoids.eq_nil hprefix), hspan, ht]
  · obtain ⟨body, hbody⟩ : ∃ body, t.lexeme ++ rest = d.opening ++ body := by
      cases h.fits with
      | run htext => exact absurd htext hkind
      | tag hsource => exact ⟨_, h.behind_eq ▸ hsource⟩
    rw [hbody, scanFrom_opening, scanTag_eq_ok_iff.2 ⟨h, hkind, hbody, hnext⟩]

theorem Fails.scanFrom_eq {source : Text} {cause : ParseError.Cause} (h : Fails d source cause)
    (pos : Position) : scanFrom d pos source = .error ⟨cause, pos⟩ := by
  obtain ⟨body, rfl⟩ : ∃ body, source = d.opening ++ body := by
    cases h with
    | unclosed hsource | rejected hsource => exact ⟨_, hsource⟩
  have herror := scanTag_eq_error_iff.2 ⟨(show Fails d _ (ParseError.mk cause pos).cause from h), rfl⟩
  rw [scanFrom_opening, herror]

/-- Some token stands next, or a tag that is not well formed. -/
theorem exists_isNext_or_fails (d : Delimiters) (pos : Position) {source : Text}
    (hne : source ≠ []) :
    (∃ t rest d', t.lexeme ++ rest = source ∧ t.IsNext d pos rest ∧ InForce d [t] d') ∨
      ∃ cause, Fails d source cause := by
  by_cases hopening : d.opening <+: source
  · obtain ⟨body, rfl⟩ := hopening
    cases hscan : scanTag d pos body with
    | error e => exact .inr ⟨_, (scanTag_eq_error_iff.1 hscan).1⟩
    | ok read =>
      obtain ⟨t, d', rest⟩ := read
      obtain ⟨hnext, -, hsource, hforce⟩ := scanTag_eq_ok_iff.1 hscan
      exact .inl ⟨t, rest, d', hsource, hnext, hforce⟩
  · obtain ⟨hsource, havoids, hbehind⟩ :=
      Text.spanUntil_eq_iff.1 (rfl : Text.spanUntil d.opening source = (_, _))
    refine .inl ⟨⟨.text, _, _, pos, _, none⟩, _, d, hsource, ⟨.run rfl rfl ?_ havoids hbehind, rfl,
      rfl, rfl⟩, inForce_singleton_iff.2 rfl⟩
    intro (hnil : (Text.spanUntil d.opening source).1 = [])
    rw [hnil, List.nil_append] at hsource
    rcases hbehind with hend | hmark
    · exact hne (hsource.symm.trans hend)
    · exact hopening (hsource ▸ hmark)

end

end Mustache.Token
