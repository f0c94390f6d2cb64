import Mustache.Proofs.Template.Print

/-!
# Nodes that are written by hand

Nodes need not come from a template. `Template.Readable` says which nodes, when they are written as
a template, are read back as they were (`Template.parse_sourceOf`).
-/

namespace Mustache.Template

open Node (Mark Along printed marksOf)
open Token

/-- A name that comes back from a tag. -/
def IsName (key : Text) : Prop := key ≠ [] ∧ key.trim = key ∧ '{' ∉ key ∧ '}' ∉ key

/-- A tag between these texts is alone on its line. -/
def AloneBetween (front behind : Text) : Prop := front.lead?.isSome ∧ behind.trail?.isSome

/-- What a walk over nodes may meet for them to be read back: `front` is written in front of the
mark, and `post` are the marks behind it. -/
def Readable (front : Text) (m : Mark) (post : List Mark) : Prop :=
  match m with
  | .leaf (.text s _) =>
    s ≠ [] ∧ '{' ∉ s ∧ ∀ next ∈ post.head?, next.tag?.isSome
  | .leaf (.value key raw _) =>
    IsName key ∧ (raw = false → ∀ c ∈ key.head?, c ∉ ['#', '^', '/', '>', '!', '&', '='])
  | .leaf (.inclusion key (some w) _) =>
    IsName key ∧ w.all Text.isLineBlank ∧ front.AtLineStart
  | .leaf (.inclusion key none _) | .opening key _ _ | .closing key =>
    IsName key ∧ ¬ AloneBetween front (printed post)
  | .leaf (.block ..) => False

instance (key : Text) : Decidable (IsName key) := inferInstanceAs (Decidable (_ ∧ _ ∧ _ ∧ _))

instance (front behind : Text) : Decidable (AloneBetween front behind) :=
  inferInstanceAs (Decidable (_ ∧ _))

instance (front : Text) (m : Mark) (post : List Mark) : Decidable (Readable front m post) :=
  match m with
  | .leaf (.text _ _) => inferInstanceAs (Decidable (_ ∧ _ ∧ _))
  | .leaf (.value _ _ _) => inferInstanceAs (Decidable (_ ∧ _))
  | .leaf (.inclusion _ (some _) _) => inferInstanceAs (Decidable (_ ∧ _ ∧ _))
  | .leaf (.inclusion _ none _) => inferInstanceAs (Decidable (_ ∧ ¬ _))
  | .opening _ _ _ => inferInstanceAs (Decidable (_ ∧ ¬ _))
  | .closing _ => inferInstanceAs (Decidable (_ ∧ ¬ _))
  | .leaf (.block ..) => inferInstanceAs (Decidable False)

theorem ofSigil?_eq_none {c : Char}
    (h : c ∉ ['{', '#', '^', '/', '>', '!', '&', '=']) : Kind.ofSigil? c = none := by
  simp only [List.mem_cons, List.not_mem_nil, or_false, not_or] at h
  unfold Kind.ofSigil?
  split <;> simp_all

theorem IsName.writable {kind : Kind} {key : Text} (h : IsName key) (hkind : kind ≠ .text)
    (hsilent : kind.isSilent = false) (hsigil : kind = .escaped →
      ∀ c ∈ key.head?, c ∉ ['#', '^', '/', '>', '!', '&', '=']) : Writable kind key := by
  obtain ⟨hne, htrim, hopening, hclosing⟩ := h
  refine ⟨hkind, hsilent, hne, htrim, hclosing, fun hescaped c hc => ofSigil?_eq_none ?_⟩
  rw [List.mem_cons, not_or]
  refine ⟨?_, hsigil hescaped c hc⟩
  rintro rfl
  exact hopening (List.mem_of_mem_head? hc)

theorem Readable.legible {front : Text} {m : Mark} {post : List Mark} (h : Readable front m post) :
    Legible front m post := by
  unfold Readable at h
  split at h
  · exact .of_not_mem h.2.1 _
  · next key raw pos =>
    refine ⟨h.1.writable ?_ ?_ ?_, rfl⟩ <;> cases raw <;> simp [Kind.isSilent]
    simpa using h.2
  · exact ⟨h.1.writable (by simp) rfl (by simp), h.2.1⟩
  · exact ⟨h.1.writable (by simp) rfl (by simp), rfl⟩
  · exact ⟨h.1.writable (by simp) rfl (by simp), rfl⟩
  · exact ⟨h.1.writable (by simp) rfl (by simp), rfl⟩
  · exact h.elim

theorem laidOut_of_not_alone {view : Option Text → Option Text} {front : Text} {m : Mark}
    {post : List Mark} (h : ¬ AloneBetween front (printed post)) (hline : m.line? = none) :
    LaidOut view front m post := by
  rw [LaidOut, hline]
  intro kind key lead trail _ _ hlead htrail
  exact absurd ⟨by rw [hlead]; rfl, by rw [htrail]; rfl⟩ h

theorem Readable.laidOut {front : Text} {m : Mark} {post : List Mark} (h : Readable front m post) :
    LaidOut id front m post := by
  unfold Readable at h
  split at h
  · rintro kind key lead trail ⟨⟩
  · next raw pos =>
    rintro kind key lead trail ⟨⟩ hkind
    cases raw <;> cases hkind
  · exact h.2.2
  · exact laidOut_of_not_alone h.2 rfl
  · exact laidOut_of_not_alone h.2 rfl
  · exact laidOut_of_not_alone h.2 rfl
  · exact h.elim

theorem Readable.apart {front : Text} {m : Mark} {post : List Mark} (h : Readable front m post) :
    Apart front m post := by
  intro htag
  unfold Mark.tag? at htag
  split at htag
  case h_5 => exact ⟨h.1, h.2.2⟩
  case h_6 => exact h.elim
  all_goals cases htag

/-- **Nodes that are written are read back.** -/
theorem parse_sourceOf {ns : List Node} (hreadable : Along Readable [] (marksOf ns))
    (hdepth : Node.depthOf ns ≤ 128) :
    ∃ template, parse (Node.sourceOf ns) = .ok template ∧
      Node.unplacedOf template.nodes = Node.rebuiltOf ns :=
  exists_parse_sourceOf (hreadable.imp fun _ _ _ => Readable.legible)
    (hreadable.imp fun _ _ _ => Readable.laidOut) (hreadable.imp fun _ _ _ => Readable.apart) hdepth

/-- References on lines of their own, one after the other, a text with closing braces, and sections
inside a line that hold line feeds. -/
def handmade : List Node :=
  [.inclusion ['h'] (some []) .nowhere, .inclusion ['p'] (some [' ', '\t']) .nowhere,
    .text "b\x7d\x7d ".toList .nowhere,
    .newBlock ['s'] false
      [.value "a.b".toList false .nowhere, .text "\n c".toList .nowhere,
        .newBlock ['t'] true [.value ['v'] true .nowhere] ],
    .inclusion ['q'] none .nowhere, .text "\n".toList .nowhere]

theorem parse_sourceOf_handmade :
    Node.sourceOf handmade =
      "{{>h}}\n \t{{>p}}\nb\x7d\x7d {{#s}}{{a.b}}\n c{{^t}}{{{v}}}{{/t}}{{/s}}{{>q}}\n".toList ∧
    ∃ template, parse (Node.sourceOf handmade) = .ok template ∧
      Node.unplacedOf template.nodes = Node.rebuiltOf handmade :=
  ⟨by decide +kernel, parse_sourceOf (by decide +kernel) (by decide +kernel)⟩

end Mustache.Template
