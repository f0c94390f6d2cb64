import Mustache.Proofs.Context.Populate
import Mustache.Proofs.Render.Direct

/-!
# Names with points that lead through objects

`Json.below?` follows the parts of a name from object to object. Where they lead to a value, the
name has the text of this value, so none if it is an array or an object
(`Direct.dotted?_of_below?`).
-/

namespace Mustache

open Json (Members)

namespace Json

variable {members : Members} {value : Json} {part : Text} {parts : List Text}

/-- The value that some names lead to, each one the name of a member of the object before it. -/
def below? : Json → List Text → Option Json
  | value, [] => some value
  | value, part :: parts => (value.member? part).bind (below? · parts)

theorem exists_of_below?_cons {v : Json} (h : v.below? (part :: parts) = some value) :
    ∃ members next, v = .object members ∧ members.lookup part = some next ∧
      next.below? parts = some value := by
  obtain ⟨next, hnext, hbelow⟩ := Option.bind_eq_some_iff.1 h
  cases v with
  | object members => exact ⟨members, next, rfl, hnext, hbelow⟩
  | null | bool | number | string | array => cases hnext

/-- An object that holds an object is not made of scalars. -/
theorem not_flat_of_lookup {below : Members} (h : members.lookup part = some (.object below)) :
    ¬ Flat members := by
  intro hflat
  obtain ⟨front, rest, rfl, -⟩ := List.lookup_eq_some_iff.1 h
  exact absurd (hflat (part, .object below) (by simp)) (by simp [scalarText?])

end Json

namespace Direct

variable {members : Members} {value : Json} {first last key : Text} {parts : List Text}
  {spot : Spot}

/-- The spot that an object is. -/
def spotOf? (members : Members) : Option Spot :=
  Spot.of? (Json.object members).fields? (Json.object members).items?

theorem spotOf?_of_flat (h : Json.Flat members) :
    spotOf? members = some (.fields (Json.texts members)) := by
  simp [spotOf?, Json.fields?, h, Spot.of?]

theorem spotOf?_of_nested (h : ¬ Json.Flat members) :
    spotOf? members = some (.object members) := by
  simp [spotOf?, Json.fields?, Json.items?, h, Spot.of?]

/-- A name has the same text in an object whether the object is kept as fields or not. -/
theorem spotOf?_bind_text? (members : Members) (part : Text) :
    (spotOf? members).bind (·.text? part) = (members.lookup part).bind Json.scalarText? := by
  by_cases hflat : Json.Flat members
  · rw [spotOf?_of_flat hflat, Option.bind_some, Spot.text?]
    exact Json.getElem?_texts hflat part
  · rw [spotOf?_of_nested hflat, Option.bind_some, Spot.text?]

/-- The names in front of the last one lead through objects, one inside the other. -/
theorem walk?_of_below?
    (hbelow : (Json.object members).below? (parts ++ [last]) = some value) :
    ((spotOf? members).bind (walk? · parts)).bind (·.text? last) = value.scalarText? := by
  induction parts generalizing members with
  | nil =>
    obtain ⟨_, next, heq, hnext, hvalue⟩ := Json.exists_of_below?_cons hbelow
    cases heq
    cases hvalue
    have hwalk : (walk? · []) = some := funext fun spot => by cases spot <;> rfl
    rw [hwalk, Option.bind_fun_some, spotOf?_bind_text?, hnext, Option.bind_some]
  | cons part parts ih =>
    obtain ⟨_, next, heq, hnext, hbelow⟩ := Json.exists_of_below?_cons hbelow
    cases heq
    obtain ⟨below, rfl⟩ : ∃ below, next = .object below := by
      cases parts with
      | nil | cons =>
        obtain ⟨below, -, rfl, -⟩ := Json.exists_of_below?_cons hbelow
        exact ⟨below, rfl⟩
    rw [spotOf?_of_nested (Json.not_flat_of_lookup hnext), Option.bind_some, walk?, hnext,
      Option.bind_some, Option.bind_some]
    exact ih hbelow

/-- The first name leads into an object. -/
theorem head?_of_lookup {below : Members} (h : members.lookup first = some (.object below)) :
    head? [members] first = spotOf? below := by
  have hfields : nearestFields? [members] first = (Json.object below).fields? := by
    rw [nearestFields?, List.findSome?_cons, h, Option.bind_some]
    cases (Json.object below).fields? <;> rfl
  have hitems : (nearestItems? [members] first).map Prod.fst = (Json.object below).items? := by
    rw [nearestItems?, h, Option.bind_some]
    cases (Json.object below).items? <;> rfl
  rw [head?, hfields, hitems, spotOf?]

/-- **A name with points has the text of the value that its parts lead to.** The first and the last
part must not be empty. -/
theorem dotted?_of_below? (hfirst : (Text.splitAt (· == '.') key).head? ≠ some [])
    (hlast : (Text.splitAt (· == '.') key).getLast? ≠ some [])
    (hlength : 2 ≤ (Text.splitAt (· == '.') key).length)
    (hbelow : (Json.object members).below? (Text.splitAt (· == '.') key) = some value) :
    dotted? [members] key = value.scalarText? := by
  rw [dotted?]
  match hparts : Text.splitAt (· == '.') key with
  | [] | [_] =>
    rw [hparts] at hlength
    exact absurd hlength (by simp)
  | first :: second :: more =>
    rw [hparts] at hfirst hlast hbelow
    have hsome :
        (first :: second :: more).getLast? = some ((second :: more).getLast (by simp)) := by
      simp [List.getLast?_eq_some_getLast]
    have hfirst : first.isEmpty = false := by
      cases first <;> simp at hfirst ⊢
    have hlast : ((second :: more).getLast (by simp)).isEmpty = false := by
      rw [hsome] at hlast
      generalize (second :: more).getLast _ = last at hlast ⊢
      cases last <;> simp at hlast ⊢
    obtain ⟨_, next, heq, hnext, hrest⟩ := Json.exists_of_below?_cons hbelow
    cases heq
    obtain ⟨below, -, rfl, -⟩ := Json.exists_of_below?_cons hrest
    rw [← List.dropLast_append_getLast (List.cons_ne_nil second more)] at hrest
    have hwalk := walk?_of_below? hrest
    rw [← head?_of_lookup hnext, Option.bind_assoc] at hwalk
    simp only [hfirst, hlast]
    exact hwalk

end Direct

end Mustache
