import Mustache.Proofs.Except
import Mustache.Frame

/-!
# Where the parts of a name lead

`Frame.Leads` says which scope the first parts of a name lead to. A name with points can only have a
text if each part between the first and the last is the name of a section in the scope that the
parts before it lead to (`Frame.exists_leads_of_fetchDotted`).
-/

namespace Mustache.Frame

/-- The parts lead from the scope `base` to the scope `id`: the first one to the only item of the
nearest items of its name, with no fields of this name in sight, and each other one to the only item
of its name in the scope before it. -/
inductive Leads (c : Context) (base : ScopeId) : List Text → ScopeId → Prop
  | first {part id} : c.fetchFields base part = .ok none →
    c.fetchItems base part = .ok (some [id]) → Leads c base [part] id
  | next {parts part id child} : Leads c base parts id →
    c.section? id part = .ok (some (.items [child])) → Leads c base (parts ++ [part]) child

variable {c : Context} {base id : ScopeId} {key part text : Text} {parts before rest : List Text}
  {landing landing' : Landing}

theorem leads_of_land (h : land c base part = .ok (some (.scope id))) : Leads c base [part] id := by
  obtain ⟨fields, hfields, h⟩ := exists_ok_of_bind_eq_ok h
  cases fields with
  | some map => cases h
  | none =>
    obtain ⟨items, hitems, h⟩ := exists_ok_of_bind_eq_ok h
    rcases items with _ | _ | ⟨only, _ | ⟨_, _⟩⟩
    · cases h
    · cases h
    · cases h
      exact .first hfields hitems
    · cases h

/-- A part can be followed only where it is the name of fields or of a single item. -/
theorem exists_of_follow_cons (h : follow c landing (part :: rest) = .ok (some landing')) :
    ∃ id bound next, landing = .scope id ∧ c.section? id part = .ok (some bound) ∧
      Landing.ofSection? bound = some next ∧ follow c next rest = .ok (some landing') := by
  cases landing with
  | fields map => cases h
  | scope id =>
    obtain ⟨section?, hsection, h⟩ := exists_ok_of_bind_eq_ok h
    cases hnext : section?.bind Landing.ofSection? with
    | none =>
      rw [hnext] at h
      cases h
    | some next =>
      rw [hnext] at h
      obtain ⟨bound, rfl, hbound⟩ := Option.bind_eq_some_iff.1 hnext
      exact ⟨id, bound, next, rfl, hsection, hbound, h⟩

theorem eq_items_of_ofSection? {bound : Section} (h : Landing.ofSection? bound = some (.scope id)) :
    bound = .items [id] := by
  rcases bound with map | f | (_ | ⟨only, _ | ⟨_, _⟩⟩)
  · cases h
  · cases h
  · cases h
  · cases h
    rfl
  · cases h

/-- The scope binds the name to a section that has one place to go on from. -/
def GoesOn (c : Context) (id : ScopeId) (part : Text) : Prop :=
  (∃ map, c.section? id part = .ok (some (.fields map))) ∨
    ∃ item, c.section? id part = .ok (some (.items [item]))

theorem goesOn_of_ofSection? {bound : Section} {next : Landing}
    (hsection : c.section? id part = .ok (some bound))
    (hnext : Landing.ofSection? bound = some next) : GoesOn c id part := by
  cases next with
  | fields map =>
    rcases bound with map' | f | (_ | ⟨only, _ | ⟨_, _⟩⟩)
    · exact .inl ⟨map', hsection⟩
    all_goals cases hnext
  | scope item =>
    rw [eq_items_of_ofSection? hnext] at hsection
    exact .inr ⟨item, hsection⟩

/-- The parts in front of one that is followed lead to a scope that has a section of its name. -/
theorem exists_leads_of_follow (hid : Leads c base before id)
    (h : follow c (.scope id) (parts ++ part :: rest) = .ok (some landing')) :
    ∃ id', Leads c base (before ++ parts) id' ∧ GoesOn c id' part := by
  induction parts generalizing before id with
  | nil =>
    obtain ⟨_, bound, next, heq, hsection, hnext, -⟩ := exists_of_follow_cons h
    cases heq
    exact ⟨id, by rwa [List.append_nil], goesOn_of_ofSection? hsection hnext⟩
  | cons passed parts ih =>
    obtain ⟨_, bound, next, heq, hsection, hnext, h⟩ := exists_of_follow_cons h
    cases heq
    cases next with
    | fields map =>
      -- Nothing is followed behind fields.
      cases parts with
      | nil | cons => cases h
    | scope child =>
      rw [eq_items_of_ofSection? hnext] at hsection
      rw [List.append_cons]
      exact ih (.next hid hsection) h

/-- **What a name with points needs.** If the parts of a name lead to a text, then its first and its
last part are not empty, and the parts in front of each other part lead to a scope that has a
section of its name. -/
theorem exists_leads_of_fetchDotted (h : fetchDotted c base key = .ok (some text)) :
    (Text.splitAt (· == '.') key).head? ≠ some [] ∧
      (Text.splitAt (· == '.') key).getLast? ≠ some [] ∧
      ∀ before part rest, Text.splitAt (· == '.') key = before ++ part :: rest → before ≠ [] →
        rest ≠ [] → ∃ id, Leads c base before id ∧ GoesOn c id part := by
  rw [fetchDotted] at h
  split at h
  · next first second more hparts =>
    have hlast : (first :: second :: more).getLast? =
        some ((second :: more).getLast (List.cons_ne_nil _ _)) := by
      simp [List.getLast?_eq_some_getLast]
    rw [hparts, hlast]
    generalize (second :: more).getLast (List.cons_ne_nil _ _) = last at h ⊢
    simp only at h
    split at h
    · cases h
    · next hsolid =>
      obtain ⟨landed, hland, h⟩ := exists_ok_of_bind_eq_ok h
      rcases landed with _ | landed
      · cases h
      obtain ⟨reached, hfollow, h⟩ := exists_ok_of_bind_eq_ok h
      rcases reached with _ | reached
      · cases h
      rw [Bool.or_eq_true, not_or, List.isEmpty_iff, List.isEmpty_iff] at hsolid
      refine ⟨by simpa using hsolid.1, by simpa using hsolid.2, ?_⟩
      intro before part rest heq hbefore hrest
      obtain ⟨_, before, rfl⟩ := List.exists_cons_of_ne_nil hbefore
      obtain rfl := (List.cons.inj heq).1
      have htail : second :: more = before ++ part :: rest := (List.cons.inj heq).2
      rw [htail, List.dropLast_append_of_ne_nil (List.cons_ne_nil _ _),
        List.dropLast_cons_of_ne_nil hrest] at hfollow
      cases landed with
      | fields map =>
        cases before with
        | nil | cons => cases hfollow
      | scope id => exact exists_leads_of_follow (leads_of_land hland) hfollow
  · cases h

end Mustache.Frame
