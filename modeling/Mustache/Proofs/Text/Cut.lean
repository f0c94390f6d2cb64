import Mustache.Proofs.Text.Occurrence

/-!
# Cuts of a text at byte offsets

`Text.cut? s start stop` is the part of a text from the byte offset `start` up to the byte offset
`stop`. It is there just when the offsets come in this order, lie in the text and are not inside a
character (`Text.cut?_eq_some_iff`). `Text.find?` and `Text.findLast?` answer with byte offsets of
this kind.
-/

namespace Mustache.Text

/-- Drops the first `n` bytes; there is no answer inside a character or past the end. -/
def dropBytes? (s : Text) (n : Nat) : Option Text :=
  (s.takeBytes? n).map fun front => s.drop front.length

/-- The part from the byte offset `start` up to the byte offset `stop`. -/
def cut? (s : Text) (start stop : Nat) : Option Text :=
  if start ≤ stop then (s.dropBytes? start).bind (·.takeBytes? (stop - start)) else none

/-- The byte offset at which `mark` occurs first. -/
def find? (mark s : Text) : Option Nat := (cutAt? mark s).map (·.1.byteLength)

/-- The byte offset at which the character `c` occurs last. -/
def findLast? (c : Char) : Text → Option Nat
  | [] => none
  | a :: s =>
    match findLast? c s with
    | some n => some (a.utf8Size + n)
    | none => if a = c then some 0 else none

variable {s t : Text} {n start stop : Nat}

theorem takeBytes?_eq_some_iff :
    s.takeBytes? n = some t ↔ ∃ back, s = t ++ back ∧ n = t.byteLength := by
  constructor
  · intro h
    induction s, n using takeBytes?.induct generalizing t with
    | case1 s =>
      rw [takeBytes?] at h
      cases h
      exact ⟨s, rfl, rfl⟩
    | case2 => cases h
    | case3 c s n hle ih =>
      rw [takeBytes?, if_pos hle, Option.map_eq_some_iff] at h
      obtain ⟨t, ht, rfl⟩ := h
      obtain ⟨back, rfl, hn⟩ := ih ht
      exact ⟨back, rfl, by rw [byteLength_cons]; omega⟩
    | case4 c s n hlt =>
      rw [takeBytes?, if_neg hlt] at h
      cases h
  · rintro ⟨back, rfl, rfl⟩
    exact takeBytes?_append t back

/-- What is taken from the front does not depend on what follows. -/
theorem takeBytes?_append_of_some (h : s.takeBytes? n = some t) (back : Text) :
    (s ++ back).takeBytes? n = some t := by
  obtain ⟨rest, rfl, rfl⟩ := takeBytes?_eq_some_iff.1 h
  rw [List.append_assoc, takeBytes?_append]

theorem dropBytes?_eq_some_iff :
    s.dropBytes? n = some t ↔ ∃ front, s = front ++ t ∧ n = front.byteLength := by
  rw [dropBytes?, Option.map_eq_some_iff]
  constructor
  · rintro ⟨front, hfront, rfl⟩
    obtain ⟨back, rfl, rfl⟩ := takeBytes?_eq_some_iff.1 hfront
    exact ⟨front, by rw [List.drop_left], rfl⟩
  · rintro ⟨front, rfl, rfl⟩
    exact ⟨front, takeBytes?_append front t, List.drop_left⟩

@[simp] theorem dropBytes?_append (front t : Text) :
    dropBytes? (front ++ t) front.byteLength = some t :=
  dropBytes?_eq_some_iff.2 ⟨front, rfl, rfl⟩

/-- A cut is there just when the text splits at both offsets. -/
theorem cut?_eq_some_iff :
    s.cut? start stop = some t ↔
      ∃ front back, s = front ++ (t ++ back) ∧ start = front.byteLength ∧
        stop = start + t.byteLength := by
  constructor
  · intro h
    unfold cut? at h
    split at h
    · next hle =>
      obtain ⟨rest, hrest, ht⟩ := Option.bind_eq_some_iff.1 h
      obtain ⟨front, rfl, hstart⟩ := dropBytes?_eq_some_iff.1 hrest
      obtain ⟨back, rfl, hlength⟩ := takeBytes?_eq_some_iff.1 ht
      exact ⟨front, back, rfl, hstart, by omega⟩
    · cases h
  · rintro ⟨front, back, rfl, rfl, rfl⟩
    rw [cut?, if_pos (Nat.le_add_right _ _), dropBytes?_append, Option.bind_some,
      Nat.add_sub_cancel_left, takeBytes?_append]

theorem cut?_append (front t back : Text) :
    cut? (front ++ (t ++ back)) front.byteLength (front ++ t).byteLength = some t :=
  cut?_eq_some_iff.2 ⟨front, back, rfl, rfl, byteLength_append front t⟩

/-- A character of two bytes has no offset inside it, and offsets do not go back. -/
example : cut? "aéb".toList 1 3 = some ['é'] ∧ cut? "aéb".toList 1 2 = none ∧
    cut? "aéb".toList 3 1 = none ∧ cut? "aéb".toList 3 5 = none := by decide

/-- Without a mark, a run reaches up to the end. -/
theorem getD_find? (mark s : Text) :
    (find? mark s).getD s.byteLength = (spanUntil mark s).1.byteLength := by
  have hs := spanUntil_append mark s
  rw [find?, cutAt?, Option.map_map]
  cases hmark : dropPrefix? mark (spanUntil mark s).2 with
  | some rest => rfl
  | none =>
    rcases spanUntil_snd mark s with hend | ⟨rest, hrest⟩
    · rw [hend, List.append_nil] at hs
      rw [hs]
      rfl
    · rw [hrest, dropPrefix?_append] at hmark
      cases hmark

theorem findLast?_eq_none {c : Char} (h : c ∉ s) : findLast? c s = none := by
  induction s with
  | nil => rfl
  | cons a s ih =>
    obtain ⟨hne, hs⟩ := List.ne_and_not_mem_of_not_mem_cons h
    rw [findLast?, ih hs]
    exact if_neg (Ne.symm hne)

theorem findLast?_append {c : Char} (front : Text) {back : Text} (h : c ∉ back) :
    findLast? c (front ++ c :: back) = some front.byteLength := by
  induction front with
  | nil => rw [List.nil_append, findLast?, findLast?_eq_none h, if_pos rfl, byteLength_nil]
  | cons a front ih => rw [List.cons_append, findLast?, ih, byteLength_cons]

end Mustache.Text
