/-!
# Texts

A text is a list of characters. This module holds the cuts that the rest of the library makes in
one: up to the first occurrence of a mark, at a byte count, at every character of a class. Each cut
comes with the law that nothing is lost.
-/

namespace Mustache

/-- A text, character by character. -/
abbrev Text := List Char

namespace Text

/-! ## The first occurrence of a mark -/

/-- What follows `mark` at the front of the text, if it stands there. -/
def dropPrefix? : Text → Text → Option Text
  | [], s => some s
  | _ :: _, [] => none
  | m :: mark, c :: s => if m = c then dropPrefix? mark s else none

/-- Splits in front of the first occurrence of `mark`, or at the end when there is none. -/
def spanUntil (mark : Text) : Text → Text × Text
  | [] => ([], [])
  | c :: s =>
    if (dropPrefix? mark (c :: s)).isSome then ([], c :: s)
    else (c :: (spanUntil mark s).1, (spanUntil mark s).2)

/-- What stands before and after the first occurrence of `mark`. -/
def cutAt? (mark s : Text) : Option (Text × Text) :=
  (dropPrefix? mark (spanUntil mark s).2).map ((spanUntil mark s).1, ·)

theorem dropPrefix?_eq_some_iff {mark s rest : Text} :
    dropPrefix? mark s = some rest ↔ mark ++ rest = s := by
  induction mark generalizing s with
  | nil => simp [dropPrefix?, eq_comm]
  | cons m mark ih =>
    cases s with
    | nil => simp [dropPrefix?]
    | cons c s => by_cases h : m = c <;> simp [dropPrefix?, h, ih]

@[simp] theorem dropPrefix?_append (mark rest : Text) :
    dropPrefix? mark (mark ++ rest) = some rest :=
  dropPrefix?_eq_some_iff.2 rfl

@[simp] theorem spanUntil_append (mark s : Text) :
    (spanUntil mark s).1 ++ (spanUntil mark s).2 = s := by
  induction s with
  | nil => rfl
  | cons c s ih =>
    by_cases h : (dropPrefix? mark (c :: s)).isSome <;> simp [spanUntil, h, ih]

theorem length_spanUntil_le (mark s : Text) : (spanUntil mark s).2.length ≤ s.length := by
  have h := congrArg List.length (spanUntil_append mark s)
  rw [List.length_append] at h
  omega

theorem length_spanUntil_lt {mark : Text} {c : Char} {s : Text}
    (h : dropPrefix? mark (c :: s) = none) :
    (spanUntil mark (c :: s)).2.length < (c :: s).length := by
  have hle := length_spanUntil_le mark s
  simp only [spanUntil, h, Option.isSome_none, Bool.false_eq_true, if_false, List.length_cons]
  omega

theorem cutAt?_eq_some {mark s before after : Text} (h : cutAt? mark s = some (before, after)) :
    before ++ mark ++ after = s := by
  obtain ⟨rest, hrest, heq⟩ := Option.map_eq_some_iff.1 h
  obtain ⟨rfl, rfl⟩ := Prod.mk.inj heq
  rw [List.append_assoc, dropPrefix?_eq_some_iff.1 hrest, spanUntil_append]

/-! ## Bytes -/

/-- The number of bytes of the UTF-8 form. -/
def byteLength (s : Text) : Nat := s.foldr (fun c n => c.utf8Size + n) 0

@[simp] theorem byteLength_nil : byteLength [] = 0 := rfl

@[simp] theorem byteLength_cons (c : Char) (s : Text) :
    byteLength (c :: s) = c.utf8Size + byteLength s := rfl

@[simp] theorem byteLength_append (s t : Text) :
    byteLength (s ++ t) = byteLength s + byteLength t := by
  induction s with
  | nil => simp
  | cons c s ih => simp [ih, Nat.add_assoc]

/-- Takes the first `n` bytes; there is no answer inside a character or past the end. -/
def takeBytes? : Text → Nat → Option Text
  | _, 0 => some []
  | [], _ + 1 => none
  | c :: s, n + 1 =>
    if c.utf8Size ≤ n + 1 then (takeBytes? s (n + 1 - c.utf8Size)).map (c :: ·) else none

@[simp] theorem takeBytes?_append (s t : Text) : takeBytes? (s ++ t) (byteLength s) = some s := by
  induction s with
  | nil => cases t <;> rfl
  | cons c s ih =>
    obtain ⟨n, hn⟩ := Nat.exists_eq_succ_of_ne_zero (Nat.ne_of_gt c.utf8Size_pos)
    have h : byteLength (c :: s) = (n + byteLength s) + 1 := by simp; omega
    rw [h, List.cons_append, takeBytes?, if_pos (by omega)]
    rw [show n + byteLength s + 1 - c.utf8Size = byteLength s by omega, ih, Option.map_some]

/-! ## Splitting -/

/-- Splits at every character that satisfies `p`. There is one piece more than such characters. -/
def splitAt (p : Char → Bool) : Text → List Text
  | [] => [[]]
  | c :: s => if p c then [] :: splitAt p s else (splitAt p s).modifyHead (c :: ·)

/-- The digits of a number in base ten. -/
def ofNat (n : Nat) : Text := Nat.toDigits 10 n

end Text

end Mustache
