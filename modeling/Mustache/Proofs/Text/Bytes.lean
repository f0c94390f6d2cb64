import Mustache.Text

/-!
# Places in a text by bytes

What stands before and behind a byte offset, and what is left of a text when bytes are taken out.
-/

namespace Mustache.Text

/-- The characters that start before the byte offset `n`. -/
def before : Text → Nat → Text
  | [], _ => []
  | c :: s, n => if n = 0 then [] else c :: before s (n - c.utf8Size)

/-- The characters that start at the byte offset `n` or behind it. -/
def behind : Text → Nat → Text
  | [], _ => []
  | c :: s, n => if n = 0 then c :: s else behind s (n - c.utf8Size)

/-- The characters from the byte offset `start` up to the byte offset `stop`. -/
def slice (s : Text) (start stop : Nat) : Text := before (behind s start) (stop - start)

/-- The characters of a text whose first byte is kept, when the text starts at the byte offset `n`. -/
def keepFrom (keep : Nat → Bool) (n : Nat) : Text → Text
  | [] => []
  | c :: s =>
    if keep n then c :: keepFrom keep (n + c.utf8Size) s else keepFrom keep (n + c.utf8Size) s

/-- What is left of a text when the bytes that `gone` holds of are taken out. -/
def without (s : Text) (gone : Nat → Bool) : Text := s.keepFrom (fun n => !gone n) 0

@[simp] theorem before_append (s t : Text) : before (s ++ t) s.byteLength = s := by
  induction s with
  | nil => cases t <;> simp [before]
  | cons c s ih =>
    have hpos := c.utf8Size_pos
    rw [List.cons_append, before, if_neg (by rw [byteLength_cons]; omega), byteLength_cons,
      Nat.add_sub_cancel_left, ih]

@[simp] theorem behind_append (s t : Text) : behind (s ++ t) s.byteLength = t := by
  induction s with
  | nil => cases t <;> simp [behind]
  | cons c s ih =>
    have hpos := c.utf8Size_pos
    rw [List.cons_append, behind, if_neg (by rw [byteLength_cons]; omega), byteLength_cons,
      Nat.add_sub_cancel_left, ih]

theorem slice_append (s t u : Text) :
    slice (s ++ (t ++ u)) s.byteLength (s.byteLength + t.byteLength) = t := by
  rw [slice, behind_append, Nat.add_sub_cancel_left, before_append]

theorem keepFrom_append (keep : Nat → Bool) (n : Nat) (s t : Text) :
    keepFrom keep n (s ++ t) = keepFrom keep n s ++ keepFrom keep (n + s.byteLength) t := by
  induction s generalizing n with
  | nil => rfl
  | cons c s ih =>
    simp only [List.cons_append, keepFrom, ih, byteLength_cons, Nat.add_assoc]
    split <;> rfl

theorem keepFrom_eq_self {keep : Nat → Bool} {n : Nat} {s : Text}
    (h : ∀ m, n ≤ m → m < n + s.byteLength → keep m) : keepFrom keep n s = s := by
  induction s generalizing n with
  | nil => rfl
  | cons c s ih =>
    have hpos := c.utf8Size_pos
    rw [byteLength_cons] at h
    rw [keepFrom, if_pos (h n (by omega) (by omega)),
      ih fun m hle hlt => h m (by omega) (by omega)]

theorem keepFrom_eq_nil {keep : Nat → Bool} {n : Nat} {s : Text}
    (h : ∀ m, n ≤ m → m < n + s.byteLength → keep m = false) : keepFrom keep n s = [] := by
  induction s generalizing n with
  | nil => rfl
  | cons c s ih =>
    have hpos := c.utf8Size_pos
    rw [byteLength_cons] at h
    rw [keepFrom, if_neg (by simp [h n (by omega) (by omega)]),
      ih fun m hle hlt => h m (by omega) (by omega)]

/-- Taking out the front and the end leaves the middle. -/
theorem keepFrom_middle {keep : Nat → Bool} {n : Nat} {trail mid lead : Text}
    (h : ∀ m, n ≤ m → m < n + (trail ++ (mid ++ lead)).byteLength →
      (keep m ↔ n + trail.byteLength ≤ m ∧
        m + lead.byteLength < n + (trail ++ (mid ++ lead)).byteLength)) :
    keepFrom keep n (trail ++ (mid ++ lead)) = mid := by
  simp only [byteLength_append] at h
  rw [keepFrom_append, keepFrom_append, keepFrom_eq_nil, keepFrom_eq_self, keepFrom_eq_nil,
    List.nil_append, List.append_nil]
  · intro m hle hlt
    rw [← Bool.not_eq_true, h m (by omega) (by omega)]
    omega
  · intro m hle hlt
    rw [h m (by omega) (by omega)]
    omega
  · intro m hle hlt
    rw [← Bool.not_eq_true, h m (by omega) (by omega)]
    omega

end Mustache.Text
