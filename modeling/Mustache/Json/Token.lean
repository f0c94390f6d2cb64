import Mustache.Json.Number

/-!
# Tokens of JSON texts

A JSON text is a sequence of punctuation marks, words, numbers and strings, with white space
between them.
-/

namespace Mustache.Json

/-- A token of a JSON text. -/
inductive Token where
  | openArray
  | closeArray
  | openObject
  | closeObject
  | colon
  | comma
  | null
  | bool (value : Bool)
  | number (value : Number)
  | string (value : Text)

namespace Token

/-! ## Strings -/

/-- The value of a hexadecimal digit. -/
def hexValue? (c : Char) : Option Nat :=
  let n := c.toNat
  if c.isDigit then some (n - '0'.toNat)
  else if 'a' ≤ c ∧ c ≤ 'f' then some (n - 'a'.toNat + 10)
  else if 'A' ≤ c ∧ c ≤ 'F' then some (n - 'A'.toNat + 10)
  else none

/-- The value of four hexadecimal digits. -/
def hexUnit? (a b c d : Char) : Option Nat := do
  let a ← hexValue? a
  let b ← hexValue? b
  let c ← hexValue? c
  let d ← hexValue? d
  return ((a * 16 + b) * 16 + c) * 16 + d

/-- The character that a backslash in front of a letter stands for. -/
def escaped? : Char → Option Char
  | '"' => some '"'
  | '\\' => some '\\'
  | '/' => some '/'
  | 'b' => some '\x08'
  | 'f' => some '\x0c'
  | 'n' => some '\n'
  | 'r' => some '\r'
  | 't' => some '\t'
  | _ => none

/-- Whether a unit is the first, or the second, half of a pair. -/
def isHighUnit (u : Nat) : Bool := 0xD800 ≤ u && u < 0xDC00

@[inherit_doc isHighUnit]
def isLowUnit (u : Nat) : Bool := 0xDC00 ≤ u && u < 0xE000

/-- The character of a pair of units. -/
def pairChar (high low : Nat) : Char :=
  Char.ofNat (0x10000 + (high - 0xD800) * 0x400 + (low - 0xDC00))

/-- Reads a string up to its closing quote; the answer is its text and what follows the quote.
`high` is the first half of a pair of units, whose second half has to come next. -/
def readString? : Option Nat → Text → Option (Text × Text)
  | none, '"' :: rest => some ([], rest)
  | high, '\\' :: 'u' :: a :: b :: c :: d :: rest =>
    match hexUnit? a b c d, high with
    | none, _ => none
    | some u, some high =>
      if isLowUnit u then (readString? none rest).map fun (s, r) => (pairChar high u :: s, r)
      else none
    | some u, none =>
      if isHighUnit u then readString? (some u) rest
      else if isLowUnit u then none
      else (readString? none rest).map fun (s, r) => (Char.ofNat u :: s, r)
  | none, '\\' :: e :: rest =>
    match escaped? e with
    | some c => (readString? none rest).map fun (s, r) => (c :: s, r)
    | none => none
  | none, c :: rest =>
    if c.toNat < 0x20 ∨ c = '\\' then none
    else (readString? none rest).map fun (s, r) => (c :: s, r)
  | _, _ => none

theorem length_lt_of_readString? {high : Option Nat} {s text rest : Text}
    (h : readString? high s = some (text, rest)) : rest.length < s.length := by
  fun_induction readString? high s generalizing text rest <;>
    simp_all only [Option.map_eq_some_iff, Prod.exists, List.length_cons, reduceCtorEq] <;> grind

/-! ## Other tokens -/

/-- White space between tokens. -/
def isSpace (c : Char) : Bool := c == ' ' || c == '\t' || c == '\n' || c == '\r'

/-- The characters that numbers are made of. -/
def isNumberChar (c : Char) : Bool :=
  c.isDigit || c == '-' || c == '+' || c == '.' || c == 'e' || c == 'E'

/-- Reads one token; the answer is the token, if it was not white space, and what follows it. -/
def read? (c : Char) (s : Text) : Option (Option Token × Text) :=
  match c with
  | '[' => some (some .openArray, s)
  | ']' => some (some .closeArray, s)
  | '{' => some (some .openObject, s)
  | '}' => some (some .closeObject, s)
  | ':' => some (some .colon, s)
  | ',' => some (some .comma, s)
  | '"' => (readString? none s).map fun (text, rest) => (some (.string text), rest)
  | 'n' => (Text.dropPrefix? ['u', 'l', 'l'] s).map (some .null, ·)
  | 't' => (Text.dropPrefix? ['r', 'u', 'e'] s).map (some (.bool true), ·)
  | 'f' => (Text.dropPrefix? ['a', 'l', 's', 'e'] s).map (some (.bool false), ·)
  | c =>
    if isSpace c then some (none, s)
    else if c == '-' || c.isDigit then
      (Number.read? (c :: s.takeWhile isNumberChar)).map fun n =>
        (some (.number n), s.dropWhile isNumberChar)
    else none

theorem length_le_of_dropPrefix? {mark s rest : Text} (h : Text.dropPrefix? mark s = some rest) :
    rest.length ≤ s.length := by
  have h := congrArg List.length (Text.dropPrefix?_eq_some_iff.1 h)
  rw [List.length_append] at h
  omega

theorem length_le_of_read? {c : Char} {s rest : Text} {t : Option Token}
    (h : read? c s = some (t, rest)) : rest.length ≤ s.length := by
  have hdrop : (s.dropWhile isNumberChar).length ≤ s.length := (List.dropWhile_sublist _).length_le
  unfold read? at h
  split at h
  all_goals try (simp only [Option.some.injEq, Prod.mk.injEq] at h; simp [← h.2])
  · obtain ⟨⟨text, r⟩, hr, h⟩ := Option.map_eq_some_iff.1 h
    cases h
    exact Nat.le_of_lt (length_lt_of_readString? hr)
  · obtain ⟨r, hr, h⟩ := Option.map_eq_some_iff.1 h
    cases h
    exact length_le_of_dropPrefix? hr
  · obtain ⟨r, hr, h⟩ := Option.map_eq_some_iff.1 h
    cases h
    exact length_le_of_dropPrefix? hr
  · obtain ⟨r, hr, h⟩ := Option.map_eq_some_iff.1 h
    cases h
    exact length_le_of_dropPrefix? hr
  · split at h
    · cases h
      exact Nat.le_refl _
    · split at h
      · obtain ⟨n, hn, h⟩ := Option.map_eq_some_iff.1 h
        cases h
        exact hdrop
      · cases h

/-- Splits a JSON text into its tokens. -/
def scan? (source : Text) : Option (List Token) :=
  match source with
  | [] => some []
  | c :: s =>
    match _ : read? c s with
    | none => none
    | some (none, rest) => scan? rest
    | some (some t, rest) => (scan? rest).map (t :: ·)
termination_by source.length
decreasing_by
  all_goals exact Nat.lt_succ_of_le (length_le_of_read? (by assumption))

end Token

end Mustache.Json
