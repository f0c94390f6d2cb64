import Mustache.Proofs.Offset.Line

/-!
# What tags take of the runs beside them

One walk over the indices of the tokens finds the tags that are alone on their line. For each of them
it writes down, in lists beside the tokens, how many bytes the tag takes from the end of the text run
in front of it and from the start of the one behind it, and which indent it has. Every entry that is
read or written has to be there. The walk always has an answer for the tokens of a template: each
entry is settled once, by the tag in front of the token or by the one behind it
(`Offset.margins?_eq`).
-/

namespace Mustache

namespace Offset

/-- What is written down for the tokens, by their index. -/
structure Margins where
  /-- How many bytes go from the start of a text run. -/
  starts : List Nat
  /-- How many bytes go from the end of a text run. -/
  ends : List Nat
  /-- The indent of a reference to a partial. -/
  indents : List (Option Text)

/-- Nothing is taken from `n` tokens. -/
def Margins.none (n : Nat) : Margins :=
  ⟨List.replicate n 0, List.replicate n 0, List.replicate n Option.none⟩

/-- Writes an entry of a list that is there. -/
def write? {α : Type} (xs : List α) (i : Nat) (a : α) : Option (List α) :=
  if i < xs.length then some (xs.set i a) else none

/-- Takes the line blanks in front of the token at this index, and hands them out. -/
def takeBefore? (tokens : List Spanned) (m : Margins) : Nat → Option (Margins × Text)
  | 0 => some (m, [])
  | i + 1 => do
    let prev ← tokens[i]?
    let n ← trailingBlanks? prev.content
    let ends ← write? m.ends i n
    let stop ← prev.content.byteLength.psub n
    let indent ← prev.content.dropBytes? stop
    return ({ m with ends }, indent)

/-- Takes the rest of the line behind the token at this index. -/
def takeBehind? (tokens : List Spanned) (m : Margins) (i : Nat) : Option Margins :=
  match tokens[i + 1]? with
  | none => some m
  | some next => do
    let n ← leadingLineEnd? next.content
    let starts ← write? m.starts (i + 1) n
    return { m with starts }

/-- Takes the line of the token at this index, if the token is alone on it. -/
def take? (tokens : List Spanned) (m : Margins) (i : Nat) : Option Margins := do
  if ← isAlone? tokens i then
    let t ← tokens[i]?
    let (m, indent) ← takeBefore? tokens m i
    if t.kind = .inclusion then
      let indents ← write? m.indents i (some indent)
      takeBehind? tokens { m with indents } i
    else takeBehind? tokens m i
  else return m

/-- Takes the lines of all tokens that are alone on theirs. -/
def margins? (tokens : List Spanned) : Option Margins :=
  (List.range tokens.length).foldlM (take? tokens) (.none tokens.length)

/-! ### Tables -/

/-- A list with an entry for each of `size` indices. The first `count` of them are settled: where
`flag` holds the entry is given by `value`. All other entries are `default`. -/
def table {α : Type} (size count : Nat) (flag : Nat → Bool) (value : Nat → α) (default : α) :
    List α :=
  (List.range size).map fun n => if n < count ∧ flag n then value n else default

section
variable {α : Type} {size count i : Nat} {flag : Nat → Bool} {value : Nat → α} {default : α}

theorem length_table : (table size count flag value default).length = size := by simp [table]

theorem getElem?_table (h : i < size) :
    (table size count flag value default)[i]? =
      some (if i < count ∧ flag i then value i else default) := by
  rw [table, List.getElem?_map, List.getElem?_range h]
  rfl

theorem table_zero : table size 0 flag value default = List.replicate size default := by
  simp [table, List.map_const']

/-- An entry that is not flagged is settled without writing it. -/
theorem table_succ (flag : Nat → Bool) (h : count < size → flag count = false) :
    table size (count + 1) flag value default = table size count flag value default := by
  apply List.map_congr_left
  intro n hn
  by_cases heq : n = count
  · subst heq
    simp [h (List.mem_range.1 hn)]
  · simp only [show n < count + 1 ↔ n < count by omega]

theorem write?_table (hsize : count < size) (h : flag count) :
    write? (table size count flag value default) count (value count) =
      some (table size (count + 1) flag value default) := by
  rw [write?, length_table, if_pos hsize]
  congr 1
  apply List.ext_getElem?
  intro n
  by_cases hn : n < size
  · rw [List.getElem?_set, length_table, getElem?_table hn, getElem?_table hn]
    by_cases heq : count = n
    · simp [← heq, h, hsize]
    · rw [if_neg heq]
      simp only [show n < count + 1 ↔ n < count by omega]
  · rw [List.getElem?_eq_none (by rw [List.length_set, length_table]; omega),
      List.getElem?_eq_none (by rw [length_table]; omega)]

end

/-! ### One step of the walk -/

/-- The content of the token at this index. -/
def contentAt (tokens : List Token) (i : Nat) : Text := (tokens[i]?.map (·.content)).getD []

/-- Whether the token in front of this index takes its line with it. -/
def cutAt (tokens : List Token) : Nat → Bool
  | 0 => false
  | i + 1 => aloneAt tokens i

/-- Whether the token at this index is a reference to a partial that is alone on its line. -/
def indentedAt (tokens : List Token) (i : Nat) : Bool :=
  aloneAt tokens i && tokens[i]?.any (·.kind == .inclusion)

/-- What is written down, with so many entries settled among the starts, the ends and the indents. -/
def written (tokens : List Token) (starts ends indents : Nat) : Margins where
  starts := table tokens.length starts (cutAt tokens) (fun n => lineEndLength (contentAt tokens n)) 0
  ends := table tokens.length ends (fun n => aloneAt tokens (n + 1))
    (fun n => blanksLength (contentAt tokens n)) 0
  indents := table tokens.length indents (indentedAt tokens) (fun n => some (indentAt tokens n)) none

variable {tokens : List Token} {i starts ends indents : Nat} {t : Token}

/-- At first nothing is taken. -/
theorem written_zero (tokens : List Token) : written tokens 1 0 0 = .none tokens.length := by
  rw [written, table_succ (cutAt tokens) fun _ => rfl, table_zero, table_zero, table_zero]
  rfl

theorem written_starts (h : starts < tokens.length → cutAt tokens starts = false) :
    written tokens (starts + 1) ends indents = written tokens starts ends indents := by
  rw [written, table_succ (cutAt tokens) h]
  rfl

theorem written_ends (h : aloneAt tokens (ends + 1) = false) :
    written tokens starts (ends + 1) indents = written tokens starts ends indents := by
  rw [written, table_succ (fun n => aloneAt tokens (n + 1)) fun _ => h]
  rfl

theorem written_indents (h : indentedAt tokens indents = false) :
    written tokens starts ends (indents + 1) = written tokens starts ends indents := by
  rw [written, table_succ (indentedAt tokens) fun _ => h]
  rfl

theorem contentAt_eq (h : tokens[i]? = some t) : contentAt tokens i = t.content := by
  rw [contentAt, h]
  rfl

theorem indentedAt_eq (h : tokens[i]? = some t) :
    indentedAt tokens i = (aloneAt tokens i && t.kind == .inclusion) := by
  rw [indentedAt, h]
  rfl

theorem takeBefore?_eq (halone : aloneAt tokens i) (starts indents : Nat) :
    takeBefore? (tokens.map Token.spanned) (written tokens starts (i - 1) indents) i =
      some (written tokens starts i indents, indentAt tokens i) := by
  cases i with
  | zero => rfl
  | succ i =>
    obtain ⟨t, -, ht, -⟩ := exists_of_aloneAt halone
    have hi : i < tokens.length := Nat.lt_of_succ_lt (List.getElem?_eq_some_iff.1 ht).1
    obtain ⟨p, hp⟩ := exists_getElem? hi
    obtain ⟨stop, hstop, hindent⟩ := dropBytes?_blanksLength p.content
    have hwrite : write? (written tokens starts i indents).ends i (blanksLength p.content) =
        some (written tokens starts (i + 1) indents).ends := by
      rw [← contentAt_eq hp]
      exact write?_table hi halone
    rw [takeBefore?, getElem?_map_spanned hp, Nat.add_sub_cancel]
    simp only [Token.spanned_content, trailingBlanks?_eq, hwrite, hstop, hindent,
      Option.bind_eq_bind, Option.bind_some]
    rw [indentAt, hp]
    rfl

theorem takeBehind?_eq (halone : aloneAt tokens i) (ends indents : Nat) :
    takeBehind? (tokens.map Token.spanned) (written tokens (i + 1) ends indents) i =
      some (written tokens (i + 2) ends indents) := by
  cases hnext : tokens[i + 1]? with
  | none =>
    have hlength := List.getElem?_eq_none_iff.1 hnext
    rw [written_starts fun hlt => absurd hlt (Nat.not_lt.2 hlength), takeBehind?, List.getElem?_map,
      hnext]
    rfl
  | some u =>
    have hi := (List.getElem?_eq_some_iff.1 hnext).1
    have hwrite : write? (written tokens (i + 1) ends indents).starts (i + 1)
        (lineEndLength u.content) = some (written tokens (i + 2) ends indents).starts := by
      rw [← contentAt_eq hnext]
      exact write?_table hi halone
    rw [takeBehind?, getElem?_map_spanned hnext]
    simp only [Token.spanned_content, leadingLineEnd?_eq, hwrite, Option.bind_eq_bind,
      Option.bind_some]
    rfl

/-- A step settles the end of the run in front of its token, the indent of the token and the start of
the run behind it. -/
theorem take?_eq (hapart : Apart tokens) (hi : i < tokens.length) :
    take? (tokens.map Token.spanned) (written tokens (i + 1) (i - 1) i) i =
      some (written tokens (i + 2) i (i + 1)) := by
  obtain ⟨t, ht⟩ := exists_getElem? hi
  have hindented := indentedAt_eq ht
  rw [take?, isAlone?_eq hapart ht, Option.bind_eq_bind, Option.bind_some]
  cases halone : aloneAt tokens i with
  | false =>
    have hcut : cutAt tokens (i + 1) = false := halone
    have hends : written tokens (i + 1) i i = written tokens (i + 1) (i - 1) i := by
      cases i with
      | zero => rfl
      | succ i => exact written_ends halone
    rw [halone, Bool.false_and] at hindented
    rw [written_starts fun _ => hcut, written_indents hindented, hends]
    rfl
  | true =>
    rw [halone, Bool.true_and] at hindented
    rw [if_pos rfl, getElem?_map_spanned ht, Option.bind_eq_bind, Option.bind_some,
      takeBefore?_eq halone, Option.bind_eq_bind, Option.bind_some]
    dsimp only
    by_cases hkind : t.kind = .inclusion
    · have hwrite : write? (written tokens (i + 1) i i).indents i (some (indentAt tokens i)) =
          some (written tokens (i + 1) i (i + 1)).indents :=
        write?_table hi (by simp [hindented, hkind])
      rw [Token.spanned_kind, if_pos hkind, hwrite, Option.bind_eq_bind, Option.bind_some]
      exact takeBehind?_eq halone i (i + 1)
    · rw [Token.spanned_kind, if_neg hkind, ← written_indents (by simp [hindented, hkind])]
      exact takeBehind?_eq halone i (i + 1)

/-! ### The whole walk -/

/-- All that is written down for the tokens. -/
def marginsOf (tokens : List Token) : Margins :=
  written tokens (tokens.length + 1) (tokens.length - 1) tokens.length

/-- The walk always has an answer. -/
theorem margins?_eq (hapart : Apart tokens) :
    margins? (tokens.map Token.spanned) = some (marginsOf tokens) := by
  have hwalk : ∀ i, i ≤ tokens.length →
      (List.range i).foldlM (take? (tokens.map Token.spanned)) (.none tokens.length) =
        some (written tokens (i + 1) (i - 1) i) := by
    intro i hi
    induction i with
    | zero =>
      rw [← written_zero]
      rfl
    | succ i ih =>
      rw [List.range_succ, List.foldlM_append, ih (Nat.le_of_succ_le hi)]
      simp [take?_eq hapart hi]
  rw [margins?, List.length_map]
  exact hwalk _ (Nat.le_refl _)

theorem getElem?_starts (hi : i < tokens.length) :
    (marginsOf tokens).starts[i]? =
      some (if cutAt tokens i then lineEndLength (contentAt tokens i) else 0) := by
  rw [marginsOf, written, getElem?_table hi]
  simp only [show i < tokens.length + 1 by omega, true_and]

theorem getElem?_ends (hi : i < tokens.length) :
    (marginsOf tokens).ends[i]? =
      some (if aloneAt tokens (i + 1) then blanksLength (contentAt tokens i) else 0) := by
  have hlast : i < tokens.length - 1 ∧ aloneAt tokens (i + 1) ↔ aloneAt tokens (i + 1) := by
    refine ⟨And.right, fun halone => ⟨?_, halone⟩⟩
    obtain ⟨t, -, ht, -⟩ := exists_of_aloneAt halone
    exact Nat.lt_sub_of_add_lt (List.getElem?_eq_some_iff.1 ht).1
  rw [marginsOf, written, getElem?_table hi]
  simp only [hlast]

theorem getElem?_indents (hi : i < tokens.length) :
    (marginsOf tokens).indents[i]? =
      some (if indentedAt tokens i then some (indentAt tokens i) else none) := by
  rw [marginsOf, written, getElem?_table hi]
  simp only [hi, true_and]

end Offset

end Mustache
