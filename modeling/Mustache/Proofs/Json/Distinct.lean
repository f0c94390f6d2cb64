import Mustache.Json.Read

/-!
# Objects without two members of one name

Every value that is read from a text is of this kind (`Json.distinct_of_read?`): the members of an
object are gathered in a table.
-/

namespace Mustache.Json

/-- No object in the value has two members of one name. -/
inductive Distinct : Json → Prop
  | null : Distinct .null
  | bool {b} : Distinct (.bool b)
  | number {n} : Distinct (.number n)
  | string {s} : Distinct (.string s)
  | array {items} : (∀ item ∈ items, Distinct item) → Distinct (.array items)
  | object {members} : (members.map Prod.fst).Nodup → (∀ m ∈ members, Distinct m.2) →
    Distinct (.object members)

/-- All members that have been read are distinct values. -/
def MembersDistinct (members : Table Json) : Prop :=
  ∀ (key : Text) (value : Json), members[key]? = some value → value.Distinct

theorem membersDistinct_empty : MembersDistinct ∅ := by
  intro key value h
  simp at h

theorem MembersDistinct.insert {members : Table Json} {value : Json} (h : MembersDistinct members)
    (hvalue : value.Distinct) (key : Text) : MembersDistinct (members.insert key value) := by
  intro key' value' h'
  rw [Table.getElem?_insert] at h'
  split at h'
  · cases h'
    exact hvalue
  · exact h key' value' h'

/-- The entries of a table have different names. -/
theorem MembersDistinct.object {members : Table Json} (h : MembersDistinct members) :
    (Json.object members.toList).Distinct := by
  refine .object ?_ fun m hm => h m.1 m.2 (Std.ExtTreeMap.mem_toList_iff_getElem?_eq_some.1 hm)
  rw [List.nodup_iff_pairwise_ne, List.pairwise_map]
  refine Std.ExtTreeMap.distinct_keys_toList.imp fun hne heq => hne ?_
  rw [heq]
  exact Std.ReflCmp.compare_self

/-! ### While a text is read -/

/-- What is gathered in an array or object that is open is distinct. -/
def Open.Distinct : Open → Prop
  | .array items => ∀ item ∈ items, item.Distinct
  | .object members _ => MembersDistinct members

def Expected.Distinct : Expected → Prop
  | .value | .itemOrEnd | .keyOrEnd => True
  | .key members | .colon members _ => MembersDistinct members
  | .next read => read.Distinct

structure Progress.Distinct (p : Progress) : Prop where
  opened : ∀ o ∈ p.opened, o.Distinct
  expected : p.expected.Distinct

variable {limit : Nat} {opened : List Open} {t : Token} {p p' : Progress}

theorem Progress.Distinct.of_startValue? (h : ∀ o ∈ opened, o.Distinct)
    (hstart : startValue? limit opened t = some p) : p.Distinct := by
  cases t with
  | null | bool | number | string =>
    cases hstart
    exact ⟨h, by constructor⟩
  | openArray =>
    rw [startValue?] at hstart
    split at hstart
    · cases hstart
      exact ⟨List.forall_mem_cons.2 ⟨nofun, h⟩, trivial⟩
    · cases hstart
  | openObject =>
    rw [startValue?] at hstart
    split at hstart
    · cases hstart
      exact ⟨h, trivial⟩
    · cases hstart
  | _ => cases hstart

theorem distinct_reverse {items : List Json} (h : ∀ item ∈ items, item.Distinct) :
    (Json.array items.reverse).Distinct :=
  .array fun item hitem => h item (List.mem_reverse.1 hitem)

theorem Progress.Distinct.of_afterValue? {value : Json} (hvalue : value.Distinct)
    (h : ∀ o ∈ opened, o.Distinct) (hafter : afterValue? value opened t = some p) :
    p.Distinct := by
  unfold afterValue? at hafter
  split at hafter
  · obtain ⟨hitems, h⟩ := List.forall_mem_cons.1 h
    cases hafter
    exact ⟨List.forall_mem_cons.2 ⟨List.forall_mem_cons.2 ⟨hvalue, hitems⟩, h⟩, trivial⟩
  · obtain ⟨hitems, h⟩ := List.forall_mem_cons.1 h
    cases hafter
    exact ⟨h, distinct_reverse (List.forall_mem_cons.2 ⟨hvalue, hitems⟩)⟩
  · next key opened =>
    obtain ⟨hmembers, h⟩ := List.forall_mem_cons.1 h
    cases hafter
    exact ⟨h, hmembers.insert hvalue key⟩
  · next key opened =>
    obtain ⟨hmembers, h⟩ := List.forall_mem_cons.1 h
    cases hafter
    exact ⟨h, (hmembers.insert hvalue key).object⟩
  · cases hafter

/-- One token. -/
theorem Progress.Distinct.step? (h : p.Distinct) (hstep : p.step? limit t = some p') :
    p'.Distinct := by
  obtain ⟨opened, expected⟩ := p
  obtain ⟨hopened, hexpected⟩ := h
  unfold Progress.step? at hstep
  split at hstep
  · exact .of_startValue? hopened hstep
  · split at hstep
    · next heq =>
      cases hstep
      rw [heq] at hopened
      obtain ⟨hitems, h⟩ := List.forall_mem_cons.1 hopened
      exact ⟨h, distinct_reverse hitems⟩
    · cases hstep
  · exact .of_startValue? hopened hstep
  · next heq =>
    cases hstep
    cases heq
    exact ⟨hopened, hexpected⟩
  · cases hstep
    exact ⟨hopened, membersDistinct_empty⟩
  · cases hstep
    exact ⟨hopened, .object List.nodup_nil nofun⟩
  · next heq =>
    cases hstep
    cases heq
    exact ⟨List.forall_mem_cons.2 ⟨hexpected, hopened⟩, trivial⟩
  · next heq =>
    cases heq
    exact .of_afterValue? hexpected hopened hstep
  · cases hstep

theorem Progress.Distinct.foldlM {tokens : List Token} (h : p.Distinct)
    (hfold : tokens.foldlM (Progress.step? limit) p = some p') : p'.Distinct := by
  induction tokens generalizing p with
  | nil =>
    cases hfold
    exact h
  | cons t tokens ih =>
    rw [List.foldlM_cons] at hfold
    obtain ⟨q, hq, hfold⟩ := Option.bind_eq_some_iff.1 hfold
    exact ih (h.step? hq) hfold

/-- What is read from a text has no object with two members of one name. -/
theorem distinct_of_read? {source : Text} {value : Json} (h : read? source = some value) :
    value.Distinct := by
  rw [read?, readWithin?] at h
  split at h
  · next hfold =>
    cases h
    obtain ⟨tokens, -, hfold⟩ := Option.bind_eq_some_iff.1 hfold
    have hstart : Progress.Distinct ⟨[], .value⟩ := ⟨nofun, trivial⟩
    exact (hstart.foldlM hfold).expected
  · cases h

end Mustache.Json
