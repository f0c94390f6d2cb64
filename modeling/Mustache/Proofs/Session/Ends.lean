import Mathlib.Data.Prod.Lex
import Mustache.Proofs.Render.Inside
import Mustache.Proofs.Session.Count

/-!
# Rendering ends

A session writes nodes in turns, and within a turn it writes what sections and expansions lead to by
further turns. Whatever the loader and the functions give, these are smaller by `Session.measure`:
what is left of the limit comes first, and then the number of nodes. So the turns come to an end, and
they have one result (`Session.turns_end`).
-/

namespace Mustache

namespace Context

variable {c : Context}

/-- Items that are looked up from a scope of the context are scopes of the context. -/
theorem Closed.lt_of_resolve (hc : c.Closed) {id : ScopeId} (hid : id < c.scopes.size) {key : Text}
    {scopes : List ScopeId} (h : c.resolve id key = .ok (some (.items scopes))) :
    ∀ i ∈ scopes, i < c.scopes.size := by
  obtain ⟨section?, hsection, hlt⟩ := hc.exists_resolve hid key
  rw [hsection] at h
  exact hlt scopes (Except.ok.inj h)

end Context

namespace Session

open Render

variable {σ ε : Type} {c : Context} {loader : Loader σ ε} {limit d : Nat} {frame : Frame}
  {ns : List Node} {s : State σ}

/-- What writes sequences of nodes in a session. -/
abbrev Writer (σ ε : Type) : Type := List Node → Frame → RenderM (State σ) ε Text

/-- Writes a sequence of nodes. The bodies of sections in it, and what names in it are expanded to,
are written by `self`. -/
def turn (c : Context) (loader : Loader σ ε) (limit : Nat) (self : Writer σ ε) : Writer σ ε :=
  Render.turn c loader.inSession self fun name ns frame => descend limit name (self ns frame)

/-- How much there is to do to write nodes from a state: what is left of the limit, and then the
number of nodes. -/
def measure (limit : Nat) (s : State σ) (ns : List Node) : Nat ×ₗ Nat :=
  toLex (limit - s.depth, Node.countOf ns)

/-- Writes by `self` what there is less to do for than `bound`, against scopes of the context, and
everything else by `other`. -/
def below (c : Context) (limit : Nat) (bound : Nat ×ₗ Nat) (self other : Writer σ ε) :
    Writer σ ε := fun ns frame => .mk fun s =>
  if measure limit s ns < bound ∧ frame.base < c.scopes.size then (self ns frame).run s
  else (other ns frame).run s

/-! ### What a turn leads to -/

theorem measure_lt_of_count {s s' : State σ} {ns ns' : List Node} (hdepth : s'.depth = s.depth)
    (hcount : Node.countOf ns' < Node.countOf ns) : measure limit s' ns' < measure limit s ns :=
  Prod.Lex.toLex_lt_toLex.2 (.inr ⟨congrArg (limit - ·) hdepth, hcount⟩)

theorem measure_lt_of_depth {s s' : State σ} (hdepth : s'.depth = s.depth + 1)
    (hlimit : s.depth < limit) (ns ns' : List Node) : measure limit s' ns' < measure limit s ns :=
  Prod.Lex.toLex_lt_toLex.2 (.inl (show limit - s'.depth < limit - s.depth by omega))

/-- Turns from one state come to the same if they write alike the smaller sequences of nodes, and
inside an expansion all sequences of nodes. -/
theorem agrees_turn (hc : c.Closed) {self self' : Writer σ ε}
    (hbody : ∀ children frame, Node.countOf children < Node.countOf ns →
      frame.base < c.scopes.size →
      Agrees (State.EqAt d) (self children frame) (self' children frame))
    (hinside : d < limit → ∀ ns frame, frame.base < c.scopes.size →
      Agrees (State.EqAt (d + 1)) (self ns frame) (self' ns frame))
    (hframe : frame.base < c.scopes.size) :
    Agrees (State.EqAt d) (turn c loader limit self ns frame) (turn c loader limit self' ns frame) := by
  have hload : ∀ name, Agrees (State.EqAt d) (load loader.inSession name)
      (load loader.inSession name) := by
    refine agrees_load ?_
    rintro name s _ ⟨rfl, hdepth⟩
    exact ⟨rfl, rfl, hdepth⟩
  have hcongruence := (congruence_agrees c hload).within (P := (· < c.scopes.size))
    fun hid => hc.lt_of_resolve hid
  refine hcongruence.turn (fun name ns frame hframe => ?_) hbody hframe
  exact agrees_descend_descend fun hd => hinside hd ns frame hframe

/-- Two writers agree from states in which they do the same, as one of them is that of the session,
which comes back to its count. -/
theorem agrees_renderNodes {write : RenderM (State σ) ε Text}
    (h : ∀ s : State σ, s.depth = d →
      write.run s = (renderNodes c loader limit ns frame).run s) :
    Agrees (State.EqAt d) (renderNodes c loader limit ns frame) write := by
  rintro s _ ⟨rfl, hdepth⟩
  rw [h s hdepth]
  exact ⟨rfl, rfl, (restores_renderNodes c loader limit s ns frame).1.trans hdepth⟩

/-- Sequences of nodes are written in turns. -/
theorem renderNodes_eq_turn (c : Context) (loader : Loader σ ε) (limit : Nat) (ns : List Node)
    (frame : Frame) :
    renderNodes c loader limit ns frame =
      turn c loader limit (renderNodes c loader limit) ns frame := by
  have hself : Render.renderNodes c loader.inSession (expand c loader limit) =
      renderNodes c loader limit := by
    funext ns frame
    exact (renderNodes_eq c loader limit ns frame).symm
  rw [renderNodes_eq, Render.renderNodes_eq_turn, hself]
  rfl

/-- **A turn leads to nothing but smaller ones.** Whatever is done elsewhere, it comes to the
same. -/
theorem run_renderNodes_eq_below (hc : c.Closed) (hframe : frame.base < c.scopes.size)
    (loader : Loader σ ε) (limit : Nat) (other : Writer σ ε) (ns : List Node) (s : State σ) :
    (renderNodes c loader limit ns frame).run s =
      (turn c loader limit (below c limit (measure limit s ns) (renderNodes c loader limit) other)
        ns frame).run s := by
  rw [renderNodes_eq_turn]
  have hagrees : Agrees (State.EqAt s.depth) (turn c loader limit (renderNodes c loader limit) ns frame)
      (turn c loader limit (below c limit (measure limit s ns) (renderNodes c loader limit) other)
        ns frame) := by
    refine agrees_turn hc (fun children frame hcount hframe => ?_) (fun hd ns' frame hframe => ?_)
      hframe
    · exact agrees_renderNodes fun s' hdepth =>
        if_pos ⟨measure_lt_of_count hdepth hcount, hframe⟩
    · exact agrees_renderNodes fun s' hdepth =>
        if_pos ⟨measure_lt_of_depth hdepth hd ns ns', hframe⟩
  obtain ⟨hresult, hstate, -⟩ := hagrees s s ⟨rfl, rfl⟩
  exact Prod.ext hresult hstate

/-- **The turns have one result.** -/
theorem run_eq_of_turn (hc : c.Closed) {write : Writer σ ε}
    (hwrite : ∀ ns frame, write ns frame = turn c loader limit write ns frame)
    (hframe : frame.base < c.scopes.size) (ns : List Node) (s : State σ) :
    (write ns frame).run s = (renderNodes c loader limit ns frame).run s := by
  induction hm : measure limit s ns using WellFoundedLT.induction generalizing ns frame s with
  | ind m ih =>
    subst hm
    have hagrees : Agrees (State.EqAt s.depth)
        (turn c loader limit (renderNodes c loader limit) ns frame)
        (turn c loader limit write ns frame) := by
      refine agrees_turn hc (fun children frame hcount hframe => ?_) (fun hd ns' frame hframe => ?_)
        hframe
      · exact agrees_renderNodes fun s' hdepth =>
          ih _ (measure_lt_of_count hdepth hcount) hframe children s' rfl
      · exact agrees_renderNodes fun s' hdepth =>
          ih _ (measure_lt_of_depth hdepth hd ns ns') hframe ns' s' rfl
    obtain ⟨hresult, hstate, -⟩ := hagrees s s ⟨rfl, rfl⟩
    rw [hwrite, renderNodes_eq_turn]
    exact Prod.ext hresult.symm hstate.symm

/-- Rounds beyond what is left of the limit make no difference. -/
theorem run_renderRounds_of_le (c : Context) (loader : Loader σ ε) (ns : List Node) (frame : Frame)
    {rounds : Nat} (h : limit - s.depth ≤ rounds) :
    (renderRounds c loader limit rounds ns frame).run s =
      (renderRounds c loader limit (limit - s.depth) ns frame).run s := by
  induction rounds, h using Nat.le_induction with
  | base => rfl
  | succ rounds hle ih =>
    obtain ⟨hresult, hstate, -⟩ := agrees_renderRounds_succ c loader
      (by omega : limit ≤ s.depth + rounds) ns frame s s ⟨rfl, rfl⟩
    rw [← ih]
    exact Prod.ext hresult.symm hstate.symm

/-- A session never asks for a scope that is not there. -/
theorem run_renderNodes_ne (hc : c.Closed) (hframe : frame.base < c.scopes.size)
    (loader : Loader σ ε) (limit : Nat) (ns : List Node) (s : State σ) (missing : NoSuchScope) :
    ((renderNodes c loader limit ns frame).run s).1 ≠ .error (.noSuchScope missing) := by
  intro h
  obtain ⟨hresult, -⟩ := agrees_renderRounds c loader (Nat.le_add_left limit s.depth)
    (Nat.le_max_right s.deepest limit) ns frame s s.store ⟨rfl, rfl, Nat.le_max_left _ _⟩
  exact throws_renderWithin hc.covers (fun _ => nofun) (limit - s.depth) ns frame hframe s.store _
    (hresult.symm.trans h) missing rfl

/-! ### The law -/

/-- **Rendering ends.** In every context that a program can make, against every scope of it, from
every state of a session, and whatever the loader and the functions give:

* nodes are written in a turn that leads to nothing but further turns for which less of the limit is
  left, or as much and fewer nodes, again against scopes of the context;
* what writes all nodes in turns writes what the session writes;
* no more rounds of expansions are needed than are left of the limit;
* no more expansions are nested than the limit says, and the session comes back to its count;
* no scope is asked for that is not there. -/
theorem turns_end (hc : c.Reachable) (hframe : frame.base < c.scopes.size) (loader : Loader σ ε)
    (limit : Nat) (ns : List Node) (s : State σ) :
    (∀ other, (renderNodes c loader limit ns frame).run s =
      (turn c loader limit (below c limit (measure limit s ns) (renderNodes c loader limit) other)
        ns frame).run s) ∧
    (∀ write : Writer σ ε, (∀ ns frame, write ns frame = turn c loader limit write ns frame) →
      (write ns frame).run s = (renderNodes c loader limit ns frame).run s) ∧
    (∀ rounds, limit - s.depth ≤ rounds → (renderRounds c loader limit rounds ns frame).run s =
      (renderNodes c loader limit ns frame).run s) ∧
    Restores limit s (renderNodes c loader limit ns frame) ∧
    ∀ missing, ((renderNodes c loader limit ns frame).run s).1 ≠ .error (.noSuchScope missing) := by
  refine ⟨fun other => run_renderNodes_eq_below hc.closed hframe loader limit other ns s,
    fun write hwrite => run_eq_of_turn hc.closed hwrite hframe ns s, fun rounds hrounds => ?_,
    restores_renderNodes c loader limit s ns frame,
    run_renderNodes_ne hc.closed hframe loader limit ns s⟩
  rw [run_renderRounds_of_le c loader ns frame hrounds, renderNodes,
    run_renderRounds_of_le c loader ns frame (Nat.sub_le limit s.depth)]

/-- What is seen of a rendering: its text, or the words for its error. -/
def shown (result : Except (RenderError Text) Text) : Text :=
  match result with
  | .ok s => s
  | .error e => e.message id

/-- A partial that refers to itself twice, and a function that makes its section longer. -/
theorem turns_end_of_growing_templates :
    let loader : Loader Unit Text := fun name => pure <| .ok <| some
      [.inclusion name none .nowhere, .inclusion name none .nowhere]
    let grow (s : Text) : Text := "\x7b\x7b#f\x7d\x7d".toList ++ s ++ s ++ "\x7b\x7b/f\x7d\x7d".toList
    ∃ c, Context.empty.set Context.root ['f'] (.function grow) = .ok c ∧ c.Reachable ∧
      ∀ write : Writer Unit Text,
        (∀ ns frame, write ns frame = turn c loader 2 write ns frame) →
        shown ((write [.inclusion ['p'] none .nowhere] { base := 0 }).run { store := () }).1 =
            "Recursion limit of 2 exceeded while expanding 'p'".toList ∧
          shown ((write [.block ['f'] false [] ['x'] .nowhere] { base := 0 }).run
            { store := () }).1 = "Recursion limit of 2 exceeded while expanding 'f'".toList := by
  intro loader grow
  obtain ⟨c, hc⟩ : ∃ c, Context.empty.set Context.root ['f'] (.function grow) = .ok c := ⟨_, rfl⟩
  have hreachable : c.Reachable := .set .empty Nat.one_pos hc
  have hroot : ({ base := 0 } : Frame).base < c.scopes.size := by
    cases hc
    decide
  refine ⟨c, hc, hreachable, fun write hwrite => ?_⟩
  rw [(turns_end hreachable hroot loader 2 _ { store := () }).2.1 write hwrite,
    (turns_end hreachable hroot loader 2 _ { store := () }).2.1 write hwrite]
  cases hc
  decide +kernel

end Session

end Mustache
