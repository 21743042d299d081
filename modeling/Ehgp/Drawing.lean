import Ehgp.Printing
import Ehgp.Propagation

/-!
# The drawn graph

What can be said of the graph as it is drawn, without the call sites behind it.
It is closed, so walking it with the inserting subscript inserts nothing; it is
rooted at the function of the throw site; and the leak node hangs under main.

## Main definitions

* `Drawn` — the edges of a graph.
* `ClosedAndRooted` — the shape of the graphs `buildChildsMap` leaves.

## Main results

* `closedAndRooted_buildChildsMap` — **the graph is closed and rooted.**
* `writeGraph_eq` — drawing the graph leaves it as it is.
-/

namespace Ehgp

/-- The edges of a graph. -/
def Drawn (m : ChildsMapType) (n n' : Node) : Prop := n' ∈ m.get n

/-- The nodes a walk over a graph comes to: keys, and targets of edges. -/
def OnNodes (m : ChildsMapType) (l : List Node) : Prop :=
  ∀ n ∈ l, n ∈ m ∨ ∃ n', Drawn m n' n

/-- A graph is closed, rooted at the entry node, and has the leak node under main. -/
structure ClosedAndRooted (M : Module) (E : CurrentException) (r : BuildState) : Prop where
  /-- Every target of an edge is a key. -/
  closed : ∀ n n', Drawn r.childsMap n n' → n' ∈ r.childsMap
  /-- Subscripting any keys and children, in any order, changes nothing. -/
  walk : ∀ l, OnNodes r.childsMap l → l.foldl SetMap.subscript r.childsMap = r.childsMap
  /-- The entry node is a key. -/
  entry : .fn E.throwSite.function ∈ r.childsMap
  /-- Every key is reachable from the entry node. -/
  rooted : ∀ n ∈ r.childsMap,
    Relation.ReflTransGen (Drawn r.childsMap) (.fn E.throwSite.function) n
  /-- The leak node is a key exactly when the exception leaks. -/
  leak : .leak ∈ r.childsMap ↔ r.leaked = true
  /-- It has no children. -/
  leakChilds : r.childsMap.get .leak = []
  /-- Its predecessors are main, -/
  leakMain : ∀ n, Drawn r.childsMap n .leak → ∃ F : Function, n = .fn F ∧ F.IsMain
  /-- of which a module has one. -/
  leakUnique : ∀ F ∈ M.functions, ∀ G ∈ M.functions, Drawn r.childsMap (.fn F) .leak →
    Drawn r.childsMap (.fn G) .leak → F = G

section

variable {M : Module} {E : CurrentException} {A : VCallCandidatesAnalyzer} {S : ICallSolver}

/-! ### Closed and rooted -/

/-- **A walk over a closed graph inserts nothing.** -/
theorem foldl_subscript_of_onNodes {m : ChildsMapType} (hclosed : ∀ n n', Drawn m n n' → n' ∈ m)
    {l : List Node} (hl : OnNodes m l) : l.foldl SetMap.subscript m = m := by
  apply List.foldl_eq_self
  intro n hn
  apply SetMap.subscript_of_mem
  rcases hl n hn with hkey | ⟨n', hedge⟩
  · exact hkey
  · exact hclosed n' n hedge

theorem Exact.closed {r : BuildState} (h : Exact M E A S r) {n n' : Node}
    (hedge : Drawn r.childsMap n n') : n' ∈ r.childsMap :=
  (h.key n').mpr (Or.inr ⟨n, hedge⟩)

/-- The functions of reached call sites are reachable along edges: each step to a caller is an
edge to its function. -/
theorem Exact.rooted_of_reached {r : BuildState} (h : Exact M E A S r) {c : CallBase}
    (hc : Reached M E A S c) :
    Relation.ReflTransGen (Drawn r.childsMap) (.fn E.throwSite.function) (.fn c.function) := by
  unfold Reached at hc
  induction hc with
  | refl => exact .refl
  | @tail b c hb hstep ih =>
    obtain ⟨hmain, hcaller, -⟩ := hstep
    have hedge : Drawn r.childsMap (.fn b.function) (.fn c.function) :=
      (h.edge _ _).mpr ⟨hmain, ⟨b, hb, rfl⟩, c, hcaller, rfl⟩
    exact ih.tail hedge

/-- A node with an outgoing edge is the function of a reached call site. -/
theorem Exact.reached_of_drawn {r : BuildState} (h : Exact M E A S r) {F : Function} {n : Node}
    (hedge : Drawn r.childsMap (.fn F) n) : ∃ c, Reached M E A S c ∧ c.function = F := by
  cases n with
  | leak => exact ((h.leakEdge F).mp hedge).2
  | fn G => exact ((h.edge F G).mp hedge).2.1

/-- **The graph is closed and rooted.** -/
theorem closedAndRooted_buildChildsMap (M : Module) (E : CurrentException)
    (ChildsMap : ChildsMapType) (A : VCallCandidatesAnalyzer) (S : ICallSolver) :
    ClosedAndRooted M E (buildChildsMap M E ChildsMap A S) := by
  have h : Exact M E A S (buildChildsMap M E ChildsMap A S) := exact_buildChildsMap ChildsMap
  have hthrow : Reached M E A S E.throwSite := .refl
  have hpred : ∀ n, Drawn (buildChildsMap M E ChildsMap A S).childsMap n .leak →
      ∃ F : Function, n = .fn F ∧ F.IsMain := by
    intro n hn
    obtain ⟨F, rfl⟩ := h.source_eq hn
    exact ⟨F, rfl, ((h.leakEdge F).mp hn).1⟩
  refine
    { closed := fun n n' hedge => h.closed hedge
      walk := ?_
      entry := (h.key _).mpr (Or.inl ⟨E.throwSite, hthrow, rfl⟩)
      rooted := ?_
      leak := ?_
      leakChilds := h.leakChilds
      leakMain := hpred
      leakUnique := ?_ }
  · intro l hl
    exact foldl_subscript_of_onNodes (fun _ _ hedge => h.closed hedge) hl
  · intro n hn
    rcases (h.key n).mp hn with ⟨c, hc, rfl⟩ | ⟨m, hm⟩
    · exact h.rooted_of_reached hc
    · -- the last edge starts at the function of a reached call site
      obtain ⟨F, rfl⟩ := h.source_eq hm
      obtain ⟨c, hc, rfl⟩ := h.reached_of_drawn hm
      exact (h.rooted_of_reached hc).tail hm
  · rw [← h.mainLeak]
    constructor
    · intro hkey
      rcases (h.key .leak).mp hkey with ⟨c, -, hc⟩ | ⟨n, hn⟩
      · cases hc
      · obtain ⟨F, rfl, hF⟩ := hpred n hn
        exact ⟨F, hF, hn⟩
    · intro hleak
      obtain ⟨F, -, hedge⟩ := hleak
      exact h.closed hedge
  · intro F hF G hG hleakF hleakG
    have hmainF : F.IsMain := ((h.leakEdge F).mp hleakF).1
    have hmainG : G.IsMain := ((h.leakEdge G).mp hleakG).1
    unfold Function.IsMain at hmainF hmainG
    have hname : F.name ≠ [] := by
      rw [hmainF]
      decide
    exact M.wf.names_unique F hF G hG (hmainF.trans hmainG.symm) hname

/-- **Drawing a graph leaves it as it is**: the walk subscripts keys only. -/
theorem writeGraph_eq (m : ChildsMapType) : writeGraph m = m := by
  unfold writeGraph
  apply List.foldl_eq_self
  intro n hn
  have hkey : m.subscript n = m := SetMap.subscript_of_mem hn
  rw [hkey, hkey]

end

end Ehgp
