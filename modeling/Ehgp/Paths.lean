import Ehgp.Callees

/-!
# What a drawn path says

A path from the function of the throw site to the leak node need not be a
propagation: an edge merges all calls between two functions, those that catch the
exception included.  What it does say, where the calls that only receive a
function are harmless, is that its edges are calls and that the exception reaches
its functions; and where the leak node is drawn, some path to it is a
propagation.

## Main definitions

* `PathToLeak` — a drawn path from the throw site's function to the leak node.
* `PathsDrawn` — what such paths say.

## Main results

* `ReachedByCalls.exists_path` — a propagation is drawn as a path.
* `pathsDrawn_buildChildsMap` — **what a drawn path says.**
-/

namespace Ehgp

/-- A drawn path from the entry node through main to the leak node. -/
structure PathToLeak (E : CurrentException) (m : ChildsMapType) (path : List Function) :
    Prop where
  entry : path.head? = some E.throwSite.function
  edges : path.IsChain fun F G => Drawn m (.fn F) (.fn G)
  leak : ∃ F, path.getLast? = some F ∧ F.IsMain ∧ Drawn m (.fn F) .leak

/-- What the drawn paths to the leak node say. -/
structure PathsDrawn (M : Module) (E : CurrentException) (A : VCallCandidatesAnalyzer)
    (S : ICallSolver) (r : BuildState) : Prop where
  /-- Every function of a path but the first has a call that may call the one before, -/
  calls : ∀ path, PathToLeak E r.childsMap path →
    path.IsChain fun F G => ∃ CB, PossibleCallee M A CB F ∧ CB.function = G
  /-- and the exception reaches every function of it along such calls, none of which catch it. -/
  reached : ∀ path, PathToLeak E r.childsMap path →
    ∀ F ∈ path, ∃ c, ReachedByCalls M E A S c ∧ c.function = F
  /-- Where the leak node is drawn, the calls of some path to it do not catch the exception. -/
  leaks : r.leaked = true → ∃ sites : List CallBase, sites.head? = some E.throwSite ∧
    (sites.IsChain fun c c' =>
      PossibleCallee M A c' c.function ∧ (canBeCaught c' E A).1 = false) ∧
    PathToLeak E r.childsMap (sites.map (·.function))

section

variable {M : Module} {E : CurrentException} {A : VCallCandidatesAnalyzer} {S : ICallSolver}

theorem PathToLeak.exists_edge {m : ChildsMapType} {path : List Function}
    (h : PathToLeak E m path) : ∀ F ∈ path, ∃ n, Drawn m (.fn F) n := by
  obtain ⟨-, hedges, G, hlast, -, hleak⟩ := h
  induction path with
  | nil => exact fun F hF => absurd hF List.not_mem_nil
  | cons F path ih =>
    cases path with
    | nil =>
      intro F' hF'
      rw [List.mem_singleton.mp hF']
      rw [List.getLast?_singleton, Option.some.injEq] at hlast
      exact ⟨.leak, hlast ▸ hleak⟩
    | cons F₂ path =>
      rw [List.isChain_cons_cons] at hedges
      intro F' hF'
      rcases List.mem_cons.mp hF' with rfl | hF'
      · exact ⟨.fn F₂, hedges.1⟩
      · refine ih hedges.2 ?_ F' hF'
        rw [← hlast, List.getLast?_cons_cons]

/-- **A propagation along possible calls is drawn as a path.** -/
theorem ReachedByCalls.exists_path {r : BuildState} (h : Exact M E A S r) {c : CallBase}
    (hc : ReachedByCalls M E A S c) : ∃ sites : List CallBase,
      sites.head? = some E.throwSite ∧ sites.getLast? = some c ∧
      (sites.IsChain fun c c' =>
        PossibleCallee M A c' c.function ∧ (canBeCaught c' E A).1 = false) ∧
      (sites.map (·.function)).IsChain fun F G => Drawn r.childsMap (.fn F) (.fn G) := by
  unfold ReachedByCalls at hc
  induction hc with
  | refl => exact ⟨[E.throwSite], rfl, rfl, List.isChain_singleton _, List.isChain_singleton _⟩
  | @tail b c hb hstep ih =>
    obtain ⟨⟨hmain, hcaller, hcatch⟩, hcallee⟩ := hstep
    obtain ⟨sites, hhead, hlast, hchain, hdrawn⟩ := ih
    have hreach : Reached M E A S b := ReachedByCalls.reached hb
    have hedge : Drawn r.childsMap (.fn b.function) (.fn c.function) :=
      (h.edge _ _).mpr ⟨hmain, ⟨b, hreach, rfl⟩, c, hcaller, rfl⟩
    -- the path to `b` goes on to its caller `c`
    refine ⟨sites ++ [c], ?_, List.getLast?_concat, ?_, ?_⟩
    · rw [List.head?_append, hhead, Option.some_or]
    · refine hchain.append (List.isChain_singleton _) ?_
      intro x hx y hy
      rw [hlast, Option.mem_some_iff] at hx
      rw [List.head?_singleton, Option.mem_some_iff] at hy
      subst hx hy
      exact ⟨hcallee, hcatch⟩
    · rw [List.map_append]
      refine hdrawn.append (List.isChain_singleton _) ?_
      intro x hx y hy
      rw [List.getLast?_map, hlast, Option.map_some, Option.mem_some_iff] at hx
      rw [List.map_singleton, List.head?_singleton, Option.mem_some_iff] at hy
      subst hx hy
      exact hedge

end

/-- **What a drawn path says**, where the calls that only receive a function are harmless.  An edge
merges the calls of a function in another, those that catch the exception included: so a path to
the leak node consists of calls and of functions the exception reaches, and where the exception
leaks one of the paths is a propagation. -/
theorem pathsDrawn_buildChildsMap (M : Module) (E : CurrentException)
    (ChildsMap : ChildsMapType) (A : VCallCandidatesAnalyzer)
    (h : ArgumentsHarmless M E A (ICallSolver.solve M .fresh)) :
    PathsDrawn M E A (ICallSolver.solve M .fresh)
      (buildChildsMap M E ChildsMap A (ICallSolver.solve M .fresh)) := by
  have hexact := exact_buildChildsMap (M := M) (E := E) (A := A)
    (S := ICallSolver.solve M .fresh) ChildsMap
  constructor
  · intro path hpath
    refine hpath.edges.imp ?_
    intro F G hedge
    obtain ⟨-, -, -, hcall⟩ := hexact.edge_byCalls h hedge
    exact hcall
  · intro path hpath F hF
    obtain ⟨n, hedge⟩ := hpath.exists_edge F hF
    obtain ⟨c, hc, rfl⟩ := hexact.reached_of_drawn hedge
    exact hc.exists_byCalls h
  · intro hleak
    obtain ⟨c, hc, hmain⟩ := hexact.leaked.mp hleak
    obtain ⟨c', hc', hfun⟩ := hc.exists_byCalls h
    rw [← hfun] at hmain
    -- a propagation to the call site in main, whose function has the edge to the leak node
    obtain ⟨sites, hhead, hlast, hchain, hdrawn⟩ := hc'.exists_path hexact
    have hleakEdge := (hexact.leakEdge c'.function).mpr ⟨hmain, c', hc'.reached, rfl⟩
    refine ⟨sites, hhead, hchain, ?_, hdrawn, c'.function, ?_, hmain, hleakEdge⟩
    · rw [List.head?_map, hhead, Option.map_some]
    · rw [List.getLast?_map, hlast, Option.map_some]

/-! #### A caught call and a detour

`g` calls `f` and catches what `f` throws, but also calls `h`, which calls `f` without a handler. -/

namespace Detour

/-- The function that throws. -/
def f : Function := .ofName 0 "_Z1fv"

/-- The detour to it. -/
def h : Function := .ofName 1 "_Z1hv"

/-- The function that calls both. -/
def g : Function := .ofName 2 "_Z1gv"

/-- The entry of the program. -/
def main : Function := .ofName 3 "main"

/-- The runtime function that throws. -/
def cxaThrow : Function := .ofName 4 "__cxa_throw"

/-- The type info of the exception. -/
def typeInfoA : GlobalVariable := ⟨5, "_ZTI1A", .external, true, false, .visibilityPublic, []⟩

/-- The throw in `f`. -/
def throwA : CallBase :=
  .ofCallee 10 f ⟨0, none⟩ (.function cxaThrow) [.other 0, .globalVariable typeInfoA, .null]

/-- The call of `f` in `g`, with a handler for the exception. -/
def caughtCall : CallBase := { CallBase.ofCallee 11 g ⟨2, none⟩ (.function f) [] with
  kind := .invoke ⟨20, none⟩ ⟨21, some ⟨false, [.catchClause (.globalVariable typeInfoA)]⟩⟩ }

/-- The call of `f` in `h`, without a handler. -/
def callOfF : CallBase := .ofCallee 12 h ⟨1, none⟩ (.function f) []

/-- The call of `h` in `g`, without one either. -/
def callOfH : CallBase := .ofCallee 13 g ⟨2, none⟩ (.function h) []

/-- The call of `g` in `main`. -/
def callOfG : CallBase := .ofCallee 14 main ⟨3, none⟩ (.function g) []

/-- Two ways lead from `f` to `g`, and one is caught. -/
def detourModule : Module :=
  .ofData (.ofCalls [f, h, g, main, cxaThrow] [typeInfoA]
    [throwA, caughtCall, callOfF, callOfH, callOfG]) (by decide)

/-- The exception thrown in `f`. -/
def exceptionA : CurrentException := ⟨some (.globalVariable typeInfoA), throwA⟩

theorem callSites_detourModule :
    detourModule.callSites = [throwA, callOfF, caughtCall, callOfH, callOfG] := by decide

/-- No call receives a function. -/
theorem argumentsHarmless_detourModule :
    ArgumentsHarmless detourModule exceptionA .fresh (ICallSolver.solve detourModule .fresh) := by
  intro c _ _ CB hreceives
  obtain ⟨hCB, hpassed, -⟩ := hreceives
  rw [callSites_detourModule] at hCB
  simp only [List.mem_cons, List.not_mem_nil, or_false] at hCB
  rcases hCB with rfl | rfl | rfl | rfl | rfl
  · simp [throwA, CallBase.ofCallee] at hpassed
  all_goals exact absurd hpassed List.not_mem_nil

theorem possibleCallee_f {CB : CallBase} (h : PossibleCallee detourModule .fresh CB f) :
    CB = caughtCall ∨ CB = callOfF := by
  rcases h with ⟨hCB, hresolves⟩ | ⟨hCB, MD, hMD, -⟩ | hvirtual
  · rw [callSites_detourModule] at hCB
    simp only [List.mem_cons, List.not_mem_nil, or_false] at hCB
    rcases hCB with rfl | rfl | rfl | rfl | rfl
    · cases hresolves
    · exact Or.inr rfl
    · exact Or.inl rfl
    · cases hresolves
    · cases hresolves
  · rw [callSites_detourModule] at hCB
    simp only [List.mem_cons, List.not_mem_nil, or_false] at hCB
    rcases hCB with rfl | rfl | rfl | rfl | rfl <;> cases hMD
  · exact absurd hvirtual List.not_mem_nil

end Detour

/-- What the paths of the sample graph say. -/
theorem pathsDrawn_detourModule :
    PathsDrawn Detour.detourModule Detour.exceptionA .fresh
      (ICallSolver.solve Detour.detourModule .fresh)
      (buildChildsMap Detour.detourModule Detour.exceptionA ∅ .fresh
        (ICallSolver.solve Detour.detourModule .fresh)) :=
  pathsDrawn_buildChildsMap _ _ _ _ Detour.argumentsHarmless_detourModule

/-- The path from `f` straight to `g` is drawn, though the only call of `f` in `g` catches the
exception. -/
theorem caught_edge_on_path :
    ¬ ∀ path, PathToLeak Detour.exceptionA
        (buildChildsMap Detour.detourModule Detour.exceptionA ∅ .fresh
          (ICallSolver.solve Detour.detourModule .fresh)).childsMap path →
      path.IsChain fun F G => ∃ CB, PossibleCallee Detour.detourModule .fresh CB F ∧
        CB.function = G ∧ (canBeCaught CB Detour.exceptionA .fresh).1 = false := by
  intro h
  have hpath : PathToLeak Detour.exceptionA
      (buildChildsMap Detour.detourModule Detour.exceptionA ∅ .fresh
        (ICallSolver.solve Detour.detourModule .fresh)).childsMap
      [Detour.f, Detour.g, Detour.main] := by
    refine ⟨rfl, ?_, Detour.main, rfl, rfl, ?_⟩
    · unfold Drawn
      decide
    · unfold Drawn
      decide
  have hchain := h _ hpath
  rw [List.isChain_cons_cons] at hchain
  obtain ⟨⟨CB, hcallee, hfun, hcatch⟩, -⟩ := hchain
  -- of the two calls of `f`, the one in `g` catches
  rcases Detour.possibleCallee_f hcallee with rfl | rfl
  · exact absurd hcatch (by decide)
  · exact absurd hfun (by decide)

end Ehgp
