import Ehgp.Callers
import Ehgp.Drawing

/-!
# Which edges are calls

The users of a function are all calls that mention it, and the loop does not ask
whether a call has the function as its callee.  A call that only receives a
function as an argument is followed like a call of it.  This does no harm exactly
where such a call stands beside a real one.

## Main definitions

* `PossibleCallee` — a call may call a function.
* `OnlyReceives` — a call has a function among its arguments and cannot call it.
* `ReachedByCalls` — the call sites the exception reaches along possible calls.
* `EdgesAreCalls` — the graph is made of possible calls.
* `ArgumentsHarmless` — the calls that only receive a function add nothing.

## Main results

* `Reached.exists_byCalls` — functions reached are reached along possible calls.
* `exists_call_of_edge` — the calls edges stand for after both analyses.
* `edgesAreCalls_iff` — **when every edge is a call.**
-/

namespace Ehgp

/-- A function is a possible callee of a call: it is what the callee resolves to, or the
`!callees` node lists it, or the analyzer has recorded the virtual call for it. -/
def PossibleCallee (M : Module) (A : VCallCandidatesAnalyzer) (CB : CallBase) (F : Function) :
    Prop :=
  CallsResolved M CB F ∨ RecordedFor M A CB F

/-- A call receives a function as an argument or in a bundle, and cannot call it. -/
def OnlyReceives (M : Module) (A : VCallCandidatesAnalyzer) (CB : CallBase) (F : Function) :
    Prop :=
  CB ∈ M.callSites ∧ .function F ∈ CB.args ++ CB.bundleOperands ∧ ¬ PossibleCallee M A CB F

/-- The call sites the exception reaches along possible calls, of those the tool knows. -/
def ReachedByCalls (M : Module) (E : CurrentException) (A : VCallCandidatesAnalyzer)
    (S : ICallSolver) : CallBase → Prop :=
  Relation.ReflTransGen
    (fun c c' => Propagates M E A S c c' ∧ PossibleCallee M A c' c.function) E.throwSite

/-- The graph is made of possible calls; calls that only receive a function contribute nothing. -/
structure EdgesAreCalls (M : Module) (E : CurrentException) (A : VCallCandidatesAnalyzer)
    (S : ICallSolver) (r : BuildState) : Prop where
  /-- An edge from `F` to `G` stands for a call in `G` with `F` as a possible callee. -/
  edge : ∀ F G, Drawn r.childsMap (.fn F) (.fn G) →
    ∃ CB, PossibleCallee M A CB F ∧ CB.function = G
  /-- The function of a call site expanded is reached along possible calls. -/
  expanded : ∀ c ∈ r.visited, ∃ c', ReachedByCalls M E A S c' ∧ c'.function = c.function
  /-- A node is such a function, or has a call of one. -/
  node : ∀ G, .fn G ∈ r.childsMap →
    ∃ c, ReachedByCalls M E A S c ∧
      (c.function = G ∨ ∃ CB, PossibleCallee M A CB c.function ∧ CB.function = G)
  /-- Where the exception leaks, it reaches main along possible calls. -/
  leaked : r.leaked = true → ∃ c, ReachedByCalls M E A S c ∧ c.function.IsMain

/-- Wherever a function on a chain of possible calls is passed to a call that cannot call it, the
function of that call has a possible call of it as well; and unless the call can catch the
exception, its function lies on a chain of possible calls, too. -/
def ArgumentsHarmless (M : Module) (E : CurrentException) (A : VCallCandidatesAnalyzer)
    (S : ICallSolver) : Prop :=
  ∀ c, ReachedByCalls M E A S c → ¬ c.function.IsMain →
    ∀ CB, OnlyReceives M A CB c.function →
      (∃ CB', PossibleCallee M A CB' c.function ∧ CB'.function = CB.function) ∧
        ((canBeCaught CB E A).1 = false →
          ∃ c', ReachedByCalls M E A S c' ∧ c'.function = CB.function)

section

variable {M : Module} {E : CurrentException} {A : VCallCandidatesAnalyzer} {S : ICallSolver}

theorem ReachedByCalls.reached {c : CallBase} (h : ReachedByCalls M E A S c) :
    Reached M E A S c :=
  Relation.ReflTransGen.mono (fun _ _ hstep => hstep.1) _ _ h

/-- A known caller may call the function, or only receives it. -/
theorem possibleCallee_or_onlyReceives {CB : CallBase} {F : Function}
    (h : CB ∈ callersOf M A (ICallSolver.solve M .fresh) F) :
    PossibleCallee M A CB F ∨ OnlyReceives M A CB F := by
  by_cases hcallee : PossibleCallee M A CB F
  · exact Or.inl hcallee
  · apply Or.inr
    rcases mem_callersOf_solve.mp h with ⟨hmem, hop⟩ | hanswer
    · refine ⟨hmem, ?_, hcallee⟩
      rcases List.mem_append.mp hop with hpassed | hcalled
      · exact hpassed
      · -- the called operand may be called
        have hcalled : CB.calledOperand = .function F := (List.mem_singleton.mp hcalled).symm
        have hresolves : ResolvesTo M CB.calledOperand F := hcalled ▸ .function F
        exact absurd (Or.inl ⟨hmem, hresolves⟩) hcallee
    · have hrecorded : RecordedFor M A CB F := hanswer.imp id And.left
      exact absurd (Or.inr hrecorded) hcallee

theorem OnlyReceives.mem_callersOf {CB : CallBase} {F : Function} (h : OnlyReceives M A CB F) :
    CB ∈ callersOf M A (ICallSolver.solve M .fresh) F := by
  obtain ⟨hmem, hpassed, -⟩ := h
  exact mem_callersOf_solve.mpr (Or.inl ⟨hmem, List.mem_append_left _ hpassed⟩)

/-- **Functions reached are reached along possible calls**, where arguments are harmless. -/
theorem Reached.exists_byCalls
    (h : ArgumentsHarmless M E A (ICallSolver.solve M .fresh)) {c : CallBase}
    (hc : Reached M E A (ICallSolver.solve M .fresh) c) :
    ∃ c', ReachedByCalls M E A (ICallSolver.solve M .fresh) c' ∧ c'.function = c.function := by
  unfold Reached at hc
  induction hc with
  | refl => exact ⟨E.throwSite, .refl, rfl⟩
  | @tail b c _ hstep ih =>
    obtain ⟨b', hb', hfun⟩ := ih
    obtain ⟨hmain, hcaller, hcatch⟩ := hstep
    rw [← hfun] at hmain hcaller
    rcases possibleCallee_or_onlyReceives hcaller with hcallee | hreceives
    · exact ⟨c, hb'.tail ⟨⟨hmain, hcaller, hcatch⟩, hcallee⟩, rfl⟩
    · exact (h b' hb' hmain c hreceives).2 hcatch

/-- **An edge stands for a possible call** of a function reached along possible calls, where
arguments are harmless. -/
theorem Exact.edge_byCalls {r : BuildState}
    (hexact : Exact M E A (ICallSolver.solve M .fresh) r)
    (h : ArgumentsHarmless M E A (ICallSolver.solve M .fresh)) {F G : Function}
    (hdrawn : Drawn r.childsMap (.fn F) (.fn G)) :
    ∃ c, ReachedByCalls M E A (ICallSolver.solve M .fresh) c ∧ c.function = F ∧
      ∃ CB, PossibleCallee M A CB F ∧ CB.function = G := by
  obtain ⟨hmain, ⟨c, hc, rfl⟩, CB, hcaller, rfl⟩ := (hexact.edge F G).mp hdrawn
  obtain ⟨c', hc', hfun⟩ := hc.exists_byCalls h
  refine ⟨c', hc', hfun, ?_⟩
  rcases possibleCallee_or_onlyReceives hcaller with hcallee | hreceives
  · exact ⟨CB, hcallee, rfl⟩
  · -- the call is followed without calling: the condition names another one
    rw [← hfun] at hmain hreceives ⊢
    exact (h c' hc' hmain CB hreceives).1

/-- After `analyze` a possible callee is one the module gives. -/
theorem possibleCallee_iff {L : LLVM}
    (hA : VCallCandidatesAnalyzer.analyze L M .fresh = .ok A) {CB : CallBase} {F : Function} :
    PossibleCallee M A CB F ↔
      CB ∈ M.callSites ∧ (ResolvesTo M CB.calledOperand F ∨ CB.Lists F ∨ Candidate L M CB F) := by
  unfold PossibleCallee CallsResolved RecordedFor
  rw [callerMap_of_fresh (analyze_eq_analyzeIn L M _ ▸ hA)]
  simp only [and_or_left]

/-- **After both analyses every edge is a call**, where arguments are harmless: its callee resolves
to the function, or its `!callees` node lists it, or it is a virtual call with the function in its
slot. -/
theorem exists_call_of_edge {L : LLVM}
    (hA : VCallCandidatesAnalyzer.analyze L M .fresh = .ok A)
    (h : ArgumentsHarmless M E A (ICallSolver.solve M .fresh)) (ChildsMap : ChildsMapType)
    {F G : Function} (hdrawn : Drawn (buildChildsMap M E ChildsMap A
      (ICallSolver.solve M .fresh)).childsMap (.fn F) (.fn G)) :
    ∃ CB ∈ M.callSites, CB.function = G ∧
      (ResolvesTo M CB.calledOperand F ∨ CB.Lists F ∨ Candidate L M CB F) := by
  obtain ⟨-, -, -, CB, hcallee, hG⟩ := (exact_buildChildsMap ChildsMap).edge_byCalls h hdrawn
  obtain ⟨hCB, hcall⟩ := (possibleCallee_iff hA).mp hcallee
  exact ⟨CB, hCB, hG, hcall⟩

end

/-- **When every edge is a call**: exactly when the calls that only receive a function are
harmless. -/
theorem edgesAreCalls_iff (M : Module) (E : CurrentException) (ChildsMap : ChildsMapType)
    (A : VCallCandidatesAnalyzer) :
    EdgesAreCalls M E A (ICallSolver.solve M .fresh)
        (buildChildsMap M E ChildsMap A (ICallSolver.solve M .fresh)) ↔
      ArgumentsHarmless M E A (ICallSolver.solve M .fresh) := by
  have hexact := exact_buildChildsMap (M := M) (E := E) (A := A)
    (S := ICallSolver.solve M .fresh) ChildsMap
  constructor
  · -- a call that only receives the function is a caller: its edge and its chain are justified
    intro h c hc hmain CB hreceives
    have hcaller := hreceives.mem_callersOf
    constructor
    · exact h.edge _ _ ((hexact.edge _ _).mpr ⟨hmain, ⟨c, hc.reached, rfl⟩, CB, hcaller, rfl⟩)
    · intro hcatch
      have hreach : Reached M E A (ICallSolver.solve M .fresh) CB :=
        hc.reached.tail ⟨hmain, hcaller, hcatch⟩
      exact h.expanded CB ((hexact.visited CB).mpr hreach)
  · -- every function reached is reached along possible calls
    intro h
    constructor
    · intro F G hdrawn
      obtain ⟨-, -, -, hcall⟩ := hexact.edge_byCalls h hdrawn
      exact hcall
    · intro c hc
      exact ((hexact.visited c).mp hc).exists_byCalls h
    · intro G hG
      rcases (hexact.key _).mp hG with ⟨c, hc, heq⟩ | ⟨m, hm⟩
      · obtain ⟨c', hc', hfun⟩ := hc.exists_byCalls h
        exact ⟨c', hc', Or.inl (hfun.trans (Node.fn.inj heq).symm)⟩
      · obtain ⟨F, rfl⟩ := hexact.source_eq hm
        obtain ⟨c, hc, rfl, hcall⟩ := hexact.edge_byCalls h hm
        exact ⟨c, hc, Or.inr hcall⟩
    · intro hleak
      obtain ⟨c, hc, hmain⟩ := hexact.leaked.mp hleak
      obtain ⟨c', hc', hfun⟩ := hc.exists_byCalls h
      exact ⟨c', hc', hfun ▸ hmain⟩

/-! #### A callback that is registered -/

namespace Callback

/-- The callback, which throws an exception. -/
def callback : Function := .ofName 0 "_Z8callbackv"

/-- The function that registers it without calling it. -/
def main : Function := .ofName 1 "main"

/-- The runtime function that throws. -/
def cxaThrow : Function := .ofName 2 "__cxa_throw"

/-- What the callback is registered with. -/
def atexit : Function := { Function.ofName 3 "atexit" with noUnwind := true }

/-- The throw in the callback. -/
def throwSite : CallBase :=
  .ofCallee 10 callback ⟨0, none⟩ (.function cxaThrow)
    [.other 0, .globalVariable Sample.typeInfoA, .null]

/-- The registration: the callback is an argument. -/
def registration : CallBase :=
  .ofCallee 11 main ⟨1, none⟩ (.function atexit) [.function callback]

/-- A program whose only calls are these two. -/
def registeringModule : Module :=
  .ofData (.ofCalls [callback, main, cxaThrow, atexit] [Sample.typeInfoA]
    [throwSite, registration]) (by decide)

/-- The exception of the throw. -/
def exceptionA : CurrentException := ⟨some (.globalVariable Sample.typeInfoA), throwSite⟩

end Callback

/-- The registration is followed to main, where the exception is reported to leak. -/
theorem registration_followed :
    ¬ EdgesAreCalls Callback.registeringModule Callback.exceptionA .fresh
      (ICallSolver.solve Callback.registeringModule .fresh)
      (buildChildsMap Callback.registeringModule Callback.exceptionA ∅ .fresh
        (ICallSolver.solve Callback.registeringModule .fresh)) := by
  intro h
  obtain ⟨CB, hcallee, -⟩ := h.edge Callback.callback Callback.main (by unfold Drawn; decide)
  have hsites : Callback.registeringModule.callSites =
      [Callback.throwSite, Callback.registration] := by decide
  rcases hcallee with ⟨hCB, hresolves⟩ | ⟨hCB, MD, hMD, -⟩ | hvirtual
  · -- neither call has a callee that resolves to the callback
    rw [hsites] at hCB
    rcases List.mem_pair.mp hCB with rfl | rfl
    · cases hresolves
    · cases hresolves
  · rw [hsites] at hCB
    rcases List.mem_pair.mp hCB with rfl | rfl
    · cases hMD
    · cases hMD
  · exact absurd hvirtual List.not_mem_nil

end Ehgp
