import Ehgp.Catching
import Ehgp.Drawing

/-!
# Landing pads

The test of a landing pad is compared with the search of the personality
routine, which tries catch and filter clauses in order.  The tool knows nothing
of filters: it looks for a catch clause that selects.  And the test is monotone
in the clauses, so a module with more handlers has a smaller graph.

## Main definitions

* `Clause.Selects`, `search` — the search of the personality routine.
* `SearchesCatchClauses` — the test looks for a catch clause that selects.
* `MoreHandlers`, `SameResolvers` — two modules that differ in their handlers.
* `NoWorse` — what the second one's graph has, the first one's has.

## Main results

* `canBeCaught_search` — **what the test looks for.**
* `NoWorse.of_exact` — when a graph is part of another.
* `Reached.of_moreHandlers` — the call sites reached with more handlers are reached without.
* `moreHandlers_noWorse` — **more handlers never make things worse.**
-/

namespace Ehgp

/-! ### The search of the personality routine -/

section

variable (A : VCallCandidatesAnalyzer) (X : Value)

instance : DecidablePred (Clause.CatchesType A X)
  | .catchClause _ => inferInstanceAs (Decidable (_ ∨ _ ∨ _))
  | .filterClause _ => inferInstanceAs (Decidable False)

/-- A clause selects an exception of type `X`: a catch clause when it catches `X`, a filter when
nothing in its array does. -/
def Clause.Selects : Clause → Prop
  | .catchClause typeInfo => (Clause.catchClause typeInfo).CatchesType A X
  | .filterClause typeInfos =>
    ∀ typeInfo ∈ typeInfos, ¬ (Clause.catchClause typeInfo).CatchesType A X

instance : DecidablePred (Clause.Selects A X)
  | .catchClause typeInfo =>
    inferInstanceAs (Decidable ((Clause.catchClause typeInfo).CatchesType A X))
  | .filterClause _ => inferInstanceAs (Decidable (∀ typeInfo ∈ _, _))

/-- The first clause that selects, in the order of the landing pad. -/
def search (clauses : List Clause) : Option Clause :=
  clauses.find? fun clause => decide (clause.Selects A X)

/-- A catch clause. -/
def Clause.isCatch : Clause → Bool
  | .catchClause _ => true
  | .filterClause _ => false

/-- The test agrees with the search, at the landing pads of invokes, plain calls and cleanups. -/
structure AgreesWithSearch (E : CurrentException) : Prop where
  invoke : ∀ CB normalDest unwindDest LPad, CB.kind = .invoke normalDest unwindDest →
    unwindDest.landingPad = some LPad →
      ((canBeCaught CB E A).1 = true ↔ (search A X LPad.clauses).isSome = true)
  call : ∀ CB, CB.kind = .call → (canBeCaught CB E A).1 = false
  cleanup : ∀ CB normalDest unwindDest LPad, CB.kind = .invoke normalDest unwindDest →
    unwindDest.landingPad = some LPad → LPad.clauses = [] → (canBeCaught CB E A).1 = false

/-- The test agrees with a search over the catch clauses. -/
structure SearchesCatchClauses (E : CurrentException) : Prop where
  invoke : ∀ CB normalDest unwindDest LPad, CB.kind = .invoke normalDest unwindDest →
    unwindDest.landingPad = some LPad →
      ((canBeCaught CB E A).1 = true ↔
        (search A X (LPad.clauses.filter (·.isCatch))).isSome = true)
  /-- It agrees with the search over all clauses unless a filter alone selects. -/
  filters : ∀ CB normalDest unwindDest LPad, CB.kind = .invoke normalDest unwindDest →
    unwindDest.landingPad = some LPad →
      (((canBeCaught CB E A).1 = true ↔ (search A X LPad.clauses).isSome = true) ↔
        ∀ typeInfos, .filterClause typeInfos ∈ LPad.clauses →
          (Clause.filterClause typeInfos).Selects A X →
            ∃ clause ∈ LPad.clauses, clause.CatchesType A X)
  call : ∀ CB, CB.kind = .call → (canBeCaught CB E A).1 = false
  cleanup : ∀ CB normalDest unwindDest LPad, CB.kind = .invoke normalDest unwindDest →
    unwindDest.landingPad = some LPad → LPad.clauses = [] → (canBeCaught CB E A).1 = false

variable {A X}

theorem search_isSome {clauses : List Clause} :
    (search A X clauses).isSome = true ↔ ∃ clause ∈ clauses, clause.Selects A X := by
  unfold search
  rw [List.find?_isSome]
  simp only [decide_eq_true_eq]

theorem search_isCatch {clauses : List Clause} :
    (search A X (clauses.filter (·.isCatch))).isSome = true ↔
      ∃ clause ∈ clauses, clause.CatchesType A X := by
  rw [search_isSome]
  constructor
  · intro h
    obtain ⟨clause, hmem, hselects⟩ := h
    obtain ⟨hmem, hcatch⟩ := List.mem_filter.mp hmem
    cases clause with
    | catchClause typeInfo => exact ⟨_, hmem, hselects⟩
    | filterClause typeInfos => cases hcatch
  · intro h
    obtain ⟨clause, hmem, hcatches⟩ := h
    cases clause with
    | catchClause typeInfo => exact ⟨_, List.mem_filter.mpr ⟨hmem, rfl⟩, hcatches⟩
    | filterClause typeInfos => exact absurd hcatches id

/-- The clauses the test prunes an exception of known type at. -/
theorem clauseCatches_known (T : CallBase) (clause : Clause) :
    (clauseCatches ⟨some X, T⟩ A clause).1 = true ↔ clause.CatchesType A X := by
  cases clause with
  | filterClause typeInfos => exact iff_of_false (by simp [clauseCatches]) id
  | catchClause typeInfo =>
    unfold clauseCatches Clause.CatchesType
    dsimp only
    by_cases hnull : typeInfo = .null
    · simp [hnull]
    · by_cases hX : typeInfo = X
      · simp [hX]
      · simp [hnull, hX]

theorem canBeCaught_invoke (T : CallBase) {CB : CallBase} {normalDest unwindDest : BasicBlock}
    {LPad : LandingPad} (hkind : CB.kind = .invoke normalDest unwindDest)
    (hpad : unwindDest.landingPad = some LPad) :
    (canBeCaught CB ⟨some X, T⟩ A).1 = true ↔ ∃ clause ∈ LPad.clauses, clause.CatchesType A X := by
  have hclauses : CB.padClauses = LPad.clauses := by
    unfold CallBase.padClauses
    rw [hkind]
    dsimp only
    rw [hpad]
    rfl
  rw [canBeCaught_eq, hclauses, List.any_eq_true]
  simp only [clauseCatches_known]

theorem canBeCaught_call (E : CurrentException) (A : VCallCandidatesAnalyzer) {CB : CallBase}
    (hkind : CB.kind = .call) : (canBeCaught CB E A).1 = false := by
  unfold canBeCaught
  rw [hkind]

/-- **What the test looks for**: a catch clause that selects the exception.  Filters it does not
know. -/
theorem canBeCaught_search (A : VCallCandidatesAnalyzer) (X : Value) (T : CallBase) :
    SearchesCatchClauses A X ⟨some X, T⟩ where
  invoke CB normalDest unwindDest LPad hkind hpad := by
    rw [canBeCaught_invoke T hkind hpad, search_isCatch]
  filters CB normalDest unwindDest LPad hkind hpad := by
    rw [canBeCaught_invoke T hkind hpad, search_isSome]
    constructor
    · intro h typeInfos hmem hselects
      exact h.mpr ⟨_, hmem, hselects⟩
    · intro h
      constructor
      · -- a catch clause that catches selects as well
        intro hcatches
        rw [← search_isCatch, search_isSome] at hcatches
        obtain ⟨clause, hmem, hselects⟩ := hcatches
        exact ⟨clause, List.mem_of_mem_filter hmem, hselects⟩
      · intro hselects
        obtain ⟨clause, hmem, hselects⟩ := hselects
        cases clause with
        | catchClause typeInfo => exact ⟨_, hmem, hselects⟩
        | filterClause typeInfos => exact h typeInfos hmem hselects
  call CB hkind := canBeCaught_call _ A hkind
  cleanup CB normalDest unwindDest LPad hkind hpad hclauses := by
    rw [← Bool.not_eq_true, canBeCaught_invoke T hkind hpad, hclauses]
    intro h
    obtain ⟨clause, hmem, -⟩ := h
    exact absurd hmem List.not_mem_nil

end

/-! #### A function that throws nothing -/

namespace Pads

/-- The call of `f` in `g`, whose specification `throw()` was inlined: the landing pad has an
empty filter. -/
def filteredCall : CallBase := { CallBase.ofCallee 12 g (plain 24) (.function f) [] with
  kind := .invoke (plain 25) ⟨31, some ⟨false, [.filterClause []]⟩⟩ }

end Pads

/-- The personality routine stops at an empty filter, the test does not. -/
theorem empty_filter_ignored :
    ¬ ∀ (A : VCallCandidatesAnalyzer) (X : Value) (T : CallBase),
      AgreesWithSearch A X ⟨some X, T⟩ := by
  intro h
  have hagree := (h .fresh (.globalVariable Pads.typeInfoA) Pads.throwA).invoke
    Pads.filteredCall (Pads.plain 25) ⟨31, some ⟨false, [.filterClause []]⟩⟩
    ⟨false, [.filterClause []]⟩ rfl rfl
  exact absurd (hagree.mpr (by decide)) (by decide)

/-! ### More handlers -/

/-- The landing pad has the same clauses and perhaps more, in any place. -/
def LandingPad.Extends (LPad LPad' : LandingPad) : Prop := LPad.clauses.Sublist LPad'.clauses

/-- A call of the second module is that of the first, or has more handlers: its landing pad has
additional clauses, or it was a plain call and has become an invoke with a landing pad. -/
inductive HandlersAdded : CallKind → CallKind → Prop
  | same (kind : CallKind) : HandlersAdded kind kind
  | clauses {normalDest normalDest' unwindDest unwindDest' : BasicBlock}
      {LPad LPad' : LandingPad} (hpad : unwindDest.landingPad = some LPad)
      (hpad' : unwindDest'.landingPad = some LPad') (h : LPad.Extends LPad') :
      HandlersAdded (.invoke normalDest unwindDest) (.invoke normalDest' unwindDest')
  | invoke {normalDest unwindDest : BasicBlock} {LPad : LandingPad}
      (hpad : unwindDest.landingPad = some LPad) :
      HandlersAdded .call (.invoke normalDest unwindDest)

/-- Two modules differ in the handlers of their calls; `φ` takes the calls of the first to those
of the second. -/
structure MoreHandlers (M M' : Module) (φ : CallBase → CallBase) : Prop where
  callSites : M'.callSites.Perm (M.callSites.map φ)
  function : ∀ CB, (φ CB).function = CB.function
  operands : ∀ CB, (φ CB).operands = CB.operands
  kind : ∀ CB, HandlersAdded CB.kind (φ CB).kind

/-- The resolvers of the two modules give equal answers. -/
structure SameResolvers (φ : CallBase → CallBase) (A A' : VCallCandidatesAnalyzer)
    (S S' : ICallSolver) : Prop where
  derivedFrom : ∀ Base Derived, (A'.derivedFrom Base Derived).1 = (A.derivedFrom Base Derived).1
  callSites : ∀ F, (S'.getCallSites F []).1.1 = (S.getCallSites F []).1.1 ∧
    ∀ CB', .callBase CB' ∈ (S'.getCallSites F []).1.2 ↔
      ∃ CB, .callBase CB ∈ (S.getCallSites F []).1.2 ∧ φ CB = CB'
  callerCandidates : ∀ F,
    (A'.getCallerCandidates F []).1.1 = (A.getCallerCandidates F []).1.1 ∧
      ∀ CB', .callBase CB' ∈ (A'.getCallerCandidates F []).1.2 ↔
        ∃ CB, .callBase CB ∈ (A.getCallerCandidates F []).1.2 ∧ φ CB = CB'

/-- Where the calls are the same ones, equal answers are equal both ways. -/
theorem SameResolvers.symm {A A' : VCallCandidatesAnalyzer} {S S' : ICallSolver}
    (h : SameResolvers id A A' S S') : SameResolvers id A' A S' S where
  derivedFrom Base Derived := (h.derivedFrom Base Derived).symm
  callSites F := by
    obtain ⟨hfound, hcalls⟩ := h.callSites F
    exact ⟨hfound.symm, fun CB => by simp [hcalls]⟩
  callerCandidates F := by
    obtain ⟨hfound, hcalls⟩ := h.callerCandidates F
    exact ⟨hfound.symm, fun CB => by simp [hcalls]⟩

/-- The exception of the second module: the same type is thrown at the call that corresponds. -/
def CurrentException.map (φ : CallBase → CallBase) (E : CurrentException) : CurrentException :=
  ⟨E.exceptionValue, φ E.throwSite⟩

/-- The second graph is a part of the first: its call sites expanded, its edges, its keys and
its verdict. -/
structure NoWorse (φ : CallBase → CallBase) (r r' : BuildState) : Prop where
  expanded : ∀ c' ∈ r'.visited, ∃ c ∈ r.visited, φ c = c'
  edges : ∀ n n', Drawn r'.childsMap n n' → Drawn r.childsMap n n'
  keys : ∀ n ∈ r'.childsMap, n ∈ r.childsMap
  leaked : r'.leaked = true → r.leaked = true

section

variable {M M' : Module} {φ : CallBase → CallBase} {E : CurrentException}
  {A A' : VCallCandidatesAnalyzer} {S S' : ICallSolver}

theorem HandlersAdded.padClauses_subset {CB CB' : CallBase}
    (h : HandlersAdded CB.kind CB'.kind) : CB.padClauses ⊆ CB'.padClauses := by
  unfold CallBase.padClauses
  generalize CB.kind = kind at h
  generalize CB'.kind = kind' at h
  cases h with
  | same => exact List.Subset.refl _
  | clauses hpad hpad' h =>
    dsimp only
    rw [hpad, hpad']
    exact h.subset
  | invoke hpad => exact List.nil_subset _

theorem SameResolvers.clauseCatches_eq (h : SameResolvers φ A A' S S') (clause : Clause) :
    (clauseCatches (E.map φ) A' clause).1 = (clauseCatches E A clause).1 := by
  have hvalue : (E.map φ).exceptionValue = E.exceptionValue := rfl
  unfold clauseCatches
  rw [hvalue]
  cases clause with
  | filterClause typeInfos => rfl
  | catchClause typeInfo =>
    cases E.exceptionValue with
    | none =>
      dsimp only
      split
      · rfl
      · cases typeInfo <;> rfl
    | some V =>
      dsimp only
      split
      · rfl
      · split
        · rfl
        · -- only here a resolver is asked
          exact h.derivedFrom typeInfo V

/-- **The test is monotone in the handlers**, for exceptions of known and of unknown type. -/
theorem canBeCaught_mono (h : MoreHandlers M M' φ) (hres : SameResolvers φ A A' S S')
    {CB : CallBase} (hcatch : (canBeCaught CB E A).1 = true) :
    (canBeCaught (φ CB) (E.map φ) A').1 = true := by
  rw [canBeCaught_eq, List.any_eq_true] at hcatch ⊢
  obtain ⟨clause, hmem, hclause⟩ := hcatch
  refine ⟨clause, (h.kind CB).padClauses_subset hmem, ?_⟩
  rw [hres.clauseCatches_eq]
  exact hclause

/-- The callers that the resolver with an entry for a function has. -/
theorem SameResolvers.exists_caller (h : SameResolvers φ A A' S S') {F : Function}
    {CB' : CallBase}
    (hcall : .callBase CB' ∈ if F ∈ S'.callSitesMap then S'.callSitesMap.get F
      else A'.callerMap.get F) :
    ∃ CB, (.callBase CB ∈ if F ∈ S.callSitesMap then S.callSitesMap.get F
      else A.callerMap.get F) ∧ φ CB = CB' := by
  have hsolver := h.callSites F
  have hcandidates := h.callerCandidates F
  simp only [ICallSolver.getCallSites_result, List.nil_append, decide_eq_decide] at hsolver
  simp only [VCallCandidatesAnalyzer.getCallerCandidates_result, List.nil_append,
    decide_eq_decide] at hcandidates
  -- both modules ask the same resolver
  by_cases hF : F ∈ S.callSitesMap
  · rw [if_pos (hsolver.1.mpr hF)] at hcall
    rw [if_pos hF]
    exact (hsolver.2 CB').mp hcall
  · rw [if_neg (mt hsolver.1.mp hF)] at hcall
    rw [if_neg hF]
    exact (hcandidates.2 CB').mp hcall

theorem MoreHandlers.exists_caller (h : MoreHandlers M M' φ) (hres : SameResolvers φ A A' S S')
    {F : Function} {CB' : CallBase} (hcall : CB' ∈ callersOf M' A' S' F) :
    ∃ CB ∈ callersOf M A S F, φ CB = CB' := by
  simp only [callersOf, callerUsers, mem_callBases, List.mem_append, Module.mem_users] at *
  rcases hcall with ⟨hmem, hop⟩ | hcall
  · obtain ⟨CB, hCB, rfl⟩ := List.mem_map.mp (h.callSites.mem_iff.mp hmem)
    rw [h.operands] at hop
    exact ⟨CB, Or.inl ⟨hCB, hop⟩, rfl⟩
  · obtain ⟨CB, hCB, rfl⟩ := hres.exists_caller hcall
    exact ⟨CB, Or.inr hCB, rfl⟩

/-- **The call sites reached with more handlers are reached without**: a step of the second
propagation is one of the first. -/
theorem Reached.of_moreHandlers (h : MoreHandlers M M' φ) (hres : SameResolvers φ A A' S S')
    {c' : CallBase} (hc : Reached M' (E.map φ) A' S' c') : ∃ c, Reached M E A S c ∧ φ c = c' := by
  unfold Reached at hc
  induction hc with
  | refl => exact ⟨E.throwSite, .refl, rfl⟩
  | tail _ hstep ih =>
    obtain ⟨b, hb, rfl⟩ := ih
    obtain ⟨hmain, hcaller, hcatch⟩ := hstep
    rw [h.function] at hmain hcaller
    obtain ⟨c, hc, rfl⟩ := h.exists_caller hres hcaller
    refine ⟨c, hb.tail ⟨hmain, hc, ?_⟩, rfl⟩
    -- a handler of the first module would catch in the second as well
    by_contra hcatches
    rw [canBeCaught_mono h hres (Bool.eq_true_of_not_eq_false hcatches)] at hcatch
    cases hcatch

/-- **A graph is part of another** when its call sites reached and its callers come from there. -/
theorem NoWorse.of_exact {E' : CurrentException} {r r' : BuildState} (hexact : Exact M E A S r)
    (hexact' : Exact M' E' A' S' r') (hfun : ∀ c, (φ c).function = c.function)
    (hreach : ∀ c', Reached M' E' A' S' c' → ∃ c, Reached M E A S c ∧ φ c = c')
    (hcallers : ∀ F, ∀ c' ∈ callersOf M' A' S' F, ∃ c ∈ callersOf M A S F, φ c = c') :
    NoWorse φ r r' := by
  have hfunction : ∀ c', Reached M' E' A' S' c' →
      ∃ c, Reached M E A S c ∧ c.function = c'.function := by
    intro c' hc'
    obtain ⟨c, hc, rfl⟩ := hreach c' hc'
    exact ⟨c, hc, (hfun c).symm⟩
  have hedges : ∀ n n', Drawn r'.childsMap n n' → Drawn r.childsMap n n' := by
    intro n n' hn
    obtain ⟨F, rfl⟩ := hexact'.source_eq hn
    cases n' with
    | leak =>
      obtain ⟨hmain, c', hc', hF⟩ := (hexact'.leakEdge F).mp hn
      obtain ⟨c, hc, hcF⟩ := hfunction c' hc'
      exact (hexact.leakEdge F).mpr ⟨hmain, c, hc, hcF.trans hF⟩
    | fn G =>
      obtain ⟨hmain, ⟨c', hc', hF⟩, d', hd', hG⟩ := (hexact'.edge F G).mp hn
      obtain ⟨c, hc, hcF⟩ := hfunction c' hc'
      obtain ⟨d, hd, rfl⟩ := hcallers F d' hd'
      rw [hfun] at hG
      exact (hexact.edge F G).mpr ⟨hmain, ⟨c, hc, hcF.trans hF⟩, d, hd, hG⟩
  -- the keys are the functions reached and the targets of edges, the verdict a function reached
  constructor
  · intro c' hc'
    obtain ⟨c, hc, rfl⟩ := hreach c' ((hexact'.visited c').mp hc')
    exact ⟨c, (hexact.visited c).mpr hc, rfl⟩
  · exact hedges
  · intro n hn
    rcases (hexact'.key n).mp hn with ⟨c', hc', rfl⟩ | ⟨m, hm⟩
    · obtain ⟨c, hc, hcF⟩ := hfunction c' hc'
      exact (hexact.key _).mpr (Or.inl ⟨c, hc, by rw [hcF]⟩)
    · exact hexact.closed (hedges m n hm)
  · intro hleak
    obtain ⟨c', hc', hmain⟩ := hexact'.leaked.mp hleak
    obtain ⟨c, hc, hcF⟩ := hfunction c' hc'
    exact hexact.leaked.mpr ⟨c, hc, by rw [hcF]; exact hmain⟩

/-- **More handlers never make things worse.** -/
theorem moreHandlers_noWorse (h : MoreHandlers M M' φ) (hres : SameResolvers φ A A' S S')
    (E : CurrentException) (ChildsMap ChildsMap' : ChildsMapType) :
    NoWorse φ (buildChildsMap M E ChildsMap A S)
      (buildChildsMap M' (E.map φ) ChildsMap' A' S') := by
  apply NoWorse.of_exact (exact_buildChildsMap ChildsMap) (exact_buildChildsMap ChildsMap')
    h.function
  · intro c' hc'
    exact hc'.of_moreHandlers h hres
  · intro F c' hc'
    exact h.exists_caller hres hc'

end

/-! #### A handler around a call -/

namespace Pads

/-- The call of `f` in `main`, with a handler for `A` around it. -/
def guardedCallOfF : CallBase := { callOfF with
  kind := .invoke (plain 32) (handler 33 typeInfoA) }

/-- The program without the handler. -/
def unguardedModule : Module :=
  .ofData (.ofCalls [f, main, cxaThrow] [typeInfoA] [throwA, callOfF]) (by decide)

/-- The program with it. -/
def guardedModule : Module :=
  .ofData (.ofCalls [f, main, cxaThrow] [typeInfoA] [throwA, guardedCallOfF]) (by decide)

/-- The call that gets the handler. -/
def addHandler (CB : CallBase) : CallBase := if CB = callOfF then guardedCallOfF else CB

theorem moreHandlers_guardedModule : MoreHandlers unguardedModule guardedModule addHandler where
  callSites := by decide
  function CB := by
    unfold addHandler
    split
    · next h => rw [h]; rfl
    · rfl
  operands CB := by
    unfold addHandler
    split
    · next h => rw [h]; rfl
    · rfl
  kind CB := by
    unfold addHandler
    split
    · next h =>
      rw [h]
      exact .invoke rfl
    · exact .same _

theorem sameResolvers_fresh (φ : CallBase → CallBase) :
    SameResolvers φ .fresh .fresh .fresh .fresh where
  derivedFrom _ _ := rfl
  callSites F := by simp [ICallSolver.getCallSites_result, ICallSolver.fresh]
  callerCandidates F := by
    simp [VCallCandidatesAnalyzer.getCallerCandidates_result, VCallCandidatesAnalyzer.fresh]

end Pads

/-- The handler in `main` stops what leaks without it. -/
theorem moreHandlers_guarded :
    NoWorse Pads.addHandler
        (buildChildsMap Pads.unguardedModule Pads.exceptionA ∅ .fresh .fresh)
        (buildChildsMap Pads.guardedModule (Pads.exceptionA.map Pads.addHandler) ∅ .fresh
          .fresh) ∧
      (buildChildsMap Pads.unguardedModule Pads.exceptionA ∅ .fresh .fresh).leaked = true ∧
      (buildChildsMap Pads.guardedModule (Pads.exceptionA.map Pads.addHandler) ∅ .fresh
        .fresh).leaked = false := by
  refine ⟨?_, by decide, by decide⟩
  exact moreHandlers_noWorse Pads.moreHandlers_guardedModule (Pads.sameResolvers_fresh _)
    Pads.exceptionA ∅ ∅

end Ehgp
